import MiniWireshark.Transit

/-!
# One record: what the handlers read and what they keep (`Pcap.cpp:21-257`, `:534-748`)

A record is a header and `caplen` bytes. The handlers check their reads against `caplen`, the UDP
and ICMP branches excepted, and copy `len` bytes where `start_hax` and `pcap_dump` read `caplen`.

| here | meaning |
| --- | --- |
| `HeaderReadsInside h f`  | neither handler reads a header field outside the captured bytes |
| `DumpData.Keeps d f`     | the stored entry holds exactly the captured bytes |
| `StoresCaptured h f`     | both handlers store such an entry, if they accept the frame |
| `Pcap.Readable p`        | no stored entry sends `start_hax` or `save_md` past its `data` |
-/

namespace MiniWireshark

variable {h : Host}

/-! ## Header reads -/

/-- Neither handler leaves the captured bytes while it parses: over `Frame.peek` it always returns. -/
def HeaderReadsInside (h : Host) (f : Frame) : Prop :=
  (∀ num, (Worker.myPacketHandler h f.peek num f).isSome = true) ∧
    ∀ src p, (Pcap.packetFunc h Frame.peek src p f).isSome = true

/-- Both handlers refuse a read exactly where the shared parsing does. -/
theorem isSome_myPacketHandler (h : Host) (rd : Nat → Option UInt8) (num : Nat) (f : Frame) :
    (Worker.myPacketHandler h rd num f).isSome = (decode h rd f.header.caplen.toNat).isSome := by
  unfold Worker.myPacketHandler
  cases decode h rd f.header.caplen.toNat with
  | none => rfl
  | some r => cases r <;> rfl

theorem isSome_packetFunc (h : Host) (rd : Frame → Nat → Option UInt8) (src : Source) (p : Pcap) (f : Frame) :
    (Pcap.packetFunc h rd src p f).isSome = (decode h (rd f) f.header.caplen.toNat).isSome := by
  unfold Pcap.packetFunc
  cases decode h (rd f) f.header.caplen.toNat with
  | none => rfl
  | some r => cases r <;> rfl

/-- **Header reads, both handlers.** They stay inside the captured bytes iff these cover the
unchecked UDP or ICMP fields. -/
theorem header_reads_inside_iff (h : Host) (f : Frame) :
    HeaderReadsInside h f ↔ TransportCaptured f.peek f.header.caplen.toNat := by
  rw [← isSome_decode h f.bounded_peek]
  simp only [HeaderReadsInside, isSome_myPacketHandler, isSome_packetFunc, forall_const]
  exact ⟨fun hr => hr.1, fun hd => ⟨hd, fun _ _ => hd⟩⟩

/-- The first 34 bytes of the packet, as a short snapshot length leaves them. -/
def snappedUdp : Frame where
  header := { caplen := 34, len := 42 }
  packet := udpPacket.take 34
  captured := by decide
  after _ := 0

/-- The UDP ports of a frame cut after its IPv4 header are read past its end. -/
theorem header_reads_leave_snapped_udp : ¬ HeaderReadsInside .little snappedUdp := by
  intro hr
  exact absurd (hr.1 0) (by decide +kernel)

/-! ## Stored bytes -/

/-- The entry holds exactly the captured bytes, and copying them read nothing else. -/
structure DumpData.Keeps (d : DumpData) (f : Frame) : Prop where
  size : d.data.length = d.header.caplen.toNat
  bytes : d.data = f.packet
  copied : ∀ i < d.data.length, (f.peek i).isSome = true

/-- Whatever either handler stores of the frame keeps the captured bytes. -/
def StoresCaptured (h : Host) (f : Frame) : Prop :=
  (∀ num pkt dump, Worker.myPacketHandler h f.read num f = some (some (pkt, dump)) → dump.Keeps f) ∧
    ∀ src p p' e, Pcap.packetFunc h Frame.read src p f = some p' → p'.vecDump = p.vecDump ++ [e] → e.dump.Keeps f

theorem Frame.length_dump (f : Frame) (num : Nat) : (f.dump num).data.length = f.header.len.toNat := by
  simp [Frame.dump, Frame.qByteArray]

/-- The copy is exact iff the two length fields agree. -/
theorem Frame.keeps_dump_iff (f : Frame) (num : Nat) : (f.dump num).Keeps f ↔ f.header.len = f.header.caplen := by
  have hlen := f.length_dump num
  constructor
  · intro hk
    have := hk.size
    rw [hlen] at this
    exact UInt32.toNat_inj.1 this
  · intro he
    have hsize : f.header.len.toNat = f.packet.length := by rw [he, f.captured]
    have hbytes : (f.dump num).data = f.packet := by
      apply List.ext_getElem (by rw [hlen, hsize])
      intro i h1 h2
      simp [Frame.dump, Frame.qByteArray, f.mem_of_lt h2]
    refine ⟨by rw [hlen, hsize, f.captured]; rfl, hbytes, fun i hi => ?_⟩
    rw [hbytes] at hi
    simp [Frame.peek, hi]

theorem storesCaptured_iff (h : Host) (f : Frame) :
    StoresCaptured h f ↔ ((accepted h f).isSome = true → f.header.len = f.header.caplen) := by
  constructor
  · intro hs ha
    obtain ⟨pkt, ha⟩ := Option.isSome_iff_exists.1 ha
    exact (f.keeps_dump_iff 0).1 (hs.1 0 _ _ (Worker.myPacketHandler_eq_some_iff.2 ⟨pkt, ha, rfl, rfl⟩))
  · intro hlen
    have hkeeps {row : StPkt} (ha : accepted h f = some row) (n : Nat) : (f.dump n).Keeps f :=
      (f.keeps_dump_iff n).2 (hlen (by rw [ha]; rfl))
    constructor
    · intro num pkt dump hh
      obtain ⟨row, ha, _, rfl⟩ := Worker.myPacketHandler_eq_some_iff.1 hh
      exact hkeeps ha num
    · intro src p p' e hp he
      obtain ⟨_, rfl⟩ | ⟨row, ha, rfl⟩ := Pcap.packetFunc_cases hp
      · simp at he
      · obtain rfl := (List.cons.inj (List.append_cancel_left he)).1
        exact hkeeps ha p.num

/-! ## The two readers of stored bytes -/

/-- `start_hax` reads `data` up to `caplen`: an entry of that size is never read past its end. -/
theorem isSome_hexDump {d : DumpData} (hd : d.data.length = d.header.caplen.toNat) : (hexDump d).isSome = true := by
  have hlen : toI32 d.header.caplen.toNat ≤ d.data.length := by
    rw [hd, toI32]
    omega
  have hcell (k : Nat) : (hexCell d.data (toI32 d.header.caplen.toNat) k).isSome = true := by
    unfold hexCell
    split
    · have hk : k < d.data.length := by omega
      simp [List.getElem?_eq_getElem hk]
    · rfl
  have hline (i : Nat) : (hexLine d.data (toI32 d.header.caplen.toNat) i).isSome = true :=
    Reader.isSome_bind ((Lists.isSome_mapM _ _).2 fun j _ => hcell (i + j)) fun _ => rfl
  unfold hexDump
  split
  · rfl
  · exact Reader.isSome_bind ((Lists.isSome_mapM _ _).2 fun k _ => hline (16 * k)) fun _ => rfl

/-- `pcap_dump` of an entry with at least `caplen` bytes writes the first `caplen` of them. -/
theorem pcapDump_eq {d : DumpData} (hd : d.header.caplen.toNat ≤ d.data.length) :
    pcapDump d = some ⟨d.header, d.data.take d.header.caplen.toNat⟩ := by
  simp [pcapDump, Lists.mapM_getElem?_range d.data hd]

/-- No stored entry sends `start_hax` or the loop of `save_md` past its `data`. -/
def Pcap.Readable (p : Pcap) : Prop :=
  (∀ idx, (p.startHax idx).isSome = true) ∧ ∀ opens recs, p.saveMd opens = some recs → none ∉ recs

theorem Pcap.readable_of_sizes {p : Pcap}
    (hv : ∀ e ∈ p.vecDump, e.dump.data.length = e.dump.header.caplen.toNat)
    (hf : ∀ e ∈ p.vecDumpFile, e.dump.data.length = e.dump.header.caplen.toNat) : p.Readable := by
  constructor
  · intro idx
    unfold Pcap.startHax
    cases he : p.find idx with
    | none => rfl
    | some e =>
      rcases (Pcap.mem_of_find he).1 with hmem | hmem
      · exact isSome_hexDump (hv e hmem)
      · exact isSome_hexDump (hf e hmem)
  · intro opens recs hs hnone
    simp only [Pcap.saveMd] at hs
    split_ifs at hs
    cases hs
    obtain ⟨e, he, hd⟩ := List.mem_map.1 hnone
    rw [pcapDump_eq (Nat.le_of_eq (hv e he).symm)] at hd
    cases hd

/-! ## Over whole runs -/

/-- Every entry stored in a run comes from an accepted frame of it. -/
theorem Sys.entries_from {acts : List Act} {s : Sys} {P : Frame → Prop}
    (hr : Lts.run (Sys.step h) Sys.init acts = some s)
    (hP : ∀ a ∈ acts, ∀ f ∈ a.frames, (accepted h f).isSome = true → P f) :
    ∀ e ∈ s.entries, ∃ f, e.dump = f.dump e.dump.pktNum ∧ (accepted h f).isSome = true ∧ P f := by
  refine Lts.run_ind (motive := fun as s =>
    (∀ a ∈ as, ∀ f ∈ a.frames, (accepted h f).isSome = true → P f) →
    ∀ e ∈ s.entries, ∃ f, e.dump = f.dump e.dump.pktNum ∧ (accepted h f).isSome = true ∧ P f)
    (fun _ e he => absurd he List.not_mem_nil) ?_ hr hP
  intro as s a s' _ ih hs hP e he
  rcases (Sys.mem_step hs).2 e he with he | he
  · exact ih (fun b hb => hP b (List.mem_append_left _ hb)) e he
  · obtain ⟨p, hp, rfl⟩ := List.mem_map.1 he
    obtain ⟨f, hf, src, k, pkt, ha, rfl⟩ := Sys.mem_taken hp
    have hsome : (accepted h f).isSome = true := by rw [ha]; rfl
    exact ⟨f, rfl, hsome, hP a (List.mem_append_right _ List.mem_cons_self) f hf hsome⟩

/-- In a run whose accepted frames have equal length fields, every entry keeps its captured bytes. -/
theorem Sys.entries_keep {acts : List Act} {s : Sys} (hr : Lts.run (Sys.step h) Sys.init acts = some s)
    (hlen : ∀ a ∈ acts, ∀ f ∈ a.frames, (accepted h f).isSome = true → f.header.len = f.header.caplen) :
    ∀ e ∈ s.entries, ∃ f, e.dump = f.dump e.dump.pktNum ∧ e.dump.Keeps f := by
  intro e he
  obtain ⟨f, hf, _, hlen⟩ := Sys.entries_from hr hlen e he
  refine ⟨f, hf, ?_⟩
  rw [hf]
  exact (f.keeps_dump_iff _).2 hlen

/-- **Stored bytes are the captured bytes, exactly.** A frame the handlers accept is stored as it
was captured iff its two length fields agree; and in a run whose accepted frames all agree, no
stored entry is ever read past its `data`. -/
theorem stored_bytes_captured_iff (h : Host) :
    (∀ f, StoresCaptured h f ↔ ((accepted h f).isSome = true → f.header.len = f.header.caplen)) ∧
    ∀ acts s, Lts.run (Sys.step h) Sys.init acts = some s →
      (∀ a ∈ acts, ∀ f ∈ a.frames, (accepted h f).isSome = true → f.header.len = f.header.caplen) →
      (∀ e ∈ s.entries, ∃ f, e.dump = f.dump e.dump.pktNum ∧ e.dump.Keeps f) ∧ s.pcap.Readable := by
  refine ⟨storesCaptured_iff h, fun acts s hr hlen => ?_⟩
  have hkeep := Sys.entries_keep hr hlen
  refine ⟨hkeep, Pcap.readable_of_sizes (fun e he => ?_) (fun e he => ?_)⟩
  · obtain ⟨f, _, hk⟩ := hkeep e (List.mem_append_left _ he)
    exact hk.size
  · rw [Sys.vecDumpFile_run rfl hr] at he
    exact absurd he List.not_mem_nil

/-- A frame captured whole is stored readable. -/
theorem stored_bytes_captured_run : ∃ s, Lts.run (Sys.step .little) Sys.init (captureOne (udpFrame 42)) = some s ∧
    s.pcap.vecDump.length = 1 ∧ s.pcap.Readable := by
  obtain ⟨s, hs, hlen⟩ : ∃ s, Lts.run (Sys.step .little) Sys.init (captureOne (udpFrame 42)) = some s ∧
      s.pcap.vecDump.length = 1 := Lts.run_reaches (by decide +kernel)
  exact ⟨s, hs, hlen, ((stored_bytes_captured_iff .little).2 _ s hs (by decide +kernel)).2⟩

/-- A frame cut below its original length is stored with bytes beyond the capture, and one whose
`caplen` exceeds its `len` sends `start_hax` past the stored bytes. -/
theorem stored_bytes_differ : ¬ StoresCaptured .little (udpFrame 60) ∧ hexDump ((udpFrame 20).dump 0) = none := by
  constructor
  · rw [storesCaptured_iff]
    decide +kernel
  · decide +kernel

end MiniWireshark

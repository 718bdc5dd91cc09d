import MiniWireshark.Bounds

/-!
# What the handlers store

Both handlers number the frames they accept with a counter of their own and store a row and an
entry for each. `stored` is that result as a function of the frames alone; the operations are
shown to compute it.

| here | meaning |
| --- | --- |
| `accepted h f`       | the row text parsed from `f`, if the handlers accept it |
| `stored h src n fs`  | the rows and entries of the accepted frames of `fs`, numbered from `n` |
| `SameFrame h r e`    | the row `r` and the entry `e` come from one frame |
| `RowOf h f pkt`      | one of the handlers makes the row `pkt` of the frame `f` |
-/

namespace MiniWireshark

/-- What the handlers parse from a frame, if they accept it. -/
def accepted (h : Host) (f : Frame) : Option StPkt := (decode h f.read f.header.caplen.toNat).getD none

theorem decode_read (h : Host) (f : Frame) : decode h f.read f.header.caplen.toNat = some (accepted h f) := by
  obtain ⟨r, hr⟩ := Option.isSome_iff_exists.1 (isSome_decode_total h f.total_read f.header.caplen.toNat)
  rw [accepted, hr, Option.getD_some]

/-- If the captured bytes cover the unchecked fields, parsing them alone gives what the handlers parse. -/
theorem decode_peek {h : Host} {f : Frame} (hc : TransportCaptured f.peek f.header.caplen.toNat) :
    decode h f.peek f.header.caplen.toNat = some (accepted h f) := by
  obtain ⟨r, hr⟩ := Option.isSome_iff_exists.1 ((isSome_decode h f.bounded_peek).2 hc)
  have hread := ext_decode h f.extends_read_peek _ r hr
  rw [hr, ← hread, decode_read]

/-- What follows the captured bytes in memory then does not show in the row. -/
theorem accepted_congr {h : Host} {f g : Frame} (hheader : f.header = g.header) (hpacket : f.packet = g.packet)
    (hc : TransportCaptured f.peek f.header.caplen.toNat) : accepted h f = accepted h g := by
  have hpeek : f.peek = g.peek := by
    funext i
    rw [Frame.peek, Frame.peek, hpacket]
  have hf := decode_peek (h := h) hc
  rw [hpeek, hheader] at hc hf
  exact Option.some.inj (hf.symm.trans (decode_peek hc))

/-- The row and the entry of a frame numbered `n`. -/
def Frame.pair (src : Source) (n : Nat) (pkt : StPkt) (f : Frame) : Row × Entry :=
  (⟨{ pkt with num := n }, src⟩, ⟨f.dump n, src⟩)

/-- What the handlers store of the frames `fs` when their counter stands at `n`. -/
def stored (h : Host) (src : Source) : Nat → List Frame → List (Row × Entry)
  | _, [] => []
  | n, f :: fs => match accepted h f with
    | none => stored h src n fs
    | some pkt => f.pair src n pkt :: stored h src (n + 1) fs

/-- The row and the entry come from one frame: same source, same number, and one frame behind both. -/
def SameFrame (h : Host) (r : Row) (e : Entry) : Prop :=
  ∃ f pkt, accepted h f = some pkt ∧ (r, e) = f.pair e.src e.dump.pktNum pkt

section
variable {h : Host} {src : Source} {n : Nat} {f : Frame} {fs gs : List Frame} {r : Row} {e : Entry}

@[simp] theorem stored_nil : stored h src n [] = [] := rfl

theorem stored_cons_reject (ha : accepted h f = none) : stored h src n (f :: fs) = stored h src n fs := by
  simp [stored, ha]

theorem stored_cons_accept {pkt : StPkt} (ha : accepted h f = some pkt) :
    stored h src n (f :: fs) = f.pair src n pkt :: stored h src (n + 1) fs := by
  simp [stored, ha]

/-- A longer run of frames continues the numbering. -/
theorem stored_append :
    stored h src n (fs ++ gs) = stored h src n fs ++ stored h src (n + (stored h src n fs).length) gs := by
  induction fs generalizing n with
  | nil => rfl
  | cons f fs ih =>
    rw [List.cons_append]
    cases ha : accepted h f with
    | none => rw [stored_cons_reject ha, stored_cons_reject ha, ih]
    | some pkt =>
      rw [stored_cons_accept ha, stored_cons_accept ha, ih, List.cons_append, List.length_cons]
      congr 3
      omega

theorem length_stored : (stored h src n fs).length = (fs.filter fun f => (accepted h f).isSome).length := by
  induction fs generalizing n with
  | nil => rfl
  | cons f fs ih =>
    cases ha : accepted h f with
    | none => rw [stored_cons_reject ha, ih, List.filter_cons_of_neg (by simp [ha])]
    | some pkt => rw [stored_cons_accept ha, List.filter_cons_of_pos (by simp [ha]), List.length_cons, ih, List.length_cons]

/-- The rows are numbered consecutively. -/
theorem nums_stored :
    (stored h src n fs).map (fun p => p.1.pkt.num) = List.range' n (stored h src n fs).length := by
  induction fs generalizing n with
  | nil => rfl
  | cons f fs ih =>
    cases ha : accepted h f with
    | none => rw [stored_cons_reject ha, ih]
    | some pkt =>
      rw [stored_cons_accept ha, List.map_cons, ih, List.length_cons, List.range'_succ]
      rfl

/-- Only the ghost depends on the source. -/
theorem stored_src (h : Host) (src src' : Source) (n : Nat) (fs : List Frame) :
    (stored h src n fs).map (fun p => (p.1.pkt, p.2.dump)) = (stored h src' n fs).map fun p => (p.1.pkt, p.2.dump) := by
  induction fs generalizing n with
  | nil => rfl
  | cons f fs ih =>
    cases ha : accepted h f with
    | none => rw [stored_cons_reject ha, stored_cons_reject ha, ih]
    | some pkt => rw [stored_cons_accept ha, stored_cons_accept ha, List.map_cons, List.map_cons, ih]; rfl

theorem sameFrame_pair {pkt : StPkt} (ha : accepted h f = some pkt) :
    SameFrame h (f.pair src n pkt).1 (f.pair src n pkt).2 := ⟨f, pkt, ha, rfl⟩

theorem SameFrame.num_eq (hs : SameFrame h r e) : r.pkt.num = e.dump.pktNum := by
  obtain ⟨f, pkt, _, heq⟩ := hs
  exact congrArg (fun p : Row × Entry => p.1.pkt.num) heq

/-- Each stored pair is of one accepted frame. -/
theorem mem_stored {p : Row × Entry} (hp : p ∈ stored h src n fs) :
    ∃ f ∈ fs, ∃ pkt k, accepted h f = some pkt ∧ p = f.pair src k pkt := by
  induction fs generalizing n with
  | nil => simp at hp
  | cons f fs ih =>
    have hrest (k : Nat) (hp : p ∈ stored h src k fs) :
        ∃ g ∈ f :: fs, ∃ pkt k, accepted h g = some pkt ∧ p = g.pair src k pkt := by
      obtain ⟨g, hg, hpair⟩ := ih hp
      exact ⟨g, List.mem_cons_of_mem f hg, hpair⟩
    cases ha : accepted h f with
    | none =>
      rw [stored_cons_reject ha] at hp
      exact hrest n hp
    | some pkt =>
      rw [stored_cons_accept ha] at hp
      rcases List.mem_cons.1 hp with rfl | hp
      · exact ⟨f, List.mem_cons_self, pkt, n, ha, rfl⟩
      · exact hrest (n + 1) hp

theorem sameFrame_of_mem_stored {p : Row × Entry} (hp : p ∈ stored h src n fs) :
    SameFrame h p.1 p.2 ∧ p.1.src = src ∧ p.2.src = src := by
  obtain ⟨f, _, pkt, k, ha, rfl⟩ := mem_stored hp
  exact ⟨sameFrame_pair ha, rfl, rfl⟩

/-! ## The handlers and the file reader -/

/-- What the live handler posts for a frame. -/
theorem Worker.myPacketHandler_read (num : Nat) (f : Frame) :
    Worker.myPacketHandler h f.read num f =
      some ((accepted h f).map fun pkt => ({ pkt with num := num }, f.dump num)) := by
  unfold Worker.myPacketHandler
  rw [decode_read]
  cases accepted h f <;> rfl

/-- `packet_func` stores the frame it accepts. -/
theorem Pcap.packetFunc_read (p : Pcap) (f : Frame) :
    p.packetFunc h Frame.read src f = some { p with
      num := p.num + (stored h src p.num [f]).length
      md := { p.md with vec := p.md.vec ++ (stored h src p.num [f]).map Prod.fst }
      vecDump := p.vecDump ++ (stored h src p.num [f]).map Prod.snd } := by
  unfold Pcap.packetFunc
  rw [decode_read]
  cases ha : accepted h f with
  | none => simp [stored_cons_reject ha]
  | some pkt => simp [stored_cons_accept ha, Frame.pair, Capture.updateMd]

/-! ### What they store of one frame -/

theorem Worker.myPacketHandler_eq_some_iff {num : Nat} {pkt : StPkt} {dump : DumpData} :
    Worker.myPacketHandler h f.read num f = some (some (pkt, dump)) ↔
      ∃ row, accepted h f = some row ∧ pkt = { row with num := num } ∧ dump = f.dump num := by
  rw [Worker.myPacketHandler_read, Option.some.injEq, Option.map_eq_some_iff]
  constructor
  · rintro ⟨row, ha, hd⟩
    cases hd
    exact ⟨row, ha, rfl, rfl⟩
  · rintro ⟨row, ha, rfl, rfl⟩
    exact ⟨row, ha, rfl⟩

theorem Pcap.packetFunc_cases {p p' : Pcap} (hp : p.packetFunc h Frame.read src f = some p') :
    accepted h f = none ∧ p' = p ∨ ∃ row, accepted h f = some row ∧ p' = { p with
      num := p.num + 1
      md := p.md.updateMd ⟨{ row with num := p.num }, src⟩
      vecDump := p.vecDump ++ [⟨f.dump p.num, src⟩] } := by
  rw [Pcap.packetFunc, decode_read] at hp
  cases ha : accepted h f with
  | none =>
    rw [ha] at hp
    cases hp
    exact .inl ⟨rfl, rfl⟩
  | some row =>
    rw [ha] at hp
    cases hp
    exact .inr ⟨row, rfl, rfl⟩

/-- `pkt` is what one of the two handlers makes of the frame. -/
def RowOf (h : Host) (f : Frame) (pkt : StPkt) : Prop :=
  (∃ num dump, Worker.myPacketHandler h f.read num f = some (some (pkt, dump))) ∨
    ∃ src p p' r, Pcap.packetFunc h Frame.read src p f = some p' ∧ p'.md.vec = p.md.vec ++ [r] ∧ r.pkt = pkt

/-- Both store what is parsed, under a number of their own. -/
theorem rowOf_iff {pkt : StPkt} :
    RowOf h f pkt ↔ ∃ row, accepted h f = some row ∧ pkt = { row with num := pkt.num } := by
  constructor
  · rintro (⟨num, dump, hh⟩ | ⟨src, p, p', r, hp, he, rfl⟩)
    · obtain ⟨row, ha, rfl, _⟩ := Worker.myPacketHandler_eq_some_iff.1 hh
      exact ⟨row, ha, rfl⟩
    · obtain ⟨_, rfl⟩ | ⟨row, ha, rfl⟩ := Pcap.packetFunc_cases hp
      · simp at he
      · obtain rfl := (List.cons.inj (List.append_cancel_left he)).1
        exact ⟨row, ha, rfl⟩
  · rintro ⟨row, ha, hpkt⟩
    exact .inl ⟨pkt.num, f.dump pkt.num, Worker.myPacketHandler_eq_some_iff.2 ⟨row, ha, hpkt, rfl⟩⟩

/-- **File reading appends what it accepts**, and always returns. -/
theorem Pcap.pcapFileRead_eq (p : Pcap) (frames : List Frame) :
    p.pcapFileRead h src frames = some { p with
      num := 0
      md := { p.md with vec := p.md.vec ++ (stored h src p.num frames).map Prod.fst }
      vecDump := p.vecDump ++ (stored h src p.num frames).map Prod.snd } := by
  suffices hl : frames.foldlM (Pcap.packetFunc h Frame.read src) p = some { p with
      num := p.num + (stored h src p.num frames).length
      md := { p.md with vec := p.md.vec ++ (stored h src p.num frames).map Prod.fst }
      vecDump := p.vecDump ++ (stored h src p.num frames).map Prod.snd } by
    simp only [Pcap.pcapFileRead, hl, Option.bind_eq_bind, Option.bind_some]
  induction frames generalizing p with
  | nil => simp
  | cons f frames ih =>
    rw [List.foldlM_cons, Pcap.packetFunc_read, Option.bind_eq_bind, Option.bind_some, ih]
    have hs : stored h src p.num ([f] ++ frames) = _ := stored_append
    rw [List.singleton_append] at hs
    simp [hs, Nat.add_assoc]

end

/-! ## Frames for the concrete runs -/

/-- An Ethernet frame with an IPv4 header without options and an empty UDP datagram. -/
def udpPacket : List UInt8 :=
  [0, 0, 0, 0, 0, 1, 0, 0, 0, 0, 0, 2, 0x08, 0x00,
   0x45, 0, 0, 28, 0, 0, 0, 0, 64, 17, 0, 0, 10, 0, 0, 1, 10, 0, 0, 2,
   0, 53, 0, 53, 0, 8, 0, 0]

/-- The packet, captured whole, with `header->len` as given. -/
def udpFrame (len : UInt32) : Frame where
  header := { caplen := 42, len := len }
  packet := udpPacket
  captured := rfl
  after _ := 0

/-- A TCP segment with options in both headers, three bytes of payload and the flags SYN, ACK, PSH and ECE. -/
def tcpFrame : Frame where
  header := { caplen := 69, len := 69 }
  packet := [0, 0, 0, 0, 0, 1, 0, 0, 0, 0, 0, 2, 0x08, 0x00,
    0x46, 0xB8, 0, 55, 0x12, 0x34, 0x40, 0, 64, 6, 0, 0, 10, 0, 0, 1, 10, 0, 0, 2, 1, 1, 1, 0,
    0x01, 0xBB, 0xC3, 0x50, 1, 2, 3, 4, 5, 6, 7, 8, 0x70, 0x5A, 2, 0, 0, 0, 0, 0, 2, 4, 5, 0xB4, 1, 1, 1, 0,
    97, 98, 99]
  captured := rfl
  after _ := 0

end MiniWireshark

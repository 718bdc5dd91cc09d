import MiniWireshark.Live
import MiniWireshark.Records

/-!
# Saving a capture (`Pcap.cpp:404-423`, `:495-532`)

`stop_Th` sets `stop_flag` and the break flag of the running worker at once, and `save_md` looks at
`stop_flag` alone. But a packet in the callback or in the queue is still to come then, and
`pcap_loop` may process one more; `save_md` waits for none of them.

| here | meaning |
| --- | --- |
| `sessionRecords h fs`   | the records of the accepted frames of `fs`, in order |
-/

namespace MiniWireshark

variable {h : Host} {s s' : Sys} {a : Act} {w : Nat} {fs : List Frame}

/-! ## One record -/

/-- `pcap_dump` writes a stored frame as it was captured iff `caplen` is at most `len`. -/
theorem pcapDump_dump_iff (f : Frame) (n : Nat) :
    pcapDump (f.dump n) = some ⟨f.header, f.packet⟩ ↔ f.header.caplen ≤ f.header.len := by
  have hlen := f.length_dump n
  rw [UInt32.le_iff_toNat_le]
  constructor
  · intro hd
    by_contra hlt
    simp only [pcapDump, Option.bind_eq_bind, Option.bind_eq_some_iff] at hd
    obtain ⟨bytes, hbytes, _⟩ := hd
    -- the first byte past the stored ones is read
    have hsome := (Lists.isSome_mapM _ _).1 (Option.isSome_of_eq_some hbytes)
    have hlast := hsome f.header.len.toNat (List.mem_range.2 (Nat.lt_of_not_le hlt))
    rw [List.getElem?_eq_none (Nat.le_of_eq hlen)] at hlast
    cases hlast
  · intro hle
    have hsize : (f.dump n).header.caplen.toNat ≤ (f.dump n).data.length := by rw [hlen]; exact hle
    rw [pcapDump_eq hsize]
    congr 2
    apply List.ext_getElem
    · rw [List.length_take, hlen, f.captured]
      exact Nat.min_eq_left hle
    · intro i h1 h2
      simp [Frame.dump, Frame.qByteArray, f.mem_of_lt h2]

/-- The records of the accepted frames. -/
def sessionRecords (h : Host) (fs : List Frame) : List (Option Record) :=
  (fs.filter fun f => (accepted h f).isSome).map fun f => some ⟨f.header, f.packet⟩

/-- What `pcap_dump` writes of the stored frames is their records iff no accepted one has a
`caplen` above its `len`. -/
theorem stored_records_iff (src : Source) (n : Nat) (fs : List Frame) :
    (stored h src n fs).map (fun p => pcapDump p.2.dump) = sessionRecords h fs ↔
      ∀ f ∈ fs, (accepted h f).isSome = true → f.header.caplen ≤ f.header.len := by
  induction fs generalizing n with
  | nil => simp [sessionRecords]
  | cons f fs ih =>
    cases ha : accepted h f with
    | none =>
      have hrec : sessionRecords h (f :: fs) = sessionRecords h fs := by simp [sessionRecords, ha]
      rw [stored_cons_reject ha, hrec, ih, List.forall_mem_cons]
      simp [ha]
    | some pkt =>
      have hrec : sessionRecords h (f :: fs) = some ⟨f.header, f.packet⟩ :: sessionRecords h fs := by
        simp [sessionRecords, ha]
      rw [stored_cons_accept ha, hrec, List.map_cons, List.cons.injEq, ih, List.forall_mem_cons, ha]
      exact and_congr_left fun _ => (pcapDump_dump_iff f n).trans (by simp)

theorem length_sessionRecords (src : Source) (n : Nat) (fs : List Frame) :
    (sessionRecords h fs).length = (stored h src n fs).length := by
  rw [length_stored, sessionRecords, List.length_map]

theorem sessionRecords_append (fs gs : List Frame) :
    sessionRecords h (fs ++ gs) = sessionRecords h fs ++ sessionRecords h gs := by
  rw [sessionRecords, List.filter_append, List.map_append, sessionRecords, sessionRecords]

theorem sessionRecords_eq_nil_iff : sessionRecords h fs = [] ↔ ∀ f ∈ fs, accepted h f = none := by
  simp [sessionRecords, List.filter_eq_nil_iff]

/-! ## The saved file -/

/-- What `save_md` writes once it passes its guards. -/
theorem Pcap.saveMd_eq_some {p : Pcap} {recs : List (Option Record)} (hs : p.saveMd true = some recs) :
    p.stopFlag = true ∧ recs = p.vecDump.map fun v => pcapDump v.dump := by
  simp only [Pcap.saveMd] at hs
  split_ifs at hs with hguard
  cases hs
  exact ⟨by simpa using (not_or.1 hguard).2, rfl⟩

/-- **A session.** What is stored and on its way is what its frames have brought. -/
theorem Sys.Capturing.run {acts : List Act} (hc : s.Capturing h w fs) (hk : ∀ a ∈ acts, a.inCapture = true)
    (hr : Lts.run (Sys.step h) s acts = some s') : s'.Capturing h w (fs ++ acts.flatMap Act.frames) := by
  refine Lts.run_ind_along (motive := fun as s => s.Capturing h w (fs ++ as.flatMap Act.frames)) ?_ ?_
    ((Lts.along_labels_iff hr).2 hk) hr
  · rwa [List.flatMap_nil, List.append_nil]
  · intro as s a s' hc hk hs
    rw [List.flatMap_append, List.flatMap_singleton, ← List.append_assoc]
    exact hc.step hk hs

/-- **A saved capture is complete, exactly.** In a session started where no worker is alive and nothing is pending, and
whatever follows the save, `save_md` writes the accepted frames of the whole session, in order, iff at the save none of
them is queued or in the callback, none of them has a `caplen` above its `len`, and no later frame is accepted. -/
theorem saved_capture_complete_iff {s₀ : Sys} (hidle : s₀.Idle) {nicName ft : String} (hn : nicName.isEmpty = false)
    {acts : List Act} (hk : ∀ a ∈ acts, a.inCapture = true)
    (hr : Lts.run (Sys.step h) (s₀.createTh nicName ft) acts = some s)
    {recs : List (Option Record)} (hsave : s.pcap.saveMd true = some recs) (later : List Act) :
    recs = sessionRecords h ((acts ++ later).flatMap Act.frames) ↔
      s.pendEntries = [] ∧
        (∀ f ∈ acts.flatMap Act.frames, (accepted h f).isSome = true → f.header.caplen ≤ f.header.len) ∧
        ∀ f ∈ later.flatMap Act.frames, accepted h f = none := by
  have hent := ((hidle.capturing ft hn).1.run hk hr).entries
  rw [List.nil_append] at hent
  obtain ⟨_, rfl⟩ := Pcap.saveMd_eq_some hsave
  rw [List.flatMap_append, sessionRecords_append, ← sessionRecords_eq_nil_iff]
  constructor
  · intro heq
    -- there are as many records as entries: none is on its way, and none comes later
    have hlen := congrArg List.length heq
    rw [List.length_map, List.length_append, length_sessionRecords (.live s₀.workers.length) 0] at hlen
    have hlen' := congrArg List.length hent
    rw [Sys.entries, List.length_append, List.length_map] at hlen'
    have hpend : s.pendEntries = [] := List.length_eq_zero_iff.1 (by omega)
    have hlater : sessionRecords h (later.flatMap Act.frames) = [] := List.length_eq_zero_iff.1 (by omega)
    rw [Sys.entries, hpend, List.append_nil] at hent
    rw [hent, List.map_map, hlater, List.append_nil] at heq
    exact ⟨hpend, (stored_records_iff _ 0 _).1 heq, hlater⟩
  · rintro ⟨hpend, hle, hlater⟩
    rw [Sys.entries, hpend, List.append_nil] at hent
    rw [hent, List.map_map, hlater, List.append_nil]
    exact (stored_records_iff _ 0 _).2 hle

/-- A capture of two packets, stopped once both are stored. -/
def savedCapture : List Act :=
  [.worker 0 (.openLive true), .worker 0 .post, .worker 0 .post, .worker 0 .enterLoop, .deliver, .deliver,
    .worker 0 (.packet (udpFrame 42)), .worker 0 .post, .worker 0 .post, .deliver, .deliver,
    .worker 0 (.packet (udpFrame 60)), .worker 0 .post, .worker 0 .post, .deliver, .deliver, .stopTh]

/-- `pcap_loop` calls back once more, with a frame that is not accepted, and returns. -/
def lateReject : List Act := [.worker 0 (.packet emptyFrame), .worker 0 .loopBreak]

/-- Its file is complete, and still is when the loop has ended. -/
theorem saved_capture_complete_stopped : ∃ s recs,
    Lts.run (Sys.step .little) (Sys.init.createTh "eth0" "") savedCapture = some s ∧ s.pcap.saveMd true = some recs ∧
      recs.length = 2 ∧ (Lts.run (Sys.step .little) s lateReject).isSome = true ∧
      recs = sessionRecords .little ((savedCapture ++ lateReject).flatMap Act.frames) := by
  obtain ⟨s, hs, hpend, hsave, hlater⟩ : ∃ s,
      Lts.run (Sys.step .little) (Sys.init.createTh "eth0" "") savedCapture = some s ∧ s.pendEntries = [] ∧
        ((s.pcap.saveMd true).any fun recs => recs.length = 2) = true ∧
        (Lts.run (Sys.step .little) s lateReject).isSome = true := Lts.run_reaches (by decide +kernel)
  obtain ⟨recs, hrecs, hlen⟩ := (Option.any_eq_true _ _).1 hsave
  exact ⟨s, recs, hs, hrecs, of_decide_eq_true hlen, hlater,
    (saved_capture_complete_iff (show Sys.init.Idle by decide) (by decide) (by decide) hs hrecs lateReject).2
      ⟨hpend, by decide +kernel, by decide +kernel⟩⟩

/-- Stop pressed while the second packet is in its callback. -/
def saveDuringCallback : List UiAct :=
  [.openLive "eth0", .start "eth0" "", .worker 0 (.openLive true), .worker 0 .post, .worker 0 .post,
    .worker 0 .enterLoop, .deliver, .deliver, .worker 0 (.packet (udpFrame 42)), .worker 0 .post, .worker 0 .post,
    .deliver, .deliver, .worker 0 (.packet (udpFrame 42)), .stop]

/-- Saving is enabled and writes one of the two packets. -/
theorem save_misses_packet : ∃ u, Lts.run (Ui.step .little) Ui.init saveDuringCallback = some u ∧
    (u.sys.pcap.saveMd true).isSome = true ∧ u.sys.pcap.saveMd true ≠
      some (sessionRecords .little ((saveDuringCallback.flatMap UiAct.calls).flatMap Act.frames)) :=
  Lts.run_reaches (by decide +kernel)

end MiniWireshark

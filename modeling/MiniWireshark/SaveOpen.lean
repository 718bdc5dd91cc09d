import MiniWireshark.Reopen
import MiniWireshark.Saving
import MiniWireshark.Wire

/-!
# Saving and opening again (`Pcap.cpp:465-532`, `:534-753`)

Acceptance and every field of a row depend on the header and the captured bytes only, sorting moves
the rows and never the stored entries, and numbering restarts with every file. So opening what
`save_md` wrote gives back the lists as they were before any sort.

| here | meaning |
| --- | --- |
| `Loaded h s₀ fs s`     | from `s₀`, the frames `fs` were read into empty lists or captured in one session |
| `Savable h f`          | if accepted, `f` has `caplen = len ≤ 65535` and its transport header captured |
| `ReturnsWritten offline` | the assumption on libpcap: a written file is read back record by record |
-/

namespace MiniWireshark

variable {h : Host} {s s' : Sys} {fs gs : List Frame} {src src' : Source} {n : Nat}

def Frame.record (f : Frame) : Record := ⟨f.header, f.packet⟩

/-- What a capture file can hold: `caplen` bytes, at most the snapshot length `save_md` writes. -/
def Record.Writable (r : Record) : Prop := r.bytes.length = r.header.caplen.toNat ∧ r.header.caplen ≤ 65535

/-- `pcap_open_offline` and `pcap_next_ex` return the records `pcap_dump` wrote, in order and unchanged. -/
def ReturnsWritten (offline : List Record → List Frame) : Prop :=
  ∀ written, (∀ r ∈ written, r.Writable) → (offline written).map Frame.record = written

def Savable (h : Host) (f : Frame) : Prop :=
  (accepted h f).isSome = true →
    f.header.caplen = f.header.len ∧ f.header.len ≤ 65535 ∧ CoversTransport f.packet

instance (h : Host) (f : Frame) : Decidable (Savable h f) := inferInstanceAs (Decidable (_ → _))

/-- The frames `fs` fill the lists: read from a file into empty lists, or captured in one session of
which nothing is on its way any more. -/
inductive Loaded (h : Host) (s₀ : Sys) (fs : List Frame) (s : Sys) : Prop where
  | file (hv : s₀.pcap.md.vec = []) (hd : s₀.pcap.vecDump = []) (hs : s₀.pcapFileRead h (some fs) = some s)
  | live (hidle : s₀.Idle) (nicName ft : String) (hn : nicName.isEmpty = false) (acts : List Act)
      (hr : Lts.run (Sys.step h) (s₀.createTh nicName ft) acts = some s)
      (hd : Lts.Along (Sys.step h) (fun s a => a.duringCapture s) (s₀.createTh nicName ft) acts)
      (hend : s.NonePending) (hfs : fs = acts.flatMap Act.frames)

/-! ## What is stored of a frame -/

/-- The stored entry of a frame depends on its record only. -/
theorem Frame.dump_congr {f g : Frame} (hrec : f.record = g.record) (hlen : f.header.caplen = f.header.len) :
    f.dump n = g.dump n := by
  have hheader : f.header = g.header := congrArg Record.header hrec
  have hpacket : f.packet = g.packet := congrArg Record.bytes hrec
  have hf : (f.dump n).data = f.packet := ((f.keeps_dump_iff n).2 hlen.symm).bytes
  have hg : (g.dump n).data = g.packet := ((g.keeps_dump_iff n).2 (by rw [← hheader, hlen])).bytes
  have hdata : f.qByteArray f.header.len.toNat = g.qByteArray g.header.len.toNat := hf.trans (hpacket.trans hg.symm)
  rw [Frame.dump, Frame.dump, hdata, hheader]

/-- Rejected frames leave no trace. -/
theorem stored_filter (h : Host) (src : Source) (n : Nat) (fs : List Frame) :
    stored h src n (fs.filter fun f => (accepted h f).isSome) = stored h src n fs := by
  induction fs generalizing n with
  | nil => rfl
  | cons f fs ih =>
    cases ha : accepted h f with
    | none => rw [List.filter_cons_of_neg (by simp [ha]), stored_cons_reject ha, ih]
    | some pkt => rw [List.filter_cons_of_pos (by simp [ha]), stored_cons_accept ha, stored_cons_accept ha, ih]

/-- Frames with the same records are stored alike. -/
theorem stored_congr (hrec : gs.map Frame.record = fs.map Frame.record)
    (hok : ∀ f ∈ fs, (accepted h f).isSome = true ∧ f.header.caplen = f.header.len ∧ CoversTransport f.packet) :
    (stored h src n gs).map (fun p => (p.1.pkt, p.2.dump)) = (stored h src' n fs).map fun p => (p.1.pkt, p.2.dump) := by
  induction fs generalizing gs n with
  | nil =>
    rw [List.map_nil, List.map_eq_nil_iff] at hrec
    rw [hrec]
    rfl
  | cons f fs ih =>
    obtain ⟨g, gs, rfl⟩ : ∃ g gs', gs = g :: gs' := by
      cases gs with
      | nil => cases hrec
      | cons g gs' => exact ⟨g, gs', rfl⟩
    rw [List.map_cons, List.map_cons, List.cons.injEq] at hrec
    obtain ⟨hfg, hrec⟩ := hrec
    obtain ⟨hacc, hlen, hcov⟩ := hok f List.mem_cons_self
    obtain ⟨pkt, ha⟩ := Option.isSome_iff_exists.1 hacc
    have hag : accepted h g = some pkt := by
      rw [← ha]
      exact (accepted_congr (congrArg Record.header hfg.symm) (congrArg Record.bytes hfg.symm)
        (Frame.transportCaptured hcov)).symm
    rw [stored_cons_accept ha, stored_cons_accept hag, List.map_cons, List.map_cons,
      ih hrec fun f' hf' => hok f' (List.mem_cons_of_mem f hf')]
    simp only [Frame.pair, Frame.dump_congr hfg.symm hlen]

/-! ## Loading and sorting -/

/-- Loaded lists hold the accepted frames, numbered from 0. -/
theorem Loaded.stored {s₀ : Sys} (hl : Loaded h s₀ fs s) (hn : s₀.pcap.num = 0) :
    s.pcap.md.vec.map Row.pkt = (stored h (.file 0) 0 fs).map (fun p => p.1.pkt) ∧
      s.pcap.vecDump.map Entry.dump = (stored h (.file 0) 0 fs).map (fun p => p.2.dump) := by
  cases hl with
  | file hv hd hs =>
    obtain ⟨h1, h2⟩ := Sys.pcapFileRead_view hs hn
    rw [hv, List.map_nil, List.nil_append] at h1
    rw [hd, List.map_nil, List.nil_append] at h2
    exact ⟨h1, h2⟩
  | live hidle nicName ft hname acts hr hd hend hfs =>
    have hi := (hidle.liveInv (h := h) ft hname).run hd hr
    rw [List.nil_append, ← hfs] at hi
    have hrows := hi.rows
    have hentries := hi.capturing.entries
    rw [Sys.rows, hend.1, List.append_nil] at hrows
    rw [Sys.entries, hend.2, List.append_nil] at hentries
    have hsrc := stored_src h (.live s₀.workers.length) (.file 0) 0 fs
    rw [hrows, hentries, List.map_map, List.map_map]
    constructor
    · simpa [Function.comp_def] using congrArg (List.map Prod.fst) hsrc
    · simpa [Function.comp_def] using congrArg (List.map Prod.snd) hsrc

theorem Loaded.num {s₀ : Sys} (hl : Loaded h s₀ fs s) (hn : s₀.pcap.num = 0) : s.pcap.num = 0 := by
  cases hl with
  | file hv hd hs =>
    have hr : Lts.run (Sys.step h) s₀ [.pcapFileRead (some fs)] = some s := Lts.run_cons_eq_some.2 ⟨s, hs, rfl⟩
    exact Sys.num_run hn hr
  | live hidle nicName ft hname acts hr hd hend hfs =>
    have hr' : Lts.run (Sys.step h) s₀ (.createTh nicName ft :: acts) = some s := hr
    exact Sys.num_run hn hr'

def Act.isSort : Act → Bool
  | .sort .. => true
  | _ => false

/-- Sorts leave the stored entries and the file counter alone. -/
theorem Sys.sorts_run {sorts : List Act} (hk : ∀ a ∈ sorts, a.isSort = true)
    (hr : Lts.run (Sys.step h) s sorts = some s') : s'.pcap.vecDump = s.pcap.vecDump := by
  induction sorts generalizing s with
  | nil =>
    cases hr
    rfl
  | cons a sorts ih =>
    obtain ⟨t, ht, hr⟩ := Lts.run_cons_eq_some.1 hr
    have htail := ih (fun b hb => hk b (List.mem_cons_of_mem a hb)) hr
    cases a with
    | sort col sorted =>
      obtain ⟨md, _, rfl⟩ := Sys.sort_cases ht
      exact htail
    | _ => exact absurd (hk _ List.mem_cons_self) nofun

/-! ## The written file -/

/-- The records `save_md` writes of loaded lists. -/
def writtenRecords (h : Host) (fs : List Frame) : List Record :=
  (fs.filter fun f => (accepted h f).isSome).map Frame.record

theorem writtenRecords_writable (hok : ∀ f ∈ fs, Savable h f) : ∀ r ∈ writtenRecords h fs, r.Writable := by
  intro r hr
  obtain ⟨f, hf, rfl⟩ := List.mem_map.1 hr
  obtain ⟨hf, ha⟩ := List.mem_filter.1 hf
  obtain ⟨hwhole, hshort, _⟩ := hok f hf ha
  refine ⟨f.captured, ?_⟩
  rw [show f.record.header = f.header from rfl, hwhole]
  exact hshort

/-- Reading the written file stores what was stored before. -/
theorem stored_writtenRecords (hok : ∀ f ∈ fs, Savable h f)
    (hrec : gs.map Frame.record = writtenRecords h fs) :
    (stored h src n gs).map (fun p => (p.1.pkt, p.2.dump)) = (stored h src' n fs).map fun p => (p.1.pkt, p.2.dump) := by
  rw [← stored_filter h src' n fs]
  refine stored_congr hrec fun f hf => ?_
  obtain ⟨hf, ha⟩ := List.mem_filter.1 hf
  exact ⟨ha, (hok f hf ha).1, (hok f hf ha).2.2⟩

/-- `save_md` writes the records of the accepted frames. -/
theorem saveMd_stored {p : Pcap} {recs : List (Option Record)} (hok : ∀ f ∈ fs, Savable h f)
    (hd : p.vecDump.map Entry.dump = (stored h src 0 fs).map (fun p => p.2.dump)) (hs : p.saveMd true = some recs) :
    recs = (writtenRecords h fs).map some := by
  obtain ⟨_, rfl⟩ := Pcap.saveMd_eq_some hs
  have hrecs : (stored h src 0 fs).map (fun p => pcapDump p.2.dump) = sessionRecords h fs :=
    (stored_records_iff src 0 fs).2 fun f hf ha => by
      rw [(hok f hf ha).1]
      exact UInt32.le_refl _
  have hmap := congrArg (List.map pcapDump) hd
  rw [List.map_map, List.map_map] at hmap
  have hwritten : (writtenRecords h fs).map some = sessionRecords h fs := by
    rw [writtenRecords, sessionRecords, List.map_map]
    rfl
  rw [hwritten, ← hrecs]
  exact hmap

/-- What is written depends on the entries and `stop_flag` only. -/
theorem saveMd_congr {p p' : Pcap} (hd : p'.vecDump.map Entry.dump = p.vecDump.map Entry.dump)
    (hstop : p'.stopFlag = p.stopFlag) (opens : Bool) : p'.saveMd opens = p.saveMd opens := by
  have hempty : p'.vecDump.isEmpty = p.vecDump.isEmpty := by
    have hlen := congrArg List.isEmpty hd
    rwa [List.isEmpty_map, List.isEmpty_map] at hlen
  have hrecs : (p'.vecDump.map fun v => pcapDump v.dump) = p.vecDump.map fun v => pcapDump v.dump := by
    have hmap := congrArg (List.map pcapDump) hd
    rwa [List.map_map, List.map_map] at hmap
  rw [Pcap.saveMd, Pcap.saveMd, hempty, hstop, hrecs]

/-- **Save then open is the identity.** Lists loaded in a reachable state, sorted in any way and saved, then
cleared by any operations: opening the written file gives back the entries, and the rows as they were
before the sorts; saving again writes the same records. The numbers are those of the `int` counters while
fewer than `2 ^ 31` packets are accepted. -/
theorem save_open_identity {before sorts clear : List Act} {s₀ s₁ s₂ : Sys}
    (h₀ : Lts.run (Sys.step h) Sys.init before = some s₀) (hl : Loaded h s₀ fs s) (hok : ∀ f ∈ fs, Savable h f)
    (hk : ∀ a ∈ sorts, a.isSort = true) (h₁ : Lts.run (Sys.step h) s sorts = some s₁)
    {recs : List (Option Record)} (hsave : s₁.pcap.saveMd true = some recs)
    (h₂ : Lts.run (Sys.step h) s₁ clear = some s₂) (hempty : s₂.pcap.md.vec = [] ∧ s₂.pcap.vecDump = [])
    {offline : List Record → List Frame} (hoff : ReturnsWritten offline) :
    ∃ written s₃, recs = written.map some ∧ s₂.pcapFileRead h (some (offline written)) = some s₃ ∧
      s₃.pcap.vecDump.map Entry.dump = s₁.pcap.vecDump.map Entry.dump ∧
      s₃.pcap.md.vec.map Row.pkt = s.pcap.md.vec.map Row.pkt ∧
      (s₃.pcap.stopFlag = true → s₃.pcap.saveMd true = some recs) := by
  have hn₀ : s₀.pcap.num = 0 := Sys.num_run rfl h₀
  obtain ⟨hv, hd⟩ := hl.stored hn₀
  have hd₁ : s₁.pcap.vecDump = s.pcap.vecDump := Sys.sorts_run hk h₁
  have hn₂ : s₂.pcap.num = 0 := Sys.num_run (Sys.num_run (hl.num hn₀) h₁) h₂
  rw [← hd₁] at hd
  have hrecs : recs = (writtenRecords h fs).map some := saveMd_stored hok hd hsave
  have hread := hoff (writtenRecords h fs) (writtenRecords_writable hok)
  -- reading always returns, and appends to empty lists
  obtain ⟨p₃, hp₃⟩ : ∃ p₃, s₂.pcapFileRead h (some (offline (writtenRecords h fs))) = some p₃ := by
    unfold Sys.pcapFileRead
    simp only [Pcap.pcapFileRead_eq, Option.bind_eq_bind, Option.bind_some]
    split <;> exact ⟨_, rfl⟩
  obtain ⟨hv₃, hd₃⟩ := Sys.pcapFileRead_view hp₃ hn₂
  rw [hempty.1, List.map_nil, List.nil_append] at hv₃
  rw [hempty.2, List.map_nil, List.nil_append] at hd₃
  have hsame : (stored h (.file 0) 0 (offline (writtenRecords h fs))).map (fun p => (p.1.pkt, p.2.dump)) =
      (stored h (.file 0) 0 fs).map fun p => (p.1.pkt, p.2.dump) := stored_writtenRecords hok hread
  have hrows := congrArg (List.map Prod.fst) hsame
  have hentries := congrArg (List.map Prod.snd) hsame
  rw [List.map_map, List.map_map] at hrows hentries
  have hdumps : p₃.pcap.vecDump.map Entry.dump = s₁.pcap.vecDump.map Entry.dump := by
    rw [hd₃, hd]
    exact hentries
  refine ⟨writtenRecords h fs, p₃, hrecs, hp₃, hdumps, ?_, fun hstop => ?_⟩
  · rw [hv₃, hv]
    exact hrows
  · rw [saveMd_congr hdumps (hstop.trans (Pcap.saveMd_eq_some hsave).1.symm), hsave]

/-- A file reader that returns the records as they are. -/
def readBack (recs : List Record) : List Frame :=
  recs.filterMap fun r =>
    if hr : r.bytes.length = r.header.caplen.toNat then some ⟨r.header, r.bytes, hr, fun _ => 0⟩ else none

theorem readBack_returnsWritten : ReturnsWritten readBack := by
  intro written hw
  induction written with
  | nil => rfl
  | cons r written ih =>
    have hr := (hw r List.mem_cons_self).1
    rw [readBack, List.filterMap_cons, dif_pos hr]
    simp only [List.map_cons]
    rw [← readBack, ih fun r' hr' => hw r' (List.mem_cons_of_mem r hr')]
    rfl

/-- A capture of two packets and a rejected frame, stopped and ended. -/
def twoPackets : List Act :=
  [.worker 0 (.openLive true), .worker 0 .post, .worker 0 .post, .worker 0 .enterLoop, .deliver, .deliver,
    .worker 0 (.packet (udpFrame 42)), .worker 0 .post, .worker 0 .post, .deliver, .deliver,
    .worker 0 (.packet emptyFrame), .worker 0 (.packet (udpFrame 42)), .worker 0 .post, .worker 0 .post,
    .deliver, .deliver, .stopTh, .worker 0 .loopBreak, .worker 0 .close, .worker 0 .post, .deliver,
    .worker 0 .post, .deliver]

/-- Sorted by number, saved, cleared and opened: the two rows are back in the order of capture. -/
theorem save_open_identity_capture : ∃ s s₁ s₂,
    Lts.run (Sys.step .little) (Sys.init.createTh "eth0" "") twoPackets = some s ∧ s.pcap.md.vec.length = 2 ∧
    Lts.run (Sys.step .little) s [.sort .num s.pcap.md.vec.reverse] = some s₁ ∧
    s₁.pcap.md.vec ≠ s.pcap.md.vec ∧ Lts.run (Sys.step .little) s₁ [.resetMd] = some s₂ ∧
    ∃ written s₃, s₁.pcap.saveMd true = some (written.map some) ∧
      s₂.pcapFileRead .little (some (readBack written)) = some s₃ ∧
      s₃.pcap.md.vec.map Row.pkt = s.pcap.md.vec.map Row.pkt := by
  obtain ⟨s, hs, hlen, hend, hsort⟩ : ∃ s,
      Lts.run (Sys.step .little) (Sys.init.createTh "eth0" "") twoPackets = some s ∧ s.pcap.md.vec.length = 2 ∧
        s.NonePending ∧ (Lts.run (Sys.step .little) s [.sort .num s.pcap.md.vec.reverse]).any (fun s₁ =>
          decide (s₁.pcap.md.vec ≠ s.pcap.md.vec ∧ (s₁.pcap.saveMd true).isSome = true ∧
            s₁.resetMd.pcap.md.vec = [] ∧ s₁.resetMd.pcap.vecDump = [])) = true := Lts.run_reaches (by decide +kernel)
  obtain ⟨s₁, hs₁, hdec⟩ := (Option.any_eq_true _ _).1 hsort
  obtain ⟨hne, hsome, hempty⟩ := of_decide_eq_true hdec
  obtain ⟨recs, hrecs⟩ := Option.isSome_iff_exists.1 hsome
  have hl : Loaded .little Sys.init (twoPackets.flatMap Act.frames) s :=
    .live (by decide) "eth0" "" (by decide) twoPackets hs (by decide +kernel) hend rfl
  have hok : ∀ f ∈ twoPackets.flatMap Act.frames, Savable .little f := by decide +kernel
  have h₀ : Lts.run (Sys.step .little) Sys.init [] = some Sys.init := rfl
  have hclear : Lts.run (Sys.step .little) s₁ [.resetMd] = some s₁.resetMd := rfl
  have hsorts : ∀ a ∈ [Act.sort .num s.pcap.md.vec.reverse], a.isSort = true := by
    intro a ha
    cases List.mem_singleton.1 ha
    rfl
  obtain ⟨written, s₃, rfl, hread, _, hrows, _⟩ := save_open_identity h₀ hl hok hsorts hs₁ hrecs hclear hempty
    readBack_returnsWritten
  exact ⟨s, s₁, s₁.resetMd, hs, hlen, hs₁, hne, hclear, written, s₃, hrecs, hread, hrows⟩

end MiniWireshark

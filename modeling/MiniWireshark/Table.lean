import MiniWireshark.Fragments
import MiniWireshark.Transit

/-!
# The packet table (`Capture.cpp:11-112`, `CaptureView.qml:679-789`)

The `ListView` of `CaptureView` does not read the model when it paints. It keeps what it has read, and reads
again what the model tells it has changed: the rows between `beginInsertRows` and `endInsertRows`, or all of
them after `endResetModel`.

| here | there |
| --- | --- |
| `Role`, `QVariant`      | `Capture::Role`; the variants that `data` returns |
| `Capture.data`, `Capture.rowCount` | `Capture::data`, `Capture::rowCount` (`Capture.cpp:11-65`) |
| `Capture.delegate`      | `model.number` … `model.info` of one delegate (`CaptureView.qml:728-763`) |
| `Capture.table`         | what a view reads of the whole model |
| `Notice`                | `endInsertRows` and `endResetModel`, with the model as it is then |
| `Table.step`            | what a view does then; `none` where `beginInsertRows` asserts |
| `Sys.notices h s a`     | what the model tells its views in a step |
| `Frame.told`            | what the table is to say of a frame, read off its bytes |
-/

namespace MiniWireshark

open scoped List

inductive Role where
  | num
  | src
  | dst
  | proto
  | len
  | info
deriving DecidableEq, Repr

inductive QVariant where
  | invalid
  | int (n : Nat)
  | string (s : String)
deriving DecidableEq, Repr

namespace Capture

def rowCount (c : Capture) (parentIsValid : Bool) : Nat := if parentIsValid then 0 else c.vec.length

/-- `row` is that of the index; `none` for one that is not valid. -/
def data (c : Capture) (row : Option Nat) (role : Role) : QVariant :=
  match row.bind (c.vec[·]?) with
  | none => .invalid
  | some r =>
    match role with
    | .num => .int r.pkt.num
    | .src => .string r.pkt.src
    | .dst => .string r.pkt.dst
    | .proto => .string r.pkt.proto
    | .len => .int r.pkt.len
    | .info => .string r.pkt.info

def delegate (c : Capture) (row : Nat) : List QVariant := [.num, .src, .dst, .proto, .len, .info].map (c.data (some row))

def table (c : Capture) : List (List QVariant) := (List.range (c.rowCount false)).map c.delegate

end Capture

inductive Notice where
  | rowsInserted (first last : Nat) (md : Capture)
  | modelReset (md : Capture)

/-- As the contract of `QAbstractItemModel` has it: the view reads the rows `first` … `last` and moves up what stood
there, or reads everything. -/
def Table.step (t : List (List QVariant)) : Notice → Option (List (List QVariant))
  | .rowsInserted first last md =>
    if first ≤ t.length ∧ first ≤ last then
      some (t.take first ++ (List.range' first (last + 1 - first)).map md.delegate ++ t.drop first)
    else none
  | .modelReset md => some md.table

/-! ## What the model tells -/

/-- `update_md` asks for the number of rows before it adds one. -/
def Capture.updateMdNotice (c : Capture) (pkt : Row) : Notice :=
  let row := c.vec.length
  .rowsInserted row row (c.updateMd pkt)

/-- `packet_func` calls `update_md` for an accepted frame. -/
def Pcap.packetNotices (h : Host) (src : Source) (p : Pcap) (f : Frame) : List Notice :=
  match accepted h f with
  | none => []
  | some pkt => [p.md.updateMdNotice ⟨{ pkt with num := p.num }, src⟩]

/-- The sorts tell of a reset once they are done. -/
def Sys.notices (h : Host) (s : Sys) : Act → List Notice
  | .createTh nicName _ => if nicName.isEmpty then [] else [.modelReset s.pcap.md.reset]
  | .stopTh => []
  | .resetMd => if s.pcap.wkLife = false then [.modelReset s.pcap.md.reset] else []
  | .pcapFileRead none => []
  | .pcapFileRead (some frames) =>
    Lts.trace (Pcap.packetFunc h Frame.read (.file s.reads)) (Pcap.packetNotices h (.file s.reads)) s.pcap frames
  | .sort col sorted => ((s.pcap.md.sort col sorted).map Notice.modelReset).toList
  | .deliver =>
    match s.queue with
    | .updateMd row :: _ => [s.pcap.md.updateMdNotice row]
    | _ => []
  | .worker _ _ => []

/-! ## What a view reads -/

/-- The cells of a row but for its number. -/
def StPkt.told (pkt : StPkt) : List QVariant :=
  [.string pkt.src, .string pkt.dst, .string pkt.proto, .int pkt.len, .string pkt.info]

def Row.cells (r : Row) : List QVariant := .int r.pkt.num :: r.pkt.told

section
variable {h : Host} {c : Capture} {p p' : Pcap} {s s' : Sys} {a : Act}

theorem Capture.delegate_of_row {r : Row} {row : Nat} (hr : c.vec[row]? = some r) : c.delegate row = r.cells := by
  simp [delegate, data, hr, Row.cells, StPkt.told]

theorem Capture.table_eq (c : Capture) : c.table = c.vec.map Row.cells := by
  apply List.ext_getElem?
  intro row
  rw [table, rowCount, if_neg Bool.false_ne_true, List.getElem?_map, List.getElem?_map]
  by_cases hrow : row < c.vec.length
  · have hr := List.getElem?_eq_getElem hrow
    rw [List.getElem?_range hrow, hr, Option.map_some, Option.map_some, delegate_of_row hr]
  · rw [List.getElem?_eq_none (by rwa [List.length_range, ← Nat.not_lt]), List.getElem?_eq_none (Nat.not_lt.1 hrow)]
    rfl

/-! ## Each change -/

theorem Table.step_modelReset (t : List (List QVariant)) (c : Capture) : Lts.run Table.step t [.modelReset c] = some c.table :=
  rfl

/-- One row more, at the end. -/
theorem Table.step_updateMd (c : Capture) (pkt : Row) :
    Lts.run Table.step c.table [c.updateMdNotice pkt] = some (c.updateMd pkt).table := by
  have hlen : c.table.length = c.vec.length := by rw [c.table_eq, List.length_map]
  have hnew : (c.updateMd pkt).delegate c.vec.length = pkt.cells := Capture.delegate_of_row (by simp [Capture.updateMd])
  have hread : List.range' c.vec.length (c.vec.length + 1 - c.vec.length) = [c.vec.length] := by
    rw [Nat.add_sub_cancel_left]
    rfl
  have hstep : Table.step c.table (c.updateMdNotice pkt) = some (c.updateMd pkt).table := by
    rw [Capture.updateMdNotice, Table.step, if_pos ⟨by omega, Nat.le_refl _⟩, hread, ← hlen, List.take_length,
      List.drop_length, hlen, List.map_singleton, hnew, List.append_nil]
    simp only [Capture.table_eq, Capture.updateMd, List.map_append, List.map_singleton]
  rw [Lts.run_cons, hstep]
  rfl

theorem Pcap.packetFunc_table {src : Source} {f : Frame} (hp : p.packetFunc h Frame.read src f = some p') :
    Lts.run Table.step p.md.table (p.packetNotices h src f) = some p'.md.table := by
  obtain ⟨ha, rfl⟩ | ⟨row, ha, rfl⟩ := Pcap.packetFunc_cases hp
  · simp only [packetNotices, ha]
    rfl
  · simp only [packetNotices, ha]
    exact Table.step_updateMd p.md _

/-- The loop of `pcapFile_Read`. -/
theorem Pcap.pcapFileRead_table {src : Source} {frames : List Frame} (hp : p.pcapFileRead h src frames = some p') :
    Lts.run Table.step p.md.table (Lts.trace (packetFunc h Frame.read src) (packetNotices h src) p frames) =
      some p'.md.table := by
  simp only [pcapFileRead, Option.bind_eq_bind, Option.bind_eq_some_iff] at hp
  obtain ⟨q, hq, hp⟩ := hp
  cases hp
  have hrun : Lts.run (packetFunc h Frame.read src) p frames = some q := by
    rw [Lts.run_eq_foldlM]
    exact hq
  have htable : Lts.run Table.step p.md.table _ = some q.md.table :=
    Lts.run_trace (fun _ _ _ hp => packetFunc_table hp) hrun
  exact htable

/-- **Step lemma.** -/
theorem Sys.step_table (hs : Sys.step h s a = some s') :
    Lts.run Table.step s.pcap.md.table (s.notices h a) = some s'.pcap.md.table := by
  cases a with
  | createTh nicName ft =>
    cases hs
    cases hn : nicName.isEmpty <;> simp [Sys.notices, Sys.createTh, hn, Lts.run, Table.step]
  | stopTh =>
    cases hs
    rw [s.stopTh_stored.1]
    rfl
  | resetMd =>
    cases hs
    cases hl : s.pcap.wkLife <;> simp [Sys.notices, Sys.resetMd, hl, Lts.run, Table.step]
  | pcapFileRead file =>
    cases file with
    | none =>
      cases hs
      rfl
    | some frames =>
      simp only [Sys.step, Sys.pcapFileRead, Option.bind_eq_bind, Option.bind_eq_some_iff] at hs
      obtain ⟨p, hp, hs⟩ := hs
      have hmd : s'.pcap.md = p.md := by
        split at hs <;> cases hs <;> rfl
      rw [hmd]
      exact Pcap.pcapFileRead_table hp
  | sort col sorted =>
    obtain ⟨md, hmd, rfl⟩ := Sys.sort_cases hs
    simp only [Sys.notices, hmd]
    exact Table.step_modelReset _ md
  | deliver =>
    obtain ⟨m, q, hq, rfl⟩ := Sys.deliver_cases hs
    cases m with
    | updateMd row =>
      simp only [Sys.notices, hq]
      exact Table.step_updateMd _ row
    | _ =>
      simp only [Sys.notices, hq]
      rfl
  | worker w b =>
    simp only [Sys.step, Sys.work, Option.bind_eq_bind, Option.bind_eq_some_iff] at hs
    obtain ⟨wk, _, r, _, hs⟩ := hs
    cases hs
    rfl

/-- **The table is never stale.** A view that has read the packet list in any state shows it in every later one: what
the model tells suffices, in every order of deliveries, sorts, file reads and clicks, no insertion is announced past
the end, and row `i` of the table is row `i` of the model. -/
theorem table_never_stale {acts : List Act} (hr : Lts.run (Sys.step h) s acts = some s') :
    Lts.run Table.step s.pcap.md.table (Lts.trace (Sys.step h) (fun s a => s.notices h a) s acts) =
        some s'.pcap.md.table ∧
      ∀ row : Nat, s'.pcap.md.table[row]? = s'.pcap.md.vec[row]?.map Row.cells := by
  constructor
  · exact Lts.run_trace (fun _ _ _ hs => Sys.step_table hs) hr
  · intro row
    rw [Capture.table_eq, List.getElem?_map]

end

/-- A packet arrives in the table, and the capture is started again. -/
theorem table_never_stale_capture : ∃ s s', Lts.run (Sys.step .little) Sys.init (captureOne (udpFrame 42)) = some s ∧
    Lts.run (Sys.step .little) s [.createTh "eth0" ""] = some s' ∧
      Lts.run Table.step Sys.init.pcap.md.table
          (Lts.trace (Sys.step .little) (fun s a => s.notices .little a) Sys.init (captureOne (udpFrame 42))) =
        some [[.int 0, .string "10.0.0.1", .string "10.0.0.2", .string "UDP", .int 42, .string "53 ---> 53   Len=0"]] ∧
      Lts.run Table.step s.pcap.md.table
          (Lts.trace (Sys.step .little) (fun s a => s.notices .little a) s [.createTh "eth0" ""]) = some [] := by
  obtain ⟨s, hr, htable, hempty⟩ : ∃ s, Lts.run (Sys.step .little) Sys.init (captureOne (udpFrame 42)) = some s ∧
      s.pcap.md.table =
        [[.int 0, .string "10.0.0.1", .string "10.0.0.2", .string "UDP", .int 42, .string "53 ---> 53   Len=0"]] ∧
      ((Lts.run (Sys.step .little) s [.createTh "eth0" ""]).any fun s' => decide (s'.pcap.md.table = [])) = true :=
    Lts.run_reaches (by decide +kernel)
  obtain ⟨s', hr', hempty⟩ := (Option.any_eq_true _ _).1 hempty
  have hcapture := (table_never_stale hr).1
  have hagain := (table_never_stale hr').1
  rw [htable] at hcapture
  rw [of_decide_eq_true hempty] at hagain
  exact ⟨s, s', hr, hr', hcapture, hagain⟩

/-! ## From frames to the table -/

/-- What the table is to say of a frame, read off its bytes. -/
def Frame.told (f : Frame) : Option (List QVariant) :=
  (if Accepts f.packet then wireDecode f.reach else none).map StPkt.told

section
variable {h : Host} {s s' : Sys} {a : Act}

theorem told_stored (h : Host) (src : Source) (n : Nat) (fs : List Frame) :
    (stored h src n fs).map (fun p => p.1.pkt.told) = fs.filterMap Frame.told := by
  induction fs generalizing n with
  | nil => rfl
  | cons f fs ih =>
    have hf : f.told = (accepted h f).map StPkt.told := by rw [Frame.told, accepted_eq h f]
    cases ha : accepted h f with
    | none => rw [stored_cons_reject ha, ih, List.filterMap_cons, hf, ha, Option.map_none]
    | some pkt =>
      rw [stored_cons_accept ha, List.map_cons, ih, List.filterMap_cons, hf, ha, Option.map_some]
      rfl

/-- **Step.** What a step takes is read off the frames it is handed, whoever takes them. -/
theorem Sys.told_taken (hs : Sys.step h s a = some s') :
    (s.taken h a).map (fun p => p.1.pkt.told) = a.frames.filterMap Frame.told := by
  cases a with
  | worker v b =>
    obtain ⟨wk, wk', ms, hv, _, _⟩ := Sys.work_step hs
    simp only [Sys.taken, hv]
    cases b <;> first | rfl | exact told_stored ..
  | pcapFileRead file =>
    cases file with
    | none => rfl
    | some frames => exact told_stored ..
  | _ => rfl

/-- **Run.** Without a clear, what is stored or on its way gains what the frames say. -/
theorem Sys.told_run {acts : List Act} (hr : Lts.run (Sys.step h) s acts = some s')
    (hc : Lts.Along (Sys.step h) (fun s a => a.clears s = false) s acts) :
    s'.rows.map (fun r => r.pkt.told) ~ s.rows.map (fun r => r.pkt.told) ++ (acts.flatMap Act.frames).filterMap Frame.told := by
  induction acts generalizing s with
  | nil =>
    cases hr
    simp
  | cons a acts ih =>
    obtain ⟨t, ht, hr⟩ := Lts.run_cons_eq_some.1 hr
    obtain ⟨hca, hc⟩ := (Lts.along_cons_of_step ht).1 hc
    have hrows := ((Sys.step_flow ht).2 hca).1.map fun r => r.pkt.told
    rw [List.map_append, List.map_map] at hrows
    have htaken : (s.taken h a).map ((fun r : Row => r.pkt.told) ∘ Prod.fst) = a.frames.filterMap Frame.told :=
      Sys.told_taken ht
    rw [htaken] at hrows
    rw [List.flatMap_cons, List.filterMap_append, ← List.append_assoc]
    exact (ih hr hc).trans (hrows.append_right _)

/-- **The table shows the frames.** Over any part of a run that does not clear the lists, from a state with nothing on
its way to another one, a view that follows the notices gains exactly one line for each frame accepted, live or from a
file, by whichever worker; and but for its number each line is what the bytes of its frame say. -/
theorem table_shows_frames {acts : List Act} (hr : Lts.run (Sys.step h) s acts = some s')
    (hc : Lts.Along (Sys.step h) (fun s a => a.clears s = false) s acts) (hn : s.NonePending) (hn' : s'.NonePending) :
    ∃ t, Lts.run Table.step s.pcap.md.table (Lts.trace (Sys.step h) (fun s a => s.notices h a) s acts) = some t ∧
      t.map List.tail ~ s.pcap.md.table.map List.tail ++ (acts.flatMap Act.frames).filterMap Frame.told := by
  have htail (s : Sys) (hn : s.NonePending) : s.pcap.md.table.map List.tail = s.rows.map fun r => r.pkt.told := by
    rw [Capture.table_eq, List.map_map, Sys.rows, hn.1, List.append_nil]
    rfl
  refine ⟨s'.pcap.md.table, Lts.run_trace (fun _ _ _ hs => Sys.step_table hs) hr, ?_⟩
  rw [htail s hn, htail s' hn']
  exact Sys.told_run hr hc

end

/-- A packet is captured, and a fragment read from a file. -/
def captureThenFile : List Act :=
  (captureOne (udpFrame 42)).drop 1 ++ [.pcapFileRead (some [fragment 17 1 0])]

/-- Both are shown. -/
theorem table_shows_frames_two : ∃ s s' t, Sys.step .little Sys.init (.createTh "eth0" "") = some s ∧
    Lts.run (Sys.step .little) s captureThenFile = some s' ∧
    Lts.run Table.step s.pcap.md.table (Lts.trace (Sys.step .little) (fun s a => s.notices .little a) s captureThenFile) =
      some t ∧
    t.map List.tail ~ [[.string "10.0.0.1", .string "10.0.0.2", .string "UDP", .int 42, .string "53 ---> 53   Len=0"],
      [.string "10.0.0.1", .string "10.0.0.2", .string "UDP", .int 54, .string "53 ---> 1   Len=12"]] := by
  obtain ⟨s', hr, hc, hn'⟩ : ∃ s', Lts.run (Sys.step .little) (Sys.init.createTh "eth0" "") captureThenFile = some s' ∧
      Lts.Along (Sys.step .little) (fun s a => a.clears s = false) (Sys.init.createTh "eth0" "") captureThenFile ∧
      s'.NonePending := Lts.run_reaches (by decide +kernel)
  obtain ⟨t, ht, hlines⟩ := table_shows_frames hr hc ⟨rfl, rfl⟩ hn'
  have htold : (captureThenFile.flatMap Act.frames).filterMap Frame.told =
      [[.string "10.0.0.1", .string "10.0.0.2", .string "UDP", .int 42, .string "53 ---> 53   Len=0"],
        [.string "10.0.0.1", .string "10.0.0.2", .string "UDP", .int 54, .string "53 ---> 1   Len=12"]] := by
    decide +kernel
  rw [htold] at hlines
  exact ⟨_, s', t, rfl, hr, ht, hlines⟩

end MiniWireshark

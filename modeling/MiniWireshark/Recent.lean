import MiniWireshark.Lib.Lists
import MiniWireshark.Lib.Lts
import Mathlib.Data.List.Perm.Subperm

/-!
# Recent captures (`Open_List.cpp`, `NicListView.qml:35`)

`open_list` is a table of paths on disk with the path as its primary key; `vec` is what the view
shows. Every query can fail: the database may not be open, the table not be there, the device not
answer; and `next` can stop on an error before the last row. `add_db` goes on to read the table when its
`INSERT` has failed, and keeps the old `vec` when its `SELECT` has.

| here | there |
| --- | --- |
| `Sqlite`, `Sqlite.Lawful` | **SQLite boundary**: the three statements, and what is relied on of them |
| `OpenList.initVec`     | `init_vec`, and the second half of `add_db` (`:137-173`, `:187-212`) |
| `OpenList.launch`      | the constructor, run once for each start of the program (`:3-7`) |
| `OpenList.addDb`       | `add_db` (`:125-177`) |
| `OpenList.rowCount`, `OpenList.data` | what the view reads (`:93-123`); `shown` is all of it |
| `tableDb`              | a database that is a list of paths, which shows `Lawful` satisfiable |

The file outlives the program: a start finds the table the last run left.
-/

namespace MiniWireshark

open scoped List

/-! ## The database -/

/-- The database behind `db_lite`. `σ` is what is on disk, and `ε` whatever else an answer depends on. A
statement succeeds if `prepare` and `exec` do. -/
structure Sqlite (σ ε : Type) where
  /-- The rows of `open_list`, none where there is no table. -/
  paths : σ → List String
  /-- `CREATE TABLE open_list (path TEXT PRIMARY KEY NOT NULL)`. -/
  create : ε → σ → σ
  /-- `INSERT INTO open_list (path) VALUES (:path)`, and whether it succeeds. -/
  insert : ε → String → σ → Bool × σ
  /-- `SELECT * FROM open_list`: the rows for which `next` answers true, if the statement succeeds. -/
  select : ε → σ → Option (List String)

/-- What SQLite documents of these statements. -/
structure Sqlite.Lawful {σ ε : Type} (db : Sqlite σ ε) : Prop where
  /-- A new table is empty, and an existing one is not touched. -/
  create_paths : ∀ e s, db.paths (db.create e s) = db.paths s
  /-- The key is unique, and the row is added. -/
  insert_ok : ∀ e path s, (db.insert e path s).1 = true →
    path ∉ db.paths s ∧ db.paths (db.insert e path s).2 ~ path :: db.paths s
  /-- A statement that fails is rolled back. -/
  insert_failed : ∀ e path s, (db.insert e path s).1 = false → db.paths (db.insert e path s).2 = db.paths s
  /-- Rows come in any order, each once; an error may cut them short. -/
  select_rows : ∀ e s rows, db.select e s = some rows → rows <+~ db.paths s

/-! ## The list -/

structure OpenList (σ : Type) where
  /-- The database file. -/
  file : σ
  vec : List String := []
deriving DecidableEq, Repr

/-- The program starts, or a file is opened; `ε` is what the statements meet with. -/
inductive RecentAct (ε : Type) where
  | launch (create select : ε)
  | addDb (path : String) (insert select : ε)

namespace OpenList

variable {σ ε : Type} (db : Sqlite σ ε) (o : OpenList σ)

/-- `vec` is replaced by the rows that come, unless the statement fails. -/
def initVec (select : ε) : OpenList σ :=
  match db.select select o.file with
  | some vecTmp => { o with vec := vecTmp }
  | none => o

/-- The `INSERT` is not looked back at. -/
def addDb (path : String) (insert select : ε) : OpenList σ :=
  initVec db { o with file := (db.insert insert path o.file).2 } select

/-- A new process over the file on disk. -/
def launch (create select : ε) : OpenList σ := initVec db { file := db.create create o.file, vec := [] } select

def step : RecentAct ε → Option (OpenList σ)
  | .launch create select => some (o.launch db create select)
  | .addDb path insert select => some (o.addDb db path insert select)

def rowCount : Nat := o.vec.length

/-- `data` with `pathRole`. -/
def data (row : Int) : Option String := if row < 0 ∨ row ≥ o.vec.length then none else o.vec[row.toNat]?

/-- What the view shows, row by row. -/
def shown : List String := (List.range o.rowCount).filterMap fun row : Nat => o.data row

theorem shown_eq : o.shown = o.vec := by
  have hrow : ∀ row ∈ List.range o.vec.length, o.data row = o.vec[row]? := by
    intro row hrow
    have hlt := List.mem_range.1 hrow
    rw [data, if_neg (by omega), Int.toNat_natCast]
  have hread : (List.range o.vec.length).map (fun row => o.vec[row]?) = o.vec.map some := Lists.map_getElem?_range id o.vec
  calc o.shown = (List.range o.vec.length).filterMap fun row => o.vec[row]? := List.filterMap_congr hrow
    _ = ((List.range o.vec.length).map fun row => o.vec[row]?).filterMap id := by rw [List.filterMap_map, Function.id_comp]
    _ = o.vec := by rw [hread, List.filterMap_map, Function.id_comp, List.filterMap_some]

end OpenList

/-! ## One action -/

namespace RecentAct

variable {σ ε : Type} (db : Sqlite σ ε) (o : OpenList σ)

def isLaunch : RecentAct ε → Bool
  | .launch .. => true
  | .addDb .. => false

/-- The file the `SELECT` finds. -/
def file : RecentAct ε → σ
  | .launch create _ => db.create create o.file
  | .addDb path insert _ => (db.insert insert path o.file).2

/-- The rows the `SELECT` yields, if it succeeds. -/
def rows (a : RecentAct ε) : Option (List String) :=
  match a with
  | .launch _ select => db.select select (a.file db o)
  | .addDb _ _ select => db.select select (a.file db o)

/-- A path goes in. -/
def inserts : RecentAct ε → Bool
  | .launch .. => false
  | .addDb path insert _ => (db.insert insert path o.file).1

/-- This path goes in. -/
def records (path : String) (a : RecentAct ε) : Prop :=
  match a with
  | .launch .. => False
  | .addDb p insert _ => p = path ∧ (db.insert insert p o.file).1 = true

/-- The view is brought up to date: all rows come, or there is nothing to show. -/
def refreshes (a : RecentAct ε) : Prop :=
  (a.rows db o).any (fun rows => decide (rows ~ db.paths (a.file db o))) = true ∨ a.isLaunch = true ∧ db.paths o.file = []

/-- The view is left behind: the rows are cut short, or there are none at a start or after a path went in. -/
def lags (a : RecentAct ε) : Prop :=
  ¬ a.refreshes db o ∧ ((a.rows db o).isSome = true ∨ a.isLaunch = true ∨ a.inserts db o = true)

end RecentAct

section
variable {σ ε : Type} {db : Sqlite σ ε} {o o' : OpenList σ} {a : RecentAct ε}

/-- **What an action does**: the file is the one its first half leaves, and the view shows the rows that come, or
stays. -/
theorem OpenList.step_spec (hs : o.step db a = some o') :
    o'.file = a.file db o ∧ o'.vec = (a.rows db o).getD (if a.isLaunch then [] else o.vec) := by
  cases a <;> cases hs <;> simp only [OpenList.launch, OpenList.addDb, OpenList.initVec, RecentAct.rows, RecentAct.file] <;>
    split <;> simp [*, RecentAct.isLaunch]

/-- What its first half does to the table. -/
theorem RecentAct.paths_file (hdb : db.Lawful) (o : OpenList σ) (a : RecentAct ε) :
    (∃ path, a.inserts db o = true ∧ a.isLaunch = false ∧ path ∉ db.paths o.file ∧
      db.paths (a.file db o) ~ path :: db.paths o.file ∧ ∀ p, a.records db o p ↔ p = path) ∨
    a.inserts db o = false ∧ db.paths (a.file db o) = db.paths o.file ∧ ∀ p, ¬ a.records db o p := by
  cases a with
  | launch create select => exact .inr ⟨rfl, hdb.create_paths create o.file, fun _ => id⟩
  | addDb path insert select =>
    cases hok : (db.insert insert path o.file).1 with
    | true =>
      obtain ⟨hnew, hperm⟩ := hdb.insert_ok insert path o.file hok
      exact .inl ⟨path, hok, rfl, hnew, hperm, fun p => by simp [RecentAct.records, hok, eq_comm]⟩
    | false =>
      refine .inr ⟨hok, hdb.insert_failed insert path o.file hok, fun p hp => ?_⟩
      exact Bool.false_ne_true (hok.symm.trans hp.2)

/-- The table has no path twice, and the view shows rows of it, each once. -/
structure OpenList.Shows (db : Sqlite σ ε) (o : OpenList σ) : Prop where
  nodup : (db.paths o.file).Nodup
  shown : o.vec <+~ db.paths o.file

theorem OpenList.Shows.step (hdb : db.Lawful) (hi : o.Shows db) (hs : o.step db a = some o') : o'.Shows db := by
  obtain ⟨hfile, hvec⟩ := OpenList.step_spec hs
  have hkeep : (db.paths o'.file).Nodup ∧ db.paths o.file <+~ db.paths o'.file := by
    rw [hfile]
    rcases a.paths_file hdb o with ⟨path, _, _, hnew, hperm, _⟩ | ⟨_, hsame, _⟩
    · exact ⟨hperm.nodup_iff.2 (List.nodup_cons.2 ⟨hnew, hi.nodup⟩),
        ((List.sublist_cons_self path _).subperm).trans hperm.symm.subperm⟩
    · rw [hsame]
      exact ⟨hi.nodup, .refl _⟩
  refine ⟨hkeep.1, ?_⟩
  rw [hvec]
  cases hrows : a.rows db o with
  | some rows =>
    rw [hfile]
    cases a <;> exact hdb.select_rows _ _ _ hrows
  | none =>
    rw [Option.getD_none]
    split
    · exact List.nil_subperm
    · exact hi.shown.trans hkeep.2

theorem OpenList.Shows.run (hdb : db.Lawful) {s₀ : σ} (h₀ : db.paths s₀ = []) {acts : List (RecentAct ε)}
    (hr : Lts.run (OpenList.step db) ⟨s₀, []⟩ acts = some o) : o.Shows db :=
  Lts.run_invariant' (fun _ _ _ hi hs => OpenList.Shows.step hdb hi hs)
    ⟨by rw [h₀]; exact List.nodup_nil, List.nil_subperm⟩ hr

/-! ## Over starts and sessions -/

theorem OpenList.mem_step (hdb : db.Lawful) (hs : o.step db a = some o') (path : String) :
    path ∈ db.paths o'.file ↔ path ∈ db.paths o.file ∨ a.records db o path := by
  rw [(OpenList.step_spec hs).1]
  rcases a.paths_file hdb o with ⟨p, _, _, _, hperm, hrecords⟩ | ⟨_, hsame, hrecords⟩
  · rw [hperm.mem_iff, List.mem_cons, hrecords, or_comm]
  · rw [hsame, or_iff_left (hrecords path)]

/-- **What is recorded, exactly.** From an empty table and over any starts of the program, calls of `add_db` and
failures of the database: a path is on disk iff some `INSERT` of it succeeded; it stays there from then on; no path
is there twice; and the view shows paths that are, each once. -/
theorem recent_paths_exact (hdb : db.Lawful) {s₀ : σ} (h₀ : db.paths s₀ = []) {acts : List (RecentAct ε)}
    (hr : Lts.run (OpenList.step db) ⟨s₀, []⟩ acts = some o) :
    (∀ path, path ∈ db.paths o.file ↔ Lts.Sometime (OpenList.step db) (fun o a => a.records db o path) ⟨s₀, []⟩ acts) ∧
      (db.paths o.file).Nodup ∧ o.shown.Nodup ∧ o.shown ⊆ db.paths o.file ∧
      ∀ acts' o', Lts.run (OpenList.step db) o acts' = some o' → db.paths o.file ⊆ db.paths o'.file := by
  have hshows := OpenList.Shows.run hdb h₀ hr
  rw [o.shown_eq]
  refine ⟨fun path => ?_, hshows.nodup, ?_, hshows.shown.subset, fun acts' o' hr' path hmem => ?_⟩
  · have hiff := Lts.sometime_iff (A := fun o a => a.records db o path) (P := fun o => path ∈ db.paths o.file)
      (fun o a o' hs => OpenList.mem_step hdb hs path) hr
    rw [hiff, h₀, or_iff_right List.not_mem_nil]
  · obtain ⟨l, hl, hsub⟩ := hshows.shown
    exact hl.nodup_iff.1 (hshows.nodup.sublist hsub)
  · exact Lts.run_invariant' (I := fun o' => path ∈ db.paths o'.file)
      (fun _ _ _ hi hs => (OpenList.mem_step hdb hs path).2 (.inl hi)) hmem hr'

/-- What an action does to the view: it is left behind, brought up to date, or as it was. -/
theorem OpenList.Shows.current_step (hdb : db.Lawful) (hi : o.Shows db) (hs : o.step db a = some o') :
    (a.lags db o → ¬ o'.vec ~ db.paths o'.file) ∧ (a.refreshes db o → o'.vec ~ db.paths o'.file) ∧
      (¬ a.lags db o → ¬ a.refreshes db o → (o'.vec ~ db.paths o'.file ↔ o.vec ~ db.paths o.file)) := by
  obtain ⟨hfile, hvec⟩ := OpenList.step_spec hs
  have hstart (hl : a.isLaunch = true) : db.paths (a.file db o) = db.paths o.file := by
    cases a with
    | launch create select => exact hdb.create_paths create o.file
    | addDb path insert select => cases hl
  rw [hfile, hvec]
  cases hrows : a.rows db o with
  | some rows =>
    have hrefresh : a.refreshes db o ↔ rows ~ db.paths (a.file db o) := by
      have hsub : rows <+~ db.paths (a.file db o) := by cases a <;> exact hdb.select_rows _ _ _ hrows
      rw [RecentAct.refreshes, hrows, Option.any_some, decide_eq_true_iff]
      refine or_iff_left_of_imp fun ⟨hl, hnil⟩ => ?_
      rw [hstart hl, hnil] at hsub ⊢
      rw [List.subperm_nil.1 hsub]
    rw [Option.getD_some, ← hrefresh]
    refine ⟨fun hl => hl.1, id, fun hl hn => absurd ⟨hn, .inl ?_⟩ hl⟩
    rw [hrows]
    rfl
  | none =>
    have hrefresh : a.refreshes db o ↔ a.isLaunch = true ∧ db.paths o.file = [] := by
      simp [RecentAct.refreshes, hrows]
    have hlags : a.lags db o ↔ ¬ a.refreshes db o ∧ (a.isLaunch = true ∨ a.inserts db o = true) := by
      simp [RecentAct.lags, hrows]
    rw [Option.getD_none]
    refine ⟨fun hl hperm => ?_, fun hre => ?_, fun hl hn => ?_⟩
    · obtain ⟨hn, hl | hin⟩ := hlags.1 hl
      · rw [if_pos hl, hstart hl] at hperm
        exact hn (hrefresh.2 ⟨hl, List.nil_perm.1 hperm⟩)
      · -- the table has one path more than before, and the view has none more
        rcases a.paths_file hdb o with ⟨path, _, hlaunch, _, hcons, _⟩ | ⟨hout, _⟩
        · rw [hlaunch, if_neg Bool.false_ne_true] at hperm
          have hlen := (hperm.trans hcons).length_eq
          have hle := hi.shown.length_le
          rw [List.length_cons] at hlen
          omega
        · rw [hin] at hout
          cases hout
    · obtain ⟨hl, hnil⟩ := hrefresh.1 hre
      rw [if_pos hl, hstart hl, hnil]
    · have hnot : ¬ (a.isLaunch = true ∨ a.inserts db o = true) := fun hor => hl (hlags.2 ⟨hn, hor⟩)
      rw [not_or] at hnot
      rcases a.paths_file hdb o with ⟨path, hin, _⟩ | ⟨_, hsame, _⟩
      · exact absurd hin hnot.2
      · rw [if_neg hnot.1, hsame]

/-- **When the view is current, exactly.** It shows what is on disk iff every action that left it behind (its `SELECT`
was cut short, or failed at a start or after a path went in) was followed by one that brought it up to date. -/
theorem recent_list_current_iff (hdb : db.Lawful) {s₀ : σ} (h₀ : db.paths s₀ = []) {acts : List (RecentAct ε)}
    (hr : Lts.run (OpenList.step db) ⟨s₀, []⟩ acts = some o) :
    o.shown ~ db.paths o.file ↔
      Lts.Answered (OpenList.step db) (fun o a => a.lags db o) (fun o a => a.refreshes db o) ⟨s₀, []⟩ acts := by
  rw [o.shown_eq]
  have hflag := Lts.flag_false_iff (I := OpenList.Shows db) (f := fun o => !decide (o.vec ~ db.paths o.file))
    (A := fun o a => a.lags db o) (B := fun o a => a.refreshes db o) (fun o a o' hi hs => hi.step hdb hs)
    (fun o a o' hi hs hl => by simpa using (hi.current_step hdb hs).1 hl)
    (fun o a o' hi hs hb => by simpa using (hi.current_step hdb hs).2.1 hb)
    (fun o a o' hi hs hl hb => by simp only [(hi.current_step hdb hs).2.2 hl hb])
    ⟨by rw [h₀]; exact List.nodup_nil, List.nil_subperm⟩ hr
  have hend : (!decide (o.vec ~ db.paths o.file)) = false ↔ o.vec ~ db.paths o.file := by
    rw [Bool.not_eq_false', decide_eq_true_iff]
  have hstart : (!decide (([] : List String) ~ db.paths s₀)) ≠ true := by simp [h₀]
  rw [← hend, hflag]
  exact and_iff_right fun hc => absurd hc hstart

end

/-! ## A reference database -/

/-- What a statement of the reference database meets with; `stops` cuts the rows short. -/
structure Query where
  prepare : Bool := true
  exec : Bool := true
  stops : Option Nat := none
deriving DecidableEq, Repr

def Query.ok (q : Query) : Bool := q.prepare && q.exec

/-- The file is the table, in the order the rows went in. -/
def tableDb : Sqlite (Option (List String)) Query where
  paths s := s.getD []
  create q s := if q.ok && s.isNone then some [] else s
  insert q path s := match s with
    | some t => if q.ok ∧ path ∉ t then (true, some (t ++ [path])) else (false, s)
    | none => (false, s)
  select q s := if q.ok then s.map fun t => t.take (q.stops.getD t.length) else none

theorem tableDb_lawful : tableDb.Lawful where
  create_paths q s := by
    cases s with
    | none => simp only [tableDb]; split <;> rfl
    | some t => simp [tableDb]
  insert_ok q path s := by
    cases s with
    | none => simp [tableDb]
    | some t =>
      simp only [tableDb]
      split
      · exact fun _ => ⟨‹_ ∧ _›.2, List.perm_append_singleton path t⟩
      · nofun
  insert_failed q path s := by
    cases s with
    | none => simp [tableDb]
    | some t =>
      simp only [tableDb]
      split
      · nofun
      · exact fun _ => rfl
  select_rows q s rows hrows := by
    simp only [tableDb] at hrows ⊢
    split at hrows
    · obtain ⟨t, rfl, rfl⟩ := Option.map_eq_some_iff.1 hrows
      exact (List.take_sublist _ t).subperm
    · cases hrows

/-- A first start, two files opened with the second `SELECT` cut short, a file opened again, and a new start. -/
def openTwice : List (RecentAct Query) :=
  [.launch {} {}, .addDb "a.pcap" {} {}, .addDb "b.pcap" {} { stops := some 1 }, .addDb "a.pcap" {} { exec := false },
    .launch {} {}]

/-- Before the new start the second file is recorded and not shown. -/
theorem recent_paths_exact_opened_twice : ∃ o, Lts.run (OpenList.step tableDb) ⟨none, []⟩ (openTwice.take 4) = some o ∧
    o.shown = ["a.pcap"] ∧
    Lts.Sometime (OpenList.step tableDb) (fun o a => a.records tableDb o "b.pcap") ⟨none, []⟩ (openTwice.take 4) := by
  obtain ⟨o, hr, hvec, hmem⟩ : ∃ o, Lts.run (OpenList.step tableDb) ⟨none, []⟩ (openTwice.take 4) = some o ∧
      o.shown = ["a.pcap"] ∧ "b.pcap" ∈ tableDb.paths o.file := Lts.run_reaches (by decide +kernel)
  exact ⟨o, hr, hvec, ((recent_paths_exact tableDb_lawful rfl hr).1 "b.pcap").1 hmem⟩

/-- The new start brings the view up to date. -/
theorem recent_list_current_restarted : ∃ o, Lts.run (OpenList.step tableDb) ⟨none, []⟩ openTwice = some o ∧
    Lts.Answered (OpenList.step tableDb) (fun o a => a.lags tableDb o) (fun o a => a.refreshes tableDb o) ⟨none, []⟩
      openTwice := by
  obtain ⟨o, hr, hperm⟩ : ∃ o, Lts.run (OpenList.step tableDb) ⟨none, []⟩ openTwice = some o ∧
      o.shown ~ tableDb.paths o.file := Lts.run_reaches (by decide +kernel)
  exact ⟨o, hr, (recent_list_current_iff tableDb_lawful rfl hr).1 hperm⟩

end MiniWireshark

import Mathlib.Data.List.Perm.Lattice
import MiniWireshark.Transit

/-!
# Rows and the bytes they look up (`Pcap.cpp:221-256`, `:366-493`, `:777-807`)

A row and its entry travel as two calls, and each worker and each file read numbers from 0. The
counters keep the numbers of one source apart, and nothing keeps those of two sources apart: rows and
entries stay in correspondence in the runs that never hold packets of two sources, and never clear the
lists between the delivery of a row and that of its entry.

| here | meaning |
| --- | --- |
| `Sys.Matched s`      | no `update_md` has been delivered without its `dump_push_back` |
| `Act.apart h s`      | what is accepted joins only packets of its own source; the lists are cleared only when matched |
| `Sys.Numbered s`     | the number of each row is behind its worker's counter |
| `Act.inTurn h s`     | captures and file reads take turns: a schedule that keeps sources apart |
| `Correspond h R E`   | each row has its entry, each entry its row, and no number is used twice |
| `Sys.RowsMatch h s`  | rows and entries correspond, and the lookup finds each row's own frame |
-/

namespace MiniWireshark

open scoped List

variable {h : Host} {s s' : Sys} {a : Act}

def Row.no (r : Row) : Nat := r.pkt.num

def Entry.no (e : Entry) : Nat := e.dump.pktNum

/-- No `update_md` has been delivered without its `dump_push_back`: the row of each entry on its way
is on its way too. -/
def Sys.Matched (s : Sys) : Prop := ∀ e ∈ s.pendEntries, ∃ r ∈ s.pendRows, r.src = e.src ∧ r.no = e.no

instance (s : Sys) : Decidable s.Matched := inferInstanceAs (Decidable (∀ e ∈ s.pendEntries, _))

/-- A packet is accepted only where everything stored or on its way is of its own source (for a file
read, which is a source of its own, where there is nothing), and the lists are cleared only in a
matched state. -/
def Act.apart (h : Host) (s : Sys) (a : Act) : Prop :=
  (∀ p ∈ s.taken h a, s.OnlyOf p.1.src) ∧ (a.clears s = true → s.Matched)

instance (h : Host) (s : Sys) (a : Act) : Decidable (a.apart h s) := inferInstanceAs (Decidable (_ ∧ _))

/-- Rows and entries are in one-to-one correspondence by number, and what `start_hax` and
`start_tree_md` find for a row is the frame the row was built from. -/
structure Sys.RowsMatch (h : Host) (s : Sys) : Prop where
  rowsNodup : (s.pcap.md.vec.map Row.no).Nodup
  entriesNodup : (s.pcap.vecDump.map Entry.no).Nodup
  perm : s.pcap.md.vec.map Row.no ~ s.pcap.vecDump.map Entry.no
  found : ∀ r ∈ s.pcap.md.vec, ∃ e, s.pcap.find r.no = some e ∧ SameFrame h r e

/-! ## Corresponding lists -/

/-- Each row has its entry and each entry its row, and no number is used twice. -/
structure Correspond (h : Host) (rows : List Row) (entries : List Entry) : Prop where
  rowsNodup : (rows.map Row.no).Nodup
  entriesNodup : (entries.map Entry.no).Nodup
  toEntry : ∀ r ∈ rows, ∃ e ∈ entries, SameFrame h r e
  toRow : ∀ e ∈ entries, ∃ r ∈ rows, SameFrame h r e

namespace Correspond

variable {R R' R₁ R₂ : List Row} {E E' E₁ E₂ : List Entry}

theorem nil : Correspond h [] [] where
  rowsNodup := List.nodup_nil
  entriesNodup := List.nodup_nil
  toEntry _ hr := absurd hr List.not_mem_nil
  toRow _ he := absurd he List.not_mem_nil

theorem perm (hc : Correspond h R E) (hR : R ~ R') (hE : E ~ E') : Correspond h R' E' where
  rowsNodup := (hR.map _).nodup hc.rowsNodup
  entriesNodup := (hE.map _).nodup hc.entriesNodup
  toEntry r hr := by
    obtain ⟨e, he, hsame⟩ := hc.toEntry r (hR.mem_iff.2 hr)
    exact ⟨e, hE.mem_iff.1 he, hsame⟩
  toRow e he := by
    obtain ⟨r, hr, hsame⟩ := hc.toRow e (hE.mem_iff.2 he)
    exact ⟨r, hR.mem_iff.1 hr, hsame⟩

/-- The two lists have the same numbers. -/
theorem perm_nums (hc : Correspond h R E) : R.map Row.no ~ E.map Entry.no := by
  refine (List.perm_ext_iff_of_nodup hc.rowsNodup hc.entriesNodup).2 fun n => ?_
  simp only [List.mem_map]
  constructor
  · rintro ⟨r, hr, rfl⟩
    obtain ⟨e, he, hsame⟩ := hc.toEntry r hr
    exact ⟨e, he, hsame.num_eq.symm⟩
  · rintro ⟨e, he, rfl⟩
    obtain ⟨r, hr, hsame⟩ := hc.toRow e he
    exact ⟨r, hr, hsame.num_eq⟩

/-- New pairs with unused numbers join. -/
theorem append {new : List (Row × Entry)} (hc : Correspond h R E) (hsame : ∀ p ∈ new, SameFrame h p.1 p.2)
    (hnodup : (new.map fun p => p.1.no).Nodup) (hfresh : ∀ p ∈ new, p.1.no ∉ R.map Row.no) :
    Correspond h (R ++ new.map Prod.fst) (E ++ new.map Prod.snd) where
  rowsNodup := by
    rw [List.map_append, List.map_map, List.nodup_append]
    refine ⟨hc.rowsNodup, hnodup, ?_⟩
    rintro _ hx _ hy rfl
    obtain ⟨p, hp, heq⟩ := List.mem_map.1 hy
    exact hfresh p hp (by rw [show p.1.no = _ from heq]; exact hx)
  entriesNodup := by
    have hnums : (new.map fun p => p.2.no) = new.map fun p => p.1.no :=
      List.map_congr_left fun p hp => (hsame p hp).num_eq.symm
    rw [List.map_append, List.map_map, List.nodup_append]
    refine ⟨hc.entriesNodup, (show (new.map fun p => p.2.no).Nodup by rw [hnums]; exact hnodup), ?_⟩
    rintro _ hx _ hy rfl
    obtain ⟨p, hp, heq⟩ := List.mem_map.1 hy
    have hno : p.1.no = p.2.no := (hsame p hp).num_eq
    exact hfresh p hp (by rw [hno, show p.2.no = _ from heq]; exact hc.perm_nums.mem_iff.2 hx)
  toEntry r hr := by
    rcases List.mem_append.1 hr with hr | hr
    · obtain ⟨e, he, hre⟩ := hc.toEntry r hr
      exact ⟨e, List.mem_append_left _ he, hre⟩
    · obtain ⟨p, hp, rfl⟩ := List.mem_map.1 hr
      exact ⟨p.2, List.mem_append_right _ (List.mem_map_of_mem hp), hsame p hp⟩
  toRow e he := by
    rcases List.mem_append.1 he with he | he
    · obtain ⟨r, hr, hre⟩ := hc.toRow e he
      exact ⟨r, List.mem_append_left _ hr, hre⟩
    · obtain ⟨p, hp, rfl⟩ := List.mem_map.1 he
      exact ⟨p.1, List.mem_append_right _ (List.mem_map_of_mem hp), hsame p hp⟩

/-- Corresponding lists split where no pair is separated. -/
theorem split (hc : Correspond h (R₁ ++ R₂) (E₁ ++ E₂)) (hrow : ∀ r ∈ R₂, ∃ e ∈ E₂, SameFrame h r e)
    (hentry : ∀ e ∈ E₂, ∃ r ∈ R₂, r.src = e.src ∧ r.no = e.no) : Correspond h R₁ E₁ ∧ Correspond h R₂ E₂ := by
  obtain ⟨hrn, hen, hto, hfrom⟩ := hc
  -- an entry of the second part has its own row there
  have hentry' : ∀ e ∈ E₂, ∃ r ∈ R₂, SameFrame h r e := fun e he => by
    obtain ⟨r, hr, _, hno⟩ := hentry e he
    obtain ⟨r₀, hr₀, hsame⟩ := hfrom e (List.mem_append_right _ he)
    have heq := List.inj_on_of_nodup_map hrn hr₀ (List.mem_append_right R₁ hr) (hsame.num_eq.trans hno.symm)
    exact ⟨r, hr, heq ▸ hsame⟩
  rw [List.map_append, List.nodup_append] at hrn hen
  refine ⟨⟨hrn.1, hen.1, fun r hr => ?_, fun e he => ?_⟩, ⟨hrn.2.1, hen.2.1, hrow, hentry'⟩⟩
  · obtain ⟨e, he, hsame⟩ := hto r (List.mem_append_left _ hr)
    rcases List.mem_append.1 he with he | he
    · exact ⟨e, he, hsame⟩
    · obtain ⟨r', hr', hsame'⟩ := hentry' e he
      exact absurd (hsame.num_eq.trans hsame'.num_eq.symm)
        (hrn.2.2 _ (List.mem_map_of_mem hr) _ (List.mem_map_of_mem hr'))
  · obtain ⟨r, hr, hsame⟩ := hfrom e (List.mem_append_left _ he)
    rcases List.mem_append.1 hr with hr | hr
    · exact ⟨r, hr, hsame⟩
    · obtain ⟨e', he', hsame'⟩ := hrow r hr
      exact absurd (hsame.num_eq.symm.trans hsame'.num_eq)
        (hen.2.2 _ (List.mem_map_of_mem he) _ (List.mem_map_of_mem he'))

/-- The lookup of a row's number finds the row's own entry. -/
theorem find {p : Pcap} (hc : Correspond h p.md.vec p.vecDump) (hfile : p.vecDumpFile = []) {r : Row}
    (hr : r ∈ p.md.vec) : ∃ e, p.find r.no = some e ∧ SameFrame h r e := by
  obtain ⟨e, he, hsame⟩ := hc.toEntry r hr
  have hsome : (p.find r.no).isSome = true :=
    (Pcap.isSome_find_iff hfile).2 ⟨e, he, congrArg Int.ofNat hsame.num_eq.symm⟩
  obtain ⟨e', hf⟩ := Option.isSome_iff_exists.1 hsome
  have hmem : e' ∈ p.vecDump := Pcap.mem_vecDump_of_find hfile hf
  have hno : e'.no = r.no := Int.ofNat.inj (Pcap.mem_of_find hf).2
  rw [List.inj_on_of_nodup_map hc.entriesNodup hmem he (hno.trans hsame.num_eq)] at hf
  exact ⟨e, hf, hsame⟩

end Correspond

/-! ## Rows ahead of their entries -/

/-- Every queued row is followed by its entry, in the queue or still with its worker. -/
def Followed (h : Host) (held : List Entry) : List Msg → Prop
  | [] => True
  | m :: q => (∀ r, m = .updateMd r → ∃ e, SameFrame h r e ∧ (.dumpPushBack e ∈ q ∨ e ∈ held)) ∧ Followed h held q

theorem Followed.snoc {held held' : List Entry} {q : List Msg} {m : Msg} (hf : Followed h held q)
    (hheld : ∀ e ∈ held, e ∈ held' ∨ m = .dumpPushBack e)
    (hm : ∀ r, m = .updateMd r → ∃ e ∈ held', SameFrame h r e) : Followed h held' (q ++ [m]) := by
  induction q with
  | nil =>
    refine ⟨fun r hr => ?_, trivial⟩
    obtain ⟨e, he, hsame⟩ := hm r hr
    exact ⟨e, hsame, .inr he⟩
  | cons m' q ih =>
    refine ⟨fun r hr => ?_, ih hf.2⟩
    obtain ⟨e, hsame, he | he⟩ := hf.1 r hr
    · exact ⟨e, hsame, .inl (List.mem_append_left _ he)⟩
    · rcases hheld e he with he | he
      · exact ⟨e, hsame, .inr he⟩
      · exact ⟨e, hsame, .inl (List.mem_append_right _ (by rw [he]; exact List.mem_singleton_self _))⟩

theorem Followed.mono {held held' : List Entry} {q : List Msg} (hf : Followed h held q) (hsub : held ⊆ held') :
    Followed h held' q := by
  induction q with
  | nil => trivial
  | cons m q ih =>
    refine ⟨fun r hr => ?_, ih hf.2⟩
    obtain ⟨e, hsame, he⟩ := hf.1 r hr
    exact ⟨e, hsame, he.imp_right fun he => hsub he⟩

theorem Followed.mem {held : List Entry} {q : List Msg} (hf : Followed h held q) {r : Row} (hr : .updateMd r ∈ q) :
    ∃ e, SameFrame h r e ∧ (.dumpPushBack e ∈ q ∨ e ∈ held) := by
  induction q with
  | nil => exact absurd hr List.not_mem_nil
  | cons m q ih =>
    rcases List.mem_cons.1 hr with hr | hr
    · obtain ⟨e, hsame, he⟩ := hf.1 r hr.symm
      exact ⟨e, hsame, he.imp_left (List.mem_cons_of_mem m)⟩
    · obtain ⟨e, hsame, he⟩ := ih hf.2 hr
      exact ⟨e, hsame, he.imp_left (List.mem_cons_of_mem m)⟩

theorem Sys.mem_pendRows {r : Row} :
    r ∈ s.pendRows ↔ .updateMd r ∈ s.queue ∨ ∃ wk ∈ s.workers, r ∈ wk.rows := by
  have hq : (∃ m ∈ s.queue, m.row? = some r) ↔ .updateMd r ∈ s.queue := by
    constructor
    · rintro ⟨m, hm, hr⟩
      cases m <;> cases hr
      exact hm
    · exact fun hm => ⟨_, hm, rfl⟩
  simp only [Sys.pendRows, List.mem_append, List.mem_filterMap, List.mem_flatMap, hq]

theorem Sys.mem_pendEntries {e : Entry} :
    e ∈ s.pendEntries ↔ .dumpPushBack e ∈ s.queue ∨ e ∈ s.workers.flatMap Worker.entries := by
  have hq : (∃ m ∈ s.queue, m.entry? = some e) ↔ .dumpPushBack e ∈ s.queue := by
    constructor
    · rintro ⟨m, hm, hr⟩
      cases m <;> cases hr
      exact hm
    · exact fun hm => ⟨_, hm, rfl⟩
  simp only [Sys.pendEntries, List.mem_append, List.mem_filterMap, hq]

/-- A worker in its callback holds a row and an entry of one frame, and queued rows are followed. -/
structure Sys.TransitInv (h : Host) (s : Sys) : Prop where
  callback : ∀ (w : Nat) wk pkt dump, s.workers[w]? = some wk → wk.phase = .handling pkt dump → SameFrame h pkt dump
  followed : Followed h (s.workers.flatMap Worker.entries) s.queue

theorem Sys.TransitInv.init : Sys.init.TransitInv h where
  callback _ _ _ _ hw := by cases hw
  followed := trivial

/-- The entry of a row on its way is on its way. -/
theorem Sys.TransitInv.ahead (hi : s.TransitInv h) {r : Row} (hr : r ∈ s.pendRows) :
    ∃ e ∈ s.pendEntries, SameFrame h r e := by
  rcases Sys.mem_pendRows.1 hr with hr | ⟨wk, hwk, hr⟩
  · obtain ⟨e, hsame, he⟩ := hi.followed.mem hr
    exact ⟨e, Sys.mem_pendEntries.2 he, hsame⟩
  · obtain ⟨w, hw⟩ := List.mem_iff_getElem?.1 hwk
    unfold Worker.rows at hr
    split at hr
    · rename_i pkt dump hph
      cases List.mem_singleton.1 hr
      refine ⟨dump, Sys.mem_pendEntries.2 (.inr (List.mem_flatMap.2 ⟨wk, hwk, ?_⟩)), hi.callback w wk _ dump hw hph⟩
      rw [Worker.entries, hph]
      exact List.mem_singleton_self _
    · exact absurd hr List.not_mem_nil

theorem Worker.Quiet.handling {w : Nat} {wk wk' : Worker} {b : WkAct} (hq : Worker.Quiet h w wk b wk') {pkt : Row}
    {dump : Entry} (hp : wk'.phase = .handling pkt dump) : wk.phase = .handling pkt dump ∨ SameFrame h pkt dump := by
  cases hq with
  | openLive ok hph => cases ok <;> cases hp
  | compile ok hph => cases ok <;> cases hp
  | setfilter ok hph => cases ok <;> cases hp
  | accept f pkt hph hl ha =>
    cases hp
    exact .inr (sameFrame_pair ha)
  | _ => cases hp

theorem Worker.Post.not_handling {w : Nat} {wk wk' : Worker} {m : Msg} (hp : Worker.Post w wk m wk') {pkt : Row}
    {dump : Entry} : wk'.phase ≠ .handling pkt dump := by
  cases hp <;> nofun

/-- A worker that posts a row keeps its entry. -/
theorem Worker.Post.row {w : Nat} {wk wk' : Worker} {r : Row} (hp : Worker.Post w wk (.updateMd r) wk') :
    ∃ dump, wk.phase = .handling r dump ∧ dump ∈ wk'.entries := by
  cases hp with
  | handling pkt dump hph => exact ⟨dump, hph, List.mem_singleton_self _⟩

theorem Worker.unblock_handling {wk : Worker} {pkt : Row} {dump : Entry}
    (hp : wk.unblock.phase = .handling pkt dump) : wk.phase = .handling pkt dump := by
  rcases wk.unblock_cases with ⟨_, he⟩ | he
  · rw [he] at hp
    cases hp
  · rwa [he] at hp

theorem Sys.TransitInv.step (hi : s.TransitInv h) (hs : Sys.step h s a = some s') : s'.TransitInv h := by
  cases Sys.step_move hs with
  | still _ hc =>
    refine ⟨?_, ?_⟩
    · rw [hc.workers]
      exact hi.callback
    · rw [hc.workers, hc.queue]
      exact hi.followed
  | start nicName ft hn =>
    rw [s.createTh_of_name ft hn]
    refine ⟨fun w wk pkt dump hw hph => ?_, ?_⟩
    · rw [List.getElem?_append] at hw
      split at hw
      · exact hi.callback w wk pkt dump hw hph
      · cases List.mem_singleton.1 (List.mem_of_getElem? hw)
        cases hph
    · simpa [Worker.entries] using hi.followed
  | stop v hv =>
    rw [Sys.stopTh_of_handle hv]
    refine ⟨fun w wk pkt dump hw hph => ?_, ?_⟩
    · obtain ⟨wk₀, hw₀, ⟨_, rfl⟩ | ⟨_, rfl⟩⟩ := Lists.getElem?_modify_eq_some hw
      · exact hi.callback w wk₀ pkt dump hw₀ hph
      · exact hi.callback w wk pkt dump hw₀ hph
    · have hbrk (wk : Worker) : Worker.entries { wk with brk := true } = wk.entries := rfl
      simp only [Lists.flatMap_modify hbrk]
      exact hi.followed
  | call m q hq =>
    have hf := hi.followed
    rw [hq] at hf
    cases m with
    | clearWkPp v =>
      refine ⟨fun w wk pkt dump hw hph => ?_, ?_⟩
      · obtain ⟨wk₀, hw₀, ⟨_, rfl⟩ | ⟨_, rfl⟩⟩ := Lists.getElem?_modify_eq_some hw
        · exact hi.callback w wk₀ pkt dump hw₀ (Worker.unblock_handling hph)
        · exact hi.callback w wk pkt dump hw₀ hph
      · simp only [Sys.call, Lists.flatMap_modify Worker.unblock_entries]
        exact hf.2
    | _ => exact ⟨hi.callback, hf.2⟩
  | @quiet v b wk wk' hv hq =>
    refine ⟨fun w wk₀ pkt dump hw hph => ?_, hi.followed.mono fun e he => ?_⟩
    · rcases Lists.getElem?_set_eq_some hv hw with ⟨rfl, rfl⟩ | ⟨_, hw⟩
      · exact (hq.handling hph).elim (hi.callback v wk pkt dump hv) id
      · exact hi.callback w wk₀ pkt dump hw hph
    · obtain ⟨r, h1, h2⟩ := Lists.flatMap_set_perm hv Worker.entries
      rw [(h2 wk').mem_iff, hq.flow.2, ← List.append_assoc]
      exact List.mem_append_left _ (h1.mem_iff.1 he)
  | @post v m wk wk' hv hp =>
    obtain ⟨r, h1, h2⟩ := Lists.flatMap_set_perm hv Worker.entries
    refine ⟨fun w wk₀ pkt dump hw hph => ?_, hi.followed.snoc (fun e he => ?_) fun pkt hm => ?_⟩
    · rcases Lists.getElem?_set_eq_some hv hw with ⟨rfl, rfl⟩ | ⟨_, hw⟩
      · exact absurd hph hp.not_handling
      · exact hi.callback w wk₀ pkt dump hw hph
    · rw [h1.mem_iff, ← hp.flow.2, List.mem_append, List.mem_append, Option.mem_toList] at he
      rw [(h2 wk').mem_iff, List.mem_append]
      rcases he with he | he | he
      · exact .inl (.inl he)
      · cases m <;> cases he
        exact .inr rfl
      · exact .inl (.inr he)
    · subst hm
      obtain ⟨dump, hph, hdump⟩ := hp.row
      exact ⟨dump, (h2 wk').mem_iff.2 (List.mem_append_right _ hdump), hi.callback v wk pkt dump hv hph⟩

/-! ## Over runs -/

/-- What a step takes is numbered consecutively, and each pair is of one frame. -/
theorem Sys.nums_taken (h : Host) (s : Sys) (a : Act) :
    ∃ n, (s.taken h a).map (fun p => p.1.no) = List.range' n (s.taken h a).length := by
  cases a with
  | worker w b =>
    simp only [Sys.taken]
    split
    · cases b <;> first | exact ⟨_, nums_stored⟩ | exact ⟨0, rfl⟩
    · exact ⟨0, rfl⟩
  | pcapFileRead file =>
    cases file with
    | none => exact ⟨0, rfl⟩
    | some frames => exact ⟨_, nums_stored⟩
  | _ => exact ⟨0, rfl⟩

theorem Sys.sameFrame_taken {p : Row × Entry} (hp : p ∈ s.taken h a) : SameFrame h p.1 p.2 := by
  obtain ⟨f, _, src, k, pkt, ha, rfl⟩ := Sys.mem_taken hp
  exact sameFrame_pair ha

/-! ## The counters -/

/-- Each row of a worker has a number its counter has passed, and each row of a file read is of one that is over. -/
structure Sys.Numbered (s : Sys) : Prop where
  live : ∀ r ∈ s.rows, ∀ w, r.src = .live w → ∃ wk, s.workers[w]? = some wk ∧ r.no < wk.num
  file : ∀ r ∈ s.rows, ∀ k, r.src = .file k → k < s.reads

/-- No step takes a counter back. -/
theorem Sys.Moved.num_le {w : Nat} {wk wk' : Worker} (hm : Sys.Moved h s w wk a wk') : wk.num ≤ wk'.num := by
  cases hm with
  | unblocked => rcases wk.unblock_cases with ⟨_, he⟩ | he <;> simp [he]
  | quiet hq => cases hq <;> simp
  | post hp => cases hp <;> exact Nat.le_refl _
  | _ => exact Nat.le_refl _

/-- What a step takes is numbered by its source's counter, which then passes it. -/
theorem Sys.taken_numbered (hs : Sys.step h s a = some s') {p : Row × Entry} (hp : p ∈ s.taken h a) :
    (∃ w wk wk', p.1.src = .live w ∧ s.workers[w]? = some wk ∧ s'.workers[w]? = some wk' ∧ wk.num ≤ p.1.no ∧
      p.1.no < wk'.num) ∨ p.1.src = .file s.reads ∧ s'.reads = s.reads + 1 := by
  cases a with
  | worker w b =>
    obtain ⟨wk, wk', ms, hw, hst, rfl⟩ := Sys.work_step hs
    simp only [Sys.taken, hw] at hp
    have hnum := Worker.step_num hst
    cases b with
    | packet f =>
      refine .inl ⟨w, wk, wk', (sameFrame_of_mem_stored hp).2.1, hw, Lists.getElem?_set_of_some hw wk', ?_⟩
      have hno : p.1.no ∈ List.range' wk.num (wk.taken h w (.packet f)).length :=
        nums_stored ▸ List.mem_map_of_mem hp
      rw [List.mem_range'_1] at hno
      omega
    | _ => exact absurd hp List.not_mem_nil
  | pcapFileRead file =>
    cases file with
    | none => exact absurd hp List.not_mem_nil
    | some frames =>
      have hread : s.pcapFileRead h (some frames) = some s' := hs
      obtain ⟨_, _, _, _, hreads⟩ := Sys.pcapFileRead_stored hread
      rw [if_neg (List.ne_nil_of_mem hp)] at hreads
      exact .inr ⟨(sameFrame_of_mem_stored hp).2.1, hreads.1⟩
  | _ => exact absurd hp List.not_mem_nil

theorem Sys.reads_le (hs : Sys.step h s a = some s') : s.reads ≤ s'.reads := by
  cases a with
  | createTh nicName ft => cases hs; unfold Sys.createTh; split <;> exact Nat.le_refl _
  | stopTh => cases hs; unfold Sys.stopTh; split <;> exact Nat.le_refl _
  | resetMd => cases hs; unfold Sys.resetMd; split <;> exact Nat.le_refl _
  | pcapFileRead file =>
    obtain ⟨_, _, _, _, hreads⟩ := Sys.pcapFileRead_stored hs
    split at hreads <;> omega
  | sort col sorted =>
    obtain ⟨md, _, rfl⟩ := Sys.sort_cases hs
    exact Nat.le_refl _
  | deliver =>
    obtain ⟨m, q, _, rfl⟩ := Sys.deliver_cases hs
    cases m <;> exact Nat.le_refl _
  | worker w b =>
    obtain ⟨wk, wk', ms, _, _, rfl⟩ := Sys.work_step hs
    exact Nat.le_refl _

theorem Sys.Numbered.step (hi : s.Numbered) (hs : Sys.step h s a = some s') : s'.Numbered := by
  have hrows := (Sys.mem_step hs).1
  refine ⟨fun r hr w hw => ?_, fun r hr k hk => ?_⟩
  · rcases hrows r hr with hr | hr
    · obtain ⟨wk, hwk, hlt⟩ := hi.live r hr w hw
      obtain ⟨wk', hwk', hm⟩ := Sys.step_moved hwk hs
      exact ⟨wk', hwk', hlt.trans_le hm.num_le⟩
    · obtain ⟨p, hp, rfl⟩ := List.mem_map.1 hr
      rcases Sys.taken_numbered hs hp with ⟨v, wk, wk', hv, _, hwk', _, hlt⟩ | ⟨hf, _⟩
      · rw [hv] at hw
        cases hw
        exact ⟨wk', hwk', hlt⟩
      · rw [hf] at hw
        cases hw
  · rcases hrows r hr with hr | hr
    · exact (hi.file r hr k hk).trans_le (Sys.reads_le hs)
    · obtain ⟨p, hp, rfl⟩ := List.mem_map.1 hr
      rcases Sys.taken_numbered hs hp with ⟨v, wk, wk', hv, _⟩ | ⟨hf, hreads⟩
      · rw [hv] at hk
        cases hk
      · rw [hf] at hk
        cases hk
        omega

/-- **The counters keep one source's numbers apart.** -/
theorem Sys.Numbered.fresh (hi : s.Numbered) (hc : a.apart h s) (hs : Sys.step h s a = some s') {p : Row × Entry}
    (hp : p ∈ s.taken h a) : p.1.no ∉ s.rows.map Row.no := by
  intro hmem
  obtain ⟨r, hr, hno⟩ := List.mem_map.1 hmem
  have hsrc := (hc.1 p hp).1 r hr
  rcases Sys.taken_numbered hs hp with ⟨w, wk, _, hw, hwk, _, hle, _⟩ | ⟨hf, _⟩
  · obtain ⟨wk₀, hwk₀, hlt⟩ := hi.live r hr w (hsrc.trans hw)
    cases hwk₀.symm.trans hwk
    omega
  · exact absurd (hi.file r hr _ (hsrc.trans hf)) (Nat.lt_irrefl _)

/-! ## Runs that keep the sources apart -/

/-- What holds along such a run. -/
structure Sys.MatchInv (h : Host) (s : Sys) : Prop where
  correspond : Correspond h s.rows s.entries
  transit : s.TransitInv h
  numbered : s.Numbered

theorem Sys.MatchInv.init : Sys.init.MatchInv h where
  correspond := Correspond.nil
  transit := .init
  numbered := ⟨fun _ hr => absurd hr List.not_mem_nil, fun _ hr => absurd hr List.not_mem_nil⟩

/-- **A step that keeps the sources apart** keeps the correspondence over what is stored and on its way. -/
theorem Sys.MatchInv.step (hi : s.MatchInv h) (hc : a.apart h s) (hs : Sys.step h s a = some s') : s'.MatchInv h := by
  refine ⟨?_, hi.transit.step hs, hi.numbered.step hs⟩
  obtain ⟨hclear, hkeep⟩ := Sys.step_flow hs
  cases ha : a.clears s with
  | true =>
    obtain ⟨hr, he⟩ := hclear ha
    rw [hr, he]
    exact (hi.correspond.split (fun r hm => hi.transit.ahead hm) (hc.2 ha)).2
  | false =>
    obtain ⟨hr, he⟩ := hkeep ha
    obtain ⟨n, hn⟩ := s.nums_taken h a
    have hnew : ((s.taken h a).map fun p => p.1.no).Nodup := by rw [hn]; exact List.nodup_range'
    have hjoin := hi.correspond.append (fun p hp => Sys.sameFrame_taken hp) hnew fun p hp => hi.numbered.fresh hc hs hp
    exact hjoin.perm hr.symm he.symm

theorem Sys.MatchInv.run {acts : List Act} (hr : Lts.run (Sys.step h) Sys.init acts = some s)
    (hc : Lts.Along (Sys.step h) (fun s a => a.apart h s) Sys.init acts) : s.MatchInv h :=
  Lts.run_invariant (fun _ _ _ hi hc hs => Sys.MatchInv.step hi hc hs) hc .init hr

/-- What is stored corresponds in a matched state. -/
theorem Sys.MatchInv.stored (hi : s.MatchInv h) (hm : s.Matched) : Correspond h s.pcap.md.vec s.pcap.vecDump :=
  (hi.correspond.split (fun _ hr => hi.transit.ahead hr) hm).1

theorem Sys.MatchInv.rowsMatch (hi : s.MatchInv h) (hm : s.Matched) (hfile : s.pcap.vecDumpFile = []) :
    s.RowsMatch h := by
  have hstored := hi.stored hm
  exact ⟨hstored.rowsNodup, hstored.entriesNodup, hstored.perm_nums, fun r hr => hstored.find hfile hr⟩

/-- **Rows match their bytes** in every run that keeps the sources apart and clears the lists only in
matched states: in each matched state reached, rows and entries correspond one to one by number, and the
lookup of a row's number finds the frame the row was built from. -/
theorem rows_match {acts : List Act} (hr : Lts.run (Sys.step h) Sys.init acts = some s)
    (hc : Lts.Along (Sys.step h) (fun s a => a.apart h s) Sys.init acts) (hm : s.Matched) : s.RowsMatch h :=
  (Sys.MatchInv.run hr hc).rowsMatch hm (Sys.vecDumpFile_run rfl hr)

/-- Both rows of the second capture, which numbers from 0 again, find their entries. -/
theorem rows_match_two : ∃ s, Lts.run (Sys.step .little) Sys.init twoInTurn = some s ∧
    s.pcap.md.vec.map Row.no = [0, 1] ∧ s.pcap.md.vec.map Row.src = [.live 1, .live 1] ∧ s.RowsMatch .little := by
  obtain ⟨s, hs, hnos, hsrc, hm⟩ : ∃ s, Lts.run (Sys.step .little) Sys.init twoInTurn = some s ∧
      s.pcap.md.vec.map Row.no = [0, 1] ∧ s.pcap.md.vec.map Row.src = [.live 1, .live 1] ∧ s.Matched :=
    Lts.run_reaches (by decide +kernel)
  exact ⟨s, hs, hnos, hsrc, rows_match hs (by decide +kernel) hm⟩

/-! ### Taking turns -/

/-- A capture is started, or a file read, only when no worker will accept anything any more and nothing is
on its way, the file moreover into empty lists; and `reset_md` finds the lists matched. -/
def Act.inTurn (h : Host) (s : Sys) : Act → Prop
  | .createTh nicName _ => nicName.isEmpty = false → s.NonePending ∧ ∀ wk ∈ s.workers, wk.Spent
  | .resetMd => s.pcap.wkLife = false → s.Matched
  | .pcapFileRead file => s.taken h (.pcapFileRead file) ≠ [] →
      s.rows = [] ∧ s.entries = [] ∧ ∀ wk ∈ s.workers, wk.Spent
  | _ => True

/-- At most one worker may accept anything, and then all there is is its own. -/
structure Sys.TurnInv (s : Sys) : Prop where
  sole : ∀ (v w : Nat) (wk wk' : Worker), s.workers[v]? = some wk → s.workers[w]? = some wk' → ¬ wk.Spent → ¬ wk'.Spent → v = w
  own : ∀ (w : Nat) (wk : Worker), s.workers[w]? = some wk → ¬ wk.Spent → s.OnlyOf (.live w)

theorem Sys.TurnInv.init : Sys.init.TurnInv where
  sole _ _ _ _ hv := by cases hv
  own _ _ hw := by cases hw

/-- A worker that accepts a packet is not spent. -/
theorem Sys.not_spent_of_taken {w : Nat} {b : WkAct} (hs : Sys.step h s (.worker w b) = some s') {p : Row × Entry}
    (hp : p ∈ s.taken h (.worker w b)) :
    ∃ wk, s.workers[w]? = some wk ∧ ¬ wk.Spent := by
  obtain ⟨wk, wk', ms, hw, hst, rfl⟩ := Sys.work_step hs
  simp only [Sys.taken, hw] at hp
  refine ⟨wk, hw, fun hd => ?_⟩
  rw [hd.taken hst] at hp
  exact absurd hp List.not_mem_nil

theorem Sys.TurnInv.apart (hi : s.TurnInv) (hc : a.inTurn h s) (hs : Sys.step h s a = some s') : a.apart h s := by
  refine ⟨fun p hp => ?_, fun hclear => ?_⟩
  · cases a with
    | worker w b =>
      obtain ⟨wk, hw, hd⟩ := Sys.not_spent_of_taken hs hp
      rw [(Sys.src_taken hp).1]
      exact hi.own w wk hw hd
    | pcapFileRead file =>
      obtain ⟨hr, he, _⟩ := hc (List.ne_nil_of_mem hp)
      exact .of_nil hr he
    | _ => exact absurd hp List.not_mem_nil
  · cases a with
    | createTh nicName ft =>
      intro e he
      rw [(hc (by simpa [Act.clears] using hclear)).1.2] at he
      exact absurd he List.not_mem_nil
    | resetMd => exact hc (by simpa [Act.clears] using hclear)
    | _ => cases hclear

theorem Sys.TurnInv.step (hi : s.TurnInv) (hc : a.inTurn h s) (hs : Sys.step h s a = some s') : s'.TurnInv := by
  -- a worker that is not spent was not spent before, or has just been started and everything else is over
  have hold {w : Nat} {wk' : Worker} (hw' : s'.workers[w]? = some wk') (hd : ¬ wk'.Spent) :
      (∃ wk, s.workers[w]? = some wk ∧ ¬ wk.Spent) ∨
        w = s.workers.length ∧ (∀ wk ∈ s.workers, wk.Spent) ∧ s'.rows = [] ∧ s'.entries = [] := by
    rcases Sys.step_worker hs hw' with ⟨wk, hw, hm⟩ | ⟨hlen, nicName, ft, hn, rfl, _⟩
    · exact .inl ⟨wk, hw, fun hd' => hd (hm.stays_spent hd')⟩
    · obtain ⟨hnone, hall⟩ := hc hn
      obtain ⟨hr, he⟩ := (Sys.step_flow hs).1 (by simp [Act.clears, hn])
      exact .inr ⟨hlen, hall, hr.trans hnone.1, he.trans hnone.2⟩
  refine ⟨fun v w wk wk' hv hw hdv hdw => ?_, fun w wk' hw hd => ?_⟩
  · rcases hold hv hdv with ⟨wk₁, hv₁, hd₁⟩ | ⟨hv, hall, _⟩ <;> rcases hold hw hdw with ⟨wk₂, hw₂, hd₂⟩ | ⟨hw, hall', _⟩
    · exact hi.sole v w wk₁ wk₂ hv₁ hw₂ hd₁ hd₂
    · exact absurd (hall' wk₁ (List.mem_of_getElem? hv₁)) hd₁
    · exact absurd (hall wk₂ (List.mem_of_getElem? hw₂)) hd₂
    · rw [hv, hw]
  · rcases hold hw hd with ⟨wk, hw, hd⟩ | ⟨_, _, hr, he⟩
    · -- whatever the step takes is of this worker
      refine (hi.own w wk hw hd).step hs fun p hp => ?_
      cases a with
      | worker v b =>
        obtain ⟨wk₁, hv, hd₁⟩ := Sys.not_spent_of_taken hs hp
        rw [← hi.sole v w wk₁ wk hv hw hd₁ hd]
        exact Sys.src_taken hp
      | pcapFileRead file => exact absurd ((hc (List.ne_nil_of_mem hp)).2.2 wk (List.mem_of_getElem? hw)) hd
      | _ => exact absurd hp List.not_mem_nil
    · exact .of_nil hr he

/-- Captures and file reads that take turns keep the sources apart, so rows match their bytes. -/
theorem rows_match_in_turn {acts : List Act} (hr : Lts.run (Sys.step h) Sys.init acts = some s)
    (hc : Lts.Along (Sys.step h) (fun s a => a.inTurn h s) Sys.init acts) (hm : s.Matched) : s.RowsMatch h := by
  have hinv : s.TurnInv ∧ s.MatchInv h :=
    Lts.run_invariant (I := fun s => s.TurnInv ∧ s.MatchInv h)
      (fun _ _ _ hi hc hs => ⟨hi.1.step hc hs, hi.2.step (hi.1.apart hc hs) hs⟩) hc
      ⟨.init, .init⟩ hr
  exact hinv.2.rowsMatch hm (Sys.vecDumpFile_run rfl hr)

/-- Back during a capture, which `reset_md` refuses, and then a file is opened. -/
def openFileDuringCapture : List UiAct :=
  [.openLive "eth0", .start "eth0" "", .worker 0 (.openLive true), .worker 0 .post, .worker 0 .post,
    .worker 0 .enterLoop, .worker 0 (.packet (udpFrame 42)), .worker 0 .post, .worker 0 .post, .deliver, .deliver,
    .deliver, .deliver, .back, .openFile "" (some [udpFrame 42])]

/-- Two rows carry the number 0. -/
theorem rows_share_number : ∃ u, Lts.run (Ui.step .little) Ui.init openFileDuringCapture = some u ∧
    u.sys.Matched ∧ ¬ u.sys.RowsMatch .little := by
  obtain ⟨u, hu, hm, hnum⟩ : ∃ u, Lts.run (Ui.step .little) Ui.init openFileDuringCapture = some u ∧
      u.sys.Matched ∧ ¬ (u.sys.pcap.md.vec.map Row.no).Nodup := Lts.run_reaches (by decide +kernel)
  exact ⟨u, hu, hm, fun hrm => hnum hrm.rowsNodup⟩

end MiniWireshark

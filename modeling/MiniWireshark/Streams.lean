import MiniWireshark.Lib.Comparator
import MiniWireshark.Live

/-!
# What one capture sends (`Pcap.cpp:219-257`, `:432-436`, `:750-753`)

Each worker is a stream: for every packet its callback accepts it queues `update_md`, then
`dump_push_back`, and the event loop runs queued calls in order. Whatever the other workers, the
toolbar and the sorts do in between, what is still on the way is a suffix of that stream, and what
`vec_dump` and `md` hold of it joins on without a gap.

| here | meaning |
| --- | --- |
| `Act.framesOf w`     | the frames handed to the callback of worker `w` |
| `Sys.numOf w`        | the packet counter of worker `w` |
| `Msg.calls p`        | the two calls queued for the packet `p` |
| `Sys.onWay w`        | the calls of worker `w` that are queued, then those its callback still owes |
| `Sys.entriesOf w`, `Sys.rowsOf w` | what is stored of worker `w`, then what is on its way |
| `streamOf h w acts`  | everything the callback of worker `w` accepts in a run, numbered |

Its numbers increase along the stream, so a sort by number undoes whatever sorts there were.
-/

namespace MiniWireshark

open scoped List

variable {h : Host} {s s' : Sys} {a : Act} {w : Nat} {ps : List (Row × Entry)}

def Act.framesOf (w : Nat) : Act → List Frame
  | .worker v (.packet f) => if v = w then [f] else []
  | _ => []

/-- The calls that carry a packet to the lists. -/
def Msg.calls (p : Row × Entry) : List Msg := [.updateMd p.1, .dumpPushBack p.2]

/-- The call carries a packet of worker `w`. -/
def Msg.isOf (w : Nat) : Msg → Bool
  | .updateMd row => row.src = .live w
  | .dumpPushBack e => e.src = .live w
  | _ => false

/-- The calls the callback has still to queue. -/
def Worker.owed (wk : Worker) : List Msg :=
  match wk.phase with
  | .handling pkt dump => [.updateMd pkt, .dumpPushBack dump]
  | .mdPosted dump => [.dumpPushBack dump]
  | _ => []

namespace Sys

def numOf (s : Sys) (w : Nat) : Nat := (s.workers[w]?).elim 0 Worker.num

def owedBy (s : Sys) (w : Nat) : List Msg := (s.workers[w]?).elim [] Worker.owed

def onWay (s : Sys) (w : Nat) : List Msg := s.queue.filter (Msg.isOf w) ++ s.owedBy w

def rowsOf (s : Sys) (w : Nat) : List Row :=
  s.pcap.md.vec.filter (fun r => r.src = .live w) ++ (s.onWay w).filterMap Msg.row?

def entriesOf (s : Sys) (w : Nat) : List Entry :=
  s.pcap.vecDump.filter (fun e => e.src = .live w) ++ (s.onWay w).filterMap Msg.entry?

/-- What the callback of worker `w` accepts in a step. -/
def takenBy (h : Host) (s : Sys) (w : Nat) (a : Act) : List (Row × Entry) :=
  stored h (.live w) (s.numOf w) (a.framesOf w)

/-- A callback owes only packets of its own worker. -/
def Owes (s : Sys) : Prop := ∀ w, ∀ m ∈ s.owedBy w, m.isOf w = true

end Sys

/-- Everything the callback of worker `w` accepts in a run. -/
def streamOf (h : Host) (w : Nat) (acts : List Act) : List (Row × Entry) :=
  stored h (.live w) 0 (acts.flatMap (Act.framesOf w))

/-! ## One worker -/

/-- What a worker queues and still owes is what it owed and what it accepts. -/
theorem Worker.Quiet.owed {wk wk' : Worker} {b : WkAct} (hq : Worker.Quiet h w wk b wk') :
    wk'.owed = wk.owed ++ (wk.taken h w b).flatMap Msg.calls := by
  cases hq with
  | openLive ok hp => cases ok <;> simp [Worker.owed, Worker.taken, hp]
  | compile ok hp => cases ok <;> simp [Worker.owed, Worker.taken, hp]
  | setfilter ok hp => cases ok <;> simp [Worker.owed, Worker.taken, hp]
  | read hp hb => simp [Worker.owed, Worker.taken, hp]
  | wake hp => simp [Worker.owed, Worker.taken, hp]
  | reject f hp hl ha => rcases hp with hp | hp <;> simp [Worker.owed, Worker.taken, stored_cons_reject ha, hp]
  | accept f pkt hp hl ha =>
    rcases hp with hp | hp <;> simp [Worker.owed, Worker.taken, stored_cons_accept ha, hp, Msg.calls]
  | enterLoop hp => simp [Worker.owed, Worker.taken, hp]
  | loopBreak hp hb => simp [Worker.owed, Worker.taken, hp]
  | loopError hp => rcases hp with hp | hp <;> simp [Worker.owed, Worker.taken, hp]
  | close hp => simp [Worker.owed, Worker.taken, hp]

theorem Worker.Post.owed {wk wk' : Worker} {m : Msg} (hp : Worker.Post w wk m wk') :
    wk.owed = (if m.stores then [m] else []) ++ wk'.owed := by
  cases hp <;> rename_i hph <;> simp [Worker.owed, Msg.stores, hph]

theorem Worker.unblock_owed (wk : Worker) : wk.unblock.owed = wk.owed := by
  rcases wk.unblock_cases with ⟨hp, he⟩ | he
  · simp [he, Worker.owed, hp]
  · rw [he]

theorem Worker.unblock_num (wk : Worker) : wk.unblock.num = wk.num := by
  rcases wk.unblock_cases with ⟨_, he⟩ | he <;> rw [he]

theorem Msg.isOf_calls {src : Source} {n : Nat} {fs : List Frame} (hsrc : src = .live w) :
    ∀ m ∈ (stored h src n fs).flatMap Msg.calls, m.isOf w = true := by
  intro m hm
  obtain ⟨p, hp, hm⟩ := List.mem_flatMap.1 hm
  obtain ⟨_, hr, he⟩ := sameFrame_of_mem_stored hp
  rcases List.mem_cons.1 hm with rfl | hm
  · simp [Msg.isOf, hr, hsrc]
  · rw [List.mem_singleton.1 hm]
    simp [Msg.isOf, he, hsrc]

/-- **One action of a worker**: what it queues and still owes is what it owed and what it accepts. -/
theorem Worker.step_owed {v : Nat} {wk wk' : Worker} {b : WkAct} {ms : List Msg}
    (hs : wk.step h v b = some (wk', ms)) (hmine : ∀ m ∈ wk.owed, m.isOf v = true) :
    ms.filter (Msg.isOf v) ++ wk'.owed = wk.owed ++ (wk.taken h v b).flatMap Msg.calls ∧
      (∀ m ∈ wk'.owed, m.isOf v = true) ∧ ∀ m ∈ ms, m.stores = true → m.isOf v = true := by
  rcases Worker.step_cases hs with ⟨rfl, hq⟩ | ⟨rfl, m, rfl, hp⟩
  · refine ⟨hq.owed, ?_, fun m hm => absurd hm List.not_mem_nil⟩
    intro m hm
    rw [hq.owed] at hm
    rcases List.mem_append.1 hm with hm | hm
    · exact hmine m hm
    · cases b <;> first | exact Msg.isOf_calls rfl m hm | exact absurd hm List.not_mem_nil
  · rw [hp.owed] at hmine
    refine ⟨?_, fun m' hm' => hmine m' (List.mem_append_right _ hm'), ?_⟩
    · simp only [Worker.taken, List.flatMap_nil, List.append_nil, hp.owed]
      cases m <;> simp_all [Msg.stores, Msg.isOf]
    · intro m' hm' hst
      cases List.mem_singleton.1 hm'
      exact hmine m (List.mem_append_left _ (by simp [hst]))

/-! ## What a step does to a stream -/

/-- Calls that carry packets of one worker carry none of another. -/
theorem Msg.filter_isOf_ne {v w : Nat} (hvw : v ≠ w) {ms : List Msg}
    (hms : ∀ m ∈ ms, m.stores = true → m.isOf v = true) : ms.filter (Msg.isOf w) = [] := by
  rw [List.filter_eq_nil_iff]
  intro m hm hw
  have hv : m.isOf v = true := hms m hm (by cases m <;> first | rfl | cases hw)
  cases m <;> simp_all [Msg.isOf]

/-- The program: worker `v` acts, and each stream moves on by what its own callback accepts. -/
theorem Sys.Owes.work {v : Nat} {b : WkAct} (ho : s.Owes) (hs : s.work h v b = some s') :
    s'.Owes ∧ s'.pcap = s.pcap ∧ ∀ w,
      s'.onWay w = s.onWay w ++ (s.takenBy h w (.worker v b)).flatMap Msg.calls ∧
        s'.numOf w = s.numOf w + (s.takenBy h w (.worker v b)).length := by
  obtain ⟨wk, wk', ms, hv, hst, rfl⟩ := Sys.work_step hs
  have howed : s.owedBy v = wk.owed := by simp [Sys.owedBy, hv]
  obtain ⟨hflow, hmine, hposts⟩ := Worker.step_owed hst (howed ▸ ho v)
  have hself (q : List Msg) : Sys.owedBy { s with workers := s.workers.set v wk', queue := q } v = wk'.owed ∧
      Sys.numOf { s with workers := s.workers.set v wk', queue := q } v = wk'.num := by
    simp [Sys.owedBy, Sys.numOf, Lists.getElem?_set_of_some hv]
  have hother (q : List Msg) {w : Nat} (hvw : v ≠ w) :
      Sys.owedBy { s with workers := s.workers.set v wk', queue := q } w = s.owedBy w ∧
        Sys.numOf { s with workers := s.workers.set v wk', queue := q } w = s.numOf w := by
    simp [Sys.owedBy, Sys.numOf, List.getElem?_set_ne hvw]
  refine ⟨?_, rfl, ?_⟩
  · intro w m hm
    by_cases hvw : v = w
    · subst hvw
      exact hmine m ((hself _).1 ▸ hm)
    · exact ho w m ((hother _ hvw).1 ▸ hm)
  · intro w
    simp only [Sys.onWay, List.filter_append]
    by_cases hvw : v = w
    · subst hvw
      have htaken : s.takenBy h v (.worker v b) = wk.taken h v b := by
        cases b <;> simp [Worker.taken, Sys.takenBy, Act.framesOf, Sys.numOf, hv]
      rw [(hself _).1, (hself _).2, htaken, howed, List.append_assoc, hflow, Worker.step_num hst]
      simp [Sys.numOf, hv]
    · have htaken : s.takenBy h w (.worker v b) = [] := by
        cases b <;> simp [Sys.takenBy, Act.framesOf, hvw]
      rw [(hother _ hvw).1, (hother _ hvw).2, htaken, Msg.filter_isOf_ne hvw hposts]
      simp

/-- A step that is neither a delivery nor a worker's action leaves every stream where it is. -/
theorem Sys.onWay_still (hd : a ≠ .deliver) (hw : ∀ v b, a ≠ .worker v b) (hs : Sys.step h s a = some s') (w : Nat) :
    s'.onWay w = s.onWay w ∧ s'.owedBy w = s.owedBy w ∧ s'.numOf w = s.numOf w ∧ s.takenBy h w a = [] := by
  have htaken : s.takenBy h w a = [] := by
    cases a with
    | worker v b => exact absurd rfl (hw v b)
    | _ => rfl
  have hsuffices (hq : s'.queue = s.queue) (hwd : s'.owedBy w = s.owedBy w) (hn : s'.numOf w = s.numOf w) :
      s'.onWay w = s.onWay w ∧ s'.owedBy w = s.owedBy w ∧ s'.numOf w = s.numOf w ∧ s.takenBy h w a = [] :=
    ⟨by rw [Sys.onWay, Sys.onWay, hq, hwd], hwd, hn, htaken⟩
  cases Sys.step_move hs with
  | still _ hc => exact hsuffices hc.queue (by rw [Sys.owedBy, Sys.owedBy, hc.workers]) (by rw [Sys.numOf, Sys.numOf, hc.workers])
  | start nicName ft hn =>
    rw [s.createTh_of_name ft hn] at hsuffices ⊢
    exact hsuffices rfl (Lists.elim_concat rfl) (Lists.elim_concat rfl)
  | stop v hv =>
    rw [Sys.stopTh_of_handle hv] at hsuffices ⊢
    exact hsuffices rfl (Lists.elim_modify _ fun _ => rfl) (Lists.elim_modify _ fun _ => rfl)
  | call m q hq => exact absurd rfl hd
  | quiet v hv hq => exact absurd rfl (hw v _)
  | post v hv hp => exact absurd rfl (hw v _)

/-- Delivery takes the oldest call off its stream. -/
theorem Sys.call_onWay {m : Msg} {q : List Msg} (hq : s.queue = m :: q) (w : Nat) :
    s.onWay w = (if m.isOf w then [m] else []) ++ (s.call q m).onWay w ∧
      (s.call q m).owedBy w = s.owedBy w ∧ (s.call q m).numOf w = s.numOf w := by
  have howed : (s.call q m).owedBy w = s.owedBy w := by
    cases m <;> first | rfl | exact Lists.elim_modify _ Worker.unblock_owed
  have hnum : (s.call q m).numOf w = s.numOf w := by
    cases m <;> first | rfl | exact Lists.elim_modify _ Worker.unblock_num
  have hqueue : (s.call q m).queue = q := by cases m <;> rfl
  refine ⟨?_, howed, hnum⟩
  rw [Sys.onWay, Sys.onWay, howed, hqueue, hq, List.filter_cons]
  split <;> rfl

/-- The other steps: they clear the lists, or leave what they hold of the workers. -/
theorem Sys.stored_still (hd : a ≠ .deliver) (hw : ∀ v b, a ≠ .worker v b) (hs : Sys.step h s a = some s') (w : Nat) :
    (a.clears s = true → s'.pcap.md.vec = [] ∧ s'.pcap.vecDump = []) ∧
      (a.clears s = false →
        s'.pcap.md.vec.filter (fun r => r.src = .live w) ~ s.pcap.md.vec.filter (fun r => r.src = .live w) ∧
          s'.pcap.vecDump.filter (fun e => e.src = .live w) = s.pcap.vecDump.filter (fun e => e.src = .live w)) := by
  cases a with
  | createTh nicName ft =>
    cases hs
    cases hn : nicName.isEmpty <;> simp [Act.clears, Sys.createTh, hn]
  | stopTh =>
    cases hs
    obtain ⟨hmd, hvd, _⟩ := s.stopTh_stored
    simp [Act.clears, hmd, hvd]
  | resetMd =>
    cases hs
    cases hl : s.pcap.wkLife <;> simp [Act.clears, Sys.resetMd, hl]
  | pcapFileRead file =>
    obtain ⟨hmd, hvd, _⟩ := Sys.pcapFileRead_stored hs
    have hfile : ∀ p ∈ s.taken h (.pcapFileRead file), p.1.src ≠ .live w ∧ p.2.src ≠ .live w := by
      intro p hp
      cases file with
      | none => exact absurd hp List.not_mem_nil
      | some frames =>
        obtain ⟨_, hr, he⟩ := sameFrame_of_mem_stored hp
        rw [hr, he]
        simp
    refine ⟨fun hc => by simp [Act.clears] at hc, fun _ => ?_⟩
    have hrows : ((s.taken h (.pcapFileRead file)).map Prod.fst).filter (fun r => r.src = .live w) = [] := by
      simp only [List.filter_eq_nil_iff, List.mem_map, decide_eq_true_eq]
      rintro r ⟨p, hp, rfl⟩
      exact (hfile p hp).1
    have hentries : ((s.taken h (.pcapFileRead file)).map Prod.snd).filter (fun e => e.src = .live w) = [] := by
      simp only [List.filter_eq_nil_iff, List.mem_map, decide_eq_true_eq]
      rintro e ⟨p, hp, rfl⟩
      exact (hfile p hp).2
    rw [hmd, hvd, List.filter_append, List.filter_append, hrows, hentries, List.append_nil, List.append_nil]
    exact ⟨.refl _, rfl⟩
  | sort col sorted =>
    obtain ⟨md, hmd, rfl⟩ := Sys.sort_cases hs
    obtain ⟨hvec, hperm⟩ := Capture.sort_spec hmd
    refine ⟨fun hc => by simp [Act.clears] at hc, fun _ => ⟨?_, rfl⟩⟩
    simp only [hvec]
    exact hperm.filter _
  | deliver => exact absurd rfl hd
  | worker v b => exact absurd rfl (hw v b)

theorem Msg.rows_calls (ps : List (Row × Entry)) : (ps.flatMap Msg.calls).filterMap Msg.row? = ps.map Prod.fst := by
  induction ps with
  | nil => rfl
  | cons p ps ih => simp [Msg.calls, Msg.row?, List.filterMap_cons, ← ih]

theorem Msg.entries_calls (ps : List (Row × Entry)) :
    (ps.flatMap Msg.calls).filterMap Msg.entry? = ps.map Prod.snd := by
  induction ps with
  | nil => rfl
  | cons p ps ih => simp [Msg.calls, Msg.entry?, List.filterMap_cons, ← ih]

/-- A call carries a row of worker `w` iff the row is of worker `w`; the same for entries. -/
theorem Msg.filter_row (w : Nat) (m : Msg) :
    m.row?.toList.filter (fun r => r.src = .live w) = (if m.isOf w then [m] else []).filterMap Msg.row? := by
  cases m with
  | updateMd r => by_cases hr : r.src = .live w <;> simp [Msg.row?, Msg.isOf, hr]
  | dumpPushBack e => by_cases he : e.src = .live w <;> simp [Msg.row?, Msg.isOf, he]
  | _ => rfl

theorem Msg.filter_entry (w : Nat) (m : Msg) :
    m.entry?.toList.filter (fun e => e.src = .live w) = (if m.isOf w then [m] else []).filterMap Msg.entry? := by
  cases m with
  | updateMd r => by_cases hr : r.src = .live w <;> simp [Msg.entry?, Msg.isOf, hr]
  | dumpPushBack e => by_cases he : e.src = .live w <;> simp [Msg.entry?, Msg.isOf, he]
  | _ => rfl

/-- **What a step does to one worker's stream.** What is on the way loses from its front and gains at
its end; what is kept with it gains at its end, unless the step clears the lists. -/
theorem Sys.Owes.flow (ho : s.Owes) (hs : Sys.step h s a = some s') :
    s'.Owes ∧ ∀ w, s'.numOf w = s.numOf w + (s.takenBy h w a).length ∧
      s'.onWay w <:+ s.onWay w ++ (s.takenBy h w a).flatMap Msg.calls ∧
      (a.clears s = true →
        s'.rowsOf w = (s'.onWay w).filterMap Msg.row? ∧ s'.entriesOf w = (s'.onWay w).filterMap Msg.entry?) ∧
      (a.clears s = false →
        s'.rowsOf w ~ s.rowsOf w ++ (s.takenBy h w a).map Prod.fst ∧
          s'.entriesOf w = s.entriesOf w ++ (s.takenBy h w a).map Prod.snd) := by
  by_cases hw : ∃ v b, a = .worker v b
  · obtain ⟨v, b, rfl⟩ := hw
    obtain ⟨ho', hp, hway⟩ := ho.work hs
    refine ⟨ho', fun w => ?_⟩
    obtain ⟨hon, hnum⟩ := hway w
    refine ⟨hnum, hon ▸ List.suffix_refl _, fun hc => by simp [Act.clears] at hc, fun _ => ?_⟩
    simp only [Sys.rowsOf, Sys.entriesOf, hp, hon, List.filterMap_append, Msg.rows_calls, Msg.entries_calls,
      List.append_assoc]
    exact ⟨.refl _, trivial⟩
  have hw (v : Nat) (b : WkAct) : a ≠ .worker v b := fun e => hw ⟨v, b, e⟩
  by_cases hd : a = .deliver
  · subst hd
    obtain ⟨m, q, hq, rfl⟩ := Sys.deliver_cases hs
    refine ⟨fun w m' hm => ho w m' ((Sys.call_onWay hq w).2.1 ▸ hm), fun w => ?_⟩
    obtain ⟨hon, _, hnum⟩ := Sys.call_onWay hq w
    obtain ⟨hrow, hentry⟩ := s.call_stored q m
    simp only [Sys.takenBy, Act.framesOf, stored_nil, List.length_nil, List.flatMap_nil, List.map_nil, List.append_nil]
    refine ⟨hnum, ⟨_, hon.symm⟩, fun hc => by simp [Act.clears] at hc, fun _ => ?_⟩
    simp only [Sys.rowsOf, Sys.entriesOf, hrow, hentry, hon, List.filter_append, List.filterMap_append, Msg.filter_row,
      Msg.filter_entry, List.append_assoc]
    exact ⟨.refl _, trivial⟩
  · refine ⟨fun w m hm => ho w m ((Sys.onWay_still hd hw hs w).2.1 ▸ hm), fun w => ?_⟩
    obtain ⟨hon, _, hnum, htaken⟩ := Sys.onWay_still hd hw hs w
    obtain ⟨hclear, hkeep⟩ := Sys.stored_still hd hw hs w
    rw [htaken, hnum, hon]
    simp only [List.flatMap_nil, List.append_nil, List.length_nil, List.map_nil, Nat.add_zero, Sys.rowsOf, Sys.entriesOf, hon]
    refine ⟨trivial, List.suffix_refl _, fun hc => ?_, fun hc => ?_⟩
    · obtain ⟨hv, hvd⟩ := hclear hc
      simp [hv, hvd]
    · obtain ⟨hv, hvd⟩ := hkeep hc
      rw [hvd]
      exact ⟨hv.append_right _, rfl⟩

/-! ## Whole runs -/

/-- Where the stream `ps` of worker `w` stands: what is on the way is its end, what is kept with it a
longer end, and a packet whose entry is kept has its row kept too, but for the first. -/
structure Sys.Stream (s : Sys) (w : Nat) (ps : List (Row × Entry)) : Prop where
  counter : s.numOf w = ps.length
  way : s.onWay w <:+ ps.flatMap Msg.calls
  kept : ∃ k k', k ≤ k' ∧ k' ≤ k + 1 ∧ k' ≤ ps.length ∧
    s.entriesOf w = (ps.drop k).map Prod.snd ∧ s.rowsOf w ~ (ps.drop k').map Prod.fst

/-- An end of a stream, as rows and as entries. -/
theorem Msg.kept_of_suffix {l : List Msg} (hl : l <:+ ps.flatMap Msg.calls) :
    ∃ k k', k ≤ k' ∧ k' ≤ k + 1 ∧ k' ≤ ps.length ∧
      l.filterMap Msg.entry? = (ps.drop k).map Prod.snd ∧ l.filterMap Msg.row? = (ps.drop k').map Prod.fst := by
  rcases Lists.suffix_flatMap_pair hl with ⟨k, hk, rfl⟩ | ⟨k, p, hp, rfl⟩
  · exact ⟨k, k, Nat.le_refl k, Nat.le_succ k, hk, Msg.entries_calls _, Msg.rows_calls _⟩
  · obtain ⟨hlt, hget⟩ := List.getElem?_eq_some_iff.1 hp
    have hentries : (Msg.dumpPushBack p.2 :: (ps.drop (k + 1)).flatMap Msg.calls).filterMap Msg.entry? =
        p.2 :: (ps.drop (k + 1)).map Prod.snd := congrArg _ (Msg.entries_calls _)
    refine ⟨k, k + 1, Nat.le_succ k, Nat.le_refl _, hlt, hentries.trans ?_, Msg.rows_calls _⟩
    rw [List.drop_eq_getElem_cons hlt, List.map_cons, hget]

theorem Sys.Stream.step (hi : s.Stream w ps) (ho : s.Owes) (hs : Sys.step h s a = some s') :
    s'.Stream w (ps ++ s.takenBy h w a) := by
  obtain ⟨hnum, hway, hclear, hkeep⟩ := (ho.flow hs).2 w
  have hway' : s'.onWay w <:+ (ps ++ s.takenBy h w a).flatMap Msg.calls := by
    rw [List.flatMap_append]
    apply hway.trans
    obtain ⟨pre, hpre⟩ := hi.way
    exact ⟨pre, by rw [← List.append_assoc, hpre]⟩
  refine ⟨by rw [hnum, hi.counter, List.length_append], hway', ?_⟩
  cases hc : a.clears s with
  | true =>
    obtain ⟨hr, he⟩ := hclear hc
    obtain ⟨k, k', hle, hle', hlen, hek, hrk⟩ := Msg.kept_of_suffix hway'
    exact ⟨k, k', hle, hle', hlen, he.trans hek, by rw [hr, hrk]⟩
  | false =>
    obtain ⟨hr, he⟩ := hkeep hc
    obtain ⟨k, k', hle, hle', hlen, hek, hrk⟩ := hi.kept
    refine ⟨k, k', hle, hle', by rw [List.length_append]; omega, ?_, ?_⟩
    · rw [he, hek, List.drop_append_of_le_length (by omega), List.map_append]
    · rw [List.drop_append_of_le_length hlen, List.map_append]
      exact hr.trans (hrk.append_right _)

/-- A longer run continues the stream. -/
theorem streamOf_append (acts acts' : List Act) : streamOf h w (acts ++ acts') =
    streamOf h w acts ++ stored h (.live w) (streamOf h w acts).length (acts'.flatMap (Act.framesOf w)) := by
  rw [streamOf, List.flatMap_append, stored_append, Nat.zero_add]
  rfl

theorem Sys.owes_init : Sys.init.Owes := by
  intro w m hm
  simp [Sys.init, Sys.owedBy] at hm

theorem Sys.Owes.run {acts : List Act} (ho : s.Owes) (hr : Lts.run (Sys.step h) s acts = some s') : s'.Owes :=
  Lts.run_invariant' (fun _ _ _ ho hs => (Sys.Owes.flow ho hs).1) ho hr

theorem Sys.Stream.run {acts : List Act} (hr : Lts.run (Sys.step h) Sys.init acts = some s) :
    s.Stream w (streamOf h w acts) := by
  refine Lts.run_ind (motive := fun acts s => s.Stream w (streamOf h w acts)) ?_ ?_ hr
  · exact ⟨rfl, List.nil_suffix, 0, 0, Nat.le_refl 0, Nat.zero_le 1, Nat.le_refl 0, rfl, .refl _⟩
  · intro acts s a s' hr hi hs
    have hnext := hi.step (Sys.Owes.run Sys.owes_init hr) hs
    rw [streamOf_append, List.flatMap_singleton, ← hi.counter]
    exact hnext

/-- What a step takes of a worker continues its stream. -/
theorem streamOf_snoc {acts : List Act} (hr : Lts.run (Sys.step h) Sys.init acts = some s) (a : Act) :
    streamOf h w (acts ++ [a]) = streamOf h w acts ++ s.takenBy h w a := by
  rw [streamOf_append, List.flatMap_singleton, ← (Sys.Stream.run hr).counter]
  rfl

/-- **Each capture is delivered in order.** In every reachable state and for every worker, the calls
still on the way are an end of what its callback accepted, numbered from 0, in the order accepted;
`vec_dump`'s entries of it join on in front without a gap, and so do `md`'s rows up to order, which
may begin one packet later. -/
theorem stream_in_order {acts : List Act} (hr : Lts.run (Sys.step h) Sys.init acts = some s) (w : Nat) :
    s.onWay w <:+ (streamOf h w acts).flatMap Msg.calls ∧
      ∃ k k', k ≤ k' ∧ k' ≤ k + 1 ∧ k' ≤ (streamOf h w acts).length ∧
        s.entriesOf w = ((streamOf h w acts).drop k).map Prod.snd ∧
          s.rowsOf w ~ ((streamOf h w acts).drop k').map Prod.fst :=
  ⟨(Sys.Stream.run hr).way, (Sys.Stream.run hr).kept⟩

/-- A capture restarted between the row and the entry of a packet. -/
def restartBetweenCalls (f : Frame) : List Act :=
  [.createTh "eth0" "", .worker 0 (.openLive true), .worker 0 .post, .worker 0 .post, .worker 0 .enterLoop,
    .worker 0 (.packet f), .worker 0 .post, .deliver, .deliver, .deliver, .createTh "eth1" "", .worker 0 .post, .deliver]

/-- Its entry stays without its row: here what is kept of the rows does begin one packet later. -/
theorem stream_in_order_restarted : ∃ s,
    Lts.run (Sys.step .little) Sys.init (restartBetweenCalls (udpFrame 42)) = some s ∧ s.rowsOf 0 = [] ∧
      s.onWay 0 <:+ (streamOf .little 0 (restartBetweenCalls (udpFrame 42))).flatMap Msg.calls ∧
      ∃ k k', k ≤ k' ∧ k' ≤ k + 1 ∧ k' ≤ (streamOf .little 0 (restartBetweenCalls (udpFrame 42))).length ∧
        s.entriesOf 0 = ((streamOf .little 0 (restartBetweenCalls (udpFrame 42))).drop k).map Prod.snd ∧
          s.rowsOf 0 ~ ((streamOf .little 0 (restartBetweenCalls (udpFrame 42))).drop k').map Prod.fst := by
  obtain ⟨s, hs, hrows⟩ : ∃ s, Lts.run (Sys.step .little) Sys.init (restartBetweenCalls (udpFrame 42)) = some s ∧
      s.rowsOf 0 = [] := Lts.run_reaches (by decide +kernel)
  exact ⟨s, hs, hrows, stream_in_order hs 0⟩

/-- **Nothing is lost between clears.** Over any part of a run that does not clear the lists, what is
kept of a worker grows by exactly what its callback accepts meanwhile, whatever else goes on. -/
theorem stream_conserved {acts acts' : List Act} (hr : Lts.run (Sys.step h) Sys.init acts = some s)
    (hr' : Lts.run (Sys.step h) s acts' = some s')
    (hc : Lts.Along (Sys.step h) (fun s a => a.clears s = false) s acts') (w : Nat) :
    ∃ new, streamOf h w (acts ++ acts') = streamOf h w acts ++ new ∧
      s'.entriesOf w = s.entriesOf w ++ new.map Prod.snd ∧ s'.rowsOf w ~ s.rowsOf w ++ new.map Prod.fst := by
  induction acts' generalizing acts s with
  | nil =>
    cases hr'
    exact ⟨[], by simp, by simp, by simp⟩
  | cons a acts' ih =>
    obtain ⟨t, ht, hr'⟩ := Lts.run_cons_eq_some.1 hr'
    obtain ⟨hca, hc⟩ := (Lts.along_cons_of_step ht).1 hc
    obtain ⟨hrows, hentries⟩ := (((Sys.Owes.run Sys.owes_init hr).flow ht).2 w).2.2.2 hca
    obtain ⟨new, hnew, he, hrn⟩ := ih (Lts.run_snoc_eq_some.2 ⟨s, hr, ht⟩) hr' hc
    rw [streamOf_snoc hr, List.append_assoc, List.append_assoc] at hnew
    refine ⟨s.takenBy h w a ++ new, hnew, ?_, ?_⟩
    · rw [he, hentries, List.map_append, List.append_assoc]
    · rw [List.map_append, ← List.append_assoc]
      exact hrn.trans (hrows.append_right _)

/-- Two captures, the first with a packet in its callback. -/
def twoLooping : List Act :=
  [.createTh "eth0" "", .worker 0 (.openLive true), .worker 0 .post, .worker 0 .post, .worker 0 .enterLoop,
    .createTh "eth1" "", .worker 1 (.openLive true), .worker 1 .post, .worker 1 .post, .worker 1 .enterLoop,
    .worker 0 (.packet (udpFrame 42)), .worker 0 .post, .deliver, .deliver]

/-- Both accept packets, and some are delivered. -/
def bothAccept : List Act :=
  [.worker 1 (.packet tcpFrame), .worker 0 .post, .worker 1 .post, .worker 0 (.packet (udpFrame 60)), .worker 0 .post,
    .deliver, .deliver, .deliver, .worker 1 .post, .deliver, .deliver]

/-- While another worker captures, the packet taken up before is stored, and a new one accepted. -/
theorem stream_conserved_beside : ∃ s s' new, Lts.run (Sys.step .little) Sys.init twoLooping = some s ∧
    Lts.run (Sys.step .little) s bothAccept = some s' ∧ s'.pcap.md.vec.length = 2 ∧
    streamOf .little 0 (twoLooping ++ bothAccept) = streamOf .little 0 twoLooping ++ new ∧ new.length = 1 ∧
    s'.entriesOf 0 = s.entriesOf 0 ++ new.map Prod.snd ∧ s'.rowsOf 0 ~ s.rowsOf 0 ++ new.map Prod.fst := by
  obtain ⟨s, hs, hc, hr'⟩ : ∃ s, Lts.run (Sys.step .little) Sys.init twoLooping = some s ∧
      Lts.Along (Sys.step .little) (fun s a => a.clears s = false) s bothAccept ∧
      ((Lts.run (Sys.step .little) s bothAccept).any fun s' => s'.pcap.md.vec.length = 2) = true :=
    Lts.run_reaches (by decide +kernel)
  obtain ⟨s', hs', hlen⟩ := (Option.any_eq_true _ _).1 hr'
  obtain ⟨new, hnew, hkept⟩ := stream_conserved hs hs' hc 0
  have hboth : (streamOf .little 0 (twoLooping ++ bothAccept)).length = (streamOf .little 0 twoLooping).length + 1 := by
    decide +kernel
  rw [hnew, List.length_append] at hboth
  exact ⟨s, s', new, hs, hs', of_decide_eq_true hlen, hnew, by omega, hkept⟩

/-! ## Sorting by number -/

theorem stored_increasing (h : Host) (src : Source) (n : Nat) (fs : List Frame) :
    ((stored h src n fs).map Prod.fst).Pairwise fun a b => a.pkt.num < b.pkt.num := by
  have hnums : ((stored h src n fs).map fun p => p.1.pkt.num).Pairwise (· < ·) := by
    rw [nums_stored]
    exact List.pairwise_lt_range'
  rw [List.pairwise_map] at hnums ⊢
  exact hnums

/-- Rows stored of a worker that are in the order of their numbers are in the order of its stream. -/
theorem Sys.Stream.ordered {acts : List Act} {l : List Row} (hi : s.Stream w (streamOf h w acts))
    (hl : l ~ s.pcap.md.vec.filter fun r => r.src = .live w) (hsorted : l.Pairwise fun a b => a.pkt.num ≤ b.pkt.num) :
    ∃ k, k ≤ (streamOf h w acts).length ∧
      l ++ (s.onWay w).filterMap Msg.row? = ((streamOf h w acts).drop k).map Prod.fst := by
  obtain ⟨_, k, _, _, hk, _, hrows⟩ := hi.kept
  have hway : (s.onWay w).filterMap Msg.row? <:+ (streamOf h w acts).map Prod.fst := by
    rw [← Msg.rows_calls]
    exact hi.way.filterMap _
  have hdrop : ((streamOf h w acts).drop k).map Prod.fst <:+ (streamOf h w acts).map Prod.fst := by
    rw [List.map_drop]
    exact List.drop_suffix _ _
  have hlen := hrows.length_eq
  rw [Sys.rowsOf, List.length_append] at hlen
  -- what is on the way is the end of what is kept
  obtain ⟨first, hfirst⟩ := List.suffix_of_suffix_length_le hway hdrop (by omega)
  have hperm : l ~ first := by
    rw [← hfirst, Sys.rowsOf] at hrows
    exact hl.trans ((List.perm_append_right_iff _).1 hrows)
  have hstrict : first.Pairwise fun a b => a.pkt.num < b.pkt.num := by
    have hsub : first <+ (streamOf h w acts).map Prod.fst :=
      (List.prefix_append _ _).sublist.trans (hfirst ▸ hdrop.sublist)
    exact List.Pairwise.sublist hsub (stored_increasing h (.live w) 0 _)
  refine ⟨k, hk, ?_⟩
  rw [← hfirst, Comparator.eq_of_sorted hperm hsorted hstrict]

/-- **Sorting by number restores the order of arrival**, whatever was sorted before. After a click on the number
column that ascends, the rows of every worker are in the order its callback accepted them, and what is on its way
follows on; after one that descends, they are in the reverse order. The counters are `int`s of the source while
fewer than `2 ^ 31` packets are accepted. -/
theorem sort_num_restores {acts : List Act} {sorted : List Row} (hr : Lts.run (Sys.step h) Sys.init acts = some s)
    (hs : Sys.step h s (.sort .num sorted) = some s') (w : Nat) :
    ∃ k, k ≤ (streamOf h w acts).length ∧
      ((if s.pcap.md.numFlag then s'.pcap.md.vec else s'.pcap.md.vec.reverse).filter fun r => r.src = .live w) ++
        (s'.onWay w).filterMap Msg.row? = ((streamOf h w acts).drop k).map Prod.fst := by
  have hr' : Lts.run (Sys.step h) Sys.init (acts ++ [.sort .num sorted]) = some s' :=
    Lts.run_snoc_eq_some.2 ⟨s, hr, hs⟩
  have hstream : streamOf h w (acts ++ [.sort .num sorted]) = streamOf h w acts := by
    rw [streamOf_append]
    exact List.append_nil _
  have hi := Sys.Stream.run (w := w) hr'
  rw [hstream] at hi
  apply hi.ordered
  · split
    · exact .refl _
    · exact (List.reverse_perm _).filter _
  · obtain ⟨md, hmd, rfl⟩ := Sys.sort_cases hs
    simp only [Capture.sort, Capture.sortNum, Option.ite_none_right_eq_some, Option.some.injEq] at hmd
    obtain ⟨⟨_, hsorted⟩, rfl⟩ := hmd
    apply List.Pairwise.filter
    cases hflag : s.pcap.md.numFlag with
    | true =>
      rw [if_pos rfl]
      refine hsorted.imp ?_
      intro a b hab
      simpa [Capture.numLt, hflag] using hab
    | false =>
      rw [if_neg Bool.false_ne_true, List.pairwise_reverse]
      refine hsorted.imp ?_
      intro a b hab
      simpa [Capture.numLt, hflag] using hab

def capturedRow (num : Nat) : Row := ⟨⟨num, "10.0.0.1", "10.0.0.2", "UDP", 42, "53 ---> 53   Len=0"⟩, .live 0⟩

/-- Two packets, sorted by length and then by number, which descends the first time. -/
def twoSorted : List Act :=
  captureOne (udpFrame 42) ++ [.worker 0 (.packet (udpFrame 42)), .worker 0 .post, .worker 0 .post, .deliver, .deliver,
    .sort .len [capturedRow 1, capturedRow 0], .sort .num [capturedRow 1, capturedRow 0]]

/-- The second time it ascends. -/
theorem sort_num_restores_two : ∃ s s' k, Lts.run (Sys.step .little) Sys.init twoSorted = some s ∧
    Sys.step .little s (.sort .num [capturedRow 0, capturedRow 1]) = some s' ∧ s.pcap.md.numFlag = true ∧
      s'.rowsOf 0 = ((streamOf .little 0 twoSorted).drop k).map Prod.fst := by
  obtain ⟨s, hr, hflag, hsome⟩ : ∃ s, Lts.run (Sys.step .little) Sys.init twoSorted = some s ∧
      s.pcap.md.numFlag = true ∧ (Sys.step .little s (.sort .num [capturedRow 0, capturedRow 1])).isSome = true :=
    Lts.run_reaches (by decide +kernel)
  obtain ⟨s', hs⟩ := Option.isSome_iff_exists.1 hsome
  obtain ⟨k, _, hrows⟩ := sort_num_restores hr hs 0
  rw [if_pos hflag] at hrows
  exact ⟨s, s', k, hr, hs, hflag, hrows⟩

end MiniWireshark

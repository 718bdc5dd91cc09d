import MiniWireshark.Flags
import MiniWireshark.Transit

/-!
# One live capture and file reading (`Pcap.cpp:21-257`, `:366-493`, `:534-748`)

From a state without live workers and pending calls, `create_Th` starts worker `w`. `Capturing` is
the refinement: at every moment the entries stored and on their way are those of the frames the
worker's loop has taken so far, in order. At the end nothing is on its way, so a live capture
leaves what reading its frames from a file leaves.

| here | meaning |
| --- | --- |
| `Act.inCapture`          | the steps of a capture: `stop_Th`, sorts, deliveries, worker actions |
| `Sys.Capturing h s w fs` | worker `w` alone is alive and has taken the frames `fs` |
| `Sys.ResetIdle s w`      | `reset_md` finds the lists empty or `wk_life` up, until the capture is over |
-/

namespace MiniWireshark

variable {h : Host} {s s' : Sys} {a : Act} {w : Nat} {fs : List Frame}

/-! ## The worker alone -/

/-- `stop_Th`, a sort, a delivery or a worker's action. -/
def Act.inCapture : Act → Bool
  | .stopTh | .sort .. | .deliver | .worker .. => true
  | _ => false

theorem Worker.step_finished {wk : Worker} (hp : wk.phase = .finished) (b : WkAct) : wk.step h w b = none := by
  cases b <;> simp [Worker.step, Worker.mayCallBack, Phase.inLoop, hp]

/-- Worker `w` is the last one, the others have finished, and it has taken the frames `fs`. -/
structure Sys.Capturing (h : Host) (s : Sys) (w : Nat) (fs : List Frame) : Prop where
  length : s.workers.length = w + 1
  others : ∀ (j : Nat) wk, s.workers[j]? = some wk → j ≠ w → wk.phase = .finished
  num : ∀ wk, s.workers[w]? = some wk → wk.num = (stored h (.live w) 0 fs).length
  entries : s.entries = (stored h (.live w) 0 fs).map Prod.snd

/-- Only worker `w` acts. -/
theorem Sys.Capturing.worker_eq (hc : s.Capturing h w fs) {v : Nat} {b : WkAct} (hs : s.work h v b = some s') :
    v = w := by
  obtain ⟨wk, wk', ms, hv, hst, _⟩ := Sys.work_step hs
  by_contra hvw
  rw [Worker.step_finished (hc.others v wk hv hvw)] at hst
  cases hst

/-- A step takes the frames it is handed, numbered on from what was taken. -/
theorem Sys.Capturing.taken_eq (hc : s.Capturing h w fs) (hk : a.inCapture = true) (hs : Sys.step h s a = some s') :
    s.taken h a = stored h (.live w) (stored h (.live w) 0 fs).length a.frames := by
  cases a with
  | worker v b =>
    cases hc.worker_eq hs
    obtain ⟨wk, wk', ms, hv, _, _⟩ := Sys.work_step hs
    have hnum := hc.num wk hv
    simp only [Sys.taken, hv]
    cases b <;> simp [Worker.taken, Act.frames, hnum]
  | stopTh => rfl
  | sort col sorted => rfl
  | deliver => rfl
  | createTh _ _ => cases hk
  | resetMd => cases hk
  | pcapFileRead _ => cases hk

/-- In order, a step adds what it takes; a sort may reorder the rows. -/
theorem Sys.Capturing.flow (hc : s.Capturing h w fs) (hk : a.inCapture = true) (hs : Sys.step h s a = some s') :
    s'.entries = s.entries ++ (s.taken h a).map Prod.snd ∧
      ((∀ col sorted, a ≠ .sort col sorted) → s'.rows = s.rows ++ (s.taken h a).map Prod.fst) := by
  cases a with
  | worker v b =>
    obtain rfl := hc.worker_eq hs
    obtain ⟨wk, wk', ms, hv, hst, rfl⟩ := Sys.work_step hs
    have hf := Worker.step_flow hst
    have hnone (j : Nat) (wk₁ : Worker) (hj : s.workers[j]? = some wk₁) (hne : j ≠ v) :
        wk₁.rows = [] ∧ wk₁.entries = [] := by
      have hph := hc.others j wk₁ hj hne
      simp [Worker.rows, Worker.entries, hph]
    simp only [Sys.taken, hv, Sys.entries, Sys.rows, Sys.pendEntries, Sys.pendRows, List.filterMap_append]
    constructor
    · rw [Lists.post_sole _ hv (fun j r hj hne => (hnone j r hj hne).2) hf.2]
      simp only [List.append_assoc]
    · intro _
      rw [Lists.post_sole _ hv (fun j r hj hne => (hnone j r hj hne).1) hf.1]
      simp only [List.append_assoc]
  | stopTh =>
    cases hs
    simp [Sys.entries, Sys.rows, s.pend_stopTh, s.stopTh_stored, Sys.taken]
  | sort col sorted =>
    obtain ⟨md, _, rfl⟩ := Sys.sort_cases hs
    exact ⟨by simp [Sys.entries, Sys.pendEntries, Sys.taken], fun hns => absurd rfl (hns col sorted)⟩
  | deliver =>
    obtain ⟨m, q, hq, rfl⟩ := Sys.deliver_cases hs
    simp [Sys.call_flow hq, Sys.taken]
  | createTh _ _ => cases hk
  | resetMd => cases hk
  | pcapFileRead _ => cases hk

/-- A change that leaves counters and finished workers keeps the refinement. -/
theorem Sys.Capturing.of_modify (hc : s.Capturing h w fs) {v : Nat} {f : Worker → Worker}
    (hf : ∀ wk, (f wk).num = wk.num ∧ (wk.phase = .finished → (f wk).phase = .finished))
    (hw : s'.workers = s.workers.modify v f) (he : s'.entries = s.entries) : s'.Capturing h w fs := by
  have hget (j : Nat) (wk : Worker) (hj : s'.workers[j]? = some wk) :
      ∃ wk₀, s.workers[j]? = some wk₀ ∧ wk.num = wk₀.num ∧ (wk₀.phase = .finished → wk.phase = .finished) := by
    rw [hw] at hj
    obtain ⟨wk₀, hj₀, ⟨_, rfl⟩ | ⟨_, rfl⟩⟩ := Lists.getElem?_modify_eq_some hj
    · exact ⟨wk₀, hj₀, hf wk₀⟩
    · exact ⟨wk, hj₀, rfl, id⟩
  refine ⟨by rw [hw, List.length_modify, hc.length], fun j wk hj hne => ?_, fun wk hj => ?_, by rw [he, hc.entries]⟩
  · obtain ⟨wk₀, hj₀, _, hfin⟩ := hget j wk hj
    exact hfin (hc.others j wk₀ hj₀ hne)
  · obtain ⟨wk₀, hj₀, hnum, _⟩ := hget w wk hj
    rw [hnum, hc.num wk₀ hj₀]

theorem Sys.Capturing.of_workers (hc : s.Capturing h w fs) (hw : s'.workers = s.workers)
    (he : s'.entries = s.entries) : s'.Capturing h w fs :=
  ⟨by rw [hw, hc.length], by rw [hw]; exact hc.others, by rw [hw]; exact hc.num, by rw [he, hc.entries]⟩

/-- **Every step of a capture keeps the refinement**, with the frames it is handed added. -/
theorem Sys.Capturing.step (hc : s.Capturing h w fs) (hk : a.inCapture = true) (hs : Sys.step h s a = some s') :
    s'.Capturing h w (fs ++ a.frames) := by
  have hflow := (hc.flow hk hs).1
  cases a with
  | worker v b =>
    have hlist : stored h (.live w) 0 (fs ++ (Act.worker v b).frames) =
        stored h (.live w) 0 fs ++ s.taken h (.worker v b) := by
      rw [stored_append, hc.taken_eq hk hs, Nat.zero_add]
    obtain rfl := hc.worker_eq hs
    obtain ⟨wk, wk', ms, hv, hst, rfl⟩ := Sys.work_step hs
    refine ⟨by rw [List.length_set, hc.length], fun j wk₀ hj hne => ?_, fun wk₀ hj => ?_, ?_⟩
    · rw [List.getElem?_set_ne hne.symm] at hj
      exact hc.others j wk₀ hj hne
    · rw [Lists.getElem?_set_of_some hv] at hj
      cases hj
      have ht : s.taken h (.worker v b) = wk.taken h v b := by simp only [Sys.taken, hv]
      rw [Worker.step_num hst, hc.num wk hv, hlist, List.length_append, ht]
    · rw [hflow, hc.entries, hlist, List.map_append]
  | stopTh =>
    rw [show fs ++ Act.stopTh.frames = fs from List.append_nil fs]
    simp only [Sys.taken, List.map_nil, List.append_nil] at hflow
    cases hs
    cases hp : s.pcap.wkPp with
    | none => exact hc.of_workers (by rw [Sys.stopTh_of_none hp]) hflow
    | some v =>
      rw [Sys.stopTh_of_handle hp] at hflow ⊢
      refine hc.of_modify (f := fun wk => { wk with brk := true }) (fun wk => ⟨rfl, id⟩) rfl hflow
  | sort col sorted =>
    rw [show fs ++ (Act.sort col sorted).frames = fs from List.append_nil fs]
    simp only [Sys.taken, List.map_nil, List.append_nil] at hflow
    obtain ⟨md, _, rfl⟩ := Sys.sort_cases hs
    exact hc.of_workers rfl hflow
  | deliver =>
    rw [show fs ++ Act.deliver.frames = fs from List.append_nil fs]
    simp only [Sys.taken, List.map_nil, List.append_nil] at hflow
    obtain ⟨m, q, hq, rfl⟩ := Sys.deliver_cases hs
    cases m with
    | clearWkPp v =>
      refine hc.of_modify (f := Worker.unblock) (fun wk => ?_) rfl hflow
      rcases wk.unblock_cases with ⟨hph, he⟩ | he
      · exact ⟨by rw [he], fun hp => by rw [hph] at hp; cases hp⟩
      · rw [he]
        exact ⟨rfl, id⟩
    | _ => exact hc.of_workers rfl hflow
  | createTh _ _ => cases hk
  | resetMd => cases hk
  | pcapFileRead _ => cases hk

/-- In an idle state no packet is on its way. -/
theorem Sys.Idle.nonePending (hidle : s.Idle) : s.NonePending := by
  simp only [Sys.NonePending, Sys.pendRows, Sys.pendEntries, hidle.2, List.filterMap_nil, List.nil_append,
    List.flatMap_eq_nil_iff]
  constructor <;> intro wk hwk <;> simp [Worker.rows, Worker.entries, hidle.1 wk hwk]

/-- A worker started where none is alive and nothing is pending. -/
theorem Sys.Idle.capturing (hidle : s.Idle) {nicName : String} (ft : String) (hn : nicName.isEmpty = false) :
    (s.createTh nicName ft).Capturing h s.workers.length [] ∧ (s.createTh nicName ft).rows = [] := by
  have hs : Sys.step h s (.createTh nicName ft) = some (s.createTh nicName ft) := rfl
  have hflow := (Sys.step_flow hs).1 (by simp [Act.clears, hn])
  rw [hidle.nonePending.1, hidle.nonePending.2] at hflow
  refine ⟨⟨?_, fun j wk hj hne => ?_, fun wk hw => ?_, hflow.2⟩, hflow.1⟩
  · simp [s.createTh_of_name ft hn]
  · rw [s.createTh_of_name ft hn, List.getElem?_append] at hj
    split at hj
    · exact hidle.1 wk (List.mem_of_getElem? hj)
    · have := (List.getElem?_eq_some_iff.1 hj).1
      simp only [List.length_singleton] at this
      omega
  · rw [s.createTh_of_name ft hn] at hw
    simp only [List.getElem?_concat_length, Option.some.injEq] at hw
    subst hw
    rfl

/-! ## `reset_md` during the capture -/

/-- The call stores a row or an entry. -/
def Msg.stores : Msg → Bool
  | .updateMd _ | .dumpPushBack _ => true
  | _ => false

/-- What the worker's phase says of `wk_life`: up once settled while it may take packets, no end
queued before it posts one, and nothing queued behind that end. `num` is 0 where no packet can
have been taken. -/
def Worker.LifeOk (q : List Msg) (settled : Bool) (wk : Worker) : Prop :=
  match wk.phase with
  | .finished => wk.num = 0 ∨ .setWkLife false ∉ q.dropLast
  | .failPosted => wk.num = 0
  | ph => .setWkLife false ∉ q ∧ if ph.lifeUp = true then settled = true else wk.num = 0

theorem Worker.LifeOk.quiet {wk wk' : Worker} {b : WkAct} {q : List Msg} {settled : Bool} (hl : wk.LifeOk q settled)
    (hq : Worker.Quiet h w wk b wk') : wk'.LifeOk q settled := by
  cases hq with
  | openLive ok hp => cases ok <;> simpa [Worker.LifeOk, Phase.lifeUp, hp] using hl
  | compile ok hp => cases ok <;> simpa [Worker.LifeOk, Phase.lifeUp, hp] using hl
  | setfilter ok hp => cases ok <;> simpa [Worker.LifeOk, Phase.lifeUp, hp] using hl
  | read hp hb => simpa [Worker.LifeOk, Phase.lifeUp, hp] using hl
  | wake hp => simpa [Worker.LifeOk, Phase.lifeUp, hp] using hl
  | reject f hp _ ha => rcases hp with hp | hp <;> simpa [Worker.LifeOk, Phase.lifeUp, hp] using hl
  | accept f pkt hp _ ha => rcases hp with hp | hp <;> simpa [Worker.LifeOk, Phase.lifeUp, hp] using hl
  | enterLoop hp => simpa [Worker.LifeOk, Phase.lifeUp, hp] using hl
  | loopBreak hp hb => simpa [Worker.LifeOk, Phase.lifeUp, hp] using hl
  | loopError hp => rcases hp with hp | hp <;> simpa [Worker.LifeOk, Phase.lifeUp, hp] using hl
  | close hp => simpa [Worker.LifeOk, Phase.lifeUp, hp] using hl

/-- A posting keeps the phase's word, and posts rows and entries only while `wk_life` settles up. -/
theorem Worker.LifeOk.post {wk wk' : Worker} {m : Msg} {q : List Msg} {v : Bool}
    (hl : wk.LifeOk q (Lists.settle Msg.life? v q)) (hp : Worker.Post w wk m wk') :
    wk'.LifeOk (q ++ [m]) (Lists.settle Msg.life? v (q ++ [m])) ∧
      (m.stores = true → Lists.settle Msg.life? v q = true) := by
  cases hp <;> rename_i hph <;> simp_all [Worker.LifeOk, Phase.lifeUp, Msg.life?, Msg.stores]

theorem Worker.LifeOk.tail {wk : Worker} {m : Msg} {q : List Msg} {settled : Bool} (hl : wk.LifeOk (m :: q) settled) :
    wk.LifeOk q settled := by
  unfold Worker.LifeOk at hl ⊢
  split at hl
  · refine hl.imp id fun hl hm => hl ?_
    cases q with
    | nil => exact hm
    | cons m' q => exact List.mem_cons_of_mem m hm
  · exact hl
  · exact ⟨fun hm => hl.1 (List.mem_cons_of_mem m hm), hl.2⟩

theorem Worker.LifeOk.unblock {wk : Worker} {q : List Msg} {settled : Bool} (hl : wk.LifeOk q settled) :
    wk.unblock.LifeOk q settled := by
  rcases wk.unblock_cases with ⟨hph, he⟩ | he
  · simpa [he, Worker.LifeOk, Phase.lifeUp, hph] using hl
  · rwa [he]

theorem Worker.LifeOk.brk {wk : Worker} {q : List Msg} {settled b : Bool} (hl : wk.LifeOk q settled) :
    Worker.LifeOk q settled { wk with brk := b } := hl

/-- The lists are filled only while `wk_life` is up, until the capture is over. -/
structure Sys.Lit (s : Sys) (w : Nat) : Prop where
  guarded : Lists.Guarded Msg.life? Msg.stores s.pcap.wkLife s.queue
  phase : ∀ wk, s.workers[w]? = some wk → wk.LifeOk s.queue s.lifeSettled
  lit : s.pcap.md.vec ≠ [] ∨ s.pcap.vecDump ≠ [] → s.pcap.wkLife = true ∨ s.Idle
  file : s.pcap.vecDumpFile = []

theorem Sys.resetMd_eq_self (hv : s.pcap.md.vec = []) (hd : s.pcap.vecDump = []) (hf : s.pcap.vecDumpFile = []) :
    s.resetMd = s := by
  obtain ⟨⟨_, _, ⟨vec, _, _, _, _, _⟩, _, vecDump, vecDumpFile, _, _⟩, _, _, _, _⟩ := s
  cases hv
  cases hd
  cases hf
  exact ite_self _

/-- Until the capture is over, `reset_md` changes nothing. -/
theorem Sys.Lit.resetMd (hl : s.Lit w) (hidle : ¬ s.Idle) : s.resetMd = s := by
  by_cases hlife : s.pcap.wkLife = true
  · rw [Sys.resetMd, if_neg (by simp [hlife])]
  · have hempty : ¬ (s.pcap.md.vec ≠ [] ∨ s.pcap.vecDump ≠ []) := fun hne => (hl.lit hne).elim hlife hidle
    rw [not_or, not_not, not_not] at hempty
    exact Sys.resetMd_eq_self hempty.1 hempty.2 hl.file

/-- Delivery keeps the lists dark or `wk_life` up: the call that ends it is the last one. -/
theorem Sys.Lit.call {m : Msg} {q : List Msg} (hl : s.Lit w) (hc : s.Capturing h w fs)
    (hrows : s.rows = (stored h (.live w) 0 fs).map Prod.fst) (hq : s.queue = m :: q) : (s.call q m).Lit w := by
  have hset := Sys.lifeSettled_call hq
  have hguard := hl.guarded
  rw [hq] at hguard
  have hphase : ∀ wk, s.workers[w]? = some wk → wk.LifeOk q s.lifeSettled := fun wk hw => by
    have := hl.phase wk hw
    rw [hq] at this
    exact this.tail
  have hnot : ¬ s.Idle := fun hidle => by rw [hidle.2] at hq; cases hq
  -- with a call pending, filled lists mean that `wk_life` is up
  have hup (hne : s.pcap.md.vec ≠ [] ∨ s.pcap.vecDump ≠ []) : s.pcap.wkLife = true := (hl.lit hne).resolve_right hnot
  cases m with
  | setWkPp v => exact ⟨hguard.2, fun wk hw => hset ▸ hphase wk hw, fun hne => .inl (hup hne), hl.file⟩
  | setWkFlag set => exact ⟨hguard.2, fun wk hw => hset ▸ hphase wk hw, fun hne => .inl (hup hne), hl.file⟩
  | updateMd row => exact ⟨hguard.2, fun wk hw => hset ▸ hphase wk hw, fun _ => .inl (hguard.1 rfl), hl.file⟩
  | dumpPushBack e => exact ⟨hguard.2, fun wk hw => hset ▸ hphase wk hw, fun _ => .inl (hguard.1 rfl), hl.file⟩
  | clearWkPp v =>
    refine ⟨hguard.2, fun wk hw => ?_, fun hne => .inl (hup hne), hl.file⟩
    rw [hset]
    obtain ⟨wk₀, hw₀, ⟨_, rfl⟩ | ⟨_, rfl⟩⟩ := Lists.getElem?_modify_eq_some hw
    · exact (hphase wk₀ hw₀).unblock
    · exact hphase wk hw₀
  | setWkLife set =>
    refine ⟨hguard.2, fun wk hw => hset ▸ hphase wk hw, fun hne => ?_, hl.file⟩
    cases set with
    | true => exact .inl rfl
    | false =>
      right
      have hlen : w < s.workers.length := by rw [hc.length]; exact Nat.lt_succ_self w
      obtain ⟨wk, hw⟩ : ∃ wk, s.workers[w]? = some wk := ⟨_, List.getElem?_eq_getElem hlen⟩
      have hnum : wk.num ≠ 0 := by
        rw [hc.num wk hw]
        intro hz
        have hnil := List.length_eq_zero_iff.1 hz
        have he := hc.entries
        rw [hnil] at hrows he
        rcases hne with hne | hne
        · exact hne (List.append_eq_nil_iff.1 hrows).1
        · exact hne (List.append_eq_nil_iff.1 he).1
      have hok := hl.phase wk hw
      rw [hq] at hok
      -- only a finished worker has its end queued, and nothing behind it
      have hfin : wk.phase = .finished ∧ q = [] := by
        unfold Worker.LifeOk at hok
        split at hok
        · rename_i hph
          refine ⟨hph, ?_⟩
          have hlast := hok.resolve_left hnum
          cases q with
          | nil => rfl
          | cons m' q => exact absurd List.mem_cons_self hlast
        · exact absurd hok hnum
        · exact absurd List.mem_cons_self hok.1
      refine ⟨fun wk' hwk' => ?_, hfin.2⟩
      obtain ⟨j, hj⟩ := List.mem_iff_getElem?.1 hwk'
      by_cases hjw : j = w
      · subst hjw
        rw [show s.workers[j]? = some wk' from hj] at hw
        cases hw
        exact hfin.1
      · exact hc.others j wk' hj hjw

/-- A worker's action keeps it: it stores nothing, and posts rows only while `wk_life` settles up. -/
theorem Sys.Lit.work (hl : s.Lit w) {b : WkAct} (hs : s.work h w b = some s') : s'.Lit w := by
  have hfin {wk : Worker} (hw : s.workers[w]? = some wk) (ha : wk.phase.alive = true) : ¬ s.Idle := fun hidle => by
    rw [hidle.1 wk (List.mem_of_getElem? hw)] at ha
    cases ha
  obtain ⟨wk, wk', hw, ⟨hq, rfl⟩ | ⟨_, m, hp, rfl⟩⟩ := Sys.work_cases hs
  · refine ⟨hl.guarded, fun wk₀ hw₀ => ?_, fun hne => .inl ((hl.lit hne).resolve_right (hfin hw hq.was_busy.2)), hl.file⟩
    rw [Lists.getElem?_set_of_some hw] at hw₀
    cases hw₀
    exact (hl.phase wk hw).quiet hq
  · obtain ⟨hok, hstores⟩ := (hl.phase wk hw).post hp
    refine ⟨Lists.guarded_snoc.2 ⟨hl.guarded, hstores⟩, fun wk₀ hw₀ => ?_,
      fun hne => .inl ((hl.lit hne).resolve_right (hfin hw hp.was_busy.2)), hl.file⟩
    rw [Lists.getElem?_set_of_some hw] at hw₀
    cases hw₀
    exact hok

theorem Sys.Lit.stopTh (hl : s.Lit w) : s.stopTh.Lit w := by
  cases hp : s.pcap.wkPp with
  | none =>
    rw [Sys.stopTh_of_none hp]
    exact hl
  | some v =>
    rw [Sys.stopTh_of_handle hp]
    refine ⟨hl.guarded, fun wk hw => ?_, fun hne => (hl.lit hne).imp id fun hidle => ⟨fun wk hwk => ?_, hidle.2⟩, hl.file⟩
    · obtain ⟨wk₀, hw₀, ⟨_, rfl⟩ | ⟨_, rfl⟩⟩ := Lists.getElem?_modify_eq_some hw
      · exact (hl.phase wk₀ hw₀).brk
      · exact hl.phase wk hw₀
    · obtain ⟨j, hj⟩ := List.mem_iff_getElem?.1 hwk
      obtain ⟨wk₀, hj₀, ⟨_, rfl⟩ | ⟨_, rfl⟩⟩ := Lists.getElem?_modify_eq_some hj
      · exact hidle.1 wk₀ (List.mem_of_getElem? hj₀)
      · exact hidle.1 wk (List.mem_of_getElem? hj₀)

/-! ## The whole capture -/

/-- A step of a live capture with its toolbar: no `reset_md` once the capture is over. -/
def Act.duringCapture (s : Sys) : Act → Prop
  | .stopTh | .deliver | .worker .. => True
  | .resetMd => ¬ s.Idle
  | _ => False

instance (s : Sys) (a : Act) : Decidable (a.duringCapture s) :=
  match a with
  | .stopTh | .deliver | .worker .. => isTrue trivial
  | .resetMd => inferInstanceAs (Decidable (¬ s.Idle))
  | .createTh .. | .sort .. | .pcapFileRead _ => isFalse id

/-- A `reset_md` leaves the state as it is. -/
def Act.resetStays (s : Sys) : Act → Prop
  | .resetMd => s.resetMd = s
  | _ => True

/-- What holds while worker `w` captures and has taken `fs`. -/
structure Sys.LiveInv (h : Host) (s : Sys) (w : Nat) (fs : List Frame) : Prop where
  capturing : s.Capturing h w fs
  rows : s.rows = (stored h (.live w) 0 fs).map Prod.fst
  lit : s.Lit w

theorem Sys.LiveInv.step (hi : s.LiveInv h w fs) (hd : a.duringCapture s) (hs : Sys.step h s a = some s') :
    s'.LiveInv h w (fs ++ a.frames) := by
  -- apart from `reset_md`, the step is one of a capture and not a sort
  have hstep (hk : a.inCapture = true) (hns : ∀ col sorted, a ≠ .sort col sorted) (hlit : s'.Lit w) :
      s'.LiveInv h w (fs ++ a.frames) := by
    refine ⟨hi.capturing.step hk hs, ?_, hlit⟩
    rw [(hi.capturing.flow hk hs).2 hns, hi.rows, stored_append, Nat.zero_add, ← hi.capturing.taken_eq hk hs,
      List.map_append]
  cases a with
  | stopTh =>
    refine hstep rfl nofun ?_
    cases hs
    exact hi.lit.stopTh
  | deliver =>
    refine hstep rfl nofun ?_
    obtain ⟨m, q, hq, rfl⟩ := Sys.deliver_cases hs
    exact hi.lit.call hi.capturing hi.rows hq
  | worker v b =>
    refine hstep rfl nofun ?_
    obtain rfl := hi.capturing.worker_eq hs
    exact hi.lit.work hs
  | resetMd =>
    cases hs
    rw [hi.lit.resetMd hd, show fs ++ Act.resetMd.frames = fs from List.append_nil fs]
    exact hi
  | createTh _ _ => cases hd
  | sort _ _ => cases hd
  | pcapFileRead _ => cases hd

/-- `create_Th` starts a live capture that has taken nothing. -/
theorem Sys.Idle.liveInv (hidle : s.Idle) {nicName : String} (ft : String) (hn : nicName.isEmpty = false) :
    (s.createTh nicName ft).LiveInv h s.workers.length [] := by
  obtain ⟨hcap, hrows⟩ := hidle.capturing (h := h) ft hn
  refine ⟨hcap, hrows, ?_⟩
  rw [s.createTh_of_name ft hn]
  refine ⟨by rw [hidle.2]; trivial, fun wk hw => ?_, fun hne => by simp at hne, rfl⟩
  simp only [List.getElem?_concat_length, Option.some.injEq] at hw
  subst hw
  rw [hidle.2]
  exact ⟨List.not_mem_nil, rfl⟩

theorem Sys.LiveInv.run {acts : List Act} (hi : s.LiveInv h w fs)
    (hd : Lts.Along (Sys.step h) (fun s a => a.duringCapture s) s acts) (hr : Lts.run (Sys.step h) s acts = some s') :
    s'.LiveInv h w (fs ++ acts.flatMap Act.frames) := by
  refine Lts.run_ind_along (motive := fun as s => s.LiveInv h w (fs ++ as.flatMap Act.frames)) ?_ ?_ hd hr
  · rwa [List.flatMap_nil, List.append_nil]
  · intro as s a s' hi hd hs
    rw [List.flatMap_append, List.flatMap_singleton, ← List.append_assoc]
    exact hi.step hd hs

/-- During the capture no `reset_md` has an effect. -/
theorem Sys.LiveInv.resets {acts : List Act} (hi : s.LiveInv h w fs)
    (hd : Lts.Along (Sys.step h) (fun s a => a.duringCapture s) s acts) :
    Lts.Along (Sys.step h) (fun s a => a.resetStays s) s acts := by
  refine Lts.along_of_along (I := fun s => ∃ fs, s.LiveInv h w fs) ?_ ?_ ⟨fs, hi⟩ hd
  · rintro s a s' ⟨fs, hi⟩ hd hs
    exact ⟨fs ++ a.frames, hi.step hd hs⟩
  · rintro s a ⟨fs, hi⟩ hd
    cases a with
    | resetMd => exact hi.lit.resetMd hd
    | _ => trivial

/-- **Live capture equals file reading.** A capture started where no worker is alive and nothing is
pending, with `stop_Th` and `reset_md` interleaved in any way before it is over, ends with the rows
and entries that reading its frames from a file leaves in empty lists, numbered from 0; and none of
the `reset_md` calls has an effect. The numbers are those of the `int` counters while fewer than `2 ^ 31`
packets are accepted. -/
theorem live_capture_eq_file_read {s₀ : Sys} (hidle : s₀.Idle) {nicName ft : String} (hn : nicName.isEmpty = false)
    {acts : List Act} (hr : Lts.run (Sys.step h) (s₀.createTh nicName ft) acts = some s)
    (hd : Lts.Along (Sys.step h) (fun s a => a.duringCapture s) (s₀.createTh nicName ft) acts) (hend : s.Idle)
    {p : Pcap} (hp : p.md.vec = [] ∧ p.vecDump = [] ∧ p.num = 0) (src : Source) :
    Lts.Along (Sys.step h) (fun s a => a.resetStays s) (s₀.createTh nicName ft) acts ∧
    ∃ p', p.pcapFileRead h src (acts.flatMap Act.frames) = some p' ∧
      s.pcap.md.vec.map Row.pkt = p'.md.vec.map Row.pkt ∧
      s.pcap.vecDump.map Entry.dump = p'.vecDump.map Entry.dump ∧
      p'.md.vec.map (fun r => r.pkt.num) = List.range p'.md.vec.length := by
  have hstart := hidle.liveInv (h := h) ft hn
  refine ⟨hstart.resets hd, ?_⟩
  have hi := hstart.run hd hr
  rw [List.nil_append] at hi
  obtain ⟨hpr, hpe⟩ := hend.nonePending
  have hrows := hi.rows
  have hentries := hi.capturing.entries
  rw [Sys.rows, hpr, List.append_nil] at hrows
  rw [Sys.entries, hpe, List.append_nil] at hentries
  refine ⟨_, Pcap.pcapFileRead_eq p _, ?_⟩
  rw [hp.1, hp.2.1, hp.2.2, hrows, hentries]
  have hsrc := stored_src h (.live s₀.workers.length) src 0 (acts.flatMap Act.frames)
  have hnums : (stored h src 0 (acts.flatMap Act.frames)).map (fun p => p.1.pkt.num) = _ := nums_stored
  refine ⟨?_, ?_, ?_⟩
  · simpa [Function.comp_def] using congrArg (List.map Prod.fst) hsrc
  · simpa [Function.comp_def] using congrArg (List.map Prod.snd) hsrc
  · simpa [List.range_eq_range', Function.comp_def] using hnums

/-- A frame too short for an Ethernet header. -/
def emptyFrame : Frame where
  header := { caplen := 0, len := 0 }
  packet := []
  captured := rfl
  after _ := 0

/-- A capture of two packets and a rejected frame, with a Stop and three Resets in between. -/
def stoppedCapture : List Act :=
  [.resetMd, .worker 0 (.openLive true), .worker 0 .post, .worker 0 .post, .worker 0 .enterLoop, .deliver,
    .worker 0 (.packet (udpFrame 42)), .worker 0 .post, .resetMd, .deliver, .deliver, .worker 0 .post,
    .worker 0 (.packet emptyFrame), .worker 0 (.packet (udpFrame 60)), .stopTh, .worker 0 .post, .deliver, .resetMd,
    .worker 0 .post, .worker 0 .loopBreak, .worker 0 .close, .worker 0 .post, .deliver, .deliver, .deliver,
    .worker 0 .post, .resetMd, .deliver]

/-- The capture leaves two rows, those of the file with its frames. -/
theorem live_capture_eq_file_read_stopped : ∃ s,
    Lts.run (Sys.step .little) (Sys.init.createTh "eth0" "") stoppedCapture = some s ∧ s.pcap.md.vec.length = 2 ∧
      ∃ p', Pcap.pcapFileRead .little (.file 0) {} (stoppedCapture.flatMap Act.frames) = some p' ∧
        s.pcap.md.vec.map Row.pkt = p'.md.vec.map Row.pkt := by
  obtain ⟨s, hs, hlen, hend⟩ : ∃ s,
      Lts.run (Sys.step .little) (Sys.init.createTh "eth0" "") stoppedCapture = some s ∧ s.pcap.md.vec.length = 2 ∧
        s.Idle := Lts.run_reaches (by decide +kernel)
  obtain ⟨_, p', hp', hrows, _⟩ := live_capture_eq_file_read (show Sys.init.Idle by decide) (by decide) hs
    (by decide +kernel) hend (p := {}) ⟨rfl, rfl, rfl⟩ (.file 0)
  exact ⟨s, hs, hlen, p', hp', hrows⟩

end MiniWireshark

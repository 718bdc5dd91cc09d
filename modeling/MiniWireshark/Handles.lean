import MiniWireshark.Lib.Lists
import MiniWireshark.Steps

/-!
# The cached capture handle (`Pcap.cpp:281-346`, `:404-430`)

A worker opens its handle, posts it, closes it after its loop and only then posts the null pointer
that clears the cache. `HandleInv` says where the worker of a cached or queued handle can be, and
that a worker's clearing is its last word about its handle; `HeardInv` reads the cache and the break
flags off the order in which handles were delivered and `stop_Th` was called.

| here | meaning |
| --- | --- |
| `Sys.At s w P`        | worker `w` exists and its phase meets `P` |
| `Phase.isOpen`        | `pcap_open_live` has succeeded and `pcap_close` has not been called |
| `Phase.posted`        | `set_wk_pp(pp)` has been posted and the final clearing not delivered |
| `Phase.pastLoop`      | no further packet: `pcap_loop` has returned, or is never entered |
| `Act.onStop P`        | a condition on the states in which `stop_Th` is called |
| `handleTrace h acts` | what happens to the cache in a run, and the calls of `stop_Th` |
| `Heard w evs`         | a `stop_Th` came while the handle of worker `w` was the last one delivered |
-/

namespace MiniWireshark

/-! ## Phases -/

def Phase.isOpen : Phase → Bool
  | .opened | .ppPosted | .lifePosted | .compiled | .looping | .reading | .handling _ _ | .mdPosted _ | .left => true
  | _ => false

/-- `pcap_close` has been called and the clearing not delivered. -/
def Phase.shut : Phase → Bool
  | .closed | .blocked => true
  | _ => false

def Phase.posted : Phase → Bool
  | .opened => false
  | ph => ph.isOpen || ph.shut

def Phase.pastLoop : Phase → Bool
  | .openFailed | .failPosted | .left | .closed | .blocked | .cleared | .finished => true
  | _ => false

/-- The worker accepts no further packet: it is past its loop, or was called back after it was told. -/
def Worker.Spent (wk : Worker) : Prop := wk.late = true ∨ wk.phase.pastLoop = true

instance (wk : Worker) : Decidable wk.Spent := inferInstanceAs (Decidable (_ ∨ _))

/-- No step gives a spent worker another packet. -/
theorem Sys.Moved.stays_spent {h : Host} {s : Sys} {a : Act} {w : Nat} {wk wk' : Worker}
    (hm : Sys.Moved h s w wk a wk') (hd : wk.Spent) : wk'.Spent := by
  cases hm with
  | same => exact hd
  | told => exact hd
  | unblocked =>
    rcases wk.unblock_cases with ⟨_, he⟩ | he
    · rw [he]
      exact .inr rfl
    · rwa [he]
  | quiet hq =>
    cases hq with
    | openLive ok hp => cases ok <;> simp_all [Worker.Spent, Phase.pastLoop]
    | compile ok hp => cases ok <;> simp_all [Worker.Spent, Phase.pastLoop]
    | setfilter ok hp => cases ok <;> simp_all [Worker.Spent, Phase.pastLoop]
    | reject f hp hl ha => rcases hp with hp | hp <;> simp_all [Worker.Spent, Phase.pastLoop]
    | accept f pkt hp hl ha => rcases hp with hp | hp <;> simp_all [Worker.Spent, Phase.pastLoop]
    | _ => simp_all [Worker.Spent, Phase.pastLoop]
  | post hp => cases hp <;> simp_all [Worker.Spent, Phase.pastLoop]

/-- Worker `w` exists and its phase meets `P`. -/
def Sys.At (s : Sys) (w : Nat) (P : Phase → Bool) : Prop := (s.workers[w]?).any (fun wk => P wk.phase) = true

instance (s : Sys) (w : Nat) (P : Phase → Bool) : Decidable (s.At w P) := inferInstanceAs (Decidable (_ = true))

theorem Sys.at_iff {s : Sys} {w : Nat} {P : Phase → Bool} :
    s.At w P ↔ ∃ wk, s.workers[w]? = some wk ∧ P wk.phase = true := Option.any_eq_true _ _

def Phase.alive : Phase → Bool
  | .finished => false
  | _ => true

/-- A worker that moves keeps `P` if its own move does. -/
theorem Sys.At.set {s s' : Sys} {v w : Nat} {P : Phase → Bool} {wk wk' : Worker} (hs : s'.workers = s.workers.set v wk')
    (hv : s.workers[v]? = some wk) (hat : s.At w P) (hP : v = w → P wk.phase = true → P wk'.phase = true) :
    s'.At w P := by
  obtain ⟨wk₀, hw, hP₀⟩ := Sys.at_iff.1 hat
  rw [Sys.at_iff, hs]
  by_cases hvw : v = w
  · subst hvw
    rw [hv] at hw
    cases hw
    exact ⟨wk', Lists.getElem?_set_of_some hv wk', hP rfl hP₀⟩
  · exact ⟨wk₀, by rw [List.getElem?_set_ne hvw, hw], hP₀⟩

/-- Changing one worker keeps `P` where the change does. -/
theorem Sys.At.modify {s s' : Sys} {v w : Nat} {P : Phase → Bool} {f : Worker → Worker}
    (hs : s'.workers = s.workers.modify v f) (hat : s.At w P)
    (hP : v = w → ∀ wk, P wk.phase = true → P (f wk).phase = true) : s'.At w P := by
  obtain ⟨wk, hw, hPw⟩ := Sys.at_iff.1 hat
  rw [Sys.at_iff, hs, List.getElem?_modify, hw]
  by_cases hvw : v = w
  · exact ⟨f wk, by simp [hvw], hP hvw wk hPw⟩
  · exact ⟨wk, by simp [hvw], hPw⟩

theorem Sys.At.of_modify {s s' : Sys} {v w : Nat} {P : Phase → Bool} {f : Worker → Worker}
    (hs : s'.workers = s.workers.modify v f) (hat : s'.At w P)
    (hP : ∀ wk, P (f wk).phase = true → P wk.phase = true) : s.At w P := by
  obtain ⟨wk, hw, hPw⟩ := Sys.at_iff.1 hat
  rw [hs] at hw
  obtain ⟨wk₀, hw₀, ⟨_, rfl⟩ | ⟨_, rfl⟩⟩ := Lists.getElem?_modify_eq_some hw
  · exact Sys.at_iff.2 ⟨wk₀, hw₀, hP wk₀ hPw⟩
  · exact Sys.at_iff.2 ⟨wk, hw₀, hPw⟩

theorem Sys.At.append {s s' : Sys} {w : Nat} {P : Phase → Bool} {ws : List Worker}
    (hs : s'.workers = s.workers ++ ws) (hat : s.At w P) : s'.At w P := by
  obtain ⟨wk, hw, hPw⟩ := Sys.at_iff.1 hat
  exact Sys.at_iff.2 ⟨wk, by rw [hs, List.getElem?_append_left (List.getElem?_eq_some_iff.1 hw).1, hw], hPw⟩

/-! ## The handle invariant -/

/-- The worker waits in its blocking call. -/
def Phase.waiting : Phase → Bool
  | .blocked => true
  | _ => false

structure Sys.HandleInv (s : Sys) : Prop where
  /-- The cached handle was posted, and its clearing is not delivered. -/
  cached : ∀ w, s.pcap.wkPp = some w → s.At w Phase.posted
  queued : ∀ w, .setWkPp w ∈ s.queue → s.At w Phase.posted
  clearing : ∀ w, .clearWkPp w ∈ s.queue → s.At w Phase.waiting
  /-- Nothing about a handle is queued behind its clearing. -/
  last : s.queue.Pairwise fun m m' => ∀ w, m = .clearWkPp w → m' ≠ .setWkPp w ∧ m' ≠ .clearWkPp w

theorem Worker.Quiet.keeps_posted {h : Host} {w : Nat} {wk wk' : Worker} {a : WkAct}
    (hq : Worker.Quiet h w wk a wk') (hp : wk.phase.posted = true) : wk'.phase.posted = true := by
  cases hq with
  | openLive ok hph => rw [hph] at hp; cases hp
  | compile ok hph => cases ok <;> rfl
  | setfilter ok hph => cases ok <;> rfl
  | _ => rfl

/-- A worker that acts without posting has not finished, and does not wait in its blocking call. -/
theorem Worker.Quiet.was_busy {h : Host} {w : Nat} {wk wk' : Worker} {a : WkAct} (hq : Worker.Quiet h w wk a wk') :
    wk.phase.waiting = false ∧ wk.phase.alive = true := by
  cases hq with
  | reject f hp hl ha => rcases hp with hp | hp <;> simp [hp, Phase.waiting, Phase.alive]
  | accept f pkt hp hl ha => rcases hp with hp | hp <;> simp [hp, Phase.waiting, Phase.alive]
  | loopError hp => rcases hp with hp | hp <;> simp [hp, Phase.waiting, Phase.alive]
  | _ => simp_all [Phase.waiting, Phase.alive]

theorem Worker.Post.keeps_posted {w : Nat} {wk wk' : Worker} {m : Msg} (hpost : Worker.Post w wk m wk')
    (hp : wk.phase.posted = true) : wk'.phase.posted = true := by
  cases hpost <;> rename_i hph <;> rw [hph] at hp <;> first | rfl | cases hp

theorem Worker.Post.was_busy {w : Nat} {wk wk' : Worker} {m : Msg} (hpost : Worker.Post w wk m wk') :
    wk.phase.waiting = false ∧ wk.phase.alive = true := by
  cases hpost <;> rename_i hph <;> simp [hph, Phase.waiting, Phase.alive]

/-- A worker names only its own handle in a call, posts it once and clears it once. -/
theorem Worker.Post.handle {v w : Nat} {wk wk' : Worker} {m : Msg} (hpost : Worker.Post w wk m wk') :
    (m = .setWkPp v → v = w ∧ wk'.phase.posted = true) ∧ (m = .clearWkPp v → v = w ∧ wk'.phase.waiting = true) := by
  cases hpost <;> constructor <;> intro hm <;> cases hm <;> exact ⟨rfl, rfl⟩

theorem Sys.HandleInv.init : Sys.init.HandleInv where
  cached _ hc := by cases hc
  queued _ hq := by cases hq
  clearing _ hq := by cases hq
  last := .nil

/-- Delivery of a call keeps the invariant. -/
theorem Sys.HandleInv.call {s : Sys} {m : Msg} {q : List Msg} (hi : s.HandleInv) (hq : s.queue = m :: q) :
    (s.call q m).HandleInv := by
  have hmem : ∀ m' ∈ q, m' ∈ s.queue := fun m' hm => hq ▸ List.mem_cons_of_mem m hm
  have hqueued (w : Nat) (hw : .setWkPp w ∈ q) : s.At w Phase.posted := hi.queued w (hmem _ hw)
  have hclearing (w : Nat) (hw : .clearWkPp w ∈ q) : s.At w Phase.waiting := hi.clearing w (hmem _ hw)
  have hlast := hi.last
  rw [hq, List.pairwise_cons] at hlast
  cases m with
  | setWkPp v =>
    refine ⟨fun w hc => ?_, hqueued, hclearing, hlast.2⟩
    cases hc
    exact hi.queued v (by rw [hq]; exact List.mem_cons_self)
  | clearWkPp v =>
    refine ⟨fun w hc => absurd hc nofun, fun w hw => ?_, fun w hw => ?_, hlast.2⟩
    -- what is still queued is about other handles, so the unblocked worker is another one
    · exact (hqueued w hw).modify rfl fun hvw => absurd (hvw ▸ rfl) ((hlast.1 _ hw v rfl).1)
    · exact (hclearing w hw).modify rfl fun hvw => absurd (hvw ▸ rfl) ((hlast.1 _ hw v rfl).2)
  | _ => exact ⟨hi.cached, hqueued, hclearing, hlast.2⟩

/-- A worker's posting keeps the invariant. -/
theorem Sys.HandleInv.post {s s' : Sys} {w : Nat} {m : Msg} {wk wk' : Worker} (hi : s.HandleInv)
    (hwk : s.workers[w]? = some wk) (hp : Worker.Post w wk m wk')
    (hs : s' = { s with workers := s.workers.set w wk', queue := s.queue ++ [m] }) : s'.HandleInv := by
  have hset : s'.workers = s.workers.set w wk' := by rw [hs]
  have hself (P : Phase → Bool) (hP : P wk'.phase = true) : s'.At w P :=
    Sys.at_iff.2 ⟨wk', by rw [hset, Lists.getElem?_set_of_some hwk], hP⟩
  have hposted (v : Nat) (hv : s.At v Phase.posted) : s'.At v Phase.posted :=
    hv.set hset hwk fun _ hph => hp.keeps_posted hph
  -- a waiting worker does not post
  have hne (v : Nat) (hv : s.At v Phase.waiting) : w ≠ v := by
    rintro rfl
    obtain ⟨wk₀, hwk₀, hph⟩ := Sys.at_iff.1 hv
    rw [hwk] at hwk₀
    cases hwk₀
    rw [hp.was_busy.1] at hph
    cases hph
  subst hs
  refine ⟨fun v hc => hposted v (hi.cached v hc), fun v hv => ?_, fun v hv => ?_, ?_⟩
  · rcases List.mem_append.1 hv with hv | hv
    · exact hposted v (hi.queued v hv)
    · obtain ⟨rfl, hph⟩ := hp.handle.1 (List.mem_singleton.1 hv).symm
      exact hself _ hph
  · rcases List.mem_append.1 hv with hv | hv
    · have hat := hi.clearing v hv
      exact hat.set hset hwk fun hwv _ => absurd hwv (hne v hat)
    · obtain ⟨rfl, hph⟩ := hp.handle.2 (List.mem_singleton.1 hv).symm
      exact hself _ hph
  · refine List.pairwise_append.2 ⟨hi.last, List.pairwise_singleton _ _, fun m₀ hm₀ m₁ hm₁ v hv => ?_⟩
    subst hv
    have hwv := hne v (hi.clearing v hm₀)
    cases List.mem_singleton.1 hm₁
    exact ⟨fun hm => hwv (hp.handle.1 hm).1.symm, fun hm => hwv (hp.handle.2 hm).1.symm⟩

/-- **Every step keeps the handle invariant.** -/
theorem Sys.HandleInv.step {h : Host} {s s' : Sys} {a : Act} (hi : s.HandleInv) (hs : Sys.step h s a = some s') :
    s'.HandleInv := by
  cases Sys.step_move hs with
  | still _ hc =>
    have hat (w : Nat) (P : Phase → Bool) (hw : s.At w P) : s'.At w P := by rw [Sys.At, hc.workers]; exact hw
    refine ⟨fun w hw => hat w _ (hi.cached w (hc.wkPp ▸ hw)), fun w hw => hat w _ (hi.queued w (hc.queue ▸ hw)),
      fun w hw => hat w _ (hi.clearing w (hc.queue ▸ hw)), ?_⟩
    rw [hc.queue]
    exact hi.last
  | start nicName ft hn =>
    rw [s.createTh_of_name ft hn]
    exact ⟨fun w hw => (hi.cached w hw).append rfl, fun w hw => (hi.queued w hw).append rfl,
      fun w hw => (hi.clearing w hw).append rfl, hi.last⟩
  | stop v hv =>
    rw [Sys.stopTh_of_handle hv]
    exact ⟨fun w hw => (hi.cached w hw).modify rfl fun _ _ hP => hP,
      fun w hw => (hi.queued w hw).modify rfl fun _ _ hP => hP,
      fun w hw => (hi.clearing w hw).modify rfl fun _ _ hP => hP, hi.last⟩
  | call m q hq => exact hi.call hq
  | quiet v hv hq =>
    refine ⟨fun w hw => (hi.cached w hw).set rfl hv fun _ => hq.keeps_posted,
      fun w hw => (hi.queued w hw).set rfl hv fun _ => hq.keeps_posted,
      fun w hw => (hi.clearing w hw).set rfl hv fun _ hph => ?_, hi.last⟩
    rw [hq.was_busy.1] at hph
    cases hph
  | post v hv hp => exact hi.post hv hp rfl

/-- Runs of the views start and stay within the invariant. -/
theorem Sys.HandleInv.run {h : Host} {acts : List Act} {s : Sys} (hr : Lts.run (Sys.step h) Sys.init acts = some s) :
    s.HandleInv := Lts.run_invariant' (fun _ _ _ hi hs => Sys.HandleInv.step hi hs) Sys.HandleInv.init hr

/-! ## `stop_Th` and closed handles -/

/-- `P` holds of the state in which `stop_Th` is called. -/
def Act.onStop (P : Sys → Prop) (s : Sys) : Act → Prop
  | .stopTh => P s
  | _ => True

instance (P : Sys → Prop) [DecidablePred P] (s : Sys) (a : Act) : Decidable (a.onStop P s) :=
  match a with
  | .stopTh => inferInstanceAs (Decidable (P s))
  | .createTh .. | .resetMd | .pcapFileRead _ | .sort .. | .deliver | .worker .. => isTrue trivial

/-- The handle that `pcap_breakloop` would be called on is open. -/
def Sys.StopsOpenHandle (s : Sys) : Prop :=
  match s.pcap.wkPp with
  | none => True
  | some w => s.At w Phase.isOpen

/-- The worker of the cached handle is not between its `pcap_close` and the delivery of its clearing. -/
def Sys.NotShut (s : Sys) : Prop :=
  match s.pcap.wkPp with
  | none => True
  | some w => ¬ s.At w Phase.shut

instance : DecidablePred Sys.StopsOpenHandle := fun s => by
  unfold Sys.StopsOpenHandle
  exact match s.pcap.wkPp with
    | none => isTrue trivial
    | some w => inferInstanceAs (Decidable (s.At w Phase.isOpen))

theorem Sys.HandleInv.stopsOpenHandle_iff {s : Sys} (hi : s.HandleInv) : s.StopsOpenHandle ↔ s.NotShut := by
  unfold Sys.StopsOpenHandle Sys.NotShut
  cases hp : s.pcap.wkPp with
  | none => exact Iff.rfl
  | some w =>
    obtain ⟨wk, hw, hph⟩ := Sys.at_iff.1 (hi.cached w hp)
    simp only [Sys.At, hw, Option.any_some]
    cases hk : wk.phase <;> simp_all [Phase.posted, Phase.isOpen, Phase.shut]

/-- **Closed handles, exactly.** In every run (those under the views are runs, `Ui.run_calls`), each
`stop_Th` finds an open handle or none iff none is called while the worker of the cached handle has
closed it and its clearing is not delivered. -/
theorem stop_uses_open_handle_iff (h : Host) (acts : List Act) :
    Lts.Along (Sys.step h) (fun s a => a.onStop Sys.StopsOpenHandle s) Sys.init acts ↔
      Lts.Along (Sys.step h) (fun s a => a.onStop Sys.NotShut s) Sys.init acts := by
  refine Lts.along_congr (I := Sys.HandleInv) (fun _ _ _ hi hs => hi.step hs) (fun s a hi => ?_) Sys.HandleInv.init
  cases a with
  | stopTh => exact hi.stopsOpenHandle_iff
  | _ => exact Iff.rfl

/-- A capture whose loop fails, stopped before the clearing arrives. -/
def stopAfterClose : List UiAct :=
  [.openLive "eth0", .start "eth0" "", .worker 0 (.openLive true), .worker 0 .post, .deliver, .worker 0 .post,
    .worker 0 .enterLoop, .worker 0 .loopError, .worker 0 .close, .stop]

/-- Stop is pressed after `pcap_close` and before the null pointer is delivered. -/
theorem stop_after_close : (∃ u, Lts.run (Ui.step .little) Ui.init stopAfterClose = some u ∧ u.sys.pcap.stopFlag = true) ∧
    ¬ Lts.Along (Sys.step .little) (fun s a => a.onStop Sys.StopsOpenHandle s) Sys.init
      (stopAfterClose.flatMap UiAct.calls) :=
  ⟨Lts.run_reaches (by decide +kernel), by decide +kernel⟩

/-! ## `stop_Th` and running workers -/

/-- Every worker has been told to stop or takes no further packet. -/
def Sys.AllTold (s : Sys) : Prop := ∀ wk ∈ s.workers, wk.brk = true ∨ wk.phase.pastLoop = true

instance : DecidablePred Sys.AllTold := fun s =>
  inferInstanceAs (Decidable (∀ wk ∈ s.workers, wk.brk = true ∨ wk.phase.pastLoop = true))

/-- What happens to the cached handle: `set_wk_pp(pp)` of worker `w` is delivered, a null pointer is, or
`stop_Th` uses it. -/
inductive HandleEvent where
  | set (w : Nat)
  | clear
  | stop
deriving DecidableEq, Repr

def Sys.handleEvents (s : Sys) : Act → List HandleEvent
  | .stopTh => [.stop]
  | .deliver => match s.queue.head? with
    | some (.setWkPp w) => [.set w]
    | some (.clearWkPp _) => [.clear]
    | _ => []
  | _ => []

/-- The handle events of a run, in order. -/
def handleTrace (h : Host) (acts : List Act) : List HandleEvent :=
  Lts.trace (Sys.step h) Sys.handleEvents Sys.init acts

/-- A `stop_Th` came after the handle of worker `w` was delivered and before the cache changed again. -/
def Heard (w : Nat) (evs : List HandleEvent) : Prop := [.set w, .stop] <:+: evs

instance (w : Nat) (evs : List HandleEvent) : Decidable (Heard w evs) := inferInstanceAs (Decidable (_ <:+: _))

/-- Worker `w` has been started and is not past its loop. -/
def Sys.Running (s : Sys) (w : Nat) : Prop := s.At w fun ph => !ph.pastLoop

instance (s : Sys) (w : Nat) : Decidable (s.Running w) := inferInstanceAs (Decidable (s.At _ _))

/-- What the handle events `evs` so far say of the cache and of the break flags. -/
structure Sys.HeardInv (s : Sys) (evs : List HandleEvent) : Prop where
  handle : s.HandleInv
  /-- The cached handle came last, or a stop has used it. -/
  cached : ∀ w, s.pcap.wkPp = some w → evs.getLast? = some (.set w) ∨ Heard w evs
  latest : ∀ w, evs.getLast? = some (.set w) → s.pcap.wkPp = some w
  known : ∀ w, .set w ∈ evs → w < s.workers.length
  told : ∀ w wk, s.workers[w]? = some wk → (wk.brk = true ↔ Heard w evs)

section
variable {h : Host} {s s' : Sys} {a : Act} {w : Nat} {evs : List HandleEvent}

theorem heard_concat {e : HandleEvent} :
    Heard w (evs ++ [e]) ↔ Heard w evs ∨ evs.getLast? = some (.set w) ∧ e = .stop := by
  rw [Heard, Lists.infix_pair_concat, @eq_comm _ HandleEvent.stop]
  rfl

theorem Heard.mem (hw : Heard w evs) : .set w ∈ evs := hw.subset List.mem_cons_self

/-- Only a stop with its handle cached changes a worker's break flag. -/
theorem Sys.Moved.brk_eq {wk wk' : Worker} (hm : Sys.Moved h s w wk a wk') :
    wk'.brk = true ↔ wk.brk = true ∨ a = .stopTh ∧ s.pcap.wkPp = some w := by
  cases hm with
  | same hne =>
    refine ⟨.inl, ?_⟩
    rintro (hb | ⟨ha, hw⟩)
    · exact hb
    · exact absurd hw (hne ha)
  | told hw => simp [hw]
  | unblocked => rcases wk.unblock_cases with ⟨_, he⟩ | he <;> simp [he]
  | quiet hq => cases hq <;> simp
  | post hp => cases hp <;> simp

/-- The handle events of one step, by what they do to the cache. -/
theorem Sys.handleEvents_cases (hs : Sys.step h s a = some s') :
    (s.handleEvents a = [] ∧ a ≠ .stopTh ∧ s'.pcap.wkPp = s.pcap.wkPp) ∨
    (∃ v, s.handleEvents a = [.set v] ∧ a ≠ .stopTh ∧ s'.pcap.wkPp = some v ∧ .setWkPp v ∈ s.queue) ∨
    (s.handleEvents a = [.clear] ∧ a ≠ .stopTh ∧ s'.pcap.wkPp = none) ∨
    (s.handleEvents a = [.stop] ∧ a = .stopTh ∧ s'.pcap.wkPp = s.pcap.wkPp) := by
  cases Sys.step_move hs with
  | @still a _ hstill hc =>
    cases a with
    | stopTh => exact .inr (.inr (.inr ⟨rfl, rfl, hc.wkPp⟩))
    | deliver => exact hstill.elim
    | _ => exact .inl ⟨rfl, nofun, hc.wkPp⟩
  | start nicName ft hn => exact .inl ⟨rfl, nofun, by rw [s.createTh_of_name ft hn]⟩
  | stop v hv => exact .inr (.inr (.inr ⟨rfl, rfl, by rw [Sys.stopTh_of_handle hv]⟩))
  | call m q hq =>
    cases m with
    | setWkPp v => exact .inr (.inl ⟨v, by simp [Sys.handleEvents, hq], nofun, rfl, by simp [hq]⟩)
    | clearWkPp v => exact .inr (.inr (.inl ⟨by simp [Sys.handleEvents, hq], nofun, rfl⟩))
    | _ => exact .inl ⟨by simp [Sys.handleEvents, hq], nofun, rfl⟩
  | quiet v hv hq => exact .inl ⟨rfl, nofun, rfl⟩
  | post v hv hp => exact .inl ⟨rfl, nofun, rfl⟩

/-- A break flag says what the handle events say, if they do so of the flags before the step. -/
theorem Sys.HeardInv.told_step (hi : s.HeardInv evs) (hs : Sys.step h s a = some s')
    (hevs : Heard w (evs ++ s.handleEvents a) ↔ Heard w evs ∨ a = .stopTh ∧ s.pcap.wkPp = some w) {wk' : Worker}
    (hw' : s'.workers[w]? = some wk') : wk'.brk = true ↔ Heard w (evs ++ s.handleEvents a) := by
  rw [hevs]
  rcases Sys.step_worker hs hw' with ⟨wk, hw, hm⟩ | ⟨hlen, nicName, ft, hn, rfl, rfl⟩
  · rw [hm.brk_eq, hi.told w wk hw]
  · -- a worker just started has no handle yet
    have hno : ¬ Heard w evs := fun hh => absurd (hi.known w hh.mem) (by omega)
    simp [hno]

/-- **Every step keeps what the handle events say.** -/
theorem Sys.HeardInv.step (hi : s.HeardInv evs) (hs : Sys.step h s a = some s') :
    s'.HeardInv (evs ++ s.handleEvents a) := by
  have hh := hi.handle.step hs
  have hlen := Sys.step_length hs
  have htold {w : Nat} (hevs : Heard w (evs ++ s.handleEvents a) ↔ Heard w evs ∨ a = .stopTh ∧ s.pcap.wkPp = some w)
      (wk' : Worker) (hw' : s'.workers[w]? = some wk') := hi.told_step hs hevs hw'
  rcases Sys.handleEvents_cases hs with ⟨he, ha, hp⟩ | ⟨v, he, ha, hp, hmem⟩ | ⟨he, ha, hp⟩ | ⟨he, rfl, hp⟩
  · rw [he, List.append_nil] at htold ⊢
    exact ⟨hh, hp ▸ hi.cached, hp ▸ hi.latest, fun w hw => (hi.known w hw).trans_le hlen, fun w => htold (by simp [ha])⟩
  · have hv : v < s.workers.length := by
      obtain ⟨wk, hv, _⟩ := Sys.at_iff.1 (hi.handle.queued v hmem)
      exact (List.getElem?_eq_some_iff.1 hv).1
    rw [he] at htold ⊢
    refine ⟨hh, fun w hw => ?_, fun w hw => ?_, fun w hw => ?_, fun w => htold ?_⟩
    · rw [hp] at hw
      cases hw
      exact .inl List.getLast?_concat
    · rw [List.getLast?_concat] at hw
      cases hw
      exact hp
    · rcases List.mem_append.1 hw with hw | hw
      · exact (hi.known w hw).trans_le hlen
      · cases List.mem_singleton.1 hw
        exact hv.trans_le hlen
    · simp [heard_concat, ha]
  · rw [he] at htold ⊢
    refine ⟨hh, fun w hw => by simp [hp] at hw, fun w hw => by simp at hw, fun w hw => ?_, fun w => htold ?_⟩
    · rcases List.mem_append.1 hw with hw | hw
      · exact (hi.known w hw).trans_le hlen
      · cases List.mem_singleton.1 hw
    · simp [heard_concat, ha]
  · rw [he] at htold ⊢
    have hused (w : Nat) : Heard w (evs ++ [.stop]) ↔ Heard w evs ∨ s.pcap.wkPp = some w := by
      rw [heard_concat]
      constructor
      · exact Or.imp_right fun hl => hi.latest w hl.1
      · rintro (hw | hw)
        · exact .inl hw
        · exact (hi.cached w hw).symm.imp_right fun hl => ⟨hl, rfl⟩
    refine ⟨hh, fun w hw => .inr ((hused w).2 (.inr (hp ▸ hw))), fun w hw => by simp at hw, fun w hw => ?_,
      fun w => htold ?_⟩
    · rcases List.mem_append.1 hw with hw | hw
      · exact (hi.known w hw).trans_le hlen
      · cases List.mem_singleton.1 hw
    · simp [hused]

theorem Sys.HeardInv.run {acts : List Act} (hr : Lts.run (Sys.step h) Sys.init acts = some s) :
    s.HeardInv (handleTrace h acts) := by
  refine Lts.run_ind (motive := fun acts s => s.HeardInv (handleTrace h acts)) ?_ (fun acts s a s' hr hi hs => ?_) hr
  · exact ⟨.init, nofun, nofun, nofun, nofun⟩
  · rw [handleTrace, Lts.trace_snoc a hr]
    exact hi.step hs

/-- After a `stop_Th` everyone has been told, or is past its loop, iff every running worker was heard of. -/
theorem Sys.HeardInv.allTold_iff (hi : s.HeardInv evs) : s.AllTold ↔ ∀ w, s.Running w → Heard w evs := by
  constructor
  · intro hall w hrun
    obtain ⟨wk, hw, hp⟩ := Sys.at_iff.1 hrun
    rw [← hi.told w wk hw]
    exact (hall wk (List.mem_of_getElem? hw)).resolve_right (by simpa using hp)
  · intro hall wk hwk
    obtain ⟨w, hw⟩ := List.mem_iff_getElem?.1 hwk
    rw [hi.told w wk hw, or_iff_not_imp_right]
    exact fun hp => hall w (Sys.at_iff.2 ⟨wk, hw, by simpa using hp⟩)

/-- `stop_Th` moves no worker. -/
theorem Sys.running_stopTh (s : Sys) (w : Nat) : s.stopTh.Running w ↔ s.Running w := by
  cases hp : s.pcap.wkPp with
  | none => rw [Sys.stopTh_of_none hp]
  | some v =>
    rw [Sys.stopTh_of_handle hp]
    refine ⟨fun hw => ?_, fun hw => hw.modify rfl fun _ _ hP => hP⟩
    refine hw.of_modify rfl ?_
    exact fun _ hP => hP

end

/-- **Stop reaches every capture, exactly.** In every run, each `stop_Th` leaves every worker told or
past its loop iff at each one every worker that is not past its loop has been heard of: a `stop_Th`, this
one or an earlier one, came between the delivery of its handle and the next change of the cache. -/
theorem stop_reaches_every_worker_iff (h : Host) (acts : List Act) :
    Lts.Along (Sys.step h) (fun s a => a.onStop (fun s => s.stopTh.AllTold) s) Sys.init acts ↔
      ∀ pre s, pre ++ [.stopTh] <+: acts → Lts.run (Sys.step h) Sys.init pre = some s →
        ∀ w, s.Running w → Heard w (handleTrace h (pre ++ [.stopTh])) := by
  have hstop {pre : List Act} {s : Sys} (hr : Lts.run (Sys.step h) Sys.init pre = some s) :
      s.stopTh.AllTold ↔ ∀ w, s.Running w → Heard w (handleTrace h (pre ++ [.stopTh])) := by
    have hr' : Lts.run (Sys.step h) Sys.init (pre ++ [.stopTh]) = some s.stopTh :=
      Lts.run_snoc_eq_some.2 ⟨s, hr, rfl⟩
    rw [(Sys.HeardInv.run hr').allTold_iff]
    exact forall_congr' fun w => imp_congr_left (s.running_stopTh w)
  rw [Lts.along_iff_prefix]
  constructor
  · intro hall pre s hpre hr
    exact (hstop hr).1 (hall pre .stopTh s hpre hr)
  · intro hall pre a s hpre hr
    cases a with
    | stopTh => exact (hstop hr).2 (hall pre s hpre hr)
    | _ => trivial

/-- Stop pressed before the handle is cached, after which the worker captures on. -/
def stopTooEarly : List UiAct :=
  [.openLive "eth0", .start "eth0" "", .worker 0 (.openLive true), .worker 0 .post, .stop, .deliver, .worker 0 .post,
    .worker 0 .enterLoop, .worker 0 (.packet (udpFrame 42))]

/-- A Stop that finds no handle leaves the worker capturing. -/
theorem stop_too_early : (∃ u, Lts.run (Ui.step .little) Ui.init stopTooEarly = some u ∧
      (u.view = .capture "eth0" false ∧ (u.sys.workers.map Worker.num) = [1])) ∧
    ¬ Lts.Along (Sys.step .little) (fun s a => a.onStop (fun s => s.stopTh.AllTold) s) Sys.init
      (stopTooEarly.flatMap UiAct.calls) :=
  ⟨Lts.run_reaches (by decide +kernel), by decide +kernel⟩

end MiniWireshark

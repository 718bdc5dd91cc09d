import MiniWireshark.Progress

/-!
# Captures that can still be stopped (`Pcap.cpp:259-346`, `:366-430`, `CaptureView.qml:422-431`)

`stop_Th` reaches a worker only through the one cached handle, and a worker posts its handle once. A
handle that the cache has lost, to the handle of another capture or to the null pointer, never comes
back: its capture goes on until libpcap reports an error.

| here | meaning |
| --- | --- |
| `Phase.unposted`  | `set_wk_pp(pp)` is still to be posted |
| `Sys.Untold s w`  | worker `w` has not been told to stop and is not past its loop |
| `Sys.InReach s w` | its handle is cached, on its way to the cache, or still to be posted |
| `Smooth acts`     | in no action libpcap reports an error |
| `Sys.Open w b s`  | the callback of worker `w` may still be called; `b` is its break flag |
-/

namespace MiniWireshark

variable {h : Host} {s s' : Sys} {a : Act} {w : Nat} {wk : Worker}

def Phase.unposted : Phase → Bool
  | .started | .opened => true
  | _ => false

def Sys.Untold (s : Sys) (w : Nat) : Prop := (s.workers[w]?).any (fun wk => !wk.brk && !wk.phase.pastLoop) = true

instance (s : Sys) (w : Nat) : Decidable (s.Untold w) := inferInstanceAs (Decidable (_ = true))

theorem Sys.untold_iff : s.Untold w ↔ ∃ wk, s.workers[w]? = some wk ∧ wk.brk = false ∧ wk.phase.pastLoop = false := by
  simp [Sys.Untold, Option.any_eq_true]

def Sys.InReach (s : Sys) (w : Nat) : Prop :=
  s.pcap.wkPp = some w ∨ .setWkPp w ∈ s.queue ∨ s.At w Phase.unposted

instance (s : Sys) (w : Nat) : Decidable (s.InReach w) := inferInstanceAs (Decidable (_ ∨ _))

/-! ## One worker in a step -/

/-- An untold worker stays untold unless `stop_Th` finds its handle or libpcap reports an error. -/
theorem Sys.Moved.untold {wk' : Worker} (hm : Sys.Moved h s w wk a wk') (hb : wk.brk = false) :
    (wk'.brk = true → s.pcap.wkPp = some w) ∧
      (wk.phase.pastLoop = false → a.errs = false → wk'.phase.pastLoop = false) := by
  cases hm with
  | same => exact ⟨fun hb' => by simp [hb] at hb', fun hp _ => hp⟩
  | told hw => exact ⟨fun _ => hw, fun hp _ => hp⟩
  | unblocked =>
    rcases wk.unblock_cases with ⟨hp, he⟩ | he
    · rw [he]
      simp [hb, hp, Phase.pastLoop]
    · rw [he]
      exact ⟨fun hb' => by simp [hb] at hb', fun hp _ => hp⟩
  | quiet hq =>
    cases hq with
    | openLive ok hp => cases ok <;> simp [hb, Phase.pastLoop, Act.errs, WkAct.errs]
    | compile ok hp => cases ok <;> simp [hb, Phase.pastLoop, Act.errs, WkAct.errs]
    | setfilter ok hp => cases ok <;> simp [hb, Phase.pastLoop, Act.errs, WkAct.errs]
    | reject f hp hl ha => exact ⟨fun hb' => by simp [hb] at hb', fun _ _ => rfl⟩
    | accept f pkt hp hl ha => exact ⟨fun hb' => by simp [hb] at hb', fun _ _ => rfl⟩
    | loopBreak hp hb' =>
      rw [hb] at hb'
      cases hb'
    | loopError hp => exact ⟨fun hb' => by simp [hb] at hb', fun _ he => by cases he⟩
    | _ => simp_all [Phase.pastLoop, Act.errs, WkAct.errs]
  | post hp => cases hp <;> simp_all [Phase.pastLoop]

/-- `set_wk_pp(pp)` is posted for good. -/
theorem Sys.Moved.unposted {wk' : Worker} (hm : Sys.Moved h s w wk a wk') (hu : wk'.phase.unposted = true) :
    wk.phase.unposted = true := by
  cases hm with
  | same => exact hu
  | told => exact hu
  | unblocked =>
    rcases wk.unblock_cases with ⟨_, he⟩ | he
    · rw [he] at hu
      cases hu
    · rwa [he] at hu
  | quiet hq =>
    cases hq with
    | openLive ok hp => rw [hp]; rfl
    | compile ok hp => cases ok <;> cases hu
    | setfilter ok hp => cases ok <;> cases hu
    | _ => cases hu
  | post hp => cases hp <;> cases hu

/-! ## Handles out of reach -/

/-- The cache takes only what was queued. -/
theorem Sys.wkPp_step (hs : Sys.step h s a = some s') (hw : s'.pcap.wkPp = some w) :
    s.pcap.wkPp = some w ∨ .setWkPp w ∈ s.queue := by
  cases Sys.step_move hs with
  | still _ hc => exact .inl (hc.wkPp ▸ hw)
  | start nicName ft hn =>
    rw [s.createTh_of_name ft hn] at hw
    exact .inl hw
  | stop v hv =>
    rw [Sys.stopTh_of_handle hv] at hw
    exact .inl hw
  | call m q hq =>
    cases m with
    | setWkPp v =>
      cases hw
      rw [hq]
      exact .inr List.mem_cons_self
    | clearWkPp v => cases hw
    | _ => exact .inl hw
  | quiet v hv hq => exact .inl hw
  | post v hv hp => exact .inl hw

/-- A handle is queued by its worker alone, and only once. -/
theorem Sys.setWkPp_step (hs : Sys.step h s a = some s') (hm : .setWkPp w ∈ s'.queue) :
    .setWkPp w ∈ s.queue ∨ s.At w Phase.unposted := by
  cases Sys.step_move hs with
  | still _ hc => exact .inl (hc.queue ▸ hm)
  | start nicName ft hn =>
    rw [s.createTh_of_name ft hn] at hm
    exact .inl hm
  | stop v hv =>
    rw [Sys.stopTh_of_handle hv] at hm
    exact .inl hm
  | call m q hq =>
    rw [hq]
    left
    cases m <;> exact List.mem_cons_of_mem _ hm
  | quiet v hv hq => exact .inl hm
  | post v hv hp =>
    rcases List.mem_append.1 hm with hm | hm
    · exact .inl hm
    · cases List.mem_singleton.1 hm
      cases hp with
      | opened hph => exact .inr (Sys.at_iff.2 ⟨_, hv, by rw [hph]; rfl⟩)

/-- No step brings a worker back in reach. -/
theorem Sys.InReach.of_step (hw : s.workers[w]? = some wk) (hs : Sys.step h s a = some s') (hr : s'.InReach w) :
    s.InReach w := by
  rcases hr with hp | hm | hu
  · exact (Sys.wkPp_step hs hp).imp_right .inl
  · exact .inr (Sys.setWkPp_step hs hm)
  · obtain ⟨wk', hw', hmoved⟩ := Sys.step_moved hw hs
    obtain ⟨wk₀, hw₀, hu⟩ := Sys.at_iff.1 hu
    cases hw'.symm.trans hw₀
    exact .inr (.inr (Sys.at_iff.2 ⟨wk, hw, hmoved.unposted hu⟩))

/-- Out of reach, and never told. -/
def Sys.Lost (s : Sys) (w : Nat) : Prop := ¬ s.InReach w ∧ ∃ wk, s.workers[w]? = some wk ∧ wk.brk = false

theorem Sys.Lost.step (hl : s.Lost w) (hs : Sys.step h s a = some s') : s'.Lost w := by
  obtain ⟨hout, wk, hw, hb⟩ := hl
  obtain ⟨wk', hw', hmoved⟩ := Sys.step_moved hw hs
  refine ⟨fun hr => hout (hr.of_step hw hs), wk', hw', ?_⟩
  by_contra hb'
  exact hout (.inl ((hmoved.untold hb).1 (by simpa using hb')))

/-- Only an error ends it. -/
theorem Sys.Lost.untold_step (hl : s.Lost w) (hu : s.Untold w) (he : a.errs = false) (hs : Sys.step h s a = some s') :
    s'.Untold w := by
  obtain ⟨wk, hw, hb, hp⟩ := Sys.untold_iff.1 hu
  obtain ⟨wk', hw', hmoved⟩ := Sys.step_moved hw hs
  obtain ⟨_, wk₀, hw₀, hb'⟩ := hl.step hs
  cases hw'.symm.trans hw₀
  exact Sys.untold_iff.2 ⟨wk', hw', hb', (hmoved.untold hb).2 hp he⟩

theorem Sys.Lost.run {acts : List Act} (hl : s.Lost w) (hr : Lts.run (Sys.step h) s acts = some s') : s'.Lost w :=
  Lts.run_invariant' (fun _ _ _ hl hs => Sys.Lost.step hl hs) hl hr

theorem Sys.Lost.untold_run {acts : List Act} (hl : s.Lost w) (hu : s.Untold w) (he : ∀ a ∈ acts, a.errs = false)
    (hr : Lts.run (Sys.step h) s acts = some s') : s'.Untold w := by
  have hstep (s : Sys) (a : Act) (s' : Sys) (hi : s.Lost w ∧ s.Untold w) (he : a.errs = false)
      (hs : Sys.step h s a = some s') : s'.Lost w ∧ s'.Untold w :=
    ⟨hi.1.step hs, hi.1.untold_step hi.2 he hs⟩
  exact (Lts.run_invariant hstep ((Lts.along_labels_iff hr).2 he) ⟨hl, hu⟩ hr).2

theorem Sys.Untold.lost (hu : s.Untold w) (hout : ¬ s.InReach w) : s.Lost w := by
  obtain ⟨wk, hw, hb, _⟩ := Sys.untold_iff.1 hu
  exact ⟨hout, wk, hw, hb⟩

/-! ## Clicks that stop what is in reach -/

/-- In no action libpcap reports an error. -/
def Smooth (acts : List UiAct) : Prop := ∀ a ∈ acts.flatMap UiAct.calls, a.errs = false

theorem Smooth.append {acts acts' : List UiAct} (he : Smooth acts) (he' : Smooth acts') : Smooth (acts ++ acts') := by
  unfold Smooth
  rw [List.flatMap_append, List.forall_mem_append]
  exact ⟨he, he'⟩

theorem Sys.resetMd_sameControl (s : Sys) : s.SameControl s.resetMd := by
  unfold Sys.resetMd
  split <;> exact ⟨rfl, rfl, rfl, rfl, rfl, rfl⟩

/-- What Back leaves of the workers, and what it tells the cached one. -/
structure Sys.ToldCached (s s' : Sys) : Prop where
  queue : s'.queue = s.queue
  todo : s'.todo = s.todo
  at_of : ∀ w P, s.At w P → s'.At w P
  untold : ∀ w, s'.Untold w → s.Untold w ∧ s.pcap.wkPp ≠ some w

theorem Sys.toldCached_back (s : Sys) : s.ToldCached s.stopTh.resetMd := by
  have hreset := s.stopTh.resetMd_sameControl
  cases hp : s.pcap.wkPp with
  | none =>
    rw [Sys.stopTh_of_none hp] at hreset ⊢
    have hqueue := hreset.queue
    have hworkers := hreset.workers
    refine ⟨hqueue, by rw [Sys.todo, Sys.todo, hqueue, hworkers], fun w P hat => ?_, fun w hu => ⟨?_, by simp [hp]⟩⟩
    · rwa [Sys.At, hworkers]
    · rwa [Sys.Untold, hworkers] at hu
  | some v =>
    rw [Sys.stopTh_of_handle hp] at hreset ⊢
    have hqueue := hreset.queue
    have hworkers := hreset.workers
    refine ⟨hqueue, ?_, fun w P hat => hat.modify hworkers fun _ _ hP => hP, fun w hu => ?_⟩
    · rw [Sys.todo, Sys.todo, hqueue, hworkers, Lists.map_modify_of_eq]
      exact fun _ => rfl
    · obtain ⟨wk, hw, hb, hpast⟩ := Sys.untold_iff.1 hu
      rw [hworkers] at hw
      obtain ⟨wk₀, hw₀, ⟨_, rfl⟩ | ⟨hvw, rfl⟩⟩ := Lists.getElem?_modify_eq_some hw
      · cases hb
      · exact ⟨Sys.untold_iff.2 ⟨wk, hw₀, hb, hpast⟩, fun he => hvw (Option.some.inj (hp.symm.trans he))⟩

/-- From every view one gets to press Back. -/
theorem Ui.exists_back (h : Host) (u : Ui) : ∃ acts u', Lts.run (Ui.step h) u acts = some u' ∧
    Smooth acts ∧ u.sys.ToldCached u'.sys := by
  obtain ⟨view, s⟩ := u
  have hcalls : ∀ a ∈ [Act.stopTh, .resetMd], a.errs = false := by simp [Act.errs]
  cases view with
  | nicList => exact ⟨[.openLive "", .back], ⟨.nicList, s.stopTh.resetMd⟩, rfl, hcalls, s.toldCached_back⟩
  | capture nicName isCapturing =>
    refine ⟨[.back], ⟨.nicList, s.stopTh.resetMd⟩, ?_, hcalls, s.toldCached_back⟩
    cases isCapturing <;> rfl

theorem View.next_background (v : View) {a : UiAct} (hb : a.background = true) : v.next a = some v := by
  cases a with
  | deliver =>
    cases v with
    | nicList => rfl
    | capture _ isCapturing => cases isCapturing <;> rfl
  | worker w b =>
    cases v with
    | nicList => rfl
    | capture _ isCapturing => cases isCapturing <;> rfl
  | _ => cases hb

/-- What goes on behind the views goes on under each of them. -/
theorem Ui.run_background {bg : List Act} (hb : ∀ a ∈ bg, a.background = true) :
    ∀ {u : Ui}, Lts.run (Sys.step h) u.sys bg = some s' →
      ∃ acts, acts.flatMap UiAct.calls = bg ∧ Lts.run (Ui.step h) u acts = some ⟨u.view, s'⟩ := by
  induction bg with
  | nil =>
    intro u hr
    cases hr
    exact ⟨[], rfl, rfl⟩
  | cons a bg ih =>
    intro u hr
    obtain ⟨t, ht, hr⟩ := Lts.run_cons_eq_some.1 hr
    obtain ⟨acts, hcalls, hacts⟩ := @ih (fun b hm => hb b (List.mem_cons_of_mem a hm)) ⟨u.view, t⟩ hr
    obtain ⟨b, hcall, hback⟩ : ∃ b : UiAct, b.calls = [a] ∧ b.background = true := by
      cases a with
      | deliver => exact ⟨.deliver, rfl, rfl⟩
      | worker w b => exact ⟨.worker w b, rfl, rfl⟩
      | _ => exact absurd (hb _ List.mem_cons_self) nofun
    refine ⟨b :: acts, by rw [List.flatMap_cons, hcall, hcalls]; rfl, Lts.run_cons_eq_some.2 ⟨⟨u.view, t⟩, ?_, hacts⟩⟩
    simp only [Ui.step, View.next_background _ hback, hcall, Option.bind_eq_bind, Option.bind_some, Lts.run_cons, ht,
      Lts.run_nil]

/-! ## All that is in reach -/

theorem Sys.Untold.of_step (hw : w < s.workers.length) (hs : Sys.step h s a = some s') (hu : s'.Untold w) :
    s.Untold w := by
  have hwk := List.getElem?_eq_getElem hw
  obtain ⟨wk', hw', hmoved⟩ := Sys.step_moved hwk hs
  obtain ⟨wk₀, hw₀, hb, hp⟩ := Sys.untold_iff.1 hu
  cases hw'.symm.trans hw₀
  have htold : ¬ s.workers[w].Told := fun ht => by
    rcases hmoved.stays_told ht with ht | ht
    · rw [hb] at ht
      cases ht
    · rw [hp] at ht
      cases ht
  rw [Worker.Told, not_or, Bool.not_eq_true, Bool.not_eq_true] at htold
  exact Sys.untold_iff.2 ⟨_, hwk, htold⟩

/-- The handles of the untold workers among `P` are on their way to the cache, or still to be posted. -/
def Sys.Coming (P : Nat → Prop) (s : Sys) : Prop :=
  ∀ w, P w → s.Untold w → .setWkPp w ∈ s.queue ∨ s.At w Phase.unposted

variable {P : Nat → Prop}

theorem Sys.ToldCached.coming (ht : s.ToldCached s') (hr : ∀ w, P w → s.Untold w → s.InReach w) : s'.Coming P := by
  intro w hw hu
  obtain ⟨hu, hne⟩ := ht.untold w hu
  rw [ht.queue]
  exact ((hr w hw hu).resolve_left hne).imp_right (ht.at_of w _)

/-- A delivery takes one handle to the cache. -/
theorem Sys.Coming.call {m : Msg} {q : List Msg} (hc : s.Coming P) (hq : s.queue = m :: q) :
    ∀ w, P w → (s.call q m).Untold w → (s.call q m).InReach w := by
  intro w hw hu
  have hlt : w < s.workers.length := by
    obtain ⟨wk, hw, _⟩ := Sys.untold_iff.1 hu
    have hlen : (s.call q m).workers.length = s.workers.length := by
      cases m <;> first | rfl | exact List.length_modify ..
    rw [← hlen]
    exact (List.getElem?_eq_some_iff.1 hw).1
  have hdeliver : Sys.step .little s .deliver = some (s.call q m) := by simp [Sys.step, Sys.deliver, hq]
  rcases hc w hw (hu.of_step hlt hdeliver) with hm | hat
  · rw [hq] at hm
    rcases List.mem_cons.1 hm with rfl | hrest
    · exact .inl rfl
    · refine .inr (.inl ?_)
      cases m <;> exact hrest
  · refine .inr (.inr ?_)
    cases m with
    | clearWkPp v =>
      refine hat.modify rfl fun _ wk hp => ?_
      rcases wk.unblock_cases with ⟨hph, _⟩ | he
      · rw [hph] at hp
        cases hp
      · rwa [he]
    | _ => exact hat

/-- A worker with its handle still to be posted goes one step on. -/
theorem Sys.Coming.post (hc : s.Coming P) {v : Nat} (hat : s.At v Phase.unposted) :
    ∃ b s', (Act.worker v b).own = true ∧ Sys.step h s (.worker v b) = some s' ∧ s'.Coming P ∧ s'.todo < s.todo := by
  obtain ⟨wk, hv, hu⟩ := Sys.at_iff.1 hat
  have huntold {b : WkAct} {s' : Sys} (hs : Sys.step h s (.worker v b) = some s')
      (hlen : s'.workers.length = s.workers.length) {w : Nat} (hu : s'.Untold w) : s.Untold w := by
    obtain ⟨_, hw, _⟩ := Sys.untold_iff.1 hu
    exact hu.of_step (hlen ▸ (List.getElem?_eq_some_iff.1 hw).1) hs
  cases hp : wk.phase with
  | started =>
    have hs : Sys.step h s (.worker v (.openLive true)) =
        some { s with workers := s.workers.set v { wk with phase := .opened } } := by
      simp [Sys.step, Sys.work, hv, Worker.step, hp]
    refine ⟨.openLive true, _, rfl, hs, fun w hw hu => ?_, ?_⟩
    · rcases hc w hw (huntold hs List.length_set hu) with hm | hat
      · exact .inl hm
      · exact .inr (hat.set rfl hv fun _ _ => rfl)
    · have hsum := Lists.sum_map_set hv Worker.todo { wk with phase := .opened }
      simp only [Sys.todo, Worker.todo, hp, Phase.todo] at hsum ⊢
      omega
  | opened =>
    have hs : Sys.step h s (.worker v .post) =
        some { s with workers := s.workers.set v { wk with phase := .ppPosted }, queue := s.queue ++ [.setWkPp v] } := by
      simp [Sys.step, Sys.work, hv, Worker.step, hp]
    refine ⟨.post, _, rfl, hs, fun w hw hu => ?_, ?_⟩
    · by_cases hvw : v = w
      · exact .inl (List.mem_append_right _ (by rw [hvw]; exact List.mem_singleton_self _))
      · rcases hc w hw (huntold hs List.length_set hu) with hm | hat
        · exact .inl (List.mem_append_left _ hm)
        · exact .inr (hat.set rfl hv fun he => absurd he hvw)
    · have hsum := Lists.sum_map_set hv Worker.todo { wk with phase := .ppPosted }
      simp only [Sys.todo, Worker.todo, hp, Phase.todo, List.length_append, List.length_singleton] at hsum ⊢
      omega
  | _ =>
    rw [hp] at hu
    cases hu

theorem Act.errs_of_calm (hc : a.calm = true) : a.errs = false := by
  cases a with
  | worker w b =>
    cases b with
    | packet f => rfl
    | _ => simpa [Act.calm, Act.errs] using hc
  | _ => rfl

/-- **Step.** Some worker among `P` is still coming, and clicks and the background bring it nearer. -/
theorem Ui.tell_step {u : Ui} (hc : u.sys.Coming P) : (∀ w, P w → ¬ u.sys.Untold w) ∨ ∃ acts u',
    Lts.run (Ui.step h) u acts = some u' ∧ Smooth acts ∧ u'.sys.Coming P ∧
      u'.sys.todo < u.sys.todo := by
  by_cases hat : ∃ v, u.sys.At v Phase.unposted
  · obtain ⟨v, hat⟩ := hat
    obtain ⟨b, s', ho, hs, hc', hlt⟩ := hc.post (h := h) hat
    have hbg : ∀ a ∈ [Act.worker v b], a.background = true := fun a ha => by
      cases List.mem_singleton.1 ha
      rfl
    obtain ⟨acts, hcalls, hr⟩ := Ui.run_background hbg (Lts.run_cons_eq_some.2 ⟨s', hs, rfl⟩)
    refine .inr ⟨acts, _, hr, fun a ha => ?_, hc', hlt⟩
    rw [hcalls] at ha
    cases List.mem_singleton.1 ha
    exact Act.errs_of_calm (Act.calm_of_own ho)
  cases hq : u.sys.queue with
  | nil =>
    refine .inl fun w hw hu => ?_
    rcases hc w hw hu with hm | hu
    · rw [hq] at hm
      cases hm
    · exact hat ⟨w, hu⟩
  | cons m q =>
    -- the delivery is followed by Back, which finds the handle it brought
    have hnext : u.view.next .deliver = some u.view := u.view.next_background rfl
    have hdeliver : Ui.step h u .deliver = some ⟨u.view, u.sys.call q m⟩ := by
      simp [Ui.step, hnext, UiAct.calls, Lts.run, Sys.step, Sys.deliver, hq]
    obtain ⟨acts, u', hr, he, htold⟩ := Ui.exists_back h ⟨u.view, u.sys.call q m⟩
    have hsmooth : Smooth [.deliver] := fun a ha => by
      cases List.mem_singleton.1 ha
      rfl
    refine .inr ⟨.deliver :: acts, u', Lts.run_cons_eq_some.2 ⟨_, hdeliver, hr⟩, hsmooth.append he, ?_, ?_⟩
    · exact htold.coming (hc.call hq)
    · rw [htold.todo, ← Sys.todo_call hq]
      exact Nat.lt_succ_self _

/-- **Run.** Clicks and the background tell every worker among `P`, or bring it past its loop. -/
theorem Ui.exists_tell (u : Ui) (hc : u.sys.Coming P) : ∃ acts u', Lts.run (Ui.step h) u acts = some u' ∧
    Smooth acts ∧ ∀ w, P w → ¬ u'.sys.Untold w := by
  rcases Ui.tell_step (h := h) hc with hdone | ⟨acts, u₁, hr, he, hc₁, hlt⟩
  · exact ⟨[], u, rfl, nofun, hdone⟩
  · obtain ⟨acts', u', hr', he', hdone⟩ := Ui.exists_tell u₁ hc₁
    exact ⟨acts ++ acts', u', Lts.run_append_eq_some.2 ⟨u₁, hr, hr'⟩, he.append he', hdone⟩
termination_by u.sys.todo

theorem Ui.exists_tell_inReach {u : Ui} (hr : ∀ w, P w → u.sys.Untold w → u.sys.InReach w) :
    ∃ acts u', Lts.run (Ui.step h) u acts = some u' ∧ Smooth acts ∧
      ∀ w, P w → ¬ u'.sys.Untold w := by
  obtain ⟨acts, u₁, hrun, he, htold⟩ := Ui.exists_back h u
  obtain ⟨acts', u', hrun', he', hdone⟩ := Ui.exists_tell (h := h) u₁ (htold.coming hr)
  exact ⟨acts ++ acts', u', Lts.run_append_eq_some.2 ⟨u₁, hrun, hrun'⟩, he.append he', hdone⟩

/-! ## Exactly which -/

/-- **Which captures can still be stopped.** From any state, a worker that has not been told can be told or brought
past its loop, by clicks and the background and without an error, iff its handle is in reach; and one whose handle is
out of reach is not told in any run at all. -/
theorem stoppable_iff {u : Ui} (hu : u.sys.Untold w) :
    ((∃ acts u', Lts.run (Ui.step h) u acts = some u' ∧ Smooth acts ∧
        ¬ u'.sys.Untold w) ↔ u.sys.InReach w) ∧
      (¬ u.sys.InReach w → ∀ acts u', Lts.run (Ui.step h) u acts = some u' →
        ∃ wk, u'.sys.workers[w]? = some wk ∧ wk.brk = false) := by
  constructor
  · constructor
    · rintro ⟨acts, u', hr, he, hend⟩
      by_contra hout
      exact hend ((hu.lost hout).untold_run hu he (Ui.run_calls hr))
    · intro hin
      obtain ⟨acts, u', hr, he, hend⟩ := Ui.exists_tell_inReach (h := h) (P := (· = w)) (u := u)
        (fun v hv _ => hv ▸ hin)
      exact ⟨acts, u', hr, he, hend w rfl⟩
  · intro hout acts u' hr
    exact ((hu.lost hout).run (Ui.run_calls hr)).2

/-- Stop before the handle is cached, and Start: the second capture takes the cache from the first. -/
def twoCaptures : List UiAct :=
  [.openLive "eth0", .start "eth0" "", .worker 0 (.openLive true), .worker 0 .post, .stop, .start "eth0" "",
    .worker 1 (.openLive true), .worker 1 .post, .deliver, .deliver]

/-- The first cannot be stopped any more, and the second can. -/
theorem stoppable_second_only : ∃ u, Lts.run (Ui.step .little) Ui.init twoCaptures = some u ∧
    ¬ (∃ acts u', Lts.run (Ui.step .little) u acts = some u' ∧ Smooth acts ∧
      ¬ u'.sys.Untold 0) ∧
    ∃ acts u', Lts.run (Ui.step .little) u acts = some u' ∧ Smooth acts ∧
      ¬ u'.sys.Untold 1 := by
  obtain ⟨u, hr, hu₀, hout, hu₁, hin⟩ : ∃ u, Lts.run (Ui.step .little) Ui.init twoCaptures = some u ∧
      u.sys.Untold 0 ∧ ¬ u.sys.InReach 0 ∧ u.sys.Untold 1 ∧ u.sys.InReach 1 := Lts.run_reaches (by decide +kernel)
  exact ⟨u, hr, fun hend => hout ((stoppable_iff hu₀).1.1 hend), (stoppable_iff hu₁).1.2 hin⟩

/-- **When the program can come to rest.** From a reachable state and without an error, every worker can be ended and
every call delivered iff no capture has been lost. -/
theorem rest_reachable_iff {acts : List UiAct} {u : Ui} (hr : Lts.run (Ui.step h) Ui.init acts = some u) :
    (∃ acts' u', Lts.run (Ui.step h) u acts' = some u' ∧ Smooth acts' ∧
        u'.sys.Idle) ↔ ∀ w, u.sys.Untold w → u.sys.InReach w := by
  constructor
  · rintro ⟨acts', u', hr', he, hidle⟩ w hu
    by_contra hout
    obtain ⟨wk, hw, _, hp⟩ := Sys.untold_iff.1 ((hu.lost hout).untold_run hu he (Ui.run_calls hr'))
    rw [hidle.1 wk (List.mem_of_getElem? hw)] at hp
    cases hp
  · intro hin
    obtain ⟨acts₁, u₁, hr₁, he₁, htold⟩ := Ui.exists_tell_inReach (h := h) (P := fun _ => True) (u := u)
      fun w _ hu => hin w hu
    have hall : u₁.sys.AllTold := fun wk hwk => by
      obtain ⟨w, hw⟩ := List.mem_iff_getElem?.1 hwk
      by_contra hn
      rw [not_or, Bool.not_eq_true, Bool.not_eq_true] at hn
      exact htold w trivial (Sys.untold_iff.2 ⟨wk, hw, hn⟩)
    have hreach : Lts.run (Sys.step h) Sys.init _ = some u₁.sys :=
      Ui.run_calls (Lts.run_append_eq_some.2 ⟨u, hr, hr₁⟩)
    have hd : u₁.sys.Draining := ⟨hall, Sys.AwaitInv.run hreach⟩
    obtain ⟨bg, t, hc, hrt, hidle⟩ := hd.exists_idle (h := h)
    obtain ⟨acts₂, hcalls, hr₂⟩ := Ui.run_background (fun a ha => Act.background_of_calm (hc a ha)) hrt
    have he₂ : Smooth acts₂ := fun a ha => Act.errs_of_calm (hc a (hcalls ▸ ha))
    exact ⟨acts₁ ++ acts₂, _, Lts.run_append_eq_some.2 ⟨u₁, hr₁, hr₂⟩, he₁.append he₂, hidle⟩

/-- With the first capture lost it cannot. -/
theorem no_rest_two_captures : ∃ u, Lts.run (Ui.step .little) Ui.init twoCaptures = some u ∧
    ¬ ∃ acts' u', Lts.run (Ui.step .little) u acts' = some u' ∧
      Smooth acts' ∧ u'.sys.Idle := by
  obtain ⟨u, hr, hu, hout⟩ : ∃ u, Lts.run (Ui.step .little) Ui.init twoCaptures = some u ∧
      u.sys.Untold 0 ∧ ¬ u.sys.InReach 0 := Lts.run_reaches (by decide +kernel)
  exact ⟨u, hr, fun hrest => hout ((rest_reachable_iff hr).1 hrest 0 hu)⟩

/-! ## Packets after a Stop -/

/-- Worker `w` may accept another packet; `b` is its break flag. -/
def Sys.Open (w : Nat) (b : Bool) (s : Sys) : Prop := ∃ wk, s.workers[w]? = some wk ∧ wk.brk = b ∧ ¬ wk.Spent

/-- What worker `w` has left. -/
def Sys.todoOf (s : Sys) (w : Nat) : Nat := (s.workers[w]?).elim 0 Worker.todo

variable {b : Bool}

/-- Short of its loop, a worker that goes on of its own accord stays open, and comes nearer to the loop. -/
theorem Sys.Open.own_step {c : WkAct} (hopen : s.Open w b) (hout : ¬ s.At w Phase.inLoop)
    (ho : (Act.worker w c).own = true) (hs : Sys.step h s (.worker w c) = some s') :
    s'.Open w b ∧ s'.todoOf w < s.todoOf w := by
  obtain ⟨wk, hw, hb, hd⟩ := hopen
  have hin : wk.phase.inLoop = false := by
    by_contra hin
    exact hout (Sys.at_iff.2 ⟨wk, hw, by simpa using hin⟩)
  obtain ⟨hl, hp⟩ : wk.late = false ∧ wk.phase.pastLoop = false := by simpa [Worker.Spent] using hd
  have hbefore : s.todoOf w = wk.todo := by rw [Sys.todoOf, hw, Option.elim_some]
  have hnext {wk' : Worker} (hw' : s'.workers[w]? = some wk') (hb' : wk'.brk = wk.brk) (hl' : wk'.late = false)
      (hp' : wk'.phase.pastLoop = false) (hlt : wk'.todo < wk.todo) : s'.Open w b ∧ s'.todoOf w < s.todoOf w := by
    refine ⟨⟨wk', hw', hb'.trans hb, by simp [Worker.Spent, hl', hp']⟩, ?_⟩
    rwa [hbefore, Sys.todoOf, hw', Option.elim_some]
  obtain ⟨wk₀, wk', hv, ⟨hq, rfl⟩ | ⟨rfl, m, hpost, rfl⟩⟩ := Sys.work_cases hs
  · cases hv.symm.trans hw
    have hset := Lists.getElem?_set_of_some hw wk'
    cases hq with
    | openLive ok hph =>
      cases ok with
      | true => exact hnext hset rfl hl rfl (by simp [Worker.todo, hph, Phase.todo])
      | false => cases ho
    | enterLoop hph => exact hnext hset rfl hl rfl (by simp [Worker.todo, hph, Phase.todo])
    | compile ok hph =>
      cases ok with
      | true => exact hnext hset rfl hl rfl (by simp [Worker.todo, hph, Phase.todo])
      | false => cases ho
    | setfilter ok hph =>
      cases ok with
      | true => exact hnext hset rfl hl rfl (by simp [Worker.todo, hph, Phase.todo])
      | false => cases ho
    | close hph => simp [hph, Phase.pastLoop] at hp
    | loopError hph => cases ho
    | reject f hph hl' ha => cases ho
    | accept f pkt hph hl' ha => cases ho
    | _ => simp_all [Phase.inLoop]
  · cases hv.symm.trans hw
    have hset := Lists.getElem?_set_of_some hw wk'
    have hlt := hpost.todo
    refine hnext hset ?_ ?_ ?_ (by omega)
    · cases hpost <;> rfl
    · cases hpost <;> exact hl
    · cases hpost <;> simp_all [Phase.pastLoop]

/-- Left alone, an open worker comes to its loop. -/
theorem Sys.Open.exists_inLoop (hopen : s.Open w b) :
    ∃ acts s', Lts.run (Sys.step h) s acts = some s' ∧ s'.Open w b ∧ s'.At w Phase.inLoop := by
  let C (s : Sys) (a : Act) : Prop := ¬ s.At w Phase.inLoop ∧ a.own = true ∧ ∃ c, a = .worker w c
  have hstep (s : Sys) (a : Act) (s' : Sys) (hopen : s.Open w b) (ha : C s a) (hs : Sys.step h s a = some s') :
      s'.Open w b ∧ s'.todoOf w < s.todoOf w := by
    obtain ⟨hout, ho, c, rfl⟩ := ha
    exact hopen.own_step hout ho hs
  have hgo (s : Sys) (hopen : s.Open w b) : (s.Open w b ∧ s.At w Phase.inLoop) ∨
      ∃ a s', C s a ∧ Sys.step h s a = some s' := by
    by_cases hat : s.At w Phase.inLoop
    · exact .inl ⟨hopen, hat⟩
    · obtain ⟨wk, hw, _, hd⟩ := hopen
      have hp : wk.phase.pastLoop = false := by simpa using fun hp => hd (.inr hp)
      have hf : wk.phase ≠ .finished := fun hf => by simp [hf, Phase.pastLoop] at hp
      have hr : wk.phase ≠ .reading := fun hr => hat (Sys.at_iff.2 ⟨wk, hw, by rw [hr]; rfl⟩)
      have hwait : wk.phase.waiting = false := by cases hph : wk.phase <;> simp_all [Phase.waiting, Phase.pastLoop]
      obtain ⟨c, ho, hst⟩ := wk.can_act (h := h) w hf hwait hr
      obtain ⟨s', hs'⟩ := Option.isSome_iff_exists.1 (Sys.step_isSome_of_worker hw hst)
      exact .inr ⟨.worker w c, s', ⟨hat, ho, c, rfl⟩, hs'⟩
  obtain ⟨acts, s', _, hr, hend⟩ := Lts.exists_run_to (fun s a s' ho ha hs => (hstep s a s' ho ha hs).1)
    (fun s a s' ho ha hs => (hstep s a s' ho ha hs).2) hgo s hopen
  exact ⟨acts, s', hr, hend⟩

/-- **Step.** An open worker comes to accept a packet, and stays open if it was not told. -/
theorem Sys.Open.exists_packet (hopen : s.Open w b) : ∃ acts s', Lts.run (Sys.step h) s acts = some s' ∧
    1 ≤ (ofWorker w (takenAlong h s acts)).length ∧ (b = false → s'.Open w b) := by
  obtain ⟨acts, t, ht, ⟨wk, hw, hb, hd⟩, hat⟩ := hopen.exists_inLoop (h := h)
  obtain ⟨wk₀, hw₀, hin⟩ := Sys.at_iff.1 hat
  cases hw.symm.trans hw₀
  have hl : wk.late = false := by simpa using fun hl => hd (.inl hl)
  obtain ⟨pkt, ha⟩ : ∃ pkt, accepted h (udpFrame 42) = some pkt := by
    cases h <;> exact ⟨⟨0, "10.0.0.1", "10.0.0.2", "UDP", 42, "53 ---> 53   Len=0"⟩, by decide +kernel⟩
  have hst : (wk.step h w (.packet (udpFrame 42))).isSome = true := by
    simp [Worker.step, Worker.mayCallBack, hin, hl, Worker.myPacketHandler_read, ha]
  obtain ⟨t', ht'⟩ := Option.isSome_iff_exists.1 (Sys.step_isSome_of_worker hw hst)
  refine ⟨acts ++ [.worker w (.packet (udpFrame 42))], t', Lts.run_snoc_eq_some.2 ⟨t, ht, ht'⟩, ?_, fun hb' => ?_⟩
  · rw [takenAlong, Lts.trace_snoc _ ht]
    simp [ofWorker, Sys.taken, hw, Worker.taken, stored_cons_accept ha, Frame.pair]
  · obtain ⟨wk₁, wk₂, hw₁, ⟨hq, rfl⟩ | ⟨he, _⟩⟩ := Sys.work_cases ht'
    · cases hw₁.symm.trans hw
      refine ⟨wk₂, Lists.getElem?_set_of_some hw wk₂, ?_, ?_⟩
      · cases hq <;> exact hb
      · cases hq <;> simp [Worker.Spent, Phase.pastLoop, hb, hb']
    · cases he

/-- Only a told worker has been called back late. -/
theorem Sys.late_run {acts : List Act} (hr : Lts.run (Sys.step h) Sys.init acts = some s) :
    ∀ (w : Nat) (wk : Worker), s.workers[w]? = some wk → wk.late = true → wk.brk = true := by
  refine Lts.run_invariant' (I := fun s => ∀ (w : Nat) (wk : Worker), s.workers[w]? = some wk →
    wk.late = true → wk.brk = true) ?_
    (fun _ _ hw => by cases hw) hr
  intro s a s' hi hs w wk' hw' hl
  rcases Sys.step_worker hs hw' with ⟨wk, hw, hm⟩ | ⟨_, _, _, _, _, rfl⟩
  · have hwk := hi w wk hw
    cases hm with
    | same => exact hwk hl
    | told => rfl
    | unblocked =>
      rcases wk.unblock_cases with ⟨_, he⟩ | he <;> rw [he] at hl ⊢ <;> exact hwk hl
    | quiet hq => cases hq <;> first | exact hwk hl | exact hl
    | post hp => cases hp <;> exact hwk hl
  · cases hl

/-- **When a capture takes its last packet.** From every reachable state and whatever follows, clicks and other
captures included, the callback of a worker accepts at most one more packet iff the worker has been told to stop or is
past its loop, and none at all iff it has been called back since or is past its loop. -/
theorem last_packet_iff {acts₀ : List Act} (hr₀ : Lts.run (Sys.step h) Sys.init acts₀ = some s)
    (hw : s.workers[w]? = some wk) :
    ((∀ acts s', Lts.run (Sys.step h) s acts = some s' → (ofWorker w (takenAlong h s acts)).length ≤ 1) ↔ wk.Told) ∧
      ((∀ acts s', Lts.run (Sys.step h) s acts = some s' → ofWorker w (takenAlong h s acts) = []) ↔ wk.Spent) := by
  have hlate := Sys.late_run hr₀ w wk hw
  constructor
  · refine ⟨fun hall => ?_, fun ht acts s' hr => (ht.run hw hr).trans wk.allowance_le_one⟩
    by_contra ht
    obtain ⟨hb, hp⟩ : wk.brk = false ∧ wk.phase.pastLoop = false := by simpa [Worker.Told] using ht
    -- an untold worker comes to accept one packet, and then another
    have hd : ¬ wk.Spent := by
      rintro (hl | hl)
      · rw [hlate hl] at hb
        cases hb
      · rw [hp] at hl
        cases hl
    obtain ⟨acts, t, ht, hone, hopen⟩ := Sys.Open.exists_packet (h := h) ⟨wk, hw, hb, hd⟩
    obtain ⟨acts', t', ht', hone', _⟩ := (hopen rfl).exists_packet (h := h)
    have htwo := hall (acts ++ acts') t' (Lts.run_append_eq_some.2 ⟨t, ht, ht'⟩)
    rw [takenAlong, Lts.trace_append ht, ofWorker, List.filter_append, List.length_append] at htwo
    simp only [takenAlong, ofWorker] at hone hone'
    omega
  · constructor
    · intro hall
      by_contra hd
      obtain ⟨acts, t, ht, hone, _⟩ := Sys.Open.exists_packet (h := h) ⟨wk, hw, rfl, hd⟩
      rw [hall acts t ht] at hone
      cases hone
    · intro hd acts s' hr
      have ht : wk.Told := hd.imp_left hlate
      have hle := ht.run hw hr
      rw [Worker.allowance, if_pos hd] at hle
      exact List.length_eq_zero_iff.1 (Nat.le_zero.1 hle)

/-- A stopped capture with a packet in its callback takes at most one other, and then none. -/
theorem last_packet_in_callback : ∃ s wk,
    Lts.run (Sys.step .little) Sys.init (stopInCallback (udpFrame 42)) = some s ∧ s.workers[0]? = some wk ∧
      (∀ acts s', Lts.run (Sys.step .little) s acts = some s' → (ofWorker 0 (takenAlong .little s acts)).length ≤ 1) ∧
      ¬ (∀ acts s', Lts.run (Sys.step .little) s acts = some s' → ofWorker 0 (takenAlong .little s acts) = []) := by
  obtain ⟨s, hr, hwk⟩ : ∃ s, Lts.run (Sys.step .little) Sys.init (stopInCallback (udpFrame 42)) = some s ∧
      (s.workers[0]?).any (fun wk : Worker => wk.brk && decide (¬ wk.Spent)) = true := Lts.run_reaches (by decide +kernel)
  obtain ⟨wk, hw, hwk⟩ := (Option.any_eq_true _ _).1 hwk
  obtain ⟨hb, hd⟩ : wk.brk = true ∧ ¬ wk.Spent := by simpa using hwk
  exact ⟨s, wk, hr, hw, (last_packet_iff hr hw).1.2 (.inl hb), fun hall => hd ((last_packet_iff hr hw).2.1 hall)⟩

end MiniWireshark

import MiniWireshark.Handles

/-!
# Flags at the end of a capture (`Pcap.cpp:259-346`, `:395-463`)

`wk_pp` and `wk_life` settle on every exit path: the worker clears them by its last calls. `wk_flag`
is raised by `create_Th` and lowered only by a `stop_Th` that finds a handle, or by the call a
worker posts when its interface does not open.

| here | meaning |
| --- | --- |
| `Sys.lifeSettled s`   | the value of `wk_life` once everything queued is delivered |
| `Act.starts`          | `create_Th` past its test for an empty name: raises `wk_flag` |
| `Act.lowers s`        | `stop_Th` with a cached handle, or delivery of `set_wk_flag(false)` |
| `Pcap.funcCan`        | `func_can` of the Save button (`CaptureView.qml:248-258`); `func_save` makes the same test |
| `Act.stops s`         | `stop_Th` with a cached handle: raises `stop_flag` |
-/

namespace MiniWireshark

/-! ## `wk_life` -/

/-- What a queued call writes to `wk_life`. -/
def Msg.life? : Msg → Option Bool
  | .setWkLife set => some set
  | _ => none

/-- The value of `wk_life` once everything queued is delivered. -/
def Sys.lifeSettled (s : Sys) : Bool := Lists.settle Msg.life? s.pcap.wkLife s.queue

/-- `set_wk_life(true)` is posted, `set_wk_life(false)` is not. -/
def Phase.lifeUp : Phase → Bool
  | .lifePosted | .compiled | .looping | .reading | .handling _ _ | .mdPosted _ | .left | .closed | .blocked | .cleared => true
  | _ => false

/-- `wk_life` settles at true only while some worker has not posted its end. -/
def Sys.LifeInv (s : Sys) : Prop := s.lifeSettled = true → ∃ w, s.At w Phase.lifeUp

theorem Worker.Quiet.keeps_lifeUp {h : Host} {w : Nat} {wk wk' : Worker} {a : WkAct}
    (hq : Worker.Quiet h w wk a wk') (hp : wk.phase.lifeUp = true) : wk'.phase.lifeUp = true := by
  cases hq with
  | openLive ok hph => rw [hph] at hp; cases hp
  | compile ok hph => cases ok <;> rfl
  | setfilter ok hph => cases ok <;> rfl
  | _ => rfl

/-- A posting keeps the worker's part, unless it says that life ends; one that says that life begins
makes it. -/
theorem Worker.Post.life {w : Nat} {wk wk' : Worker} {m : Msg} (hp : Worker.Post w wk m wk') :
    m.life? = some false ∨ (wk.phase.lifeUp = true ∨ m.life? = some true) ∧ wk'.phase.lifeUp = true ∨
      m.life? = none ∧ wk.phase.lifeUp = false := by
  cases hp <;> rename_i hph <;> simp [Msg.life?, Phase.lifeUp, hph]

theorem Worker.unblock_lifeUp (wk : Worker) (hp : wk.phase.lifeUp = true) : wk.unblock.phase.lifeUp = true := by
  rcases wk.unblock_cases with ⟨_, he⟩ | he
  · rw [he]
    rfl
  · rwa [he]

theorem Sys.lifeSettled_call {s : Sys} {m : Msg} {q : List Msg} (hq : s.queue = m :: q) :
    (s.call q m).lifeSettled = s.lifeSettled := by
  simp only [Sys.lifeSettled, hq, Lists.settle_cons]
  cases m <;> rfl

theorem Sys.LifeInv.step {h : Host} {s s' : Sys} {a : Act} (hi : s.LifeInv) (hs : Sys.step h s a = some s') :
    s'.LifeInv := by
  intro hl
  cases Sys.step_move hs with
  | still _ hc =>
    rw [Sys.lifeSettled, hc.wkLife, hc.queue] at hl
    obtain ⟨w, hw⟩ := hi hl
    exact ⟨w, by rw [Sys.At, hc.workers]; exact hw⟩
  | start nicName ft hn =>
    rw [s.createTh_of_name ft hn] at hl ⊢
    obtain ⟨w, hw⟩ := hi hl
    exact ⟨w, hw.append rfl⟩
  | stop v hv =>
    rw [Sys.stopTh_of_handle hv] at hl ⊢
    obtain ⟨w, hw⟩ := hi hl
    exact ⟨w, hw.modify rfl fun _ _ hP => hP⟩
  | call m q hq =>
    rw [Sys.lifeSettled_call hq] at hl
    obtain ⟨w, hw⟩ := hi hl
    cases m with
    | clearWkPp v => exact ⟨w, hw.modify rfl fun _ => Worker.unblock_lifeUp⟩
    | _ => exact ⟨w, hw⟩
  | quiet v hv hq =>
    obtain ⟨w, hw⟩ := hi hl
    exact ⟨w, hw.set rfl hv fun _ => hq.keeps_lifeUp⟩
  | @post v m wk wk' hv hp =>
    simp only [Sys.lifeSettled, Lists.settle_snoc] at hl
    rcases hp.life with hm | ⟨_, hup⟩ | ⟨hm, hdown⟩
    · rw [hm] at hl
      cases hl
    · exact ⟨v, Sys.at_iff.2 ⟨wk', Lists.getElem?_set_of_some hv wk', hup⟩⟩
    · rw [hm] at hl
      obtain ⟨w, hw⟩ := hi hl
      exact ⟨w, hw.set rfl hv fun _ hup => by rw [hdown] at hup; cases hup⟩

theorem Sys.LifeInv.run {h : Host} {acts : List Act} {s : Sys} (hr : Lts.run (Sys.step h) Sys.init acts = some s) :
    s.LifeInv := Lts.run_invariant' (fun _ _ _ hi hs => Sys.LifeInv.step hi hs) (fun hl => by cases hl) hr

/-! ## Idle states -/

theorem Sys.Idle.not_at {s : Sys} (hidle : s.Idle) {w : Nat} {P : Phase → Bool} (hP : P .finished = false) :
    ¬ s.At w P := by
  intro hat
  obtain ⟨wk, hw, hph⟩ := Sys.at_iff.1 hat
  rw [hidle.1 wk (List.mem_of_getElem? hw), hP] at hph
  cases hph

/-- Once every capture has ended, no handle is cached. -/
theorem Sys.Idle.wkPp {h : Host} {acts : List Act} {s : Sys} (hidle : s.Idle)
    (hr : Lts.run (Sys.step h) Sys.init acts = some s) : s.pcap.wkPp = none := by
  cases hp : s.pcap.wkPp with
  | none => rfl
  | some w => exact absurd ((Sys.HandleInv.run hr).cached w hp) (hidle.not_at rfl)

/-- Once every capture has ended, `wk_life` is false. -/
theorem Sys.Idle.wkLife {h : Host} {acts : List Act} {s : Sys} (hidle : s.Idle)
    (hr : Lts.run (Sys.step h) Sys.init acts = some s) : s.pcap.wkLife = false := by
  by_contra hl
  have hset : s.lifeSettled = true := by
    rw [Sys.lifeSettled, hidle.2, Lists.settle_nil]
    simpa using hl
  obtain ⟨w, hw⟩ := Sys.LifeInv.run hr hset
  exact hidle.not_at rfl hw

/-! ## `wk_flag` -/

/-- `create_Th` past its test for an empty name. -/
def Act.starts : Act → Bool
  | .createTh nicName _ => !nicName.isEmpty
  | _ => false

/-- `stop_Th` with a cached handle, or the delivery of `set_wk_flag(false)`. -/
def Act.lowers (s : Sys) : Act → Bool
  | .stopTh => s.pcap.wkPp.isSome
  | .deliver => s.queue.head? = some (.setWkFlag false)
  | _ => false

/-- No call raises `wk_flag`. -/
def Sys.FlagCallsLower (s : Sys) : Prop := .setWkFlag true ∉ s.queue

theorem Sys.FlagCallsLower.step {h : Host} {s s' : Sys} {a : Act} (hi : s.FlagCallsLower)
    (hs : Sys.step h s a = some s') : s'.FlagCallsLower := by
  cases Sys.step_move hs with
  | still _ hc => rw [Sys.FlagCallsLower, hc.queue]; exact hi
  | start nicName ft hn => rw [s.createTh_of_name ft hn]; exact hi
  | stop v hv => rw [Sys.stopTh_of_handle hv]; exact hi
  | call m q hq =>
    have hq' : .setWkFlag true ∉ q := fun hm => hi (by rw [hq]; exact List.mem_cons_of_mem _ hm)
    cases m <;> exact hq'
  | quiet v hv hq => exact hi
  | post v hv hp =>
    intro hm
    rcases List.mem_append.1 hm with hm | hm
    · exact hi hm
    · cases List.mem_singleton.1 hm
      cases hp

/-- What a step does to `wk_flag`. -/
theorem Sys.wkFlag_step {h : Host} {s s' : Sys} {a : Act} (hi : s.FlagCallsLower) (hs : Sys.step h s a = some s') :
    s'.pcap.wkFlag = if a.starts then true else if a.lowers s then false else s.pcap.wkFlag := by
  cases Sys.step_move hs with
  | @still a _ hstill hc => cases a <;> simp_all [Act.still, Act.starts, Act.lowers, hc.wkFlag]
  | start nicName ft hn => simp [s.createTh_of_name ft hn, Act.starts, hn]
  | stop v hv => simp [Sys.stopTh_of_handle hv, Act.starts, Act.lowers, hv]
  | call m q hq =>
    cases m with
    | setWkFlag set =>
      cases set with
      | true => exact absurd (by rw [hq]; exact List.mem_cons_self) hi
      | false => simp [Act.starts, Act.lowers, hq, Sys.call]
    | _ => simp [Act.starts, Act.lowers, hq, Sys.call]
  | quiet v hv hq => rfl
  | post v hv hp => rfl

/-- **Flags settle, exactly.** In every reachable state without a live worker and without a pending
call, `wk_pp` is null and `wk_life` and `wk_flag` are false iff every `create_Th` that started a
worker is followed by a `stop_Th` with a cached handle or by the delivery of a `set_wk_flag(false)`. -/
theorem flags_settle_iff {h : Host} {acts : List Act} {s : Sys} (hr : Lts.run (Sys.step h) Sys.init acts = some s)
    (hidle : s.Idle) :
    (s.pcap.wkPp = none ∧ s.pcap.wkLife = false ∧ s.pcap.wkFlag = false) ↔
      Lts.Answered (Sys.step h) (fun _ a => a.starts = true) (fun s a => a.lowers s = true) Sys.init acts := by
  have hflag : s.pcap.wkFlag = false ↔
      (Sys.init.pcap.wkFlag = true →
        Lts.Sometime (Sys.step h) (fun s a => a.lowers s = true) Sys.init acts) ∧
      Lts.Answered (Sys.step h) (fun _ a => a.starts = true) (fun s a => a.lowers s = true) Sys.init acts := by
    refine Lts.flag_false_iff (I := Sys.FlagCallsLower) (f := fun s => s.pcap.wkFlag)
      (fun _ _ _ hi hs => hi.step hs) ?_ ?_ ?_ (List.not_mem_nil) hr
    · intro s a s' hi hs hst
      rw [Sys.wkFlag_step hi hs, if_pos hst]
    · intro s a s' hi hs hlow
      have hst : a.starts = false := by cases a <;> first | rfl | cases hlow
      rw [Sys.wkFlag_step hi hs, hst, if_pos hlow]
      rfl
    · intro s a s' hi hs hst hlow
      rw [Sys.wkFlag_step hi hs, if_neg hst, if_neg hlow]
  rw [hflag]
  simp [hidle.wkPp hr, hidle.wkLife hr, Sys.init]

/-- A capture whose interface does not open, up to its end. -/
def failedOpen : List Act :=
  [.createTh "eth0" "", .worker 0 (.openLive false), .worker 0 .post, .worker 0 .post, .deliver, .deliver]

/-- The failure path posts `set_wk_flag(false)`, so its flags settle. -/
theorem flags_settle_after_failed_open : ∃ s, Lts.run (Sys.step .little) Sys.init failedOpen = some s ∧
    (s.pcap.wkPp = none ∧ s.pcap.wkLife = false ∧ s.pcap.wkFlag = false) := by
  obtain ⟨s, hs, hidle⟩ : ∃ s, Lts.run (Sys.step .little) Sys.init failedOpen = some s ∧ s.Idle :=
    Lts.run_reaches (by decide +kernel)
  exact ⟨s, hs, (flags_settle_iff hs hidle).2 (by decide +kernel)⟩

/-- A capture whose loop returns on an interface error, up to its end, without a Stop. -/
def loopErrorSession : List UiAct :=
  [.openLive "eth0", .start "eth0" "", .worker 0 (.openLive true), .worker 0 .post, .worker 0 .post,
    .worker 0 .enterLoop, .worker 0 .loopError, .worker 0 .close, .worker 0 .post, .deliver, .deliver, .deliver,
    .worker 0 .post, .deliver]

/-- The error path posts no `set_wk_flag(false)`: the flag stays up with no capture left. -/
theorem wk_flag_stays_up : ∃ u, Lts.run (Ui.step .little) Ui.init loopErrorSession = some u ∧ u.sys.Idle ∧
    ¬ (u.sys.pcap.wkPp = none ∧ u.sys.pcap.wkLife = false ∧ u.sys.pcap.wkFlag = false) :=
  Lts.run_reaches (by decide +kernel)

/-! ## The Save button -/

/-- `func_can` of the Save button. -/
def Pcap.funcCan (p : Pcap) : Bool := if p.stopFlag = true ∧ p.wkFlag = false then true else false

/-- `stop_Th` with a cached handle. -/
def Act.stops (s : Sys) : Act → Bool
  | .stopTh => s.pcap.wkPp.isSome
  | _ => false

/-- What a step does to `stop_flag`. -/
theorem Sys.stopFlag_step {h : Host} {s s' : Sys} {a : Act} (hs : Sys.step h s a = some s') :
    s'.pcap.stopFlag = if a.stops s then true else if a.starts then false else s.pcap.stopFlag := by
  cases Sys.step_move hs with
  | @still a _ hstill hc => cases a <;> simp_all [Act.still, Act.starts, Act.stops, hc.stopFlag]
  | start nicName ft hn => simp [s.createTh_of_name ft hn, Act.starts, Act.stops, hn]
  | stop v hv => simp [Sys.stopTh_of_handle hv, Act.stops, hv]
  | call m q hq => cases m <;> simp [Act.starts, Act.stops, Sys.call]
  | quiet v hv hq => rfl
  | post v hv hp => rfl

/-- `stop_flag` is not up together with `wk_flag`. -/
structure Sys.StopInv (s : Sys) : Prop where
  calls : s.FlagCallsLower
  apart : s.pcap.stopFlag = true → s.pcap.wkFlag = false

theorem Sys.StopInv.step {h : Host} {s s' : Sys} {a : Act} (hi : s.StopInv) (hs : Sys.step h s a = some s') :
    s'.StopInv := by
  refine ⟨hi.calls.step hs, ?_⟩
  intro hstop
  rw [Sys.stopFlag_step hs] at hstop
  rw [Sys.wkFlag_step hi.calls hs]
  cases hst : a.stops s with
  | true =>
    -- the stop that raises the one flag lowers the other
    have hstart : a.starts = false := by cases a <;> first | rfl | cases hst
    have hlow : a.lowers s = true := by cases a <;> first | exact hst | cases hst
    simp [hstart, hlow]
  | false =>
    cases hstart : a.starts with
    | true => simp [hst, hstart] at hstop
    | false =>
      have := hi.apart (by simpa [hst, hstart] using hstop)
      simp [this]

/-- **The Save button, exactly.** In every reachable state the button makes the test that `save_md` makes
itself; it is disabled iff every stop that found a handle is followed by a new capture; and with packets held
and a file that opens, `save_md` writes iff the button is enabled. -/
theorem save_enabled_iff {h : Host} {acts : List Act} {s : Sys} (hr : Lts.run (Sys.step h) Sys.init acts = some s) :
    s.pcap.funcCan = s.pcap.stopFlag ∧
      (s.pcap.funcCan = false ↔
        Lts.Answered (Sys.step h) (fun s a => a.stops s = true) (fun _ a => a.starts = true) Sys.init acts) ∧
      ∀ opens, (s.pcap.saveMd opens).isSome = true ↔ s.pcap.vecDump ≠ [] ∧ opens = true ∧ s.pcap.funcCan = true := by
  have hi : s.StopInv :=
    Lts.run_invariant' (fun _ _ _ hi hs => Sys.StopInv.step hi hs) ⟨fun hm => List.not_mem_nil hm, fun hl => by cases hl⟩ hr
  have hcan : s.pcap.funcCan = s.pcap.stopFlag := by
    cases hstop : s.pcap.stopFlag with
    | true => simp [Pcap.funcCan, hstop, hi.apart hstop]
    | false => simp [Pcap.funcCan, hstop]
  have hflag : s.pcap.stopFlag = false ↔
      (Sys.init.pcap.stopFlag = true → Lts.Sometime (Sys.step h) (fun _ a => a.starts = true) Sys.init acts) ∧
      Lts.Answered (Sys.step h) (fun s a => a.stops s = true) (fun _ a => a.starts = true) Sys.init acts := by
    refine Lts.flag_false_iff (I := fun _ => True) (f := fun s => s.pcap.stopFlag) (fun _ _ _ _ _ => trivial)
      ?_ ?_ ?_ trivial hr
    · intro s a s' _ hs hst
      rw [Sys.stopFlag_step hs, if_pos hst]
    · intro s a s' _ hs hstart
      have hst : a.stops s = false := by cases a <;> first | rfl | cases hstart
      rw [Sys.stopFlag_step hs, hst, if_pos hstart]
      rfl
    · intro s a s' _ hs hst hstart
      rw [Sys.stopFlag_step hs, if_neg hst, if_neg hstart]
  refine ⟨hcan, ?_, ?_⟩
  · rw [hcan, hflag]
    simp [Sys.init]
  · intro opens
    rw [hcan, Pcap.saveMd]
    cases s.pcap.stopFlag <;> cases opens <;> simp

/-- A stop while the interface is open enables the button. -/
theorem save_enabled_after_stop : ∃ s, Lts.run (Sys.step .little) Sys.init
    [.createTh "eth0" "", .worker 0 (.openLive true), .worker 0 .post, .deliver, .stopTh] = some s ∧
      s.pcap.funcCan = true := by
  obtain ⟨s, hs, hw⟩ : ∃ s, Lts.run (Sys.step .little) Sys.init
      [.createTh "eth0" "", .worker 0 (.openLive true), .worker 0 .post, .deliver, .stopTh] = some s ∧
        s.workers.length = 1 := Lts.run_reaches (by decide +kernel)
  refine ⟨s, hs, ?_⟩
  rw [← Bool.not_eq_false]
  intro hcan
  exact absurd ((save_enabled_iff hs).2.1.1 hcan) (by decide +kernel)

end MiniWireshark

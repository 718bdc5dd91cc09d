import MiniWireshark.Flags
import MiniWireshark.Reopen

/-!
# Captures end (`Pcap.cpp:259-346`, `:404-420`)

A worker's last word about its handle is a blocking call: `set_Capture` waits in
`Qt::BlockingQueuedConnection` until the event loop has run it. The main thread never waits for a
worker, so nothing can wait in a circle; and a worker that has been told to stop has a bounded
number of calls left, one more packet included. Whether it gets to make them is up to the platform
while it waits in its read: `pcap_breakloop` does not unblock it (`Sys.ReadsReturned`).

| here | meaning |
| --- | --- |
| `Act.errs`        | a worker's action in which libpcap reports an error |
| `Act.calm`        | background steps that neither a packet nor an error has to bring about |
| `Act.own`         | those that no read has to return for either |
| `Sys.AwaitInv`    | a worker waits in its blocking call iff the call is queued, and it is queued once |
| `Phase.todo`      | what a told worker has left: its actions, and one delivery for each call it posts |
| `Sys.todo`        | the same for all workers, with a late packet each and the calls already queued |
| `takenAlong h s acts`, `ofWorker w` | what the handlers accept in a run, and worker `w`'s share of it |
| `Worker.allowance` | how many packets a told worker may still accept |
-/

namespace MiniWireshark

open scoped List

variable {h : Host} {s s' : Sys}

def WkAct.errs : WkAct → Bool
  | .openLive ok | .compile ok | .setfilter ok => !ok
  | .loopError => true
  | _ => false

def Act.errs : Act → Bool
  | .worker _ a => a.errs
  | _ => false

/-- Deliveries and what a worker does with neither a packet nor an error. -/
def Act.calm : Act → Bool
  | .worker _ (.packet _) => false
  | .worker _ a => !a.errs
  | a => a.background

/-- Those that do not wait for a read to return. -/
def Act.own : Act → Bool
  | .worker _ .wake => false
  | a => a.calm

theorem Act.calm_of_own {a : Act} (ho : a.own = true) : a.calm = true := by
  cases a with
  | worker w b => cases b <;> first | exact ho | cases ho
  | _ => exact ho

theorem Act.background_of_calm {a : Act} (hc : a.calm = true) : a.background = true := by
  cases a with
  | worker w b => rfl
  | deliver => rfl
  | _ => cases hc

/-! ## Waiting workers -/

/-- A worker waits in its blocking call iff the call is queued, and it is queued once. -/
def Sys.AwaitInv (s : Sys) : Prop :=
  ∀ w, s.queue.count (.clearWkPp w) = if s.At w Phase.waiting then 1 else 0

theorem Worker.Quiet.waiting {w : Nat} {wk wk' : Worker} {a : WkAct} (hq : Worker.Quiet h w wk a wk') :
    wk'.phase.waiting = false := by
  cases hq with
  | openLive ok hph => cases ok <;> rfl
  | compile ok hph => cases ok <;> rfl
  | setfilter ok hph => cases ok <;> rfl
  | _ => rfl

theorem Worker.Post.waiting_iff {w : Nat} {wk wk' : Worker} {m : Msg} (hp : Worker.Post w wk m wk') :
    wk'.phase.waiting = true ↔ m = .clearWkPp w := by
  cases hp <;> simp [Phase.waiting]

theorem Worker.unblock_waiting (wk : Worker) : wk.unblock.phase.waiting = false := by
  unfold Worker.unblock
  split
  · rfl
  · cases hk : wk.phase <;> first | rfl | exact absurd hk ‹_›

theorem Sys.at_set_self {v : Nat} {P : Phase → Bool} {wk wk' : Worker} (hv : s.workers[v]? = some wk)
    (hs : s'.workers = s.workers.set v wk') : s'.At v P ↔ P wk'.phase = true := by
  rw [Sys.At, hs, Lists.getElem?_set_of_some hv, Option.any_some]

theorem Sys.at_set_ne {v w : Nat} {P : Phase → Bool} {wk' : Worker} (hvw : v ≠ w)
    (hs : s'.workers = s.workers.set v wk') : s'.At w P ↔ s.At w P := by
  rw [Sys.At, Sys.At, hs, List.getElem?_set_ne hvw]

/-- A call that is not about the handle of `w` does not count. -/
theorem Worker.Post.count_clearing {v w : Nat} {wk wk' : Worker} {m : Msg} (hp : Worker.Post v wk m wk') (hvw : v ≠ w) :
    [m].count (.clearWkPp w) = 0 := by
  rw [List.count_eq_zero, List.mem_singleton]
  exact fun hm => hvw (hp.handle.2 hm.symm).1.symm

theorem Sys.AwaitInv.call {m : Msg} {q : List Msg} (hi : s.AwaitInv) (hq : s.queue = m :: q) : (s.call q m).AwaitInv := by
  intro w
  have hw := hi w
  rw [hq, List.count_cons] at hw
  cases m with
  | clearWkPp v =>
    by_cases hvw : v = w
    · -- the worker whose call is delivered waited, with this one call queued; now neither holds
      subst hvw
      have hno : ¬ (s.call q (.clearWkPp v)).At v Phase.waiting := by
        intro hat
        obtain ⟨wk, hwk, hph⟩ := Sys.at_iff.1 hat
        obtain ⟨wk₀, _, ⟨_, rfl⟩ | ⟨hne, _⟩⟩ := Lists.getElem?_modify_eq_some hwk
        · rw [Worker.unblock_waiting] at hph
          cases hph
        · exact hne rfl
      rw [if_neg hno]
      simp only [beq_self_eq_true, if_true] at hw
      split at hw <;> simp only [Sys.call] <;> omega
    · have hat : (s.call q (.clearWkPp v)).At w Phase.waiting ↔ s.At w Phase.waiting := by
        simp [Sys.At, Sys.call, hvw]
      have hne : (Msg.clearWkPp v == Msg.clearWkPp w) = false := by simpa using hvw
      rw [if_congr hat rfl rfl, ← hw, hne]
      rfl
  | _ => exact hw

/-- **Every step keeps it.** -/
theorem Sys.AwaitInv.step {a : Act} (hi : s.AwaitInv) (hs : Sys.step h s a = some s') : s'.AwaitInv := by
  intro w
  have hw := hi w
  cases Sys.step_move hs with
  | still _ hc =>
    have hat : s'.At w Phase.waiting ↔ s.At w Phase.waiting := by rw [Sys.At, Sys.At, hc.workers]
    rw [hc.queue, hw, if_congr hat rfl rfl]
  | start nicName ft hn =>
    have hat : (s.createTh nicName ft).At w Phase.waiting ↔ s.At w Phase.waiting := by
      rw [s.createTh_of_name ft hn]
      refine ⟨fun hw => ?_, fun hw => hw.append rfl⟩
      obtain ⟨wk, hwk, hph⟩ := Sys.at_iff.1 hw
      rw [List.getElem?_append] at hwk
      split at hwk
      · exact Sys.at_iff.2 ⟨wk, hwk, hph⟩
      · rw [List.mem_singleton.1 (List.mem_of_getElem? hwk)] at hph
        cases hph
    rw [if_congr hat rfl rfl, ← hw, s.createTh_of_name ft hn]
  | stop v hv =>
    have hat : s.stopTh.At w Phase.waiting ↔ s.At w Phase.waiting := by
      rw [Sys.stopTh_of_handle hv]
      refine ⟨fun hw => ?_, fun hw => hw.modify rfl fun _ _ hP => hP⟩
      refine hw.of_modify rfl ?_
      exact fun _ hP => hP
    rw [if_congr hat rfl rfl, ← hw, Sys.stopTh_of_handle hv]
  | call m q hq => exact hi.call hq w
  | @quiet v a wk wk' hv hq =>
    have hat : Sys.At { s with workers := s.workers.set v wk' } w Phase.waiting ↔ s.At w Phase.waiting := by
      by_cases hvw : v = w
      · subst hvw
        rw [Sys.at_set_self hv rfl, hq.waiting, Sys.At, hv, Option.any_some, hq.was_busy.1]
      · exact Sys.at_set_ne hvw rfl
    rw [if_congr hat rfl rfl]
    exact hw
  | @post v m wk wk' hv hp =>
    rw [List.count_append, hw]
    by_cases hvw : v = w
    · subst hvw
      have hno : ¬ s.At v Phase.waiting := by
        rw [Sys.At, hv, Option.any_some, hp.was_busy.1]
        exact Bool.false_ne_true
      rw [if_neg hno, if_congr ((Sys.at_set_self hv rfl).trans hp.waiting_iff) rfl rfl, List.count_singleton]
      simp
    · have hat : Sys.At { s with workers := s.workers.set v wk', queue := s.queue ++ [m] } w Phase.waiting ↔
          s.At w Phase.waiting := Sys.at_set_ne hvw rfl
      rw [hp.count_clearing hvw, if_congr hat rfl rfl, Nat.add_zero]

theorem Sys.AwaitInv.run {acts : List Act} (hr : Lts.run (Sys.step h) Sys.init acts = some s) : s.AwaitInv :=
  Lts.run_invariant' (fun _ _ _ hi hs => Sys.AwaitInv.step hi hs) (fun _ => rfl) hr

/-! ## What is enabled -/

/-- A worker that has not ended can act, unless it waits in its blocking call or in its read. -/
theorem Worker.can_act (w : Nat) (wk : Worker) (hf : wk.phase ≠ .finished) (hw : wk.phase.waiting = false)
    (hr : wk.phase ≠ .reading) :
    ∃ a, (Act.worker w a).own = true ∧ (wk.step h w a).isSome = true := by
  cases hp : wk.phase with
  | started => exact ⟨.openLive true, rfl, by simp [Worker.step, hp]⟩
  | lifePosted =>
    cases he : wk.bfsFt.isEmpty with
    | true => exact ⟨.enterLoop, rfl, by simp only [Worker.step, hp, he]; rfl⟩
    | false => exact ⟨.compile true, rfl, by simp only [Worker.step, hp, he]; rfl⟩
  | compiled => exact ⟨.setfilter true, rfl, by simp [Worker.step, hp]⟩
  | looping =>
    cases hb : wk.brk with
    | true => exact ⟨.loopBreak, rfl, by simp [Worker.step, hp, hb]⟩
    | false => exact ⟨.read, rfl, by simp [Worker.step, hp, hb]⟩
  | reading => exact absurd hp hr
  | left => exact ⟨.close, rfl, by simp [Worker.step, hp]⟩
  | blocked => rw [hp] at hw; cases hw
  | finished => exact absurd hp hf
  | _ => exact ⟨.post, rfl, by simp [Worker.step, hp]⟩

theorem Sys.step_isSome_of_worker {w : Nat} {wk : Worker} {a : WkAct} (hw : s.workers[w]? = some wk)
    (ha : (wk.step h w a).isSome = true) : (Sys.step h s (.worker w a)).isSome = true := by
  obtain ⟨⟨wk', ms⟩, hst⟩ := Option.isSome_iff_exists.1 ha
  simp [Sys.step, Sys.work, hw, hst]

/-- Something can go on of its own accord, everything has ended, or some capture waits in its read. -/
theorem Sys.AwaitInv.progress (hi : s.AwaitInv) :
    s.Idle ∨ (∃ a, a.own = true ∧ (Sys.step h s a).isSome = true) ∨ ∃ wk ∈ s.workers, wk.phase = .reading := by
  cases hq : s.queue with
  | cons m q => exact .inr (.inl ⟨.deliver, rfl, by simp [Sys.step, Sys.deliver, hq]⟩)
  | nil =>
    by_cases hall : ∀ wk ∈ s.workers, wk.phase = .finished
    · exact .inl ⟨hall, hq⟩
    · right
      push Not at hall
      obtain ⟨wk, hmem, hf⟩ := hall
      obtain ⟨w, hw⟩ := List.mem_iff_getElem?.1 hmem
      -- nobody waits: the call that would free a waiting worker is not queued
      have hwait : wk.phase.waiting = false := by
        by_contra hn
        have hat : s.At w Phase.waiting := Sys.at_iff.2 ⟨wk, hw, by simpa using hn⟩
        have hc := hi w
        rw [if_pos hat, hq] at hc
        cases hc
      by_cases hr : wk.phase = .reading
      · exact .inr ⟨wk, hmem, hr⟩
      · obtain ⟨a, ha, hst⟩ := wk.can_act (h := h) w hf hwait hr
        exact .inl ⟨.worker w a, ha, Sys.step_isSome_of_worker hw hst⟩

/-- **No deadlock.** In every reachable state, a worker waits in its blocking call iff that call is
queued, once; and unless everything has ended, the event loop or a worker can go on of its own
accord or some capture, told to stop or not, waits in its read for a packet. -/
theorem no_deadlock {acts : List Act} (hr : Lts.run (Sys.step h) Sys.init acts = some s) :
    (∀ w, s.queue.count (.clearWkPp w) = if s.At w Phase.waiting then 1 else 0) ∧
      (s.Idle ∨ (∃ a, a.own = true ∧ (Sys.step h s a).isSome = true) ∨ ∃ wk ∈ s.workers, wk.phase = .reading) :=
  ⟨Sys.AwaitInv.run hr, (Sys.AwaitInv.run hr).progress⟩

/-- A capture whose loop failed, waiting for its clearing to be delivered. -/
def waitingCapture : List Act :=
  [.createTh "eth0" "", .worker 0 (.openLive true), .worker 0 .post, .worker 0 .post, .worker 0 .enterLoop,
    .worker 0 .loopError, .worker 0 .close, .worker 0 .post]

/-- The waiting worker's call is queued once, behind its two others. -/
theorem no_deadlock_waiting : ∃ s, Lts.run (Sys.step .little) Sys.init waitingCapture = some s ∧
    s.At 0 Phase.waiting ∧ s.queue.count (.clearWkPp 0) = 1 := by
  obtain ⟨s, hs, hat⟩ : ∃ s, Lts.run (Sys.step .little) Sys.init waitingCapture = some s ∧ s.At 0 Phase.waiting :=
    Lts.run_reaches (by decide +kernel)
  have hc := (no_deadlock hs).1 0
  rw [if_pos hat] at hc
  exact ⟨s, hs, hat, hc⟩

/-! ## What is left to do -/

/-- What a worker that takes no further packet has left: its actions, and a delivery for each call it
posts. -/
def Phase.todo : Phase → Nat
  | .started => 13
  | .opened => 12
  | .ppPosted => 10
  | .handling _ _ => 10
  | .lifePosted => 8
  | .mdPosted _ => 8
  | .compiled => 7
  | .reading => 7
  | .looping => 6
  | .left => 5
  | .closed => 4
  | .openFailed => 4
  | .blocked => 2
  | .cleared => 2
  | .failPosted => 2
  | .finished => 0

/-- One more packet takes a told worker five steps further back. -/
def Worker.todo (wk : Worker) : Nat := wk.phase.todo + if wk.late then 0 else 5

def Sys.todo (s : Sys) : Nat := (s.workers.map Worker.todo).sum + s.queue.length

/-- A worker that was told or is past its loop. -/
def Worker.Told (wk : Worker) : Prop := wk.brk = true ∨ wk.phase.pastLoop = true

theorem Worker.Told.brk {wk : Worker} (ht : wk.Told) (hp : wk.phase.pastLoop = false) : wk.brk = true := by
  refine ht.resolve_right ?_
  rw [hp]
  exact Bool.false_ne_true

/-- What a told worker does leaves it told and with less to do; a packet is its last. -/
theorem Worker.Quiet.told {w : Nat} {wk wk' : Worker} {a : WkAct} (hq : Worker.Quiet h w wk a wk') (ht : wk.Told) :
    wk'.Told ∧ wk'.todo < wk.todo ∧ (wk.taken h w a ≠ [] → wk'.Spent) := by
  cases hq with
  | openLive ok hp => cases ok <;> simp_all [Worker.Told, Phase.pastLoop, Worker.todo, Phase.todo, Worker.taken]
  | compile ok hp => cases ok <;> simp_all [Worker.Told, Phase.pastLoop, Worker.todo, Phase.todo, Worker.taken]
  | setfilter ok hp => cases ok <;> simp_all [Worker.Told, Phase.pastLoop, Worker.todo, Phase.todo, Worker.taken]
  | read hp hb =>
    have hb' := ht.brk (by rw [hp]; rfl)
    rw [hb] at hb'
    cases hb'
  | reject f hp hl ha =>
    have hb : wk.brk = true := ht.brk (by rcases hp with hp | hp <;> rw [hp] <;> rfl)
    rcases hp with hp | hp <;> simp_all [Worker.Told, Worker.todo, Phase.todo, Worker.Spent]
  | accept f pkt hp hl ha =>
    have hb : wk.brk = true := ht.brk (by rcases hp with hp | hp <;> rw [hp] <;> rfl)
    rcases hp with hp | hp <;> simp_all [Worker.Told, Worker.todo, Phase.todo, Worker.Spent]
  | loopError hp => rcases hp with hp | hp <;> simp_all [Worker.Told, Phase.pastLoop, Worker.todo, Phase.todo, Worker.taken]
  | _ => simp_all [Worker.Told, Phase.pastLoop, Worker.todo, Phase.todo, Worker.taken]

theorem Worker.Post.told {w : Nat} {wk wk' : Worker} {m : Msg} (hp : Worker.Post w wk m wk') (ht : wk.Told) :
    wk'.Told := by
  cases hp <;> simp_all [Worker.Told, Phase.pastLoop]

theorem Worker.Post.todo {w : Nat} {wk wk' : Worker} {m : Msg} (hp : Worker.Post w wk m wk') :
    wk'.todo + 1 < wk.todo := by
  cases hp <;> rename_i hph <;> simp only [Worker.todo, Phase.todo, hph] <;> omega

theorem Worker.unblock_told (wk : Worker) (ht : wk.Told) : wk.unblock.Told := by
  rcases wk.unblock_cases with ⟨_, he⟩ | he
  · rw [he]
    exact .inr rfl
  · rwa [he]

theorem Worker.unblock_todo (wk : Worker) : wk.unblock.todo = wk.todo := by
  rcases wk.unblock_cases with ⟨hp, he⟩ | he
  · simp [he, Worker.todo, hp, Phase.todo]
  · rw [he]

/-- A delivery is one thing less to do. -/
theorem Sys.todo_call {m : Msg} {q : List Msg} (hq : s.queue = m :: q) : (s.call q m).todo + 1 = s.todo := by
  have htodo : (s.call q m).workers.map Worker.todo = s.workers.map Worker.todo := by
    cases m <;> first | rfl | exact Lists.map_modify_of_eq Worker.unblock_todo
  have hlen : (s.call q m).queue.length = q.length := by cases m <;> rfl
  rw [Sys.todo, Sys.todo, htodo, hlen, hq, List.length_cons, Nat.add_assoc]

/-- **A background step of told workers** leaves them told and leaves less to do. -/
theorem Sys.AllTold.step {a : Act} (ht : s.AllTold) (hb : a.background = true) (hs : Sys.step h s a = some s') :
    s'.AllTold ∧ s'.todo < s.todo := by
  have hset (v : Nat) {wk' : Worker} (htold : wk'.Told) : ∀ r ∈ s.workers.set v wk', r.Told := by
    intro r hr
    rcases List.mem_or_eq_of_mem_set hr with hr | rfl
    · exact ht r hr
    · exact htold
  cases Sys.step_move hs with
  | @still a _ hstill _ => cases a <;> first | exact False.elim hstill | cases hb
  | start nicName ft hn => cases hb
  | stop v hv => cases hb
  | call m q hq =>
    refine ⟨?_, ?_⟩
    · cases m with
      | clearWkPp v =>
        intro wk hwk
        obtain ⟨w, hw⟩ := List.mem_iff_getElem?.1 hwk
        obtain ⟨wk₀, hw₀, ⟨_, rfl⟩ | ⟨_, rfl⟩⟩ := Lists.getElem?_modify_eq_some hw
        · exact wk₀.unblock_told (ht wk₀ (List.mem_of_getElem? hw₀))
        · exact ht wk (List.mem_of_getElem? hw₀)
      | _ => exact ht
    · have htodo := Sys.todo_call hq
      omega
  | @quiet v a wk wk' hv hq =>
    obtain ⟨htold, hlt, _⟩ := hq.told (ht wk (List.mem_of_getElem? hv))
    have hsum := Lists.sum_map_set hv Worker.todo wk'
    refine ⟨hset v htold, ?_⟩
    simp only [Sys.todo]
    omega
  | @post v m wk wk' hv hp =>
    have htold := hp.told (ht wk (List.mem_of_getElem? hv))
    have hlt := hp.todo
    have hsum := Lists.sum_map_set hv Worker.todo wk'
    refine ⟨hset v htold, ?_⟩
    simp only [Sys.todo, List.length_append, List.length_singleton]
    omega

/-! ## Late packets -/

/-- What the handlers accept in a run. -/
def takenAlong (h : Host) (s : Sys) (acts : List Act) : List (Row × Entry) :=
  Lts.trace (Sys.step h) (Sys.taken h) s acts

theorem takenAlong_cons {a : Act} {acts : List Act} (hs : Sys.step h s a = some s') :
    takenAlong h s (a :: acts) = s.taken h a ++ takenAlong h s' acts := by
  simp [takenAlong, Lts.trace, hs]

/-- A background run adds what it accepts. -/
theorem Sys.background_flow {bg : List Act} (hb : ∀ a ∈ bg, a.background = true)
    (hr : Lts.run (Sys.step h) s bg = some s') :
    s'.rows ~ s.rows ++ (takenAlong h s bg).map Prod.fst ∧ s'.entries ~ s.entries ++ (takenAlong h s bg).map Prod.snd := by
  induction bg generalizing s with
  | nil =>
    cases hr
    simp [takenAlong, Lts.trace]
  | cons a bg ih =>
    obtain ⟨t, ht, hr⟩ := Lts.run_cons_eq_some.1 hr
    obtain ⟨hrows, hentries⟩ := ih (fun b hm => hb b (List.mem_cons_of_mem a hm)) hr
    obtain ⟨hr₀, he₀⟩ := (Sys.step_flow ht).2 (Act.clears_of_background (hb a List.mem_cons_self))
    rw [takenAlong_cons ht, List.map_append, List.map_append, ← List.append_assoc, ← List.append_assoc]
    exact ⟨hrows.trans (hr₀.append_right _), hentries.trans (he₀.append_right _)⟩

/-- The packets that the callback of worker `w` accepted. -/
def ofWorker (w : Nat) (taken : List (Row × Entry)) : List (Row × Entry) := taken.filter fun p => p.1.src = .live w

theorem ofWorker_stored (w : Nat) (src : Source) (n : Nat) (fs : List Frame) :
    ofWorker w (stored h src n fs) = if src = .live w then stored h src n fs else [] := by
  have hsrc (p : Row × Entry) (hp : p ∈ stored h src n fs) : p.1.src = src := (sameFrame_of_mem_stored hp).2.1
  split
  · exact List.filter_eq_self.2 fun p hp => by simpa [hsrc p hp]
  · exact List.filter_eq_nil_iff.2 fun p hp => by simpa [hsrc p hp]

theorem Worker.ofWorker_taken (v w : Nat) (wk : Worker) (b : WkAct) :
    ofWorker w (wk.taken h v b) = if v = w then wk.taken h v b else [] := by
  cases b with
  | packet f => simp only [Worker.taken, ofWorker_stored, Source.live.injEq]
  | _ => exact (ite_self _).symm

/-- Only an action of worker `w` makes it accept packets. -/
theorem Sys.ofWorker_taken {a : Act} {w : Nat} (ha : ∀ b, a ≠ .worker w b) : ofWorker w (s.taken h a) = [] := by
  cases a with
  | worker v b =>
    have hvw : v ≠ w := fun hvw => ha b (by rw [hvw])
    simp only [Sys.taken]
    split
    · rw [Worker.ofWorker_taken, if_neg hvw]
    · rfl
  | pcapFileRead file =>
    cases file with
    | none => rfl
    | some frames => simp [Sys.taken, ofWorker_stored]
  | _ => rfl

/-- How many packets a told worker may still accept. -/
def Worker.allowance (wk : Worker) : Nat := if wk.Spent then 0 else 1

theorem Worker.allowance_le_one (wk : Worker) : wk.allowance ≤ 1 := by
  unfold Worker.allowance
  split
  · exact Nat.zero_le 1
  · exact Nat.le_refl 1

theorem Sys.Moved.allowance_le {a : Act} {w : Nat} {wk wk' : Worker} (hm : Sys.Moved h s w wk a wk') :
    wk'.allowance ≤ wk.allowance := by
  unfold Worker.allowance
  by_cases hd : wk.Spent
  · rw [if_pos hd, if_pos (hm.stays_spent hd)]
  · rw [if_neg hd]
    exact wk'.allowance_le_one

/-- No step makes a told worker untold. -/
theorem Sys.Moved.stays_told {a : Act} {w : Nat} {wk wk' : Worker} (hm : Sys.Moved h s w wk a wk') (ht : wk.Told) :
    wk'.Told := by
  cases hm with
  | same => exact ht
  | told => exact .inl rfl
  | unblocked => exact wk.unblock_told ht
  | quiet hq => exact (hq.told ht).1
  | post hp => exact hp.told ht

/-- **Step.** A told worker stays told, and uses its allowance up with the packet it accepts. -/
theorem Worker.Told.step {a : Act} {w : Nat} {wk : Worker} (ht : wk.Told) (hw : s.workers[w]? = some wk)
    (hs : Sys.step h s a = some s') : ∃ wk', s'.workers[w]? = some wk' ∧ wk'.Told ∧
      (ofWorker w (s.taken h a)).length + wk'.allowance ≤ wk.allowance := by
  obtain ⟨wk', hw', hm⟩ := Sys.step_moved hw hs
  refine ⟨wk', hw', hm.stays_told ht, ?_⟩
  have hnone (hn : ofWorker w (s.taken h a) = []) :
      (ofWorker w (s.taken h a)).length + wk'.allowance ≤ wk.allowance := by
    rw [hn, List.length_nil, Nat.zero_add]
    exact hm.allowance_le
  by_cases ha : ∃ b, a = .worker w b
  · obtain ⟨b, rfl⟩ := ha
    obtain ⟨wk₀, wk₁, ms, hw₀, hst, rfl⟩ := Sys.work_step hs
    cases hw₀.symm.trans hw
    cases (Lists.getElem?_set_of_some hw wk₁).symm.trans hw'
    have htaken : ofWorker w (s.taken h (.worker w b)) = wk.taken h w b := by
      simp only [Sys.taken, hw, Worker.ofWorker_taken, if_true]
    by_cases hnil : wk.taken h w b = []
    · exact hnone (htaken.trans hnil)
    · -- it accepts one packet: it was not spent, and is now
      have hone : (wk.taken h w b).length ≤ 1 := by
        cases b with
        | packet f =>
          rw [Worker.taken, length_stored]
          exact List.length_filter_le _ [f]
        | _ => exact Nat.zero_le 1
      have hopen : ¬ wk.Spent := fun hd => hnil (hd.taken hst)
      have hspent : wk'.Spent := by
        rcases Worker.step_cases hst with ⟨_, hq⟩ | ⟨rfl, _⟩
        · exact (hq.told ht).2.2 hnil
        · exact absurd rfl hnil
      rw [htaken, Worker.allowance, Worker.allowance, if_neg hopen, if_pos hspent]
      exact hone
  · exact hnone (Sys.ofWorker_taken fun b hb => ha ⟨b, hb⟩)

/-- **Run.** -/
theorem Worker.Told.run {acts : List Act} {w : Nat} {wk : Worker} (ht : wk.Told) (hw : s.workers[w]? = some wk)
    (hr : Lts.run (Sys.step h) s acts = some s') : (ofWorker w (takenAlong h s acts)).length ≤ wk.allowance := by
  induction acts generalizing s wk with
  | nil => exact Nat.zero_le _
  | cons a acts ih =>
    obtain ⟨t, hs, hr⟩ := Lts.run_cons_eq_some.1 hr
    obtain ⟨wk', hw', ht', hle⟩ := ht.step hw hs
    have hrest := ih ht' hw' hr
    rw [takenAlong_cons hs, ofWorker, List.filter_append, List.length_append]
    simp only [ofWorker] at hle hrest
    omega

/-! ## The end of a capture -/

/-- The platform's part: no worker waits in its read any more, where `pcap_breakloop` does not reach it. -/
def Sys.ReadsReturned (s : Sys) : Prop := ∀ wk ∈ s.workers, wk.phase ≠ .reading

/-- What a run in the background keeps once every worker is told. -/
structure Sys.Draining (s : Sys) : Prop where
  told : s.AllTold
  awaited : s.AwaitInv

theorem Sys.Draining.step {a : Act} (hd : s.Draining) (hb : a.background = true)
    (hs : Sys.step h s a = some s') : s'.Draining :=
  ⟨(hd.told.step hb hs).1, hd.awaited.step hs⟩

theorem Sys.Draining.progress (hd : s.Draining) (hreads : s.ReadsReturned) :
    s.Idle ∨ ∃ a, a.own = true ∧ (Sys.step h s a).isSome = true := by
  rcases hd.awaited.progress (h := h) with hidle | hown | ⟨wk, hwk, hp⟩
  · exact .inl hidle
  · exact .inr hown
  · exact absurd hp (hreads wk hwk)

/-- A wake-up is enabled where a read is what is waited for. -/
theorem Sys.AwaitInv.calm_progress (hi : s.AwaitInv) :
    s.Idle ∨ ∃ a, a.calm = true ∧ (Sys.step h s a).isSome = true := by
  rcases hi.progress (h := h) with hidle | ⟨a, ho, hs⟩ | ⟨wk, hwk, hp⟩
  · exact .inl hidle
  · exact .inr ⟨a, Act.calm_of_own ho, hs⟩
  · obtain ⟨w, hw⟩ := List.mem_iff_getElem?.1 hwk
    exact .inr ⟨.worker w .wake, rfl, Sys.step_isSome_of_worker hw (by simp [Worker.step, hp])⟩

/-- Told workers can run to their end, with neither packet nor error. -/
theorem Sys.Draining.exists_idle (hd : s.Draining) :
    ∃ bg t, (∀ a ∈ bg, a.calm = true) ∧ Lts.run (Sys.step h) s bg = some t ∧ t.Idle := by
  have hstep (u : Sys) (a : Act) (u' : Sys) (hd : u.Draining) (hc : a.calm = true)
      (hs : Sys.step h u a = some u') : u'.Draining := hd.step (Act.background_of_calm hc) hs
  have hlt (u : Sys) (a : Act) (u' : Sys) (hd : u.Draining) (hc : a.calm = true)
      (hs : Sys.step h u a = some u') : u'.todo < u.todo := (hd.told.step (Act.background_of_calm hc) hs).2
  have hgo (u : Sys) (hd : u.Draining) : u.Idle ∨ ∃ a u', a.calm = true ∧ Sys.step h u a = some u' := by
    rcases hd.awaited.calm_progress (h := h) with hidle | ⟨a, hc, hs⟩
    · exact .inl hidle
    · obtain ⟨u', hu'⟩ := Option.isSome_iff_exists.1 hs
      exact .inr ⟨a, u', hc, hu'⟩
  obtain ⟨bg, t, hal, hrun, hidle⟩ := Lts.exists_run_to hstep hlt hgo s hd
  exact ⟨bg, t, (Lts.along_labels_iff hrun).1 hal, hrun, hidle⟩

/-- **A stopped capture ends, and loses nothing.** From every reachable state in which every worker has been told to
stop or is past its loop, a run without a packet, an error or a click ends everything. And whatever happens without a
click: no run is longer than `todo`; each worker accepts at most one more packet; a run that has not ended everything
can go on, unless it waits for a read to return; and once everything has ended, `md` and `vec_dump` hold exactly what
was stored or on its way and those late packets, no handle is cached and `wk_life` is false. -/
theorem stopped_captures_end {acts : List Act} (hr : Lts.run (Sys.step h) Sys.init acts = some s) (ht : s.AllTold) :
    (∃ bg t, (∀ a ∈ bg, a.calm = true) ∧ Lts.run (Sys.step h) s bg = some t ∧ t.Idle) ∧
    ∀ bg t, (∀ a ∈ bg, a.background = true) → Lts.run (Sys.step h) s bg = some t →
      bg.length ≤ s.todo ∧
      (∀ w < s.workers.length, (ofWorker w (takenAlong h s bg)).length ≤ 1) ∧
      (t.ReadsReturned → t.Idle ∨ ∃ a, a.own = true ∧ (Sys.step h t a).isSome = true) ∧
      (t.Idle → t.pcap.md.vec ~ s.rows ++ (takenAlong h s bg).map Prod.fst ∧
        t.pcap.vecDump ~ s.entries ++ (takenAlong h s bg).map Prod.snd ∧ t.pcap.wkPp = none ∧ t.pcap.wkLife = false) := by
  have hd : s.Draining := ⟨ht, Sys.AwaitInv.run hr⟩
  refine ⟨hd.exists_idle, fun bg t hb hrun => ?_⟩
  have hstep (u : Sys) (a : Act) (u' : Sys) (hd : u.Draining) (hb : a.background = true)
      (hs : Sys.step h u a = some u') : u'.Draining := hd.step hb hs
  have hlt (u : Sys) (a : Act) (u' : Sys) (hd : u.Draining) (hb : a.background = true)
      (hs : Sys.step h u a = some u') : u'.todo < u.todo := (hd.told.step hb hs).2
  have hal := (Lts.along_labels_iff hrun).2 hb
  have hlen := Lts.length_le_of_measure hstep hlt hd hal hrun
  have hdt : t.Draining := Lts.run_invariant hstep hal hd hrun
  refine ⟨by omega, fun w hw => ?_, hdt.progress, fun hidle => ?_⟩
  · have hwk := List.getElem?_eq_getElem hw
    have htold : (s.workers[w]).Told := ht _ (List.getElem_mem hw)
    exact (htold.run hwk hrun).trans (s.workers[w]).allowance_le_one
  · have hpend := hidle.nonePending
    have hrt : Lts.run (Sys.step h) Sys.init (acts ++ bg) = some t := Lts.run_append_eq_some.2 ⟨s, hr, hrun⟩
    obtain ⟨hrows, hentries⟩ := Sys.background_flow hb hrun
    rw [Sys.rows, hpend.1, List.append_nil] at hrows
    rw [Sys.entries, hpend.2, List.append_nil] at hentries
    exact ⟨hrows, hentries, hidle.wkPp hrt, hidle.wkLife hrt⟩

/-- A capture stopped with a packet in the callback. -/
def stopInCallback (f : Frame) : List Act :=
  [.createTh "eth0" "", .worker 0 (.openLive true), .worker 0 .post, .worker 0 .post, .deliver, .worker 0 .enterLoop,
    .worker 0 .read, .worker 0 (.packet f), .stopTh]

/-- Back in the loop it accepts one more, and ends. -/
def lateEnd (f : Frame) : List Act :=
  [.worker 0 .post, .worker 0 .post, .worker 0 (.packet f), .worker 0 .post, .worker 0 .post, .worker 0 .loopBreak,
    .worker 0 .close, .worker 0 .post, .deliver, .deliver, .deliver, .deliver, .deliver, .deliver, .worker 0 .post, .deliver]

/-- It ends with both packets stored. -/
theorem stopped_captures_end_late : ∃ s t,
    Lts.run (Sys.step .little) Sys.init (stopInCallback (udpFrame 42)) = some s ∧
      Lts.run (Sys.step .little) s (lateEnd (udpFrame 43)) = some t ∧ t.Idle ∧
      (lateEnd (udpFrame 43)).length ≤ s.todo ∧ s.entries.length = 1 ∧
      (ofWorker 0 (takenAlong .little s (lateEnd (udpFrame 43)))).length = 1 ∧
      t.pcap.vecDump ~ s.entries ++ (takenAlong .little s (lateEnd (udpFrame 43))).map Prod.snd := by
  obtain ⟨s, hs, ht, hone, hlate, hend⟩ : ∃ s,
      Lts.run (Sys.step .little) Sys.init (stopInCallback (udpFrame 42)) = some s ∧ s.AllTold ∧ s.entries.length = 1 ∧
        (ofWorker 0 (takenAlong .little s (lateEnd (udpFrame 43)))).length = 1 ∧
        (Lts.run (Sys.step .little) s (lateEnd (udpFrame 43))).any (fun t => decide t.Idle) = true :=
    Lts.run_reaches (by decide +kernel)
  obtain ⟨t, hrun, hidle⟩ := Lts.run_reaches hend
  have hb : ∀ a ∈ lateEnd (udpFrame 43), a.background = true := by
    intro a ha
    simp only [lateEnd, List.mem_cons, List.not_mem_nil, or_false] at ha
    rcases ha with rfl | rfl | rfl | rfl | rfl | rfl | rfl | rfl | rfl | rfl | rfl | rfl | rfl | rfl | rfl | rfl <;> rfl
  obtain ⟨hlen, _, _, hend⟩ := (stopped_captures_end hs ht).2 _ t hb hrun
  exact ⟨s, t, hs, hrun, hidle, hlen, hone, hlate, (hend hidle).2.1⟩

end MiniWireshark

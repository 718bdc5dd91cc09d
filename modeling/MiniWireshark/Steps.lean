import MiniWireshark.Lib.Lists
import MiniWireshark.Store
import MiniWireshark.System

/-!
# What a step can do

Inversion lemmas for `Worker.step` and `Sys.step`: an action of a worker either posts nothing
(`Quiet`) or posts one call (`Post`), and a step of the program is an operation of `Pcap`, a
delivery, or such an action; `Moved` is the same seen from one worker. The invariants of the later
modules are derived from these.
-/

namespace MiniWireshark

/-- The action posts nothing. -/
inductive Worker.Quiet (h : Host) (w : Nat) (wk : Worker) : WkAct → Worker → Prop where
  | openLive (ok : Bool) : wk.phase = .started →
      Quiet h w wk (.openLive ok) { wk with phase := if ok then .opened else .openFailed }
  | enterLoop : wk.phase = .lifePosted → Quiet h w wk .enterLoop { wk with phase := .looping }
  | compile (ok : Bool) : wk.phase = .lifePosted →
      Quiet h w wk (.compile ok) { wk with phase := if ok then .compiled else .left }
  | setfilter (ok : Bool) : wk.phase = .compiled →
      Quiet h w wk (.setfilter ok) { wk with phase := if ok then .looping else .left }
  | read : wk.phase = .looping → wk.brk = false → Quiet h w wk .read { wk with phase := .reading }
  | wake : wk.phase = .reading → Quiet h w wk .wake { wk with phase := .looping }
  | reject (f : Frame) : wk.phase = .looping ∨ wk.phase = .reading → wk.late = false → accepted h f = none →
      Quiet h w wk (.packet f) { wk with late := wk.brk, phase := .looping }
  | accept (f : Frame) (pkt : StPkt) : wk.phase = .looping ∨ wk.phase = .reading → wk.late = false →
      accepted h f = some pkt →
      Quiet h w wk (.packet f) { wk with
        num := wk.num + 1
        late := wk.brk
        phase := .handling (f.pair (.live w) wk.num pkt).1 (f.pair (.live w) wk.num pkt).2 }
  | loopBreak : wk.phase = .looping → wk.brk = true → Quiet h w wk .loopBreak { wk with phase := .left }
  | loopError : wk.phase = .looping ∨ wk.phase = .reading → Quiet h w wk .loopError { wk with phase := .left }
  | close : wk.phase = .left → Quiet h w wk .close { wk with phase := .closed }

/-- The action posts one call. -/
inductive Worker.Post (w : Nat) (wk : Worker) : Msg → Worker → Prop where
  | openFailed : wk.phase = .openFailed → Post w wk (.setWkLife false) { wk with phase := .failPosted }
  | failPosted : wk.phase = .failPosted → Post w wk (.setWkFlag false) { wk with phase := .finished }
  | opened : wk.phase = .opened → Post w wk (.setWkPp w) { wk with phase := .ppPosted }
  | ppPosted : wk.phase = .ppPosted → Post w wk (.setWkLife true) { wk with phase := .lifePosted }
  | handling (pkt : Row) (dump : Entry) : wk.phase = .handling pkt dump →
      Post w wk (.updateMd pkt) { wk with phase := .mdPosted dump }
  | mdPosted (dump : Entry) : wk.phase = .mdPosted dump →
      Post w wk (.dumpPushBack dump) { wk with phase := .looping }
  | closed : wk.phase = .closed → Post w wk (.clearWkPp w) { wk with phase := .blocked }
  | cleared : wk.phase = .cleared → Post w wk (.setWkLife false) { wk with phase := .finished }

theorem Phase.inLoop_iff {ph : Phase} : ph.inLoop = true ↔ ph = .looping ∨ ph = .reading := by
  cases ph <;> simp [Phase.inLoop]

theorem Worker.mayCallBack_iff {wk : Worker} :
    wk.mayCallBack = true ↔ (wk.phase = .looping ∨ wk.phase = .reading) ∧ wk.late = false := by
  rw [Worker.mayCallBack, Bool.and_eq_true, Phase.inLoop_iff, Bool.not_eq_true']

theorem Worker.step_cases {h : Host} {w : Nat} {wk wk' : Worker} {a : WkAct} {ms : List Msg}
    (hs : wk.step h w a = some (wk', ms)) :
    (ms = [] ∧ Worker.Quiet h w wk a wk') ∨ (a = .post ∧ ∃ m, ms = [m] ∧ Worker.Post w wk m wk') := by
  cases a with
  | openLive ok =>
    simp only [Worker.step] at hs
    split at hs <;> cases hs
    exact .inl ⟨rfl, .openLive ok ‹_›⟩
  | post =>
    simp only [Worker.step] at hs
    split at hs <;> cases hs
    · exact .inr ⟨rfl, _, rfl, .openFailed ‹_›⟩
    · exact .inr ⟨rfl, _, rfl, .failPosted ‹_›⟩
    · exact .inr ⟨rfl, _, rfl, .opened ‹_›⟩
    · exact .inr ⟨rfl, _, rfl, .ppPosted ‹_›⟩
    · exact .inr ⟨rfl, _, rfl, .handling _ _ ‹_›⟩
    · exact .inr ⟨rfl, _, rfl, .mdPosted _ ‹_›⟩
    · exact .inr ⟨rfl, _, rfl, .closed ‹_›⟩
    · exact .inr ⟨rfl, _, rfl, .cleared ‹_›⟩
  | enterLoop =>
    simp only [Worker.step] at hs
    split at hs
    · split at hs <;> cases hs
      exact .inl ⟨rfl, .enterLoop ‹_›⟩
    · cases hs
  | compile ok =>
    simp only [Worker.step] at hs
    split at hs
    · split at hs <;> cases hs
      exact .inl ⟨rfl, .compile ok ‹_›⟩
    · cases hs
  | setfilter ok =>
    simp only [Worker.step] at hs
    split at hs <;> cases hs
    exact .inl ⟨rfl, .setfilter ok ‹_›⟩
  | read =>
    simp only [Worker.step] at hs
    split at hs
    · split at hs <;> cases hs
      exact .inl ⟨rfl, .read ‹_› (by simpa using ‹¬ wk.brk = true›)⟩
    · cases hs
  | wake =>
    simp only [Worker.step] at hs
    split at hs <;> cases hs
    exact .inl ⟨rfl, .wake ‹_›⟩
  | packet f =>
    simp only [Worker.step] at hs
    split at hs
    · rename_i hcall
      obtain ⟨hp, hl⟩ := Worker.mayCallBack_iff.1 hcall
      rw [Worker.myPacketHandler_read] at hs
      cases ha : accepted h f with
      | none =>
        rw [ha] at hs
        cases hs
        exact .inl ⟨rfl, .reject f hp hl ha⟩
      | some pkt =>
        rw [ha] at hs
        cases hs
        exact .inl ⟨rfl, .accept f pkt hp hl ha⟩
    · cases hs
  | loopBreak =>
    simp only [Worker.step] at hs
    split at hs
    · split at hs <;> cases hs
      exact .inl ⟨rfl, .loopBreak ‹_› ‹_›⟩
    · cases hs
  | loopError =>
    simp only [Worker.step] at hs
    split at hs <;> cases hs
    exact .inl ⟨rfl, .loopError (Phase.inLoop_iff.1 ‹_›)⟩
  | close =>
    simp only [Worker.step] at hs
    split at hs <;> cases hs
    exact .inl ⟨rfl, .close ‹_›⟩

/-- Only a worker that waits for its blocking call is changed by its return. -/
theorem Worker.unblock_cases (wk : Worker) :
    (wk.phase = .blocked ∧ wk.unblock = { wk with phase := .cleared }) ∨ wk.unblock = wk := by
  unfold Worker.unblock
  split
  · exact .inl ⟨‹_›, rfl⟩
  · exact .inr rfl

/-- A worker's action: worker `w` moves and its posts join the queue, nothing else changes. -/
theorem Sys.work_step {h : Host} {s s' : Sys} {w : Nat} {a : WkAct} (hs : s.work h w a = some s') :
    ∃ wk wk' ms, s.workers[w]? = some wk ∧ wk.step h w a = some (wk', ms) ∧
      s' = { s with workers := s.workers.set w wk', queue := s.queue ++ ms } := by
  simp only [Sys.work, Option.bind_eq_bind, Option.bind_eq_some_iff] at hs
  obtain ⟨wk, hwk, ⟨wk', ms⟩, hst, hs⟩ := hs
  cases hs
  exact ⟨wk, wk', ms, hwk, hst, rfl⟩

theorem Sys.work_cases {h : Host} {s s' : Sys} {w : Nat} {a : WkAct} (hs : s.work h w a = some s') :
    ∃ wk wk', s.workers[w]? = some wk ∧
      ((Worker.Quiet h w wk a wk' ∧ s' = { s with workers := s.workers.set w wk' }) ∨
       (a = .post ∧ ∃ m, Worker.Post w wk m wk' ∧
         s' = { s with workers := s.workers.set w wk', queue := s.queue ++ [m] })) := by
  obtain ⟨wk, wk', ms, hwk, hst, rfl⟩ := Sys.work_step hs
  refine ⟨wk, wk', hwk, ?_⟩
  rcases Worker.step_cases hst with ⟨rfl, hq⟩ | ⟨ha, m, rfl, hp⟩
  · exact .inl ⟨hq, by simp⟩
  · exact .inr ⟨ha, m, hp, rfl⟩

/-- Delivery: the oldest call runs. -/
theorem Sys.deliver_cases {s s' : Sys} (hs : s.deliver = some s') :
    ∃ m q, s.queue = m :: q ∧ s' = s.call q m := by
  unfold Sys.deliver at hs
  cases hq : s.queue with
  | nil => simp [hq] at hs
  | cons m q =>
    rw [hq] at hs
    cases hs
    exact ⟨m, q, rfl, rfl⟩

/-- A sort changes the packet list alone. -/
theorem Sys.sort_cases {h : Host} {s s' : Sys} {col : Column} {sorted : List Row}
    (hs : Sys.step h s (.sort col sorted) = some s') :
    ∃ md, s.pcap.md.sort col sorted = some md ∧ s' = { s with pcap := { s.pcap with md := md } } := by
  simp only [Sys.step, Option.bind_eq_bind, Option.bind_eq_some_iff] at hs
  obtain ⟨md, hmd, hs⟩ := hs
  cases hs
  exact ⟨md, hmd, rfl⟩

/-! ## The whole step -/

/-- `create_Th` with an empty name returns at once. -/
theorem Sys.createTh_of_empty (s : Sys) {nicName : String} (ft : String) (hn : nicName.isEmpty = true) :
    s.createTh nicName ft = s := by
  rw [Sys.createTh, if_pos hn]

/-- `create_Th` past its test for an empty name. -/
theorem Sys.createTh_of_name (s : Sys) {nicName : String} (ft : String) (hn : nicName.isEmpty = false) :
    s.createTh nicName ft = { s with
      workers := s.workers ++ [{ nicName := nicName, bfsFt := ft }]
      pcap := { s.pcap with stopFlag := false, wkFlag := true, md := s.pcap.md.reset, vecDumpFile := [], vecDump := [] }
      session := some (.live s.workers.length) } := by
  simp [Sys.createTh, hn]

/-- `stop_Th` without a cached handle returns at once. -/
theorem Sys.stopTh_of_none {s : Sys} (hw : s.pcap.wkPp = none) : s.stopTh = s := by
  simp only [Sys.stopTh, hw]

/-- `stop_Th` with a cached handle. -/
theorem Sys.stopTh_of_handle {s : Sys} {w : Nat} (hw : s.pcap.wkPp = some w) :
    s.stopTh = { s with
      workers := s.workers.modify w fun wk => { wk with brk := true }
      pcap := { s.pcap with stopFlag := true, wkFlag := false } } := by
  simp only [Sys.stopTh, hw]

/-- What the toolbar and the event loop see of the program is unchanged: only packets, sort flags
and ghosts may differ. -/
structure Sys.SameControl (s s' : Sys) : Prop where
  workers : s'.workers = s.workers
  queue : s'.queue = s.queue
  wkPp : s'.pcap.wkPp = s.pcap.wkPp
  wkLife : s'.pcap.wkLife = s.pcap.wkLife
  wkFlag : s'.pcap.wkFlag = s.pcap.wkFlag
  stopFlag : s'.pcap.stopFlag = s.pcap.stopFlag

/-- The action starts no worker, reaches no handle and delivers nothing. -/
def Act.still (s : Sys) : Act → Prop
  | .createTh nicName _ => nicName.isEmpty = true
  | .stopTh => s.pcap.wkPp = none
  | .deliver => False
  | .worker _ _ => False
  | _ => True

/-- A step of the program, by what it does to workers, queue and flags. -/
inductive Sys.Move (h : Host) (s : Sys) : Act → Sys → Prop where
  | still {a : Act} {s' : Sys} : a.still s → s.SameControl s' → Move h s a s'
  | start (nicName ft : String) : nicName.isEmpty = false → Move h s (.createTh nicName ft) (s.createTh nicName ft)
  | stop (w : Nat) : s.pcap.wkPp = some w → Move h s .stopTh s.stopTh
  | call (m : Msg) (q : List Msg) : s.queue = m :: q → Move h s .deliver (s.call q m)
  | quiet (w : Nat) {a : WkAct} {wk wk' : Worker} : s.workers[w]? = some wk → Worker.Quiet h w wk a wk' →
      Move h s (.worker w a) { s with workers := s.workers.set w wk' }
  | post (w : Nat) {m : Msg} {wk wk' : Worker} : s.workers[w]? = some wk → Worker.Post w wk m wk' →
      Move h s (.worker w .post) { s with workers := s.workers.set w wk', queue := s.queue ++ [m] }

theorem Sys.pcapFileRead_sameControl {h : Host} {s s' : Sys} {file : Option (List Frame)}
    (hs : s.pcapFileRead h file = some s') : s.SameControl s' := by
  cases file with
  | none => cases hs; exact ⟨rfl, rfl, rfl, rfl, rfl, rfl⟩
  | some frames =>
    simp only [Sys.pcapFileRead, Pcap.pcapFileRead_eq, Option.bind_eq_bind, Option.bind_some] at hs
    split at hs <;> cases hs <;> exact ⟨rfl, rfl, rfl, rfl, rfl, rfl⟩

theorem Sys.step_move {h : Host} {s s' : Sys} {a : Act} (hs : Sys.step h s a = some s') : Sys.Move h s a s' := by
  cases a with
  | createTh nicName ft =>
    cases hs
    cases hn : nicName.isEmpty with
    | true =>
      rw [s.createTh_of_empty ft hn]
      exact .still hn ⟨rfl, rfl, rfl, rfl, rfl, rfl⟩
    | false => exact .start nicName ft hn
  | stopTh =>
    cases hs
    cases hp : s.pcap.wkPp with
    | none =>
      rw [Sys.stopTh_of_none hp]
      exact .still hp ⟨rfl, rfl, rfl, rfl, rfl, rfl⟩
    | some w => exact .stop w hp
  | resetMd =>
    cases hs
    refine .still trivial ?_
    unfold Sys.resetMd
    split <;> exact ⟨rfl, rfl, rfl, rfl, rfl, rfl⟩
  | pcapFileRead file => exact .still trivial (Sys.pcapFileRead_sameControl hs)
  | sort col sorted =>
    obtain ⟨md, _, rfl⟩ := Sys.sort_cases hs
    exact .still trivial ⟨rfl, rfl, rfl, rfl, rfl, rfl⟩
  | deliver =>
    obtain ⟨m, q, hq, rfl⟩ := Sys.deliver_cases hs
    exact .call m q hq
  | worker w a =>
    obtain ⟨wk, wk', hwk, ⟨hq, rfl⟩ | ⟨rfl, m, hp, rfl⟩⟩ := Sys.work_cases hs
    · exact .quiet w hwk hq
    · exact .post w hwk hp

/-! ## One worker in a step -/

/-- What a step can do to worker `w`. -/
inductive Sys.Moved (h : Host) (s : Sys) (w : Nat) (wk : Worker) : Act → Worker → Prop where
  | same {a : Act} : (a = .stopTh → s.pcap.wkPp ≠ some w) → Moved h s w wk a wk
  | told : s.pcap.wkPp = some w → Moved h s w wk .stopTh { wk with brk := true }
  | unblocked : Moved h s w wk .deliver wk.unblock
  | quiet {b : WkAct} {wk' : Worker} : Worker.Quiet h w wk b wk' → Moved h s w wk (.worker w b) wk'
  | post {m : Msg} {wk' : Worker} : Worker.Post w wk m wk' → Moved h s w wk (.worker w .post) wk'

theorem Sys.step_moved {h : Host} {s s' : Sys} {a : Act} {w : Nat} {wk : Worker} (hw : s.workers[w]? = some wk)
    (hs : Sys.step h s a = some s') : ∃ wk', s'.workers[w]? = some wk' ∧ Sys.Moved h s w wk a wk' := by
  cases Sys.step_move hs with
  | still hstill hc =>
    refine ⟨wk, by rw [hc.workers, hw], .same ?_⟩
    rintro rfl
    rw [show s.pcap.wkPp = none from hstill]
    nofun
  | start nicName ft hn =>
    refine ⟨wk, ?_, .same nofun⟩
    rw [s.createTh_of_name ft hn, List.getElem?_append_left (List.getElem?_eq_some_iff.1 hw).1, hw]
  | stop v hv =>
    rw [Sys.stopTh_of_handle hv]
    simp only [List.getElem?_modify, hw]
    by_cases hvw : v = w
    · subst hvw
      exact ⟨_, by simp, .told hv⟩
    · exact ⟨wk, by simp [hvw], .same fun _ hw' => hvw (Option.some.inj (hv.symm.trans hw'))⟩
  | call m q hq =>
    cases m with
    | clearWkPp v =>
      simp only [Sys.call, List.getElem?_modify, hw]
      by_cases hvw : v = w
      · exact ⟨_, by simp [hvw], .unblocked⟩
      · exact ⟨wk, by simp [hvw], .same nofun⟩
    | _ => exact ⟨wk, hw, .same nofun⟩
  | @quiet v b wk₀ wk' hv hq =>
    by_cases hvw : v = w
    · subst hvw
      cases hv.symm.trans hw
      exact ⟨wk', Lists.getElem?_set_of_some hw wk', .quiet hq⟩
    · exact ⟨wk, by rw [List.getElem?_set_ne hvw, hw], .same nofun⟩
  | @post v m wk₀ wk' hv hp =>
    by_cases hvw : v = w
    · subst hvw
      cases hv.symm.trans hw
      exact ⟨wk', Lists.getElem?_set_of_some hw wk', .post hp⟩
    · exact ⟨wk, by rw [List.getElem?_set_ne hvw, hw], .same nofun⟩

/-- Workers are never removed. -/
theorem Sys.step_length {h : Host} {s s' : Sys} {a : Act} (hs : Sys.step h s a = some s') :
    s.workers.length ≤ s'.workers.length := by
  cases Sys.step_move hs with
  | still _ hc => rw [hc.workers]
  | start nicName ft hn => simp [s.createTh_of_name ft hn]
  | stop v hv => simp [Sys.stopTh_of_handle hv]
  | call m q hq => cases m <;> simp [Sys.call]
  | quiet v hv hq => simp
  | post v hv hp => simp

/-- A worker after a step was there before it, or the step has just started it. -/
theorem Sys.step_worker {h : Host} {s s' : Sys} {a : Act} {w : Nat} {wk' : Worker} (hs : Sys.step h s a = some s')
    (hw' : s'.workers[w]? = some wk') : (∃ wk, s.workers[w]? = some wk ∧ Sys.Moved h s w wk a wk') ∨
      w = s.workers.length ∧ ∃ nicName ft, nicName.isEmpty = false ∧ a = .createTh nicName ft ∧
        wk' = { nicName := nicName, bfsFt := ft } := by
  by_cases hlt : w < s.workers.length
  · have hw := List.getElem?_eq_getElem hlt
    obtain ⟨wk₁, hw₁, hmoved⟩ := Sys.step_moved hw hs
    cases hw₁.symm.trans hw'
    exact .inl ⟨_, hw, hmoved⟩
  right
  have hlen : w < s'.workers.length := (List.getElem?_eq_some_iff.1 hw').1
  cases Sys.step_move hs with
  | still _ hc => exact absurd (hc.workers ▸ hlen) hlt
  | start nicName ft hn =>
    rw [s.createTh_of_name ft hn] at hw' hlen
    obtain rfl : w = s.workers.length := by
      rw [List.length_append, List.length_singleton] at hlen
      omega
    rw [List.getElem?_concat_length, Option.some.injEq] at hw'
    exact ⟨rfl, nicName, ft, hn, rfl, hw'.symm⟩
  | stop v hv => exact absurd (by simpa [Sys.stopTh_of_handle hv] using hlen) hlt
  | call m q hq => exact absurd (by cases m <;> simpa [Sys.call] using hlen) hlt
  | quiet v hv hq => exact absurd (by simpa using hlen) hlt
  | post v hv hp => exact absurd (by simpa using hlen) hlt

end MiniWireshark

import MiniWireshark.Lib.Lts
import MiniWireshark.Pcap

/-!
# Capture threads, queued calls and the toolbar (`Pcap.cpp:223-493`, `CaptureView.qml`)

One `Pcap` object lives on the main thread; every `create_Th` starts a `Worker` on a thread of its
own. A worker reaches the object only through calls queued to its event loop, delivered in posting
order; the object reaches a worker only through `pcap_breakloop` on the cached handle.

| here | there |
| --- | --- |
| `Phase`, `WkAct`, `Worker.step` | `Worker::set_Capture` (`Pcap.cpp:259-346`), one step per call it makes |
| `Msg`                           | the calls queued to `Pcap`: `set_wk_pp`, `set_wk_life`, `set_wk_flag`, `update_md`, `dump_push_back` |
| `Sys.createTh`, `Sys.stopTh`, … | the `Q_INVOKABLE` operations (`:366-493`), atomic on the main thread |
| `Sys.deliver`                   | the event loop running the oldest queued call |
| `Ui.step`                       | what `NicListView` and `CaptureView` allow, and the operations each click calls |

Of libpcap's loop the model assumes what `third_party/npcap-sdk-1.13/docs/wpcap/pcap_breakloop.html`
and `pcap_loop.html` say. `pcap_breakloop` sets a flag; `pcap_loop` checks it between packets and
before it reads on, and may process one more packet after it is set (`Worker.mayCallBack`). A thread
that waits in the read is not unblocked (`Phase.reading`): a packet ends the wait, an error, or the
platform on its own (`WkAct.wake`), and a read timeout does not make the loop return.

Handles are named by the worker that opened them and never reused; a `pcap_breakloop` on a closed
handle changes nothing here. The `int` counters are naturals, which is the same while fewer than
`2 ^ 31` packets are accepted. `Sys.session` and `Sys.reads` are ghost.
-/

namespace MiniWireshark

/-! ## A worker -/

/-- Where `set_Capture` stands. Each phase names what has just been done. -/
inductive Phase where
  /-- The thread runs; `pcap_open_live` is next. -/
  | started
  /-- `pcap_open_live` failed; `set_wk_life(false)` is next. -/
  | openFailed
  /-- `set_wk_flag(false)` is next. -/
  | failPosted
  /-- `set_wk_pp(pp)` is next. -/
  | opened
  /-- `set_wk_life(true)` is next. -/
  | ppPosted
  /-- The test of `BFS_ft` is next. -/
  | lifePosted
  /-- `pcap_setfilter` is next. -/
  | compiled
  /-- In `pcap_loop`, between two packets; it looks at its break flag. -/
  | looping
  /-- In `pcap_loop`, waiting in the read of the next packets. -/
  | reading
  /-- In the callback with an accepted packet; `update_md` is next. -/
  | handling (pkt : Row) (dump : Entry)
  /-- In the callback; `dump_push_back` is next. -/
  | mdPosted (dump : Entry)
  /-- Past the loop; `pcap_close` is next. -/
  | left
  /-- The blocking `set_wk_pp(nullptr)` is next. -/
  | closed
  /-- Waiting for the blocking call to be delivered. -/
  | blocked
  /-- The final `set_wk_life(false)` is next. -/
  | cleared
  | finished
deriving DecidableEq, Repr

/-- In `pcap_loop` and not in its callback. -/
def Phase.inLoop : Phase → Bool
  | .looping | .reading => true
  | _ => false

structure Worker where
  nicName : String
  bfsFt : String
  num : Nat := 0
  /-- The break flag of its handle. -/
  brk : Bool := false
  /-- `pcap_loop` has called back after the flag was set. -/
  late : Bool := false
  phase : Phase := .started
deriving DecidableEq, Repr

/-- A call queued to the `Pcap` object. -/
inductive Msg where
  /-- `set_wk_pp(pp)` with the handle of worker `w`. -/
  | setWkPp (w : Nat)
  /-- The lambda `set_wk_pp(nullptr)` that worker `w` waits for. -/
  | clearWkPp (w : Nat)
  | setWkLife (set : Bool)
  | setWkFlag (set : Bool)
  | updateMd (row : Row)
  | dumpPushBack (e : Entry)
deriving DecidableEq, Repr

/-- What a worker does next; the arguments are the answers of libpcap. -/
inductive WkAct where
  | openLive (ok : Bool)
  /-- The next `invokeMethod`. -/
  | post
  /-- `BFS_ft.empty()`: straight into `pcap_loop`. -/
  | enterLoop
  | compile (ok : Bool)
  | setfilter (ok : Bool)
  /-- `pcap_loop` finds its break flag clear and reads on. -/
  | read
  /-- The read returns without a packet. -/
  | wake
  /-- `pcap_loop` calls back with a frame. -/
  | packet (f : Frame)
  /-- `pcap_loop` returns because of `pcap_breakloop`. -/
  | loopBreak
  /-- `pcap_loop` returns on an interface error. -/
  | loopError
  | close

namespace Worker

/-- Assumption on libpcap: "at most one more packet might be processed" once `pcap_breakloop` is called. -/
def mayCallBack (wk : Worker) : Bool := wk.phase.inLoop && !wk.late

/-- `set_Capture` and its callback: the worker after the action, and the calls it queues. -/
def step (h : Host) (w : Nat) (wk : Worker) : WkAct → Option (Worker × List Msg)
  | .openLive ok => match wk.phase with
    | .started => some ({ wk with phase := if ok then .opened else .openFailed }, [])
    | _ => none
  | .post => match wk.phase with
    | .openFailed => some ({ wk with phase := .failPosted }, [.setWkLife false])
    | .failPosted => some ({ wk with phase := .finished }, [.setWkFlag false])
    | .opened => some ({ wk with phase := .ppPosted }, [.setWkPp w])
    | .ppPosted => some ({ wk with phase := .lifePosted }, [.setWkLife true])
    | .handling pkt dump => some ({ wk with phase := .mdPosted dump }, [.updateMd pkt])
    | .mdPosted dump => some ({ wk with phase := .looping }, [.dumpPushBack dump])
    | .closed => some ({ wk with phase := .blocked }, [.clearWkPp w])
    | .cleared => some ({ wk with phase := .finished }, [.setWkLife false])
    | _ => none
  | .enterLoop => match wk.phase with
    | .lifePosted => if wk.bfsFt.isEmpty then some ({ wk with phase := .looping }, []) else none
    | _ => none
  | .compile ok => match wk.phase with
    | .lifePosted =>
      if wk.bfsFt.isEmpty then none else some ({ wk with phase := if ok then .compiled else .left }, [])
    | _ => none
  | .setfilter ok => match wk.phase with
    | .compiled => some ({ wk with phase := if ok then .looping else .left }, [])
    | _ => none
  | .read => match wk.phase with
    | .looping => if wk.brk then none else some ({ wk with phase := .reading }, [])
    | _ => none
  | .wake => match wk.phase with
    | .reading => some ({ wk with phase := .looping }, [])
    | _ => none
  | .packet f =>
    if wk.mayCallBack then
      match myPacketHandler h f.read wk.num f with
      | some (some (pkt, dump)) =>
        let called := { wk with num := wk.num + 1, late := wk.brk }
        some ({ called with phase := .handling ⟨pkt, .live w⟩ ⟨dump, .live w⟩ }, [])
      | some none => some ({ wk with late := wk.brk, phase := .looping }, [])
      | none => none
    else none
  | .loopBreak => match wk.phase with
    | .looping => if wk.brk then some ({ wk with phase := .left }, []) else none
    | _ => none
  | .loopError => if wk.phase.inLoop then some ({ wk with phase := .left }, []) else none
  | .close => match wk.phase with
    | .left => some ({ wk with phase := .closed }, [])
    | _ => none

/-- The blocking call returns. -/
def unblock (wk : Worker) : Worker :=
  match wk.phase with
  | .blocked => { wk with phase := .cleared }
  | _ => wk

end Worker

/-! ## The program -/

structure Sys where
  pcap : Pcap := {}
  workers : List Worker := []
  /-- Calls queued to `pcap`, oldest first. -/
  queue : List Msg := []
  /-- Ghost: file reads that stored a packet. -/
  reads : Nat := 0
  /-- Ghost: the last `create_Th` that started a worker, or file read that stored a packet. -/
  session : Option Source := none

/-- A step of the program: an operation of `Pcap`, a sort, a delivery or a worker's action. -/
inductive Act where
  | createTh (nicName ft : String)
  | stopTh
  | resetMd
  /-- `file` is `none` when `pcap_open_offline` fails, else the frames of the file. -/
  | pcapFileRead (file : Option (List Frame))
  | sort (col : Column) (sorted : List Row)
  | deliver
  | worker (w : Nat) (a : WkAct)

namespace Sys

/-- `Pcap::create_Th`. -/
def createTh (s : Sys) (nicName ft : String) : Sys :=
  if nicName.isEmpty then s else
    { s with
      workers := s.workers ++ [{ nicName := nicName, bfsFt := ft }]
      pcap := { s.pcap with stopFlag := false, wkFlag := true, md := s.pcap.md.reset, vecDumpFile := [], vecDump := [] }
      session := some (.live s.workers.length) }

/-- `Pcap::stop_Th`. -/
def stopTh (s : Sys) : Sys :=
  match s.pcap.wkPp with
  | none => s
  | some w =>
    { s with
      workers := s.workers.modify w fun wk => { wk with brk := true }
      pcap := { s.pcap with stopFlag := true, wkFlag := false } }

/-- `Pcap::reset_md`. -/
def resetMd (s : Sys) : Sys :=
  if s.pcap.wkLife = false then
    { s with pcap := { s.pcap with md := s.pcap.md.reset, vecDump := [], vecDumpFile := [] } }
  else s

/-- `Pcap::pcapFile_Read`. -/
def pcapFileRead (h : Host) (s : Sys) (file : Option (List Frame)) : Option Sys :=
  match file with
  | none => some s
  | some frames => do
    let p ← s.pcap.pcapFileRead h (.file s.reads) frames
    if p.vecDump.length = s.pcap.vecDump.length then some { s with pcap := p }
    else some { s with pcap := p, reads := s.reads + 1, session := some (.file s.reads) }

/-- The event loop runs the call `m`, with `q` left in the queue. -/
def call (s : Sys) (q : List Msg) : Msg → Sys
  | .setWkPp w => { s with queue := q, pcap := { s.pcap with wkPp := some w } }
  | .clearWkPp w =>
    { s with queue := q, pcap := { s.pcap with wkPp := none }, workers := s.workers.modify w Worker.unblock }
  | .setWkLife set => { s with queue := q, pcap := { s.pcap with wkLife := set } }
  | .setWkFlag set => { s with queue := q, pcap := { s.pcap with wkFlag := set } }
  | .updateMd row => { s with queue := q, pcap := { s.pcap with md := s.pcap.md.updateMd row } }
  | .dumpPushBack e => { s with queue := q, pcap := { s.pcap with vecDump := s.pcap.vecDump ++ [e] } }

/-- Delivery of the oldest queued call. -/
def deliver (s : Sys) : Option Sys :=
  match s.queue with
  | [] => none
  | m :: q => some (s.call q m)

/-- Worker `w` acts. -/
def work (h : Host) (s : Sys) (w : Nat) (a : WkAct) : Option Sys := do
  let wk ← s.workers[w]?
  let (wk', posted) ← wk.step h w a
  some { s with workers := s.workers.set w wk', queue := s.queue ++ posted }

def step (h : Host) (s : Sys) : Act → Option Sys
  | .createTh nicName ft => some (s.createTh nicName ft)
  | .stopTh => some s.stopTh
  | .resetMd => some s.resetMd
  | .pcapFileRead file => s.pcapFileRead h file
  | .sort col sorted => do
    let md ← s.pcap.md.sort col sorted
    some { s with pcap := { s.pcap with md := md } }
  | .deliver => s.deliver
  | .worker w a => s.work h w a

/-- The program as it starts. -/
def init : Sys := {}

/-- No worker is alive and no call is pending. -/
def Idle (s : Sys) : Prop := (∀ wk ∈ s.workers, wk.phase = .finished) ∧ s.queue = []

instance (s : Sys) : Decidable s.Idle := inferInstanceAs (Decidable (_ ∧ _))

end Sys

/-! ## The views -/

/-- The view on top of the stack: the interface list, or a `CaptureView` with its `nicName` and
`isCapturing`. `PktView` only covers a `CaptureView` and takes its toolbar away. -/
inductive View where
  | nicList
  | capture (nicName : String) (isCapturing : Bool)
deriving DecidableEq, Repr

structure Ui where
  view : View := .nicList
  sys : Sys := {}

inductive UiAct where
  /-- An interface is double-clicked. -/
  | openLive (nicName : String)
  /-- A file is chosen; the new `CaptureView` reads it on completion. -/
  | openFile (nicName : String) (file : Option (List Frame))
  | start (nicName ft : String)
  | stop
  | reset
  | back
  | sort (col : Column) (sorted : List Row)
  | deliver
  | worker (w : Nat) (a : WkAct)

/-- The operations of the program behind an action. -/
def UiAct.calls : UiAct → List Act
  | .openLive _ => []
  | .openFile _ file => [.pcapFileRead file]
  | .start nicName ft => [.createTh nicName ft]
  | .stop => [.stopTh]
  | .reset => [.resetMd]
  | .back => [.stopTh, .resetMd]
  | .sort col sorted => [.sort col sorted]
  | .deliver => [.deliver]
  | .worker w a => [.worker w a]

/-- What the view on top allows, and the view after it: Start only while `isCapturing` is false,
Stop only while it is true, both turning it over whatever the call did; Back pops the view. -/
def View.next : View → UiAct → Option View
  | .nicList, .openLive nicName => some (.capture nicName false)
  | .nicList, .openFile nicName _ => some (.capture nicName false)
  | .capture n false, .start nicName _ => if nicName = n then some (.capture n true) else none
  | .capture n true, .stop => some (.capture n false)
  | .capture n c, .reset => some (.capture n c)
  | .capture _ _, .back => some .nicList
  | .capture n c, .sort _ _ => some (.capture n c)
  | v, .deliver => some v
  | v, .worker _ _ => some v
  | _, _ => none

/-- A click, a delivery or a worker's action under the views. -/
def Ui.step (h : Host) (u : Ui) (a : UiAct) : Option Ui := do
  let v ← u.view.next a
  let s ← Lts.run (Sys.step h) u.sys a.calls
  some ⟨v, s⟩

/-- The program starts on the interface list. -/
def Ui.init : Ui := {}

/-- **The views only restrict the program.** Every run under the views is a run of the operations
behind its actions. -/
theorem Ui.run_calls {h : Host} {u u' : Ui} {acts : List UiAct} (hr : Lts.run (Ui.step h) u acts = some u') :
    Lts.run (Sys.step h) u.sys (acts.flatMap UiAct.calls) = some u'.sys := by
  refine Lts.run_refines ?_ hr
  intro u a u' hs
  simp only [Ui.step, Option.bind_eq_bind, Option.bind_eq_some_iff, Option.some.injEq] at hs
  obtain ⟨v, _, s, hs, rfl⟩ := hs
  exact hs

end MiniWireshark

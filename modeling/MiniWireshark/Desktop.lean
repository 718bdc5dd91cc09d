import MiniWireshark.DetailView
import MiniWireshark.Interfaces
import MiniWireshark.Lookup
import MiniWireshark.Recent
import MiniWireshark.Reopen

/-!
# The whole window (`Main.qml`, `NicListView.qml`, `CaptureView.qml`, `PktView.qml`)

`Ui` keeps of the views what the toolbar needs. Here is the whole `StackView` with what its views hold:
the interface list and its selection, the recent captures, the capture view, and the packet view with the
tree model of `Pcap` and the hex text it was opened with.

| here | there |
| --- | --- |
| `CaptureView`, `PktView`   | the properties the views are pushed with, and `isCapturing` |
| `Stack`                    | `stk`; the list is at its bottom and a `PktView` only over a `CaptureView` |
| `Desktop.pushCapture`      | `stk.push("CaptureView.qml", …)` and its `Component.onCompleted` (`CaptureView.qml:26-30`) |
| `Desktop.openPkt`          | `onDoubleClicked` of a row (`CaptureView.qml:778-789`), with `hexArea.text` of the new view |
| `Desktop.toUi`             | what `Ui` keeps |
| `DeskAct.uiActs`           | the actions of `Ui` behind an action |

Saving writes a file and changes nothing here. The database is any `Sqlite`; nothing here relies on its laws.
-/

namespace MiniWireshark

open Reader

structure CaptureView where
  nicName : String
  pcapPath : String := ""
  isCapturing : Bool := false
deriving DecidableEq, Repr

structure PktView where
  dumpIdx : Int
  hexArea : String
deriving DecidableEq, Repr

inductive Stack where
  | nicListView
  | captureView (c : CaptureView)
  | pktView (c : CaptureView) (p : PktView)
deriving DecidableEq, Repr

structure Desktop (σ : Type) where
  nic : List (String × NicOp)
  selectNic : String
  openList : OpenList σ
  stk : Stack := .nicListView
  sys : Sys := {}
  /-- `tree_md`. -/
  treeMd : TreeModel := {}

inductive DeskAct (ε : Type) where
  /-- An entry of `filterBox`; `pp` is what `pcap_findalldevs` answers. -/
  | filterActivated (index : Nat) (pp : Option (List PcapIf))
  | nicClicked (index : Nat)
  | nicDoubleClicked (index : Nat)
  /-- `file` is `none` when `pcap_open_offline` fails, else the frames of the file. -/
  | recentDoubleClicked (index : Nat) (file : Option (List Frame))
  | fileAccepted (selectedFile : String) (insert select : ε) (file : Option (List Frame))
  | start (ft : String)
  | stop
  | reset
  | back
  | sort (col : Column) (sorted : List Row)
  | rowDoubleClicked (index : Nat)
  | pktBack
  | deliver
  | worker (w : Nat) (a : WkAct)

/-- `filterBox.onActivated`. -/
def filterOf (index : Nat) : NicOp :=
  if index = 0 then .any else if index = 1 then .wlo else if index = 2 then .ethernet else .virtual

namespace Desktop

variable {σ ε : Type}

/-- The program starts: `NicListView` makes its two models and selects the first device. -/
def launch (lower : String → String) (db : Sqlite σ ε) (disk : OpenList σ) (pp : Option (List PcapIf))
    (create select : ε) : Desktop σ where
  nic := setNic lower .any pp
  selectNic := getFirstNic (setNic lower .any pp)
  openList := disk.launch db create select

def pushCapture (h : Host) (d : Desktop σ) (nicName pcapPath : String) (file : Option (List Frame)) : Option (Desktop σ) :=
  (if pcapPath ≠ "" then d.sys.pcapFileRead h file else some d.sys).map fun sys =>
    { d with stk := .captureView { nicName := nicName, pcapPath := pcapPath }, sys := sys }

/-- The tree is built first; `hexArea.text` is evaluated once, when the view is made. -/
def openPkt (h : Host) (d : Desktop σ) (c : CaptureView) (r : Row) : Option (Desktop σ) := do
  let treeMd ← startTreeMd h d.sys.pcap r.pkt.num d.treeMd
  let hexArea ← d.sys.pcap.startHax r.pkt.num
  some { d with stk := .pktView c ⟨r.pkt.num, hexArea⟩, treeMd := treeMd }

/-- An action is enabled where its view is on top. -/
def step (h : Host) (lower : String → String) (db : Sqlite σ ε) (d : Desktop σ) : DeskAct ε → Option (Desktop σ)
  | .filterActivated index pp => match d.stk with
    | .nicListView =>
      let vec := setNic lower (filterOf index) pp
      some { d with nic := vec, selectNic := getFirstNic vec }
    | _ => none
  | .nicClicked index => match d.stk, d.nic[index]? with
    | .nicListView, some nic => some { d with selectNic := nic.1 }
    | _, _ => none
  | .nicDoubleClicked index => match d.stk, d.nic[index]? with
    | .nicListView, some nic => d.pushCapture h nic.1 "" none
    | _, _ => none
  | .recentDoubleClicked index file => match d.stk, d.openList.data index with
    | .nicListView, some path => d.pushCapture h d.selectNic path file
    | _, _ => none
  | .fileAccepted selectedFile insert select file => match d.stk with
    | .nicListView =>
      pushCapture h { d with openList := d.openList.addDb db selectedFile insert select } d.selectNic selectedFile file
    | _ => none
  | .start ft => match d.stk with
    | .captureView c =>
      if c.isCapturing then none
      else some { d with sys := d.sys.createTh c.nicName ft, stk := .captureView { c with isCapturing := true } }
    | _ => none
  | .stop => match d.stk with
    | .captureView c =>
      if c.isCapturing then some { d with sys := d.sys.stopTh, stk := .captureView { c with isCapturing := false } }
      else none
    | _ => none
  | .reset => match d.stk with
    | .captureView _ => some { d with sys := d.sys.resetMd }
    | _ => none
  | .back => match d.stk with
    | .captureView _ => some { d with sys := d.sys.stopTh.resetMd, stk := .nicListView }
    | _ => none
  | .sort col sorted => match d.stk with
    | .captureView _ => do
      let sys ← Sys.step h d.sys (.sort col sorted)
      some { d with sys := sys }
    | _ => none
  | .rowDoubleClicked index => match d.stk, d.sys.pcap.md.vec[index]? with
    | .captureView c, some r => if c.isCapturing then some d else d.openPkt h c r
    | _, _ => none
  | .pktBack => match d.stk with
    | .pktView c _ => some { d with stk := .captureView c }
    | _ => none
  | .deliver => do
    let sys ← d.sys.deliver
    some { d with sys := sys }
  | .worker w a => do
    let sys ← d.sys.work h w a
    some { d with sys := sys }

end Desktop

/-! ## The views of `Ui` -/

def Stack.capture? : Stack → Option CaptureView
  | .nicListView => none
  | .captureView c => some c
  | .pktView c _ => some c

def Stack.toView (stk : Stack) : View :=
  match stk.capture? with
  | none => .nicList
  | some c => .capture c.nicName c.isCapturing

def Desktop.toUi {σ : Type} (d : Desktop σ) : Ui := ⟨d.stk.toView, d.sys⟩

/-- A new `CaptureView` with a path reads it. -/
def openActs (nicName pcapPath : String) (file : Option (List Frame)) : List UiAct :=
  if pcapPath ≠ "" then [.openFile nicName file] else [.openLive nicName]

def DeskAct.uiActs {σ ε : Type} (d : Desktop σ) : DeskAct ε → List UiAct
  | .filterActivated .. | .nicClicked _ | .rowDoubleClicked _ | .pktBack => []
  | .nicDoubleClicked index => openActs ((d.nic[index]?).elim "" Prod.fst) "" none
  | .recentDoubleClicked index file => openActs d.selectNic ((d.openList.data index).getD "") file
  | .fileAccepted selectedFile _ _ file => openActs d.selectNic selectedFile file
  | .start ft => [.start (d.stk.capture?.elim "" CaptureView.nicName) ft]
  | .stop => [.stop]
  | .reset => [.reset]
  | .back => [.back]
  | .sort col sorted => [.sort col sorted]
  | .deliver => [.deliver]
  | .worker w a => [.worker w a]

/-! ## What an action can do -/

/-- An action by what it does to the window and to the program. -/
inductive Desktop.Move {σ ε : Type} (h : Host) (d : Desktop σ) : DeskAct ε → Desktop σ → Prop where
  | choose (index : Nat) (pp : Option (List PcapIf)) (vec : List (String × NicOp)) : d.stk = .nicListView →
      Move h d (.filterActivated index pp) { d with nic := vec, selectNic := getFirstNic vec }
  | select (index : Nat) (nic : String × NicOp) : d.stk = .nicListView → nic ∈ d.nic →
      Move h d (.nicClicked index) { d with selectNic := nic.1 }
  | push (a : DeskAct ε) (openList : OpenList σ) (nicName path : String) (file : Option (List Frame)) (sys : Sys) :
      d.stk = .nicListView → nicName = d.selectNic ∨ nicName ∈ d.nic.map Prod.fst →
      (if path ≠ "" then d.sys.pcapFileRead h file else some d.sys) = some sys →
      a.uiActs d = openActs nicName path file →
      Move h d a { d with openList := openList, stk := .captureView { nicName := nicName, pcapPath := path }, sys := sys }
  | toolbar (a : DeskAct ε) (u : UiAct) (c c' : CaptureView) (sys : Sys) : d.stk = .captureView c →
      c'.nicName = c.nicName → a.uiActs d = [u] →
      Ui.step h ⟨.capture c.nicName c.isCapturing, d.sys⟩ u = some ⟨.capture c'.nicName c'.isCapturing, sys⟩ →
      Move h d a { d with stk := .captureView c', sys := sys }
  | back (c : CaptureView) : d.stk = .captureView c →
      Move h d .back { d with sys := d.sys.stopTh.resetMd, stk := .nicListView }
  /-- "lock..." -/
  | locked (index : Nat) : Move h d (.rowDoubleClicked index) d
  | openPkt (index : Nat) (c : CaptureView) (r : Row) (treeMd : TreeModel) (hexArea : String) :
      d.stk = .captureView c → c.isCapturing = false → d.sys.pcap.md.vec[index]? = some r →
      startTreeMd h d.sys.pcap r.pkt.num d.treeMd = some treeMd → d.sys.pcap.startHax r.pkt.num = some hexArea →
      Move h d (.rowDoubleClicked index) { d with stk := .pktView c ⟨r.pkt.num, hexArea⟩, treeMd := treeMd }
  | closePkt (c : CaptureView) (p : PktView) : d.stk = .pktView c p → Move h d .pktBack { d with stk := .captureView c }
  | background (a : DeskAct ε) (u : UiAct) (sys : Sys) : a.uiActs d = [u] → u.background = true →
      Ui.step h d.toUi u = some ⟨d.stk.toView, sys⟩ → Move h d a { d with sys := sys }

section
variable {σ ε : Type} {h : Host} {lower : String → String} {db : Sqlite σ ε} {disk : OpenList σ}
variable {pp : Option (List PcapIf)} {create select : ε} {d₀ d d' : Desktop σ} {a : DeskAct ε} {acts : List (DeskAct ε)}

theorem Desktop.pushCapture_cases {nicName path : String} {file : Option (List Frame)}
    (hs : d.pushCapture h nicName path file = some d') :
    ∃ sys, (if path ≠ "" then d.sys.pcapFileRead h file else some d.sys) = some sys ∧
      d' = { d with stk := .captureView { nicName := nicName, pcapPath := path }, sys := sys } := by
  obtain ⟨sys, hsys, rfl⟩ := Option.map_eq_some_iff.1 hs
  exact ⟨sys, hsys, rfl⟩

theorem Desktop.openPkt_cases {c : CaptureView} {r : Row} (hs : d.openPkt h c r = some d') :
    ∃ treeMd hexArea, startTreeMd h d.sys.pcap r.pkt.num d.treeMd = some treeMd ∧
      d.sys.pcap.startHax r.pkt.num = some hexArea ∧
      d' = { d with stk := .pktView c ⟨r.pkt.num, hexArea⟩, treeMd := treeMd } := by
  simp only [Desktop.openPkt, Option.bind_eq_bind, Option.bind_eq_some_iff] at hs
  obtain ⟨treeMd, htree, hexArea, hhex, hs⟩ := hs
  cases hs
  exact ⟨treeMd, hexArea, htree, hhex, rfl⟩

theorem Desktop.step_move (hs : d.step h lower db a = some d') : Desktop.Move h d a d' := by
  cases a with
  | filterActivated index pp =>
    simp only [Desktop.step] at hs
    split at hs <;> cases hs
    exact .choose index pp _ ‹_›
  | nicClicked index =>
    simp only [Desktop.step] at hs
    split at hs <;> cases hs
    exact .select index _ ‹_› (List.mem_of_getElem? ‹_›)
  | nicDoubleClicked index =>
    simp only [Desktop.step] at hs
    split at hs
    · rename_i hstk hnic
      obtain ⟨sys, hsys, rfl⟩ := Desktop.pushCapture_cases hs
      refine .push _ _ _ "" none sys hstk (.inr (List.mem_map_of_mem (List.mem_of_getElem? hnic))) hsys ?_
      rw [DeskAct.uiActs, hnic]
      rfl
    · cases hs
  | recentDoubleClicked index file =>
    simp only [Desktop.step] at hs
    split at hs
    · rename_i hstk hpath
      obtain ⟨sys, hsys, rfl⟩ := Desktop.pushCapture_cases hs
      refine .push _ _ _ _ file sys hstk (.inl rfl) hsys ?_
      rw [DeskAct.uiActs, hpath]
      rfl
    · cases hs
  | fileAccepted selectedFile insert select file =>
    simp only [Desktop.step] at hs
    split at hs
    · obtain ⟨sys, hsys, rfl⟩ := Desktop.pushCapture_cases hs
      exact .push _ _ _ selectedFile file sys ‹_› (.inl rfl) hsys rfl
    · cases hs
  | start ft =>
    simp only [Desktop.step] at hs
    split at hs
    · rename_i c hstk
      split at hs <;> cases hs
      have hcap : c.isCapturing = false := by simpa using ‹¬ c.isCapturing = true›
      refine .toolbar _ (.start c.nicName ft) c { c with isCapturing := true } _ hstk rfl ?_ ?_
      · rw [DeskAct.uiActs, hstk]
        rfl
      · simp [Ui.step, View.next, hcap, UiAct.calls, Lts.run, Sys.step]
    · cases hs
  | stop =>
    simp only [Desktop.step] at hs
    split at hs
    · rename_i c hstk
      split at hs <;> cases hs
      have hcap : c.isCapturing = true := ‹_›
      refine .toolbar _ .stop c { c with isCapturing := false } _ hstk rfl rfl ?_
      simp [Ui.step, View.next, hcap, UiAct.calls, Lts.run, Sys.step]
    · cases hs
  | reset =>
    simp only [Desktop.step] at hs
    split at hs
    · rename_i c hstk
      cases hs
      have hm : Desktop.Move h d (.reset : DeskAct ε) { d with stk := .captureView c, sys := d.sys.resetMd } :=
        .toolbar _ .reset c c _ hstk rfl rfl (by simp [Ui.step, View.next, UiAct.calls, Lts.run, Sys.step])
      rwa [← hstk] at hm
    · cases hs
  | back =>
    simp only [Desktop.step] at hs
    split at hs <;> cases hs
    exact .back _ ‹_›
  | sort col sorted =>
    simp only [Desktop.step] at hs
    split at hs
    · rename_i c hstk
      simp only [Option.bind_eq_bind, Option.bind_eq_some_iff] at hs
      obtain ⟨sys, hsys, hs⟩ := hs
      cases hs
      have hm : Desktop.Move h d (.sort col sorted : DeskAct ε) { d with stk := .captureView c, sys := sys } :=
        .toolbar _ (.sort col sorted) c c _ hstk rfl rfl (by simp [Ui.step, View.next, UiAct.calls, Lts.run, hsys])
      rwa [← hstk] at hm
    · cases hs
  | rowDoubleClicked index =>
    simp only [Desktop.step] at hs
    split at hs
    · rename_i c r hstk hr
      split at hs
      · cases hs
        exact .locked index
      · obtain ⟨treeMd, hexArea, htree, hhex, rfl⟩ := Desktop.openPkt_cases hs
        exact .openPkt index c r treeMd hexArea hstk (by simpa using ‹¬ c.isCapturing = true›) hr htree hhex
    · cases hs
  | pktBack =>
    simp only [Desktop.step] at hs
    split at hs <;> cases hs
    exact .closePkt _ _ ‹_›
  | deliver =>
    simp only [Desktop.step, Option.bind_eq_bind, Option.bind_eq_some_iff] at hs
    obtain ⟨sys, hsys, hs⟩ := hs
    cases hs
    refine .background _ .deliver sys rfl rfl ?_
    simp [Ui.step, Desktop.toUi, View.next, UiAct.calls, Lts.run, Sys.step, hsys]
  | worker w a =>
    simp only [Desktop.step, Option.bind_eq_bind, Option.bind_eq_some_iff] at hs
    obtain ⟨sys, hsys, hs⟩ := hs
    cases hs
    refine .background _ (.worker w a) sys rfl rfl ?_
    simp [Ui.step, Desktop.toUi, View.next, UiAct.calls, Lts.run, Sys.step, hsys]

/-! ## The window restricts the views -/

theorem Desktop.toUi_of_captureView {c : CaptureView} (hc : d.stk.capture? = some c) :
    d.toUi = ⟨.capture c.nicName c.isCapturing, d.sys⟩ := by
  rw [Desktop.toUi, Stack.toView, hc]

theorem Desktop.run_openActs {nicName path : String} {file : Option (List Frame)} {sys : Sys}
    (hstk : d.stk = .nicListView) (hsys : (if path ≠ "" then d.sys.pcapFileRead h file else some d.sys) = some sys) :
    Lts.run (Ui.step h) d.toUi (openActs nicName path file) = some ⟨.capture nicName false, sys⟩ := by
  have hview : d.stk.toView = .nicList := by rw [hstk]; rfl
  unfold openActs
  split at hsys
  · rw [if_pos ‹_›]
    simp [Lts.run, Ui.step, Desktop.toUi, hview, View.next, UiAct.calls, Sys.step, hsys]
  · rw [if_neg ‹_›]
    cases hsys
    simp [Lts.run, Ui.step, Desktop.toUi, hview, View.next, UiAct.calls]

theorem Desktop.step_ui (hs : d.step h lower db a = some d') :
    Lts.run (Ui.step h) d.toUi (a.uiActs d) = some d'.toUi := by
  cases Desktop.step_move hs with
  | choose index pp vec hstk => rfl
  | select index nic hstk hnic => rfl
  | push a openList nicName path file sys hstk hname hsys hacts =>
    rw [hacts]
    exact Desktop.run_openActs hstk hsys
  | toolbar a u c c' sys hstk hname hacts hu =>
    rw [hacts, Desktop.toUi_of_captureView (d := d) (by rw [hstk]; rfl)]
    exact Lts.run_cons_eq_some.2 ⟨_, hu, rfl⟩
  | back c hstk =>
    rw [Desktop.toUi_of_captureView (d := d) (by rw [hstk]; rfl)]
    simp [DeskAct.uiActs, Lts.run, Ui.step, View.next, UiAct.calls, Sys.step, Desktop.toUi, Stack.toView, Stack.capture?]
  | locked index => rfl
  | openPkt index c r treeMd hexArea hstk hc hr htree hhex =>
    rw [Desktop.toUi_of_captureView (d := d) (by rw [hstk]; rfl)]
    rfl
  | closePkt c p hstk =>
    rw [Desktop.toUi_of_captureView (d := d) (by rw [hstk]; rfl)]
    rfl
  | background a u sys hacts hback hu =>
    rw [hacts]
    exact Lts.run_cons_eq_some.2 ⟨_, hu, rfl⟩

/-- The operations of the program behind an action. -/
def DeskAct.calls (d : Desktop σ) (a : DeskAct ε) : List Act := (a.uiActs d).flatMap UiAct.calls

theorem Desktop.step_calls (hs : d.step h lower db a = some d') :
    Lts.run (Sys.step h) d.sys (a.calls d) = some d'.sys := Ui.run_calls (Desktop.step_ui hs)

theorem Desktop.run_calls (hr : Lts.run (Desktop.step h lower db) d acts = some d') :
    Lts.run (Sys.step h) d.sys (Lts.trace (Desktop.step h lower db) (fun d a => a.calls d) d acts) = some d'.sys :=
  @Lts.run_trace _ _ _ _ _ _ Desktop.sys _ (fun _ _ _ hs => Desktop.step_calls hs) _ _ _ hr

/-- **The window only restricts the views.** Every run of the whole window, whatever is clicked in any of its
views, is a run of the views, and with them of the operations of `Pcap`. -/
theorem desktop_refines_ui (hl : Desktop.launch lower db disk pp create select = d₀)
    (hr : Lts.run (Desktop.step h lower db) d₀ acts = some d) :
    Lts.run (Ui.step h) Ui.init (Lts.trace (Desktop.step h lower db) (fun d a => a.uiActs d) d₀ acts) = some d.toUi ∧
      Lts.run (Sys.step h) Sys.init (Lts.trace (Desktop.step h lower db) (fun d a => a.calls d) d₀ acts) = some d.sys := by
  subst hl
  constructor
  · exact Lts.run_trace (fun _ _ _ hs => Desktop.step_ui hs) hr
  · exact Desktop.run_calls hr

/-! ## What the views show -/

/-- The name is of a device in the list, or there is none. -/
def Desktop.Listed {σ : Type} (d : Desktop σ) (name : String) : Prop := name ∈ d.nic.map Prod.fst ∨ d.nic = [] ∧ name = ""

/-- Both panes of the packet view show one stored entry, which has its number. -/
def PktView.Shows (h : Host) (pc : Pcap) (m : TreeModel) (p : PktView) : Prop :=
  ∃ e ∈ pc.vecDump, ∃ (t : Detail) (base : Nat), (e.dump.pktNum : Int) = p.dumpIdx ∧
    Detail.read h (ofList e.dump.data) = some t ∧ m.Built base t.ops ∧ hexDump e.dump = some p.hexArea

structure Desktop.Coherent {σ : Type} (h : Host) (d : Desktop σ) : Prop where
  tidy : d.treeMd.Tidy
  dumpFile : d.sys.pcap.vecDumpFile = []
  selected : d.Listed d.selectNic
  named : ∀ c, d.stk.capture? = some c → d.Listed c.nicName
  shows : ∀ c p, d.stk = .pktView c p → c.isCapturing = false ∧ p.Shows h d.sys.pcap d.treeMd

theorem listed_first (vec : List (String × NicOp)) :
    getFirstNic vec ∈ vec.map Prod.fst ∨ vec = [] ∧ getFirstNic vec = "" := by
  cases vec with
  | nil => exact .inr ⟨rfl, rfl⟩
  | cons nic vec => exact .inl List.mem_cons_self

/-- What the tree and the hex view are made of for one number. -/
theorem PktView.shows_of_open {s : Sys} {idx : Int} {m m' : TreeModel} {text : String} (hm : m.Tidy)
    (hfile : s.pcap.vecDumpFile = []) (htree : startTreeMd h s.pcap idx m = some m')
    (hhex : s.pcap.startHax idx = some text) : m'.Tidy ∧ PktView.Shows h s.pcap m' ⟨idx, text⟩ := by
  obtain ⟨t, hread, hbuilt, htidy⟩ := startTreeMd_cases hm htree
  refine ⟨htidy, ?_⟩
  cases hf : s.pcap.find idx with
  | none =>
    rw [Pcap.treeData, hf, detail_nil] at hread
    cases hread
  | some e =>
    rw [Pcap.treeData, hf] at hread
    rw [Pcap.startHax, hf] at hhex
    exact ⟨e, Pcap.mem_vecDump_of_find hfile hf, t, m.next, (Pcap.mem_of_find hf).2, hread, hbuilt, hhex⟩

/-- What goes on behind the views only adds entries. -/
theorem Ui.step_background {u u' : Ui} {b : UiAct} (hb : b.background = true) (hs : Ui.step h u b = some u') :
    u.sys.pcap.vecDump ⊆ u'.sys.pcap.vecDump := by
  simp only [Ui.step, Option.bind_eq_bind, Option.bind_eq_some_iff, Option.some.injEq] at hs
  obtain ⟨v, _, s, hs, rfl⟩ := hs
  cases b with
  | deliver =>
    obtain ⟨t, ht, hr⟩ := Lts.run_cons_eq_some.1 hs
    cases hr
    obtain ⟨m, q, _, rfl⟩ := Sys.deliver_cases ht
    cases m <;> first | exact List.Subset.refl _ | exact List.subset_append_left _ _
  | worker w c =>
    obtain ⟨t, ht, hr⟩ := Lts.run_cons_eq_some.1 hs
    cases hr
    rw [(Sys.work_flow ht).1]
    exact List.Subset.refl _
  | _ => cases hb

/-- **Every action keeps the views coherent.** -/
theorem Desktop.Coherent.step (hi : d.Coherent h) (hs : d.step h lower db a = some d') : d'.Coherent h := by
  have hfile : d'.sys.pcap.vecDumpFile = [] := Sys.vecDumpFile_run hi.dumpFile (Desktop.step_calls hs)
  cases Desktop.step_move hs with
  | choose index pp vec hstk =>
    refine ⟨hi.tidy, hfile, listed_first vec, ?_, ?_⟩
    · intro c hc
      rw [hstk] at hc
      cases hc
    · intro c p hp
      rw [hstk] at hp
      cases hp
  | select index nic hstk hnic => exact ⟨hi.tidy, hfile, .inl (List.mem_map_of_mem hnic), hi.named, hi.shows⟩
  | push a openList nicName path file sys hstk hname hsys hacts =>
    refine ⟨hi.tidy, hfile, hi.selected, ?_, fun _ _ hp => by cases hp⟩
    intro c hc
    cases hc
    rcases hname with rfl | hname
    · exact hi.selected
    · exact .inl hname
  | toolbar a u c c' sys hstk hname hacts hu =>
    refine ⟨hi.tidy, hfile, hi.selected, ?_, fun _ _ hp => by cases hp⟩
    intro c₁ hc₁
    cases hc₁
    rw [hname]
    exact hi.named c (by rw [hstk]; rfl)
  | back c hstk => exact ⟨hi.tidy, hfile, hi.selected, (fun _ hc => by cases hc), fun _ _ hp => by cases hp⟩
  | locked index => exact hi
  | openPkt index c r treeMd hexArea hstk hcap hr htree hhex =>
    obtain ⟨htidy, hshows⟩ := PktView.shows_of_open hi.tidy hi.dumpFile htree hhex
    refine ⟨htidy, hfile, hi.selected, ?_, ?_⟩
    · intro c₁ hc₁
      cases hc₁
      exact hi.named c (by rw [hstk]; rfl)
    · intro c₁ p hp
      cases hp
      exact ⟨hcap, hshows⟩
  | closePkt c p hstk =>
    refine ⟨hi.tidy, hfile, hi.selected, ?_, fun _ _ hp => by cases hp⟩
    intro c₁ hc₁
    cases hc₁
    exact hi.named c (by rw [hstk]; rfl)
  | background a u sys hacts hback hu =>
    refine ⟨hi.tidy, hfile, hi.selected, hi.named, fun c p hp => ?_⟩
    obtain ⟨hcap, e, he, hshows⟩ := hi.shows c p hp
    exact ⟨hcap, e, Ui.step_background hback hu he, hshows⟩

theorem Desktop.Coherent.run (hl : Desktop.launch lower db disk pp create select = d₀)
    (hr : Lts.run (Desktop.step h lower db) d₀ acts = some d) : d.Coherent h := by
  subst hl
  refine Lts.run_invariant' (fun _ _ _ hi hs => Desktop.Coherent.step hi hs) ?_ hr
  exact ⟨TreeModel.Tidy.init, rfl, listed_first _, (fun _ hc => by cases hc), fun _ _ hp => by cases hp⟩

/-- **The views are coherent.** In every state the window can reach, the selected interface and that of the
capture view are listed, or the list is empty and they are too; and while a packet view is open, its capture
view is not capturing, the tree has a root, and the tree and the hex text are those of one entry of
`vec_dump`, with the number in the title. -/
theorem desktop_views_coherent (hl : Desktop.launch lower db disk pp create select = d₀)
    (hr : Lts.run (Desktop.step h lower db) d₀ acts = some d) :
    d.Listed d.selectNic ∧ (∀ c, d.stk.capture? = some c → d.Listed c.nicName) ∧
      ∀ c p, d.stk = .pktView c p →
        c.isCapturing = false ∧ d.treeMd.root.isSome = true ∧ p.Shows h d.sys.pcap d.treeMd := by
  have hi := Desktop.Coherent.run hl hr
  refine ⟨hi.selected, hi.named, ?_⟩
  intro c p hp
  obtain ⟨hcap, hshows⟩ := hi.shows c p hp
  obtain ⟨e, he, t, base, hnum, hread, hbuilt, hhex⟩ := hshows
  exact ⟨hcap, by rw [hbuilt.root]; rfl, e, he, t, base, hnum, hread, hbuilt, hhex⟩

/-! ## From a row to its packet -/

/-- Captured whole and up to its transport header. -/
def Frame.Covered (f : Frame) : Prop := f.header.caplen = f.header.len ∧ CoversTransport f.packet

/-- Two frames stored alike, one of them captured whole, are captured alike. -/
theorem Frame.packet_eq_of_dump {f g : Frame} {n : Nat} (hd : f.dump n = g.dump n)
    (hg : g.header.caplen = g.header.len) : f.packet = g.packet ∧ f.header = g.header := by
  have hheader : f.header = g.header := congrArg DumpData.header hd
  have hdata : (f.dump n).data = (g.dump n).data := congrArg DumpData.data hd
  rw [((f.keeps_dump_iff n).2 (by rw [hheader, hg])).bytes, ((g.keeps_dump_iff n).2 hg.symm).bytes] at hdata
  exact ⟨hdata, hheader⟩

/-- The frame behind the entry a row's number finds. -/
theorem Sys.frame_of_row {acts : List Act} {s : Sys} (hr : Lts.run (Sys.step h) Sys.init acts = some s)
    (hapart : Lts.Along (Sys.step h) (fun s a => a.apart h s) Sys.init acts)
    (hframes : ∀ a ∈ acts, ∀ f ∈ a.frames, (accepted h f).isSome = true → f.Covered) (hm : s.Matched) {r : Row}
    (hrow : r ∈ s.pcap.md.vec) : ∃ e f row, s.pcap.find r.no = some e ∧ e.dump = f.dump r.no ∧ f.Covered ∧
      accepted h f = some row ∧ r.pkt = { row with num := r.no } := by
  have hstored := (Sys.MatchInv.run hr hapart).stored hm
  obtain ⟨e, hf, hsame⟩ := hstored.find (Sys.vecDumpFile_run rfl hr) hrow
  have hno := hsame.num_eq
  obtain ⟨f, row, ha, hpair⟩ := hsame
  obtain ⟨hrp, hep⟩ := Prod.mk.inj hpair
  have hmem : e ∈ s.entries := List.mem_append_left _ (Pcap.mem_vecDump_of_find (Sys.vecDumpFile_run rfl hr) hf)
  obtain ⟨g, hg, _, hlen, hcovers⟩ := Sys.entries_from hr hframes e hmem
  have hdump : e.dump = f.dump e.dump.pktNum := congrArg Entry.dump hep
  obtain ⟨hpacket, hheader⟩ := Frame.packet_eq_of_dump (hdump.symm.trans hg) hlen
  refine ⟨e, f, row, hf, ?_, ⟨by rw [hheader, hlen], by rw [hpacket]; exact hcovers⟩, ha, ?_⟩
  · rw [Row.no, hno]
    exact hdump
  · rw [Row.no, hno]
    exact congrArg Row.pkt hrp

/-- **A row opens its own packet.** In every run of the window whose accepted frames are captured whole up to
their transport headers, which accepts a packet only beside packets of its own source and clears the lists only in
matched states: in each matched state, double-clicking any row of a view that is not capturing opens a packet view,
never reads outside the stored bytes, and shows the frame the row was made from, its tree agreeing with the row. -/
theorem row_opens_its_packet {c : CaptureView} {index : Nat} {r : Row}
    (hl : Desktop.launch lower db disk pp create select = d₀) (hr : Lts.run (Desktop.step h lower db) d₀ acts = some d)
    (hapart : Lts.Along (Sys.step h) (fun s a => a.apart h s) Sys.init
      (Lts.trace (Desktop.step h lower db) (fun d a => a.calls d) d₀ acts))
    (hframes : ∀ a ∈ Lts.trace (Desktop.step h lower db) (fun d a => a.calls d) d₀ acts, ∀ f ∈ a.frames,
      (accepted h f).isSome = true → f.Covered)
    (hm : d.sys.Matched) (hstk : d.stk = .captureView c) (hcap : c.isCapturing = false)
    (hrow : d.sys.pcap.md.vec[index]? = some r) :
    ∃ d' hexArea f row, d.step h lower db (.rowDoubleClicked index) = some d' ∧ d'.stk = .pktView c ⟨r.no, hexArea⟩ ∧
      accepted h f = some row ∧ r.pkt = { row with num := r.no } ∧ hexDump (f.dump r.no) = some hexArea ∧
      Agrees r.pkt d'.treeMd := by
  have hsys : Lts.run (Sys.step h) Sys.init (Lts.trace (Desktop.step h lower db) (fun d a => a.calls d) d₀ acts) =
      some d.sys := by
    have hrun := Desktop.run_calls hr
    rwa [← hl] at hrun ⊢
  obtain ⟨e, f, row, hf, hdump, ⟨hlen, hcovers⟩, ha, hpkt⟩ :=
    Sys.frame_of_row hsys hapart hframes hm (List.mem_of_getElem? hrow)
  have hread := detail_accepted ha hcovers
  rw [← treeData_of_find hf hdump hlen] at hread
  obtain ⟨m', htree, hbuilt, _⟩ := startTreeMd_of_read (Desktop.Coherent.run hl hr).tidy hread
  rw [treeData_of_find hf hdump hlen] at hbuilt
  have hkeeps := (f.keeps_dump_iff r.no).2 hlen.symm
  obtain ⟨hexArea, hhex⟩ := Option.isSome_iff_exists.1 (isSome_hexDump hkeeps.size)
  have hstart : d.sys.pcap.startHax r.pkt.num = some hexArea := by
    have hf' : d.sys.pcap.find r.pkt.num = some e := hf
    rw [Pcap.startHax, hf']
    exact (congrArg hexDump hdump).trans hhex
  refine ⟨{ d with stk := .pktView c ⟨r.no, hexArea⟩, treeMd := m' }, hexArea, f, row, ?_, rfl, ha, hpkt, hhex, ?_⟩
  · have htree' : startTreeMd h d.sys.pcap r.pkt.num d.treeMd = some m' := htree
    simp only [Desktop.step, hstk, hrow, hcap, Bool.false_eq_true, if_false, Desktop.openPkt, htree', hstart,
      Option.bind_eq_bind, Option.bind_some]
    rfl
  · rw [accepted_wire h (Frame.transportCaptured hcovers)] at ha
    rw [hpkt]
    exact (agrees_wire ha hbuilt).renumber r.no

end

/-! ## A session in the window -/

/-- The program starts with one device and an empty database file. -/
def oneDevice : Desktop (Option (List String)) :=
  Desktop.launch id tableDb ⟨none, []⟩ (some [{ name := some "eth0", description := some "Ethernet" }]) {} {}

/-- A file of one packet is chosen. -/
def openFile : DeskAct Query := .fileAccepted "a.pcap" {} {} (some [udpFrame 42])

/-- Behind a look at its packet is the reading of the file. -/
theorem desktop_refines_ui_file : ∃ d,
    Lts.run (Desktop.step .little id tableDb) oneDevice [openFile, .rowDoubleClicked 0] = some d ∧
      d.sys.pcap.md.vec.length = 1 ∧ d.openList.shown = ["a.pcap"] ∧
      Lts.run (Ui.step .little) Ui.init (Lts.trace (Desktop.step .little id tableDb) (fun d a => a.uiActs d) oneDevice
        [openFile, .rowDoubleClicked 0]) = some d.toUi := by
  obtain ⟨d, hr, hlen, hshown⟩ : ∃ d,
      Lts.run (Desktop.step .little id tableDb) oneDevice [openFile, .rowDoubleClicked 0] = some d ∧
        d.sys.pcap.md.vec.length = 1 ∧ d.openList.shown = ["a.pcap"] := Lts.run_reaches (by decide +kernel)
  exact ⟨d, hr, hlen, hshown, (desktop_refines_ui rfl hr).1⟩

/-- The packet view over the file's view. -/
theorem desktop_views_coherent_file : ∃ d c p,
    Lts.run (Desktop.step .little id tableDb) oneDevice [openFile, .rowDoubleClicked 0] = some d ∧
      d.stk = .pktView c p ∧ c.isCapturing = false ∧ p.Shows .little d.sys.pcap d.treeMd := by
  obtain ⟨d, hr, hstk⟩ : ∃ d,
      Lts.run (Desktop.step .little id tableDb) oneDevice [openFile, .rowDoubleClicked 0] = some d ∧
        (match d.stk with | .pktView .. => true | _ => false) = true := Lts.run_reaches (by decide +kernel)
  cases hs : d.stk with
  | pktView c p =>
    obtain ⟨hcap, _, hshows⟩ := (desktop_views_coherent rfl hr).2.2 c p hs
    exact ⟨d, c, p, hr, hs, hcap, hshows⟩
  | _ =>
    rw [hs] at hstk
    cases hstk

/-- The row of the file is opened. -/
theorem row_opens_its_packet_file : ∃ d d' hexArea,
    Lts.run (Desktop.step .little id tableDb) oneDevice [openFile] = some d ∧
      d.step .little id tableDb (.rowDoubleClicked 0) = some d' ∧
      d'.stk = .pktView ⟨"eth0", "a.pcap", false⟩ ⟨0, hexArea⟩ := by
  obtain ⟨d, hr, hm, hstk, hrow⟩ : ∃ d, Lts.run (Desktop.step .little id tableDb) oneDevice [openFile] = some d ∧
      d.sys.Matched ∧ d.stk = .captureView ⟨"eth0", "a.pcap", false⟩ ∧
        (d.sys.pcap.md.vec[0]?).any (fun r => r.no = 0) = true := Lts.run_reaches (by decide +kernel)
  obtain ⟨r, hrow, hno⟩ := (Option.any_eq_true _ _).1 hrow
  have hapart : Lts.Along (Sys.step .little) (fun s a => a.apart .little s) Sys.init
      (Lts.trace (Desktop.step .little id tableDb) (fun d a => a.calls d) oneDevice [openFile]) := by decide +kernel
  have hframes : ∀ a ∈ Lts.trace (Desktop.step .little id tableDb) (fun d a => a.calls d) oneDevice [openFile],
      ∀ f ∈ a.frames, (accepted .little f).isSome = true → f.header.caplen = f.header.len ∧ CoversTransport f.packet := by
    decide +kernel
  obtain ⟨d', hexArea, f, row, hs, hstk', _⟩ := row_opens_its_packet rfl hr hapart hframes hm hstk rfl hrow
  rw [of_decide_eq_true hno] at hstk'
  exact ⟨d, d', hexArea, hr, hs, hstk'⟩

end MiniWireshark

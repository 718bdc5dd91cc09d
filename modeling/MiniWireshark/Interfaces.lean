import Mathlib.Data.List.Infix
import Mathlib.Data.List.Perm.Basic

/-!
# Capture interfaces (`NicList.cpp`, `NicList.h`)

`set_Nic` lists the devices of `pcap_findalldevs` under one of the filters of `NicListView`. A device
gets one class, by the first test of `compare_Nic` that fits, and Loopback is no filter of the view.

| here | there |
| --- | --- |
| `NicOp`        | `nic_op` (`NicList.h:31-37`); `code` is its value |
| `PcapIf`       | the members of `pcap_if_t` that are read; strings as `fromLocal8Bit` gives them |
| `compareNic`   | `compare_Nic` (`NicList.cpp:95-134`) |
| `setNic`       | `set_Nic` (`:46-93`), with what `pcap_findalldevs` answers |
| `lower`        | `QString::toLower`; nothing is assumed of it |
-/

namespace MiniWireshark

open scoped List

inductive NicOp where
  | loop
  | wlo
  | ethernet
  | virtual
  | any
deriving DecidableEq, Repr

def NicOp.code : NicOp → Nat
  | loop => 1
  | wlo => 2
  | ethernet => 3
  | virtual => 4
  | any => 5

theorem NicOp.code_ne_zero (op : NicOp) : op.code ≠ 0 := by
  cases op <;> decide

structure PcapIf where
  name : Option String
  description : Option String := none
  flags : UInt32 := 0
deriving DecidableEq, Repr

/-- `PCAP_IF_LOOPBACK`. -/
def pcapIfLoopback : UInt32 := 0x00000001

/-- `QString::startsWith`. -/
def qStartsWith (s t : String) : Bool := decide (t.toList <+: s.toList)

/-- `QString::contains`. -/
def qContains (s t : String) : Bool := decide (t.toList <:+: s.toList)

variable (lower : String → String)

def compareNic (name : String) (flags : UInt32) (description : String) : NicOp :=
  let key := lower (name ++ " " ++ description)
  if flags &&& pcapIfLoopback ≠ 0 then .loop
  else if qStartsWith name "wl" || qContains key "wi-fi" || qContains key "wireless" || qContains key "wlan"
      || qContains key "802.11" then .wlo
  else if qContains key "virtual" || qContains key "vmware" || qContains key "virtualbox" || qContains key "hyper-v"
      || qContains key "npf_loopback" then .virtual
  else if qStartsWith name "en" || qStartsWith name "eth" || qContains key "ethernet" || qContains key "realtek"
      || qContains key "intel" then .ethernet
  else if qStartsWith name "vmnet" || qStartsWith name "vbox" then .virtual
  else .ethernet

/-- One pass of the loop: what is pushed for a device. -/
def PcapIf.listed (setFlag : NicOp) (p : PcapIf) : Option (String × NicOp) :=
  match p.name with
  | none => none
  | some name =>
    let flag := compareNic lower name p.flags (p.description.getD "")
    if setFlag ≠ .any ∧ flag = setFlag then some (name, flag)
    else if setFlag = .any ∧ flag.code ≠ 0 then some (name, flag)
    else none

/-- `pp` is `none` where `pcap_findalldevs` fails. -/
def setNic (setFlag : NicOp) (pp : Option (List PcapIf)) : List (String × NicOp) :=
  match pp with
  | none => []
  | some devs => devs.filterMap (PcapIf.listed lower setFlag)

/-- `get_FirstNic`. -/
def getFirstNic (vec : List (String × NicOp)) : String :=
  match vec with
  | [] => ""
  | nic :: _ => nic.1

/-! ## Filters -/

/-- Every device has one of the four classes. -/
theorem compareNic_ne_any (name : String) (flags : UInt32) (description : String) :
    compareNic lower name flags description ≠ .any := by
  simp only [compareNic]
  repeat' split
  all_goals exact NicOp.noConfusion

/-- The class of a listed device, and what a filter does with it. -/
theorem PcapIf.listed_spec (setFlag : NicOp) (p : PcapIf) :
    p.listed lower .any = p.name.map (fun name => (name, compareNic lower name p.flags (p.description.getD ""))) ∧
      (setFlag ≠ .any → p.listed lower setFlag = (p.listed lower .any).filter fun nic => nic.2 = setFlag) := by
  unfold listed
  cases p.name with
  | none => simp
  | some name =>
    refine ⟨by simp [NicOp.code_ne_zero], fun hne => ?_⟩
    by_cases hf : compareNic lower name p.flags (p.description.getD "") = setFlag <;>
      simp [hne, hf, NicOp.code_ne_zero, Option.filter]

/-- A filter picks its class out of the list of all. -/
theorem setNic_eq_filter {setFlag : NicOp} (hne : setFlag ≠ .any) (devs : List PcapIf) :
    setNic lower setFlag (some devs) = (setNic lower .any (some devs)).filter fun nic => nic.2 = setFlag := by
  simp only [setNic]
  induction devs with
  | nil => rfl
  | cons p devs ih =>
    rw [List.filterMap_cons, List.filterMap_cons, (p.listed_spec lower setFlag).2 hne]
    cases p.listed lower .any with
    | none => exact ih
    | some nic =>
      by_cases hf : nic.2 = setFlag <;> simp [Option.filter, hf, ih]

/-- Rows of four classes come apart into the four classes. -/
theorem perm_classes (vec : List (String × NicOp)) (hvec : ∀ nic ∈ vec, nic.2 ≠ .any) :
    vec ~ vec.filter (fun nic => nic.2 = .loop) ++ vec.filter (fun nic => nic.2 = .wlo) ++
      vec.filter (fun nic => nic.2 = .ethernet) ++ vec.filter (fun nic => nic.2 = .virtual) := by
  rw [List.perm_iff_count]
  intro nic
  simp only [List.count_append]
  have hcount (op : NicOp) : (vec.filter fun nic => nic.2 = op).count nic = if nic.2 = op then vec.count nic else 0 := by
    split
    · exact List.count_filter (by simpa using ‹nic.2 = op›)
    · rw [List.count_eq_zero]
      intro hm
      exact absurd (of_decide_eq_true (List.mem_filter.1 hm).2) ‹_›
  rw [hcount, hcount, hcount, hcount]
  by_cases hmem : nic ∈ vec
  · have hop := hvec nic hmem
    cases hn : nic.2 <;> simp_all
  · simp [List.count_eq_zero.2 hmem]

/-- **The filters divide the devices.** Whatever the devices and however their names are lowered: All lists
every named device once, in order, with its class; the other filters list the devices of their class, in the
same order; and every device listed is a loopback device or under exactly one of the three filters the view
offers beside All. -/
theorem nic_filters_divide (devs : List PcapIf) :
    (setNic lower .any (some devs)).map Prod.fst = devs.filterMap PcapIf.name ∧
      (∀ op, op ≠ .any →
        setNic lower op (some devs) = (setNic lower .any (some devs)).filter fun nic => nic.2 = op) ∧
      setNic lower .any (some devs) ~ setNic lower .loop (some devs) ++ setNic lower .wlo (some devs) ++
        setNic lower .ethernet (some devs) ++ setNic lower .virtual (some devs) := by
  have hall : setNic lower .any (some devs) = devs.filterMap fun p =>
      p.name.map fun name => (name, compareNic lower name p.flags (p.description.getD "")) :=
    List.filterMap_congr fun p _ => (p.listed_spec lower .any).1
  refine ⟨?_, fun op hop => setNic_eq_filter lower hop devs, ?_⟩
  · rw [hall, List.map_filterMap]
    congr 1
    funext p
    cases p.name <;> rfl
  · rw [setNic_eq_filter lower (show NicOp.loop ≠ .any by decide), setNic_eq_filter lower (show NicOp.wlo ≠ .any by decide),
      setNic_eq_filter lower (show NicOp.ethernet ≠ .any by decide),
      setNic_eq_filter lower (show NicOp.virtual ≠ .any by decide)]
    apply perm_classes
    intro nic hnic
    rw [hall, List.mem_filterMap] at hnic
    obtain ⟨p, _, hp⟩ := hnic
    obtain ⟨name, _, rfl⟩ := Option.map_eq_some_iff.1 hp
    exact compareNic_ne_any lower _ _ _

end MiniWireshark

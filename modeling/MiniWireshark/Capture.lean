import MiniWireshark.Headers
import Mathlib.Data.List.Perm.Basic

/-!
# The packet list model (`Capture.h`, `Capture.cpp`)

| here | there |
| --- | --- |
| `Capture`                         | `vec`, the sort flags and `proto_num` (`Capture.h:61-71`); `pp`, `num`, `proto_flag` are never read |
| `updateMd`, `reset`               | `Capture::update_md`, `Capture::reset` (`Capture.cpp:67-84`) |
| `StdSort`                         | what `std::sort` promises of its result for a strict weak order: a sorted permutation |
| `sortNum`, `paserAndSort`, …      | the five sorts (`:86-274`) |
| `Row.src`                         | ghost: who delivered the packet; no function reads it |

A sort takes the order `std::sort` leaves as an argument, since equivalent rows may end in any
order. A comparator that indexes past the four address components answers `none`.
-/

namespace MiniWireshark

/-- Who produced a packet: the `w`-th worker, or the `k`-th file read that stored one. -/
inductive Source where
  | live (w : Nat)
  | file (k : Nat)
deriving DecidableEq, Repr

structure Row where
  pkt : StPkt
  src : Source
deriving DecidableEq, Repr

structure Capture where
  vec : List Row := []
  numFlag : Bool := false
  srcFlag : Bool := false
  dstFlag : Bool := false
  lenFlag : Bool := false
  protoNum : Nat := 0
deriving DecidableEq, Repr

/-- `Capture::TARGET`. -/
inductive Target where
  | src
  | dst
deriving DecidableEq, Repr

/-- A column header of `CaptureView` that sorts. -/
inductive Column where
  | num
  | src
  | dst
  | proto
  | len
deriving DecidableEq, Repr

/-- `after` is what `std::sort` may leave of `before` under the comparator `lt`. -/
def StdSort (lt : StPkt → StPkt → Option Bool) (before after : List Row) : Prop :=
  after.Perm before ∧ after.Pairwise fun a b => lt b.pkt a.pkt ≠ some true

instance (lt : StPkt → StPkt → Option Bool) (before after : List Row) : Decidable (StdSort lt before after) :=
  inferInstanceAs (Decidable (_ ∧ _))

/-! ## Address comparison (`paser_and_sort`) -/

/-- `QString::split(".")`. -/
def qSplit (s : String) : List (List Char) := s.toList.splitOn '.'

/-- Non-empty decimal digits. -/
def digits (cs : List Char) : Option Nat :=
  if cs ≠ [] ∧ cs.all Char.isDigit then some (cs.foldl (fun n c => 10 * n + (c.toNat - 48)) 0) else none

/-- `QString::toInt()`: surrounding blanks and a sign are allowed; `0` where it does not parse or
does not fit an `int`. -/
def toInt (cs : List Char) : Int :=
  let cs := ((cs.dropWhile Char.isWhitespace).reverse.dropWhile Char.isWhitespace).reverse
  let z : Option Int := match cs with
    | '-' :: ds => (digits ds).map fun n => -(n : Int)
    | '+' :: ds => (digits ds).map fun n => (n : Int)
    | ds => (digits ds).map fun n => (n : Int)
  match z with
  | some z => if -2147483648 ≤ z ∧ z < 2147483648 then z else 0
  | none => 0

/-- The `for (int i = 0; i < 4; i++)` loop of the comparator, over the indices still to visit. -/
def addrLoop (flag : Bool) (arr1 arr2 : List (List Char)) : List Nat → Option Bool
  | [] => some false
  | i :: is => do
    let x ← arr1[i]?
    let y ← arr2[i]?
    if toInt x ≠ toInt y then
      some (if flag = false then decide (toInt x > toInt y) else decide (toInt x < toInt y))
    else addrLoop flag arr1 arr2 is

def addrLt (flag : Bool) (qs1 qs2 : String) : Option Bool := addrLoop flag (qSplit qs1) (qSplit qs2) [0, 1, 2, 3]

/-! ## The model -/

namespace Capture

def updateMd (c : Capture) (pkt : Row) : Capture := { c with vec := c.vec ++ [pkt] }

def reset (c : Capture) : Capture := { c with vec := [] }

def numLt (c : Capture) (p1 p2 : StPkt) : Option Bool :=
  some (if c.numFlag = false then decide (p1.num > p2.num) else decide (p1.num < p2.num))

def sortNum (c : Capture) (sorted : List Row) : Option Capture :=
  if StdSort c.numLt c.vec sorted then some { c with vec := sorted, numFlag := !c.numFlag } else none

def paserAndSort (c : Capture) (target : Target) (sorted : List Row) : Option Capture :=
  match target with
  | .src =>
    if StdSort (fun p1 p2 => addrLt c.srcFlag p1.src p2.src) c.vec sorted then
      some { c with vec := sorted, srcFlag := !c.srcFlag }
    else none
  | .dst =>
    if StdSort (fun p1 p2 => addrLt c.dstFlag p1.dst p2.dst) c.vec sorted then
      some { c with vec := sorted, dstFlag := !c.dstFlag }
    else none

def getProtoNum (qs : String) : Nat :=
  if qs = "TCP" then 0 else if qs = "UDP" then 1 else if qs = "ICMP" then 2 else 0

def protoLt (protoNum : Nat) (p1 p2 : StPkt) : Option Bool :=
  some (decide ((getProtoNum p1.proto + 3 - protoNum) % 3 < (getProtoNum p2.proto + 3 - protoNum) % 3))

/-- `proto_num` moves on before the rows are compared. -/
def sortProto (c : Capture) (sorted : List Row) : Option Capture :=
  let protoNum := (c.protoNum + 1) % 3
  if StdSort (protoLt protoNum) c.vec sorted then some { c with vec := sorted, protoNum := protoNum } else none

def lenLt (c : Capture) (p1 p2 : StPkt) : Option Bool :=
  some (if c.lenFlag = false then decide (p1.len < p2.len) else decide (p1.len > p2.len))

def sortLen (c : Capture) (sorted : List Row) : Option Capture :=
  if StdSort c.lenLt c.vec sorted then some { c with vec := sorted, lenFlag := !c.lenFlag } else none

/-- A click on a column header. -/
def sort (c : Capture) (col : Column) (sorted : List Row) : Option Capture :=
  match col with
  | .num => c.sortNum sorted
  | .src => c.paserAndSort .src sorted
  | .dst => c.paserAndSort .dst sorted
  | .proto => c.sortProto sorted
  | .len => c.sortLen sorted

@[simp] theorem updateMd_vec (c : Capture) (pkt : Row) : (c.updateMd pkt).vec = c.vec ++ [pkt] := rfl

@[simp] theorem reset_vec (c : Capture) : c.reset.vec = [] := rfl

/-- Every sort leaves the order it was given, a permutation of the rows before it. -/
theorem sort_spec {c c' : Capture} {col : Column} {sorted : List Row} (h : c.sort col sorted = some c') :
    c'.vec = sorted ∧ sorted.Perm c.vec := by
  cases col <;> simp only [sort, sortNum, paserAndSort, sortProto, sortLen] at h <;> split at h <;> cases h <;>
    rename_i hs <;> exact ⟨rfl, hs.1⟩

end Capture

end MiniWireshark

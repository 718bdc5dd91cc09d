import MiniWireshark.Lib.Comparator
import MiniWireshark.Lib.Lts
import MiniWireshark.Lib.Text
import MiniWireshark.Wire
import Mathlib.Data.Int.Order.Basic
import Mathlib.Data.List.Rotate
import Mathlib.Tactic.IntervalCases

/-!
# Column sorting (`Capture.cpp:67-274`)

Each comparator compares a key on the rows the handlers make, so it is a strict weak order there
and sorting by it is sorting by the key; the key depends on how often the column was sorted before.

| here | meaning |
| --- | --- |
| `addrValue s`       | the 32-bit value of a dotted decimal |
| `HandlerRow pkt`    | a row as either handler makes it of some frame |
| `sortKey col n`     | what the next sort of `col` orders by after `n` sorts of it; a sign turns the order around |
| `CaptureOp`         | a sort, `update_md` or `reset` |
| `Capture.comparator` | the comparator the next sort of a column hands to `std::sort` |
-/

namespace MiniWireshark

open Text

/-! ## Addresses -/

def addrValue (s : String) : Nat :=
  (s.toList.splitOn '.').foldl (fun v part => 256 * v + Nat.ofDigitChars 10 part 0) 0

section
variable {a b c d a' b' c' d' n : Nat}

theorem dot_not_mem_toDigits (n : Nat) : '.' ∉ Nat.toDigits 10 n := by
  intro hm
  exact absurd (isDigit_of_mem_toDigits hm) (by decide)

/-- A dotted decimal splits into its four components. -/
theorem qSplit_inetNtoa (a b c d : Nat) :
    qSplit (inetNtoa a b c d) = [Nat.toDigits 10 a, Nat.toDigits 10 b, Nat.toDigits 10 c, Nat.toDigits 10 d] := by
  have htext : (inetNtoa a b c d).toList = Nat.toDigits 10 a ++ '.' :: (Nat.toDigits 10 b ++ '.' ::
      (Nat.toDigits 10 c ++ '.' :: Nat.toDigits 10 d)) := by
    simp only [inetNtoa, String.toList_append, toList_toString, show ".".toList = ['.'] from rfl, List.append_assoc,
      List.cons_append, List.nil_append]
  rw [qSplit, htext, List.splitOn_append_cons_self_of_not_mem (dot_not_mem_toDigits a),
    List.splitOn_append_cons_self_of_not_mem (dot_not_mem_toDigits b),
    List.splitOn_append_cons_self_of_not_mem (dot_not_mem_toDigits c),
    List.splitOn_eq_singleton (dot_not_mem_toDigits d)]

theorem addrValue_inetNtoa (a b c d : Nat) :
    addrValue (inetNtoa a b c d) = 16777216 * a + 65536 * b + 256 * c + d := by
  rw [addrValue, ← qSplit, qSplit_inetNtoa]
  simp only [List.foldl_cons, List.foldl_nil, Nat.ofDigitChars_ten_toDigits]
  omega

/-- The value of an address shown is the big-endian value of its four bytes. -/
theorem addrValue_dotted (p : List UInt8) (i : Nat) : addrValue (dotted p i) = Reader.be32 p i := addrValue_inetNtoa _ _ _ _

theorem digits_toDigits (n : Nat) : digits (Nat.toDigits 10 n) = some n := by
  have hall : (Nat.toDigits 10 n).all Char.isDigit = true :=
    List.all_eq_true.2 fun c hc => isDigit_of_mem_toDigits hc
  have hval : (Nat.toDigits 10 n).foldl (fun n c => 10 * n + (c.toNat - 48)) 0 = n :=
    Nat.ofDigitChars_ten_toDigits
  rw [digits, if_pos ⟨Nat.toDigits_ne_nil, hall⟩, hval]

theorem isWhitespace_of_isDigit {c : Char} (hc : c.isDigit = true) : c.isWhitespace = false := by
  by_contra h
  rw [Bool.not_eq_false, Char.isWhitespace] at h
  simp only [Bool.or_eq_true, decide_eq_true_iff] at h
  rcases h with ((rfl | rfl) | rfl) | rfl <;> revert hc <;> decide

theorem dropWhile_digits {cs : List Char} (h : ∀ c ∈ cs, c.isDigit = true) : cs.dropWhile Char.isWhitespace = cs := by
  cases cs with
  | nil => rfl
  | cons c cs => rw [List.dropWhile_cons_of_neg (by simp [isWhitespace_of_isDigit (h c List.mem_cons_self)])]

/-- `toInt` reads a component back. -/
theorem toInt_toDigits (hn : n < 2147483648) : toInt (Nat.toDigits 10 n) = n := by
  have hdigit : ∀ c ∈ Nat.toDigits 10 n, c.isDigit = true := fun c hc => isDigit_of_mem_toDigits hc
  have htrim : (((Nat.toDigits 10 n).dropWhile Char.isWhitespace).reverse.dropWhile Char.isWhitespace).reverse =
      Nat.toDigits 10 n := by
    rw [dropWhile_digits hdigit, dropWhile_digits fun c hc => hdigit c (List.mem_reverse.1 hc), List.reverse_reverse]
  -- the first character is a digit, so no sign is taken off
  have hsign {c : Char} {ds : List Char} (hc : c.isDigit = false) : Nat.toDigits 10 n ≠ c :: ds := by
    intro heq
    have := hdigit c (by rw [heq]; exact List.mem_cons_self)
    rw [hc] at this
    cases this
  simp only [toInt, htrim]
  split
  · rename_i z hz
    split at hz
    · exact absurd ‹_› (hsign (by decide))
    · exact absurd ‹_› (hsign (by decide))
    · rw [digits_toDigits] at hz
      obtain rfl : (n : Int) = z := Option.some.inj hz
      rw [if_pos (by omega)]
  · rename_i hz
    split at hz
    · exact absurd ‹_› (hsign (by decide))
    · exact absurd ‹_› (hsign (by decide))
    · rw [digits_toDigits] at hz
      cases hz

/-- The comparison of two dotted decimals is that of their values. -/
theorem addrLt_inetNtoa (flag : Bool) (ha : a < 256) (hb : b < 256) (hc : c < 256) (hd : d < 256) (ha' : a' < 256)
    (hb' : b' < 256) (hc' : c' < 256) (hd' : d' < 256) :
    addrLt flag (inetNtoa a b c d) (inetNtoa a' b' c' d') =
      some (if flag = false then decide (addrValue (inetNtoa a b c d) > addrValue (inetNtoa a' b' c' d'))
        else decide (addrValue (inetNtoa a b c d) < addrValue (inetNtoa a' b' c' d'))) := by
  simp (disch := omega) only [addrLt, qSplit_inetNtoa, addrLoop, addrValue_inetNtoa, List.getElem?_cons_zero,
    List.getElem?_cons_succ, Option.bind_eq_bind, Option.bind_some, toInt_toDigits]
  cases flag <;> split_ifs <;> simp <;> omega

end

/-! ## The rows of the handlers -/

def HandlerRow (pkt : StPkt) : Prop := ∃ h f row n, accepted h f = some row ∧ pkt = { row with num := n }

/-- An address as `inet_ntoa` prints it. -/
def Printed (s : String) : Prop := ∃ a b c d, a < 256 ∧ b < 256 ∧ c < 256 ∧ d < 256 ∧ s = inetNtoa a b c d

/-- The protocols in the order `get_proto_num` gives them. -/
def protocols : List String := ["TCP", "UDP", "ICMP"]

theorem printed_of_readInAddr {rd : Nat → Option UInt8} {i : Nat} {s : String} (hs : readInAddr rd i = some s) :
    Printed s := by
  simp only [readInAddr, Option.bind_eq_bind, Option.bind_eq_some_iff, Option.some.injEq] at hs
  obtain ⟨a, ha, b, hb, c, hc, d, hd, rfl⟩ := hs
  exact ⟨a, b, c, d, Reader.u8_lt ha, Reader.u8_lt hb, Reader.u8_lt hc, Reader.u8_lt hd, rfl⟩

/-- The transport branches name one of three protocols. -/
theorem proto_of_decodeTransport {h : Host} {rd : Nat → Option UInt8} {caplen ip ihl protocol : Nat}
    {r : String × String} (hr : decodeTransport h rd caplen ip ihl protocol = some (some r)) : r.1 ∈ protocols := by
  unfold decodeTransport at hr
  split_ifs at hr
  · simp only [decodeTcp, reject_else_iff, Option.bind_eq_bind, Option.bind_eq_some_iff, Option.some.injEq] at hr
    obtain ⟨_, _, _, _, _, _, _, _, _, _, _, _, _, _, _, _, _, _, _, rfl⟩ := hr
    simp [protocols]
  · simp only [decodeUdp, Option.bind_eq_bind, Option.bind_eq_some_iff, Option.some.injEq] at hr
    obtain ⟨_, _, _, _, _, _, rfl⟩ := hr
    simp [protocols]
  · simp only [decodeIcmp, Option.bind_eq_bind, Option.bind_eq_some_iff, Option.some.injEq] at hr
    obtain ⟨_, _, _, _, rfl⟩ := hr
    simp [protocols]
  · cases hr

/-- What an accepted frame shows in the columns that sort by text. -/
theorem accepted_columns {h : Host} {f : Frame} {row : StPkt} (ha : accepted h f = some row) :
    Printed row.src ∧ Printed row.dst ∧ row.proto ∈ protocols := by
  have hd := decode_read h f
  rw [ha] at hd
  obtain ⟨ihl, protocol, r, _, _, htrans, hrow⟩ := decode_eq_some_iff.1 hd
  have hproto := proto_of_decodeTransport htrans
  simp only [finishPkt, Option.bind_eq_bind, Option.bind_eq_some_iff, Option.some.injEq] at hrow
  obtain ⟨src, hsrc, dst, hdst, totLen, _, rfl⟩ := hrow
  exact ⟨printed_of_readInAddr hsrc, printed_of_readInAddr hdst, hproto⟩

theorem HandlerRow.columns {pkt : StPkt} (hr : HandlerRow pkt) :
    Printed pkt.src ∧ Printed pkt.dst ∧ pkt.proto ∈ protocols := by
  obtain ⟨h, f, row, n, ha, rfl⟩ := hr
  obtain ⟨hsrc, hdst, hproto⟩ := accepted_columns ha
  exact ⟨hsrc, hdst, hproto⟩

theorem Printed.addrLt {s t : String} (hs : Printed s) (ht : Printed t) (flag : Bool) :
    addrLt flag s t =
      some (if flag = false then decide (addrValue s > addrValue t) else decide (addrValue s < addrValue t)) := by
  obtain ⟨a, b, c, d, ha, hb, hc, hd, rfl⟩ := hs
  obtain ⟨a', b', c', d', ha', hb', hc', hd', rfl⟩ := ht
  exact addrLt_inetNtoa flag ha hb hc hd ha' hb' hc' hd'

/-! ## The comparators -/

namespace Capture

/-- The comparator the next sort of `col` hands to `std::sort`. -/
def comparator (c : Capture) (col : Column) : StPkt → StPkt → Option Bool :=
  match col with
  | .num => c.numLt
  | .src => fun p1 p2 => addrLt c.srcFlag p1.src p2.src
  | .dst => fun p1 p2 => addrLt c.dstFlag p1.dst p2.dst
  | .proto => protoLt ((c.protoNum + 1) % 3)
  | .len => c.lenLt

/-- What a sort of `col` does to the flags. -/
def turn (c : Capture) (col : Column) : Capture :=
  match col with
  | .num => { c with numFlag := !c.numFlag }
  | .src => { c with srcFlag := !c.srcFlag }
  | .dst => { c with dstFlag := !c.dstFlag }
  | .proto => { c with protoNum := (c.protoNum + 1) % 3 }
  | .len => { c with lenFlag := !c.lenFlag }

/-- **Step lemma for the sorts.** -/
theorem sort_iff {c c' : Capture} {col : Column} {sorted : List Row} :
    c.sort col sorted = some c' ↔
      StdSort (c.comparator col) c.vec sorted ∧ { c.turn col with vec := sorted } = c' := by
  cases col <;> simp only [sort, sortNum, paserAndSort, sortProto, sortLen, comparator, turn, Option.ite_none_right_eq_some,
    Option.some.injEq]

end Capture

/-! ## Histories -/

inductive CaptureOp where
  | sort (col : Column) (sorted : List Row)
  | updateMd (row : Row)
  | reset
deriving DecidableEq, Repr

namespace CaptureOp

def step (c : Capture) : CaptureOp → Option Capture
  | sort col sorted => c.sort col sorted
  | updateMd row => some (c.updateMd row)
  | reset => some c.reset

def sorts (col : Column) : CaptureOp → Bool
  | sort col' _ => col' = col
  | _ => false

/-- Only the handlers' rows are added. -/
def FromHandler : CaptureOp → Prop
  | updateMd row => HandlerRow row.pkt
  | _ => True

end CaptureOp

/-- How often a history sorts a column. -/
def calls (col : Column) (ops : List CaptureOp) : Nat := ops.countP (·.sorts col)

/-- What the next sort of a column orders by, smallest first, after `n` sorts of that column. -/
def sortKey (col : Column) (n : Nat) (pkt : StPkt) : Int :=
  match col with
  | .num => if n % 2 = 0 then -pkt.num else pkt.num
  | .src => if n % 2 = 0 then -addrValue pkt.src else addrValue pkt.src
  | .dst => if n % 2 = 0 then -addrValue pkt.dst else addrValue pkt.dst
  | .proto => (protocols.rotate (n + 1)).idxOf pkt.proto
  | .len => if n % 2 = 0 then pkt.len else -pkt.len

/-- The state of the model after a history: the flags say how often each column was sorted. -/
structure Capture.After (c : Capture) (ops : List CaptureOp) : Prop where
  rows : ∀ r ∈ c.vec, HandlerRow r.pkt
  num : c.numFlag = decide (calls .num ops % 2 = 1)
  src : c.srcFlag = decide (calls .src ops % 2 = 1)
  dst : c.dstFlag = decide (calls .dst ops % 2 = 1)
  len : c.lenFlag = decide (calls .len ops % 2 = 1)
  proto : c.protoNum = calls .proto ops % 3

section
variable {c c' : Capture} {ops : List CaptureOp} {op : CaptureOp}

theorem calls_snoc (col : Column) (ops : List CaptureOp) (op : CaptureOp) :
    calls col (ops ++ [op]) = calls col ops + if op.sorts col then 1 else 0 := by
  rw [calls, List.countP_append, List.countP_singleton, calls]

theorem not_odd (n : Nat) : (!decide (n % 2 = 1)) = decide ((n + 1) % 2 = 1) := by
  rw [← decide_not, decide_eq_decide]
  omega

theorem Capture.After.step (hc : c.After ops) (hop : op.FromHandler) (hs : op.step c = some c') :
    c'.After (ops ++ [op]) := by
  obtain ⟨hrows, hnum, hsrc, hdst, hlen, hproto⟩ := hc
  cases op with
  | sort col sorted =>
    obtain ⟨⟨hperm, _⟩, rfl⟩ := Capture.sort_iff.1 hs
    have hrows' : ∀ r ∈ sorted, HandlerRow r.pkt := fun r hr => hrows r (hperm.mem_iff.1 hr)
    cases col <;> constructor <;>
      simp [calls_snoc, CaptureOp.sorts, Capture.turn, not_odd, hnum, hsrc, hdst, hlen, hproto] <;> assumption
  | updateMd row =>
    cases hs
    have hsame : ∀ col, calls col (ops ++ [.updateMd row]) = calls col ops := fun col => calls_snoc col ops _
    refine ⟨?_, by rw [hsame]; exact hnum, by rw [hsame]; exact hsrc, by rw [hsame]; exact hdst,
      by rw [hsame]; exact hlen, by rw [hsame]; exact hproto⟩
    intro r hr
    rcases List.mem_append.1 hr with hr | hr
    · exact hrows r hr
    · rw [List.mem_singleton.1 hr]
      exact hop
  | reset =>
    cases hs
    have hsame : ∀ col, calls col (ops ++ [.reset]) = calls col ops := fun col => calls_snoc col ops _
    refine ⟨?_, by rw [hsame]; exact hnum, by rw [hsame]; exact hsrc, by rw [hsame]; exact hdst,
      by rw [hsame]; exact hlen, by rw [hsame]; exact hproto⟩
    intro r hr
    cases hr

/-- **Run lemma.** -/
theorem after_run {rows : List Row} (hrows : ∀ r ∈ rows, HandlerRow r.pkt) (hops : ∀ op ∈ ops, op.FromHandler)
    (hr : Lts.run CaptureOp.step { vec := rows } ops = some c) : c.After ops := by
  refine Lts.run_ind (motive := fun ops c => (∀ op ∈ ops, op.FromHandler) → c.After ops) ?_ ?_ hr hops
  · intro _
    exact ⟨hrows, rfl, rfl, rfl, rfl, rfl⟩
  · intro ops c op c' _ ih hs hops
    exact (ih fun o ho => hops o (List.mem_append_left _ ho)).step
      (hops op (List.mem_append_right _ List.mem_cons_self)) hs

/-! ## What each comparator compares -/

theorem getProtoNum_protocols {s : String} (hs : s ∈ protocols) (n : Nat) :
    (Capture.getProtoNum s + 3 - (n % 3 + 1) % 3) % 3 = (protocols.rotate (n + 1)).idxOf s := by
  have hrot : protocols.rotate (n + 1) = protocols.rotate ((n % 3 + 1) % 3) := by
    rw [← List.rotate_mod, show protocols.length = 3 from rfl, Nat.mod_add_mod]
  have hlt : n % 3 < 3 := Nat.mod_lt _ (by decide)
  rw [hrot]
  generalize n % 3 = m at hlt ⊢
  simp only [protocols, List.mem_cons, List.not_mem_nil, or_false] at hs
  rcases hs with rfl | rfl | rfl <;> interval_cases m <;> decide

/-- Each comparator compares the key of its column. -/
theorem Capture.After.byKey (hc : c.After ops) (col : Column) :
    Comparator.ByKey HandlerRow (sortKey col (calls col ops)) (c.comparator col) := by
  intro p1 p2 h1 h2
  cases col with
  | num =>
    simp only [Capture.comparator, Capture.numLt, hc.num, sortKey]
    rcases Nat.mod_two_eq_zero_or_one (calls .num ops) with hn | hn <;> simp [hn]
  | src =>
    simp only [Capture.comparator, h1.columns.1.addrLt h2.columns.1, hc.src, sortKey]
    rcases Nat.mod_two_eq_zero_or_one (calls .src ops) with hn | hn <;> simp [hn]
  | dst =>
    simp only [Capture.comparator, h1.columns.2.1.addrLt h2.columns.2.1, hc.dst, sortKey]
    rcases Nat.mod_two_eq_zero_or_one (calls .dst ops) with hn | hn <;> simp [hn]
  | len =>
    simp only [Capture.comparator, Capture.lenLt, hc.len, sortKey]
    rcases Nat.mod_two_eq_zero_or_one (calls .len ops) with hn | hn <;> simp [hn]
  | proto =>
    simp only [Capture.comparator, Capture.protoLt, hc.proto, sortKey, getProtoNum_protocols h1.columns.2.2,
      getProtoNum_protocols h2.columns.2.2, Nat.cast_lt]

/-- **Column sorting is correct over any history.** After any sorts, additions of handler rows and
resets, the next sort of a column hands `std::sort` a strict weak order that never fails on such rows,
so it returns; what it returns is a permutation of the rows, ordered by the key of the column. -/
theorem sorts_correct {rows : List Row} (hrows : ∀ r ∈ rows, HandlerRow r.pkt) (hops : ∀ op ∈ ops, op.FromHandler)
    (hr : Lts.run CaptureOp.step { vec := rows } ops = some c) (col : Column) :
    IsStrictWeakOrder {pkt // HandlerRow pkt} (fun p1 p2 => c.comparator col p1.1 p2.1 = some true) ∧
    (∀ p1 p2, HandlerRow p1 → HandlerRow p2 → (c.comparator col p1 p2).isSome = true) ∧
    (∃ sorted c', c.sort col sorted = some c') ∧
    ∀ sorted c', c.sort col sorted = some c' →
      StdSort (c.comparator col) c.vec sorted ∧ c'.vec = sorted ∧ c'.vec.Perm c.vec ∧
      c'.vec.Pairwise fun a b => sortKey col (calls col ops) a.pkt ≤ sortKey col (calls col ops) b.pkt := by
  have hc := after_run hrows hops hr
  have hkey := hc.byKey col
  refine ⟨hkey.strictWeakOrder, fun _ _ h1 h2 => hkey.isSome h1 h2, ?_, ?_⟩
  · obtain ⟨sorted, hperm, hsorted⟩ :=
      Comparator.exists_sorted (fun r : Row => sortKey col (calls col ops) r.pkt) c.vec
    have hP : ∀ r ∈ sorted, HandlerRow r.pkt := fun r hr => hc.rows r (hperm.mem_iff.1 hr)
    exact ⟨sorted, _, Capture.sort_iff.2 ⟨⟨hperm, (hkey.sorted_iff hP).2 hsorted⟩, rfl⟩⟩
  · intro sorted c' hs
    obtain ⟨⟨hperm, hpair⟩, rfl⟩ := Capture.sort_iff.1 hs
    have hP : ∀ r ∈ sorted, HandlerRow r.pkt := fun r hr => hc.rows r (hperm.mem_iff.1 hr)
    exact ⟨⟨hperm, hpair⟩, rfl, hperm, (hkey.sorted_iff hP).1 hpair⟩

end

/-- What the list shows of the empty datagram. -/
def udpRow (num : Nat) : Row := ⟨⟨num, "10.0.0.1", "10.0.0.2", "UDP", 42, "53 ---> 53   Len=0"⟩, .file 0⟩

theorem handlerRow_udpRow (num : Nat) : HandlerRow (udpRow num).pkt :=
  ⟨.little, udpFrame 42, (udpRow 0).pkt, num, by decide +kernel, rfl⟩

theorem handlerRow_tcpRow (num : Nat) : HandlerRow (tcpRow num).pkt :=
  ⟨.little, tcpFrame, (tcpRow 0).pkt, num, by decide +kernel, rfl⟩

/-- Sorts by length, by protocol and by number, with a row added in between. -/
def sortedThrice : List CaptureOp :=
  [.sort .len [udpRow 1, tcpRow 0], .sort .proto [udpRow 1, tcpRow 0], .updateMd (udpRow 2),
    .sort .num [udpRow 2, udpRow 1, tcpRow 0]]

/-- The next sort by number ascends, the next by length descends, and the next by protocol puts ICMP before
TCP before UDP. -/
theorem sorts_correct_columns : ∃ c, Lts.run CaptureOp.step { vec := [tcpRow 0, udpRow 1] } sortedThrice = some c ∧
    (∀ sorted c', c.sort .num sorted = some c' → c'.vec.Pairwise fun a b => (a.pkt.num : Int) ≤ b.pkt.num) ∧
    (∀ sorted c', c.sort .len sorted = some c' → c'.vec.Pairwise fun a b => -(a.pkt.len : Int) ≤ -b.pkt.len) ∧
    (∀ sorted c', c.sort .proto sorted = some c' → c'.vec.Pairwise fun a b =>
      (["ICMP", "TCP", "UDP"].idxOf a.pkt.proto : Int) ≤ ["ICMP", "TCP", "UDP"].idxOf b.pkt.proto) ∧
    c.sort .proto [tcpRow 0, udpRow 2, udpRow 1] ≠ none := by
  obtain ⟨c, hr, hproto⟩ : ∃ c, Lts.run CaptureOp.step { vec := [tcpRow 0, udpRow 1] } sortedThrice = some c ∧
      c.sort .proto [tcpRow 0, udpRow 2, udpRow 1] ≠ none := Lts.run_reaches (by decide +kernel)
  have hrows : ∀ r ∈ [tcpRow 0, udpRow 1], HandlerRow r.pkt := by simp [handlerRow_udpRow, handlerRow_tcpRow]
  have hops : ∀ op ∈ sortedThrice, op.FromHandler := by simp [sortedThrice, CaptureOp.FromHandler, handlerRow_udpRow]
  have hordered (col : Column) {sorted : List Row} {c' : Capture} (hs : c.sort col sorted = some c') :=
    ((sorts_correct hrows hops hr col).2.2.2 sorted c' hs).2.2.2
  exact ⟨c, hr, fun _ _ => hordered .num, fun _ _ => hordered .len, fun _ _ => hordered .proto, hproto⟩

end MiniWireshark

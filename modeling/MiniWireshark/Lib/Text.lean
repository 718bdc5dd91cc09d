import Mathlib.Data.List.Basic

/-!
# Numbers in text

Decimal and hexadecimal numbers as they are printed, and how a reader gets them back: by the
characters they are made of, by their values, and by the separators that are not among them.

| here | meaning |
| --- | --- |
| `afterLast c l`   | what follows the last `c` of `l` |
| `isNumChar`       | a decimal digit or the sign |
| `hexVal`, `hexNum` | the value of a lower-case hexadecimal digit, and of a number |
-/

namespace Text

/-! ## Decimal numbers -/

theorem toList_toString (n : Nat) : (toString n).toList = Nat.toDigits 10 n := Nat.toList_repr

theorem toDigits_inj {m n : Nat} : Nat.toDigits 10 m = Nat.toDigits 10 n ↔ m = n := by
  constructor
  · intro h
    have hval := congrArg (Nat.ofDigitChars 10 · 0) h
    simpa using hval
  · rintro rfl
    rfl

theorem toString_nat_inj {m n : Nat} : toString m = toString n ↔ m = n := by
  rw [← String.toList_inj, toList_toString, toList_toString, toDigits_inj]

theorem isDigit_of_mem_toDigits {n : Nat} {c : Char} (hc : c ∈ Nat.toDigits 10 n) : c.isDigit = true :=
  Nat.isDigit_of_mem_toDigits (by decide) (by decide) hc

def isNumChar (c : Char) : Bool := c.isDigit || c == '-'

theorem toList_toString_int (z : Int) :
    (toString z).toList = if 0 ≤ z then Nat.toDigits 10 z.toNat else '-' :: Nat.toDigits 10 (-z).toNat := by
  rw [Int.toString_eq_repr, Int.repr_eq_if]
  split <;> simp

theorem isNumChar_of_mem {z : Int} {c : Char} (hc : c ∈ (toString z).toList) : isNumChar c = true := by
  rw [toList_toString_int] at hc
  unfold isNumChar
  split at hc
  · simp [isDigit_of_mem_toDigits hc]
  · rcases List.mem_cons.1 hc with rfl | hc
    · rfl
    · simp [isDigit_of_mem_toDigits hc]

/-- Printed integers are told apart. -/
theorem toString_int_inj {y z : Int} : toString y = toString z ↔ y = z := by
  constructor
  swap
  · rintro rfl
    rfl
  intro h
  have hl := congrArg String.toList h
  rw [toList_toString_int, toList_toString_int] at hl
  -- a sign is not a digit
  have hsign (m n : Nat) : Nat.toDigits 10 m ≠ '-' :: Nat.toDigits 10 n := by
    intro e
    have hd := isDigit_of_mem_toDigits (n := m) (c := '-') (by rw [e]; exact List.mem_cons_self)
    exact absurd hd (by decide)
  by_cases hy : 0 ≤ y <;> by_cases hz : 0 ≤ z
  · rw [if_pos hy, if_pos hz, toDigits_inj] at hl
    omega
  · rw [if_pos hy, if_neg hz] at hl
    exact absurd hl (hsign _ _)
  · rw [if_neg hy, if_pos hz] at hl
    exact absurd hl.symm (hsign _ _)
  · rw [if_neg hy, if_neg hz, List.cons.injEq, toDigits_inj] at hl
    omega

/-! ## Hexadecimal numbers -/

def isHexDigit (c : Char) : Bool := c.isDigit || (decide ('a' ≤ c) && decide (c ≤ 'f'))

def hexVal (c : Char) : Nat := if c.isDigit then c.toNat - 48 else c.toNat - 87

def hexNum (cs : List Char) : Nat := cs.foldl (fun n c => 16 * n + hexVal c) 0

theorem isHexDigit_digitChar {n : Nat} (h : n < 16) : isHexDigit n.digitChar = true := by
  revert n
  decide

theorem hexVal_digitChar {n : Nat} (h : n < 16) : hexVal n.digitChar = n := by
  revert n
  decide

theorem hexNum_append_singleton (cs : List Char) (c : Char) : hexNum (cs ++ [c]) = 16 * hexNum cs + hexVal c := by
  simp [hexNum]

theorem hexNum_toDigits (n : Nat) : hexNum (Nat.toDigits 16 n) = n := by
  induction n using Nat.strongRecOn with
  | _ n ih =>
    by_cases h : n < 16
    · rw [Nat.toDigits_of_lt_base h, ← List.nil_append [n.digitChar], hexNum_append_singleton, hexVal_digitChar h]
      exact Nat.zero_add n
    · rw [Nat.toDigits_of_base_le (by decide) (by omega), hexNum_append_singleton, ih (n / 16) (by omega),
        hexVal_digitChar (Nat.mod_lt n (by decide))]
      omega

/-- The digits of a number are those of values below 16. -/
theorem exists_digitChar {n : Nat} {c : Char} (hc : c ∈ Nat.toDigits 16 n) : ∃ k < 16, c = k.digitChar := by
  induction n using Nat.strongRecOn with
  | _ n ih =>
    by_cases h : n < 16
    · rw [Nat.toDigits_of_lt_base h] at hc
      exact ⟨n, h, List.mem_singleton.1 hc⟩
    · rw [Nat.toDigits_of_base_le (by decide) (by omega)] at hc
      rcases List.mem_append.1 hc with hc | hc
      · exact ih (n / 16) (by omega) hc
      · exact ⟨n % 16, Nat.mod_lt n (by decide), List.mem_singleton.1 hc⟩

theorem isHexDigit_of_mem_toDigits {n : Nat} {c : Char} (hc : c ∈ Nat.toDigits 16 n) : isHexDigit c = true := by
  obtain ⟨k, hk, rfl⟩ := exists_digitChar hc
  exact isHexDigit_digitChar hk

/-- Leading zeros do not count. -/
theorem hexNum_replicate_append (k : Nat) (cs : List Char) : hexNum (List.replicate k '0' ++ cs) = hexNum cs := by
  have hzero : hexNum (List.replicate k '0') = 0 := by
    induction k with
    | zero => rfl
    | succ k ih =>
      rw [List.replicate_succ', hexNum_append_singleton, ih]
      rfl
  rw [hexNum] at hzero
  rw [hexNum, List.foldl_append, hzero, hexNum]

/-- Lower-case digits survive a change to upper case and back. -/
theorem toLower_toUpper_digitChar {n : Nat} (h : n < 16) : n.digitChar.toUpper.toLower = n.digitChar := by
  revert n
  decide

theorem toLower_digitChar {n : Nat} (h : n < 16) : n.digitChar.toLower = n.digitChar := by
  revert n
  decide

theorem toUpper_digitChar_inj {m n : Nat} (hm : m < 16) (hn : n < 16) (h : m.digitChar.toUpper = n.digitChar.toUpper) :
    m = n := by
  have hlower := congrArg Char.toLower h
  rw [toLower_toUpper_digitChar hm, toLower_toUpper_digitChar hn] at hlower
  have hval := congrArg hexVal hlower
  rwa [hexVal_digitChar hm, hexVal_digitChar hn] at hval

/-! ## The last separator -/

section
variable {α : Type} [DecidableEq α] {c : α} {xs ys xs' ys' : List α}

def afterLast (c : α) (l : List α) : List α := (l.reverse.takeWhile (· ≠ c)).reverse

theorem afterLast_append_cons (hc : c ∉ ys) : afterLast c (xs ++ c :: ys) = ys := by
  have hall : ∀ y ∈ ys.reverse, decide (y ≠ c) = true := by
    intro y hy
    rw [decide_eq_true_iff]
    rintro rfl
    exact hc (List.mem_reverse.1 hy)
  rw [afterLast, List.reverse_append, List.reverse_cons, List.append_assoc, List.takeWhile_append_of_pos hall]
  simp

/-- Two readings up to the last separator agree. -/
theorem eq_of_append_cons (h : xs ++ c :: ys = xs' ++ c :: ys') (hc : c ∉ ys) (hc' : c ∉ ys') : ys = ys' := by
  have hys : afterLast c (xs ++ c :: ys) = ys := afterLast_append_cons hc
  rw [← hys, h, afterLast_append_cons hc']

end

/-- A number in parentheses at the end of a text, whatever stands before it. -/
theorem paren_inj {v w : String} {m n : Nat} (h : v ++ " (" ++ toString m ++ ")" = w ++ " (" ++ toString n ++ ")") :
    m = n := by
  have htail (k : Nat) : '(' ∉ (toString k).toList ++ [')'] := by
    intro hc
    rw [List.mem_append, List.mem_singleton, toList_toString] at hc
    rcases hc with hc | hc
    · exact absurd (isDigit_of_mem_toDigits hc) (by decide)
    · exact absurd hc (by decide)
  have hlist (w : String) (k : Nat) : (w ++ " (" ++ toString k ++ ")").toList =
      (w.toList ++ [' ']) ++ '(' :: ((toString k).toList ++ [')']) := by
    simp
  have h := congrArg String.toList h
  rw [hlist, hlist] at h
  have hdigits := List.append_cancel_right (eq_of_append_cons h (htail m) (htail n))
  exact toString_nat_inj.1 (String.toList_inj.1 hdigits)

end Text

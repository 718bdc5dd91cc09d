import Mathlib.Data.Nat.ModEq

/-!
# One's complement sums

Numbers `0 … M` with `0` and `M` standing for the same residue modulo `M` (`M = 2^w - 1` for words
of `w` bits). Addition carries around the end; `rep M S` is where a plain sum `S` ends up, whichever
way its carries are folded.

| here | meaning |
| --- | --- |
| `add M a b`   | addition with end-around carry |
| `sum M ws`    | the one's complement sum of a list of words |
| `rep M S`     | the representative of `S`: `0` for `0` only, `M` for every other multiple of `M` |
| `fold M S`    | the carries above `M` added to the digits below |
-/

namespace OnesComplement

variable {M S T a b r : Nat} {ws : List Nat}

def add (M a b : Nat) : Nat := if a + b ≤ M then a + b else a + b - M

def sum (M : Nat) (ws : List Nat) : Nat := ws.foldl (add M) 0

def rep (M S : Nat) : Nat := if S = 0 then 0 else (S - 1) % M + 1

def fold (M S : Nat) : Nat := S % (M + 1) + S / (M + 1)

/-! ## Representatives -/

@[simp] theorem rep_zero : rep M 0 = 0 := rfl

theorem rep_of_pos (hS : 0 < S) : rep M S = (S - 1) % M + 1 := if_neg (Nat.ne_of_gt hS)

theorem rep_le (hM : 0 < M) : rep M S ≤ M := by
  unfold rep
  split
  · exact Nat.zero_le M
  · exact Nat.mod_lt _ hM

theorem rep_eq_zero_iff : rep M S = 0 ↔ S = 0 := by
  unfold rep
  split <;> simp_all

theorem rep_modEq : rep M S ≡ S [MOD M] := by
  rcases Nat.eq_zero_or_pos S with rfl | hS
  · exact .refl 0
  · rw [rep_of_pos hS]
    calc (S - 1) % M + 1
      _ ≡ S - 1 + 1 [MOD M] := (Nat.mod_modEq (S - 1) M).add_right 1
      _ = S := Nat.sub_add_cancel hS

/-- A plain sum is its representative and a multiple of `M`. -/
theorem exists_eq_rep_add_mul (M S : Nat) : ∃ q, S = rep M S + M * q := by
  rcases Nat.eq_zero_or_pos S with rfl | hS
  · exact ⟨0, rfl⟩
  · refine ⟨(S - 1) / M, ?_⟩
    have hdiv := Nat.mod_add_div (S - 1) M
    rw [rep_of_pos hS]
    omega

/-- Between `0` and `M` a number is determined by its residue and whether it is `0`. -/
theorem eq_of_modEq (ha : a ≤ M) (hb : b ≤ M) (h0 : a = 0 ↔ b = 0) (h : a ≡ b [MOD M]) : a = b := by
  wlog hab : a ≤ b generalizing a b
  · exact (this hb ha h0.symm h.symm (Nat.le_of_not_le hab)).symm
  obtain ⟨k, hk⟩ := (Nat.modEq_iff_dvd' hab).1 h
  rcases Nat.eq_zero_or_pos k with rfl | hpos
  · omega
  · -- a difference of `M` or more leaves `a = 0` and `b = M`
    have hle : M ≤ M * k := Nat.le_mul_of_pos_right M hpos
    omega

theorem eq_rep (hM : 0 < M) (hr : r ≤ M) (h0 : r = 0 ↔ S = 0) (h : r ≡ S [MOD M]) : r = rep M S :=
  eq_of_modEq hr (rep_le hM) (h0.trans rep_eq_zero_iff.symm) (h.trans rep_modEq.symm)

theorem rep_of_le (hM : 0 < M) (hS : S ≤ M) : rep M S = S := (eq_rep hM hS Iff.rfl (.refl S)).symm

/-- Plain sums with one residue, both zero or neither, have one representative. -/
theorem rep_congr (hM : 0 < M) (h0 : S = 0 ↔ T = 0) (h : S ≡ T [MOD M]) : rep M S = rep M T :=
  eq_rep hM (rep_le hM) (rep_eq_zero_iff.trans h0) (rep_modEq.trans h)

/-- The representative is `M` exactly for the non-zero multiples of `M`. -/
theorem rep_eq_top_iff (hM : 0 < M) : rep M S = M ↔ ∃ m, 0 < m ∧ S = M * m := by
  constructor
  · intro h
    have hmod : M ≡ S [MOD M] := by
      have := rep_modEq (M := M) (S := S)
      rwa [h] at this
    obtain ⟨m, rfl⟩ : M ∣ S := (Nat.modEq_zero_iff_dvd.1 (hmod.symm.trans (Nat.modEq_zero_iff_dvd.2 dvd_rfl)))
    refine ⟨m, Nat.pos_of_ne_zero fun hm => ?_, rfl⟩
    rw [hm, Nat.mul_zero, rep_zero] at h
    omega
  · rintro ⟨m, hm, rfl⟩
    have hpos : M * m ≠ 0 := Nat.ne_of_gt (Nat.mul_pos hM hm)
    refine (eq_rep hM le_rfl (iff_of_false (Nat.ne_of_gt hM) hpos) ?_).symm
    exact (Nat.modEq_zero_iff_dvd.2 dvd_rfl).trans (Nat.modEq_zero_iff_dvd.2 (Nat.dvd_mul_right M m)).symm

/-! ## Sums -/

theorem add_eq_rep (hM : 0 < M) (ha : a ≤ M) (hb : b ≤ M) : add M a b = rep M (a + b) := by
  unfold add
  split
  · rename_i h
    exact (rep_of_le hM h).symm
  · refine eq_rep hM (by omega) (by omega) ?_
    exact (Nat.modEq_iff_dvd' (Nat.sub_le _ _)).2 ⟨1, by omega⟩

/-- **One's complement sums.** Adding with end-around carry, word by word, gives the representative of
the plain sum. -/
theorem sum_eq_rep (hM : 0 < M) (hw : ∀ w ∈ ws, w ≤ M) : sum M ws = rep M ws.sum := by
  suffices hacc : ∀ acc ≤ M, ws.foldl (add M) acc = rep M (acc + ws.sum) by
    simpa [sum] using hacc 0 (Nat.zero_le M)
  induction ws with
  | nil => exact fun acc hacc => (rep_of_le hM hacc).symm
  | cons w ws ih =>
    intro acc hacc
    have hwM : w ≤ M := hw w List.mem_cons_self
    rw [List.foldl_cons, add_eq_rep hM hacc hwM, ih (fun v hv => hw v (List.mem_cons_of_mem w hv)) _ (rep_le hM),
      List.sum_cons]
    refine rep_congr hM ?_ ?_
    · have := rep_eq_zero_iff (M := M) (S := acc + w)
      omega
    · calc rep M (acc + w) + ws.sum
        _ ≡ acc + w + ws.sum [MOD M] := rep_modEq.add_right _
        _ = acc + (w + ws.sum) := Nat.add_assoc _ _ _

/-! ## Folding carries -/

theorem fold_add_mul (M S : Nat) : S = fold M S + M * (S / (M + 1)) := by
  calc S = S % (M + 1) + (M + 1) * (S / (M + 1)) := (Nat.mod_add_div S (M + 1)).symm
    _ = fold M S + M * (S / (M + 1)) := by rw [fold, Nat.add_mul, Nat.one_mul]; omega

/-- Folding the carries once keeps the representative. -/
theorem rep_fold (hM : 0 < M) : rep M (fold M S) = rep M S := by
  have hS := fold_add_mul M S
  refine rep_congr hM ⟨fun h0 => ?_, fun h0 => ?_⟩ ?_
  · have hdiv : S / (M + 1) = 0 := (Nat.add_eq_zero_iff.1 h0).2
    rw [h0, hdiv] at hS
    exact hS
  · rw [h0, fold, Nat.zero_mod, Nat.zero_div]
  · exact (Nat.modEq_iff_dvd' (by omega)).2 ⟨S / (M + 1), by omega⟩

/-- A sum with a carry gets smaller. -/
theorem fold_lt (hM : 0 < M) (hS : M < S) : fold M S < S := by
  have hdiv : 0 < S / (M + 1) := Nat.div_pos hS (Nat.succ_pos M)
  have hpos : 0 < M * (S / (M + 1)) := Nat.mul_pos hM hdiv
  have hS := fold_add_mul M S
  omega

end OnesComplement

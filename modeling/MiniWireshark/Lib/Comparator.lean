import Mathlib.Order.Defs.Unbundled
import Mathlib.Order.Defs.LinearOrder
import Mathlib.Order.Lattice
import Mathlib.Data.List.Nodup
import Mathlib.Data.List.Perm.Basic

/-!
# Comparators that compare keys

A comparator answers `some b`, or `none` where it fails. On the elements it is meant for it compares a
key in a linear order; then it is a strict weak order there, and sorting by it is sorting by the key.

| here | meaning |
| --- | --- |
| `ByKey P key cmp`        | on elements with `P` the comparator answers whether the first key is smaller |
| `ByKey.strictWeakOrder`  | such a comparator is a strict weak order on these elements |
| `ByKey.sorted_iff`       | sorted by the comparator is sorted by the key |
| `exists_sorted`          | every list has a sorted permutation |
| `eq_of_sorted`           | where keys are not used twice it is the only one |
-/

namespace Comparator

variable {α β κ : Type} [LinearOrder κ] {P : α → Prop} {key : α → κ} {cmp : α → α → Option Bool}

def ByKey (P : α → Prop) (key : α → κ) (cmp : α → α → Option Bool) : Prop :=
  ∀ a b, P a → P b → cmp a b = some (decide (key a < key b))

theorem ByKey.isSome (hk : ByKey P key cmp) {a b : α} (ha : P a) (hb : P b) : (cmp a b).isSome = true := by
  rw [hk a b ha hb]
  rfl

theorem ByKey.lt_iff (hk : ByKey P key cmp) {a b : α} (ha : P a) (hb : P b) :
    cmp a b = some true ↔ key a < key b := by
  rw [hk a b ha hb, Option.some.injEq, decide_eq_true_iff]

theorem ByKey.strictWeakOrder (hk : ByKey P key cmp) :
    IsStrictWeakOrder {a // P a} fun a b => cmp a.1 b.1 = some true where
  irrefl a := by
    rw [hk.lt_iff a.2 a.2]
    exact lt_irrefl _
  trans a b c := by
    rw [hk.lt_iff a.2 b.2, hk.lt_iff b.2 c.2, hk.lt_iff a.2 c.2]
    exact lt_trans
  incomp_trans a b c := by
    rw [hk.lt_iff a.2 b.2, hk.lt_iff b.2 a.2, hk.lt_iff b.2 c.2, hk.lt_iff c.2 b.2, hk.lt_iff a.2 c.2,
      hk.lt_iff c.2 a.2]
    simp only [not_lt]
    rintro ⟨hba, hab⟩ ⟨hcb, hbc⟩
    exact ⟨hcb.trans hba, hab.trans hbc⟩

/-- Sorted by the comparator is sorted by the key. -/
theorem ByKey.sorted_iff (hk : ByKey P key cmp) {f : β → α} {l : List β} (hP : ∀ x ∈ l, P (f x)) :
    l.Pairwise (fun x y => cmp (f y) (f x) ≠ some true) ↔ l.Pairwise fun x y => key (f x) ≤ key (f y) := by
  refine List.Pairwise.iff_of_mem fun hx hy => ?_
  rw [ne_eq, hk.lt_iff (hP _ hy) (hP _ hx), not_lt]

theorem exists_sorted (key : β → κ) (l : List β) :
    ∃ l' : List β, l'.Perm l ∧ l'.Pairwise fun x y => key x ≤ key y := by
  refine ⟨l.mergeSort fun x y => decide (key x ≤ key y), List.mergeSort_perm l _, ?_⟩
  have hsorted : (l.mergeSort fun x y => decide (key x ≤ key y)).Pairwise fun x y => decide (key x ≤ key y) = true := by
    refine List.pairwise_mergeSort ?_ ?_ l
    · intro x y z hxy hyz
      exact decide_eq_true ((of_decide_eq_true hxy).trans (of_decide_eq_true hyz))
    · intro x y
      simpa using le_total (key x) (key y)
  exact hsorted.imp of_decide_eq_true

theorem eq_of_sorted {key : β → κ} {l l' : List β} (hperm : l.Perm l') (hl : l.Pairwise fun x y => key x ≤ key y)
    (hl' : l'.Pairwise fun x y => key x < key y) : l = l' := by
  have hnodup : (l'.map key).Nodup := List.pairwise_map.2 (hl'.imp ne_of_lt)
  refine List.Perm.eq_of_pairwise ?_ hl (hl'.imp le_of_lt) hperm
  intro x y hx hy hxy hyx
  exact List.inj_on_of_nodup_map hnodup (hperm.mem_iff.1 hx) hy (le_antisymm hxy hyx)

end Comparator

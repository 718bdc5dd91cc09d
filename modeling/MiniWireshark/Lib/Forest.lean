import Mathlib.Data.Finset.Card
import Mathlib.Data.Finset.Filter
import Mathlib.Logic.Relation

/-!
# Forests given by child lists

A forest is a function from nodes to child lists in which no node occurs twice and no node is
below itself. On finitely many nodes it has a rank that falls from a node to its children.

| here | meaning |
| --- | --- |
| `Below children p x`, `Within children p x` | `x` is reached from `p` in at least one, in any number of child steps |
| `IsForest children`       | no node is twice a child, or below itself |
| `rank nodes children`     | how many nodes are below a node |
| `preorder children n p`   | what is below `p`, down to depth `n`, each node before its children |
| `mem_preorder`            | with a rank of `p` as depth it is everything below `p` |
| `IsForest.nodup_preorder` | nothing occurs twice in it |
| `IsForest.not_within`     | what is within one child is not within its sibling |
-/

namespace Forest

variable {α : Type}

def Below (children : α → List α) : α → α → Prop := Relation.TransGen fun p c => c ∈ children p

def Within (children : α → List α) : α → α → Prop := Relation.ReflTransGen fun p c => c ∈ children p

structure IsForest (children : α → List α) : Prop where
  nodup : ∀ p, (children p).Nodup
  unique : ∀ p q c, c ∈ children p → c ∈ children q → p = q
  acyclic : ∀ p, ¬ Below children p p

def preorder (children : α → List α) : Nat → α → List α
  | 0, _ => []
  | n + 1, p => (children p).flatMap fun c => c :: preorder children n c

section
variable {children children' : α → List α} {p q c d x y : α}

theorem Below.child (hc : c ∈ children p) : Below children p c := Relation.TransGen.single hc

theorem Within.refl : Within children p p := Relation.ReflTransGen.refl

theorem Within.of_below (h : Below children p x) : Within children p x := Relation.TransGen.to_reflTransGen h

theorem Below.trans_within (h : Below children p x) (hx : Within children x y) : Below children p y :=
  Relation.TransGen.trans_left h hx

/-- What is below a node is within one of its children. -/
theorem below_iff : Below children p x ↔ ∃ c ∈ children p, Within children c x := by
  constructor
  · intro h
    obtain ⟨c, hc, hx⟩ := Relation.TransGen.head'_iff.1 h
    exact ⟨c, hc, hx⟩
  · rintro ⟨c, hc, hx⟩
    exact (Below.child hc).trans_within hx

theorem within_iff : Within children p x ↔ p = x ∨ Below children p x := by
  rw [Within, Relation.reflTransGen_iff_eq_or_transGen, eq_comm]
  rfl

/-- A node below another one is a child of a node within it. -/
theorem Below.parent (h : Below children p x) : ∃ q, Within children p q ∧ x ∈ children q :=
  Relation.TransGen.tail'_iff.1 h

/-- Nodes that only have children in common with a smaller relation stay below each other. -/
theorem Below.mono (hsub : ∀ p, ∀ c ∈ children p, c ∈ children' p)
    (h : Below children p x) : Below children' p x :=
  Relation.TransGen.mono (fun p c hc => hsub p c hc) p x h

/-- With one more child `c` of `p`, a node is only below another one if it was, or by way of `c`. -/
theorem Below.of_add (hadd : ∀ q, ∀ d ∈ children' q, d ∈ children q ∨ q = p ∧ d = c) (h : Below children' x y) :
    Below children x y ∨ Within children x p ∧ Within children c y := by
  induction h with
  | single h =>
    rcases hadd _ _ h with h | ⟨rfl, rfl⟩
    · exact Or.inl (Below.child h)
    · exact Or.inr ⟨Within.refl, Within.refl⟩
  | tail _ h ih =>
    rcases hadd _ _ h with h | ⟨rfl, rfl⟩
    · rcases ih with ih | ⟨hx, hc⟩
      · exact Or.inl (ih.tail h)
      · exact Or.inr ⟨hx, hc.tail h⟩
    · rcases ih with ih | ⟨hx, _⟩
      · exact Or.inr ⟨Within.of_below ih, Within.refl⟩
      · exact Or.inr ⟨hx, Within.refl⟩

/-- Two nodes above the same node are above one another. -/
theorem IsForest.total (hf : IsForest children) (hp : Within children p x) (hq : Within children q x) :
    Within children p q ∨ Within children q p := by
  have hright : Relator.RightUnique (Function.swap fun p c => c ∈ children p) := fun _ _ _ ha hb =>
    hf.unique _ _ _ ha hb
  rcases Relation.ReflTransGen.total_of_right_unique hright (Relation.reflTransGen_swap.2 hp)
    (Relation.reflTransGen_swap.2 hq) with h | h
  · exact Or.inr (Relation.reflTransGen_swap.1 h)
  · exact Or.inl (Relation.reflTransGen_swap.1 h)

/-- A sibling is not below its sibling. -/
theorem IsForest.not_below_sibling (hf : IsForest children) (hc : c ∈ children p) (hd : d ∈ children p) :
    ¬ Below children c d := by
  intro h
  obtain ⟨q, hq, hdq⟩ := h.parent
  obtain rfl := hf.unique _ _ _ hd hdq
  exact hf.acyclic p ((Below.child hc).trans_within hq)

/-- What is within one child is not within its sibling. -/
theorem IsForest.not_within (hf : IsForest children) (hc : c ∈ children p) (hd : d ∈ children p) (hne : c ≠ d)
    (hx : Within children c x) : ¬ Within children d x := by
  intro hx'
  rcases hf.total hx hx' with h | h
  · rcases within_iff.1 h with rfl | h
    · exact hne rfl
    · exact hf.not_below_sibling hc hd h
  · rcases within_iff.1 h with rfl | h
    · exact hne rfl
    · exact hf.not_below_sibling hd hc h

/-- With a rank of the node as depth, the preorder lists everything below it. -/
theorem mem_preorder {rank : α → Nat} (hrank : ∀ p, ∀ c ∈ children p, rank c < rank p) {n : Nat} (hn : rank p ≤ n) :
    x ∈ preorder children n p ↔ Below children p x := by
  induction n generalizing p with
  | zero =>
    refine ⟨fun h => absurd h List.not_mem_nil, fun h => ?_⟩
    obtain ⟨c, hc, _⟩ := below_iff.1 h
    have := hrank p c hc
    omega
  | succ n ih =>
    rw [preorder, List.mem_flatMap, below_iff]
    constructor
    · rintro ⟨c, hc, hx⟩
      have hlt := hrank p c hc
      rcases List.mem_cons.1 hx with rfl | hx
      · exact ⟨x, hc, Within.refl⟩
      · exact ⟨c, hc, Within.of_below ((ih (by omega)).1 hx)⟩
    · rintro ⟨c, hc, hx⟩
      have hlt := hrank p c hc
      refine ⟨c, hc, List.mem_cons.2 ?_⟩
      rcases within_iff.1 hx with rfl | hx
      · exact Or.inl rfl
      · exact Or.inr ((ih (by omega)).2 hx)

theorem within_of_mem_preorder {n : Nat} (hx : x ∈ preorder children n p) : Below children p x := by
  induction n generalizing p with
  | zero => cases hx
  | succ n ih =>
    obtain ⟨c, hc, hx⟩ := List.mem_flatMap.1 hx
    refine below_iff.2 ⟨c, hc, ?_⟩
    rcases List.mem_cons.1 hx with rfl | hx
    · exact Within.refl
    · exact Within.of_below (ih hx)

/-- The preorder of a forest lists nothing twice. -/
theorem IsForest.nodup_preorder (hf : IsForest children) (n : Nat) (p : α) : (preorder children n p).Nodup := by
  induction n generalizing p with
  | zero => exact List.nodup_nil
  | succ n ih =>
    rw [preorder, List.nodup_flatMap]
    refine ⟨fun c _ => List.nodup_cons.2 ⟨fun h => hf.acyclic c (within_of_mem_preorder h), ih c⟩, ?_⟩
    refine (hf.nodup p).imp_of_mem fun {c d} hc hd hne => ?_
    have hwithin {e x : α} (hx : x ∈ e :: preorder children n e) : Within children e x := by
      rcases List.mem_cons.1 hx with rfl | hx
      · exact Within.refl
      · exact Within.of_below (within_of_mem_preorder hx)
    intro x hx hx'
    exact hf.not_within hc hd hne (hwithin hx) (hwithin hx')

end

section
variable {children : α → List α} {nodes : Finset α} {p c : α}

open Classical in
/-- How many nodes are below a node. -/
noncomputable def rank (nodes : Finset α) (children : α → List α) (p : α) : Nat :=
  (nodes.filter (Below children p)).card

open Classical in
theorem rank_le (p : α) : rank nodes children p ≤ nodes.card := Finset.card_filter_le _ _

open Classical in
theorem IsForest.rank_lt (hf : IsForest children) (hnodes : ∀ p, ∀ c ∈ children p, c ∈ nodes) (hc : c ∈ children p) :
    rank nodes children c < rank nodes children p := by
  refine Finset.card_lt_card (Finset.ssubset_iff_of_subset ?_ |>.2 ⟨c, ?_, ?_⟩)
  · intro x hx
    obtain ⟨hx, hb⟩ := Finset.mem_filter.1 hx
    exact Finset.mem_filter.2 ⟨hx, (Below.child hc).trans_within (Within.of_below hb)⟩
  · exact Finset.mem_filter.2 ⟨hnodes p c hc, Below.child hc⟩
  · intro h
    exact hf.acyclic c (Finset.mem_filter.1 h).2

end

end Forest

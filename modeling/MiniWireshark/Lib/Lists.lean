import Mathlib.Algebra.Order.Ring.Nat
import Mathlib.Data.List.Perm.Basic
import Mathlib.Data.List.Nodup

/-!
# Lists of parties, queued writes and partial maps

| here | meaning |
| --- | --- |
| `settle w v q`       | the value of a register holding `v` once the writes queued in `q` are all applied |
| `Guarded w needs v q` | the messages of `q` that need the register up find it up when they are delivered |
| `flatMap_set_perm`   | one party of a list moves: what the parties hold between them, before and after |
| `flatMap_of_sole`    | what the parties hold when only one of them holds anything |
| `post_perm`, `post_sole` | a party posts to a queue: nothing is lost between the queue and the parties |
| `infix_pair_concat`  | what follows what in a list that grows at its end |
| `suffix_flatMap_pair` | the suffixes of a script with two entries for each element |
| `isSome_mapM`        | a partial map over a list is defined iff it is at every element |
-/

namespace Lists

open scoped List

variable {α β γ μ ν : Type}

/-! ## Queued writes -/

/-- The value of a register holding `v` once the messages `q` are delivered, oldest first; `w m`
is what `m` writes, if it writes the register at all. -/
def settle (w : μ → Option ν) : ν → List μ → ν
  | v, [] => v
  | v, m :: q => settle w ((w m).getD v) q

@[simp] theorem settle_nil (w : μ → Option ν) (v : ν) : settle w v [] = v := rfl

@[simp] theorem settle_cons (w : μ → Option ν) (v : ν) (m : μ) (q : List μ) :
    settle w v (m :: q) = settle w ((w m).getD v) q := rfl

@[simp] theorem settle_snoc (w : μ → Option ν) (v : ν) (q : List μ) (m : μ) :
    settle w v (q ++ [m]) = (w m).getD (settle w v q) := by
  induction q generalizing v with
  | nil => rfl
  | cons m' q ih => exact ih _

/-- Every message that needs a Boolean register up finds it up when it is delivered. -/
def Guarded (w : μ → Option Bool) (needs : μ → Bool) : Bool → List μ → Prop
  | _, [] => True
  | v, m :: q => (needs m = true → v = true) ∧ Guarded w needs ((w m).getD v) q

theorem guarded_snoc {w : μ → Option Bool} {needs : μ → Bool} {v : Bool} {q : List μ} {m : μ} :
    Guarded w needs v (q ++ [m]) ↔ Guarded w needs v q ∧ (needs m = true → settle w v q = true) := by
  induction q generalizing v with
  | nil => simp [Guarded]
  | cons m' q ih => simp only [List.cons_append, Guarded, ih, settle_cons, and_assoc]

/-! ## Parties -/

/-- A party that moves is found as it moved. -/
theorem getElem?_set_of_some {ps : List α} {i : Nat} {p : α} (h : ps[i]? = some p) (p' : α) :
    (ps.set i p')[i]? = some p' := by
  rw [List.getElem?_set_self', h]
  rfl

/-- After one party has moved, each is found as it moved or as it was. -/
theorem getElem?_set_eq_some {ps : List α} {i j : Nat} {p p' r : α} (h : ps[i]? = some p)
    (hr : (ps.set i p')[j]? = some r) : (i = j ∧ r = p') ∨ (i ≠ j ∧ ps[j]? = some r) := by
  by_cases hij : i = j
  · subst hij
    rw [getElem?_set_of_some h] at hr
    cases hr
    exact .inl ⟨rfl, rfl⟩
  · rw [List.getElem?_set_ne hij] at hr
    exact .inr ⟨hij, hr⟩

/-- A party found after one was changed is the changed one or was there before. -/
theorem getElem?_modify_eq_some {ps : List α} {i j : Nat} {f : α → α} {r : α} (hr : (ps.modify i f)[j]? = some r) :
    ∃ p, ps[j]? = some p ∧ (i = j ∧ r = f p ∨ i ≠ j ∧ r = p) := by
  rw [List.getElem?_modify, Option.map_eq_map, Option.map_eq_some_iff] at hr
  obtain ⟨p, hp, rfl⟩ := hr
  refine ⟨p, hp, ?_⟩
  by_cases hij : i = j
  · exact .inl ⟨hij, if_pos hij⟩
  · exact .inr ⟨hij, if_neg hij⟩

/-- Reading one party, with `d` where there is none. -/
theorem elim_modify {ps : List α} {i j : Nat} {f : α → α} {g : α → β} (d : β) (hf : ∀ p, g (f p) = g p) :
    (ps.modify i f)[j]?.elim d g = ps[j]?.elim d g := by
  rw [List.getElem?_modify]
  cases ps[j]? with
  | none => rfl
  | some p => by_cases hij : i = j <;> simp [hij, hf]

/-- A new party that reads as `d` shows nowhere. -/
theorem elim_concat {ps : List α} {j : Nat} {p : α} {g : α → β} {d : β} (hp : g p = d) :
    (ps ++ [p])[j]?.elim d g = ps[j]?.elim d g := by
  rw [List.getElem?_append]
  split
  · rfl
  · rename_i hlt
    rw [List.getElem?_eq_none (Nat.le_of_not_lt hlt), List.getElem?_singleton]
    split
    · exact hp
    · rfl

/-- One party moves: the others hold what they held. -/
theorem flatMap_set_perm {ps : List α} {i : Nat} {p : α} (h : ps[i]? = some p) (g : α → List β) :
    ∃ r, (ps.flatMap g).Perm (r ++ g p) ∧ ∀ p', ((ps.set i p').flatMap g).Perm (r ++ g p') := by
  induction ps generalizing i with
  | nil => simp at h
  | cons q ps ih =>
    cases i with
    | zero =>
      cases h
      exact ⟨ps.flatMap g, List.perm_append_comm, fun p' => List.perm_append_comm⟩
    | succ i =>
      obtain ⟨r, h1, h2⟩ := ih (i := i) h
      refine ⟨g q ++ r, ?_, fun p' => ?_⟩
      · rw [List.append_assoc]
        exact h1.append_left (g q)
      · rw [List.append_assoc]
        exact (h2 p').append_left (g q)

/-- If no other party holds anything, the parties hold what one of them does. -/
theorem flatMap_of_sole {ps : List α} {i : Nat} {p : α} {g : α → List β} (h : ps[i]? = some p)
    (hs : ∀ j q, ps[j]? = some q → j ≠ i → g q = []) : ps.flatMap g = g p := by
  induction ps generalizing i with
  | nil => simp at h
  | cons q ps ih =>
    cases i with
    | zero =>
      cases h
      have hnil : ps.flatMap g = [] := by
        rw [List.flatMap_eq_nil_iff]
        intro r hr
        obtain ⟨j, hj⟩ := List.mem_iff_getElem?.1 hr
        exact hs (j + 1) r hj (Nat.succ_ne_zero j)
      rw [List.flatMap_cons, hnil, List.append_nil]
    | succ i =>
      have hq : g q = [] := hs 0 q rfl (Nat.succ_ne_zero i).symm
      rw [List.flatMap_cons, hq, List.nil_append]
      exact ih h fun j r hj hne => hs (j + 1) r hj (fun e => hne (Nat.succ.inj e))

theorem flatMap_modify {ps : List α} {i : Nat} {f : α → α} {g : α → List β} (hf : ∀ p, g (f p) = g p) :
    (ps.modify i f).flatMap g = ps.flatMap g := by
  induction ps generalizing i with
  | nil => simp
  | cons p ps ih => cases i <;> simp [hf, ih]

section
variable {ps : List α} {i : Nat} {p p' : α} {g : α → List β} {m new : List β}

/-- A party that holds `g p` takes up `new`, posts `m` and keeps `g p'`: up to order, the queue and
the parties together hold `new` more than before. -/
theorem post_perm (q : List β) (h : ps[i]? = some p) (hg : m ++ g p' = g p ++ new) :
    q ++ m ++ (ps.set i p').flatMap g ~ q ++ ps.flatMap g ++ new := by
  obtain ⟨r, h1, h2⟩ := flatMap_set_perm h g
  calc q ++ m ++ (ps.set i p').flatMap g
    _ ~ q ++ m ++ (r ++ g p') := (h2 p').append_left _
    _ ~ q ++ m ++ (g p' ++ r) := List.perm_append_comm.append_left _
    _ = q ++ (g p ++ new ++ r) := by rw [← hg]; simp only [List.append_assoc]
    _ ~ q ++ (r ++ (g p ++ new)) := List.perm_append_comm.append_left _
    _ = q ++ (r ++ g p) ++ new := by simp only [List.append_assoc]
    _ ~ q ++ ps.flatMap g ++ new := (h1.symm.append_left q).append_right new

/-- The same in order, when no other party holds anything. -/
theorem post_sole (q : List β) (h : ps[i]? = some p) (hs : ∀ j r, ps[j]? = some r → j ≠ i → g r = [])
    (hg : m ++ g p' = g p ++ new) : q ++ m ++ (ps.set i p').flatMap g = q ++ ps.flatMap g ++ new := by
  have hset := getElem?_set_of_some h p'
  have hs' : ∀ j r, (ps.set i p')[j]? = some r → j ≠ i → g r = [] := by
    intro j r hj hne
    rw [List.getElem?_set_ne hne.symm] at hj
    exact hs j r hj hne
  rw [flatMap_of_sole hset hs', flatMap_of_sole h hs, List.append_assoc, hg, List.append_assoc]

end

/-- One party moves: a sum over the parties changes by its part. -/
theorem sum_map_set {ps : List α} {i : Nat} {p : α} (h : ps[i]? = some p) (f : α → Nat) (p' : α) :
    ((ps.set i p').map f).sum + f p = (ps.map f).sum + f p' := by
  induction ps generalizing i with
  | nil => simp at h
  | cons q ps ih =>
    cases i with
    | zero =>
      cases h
      simp only [List.set_cons_zero, List.map_cons, List.sum_cons]
      omega
    | succ i =>
      have := ih (i := i) h
      simp only [List.set_cons_succ, List.map_cons, List.sum_cons]
      omega

theorem map_modify_of_eq {ps : List α} {i : Nat} {f : α → α} {g : α → β} (hf : ∀ p, g (f p) = g p) :
    (ps.modify i f).map g = ps.map g := by
  induction ps generalizing i with
  | nil => simp
  | cons p ps ih => cases i <;> simp [hf, ih]

/-! ## Alternating scripts -/

/-- `b` comes right after `a` somewhere, once `c` is added. -/
theorem infix_pair_concat {a b c : α} {l : List α} :
    [a, b] <:+: l ++ [c] ↔ [a, b] <:+: l ∨ l.getLast? = some a ∧ b = c := by
  rw [List.infix_concat_iff, List.getLast?_eq_some_iff, or_comm]
  refine or_congr_right ?_
  constructor
  · rintro ⟨pre, hpre⟩
    have h : (pre ++ [a]) ++ [b] = l ++ [c] := by simpa using hpre
    obtain ⟨hl, hc⟩ := List.append_inj' h rfl
    exact ⟨⟨pre, hl.symm⟩, by simpa using hc⟩
  · rintro ⟨⟨pre, rfl⟩, rfl⟩
    exact ⟨pre, by simp⟩

/-- What is left of a script of two entries for each element: whole pairs, or one second entry before
them. -/
theorem suffix_flatMap_pair {f g : α → β} {ps : List α} {l : List β} (h : l <:+ ps.flatMap fun p => [f p, g p]) :
    (∃ k ≤ ps.length, l = (ps.drop k).flatMap fun p => [f p, g p]) ∨
      ∃ k p, ps[k]? = some p ∧ l = g p :: (ps.drop (k + 1)).flatMap fun p => [f p, g p] := by
  induction ps with
  | nil => exact .inl ⟨0, Nat.le_refl 0, List.suffix_nil.1 h⟩
  | cons p ps ih =>
    simp only [List.flatMap_cons, List.cons_append, List.nil_append] at h
    rcases List.suffix_cons_iff.1 h with rfl | h
    · exact .inl ⟨0, Nat.zero_le _, rfl⟩
    rcases List.suffix_cons_iff.1 h with rfl | h
    · exact .inr ⟨0, p, rfl, rfl⟩
    rcases ih h with ⟨k, hk, hl⟩ | ⟨k, p', hp, hl⟩
    · exact .inl ⟨k + 1, Nat.succ_le_succ hk, hl⟩
    · exact .inr ⟨k + 1, p', hp, hl⟩

/-! ## Partial maps -/

theorem isSome_mapM (f : α → Option β) (l : List α) :
    (l.mapM f).isSome = true ↔ ∀ x ∈ l, (f x).isSome = true := by
  induction l with
  | nil => simp
  | cons x l ih =>
    rw [List.mapM_cons, List.forall_mem_cons, ← ih]
    cases f x with
    | none => simp
    | some y => cases l.mapM f <;> simp

theorem mapM_eq_map {f : α → Option β} {g : α → β} {l : List α} (h : ∀ x ∈ l, f x = some (g x)) :
    l.mapM f = some (l.map g) := by
  induction l with
  | nil => rfl
  | cons x l ih =>
    rw [List.mapM_cons, h x List.mem_cons_self, ih fun y hy => h y (List.mem_cons_of_mem x hy)]
    rfl

/-- Cutting the first `m * n` elements into pieces of `m` loses none. -/
theorem flatMap_pieces (l : List α) (m n : Nat) :
    ((List.range n).flatMap fun k => (l.drop (m * k)).take m) = l.take (m * n) := by
  induction n with
  | zero => simp
  | succ n ih => rw [List.range_succ, List.flatMap_append, ih, List.flatMap_singleton, Nat.mul_succ, List.take_add]

/-- A partial map whose results have a known image. -/
theorem exists_mapM_map {f : α → Option β} {g : β → γ} {k : α → γ} {l : List α}
    (h : ∀ x ∈ l, ∃ y, f x = some y ∧ g y = k x) : ∃ ys, l.mapM f = some ys ∧ ys.map g = l.map k := by
  induction l with
  | nil => exact ⟨[], rfl, rfl⟩
  | cons x l ih =>
    obtain ⟨y, hy, hg⟩ := h x List.mem_cons_self
    obtain ⟨ys, hys, hmap⟩ := ih fun z hz => h z (List.mem_cons_of_mem x hz)
    refine ⟨y :: ys, ?_, by rw [List.map_cons, List.map_cons, hg, hmap]⟩
    rw [List.mapM_cons, hy, hys]
    rfl

theorem map_getElem?_range (f : Option α → β) (l : List α) :
    (List.range l.length).map (fun i => f l[i]?) = l.map fun x => f (some x) := by
  refine List.ext_getElem (by simp) fun i hi hi' => ?_
  simp only [List.length_map, List.length_range] at hi
  simp [hi]

/-- Indexing a list at `0 … n - 1` gives its first `n` elements. -/
theorem mapM_getElem?_range (l : List α) {n : Nat} (h : n ≤ l.length) :
    ((List.range n).mapM fun i => l[i]?) = some (l.take n) := by
  induction n with
  | zero => rfl
  | succ n ih =>
    have e : l[n]? = some l[n] := List.getElem?_eq_getElem h
    rw [List.range_succ, List.mapM_append, ih (Nat.le_of_succ_le h), List.take_add_one]
    simp only [List.mapM_cons, List.mapM_nil, e]
    rfl

end Lists

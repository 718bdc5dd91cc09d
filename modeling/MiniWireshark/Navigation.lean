import MiniWireshark.Lib.Lists
import MiniWireshark.Tree

/-!
# Navigation of the detail tree

Trees are made by the constructor and `addChild` and shown by `setPacketTree`. While each item is
placed at most once and no cycle is made, the heap is a forest whose child lists and parent links
agree, and the navigation of the model is coherent.

| here | meaning |
| --- | --- |
| `TreeOp`, `placed`, `Fits` | the calls; the item a call places; a call that makes no cycle and installs an item |
| `Ok`                       | the invariant: the child lists form a forest and the parent links agree with them |
| `Navigated`                | the indices obtained by navigation |
| `visit`                    | depth-first navigation by `rowCount` and `index` |
| `Coherent m r`             | the laws of the navigation of the tree with root `r` |
-/

namespace MiniWireshark

inductive TreeOp where
  | new (title : String) (parent : Option Nat)
  | addChild (p c : Nat)
  | setPacketTree (r : Nat)
  | clear
deriving DecidableEq, Repr

namespace TreeOp

def step (m : TreeModel) : TreeOp → Option TreeModel
  | new title parent => some (m.new title parent)
  | addChild p c => m.addChild p c
  | setPacketTree r => m.setPacketTree r
  | clear => m.clear

/-- The item a call puts under a parent or makes the root. -/
def placed : TreeOp → Option Nat
  | addChild _ c => some c
  | setPacketTree r => some r
  | _ => none

/-- A call that makes no cycle and installs nothing but an item. -/
def Fits (m : TreeModel) : TreeOp → Prop
  | addChild p c => ¬ Forest.Within m.children c p
  | setPacketTree r => (m.item r).isSome = true
  | _ => True

end TreeOp

namespace TreeModel

open Forest

/-! ## The invariant -/

structure Ok (m : TreeModel) : Prop where
  nodup : ∀ p, (m.children p).Nodup
  linked : ∀ p, ∀ c ∈ m.children p, ∃ it, m.item c = some it ∧ it.parent = some p
  acyclic : ∀ p, ¬ Below m.children p p
  top : ∀ r, m.root = some r → (m.item r).isSome = true ∧ ∀ p, r ∉ m.children p

section
variable {m m' : TreeModel} {p q c x r : Nat}

/-- A parent link names one parent. -/
theorem Ok.forest (hm : m.Ok) : IsForest m.children where
  nodup := hm.nodup
  acyclic := hm.acyclic
  unique p q c hp hq := by
    obtain ⟨it, hit, hpar⟩ := hm.linked p c hp
    obtain ⟨it', hit', hpar'⟩ := hm.linked q c hq
    rw [hit] at hit'
    cases hit'
    exact Option.some.inj (hpar.symm.trans hpar')

theorem Ok.live (hm : m.Ok) (hc : c ∈ m.children p) : (m.item c).isSome = true := by
  obtain ⟨it, hit, _⟩ := hm.linked p c hc
  rw [hit]
  rfl

/-- What is below a node is an item. -/
theorem Ok.live_of_below (hm : m.Ok) (h : Below m.children p x) : (m.item x).isSome = true := by
  obtain ⟨q, _, hx⟩ := h.parent
  exact hm.live hx

theorem Ok.init : ({} : TreeModel).Ok where
  nodup _ := List.nodup_nil
  linked _ _ hc := by cases hc
  acyclic p h := by
    obtain ⟨c, hc, _⟩ := below_iff.1 h
    cases hc
  top _ hr := by cases hr

theorem Ok.rank_lt (hm : m.Ok) : ∀ p, ∀ c ∈ m.children p,
    rank (Finset.range m.next) m.children c < rank (Finset.range m.next) m.children p := by
  intro p c hc
  refine hm.forest.rank_lt (fun p c hc => ?_) hc
  obtain ⟨it, hit, _⟩ := hm.linked p c hc
  exact Finset.mem_range.2 (lt_of_item hit)

theorem rank_le_next (p : Nat) : rank (Finset.range m.next) m.children p ≤ m.next := by
  have hle : rank (Finset.range m.next) m.children p ≤ (Finset.range m.next).card := rank_le p
  rwa [Finset.card_range] at hle

/-! ## What one call preserves -/

theorem children_new (title : String) (parent : Option Nat) (x : Nat) : (m.new title parent).children x = m.children x := by
  rw [children, children, item_new]
  by_cases hx : x = m.next
  · rw [if_pos hx, item_eq_none (Nat.le_of_eq hx.symm)]
    rfl
  · rw [if_neg hx]

theorem Ok.new (hm : m.Ok) (title : String) (parent : Option Nat) : (m.new title parent).Ok := by
  have hch : (m.new title parent).children = m.children := funext (children_new title parent)
  have hold {x : Nat} {it : TreeItem} (hx : m.item x = some it) : (m.new title parent).item x = some it := by
    rw [item_new, if_neg (Nat.ne_of_lt (lt_of_item hx)), hx]
  constructor
  · rw [hch]
    exact hm.nodup
  · rw [hch]
    intro p c hc
    obtain ⟨it, hit, hpar⟩ := hm.linked p c hc
    exact ⟨it, hold hit, hpar⟩
  · rw [hch]
    exact hm.acyclic
  · rw [hch]
    intro r hr
    obtain ⟨hlive, htop⟩ := hm.top r hr
    obtain ⟨it, hit⟩ := Option.isSome_iff_exists.1 hlive
    exact ⟨by rw [hold hit]; rfl, htop⟩

/-- The child lists after `addChild`. -/
theorem children_addChild (h : m.addChild p c = some m') (hne : c ≠ p) (x : Nat) :
    m'.children x = if x = p then m.children p ++ [c] else m.children x := by
  obtain ⟨up, down, hup, hdown, _, _, hitem⟩ := addChild_cases h hne
  rw [children, hitem]
  by_cases hc : x = c
  · rw [if_pos hc, if_neg (fun hp => hne (hc.symm.trans hp)), hc, children_of_item hdown]
    rfl
  · rw [if_neg hc]
    by_cases hp : x = p
    · rw [if_pos hp, if_pos hp, children_of_item hup]
      rfl
    · rw [if_neg hp, if_neg hp]
      rfl

theorem Ok.addChild (hm : m.Ok) (h : m.addChild p c = some m') (hfree : ∀ q, c ∉ m.children q)
    (hcycle : ¬ Within m.children c p) (hroot : m.root ≠ some c) : m'.Ok := by
  have hne : c ≠ p := fun h => hcycle (h ▸ Within.refl)
  have hch := children_addChild h hne
  obtain ⟨up, down, hup, hdown, hr, _, hitem⟩ := addChild_cases h hne
  have hmem {q d : Nat} (hd : d ∈ m'.children q) : d ∈ m.children q ∨ q = p ∧ d = c := by
    rw [hch] at hd
    by_cases hq : q = p
    · rw [if_pos hq] at hd
      rcases List.mem_append.1 hd with hd | hd
      · exact Or.inl (hq ▸ hd)
      · exact Or.inr ⟨hq, List.mem_singleton.1 hd⟩
    · rw [if_neg hq] at hd
      exact Or.inl hd
  -- the other items keep their parent links
  have hkeep {x : Nat} {it : TreeItem} (hx : m.item x = some it) (hxc : x ≠ c) :
      ∃ it', m'.item x = some it' ∧ it'.parent = it.parent := by
    rw [hitem, if_neg hxc]
    by_cases hxp : x = p
    · rw [hxp, hup] at hx
      cases hx
      exact ⟨_, if_pos hxp, rfl⟩
    · exact ⟨it, by rw [if_neg hxp, hx], rfl⟩
  constructor
  · intro q
    rw [hch]
    by_cases hq : q = p
    · rw [if_pos hq]
      exact List.nodup_append.2 ⟨hm.nodup p, List.nodup_singleton c, fun d hd e he => by
        rw [List.mem_singleton.1 he]
        exact fun h => hfree p (h ▸ hd)⟩
    · rw [if_neg hq]
      exact hm.nodup q
  · intro q d hd
    rcases hmem hd with hd | ⟨rfl, rfl⟩
    · obtain ⟨it, hit, hpar⟩ := hm.linked q d hd
      obtain ⟨it', hit', hpar'⟩ := hkeep hit fun h => hfree q (h ▸ hd)
      exact ⟨it', hit', hpar'.trans hpar⟩
    · exact ⟨_, by rw [hitem, if_pos rfl], rfl⟩
  · intro x hx
    rcases hx.of_add (fun q d hd => hmem hd) with hx | ⟨hx, hx'⟩
    · exact hm.acyclic x hx
    · exact hcycle (Relation.ReflTransGen.trans hx' hx)
  · intro r hr'
    rw [hr] at hr'
    obtain ⟨hlive, htop⟩ := hm.top r hr'
    obtain ⟨it, hit⟩ := Option.isSome_iff_exists.1 hlive
    have hrc : r ≠ c := fun h => hroot (h ▸ hr')
    obtain ⟨it', hit', _⟩ := hkeep hit hrc
    refine ⟨by rw [hit']; rfl, fun q hq => ?_⟩
    rcases hmem hq with hq | ⟨_, hq⟩
    · exact htop q hq
    · exact hrc hq

/-- Deleting whole trees keeps the invariant, with whatever other root comes next. -/
theorem Ok.freed {S : Nat → Prop} {root : Option Nat} (hm : m.Ok) (h : Freed S m m')
    (hS : ∀ p, ∀ c ∈ m.children p, (S c ↔ S p))
    (hroot : ∀ r, root = some r → ¬ S r ∧ (m.item r).isSome = true ∧ ∀ p, r ∉ m.children p) :
    ({ m' with root := root } : TreeModel).Ok := by
  constructor
  · intro p
    change (m'.children p).Nodup
    by_cases hp : S p
    · rw [children, h.gone p hp]
      exact List.nodup_nil
    · rw [h.children hp]
      exact hm.nodup p
  · intro p c hc
    obtain ⟨hp, hc⟩ := h.of_child hc
    obtain ⟨it, hit, hpar⟩ := hm.linked p c hc
    exact ⟨it, (h.kept c fun hSc => hp ((hS p c hc).1 hSc)).trans hit, hpar⟩
  · intro p hp
    exact hm.acyclic p (Below.mono (fun q c hc => (h.of_child hc).2) hp)
  · intro r hr
    obtain ⟨hSr, hlive, htop⟩ := hroot r hr
    refine ⟨?_, fun p hp => htop p (h.of_child hp).2⟩
    change (m'.item r).isSome = true
    rw [h.kept r hSr]
    exact hlive

/-- The items of the tree shown. -/
def Shown (m : TreeModel) (x : Nat) : Prop := ∃ r, m.root = some r ∧ Within m.children r x

/-- Deleting the tree shown returns. -/
theorem Ok.deleteRoot (hm : m.Ok) : ∃ m', m.deleteRoot = some m' ∧ Freed m.Shown m m' := by
  unfold TreeModel.deleteRoot
  cases hr : m.root with
  | none =>
    refine ⟨m, rfl, rfl, rfl, ?_, fun _ _ => rfl⟩
    rintro x ⟨r, hr', _⟩
    rw [hr] at hr'
    cases hr'
  | some r =>
    have hholds : Holds m.children r m := by
      intro x hx
      refine ⟨?_, rfl⟩
      rcases within_iff.1 hx with rfl | hx
      · exact (hm.top _ hr).1
      · exact hm.live_of_below hx
    obtain ⟨m', hm', hfree⟩ := destroy_spec hm.forest hm.rank_lt (n := m.next + 1) (by have := rank_le_next (m := m) r; omega) hholds
    refine ⟨m', hm', hfree.congr fun x => ?_⟩
    simp [Shown, hr]

/-- Parents and children are shown together. -/
theorem Ok.shown_child (hm : m.Ok) (hc : c ∈ m.children p) : m.Shown c ↔ m.Shown p := by
  constructor
  · rintro ⟨r, hr, hx⟩
    refine ⟨r, hr, ?_⟩
    rcases within_iff.1 hx with rfl | hx
    · exact absurd hc ((hm.top _ hr).2 p)
    · obtain ⟨q, hq, hcq⟩ := hx.parent
      exact hm.forest.unique _ _ _ hc hcq ▸ hq
  · rintro ⟨r, hr, hx⟩
    exact ⟨r, hr, hx.tail hc⟩

theorem Ok.setPacketTree (hm : m.Ok) (hlive : (m.item r).isSome = true) (hfree : ∀ p, r ∉ m.children p)
    (hroot : m.root ≠ some r) : ∃ m', Freed m.Shown m m' ∧ m.setPacketTree r = some { m' with root := some r } ∧
      ({ m' with root := some r } : TreeModel).Ok := by
  obtain ⟨m', hm', hfreed⟩ := hm.deleteRoot
  refine ⟨m', hfreed, by simp only [TreeModel.setPacketTree, hm', Option.bind_eq_bind, Option.bind_some], ?_⟩
  refine hm.freed hfreed (fun p c hc => hm.shown_child hc) ?_
  rintro r' hr'
  cases hr'
  refine ⟨?_, hlive, hfree⟩
  rintro ⟨r', hr', hx⟩
  rcases within_iff.1 hx with rfl | hx
  · exact hroot hr'
  · obtain ⟨q, _, hq⟩ := hx.parent
    exact hfree q hq

theorem Ok.clear (hm : m.Ok) : ∃ m', Freed m.Shown m m' ∧ m.clear = some { m' with root := none } ∧
    ({ m' with root := none } : TreeModel).Ok := by
  obtain ⟨m', hm', hfreed⟩ := hm.deleteRoot
  refine ⟨m', hfreed, by simp only [TreeModel.clear, hm', Option.bind_eq_bind, Option.bind_some], ?_⟩
  exact hm.freed hfreed (fun p c hc => hm.shown_child hc) fun r hr => by cases hr

end

/-! ## Histories -/

/-- The invariant, and whatever has a parent or is shown is among the items placed so far. -/
structure After (m : TreeModel) (done : List Nat) : Prop where
  ok : m.Ok
  child : ∀ p, ∀ c ∈ m.children p, c ∈ done
  root : ∀ r, m.root = some r → r ∈ done

section
variable {m m' : TreeModel} {ops : List TreeOp} {op : TreeOp} {done : List Nat} {c : Nat}

/-- An item placed now was not placed before. -/
theorem After.fresh (hm : m.After done) (hc : c ∉ done) : (∀ p, c ∉ m.children p) ∧ m.root ≠ some c :=
  ⟨fun p h => hc (hm.child p c h), fun h => hc (hm.root c h)⟩

/-- **Step lemma.** -/
theorem After.step (hm : m.After done) (honce : ∀ c ∈ op.placed, c ∉ done) (hfits : op.Fits m)
    (hs : op.step m = some m') : m'.After (done ++ op.placed.toList) := by
  have hold {x : Nat} (hx : x ∈ done) : x ∈ done ++ op.placed.toList := List.mem_append_left _ hx
  cases op with
  | new title parent =>
    cases hs
    refine ⟨hm.ok.new title parent, fun p c hc => ?_, fun r hr => hold (hm.root r hr)⟩
    rw [children_new] at hc
    exact hold (hm.child p c hc)
  | addChild p c =>
    obtain ⟨hfree, hroot⟩ := hm.fresh (honce c rfl)
    have hne : c ≠ p := fun h => hfits (h ▸ Within.refl)
    obtain ⟨_, _, _, _, hr, _, _⟩ := addChild_cases hs hne
    refine ⟨hm.ok.addChild hs hfree hfits hroot, fun q d hd => ?_, fun r hr' => hold (hm.root r (hr ▸ hr'))⟩
    rw [children_addChild hs hne] at hd
    split at hd
    · rcases List.mem_append.1 hd with hd | hd
      · exact hold (hm.child p d hd)
      · exact List.mem_append_right _ hd
    · exact hold (hm.child q d hd)
  | setPacketTree r =>
    obtain ⟨hfree, hroot⟩ := hm.fresh (honce r rfl)
    obtain ⟨m₁, hfreed, hset, hok⟩ := hm.ok.setPacketTree hfits hfree hroot
    obtain rfl := Option.some.inj (hset.symm.trans hs)
    refine ⟨hok, fun p c hc => hold (hm.child p c (hfreed.of_child hc).2), fun r' hr' => ?_⟩
    cases hr'
    exact List.mem_append_right _ List.mem_cons_self
  | clear =>
    obtain ⟨m₁, hfreed, hclear, hok⟩ := hm.ok.clear
    obtain rfl := Option.some.inj (hclear.symm.trans hs)
    exact ⟨hok, fun p c hc => hold (hm.child p c (hfreed.of_child hc).2), fun r hr => by cases hr⟩

/-- **Run lemma.** -/
theorem After.run (hm : m.After done) (honce : (done ++ ops.filterMap TreeOp.placed).Nodup)
    (hfits : Lts.Along TreeOp.step TreeOp.Fits m ops) (hr : Lts.run TreeOp.step m ops = some m') :
    m'.After (done ++ ops.filterMap TreeOp.placed) := by
  refine Lts.run_ind_along (motive := fun ops m => (done ++ ops.filterMap TreeOp.placed).Nodup →
    m.After (done ++ ops.filterMap TreeOp.placed)) ?_ ?_ hfits hr honce
  · intro _
    rw [List.filterMap_nil, List.append_nil]
    exact hm
  · intro ops m op m' ih hfits hs honce
    have hsplit : done ++ (ops ++ [op]).filterMap TreeOp.placed =
        done ++ ops.filterMap TreeOp.placed ++ op.placed.toList := by
      rw [List.filterMap_append, List.append_assoc]
      cases h : op.placed <;> simp [h]
    rw [hsplit] at honce ⊢
    obtain ⟨hnd, _, hdisj⟩ := List.nodup_append.1 honce
    refine (ih hnd).step (fun c hc hdone => hdisj c hdone c ?_ rfl) hfits hs
    rw [hc]
    exact List.mem_cons_self

theorem After.init : ({} : TreeModel).After [] :=
  ⟨Ok.init, fun p c hc => (by cases hc), fun r hr => by cases hr⟩

end

/-! ## Indices -/

inductive Navigated (m : TreeModel) : QModelIndex → Prop
  | root : Navigated m .invalid
  | index {row col : Int} {p i : QModelIndex} : Navigated m p → m.index row col p = some i → Navigated m i
  | parent {i p : QModelIndex} : Navigated m i → m.parent i = some p → Navigated m p

/-- The index `i` stands for the item `x` of the tree with root `r`, at its row under its parent. -/
inductive Stands (m : TreeModel) (r : Nat) : QModelIndex → Nat → Prop
  | root : Stands m r .invalid r
  | child {q k x : Nat} : Within m.children r q → (m.children q)[k]? = some x → Stands m r (.createIndex k 0 x) x

section
variable {m : TreeModel} {r x y q c k : Nat} {i j p : QModelIndex}

theorem Stands.within (h : Stands m r i x) : Within m.children r x := by
  cases h with
  | root => exact Within.refl
  | child hq hx => exact hq.tail (List.mem_of_getElem? hx)

theorem Stands.pointer (h : Stands m r i x) (hr : m.root = some r) : m.pointer i = some x := by
  cases h with
  | root => exact hr
  | child _ _ => rw [TreeModel.pointer, if_pos (QModelIndex.isValid_createIndex_natCast ..), QModelIndex.internalPointer]

theorem Ok.item_of_within (hm : m.Ok) (hr : m.root = some r) (hx : Within m.children r x) :
    ∃ it, m.item x = some it ∧ m.children x = it.children := by
  have hlive : (m.item x).isSome = true := by
    rcases within_iff.1 hx with rfl | hx
    · exact (hm.top _ hr).1
    · exact hm.live_of_below hx
  obtain ⟨it, hit⟩ := Option.isSome_iff_exists.1 hlive
  exact ⟨it, hit, children_of_item hit⟩

/-- Child lists name an item at one place. -/
theorem Ok.place_unique (hm : m.Ok) {q' k' : Nat} (h : (m.children q)[k]? = some x) (h' : (m.children q')[k']? = some x) :
    q = q' ∧ k = k' := by
  obtain rfl := hm.forest.unique _ _ _ (List.mem_of_getElem? h) (List.mem_of_getElem? h')
  obtain ⟨hk, _⟩ := List.getElem?_eq_some_iff.1 h
  exact ⟨rfl, (List.getElem?_inj hk (hm.nodup q)).1 (h.trans h'.symm)⟩

/-- One index stands for an item. -/
theorem Stands.unique (hm : m.Ok) (hr : m.root = some r) (hi : Stands m r i x) (hj : Stands m r j x) : i = j := by
  cases hi with
  | root =>
    cases hj with
    | root => rfl
    | child _ hx => exact absurd (List.mem_of_getElem? hx) ((hm.top r hr).2 _)
  | child _ hx =>
    cases hj with
    | root => exact absurd (List.mem_of_getElem? hx) ((hm.top r hr).2 _)
    | child _ hx' =>
      obtain ⟨_, rfl⟩ := hm.place_unique hx hx'
      rfl

/-- The row recomputed from the parent link is the place in the child list. -/
theorem Ok.rowOf (hm : m.Ok) (h : (m.children q)[k]? = some x) : m.rowOf x = some (k : Int) := by
  obtain ⟨it, hit, hpar⟩ := hm.linked q x (List.mem_of_getElem? h)
  obtain ⟨up, hup, _⟩ := item_of_child (List.mem_of_getElem? h)
  have hidx : up.children.idxOf? x = some k := by
    rw [children_of_item hup] at h
    obtain ⟨hk, hx⟩ := List.getElem?_eq_some_iff.1 h
    have hnd := hm.nodup q
    rw [children_of_item hup] at hnd
    refine List.idxOf?_eq_some_iff.2 ⟨hk, hx, fun l hl heq => ?_⟩
    have := (hnd.getElem_inj_iff).1 (heq.trans hx.symm)
    omega
  simp only [TreeModel.rowOf, hit, Option.bind_eq_bind, Option.bind_some, hpar, hup, hidx]

/-- The parent of an index stands for the parent of its item. -/
theorem Ok.parent_stands (hm : m.Ok) (hr : m.root = some r) (hq : Within m.children r q)
    (hx : (m.children q)[k]? = some x) : ∃ j, m.parent (.createIndex k 0 x) = some j ∧ Stands m r j q := by
  obtain ⟨it, hit, hpar⟩ := hm.linked q x (List.mem_of_getElem? hx)
  by_cases hroot : some q = m.root
  · obtain rfl : q = r := Option.some.inj (hroot.trans hr)
    refine ⟨.invalid, ?_, Stands.root⟩
    simp only [parent, QModelIndex.isValid_createIndex_natCast, QModelIndex.internalPointer, hit, Option.bind_eq_bind,
      Option.bind_some, hpar, if_true, if_pos hroot]
  · rcases within_iff.1 hq with rfl | hbelow
    · exact absurd hr.symm hroot
    · obtain ⟨q', hq', hmem⟩ := hbelow.parent
      obtain ⟨k', hk'⟩ := List.mem_iff_getElem?.1 hmem
      refine ⟨.createIndex k' 0 q, ?_, Stands.child hq' hk'⟩
      simp only [parent, QModelIndex.isValid_createIndex_natCast, QModelIndex.internalPointer, hit, Option.bind_eq_bind,
        Option.bind_some, hpar, if_true, if_neg hroot, hm.rowOf hk']

/-- What `index` answers at an index that stands for an item. -/
theorem Stands.index (hm : m.Ok) (hr : m.root = some r) (hi : Stands m r i x) (row : Int) :
    m.index row 0 i = some (match (if row < 0 then none else (m.children x)[row.toNat]?) with
      | none => .invalid
      | some c => .createIndex row 0 c) := by
  obtain ⟨it, hit, hcs⟩ := hm.item_of_within hr hi.within
  simp only [TreeModel.index, ne_eq, not_true_eq_false, if_false, hi.pointer hr, Option.bind_eq_bind, Option.bind_some,
    hit, TreeItem.child, hcs]
  split <;> simp only [*]

theorem Stands.index_child (hm : m.Ok) (hr : m.root = some r) (hi : Stands m r i x) (hc : (m.children x)[k]? = some c) :
    m.index k 0 i = some (.createIndex k 0 c) := by
  rw [hi.index hm hr, if_neg (by omega), Int.toNat_natCast, hc]

/-- Every index obtained by navigation stands for an item of the tree. -/
theorem Navigated.stands (hm : m.Ok) (hr : m.root = some r) (h : Navigated m i) : ∃ x, Stands m r i x := by
  induction h with
  | root => exact ⟨r, Stands.root⟩
  | @index row col p i _ hi ih =>
    obtain ⟨x, hx⟩ := ih
    by_cases hcol : col = 0
    · rw [hcol, hx.index hm hr] at hi
      by_cases hrow : row < 0
      · rw [if_pos hrow] at hi
        cases hi
        exact ⟨r, Stands.root⟩
      · rw [if_neg hrow] at hi
        cases hc : (m.children x)[row.toNat]? with
        | none =>
          rw [hc] at hi
          cases hi
          exact ⟨r, Stands.root⟩
        | some c =>
          rw [hc] at hi
          cases hi
          have hchild := Stands.child (r := r) hx.within hc
          rw [Int.toNat_of_nonneg (Int.not_lt.1 hrow)] at hchild
          exact ⟨c, hchild⟩
    · rw [TreeModel.index, if_pos hcol] at hi
      cases hi
      exact ⟨r, Stands.root⟩
  | parent _ hp ih =>
    obtain ⟨x, hx⟩ := ih
    cases hx with
    | root =>
      cases hp
      exact ⟨r, Stands.root⟩
    | child hq hx =>
      obtain ⟨j, hj, hstands⟩ := hm.parent_stands hr hq hx
      obtain rfl := Option.some.inj (hj.symm.trans hp)
      exact ⟨_, hstands⟩

end

/-! ## Depth-first navigation -/

/-- What `rowCount` and `index` lead to from an index, each index before its children; `n` bounds the depth. -/
def visit (m : TreeModel) : Nat → QModelIndex → Option (List QModelIndex)
  | 0, _ => none
  | n + 1, p => do
    let rows ← m.rowCount p
    let found ← (List.range rows).mapM fun (row : Nat) => do
      let i ← m.index row 0 p
      let below ← m.visit n i
      some (i :: below)
    some found.flatten

/-- The laws of the navigation of the tree with root `r`. -/
structure Coherent (m : TreeModel) (r : Nat) : Prop where
  /-- `index` is valid exactly at the rows there are, and `parent` and `row` invert it. -/
  rows : ∀ p, m.Navigated p → ∃ n, m.rowCount p = some n ∧ ∀ row : Int, ∃ i, m.index row 0 p = some i ∧
    (i.isValid = true ↔ 0 ≤ row ∧ row < n) ∧ (i.isValid = true → m.parent i = some p ∧ i.row = row)
  /-- There is one column. -/
  column : ∀ p, m.Navigated p → ∀ row col : Int, col ≠ 0 → m.index row col p = some .invalid
  /-- Depth-first navigation returns, and finds every item below the root once. -/
  visits : ∀ n, m.next < n → ∃ l, m.visit n .invalid = some l ∧ (l.map QModelIndex.internalPointer).Nodup ∧
    ∀ x, some x ∈ l.map QModelIndex.internalPointer ↔ Below m.children r x

section
variable {m : TreeModel} {r x : Nat} {i p : QModelIndex}

theorem Ok.rows (hm : m.Ok) (hr : m.root = some r) (hp : m.Navigated p) :
    ∃ n, m.rowCount p = some n ∧ ∀ row : Int, ∃ i, m.index row 0 p = some i ∧
      (i.isValid = true ↔ 0 ≤ row ∧ row < n) ∧ (i.isValid = true → m.parent i = some p ∧ i.row = row) := by
  obtain ⟨x, hx⟩ := hp.stands hm hr
  obtain ⟨it, hit, hcs⟩ := hm.item_of_within hr hx.within
  refine ⟨(m.children x).length, ?_, fun row => ⟨_, hx.index hm hr row, ?_⟩⟩
  · simp only [rowCount, hx.pointer hr, hit, hcs, Option.bind_eq_bind, Option.bind_some]
  by_cases hneg : row < 0
  · rw [if_pos hneg]
    exact ⟨⟨fun h => (by cases h), fun h => by omega⟩, fun h => by cases h⟩
  · rw [if_neg hneg]
    cases hc : (m.children x)[row.toNat]? with
    | none =>
      have := List.getElem?_eq_none_iff.1 hc
      exact ⟨⟨fun h => (by cases h), fun h => by omega⟩, fun h => by cases h⟩
    | some c =>
      obtain ⟨hlt, _⟩ := List.getElem?_eq_some_iff.1 hc
      obtain ⟨j, hj, hstands⟩ := hm.parent_stands hr hx.within hc
      rw [Int.toNat_of_nonneg (Int.not_lt.1 hneg)] at hj
      refine ⟨⟨fun _ => by omega, fun _ => by simpa [QModelIndex.isValid] using hneg⟩, fun _ => ⟨?_, rfl⟩⟩
      rw [hj, hstands.unique hm hr hx]

/-- Depth-first navigation follows the preorder of the child lists. -/
theorem Ok.visit (hm : m.Ok) (hr : m.root = some r) {n : Nat} (hi : Stands m r i x)
    (hn : rank (Finset.range m.next) m.children x < n) :
    ∃ l, m.visit n i = some l ∧ l.map QModelIndex.internalPointer = (preorder m.children n x).map some := by
  induction n generalizing i x with
  | zero => omega
  | succ n ih =>
    obtain ⟨it, hit, hcs⟩ := hm.item_of_within hr hi.within
    have hrows : m.rowCount i = some (m.children x).length := by
      simp only [rowCount, hi.pointer hr, hit, hcs, Option.bind_eq_bind, Option.bind_some]
    -- one step of the loop over the rows finds a child and what is below it
    have hloop : ∀ row ∈ List.range (m.children x).length, ∃ l,
        ((m.index (row : Nat) 0 i).bind fun j => (m.visit n j).bind fun below => some (j :: below)) = some l ∧
        l.map QModelIndex.internalPointer =
          (m.children x)[row]?.elim [] fun c => (c :: preorder m.children n c).map some := by
      intro row hrow
      have hlt := List.mem_range.1 hrow
      have hc : (m.children x)[row]? = some (m.children x)[row] := List.getElem?_eq_getElem hlt
      have hlower := hm.rank_lt x _ (List.getElem_mem hlt)
      obtain ⟨below, hbelow, hlist⟩ := ih (Stands.child hi.within hc) (by omega)
      refine ⟨_, by rw [hi.index_child hm hr hc, Option.bind_some, hbelow, Option.bind_some], ?_⟩
      rw [List.map_cons, hlist, hc]
      rfl
    obtain ⟨found, hfound, hmap⟩ := Lists.exists_mapM_map hloop
    replace hmap := hmap.trans (Lists.map_getElem?_range
      (fun c : Option Nat => c.elim [] fun c => (c :: preorder m.children n c).map some) (m.children x))
    refine ⟨found.flatten, ?_, ?_⟩
    · simp only [TreeModel.visit, hrows, Option.bind_eq_bind, Option.bind_some]
      rw [hfound, Option.bind_some]
    · rw [List.map_flatten, hmap, preorder, List.map_flatMap, List.flatMap_def]
      rfl

theorem Ok.coherent (hm : m.Ok) (hr : m.root = some r) : m.Coherent r where
  rows p hp := hm.rows hr hp
  column p _ row col hcol := by rw [TreeModel.index, if_pos hcol]
  visits n hn := by
    have hrank : rank (Finset.range m.next) m.children r < n := Nat.lt_of_le_of_lt (rank_le_next r) hn
    obtain ⟨l, hl, hlist⟩ := hm.visit hr Stands.root hrank
    refine ⟨l, hl, ?_, fun x => ?_⟩
    · rw [hlist]
      exact (hm.forest.nodup_preorder n r).map fun a b h => Option.some.inj h
    · rw [hlist, List.mem_map]
      simp only [Option.some.injEq, exists_eq_right]
      exact mem_preorder hm.rank_lt (Nat.le_of_lt hrank)

end

end TreeModel

end MiniWireshark

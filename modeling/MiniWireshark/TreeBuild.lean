import MiniWireshark.Navigation

/-!
# Trees built by a list of calls

A list of constructor and `addChild` calls, with the items numbered from its root on, makes the tree
that can be read off the list, wherever the items are allocated.

| here | meaning |
| --- | --- |
| `shift base`      | the call with the items numbered from `base` |
| `childrenIn ops p`, `titlesIn ops` | the children the list gives to item `p`; the titles in order of allocation |
| `isScoped n ops`    | from `n` items on, each `addChild` puts an item under one made before it |
| `titleAt path`    | what the view shows at the end of a path of rows from the root |
-/

namespace MiniWireshark

open Forest

namespace TreeOp

def shift (base : Nat) : TreeOp → TreeOp
  | new title parent => new title (parent.map (base + ·))
  | addChild p c => addChild (base + p) (base + c)
  | setPacketTree r => setPacketTree (base + r)
  | clear => clear

def childOf (p : Nat) : TreeOp → Option Nat
  | addChild q c => if q = p then some c else none
  | _ => none

def title : TreeOp → Option String
  | new title _ => some title
  | _ => none

end TreeOp

def childrenIn (ops : List TreeOp) (p : Nat) : List Nat := ops.filterMap (TreeOp.childOf p)

def titlesIn (ops : List TreeOp) : List String := ops.filterMap TreeOp.title

def isScoped : Nat → List TreeOp → Bool
  | _, [] => true
  | n, .new _ _ :: ops => isScoped (n + 1) ops
  | n, .addChild p c :: ops => decide (p < c ∧ c < n) && isScoped n ops
  | _, _ :: _ => false

section
variable (title : String) (parent : Option Nat) (ops : List TreeOp) (p q c : Nat)

@[simp] theorem childrenIn_new : childrenIn (.new title parent :: ops) q = childrenIn ops q := rfl

@[simp] theorem titlesIn_new : titlesIn (.new title parent :: ops) = title :: titlesIn ops := rfl

@[simp] theorem titlesIn_addChild : titlesIn (.addChild p c :: ops) = titlesIn ops := rfl

@[simp] theorem childrenIn_addChild :
    childrenIn (.addChild p c :: ops) q = if p = q then c :: childrenIn ops q else childrenIn ops q := by
  by_cases h : p = q <;> simp [childrenIn, TreeOp.childOf, h]

end

section
variable {ops : List TreeOp} {n p c base : Nat}

theorem mem_childrenIn : c ∈ childrenIn ops p ↔ .addChild p c ∈ ops := by
  rw [childrenIn, List.mem_filterMap]
  constructor
  · rintro ⟨op, hop, hc⟩
    cases op with
    | addChild q d =>
      obtain ⟨rfl, hd⟩ := Option.ite_none_right_eq_some.1 hc
      cases hd
      exact hop
    | new title parent => cases hc
    | setPacketTree r => cases hc
    | clear => cases hc
  · intro hop
    exact ⟨_, hop, if_pos rfl⟩

theorem lt_of_isScoped (hsc : isScoped n ops = true) (hc : c ∈ childrenIn ops p) : p < c := by
  induction ops generalizing n with
  | nil => cases hc
  | cons op ops ih =>
    cases op with
    | new title parent => exact ih hsc hc
    | addChild q d =>
      obtain ⟨hqd, hsc⟩ := (Bool.and_eq_true _ _).mp hsc
      rcases List.mem_cons.1 (mem_childrenIn.1 hc) with heq | hc
      · cases heq
        exact (of_decide_eq_true hqd).1
      · exact ih hsc (mem_childrenIn.2 hc)
    | setPacketTree r => cases hsc
    | clear => cases hsc

/-- A scoped list of calls places items by `addChild` only. -/
theorem exists_parent (hsc : isScoped n ops = true) (hc : c ∈ ops.filterMap TreeOp.placed) :
    ∃ p, c ∈ childrenIn ops p := by
  induction ops generalizing n with
  | nil => cases hc
  | cons op ops ih =>
    cases op with
    | new title parent => exact ih hsc hc
    | addChild q d =>
      obtain ⟨_, hsc⟩ := (Bool.and_eq_true _ _).mp hsc
      rw [List.filterMap_cons_some (show TreeOp.placed (.addChild q d) = some d from rfl)] at hc
      rcases List.mem_cons.1 hc with rfl | hc
      · exact ⟨q, mem_childrenIn.2 List.mem_cons_self⟩
      · obtain ⟨p, hp⟩ := ih hsc hc
        exact ⟨p, mem_childrenIn.2 (List.mem_cons_of_mem _ (mem_childrenIn.1 hp))⟩
    | setPacketTree r => cases hsc
    | clear => cases hsc

theorem placed_shift (ops : List TreeOp) (base : Nat) :
    (ops.map (TreeOp.shift base)).filterMap TreeOp.placed = (ops.filterMap TreeOp.placed).map (base + ·) := by
  rw [List.filterMap_map, List.map_filterMap]
  refine List.filterMap_congr fun op _ => ?_
  cases op <;> rfl

end

namespace TreeModel

def title (m : TreeModel) (p : Nat) : Option String := (m.item p).map TreeItem.sTitle

/-- `m'` is `m` with the items from `base + n` on that `ops` makes. -/
structure Grown (base n : Nat) (ops : List TreeOp) (m m' : TreeModel) : Prop where
  next : m'.next = base + (n + (titlesIn ops).length)
  root : m'.root = m.root
  children : ∀ p, m'.children (base + p) = m.children (base + p) ++ (childrenIn ops p).map (base + ·)
  title : ∀ x, m'.title (base + x) = if x < n then m.title (base + x) else (titlesIn ops)[x - n]?
  below : ∀ x < base, m'.item x = m.item x

section
variable {base n p c x : Nat} {ops : List TreeOp} {m m' : TreeModel}

theorem title_isSome : (m.title p).isSome = (m.item p).isSome := Option.isSome_map

theorem Grown.new {title : String} {parent : Option Nat} (hnext : m.next = base + n)
    (h : Grown base (n + 1) ops (m.new title (parent.map (base + ·))) m') :
    Grown base n (.new title parent :: ops) m m' where
  next := by
    rw [h.next, titlesIn_new, List.length_cons]
    omega
  root := h.root
  children p := by
    rw [h.children, children_new, childrenIn_new]
  title x := by
    rw [h.title, TreeModel.title, TreeModel.title, item_new, hnext, titlesIn_new]
    by_cases hlt : x < n
    · rw [if_pos (Nat.lt_succ_of_lt hlt), if_pos hlt, if_neg (by omega)]
    · rw [if_neg hlt]
      by_cases heq : x = n
      · rw [if_pos (by omega), if_pos (by omega), heq, Nat.sub_self]
        rfl
      · rw [if_neg (by omega), show x - n = x - (n + 1) + 1 by omega, List.getElem?_cons_succ]
  below x hx := by rw [h.below x hx, item_new, if_neg (by omega)]

theorem Grown.addChild {m₁ : TreeModel} (hadd : m.addChild (base + p) (base + c) = some m₁) (hne : c ≠ p)
    (h : Grown base n ops m₁ m') : Grown base n (.addChild p c :: ops) m m' := by
  have hne' : base + c ≠ base + p := by omega
  obtain ⟨up, down, hup, hdown, hroot, _, hitem⟩ := addChild_cases hadd hne'
  constructor
  · rw [h.next, titlesIn_addChild]
  · rw [h.root, hroot]
  · intro q
    rw [h.children, children_addChild hadd hne', childrenIn_addChild]
    by_cases hq : p = q
    · rw [if_pos (by omega), if_pos hq, hq, List.map_cons, List.append_assoc, List.singleton_append]
    · rw [if_neg (by omega), if_neg hq]
  · intro x
    have htitle : m₁.title (base + x) = m.title (base + x) := by
      rw [TreeModel.title, TreeModel.title, hitem]
      by_cases hc : base + x = base + c
      · rw [if_pos hc, hc, hdown]
        rfl
      · rw [if_neg hc]
        by_cases hp : base + x = base + p
        · rw [if_pos hp, hp, hup]
          rfl
        · rw [if_neg hp]
    rw [h.title, htitle, titlesIn_addChild]
  · intro x hx
    rw [h.below x hx, hitem, if_neg (by omega), if_neg (by omega)]

/-- **A scoped list of calls runs**, and makes what can be read off it. -/
theorem run_scoped (hsc : isScoped n ops = true) (hnext : m.next = base + n)
    (hlive : ∀ x < n, (m.item (base + x)).isSome = true) :
    ∃ m', Lts.run TreeOp.step m (ops.map (TreeOp.shift base)) = some m' ∧ Grown base n ops m m' := by
  induction ops generalizing n m with
  | nil =>
    refine ⟨m, rfl, hnext, rfl, fun p => (List.append_nil _).symm, fun x => ?_, fun _ _ => rfl⟩
    by_cases hx : x < n
    · rw [if_pos hx]
    · rw [if_neg hx, title, item_eq_none (by omega)]
      rfl
  | cons op ops ih =>
    cases op with
    | new title parent =>
      have hlive' : ∀ x < n + 1, ((m.new title (parent.map (base + ·))).item (base + x)).isSome = true := by
        intro x hx
        rw [item_new]
        by_cases heq : base + x = m.next
        · rw [if_pos heq]
          rfl
        · rw [if_neg heq]
          exact hlive x (by omega)
      obtain ⟨m', hr, hg⟩ := ih hsc (by rw [next_new, hnext, Nat.add_assoc]) hlive'
      exact ⟨m', hr, hg.new hnext⟩
    | addChild p c =>
      obtain ⟨hpc, hsc⟩ := (Bool.and_eq_true _ _).mp hsc
      obtain ⟨hpc, hcn⟩ := of_decide_eq_true hpc
      have hne : base + c ≠ base + p := by omega
      obtain ⟨m₁, hm₁⟩ := addChild_isSome (hlive p (by omega)) (hlive c hcn) hne
      obtain ⟨_, _, hup, hdown, _, hnext₁, hitem⟩ := addChild_cases hm₁ hne
      have hlive' : ∀ x < n, (m₁.item (base + x)).isSome = true := by
        intro x hx
        rw [hitem]
        split
        · rfl
        · split
          · rfl
          · exact hlive x hx
      obtain ⟨m', hr, hg⟩ := ih hsc (hnext₁.trans hnext) hlive'
      exact ⟨m', Lts.run_cons_eq_some.2 ⟨m₁, hm₁, hr⟩, hg.addChild hm₁ (by omega)⟩
    | setPacketTree r => cases hsc
    | clear => cases hsc

/-! ## Children come after their parents -/

def Ordered (m : TreeModel) : Prop := ∀ p, ∀ c ∈ m.children p, p < c

theorem Ordered.le_of_within (hm : m.Ordered) (h : Within m.children p c) : p ≤ c := by
  induction h with
  | refl => exact Nat.le_refl p
  | tail _ hc ih => exact Nat.le_of_lt (Nat.lt_of_le_of_lt ih (hm _ _ hc))

/-- A scoped list of calls makes no cycle. -/
theorem Ordered.along (hm : m.Ordered) (hsc : isScoped n ops = true) :
    Lts.Along TreeOp.step TreeOp.Fits m (ops.map (TreeOp.shift base)) := by
  induction ops generalizing n m with
  | nil => trivial
  | cons op ops ih =>
    cases op with
    | new title parent =>
      refine (Lts.along_cons_of_step rfl).2 ⟨trivial, ih (fun p c hc => hm p c ?_) hsc⟩
      rwa [children_new] at hc
    | addChild p c =>
      obtain ⟨hpc, hsc⟩ := (Bool.and_eq_true _ _).mp hsc
      obtain ⟨hpc, _⟩ := of_decide_eq_true hpc
      have hfits : ¬ Within m.children (base + c) (base + p) := fun h => by
        have := hm.le_of_within h
        omega
      rw [List.map_cons, Lts.Along]
      refine ⟨hfits, ?_⟩
      cases hs : TreeOp.step m (TreeOp.shift base (.addChild p c)) with
      | none => trivial
      | some m₁ =>
        refine ih (fun q d hd => ?_) hsc
        rw [children_addChild hs (by omega)] at hd
        split at hd
        · rcases List.mem_append.1 hd with hd | hd
          · have := hm _ _ hd
            omega
          · have := List.mem_singleton.1 hd
            omega
        · exact hm q d hd
    | setPacketTree r => cases hsc
    | clear => cases hsc

end

/-! ## What the view shows -/

/-- The child at a row, if there is one. -/
def descend (m : TreeModel) (i : QModelIndex) (row : Nat) : Option QModelIndex := do
  let j ← m.index row 0 i
  if j.isValid then some j else none

/-- The text at the end of a path of rows from the root. -/
def titleAt (m : TreeModel) (path : List Nat) : Option String := do
  let i ← path.foldlM m.descend .invalid
  let text ← m.data i
  text

section
variable {m : TreeModel} {r x y : Nat} {i j : QModelIndex}

theorem Stands.descend (hm : m.Ok) (hr : m.root = some r) (hi : Stands m r i x) (k : Nat) :
    m.descend i k = (m.children x)[k]?.map fun c => .createIndex k 0 c := by
  rw [TreeModel.descend, hi.index hm hr, if_neg (by omega), Int.toNat_natCast]
  cases (m.children x)[k]? <;> rfl

/-- Following rows follows the child lists. -/
theorem Stands.foldlM_descend (hm : m.Ok) (hr : m.root = some r) (hi : Stands m r i x) (path : List Nat) :
    match path.foldlM (fun x k => (m.children x)[k]?) x with
    | none => path.foldlM m.descend i = none
    | some y => ∃ j, path.foldlM m.descend i = some j ∧ Stands m r j y ∧ (path ≠ [] → j ≠ .invalid) := by
  induction path generalizing i x with
  | nil => exact ⟨i, rfl, hi, fun h => absurd rfl h⟩
  | cons k path ih =>
    rw [List.foldlM_cons, List.foldlM_cons, hi.descend hm hr]
    cases hc : (m.children x)[k]? with
    | none => rfl
    | some c =>
      simp only [Option.map_some, Option.bind_eq_bind, Option.bind_some]
      have hchild : Stands m r (.createIndex k 0 c) c := Stands.child hi.within hc
      have h := ih hchild
      split at h
      · exact h
      · obtain ⟨j, hj, hstands, hne⟩ := h
        refine ⟨j, hj, hstands, fun _ => ?_⟩
        cases path with
        | nil =>
          cases hj
          exact QModelIndex.noConfusion
        | cons k' path => exact hne (List.cons_ne_nil k' path)

theorem titleAt_eq (hm : m.Ok) (hr : m.root = some r) {path : List Nat} (hpath : path ≠ []) :
    m.titleAt path = (path.foldlM (fun x k => (m.children x)[k]?) r).bind m.title := by
  have h := Stands.root.foldlM_descend hm hr path
  rw [titleAt]
  split at h
  · rename_i heq
    rw [h, heq]
    rfl
  · rename_i y heq
    obtain ⟨j, hj, hstands, hne⟩ := h
    rw [hj, heq]
    cases hstands with
    | root => exact absurd rfl (hne hpath)
    | child _ _ =>
      simp only [Option.bind_eq_bind, Option.bind_some, data, title, QModelIndex.isValid_createIndex_natCast,
        QModelIndex.internalPointer, if_true]
      cases m.item y <;> rfl

end

/-- The tree at `base` is the one that can be read off `ops`. -/
structure Built (base : Nat) (ops : List TreeOp) (m : TreeModel) : Prop where
  ok : m.Ok
  root : m.root = some base
  children : ∀ p, m.children (base + p) = (childrenIn ops p).map (base + ·)
  title : ∀ x, m.title (base + x) = ("root" :: titlesIn ops)[x]?

end TreeModel

/-- What the view shows of the tree that can be read off `ops`. -/
def titleIn (ops : List TreeOp) (path : List Nat) : Option String :=
  (path.foldlM (fun x k => (childrenIn ops x)[k]?) 0).bind fun x => ("root" :: titlesIn ops)[x]?

theorem TreeModel.Built.titleAt {base : Nat} {ops : List TreeOp} {m : TreeModel} (hm : m.Built base ops) {row : Nat}
    {path : List Nat} : m.titleAt (row :: path) = titleIn ops (row :: path) := by
  have hwalk (path : List Nat) (x : Nat) : path.foldlM (fun x k => (m.children x)[k]?) (base + x) =
      (path.foldlM (fun x k => (childrenIn ops x)[k]?) x).map (base + ·) := by
    induction path generalizing x with
    | nil => rfl
    | cons k path ih =>
      rw [List.foldlM_cons, List.foldlM_cons, hm.children, List.getElem?_map]
      cases (childrenIn ops x)[k]? with
      | none => rfl
      | some c => exact ih c
  rw [titleAt_eq hm.ok hm.root (List.cons_ne_nil row path), titleIn]
  have hroot := hwalk (row :: path) 0
  rw [Nat.add_zero] at hroot
  rw [hroot]
  cases (row :: path).foldlM (fun x k => (childrenIn ops x)[k]?) 0 with
  | none => rfl
  | some x => exact hm.title x

/-! ## A new tree in the view -/

namespace TreeModel

/-- The heap holds the tree shown and nothing else. -/
structure Tidy (m : TreeModel) : Prop where
  ok : m.Ok
  ordered : m.Ordered
  shown : ∀ x, (m.item x).isSome = true → m.Shown x

theorem Tidy.init : ({} : TreeModel).Tidy where
  ok := Ok.init
  ordered p c hc := by cases hc
  shown x hx := by cases hx

/-- Nothing but a root. -/
structure Bare (m : TreeModel) (r : Nat) : Prop where
  ok : m.Ok
  root : m.root = some r
  next : m.next = r + 1
  only : ∀ x, m.item x = if x = r then some { sTitle := "root" } else none

section
variable {m m' : TreeModel} {ops : List TreeOp} {x r : Nat}

theorem Ok.lt_of_shown (hm : m.Ok) (hx : m.Shown x) : x < m.next := by
  obtain ⟨r, hr, hx⟩ := hx
  obtain ⟨it, hit, _⟩ := hm.item_of_within hr hx
  exact lt_of_item hit

/-- Showing a new root deletes the tree shown before and leaves nothing but the root. -/
theorem Tidy.setPacketTree_new (hm : m.Tidy) :
    ∃ m', (m.new "root" none).setPacketTree m.next = some m' ∧ m'.Bare m.next := by
  have hch : (m.new "root" none).children = m.children := funext (children_new "root" none)
  have hshown (x : Nat) : (m.new "root" none).Shown x ↔ m.Shown x := by
    unfold Shown
    rw [hch]
    rfl
  have hfree : ∀ p, m.next ∉ (m.new "root" none).children p := by
    intro p hp
    rw [hch] at hp
    obtain ⟨it, hit, _⟩ := hm.ok.linked p m.next hp
    exact absurd (lt_of_item hit) (Nat.lt_irrefl _)
  have hroot : (m.new "root" none).root ≠ some m.next := by
    intro hr
    obtain ⟨it, hit⟩ := Option.isSome_iff_exists.1 (hm.ok.top m.next hr).1
    exact absurd (lt_of_item hit) (Nat.lt_irrefl _)
  obtain ⟨m', hfreed, hset, hok⟩ :=
    (hm.ok.new "root" none).setPacketTree (r := m.next) (by rw [item_new, if_pos rfl]; rfl) hfree hroot
  refine ⟨_, hset, hok, rfl, hfreed.next.trans (next_new _ _), fun x => ?_⟩
  change m'.item x = _
  by_cases hx : m.Shown x
  · rw [hfreed.gone x ((hshown x).2 hx), if_neg (Nat.ne_of_lt (hm.ok.lt_of_shown hx))]
  · rw [hfreed.kept x fun h => hx ((hshown x).1 h), item_new]
    by_cases heq : x = m.next
    · rw [if_pos heq, if_pos heq]
    · rw [if_neg heq, if_neg heq]
      cases hi : m.item x with
      | none => rfl
      | some it => exact absurd (hm.shown x (by rw [hi]; rfl)) hx

theorem Bare.children (hb : m.Bare r) (p : Nat) : m.children p = [] := by
  rw [TreeModel.children, hb.only]
  by_cases hp : p = r
  · rw [if_pos hp]
    rfl
  · rw [if_neg hp]
    rfl

theorem Bare.ordered (hb : m.Bare r) : m.Ordered := by
  intro p c hc
  rw [hb.children] at hc
  cases hc

theorem Bare.after (hb : m.Bare r) : m.After [r] := by
  refine ⟨hb.ok, fun p c hc => ?_, fun r' hr => ?_⟩
  · rw [hb.children] at hc
    cases hc
  · rw [hb.root] at hr
    cases hr
    exact List.mem_cons_self

/-- A scoped list of calls that places each item it makes, in order, runs from a root and keeps the invariant. -/
theorem Bare.run (hb : m.Bare r) (hsc : isScoped 1 ops = true)
    (hplaced : ops.filterMap TreeOp.placed = List.range' 1 (titlesIn ops).length) :
    ∃ m', Lts.run TreeOp.step m (ops.map (TreeOp.shift r)) = some m' ∧ Grown r 1 ops m m' ∧ m'.Ok := by
  have hlive : ∀ x < 1, (m.item (r + x)).isSome = true := by
    intro x hx
    rw [hb.only, if_pos (by omega)]
    rfl
  obtain ⟨m', hr, hg⟩ := run_scoped hsc hb.next hlive
  have honce : ([r] ++ (ops.map (TreeOp.shift r)).filterMap TreeOp.placed).Nodup := by
    rw [placed_shift, hplaced, List.singleton_append, List.nodup_cons]
    refine ⟨fun h => ?_, (List.nodup_range' 1).map fun a b hab => Nat.add_left_cancel hab⟩
    obtain ⟨k, hk, heq⟩ := List.mem_map.1 h
    obtain ⟨hk, _⟩ := List.mem_range'_1.1 hk
    omega
  exact ⟨m', hr, hg, (hb.after.run honce (hb.ordered.along hsc) hr).ok⟩

theorem Bare.built (hb : m.Bare r) (hg : Grown r 1 ops m m') (hok : m'.Ok) : m'.Built r ops where
  ok := hok
  root := hg.root.trans hb.root
  children p := by rw [hg.children, hb.children, List.nil_append]
  title x := by
    rw [hg.title]
    cases x with
    | zero =>
      rw [if_pos (by omega), title, hb.only, if_pos (Nat.add_zero _)]
      rfl
    | succ x => rw [if_neg (by omega), Nat.add_sub_cancel, List.getElem?_cons_succ]

theorem Bare.item_low (hb : m.Bare r) (hg : Grown r 1 ops m m') (hx : x < r) : m'.item x = none := by
  rw [hg.below x hx, hb.only, if_neg (Nat.ne_of_lt hx)]

/-- Each item has a parent with a smaller number, down to the root. -/
theorem Bare.within (hb : m.Bare r) (hsc : isScoped 1 ops = true)
    (hplaced : ops.filterMap TreeOp.placed = List.range' 1 (titlesIn ops).length) (hg : Grown r 1 ops m m')
    (hbuilt : m'.Built r ops) (hx : (m'.item x).isSome = true) : Within m'.children r x := by
  induction x using Nat.strongRecOn with
  | _ x ih =>
    obtain ⟨it, hit⟩ := Option.isSome_iff_exists.1 hx
    have hlt := lt_of_item hit
    rw [hg.next] at hlt
    have hge : r ≤ x := by
      by_contra h
      rw [hb.item_low hg (Nat.not_le.1 h)] at hx
      cases hx
    obtain ⟨k, rfl⟩ := Nat.exists_eq_add_of_le hge
    by_cases hk : k = 0
    · rw [hk]
      exact Within.refl
    · have hmade : k ∈ ops.filterMap TreeOp.placed := by
        rw [hplaced]
        exact List.mem_range'_1.2 (by omega)
      obtain ⟨p, hp⟩ := exists_parent hsc hmade
      have hpk := lt_of_isScoped hsc hp
      have hmem : r + k ∈ m'.children (r + p) := by
        rw [hbuilt.children]
        exact List.mem_map.2 ⟨k, hp, rfl⟩
      obtain ⟨up, hup, _⟩ := item_of_child hmem
      exact (ih (r + p) (by omega) (by rw [hup]; rfl)).tail hmem

theorem Bare.tidy (hb : m.Bare r) (hsc : isScoped 1 ops = true)
    (hplaced : ops.filterMap TreeOp.placed = List.range' 1 (titlesIn ops).length) (hg : Grown r 1 ops m m')
    (hbuilt : m'.Built r ops) : m'.Tidy where
  ok := hbuilt.ok
  ordered p c hc := by
    by_cases hp : p < r
    · rw [TreeModel.children, hb.item_low hg hp] at hc
      cases hc
    · obtain ⟨k, rfl⟩ := Nat.exists_eq_add_of_le (Nat.not_lt.1 hp)
      rw [hbuilt.children] at hc
      obtain ⟨d, hd, rfl⟩ := List.mem_map.1 hc
      have := lt_of_isScoped hsc hd
      omega
  shown x hx := ⟨r, hbuilt.root, hb.within hsc hplaced hg hbuilt hx⟩

/-- **A new tree.** Under a new root, a scoped list of calls that places each item it makes, in order,
makes the tree that can be read off it, and the heap holds no other item. -/
theorem Tidy.build (hm : m.Tidy) (hsc : isScoped 1 ops = true)
    (hplaced : ops.filterMap TreeOp.placed = List.range' 1 (titlesIn ops).length) :
    ∃ m₁ m', (m.new "root" none).setPacketTree m.next = some m₁ ∧
      Lts.run TreeOp.step m₁ (ops.map (TreeOp.shift m.next)) = some m' ∧ m'.Built m.next ops ∧ m'.Tidy := by
  obtain ⟨m₁, hset, hbare⟩ := hm.setPacketTree_new
  obtain ⟨m', hr, hg, hok⟩ := hbare.run hsc hplaced
  have hbuilt : m'.Built m.next ops := hbare.built hg hok
  exact ⟨m₁, m', hset, hr, hbuilt, hbare.tidy hsc hplaced hg hbuilt⟩

end

end TreeModel

end MiniWireshark

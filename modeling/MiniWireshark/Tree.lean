import MiniWireshark.Lib.Forest
import MiniWireshark.Lib.Lts

/-!
# The detail tree (`TreeItem.cpp`, `TreeModel.cpp`)

`TreeItem`s are allocated with `new` and linked by raw pointers, so the model of them is a heap: a
pointer is a position in `cells`, and a deleted item leaves `none` there. Where the C++ follows a
null or dangling pointer the definitions answer `none`.

| here | there |
| --- | --- |
| `TreeItem`, `child`              | `TreeItem.h`, `TreeItem::child` (`QVector::value`) |
| `TreeModel`                      | the heap, and `root` (`TreeModel.h:15`) |
| `new`, `addChild`, `destroy`     | the constructor, `addChild` and the destructor (`TreeItem.cpp:3-21`) |
| `rowOf`                          | `TreeItem::row` (`TreeItem.cpp:32-36`) |
| `index`, `parent`, `rowCount`, `data` | the overrides (`TreeModel.cpp:13-95`); `data` for the display role |
| `setPacketTree`, `clear`         | `TreeModel.cpp:108-129` |
-/

namespace MiniWireshark

structure TreeItem where
  sTitle : String
  children : List Nat := []
  parent : Option Nat := none
deriving DecidableEq, Repr

/-- `children.value(row, nullptr)`. -/
def TreeItem.child (it : TreeItem) (row : Int) : Option Nat := if row < 0 then none else it.children[row.toNat]?

/-- A `QModelIndex`: the default one, or what `createIndex` makes. -/
inductive QModelIndex where
  | invalid
  | createIndex (row col : Int) (item : Nat)
deriving DecidableEq, Repr

namespace QModelIndex

def isValid : QModelIndex → Bool
  | invalid => false
  | createIndex row col _ => decide (0 ≤ row) && decide (0 ≤ col)

@[simp] theorem isValid_createIndex_natCast (row item : Nat) : (createIndex row 0 item).isValid = true := by
  simp [isValid]

/-- `row()`, which is `-1` for the invalid index. -/
def row : QModelIndex → Int
  | invalid => -1
  | createIndex row _ _ => row

def internalPointer : QModelIndex → Option Nat
  | invalid => none
  | createIndex _ _ item => some item

end QModelIndex

structure TreeModel where
  cells : List (Option TreeItem) := []
  root : Option Nat := none
deriving DecidableEq, Repr

namespace TreeModel

def item (m : TreeModel) (p : Nat) : Option TreeItem := m.cells[p]?.join

/-- The pointer the next `new` returns. -/
def next (m : TreeModel) : Nat := m.cells.length

/-! ## `TreeItem` -/

def new (m : TreeModel) (title : String) (p : Option Nat) : TreeModel :=
  { m with cells := m.cells ++ [some { sTitle := title, parent := p }] }

def write (m : TreeModel) (p : Nat) (it : TreeItem) : TreeModel := { m with cells := m.cells.set p (some it) }

def free (m : TreeModel) (p : Nat) : TreeModel := { m with cells := m.cells.set p none }

def addChild (m : TreeModel) (p c : Nat) : Option TreeModel := do
  let it ← m.item p
  let m := m.write p { it with children := it.children ++ [c] }
  let child ← m.item c
  some (m.write c { child with parent := some p })

/-- `delete`: the destructor deletes the children first; `n` bounds the depth. -/
def destroy : Nat → TreeModel → Nat → Option TreeModel
  | 0, _, _ => none
  | n + 1, m, p => do
    let it ← m.item p
    let m ← it.children.foldlM (destroy n) m
    some (m.free p)

/-- `parent->children.indexOf(this)`, `-1` where it is not among them. -/
def rowOf (m : TreeModel) (p : Nat) : Option Int := do
  let it ← m.item p
  match it.parent with
  | none => some 0
  | some q => do
    let up ← m.item q
    some (match up.children.idxOf? p with
      | some i => i
      | none => -1)

/-! ## `TreeModel` -/

/-- The item an index stands for; the invalid one stands for the root. -/
def pointer (m : TreeModel) (i : QModelIndex) : Option Nat := if i.isValid then i.internalPointer else m.root

def index (m : TreeModel) (row col : Int) (i : QModelIndex) : Option QModelIndex :=
  if col ≠ 0 then some .invalid else do
  let parentItem ← m.pointer i
  let it ← m.item parentItem
  match it.child row with
  | none => some .invalid
  | some c => some (.createIndex row col c)

def parent (m : TreeModel) (i : QModelIndex) : Option QModelIndex :=
  if i.isValid then do
    let childItem ← i.internalPointer
    let it ← m.item childItem
    match it.parent with
    | none => some .invalid
    | some parentItem =>
      if some parentItem = m.root then some .invalid else do
      let row ← m.rowOf parentItem
      some (.createIndex row 0 parentItem)
  else some .invalid

def rowCount (m : TreeModel) (i : QModelIndex) : Option Nat := do
  let parentItem ← m.pointer i
  let it ← m.item parentItem
  some it.children.length

/-- `none` inside is the empty `QVariant`. -/
def data (m : TreeModel) (i : QModelIndex) : Option (Option String) :=
  if i.isValid then do
    let p ← i.internalPointer
    let it ← m.item p
    some (some it.sTitle)
  else some none

def deleteRoot (m : TreeModel) : Option TreeModel :=
  match m.root with
  | none => some m
  | some r => m.destroy (m.next + 1) r

def setPacketTree (m : TreeModel) (newRoot : Nat) : Option TreeModel := do
  let m ← m.deleteRoot
  some { m with root := some newRoot }

def clear (m : TreeModel) : Option TreeModel := do
  let m ← m.deleteRoot
  some { m with root := none }

/-! ## What each function does -/

def children (m : TreeModel) (p : Nat) : List Nat := (m.item p).elim [] TreeItem.children

section
variable {m m' : TreeModel} {p c x q r : Nat} {it : TreeItem}

theorem children_of_item (h : m.item p = some it) : m.children p = it.children := by rw [children, h]; rfl

theorem item_of_child (h : c ∈ m.children p) : ∃ it, m.item p = some it ∧ c ∈ it.children := by
  rw [children] at h
  cases hi : m.item p with
  | none =>
    rw [hi] at h
    cases h
  | some it =>
    rw [hi] at h
    exact ⟨it, rfl, h⟩

theorem item_eq_none (hx : m.next ≤ x) : m.item x = none := by
  rw [item, List.getElem?_eq_none hx]
  rfl

theorem lt_of_item (h : m.item p = some it) : p < m.next := by
  by_contra hp
  rw [item_eq_none (Nat.not_lt.1 hp)] at h
  cases h

theorem item_new (title : String) (parent : Option Nat) :
    (m.new title parent).item x = if x = m.next then some { sTitle := title, parent := parent } else m.item x := by
  unfold item new next
  by_cases hx : x < m.cells.length
  · rw [List.getElem?_append_left hx, if_neg (by omega)]
  · rw [List.getElem?_append_right (by omega)]
    by_cases heq : x = m.cells.length
    · simp [heq]
    · rw [if_neg heq, List.getElem?_eq_none (by simp; omega), List.getElem?_eq_none (by omega)]

theorem item_set {v : Option TreeItem} (hp : p < m.next) :
    (m.cells.set p v)[x]?.join = if x = p then v else m.item x := by
  unfold next at hp
  by_cases hx : x = p
  · rw [hx, List.getElem?_set_self hp, if_pos rfl]
    rfl
  · rw [List.getElem?_set_ne (Ne.symm hx), if_neg hx]
    rfl

theorem item_write (hp : p < m.next) : (m.write p it).item x = if x = p then some it else m.item x := item_set hp

theorem item_free (hp : p < m.next) : (m.free p).item x = if x = p then none else m.item x := item_set hp

@[simp] theorem next_new (title : String) (parent : Option Nat) : (m.new title parent).next = m.next + 1 :=
  List.length_append

@[simp] theorem next_write (p : Nat) (it : TreeItem) : (m.write p it).next = m.next := List.length_set

@[simp] theorem next_free (p : Nat) : (m.free p).next = m.next := List.length_set

/-- `addChild` of another node: the parent gains a last child, the child's parent link is set. -/
theorem addChild_cases (h : m.addChild p c = some m') (hne : c ≠ p) : ∃ up down,
    m.item p = some up ∧ m.item c = some down ∧ m'.root = m.root ∧ m'.next = m.next ∧
    ∀ x, m'.item x = if x = c then some { down with parent := some p }
      else if x = p then some { up with children := up.children ++ [c] } else m.item x := by
  simp only [addChild, Option.bind_eq_bind, Option.bind_eq_some_iff, Option.some.injEq] at h
  obtain ⟨up, hup, down, hdown, rfl⟩ := h
  rw [item_write (lt_of_item hup), if_neg hne] at hdown
  refine ⟨up, down, hup, hdown, rfl, by simp, fun x => ?_⟩
  rw [item_write (by rw [next_write]; exact lt_of_item hdown), item_write (lt_of_item hup)]

/-- Between two items it succeeds. -/
theorem addChild_isSome (hp : (m.item p).isSome = true) (hc : (m.item c).isSome = true) (hne : c ≠ p) :
    ∃ m', m.addChild p c = some m' := by
  obtain ⟨up, hup⟩ := Option.isSome_iff_exists.1 hp
  obtain ⟨down, hdown⟩ := Option.isSome_iff_exists.1 hc
  have hitem : (m.write p { up with children := up.children ++ [c] }).item c = some down := by
    rw [item_write (lt_of_item hup), if_neg hne, hdown]
  simp only [addChild, hup, Option.bind_eq_bind, Option.bind_some, hitem]
  exact ⟨_, rfl⟩

/-- `m'` is `m` with the items that satisfy `S` deleted. -/
structure Freed (S : Nat → Prop) (m m' : TreeModel) : Prop where
  root : m'.root = m.root
  next : m'.next = m.next
  gone : ∀ x, S x → m'.item x = none
  kept : ∀ x, ¬ S x → m'.item x = m.item x

theorem Freed.trans {S T : Nat → Prop} {m'' : TreeModel} (h : Freed S m m') (h' : Freed T m' m'') :
    Freed (fun x => S x ∨ T x) m m'' where
  root := h'.root.trans h.root
  next := h'.next.trans h.next
  gone x hx := by
    by_cases hT : T x
    · exact h'.gone x hT
    · rw [h'.kept x hT]
      exact h.gone x (hx.resolve_right hT)
  kept x hx := by
    rw [h'.kept x fun hT => hx (Or.inr hT), h.kept x fun hS => hx (Or.inl hS)]

theorem Freed.congr {S T : Nat → Prop} (h : Freed S m m') (hST : ∀ x, S x ↔ T x) : Freed T m m' where
  root := h.root
  next := h.next
  gone x hx := h.gone x ((hST x).2 hx)
  kept x hx := h.kept x fun hS => hx ((hST x).1 hS)

theorem Freed.children {S : Nat → Prop} (h : Freed S m m') (hx : ¬ S x) : m'.children x = m.children x := by
  rw [TreeModel.children, h.kept x hx, TreeModel.children]

/-- Only what is left has children, the ones it had. -/
theorem Freed.of_child {S : Nat → Prop} (h : Freed S m m') (hc : c ∈ m'.children p) : ¬ S p ∧ c ∈ m.children p := by
  by_cases hp : S p
  · rw [TreeModel.children, h.gone p hp] at hc
    cases hc
  · exact ⟨hp, h.children hp ▸ hc⟩

theorem freed_free (hp : p < m.next) : Freed (fun x => x = p) m (m.free p) where
  root := rfl
  next := next_free p
  gone x hx := by rw [item_free hp, if_pos hx]
  kept x hx := by rw [item_free hp, if_neg hx]

end

/-! ## Deleting a tree -/

section
variable {children : Nat → List Nat} {rank : Nat → Nat} {n p : Nat} {m : TreeModel}

/-- The heap holds what is within `p` as `children` says. -/
def Holds (children : Nat → List Nat) (p : Nat) (m : TreeModel) : Prop :=
  ∀ x, Forest.Within children p x → (m.item x).isSome = true ∧ m.children x = children x

/-- The loop of the destructor deletes what is within the children, whose trees do not meet. -/
theorem foldlM_destroy (hf : Forest.IsForest children)
    (hdestroy : ∀ c ∈ children p, ∀ m, Holds children c m →
      ∃ m', destroy n m c = some m' ∧ Freed (Forest.Within children c) m m') :
    ∀ (cs : List Nat) (m : TreeModel), (∀ c ∈ cs, c ∈ children p) → cs.Nodup → (∀ c ∈ cs, Holds children c m) →
      ∃ m', cs.foldlM (destroy n) m = some m' ∧ Freed (fun x => ∃ c ∈ cs, Forest.Within children c x) m m'
  | [], m, _, _, _ => ⟨m, rfl, ⟨rfl, rfl, fun x hx => by simp at hx, fun _ _ => rfl⟩⟩
  | c :: cs, m, hcs, hnd, hh => by
    obtain ⟨hc, hnd⟩ := List.nodup_cons.1 hnd
    obtain ⟨m₁, hm₁, hfree₁⟩ := hdestroy c (hcs c List.mem_cons_self) m (hh c List.mem_cons_self)
    -- deleting one child leaves the trees of its siblings alone
    have hrest : ∀ d ∈ cs, Holds children d m₁ := by
      intro d hd x hx
      have hout : ¬ Forest.Within children c x :=
        hf.not_within (hcs d (List.mem_cons_of_mem _ hd)) (hcs c List.mem_cons_self) (fun h => hc (h ▸ hd)) hx
      rw [hfree₁.kept x hout, hfree₁.children hout]
      exact hh d (List.mem_cons_of_mem _ hd) x hx
    obtain ⟨m₂, hm₂, hfree₂⟩ :=
      foldlM_destroy hf hdestroy cs m₁ (fun d hd => hcs d (List.mem_cons_of_mem _ hd)) hnd hrest
    refine ⟨m₂, ?_, (hfree₁.trans hfree₂).congr fun x => ?_⟩
    · rw [List.foldlM_cons, hm₁]
      exact hm₂
    · simp only [List.mem_cons, exists_eq_or_imp]

/-- **Deleting a tree returns**, and deletes what is within its root and nothing else. -/
theorem destroy_spec (hf : Forest.IsForest children) (hrank : ∀ p, ∀ c ∈ children p, rank c < rank p)
    (hn : rank p < n) (hh : Holds children p m) :
    ∃ m', destroy n m p = some m' ∧ Freed (Forest.Within children p) m m' := by
  induction n generalizing p m with
  | zero => omega
  | succ n ih =>
    obtain ⟨hlive, hcs⟩ := hh p Forest.Within.refl
    obtain ⟨it, hit⟩ := Option.isSome_iff_exists.1 hlive
    rw [children_of_item hit] at hcs
    obtain ⟨m₁, hm₁, hfree⟩ := foldlM_destroy (n := n) hf
      (fun c hc m hh => ih (by have := hrank p c hc; omega) hh) (children p) m (fun _ hc => hc) (hf.nodup p)
      fun c hc x hx => hh x (Forest.Within.of_below (Forest.below_iff.2 ⟨c, hc, hx⟩))
    refine ⟨m₁.free p, ?_, (hfree.trans (freed_free ?_)).congr fun x => ?_⟩
    · simp only [destroy, hit, hcs, hm₁, Option.bind_eq_bind, Option.bind_some]
    · rw [hfree.next]
      exact lt_of_item hit
    · rw [← Forest.below_iff, Forest.within_iff, or_comm, eq_comm]

end

end TreeModel

end MiniWireshark

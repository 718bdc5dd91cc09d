import Mathlib.Algebra.Group.Nat.Defs

/-!
# Host byte order, bit-field layout and bounded readers

A C struct laid over a byte buffer is read in *host* order: a `uint16_t` load puts the first
byte low on a little-endian host and high on a big-endian one, and bit-fields are allocated
from the least significant bit on the first and from the most significant on the second.
`ntohs` / `ntohl` undo the load, so the value is the big-endian one on both (`ntohs_load16`,
`ntohl_load32`).

Memory is a reader `Nat → Option UInt8`; `none` marks an offset the reader may not touch, and
a computation over a reader is `none` as soon as one such offset is read. A computation that
answers over a reader answers the same over every reader that extends it (`Ext`).
-/

/-- Byte order of the machine the program runs on. -/
inductive Host where
  | little
  | big
deriving DecidableEq, Repr

namespace Host

/-- Load of a `uint16_t` whose bytes in memory are `b0 b1`. -/
def load16 : Host → Nat → Nat → Nat
  | .little, b0, b1 => b0 + 256 * b1
  | .big, b0, b1 => 256 * b0 + b1

/-- Load of a `uint32_t` whose bytes in memory are `b0 b1 b2 b3`. -/
def load32 : Host → Nat → Nat → Nat → Nat → Nat
  | .little, b0, b1, b2, b3 => b0 + 256 * b1 + 65536 * b2 + 16777216 * b3
  | .big, b0, b1, b2, b3 => 16777216 * b0 + 65536 * b1 + 256 * b2 + b3

/-- `ntohs`: swap the two bytes on a little-endian host, identity on a big-endian one. -/
def ntohs : Host → Nat → Nat
  | .little, x => 256 * (x % 256) + x / 256
  | .big, x => x

/-- `ntohl`: reverse the four bytes on a little-endian host, identity on a big-endian one. -/
def ntohl : Host → Nat → Nat
  | .little, x => 16777216 * (x % 256) + 65536 * (x / 256 % 256) + 256 * (x / 65536 % 256) + x / 16777216
  | .big, x => x

/-- A bit-field of `width` bits declared after `off` bits of a `unit`-bit allocation unit. -/
def bitField : Host → (unit off width u : Nat) → Nat
  | .little, _, off, width, u => u / 2 ^ off % 2 ^ width
  | .big, unit, off, width, u => u / 2 ^ (unit - off - width) % 2 ^ width

theorem ntohs_load16 (h : Host) {b0 b1 : Nat} (h0 : b0 < 256) :
    h.ntohs (h.load16 b0 b1) = 256 * b0 + b1 := by
  cases h <;> simp only [ntohs, load16]; omega

theorem ntohl_load32 (h : Host) {b0 b1 b2 b3 : Nat} (h0 : b0 < 256) (h1 : b1 < 256) (h2 : b2 < 256) :
    h.ntohl (h.load32 b0 b1 b2 b3) = 16777216 * b0 + 65536 * b1 + 256 * b2 + b3 := by
  cases h <;> simp only [ntohl, load32]; omega

end Host

/-! ## Readers -/

namespace Reader

variable {rd rd' : Nat → Option UInt8} {n off x : Nat}

/-- A `uint8_t` field at offset `off`. -/
def u8 (rd : Nat → Option UInt8) (off : Nat) : Option Nat := (rd off).map UInt8.toNat

/-- A `uint16_t` field at offset `off`, as loaded. -/
def u16 (h : Host) (rd : Nat → Option UInt8) (off : Nat) : Option Nat := do
  let b0 ← u8 rd off
  let b1 ← u8 rd (off + 1)
  some (h.load16 b0 b1)

/-- A `uint32_t` field at offset `off`, as loaded. -/
def u32 (h : Host) (rd : Nat → Option UInt8) (off : Nat) : Option Nat := do
  let b0 ← u8 rd off
  let b1 ← u8 rd (off + 1)
  let b2 ← u8 rd (off + 2)
  let b3 ← u8 rd (off + 3)
  some (h.load32 b0 b1 b2 b3)

/-- `rd` answers exactly below `n`. -/
def Bounded (rd : Nat → Option UInt8) (n : Nat) : Prop := ∀ i, (rd i).isSome = true ↔ i < n

/-- `rd'` answers wherever `rd` does, with the same byte. -/
def Extends (rd' rd : Nat → Option UInt8) : Prop := ∀ i b, rd i = some b → rd' i = some b

/-- The reader answers everywhere. -/
def Total (rd : Nat → Option UInt8) : Prop := ∀ i, (rd i).isSome = true

theorem u8_lt (h : u8 rd off = some x) : x < 256 := by
  unfold u8 at h
  obtain ⟨b, _, rfl⟩ := Option.map_eq_some_iff.1 h
  exact b.toNat_lt

theorem isSome_u8 (off : Nat) (hb : Bounded rd n) : (u8 rd off).isSome = true ↔ off + 1 ≤ n := by
  rw [u8, Option.isSome_map, hb off]; omega

theorem isSome_u16 (off : Nat) (h : Host) (hb : Bounded rd n) : (u16 h rd off).isSome = true ↔ off + 2 ≤ n := by
  have h0 := isSome_u8 off hb
  have h1 := isSome_u8 (off + 1) hb
  unfold u16
  cases e0 : u8 rd off <;> cases e1 : u8 rd (off + 1) <;>
    simp only [e0, e1, Option.isSome_none, Option.isSome_some, Bool.false_eq_true, false_iff, true_iff] at h0 h1 <;>
    simp <;> omega

theorem isSome_u32 (off : Nat) (h : Host) (hb : Bounded rd n) : (u32 h rd off).isSome = true ↔ off + 4 ≤ n := by
  have h0 := isSome_u8 off hb
  have h1 := isSome_u8 (off + 1) hb
  have h2 := isSome_u8 (off + 2) hb
  have h3 := isSome_u8 (off + 3) hb
  unfold u32
  cases e0 : u8 rd off <;> cases e1 : u8 rd (off + 1) <;> cases e2 : u8 rd (off + 2) <;>
    cases e3 : u8 rd (off + 3) <;>
    simp only [e0, e1, e2, e3, Option.isSome_none, Option.isSome_some, Bool.false_eq_true, false_iff, true_iff]
      at h0 h1 h2 h3 <;>
    simp <;> omega

theorem Bounded.u8 (hb : Bounded rd n) (off : Nat) (hn : off + 1 ≤ n) : ∃ x, u8 rd off = some x :=
  Option.isSome_iff_exists.1 ((isSome_u8 off hb).2 hn)

theorem Bounded.u16 (hb : Bounded rd n) (h : Host) (off : Nat) (hn : off + 2 ≤ n) : ∃ x, u16 h rd off = some x :=
  Option.isSome_iff_exists.1 ((isSome_u16 off h hb).2 hn)

theorem Bounded.u32 (hb : Bounded rd n) (h : Host) (off : Nat) (hn : off + 4 ≤ n) : ∃ x, u32 h rd off = some x :=
  Option.isSome_iff_exists.1 ((isSome_u32 off h hb).2 hn)

/-! ### Buffers -/

section
variable {l : List UInt8} {i : Nat}

/-- The reader of a buffer. -/
def ofList (l : List UInt8) (i : Nat) : Option UInt8 := l[i]?

/-- Byte `i` of a buffer, `0` past its end. -/
def byteAt (l : List UInt8) (i : Nat) : Nat := (l[i]?.getD 0).toNat

/-- The big-endian 16- and 32-bit values at `i`. -/
def be16 (l : List UInt8) (i : Nat) : Nat := 256 * byteAt l i + byteAt l (i + 1)

def be32 (l : List UInt8) (i : Nat) : Nat :=
  16777216 * byteAt l i + 65536 * byteAt l (i + 1) + 256 * byteAt l (i + 2) + byteAt l (i + 3)

theorem byteAt_lt (l : List UInt8) (i : Nat) : byteAt l i < 256 := (l[i]?.getD 0).toNat_lt

theorem be16_lt (l : List UInt8) (i : Nat) : be16 l i < 65536 := by
  have h0 := byteAt_lt l i
  have h1 := byteAt_lt l (i + 1)
  unfold be16
  omega

theorem u8_ofList (hi : i < l.length) : u8 (ofList l) i = some (byteAt l i) := by
  simp [u8, ofList, byteAt, hi]

theorem u16_ofList (h : Host) (hi : i + 2 ≤ l.length) :
    u16 h (ofList l) i = some (h.load16 (byteAt l i) (byteAt l (i + 1))) := by
  simp (disch := omega) only [u16, u8_ofList, Option.bind_eq_bind, Option.bind_some]

theorem u32_ofList (h : Host) (hi : i + 4 ≤ l.length) :
    u32 h (ofList l) i =
      some (h.load32 (byteAt l i) (byteAt l (i + 1)) (byteAt l (i + 2)) (byteAt l (i + 3))) := by
  simp (disch := omega) only [u32, u8_ofList, Option.bind_eq_bind, Option.bind_some]

@[simp] theorem ntohs_byteAt (h : Host) (l : List UInt8) (i : Nat) :
    h.ntohs (h.load16 (byteAt l i) (byteAt l (i + 1))) = be16 l i := h.ntohs_load16 (byteAt_lt l i)

@[simp] theorem ntohl_byteAt (h : Host) (l : List UInt8) (i : Nat) :
    h.ntohl (h.load32 (byteAt l i) (byteAt l (i + 1)) (byteAt l (i + 2)) (byteAt l (i + 3))) = be32 l i :=
  h.ntohl_load32 (byteAt_lt l i) (byteAt_lt l (i + 1)) (byteAt_lt l (i + 2))

end

/-! ### Readers of all memory -/

theorem isSome_bind {α β : Type} {o : Option α} {g : α → Option β} (ho : o.isSome = true)
    (hg : ∀ x, (g x).isSome = true) : (o >>= g).isSome = true := by
  obtain ⟨x, rfl⟩ := Option.isSome_iff_exists.1 ho
  exact hg x

theorem isSome_ite {α : Type} {c : Prop} [Decidable c] {a b : Option α} (ha : a.isSome = true)
    (hb : b.isSome = true) : (if c then a else b).isSome = true := by
  split
  · exact ha
  · exact hb

theorem Total.u8 (ht : Total rd) (off : Nat) : (u8 rd off).isSome = true := by
  rw [Reader.u8, Option.isSome_map]
  exact ht off

theorem Total.u16 (ht : Total rd) (h : Host) (off : Nat) : (u16 h rd off).isSome = true :=
  isSome_bind (ht.u8 _) fun _ => isSome_bind (ht.u8 _) fun _ => rfl

theorem Total.u32 (ht : Total rd) (h : Host) (off : Nat) : (u32 h rd off).isSome = true :=
  isSome_bind (ht.u8 _) fun _ => isSome_bind (ht.u8 _) fun _ => isSome_bind (ht.u8 _) fun _ =>
    isSome_bind (ht.u8 _) fun _ => rfl

/-! ### Readers of more memory -/

section
variable {α β : Type} {o o' : Option α}

/-- `o'` answers if `o` does, with the same value. -/
def Ext (o o' : Option α) : Prop := ∀ x, o = some x → o' = some x

theorem Ext.refl (o : Option α) : Ext o o := fun _ hx => hx

theorem Ext.bind {g g' : α → Option β} (ho : Ext o o') (hg : ∀ x, Ext (g x) (g' x)) : Ext (o >>= g) (o' >>= g') := by
  intro y hy
  obtain ⟨x, hx, hy⟩ := Option.bind_eq_some_iff.1 hy
  exact Option.bind_eq_some_iff.2 ⟨x, ho x hx, hg x y hy⟩

theorem Ext.map (ho : Ext o o') (g : α → β) : Ext (o.map g) (o'.map g) := by
  intro y hy
  obtain ⟨x, hx, rfl⟩ := Option.map_eq_some_iff.1 hy
  rw [ho x hx, Option.map_some]

theorem Ext.ite {c : Prop} [Decidable c] {a a' b b' : Option α} (ha : Ext a a') (hb : Ext b b') :
    Ext (if c then a else b) (if c then a' else b') := by
  split
  · exact ha
  · exact hb

theorem Extends.u8 (he : Extends rd' rd) (off : Nat) : Ext (u8 rd off) (u8 rd' off) :=
  Ext.map (fun b hb => he off b hb) UInt8.toNat

theorem Extends.u16 (he : Extends rd' rd) (h : Host) (off : Nat) : Ext (u16 h rd off) (u16 h rd' off) :=
  (he.u8 _).bind fun _ => (he.u8 _).bind fun _ => .refl _

theorem Extends.u32 (he : Extends rd' rd) (h : Host) (off : Nat) : Ext (u32 h rd off) (u32 h rd' off) :=
  (he.u8 _).bind fun _ => (he.u8 _).bind fun _ => (he.u8 _).bind fun _ => (he.u8 _).bind fun _ => .refl _

end

end Reader

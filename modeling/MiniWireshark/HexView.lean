import MiniWireshark.Lib.Lists
import MiniWireshark.Lib.Text
import MiniWireshark.Pcap

/-!
# The hex view reads back (`Pcap.cpp:777-851`)

| here | meaning |
| --- | --- |
| `DumpLine bytes k`  | line `k` of a dump of `bytes`: offset, hex area and ASCII area |
| `asciiAt bytes i`   | what the ASCII area shows at byte `i` |
| `readDump text`     | the bytes a reader gets from the hex areas of the lines of `text` |
| `Renders bytes text` | `text` is the dump of `bytes`, line by line, and reads back as `bytes` |

The length and the loop counter of `start_hax` are `int`s: a `caplen` from `2^31` on is negative, and
above `2^31 - 16` the counter overflows.
-/

namespace MiniWireshark

open Text

/-! ## Reading a dump -/

/-- Groups of two hexadecimal digits and a blank; a blank group is skipped. -/
def readGroups : List Char → List UInt8
  | a :: b :: _ :: rest =>
    if isHexDigit a && isHexDigit b then UInt8.ofNat (16 * hexVal a + hexVal b) :: readGroups rest
    else readGroups rest
  | _ => []

/-- Past the offset and three blanks stand the 48 characters of the hex area. -/
def readLine (line : List Char) : List UInt8 := readGroups (((line.dropWhile (· ≠ ' ')).drop 3).take 48)

def readDump (text : String) : List UInt8 := (text.toList.splitOn '\n').flatMap readLine

def asciiAt (bytes : List UInt8) (i : Nat) : Char :=
  match bytes[i]? with
  | some c => if 32 ≤ c ∧ c ≤ 126 then Char.ofNat c.toNat else '.'
  | none => ' '

/-- Line `k` of a dump of `bytes`. -/
structure DumpLine (bytes : List UInt8) (k : Nat) where
  offset : List Char
  hex : List Char
  ascii : List Char
  four_digits : 4 ≤ offset.length
  offset_digits : ∀ c ∈ offset, isHexDigit c = true
  offset_value : hexNum offset = 16 * k
  hex_length : hex.length = 48
  hex_chars : ∀ c ∈ hex, isHexDigit c = true ∨ c = ' '
  hex_reads : readGroups hex = (bytes.drop (16 * k)).take 16
  ascii_length : ascii.length = 16
  ascii_at : ∀ j < 16, ascii[j]? = some (asciiAt bytes (16 * k + j))

namespace DumpLine

variable {bytes : List UInt8} {k : Nat}

def body (l : DumpLine bytes k) : List Char :=
  l.offset ++ [' ', ' ', ' '] ++ l.hex ++ [' ', ' ', ' ', ' ', ' '] ++ l.ascii

def text (l : DumpLine bytes k) : String := String.ofList (l.body ++ ['\n'])

end DumpLine

/-- The text consists of the dump lines of `bytes`, one for every 16 bytes begun, and reads back. -/
def Renders (bytes : List UInt8) (text : String) : Prop :=
  ∃ line : (k : Nat) → DumpLine bytes k,
    text = String.join ((List.range ((bytes.length + 15) / 16)).map fun k => (line k).text) ∧
    text.toList.splitOn '\n' = (List.range ((bytes.length + 15) / 16)).map (fun k => (line k).body) ++ [[]] ∧
    readDump text = bytes

/-! ## Characters -/

section
variable {bytes : List UInt8} {k i : Nat}

theorem isHexDigit_ne_blank {c : Char} (hc : isHexDigit c = true) : c ≠ ' ' ∧ c ≠ '\n' := by
  constructor <;> rintro rfl <;> revert hc <;> decide

theorem toNat_ofNat_byte (c : UInt8) : (Char.ofNat c.toNat).toNat = c.toNat := by
  have hc := c.toNat_lt
  have hv : c.toNat.isValidChar := .inl (by omega)
  rw [Char.ofNat, dif_pos hv]
  rfl

/-- A blank is shown for a captured blank or past the last byte only. -/
theorem asciiAt_eq_blank (h : asciiAt bytes i = ' ') : bytes[i]? = some 0x20 ∨ bytes[i]? = none := by
  unfold asciiAt at h
  split at h
  · rename_i c hc
    left
    split at h
    · have hval := congrArg Char.toNat h
      rw [toNat_ofNat_byte] at hval
      rw [hc, Option.some.injEq, ← UInt8.toNat_inj]
      exact hval
    · exact absurd h (by decide)
  · rename_i hc
    exact .inr hc

theorem asciiAt_ne_newline : asciiAt bytes i ≠ '\n' := by
  unfold asciiAt
  split
  · rename_i c hc
    split
    · rename_i hp
      intro h
      have hval := congrArg Char.toNat h
      rw [toNat_ofNat_byte] at hval
      have hle := UInt8.le_iff_toNat_le.1 hp.1
      rw [hval] at hle
      exact absurd hle (by decide)
    · decide
  · decide

end

/-! ## Numbers as `arg` formats them -/

section
variable (width n : Nat)

theorem toList_hexArg : (hexArg width n).toList =
    List.replicate (width - (Nat.toDigits 16 n).length) '0' ++ Nat.toDigits 16 n := String.toList_ofList

theorem length_toList_hexArg : (hexArg width n).toList.length = max width (Nat.toDigits 16 n).length := by
  rw [toList_hexArg, List.length_append, List.length_replicate]
  omega

theorem hexNum_hexArg : hexNum (hexArg width n).toList = n := by
  rw [toList_hexArg, hexNum_replicate_append, hexNum_toDigits]

theorem isHexDigit_of_mem_hexArg {c : Char} (hc : c ∈ (hexArg width n).toList) : isHexDigit c = true := by
  rw [toList_hexArg] at hc
  rcases List.mem_append.1 hc with hc | hc
  · rw [List.eq_of_mem_replicate hc]
    rfl
  · exact isHexDigit_of_mem_toDigits hc

end

/-- A byte is shown as two digits of its value. -/
theorem hexArg_byte (c : UInt8) : ∃ a b, (hexArg 2 c.toNat).toList = [a, b] ∧ isHexDigit a = true ∧
    isHexDigit b = true ∧ 16 * hexVal a + hexVal b = c.toNat := by
  have hlen : (Nat.toDigits 16 c.toNat).length ≤ 2 := (Nat.length_toDigits_le_iff (by decide) (by decide)).2 c.toNat_lt
  have htwo : (hexArg 2 c.toNat).toList.length = 2 := by
    rw [length_toList_hexArg, Nat.max_eq_left hlen]
  obtain ⟨a, b, hab⟩ := List.length_eq_two.1 htwo
  have hdigit (x : Char) (hx : x ∈ [a, b]) : isHexDigit x = true :=
    isHexDigit_of_mem_hexArg 2 c.toNat (by rw [hab]; exact hx)
  have hval := hexNum_hexArg 2 c.toNat
  rw [hab] at hval
  refine ⟨a, b, hab, hdigit a (by simp), hdigit b (by simp), ?_⟩
  simpa [hexNum] using hval

/-! ## One line -/

section
variable (bytes : List UInt8) (i : Nat)

/-- The two texts the inner loop adds at position `i`. -/
def cellOf : String × String :=
  match bytes[i]? with
  | some c => (hexArg 2 c.toNat ++ " ", asciiCell c)
  | none => ("   ", " ")

theorem toList_cellOf_snd : (cellOf bytes i).2.toList = [asciiAt bytes i] := by
  unfold cellOf asciiAt
  cases bytes[i]? with
  | none => rfl
  | some c =>
    simp only [asciiCell]
    split
    · exact String.toList_singleton _
    · rfl

theorem length_cellOf_fst : (cellOf bytes i).1.toList.length = 3 := by
  unfold cellOf
  cases bytes[i]? with
  | none => rfl
  | some c =>
    obtain ⟨a, b, hab, _⟩ := hexArg_byte c
    simp only [String.toList_append, hab]
    rfl

theorem mem_cellOf_fst {c : Char} (hc : c ∈ (cellOf bytes i).1.toList) : isHexDigit c = true ∨ c = ' ' := by
  unfold cellOf at hc
  cases hb : bytes[i]? with
  | none =>
    rw [hb] at hc
    exact .inr (List.eq_of_mem_replicate (n := 3) hc)
  | some b =>
    rw [hb, String.toList_append] at hc
    rcases List.mem_append.1 hc with hc | hc
    · exact .inl (isHexDigit_of_mem_hexArg 2 b.toNat hc)
    · exact .inr (List.mem_singleton.1 hc)

/-- Reading a cell gives the byte there, or nothing past the last one. -/
theorem readGroups_cellOf (rest : List Char) :
    readGroups ((cellOf bytes i).1.toList ++ rest) = bytes[i]?.toList ++ readGroups rest := by
  unfold cellOf
  cases bytes[i]? with
  | none => rfl
  | some c =>
    obtain ⟨a, b, hab, ha, hb, hval⟩ := hexArg_byte c
    simp only [String.toList_append, hab]
    rw [show " ".toList = [' '] from rfl]
    simp only [List.cons_append, List.nil_append, readGroups, ha, hb, Bool.and_self, if_true, hval,
      UInt8.ofNat_toNat, Option.toList_some]

end

variable {bytes : List UInt8}

/-- Reading `m` cells from position `s` on gives the bytes there. -/
theorem readGroups_cells (s m : Nat) :
    readGroups ((List.range' s m).flatMap fun i => (cellOf bytes i).1.toList) = (bytes.drop s).take m := by
  induction m generalizing s with
  | zero => simp [readGroups]
  | succ m ih =>
    rw [List.range'_succ, List.flatMap_cons, readGroups_cellOf, ih]
    by_cases hs : s < bytes.length
    · rw [List.getElem?_eq_getElem hs, List.drop_eq_getElem_cons hs, List.take_succ_cons]
      rfl
    · rw [List.getElem?_eq_none (by omega), List.drop_eq_nil_of_le (by omega), List.drop_eq_nil_of_le (by omega)]
      simp

theorem length_cells (s m : Nat) :
    ((List.range' s m).flatMap fun i => (cellOf bytes i).1.toList).length = 3 * m := by
  rw [List.length_flatMap, List.map_congr_left fun i _ => length_cellOf_fst bytes i]
  simp [Nat.mul_comm]

/-- The line of a dump of `bytes` at offset `16 * k`. -/
def dumpLine (bytes : List UInt8) (k : Nat) : DumpLine bytes k where
  offset := (hexArg 4 (16 * k)).toList
  hex := (List.range' (16 * k) 16).flatMap fun i => (cellOf bytes i).1.toList
  ascii := (List.range' (16 * k) 16).map (asciiAt bytes)
  four_digits := by rw [length_toList_hexArg]; exact Nat.le_max_left _ _
  offset_digits _ hc := isHexDigit_of_mem_hexArg 4 (16 * k) hc
  offset_value := hexNum_hexArg 4 (16 * k)
  hex_length := length_cells (16 * k) 16
  hex_chars c hc := by
    obtain ⟨i, _, hi⟩ := List.mem_flatMap.1 hc
    exact mem_cellOf_fst bytes i hi
  hex_reads := readGroups_cells (16 * k) 16
  ascii_length := by rw [List.length_map, List.length_range']
  ascii_at j hj := by
    rw [List.getElem?_map, List.getElem?_range' hj]
    simp

/-! ## The code -/

/-- The inner loop at position `i`. -/
theorem hexCell_eq {data : List UInt8} {n : Nat} (hn : n ≤ data.length) (i : Nat) :
    hexCell data n i = some (cellOf (data.take n) i) := by
  unfold hexCell cellOf
  by_cases hi : i < n
  · rw [if_pos (by omega), List.getElem?_take_of_lt hi, List.getElem?_eq_getElem (by omega)]
    rfl
  · rw [if_neg (by omega), List.getElem?_eq_none (by rw [List.length_take]; omega)]

/-- The outer loop at offset `16 * k`: the hex area is already 48 characters wide. -/
theorem hexLine_eq {data : List UInt8} {n : Nat} (hn : n ≤ data.length) (k : Nat) :
    hexLine data n (16 * k) = some (dumpLine (data.take n) k).text := by
  have hcells : ((List.range 16).mapM fun j => hexCell data n (16 * k + j)) =
      some ((List.range 16).map fun j => cellOf (data.take n) (16 * k + j)) :=
    Lists.mapM_eq_map fun j _ => hexCell_eq hn (16 * k + j)
  have hrange : List.range' (16 * k) 16 = (List.range 16).map (16 * k + ·) := List.range'_eq_map_range
  have hhex : (String.join (((List.range 16).map fun j => cellOf (data.take n) (16 * k + j)).map Prod.fst)).toList =
      (dumpLine (data.take n) k).hex := by
    simp only [dumpLine, hrange, String.toList_join, List.map_map, List.flatMap_map, Function.comp_def]
  have hascii : (String.join (((List.range 16).map fun j => cellOf (data.take n) (16 * k + j)).map Prod.snd)).toList =
      (dumpLine (data.take n) k).ascii := by
    simp only [dumpLine, hrange, String.toList_join, List.map_map, List.flatMap_map, Function.comp_def,
      toList_cellOf_snd, ← List.map_eq_flatMap]
  have hjust (s : String) (hs : s.toList.length = 48) : leftJustified 48 s = s := by
    rw [leftJustified, ← String.length_toList, hs]
    exact String.append_empty
  rw [hexLine, hcells]
  simp only [Option.bind_eq_bind, Option.bind_some, Option.some.injEq]
  rw [hjust _ (by rw [hhex]; exact (dumpLine _ k).hex_length), ← String.toList_inj]
  simp only [String.toList_append, hhex, hascii, DumpLine.text, DumpLine.body, String.toList_ofList]
  rfl

/-! ## The whole dump -/

namespace DumpLine

variable {k : Nat}

theorem newline_not_mem_body (l : DumpLine bytes k) : '\n' ∉ l.body := by
  intro hm
  simp only [body, List.mem_append] at hm
  rcases hm with (((hm | hm) | hm) | hm) | hm
  · exact (isHexDigit_ne_blank (l.offset_digits _ hm)).2 rfl
  · revert hm
    decide
  · rcases l.hex_chars _ hm with hd | hb
    · exact (isHexDigit_ne_blank hd).2 rfl
    · revert hb
      decide
  · revert hm
    decide
  · obtain ⟨j, hj⟩ := List.mem_iff_getElem?.1 hm
    have hlt : j < 16 := by
      rw [← l.ascii_length]
      exact (List.getElem?_eq_some_iff.1 hj).1
    rw [l.ascii_at j hlt, Option.some.injEq] at hj
    exact asciiAt_ne_newline hj

/-- A line reads back as its bytes. -/
theorem readLine_body (l : DumpLine bytes k) : readLine l.body = (bytes.drop (16 * k)).take 16 := by
  have hoff : ∀ c ∈ l.offset, decide (c ≠ ' ') = true := by
    intro c hc
    exact decide_eq_true (isHexDigit_ne_blank (l.offset_digits c hc)).1
  have hdrop : l.body.dropWhile (· ≠ ' ') = [' ', ' ', ' '] ++ (l.hex ++ ([' ', ' ', ' ', ' ', ' '] ++ l.ascii)) := by
    simp only [body, List.append_assoc]
    rw [List.dropWhile_append_of_pos hoff]
    rfl
  rw [readLine, hdrop, ← l.hex_reads]
  congr 1
  rw [show ([' ', ' ', ' '] ++ (l.hex ++ ([' ', ' ', ' ', ' ', ' '] ++ l.ascii))).drop 3 =
    l.hex ++ ([' ', ' ', ' ', ' ', ' '] ++ l.ascii) from rfl, ← l.hex_length, List.take_left']
  rfl

end DumpLine

/-- Lines that end in a newline and hold no other one are what splitting there gives. -/
theorem splitOn_lines (bodies : List (List Char)) (h : ∀ b ∈ bodies, '\n' ∉ b) :
    (bodies.flatMap fun b => b ++ ['\n']).splitOn '\n' = bodies ++ [[]] := by
  induction bodies with
  | nil => rfl
  | cons b bodies ih =>
    rw [List.flatMap_cons, List.append_assoc, List.singleton_append,
      List.splitOn_append_cons_self_of_not_mem (h b List.mem_cons_self),
      ih fun b' hb' => h b' (List.mem_cons_of_mem b hb'), List.cons_append]

/-- A text made of the dump lines of `bytes` renders them. -/
theorem renders_lines (bytes : List UInt8) :
    Renders bytes (String.join ((List.range ((bytes.length + 15) / 16)).map fun k => (dumpLine bytes k).text)) := by
  have hsplit : (String.join ((List.range ((bytes.length + 15) / 16)).map fun k => (dumpLine bytes k).text)).toList.splitOn
      '\n' = (List.range ((bytes.length + 15) / 16)).map (fun k => (dumpLine bytes k).body) ++ [[]] := by
    rw [← splitOn_lines _ ?_]
    · simp only [String.toList_join, List.flatMap_map, DumpLine.text, String.toList_ofList]
    · intro b hb
      obtain ⟨k, _, rfl⟩ := List.mem_map.1 hb
      exact (dumpLine bytes k).newline_not_mem_body
  refine ⟨dumpLine bytes, rfl, hsplit, ?_⟩
  rw [readDump, hsplit, List.flatMap_append, List.flatMap_map]
  simp only [DumpLine.readLine_body, Lists.flatMap_pieces, List.flatMap_singleton]
  rw [List.take_of_length_le (by omega), show readLine [] = [] from rfl, List.append_nil]

/-- **The hex view is a faithful rendering.** For every entry found with data and at least `caplen` bytes
of it, where `int` holds the length and the loop counter, `start_hax` gives the dump of the first
`caplen` bytes, line by line, and reading its hex groups gives back exactly these. -/
theorem start_hax_renders {p : Pcap} {idx : Int} {e : Entry} (hf : p.find idx = some e) (hd : e.dump.data ≠ [])
    (hle : e.dump.header.caplen.toNat ≤ e.dump.data.length) (hint : e.dump.header.caplen.toNat ≤ 2147483632) :
    (∃ text, p.startHax idx = some text ∧ Renders (e.dump.data.take e.dump.header.caplen.toNat) text) ∧
      ∀ i, asciiAt (e.dump.data.take e.dump.header.caplen.toNat) i = ' ' →
        (e.dump.data.take e.dump.header.caplen.toNat)[i]? = some 0x20 ∨
          (e.dump.data.take e.dump.header.caplen.toNat)[i]? = none := by
  refine ⟨⟨_, ?_, renders_lines _⟩, fun i hi => asciiAt_eq_blank hi⟩
  have hlen : toI32 e.dump.header.caplen.toNat = (e.dump.header.caplen.toNat : Int) := toI32_of_range (by omega)
  have hlines : ((List.range ((e.dump.header.caplen.toNat + 15) / 16)).mapM fun k =>
      hexLine e.dump.data e.dump.header.caplen.toNat (16 * k)) =
      some ((List.range ((e.dump.header.caplen.toNat + 15) / 16)).map fun k =>
        (dumpLine (e.dump.data.take e.dump.header.caplen.toNat) k).text) :=
    Lists.mapM_eq_map fun k _ => hexLine_eq hle k
  have hempty : e.dump.data.isEmpty = false := by simpa using hd
  have htake : (e.dump.data.take e.dump.header.caplen.toNat).length = e.dump.header.caplen.toNat := by
    rw [List.length_take]
    exact Nat.min_eq_left hle
  rw [htake, Pcap.startHax, hf]
  simp only [hexDump, hempty, Bool.false_eq_true, if_false, hlen, Int.toNat_natCast, hlines, Option.bind_eq_bind,
    Option.bind_some]

/-- One stored entry of 20 bytes. -/
def twentyBytes : Entry :=
  ⟨⟨7, { caplen := 20, len := 20 }, (List.range 20).map fun i => UInt8.ofNat (i + 60)⟩, .file 0⟩

/-- It is shown in two lines. -/
theorem start_hax_renders_twenty : ∃ text, Pcap.startHax { vecDump := [twentyBytes] } 7 = some text ∧
    Renders ((List.range 20).map fun i => UInt8.ofNat (i + 60)) text := by
  have hf : Pcap.find { vecDump := [twentyBytes] } 7 = some twentyBytes := by decide
  exact (start_hax_renders hf (by decide) (by decide) (by decide)).1

/-- A `caplen` that is negative as an `int` gives no line at all. -/
theorem startHax_of_huge {p : Pcap} {idx : Int} {e : Entry} (hf : p.find idx = some e) (hd : e.dump.data ≠ [])
    (hcap : 2147483648 ≤ e.dump.header.caplen.toNat) : p.startHax idx = some "" := by
  have hlt := e.dump.header.caplen.toNat_lt
  have hlen : (toI32 e.dump.header.caplen.toNat).toNat = 0 := by
    unfold toI32
    omega
  have hempty : e.dump.data.isEmpty = false := by simpa using hd
  rw [Pcap.startHax, hf]
  simp only [hexDump, hempty, Bool.false_eq_true, if_false, hlen]
  rfl

/-- An entry whose `caplen` an `int` does not hold. -/
def hugeEntry : Entry :=
  ⟨⟨7, { caplen := 2147483648, len := 2147483648 }, List.replicate 2147483648 0⟩, .file 0⟩

/-- Not one line is shown of it. -/
theorem start_hax_misses_huge : ∃ p e, Pcap.find p 7 = some e ∧ e.dump.data ≠ [] ∧
    e.dump.header.caplen.toNat ≤ e.dump.data.length ∧
    ¬ ∃ text, p.startHax 7 = some text ∧ Renders (e.dump.data.take e.dump.header.caplen.toNat) text := by
  have hdata : hugeEntry.dump.data = List.replicate 2147483648 0 := rfl
  have hcap : hugeEntry.dump.header.caplen.toNat = 2147483648 := rfl
  have hlen : hugeEntry.dump.data.length = 2147483648 := by rw [hdata, List.length_replicate]
  have hne : hugeEntry.dump.data ≠ [] := by
    intro he
    rw [he] at hlen
    cases hlen
  have hnum : ((hugeEntry.dump.pktNum : Nat) : Int) = 7 := rfl
  have hf : Pcap.find { vecDump := [hugeEntry] } 7 = some hugeEntry := by
    simp only [Pcap.find, List.isEmpty_nil, if_true, List.reverse_singleton, List.find?_singleton, hnum, decide_true]
  refine ⟨{ vecDump := [hugeEntry] }, hugeEntry, hf, hne, Nat.le_of_eq (hcap.trans hlen.symm), ?_⟩
  rintro ⟨text, ht, _, _, _, hread⟩
  rw [startHax_of_huge hf hne (Nat.le_of_eq hcap.symm), Option.some.injEq] at ht
  -- the empty text reads back as no byte at all
  subst ht
  have hnil := congrArg List.length hread
  rw [List.length_take, hcap, hlen, show readDump "" = [] from rfl] at hnil
  cases hnil

end MiniWireshark

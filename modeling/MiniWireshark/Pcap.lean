import MiniWireshark.Capture
import MiniWireshark.Decode

/-!
# The `Pcap` object: stored packets, file reading, saving and the hex view (`Pcap.cpp`)

| here | there |
| --- | --- |
| `Pcap`                     | the members of `Pcap` the operations read (`Pcap.h:114-132`); `p_Wk` and `p_pcap` are never read back |
| `Worker.myPacketHandler`   | `Worker::my_packet_handler`: the two messages it posts, or nothing (`Pcap.cpp:21-257`) |
| `Pcap.packetFunc`          | `Pcap::packet_func` (`:534-748`) |
| `Pcap.pcapFileRead`        | the read loop of `Pcap::pcapFile_Read` (`:465-493`), on the frames `pcap_next_ex` returns |
| `Pcap.find`                | the lookup loops of `start_hax` and `start_tree_md` (`:777-800`, `:858-883`) |
| `hexDump`, `startHax`      | `Pcap::start_hax` (`:777-851`), `none` when it indexes past `data` |
| `pcapDump`, `saveMd`       | `pcap_dump` as `Pcap::save_md` calls it (`:495-532`), `none` for a read past `data` |
| `Entry.src`                | ghost, as `Row.src` |

The header reader is a parameter of both handlers: `Frame.read` is the compiled program,
`Frame.peek` the one that may not leave the captured buffer. Packet numbers are naturals for the
`int` counters, which is the same while fewer than `2 ^ 31` packets are accepted.
-/

namespace MiniWireshark

/-- An element of `vec_dump`. -/
structure Entry where
  dump : DumpData
  src : Source
deriving DecidableEq, Repr

structure Pcap where
  wkLife : Bool := false
  /-- The cached handle, named by the worker that opened it. -/
  wkPp : Option Nat := none
  md : Capture := {}
  num : Nat := 0
  vecDump : List Entry := []
  vecDumpFile : List Entry := []
  stopFlag : Bool := false
  wkFlag : Bool := false
deriving DecidableEq, Repr

/-! ## Storing a packet -/

/-- `QByteArray(packet, size)`: copies `size` bytes from the packet pointer. -/
def Frame.qByteArray (f : Frame) (size : Nat) : List UInt8 := (List.range size).map f.mem

/-- `st_dump`: the bytes are copied by `header->len`. -/
def Frame.dump (f : Frame) (num : Nat) : DumpData :=
  { pktNum := num, header := f.header, data := f.qByteArray f.header.len.toNat }

/-- What `Worker::my_packet_handler` posts for a frame: the arguments of `update_md` and
`dump_push_back`, or `none` when it rejects the frame. -/
def Worker.myPacketHandler (h : Host) (rd : Nat → Option UInt8) (num : Nat) (f : Frame) :
    Option (Option (StPkt × DumpData)) := do
  match ← decode h rd f.header.caplen.toNat with
  | none => some none
  | some pkt => some (some ({ pkt with num := num }, f.dump num))

namespace Pcap

/-- `Pcap::packet_func`. -/
def packetFunc (h : Host) (rd : Frame → Nat → Option UInt8) (src : Source) (p : Pcap) (f : Frame) : Option Pcap := do
  match ← decode h (rd f) f.header.caplen.toNat with
  | none => some p
  | some pkt => some { p with
      num := p.num + 1
      md := p.md.updateMd ⟨{ pkt with num := p.num }, src⟩
      vecDump := p.vecDump ++ [⟨f.dump p.num, src⟩] }

/-- `Pcap::pcapFile_Read`, once the file is open: every frame up to the first `pcap_next_ex`
result other than `1`, then the counter restarts. -/
def pcapFileRead (h : Host) (src : Source) (p : Pcap) (frames : List Frame) : Option Pcap := do
  let p' ← frames.foldlM (packetFunc h Frame.read src) p
  some { p' with num := 0 }

/-! ## Looking a packet up -/

/-- The lookup loop: the last entry with the number, in `vec_dump_file` if that is not empty. -/
def find (p : Pcap) (idx : Int) : Option Entry :=
  (if p.vecDumpFile.isEmpty then p.vecDump else p.vecDumpFile).reverse.find? fun v => (v.dump.pktNum : Int) = idx

section
variable {p : Pcap} {idx : Int} {e : Entry}

theorem mem_of_find (hf : p.find idx = some e) : (e ∈ p.vecDump ∨ e ∈ p.vecDumpFile) ∧ (e.dump.pktNum : Int) = idx := by
  have hmem := List.mem_reverse.1 (List.mem_of_find?_eq_some hf)
  have hkey := List.find?_some hf
  refine ⟨?_, of_decide_eq_true hkey⟩
  split at hmem
  · exact Or.inl hmem
  · exact Or.inr hmem

theorem mem_vecDump_of_find (hfile : p.vecDumpFile = []) (hf : p.find idx = some e) : e ∈ p.vecDump := by
  have hmem := (mem_of_find hf).1
  rw [hfile] at hmem
  exact hmem.resolve_right List.not_mem_nil

theorem isSome_find_iff (hfile : p.vecDumpFile = []) :
    (p.find idx).isSome = true ↔ ∃ e ∈ p.vecDump, (e.dump.pktNum : Int) = idx := by
  simp [find, hfile]

end

end Pcap

/-! ## The hex view -/

/-- `QString::arg(n, width, 16, '0')`. -/
def hexArg (width n : Nat) : String :=
  let ds := Nat.toDigits 16 n
  String.ofList (List.replicate (width - ds.length) '0' ++ ds)

/-- `QChar(c)` for a printable byte, `'.'` otherwise. -/
def asciiCell (c : UInt8) : String :=
  if 32 ≤ c ∧ c ≤ 126 then String.singleton (Char.ofNat c.toNat) else "."

/-- One pass of the inner loop: the hex and ascii text for position `i + j`. -/
def hexCell (data : List UInt8) (len : Int) (k : Nat) : Option (String × String) :=
  if (k : Int) < len then do
    let c ← data[k]?
    some (hexArg 2 c.toNat ++ " ", asciiCell c)
  else some ("   ", " ")

/-- `QString::leftJustified(48, ' ')`. -/
def leftJustified (width : Nat) (s : String) : String :=
  s ++ String.ofList (List.replicate (width - s.length) ' ')

/-- One pass of the outer loop, at offset `i`. -/
def hexLine (data : List UInt8) (len : Int) (i : Nat) : Option String := do
  let cells ← (List.range 16).mapM fun j => hexCell data len (i + j)
  some (hexArg 4 i ++ "   " ++ leftJustified 48 (String.join (cells.map Prod.fst)) ++ "     "
    ++ String.join (cells.map Prod.snd) ++ "\n")

/-- The body of `start_hax` on the entry found. `int len` is `header.caplen` converted; the loop counter
is an `int` too, which a `len` above `2^31 - 16` overflows. -/
def hexDump (d : DumpData) : Option String :=
  if d.data.isEmpty then some "-" else do
    let len := toI32 d.header.caplen.toNat
    let lines ← (List.range ((len.toNat + 15) / 16)).mapM fun k => hexLine d.data len (16 * k)
    some (String.join lines)

/-- `Pcap::start_hax`: without a match `d_data` keeps its empty `data`. -/
def Pcap.startHax (p : Pcap) (idx : Int) : Option String :=
  match p.find idx with
  | some v => hexDump v.dump
  | none => some "-"

/-! ## Saving -/

/-- A record of a capture file. -/
structure Record where
  header : PcapPkthdr
  bytes : List UInt8
deriving DecidableEq, Repr

/-- `pcap_dump` reads the header and exactly `caplen` bytes. -/
def pcapDump (d : DumpData) : Option Record := do
  let bytes ← (List.range d.header.caplen.toNat).mapM fun i => d.data[i]?
  some ⟨d.header, bytes⟩

/-- `Pcap::save_md`: the records handed to `pcap_dump`, or `none` if it returns before its loop.
`opens` is whether `pcap_open_dead` and `pcap_dump_open` succeed. -/
def Pcap.saveMd (p : Pcap) (opens : Bool) : Option (List (Option Record)) :=
  if p.vecDump.isEmpty ∨ p.stopFlag = false then none
  else if opens then some (p.vecDump.map fun v => pcapDump v.dump)
  else none

end MiniWireshark

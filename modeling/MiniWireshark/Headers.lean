import MiniWireshark.Lib.HostOrder

/-!
# Headers and records (`Struct_in.h`, `PlatformCompat.h`, `Pcap.h`)

| here | there |
| --- | --- |
| `sizeofEH` … `sizeofTcpH`   | `sizeof` of the packed structs (`Struct_in.h:26-122`) |
| `EH`, `IpH`, `TcpH`, …      | the fields that are read, as loads at their packed offsets |
| `StPkt`                     | `st_pkt` (`Struct_in.h:13-22`), one row of the packet list |
| `PcapPkthdr`, `DumpData`    | `pcap_pkthdr`, `dump_data` (`Pcap.h:14-20`) |
| `Frame`                     | what libpcap hands a callback: header, `caplen` bytes, and the memory after them |
| `toU32`, `toI32`            | conversions to `uint32_t` and back to `int` |

The `int` packet counters are natural numbers: `2^31` stored packets do not fit in memory.
-/

namespace MiniWireshark

open Reader

abbrev sizeofEH : Nat := 14
abbrev sizeofIpH : Nat := 20
abbrev sizeofTcpH : Nat := 20

/-! ## Fields, relative to the start `b` of their struct -/

/-- `e_H::ether_type`. -/
def EH.etherType (h : Host) (rd : Nat → Option UInt8) (b : Nat) : Option Nat := u16 h rd (b + 12)

namespace IpH
variable (h : Host) (rd : Nat → Option UInt8) (b : Nat)

/-- `ihl:4`, declared first on a little-endian host and second on a big-endian one. -/
def ihl : Option Nat :=
  (u8 rd b).map fun u => match h with
    | .little => h.bitField 8 0 4 u
    | .big => h.bitField 8 4 4 u

/-- `version:4`, the other nibble. -/
def version : Option Nat :=
  (u8 rd b).map fun u => match h with
    | .little => h.bitField 8 4 4 u
    | .big => h.bitField 8 0 4 u

def tos : Option Nat := u8 rd (b + 1)
def totLen : Option Nat := u16 h rd (b + 2)
def id : Option Nat := u16 h rd (b + 4)
def fragOff : Option Nat := u16 h rd (b + 6)
def ttl : Option Nat := u8 rd (b + 8)
def protocol : Option Nat := u8 rd (b + 9)
def check : Option Nat := u16 h rd (b + 10)

end IpH

/-- `inet_ntoa` of the four bytes of an `in_addr` in memory order. -/
def inetNtoa (b0 b1 b2 b3 : Nat) : String :=
  toString b0 ++ "." ++ toString b1 ++ "." ++ toString b2 ++ "." ++ toString b3

/-- `inet_ntoa(*(struct in_addr *)p)`. -/
def readInAddr (rd : Nat → Option UInt8) (p : Nat) : Option String := do
  let b0 ← u8 rd p
  let b1 ← u8 rd (p + 1)
  let b2 ← u8 rd (p + 2)
  let b3 ← u8 rd (p + 3)
  some (inetNtoa b0 b1 b2 b3)

namespace IpH

/-- `inet_ntoa(saddr)`. -/
def saddr (rd : Nat → Option UInt8) (b : Nat) : Option String := readInAddr rd (b + 12)
/-- `inet_ntoa(daddr)`. -/
def daddr (rd : Nat → Option UInt8) (b : Nat) : Option String := readInAddr rd (b + 16)

end IpH

/-- The eight control bits of `tcp_H`. -/
structure TcpFlags where
  fin : Bool
  syn : Bool
  rst : Bool
  psh : Bool
  ack : Bool
  urg : Bool
  ece : Bool
  cwr : Bool
deriving DecidableEq, Repr

namespace TcpH
variable (h : Host) (rd : Nat → Option UInt8) (b : Nat)

def source : Option Nat := u16 h rd b
def dest : Option Nat := u16 h rd (b + 2)
def seq : Option Nat := u32 h rd (b + 4)
def ackSeq : Option Nat := u32 h rd (b + 8)
def window : Option Nat := u16 h rd (b + 14)

/-- The `uint16_t` unit that holds `res1`, `doff` and the flags. -/
def bits : Option Nat := u16 h rd (b + 12)

/-- `doff:4`: after `res1:4` on a little-endian host, first on a big-endian one. -/
def doff : Option Nat :=
  (bits h rd b).map fun u => match h with
    | .little => h.bitField 16 4 4 u
    | .big => h.bitField 16 0 4 u

/-- `res1:4`, the other nibble of the first byte. -/
def res1 : Option Nat :=
  (bits h rd b).map fun u => match h with
    | .little => h.bitField 16 0 4 u
    | .big => h.bitField 16 4 4 u

/-- `fin … cwr` on a little-endian host, `cwr … fin` on a big-endian one, after the first byte. -/
def flags : Option TcpFlags :=
  (bits h rd b).map fun u =>
    let bit off := h.bitField 16 off 1 u == 1
    match h with
    | .little => ⟨bit 8, bit 9, bit 10, bit 11, bit 12, bit 13, bit 14, bit 15⟩
    | .big => ⟨bit 15, bit 14, bit 13, bit 12, bit 11, bit 10, bit 9, bit 8⟩

end TcpH

namespace UdpH
variable (h : Host) (rd : Nat → Option UInt8) (b : Nat)

def source : Option Nat := u16 h rd b
def dest : Option Nat := u16 h rd (b + 2)
def len : Option Nat := u16 h rd (b + 4)

end UdpH

namespace IcmpH
variable (h : Host) (rd : Nat → Option UInt8) (b : Nat)

def type : Option Nat := u8 rd b
def code : Option Nat := u8 rd (b + 1)
/-- `un.echo.id`. -/
def echoId : Option Nat := u16 h rd (b + 4)
/-- `un.echo.sequence`. -/
def echoSequence : Option Nat := u16 h rd (b + 6)

end IcmpH

/-! ## Records -/

/-- `st_pkt`. -/
structure StPkt where
  num : Nat := 0
  src : String := ""
  dst : String := ""
  proto : String := ""
  len : Nat := 0
  info : String := ""
deriving DecidableEq, Repr

/-- `struct pcap_pkthdr`. -/
structure PcapPkthdr where
  tvSec : Int := 0
  tvUsec : Int := 0
  caplen : UInt32
  len : UInt32
deriving DecidableEq, Repr

/-- `dump_data`. -/
structure DumpData where
  pktNum : Nat
  header : PcapPkthdr
  data : List UInt8
deriving DecidableEq, Repr

/-- A packet as `pcap_loop` or `pcap_next_ex` delivers it: `packet` points at exactly `caplen`
bytes, and `after` is whatever memory follows them. Nothing relates `caplen` and `len`. -/
structure Frame where
  header : PcapPkthdr
  packet : List UInt8
  captured : packet.length = header.caplen.toNat
  after : Nat → UInt8

namespace Frame

/-- The byte at `packet[i]`, inside or past the captured buffer. -/
def mem (f : Frame) (i : Nat) : UInt8 := f.packet[i]?.getD (f.after (i - f.packet.length))

/-- Bounds-checked indexing of the captured buffer. -/
def peek (f : Frame) (i : Nat) : Option UInt8 := f.packet[i]?

/-- Indexing as the compiled program does it. -/
def read (f : Frame) (i : Nat) : Option UInt8 := some (f.mem i)

theorem mem_of_lt (f : Frame) {i : Nat} (h : i < f.packet.length) : f.mem i = f.packet[i] := by
  simp [mem, h]

theorem bounded_peek (f : Frame) : Bounded f.peek f.header.caplen.toNat := by
  intro i
  rw [← f.captured, peek]
  simp

theorem total_read (f : Frame) : Total f.read := fun _ => rfl

theorem extends_read_peek (f : Frame) : Extends f.read f.peek := by
  intro i b h
  rw [peek] at h
  rw [read, mem, h, Option.getD_some]

end Frame

/-! ## C integer conversions -/

/-- Conversion to `uint32_t`. -/
def toU32 (z : Int) : Int := z % 4294967296

/-- Conversion to `int`, two's complement. -/
def toI32 (z : Int) : Int :=
  if z % 4294967296 < 2147483648 then z % 4294967296 else z % 4294967296 - 4294967296

theorem toI32_toU32 (z : Int) : toI32 (toU32 z) = toI32 z := by
  unfold toI32 toU32; omega

theorem toI32_of_range {z : Int} (h : -2147483648 ≤ z ∧ z < 2147483648) : toI32 z = z := by
  unfold toI32; omega

end MiniWireshark

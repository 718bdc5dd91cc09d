import MiniWireshark.Lib.Text
import MiniWireshark.Wire

/-!
# Reported payload lengths (`Pcap.cpp:55-171`, `:569-684`)

The handlers check `ihl` and `doff` against `caplen` and never against `tot_len`, and the UDP `len` not
at all, so the number printed after `Len=` is a payload size only for headers that fit their datagram.

| here | meaning |
| --- | --- |
| `PrintedLen info len` | `len` is the number printed after `Len=` |
| `LenIsReal p pkt`     | it is the size of a payload inside the datagram |
| `LenFits p`           | the header lengths fit into `tot_len` (and, for UDP, into `len`) |
-/

namespace MiniWireshark

open Reader

variable {p : List UInt8} {pkt : StPkt} {h : Host} {f : Frame}

/-! ## The number after `Len=` -/

def PrintedLen (info : String) (len : Int) : Prop := ∃ pre : String, info = pre ++ "Len=" ++ toString len

/-- There is one such number: it holds no `=`. -/
theorem PrintedLen.unique {info : String} {len len' : Int} (hl : PrintedLen info len) (hl' : PrintedLen info len') :
    len = len' := by
  obtain ⟨pre, rfl⟩ := hl
  obtain ⟨pre', he⟩ := hl'
  have hnum (z : Int) : '=' ∉ (toString z).toList := by
    intro hm
    exact absurd (Text.isNumChar_of_mem hm) (by decide)
  have hlist (pre : String) (z : Int) :
      (pre ++ "Len=" ++ toString z).toList = (pre.toList ++ ['L', 'e', 'n']) ++ '=' :: (toString z).toList := by
    rw [String.toList_append, String.toList_append, show "Len=".toList = ['L', 'e', 'n', '='] from rfl]
    simp only [List.append_assoc, List.cons_append, List.nil_append]
  have hl := congrArg String.toList he
  rw [hlist, hlist] at hl
  have htext := Text.eq_of_append_cons hl (hnum len) (hnum len')
  exact Text.toString_int_inj.1 (String.toList_inj.1 htext)

theorem printedLen_tcpInfo (source dest : Nat) (fl : TcpFlags) (seq ackSeq window : Nat) (len : Int) :
    PrintedLen (tcpInfo source dest fl seq ackSeq window len) len := by
  refine ⟨toString source ++ " ---> " ++ toString dest ++ tcpFlagText fl ++ "Seq=" ++ toString seq
    ++ "   Ack=" ++ toString ackSeq ++ "   Win=" ++ toString window ++ "   ", ?_⟩
  simp only [tcpInfo, String.append_assoc]
  rfl

theorem printedLen_udpInfo (source dest len : Nat) : PrintedLen (udpInfo source dest len) ((len : Int) - 8) := by
  refine ⟨toString source ++ " ---> " ++ toString dest ++ "   ", ?_⟩
  simp only [udpInfo, String.append_assoc]
  rfl

/-! ## Payloads inside the datagram -/

/-- The length of the transport header. -/
def transportHeaderLen (p : List UInt8) : Nat := if byteAt p 23 = 6 then 4 * wireDoff p else 8

/-- A payload length is printed, it is not negative, and with both headers it is at most `tot_len`. -/
def LenIsReal (p : List UInt8) (pkt : StPkt) : Prop :=
  ∃ len, PrintedLen pkt.info len ∧ 0 ≤ len ∧ (4 * wireIhl p + transportHeaderLen p : Nat) + len ≤ (be16 p 16 : Int)

/-- TCP: both headers fit into `tot_len`. UDP: so do the IP header and the datagram of `len` bytes, of
which eight are its header. -/
def LenFits (p : List UInt8) : Prop :=
  (byteAt p 23 = 6 → 4 * wireIhl p + 4 * wireDoff p ≤ be16 p 16) ∧
    (byteAt p 23 = 17 → 8 ≤ be16 p (wireStart p + 4) ∧ 4 * wireIhl p + be16 p (wireStart p + 4) ≤ be16 p 16)

instance (p : List UInt8) : Decidable (LenFits p) := inferInstanceAs (Decidable (_ ∧ _))

theorem PrintedLen.isReal_iff {len : Int} (hl : PrintedLen pkt.info len) :
    LenIsReal p pkt ↔ 0 ≤ len ∧ (4 * wireIhl p + transportHeaderLen p : Nat) + len ≤ (be16 p 16 : Int) := by
  constructor
  · rintro ⟨len', hl', hreal⟩
    rwa [hl.unique hl']
  · intro hreal
    exact ⟨len, hl, hreal⟩

/-- What the reference decoder prints is real iff the lengths fit. -/
theorem wireDecode_lenIsReal_iff (hw : wireDecode p = some pkt) (hp : byteAt p 23 = 6 ∨ byteAt p 23 = 17) :
    LenIsReal p pkt ↔ LenFits p := by
  rw [wireDecode, Option.ite_none_right_eq_some] at hw
  obtain ⟨r, hr, rfl⟩ := Option.map_eq_some_iff.1 hw.2
  rw [wireTransport] at hr
  rcases hp with h6 | h17
  · rw [if_pos h6, wireTcp, Option.ite_none_right_eq_some, Option.some.injEq] at hr
    obtain ⟨_, rfl⟩ := hr
    refine Iff.trans (PrintedLen.isReal_iff (printedLen_tcpInfo _ _ _ _ _ _ _)) ?_
    simp only [LenFits, transportHeaderLen, h6, if_true, forall_const]
    omega
  · have hn6 : byteAt p 23 ≠ 6 := by omega
    have hlen : transportHeaderLen p = 8 := if_neg hn6
    rw [if_neg hn6, if_pos h17, Option.some.injEq] at hr
    subst hr
    refine Iff.trans (PrintedLen.isReal_iff (printedLen_udpInfo _ _ _)) ?_
    simp only [LenFits, hlen, h17, forall_const]
    omega

/-! ## Both handlers -/

/-- Whatever row either handler makes of the frame, its payload length is real. -/
def ReportsReal (h : Host) (f : Frame) : Prop :=
  (∀ num pkt dump, Worker.myPacketHandler h f.read num f = some (some (pkt, dump)) → LenIsReal f.packet pkt) ∧
    ∀ src p p' r, Pcap.packetFunc h Frame.read src p f = some p' → p'.md.vec = p.md.vec ++ [r] →
      LenIsReal f.packet r.pkt

theorem reportsReal_iff_rowOf : ReportsReal h f ↔ ∀ pkt, RowOf h f pkt → LenIsReal f.packet pkt := by
  constructor
  · rintro ⟨hlive, hfile⟩ pkt (⟨num, dump, hh⟩ | ⟨src, p, p', r, hp, he, rfl⟩)
    · exact hlive num pkt dump hh
    · exact hfile src p p' r hp he
  · intro hr
    refine ⟨fun num pkt dump hh => hr pkt (.inl ⟨num, dump, hh⟩), fun src p p' r hp he => ?_⟩
    exact hr r.pkt (.inr ⟨src, p, p', r, hp, he, rfl⟩)

/-- Both handlers print what they parse. -/
theorem reportsReal_iff : ReportsReal h f ↔ ∀ pkt, accepted h f = some pkt → LenIsReal f.packet pkt := by
  rw [reportsReal_iff_rowOf]
  constructor
  · intro hr pkt ha
    exact hr pkt (rowOf_iff.2 ⟨pkt, ha, rfl⟩)
  · intro hr pkt hrow
    obtain ⟨row, ha, hpkt⟩ := rowOf_iff.1 hrow
    rw [hpkt]
    exact hr row ha

theorem reportsReal_iff_wire (hc : TransportCaptured f.peek f.header.caplen.toNat) :
    ReportsReal h f ↔ ∀ pkt, wireDecode f.packet = some pkt → LenIsReal f.packet pkt := by
  rw [reportsReal_iff, accepted_wire h hc]

/-- A TCP segment as a sending host hands it to segmentation offload: `tot_len` is still zero. -/
def offloadedTcp : Frame where
  header := { caplen := 54, len := 54 }
  packet := [0, 0, 0, 0, 0, 1, 0, 0, 0, 0, 0, 2, 0x08, 0x00,
    0x45, 0, 0, 0, 0, 0, 0, 0, 64, 6, 0, 0, 10, 0, 0, 1, 10, 0, 0, 2,
    0, 80, 0, 80, 0, 0, 0, 1, 0, 0, 0, 1, 0x50, 0x10, 1, 0, 0, 0, 0, 0]
  captured := by decide
  after _ := 0

end MiniWireshark

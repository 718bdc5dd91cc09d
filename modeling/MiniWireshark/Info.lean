import MiniWireshark.Detail
import MiniWireshark.Lib.Readback
import MiniWireshark.Wire

/-!
# The Info column (`Pcap.cpp:84-215`, `:598-728`)

The handlers write the transport fields into one text. The text can be read back: it tells every field
that is written into it. Two of the eight TCP flags are extracted and not written.

| here | meaning |
| --- | --- |
| `TcpFields`, `TcpFields.read` | what the handlers extract of a TCP header (`Pcap.cpp:89-142`, `:602-655`) |
| `TcpOf h f v`                 | `f` is a TCP frame and `v` is extracted of its header |
| `TcpShown`, `UdpShown`, `IcmpShown` | what the text tells of a header; `text` is the text |
| `wireShown p`                 | what the row of an accepted frame tells of the bytes behind its IPv4 header |
-/

namespace MiniWireshark

open Reader Readback

/-! ## TCP -/

/-- The flags that `qs_flag` names. -/
structure ShownFlags where
  fin : Bool
  syn : Bool
  rst : Bool
  psh : Bool
  ack : Bool
  urg : Bool
deriving DecidableEq, Repr

structure TcpShown where
  source : Nat
  dest : Nat
  flags : ShownFlags
  seq : Nat
  ackSeq : Nat
  window : Nat
  len : Int
deriving DecidableEq, Repr

structure TcpFields where
  source : Nat
  dest : Nat
  flags : TcpFlags
  seq : Nat
  ackSeq : Nat
  window : Nat
  len : Int
deriving DecidableEq, Repr

def TcpFlags.shown (fl : TcpFlags) : ShownFlags := ⟨fl.fin, fl.syn, fl.rst, fl.psh, fl.ack, fl.urg⟩

namespace TcpFields

def shown (v : TcpFields) : TcpShown := ⟨v.source, v.dest, v.flags.shown, v.seq, v.ackSeq, v.window, v.len⟩

def info (v : TcpFields) : String := tcpInfo v.source v.dest v.flags v.seq v.ackSeq v.window v.len

/-- The headers differ in ECE or CWR and in nothing else. -/
def EcnOnly (v w : TcpFields) : Prop := v.shown = w.shown ∧ ¬ (v.flags.ece = w.flags.ece ∧ v.flags.cwr = w.flags.cwr)

instance (v w : TcpFields) : Decidable (EcnOnly v w) := inferInstanceAs (Decidable (_ ∧ _))

theorem eq_iff {v w : TcpFields} :
    v = w ↔ v.shown = w.shown ∧ v.flags.ece = w.flags.ece ∧ v.flags.cwr = w.flags.cwr := by
  obtain ⟨_, _, ⟨_, _, _, _, _, _, _, _⟩, _, _, _, _⟩ := v
  obtain ⟨_, _, ⟨_, _, _, _, _, _, _, _⟩, _, _, _, _⟩ := w
  simp only [shown, TcpFlags.shown, TcpFields.mk.injEq, TcpFlags.mk.injEq, TcpShown.mk.injEq, ShownFlags.mk.injEq]
  tauto

end TcpFields

/-- The names between the brackets. -/
def ShownFlags.names (fl : ShownFlags) : String :=
  (if fl.syn then "SYN " else "") ++ (if fl.ack then "ACK " else "") ++ (if fl.fin then "FIN " else "")
    ++ (if fl.rst then "RST " else "") ++ (if fl.psh then "PSH " else "") ++ (if fl.urg then "URG " else "")

/-- Each flag has a letter that no other name holds. -/
def flagsIn (cs : List Char) : TcpFlags :=
  ⟨'F' ∈ cs, 'Y' ∈ cs, 'T' ∈ cs, 'P' ∈ cs, 'K' ∈ cs, 'G' ∈ cs, 'E' ∈ cs, 'W' ∈ cs⟩

theorem toList_names (fl : ShownFlags) : fl.names.toList =
    (if fl.syn then ['S', 'Y', 'N', ' '] else []) ++ (if fl.ack then ['A', 'C', 'K', ' '] else [])
      ++ (if fl.fin then ['F', 'I', 'N', ' '] else []) ++ (if fl.rst then ['R', 'S', 'T', ' '] else [])
      ++ (if fl.psh then ['P', 'S', 'H', ' '] else []) ++ (if fl.urg then ['U', 'R', 'G', ' '] else []) := by
  simp only [ShownFlags.names, String.toList_append, apply_ite String.toList]
  rfl

theorem flagsIn_names (fl : ShownFlags) : (flagsIn fl.names.toList).shown = fl := by
  rw [toList_names]
  obtain ⟨fin, syn, rst, psh, ack, urg⟩ := fl
  revert fin syn rst psh ack urg
  decide +kernel

/-- The names hold no bracket. -/
theorem names_ne_bracket (fl : ShownFlags) : ∀ c ∈ fl.names.toList, (c != ']') = true := by
  have hname (b : Bool) {w : List Char} (hw : w.all (· != ']') = true) :
      ∀ c ∈ if b then w else [], (c != ']') = true := by
    cases b
    · exact fun c hc => absurd hc List.not_mem_nil
    · exact List.all_eq_true.1 hw
  rw [toList_names]
  simp only [List.forall_mem_append]
  exact ⟨⟨⟨⟨⟨hname _ rfl, hname _ rfl⟩, hname _ rfl⟩, hname _ rfl⟩, hname _ rfl⟩, hname _ rfl⟩

theorem splits_names : Splits (Stops (· != ']')) fun fl : ShownFlags => fl.names.toList := by
  refine Splits.span ?_ names_ne_bracket
  intro fl fl' h
  rw [← flagsIn_names fl, ← flagsIn_names fl']
  exact congrArg (fun cs => (flagsIn cs).shown) h

/-- The text, field after field. -/
def TcpShown.text (v : TcpShown) : List Char :=
  (toString v.source).toList ++ (' ' :: "---> ".toList ++ ((toString v.dest).toList ++ (' ' :: "  [ ".toList ++
    (v.flags.names.toList ++ (']' :: "   Seq=".toList ++ ((toString v.seq).toList ++ (' ' :: "  Ack=".toList ++
      ((toString v.ackSeq).toList ++ (' ' :: "  Win=".toList ++ ((toString v.window).toList ++
        (' ' :: "  Len=".toList ++ (toString v.len).toList)))))))))))

theorem TcpFields.toList_info (v : TcpFields) : v.info.toList = v.shown.text := by
  simp only [TcpFields.info, tcpInfo, tcpFlagText, TcpShown.text, ShownFlags.names, TcpFields.shown, TcpFlags.shown,
    String.toList_append, List.append_assoc]
  rfl

/-- **The TCP line is uniquely decodable.** -/
theorem TcpShown.text_injective : Function.Injective TcpShown.text := by
  intro v w h
  have hwin := splits_nat.sep ' ' "  Len=".toList rfl splits_int
  have hseq := splits_nat.sep ' ' "  Ack=".toList rfl (splits_nat.sep ' ' "  Win=".toList rfl hwin)
  have hflags := splits_names.sep ']' "   Seq=".toList rfl hseq
  have hports := splits_nat.sep ' ' "---> ".toList rfl (splits_nat.sep ' ' "  [ ".toList rfl hflags)
  have hfields : (v.source, v.dest, v.flags, v.seq, v.ackSeq, v.window, v.len) =
      (w.source, w.dest, w.flags, w.seq, w.ackSeq, w.window, w.len) := hports.injective stops_nil h
  obtain ⟨_, _, _, _, _, _, _⟩ := v
  cases hfields
  rfl

/-- The text tells everything but ECE and CWR. -/
theorem TcpFields.info_eq_iff {v w : TcpFields} : v.info = w.info ↔ v.shown = w.shown := by
  rw [← String.toList_inj, toList_info, toList_info]
  exact TcpShown.text_injective.eq_iff

theorem TcpFields.decodable_iff {v w : TcpFields} : (v.info = w.info → v = w) ↔ ¬ v.EcnOnly w := by
  rw [info_eq_iff, eq_iff, EcnOnly]
  tauto

/-! ### Both handlers -/

variable {h : Host} {f g : Frame} {v w : TcpFields} {pf pg : StPkt}

/-- The reads of the `protocol == 6` branch. -/
def TcpFields.read (h : Host) (rd : Nat → Option UInt8) (ip ihl : Nat) : Option TcpFields := do
  let tcp := ip + ihl * 4
  let doff ← TcpH.doff h rd tcp
  let source ← TcpH.source h rd tcp
  let dest ← TcpH.dest h rd tcp
  let fl ← TcpH.flags h rd tcp
  let seq ← TcpH.seq h rd tcp
  let ackSeq ← TcpH.ackSeq h rd tcp
  let window ← TcpH.window h rd tcp
  let totLen ← IpH.totLen h rd ip
  some ⟨h.ntohs source, h.ntohs dest, fl, h.ntohl seq, h.ntohl ackSeq, h.ntohs window,
    payloadLen (h.ntohs totLen) ihl (doff * 4)⟩

def TcpOf (h : Host) (f : Frame) (v : TcpFields) : Prop :=
  ∃ ihl, IpAccepted f.read f.header.caplen.toNat ihl ∧ u8 f.read (sizeofEH + 9) = some 6 ∧
    TcpFields.read h f.read sizeofEH ihl = some v

theorem TcpOf.unique (hv : TcpOf h f v) (hw : TcpOf h f w) : v = w := by
  obtain ⟨ihl, hip, _, hread⟩ := hv
  obtain ⟨ihl', hip', _, hread'⟩ := hw
  obtain rfl : ihl = ihl' := Option.some.inj (hip.2.2.2.1.symm.trans hip'.2.2.2.1)
  exact Option.some.inj (hread.symm.trans hread')

/-- The branch renders what it extracts of a complete header. -/
theorem decodeTcp_read {rd : Nat → Option UInt8} {caplen ip ihl : Nat} {r : String × String}
    (hr : decodeTcp h rd caplen ip ihl = some (some r)) :
    sizeofEH + ihl * 4 + sizeofTcpH ≤ caplen ∧ ∃ v, TcpFields.read h rd ip ihl = some v ∧ r = ("TCP", v.info) := by
  simp only [decodeTcp, reject_else_iff, Option.bind_eq_bind, Option.bind_eq_some_iff, Option.some.injEq] at hr
  obtain ⟨h20, doff, edoff, _, _, source, esource, dest, edest, fl, efl, seq, eseq, ackSeq, eack, window, ewin, totLen,
    etot, rfl⟩ := hr
  let v : TcpFields := ⟨h.ntohs source, h.ntohs dest, fl, h.ntohl seq, h.ntohl ackSeq, h.ntohs window,
    payloadLen (h.ntohs totLen) ihl (doff * 4)⟩
  have hv : TcpFields.read h rd ip ihl = some v := by
    simp only [TcpFields.read, edoff, esource, edest, efl, eseq, eack, ewin, etot, Option.bind_eq_bind, Option.bind_some,
      v]
  exact ⟨Nat.not_lt.1 h20, v, hv, rfl⟩

/-- The fields by position. -/
def wireTcpFields (p : List UInt8) : TcpFields :=
  let t := wireStart p
  ⟨be16 p t, be16 p (t + 2), wireFlags (byteAt p (t + 13)), be32 p (t + 4), be32 p (t + 8), be16 p (t + 14),
    (be16 p 16 : Int) - 4 * wireIhl p - 4 * wireDoff p⟩

theorem TcpFields.read_ofList (h : Host) {p : List UInt8} (h34 : 34 ≤ p.length) (h20 : wireStart p + 20 ≤ p.length) :
    TcpFields.read h (ofList p) sizeofEH (wireIhl p) = some (wireTcpFields p) := by
  have edoff : TcpH.doff h (ofList p) (wireStart p) = some (wireDoff p) := doff_ofList h (by omega)
  simp only [TcpFields.read, sizeofEH, wireStart_eq, edoff, Option.bind_eq_bind, Option.bind_some]
  simp (disch := omega) only [TcpH.source, TcpH.dest, TcpH.seq, TcpH.ackSeq, TcpH.window, IpH.totLen, u16_ofList,
    u32_ofList, flags_ofList, Option.bind_some, ntohs_byteAt, ntohl_byteAt, payloadLen_wire p, wireTcpFields]

theorem TcpFields.ext_read {rd rd' : Nat → Option UInt8} (h : Host) (he : Extends rd' rd) (ip ihl : Nat) :
    Ext (TcpFields.read h rd ip ihl) (TcpFields.read h rd' ip ihl) := by
  have hbits (b : Nat) : Ext (TcpH.bits h rd b) (TcpH.bits h rd' b) := he.u16 h _
  refine ((hbits _).map _).bind fun doff => (he.u16 h _).bind fun source => (he.u16 h _).bind fun dest => ?_
  refine ((hbits _).map _).bind fun fl => (he.u32 h _).bind fun seq => (he.u32 h _).bind fun ackSeq => ?_
  exact (he.u16 h _).bind fun window => (he.u16 h _).bind fun totLen => .refl _

/-- What is extracted of an accepted TCP frame are the fields by position, and the line is made of them. -/
theorem RowOf.tcpOf_wire (hf : RowOf h f pf) (h6 : u8 f.read (sizeofEH + 9) = some 6) :
    TcpOf h f (wireTcpFields f.packet) ∧ pf.info = (wireTcpFields f.packet).info := by
  obtain ⟨row, ha, hpf⟩ := rowOf_iff.1 hf
  have hd := decode_read h f
  rw [ha] at hd
  obtain ⟨ihl, protocol, r, hip, hproto, htrans, hrow⟩ := decode_eq_some_iff.1 hd
  obtain rfl : 6 = protocol := Option.some.inj (h6.symm.trans hproto)
  obtain ⟨h20, v, hread, rfl⟩ := decodeTcp_read htrans
  have hip' := hip
  rw [← f.captured] at hip' h20
  obtain ⟨hw, rfl⟩ := ipAccepted_read.1 hip'
  have hwire := TcpFields.read_ofList h hw.1 (by rw [← wireStart_eq]; exact h20)
  obtain rfl : v = wireTcpFields f.packet :=
    Option.some.inj (hread.symm.trans (TcpFields.ext_read h f.extends_read_peek _ _ _ hwire))
  simp only [finishPkt, Option.bind_eq_bind, Option.bind_eq_some_iff, Option.some.injEq] at hrow
  obtain ⟨_, _, _, _, _, _, rfl⟩ := hrow
  rw [hpf]
  exact ⟨⟨wireIhl f.packet, hip, h6, hread⟩, rfl⟩

theorem RowOf.tcp_info (hf : RowOf h f pf) (hv : TcpOf h f v) :
    v = wireTcpFields f.packet ∧ pf.info = v.info := by
  have h6 : u8 f.read (sizeofEH + 9) = some 6 := by
    obtain ⟨_, _, h6, _⟩ := hv
    exact h6
  obtain ⟨hw, hinfo⟩ := hf.tcpOf_wire h6
  obtain rfl := hv.unique hw
  exact ⟨rfl, hinfo⟩

/-- **What the TCP line tells.** For any two accepted TCP frames, equal lines come from equal headers
iff the headers do not differ in ECE and CWR alone. -/
theorem tcp_info_decodable_iff (hf : RowOf h f pf) (hg : RowOf h g pg) (hv : TcpOf h f v) (hw : TcpOf h g w) :
    (pf.info = pg.info → v = w) ↔ ¬ (wireTcpFields f.packet).EcnOnly (wireTcpFields g.packet) := by
  obtain ⟨hv, hinfo⟩ := hf.tcp_info hv
  obtain ⟨hw, hinfo'⟩ := hg.tcp_info hw
  rw [hinfo, hinfo', ← hv, ← hw]
  exact TcpFields.decodable_iff

/-- A connection request from port 40000 to port 443, with the flag byte as given. -/
def synFrame (flags : UInt8) : Frame where
  header := { caplen := 54, len := 54 }
  packet := [0, 0, 0, 0, 0, 1, 0, 0, 0, 0, 0, 2, 0x08, 0x00,
    0x45, 0, 0, 40, 0, 0, 0, 0, 64, 6, 0, 0, 10, 0, 0, 1, 10, 0, 0, 2,
    0x9C, 0x40, 0x01, 0xBB, 0, 0, 0, 1, 0, 0, 0, 0, 0x50, flags, 1, 0, 0, 0, 0, 0]
  captured := rfl
  after _ := 0

def synFields (flags : Nat) : TcpFields := ⟨40000, 443, wireFlags flags, 1, 0, 256, 0⟩

def synRow (names : String) : StPkt :=
  ⟨0, "10.0.0.1", "10.0.0.2", "TCP", 54, "40000 ---> 443   [ " ++ names ++ "]   Seq=1   Ack=0   Win=256   Len=0"⟩

/-- SYN and SYN ACK read differently. -/
theorem tcp_info_decodable_syn_ack :
    ((synRow "SYN ").info = (synRow "SYN ACK ").info → synFields 0x02 = synFields 0x12) ∧
    ¬ (wireTcpFields (synFrame 0x02).packet).EcnOnly (wireTcpFields (synFrame 0x12).packet) := by
  have hf : RowOf .little (synFrame 0x02) (synRow "SYN ") := rowOf_iff.2 ⟨synRow "SYN ", by decide +kernel, rfl⟩
  have hg : RowOf .little (synFrame 0x12) (synRow "SYN ACK ") := rowOf_iff.2 ⟨synRow "SYN ACK ", by decide +kernel, rfl⟩
  have hv : TcpOf .little (synFrame 0x02) (synFields 0x02) :=
    ⟨5, by decide +kernel, by decide +kernel, by decide +kernel⟩
  have hw : TcpOf .little (synFrame 0x12) (synFields 0x12) :=
    ⟨5, by decide +kernel, by decide +kernel, by decide +kernel⟩
  have hecn : ¬ (wireTcpFields (synFrame 0x02).packet).EcnOnly (wireTcpFields (synFrame 0x12).packet) := by
    decide +kernel
  exact ⟨(tcp_info_decodable_iff hf hg hv hw).2 hecn, hecn⟩

/-- A SYN and an ECN-setup SYN have one row, and their headers differ in ECE and CWR. -/
theorem ecn_setup_syn_row :
    RowOf .little (synFrame 0x02) (synRow "SYN ") ∧ RowOf .little (synFrame 0xC2) (synRow "SYN ") ∧
    TcpOf .little (synFrame 0x02) (synFields 0x02) ∧ TcpOf .little (synFrame 0xC2) (synFields 0xC2) ∧
    (synFields 0x02).flags.ece = false ∧ (synFields 0xC2).flags.ece = true ∧
    (synFields 0x02).flags.cwr = false ∧ (synFields 0xC2).flags.cwr = true := by
  refine ⟨?_, ?_, ?_, ?_, by decide⟩
  · exact rowOf_iff.2 ⟨synRow "SYN ", by decide +kernel, rfl⟩
  · exact rowOf_iff.2 ⟨synRow "SYN ", by decide +kernel, rfl⟩
  · exact ⟨5, by decide +kernel, by decide +kernel, by decide +kernel⟩
  · exact ⟨5, by decide +kernel, by decide +kernel, by decide +kernel⟩

/-! ## UDP -/

structure UdpShown where
  source : Nat
  dest : Nat
  len : Nat
deriving DecidableEq, Repr

def UdpShown.text (v : UdpShown) : List Char :=
  (toString v.source).toList ++ (' ' :: "---> ".toList ++ ((toString v.dest).toList ++ (' ' :: "  Len=".toList ++
    (toString ((v.len : Int) - 8)).toList)))

theorem toList_udpInfo (source dest len : Nat) :
    (udpInfo source dest len).toList = UdpShown.text ⟨source, dest, len⟩ := by
  simp only [udpInfo, UdpShown.text, String.toList_append, List.append_assoc]
  rfl

theorem UdpShown.text_injective : Function.Injective UdpShown.text := by
  intro v w h
  have hlen : Splits (Stops Text.isNumChar) fun n : Nat => (toString ((n : Int) - 8)).toList := by
    refine splits_int.comp ?_
    intro m n hmn
    exact Int.ofNat_inj.1 (sub_left_injective hmn)
  have hports := splits_nat.sep ' ' "---> ".toList rfl (splits_nat.sep ' ' "  Len=".toList rfl hlen)
  have hfields : (v.source, v.dest, v.len) = (w.source, w.dest, w.len) := hports.injective stops_nil h
  obtain ⟨_, _, _⟩ := v
  cases hfields
  rfl

/-! ## ICMP -/

/-- The types the list names, and all others. -/
inductive IcmpName where
  | echoReply
  | unreachable
  | redirect
  | echoRequest
  | timeExceeded
  | other
deriving DecidableEq, Repr

inductive UnreachableCode where
  | network
  | host
  | port
  | other
deriving DecidableEq, Repr

inductive TimeCode where
  | ttl
  | reassembly
  | other
deriving DecidableEq, Repr

inductive IcmpShown where
  | echoReply (id seq ttl : Nat)
  | unreachable (code : UnreachableCode)
  | redirect
  | echoRequest (id seq ttl : Nat)
  | timeExceeded (code : TimeCode)
  | other
deriving DecidableEq, Repr

def IcmpName.text : IcmpName → String
  | .echoReply => "Echo Reply   "
  | .unreachable => "Destination Unreachable   "
  | .redirect => "Redirect   "
  | .echoRequest => "Echo Request   "
  | .timeExceeded => "Time Exceeded   "
  | .other => "   "

def UnreachableCode.text : UnreachableCode → String
  | .network => "Network Unreachable"
  | .host => "Host Unreachable"
  | .port => "Port Unreachable"
  | .other => ""

def TimeCode.text : TimeCode → String
  | .ttl => "TTL exceeded"
  | .reassembly => "fragment reassembly time exceeded"
  | .other => ""

namespace IcmpShown

def name : IcmpShown → IcmpName
  | .echoReply .. => .echoReply
  | .unreachable _ => .unreachable
  | .redirect => .redirect
  | .echoRequest .. => .echoRequest
  | .timeExceeded _ => .timeExceeded
  | .other => .other

def detail : IcmpShown → String
  | .echoReply id seq ttl => icmpEchoText id seq ttl
  | .unreachable code => code.text
  | .redirect => ""
  | .echoRequest id seq ttl => icmpEchoText id seq ttl
  | .timeExceeded code => code.text
  | .other => ""

def text (v : IcmpShown) : List Char := v.name.text.toList ++ v.detail.toList

end IcmpShown

/-- No name begins another one. -/
theorem splits_icmpName : Splits (fun _ => True) fun n : IcmpName => n.text.toList := by
  refine Splits.prefixFree ?_
  intro m n h
  cases m <;> cases n <;> simp [IcmpName.text] at h ⊢

theorem UnreachableCode.text_injective : Function.Injective UnreachableCode.text := by
  intro c d h
  cases c <;> cases d <;> simp [UnreachableCode.text] at h ⊢

theorem TimeCode.text_injective : Function.Injective TimeCode.text := by
  intro c d h
  cases c <;> cases d <;> simp [TimeCode.text] at h ⊢

theorem icmpEchoText_inj {id seq ttl id' seq' ttl' : Nat} (h : icmpEchoText id seq ttl = icmpEchoText id' seq' ttl') :
    id = id' ∧ seq = seq' ∧ ttl = ttl' := by
  have hseq := splits_nat.sep ' ' "  seq=".toList rfl (splits_nat.sep ' ' "  ttl=".toList rfl splits_nat)
  have htext (id seq ttl : Nat) : (icmpEchoText id seq ttl).toList = "id=".toList ++ ((toString id).toList ++
      (' ' :: "  seq=".toList ++ ((toString seq).toList ++ (' ' :: "  ttl=".toList ++ (toString ttl).toList)))) := by
    simp only [icmpEchoText, String.toList_append, List.append_assoc]
    rfl
  have hlist := String.toList_inj.2 h
  rw [htext, htext] at hlist
  have hfields : (id, seq, ttl) = (id', seq', ttl') := (hseq.lit "id=".toList).injective stops_nil hlist
  cases hfields
  exact ⟨rfl, rfl, rfl⟩

/-- **The ICMP line is uniquely decodable.** -/
theorem IcmpShown.text_injective : Function.Injective IcmpShown.text := by
  intro v w h
  obtain ⟨hname, hdetail⟩ := splits_icmpName v.name w.name _ _ trivial trivial h
  rw [String.toList_inj] at hdetail
  cases v <;> cases w <;> simp only [IcmpShown.name, reduceCtorEq] at hname
  · obtain ⟨rfl, rfl, rfl⟩ := icmpEchoText_inj hdetail
    rfl
  · rw [UnreachableCode.text_injective hdetail]
  · rfl
  · obtain ⟨rfl, rfl, rfl⟩ := icmpEchoText_inj hdetail
    rfl
  · rw [TimeCode.text_injective hdetail]
  · rfl

/-! ## The line of a frame -/

inductive Shown where
  | tcp (v : TcpShown)
  | udp (v : UdpShown)
  | icmp (v : IcmpShown)
deriving DecidableEq, Repr

namespace Shown

def proto : Shown → String
  | .tcp _ => "TCP"
  | .udp _ => "UDP"
  | .icmp _ => "ICMP"

def text : Shown → List Char
  | .tcp v => v.text
  | .udp v => v.text
  | .icmp v => v.text

/-- With the Protocol column the line tells all of it. -/
theorem text_inj {v w : Shown} (hproto : v.proto = w.proto) : v.text = w.text ↔ v = w := by
  refine ⟨fun htext => ?_, congrArg text⟩
  cases v <;> cases w <;> simp [proto] at hproto
  · exact congrArg tcp (TcpShown.text_injective htext)
  · exact congrArg udp (UdpShown.text_injective htext)
  · exact congrArg icmp (IcmpShown.text_injective htext)

end Shown

section
variable {p : List UInt8} {r : String × String}

def UnreachableCode.ofCode (code : Nat) : UnreachableCode :=
  if code = 0 then .network else if code = 1 then .host else if code = 3 then .port else .other

def TimeCode.ofCode (code : Nat) : TimeCode := if code = 0 then .ttl else if code = 1 then .reassembly else .other

def wireIcmpShown (p : List UInt8) : IcmpShown :=
  let t := wireStart p
  if byteAt p t = 0 then .echoReply (be16 p (t + 4)) (be16 p (t + 6)) (byteAt p 22)
  else if byteAt p t = 3 then .unreachable (.ofCode (byteAt p (t + 1)))
  else if byteAt p t = 5 then .redirect
  else if byteAt p t = 8 then .echoRequest (be16 p (t + 4)) (be16 p (t + 6)) (byteAt p 22)
  else if byteAt p t = 11 then .timeExceeded (.ofCode (byteAt p (t + 1)))
  else .other

/-- What the row of an accepted frame tells of the bytes behind its IPv4 header. -/
def wireShown (p : List UInt8) : Shown :=
  let t := wireStart p
  if byteAt p 23 = 6 then .tcp (wireTcpFields p).shown
  else if byteAt p 23 = 17 then .udp ⟨be16 p t, be16 p (t + 2), be16 p (t + 4)⟩
  else .icmp (wireIcmpShown p)

theorem UnreachableCode.text_ofCode (code : Nat) : icmpUnreachableText code = (ofCode code).text := by
  unfold icmpUnreachableText ofCode
  split_ifs <;> first | rfl | omega

theorem TimeCode.text_ofCode (code : Nat) : icmpTimeText code = (ofCode code).text := by
  unfold icmpTimeText ofCode
  split_ifs <;> first | rfl | omega

theorem toList_wireIcmp (p : List UInt8) : (wireIcmp p).2.toList = (wireIcmpShown p).text := by
  rw [IcmpShown.text, ← String.toList_append]
  refine congrArg String.toList ?_
  simp only [wireIcmp, wireIcmpDetail, wireIcmpShown]
  generalize byteAt p (wireStart p) = type
  by_cases h0 : type = 0
  · subst h0
    rfl
  by_cases h3 : type = 3
  · subst h3
    exact congrArg _ (UnreachableCode.text_ofCode _)
  by_cases h5 : type = 5
  · subst h5
    rfl
  by_cases h8 : type = 8
  · subst h8
    rfl
  by_cases h11 : type = 11
  · subst h11
    exact congrArg _ (TimeCode.text_ofCode _)
  simp only [icmpTypeText, h0, h3, h5, h8, h11, or_self, if_false]
  rfl

theorem wireTransport_shown (hr : wireTransport p = some r) :
    r.1 = (wireShown p).proto ∧ r.2.toList = (wireShown p).text := by
  unfold wireTransport at hr
  unfold wireShown
  split_ifs at hr ⊢
  · rw [wireTcp, Option.ite_none_right_eq_some, Option.some.injEq] at hr
    obtain ⟨_, rfl⟩ := hr
    exact ⟨rfl, (wireTcpFields p).toList_info⟩
  · cases hr
    exact ⟨rfl, toList_udpInfo _ _ _⟩
  · cases hr
    exact ⟨rfl, toList_wireIcmp p⟩

end

end MiniWireshark

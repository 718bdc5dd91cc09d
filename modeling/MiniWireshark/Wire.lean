import MiniWireshark.Store

/-!
# The wire format (`Struct_in.h:26-122`, `Pcap.cpp:550-748`)

`wireDecode` reads the captured bytes by their RFC positions, with no struct, no bit-field and no byte
swap. It is stated here on its own; the handlers are shown to agree with it under both layouts of
`ip_H` and `tcp_H`.

| here | position |
| --- | --- |
| `ihl`, `doff`      | low nibble of IP byte 0, high nibble of TCP byte 12 |
| `wireFlags`        | bits 0 … 7 of TCP byte 13 |
| `dotted p i`       | four bytes in decimal: IP bytes 12-15 and 16-19 |
| `be16`, `be32`     | every other field, big-endian, relative to 14 and `14 + 4 * ihl` |
-/

namespace MiniWireshark

open Reader

/-! ## The reference decoder -/

def wireFlags (b : Nat) : TcpFlags where
  fin := b.testBit 0
  syn := b.testBit 1
  rst := b.testBit 2
  psh := b.testBit 3
  ack := b.testBit 4
  urg := b.testBit 5
  ece := b.testBit 6
  cwr := b.testBit 7

def dotted (p : List UInt8) (i : Nat) : String :=
  inetNtoa (byteAt p i) (byteAt p (i + 1)) (byteAt p (i + 2)) (byteAt p (i + 3))

def wireIhl (p : List UInt8) : Nat := byteAt p 14 % 16

/-- Where the transport header starts. -/
def wireStart (p : List UInt8) : Nat := 14 + 4 * wireIhl p

def wireDoff (p : List UInt8) : Nat := byteAt p (wireStart p + 12) / 16

def wireTcp (p : List UInt8) : Option (String × String) :=
  let t := wireStart p
  if t + 20 ≤ p.length ∧ 5 ≤ wireDoff p ∧ t + 4 * wireDoff p ≤ p.length then
    some ("TCP", tcpInfo (be16 p t) (be16 p (t + 2)) (wireFlags (byteAt p (t + 13))) (be32 p (t + 4)) (be32 p (t + 8))
      (be16 p (t + 14)) ((be16 p 16 : Int) - 4 * wireIhl p - 4 * wireDoff p))
  else none

def wireUdp (p : List UInt8) : String × String :=
  let t := wireStart p
  ("UDP", udpInfo (be16 p t) (be16 p (t + 2)) (be16 p (t + 4)))

def wireIcmpDetail (p : List UInt8) : String :=
  let t := wireStart p
  if byteAt p t = 3 then icmpUnreachableText (byteAt p (t + 1))
  else if byteAt p t = 11 then icmpTimeText (byteAt p (t + 1))
  else if byteAt p t = 0 ∨ byteAt p t = 8 then icmpEchoText (be16 p (t + 4)) (be16 p (t + 6)) (byteAt p 22)
  else ""

def wireIcmp (p : List UInt8) : String × String :=
  ("ICMP", icmpTypeText (byteAt p (wireStart p)) ++ wireIcmpDetail p)

/-- The transport branch, by the protocol number in IP byte 9. -/
def wireTransport (p : List UInt8) : Option (String × String) :=
  if byteAt p 23 = 6 then wireTcp p
  else if byteAt p 23 = 17 then some (wireUdp p)
  else if byteAt p 23 = 1 then some (wireIcmp p)
  else none

/-- An IPv4 header behind an Ethernet header, all of it captured. -/
def WireIpv4 (p : List UInt8) : Prop :=
  34 ≤ p.length ∧ be16 p 12 = 0x0800 ∧ 5 ≤ wireIhl p ∧ wireStart p ≤ p.length

instance (p : List UInt8) : Decidable (WireIpv4 p) := inferInstanceAs (Decidable (_ ∧ _))

def wireDecode (p : List UInt8) : Option StPkt :=
  if WireIpv4 p then
    (wireTransport p).map fun r =>
      { num := 0, src := dotted p 26, dst := dotted p 30, proto := r.1, len := be16 p 16 + 14, info := r.2 }
  else none

/-! ## Fields, under both layouts -/

variable {p : List UInt8} {h : Host}

theorem wireIhl_lt (p : List UInt8) : wireIhl p < 16 := Nat.mod_lt _ (by decide)

theorem wireStart_eq (p : List UInt8) : 14 + wireIhl p * 4 = wireStart p := by
  unfold wireStart
  omega

theorem wireDoff_lt (p : List UInt8) : wireDoff p < 16 := by
  have := byteAt_lt p (wireStart p + 12)
  unfold wireDoff
  omega

theorem payloadLen_wire (p : List UInt8) : payloadLen (be16 p 16) (wireIhl p) (wireDoff p * 4) =
    (be16 p 16 : Int) - 4 * wireIhl p - 4 * wireDoff p := by
  have hdoff := wireDoff_lt p
  rw [payloadLen_eq (be16_lt p 16) (wireIhl_lt p) (by omega)]
  omega

theorem ihl_ofList (h : Host) (hp : 14 < p.length) : IpH.ihl h (ofList p) 14 = some (wireIhl p) := by
  rw [ihl_eq, u8_ofList hp]
  rfl

/-- `doff` is the high nibble of the first byte of its unit. -/
theorem doff_ofList (h : Host) {b : Nat} (hp : b + 14 ≤ p.length) :
    TcpH.doff h (ofList p) b = some (byteAt p (b + 12) / 16) := by
  have h0 := byteAt_lt p (b + 12)
  have h1 := byteAt_lt p (b + 12 + 1)
  rw [TcpH.doff, TcpH.bits, u16_ofList h (by omega)]
  cases h <;> simp only [Host.load16, Host.bitField, Option.map_some, Option.some.injEq] <;> omega

/-- The flags are the bits of the second byte of their unit. -/
theorem flags_ofList (h : Host) {b : Nat} (hp : b + 14 ≤ p.length) :
    TcpH.flags h (ofList p) b = some (wireFlags (byteAt p (b + 13))) := by
  have h0 := byteAt_lt p (b + 12)
  have h1 := byteAt_lt p (b + 13)
  have hbit {u off k : Nat} (e : u / 2 ^ off % 2 = byteAt p (b + 13) / 2 ^ k % 2) :
      (u / 2 ^ off % 2 ^ 1 == 1) = (byteAt p (b + 13)).testBit k := by
    rw [Nat.testBit_eq_decide_div_mod_eq, pow_one, e]
    rfl
  rw [TcpH.flags, TcpH.bits, u16_ofList h (by omega), show b + 12 + 1 = b + 13 from rfl]
  cases h <;> simp only [Host.load16, Host.bitField, Option.map_some, wireFlags, Option.some.injEq, TcpFlags.mk.injEq] <;>
    exact ⟨hbit (by omega), hbit (by omega), hbit (by omega), hbit (by omega), hbit (by omega), hbit (by omega),
      hbit (by omega), hbit (by omega)⟩

theorem readInAddr_ofList {i : Nat} (hp : i + 4 ≤ p.length) : readInAddr (ofList p) i = some (dotted p i) := by
  simp (disch := omega) only [readInAddr, u8_ofList, Option.bind_eq_bind, Option.bind_some, dotted]

/-! ## The branches -/

theorem decodeTcp_ofList (h : Host) (h34 : 34 ≤ p.length) :
    decodeTcp h (ofList p) p.length 14 (wireIhl p) = some (wireTcp p) := by
  simp only [decodeTcp, wireTcp, sizeofEH, sizeofTcpH, wireStart_eq]
  by_cases h20 : wireStart p + 20 ≤ p.length
  swap
  · rw [if_pos (by omega), if_neg (by omega)]
  have edoff : TcpH.doff h (ofList p) (wireStart p) = some (wireDoff p) := doff_ofList h (by omega)
  rw [if_neg (by omega), edoff]
  simp only [Option.bind_eq_bind, Option.bind_some]
  by_cases h5 : wireDoff p < 5
  · rw [if_pos h5, if_neg (by omega)]
  rw [if_neg h5]
  by_cases hcap : wireStart p + 4 * wireDoff p ≤ p.length
  swap
  · rw [if_pos (by omega), if_neg (by omega)]
  rw [if_neg (by omega), if_pos (by omega)]
  simp (disch := omega) only [TcpH.source, TcpH.dest, TcpH.seq, TcpH.ackSeq, TcpH.window, IpH.totLen, u16_ofList,
    u32_ofList, flags_ofList, Option.bind_some, ntohs_byteAt, ntohl_byteAt, payloadLen_wire p]

theorem decodeUdp_ofList (h : Host) (hp : wireStart p + 6 ≤ p.length) :
    decodeUdp h (ofList p) 14 (wireIhl p) = some (some (wireUdp p)) := by
  simp (disch := omega) only [decodeUdp, wireUdp, wireStart_eq, UdpH.source, UdpH.dest, UdpH.len, u16_ofList,
    Option.bind_eq_bind, Option.bind_some, ntohs_byteAt]

theorem decodeIcmp_ofList (h : Host) (h34 : 34 ≤ p.length)
    (hp : wireStart p + icmpNeeds (byteAt p (wireStart p)) ≤ p.length) :
    decodeIcmp h (ofList p) 14 (wireIhl p) = some (some (wireIcmp p)) := by
  unfold icmpNeeds at hp
  have h1 : wireStart p < p.length := by split_ifs at hp <;> omega
  simp only [decodeIcmp, decodeIcmpDetail, wireIcmp, wireIcmpDetail, wireStart_eq, IcmpH.type, IcmpH.code, IcmpH.echoId,
    IcmpH.echoSequence, IpH.ttl, u8_ofList h1, Option.bind_eq_bind, Option.bind_some]
  generalize byteAt p (wireStart p) = type at hp ⊢
  by_cases h3 : type = 3
  · simp only [h3, true_or, if_true] at hp ⊢
    rw [u8_ofList (by omega)]
    rfl
  by_cases h11 : type = 11
  · simp only [h11, or_true, if_true] at hp ⊢
    rw [u8_ofList (by omega)]
    rfl
  by_cases h08 : type = 0 ∨ type = 8
  · simp only [h3, h11, h08, or_self, if_true, if_false] at hp ⊢
    rw [u16_ofList h (by omega), u16_ofList h (by omega), u8_ofList (by omega)]
    simp only [Option.bind_some, ntohs_byteAt]
  · simp only [h3, h11, h08, if_false, Option.bind_some]

/-! ## The frame -/

theorem ipAccepted_ofList {ihl : Nat} : IpAccepted (ofList p) p.length ihl ↔ WireIpv4 p ∧ ihl = wireIhl p := by
  have h12 := byteAt_lt p 12
  have h13 := byteAt_lt p 13
  have htype : be16 p 12 = 256 * byteAt p 12 + byteAt p 13 := rfl
  unfold IpAccepted WireIpv4
  simp only [sizeofEH, sizeofIpH]
  by_cases h34 : 34 ≤ p.length
  swap
  · exact iff_of_false (fun hi => absurd hi.1 (by omega)) (fun hw => h34 hw.1.1)
  have hstart : wireStart p = 14 + 4 * wireIhl p := rfl
  rw [u8_ofList (by omega), u8_ofList (by omega), u8_ofList (by omega)]
  simp only [Option.map_some, Option.some.injEq, ← show wireIhl p = byteAt p 14 % 16 from rfl]
  constructor
  · rintro ⟨_, e12, e13, rfl, h5, hle⟩
    exact ⟨⟨h34, by omega, h5, by omega⟩, rfl⟩
  · rintro ⟨⟨_, e, h5, hle⟩, rfl⟩
    exact ⟨h34, by omega, by omega, rfl, h5, by omega⟩

theorem Frame.u8_read (f : Frame) {i : Nat} (hi : i < f.packet.length) : u8 f.read i = some (byteAt f.packet i) :=
  f.extends_read_peek.u8 i _ (u8_ofList hi)

/-- The checks before the transport branch read captured bytes only. -/
theorem ipAccepted_read {f : Frame} {ihl : Nat} :
    IpAccepted f.read f.packet.length ihl ↔ WireIpv4 f.packet ∧ ihl = wireIhl f.packet := by
  rw [← ipAccepted_ofList]
  unfold IpAccepted
  by_cases h34 : sizeofEH + sizeofIpH ≤ f.packet.length
  swap
  · exact iff_of_false (fun hi => h34 hi.1) (fun hi => h34 hi.1)
  simp only [sizeofEH, sizeofIpH] at h34 ⊢
  rw [f.u8_read (by omega), f.u8_read (by omega), f.u8_read (by omega), u8_ofList (by omega), u8_ofList (by omega),
    u8_ofList (by omega)]

/-- What the captured bytes cover, by position. -/
theorem transportCaptured_ofList :
    TransportCaptured (ofList p) p.length ↔ (WireIpv4 p →
      (byteAt p 23 = 17 → wireStart p + 6 ≤ p.length) ∧
      (byteAt p 23 = 1 → wireStart p + icmpNeeds (byteAt p (wireStart p)) ≤ p.length)) := by
  have hneeds (type : Nat) : 1 ≤ icmpNeeds type := by unfold icmpNeeds; split_ifs <;> decide
  unfold TransportCaptured
  simp only [ipAccepted_ofList]
  constructor
  · intro hc hw
    obtain ⟨hu, hi⟩ := hc (wireIhl p) ⟨hw, rfl⟩
    have h34 := hw.1
    rw [sizeofEH, u8_ofList (by omega), wireStart_eq] at hu hi
    refine ⟨fun e => hu (by rw [e]), fun e => ?_⟩
    obtain ⟨type, htype, hle⟩ := hi (by rw [e])
    have := hneeds type
    rw [u8_ofList (by omega)] at htype
    cases htype
    exact hle
  · rintro hc ihl ⟨hw, rfl⟩
    obtain ⟨hu, hi⟩ := hc hw
    have h34 := hw.1
    rw [sizeofEH, u8_ofList (by omega), wireStart_eq]
    refine ⟨fun e => hu (Option.some.inj e), fun e => ?_⟩
    have hle := hi (Option.some.inj e)
    have := hneeds (byteAt p (wireStart p))
    exact ⟨byteAt p (wireStart p), u8_ofList (by omega), hle⟩

theorem finishPkt_ofList (h : Host) (h34 : 34 ≤ p.length) (proto info : String) :
    finishPkt h (ofList p) 14 proto info =
      some { num := 0, src := dotted p 26, dst := dotted p 30, proto := proto, len := be16 p 16 + 14, info := info } := by
  simp (disch := omega) only [finishPkt, IpH.saddr, IpH.daddr, IpH.totLen, readInAddr_ofList, u16_ofList,
    Option.bind_eq_bind, Option.bind_some, ntohs_byteAt]

/-- Parsing a buffer that covers what is read of it is the reference decoding, under either layout. -/
theorem decode_ofList (h : Host) (hc : TransportCaptured (ofList p) p.length) :
    decode h (ofList p) p.length = some (wireDecode p) := by
  simp only [decode, wireDecode, sizeofEH, sizeofIpH, EH.etherType]
  by_cases h14 : p.length < 14
  · rw [if_pos h14, if_neg fun hw : WireIpv4 p => absurd hw.1 (by omega)]
  rw [if_neg h14, u16_ofList h (by omega)]
  simp only [Option.bind_eq_bind, Option.bind_some, ntohs_byteAt, Nat.zero_add]
  by_cases htype : be16 p 12 ≠ 0x0800
  · rw [if_pos htype, if_neg fun hw : WireIpv4 p => htype hw.2.1]
  rw [if_neg htype]
  by_cases h34 : p.length < 34
  · rw [if_pos h34, if_neg fun hw : WireIpv4 p => absurd hw.1 (Nat.not_le.2 h34)]
  rw [if_neg h34, ihl_ofList h (by omega)]
  simp only [Option.bind_some, wireStart_eq]
  by_cases h5 : wireIhl p < 5
  · rw [if_pos h5, if_neg fun hw : WireIpv4 p => absurd hw.2.2.1 (Nat.not_le.2 h5)]
  rw [if_neg h5]
  by_cases hcap : p.length < wireStart p
  · rw [if_pos hcap, if_neg fun hw : WireIpv4 p => absurd hw.2.2.2 (Nat.not_le.2 hcap)]
  have hw : WireIpv4 p := ⟨by omega, not_not.1 htype, by omega, by omega⟩
  obtain ⟨hu, hi⟩ := transportCaptured_ofList.1 hc hw
  rw [if_neg hcap, if_pos hw, IpH.protocol, u8_ofList (by omega)]
  have htrans : decodeTransport h (ofList p) p.length 14 (wireIhl p) (byteAt p 23) = some (wireTransport p) := by
    unfold decodeTransport wireTransport
    split_ifs with h6 h17 h1
    · exact decodeTcp_ofList h (by omega)
    · exact decodeUdp_ofList h (hu h17)
    · exact decodeIcmp_ofList h (by omega) (hi h1)
    · rfl
  simp only [Option.bind_some, htrans, finishPkt_ofList h (show 34 ≤ p.length by omega)]
  cases wireTransport p <;> rfl

/-- The captured bytes cover the transport header: `doff * 4` bytes of TCP, 8 of UDP or ICMP. -/
def CoversTransport (p : List UInt8) : Prop :=
  (byteAt p 23 = 6 → wireStart p + 4 * wireDoff p ≤ p.length) ∧
    (byteAt p 23 = 17 ∨ byteAt p 23 = 1 → wireStart p + 8 ≤ p.length)

instance (p : List UInt8) : Decidable (CoversTransport p) := inferInstanceAs (Decidable (_ ∧ _))

theorem CoversTransport.captured (hc : CoversTransport p) : TransportCaptured (ofList p) p.length := by
  refine transportCaptured_ofList.2 fun _ => ⟨fun e => ?_, fun e => ?_⟩
  · have := hc.2 (.inl e)
    omega
  · have := hc.2 (.inr e)
    unfold icmpNeeds
    split_ifs <;> omega

theorem Frame.transportCaptured {f : Frame} (hc : CoversTransport f.packet) :
    TransportCaptured f.peek f.header.caplen.toNat := by
  rw [← f.captured]
  exact hc.captured

theorem accepted_wire (h : Host) {f : Frame} (hc : TransportCaptured f.peek f.header.caplen.toNat) :
    accepted h f = wireDecode f.packet := by
  have hf := decode_peek (h := h) hc
  rw [← f.captured] at hc hf
  exact Option.some.inj (hf.symm.trans (decode_ofList h hc))

/-- **Decoding follows the wire format on both byte orders.** If the captured bytes cover what is read
of the transport header, `packet_func` stores the same row under both layouts, or rejects the frame
under both, and the row is the one of the reference decoder. -/
theorem packet_func_wire_format {f : Frame} (hc : TransportCaptured f.peek f.header.caplen.toNat) (src : Source)
    (p : Pcap) :
    p.packetFunc .little Frame.read src f = p.packetFunc .big Frame.read src f ∧
    ∀ h, accepted h f = wireDecode f.packet ∧
      p.packetFunc h Frame.read src f = some (match wireDecode f.packet with
        | none => p
        | some pkt => { p with
            num := p.num + 1
            md := p.md.updateMd ⟨{ pkt with num := p.num }, src⟩
            vecDump := p.vecDump ++ [⟨f.dump p.num, src⟩] }) := by
  have hfunc (h : Host) : p.packetFunc h Frame.read src f = some (match wireDecode f.packet with
      | none => p
      | some pkt => { p with
          num := p.num + 1
          md := p.md.updateMd ⟨{ pkt with num := p.num }, src⟩
          vecDump := p.vecDump ++ [⟨f.dump p.num, src⟩] }) := by
    rw [Pcap.packetFunc, decode_read, accepted_wire h hc]
    cases wireDecode f.packet <;> rfl
  exact ⟨(hfunc .little).trans (hfunc .big).symm, fun h => ⟨accepted_wire h hc, hfunc h⟩⟩

/-- What the list shows of the TCP segment. -/
def tcpRow (num : Nat) : Row :=
  ⟨⟨num, "10.0.0.1", "10.0.0.2", "TCP", 69,
    "443 ---> 50000   [ SYN ACK PSH ]   Seq=16909060   Ack=84281096   Win=512   Len=3"⟩, .file 0⟩

/-- A segment with options in both headers under both layouts. -/
theorem packet_func_wire_format_tcp :
    Pcap.packetFunc .little Frame.read (.file 0) {} tcpFrame = Pcap.packetFunc .big Frame.read (.file 0) {} tcpFrame ∧
    accepted .big tcpFrame = some (tcpRow 0).pkt := by
  have hc : CoversTransport tcpFrame.packet := by decide +kernel
  obtain ⟨hboth, hwire⟩ := packet_func_wire_format (Frame.transportCaptured hc) (.file 0) {}
  exact ⟨hboth, by rw [(hwire .big).1]; decide +kernel⟩

end MiniWireshark

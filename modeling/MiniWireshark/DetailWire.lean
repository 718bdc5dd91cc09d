import MiniWireshark.Detail
import MiniWireshark.Wire

/-!
# The detail view by position

What `start_tree_md` reads of a frame whose headers are captured, stated over the bytes alone, as in
`Wire`: it is the same under both layouts.

| here | meaning |
| --- | --- |
| `wireDetail p`   | every field the tree shows, by its RFC position |
| `detail_ofList`  | `Detail.read` finds them |
-/

namespace MiniWireshark

open Reader

/-! ## The fields -/

/-- Six bytes as a MAC address. -/
def wireMac (p : List UInt8) (i : Nat) : String :=
  macText (byteAt p i) (byteAt p (i + 1)) (byteAt p (i + 2)) (byteAt p (i + 3)) (byteAt p (i + 4)) (byteAt p (i + 5))

def wireEther (p : List UInt8) : EtherView where
  dst := wireMac p 0
  src := wireMac p 6
  type := be16 p 12

/-- The bytes of the IPv4 header. -/
def wireHeader (p : List UInt8) : List UInt8 := (p.drop 14).take (wireIhl p * 4)

def wireIp (p : List UInt8) : IpView where
  version := byteAt p 14 / 16
  ihl := wireIhl p
  tos := byteAt p 15
  totLen := be16 p 16
  id := be16 p 18
  frag := be16 p 20
  ttl := byteAt p 22
  proto := byteAt p 23
  check := be16 p 24
  status := (checksumStatus (ofList (wireHeader p)) (wireIhl p * 4)).getD ""
  src := dotted p 26
  dst := dotted p 30

def wireTcpView (p : List UInt8) : TcpView :=
  let t := wireStart p
  { source := be16 p t, dest := be16 p (t + 2), seq := be32 p (t + 4), ackSeq := be32 p (t + 8), doff := wireDoff p,
    res1 := byteAt p (t + 12) % 16, flags := wireFlags (byteAt p (t + 13)), window := be16 p (t + 14),
    payload := (be16 p 16 : Int) - 4 * wireIhl p - 4 * wireDoff p }

def wireUdpView (p : List UInt8) : UdpView :=
  let t := wireStart p
  { source := be16 p t, dest := be16 p (t + 2), len := be16 p (t + 4) }

def wireIcmpView (p : List UInt8) : IcmpView :=
  let t := wireStart p
  { type := byteAt p t, code := byteAt p (t + 1) }

def wireView (p : List UInt8) : Transport :=
  if byteAt p 23 = 6 then .tcp (wireTcpView p)
  else if byteAt p 23 = 17 then .udp (wireUdpView p)
  else if byteAt p 23 = 1 then .icmp (wireIcmpView p)
  else .other

def wireDetail (p : List UInt8) : Detail where
  ether := wireEther p
  ip := wireIp p
  transport := wireView p

section
variable {p : List UInt8}

theorem wireDetail_tcp (h6 : byteAt p 23 = 6) : wireDetail p = ⟨wireEther p, wireIp p, .tcp (wireTcpView p)⟩ := by
  rw [wireDetail, wireView, if_pos h6]

theorem wireDetail_udp (h17 : byteAt p 23 = 17) : wireDetail p = ⟨wireEther p, wireIp p, .udp (wireUdpView p)⟩ := by
  rw [wireDetail, wireView, if_neg (by omega), if_pos h17]

theorem wireDetail_icmp (h1 : byteAt p 23 = 1) : wireDetail p = ⟨wireEther p, wireIp p, .icmp (wireIcmpView p)⟩ := by
  rw [wireDetail, wireView, if_neg (by omega), if_neg (by omega), if_pos h1]

end

/-- The bytes cover every field that is read of the transport header. -/
def CoversDetail (p : List UInt8) : Prop :=
  (byteAt p 23 = 6 → wireStart p + 16 ≤ p.length) ∧ (byteAt p 23 = 17 → wireStart p + 6 ≤ p.length) ∧
    (byteAt p 23 = 1 → wireStart p + 2 ≤ p.length)

instance (p : List UInt8) : Decidable (CoversDetail p) := inferInstanceAs (Decidable (_ ∧ _))

/-! ## Reading them -/

variable {p : List UInt8} {h : Host}

theorem version_ofList (h : Host) (hp : 14 < p.length) : IpH.version h (ofList p) 14 = some (byteAt p 14 / 16) := by
  have hlt := byteAt_lt p 14
  rw [IpH.version, u8_ofList hp]
  cases h <;> simp only [Host.bitField, Option.map_some, Option.some.injEq] <;> omega

/-- `res1` is the low nibble of the first byte of its unit. -/
theorem res1_ofList (h : Host) {b : Nat} (hp : b + 14 ≤ p.length) :
    TcpH.res1 h (ofList p) b = some (byteAt p (b + 12) % 16) := by
  have h0 := byteAt_lt p (b + 12)
  have h1 := byteAt_lt p (b + 12 + 1)
  rw [TcpH.res1, TcpH.bits, u16_ofList h (by omega)]
  cases h <;> simp only [Host.load16, Host.bitField, Option.map_some, Option.some.injEq] <;> omega

theorem macToString_ofList {i : Nat} (hp : i + 6 ≤ p.length) : macToString (ofList p) i = some (wireMac p i) := by
  simp (disch := omega) only [macToString, u8_ofList, Option.bind_eq_bind, Option.bind_some, wireMac]

theorem etherView_ofList (h : Host) (hp : 14 ≤ p.length) : EtherView.read h (ofList p) = some (wireEther p) := by
  simp (disch := omega) only [EtherView.read, macToString_ofList, EH.etherType, u16_ofList, Option.bind_eq_bind,
    Option.bind_some, ntohs_byteAt, wireEther, Nat.zero_add]

/-- The checksum loop stays inside the header. -/
theorem checksumStatus_header (hp : wireStart p ≤ p.length) :
    ∃ s, checksumStatus (fun i => ofList p (14 + i)) (wireIhl p * 4) = some s ∧
      checksumStatus (ofList (wireHeader p)) (wireIhl p * 4) = some s := by
  have hihl := wireIhl_lt p
  have hlen : (wireHeader p).length = wireIhl p * 4 := by
    unfold wireStart at hp
    rw [wireHeader, List.length_take, List.length_drop]
    omega
  have hsame : computeIpChecksum (fun i => ofList p (14 + i)) (wireIhl p * 4) =
      computeIpChecksum (ofList (wireHeader p)) (wireIhl p * 4) := by
    refine computeIpChecksum_congr (by omega) fun i hi => ?_
    rw [ofList, ofList, wireHeader, List.getElem?_take_of_lt hi, List.getElem?_drop]
  have hsum : computeIpChecksum (ofList (wireHeader p)) (wireHeader p).length = _ :=
    computeIpChecksum_eq (by omega) (by omega)
  rw [hlen] at hsum
  rw [checksumStatus, checksumStatus, hsame, hsum]
  exact ⟨_, rfl, rfl⟩

theorem ipView_ofList (h : Host) (h34 : 34 ≤ p.length) (hp : wireStart p ≤ p.length) :
    IpView.read h (ofList p) = some (wireIp p) := by
  obtain ⟨s, hs, hs'⟩ := checksumStatus_header hp
  simp (disch := omega) only [IpView.read, sizeofEH, version_ofList, ihl_ofList, IpH.tos, IpH.totLen, IpH.id, IpH.fragOff,
    IpH.ttl, IpH.protocol, IpH.check, IpH.saddr, IpH.daddr, u8_ofList, u16_ofList, readInAddr_ofList, hs,
    Option.bind_eq_bind, Option.bind_some, ntohs_byteAt, wireIp, hs', Option.getD_some]

theorem tcpView_ofList (h : Host) (hp : wireStart p + 16 ≤ p.length) :
    TcpView.read h (ofList p) (wireIp p) = some (wireTcpView p) := by
  have hpay : (be16 p 16 : Int) - (wireIhl p * 4 : Nat) - (byteAt p (wireStart p + 12) / 16 * 4 : Nat) =
      (be16 p 16 : Int) - 4 * wireIhl p - 4 * wireDoff p := by
    unfold wireDoff
    omega
  simp (disch := omega) only [TcpView.read, sizeofEH, wireIp, wireStart_eq, doff_ofList, res1_ofList, flags_ofList,
    TcpH.source, TcpH.dest, TcpH.seq, TcpH.ackSeq, TcpH.window, u16_ofList, u32_ofList, Option.bind_eq_bind,
    Option.bind_some, ntohs_byteAt, ntohl_byteAt, hpay]
  rfl

theorem udpView_ofList (h : Host) (hp : wireStart p + 6 ≤ p.length) :
    UdpView.read h (ofList p) (wireIp p) = some (wireUdpView p) := by
  simp (disch := omega) only [UdpView.read, sizeofEH, wireIp, wireStart_eq, UdpH.source, UdpH.dest, UdpH.len, u16_ofList,
    Option.bind_eq_bind, Option.bind_some, ntohs_byteAt, wireUdpView]

theorem icmpView_ofList (hp : wireStart p + 2 ≤ p.length) :
    IcmpView.read (ofList p) (wireIp p) = some (wireIcmpView p) := by
  simp (disch := omega) only [IcmpView.read, sizeofEH, wireIp, wireStart_eq, IcmpH.type, IcmpH.code, u8_ofList,
    Option.bind_eq_bind, Option.bind_some, wireIcmpView]

/-- **`start_tree_md` reads the fields by position**, under either layout. -/
theorem detail_ofList (h : Host) (h34 : 34 ≤ p.length) (hp : wireStart p ≤ p.length) (hc : CoversDetail p) :
    Detail.read h (ofList p) = some (wireDetail p) := by
  obtain ⟨htcp, hudp, hicmp⟩ := hc
  have htrans : Transport.read h (ofList p) (wireIp p) = some (wireView p) := by
    have hproto : (wireIp p).proto = byteAt p 23 := rfl
    unfold Transport.read wireView
    rw [hproto]
    split_ifs with h6 h17 h1
    · rw [tcpView_ofList h (htcp h6)]
      rfl
    · rw [udpView_ofList h (hudp h17)]
      rfl
    · rw [icmpView_ofList (hicmp h1)]
      rfl
    · rfl
  simp only [Detail.read, etherView_ofList h (show 14 ≤ p.length by omega), ipView_ofList h h34 hp, htrans,
    Option.bind_eq_bind, Option.bind_some, wireDetail]

end MiniWireshark

import MiniWireshark.Pcap

/-!
# Header reads stay inside the captured bytes

`decode` over a reader bounded by `caplen` is `none` exactly when a header read leaves the
buffer. The TCP branch checks its length before it reads; the UDP and ICMP branches do not, so
what they need is stated as `TransportCaptured`: the six bytes of `source`, `dest` and `len`, or
the ICMP type and whatever that type makes the handler read (`Pcap.cpp:150-215`, `:663-728`).
-/

namespace MiniWireshark

open Reader

variable {rd rd' : Nat → Option UInt8} {caplen : Nat}

/-! ## Fields by byte, on either host -/

/-- `ihl` is the low nibble of the first byte. -/
theorem ihl_eq (h : Host) (rd : Nat → Option UInt8) (b : Nat) : IpH.ihl h rd b = (u8 rd b).map (· % 16) := by
  unfold IpH.ihl
  cases h <;> simp [Host.bitField]

/-! ## What the handlers read -/

/-- The frame passes the checks before the transport branch, and `ihl` is its header length field. -/
def IpAccepted (rd : Nat → Option UInt8) (caplen ihl : Nat) : Prop :=
  sizeofEH + sizeofIpH ≤ caplen ∧ u8 rd 12 = some 8 ∧ u8 rd 13 = some 0 ∧
    (u8 rd sizeofEH).map (· % 16) = some ihl ∧ 5 ≤ ihl ∧ sizeofEH + ihl * 4 ≤ caplen

instance (rd : Nat → Option UInt8) (caplen ihl : Nat) : Decidable (IpAccepted rd caplen ihl) :=
  inferInstanceAs (Decidable (_ ∧ _))

/-- Bytes of an ICMP header the handlers read, by its type. -/
def icmpNeeds (type : Nat) : Nat :=
  if type = 3 ∨ type = 11 then 2 else if type = 0 ∨ type = 8 then 8 else 1

/-- The captured bytes cover the UDP or ICMP fields the handlers read without a check. -/
def TransportCaptured (rd : Nat → Option UInt8) (caplen : Nat) : Prop :=
  ∀ ihl, IpAccepted rd caplen ihl →
    (u8 rd (sizeofEH + 9) = some 17 → sizeofEH + ihl * 4 + 6 ≤ caplen) ∧
    (u8 rd (sizeofEH + 9) = some 1 →
      ∃ type, u8 rd (sizeofEH + ihl * 4) = some type ∧ sizeofEH + ihl * 4 + icmpNeeds type ≤ caplen)

/-- A check that rejects. -/
theorem reject_else_iff {α : Type} {c : Prop} [Decidable c] {o : Option (Option α)} {x : α} :
    (if c then some none else o) = some (some x) ↔ ¬ c ∧ o = some (some x) := by
  by_cases hc : c
  · simp [hc]
  · simp [hc]

/-- The EtherType test is on two bytes. -/
theorem etherType_iff (h : Host) :
    (∃ et, EH.etherType h rd 0 = some et ∧ h.ntohs et = 0x0800) ↔ u8 rd 12 = some 8 ∧ u8 rd 13 = some 0 := by
  simp only [EH.etherType, u16, Option.bind_eq_bind, Option.bind_eq_some_iff, Option.some.injEq, Nat.zero_add]
  constructor
  · rintro ⟨et, ⟨b12, e12, b13, e13, rfl⟩, het⟩
    have h13 := u8_lt e13
    rw [Host.ntohs_load16 h (u8_lt e12)] at het
    rw [e12, e13, Option.some.injEq, Option.some.injEq]
    omega
  · rintro ⟨e12, e13⟩
    exact ⟨_, ⟨8, e12, 0, e13, rfl⟩, Host.ntohs_load16 h (by decide)⟩

/-- **What the handlers accept**: the IPv4 checks pass, and the transport branch answers. -/
theorem decode_eq_some_iff {h : Host} {row : StPkt} :
    decode h rd caplen = some (some row) ↔ ∃ ihl protocol r, IpAccepted rd caplen ihl ∧
      u8 rd (sizeofEH + 9) = some protocol ∧ decodeTransport h rd caplen sizeofEH ihl protocol = some (some r) ∧
      finishPkt h rd sizeofEH r.1 r.2 = some row := by
  simp only [decode, reject_else_iff, Option.bind_eq_bind, Option.bind_eq_some_iff, ihl_eq, IpH.protocol, not_not]
  constructor
  · rintro ⟨_, et, het, htype, hcap, ihl, hihl, h5, hopt, protocol, hproto, r, htrans, hrow⟩
    obtain ⟨e12, e13⟩ := (etherType_iff h).1 ⟨et, het, htype⟩
    cases r with
    | none => cases hrow
    | some r =>
      obtain ⟨pkt, hpkt, hrow⟩ := Option.bind_eq_some_iff.1 hrow
      cases hrow
      have hip : IpAccepted rd caplen ihl :=
        ⟨Nat.not_lt.1 hcap, e12, e13, hihl, Nat.not_lt.1 h5, Nat.not_lt.1 hopt⟩
      exact ⟨ihl, protocol, r, hip, hproto, htrans, hpkt⟩
  · rintro ⟨ihl, protocol, r, ⟨hcap, e12, e13, hihl, h5, hopt⟩, hproto, htrans, hrow⟩
    obtain ⟨et, het, htype⟩ := (etherType_iff h).2 ⟨e12, e13⟩
    have h14 : ¬ caplen < sizeofEH := by simp only [sizeofEH, sizeofIpH] at hcap ⊢; omega
    refine ⟨h14, et, het, htype, Nat.not_lt.2 hcap, ihl, hihl, Nat.not_lt.2 h5, Nat.not_lt.2 hopt, protocol, hproto,
      some r, htrans, ?_⟩
    exact Option.bind_eq_some_iff.2 ⟨row, hrow, rfl⟩

theorem isSome_readInAddr (hb : Bounded rd caplen) {p : Nat} (hp : p + 4 ≤ caplen) :
    (readInAddr rd p).isSome = true := by
  obtain ⟨b0, e0⟩ := hb.u8 p (by omega)
  obtain ⟨b1, e1⟩ := hb.u8 (p + 1) (by omega)
  obtain ⟨b2, e2⟩ := hb.u8 (p + 2) (by omega)
  obtain ⟨b3, e3⟩ := hb.u8 (p + 3) (by omega)
  simp [readInAddr, e0, e1, e2, e3]

/-- The TCP branch checks before it reads. -/
theorem isSome_decodeTcp (h : Host) (hb : Bounded rd caplen) (ihl : Nat) :
    (decodeTcp h rd caplen sizeofEH ihl).isSome = true := by
  simp only [decodeTcp, sizeofEH, sizeofTcpH]
  generalize htcp : 14 + ihl * 4 = tcp
  by_cases hc : caplen < tcp + 20
  · rw [if_pos hc]; rfl
  rw [if_neg hc]
  have hbits : (TcpH.bits h rd tcp).isSome = true := (isSome_u16 (tcp + 12) h hb).2 (by omega)
  have hdoff : (TcpH.doff h rd tcp).isSome = true := by
    rw [TcpH.doff, Option.isSome_map, hbits]
  have hflags : (TcpH.flags h rd tcp).isSome = true := by
    rw [TcpH.flags, Option.isSome_map, hbits]
  obtain ⟨doff, edoff⟩ := Option.isSome_iff_exists.1 hdoff
  obtain ⟨fl, efl⟩ := Option.isSome_iff_exists.1 hflags
  obtain ⟨source, esource⟩ := hb.u16 h tcp (by omega)
  obtain ⟨dest, edest⟩ := hb.u16 h (tcp + 2) (by omega)
  obtain ⟨seq, eseq⟩ := hb.u32 h (tcp + 4) (by omega)
  obtain ⟨ack, eack⟩ := hb.u32 h (tcp + 8) (by omega)
  obtain ⟨win, ewin⟩ := hb.u16 h (tcp + 14) (by omega)
  obtain ⟨tot, etot⟩ := hb.u16 h (14 + 2) (by omega)
  simp only [edoff, efl, TcpH.source, TcpH.dest, TcpH.seq, TcpH.ackSeq, TcpH.window, IpH.totLen, esource, edest,
    eseq, eack, ewin, etot, Option.bind_eq_bind, Option.bind_some]
  split
  · rfl
  · split <;> rfl

theorem isSome_decodeUdp (h : Host) (hb : Bounded rd caplen) (ihl : Nat) :
    (decodeUdp h rd sizeofEH ihl).isSome = true ↔ sizeofEH + ihl * 4 + 6 ≤ caplen := by
  simp only [decodeUdp, UdpH.source, UdpH.dest, UdpH.len]
  have r0 := isSome_u16 (sizeofEH + ihl * 4) h hb
  have r2 := isSome_u16 (sizeofEH + ihl * 4 + 2) h hb
  have r4 := isSome_u16 (sizeofEH + ihl * 4 + 4) h hb
  cases e0 : u16 h rd (sizeofEH + ihl * 4) <;> cases e2 : u16 h rd (sizeofEH + ihl * 4 + 2) <;>
    cases e4 : u16 h rd (sizeofEH + ihl * 4 + 4) <;>
    simp [e0, e2, e4] at r0 r2 r4 ⊢ <;> omega

theorem isSome_decodeIcmpDetail (h : Host) (hb : Bounded rd caplen) (hip : sizeofEH + sizeofIpH ≤ caplen)
    (type : Nat) {icmp : Nat} (ht : icmp + 1 ≤ caplen) :
    (decodeIcmpDetail h rd sizeofEH icmp type).isSome = true ↔ icmp + icmpNeeds type ≤ caplen := by
  unfold decodeIcmpDetail icmpNeeds IcmpH.code IcmpH.echoId IcmpH.echoSequence IpH.ttl
  have hcode := isSome_u8 (icmp + 1) hb
  have hid := isSome_u16 (icmp + 4) h hb
  have hseq := isSome_u16 (icmp + 6) h hb
  simp only [sizeofEH, sizeofIpH] at hip ⊢
  obtain ⟨ttl, ettl⟩ := hb.u8 (14 + 8) (by omega)
  by_cases h3 : type = 3
  · cases e : u8 rd (icmp + 1) <;> simp [h3, e] at hcode ⊢ <;> omega
  by_cases h11 : type = 11
  · cases e : u8 rd (icmp + 1) <;> simp [h11, e] at hcode ⊢ <;> omega
  by_cases h08 : type = 0 ∨ type = 8
  · cases e : u16 h rd (icmp + 4) <;> cases e' : u16 h rd (icmp + 6) <;>
      simp [h3, h11, h08, e, e', ettl] at hid hseq ⊢ <;> omega
  · simp only [h3, h11, h08, or_self, if_false, Option.isSome_some, true_iff]
    exact ht

theorem isSome_decodeIcmp (h : Host) (hb : Bounded rd caplen) (hip : sizeofEH + sizeofIpH ≤ caplen) (ihl : Nat) :
    (decodeIcmp h rd sizeofEH ihl).isSome = true ↔
      ∃ type, u8 rd (sizeofEH + ihl * 4) = some type ∧ sizeofEH + ihl * 4 + icmpNeeds type ≤ caplen := by
  simp only [decodeIcmp, IcmpH.type]
  have ht := isSome_u8 (sizeofEH + ihl * 4) hb
  cases e : u8 rd (sizeofEH + ihl * 4) with
  | none => simp
  | some type =>
    rw [e] at ht
    have hd := isSome_decodeIcmpDetail h hb hip type (ht.1 rfl)
    cases e' : decodeIcmpDetail h rd sizeofEH (sizeofEH + ihl * 4) type <;> simp [e'] at hd ⊢ <;> omega

theorem isSome_finishPkt (h : Host) (hb : Bounded rd caplen) (hip : sizeofEH + sizeofIpH ≤ caplen)
    (proto info : String) : (finishPkt h rd sizeofEH proto info).isSome = true := by
  simp only [sizeofEH, sizeofIpH] at hip ⊢
  obtain ⟨src, esrc⟩ := Option.isSome_iff_exists.1 (isSome_readInAddr hb (show 14 + 12 + 4 ≤ caplen by omega))
  obtain ⟨dst, edst⟩ := Option.isSome_iff_exists.1 (isSome_readInAddr hb (show 14 + 16 + 4 ≤ caplen by omega))
  obtain ⟨tot, etot⟩ := hb.u16 h (14 + 2) (by omega)
  simp [finishPkt, IpH.saddr, IpH.daddr, IpH.totLen, esrc, edst, etot]

theorem isSome_decodeTransport (h : Host) (hb : Bounded rd caplen) (hip : sizeofEH + sizeofIpH ≤ caplen)
    (ihl protocol : Nat) :
    (decodeTransport h rd caplen sizeofEH ihl protocol).isSome = true ↔
      (protocol = 17 → sizeofEH + ihl * 4 + 6 ≤ caplen) ∧
      (protocol = 1 →
        ∃ type, u8 rd (sizeofEH + ihl * 4) = some type ∧ sizeofEH + ihl * 4 + icmpNeeds type ≤ caplen) := by
  unfold decodeTransport
  by_cases h6 : protocol = 6
  · simp [h6, isSome_decodeTcp h hb]
  by_cases h17 : protocol = 17
  · simp [h17, isSome_decodeUdp h hb]
  by_cases h1 : protocol = 1
  · simp [h1, isSome_decodeIcmp h hb hip]
  · simp [h6, h17, h1]

theorem etherType_spec (h : Host) (hb : Bounded rd caplen) (h14 : 14 ≤ caplen) :
    ∃ et, EH.etherType h rd 0 = some et ∧
      (h.ntohs et = 0x0800 ↔ u8 rd 12 = some 8 ∧ u8 rd 13 = some 0) := by
  obtain ⟨et, eet⟩ : ∃ et, EH.etherType h rd 0 = some et := hb.u16 h 12 (by omega)
  refine ⟨et, eet, ?_⟩
  rw [← etherType_iff h, eet]
  simp

/-- **Header reads, exactly.** Parsing never reads a header field outside a buffer of `caplen`
bytes iff the captured bytes cover the unchecked UDP or ICMP fields. -/
theorem isSome_decode (h : Host) (hb : Bounded rd caplen) :
    (decode h rd caplen).isSome = true ↔ TransportCaptured rd caplen := by
  unfold TransportCaptured IpAccepted
  simp only [decode]
  by_cases h14 : caplen < sizeofEH
  · rw [if_pos h14]
    refine iff_of_true rfl (fun ihl hip => ?_)
    have := hip.1
    simp only [sizeofEH, sizeofIpH] at h14 this
    omega
  rw [if_neg h14]
  obtain ⟨et, eet, het⟩ := etherType_spec h hb (Nat.not_lt.1 h14)
  simp only [eet, Option.bind_eq_bind, Option.bind_some]
  by_cases h0800 : h.ntohs et = 0x0800
  swap
  · rw [if_pos h0800]
    exact iff_of_true rfl (fun ihl hip => absurd (het.2 ⟨hip.2.1, hip.2.2.1⟩) h0800)
  rw [if_neg (not_not.2 h0800)]
  obtain ⟨e12, e13⟩ := het.1 h0800
  by_cases h34 : caplen < sizeofEH + sizeofIpH
  · rw [if_pos h34]
    exact iff_of_true rfl (fun ihl hip => absurd hip.1 (Nat.not_le.2 h34))
  rw [if_neg h34]
  have hip := Nat.not_lt.1 h34
  obtain ⟨b, eb⟩ := hb.u8 sizeofEH (by simp only [sizeofEH, sizeofIpH] at hip ⊢; omega)
  obtain ⟨protocol, eproto⟩ := hb.u8 (sizeofEH + 9) (by simp only [sizeofEH, sizeofIpH] at hip ⊢; omega)
  simp only [ihl_eq, eb, Option.map_some, Option.bind_some, IpH.protocol, eproto, e12, e13, Option.some.injEq]
  generalize b % 16 = ihl
  by_cases h5 : ihl < 5
  · rw [if_pos h5]
    refine iff_of_true rfl (fun ihl' hip' => ?_)
    omega
  rw [if_neg h5]
  by_cases hcap : caplen < sizeofEH + ihl * 4
  · rw [if_pos hcap]
    refine iff_of_true rfl (fun ihl' hip' => ?_)
    obtain ⟨_, _, _, rfl, _, hle⟩ := hip'
    omega
  rw [if_neg hcap]
  refine Iff.trans (b := (decodeTransport h rd caplen sizeofEH ihl protocol).isSome = true) ?_ ?_
  · -- after the transport branch only fields of the first 34 bytes are read
    cases e : decodeTransport h rd caplen sizeofEH ihl protocol with
    | none => simp
    | some r =>
      cases r with
      | none => simp
      | some pi =>
        obtain ⟨pkt, epkt⟩ := Option.isSome_iff_exists.1 (isSome_finishPkt h hb hip pi.1 pi.2)
        simp [epkt]
  · rw [isSome_decodeTransport h hb hip]
    constructor
    · rintro H ihl' ⟨_, _, _, rfl, _, _⟩
      exact H
    · intro H
      exact H ihl ⟨hip, trivial, trivial, rfl, by omega, by omega⟩

/-! ## Reading all of memory -/

section
variable (h : Host) (ht : Total rd) (caplen ip ihl : Nat)
include ht

theorem isSome_decodeTcp_total : (decodeTcp h rd caplen ip ihl).isSome = true := by
  have hbits (b : Nat) : (TcpH.bits h rd b).isSome = true := ht.u16 h _
  have hdoff (b : Nat) : (TcpH.doff h rd b).isSome = true := by rw [TcpH.doff, Option.isSome_map]; exact hbits b
  have hflags (b : Nat) : (TcpH.flags h rd b).isSome = true := by rw [TcpH.flags, Option.isSome_map]; exact hbits b
  refine isSome_ite rfl (isSome_bind (hdoff _) fun doff => isSome_ite rfl (isSome_ite rfl ?_))
  refine isSome_bind (ht.u16 h _) fun source => isSome_bind (ht.u16 h _) fun dest => ?_
  refine isSome_bind (hflags _) fun fl => isSome_bind (ht.u32 h _) fun seq => ?_
  refine isSome_bind (ht.u32 h _) fun ackSeq => isSome_bind (ht.u16 h _) fun window => ?_
  exact isSome_bind (ht.u16 h _) fun totLen => rfl

theorem isSome_decodeUdp_total : (decodeUdp h rd ip ihl).isSome = true :=
  isSome_bind (ht.u16 h _) fun _ => isSome_bind (ht.u16 h _) fun _ => isSome_bind (ht.u16 h _) fun _ => rfl

theorem isSome_decodeIcmpDetail_total (icmp type : Nat) :
    (decodeIcmpDetail h rd ip icmp type).isSome = true := by
  refine isSome_ite (isSome_bind (ht.u8 _) fun _ => rfl) ?_
  refine isSome_ite (isSome_bind (ht.u8 _) fun _ => rfl) (isSome_ite ?_ rfl)
  exact isSome_bind (ht.u16 h _) fun _ => isSome_bind (ht.u16 h _) fun _ => isSome_bind (ht.u8 _) fun _ => rfl

theorem isSome_decodeIcmp_total : (decodeIcmp h rd ip ihl).isSome = true :=
  isSome_bind (ht.u8 _) fun _ => isSome_bind (isSome_decodeIcmpDetail_total h ht _ _ _) fun _ => rfl

theorem isSome_finishPkt_total (proto info : String) : (finishPkt h rd ip proto info).isSome = true := by
  have haddr (p : Nat) : (readInAddr rd p).isSome = true :=
    isSome_bind (ht.u8 _) fun _ => isSome_bind (ht.u8 _) fun _ => isSome_bind (ht.u8 _) fun _ =>
      isSome_bind (ht.u8 _) fun _ => rfl
  exact isSome_bind (haddr _) fun _ => isSome_bind (haddr _) fun _ => isSome_bind (ht.u16 h _) fun _ => rfl

/-- Parsing over all of memory always returns. -/
theorem isSome_decode_total : (decode h rd caplen).isSome = true := by
  have hihl (b : Nat) : (IpH.ihl h rd b).isSome = true := by rw [IpH.ihl, Option.isSome_map]; exact ht.u8 b
  refine isSome_ite rfl (isSome_bind (ht.u16 h _) fun etherType => isSome_ite rfl (isSome_ite rfl ?_))
  refine isSome_bind (hihl _) fun ihl => isSome_ite rfl (isSome_ite rfl ?_)
  refine isSome_bind (ht.u8 _) fun protocol => isSome_bind ?_ fun r => ?_
  · exact isSome_ite (isSome_decodeTcp_total h ht _ _ _) (isSome_ite (isSome_decodeUdp_total h ht _ _)
      (isSome_ite (isSome_decodeIcmp_total h ht _ _) rfl))
  · cases r with
    | none => rfl
    | some pi => exact isSome_bind (isSome_finishPkt_total h ht _ _ _) fun _ => rfl

end

/-! ## Reading more of memory -/

section
variable (h : Host) (he : Extends rd' rd) (caplen ip ihl : Nat)
include he

theorem ext_decodeTcp : Ext (decodeTcp h rd caplen ip ihl) (decodeTcp h rd' caplen ip ihl) := by
  have hbits (b : Nat) : Ext (TcpH.bits h rd b) (TcpH.bits h rd' b) := he.u16 h _
  refine .ite (.refl _) (((hbits _).map _).bind fun doff => .ite (.refl _) (.ite (.refl _) ?_))
  refine (he.u16 h _).bind fun source => (he.u16 h _).bind fun dest => ?_
  refine ((hbits _).map _).bind fun fl => (he.u32 h _).bind fun seq => ?_
  refine (he.u32 h _).bind fun ackSeq => (he.u16 h _).bind fun window => ?_
  exact (he.u16 h _).bind fun totLen => .refl _

theorem ext_decodeUdp : Ext (decodeUdp h rd ip ihl) (decodeUdp h rd' ip ihl) :=
  (he.u16 h _).bind fun _ => (he.u16 h _).bind fun _ => (he.u16 h _).bind fun _ => .refl _

theorem ext_decodeIcmpDetail (icmp type : Nat) :
    Ext (decodeIcmpDetail h rd ip icmp type) (decodeIcmpDetail h rd' ip icmp type) := by
  refine .ite ((he.u8 _).bind fun _ => .refl _) ?_
  refine .ite ((he.u8 _).bind fun _ => .refl _) (.ite ?_ (.refl _))
  exact (he.u16 h _).bind fun _ => (he.u16 h _).bind fun _ => (he.u8 _).bind fun _ => .refl _

theorem ext_decodeIcmp : Ext (decodeIcmp h rd ip ihl) (decodeIcmp h rd' ip ihl) :=
  (he.u8 _).bind fun _ => (ext_decodeIcmpDetail h he _ _ _).bind fun _ => .refl _

theorem ext_finishPkt (proto info : String) :
    Ext (finishPkt h rd ip proto info) (finishPkt h rd' ip proto info) := by
  have haddr (p : Nat) : Ext (readInAddr rd p) (readInAddr rd' p) :=
    (he.u8 _).bind fun _ => (he.u8 _).bind fun _ => (he.u8 _).bind fun _ => (he.u8 _).bind fun _ => .refl _
  exact (haddr _).bind fun _ => (haddr _).bind fun _ => (he.u16 h _).bind fun _ => .refl _

/-- A reader of more memory parses what the smaller one does. -/
theorem ext_decode : Ext (decode h rd caplen) (decode h rd' caplen) := by
  have hihl (b : Nat) : Ext (IpH.ihl h rd b) (IpH.ihl h rd' b) := (he.u8 _).map _
  refine .ite (.refl _) ((he.u16 h _).bind fun etherType => .ite (.refl _) (.ite (.refl _) ?_))
  refine (hihl _).bind fun ihl => .ite (.refl _) (.ite (.refl _) ?_)
  refine (he.u8 _).bind fun protocol => .bind ?_ fun r => ?_
  · exact .ite (ext_decodeTcp h he _ _ _) (.ite (ext_decodeUdp h he _ _)
      (.ite (ext_decodeIcmp h he _ _) (.refl _)))
  · cases r with
    | none => exact .refl _
    | some pi => exact (ext_finishPkt h he _ _ _).bind fun _ => .refl _

end

end MiniWireshark

import MiniWireshark.Info

/-!
# Fragments (`Pcap.cpp:53-219`, `:567-732`)

Neither handler reads `frag_off`. Whatever the fragment offset, the bytes behind the IPv4 header are
parsed as a transport header.

| here | meaning |
| --- | --- |
| `Frame.reach`     | the captured bytes, with what follows them in memory as far as a handler reads |
| `TcpCovered p`    | the checks of the TCP branch |
| `Accepts p`       | the handlers accept a frame with the captured bytes `p` |
| `SameHeaders p q` | the Ethernet and IPv4 headers are the same |
| `fragOffset p`    | `ntohs(frag_off) & 0x1FFF` |
-/

namespace MiniWireshark

open Reader

variable {p q : List UInt8} {h : Host} {f g : Frame} {row : StPkt}

/-! ## What the handlers make of any frame -/

/-- A header of 60 bytes at 14, and 8 bytes more: UDP and ICMP are read without a length check. -/
def Frame.reach (f : Frame) : List UInt8 := (List.range (max f.packet.length 82)).map f.mem

theorem Frame.length_reach (f : Frame) : f.reach.length = max f.packet.length 82 := by
  rw [reach, List.length_map, List.length_range]

theorem Frame.getElem?_reach {i : Nat} (hi : i < f.reach.length) : f.reach[i]? = some (f.mem i) := by
  rw [length_reach] at hi
  rw [reach, List.getElem?_map, List.getElem?_range hi, Option.map_some]

theorem Frame.extends_read_reach (f : Frame) : Extends f.read (ofList f.reach) := by
  intro i b hb
  have hi : i < f.reach.length := (List.getElem?_eq_some_iff.1 hb).1
  exact (f.getElem?_reach hi).symm.trans hb

theorem decode_reach (h : Host) (f : Frame) : decode h f.read f.reach.length = some (wireDecode f.reach) := by
  have hstart : wireStart f.reach ≤ 74 := by
    have := wireIhl_lt f.reach
    unfold wireStart
    omega
  have hlen := f.length_reach
  have hc : TransportCaptured (ofList f.reach) f.reach.length := by
    refine transportCaptured_ofList.2 fun _ => ⟨fun _ => by omega, fun _ => ?_⟩
    unfold icmpNeeds
    split_ifs <;> omega
  exact ext_decode h f.extends_read_reach _ _ (decode_ofList h hc)

section
variable {rd : Nat → Option UInt8} {c c' ip ihl protocol : Nat} {r : String × String}

theorem IpAccepted.mono (hi : IpAccepted rd c ihl) (hc : c ≤ c') : IpAccepted rd c' ihl := by
  obtain ⟨hip, e12, e13, hihl, h5, hopt⟩ := hi
  exact ⟨by omega, e12, e13, hihl, h5, by omega⟩

theorem decodeTcp_mono (hr : decodeTcp h rd c ip ihl = some (some r)) (hc : c ≤ c') :
    decodeTcp h rd c' ip ihl = some (some r) := by
  simp only [decodeTcp, reject_else_iff, Option.bind_eq_bind, Option.bind_eq_some_iff] at hr ⊢
  obtain ⟨h20, doff, edoff, h5, hcap, hrest⟩ := hr
  exact ⟨by omega, doff, edoff, h5, by omega, hrest⟩

/-- More captured bytes change no row. -/
theorem decode_mono (hd : decode h rd c = some (some row)) (hc : c ≤ c') : decode h rd c' = some (some row) := by
  obtain ⟨ihl, protocol, r, hip, hproto, htrans, hrow⟩ := decode_eq_some_iff.1 hd
  refine decode_eq_some_iff.2 ⟨ihl, protocol, r, hip.mono hc, hproto, ?_, hrow⟩
  unfold decodeTransport at htrans ⊢
  split_ifs at htrans ⊢
  · exact decodeTcp_mono htrans hc
  · exact htrans
  · exact htrans
  · exact htrans

end

/-- The row of an accepted frame is read off the memory it reaches. -/
theorem accepted_reach (ha : accepted h f = some row) : wireDecode f.reach = some row := by
  have hd := decode_read h f
  have hlen := f.length_reach
  rw [ha, ← f.captured] at hd
  have hmono := decode_mono hd (show f.packet.length ≤ f.reach.length by omega)
  exact Option.some.inj ((decode_reach h f).symm.trans hmono)

/-- The header is complete, it names at least five words, and all of them are captured. -/
def TcpCovered (p : List UInt8) : Prop :=
  wireStart p + 20 ≤ p.length ∧ 5 ≤ wireDoff p ∧ wireStart p + 4 * wireDoff p ≤ p.length

instance (p : List UInt8) : Decidable (TcpCovered p) := inferInstanceAs (Decidable (_ ∧ _))

def Accepts (p : List UInt8) : Prop :=
  WireIpv4 p ∧ (byteAt p 23 = 6 ∧ TcpCovered p ∨ byteAt p 23 = 17 ∨ byteAt p 23 = 1)

instance (p : List UInt8) : Decidable (Accepts p) := inferInstanceAs (Decidable (_ ∧ _))

theorem decodeTcp_read_iff {r : String × String} (hw : WireIpv4 f.packet) :
    decodeTcp h f.read f.packet.length sizeofEH (wireIhl f.packet) = some (some r) ↔ wireTcp f.packet = some r := by
  have hext := ext_decodeTcp h f.extends_read_peek f.packet.length sizeofEH (wireIhl f.packet)
  rw [hext _ (decodeTcp_ofList h hw.1), Option.some.injEq]

theorem wireTcp_eq : wireTcp p = if TcpCovered p then some ("TCP", (wireTcpFields p).info) else none := rfl

theorem wireTcp_isSome : (wireTcp p).isSome = true ↔ TcpCovered p := by
  rw [wireTcp_eq, Option.isSome_ite]

theorem WireIpv4.start_le (hw : WireIpv4 p) : 34 ≤ wireStart p := by
  have h5 := hw.2.2.1
  unfold wireStart
  omega

/-- The branches answer by protocol; of the bytes behind the IPv4 header only those of TCP are checked. -/
theorem exists_decodeTransport_iff (hw : WireIpv4 f.packet) :
    (∃ r, decodeTransport h f.read f.packet.length sizeofEH (wireIhl f.packet) (byteAt f.packet 23) = some (some r)) ↔
      byteAt f.packet 23 = 6 ∧ TcpCovered f.packet ∨ byteAt f.packet 23 = 17 ∨ byteAt f.packet 23 = 1 := by
  -- UDP and ICMP read without a check, so over all of memory they always answer
  unfold decodeTransport
  by_cases h6 : byteAt f.packet 23 = 6
  · simp only [h6, if_true, decodeTcp_read_iff hw, ← wireTcp_isSome, Option.isSome_iff_exists]
    simp
  by_cases h17 : byteAt f.packet 23 = 17
  · obtain ⟨x, hx⟩ := Option.isSome_iff_exists.1 (isSome_decodeUdp_total h f.total_read sizeofEH (wireIhl f.packet))
    have hr := hx
    simp only [decodeUdp, Option.bind_eq_bind, Option.bind_eq_some_iff, Option.some.injEq] at hr
    obtain ⟨_, _, _, _, _, _, rfl⟩ := hr
    rw [if_neg h6, if_pos h17]
    exact iff_of_true ⟨_, hx⟩ (.inr (.inl h17))
  by_cases h1 : byteAt f.packet 23 = 1
  · obtain ⟨x, hx⟩ := Option.isSome_iff_exists.1 (isSome_decodeIcmp_total h f.total_read sizeofEH (wireIhl f.packet))
    have hr := hx
    simp only [decodeIcmp, Option.bind_eq_bind, Option.bind_eq_some_iff, Option.some.injEq] at hr
    obtain ⟨_, _, _, _, rfl⟩ := hr
    rw [if_neg h6, if_neg h17, if_pos h1]
    exact iff_of_true ⟨_, hx⟩ (.inr (.inr h1))
  · simp [h6, h17, h1]

theorem isSome_accepted_iff : (accepted h f).isSome = true ↔ Accepts f.packet := by
  have hd := decode_read h f
  rw [← f.captured] at hd
  have hsome (row : StPkt) : accepted h f = some row ↔ decode h f.read f.packet.length = some (some row) := by
    rw [hd, Option.some.injEq]
  have hread (hw : WireIpv4 f.packet) : u8 f.read (sizeofEH + 9) = some (byteAt f.packet 23) := by
    have h34 := hw.1
    exact f.u8_read (by simp only [sizeofEH]; omega)
  simp only [Option.isSome_iff_exists, hsome, decode_eq_some_iff, ipAccepted_read]
  constructor
  · rintro ⟨row, ihl, protocol, r, ⟨hw, rfl⟩, hproto, htrans, _⟩
    obtain rfl : byteAt f.packet 23 = protocol := Option.some.inj ((hread hw).symm.trans hproto)
    exact ⟨hw, (exists_decodeTransport_iff hw).1 ⟨r, htrans⟩⟩
  · rintro ⟨hw, hproto⟩
    obtain ⟨r, htrans⟩ := (exists_decodeTransport_iff (h := h) hw).2 hproto
    obtain ⟨row, hrow⟩ := Option.isSome_iff_exists.1 (isSome_finishPkt_total h f.total_read sizeofEH r.1 r.2)
    exact ⟨row, wireIhl f.packet, byteAt f.packet 23, r, ⟨hw, rfl⟩, hread hw, htrans, hrow⟩

/-- **What the handlers make of any frame**, captured whole or not. -/
theorem accepted_eq (h : Host) (f : Frame) : accepted h f = if Accepts f.packet then wireDecode f.reach else none := by
  cases ha : accepted h f with
  | none =>
    have hn : ¬ Accepts f.packet := by
      rw [← isSome_accepted_iff (h := h), ha]
      exact Bool.false_ne_true
    rw [if_neg hn]
  | some row =>
    have hp : Accepts f.packet := by
      rw [← isSome_accepted_iff (h := h), ha]
      rfl
    rw [if_pos hp, accepted_reach ha]

/-! ## Bytes that do not count -/

theorem wireDecode_eq_some (hd : wireDecode p = some row) :
    row.src = dotted p 26 ∧ row.dst = dotted p 30 ∧ row.proto = (wireShown p).proto ∧ row.len = be16 p 16 + 14 ∧
      row.info.toList = (wireShown p).text := by
  rw [wireDecode, Option.ite_none_right_eq_some] at hd
  obtain ⟨r, hr, rfl⟩ := Option.map_eq_some_iff.1 hd.2
  obtain ⟨hproto, hinfo⟩ := wireTransport_shown hr
  exact ⟨rfl, rfl, hproto, rfl, hinfo⟩

section
variable (hb : ∀ i, i ≠ 20 → i ≠ 21 → byteAt p i = byteAt q i)
include hb

theorem be16_congr {i : Nat} (hi : i + 1 < 20 ∨ 21 < i) : be16 p i = be16 q i := by
  simp (disch := omega) only [be16, hb]

theorem be32_congr {i : Nat} (hi : i + 3 < 20 ∨ 21 < i) : be32 p i = be32 q i := by
  simp (disch := omega) only [be32, hb]

theorem dotted_congr {i : Nat} (hi : i + 3 < 20 ∨ 21 < i) : dotted p i = dotted q i := by
  simp (disch := omega) only [dotted, hb]

theorem wireIhl_congr : wireIhl p = wireIhl q := by
  simp (disch := omega) only [wireIhl, hb]

theorem wireStart_congr : wireStart p = wireStart q := by
  rw [wireStart, wireStart, wireIhl_congr hb]

theorem wireDoff_congr (hstart : 34 ≤ wireStart q) : wireDoff p = wireDoff q := by
  rw [wireDoff, wireDoff, wireStart_congr hb, hb _ (by omega) (by omega)]

theorem wireIpv4_congr (hlen : p.length = q.length) : WireIpv4 p ↔ WireIpv4 q := by
  unfold WireIpv4
  rw [hlen, be16_congr hb (.inl (by decide)), wireIhl_congr hb, wireStart_congr hb]

theorem tcpCovered_congr (hlen : p.length = q.length) (hstart : 34 ≤ wireStart q) : TcpCovered p ↔ TcpCovered q := by
  unfold TcpCovered
  rw [hlen, wireStart_congr hb, wireDoff_congr hb hstart]

theorem wireTransport_congr (hlen : p.length = q.length) (hstart : 34 ≤ wireStart q) :
    wireTransport p = wireTransport q := by
  have e := wireStart_congr hb
  unfold wireTransport
  rw [hb 23 (by decide) (by decide)]
  split_ifs
  · rw [wireTcp_eq, wireTcp_eq]
    simp only [tcpCovered_congr hb hlen hstart]
    simp (disch := omega) only [wireTcpFields, e, hb, be16_congr hb, be32_congr hb, wireIhl_congr hb, wireDoff_congr hb]
  · simp (disch := omega) only [wireUdp, e, be16_congr hb]
  · have hdetail : wireIcmpDetail p = wireIcmpDetail q := by
      simp only [wireIcmpDetail]
      rw [e, hb (wireStart q) (by omega) (by omega), hb _ (by omega) (by omega), be16_congr hb (by omega),
        be16_congr hb (by omega), hb 22 (by decide) (by decide)]
    rw [wireIcmp, wireIcmp, hdetail, e, hb _ (by omega) (by omega)]
  · rfl

/-- The two bytes of `frag_off` do not show. -/
theorem wireDecode_congr (hlen : p.length = q.length) : wireDecode p = wireDecode q := by
  unfold wireDecode
  by_cases hw : WireIpv4 p
  swap
  · rw [if_neg hw, if_neg (mt (wireIpv4_congr hb hlen).2 hw)]
  have hw' := (wireIpv4_congr hb hlen).1 hw
  rw [if_pos hw, if_pos hw', wireTransport_congr hb hlen hw'.start_le, dotted_congr hb (.inr (by decide)),
    dotted_congr hb (.inr (by decide)), be16_congr hb (.inl (by decide))]

theorem accepts_congr (hlen : p.length = q.length) : Accepts p ↔ Accepts q := by
  unfold Accepts
  rw [wireIpv4_congr hb hlen, hb 23 (by decide) (by decide)]
  refine and_congr_right fun hw => ?_
  rw [tcpCovered_congr hb hlen hw.start_le]

end

/-- The frames are the same in memory but for the two bytes of `frag_off`. -/
def SameButOffset (f g : Frame) : Prop :=
  f.packet.length = g.packet.length ∧ ∀ i, i ≠ 20 → i ≠ 21 → f.mem i = g.mem i

theorem Frame.byteAt_packet (f : Frame) {i : Nat} (hi : i < f.packet.length) : byteAt f.packet i = (f.mem i).toNat := by
  rw [byteAt, f.mem_of_lt hi, List.getElem?_eq_getElem hi, Option.getD_some]

theorem Frame.byteAt_reach (f : Frame) {i : Nat} (hi : i < f.reach.length) : byteAt f.reach i = (f.mem i).toNat := by
  rw [byteAt, f.getElem?_reach hi, Option.getD_some]

theorem byteAt_of_le {i : Nat} (hi : p.length ≤ i) : byteAt p i = 0 := by
  rw [byteAt, List.getElem?_eq_none hi]
  rfl

theorem byteAt_congr (hlen : p.length = q.length)
    (hb : ∀ i < p.length, i ≠ 20 → i ≠ 21 → byteAt p i = byteAt q i) : ∀ i, i ≠ 20 → i ≠ 21 → byteAt p i = byteAt q i := by
  intro i h20 h21
  by_cases hi : i < p.length
  · exact hb i hi h20 h21
  · rw [byteAt_of_le (by omega), byteAt_of_le (by omega)]

theorem SameButOffset.accepted (hs : SameButOffset f g) : accepted h f = accepted h g := by
  obtain ⟨hlen, hmem⟩ := hs
  have hreach : f.reach.length = g.reach.length := by rw [f.length_reach, g.length_reach, hlen]
  have hb : ∀ i, i ≠ 20 → i ≠ 21 → byteAt f.packet i = byteAt g.packet i := by
    refine byteAt_congr hlen fun i hi h20 h21 => ?_
    rw [f.byteAt_packet hi, g.byteAt_packet (hlen ▸ hi), hmem i h20 h21]
  have hb' : ∀ i, i ≠ 20 → i ≠ 21 → byteAt f.reach i = byteAt g.reach i := by
    refine byteAt_congr hreach fun i hi h20 h21 => ?_
    rw [f.byteAt_reach hi, g.byteAt_reach (hreach ▸ hi), hmem i h20 h21]
  rw [accepted_eq, accepted_eq, wireDecode_congr hb' hreach]
  simp only [accepts_congr hb hlen]

theorem SameButOffset.rowOf (hs : SameButOffset f g) {pkt : StPkt} : RowOf h f pkt ↔ RowOf h g pkt := by
  rw [rowOf_iff, rowOf_iff, hs.accepted]

/-! ## Frames with the same headers -/

def SameHeaders (p q : List UInt8) : Prop := p.take (wireStart p) = q.take (wireStart p)

instance (p q : List UInt8) : Decidable (SameHeaders p q) := inferInstanceAs (Decidable (_ = _))

def fragOffset (p : List UInt8) : Nat := be16 p 20 &&& 0x1FFF

theorem SameHeaders.byteAt_eq (hs : SameHeaders p q) {i : Nat} (hi : i < wireStart p) : byteAt p i = byteAt q i := by
  have hget := congrArg (fun l => l[i]?) hs
  simp only [List.getElem?_take_of_lt hi] at hget
  rw [byteAt, byteAt, hget]

theorem SameHeaders.wireIhl_eq (hs : SameHeaders p q) (hw : WireIpv4 p) : wireIhl q = wireIhl p := by
  have hstart := hw.start_le
  rw [wireIhl, ← hs.byteAt_eq (show 14 < wireStart p by omega)]
  rfl

/-- The checks before the transport branch are on the headers. -/
theorem SameHeaders.wireIpv4 (hs : SameHeaders p q) (hw : WireIpv4 p) : WireIpv4 q := by
  have hstart := hw.start_le
  have hlen := congrArg List.length hs
  rw [List.length_take, List.length_take] at hlen
  have hihl := hs.wireIhl_eq hw
  obtain ⟨h34, htype, h5, hcap⟩ := hw
  refine ⟨by omega, ?_, by rw [hihl]; exact h5, by rw [wireStart, hihl]; unfold wireStart at hlen hcap; omega⟩
  rw [← htype, be16, be16, hs.byteAt_eq (show 12 < wireStart p by omega),
    hs.byteAt_eq (show 12 + 1 < wireStart p by omega)]

/-- They decide on acceptance, but for the checks of the TCP branch. -/
theorem SameHeaders.accepts_iff (hs : SameHeaders p q) (hp : Accepts p) :
    Accepts q ↔ (byteAt q 23 = 6 → TcpCovered q) := by
  obtain ⟨hw, hproto⟩ := hp
  have hstart := hw.start_le
  rw [hs.byteAt_eq (show 23 < wireStart p by omega)] at hproto
  have hw' := hs.wireIpv4 hw
  unfold Accepts
  constructor
  · rintro ⟨_, h6 | h17 | h1⟩ h
    · exact h6.2
    · omega
    · omega
  · intro h
    rcases hproto with h6 | h17 | h1
    · exact ⟨hw', .inl ⟨h6.1, h h6.1⟩⟩
    · exact ⟨hw', .inr (.inl h17)⟩
    · exact ⟨hw', .inr (.inr h1)⟩

/-- The columns before Info are read off the headers, and Info tells what `wireShown` does. -/
theorem wireDecode_columns {row' : StPkt} (hp : wireDecode p = some row) (hq : wireDecode q = some row')
    (hb : ∀ i < 34, byteAt p i = byteAt q i) :
    row.src = row'.src ∧ row.dst = row'.dst ∧ row.proto = row'.proto ∧ row.len = row'.len ∧
      (row.info = row'.info ↔ wireShown p = wireShown q) := by
  obtain ⟨hsrc, hdst, hproto, hlen, hinfo⟩ := wireDecode_eq_some hp
  obtain ⟨hsrc', hdst', hproto', hlen', hinfo'⟩ := wireDecode_eq_some hq
  have hsame : (wireShown p).proto = (wireShown q).proto := by
    unfold wireShown
    rw [hb 23 (by decide)]
    split_ifs <;> rfl
  refine ⟨?_, ?_, by rw [hproto, hproto', hsame], ?_, ?_⟩
  · rw [hsrc, hsrc']
    simp (disch := omega) only [dotted, hb]
  · rw [hdst, hdst']
    simp (disch := omega) only [dotted, hb]
  · rw [hlen, hlen']
    simp (disch := omega) only [be16, hb]
  · rw [← String.toList_inj, hinfo, hinfo', Shown.text_inj hsame]

theorem exists_rowOf_iff : (∃ pkt, RowOf h f pkt) ↔ Accepts f.packet := by
  rw [← isSome_accepted_iff (h := h), Option.isSome_iff_exists]
  constructor
  · rintro ⟨pkt, hrow⟩
    obtain ⟨row, ha, _⟩ := rowOf_iff.1 hrow
    exact ⟨row, ha⟩
  · rintro ⟨row, ha⟩
    exact ⟨row, rowOf_iff.2 ⟨row, ha, rfl⟩⟩

/-- **Fragments are shown like whole datagrams.** Let a frame be accepted and another one have the same
Ethernet and IPv4 headers, at whatever fragment offset. If that one is accepted, the rows differ at most
in Info, and there iff the bytes behind the headers read differently as a transport header. They
reject it only by the checks of the TCP branch. The fragment offset itself changes nothing. -/
theorem fragment_rows {pf : StPkt} (hf : RowOf h f pf) (hs : SameHeaders f.packet g.packet) :
    (∀ pg, RowOf h g pg → pf.src = pg.src ∧ pf.dst = pg.dst ∧ pf.proto = pg.proto ∧ pf.len = pg.len ∧
      (pf.info = pg.info ↔ wireShown f.reach = wireShown g.reach)) ∧
    ((∃ pg, RowOf h g pg) ↔ (byteAt g.packet 23 = 6 → TcpCovered g.packet)) ∧
    ∀ f', SameButOffset f f' → ∀ pkt, RowOf h f pkt ↔ RowOf h f' pkt := by
  have hp : Accepts f.packet := exists_rowOf_iff.1 ⟨pf, hf⟩
  refine ⟨fun pg hg => ?_, ?_, fun f' hs' pkt => hs'.rowOf⟩
  · obtain ⟨row, ha, hpf⟩ := rowOf_iff.1 hf
    obtain ⟨row', ha', hpg⟩ := rowOf_iff.1 hg
    have hb : ∀ i < 34, byteAt f.reach i = byteAt g.reach i := by
      intro i hi
      have hstart := hp.1.start_le
      have hlen := hp.1.1
      have hlen' := (hs.wireIpv4 hp.1).1
      have hr := f.length_reach
      have hr' := g.length_reach
      rw [f.byteAt_reach (by omega), g.byteAt_reach (by omega), ← f.byteAt_packet (by omega),
        ← g.byteAt_packet (by omega)]
      exact hs.byteAt_eq (by omega)
    have hcolumns := wireDecode_columns (accepted_reach ha) (accepted_reach ha') hb
    rw [hpf, hpg]
    exact hcolumns
  · rw [exists_rowOf_iff]
    exact hs.accepts_iff hp

/-- Twenty bytes out of the middle of a datagram, at fragment offset 185. -/
def fragment (protocol b k : UInt8) : Frame where
  header := { caplen := 54, len := 54 }
  packet := [0, 0, 0, 0, 0, 1, 0, 0, 0, 0, 0, 2, 0x08, 0x00,
    0x45, 0, 0, 40, 0, 7, 0, 0xB9, 64, protocol, 0, 0, 10, 0, 0, 1, 10, 0, 0, 2,
    0, 53, 0, b, 0, 20, 0, 0, 0, 0, 0, 0, k, 0, 0, 0, 0, 0, 0, 0]
  captured := rfl
  after _ := 0

/-- The row of a fragment whose bytes read as a UDP header. -/
def fragmentRow (info : String) : StPkt := ⟨0, "10.0.0.1", "10.0.0.2", "UDP", 54, info⟩

/-- Fragments that agree in their first eight bytes: one line, and neither is rejected. -/
theorem fragment_rows_udp :
    wireShown (fragment 17 1 0).reach = wireShown (fragment 17 1 7).reach ∧
    ∃ pg, RowOf .little (fragment 17 1 7) pg := by
  have hf : RowOf .little (fragment 17 1 0) (fragmentRow "53 ---> 1   Len=12") :=
    rowOf_iff.2 ⟨fragmentRow "53 ---> 1   Len=12", by decide +kernel, rfl⟩
  have hg : RowOf .little (fragment 17 1 7) (fragmentRow "53 ---> 1   Len=12") :=
    rowOf_iff.2 ⟨fragmentRow "53 ---> 1   Len=12", by decide +kernel, rfl⟩
  have hs : SameHeaders (fragment 17 1 0).packet (fragment 17 1 7).packet := by decide +kernel
  obtain ⟨hrows, haccept, _⟩ := fragment_rows hf hs
  have h6 : byteAt (fragment 17 1 7).packet 23 ≠ 6 := by decide +kernel
  exact ⟨(hrows _ hg).2.2.2.2.1 rfl, haccept.2 fun h => absurd h h6⟩

/-- A byte in the middle of a datagram is shown as a port; another one rejects a TCP fragment. -/
theorem fragment_payload_shown :
    fragOffset (fragment 17 1 0).packet = 185 ∧ SameHeaders (fragment 17 1 0).packet (fragment 17 2 0).packet ∧
    RowOf .little (fragment 17 1 0) (fragmentRow "53 ---> 1   Len=12") ∧
    RowOf .little (fragment 17 2 0) (fragmentRow "53 ---> 2   Len=12") ∧
    SameHeaders (fragment 6 0 0x50).packet (fragment 6 0 0x40).packet ∧
    (accepted .little (fragment 6 0 0x50)).isSome = true ∧ accepted .little (fragment 6 0 0x40) = none := by
  refine ⟨by decide +kernel, by decide +kernel, ?_, ?_, by decide +kernel, by decide +kernel, by decide +kernel⟩
  · exact rowOf_iff.2 ⟨fragmentRow "53 ---> 1   Len=12", by decide +kernel, rfl⟩
  · exact rowOf_iff.2 ⟨fragmentRow "53 ---> 2   Len=12", by decide +kernel, rfl⟩

end MiniWireshark

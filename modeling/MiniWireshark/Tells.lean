import MiniWireshark.Fragments
import MiniWireshark.Sorting
import MiniWireshark.Summaries

/-!
# What the views tell (`Pcap.cpp:53-257`, `:550-748`, `:858-1426`)

A row and a detail tree are texts. Two packets have the same row, or the same tree, exactly if they agree on
the bytes listed here; whatever is not listed cannot be told from the view. The tree tells nothing of the
fragment offset and of IP options but whether the header checksum comes out, of TCP the first 16 bytes, of
UDP the first 6, and of ICMP the name of the type and the code.

| here | meaning |
| --- | --- |
| `SameRow p q`   | the bytes agree on all that a row tells |
| `SameTree p q`  | they agree on all that the tree tells |
| `HeaderSums p`  | the words of the IPv4 header add up as the checksum wants |
-/

namespace MiniWireshark

open Reader Readback

variable {p q : List UInt8} {i j : Nat}

/-! ## Fields and their bytes -/

theorem be16_inj : be16 p i = be16 q j ↔ byteAt p i = byteAt q j ∧ byteAt p (i + 1) = byteAt q (j + 1) := by
  have h1 := byteAt_lt p (i + 1)
  have h2 := byteAt_lt q (j + 1)
  unfold be16
  omega

theorem be32_inj : be32 p i = be32 q j ↔ ∀ k < 4, byteAt p (i + k) = byteAt q (j + k) := by
  have hlt (k : Nat) : byteAt p (i + k) < 256 ∧ byteAt q (j + k) < 256 := ⟨byteAt_lt p _, byteAt_lt q _⟩
  have h1 := hlt 1
  have h2 := hlt 2
  have h3 := hlt 3
  unfold be32
  constructor
  · intro h k hk
    obtain rfl | rfl | rfl | rfl : k = 0 ∨ k = 1 ∨ k = 2 ∨ k = 3 := by omega
    · rw [Nat.add_zero, Nat.add_zero]
      omega
    all_goals omega
  · intro h
    have h0 := h 0 (by decide)
    rw [Nat.add_zero, Nat.add_zero] at h0
    rw [h0, h 1 (by decide), h 2 (by decide), h 3 (by decide)]

theorem dotted_inj : dotted p i = dotted q j ↔ ∀ k < 4, byteAt p (i + k) = byteAt q (j + k) := by
  rw [← be32_inj]
  constructor
  · intro h
    rw [← addrValue_dotted, h, addrValue_dotted]
  · intro h
    have hb := be32_inj.1 h
    have h0 := hb 0 (by decide)
    rw [Nat.add_zero, Nat.add_zero] at h0
    rw [dotted, dotted, h0, hb 1 (by decide), hb 2 (by decide), hb 3 (by decide)]

/-! ## Rows -/

structure SameRow (p q : List UInt8) : Prop where
  addrs : ∀ k < 8, byteAt p (26 + k) = byteAt q (26 + k)
  totLen : be16 p 16 = be16 q 16
  shown : wireShown p = wireShown q

theorem addrs_iff : (dotted p 26 = dotted q 26 ∧ dotted p 30 = dotted q 30) ↔
    ∀ k < 8, byteAt p (26 + k) = byteAt q (26 + k) := by
  rw [dotted_inj, dotted_inj]
  constructor
  · rintro ⟨hsrc, hdst⟩ k hk
    by_cases h4 : k < 4
    · exact hsrc k h4
    · have := hdst (k - 4) (by omega)
      rwa [show 30 + (k - 4) = 26 + k by omega] at this
  · intro h
    constructor
    · intro k hk
      exact h k (by omega)
    · intro k hk
      have := h (4 + k) (by omega)
      rwa [← Nat.add_assoc] at this

/-- Of rows that are told apart by their texts, all but the number. -/
theorem wireDecode_inj {row row' : StPkt} (hp : wireDecode p = some row) (hq : wireDecode q = some row') (num : Nat) :
    { row with num := num } = { row' with num := num } ↔ SameRow p q := by
  obtain ⟨hsrc, hdst, hproto, hlen, hinfo⟩ := wireDecode_eq_some hp
  obtain ⟨hsrc', hdst', hproto', hlen', hinfo'⟩ := wireDecode_eq_some hq
  rw [StPkt.mk.injEq, hsrc, hdst, hproto, hlen, hsrc', hdst', hproto', hlen', ← @String.toList_inj row.info,
    hinfo, hinfo']
  constructor
  · rintro ⟨_, hs, hd, hpr, hl, hi⟩
    exact ⟨addrs_iff.1 ⟨hs, hd⟩, by omega, (Shown.text_inj hpr).1 hi⟩
  · rintro ⟨haddrs, htot, hshown⟩
    obtain ⟨hs, hd⟩ := addrs_iff.2 haddrs
    rw [hshown, htot]
    exact ⟨rfl, hs, hd, rfl, rfl, rfl⟩

/-- **What a row tells.** Of any two accepted frames, each handled by either handler under either layout and
captured whole or not, the rows are the same but for their numbers iff the addresses, the total length and what
the Info text shows are. -/
theorem row_tells_iff {h h' : Host} {f g : Frame} {pf pg : StPkt} (hf : RowOf h f pf) (hg : RowOf h' g pg) :
    pf = { pg with num := pf.num } ↔ SameRow f.reach g.reach := by
  obtain ⟨row, ha, hpf⟩ := rowOf_iff.1 hf
  obtain ⟨row', ha', hpg⟩ := rowOf_iff.1 hg
  have hsame : { pg with num := pf.num } = { row' with num := pf.num } := by rw [hpg]
  have hrow : pf = { row with num := pf.num } := hpf
  rw [hsame, ← wireDecode_inj (accepted_reach ha) (accepted_reach ha') pf.num, ← hrow]

/-- Fragments that differ in their ninth byte, one handled under each layout. -/
theorem row_tells_fragment : SameRow (fragment 17 1 0).reach (fragment 17 1 7).reach := by
  have hf : RowOf .little (fragment 17 1 0) (fragmentRow "53 ---> 1   Len=12") :=
    rowOf_iff.2 ⟨fragmentRow "53 ---> 1   Len=12", by decide +kernel, rfl⟩
  have hg : RowOf .big (fragment 17 1 7) (fragmentRow "53 ---> 1   Len=12") :=
    rowOf_iff.2 ⟨fragmentRow "53 ---> 1   Len=12", by decide +kernel, rfl⟩
  exact (row_tells_iff hf hg).1 rfl

/-! ## Trees -/

/-- The words of the IPv4 header add up to a multiple of 65535 other than 0. -/
def HeaderSums (p : List UInt8) : Prop := 0 < (words (wireHeader p)).sum ∧ (words (wireHeader p)).sum % 65535 = 0

instance (p : List UInt8) : Decidable (HeaderSums p) := inferInstanceAs (Decidable (_ ∧ _))

structure SameTree (p q : List UInt8) : Prop where
  headers : ∀ k < 34, k ≠ 20 → k ≠ 21 → byteAt p k = byteAt q k
  fragFlags : byteAt p 20 / 32 = byteAt q 20 / 32
  sums : HeaderSums p ↔ HeaderSums q
  tcp : byteAt p 23 = 6 → ∀ k < 16, byteAt p (wireStart p + k) = byteAt q (wireStart p + k)
  udp : byteAt p 23 = 17 → ∀ k < 6, byteAt p (wireStart p + k) = byteAt q (wireStart p + k)
  icmp : byteAt p 23 = 1 → icmpTypeName (byteAt p (wireStart p)) = icmpTypeName (byteAt q (wireStart p)) ∧
    byteAt p (wireStart p + 1) = byteAt q (wireStart p + 1)

theorem splits_hexArg (width : Nat) : Splits (Stops Text.isHexDigit) fun n : Nat => (hexArg width n).toList := by
  apply Splits.span
  · intro m n h
    have hval : Text.hexNum (hexArg width m).toList = Text.hexNum (hexArg width n).toList := congrArg Text.hexNum h
    rwa [hexNum_hexArg, hexNum_hexArg] at hval
  · intro n c hc
    exact isHexDigit_of_mem_hexArg _ _ hc

/-- The status says whether the header adds up. -/
theorem wireIp_status (hw : WireIpv4 p) :
    ((wireIp p).status = "Good" ↔ HeaderSums p) ∧ ((wireIp p).status = "Good" ∨ (wireIp p).status = "Bad") := by
  have hihl := wireIhl_lt p
  have hstart := hw.2.2.2
  have hlen : (wireHeader p).length = wireIhl p * 4 := by
    unfold wireStart at hstart
    rw [wireHeader, List.length_take, List.length_drop]
    omega
  have hgood : checksumStatus (ofList (wireHeader p)) (wireHeader p).length = some "Good" ↔ _ :=
    checksumStatus_eq_good_iff (by omega) (by omega)
  have hbad : _ → checksumStatus (ofList (wireHeader p)) (wireHeader p).length = some "Bad" :=
    checksumStatus_eq_bad (by omega) (by omega)
  rw [hlen] at hgood hbad
  have hstatus : (wireIp p).status = (checksumStatus (ofList (wireHeader p)) (wireIhl p * 4)).getD "" := rfl
  have hsums : HeaderSums p ↔ ∃ m, 0 < m ∧ (words (wireHeader p)).sum = 65535 * m := by
    constructor
    · rintro ⟨hpos, hmod⟩
      exact ⟨(words (wireHeader p)).sum / 65535, by omega, by omega⟩
    · rintro ⟨m, hm, hsum⟩
      exact ⟨by omega, by omega⟩
  rw [hsums, ← hgood, hstatus]
  by_cases hg : checksumStatus (ofList (wireHeader p)) (wireIhl p * 4) = some "Good"
  · rw [hg]
    simp
  · rw [hbad hg]
    simp

/-- Of the fragment field the three flags are left. -/
theorem wireIp_flags (p : List UInt8) : (wireIp p).flags = byteAt p 20 / 32 := by
  have h20 := byteAt_lt p 20
  have h21 := byteAt_lt p (20 + 1)
  have hmask : (be16 p 20 &&& 0xE000) >>> 13 = (be16 p 20 >>> 13) % 8 := by
    rw [Nat.shiftRight_and_distrib]
    exact Nat.and_two_pow_sub_one_eq_mod _ 3
  rw [IpView.flags, show (wireIp p).frag = be16 p 20 from rfl, hmask, Nat.shiftRight_eq_div_pow, be16]
  omega

/-- The trees show the same. -/
def SameTitles (d e : Detail) : Prop := ∀ row path, titleIn d.ops (row :: path) = titleIn e.ops (row :: path)

section
variable {d e : Detail} (ht : SameTitles d e)
include ht

theorem SameTitles.ether : d.ether.dst = e.ether.dst ∧ d.ether.src = e.ether.src := by
  have hdst : some ("Destination : (" ++ d.ether.dst ++ ")") = some ("Destination : (" ++ e.ether.dst ++ ")") := ht 0 [0]
  have hsrc : some ("Source : (" ++ d.ether.src ++ ")") = some ("Source : (" ++ e.ether.src ++ ")") := ht 0 [1]
  simp only [Option.some.injEq, String.append_left_inj, String.append_right_inj] at hdst hsrc
  exact ⟨hdst, hsrc⟩

/-- All of the IPv4 header is told but the fragment offset, and the protocol by its name. -/
theorem SameTitles.ip : { d.ip with tos := 0, frag := 0, proto := 0 } = { e.ip with tos := 0, frag := 0, proto := 0 } ∧
    d.ip.tos = e.ip.tos ∧ d.ip.flags = e.ip.flags ∧ protoText d.ip.proto = protoText e.ip.proto := by
  have hversion : some ("Version: " ++ toString d.ip.version) = some ("Version: " ++ toString e.ip.version) := ht 1 [0]
  have hihl : some ("Header Length: " ++ toString (d.ip.ihl * 4) ++ "    bytes (" ++ toString d.ip.ihl ++ ")") =
      some ("Header Length: " ++ toString (e.ip.ihl * 4) ++ "    bytes (" ++ toString e.ip.ihl ++ ")") := ht 1 [1]
  have hdscp : some ("Differentiated Services Codepoint: " ++ dscpText d.ip.dscp ++ " (" ++ toString d.ip.dscp ++ ")") =
      some ("Differentiated Services Codepoint: " ++ dscpText e.ip.dscp ++ " (" ++ toString e.ip.dscp ++ ")") := ht 1 [2, 0]
  have hecn : some ("Explicit Congestion Notification: " ++ ecnText d.ip.ecn ++ " (" ++ toString d.ip.ecn ++ ")") =
      some ("Explicit Congestion Notification: " ++ ecnText e.ip.ecn ++ " (" ++ toString e.ip.ecn ++ ")") := ht 1 [2, 1]
  have htot : some ("Total Length: " ++ toString d.ip.totLen) = some ("Total Length: " ++ toString e.ip.totLen) := ht 1 [3]
  have hid : some ("Identification: 0x" ++ hexArg 4 d.ip.id ++ " (" ++ toString d.ip.id ++ ")") =
      some ("Identification: 0x" ++ hexArg 4 e.ip.id ++ " (" ++ toString e.ip.id ++ ")") := ht 1 [4]
  have hflags : some ("Flags: 0x" ++ hexArg 0 d.ip.flags ++ ", " ++ flagMeaning d.ip.flags) =
      some ("Flags: 0x" ++ hexArg 0 e.ip.flags ++ ", " ++ flagMeaning e.ip.flags) := ht 1 [5]
  have httl : some ("Time to Live: " ++ toString d.ip.ttl) = some ("Time to Live: " ++ toString e.ip.ttl) := ht 1 [6]
  have hproto : some ("Protocol: " ++ protoText d.ip.proto) = some ("Protocol: " ++ protoText e.ip.proto) := ht 1 [7]
  have hcheck : some ("Header Checksum: 0x" ++ hexArg 4 d.ip.check ++ " [" ++ d.ip.status ++ "]") =
      some ("Header Checksum: 0x" ++ hexArg 4 e.ip.check ++ " [" ++ e.ip.status ++ "]") := ht 1 [8]
  have hstatus : some ("[Header checksum status: " ++ d.ip.status ++ "]") =
      some ("[Header checksum status: " ++ e.ip.status ++ "]") := ht 1 [9]
  have hsrc : some ("Source Address: " ++ d.ip.src) = some ("Source Address: " ++ e.ip.src) := ht 1 [10]
  have hdst : some ("Destination Address: " ++ d.ip.dst) = some ("Destination Address: " ++ e.ip.dst) := ht 1 [11]
  simp only [Option.some.injEq, String.append_right_inj, Text.toString_nat_inj] at hversion htot httl
  simp only [Option.some.injEq, String.append_left_inj, String.append_right_inj] at hproto hstatus hsrc hdst
  have hihl : d.ip.ihl * 4 = e.ip.ihl * 4 := by
    simp only [Option.some.injEq, String.append_assoc] at hihl
    exact splits_nat.field (stops_lit rfl rfl) (stops_lit rfl rfl) hihl
  have hflags : d.ip.flags = e.ip.flags := by
    simp only [Option.some.injEq, String.append_assoc] at hflags
    exact (splits_hexArg 0).field (stops_lit rfl rfl) (stops_lit rfl rfl) hflags
  have hcheck : d.ip.check = e.ip.check := by
    simp only [Option.some.injEq, String.append_assoc] at hcheck
    exact (splits_hexArg 4).field (stops_lit rfl rfl) (stops_lit rfl rfl) hcheck
  have hid := Text.paren_inj (Option.some.inj hid)
  have hdscp := Text.paren_inj (Option.some.inj hdscp)
  have hecn := Text.paren_inj (Option.some.inj hecn)
  rw [IpView.dscp_eq, IpView.dscp_eq] at hdscp
  rw [IpView.ecn_eq, IpView.ecn_eq] at hecn
  refine ⟨?_, by omega, hflags, hproto⟩
  simp only [IpView.mk.injEq, true_and]
  exact ⟨hversion, by omega, htot, hid, httl, hcheck, hstatus, hsrc, hdst⟩

/-- All that is read of a TCP header is told. -/
theorem SameTitles.tcp {v w : TcpView} (hd : d.transport = .tcp v) (he : e.transport = .tcp w) :
    { v with flags := w.flags } = w ∧ tcpFlagBits v.flags = tcpFlagBits w.flags := by
  obtain ⟨_, _, _⟩ := d
  obtain ⟨_, _, _⟩ := e
  subst hd he
  have hsource : some ("Source Port: " ++ toString v.source) = some ("Source Port: " ++ toString w.source) := ht 2 [0]
  have hdest : some ("Destination Port: " ++ toString v.dest) = some ("Destination Port: " ++ toString w.dest) := ht 2 [1]
  have hlen : some ("[Tcp Segment Len: " ++ toString v.payload ++ "]") =
      some ("[Tcp Segment Len: " ++ toString w.payload ++ "]") := ht 2 [2]
  have hseq : some ("Sequence Number: " ++ toString v.seq) = some ("Sequence Number: " ++ toString w.seq) := ht 2 [3]
  have hack : some ("Acknowledgment Number: " ++ toString v.ackSeq) = some ("Acknowledgment Number: " ++ toString w.ackSeq) :=
    ht 2 [4]
  have hdoff : some ("Header Length: " ++ toString (v.doff * 4)) = some ("Header Length: " ++ toString (w.doff * 4)) :=
    ht 2 [5]
  have hflags : some ("Flags: 0x" ++ hexArg 4 (tcpFlagBits v.flags) ++ " (" ++ tcpFlagNames v.flags ++ ")") =
      some ("Flags: 0x" ++ hexArg 4 (tcpFlagBits w.flags) ++ " (" ++ tcpFlagNames w.flags ++ ")") := ht 2 [6]
  have hres : some (if v.res1 ≠ 0 then "Reserved: Set (" ++ toString v.res1 ++ ")" else "Reserved: Not set") =
      some (if w.res1 ≠ 0 then "Reserved: Set (" ++ toString w.res1 ++ ")" else "Reserved: Not set") := ht 2 [6, 0]
  have hwindow : some ("Window: " ++ toString v.window) = some ("Window: " ++ toString w.window) := ht 2 [7]
  simp only [Option.some.injEq, String.append_right_inj, Text.toString_nat_inj] at hsource hdest hseq hack hdoff hwindow
  simp only [Option.some.injEq, String.append_left_inj, String.append_right_inj, Text.toString_int_inj] at hlen
  have hflags : tcpFlagBits v.flags = tcpFlagBits w.flags := by
    simp only [Option.some.injEq, String.append_assoc] at hflags
    exact (splits_hexArg 4).field (stops_lit rfl rfl) (stops_lit rfl rfl) hflags
  have hres : v.res1 = w.res1 := by
    rw [Option.some.injEq, ite_not, ite_not] at hres
    exact reservedName_inj.1 hres
  have hdoff : v.doff = w.doff := by omega
  refine ⟨?_, hflags⟩
  cases v
  cases w
  simp only [TcpView.mk.injEq, true_and]
  exact ⟨hsource, hdest, hseq, hack, hdoff, hres, hwindow, hlen⟩

theorem SameTitles.udp {v w : UdpView} (hd : d.transport = .udp v) (he : e.transport = .udp w) : v = w := by
  obtain ⟨_, _, _⟩ := d
  obtain ⟨_, _, _⟩ := e
  subst hd he
  have hsource : some ("Source Port: " ++ toString v.source) = some ("Source Port: " ++ toString w.source) := ht 2 [0]
  have hdest : some ("Destination Port: " ++ toString v.dest) = some ("Destination Port: " ++ toString w.dest) := ht 2 [1]
  have hlen : some ("Length: " ++ toString v.len) = some ("Length: " ++ toString w.len) := ht 2 [2]
  simp only [Option.some.injEq, String.append_right_inj, Text.toString_nat_inj] at hsource hdest hlen
  cases v
  cases w
  rw [UdpView.mk.injEq]
  exact ⟨hsource, hdest, hlen⟩

theorem SameTitles.icmp {v w : IcmpView} (hd : d.transport = .icmp v) (he : e.transport = .icmp w) :
    icmpTypeName v.type = icmpTypeName w.type ∧ v.code = w.code := by
  obtain ⟨_, _, _⟩ := d
  obtain ⟨_, _, _⟩ := e
  subst hd he
  have htype : some (icmpTypeName v.type) = some (icmpTypeName w.type) := ht 2 [0]
  have hcode : some ("code: " ++ toString v.code) = some ("code: " ++ toString w.code) := ht 2 [1]
  simp only [Option.some.injEq, String.append_right_inj, Text.toString_nat_inj] at htype hcode
  exact ⟨htype, hcode⟩

end

/-- The nodes do not show the offset in the fragment field. -/
theorem IpView.ops_congr {v : IpView} {frag : Nat} (h : IpView.flags { v with frag := frag } = v.flags) :
    IpView.ops { v with frag := frag } = v.ops := by
  simp only [IpView.ops, IpView.dscp, IpView.ecn, h]

theorem accepts_proto (hp : Accepts p) : byteAt p 23 = 6 ∨ byteAt p 23 = 17 ∨ byteAt p 23 = 1 := hp.2.imp_left And.left

theorem wireStart_of_headers (hb : ∀ k < 34, k ≠ 20 → k ≠ 21 → byteAt p k = byteAt q k) : wireStart p = wireStart q := by
  rw [wireStart, wireStart, wireIhl, wireIhl, hb 14 (by decide) (by decide) (by decide)]

/-- The two headers, from what the tree shows. -/
theorem SameTitles.headers (hp : Accepts p) (hq : Accepts q) (ht : SameTitles (wireDetail p) (wireDetail q)) :
    (∀ k < 34, k ≠ 20 → k ≠ 21 → byteAt p k = byteAt q k) ∧ byteAt p 20 / 32 = byteAt q 20 / 32 ∧
      (HeaderSums p ↔ HeaderSums q) := by
  obtain ⟨hdst, hsrc⟩ := ht.ether
  obtain ⟨hip, htos, hflags, hproto⟩ := ht.ip
  simp only [wireDetail, wireIp, IpView.mk.injEq, true_and] at hip
  obtain ⟨hversion, hihl, htot, hid, httl, hcheck, hstatus, hsaddr, hdaddr⟩ := hip
  have hmac0 := wireMac_inj.1 hdst
  have hmac6 := wireMac_inj.1 hsrc
  have htype := be16_inj.1 (hp.1.2.1.trans hq.1.2.1.symm)
  have htos : byteAt p 15 = byteAt q 15 := htos
  have htot := be16_inj.1 htot
  have hid := be16_inj.1 hid
  have hcheck := be16_inj.1 hcheck
  have haddrs := addrs_iff.1 ⟨hsaddr, hdaddr⟩
  have h14 : byteAt p 14 = byteAt q 14 := by
    unfold wireIhl at hihl
    omega
  have h23 : byteAt p 23 = byteAt q 23 := by
    have hproto : protoText (byteAt p 23) = protoText (byteAt q 23) := hproto
    rcases accepts_proto hp with h | h | h <;> rcases accepts_proto hq with h' | h' | h' <;> rw [h, h'] at hproto ⊢ <;>
      exact absurd hproto (by decide)
  refine ⟨?_, ?_, ?_⟩
  · intro k hk h20 h21
    by_cases h6 : k < 6
    · simpa using hmac0 k h6
    by_cases h12 : k < 12
    · have := hmac6 (k - 6) (by omega)
      rwa [Nat.add_sub_of_le (by omega)] at this
    by_cases h26 : 26 ≤ k
    · have := haddrs (k - 26) (by omega)
      rwa [Nat.add_sub_of_le h26] at this
    obtain rfl | rfl | rfl | rfl | rfl | rfl | rfl | rfl | rfl | rfl | rfl | rfl : k = 12 ∨ k = 13 ∨ k = 14 ∨ k = 15 ∨
        k = 16 ∨ k = 17 ∨ k = 18 ∨ k = 19 ∨ k = 22 ∨ k = 23 ∨ k = 24 ∨ k = 25 := by omega
    exacts [htype.1, htype.2, h14, htos, htot.1, htot.2, hid.1, hid.2, httl, h23, hcheck.1, hcheck.2]
  · rw [← wireIp_flags, ← wireIp_flags]
    exact hflags
  · rw [← (wireIp_status hp.1).1, ← (wireIp_status hq.1).1]
    have hstatus : (wireIp p).status = (wireIp q).status := hstatus
    rw [hstatus]

/-- The first 16 bytes of a TCP header, from what the tree shows. -/
theorem tcp_bytes (hstart : wireStart p = wireStart q)
    (hfields : { wireTcpView p with flags := (wireTcpView q).flags } = wireTcpView q)
    (hflags : tcpFlagBits (wireTcpView p).flags = tcpFlagBits (wireTcpView q).flags) :
    ∀ k < 16, byteAt p (wireStart p + k) = byteAt q (wireStart p + k) := by
  simp only [wireTcpView, TcpView.mk.injEq, true_and, be16_inj, be32_inj, wireDoff, ← hstart] at hfields
  obtain ⟨hsource, hdest, hseq, hack, hdoff, hres, hwindow, _⟩ := hfields
  have h12 : byteAt p (wireStart p + 12) = byteAt q (wireStart p + 12) := by omega
  have h13 : byteAt p (wireStart p + 13) = byteAt q (wireStart p + 13) := by
    have hbits : tcpFlagBits (wireFlags (byteAt p (wireStart p + 13))) = tcpFlagBits (wireFlags (byteAt q (wireStart q + 13))) :=
      hflags
    rwa [tcpFlagBits_wireFlags _ (byteAt_lt p _), tcpFlagBits_wireFlags _ (byteAt_lt q _), ← hstart] at hbits
  intro k hk
  by_cases h4 : k < 4
  · obtain rfl | rfl | rfl | rfl : k = 0 ∨ k = 1 ∨ k = 2 ∨ k = 3 := by omega
    exacts [hsource.1, hsource.2, hdest.1, hdest.2]
  by_cases h8 : k < 8
  · have := hseq (k - 4) (by omega)
    rwa [show wireStart p + 4 + (k - 4) = wireStart p + k by omega] at this
  by_cases h12' : k < 12
  · have := hack (k - 8) (by omega)
    rwa [show wireStart p + 8 + (k - 8) = wireStart p + k by omega] at this
  obtain rfl | rfl | rfl | rfl : k = 12 ∨ k = 13 ∨ k = 14 ∨ k = 15 := by omega
  exacts [h12, h13, hwindow.1, hwindow.2]

/-- The first 6 bytes of a UDP header. -/
theorem udp_bytes (hstart : wireStart p = wireStart q) (hfields : wireUdpView p = wireUdpView q) :
    ∀ k < 6, byteAt p (wireStart p + k) = byteAt q (wireStart p + k) := by
  simp only [wireUdpView, UdpView.mk.injEq, be16_inj, ← hstart] at hfields
  obtain ⟨hsource, hdest, hlen⟩ := hfields
  intro k hk
  obtain rfl | rfl | rfl | rfl | rfl | rfl : k = 0 ∨ k = 1 ∨ k = 2 ∨ k = 3 ∨ k = 4 ∨ k = 5 := by omega
  exacts [hsource.1, hsource.2, hdest.1, hdest.2, hlen.1, hlen.2]

namespace SameTree
variable (hs : SameTree p q)
include hs

theorem wireStart_eq : wireStart p = wireStart q := wireStart_of_headers hs.headers

theorem ether : wireEther p = wireEther q := by
  have hb (k : Nat) (hk : k < 14) : byteAt p k = byteAt q k := hs.headers k (by omega) (by omega) (by omega)
  have hdst : wireMac p 0 = wireMac q 0 := wireMac_inj.2 fun k hk => hb (0 + k) (by omega)
  have hsrc : wireMac p 6 = wireMac q 6 := wireMac_inj.2 fun k hk => hb (6 + k) (by omega)
  have htype : be16 p 12 = be16 q 12 := be16_inj.2 ⟨hb 12 (by decide), hb 13 (by decide)⟩
  rw [wireEther, wireEther, hdst, hsrc, htype]

theorem ip (hp : WireIpv4 p) (hq : WireIpv4 q) : (wireIp p).ops = (wireIp q).ops := by
  have hb (k : Nat) (hk : k < 34) (h20 : k ≠ 20) (h21 : k ≠ 21) : byteAt p k = byteAt q k := hs.headers k hk h20 h21
  have hstatus : (wireIp p).status = (wireIp q).status := by
    obtain ⟨hgood, hcase⟩ := wireIp_status hp
    obtain ⟨hgood', hcase'⟩ := wireIp_status hq
    have hiff := hgood.trans (hs.sums.trans hgood'.symm)
    rcases hcase with h | h <;> rcases hcase' with h' | h' <;> rw [h, h'] at hiff ⊢ <;> simp at hiff
  have hbe (k : Nat) (hk : 14 ≤ k ∧ k < 19 ∨ 22 ≤ k ∧ k < 33) : be16 p k = be16 q k :=
    be16_inj.2 ⟨hb k (by omega) (by omega) (by omega), hb (k + 1) (by omega) (by omega) (by omega)⟩
  obtain ⟨hsaddr, hdaddr⟩ := addrs_iff.2 fun k hk => hb (26 + k) (by omega) (by omega) (by omega)
  have h14 := hb 14 (by decide) (by decide) (by decide)
  have hsame : wireIp p = { wireIp q with frag := be16 p 20 } := by
    have hversion : byteAt p 14 / 16 = byteAt q 14 / 16 := by rw [h14]
    have hihl : wireIhl p = wireIhl q := by rw [wireIhl, wireIhl, h14]
    simp only [wireIp, IpView.mk.injEq, true_and]
    exact ⟨hversion, hihl, hb 15 (by decide) (by decide) (by decide), hbe 16 (by decide), hbe 18 (by decide),
      hb 22 (by decide) (by decide) (by decide), hb 23 (by decide) (by decide) (by decide), hbe 24 (by decide), hstatus,
      hsaddr, hdaddr⟩
  rw [hsame]
  apply IpView.ops_congr
  rw [← hsame, wireIp_flags, wireIp_flags]
  exact hs.fragFlags

theorem tcpView (h6 : byteAt p 23 = 6) : wireTcpView p = wireTcpView q := by
  have hstart := hs.wireStart_eq
  have hb (k : Nat) (hk : k < 16) : byteAt p (wireStart p + k) = byteAt q (wireStart p + k) := hs.tcp h6 k hk
  have htot : be16 p 16 = be16 q 16 := be16_inj.2
    ⟨hs.headers 16 (by decide) (by decide) (by decide), hs.headers 17 (by decide) (by decide) (by decide)⟩
  have hihl : wireIhl p = wireIhl q := by rw [wireIhl, wireIhl, hs.headers 14 (by decide) (by decide) (by decide)]
  have hdoff : wireDoff p = wireDoff q := by rw [wireDoff, wireDoff, ← hstart, hb 12 (by decide)]
  simp only [wireTcpView, ← hstart, TcpView.mk.injEq, htot, hihl, hdoff, hb 12 (by decide), hb 13 (by decide), true_and, and_true]
  refine ⟨be16_inj.2 ⟨hb 0 (by decide), hb 1 (by decide)⟩, be16_inj.2 ⟨hb 2 (by decide), hb 3 (by decide)⟩, ?_, ?_,
    be16_inj.2 ⟨hb 14 (by decide), hb 15 (by decide)⟩⟩
  · apply be32_inj.2
    intro k hk
    rw [Nat.add_assoc]
    exact hb (4 + k) (by omega)
  · apply be32_inj.2
    intro k hk
    rw [Nat.add_assoc]
    exact hb (8 + k) (by omega)

theorem udpView (h17 : byteAt p 23 = 17) : wireUdpView p = wireUdpView q := by
  have hb (k : Nat) (hk : k < 6) : byteAt p (wireStart p + k) = byteAt q (wireStart p + k) := hs.udp h17 k hk
  simp only [wireUdpView, ← hs.wireStart_eq, UdpView.mk.injEq]
  exact ⟨be16_inj.2 ⟨hb 0 (by decide), hb 1 (by decide)⟩, be16_inj.2 ⟨hb 2 (by decide), hb 3 (by decide)⟩,
    be16_inj.2 ⟨hb 4 (by decide), hb 5 (by decide)⟩⟩

theorem transport (hp : Accepts p) : (wireView p).ops = (wireView q).ops := by
  have hproto := hs.headers 23 (by decide) (by decide) (by decide)
  have hstart := hs.wireStart_eq
  rcases accepts_proto hp with h6 | h17 | h1
  · have hd : wireView p = .tcp (wireTcpView p) := congrArg Detail.transport (wireDetail_tcp h6)
    have he : wireView q = .tcp (wireTcpView q) := congrArg Detail.transport (wireDetail_tcp (hproto ▸ h6))
    rw [hd, he, hs.tcpView h6]
  · have hd : wireView p = .udp (wireUdpView p) := congrArg Detail.transport (wireDetail_udp h17)
    have he : wireView q = .udp (wireUdpView q) := congrArg Detail.transport (wireDetail_udp (hproto ▸ h17))
    rw [hd, he, hs.udpView h17]
  · have hd : wireView p = .icmp (wireIcmpView p) := congrArg Detail.transport (wireDetail_icmp h1)
    have he : wireView q = .icmp (wireIcmpView q) := congrArg Detail.transport (wireDetail_icmp (hproto ▸ h1))
    obtain ⟨htype, hcode⟩ := hs.icmp h1
    rw [hd, he]
    simp only [Transport.ops, IcmpView.ops, wireIcmpView, ← hstart, htype, hcode]

end SameTree

theorem sameTitles_iff (hp : Accepts p) (hq : Accepts q) :
    SameTitles (wireDetail p) (wireDetail q) ↔ SameTree p q := by
  constructor
  · intro ht
    obtain ⟨hb, hfrag, hsums⟩ := ht.headers hp hq
    have hstart := wireStart_of_headers hb
    have hproto := hb 23 (by decide) (by decide) (by decide)
    refine ⟨hb, hfrag, hsums, ?_, ?_, ?_⟩
    · intro h6
      have hd := congrArg Detail.transport (wireDetail_tcp h6)
      have he := congrArg Detail.transport (wireDetail_tcp (hproto ▸ h6))
      obtain ⟨hfields, hflags⟩ := ht.tcp hd he
      exact tcp_bytes hstart hfields hflags
    · intro h17
      have hd := congrArg Detail.transport (wireDetail_udp h17)
      have he := congrArg Detail.transport (wireDetail_udp (hproto ▸ h17))
      exact udp_bytes hstart (ht.udp hd he)
    · intro h1
      have hd := congrArg Detail.transport (wireDetail_icmp h1)
      have he := congrArg Detail.transport (wireDetail_icmp (hproto ▸ h1))
      have hfields := ht.icmp hd he
      simp only [wireIcmpView, ← hstart] at hfields
      exact hfields
  · intro hs
    have hops : (wireDetail p).ops = (wireDetail q).ops := by
      simp only [Detail.ops, wireDetail]
      rw [hs.ether, hs.ip hp.1 hq.1, hs.transport hp]
    intro row path
    rw [hops]

/-- `n` is what the packet view shows of the entry `e`, whatever it showed before, in a state of a run whose
accepted frames are captured whole up to their transport headers. -/
inductive Viewed (h : Host) (e : Entry) (n : TreeModel) : Prop where
  | intro {acts : List Act} {s : Sys} {idx : Int} {calls : List (Pcap × Int)} {m : TreeModel} :
    Lts.run (Sys.step h) Sys.init acts = some s →
    (∀ a ∈ acts, ∀ f ∈ a.frames, (accepted h f).isSome = true →
      f.header.caplen = f.header.len ∧ CoversTransport f.packet) →
    s.pcap.find idx = some e → Lts.run (viewStep h) {} calls = some m → startTreeMd h s.pcap idx m = some n →
    Viewed h e n

theorem Viewed.built {h : Host} {e : Entry} {n : TreeModel} (hv : Viewed h e n) :
    Accepts e.dump.data ∧ ∃ base, n.Built base (wireDetail e.dump.data).ops := by
  obtain ⟨hr, hframes, hf, hm, hn⟩ := hv
  have hfile := Sys.vecDumpFile_run rfl hr
  obtain ⟨f, he, ha, hlen, hc⟩ := Sys.entries_from hr hframes e
    (List.mem_append_left _ (Pcap.mem_vecDump_of_find hfile hf))
  have hdata := treeData_of_find hf he hlen
  have hfound : e.dump.data = f.packet := by
    rw [← hdata, Pcap.treeData, hf]
  rw [hfound]
  refine ⟨isSome_accepted_iff.1 ha, ?_⟩
  obtain ⟨row, ha⟩ := Option.isSome_iff_exists.1 ha
  obtain ⟨d, hd, hbuilt, _⟩ := startTreeMd_cases (tidy_run hm) hn
  rw [hdata, detail_accepted ha hc] at hd
  cases hd
  exact ⟨_, hbuilt⟩

/-- Every entry found can be viewed. -/
theorem exists_viewed {h : Host} {acts : List Act} {s : Sys} {e : Entry} {idx : Int}
    (hr : Lts.run (Sys.step h) Sys.init acts = some s)
    (hframes : ∀ a ∈ acts, ∀ f ∈ a.frames, (accepted h f).isSome = true →
      f.header.caplen = f.header.len ∧ CoversTransport f.packet) (hf : s.pcap.find idx = some e) : ∃ n, Viewed h e n := by
  have hview : Lts.run (viewStep h) {} [] = some {} := rfl
  have hinside : (startTreeMd h s.pcap idx {}).isSome = true := by
    have hfile := Sys.vecDumpFile_run rfl hr
    obtain ⟨f, he, ha, hlen, hc⟩ := Sys.entries_from hr hframes e
      (List.mem_append_left _ (Pcap.mem_vecDump_of_find hfile hf))
    obtain ⟨row, ha⟩ := Option.isSome_iff_exists.1 ha
    rw [isSome_startTreeMd TreeModel.Tidy.init, treeData_of_find hf he hlen, detail_accepted ha hc]
    rfl
  obtain ⟨n, hn⟩ := Option.isSome_iff_exists.1 hinside
  exact ⟨n, .intro hr hframes hf hview hn⟩

/-- **What the tree tells.** Of any two packets, in any two states, the trees show the same at every place iff the
packets agree on the bytes of `SameTree`. -/
theorem tree_tells_iff {h h' : Host} {e e' : Entry} {n n' : TreeModel} (hv : Viewed h e n) (hv' : Viewed h' e' n') :
    (∀ path, n.titleAt path = n'.titleAt path) ↔ SameTree e.dump.data e'.dump.data := by
  obtain ⟨hp, base, hbuilt⟩ := hv.built
  obtain ⟨hq, base', hbuilt'⟩ := hv'.built
  rw [← sameTitles_iff hp hq]
  constructor
  · intro hall row path
    rw [← hbuilt.titleAt, hall, hbuilt'.titleAt]
  · intro ht path
    cases path with
    | nil => rfl
    | cons row path => rw [hbuilt.titleAt, hbuilt'.titleAt, ht]

/-- An echo request at the fragment offset `off`. -/
def echo (off seq : UInt8) : Frame where
  header := { caplen := 42, len := 42 }
  packet := [0, 0, 0, 0, 0, 1, 0, 0, 0, 0, 0, 2, 0x08, 0x00,
    0x45, 0, 0, 28, 0, 7, 0, off, 64, 1, 0, 0, 10, 0, 0, 1, 10, 0, 0, 2,
    8, 0, 0, 0, 0, 1, 0, seq]
  captured := rfl
  after _ := 0

theorem sameTree_echo : SameTree (echo 0 1).packet (echo 5 2).packet where
  headers := by decide +kernel
  fragFlags := by decide +kernel
  sums := by decide +kernel
  tcp := by decide +kernel
  udp := by decide +kernel
  icmp := by decide +kernel

/-- Neither the offset nor the sequence number is told. -/
theorem tree_tells_echo : ∃ e e' n n', e.dump.data = (echo 0 1).packet ∧ e'.dump.data = (echo 5 2).packet ∧
    Viewed .little e n ∧ Viewed .little e' n' ∧ ∀ path, n.titleAt path = n'.titleAt path := by
  have hview (f : Frame) (hc : ((Lts.run (Sys.step .little) Sys.init (captureOne f)).any fun s =>
        decide (∃ e ∈ s.pcap.find 0, e.dump.data = f.packet)) = true)
      (hframes : ∀ a ∈ captureOne f, ∀ f ∈ a.frames, (accepted .little f).isSome = true →
        f.header.caplen = f.header.len ∧ CoversTransport f.packet) :
      ∃ e n, e.dump.data = f.packet ∧ Viewed .little e n := by
    obtain ⟨s, hr, hfound⟩ := (Option.any_eq_true _ _).1 hc
    obtain ⟨e, hf, hdata⟩ := of_decide_eq_true hfound
    obtain ⟨n, hv⟩ := exists_viewed hr hframes hf
    exact ⟨e, n, hdata, hv⟩
  obtain ⟨e, n, he, hv⟩ := hview (echo 0 1) (by decide +kernel) (by decide +kernel)
  obtain ⟨e', n', he', hv'⟩ := hview (echo 5 2) (by decide +kernel) (by decide +kernel)
  refine ⟨e, e', n, n', he, he', hv, hv', (tree_tells_iff hv hv').2 ?_⟩
  rw [he, he']
  exact sameTree_echo

/-! ## The tree and the row -/

/-- The packets carry the same echo numbers, if they are echo messages. -/
def SameEcho (p q : List UInt8) : Prop :=
  byteAt p 23 = 1 → byteAt p (wireStart p) = 0 ∨ byteAt p (wireStart p) = 8 →
    be16 p (wireStart p + 4) = be16 q (wireStart p + 4) ∧ be16 p (wireStart p + 6) = be16 q (wireStart p + 6)

instance (p q : List UInt8) : Decidable (SameEcho p q) := inferInstanceAs (Decidable (_ = 1 → _ → _ ∧ _))

/-- A name tells its type, and its absence that there is none. -/
theorem icmpTypeName_inj {a b : Nat} (h : icmpTypeName a = icmpTypeName b) :
    a = b ∨ (a ∉ [0, 3, 5, 8, 11] ∧ b ∉ [0, 3, 5, 8, 11]) := by
  by_contra hne
  unfold icmpTypeName at h
  split_ifs at h <;> simp_all

theorem SameTree.icmp_shown_iff (hs : SameTree p q) (h1 : byteAt p 23 = 1) :
    wireIcmpShown p = wireIcmpShown q ↔ SameEcho p q := by
  have hstart := hs.wireStart_eq
  have httl := hs.headers 22 (by decide) (by decide) (by decide)
  obtain ⟨htype, hcode⟩ := hs.icmp h1
  unfold SameEcho wireIcmpShown
  simp only [h1, ← hstart, ← hcode, httl, true_implies]
  generalize byteAt p (wireStart p) = a at htype ⊢
  generalize byteAt q (wireStart p) = b at htype ⊢
  rcases icmpTypeName_inj htype with rfl | ⟨ha, hb⟩
  · by_cases h0 : a = 0
    · simp [h0]
    by_cases h8 : a = 8
    · simp [h8]
    simp [h0, h8]
  · simp only [List.mem_cons, List.not_mem_nil, or_false, not_or] at ha hb
    simp [ha, hb]

/-- A packet with the same tree is shown by the same text, but for the numbers of echo messages. -/
theorem SameTree.shown_iff (hs : SameTree p q) (hp : Accepts p) : wireShown p = wireShown q ↔ SameEcho p q := by
  have hproto := hs.headers 23 (by decide) (by decide) (by decide)
  have hother (h1 : byteAt p 23 ≠ 1) : SameEcho p q := fun h => absurd h h1
  rcases accepts_proto hp with h6 | h17 | h1
  · have hfields (p : List UInt8) : (wireTcpFields p).shown = (⟨(wireTcpView p).source, (wireTcpView p).dest,
        (wireTcpView p).flags.shown, (wireTcpView p).seq, (wireTcpView p).ackSeq, (wireTcpView p).window,
        (wireTcpView p).payload⟩ : TcpShown) := rfl
    refine iff_of_true ?_ (hother (by omega))
    unfold wireShown
    rw [← hproto, if_pos h6, if_pos h6, hfields, hfields, hs.tcpView h6]
  · have hfields (p : List UInt8) : (⟨be16 p (wireStart p), be16 p (wireStart p + 2), be16 p (wireStart p + 4)⟩ : UdpShown) =
        ⟨(wireUdpView p).source, (wireUdpView p).dest, (wireUdpView p).len⟩ := rfl
    refine iff_of_true ?_ (hother (by omega))
    have h6 : byteAt p 23 ≠ 6 := by omega
    unfold wireShown
    rw [← hproto, if_neg h6, if_neg h6, if_pos h17, if_pos h17, hfields, hfields, hs.udpView h17]
  · rw [← hs.icmp_shown_iff h1]
    simp [wireShown, ← hproto, h1]

/-- **The tree tells the row**, but for the numbers of echo messages. Of frames accepted by either handler whose
captured bytes cover their transport headers. -/
theorem tree_tells_row {h h' : Host} {f g : Frame} {pf pg : StPkt} (hf : RowOf h f pf) (hg : RowOf h' g pg)
    (hc : CoversTransport f.packet) (hc' : CoversTransport g.packet) (hs : SameTree f.packet g.packet) :
    pf = { pg with num := pf.num } ↔ SameEcho f.packet g.packet := by
  obtain ⟨row, ha, hpf⟩ := rowOf_iff.1 hf
  obtain ⟨row', ha', hpg⟩ := rowOf_iff.1 hg
  have hp : Accepts f.packet := exists_rowOf_iff.1 ⟨pf, hf⟩
  have hsame : { pg with num := pf.num } = { row' with num := pf.num } := by rw [hpg]
  have hrow : pf = { row with num := pf.num } := hpf
  rw [accepted_wire h (Frame.transportCaptured hc)] at ha
  rw [accepted_wire h' (Frame.transportCaptured hc')] at ha'
  rw [hsame, ← hs.shown_iff hp]
  have hinj := wireDecode_inj ha ha' pf.num
  rw [← hrow] at hinj
  rw [hinj]
  constructor
  · exact SameRow.shown
  · intro hshown
    refine ⟨?_, ?_, hshown⟩
    · intro k hk
      exact hs.headers (26 + k) (by omega) (by omega) (by omega)
    · exact be16_inj.2
        ⟨hs.headers 16 (by decide) (by decide) (by decide), hs.headers 17 (by decide) (by decide) (by decide)⟩

def echoRow (info : String) : StPkt := ⟨0, "10.0.0.1", "10.0.0.2", "ICMP", 42, info⟩

/-- The rows show the sequence numbers. -/
theorem tree_tells_row_echo : ∃ pf pg, RowOf .little (echo 0 1) pf ∧ RowOf .little (echo 5 2) pg ∧
    SameTree (echo 0 1).packet (echo 5 2).packet ∧ ¬ pf = { pg with num := pf.num } := by
  have hf : RowOf .little (echo 0 1) (echoRow "Echo Request   id=1   seq=1   ttl=64") :=
    rowOf_iff.2 ⟨echoRow "Echo Request   id=1   seq=1   ttl=64", by decide +kernel, rfl⟩
  have hg : RowOf .little (echo 5 2) (echoRow "Echo Request   id=1   seq=2   ttl=64") :=
    rowOf_iff.2 ⟨echoRow "Echo Request   id=1   seq=2   ttl=64", by decide +kernel, rfl⟩
  refine ⟨_, _, hf, hg, sameTree_echo, ?_⟩
  intro heq
  have hecho := (tree_tells_row hf hg (by decide +kernel) (by decide +kernel) sameTree_echo).1 heq
  exact absurd hecho (by decide +kernel)

end MiniWireshark

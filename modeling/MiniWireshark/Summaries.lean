import MiniWireshark.DetailView
import MiniWireshark.HexView

/-!
# Summary nodes of the detail view (`Pcap.cpp:885-1123`, `:1181-1385`, `:1428-1438`)

A summary node of the tree repeats values of its children. All of them do but two: the Ethernet summary
shows the destination as its source and the source as its destination, and the word of the TCP flags
leaves out the reserved bits that its first child shows.

| here | meaning |
| --- | --- |
| `hexValue text`        | what a hexadecimal number in a node says |
| `dscpName`, `ecnName`, `ipFlagName`, `tcpFlagList`, `reservedName` | the words for a value, by its bits |
| `TcpFlagsMatch m text` | the TCP flags node shows the word `text`, and its children bits 0 to 7 of it |
| `Summaries p m`        | the IP, differentiated services, flags, TCP and UDP nodes match, the reserved bits apart |
| `Consistent p m`       | these do, and so do the Ethernet node and the reserved bits |
-/

namespace MiniWireshark

open Reader Text

/-- The value of a hexadecimal number in either case. -/
def hexValue (text : String) : Nat := hexNum (text.toList.map Char.toLower)

/-- A node that says whether a bit is set, as the IP flags show it. -/
def setOf (b : Bool) : String := if b then "Set" else "Not Set"

/-- The class selector of a codepoint. -/
def dscpName (dscp : Nat) : String := "CS" ++ toString (dscp / 8)

/-- The two bits of explicit congestion notification. -/
def ecnName : Nat → String
  | 0 => "Not-ECT"
  | 1 => "ECT(1)"
  | 2 => "ECT(0)"
  | _ => "CE"

/-- The words beside the IP flags: one of DF and MF that is set, or that neither is. -/
def ipFlagName (dont more : Bool) : String :=
  match dont, more with
  | true, _ => "Don't fragment"
  | false, true => "More fragments"
  | false, false => "None"

/-- The TCP flags that are set in a word, from bit 0 up. -/
def tcpFlagList (word : Nat) : List String :=
  ["FIN", "SYN", "RST", "PSH", "ACK", "URG", "ECE", "CWR"].zipIdx.flatMap fun p => if word.testBit p.2 then [p.1] else []

def reservedName (res1 : Nat) : String :=
  if res1 = 0 then "Reserved: Not set" else "Reserved: Set (" ++ toString res1 ++ ")"

/-- The TCP flags node shows a word of four digits, and its children bits 0 to 7 of it. -/
def TcpFlagsMatch (m : TreeModel) (text : String) : Prop :=
  text.length = 4 ∧
    m.titleAt [2, 6] = some ("Flags: 0x" ++ text ++ " (" ++ ", ".intercalate (tcpFlagList (hexValue text)) ++ ")") ∧
    m.titleAt [2, 6, 1] = some (setText "Congestion Window Reduced (CWR)" ((hexValue text).testBit 7)) ∧
    m.titleAt [2, 6, 2] = some (setText "ECN Echo (ECE)" ((hexValue text).testBit 6)) ∧
    m.titleAt [2, 6, 3] = some (setText "Urgent (URG)" ((hexValue text).testBit 5)) ∧
    m.titleAt [2, 6, 4] = some (setText "Acknowledgment (ACK)" ((hexValue text).testBit 4)) ∧
    m.titleAt [2, 6, 5] = some (setText "Push (PSH)" ((hexValue text).testBit 3)) ∧
    m.titleAt [2, 6, 6] = some (setText "Reset (RST)" ((hexValue text).testBit 2)) ∧
    m.titleAt [2, 6, 7] = some (setText "Syn (SYN)" ((hexValue text).testBit 1)) ∧
    m.titleAt [2, 6, 8] = some (setText "Fin (FIN)" ((hexValue text).testBit 0))

/-- The summary nodes below the Ethernet one match their children, the reserved bits of TCP apart; `p` says which
protocol there is. -/
structure Summaries (p : List UInt8) (m : TreeModel) : Prop where
  ip : ∃ version src dst : String, m.titleAt [1, 0] = some ("Version: " ++ version) ∧
    m.titleAt [1, 10] = some ("Source Address: " ++ src) ∧ m.titleAt [1, 11] = some ("Destination Address: " ++ dst) ∧
    m.titleAt [1] = some ("Internet Protocol Version " ++ version ++ ",    Src: " ++ src ++ ",    Dst: " ++ dst)
  tos : ∃ text : String,
    m.titleAt [1, 2] = some ("Differentiated Services Field: 0x" ++ text ++ " (DSCP: " ++ dscpName (hexValue text / 4)
      ++ ", ECN: " ++ ecnName (hexValue text % 4) ++ ")") ∧
    m.titleAt [1, 2, 0] = some ("Differentiated Services Codepoint: " ++ dscpName (hexValue text / 4) ++ " ("
      ++ toString (hexValue text / 4) ++ ")") ∧
    m.titleAt [1, 2, 1] = some ("Explicit Congestion Notification: " ++ ecnName (hexValue text % 4) ++ " ("
      ++ toString (hexValue text % 4) ++ ")")
  flags : ∃ text : String,
    m.titleAt [1, 5] = some ("Flags: 0x" ++ text ++ ", "
      ++ ipFlagName ((hexValue text).testBit 1) ((hexValue text).testBit 0)) ∧
    m.titleAt [1, 5, 0] = some ("Reserved bit: " ++ setOf ((hexValue text).testBit 2)) ∧
    m.titleAt [1, 5, 1] = some ("Don't fragment: " ++ setOf ((hexValue text).testBit 1)) ∧
    m.titleAt [1, 5, 2] = some ("More fragments: " ++ setOf ((hexValue text).testBit 0))
  tcp : byteAt p 23 = 6 → ∃ source dest seq ack len : String,
    m.titleAt [2, 0] = some ("Source Port: " ++ source) ∧ m.titleAt [2, 1] = some ("Destination Port: " ++ dest) ∧
    m.titleAt [2, 2] = some ("[Tcp Segment Len: " ++ len ++ "]") ∧ m.titleAt [2, 3] = some ("Sequence Number: " ++ seq) ∧
    m.titleAt [2, 4] = some ("Acknowledgment Number: " ++ ack) ∧
    m.titleAt [2] = some ("Transmission Control Protocol, Src Port: " ++ source ++ ", Dst Port: " ++ dest ++ ", Seq: "
      ++ seq ++ ", Ack: " ++ ack ++ ", Len: " ++ len)
  tcpFlags : byteAt p 23 = 6 → ∃ text, TcpFlagsMatch m text
  udp : byteAt p 23 = 17 → ∃ source dest : String,
    m.titleAt [2, 0] = some ("Source Port: " ++ source) ∧ m.titleAt [2, 1] = some ("Destination Port: " ++ dest) ∧
    m.titleAt [2] = some ("User Datagram Protocol, Src Prot: " ++ source ++ ",    Dst Port: " ++ dest)

/-- All summary nodes match their children. -/
structure Consistent (p : List UInt8) (m : TreeModel) : Prop where
  etherDst : m.titleAt [0, 0] = some ("Destination : (" ++ wireMac p 0 ++ ")")
  etherSrc : m.titleAt [0, 1] = some ("Source : (" ++ wireMac p 6 ++ ")")
  ether : m.titleAt [0] = some ("Ethernet II,    Src: " ++ wireMac p 6 ++ ",    Dst : " ++ wireMac p 0)
  rest : Summaries p m
  /-- The reserved bits are those above the flags in the word. -/
  reserved : byteAt p 23 = 6 → ∃ text, TcpFlagsMatch m text ∧ m.titleAt [2, 6, 0] = some (reservedName (hexValue text / 256))

/-! ## Hexadecimal numbers -/

theorem hexValue_hexArg (width n : Nat) : hexValue (hexArg width n) = n := by
  have hlower : (hexArg width n).toList.map Char.toLower = (hexArg width n).toList := by
    refine List.map_congr_left (g := id) (fun c hc => ?_) |>.trans (List.map_id _)
    rw [toList_hexArg] at hc
    rcases List.mem_append.1 hc with hc | hc
    · rw [List.eq_of_mem_replicate hc]
      rfl
    · obtain ⟨k, hk, rfl⟩ := exists_digitChar hc
      exact toLower_digitChar hk
  rw [hexValue, hlower, hexNum_hexArg]

/-- The digits of `hexTos` are in upper case and padded after that. -/
theorem hexTos_eq (tos : Nat) : ∃ text, hexTos tos = "0x" ++ text ∧ hexValue text = tos := by
  refine ⟨_, rfl, ?_⟩
  have hlower : ((Nat.toDigits 16 tos).map Char.toUpper).map Char.toLower = Nat.toDigits 16 tos := by
    rw [List.map_map]
    refine List.map_congr_left (g := id) (fun c hc => ?_) |>.trans (List.map_id _)
    obtain ⟨k, hk, rfl⟩ := exists_digitChar hc
    exact toLower_toUpper_digitChar hk
  rw [hexValue, String.toList_append, String.toList_ofList, String.toUpper, String.toList_map, String.toList_ofList,
    List.map_append, hlower, List.map_replicate, show Char.toLower '0' = '0' from rfl, hexNum_replicate_append,
    hexNum_toDigits]

/-! ## MAC addresses -/

theorem toList_hexArg_byte : ∀ n < 256, (hexArg 2 n).toList = [(n / 16).digitChar, (n % 16).digitChar] := by
  decide +kernel

/-- Two characters for each byte, between colons. -/
theorem toList_macText {b0 b1 b2 b3 b4 b5 : Nat} (h0 : b0 < 256) (h1 : b1 < 256) (h2 : b2 < 256) (h3 : b3 < 256)
    (h4 : b4 < 256) (h5 : b5 < 256) : (macText b0 b1 b2 b3 b4 b5).toList =
      [(b0 / 16).digitChar.toUpper, (b0 % 16).digitChar.toUpper, ':', (b1 / 16).digitChar.toUpper,
        (b1 % 16).digitChar.toUpper, ':', (b2 / 16).digitChar.toUpper, (b2 % 16).digitChar.toUpper, ':',
        (b3 / 16).digitChar.toUpper, (b3 % 16).digitChar.toUpper, ':', (b4 / 16).digitChar.toUpper,
        (b4 % 16).digitChar.toUpper, ':', (b5 / 16).digitChar.toUpper, (b5 % 16).digitChar.toUpper] := by
  rw [macText, String.toUpper, String.toList_map]
  simp only [String.toList_append, toList_hexArg_byte _ h0, toList_hexArg_byte _ h1, toList_hexArg_byte _ h2,
    toList_hexArg_byte _ h3, toList_hexArg_byte _ h4, toList_hexArg_byte _ h5, show ":".toList = [':'] from rfl,
    List.cons_append, List.nil_append, List.map_cons, List.map_nil]
  rfl

theorem byte_eq_of_digits {a b : Nat} (ha : a < 256) (hb : b < 256)
    (hhi : (a / 16).digitChar.toUpper = (b / 16).digitChar.toUpper)
    (hlo : (a % 16).digitChar.toUpper = (b % 16).digitChar.toUpper) : a = b := by
  have h1 := toUpper_digitChar_inj (by omega) (by omega) hhi
  have h2 := toUpper_digitChar_inj (by omega) (by omega) hlo
  omega

section
variable {p q : List UInt8} {i j : Nat}

theorem length_wireMac (p : List UInt8) (i : Nat) : (wireMac p i).toList.length = 17 := by
  rw [wireMac, toList_macText (byteAt_lt p _) (byteAt_lt p _) (byteAt_lt p _) (byteAt_lt p _) (byteAt_lt p _) (byteAt_lt p _)]
  rfl

/-- Addresses are shown alike iff they are the same. -/
theorem wireMac_inj : wireMac p i = wireMac q j ↔ ∀ k < 6, byteAt p (i + k) = byteAt q (j + k) := by
  have hlt (p : List UInt8) (k : Nat) : byteAt p k < 256 := byteAt_lt p k
  constructor
  · intro h
    have hl := congrArg String.toList h
    rw [wireMac, wireMac, toList_macText (hlt _ _) (hlt _ _) (hlt _ _) (hlt _ _) (hlt _ _) (hlt _ _),
      toList_macText (hlt _ _) (hlt _ _) (hlt _ _) (hlt _ _) (hlt _ _) (hlt _ _)] at hl
    simp only [List.cons.injEq, true_and, and_true] at hl
    obtain ⟨a0, b0, a1, b1, a2, b2, a3, b3, a4, b4, a5, b5⟩ := hl
    intro k hk
    obtain rfl | rfl | rfl | rfl | rfl | rfl : k = 0 ∨ k = 1 ∨ k = 2 ∨ k = 3 ∨ k = 4 ∨ k = 5 := by omega
    · exact byte_eq_of_digits (hlt _ _) (hlt _ _) a0 b0
    · exact byte_eq_of_digits (hlt _ _) (hlt _ _) a1 b1
    · exact byte_eq_of_digits (hlt _ _) (hlt _ _) a2 b2
    · exact byte_eq_of_digits (hlt _ _) (hlt _ _) a3 b3
    · exact byte_eq_of_digits (hlt _ _) (hlt _ _) a4 b4
    · exact byte_eq_of_digits (hlt _ _) (hlt _ _) a5 b5
  · intro h
    have h0 := h 0 (by decide)
    simp only [Nat.add_zero] at h0
    rw [wireMac, wireMac, h0, h 1 (by decide), h 2 (by decide), h 3 (by decide), h 4 (by decide), h 5 (by decide)]

end

/-! ## Words -/

theorem dscpText_eq : ∀ v < 64, dscpText v = dscpName v := by
  decide +kernel

theorem ecnText_eq : ∀ v < 4, ecnText v = ecnName v := by
  decide

/-- The mask of a flag selects its bit. -/
theorem bitText_eq : ∀ v < 8, bitText v 0x04 = setOf (v.testBit 2) ∧ bitText v 0x02 = setOf (v.testBit 1) ∧
    bitText v 0x01 = setOf (v.testBit 0) := by
  decide

theorem flagMeaning_eq : ∀ v < 8, flagMeaning v = ipFlagName (v.testBit 1) (v.testBit 0) := by
  decide

/-- The reserved bits are told apart. -/
theorem reservedName_inj {m n : Nat} : reservedName m = reservedName n ↔ m = n := by
  have hset (n : Nat) : "Reserved: Set (" ++ toString n ++ ")" ≠ "Reserved: Not set" := by
    simp [← String.toList_inj]
  constructor
  swap
  · rintro rfl
    rfl
  intro h
  unfold reservedName at h
  by_cases hm : m = 0 <;> by_cases hn : n = 0
  · rw [hm, hn]
  · rw [if_pos hm, if_neg hn] at h
    exact absurd h.symm (hset n)
  · rw [if_neg hm, if_pos hn] at h
    exact absurd h (hset m)
  · rwa [if_neg hm, if_neg hn, String.append_left_inj, String.append_right_inj, Text.toString_nat_inj] at h

theorem tcpFlagNames_wireFlags (b : Nat) : tcpFlagNames (wireFlags b) = ", ".intercalate (tcpFlagList b) := by
  simp only [tcpFlagNames, tcpFlagList, List.zipIdx_cons, List.zipIdx_nil, List.flatMap_cons, List.flatMap_nil,
    List.append_assoc, List.append_nil, Nat.zero_add, Nat.reduceAdd]
  rfl

/-- Three bits are left of the fragment field. -/
theorem IpView.flags_lt (v : IpView) : v.flags < 8 := by
  have hle : v.frag &&& 0xE000 ≤ 0xE000 := Nat.and_le_right
  rw [IpView.flags, Nat.shiftRight_eq_div_pow]
  omega

theorem IpView.dscp_eq (v : IpView) : v.dscp = v.tos / 4 := Nat.shiftRight_eq_div_pow v.tos 2

theorem IpView.ecn_eq (v : IpView) : v.ecn = v.tos % 4 := Nat.and_two_pow_sub_one_eq_mod v.tos 2

/-- The word of the flags is the byte they come from. -/
theorem tcpFlagBits_wireFlags : ∀ b < 256, tcpFlagBits (wireFlags b) = b := by
  decide +kernel

theorem length_hexArg_byte {b : Nat} (hb : b < 256) : (hexArg 4 b).length = 4 := by
  have hlen : (Nat.toDigits 16 b).length ≤ 2 := (Nat.length_toDigits_le_iff (by decide) (by decide)).2 hb
  rw [← String.length_toList, length_toList_hexArg]
  omega

/-! ## The nodes of one tree -/

section
variable {m : TreeModel} {base : Nat} {p : List UInt8}

/-- The TCP flags node shows the byte its flags come from. -/
theorem tcpFlagsMatch_wire (hm : m.Built base (wireDetail p).ops) (h6 : byteAt p 23 = 6) :
    TcpFlagsMatch m (hexArg 4 (byteAt p (wireStart p + 13))) := by
  rw [wireDetail_tcp h6] at hm
  have hlt := byteAt_lt p (wireStart p + 13)
  have hword : tcpFlagBits (wireTcpView p).flags = byteAt p (wireStart p + 13) := tcpFlagBits_wireFlags _ hlt
  refine ⟨length_hexArg_byte hlt, ?_⟩
  rw [hexValue_hexArg, ← tcpFlagNames_wireFlags]
  nth_rewrite 1 [← hword]
  exact ⟨hm.titleAt, hm.titleAt, hm.titleAt, hm.titleAt, hm.titleAt, hm.titleAt, hm.titleAt, hm.titleAt, hm.titleAt⟩

/-- All summaries but two match, whatever the fields. -/
theorem summaries_wire (hm : m.Built base (wireDetail p).ops) : Summaries p m where
  ip := ⟨_, _, _, hm.titleAt, hm.titleAt, hm.titleAt, hm.titleAt⟩
  tos := by
    obtain ⟨text, htext, hvalue⟩ := hexTos_eq (wireIp p).tos
    have hlt : (wireIp p).tos < 256 := byteAt_lt p 15
    have hfield : "Differentiated Services Field: 0x" ++ text =
        "Differentiated Services Field: " ++ hexTos (wireIp p).tos := by
      rw [htext, ← String.append_assoc]
      rfl
    refine ⟨text, ?_⟩
    rw [hfield, hvalue, ← dscpText_eq _ (by omega), ← ecnText_eq _ (by omega), ← IpView.dscp_eq, ← IpView.ecn_eq]
    exact ⟨hm.titleAt, hm.titleAt, hm.titleAt⟩
  flags := by
    have hlt := (wireIp p).flags_lt
    obtain ⟨hreserved, hdont, hmore⟩ := bitText_eq _ hlt
    refine ⟨hexArg 0 (wireIp p).flags, ?_⟩
    rw [hexValue_hexArg, ← flagMeaning_eq _ hlt, ← hreserved, ← hdont, ← hmore]
    exact ⟨hm.titleAt, hm.titleAt, hm.titleAt, hm.titleAt⟩
  tcp h6 := by
    rw [wireDetail_tcp h6] at hm
    exact ⟨_, _, _, _, _, hm.titleAt, hm.titleAt, hm.titleAt, hm.titleAt, hm.titleAt, hm.titleAt⟩
  tcpFlags h6 := ⟨_, tcpFlagsMatch_wire hm h6⟩
  udp h17 := by
    rw [wireDetail_udp h17] at hm
    exact ⟨_, _, hm.titleAt, hm.titleAt, hm.titleAt⟩

/-- The two addresses are exchanged in the summary of Ethernet. -/
theorem ether_wire (hm : m.Built base (wireDetail p).ops) :
    m.titleAt [0] = some ("Ethernet II,    Src: " ++ wireMac p 6 ++ ",    Dst : " ++ wireMac p 0) ↔
      ∀ i < 6, byteAt p i = byteAt p (6 + i) := by
  have hether : m.titleAt [0] = some ("Ethernet II,    Src: " ++ wireMac p 0 ++ ",    Dst : " ++ wireMac p 6) :=
    hm.titleAt
  have hsame : wireMac p 0 = wireMac p 6 ↔ ∀ i < 6, byteAt p i = byteAt p (6 + i) := by
    rw [wireMac_inj]
    simp only [Nat.zero_add]
  rw [← hsame, hether]
  constructor
  · intro heq
    have htitle := congrArg String.toList (Option.some.inj heq)
    simp only [String.toList_append, List.append_assoc] at htitle
    have hmac := (List.append_inj (List.append_cancel_left htitle) (by rw [length_wireMac, length_wireMac])).1
    exact String.toList_inj.1 hmac
  · intro heq
    rw [heq]

/-- A node of the TCP flags shows one word. -/
theorem TcpFlagsMatch.text_eq {text text' : String} (hm : TcpFlagsMatch m text) (hm' : TcpFlagsMatch m text') :
    text = text' := by
  have htitle := congrArg String.toList (Option.some.inj (hm.2.1.symm.trans hm'.2.1))
  simp only [String.toList_append, List.append_assoc] at htitle
  have hlen : text.toList.length = text'.toList.length := by
    rw [String.length_toList, String.length_toList, hm.1, hm'.1]
  exact String.toList_inj.1 (List.append_inj (List.append_cancel_left htitle) hlen).1

/-- The reserved bits are not in the word. -/
theorem reserved_wire (hm : m.Built base (wireDetail p).ops) (h6 : byteAt p 23 = 6) :
    (∃ text, TcpFlagsMatch m text ∧ m.titleAt [2, 6, 0] = some (reservedName (hexValue text / 256))) ↔
      byteAt p (wireStart p + 12) % 16 = 0 := by
  have hflags := tcpFlagsMatch_wire hm h6
  have hzero : byteAt p (wireStart p + 13) / 256 = 0 := Nat.div_eq_of_lt (byteAt_lt p _)
  have htitle : m.titleAt [2, 6, 0] = some (reservedName (byteAt p (wireStart p + 12) % 16)) := by
    rw [wireDetail_tcp h6] at hm
    rw [reservedName, ← ite_not]
    exact hm.titleAt
  constructor
  · rintro ⟨text, htext, hreserved⟩
    rw [htext.text_eq hflags, hexValue_hexArg, hzero, htitle, Option.some.injEq] at hreserved
    exact reservedName_inj.1 hreserved
  · intro hnot
    refine ⟨_, hflags, ?_⟩
    rw [htitle, hexValue_hexArg, hzero, hnot]

theorem consistent_wire (hm : m.Built base (wireDetail p).ops) :
    Consistent p m ↔ (∀ i < 6, byteAt p i = byteAt p (6 + i)) ∧
      (byteAt p 23 = 6 → byteAt p (wireStart p + 12) % 16 = 0) := by
  constructor
  · intro hc
    exact ⟨(ether_wire hm).1 hc.ether, fun h6 => (reserved_wire hm h6).1 (hc.reserved h6)⟩
  · rintro ⟨hmac, hres⟩
    exact ⟨hm.titleAt, hm.titleAt, (ether_wire hm).2 hmac, summaries_wire hm, fun h6 => (reserved_wire hm h6).2 (hres h6)⟩

end

/-- **Each summary repeats its children**, iff both addresses are the same and TCP uses no reserved bit; and all but
these two always do. The tree of a stored frame that was accepted, captured whole and covers its transport header,
whatever was shown before. -/
theorem summaries_consistent_iff {h : Host} {f : Frame} {p : Pcap} {idx : Int} {e : Entry} {n : Nat}
    {calls : List (Pcap × Int)} {m : TreeModel} (hf : p.find idx = some e) (he : e.dump = f.dump n)
    (hlen : f.header.caplen = f.header.len) (hc : CoversTransport f.packet) (ha : (accepted h f).isSome = true)
    (hm : Lts.run (viewStep h) {} calls = some m) :
    ∃ m', startTreeMd h p idx m = some m' ∧ Summaries f.packet m' ∧
      (Consistent f.packet m' ↔ (∀ i < 6, byteAt f.packet i = byteAt f.packet (6 + i)) ∧
        (byteAt f.packet 23 = 6 → byteAt f.packet (wireStart f.packet + 12) % 16 = 0)) := by
  obtain ⟨row, ha⟩ := Option.isSome_iff_exists.1 ha
  have hread := detail_accepted ha hc
  rw [← treeData_of_find hf he hlen] at hread
  obtain ⟨m', hm', hbuilt, _⟩ := startTreeMd_of_read (tidy_run hm) hread
  rw [treeData_of_find hf he hlen] at hbuilt
  exact ⟨m', hm', summaries_wire hbuilt, consistent_wire hbuilt⟩

/-- A packet on the loopback interface, where both addresses are zero. -/
def loopbackFrame : Frame where
  header := { caplen := 42, len := 42 }
  packet := List.replicate 12 0 ++ udpPacket.drop 12
  captured := rfl
  after _ := 0

theorem summaries_consistent_loopback : ∃ m',
    startTreeMd .little { vecDump := [⟨loopbackFrame.dump 0, .file 0⟩] } 0 {} = some m' ∧
      Consistent loopbackFrame.packet m' := by
  have hfind : Pcap.find { vecDump := [⟨loopbackFrame.dump 0, .file 0⟩] } 0 = some ⟨loopbackFrame.dump 0, .file 0⟩ := by
    decide +kernel
  have haccepted : (accepted .little loopbackFrame).isSome = true := by decide +kernel
  have hview : Lts.run (viewStep .little) {} [] = some {} := rfl
  obtain ⟨m', hm', _, hiff⟩ := summaries_consistent_iff hfind rfl rfl (by decide +kernel) haccepted hview
  exact ⟨m', hm', hiff.2 (by decide +kernel)⟩

/-- Sent from `:02` to `:01`, and shown the other way round. -/
theorem summaries_swapped_udp : (accepted .little (udpFrame 42)).isSome = true ∧ CoversTransport (udpFrame 42).packet ∧
    oneUdp.find 0 = some ⟨(udpFrame 42).dump 0, .file 0⟩ ∧ ∃ m', startTreeMd .little oneUdp 0 {} = some m' ∧
      m'.titleAt [0] = some "Ethernet II,    Src: 00:00:00:00:00:01,    Dst : 00:00:00:00:00:02" ∧
      m'.titleAt [0, 1] = some "Source : (00:00:00:00:00:02)" ∧ ¬ Consistent (udpFrame 42).packet m' := by
  have hread : Detail.read .little (ofList (oneUdp.treeData 0)) = some (wireDetail (udpFrame 42).packet) :=
    detail_ofList .little (by decide +kernel) (by decide +kernel) (by decide +kernel)
  obtain ⟨m', hm', hbuilt, _⟩ := startTreeMd_of_read TreeModel.Tidy.init hread
  refine ⟨by decide +kernel, by decide +kernel, by decide +kernel, m', hm', ?_, ?_, fun hc => ?_⟩
  · rw [hbuilt.titleAt]
    decide +kernel
  · rw [hbuilt.titleAt]
    decide +kernel
  · exact absurd ((consistent_wire hbuilt).1 hc).1 (by decide +kernel)

/-- A SYN on the loopback interface with all reserved bits set. -/
def reservedFrame : Frame where
  header := { caplen := 54, len := 54 }
  packet := [0, 0, 0, 0, 0, 0, 0, 0, 0, 0, 0, 0, 0x08, 0x00,
    0x45, 0, 0, 40, 0, 0, 0, 0, 64, 6, 0, 0, 127, 0, 0, 1, 127, 0, 0, 1,
    0, 80, 0, 80, 0, 0, 0, 1, 0, 0, 0, 0, 0x5F, 0x02, 1, 0, 0, 0, 0, 0]
  captured := rfl
  after _ := 0

/-- The word of the flags does not have the bits that its first child shows. -/
theorem summaries_without_reserved : (accepted .little reservedFrame).isSome = true ∧ ∃ m',
    startTreeMd .little { vecDump := [⟨reservedFrame.dump 0, .file 0⟩] } 0 {} = some m' ∧
      m'.titleAt [2, 6] = some "Flags: 0x0002 (SYN)" ∧ m'.titleAt [2, 6, 0] = some "Reserved: Set (15)" ∧
      ¬ Consistent reservedFrame.packet m' := by
  have hdata : Pcap.treeData { vecDump := [⟨reservedFrame.dump 0, .file 0⟩] } 0 = reservedFrame.packet := by decide +kernel
  have hread : Detail.read .little (ofList (Pcap.treeData { vecDump := [⟨reservedFrame.dump 0, .file 0⟩] } 0)) =
      some (wireDetail reservedFrame.packet) := by
    rw [hdata]
    exact detail_ofList .little (by decide +kernel) (by decide +kernel) (by decide +kernel)
  obtain ⟨m', hm', hbuilt, _⟩ := startTreeMd_of_read TreeModel.Tidy.init hread
  refine ⟨by decide +kernel, m', hm', ?_, ?_, fun hc => ?_⟩
  · rw [hbuilt.titleAt]
    decide +kernel
  · rw [hbuilt.titleAt]
    decide +kernel
  · exact absurd (((consistent_wire hbuilt).1 hc).2 (by decide +kernel)) (by decide +kernel)

end MiniWireshark

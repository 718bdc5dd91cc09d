import MiniWireshark.DetailTree
import MiniWireshark.Records

/-!
# The detail view of stored packets (`Pcap.cpp:550-748`, `:858-1438`)

`start_tree_md` has no length check of its own. On an entry stored from an accepted frame whose captured
bytes cover the transport header it reads the fields of that frame, and shows what the packet list shows;
on a number no entry has it reads bytes that are not there.

| here | meaning |
| --- | --- |
| `Agrees r m`          | the tree in the view shows what the row `r` says |
| `Entry.FromCovered`   | an entry stored from an accepted frame, captured whole up to its transport header |
-/

namespace MiniWireshark

open Reader

/-! ## What is read of a stored packet -/

section
variable {h : Host} {p : List UInt8} {row : StPkt}

/-- An accepted frame that covers its transport header covers all that the detail view reads. -/
theorem wireDecode_covers (hd : wireDecode p = some row) (hc : CoversTransport p) :
    34 ≤ p.length ∧ wireStart p ≤ p.length ∧ CoversDetail p := by
  rw [wireDecode, Option.ite_none_right_eq_some] at hd
  obtain ⟨⟨h34, _, _, hstart⟩, hd⟩ := hd
  obtain ⟨r, hr, _⟩ := Option.map_eq_some_iff.1 hd
  refine ⟨h34, hstart, fun h6 => ?_, fun h17 => ?_, fun h1 => ?_⟩
  · rw [wireTransport, if_pos h6, wireTcp, Option.ite_none_right_eq_some] at hr
    have := hr.1.1
    omega
  · have := hc.2 (.inl h17)
    omega
  · have := hc.2 (.inr h1)
    omega

theorem detail_accepted {f : Frame} (ha : accepted h f = some row) (hc : CoversTransport f.packet) :
    Detail.read h (ofList f.packet) = some (wireDetail f.packet) := by
  rw [accepted_wire h (Frame.transportCaptured hc)] at ha
  obtain ⟨h34, hstart, hcovers⟩ := wireDecode_covers ha hc
  exact detail_ofList h h34 hstart hcovers

/-- The data found for a number is that of the frame stored under it. -/
theorem treeData_of_find {q : Pcap} {idx : Int} {e : Entry} {f : Frame} {n : Nat} (hf : q.find idx = some e)
    (he : e.dump = f.dump n) (hlen : f.header.caplen = f.header.len) : q.treeData idx = f.packet := by
  rw [Pcap.treeData, hf]
  exact (congrArg DumpData.data he).trans ((f.keeps_dump_iff n).2 hlen.symm).bytes

/-- Without a match `data` is empty, and the first byte is read from it all the same. -/
theorem detail_nil (h : Host) : Detail.read h (ofList []) = none := by
  simp [Detail.read, EtherView.read, macToString, u8, ofList]

end

/-! ## List and detail view -/

/-- The tree in the view shows what the row says. -/
structure Agrees (r : StPkt) (m : TreeModel) : Prop where
  src : m.titleAt [1, 10] = some ("Source Address: " ++ r.src)
  dst : m.titleAt [1, 11] = some ("Destination Address: " ++ r.dst)
  proto : ∃ number : Nat, m.titleAt [1, 7] = some ("Protocol: " ++ r.proto ++ " (" ++ toString number ++ ")")
  totalLen : ∃ totLen : Nat, m.titleAt [1, 3] = some ("Total Length: " ++ toString totLen) ∧ r.len = totLen + 14
  tcp : r.proto = "TCP" → ∃ (source dest seq ack window : Nat) (flags : TcpFlags) (len : Int),
    r.info = tcpInfo source dest flags seq ack window len ∧
    m.titleAt [2, 0] = some ("Source Port: " ++ toString source) ∧
    m.titleAt [2, 1] = some ("Destination Port: " ++ toString dest) ∧
    m.titleAt [2, 2] = some ("[Tcp Segment Len: " ++ toString len ++ "]") ∧
    m.titleAt [2, 3] = some ("Sequence Number: " ++ toString seq) ∧
    m.titleAt [2, 4] = some ("Acknowledgment Number: " ++ toString ack) ∧
    m.titleAt [2, 7] = some ("Window: " ++ toString window)
  /-- `udpInfo` prints the length less 8. -/
  udp : r.proto = "UDP" → ∃ source dest len : Nat, r.info = udpInfo source dest len ∧
    m.titleAt [2, 0] = some ("Source Port: " ++ toString source) ∧
    m.titleAt [2, 1] = some ("Destination Port: " ++ toString dest) ∧
    m.titleAt [2, 2] = some ("Length: " ++ toString len)
  /-- The name is empty for a type without one. -/
  icmp : r.proto = "ICMP" → ∃ type detail, r.info = icmpTypeName type ++ "   " ++ detail ∧
    m.titleAt [2, 0] = some (icmpTypeName type)

/-- The list concatenates the names, of which at most one is not empty; the tree takes the first. -/
theorem icmpTypeText_eq (type : Nat) : icmpTypeText type = icmpTypeName type ++ "   " := by
  unfold icmpTypeText icmpTypeName
  by_cases h0 : type = 0
  · subst h0
    decide
  by_cases h3 : type = 3
  · subst h3
    decide
  by_cases h5 : type = 5
  · subst h5
    decide
  by_cases h8 : type = 8
  · subst h8
    decide
  by_cases h11 : type = 11
  · subst h11
    decide
  simp [h0, h3, h5, h8, h11]

section
variable {m : TreeModel} {base : Nat} {p : List UInt8} {row : StPkt}

theorem Agrees.renumber (ha : Agrees row m) (n : Nat) : Agrees { row with num := n } m :=
  ⟨ha.src, ha.dst, ha.proto, ha.totalLen, ha.tcp, ha.udp, ha.icmp⟩

/-- The row of the reference decoder and the tree of the fields by position. -/
theorem agrees_wire (hd : wireDecode p = some row) (hm : m.Built base (wireDetail p).ops) : Agrees row m := by
  rw [wireDecode, Option.ite_none_right_eq_some] at hd
  obtain ⟨r, hr, rfl⟩ := Option.map_eq_some_iff.1 hd.2
  have hsrc : m.titleAt [1, 10] = some ("Source Address: " ++ dotted p 26) := hm.titleAt
  have hdst : m.titleAt [1, 11] = some ("Destination Address: " ++ dotted p 30) := hm.titleAt
  have hproto : m.titleAt [1, 7] = some ("Protocol: " ++ protoText (byteAt p 23)) := hm.titleAt
  have htot : m.titleAt [1, 3] = some ("Total Length: " ++ toString (be16 p 16)) := hm.titleAt
  have htcp_udp : ("TCP" : String) ≠ "UDP" := by decide
  have htcp_icmp : ("TCP" : String) ≠ "ICMP" := by decide
  have hudp_icmp : ("UDP" : String) ≠ "ICMP" := by decide
  unfold wireTransport at hr
  split_ifs at hr with h6 h17 h1
  · rw [wireTcp, Option.ite_none_right_eq_some, Option.some.injEq] at hr
    obtain ⟨_, rfl⟩ := hr
    rw [wireDetail_tcp h6] at hm
    rw [h6] at hproto
    refine ⟨hsrc, hdst, ⟨6, hproto⟩, ⟨_, htot, rfl⟩, fun _ => ?_, fun h => absurd h htcp_udp, fun h => absurd h htcp_icmp⟩
    exact ⟨_, _, _, _, _, _, _, rfl, hm.titleAt, hm.titleAt, hm.titleAt, hm.titleAt, hm.titleAt, hm.titleAt⟩
  · cases hr
    rw [wireDetail_udp h17] at hm
    rw [h17] at hproto
    refine ⟨hsrc, hdst, ⟨17, hproto⟩, ⟨_, htot, rfl⟩, fun h => absurd h.symm htcp_udp, fun _ => ?_,
      fun h => absurd h hudp_icmp⟩
    exact ⟨_, _, _, rfl, hm.titleAt, hm.titleAt, hm.titleAt⟩
  · cases hr
    rw [wireDetail_icmp h1] at hm
    rw [h1] at hproto
    refine ⟨hsrc, hdst, ⟨1, hproto⟩, ⟨_, htot, rfl⟩, fun h => absurd h.symm htcp_icmp, fun h => absurd h.symm hudp_icmp,
      fun _ => ?_⟩
    refine ⟨byteAt p (wireStart p), wireIcmpDetail p, ?_, hm.titleAt⟩
    rw [← icmpTypeText_eq]
    rfl

end

/-- **Packet list and detail tree agree.** Of a frame captured whole and accepted into empty lists, whose
captured bytes cover its transport header, the tree shows what the row shows, whatever was shown before. -/
theorem list_and_tree_agree {h : Host} {src : Source} {f : Frame} {p p' : Pcap} {r : Row} {calls : List (Pcap × Int)}
    {m : TreeModel} (hlen : f.header.caplen = f.header.len) (hc : CoversTransport f.packet)
    (hempty : p.md.vec = [] ∧ p.vecDump = [] ∧ p.vecDumpFile = [])
    (hp : p.packetFunc h Frame.read src f = some p') (hr : p'.md.vec = [r])
    (hm : Lts.run (viewStep h) {} calls = some m) :
    ∃ m', startTreeMd h p' r.pkt.num m = some m' ∧ Agrees r.pkt m' := by
  obtain ⟨hvec, hdump, hfile⟩ := hempty
  obtain ⟨_, rfl⟩ | ⟨row, ha, rfl⟩ := Pcap.packetFunc_cases hp
  · rw [hvec] at hr
    cases hr
  · have hrow : r = ⟨{ row with num := p.num }, src⟩ := by
      have hr' : p.md.vec ++ [⟨{ row with num := p.num }, src⟩] = [r] := hr
      rw [hvec, List.nil_append] at hr'
      exact (List.cons.inj hr').1.symm
    subst hrow
    have hfind : Pcap.find { p with
        num := p.num + 1
        md := p.md.updateMd ⟨{ row with num := p.num }, src⟩
        vecDump := p.vecDump ++ [⟨f.dump p.num, src⟩] } p.num = some ⟨f.dump p.num, src⟩ := by
      simp [Pcap.find, hdump, hfile, Frame.dump]
    have hread := detail_accepted ha hc
    rw [← treeData_of_find hfind rfl hlen] at hread
    obtain ⟨m', hm', hbuilt, _⟩ := startTreeMd_of_read (tidy_run hm) hread
    rw [treeData_of_find hfind rfl hlen] at hbuilt
    rw [accepted_wire h (Frame.transportCaptured hc)] at ha
    exact ⟨m', hm', (agrees_wire ha hbuilt).renumber p.num⟩

/-- The segment read from a file, and looked at after another packet. -/
theorem list_and_tree_agree_tcp : ∃ p' m m',
    Pcap.packetFunc .little Frame.read (.file 0) {} tcpFrame = some p' ∧ p'.md.vec = [tcpRow 0] ∧
      Lts.run (viewStep .little) {} [(oneUdp, 0)] = some m ∧ startTreeMd .little p' 0 m = some m' ∧
      Agrees (tcpRow 0).pkt m' ∧ m'.titleAt [1, 3] = some "Total Length: 55" := by
  have hp : Pcap.packetFunc .little Frame.read (.file 0) {} tcpFrame = some
      { num := 1, md := { vec := [tcpRow 0] }, vecDump := [⟨tcpFrame.dump 0, .file 0⟩] } := by decide +kernel
  have hd : Detail.read .little (ofList (oneUdp.treeData 0)) = some (wireDetail (oneUdp.treeData 0)) :=
    detail_ofList .little (by decide +kernel) (by decide +kernel) (by decide +kernel)
  obtain ⟨m, hm, _⟩ := startTreeMd_of_read TreeModel.Tidy.init hd
  have hview : Lts.run (viewStep .little) {} [(oneUdp, 0)] = some m := Lts.run_cons_eq_some.2 ⟨m, hm, rfl⟩
  obtain ⟨m', hm', hagree⟩ := list_and_tree_agree rfl (by decide +kernel) ⟨rfl, rfl, rfl⟩ hp rfl hview
  obtain ⟨total, htotal, hlen⟩ := hagree.totalLen
  obtain rfl : total = 55 := by
    have hrow : (tcpRow 0).pkt.len = 69 := rfl
    omega
  exact ⟨_, m, m', hp, rfl, hview, hm', hagree, htotal⟩

/-! ## Numbers with and without an entry -/

/-- **What the detail view reads is inside the packet, exactly when there is one.** After any run whose
accepted frames are captured whole and cover their transport headers, and whatever was shown before,
`start_tree_md` reads nothing outside the data it found iff a stored entry has the number. -/
theorem detail_inside_iff {h : Host} {acts : List Act} {s : Sys} {calls : List (Pcap × Int)} {m : TreeModel}
    (hr : Lts.run (Sys.step h) Sys.init acts = some s)
    (hframes : ∀ a ∈ acts, ∀ f ∈ a.frames, (accepted h f).isSome = true →
      f.header.caplen = f.header.len ∧ CoversTransport f.packet)
    (hm : Lts.run (viewStep h) {} calls = some m) (idx : Int) :
    (startTreeMd h s.pcap idx m).isSome = true ↔ ∃ e ∈ s.pcap.vecDump, (e.dump.pktNum : Int) = idx := by
  have hfile : s.pcap.vecDumpFile = [] := Sys.vecDumpFile_run rfl hr
  rw [isSome_startTreeMd (tidy_run hm), ← Pcap.isSome_find_iff hfile]
  cases hf : s.pcap.find idx with
  | none =>
    rw [Pcap.treeData, hf, detail_nil]
    rfl
  | some e =>
    have hmem : e ∈ s.pcap.vecDump := Pcap.mem_vecDump_of_find hfile hf
    obtain ⟨f, he, ha, hlen, hc⟩ := Sys.entries_from hr hframes e (List.mem_append_left _ hmem)
    obtain ⟨row, ha⟩ := Option.isSome_iff_exists.1 ha
    rw [treeData_of_find hf he hlen, detail_accepted ha hc]
    rfl

/-- A captured packet is stored and can be looked at. -/
theorem detail_inside_capture : ∃ s, Lts.run (Sys.step .little) Sys.init (captureOne (udpFrame 42)) = some s ∧
    (startTreeMd .little s.pcap 0 {}).isSome = true := by
  obtain ⟨s, hr, hstored⟩ : ∃ s, Lts.run (Sys.step .little) Sys.init (captureOne (udpFrame 42)) = some s ∧
      ∃ e ∈ s.pcap.vecDump, (e.dump.pktNum : Int) = 0 := Lts.run_reaches (by decide +kernel)
  exact ⟨s, hr, (detail_inside_iff hr (by decide +kernel) (show Lts.run (viewStep .little) {} [] = some {} from rfl) 0).2
    hstored⟩

/-- Its row is in the list before its entry is stored: `start_tree_md` then reads where no data is,
and `start_hax` does not. -/
theorem detail_outside_capture : ∃ s,
    Lts.run (Sys.step .little) Sys.init ((captureOne (udpFrame 42)).take 11) = some s ∧
    (∀ a ∈ (captureOne (udpFrame 42)).take 11, ∀ f ∈ a.frames,
      f.header.caplen = f.header.len ∧ CoversTransport f.packet) ∧
    s.pcap.md.vec.map (fun r => r.pkt.num) = [0] ∧ startTreeMd .little s.pcap 0 {} = none ∧
    s.pcap.startHax 0 = some "-" := by
  obtain ⟨s, hr, hrow, hdump, hfile⟩ : ∃ s,
      Lts.run (Sys.step .little) Sys.init ((captureOne (udpFrame 42)).take 11) = some s ∧
      s.pcap.md.vec.map (fun r => r.pkt.num) = [0] ∧ s.pcap.vecDump = [] ∧ s.pcap.vecDumpFile = [] :=
    Lts.run_reaches (by decide +kernel)
  have hfind : s.pcap.find 0 = none := by
    rw [Pcap.find, hdump, hfile]
    rfl
  have htree : (startTreeMd .little s.pcap 0 {}).isSome = _ := isSome_startTreeMd TreeModel.Tidy.init
  rw [Pcap.treeData, hfind, detail_nil] at htree
  refine ⟨s, hr, by decide +kernel, hrow, ?_, ?_⟩
  · exact Option.isNone_iff_eq_none.1 (Option.isSome_eq_false_iff.1 htree)
  · rw [Pcap.startHax, hfind]

end MiniWireshark

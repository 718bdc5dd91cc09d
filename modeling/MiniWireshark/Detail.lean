import MiniWireshark.Checksum
import MiniWireshark.Pcap
import MiniWireshark.TreeBuild

/-!
# The detail view (`Pcap::start_tree_md`, `Pcap.cpp:858-1426`)

`start_tree_md` decodes the stored bytes a second time and makes a tree of texts. Each `read` below
loads the fields of one layer, each `ops` the texts and calls that follow, in the order of the source.
The items of one call are numbered as they are allocated, from its root, which is `0`.

| here | there |
| --- | --- |
| `macToString`            | `Pcap::macToString` (`:1428-1438`) |
| `EtherView`, `IpView`    | `:885-918`, `:922-1190` |
| `TcpView`, `UdpView`, `IcmpView` | the `proto == 6`, `17` and `1` branches (`:1197-1425`) |
| `Detail`                 | all of it, over the bytes `pkt` points at |
| `startTreeMd`            | `Pcap::start_tree_md`: without a match `data` keeps its empty `data` |
-/

namespace MiniWireshark

open Reader

/-! ## Ethernet -/

/-- `QString::arg(b, 2, 16, '0')` six times, then `toUpper`. -/
def macText (b0 b1 b2 b3 b4 b5 : Nat) : String :=
  (hexArg 2 b0 ++ ":" ++ hexArg 2 b1 ++ ":" ++ hexArg 2 b2 ++ ":" ++ hexArg 2 b3 ++ ":" ++ hexArg 2 b4 ++ ":"
    ++ hexArg 2 b5).toUpper

def macToString (rd : Nat → Option UInt8) (mac : Nat) : Option String := do
  let b0 ← u8 rd mac
  let b1 ← u8 rd (mac + 1)
  let b2 ← u8 rd (mac + 2)
  let b3 ← u8 rd (mac + 3)
  let b4 ← u8 rd (mac + 4)
  let b5 ← u8 rd (mac + 5)
  some (macText b0 b1 b2 b3 b4 b5)

/-- `ch_type`. -/
def etherTypeText (type : Nat) : String :=
  if type = 0x0800 then "Type: IPv4 (0x0800)"
  else if type = 0x086DD then "Type: IPv6 (0x086DD)"
  else if type = 0x0806 then "Type: ARP (0x0806)"
  else ""

structure EtherView where
  dst : String
  src : String
  type : Nat
deriving DecidableEq, Repr

namespace EtherView

/-- `ether_dhost` is at 0, `ether_shost` at 6. -/
def read (h : Host) (rd : Nat → Option UInt8) : Option EtherView := do
  let dst ← macToString rd 0
  let src ← macToString rd 6
  let type ← EH.etherType h rd 0
  some { dst := dst, src := src, type := h.ntohs type }

/-- The summary names `dst` where it says `Src`, and `src` where it says `Dst`. -/
def ops (v : EtherView) : List TreeOp :=
  [.new ("Ethernet II,    Src: " ++ v.dst ++ ",    Dst : " ++ v.src) (some 0), .addChild 0 1,
    .new ("Destination : (" ++ v.dst ++ ")") (some 1), .new ("Source : (" ++ v.src ++ ")") (some 1),
    .new (etherTypeText v.type) (some 1), .addChild 1 2, .addChild 1 3, .addChild 1 4]

end EtherView

/-! ## IPv4 -/

/-- `qs_tmp_sdcp`. -/
def dscpText (dscp : Nat) : String :=
  if dscp ≤ 7 then "CS0"
  else if 8 ≤ dscp ∧ dscp ≤ 15 then "CS1"
  else if 16 ≤ dscp ∧ dscp ≤ 23 then "CS2"
  else if 24 ≤ dscp ∧ dscp ≤ 31 then "CS3"
  else if 32 ≤ dscp ∧ dscp ≤ 39 then "CS4"
  else if 40 ≤ dscp ∧ dscp ≤ 47 then "CS5"
  else if 48 ≤ dscp ∧ dscp ≤ 55 then "CS6"
  else if 56 ≤ dscp ∧ dscp ≤ 63 then "CS7"
  else ""

/-- `qs_tmp_ecn`. -/
def ecnText (ecn : Nat) : String :=
  if ecn = 0 then "Not-ECT" else if ecn = 2 then "ECT(0)" else if ecn = 1 then "ECT(1)" else if ecn = 3 then "CE" else ""

/-- `"0x" + QString::number(tos, 16).toUpper().rightJustified(2, '0')`. -/
def hexTos (tos : Nat) : String :=
  let ds := (String.ofList (Nat.toDigits 16 tos)).toUpper
  "0x" ++ (String.ofList (List.replicate (2 - ds.length) '0') ++ ds)

/-- `flagMeaning`. -/
def flagMeaning (flags : Nat) : String :=
  if flags &&& 0x2 ≠ 0 then "Don't fragment" else if flags &&& 0x1 ≠ 0 then "More fragments" else "None"

/-- `tmp_flag_1`, `tmp_flag_2` and `tmp_flag_3`. -/
def bitText (flags mask : Nat) : String := if flags &&& mask = 0 then "Not Set" else "Set"

/-- `qs_proto`. -/
def protoText (proto : Nat) : String :=
  if proto = 6 then "TCP (6)" else if proto = 17 then "UDP (17)" else if proto = 1 then "ICMP (1)" else ""

structure IpView where
  version : Nat
  ihl : Nat
  tos : Nat
  totLen : Nat
  id : Nat
  frag : Nat
  ttl : Nat
  proto : Nat
  check : Nat
  /-- `qs_ret_check`. -/
  status : String
  src : String
  dst : String
deriving DecidableEq, Repr

namespace IpView

def read (h : Host) (rd : Nat → Option UInt8) : Option IpView := do
  let ip := sizeofEH
  let version ← IpH.version h rd ip
  let ihl ← IpH.ihl h rd ip
  let tos ← IpH.tos rd ip
  let totLen ← IpH.totLen h rd ip
  let id ← IpH.id h rd ip
  let frag ← IpH.fragOff h rd ip
  let ttl ← IpH.ttl rd ip
  let proto ← IpH.protocol rd ip
  let check ← IpH.check h rd ip
  let status ← checksumStatus (fun i => rd (ip + i)) (ihl * 4)
  let src ← IpH.saddr rd ip
  let dst ← IpH.daddr rd ip
  some { version := version, ihl := ihl, tos := tos, totLen := h.ntohs totLen, id := h.ntohs id, frag := h.ntohs frag,
         ttl := ttl, proto := proto, check := h.ntohs check, status := status, src := src, dst := dst }

def dscp (v : IpView) : Nat := v.tos >>> 2

def ecn (v : IpView) : Nat := v.tos &&& 0x03

def flags (v : IpView) : Nat := (v.frag &&& 0xE000) >>> 13

def ops (v : IpView) : List TreeOp :=
  [.new ("Internet Protocol Version " ++ toString v.version ++ ",    Src: " ++ v.src ++ ",    Dst: " ++ v.dst) (some 0),
    .addChild 0 5,
    .new ("Version: " ++ toString v.version) (some 5), .addChild 5 6,
    .new ("Header Length: " ++ toString (v.ihl * 4) ++ "    bytes (" ++ toString v.ihl ++ ")") (some 5), .addChild 5 7,
    .new ("Differentiated Services Field: " ++ hexTos v.tos ++ " (DSCP: " ++ dscpText v.dscp ++ ", ECN: "
      ++ ecnText v.ecn ++ ")") (some 5), .addChild 5 8,
    .new ("Differentiated Services Codepoint: " ++ dscpText v.dscp ++ " (" ++ toString v.dscp ++ ")") (some 8),
    .addChild 8 9,
    .new ("Explicit Congestion Notification: " ++ ecnText v.ecn ++ " (" ++ toString v.ecn ++ ")") (some 8),
    .addChild 8 10,
    .new ("Total Length: " ++ toString v.totLen) (some 5), .addChild 5 11,
    .new ("Identification: 0x" ++ hexArg 4 v.id ++ " (" ++ toString v.id ++ ")") (some 5), .addChild 5 12,
    .new ("Flags: 0x" ++ hexArg 0 v.flags ++ ", " ++ flagMeaning v.flags) (some 5), .addChild 5 13,
    .new ("Reserved bit: " ++ bitText v.flags 0x04) (some 13), .new ("Don't fragment: " ++ bitText v.flags 0x02) (some 13),
    .new ("More fragments: " ++ bitText v.flags 0x01) (some 13), .addChild 13 14, .addChild 13 15, .addChild 13 16,
    .new ("Time to Live: " ++ toString v.ttl) (some 5), .addChild 5 17,
    .new ("Protocol: " ++ protoText v.proto) (some 5), .addChild 5 18,
    .new ("Header Checksum: 0x" ++ hexArg 4 v.check ++ " [" ++ v.status ++ "]") (some 5), .addChild 5 19,
    .new ("[Header checksum status: " ++ v.status ++ "]") (some 5), .addChild 5 20,
    .new ("Source Address: " ++ v.src) (some 5), .addChild 5 21,
    .new ("Destination Address: " ++ v.dst) (some 5), .addChild 5 22]

end IpView

/-! ## TCP -/

/-- `uint16_t flags`. -/
def tcpFlagBits (fl : TcpFlags) : Nat :=
  fl.cwr.toNat <<< 7 ||| fl.ece.toNat <<< 6 ||| fl.urg.toNat <<< 5 ||| fl.ack.toNat <<< 4 ||| fl.psh.toNat <<< 3
    ||| fl.rst.toNat <<< 2 ||| fl.syn.toNat <<< 1 ||| fl.fin.toNat

/-- `list.join(", ")`. -/
def tcpFlagNames (fl : TcpFlags) : String :=
  String.intercalate ", " ((if fl.fin then ["FIN"] else []) ++ (if fl.syn then ["SYN"] else [])
    ++ (if fl.rst then ["RST"] else []) ++ (if fl.psh then ["PSH"] else []) ++ (if fl.ack then ["ACK"] else [])
    ++ (if fl.urg then ["URG"] else []) ++ (if fl.ece then ["ECE"] else []) ++ (if fl.cwr then ["CWR"] else []))

/-- `qs_cwr` … `qs_fin`. -/
def setText (name : String) (b : Bool) : String := if b then name ++ ": Set" else name ++ ": Not set"

structure TcpView where
  source : Nat
  dest : Nat
  seq : Nat
  ackSeq : Nat
  doff : Nat
  res1 : Nat
  flags : TcpFlags
  window : Nat
  /-- `tcp_payload`. -/
  payload : Int
deriving DecidableEq, Repr

namespace TcpView

/-- All the length arithmetic is on `int`s. -/
def read (h : Host) (rd : Nat → Option UInt8) (ip : IpView) : Option TcpView := do
  let tcp := sizeofEH + ip.ihl * 4
  let doff ← TcpH.doff h rd tcp
  let source ← TcpH.source h rd tcp
  let dest ← TcpH.dest h rd tcp
  let seq ← TcpH.seq h rd tcp
  let ackSeq ← TcpH.ackSeq h rd tcp
  let flags ← TcpH.flags h rd tcp
  let res1 ← TcpH.res1 h rd tcp
  let window ← TcpH.window h rd tcp
  some { source := h.ntohs source, dest := h.ntohs dest, seq := h.ntohl seq, ackSeq := h.ntohl ackSeq, doff := doff,
         res1 := res1, flags := flags, window := h.ntohs window,
         payload := (ip.totLen : Int) - (ip.ihl * 4 : Nat) - (doff * 4 : Nat) }

def ops (v : TcpView) : List TreeOp :=
  [.new ("Transmission Control Protocol, Src Port: " ++ toString v.source ++ ", Dst Port: " ++ toString v.dest
      ++ ", Seq: " ++ toString v.seq ++ ", Ack: " ++ toString v.ackSeq ++ ", Len: " ++ toString v.payload) (some 0),
    .addChild 0 23,
    .new ("Source Port: " ++ toString v.source) (some 23), .addChild 23 24,
    .new ("Destination Port: " ++ toString v.dest) (some 23), .addChild 23 25,
    .new ("[Tcp Segment Len: " ++ toString v.payload ++ "]") (some 23), .addChild 23 26,
    .new ("Sequence Number: " ++ toString v.seq) (some 23), .addChild 23 27,
    .new ("Acknowledgment Number: " ++ toString v.ackSeq) (some 23), .addChild 23 28,
    .new ("Header Length: " ++ toString (v.doff * 4)) (some 23), .addChild 23 29,
    .new ("Flags: 0x" ++ hexArg 4 (tcpFlagBits v.flags) ++ " (" ++ tcpFlagNames v.flags ++ ")") (some 23),
    .addChild 23 30,
    .new (if v.res1 ≠ 0 then "Reserved: Set (" ++ toString v.res1 ++ ")" else "Reserved: Not set") (some 30),
    .addChild 30 31,
    .new (setText "Congestion Window Reduced (CWR)" v.flags.cwr) (some 30), .addChild 30 32,
    .new (setText "ECN Echo (ECE)" v.flags.ece) (some 30), .addChild 30 33,
    .new (setText "Urgent (URG)" v.flags.urg) (some 30), .addChild 30 34,
    .new (setText "Acknowledgment (ACK)" v.flags.ack) (some 30), .addChild 30 35,
    .new (setText "Push (PSH)" v.flags.psh) (some 30), .addChild 30 36,
    .new (setText "Reset (RST)" v.flags.rst) (some 30), .addChild 30 37,
    .new (setText "Syn (SYN)" v.flags.syn) (some 30), .addChild 30 38,
    .new (setText "Fin (FIN)" v.flags.fin) (some 30), .addChild 30 39,
    .new ("Window: " ++ toString v.window) (some 23), .addChild 23 40]

end TcpView

/-! ## UDP and ICMP -/

structure UdpView where
  source : Nat
  dest : Nat
  len : Nat
deriving DecidableEq, Repr

namespace UdpView

def read (h : Host) (rd : Nat → Option UInt8) (ip : IpView) : Option UdpView := do
  let udp := sizeofEH + ip.ihl * 4
  let source ← UdpH.source h rd udp
  let dest ← UdpH.dest h rd udp
  let len ← UdpH.len h rd udp
  some { source := h.ntohs source, dest := h.ntohs dest, len := h.ntohs len }

def ops (v : UdpView) : List TreeOp :=
  [.new ("User Datagram Protocol, Src Prot: " ++ toString v.source ++ ",    Dst Port: " ++ toString v.dest) (some 0),
    .addChild 0 23,
    .new ("Source Port: " ++ toString v.source) (some 23), .addChild 23 24,
    .new ("Destination Port: " ++ toString v.dest) (some 23), .addChild 23 25,
    .new ("Length: " ++ toString v.len) (some 23), .addChild 23 26]

end UdpView

/-- `qs_icmp_type`. -/
def icmpTypeName (type : Nat) : String :=
  if type = 0 then "Echo Reply"
  else if type = 3 then "Destination Unreachable"
  else if type = 5 then "Redirect"
  else if type = 8 then "Echo Request"
  else if type = 11 then "Time Exceeded"
  else ""

structure IcmpView where
  type : Nat
  code : Nat
deriving DecidableEq, Repr

namespace IcmpView

def read (rd : Nat → Option UInt8) (ip : IpView) : Option IcmpView := do
  let icmp := sizeofEH + ip.ihl * 4
  let type ← IcmpH.type rd icmp
  let code ← IcmpH.code rd icmp
  some { type := type, code := code }

/-- `icmp_code` is constructed under `root` and added to `icmp_root`. -/
def ops (v : IcmpView) : List TreeOp :=
  [.new "Internet Control Message Protocol" (some 0), .addChild 0 23,
    .new (icmpTypeName v.type) (some 23), .addChild 23 24,
    .new ("code: " ++ toString v.code) (some 0), .addChild 23 25]

end IcmpView

/-! ## The whole tree -/

/-- What is shown of a packet. -/
inductive Transport where
  | tcp (v : TcpView)
  | udp (v : UdpView)
  | icmp (v : IcmpView)
  | other
deriving DecidableEq, Repr

namespace Transport

def read (h : Host) (rd : Nat → Option UInt8) (ip : IpView) : Option Transport :=
  if ip.proto = 6 then (TcpView.read h rd ip).map tcp
  else if ip.proto = 17 then (UdpView.read h rd ip).map udp
  else if ip.proto = 1 then (IcmpView.read rd ip).map icmp
  else some other

def ops : Transport → List TreeOp
  | tcp v => v.ops
  | udp v => v.ops
  | icmp v => v.ops
  | other => []

end Transport

structure Detail where
  ether : EtherView
  ip : IpView
  transport : Transport
deriving DecidableEq, Repr

namespace Detail

def read (h : Host) (rd : Nat → Option UInt8) : Option Detail := do
  let ether ← EtherView.read h rd
  let ip ← IpView.read h rd
  let transport ← Transport.read h rd ip
  some { ether := ether, ip := ip, transport := transport }

def ops (d : Detail) : List TreeOp := d.ether.ops ++ d.ip.ops ++ d.transport.ops

end Detail

/-- The bytes `pkt` points at. -/
def Pcap.treeData (p : Pcap) (idx : Int) : List UInt8 :=
  match p.find idx with
  | some v => v.dump.data
  | none => []

def startTreeMd (h : Host) (p : Pcap) (idx : Int) (m : TreeModel) : Option TreeModel := do
  let root := m.next
  let m ← (m.new "root" none).setPacketTree root
  let d ← Detail.read h (ofList (p.treeData idx))
  Lts.run TreeOp.step m (d.ops.map (TreeOp.shift root))

end MiniWireshark

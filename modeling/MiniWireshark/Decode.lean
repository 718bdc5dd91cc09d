import MiniWireshark.Headers

/-!
# Packet parsing (`Pcap.cpp:41-222` and `:551-735`)

`Worker::my_packet_handler` and `Pcap::packet_func` hold the same parsing text; the two copies
differ only in what they do with the result. `decode` is that text, over a reader: the outer
`none` is a header read the reader refuses, `some none` a rejected frame.

| here | there |
| --- | --- |
| `tcpFlagText`, `tcpInfo`, `decodeTcp` | the `protocol == 6` branch (`:55-149`, `:569-662`) |
| `decodeUdp`                           | the `protocol == 17` branch (`:150-171`, `:663-684`); it makes no length check |
| `icmpTypeText`, `decodeIcmp`          | the `protocol == 1` branch (`:172-215`, `:685-728`); it makes no length check |
| `decode`                              | the checks before the branches and the fields after them |
-/

namespace MiniWireshark

open Reader

/-! ## TCP -/

/-- `qs_flag`: `ece` and `cwr` are extracted by the handlers but not rendered. -/
def tcpFlagText (fl : TcpFlags) : String :=
  "   [ " ++ (if fl.syn then "SYN " else "") ++ (if fl.ack then "ACK " else "")
    ++ (if fl.fin then "FIN " else "") ++ (if fl.rst then "RST " else "")
    ++ (if fl.psh then "PSH " else "") ++ (if fl.urg then "URG " else "") ++ "]   "

/-- `int payload_len = ntohs(tot_len) - (ihl * 4) - tcp_header_len`, where `tcp_header_len` is a
`uint32_t`: the second subtraction is unsigned, and the result is converted back to `int`. -/
def payloadLen (totLen ihl tcpHeaderLen : Nat) : Int :=
  toI32 (toU32 (toU32 ((totLen : Int) - (ihl * 4 : Nat)) - tcpHeaderLen))

/-- Between header fields of their widths the mixed arithmetic is the plain difference, negative or not. -/
theorem payloadLen_eq {totLen ihl tcpHeaderLen : Nat} (ht : totLen < 65536) (hi : ihl < 16) (hl : tcpHeaderLen < 64) :
    payloadLen totLen ihl tcpHeaderLen = (totLen : Int) - (ihl * 4 : Nat) - tcpHeaderLen := by
  have hsub : toI32 (toU32 ((totLen : Int) - (ihl * 4 : Nat)) - tcpHeaderLen) =
      toI32 ((totLen : Int) - (ihl * 4 : Nat) - tcpHeaderLen) := by
    unfold toI32 toU32
    omega
  rw [payloadLen, toI32_toU32, hsub, toI32_of_range]
  omega

def tcpInfo (source dest : Nat) (fl : TcpFlags) (seq ackSeq window : Nat) (len : Int) : String :=
  toString source ++ " ---> " ++ toString dest ++ tcpFlagText fl ++ "Seq=" ++ toString seq
    ++ "   Ack=" ++ toString ackSeq ++ "   Win=" ++ toString window ++ "   Len=" ++ toString len

/-- The `protocol == 6` branch, with the IP header at `ip` and the TCP header at `ip + iIpLen`. -/
def decodeTcp (h : Host) (rd : Nat → Option UInt8) (caplen ip ihl : Nat) : Option (Option (String × String)) :=
  let iIpLen := ihl * 4
  let tcp := ip + iIpLen
  if caplen < sizeofEH + iIpLen + sizeofTcpH then some none else do
  let doff ← TcpH.doff h rd tcp
  if doff < 5 then some none else do
  let iTcpLen := doff * 4
  if caplen < sizeofEH + iIpLen + iTcpLen then some none else do
  let source ← TcpH.source h rd tcp
  let dest ← TcpH.dest h rd tcp
  let fl ← TcpH.flags h rd tcp
  let seq ← TcpH.seq h rd tcp
  let ackSeq ← TcpH.ackSeq h rd tcp
  let window ← TcpH.window h rd tcp
  let totLen ← IpH.totLen h rd ip
  some (some ("TCP", tcpInfo (h.ntohs source) (h.ntohs dest) fl (h.ntohl seq) (h.ntohl ackSeq) (h.ntohs window)
    (payloadLen (h.ntohs totLen) ihl iTcpLen)))

/-! ## UDP -/

def udpInfo (source dest len : Nat) : String :=
  toString source ++ " ---> " ++ toString dest ++ "   Len=" ++ toString ((len : Int) - 8)

/-- The `protocol == 17` branch. -/
def decodeUdp (h : Host) (rd : Nat → Option UInt8) (ip ihl : Nat) : Option (Option (String × String)) := do
  let udp := ip + ihl * 4
  let source ← UdpH.source h rd udp
  let dest ← UdpH.dest h rd udp
  let len ← UdpH.len h rd udp
  some (some ("UDP", udpInfo (h.ntohs source) (h.ntohs dest) (h.ntohs len)))

/-! ## ICMP -/

def icmpTypeText (type : Nat) : String :=
  (if type = 0 then "Echo Reply" else "") ++ (if type = 3 then "Destination Unreachable" else "")
    ++ (if type = 5 then "Redirect" else "") ++ (if type = 8 then "Echo Request" else "")
    ++ (if type = 11 then "Time Exceeded" else "") ++ "   "

def icmpUnreachableText (code : Nat) : String :=
  (if code = 0 then "Network Unreachable" else "") ++ (if code = 1 then "Host Unreachable" else "")
    ++ (if code = 3 then "Port Unreachable" else "")

def icmpTimeText (code : Nat) : String :=
  (if code = 0 then "TTL exceeded" else "") ++ (if code = 1 then "fragment reassembly time exceeded" else "")

def icmpEchoText (id seq ttl : Nat) : String :=
  "id=" ++ toString id ++ "   " ++ "seq=" ++ toString seq ++ "   " ++ "ttl=" ++ toString ttl

/-- What the type selects after its name: a code text, the echo fields, or nothing. -/
def decodeIcmpDetail (h : Host) (rd : Nat → Option UInt8) (ip icmp type : Nat) : Option String :=
  if type = 3 then do
    let code ← IcmpH.code rd icmp
    some (icmpUnreachableText code)
  else if type = 11 then do
    let code ← IcmpH.code rd icmp
    some (icmpTimeText code)
  else if type = 0 ∨ type = 8 then do
    let id ← IcmpH.echoId h rd icmp
    let seq ← IcmpH.echoSequence h rd icmp
    let ttl ← IpH.ttl rd ip
    some (icmpEchoText (h.ntohs id) (h.ntohs seq) ttl)
  else some ""

/-- The `protocol == 1` branch. -/
def decodeIcmp (h : Host) (rd : Nat → Option UInt8) (ip ihl : Nat) : Option (Option (String × String)) := do
  let icmp := ip + ihl * 4
  let type ← IcmpH.type rd icmp
  let detail ← decodeIcmpDetail h rd ip icmp type
  some (some ("ICMP", icmpTypeText type ++ detail))

/-! ## The frame -/

/-- The branch on `ip_header->protocol`; any other protocol is rejected. -/
def decodeTransport (h : Host) (rd : Nat → Option UInt8) (caplen ip ihl protocol : Nat) :
    Option (Option (String × String)) :=
  if protocol = 6 then decodeTcp h rd caplen ip ihl
  else if protocol = 17 then decodeUdp h rd ip ihl
  else if protocol = 1 then decodeIcmp h rd ip ihl
  else some none

/-- `pkt.src`, `pkt.dst` and `pkt.len`, after the transport branch. -/
def finishPkt (h : Host) (rd : Nat → Option UInt8) (ip : Nat) (proto info : String) : Option StPkt := do
  let src ← IpH.saddr rd ip
  let dst ← IpH.daddr rd ip
  let totLen ← IpH.totLen h rd ip
  some { num := 0, src := src, dst := dst, proto := proto, len := h.ntohs totLen + sizeofEH, info := info }

/-- The parsing text of both handlers, up to the packet number. -/
def decode (h : Host) (rd : Nat → Option UInt8) (caplen : Nat) : Option (Option StPkt) :=
  let ip := sizeofEH
  if caplen < sizeofEH then some none else do
  let etherType ← EH.etherType h rd 0
  if h.ntohs etherType ≠ 0x0800 then some none else do
  if caplen < sizeofEH + sizeofIpH then some none else do
  let ihl ← IpH.ihl h rd ip
  if ihl < 5 then some none else do
  if caplen < sizeofEH + ihl * 4 then some none else do
  let protocol ← IpH.protocol rd ip
  match ← decodeTransport h rd caplen ip ihl protocol with
  | none => some none
  | some (proto, info) => do
    let pkt ← finishPkt h rd ip proto info
    some (some pkt)

end MiniWireshark

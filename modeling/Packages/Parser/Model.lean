import Packages.Lib.Word32

/-!
# The packet parser of `odp_packet.c`

`_odp_parse_common` walks from the Ethernet header over VLAN tags, SNAP, IP and its options to the
transport header and records flags, offsets and lengths. The frame is read at any offset the parser
asks for: nothing keeps it from reading behind `frame_len`. `parseptr` is a position in the frame;
`offset` is 32 bits wide.
-/

namespace Packages.Parser

-- Constants of the helper headers

def ethLenMax : Nat := 1514

def ethtypeIpv4 : Nat := 0x0800

def ethtypeArp : Nat := 0x0806

def ethtypeVlan : Nat := 0x8100

def ethtypeVlanOuter : Nat := 0x88A8

def ethtypeIpv6 : Nat := 0x86dd

def ipv4hdrIhlMin : Nat := 5

def ipprotoHopopts : Nat := 0x00

def ipprotoIcmp : Nat := 0x01

def ipprotoTcp : Nat := 0x06

def ipprotoUdp : Nat := 0x11

def ipprotoRoute : Nat := 0x2B

def ipprotoFrag : Nat := 0x2C

def ipprotoAh : Nat := 0x33

def ipprotoEsp : Nat := 0x32

/-- The protocol number that stands for "not an IP packet". -/
def ipprotoInvalid : Nat := 255

def packetOffsetInvalid : Nat := 0x0fffffff

-- `sizeof` of the packed headers.
def sizeofEthhdr : Nat := 14

def sizeofVlanhdr : Nat := 4

def sizeofIpv6hdr : Nat := 40

def sizeofTcphdr : Nat := 20

def sizeofUdphdr : Nat := 8

-- Packet header

structure InputFlags where
 parsedL2 : Bool := false
 parsedAll : Bool := false
 l2 : Bool := false
 l3 : Bool := false
 l4 : Bool := false
 eth : Bool := false
 jumbo : Bool := false
 vlan : Bool := false
 vlanQinq : Bool := false
 snap : Bool := false
 arp : Bool := false
 ipv4 : Bool := false
 ipv6 : Bool := false
 ipfrag : Bool := false
 ipopt : Bool := false
 ipsec : Bool := false
 udp : Bool := false
 tcp : Bool := false
 tcpopt : Bool := false
 sctp : Bool := false
 icmp : Bool := false
 deriving DecidableEq,Repr

structure ErrorFlags where
 appError : Bool := false
 frameLen : Bool := false
 snapLen : Bool := false
 l2Chksum : Bool := false
 ipErr : Bool := false
 tcpErr : Bool := false
 udpErr : Bool := false
 deriving DecidableEq,Repr

/-- The member `all` is not zero. -/
def ErrorFlags.any (e : ErrorFlags) : Bool :=
 e.appError || e.frameLen || e.snapLen || e.l2Chksum || e.ipErr || e.tcpErr || e.udpErr

/-- The fields of `odp_packet_hdr_t` that the parser reads or writes. -/
structure PacketHdr where
 inputFlags : InputFlags
 errorFlags : ErrorFlags
 l2Offset : Nat
 l3Offset : Nat
 l4Offset : Nat
 payloadOffset : Nat
 vlanSTag : Nat
 vlanCTag : Nat
 l3Protocol : Nat
 l3Len : Nat
 l4Protocol : Nat
 l4Len : Nat
 frameLen : Nat
 deriving DecidableEq,Repr

/-- `packet_parse_reset`. The two lengths keep what they were. -/
def PacketHdr.parseReset (h : PacketHdr) : PacketHdr :=
 { h with
   errorFlags := {}
   inputFlags := {}
   l2Offset := 0
   l3Offset := packetOffsetInvalid
   l4Offset := packetOffsetInvalid
   payloadOffset := packetOffsetInvalid
   vlanSTag := 0
   vlanCTag := 0
   l3Protocol := 0
   l4Protocol := 0 }

/-- The memory that begins with the frame. -/
abbrev Memory := Nat → UInt8

def byteAt (mem : Memory) (p : Nat) : Nat := (mem p).toNat

/-- `odp_be_to_cpu_16`. -/
def be16 (mem : Memory) (p : Nat) : Nat := byteAt mem p*2^8+byteAt mem (p+1)

structure Cursor where
 parseptr : Nat
 offset : Nat
 deriving DecidableEq,Repr

def Cursor.advance (c : Cursor) (n : Nat) : Cursor := ⟨c.parseptr+n,add32 c.offset n⟩

-- Layer 2

/-- `packet_parse_l2`. -/
def parseL2 (h : PacketHdr) : PacketHdr :=
 { h with inputFlags := { h.inputFlags with
    eth := true
    jumbo := if h.frameLen > ethLenMax then true else h.inputFlags.jumbo
    l2 := true
    parsedL2 := true } }

/-- The outer VLAN tag, if present. -/
def parseVlanOuter (mem : Memory) (h : PacketHdr) (c : Cursor) : PacketHdr × Cursor :=
 if be16 mem c.parseptr = ethtypeVlanOuter then
  ({ h with
   inputFlags := { h.inputFlags with vlanQinq := true,vlan := true }
   vlanSTag := be16 mem c.parseptr*2^16+be16 mem (c.parseptr+2) },
   c.advance sizeofVlanhdr)
 else (h,c)

/-- The VLAN tag, if present. -/
def parseVlan (mem : Memory) (h : PacketHdr) (c : Cursor) : PacketHdr × Cursor :=
 if be16 mem c.parseptr = ethtypeVlan then
  ({ h with
   inputFlags := { h.inputFlags with vlan := true }
   vlanCTag := be16 mem c.parseptr*2^16+be16 mem (c.parseptr+2) },
   c.advance sizeofVlanhdr)
 else (h,c)

/-- SNAP or DIX; `false` is the jump to `parse_exit`. -/
def parseSnap (mem : Memory) (h : PacketHdr) (c : Cursor) : Bool × PacketHdr × Cursor :=
 if be16 mem c.parseptr < ethLenMax then
  let h := { h with inputFlags := { h.inputFlags with snap := true } }
  if be16 mem c.parseptr > sub32 h.frameLen c.offset then
   (false,{ h with errorFlags := { h.errorFlags with snapLen := true } },c)
  else (true,h,c.advance 8)
 else (true,h,c)

/-- From the Ethernet header to the last ethertype. -/
def parseEth (mem : Memory) (h : PacketHdr) : Bool × PacketHdr × Cursor :=
 let h := if h.inputFlags.parsedL2 then h else parseL2 h
 let outer := parseVlanOuter mem h ⟨12,sizeofEthhdr⟩
 let inner := parseVlan mem outer.1 outer.2
 parseSnap mem inner.1 inner.2

-- Layer 3

def ipv4Ver (mem : Memory) (p : Nat) : Nat := byteAt mem p/2^4

def ipv4Ihl (mem : Memory) (p : Nat) : Nat := byteAt mem p%2^4

def ipv4TotLen (mem : Memory) (p : Nat) : Nat := be16 mem (p+2)

def ipErr (h : PacketHdr) : PacketHdr :=
 { h with errorFlags := { h.errorFlags with ipErr := true } }

/-- `parse_ipv4`; the result is the protocol, or zero after an error. -/
def parseIpv4 (mem : Memory) (h : PacketHdr) (c : Cursor) : Nat × PacketHdr × Cursor :=
 let p := c.parseptr
 let h := { h with l3Len := ipv4TotLen mem p }
 if ipv4Ihl mem p < ipv4hdrIhlMin ∨ ipv4Ver mem p ≠ 4 ∨ h.l3Len > sub32 h.frameLen c.offset then
  (0,ipErr h,c)
 else
  let flags := h.inputFlags
  let flags := { flags with ipopt := if ipv4Ihl mem p > ipv4hdrIhlMin then true else flags.ipopt }
  -- The flag "more fragments" or the fragment offset.
  let frag := be16 mem (p+6)%2^14
  let flags := { flags with ipfrag := if frag ≠ 0 then true else flags.ipfrag }
  (byteAt mem (p+9),{ h with inputFlags := flags },c.advance (ipv4Ihl mem p*4))

def ipv6PayloadLen (mem : Memory) (p : Nat) : Nat := be16 mem (p+4)

def ipv6NextHdr (mem : Memory) (p : Nat) : Nat := byteAt mem (p+6)

/-- The extension headers the parser skips. -/
def skipped (nextHdr : Nat) : Bool := nextHdr == ipprotoHopopts || nextHdr == ipprotoRoute

/-- The loop over the extension headers: the last `next_hdr`. No result if it does not end. -/
def skipExt (mem : Memory) (frameLen : Nat) : Nat → Cursor → Option (Nat × Cursor)
 | 0,_ => none
 | fuel+1,c =>
  let nextHdr := byteAt mem c.parseptr
  let c := c.advance (8+byteAt mem (c.parseptr+1)*8)
  if skipped nextHdr && decide (c.offset < frameLen) then skipExt mem frameLen fuel c
  else some (nextHdr,c)

def parseIpv6 (mem : Memory) (h : PacketHdr) (c : Cursor) : Option (Nat × PacketHdr × Cursor) :=
 let p := c.parseptr
 let h := { h with l3Len := ipv6PayloadLen mem p }
 if byteAt mem p/2^4 ≠ 6 ∨ h.l3Len > sub32 h.frameLen c.offset then some (0,ipErr h,c)
 else
  let c := c.advance sizeofIpv6hdr
  if skipped (ipv6NextHdr mem p) then
   let h := { h with inputFlags := { h.inputFlags with ipopt := true } }
   match skipExt mem h.frameLen (h.frameLen+1) c with
   | none => none
   | some (nextHdr,c) =>
    if c.offset ≥ add32 h.l3Offset (ipv6PayloadLen mem p) then some (0,ipErr h,c)
    else if nextHdr = ipprotoFrag then
     some (nextHdr,{ h with inputFlags := { h.inputFlags with ipfrag := true } },c)
    else some (nextHdr,h,c)
  else if ipv6NextHdr mem p = ipprotoFrag then
   some (ipv6NextHdr mem p,
    { h with inputFlags := { h.inputFlags with ipopt := true,ipfrag := true } },c)
  else some (ipv6NextHdr mem p,h,c)

/-- The switch over the ethertype. -/
def parseL3 (mem : Memory) (h : PacketHdr) (c : Cursor) (ethtype : Nat) :
 Option (Nat × PacketHdr × Cursor) :=
 if ethtype = ethtypeIpv4 then
  some (parseIpv4 mem { h with inputFlags := { h.inputFlags with ipv4 := true } } c)
 else if ethtype = ethtypeIpv6 then
  parseIpv6 mem { h with inputFlags := { h.inputFlags with ipv6 := true } } c
 else if ethtype = ethtypeArp then
  some (ipprotoInvalid,{ h with inputFlags := { h.inputFlags with arp := true } },c)
 else
  some (ipprotoInvalid,
   { h with inputFlags := { h.inputFlags with l3 := false },l3Offset := packetOffsetInvalid },c)

-- Layer 4

/-- The header length field of a TCP header, in words. -/
def tcpHl (mem : Memory) (p : Nat) : Nat := byteAt mem (p+12)/2^4

/-- What is left of layer 3 behind the beginning of layer 4. -/
def l3Rest (h : PacketHdr) : Nat := sub32 (add32 h.l3Len h.l3Offset) h.l4Offset

def parseTcp (mem : Memory) (h : PacketHdr) (c : Cursor) : PacketHdr × Cursor :=
 let hl := tcpHl mem c.parseptr
 let h :=
  if hl < sizeofTcphdr/4 then { h with errorFlags := { h.errorFlags with tcpErr := true } }
  else if hl*4 > sizeofTcphdr then { h with inputFlags := { h.inputFlags with tcpopt := true } }
  else h
 ({ h with l4Len := l3Rest h },c.advance (hl*4))

def udpLength (mem : Memory) (p : Nat) : Nat := be16 mem (p+4)

def parseUdp (mem : Memory) (h : PacketHdr) (c : Cursor) : PacketHdr × Cursor :=
 let udplen := udpLength mem c.parseptr
 let h :=
  if udplen < sizeofUdphdr ∨ udplen > l3Rest h then
   { h with errorFlags := { h.errorFlags with udpErr := true } }
  else h
 ({ h with l4Len := udplen },c.advance sizeofUdphdr)

/-- The switch over the IP protocol. -/
def parseL4 (mem : Memory) (h : PacketHdr) (c : Cursor) (ipProto : Nat) : PacketHdr × Cursor :=
 if ipProto = ipprotoIcmp then
  ({ h with inputFlags := { h.inputFlags with icmp := true } },c)
 else if ipProto = ipprotoTcp then
  parseTcp mem { h with inputFlags := { h.inputFlags with tcp := true } } c
 else if ipProto = ipprotoUdp then
  parseUdp mem { h with inputFlags := { h.inputFlags with udp := true } } c
 else if ipProto = ipprotoAh ∨ ipProto = ipprotoEsp then
  ({ h with inputFlags := { h.inputFlags with ipsec := true } },c)
 else
  ({ h with inputFlags := { h.inputFlags with l4 := false },l4Offset := packetOffsetInvalid },c)

-- The whole frame

/-- The label `parse_exit`. -/
def parseExit (h : PacketHdr) : Int × PacketHdr :=
 (if h.errorFlags.any then 1 else 0,
  { h with inputFlags := { h.inputFlags with parsedAll := true } })

/-- The layer 3 header is about to be parsed. -/
def atL3 (mem : Memory) (h : PacketHdr) (c : Cursor) : PacketHdr :=
 { h with
   inputFlags := { h.inputFlags with l3 := true }
   l3Offset := c.offset
   l3Protocol := be16 mem c.parseptr }

/-- The layer 4 header is about to be parsed. -/
def atL4 (h : PacketHdr) (c : Cursor) (ipProto : Nat) : PacketHdr :=
 { h with
   inputFlags := { h.inputFlags with l4 := true }
   l4Offset := c.offset
   l4Protocol := ipProto }

def parseCommon (mem : Memory) (h : PacketHdr) : Option (Int × PacketHdr) :=
 match parseEth mem h with
 | (false,h,_) => some (parseExit h)
 | (true,h,c) =>
  match parseL3 mem (atL3 mem h c) ⟨c.parseptr+2,c.offset⟩ (be16 mem c.parseptr) with
  | none => none
  | some (ipProto,h,c) =>
   let r := parseL4 mem (atL4 h c ipProto) c ipProto
   some (parseExit { r.1 with payloadOffset := r.2.offset })

end Packages.Parser

import Packages.Parser.Model

/-!
# The packet classifier of `odp_classification.c`

Classes of service, packet matching rules and sets of rules live in three tables, to which the
classifiers of packet interfaces refer. A pointer into a table is the index of the entry, or `none`
for `NULL`. Memory is little-endian. Counters, names, drop policies, headrooms and flow sets are
left out: nothing here reads them.
-/

namespace Packages.Classifier

open Function

open Packages.Parser

def cosMaxEntry : Nat := 64

def pmrSetMaxEntry : Nat := 64

def pmrMaxEntry : Nat := 64

def pmrtermMax : Nat := 8

def pktioMaxPmr : Nat := 8

def cosMaxL2Qos : Nat := 8

def cosMaxL3Qos : Nat := 64

def pmrTermBytesMax : Nat := 8

/-- Sixteen classifiers for queues and a global one. -/
def maxClsSupport : Nat := 17

def globalClsId : Nat := maxClsSupport-1

def pktioMaxQueues : Nat := 64

def configPktioEntries : Nat := 64

inductive PmrTerm
 | len
 | ethtype0
 | ethtypeX
 | vlanId0
 | vlanIdX
 | dmac
 | ipproto
 | udpDport
 | tcpDport
 | udpSport
 | tcpSport
 | sipAddr
 | dipAddr
 | sip6Addr
 | dip6Addr
 | ipsecSpi
 | ldVni
 | customFrame
 | innerHdrOff
 deriving DecidableEq,Repr

/-- `odp_pmr_match_t`; value and mask are pointers to bytes. -/
structure PmrMatch where
 term : PmrTerm
 val : Memory
 mask : Memory
 valSz : Nat
 offset : Nat

structure PmrTermValue where
 term : PmrTerm
 val : Nat
 mask : Nat
 offset : Nat
 valSz : Nat
 deriving DecidableEq,Repr

/-- A packet: its header and its contiguous data. -/
structure Packet where
 hdr : PacketHdr
 data : Memory

-- Numbers in memory

/-- The number that `n` bytes copied to the beginning of a zeroed word make. -/
def leBytes (mem : Memory) (p : Nat) : Nat → Nat
 | 0 => 0
 | n+1 => byteAt mem p+2^8*leBytes mem (p+1) n

/-- The number that `n` bytes in network order stand for. -/
def beBytes (mem : Memory) (p : Nat) : Nat → Nat
 | 0 => 0
 | n+1 => beBytes mem p n*2^8+byteAt mem (p+n)

-- Terms

namespace PmrTermValue

variable (tv : PmrTermValue) (pkt : Packet)

/-- The comparison all the term checks end with. -/
def same (v : Nat) : Bool := tv.val == (v &&& tv.mask)

def verifyPacketLen : Bool := tv.same pkt.hdr.frameLen

def verifyIpProto : Bool :=
 pkt.hdr.inputFlags.ipv4 && tv.same (byteAt pkt.data (pkt.hdr.l3Offset+9))

def verifyIpv4Saddr : Bool :=
 pkt.hdr.inputFlags.ipv4 && tv.same (beBytes pkt.data (pkt.hdr.l3Offset+12) 4)

def verifyIpv4Daddr : Bool :=
 pkt.hdr.inputFlags.ipv4 && tv.same (beBytes pkt.data (pkt.hdr.l3Offset+16) 4)

def verifyTcpSport : Bool := pkt.hdr.inputFlags.tcp && tv.same (be16 pkt.data pkt.hdr.l4Offset)

def verifyTcpDport : Bool :=
 pkt.hdr.inputFlags.tcp && tv.same (be16 pkt.data (pkt.hdr.l4Offset+2))

def verifyUdpDport : Bool :=
 pkt.hdr.inputFlags.udp && tv.same (be16 pkt.data (pkt.hdr.l4Offset+2))

def verifyUdpSport : Bool := pkt.hdr.inputFlags.udp && tv.same (be16 pkt.data pkt.hdr.l4Offset)

/-- The address is converted as a word of eight bytes and then shifted, unless the conversion did
not change the word. -/
def verifyDmac : Bool :=
 let dmacBe := leBytes pkt.data pkt.hdr.l2Offset 6
 let dmac := beBytes pkt.data pkt.hdr.l2Offset 6*2^16
 pkt.hdr.inputFlags.eth && tv.same (if dmacBe ≠ dmac then dmac/2^16 else dmac)

def verifyIpsecSpi : Bool :=
 pkt.hdr.inputFlags.ipsec &&
  if pkt.hdr.l4Protocol = ipprotoAh then tv.same (beBytes pkt.data (pkt.hdr.l4Offset+4) 4)
  else if pkt.hdr.l4Protocol = ipprotoEsp then tv.same (beBytes pkt.data pkt.hdr.l4Offset 4)
  else false

def verifyCustomFrame : Bool :=
 !decide (pkt.hdr.frameLen ≤ add32 tv.offset tv.valSz) &&
  tv.same (leBytes pkt.data tv.offset tv.valSz)

/-- The switch of `verify_pmr`; the terms that are not implemented never match. -/
def verify : Bool :=
 match tv.term with
 | .len => tv.verifyPacketLen pkt
 | .dmac => tv.verifyDmac pkt
 | .ipproto => tv.verifyIpProto pkt
 | .udpDport => tv.verifyUdpDport pkt
 | .tcpDport => tv.verifyTcpDport pkt
 | .udpSport => tv.verifyUdpSport pkt
 | .tcpSport => tv.verifyTcpSport pkt
 | .sipAddr => tv.verifyIpv4Saddr pkt
 | .dipAddr => tv.verifyIpv4Daddr pkt
 | .ipsecSpi => tv.verifyIpsecSpi pkt
 | .customFrame => tv.verifyCustomFrame pkt
 | .innerHdrOff => true
 | .ethtype0 | .ethtypeX | .vlanId0 | .vlanIdX | .sip6Addr | .dip6Addr | .ldVni => false

end PmrTermValue

def PmrMatch.createTerm (m : PmrMatch) : PmrTermValue where
 term := m.term
 val := leBytes m.val 0 m.valSz &&& leBytes m.mask 0 m.valSz
 mask := leBytes m.mask 0 m.valSz
 offset := m.offset
 valSz := m.valSz

-- Tables

/-- A `pmr_t *`: into the table of rules or, by a cast, into the table of sets. -/
inductive PmrPtr
 | pmr (idx : Nat)
 | set (idx : Nat)
 deriving DecidableEq,Repr

structure Pmr where
 valid : Bool
 numPmr : Nat
 termValue : Nat → PmrTermValue

structure Cos where
 valid : Bool
 queue : Option Nat
 pool : Option Nat
 pmr : Option PmrPtr
 linkedCos : Option Nat

structure Cls where
 numPmr : Nat
 pmr : Nat → Option PmrPtr
 cos : Nat → Option Nat
 defaultCos : Option Nat
 l3Precedence : Bool
 l2CosTable : Nat → Option Nat
 l3CosTable : Nat → Option Nat

/-- The part of a `pktio_entry_t` the classifier uses. The indices of `cls` from `maxClsSupport` on
stand for the memory behind the array. -/
structure PktioEntry where
 cls : Nat → Cls
 clsEnabled : Nat → Bool
 /-- The member `pktin.index` of the input queues. -/
 inQueueIndex : Nat → Nat

structure State where
 cosTbl : Nat → Cos
 pmrTbl : Nat → Pmr
 pmrSetTbl : Nat → Pmr
 pktio : Nat → PktioEntry

def zeroTermValue : PmrTermValue := ⟨.len,0,0,0,0⟩

def zeroPmr : Pmr := ⟨false,0,fun _ => zeroTermValue⟩

def zeroCos : Cos := ⟨false,none,none,none,none⟩

/-- `pktio_classifier_init` on zeroed memory. -/
def initCls : Cls := ⟨0,fun _ => none,fun _ => none,none,false,fun _ => none,fun _ => none⟩

/-- A packet interface with `numInQueue` input queues; the other entries of `in_queue` are
`PKTIN_INVALID`. -/
def initPktio (numInQueue : Nat) : PktioEntry where
 cls := fun _ => initCls
 clsEnabled := fun _ => false
 inQueueIndex := fun i => if i < numInQueue then i else 0

def init (numInQueue : Nat → Nat) : State where
 cosTbl := fun _ => zeroCos
 pmrTbl := fun _ => zeroPmr
 pmrSetTbl := fun _ => zeroPmr
 pktio := fun p => initPktio (numInQueue p)

namespace State

variable (st : State)

def cosValid (cos : Nat) : Bool := decide (cos < cosMaxEntry) && (st.cosTbl cos).valid

def getCosEntry (cos : Nat) : Option Nat := if st.cosValid cos then some cos else none

def getPmrEntry (pmr : Nat) : Option PmrPtr :=
 if decide (pmr < pmrMaxEntry) && (st.pmrTbl pmr).valid then some (.pmr pmr) else none

def getPmrSetEntry (set : Nat) : Option PmrPtr :=
 if decide (set < pmrSetMaxEntry) && (st.pmrSetTbl set).valid then some (.set set) else none

def setCos (i : Nat) (c : Cos) : State := { st with cosTbl := update st.cosTbl i c }

def setPktio (p : Nat) (e : PktioEntry) : State := { st with pktio := update st.pktio p e }

/-- Store to one classifier of an interface and enable it. -/
def setCls (p id : Nat) (cls : Cls) : State :=
 st.setPktio p { st.pktio p with
  cls := update (st.pktio p).cls id cls
  clsEnabled := update (st.pktio p).clsEnabled id true }

-- Configuration

/-- The loops that look for an entry that is not valid. -/
def firstFree (valid : Nat → Bool) (max : Nat) : Option Nat :=
 (List.range max).find? fun i => !valid i

def cosCreate (queue pool : Option Nat) : State :=
 match firstFree (fun i => (st.cosTbl i).valid) cosMaxEntry with
 | none => st
 | some i => st.setCos i ⟨true,queue,pool,none,none⟩

def pmrCreate (m : PmrMatch) : State :=
 if m.valSz > pmrTermBytesMax then st
 else match firstFree (fun i => (st.pmrTbl i).valid) pmrMaxEntry with
  | none => st
  | some i =>
   let pmr : Pmr := ⟨true,1,update (st.pmrTbl i).termValue 0 m.createTerm⟩
   { st with pmrTbl := update st.pmrTbl i pmr }

/-- The loop of `odp_pmr_match_set_create`: a term with too large a value is passed over. The source
compares the size as an `int`; from `2 ^ 31` on it is negative, is not passed over, and `memcpy`
leaves the term. -/
def createTerms : List PmrMatch → Nat → (Nat → PmrTermValue) → Nat → PmrTermValue
 | [],_,tv => tv
 | m::terms,i,tv =>
  createTerms terms (i+1)
   (if m.valSz > pmrTermBytesMax then tv else update tv i m.createTerm)

def pmrMatchSetCreate (terms : List PmrMatch) : State :=
 if terms.length > pmrtermMax then st
 else match firstFree (fun i => (st.pmrSetTbl i).valid) pmrSetMaxEntry with
  | none => st
  | some i =>
   let pmr : Pmr := ⟨true,terms.length,createTerms terms 0 (st.pmrSetTbl i).termValue⟩
   { st with pmrSetTbl := update st.pmrSetTbl i pmr }

def pktioDefaultCosSet (p cos : Nat) : State :=
 match st.getCosEntry cos with
 | none => st
 | some cos =>
  let id := (st.pktio p).inQueueIndex (pktioMaxQueues-1)
  st.setCls p id { (st.pktio p).cls id with defaultCos := some cos }

/-- Append a rule to a classifier. -/
def attach (p id : Nat) (pmr : PmrPtr) (cos : Nat) : State :=
 let cls := (st.pktio p).cls id
 if cls.numPmr ≥ pktioMaxPmr then st
 else st.setCls p id { cls with
  pmr := update cls.pmr cls.numPmr (some pmr)
  cos := update cls.cos cls.numPmr (some cos)
  numPmr := cls.numPmr+1 }

/-- `odp_pktio_pmr_cos`: always on the classifier of queue zero. -/
def pktioPmrCos (pmr p cos : Nat) : State :=
 match st.getPmrEntry pmr,st.getCosEntry cos with
 | some pmr,some cos => st.attach p 0 pmr cos
 | _,_ => st

def pktioPmrMatchSetCos (set p cos : Nat) : State :=
 match st.getPmrSetEntry set,st.getCosEntry cos with
 | some pmr,some cos => st.attach p ((st.pktio p).inQueueIndex (pktioMaxQueues-1)) pmr cos
 | _,_ => st

def cosPmrCos (pmr src dst : Nat) : State :=
 match st.getCosEntry src,st.getCosEntry dst,st.getPmrEntry pmr with
 | some src,some dst,some pmr =>
  st.setCos src { st.cosTbl src with pmr := some pmr,linkedCos := some dst }
 | _,_,_ => st

/-- The loops that fill a table of priorities. -/
def fillQos (max : Nat) (table : Nat → Option Nat) : List (Nat × Nat) → Nat → Option Nat
 | [] => table
 | (qos,cos)::rest =>
  fillQos max (match st.getCosEntry cos with
   | none => table
   | some cos => if max > qos then update table qos (some cos) else table) rest

/-- `odp_cos_with_l2_priority`; the two arrays of the caller are one list of pairs. -/
def cosWithL2Priority (p : Nat) (table : List (Nat × Nat)) : State :=
 let cls := (st.pktio p).cls 0
 st.setCls p 0 { cls with l2CosTable := st.fillQos cosMaxL2Qos cls.l2CosTable table }

def cosWithL3Qos (p : Nat) (table : List (Nat × Nat)) (l3Preference : Bool) : State :=
 let cls := (st.pktio p).cls 0
 st.setCls p 0 { cls with
  l3Precedence := l3Preference
  l3CosTable := st.fillQos cosMaxL3Qos cls.l3CosTable table }

end State

/-- A configuration call. -/
inductive Call
 | cosCreate (queue pool : Option Nat)
 | pmrCreate (m : PmrMatch)
 | pmrMatchSetCreate (terms : List PmrMatch)
 | pktioDefaultCosSet (pktio cos : Nat)
 | pktioPmrCos (pmr pktio cos : Nat)
 | pktioPmrMatchSetCos (set pktio cos : Nat)
 | cosPmrCos (pmr src dst : Nat)
 | cosWithL2Priority (pktio : Nat) (table : List (Nat × Nat))
 | cosWithL3Qos (pktio : Nat) (table : List (Nat × Nat)) (l3Preference : Bool)

namespace State

/-- A call on an interface; `get_pktio_entry` refuses a handle behind the table. -/
def onPktio (st : State) (p : Nat) (next : State) : State :=
 if p < configPktioEntries then next else st

def call (st : State) : Call → State
 | .cosCreate queue pool => st.cosCreate queue pool
 | .pmrCreate m => st.pmrCreate m
 | .pmrMatchSetCreate terms => st.pmrMatchSetCreate terms
 | .pktioDefaultCosSet p cos => st.onPktio p (st.pktioDefaultCosSet p cos)
 | .pktioPmrCos pmr p cos => st.onPktio p (st.pktioPmrCos pmr p cos)
 | .pktioPmrMatchSetCos set p cos => st.onPktio p (st.pktioPmrMatchSetCos set p cos)
 | .cosPmrCos pmr src dst => st.cosPmrCos pmr src dst
 | .cosWithL2Priority p table => st.onPktio p (st.cosWithL2Priority p table)
 | .cosWithL3Qos p table pref => st.onPktio p (st.cosWithL3Qos p table pref)

def configure (st : State) (calls : List Call) : State := calls.foldl call st

-- Selection

variable (st : State) (pkt : Packet)

def pmrAt : PmrPtr → Pmr
 | .pmr i => st.pmrTbl i
 | .set i => st.pmrSetTbl i

/-- The loop of `verify_pmr` over the terms from `i` on. -/
def verifyTerms (tv : Nat → PmrTermValue) : Nat → Nat → Bool
 | 0,_ => true
 | left+1,i => if (tv i).verify pkt then verifyTerms tv left (i+1) else false

def verifyPmr (pmr : PmrPtr) : Bool :=
 (st.pmrAt pmr).valid && verifyTerms pkt (st.pmrAt pmr).termValue (st.pmrAt pmr).numPmr 0

/-- `match_pmr_cos`; no result if the recursion is deeper than the fuel. -/
def matchPmrCos : Nat → Option Nat → Option PmrPtr → Option (Option Nat)
 | 0,_,_ => none
 | fuel+1,some cos,some pmr =>
  if (st.cosTbl cos).valid then
   if st.verifyPmr pkt pmr then
    match matchPmrCos fuel (st.cosTbl cos).linkedCos (st.cosTbl cos).pmr with
    | none => none
    | some none => some (some cos)
    | some (some retcos) => some (some retcos)
   else some none
  else some none
 | _+1,_,_ => some none

/-- A cascade without a cycle is shorter than the table. -/
def cascadeFuel : Nat := cosMaxEntry+2

/-- The loops of `pktio_select_cos` over the rules of a classifier. -/
def scanPmr (cls : Cls) : Nat → Nat → Option (Option Nat)
 | 0,_ => some none
 | left+1,i =>
  match st.matchPmrCos pkt cascadeFuel (cls.cos i) (cls.pmr i) with
  | none => none
  | some (some cos) => some (some cos)
  | some none => scanPmr cls left (i+1)

/-- `ODPH_IPV6HDR_DSCP` of a word that was not converted from network order. -/
def ipv6hdrDscp (p : Nat) : Nat := leBytes pkt.data p 4/2^22%2^6

def matchQosL3Cos (table : Nat → Option Nat) : Option Nat :=
 if pkt.hdr.inputFlags.l3 && pkt.hdr.inputFlags.ipv4 then
  table (byteAt pkt.data (pkt.hdr.l3Offset+1)/2^2)
 else if pkt.hdr.inputFlags.l3 && pkt.hdr.inputFlags.ipv6 then
  table (ipv6hdrDscp pkt pkt.hdr.l3Offset)
 else none

def matchQosL2Cos (table : Nat → Option Nat) : Option Nat :=
 if pkt.hdr.inputFlags.l2 && pkt.hdr.inputFlags.vlan && pkt.hdr.inputFlags.eth then
  table (be16 pkt.data (pkt.hdr.l2Offset+14)/2^13)
 else none

def matchQosCos (cls : Cls) : Option Nat :=
 if cls.l3Precedence then
  match matchQosL3Cos pkt cls.l3CosTable with
  | some cos => some cos
  | none => matchQosL2Cos pkt cls.l2CosTable
 else
  match matchQosL2Cos pkt cls.l2CosTable with
  | some cos => some cos
  | none => matchQosL3Cos pkt cls.l3CosTable

/-- `pktio_select_cos` on a packet whose parsing is complete. -/
def selectCosParsed (p queueId : Nat) : Option (Option Nat) :=
 let entry := st.pktio p
 if pkt.hdr.errorFlags.any then some none
 else
  match st.scanPmr pkt (entry.cls globalClsId) (entry.cls globalClsId).numPmr 0 with
  | none => none
  | some (some cos) => some (some cos)
  | some none =>
   match st.scanPmr pkt (entry.cls queueId) (entry.cls queueId).numPmr 0 with
   | none => none
   | some (some cos) => some (some cos)
   | some none =>
    match matchQosCos pkt (entry.cls 0) with
    | some cos => some (some cos)
    | none => some (entry.cls queueId).defaultCos

/-- `pktio_select_cos`, with the header it leaves behind. -/
def pktioSelectCos (p queueId : Nat) : Option (Option Nat × Packet) :=
 if pkt.hdr.inputFlags.parsedAll then (st.selectCosParsed pkt p queueId).map (·,pkt)
 else match parseCommon pkt.data pkt.hdr with
  | none => none
  | some (_,hdr) =>
   (st.selectCosParsed { pkt with hdr := hdr } p queueId).map (·,{ pkt with hdr := hdr })

end State

end Packages.Classifier

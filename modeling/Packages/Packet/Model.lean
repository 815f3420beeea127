import Packages.Lib.Word32
import Packages.BufferPool.Sequential

/-!
# Packets of `odp_packet.c`

A packet is a buffer header of a packet pool with the packet's own fields. The three that say where
the data lies are modelled, all 32 bits wide; flags, offsets and the data itself are left out.
-/

namespace Packages.Packet

open Function

open BufferPool

/-- `odp_packet_hdr_t`. -/
structure PktHdr where
 headroom : Nat
 frameLen : Nat
 tailroom : Nat
 deriving DecidableEq, Repr, Inhabited

/-- Where an offset is in a buffer: the segment, the offset in it, and the bytes left there. -/
structure Mapped where
 segIndex : Nat
 segOffset : Nat
 seglen : Nat
 deriving DecidableEq, Repr

def bufferMap (segsize offset limit : Nat) : Mapped :=
 let segIndex := if offset < segsize then 0 else offset/segsize
 let segOffset := if offset < segsize then offset else offset%segsize
 let bufLeft := sub32 limit offset
 ⟨segIndex,segOffset,if add32 segOffset bufLeft ≤ segsize then bufLeft else segsize-segOffset⟩

namespace PktHdr

/-- `packet_map` in segments of `seg.1` bytes, `seg.2` of them; `none` is `NULL`. Behind the
segments `addr` is `NULL` until the header has had more of them. -/
def packetMap (h : PktHdr) (seg : Nat × Nat) (offset : Nat) : Option Mapped :=
 if offset > h.frameLen then none
 else
  let a := bufferMap seg.1 (add32 h.headroom offset) (add32 h.headroom h.frameLen)
  if a.segIndex < seg.2 then some a else none

def pushHead (h : PktHdr) (len : Nat) : PktHdr :=
 { h with headroom := sub32 h.headroom len, frameLen := add32 h.frameLen len }

def pullHead (h : PktHdr) (len : Nat) : PktHdr :=
 { h with headroom := add32 h.headroom len, frameLen := sub32 h.frameLen len }

def pushTail (h : PktHdr) (len : Nat) : PktHdr :=
 { h with tailroom := sub32 h.tailroom len, frameLen := add32 h.frameLen len }

def pullTail (h : PktHdr) (len : Nat) : PktHdr :=
 { h with tailroom := add32 h.tailroom len, frameLen := sub32 h.frameLen len }

end PktHdr

/-- `packet_init`. The headroom comes with the template of the pool. -/
def packetInit (c : Config) (b : BufHdr) (size : Nat) : PktHdr :=
 ⟨c.headroom,size%2^32,sub32 (sub32 b.size c.headroom) size⟩

/-- The body of the loop in `odp_packet_alloc_multi`. -/
def multiInit (c : Config) (b : BufHdr) (len size : Nat) : PktHdr :=
 if len = 0 then (packetInit c b size).pullTail size else packetInit c b size

/-- The loop of `_odp_packet_copy_to_packet`: does it end? A round that copies nothing repeats
forever, one that copies from or to `NULL` faults, each other round copies at least a byte. -/
def copyLoop (src dst : PktHdr) (srcseg dstseg : Nat × Nat) : Nat → Nat → Nat → Nat → Bool
 | _, _, _, 0 => true
 | 0, _, _, _+1 => false
 | fuel+1, srcoffset, dstoffset, len+1 =>
  match src.packetMap srcseg srcoffset, dst.packetMap dstseg dstoffset with
  | some s, some d =>
   let cpylen := min (len+1) (min s.seglen d.seglen)
   if cpylen = 0 then false
   else copyLoop src dst srcseg dstseg fuel (add32 srcoffset cpylen) (add32 dstoffset cpylen)
    (len+1-cpylen)
  | _, _ => false

/-- `_odp_packet_copy_to_packet`: whether it returns 0; `none` if it does not return. -/
def copyToPacket (src dst : PktHdr) (srcseg dstseg : Nat × Nat) (srcoffset dstoffset len : Nat) :
 Option Bool :=
 if add32 srcoffset len > src.frameLen ∨ add32 dstoffset len > dst.frameLen then some false
 else if copyLoop src dst srcseg dstseg len srcoffset dstoffset len then some true else none

-- The packets of several pools

/-- `m` pools and `n` threads. A packet handle names the pool and the header. -/
structure World (m n : Nat) where
 pool : Fin m → State n
 pkt : Fin m → Nat → PktHdr

namespace World

variable {m n : Nat}

def setPool (w : World m n) (p : Fin m) (s : State n) : World m n :=
 { w with pool := update w.pool p s }

def setPkt (w : World m n) (p : Fin m) (h : Nat) (k : PktHdr) : World m n :=
 { w with pkt := update w.pkt p (update (w.pkt p) h k) }

def cfg (w : World m n) (p : Fin m) : Config := (w.pool p).pool.cfg

def buf (w : World m n) (p : Fin m) (h : Nat) : BufHdr := (w.pool p).pool.hdr h

/-- The size of a packet's segments, and their number. -/
def seg (w : World m n) (p : Fin m) (h : Nat) : Nat × Nat :=
 ((w.cfg p).hdrSegSize,(w.buf p h).segcount)

/-- The handle names a packet that a caller holds. -/
def Live (w : World m n) (p : Fin m) (h : Nat) : Prop :=
 (w.cfg p).type = .packet ∧ (w.pool p).allocated h = true

instance (w : World m n) (p : Fin m) (h : Nat) : Decidable (w.Live p h) :=
 inferInstanceAs (Decidable (_ ∧ _))

/-- The length a request for `len` bytes stands for. -/
def reqLen (w : World m n) (p : Fin m) (len : Nat) : Nat :=
 if len = 0 then (w.cfg p).bufSize else len

/-- `odp_packet_alloc`. What `pull_tail` does to the fields of a zero-length packet is gone after
`packet_init`. -/
def alloc (w : World m n) (t : Fin n) (p : Fin m) (len : Nat) : Option Nat × World m n :=
 if (w.cfg p).type ≠ .packet then (none,w) else
  match (w.pool p).bufferAlloc t (w.reqLen p len) with
  | (none,s) => (none,w.setPool p s)
  | (some h,s) =>
   (some h,(w.setPool p s).setPkt p h (packetInit s.pool.cfg (s.pool.hdr h) (w.reqLen p len)))

/-- `odp_packet_alloc_multi`; `none` is `-1`. -/
def allocMulti (w : World m n) (t : Fin n) (p : Fin m) (len num : Nat) :
 Option (List Nat) × World m n :=
 if (w.cfg p).type ≠ .packet then (none,w) else
  let size := w.reqLen p len
  let r := State.bufferAllocMulti t size num (w.pool p)
  let init := fun (w : World m n) h => w.setPkt p h (multiInit (w.cfg p) (w.buf p h) len size)
  (some r.1,r.1.foldl init (w.setPool p r.2))

def free (w : World m n) (t : Fin n) (p : Fin m) (h : Nat) : World m n :=
 w.setPool p ((w.pool p).bufferFree t h)

/-- `odp_packet_reset`; `false` is `-1`. -/
def reset (w : World m n) (p : Fin m) (h len : Nat) : Bool × World m n :=
 if add32 (w.cfg p).roomSize len > (w.buf p h).size then (false,w)
 else (true,w.setPkt p h (packetInit (w.cfg p) (w.buf p h) len))

/-- The frame of `odp_packet_push_head` and its relatives: nothing happens if `len` is larger than
`room`, else the fields change and the call returns the address of `origin`. -/
def shift (w : World m n) (p : Fin m) (h room len : Nat) (k : PktHdr) (origin : Nat) :
 Option Mapped × World m n :=
 if len > room then (none,w)
 else (k.packetMap (w.seg p h) origin,w.setPkt p h k)

def pushHead (w : World m n) (p : Fin m) (h len : Nat) : Option Mapped × World m n :=
 w.shift p h (w.pkt p h).headroom len ((w.pkt p h).pushHead len) 0

def pullHead (w : World m n) (p : Fin m) (h len : Nat) : Option Mapped × World m n :=
 w.shift p h (w.pkt p h).frameLen len ((w.pkt p h).pullHead len) 0

def pushTail (w : World m n) (p : Fin m) (h len : Nat) : Option Mapped × World m n :=
 w.shift p h (w.pkt p h).tailroom len ((w.pkt p h).pushTail len) (w.pkt p h).frameLen

def pullTail (w : World m n) (p : Fin m) (h len : Nat) : Option Mapped × World m n :=
 let k := (w.pkt p h).pullTail len
 w.shift p h (w.pkt p h).frameLen len k k.frameLen

/-- `_odp_packet_copy_to_packet` between two packets. -/
def copy (w : World m n) (p : Fin m) (h srcoffset : Nat) (q : Fin m) (x dstoffset len : Nat) :
 Option Bool :=
 copyToPacket (w.pkt p h) (w.pkt q x) (w.seg p h) (w.seg q x) srcoffset dstoffset len

/-- The end of `odp_packet_add_data` and `odp_packet_rem_data`: two pieces of the packet are copied
to the new one, which replaces it. -/
def replace (w : World m n) (t : Fin n) (p : Fin m) (h x offset srcoffset dstoffset len : Nat) :
 Option (Option Nat × World m n) :=
 (w.copy p h 0 p x 0 offset).bind fun ok =>
  if !ok then some (none,w.free t p x) else
   (w.copy p h srcoffset p x dstoffset len).map fun ok =>
    if !ok then (none,w.free t p x) else (some x,w.free t p h)

/-- `odp_packet_add_data`. The outer `none`: the call does not return. -/
def addData (w : World m n) (t : Fin n) (p : Fin m) (h offset len : Nat) :
 Option (Option Nat × World m n) :=
 let pktlen := (w.pkt p h).frameLen
 if offset > pktlen then some (none,w) else
  match w.alloc t p (add32 pktlen len) with
  | (none,w) => some (none,w)
  | (some x,w) => w.replace t p h x offset offset (add32 offset len) (sub32 pktlen offset)

def remData (w : World m n) (t : Fin n) (p : Fin m) (h offset len : Nat) :
 Option (Option Nat × World m n) :=
 let pktlen := (w.pkt p h).frameLen
 if offset > pktlen ∨ add32 offset len > pktlen then some (none,w) else
  match w.alloc t p (sub32 pktlen len) with
  | (none,w) => some (none,w)
  | (some x,w) =>
   w.replace t p h x offset (add32 offset len) offset (sub32 (sub32 pktlen offset) len)

/-- `odp_packet_copy`. The fields behind the buffer header are copied before the data. -/
def odpCopy (w : World m n) (t : Fin n) (p : Fin m) (h : Nat) (q : Fin m) :
 Option (Option Nat × World m n) :=
 let pktlen := (w.pkt p h).frameLen
 match w.alloc t q pktlen with
 | (none,w) => some (none,w)
 | (some x,w) =>
  let w := w.setPkt q x (w.pkt p h)
  (w.copy p h 0 q x 0 pktlen).map fun ok => if ok then (some x,w) else (none,w.free t q x)

end World

/-- The calls of a program that uses packets. -/
inductive Call (m n : Nat) where
 | alloc (t : Fin n) (p : Fin m) (len : UInt32)
 | allocMulti (t : Fin n) (p : Fin m) (len : UInt32) (num : Nat)
 | free (t : Fin n) (p : Fin m) (h : Nat)
 | reset (p : Fin m) (h : Nat) (len : UInt32)
 | pushHead (p : Fin m) (h : Nat) (len : UInt32)
 | pullHead (p : Fin m) (h : Nat) (len : UInt32)
 | pushTail (p : Fin m) (h : Nat) (len : UInt32)
 | pullTail (p : Fin m) (h : Nat) (len : UInt32)
 | addData (t : Fin n) (p : Fin m) (h : Nat) (offset len : UInt32)
 | remData (t : Fin n) (p : Fin m) (h : Nat) (offset len : UInt32)
 | copy (t : Fin n) (p : Fin m) (h : Nat) (q : Fin m)
 deriving DecidableEq, Repr

variable {m n : Nat}

/-- The packet a call is given. -/
def Call.given : Call m n → Option (Fin m × Nat)
 | .alloc .. | .allocMulti .. => none
 | .free _ p h | .reset p h _ | .pushHead p h _ | .pullHead p h _ | .pushTail p h _
 | .pullTail p h _ | .addData _ p h _ _ | .remData _ p h _ _ | .copy _ p h _ => some (p,h)

/-- A call: whether it reports success, and the state it leaves. -/
def World.call (w : World m n) : Call m n → Option (Bool × World m n)
 | .alloc t p len => let r := w.alloc t p len.toNat; some (r.1.isSome,r.2)
 | .allocMulti t p len num => let r := w.allocMulti t p len.toNat num; some (r.1.isSome,r.2)
 | .free t p h => some (true,w.free t p h)
 | .reset p h len => some (w.reset p h len.toNat)
 | .pushHead p h len => let r := w.pushHead p h len.toNat; some (r.1.isSome,r.2)
 | .pullHead p h len => let r := w.pullHead p h len.toNat; some (r.1.isSome,r.2)
 | .pushTail p h len => let r := w.pushTail p h len.toNat; some (r.1.isSome,r.2)
 | .pullTail p h len => let r := w.pullTail p h len.toNat; some (r.1.isSome,r.2)
 | .addData t p h offset len =>
  (w.addData t p h offset.toNat len.toNat).map fun r => (r.1.isSome,r.2)
 | .remData t p h offset len =>
  (w.remData t p h offset.toNat len.toNat).map fun r => (r.1.isSome,r.2)
 | .copy t p h q => (w.odpCopy t p h q).map fun r => (r.1.isSome,r.2)

def step (w : World m n) (c : Call m n) : Option (World m n) := (w.call c).map Prod.snd

/-- Callers name packets they hold. -/
def CallerOk (w : World m n) (c : Call m n) : Prop := ∀ k ∈ c.given, w.Live k.1 k.2

instance (w : World m n) (c : Call m n) : Decidable (CallerOk w c) :=
 inferInstanceAs (Decidable (∀ k ∈ c.given, w.Live k.1 k.2))

/-- Pools just created, at least one header in each. -/
def Init (stride : PoolType → Nat) (params : Fin m → PoolParam) (w : World m n) : Prop :=
 ∀ p, ∃ cfg, poolConfig stride (params p) = some cfg ∧ 0 < cfg.hdrNum ∧ w.pool p = .init cfg

end Packages.Packet

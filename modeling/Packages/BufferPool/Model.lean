import Mathlib

/-!
# Buffer pools of `odp_pool.c`

The pool entry with its two free lists, the functions of `odp_pool_internal.h` on it, and the pool
that `odp_pool_create` sets up. Headers and blocks are numbered by their position. The counters are
32 bits wide; the statistics are left out. A function that takes a lock is split where it drops it:
the part under the lock, then the update of the counter.
-/

namespace Packages.BufferPool

/-- The pool types `odp_pool_create` accepts. -/
inductive PoolType where
 | buffer
 | packet
 | timeout
 deriving DecidableEq, Repr

/-- `odp_pool_param_t`. The word `size` is `buf.size` or `pkt.len`, the word `align` is
`buf.align` or `pkt.seg_len`. -/
structure PoolParam where
 type : PoolType
 num : Nat
 size : Nat
 align : Nat
 deriving DecidableEq, Repr

def maxSeg : Nat := 6
/-- `ODP_MAX_INLINE_BUF`: five pointers. -/
def maxInlineBuf : Nat := 40
def hdrBackPtrSize : Nat := 64
/-- `ODP_BUFFER_MAX_BUFFERS`: 32 bits less 4 for the pool and 3 for the segment. -/
def maxBuffers : Nat := 2^25
/-- `ODP_CONFIG_PACKET_HEADROOM`. -/
def packetHeadroom : Nat := 128
/-- `ODP_CONFIG_PACKET_TAILROOM`. -/
def packetTailroom : Nat := 64
/-- `ODP_CONFIG_PACKET_SEG_LEN_MIN`. -/
def segLenMin : Nat := 1598
/-- `ODP_CONFIG_PACKET_SEG_LEN_MAX`. -/
def segLenMax : Nat := 65536
def cacheLineSize : Nat := 64

/-- `ODP_ALIGN_ROUNDUP` on 32-bit operands. -/
def alignRoundup (x align : Nat) : Nat := align*((x+align-1)%2^32/align)

/-- Atomic increment of a 32-bit counter. -/
def inc32 (c : Nat) : Nat := if c = 2^32-1 then 0 else c+1

/-- Atomic decrement of a 32-bit counter. -/
def dec32 (c : Nat) : Nat := if c = 0 then 2^32-1 else c-1

/-- The fields of `pool_entry_s` that stay as `odp_pool_create` sets them. `hdrNum` counts the
headers and `blkNum` the data blocks it lays out; `hdrSegSize` is the `segsize` of every header. -/
structure Config where
 type : PoolType
 bufSize : Nat
 hdrNum : Nat
 bufNum : Nat
 blkNum : Nat
 blkSize : Nat
 segSize : Nat
 hdrSegSize : Nat
 headroom : Nat
 tailroom : Nat
 maxSize : Nat
 deriving DecidableEq, Repr

namespace Config

/-- Small data lives in the headers, and the pool has no blocks. -/
def hdrdata (c : Config) : Bool := decide (c.blkSize ≤ maxInlineBuf)

/-- The header's own data area is its one segment. -/
def inlined (c : Config) : Bool := c.hdrdata && decide (0 < c.blkSize)

def roomSize (c : Config) : Nat := c.headroom+c.tailroom

def highWm (c : Config) : Nat := c.bufNum/2

def lowWm (c : Config) : Nat := c.bufNum/4

end Config

/-- The requested segment length, kept between the configured bounds. -/
def clampSegLen (segLen : Nat) : Nat :=
 if segLen ≤ segLenMin then segLenMin else if segLen ≤ segLenMax then segLen else segLenMax

/-- The segment length of a packet pool. -/
def packetSegLen (segLen : Nat) : Nat :=
 alignRoundup (packetHeadroom+clampSegLen segLen+packetTailroom) 16

/-- Only raw buffers ask for an alignment. -/
def reqAlign (params : PoolParam) : BitVec 32 :=
 if params.type = .buffer then BitVec.ofNat 32 params.align else 0

def bufAlign (a : BitVec 32) : Nat :=
 if a = 0 then cacheLineSize else if a.toNat < 16 then 16 else a.toNat

def bufferBlkSize (params : PoolParam) : Nat :=
 if params.size > maxInlineBuf ∨ params.align ≠ 0
 then alignRoundup params.size (bufAlign (reqAlign params)) else params.size

def packetBlkSize (params : PoolParam) : Nat :=
 let segLen := packetSegLen params.align
 if params.size ≤ segLen then segLen else alignRoundup params.size segLen

/-- What `odp_pool_create` works out before it looks for a free pool entry: the number of
headers, the block size and the segment length. `none` is `ODP_POOL_INVALID`. -/
def poolGeometry (params : PoolParam) : Option (Nat × Nat × Nat) :=
 let a := reqAlign params
 if 4096 < a.toNat ∨ a ≠ a &&& ~~~(a-1) then none else
  match params.type with
  | .buffer => some (params.num,bufferBlkSize params,bufferBlkSize params)
  | .packet =>
   if packetBlkSize params/packetSegLen params.align > maxSeg then none
   else some ((params.num+1)%2^32,packetBlkSize params,packetSegLen params.align)
  | .timeout => some (params.num,0,0)

/-- The constants of the pool that `odp_pool_create` makes; `stride` is the size of a header of
the type. `none` is `ODP_POOL_INVALID`. -/
def poolConfig (stride : PoolType → Nat) (params : PoolParam) : Option Config :=
 (poolGeometry params).bind fun (hdrNum,blkSize,segLen) =>
  if hdrNum > maxBuffers/(stride params.type/cacheLineSize) then none else
   let isPacket := decide (params.type = .packet)
   -- the segment size is rounded after it went into the headers
   let segSize := alignRoundup segLen 8
   let headroom := if isPacket then packetHeadroom else 0
   let tailroom := if isPacket then packetTailroom else 0
   some {
    type := params.type
    bufSize := if params.type = .timeout then 0 else params.size
    hdrNum := hdrNum
    bufNum := if isPacket then hdrNum-1 else hdrNum
    -- the loop that cuts the block area up from its top
    blkNum := if blkSize ≤ maxInlineBuf then 0
     else hdrNum*(blkSize+hdrBackPtrSize)/(segSize+hdrBackPtrSize)
    blkSize := blkSize
    segSize := segSize
    hdrSegSize := segLen
    headroom := headroom
    tailroom := tailroom
    maxSize := if isPacket then segSize*maxSeg-headroom-tailroom else segSize }

/-- `odp_buffer_hdr_t`. `inlined` says that `addr[0]` is the header's own data area; `blks` are
the other entries of `addr[0..segcount)`. -/
structure BufHdr where
 allocator : Option Nat
 size : Nat
 inlined : Bool
 blks : List Nat
 deriving DecidableEq, Repr

def BufHdr.segcount (b : BufHdr) : Nat := (if b.inlined then 1 else 0)+b.blks.length

/-- `pool_entry_s`. -/
structure Pool where
 cfg : Config
 hdr : Nat → BufHdr
 bufFree : List Nat
 blkFree : List Nat
 bufcount : Nat
 blkcount : Nat
 lowWmAssert : Bool

namespace Pool

def setHdr (p : Pool) (h : Nat) (b : BufHdr) : Pool :=
 { p with hdr := Function.update p.hdr h b }

/-- `get_blk` under the block lock. -/
def popBlk (p : Pool) : Option (Nat × Pool) :=
 match p.blkFree with
 | [] => none
 | b::bs => some (b,{ p with blkFree := bs })

def decBlkcount (p : Pool) : Pool := { p with blkcount := dec32 p.blkcount }

def getBlk (p : Pool) : Option (Nat × Pool) := p.popBlk.map fun r => (r.1,r.2.decBlkcount)

/-- `ret_blk` under the block lock. -/
def pushBlk (p : Pool) (b : Nat) : Pool := { p with blkFree := b::p.blkFree }

def incBlkcount (p : Pool) : Pool := { p with blkcount := inc32 p.blkcount }

def retBlk (p : Pool) (b : Nat) : Pool := (p.pushBlk b).incBlkcount

/-- `get_buf` under the buffer lock. -/
def popBuf (p : Pool) : Option (Nat × Pool) :=
 match p.bufFree with
 | [] => none
 | h::hs => some (h,{ p with bufFree := hs })

/-- The count in `get_buf` and its check for the low watermark. -/
def decBufcount (p : Pool) : Pool :=
 { p with
   bufcount := dec32 p.bufcount
   lowWmAssert := p.lowWmAssert || decide (dec32 p.bufcount = p.cfg.lowWm) }

def getBuf (p : Pool) : Option (Nat × Pool) := p.popBuf.map fun r => (r.1,r.2.decBufcount)

/-- `ret_buf` gives the blocks of the header back first: data that lives in the header, and raw
buffers, stay with it. -/
def returnsBlks (p : Pool) : Bool := !p.cfg.hdrdata && decide (p.cfg.type ≠ .buffer)

/-- `ret_buf` from its second half on, under the buffer lock. -/
def pushBuf (p : Pool) (h : Nat) : Pool :=
 let b := p.hdr h
 { p.setHdr h { b with allocator := none, size := if p.returnsBlks then 0 else b.size } with
   bufFree := h::p.bufFree }

/-- The count in `ret_buf` and its check for the high watermark. -/
def incBufcount (p : Pool) : Pool :=
 { p with
   bufcount := inc32 p.bufcount
   lowWmAssert := p.lowWmAssert && !decide (inc32 p.bufcount = p.cfg.highWm) }

/-- `addr[--segcount]` of the header. -/
def dropBlk (p : Pool) (h : Nat) : Pool :=
 p.setHdr h { p.hdr h with blks := (p.hdr h).blks.dropLast }

/-- The loop of `ret_buf` over the blocks of the header, last block first. -/
def retBlks (p : Pool) (h : Nat) : List Nat → Pool
 | [] => p
 | b::bs => retBlks ((p.dropBlk h).retBlk b) h bs

def retBuf (p : Pool) (h : Nat) : Pool :=
 let p := if p.returnsBlks then p.retBlks h (p.hdr h).blks.reverse else p
 (p.pushBuf h).incBufcount

/-- The entry before its free lists are built; `odp_pool_create` initialises every header like
this. -/
def blank (cfg : Config) : Pool where
 cfg := cfg
 hdr := fun _ => {
  allocator := none
  size := if cfg.hdrdata then cfg.blkSize else 0
  inlined := cfg.inlined
  blks := [] }
 bufFree := []
 blkFree := []
 bufcount := 0
 blkcount := 0
 lowWmAssert := false

/-- The pool at the end of `odp_pool_create`: headers and blocks are put on their free lists
from the top of their areas down, and a packet pool keeps a header as packet template. -/
def create (cfg : Config) : Pool :=
 let p := (List.range cfg.hdrNum).foldr (fun h p => p.retBuf h) (blank cfg)
 let p := (List.range cfg.blkNum).foldr (fun b p => p.retBlk b) p
 let p := if cfg.type = .packet then p.getBuf.elim p Prod.snd else p
 { p with lowWmAssert := false }

end Pool

end Packages.BufferPool

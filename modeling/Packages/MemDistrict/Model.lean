import Packages.Lib.Transition

/-!
# Memory districts

`odp_mmdistrict.c` carves named districts out of the memory fragments of the platform, takes them
back and translates addresses inside them. Addresses and lengths are 64-bit words; masks with a
power of two are written as remainders.
-/

namespace Packages.MemDistrict

open Function

def word (x : Nat) : Nat := x%2^64

abbrev cacheLineSize := 64
abbrev maxMmfrag := 128
abbrev maxMmDistrict := 128
abbrev memzoneNamesize := 64
abbrev memSizeMax := 0x100000000000
abbrev socketIdAny : Int := -1

abbrev memzone2MB := 0x1
abbrev memzone1GB := 0x2
abbrev memzoneSizeHintOnly := 0x4
abbrev memzone16MB := 0x100
abbrev memzone16GB := 0x200

abbrev pgsize2M := 2^21
abbrev pgsize16M := 2^24
abbrev pgsize1G := 2^30
abbrev pgsize16G := 2^34

/-- A C string. -/
abbrev Name := List Char

/-- `struct odp_mmfrag` -/
structure Mmfrag where
 physAddr : Nat
 addr : Nat
 len : Nat
 hugepageSz : Nat
 socketId : Int
 deriving DecidableEq, Repr

/-- `struct odp_mm_district` -/
structure District where
 name : Name
 origName : Name
 physAddr : Nat
 physAddrEnd : Nat
 excursionAddr : Nat
 addr : Nat
 len : Nat
 hugepageSz : Nat
 socketId : Int
 flags : Nat
 mmfragId : Nat
 deriving DecidableEq, Repr

/-- All bytes zero, then `socket_id` set. -/
def District.cleared (socketId : Int) : District := ⟨[],[],0,0,0,0,0,0,socketId,0,0⟩

def Mmfrag.zero : Mmfrag := ⟨0,0,0,0,0⟩

/-- The part of `struct odp_sys_layout` that districts use, and the `static` variable of `odp_p2v`.
`free_mm_district` begins where `mm_district` ends: `mm_district[128]` is `free_mm_district[0]`. -/
structure State where
 district : Nat → District
 mmDistrictIdx : Nat
 freeDistrictIdx : Nat
 freeMmfrag : Nat → Mmfrag
 p2vIndex : Nat

-- Initialisation

def mmfragSanitize (f : Mmfrag) : Option Mmfrag :=
 if f.physAddr%cacheLineSize ≠ f.addr%cacheLineSize then none
 else if f.len < 2*cacheLineSize then some { f with len := 0 }
 else
  let off := (cacheLineSize-f.physAddr%cacheLineSize)%cacheLineSize
  some { f with
   physAddr := word (f.physAddr+off)
   addr := word (f.addr+off)
   len := (f.len-off)/cacheLineSize*cacheLineSize }

/-- The fragments of the platform are those in front of the first null address. -/
def fragCount (layout : Nat → Mmfrag) : Nat → Nat → Nat
 | 0, i => i
 | fuel+1, i => if (layout i).addr = 0 then i else fragCount layout fuel (i+1)

/-- `odp_mm_district_init` in the primary process, on a `sys_layout` of zeros. -/
def init (layout : Nat → Mmfrag) : Option State :=
 let count := fragCount layout maxMmfrag 0
 if ∀ i < count, (mmfragSanitize (layout i)).isSome then
  some {
   district := fun _ => .cleared 0
   mmDistrictIdx := 0
   freeDistrictIdx := 0
   freeMmfrag := fun i => if i < count then (mmfragSanitize (layout i)).getD .zero else .zero
   p2vIndex := 0 }
 else none

-- Lookup

/-- The address is one of the district's, by the comparison of `get_mm_district_by_vaddress`. -/
def District.holdsVirt (d : District) (addr : Nat) : Bool :=
 d.addr ≤ addr ∧ addr < word (d.addr+d.len)

/-- The comparison of `odp_p2v`. -/
def District.holdsPhys (d : District) (phyaddr : Nat) : Bool :=
 d.physAddr ≤ phyaddr ∧ phyaddr < d.physAddrEnd

/-- Where a loop over `mm_district` stops: at a null address or at the first match. -/
def scan (district : Nat → District) (p : District → Bool) : Nat → Nat → Nat
 | 0, i => i
 | fuel+1, i =>
  if (district i).addr = 0 ∨ p (district i) then i else scan district p fuel (i+1)

namespace State

def stop (s : State) (p : District → Bool) : Nat := scan s.district p maxMmDistrict 0

def find (s : State) (p : District → Bool) : Option Nat :=
 if s.stop p < maxMmDistrict ∧ (s.district (s.stop p)).addr ≠ 0 then some (s.stop p) else none

/-- `mm_district_lookup`: `strncmp` with the stored name, which `snprintf` has cut. -/
def lookup (s : State) (name : Name) : Option Nat :=
 s.find fun d => name.take memzoneNamesize = d.name.take memzoneNamesize

def v2p (s : State) (addr : Nat) : Nat :=
 match s.find (·.holdsVirt addr) with
 | some i => word ((s.district i).physAddr+(addr-(s.district i).addr))
 | none => 2^64-1

/-- `odp_p2v`: the address (null if there is none) and the index it leaves behind. -/
def p2v (s : State) (phyaddr : Nat) : Nat × State :=
 let d := s.district s.p2vIndex
 if d.holdsPhys phyaddr then (word (d.excursionAddr+phyaddr),s)
 else
  let i := s.stop (·.holdsPhys phyaddr)
  let addr := match s.find (·.holdsPhys phyaddr) with
   | some i => word ((s.district i).excursionAddr+phyaddr)
   | none => 0
  (addr,{ s with p2vIndex := i })

end State

-- Reservation

/-- `ODP_ALIGN_CEIL` for a power of two. -/
def alignCeil (val align : Nat) : Nat :=
 let x := word (val+(align-1))
 x-x%align

/-- `start & bmask`; the mask of no boundary is zero. -/
def boundary (x bound : Nat) : Nat := if bound = 0 then 0 else x-x%bound

/-- The loop of `align_phys_boundary`. -/
def alignLoop (f : Mmfrag) (len step bound : Nat) : Nat → Nat → Nat
 | 0, start => start
 | fuel+1, start =>
  if word (word (start+2^64-f.physAddr)+len) < f.len then
   let last := word (start+len-(if len = 0 then 0 else 1))
   if boundary start bound = boundary last bound then start
   else alignLoop f len step bound fuel (alignCeil (start+1) step)
  else start

/-- `align_phys_boundary`. The loop moves forward by `step`, so it cannot run more often than the
fragment has bytes. -/
def alignPhysBoundary (f : Mmfrag) (len align bound : Nat) : Nat :=
 let start := alignLoop f len (max align bound) bound f.len (alignCeil f.physAddr align)
 word (start+2^64-f.physAddr)

def isPowerOf2 (n : Nat) : Bool := n ≠ 0 ∧ n &&& (n-1) = 0

inductive Err where
 | enospc
 | einval
 | enomem
 deriving DecidableEq, Repr

/-- What the loop over the fragments reads: the rounded arguments of the call. -/
structure Request where
 len : Nat
 requestedLen : Nat
 socketId : Int
 flags : Nat
 align : Nat
 bound : Nat

/-- The fragment chosen so far: `mmfrag_idx`, `mmfrag_len`, `seg_offset`. -/
structure Choice where
 idx : Nat
 len : Nat
 offset : Nat
 deriving DecidableEq, Repr

namespace Request

variable (r : Request)

def offset (f : Mmfrag) : Nat := alignPhysBoundary f r.requestedLen r.align r.bound

/-- The checks of the loop over the fragments. -/
def admits (f : Mmfrag) : Bool :=
 f.len ≠ 0 ∧
 ¬ (r.socketId ≠ socketIdAny ∧ f.socketId ≠ socketIdAny ∧ r.socketId ≠ f.socketId) ∧
 ¬ f.len < word (r.requestedLen+r.offset f) ∧
 ¬ (r.flags &&& memzone2MB ≠ 0 ∧ f.hugepageSz = pgsize1G) ∧
 ¬ (r.flags &&& memzone1GB ≠ 0 ∧ f.hugepageSz = pgsize2M) ∧
 ¬ (r.flags &&& memzone16MB ≠ 0 ∧ f.hugepageSz = pgsize16G) ∧
 ¬ (r.flags &&& memzone16GB ≠ 0 ∧ f.hugepageSz = pgsize16M)

/-- The fragment is taken in place of the one chosen so far. -/
def prefers (f : Mmfrag) : Option Choice → Bool
 | none => true
 | some c =>
  if r.len = 0 then c.len < f.len
  else word (f.len+r.align) < c.len ∨ f.len ≤ word (c.len+r.align) ∧ r.offset f < c.offset

/-- The loop over the fragments. -/
def choose (frag : Nat → Mmfrag) : Nat → Nat → Option Choice → Option Choice
 | 0, _, c => c
 | fuel+1, i, c =>
  if (frag i).addr = 0 then c
  else if r.admits (frag i) ∧ r.prefers (frag i) c then
   choose frag fuel (i+1) (some ⟨i,(frag i).len,r.offset (frag i)⟩)
  else choose frag fuel (i+1) c

/-- How much the district gets from the chosen fragment. -/
def size (c : Choice) (physAddr : Nat) : Nat :=
 if r.len = 0 then
  if r.bound = 0 then word (c.len+2^64-c.offset)
  else word (alignCeil (physAddr+1) r.bound+2^64-physAddr)
 else r.requestedLen

/-- The hint flag allows pages of any size when the size asked for has none. -/
def hintOnly : Bool :=
 r.flags &&& memzoneSizeHintOnly ≠ 0 ∧ (r.flags &&& memzone1GB ≠ 0 ∨ r.flags &&& memzone2MB ≠ 0 ∨
  r.flags &&& memzone16MB ≠ 0 ∨ r.flags &&& memzone16GB ≠ 0)

end Request

/-- The arguments checked and rounded. -/
def request (len : Nat) (socketId : Int) (flags align bound : Nat) : Except Err Request :=
 if align ≠ 0 ∧ ¬ isPowerOf2 align then .error .einval
 else
  let align := if align < cacheLineSize then cacheLineSize else align
  if memSizeMax-(cacheLineSize-1) < len then .error .einval
  else
   let len := (len+(cacheLineSize-1))/cacheLineSize*cacheLineSize
   let requestedLen := max cacheLineSize len
   if bound ≠ 0 ∧ (bound < requestedLen ∨ ¬ isPowerOf2 bound) then .error .einval
   else .ok ⟨len,requestedLen,socketId,flags,align,bound⟩

namespace State

variable (s : State)

def chosen (r : Request) : Option Choice := r.choose s.freeMmfrag maxMmfrag 0 none

/-- The end of `mm_district_reserve_aligned`: the district leaves the front of the fragment. -/
def carve (name origName : Name) (c : Choice) (r : Request) : State :=
 let f := s.freeMmfrag c.idx
 let physAddr := word (f.physAddr+c.offset)
 let addr := word (f.addr+c.offset)
 let size := r.size c physAddr
 let len := word (c.offset+size)
 { s with
   freeMmfrag := update s.freeMmfrag c.idx { f with
    len := word (f.len+2^64-len)
    physAddr := word (f.physAddr+len)
    addr := word (f.addr+len) }
   mmDistrictIdx := s.mmDistrictIdx+1
   district := update s.district s.mmDistrictIdx {
    name := name.take (memzoneNamesize-1)
    origName := origName.take (memzoneNamesize-8-1)
    physAddr := physAddr
    physAddrEnd := word (physAddr+size)
    excursionAddr := word (addr+2^64-physAddr)
    addr := addr
    len := size
    hugepageSz := f.hugepageSz
    socketId := f.socketId
    flags := 0
    mmfragId := c.idx } }

/-- `mm_district_reserve_aligned`. It calls itself without flags, so at most once. The result is the
index of the district. -/
def reserveAligned (name origName : Name) (socketId : Int) (bound : Nat) :
 (calls len flags align : Nat) → Except Err Nat × State
 | 0, _, _, _ => (.error .enomem,s)
 | calls+1, len, flags, align =>
  if maxMmDistrict ≤ s.mmDistrictIdx then (.error .enospc,s)
  else match s.lookup name with
   | some i => (.ok i,s)
   | none =>
    match request len socketId flags align bound with
    | .error e => (.error e,s)
    | .ok r =>
     match s.chosen r with
     | some c => (.ok s.mmDistrictIdx,s.carve name origName c r)
     | none =>
      if r.hintOnly then reserveAligned name origName socketId bound calls r.len 0 r.align
      else (.error .enomem,s)

def districtReserveAligned (name origName : Name) (len : Nat) (socketId : Int)
 (flags align : Nat) : Except Err Nat × State :=
 if flags &&& memzone1GB ≠ 0 ∧ flags &&& memzone2MB ≠ 0 ∨
  flags &&& memzone16MB ≠ 0 ∧ flags &&& memzone16GB ≠ 0 then (.error .einval,s)
 else s.reserveAligned name origName socketId 0 2 len flags align

end State

-- Release

/-- `count` times `memcpy(md_t, md_t + 1)`, with `md_t` going up from `i`. -/
def shift (district : Nat → District) : (count i : Nat) → Nat → District
 | 0, _ => district
 | count+1, i => shift (update district i (district (i+1))) count (i+1)

namespace State

variable (s : State)

/-- The district at `i` is taken out of the table and the last slot is cleared. -/
def remove (i : Nat) : State :=
 { s with
   district := update (shift s.district (s.mmDistrictIdx-i) i)
    (i+(s.mmDistrictIdx-i)) (.cleared socketIdAny)
   mmDistrictIdx := (s.mmDistrictIdx+2^32-1)%2^32 }

/-- The district goes behind the free part of its fragment. -/
def mergeBehind (md : District) : State :=
 let f := s.freeMmfrag md.mmfragId
 { s with
   freeMmfrag := update s.freeMmfrag md.mmfragId
    { f with len := word (f.len+md.len) } }

/-- The district goes in front of the free part of its fragment. -/
def mergeFront (md : District) : State :=
 let f := s.freeMmfrag md.mmfragId
 { s with
   freeMmfrag := update s.freeMmfrag md.mmfragId
    { f with addr := md.addr, len := word (f.len+md.len) } }

/-- The district goes onto the list of free districts. -/
def toFreeList (md : District) : State :=
 { s with
   district := update s.district (maxMmDistrict+s.freeDistrictIdx) md
   freeDistrictIdx := s.freeDistrictIdx+1 }

/-- Where the memory of the district goes. -/
def giveBack (md : District) : Option State :=
 let f := s.freeMmfrag md.mmfragId
 if word (f.addr+f.len) = md.addr then some (s.mergeBehind md)
 else if word (md.addr+md.len) = f.addr then some (s.mergeFront md)
 else if s.freeDistrictIdx < maxMmDistrict then some (s.toFreeList md)
 else none

/-- `mm_district_unreserve`: the second search for the name finds what the first one found. -/
def unreserve (name : Name) : Bool × State :=
 match s.lookup name with
 | none => (false,s)
 | some i =>
  match s.giveBack (s.district i) with
  | none => (false,s)
  | some s' => (true,s'.remove i)

end State

-- Runs

inductive Action where
 /-- `odp_mm_district_reserve_aligned` -/
 | reserve (name origName : Name) (len : UInt64) (socketId : Int) (flags align : UInt32)
 /-- `odp_mm_district_unreserve` -/
 | unreserve (name : Name)
 /-- `odp_p2v` -/
 | p2v (phyaddr : Nat)
 deriving DecidableEq

def step (s : State) : Action → Option State
 | .reserve name origName len socketId flags align =>
  some (s.districtReserveAligned name origName len.toNat socketId flags.toNat align.toNat).2
 | .unreserve name => some (s.unreserve name).2
 | .p2v phyaddr => some (s.p2v phyaddr).2

end Packages.MemDistrict

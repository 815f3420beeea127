import Packages.Packet.Geometry

/-!
# The data of a packet, segment by segment

Here a packet comes with the addresses and the contents of its segments. `odp_packet_first_seg` and
`odp_packet_next_seg` walk over them, `odp_packet_copydata_in` and `odp_packet_copydata_out` copy
across their borders.
-/

namespace Packages.Packet

open BufferPool List Nat

/-- A packet and its segments: where they are and what is in them. -/
structure SegPkt where
 hdr : PktHdr
 segsize : Nat
 segcount : Nat
 addr : Nat → Nat
 seg : Nat → Nat → UInt8

/-- The three fields fill the segments. The index of a segment fits into the low bits of its
address. -/
structure SegPkt.WellFormed (k : SegPkt) : Prop where
 total : k.hdr.total = k.segcount*k.segsize
 fits : k.hdr.total < 2^32
 pos : 0 < k.segcount
 count : k.segcount ≤ maxSeg
 addr : ∀ i, i < k.segcount → k.addr i ≠ 0 ∧ k.addr i%8 = 0

lemma Ok.wellFormed {m n : Nat} {w : World m n} (hw : Ok w) {p : Fin m} {h : Nat}
 (hl : w.Live p h) (hpos : 0 < (w.buf p h).segcount) {addr : Nat → Nat}
 (haddr : ∀ i, i < (w.buf p h).segcount → addr i ≠ 0 ∧ addr i%8 = 0) (seg : Nat → Nat → UInt8) :
 SegPkt.WellFormed ⟨w.pkt p h,(w.cfg p).hdrSegSize,(w.buf p h).segcount,addr,seg⟩ :=
 ⟨hw.total p h hl,hw.total_lt hl,hpos,(hw.inv p).segcount_le h,haddr⟩

namespace SegPkt

/-- The byte at a position of the buffer, all segments in a row. -/
def bufAt (k : SegPkt) (x : Nat) : UInt8 := k.seg (x/k.segsize) (x%k.segsize)

/-- The bytes of the packet from an offset on. -/
def bytes (k : SegPkt) (offset len : Nat) : List UInt8 :=
 (List.range' (k.hdr.headroom+offset) len).map k.bufAt

/-- The bytes of a mapped range. -/
def mapped (k : SegPkt) (a : Mapped) (len : Nat) : List UInt8 :=
 (List.range' a.segOffset len).map (k.seg a.segIndex)

-- Segments

def firstSeg (k : SegPkt) : Nat := k.addr 0

/-- `segment_next`; 0 is `ODP_SEGMENT_INVALID`. -/
def nextSeg (k : SegPkt) (seg : Nat) : Nat :=
 let segIndex := (seg+1)%8
 if seg = 0 ∨ segIndex > k.segcount-1 then 0 else k.addr segIndex ||| segIndex

/-- `segment_map`; `none` is `NULL`. -/
def segmentMap (k : SegPkt) (seg limit hr : Nat) : Option Mapped :=
 let segIndex := seg%8
 if segIndex ≥ k.segcount ∨ seg-segIndex ≠ k.addr segIndex then none else
  let segOffset := segIndex*k.segsize%2^32
  let limit := add32 limit hr
  if hr ≥ add32 segOffset k.segsize ∨ segOffset > limit then none else
   let shift := if hr > segOffset then hr%k.segsize else 0
   let segOffset := add32 segOffset shift
   let bufLeft := sub32 limit segOffset
   some ⟨segIndex,shift,if bufLeft < k.segsize then bufLeft
    else if segOffset ≥ k.segsize then k.segsize else k.segsize-segOffset⟩

/-- `odp_packet_seg_data` and `odp_packet_seg_data_len`. -/
def segData (k : SegPkt) (seg : Nat) : Option Mapped :=
 k.segmentMap seg k.hdr.frameLen k.hdr.headroom

def segBytes (k : SegPkt) (seg : Nat) : List UInt8 :=
 match k.segData seg with
 | none => []
 | some a => k.mapped a a.seglen

/-- The handles of a loop over the segments that starts with `seg`. -/
def walk (k : SegPkt) : Nat → Nat → List Nat
 | 0, _ => []
 | fuel+1, seg => if seg = 0 then [] else seg::walk k fuel (k.nextSeg seg)

/-- The data starts at a segment border, or ends in the segment it starts in, or starts in the
first segment and is as long as a segment. -/
def StartFits (k : SegPkt) : Prop :=
 k.hdr.headroom%k.segsize = 0 ∨ k.hdr.headroom%k.segsize+k.hdr.frameLen ≤ k.segsize ∨
  k.hdr.headroom < k.segsize ∧ k.segsize ≤ k.hdr.frameLen

section Segments

variable {k : SegPkt} {i : Nat}

lemma mapped_eq {a : Mapped} {x len : Nat} (hx : a.segIndex*k.segsize+a.segOffset = x)
 (hlen : a.segOffset+len ≤ k.segsize) : k.mapped a len = (range' x len).map k.bufAt := by
 refine ext_getElem (by simp [mapped]) fun j hj _ => ?_
 simp only [mapped,length_map,length_range'] at hj
 have hlt : a.segOffset+j < k.segsize := by omega
 have hpart : x+j = a.segOffset+j+a.segIndex*k.segsize := by omega
 simp only [mapped,bufAt,getElem_map,getElem_range',one_mul,hpart,
  add_mul_div_right _ _ (zero_lt_of_lt hlt),add_mul_mod_self_right,
  div_eq_of_lt hlt,mod_eq_of_lt hlt,zero_add]

section

variable (h : k.WellFormed)

include h

lemma or_index (hi : i < k.segcount) :
 (k.addr i ||| i)%8 = i ∧ (k.addr i ||| i)-i = k.addr i ∧ (k.addr i ||| i) ≠ 0 := by
 have hcount := h.count
 obtain ⟨hne,hmod⟩ := h.addr i hi
 have hadd : 2^3*(k.addr i/8)+i = k.addr i ||| i := by
  rw [two_pow_add_eq_or_of_lt (show i < 2^3 by simp only [maxSeg] at hcount; omega)]
  congr 1
  omega
 simp only [maxSeg] at hcount
 omega

lemma walk_eq {fuel : Nat} (hi : i < k.segcount) (hf : k.segcount-i ≤ fuel) :
 k.walk fuel (k.addr i ||| i) = (range' i (k.segcount-i)).map fun j => k.addr j ||| j := by
 induction fuel generalizing i with
 | zero => omega
 | succ fuel ih =>
  obtain ⟨hmod,-,hne⟩ := or_index h hi
  have hcount := h.count
  simp only [maxSeg] at hcount
  have hnext : ((k.addr i ||| i)+1)%8 = i+1 := by omega
  rw [walk,if_neg hne,nextSeg]
  simp only [hnext,hne,false_or]
  obtain hlast | hlast := lt_or_ge (i+1) k.segcount
  · rw [if_neg (by omega),ih hlast (by omega),show k.segcount-i = k.segcount-(i+1)+1 by omega,
     range'_succ,map_cons]
  · rw [if_pos (by omega),show k.segcount-i = 1 by omega]
    cases fuel <;> simp [walk]

lemma segData_eq (hs : k.StartFits) (hi : i < k.segcount) :
 k.segData (k.addr i ||| i) = if k.hdr.headroom ≥ i*k.segsize+k.segsize ∨
  i*k.segsize > k.hdr.headroom+k.hdr.frameLen then none
  else some ⟨i,k.hdr.headroom-i*k.segsize,
   min (k.hdr.headroom+k.hdr.frameLen) (i*k.segsize+k.segsize) -
    max k.hdr.headroom (i*k.segsize)⟩ := by
 obtain ⟨hmod,hsub,-⟩ := or_index h hi
 have htotal := h.total
 have hfits := h.fits
 have hend : i*k.segsize+k.segsize ≤ k.segcount*k.segsize := by
  rw [← succ_mul]
  exact mul_le_mul_right _ hi
 have hshift : k.hdr.headroom > i*k.segsize → k.hdr.headroom < i*k.segsize+k.segsize →
  k.hdr.headroom%k.segsize = k.hdr.headroom-i*k.segsize := by
  intro hlt hge
  obtain ⟨d,hd⟩ := Nat.exists_eq_add_of_lt hlt
  rw [hd,add_assoc,mul_add_mod_self_right,mod_eq_of_lt (by omega)]
  omega
 have hzero : i*k.segsize < k.segsize → i*k.segsize = 0 := fun hlt => by
  obtain rfl | hpos := Nat.eq_zero_or_pos i
  · exact zero_mul _
  · exact absurd (Nat.le_mul_of_pos_left k.segsize hpos) (by omega)
 simp only [PktHdr.total] at htotal hfits
 simp only [segData,segmentMap,hmod,hsub,add32,sub32,ne_eq,not_true,or_false,
  if_neg (not_le.mpr hi)]
 simp only [StartFits] at hs
 generalize i*k.segsize = o at *
 by_cases hnone : k.hdr.headroom ≥ o+k.segsize ∨ o > k.hdr.headroom+k.hdr.frameLen
 · rw [if_pos hnone,if_pos (by omega)]
 · rw [if_neg hnone,if_neg (by omega)]
   simp only [Option.some.injEq,Mapped.mk.injEq,true_and]
   obtain hlt | hge := lt_or_ge o k.hdr.headroom
   · -- the data starts here
     have hr := hshift hlt (by omega)
     split_ifs <;> omega
   · split_ifs <;> omega

lemma segBytes_eq (hs : k.StartFits) (hi : i < k.segcount) :
 k.segBytes (k.addr i ||| i) = k.bytes (min k.hdr.frameLen (i*k.segsize-k.hdr.headroom))
  (min k.hdr.frameLen (i*k.segsize+k.segsize-k.hdr.headroom) -
   min k.hdr.frameLen (i*k.segsize-k.hdr.headroom)) := by
 rw [segBytes,segData_eq h hs hi]
 split_ifs with hnone
 · rw [bytes,show min k.hdr.frameLen (i*k.segsize+k.segsize-k.hdr.headroom) -
    min k.hdr.frameLen (i*k.segsize-k.hdr.headroom) = 0 by omega]
   rfl
 · simp only
   rw [mapped_eq (x := max k.hdr.headroom (i*k.segsize)) (by simp only; omega)
    (by simp only; omega),bytes]
   congr 2 <;> omega

lemma flatMap_segBytes (hs : k.StartFits) {c : Nat} (hc : c ≤ k.segcount) :
 ((range c).map fun i => k.addr i ||| i).flatMap k.segBytes =
  k.bytes 0 (min k.hdr.frameLen (c*k.segsize-k.hdr.headroom)) := by
 induction c with
 | zero => simp [bytes]
 | succ c ih =>
  rw [range_succ,map_append,flatMap_append,ih (by omega),map_singleton,
   flatMap_singleton,segBytes_eq h hs (by omega),bytes,bytes,bytes,← map_append,succ_mul,
   add_zero,range'_append_1]
  congr 2
  omega

/-- Otherwise the range of the segment in which the data starts goes beyond its end. -/
lemma segData_start (hs : ¬k.StartFits) :
 ∃ i < k.segcount, ∃ a, k.segData (k.addr i ||| i) = some a ∧ k.segsize < a.segOffset+a.seglen := by
 have htotal := h.total
 have hfits := h.fits
 simp only [PktHdr.total,StartFits,not_or] at htotal hfits hs
 have hpos : 0 < k.segsize := pos_of_ne_zero fun h0 => by
  simp only [h0,mod_zero,mul_zero] at htotal hs
  omega
 have hdiv := div_add_mod' k.hdr.headroom k.segsize
 have hmod := mod_lt k.hdr.headroom hpos
 have hi : k.hdr.headroom/k.segsize < k.segcount := (div_lt_iff_lt_mul hpos).mpr (by omega)
 have hend : k.hdr.headroom/k.segsize*k.segsize+k.segsize ≤ k.segcount*k.segsize := by
  rw [← succ_mul]
  exact mul_le_mul_right _ hi
 obtain ⟨hindex,hsub,-⟩ := or_index h hi
 refine ⟨_,hi,⟨k.hdr.headroom/k.segsize,k.hdr.headroom%k.segsize,
  if k.hdr.frameLen < k.segsize then k.hdr.frameLen else k.segsize⟩,?_,?_⟩
 · simp only [segData,segmentMap,hindex,hsub,add32,sub32,ne_eq,not_true,or_false,
    if_neg (not_le.mpr hi)]
   generalize k.hdr.headroom/k.segsize*k.segsize = o at *
   rw [if_neg (by omega),if_pos (by omega)]
   simp only [Option.some.injEq,Mapped.mk.injEq,true_and]
   split_ifs <;> omega
 · simp only
   split_ifs <;> omega

end

end Segments

/-- **Segment iteration.** The walk visits the segments one by one. Each mapped range lies in its
segment and the bytes of the ranges in a row are the data, if and only if the data starts at a
border, ends in the segment it starts in, or starts in the first one and is as long as a segment. -/
theorem segments_cover_data {k : SegPkt} (h : k.WellFormed) :
 (∀ fuel, k.segcount ≤ fuel →
  k.walk fuel k.firstSeg = (List.range k.segcount).map fun i => k.addr i ||| i) ∧
 ((∀ i, i < k.segcount → ∀ a, k.segData (k.addr i ||| i) = some a →
   a.segIndex = i ∧ a.segOffset+a.seglen ≤ k.segsize) ∧
  (k.walk k.segcount k.firstSeg).flatMap k.segBytes = k.bytes 0 k.hdr.frameLen ↔ k.StartFits) := by
 have hwalk : ∀ fuel, k.segcount ≤ fuel →
  k.walk fuel k.firstSeg = (range k.segcount).map fun i => k.addr i ||| i := by
  intro fuel hfuel
  simpa [firstSeg,range_eq_range'] using walk_eq h h.pos hfuel
 refine ⟨hwalk,fun hcover => ?_,fun hs => ⟨fun i hi a ha => ?_,?_⟩⟩
 · by_contra hs
   obtain ⟨i,hi,a,ha,hlong⟩ := segData_start h hs
   exact absurd (hcover.1 i hi a ha).2 (not_le.mpr hlong)
 · rw [segData_eq h hs hi] at ha
   split_ifs at ha
   cases ha
   exact ⟨rfl,by simp only; omega⟩
 · have htotal := h.total
   simp only [PktHdr.total] at htotal
   rw [hwalk _ (le_refl _),flatMap_segBytes h hs (le_refl _),min_eq_left (by omega)]

/-- A packet of two segments with the headroom of a new packet. -/
def twoSegs (frameLen : Nat) : SegPkt where
 hdr := ⟨128,frameLen,2*1856-128-frameLen⟩
 segsize := 1856
 segcount := 2
 addr i := 4096*(i+1)
 seg i _ := UInt8.ofNat i

lemma twoSegs_wellFormed {frameLen : Nat} (h : 128+frameLen ≤ 3712) :
 (twoSegs frameLen).WellFormed := by
 refine ⟨?_,?_,zero_lt_two,show 2 ≤ maxSeg by decide,fun i _ => ?_⟩ <;>
  simp only [twoSegs,PktHdr.total] <;> omega

theorem segments_cover_data_two : (twoSegs 2000).WellFormed ∧ (twoSegs 2000).StartFits ∧
 ((twoSegs 2000).walk 2 4096).flatMap (twoSegs 2000).segBytes = (twoSegs 2000).bytes 0 2000 := by
 have hwell := twoSegs_wellFormed (show 128+2000 ≤ 3712 by decide)
 have hfits : (twoSegs 2000).StartFits := .inr (.inr ⟨by decide,by decide⟩)
 exact ⟨hwell,hfits,((segments_cover_data hwell).2.mpr hfits).2⟩

/-- A little less data than a segment holds, starting behind the headroom: the first range goes
beyond the end of its segment. -/
theorem segments_leave_segment : (twoSegs 1800).WellFormed ∧
 (twoSegs 1800).segData (twoSegs 1800).firstSeg = some ⟨0,128,1800⟩ ∧ 1856 < 128+1800 :=
 ⟨twoSegs_wellFormed (by decide),by decide,by decide⟩

-- Copying in and out

/-- The loop of `odp_packet_copydata_out`: the bytes it copies. A round that copies nothing repeats
forever, one that copies from `NULL` faults, each other one copies at least a byte. -/
def outLoop (k : SegPkt) : Nat → Nat → Nat → Option (List UInt8)
 | _, _, 0 => some []
 | 0, _, _+1 => none
 | fuel+1, offset, len+1 =>
  (k.hdr.packetMap (k.segsize,k.segcount) offset).bind fun a =>
   let cpylen := min (len+1) a.seglen
   (outLoop k fuel (add32 offset cpylen) (len+1-cpylen)).map (k.mapped a cpylen ++ ·)

/-- `odp_packet_copydata_out`. The outer `none`: it does not return; the inner one is `-1`. -/
def copydataOut (k : SegPkt) (offset len : Nat) : Option (Option (List UInt8)) :=
 if add32 offset len > k.hdr.frameLen then some none else (k.outLoop len offset len).map some

/-- `memcpy` to a mapped range. -/
def store (k : SegPkt) (a : Mapped) (len : Nat) (src : Nat → UInt8) : SegPkt :=
 { k with seg := fun i j => if i = a.segIndex ∧ a.segOffset ≤ j ∧ j < a.segOffset+len
    then src (j-a.segOffset) else k.seg i j }

def inLoop : Nat → SegPkt → (Nat → UInt8) → Nat → Nat → Option SegPkt
 | _, k, _, _, 0 => some k
 | 0, _, _, _, _+1 => none
 | fuel+1, k, src, offset, len+1 =>
  (k.hdr.packetMap (k.segsize,k.segcount) offset).bind fun a =>
   let cpylen := min (len+1) a.seglen
   inLoop fuel (k.store a cpylen src) (fun j => src (cpylen+j)) (add32 offset cpylen)
    (len+1-cpylen)

/-- `odp_packet_copydata_in`, which reads the caller's bytes `src`. -/
def copydataIn (k : SegPkt) (src : Nat → UInt8) (offset len : Nat) : Option (Option SegPkt) :=
 if add32 offset len > k.hdr.frameLen then some none else (inLoop len k src offset len).map some

section Copy

variable {k : SegPkt} {offset len fuel : Nat} {src : Nat → UInt8}

/-- What a round of the two loops copies: at least a byte, and nothing beyond the segment. -/
lemma packetMap_spec (h : k.WellFormed) (hlen : 0 < len) (ho : offset+len ≤ k.hdr.frameLen) :
 ∃ a, k.hdr.packetMap (k.segsize,k.segcount) offset = some a ∧
  a.segIndex*k.segsize+a.segOffset = k.hdr.headroom+offset ∧ 0 < min len a.seglen ∧
  a.segOffset+min len a.seglen ≤ k.segsize ∧
  add32 offset (min len a.seglen) = offset+min len a.seglen := by
 have htotal := h.total
 have hfits := h.fits
 simp only [PktHdr.total] at htotal hfits
 have hpos : 0 < k.segsize := pos_of_ne_zero fun h0 => by
  rw [h0] at htotal
  omega
 have hdiv := div_add_mod' (k.hdr.headroom+offset) k.segsize
 have hmod := mod_lt (k.hdr.headroom+offset) hpos
 obtain ⟨a,ha,-⟩ := PktHdr.packetMap_mem k.hdr (k.segsize,k.segcount) offset
  (by simp only; omega) (by omega) (by simp only; omega)
 refine ⟨a,ha,?_⟩
 simp only [PktHdr.packetMap] at ha
 split_ifs at ha
 cases ha
 simp only [bufferMap,add32_of_lt (show k.hdr.headroom+offset < 2^32 by omega),
  add32_of_lt (show k.hdr.headroom+k.hdr.frameLen < 2^32 by omega),
  sub32_of_le (show k.hdr.headroom+offset ≤ k.hdr.headroom+k.hdr.frameLen by omega) (by omega)]
 simp only [add32]
 split_ifs <;> omega

lemma outLoop_eq (h : k.WellFormed) (hf : len ≤ fuel) (ho : offset+len ≤ k.hdr.frameLen) :
 k.outLoop fuel offset len = some (k.bytes offset len) := by
 induction fuel generalizing offset len with
 | zero =>
  obtain rfl : len = 0 := by omega
  simp [outLoop,bytes]
 | succ fuel ih =>
  cases len with
  | zero => simp [outLoop,bytes]
  | succ len =>
   obtain ⟨a,ha,hx,hpos,hend,hadd⟩ := packetMap_spec h (succ_pos len) ho
   have hc := min_le_left (len+1) a.seglen
   simp only [outLoop,ha,Option.bind_some,hadd]
   rw [ih (by omega) (by omega),mapped_eq hx hend]
   simp only [Option.map_some,bytes]
   rw [← map_append,← add_assoc,range'_append_1,add_sub_of_le hc]

lemma bufAt_store {a : Mapped} {x : Nat} (hx : a.segOffset+len ≤ k.segsize) (hlen : 0 < len) :
 (k.store a len src).bufAt x =
  if a.segIndex*k.segsize+a.segOffset ≤ x ∧ x < a.segIndex*k.segsize+a.segOffset+len
  then src (x-(a.segIndex*k.segsize+a.segOffset)) else k.bufAt x := by
 have hdiv := div_add_mod' x k.segsize
 have hmod := mod_lt x (show 0 < k.segsize by omega)
 simp only [bufAt,store]
 by_cases hi : x/k.segsize = a.segIndex
 · rw [hi] at hdiv ⊢
   split_ifs <;> first | omega | rfl | exact congrArg src (by omega)
 · rw [if_neg fun hh => hi hh.1,if_neg]
   rintro ⟨hge,hlt⟩
   exact hi (Nat.div_eq_of_lt_le (by omega) (by rw [succ_mul]; omega))

lemma inLoop_spec (src : Nat → UInt8) (h : k.WellFormed) (hf : len ≤ fuel)
 (ho : offset+len ≤ k.hdr.frameLen) :
 ∃ seg, inLoop fuel k src offset len = some { k with seg := seg } ∧
  ∀ x, SegPkt.bufAt { k with seg := seg } x =
   if k.hdr.headroom+offset ≤ x ∧ x < k.hdr.headroom+offset+len
   then src (x-(k.hdr.headroom+offset)) else k.bufAt x := by
 induction fuel generalizing k src offset len with
 | zero =>
  obtain rfl : len = 0 := by omega
  exact ⟨k.seg,by simp [inLoop],fun x => by rw [if_neg (by omega)]⟩
 | succ fuel ih =>
  cases len with
  | zero => exact ⟨k.seg,by simp [inLoop],fun x => by rw [if_neg (by omega)]⟩
  | succ len =>
   obtain ⟨a,ha,hx,hpos,hend,hadd⟩ := packetMap_spec h (succ_pos len) ho
   have hc := min_le_left (len+1) a.seglen
   simp only [inLoop,ha,Option.bind_some,hadd]
   generalize min (len+1) a.seglen = c at *
   have hk : (k.store a c src).WellFormed := { h with }
   obtain ⟨seg,hloop,hseg⟩ := ih (fun j => src (c+j)) hk
    (show len+1-c ≤ fuel by omega) (show offset+c+(len+1-c) ≤ _ by simp only [store]; omega)
   refine ⟨seg,hloop,fun x => ?_⟩
   have hseg : SegPkt.bufAt { k with seg := seg } x =
    if k.hdr.headroom+(offset+c) ≤ x ∧ x < k.hdr.headroom+(offset+c)+(len+1-c)
    then src (c+(x-(k.hdr.headroom+(offset+c)))) else (k.store a c src).bufAt x := hseg x
   rw [hseg,bufAt_store hend hpos,hx]
   by_cases hlate : k.hdr.headroom+(offset+c) ≤ x ∧
    x < k.hdr.headroom+(offset+c)+(len+1-c)
   · rw [if_pos hlate,if_pos (by omega)]
     exact congrArg src (by omega)
   · rw [if_neg hlate]
     by_cases hhere : k.hdr.headroom+offset ≤ x ∧ x < k.hdr.headroom+offset+c
     · rw [if_pos hhere,if_pos (by omega)]
     · rw [if_neg hhere,if_neg (by omega)]

end Copy

/-- What the two calls are for: they fail without effect exactly when the end of the range lies
behind the data, else transfer the bytes of the range, and what was copied in comes out again. -/
def CopiesExactly (k : SegPkt) (offset len : Nat) : Prop :=
 (k.hdr.frameLen < offset+len → k.copydataOut offset len = some none ∧
  ∀ src, k.copydataIn src offset len = some none) ∧
 (offset+len ≤ k.hdr.frameLen → k.copydataOut offset len = some (some (k.bytes offset len)) ∧
  ∀ src, ∃ seg, k.copydataIn src offset len = some (some { k with seg := seg }) ∧
   (∀ x, SegPkt.bufAt { k with seg := seg } x =
    if k.hdr.headroom+offset ≤ x ∧ x < k.hdr.headroom+offset+len
    then src (x-(k.hdr.headroom+offset)) else k.bufAt x) ∧
   SegPkt.copydataOut { k with seg := seg } offset len =
    some (some ((List.range len).map src)))

lemma copiesExactly_of_lt {k : SegPkt} (h : k.WellFormed) {offset len : Nat}
 (hend : offset+len < 2^32) : k.CopiesExactly offset len := by
 have hout : ∀ k : SegPkt, k.WellFormed → offset+len ≤ k.hdr.frameLen →
  k.copydataOut offset len = some (some (k.bytes offset len)) := fun k h hle => by
  rw [copydataOut,add32_of_lt hend,if_neg (by omega),outLoop_eq h (le_refl _) hle,Option.map_some]
 refine ⟨fun hlt => ⟨?_,fun src => ?_⟩,fun hle => ⟨hout k h hle,fun src => ?_⟩⟩
 · rw [copydataOut,add32_of_lt hend,if_pos hlt]
 · rw [copydataIn,add32_of_lt hend,if_pos hlt]
 · obtain ⟨seg,hloop,hseg⟩ := inLoop_spec src h (le_refl _) hle
   refine ⟨seg,?_,hseg,?_⟩
   · rw [copydataIn,add32_of_lt hend,if_neg (by omega),hloop,Option.map_some]
   · rw [hout { k with seg := seg } { h with } hle,bytes]
     simp only [range'_eq_map_range,map_map,Option.some.injEq]
     refine map_congr_left fun j hj => ?_
     have hj := mem_range.mp hj
     simp only [Function.comp_apply,hseg]
     rw [if_pos (by omega)]
     exact congrArg src (by omega)

/-- **Copying in and out.** The calls do what they are for if and only if the end of the range is a
32-bit number, or lies behind the data even after the sum has wrapped around. -/
theorem copydata_exact {k : SegPkt} (h : k.WellFormed) (offset len : Nat) :
 k.CopiesExactly offset len ↔ offset+len < 2^32 ∨ k.hdr.frameLen < (offset+len)%2^32 := by
 have hfits := h.fits
 simp only [PktHdr.total] at hfits
 refine ⟨fun hc => or_iff_not_imp_left.mpr fun hwrap => ?_,fun hend => ?_⟩
 · -- the check passes, so that the call does not return -1
   by_contra hle
   have hout := (hc.1 (by omega)).1
   rw [copydataOut,add32,if_neg hle] at hout
   cases hloop : k.outLoop len offset len <;> simp [hloop] at hout
 · obtain hlt | hge := lt_or_ge (offset+len) (2^32)
   · exact copiesExactly_of_lt h hlt
   · have hbig := hend.resolve_left (not_lt.mpr hge)
     refine ⟨fun _ => ⟨?_,fun src => ?_⟩,fun hle => absurd hle (by omega)⟩
     · rw [copydataOut,add32,if_pos hbig]
     · rw [copydataIn,add32,if_pos hbig]

theorem copydata_exact_border : (twoSegs 2000).WellFormed ∧
 (twoSegs 2000).copydataOut 1700 100 = some (some ((twoSegs 2000).bytes 1700 100)) := by
 have hwell := twoSegs_wellFormed (show 128+2000 ≤ 3712 by decide)
 exact ⟨hwell,(((copydata_exact hwell 1700 100).mpr (by decide)).2 (by decide)).1⟩

/-- An offset of `2 ^ 32 - 1` and one byte: the sum is zero, so the call goes on and copies from
`NULL`. -/
theorem copydata_wraps : (twoSegs 100).WellFormed ∧ (twoSegs 100).hdr.frameLen < 2^32-1+1 ∧
 (twoSegs 100).copydataOut (2^32-1) 1 = none ∧
 (twoSegs 100).copydataIn (fun _ => 0) (2^32-1) 1 = none := by
 refine ⟨twoSegs_wellFormed (by decide),by decide,by decide,rfl⟩

end SegPkt

end Packages.Packet

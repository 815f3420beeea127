import Packages.BufferPool.Model

/-!
# The constants of a pool

`odp_pool_create` computes with 32-bit words and its rounding can wrap around. For every pool it
accepts the header and block numbers stay small, and no request that passes the size check needs
more than `maxSeg` segments.
-/

namespace Packages.BufferPool

open Nat Option

lemma dvd_alignRoundup (x align : Nat) : align ∣ alignRoundup x align := ⟨_,rfl⟩

lemma alignRoundup_lt (x align : Nat) : alignRoundup x align < 2^32 :=
 lt_of_le_of_lt (mul_div_le _ _) (mod_lt _ (by decide))

lemma le_alignRoundup {x align : Nat} (ha : 0 < align) (hx : x+align ≤ 2^32) :
 x ≤ alignRoundup x align := by
 unfold alignRoundup
 rw [mod_eq_of_lt (by omega)]
 have h1 := div_add_mod (x+align-1) align
 have h2 := mod_lt (x+align-1) ha
 omega

lemma alignRoundup_of_dvd {x align : Nat} (ha : 0 < align) (hx : x+align ≤ 2^32)
 (hd : align ∣ x) : alignRoundup x align = x := by
 obtain ⟨k,rfl⟩ := hd
 unfold alignRoundup
 rw [mod_eq_of_lt (by omega),Nat.add_sub_assoc ha,mul_add_div ha,
  div_eq_of_lt (by omega),add_zero]

/-- The alignments that `odp_pool_create` accepts from 16 up are multiples of 8, those above 64 of
128. -/
lemma dvd_of_validAlign {a : BitVec 32} (ha : ¬ 4096 < a.toNat) (hp : a = a &&& ~~~(a-1)) :
 (16 ≤ a.toNat → 8 ∣ a.toNat) ∧ (64 < a.toNat → 128 ∣ a.toNat) := by
 have hall : ∀ i, i < 65 → ∀ j, j < 64 → BitVec.ofNat 32 (64*i+j) =
  BitVec.ofNat 32 (64*i+j) &&& ~~~(BitVec.ofNat 32 (64*i+j)-1) →
  (16 ≤ 64*i+j → 8 ∣ 64*i+j) ∧ (64 < 64*i+j → 128 ∣ 64*i+j) := by
  decide +kernel
 have hsplit : 64*(a.toNat/64)+a.toNat%64 = a.toNat := div_add_mod ..
 have := hall (a.toNat/64) (by omega) (a.toNat%64) (by omega)
 rw [hsplit,BitVec.ofNat_toNat] at this
 exact this hp

lemma packetSegLen_bounds (segLen : Nat) :
 1790 ≤ packetSegLen segLen ∧ packetSegLen segLen ≤ 65728 ∧ 8 ∣ packetSegLen segLen := by
 have hclamp : 1598 ≤ clampSegLen segLen ∧ clampSegLen segLen ≤ 65536 := by
  unfold clampSegLen
  split_ifs <;> simp only [segLenMin,segLenMax] at * <;> omega
 simp only [packetSegLen,packetHeadroom,packetTailroom]
 refine ⟨?_,?_,dvd_trans (by decide : 8 ∣ 16) (dvd_alignRoundup ..)⟩
 · exact le_trans (by omega) (le_alignRoundup (by decide) (by omega))
 · unfold alignRoundup
   omega

/-- What the proofs need to know about the constants of a pool. -/
structure ConfigOk (c : Config) : Prop where
 hdrNum_le : c.hdrNum ≤ 2^25
 blkNum_le : c.blkNum ≤ maxSeg*c.hdrNum
 inline : c.hdrdata = true → c.blkNum = 0
 total_le : c.maxSize+c.roomSize ≤ maxSeg*c.segSize
 unsegmented : c.type = .buffer → c.maxSize+c.roomSize ≤ c.segSize
 bufNum_eq : 0 < c.hdrNum → c.hdrNum = c.bufNum+if c.type = .packet then 1 else 0

variable {blkSize hdrNum : Nat}

/-- The block size is at most `maxSeg` segments, and the blocks cut from the block area are
that many at most. -/
lemma blkNum_le_of {segSize : Nat} (h : blkSize ≤ maxSeg*segSize) :
 hdrNum*(blkSize+hdrBackPtrSize)/(segSize+hdrBackPtrSize) ≤ maxSeg*hdrNum := by
 have h1 : blkSize+hdrBackPtrSize ≤ maxSeg*(segSize+hdrBackPtrSize) := by
  simp only [maxSeg] at h ⊢
  omega
 calc hdrNum*(blkSize+hdrBackPtrSize)/(segSize+hdrBackPtrSize)
  ≤ hdrNum*(maxSeg*(segSize+hdrBackPtrSize))/(segSize+hdrBackPtrSize) :=
   Nat.div_le_div_right (mul_le_mul_left _ h1)
  _ = maxSeg*hdrNum*(segSize+hdrBackPtrSize)/(segSize+hdrBackPtrSize) := by
   rw [← mul_assoc,mul_comm hdrNum]
  _ = maxSeg*hdrNum := Nat.mul_div_cancel _ (by simp [hdrBackPtrSize])

/-- The geometry of a pool whose blocks are cut. -/
structure BlockGeometry (blkSize segLen : Nat) : Prop where
 dvd : 8 ∣ segLen
 segLen_le : segLen ≤ blkSize
 le_segs : blkSize ≤ maxSeg*segLen
 lt : blkSize < 2^32

variable {params : PoolParam} {segLen : Nat}

lemma poolGeometry_blocks
 (h : poolGeometry params = some (hdrNum,blkSize,segLen)) (hbig : maxInlineBuf < blkSize) :
 BlockGeometry blkSize segLen := by
 simp only [poolGeometry] at h
 split at h
 · simp at h
 next hok =>
 push Not at hok
 cases htype : params.type with
 | buffer =>
  simp only [htype] at h
  cases h
  unfold bufferBlkSize at hbig ⊢
  split_ifs at hbig ⊢ with hround
  case neg => omega
  -- the block size is a multiple of the alignment, hence of 8
  have halign : 8 ∣ bufAlign (reqAlign params) := by
   unfold bufAlign
   split_ifs with h0 h16
   · decide
   · decide
   · exact (dvd_of_validAlign (by omega) hok.2).1 (by omega)
  refine ⟨dvd_trans halign (dvd_alignRoundup ..),le_refl _,?_,alignRoundup_lt ..⟩
  simp only [maxSeg]
  omega
 | packet =>
  obtain ⟨hlo,hhi,hdvd⟩ := packetSegLen_bounds params.align
  simp only [htype] at h
  split at h
  · simp at h
  next hseg =>
  cases h
  simp only [packetBlkSize] at hbig hseg ⊢
  split_ifs at hbig hseg ⊢
  · refine ⟨hdvd,le_refl _,?_,?_⟩
    · simp only [maxSeg]
      omega
    · omega
  · obtain ⟨k,hk⟩ := dvd_alignRoundup params.size (packetSegLen params.align)
    refine ⟨hdvd,le_of_dvd (by omega) (dvd_alignRoundup ..),?_,alignRoundup_lt ..⟩
    rw [hk,Nat.mul_div_cancel_left _ (by omega)] at hseg
    rw [hk,mul_comm]
    exact mul_le_mul_right _ (by omega)
 | timeout =>
  simp only [htype] at h
  cases h
  simp at hbig

lemma BlockGeometry.alignRoundup_eq (h : BlockGeometry blkSize segLen) :
 alignRoundup segLen 8 = segLen := by
 have hle := h.segLen_le
 have hlt := h.lt
 obtain ⟨k,rfl⟩ := h.dvd
 exact alignRoundup_of_dvd (by decide) (by omega) ⟨k,rfl⟩

lemma poolGeometry_packet
 (h : poolGeometry params = some (hdrNum,blkSize,segLen)) (htype : params.type = .packet) :
 segLen = packetSegLen params.align := by
 simp only [poolGeometry,htype] at h
 split_ifs at h
 simp only [some.injEq,Prod.mk.injEq] at h
 exact h.2.2.symm

lemma poolConfig_ok {stride : PoolType → Nat} {c : Config}
 (h : poolConfig stride params = some c) : ConfigOk c := by
 obtain ⟨⟨hdrNum,blkSize,segLen⟩,hgeo,h⟩ := bind_eq_some_iff.mp h
 simp only at h
 split at h
 · simp at h
 next hlimit =>
 cases h
 have hblk := poolGeometry_blocks hgeo
 refine ⟨?_,?_,?_,?_,?_,?_⟩
 · simp only
   have := div_le_self maxBuffers (stride params.type/cacheLineSize)
   simp only [maxBuffers] at this hlimit
   omega
 · simp only
   split_ifs with hinline
   · omega
   · have hblk := hblk (by omega)
     rw [hblk.alignRoundup_eq]
     exact blkNum_le_of hblk.le_segs
 · intro hinline
   simp only [Config.hdrdata,decide_eq_true_eq] at hinline
   simp [hinline]
 · -- a packet pool's segment is larger than its rooms
   simp only [Config.roomSize]
   cases htype : params.type with
   | packet =>
    obtain ⟨hlo,hhi,hdvd⟩ := packetSegLen_bounds params.align
    rw [poolGeometry_packet hgeo htype,alignRoundup_of_dvd (by decide) (by omega) hdvd]
    simp [maxSeg,packetHeadroom,packetTailroom]
    omega
   | buffer | timeout =>
    simp [maxSeg]
    omega
 · intro htype
   simp only at htype
   simp [Config.roomSize,htype]
 · simp only
   split_ifs <;> simp_all
   omega

/-- What the packet functions rely on: headers and pool agree on the segment size, which is larger
than the rooms and far from wrapping. -/
structure PacketConfig (c : Config) : Prop where
 headroom : c.headroom = packetHeadroom
 tailroom : c.tailroom = packetTailroom
 segSize : c.hdrSegSize = c.segSize
 lower : 1790 ≤ c.segSize
 upper : c.segSize ≤ 65728

lemma poolConfig_packet {stride : PoolType → Nat} {c : Config}
 (h : poolConfig stride params = some c) (htype : c.type = .packet) : PacketConfig c := by
 obtain ⟨⟨hdrNum,blkSize,segLen⟩,hgeo,h⟩ := bind_eq_some_iff.mp h
 simp only at h
 split at h
 · simp at h
 cases h
 obtain ⟨hlo,hhi,hdvd⟩ := packetSegLen_bounds params.align
 have hseg := poolGeometry_packet hgeo htype
 have hround : alignRoundup segLen 8 = segLen := by
  rw [hseg]
  exact alignRoundup_of_dvd (by decide) (by omega) hdvd
 simp only at htype
 refine ⟨?_,?_,?_,?_,?_⟩ <;> simp [htype] <;> omega

end Packages.BufferPool

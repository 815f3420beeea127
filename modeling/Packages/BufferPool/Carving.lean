import Packages.Lib.Descent
import Packages.BufferPool.Sequential

/-!
# How a pool's memory is cut up

`odp_pool_create` cuts one piece of memory from the top down, in two loops that test at the end: the
metadata area into headers, each with its part of the user area, and the block area into data
blocks, each behind 64 bytes for the address of its header. The sizes of the areas are products of
32-bit words.
-/

namespace Packages.BufferPool

open Option List Nat

def pUdataSize (type : PoolType) (uareaSize : Nat) : Nat := if type = .packet then uareaSize else 0

/-- `udata_stride`: rounded with 64 bits and kept in 32. -/
def udataStride (type : PoolType) (uareaSize : Nat) : Nat :=
 roundUp 8 (pUdataSize type uareaSize)%2^32

/-- The sizes that `odp_pool_create` works out, for headers of `stride` bytes and user areas of
`udata` bytes. -/
structure Areas where
 blockSize : Nat
 padSize : Nat
 mdataSize : Nat
 udataSize : Nat

-- ODP_PAGE_SIZE
def pageSize : Nat := 4096

def Areas.poolSize (a : Areas) : Nat :=
 roundUp pageSize (a.blockSize+a.padSize+a.mdataSize+a.udataSize)

def Config.areas (c : Config) (stride udata : Nat) : Areas :=
 let blockSize := if c.blkSize ≤ maxInlineBuf then 0 else c.hdrNum*(c.blkSize+hdrBackPtrSize)%2^64
 { blockSize := blockSize
   padSize := roundUp cacheLineSize blockSize-blockSize
   mdataSize := c.hdrNum*stride%2^32
   udataSize := c.hdrNum*udata%2^32 }

/-- The addresses of the headers with their user areas, and of the blocks with their back pointers,
in the order in which they are put on the free lists. -/
structure Layout where
 headers : List (Nat × Nat)
 blocks : List Nat
 deriving DecidableEq, Repr

/-- The two loops of `odp_pool_create` on memory from `base` on. -/
def Config.layout (c : Config) (stride udata base fuel : Nat) : Option Layout :=
 let a := c.areas stride udata
 let mdataBase := base+a.blockSize+a.padSize
 let udataBase := mdataBase+a.mdataSize
 let udat := if udata = 0 then 0 else sub64 (udataBase+a.udataSize) udata
 (doWhile (fun x => (sub64 x.1 stride,sub64 x.2 udata)) (fun x => decide (mdataBase ≤ x.1)) fuel
  (sub64 udataBase stride,udat)).bind fun headers =>
  if c.blkSize ≤ maxInlineBuf then some ⟨headers,[]⟩
  else (doWhile (sub64 · (c.segSize+hdrBackPtrSize)) (fun x => decide (base ≤ x)) fuel
   (sub64 (base+a.blockSize) (c.segSize+hdrBackPtrSize))).map (⟨headers,·⟩)

/-- The memory that is used from then on; `uarea` is the size of a user area. -/
def Layout.regions (l : Layout) (stride uarea segSize : Nat) : List Region :=
 l.blocks.map (⟨·,segSize+hdrBackPtrSize⟩) ++
  (l.headers.map (⟨·.1,stride⟩)++if uarea = 0 then [] else l.headers.map (⟨·.2,uarea⟩))

-- Without wrap-around

section Cut

variable {base stride n total fuel : Nat}

variable (base stride n) in
/-- The loop over the headers; `u` are the addresses that its second pointer passes. -/
lemma headers_cut (udata : Nat) (u : Nat → Nat) (hu : ∀ i, i+1 < n → sub64 (u (i+1)) udata = u i)
 (hn : 0 < n)
 (hs : 0 < stride) (hlow : stride ≤ base) (hend : base+n*stride ≤ 2^64) (hfuel : n ≤ fuel) :
 doWhile (fun x => (sub64 x.1 stride,sub64 x.2 udata)) (fun x => decide (base ≤ x.1)) fuel
  (sub64 (base+n*stride) stride,u (n-1)) =
  some ((range n).reverse.map fun i => (base+i*stride,u i)) := by
 obtain ⟨k,rfl⟩ := Nat.exists_eq_add_of_lt hn
 rw [zero_add] at *
 have hdown : ∀ i, i ≤ k → sub64 (base+(i+1)*stride) stride = base+i*stride := by
  intro i hi
  have hle := mul_le_mul_right stride (succ_le_succ hi)
  rw [succ_eq_add_one,succ_eq_add_one] at hle
  rw [sub64_of_le _ hs (by omega)]
  all_goals
   rw [succ_mul]
   omega
 rw [hdown k (le_refl k)]
 refine doWhile_countdown (f := fun i => (base+i*stride,u i))
  (fun i hi => Prod.ext (hdown i (le_of_lt hi)) (hu i (succ_lt_succ hi)))
  (fun i _ => decide_eq_true (Nat.le_add_right ..)) (decide_eq_false ?_) hfuel
 rw [zero_mul,add_zero,sub64_of_le hlow hs (by omega)]
 omega

/-- The address that the second pointer, which starts at `top`, has after `k` rounds. -/
def userAddr (top udata k : Nat) : Nat := (top+k*(2^64-udata))%2^64

lemma sub64_userAddr (top udata k : Nat) :
 sub64 (userAddr top udata k) udata = userAddr top udata (k+1) := by
 rw [sub64,userAddr,mod_add_mod,userAddr,succ_mul,add_assoc]

/-- If the size of the user areas wraps around, the pointer goes below their base, by less than an
area. -/
lemma userAddr_below {b udata : Nat} (hpos : 0 < udata) (hlt : udata < 2^32)
 (hwrap : 2^32 ≤ n*udata) :
 ∃ i < n, ∃ r < udata, userAddr (b+n*udata%2^32) udata (n-i) = sub64 (b+r) udata := by
 have hU := mod_lt (n*udata) (show 0 < 2^32 by decide)
 generalize n*udata%2^32 = U at *
 have hdiv := div_add_mod' U udata
 have hi : U/udata < n := lt_of_mul_lt_mul_right (show U/udata*udata < n*udata by omega) (zero_le _)
 have hround : U/udata*udata+U/udata*(2^64-udata) = U/udata*2^64 := by
  rw [← mul_add,add_sub_of_le (by omega)]
 refine ⟨n-1-U/udata,by omega,U%udata,mod_lt _ hpos,?_⟩
 rw [show n-(n-1-U/udata) = U/udata+1 by omega,userAddr,sub64,← add_mul_mod_self_right (b+U%udata+_)
  (U/udata),succ_mul]
 congr 1
 omega

lemma blocks_cut (hs : 0 < stride) (hle : stride ≤ total) (hlow : stride ≤ base)
 (hend : base+total ≤ 2^64) (hfuel : total/stride ≤ fuel) :
 doWhile (sub64 · stride) (fun x => decide (base ≤ x)) fuel (sub64 (base+total) stride) =
  some ((range (total/stride)).reverse.map fun i => base+total%stride+i*stride) := by
 have hdiv := div_add_mod total stride
 obtain ⟨k,hk⟩ := Nat.exists_eq_add_of_lt (div_pos hle hs)
 rw [zero_add] at hk
 rw [hk] at hdiv hfuel ⊢
 rw [mul_comm,succ_mul] at hdiv
 have hmod := mod_lt total hs
 have hstart : sub64 (base+total) stride = base+total%stride+k*stride := by
  rw [sub64_of_le (by omega) hs hend]
  omega
 rw [hstart]
 refine doWhile_countdown (f := fun i => base+total%stride+i*stride) (fun i hi => ?_)
  (fun i _ => ?_) ?_ hfuel
 · have hle := mul_le_mul_right stride (succ_le_of_lt hi)
   rw [succ_mul] at hle
   rw [succ_mul,sub64_of_le (by omega) hs (by omega)]
   omega
 · refine decide_eq_true ?_
   omega
 · refine decide_eq_false ?_
   rw [sub64_of_le (by omega) hs (by omega)]
   omega

/-- Blocks in the block area, headers in the metadata area and user areas behind them. -/
lemma regions_apart {l : Layout} {blockSize mdataBase udata uarea segSize q r size : Nat}
 (hheaders : l.headers = (range n).reverse.map fun i =>
  (mdataBase+i*stride,if udata = 0 then 0 else mdataBase+n*stride+i*udata))
 (hblocks : l.blocks = (range q).reverse.map fun i => base+r+i*(segSize+hdrBackPtrSize))
 (hq : r+q*(segSize+hdrBackPtrSize) ≤ blockSize) (hmdata : base+blockSize ≤ mdataBase)
 (hsize : mdataBase+n*stride+n*udata ≤ base+size) (hudata : uarea ≤ udata) :
 (l.regions stride uarea segSize).Pairwise Region.Apart ∧
  ∀ s ∈ l.regions stride uarea segSize, s.Within ⟨base,size⟩ := by
 have hblk : l.blocks.map (fun x => (⟨x,segSize+hdrBackPtrSize⟩ : Region)) = (range q).reverse.map
  (Region.row (base+r) (segSize+hdrBackPtrSize) (segSize+hdrBackPtrSize)) := by
  rw [hblocks,List.map_map]
  rfl
 have hhdr : l.headers.map (fun x => (⟨x.1,stride⟩ : Region)) =
  (range n).reverse.map (Region.row mdataBase stride stride) := by
  rw [hheaders,List.map_map]
  rfl
 -- the part of the memory behind the blocks
 have hrest : (l.headers.map (fun x => (⟨x.1,stride⟩ : Region)) ++
  if uarea = 0 then [] else l.headers.map (fun x => (⟨x.2,uarea⟩ : Region))).Pairwise Region.Apart ∧
  ∀ s ∈ l.headers.map (fun x => (⟨x.1,stride⟩ : Region)) ++
   (if uarea = 0 then [] else l.headers.map (fun x => (⟨x.2,uarea⟩ : Region))),
   s.Within ⟨mdataBase,n*stride+n*udata⟩ := by
  have hfirst : ∀ s ∈ (range n).reverse.map (Region.row mdataBase stride stride),
   s.Within ⟨mdataBase,n*stride+n*udata⟩ := fun s hs =>
   (Region.within_of_mem_row (le_refl _) hs).trans
    ⟨le_refl _,Nat.add_le_add_left (Nat.le_add_right ..) _⟩
  rw [hhdr]
  split
  · rw [append_nil]
    exact ⟨Region.pairwise_row (le_refl _) n,hfirst⟩
  · have huarea : l.headers.map (fun x => (⟨x.2,uarea⟩ : Region)) =
     (range n).reverse.map (Region.row (mdataBase+n*stride) udata uarea) := by
     rw [hheaders,List.map_map]
     refine map_congr_left fun i _ => ?_
     show (⟨if udata = 0 then 0 else mdataBase+n*stride+i*udata,uarea⟩ : Region) = _
     rw [if_neg (by omega)]
     rfl
    rw [huarea]
    refine ⟨Region.pairwise_append (Region.pairwise_row (le_refl _) n)
     (Region.pairwise_row hudata n) (fun s hs => Region.within_of_mem_row (le_refl _) hs)
     (fun s hs => Region.within_of_mem_row hudata hs) (.inl (le_refl _)),fun s hs => ?_⟩
    obtain hs | hs := mem_append.mp hs
    · exact hfirst s hs
    · refine (Region.within_of_mem_row hudata hs).trans ⟨Nat.le_add_right ..,?_⟩
      show mdataBase+n*stride+n*udata ≤ mdataBase+(n*stride+n*udata)
      omega
 have hfirst : ∀ s ∈ (range q).reverse.map
  (Region.row (base+r) (segSize+hdrBackPtrSize) (segSize+hdrBackPtrSize)),
  s.Within ⟨base,blockSize⟩ := by
  intro s hs
  refine (Region.within_of_mem_row (Nat.le_refl _) hs).trans ⟨Nat.le_add_right ..,?_⟩
  show base+r+q*(segSize+hdrBackPtrSize) ≤ base+blockSize
  omega
 unfold Layout.regions
 rw [hblk]
 refine ⟨Region.pairwise_append (Region.pairwise_row (le_refl _) q) hrest.1 hfirst hrest.2
  (.inl hmdata),fun s hs => ?_⟩
 obtain hs | hs := mem_append.mp hs
 · refine (hfirst s hs).trans ⟨le_refl _,?_⟩
   show base+blockSize ≤ base+size
   omega
 · refine (hrest.2 s hs).trans ⟨?_,?_⟩
   · show base ≤ mdataBase
     omega
   · show mdataBase+(n*stride+n*udata) ≤ base+size
     omega

end Cut

section Whole

variable {stride : PoolType → Nat} {params : PoolParam} {c : Config} {uareaSize base fuel : Nat}

lemma poolConfig_blocks (hcfg : poolConfig stride params = some c)
 (hstride : cacheLineSize ∣ stride params.type) (hpos : 0 < stride params.type) :
 (maxInlineBuf < c.blkSize → BlockGeometry c.blkSize c.segSize ∧
  c.blkNum = c.hdrNum*(c.blkSize+hdrBackPtrSize)/(c.segSize+hdrBackPtrSize)) ∧
 (c.blkSize ≤ maxInlineBuf → c.blkNum = 0) ∧ c.hdrNum*stride params.type ≤ 2^31 ∧
 c.hdrNum ≤ 2^25 := by
 have hok := poolConfig_ok hcfg
 obtain ⟨⟨hdrNum,blkSize,segLen⟩,hgeo,h⟩ := bind_eq_some_iff.mp hcfg
 simp only at h
 split at h
 · cases h
 next hlimit =>
 cases h
 refine ⟨fun hbig => ?_,fun hsmall => if_pos hsmall,?_,hok.hdrNum_le⟩
 · have hblk := poolGeometry_blocks hgeo hbig
   refine ⟨?_,if_neg (not_le.mpr hbig)⟩
   rw [hblk.alignRoundup_eq]
   exact hblk
 · obtain ⟨k,hk⟩ := hstride
   rw [hk] at hlimit hpos ⊢
   have hkpos : 0 < k := Nat.pos_of_mul_pos_left hpos
   rw [Nat.mul_div_cancel_left _ (by decide)] at hlimit
   have hle := (le_div_iff_mul_le hkpos).mp (not_lt.mp hlimit)
   calc hdrNum*(cacheLineSize*k) = cacheLineSize*(hdrNum*k) := by rw [mul_left_comm]
    _ ≤ cacheLineSize*maxBuffers := mul_le_mul_left _ hle

lemma areas_eq {st udata : Nat} (hblk : maxInlineBuf < c.blkSize → c.blkSize < 2^32)
 (hnum : c.hdrNum ≤ 2^25) (hmdata : c.hdrNum*st ≤ 2^31) (hudata : c.hdrNum*udata < 2^32) :
 (c.areas st udata).blockSize =
  (if c.blkSize ≤ maxInlineBuf then 0 else c.hdrNum*(c.blkSize+hdrBackPtrSize)) ∧
 (c.areas st udata).mdataSize = c.hdrNum*st ∧ (c.areas st udata).udataSize = c.hdrNum*udata := by
 refine ⟨?_,mod_eq_of_lt (by omega),mod_eq_of_lt hudata⟩
 simp only [Config.areas]
 split
 · rfl
 · have hle : c.hdrNum*(c.blkSize+hdrBackPtrSize) ≤ 2^25*(2^32+64) :=
    Nat.mul_le_mul hnum (by simp only [hdrBackPtrSize]; omega)
   exact mod_eq_of_lt (by omega)

lemma layout_headers {l : Layout} {st udata : Nat} (hl : c.layout st udata base fuel = some l) :
 doWhile (fun x => (sub64 x.1 st,sub64 x.2 udata))
  (fun x => decide (base+(c.areas st udata).blockSize+(c.areas st udata).padSize ≤ x.1)) fuel
  (sub64 (base+(c.areas st udata).blockSize+(c.areas st udata).padSize+(c.areas st udata).mdataSize)
   st,if udata = 0 then 0 else sub64 (base+(c.areas st udata).blockSize+(c.areas st udata).padSize +
    (c.areas st udata).mdataSize+(c.areas st udata).udataSize) udata) = some l.headers := by
 obtain ⟨headers,hheaders,hl⟩ := bind_eq_some_iff.mp hl
 have hsame : headers = l.headers := by
  split at hl
  · exact some.inj hl ▸ rfl
  · obtain ⟨blocks,-,rfl⟩ := map_eq_some_iff.mp hl
    rfl
 exact hsame ▸ hheaders

/-- Both loops end with as many headers and blocks as there should be, which lie apart and inside
the memory. -/
def Carved (c : Config) (st udata uarea base fuel : Nat) : Prop :=
 ∃ l, c.layout st udata base fuel = some l ∧ l.headers.length = c.hdrNum ∧
  l.blocks.length = c.blkNum ∧ (l.regions st uarea c.segSize).Pairwise Region.Apart ∧
  ∀ r ∈ l.regions st uarea c.segSize, r.Within ⟨base,(c.areas st udata).poolSize⟩

section

variable {st udata uarea : Nat} (hst : stride params.type = st)
 (hcfg : poolConfig stride params = some c)
 (hstride : cacheLineSize ∣ st) (hspos : 0 < st)
 (hlow : st ≤ base ∧ c.segSize+hdrBackPtrSize ≤ base)
 (hend : base+(c.areas st udata).poolSize ≤ 2^64) (hfuel : c.hdrNum ≤ fuel ∧ c.blkNum ≤ fuel)

include hst hcfg hstride hspos hlow hend hfuel

lemma carved (hpos : 0 < c.hdrNum) (hudata : c.hdrNum*udata < 2^32) (hud : uarea ≤ udata) :
 Carved c st udata uarea base fuel := by
 subst hst
 obtain ⟨hblk,hinline,hmdata,hnum⟩ := poolConfig_blocks hcfg hstride hspos
 generalize stride params.type = st at *
 obtain ⟨hB,hM,hU⟩ := areas_eq (fun h => (hblk h).1.lt) hnum hmdata hudata
 have hsum : (c.areas st udata).blockSize+(c.areas st udata).padSize+(c.areas st udata).mdataSize +
  (c.areas st udata).udataSize ≤ (c.areas st udata).poolSize := le_roundUp (by decide) _
 rw [hM,hU] at hsum
 have hpad : base+(c.areas st udata).blockSize ≤
  base+(c.areas st udata).blockSize+(c.areas st udata).padSize := Nat.le_add_right ..
 generalize hmb : base+(c.areas st udata).blockSize+(c.areas st udata).padSize = mb at *
 have hheaders := headers_cut mb st c.hdrNum udata
  (fun i => if udata = 0 then 0 else mb+c.hdrNum*st+i*udata) (fun i hi => ?_) hpos hspos (by omega)
  (show mb+c.hdrNum*st ≤ 2^64 by omega) hfuel.1
 swap
 · have hle := mul_le_mul_right udata hi.le
   split_ifs with hzero
   · rw [hzero]
     rfl
   · rw [sub64_of_le _ (pos_of_ne_zero hzero) (by omega)] <;> rw [succ_mul] <;> omega
 have hstart : (if udata = 0 then 0 else mb+c.hdrNum*st+(c.hdrNum-1)*udata) =
  if udata = 0 then 0 else sub64 (mb+c.hdrNum*st+c.hdrNum*udata) udata := by
  have hle := Nat.le_mul_of_pos_left udata hpos
  split_ifs with hzero
  · rfl
  · rw [sub64_of_le (by omega) (pos_of_ne_zero hzero) (by omega),Nat.sub_one_mul]
    omega
 simp only [hstart] at hheaders
 simp only [Carved,Config.layout,hM,hU,hmb]
 rw [hheaders,bind_some]
 by_cases hsmall : c.blkSize ≤ maxInlineBuf
 · rw [if_pos hsmall]
   refine ⟨_,rfl,by simp,?_,?_⟩
   · rw [hinline hsmall]
     rfl
   · exact regions_apart (q := 0) (r := 0) rfl rfl (by omega) hpad (by omega) hud
 · have hbig := not_le.mp hsmall
   obtain ⟨hgeo,hblkNum⟩ := hblk hbig
   rw [if_neg hsmall] at hB ⊢
   have hle : c.segSize+hdrBackPtrSize ≤ (c.areas st udata).blockSize := by
    rw [hB]
    exact le_trans (Nat.add_le_add_right hgeo.segLen_le _) (Nat.le_mul_of_pos_left _ hpos)
   rw [← hB] at hblkNum
   have hS : 0 < c.segSize+hdrBackPtrSize := Nat.add_pos_right _ (by decide)
   rw [blocks_cut hS hle hlow.2 (by omega) (hblkNum ▸ hfuel.2)]
   refine ⟨_,rfl,by simp,by simp [hblkNum],?_⟩
   refine regions_apart rfl rfl ?_ hpad (by omega) hud
   rw [mul_comm,mod_add_div]

/-- The loops lay out a header even if there should be none; and user areas whose sizes do not fit
in 32 bits are laid out over the headers, or at `NULL`. -/
lemma fits_of_carved (huarea : uarea < 2^32) (hudata : udata = roundUp 8 uarea%2^32)
 (h : Carved c st udata uarea base fuel) : 0 < c.hdrNum ∧ c.hdrNum*udata < 2^32 ∧
 uarea+8 ≤ 2^32 := by
 obtain ⟨l,hl,hlen,-,hpair,hin⟩ := h
 subst hst
 obtain ⟨-,-,hmdata,-⟩ := poolConfig_blocks hcfg hstride hspos
 have h64 := le_of_dvd hspos hstride
 generalize stride params.type = st at *
 have hM : (c.areas st udata).mdataSize = c.hdrNum*st := mod_eq_of_lt (by omega)
 have hU : (c.areas st udata).udataSize = c.hdrNum*udata%2^32 := rfl
 have hsum : (c.areas st udata).blockSize+(c.areas st udata).padSize+(c.areas st udata).mdataSize +
  (c.areas st udata).udataSize ≤ (c.areas st udata).poolSize := le_roundUp (by decide) _
 have hlt := roundUp_lt (show 0 < pageSize by decide)
  ((c.areas st udata).blockSize+(c.areas st udata).padSize +
  (c.areas st udata).mdataSize+(c.areas st udata).udataSize)
 have hheaders := layout_headers hl
 rw [hM,hU] at hheaders hsum
 have hpos : 0 < c.hdrNum := by
  rw [← hlen]
  exact length_pos_of_ne_nil (doWhile_ne_nil hheaders)
 -- the user area of a header that is not empty
 have harea : uarea ≠ 0 → ∀ x ∈ l.headers, (∀ y ∈ l.headers, Region.Apart ⟨y.1,st⟩ ⟨x.2,uarea⟩) ∧
  Region.Within ⟨x.2,uarea⟩ ⟨base,(c.areas st udata).poolSize⟩ := by
  intro hne x hx
  simp only [Layout.regions,if_neg hne,pairwise_append,pairwise_map] at hpair
  refine ⟨fun y hy => ?_,hin _ ?_⟩
  · exact hpair.2.1.2.2 _ (mem_map_of_mem hy) _ (mem_map_of_mem hx)
  · simp only [Layout.regions,if_neg hne]
    exact mem_append_right _ (mem_append_right _ (mem_map_of_mem hx))
 generalize hmb : base+(c.areas st udata).blockSize+(c.areas st udata).padSize = mb at *
 have hcut := fun {u : Nat → Nat} hu =>
  headers_cut mb st c.hdrNum udata u hu hpos hspos (by omega) (by omega) hfuel.1
 have hsmall : uarea+8 ≤ 2^32 := by
  by_contra hbig
  have hzero : udata = 0 := by
   rw [hudata,roundUp]
   omega
  have hlist := hcut (u := fun _ => 0) fun _ _ => by rw [hzero]; rfl
  rw [if_pos hzero,hlist] at hheaders
  have hmem : (mb,0) ∈ l.headers := by
   rw [← some.inj hheaders]
   exact mem_map.mpr ⟨0,by simpa using hpos,by simp⟩
  have := (harea (by omega) _ hmem).2.1
  simp only at this
  omega
 refine ⟨hpos,?_,hsmall⟩
 by_contra hbig
 have hround := roundUp_lt (show 0 < 8 by decide) uarea
 have hle := le_roundUp (show 0 < 8 by decide) uarea
 rw [mod_eq_of_lt (by omega)] at hudata
 have hud : 0 < udata := pos_of_ne_zero fun h0 => by simp [h0] at hbig
 have hne : uarea ≠ 0 := fun h0 => by simp [hudata,h0,roundUp] at hud
 have hlist :=
  hcut (u := fun i => userAddr (mb+c.hdrNum*st+c.hdrNum*udata%2^32) udata (c.hdrNum-i))
   fun i hi => by
  rw [sub64_userAddr,← Nat.sub_sub,Nat.sub_add_cancel (by omega)]
 have hstart : sub64 (mb+c.hdrNum*st+c.hdrNum*udata%2^32) udata =
  userAddr (mb+c.hdrNum*st+c.hdrNum*udata%2^32) udata (c.hdrNum-(c.hdrNum-1)) := by
  rw [Nat.sub_sub_self hpos,userAddr,sub64,succ_mul,zero_mul,zero_add]
 rw [if_neg (ne_of_gt hud),hstart,hlist] at hheaders
 have hmem : ∀ i < c.hdrNum,
  (mb+i*st,userAddr (mb+c.hdrNum*st+c.hdrNum*udata%2^32) udata (c.hdrNum-i)) ∈ l.headers := by
  intro i hi
  rw [← some.inj hheaders]
  exact mem_map.mpr ⟨i,by simpa using hi,rfl⟩
 obtain ⟨i,hi,r,hr,hval⟩ := userAddr_below (b := mb+c.hdrNum*st) hud (by omega) (not_lt.mp hbig)
 have htop : (c.hdrNum-1)*st+st = c.hdrNum*st := by
  rw [← succ_mul,succ_eq_add_one,Nat.sub_add_cancel hpos]
 obtain ⟨hapart,-,hwithin⟩ := harea hne _ (hmem i hi)
 have hapart := hapart _ (hmem (c.hdrNum-1) (by omega))
 simp only [hval,sub64,Region.Apart,Areas.poolSize,pageSize,cacheLineSize] at *
 omega

end

/-- The memory of a pool is cut into parts that lie apart and inside of it if and only if there is a
header and the sizes of the user areas fit in 32 bits; the memory does not begin below the size of a
header or of a block. -/
theorem pool_layout_disjoint (hcfg : poolConfig stride params = some c)
 (hstride : cacheLineSize ∣ stride params.type) (hspos : 0 < stride params.type)
 (huarea : uareaSize < 2^32) (hlow : stride params.type ≤ base ∧ c.segSize+hdrBackPtrSize ≤ base)
 (hend : base+(c.areas (stride params.type) (udataStride params.type uareaSize)).poolSize ≤ 2^64)
 (hfuel : c.hdrNum ≤ fuel ∧ c.blkNum ≤ fuel) :
 Carved c (stride params.type) (udataStride params.type uareaSize)
  (pUdataSize params.type uareaSize) base fuel ↔
  0 < c.hdrNum ∧ c.hdrNum*udataStride params.type uareaSize < 2^32 ∧
  pUdataSize params.type uareaSize+8 ≤ 2^32 := by
 constructor
 · refine fits_of_carved rfl hcfg hstride hspos hlow hend hfuel ?_ rfl
   unfold pUdataSize
   split_ifs <;> omega
 · rintro ⟨hpos,hudata,hsmall⟩
   refine carved rfl hcfg hstride hspos hlow hend hfuel hpos hudata ?_
   have hround := roundUp_lt (show 0 < 8 by decide) (pUdataSize params.type uareaSize)
   rw [udataStride,mod_eq_of_lt (by omega)]
   exact le_roundUp (by decide) _

theorem pool_layout_disjoint_packet : ∃ l,
 (⟨.packet,2000,4,3,7,3584,1792,1792,128,64,10560⟩ : Config).layout 192 24 1048576 10 = some l ∧
  l.headers.length = 4 ∧ l.blocks.length = 7 ∧ (l.regions 192 20 1792).Pairwise Region.Apart ∧
  ∀ r ∈ l.regions 192 20 1792, r.Within ⟨1048576,16384⟩ :=
 (@pool_layout_disjoint (fun _ => 192) ⟨.packet,3,2000,0⟩ _ 20 1048576 10 (by decide)
  (by decide) (by decide) (by decide) (by decide) (by decide) (by decide)).mpr (by decide)

/-- A pool without buffers gets a header and a block below its memory, because both loops run once.
And the size of two user areas of 2 GiB is 0 in 32 bits, so that they overlap the headers. -/
theorem pool_layout_overlaps :
 (∃ c l, poolConfig (fun _ => 192) ⟨.buffer,0,100,0⟩ = some c ∧ c.layout 192 0 1048576 10 = some l ∧
  c.hdrNum = 0 ∧ l.headers.length = 1 ∧ l.regions 192 0 128 = [⟨1048384,192⟩,⟨1048384,192⟩] ∧
  (c.areas 192 0).poolSize = 0) ∧
 ∃ c l, poolConfig (fun _ => 192) ⟨.packet,1,100,0⟩ = some c ∧ udataStride .packet (2^31) = 2^31 ∧
  c.layout 192 (2^31) (2^33) 10 = some l ∧
  ¬(l.regions 192 (2^31) c.segSize).Pairwise Region.Apart :=
 ⟨⟨⟨.buffer,100,0,0,0,128,128,128,0,0,128⟩,⟨[(1048384,0)],[1048384]⟩,by decide⟩,
  ⟨.packet,100,2,1,2,1792,1792,1792,128,64,10560⟩,
  ⟨[(8589938496,6442455040),(8589938304,4294971392)],[8589936448,8589934592]⟩,by decide⟩

end Whole

-- Where the data of a buffer lies

/-- The offset of `addr[1]` in `odp_buffer_hdr_t`, where a small buffer has its data. -/
def inlineOffset : Nat := 96

/-- `addr[0]` of a header. Headers and blocks are numbered from the bottom of their areas. -/
def Layout.dataAddr (l : Layout) (p : Pool) (h : Nat) : Option Nat :=
 if (p.hdr h).inlined then l.headers.reverse[h]?.map (·.1+inlineOffset)
 else (p.hdr h).blks.head?.bind fun b => l.blocks.reverse[b]?.map (· + hdrBackPtrSize)

section Aligned

variable {stride : PoolType → Nat} {params : PoolParam} {c : Config} {l : Layout}
 {st udata base fuel d : Nat}

/-- Up to a cache line the alignment in use is a multiple of the one asked for and divides the
line. -/
lemma dvd_bufAlign {a : Nat} (hpos : 0 < a) (hle : a ≤ cacheLineSize)
 (hp : BitVec.ofNat 32 a = BitVec.ofNat 32 a &&& ~~~(BitVec.ofNat 32 a-1)) :
 a ∣ bufAlign (BitVec.ofNat 32 a) ∧ bufAlign (BitVec.ofNat 32 a) ∣ cacheLineSize := by
 have hall : ∀ a, a < 65 → 0 < a → BitVec.ofNat 32 a =
  BitVec.ofNat 32 a &&& ~~~(BitVec.ofNat 32 a-1) →
  a ∣ bufAlign (BitVec.ofNat 32 a) ∧ bufAlign (BitVec.ofNat 32 a) ∣ cacheLineSize := by
  decide +kernel
 exact hall a (lt_succ_of_le hle) hpos hp

/-- What `odp_pool_create` makes of an alignment asked for. -/
structure AlignedConfig (params : PoolParam) (c : Config) : Prop where
 valid : ¬4096 < (BitVec.ofNat 32 params.align).toNat ∧
  BitVec.ofNat 32 params.align = BitVec.ofNat 32 params.align &&&
  ~~~(BitVec.ofNat 32 params.align-1)
 dvd : bufAlign (BitVec.ofNat 32 params.align) ∣ c.blkSize
 blocks : maxInlineBuf < c.blkSize → c.segSize = c.blkSize ∧ c.blkSize < 2^32 ∧ c.blkNum = c.hdrNum
 type : c.type = .buffer
 roomSize : c.roomSize = 0
 maxSize : c.maxSize = c.segSize

lemma poolConfig_aligned (hcfg : poolConfig stride params = some c) (htype : params.type = .buffer)
 (hpos : 0 < params.align) : AlignedConfig params c := by
 obtain ⟨⟨hdrNum,blkSize,segLen⟩,hgeo,h⟩ := bind_eq_some_iff.mp hcfg
 simp only [htype] at h
 split at h
 · cases h
 cases h
 have hblk := poolGeometry_blocks hgeo
 simp only [poolGeometry,htype] at hgeo
 split at hgeo
 · cases hgeo
 next hvalid =>
 cases hgeo
 have hreq : reqAlign params = BitVec.ofNat 32 params.align := if_pos htype
 have hround : bufferBlkSize params = alignRoundup params.size (bufAlign (reqAlign params)) :=
  if_pos (.inr (pos_iff_ne_zero.mp hpos))
 rw [hreq,not_or,not_not] at hvalid
 refine ⟨hvalid,?_,fun hbig => ⟨(hblk hbig).alignRoundup_eq,(hblk hbig).lt,?_⟩,rfl,rfl,rfl⟩
 · rw [hround,hreq]
   exact dvd_alignRoundup ..
 · dsimp only at hbig ⊢
   rw [if_neg (not_le.mpr hbig),(hblk hbig).alignRoundup_eq,
    Nat.mul_div_cancel _ (by simp [hdrBackPtrSize])]

/-- The walk down through the block area keeps an alignment that divides the block size. -/
lemma blocks_aligned (hline : d ∣ cacheLineSize) (hblk : d ∣ c.blkSize)
 (hseg : maxInlineBuf < c.blkSize → c.segSize = c.blkSize) (hbase : pageSize ∣ base)
 (hl : c.layout st udata base fuel = some l) : ∀ x ∈ l.blocks, d ∣ x := by
 obtain ⟨headers,-,hl⟩ := bind_eq_some_iff.mp hl
 split at hl
 · cases hl
   nofun
 next hbig =>
 obtain ⟨blocks,hblocks,rfl⟩ := map_eq_some_iff.mp hl
 have hword : d ∣ 2^64 := hline.trans (by decide)
 have hstride : d ∣ c.blkSize+hdrBackPtrSize := dvd_add hblk hline
 have harea : d ∣ (c.areas st udata).blockSize := by
  simp only [Config.areas,if_neg hbig]
  exact (dvd_mod_iff hword).mpr (Dvd.dvd.mul_left hstride _)
 rw [hseg (not_le.mp hbig)] at hblocks
 refine doWhile_invariant (fun x hx => dvd_sub64 hword hx hstride) ?_ hblocks
 exact dvd_sub64 hword (dvd_add ((hline.trans (by decide)).trans hbase) harea) hstride

lemma headers_aligned (hst : cacheLineSize ∣ st) (hbase : pageSize ∣ base)
 (hl : c.layout st udata base fuel = some l) : ∀ x ∈ l.headers, cacheLineSize ∣ x.1 := by
 -- block area and padding together are a number of lines
 have hpad : cacheLineSize ∣ (c.areas st udata).blockSize+(c.areas st udata).padSize := by
  have heq : (c.areas st udata).blockSize+(c.areas st udata).padSize =
   roundUp cacheLineSize (c.areas st udata).blockSize := add_sub_of_le (le_roundUp (by decide) _)
  rw [heq]
  exact dvd_roundUp ..
 have hmdata : cacheLineSize ∣ (c.areas st udata).mdataSize :=
  (dvd_mod_iff (by decide)).mpr (Dvd.dvd.mul_left hst _)
 refine doWhile_invariant (P := fun x : Nat × Nat => cacheLineSize ∣ x.1)
  (fun x hx => dvd_sub64 (by decide) hx hst) ?_ (layout_headers hl)
 refine dvd_sub64 (by decide) (dvd_add ?_ hmdata) hst
 rw [add_assoc]
 exact dvd_add (dvd_trans (by decide) hbase) hpad

-- The constants of a pool stay as they are.

variable {n : Nat}

lemma fit_cfg (s : State n) (t : Fin n) (h totsize : Nat) (cached : Bool) :
 (s.fit t h totsize cached).pool.cfg = s.pool.cfg := by
 simp only [State.fit]
 split <;> rfl

lemma resume_cfg (s : State n) (t : Fin n) (after : After) :
 (s.resume t after).pool.cfg = s.pool.cfg := by
 fun_cases State.resume s t after <;> rfl

lemma Pool.cfg_of_popBlk {p q : Pool} {b : Nat} (h : p.popBlk = some (b,q)) : q.cfg = p.cfg := by
 unfold Pool.popBlk at h
 split at h
 · cases h
 · exact (Prod.mk.inj (some.inj h)).2 ▸ rfl

lemma Pool.cfg_of_popBuf {p q : Pool} {x : Nat} (h : p.popBuf = some (x,q)) : q.cfg = p.cfg := by
 unfold Pool.popBuf at h
 split at h
 · cases h
 · exact (Prod.mk.inj (some.inj h)).2 ▸ rfl

lemma advance_cfg {s s' : State n} {t : Fin n} (hs : s.advance t = some s') :
 s'.pool.cfg = s.pool.cfg := by
 unfold State.advance at hs
 split at hs
 case h_1 => cases hs
 case h_2 =>
  split at hs
  · exact some.inj hs ▸ rfl
  · next hpop => exact some.inj hs ▸ Pool.cfg_of_popBlk hpop
 case h_3 =>
  dsimp only at hs
  split at hs <;> exact some.inj hs ▸ rfl
 case h_4 =>
  split at hs
  · exact some.inj hs ▸ rfl
  · next hpop => exact some.inj hs ▸ Pool.cfg_of_popBuf hpop
 case h_5 => exact some.inj hs ▸ fit_cfg ..
 case h_6 =>
  split at hs <;> exact some.inj hs ▸ rfl
 case h_7 => exact some.inj hs ▸ rfl
 case h_8 => exact some.inj hs ▸ resume_cfg ..

lemma step_cfg {s s' : State n} {a : Action n} (hs : step s a = some s') :
 s'.pool.cfg = s.pool.cfg := by
 cases a with
 | step t => exact advance_cfg hs
 | alloc t size =>
  obtain ⟨-,hs⟩ := ite_none_right_eq_some.mp hs
  cases hs
  unfold State.alloc
  split
  · rfl
  · split
    · exact fit_cfg ..
    · rfl
 | free t h =>
  obtain ⟨-,hs⟩ := ite_none_right_eq_some.mp hs
  cases hs
  simp only [State.free]
  split <;> rfl
 | flush t =>
  obtain ⟨-,hs⟩ := ite_none_right_eq_some.mp hs
  cases hs
  exact resume_cfg ..

lemma reachable_cfg {s : State n} (hcfg : poolConfig stride params = some c)
 (hr : Reachable stride params s) : s.pool.cfg = c := by
 induction hr with
 | start h =>
  obtain ⟨cfg,hcfg',hpos,rfl⟩ := h
  obtain rfl := some.inj (hcfg.symm.trans hcfg')
  rw [State.init,create_eq (poolConfig_ok hcfg) hpos]
  rfl
 | next _ _ hs ih => exact (step_cfg hs).trans ih

lemma aligned_of_le (ha : AlignedConfig params c) (hpos : 0 < params.align)
 (hle : params.align ≤ cacheLineSize)
 (hst : cacheLineSize ∣ st) (hbase : pageSize ∣ base) (hl : c.layout st udata base fuel = some l) :
 (∀ x ∈ l.blocks, params.align ∣ x+hdrBackPtrSize) ∧
 (c.inlined = true → ∀ x ∈ l.headers, params.align ∣ x.1+inlineOffset) := by
 obtain ⟨hd,hline⟩ := dvd_bufAlign hpos hle ha.valid.2
 refine ⟨fun x hx => hd.trans (dvd_add (blocks_aligned hline ha.dvd (fun h => (ha.blocks h).1) hbase
  hl x hx) hline),fun hin x hx => ?_⟩
 simp only [Config.inlined,Config.hdrdata,Bool.and_eq_true,decide_eq_true_eq] at hin
 -- data in a header is 40 bytes at most, so the alignment is 32 at most
 have hsmall : bufAlign (BitVec.ofNat 32 params.align) ∣ 32 := by
  have hall : ∀ d, d < 41 → d ∣ 64 → d ∣ 32 := by decide
  exact hall _ (lt_succ_of_le ((le_of_dvd hin.2 ha.dvd).trans hin.1)) hline
 exact hd.trans (dvd_add (hline.trans (headers_aligned hst hbase hl x hx))
  (hsmall.trans (by decide)))

/-- The first allocation takes the lowest block. -/
lemma exists_first_block (hcfg : poolConfig stride params = some c) (ha : AlignedConfig params c)
 (hpos : 0 < c.hdrNum) (hbig : maxInlineBuf < c.blkSize) (t : Fin n) : ∃ s : State n,
  Reachable stride params s ∧ s.allocated 0 = true ∧ (s.pool.hdr 0).inlined = false ∧
  (s.pool.hdr 0).blks = [0] := by
 obtain ⟨hseg,-,hnum⟩ := ha.blocks hbig
 obtain ⟨k,hk⟩ := exists_eq_succ_of_ne_zero (ne_of_gt hpos)
 have hfree : c.usable = 0::range' 1 k := by
  rw [Config.usable,if_neg (by simp [ha.type]),hk,range'_succ]
 have hblk : range c.blkNum = 0::(range k).map succ := by rw [hnum,hk,range_succ_eq_map]
 have h0 : Reachable stride params (State.init c : State n) := .start ⟨c,hcfg,hpos,rfl⟩
 have h1 :=
  Reachable.runs (.next (a := .alloc t 1) h0 trivial rfl) (runs_bufferAlloc (t := t) rfl 1)
 refine ⟨_,h1,?_⟩
 have hdata : c.hdrdata = false := decide_eq_false (not_le.mpr hbig)
 have hmax : ¬c.maxSize < 1 := by
  rw [ha.maxSize,hseg]
  omega
 have hdone : ¬(c.segSize : Int) < 1 := by omega
 rw [State.init,create_eq (poolConfig_ok hcfg) hpos]
 simp [State.bufferAlloc,State.getLocalBuf,State.getPoolBuf,Pool.getBuf,Pool.popBuf,
  Pool.decBufcount,State.setPool,State.tryGrow,Pool.grow,Pool.growLoop,Pool.getBlk,Pool.popBlk,
  Pool.decBlkcount,Pool.setHdr,State.give,Pool.blank,Config.inlined,hfree,hblk,ha.roomSize,
  hdata,hdone,hmax]

lemma blocks_getElem_zero (hcfg : poolConfig stride params = some c) (ha : AlignedConfig params c)
 (hpos : 0 < c.hdrNum) (hbig : maxInlineBuf < c.blkSize) (hlow : c.segSize+hdrBackPtrSize ≤ base)
 (hend : base+(c.areas st udata).blockSize ≤ 2^64) (hfuel : c.blkNum ≤ fuel)
 (hl : c.layout st udata base fuel = some l) : l.blocks.reverse[0]? = some base := by
 obtain ⟨hseg,hlt,hnum⟩ := ha.blocks hbig
 have hle : c.hdrNum*(c.blkSize+hdrBackPtrSize) ≤ 2^25*(2^32+64) :=
  Nat.mul_le_mul (poolConfig_ok hcfg).hdrNum_le (by simp only [hdrBackPtrSize]; omega)
 have harea : (c.areas st udata).blockSize = c.hdrNum*(c.segSize+hdrBackPtrSize) := by
  simp only [Config.areas,if_neg (not_le.mpr hbig),hseg]
  exact mod_eq_of_lt (by omega)
 have hS : 0 < c.segSize+hdrBackPtrSize := Nat.add_pos_right _ (by decide)
 obtain ⟨headers,-,hl⟩ := bind_eq_some_iff.mp hl
 rw [if_neg (not_le.mpr hbig)] at hl
 obtain ⟨blocks,hblocks,rfl⟩ := map_eq_some_iff.mp hl
 simp only [harea] at hblocks hend
 rw [blocks_cut hS (Nat.le_mul_of_pos_left _ hpos) hlow hend
  (by rw [Nat.mul_div_cancel _ hS]; omega),Nat.mul_div_cancel _ hS,Nat.mul_mod_left] at hblocks
 rw [← some.inj hblocks]
 simp [hpos]

/-- The data of every buffer in every run is aligned as the pool was asked for if and only if that
is up to a cache line, or there is no buffer, or no data because the rounded size wraps around. -/
theorem buffer_aligned {n : Nat} (t : Fin n) (hcfg : poolConfig stride params = some c)
 (htype : params.type = .buffer) (hpos : 0 < params.align) (hword : params.align < 2^32)
 (hst : cacheLineSize ∣ stride .buffer)
 (hbase : pageSize ∣ base) (hlow : c.segSize+hdrBackPtrSize ≤ base)
 (hend : base+(c.areas (stride .buffer) udata).blockSize ≤ 2^64) (hfuel : c.blkNum ≤ fuel)
 (hl : c.layout (stride .buffer) udata base fuel = some l) :
 (∀ s : State n, Reachable stride params s →
  ∀ h addr, s.allocated h = true → l.dataAddr s.pool h = some addr → params.align ∣ addr) ↔
 params.align ≤ cacheLineSize ∨ c.hdrNum = 0 ∨ c.blkSize = 0 := by
 have ha := poolConfig_aligned hcfg htype hpos
 constructor
 · intro hall
   by_contra hnot
   push Not at hnot
   obtain ⟨hlarge,hnum,hsize⟩ := hnot
   have hnat : (BitVec.ofNat 32 params.align).toNat = params.align := by
    rw [BitVec.toNat_ofNat,mod_eq_of_lt hword]
   have h128 : 128 ∣ params.align := by
    have := (dvd_of_validAlign ha.valid.1 ha.valid.2).2
    rw [hnat] at this
    exact this hlarge
   have hblk : 128 ∣ c.blkSize := by
    have hdvd := ha.dvd
    rw [bufAlign,if_neg,hnat,if_neg] at hdvd
    · exact h128.trans hdvd
    · simp only [cacheLineSize] at hlarge
      omega
    · exact fun h0 => by simp [h0] at hnat; omega
   have hbig : maxInlineBuf < c.blkSize := by
    have := le_of_dvd (pos_of_ne_zero hsize) hblk
    simp only [maxInlineBuf]
    omega
   obtain ⟨s,hs,halloc,hin,hblks⟩ := exists_first_block hcfg ha (pos_of_ne_zero hnum) hbig t
   have hfirst := blocks_getElem_zero hcfg ha (pos_of_ne_zero hnum) hbig hlow hend hfuel hl
   have haddr : l.dataAddr s.pool 0 = some (base+hdrBackPtrSize) := by
    simp [Layout.dataAddr,hin,hblks,hfirst]
   have hdvd := h128.trans (hall s hs 0 _ halloc haddr)
   have hsum := (Nat.dvd_add_right (dvd_trans (by decide) hbase)).mp hdvd
   exact absurd hsum (by decide)
 intro hcond s hr h addr _ haddr
 have hin : (s.pool.hdr h).inlined = c.inlined := by
  rw [((reachable_inv hr).sizes.hdr h).inlined,reachable_cfg hcfg hr]
 obtain hle | hnone | hzero := hcond
 · obtain ⟨hblocks,hheaders⟩ := aligned_of_le ha hpos hle hst hbase hl
   unfold Layout.dataAddr at haddr
   split at haddr
   · next hinlined =>
     obtain ⟨x,hx,rfl⟩ := map_eq_some_iff.mp haddr
     exact hheaders (hin ▸ hinlined) x (mem_reverse.mp (mem_of_getElem? hx))
   · obtain ⟨b,-,haddr⟩ := bind_eq_some_iff.mp haddr
     obtain ⟨x,hx,rfl⟩ := map_eq_some_iff.mp haddr
     exact hblocks x (mem_reverse.mp (mem_of_getElem? hx))
 · have hpos := (reachable_inv hr).pos
   rw [reachable_cfg hcfg hr,hnone] at hpos
   exact absurd hpos (lt_irrefl _)
 · -- there are neither blocks nor data in headers
   have hblocks : l.blocks = [] := by
    obtain ⟨headers,-,hl⟩ := bind_eq_some_iff.mp hl
    rw [if_pos (hzero ▸ zero_le _)] at hl
    exact some.inj hl ▸ rfl
   rw [Layout.dataAddr,hin,Config.inlined,hzero,hblocks] at haddr
   simp at haddr

theorem buffer_aligned_allocated : ∃ (l : Layout) (s : State 1),
 (⟨.buffer,100,2,2,2,128,128,128,0,0,128⟩ : Config).layout 192 0 65536 10 = some l ∧
  Reachable (fun _ => 192) ⟨.buffer,2,100,32⟩ s ∧ s.allocated 0 = true ∧
  l.dataAddr s.pool 0 = some 65600 ∧ 32 ∣ 65600 := by
 have h0 : Reachable (fun _ => 192) ⟨.buffer,2,100,32⟩
  (State.init ⟨.buffer,100,2,2,2,128,128,128,0,0,128⟩ : State 1) :=
  .start ⟨_,by decide,by decide,rfl⟩
 obtain ⟨s,hs,halloc,haddr⟩ := h0.exists_of_run [.alloc 0 100,.step 0,.step 0,.step 0,.step 0]
  (fun s => s.allocated 0 = true ∧
   (⟨[(66112,0),(65920,0)],[65728,65536]⟩ : Layout).dataAddr s.pool 0 = some 65600) (by decide)
 refine ⟨⟨[(66112,0),(65920,0)],[65728,65536]⟩,s,by decide,hs,halloc,haddr,?_⟩
 exact (@buffer_aligned (fun _ => 192) ⟨.buffer,2,100,32⟩ ⟨.buffer,100,2,2,2,128,128,128,0,0,128⟩ _
  0 65536 10 1 0
  (by decide) rfl (by decide) (by decide) (by decide) (by decide) (by decide)
   (by decide) (by decide)
  (by decide)).mpr (by decide) s hs 0 65600 halloc haddr

/-- The 64 bytes in front of the data move it off an alignment of 128. -/
theorem buffer_misaligned : ∃ (l : Layout) (s : State 1),
 (∃ c, poolConfig (fun _ => 192) ⟨.buffer,1,100,128⟩ = some c ∧ c.layout 192 0 65536 10 = some l) ∧
  Reachable (fun _ => 192) ⟨.buffer,1,100,128⟩ s ∧ s.allocated 0 = true ∧
  l.dataAddr s.pool 0 = some 65600 ∧ ¬ 128 ∣ 65600 := by
 have h0 : Reachable (fun _ => 192) ⟨.buffer,1,100,128⟩
  (State.init ⟨.buffer,100,1,1,1,128,128,128,0,0,128⟩ : State 1) :=
  .start ⟨_,by decide,by decide,rfl⟩
 obtain ⟨s,hs,halloc,haddr⟩ := h0.exists_of_run [.alloc 0 100,.step 0,.step 0,.step 0,.step 0]
  (fun s => s.allocated 0 = true ∧
   (⟨[(65728,0)],[65536]⟩ : Layout).dataAddr s.pool 0 = some 65600) (by decide)
 exact ⟨⟨[(65728,0)],[65536]⟩,s,⟨_,rfl,by decide⟩,hs,halloc,haddr,by decide⟩

end Aligned

end Packages.BufferPool

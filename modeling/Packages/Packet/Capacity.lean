import Packages.Packet.Geometry

/-!
# What an idle packet pool can give

`odp_pool_create` lays out blocks for `num + 1` packets of the requested length, each block with its
own prefix and without a thought of head- and tailroom. `buffer_alloc` then takes blocks one segment
at a time until the rooms fit as well.
-/

namespace Packages.Packet

open Function World Nat Option List

open BufferPool

variable {m n : Nat}

-- Growing a header

/-- The loop takes `k + 1` blocks when the need is between `k` and `k + 1` segments. -/
lemma growLoop_of_length (h fuel need : Nat) {k : Nat} {p : Pool} (hlow : k*p.cfg.segSize < need)
 (hhigh : need ≤ (k+1)*p.cfg.segSize) (hlen : k+1 ≤ p.blkFree.length) (hfuel : k < fuel) :
 ∃ p', Pool.growLoop h fuel p need = (true,p') ∧ p'.cfg = p.cfg ∧
  p'.blkFree = p.blkFree.drop (k+1) ∧ p'.bufFree = p.bufFree ∧
  ∀ x, x ≠ h → p'.hdr x = p.hdr x := by
 induction k generalizing p fuel need with
 | zero =>
  obtain ⟨fuel,rfl⟩ := exists_eq_succ_of_ne_zero (ne_of_gt hfuel)
  cases hfree : p.blkFree with
  | nil =>
   rw [hfree] at hlen
   exact absurd hlen (not_succ_le_zero _)
  | cons b bs =>
   have hdone : ¬0 < (need : Int)-(p.cfg.segSize : Int) := by omega
   simp only [Pool.growLoop,Pool.getBlk,Pool.popBlk,hfree,map_some,Pool.decBlkcount,if_neg hdone]
   exact ⟨_,rfl,rfl,rfl,rfl,fun x hx => update_of_ne hx ..⟩
 | succ k ih =>
  obtain ⟨fuel,rfl⟩ := exists_eq_add_one_of_ne_zero (ne_zero_of_lt hfuel)
  cases hfree : p.blkFree with
  | nil =>
   rw [hfree] at hlen
   exact absurd hlen (not_succ_le_zero _)
  | cons b bs =>
   rw [hfree,length_cons] at hlen
   rw [succ_mul] at hlow hhigh
   have hmore : 0 < (need : Int)-(p.cfg.segSize : Int) := by omega
   simp only [Pool.growLoop,Pool.getBlk,Pool.popBlk,hfree,map_some,Pool.decBlkcount,if_pos hmore]
   rw [show (need : Int)-(p.cfg.segSize : Int) = ((need-p.cfg.segSize : Nat) : Int) by omega]
   obtain ⟨p',hrun,hcfg,hblk,hbuf,hhdr⟩ := ih fuel (need-p.cfg.segSize)
    (p := Pool.setHdr { p with blkFree := bs, blkcount := dec32 p.blkcount } h
     { p.hdr h with blks := (p.hdr h).blks++[b] })
    (show k*p.cfg.segSize < need-p.cfg.segSize by omega)
    (show need-p.cfg.segSize ≤ (k+1)*p.cfg.segSize by omega)
    (show k+1 ≤ bs.length by omega) (by omega)
   refine ⟨p',hrun,hcfg,hblk,hbuf,fun x hx => (hhdr x hx).trans ?_⟩
   exact update_of_ne hx ..

-- One packet

/-- The pool has headers and blocks for `num` packets of `k + 1` segments, and the thread has
nothing in its cache. -/
structure Stocked (s : State n) (t : Fin n) (k num : Nat) : Prop where
 cache : s.cache t = []
 hdrs : num ≤ s.pool.bufFree.length
 nodup : s.pool.bufFree.Nodup
 empty : ∀ h ∈ s.pool.bufFree, (s.pool.hdr h).size = 0
 blks : num*(k+1) ≤ s.pool.blkFree.length

lemma Stocked.bufferAlloc {s : State n} {t : Fin n} {k num size : Nat}
 (hs : Stocked s t k (num+1)) (hmax : size ≤ s.pool.cfg.maxSize)
 (hlow : k*s.pool.cfg.segSize < size+s.pool.cfg.roomSize)
 (hhigh : size+s.pool.cfg.roomSize ≤ (k+1)*s.pool.cfg.segSize) :
 ∃ h s', s.bufferAlloc t size = (some h,s') ∧ s'.pool.cfg = s.pool.cfg ∧ Stocked s' t k num := by
 obtain ⟨hcache,hhdrs,hnodup,hempty,hblks⟩ := hs
 cases hfree : s.pool.bufFree with
 | nil =>
  rw [hfree] at hhdrs
  simp at hhdrs
 | cons h hs =>
  rw [hfree] at hhdrs hnodup hempty
  obtain ⟨hnotMem,hnodup⟩ := nodup_cons.mp hnodup
  rw [succ_mul] at hblks
  have hsize : (s.pool.hdr h).size = 0 := hempty h mem_cons_self
  let p : Pool := Pool.decBufcount { s.pool with bufFree := hs }
  obtain ⟨p',hrun,hcfg,hblk,hbuf,hhdr⟩ := growLoop_of_length h (p.blkFree.length+1)
   (size+s.pool.cfg.roomSize) (p := p) hlow hhigh
   (show k+1 ≤ s.pool.blkFree.length by omega) (show k < s.pool.blkFree.length+1 by omega)
  have hgrow : p.grow h (size+s.pool.cfg.roomSize) = (true,p') := by
   have hlt : (p.hdr h).size < size+s.pool.cfg.roomSize := by
    show (s.pool.hdr h).size < _
    omega
   rw [Pool.grow,if_pos hlt,← hrun]
   show Pool.growLoop h _ p (_-((s.pool.hdr h).size : Int)) = _
   rw [hsize,Int.natCast_zero,Int.sub_zero]
  refine ⟨h,({ s with pool := p' } : State n).give t h,?_,hcfg,?_⟩
  · rw [State.bufferAlloc,if_neg (not_lt.mpr hmax)]
    simp only [State.getLocalBuf,hcache,State.getPoolBuf,Pool.getBuf,Pool.popBuf,hfree,
     map_some,State.tryGrow,State.setPool]
    rw [show Pool.decBufcount { s.pool with bufFree := hs } = p from rfl,hgrow]
  · have hkeep : ∀ x ∈ hs, ((({ s with pool := p' } : State n).give t h).pool.hdr x) =
     s.pool.hdr x := by
     intro x hx
     have hne : x ≠ h := fun heq => hnotMem (heq ▸ hx)
     exact (update_of_ne hne ..).trans (hhdr x hne)
    have hbuf : (({ s with pool := p' } : State n).give t h).pool.bufFree = hs := hbuf
    refine ⟨hcache,?_,?_,?_,?_⟩
    · rw [hbuf]
      exact le_of_succ_le_succ hhdrs
    · rw [hbuf]
      exact hnodup
    · rw [hbuf]
      intro x hx
      rw [hkeep x hx]
      exact hempty x (mem_cons_of_mem _ hx)
    · show num*(k+1) ≤ p'.blkFree.length
      rw [hblk,length_drop]
      show num*(k+1) ≤ s.pool.blkFree.length-(k+1)
      omega

-- A packet by either call

/-- **Single and multiple allocation.** `odp_packet_alloc` and `odp_packet_alloc_multi` for one
packet succeed alike with the same header, and leave the same packet unless the length is 0 and the
pool's own length is not: `packet_init` comes before `pull_tail` in the one call and after it in the
other. -/
theorem allocMulti_one (w : World m n) (t : Fin n) (p : Fin m) (len : Nat)
 (htype : (w.cfg p).type = .packet) (hbuf : (w.cfg p).bufSize < 2^32) :
 (w.allocMulti t p len 1).1 = some (w.alloc t p len).1.toList ∧
 (w.allocMulti t p len 1).2.pool = (w.alloc t p len).2.pool ∧
 ((∀ h ∈ (w.alloc t p len).1, (w.allocMulti t p len 1).2.pkt p h = (w.alloc t p len).2.pkt p h) ↔
  len ≠ 0 ∨ (w.cfg p).bufSize = 0 ∨ (w.alloc t p len).1 = none) := by
 have hinit : ∀ c b, multiInit c b len (w.reqLen p len) = packetInit c b (w.reqLen p len) ↔
  len ≠ 0 ∨ (w.cfg p).bufSize = 0 := by
  intro c b
  rw [multiInit]
  split_ifs with h0
  · simp only [reqLen,packetInit,PktHdr.pullTail,add32,sub32,h0,if_true,PktHdr.mk.injEq,
     ne_eq,not_true,true_and,false_or]
    omega
  · exact iff_of_true rfl (.inl h0)
 simp only [allocMulti,alloc,htype,State.bufferAllocMulti]
 rcases (w.pool p).bufferAlloc t (w.reqLen p len) with ⟨_ | h,s⟩
 · simp
 · have hcfg : (w.setPool p s).cfg p = s.pool.cfg := by simp [cfg,setPool]
   have hhdr : (w.setPool p s).buf p h = s.pool.hdr h := by simp [buf,setPool]
   simp [setPkt,hcfg,hhdr,hinit]

theorem allocMulti_one_hundred : (demo.allocMulti 0 0 100 1).1 = some [1] ∧
 ∀ h ∈ (demo.alloc 0 0 100).1,
  (demo.allocMulti 0 0 100 1).2.pkt 0 h = (demo.alloc 0 0 100).2.pkt 0 h := by
 obtain ⟨hsame,-,hpkt⟩ := allocMulti_one demo 0 0 100 (by decide) (by decide)
 exact ⟨hsame,hpkt.mpr (by decide)⟩

/-- A packet of no length: one call gives it the length of the pool, the other none. -/
theorem allocMulti_one_zero :
 (demo.alloc 0 0 0).1 = some 1 ∧ (demo.allocMulti 0 0 0 1).1 = some [1] ∧
 ((demo.alloc 0 0 0).2.pkt 0 1).frameLen = 100 ∧
 ((demo.allocMulti 0 0 0 1).2.pkt 0 1).frameLen = 0 := by
 decide

-- Many packets

/-- `num` calls of `odp_packet_alloc` in a row. -/
def World.allocs (w : World m n) (t : Fin n) (p : Fin m) (len : Nat) :
 Nat → List (Option Nat) × World m n
 | 0 => ([],w)
 | num+1 =>
  let r := w.alloc t p len
  let rs := r.2.allocs t p len num
  (r.1::rs.1,rs.2)

section

variable {w : World m n} {t : Fin n} {p : Fin m} {len k num : Nat}

lemma Stocked.allocs (hs : Stocked (w.pool p) t k num) (htype : (w.cfg p).type = .packet)
 (hreq : w.reqLen p len = len) (hmax : len ≤ (w.cfg p).maxSize)
 (hlow : k*(w.cfg p).segSize < len+(w.cfg p).roomSize)
 (hhigh : len+(w.cfg p).roomSize ≤ (k+1)*(w.cfg p).segSize) :
 ∃ hs : List Nat, (w.allocs t p len num).1 = hs.map some := by
 induction num generalizing w with
 | zero => exact ⟨[],rfl⟩
 | succ num ih =>
  obtain ⟨h,s',halloc,hcfg,hs'⟩ := hs.bufferAlloc hmax hlow hhigh
  have hrun : w.alloc t p len =
   (some h,(w.setPool p s').setPkt p h (packetInit s'.pool.cfg (s'.pool.hdr h) len)) := by
   rw [World.alloc,if_neg (not_not.mpr htype),hreq,halloc]
  rw [World.allocs,hrun]
  generalize hw' : (w.setPool p s').setPkt p h (packetInit s'.pool.cfg (s'.pool.hdr h) len) = w'
  have hpool : w'.pool p = s' := by
   rw [← hw']
   exact update_self ..
  have hcfg : w'.cfg p = w.cfg p := by
   rw [World.cfg,hpool]
   exact hcfg
  rw [reqLen,← hcfg] at hreq
  rw [← hcfg] at htype hmax hlow hhigh
  obtain ⟨hs,hrest⟩ := ih (hpool ▸ hs') htype hreq hmax hlow hhigh
  exact ⟨h::hs,by rw [hrest]; rfl⟩

/-- What calls do that all succeed. -/
structure AllocsSpec (w w' : World m n) (p : Fin m) (len : Nat) (hs : List Nat) : Prop where
 ok : Ok w'
 grant : GrantSpec (w.pool p) (w'.pool p) (w.reqLen p len) hs
 nodup : hs.Nodup
 new : ∀ h ∈ hs, w'.Live p h ∧ (w'.pkt p h).frameLen = w.reqLen p len%2^32
 same : ∀ y, w.Live p y → Same w w' p y

lemma Ok.allocs (hw : Ok w) {hs : List Nat} (hrun : (w.allocs t p len num).1 = hs.map some) :
 hs.length = num ∧ AllocsSpec w (w.allocs t p len num).2 p len hs := by
 induction num generalizing w hs with
 | zero =>
  obtain rfl := map_eq_nil_iff.mp hrun.symm
  exact ⟨rfl,hw,⟨hw.inv p,rfl,rfl,fun _ _ => rfl,by simp [World.allocs],by simp,by simp⟩,
   .nil,by simp,fun y hy => ⟨hy,rfl,rfl,rfl⟩⟩
 | succ num ih =>
  cases hs with
  | nil => cases hrun
  | cons h hs =>
   obtain ⟨hh,hrest⟩ := cons.inj hrun
   obtain ⟨hok,hsame,hnew⟩ := hw.alloc t p len
   have hg := alloc_granted hw t p len
   rw [hh] at hg
   obtain ⟨hlive,hfresh⟩ := hnew h hh
   obtain ⟨hlen,hspec⟩ := ih hok hrest
   have hreq : (w.alloc t p len).2.reqLen p len = w.reqLen p len := by rw [reqLen,hg.cfg,reqLen]
   rw [World.allocs]
   refine ⟨congrArg succ hlen,hspec.ok,hg.grant.append (hreq ▸ hspec.grant),
    nodup_cons.mpr ⟨fun hmem => ?_,hspec.nodup⟩,
    fun x hx => ?_,fun y hy => (hsame p y hy).trans (hspec.same y (hsame p y hy).live)⟩
   · have := hspec.grant.fresh h hmem
     simp [hlive.2] at this
   · obtain rfl | hx := mem_cons.mp hx
     · have hkept := hspec.same x hlive
       refine ⟨hkept.live,?_⟩
       rw [hkept.pkt,hg.pkt,if_pos ⟨rfl,mem_cons_self⟩]
       rfl
     · exact hreq ▸ hspec.new x hx

end

-- An idle pool

/-- All headers and all blocks of the pool are free. -/
def Idle (s : State n) : Prop :=
 s.pool.cfg.usable ⊆ s.pool.bufFree ∧ List.range s.pool.cfg.blkNum ⊆ s.pool.blkFree

instance (s : State n) : Decidable (Idle s) := inferInstanceAs (Decidable (_ ∧ _))

/-- The segments that a packet of the pool's length takes with its rooms. -/
def segsNeeded (params : PoolParam) : Nat :=
 (params.size+packetHeadroom+packetTailroom+packetSegLen params.align-1) /
  packetSegLen params.align

/-- The length and its rooms fit into the segments of a header, and the blocks that are laid out for
`num + 1` packets are enough segments for `num`. -/
def Provided (params : PoolParam) : Prop :=
 segsNeeded params ≤ maxSeg ∧
 params.num*segsNeeded params*(packetSegLen params.align+hdrBackPtrSize) ≤
  (params.num+1)*(packetBlkSize params+hdrBackPtrSize)

instance (params : PoolParam) : Decidable (Provided params) := inferInstanceAs (Decidable (_ ∧ _))

variable {params : PoolParam}

lemma poolConfig_eq {stride : PoolType → Nat} {c : Config}
 (h : poolConfig stride params = some c) (htype : params.type = .packet) :
 c.type = .packet ∧ c.bufSize = params.size ∧ c.hdrNum = (params.num+1)%2^32 ∧
 c.bufNum = c.hdrNum-1 ∧ c.blkSize = packetBlkSize params ∧ c.segSize = packetSegLen params.align ∧
 c.maxSize = packetSegLen params.align*maxSeg-packetHeadroom-packetTailroom ∧
 (c.blkNum = if packetBlkSize params ≤ maxInlineBuf then 0 else c.hdrNum *
  (packetBlkSize params+hdrBackPtrSize)/(packetSegLen params.align+hdrBackPtrSize)) := by
 obtain ⟨⟨hdrNum,blkSize,segLen⟩,hgeo,h⟩ := bind_eq_some_iff.mp h
 simp only [poolGeometry,htype] at hgeo
 split_ifs at hgeo
 cases hgeo
 obtain ⟨hlo,hhi,hdvd⟩ := packetSegLen_bounds params.align
 have hround : alignRoundup (packetSegLen params.align) 8 = packetSegLen params.align :=
  alignRoundup_of_dvd (by decide) (by omega) hdvd
 dsimp only at h
 split at h
 · cases h
 · cases h
   simp [htype,hround]

lemma segsNeeded_bounds (params : PoolParam) : ∃ k, segsNeeded params = k+1 ∧
 k*packetSegLen params.align < params.size+packetHeadroom+packetTailroom ∧
 params.size+packetHeadroom+packetTailroom ≤ (k+1)*packetSegLen params.align := by
 obtain ⟨hlo,-,-⟩ := packetSegLen_bounds params.align
 have hpos : 0 < packetSegLen params.align := by omega
 set total := params.size+packetHeadroom+packetTailroom with htotal
 have hge : 192 ≤ total := by
  rw [htotal]
  simp only [packetHeadroom,packetTailroom]
  omega
 have hdiv := div_add_mod (total+packetSegLen params.align-1) (packetSegLen params.align)
 have hmod := mod_lt (total+packetSegLen params.align-1) hpos
 obtain ⟨k,hk⟩ : ∃ k, segsNeeded params = k+1 :=
  exists_eq_succ_of_ne_zero (ne_of_gt (div_pos (by omega) hpos))
 have hval : (total+packetSegLen params.align-1)/packetSegLen params.align = k+1 := hk
 rw [hval,mul_comm,succ_mul] at hdiv
 refine ⟨k,hk,by omega,?_⟩
 rw [succ_mul]
 omega

/-- Blocks in headers are not free. -/
lemma Idle.blks {s : State n} (hi : Inv s) (hs : Idle s) (h : Nat) : (s.pool.hdr h).blks = [] := by
 refine eq_nil_iff_forall_not_mem.mpr fun b hb => ?_
 have hplace : blkAt s (.hdr h) b ≠ 0 := fun h0 => count_eq_zero.mp h0 hb
 have hin := hi.blks.eq_zero (q := .outside) hplace (by simp)
 have hfree := hi.blks.eq_zero (q := .free) hplace (by simp)
 simp only [blkAt,ite_eq_right_iff,one_ne_zero,imp_false,not_le] at hin
 exact count_eq_zero.mp hfree (hs.2 (mem_range.mpr hin))

lemma Idle.stocked {s : State n} {k num : Nat} (hs : Idle s) (hi : Inv s) (hq : s.Quiet)
 (hdata : s.pool.cfg.hdrdata = false) (hnum : num ≤ s.pool.cfg.bufNum)
 (hblk : num*(k+1) ≤ s.pool.cfg.blkNum) (t : Fin n) : Stocked s t k num where
 cache := eq_nil_iff_forall_not_mem.mpr fun h hh => by
  have hplace : hdrAt s (.cache t) h ≠ 0 := fun h0 => count_eq_zero.mp h0 hh
  have hfree := hi.hdrs.eq_zero (q := .free) hplace (by simp)
  exact count_eq_zero.mp hfree (hs.1 (hi.usable_of_mem hplace (by simp) (by simp)))
 hdrs := by
  have := ((nodup_usable _).subperm hs.1).length_le
  rw [length_usable hi.cfg hi.pos] at this
  exact hnum.trans this
 nodup := hi.hdrs.nodup (p := .free) fun _ => rfl
 empty h _ := by
  have hset := hi.sizes.settled_of (x := h) fun u hu => by simp [hq u,Pc.busy] at hu
  rw [hset hdata,hs.blks hi,length_nil,zero_mul]
 blks := by
  have := (nodup_range.subperm hs.2).length_le
  rw [length_range] at this
  exact hblk.trans this

/-- No block is in two headers. -/
lemma length_mul_le_blkNum {s : State n} {hs : List Nat} {k : Nat} (hi : Inv s) (hnodup : hs.Nodup)
 (hk : ∀ x ∈ hs, k ≤ (s.pool.hdr x).blks.length) : hs.length*k ≤ s.pool.cfg.blkNum := by
 have hmem : ∀ {x b : Nat}, b ∈ (s.pool.hdr x).blks → blkAt s (.hdr x) b ≠ 0 :=
  fun hb h0 => count_eq_zero.mp h0 hb
 have hall : (hs.flatMap fun x => (s.pool.hdr x).blks).Nodup := by
  refine nodup_flatMap.mpr ⟨fun x _ => hi.blks.nodup (p := .hdr x) fun _ => rfl,?_⟩
  refine hnodup.imp fun {x y} hxy => disjoint_left.mpr fun b hx hy => hxy ?_
  simpa using hi.blks.unique (hmem hx) (hmem hy)
 have hsub : (hs.flatMap fun x => (s.pool.hdr x).blks) ⊆ List.range s.pool.cfg.blkNum := by
  intro b hb
  obtain ⟨x,-,hb⟩ := mem_flatMap.mp hb
  have hin := hi.blks.eq_zero (q := .outside) (hmem hb) (by simp)
  simpa [blkAt] using hin
 have hlen := (hall.subperm hsub).length_le
 rw [length_range,length_flatMap] at hlen
 refine le_trans ?_ hlen
 simpa [mul_comm] using card_nsmul_le_sum (hs.map fun x => (s.pool.hdr x).blks.length) k
  (by simpa using hk)

lemma lt_packetBlkSize (hprov : Provided params) : maxInlineBuf < packetBlkSize params := by
 obtain ⟨hlo,hhi,-⟩ := packetSegLen_bounds params.align
 obtain ⟨k,hk,-,hle⟩ := segsNeeded_bounds params
 have hsegs : k+1 ≤ maxSeg := hk ▸ hprov.1
 have hsize : params.size ≤ maxSeg*packetSegLen params.align := by
  have := mul_le_mul_right (packetSegLen params.align) hsegs
  omega
 simp only [packetBlkSize,maxInlineBuf]
 simp only [maxSeg] at hsize
 split_ifs with hfit
 · omega
 · have hround : params.size ≤ alignRoundup params.size (packetSegLen params.align) :=
    le_alignRoundup (by omega) (by omega)
   omega

/-- One pool with the given parameters, and one thread. -/
def single (c : Config) : World 1 1 := ⟨fun _ => .init c,fun _ _ => ⟨0,0,0⟩⟩

lemma single_init {c : Config} (h : poolConfig (fun _ => 64) params = some c)
 (hpos : 0 < c.hdrNum) : Init (fun _ => 64) (fun _ => params) (single c) :=
 fun _ => ⟨c,h,hpos,rfl⟩

end Packages.Packet

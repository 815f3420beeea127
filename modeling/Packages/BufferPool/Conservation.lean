import Packages.BufferPool.Preservation

/-!
# Headers and blocks are conserved

The pool that `odp_pool_create` makes has its books in order, so every reachable pool has. When no
thread is inside a call the counters are the lengths of the free lists, and `odp_pool_destroy`
finds out exactly whether a handle is still allocated.
-/

namespace Packages.BufferPool

open State Pool List

variable {n : Nat}

attribute [local simp] blank init hdrAt Pc.hdrs blkAt count_eq_zero

lemma inc32_mod (k : Nat) : inc32 (k%2^32) = (k+1)%2^32 := by
 unfold inc32
 split_ifs <;> omega

lemma foldr_retBuf (cfg : Config) (l : List Nat) : l.foldr (fun h p => p.retBuf h) (blank cfg) =
 { blank cfg with bufFree := l, bufcount := l.length%2^32 } := by
 induction l with
 | nil => rfl
 | cons h l ih =>
  rw [foldr_cons,ih]
  simp only [retBuf,retBlks,pushBuf,incBufcount,setHdr,blank,
   reverse_nil,ite_self,inc32_mod,length_cons,Bool.false_and]
  cases hd : cfg.hdrdata <;> simp [returnsBlks,hd]

lemma foldr_retBlk (p : Pool) (l : List Nat) (hfree : p.blkFree = []) (hcount : p.blkcount = 0) :
 l.foldr (fun b p => p.retBlk b) p = { p with blkFree := l, blkcount := l.length%2^32 } := by
 induction l with
 | nil =>
  cases p
  simp_all
 | cons b l ih =>
  rw [foldr_cons,ih]
  simp only [retBlk,pushBlk,incBlkcount,inc32_mod,length_cons]

/-- The headers that are not kept as packet template. -/
def Config.usable (cfg : Config) : List Nat :=
 if cfg.type = .packet then List.range' 1 (cfg.hdrNum-1) else List.range' 0 cfg.hdrNum

variable {cfg : Config}

lemma create_eq (hok : ConfigOk cfg) (hpos : 0 < cfg.hdrNum) :
 create cfg = { blank cfg with
  bufFree := cfg.usable
  blkFree := range cfg.blkNum
  bufcount := cfg.usable.length
  blkcount := cfg.blkNum } := by
 have hle := hok.hdrNum_le
 have hblk := hok.blkNum_le
 simp only [maxSeg] at hblk
 have hrange : range cfg.hdrNum = 0::range' 1 (cfg.hdrNum-1) := by
  rw [range_eq_range']
  obtain ⟨m,hm⟩ := Nat.exists_eq_succ_of_ne_zero (Nat.pos_iff_ne_zero.mp hpos)
  rw [hm,range'_succ,Nat.succ_sub_one]
 simp only [create,foldr_retBuf]
 rw [foldr_retBlk _ _ rfl rfl]
 by_cases htype : cfg.type = .packet
 · have hdec : dec32 cfg.hdrNum = cfg.hdrNum-1 := by
    unfold dec32
    split_ifs <;> omega
   simp only [htype,if_true,hrange,getBuf,popBuf,decBufcount,Config.usable,
    Option.map_some,Option.elim_some,length_cons,length_range',length_range]
   rw [Nat.sub_add_cancel hpos,Nat.mod_eq_of_lt (by omega),Nat.mod_eq_of_lt (by omega),hdec]
   simp
 · simp only [htype,if_false,Config.usable,length_range',length_range]
   rw [Nat.mod_eq_of_lt (by omega),Nat.mod_eq_of_lt (by omega),range_eq_range']
   simp

lemma mem_usable {h : Nat} :
 h ∈ cfg.usable ↔ h < cfg.hdrNum ∧ ¬ (cfg.type = .packet ∧ h = 0) := by
 unfold Config.usable
 split_ifs with htype
 · rw [mem_range'_1]
   simp only [htype,true_and]
   omega
 · simp [htype]

lemma nodup_usable (cfg : Config) : cfg.usable.Nodup := by
 unfold Config.usable
 split_ifs <;> exact nodup_range'

lemma length_usable (hok : ConfigOk cfg) (hpos : 0 < cfg.hdrNum) :
 cfg.usable.length = cfg.bufNum := by
 have := hok.bufNum_eq hpos
 unfold Config.usable
 split_ifs with htype <;> simp only [htype,if_true,if_false] at this <;> simp <;> omega

lemma init_inv (hok : ConfigOk cfg) (hpos : 0 < cfg.hdrNum) : Inv (init cfg : State n) := by
 have hle := hok.hdrNum_le
 have hblk := hok.blkNum_le
 have hlen := length_usable hok hpos
 have hnum := hok.bufNum_eq hpos
 simp only [maxSeg] at hblk
 refine ⟨?_,?_,?_,?_,?_,?_,⟨fun h => ⟨⟨?_,?_,?_,?_⟩,.inl ?_⟩,fun t => trivial⟩⟩
 · simpa [create_eq hok hpos] using hok
 · simpa [create_eq hok hpos] using hpos
 · refine ⟨fun h => if cfg.hdrNum ≤ h then .outside else
    if cfg.type = .packet ∧ h = 0 then .template else .free,fun p h => ?_⟩
   cases p with
   | free =>
    simp only [hdrAt,init,create_eq hok hpos,(nodup_usable cfg).count,mem_usable]
    split_ifs <;> simp_all
    omega
   | cache t | allocated | hands t => simp; split_ifs <;> simp
   | template | outside =>
    simp only [hdrAt,init,create_eq hok hpos,blank]
    split_ifs <;> simp_all
 · refine ⟨fun b => if cfg.blkNum ≤ b then .outside else .free,fun p b => ?_⟩
   cases p with
   | free =>
    simp only [blkAt,init,create_eq hok hpos,nodup_range.count]
    split_ifs <;> simp_all
    omega
   | hdr h => simp [create_eq hok hpos]; split_ifs <;> simp
   | hands t => simp [Pc.blks]; split_ifs <;> simp
   | outside =>
    simp only [blkAt,init,create_eq hok hpos]
    split_ifs <;> simp_all
 · simp only [init,create_eq hok hpos,Pc.bufOwed,Finset.sum_const_zero]
   omega
 · simp only [init,create_eq hok hpos,Pc.blkOwed,Finset.sum_const_zero,length_range]
   omega
 · simp [create_eq hok hpos]
 · simp [create_eq hok hpos]
 · simp [create_eq hok hpos]
 · intro hd
   simp only [init,create_eq hok hpos,blank] at hd ⊢
   simp [hd]
 · intro hd
   simp only [init,create_eq hok hpos,blank] at hd ⊢
   simp [hd]

-- Destroying a pool

/-- `odp_pool_destroy` on a pool that no thread is using: all local caches are flushed, then the
call fails (`false`) if the free list does not hold every header. -/
def odpPoolDestroy (s : State n) : Bool × Pool :=
 let p := (List.finRange n).foldl (fun p t => (s.cache t).foldl retBuf p) s.pool
 (!decide (p.bufcount < p.cfg.bufNum),p)

lemma retBlks_bufcount (p : Pool) (h : Nat) (l : List Nat) :
 (p.retBlks h l).bufcount = p.bufcount ∧ (p.retBlks h l).cfg = p.cfg := by
 induction l generalizing p with
 | nil => exact ⟨rfl,rfl⟩
 | cons b l ih => exact ih _

lemma retBuf_bufcount (p : Pool) (h : Nat) :
 (p.retBuf h).bufcount = inc32 p.bufcount ∧ (p.retBuf h).cfg = p.cfg := by
 have hr := retBlks_bufcount p h (p.hdr h).blks.reverse
 unfold retBuf
 split_ifs
 · exact ⟨congrArg inc32 hr.1,hr.2⟩
 · exact ⟨rfl,rfl⟩

lemma foldl_retBuf_bufcount (l : List Nat) (p : Pool) (k : Nat) (hk : p.bufcount = k%2^32) :
 (l.foldl retBuf p).bufcount = (k+l.length)%2^32 ∧ (l.foldl retBuf p).cfg = p.cfg := by
 induction l generalizing p k with
 | nil => exact ⟨hk,rfl⟩
 | cons h l ih =>
  obtain ⟨hcount,hcfg⟩ := retBuf_bufcount p h
  obtain ⟨h1,h2⟩ := ih (p.retBuf h) (k+1) (by rw [hcount,hk,inc32_mod])
  refine ⟨?_,h2.trans hcfg⟩
  rw [foldl_cons,h1,length_cons]
  congr 1
  omega

/-- The headers in the local caches. -/
def cached (s : State n) : List Nat := (List.finRange n).flatMap s.cache

lemma odpPoolDestroy_bufcount (s : State n) (k : Nat) (hk : s.pool.bufcount = k%2^32) :
 (odpPoolDestroy s).2.bufcount = (k+(cached s).length)%2^32 ∧
  (odpPoolDestroy s).2.cfg = s.pool.cfg := by
 have hfold : (odpPoolDestroy s).2 = (cached s).foldl retBuf s.pool := by
  rw [cached,foldl_flatMap]
  rfl
 rw [hfold]
 exact foldl_retBuf_bufcount _ _ _ hk

section Quiet

variable {s : State n}

lemma Inv.counts (hi : Inv s) (hq : s.Quiet) (hlen : s.pool.bufFree.length < 2^32)
 (hlen' : s.pool.blkFree.length < 2^32) :
 s.pool.bufcount = s.pool.bufFree.length ∧ s.pool.blkcount = s.pool.blkFree.length := by
 have h1 := hi.bufcount
 have h2 := hi.blkcount
 simp only [hq _,Pc.bufOwed,Pc.blkOwed,Finset.sum_const_zero] at h1 h2
 omega

lemma Inv.nodup_free_cached (hi : Inv s) : (s.pool.bufFree++cached s).Nodup := by
 have hne : ∀ {p q : HdrPlace n} {x : Nat}, hdrAt s p x ≠ 0 → hdrAt s q x ≠ 0 → p = q :=
  fun hp hq => hi.hdrs.unique hp hq
 refine nodup_append'.mpr ⟨hi.hdrs.nodup (p := .free) fun _ => rfl,?_,?_⟩
 · refine nodup_flatMap.mpr ⟨fun t _ => hi.hdrs.nodup (p := .cache t) fun _ => rfl,?_⟩
   refine (nodup_finRange n).imp fun {t u} htu => disjoint_left.mpr fun x ht hu => htu ?_
   have := hne (p := .cache t) (q := .cache u) (by simpa using ht) (by simpa using hu)
   simpa using this
 · refine disjoint_left.mpr fun x hf hc => ?_
   obtain ⟨t,-,ht⟩ := mem_flatMap.mp hc
   have := hne (p := .free) (q := .cache t) (by simpa using hf) (by simpa using ht)
   simp at this

lemma mem_cached {x : Nat} : x ∈ cached s ↔ ∃ t, x ∈ s.cache t := by
 simp [cached]

lemma Inv.usable_of_mem (hi : Inv s) {x : Nat} {p : HdrPlace n} (hp : hdrAt s p x ≠ 0)
 (hout : p ≠ .outside) (htem : p ≠ .template) : x ∈ s.pool.cfg.usable := by
 have h1 := hi.hdrs.eq_zero hp hout.symm
 have h2 := hi.hdrs.eq_zero hp htem.symm
 rw [mem_usable]
 simp only [hdrAt,ite_eq_right_iff,one_ne_zero,imp_false] at h1 h2
 exact ⟨by omega,h2⟩

lemma Inv.free_cached_subset (hi : Inv s) : s.pool.bufFree++cached s ⊆ s.pool.cfg.usable := by
 intro x hx
 rcases mem_append.mp hx with hx | hx
 · exact hi.usable_of_mem (p := .free) (by simpa using hx) (by simp) (by simp)
 · obtain ⟨t,ht⟩ := mem_cached.mp hx
   exact hi.usable_of_mem (p := .cache t) (by simpa using ht) (by simp) (by simp)

lemma Inv.usable_cases (hi : Inv s) (hq : s.Quiet) {x : Nat} (hx : x ∈ s.pool.cfg.usable) :
 x ∈ s.pool.bufFree++cached s ∨ s.allocated x = true := by
 rw [mem_usable] at hx
 obtain ⟨p,hp,-⟩ := hi.hdrs.existsUnique x
 cases p with
 | free =>
  refine .inl (mem_append_left _ (count_pos_iff.mp ?_))
  simp only [hdrAt] at hp
  omega
 | cache t =>
  refine .inl (mem_append_right _ (mem_cached.mpr ⟨t,count_pos_iff.mp ?_⟩))
  simp only [hdrAt] at hp
  omega
 | allocated =>
  simp only [hdrAt,Bool.toNat_eq_one] at hp
  exact .inr hp
 | template => simp [hx.2] at hp
 | hands t => simp [hq t] at hp
 | outside =>
  simp only [hdrAt] at hp
  split_ifs at hp
  omega

lemma Inv.length_free_cached (hi : Inv s) (hq : s.Quiet) :
 s.pool.cfg.usable.length ≤ (s.pool.bufFree++cached s).length ↔
  ∀ x, s.allocated x = false := by
 have hsub := hi.nodup_free_cached.subperm hi.free_cached_subset
 constructor
 · intro hlen x
   by_contra hx
   have hplace : hdrAt s .allocated x ≠ 0 := by simp [hx]
   have hmem := (hsub.perm_of_length_le hlen).mem_iff.mpr
    (hi.usable_of_mem hplace (by simp) (by simp))
   rcases mem_append.mp hmem with hm | hm
   · have := hi.hdrs.eq_zero (q := .free) hplace (by simp)
     simp [hm] at this
   · obtain ⟨t,ht⟩ := mem_cached.mp hm
     have := hi.hdrs.eq_zero (q := .cache t) hplace (by simp)
     simp [ht] at this
 · intro hnone
   refine ((nodup_usable _).subperm fun x hx => ?_).length_le
   exact (hi.usable_cases hq hx).resolve_right (by simp [hnone x])

lemma Inv.segcount_le (hi : Inv s) (x : Nat) : (s.pool.hdr x).segcount ≤ maxSeg := by
 have hok := hi.sizes.hdr x
 unfold BufHdr.segcount
 rw [hok.inlined]
 cases hd : s.pool.cfg.hdrdata with
 | true =>
  rw [hi.blks_of_hdrdata hd]
  split_ifs <;> simp [maxSeg]
 | false => simpa [Config.inlined,hd] using hok.blks_le

lemma Inv.length_blkFree (hi : Inv s) : s.pool.blkFree.length ≤ s.pool.cfg.blkNum := by
 have hsub : s.pool.blkFree ⊆ range s.pool.cfg.blkNum := by
  intro b hb
  have := hi.blks.eq_zero (p := .free) (q := .outside) (by simpa using hb) (by simp)
  simpa using this
 have := ((hi.blks.nodup (p := .free) fun _ => rfl).subperm hsub).length_le
 simpa using this

end Quiet

lemma reachable_inv {stride : PoolType → Nat} {params : PoolParam} {s : State n}
 (h : Reachable stride params s) : Inv s :=
 h.invariant (fun _ ⟨_,hcfg,hpos,hs⟩ => hs ▸ init_inv (poolConfig_ok hcfg) hpos)
  fun _ _ _ => step_inv

/-- **Pool conservation.** No header ever has more than `maxSeg` segments. When no thread is inside
a pool operation, each header is at one of its places, once, each block is on the free list or in
one header, the counters are the lengths of the free lists, and `odp_pool_destroy` succeeds exactly
when no handle is allocated. -/
theorem pool_conserved {stride : PoolType → Nat} {params : PoolParam} {s : State n}
 (h : Reachable stride params s) : (∀ x, (s.pool.hdr x).segcount ≤ maxSeg) ∧ (s.Quiet →
  (∀ x, x < s.pool.cfg.hdrNum → ∃ p : HdrPlace n, (p ≠ .outside ∧ ∀ t, p ≠ .hands t) ∧
   hdrAt s p x = 1 ∧ ∀ q, q ≠ p → hdrAt s q x = 0) ∧
  (∀ b, b < s.pool.cfg.blkNum → ∃ p : BlkPlace n,
   (p = .free ∨ ∃ x, x < s.pool.cfg.hdrNum ∧ p = .hdr x) ∧
   blkAt s p b = 1 ∧ ∀ q, q ≠ p → blkAt s q b = 0) ∧
  s.pool.bufcount = s.pool.bufFree.length ∧ s.pool.blkcount = s.pool.blkFree.length ∧
  ((odpPoolDestroy s).1 = true ↔ ∀ x, s.allocated x = false)) := by
 have hi := reachable_inv h
 have hhdr := hi.cfg.hdrNum_le
 have hblk := hi.cfg.blkNum_le
 simp only [maxSeg] at hblk
 refine ⟨fun x => hi.segcount_le x,fun hq => ?_⟩
 -- the free lists are far shorter than the counters wrap
 have hused := length_usable hi.cfg hi.pos
 have hnum := hi.cfg.bufNum_eq hi.pos
 have htotal := (hi.nodup_free_cached.subperm hi.free_cached_subset).length_le
 rw [length_append] at htotal
 have hblks := hi.length_blkFree
 obtain ⟨hbuf,hblkc⟩ := hi.counts hq (by omega) (by omega)
 refine ⟨fun x hx => ?_,fun b hb => ?_,hbuf,hblkc,?_⟩
 · obtain ⟨p,hp,-⟩ := hi.hdrs.existsUnique x
   refine ⟨p,⟨?_,?_⟩,hp,fun q hq => hi.hdrs.eq_zero (by rw [hp]; decide) hq⟩
   · rintro rfl
     simp only [hdrAt] at hp
     split_ifs at hp
     omega
   · rintro t rfl
     simp [hq t] at hp
 · obtain ⟨p,hp,-⟩ := hi.blks.existsUnique b
   refine ⟨p,?_,hp,fun q hq => hi.blks.eq_zero (by rw [hp]; decide) hq⟩
   cases p with
   | free => exact .inl rfl
   | hdr x =>
    refine .inr ⟨x,?_,rfl⟩
    by_contra hge
    simp [(hi.sizes.hdr x).outside (by omega)] at hp
   | hands t => simp [hq t,Pc.blks] at hp
   | outside =>
    simp only [blkAt] at hp
    split_ifs at hp
    omega
 · obtain ⟨hcount,hcfg⟩ := odpPoolDestroy_bufcount s s.pool.bufFree.length (by omega)
   rw [← hi.length_free_cached hq,length_append,hused]
   have hval : (odpPoolDestroy s).1 =
    !decide ((odpPoolDestroy s).2.bufcount < (odpPoolDestroy s).2.cfg.bufNum) := rfl
   rw [hval,hcount,hcfg,Nat.mod_eq_of_lt (by omega)]
   simp

/-- Two packets of a packet pool are allocated by one thread, one of them is freed by another,
and the pool cannot be destroyed. -/
theorem pool_conserved_packet : ∃ s : State 2, Reachable (fun _ => 64) ⟨.packet,3,100,0⟩ s ∧
 (s.Quiet ∧ s.allocated 1 = true ∧ s.cache 1 = [2] ∧ s.pool.bufFree = [3] ∧
  (s.pool.hdr 1).blks = [0]) ∧ (odpPoolDestroy s).1 = false := by
 have h0 : Reachable (fun _ => 64) ⟨.packet,3,100,0⟩
  (init ⟨.packet,100,4,3,4,1792,1792,1792,128,64,10560⟩ : State 2) :=
  .start ⟨_,by decide,by decide,rfl⟩
 obtain ⟨s,hs,htest⟩ := h0.exists_of_run
  [.alloc 0 100,.step 0,.step 0,.step 0,.step 0,.alloc 0 7,.step 0,.step 0,.step 0,
   .step 0,.free 1 2]
  (fun s => s.Quiet ∧ s.allocated 1 = true ∧ s.cache 1 = [2] ∧ s.pool.bufFree = [3] ∧
   (s.pool.hdr 1).blks = [0]) (by decide)
 refine ⟨s,hs,htest,?_⟩
 have hdestroy := ((pool_conserved hs).2 htest.1).2.2.2.2
 by_contra htrue
 have := hdestroy.mp (by simpa using htrue) 1
 simp [htest.2.1] at this

end Packages.BufferPool

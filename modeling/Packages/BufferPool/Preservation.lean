import Packages.BufferPool.Invariant

/-!
# Every step keeps the books

One lemma for each position a thread can be at, and `step_inv` over all actions. Where an action
passes a header on without a lock in between, the state in which the thread just holds it
(`retBuf h .done`) serves as stepping stone.
-/

namespace Packages.BufferPool

open Function State Pool List Option

variable {n : Nat}

attribute [local simp] blkAt hdrAt setPc setPool setCache succeed count_cons count_eq_zero
 setHdr decBlkcount decBufcount pushBlk dropBlk pushBuf resume
 After.hdrs

section Steps

variable {s s' : State n} {t : Fin n} {h : Nat}

section

variable (hi : Inv s)

include hi

lemma Inv.bufcount_lt : s.pool.bufcount < 2^32 := by
 have := hi.bufcount
 omega

lemma Inv.blkcount_lt : s.pool.blkcount < 2^32 := by
 have := hi.blkcount
 omega

lemma Inv.blks_of_hdrdata (hd : s.pool.cfg.hdrdata = true) (x : Nat) :
 (s.pool.hdr x).blks = [] := by
 rw [eq_nil_iff_forall_not_mem]
 intro b hb
 have := hi.blks.unique (p := .hdr x) (q := .outside) (by simpa using hb)
  (by simp [hi.cfg.inline hd])
 simp at this

section

variable {x : Nat} {p : HdrPlace n} (hp : hdrAt s p x ≠ 0) (hne : ∀ u, p ≠ .hands u) (u : Fin n)

include x p hp hne u

lemma Inv.not_hands : x ∉ (s.pc u).hdrs := by
 have := hi.hdrs.eq_zero hp (hne u).symm
 simpa using this

lemma Inv.not_busy : (s.pc u).busy ≠ some x :=
 fun hb => hi.not_hands hp hne u (Pc.mem_hdrs_of_busy hb)

end

lemma Inv.lt_of_hands (hx : h ∈ (s.pc t).hdrs) : ¬ s.pool.cfg.hdrNum ≤ h := by
 have := hi.hdrs.eq_zero (p := .hands t) (q := .outside) (by simpa using hx) (by simp)
 simpa using this

lemma Inv.others (hx : h ∈ (s.pc t).hdrs) : ∀ u, u ≠ t → h ∉ (s.pc u).hdrs :=
 fun _ hu hm => hu (hands_unique hi.hdrs hx hm)

lemma Inv.settled_of_hands (hx : h ∈ (s.pc t).hdrs) (hb : (s.pc t).busy = none) :
 Settled s.pool h := by
 refine hi.sizes.settled_of fun u hu => ?_
 by_cases hut : u = t
 · subst hut
   simp [hb] at hu
 · exact hi.others hx u hut (Pc.mem_hdrs_of_busy hu)

end

lemma inc32_cast {c : Nat} (h : c < 2^32) : (inc32 c : Int) = (c+1)%2^32 := by
 unfold inc32
 split_ifs <;> push_cast <;> omega

lemma dec32_cast {c : Nat} (h : c < 2^32) : (dec32 c : Int) = (c-1)%2^32 := by
 unfold dec32
 split_ifs <;> push_cast <;> omega

/-- A thread that moves on in the code, keeping what it has in its hands; it may have updated
a counter. -/
lemma Inv.moveOn (hi : Inv s) {p : Pool} {pc : Pc} (hcfg : p.cfg = s.pool.cfg)
 (hhdr : p.hdr = s.pool.hdr) (hfree : p.bufFree = s.pool.bufFree)
 (hfree' : p.blkFree = s.pool.blkFree) (hh : pc.hdrs = (s.pc t).hdrs)
 (hb : pc.blks = (s.pc t).blks)
 (h1 : (p.bufcount : Int) = (s.pool.bufcount+(pc.bufOwed-(s.pc t).bufOwed))%2^32)
 (h2 : (p.blkcount : Int) = (s.pool.blkcount+(pc.blkOwed-(s.pc t).blkOwed))%2^32)
 (hbusy : ∀ y, (s.pc t).busy = some y → Settled s.pool y ∨ pc.busy = some y)
 (hok : PcOk s.pool pc) : Inv ((s.setPool p).setPc t pc) := by
 have ho : OnlyThread t s ((s.setPool p).setPc t pc) :=
  ⟨hcfg,fun u hu => rfl,fun u hu => by simp [hu]⟩
 refine ⟨hcfg ▸ hi.cfg,hcfg ▸ hi.pos,?_,?_,?_,?_,⟨fun x => ?_,fun u => ?_⟩⟩
 · refine custody_hdrs hi.hdrs ho fun x => ?_
   simp [hh,hfree]
 · refine custody_blks hi.blks ho 0 (fun y hy => by simp [hhdr]) fun b => ?_
   simp [hb,hfree',hhdr]
 · rw [sum_owed Pc.bufOwed ho.pc]
   simp only [setPc,setPool,hfree,update_self]
   rw [h1,hi.bufcount]
   omega
 · rw [sum_owed Pc.blkOwed ho.pc]
   simp only [setPc,setPool,hfree',update_self]
   rw [h2,hi.blkcount]
   omega
 · obtain ⟨hbase,hset⟩ := hi.sizes.hdr x
   refine ⟨hbase.of_eq hcfg (congrArg _ (congrFun hhdr x)) (congrArg _ (congrFun hhdr x))
    (congrArg _ (congrFun hhdr x)),?_⟩
   have hkeep : Settled s.pool x → Settled p x := by
    unfold Settled
    rw [hhdr,hcfg]
    exact id
   rcases hset with hset | ⟨u,hu⟩
   · exact .inl (hkeep hset)
   · by_cases hut : u = t
     · subst hut
       rcases hbusy x hu with hset | hb
       · exact .inl (hkeep hset)
       · exact .inr ⟨u,by simpa using hb⟩
     · exact .inr ⟨u,by simpa [hut] using hu⟩
 · have hcongr : ∀ pc, PcOk s.pool pc → PcOk p pc :=
    fun pc h => h.congr hcfg fun x hx => by rw [hhdr]
   by_cases hut : u = t
   · simpa [hut] using hcongr _ hok
   · simpa [hut] using hcongr _ (hi.sizes.pc u)

lemma Inv.move (hi : Inv s) {pc : Pc} (hh : pc.hdrs = (s.pc t).hdrs)
 (hb : pc.blks = (s.pc t).blks) (h1 : pc.bufOwed = (s.pc t).bufOwed)
 (h2 : pc.blkOwed = (s.pc t).blkOwed) (hbusy : ∀ y, (s.pc t).busy = some y → Settled s.pool y ∨
  pc.busy = some y) (hok : PcOk s.pool pc) : Inv (s.setPc t pc) := by
 have hc := hi.bufcount_lt
 have hc' := hi.blkcount_lt
 exact hi.moveOn rfl rfl rfl rfl hh hb (by omega) (by omega) hbusy hok

/-- A header goes from the thread's hands to its cache or to the callers, or the other way. Only
the field `allocator` may change. -/
lemma Inv.handOver (hi : Inv s) {a : Option Nat}
 (hpool : s'.pool = s.pool.setHdr h { s.pool.hdr h with allocator := a })
 (hcache : ∀ u, u ≠ t → s'.cache u = s.cache u) (hpcs : ∀ u, u ≠ t → s'.pc u = s.pc u)
 (hdrs : ∀ y, (s'.cache t).count y+(s'.allocated y).toNat+(s'.pc t).hdrs.count y =
  (s.cache t).count y+(s.allocated y).toNat+(s.pc t).hdrs.count y)
 (hblks : (s'.pc t).blks = (s.pc t).blks) (h1 : (s'.pc t).bufOwed = (s.pc t).bufOwed)
 (h2 : (s'.pc t).blkOwed = (s.pc t).blkOwed) (hfree : ∀ u, u ≠ t → h ∉ (s.pc u).hdrs)
 (hbusy : ∀ y, (s.pc t).busy = some y → y = h) (hset : Settled s.pool h)
 (hok : PcOk s'.pool (s'.pc t)) : Inv s' := by
 have hb := hi.bufcount_lt
 have hb' := hi.blkcount_lt
 refine hi.step {
  only := ⟨by rw [hpool]; rfl,hcache,hpcs⟩
  hdr := fun y hy => by simp [hpool,hy]
  hdrs := fun y => by
   have := hdrs y
   simp only [hpool,setHdr]
   omega
  blks := fun b => by simp [hpool,hblks]
  bufcount := by
   simp [hpool]
   omega
  blkcount := by
   simp [hpool]
   omega
  free := hfree
  busy := hbusy
  hdrOk := ⟨(hi.sizes.hdr h).of_eq (by rw [hpool]; rfl) (by simp [hpool]) (by simp [hpool])
   (by simp [hpool]),.inl (by simpa [Settled,hpool] using hset)⟩
  pcOk := hok }

lemma setHdr_self (p : Pool) (h : Nat) :
 p = p.setHdr h { p.hdr h with allocator := (p.hdr h).allocator } := by simp

attribute [local simp] Pc.hdrs Pc.blks Pc.bufOwed Pc.blkOwed Pc.busy

lemma Inv.popCache (hi : Inv s) {hs : List Nat} (hpc : s.pc t = .idle)
 (hc : s.cache t = h::hs) : Inv ((s.setCache t hs).setPc t (.retBuf h .done)) := by
 have hp : hdrAt s (.cache t) h ≠ 0 := by simp [hc]
 have hset := hi.sizes.settled_of (hi.not_busy hp (by simp))
 refine hi.handOver (t := t) (setHdr_self _ h) (fun u hu => by simp [hu])
  (fun u hu => by simp [hu]) (fun y => ?_) (by simp [hpc]) (by simp [hpc])
  (by simp [hpc]) (fun u _ => hi.not_hands hp (by simp) u) (by simp [hpc]) hset
  (by simpa [PcOk,After.Ok] using .inr hset)
 simp [hpc,hc]
 omega

lemma Inv.succeed (hi : Inv s) (hpc : s.pc t = .retBuf h .done) (hset : Settled s.pool h) :
 Inv (s.succeed t h) := by
 have hmem : h ∈ (s.pc t).hdrs := by simp [hpc]
 have hfree := hands_not_allocated hi.hdrs hmem
 refine hi.handOver rfl (fun u hu => rfl) (fun u hu => by simp [hu]) (fun y => ?_)
  (by simp [hpc]) (by simp [hpc]) (by simp [hpc]) (hi.others hmem)
  (fun y hy => by simpa [hpc] using hy.symm) hset (by simp [PcOk])
 by_cases hy : y = h
 · subst hy
   simp [hpc,hfree]
 · simp [hpc,hy,Ne.symm hy]

lemma Inv.fit (hi : Inv s) (totsize : Nat) (cached : Bool) (hpc : s.pc t = .retBuf h .done)
 (hset : Settled s.pool h) (hfits : Fits s.pool totsize) : Inv (s.fit t h totsize cached) := by
 simp only [State.fit]
 split_ifs with hlt
 case neg => exact hi.succeed hpc hset
 have htotal := hi.cfg.total_le
 refine hi.move (by simp [hpc]) (by simp [hpc]) (by simp [hpc]) (by simp [hpc])
  (fun y hy => .inl (by simp only [hpc,Pc.busy,some.injEq] at hy; exact hy ▸ hset))
  ⟨hfits,by omega,?_,fun htype => ⟨hset,?_⟩⟩
 · simp only [Fits,maxSeg] at hfits htotal ⊢
   cases hd : s.pool.cfg.hdrdata with
   | true =>
    rw [hi.blks_of_hdrdata hd]
    simp only [length_nil]
    omega
   | false =>
    have hsize : ((s.pool.hdr h).size : Int) =
     (s.pool.hdr h).blks.length*s.pool.cfg.segSize := by
     rw [hset hd]
     push_cast
     rfl
    omega
 · have := hi.cfg.unsegmented htype
   unfold Fits at hfits
   omega

lemma fit_setPc (s : State n) (t : Fin n) (h totsize : Nat) (cached : Bool) (pc : Pc) :
 (s.setPc t pc).fit t h totsize cached = s.fit t h totsize cached := by
 simp [fit]

lemma Inv.alloc (hi : Inv s) {size : Nat} (hpc : s.pc t = .idle) : Inv (s.alloc t size) := by
 unfold State.alloc
 split_ifs with hmax
 · exact hi
 have hfits : Fits s.pool (size+s.pool.cfg.roomSize) := by
  unfold Fits
  omega
 cases hc : s.cache t with
 | nil =>
  exact hi.move (by simp [hpc]) (by simp [hpc]) (by simp [hpc])
   (by simp [hpc]) (by simp [hpc]) hfits
 | cons h hs =>
  have hp : hdrAt s (.cache t) h ≠ 0 := by simp [hc]
  have hset := hi.sizes.settled_of (hi.not_busy hp (by simp))
  have := (hi.popCache hpc hc).fit (t := t) (size+s.pool.cfg.roomSize) true (by simp) hset hfits
  rwa [fit_setPc] at this

lemma Inv.take (hi : Inv s) (hpc : s.pc t = .idle) (ha : s.allocated h = true) :
 Inv ({ s with allocated := update s.allocated h false }.setPc t (.retBuf h .done)) := by
 have hp : hdrAt s .allocated h ≠ 0 := by simp [ha]
 have hset := hi.sizes.settled_of (hi.not_busy hp (by simp))
 refine hi.handOver (t := t) (setHdr_self _ h) (fun u hu => rfl) (fun u hu => by simp [hu])
  (fun y => ?_) (by simp [hpc]) (by simp [hpc]) (by simp [hpc])
  (fun u _ => hi.not_hands hp (by simp) u) (by simp [hpc]) hset
  (by simpa [PcOk,After.Ok] using .inr hset)
 by_cases hy : y = h
 · subst hy
   simp [hpc,ha]
 · simp [hpc,hy,Ne.symm hy]

lemma Inv.pushCache (hi : Inv s) (hpc : s.pc t = .retBuf h .done) (hset : Settled s.pool h) :
 Inv { s with
  pool := s.pool.setHdr h { s.pool.hdr h with allocator := none }
  cache := update s.cache t (h::s.cache t)
  pc := update s.pc t .idle } := by
 have hmem : h ∈ (s.pc t).hdrs := by simp [hpc]
 refine hi.handOver rfl (fun u hu => by simp [hu]) (fun u hu => by simp [hu])
  (fun y => ?_) (by simp [hpc]) (by simp [hpc]) (by simp [hpc])
  (hi.others hmem) (fun y hy => by simpa [hpc] using hy.symm) hset (by simp [PcOk])
 simp [hpc]
 omega

lemma Inv.free (hi : Inv s) (hpc : s.pc t = .idle) (ha : s.allocated h = true) :
 Inv (s.free t h) := by
 have htake := hi.take hpc ha
 have hp : hdrAt s .allocated h ≠ 0 := by simp [ha]
 have hset := hi.sizes.settled_of (hi.not_busy hp (by simp))
 unfold State.free
 simp only
 split_ifs
 · exact htake
 · have := htake.pushCache (t := t) (by simp) hset
   convert this using 1
   simp [← hpc]

variable {cached : Bool} {needed : Int} {totsize : Nat}

/-- The step of `get_blk` under the lock, and what follows if there is no block. -/
lemma Inv.advance_grow (hi : Inv s)
 (hpc : s.pc t = .grow h needed totsize cached) (hs : s.advance t = some s') : Inv s' := by
 have hmem : h ∈ (s.pc t).hdrs := by simp [hpc]
 have hok := hi.sizes.pc t
 rw [hpc] at hok
 simp only [advance,hpc,popBlk] at hs
 cases hf : s.pool.blkFree with
 | nil =>
  simp only [hf,some.injEq] at hs
  subst hs
  have hret : s.pool.returnsBlks = true ∨ Settled s.pool h := by
   by_cases htype : s.pool.cfg.type = .buffer
   · exact .inr (hok.2.2.2 htype).1
   · cases hd : s.pool.cfg.hdrdata with
     | true => exact .inr fun hd' => by simp [hd] at hd'
     | false => simp [returnsBlks,hd,htype]
  refine hi.move ?_ (by simp [hpc]) (by simp [hpc]) (by simp [hpc]) (by simp [hpc]) ⟨hret,?_⟩
  · cases cached <;> simp [hpc]
  · cases cached
    · trivial
    · exact hok.1
 | cons b bs =>
  simp only [hf,some.injEq] at hs
  subst hs
  have hb := hi.bufcount_lt
  have hb' := hi.blkcount_lt
  have hh := hi.sizes.hdr h
  refine hi.step {
   only := ⟨rfl,fun u hu => rfl,fun u hu => by simp [hu]⟩
   hdr := fun y hy => rfl
   hdrs := fun y => by simp [hpc]
   blks := fun c => by
    simp [hpc,hf]
    omega
   bufcount := by
    simp [hpc]
    omega
   blkcount := by
    simp [hpc,hf]
    omega
   free := hi.others hmem
   busy := fun y hy => by simpa [hpc] using hy.symm
   hdrOk := ⟨hh.of_eq rfl rfl rfl rfl,.inr ⟨t,by simp⟩⟩
   pcOk := by
    simp only [setPc,update_self]
    exact hok }

lemma blks_lt_of_needed {len seg : Nat} (hpos : 0 < needed)
 (hle : (len*seg : Int)+needed ≤ maxSeg*seg) : len < maxSeg := by
 by_contra hge
 have : (maxSeg*seg : Int) ≤ len*seg :=
  Int.mul_le_mul_of_nonneg_right (by exact_mod_cast Nat.le_of_not_lt hge) (Int.natCast_nonneg _)
 omega

section

variable (hi : Inv s)

include hi

lemma Inv.hdrdata_of_gotBlk {b : Nat} (hb : b ∈ (s.pc t).blks) : s.pool.cfg.hdrdata = false := by
 by_contra hd
 have := hi.blks.unique (p := .hands t) (q := .outside) (by simpa using hb)
  (by simp [hi.cfg.inline (by simpa using hd)])
 simp at this

lemma Inv.inlined_of_hdrdata (hd : s.pool.cfg.hdrdata = false) :
 (s.pool.hdr h).inlined = false := by
 rw [(hi.sizes.hdr h).inlined]
 simp [Config.inlined,hd]

lemma Inv.putBlk {b : Nat}
 (hpc : s.pc t = .gotBlk h b needed totsize cached) (hdr : BufHdr) (pc : Pc)
 (hblks : hdr.blks = (s.pool.hdr h).blks++[b]) (hinl : hdr.inlined = (s.pool.hdr h).inlined)
 (hh : pc.hdrs = [h]) (hb : pc.blks = []) (h1 : pc.bufOwed = 0) (h2 : pc.blkOwed = 0)
 (hset : Settled (s.pool.decBlkcount.setHdr h hdr) h ∨ pc.busy = some h)
 (hok : PcOk (s.pool.decBlkcount.setHdr h hdr) pc) :
 Inv ((s.setPool (s.pool.decBlkcount.setHdr h hdr)).setPc t pc) := by
 have hmem : h ∈ (s.pc t).hdrs := by simp [hpc]
 obtain ⟨-,hpos,hle,-⟩ : PcOk s.pool (.gotBlk h b needed totsize cached) := hpc ▸ hi.sizes.pc t
 have hlen := blks_lt_of_needed hpos hle
 have hc := hi.bufcount_lt
 have hc' := hi.blkcount_lt
 refine hi.step {
  only := ⟨rfl,fun u hu => rfl,fun u hu => by simp [hu]⟩
  hdr := fun y hy => by simp [hy]
  hdrs := fun y => by
   simp [hpc,hh,-Pc.hdrs]
   simp
  blks := fun c => by
   simp [hpc,hb,hblks,-Pc.blks]
   simp [add_assoc]
  bufcount := by
   simp [hpc,h1,-Pc.bufOwed]
   simp
   omega
  blkcount := by
   simp [hpc,h2,dec32_cast hc',-Pc.blkOwed]
   simp
   omega
  free := hi.others hmem
  busy := fun y hy => by simpa [hpc] using hy.symm
  hdrOk := {
   inlined := by
    simpa [hinl] using (hi.sizes.hdr h).inlined
   blks_le := by
    simpa [hblks] using Nat.succ_le_of_lt hlen
   outside := fun hout => absurd hout (hi.lt_of_hands hmem)
   inlineSize := fun hd => by
    have hno := hi.hdrdata_of_gotBlk (t := t) (b := b) (by simp [hpc])
    exact absurd hd (by simp [hno])
   settled := hset.imp_right fun hb => ⟨t,by simpa using hb⟩ }
  pcOk := by simpa using hok }

lemma Inv.advance_gotBlk {b : Nat}
 (hpc : s.pc t = .gotBlk h b needed totsize cached) (hs : s.advance t = some s') : Inv s' := by
 obtain ⟨hfits,hpos,hle,hbuf⟩ : PcOk s.pool (.gotBlk h b needed totsize cached) :=
  hpc ▸ hi.sizes.pc t
 have hinl := hi.inlined_of_hdrdata (h := h)
  (hi.hdrdata_of_gotBlk (t := t) (b := b) (by simp [hpc]))
 simp only [advance,hpc] at hs
 split at hs
 · next hmore =>
   cases hs
   refine hi.putBlk hpc _ _ rfl rfl rfl rfl rfl rfl (.inr rfl) ?_
   simp only [PcOk,setHdr,decBlkcount,update_self,length_append,length_cons,length_nil]
   refine ⟨hfits,hmore,?_,fun htype => absurd (hbuf htype).2 (by omega)⟩
   push_cast
   rw [Int.add_mul]
   omega
 · cases hs
   -- the header is settled again before it goes to the caller
   have hmid := hi.putBlk hpc ⟨(s.pool.hdr h).allocator,
    ((s.pool.hdr h).blks.length+1)*s.pool.cfg.segSize,false,(s.pool.hdr h).blks++[b]⟩
    (.retBuf h .done) rfl hinl.symm rfl rfl rfl rfl (.inr rfl)
    ⟨.inr (by simp [Settled]),trivial⟩
   have hdone := hmid.succeed (t := t) (h := h) (by simp) (by simp [Settled])
   convert hdone using 1
   simp [BufHdr.segcount,hinl]

lemma Inv.advance_getBuf (hpc : s.pc t = .getBuf totsize)
 (hs : s.advance t = some s') : Inv s' := by
 have hok : Fits s.pool totsize := by
  have := hi.sizes.pc t
  rwa [hpc] at this
 simp only [advance,hpc,popBuf] at hs
 cases hf : s.pool.bufFree with
 | nil =>
  simp only [hf,some.injEq] at hs
  subst hs
  exact hi.move (by simp [hpc]) (by simp [hpc]) (by simp [hpc])
   (by simp [hpc]) (by simp [hpc]) trivial
 | cons x xs =>
  simp only [hf,some.injEq] at hs
  subst hs
  have hp : hdrAt s .free x ≠ 0 := by simp [hf]
  have hc := hi.bufcount_lt
  have hc' := hi.blkcount_lt
  have hh := hi.sizes.hdr x
  refine hi.step (t := t) (x := x) {
   only := ⟨rfl,fun u hu => rfl,fun u hu => by simp [hu]⟩
   hdr := fun y hy => rfl
   hdrs := fun y => by
    simp [hpc,hf]
    omega
   blks := fun c => by simp [hpc]
   bufcount := by
    simp [hpc,hf]
    omega
   blkcount := by
    simp [hpc]
    omega
   free := fun u hu => hi.not_hands hp (by simp) u
   busy := fun y hy => by simp [hpc] at hy
   hdrOk := ⟨hh.of_eq rfl rfl rfl rfl,.inl (hi.sizes.settled_of (hi.not_busy hp (by simp)))⟩
   pcOk := by
    simp only [setPc,setPool,update_self]
    exact hok }

lemma Inv.advance_gotBuf (hpc : s.pc t = .gotBuf h totsize)
 (hs : s.advance t = some s') : Inv s' := by
 have hmem : h ∈ (s.pc t).hdrs := by simp [hpc]
 have hok : Fits s.pool totsize := by
  have := hi.sizes.pc t
  rwa [hpc] at this
 have hset := hi.settled_of_hands hmem (by simp [hpc])
 simp only [advance,hpc,some.injEq] at hs
 subst hs
 have hc := hi.bufcount_lt
 have hc' := hi.blkcount_lt
 have hmid : Inv ((s.setPool s.pool.decBufcount).setPc t (.retBuf h .done)) := by
  refine hi.moveOn rfl rfl rfl rfl (by simp [hpc]) (by simp [hpc]) ?_ ?_
   (by simp [hpc]) ⟨.inr hset,trivial⟩
  · simp [hpc,dec32_cast hc]
    omega
  · simp [hpc]
    omega
 have := hmid.fit (t := t) totsize false (by simp) hset hok
 rwa [fit_setPc] at this

variable {after : After}

lemma Inv.advance_retBuf (hpc : s.pc t = .retBuf h after)
 (hs : s.advance t = some s') : Inv s' := by
 have hmem : h ∈ (s.pc t).hdrs := by simp [hpc]
 obtain ⟨hret,hafter⟩ : PcOk s.pool (.retBuf h after) := hpc ▸ hi.sizes.pc t
 have hc := hi.bufcount_lt
 have hc' := hi.blkcount_lt
 have hh := hi.sizes.hdr h
 have hbusy : ∀ y, (s.pc t).busy = some y → y = h := fun y hy => by
  simpa [hpc] using hy.symm
 simp only [advance,hpc] at hs
 split at hs
 · next b htrue hlast =>
   cases hs
   obtain ⟨bs,hbs⟩ := getLast?_eq_some_iff.mp hlast
   have hlen := hh.blks_le
   rw [hbs,length_append] at hlen
   refine hi.step {
    only := ⟨rfl,fun u hu => rfl,fun u hu => by simp [hu]⟩
    hdr := fun y hy => by
     simp [hy]
    hdrs := fun y => by
     simp [hpc]
    blks := fun c => by
     simp [hpc,hbs]
     omega
    bufcount := by
     simp [hpc]
     omega
    blkcount := by
     simp [hpc]
     omega
    free := hi.others hmem
    busy := hbusy
    hdrOk := {
     inlined := by
      simpa using hh.inlined
     blks_le := by
      simp only [setPc,setPool,pushBlk,dropBlk,setHdr,update_self,hbs,dropLast_concat]
      omega
     outside := fun hout => absurd hout (hi.lt_of_hands hmem)
     inlineSize := by
      simpa using hh.inlineSize
     settled := .inr ⟨t,by simp⟩ }
    pcOk := by
     simp only [setPc,update_self]
     refine ⟨.inl htrue,?_⟩
     cases after <;> exact hafter }
 · next hnone =>
   cases hs
   -- all blocks are gone, or stay with the header
   have hset : Settled (s.pool.pushBuf h) h := by
    intro hd
    simp only [pushBuf]
    cases hr : s.pool.returnsBlks with
    | true =>
     have hnil : (s.pool.hdr h).blks = [] := by
      cases hb : (s.pool.hdr h).blks.getLast? with
      | none => exact getLast?_eq_none_iff.mp hb
      | some b => exact absurd hb (hnone b hr)
     simp [hnil]
    | false => simpa using hret.resolve_left (by simp [hr]) hd
   refine hi.step {
    only := ⟨rfl,fun u hu => rfl,fun u hu => by simp [hu]⟩
    hdr := fun y hy => by simp [hy]
    hdrs := fun y => by
     simp [hpc]
     omega
    blks := fun c => by simp [hpc]
    bufcount := by
     simp [hpc]
     omega
    blkcount := by
     simp [hpc]
     omega
    free := hi.others hmem
    busy := hbusy
    hdrOk := {
     inlined := by
      simpa using hh.inlined
     blks_le := by
      simpa using hh.blks_le
     outside := fun hout => absurd hout (hi.lt_of_hands hmem)
     inlineSize := fun hd => by
      have hkeep : s.pool.returnsBlks = false := by
       simp [returnsBlks,show s.pool.cfg.hdrdata = true from hd]
      simpa [hkeep] using hh.inlineSize hd
     settled := .inl hset }
    pcOk := by
     simp only [setPc,update_self]
     cases after <;> exact hafter }

lemma Inv.advance_retBlkInc (hpc : s.pc t = .retBlkInc h after)
 (hs : s.advance t = some s') : Inv s' := by
 have hok : PcOk s.pool (.retBlkInc h after) := hpc ▸ hi.sizes.pc t
 have hc := hi.bufcount_lt
 have hc' := hi.blkcount_lt
 simp only [advance,hpc,some.injEq] at hs
 subst hs
 refine hi.moveOn rfl rfl rfl rfl (by simp [hpc]) (by simp [hpc]) ?_ ?_ (by simp [hpc]) hok
 · simp [hpc,incBlkcount]
   omega
 · simp [hpc,incBlkcount,inc32_cast hc']

lemma Inv.advance_retBufInc (hpc : s.pc t = .retBufInc after)
 (hs : s.advance t = some s') : Inv s' := by
 have hok : after.Ok s.pool := by
  have := hi.sizes.pc t
  rwa [hpc] at this
 have hc := hi.bufcount_lt
 have hc' := hi.blkcount_lt
 simp only [advance,hpc,some.injEq] at hs
 subst hs
 -- the next position holds the rest of the list and owes nothing
 have hnext : ∀ pc : Pc, pc.hdrs = after.hdrs → pc.blks = [] → pc.bufOwed = 0 → pc.blkOwed = 0 →
  PcOk s.pool pc → Inv ((s.setPool s.pool.incBufcount).setPc t pc) := by
  intro pc hh hb h1 h2 hpcok
  refine hi.moveOn rfl rfl rfl rfl (by rw [hh,hpc]; rfl) (by rw [hb,hpc]; rfl) ?_ ?_
   (by simp [hpc]) hpcok
  · rw [h1]
    simp [hpc,incBufcount,inc32_cast hc]
  · rw [h2]
    simp [hpc,incBufcount]
    omega
 cases after with
 | done => exact hnext .idle rfl rfl rfl rfl trivial
 | retry totsize => exact hnext (.getBuf totsize) rfl rfl rfl rfl hok
 | flush rest =>
  cases rest with
  | nil => exact hnext .idle rfl rfl rfl rfl trivial
  | cons x xs =>
   have hmem : x ∈ (s.pc t).hdrs := by simp [hpc]
   have hset := hi.settled_of_hands hmem (by simp [hpc])
   exact hnext (.retBuf x (.flush xs)) rfl rfl rfl rfl ⟨.inr hset,trivial⟩

lemma Inv.flush (hpc : s.pc t = .idle) : Inv (s.flush t) := by
 unfold State.flush
 cases hc : s.cache t with
 | nil =>
  have hsame : s.setCache t [] = s := by
   simp [← hc]
  rw [hsame]
  exact hi.move (by simp [hpc]) (by simp [hpc]) (by simp [hpc])
   (by simp [hpc]) (by simp [hpc]) trivial
 | cons x xs =>
  have hp : hdrAt s (.cache t) x ≠ 0 := by simp [hc]
  have hset := hi.sizes.settled_of (hi.not_busy hp (by simp))
  refine hi.handOver (t := t) (setHdr_self _ x) (fun u hu => by simp [hu])
   (fun u hu => by simp [hu]) (fun y => ?_) (by simp [hpc]) (by simp [hpc])
   (by simp [hpc]) (fun u _ => hi.not_hands hp (by simp) u) (by simp [hpc])
   hset (by simpa [PcOk,After.Ok] using .inr hset)
  simp [hpc,hc]
  omega

lemma Inv.advance (hs : s.advance t = some s') : Inv s' := by
 cases hpc : s.pc t with
 | idle => simp [State.advance,hpc] at hs
 | grow h needed totsize cached => exact hi.advance_grow hpc hs
 | gotBlk h b needed totsize cached => exact hi.advance_gotBlk hpc hs
 | getBuf totsize => exact hi.advance_getBuf hpc hs
 | gotBuf h totsize => exact hi.advance_gotBuf hpc hs
 | retBuf h after => exact hi.advance_retBuf hpc hs
 | retBlkInc h after => exact hi.advance_retBlkInc hpc hs
 | retBufInc after => exact hi.advance_retBufInc hpc hs

end

lemma step_inv {a : Action n} (hi : Inv s) (hok : CallerOk s a) (hs : step s a = some s') :
 Inv s' := by
 cases a with
 | alloc t size =>
  simp only [step] at hs
  split at hs
  · next hpc => exact some.inj hs ▸ hi.alloc hpc
  · simp at hs
 | free t x =>
  simp only [step] at hs
  split at hs
  · next hpc => exact some.inj hs ▸ hi.free hpc hok
  · simp at hs
 | flush t =>
  simp only [step] at hs
  split at hs
  · next hpc => exact some.inj hs ▸ hi.flush hpc
  · simp at hs
 | step t => exact hi.advance hs

end Steps

end Packages.BufferPool

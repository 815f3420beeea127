import Packages.BufferPool.Carving
import Packages.BufferPool.Sequential

/-!
# Which handles are valid

`validate_buf` finds the pool of a handle, checks that its index is that of a header and then looks
at the mark that `buffer_alloc` sets in a header and both ways of freeing clear. A packet pool has
one header more than packets, which the check on the index does not know.
-/

namespace Packages.BufferPool

open Function State Pool

attribute [local simp] setHdr Pc.hdrs setPc setPool

/-- The index that `odp_buffer_encode_handle` puts into a handle: cache lines from the first header
on, in 25 bits. -/
def handleIndex (stride h : Nat) : Nat := h*stride/cacheLineSize%2^25

/-- `validate_buf` of a header of a live pool, whose handle has the pool's number and segment 0. It
compares with `params.buf.num`, in the place of `params.pkt.num`. -/
def validateBuf (p : Pool) (stride num h : Nat) : Bool :=
 let bufStride := stride/cacheLineSize
 if handleIndex stride h%bufStride ≠ 0 ∨ num ≤ handleIndex stride h/bufStride then false
 else (p.hdr h).allocator.isSome

def odpBufferIsValid (p : Pool) (stride num h : Nat) : Bool := validateBuf p stride num h

def odpPacketIsValid (p : Pool) (stride num h : Nat) : Bool :=
 validateBuf p stride num h && decide (p.cfg.type = .packet)

/-- The mark of a header: set while a caller has it, and only then unless a thread is about to clear
it. -/
structure Marks {n : Nat} (s : State n) : Prop where
 set : ∀ h, s.allocated h = true → (s.pool.hdr h).allocator.isSome = true
 held : ∀ h, (s.pool.hdr h).allocator.isSome = true → s.allocated h = true ∨ ∃ t, h ∈ (s.pc t).hdrs

namespace Marks

variable {n : Nat} {s s' : State n} {t : Fin n} {h : Nat}

section

variable (hm : Marks s)

include hm

/-- A step of a thread that hands over or takes back the headers in `l`. -/
lemma of_step (l : List Nat) (hpc : ∀ u, u ≠ t → s'.pc u = s.pc u)
 (hsame : ∀ x, x ∉ l → (s'.pool.hdr x).allocator = (s.pool.hdr x).allocator ∧
  s'.allocated x = s.allocated x ∧ (x ∈ (s.pc t).hdrs → x ∈ (s'.pc t).hdrs))
 (hnew : ∀ x ∈ l, (s'.pool.hdr x).allocator.isSome = s'.allocated x ∨
  s'.allocated x = false ∧ x ∈ (s'.pc t).hdrs) : Marks s' := by
 refine ⟨fun x hx => ?_,fun x hx => ?_⟩
 · by_cases hl : x ∈ l
   · obtain heq | ⟨hfalse,-⟩ := hnew x hl
     · rw [heq,hx]
     · rw [hx] at hfalse
       cases hfalse
   · obtain ⟨ha,hall,-⟩ := hsame x hl
     rw [ha]
     exact hm.set x (hall ▸ hx)
 · by_cases hl : x ∈ l
   · obtain heq | ⟨-,hmem⟩ := hnew x hl
     · exact .inl (heq ▸ hx)
     · exact .inr ⟨t,hmem⟩
   · obtain ⟨ha,hall,hsub⟩ := hsame x hl
     obtain hx | ⟨u,hu⟩ := hm.held x (ha ▸ hx)
     · exact .inl (hall ▸ hx)
     · by_cases hut : u = t
       · exact .inr ⟨t,hsub (hut ▸ hu)⟩
       · exact .inr ⟨u,hpc u hut ▸ hu⟩

lemma keep (hpc : ∀ u, u ≠ t → s'.pc u = s.pc u)
 (hhdr : ∀ x, (s'.pool.hdr x).allocator = (s.pool.hdr x).allocator)
 (hall : s'.allocated = s.allocated) (hsub : ∀ x ∈ (s.pc t).hdrs, x ∈ (s'.pc t).hdrs) : Marks s' :=
 hm.of_step [] hpc (fun x _ => ⟨hhdr x,congrFun hall x,hsub x⟩) nofun

lemma succeed (hsub : ∀ x ∈ (s.pc t).hdrs, x = h) : Marks (s.succeed t h) := by
 refine hm.of_step [h] (fun u hu => update_of_ne hu ..) (fun x hx => ?_) fun x hx => ?_
 · have hxh : x ≠ h := fun heq => hx (by simp [heq])
   simpa [State.succeed,hxh] using fun hmem => hxh (hsub x hmem)
 · simp [State.succeed,List.mem_singleton.mp hx]

lemma fit (totsize : Nat) (cached : Bool) (hsub : ∀ x ∈ (s.pc t).hdrs, x = h) :
 Marks (s.fit t h totsize cached) := by
 simp only [State.fit]
 split
 · exact hm.keep (fun u hu => update_of_ne hu ..) (fun _ => rfl) rfl fun x hx => by
    simp [hsub x hx]
 · exact hm.succeed hsub

lemma advance (hi : Inv s) (hs : s.advance t = some s') : Marks s' := by
 have hothers : ∀ (s : State n) (pc : Pc) (u : Fin n), u ≠ t → (s.setPc t pc).pc u = s.pc u :=
  fun s pc u hu => update_of_ne hu ..
 unfold State.advance at hs
 split at hs
 case h_1 => cases hs
 case h_2 hpc =>
  split at hs
  · cases hs
    refine hm.keep (hothers s _) (fun _ => rfl) rfl fun x hx => ?_
    simpa [hpc] using .inl (by simpa [hpc] using hx)
  · next hpop =>
    cases hs
    refine hm.keep (hothers _ _) (fun x => ?_) rfl (by simp [hpc])
    show (_ : BufHdr).allocator = _
    rw [setPc,setPool,hdr_of_popBlk hpop]
 case h_3 h b needed totsize cached hpc =>
  have hkeep : ∀ hdr : BufHdr, hdr.allocator = (s.pool.hdr h).allocator →
   Marks (s.setPool (s.pool.decBlkcount.setHdr h hdr)) := by
   intro hdr heq
   refine hm.keep (t := t) (fun _ _ => rfl) (fun x => ?_) rfl fun x hx => hx
   by_cases hx : x = h
   · simp [hx,heq]
   · simp [decBlkcount,hx]
  dsimp only at hs
  split at hs
  · cases hs
    have hm' := hkeep { s.pool.hdr h with blks := (s.pool.hdr h).blks++[b] } rfl
    exact hm'.keep (hothers _ _) (fun _ => rfl) rfl (by simp [hpc])
  · cases hs
    refine succeed (hkeep _ ?_) (by simp [hpc])
    rfl
 case h_4 hpc =>
  split at hs
  · cases hs
    exact hm.keep (hothers s _) (fun _ => rfl) rfl (by simp [hpc])
  · next hpop =>
    cases hs
    refine hm.keep (hothers _ _) (fun x => ?_) rfl (by simp [hpc])
    rw [setPc,setPool,hdr_of_popBuf hpop]
 case h_5 hpc =>
  cases hs
  have hm' : Marks (s.setPool s.pool.decBufcount) :=
   hm.keep (t := t) (fun _ _ => rfl) (fun _ => rfl) rfl fun x hx => hx
  exact hm'.fit _ _ (by simp [hpc])
 case h_6 h after hpc =>
  split at hs
  · cases hs
    refine hm.keep (hothers _ _) (fun x => ?_) rfl (by simp [hpc])
    by_cases hx : x = h <;> simp [dropBlk,pushBlk,hx]
  · -- the header goes to the free list without its mark
    cases hs
    have hfalse := hands_not_allocated hi.hdrs (show h ∈ (s.pc t).hdrs by simp [hpc])
    refine hm.of_step [h] (hothers _ _) (fun x hx => ?_) fun x hx => .inl ?_
    · have hxh : x ≠ h := fun heq => hx (by simp [heq])
      simp [pushBuf,hxh,hpc]
    · simp [pushBuf,List.mem_singleton.mp hx,hfalse]
 case h_7 hpc =>
  cases hs
  exact hm.keep (hothers _ _) (fun _ => rfl) rfl (by simp [hpc])
 case h_8 after hpc =>
  cases hs
  fun_cases resume (s.setPool s.pool.incBufcount) t after <;>
   exact hm.keep (hothers _ _) (fun _ => rfl) rfl (by simp [hpc,After.hdrs])

lemma step (hi : Inv s) {a : Action n} (hs : BufferPool.step s a = some s') : Marks s' := by
 have hothers : ∀ (s : State n) (t : Fin n) (pc : Pc) (u : Fin n), u ≠ t →
  (s.setPc t pc).pc u = s.pc u :=
  fun s t pc u hu => update_of_ne hu ..
 cases a with
 | step t => exact hm.advance hi hs
 | alloc t size =>
  obtain ⟨hidle,hs⟩ := Option.ite_none_right_eq_some.mp hs
  cases hs
  unfold alloc
  split
  · exact hm
  · split
    · have hm' : ∀ l, Marks (s.setCache t l) := fun l =>
       hm.keep (t := t) (fun _ _ => rfl) (fun _ => rfl) rfl fun x hx => hx
      exact (hm' _).fit _ _ (by simp [setCache,hidle])
    · exact hm.keep (hothers s t _) (fun _ => rfl) rfl (by simp [hidle])
 | free t h =>
  obtain ⟨hidle,hs⟩ := Option.ite_none_right_eq_some.mp hs
  cases hs
  have hne : ∀ x, x ∉ [h] → x ≠ h := fun x hx heq => hx (by simp [heq])
  simp only [free]
  split
  · refine hm.of_step [h] (hothers _ t _) (fun x hx => ?_) fun x hx => .inr ?_
    · simp [hne x hx,hidle]
    · simp [List.mem_singleton.mp hx]
  · refine hm.of_step (t := t) [h] (fun _ _ => rfl) (fun x hx => ?_) fun x hx => .inl ?_
    · simp [hne x hx]
    · simp [List.mem_singleton.mp hx]
 | flush t =>
  obtain ⟨hidle,hs⟩ := Option.ite_none_right_eq_some.mp hs
  cases hs
  unfold flush
  fun_cases resume (s.setCache t []) t (.flush (s.cache t)) <;>
   exact hm.keep (hothers _ t _) (fun _ => rfl) rfl (by simp [hidle])

end

end Marks

section Valid

variable {n : Nat} {stride : PoolType → Nat} {params : PoolParam} {c : Config}
 {s : State n} {h : Nat}

lemma reachable_marks (hr : Reachable stride params s) : Marks s := by
 refine And.right (hr.invariant (P := fun s => Inv s ∧ Marks s) (fun s h0 => ?_)
  fun s s' a ⟨hi,hm⟩ hok hs => ⟨step_inv hi hok hs,hm.step hi hs⟩)
 · obtain ⟨cfg,hcfg,hpos,rfl⟩ := h0
   refine ⟨init_inv (poolConfig_ok hcfg) hpos,nofun,fun h hh => ?_⟩
   simp [init,create_eq (poolConfig_ok hcfg) hpos,blank] at hh

lemma reachable_exists (hr : Reachable stride params s) :
 ∃ c, poolConfig stride params = some c := by
 induction hr with
 | start h => exact ⟨_,h.choose_spec.1⟩
 | next _ _ _ ih => exact ih

lemma poolConfig_headers (hcfg : poolConfig stride params = some c) :
 c.type = params.type ∧ c.hdrNum ≤ maxBuffers/(stride params.type/cacheLineSize) ∧
  c.hdrNum ≤ params.num+if params.type = .packet then 1 else 0 := by
 obtain ⟨⟨hdrNum,blkSize,segLen⟩,hgeo,hc⟩ := Option.bind_eq_some_iff.mp hcfg
 simp only at hc
 split at hc
 · cases hc
 cases hc
 simp only [poolGeometry] at hgeo
 split at hgeo
 · cases hgeo
 split at hgeo <;> simp_all
 rw [← hgeo.2.1]
 exact Nat.mod_le ..

lemma handleIndex_eq {st : Nat} (hst : cacheLineSize ∣ st) (hpos : 0 < st)
 (hh : h < maxBuffers/(st/cacheLineSize)) : handleIndex st h = h*(st/cacheLineSize) := by
 obtain ⟨k,rfl⟩ := hst
 have hk : 0 < k := Nat.pos_of_mul_pos_left hpos
 rw [Nat.mul_div_cancel_left _ (by decide)] at hh ⊢
 have hlt := (Nat.lt_div_iff_mul_lt hk).mp hh
 rw [handleIndex,mul_left_comm,Nat.mul_div_cancel_left _ (by decide)]
 exact Nat.mod_eq_of_lt (lt_of_lt_of_le hlt (Nat.sub_le ..))

/-- Between the calls of any number of threads, a header is valid exactly while it is allocated, but
the last one of a packet pool never. -/
theorem handle_valid_iff (hr : Reachable stride params s) (hq : s.Quiet)
 (hst : cacheLineSize ∣ stride params.type) (hpos : 0 < stride params.type)
 (hh : h < s.pool.cfg.hdrNum) :
 (odpBufferIsValid s.pool (stride params.type) params.num h = true ↔
  s.allocated h = true ∧ ¬(params.type = .packet ∧ h = params.num)) ∧
 (odpPacketIsValid s.pool (stride params.type) params.num h = true ↔
  (s.allocated h = true ∧ h ≠ params.num) ∧ params.type = .packet) := by
 obtain ⟨c,hcfg⟩ := reachable_exists hr
 obtain ⟨htype,hlimit,hnum⟩ := poolConfig_headers hcfg
 rw [reachable_cfg hcfg hr] at hh
 have hm := reachable_marks hr
 have hmark : (s.pool.hdr h).allocator.isSome = true ↔ s.allocated h = true := by
  refine ⟨fun hsome => (hm.held h hsome).resolve_right ?_,hm.set h⟩
  rintro ⟨t,ht⟩
  rw [hq t] at ht
  cases ht
 have hk : 0 < stride params.type/cacheLineSize := Nat.div_pos (Nat.le_of_dvd hpos hst) (by decide)
 have hlast : h < params.num ↔ ¬(params.type = .packet ∧ h = params.num) := by
  split at hnum
  · next hpkt => rw [and_iff_right hpkt]; omega
  · next hpkt => exact iff_of_true (by omega) fun heq => hpkt heq.1
 have hvalid : validateBuf s.pool (stride params.type) params.num h = true ↔
  s.allocated h = true ∧ ¬(params.type = .packet ∧ h = params.num) := by
  rw [validateBuf,handleIndex_eq hst hpos (Nat.lt_of_lt_of_le hh hlimit)]
  rw [Nat.mul_mod_left,Nat.mul_div_cancel _ hk,← hlast,← hmark]
  split_ifs with hbad
  · simp only [false_iff]
    omega
  · exact ⟨fun h => ⟨h,by omega⟩,And.left⟩
 refine ⟨hvalid,?_⟩
 rw [odpPacketIsValid,Bool.and_eq_true,hvalid,decide_eq_true_iff,reachable_cfg hcfg hr,htype]
 exact and_congr_left fun hpkt => and_congr_right' (by simp [hpkt])

theorem handle_valid_iff_packet : ∃ s : State 1, Reachable (fun _ => 320) ⟨.packet,2,100,0⟩ s ∧
 odpPacketIsValid s.pool 320 2 1 = true ∧ s.allocated 1 = true ∧
 odpPacketIsValid s.pool 320 2 0 = false := by
 have h0 : Reachable (fun _ => 320) ⟨.packet,2,100,0⟩
  (init ⟨.packet,100,3,2,3,1792,1792,1792,128,64,10560⟩ : State 1) :=
  .start ⟨_,by decide,by decide,rfl⟩
 obtain ⟨s,hs,hq,hnum,halloc,hfree⟩ :=
  h0.exists_of_run [.alloc 0 100,.step 0,.step 0,.step 0,.step 0]
  (fun s => s.Quiet ∧ s.pool.cfg.hdrNum = 3 ∧ s.allocated 1 = true ∧ s.allocated 0 = false)
   (by decide)
 have hvalid : ∀ h, h < 2 → (odpPacketIsValid s.pool 320 2 h = true ↔
  (s.allocated h = true ∧ h ≠ 2) ∧ PoolType.packet = .packet) :=
  fun h hh => (handle_valid_iff hs hq (by decide) (by decide) (by omega)).2
 refine ⟨s,hs,(hvalid 1 (by decide)).mpr ⟨⟨halloc,by decide⟩,rfl⟩,halloc,Bool.eq_false_iff.mpr
  fun htrue => ?_⟩
 rw [((hvalid 0 (by decide)).mp htrue).1.1] at hfree
 cases hfree

/-- The only packet of a pool for one packet is never valid. -/
theorem last_packet_invalid :
 ∃ s : State 1, Reachable (fun _ => 320) ⟨.packet,1,100,0⟩ s ∧ s.Quiet ∧
 s.allocated 1 = true ∧ odpBufferIsValid s.pool 320 1 1 = false ∧
  odpPacketIsValid s.pool 320 1 1 = false := by
 have h0 : Reachable (fun _ => 320) ⟨.packet,1,100,0⟩
  (init ⟨.packet,100,2,1,2,1792,1792,1792,128,64,10560⟩ : State 1) :=
  .start ⟨_,by decide,by decide,rfl⟩
 exact h0.exists_of_run [.alloc 0 100,.step 0,.step 0,.step 0,.step 0] _ (by decide)

end Valid

end Packages.BufferPool

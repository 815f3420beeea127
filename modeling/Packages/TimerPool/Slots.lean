import Packages.Lib.Linked
import Packages.TimerPool.Steps

/-!
# The slots of a timer pool

The free list is a stack: what has ever been allocated comes back in front of the slots from the
high watermark on, which are still in their first order. So the count `num_alloc`, from which the
watermark is raised, is the index of the next fresh slot whenever one is taken.
-/

namespace Packages.TimerPool

open Function List

/-- The free list of the pool, apart from which there are the timers of the callers and those on
their way back. -/
structure FreeList (s : State) (fl : List Nat) : Prop where
 linked : Linked id (fun i => (s.tp.timers i).queue) s.tp.firstFree fl s.tp.numTimers
 nodup : fl.Nodup
 mem : ∀ i, i ∈ fl ↔ i < s.tp.numTimers ∧ s.live i = false ∧ ∀ t, s.freeing t ≠ some i
 count : fl.length+s.tp.numAlloc = s.tp.numTimers
 fresh : ∃ used, fl = used++range' s.tp.highWm (s.tp.numTimers-s.tp.highWm) ∧
  ∀ i ∈ used, i < s.tp.highWm
 highWm : s.tp.highWm ≤ s.tp.numTimers
 liveLt : ∀ i, s.live i = true → i < s.tp.numTimers
 freeingDead : ∀ t i, s.freeing t = some i → i < s.tp.numTimers ∧ s.live i = false
 freeingInj : ∀ t u i, s.freeing t = some i → s.freeing u = some i → t = u

attribute [local simp] Pool.allocated Pool.setTimer Pool.setTickBuf timerFreeInsert

variable {s s' : State} {fl : List Nat} {v : ResetVariant} {isTimeout : Event → Bool} {i : Nat}

lemma linked_range (n : Nat) : ∀ m k, k+m = n →
 Linked id (fun i => i+1) k (range' k m) n := by
 intro m
 induction m with
 | zero =>
  intro k hk
  simpa using hk
 | succ m ih =>
  intro k hk
  exact ⟨rfl,ih (k+1) (by omega)⟩

lemma live_of_handle {hdl idx : Nat} (hl : NamesLive s hdl) (hi : handleToIdx hdl s.tp = some idx) :
 s.live idx = true := by
 simp only [handleToIdx] at hi
 split at hi
 · exact Option.some.inj hi ▸ hl.2
 · simp at hi

namespace FreeList

section

variable (h : FreeList s fl)

include h

lemma lt_highWm (hi : i < s.tp.numTimers) (hfree : i ∉ fl) :
 i < s.tp.highWm := by
 obtain ⟨used,rfl,-⟩ := h.fresh
 by_contra hge
 exact hfree (mem_append_right _ (mem_range'_1.mpr (by omega)))

lemma numAlloc_ne_zero (hi : i < s.tp.numTimers) (hfree : i ∉ fl) :
 s.tp.numAlloc ≠ 0 := by
 have hsub : i::fl ⊆ range s.tp.numTimers :=
  cons_subset.mpr ⟨mem_range.mpr hi,fun j hj => mem_range.mpr ((h.mem j).mp hj).1⟩
 have hlen := ((nodup_cons.mpr ⟨hfree,h.nodup⟩).subperm hsub).length_le
 have hcount := h.count
 simp only [length_cons,length_range] at hlen
 omega

lemma alloc (q : QueueHdl) (up : Nat) (hlt : s.tp.numAlloc < s.tp.numTimers) :
 ∃ fl', FreeList { s with
  tp := s.tp.allocated q up
  live := update s.live s.tp.firstFree true } fl' := by
 obtain ⟨hlink,hnd,hmem,hlen,⟨used,hfl,hused⟩,hwm,hlive,hfreeing,hinj⟩ := h
 cases fl with
 | nil =>
  rw [length_nil] at hlen
  omega
 | cons j js =>
 obtain ⟨hj,hlink⟩ := hlink
 simp only [id] at hj
 obtain ⟨hjlt,hjdead,hjfree⟩ := (hmem j).mp mem_cons_self
 obtain ⟨hjs,hnd⟩ := nodup_cons.mp hnd
 have hne : ∀ i ∈ js, i ≠ j := fun i hi => ne_of_mem_of_not_mem hi hjs
 rw [length_cons] at hlen
 refine ⟨js,?_,hnd,fun i => ?_,?_,?_,?_,fun i hi => ?_,fun t i hi => ?_,hinj⟩
 · rw [Pool.allocated,hj]
   exact hlink.congr fun i hi => by simp [hne i hi]
 · by_cases hij : i = j
   · simp [hj,hij,hjs]
   · simpa [hj,hij] using hmem i
 · simp only [Pool.allocated,Pool.setTimer,Pool.setTickBuf]
   omega
 · simp only [Pool.allocated,Pool.setTimer,Pool.setTickBuf]
   cases used with
   | nil =>
    -- every slot below the watermark is taken, and the next one is the watermark
    have hcount := congrArg length hfl
    simp only [length_cons,nil_append,length_range'] at hcount
    obtain ⟨k,hk⟩ : ∃ k, s.tp.numTimers-s.tp.highWm = k+1 := ⟨js.length,by omega⟩
    rw [nil_append,hk,range'_succ,cons.injEq] at hfl
    refine ⟨[],?_,by simp⟩
    rw [if_pos (by omega),show s.tp.numAlloc+1 = s.tp.highWm+1 by omega,nil_append,hfl.2]
    congr 1
    omega
   | cons u used =>
    rw [cons_append,cons.injEq] at hfl
    obtain ⟨rfl,htail⟩ := hfl
    have hcount := congrArg length htail
    simp only [length_append,length_range'] at hcount
    rw [if_neg (by omega)]
    exact ⟨used,htail,fun i hi => hused i (mem_cons_of_mem _ hi)⟩
 · simp only [Pool.allocated,Pool.setTimer,Pool.setTickBuf]
   split
   · omega
   · exact hwm
 · by_cases hij : i = j
   · exact hij ▸ hjlt
   · exact hlive i (by simpa [hj,hij] using hi)
 · have hij : i ≠ j := fun hij => hjfree t (hij ▸ hi)
   simpa [hj,hij] using hfreeing t i hi

lemma firstFree_dead (hlt : s.tp.numAlloc < s.tp.numTimers) :
 s.live s.tp.firstFree = false := by
 obtain ⟨hlink,-,hmem,hlen,-⟩ := h
 cases fl with
 | nil =>
  rw [length_nil] at hlen
  omega
 | cons j js => exact hlink.1 ▸ ((hmem j).mp mem_cons_self).2.1

lemma free {t : Thread} {idx : Nat} (x : Nat) (n : Notifier)
 (hidle : s.freeing t = none) (hlive : s.live idx = true) :
 FreeList { s.takenOut idx x with
  freeing := update s.freeing t (some idx)
  live := update s.live idx false
  notifier := n } fl := by
 -- nobody else is freeing this timer, which is still live
 have hfresh : ∀ u, s.freeing u ≠ some idx := by
  intro u hu
  simpa [hlive] using (h.freeingDead u idx hu).2
 refine ⟨h.linked,h.nodup,fun i => (h.mem i).trans (and_congr_right fun _ => ?_),h.count,h.fresh,
  h.highWm,fun i hi => ?_,fun u i hu => ?_,fun u w i hu hw => ?_⟩
 · by_cases hi : i = idx
   · subst hi
     refine ⟨fun hold => ?_,fun hnew => absurd (update_self ..) (hnew.2 t)⟩
     simp [hlive] at hold
   · simp only [update_of_ne hi]
     refine and_congr_right fun _ => forall_congr' fun u => ?_
     by_cases hu : u = t
     · simp [hu,hidle,Ne.symm hi]
     · simp [hu]
 · by_cases hii : i = idx
   · simp [hii] at hi
   · exact h.liveLt i (by simpa [hii] using hi)
 · by_cases hut : u = t
   · obtain rfl : idx = i := by simpa [hut] using hu
     exact ⟨h.liveLt _ hlive,by simp⟩
   · have hu : s.freeing u = some i := by simpa [hut] using hu
     obtain ⟨hlt,hdead⟩ := h.freeingDead u i hu
     have hii : i ≠ idx := fun hii => hfresh u (hii ▸ hu)
     exact ⟨hlt,by simpa [hii] using hdead⟩
 · by_cases hut : u = t <;> by_cases hwt : w = t
   · rw [hut,hwt]
   · obtain rfl : idx = i := by simpa [hut] using hu
     exact absurd (by simpa [hwt] using hw) (hfresh w)
   · obtain rfl : idx = i := by simpa [hwt] using hw
     exact absurd (by simpa [hut] using hu) (hfresh u)
   · exact h.freeingInj u w i (by simpa [hut] using hu) (by simpa [hwt] using hw)

lemma freeInsert {t : Thread} {idx : Nat} (ht : s.freeing t = some idx) :
 FreeList { s with
  tp := timerFreeInsert s.tp idx
  freeing := update s.freeing t none } (idx::fl) := by
 obtain ⟨hlt,hdead⟩ := h.freeingDead t idx ht
 have hmem : idx ∉ fl := fun hm => ((h.mem idx).mp hm).2.2 t ht
 have hcount := h.count
 have hpos := h.numAlloc_ne_zero hlt hmem
 -- the other threads' timers are not this one
 have hothers : ∀ u i, update s.freeing t none u = some i ↔ u ≠ t ∧ s.freeing u = some i := by
  intro u i
  by_cases hut : u = t <;> simp [hut]
 obtain ⟨used,hfl,hused⟩ := h.fresh
 refine ⟨⟨rfl,?_⟩,nodup_cons.mpr ⟨hmem,h.nodup⟩,fun i => ?_,?_,
  ⟨idx::used,congrArg (idx::·) hfl,fun i hi => ?_⟩,h.highWm,h.liveLt,fun u i hu => ?_,
  fun u w i hu hw => ?_⟩
 · simp only [timerFreeInsert,Pool.setTimer,update_self]
   exact h.linked.congr fun i hi => by simp [ne_of_mem_of_not_mem hi hmem]
 · rw [mem_cons,h.mem i]
   by_cases hi : i = idx
   · subst hi
     refine iff_of_true (.inl rfl) ⟨hlt,hdead,fun u hu => ?_⟩
     obtain ⟨hut,hu⟩ := (hothers u i).mp hu
     exact hut (h.freeingInj u t i hu ht)
   · simp only [hi,false_or]
     refine and_congr_right fun _ => and_congr_right fun _ => forall_congr' fun u => ?_
     by_cases hu : u = t
     · simp [hu,ht,Ne.symm hi]
     · simp [hu]
 · simp
   omega
 · rcases mem_cons.mp hi with rfl | hi
   · exact h.lt_highWm hlt hmem
   · exact hused i hi
 · exact h.freeingDead u i ((hothers u i).mp hu).2
 · exact h.freeingInj u w i ((hothers u i).mp hu).2 ((hothers w i).mp hw).2

end

lemma init (tpIdx : Nat) (param : PoolParam) (tmoHdr : Event → TimeoutHdr) :
 FreeList (.init tpIdx param tmoHdr) (range' 0 param.numTimers) where
 linked := linked_range _ _ _ (by simp [State.init,odpTimerPoolNew])
 nodup := nodup_range'
 mem i := by simp [State.init,odpTimerPoolNew]
 count := by simp [State.init,odpTimerPoolNew]
 fresh := ⟨[],by simp [State.init,odpTimerPoolNew],by simp⟩
 highWm := Nat.zero_le _
 liveLt := nofun
 freeingDead := nofun
 freeingInj := nofun

lemma step {a : Action} (h : FreeList s fl) (hok : CallerOk s a) (ht : Takes v isTimeout s a s') :
 ∃ fl', FreeList s' fl' := by
 cases ht with
 | alloc _ hlt => exact h.alloc _ _ hlt
 | free hidle hidx => exact ⟨fl,h.free _ _ hidle (live_of_handle hok hidx)⟩
 | freeInsert ht => exact ⟨_,h.freeInsert ht⟩
 | refused | keep | swap | cancel | notify | scanEnd | scanSkip | scanGrab | post | receive =>
  exact ⟨fl,{ h with }⟩

end FreeList

lemma reachable_freeList (h : Reachable v isTimeout s) : ∃ fl, FreeList s fl := by
 refine h.invariant (P := fun s => ∃ fl, FreeList s fl) ?_ ?_
 · rintro _ ⟨tpIdx,param,tmoHdr,rfl⟩
   exact ⟨_,.init tpIdx param tmoHdr⟩
 · rintro s a t ⟨fl,hfl⟩ hok hs
   exact hfl.step hok (takes_of_step hs)

lemma FreeList.live_lt_highWm (h : FreeList s fl) (hi : s.live i = true) : i < s.tp.highWm := by
 refine h.lt_highWm (h.liveLt i hi) fun hm => ?_
 simp [((h.mem i).mp hm).2.1] at hi

lemma handleToIdx_tpIdxToHandle {tp : Pool} {hdl : Nat} (hhdl : tpIdxToHandle tp i = some hdl)
 (hi : i < tp.highWm) : handleToIdx hdl tp = some i := by
 rw [tpIdxToHandle] at hhdl
 split at hhdl
 · next hbits =>
   cases hhdl
   rw [handleToIdx,Nat.and_two_pow_sub_one_eq_mod,← Nat.shiftLeft_add_eq_or_of_lt hbits,
    Nat.shiftLeft_eq,Nat.mul_add_mod_self_right,Nat.mod_eq_of_lt hbits]
   exact if_pos hi
 · cases hhdl

open Classical in
/-- In every state of every run the free list holds the free slots once, `num_alloc` counts the
others, and they are below the high watermark. -/
theorem timer_slots (h : Reachable v isTimeout s) :
 (∃ fl, Linked id (fun i => (s.tp.timers i).queue) s.tp.firstFree fl s.tp.numTimers ∧ fl.Nodup ∧
  ∀ i, i ∈ fl ↔ i < s.tp.numTimers ∧ s.live i = false ∧ ∀ t, s.freeing t ≠ some i) ∧
 s.tp.numAlloc = ({i ∈ Finset.range s.tp.numTimers | s.live i = true} : Finset Nat).card +
  ({i ∈ Finset.range s.tp.numTimers | ∃ t, s.freeing t = some i} : Finset Nat).card ∧
 ∀ i, s.live i = true → i < s.tp.highWm ∧
  ∀ hdl, tpIdxToHandle s.tp i = some hdl → handleToIdx hdl s.tp = some i := by
 obtain ⟨fl,hfl⟩ := reachable_freeList h
 refine ⟨⟨fl,hfl.linked,hfl.nodup,hfl.mem⟩,?_,fun i hi => ?_⟩
 · have hparts : Finset.range s.tp.numTimers = fl.toFinset ∪
    ({i ∈ Finset.range s.tp.numTimers | s.live i = true} ∪
     {i ∈ Finset.range s.tp.numTimers | ∃ t, s.freeing t = some i}) := by
    ext i
    simp only [Finset.mem_range,Finset.mem_union,mem_toFinset,hfl.mem,Finset.mem_filter]
    grind
   have hcard := congrArg Finset.card hparts
   rw [Finset.card_range,Finset.card_union_of_disjoint,Finset.card_union_of_disjoint,
    toFinset_card_of_nodup hfl.nodup] at hcard
   · have := hfl.count
     omega
   · refine Finset.disjoint_filter.mpr fun i _ hlive ⟨t,ht⟩ => ?_
     simp [(hfl.freeingDead t i ht).2] at hlive
   · refine Finset.disjoint_left.mpr fun i hi hbusy => ?_
     rw [mem_toFinset,hfl.mem] at hi
     simp only [Finset.mem_union,Finset.mem_filter] at hbusy
     grind
 · have hlt := hfl.live_lt_highWm hi
   exact ⟨hlt,fun hdl hhdl => handleToIdx_tpIdxToHandle hhdl hlt⟩

theorem timer_slots_freeing : ∃ s, Reachable .withLock (fun _ => true) s ∧
 (s.tp.firstFree = 2 ∧ s.tp.numAlloc = 2 ∧ s.live 1 = true) ∧ 1 < s.tp.highWm := by
 have h0 : Reachable .withLock (fun _ => true) (.init 0 ⟨1,0,10,4⟩ fun _ => ⟨0,0,0⟩) :=
  .start ⟨_,_,_,rfl⟩
 obtain ⟨s,hs,htest⟩ := h0.exists_of_run [.alloc 5 0,.alloc 5 0,.free 9 0]
  (fun s => s.tp.firstFree = 2 ∧ s.tp.numAlloc = 2 ∧ s.live 1 = true) (by decide)
 exact ⟨s,hs,htest,((timer_slots hs).2.2 1 htest.2.2).1⟩

end Packages.TimerPool

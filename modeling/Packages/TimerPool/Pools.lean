import Packages.TimerPool.Slots

/-!
# The table of timer pools

Pools are created and destroyed, and timers are allocated from them and freed; the other calls
change neither the table nor the slots. `ODP_ASSERT` is compiled out here. A handle is the index of
the pool in front of the index of the slot, for which it has 24 bits.
-/

namespace Packages.TimerPool

open Function List Option Nat

def maxTimerPools : Nat := 255

def timerInvalid : Nat := 2^32-1

/-- `tp_idx_to_handle` without its assertion. -/
def Pool.handle (tp : Pool) (idx : Nat) : Nat := (tp.tpIdx <<< indexBits ||| idx)%2^32

/-- `num_timer_pools` and `timer_pool`. -/
structure Pools where
 numTimerPools : Nat
 timerPool : Nat → Option State

namespace Pools

def setPool (g : Pools) (k : Nat) (s : State) : Pools :=
 { g with timerPool := update g.timerPool k (some s) }

/-- `odp_timer_pool_create` with memory at hand: the index of the new pool. The counter is raised
and, if the table is full, put back. -/
def create (g : Pools) (param : PoolParam) : Option Nat × Pools :=
 if param.resNs = 0 ∨ maxTimerPools ≤ g.numTimerPools then (none,g)
 else
  let s := State.init g.numTimerPools param fun _ => ⟨0,0,0⟩
  (some g.numTimerPools,{ g.setPool g.numTimerPools s with numTimerPools := g.numTimerPools+1 })

/-- `handle_to_tp`; `none` is the abort. -/
def handleToTp (g : Pools) (hdl : Nat) : Option State :=
 if hdl >>> indexBits < maxTimerPools then g.timerPool (hdl >>> indexBits) else none

inductive Call where
 | create (param : PoolParam)
 /-- `odp_timer_pool_destroy` of a pool without allocated timers -/
 | destroy (k : Nat)
 | alloc (k : Nat) (queue : QueueHdl) (userPtr : Nat)
 | free (t : Thread) (hdl : Nat)
 /-- the end of `timer_free`, under the pool's lock -/
 | freeInsert (k : Nat) (t : Thread)
 deriving DecidableEq, Repr

def step (g : Pools) : Call → Option Pools
 | .create param => some (g.create param).2
 | .destroy k => (g.timerPool k).bind fun s =>
  if s.tp.numAlloc = 0 then some { g with timerPool := update g.timerPool k none } else none
 | .alloc k queue userPtr => (g.timerPool k).map fun s =>
  if s.tp.numAlloc < s.tp.numTimers then
   g.setPool k { s with
    tp := s.tp.allocated queue userPtr
    live := update s.live s.tp.firstFree true }
  else g
 | .free t hdl => (g.handleToTp hdl).bind fun s =>
  if (s.freeing t).isSome then none
  else (odpTimerFree s t hdl).map fun r => g.setPool (hdl >>> indexBits) r.2
 | .freeInsert k t => (g.timerPool k).bind fun s => (s.freeing t).map fun idx =>
  g.setPool k { s with
   tp := { timerFreeInsert s.tp idx with numAlloc := (s.tp.numAlloc+2^32-1)%2^32 }
   freeing := update s.freeing t none }

/-- Callers free timers they hold; `num_timers` is a word. -/
def CallerOk (g : Pools) : Call → Prop
 | .create param => param.numTimers < 2^32
 | .free _ hdl => ∀ s, g.handleToTp hdl = some s → s.live (hdl &&& (2^indexBits-1)) = true
 | .destroy _ | .alloc _ _ _ | .freeInsert _ _ => True

abbrev Reachable : Pools → Prop := Transition.Reach (· = ⟨0,fun _ => none⟩) step CallerOk

variable {g g' : Pools} {k i : Nat} {s s' : State}

/-- The pool in entry `k`. -/
structure Entry (k : Nat) (s : State) : Prop where
 tpIdx : s.tp.tpIdx = k
 free : ∃ fl, FreeList s fl
 numTimers : s.tp.numTimers < 2^32

/-- The table is filled from the front and an entry is never used again. -/
structure Ok (g : Pools) : Prop where
 count : g.numTimerPools ≤ maxTimerPools
 entry : ∀ k s, g.timerPool k = some s → k < g.numTimerPools ∧ Entry k s

lemma Ok.setPool (h : Ok g) (hk : g.timerPool k = some s) (hs : Entry k s') :
 Ok (g.setPool k s') := by
 refine ⟨h.count,fun j t ht => ?_⟩
 by_cases hj : j = k
 · obtain rfl : s' = t := by simpa [Pools.setPool,hj] using ht
   rw [hj]
   exact ⟨(h.entry k s hk).1,hs⟩
 · exact h.entry j t (by simpa [Pools.setPool,hj] using ht)

lemma timerPool_of_handleToTp {hdl : Nat} (h : g.handleToTp hdl = some s) :
 g.timerPool (hdl >>> indexBits) = some s := by
 rw [handleToTp] at h
 split at h
 · exact h
 · cases h

lemma Ok.step (h : Ok g) {a : Call} (hok : CallerOk g a) (hs : g.step a = some g') : Ok g' := by
 cases a with
 | create param =>
  cases hs
  rw [create]
  split_ifs with hfull
  · exact h
  · refine ⟨by simp only; omega,fun j t ht => ?_⟩
    by_cases hj : j = g.numTimerPools
    · simp only [Pools.setPool,hj,update_self,some.injEq] at ht
      subst ht
      exact hj ▸ ⟨lt_succ_self _,rfl,⟨_,.init ..⟩,hok⟩
    · have hold := h.entry j t (by simpa [Pools.setPool,hj] using ht)
      exact ⟨lt_succ_of_lt hold.1,hold.2⟩
 | destroy k =>
  obtain ⟨s,hk,hs⟩ := bind_eq_some_iff.mp hs
  split_ifs at hs
  cases hs
  refine ⟨h.count,fun j t ht => ?_⟩
  by_cases hj : j = k
  · simp [hj] at ht
  · exact h.entry j t (by simpa [hj] using ht)
 | alloc k queue userPtr =>
  obtain ⟨s,hk,rfl⟩ := map_eq_some_iff.mp hs
  obtain ⟨htp,⟨fl,hfl⟩,hnum⟩ := (h.entry k s hk).2
  split_ifs with hlt
  · exact h.setPool hk ⟨htp,hfl.alloc _ _ hlt,hnum⟩
  · exact h
 | free t hdl =>
  obtain ⟨s,hhdl,hs⟩ := bind_eq_some_iff.mp hs
  have hk := timerPool_of_handleToTp hhdl
  obtain ⟨htp,⟨fl,hfl⟩,hnum⟩ := (h.entry _ s hk).2
  split_ifs at hs with hidle
  obtain ⟨r,hr,rfl⟩ := map_eq_some_iff.mp hs
  obtain ⟨idx,hidx,hr⟩ := bind_eq_some_iff.mp hr
  cases hr
  have hlive : s.live idx = true := by
   rw [handleToIdx] at hidx
   split_ifs at hidx
   exact some.inj hidx ▸ hok s hhdl
  exact h.setPool hk ⟨htp,⟨fl,hfl.free _ _ (by simpa using hidle) hlive⟩,hnum⟩
 | freeInsert k t =>
  obtain ⟨s,hk,hs⟩ := bind_eq_some_iff.mp hs
  obtain ⟨htp,⟨fl,hfl⟩,hnum⟩ := (h.entry k s hk).2
  obtain ⟨idx,ht,rfl⟩ := map_eq_some_iff.mp hs
  have hpos := hfl.numAlloc_ne_zero (hfl.freeingDead t idx ht).1
   fun hm => ((hfl.mem idx).mp hm).2.2 t ht
  have hcount := hfl.count
  rw [show (s.tp.numAlloc+2^32-1)%2^32 = s.tp.numAlloc-1 by omega]
  exact h.setPool hk ⟨htp,⟨_,hfl.freeInsert ht⟩,hnum⟩

lemma Reachable.ok (h : Reachable g) : Ok g :=
 h.invariant (fun _ hg => hg ▸ ⟨zero_le _,fun _ _ h => nomatch h⟩) fun _ _ _ hg => hg.step

lemma Reachable.create (h : Reachable g) {p : PoolParam} (hp : p.numTimers < 2^32) :
 Reachable (g.create p).2 := h.next (a := .create p) hp rfl

/-- 255 pools exist. -/
def Full (g : Pools) : Prop := ∀ k < maxTimerPools, (g.timerPool k).isSome = true

lemma reachable_unused (n : Nat) (hn : n ≤ maxTimerPools) : Reachable ⟨n,fun _ => none⟩ := by
 induction n with
 | zero => exact .start rfl
 | succ n ih =>
  have hcreate := (ih (by omega)).create (p := ⟨1,0,10,4⟩) (by decide)
  rw [create,if_neg (by simp only [one_ne_zero,false_or]; omega)] at hcreate
  refine hcreate.next (show CallerOk _ (.destroy n) from trivial) ?_
  simp [step,setPool,State.init,odpTimerPoolNew]

lemma handle_eq (tp : Pool) (htp : tp.tpIdx < maxTimerPools) (hi : i < 2^indexBits) :
 tp.handle i = tp.tpIdx*2^indexBits+i := by
 rw [Pool.handle,← shiftLeft_add_eq_or_of_lt hi]
 simp only [maxTimerPools,indexBits] at *
 omega

/-- With pools of at most 2^24 timers the handles of the allocated timers differ and lead back to
their pools and slots. -/
theorem timer_handles (h : Reachable g)
 (hsmall : ∀ k s, g.timerPool k = some s → s.tp.numTimers ≤ 2^indexBits)
 (hk : g.timerPool k = some s) (hi : s.live i = true) :
 s.tp.handle i ≠ timerInvalid ∧ g.handleToTp (s.tp.handle i) = some s ∧
 handleToIdx (s.tp.handle i) s.tp = some i ∧
 ∀ k' s' i', g.timerPool k' = some s' → s'.live i' = true → s'.tp.handle i' = s.tp.handle i →
  k' = k ∧ i' = i := by
 have hspec : ∀ k s i, g.timerPool k = some s → s.live i = true → k < maxTimerPools ∧
  i < s.tp.highWm ∧ i < 2^indexBits ∧ s.tp.handle i = k*2^indexBits+i := by
  intro k s i hk hi
  obtain ⟨hlt,htp,⟨fl,hfl⟩,-⟩ := h.ok.entry k s hk
  have hnum := hsmall k s hk
  have hidx := hfl.liveLt i hi
  have hcount := h.ok.count
  have hwm := hfl.live_lt_highWm hi
  have hhdl := handle_eq s.tp (i := i) (by omega) (by omega)
  rw [htp] at hhdl
  exact ⟨by omega,hwm,by omega,hhdl⟩
 obtain ⟨hlt,hwm,hbits,hhdl⟩ := hspec k s i hk hi
 have hshift : s.tp.handle i >>> indexBits = k := by
  rw [hhdl,shiftRight_eq_div_pow,indexBits]
  simp only [indexBits] at hbits
  omega
 refine ⟨?_,?_,?_,fun k' s' i' hk' hi' heq => ?_⟩
 · rw [hhdl]
   simp only [timerInvalid,maxTimerPools,indexBits] at *
   omega
 · rw [handleToTp,hshift,if_pos hlt,hk]
 · rw [handleToIdx,and_two_pow_sub_one_eq_mod,hhdl,mul_add_mod_self_right,
    mod_eq_of_lt hbits,if_pos hwm]
 · obtain ⟨-,-,hbits',hhdl'⟩ := hspec k' s' i' hk' hi'
   rw [hhdl,hhdl'] at heq
   simp only [indexBits] at *
   omega

theorem timer_handles_two : ∃ g : Pools, Reachable g ∧ ∃ s, g.timerPool 1 = some s ∧
 s.live 0 = true ∧ g.handleToTp (s.tp.handle 0) = some s := by
 have hpools := (Reachable.create (.start rfl) (p := ⟨1,0,10,4⟩) (by decide)).create
  (p := ⟨1,0,10,4⟩) (by decide)
 have h := hpools.next (show CallerOk _ (.alloc 1 5 0) from trivial) rfl
 refine ⟨_,h,_,rfl,rfl,(timer_handles (k := 1) (i := 0) h (fun k s hk => ?_) rfl rfl).2.1⟩
 have hlt : k < 2 := ((Reachable.ok h).entry k s hk).1
 obtain rfl | rfl : k = 0 ∨ k = 1 := by omega
 all_goals
  cases hk
  decide

lemma reachable_allocs {p : PoolParam} (hp : 0 < p.resNs) (hnum : p.numTimers < 2^32) (n : Nat)
 (hn : n ≤ p.numTimers) :
 ∃ s, Reachable (setPool (create (create ⟨0,fun _ => none⟩ p).2 ⟨1,0,10,4⟩).2 0 s) ∧
  s.tp.tpIdx = 0 ∧ s.tp.numTimers = p.numTimers ∧ s.tp.numAlloc = n ∧ s.tp.firstFree = n ∧
  (∀ i, n ≤ i → (s.tp.timers i).queue = i+1) ∧ ∀ i < n, s.live i = true := by
 induction n with
 | zero =>
  have hpools := (Reachable.create (.start rfl) hnum).create (p := ⟨1,0,10,4⟩) (by decide)
  refine ⟨.init 0 p fun _ => ⟨0,0,0⟩,?_,rfl,rfl,rfl,rfl,fun i _ => rfl,nofun⟩
  rw [setPool,update_eq_self_iff.mpr]
  · exact hpools
  · simp [create,setPool,hp.ne',maxTimerPools]
 | succ n ih =>
  obtain ⟨s,hs,htp,hnum,halloc,hfirst,hnext,hlive⟩ := ih (by omega)
  refine ⟨{ s with tp := s.tp.allocated 5 0, live := update s.live s.tp.firstFree true },
   ?_,htp,hnum,congrArg (· + 1) halloc,?_,fun i hi => ?_,fun i hi => ?_⟩
  · refine hs.next (a := .alloc 0 5 0) trivial ?_
    simp [step,setPool,halloc,hnum,show n < p.numTimers from hn]
  · simp [Pool.allocated,Pool.setTimer,Pool.setTickBuf,hfirst,hnext]
  · simpa [Pool.allocated,Pool.setTimer,Pool.setTickBuf,hfirst,show i ≠ n by omega] using
     hnext i (by omega)
  · by_cases hin : i = n
    · simp [hin,hfirst]
    · simpa [hfirst,hin] using hlive i (by omega)

/-- The timer in slot 2^24 of the first pool has the handle of the timer in the first slot of the
second pool. -/
theorem timer_handles_clash : ∃ g : Pools, Reachable g ∧ ∃ s s', g.timerPool 0 = some s ∧
 s.live (2^24) = true ∧ g.timerPool 1 = some s' ∧ s'.live 0 = true ∧
 s.tp.handle (2^24) = s'.tp.handle 0 := by
 obtain ⟨s,hs,htp,-,-,-,-,hlive⟩ :=
  reachable_allocs (p := ⟨1,0,10,2^24+1⟩) (by decide) (by decide) (2^24+1) (le_refl _)
 refine ⟨_,hs.next (a := .alloc 1 5 0) trivial rfl,s,_,rfl,hlive _ (by omega),rfl,rfl,?_⟩
 rw [Pool.handle,htp]
 rfl

end Pools

end Packages.TimerPool

import Packages.Barrier.Rounds
import Packages.Lib.Fairness

/-!
# Nobody waits forever at the barrier

In a fair run a thread that has started a call arrives, a round that is closing gets closed, and
then every thread of the round finds the value it waits for and returns.
-/

namespace Packages.Barrier

open State Nat Transition

variable {n k : Nat} {s s' : State n} {t u : Fin n}

lemma returned_mono (s : State n) (t u : Fin n) :
 s.returned t ≤ (odpBarrierWait s u).returned t := by
 by_cases hu : t = u
 · subst hu
   have hret : ∀ s : State n, s.returned t ≤ (s.ret t).returned t := by
    intro s
    rw [ret_returned]
    exact le_succ _
   rw [odpBarrierWait]
   split
   · exact le_refl _
   · exact le_refl _
   · split <;> exact le_refl _
   · exact hret (s.setBar _)
   · split
     · exact le_refl _
     · exact hret s
 · exact le_of_eq ((odpBarrierWait_keeps s u).returned t hu).symm

lemma arrived_fetchInc_step (hpc : s.pc t = .fetchInc) :
 (odpBarrierWait s t).arrived t = s.started t := by
 rw [odpBarrierWait_fetchInc hpc]
 exact arrived_of_pc _ (by simp)

lemma arrived_mono (s : State n) (t u : Fin n) : s.arrived t ≤ (odpBarrierWait s u).arrived t := by
 by_cases hu : t = u
 · subst hu
   by_cases hpc : s.pc t = .fetchInc
   · rw [arrived_fetchInc_step hpc]
     exact s.arrived_le_started t
   · have hkept : ∀ s' : State n, s'.pc t ≠ .fetchInc → s'.started t = s.started t →
      s.started t ≤ s'.arrived t := by
      intro s' hpc' hstarted
      rw [s'.arrived_of_pc hpc',hstarted]
     rw [s.arrived_of_pc hpc,odpBarrierWait]
     split
     · rw [arrived_fetchInc _ (s.call_pc t),call_started]
       exact le_refl _
     · contradiction
     · split <;> exact hkept _ (by simp) rfl
     · exact hkept _ (by simp) rfl
     · split
       · exact hkept s hpc rfl
       · exact hkept _ (by simp) rfl
 · exact le_of_eq ((odpBarrierWait_keeps s u).arrived_of_ne hu).symm

/-- A thread within a call gets its turns. -/
def Fair (tr : Transition.Trace (step (n := n))) : Prop :=
 ∀ i t, (tr.state i).pc t ≠ .idle → ∃ j, i ≤ j ∧ tr.label j = some t

section

variable {tr : Transition.Trace (step (n := n))} {i : Nat}

/-- What only the next step of a thread within a call can end, and only towards `Q`. -/
lemma eventually_of_turn {P Q : State n → Prop} (hfair : Fair tr) (t : Fin n)
 (hcall : ∀ s, P s → s.pc t ≠ .idle)
 (hother : ∀ s u, P s → u ≠ t → P (odpBarrierWait s u) ∨ Q (odpBarrierWait s u))
 (hown : ∀ s, P s → Q (odpBarrierWait s t)) (h : P (tr.state i)) : tr.Eventually i Q := by
 obtain ⟨j,hij,hlabel⟩ := hfair i t (hcall _ h)
 refine Trace.eventually_of_helpful (· = t) ⟨j,hij,t,hlabel,rfl⟩ ?_ ?_ h
 · intro s u s' hs hstep
   cases hstep
   by_cases hu : u = t
   · exact .inr (hu ▸ hown s hs)
   · exact hother s u hs hu
 · rintro s u s' hs rfl hstep
   cases hstep
   exact hown s hs

lemma eventually_arrived (hfair : Fair tr) (t : Fin n) (hk : k ≤ (tr.state i).started t) :
 tr.Eventually i fun s => k ≤ s.arrived t := by
 by_cases hpc : (tr.state i).pc t = .fetchInc
 · refine eventually_of_turn hfair t (P := fun s => s.pc t = .fetchInc ∧ k ≤ s.started t) ?_ ?_ ?_
    ⟨hpc,hk⟩
   · rintro s ⟨hs,-⟩
     rw [hs]
     exact Pc.noConfusion
   · rintro s u ⟨hs,hle⟩ hu
     have hkeeps := odpBarrierWait_keeps s u
     exact .inl ⟨(hkeeps.pc t hu.symm).trans hs,(hkeeps.started t hu.symm).symm ▸ hle⟩
   · rintro s ⟨hs,hle⟩
     rwa [arrived_fetchInc_step hs]
 · refine ⟨i,le_refl i,?_⟩
   show k ≤ (tr.state i).arrived t
   rwa [arrived_of_pc _ hpc]

lemma eventually_open (hn : 0 < 2*n) (h32 : 2*n < 2^32) (hfair : Fair tr) {u : Fin n}
 (h : Closing (tr.state i) k u) : tr.Eventually i fun s => Open s (k+1) := by
 have hcall : ∀ s : State n, Closing s k u → s.pc u ≠ .idle := by
  intro s hs hpc
  have hp := hs.pending
  rwa [hpc] at hp
 have hsub : tr.Eventually i fun s => Closing s k u ∧ s.pc u = .sub ∨ Open s (k+1) := by
  refine eventually_of_turn hfair u hcall ?_ ?_ h
  · intro s t hs _
    obtain hsame | ⟨-,-,hnext⟩ := hs.step hn h32 t
    · exact .inl hsame
    · exact .inr (.inr hnext)
  · intro s hs
    obtain hsame | ⟨-,-,hnext⟩ := hs.step hn h32 u
    · left
      refine ⟨hsame,?_⟩
      obtain ⟨count,hpc⟩ | hpc | hpc := hs.pc_cases u
      · rw [hs.last hn h32 hpc,goto_pc]
      · have hp := hsame.pending
        rw [odpBarrierWait_sub hpc,ret_pc] at hp
        exact hp.elim
      · have hp := hs.pending
        rw [hpc] at hp
        exact hp.elim
    · exact .inr hnext
 refine hsub.trans fun j _ hj => ?_
 obtain hj | hj := hj
 · refine eventually_of_turn hfair u (P := fun s => Closing s k u ∧ s.pc u = .sub)
    (fun s hs => hcall s hs.1) ?_ ?_ hj
   · rintro s t ⟨hs,hpc⟩ ht
     obtain hsame | ⟨heq,-⟩ := hs.step hn h32 t
     · exact .inl ⟨hsame,((odpBarrierWait_keeps s t).pc u ht.symm).trans hpc⟩
     · exact absurd heq ht
   · rintro s ⟨hs,hpc⟩
     exact hs.sub h32 hpc
 · exact ⟨j,le_refl j,hj⟩

/-- The thread is within its call of round `k`, which is complete. -/
structure Leaving (s : State n) (k : Nat) (t : Fin n) : Prop where
 round : Open s k
 arrived : s.arrived t = k
 returned : s.returned t+1 = k

lemma Leaving.step_of_ne (h : Leaving s k t) (hn : 0 < 2*n) (h32 : 2*n < 2^32) (hu : u ≠ t) :
 Leaving (odpBarrierWait s u) k t := by
 have hkeeps := odpBarrierWait_keeps s u
 have harrived := (hkeeps.arrived_of_ne hu.symm).trans h.arrived
 refine ⟨?_,harrived,(hkeeps.returned t hu.symm).symm ▸ h.returned⟩
 obtain hsame | ⟨hall,-⟩ := h.round.step hn h32 u
 · exact hsame
 · have := hall t
   omega

lemma Leaving.pc_cases (h : Leaving s k t) :
 (∃ count, s.pc t = .compare count) ∨ ∃ wasless, s.pc t = .load wasless := by
 have harrived := h.arrived
 have hreturned := h.returned
 obtain hc | hs | hl := pc_cases_of_arrived (h.round.pcs t) (by omega)
 · exact .inl hc
 · refine absurd ?_ (h.round.settled t)
   rw [hs]
   trivial
 · exact .inr hl

lemma Leaving.awaited (h : Leaving s k t) {wasless : Bool} (hpc : s.pc t = .load wasless) :
 Awaited s t :=
 (h.round.awaited_iff hpc).mpr h.arrived

lemma Leaving.load (h : Leaving s k t) {wasless : Bool} (hpc : s.pc t = .load wasless) :
 k ≤ (odpBarrierWait s t).returned t := by
 rw [(h.awaited hpc).load,ret_returned,h.returned]

lemma eventually_returned (hn : 0 < 2*n) (h32 : 2*n < 2^32) (hfair : Fair tr)
 (h : Leaving (tr.state i) k t) : tr.Eventually i fun s => k ≤ s.returned t := by
 have hcall : ∀ s : State n, Leaving s k t → s.pc t ≠ .idle := by
  intro s hs hpc
  obtain ⟨count,hc⟩ | ⟨wasless,hc⟩ := hs.pc_cases
  all_goals
   rw [hpc] at hc
   cases hc
 have hload : tr.Eventually i fun s =>
  (Leaving s k t ∧ ∃ wasless, s.pc t = .load wasless) ∨ k ≤ s.returned t := by
  refine eventually_of_turn hfair t hcall ?_ ?_ h
  · intro s u hs hu
    exact .inl (hs.step_of_ne hn h32 hu)
  · intro s hs
    obtain ⟨count,hpc⟩ | ⟨wasless,hpc⟩ := hs.pc_cases
    · left
      have hround : Open (odpBarrierWait s t) k ∧ (odpBarrierWait s t).arrived t = k ∧
       ∃ wasless, (odpBarrierWait s t).pc t = .load wasless := by
       have hold := s.arrived_of_pc (t := t) (by simp [hpc])
       have hnext := hs.round.step hn h32 t
       rw [compare_eq hpc hs.round.count hn h32 (hs.round.settled t)] at hnext ⊢
       have harrived' : (s.goto t (.load (count < n))).arrived t = k := by
        rw [arrived_of_pc _ (by simp)]
        exact hold.symm.trans hs.arrived
       obtain hsame | ⟨hall,-⟩ := hnext
       · exact ⟨hsame,harrived',_,s.goto_pc t _⟩
       · have := hall t
         omega
      refine ⟨⟨hround.1,hround.2.1,?_⟩,hround.2.2⟩
      rw [compare_eq hpc hs.round.count hn h32 (hs.round.settled t)]
      exact hs.returned
    · exact .inr (hs.load hpc)
 refine hload.trans fun j _ hj => ?_
 obtain hj | hj := hj
 · refine eventually_of_turn hfair t
    (P := fun s => Leaving s k t ∧ ∃ wasless, s.pc t = .load wasless)
    (fun s hs => hcall s hs.1) ?_ ?_ hj
   · rintro s u ⟨hs,wasless,hpc⟩ hu
     exact .inl ⟨hs.step_of_ne hn h32 hu,wasless,
      ((odpBarrierWait_keeps s u).pc t hu.symm).trans hpc⟩
   · rintro s ⟨hs,wasless,hpc⟩
     exact hs.load hpc
 · exact ⟨j,le_refl j,hj⟩

lemma eventually_all_returned (hn : 0 < 2*n) (h32 : 2*n < 2^32) (hfair : Fair tr)
 (hstart : Rounds (tr.state 0)) (hk : ∀ t, k ≤ (tr.state i).started t) :
 tr.Eventually i fun s => ∀ t, k ≤ s.returned t := by
 have hrounds : ∀ j, Rounds (tr.state j) := by
  intro j
  refine tr.stable (P := Rounds) ?_ (zero_le j) hstart
  intro s t s' hs hstep
  cases hstep
  exact hs.step hn h32 t
 have hstable : ∀ t (s : State n) u s', k ≤ s.returned t → step s u = some s' →
  k ≤ s'.returned t := by
  intro t s u s' hs hstep
  cases hstep
  exact le_trans hs (returned_mono s t u)
 have harrive : tr.Eventually i fun s => ∀ t, k ≤ s.arrived t := by
  refine Trace.eventually_forall ?_ fun t => eventually_arrived hfair t (hk t)
  intro t s u s' hs hstep
  cases hstep
  exact le_trans hs (arrived_mono s t u)
 have hcross : tr.Eventually i fun s => (∃ j, k ≤ j ∧ Open s j) ∨ ∀ t, k ≤ s.returned t := by
  refine harrive.trans fun j _ hj => ?_
  obtain ⟨l,hopen | ⟨u,hclosing⟩⟩ := hrounds j
  · obtain ⟨t,ht⟩ := hopen.lockstep.behind
    exact ⟨j,le_refl j,.inl ⟨l,ht ▸ hj t,hopen⟩⟩
  · obtain ⟨m,hm,hnext⟩ := eventually_open hn h32 hfair hclosing
    have hl := hj u
    rw [hclosing.arrived u] at hl
    exact ⟨m,hm,.inl ⟨l+1,hl,hnext⟩⟩
 refine hcross.trans fun j _ hj => ?_
 obtain ⟨l,hl,hopen⟩ | hj := hj
 · refine Trace.eventually_forall hstable fun t => ?_
   by_cases hret : k ≤ (tr.state j).returned t
   · exact ⟨j,le_refl j,hret⟩
   · have hle := hopen.lockstep.le t
     have hbound := (hopen.pcs t).arrived_le
     obtain rfl : l = k := by omega
     exact eventually_returned hn h32 hfair ⟨hopen,by omega,by omega⟩
 · exact ⟨j,le_refl j,hj⟩

end

/-- Nobody returns from a call before all have started it; the value that lets a thread out stays
until the thread has seen it; where all have started a call, all return as long as the threads get
their turns. -/
theorem barrier_synchronizes (n : Nat) (hn : 0 < 2*n) (h32 : 2*n < 2^32) :
 (∀ s : State n, Reachable s → ∀ k t u, k ≤ s.returned t → k ≤ s.started u) ∧
 (∀ s : State n, Reachable s → ∀ t, Awaited s t → ∀ threads, t ∉ threads →
  Awaited (run s threads) t ∧
   (odpBarrierWait (run s threads) t).returned t = s.returned t+1) ∧
 ∀ tr : Transition.Trace (step (n := n)), tr.state 0 = start n → Fair tr →
  ∀ i k, (∀ u, k ≤ (tr.state i).started u) → ∃ j, i ≤ j ∧ ∀ t, k ≤ (tr.state j).returned t := by
 refine ⟨?_,?_,?_⟩
 · intro s hs k t u hk
   have hle := (rounds_of_reachable hn h32 hs).returned_le t u
   exact le_trans hk (le_trans hle (s.arrived_le_started u))
 · intro s hs t hawaited threads ht
   obtain ⟨hend,hreturned⟩ := hawaited.run (rounds_of_reachable hn h32 hs) hn h32 ht
   refine ⟨hend,?_⟩
   rw [hend.load,ret_returned,hreturned]
 · intro tr hstart hfair i k hk
   exact eventually_all_returned hn h32 hfair (hstart ▸ rounds_start hn h32) hk

attribute [local instance] Transition.neZero_two

/-- Two threads that take turns. -/
def roundRobin : Transition.Trace (step (n := 2)) where
 state i := Nat.rec (start 2) (fun i s => odpBarrierWait s (Fin.ofNat 2 i)) i
 label i := some (Fin.ofNat 2 i)
 pause _ h := absurd h (Option.some_ne_none _)
 move i t h := by
  cases h
  rfl

lemma roundRobin_fair : Fair roundRobin := by
 intro i t _
 by_cases ht : i%2 = t.val
 · exact ⟨i,le_refl i,congrArg some (Fin.ext ht)⟩
 · refine ⟨i+1,le_succ i,congrArg some (Fin.ext ?_)⟩
   show (i+1)%2 = t.val
   omega

theorem barrier_synchronizes_two :
 (∃ s : State 2, Reachable s ∧ 2 ≤ s.returned 0 ∧ 2 ≤ s.started 1) ∧
 (∃ s : State 2, Reachable s ∧ Awaited s 0 ∧ Awaited (run s [1,1,1]) 0) ∧
 ∃ j, ∀ t, 1 ≤ (roundRobin.state j).returned t := by
 obtain ⟨hsafe,hstays,hprogress⟩ := barrier_synchronizes 2 (by decide) (by decide)
 refine ⟨?_,?_,?_⟩
 · obtain ⟨s,hs,hk⟩ := Reach.exists_of_run
    (.start rfl : Reachable (start 2)) [0,0,0,1,1,1,0,1,0,0,0,1,1,1,1,0]
    (fun s => 2 ≤ s.returned 0) (by decide)
   exact ⟨s,hs,hk,hsafe s hs 2 0 1 hk⟩
 · -- thread 1 has left round 1 and starts round 2 before thread 0 looks again
   obtain ⟨s,hs,hpc,hbar⟩ := Reach.exists_of_run
    (.start rfl : Reachable (start 2)) [0,0,0,1,1,1,1]
    (fun s => s.pc 0 = .load true ∧ ¬s.barrier.bar < s.barrier.count) (by decide)
   have hawaited : Awaited s 0 := ⟨true,hpc,by rw [decide_eq_false hbar]; exact Bool.noConfusion⟩
   exact ⟨s,hs,hawaited,(hstays s hs 0 hawaited [1,1,1] (by decide)).1⟩
 · obtain ⟨j,-,hj⟩ := hprogress roundRobin rfl roundRobin_fair 2 1 (by decide)
   exact ⟨j,hj⟩

end Packages.Barrier

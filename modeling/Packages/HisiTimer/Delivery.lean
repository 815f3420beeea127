import Packages.HisiTimer.Steps

/-!
# What the timers deliver

A pending timer is on the list of its owner or waits on the run list of its owner; a callback is not
made before its time; a stopped timer is on no list. All three fail once a callback resets or stops
a timer that waits on the run list which is being walked over.
-/

namespace Packages.HisiTimer

open Function State Option

open Transition

variable {n k : Nat} {s s' : State n k} {g : Layout n k} {t : Fin n} {c : Fin k}

-- Pending timers

lemma Rearming.locked (h : Rearming s c t) : (s.manage c).locked = true := by
 obtain ⟨⟨curTime,nextTim,hmanage⟩,-⟩ := h
 rw [hmanage]
 rfl

lemma Inv.pending_mem (h : Inv True freed s g) (hpending : s.status t = ⟨.pending,some c⟩)
 (hlock : (s.manage c).locked = false) : t ∈ s.pendingList c ∨ t ∈ s.runList c := by
 obtain ⟨d,howner,hnear,hkept⟩ := (h.status t).pending (congrArg Status.state hpending)
 obtain rfl : c = d := some.inj ((congrArg Status.owner hpending).symm.trans howner)
 obtain hnone | hlist | hrun := hnear
 · rw [(hkept trivial hnone).locked] at hlock
   cases hlock
 · left
   rw [pendingList,h.shape.levelList_eq]
   exact (h.shape.onList c t).mpr hlist
 · right
   rw [h.shape.runList_eq]
   exact (h.shape.onRun c t).mpr hrun

theorem pending_timers_kept
 (h : Reach (· = State.init) State.step (fun s a => Safe s a ∧ Unskipped s a) s)
 (hpending : s.status t = ⟨.pending,some c⟩) (hlock : (s.manage c).locked = false) :
 t ∈ s.pendingList c ∨ t ∈ s.runList c := by
 have hallowed : Reach (· = init) step (Allowed True False) s :=
  h.mono fun _ _ hboth => ⟨hboth.1,fun _ => hboth.2,False.elim⟩
 obtain ⟨g,hinv⟩ := exists_inv hallowed
 exact hinv.pending_mem hpending hlock

/-- A call of core `c` that makes `steps` steps; the number gives the level. -/
def callOf (c : Fin k) (tim : Fin n) (op : Op k) (rand steps : Nat) : List (Fin k × Action n k) :=
 (c,.call tim op)::List.replicate steps (c,.next rand)

attribute [local instance] Transition.neZero_two

/-- Three timers of one core that expire at 10, 10 and `last`, up to the callback of the first. -/
def untilCallback (last : Nat) : List (Fin 2 × Action 3 2) :=
 callOf 0 0 (.reset 10 0 0) 0 4++callOf 0 1 (.reset 10 0 0) 2 4++callOf 1 2 (.reset last 5 0) 8 4 ++
  [(0,.manage 10),(0,.next 0),(0,.next 0)]

theorem pending_timers_kept_walk : ∃ s : State 3 2,
 (s.status 1 = ⟨.pending,some 0⟩ ∧ s.status 2 = ⟨.pending,some 0⟩ ∧ (s.manage 0).locked = false ∧
  s.runList 0 = [1] ∧ s.pendingList 0 = [2,0]) ∧
 (1 ∈ s.pendingList 0 ∨ 1 ∈ s.runList 0) ∧ (2 ∈ s.pendingList 0 ∨ 2 ∈ s.runList 0) := by
 have hstart : Reach (· = init) step (fun s a => Safe s a ∧ Unskipped s a) (init : State 3 2) :=
  .start rfl
 obtain ⟨s,hreach,hone,htwo,hlock,hlists⟩ := hstart.exists_of_run
  (untilCallback 20++callOf 0 0 (.reset 30 0 0) 2 4)
  (fun s => s.status 1 = ⟨.pending,some 0⟩ ∧ s.status 2 = ⟨.pending,some 0⟩ ∧
   (s.manage 0).locked = false ∧ s.runList 0 = [1] ∧ s.pendingList 0 = [2,0]) (by decide +kernel)
 exact ⟨s,⟨hone,htwo,hlock,hlists⟩,pending_timers_kept hreach hone hlock,
  pending_timers_kept hreach htwo hlock⟩

/-- The callback of timer 0 sets timer 1, which waits on the run list before timer 2, to a later
time. Nobody comes to timer 2 any more. -/
theorem pending_timers_kept_lost : ∃ s : State 3 2,
 Reach (· = State.init) State.step (fun _ _ => True) s ∧
 s.status 2 = ⟨.pending,some 0⟩ ∧ (∀ c, s.manage c = .idle) ∧ (∀ c, s.call c = none) ∧
  2 ∉ s.pendingList 0 ∧ 2 ∉ s.runList 0 := by
 exact exists_of_start rfl (untilCallback 10++callOf 0 1 (.reset 100 0 0) 2 5 ++
  [(0,.ret),(0,.next 0),(0,.ret),(0,.next 0)]) _ (by decide +kernel)
  fun _ _ h => h

-- Callbacks

lemma Inv.due_of_pending (h : Inv kept freed s g) (hrun : g.place t = some (.run c))
 (hpending : (s.status t).state = .pending) : s.mem.expire t ≤ (s.manage c).curTime := by
 obtain ⟨d,call,hcall,rfl,hstage⟩ | hle := h.due c t hrun
 · have hconfig := h.calls d call hcall (by rw [hstage]; nofun)
   rw [hconfig] at hpending
   cases hpending
 · exact hle

variable {core : Fin k} {curTime : Nat} {nextTim : Option (Fin n)}

/-- No callback begins and no timer starts to run. -/
structure Quiet (s s' : State n k) : Prop where
 callback : ∀ c curTime t nextTim, s'.manage c = .callback curTime t nextTim →
  s.manage c = .callback curTime t nextTim
 running : ∀ t, (s'.status t).state = .running → (s.status t).state = .running

namespace Quiet

lemma refl (s : State n k) : Quiet s s := ⟨fun _ _ _ _ => id,fun _ => id⟩

variable (h : Quiet s s')

include h

lemma setManage {m : Manage n} (hm : ∀ curTime t nextTim, m ≠ .callback curTime t nextTim) :
 Quiet s (s'.setManage core m) where
 __ := h
 callback c curTime t nextTim hc := by
  by_cases heq : c = core
  · subst heq
    exact absurd ((setManage_self ..).symm.trans hc) (hm _ _ _)
  · exact h.callback c _ _ _ ((update_of_ne heq ..).symm.trans hc)

lemma setStatus (tim : Fin n) (st : Status k) (hst : st.state ≠ .running) :
 Quiet s (s'.setStatus tim st) where
 __ := h
 running t ht := by
  change (update s'.status tim st t).state = _ at ht
  by_cases heq : t = tim
  · subst heq
    rw [update_self] at ht
    exact absurd ht hst
  · rw [update_of_ne heq] at ht
    exact h.running t ht

lemma return_ : Quiet s (s'.return_ core) where
 callback c curTime t nextTim hc := by
  have hret := returned s' core
  refine h.callback c _ _ _ ?_
  by_cases heq : c = core
  · subst heq
    exact hret.callback _ _ _ hc
  · rwa [hret.manages c heq] at hc
 running t ht := h.running t (by rwa [(returned s' core).status] at ht)

end Quiet

lemma callStep_quiet {call : Call n k} {rand : Nat} (hstep : s.callStep core rand call = some s') :
 Quiet s s' := by
 have hsame := Quiet.refl s
 unfold callStep at hstep
 repeat' split at hstep
 all_goals first | cases hstep | obtain ⟨m',-,rfl⟩ := map_eq_some_iff.mp hstep
 · unfold config
   simp only
   split
   · exact hsame.return_
   · have hconfig := hsame.setStatus call.tim ⟨.config,some core⟩ nofun
     split <;> exact { hconfig with }
 iterate 4
  · exact { hsame with }
 · exact (hsame.setStatus _ _ (by simp)).return_
 · exact (hsame.setStatus _ _ (by simp)).return_

variable {a : Fin k × Action n k}

/-- Only the walk over the run list begins a callback, that of a pending timer. -/
lemma step_quiet (hstep : s.step a = some s') : Quiet s s' ∨
 ∃ curTime tim, s.manage a.1 = .walking curTime (some tim) ∧ (s.status tim).state = .pending ∧
  s' = s.manageWalk a.1 curTime (some tim) := by
 obtain ⟨core,action⟩ := a
 have hsame := Quiet.refl s
 cases action
 all_goals
  simp only [step] at hstep
  split at hstep
 all_goals try cases hstep
 case call tim op _ => exact .inl { hsame with }
 case manage time _ =>
  split at hstep <;> cases hstep
  · exact .inl hsame
  · exact .inl (hsame.setManage (by simp))
 · exact .inl (callStep_quiet hstep)
 · left
   unfold manageStart at hstep
   repeat' split at hstep
   all_goals first | cases hstep | obtain ⟨m',-,rfl⟩ := map_eq_some_iff.mp hstep
   · exact hsame.setManage (by simp)
   · exact hsame.setManage (by simp)
   · exact { hsame.setManage (m := .walking _ _) (by simp) with }
 · next time tim hcall hmanage =>
   cases tim with
   | none => exact .inl { hsame.setManage (m := .idle) (by simp) with }
   | some tim =>
    by_cases hpending : (s.status tim).state = .pending
    · exact .inr ⟨time,tim,hmanage,hpending,rfl⟩
    · rw [manageWalk,if_neg hpending]
      exact .inl (hsame.setManage (by simp))
 · next tim _ _ _ =>
   left
   unfold manageReturn
   split
   · exact hsame.setManage (by simp)
   · split
     · exact (hsame.setStatus tim ⟨.stop,none⟩ (by simp)).setManage (by simp)
     · have hpending := hsame.setStatus tim ⟨.pending,some core⟩ (by simp)
       exact { hpending.setManage (m := .rearming _ _ _) (by simp) with }

lemma callback_begins
 (hstep : s.step a = some s') (hbefore : s.manage c ≠ .callback curTime t nextTim)
 (hafter : s'.manage c = .callback curTime t nextTim) :
 s.manage c = .walking curTime (some t) ∧ (s.status t).state = .pending := by
 obtain hquiet | ⟨time,tim,hmanage,hpending,rfl⟩ := step_quiet hstep
 · exact absurd (hquiet.callback c _ _ _ hafter) hbefore
 · simp only [manageWalk,if_pos hpending] at hafter
   by_cases hc : c = a.1
   · subst hc
     cases (setManage_self ..).symm.trans hafter
     exact ⟨hmanage,hpending⟩
   · exact absurd ((update_of_ne hc ..).symm.trans hafter) hbefore

theorem no_early_callback {a : Fin k × Action n k} {curTime : Nat} {nextTim : Option (Fin n)}
 (h : Reach (· = State.init) State.step Safe s) (hstep : s.step a = some s')
 (hbefore : s.manage c ≠ .callback curTime t nextTim)
 (hafter : s'.manage c = .callback curTime t nextTim) :
 s.mem.expire t ≤ curTime := by
 have hallowed : Reach (· = init) step (Allowed False False) s :=
  h.mono fun _ _ hs => ⟨hs,False.elim,False.elim⟩
 obtain ⟨g,hinv⟩ := exists_inv hallowed
 obtain ⟨hmanage,hpending⟩ := callback_begins hstep hbefore hafter
 have hrest : (s.manage c).rest = some t := by rw [hmanage]; rfl
 have hdue := hinv.due_of_pending (hinv.shape.pass hrest).1 hpending
 rwa [hmanage] at hdue

theorem no_early_callback_first : ∃ s s' : State 3 2,
 (s.step (0,.next 0) = some s' ∧ s.manage 0 = .walking 10 (some 0) ∧
  s'.manage 0 = .callback 10 0 (some 1)) ∧ s.mem.expire 0 ≤ 10 := by
 have hstart : Reach (· = init) step Safe (init : State 3 2) := .start rfl
 obtain ⟨s,s',hreach,hstep,hwalking,hcallback⟩ := hstart.exists_step_of_run
  (callOf 0 0 (.reset 10 0 0) 0 4++callOf 0 1 (.reset 10 0 0) 2 4++[(0,.manage 10),(0,.next 0)])
  (0,.next 0)
  (fun s s' => s.manage 0 = .walking 10 (some 0) ∧ s'.manage 0 = .callback 10 0 (some 1))
   (by decide +kernel)
 exact ⟨s,s',⟨hstep,hwalking,hcallback⟩,no_early_callback hreach hstep
  (by rw [hwalking]; nofun) hcallback⟩

/-- After the callback of timer 0 has set timer 1 to 100, the walk goes on to timer 1 at time 10. -/
theorem no_early_callback_reset : ∃ s s' : State 3 2,
 Reach (· = State.init) State.step (fun _ _ => True) s ∧ s.step (0,.next 0) = some s' ∧
 s.manage 0 = .walking 10 (some 1) ∧ s'.manage 0 = .callback 10 1 none ∧ s.mem.expire 1 = 100 := by
 have hstart : Reach (· = init) step (fun _ _ => True) (init : State 3 2) := .start rfl
 exact hstart.exists_step_of_run
  (untilCallback 20++callOf 0 1 (.reset 100 0 0) 2 5++[(0,.ret)]) (0,.next 0) _ (by decide +kernel)

-- Stopped timers

/-- The core is not resetting the timer. -/
def NotReset (t : Fin n) (s : State n k) (a : Fin k × Action n k) : Prop :=
 ∀ call ∈ s.call a.1, call.tim = t → call.op = .stop

instance (t : Fin n) (s : State n k) (a : Fin k × Action n k) : Decidable (NotReset t s a) :=
 inferInstanceAs (Decidable (∀ call ∈ s.call a.1, _ → _))

lemma running_begins (hstep : s.step a = some s')
 (h : (s'.status t).state = .running) : (s.status t).state = .running ∨
 t ∈ (s.manage a.1).rest := by
 obtain hquiet | ⟨time,tim,hmanage,hpending,rfl⟩ := step_quiet hstep
 · exact .inl (hquiet.running t h)
 · simp only [manageWalk,if_pos hpending] at h
   by_cases ht : t = tim
   · right
     rw [ht,hmanage]
     rfl
   · left
     change (update s.status tim _ t).state = _ at h
     rwa [update_of_ne ht] at h

/-- The timer is nowhere and does not run. -/
structure Gone (t : Fin n) (s : State n k) (g : Layout n k) : Prop where
 inv : Inv False True s g
 place : g.place t = none
 notRunning : (s.status t).state ≠ .running

lemma Gone.step (h : Gone t s g) (hallowed : Allowed False True s a)
 (hreset : NotReset t s a) (hstep : s.step a = some s') : ∃ g', Gone t s' g' := by
 obtain ⟨g',hinv,hjoins⟩ := h.inv.step hallowed hstep
 refine ⟨g',hinv,?_,fun hrunning => ?_⟩
 · obtain hnone | ⟨call,hcall,htim,hop⟩ := hjoins t h.place
   · exact hnone
   · exact absurd (hreset call hcall htim) hop
 · obtain hrun | hrest := running_begins hstep hrunning
   · exact h.notRunning hrun
   · have hplace := (h.inv.shape.pass hrest).1
     rw [h.place] at hplace
     cases hplace

lemma Gone.notMem (h : Gone t s g) (c : Fin k) :
 (∀ lvl, t ∉ s.levelList c lvl) ∧ t ∉ s.runList c ∧
  ∀ curTime nextTim, s.manage c = .callback curTime t nextTim → s.updated c = true := by
 refine ⟨fun lvl hmem => ?_,fun hmem => ?_,fun curTime nextTim hmanage => ?_⟩
 · rw [h.inv.shape.levelList_eq] at hmem
   have hplace := (h.inv.shape.onList c t).mp ((h.inv.shape.lists c).levels.mem_zero hmem)
   rw [h.place] at hplace
   cases hplace
 · rw [h.inv.shape.runList_eq] at hmem
   have hplace := (h.inv.shape.onRun c t).mp hmem
   rw [h.place] at hplace
   cases hplace
 · by_contra hupdated
   have hstatus := h.inv.callback c curTime t nextTim hmanage (Bool.eq_false_iff.mpr hupdated)
   exact h.notRunning (congrArg Status.state hstatus)

/-- From a state in which the timer is stopped, and until it is reset, no list and no callback that
is not yet marked as updated leads to it. -/
theorem stopped_timer_free (h : Reach
 (fun s => Reach (· = State.init) State.step (fun s a => Safe s a ∧ Unwalked s a) s ∧
  (s.status t).state = .stop)
 State.step (fun s a => (Safe s a ∧ Unwalked s a) ∧ NotReset t s a) s) (c : Fin k) :
 (∀ lvl, t ∉ s.levelList c lvl) ∧ t ∉ s.runList c ∧
  ∀ curTime nextTim, s.manage c = .callback curTime t nextTim → s.updated c = true := by
 have hallowed : ∀ (s : State n k) a, Safe s a ∧ Unwalked s a → Allowed False True s a :=
  fun _ _ hboth => ⟨hboth.1,False.elim,fun _ => hboth.2⟩
 have hgone : ∃ g, Gone t s g := by
  refine h.invariant (P := fun s => ∃ g, Gone t s g) ?_ ?_
  · rintro s ⟨hreach,hstop⟩
    obtain ⟨g,hinv⟩ := exists_inv (hreach.mono hallowed)
    refine ⟨g,hinv,((hinv.status t).stop hstop).2 trivial,?_⟩
    rw [hstop]
    nofun
  · rintro s a s' ⟨g,hg⟩ ⟨hboth,hreset⟩ hstep
    exact hg.step (hallowed s a hboth) hreset hstep
 obtain ⟨g,hg⟩ := hgone
 exact hg.notMem c

/-- Timer 1 is stopped on a list with two levels, core 1 stops it once more and sets timer 2, and
core 0 calls back timer 0. -/
theorem stopped_timer_free_unlinked : ∃ s : State 3 2,
 (s.manage 0 = .callback 10 0 none ∧ s.pendingList 0 = [2] ∧ (s.status 1).state = .config) ∧
 ∀ c : Fin 2, (∀ lvl, 1 ∉ s.levelList c lvl) ∧ 1 ∉ s.runList c ∧
  ∀ curTime nextTim, s.manage c = .callback curTime 1 nextTim → s.updated c = true := by
 have hstart : Reach (· = init) step (fun s a => Safe s a ∧ Unwalked s a)
  (init : State 3 2) := .start rfl
 let later : List (Fin 2 × Action 3 2) := callOf 1 2 (.reset 20 5 0) 0 4 ++
  [(0,.manage 10),(0,.next 0)]++callOf 1 1 .stop 0 1++[(0,.next 0)]
 let called : State 3 2 → Bool := fun s => decide (s.manage 0 = .callback 10 0 none ∧
  s.pendingList 0 = [2] ∧ (s.status 1).state = .config)
 obtain ⟨s1,hreach,hstop,hany⟩ := hstart.exists_of_run
  (callOf 0 0 (.reset 10 0 0) 0 4++callOf 0 1 (.reset 10 0 0) 0 4++callOf 0 1 .stop 0 3)
  (fun s => (s.status 1).state = .stop ∧ (Transition.guardedRun step
   (fun s a => (Safe s a ∧ Unwalked s a) ∧ NotReset 1 s a) s later).any called = true)
  (by decide +kernel)
 have hstopped : Reach (fun s => Reach (· = init) step (fun s a => Safe s a ∧ Unwalked s a) s ∧
  (s.status 1).state = .stop)
  step (fun s a => (Safe s a ∧ Unwalked s a) ∧ NotReset 1 s a) s1 :=
  .start ⟨hreach,hstop⟩
 obtain ⟨s,hrun,hcalled⟩ := hstopped.exists_of_run later _ hany
 exact ⟨s,hcalled,stopped_timer_free hrun⟩

/-- The callback of timer 0 stops timer 1, which waits on the run list. The stop has returned, and
the next step of the walk reads the links and the status of timer 1. -/
theorem stopped_timer_free_walked : ∃ s s' : State 3 2,
 Reach (· = State.init) State.step (fun _ _ => True) s ∧
 s.step (0,.next 0) = some s' ∧ (s.status 1).state = .stop ∧ (∀ c, s.call c = none) ∧
 1 ∈ s.runList 0 ∧ s.manage 0 = .walking 10 (some 1) ∧
  s'.manage 0 = .walking 10 (s.mem.slNext 1 0) := by
 have hstart : Reach (· = init) step (fun _ _ => True) (init : State 3 2) := .start rfl
 exact hstart.exists_step_of_run
  (untilCallback 10++callOf 0 1 .stop 0 3++[(0,.ret)]) (0,.next 0) _ (by decide +kernel)

end Packages.HisiTimer

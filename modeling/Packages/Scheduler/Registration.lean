import Packages.Scheduler.TokenLaw

/-!
# Registration of queues at the priorities

Between calls the counts and masks of the priority queues agree with the queue table: a slot is
counted from the end of `schedule_queue_init` to `schedule_queue_destroy`. `odp_queue_create` does
not give its slot back when there is no command event.
-/

namespace Packages.Scheduler

open State Option
open Function (update update_self update_of_ne update_idem)

variable {ε : Type} {m n : Nat} {s s' : State ε m n} {t : Fin n} {q : Fin m}

/-- The slot that the scan of `odp_queue_create` finds. -/
def State.firstFree (s : State ε m n) : Option (Fin m) :=
 (List.finRange m).find? fun q => (s.queue q).status == .free

/-- The whole of `odp_queue_create` by `t` with nobody in between, and its handle (`none` is
`ODP_QUEUE_INVALID`). `choice` is what the scheduler's pool hands out, if it is asked. -/
def State.queueCreate (s : State ε m n) (t : Fin n) (param : Param) (choice : Option CmdEvent) :
 Option (Option (Fin m) × State ε m n) :=
 match s.firstFree with
 | none => some (none,s)
 | some q => (step s (.create t q param)).bind fun s =>
  if s.pc t = .idle then some (none,s)
  else (step s (.step t choice)).bind fun s =>
   if s.pc t = .idle then some (none,s)
   else (step s (.step t none)).map fun s => (some q,s)

/-- The slots that the scheduler has a command event for at this priority queue. -/
def commanded (queue : Fin m → QueueEntry ε) (priQ : PriQueue) : Finset (Fin m) :=
 Finset.univ.filter fun q => (queue q).status ≠ .free ∧ (queue q).cmdEv.isSome = true ∧
  (queue q).param.prio = priQ.1 ∧ q.val%queuesPerPrio = priQ.2.val

/-- Whoever has its command event but no priority queue yet is being created. -/
def Halfway (s : State ε m n) : Prop :=
 ∀ q, (s.queue q).cmdEv.isSome = true → (s.queue q).priQueue = none → ∃ t, s.pc t = .initPri q

namespace Halfway

section

variable (h : Halfway s)

include h

lemma of_queue (hq : s'.queue = s.queue) (hpc : ∀ u, u ≠ t → s'.pc u = s.pc u)
 (ht : ∀ r, s.pc t ≠ .initPri r) : Halfway s' := by
 intro r hcmd hpri
 rw [hq] at hcmd hpri
 obtain ⟨u,hu⟩ := h r hcmd hpri
 refine ⟨u,?_⟩
 rw [hpc u ?_]
 · exact hu
 · rintro rfl
   exact ht r hu

lemma of_update {e : QueueEntry ε} (hq : s'.queue = update s.queue q e)
 (he : e.cmdEv.isSome = true → e.priQueue = none →
  (s.queue q).cmdEv.isSome = true ∧ (s.queue q).priQueue = none)
 (hpc : ∀ u, u ≠ t → s'.pc u = s.pc u) (ht : ∀ r, s.pc t = .initPri r → r = q ∧ e.priQueue ≠ none) :
 Halfway s' := by
 intro r hcmd hpri
 rw [hq] at hcmd hpri
 by_cases hr : r = q
 · subst hr
   rw [update_self] at hcmd hpri
   obtain ⟨hcmd',hpri'⟩ := he hcmd hpri
   obtain ⟨u,hu⟩ := h r hcmd' hpri'
   refine ⟨u,?_⟩
   rw [hpc u ?_]
   · exact hu
   · rintro rfl
     exact (ht r hu).2 hpri
 · rw [update_of_ne hr] at hcmd hpri
   obtain ⟨u,hu⟩ := h r hcmd hpri
   refine ⟨u,?_⟩
   rw [hpc u ?_]
   · exact hu
   · rintro rfl
     exact hr (ht r hu).1

lemma destroyed (ht : ∀ r, s.pc t ≠ .initPri r) (hpc : ∀ u, u ≠ t → s'.pc u = s.pc u)
 (hq : s'.queue =
  ((s.setQueue q { s.queue q with status := .free }).scheduleQueueDestroy q).queue) :
 Halfway s' := by
 rw [queue_scheduleQueueDestroy,setQueue,update_idem] at hq
 exact h.of_update hq nofun hpc fun r hr => absurd hr (ht r)

lemma enqMulti (hpc : s.pc t = .idle) (q : Fin m) (evs : List ε) :
 Halfway (s.enqMulti t q evs) := by
 have ht : ∀ r, s.pc t ≠ .initPri r := by rw [hpc]; nofun
 simp only [State.enqMulti]
 split_ifs
 · exact h
 · exact h.of_update rfl (fun hcmd hpri => ⟨hcmd,hpri⟩) (fun u hu => update_of_ne hu _ _)
    fun r hr => absurd hr (ht r)
 · exact h.of_update rfl (fun hcmd hpri => ⟨hcmd,hpri⟩) (fun _ _ => rfl) fun r hr =>
    absurd hr (ht r)

lemma call {a : Action ε m n} (hpc : s.pc a.thread = .idle) (hstep : s.call a = some s') :
 Halfway s' := by
 have ht : ∀ r, s.pc a.thread ≠ .initPri r := by simp [hpc]
 cases a with
 | enq t q ev => exact some.inj hstep ▸ h.enqMulti hpc q [ev]
 | enqMulti t q evs =>
  simp only [State.call] at hstep
  split_ifs at hstep
  · exact some.inj hstep ▸ h
  · exact some.inj hstep ▸ h.enqMulti hpc q _
 | create t q param =>
  simp only [State.call] at hstep
  split_ifs at hstep
  cases hstep
  simp only [State.create]
  split_ifs
  · exact h.of_update (t := t) rfl (fun hcmd hpri => ⟨hcmd,hpri⟩) (fun _ _ => rfl)
     fun r hr => absurd hr (ht r)
  · exact h.of_update rfl (by rintro ⟨⟩) (fun u hu => update_of_ne hu _ _) fun r hr =>
     absurd hr (ht r)
 | destroy t q =>
  cases hstep
  simp only [destroy]
  split_ifs
  · exact h
  · exact h.of_update (t := t) rfl (fun hcmd hpri => ⟨hcmd,hpri⟩) (fun _ _ => rfl)
     fun r hr => absurd hr (ht r)
  · exact h.destroyed ht (fun u _ => by rw [pc_scheduleQueueDestroy]; rfl) rfl
  · exact h.of_update (t := t) rfl (fun hcmd hpri => ⟨hcmd,hpri⟩) (fun _ _ => rfl)
     fun r hr => absurd hr (ht r)
 | schedule t max =>
  cases hstep
  refine h.of_queue (queue_schedule s t max) (fun u hu => ?_) ht
  simp only [schedule]
  split_ifs
  · rfl
  · exact congrFun (pc_releaseAtomic s t) u
  · exact (update_of_ne hu _ _).trans (congrFun (pc_releaseAtomic s t) u)
 | release t =>
  cases hstep
  exact h.of_queue (queue_releaseAtomic s t) (fun u _ => congrFun (pc_releaseAtomic s t) u) ht
 | pause t on =>
  cases hstep
  exact h.of_queue (t := t) rfl (fun _ _ => rfl) ht
 | step t choice => cases hstep

lemma runCmd {i : Fin schedPrios} {j max : Nat} {ev : CmdEvent}
 (ht : ∀ r, s.pc t ≠ .initPri r) : Halfway (s.runCmd t i j max ev q) := by
 have hkeeps : ∀ bufs e', (s.queue q).deqMulti maxDeq = (bufs,e') → e'.cmdEv.isSome = true →
  e'.priQueue = none → (s.queue q).cmdEv.isSome = true ∧ (s.queue q).priQueue = none := by
  intro bufs e' hdeq hcmd hpri
  unfold QueueEntry.deqMulti at hdeq
  split at hdeq
  · cases hdeq
    exact ⟨hcmd,hpri⟩
  · split at hdeq
    · obtain ⟨-,he⟩ := Prod.mk.inj hdeq
      split at he
      all_goals
       subst he
       exact ⟨hcmd,hpri⟩
    · cases hdeq
      exact ⟨hcmd,hpri⟩
 simp only [State.runCmd]
 split
 · exact h.of_queue rfl (fun u hu => update_of_ne hu _ _) ht
 · split
   · exact h.of_queue rfl (fun u hu => update_of_ne hu _ _) ht
   · next e' hdeq =>
     exact h.of_update rfl (hkeeps _ e' hdeq) (fun u hu => update_of_ne hu _ _)
      fun r hr => absurd hr (ht r)
   · next bufs e' hbufs hdeq =>
     split
     all_goals
      exact h.of_update rfl (hkeeps _ e' hdeq) (fun u hu => update_of_ne hu _ _)
       fun r hr => absurd hr (ht r)

lemma advance {choice : Option CmdEvent} (hstep : s.advance t choice = some s') : Halfway s' := by
 cases hpc : s.pc t
 all_goals simp only [State.advance,hpc] at hstep
 case idle => cases hstep
 case initAlloc r =>
  cases choice with
  | none =>
   cases hstep
   exact h.of_queue rfl (fun u hu => update_of_ne hu _ _) (by simp [hpc])
  | some ev =>
   simp only [initAlloc] at hstep
   split_ifs at hstep
   cases hstep
   intro q hcmd hpri
   by_cases hq : q = r
   · exact ⟨t,by rw [hq]; exact update_self ..⟩
   · obtain ⟨u,hu⟩ := h q (by simpa [setQueue,setPc,hq] using hcmd)
      (by simpa [setQueue,setPc,hq] using hpri)
     have hut : u ≠ t := by
      rintro rfl
      rw [hpc] at hu
      cases hu
     exact ⟨u,(update_of_ne hut _ _).trans hu⟩
 case initPri r =>
  cases hstep
  refine h.of_update (q := r) rfl (by simp) (fun u hu => update_of_ne hu _ _) fun q hq => ?_
  rw [hpc] at hq
  exact ⟨(Pc.initPri.inj hq).symm,by simp⟩
 case gotCmd i j max ev =>
  obtain ⟨q,-,rfl⟩ := map_eq_some_iff.mp hstep
  exact h.runCmd (by simp [hpc])
 case finalize i j max ev r =>
  cases hstep
  simp only [State.destroyFinalize]
  split_ifs
  · exact h.destroyed (by simp [hpc])
     (fun u hu => (update_of_ne hu _ _).trans (by rw [pc_scheduleQueueDestroy]; rfl)) rfl
  · exact h.of_queue rfl (fun u hu => update_of_ne hu _ _) (by simp [hpc])
 case scheduleQueue _ | prio _ _ | scan _ _ _ | deqPri _ _ _ | contPri _ _ =>
  repeat' split at hstep
  all_goals cases hstep
  all_goals exact h.of_queue rfl (fun u hu => update_of_ne hu _ _) (by simp [hpc])

lemma step {a : Action ε m n} (hstep : Scheduler.step s a = some s') : Halfway s' := by
 cases a with
 | step t choice => exact h.advance hstep
 | _ =>
  simp only [Scheduler.step] at hstep
  split_ifs at hstep with hpc
  exact h.call hpc hstep

end

end Halfway

lemma Reachable.halfway (h : Reachable s) : Halfway s := by
 refine h.invariant (fun s hs q hcmd => ?_) fun _ _ _ hs _ hstep => hs.step hstep
 rw [(hs.1 q).2.2.2] at hcmd
 cases hcmd

/-- Between calls the queues registered at a priority queue are those with a command event. -/
lemma registered_eq_commanded (h : Reachable s) (hidle : ∀ t, s.pc t = .idle) (priQ : PriQueue) :
 registered s.queue priQ = commanded s.queue priQ := by
 ext q
 simp only [registered,commanded,Finset.mem_filter,Finset.mem_univ,true_and]
 have hok := h.inv.queue q
 constructor
 · intro hq
   obtain ⟨rfl,hcmd⟩ := hok.pri priQ hq
   refine ⟨fun hfree => ?_,hcmd,rfl,rfl⟩
   rw [(hok.free hfree).1] at hcmd
   cases hcmd
 · rintro ⟨-,hcmd,hprio,hid⟩
   cases hpri : (s.queue q).priQueue with
   | none =>
    obtain ⟨t,ht⟩ := h.halfway q hcmd hpri
    rw [hidle] at ht
    cases ht
   | some priQ' =>
    obtain ⟨rfl,-⟩ := hok.pri priQ' hpri
    exact congrArg some (Prod.ext hprio (Fin.ext hid))

lemma firstFree_free (h : s.firstFree = some q) : (s.queue q).status = .free := by
 have hfound := List.find?_some h
 exact beq_iff_eq.mp hfound

lemma queueCreate_cases {param : Param} {choice : Option CmdEvent} {r : Option (Fin m)}
 (hidle : s.pc t = .idle) (hcreate : s.queueCreate t param choice = some (r,s')) :
 s' = s ∧ r = none ∨ ∃ q s1, step s (.create t q param) = some s1 ∧
  (maxOrderedLocks < param.lockCount ∧ r = none ∧ s' = s1 ∧ s1.pc = s.pc ∧
   s1.priCount = s.priCount ∧ s1.priMask = s.priMask ∨
   ∃ s2, step s1 (.step t choice) = some s2 ∧
    (choice = none ∧ r = none ∧ s' = s2 ∧ s2.pc = s.pc ∧ s2.priCount = s.priCount ∧
     s2.priMask = s.priMask ∨
     step s2 (.step t none) = some s' ∧ r = some q ∧ s'.pc = s.pc)) := by
 unfold queueCreate at hcreate
 split at hcreate
 · cases hcreate
   exact .inl ⟨rfl,rfl⟩
 · next q hq =>
   obtain ⟨s1,hs1,hcreate⟩ := bind_eq_some_iff.mp hcreate
   refine .inr ⟨q,s1,hs1,?_⟩
   have hcall : s.create t q param = s1 := by
    simpa [step,Action.thread,hidle,call,firstFree_free hq] using hs1
   have hback : update s.pc t .idle = s.pc := by rw [← hidle,Function.update_eq_self]
   unfold create at hcall
   split at hcall
   · next hlocks =>
     subst hcall
     rw [if_pos (by exact hidle)] at hcreate
     cases hcreate
     exact .inl ⟨hlocks,rfl,rfl,rfl,rfl,rfl⟩
   · subst hcall
     have hpc : ((s.setQueue q ((s.queue q).init param)).setPc t (.initAlloc q)).pc t =
      .initAlloc q :=
      update_self ..
     rw [if_neg (by simp [hpc])] at hcreate
     obtain ⟨s2,hs2,hcreate⟩ := bind_eq_some_iff.mp hcreate
     refine .inr ⟨s2,hs2,?_⟩
     simp only [step,advance,hpc] at hs2
     cases choice with
     | none =>
      cases hs2
      rw [if_pos (by exact update_self ..)] at hcreate
      cases hcreate
      exact .inl ⟨rfl,rfl,rfl,by rw [← hback]; exact update_idem ..,rfl,rfl⟩
     | some ev =>
      simp only [initAlloc] at hs2
      split at hs2
      · cases hs2
      · cases hs2
        rw [if_neg (by simp [setPc])] at hcreate
        obtain ⟨s3,hs3,hpair⟩ := map_eq_some_iff.mp hcreate
        cases hpair
        refine .inr ⟨hs3,rfl,?_⟩
        simp only [step,advance,setPc,update_self] at hs3
        cases hs3
        simp [initPri,setPc,setQueue,priSet,hback]

/-- Between calls the counts and masks say which slots have a command event, and a create that fails
changes neither of them, nor a slot unless for the number of locks or for want of a command
event. -/
theorem priority_books (h : Reachable s) (hidle : ∀ t, s.pc t = .idle) :
 (∀ priQ, s.priCount priQ = (commanded s.queue priQ).card ∧
  (s.priMask priQ = true ↔ 0 < s.priCount priQ)) ∧
 ∀ t param choice r s', s.queueCreate t param choice = some (r,s') →
  (Reachable s' ∧ ∀ u, s'.pc u = .idle) ∧
  (r = none → s'.priCount = s.priCount ∧ s'.priMask = s.priMask ∧
   (param.lockCount ≤ maxOrderedLocks → choice ≠ none → s'.queue = s.queue)) := by
 refine ⟨fun priQ => ⟨?_,?_⟩,fun t param choice r s' hcreate => ?_⟩
 · rw [h.inv.count,registered_eq_commanded h hidle]
 · rw [h.inv.mask]
   exact decide_eq_true_iff
 · obtain ⟨rfl,rfl⟩ | ⟨q,s1,hs1,hcase⟩ := queueCreate_cases (hidle t) hcreate
   · exact ⟨⟨h,hidle⟩,fun _ => ⟨rfl,rfl,fun _ _ => rfl⟩⟩
   · have hr1 : Reachable s1 := h.next (a := .create t q param) trivial hs1
     obtain ⟨hlocks,rfl,rfl,hpc,hcount,hmask⟩ | ⟨s2,hs2,hcase⟩ := hcase
     · exact ⟨⟨hr1,fun u => hpc ▸ hidle u⟩,fun _ =>
        ⟨hcount,hmask,fun hle => absurd hlocks (Nat.not_lt.mpr hle)⟩⟩
     · have hr2 : Reachable s2 := hr1.next (a := .step t choice) trivial hs2
       obtain ⟨hnone,rfl,rfl,hpc,hcount,hmask⟩ | ⟨hs3,rfl,hpc⟩ := hcase
       · exact ⟨⟨hr2,fun u => hpc ▸ hidle u⟩,fun _ => ⟨hcount,hmask,fun _ hne => absurd hnone hne⟩⟩
       · exact ⟨⟨hr2.next (a := .step t none) trivial hs3,fun u => hpc ▸ hidle u⟩,nofun⟩

theorem priority_books_full : ∃ s s' : State Nat 1 2, Reachable s ∧ s.priCount (3,0) = 1 ∧
 s.priMask (3,0) = true ∧ s.queueCreate 0 ⟨3,.atomic,0,0⟩ (some 9) = some (none,s') ∧
 s'.queue = s.queue := by
 have h0 : Reachable demo := .start demo_init
 obtain ⟨s,hs,hcount,hidle,hfull⟩ := h0.exists_of_run
  [.create 0 0 ⟨3,.atomic,0,0⟩,.step 0 (some 8),.step 0 none]
  (fun s => s.priCount (3,0) = 1 ∧ (∀ t, s.pc t = .idle) ∧ s.firstFree = none) (by decide)
 have hcreate : s.queueCreate 0 ⟨3,.atomic,0,0⟩ (some 9) = some (none,s) := by
  rw [queueCreate,hfull]
 obtain ⟨hbooks,hcalls⟩ := priority_books hs hidle
 refine ⟨s,s,hs,hcount,(hbooks (3,0)).2.mpr (by rw [hcount]; decide),hcreate,?_⟩
 exact ((hcalls 0 _ _ none s hcreate).2 rfl).2.2 (by decide) nofun

/-- The scheduler's pool has no buffer left: the create returns `ODP_QUEUE_INVALID`, and the slot it
took is not free afterwards, so that the next create finds none. -/
theorem failed_create_keeps_slot : ∃ s s' : State Nat 1 2, Reachable s ∧ (∀ t, s.pc t = .idle) ∧
 s.queueCreate 0 ⟨3,.atomic,0,0⟩ none = some (none,s') ∧ (s.queue 0).status = .free ∧
 (s'.queue 0).status = .notsched ∧
 ∀ param choice, s'.queueCreate 0 param choice = some (none,s') := by
 have hcreate : ∃ s', demo.queueCreate 0 ⟨3,.atomic,0,0⟩ none = some (none,s') ∧
  (s'.queue 0).status = .notsched ∧ s'.firstFree = none := ⟨_,rfl,rfl,rfl⟩
 obtain ⟨s',hs',hstatus,hfull⟩ := hcreate
 refine ⟨demo,s',.start demo_init,fun _ => rfl,hs',rfl,hstatus,fun param choice => ?_⟩
 rw [queueCreate,hfull]

end Packages.Scheduler

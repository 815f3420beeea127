import Packages.Scheduler.Preservation

/-!
# Steps on the queue table

Enqueueing to a queue, dequeueing from it, and its life from `odp_queue_create` to the thread
that frees it.
-/

namespace Packages.Scheduler

open Function QueueEntry

open State

variable {ε : Type} {m n : Nat} {s s' : State ε m n} {t : Fin n} {q : Fin m} {e : QueueEntry ε}

attribute [local simp] setQueue setPc setLocal Status.inSched Pc.creating Pc.Ok

-- Other threads on a queue that changes

lemma Pc.Ok.update {queue : Fin m → QueueEntry ε} {pc : Pc m} (h : pc.Ok queue)
 (hsched : pc = .scheduleQueue q → e.status.inSched = true) (hcreate : pc.creating ≠ some q)
 (hfin : ∀ i j max ev, pc ≠ .finalize i j max ev q) : pc.Ok (update queue q e) := by
 cases pc with
 | scheduleQueue q' =>
  by_cases hq : q' = q
  · subst hq
    simpa using hsched rfl
  · simpa [hq] using h
 | initAlloc q' | initPri q' =>
  have hq : q' ≠ q := by simpa using hcreate
  simpa [hq] using h
 | finalize i j max ev q' =>
  have hq : q' ≠ q := by
   rintro rfl
   exact hfin i j max ev rfl
  simpa [hq] using h
 | _ => trivial

namespace Inv

lemma not_creating (h : Inv s) (hp : (s.queue q).priQueue.isSome = true) (u : Fin n) :
 (s.pc u).creating ≠ some q := by
 intro hc
 have hok := h.pc u
 cases hpc : s.pc u <;> simp only [hpc,Pc.creating,Option.some.injEq,reduceCtorEq] at hc
 all_goals
  subst hc
  simp only [hpc,Pc.Ok] at hok
  simp [hok.2.2] at hp

lemma not_finalize (h : Inv s) (hd : (s.queue q).status ≠ .destroyed) (u : Fin n)
 (i : Fin schedPrios) (j max : Nat) (ev : CmdEvent) : s.pc u ≠ .finalize i j max ev q := by
 intro hpc
 have hok := h.pc u
 rw [hpc] at hok
 exact hd hok.1

end Inv

/-- A change of the entry that leaves its command event alone. -/
structure QueueEntry.Keeps (e e' : QueueEntry ε) : Prop where
 cmdEv : e'.cmdEv = e.cmdEv
 priQueue : e'.priQueue = e.priQueue
 param : e'.param = e.param
 gen : e'.gen = e.gen

/-- The parts of the state that changes of one entry and one thread leave alone. -/
structure Quiet (s s' : State ε m n) (t : Fin n) : Prop where
 used : s'.used = s.used
 cmdQe : s'.cmdQe = s.cmdQe
 priMask : s'.priMask = s.priMask
 priCount : s'.priCount = s.priCount
 pc : ∀ u, u ≠ t → s'.pc u = s.pc u
 schedLocal : ∀ u, u ≠ t → s'.schedLocal u = s.schedLocal u

lemma Quiet.frame (k : Quiet s s' t) (hq : s'.queue = update s.queue q e)
 (hk : (s.queue q).Keeps e) (hf : (s.queue q).status ≠ .free) (hf' : e.status ≠ .free) :
 Frame s s' t := by
 refine ⟨k.used,k.cmdQe,k.priMask,k.priCount,k.pc,k.schedLocal,?_,?_,?_,?_,?_⟩
 all_goals
  intro q'
  rw [hq]
  by_cases hqq : q' = q
  · subst hqq
    simp [hk.cmdEv,hk.priQueue,hk.param,hk.gen,hf,hf']
  · simp [hqq]

lemma inSched_update (hq : s'.queue = update s.queue q e)
 (he : e.status.inSched = (s.queue q).status.inSched) (q' : Fin m) :
 (s'.queue q').status.inSched = (s.queue q').status.inSched := by
 rw [hq]
 by_cases hqq : q' = q
 · subst hqq
   simpa using he
 · rw [update_of_ne hqq]

lemma active_update_ne (hq : s'.queue = update s.queue q e) {q' : Fin m}
 (hne : q' ≠ q) : (s'.queue q').active = (s.queue q').active := by
 rw [hq,update_of_ne hne]

namespace Inv

lemma entry_step (h : Inv s) (hq : s'.queue = update s.queue q e)
 (f : Frame s s' t) (hp : (s.queue q).priQueue.isSome = true)
 (hd : (s.queue q).status ≠ .destroyed) (hcust : Custody (tokenAt s')) (hok : QueueOk q e)
 (hsched : ∀ u, u ≠ t → s.pc u = .scheduleQueue q → e.status.inSched = true)
 (hpc : (s'.pc t).Ok s'.queue) (hcreate : (s'.pc t).creating = none)
 (hlocal : (s'.schedLocal t).Ok s'.queue)
 (hscan : (s'.pc t).scanning = true → (s'.schedLocal t).priQueue = none) : Inv s' := by
 refine h.frame f hcust (fun q' => ?_) (fun u hu => ?_) hpc hcreate hlocal hscan
 · rw [hq]
   by_cases hqq : q' = q
   · subst hqq
     simpa using hok
   · simpa [hqq] using h.queue q'
 · rw [hq]
   exact (h.pc u).update (hsched u hu) (h.not_creating hp u) (h.not_finalize hd u)

lemma enq_sched (h : Inv s) (hpc : s.pc t = .idle) (hs : (s.queue q).status = .sched)
 (evs : List ε) : Inv (s.setQueue q { s.queue q with events := (s.queue q).events++evs }) := by
 have hp := (h.queue q).active (by simp [hs])
 have f : Frame s (s.setQueue q { s.queue q with events := (s.queue q).events++evs }) t :=
  Quiet.frame ⟨rfl,rfl,rfl,rfl,fun _ _ => rfl,fun _ _ => rfl⟩ rfl ⟨rfl,rfl,rfl,rfl⟩ (by simp [hs])
   (by simp [hs])
 refine h.entry_step rfl f hp (by simp [hs]) ?_ ?_ ?_ ?_ ?_ (f.local_ok (h.schedLocal t))
  (by simp [hpc,Pc.scanning])
 · refine f.custody h.custody (inSched_update rfl rfl) rfl ?_
   simp [hand,hpc,Pc.token]
 · exact ⟨(h.queue q).active,(h.queue q).pri,(h.queue q).free,(h.queue q).scheduled,fun _ => hs⟩
 · simp [hs]
 · simp [hpc]
 · simp [hpc]

lemma enq_notsched (h : Inv s) (hpc : s.pc t = .idle) (hs : (s.queue q).status = .notsched)
 (hp : (s.queue q).priQueue.isSome = true) (evs : List ε) :
 Inv ((s.setQueue q { s.queue q with events := (s.queue q).events++evs, status := .sched }).setPc
  t (.scheduleQueue q)) := by
 obtain ⟨priQ,hpri⟩ := Option.isSome_iff_exists.mp hp
 obtain ⟨ev,hev⟩ := Option.isSome_iff_exists.mp ((h.queue q).pri priQ hpri).2
 have f : Frame s ((s.setQueue q
  { s.queue q with events := (s.queue q).events++evs, status := .sched }).setPc
  t (.scheduleQueue q)) t :=
  Quiet.frame ⟨rfl,rfl,rfl,rfl,by simp +contextual,fun _ _ => rfl⟩ rfl
   ⟨rfl,rfl,rfl,rfl⟩ (by simp [hs]) (by simp)
 have hnone : (s.queue q).active = none := by simp [active,hs]
 refine h.entry_step rfl f hp (by simp [hs]) ?_ ?_ ?_ ?_ ?_ (f.local_ok (h.schedLocal t)) ?_
 · refine h.custody.move (balanced_claim (q := q) (x := ⟨ev,priQ⟩) (t := t) ?_ hnone ?_
    (fun q' hq' => active_update_ne rfl hq') rfl (fun u hu => f.hand hu) ?_)
   · intro q' hq'
     have := h.cmdEv_inj hev (active_eq_some.mp hq').2.1
     subst this
     simp [hnone] at hq'
   · simp [active_eq_some,hev,hpri]
   · have htok : token { s.queue q with
      events := (s.queue q).events++evs, status := .sched } = some ⟨ev,priQ⟩ :=
      token_eq_some.mpr ⟨hev,hpri⟩
     simp [hand,hpc,Pc.token,htok]
 · exact ⟨fun _ => hp,(h.queue q).pri,by simp,by simp,fun _ => rfl⟩
 · simp
 · simp
 · simp
 · simp [Pc.scanning]

lemma destroy_sched (h : Inv s) (hpc : s.pc t = .idle) (hs : (s.queue q).status = .sched)
 (he : (s.queue q).events = []) :
 Inv (s.setQueue q { s.queue q with status := .destroyed }) := by
 have hp := (h.queue q).active (by simp [hs])
 have f : Frame s (s.setQueue q { s.queue q with status := .destroyed }) t :=
  Quiet.frame ⟨rfl,rfl,rfl,rfl,fun _ _ => rfl,fun _ _ => rfl⟩ rfl ⟨rfl,rfl,rfl,rfl⟩ (by simp [hs])
   (by simp)
 refine h.entry_step rfl f hp (by simp [hs]) ?_ ?_ ?_ ?_ ?_ (f.local_ok (h.schedLocal t))
  (by simp [hpc,Pc.scanning])
 · refine f.custody h.custody (inSched_update rfl (by simp [hs])) rfl ?_
   simp [hand,hpc,Pc.token]
 · exact ⟨fun _ => hp,(h.queue q).pri,by simp,by simp,by simp [he]⟩
 · simp
 · simp [hpc]
 · simp [hpc]

end Inv

-- A thread with a command event in hand

namespace QueueEntry

lemma deqMulti_bad (h : e.status.bad = true) (num : Nat) : e.deqMulti num = (none,e) := by
 simp [deqMulti,h]

lemma deqMulti_empty (h : e.status = .sched) (he : e.events = []) (num : Nat) :
 e.deqMulti num = (some [],{ e with status := .notsched }) := by
 simp [deqMulti,h,he,Status.bad]

lemma deqMulti_take (h : e.status = .sched) (he : e.events ≠ []) (num : Nat) :
 e.deqMulti num = (some (e.events.take num),{ e with events := e.events.drop num }) := by
 simp only [deqMulti,h]
 split
 · contradiction
 · rfl

end QueueEntry

section RunCmd

variable {i : Fin schedPrios} {j max : Nat} {ev : CmdEvent}

lemma hand_gotCmd (hpc : s.pc t = .gotCmd i j max ev) (hl : (s.schedLocal t).priQueue = none) :
 s.hand t = [⟨ev,scanQueue t i j⟩] := by
 simp [hand,hpc,Pc.token,Local.held,hl]

namespace Inv

section

variable (h : Inv s) (hpc : s.pc t = .gotCmd i j max ev)

include h hpc

lemma runCmd_destroyed (hq : (s.queue q).active = some ⟨ev,scanQueue t i j⟩)
 (hb : (s.queue q).status.bad = true) : Inv (s.setPc t (.finalize i j max ev q)) := by
 obtain ⟨hin,hev,-⟩ := active_eq_some.mp hq
 have hd : (s.queue q).status = .destroyed := by
  cases hs : (s.queue q).status <;> simp_all [Status.bad]
 have hscan := h.scanning t (by rw [hpc]; rfl)
 have f : Frame s (s.setPc t (.finalize i j max ev q)) t := by
  constructor <;> simp +contextual
 refine h.thread_step rfl f ?_ ?_ ?_ (h.schedLocal t) (fun _ => hscan)
 · refine f.custody h.custody (fun _ => rfl) rfl ?_
   simp [hand,hpc,Pc.token]
 · simpa using ⟨hd,hev⟩
 · simp

lemma runCmd_empty (hq : (s.queue q).active = some ⟨ev,scanQueue t i j⟩)
 (hs : (s.queue q).status = .sched) (he : (s.queue q).events = []) :
 Inv ((s.setQueue q { s.queue q with status := .notsched }).setPc t (.scan i (j+1) max)) := by
 have hp := (h.queue q).active (by simp [hs])
 have hl := h.scanning t (by rw [hpc]; rfl)
 have hhand := hand_gotCmd hpc hl
 have f : Frame s ((s.setQueue q { s.queue q with status := .notsched }).setPc t
  (.scan i (j+1) max)) t :=
  Quiet.frame ⟨rfl,rfl,rfl,rfl,by simp +contextual,fun _ _ => rfl⟩ rfl
   ⟨rfl,rfl,rfl,rfl⟩ (by simp [hs]) (by simp)
 refine h.entry_step rfl f hp (by simp [hs]) ?_ ?_ ?_ ?_ ?_ (f.local_ok (h.schedLocal t))
  (fun _ => hl)
 · refine custody_drop (q := q) (x := ⟨ev,scanQueue t i j⟩) (t := t) h.custody
    (fun q' hq' => h.active_inj hq hq') hq ?_ (fun q' hq' => active_update_ne rfl hq') rfl
    (fun u hu => f.hand hu) ?_
   · simp [active]
   · rw [hhand]
     simp [hand,Pc.token,Local.held,hl]
 · exact ⟨by simp,(h.queue q).pri,by simp,by simp,by simp [he]⟩
 · -- a thread about to schedule the queue would have the same command event in hand
   intro u hu hpcu
   obtain ⟨-,hcmd,hpri⟩ := active_eq_some.mp hq
   have hmem := mem_hand_scheduleQueue hpcu (token_eq_some.mpr ⟨hcmd,hpri⟩)
   exact absurd (h.hand_unique hmem (by simp [hhand])) hu
 · simp
 · simp

/-- The thread takes events and holds the command event (atomic) or is about to put it back
(parallel). -/
lemma runCmd_take (hs : (s.queue q).status = .sched) {num : Nat} {l : Local ε m} {pc : Pc m}
 (hl : l.Ok s.queue) (hcase : l.held = some ⟨ev,scanQueue t i j⟩ ∧ pc = .idle ∨
  l.held = none ∧ pc = .contPri (scanQueue t i j) ev) :
 Inv (((s.setQueue q { s.queue q with events := (s.queue q).events.drop num }).setLocal t
  l).setPc t pc) := by
 have hp := (h.queue q).active (by simp [hs])
 have hhand := hand_gotCmd hpc (h.scanning t (by rw [hpc]; rfl))
 have f : Frame s (((s.setQueue q { s.queue q with
  events := (s.queue q).events.drop num }).setLocal t l).setPc t pc) t :=
  Quiet.frame ⟨rfl,rfl,rfl,rfl,by simp +contextual,by simp +contextual⟩ rfl
   ⟨rfl,rfl,rfl,rfl⟩ (by simp [hs]) (by simp [hs])
 have hnew : ∀ queue : Fin m → QueueEntry ε, pc.Ok queue ∧ pc.creating = none ∧
  pc.scanning = false ∧ l.held.toList++(pc.token queue t).toList =
   [⟨ev,scanQueue t i j⟩] := by
  rcases hcase with ⟨hheld,rfl⟩ | ⟨hheld,rfl⟩ <;> simp [Pc.scanning,Pc.token,hheld]
 refine h.entry_step rfl f hp (by simp [hs]) ?_ ?_ ?_ ?_ ?_ ?_ ?_
 · refine f.custody h.custody (inSched_update rfl rfl) rfl ?_
   rw [hhand]
   simp [hand,(hnew _).2.2.2]
 · exact ⟨(h.queue q).active,(h.queue q).pri,(h.queue q).free,(h.queue q).scheduled,fun _ => hs⟩
 · simp [hs]
 · simpa using (hnew _).1
 · simpa using (hnew s.queue).2.1
 · simpa using f.local_ok hl
 · simp [(hnew s.queue).2.2.1]

lemma runCmd (hq : s.cmdQe ev = some q) : Inv (s.runCmd t i j max ev q) := by
 have hscan := h.scanning t (by rw [hpc]; rfl)
 have hmem : (⟨ev,scanQueue t i j⟩ : Token) ∈ s.hand t := by simp [hand_gotCmd hpc hscan]
 obtain ⟨q',hact,hq'⟩ := h.exists_of_hand hmem
 obtain rfl : q' = q := Option.some.inj (hq'.symm.trans hq)
 obtain ⟨hin,hev,-⟩ := active_eq_some.mp hact
 simp only [runCmd]
 split_ifs with hgroup
 · exact h.enqPri (x := ⟨ev,scanQueue t i j⟩) (by rw [hpc]; rfl) (Pc.free_scan i (j+1) max)
    fun _ => by rw [hpc]; rfl
 by_cases hb : (s.queue q').status.bad = true
 · rw [deqMulti_bad hb]
   exact h.runCmd_destroyed hpc hact hb
 have hs : (s.queue q').status = .sched := by
  cases hs : (s.queue q').status <;> simp_all [Status.bad]
 by_cases he : (s.queue q').events = []
 · rw [deqMulti_empty hs he]
   exact h.runCmd_empty hpc hact hs he
 obtain ⟨b,bs,htake⟩ := List.exists_cons_of_ne_nil (l := (s.queue q').events.take maxDeq)
  (by simp [maxDeq,he])
 rw [deqMulti_take hs he,htake]
 -- the thread keeps its `sched_local` in order if it holds the context of an atomic queue
 have hl : ∀ p c, (p.isSome = true → c = some ev) →
  ((s.queue q').param.sync = .atomic → p = some (scanQueue t i j) ∧ c = some ev) →
  Local.Ok s.queue { (Local.copyEvents { s.schedLocal t with
   bufs := b::bs, qe := some q', gen := (s.queue q').gen } max) with
   priQueue := p, cmdEv := c } := by
  intro p c hp hat
  refine ⟨fun h => by simp [hp h],fun r hr => ?_,fun r hr _ _ _ hsync => ?_⟩
  all_goals cases hr
  · exact Nat.le_refl _
  · obtain ⟨rfl,rfl⟩ := hat hsync
    exact ⟨_,rfl,hev⟩
 cases hsync : (s.queue q').param.sync with
 | atomic =>
  exact h.runCmd_take hpc hs (hl _ _ (by simp) fun _ => ⟨rfl,rfl⟩) (.inl ⟨rfl,rfl⟩)
 | parallel =>
  refine h.runCmd_take hpc hs (hl (s.schedLocal t).priQueue (s.schedLocal t).cmdEv ?_ ?_)
   (.inr ⟨?_,rfl⟩)
  · simp [hscan]
  · simp [hsync]
  · simp [Local.held,Local.copyEvents,hscan]

end

end Inv

end RunCmd

end Packages.Scheduler

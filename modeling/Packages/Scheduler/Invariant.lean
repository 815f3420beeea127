import Packages.Scheduler.Tokens

/-!
# The invariant of the scheduler

Besides custody of the tokens: what a queue entry looks like in each status, which command event
belongs to which queue, what a thread inside a call knows about the queue it works on, and the
masks that tell which priority queues are in use.
-/

namespace Packages.Scheduler

open QueueEntry

open State (priIdQueue)

variable {ε : Type} {m n : Nat}

structure QueueOk (q : Fin m) (e : QueueEntry ε) : Prop where
 active : e.status.inSched = true → e.priQueue.isSome = true
 pri : ∀ priQ, e.priQueue = some priQ →
  priQ = (e.param.prio,priIdQueue q) ∧ e.cmdEv.isSome = true
 free : e.status = .free → e.cmdEv = none ∧ e.priQueue = none
 scheduled : e.status ≠ .ready
 events : e.events ≠ [] → e.status = .sched

/-- What a thread inside a call relies on. -/
def Pc.Ok (queue : Fin m → QueueEntry ε) : Pc m → Prop
 | .scheduleQueue q => (queue q).status.inSched = true
 | .initAlloc q =>
  (queue q).status = .notsched ∧ (queue q).cmdEv = none ∧ (queue q).priQueue = none
 | .initPri q =>
  (queue q).status = .notsched ∧ (queue q).cmdEv.isSome = true ∧ (queue q).priQueue = none
 | .finalize _ _ _ ev q => (queue q).status = .destroyed ∧ (queue q).cmdEv = some ev
 | _ => True

/-- The queue that the thread is creating. -/
def Pc.creating : Pc m → Option (Fin m)
 | .initAlloc q | .initPri q => some q
 | _ => none

/-- The thread is in the loops of `schedule`, which it enters without an atomic context. -/
def Pc.scanning : Pc m → Bool
 | .prio _ _ | .scan _ _ _ | .deqPri _ _ _ | .gotCmd _ _ _ _ | .finalize _ _ _ _ _ => true
 | _ => false

/-- A thread that has events of an atomic queue in its `sched_local` holds the queue's atomic
context. -/
structure Local.Ok (queue : Fin m → QueueEntry ε) (l : Local ε m) : Prop where
 held : l.priQueue.isSome = true → l.cmdEv.isSome = true
 gen : ∀ q, l.qe = some q → l.gen ≤ (queue q).gen
 bufs : ∀ q, l.qe = some q → l.bufs ≠ [] → (queue q).status ≠ .free →
  l.gen = (queue q).gen → (queue q).param.sync = .atomic →
  ∃ x, l.held = some x ∧ (queue q).cmdEv = some x.ev

/-- The queues registered at a priority queue. -/
def registered (queue : Fin m → QueueEntry ε) (priQ : PriQueue) : Finset (Fin m) :=
 Finset.univ.filter fun q => (queue q).priQueue = some priQ

structure Inv (s : State ε m n) : Prop where
 custody : Custody (tokenAt s)
 queue : ∀ q, QueueOk q (s.queue q)
 owner : ∀ q ev, (s.queue q).cmdEv = some ev → s.cmdQe ev = some q ∧ s.used ev = true
 pc : ∀ t, (s.pc t).Ok s.queue
 creator : ∀ t u q, (s.pc t).creating = some q → (s.pc u).creating = some q → t = u
 schedLocal : ∀ t, (s.schedLocal t).Ok s.queue
 scanning : ∀ t, (s.pc t).scanning = true → (s.schedLocal t).priQueue = none
 count : ∀ priQ, s.priCount priQ = (registered s.queue priQ).card
 mask : ∀ priQ, s.priMask priQ = decide (0 < s.priCount priQ)

namespace Inv

variable {s s' : State ε m n} {t u : Fin n} {q q' : Fin m} {x : Token}

lemma cmdEv_inj (h : Inv s) {ev : CmdEvent} (hq : (s.queue q).cmdEv = some ev)
 (hq' : (s.queue q').cmdEv = some ev) : q' = q :=
 Option.some.inj ((h.owner q' ev hq').1.symm.trans (h.owner q ev hq).1)

lemma active_inj (h : Inv s) (hq : (s.queue q).active = some x)
 (hq' : (s.queue q').active = some x) : q' = q :=
 h.cmdEv_inj (active_eq_some.mp hq).2.1 (active_eq_some.mp hq').2.1

lemma exists_token (h : Inv s) (hs : (s.queue q).status.inSched = true) :
 ∃ x, (s.queue q).active = some x := by
 obtain ⟨priQ,hp⟩ := Option.isSome_iff_exists.mp ((h.queue q).active hs)
 obtain ⟨ev,hev⟩ := Option.isSome_iff_exists.mp ((h.queue q).pri priQ hp).2
 exact ⟨⟨ev,priQ⟩,active_eq_some.mpr ⟨hs,hev,hp⟩⟩

lemma hand_unique (h : Inv s) (ht : x ∈ s.hand t) (hu : x ∈ s.hand u) : t = u := by
 have := h.custody.unique (p := .hand t) (q := .hand u)
  (List.count_pos_iff.mpr ht).ne' (List.count_pos_iff.mpr hu).ne'
 simpa using this

lemma exists_of_hand (h : Inv s) (hx : x ∈ s.hand t) :
 ∃ q, (s.queue q).active = some x ∧ s.cmdQe x.ev = some q := by
 obtain ⟨q,hq⟩ := exists_active_of_hand h.custody hx
 exact ⟨q,hq,(h.owner q _ (active_eq_some.mp hq).2.1).1⟩

lemma mem_hand_scheduleQueue (hpc : s.pc t = .scheduleQueue q)
 (hx : (s.queue q).token = some x) : x ∈ s.hand t := by
 simp [State.hand,hpc,Pc.token,hx]

end Inv

/-- What the steps leave alone that neither create nor free a queue. -/
structure Frame (s s' : State ε m n) (t : Fin n) : Prop where
 used : s'.used = s.used
 cmdQe : s'.cmdQe = s.cmdQe
 priMask : s'.priMask = s.priMask
 priCount : s'.priCount = s.priCount
 pc : ∀ u, u ≠ t → s'.pc u = s.pc u
 schedLocal : ∀ u, u ≠ t → s'.schedLocal u = s.schedLocal u
 cmdEv : ∀ q, (s'.queue q).cmdEv = (s.queue q).cmdEv
 priQueue : ∀ q, (s'.queue q).priQueue = (s.queue q).priQueue
 param : ∀ q, (s'.queue q).param = (s.queue q).param
 gen : ∀ q, (s'.queue q).gen = (s.queue q).gen
 free : ∀ q, (s'.queue q).status = .free ↔ (s.queue q).status = .free

namespace Frame

variable {s s' : State ε m n} {t : Fin n}

lemma hand (f : Frame s s' t) {u : Fin n} (hu : u ≠ t) : s'.hand u = s.hand u :=
 hand_congr (f.pc u hu) (f.schedLocal u hu) fun q _ =>
  token_congr (f.cmdEv q) (f.priQueue q)

lemma custody (f : Frame s s' t) (h : Custody (tokenAt s))
 (hin : ∀ q, (s'.queue q).status.inSched = (s.queue q).status.inSched)
 (hpri : s'.priQueue = s.priQueue) (ht : (s'.hand t).Perm (s.hand t)) :
 Custody (tokenAt s') := by
 refine custody_keep h (fun q => ?_) hpri fun u => ?_
 · exact active_congr (hin q) (f.cmdEv q) (f.priQueue q)
 · by_cases hu : u = t
   · exact hu ▸ ht
   · rw [f.hand hu]

lemma local_ok (f : Frame s s' t) {l : Local ε m} (hl : l.Ok s.queue) : l.Ok s'.queue where
 held := hl.held
 gen q hq := f.gen q ▸ hl.gen q hq
 bufs q hq hb hs hg ha := by
  rw [f.cmdEv]
  exact hl.bufs q hq hb (mt (f.free q).mpr hs) (f.gen q ▸ hg) (f.param q ▸ ha)

end Frame

namespace Inv

variable {s s' : State ε m n} {t : Fin n}

lemma frame (h : Inv s) (f : Frame s s' t) (hcust : Custody (tokenAt s'))
 (hqueue : ∀ q, QueueOk q (s'.queue q)) (hothers : ∀ u, u ≠ t → (s.pc u).Ok s'.queue)
 (hpc : (s'.pc t).Ok s'.queue) (hcreate : (s'.pc t).creating = none)
 (hlocal : (s'.schedLocal t).Ok s'.queue)
 (hscan : (s'.pc t).scanning = true → (s'.schedLocal t).priQueue = none) : Inv s' where
 custody := hcust
 queue := hqueue
 owner q ev hq := by
  rw [f.cmdQe,f.used]
  exact h.owner q ev (f.cmdEv q ▸ hq)
 pc u := by
  by_cases hu : u = t
  · exact hu ▸ hpc
  · exact f.pc u hu ▸ hothers u hu
 creator a b q ha hb := by
  have hat : a ≠ t := by rintro rfl; simp [hcreate] at ha
  have hbt : b ≠ t := by rintro rfl; simp [hcreate] at hb
  exact h.creator a b q (f.pc a hat ▸ ha) (f.pc b hbt ▸ hb)
 schedLocal u := by
  by_cases hu : u = t
  · exact hu ▸ hlocal
  · exact f.schedLocal u hu ▸ f.local_ok (h.schedLocal u)
 scanning u := by
  by_cases hu : u = t
  · exact hu ▸ hscan
  · rw [f.pc u hu,f.schedLocal u hu]
    exact h.scanning u
 count priQ := by
  rw [f.priCount,h.count]
  simp [registered,f.priQueue]
 mask priQ := by rw [f.priMask,f.priCount,h.mask]

lemma thread_step (h : Inv s) (hq : s'.queue = s.queue) (f : Frame s s' t)
 (hcust : Custody (tokenAt s')) (hpc : (s'.pc t).Ok s.queue)
 (hcreate : (s'.pc t).creating = none) (hlocal : (s'.schedLocal t).Ok s.queue)
 (hscan : (s'.pc t).scanning = true → (s'.schedLocal t).priQueue = none) : Inv s' :=
 h.frame f hcust (fun q => hq ▸ h.queue q) (fun u _ => hq ▸ h.pc u) (hq ▸ hpc) hcreate
  (hq ▸ hlocal) hscan

end Inv

end Packages.Scheduler

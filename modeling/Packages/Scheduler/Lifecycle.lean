import Packages.Scheduler.Table

/-!
# Creating and freeing a queue

`odp_queue_create` takes a free slot, then fetches a command event and registers the queue at its
priority queue. The slot is freed by `odp_queue_destroy`, or by the thread that finds the command
event of a destroyed queue.
-/

namespace Packages.Scheduler

open Function QueueEntry Option

open State

variable {ε : Type} {m n : Nat} {s s' : State ε m n} {t : Fin n} {q : Fin m} {e : QueueEntry ε}

attribute [local simp] setQueue setPc init initPri priSet Pc.scanning Pc.creating

lemma card_registered_update (queue : Fin m → QueueEntry ε) (q : Fin m) (e : QueueEntry ε)
 (priQ : PriQueue) :
 (registered (update queue q e) priQ).card+(if (queue q).priQueue = some priQ then 1 else 0) =
  (registered queue priQ).card+(if e.priQueue = some priQ then 1 else 0) := by
 have hsplit : ∀ f : Fin m → QueueEntry ε, (registered f priQ).card =
  (if (f q).priQueue = some priQ then 1 else 0) +
   ∑ r ∈ Finset.univ.erase q, if (f r).priQueue = some priQ then 1 else 0 := by
  intro f
  rw [registered,Finset.card_eq_sum_ones,Finset.sum_filter,
   Finset.add_sum_erase _ (fun r => if (f r).priQueue = some priQ then 1 else 0)
    (Finset.mem_univ q)]
 have hrest : ∑ r ∈ Finset.univ.erase q,
  (if (update queue q e r).priQueue = some priQ then 1 else 0) =
  ∑ r ∈ Finset.univ.erase q, if (queue r).priQueue = some priQ then 1 else 0 := by
  refine Finset.sum_congr rfl fun r hr => ?_
  rw [update_of_ne (Finset.ne_of_mem_erase hr)]
 rw [hsplit,hsplit queue,hrest,update_self]
 omega

lemma Local.Ok.update {queue : Fin m → QueueEntry ε} {l : Local ε m} (h : l.Ok queue)
 (hgen : (queue q).gen ≤ e.gen)
 (hbufs : l.qe = some q → l.bufs ≠ [] → e.status ≠ .free → l.gen = e.gen →
  e.param.sync = .atomic → ∃ x, l.held = some x ∧ e.cmdEv = some x.ev) :
 l.Ok (update queue q e) := by
 refine ⟨h.held,fun r hr => ?_,fun r hr => ?_⟩
 · by_cases hrq : r = q
   · subst hrq
     simpa using le_trans (h.gen r hr) hgen
   · simpa [hrq] using h.gen r hr
 · by_cases hrq : r = q
   · subst hrq
     simpa using hbufs hr
   · simpa [hrq] using h.bufs r hr

namespace Inv

section

variable (h : Inv s)

include h

lemma table_step (hq : s'.queue = update s.queue q e)
 (hpcs : ∀ u, u ≠ t → s'.pc u = s.pc u) (hlocals : s'.schedLocal = s.schedLocal)
 (howner : ∀ ev, e.cmdEv = some ev → s'.cmdQe ev = some q ∧ s'.used ev = true)
 (hothers : ∀ r, r ≠ q → ∀ ev, (s.queue r).cmdEv = some ev →
  s'.cmdQe ev = s.cmdQe ev ∧ s'.used ev = s.used ev)
 (hcust : Custody (tokenAt s')) (hok : QueueOk q e)
 (hsched : ∀ u, u ≠ t → s.pc u ≠ .scheduleQueue q)
 (hcreate : ∀ u, u ≠ t → (s.pc u).creating ≠ some q)
 (hfin : ∀ u, u ≠ t → ∀ i j max ev, s.pc u ≠ .finalize i j max ev q)
 (hpc : (s'.pc t).Ok s'.queue) (hcreating : ∀ r, (s'.pc t).creating = some r → r = q)
 (hlocal : ∀ u, (s.schedLocal u).Ok s'.queue)
 (hscan : (s'.pc t).scanning = true → (s.schedLocal t).priQueue = none)
 (hcount : ∀ priQ, s'.priCount priQ = (registered s'.queue priQ).card)
 (hmask : ∀ priQ, s'.priMask priQ = decide (0 < s'.priCount priQ)) : Inv s' where
 custody := hcust
 queue r := by
  by_cases hrq : r = q
  · subst hrq
    simpa [hq] using hok
  · simpa [hq,hrq] using h.queue r
 owner r ev hr := by
  by_cases hrq : r = q
  · subst hrq
    exact howner ev (by simpa [hq] using hr)
  · have hr : (s.queue r).cmdEv = some ev := by simpa [hq,hrq] using hr
    rw [(hothers r hrq ev hr).1,(hothers r hrq ev hr).2]
    exact h.owner r ev hr
 pc u := by
  by_cases hu : u = t
  · exact hu ▸ hpc
  · rw [hpcs u hu,hq]
    exact (h.pc u).update (fun hs => absurd hs (hsched u hu)) (hcreate u hu) (hfin u hu)
 creator a b r ha hb := by
  by_cases hat : a = t <;> by_cases hbt : b = t
  · rw [hat,hbt]
  · subst hat
    obtain rfl := hcreating r ha
    exact absurd (hpcs b hbt ▸ hb) (hcreate b hbt)
  · subst hbt
    obtain rfl := hcreating r hb
    exact absurd (hpcs a hat ▸ ha) (hcreate a hat)
  · exact h.creator a b r (hpcs a hat ▸ ha) (hpcs b hbt ▸ hb)
 schedLocal u := by
  rw [hlocals]
  exact hlocal u
 scanning u := by
  rw [hlocals]
  by_cases hu : u = t
  · exact hu ▸ hscan
  · rw [hpcs u hu]
    exact h.scanning u
 count := hcount
 mask := hmask

lemma untouched_of_free (hf : (s.queue q).status = .free) (u : Fin n) :
 (s.pc u).creating ≠ some q ∧ ∀ i j max ev, s.pc u ≠ .finalize i j max ev q := by
 refine ⟨fun hc => ?_,h.not_finalize (by simp [hf]) u⟩
 have hok := h.pc u
 cases hpc : s.pc u <;> simp only [hpc,Pc.creating,some.injEq,reduceCtorEq] at hc
 all_goals
  subst hc
  simp [hpc,Pc.Ok,hf] at hok

lemma not_scheduleQueue (hq : (s.queue q).status.inSched = false) (u : Fin n) :
 s.pc u ≠ .scheduleQueue q := by
 intro hpc
 have hok := h.pc u
 rw [hpc] at hok
 exact Bool.false_ne_true (hq.symm.trans hok)

lemma custody_idle (hq : s'.queue = update s.queue q e)
 (hold : (s.queue q).status.inSched = false) (hnew : e.status.inSched = false)
 (hpri : s'.priQueue = s.priQueue) (hpcs : ∀ u, u ≠ t → s'.pc u = s.pc u)
 (hlocals : s'.schedLocal = s.schedLocal) (htok : (s.pc t).token s.queue t = none)
 (htok' : (s'.pc t).token s'.queue t = none) : Custody (tokenAt s') := by
 refine custody_keep h.custody (fun r => ?_) hpri fun u => ?_
 · by_cases hr : r = q
   · subst hr
     simp [hq,active,hold,hnew]
   · exact active_update_ne hq hr
 · by_cases hu : u = t
   · subst hu
     simp [hand,hlocals,htok,htok']
   · rw [hand_congr (hpcs u hu) (by rw [hlocals]) fun r hr => ?_]
     rw [hq,update_of_ne]
     rintro rfl
     exact h.not_scheduleQueue hold u hr

lemma create (hpc : s.pc t = .idle) (hf : (s.queue q).status = .free)
 (param : Param) : Inv (s.create t q param) := by
 have hfree := (h.queue q).free hf
 have he : (s.queue q).events = [] := by
  by_contra he
  simp [(h.queue q).events he] at hf
 have hin : (s.queue q).status.inSched = false := by simp [hf,Status.inSched]
 have hsched : ∀ u, u ≠ t → s.pc u ≠ .scheduleQueue q := fun u _ => h.not_scheduleQueue hin u
 have hun := h.untouched_of_free hf
 have htok : (s.pc t).token s.queue t = none := by rw [hpc]; rfl
 unfold State.create
 split_ifs with hlock
 · -- too many locks: the slot stays free
   refine h.table_step (q := q) (t := t) rfl (fun _ _ => rfl) rfl (by simp [hfree.1])
    (fun _ _ _ _ => ⟨rfl,rfl⟩) ?_ ?_ hsched (fun u _ => (hun u).1) (fun u _ => (hun u).2) ?_ ?_
    (fun u => ?_) ?_ (fun priQ => ?_) (fun priQ => h.mask priQ)
   · exact h.custody_idle (t := t) rfl hin hin rfl (fun _ _ => rfl) rfl htok
      (by simp [hpc,Pc.token])
   · exact ⟨by simp [hf,Status.inSched],by simp [hfree.2],fun _ => hfree,by simp [hf],by simp [he]⟩
   · simp [hpc,Pc.Ok]
   · simp [hpc]
   · exact (h.schedLocal u).update (Nat.le_refl _) (by simp [hf])
   · simp [hpc]
   · have := card_registered_update s.queue q { s.queue q with param := param } priQ
     simp only [Nat.add_right_cancel_iff] at this
     exact (h.count priQ).trans this.symm
 · have hpcs : ∀ u, u ≠ t → ((s.setQueue q ((s.queue q).init param)).setPc t (.initAlloc q)).pc u =
    s.pc u := by simp +contextual
   refine h.table_step (q := q) (t := t) rfl hpcs rfl (by simp)
    (fun _ _ _ _ => ⟨rfl,rfl⟩) ?_ ?_ hsched (fun u _ => (hun u).1) (fun u _ => (hun u).2) ?_ ?_
    (fun u => ?_) ?_ (fun priQ => ?_) (fun priQ => h.mask priQ)
   · exact h.custody_idle rfl hin (by simp [Status.inSched]) rfl hpcs rfl htok (by simp [Pc.token])
   · exact ⟨by simp [Status.inSched],by simp,by simp,by simp,by simp⟩
   · simp [Pc.Ok]
   · simp
   · refine (h.schedLocal u).update (Nat.le_succ _) fun hu _ _ hg => ?_
     have := (h.schedLocal u).gen q hu
     simp only [init] at hg
     omega
   · simp
   · have := card_registered_update s.queue q ((s.queue q).init param) priQ
     simp only [hfree.2,init,reduceCtorEq,if_false,Nat.add_zero] at this
     exact (h.count priQ).trans this.symm

lemma alone_of_creating (hc : (s.pc t).creating = some q)
 (hs : (s.queue q).status = .notsched) (u : Fin n) (hu : u ≠ t) :
 s.pc u ≠ .scheduleQueue q ∧ (s.pc u).creating ≠ some q ∧
  ∀ i j max ev, s.pc u ≠ .finalize i j max ev q :=
 ⟨h.not_scheduleQueue (by simp [hs,Status.inSched]) u,fun hcu => hu (h.creator u t q hcu hc),
  h.not_finalize (by simp [hs]) u⟩

lemma initAlloc_some (hpc : s.pc t = .initAlloc q) {ev : CmdEvent}
 (hev : s.used ev = false) :
 Inv (({ s with
  used := update s.used ev true
  cmdQe := update s.cmdQe ev (some q) }.setQueue q
   { s.queue q with cmdEv := some ev }).setPc t (.initPri q)) := by
 have hok := h.pc t
 simp only [hpc,Pc.Ok] at hok
 obtain ⟨hs,hcmd,hpri⟩ := hok
 have hin : (s.queue q).status.inSched = false := by simp [hs,Status.inSched]
 have halone := h.alone_of_creating (by rw [hpc]; rfl) hs
 have hpcs : ∀ u, u ≠ t → (({ s with
  used := update s.used ev true
  cmdQe := update s.cmdQe ev (some q) }.setQueue q
   { s.queue q with cmdEv := some ev }).setPc t (.initPri q)).pc u = s.pc u := by
  simp +contextual
 refine h.table_step (q := q) (t := t) rfl hpcs rfl ?_ ?_ ?_ ?_ (fun u hu => (halone u hu).1)
  (fun u hu => (halone u hu).2.1) (fun u hu => (halone u hu).2.2) ?_ ?_ (fun u => ?_) ?_
  (fun priQ => ?_) (fun priQ => h.mask priQ)
 · intro ev' hev'
   cases hev'
   simp
 · intro r _ ev' hev'
   have hne : ev' ≠ ev := by
    rintro rfl
    simp [(h.owner r ev' hev').2] at hev
   simp [hne]
 · exact h.custody_idle rfl hin hin rfl hpcs rfl (by rw [hpc]; rfl) (by simp [Pc.token])
 · exact ⟨by simp [hs,Status.inSched],by simp [hpri],by simp [hs],by simp [hs],(h.queue q).events⟩
 · simp [Pc.Ok,hs,hpri]
 · simp
 · refine (h.schedLocal u).update (Nat.le_refl _) fun hq hb hf hg ha => ?_
   obtain ⟨x,-,hx⟩ := (h.schedLocal u).bufs q hq hb hf hg ha
   simp [hcmd] at hx
 · simp
 · have := card_registered_update s.queue q { s.queue q with cmdEv := some ev } priQ
   simp only [Nat.add_right_cancel_iff] at this
   exact (h.count priQ).trans this.symm

lemma initPri (hpc : s.pc t = .initPri q) : Inv (s.initPri t q) := by
 have hok := h.pc t
 simp only [hpc,Pc.Ok] at hok
 obtain ⟨hs,hcmd,hpri⟩ := hok
 have hin : (s.queue q).status.inSched = false := by simp [hs,Status.inSched]
 have halone := h.alone_of_creating (by rw [hpc]; rfl) hs
 have hpcs : ∀ u, u ≠ t → (s.initPri t q).pc u = s.pc u := by
  simp +contextual
 have hidle : (s.initPri t q).pc t = .idle := by simp
 refine h.table_step (q := q) (t := t) rfl hpcs rfl (h.owner q) (fun _ _ _ _ => ⟨rfl,rfl⟩) ?_ ?_
  (fun u hu => (halone u hu).1) (fun u hu => (halone u hu).2.1) (fun u hu => (halone u hu).2.2)
  ?_ ?_ (fun u => ?_) ?_ (fun priQ => ?_) (fun priQ => ?_)
 · exact h.custody_idle rfl hin hin rfl hpcs rfl (by rw [hpc]; rfl) (by rw [hidle]; rfl)
 · exact ⟨fun _ => rfl,fun priQ hp => ⟨(some.inj hp).symm,hcmd⟩,by simp [hs],by simp [hs],
    (h.queue q).events⟩
 · rw [hidle]
   trivial
 · simp
 · exact (h.schedLocal u).update (Nat.le_refl _) ((h.schedLocal u).bufs q)
 · simp
 · have := card_registered_update s.queue q
    { s.queue q with priQueue := some ((s.queue q).param.prio,priIdQueue q) } priQ
   have hcount := h.count priQ
   by_cases hp : ((s.queue q).param.prio,priIdQueue q) = priQ
   · subst hp
     simp [hpri] at this
     simp [this,hcount]
   · simp [hpri,hp] at this
     simp [this,hcount,Ne.symm hp]
 · by_cases hp : priQ = ((s.queue q).param.prio,priIdQueue q)
   · subst hp
     simp
   · simp [hp,h.mask]

end

end Inv

-- Freeing a queue

/-- The entry that `schedule_queue_destroy` leaves behind. -/
def QueueEntry.freed (e : QueueEntry ε) : QueueEntry ε :=
 { e with status := .free, cmdEv := none, priQueue := none }

attribute [local simp] freed

/-- The slot is freed under the queue's lock, and the thread goes on at `pc`. -/
def State.free (s : State ε m n) (t : Fin n) (q : Fin m) (pc : Pc m) : State ε m n :=
 ((s.setQueue q { s.queue q with status := .free }).scheduleQueueDestroy q).setPc t pc

section Free

variable {pc : Pc m} {x : Token}

lemma free_queue (s : State ε m n) (t : Fin n) (q : Fin m) (pc : Pc m) :
 (s.free t q pc).queue = update s.queue q (s.queue q).freed := by
 simp only [free,scheduleQueueDestroy,priClr]
 cases (s.queue q).cmdEv <;> simp

lemma free_used {ev : CmdEvent} (hev : (s.queue q).cmdEv = some ev) :
 (s.free t q pc).used = update s.used ev false := by
 simp [free,scheduleQueueDestroy,priClr,hev]

lemma free_same (s : State ε m n) (t : Fin n) (q : Fin m) (pc : Pc m) :
 (s.free t q pc).cmdQe = s.cmdQe ∧ (s.free t q pc).priQueue = s.priQueue ∧
  (s.free t q pc).schedLocal = s.schedLocal ∧ (s.free t q pc).pc = update s.pc t pc := by
 simp only [free,setPc,scheduleQueueDestroy,setQueue,priClr]
 cases (s.queue q).cmdEv <;> simp

lemma free_priCount (s : State ε m n) (t : Fin n) (q : Fin m) (pc : Pc m) :
 (s.free t q pc).priCount = update s.priCount ((s.queue q).param.prio,priIdQueue q)
  (s.priCount ((s.queue q).param.prio,priIdQueue q)-1) := by
 simp only [free,scheduleQueueDestroy,priClr]
 cases (s.queue q).cmdEv <;> simp

lemma free_priMask (s : State ε m n) (t : Fin n) (q : Fin m) (pc : Pc m) :
 (s.free t q pc).priMask = if s.priCount ((s.queue q).param.prio,priIdQueue q)-1 = 0 then
  update s.priMask ((s.queue q).param.prio,priIdQueue q) false
  else s.priMask := by
 simp only [free,scheduleQueueDestroy,setQueue,priClr,update_self]
 cases (s.queue q).cmdEv <;> simp

namespace Inv

lemma free_step (h : Inv s) (hx : (s.queue q).token = some x)
 (he : (s.queue q).events = []) (hcust : Custody (tokenAt (s.free t q pc)))
 (hsched : ∀ u, u ≠ t → s.pc u ≠ .scheduleQueue q)
 (hfin : ∀ u, u ≠ t → ∀ i j max ev, s.pc u ≠ .finalize i j max ev q)
 (hpc : ∀ queue : Fin m → QueueEntry ε, pc.Free queue t)
 (hscan : pc.scanning = true → (s.schedLocal t).priQueue = none) : Inv (s.free t q pc) := by
 obtain ⟨hev,hpri⟩ := token_eq_some.mp hx
 obtain ⟨hcmdQe,-,hlocals,hpcs⟩ := free_same s t q pc
 have hp : x.priQ = ((s.queue q).param.prio,priIdQueue q) := ((h.queue q).pri _ hpri).1
 refine h.table_step (q := q) (t := t) (free_queue s t q pc) ?_ hlocals (by simp) ?_ hcust ?_
  hsched (fun u _ => h.not_creating (by simp [hpri]) u) hfin ?_ ?_ (fun u => ?_) ?_
  (fun priQ => ?_) (fun priQ => ?_)
 · intro u hu
   rw [hpcs,update_of_ne hu]
 · intro r hr ev' hev'
   have hne : ev' ≠ x.ev := by
    rintro rfl
    exact hr (h.cmdEv_inj hev hev')
   rw [hcmdQe,free_used hev,update_of_ne hne]
   exact ⟨rfl,rfl⟩
 · exact ⟨by simp [Status.inSched],by simp,by simp,by simp,by simp [he]⟩
 · rw [hpcs,update_self]
   exact (hpc _).ok
 · rw [hpcs,update_self,(hpc s.queue).creating]
   simp
 · rw [free_queue]
   exact (h.schedLocal u).update (Nat.le_refl _) (by simp)
 · rw [hpcs,update_self]
   exact hscan
 · have hcard := card_registered_update s.queue q (s.queue q).freed priQ
   rw [free_priCount,free_queue,← hp]
   rw [hpri,← h.count,show (s.queue q).freed.priQueue = none from rfl] at hcard
   by_cases hpq : priQ = x.priQ
   · subst hpq
     simp only [if_true,reduceCtorEq,if_false] at hcard
     rw [update_self]
     omega
   · simp only [some.injEq,Ne.symm hpq,reduceCtorEq,if_false] at hcard
     rw [update_of_ne hpq]
     omega
 · have hmask := h.mask priQ
   rw [free_priCount,free_priMask,← hp]
   by_cases hpq : priQ = x.priQ
   · subst hpq
     by_cases hz : s.priCount x.priQ-1 = 0
     · simp [hz]
     · simp [hz,hmask]
       omega
   · split_ifs <;> simp [hpq,hmask]

lemma destroy_notsched (h : Inv s) (hpc : s.pc t = .idle)
 (hs : (s.queue q).status = .notsched) (hp : (s.queue q).priQueue.isSome = true)
 (he : (s.queue q).events = []) : Inv (s.free t q .idle) := by
 have hin : (s.queue q).status.inSched = false := by simp [hs,Status.inSched]
 obtain ⟨priQ,hpri⟩ := isSome_iff_exists.mp hp
 obtain ⟨ev,hev⟩ := isSome_iff_exists.mp ((h.queue q).pri priQ hpri).2
 obtain ⟨-,hpris,hlocals,hpcs⟩ := free_same s t q .idle
 refine h.free_step (x := ⟨ev,priQ⟩) (token_eq_some.mpr ⟨hev,hpri⟩) he ?_
  (fun u _ => h.not_scheduleQueue hin u) (fun u _ => h.not_finalize (by simp [hs]) u)
  (fun _ => Pc.free_idle) (by simp)
 refine h.custody_idle (t := t) (free_queue s t q .idle) hin rfl hpris ?_
  hlocals (by rw [hpc]; rfl) (by simp [hpcs,Pc.token])
 intro u hu
 rw [hpcs,update_of_ne hu]

lemma finalize (h : Inv s) {i : Fin schedPrios} {j max : Nat} {ev : CmdEvent}
 (hpc : s.pc t = .finalize i j max ev q) :
 Inv ((s.destroyFinalize q).setPc t (.scan i (j+1) max)) := by
 have hok := h.pc t
 simp only [hpc,Pc.Ok] at hok
 obtain ⟨hs,hev⟩ := hok
 have hscan := h.scanning t (by rw [hpc]; rfl)
 obtain ⟨hcmdQe,hpris,hlocals,hpcs⟩ := free_same s t q (.scan i (j+1) max)
 have hhand : s.hand t = [⟨ev,scanQueue t i j⟩] := by
  simp [hand,hpc,Pc.token,Local.held,hscan]
 -- the token in hand is the queue's
 have hact : (s.queue q).active = some ⟨ev,scanQueue t i j⟩ := by
  obtain ⟨r,hr,-⟩ := h.exists_of_hand (t := t) (x := ⟨ev,scanQueue t i j⟩) (by simp [hhand])
  obtain rfl := h.cmdEv_inj hev (active_eq_some.mp hr).2.1
  exact hr
 have htok := token_eq_some.mpr (active_eq_some.mp hact).2
 have hne : ∀ u, u ≠ t → s.pc u ≠ .scheduleQueue q := fun u hu hpcu =>
  hu (h.hand_unique (mem_hand_scheduleQueue hpcu htok) (by simp [hhand]))
 have he : (s.queue q).events = [] := by
  by_contra he
  simp [(h.queue q).events he] at hs
 have hfinal : (s.destroyFinalize q).setPc t (.scan i (j+1) max) =
  s.free t q (.scan i (j+1) max) := by
  simp [destroyFinalize,hs,free]
 rw [hfinal]
 refine h.free_step htok he ?_ hne ?_ (fun _ => Pc.free_scan i (j+1) max) (fun _ => hscan)
 · refine custody_drop (t := t) h.custody
    (fun r hr => h.active_inj hact hr) hact ?_
    (fun r hr => active_update_ne (free_queue s t q _) hr) hpris (fun u hu => ?_) ?_
   · simp [free_queue,active,Status.inSched]
   · refine hand_congr (by rw [hpcs,update_of_ne hu]) (by rw [hlocals]) fun r hr => ?_
     rw [free_queue,update_of_ne]
     rintro rfl
     exact hne u hu hr
   · rw [hhand]
     simp [hand,hpcs,hlocals,Pc.token,Local.held,hscan]
 · -- another thread at the same place would have the same command event in hand
   intro u hu i' j' max' ev' hpcu
   have hoku := h.pc u
   simp only [hpcu] at hoku
   obtain rfl : ev' = ev := some.inj (hoku.2.symm.trans hev)
   have hmem : (⟨ev',scanQueue u i' j'⟩ : Token) ∈ s.hand u := by
    simp [hand,hpcu,Pc.token]
   obtain ⟨r,hr,-⟩ := h.exists_of_hand hmem
   obtain rfl := h.cmdEv_inj hev (active_eq_some.mp hr).2.1
   rw [hr] at hact
   rw [some.inj hact] at hmem
   exact hu (h.hand_unique hmem (by simp [hhand]))

end Inv

end Free

end Packages.Scheduler

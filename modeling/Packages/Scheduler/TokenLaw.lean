import Packages.Scheduler.Lifecycle

/-!
# The token law of the scheduler

In every reachable state the command event of a queue in scheduling is in one place, and a queue
with pending events is in scheduling. So no wakeup is lost, and an atomic queue serves one thread
at a time.
-/

namespace Packages.Scheduler

open State QueueEntry Option List

variable {ε : Type} {m n : Nat} {s s' : State ε m n} {t : Fin n} {q : Fin m}

attribute [local simp] setPc Status.inSched Pc.scanning

-- Whole runs

lemma setPc_self {pc : Pc m} (h : s.pc t = pc) : s.setPc t pc = s := by
 subst h
 simp

lemma pc_scheduleQueueDestroy (s : State ε m n) (q : Fin m) :
 (s.scheduleQueueDestroy q).pc = s.pc := by
 simp only [scheduleQueueDestroy]
 cases (s.queue q).cmdEv <;> rfl

namespace Inv

section

variable (h : Inv s) (hpc : s.pc t = .idle)
 (hcall : (s.queue q).status = .notsched → (s.queue q).priQueue.isSome = true)

include h hpc hcall

lemma enqMulti (evs : List ε) : Inv (s.enqMulti t q evs) := by
 simp only [State.enqMulti]
 split_ifs with hb hs
 · exact h
 · exact h.enq_notsched hpc hs (hcall hs) evs
 · have hsched : (s.queue q).status = .sched := by
    have := (h.queue q).scheduled
    cases hst : (s.queue q).status <;> simp_all [Status.bad]
   exact h.enq_sched hpc hsched evs

lemma destroy : Inv (s.destroy q) := by
 simp only [State.destroy]
 split_ifs with hb hr hs
 · exact h
 · exact absurd hr (h.queue q).scheduled
 · have he : (s.queue q).events = [] := by
    by_contra he
    exact hb (.inr (.inr he))
   have hfree : s.free t q .idle =
    (s.setQueue q { s.queue q with status := .free }).scheduleQueueDestroy q := by
    refine setPc_self ?_
    rw [pc_scheduleQueueDestroy]
    exact hpc
   exact hfree ▸ h.destroy_notsched hpc hs (hcall hs) he
 · have hsched : (s.queue q).status = .sched := by
    cases hst : (s.queue q).status <;> simp_all
   exact h.destroy_sched hpc hsched (by
    by_contra he
    exact hb (.inr (.inr he)))

end

lemma call (h : Inv s) {a : Action ε m n} (hpc : s.pc a.thread = .idle) (ha : CallerOk s a)
 (hcall : s.call a = some s') : Inv s' := by
 cases a with
 | enq t q ev =>
  cases hcall
  exact h.enqMulti hpc ha [ev]
 | enqMulti t q evs =>
  simp only [State.call] at hcall
  split_ifs at hcall <;> cases hcall
  · exact h
  · exact h.enqMulti hpc ha _
 | create t q param =>
  simp only [State.call] at hcall
  split_ifs at hcall with hf
  cases hcall
  exact h.create hpc hf param
 | destroy t q =>
  cases hcall
  exact h.destroy hpc ha
 | schedule t max =>
  cases hcall
  exact h.schedule hpc max
 | release t =>
  cases hcall
  exact h.releaseAtomic hpc
 | pause t on =>
  cases hcall
  exact h.setLocal hpc rfl ⟨(h.schedLocal t).held,(h.schedLocal t).gen,(h.schedLocal t).bufs⟩
 | step t choice => simp [State.call] at hcall

lemma advance (h : Inv s) {choice : Option CmdEvent} (hstep : s.advance t choice = some s') :
 Inv s' := by
 have hscan := h.scanning t
 cases hpc : s.pc t
 all_goals simp only [State.advance,hpc] at hstep
 case idle => cases hstep
 case scheduleQueue q =>
  split at hstep
  · next priQ ev hp hev =>
    cases hstep
    refine h.enqPri (x := ⟨ev,priQ⟩) ?_ Pc.free_idle (by simp)
    rw [hpc]
    exact token_eq_some.mpr ⟨hev,hp⟩
  · simp at hstep
 case initAlloc q =>
  cases choice with
  | none =>
   cases hstep
   exact h.setPc (by rw [hpc]; rfl) Pc.free_idle (by simp)
  | some ev =>
   simp only [initAlloc] at hstep
   split_ifs at hstep with hused
   cases hstep
   exact h.initAlloc_some hpc (by simpa using hused)
 case initPri q =>
  cases hstep
  exact h.initPri hpc
 case prio i max | scan i j max =>
  have hl : (s.schedLocal t).priQueue = none := hscan (by rw [hpc]; rfl)
  have htok : (s.pc t).token s.queue t = none := by rw [hpc]; rfl
  split_ifs at hstep <;> cases hstep
  all_goals exact h.setPc htok ⟨rfl,trivial,rfl⟩ fun _ => hl
 case deqPri i j max =>
  have hl : (s.schedLocal t).priQueue = none := hscan (by rw [hpc]; rfl)
  split at hstep <;> cases hstep
  · exact h.setPc (by rw [hpc]; rfl) (Pc.free_scan _ _ _) fun _ => hl
  · next ev evs hold => exact h.deqPri hpc hold
 case gotCmd i j max ev =>
  obtain ⟨q,hq,rfl⟩ := map_eq_some_iff.mp hstep
  exact h.runCmd hpc hq
 case finalize i j max ev q =>
  cases hstep
  exact h.finalize hpc
 case contPri priQ ev =>
  cases hstep
  exact h.enqPri (x := ⟨ev,priQ⟩) (by rw [hpc]; rfl) Pc.free_idle (by simp)

lemma step (h : Inv s) {a : Action ε m n} (ha : CallerOk s a)
 (hstep : step s a = some s') : Inv s' := by
 cases a with
 | step t choice => exact h.advance hstep
 | _ =>
  simp only [Scheduler.step] at hstep
  split_ifs at hstep with hpc
  exact h.call hpc ha hstep

lemma init (h : Init s) : Inv s := by
 obtain ⟨hq,hpri,hused,ht⟩ := h
 have hactive : ∀ q, (s.queue q).active = none := fun q => by
  simp [active,(hq q).1]
 refine ⟨⟨fun _ => .limbo,fun p x => ?_⟩,fun q => ?_,fun q ev hev => ?_,fun t => ?_,?_,fun t => ?_,
  ?_,fun priQ => ?_,fun priQ => ?_⟩
 · cases p with
   | limbo => simp [tokenAt,hactive]
   | pri priQ => simp [tokenAt,(hpri priQ).1]
   | hand t => simp [tokenAt,hand,(ht t).1,Pc.token,Local.held,(ht t).2.2.2]
 · obtain ⟨hs,he,hp,hc⟩ := hq q
   exact ⟨by simp [hs],by simp [hp],fun _ => ⟨hc,hp⟩,by simp [hs],by simp [he]⟩
 · simp [(hq q).2.2.2] at hev
 · rw [(ht t).1]
   trivial
 · intro t u q htc
   simp [(ht t).1,Pc.creating] at htc
 · exact ⟨by simp [(ht t).2.2.2],by simp [(ht t).2.2.1],by simp [(ht t).2.2.1]⟩
 · simp [(ht _).1]
 · simp [registered,(hpri priQ).2.2,(hq _).2.2.1]
 · simp [(hpri priQ).2.1,(hpri priQ).2.2]

end Inv

/-- The states of the runs of the scheduler. -/
abbrev Reachable : State ε m n → Prop := Transition.Reach Init step CallerOk

lemma Reachable.inv (h : Reachable s) : Inv s :=
 h.invariant (fun _ => Inv.init) fun _ _ _ hinv ha hstep => hinv.step ha hstep

-- Who takes events off a queue

/-- Events may have been added at the end of queue `q`, and none was taken. -/
def OnlyAdds (s s' : State ε m n) (q : Fin m) : Prop :=
 ∃ evs, (s'.queue q).events = (s.queue q).events++evs

lemma OnlyAdds.of_queue (h : s'.queue = s.queue) : OnlyAdds s s' q := ⟨[],by simp [h]⟩

lemma OnlyAdds.of_update {e : QueueEntry ε} {r : Fin m} (evs : List ε)
 (h : s'.queue = Function.update s.queue r e) (he : e.events = (s.queue r).events++evs) :
 OnlyAdds s s' q := by
 by_cases hq : q = r
 · subst hq
   exact ⟨evs,by simp [h,he]⟩
 · exact ⟨[],by simp [h,hq]⟩

lemma queue_scheduleQueueDestroy (s : State ε m n) (q : Fin m) :
 (s.scheduleQueueDestroy q).queue =
  Function.update s.queue q { s.queue q with cmdEv := none, priQueue := none } := by
 simp only [scheduleQueueDestroy]
 cases (s.queue q).cmdEv <;> rfl

lemma onlyAdds_destroyed (s : State ε m n) (r : Fin m) (st : Status) :
 OnlyAdds s ((s.setQueue r { s.queue r with status := st }).scheduleQueueDestroy r) q := by
 refine .of_update [] (r := r) (e := { s.queue r with
  status := st, cmdEv := none, priQueue := none }) ?_ (by simp)
 rw [queue_scheduleQueueDestroy]
 simp [setQueue]

lemma queue_releaseAtomic (s : State ε m n) (t : Fin n) :
 (s.releaseAtomic t).queue = s.queue := by
 simp only [releaseAtomic]
 split <;> rfl

lemma queue_schedule (s : State ε m n) (t : Fin n) (max : Nat) :
 (s.schedule t max).queue = s.queue := by
 simp only [schedule]
 split_ifs
 · rfl
 · exact queue_releaseAtomic s t
 · exact queue_releaseAtomic s t

lemma onlyAdds_enqMulti (s : State ε m n) (t : Fin n) (r : Fin m) (evs : List ε) :
 OnlyAdds s (s.enqMulti t r evs) q := by
 simp only [enqMulti]
 split_ifs
 · exact .of_queue rfl
 · exact .of_update evs rfl rfl
 · exact .of_update evs rfl rfl

/-- A call takes no events, apart from `odp_queue_create`, which finds the slot free. -/
lemma onlyAdds_call {a : Action ε m n} (h : s.call a = some s') (hf : (s.queue q).status ≠ .free) :
 OnlyAdds s s' q := by
 cases a with
 | enq t r ev =>
  cases h
  exact onlyAdds_enqMulti s t r [ev]
 | enqMulti t r evs =>
  simp only [call] at h
  split_ifs at h <;> cases h
  · exact .of_queue rfl
  · exact onlyAdds_enqMulti s t r _
 | create t r param =>
  simp only [call] at h
  split_ifs at h with hr
  cases h
  have hq : q ≠ r := by
   rintro rfl
   exact hf hr
  refine ⟨[],?_⟩
  simp only [create]
  split_ifs <;> simp [setQueue,hq]
 | destroy t r =>
  cases h
  simp only [destroy]
  split_ifs
  · exact .of_queue rfl
  · exact .of_update [] rfl (by simp)
  · exact onlyAdds_destroyed s r .free
  · exact .of_update [] rfl (by simp)
 | schedule t max =>
  cases h
  exact .of_queue (queue_schedule s t max)
 | release t =>
  cases h
  exact .of_queue (queue_releaseAtomic s t)
 | pause t on =>
  cases h
  exact .of_queue rfl
 | step t choice => simp [call] at h

lemma onlyAdds_advance {choice : Option CmdEvent} (h : s.advance t choice = some s')
 (hq : ∀ i j max ev, s.pc t = .gotCmd i j max ev → s.cmdQe ev ≠ some q) : OnlyAdds s s' q := by
 cases hpc : s.pc t
 all_goals simp only [advance,hpc] at h
 case idle => cases h
 case scheduleQueue r =>
  split at h
  · cases h
    exact .of_queue rfl
  · simp at h
 case initAlloc r =>
  cases choice with
  | none =>
   cases h
   exact .of_queue rfl
  | some ev =>
   simp only [initAlloc] at h
   split_ifs at h
   cases h
   exact .of_update [] rfl (by simp)
 case initPri r =>
  cases h
  exact .of_update [] rfl (by simp)
 case prio i max | scan i j max =>
  split_ifs at h <;> obtain rfl := some.inj h <;> exact .of_queue rfl
 case deqPri i j max =>
  split at h <;> obtain rfl := some.inj h <;> exact .of_queue rfl
 case gotCmd i j max ev =>
  obtain ⟨r,hr,rfl⟩ := map_eq_some_iff.mp h
  have hqr : q ≠ r := by
   rintro rfl
   exact hq i j max ev hpc hr
  refine ⟨[],?_⟩
  simp only [runCmd]
  split_ifs
  · simp [enqPri]
  · split
    · simp
    · simp [setQueue,hqr]
    · cases (s.queue r).param.sync <;> simp [setLocal,setQueue,hqr]
 case finalize i j max ev r =>
  cases h
  simp only [destroyFinalize]
  split_ifs
  · exact onlyAdds_destroyed s r .free
  · exact .of_queue rfl
 case contPri priQ ev =>
  cases h
  exact .of_queue rfl

-- The law

/-- Where a command event can be: on a priority queue, or in the hands of a thread that is between
taking or claiming it and putting it back. -/
inductive Spot (n : Nat) where
 | pri (priQ : PriQueue)
 | hand (t : Fin n)
 deriving DecidableEq

def Spot.place : Spot n → Place n
 | .pri priQ => .pri priQ
 | .hand t => .hand t

/-- How often the command event is there. -/
def cmdAt (s : State ε m n) (ev : CmdEvent) : Spot n → Nat
 | .pri priQ => (s.priQueue priQ).count ev
 | .hand t => ((s.hand t).map Token.ev).count ev

/-- The thread holds the atomic context of the queue. -/
def HoldsContext (s : State ε m n) (t : Fin n) (q : Fin m) : Prop :=
 ∃ x, (s.schedLocal t).held = some x ∧ (s.queue q).cmdEv = some x.ev

/-- The thread has events of the queue, as it is since its creation, in its `sched_local`. -/
def Buffers (s : State ε m n) (t : Fin n) (q : Fin m) : Prop :=
 (s.schedLocal t).bufs ≠ [] ∧ (s.schedLocal t).qe = some q ∧
  (s.schedLocal t).gen = (s.queue q).gen

structure TokenLaw (s : State ε m n) (q : Fin m) : Prop where
 /-- In scheduling, the command event is in exactly one place, once. -/
 inSched : (s.queue q).status = .sched ∨ (s.queue q).status = .destroyed →
  ∃ ev priQ, (s.queue q).cmdEv = some ev ∧ (s.queue q).priQueue = some priQ ∧
   ∃ p, (p = .pri priQ ∨ ∃ t, p = .hand t) ∧ cmdAt s ev p = 1 ∧
    ∀ p', p' ≠ p → cmdAt s ev p' = 0
 notSched : (s.queue q).status = .notsched →
  ∀ ev, (s.queue q).cmdEv = some ev → ∀ p, cmdAt s ev p = 0
 pending : (s.queue q).events ≠ [] → (s.queue q).status = .sched
 /-- No wakeup is lost: the command event waits on a priority queue that `schedule` looks at, or
 a thread still has to put it there. -/
 wakeup : (s.queue q).events ≠ [] →
  ∃ ev priQ, (s.queue q).cmdEv = some ev ∧ (s.queue q).priQueue = some priQ ∧
   s.priMask priQ = true ∧ (ev ∈ s.priQueue priQ ∨ ∃ t, ev ∈ (s.hand t).map Token.ev)
 /-- While a thread holds the atomic context no other thread has events of the queue or takes
 one. -/
 exclusive : (s.queue q).param.sync = .atomic → ∀ t u, HoldsContext s t q → u ≠ t →
  ¬ Buffers s u q ∧ ∀ a s', a.thread = u → step s a = some s' → OnlyAdds s s' q

namespace Inv

lemma active_of_cmdAt (h : Inv s) {ev : CmdEvent} (hev : (s.queue q).cmdEv = some ev)
 {p : Spot n} (hp : cmdAt s ev p ≠ 0) : ∃ x, x.ev = ev ∧ (s.queue q).active = some x ∧
  (p = .pri x.priQ ∨ ∃ t, p = .hand t ∧ x ∈ s.hand t) := by
 -- whoever's token it is, its command event is the one of `q`
 have hown : ∀ x : Token, x.ev = ev → (∃ r, (s.queue r).active = some x) →
  (s.queue q).active = some x := by
  rintro x rfl ⟨r,hr⟩
  obtain rfl := h.cmdEv_inj hev (active_eq_some.mp hr).2.1
  exact hr
 cases p with
 | pri priQ =>
  have hmem : ev ∈ s.priQueue priQ := count_pos_iff.mp (Nat.pos_of_ne_zero hp)
  refine ⟨⟨ev,priQ⟩,rfl,hown _ rfl ?_,.inl rfl⟩
  refine exists_active h.custody (p := .pri priQ) (by simp) (count_pos_iff.mpr ?_).ne'
  exact mem_map_of_mem hmem
 | hand t =>
  obtain ⟨x,hx,rfl⟩ := mem_map.mp (count_pos_iff.mp (Nat.pos_of_ne_zero hp))
  exact ⟨x,rfl,hown x rfl (exists_active_of_hand h.custody hx),.inr ⟨t,rfl,hx⟩⟩

lemma cmdAt_eq_tokenAt (h : Inv s) {x : Token} (hx : (s.queue q).active = some x)
 (p : Spot n) : cmdAt s x.ev p = tokenAt s p.place x := by
 have hev := (active_eq_some.mp hx).2.1
 cases p with
 | pri priQ =>
  by_cases hp : priQ = x.priQ
  · subst hp
    exact (count_map_of_injective (s.priQueue x.priQ) (Token.mk · x.priQ)
     (fun a b hab => (Token.mk.inj hab).1) x.ev).symm
  · -- on another priority queue it would be another token of the same queue
    have hzero : cmdAt s x.ev (.pri priQ) = 0 := by
     by_contra hne
     obtain ⟨y,-,hy,hpri | ⟨t,ht,-⟩⟩ := h.active_of_cmdAt hev hne
     · rw [hx] at hy
       cases hy
       exact hp (by simpa using hpri)
     · simp at ht
    rw [hzero,eq_comm,Spot.place,tokenAt,count_eq_zero]
    rintro hmem
    obtain ⟨ev,-,rfl⟩ := mem_map.mp hmem
    exact hp rfl
 | hand t =>
  have hsame : ∀ y ∈ s.hand t, (y.ev == x.ev) = (y == x) := by
   intro y hy
   by_cases hyx : y.ev = x.ev
   · obtain ⟨r,hr⟩ := exists_active_of_hand h.custody hy
     obtain rfl := h.cmdEv_inj hev (hyx ▸ (active_eq_some.mp hr).2.1)
     rw [hx] at hr
     simp [some.inj hr]
   · have : y ≠ x := fun hy => hyx (hy ▸ rfl)
     simp [hyx,this]
  simp only [cmdAt,List.count,countP_map]
  exact countP_congr fun y hy => by simp [hsame y hy]

lemma exists_spot (h : Inv s) {x : Token} (hx : (s.queue q).active = some x) :
 ∃ p, (p = .pri x.priQ ∨ ∃ t, p = .hand t) ∧ cmdAt s x.ev p = 1 ∧
  ∀ p', p' ≠ p → cmdAt s x.ev p' = 0 := by
 have hlimbo : tokenAt s .limbo x = 0 := if_pos ⟨q,hx⟩
 obtain ⟨place,hone,-⟩ := h.custody.existsUnique x
 obtain ⟨p,rfl⟩ : ∃ p : Spot n, p.place = place := by
  cases place with
  | limbo => simp [hlimbo] at hone
  | pri priQ => exact ⟨.pri priQ,rfl⟩
  | hand t => exact ⟨.hand t,rfl⟩
 have hat : cmdAt s x.ev p = 1 := (h.cmdAt_eq_tokenAt hx p).trans hone
 refine ⟨p,?_,hat,fun p' hne => ?_⟩
 · obtain ⟨y,-,hy,hp⟩ := h.active_of_cmdAt (active_eq_some.mp hx).2.1 (p := p)
    (by rw [hat]; exact Nat.one_ne_zero)
   rw [hx] at hy
   cases hy
   exact hp.imp_right fun ⟨t,ht,_⟩ => ⟨t,ht⟩
 · rw [h.cmdAt_eq_tokenAt hx p']
   refine h.custody.eq_zero (p := p.place) (by rw [hone]; exact Nat.one_ne_zero) fun hp => hne ?_
   cases p <;> cases p' <;> simp_all [Spot.place]

lemma wakeup (h : Inv s) (he : (s.queue q).events ≠ []) :
 ∃ ev priQ, (s.queue q).cmdEv = some ev ∧ (s.queue q).priQueue = some priQ ∧
  s.priMask priQ = true ∧ (ev ∈ s.priQueue priQ ∨ ∃ t, ev ∈ (s.hand t).map Token.ev) := by
 obtain ⟨x,hx⟩ := h.exists_token (q := q) (by rw [(h.queue q).events he]; rfl)
 obtain ⟨-,hev,hpri⟩ := active_eq_some.mp hx
 refine ⟨x.ev,x.priQ,hev,hpri,?_,?_⟩
 · rw [h.mask,h.count]
   have hmem : q ∈ registered s.queue x.priQ := by simp [registered,hpri]
   simpa using ⟨q,hmem⟩
 · obtain ⟨p,rfl | ⟨t,rfl⟩,hone,-⟩ := h.exists_spot hx
   · exact .inl (count_pos_iff.mp (by rw [cmdAt] at hone; omega))
   · exact .inr ⟨t,count_pos_iff.mp (by rw [cmdAt] at hone; omega)⟩

lemma exclusive (h : Inv s) (ha : (s.queue q).param.sync = .atomic) {t u : Fin n}
 (ht : HoldsContext s t q) (hu : u ≠ t) :
 ¬ Buffers s u q ∧ ∀ a s', a.thread = u → Scheduler.step s a = some s' → OnlyAdds s s' q := by
 obtain ⟨x,hheld,hev⟩ := ht
 have hmem : x ∈ s.hand t := by simp [hand,hheld]
 obtain ⟨r,hact,-⟩ := h.exists_of_hand hmem
 obtain rfl := h.cmdEv_inj hev (active_eq_some.mp hact).2.1
 have hfree : (s.queue r).status ≠ .free := by
  intro hf
  simp [active,hf] at hact
 -- nobody else has the queue's command event in hand
 have hother : ∀ y ∈ s.hand u, y.ev ≠ x.ev := by
  rintro y hy hyx
  obtain ⟨r',hr',-⟩ := h.exists_of_hand hy
  obtain rfl := h.cmdEv_inj hev (hyx ▸ (active_eq_some.mp hr').2.1)
  rw [hact] at hr'
  exact hu (h.hand_unique (some.inj hr' ▸ hy) hmem)
 refine ⟨?_,fun a s' hau hstep => ?_⟩
 · rintro ⟨hb,hq,hg⟩
   obtain ⟨y,hy,hyev⟩ := (h.schedLocal u).bufs r hq hb hfree hg ha
   exact hother y (by simp [hand,hy]) (some.inj (hyev.symm.trans hev))
 · cases a with
   | step t' choice =>
    obtain rfl : t' = u := hau
    refine onlyAdds_advance hstep fun i j max ev hpc hcmd => ?_
    have hin : (⟨ev,scanQueue t' i j⟩ : Token) ∈ s.hand t' := by
     simp [hand,hpc,Pc.token]
    obtain ⟨r',hr',hcmd'⟩ := h.exists_of_hand hin
    obtain rfl : r' = r := some.inj (hcmd'.symm.trans hcmd)
    exact hother _ hin (some.inj ((active_eq_some.mp hr').2.1.symm.trans hev))
   | _ =>
    simp only [Scheduler.step] at hstep
    split_ifs at hstep
    exact onlyAdds_call hstep hfree

end Inv

/-- In every reachable state every queue obeys the token law. -/
theorem token_law (h : Reachable s) (q : Fin m) : TokenLaw s q := by
 have hinv := h.inv
 refine ⟨fun hs => ?_,fun hs ev hev p => ?_,(hinv.queue q).events,hinv.wakeup,
  fun ha t u ht hu => hinv.exclusive ha ht hu⟩
 · have hin : (s.queue q).status.inSched = true := by rcases hs with hs | hs <;> rw [hs] <;> rfl
   obtain ⟨x,hx⟩ := hinv.exists_token hin
   obtain ⟨-,hev,hpri⟩ := active_eq_some.mp hx
   exact ⟨x.ev,x.priQ,hev,hpri,hinv.exists_spot hx⟩
 · by_contra hp
   obtain ⟨x,-,hx,-⟩ := hinv.active_of_cmdAt hev hp
   simp [active,hs] at hx

/-- One queue and two threads. -/
def demo : State Nat 1 2 where
 queue _ := ⟨.free,⟨0,.parallel,0,0⟩,[],none,none,0⟩
 priQueue _ := []
 priMask _ := false
 priCount _ := 0
 used _ := false
 cmdQe _ := none
 grpMask _ _ := false
 schedLocal _ := ⟨[],none,0,none,none,false,[],none⟩
 pc _ := .idle

lemma demo_init : Init demo :=
 ⟨fun _ => ⟨rfl,rfl,rfl,rfl⟩,fun _ => ⟨rfl,rfl,rfl⟩,fun _ => rfl,fun _ => ⟨rfl,rfl,rfl,rfl⟩⟩

/-- An atomic queue is created and gets an event, thread 0 takes it and holds the context, and
thread 1 enqueues a second event meanwhile. -/
theorem token_law_atomic : ∃ s : State Nat 1 2, TokenLaw s 0 ∧ (s.queue 0).events = [6] ∧
 (s.queue 0).param.sync = .atomic ∧ (s.schedLocal 0).cmdEv = some 9 ∧
 (s.schedLocal 0).priQueue = some (3,0) ∧ (s.schedLocal 0).out = [5] := by
 have h0 : Reachable demo := .start demo_init
 obtain ⟨s,hs,htest⟩ := h0.exists_of_run
  ([.create 0 0 ⟨3,.atomic,0,0⟩,.step 0 (some 9),.step 0 none,.enq 1 0 5,.step 1 none,
   .schedule 0 1]++replicate 7 (.step 0 none)++[.enq 1 0 6])
  (fun s => (s.queue 0).events = [6] ∧ (s.queue 0).param.sync = .atomic ∧
   (s.schedLocal 0).cmdEv = some 9 ∧ (s.schedLocal 0).priQueue = some (3,0) ∧
   (s.schedLocal 0).out = [5]) (by decide)
 exact ⟨s,token_law hs 0,htest⟩

end Packages.Scheduler

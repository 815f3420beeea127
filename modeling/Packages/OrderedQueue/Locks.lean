import Packages.OrderedQueue.Conservation
import Packages.OrderedQueue.Orders

/-!
# Ordered locks

`sync_in[k]` is counted up with `order_in`, so an order that is dequeued gets `sync[k]` equal to
itself. Its holder passes lock `k` when `sync_out[k]` has come to it, and counts `sync_out[k]` up;
`order_release` takes `sync_out[k]` along. A queue in a used slot starts with the counters it finds:
a lock index that was not in use before is behind `order_in`.
-/

namespace Packages.OrderedQueue

open Function State Option Nat

variable {m n : Nat}

attribute [local simp] State.modify State.setLocal State.recordTake Scheduler.Status.bad

/-- The thread has the context of `p`, or gets it back should the call in progress fail. -/
def HasContext (s : State m n) (t : Fin n) (p : Fin m) : Prop :=
 (s.schedLocal t).originQe = some p ∨ ∃ e, s.pc t = .moving p e true

/-- `sync_in[k]` has been counted up with every order. -/
def QueueEntry.InStep (e : QueueEntry m) (k : Nat) : Prop := e.syncIn k = e.orderIn

/-- The four counters, for the lock indices that are in step. -/
structure QueueEntry.LockLaw (e : QueueEntry m) : Prop where
 syncIn_le : ∀ k, e.syncIn k ≤ e.orderIn
 syncOf : ∀ k, e.InStep k → ∀ o, e.orderOut ≤ o → o < e.orderIn → e.syncOf o k = o
 unlocked : ∀ k, e.InStep k → ∀ o, e.orderOut ≤ o → (e.unlocked o k = true ↔ o < e.syncOut k)
 syncOut_le : ∀ k, e.InStep k → e.syncOut k ≤ e.orderIn

structure Locked (s : State m n) : Prop where
 accounted : Accounted s
 queue : ∀ q, (s.queue q).LockLaw
 live : ∀ q, s.bad q = false → (s.queue q).param.kind = .ordered → ∀ k,
  k < (s.queue q).param.lockCount →
   (s.queue q).InStep k ∧ (s.queue q).orderOut ≤ (s.queue q).syncOut k
 context : ∀ t p, HasContext s t p → ∀ k, (s.queue p).InStep k →
  (s.schedLocal t).sync k = (s.schedLocal t).order ∧
   ((s.schedLocal t).inside k = true → (s.queue p).syncOut k = (s.schedLocal t).order)

-- Contexts

namespace HasContext

variable {s s' : State m n} {t u : Fin n} {p : Fin m}

lemma exists_orderAt (h : Accounted s) (hc : HasContext s t p) :
 ∃ x, (x = .context t ∨ x = .hand t) ∧ orderAt s x (p,(s.schedLocal t).order) ≠ 0 := by
 obtain horigin | ⟨e,hpc⟩ := hc
 · refine ⟨.context t,.inl rfl,?_⟩
   rw [orderAt,resolving_context,if_pos horigin]
   simp
 · obtain ⟨-,horder,hs⟩ := h.aside t p e hpc
   refine ⟨.hand t,.inr rfl,?_⟩
   rw [orderAt,hpc,resolving_moving,resolving_cons hs,horder]
   simp

lemma bounds (h : Accounted s) (hc : HasContext s t p) :
 (s.queue p).orderOut ≤ (s.schedLocal t).order ∧
  (s.schedLocal t).order < (s.queue p).orderIn := by
 obtain ⟨x,-,hx⟩ := hc.exists_orderAt h
 exact h.bounds x p _ hx

lemma unique (h : Accounted s) (ht : HasContext s t p) (hu : HasContext s u p)
 (horder : (s.schedLocal t).order = (s.schedLocal u).order) : t = u := by
 obtain ⟨x,hxt,hx⟩ := ht.exists_orderAt h
 obtain ⟨y,hyu,hy⟩ := hu.exists_orderAt h
 rw [horder] at hx
 have heq := h.exclusive.unique hx hy
 obtain rfl | rfl := hxt
 · obtain rfl | rfl := hyu
   · exact Holder.context.inj heq
   · cases heq
 · obtain rfl | rfl := hyu
   · cases heq
   · exact Holder.hand.inj heq

end HasContext

/-- No context is gained, and those that are kept are as they were. -/
def ContextsKept (s s' : State m n) : Prop :=
 ∀ u p, HasContext s' u p → HasContext s u p ∧
  (s'.schedLocal u).order = (s.schedLocal u).order ∧
  (s'.schedLocal u).sync = (s.schedLocal u).sync ∧
  (s'.schedLocal u).inside = (s.schedLocal u).inside

/-- The step resolves orders at most. -/
structure CountersKept (s s' : State m n) : Prop where
 bad : s'.bad = s.bad
 param : ∀ q, (s'.queue q).param = (s.queue q).param
 orderIn : ∀ q, (s'.queue q).orderIn = (s.queue q).orderIn
 sync : ∀ q, (s'.queue q).syncIn = (s.queue q).syncIn ∧ (s'.queue q).syncOf = (s.queue q).syncOf ∧
  (s'.queue q).unlocked = (s.queue q).unlocked
 released : ∀ q, Released (s.queue q) (s'.queue q)

lemma CountersKept.of_change {s s' : State m n} {target origin : Fin m} {added : List Event}
 {rest : List (Entry m)} {out : Nat} (h : Change s s' target origin added rest out) :
 CountersKept s s' :=
 ⟨funext h.bad,h.param,h.orderIn,h.sync,h.released⟩

lemma CountersKept.refl (s : State m n) : CountersKept s s :=
 ⟨rfl,fun _ => rfl,fun _ => rfl,fun _ => ⟨rfl,rfl,rfl⟩,fun _ => .refl _⟩

section Kept

variable {s s' : State m n} {t : Fin n} {p q : Fin m}

lemma contextsKept_of_eq (hlocal : s'.schedLocal = s.schedLocal) (hpc : s'.pc = s.pc) :
 ContextsKept s s' := by
 intro u p hu
 rw [HasContext,hlocal,hpc] at hu
 rw [hlocal]
 exact ⟨hu,rfl,rfl,rfl⟩

lemma contextsKept_orderedQueueEnq (s0 : State m n) {target origin : Fin m} {e : Entry m}
 (hlocal : s0.schedLocal = s.schedLocal) (hpc : s0.pc = s.pc)
 (h : s0.orderedQueueEnq t target origin e = some s') : ContextsKept s s' := by
 obtain ⟨hframe,-,qe,hqe,hself⟩ := orderedQueueEnq_frame h
 rw [hlocal] at hself hqe
 have hret : ∃ ret, s'.pc t = .handOn origin ret := by
  obtain ⟨⟨s1,b⟩,-,rfl⟩ := map_eq_some_iff.mp h
  cases b with
  | true => exact ⟨_,complete_pc s1 t origin⟩
  | false => exact ⟨none,update_self ..⟩
 intro u p hu
 by_cases hut : u = t
 · subst hut
   obtain ⟨ret,hret⟩ := hret
   rw [HasContext,hself,hret] at hu
   rw [hself]
   refine ⟨?_,rfl,rfl,rfl⟩
   obtain hu | ⟨e,he⟩ := hu
   · obtain rfl | ⟨rfl,-⟩ := hqe
     · exact .inl hu
     · cases hu
   · exact absurd he handOn_ne_aside
 · obtain ⟨hl,hp⟩ := hframe u hut
   rw [hlocal] at hl
   rw [hpc] at hp
   rw [HasContext,hl,hp] at hu
   rw [hl]
   exact ⟨hu,rfl,rfl,rfl⟩

lemma kept_enq {evs : List Event} (h : s.enq t q evs = some s') :
 CountersKept s s' ∧ ContextsKept s s' := by
 have hbad := bad_enq h
 obtain rfl | ⟨ev,link,-,⟨-,rfl⟩ | ⟨origin,order,-,h⟩⟩ := enq_cases h
 · exact ⟨.refl s',contextsKept_of_eq rfl rfl⟩
 · refine ⟨?_,contextsKept_of_eq rfl rfl⟩
   have hadd := Change.add (s.record t q none evs) q q evs
   have hc := CountersKept.of_change (hadd.trans (Change.wake _ q q))
   have hqueue : ((s.record t q none evs).modify q fun e => (e.add evs).wake).queue =
    (((s.record t q none evs).modify q (·.add evs)).modify q
     QueueEntry.wake).queue := by
    simp [State.record]
   exact ⟨hbad,hqueue ▸ hc.param,hqueue ▸ hc.orderIn,hqueue ▸ hc.sync,hqueue ▸ hc.released⟩
 · obtain ⟨-,⟨added,rest,out,hc⟩,-⟩ := orderedQueueEnq_frame h
   have hk := CountersKept.of_change hc
   exact ⟨⟨hbad,hk.param,hk.orderIn,hk.sync,hk.released⟩,
    contextsKept_orderedQueueEnq (s.record t q _ evs) rfl rfl h⟩

lemma kept_enqMoving {origin : Fin m} {e : Entry m} {keep : Bool}
 (hpc : s.pc t = .moving origin e keep) (hstep : s.enqMoving t origin e keep = some s') :
 CountersKept s s' ∧ ContextsKept s s' := by
 obtain ⟨target,-,hstep⟩ := bind_eq_some_iff.mp hstep
 split at hstep
 · cases hstep
   refine ⟨⟨rfl,fun _ => rfl,fun _ => rfl,fun _ => ⟨rfl,rfl,rfl⟩,fun _ => .refl _⟩,fun u p hu => ?_⟩
   by_cases hut : u = t
   · subst hut
     rw [HasContext] at hu
     simp only [setPc,setLocal,update_self,reduceCtorEq,exists_false,or_false] at hu ⊢
     cases keep with
     | false => exact ⟨.inl hu,rfl,rfl,rfl⟩
     | true =>
      cases hu
      exact ⟨.inr ⟨e,hpc⟩,rfl,rfl,rfl⟩
   · rw [HasContext] at hu
     simp only [setPc,setLocal,update_of_ne hut] at hu ⊢
     exact ⟨hu,trivial,trivial,trivial⟩
 · obtain ⟨-,⟨added,rest,out,hc⟩,-⟩ := orderedQueueEnq_frame hstep
   exact ⟨.of_change hc,contextsKept_orderedQueueEnq s rfl rfl hstep⟩

lemma kept_release (s : State m n) (hpc : s.pc t = .idle) (keep alloc : Bool) :
 CountersKept s (s.release t keep alloc) ∧ ContextsKept s (s.release t keep alloc) := by
 cases horigin : (s.schedLocal t).originQe with
 | none =>
  simp only [release,horigin]
  exact ⟨.refl s,contextsKept_of_eq rfl rfl⟩
 | some origin =>
  -- the thread without the context, unless it is to come back
  have hkept : ∀ s' pc, s'.schedLocal =
   update s.schedLocal t { s.schedLocal t with originQe := none } →
   s'.pc = update s.pc t pc → (∀ r e, pc = .moving r e true → r = origin) →
   ContextsKept s s' := by
   intro s' pc hlocal hpc' haside u r hu
   by_cases hut : u = t
   · subst hut
     rw [HasContext,hlocal,hpc',update_self,update_self] at hu
     rw [hlocal,update_self]
     obtain hu | ⟨e,he⟩ := hu
     · cases hu
     · obtain rfl := haside r e he
       exact ⟨.inl horigin,rfl,rfl,rfl⟩
   · rw [HasContext,hlocal,hpc',update_of_ne hut,update_of_ne hut] at hu
     rw [hlocal,update_of_ne hut]
     exact ⟨hu,rfl,rfl,rfl⟩
  have haside : ∀ {s' pc l}, Aside s s' t origin pc l →
   (∀ r e, pc = .moving r e true → r = origin) →
   CountersKept s s' ∧ ContextsKept s s' := fun h hr =>
   ⟨.of_change h.change,hkept _ _ h.schedLocal h.pc hr⟩
  cases release_cases hpc keep alloc horigin with
  | kept _ _ h =>
   rw [h]
   exact ⟨.refl s,contextsKept_of_eq rfl rfl⟩
  | dropped _ _ h | marked _ _ _ _ _ _ _ h | placed _ h => exact haside h (by simp)
  | first a as _ _ _ h => exact haside h fun r e he => (Pc.moving.inj he).1.symm
  | resolved s1 _ _ hlocal hpc1 hc h =>
   rw [h]
   exact ⟨.of_change (hc.trans (complete_change s1 t origin origin)),
    hkept _ (.handOn origin _) hlocal (by rw [← hpc1]; rfl) fun r e he => absurd he handOn_ne_aside⟩

end Kept

-- The steps

lemma QueueEntry.LockLaw.of_released {e e' : QueueEntry m} (h : e.LockLaw) (hr : Released e e')
 (hin : e'.orderIn = e.orderIn)
 (hsync : e'.syncIn = e.syncIn ∧ e'.syncOf = e.syncOf ∧ e'.unlocked = e.unlocked)
 (hle : e'.orderOut ≤ e'.orderIn) : e'.LockLaw := by
 obtain ⟨hsyncIn,hsyncOf,hunlocked⟩ := hsync
 have hstep : ∀ k, e'.InStep k → e.InStep k := by
  intro k hk
  rw [InStep,hsyncIn,hin] at hk
  exact hk
 -- a counter moves to the first order that is not resolved
 have hout : ∀ k, e'.syncOut k = e.syncOut k ∨
  e.syncOut k < e'.orderOut ∧ e'.syncOut k = e'.orderOut := by
  intro k
  by_cases hk : k < e.param.lockCount
  · exact hr.low k hk
  · exact .inl (hr.high k (Nat.le_of_not_lt hk))
 have hmono := hr.orderOut
 refine ⟨fun k => ?_,fun k hk o hge hlt => ?_,fun k hk o hge => ?_,fun k hk => ?_⟩
 · rw [hsyncIn,hin]
   exact h.syncIn_le k
 · rw [hsyncOf]
   rw [hin] at hlt
   exact h.syncOf k (hstep k hk) o (by omega) hlt
 · rw [hunlocked,h.unlocked k (hstep k hk) o (by omega)]
   obtain heq | ⟨hlt,heq⟩ := hout k
   · rw [heq]
   · all_goals
      omega
 · obtain heq | ⟨-,heq⟩ := hout k
   · rw [heq,hin]
     exact h.syncOut_le k (hstep k hk)
   · rw [heq]
     exact hle

/-- What `odp_schedule_order_unlock` does to the entry. -/
def QueueEntry.unlock (e : QueueEntry m) (order k : Nat) : QueueEntry m :=
 { e with
   syncOut := update e.syncOut k (e.syncOut k+1)
   unlocked := update e.unlocked order (update (e.unlocked order) k true) }

lemma QueueEntry.le_unlock_syncOut (e : QueueEntry m) (order k k' : Nat) :
 e.syncOut k' ≤ (e.unlock order k).syncOut k' := by
 show e.syncOut k' ≤ update e.syncOut k (e.syncOut k+1) k'
 by_cases hk : k' = k
 · subst hk
   rw [update_self]
   exact le_succ _
 · rw [update_of_ne hk]

lemma QueueEntry.LockLaw.unlock {e : QueueEntry m} {order k : Nat} (h : e.LockLaw)
 (hout : e.InStep k → e.syncOut k = order) (hlt : order < e.orderIn) :
 (e.unlock order k).LockLaw := by
 refine ⟨h.syncIn_le,h.syncOf,fun k' hk' o hge => ?_,fun k' hk' => ?_⟩
 · have hold := h.unlocked k' hk' o hge
   show update e.unlocked order _ o k' = true ↔ o < update e.syncOut k _ k'
   by_cases hkk : k' = k
   · subst hkk
     have heq := hout hk'
     rw [update_self]
     by_cases ho : o = order
     · subst ho
       rw [update_self,update_self]
       exact iff_of_true rfl (by omega)
     · rw [update_of_ne ho,hold]
       omega
   · rw [update_of_ne hkk]
     by_cases ho : o = order
     · subst ho
       rw [update_self,update_of_ne hkk]
       exact hold
     · rw [update_of_ne ho]
       exact hold
 · show update e.syncOut k _ k' ≤ e.orderIn
   by_cases hkk : k' = k
   · subst hkk
     have heq := hout hk'
     rw [update_self]
     omega
   · rw [update_of_ne hkk]
     exact h.syncOut_le k' hk'

namespace Locked

variable {s s' : State m n} {t : Fin n} {p q : Fin m} {k : Nat}

section

variable (h : Locked s) (hacc : Accounted s')

include h hacc

lemma of_kept (hc : CountersKept s s') (hk : ContextsKept s s') : Locked s' := by
 have hstep : ∀ q k, (s'.queue q).InStep k → (s.queue q).InStep k := by
  intro q k hq
  rw [QueueEntry.InStep,(hc.sync q).1,hc.orderIn q] at hq
  exact hq
 refine ⟨hacc,fun q => (h.queue q).of_released (hc.released q) (hc.orderIn q) (hc.sync q)
  (hacc.le q),fun q hlive hkind k hlt => ?_,fun t p ht k hp => ?_⟩
 · rw [hc.bad] at hlive
   rw [hc.param q] at hkind hlt
   obtain ⟨hin,hout⟩ := h.live q hlive hkind k hlt
   refine ⟨?_,(hc.released q).ge k hlt hout⟩
   rw [QueueEntry.InStep,(hc.sync q).1,hc.orderIn q]
   exact hin
 · obtain ⟨hold,horder,hsync,hinside⟩ := hk t p ht
   obtain ⟨hs,hi⟩ := h.context t p hold k (hstep p k hp)
   rw [horder,hsync,hinside]
   refine ⟨hs,fun hin => ?_⟩
   have heq := hi hin
   -- the order of the context is not resolved, so the counter need not be taken along
   have hbounds := (ht.bounds hacc).1
   by_cases hlt : k < (s.queue p).param.lockCount
   · obtain hsame | ⟨hlt',-⟩ := (hc.released p).low k hlt
     · rw [hsame,heq]
     · omega
   · rw [(hc.released p).high k (Nat.le_of_not_lt hlt),heq]

lemma congr (hk : ContextsKept s s') (hq : ∀ r, (s'.queue r).orderIn = (s.queue r).orderIn ∧
 (s'.queue r).orderOut = (s.queue r).orderOut ∧ (s'.queue r).syncIn = (s.queue r).syncIn ∧
 (s'.queue r).syncOut = (s.queue r).syncOut ∧ (s'.queue r).syncOf = (s.queue r).syncOf ∧
 (s'.queue r).unlocked = (s.queue r).unlocked)
 (hlive : ∀ r, s'.bad r = false → (s'.queue r).param.kind = .ordered → ∀ k,
  k < (s'.queue r).param.lockCount →
   (s.queue r).InStep k ∧ (s.queue r).orderOut ≤ (s.queue r).syncOut k) : Locked s' := by
 have hlaw : ∀ r, (s'.queue r).LockLaw := by
  intro r
  obtain ⟨hin,hout,hsyncIn,hsyncOut,hsyncOf,hunlocked⟩ := hq r
  have hr := h.queue r
  refine ⟨fun k => ?_,fun k hk o => ?_,fun k hk o => ?_,fun k hk => ?_⟩
  · rw [hsyncIn,hin]
    exact hr.syncIn_le k
  all_goals rw [QueueEntry.InStep,hsyncIn,hin] at hk
  · rw [hin,hout,hsyncOf]
    exact hr.syncOf k hk o
  · rw [hout,hsyncOut,hunlocked]
    exact hr.unlocked k hk o
  · rw [hin,hsyncOut]
    exact hr.syncOut_le k hk
 refine ⟨hacc,hlaw,fun r hbad hkind k hlt => ?_,fun t p ht k hp => ?_⟩
 · obtain ⟨hin,hout,hsyncIn,hsyncOut,-⟩ := hq r
   rw [QueueEntry.InStep,hsyncIn,hin,hout,hsyncOut]
   exact hlive r hbad hkind k hlt
 · obtain ⟨hin,-,hsyncIn,hsyncOut,-⟩ := hq p
   rw [QueueEntry.InStep,hsyncIn,hin] at hp
   obtain ⟨hold,horder,hsync,hinside⟩ := hk t p ht
   rw [horder,hsync,hinside,hsyncOut]
   exact h.context t p hold k hp

lemma orderLock (hstep : s.orderLock t k = some s') : Locked s' := by
 simp only [State.orderLock] at hstep
 split at hstep
 · exact some.inj hstep ▸ h
 · next r hr =>
   split_ifs at hstep with hcount hsync
   · exact some.inj hstep ▸ h
   · cases hstep
     refine ⟨hacc,h.queue,h.live,fun u p hu k' hp => ?_⟩
     by_cases hut : u = t
     · subst hut
       have hold : HasContext s u p := by
        simpa [HasContext] using hu
       obtain ⟨hs,hi⟩ := h.context u p hold k' hp
       simp only [setLocal,update_self]
       refine ⟨hs,fun hin => ?_⟩
       by_cases hk : k' = k
       · subst hk
         -- a thread inside a call has no context
         have horigin : (s.schedLocal u).originQe = some p := by
          obtain horigin | ⟨e,he⟩ := hold
          · exact horigin
          · rw [(h.accounted.aside u p e he).1] at hr
            cases hr
         obtain rfl := some.inj (hr.symm.trans horigin)
         exact hsync.symm.trans hs
       · rw [update_of_ne hk] at hin
         exact hi hin
     · have hold : HasContext s u p := by
        simpa [HasContext,hut] using hu
       simp only [setLocal,update_of_ne hut]
       exact h.context u p hold k' hp

end

/-- A step in which the holder of lock `k` of `r` leaves it. -/
structure Unlocks (s s' : State m n) (t : Fin n) (r : Fin m) (k : Nat) : Prop where
 origin : (s.schedLocal t).originQe = some r
 index : k < (s.queue r).param.lockCount
 queue : s'.queue = update s.queue r ((s.queue r).unlock (s.schedLocal t).order k)
 context : s'.schedLocal = update s.schedLocal t
  { s.schedLocal t with inside := update (s.schedLocal t).inside k false }
 pc : s'.pc = s.pc

lemma orderUnlock_cases (s : State m n) (t : Fin n) (k : Nat) :
 s.orderUnlock t k = s ∨ ∃ r, Unlocks s (s.orderUnlock t k) t r k := by
 rw [orderUnlock]
 cases horigin : (s.schedLocal t).originQe with
 | none => exact .inl rfl
 | some r =>
  by_cases hcount : (s.queue r).param.lockCount ≤ k
  · exact .inl (if_pos hcount)
  · refine .inr ⟨r,?_⟩
    simp only [if_neg hcount]
    refine ⟨horigin,Nat.lt_of_not_le hcount,rfl,?_,rfl⟩
    simp [horigin]

lemma Unlocks.hasContext (h : Unlocks s s' t q k) {u : Fin n} (hu : HasContext s' u p) :
 HasContext s u p := by
 rw [HasContext,h.context,h.pc] at hu
 by_cases hut : u = t
 · subst hut
   rw [update_self] at hu
   exact hu
 · rw [update_of_ne hut] at hu
   exact hu

lemma unlock (h : Locked s) (hacc : Accounted s') (hu : Unlocks s s' t q k)
 (hinside : (s.schedLocal t).inside k = true) : Locked s' := by
 have hcontext : HasContext s t q := .inl hu.origin
 have hbounds := hcontext.bounds h.accounted
 have hout : (s.queue q).InStep k → (s.queue q).syncOut k = (s.schedLocal t).order :=
  fun hk => (h.context t q hcontext k hk).2 hinside
 have hself : s'.queue q = (s.queue q).unlock (s.schedLocal t).order k := by
  rw [hu.queue,update_self]
 have hne : ∀ r, r ≠ q → s'.queue r = s.queue r := by
  intro r hr
  rw [hu.queue,update_of_ne hr]
 have hbad : s'.bad = s.bad := bad_of_queue hu.queue rfl
 refine ⟨hacc,fun r => ?_,fun r hlive hkind k' hlt => ?_,fun u p hp k' hstep => ?_⟩
 · by_cases hr : r = q
   · subst hr
     rw [hself]
     exact (h.queue r).unlock hout hbounds.2
   · rw [hne r hr]
     exact h.queue r
 · rw [hbad] at hlive
   by_cases hr : r = q
   · subst hr
     rw [hself] at hkind hlt ⊢
     obtain ⟨hstep,hle⟩ := h.live r hlive hkind k' hlt
     exact ⟨hstep,le_trans hle ((s.queue r).le_unlock_syncOut _ k k')⟩
   · rw [hne r hr] at hkind hlt ⊢
     exact h.live r hlive hkind k' hlt
 · have hold := hu.hasContext hp
   have hstep : (s.queue p).InStep k' := by
    by_cases hpq : p = q
    · subst hpq
      rw [hself] at hstep
      exact hstep
    · rwa [hne p hpq] at hstep
   obtain ⟨hs,hi⟩ := h.context u p hold k' hstep
   -- the counter of a lock that somebody else is inside of does not move
   have hkeep : (p = q → k' ≠ k) → (s'.queue p).syncOut k' = (s.queue p).syncOut k' := by
    intro hk
    by_cases hpq : p = q
    · rw [hpq,hself]
      exact update_of_ne (hk hpq) _ _
    · rw [hne p hpq]
   rw [hu.context]
   by_cases hut : u = t
   · subst hut
     rw [update_self]
     refine ⟨hs,fun hiu => ?_⟩
     have hkk : k' ≠ k := by
      rintro rfl
      simp at hiu
     rw [hkeep fun _ => hkk]
     refine hi ?_
     simpa [hkk] using hiu
   · rw [update_of_ne hut]
     refine ⟨hs,fun hiu => ?_⟩
     rw [hkeep]
     · exact hi hiu
     · rintro rfl rfl
       exact hut (hold.unique h.accounted hcontext ((hi hiu).symm.trans (hout hstep)))

lemma take_event (h : Locked s) (hacc : Accounted s') (hi : Issues s s' t q)
 (hparam : (s'.queue q).param = (s.queue q).param) (hne : ∀ r, r ≠ q → s'.queue r = s.queue r)
 (hbad : s'.bad = s.bad) (hsyncOut : (s'.queue q).syncOut = (s.queue q).syncOut)
 (hunlocked : (s'.queue q).unlocked = (s.queue q).unlocked)
 (hsyncIn : (s'.queue q).syncIn = fun k =>
  if k < (s.queue q).param.lockCount then (s.queue q).syncIn k+1 else (s.queue q).syncIn k)
 (hsync : ∀ k, k < (s.queue q).param.lockCount → (s'.schedLocal t).sync k = (s.queue q).syncIn k)
 (hsyncOf : (s'.queue q).syncOf =
  update (s.queue q).syncOf (s.queue q).orderIn (s'.schedLocal t).sync)
 (hinside : ∀ k, (s'.schedLocal t).inside k = false) : Locked s' := by
 have hin := hi.orderIn
 have hout := (hi.queue q).2
 have hlaw := h.queue q
 -- an index in step is one that is counted up
 have hstep : ∀ k, (s'.queue q).InStep k → k < (s.queue q).param.lockCount ∧
  (s.queue q).InStep k := by
  intro k hk
  rw [QueueEntry.InStep,hsyncIn,hin] at hk
  have hle := hlaw.syncIn_le k
  simp only at hk
  split at hk
  · next hlt => exact ⟨hlt,succ.inj hk⟩
  · omega
 refine ⟨hacc,fun r => ?_,fun r hlive hkind k hlt => ?_,fun u p hu k hk => ?_⟩
 · by_cases hr : r = q
   · subst hr
     refine ⟨fun k => ?_,fun k hk o hge hlt => ?_,fun k hk o hge => ?_,fun k hk => ?_⟩
     · rw [hsyncIn]
       have hle := hlaw.syncIn_le k
       simp only
       split <;> omega
     · obtain ⟨hcount,hold⟩ := hstep k hk
       rw [hsyncOf]
       by_cases ho : o = (s.queue r).orderIn
       · subst ho
         rw [update_self,hsync k hcount]
         exact hold
       · rw [update_of_ne ho]
         exact hlaw.syncOf k hold o (hout ▸ hge) (by omega)
     · rw [hunlocked,hsyncOut]
       exact hlaw.unlocked k (hstep k hk).2 o (hout ▸ hge)
     · rw [hsyncOut,hin]
       exact le_trans (hlaw.syncOut_le k (hstep k hk).2) (le_succ _)
   · rw [hne r hr]
     exact h.queue r
 · rw [hbad] at hlive
   by_cases hr : r = q
   · subst hr
     rw [hparam] at hkind hlt
     obtain ⟨hold,hle⟩ := h.live r hlive hkind k hlt
     refine ⟨?_,?_⟩
     · rw [QueueEntry.InStep,hsyncIn,hin]
       simp only [if_pos hlt]
       exact congrArg succ hold
     · rw [hout,hsyncOut]
       exact hle
   · rw [hne r hr] at hkind hlt ⊢
     exact h.live r hlive hkind k hlt
 · by_cases hut : u = t
   · subst hut
     obtain rfl : p = q := by
      obtain horigin | ⟨e,he⟩ := hu
      · exact some.inj (horigin.symm.trans hi.context.1)
      · rw [hi.pc,hi.idle] at he
        cases he
     obtain ⟨hcount,hold⟩ := hstep k hk
     rw [hsync k hcount,hi.context.2,hinside k]
     exact ⟨hold,nofun⟩
   · have hold : HasContext s u p := by
      rw [HasContext,hi.context_ne u hut,hi.pc] at hu
      exact hu
     rw [hi.context_ne u hut]
     by_cases hp : p = q
     · subst hp
       rw [hsyncOut]
       exact h.context u p hold k (hstep k hk).2
     · rw [hne p hp] at hk ⊢
       exact h.context u p hold k hk

lemma take (h : Locked s) (hpc : s.pc t = .idle) (hacc : Accounted (s.take t q))
 (hfree : ¬ ((s.queue q).param.kind = .ordered ∧ (s.schedLocal t).originQe ≠ none)) :
 Locked (s.take t q) := by
 have hbad := bad_take s t q
 have horders := Accounted.take_orders hpc hfree
 simp only [State.take] at hacc hbad horders ⊢
 -- an entry that changes in its status or its events
 have hentry : ∀ s' e, Accounted s' → s'.bad = s.bad → s'.queue = update s.queue q e →
  s'.schedLocal = s.schedLocal → s'.pc = s.pc → e.param = (s.queue q).param →
  e.orderIn = (s.queue q).orderIn ∧ e.orderOut = (s.queue q).orderOut ∧
   e.syncIn = (s.queue q).syncIn ∧ e.syncOut = (s.queue q).syncOut ∧
   e.syncOf = (s.queue q).syncOf ∧ e.unlocked = (s.queue q).unlocked → Locked s' := by
  intro s' e hacc hbad hqueue hlocal hpcs hparam hfields
  refine h.congr hacc (contextsKept_of_eq hlocal hpcs) (fun r => ?_) fun r hlive hkind k hlt => ?_
  · rw [hqueue]
    by_cases hr : r = q
    · subst hr
      rw [update_self]
      exact hfields
    · rw [update_of_ne hr]
      exact ⟨rfl,rfl,rfl,rfl,rfl,rfl⟩
  · rw [hbad] at hlive
    have hsame : (s'.queue r).param = (s.queue r).param := by
     rw [hqueue]
     by_cases hr : r = q
     · subst hr
       rw [update_self]
       exact hparam
     · rw [update_of_ne hr]
    rw [hsame] at hkind hlt
    exact h.live r hlive hkind k hlt
 split at hacc
 · next hb =>
   rw [if_pos hb] at hbad ⊢
   split at hacc
   · next hd =>
     rw [if_pos hd] at hbad ⊢
     exact hentry _ _ hacc hbad rfl rfl rfl rfl ⟨rfl,rfl,rfl,rfl,rfl,rfl⟩
   · next hd =>
     rw [if_neg hd]
     exact h
 · next hb =>
   rw [if_neg hb] at hbad horders ⊢
   cases hevents : (s.queue q).events with
   | nil =>
    rw [hevents] at hacc hbad
    refine hentry _ _ hacc hbad rfl rfl rfl ?_ ?_
    · rw [QueueEntry.sleep]
      split <;> rfl
    · rw [QueueEntry.sleep]
      split <;> exact ⟨rfl,rfl,rfl,rfl,rfl,rfl⟩
   | cons ev evs =>
    simp only [hevents] at hacc hbad horders ⊢
    split at hacc
    · next hkind =>
      rw [if_pos hkind] at hbad horders ⊢
      obtain hu | hi := horders
      · -- an order is handed out
        have hin := (hu.queue q).2.1
        simp at hin
      · refine h.take_event hacc hi ?_ (fun r hr => ?_) hbad ?_ ?_ ?_ (fun k hk => ?_)
         ?_ fun k => ?_
        · simp
        · simp [hr]
        · simp
        · simp
        · simp only [State.modify,State.setLocal,update_self]
          rfl
        · simp [hk]
        · simp
        · simp
    · next hkind =>
      rw [if_neg hkind] at hbad ⊢
      exact hentry _ _ hacc hbad rfl rfl rfl rfl ⟨rfl,rfl,rfl,rfl,rfl,rfl⟩

lemma modify (h : Locked s) {f : QueueEntry m → QueueEntry m} (hacc : Accounted (s.modify q f))
 (hf : (f (s.queue q)).orderIn = (s.queue q).orderIn ∧
  (f (s.queue q)).orderOut = (s.queue q).orderOut ∧ (f (s.queue q)).syncIn = (s.queue q).syncIn ∧
  (f (s.queue q)).syncOut = (s.queue q).syncOut ∧ (f (s.queue q)).syncOf = (s.queue q).syncOf ∧
  (f (s.queue q)).unlocked = (s.queue q).unlocked)
 (hlive : (f (s.queue q)).status.bad = false → (f (s.queue q)).param.kind = .ordered → ∀ k,
  k < (f (s.queue q)).param.lockCount →
   (s.queue q).InStep k ∧ (s.queue q).orderOut ≤ (s.queue q).syncOut k) :
 Locked (s.modify q f) := by
 refine h.congr hacc (contextsKept_of_eq rfl rfl) (fun r => ?_) fun r hr => ?_
 · by_cases hr : r = q
   · subst hr
     rw [queue_modify]
     exact hf
   · rw [queue_modify_of_ne _ _ hr]
     exact ⟨rfl,rfl,rfl,rfl,rfl,rfl⟩
 · by_cases hrq : r = q
   · subst hrq
     rw [bad,queue_modify] at hr
     rw [queue_modify]
     exact hlive hr
   · rw [bad,queue_modify_of_ne _ _ hrq] at hr
     rw [queue_modify_of_ne _ _ hrq]
     exact h.live r hr

lemma create (h : Locked s) {param : Param} (hacc : Accounted (s.create q param))
 (hfree : (s.queue q).status = .free)
 (hok : param.kind = .ordered → param.lockCount ≤ Scheduler.maxOrderedLocks → ∀ k,
  k < param.lockCount → (s.queue q).InStep k ∧ (s.queue q).orderOut ≤ (s.queue q).syncOut k) :
 Locked (s.create q param) := by
 rw [State.create] at hacc ⊢
 split at hacc
 · next hmany =>
   rw [if_pos hmany]
   -- the slot stays free
   exact h.modify hacc ⟨rfl,rfl,rfl,rfl,rfl,rfl⟩ fun hlive => by simp [hfree] at hlive
 · next hmany =>
   rw [if_neg hmany]
   exact h.modify hacc ⟨rfl,rfl,rfl,rfl,rfl,rfl⟩ fun _ hkind => hok hkind (Nat.le_of_not_lt hmany)

lemma destroy (h : Locked s) (hacc : Accounted (s.destroy q)) : Locked (s.destroy q) := by
 rw [State.destroy] at hacc ⊢
 split at hacc
 · next hkeep =>
   rw [if_pos hkeep]
   exact h
 · next hkeep =>
   rw [if_neg hkeep]
   refine h.modify hacc ⟨rfl,rfl,rfl,rfl,rfl,rfl⟩ fun hlive => ?_
   split at hlive <;> simp at hlive

end Locked

-- Whole runs

/-- Holders unlock what they have locked. An ordered queue is created in a slot where the lock
indices it uses have been counted up with the orders all along. -/
def LockOk (s : State m n) : Action m n → Prop
 | .unlock t k => ∀ p ∈ (s.schedLocal t).originQe, k < (s.queue p).param.lockCount →
  (s.schedLocal t).inside k = true
 | .create _ q param => param.kind = .ordered → param.lockCount ≤ Scheduler.maxOrderedLocks → ∀ k,
  k < param.lockCount →
   (s.queue q).syncIn k = (s.queue q).orderIn ∧ (s.queue q).orderOut ≤ (s.queue q).syncOut k
 | .enq _ _ _ | .take _ _ | .release _ _ _ | .lock _ _ | .destroy _ _ | .step _ => True

instance (s : State m n) : ∀ a, Decidable (LockOk s a)
 | .unlock t k => inferInstanceAs (Decidable (∀ p ∈ (s.schedLocal t).originQe,
  k < (s.queue p).param.lockCount → (s.schedLocal t).inside k = true))
 | .create _ q param => inferInstanceAs (Decidable (param.kind = .ordered →
  param.lockCount ≤ Scheduler.maxOrderedLocks → ∀ k, k < param.lockCount →
   (s.queue q).syncIn k = (s.queue q).orderIn ∧ (s.queue q).orderOut ≤ (s.queue q).syncOut k))
 | .enq _ _ _ | .take _ _ | .release _ _ _ | .lock _ _ | .destroy _ _ | .step _ =>
  inferInstanceAs (Decidable True)

/-- A queue table with counters that agree, in use or not, and no order handed out. -/
def LockInit (s : State m n) : Prop :=
 (∀ q, (s.queue q).reorder = [] ∧ (s.queue q).orderOut = (s.queue q).orderIn ∧
  ∀ k, (s.queue q).syncIn k = (s.queue q).orderIn ∧ (s.queue q).syncOut k = (s.queue q).orderIn ∧
   ∀ o, (s.queue q).unlocked o k = false) ∧
 ∀ t, s.pc t = .idle ∧ (s.schedLocal t).originQe = none

abbrev Locked.Reachable : State m n → Prop := Transition.Reach LockInit step LockOk

namespace Locked

variable {s s' : State m n}

lemma init (h : LockInit s) : Locked s := by
 obtain ⟨hq,ht⟩ := h
 refine ⟨.init (fun q => ⟨(hq q).1,(hq q).2.1⟩) ht,fun q => ?_,fun q _ _ k _ => ?_,fun t p hc => ?_⟩
 · obtain ⟨-,hout,hk⟩ := hq q
   refine ⟨fun k => (hk k).1.le,fun k _ o hge hlt => ?_,fun k _ o hge => ?_,fun k _ =>
    (hk k).2.1.le⟩
   · omega
   · obtain ⟨-,hsync,hunlocked⟩ := hk k
     rw [hunlocked o]
     exact iff_of_false Bool.false_ne_true (by omega)
 · obtain ⟨-,hout,hk⟩ := hq q
   exact ⟨(hk k).1,by rw [hout,(hk k).2.1]⟩
 · obtain horigin | ⟨e,he⟩ := hc
   · rw [(ht t).2] at horigin
     cases horigin
   · rw [(ht t).1] at he
     cases he

lemma step (h : Locked s) {a : Action m n} (hok : LockOk s a)
 (hstep : OrderedQueue.step s a = some s') : Locked s' := by
 have hacc := h.accounted.step hstep
 obtain ⟨t,origin,e,keep,rfl,hpc,hstep⟩ | ⟨hpc,hstep⟩ := step_cases hstep
 · obtain ⟨hc,hk⟩ := kept_enqMoving hpc hstep
   exact h.of_kept hacc hc hk
 · cases a with
   | enq t q evs =>
    obtain ⟨hc,hk⟩ := kept_enq hstep
    exact h.of_kept hacc hc hk
   | take t q =>
    simp only [call] at hstep
    split at hstep
    · cases hstep
    · next hfree =>
      cases hstep
      exact h.take hpc hacc hfree
   | release t keep alloc =>
    cases hstep
    obtain ⟨hc,hk⟩ := kept_release s hpc keep alloc
    exact h.of_kept hacc hc hk
   | lock t k => exact h.orderLock hacc hstep
   | unlock t k =>
    cases hstep
    obtain heq | ⟨r,hu⟩ := orderUnlock_cases s t k
    · rw [heq]
      exact h
    · exact h.unlock hacc hu (hok r hu.origin hu.index)
   | create t q param =>
    simp only [call] at hstep
    split at hstep
    · next hfree =>
      cases hstep
      exact h.create hacc hfree hok
    · cases hstep
   | destroy t q =>
    cases hstep
    exact h.destroy hacc
   | step t => cases hstep

end Locked

/-- The locks of a live ordered queue: an order that has not used lock `k` is not behind
`sync_out[k]`; the lock has one holder and can be passed exactly when all earlier orders are
resolved or have left it. -/
theorem ordered_locks {s : State m n} (h : Locked.Reachable s) {q : Fin m} (hlive : s.bad q = false)
 (hkind : (s.queue q).param.kind = .ordered) {k : Nat} (hk : k < (s.queue q).param.lockCount) :
 (∀ o, (s.queue q).orderOut ≤ o → o < (s.queue q).orderIn → (s.queue q).unlocked o k = false →
  (s.queue q).syncOut k ≤ (s.queue q).syncOf o k) ∧
 (∀ t u, (s.schedLocal t).originQe = some q → (s.schedLocal u).originQe = some q →
  (s.schedLocal t).inside k = true → (s.schedLocal u).inside k = true → t = u) ∧
 (∀ t s', (s.schedLocal t).originQe = some q → step s (.lock t k) = some s' →
  ∀ o, (s.queue q).orderOut ≤ o → o < (s.schedLocal t).order →
   (s.queue q).unlocked o k = true) ∧
 ∀ t, s.pc t = .idle → (s.schedLocal t).originQe = some q →
  (s.queue q).unlocked (s.schedLocal t).order k = false →
  (∀ o, (s.queue q).orderOut ≤ o → o < (s.schedLocal t).order →
   (s.queue q).unlocked o k = true) →
  ∃ s', step s (.lock t k) = some s' ∧ (s'.schedLocal t).inside k = true := by
 have hs : Locked s :=
  h.invariant (fun _ => Locked.init) fun _ _ _ hs hok hstep => hs.step hok hstep
 obtain ⟨hstep,hout⟩ := hs.live q hlive hkind k hk
 have hlaw := hs.queue q
 have hcontext : ∀ t, (s.schedLocal t).originQe = some q → HasContext s t q := fun t => .inl
 refine ⟨fun o hge hlt hnot => ?_,fun t u ht hu hit hiu => ?_,fun t s' ht hlock o hge hlt => ?_,
  fun t hpc ht hnot hall => ?_⟩
 · rw [hlaw.syncOf k hstep o hge hlt]
   have hiff := hlaw.unlocked k hstep o hge
   rw [hnot] at hiff
   by_contra hlt'
   exact Bool.false_ne_true (hiff.mpr (Nat.lt_of_not_le hlt'))
 · have heqt := (hs.context t q (hcontext t ht) k hstep).2 hit
   have hequ := (hs.context u q (hcontext u hu) k hstep).2 hiu
   exact (hcontext t ht).unique hs.accounted (hcontext u hu) (heqt.symm.trans hequ)
 · obtain ⟨t',origin,e,keep,heq,-⟩ | ⟨-,hlock⟩ := step_cases hlock
   · cases heq
   · simp only [call,orderLock,ht,if_neg (not_le.mpr hk)] at hlock
     split at hlock
     · next hsync =>
       rw [hlaw.unlocked k hstep o hge,← hsync,(hs.context t q (hcontext t ht) k hstep).1]
       exact hlt
     · cases hlock
 · have hsync := (hs.context t q (hcontext t ht) k hstep).1
   have hbounds := (hcontext t ht).bounds hs.accounted
   have heq : (s.schedLocal t).sync k = (s.queue q).syncOut k := by
    rw [hsync]
    have hle : ¬ (s.schedLocal t).order < (s.queue q).syncOut k := by
     rw [← hlaw.unlocked k hstep _ hbounds.1,hnot]
     exact Bool.false_ne_true
    have hge : ¬ (s.queue q).syncOut k < (s.schedLocal t).order := by
     intro hlt
     have hself := (hlaw.unlocked k hstep _ hout).mp (hall _ hout hlt)
     exact lt_irrefl _ hself
    omega
   refine ⟨s.setLocal t { s.schedLocal t with inside := update (s.schedLocal t).inside k true },
    ?_,?_⟩
   · simp only [step,Action.thread,hpc,call,orderLock,ht,if_neg (not_le.mpr hk),if_pos heq]
   · simp

/-- A table of one slot, never used. -/
def emptyTable : State 1 2 where
 queue _ := ⟨.free,⟨.plain,0⟩,[],0,0,[],fun _ => 0,fun _ => 0,fun _ _ => 0,fun _ _ => false⟩
 hdr _ := none
 schedLocal _ := ⟨none,0,fun _ => 0,false,fun _ => false⟩
 pc _ := .idle
 ledger := ⟨fun _ => true,fun _ => none,fun _ => none,fun _ => ⟨none,0,0⟩,0,fun _ => []⟩

lemma emptyTable_init : LockInit emptyTable :=
 ⟨fun _ => ⟨rfl,rfl,fun _ => ⟨rfl,rfl,fun _ => rfl⟩⟩,fun _ => ⟨rfl,rfl⟩⟩

/-- Two lives of a queue with one lock. In the second one the first order has left the lock, and the
next one can pass it. -/
theorem ordered_locks_second_life :
 ∃ s : State 1 2, Locked.Reachable s ∧ (s.schedLocal 1).order = 2 ∧
  ∃ s', step s (.lock 1 0) = some s' ∧ (s'.schedLocal 1).inside 0 = true := by
 have h0 : Locked.Reachable emptyTable := .start emptyTable_init
 obtain ⟨s,hs,hlive,hparam,hpc,horigin,horder,hout,hnot,hone⟩ := h0.exists_of_run
  [.create 0 0 ⟨.ordered,1⟩,.enq 0 0 [0],.take 0 0,.release 0 true true,.take 0 0,.destroy 0 0,
   .create 0 0 ⟨.ordered,1⟩,.enq 0 0 [1,2],.take 0 0,.take 1 0,.lock 0 0,.unlock 0 0]
  (fun s => s.bad 0 = false ∧ (s.queue 0).param = ⟨.ordered,1⟩ ∧ s.pc 1 = .idle ∧
   (s.schedLocal 1).originQe = some 0 ∧ (s.schedLocal 1).order = 2 ∧ (s.queue 0).orderOut = 1 ∧
   (s.queue 0).unlocked 2 0 = false ∧ (s.queue 0).unlocked 1 0 = true) (by decide)
 refine ⟨s,hs,horder,
  (ordered_locks hs hlive (by rw [hparam]) (k := 0) (by rw [hparam]; decide)).2.2.2
  1 hpc horigin (by rw [horder]; exact hnot) fun o hge hlt => ?_⟩
 obtain rfl : o = 1 := by omega
 exact hone

/-- The first life has no locks, so in the second one `sync_in[0]` starts behind `order_in`. The
first order resolved takes `sync_out[0]` past the `sync[0]` of the next one. -/
theorem ordered_locks_out_of_step : ∃ s : State 1 2, Transition.Reach LockInit step
 (fun s a => LockOk s a ∨ a.keepsQueues = false) s ∧
 s.bad 0 = false ∧ (s.queue 0).param = ⟨.ordered,1⟩ ∧ (s.schedLocal 1).originQe = some 0 ∧
 (s.queue 0).orderOut = 2 ∧ (s.schedLocal 1).order = 2 ∧ (s.queue 0).unlocked 2 0 = false ∧
 (s.queue 0).syncOf 2 0 = 1 ∧ (s.queue 0).syncOut 0 = 2 ∧
 (step s (.lock 1 0)).isNone = true := by
 exact Transition.exists_of_start emptyTable_init
  [.create 0 0 ⟨.ordered,0⟩,.enq 0 0 [0],.take 0 0,.release 0 true true,.take 0 0,.destroy 0 0,
   .create 0 0 ⟨.ordered,1⟩,.enq 0 0 [1,2],.take 0 0,.take 1 0,.release 0 true true] _ (by decide)
  fun _ _ h => h

end Packages.OrderedQueue

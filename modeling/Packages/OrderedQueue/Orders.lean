import Packages.Lib.Custody
import Packages.Lib.Resolution
import Packages.OrderedQueue.Steps

/-!
# Every order is resolved once

An order that was handed out and is not resolved is held by the thread in its context, by an element
of the reorder list without the sustain flag, or by the element that a thread has in hand, and only
by one of them: whoever resolves an order resolves the next one. The callers may enqueue events with
the header of another context, create and destroy queues, and release contexts as they like.
-/

namespace Packages.OrderedQueue

open Function State Option Nat

open Resolution

variable {m n : Nat}

attribute [local simp] Entry.releaseCount State.setPc State.setLocal State.modify State.recordTake

/-- The orders that the elements of a reorder list resolve. -/
def resolving (l : List (Entry m)) : List Nat := (l.filter fun x => !x.sustain).map Entry.order

def Local.resolving (l : Local m) (p : Fin m) : List Nat :=
 if l.originQe = some p then [l.order] else []

def Pc.resolving (p : Fin m) : Pc m → List Nat
 | .idle => []
 | .moving origin e _ => if origin = p then OrderedQueue.resolving [e] else []

inductive Holder (m n : Nat) where
 | context (t : Fin n)
 | hand (t : Fin n)
 | reorder (q : Fin m)
 deriving DecidableEq

/-- How often the order of a queue is held there. -/
def orderAt (s : State m n) : Holder m n → Fin m × Nat → Nat
 | .context t, (p,o) => ((s.schedLocal t).resolving p).count o
 | .hand t, (p,o) => ((s.pc t).resolving p).count o
 | .reorder q, (p,o) => if q = p then (resolving (s.queue q).reorder).count o else 0

/-- Placeholders resolve their order. -/
def Formed (l : List (Entry m)) : Prop := ∀ x ∈ l, x.target = none → x.sustain = false

structure Accounted (s : State m n) : Prop where
 exclusive : Exclusive (orderAt s)
 bounds : ∀ x p o, orderAt s x (p,o) ≠ 0 → (s.queue p).orderOut ≤ o ∧ o < (s.queue p).orderIn
 le : ∀ p, (s.queue p).orderOut ≤ (s.queue p).orderIn
 formed : ∀ p, Formed (s.queue p).reorder
 /-- `release_order` on behalf of a context that comes back if the call fails -/
 aside : ∀ t p e, s.pc t = .moving p e true → (s.schedLocal t).originQe = none ∧
  (s.schedLocal t).order = e.order ∧ e.sustain = false

-- The lists

section Lists

variable {a e : Entry m} {l l' : List (Entry m)} {out : Nat}

@[simp] lemma resolving_nil : resolving ([] : List (Entry m)) = [] := rfl

@[simp] lemma resolving_append (l l' : List (Entry m)) :
 resolving (l++l') = resolving l++resolving l' := by
 rw [resolving,List.filter_append,List.map_append]
 rfl

lemma resolving_cons_of_sustain (h : a.sustain = true) : resolving (a::l) = resolving l := by
 simp [resolving,h]

lemma resolving_cons (h : a.sustain = false) : resolving (a::l) = a.order::resolving l := by
 simp [resolving,h]

lemma resolving_congr {e' : Entry m} (ho : e'.order = e.order) (hs : e'.sustain = e.sustain) :
 resolving (e'::l) = resolving (e::l) := by
 cases he : e.sustain with
 | true => rw [resolving_cons_of_sustain (hs.trans he),resolving_cons_of_sustain he]
 | false => rw [resolving_cons (hs.trans he),resolving_cons he,ho]

lemma resolving_of_sustain (h : ∀ x ∈ l, x.sustain = true) : resolving l = [] := by
 rw [resolving,List.filter_eq_nil_iff.mpr fun x hx => by simp [h x hx]]
 rfl

lemma resolving_perm (h : l.Perm l') : (resolving l).Perm (resolving l') :=
 (h.filter _).map _

lemma count_resolving_reorderEnq (e : Entry m) (l : List (Entry m)) (o : Nat) :
 (resolving (reorderEnq e l)).count o = (resolving ([e]++l)).count o :=
 (resolving_perm (reorderEnq_perm e l)).count_eq o

lemma count_resolving_sorted (hs : e.sustain = true) (l : List (Entry m)) (o : Nat) :
 (resolving (reorderEnq e l)).count o = (resolving l).count o := by
 rw [count_resolving_reorderEnq,List.singleton_append,resolving_cons_of_sustain hs]

lemma reorderDeq_settles (queue : Fin m) (hformed : Formed l) (hp : Pending (resolving l) out) :
 Settles (resolving l) (resolving (reorderDeq queue out l).rest) out
  (reorderDeq queue out l).orderOut := by
 induction l generalizing out with
 | nil => exact .refl _ _
 | cons a l ih =>
  have hformed' : Formed l := fun x hx => hformed x (List.mem_cons_of_mem a hx)
  have hresolve : a.order ≤ out → a.sustain = false →
   Settles (resolving (a::l)) (resolving (reorderDeq queue (out+1) l).rest) out
    (reorderDeq queue (out+1) l).orderOut := by
   intro hdue hs
   rw [resolving_cons hs] at hp ⊢
   obtain ⟨heq,htail⟩ := hp.tail_of_due hdue
   rw [heq]
   exact (Settles.head _ _).trans (ih hformed' htail)
  obtain h | ⟨hdue,ht,h⟩ | ⟨hdue,-,h⟩ := reorderDeq_cons queue out a l
  · rw [h]
    exact .refl _ _
  · rw [h]
    exact hresolve hdue (hformed a List.mem_cons_self ht)
  · rw [h]
    cases hs : a.sustain with
    | true =>
     rw [resolving_cons_of_sustain hs] at hp ⊢
     simpa [hs] using ih hformed' hp
    | false => simpa [hs] using hresolve hdue hs

lemma completeLoop_settles (o : QueueEntry m) {passed : List (Entry m)}
 (hpassed : ∀ x ∈ passed, x.sustain = true) (hformed : Formed l)
 (hp : Pending (resolving l) o.orderOut) : Settles (resolving l)
  (resolving ((o.completeLoop passed l).2.toList++(o.completeLoop passed l).1.reorder))
  o.orderOut (o.completeLoop passed l).1.orderOut := by
 induction l generalizing o passed with
 | nil =>
  show Settles _ (resolving passed) _ _
  rw [resolving_of_sustain hpassed]
  exact .refl _ _
 | cons a l ih =>
  have hformed' : Formed l := fun x hx => hformed x (List.mem_cons_of_mem a hx)
  have hkeep : resolving (passed++a::l) = resolving (a::l) := by
   rw [resolving_append,resolving_of_sustain hpassed,List.nil_append]
  obtain hc | ⟨hdue,ht,hc⟩ | ⟨-,-,hs,hc⟩ | ⟨-,-,-,b,bs,hb,hc⟩ :=
   QueueEntry.completeLoop_cons o passed a l
  · rw [hc]
    show Settles _ (resolving (passed++a::l)) _ _
    rw [hkeep]
    exact .refl _ _
  · rw [hc]
    have hs := hformed a List.mem_cons_self ht
    rw [resolving_cons hs] at hp ⊢
    obtain ⟨heq,htail⟩ := hp.tail_of_due hdue
    rw [heq]
    exact (Settles.head _ _).trans (ih (o.orderRelease 1) nofun hformed' htail)
  · rw [hc]
    rw [resolving_cons_of_sustain hs] at hp ⊢
    refine ih o (fun x hx => ?_) hformed' hp
    obtain hx | hx := List.mem_append.mp hx
    · exact hpassed x hx
    · rw [List.mem_singleton.mp hx]
      exact hs
  · rw [hc]
    show Settles _ (resolving (b::bs)) _ _
    rw [hb,hkeep]
    exact .refl _ _

lemma reorderComplete_settles {o : QueueEntry m} (hformed : Formed o.reorder)
 (hp : Pending (resolving o.reorder) o.orderOut) : Settles (resolving o.reorder)
  (resolving (o.reorderComplete.2.toList++o.reorderComplete.1.reorder)) o.orderOut
  o.reorderComplete.1.orderOut :=
 completeLoop_settles o nofun hformed hp

lemma Formed.reorderEnq (h : Formed l) (he : e.target = none → e.sustain = false) :
 Formed (reorderEnq e l) := by
 intro x hx
 obtain rfl | hx := mem_reorderEnq.mp hx
 · exact he
 · exact h x hx

lemma Formed.reorderComplete {o : QueueEntry m} (h : Formed o.reorder) :
 Formed (o.reorderComplete.2.toList++o.reorderComplete.1.reorder) :=
 fun x hx => h x (by simpa using QueueEntry.mem_completeLoop hx)

end Lists

-- Delivering an element

/-- What `ordered_queue_enq` of `e` does to the orders of `origin`: `ret` is handed to the thread
and `rest` stays on the reorder list. -/
structure Delivered (s s' : State m n) (t : Fin n) (target origin : Fin m) (e : Entry m)
 (rest : List (Entry m)) (ret : Option (Entry m)) : Prop where
 change : ∃ added orderOut, Change s s' target origin added rest orderOut
 pc : s'.pc t = .handOn origin ret
 pc_ne : ∀ u, u ≠ t → s'.pc u = s.pc u
 context : ∃ qe, (qe = (s.schedLocal t).originQe ∨ qe = none ∧ e.sustain = false) ∧
  s'.schedLocal t = { s.schedLocal t with enqCalled := true, originQe := qe }
 context_ne : ∀ u, u ≠ t → s'.schedLocal u = s.schedLocal u
 settles : Settles (resolving (e::(s.queue origin).reorder)) (resolving (ret.toList++rest))
  (s.queue origin).orderOut (s'.queue origin).orderOut
 formed : Formed rest

section Deliver

variable {s s' : State m n} {t : Fin n} {target origin : Fin m} {e : Entry m}

lemma settles_due {l : List (Entry m)} {out : Nat} (hdue : e.order ≤ out)
 (hp : Pending (resolving (e::l)) out) :
 Settles (resolving (e::l)) (resolving l) out (out+e.releaseCount) := by
 cases hs : e.sustain with
 | true =>
  rw [resolving_cons_of_sustain hs]
  simpa [hs] using Settles.refl (resolving l) out
 | false =>
  rw [resolving_cons hs] at hp ⊢
  obtain ⟨heq,-⟩ := hp.tail_of_due hdue
  rw [heq]
  simpa [hs] using Settles.head (resolving l) out

lemma orderedQueueEnq_delivered (h : s.orderedQueueEnq t target origin e = some s')
 (hformed : Formed (s.queue origin).reorder)
 (hp : Pending (resolving (e::(s.queue origin).reorder)) (s.queue origin).orderOut) :
 ∃ rest ret, Delivered s s' t target origin e rest ret := by
 obtain ⟨⟨s1,b⟩,hmove,rfl⟩ := map_eq_some_iff.mp h
 obtain ⟨hpc,hlocal,hcase⟩ := orderedMove_cases hmove
 have hidle : ∀ u, u ≠ t → (s1.setPc t .idle).pc u = s.pc u := by
  intro u hu
  simp [hu,hpc]
 obtain ⟨-,rfl,hself,hc⟩ | ⟨hin,hself,⟨hempty,rfl,hc⟩ | ⟨hne,rfl,r,hr,-,hc⟩⟩ := hcase
 · -- sorted in
   refine ⟨_,none,⟨⟨_,_,hc.setPc t .idle⟩,by simp [Pc.handOn],hidle,
    ⟨_,.inl rfl,hself⟩,hlocal,?_,hformed.reorderEnq nofun⟩⟩
   have hout : ((s1.setPc t .idle).queue origin).orderOut = (s.queue origin).orderOut := hc.orderOut
   rw [if_neg Bool.false_ne_true,hout]
   apply Settles.of_count_eq
   intro o
   have hsame : resolving ({ e with target := some target }::(s.queue origin).reorder) =
    resolving (e::(s.queue origin).reorder) := resolving_congr rfl rfl
   rw [toList_none,List.nil_append,count_resolving_reorderEnq,List.singleton_append,hsame]
 · -- straight to the target
   refine ⟨_,none,⟨⟨_,_,hc.setPc t .idle⟩,by simp [Pc.handOn],hidle,⟨_,?_,hself⟩,hlocal,?_,nofun⟩⟩
   · cases e.sustain
     · exact .inr ⟨rfl,rfl⟩
     · exact .inl rfl
   · have hout : ((s1.setPc t .idle).queue origin).orderOut = _ := hc.orderOut
     rw [if_neg Bool.false_ne_true,hout]
     have hdue := settles_due hin hp
     rw [hempty] at hdue ⊢
     exact hdue
 · -- with everything due for the target
   have hdue := settles_due hin hp
   have hsorted : Settles (resolving (s.queue origin).reorder)
    (resolving (reorderEnq { e with target := some target, sustain := true }
     (s.queue origin).reorder)) ((s.queue origin).orderOut+e.releaseCount)
    ((s.queue origin).orderOut+e.releaseCount) :=
    .of_count_eq fun o => count_resolving_sorted rfl _ o
   have hformed1 : Formed (reorderEnq { e with target := some target, sustain := true }
    (s.queue origin).reorder) := hformed.reorderEnq nofun
   have hlist := hdue.trans hsorted
   have hdeq := reorderDeq_settles target hformed1 (hlist.resolves.pending hp)
   rw [← hr] at hdeq
   have hformed2 : Formed (s1.queue origin).reorder := by
    rw [hc.reorder,hr]
    exact fun x hx => hformed1 x (mem_rest hx)
   have hrest := hlist.trans hdeq
   rw [← hc.reorder,← hc.orderOut] at hrest
   have hcomplete := reorderComplete_settles hformed2 (hrest.resolves.pending hp)
   have hcc := complete_change s1 t target origin
   have hall := hrest.trans hcomplete
   rw [← hcc.orderOut] at hall
   refine ⟨_,_,⟨⟨_,_,hc.trans hcc⟩,complete_pc s1 t origin,fun u hu => ?_,⟨_,?_,hself⟩,hlocal,hall,
    fun x hx => hformed2.reorderComplete x (List.mem_append_right _ hx)⟩⟩
   · rw [if_pos rfl,complete_pc_ne s1 t origin hu,hpc]
   · cases e.sustain
     · exact .inr ⟨rfl,rfl⟩
     · exact .inl rfl

end Deliver

-- The steps

/-- The orders of `q` that the thread and the reorder list of `p` hold. -/
def held (s : State m n) (t : Fin n) (p q : Fin m) : List Nat :=
 (s.schedLocal t).resolving q++(s.pc t).resolving q ++
  if p = q then resolving (s.queue p).reorder else []

/-- A step of thread `t` that takes orders from and to its context, its hands and the reorder list
of `p`, and resolves some. -/
structure OrderStep (s s' : State m n) (t : Fin n) (p : Fin m) : Prop where
 context_ne : ∀ u, u ≠ t → s'.schedLocal u = s.schedLocal u
 pc_ne : ∀ u, u ≠ t → s'.pc u = s.pc u
 reorder_ne : ∀ q, q ≠ p → (s'.queue q).reorder = (s.queue q).reorder
 orderIn : ∀ q, (s'.queue q).orderIn = (s.queue q).orderIn
 resolves : ∀ q, Resolves (held s t p q) (held s' t p q) (s.queue q).orderOut (s'.queue q).orderOut
 formed : Formed (s'.queue p).reorder
 aside : ∀ q e, s'.pc t = .moving q e true → (s'.schedLocal t).originQe = none ∧
  (s'.schedLocal t).order = e.order ∧ e.sustain = false

/-- The step loses no order. -/
def Lossless (s s' : State m n) (t : Fin n) (p : Fin m) : Prop :=
 ∀ q, Settles (held s t p q) (held s' t p q) (s.queue q).orderOut (s'.queue q).orderOut

/-- The holders that such a step touches. -/
def touched (t : Fin n) (p : Fin m) : List (Holder m n) := [.context t,.hand t,.reorder p]

lemma touched_nodup (t : Fin n) (p : Fin m) : (touched t p).Nodup := by simp [touched]

lemma count_held (s : State m n) (t : Fin n) (p q : Fin m) (o : Nat) :
 (held s t p q).count o = ((touched t p).map (orderAt s · (q,o))).sum := by
 rw [held,touched]
 by_cases hpq : p = q <;> simp [orderAt,hpq]

variable {q : Fin m} {s : State m n} {t : Fin n} {x : Holder m n}

lemma mem_held_of_orderAt {p : Fin m} {o : Nat}
 (hx : x ∈ touched t p) (h : orderAt s x (q,o) ≠ 0) : o ∈ held s t p q := by
 apply List.count_pos_iff.mp
 rw [count_held]
 exact lt_of_lt_of_le (pos_of_ne_zero h)
  (List.single_le_sum (fun _ _ => zero_le _) _ (List.mem_map_of_mem hx))

lemma exists_orderAt_of_mem_held {p : Fin m} {o : Nat}
 (h : o ∈ held s t p q) : ∃ x ∈ touched t p, orderAt s x (q,o) ≠ 0 := by
 by_contra hnot
 have hzero : ((touched t p).map (orderAt s · (q,o))).sum = 0 := by
  apply List.sum_eq_zero
  intro y hy
  obtain ⟨x,hx,rfl⟩ := List.mem_map.mp hy
  by_contra hne
  exact hnot ⟨x,hx,hne⟩
 rw [← count_held] at hzero
 exact List.count_eq_zero.mp hzero h

variable {s' : State m n}

lemma OrderStep.orderAt_eq {p : Fin m} (h : OrderStep s s' t p)
 (hx : x ∉ touched t p) : orderAt s' x = orderAt s x := by
 funext ⟨q,o⟩
 simp only [touched,List.mem_cons,List.not_mem_nil,or_false,not_or] at hx
 cases x with
 | context u => simp only [orderAt,h.context_ne u fun hu => hx.1 (by rw [hu])]
 | hand u => simp only [orderAt,h.pc_ne u fun hu => hx.2.1 (by rw [hu])]
 | reorder r => simp only [orderAt,h.reorder_ne r fun hr => hx.2.2 (by rw [hr])]

attribute [local simp] Pc.resolving

lemma resolving_handOn (origin q : Fin m) (ret : Option (Entry m)) :
 (Pc.handOn origin ret).resolving q = if origin = q then resolving ret.toList else [] := by
 cases ret with
 | none => simp [Pc.handOn]
 | some e => rfl

lemma resolving_moving (origin q : Fin m) (e : Entry m) (keep : Bool) :
 (Pc.moving origin e keep).resolving q = if origin = q then resolving [e] else [] := rfl

lemma resolving_context (l : Local m) (q : Fin m) :
 l.resolving q = if l.originQe = some q then [l.order] else [] := rfl

variable {origin : Fin m}

lemma handOn_ne_aside {ret : Option (Entry m)} {e : Entry m} :
 Pc.handOn origin ret ≠ .moving q e true := by
 intro he
 cases ret with
 | none | some y => cases he

/-- Steps that leave the contexts, the reorder lists and the counters of orders alone. -/
structure Unaffected (s s' : State m n) : Prop where
 context : ∀ u, (s'.schedLocal u).originQe = (s.schedLocal u).originQe ∧
  (s'.schedLocal u).order = (s.schedLocal u).order
 pc : s'.pc = s.pc
 queue : ∀ r, (s'.queue r).reorder = (s.queue r).reorder ∧
  (s'.queue r).orderIn = (s.queue r).orderIn ∧ (s'.queue r).orderOut = (s.queue r).orderOut

lemma Unaffected.refl (s : State m n) : Unaffected s s :=
 ⟨fun _ => ⟨rfl,rfl⟩,rfl,fun _ => ⟨rfl,rfl,rfl⟩⟩

lemma Unaffected.modify (s : State m n) (q : Fin m) {f : QueueEntry m → QueueEntry m}
 (hf : (f (s.queue q)).reorder = (s.queue q).reorder ∧
  (f (s.queue q)).orderIn = (s.queue q).orderIn ∧
  (f (s.queue q)).orderOut = (s.queue q).orderOut) : Unaffected s (s.modify q f) := by
 refine ⟨fun _ => ⟨rfl,rfl⟩,rfl,fun r => ?_⟩
 by_cases hr : r = q
 · subst hr
   rw [queue_modify]
   exact hf
 · rw [queue_modify_of_ne _ _ hr]
   exact ⟨rfl,rfl,rfl⟩

lemma Unaffected.enq (s : State m n) (t : Fin n) (q : Fin m) (evs : List Event) :
 Unaffected s ((s.record t q none evs).modify q fun e => (e.add evs).wake) := by
 obtain ⟨-,hreorder,hout,-⟩ := ((s.queue q).add evs).wake_fields
 have hin := ((s.queue q).add evs).keeps_wake.orderIn
 have hu := Unaffected.modify (s.record t q none evs) q (f := fun e => (e.add evs).wake)
  ⟨hreorder,hin,hout⟩
 exact { hu with }

lemma Unaffected.orderAt_eq (h : Unaffected s s') : orderAt s' = orderAt s := by
 funext x ⟨p,o⟩
 cases x with
 | context u => simp only [orderAt,Local.resolving,h.context]
 | hand u => simp only [orderAt,h.pc]
 | reorder r => simp only [orderAt,h.queue]

/-- The next order of `q` is handed out to the thread. -/
structure Issues (s s' : State m n) (t : Fin n) (q : Fin m) : Prop where
 idle : s.pc t = .idle
 context : (s'.schedLocal t).originQe = some q ∧ (s'.schedLocal t).order = (s.queue q).orderIn
 context_ne : ∀ u, u ≠ t → s'.schedLocal u = s.schedLocal u
 free : (s.schedLocal t).originQe = none
 pc : s'.pc = s.pc
 orderIn : (s'.queue q).orderIn = (s.queue q).orderIn+1
 orderIn_ne : ∀ r, r ≠ q → (s'.queue r).orderIn = (s.queue r).orderIn
 queue : ∀ r, (s'.queue r).reorder = (s.queue r).reorder ∧
  (s'.queue r).orderOut = (s.queue r).orderOut

lemma Issues.orderAt_self (h : Issues s s' t q)
 (p : Fin m) (o : Nat) :
 orderAt s' (.context t) (p,o) = if p = q ∧ o = (s.queue q).orderIn then 1 else 0 := by
 rw [orderAt,resolving_context,h.context.1,h.context.2]
 by_cases hp : q = p
 · subst hp
   by_cases ho : o = (s.queue q).orderIn
   · simp [ho]
   · simp [ho,Ne.symm ho]
 · simp [hp,Ne.symm hp]

lemma Issues.orderAt_ne (h : Issues s s' t q)
 (hx : x ≠ .context t) : orderAt s' x = orderAt s x := by
 funext ⟨p,o⟩
 cases x with
 | context u =>
  have hu : u ≠ t := fun hu => hx (by rw [hu])
  rw [orderAt,orderAt,h.context_ne u hu]
 | hand u => rw [orderAt,orderAt,h.pc]
 | reorder r => rw [orderAt,orderAt,(h.queue r).1]

lemma Issues.orderIn_le (h : Issues s s' t q)
 (r : Fin m) : (s.queue r).orderIn ≤ (s'.queue r).orderIn := by
 by_cases hr : r = q
 · subst hr
   have := h.orderIn
   omega
 · rw [h.orderIn_ne r hr]

/-- What steps need to lose no order: a thread that moves an element has no context, queues are not
destroyed, and the context is not dropped without a placeholder. -/
def losesNone (s : State m n) : Action m n → Prop
 | .step t => (∀ q, s.bad q = false) ∧ (s.schedLocal t).originQe = none
 | .release _ keep alloc => keep = false → alloc = true
 | .create _ _ _ => False
 | .enq _ _ _ | .take _ _ | .lock _ _ | .unlock _ _ | .destroy _ _ => True

/-- What a step does to the orders. -/
inductive OrderEffect (s : State m n) (a : Action m n) (s' : State m n) : Prop where
 | unaffected : Unaffected s s' → OrderEffect s a s'
 | moves (p : Fin m) : OrderStep s s' a.thread p →
  (losesNone s a → Lossless s s' a.thread p) → OrderEffect s a s'
 | issues (q : Fin m) : Issues s s' a.thread q → OrderEffect s a s'

variable {a : Action m n}

lemma OrderEffect.orderOut_le (h : OrderEffect s a s')
 (q : Fin m) : (s.queue q).orderOut ≤ (s'.queue q).orderOut := by
 cases h with
 | unaffected hu => rw [(hu.queue q).2.2]
 | moves p hs _ => exact (hs.resolves q).le
 | issues r hi => rw [(hi.queue q).2]

lemma OrderEffect.pc_ne (h : OrderEffect s a s') {u : Fin n}
 (hu : u ≠ a.thread) : s'.pc u = s.pc u := by
 cases h with
 | unaffected h => rw [h.pc]
 | moves p hs _ => exact hs.pc_ne u hu
 | issues r hi => rw [hi.pc]

namespace Accounted

variable {s s' : State m n} {t : Fin n} {p q : Fin m}

lemma held_bounds (h : Accounted s) {o : Nat} (ho : o ∈ held s t p q) :
 (s.queue q).orderOut ≤ o ∧ o < (s.queue q).orderIn := by
 obtain ⟨x,-,hx⟩ := exists_orderAt_of_mem_held ho
 exact h.bounds x q o hx

lemma pending (h : Accounted s) (t : Fin n) (p q : Fin m) :
 Pending (held s t p q) (s.queue q).orderOut := by
 refine ⟨List.nodup_iff_count.mpr fun o => ?_,fun o ho => (h.held_bounds ho).1⟩
 rw [count_held]
 exact h.exclusive _ (touched_nodup t p) _

lemma of_step (h : Accounted s) (hs : OrderStep s s' t p) : Accounted s' := by
 have hnodup := touched_nodup t p
 -- what is held was held before, and so was what was resolved
 have hold : ∀ {q o}, 0 < (held s' t p q).count o ∨ (s.queue q).orderOut ≤ o ∧
  o < (s'.queue q).orderOut → o ∈ held s t p q := by
  intro q o ho
  have hcount := (hs.resolves q).count o
  apply List.count_pos_iff.mp
  split_ifs at hcount <;> omega
 refine ⟨h.exclusive.regroup hnodup (fun x hx y => by rw [hs.orderAt_eq hx]) fun ⟨q,o⟩ => ?_,
  fun x q o hx => ?_,fun q => ?_,fun q => ?_,fun u q e hu => ?_⟩
 · rw [← count_held,← count_held]
   exact le_trans (le_add_right _ _) ((hs.resolves q).count o)
 · rw [hs.orderIn]
   by_cases hmem : x ∈ touched t p
   · have hheld := mem_held_of_orderAt hmem hx
     exact ⟨((hs.resolves q).pending (h.pending t p q)).ge o hheld,
      (h.held_bounds (hold (.inl (List.count_pos_iff.mpr hheld)))).2⟩
   · -- held elsewhere, so not among those that were resolved
     rw [hs.orderAt_eq hmem] at hx
     obtain ⟨hge,hlt⟩ := h.bounds x q o hx
     by_contra hresolved
     have hpos := List.count_pos_iff.mpr (hold (.inr ⟨hge,by omega⟩))
     rw [count_held,h.exclusive.sum_eq_zero hnodup hmem hx] at hpos
     exact lt_irrefl 0 hpos
 · rw [hs.orderIn]
   by_contra hlt
   have hmem := h.held_bounds (hold (.inr ⟨h.le q,by omega⟩))
   exact lt_irrefl _ hmem.2
 · by_cases hq : q = p
   · exact hq ▸ hs.formed
   · exact hs.reorder_ne q hq ▸ h.formed q
 · by_cases hut : u = t
   · subst hut
     exact hs.aside q e hu
   · rw [hs.context_ne u hut]
     exact h.aside u q e (hs.pc_ne u hut ▸ hu)

attribute [local simp] resolving_context

lemma count_context {l l' : Local m} {qe : Option (Fin m)} {b : Bool}
 (hqe : qe = l.originQe ∨ qe = none ∧ b = false)
 (hl : l' = { l with enqCalled := true, originQe := qe }) (q : Fin m) (o : Nat) :
 (l'.resolving q).count o ≤ (l.resolving q).count o ∧
  (b = true ∨ l.originQe = none → (l'.resolving q).count o = (l.resolving q).count o) := by
 subst hl
 obtain rfl | ⟨rfl,hb⟩ := hqe
 · exact ⟨le_refl _,fun _ => rfl⟩
 · refine ⟨by simp,fun hkeep => ?_⟩
   obtain hb' | hnone := hkeep
   · rw [hb] at hb'
     cases hb'
   · simp [hnone]

/-- `ordered_queue_enq` of an element whose order the thread has in hand, if it resolves one. A
thread with a context loses it over an element that resolves an order. -/
lemma deliver (h : Accounted s) (s0 : State m n) {target : Fin m} {e : Entry m}
 (hqueue : s0.queue = s.queue) (hlocal : s0.schedLocal = s.schedLocal) (hpc : s0.pc = s.pc)
 (hhand : (s.pc t).resolving origin = resolving [e] ∧ ∀ q, origin ≠ q → (s.pc t).resolving q = [])
 (hstep : s0.orderedQueueEnq t target origin e = some s') : OrderStep s s' t origin ∧
  (e.sustain = true ∨ (s.schedLocal t).originQe = none → Lossless s s' t origin) := by
 have hlist : held s t origin origin =
  (s.schedLocal t).resolving origin++resolving (e::(s.queue origin).reorder) := by
  rw [held,if_pos rfl,hhand.1,List.append_assoc,← resolving_append]
  rfl
 have hpend : Pending (resolving (e::(s0.queue origin).reorder)) (s0.queue origin).orderOut := by
  have hheld := h.pending t origin origin
  rw [hlist] at hheld
  rw [hqueue]
  refine Resolves.pending (.of_count_le fun o => ?_) hheld
  rw [List.count_append]
  exact le_add_left _ _
 obtain ⟨rest,ret,d⟩ := orderedQueueEnq_delivered hstep (hqueue ▸ h.formed origin) hpend
 obtain ⟨added,orderOut,hc⟩ := d.change
 obtain ⟨qe,hqe,hself⟩ := d.context
 rw [hlocal] at hqe hself
 have hsettles := d.settles
 rw [hqueue] at hsettles
 have hlist' : held s' t origin origin =
  (s'.schedLocal t).resolving origin++resolving (ret.toList++rest) := by
  rw [held,if_pos rfl,d.pc,resolving_handOn,if_pos rfl,hc.reorder,List.append_assoc,
   ← resolving_append]
 -- the orders of the other queues are those of the context
 have hother : ∀ q, origin ≠ q → held s t origin q = (s.schedLocal t).resolving q ∧
  held s' t origin q = (s'.schedLocal t).resolving q ∧
  (s'.queue q).orderOut = (s.queue q).orderOut := by
  intro q hq
  rw [held,held,if_neg hq,if_neg hq,hhand.2 q hq,d.pc,resolving_handOn,if_neg hq,
   hc.orderOut_ne q (Ne.symm hq),hqueue]
  simp
 refine ⟨⟨fun u hu => ?_,fun u hu => ?_,fun q hq => ?_,fun q => ?_,fun q => ?_,?_,fun q x hx => ?_⟩,
  fun hkeep q => ?_⟩
 · rw [d.context_ne u hu,hlocal]
 · rw [d.pc_ne u hu,hpc]
 · rw [hc.reorder_ne q hq,hqueue]
 · rw [hc.orderIn q,hqueue]
 · by_cases hq : origin = q
   · subst hq
     refine ⟨hsettles.le,fun o => ?_⟩
     have hcount := hsettles.count o
     have hctx := (count_context hqe hself origin o).1
     rw [hlist,hlist']
     simp only [List.count_append] at hcount ⊢
     omega
   · obtain ⟨hold,hnew,hout⟩ := hother q hq
     rw [hold,hnew,hout]
     exact .of_count_le fun o => (count_context hqe hself q o).1
 · rw [hc.reorder]
   exact d.formed
 · rw [d.pc] at hx
   exact absurd hx handOn_ne_aside
 · by_cases hq : origin = q
   · subst hq
     refine ⟨hsettles.le,fun o => ?_⟩
     have hcount := hsettles.count o
     have hctx := (count_context hqe hself origin o).2 hkeep
     rw [hlist,hlist']
     simp only [List.count_append] at hcount ⊢
     omega
   · obtain ⟨hold,hnew,hout⟩ := hother q hq
     rw [hold,hnew,hout]
     exact .of_count_eq fun o => (count_context hqe hself q o).2 hkeep

lemma of_unaffected (h : Accounted s) (hu : Unaffected s s') : Accounted s' := by
 refine ⟨hu.orderAt_eq ▸ h.exclusive,fun x p o hx => ?_,fun p => ?_,fun p => ?_,fun u p e he => ?_⟩
 · rw [hu.orderAt_eq] at hx
   rw [(hu.queue p).2.1,(hu.queue p).2.2]
   exact h.bounds x p o hx
 · rw [(hu.queue p).2.1,(hu.queue p).2.2]
   exact h.le p
 · rw [(hu.queue p).1]
   exact h.formed p
 · rw [(hu.context u).1,(hu.context u).2]
   exact h.aside u p e (hu.pc ▸ he)

lemma of_issues (h : Accounted s) (hi : Issues s s' t q) : Accounted s' := by
 have hzero : ∀ x, orderAt s x (q,(s.queue q).orderIn) = 0 := by
  intro x
  by_contra hx
  exact lt_irrefl _ (h.bounds x q _ hx).2
 refine ⟨h.exclusive.issue (.context t) (q,(s.queue q).orderIn) (fun x ⟨p,o⟩ hpo => ?_) fun x => ?_,
  fun x p o hx => ?_,fun r => ?_,fun r => ?_,fun u p e hu => ?_⟩
 · by_cases hx : x = .context t
   · subst hx
     rw [hi.orderAt_self,if_neg fun heq => hpo (Prod.ext heq.1 heq.2)]
     exact zero_le _
   · rw [hi.orderAt_ne hx]
 · by_cases hx : x = .context t
   · subst hx
     rw [hi.orderAt_self,if_pos ⟨rfl,rfl⟩,if_pos rfl]
   · rw [hi.orderAt_ne hx,hzero]
     exact zero_le _
 · rw [(hi.queue p).2]
   by_cases hxt : x = .context t
   · subst hxt
     rw [hi.orderAt_self] at hx
     obtain ⟨rfl,rfl⟩ : p = q ∧ o = (s.queue q).orderIn := by
      by_contra hpo
      exact hx (if_neg hpo)
     have := hi.orderIn
     exact ⟨h.le p,by omega⟩
   · rw [hi.orderAt_ne hxt] at hx
     obtain ⟨hge,hlt⟩ := h.bounds x p o hx
     exact ⟨hge,lt_of_lt_of_le hlt (hi.orderIn_le p)⟩
 · rw [(hi.queue r).2]
   exact le_trans (h.le r) (hi.orderIn_le r)
 · rw [(hi.queue r).1]
   exact h.formed r
 · rw [hi.pc] at hu
   by_cases hut : u = t
   · subst hut
     rw [hi.idle] at hu
     cases hu
   · rw [hi.context_ne u hut]
     exact h.aside u p e hu

-- What each call does

lemma enq_effect (h : Accounted s) (hpc : s.pc t = .idle) {evs evs' : List Event}
 (hstep : s.enq t q evs = some s') : OrderEffect s (.enq t q evs') s' := by
 obtain rfl | ⟨ev,link,rfl,⟨-,rfl⟩ | ⟨origin,order,-,hstep⟩⟩ := enq_cases hstep
 · exact .unaffected (.refl s')
 · exact .unaffected (.enq s t q _)
 · have hhand : (s.pc t).resolving origin = resolving [(⟨order,some q,true,ev,link⟩ : Entry m)] ∧
    ∀ r, origin ≠ r → (s.pc t).resolving r = [] := by
    rw [hpc]
    exact ⟨rfl,fun r _ => rfl⟩
   obtain ⟨hmoves,hlossless⟩ := h.deliver (s.record t q (some origin) (ev::link)) rfl rfl rfl
    hhand hstep
   exact .moves origin hmoves fun _ => hlossless (.inl rfl)

section

variable (l : Local m) (pc : Pc m) (hlocal : s'.schedLocal = update s.schedLocal t l)
 (hpc : s'.pc = update s.pc t pc) {added : List Event}

include l pc hlocal hpc added

lemma held_of_change {rest : List (Entry m)} {out : Nat} (hc : Change s s' p p added rest out)
 (q : Fin m) :
 held s' t p q = l.resolving q++pc.resolving q++if p = q then resolving rest else [] := by
 rw [held,hlocal,hpc,update_self,update_self,hc.reorder]

/-- The step from its changes to the context and the hands of one thread and to one reorder list. -/
lemma moves_of_change {rest : List (Entry m)} {out : Nat} (hc : Change s s' p p added rest out)
 (hres : Resolves (held s t p p) (l.resolving p++pc.resolving p++resolving rest)
  (s.queue p).orderOut out)
 (hother : ∀ q, p ≠ q → ∀ o, (l.resolving q++pc.resolving q).count o ≤ (held s t p q).count o)
 (hformed : Formed rest)
 (haside : ∀ q e, pc = .moving q e true → l.originQe = none ∧ l.order = e.order ∧
  e.sustain = false) : OrderStep s s' t p := by
 refine ⟨fun u hu => ?_,fun u hu => ?_,fun q hq => hc.reorder_ne q hq,fun q => hc.orderIn q,
  fun q => ?_,hc.reorder ▸ hformed,fun q e he => ?_⟩
 · rw [hlocal,update_of_ne hu]
 · rw [hpc,update_of_ne hu]
 · rw [held_of_change l pc hlocal hpc hc q]
   by_cases hq : p = q
   · subst hq
     rw [if_pos rfl,hc.orderOut]
     exact hres
   · rw [if_neg hq,List.append_nil,hc.orderOut_ne q (Ne.symm hq)]
     exact .of_count_le (hother q hq)
 · rw [hlocal,update_self]
   rw [hpc,update_self] at he
   exact haside q e he

lemma lossless_of_change {rest : List (Entry m)} {out : Nat} (hc : Change s s' p p added rest out)
 (hset : Settles (held s t p p) (l.resolving p++pc.resolving p++resolving rest)
  (s.queue p).orderOut out)
 (hother : ∀ q, p ≠ q → ∀ o, (l.resolving q++pc.resolving q).count o = (held s t p q).count o) :
 Lossless s s' t p := by
 intro q
 rw [held_of_change l pc hlocal hpc hc q]
 by_cases hq : p = q
 · subst hq
   rw [if_pos rfl,hc.orderOut]
   exact hset
 · rw [if_neg hq,List.append_nil,hc.orderOut_ne q (Ne.symm hq)]
   exact .of_count_eq (hother q hq)

end

lemma enqMoving_effect (h : Accounted s) {e : Entry m} {keep : Bool}
 (hpc : s.pc t = .moving origin e keep) (hstep : s.enqMoving t origin e keep = some s') :
 OrderEffect s (.step t) s' := by
 obtain ⟨target,htarget,hstep⟩ := bind_eq_some_iff.mp hstep
 split at hstep
 · next hbad =>
   cases hstep
   have hc : Change s ((s.setLocal t (if keep = true then
    { s.schedLocal t with originQe := some origin } else s.schedLocal t)).setPc t .idle)
    origin origin [] (s.queue origin).reorder (s.queue origin).orderOut :=
    .of_eq rfl rfl rfl
   have hmoves : OrderStep s ((s.setLocal t (if keep = true then
    { s.schedLocal t with originQe := some origin } else s.schedLocal t)).setPc t .idle) t
     origin := by
    refine moves_of_change _ .idle rfl rfl hc (.of_count_le fun o => ?_) (fun q hq o => ?_)
     (h.formed origin) nofun
    · -- a context that comes back takes over the order of the element
      rw [held,hpc]
      cases keep with
      | false => simp
      | true =>
       obtain ⟨hnone,horder,hs⟩ := h.aside t origin e hpc
       simp [resolving_cons hs,horder]
    · rw [held]
      cases keep with
      | false => simp
      | true => simp [hq]
   refine .moves origin hmoves fun hlive => ?_
   simp [hlive.1] at hbad
 · have hhand : (s.pc t).resolving origin = resolving [e] ∧
    ∀ r, origin ≠ r → (s.pc t).resolving r = [] := by
    rw [hpc]
    exact ⟨if_pos rfl,fun r hr => if_neg hr⟩
   obtain ⟨hmoves,hlossless⟩ := h.deliver s rfl rfl rfl hhand hstep
   exact .moves origin hmoves fun hlive => hlossless (.inr hlive.2)

lemma release_effect (h : Accounted s) (hpc : s.pc t = .idle) (keep alloc : Bool) :
 OrderEffect s (.release t keep alloc) (s.release t keep alloc) := by
 cases horigin : (s.schedLocal t).originQe with
 | none =>
  simp only [release,horigin]
  exact .unaffected (.refl s)
 | some origin =>
  -- the order of the context and those of the reorder list
  have hheld : held s t origin origin =
   (s.schedLocal t).order::resolving (s.queue origin).reorder := by
   rw [held,if_pos rfl,hpc,resolving_context,if_pos horigin]
   rfl
  have hpend := h.pending t origin origin
  rw [hheld] at hpend
  have hnot := (List.nodup_cons.mp hpend.nodup).1
  have hother : ∀ pc : Pc m, (∀ q, origin ≠ q → pc.resolving q = []) → ∀ q, origin ≠ q → ∀ o,
   (({ s.schedLocal t with originQe := none } : Local m).resolving q ++
    pc.resolving q).count o = (held s t origin q).count o := by
   intro pc hmove q hq o
   rw [hmove q hq,held,hpc]
   simp [horigin,hq]
  -- steps that take the context away and lose nothing
  have hmove : ∀ s' pc rest out, s'.schedLocal =
   update s.schedLocal t { s.schedLocal t with originQe := none } →
   s'.pc = update s.pc t pc → (∀ q, origin ≠ q → pc.resolving q = []) →
   Change s s' origin origin [] rest out →
   Settles (held s t origin origin) (pc.resolving origin++resolving rest)
    (s.queue origin).orderOut out → Formed rest →
   (∀ q e, pc = .moving q e true → (s.schedLocal t).order = e.order ∧ e.sustain = false) →
   OrderEffect s (.release t keep alloc) s' := by
   intro s' pc rest out hlocal hpc' hmoves hc hset hformed haside
   have hstep : OrderStep s s' t origin := moves_of_change _ _ hlocal hpc' hc hset.resolves
    (fun q hq o => (hother pc hmoves q hq o).le) hformed fun q e he => ⟨rfl,haside q e he⟩
   exact .moves origin hstep fun _ => lossless_of_change _ _ hlocal hpc' hc hset (hother pc hmoves)
  -- a context that leaves one element to resolve its order
  have hmark : ∀ {s' l}, Aside s s' t origin .idle l → Formed l → (∀ o, (resolving l).count o =
   ((s.schedLocal t).order::resolving (s.queue origin).reorder).count o) →
   OrderEffect s (.release t keep alloc) s' := by
   intro s' l h' hformed hcount
   refine hmove _ .idle l _ h'.schedLocal h'.pc (fun _ _ => rfl) h'.change ?_ hformed (by simp)
   rw [hheld]
   exact .of_count_eq hcount
  cases release_cases hpc keep alloc horigin with
  | kept _ _ h' =>
   rw [h']
   exact .unaffected (.refl s)
  | dropped halloc hkeep h' =>
   have hmoves : OrderStep s (s.release t keep alloc) t origin := by
    refine moves_of_change _ .idle h'.schedLocal h'.pc h'.change ?_
     (fun q hq o => (hother .idle (fun _ _ => rfl) q hq o).le) (h.formed origin) (by simp)
    rw [hheld]
    apply Resolves.of_count_le
    intro o
    rw [List.count_cons]
    exact le_add_right _ _
   refine .moves origin hmoves fun hloss => ?_
   rw [hloss hkeep] at halloc
   cases halloc
  | resolved s1 hin _ hlocal hpc1 hc1 h' =>
   rw [h']
   obtain ⟨hdue,-⟩ := hpend.tail_of_due hin
   have hhead : Settles ((s.schedLocal t).order::resolving (s.queue origin).reorder)
    (resolving (s1.queue origin).reorder) (s.queue origin).orderOut
    (s1.queue origin).orderOut := by
    rw [hdue,hc1.reorder,hc1.orderOut]
    exact .head _ _
   have hformed1 : Formed (s1.queue origin).reorder := hc1.reorder ▸ h.formed origin
   have hcomplete := reorderComplete_settles hformed1 (hhead.resolves.pending hpend)
   refine hmove _ (.handOn origin (s1.queue origin).reorderComplete.2) _ _ hlocal ?_
    (fun q hq => ?_) (hc1.trans (complete_change s1 t origin origin)) ?_
    (fun x hx => hformed1.reorderComplete x (List.mem_append_right _ hx))
    fun q e he => absurd he handOn_ne_aside
   · rw [← hpc1]
     rfl
   · rw [resolving_handOn,if_neg hq]
   · rw [hheld,resolving_handOn,if_pos rfl]
     rw [resolving_append] at hcomplete
     exact hhead.trans hcomplete
  | first a as _ hreorder ha h' =>
   -- the first element of this order takes it over; the others have the sustain flag
   rw [hreorder] at hnot
   have hsus : ∀ x ∈ a::as.takeWhile (·.order == (s.schedLocal t).order), x.sustain = true := by
    intro x hx
    by_contra hfalse
    have hmem : x ∈ a::as ∧ x.order = (s.schedLocal t).order := by
     obtain rfl | hx := List.mem_cons.mp hx
     · exact ⟨List.mem_cons_self,ha⟩
     · exact ⟨List.mem_cons_of_mem a ((List.takeWhile_sublist _).subset hx),
        by simpa using List.mem_takeWhile_imp hx⟩
    apply hnot
    rw [← hmem.2]
    exact List.mem_map_of_mem (List.mem_filter.mpr ⟨hmem.1,by simp [hfalse]⟩)
   have hsame : resolving (s.queue origin).reorder =
    resolving (as.dropWhile (·.order == (s.schedLocal t).order)) := by
    rw [hreorder]
    conv_lhs => rw [← List.takeWhile_append_dropWhile
     (l := as),← List.cons_append,resolving_append,resolving_of_sustain hsus]
    rfl
   have hsub : (as.dropWhile (·.order == (s.schedLocal t).order)).Sublist
    (s.queue origin).reorder := by
    rw [hreorder]
    exact (List.dropWhile_sublist _).cons a
   refine hmove _ _ _ _ h'.schedLocal h'.pc (fun q hq => if_neg hq) h'.change ?_
    (fun x hx => h.formed origin x (hsub.subset hx)) fun q e he => ?_
   · rw [hheld,resolving_moving,if_pos rfl,ha,hsame]
     exact .refl _ _
   · cases he
     exact ⟨ha.symm,rfl⟩
  | marked pre a post _ hold ha _ h' =>
   have hs : a.sustain = true := by
    by_contra hfalse
    refine hnot (ha ▸ List.mem_map_of_mem (List.mem_filter.mpr ⟨?_,by simp [hfalse]⟩))
    rw [hold]
    exact List.mem_append_right _ List.mem_cons_self
   refine hmark h' (fun x hx => ?_) fun o => ?_
   · have hformed := h.formed origin
     rw [hold] at hformed
     obtain rfl | hx := mem_marked a hx
     · exact fun _ => rfl
     · exact hformed x hx
   · rw [hold,resolving_append,resolving_append,resolving_cons rfl,resolving_cons_of_sustain hs]
     simp only [List.count_append,List.count_cons,ha]
     omega
  | placed _ h' =>
   refine hmark h' ((h.formed origin).reorderEnq fun _ => rfl) fun o => ?_
   rw [count_resolving_reorderEnq]
   rfl

lemma take_orders (hpc : s.pc t = .idle)
 (hfree : ¬ ((s.queue q).param.kind = .ordered ∧ (s.schedLocal t).originQe ≠ none)) :
 Unaffected s (s.take t q) ∨ Issues s (s.take t q) t q := by
 simp only [take]
 split
 · split
   · exact .inl (.modify s q ⟨rfl,rfl,rfl⟩)
   · exact .inl (.refl s)
 · split
   · refine .inl (.modify s q ?_)
     rw [QueueEntry.sleep]
     split <;> exact ⟨rfl,rfl,rfl⟩
   · next ev evs hevents =>
     split
     · next hkind =>
       have hnone : (s.schedLocal t).originQe = none := by
        by_contra hne
        exact hfree ⟨hkind,hne⟩
       refine .inr ⟨hpc,?_,fun u hu => ?_,hnone,rfl,?_,fun r hr => ?_,fun r => ?_⟩
       · simp
       · exact update_of_ne hu _ _
       · simp
       · simp [hr]
       · by_cases hr : r = q
         · subst hr
           simp
         · simp [hr]
     · have hu := Unaffected.modify (s.recordTake q ev) q (f := fun e => { e with events := evs })
        ⟨rfl,rfl,rfl⟩
       exact .inl { hu with }

lemma orderLock_unaffected {k : Nat} (hstep : s.orderLock t k = some s') : Unaffected s s' := by
 simp only [orderLock] at hstep
 split at hstep
 · exact some.inj hstep ▸ .refl s
 · split_ifs at hstep
   · exact some.inj hstep ▸ .refl s
   · cases hstep
     refine ⟨fun u => ?_,rfl,fun r => ⟨rfl,rfl,rfl⟩⟩
     by_cases hu : u = t
     · subst hu
       simp
     · simp [hu]

lemma orderUnlock_unaffected (s : State m n) (t : Fin n) (k : Nat) :
 Unaffected s (s.orderUnlock t k) := by
 simp only [orderUnlock]
 split
 · exact .refl s
 · next p hp =>
   split_ifs
   · exact .refl s
   · refine ⟨fun u => ?_,rfl,fun r => ?_⟩
     · by_cases hu : u = t
       · subst hu
         simp
       · simp [hu]
     · by_cases hr : r = p
       · subst hr
         simp
       · simp [hr]

/-- A new queue in the slot starts with the counters of the old one; elements that are left on its
reorder list are forgotten. -/
lemma create_effect (h : Accounted s) (t : Fin n) (param : Param) :
 OrderEffect s (.create t q param) (s.create q param) := by
 rw [create]
 split
 · exact .unaffected (.modify s q ⟨rfl,rfl,rfl⟩)
 · refine .moves q ⟨fun u _ => rfl,fun u _ => rfl,fun r hr => ?_,fun r => ?_,fun r => ?_,?_,
    fun r e he => h.aside t r e he⟩ False.elim
   · rw [queue_modify_of_ne _ _ hr]
   · by_cases hr : r = q
     · subst hr
       rw [queue_modify]
       rfl
     · rw [queue_modify_of_ne _ _ hr]
   · have hout : ((s.modify q (·.init param)).queue r).orderOut = (s.queue r).orderOut := by
      by_cases hr : r = q
      · subst hr
        rw [queue_modify]
        rfl
      · rw [queue_modify_of_ne _ _ hr]
     have hempty : ((s.modify q (·.init param)).queue q).reorder = [] := by
      rw [queue_modify]
      rfl
     rw [hout]
     apply Resolves.of_count_le
     intro o
     rw [held,held,hempty]
     by_cases hr : q = r
     · rw [if_pos hr,resolving_nil,List.append_nil]
       exact (List.sublist_append_left _ _).count_le o
     · rw [if_neg hr,if_neg hr]
       exact le_refl _
   · rw [queue_modify]
     exact nofun

lemma destroy_effect (t : Fin n) : OrderEffect s (.destroy t q) (s.destroy q) := by
 rw [destroy]
 split
 · exact .unaffected (.refl s)
 · exact .unaffected (.modify s q ⟨rfl,rfl,rfl⟩)

lemma effect (h : Accounted s) (hstep : OrderedQueue.step s a = some s') :
 OrderEffect s a s' := by
 obtain ⟨t,origin,e,keep,rfl,hpc,hstep⟩ | ⟨hpc,hstep⟩ := step_cases hstep
 · exact h.enqMoving_effect hpc hstep
 · cases a with
   | enq t q evs => exact h.enq_effect hpc hstep
   | take t q =>
    simp only [call] at hstep
    split at hstep
    · cases hstep
    · next hfree =>
      cases hstep
      obtain hu | hi := take_orders hpc hfree
      · exact .unaffected hu
      · exact .issues q hi
   | release t keep alloc => exact some.inj hstep ▸ h.release_effect hpc keep alloc
   | lock t k => exact .unaffected (orderLock_unaffected hstep)
   | unlock t k => exact some.inj hstep ▸ .unaffected (orderUnlock_unaffected s t k)
   | create t q param =>
    simp only [call] at hstep
    split at hstep
    · exact some.inj hstep ▸ h.create_effect t param
    · cases hstep
   | destroy t q => exact some.inj hstep ▸ destroy_effect t
   | step t => cases hstep

lemma of_effect (h : Accounted s) (he : OrderEffect s a s') : Accounted s' := by
 cases he with
 | unaffected hu => exact h.of_unaffected hu
 | moves p hs _ => exact h.of_step hs
 | issues q hi => exact h.of_issues hi

lemma step (h : Accounted s) (hstep : OrderedQueue.step s a = some s') : Accounted s' :=
 h.of_effect (h.effect hstep)

lemma init (hq : ∀ q, (s.queue q).reorder = [] ∧ (s.queue q).orderOut = (s.queue q).orderIn)
 (ht : ∀ t, s.pc t = .idle ∧ (s.schedLocal t).originQe = none) : Accounted s := by
 have hzero : ∀ x y, orderAt s x y = 0 := by
  intro x ⟨p,o⟩
  cases x with
  | context t => simp [orderAt,ht]
  | hand t => simp [orderAt,ht]
  | reorder r => simp [orderAt,hq]
 refine ⟨fun S _ y => ?_,fun x p o hx => absurd (hzero x _) hx,fun p =>
  (hq p).2.le,fun p x hx => ?_,fun t p e he => ?_⟩
 · simp [hzero]
 · rw [(hq p).1] at hx
   cases hx
 · rw [(ht t).1] at he
   cases he

end Accounted

end Packages.OrderedQueue

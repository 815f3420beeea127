import Packages.OrderedQueue.Lists
import Packages.OrderedQueue.Model

/-!
# What a step changes

Every step of ordered scheduling adds events to at most one queue, replaces at most one reorder
list and resolves orders of at most one queue. `Change` says this once, also when the two queues
are the same.
-/

namespace Packages.OrderedQueue

open Function State QueueEntry Option

variable {m n : Nat}

attribute [local simp] State.bad State.modify State.resolveOrder State.setLocal State.setPc

lemma State.queue_modify (s : State m n) (q : Fin m) (f : QueueEntry m → QueueEntry m) :
 (s.modify q f).queue q = f (s.queue q) :=
 update_self ..

lemma State.queue_modify_of_ne (s : State m n) {q r : Fin m} (f : QueueEntry m → QueueEntry m)
 (hr : r ≠ q) : (s.modify q f).queue r = s.queue r :=
 update_of_ne hr ..

/-- The counters of `o'` are those of `o` after some orders were resolved. -/
structure Released (o o' : QueueEntry m) : Prop where
 orderOut : o.orderOut ≤ o'.orderOut
 lockCount : o'.param.lockCount = o.param.lockCount
 high : ∀ k, o.param.lockCount ≤ k → o'.syncOut k = o.syncOut k
 low : ∀ k, k < o.param.lockCount →
  o'.syncOut k = o.syncOut k ∨ o.syncOut k < o'.orderOut ∧ o'.syncOut k = o'.orderOut
 ge : ∀ k, k < o.param.lockCount → o.orderOut ≤ o.syncOut k → o'.orderOut ≤ o'.syncOut k

namespace Released

variable {o o1 o2 : QueueEntry m}

lemma refl (o : QueueEntry m) : Released o o :=
 ⟨Nat.le_refl _,rfl,fun _ _ => rfl,fun _ _ => .inl rfl,fun _ _ h => h⟩

lemma trans (h : Released o o1) (h' : Released o1 o2) : Released o o2 where
 orderOut := le_trans h.orderOut h'.orderOut
 lockCount := h'.lockCount.trans h.lockCount
 high k hk := (h'.high k (h.lockCount ▸ hk)).trans (h.high k hk)
 low k hk := by
  have hk' : k < o1.param.lockCount := h.lockCount ▸ hk
  rcases h.low k hk with heq | ⟨hlt,heq⟩
  · rw [← heq]
    exact h'.low k hk'
  · have hle := h'.orderOut
    have hge := h'.ge k hk' heq.ge
    right
    rcases h'.low k hk' with heq' | ⟨-,heq'⟩
    · exact ⟨by omega,by omega⟩
    · exact ⟨by omega,heq'⟩
 ge k hk hs := h'.ge k (h.lockCount ▸ hk) (h.ge k hk hs)

lemma of_eq (hout : o1.orderOut = o.orderOut) (hp : o1.param = o.param)
 (hs : o1.syncOut = o.syncOut) : Released o o1 :=
 ⟨hout.ge,by rw [hp],fun _ _ => by rw [hs],fun _ _ => .inl (by rw [hs]),
  fun k _ h => by rw [hout,hs]; exact h⟩

lemma orderRelease (o : QueueEntry m) (count : Nat) : Released o (o.orderRelease count) where
 orderOut := Nat.le_add_right ..
 lockCount := rfl
 high k hk := by simp [QueueEntry.orderRelease,Nat.not_lt.mpr hk]
 low k hk := by
  simp only [QueueEntry.orderRelease,hk,true_and]
  split_ifs with h
  · exact .inr ⟨h,rfl⟩
  · exact .inl rfl
 ge k hk hs := by
  simp only [QueueEntry.orderRelease,hk,true_and]
  split_ifs with h <;> omega

lemma setReorder (o : QueueEntry m) (l : List (Entry m)) (count : Nat) :
 Released o ({ o with reorder := l }.orderRelease count) := by
 have h : Released o { o with reorder := l } := of_eq rfl rfl rfl
 exact h.trans (orderRelease _ count)

lemma completeLoop (o : QueueEntry m) (passed l : List (Entry m)) :
 Released o (o.completeLoop passed l).1 := by
 induction l generalizing o passed with
 | nil => exact of_eq rfl rfl rfl
 | cons a l ih =>
  rcases completeLoop_cons o passed a l with
   hc | ⟨-,-,hc⟩ | ⟨-,-,-,hc⟩ | ⟨-,-,-,b,bs,-,hc⟩ <;> rw [hc]
  · exact of_eq rfl rfl rfl
  · exact (orderRelease o 1).trans (ih _ _)
  · exact ih _ _
  · exact of_eq rfl rfl rfl

end Released

lemma le_reorderDeq_orderOut (queue : Fin m) (orderOut : Nat) (l : List (Entry m)) :
 orderOut ≤ (reorderDeq queue orderOut l).orderOut := by
 induction l generalizing orderOut with
 | nil => exact Nat.le_refl _
 | cons a l ih =>
  rcases reorderDeq_cons queue orderOut a l with h | ⟨-,-,h⟩ | ⟨-,-,h⟩ <;> rw [h]
  · exact le_trans (Nat.le_add_right ..) (ih (orderOut+1))
  · exact le_trans (Nat.le_add_right ..) (ih (orderOut+a.releaseCount))

/-- `add` goes to the end of queue `target`, the reorder list of `origin` becomes `reorder` and
its `order_out` becomes `orderOut`. -/
structure Change (s s' : State m n) (target origin : Fin m) (add : List Event)
 (reorder : List (Entry m)) (orderOut : Nat) : Prop where
 ledger : s'.ledger = s.ledger
 hdr : s'.hdr = s.hdr
 bad : ∀ q, s'.bad q = s.bad q
 param : ∀ q, (s'.queue q).param = (s.queue q).param
 orderIn : ∀ q, (s'.queue q).orderIn = (s.queue q).orderIn
 sync : ∀ q, (s'.queue q).syncIn = (s.queue q).syncIn ∧ (s'.queue q).syncOf = (s.queue q).syncOf ∧
  (s'.queue q).unlocked = (s.queue q).unlocked
 events : ∀ q, (s'.queue q).events = (s.queue q).events++if q = target then add else []
 reorder : (s'.queue origin).reorder = reorder
 reorder_ne : ∀ q, q ≠ origin → (s'.queue q).reorder = (s.queue q).reorder
 orderOut : (s'.queue origin).orderOut = orderOut
 released : ∀ q, Released (s.queue q) (s'.queue q)
 orderOut_ne : ∀ q, q ≠ origin → (s'.queue q).orderOut = (s.queue q).orderOut

/-- What a step leaves alone in the entry of a queue. -/
structure QueueEntry.Keeps (e e' : QueueEntry m) : Prop where
 bad : e'.status.bad = e.status.bad
 param : e'.param = e.param
 orderIn : e'.orderIn = e.orderIn
 sync : e'.syncIn = e.syncIn ∧ e'.syncOf = e.syncOf ∧ e'.unlocked = e.unlocked

lemma QueueEntry.keeps_wake (e : QueueEntry m) : e.Keeps e.wake := by
 unfold wake
 split_ifs with h
 · exact ⟨by simp [h,Scheduler.Status.bad],rfl,rfl,rfl,rfl,rfl⟩
 · exact ⟨rfl,rfl,rfl,rfl,rfl,rfl⟩

lemma QueueEntry.wake_fields (e : QueueEntry m) : e.wake.events = e.events ∧
 e.wake.reorder = e.reorder ∧ e.wake.orderOut = e.orderOut ∧ e.wake.param = e.param ∧
 e.wake.syncOut = e.syncOut := by
 unfold wake
 split_ifs <;> exact ⟨rfl,rfl,rfl,rfl,rfl⟩

lemma QueueEntry.sleep_fields (e : QueueEntry m) : e.sleep.events = e.events ∧
 e.sleep.reorder = e.reorder ∧ e.sleep.status.bad = e.status.bad := by
 unfold sleep
 split_ifs with h
 · exact ⟨rfl,rfl,by simp [h,Scheduler.Status.bad]⟩
 · exact ⟨rfl,rfl,rfl⟩

/-- The loop of `reorder_complete` changes the reorder list and the counters of resolved orders
only. -/
lemma QueueEntry.keeps_completeLoop (o : QueueEntry m) (passed l : List (Entry m)) :
 o.Keeps (o.completeLoop passed l).1 ∧ (o.completeLoop passed l).1.events = o.events := by
 induction l generalizing o passed with
 | nil => exact ⟨⟨rfl,rfl,rfl,rfl,rfl,rfl⟩,rfl⟩
 | cons a l ih =>
  rcases completeLoop_cons o passed a l with
   hc | ⟨-,-,hc⟩ | ⟨-,-,-,hc⟩ | ⟨-,-,-,b,bs,-,hc⟩ <;> rw [hc]
  · exact ⟨⟨rfl,rfl,rfl,rfl,rfl,rfl⟩,rfl⟩
  · obtain ⟨⟨hbad,hparam,hin,hsync⟩,hevents⟩ := ih (o.orderRelease 1) []
    exact ⟨⟨hbad,hparam,hin,hsync⟩,hevents⟩
  · exact ih o (passed++[a])
  · exact ⟨⟨rfl,rfl,rfl,rfl,rfl,rfl⟩,rfl⟩

namespace Change

variable {s s1 s2 : State m n} {t : Fin n} {target origin : Fin m} {evs evs' : List Event}
 {reorder reorder' : List (Entry m)} {orderOut orderOut' : Nat}

lemma of_eq (hq : s1.queue = s.queue) (hl : s1.ledger = s.ledger) (hh : s1.hdr = s.hdr) :
 Change s s1 target origin [] (s.queue origin).reorder (s.queue origin).orderOut := by
 refine ⟨hl,hh,fun q => ?_,?_,?_,?_,?_,?_,?_,?_,fun q => ?_,?_⟩
 · simp [hq]
 all_goals simp [hq]
 exact .refl _

lemma trans (h : Change s s1 target origin evs reorder orderOut)
 (h' : Change s1 s2 target origin evs' reorder' orderOut') :
 Change s s2 target origin (evs++evs') reorder' orderOut' where
 ledger := h'.ledger.trans h.ledger
 hdr := h'.hdr.trans h.hdr
 bad q := (h'.bad q).trans (h.bad q)
 param q := (h'.param q).trans (h.param q)
 orderIn q := (h'.orderIn q).trans (h.orderIn q)
 sync q := by
  obtain ⟨h1,h2,h3⟩ := h.sync q
  obtain ⟨h1',h2',h3'⟩ := h'.sync q
  exact ⟨h1'.trans h1,h2'.trans h2,h3'.trans h3⟩
 events q := by
  rw [h'.events,h.events]
  split_ifs <;> simp
 reorder := h'.reorder
 reorder_ne q hq := (h'.reorder_ne q hq).trans (h.reorder_ne q hq)
 orderOut := h'.orderOut
 released q := (h.released q).trans (h'.released q)
 orderOut_ne q hq := (h'.orderOut_ne q hq).trans (h.orderOut_ne q hq)

lemma setPc (h : Change s s1 target origin evs reorder orderOut) (t : Fin n) (pc : Pc m) :
 Change s (s1.setPc t pc) target origin evs reorder orderOut :=
 { h with }

lemma of_setLocal {l : Local m}
 (h : Change (s.setLocal t l) s1 target origin evs reorder orderOut) :
 Change s s1 target origin evs reorder orderOut :=
 { h with }

lemma modify_origin (s : State m n) (target origin : Fin m) {f : QueueEntry m → QueueEntry m}
 (hk : (s.queue origin).Keeps (f (s.queue origin)))
 (he : (f (s.queue origin)).events = (s.queue origin).events)
 (hr : Released (s.queue origin) (f (s.queue origin))) :
 Change s (s.modify origin f) target origin [] (f (s.queue origin)).reorder
  (f (s.queue origin)).orderOut := by
 refine ⟨rfl,rfl,fun q => ?_,fun q => ?_,fun q => ?_,fun q => ?_,fun q => ?_,by simp,
  by simp +contextual,by simp,fun q => ?_,
  by simp +contextual⟩
 all_goals
  by_cases hq : q = origin
  · subst hq
    simp [hk.bad,hk.param,hk.orderIn,hk.sync,he,hr]
  · simp [hq,Released.refl]

lemma modify_target (s : State m n) (target origin : Fin m) {f : QueueEntry m → QueueEntry m}
 (hk : (s.queue target).Keeps (f (s.queue target)))
 (he : (f (s.queue target)).events = (s.queue target).events++evs)
 (hr : (f (s.queue target)).reorder = (s.queue target).reorder)
 (ho : (f (s.queue target)).orderOut = (s.queue target).orderOut)
 (hs : (f (s.queue target)).syncOut = (s.queue target).syncOut) :
 Change s (s.modify target f) target origin evs (s.queue origin).reorder
  (s.queue origin).orderOut := by
 have hrel := Released.of_eq ho hk.param hs
 have horigin : ((s.modify target f).queue origin).reorder = (s.queue origin).reorder ∧
  ((s.modify target f).queue origin).orderOut = (s.queue origin).orderOut := by
  by_cases hq : origin = target
  · subst hq
    simp [hr,ho]
  · simp [hq]
 refine ⟨rfl,rfl,fun q => ?_,fun q => ?_,fun q => ?_,fun q => ?_,fun q => ?_,horigin.1,
  fun q _ => ?_,horigin.2,fun q => ?_,fun q _ => ?_⟩
 all_goals
  by_cases hq : q = target
  · subst hq
    simp [hk.bad,hk.param,hk.orderIn,hk.sync,he,hr,ho,hrel]
  · simp [hq,Released.refl]

lemma wake (s : State m n) (target origin : Fin m) :
 Change s (s.modify target wake) target origin [] (s.queue origin).reorder
  (s.queue origin).orderOut := by
 obtain ⟨he,hr,ho,-,hs⟩ := (s.queue target).wake_fields
 exact modify_target s target origin (s.queue target).keeps_wake (by simp [he]) hr ho hs

lemma add (s : State m n) (target origin : Fin m) (evs : List Event) :
 Change s (s.modify target (·.add evs)) target origin evs (s.queue origin).reorder
  (s.queue origin).orderOut :=
 modify_target s target origin ⟨rfl,rfl,rfl,rfl,rfl,rfl⟩ rfl rfl rfl rfl

lemma release (s : State m n) (target origin : Fin m) (count : Nat) :
 Change s (s.modify origin (·.orderRelease count)) target origin [] (s.queue origin).reorder
  ((s.queue origin).orderOut+count) :=
 modify_origin s target origin ⟨rfl,rfl,rfl,rfl,rfl,rfl⟩ rfl (.orderRelease _ _)

lemma setReorder (s : State m n) (target origin : Fin m) (f : List (Entry m) → List (Entry m)) :
 Change s (s.modify origin fun o => { o with reorder := f o.reorder }) target origin []
  (f (s.queue origin).reorder) (s.queue origin).orderOut :=
 modify_origin s target origin ⟨rfl,rfl,rfl,rfl,rfl,rfl⟩ rfl (.of_eq rfl rfl rfl)

lemma resolveOrder (s : State m n) (t : Fin n) (target origin : Fin m) (e : Entry m) :
 Change s (s.resolveOrder t origin e.sustain) target origin [] (s.queue origin).reorder
  ((s.queue origin).orderOut+e.releaseCount) := by
 cases hsus : e.sustain with
 | true =>
  simp only [Entry.releaseCount,hsus]
  exact .of_eq rfl rfl rfl
 | false =>
  have h1 := Change.release s target origin 1
  have h2 : Change (s.modify origin (·.orderRelease 1))
   ((s.modify origin (·.orderRelease 1)).orderResolved t) target origin [] _ _ :=
   .of_eq rfl rfl rfl
  have h3 := h1.trans h2
  rw [h1.reorder,h1.orderOut] at h3
  simpa [Entry.releaseCount,hsus] using h3

end Change

section

variable (s : State m n) (t : Fin n)

include s t

lemma resolveOrder_local (origin : Fin m) (sustain : Bool) :
 (s.resolveOrder t origin sustain).schedLocal t = { s.schedLocal t with
  originQe := if sustain then (s.schedLocal t).originQe else none } := by
 cases sustain <;> simp [State.orderResolved]

lemma resolveOrder_local_ne (origin : Fin m) (sustain : Bool) (u : Fin n) (hu : u ≠ t) :
 (s.resolveOrder t origin sustain).schedLocal u = s.schedLocal u := by
 cases sustain <;> simp [State.orderResolved,hu]

lemma resolveOrder_pc (origin : Fin m) (sustain : Bool) :
 (s.resolveOrder t origin sustain).pc = s.pc := by
 cases sustain <;> rfl

lemma complete_change (target origin : Fin m) :
 Change s (s.complete t origin) target origin [] ((s.queue origin).reorderComplete).1.reorder
  ((s.queue origin).reorderComplete).1.orderOut := by
 obtain ⟨hkeeps,hevents⟩ := (s.queue origin).keeps_completeLoop [] (s.queue origin).reorder
 have h := Change.modify_origin s target origin (f := fun _ => (s.queue origin).reorderComplete.1)
  hkeeps hevents (.completeLoop _ _ _)
 exact h.setPc t (.handOn origin (s.queue origin).reorderComplete.2)

lemma complete_pc (origin : Fin m) :
 (s.complete t origin).pc t = .handOn origin (s.queue origin).reorderComplete.2 := by
 simp [State.complete]

lemma complete_pc_ne (origin : Fin m) {u : Fin n} (hu : u ≠ t) :
 (s.complete t origin).pc u = s.pc u := by
 simp [State.complete,hu]

end

section Move

variable {s s' : State m n} {t : Fin n} {target origin : Fin m} {e : Entry m} {b : Bool}

/-- The three ways through `ordered_queue_enq`: the element is out of order and sorted in, goes to
the target at once, or is sorted in and all that is due for the target is moved. -/
lemma orderedMove_cases (h : s.orderedMove t target origin e = some (s',b)) :
 let o := s.queue origin
 s'.pc = s.pc ∧ (∀ u, u ≠ t → s'.schedLocal u = s.schedLocal u) ∧
  ((o.orderOut < e.order ∧ b = false ∧ s'.schedLocal t = { s.schedLocal t with enqCalled := true } ∧
  Change s s' target origin [] (reorderEnq { e with target := some target } o.reorder) o.orderOut) ∨
  (e.order ≤ o.orderOut ∧ s'.schedLocal t = { s.schedLocal t with
   enqCalled := true
   originQe := if e.sustain then (s.schedLocal t).originQe else none } ∧
   ((o.reorder = [] ∧ b = false ∧
    Change s s' target origin (e.buf::e.link) [] (o.orderOut+e.releaseCount)) ∨
   (o.reorder ≠ [] ∧ b = true ∧ ∃ r, r = reorderDeq target (o.orderOut+e.releaseCount)
     (reorderEnq { e with target := some target, sustain := true } o.reorder) ∧ r.moved ≠ [] ∧
     Change s s' target origin (eventsOf r.moved) r.rest r.orderOut)))) := by
 simp only [orderedMove] at h
 have h0 : Change s (s.setLocal t { s.schedLocal t with enqCalled := true }) target origin []
  (s.queue origin).reorder (s.queue origin).orderOut := .of_eq rfl rfl rfl
 generalize hs0 : s.setLocal t { s.schedLocal t with enqCalled := true } = s0 at h h0
 have hl0 : s0.schedLocal t = { s.schedLocal t with enqCalled := true } := by
  simp [← hs0]
 have hl0' : ∀ u, u ≠ t → s0.schedLocal u = s.schedLocal u := by
  simp +contextual [← hs0]
 have hpc0 : s0.pc = s.pc := by rw [← hs0]; rfl
 rw [h0.orderOut] at h
 by_cases hlate : (s.queue origin).orderOut < e.order
 · -- out of order
   rw [if_pos hlate] at h
   cases h
   refine ⟨hpc0,hl0',.inl ⟨hlate,rfl,hl0,?_⟩⟩
   have h1 := h0.trans (.setReorder s0 target origin (reorderEnq { e with target := some target }))
   rw [h0.reorder,h0.orderOut] at h1
   exact h1
 have h1 := h0.trans (.resolveOrder s0 t target origin e)
 rw [h0.reorder,h0.orderOut] at h1
 have hl1 := resolveOrder_local s0 t origin e.sustain
 have hl1' : ∀ u, u ≠ t → (s0.resolveOrder t origin e.sustain).schedLocal u = s.schedLocal u :=
  fun u hu => (resolveOrder_local_ne s0 t origin e.sustain u hu).trans (hl0' u hu)
 have hpc1 := (resolveOrder_pc s0 t origin e.sustain).trans hpc0
 rw [hl0] at hl1
 generalize s0.resolveOrder t origin e.sustain = s1 at h h1 hl1 hl1' hpc1
 have h2 := h1.trans (.wake s1 target origin)
 rw [h1.reorder,h1.orderOut] at h2
 generalize hs2 : s1.modify target wake = s2 at h h2
 have hl2 : s2.schedLocal = s1.schedLocal := by rw [← hs2]; rfl
 have hpc2 : s2.pc = s1.pc := by rw [← hs2]; rfl
 rw [h2.reorder,h2.orderOut] at h
 split_ifs at h with hempty hmoved
 · cases h
   refine ⟨hpc2.trans hpc1,fun u hu => (congrFun hl2 u).trans (hl1' u hu),
    .inr ⟨by omega,(congrFun hl2 t).trans hl1,.inl ⟨hempty,rfl,?_⟩⟩⟩
   have h3 := h2.trans (.add s2 target origin (e.buf::e.link))
   rw [h2.reorder,h2.orderOut,hempty] at h3
   exact h3
 · cases h
   refine ⟨hpc2.trans hpc1,fun u hu => (congrFun hl2 u).trans (hl1' u hu),
    .inr ⟨by omega,(congrFun hl2 t).trans hl1,.inr ⟨hempty,rfl,_,rfl,hmoved,?_⟩⟩⟩
   generalize hr : reorderDeq target ((s.queue origin).orderOut+e.releaseCount)
    (reorderEnq { e with target := some target, sustain := true } (s.queue origin).reorder) = r
   have hle : (s.queue origin).orderOut+e.releaseCount ≤ r.orderOut := by
    rw [← hr]
    exact le_reorderDeq_orderOut ..
   have h3 := h2.trans (.add s2 target origin (eventsOf r.moved))
   have h4 := h3.trans (.modify_origin _ target origin
    (f := fun o => { o with reorder := r.rest }.orderRelease (r.orderOut-o.orderOut))
    ⟨rfl,rfl,rfl,rfl,rfl,rfl⟩ rfl (.setReorder _ _ _))
   have hout : ((s2.modify target (·.add (eventsOf r.moved))).queue origin).orderOut =
    (s.queue origin).orderOut+e.releaseCount := h3.orderOut.trans h2.orderOut
   simp only [orderRelease,hout,Nat.add_sub_cancel' hle,List.append_nil] at h4
   exact h4

/-- The state in which `ordered_queue_enq` of an element that is in order looks at the reorder
list. -/
lemma prepare_change (s : State m n) (t : Fin n) (target origin : Fin m) (e : Entry m) :
 Change s (((s.setLocal t { s.schedLocal t with enqCalled := true }).resolveOrder t origin
  e.sustain).modify target wake) target origin [] (s.queue origin).reorder
  ((s.queue origin).orderOut+e.releaseCount) := by
 have h1 :=
  Change.resolveOrder (s.setLocal t { s.schedLocal t with enqCalled := true }) t target origin e
 have h2 := h1.trans (.wake _ target origin)
 rw [h1.reorder,h1.orderOut] at h2
 exact h2.of_setLocal

/-- Only when no element for the target is found `reorder_tail` is `NULL`. -/
lemma orderedMove_eq_none (h : s.orderedMove t target origin e = none) :
 e.order ≤ (s.queue origin).orderOut ∧
  (reorderDeq target ((s.queue origin).orderOut+e.releaseCount)
   (reorderEnq { e with target := some target, sustain := true }
    (s.queue origin).reorder)).moved = [] := by
 have hc := prepare_change s t target origin e
 have hout : ((s.setLocal t { s.schedLocal t with enqCalled := true }).queue origin).orderOut =
  (s.queue origin).orderOut := rfl
 simp only [orderedMove,hc.orderOut,hc.reorder,hout] at h
 by_cases hlate : (s.queue origin).orderOut < e.order
 · rw [if_pos hlate] at h
   cases h
 · rw [if_neg hlate] at h
   refine ⟨Nat.le_of_not_lt hlate,?_⟩
   split at h
   · cases h
   · split at h
     · assumption
     · cases h

lemma orderedQueueEnq_frame (h : s.orderedQueueEnq t target origin e = some s') :
 (∀ u, u ≠ t → s'.schedLocal u = s.schedLocal u ∧ s'.pc u = s.pc u) ∧
  (∃ added rest orderOut, Change s s' target origin added rest orderOut) ∧
  ∃ qe, (qe = (s.schedLocal t).originQe ∨ qe = none ∧ e.sustain = false) ∧
   s'.schedLocal t = { s.schedLocal t with enqCalled := true, originQe := qe } := by
 obtain ⟨⟨s1,b⟩,hmove,rfl⟩ := map_eq_some_iff.mp h
 obtain ⟨hpc,hlocal,hcase⟩ := orderedMove_cases hmove
 have hqe : ∀ qe, qe = (if e.sustain then (s.schedLocal t).originQe else none) →
  qe = (s.schedLocal t).originQe ∨ qe = none ∧ e.sustain = false := by
  rintro qe rfl
  cases e.sustain with
  | false => exact .inr ⟨rfl,rfl⟩
  | true => exact .inl rfl
 have hidle : ∀ u, u ≠ t → (s1.setPc t .idle).pc u = s.pc u := by
  intro u hu
  simp [hu,hpc]
 obtain ⟨-,rfl,hself,hc⟩ | ⟨-,hself,⟨-,rfl,hc⟩ | ⟨-,rfl,r,-,-,hc⟩⟩ := hcase
 · exact ⟨fun u hu => ⟨hlocal u hu,hidle u hu⟩,⟨_,_,_,hc.setPc t .idle⟩,_,.inl rfl,hself⟩
 · exact ⟨fun u hu => ⟨hlocal u hu,hidle u hu⟩,⟨_,_,_,hc.setPc t .idle⟩,_,hqe _ rfl,hself⟩
 · refine ⟨fun u hu => ⟨hlocal u hu,?_⟩,⟨_,_,_,hc.trans (complete_change s1 t target origin)⟩,_,
    hqe _ rfl,hself⟩
   rw [if_pos rfl,complete_pc_ne s1 t origin hu,hpc]

end Move

-- Releasing

/-- The context of a thread is put aside, the list in front of `origin` becomes `reorder`, and the
thread goes on at `pc`. -/
structure Aside (s s' : State m n) (t : Fin n) (origin : Fin m) (pc : Pc m)
 (reorder : List (Entry m)) : Prop where
 schedLocal : s'.schedLocal = update s.schedLocal t { s.schedLocal t with originQe := none }
 pc : s'.pc = update s.pc t pc
 change : Change s s' origin origin [] reorder (s.queue origin).orderOut

variable {origin : Fin m} {s s' : State m n}

lemma Aside.pc_self {t : Fin n} {pc : Pc m} {l : List (Entry m)}
 (h : Aside s s' t origin pc l) : s'.pc t = pc := by
 rw [h.pc,update_self]

lemma Aside.pc_ne {t u : Fin n} {pc : Pc m} {l : List (Entry m)}
 (h : Aside s s' t origin pc l) (hu : u ≠ t) : s'.pc u = s.pc u := by
 rw [h.pc,update_of_ne hu]

/-- The ways through `release_order` with a context of `origin`. -/
inductive Releases (s : State m n) (t : Fin n) (keep alloc : Bool) (origin : Fin m)
 (s' : State m n) : Prop
 | kept (halloc : alloc = false) (hkeep : keep = true) (h : s' = s)
 | dropped (halloc : alloc = false) (hkeep : keep = false)
  (h : Aside s s' t origin .idle (s.queue origin).reorder)
 /-- The order is resolved here. -/
 | resolved (s1 : State m n) (hin : (s.schedLocal t).order ≤ (s.queue origin).orderOut)
  (hhead : ∀ a ∈ (s.queue origin).reorder.head?, a.order ≠ (s.schedLocal t).order)
  (hlocal : s1.schedLocal = update s.schedLocal t { s.schedLocal t with originQe := none })
  (hpc : s1.pc = s.pc)
  (hc : Change s s1 origin origin [] (s.queue origin).reorder ((s.queue origin).orderOut+1))
  (h : s' = s1.complete t origin)
 /-- The first element of this order takes it over. -/
 | first (a : Entry m) (as : List (Entry m))
  (hin : (s.schedLocal t).order ≤ (s.queue origin).orderOut)
  (hreorder : (s.queue origin).reorder = a::as) (ha : a.order = (s.schedLocal t).order)
  (h : Aside s s' t origin (.moving origin { a with sustain := false, link := [] } keep)
   (as.dropWhile (·.order == (s.schedLocal t).order)))
 /-- The last element of this order will resolve it. -/
 | marked (pre : List (Entry m)) (a : Entry m) (post : List (Entry m))
  (hlate : (s.queue origin).orderOut < (s.schedLocal t).order)
  (hold : (s.queue origin).reorder = pre++a::post) (ha : a.order = (s.schedLocal t).order)
  (hhead : ∀ b ∈ post.head?, (s.schedLocal t).order < b.order)
  (h : Aside s s' t origin .idle (pre++{ a with sustain := false }::post))
 | placed (hlate : (s.queue origin).orderOut < (s.schedLocal t).order)
  (h : Aside s s' t origin .idle
   (reorderEnq (.placeholder (s.schedLocal t).order) (s.queue origin).reorder))

lemma release_cases {t : Fin n} (hpc : s.pc t = .idle) (keep alloc : Bool)
 (horigin : (s.schedLocal t).originQe = some origin) :
 Releases s t keep alloc origin (s.release t keep alloc) := by
 have hidle : s.pc = update s.pc t .idle := by rw [← hpc,update_eq_self]
 have hlist : ∀ f : List (Entry m) → List (Entry m), Aside s ((s.orderResolved t).modify origin
  fun o => { o with reorder := f o.reorder }) t origin .idle (f (s.queue origin).reorder) :=
  fun f => ⟨rfl,hidle,(Change.setReorder (s.orderResolved t) origin origin f).of_setLocal⟩
 have hresolve : (s.schedLocal t).order ≤ (s.queue origin).orderOut →
  (∀ a ∈ (s.queue origin).reorder.head?, a.order ≠ (s.schedLocal t).order) →
  Releases s t keep alloc origin
   (((s.orderResolved t).modify origin (·.orderRelease 1)).complete t origin) := fun hin hhead =>
  .resolved ((s.orderResolved t).modify origin _) hin hhead rfl rfl
   (Change.release (s.orderResolved t) origin origin 1).of_setLocal rfl
 simp only [release,horigin]
 split
 · next hin =>
   split
   · next a as hreorder =>
     split
     · next ha =>
       exact .first a as hin hreorder ha ⟨rfl,rfl,((hlist fun _ => _).change.setPc t _)⟩
     · next ha => exact hresolve hin (by simpa [hreorder] using ha)
   · next hreorder => exact hresolve hin (by simp [hreorder])
 · next hlate =>
   have hlate := Nat.lt_of_not_le hlate
   split
   · next l hl =>
     split_ifs at hl
     obtain ⟨pre,a,post,hold,ha,rfl,-,hhead⟩ := resolveLast_eq_some hl
     exact .marked pre a post hlate hold ha hhead (hlist fun _ => _)
   · split
     · exact .placed hlate (hlist _)
     · next halloc =>
       split
       · next hkeep => exact .kept (by simpa using halloc) hkeep rfl
       · next hkeep =>
          exact .dropped (by simpa using halloc)
           (by simpa using hkeep) ⟨rfl,hidle,.of_eq rfl rfl rfl⟩

lemma step_cases {a : Action m n} (h : step s a = some s') :
 (∃ t origin e keep, a = .step t ∧ s.pc t = .moving origin e keep ∧
  s.enqMoving t origin e keep = some s') ∨ s.pc a.thread = .idle ∧ s.call a = some s' := by
 simp only [step] at h
 split at h
 · next origin e keep t hpc => exact .inl ⟨t,origin,e,keep,rfl,hpc,h⟩
 · next hpc => exact .inr ⟨hpc,h⟩
 · simp at h

/-- The call neither creates nor destroys a queue. -/
def Action.keepsQueues : Action m n → Bool
 | .create _ _ _ | .destroy _ _ => false
 | .enq _ _ _ | .take _ _ | .release _ _ _ | .lock _ _ | .unlock _ _ | .step _ => true

section Bad

variable {s s' : State m n} {t : Fin n} {q : Fin m}

lemma bad_of_queue {e : QueueEntry m} (hqueue : s'.queue = update s.queue q e)
 (he : e.status.bad = (s.queue q).status.bad) : s'.bad = s.bad := by
 funext r
 rw [bad,hqueue]
 by_cases hr : r = q
 · subst hr
   rw [update_self]
   exact he
 · rw [update_of_ne hr]
   rfl

lemma bad_orderedQueueEnq {target : Fin m} {e : Entry m}
 (h : s.orderedQueueEnq t target origin e = some s') : s'.bad = s.bad := by
 obtain ⟨⟨s1,b⟩,hmove,rfl⟩ := map_eq_some_iff.mp h
 have hbad : s1.bad = s.bad := by
  obtain ⟨-,-,⟨-,-,-,hc⟩ | ⟨-,-,⟨-,-,hc⟩ | ⟨-,-,r,-,-,hc⟩⟩⟩ := orderedMove_cases hmove
  all_goals exact funext hc.bad
 split
 · exact (funext (complete_change s1 t target origin).bad).trans hbad
 · exact hbad

lemma enq_cases {evs : List Event} (h : s.enq t q evs = some s') :
 s' = s ∨ ∃ ev link, evs = ev::link ∧
 (s.getQueueOrder t ev = none ∧ s' = (s.record t q none evs).modify q (fun e => (e.add evs).wake) ∨
 ∃ origin order, s.getQueueOrder t ev = some (origin,order) ∧
  (s.record t q (some origin) evs).orderedQueueEnq
  t q origin ⟨order,some q,true,ev,link⟩ = some s') := by
 cases evs with
 | nil => exact .inl (some.inj h).symm
 | cons ev link =>
  simp only [enq] at h
  split at h
  · next hnone =>
    split at h
    · exact .inl (some.inj h).symm
    · exact .inr ⟨ev,link,rfl,.inl ⟨hnone,(some.inj h).symm⟩⟩
  · next origin order hsome =>
    split at h
    · exact .inl (some.inj h).symm
    · exact .inr ⟨ev,link,rfl,.inr ⟨origin,order,hsome,h⟩⟩

lemma bad_enq {evs : List Event} (h : s.enq t q evs = some s') : s'.bad = s.bad := by
 obtain rfl | ⟨ev,link,-,⟨-,rfl⟩ | ⟨origin,order,-,h⟩⟩ := enq_cases h
 · rfl
 · exact bad_of_queue rfl ((s.queue q).add evs).keeps_wake.bad
 · have hbad := bad_orderedQueueEnq h
   exact hbad

lemma bad_release (hpc : s.pc t = .idle) (keep alloc : Bool) :
 (s.release t keep alloc).bad = s.bad := by
 cases horigin : (s.schedLocal t).originQe with
 | none => simp only [release,horigin]
 | some origin =>
  cases release_cases hpc keep alloc horigin with
  | kept _ _ h => rw [h]
  | dropped _ _ h | first _ _ _ _ _ h | marked _ _ _ _ _ _ _ h | placed _ h =>
   exact funext h.change.bad
  | resolved s1 _ _ _ _ hc h =>
   rw [h]
   exact (funext (complete_change s1 t origin origin).bad).trans (funext hc.bad)

lemma bad_take (s : State m n) (t : Fin n) (q : Fin m) : (s.take t q).bad = s.bad := by
 simp only [take]
 split
 · next hbad =>
   split
   · exact bad_of_queue rfl hbad.symm
   · rfl
 · split
   · exact bad_of_queue rfl (s.queue q).sleep_fields.2.2
   · split <;> exact bad_of_queue rfl rfl

lemma step_bad {a : Action m n} (h : step s a = some s') (ha : a.keepsQueues = true) :
 s'.bad = s.bad := by
 obtain ⟨t,origin,e,keep,rfl,hpc,h⟩ | ⟨hpc,h⟩ := step_cases h
 · obtain ⟨target,-,h⟩ := bind_eq_some_iff.mp h
   split at h
   · cases h
     rfl
   · exact bad_orderedQueueEnq h
 · cases a with
   | enq t q evs => exact bad_enq h
   | take t q =>
    simp only [call] at h
    split at h
    · cases h
    · exact some.inj h ▸ bad_take s t q
   | release t keep alloc => exact some.inj h ▸ bad_release hpc keep alloc
   | lock t k =>
    simp only [call,orderLock] at h
    split at h
    · exact some.inj h ▸ rfl
    · split_ifs at h <;> exact some.inj h ▸ rfl
   | unlock t k =>
    cases h
    simp only [orderUnlock]
    split
    · rfl
    · split_ifs
      · rfl
      · exact bad_of_queue rfl rfl
   | create t q param | destroy t q => cases ha
   | step t => cases h

end Bad

end Packages.OrderedQueue

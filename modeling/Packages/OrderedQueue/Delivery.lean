import Packages.Lib.Custody
import Packages.OrderedQueue.Steps

/-!
# Delivering an element of a reorder list

An enqueued event is on the list of the queue it was enqueued to, on the reorder list of the queue
whose order it follows (itself or chained to another event), or in the hands of a thread that is
moving it from there. `ordered_queue_enq` takes it from one place to another.
-/

namespace Packages.OrderedQueue

open List

variable {m n : Nat}

def Pc.events : Pc m → List Event
 | .idle => []
 | .moving _ e _ => e.events

inductive Place (m n : Nat) where
 | application
 | list (q : Fin m)
 | reorder (q : Fin m)
 | hand (t : Fin n)
 deriving DecidableEq

/-- How often the event is there. -/
def eventAt (s : State m n) : Place m n → Event → Nat
 | .application, ev => if s.ledger.owned ev then 1 else 0
 | .list q, ev => (s.queue q).events.count ev
 | .reorder q, ev => (eventsOf (s.queue q).reorder).count ev
 | .hand t, ev => (s.pc t).events.count ev

/-- The events of the element were enqueued to its target, subject to the order of `p`. -/
def Sent (l : Ledger m) (p : Fin m) (x : Entry m) : Prop :=
 ∀ ev ∈ x.events, l.dest ev = x.target ∧ l.src ev = some p

/-- Every event is where its enqueue sent it. -/
structure Addressed (s : State m n) : Prop where
 list : ∀ q, ∀ ev ∈ (s.queue q).events, s.ledger.dest ev = some q
 reorder : ∀ p, ∀ x ∈ (s.queue p).reorder, Sent s.ledger p x
 hand : ∀ t p x k, s.pc t = .moving p x k → Sent s.ledger p x

/-- `ordered_queue_enq` of the element calls `reorder_complete` only where that drops nothing. -/
def enqKeepsAll (o : QueueEntry m) (target : Fin m) (e : Entry m) : Bool :=
 if o.orderOut < e.order ∨ o.reorder = [] then true
 else
  let r := reorderDeq target (o.orderOut+e.releaseCount)
   (reorderEnq { e with target := some target, sustain := true } o.reorder)
  dropsNone r.orderOut false r.rest

-- Delivering an element

@[simp] lemma events_handOn (origin : Fin m) (ret : Option (Entry m)) :
 (Pc.handOn origin ret).events = eventsOf ret.toList := by
 cases ret <;> simp [Pc.handOn,Pc.events]

/-- The events of `e` arrive at `target` and at the reorder list of `origin`: from there `added`
goes to the target, the thread gets `ret` in hand and `rest` stays. -/
structure Delivers (s s' : State m n) (t : Fin n) (target origin : Fin m) (e : Entry m)
 (added : List Event) (rest : List (Entry m)) (ret : Option (Entry m)) : Prop where
 change : ∃ orderOut, Change s s' target origin added rest orderOut
 pc : s'.pc t = .handOn origin ret
 pc_ne : ∀ u, u ≠ t → s'.pc u = s.pc u
 count : ∀ ev, added.count ev+(eventsOf rest).count ev+(eventsOf ret.toList).count ev =
  (e.buf::e.link).count ev+(eventsOf (s.queue origin).reorder).count ev
 mem_added : ∀ ev ∈ added, ev ∈ e.buf::e.link ∨
  ∃ x ∈ (s.queue origin).reorder, x.target = some target ∧ ev ∈ x.events
 mem_rest : ∀ x ∈ ret.toList++rest, x ∈ (s.queue origin).reorder ∨
  x.target = some target ∧ x.events = e.buf::e.link

section Deliver

variable {s s' : State m n} {t : Fin n} {target origin : Fin m} {e : Entry m}

lemma mem_sorted {x : Entry m} {l : List (Entry m)} {b : Bool}
 (h : x ∈ reorderEnq { e with target := some target, sustain := b } l) :
 x ∈ l ∨ x.target = some target ∧ x.events = e.buf::e.link := by
 rcases mem_reorderEnq.mp h with rfl | h
 · exact .inr ⟨rfl,rfl⟩
 · exact .inl h

lemma count_sorted (l : List (Entry m)) (b : Bool) (ev : Event) :
 (eventsOf (reorderEnq { e with target := some target, sustain := b } l)).count ev =
  (e.buf::e.link).count ev+(eventsOf l).count ev := by
 rw [(eventsOf_perm (reorderEnq_perm _ _)).count_eq,eventsOf_cons,count_append]
 rfl

lemma orderedQueueEnq_delivers (h : s.orderedQueueEnq t target origin e = some s')
 (hk : enqKeepsAll (s.queue origin) target e = true) :
 ∃ added rest ret, Delivers s s' t target origin e added rest ret := by
 obtain ⟨⟨s1,b⟩,hmove,rfl⟩ := Option.map_eq_some_iff.mp h
 obtain ⟨hpc,-,hcase⟩ := orderedMove_cases hmove
 have hidle : ∀ u, u ≠ t → (s1.setPc t .idle).pc u = s.pc u := by
  intro u hu
  simp [State.setPc,hu,hpc]
 rcases hcase with ⟨-,rfl,-,hc⟩ | ⟨hin,-,⟨hempty,rfl,hc⟩ | ⟨hne,rfl,r,hr,-,hc⟩⟩
 · -- sorted in
   refine ⟨[],_,none,⟨⟨_,hc.setPc t .idle⟩,by simp [State.setPc,Pc.handOn],
    hidle,fun ev => ?_,by simp,fun x hx => mem_sorted (by simpa using hx)⟩⟩
   simpa using count_sorted (s.queue origin).reorder e.sustain ev
 · -- straight to the target
   refine ⟨_,_,none,⟨⟨_,hc.setPc t .idle⟩,by simp [State.setPc,Pc.handOn],hidle,fun ev => ?_,
    fun ev hev => .inl hev,by simp⟩⟩
   simp [hempty]
 · -- with everything due for the target
   have hdrop : dropsNone (s1.queue origin).orderOut false (s1.queue origin).reorder = true := by
    rw [hc.orderOut,hc.reorder,hr]
    simpa [enqKeepsAll,not_lt.mpr hin,hne] using hk
   refine ⟨_,_,_,⟨⟨_,hc.trans (complete_change s1 t target origin)⟩,
    complete_pc s1 t origin,?_,?_,?_,?_⟩⟩
   · intro u hu
     rw [if_pos rfl,complete_pc_ne s1 t origin hu,hpc]
   · intro ev
     have hcomplete := congrArg (count ev) ((s1.queue origin).reorderComplete_events hdrop)
     have hdeq := congrArg (count ev) (reorderDeq_events target
      ((s.queue origin).orderOut+e.releaseCount)
      (reorderEnq { e with target := some target, sustain := true } (s.queue origin).reorder))
     rw [← hr,count_sorted,count_append] at hdeq
     rw [hc.reorder,eventsOf_append,count_append] at hcomplete
     rw [append_nil]
     omega
   · intro ev hev
     rw [append_nil] at hev
     obtain ⟨x,hx,hevx⟩ := mem_flatMap.mp hev
     rw [hr] at hx
     obtain ⟨hx,htarget⟩ := mem_moved hx
     rcases mem_sorted hx with hx | ⟨-,hx⟩
     · exact .inr ⟨x,hx,htarget,hevx⟩
     · exact .inl (hx ▸ hevx)
   · intro x hx
     have hx := QueueEntry.mem_completeLoop hx
     rw [hc.reorder,hr] at hx
     exact mem_sorted (mem_rest hx)

variable {added : List Event} {rest : List (Entry m)} {ret : Option (Entry m)}

lemma Delivers.custody {s0 : State m n} (d : Delivers s s' t target origin e added rest ret)
 (h : Custody (eventAt s0)) (hqueue : s0.queue = s.queue) (hpc : s0.pc = s.pc)
 (hfrom : ∀ ev, eventAt s0 .application ev+(s0.pc t).events.count ev =
  eventAt s .application ev+(e.buf::e.link).count ev) : Custody (eventAt s') := by
 obtain ⟨orderOut,hc⟩ := d.change
 refine h.regroup (S := [.application,.list target,.reorder origin,.hand t]) (by simp) ?_ ?_
 · intro p hp ev
   simp only [mem_cons,not_mem_nil,or_false,not_or] at hp
   obtain ⟨happ,hlist,hreorder,hhand⟩ := hp
   cases p with
   | application => exact absurd rfl happ
   | list q =>
    have hq : q ≠ target := fun hq => hlist (by rw [hq])
    simp [eventAt,hc.events,hq,hqueue]
   | reorder q =>
    have hq : q ≠ origin := fun hq => hreorder (by rw [hq])
    simp [eventAt,hc.reorder_ne q hq,hqueue]
   | hand u =>
    have hu : u ≠ t := fun hu => hhand (by rw [hu])
    simp [eventAt,d.pc_ne u hu,hpc]
 · intro ev
   have hcount := d.count ev
   have hev := hfrom ev
   have happ : eventAt s' .application ev = eventAt s .application ev := by
    simp [eventAt,hc.ledger]
   simp only [map_cons,map_nil,sum_cons,happ]
   simp only [eventAt,hc.events,hc.reorder,d.pc,events_handOn,if_true,count_append,hqueue] at hev ⊢
   omega

lemma Delivers.addressed (d : Delivers s s' t target origin e added rest ret) (h : Addressed s)
 (he : ∀ ev ∈ e.buf::e.link, s.ledger.dest ev = some target ∧ s.ledger.src ev = some origin) :
 Addressed s' := by
 obtain ⟨orderOut,hc⟩ := d.change
 -- the elements that stay or are handed on
 have hsent : ∀ x ∈ ret.toList++rest, Sent s'.ledger origin x := by
  intro x hx
  rw [hc.ledger]
  rcases d.mem_rest x hx with hx | ⟨htarget,hevents⟩
  · exact h.reorder origin x hx
  · intro ev hev
    rw [htarget]
    exact he ev (hevents ▸ hev)
 refine ⟨fun q ev hev => ?_,fun p x hx => ?_,fun u p x k hu => ?_⟩
 · rw [hc.ledger]
   rw [hc.events] at hev
   by_cases hq : q = target
   · subst hq
     rcases mem_append.mp hev with hev | hev
     · exact h.list q ev hev
     · rw [if_pos rfl] at hev
       rcases d.mem_added ev hev with hev | ⟨x,hx,htarget,hev⟩
       · exact (he ev hev).1
       · exact htarget ▸ (h.reorder origin x hx ev hev).1
   · rw [if_neg hq,append_nil] at hev
     exact h.list q ev hev
 · by_cases hp : p = origin
   · subst hp
     rw [hc.reorder] at hx
     exact hsent x (mem_append_right _ hx)
   · rw [hc.reorder_ne p hp] at hx
     exact hc.ledger ▸ h.reorder p x hx
 · by_cases hut : u = t
   · subst hut
     rw [d.pc] at hu
     cases ret with
     | none => simp [Pc.handOn] at hu
     | some y =>
      cases hu
      exact hsent x (by simp)
   · rw [d.pc_ne u hut] at hu
     exact hc.ledger ▸ h.hand u p x k hu

end Deliver

end Packages.OrderedQueue

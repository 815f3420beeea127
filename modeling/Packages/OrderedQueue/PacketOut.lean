import Packages.OrderedQueue.Restoration

/-!
# Packet output from ordered contexts

`queue_pktout_enq` sends the packets of a call when its order is next, then what `reorder_deq`
releases, and hands on what `reorder_complete` finds, without the lock of the origin queue.
`queue_pktout_enq_multi` chains its packets behind the first one, and of such a chain
`queue_pktout_enq` sends all but the first.
-/

namespace Packages.PacketOut

open OrderedQueue List Option
open Scheduler (queueMultiMax)

/-- A packet passed to `odp_pktio_send`, and the order it has in its origin queue. -/
structure Sent (m : Nat) where
 queue : Fin m
 origin : Fin m
 order : Nat
 packet : Event
 deriving DecidableEq, Repr

inductive Phase (m : Nat) where
 /-- in front of the first lock of `queue_pktout_enq` -/
 | enter (queue origin : Fin m) (e : Entry m)
 /-- in order, with the lock dropped -/
 | send (queue origin : Fin m) (e : Entry m)
 /-- the packets sent, in front of the lock -/
 | account (queue origin : Fin m) (sustain : Bool)
 /-- sending what `reorder_deq` released, which resolves `count` orders -/
 | transmit (origin : Fin m) (count : Nat) (released : List (Sent m))
 /-- in front of the last lock -/
 | complete (origin : Fin m) (count : Nat)
 /-- about to call `queue_enq_internal` -/
 | handOn (origin : Fin m) (e : Entry m)
 /-- returned, with all packets enqueued or with -1 -/
 | done (ok : Bool)
 deriving DecidableEq, Repr

/-- A call of `odp_queue_enq_multi` on a packet output queue. `ok` says that only the calls of
`queue_enq_internal` at its end are left: their results are ignored. -/
structure Call (m n : Nat) where
 state : State m n
 sent : List (Sent m)
 ok : Bool
 phase : Phase m

variable {m n : Nat}

/-- `odp_queue_enq_multi` and `queue_pktout_enq_multi` by thread `t`, up to `queue_pktout_enq`; `tx`
says how many packets `odp_pktio_send` accepts. -/
def queuePktoutEnqMulti (tx : List Event → Nat) (s : State m n) (t : Fin n) (queue : Fin m)
 (packets : List Event) : Call m n :=
 match packets.take queueMultiMax with
 | [] => ⟨s,[],false,.done true⟩
 | ev::link =>
  match s.getQueueOrder t ev with
  | none =>
   ⟨s,(ev::link).map (Sent.mk queue queue 0),false,
    .done (decide (tx (ev::link) = (ev::link).length))⟩
  | some (origin,order) => ⟨s,[],false,.enter queue origin ⟨order,some queue,true,ev,link⟩⟩

/-- What `queue_pktout_enq` sends of an element: what is chained to the buffer, or the buffer. -/
def transmitted (e : Entry m) : List Event := if e.link = [] then [e.buf] else e.link

namespace Call

def fail (c : Call m n) : Call m n := { c with phase := .done c.ok }

/-- `queue_pktout_enq` up to the first unlock. -/
def enter (c : Call m n) (t : Fin n) (queue origin : Fin m) (e : Entry m) : Call m n :=
 if c.state.bad origin then c.fail
 else
  let s := c.state.setLocal t { c.state.schedLocal t with enqCalled := true }
  if (s.queue origin).orderOut < e.order then
   { c with
     state := s.modify origin fun o =>
      { o with reorder := reorderEnq { e with target := some queue } o.reorder }
     phase := .done true }
  else { c with state := s, phase := .send queue origin e }

/-- `pktout_enq_multi` or `pktout_enqueue` -/
def send (c : Call m n) (tx : List Event → Nat) (queue origin : Fin m) (e : Entry m) : Call m n :=
 let c := { c with sent := c.sent++(transmitted e).map (Sent.mk queue origin e.order) }
 if tx (transmitted e) < (transmitted e).length then c.fail
 else { c with phase := .account queue origin e.sustain }

/-- The end of `queue_pktout_enq`, with the lock. -/
def complete (c : Call m n) (origin : Fin m) (count : Nat) : Call m n :=
 let r := ((c.state.queue origin).orderRelease count).reorderComplete
 { c with
   state := c.state.modify origin fun _ => r.1
   ok := true
   phase := match r.2 with
    | some e => .handOn origin e
    | none => .done true }

/-- The order is accounted for and `reorder_deq` called. -/
def account (c : Call m n) (t : Fin n) (queue origin : Fin m) (sustain : Bool) : Call m n :=
 if c.state.bad origin then c.fail
 else
  let s := c.state.resolveOrder t origin sustain
  let r := reorderDeq queue (s.queue origin).orderOut (s.queue origin).reorder
  let count := r.orderOut-(s.queue origin).orderOut
  let c := { c with state := s.modify origin fun o => { o with reorder := r.rest } }
  if r.moved = [] then c.complete origin count
  else
   let released := r.moved.flatMap fun x => x.events.map (Sent.mk queue origin x.order)
   { c with phase := .transmit origin count released }

/-- The next step of the call; `pktout` are the packet output queues. -/
def run (pktout : Fin m → Bool) (tx : List Event → Nat) (t : Fin n) (c : Call m n) :
 Option (Call m n) :=
 match c.phase with
 | .enter queue origin e => some (c.enter t queue origin e)
 | .send queue origin e => some (c.send tx queue origin e)
 | .account queue origin sustain => some (c.account t queue origin sustain)
 | .transmit _ _ [] => none
 | .transmit origin count (x::xs) =>
  some { c with
   sent := c.sent++[x]
   phase := if xs = [] then .complete origin count else .transmit origin count xs }
 | .complete origin count =>
  if c.state.bad origin then some c.fail else some (c.complete origin count)
 | .handOn origin e =>
  e.target.bind fun queue =>
   if pktout queue then some { c with phase := .enter queue origin e }
   else if c.state.bad origin ∨ c.state.bad queue then some c.fail
   else (c.state.orderedQueueEnq t queue origin e).map fun s =>
    { c with
      state := s.setPc t .idle
      phase := match s.pc t with
       | .moving origin e _ => .handOn origin e
       | .idle => .done true }
 | .done _ => none

end Call

/-- A call has no choice. -/
def step (pktout : Fin m → Bool) (tx : List Event → Nat) (t : Fin n) (c : Call m n) (_ : Unit) :
 Option (Call m n) :=
 c.run pktout tx t

/-- The packets that the call has in hand. -/
def Phase.packets : Phase m → List Event
 | .enter _ _ e | .send _ _ e => e.buf::e.link
 | .transmit _ _ released => released.map Sent.packet
 | .handOn _ e => e.events
 | .account _ _ _ | .complete _ _ | .done _ => []

section Sends

variable {packets : List Event} {first l l' : List (Sent m)} {s s' : State m n}
 {c c' : Call m n} {t : Fin n}
 {queue origin : Fin m} {pktout : Fin m → Bool} {tx : List Event → Nat}

/-- `first` was sent first, and after it none of the packets. -/
def Delivered (packets : List Event) (first l : List (Sent m)) : Prop :=
 ∃ after, l = first++after ∧ ∀ y ∈ after, y.packet ∉ packets

def Absent (packets : List Event) (s : State m n) : Prop :=
 ∀ q, packets.Disjoint (eventsOf (s.queue q).reorder)

lemma Delivered.append (h : Delivered packets first l) (hl : ∀ y ∈ l', y.packet ∉ packets) :
 Delivered packets first (l++l') := by
 obtain ⟨after,rfl,hother⟩ := h
 exact ⟨after++l',append_assoc ..,fun y hy => (mem_append.mp hy).elim (hother y) (hl y)⟩

lemma Absent.modify (h : Absent packets s) (origin : Fin m) (f : QueueEntry m → QueueEntry m)
 (hf : packets.Disjoint (eventsOf (f (s.queue origin)).reorder)) :
 Absent packets (s.modify origin f) := by
 intro q
 by_cases hq : q = origin
 · subst hq
   rw [State.queue_modify]
   exact hf
 · rw [State.queue_modify_of_ne _ _ hq]
   exact h q

lemma disjoint_eventsOf {l l' : List (Entry m)} (h : packets.Disjoint (eventsOf l))
 (hsub : ∀ e ∈ l', e ∈ l) : packets.Disjoint (eventsOf l') := by
 intro ev hev hmem
 obtain ⟨e,he,hevent⟩ := mem_flatMap.mp hmem
 exact h hev (mem_flatMap.mpr ⟨e,hsub e he,hevent⟩)

/-- What the call works with once it has sent its packets. -/
structure Over (packets : List Event) (first : List (Sent m)) (c : Call m n) : Prop where
 delivered : Delivered packets first c.sent
 absent : Absent packets c.state
 others : packets.Disjoint c.phase.packets

namespace Over

lemma fail (h : Over packets first c) : Over packets first c.fail :=
 ⟨h.delivered,h.absent,disjoint_nil_right _⟩

lemma enter {e : Entry m} (h : Over packets first c) (he : packets.Disjoint (e.buf::e.link)) :
 Over packets first (c.enter t queue origin e) := by
 simp only [Call.enter]
 split
 · exact h.fail
 · split
   · refine ⟨h.delivered,?_,disjoint_nil_right _⟩
     dsimp only
     apply Absent.modify
     · exact h.absent
     intro ev hev hmem
     obtain ⟨y,hy,hevent⟩ := mem_flatMap.mp hmem
     obtain rfl | hy := mem_reorderEnq.mp hy
     · exact he hev hevent
     · exact h.absent origin hev (mem_flatMap.mpr ⟨y,hy,hevent⟩)
   · exact ⟨h.delivered,h.absent,he⟩

lemma complete {count : Nat} (h : Over packets first c) :
 Over packets first (c.complete origin count) := by
 have hsub := ((c.state.queue origin).orderRelease count).completeLoop_sublist []
  (c.state.queue origin).reorder
 have hmem := disjoint_eventsOf (h.absent origin) fun e he => hsub.subset he
 rw [eventsOf_append,disjoint_append_right] at hmem
 refine ⟨h.delivered,?_,?_⟩
 · simp only [Call.complete]
   apply h.absent.modify
   exact hmem.2
 simp only [Call.complete]
 split
 · next e he =>
   intro ev hev hevent
   refine hmem.1 hev ?_
   have he :
    (((c.state.queue origin).orderRelease count).completeLoop [] (c.state.queue origin).reorder).2 =
    some e := he
   rw [he]
   exact mem_flatMap.mpr ⟨e,mem_cons_self,hevent⟩
 · exact disjoint_nil_right _

lemma resolveOrder (h : Absent packets s) (t : Fin n) (origin : Fin m) (sustain : Bool) :
 Absent packets (s.resolveOrder t origin sustain) := by
 unfold State.resolveOrder
 split
 · exact h
 · exact h.modify origin (·.orderRelease 1) (h origin)

lemma account {sustain : Bool} (h : Over packets first c) :
 Over packets first (c.account t queue origin sustain) := by
 simp only [Call.account]
 split
 · exact h.fail
 · have habsent := resolveOrder h.absent t origin sustain
   generalize c.state.resolveOrder t origin sustain = s at habsent
   have hmem : packets.Disjoint
    (eventsOf (reorderDeq queue (s.queue origin).orderOut (s.queue origin).reorder).rest) :=
    disjoint_eventsOf (habsent origin) fun e he => mem_rest he
   have hrest := habsent.modify origin (fun o => { o with reorder :=
    (reorderDeq queue (s.queue origin).orderOut (s.queue origin).reorder).rest }) hmem
   split
   · exact Over.complete ⟨h.delivered,hrest,h.others⟩
   · refine ⟨h.delivered,hrest,fun packet hpacket hmem => ?_⟩
     obtain ⟨y,hy,rfl⟩ := mem_map.mp hmem
     obtain ⟨e,he,hy⟩ := mem_flatMap.mp hy
     obtain ⟨ev,hev,rfl⟩ := mem_map.mp hy
     exact habsent origin hpacket (mem_flatMap.mpr ⟨e,(mem_moved he).1,hev⟩)

lemma transmitted_subset (e : Entry m) : transmitted e ⊆ e.buf::e.link := by
 unfold transmitted
 split
 · exact cons_subset_cons _ (nil_subset _)
 · exact subset_cons_self _ _

lemma send {e : Entry m} (h : Over packets first c) (he : packets.Disjoint (e.buf::e.link)) :
 Over packets first (c.send tx queue origin e) := by
 have hsent :
  Delivered packets first (c.sent++(transmitted e).map (Sent.mk queue origin e.order)) := by
  refine h.delivered.append fun y hy hpacket => ?_
  obtain ⟨ev,hev,rfl⟩ := mem_map.mp hy
  exact he hpacket (transmitted_subset e hev)
 simp only [Call.send]
 split <;> exact ⟨hsent,h.absent,disjoint_nil_right _⟩

lemma run (h : Over packets first c) (hrun : c.run pktout tx t = some c') :
 Over packets first c' := by
 have hothers := h.others
 unfold Call.run at hrun
 cases hphase : c.phase with
 | enter queue origin e =>
  rw [hphase] at hrun hothers
  exact some.inj hrun ▸ h.enter hothers
 | send queue origin e =>
  rw [hphase] at hrun hothers
  exact some.inj hrun ▸ h.send hothers
 | account queue origin sustain =>
  rw [hphase] at hrun
  exact some.inj hrun ▸ h.account
 | transmit origin count released =>
  rw [hphase] at hrun hothers
  cases released with
  | nil => cases hrun
  | cons y ys =>
   cases hrun
   have hothers := disjoint_cons_right.mp hothers
   refine ⟨h.delivered.append fun z hz => mem_singleton.mp hz ▸ hothers.1,h.absent,?_⟩
   split
   · exact disjoint_nil_right _
   · exact hothers.2
 | complete origin count =>
  rw [hphase] at hrun
  simp only at hrun
  split at hrun
  · exact some.inj hrun ▸ h.fail
  · exact some.inj hrun ▸ h.complete
 | handOn origin e =>
  rw [hphase] at hrun hothers
  obtain ⟨queue,htarget,hrun⟩ := bind_eq_some_iff.mp hrun
  have he : packets.Disjoint (e.buf::e.link) := events_of_target htarget ▸ hothers
  split at hrun
  · exact some.inj hrun ▸ ⟨h.delivered,h.absent,he⟩
  · split at hrun
    · exact some.inj hrun ▸ h.fail
    · obtain ⟨s',hs',rfl⟩ := map_eq_some_iff.mp hrun
      obtain ⟨moved,rest,ret,d⟩ := orderedQueueEnq_served hs'
      obtain ⟨out,hc⟩ := d.change
      obtain ⟨b,hsub⟩ := d.sublist
      have hline : packets.Disjoint (eventsOf (ret.toList++rest)) := by
       intro ev hev hmem
       obtain ⟨y,hy,hevent⟩ := mem_flatMap.mp hmem
       obtain rfl | hy := mem_reorderEnq.mp (hsub.subset (mem_append_right _ hy))
       · exact he hev hevent
       · exact h.absent origin hev (mem_flatMap.mpr ⟨y,hy,hevent⟩)
      rw [eventsOf_append,disjoint_append_right] at hline
      refine ⟨h.delivered,fun q => ?_,?_⟩
      · show packets.Disjoint (eventsOf (s'.queue q).reorder)
        by_cases hq : q = origin
        · rw [hq,hc.reorder]
          exact hline.2
        · rw [hc.reorder_ne q hq]
          exact h.absent q
      · simp only [d.pc]
        cases ret with
        | none => exact disjoint_nil_right _
        | some e => exact fun ev hev hmem => hline.1 hev (mem_flatMap.mpr ⟨e,mem_cons_self,hmem⟩)
 | done ok =>
  rw [hphase] at hrun
  cases hrun

end Over

/-- The call has not sent its packets. -/
structure Waiting (packets : List Event) (queue origin : Fin m) (e : Entry m)
 (c : Call m n) : Prop where
 ok : c.ok = false
 phase : c.phase = .enter queue origin e ∨ c.phase = .send queue origin e
 next : (c.state.queue origin).orderOut = e.order
 sent : c.sent = []
 absent : Absent packets c.state

lemma Waiting.run {e : Entry m} (h : Waiting packets queue origin e c)
 (hrun : c.run pktout tx t = some c') : Waiting packets queue origin e c' ∨
  Over packets ((transmitted e).map (Sent.mk queue origin e.order)) c' ∨ c'.phase =
  .done false := by
 unfold Call.run at hrun
 obtain hphase | hphase := h.phase
 · rw [hphase] at hrun
   cases hrun
   simp only [Call.enter]
   split
   · exact .inr (.inr (congrArg Phase.done h.ok))
   · split
     · next hlt =>
       have hlt : (c.state.queue origin).orderOut < e.order := hlt
       rw [h.next] at hlt
       exact absurd hlt (lt_irrefl _)
     · exact .inl { h with phase := .inr rfl }
 · rw [hphase] at hrun
   cases hrun
   simp only [Call.send,h.sent,nil_append]
   split
   · exact .inr (.inr (congrArg Phase.done h.ok))
   · exact .inr (.inl ⟨⟨[],(append_nil _).symm,nofun⟩,h.absent,disjoint_nil_right _⟩)

/-- A finished call has sent first what `queue_pktout_enq` makes of its packets, and then none of
them. -/
lemma delivered_of_reach {ev : Event} {link : List Event} {order : Nat}
 (hlen : link.length < queueMultiMax)
 (horder : s.getQueueOrder t ev = some (origin,order)) (hnext : (s.queue origin).orderOut = order)
 (hown : Absent (ev::link) s)
 (hr : Transition.Reach (· = queuePktoutEnqMulti tx s t queue (ev::link)) (step pktout tx t)
  (fun _ _ => True) c)
 (hdone : c.phase = .done true) :
 Delivered (ev::link) ((if link = [] then [ev] else link).map (Sent.mk queue origin order))
  c.sent := by
 have h : Waiting (ev::link) queue origin ⟨order,some queue,true,ev,link⟩ c ∨
  Over (ev::link) ((if link = [] then [ev] else link).map (Sent.mk queue origin order)) c ∨
  c.phase = .done false := by
  refine hr.invariant (P := fun c => _ ∨ _ ∨ c.phase = _)
   (fun c hc => ?_) fun c a c' hc _ hstep => ?_
  · subst hc
    rw [queuePktoutEnqMulti,take_of_length_le (by simpa using hlen)]
    simp only [horder]
    exact .inl ⟨rfl,.inl rfl,hnext,rfl,hown⟩
  · obtain hw | ho | hfailed := hc
    · exact hw.run hstep
    · exact .inr (.inl (ho.run hstep))
    · simp only [step,Call.run,hfailed] at hstep
      cases hstep
 obtain hw | ho | hfailed := h
 · obtain hphase | hphase := hw.phase <;> cases hdone.symm.trans hphase
 · exact ho.delivered
 · cases hdone.symm.trans hfailed

attribute [local instance] Transition.neZero_two

/-- Thread 0 is in the context of the first order of the ordered queue 0, with `waiting` on its
reorder list. -/
def demoContext (waiting : List (Entry 2)) : State 2 2 :=
 { demo.modify 0 fun o => { o with reorder := waiting } with
   schedLocal := fun _ => ⟨some 0,0,fun _ => 0,false,fun _ => false⟩ }

end Sends

end Packages.PacketOut

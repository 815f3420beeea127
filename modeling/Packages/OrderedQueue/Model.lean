import Packages.OrderedQueue.Reorder

/-!
# Ordered scheduling

Threads take events of ordered queues with the context of the event's order, enqueue to any queues
from it, use its ordered locks and release it. A step is what a thread does with the locks of a
queue and its origin held; to hand on an element of the reorder list it drops them and takes them
again: `Pc.moving`. A thread may take from a queue at any time: the scheduler's command events do
not appear.
-/

namespace Packages.OrderedQueue

open Function

open Scheduler (Status queueMultiMax maxOrderedLocks)

/-- The `sched_local` of a thread; `inside` (not in the source) says which ordered locks of the
context the thread holds. -/
structure Local (m : Nat) where
 originQe : Option (Fin m)
 order : Nat
 sync : Nat → Nat
 enqCalled : Bool
 inside : Nat → Bool

/-- Where a thread is: `moving` has an element in hand and is about to call `ordered_queue_enq`.
`keep` says that it then goes back to its context if the call fails. -/
inductive Pc (m : Nat) where
 | idle
 | moving (origin : Fin m) (e : Entry m) (keep : Bool)
 deriving DecidableEq, Repr

/-- The thread goes on with what `reorder_complete` handed back. -/
def Pc.handOn {m : Nat} (origin : Fin m) : Option (Entry m) → Pc m
 | some e => .moving origin e false
 | none => .idle

/-- The context an event was enqueued from, and its number in the sequence of all enqueues. -/
structure Tag (m : Nat) where
 origin : Option (Fin m)
 order : Nat
 seq : Nat
 deriving DecidableEq, Repr

/-- What is remembered about the enqueues (not in the source). -/
structure Ledger (m : Nat) where
 /-- The event is with the application. -/
 owned : Event → Bool
 /-- The queue it was enqueued to last. -/
 dest : Event → Option (Fin m)
 /-- The queue whose order that enqueue was subject to. -/
 src : Event → Option (Fin m)
 tag : Event → Tag m
 seq : Nat
 /-- The events taken off each queue. -/
 taken : Fin m → List (Tag m)

structure State (m n : Nat) where
 queue : Fin m → QueueEntry m
 /-- `origin_qe` and `order` in the headers of the events that the application has -/
 hdr : Event → Option (Fin m × Nat)
 schedLocal : Fin n → Local m
 pc : Fin n → Pc m
 ledger : Ledger m

variable {m n : Nat}

namespace State

def modify (s : State m n) (q : Fin m) (f : QueueEntry m → QueueEntry m) : State m n :=
 { s with queue := update s.queue q (f (s.queue q)) }

def setLocal (s : State m n) (t : Fin n) (l : Local m) : State m n :=
 { s with schedLocal := update s.schedLocal t l }

def setPc (s : State m n) (t : Fin n) (pc : Pc m) : State m n :=
 { s with pc := update s.pc t pc }

def bad (s : State m n) (q : Fin m) : Bool := (s.queue q).status.bad

def getQueueOrder (s : State m n) (t : Fin n) (ev : Event) : Option (Fin m × Nat) :=
 match s.hdr ev with
 | some x => some x
 | none => (s.schedLocal t).originQe.map fun q => (q,(s.schedLocal t).order)

/-- `sched_order_resolved` -/
def orderResolved (s : State m n) (t : Fin n) : State m n :=
 s.setLocal t { s.schedLocal t with originQe := none }

/-- The order of the element is resolved unless it is sustained. -/
def resolveOrder (s : State m n) (t : Fin n) (origin : Fin m) (sustain : Bool) : State m n :=
 if sustain then s else (s.modify origin (·.orderRelease 1)).orderResolved t

/-- `reorder_complete` on the origin. -/
def complete (s : State m n) (t : Fin n) (origin : Fin m) : State m n :=
 let r := (s.queue origin).reorderComplete
 (s.modify origin fun _ => r.1).setPc t (.handOn origin r.2)

/-- `ordered_queue_enq` past the status check and up to `reorder_complete`. The flag says whether
`reorder_complete` is called. `none` is the call that follows a `reorder_tail` that is `NULL`. -/
def orderedMove (s : State m n) (t : Fin n) (target origin : Fin m) (e : Entry m) :
 Option (State m n × Bool) :=
 let s := s.setLocal t { s.schedLocal t with enqCalled := true }
 if (s.queue origin).orderOut < e.order then
  some (s.modify origin fun o =>
   { o with reorder := reorderEnq { e with target := some target } o.reorder },false)
 else
  let s := (s.resolveOrder t origin e.sustain).modify target QueueEntry.wake
  if (s.queue origin).reorder = [] then
   some (s.modify target (·.add (e.buf::e.link)),false)
  else
   let r := reorderDeq target (s.queue origin).orderOut
    (reorderEnq { e with target := some target, sustain := true } (s.queue origin).reorder)
   if r.moved = [] then none
   else
    let s := s.modify target (·.add (r.moved.flatMap Entry.events))
    some (s.modify origin fun o =>
     { o with reorder := r.rest }.orderRelease (r.orderOut-o.orderOut),true)

/-- `ordered_queue_enq` past the status check. -/
def orderedQueueEnq (s : State m n) (t : Fin n) (target origin : Fin m) (e : Entry m) :
 Option (State m n) :=
 (s.orderedMove t target origin e).map fun r =>
  if r.2 then r.1.complete t origin else r.1.setPc t .idle

/-- A successful enqueue of `evs` to `q`, subject to the order of `src`, enters the books. -/
def record (s : State m n) (t : Fin n) (q : Fin m) (src : Option (Fin m)) (evs : List Event) :
 State m n :=
 let l := s.schedLocal t
 { s with ledger := { s.ledger with
   owned := fun ev => if ev ∈ evs then false else s.ledger.owned ev
   dest := fun ev => if ev ∈ evs then some q else s.ledger.dest ev
   src := fun ev => if ev ∈ evs then src else s.ledger.src ev
   tag := fun ev =>
    if ev ∈ evs then ⟨l.originQe,l.order,s.ledger.seq+evs.idxOf ev⟩ else s.ledger.tag ev
   seq := s.ledger.seq+evs.length } }

/-- `queue_enq` (one event) and `queue_enq_multi` -/
def enq (s : State m n) (t : Fin n) (q : Fin m) : List Event → Option (State m n)
 | [] => some s
 | ev::link =>
  match s.getQueueOrder t ev with
  | none =>
   if s.bad q then some s
   else some ((s.record t q none (ev::link)).modify q fun e => (e.add (ev::link)).wake)
  | some (origin,order) =>
   if s.bad origin ∨ s.bad q then some s
   else (s.record t q (some origin) (ev::link)).orderedQueueEnq t q origin
    ⟨order,some q,true,ev,link⟩

/-- `ordered_queue_enq` on the element in hand. When it fails the events are gone. -/
def enqMoving (s : State m n) (t : Fin n) (origin : Fin m) (e : Entry m) (keep : Bool) :
 Option (State m n) :=
 e.target.bind fun target =>
  if s.bad origin ∨ s.bad target then
   let l := s.schedLocal t
   some ((s.setLocal t (if keep then { l with originQe := some origin } else l)).setPc t .idle)
  else s.orderedQueueEnq t target origin e

/-- `release_order` as called by `odp_schedule_release_ordered` (`keep`) and by
`odp_schedule_release_context`; `alloc` says whether there is a placeholder. The context is put
aside first: nothing reads it before the call ends. -/
def release (s : State m n) (t : Fin n) (keep alloc : Bool) : State m n :=
 let l := s.schedLocal t
 match l.originQe with
 | none => s
 | some origin =>
  let o := s.queue origin
  let s' := s.setLocal t { l with originQe := none }
  if l.order ≤ o.orderOut then
   match o.reorder with
   | a::as =>
    if a.order = l.order then
     -- the elements of this order go to ordered_queue_enq, with the link of the first one
     -- overwritten by the next pointer of the last one, which is NULL by then
     (s'.modify origin fun o => { o with reorder := as.dropWhile (·.order == l.order) }).setPc t
      (.moving origin { a with sustain := false, link := [] } keep)
    else (s'.modify origin (·.orderRelease 1)).complete t origin
   | [] => (s'.modify origin (·.orderRelease 1)).complete t origin
  else
   match (if l.enqCalled then resolveLast l.order o.reorder else none) with
   | some reorder => s'.modify origin fun o => { o with reorder := reorder }
   | none =>
    if alloc then
     s'.modify origin fun o =>
      { o with reorder := reorderEnq (.placeholder l.order) o.reorder }
    else if keep then s else s'

/-- The books when `ev` is taken off `q`. -/
def recordTake (s : State m n) (q : Fin m) (ev : Event) : State m n :=
 { s with ledger := { s.ledger with
   owned := update s.ledger.owned ev true
   taken := update s.ledger.taken q (s.ledger.taken q++[s.ledger.tag ev]) } }

/-- `queue_deq_multi` of one event by the scheduler, which ends up in the context of an ordered
queue, and `queue_deq` on the other queues. -/
def take (s : State m n) (t : Fin n) (q : Fin m) : State m n :=
 let e := s.queue q
 if s.bad q then
  -- queue_destroy_finalize
  if e.status = .destroyed then s.modify q fun e => { e with status := .free } else s
 else match e.events with
  | [] => s.modify q QueueEntry.sleep
  | ev::evs =>
   let s := s.recordTake q ev
   if e.param.kind = .ordered then
    let sync := fun k => if k < e.param.lockCount then e.syncIn k else (s.schedLocal t).sync k
    let s := s.modify q fun e => { e with
     events := evs
     orderIn := e.orderIn+1
     syncIn := fun k => if k < e.param.lockCount then e.syncIn k+1 else e.syncIn k
     syncOf := update e.syncOf e.orderIn sync }
    { s with hdr := update s.hdr ev (some (q,e.orderIn)) }.setLocal t
      ⟨some q,e.orderIn,sync,false,fun _ => false⟩
   else
    { s.modify q fun e => { e with events := evs } with hdr := update s.hdr ev none }

/-- `odp_schedule_order_lock`: `none` while the thread has to wait. -/
def orderLock (s : State m n) (t : Fin n) (k : Nat) : Option (State m n) :=
 let l := s.schedLocal t
 match l.originQe with
 | none => some s
 | some q =>
  if (s.queue q).param.lockCount ≤ k then some s
  else if l.sync k = (s.queue q).syncOut k then
   some (s.setLocal t { l with inside := update l.inside k true })
  else none

def orderUnlock (s : State m n) (t : Fin n) (k : Nat) : State m n :=
 let l := s.schedLocal t
 match l.originQe with
 | none => s
 | some q =>
  if (s.queue q).param.lockCount ≤ k then s
  else (s.modify q fun e => { e with
   syncOut := update e.syncOut k (e.syncOut k+1)
   unlocked := update e.unlocked l.order
    (update (e.unlocked l.order) k true) }).setLocal t
   { l with inside := update l.inside k false }

/-- `odp_queue_create` on the slot `q` that its scan found. -/
def create (s : State m n) (q : Fin m) (param : Param) : State m n :=
 if maxOrderedLocks < param.lockCount then s.modify q fun e => { e with param := param }
 else s.modify q (·.init param)

def destroy (s : State m n) (q : Fin m) : State m n :=
 let e := s.queue q
 if e.status = .free ∨ e.status = .destroyed ∨ e.events ≠ [] ∨
  e.param.kind = .ordered ∧ e.reorder ≠ [] then s
 else s.modify q fun e =>
  { e with status := if e.status = .sched then .destroyed else .free }

end State

inductive Action (m n : Nat) where
 /-- `odp_queue_enq` (one event) and `odp_queue_enq_multi` -/
 | enq (t : Fin n) (q : Fin m) (evs : List Event)
 /-- `odp_schedule`, `odp_queue_deq` -/
 | take (t : Fin n) (q : Fin m)
 /-- `odp_schedule_release_ordered` (`keep`) and `odp_schedule_release_context` -/
 | release (t : Fin n) (keep alloc : Bool)
 | lock (t : Fin n) (k : Nat)
 | unlock (t : Fin n) (k : Nat)
 | create (t : Fin n) (q : Fin m) (param : Param)
 | destroy (t : Fin n) (q : Fin m)
 /-- the next step of a thread inside a call -/
 | step (t : Fin n)
 deriving DecidableEq, Repr

def Action.thread : Action m n → Fin n
 | .enq t _ _ | .take t _ | .release t _ _ | .lock t _ | .unlock t _ | .create t _ _
 | .destroy t _ | .step t => t

/-- The first step of a call. The scheduler releases a context before it takes the next event of
an ordered queue. -/
def State.call (s : State m n) : Action m n → Option (State m n)
 | .enq t q evs => s.enq t q (evs.take queueMultiMax)
 | .take t q =>
  if (s.queue q).param.kind = .ordered ∧ (s.schedLocal t).originQe ≠ none then none
  else some (s.take t q)
 | .release t keep alloc => some (s.release t keep alloc)
 | .lock t k => s.orderLock t k
 | .unlock t k => some (s.orderUnlock t k)
 | .create _ q param => if (s.queue q).status = .free then some (s.create q param) else none
 | .destroy _ q => some (s.destroy q)
 | .step _ => none

def step (s : State m n) (a : Action m n) : Option (State m n) :=
 match s.pc a.thread, a with
 | .moving origin e keep, .step t => s.enqMoving t origin e keep
 | .idle, a => s.call a
 | .moving _ _ _, _ => none

end Packages.OrderedQueue

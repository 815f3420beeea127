import Packages.Scheduler.Model

/-!
# Plain queues

The events of a queue hang together through the `next` fields of their headers, with `head` and
`tail` in the queue's entry. `queue_enq_multi` links its events before it takes the lock, one write
after the other; what happens under the lock is one step. A read through a `NULL` pointer has no
next state.
-/

namespace Packages.PlainQueue

open Function

open Scheduler (Status queueMultiMax)

abbrev Event := Nat

variable {κ τ : Type*}

/-- The fields of an `odp_buffer_hdr_t` that queues use; `κ` are the queues. -/
structure Hdr (κ : Type*) where
 next : Option Event
 originQe : Option κ
 order : Nat
 deriving DecidableEq,Repr

/-- A `queue_entry_t`; `ordered` is what `queue_is_ordered` says. -/
structure Queue where
 status : Status
 ordered : Bool
 head : Option Event
 tail : Option Event
 orderIn : Nat
 deriving DecidableEq,Repr

/-- Where a thread is: in `queue_enq` in front of the lock, in the loop of `queue_enq_multi`, or
behind it in front of the lock. -/
inductive Pc (κ : Type*)
 | idle
 | enq (q : κ) (ev : Event)
 | chain (q : κ) (evs : List Event) (num i : Nat)
 | enqMulti (q : κ) (evs : List Event) (num : Nat)
 deriving DecidableEq,Repr

/-- What a call returns; for `odp_queue_deq_multi` also what it stores to `events`. -/
inductive Ret
 | enq (rc : Int)
 | deq (ev : Option Event)
 | deqMulti (rc : Int) (events : List Event)
 deriving DecidableEq,Repr

/-- `owned` is not in the source: the event is with the application. -/
structure State (κ τ : Type*) where
 queue : κ → Queue
 hdr : Event → Hdr κ
 /-- `sched_local.origin_qe` -/
 originQe : τ → Option κ
 pc : τ → Pc κ
 ret : τ → Option Ret
 owned : Event → Bool

namespace State

variable [DecidableEq κ] [DecidableEq τ] (s : State κ τ)

def modify (q : κ) (f : Queue → Queue) : State κ τ :=
 { s with queue := update s.queue q (f (s.queue q)) }

def setNext (ev : Event) (next : Option Event) : State κ τ :=
 { s with hdr := update s.hdr ev { s.hdr ev with next := next } }

def setPc (t : τ) (pc : Pc κ) : State κ τ := { s with pc := update s.pc t pc }

def setOwned (evs : List Event) (b : Bool) : State κ τ :=
 { s with owned := fun ev => if ev ∈ evs then b else s.owned ev }

/-- The call of `t` returns. -/
def return_ (t : τ) (r : Ret) : State κ τ := { s.setPc t .idle with ret := update s.ret t (some r) }

/-- The origin that `get_queue_order` finds. -/
def getQueueOrder (t : τ) (ev : Event) : Option κ := (s.hdr ev).originQe.or (s.originQe t)

/-- The events from `first` to `last` go behind those of the queue: `queue_add` past its first line,
and the same lines in `queue_enq_multi`. -/
def append (q : κ) (first last : Event) : Option (State κ τ) :=
 match (s.queue q).head,(s.queue q).tail with
 | some _,some tail =>
  some ((s.setNext tail (some first)).modify q fun e => { e with tail := some last })
 | some _,none => none
 | none,_ => some (s.modify q fun e => { e with head := some first,tail := some last })

/-- An idle scheduled queue is put into scheduling; plain queues stay `ready`. -/
def wake (q : κ) : State κ τ :=
 s.modify q fun e => if e.status = .notsched then { e with status := .sched } else e

/-- `queue_enq` from the lock on. -/
def queueEnq (t : τ) (q : κ) (ev : Event) : Option (State κ τ) :=
 if (s.queue q).status.bad then some ((s.setOwned [ev] true).return_ t (.enq (-1)))
 else ((s.setNext ev none).append q ev ev).map fun s => (s.wake q).return_ t (.enq 0)

/-- An iteration of the loop of `queue_enq_multi` that chains the events, and what follows the loop
up to the lock. An ordered origin is the business of `ordered_queue_enq`. -/
def chain (t : τ) (q : κ) (evs : List Event) (num i : Nat) : Option (State κ τ) :=
 if i < num-1 then
  evs[i]?.map fun ev => (s.setNext ev evs[i+1]?).setPc t (.chain q evs num (i+1))
 else
  evs[num-1]?.bind fun tail => evs[0]?.bind fun first =>
   let s := s.setNext tail none
   match s.getQueueOrder t first with
   | some _ => none
   | none => some (s.setPc t (.enqMulti q evs num))

/-- `queue_enq_multi` from the lock on. -/
def queueEnqMulti (t : τ) (q : κ) (evs : List Event) (num : Nat) : Option (State κ τ) :=
 if (s.queue q).status.bad then some ((s.setOwned (evs.take num) true).return_ t (.enq (-1)))
 else
  evs[0]?.bind fun first => evs[num-1]?.bind fun tail =>
   (s.append q first tail).map fun s => (s.wake q).return_ t (.enq num)

/-- The event leaves the queue: it gets an origin and an order if the queue is ordered. -/
def unlink (q : κ) (ev : Event) : State κ τ :=
 if (s.queue q).ordered then
  { s with hdr := update s.hdr ev ⟨none,some q,(s.queue q).orderIn⟩ }.modify q fun e =>
    { e with orderIn := e.orderIn+1 }
 else { s with hdr := update s.hdr ev { s.hdr ev with next := none,originQe := none } }

def setHead (q : κ) (head : Option Event) : State κ τ :=
 s.modify q fun e => { e with head := head,tail := if head = none then none else e.tail }

def sleep (q : κ) : State κ τ :=
 s.modify q fun e => if e.status = .sched then { e with status := .notsched } else e

def queueDeq (t : τ) (q : κ) : State κ τ :=
 match (s.queue q).head with
 | none => (s.sleep q).return_ t (.deq none)
 | some ev =>
  let next := (s.hdr ev).next
  (((s.unlink q ev).setHead q next).setOwned [ev] true).return_ t (.deq (some ev))

/-- The loop of `queue_deq_multi`: the events taken and the new head. -/
def deqLoop (q : κ) : Nat → Option Event → State κ τ → State κ τ × List Event × Option Event
 | num+1,some ev,s =>
  let r := deqLoop q num (s.hdr ev).next (s.unlink q ev)
  (r.1,ev::r.2.1,r.2.2)
 | _,head,s => (s,[],head)

def queueDeqMulti (t : τ) (q : κ) (num : Int) : State κ τ :=
 if (s.queue q).status.bad then s.return_ t (.deqMulti (-1) [])
 else match (s.queue q).head with
  | none => (s.sleep q).return_ t (.deqMulti 0 [])
  | some ev =>
   let r := deqLoop q num.toNat (some ev) s
   ((r.1.setHead q r.2.2).setOwned r.2.1 true).return_ t (.deqMulti r.2.1.length r.2.1)

end State

inductive Action (κ τ : Type*)
 /-- `odp_queue_enq` -/
 | enq (t : τ) (q : κ) (ev : Event)
 /-- `odp_queue_enq_multi` -/
 | enqMulti (t : τ) (q : κ) (evs : List Event)
 /-- `odp_queue_deq` -/
 | deq (t : τ) (q : κ)
 /-- `odp_queue_deq_multi` -/
 | deqMulti (t : τ) (q : κ) (num : Int)
 /-- the next step of a thread inside a call -/
 | step (t : τ)
 deriving DecidableEq,Repr

def Action.thread : Action κ τ → τ
 | .enq t _ _ | .enqMulti t _ _ | .deq t _ | .deqMulti t _ _ | .step t => t

variable [DecidableEq κ] [DecidableEq τ]

/-- The first step of a call. -/
def State.call (s : State κ τ) : Action κ τ → Option (State κ τ)
 | .enq t q ev =>
  match s.getQueueOrder t ev with
  | some _ => none
  | none => some ((s.setOwned [ev] false).setPc t (.enq q ev))
 | .enqMulti t q evs =>
  let num := min evs.length queueMultiMax
  if num = 0 then some (s.return_ t (.enq 0))
  else some ((s.setOwned (evs.take num) false).setPc t (.chain q evs num 0))
 | .deq t q => some (s.queueDeq t q)
 | .deqMulti t q num => some (s.queueDeqMulti t q (min num queueMultiMax))
 | .step _ => none

def step (s : State κ τ) (a : Action κ τ) : Option (State κ τ) :=
 match s.pc a.thread,a with
 | .idle,a => s.call a
 | .enq q ev,.step t => s.queueEnq t q ev
 | .chain q evs num i,.step t => s.chain t q evs num i
 | .enqMulti q evs num,.step t => s.queueEnqMulti t q evs num
 | _,_ => none

end Packages.PlainQueue

import Packages.Scheduler.Model

/-!
# The reorder list of an ordered queue

An event enqueued out of order waits on the reorder list of the queue its context came from.
`reorder_enq` sorts an element in, `reorder_deq` takes off what can go to one target queue,
`reorder_complete` looks for the next element to hand on, and `order_release` counts resolved
orders. The 64-bit orders are naturals here.
-/

namespace Packages.OrderedQueue

open Scheduler (Status maxOrderedLocks)

abbrev Event := Nat

/-- An element of a reorder list: a buffer header with its `order`, `target_qe`, `flags.sustain`
and the events chained to it through `link`. A placeholder has no target. -/
structure Entry (m : Nat) where
 order : Nat
 target : Option (Fin m)
 sustain : Bool
 buf : Event
 link : List Event
 deriving DecidableEq, Repr

variable {m n : Nat}

namespace Entry

def placeholder (order : Nat) : Entry m := ⟨order,none,false,0,[]⟩

/-- An element without the sustain flag resolves its order. -/
def releaseCount (e : Entry m) : Nat := if e.sustain then 0 else 1

/-- The events that the element brings to its target. -/
def events (e : Entry m) : List Event :=
 match e.target with
 | some _ => e.buf::e.link
 | none => []

end Entry

inductive Kind where
 | plain
 /-- scheduled, atomic or parallel -/
 | scheduled
 | ordered
 deriving DecidableEq, Repr

structure Param where
 kind : Kind
 lockCount : Nat
 deriving DecidableEq, Repr

/-- A `queue_entry_t`. `syncOf` and `unlocked` are not in the source: they remember the `sync[k]`
that each order got when it was dequeued, and whether its holder has unlocked `k`. -/
structure QueueEntry (m : Nat) where
 status : Status
 param : Param
 events : List Event
 orderIn : Nat
 orderOut : Nat
 reorder : List (Entry m)
 syncIn : Nat → Nat
 syncOut : Nat → Nat
 syncOf : Nat → Nat → Nat
 unlocked : Nat → Nat → Bool

/-- `reorder_enq`: behind all elements of the same or a smaller order. -/
def reorderEnq (e : Entry m) : List (Entry m) → List (Entry m)
 | [] => [e]
 | a::l => if a.order ≤ e.order then a::reorderEnq e l else e::a::l

/-- What `reorder_deq` finds: the elements for the target queue, the list behind them without the
placeholders it passed, and `order_out` with the orders resolved on the way. -/
structure Deq (m : Nat) where
 moved : List (Entry m)
 rest : List (Entry m)
 orderOut : Nat
 deriving DecidableEq, Repr

def reorderDeq (queue : Fin m) (orderOut : Nat) : List (Entry m) → Deq m
 | [] => ⟨[],[],orderOut⟩
 | a::l =>
  if a.order ≤ orderOut then
   match a.target with
   | some target =>
    if target = queue then
     let r := reorderDeq queue (orderOut+a.releaseCount) l
     { r with moved := a::r.moved }
    else ⟨[],a::l,orderOut⟩
   | none => reorderDeq queue (orderOut+1) l
  else ⟨[],a::l,orderOut⟩

namespace QueueEntry

/-- `order_release`. It runs under the queue's lock; the atomic updates of `sync_out` by
`odp_schedule_order_unlock` concern orders that are not resolved, for which it does nothing. -/
def orderRelease (o : QueueEntry m) (count : Nat) : QueueEntry m :=
 { o with
   orderOut := o.orderOut+count
   syncOut := fun k =>
    if k < o.param.lockCount ∧ o.syncOut k < o.orderOut+count then o.orderOut+count
    else o.syncOut k }

/-- The loop of `reorder_complete`. The first list are the sustained elements passed, to which
`reorder_head` still points: resolving a placeholder moves `reorder_head` behind it. -/
def completeLoop (o : QueueEntry m) (passed : List (Entry m)) :
 List (Entry m) → QueueEntry m × Option (Entry m)
 | [] => ({ o with reorder := passed },none)
 | a::l =>
  if a.order ≤ o.orderOut then
   match a.target, a.sustain with
   | none, _ => completeLoop (o.orderRelease 1) [] l
   | some _, true => completeLoop o (passed++[a]) l
   | some _, false =>
    -- the head of the list is handed back, whichever element stopped the loop
    match passed with
    | [] => ({ o with reorder := l },some a)
    | b::bs => ({ o with reorder := bs++a::l },some b)
  else ({ o with reorder := passed++a::l },none)

/-- `reorder_complete`: the element handed back has left the list. -/
def reorderComplete (o : QueueEntry m) : QueueEntry m × Option (Entry m) :=
 o.completeLoop [] o.reorder

/-- `queue_add`, `queue_add_list` and `queue_add_chain` -/
def add (e : QueueEntry m) (evs : List Event) : QueueEntry m := { e with events := e.events++evs }

/-- An enqueue puts an idle scheduled queue back into scheduling. -/
def wake (e : QueueEntry m) : QueueEntry m :=
 if e.status = .notsched then { e with status := .sched } else e

/-- The queue finds itself empty when it is dequeued from. -/
def sleep (e : QueueEntry m) : QueueEntry m :=
 if e.status = .sched then { e with status := .notsched } else e

/-- `queue_init` and the status that `odp_queue_create` sets. The counters of the slot stay as they
are. -/
def init (e : QueueEntry m) (param : Param) : QueueEntry m :=
 { e with
   status := if param.kind = .plain then .ready else .notsched
   param := param
   events := []
   reorder := [] }

end QueueEntry

/-- The last element of the order, as `release_order` finds it, loses its sustain flag. -/
def resolveLast (order : Nat) (l : List (Entry m)) : Option (List (Entry m)) :=
 let upTo := l.takeWhile (·.order ≤ order)
 match upTo.getLast? with
 | some a =>
  if a.order = order then
   some (upTo.dropLast++{ a with sustain := false }::l.dropWhile (·.order ≤ order))
  else none
 | none => none

end Packages.OrderedQueue

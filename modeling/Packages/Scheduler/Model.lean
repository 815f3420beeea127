import Packages.Lib.Transition

/-!
# The scheduler of atomic and parallel queues

Each scheduled queue owns one command event; scheduling the queue puts it on the priority queue of
the queue's priority, and a thread that takes it off dequeues from the queue it names. The model has
the queue table (`odp_queue.c`), the priority queues and the threads' `sched_local`
(`odp_schedule.c`). A step of a thread is what it does under one lock. Packet input polling touches
none of this. Contexts of ordered queues are not entered here, so `odp_schedule_release_context` is
`odp_schedule_release_atomic`.
-/

namespace Packages.Scheduler

-- ODP_CONFIG_SCHED_PRIOS
abbrev schedPrios : Nat := 8
-- QUEUES_PER_PRIO
abbrev queuesPerPrio : Nat := 4
-- MAX_DEQ
def maxDeq : Nat := 4
-- QUEUE_MULTI_MAX
def queueMultiMax : Nat := 8
-- ODP_CONFIG_MAX_ORDERED_LOCKS_PER_QUEUE
def maxOrderedLocks : Nat := 2
-- ODP_SCHED_GROUP_ALL
def groupAll : Nat := 0

inductive Status where
 | free
 | destroyed
 | ready
 | notsched
 | sched
 deriving DecidableEq, Repr

/-- The test `status < QUEUE_STATUS_READY`. -/
def Status.bad : Status → Bool
 | .free | .destroyed => true
 | .ready | .notsched | .sched => false

inductive Sync where
 | parallel
 | atomic
 deriving DecidableEq, Repr

/-- An index into `sched->pri_queue`. -/
abbrev PriQueue := Fin schedPrios × Fin queuesPerPrio

/-- A command event, named by its buffer in the scheduler's pool. -/
abbrev CmdEvent := Nat

structure Param where
 prio : Fin schedPrios
 sync : Sync
 group : Nat
 lockCount : Nat
 deriving DecidableEq, Repr

/-- A `queue_entry_t` of a scheduled queue. -/
structure QueueEntry (ε : Type) where
 status : Status
 param : Param
 events : List ε
 priQueue : Option PriQueue
 cmdEv : Option CmdEvent
 /-- How often the slot has been taken by `odp_queue_create` (not in the source). -/
 gen : Nat
 deriving DecidableEq, Repr

/-- The `sched_local` of a thread. -/
structure Local (ε : Type) (m : Nat) where
 /-- `buf_hdr[index]`, ..., `buf_hdr[index + num - 1]` -/
 bufs : List ε
 qe : Option (Fin m)
 /-- The `gen` of `qe` when `bufs` were dequeued (not in the source). -/
 gen : Nat
 priQueue : Option PriQueue
 cmdEv : Option CmdEvent
 pause : Bool
 /-- The events and the queue handle that the last call returned. -/
 out : List ε
 outQueue : Option (Fin m)
 deriving DecidableEq, Repr

/-- Where a thread is. `i`, `j` and `max` are the loop variables and `max_num` of `schedule`. -/
inductive Pc (m : Nat) where
 | idle
 /-- in `queue_enq` or `queue_enq_multi`, past the lock: about to call `schedule_queue` -/
 | scheduleQueue (q : Fin m)
 /-- in `odp_queue_create`, past the lock: about to call `schedule_queue_init` -/
 | initAlloc (q : Fin m)
 /-- in `schedule_queue_init`, in front of `pri_set_queue` -/
 | initPri (q : Fin m)
 /-- in `schedule`, at the head of the loop over the priorities -/
 | prio (i max : Nat)
 /-- in `schedule`, at the head of the loop over the queues of one priority -/
 | scan (i : Fin schedPrios) (j max : Nat)
 /-- about to call `odp_queue_deq(pri_q)` -/
 | deqPri (i : Fin schedPrios) (j max : Nat)
 /-- the command event `ev` in hand -/
 | gotCmd (i : Fin schedPrios) (j max : Nat) (ev : CmdEvent)
 /-- about to call `queue_destroy_finalize(qe)` -/
 | finalize (i : Fin schedPrios) (j max : Nat) (ev : CmdEvent) (q : Fin m)
 /-- events of a parallel queue dequeued, about to continue scheduling the queue -/
 | contPri (priQ : PriQueue) (ev : CmdEvent)
 deriving DecidableEq, Repr

/-- A table of `m` queues and `n` threads. -/
structure State (ε : Type) (m n : Nat) where
 queue : Fin m → QueueEntry ε
 /-- the events on the priority queues -/
 priQueue : PriQueue → List CmdEvent
 priMask : PriQueue → Bool
 priCount : PriQueue → Nat
 /-- the buffers handed out by the scheduler's pool -/
 used : CmdEvent → Bool
 /-- `sched_cmd->qe` of the buffer -/
 cmdQe : CmdEvent → Option (Fin m)
 grpMask : Nat → Fin n → Bool
 schedLocal : Fin n → Local ε m
 pc : Fin n → Pc m

variable {ε : Type} {m n : Nat}

namespace QueueEntry

/-- `queue_init`, with the status that `odp_queue_create` then sets. -/
def init (e : QueueEntry ε) (param : Param) : QueueEntry ε where
 status := .notsched
 param := param
 events := []
 priQueue := none
 cmdEv := none
 gen := e.gen+1

/-- `queue_deq_multi`: `none` stands for the return value -1. -/
def deqMulti (e : QueueEntry ε) (num : Nat) : Option (List ε) × QueueEntry ε :=
 if e.status.bad then (none,e)
 else match e.events with
  | [] => (some [],if e.status = .sched then { e with status := .notsched } else e)
  | _ => (some (e.events.take num),{ e with events := e.events.drop num })

end QueueEntry

namespace State

def setPc (s : State ε m n) (t : Fin n) (pc : Pc m) : State ε m n :=
 { s with pc := Function.update s.pc t pc }

def setLocal (s : State ε m n) (t : Fin n) (l : Local ε m) : State ε m n :=
 { s with schedLocal := Function.update s.schedLocal t l }

def setQueue (s : State ε m n) (q : Fin m) (e : QueueEntry ε) : State ε m n :=
 { s with queue := Function.update s.queue q e }

def priIdQueue (q : Fin m) : Fin queuesPerPrio := ⟨q.val%queuesPerPrio,Nat.mod_lt _ (by decide)⟩

/-- The index `[i][id]` that thread `t` looks at in round `j`. -/
def scanQueue (t : Fin n) (i : Fin schedPrios) (j : Nat) : PriQueue :=
 (i,⟨(t.val+j)%queuesPerPrio,Nat.mod_lt _ (by decide)⟩)

/-- `odp_queue_enq` on a priority queue. -/
def enqPri (s : State ε m n) (priQ : PriQueue) (ev : CmdEvent) : State ε m n :=
 { s with priQueue := Function.update s.priQueue priQ (s.priQueue priQ++[ev]) }

def priSet (s : State ε m n) (priQ : PriQueue) : State ε m n :=
 { s with
   priMask := Function.update s.priMask priQ true
   priCount := Function.update s.priCount priQ (s.priCount priQ+1) }

def priClr (s : State ε m n) (priQ : PriQueue) : State ε m n :=
 let count := s.priCount priQ-1
 { s with
   priMask := if count = 0 then Function.update s.priMask priQ false else s.priMask
   priCount := Function.update s.priCount priQ count }

/-- `schedule_queue_destroy`, called with the queue's lock held and its status set to `FREE`. -/
def scheduleQueueDestroy (s : State ε m n) (q : Fin m) : State ε m n :=
 let e := s.queue q
 let s := match e.cmdEv with
  | some ev => { s with used := Function.update s.used ev false }
  | none => s
 (s.priClr (e.param.prio,priIdQueue q)).setQueue q { e with cmdEv := none, priQueue := none }

/-- `queue_enq` and `queue_enq_multi` under the lock. -/
def enqMulti (s : State ε m n) (t : Fin n) (q : Fin m) (evs : List ε) : State ε m n :=
 let e := s.queue q
 if e.status.bad then s
 else if e.status = .notsched then
  (s.setQueue q { e with events := e.events++evs, status := .sched }).setPc t (.scheduleQueue q)
 else s.setQueue q { e with events := e.events++evs }

/-- `odp_queue_create` on the slot `q` that its scan found. -/
def create (s : State ε m n) (t : Fin n) (q : Fin m) (param : Param) : State ε m n :=
 if maxOrderedLocks < param.lockCount then s.setQueue q { s.queue q with param := param }
 else (s.setQueue q ((s.queue q).init param)).setPc t (.initAlloc q)

def destroy (s : State ε m n) (q : Fin m) : State ε m n :=
 let e := s.queue q
 if e.status = .free ∨ e.status = .destroyed ∨ e.events ≠ [] then s
 else if e.status = .ready then s.setQueue q { e with status := .free }
 else if e.status = .notsched then (s.setQueue q { e with status := .free }).scheduleQueueDestroy q
 else s.setQueue q { e with status := .destroyed }

def releaseAtomic (s : State ε m n) (t : Fin n) : State ε m n :=
 let l := s.schedLocal t
 match l.priQueue, l.cmdEv, l.bufs with
 | some priQ, some ev, [] => (s.enqPri priQ ev).setLocal t { l with priQueue := none }
 | _, _, _ => s

end State

def Local.copyEvents (l : Local ε m) (max : Nat) : Local ε m :=
 { l with out := l.bufs.take max, outQueue := l.qe, bufs := l.bufs.drop max }

namespace State

/-- `schedule`, up to the loop over the priorities. -/
def schedule (s : State ε m n) (t : Fin n) (max : Nat) : State ε m n :=
 let l := s.schedLocal t
 if l.bufs ≠ [] then s.setLocal t (l.copyEvents max)
 else
  let s := s.releaseAtomic t
  let s := s.setLocal t { s.schedLocal t with out := [], outQueue := none }
  if l.pause then s else s.setPc t (.prio 0 max)

/-- The body of the inner loop of `schedule` after the command event `ev` of queue `q` was taken
off `priQ`. -/
def runCmd (s : State ε m n) (t : Fin n) (i : Fin schedPrios) (j max : Nat) (ev : CmdEvent)
 (q : Fin m) : State ε m n :=
 let priQ := scanQueue t i j
 let e := s.queue q
 if groupAll < e.param.group ∧ s.grpMask e.param.group t = false then
  -- this thread is not eligible for work from this queue
  (s.enqPri priQ ev).setPc t (.scan i (j+1) max)
 else match e.deqMulti maxDeq with
  | (none,_) => s.setPc t (.finalize i j max ev q)
  | (some [],e') => (s.setQueue q e').setPc t (.scan i (j+1) max)
  | (some bufs,e') =>
   let l := { s.schedLocal t with bufs := bufs, qe := some q, gen := e.gen }
   let l := l.copyEvents max
   match e.param.sync with
   | .atomic =>
    ((s.setQueue q e').setLocal t { l with priQueue := some priQ, cmdEv := some ev }).setPc t
     .idle
   | .parallel => ((s.setQueue q e').setLocal t l).setPc t (.contPri priQ ev)

/-- `queue_destroy_finalize` -/
def destroyFinalize (s : State ε m n) (q : Fin m) : State ε m n :=
 if (s.queue q).status = .destroyed then
  (s.setQueue q { s.queue q with status := .free }).scheduleQueueDestroy q
 else s

/-- `odp_buffer_alloc` on the scheduler's pool, which hands out `choice`, and the rest of
`schedule_queue_init` up to the mask lock. -/
def initAlloc (s : State ε m n) (t : Fin n) (q : Fin m) : Option CmdEvent → Option (State ε m n)
 | none => some (s.setPc t .idle)
 | some ev =>
  if s.used ev then none
  else some (({ s with
   used := Function.update s.used ev true
   cmdQe := Function.update s.cmdQe ev (some q) }.setQueue q
    { s.queue q with cmdEv := some ev }).setPc t (.initPri q))

/-- The end of `schedule_queue_init`. -/
def initPri (s : State ε m n) (t : Fin n) (q : Fin m) : State ε m n :=
 let priQ := ((s.queue q).param.prio,priIdQueue q)
 ((s.priSet priQ).setQueue q { s.queue q with priQueue := some priQ }).setPc t .idle

/-- A step of a thread inside a call. `choice` is what the pool hands out, if it is asked. -/
def advance (s : State ε m n) (t : Fin n) (choice : Option CmdEvent) : Option (State ε m n) :=
 match s.pc t with
 | .idle => none
 | .scheduleQueue q =>
  match (s.queue q).priQueue, (s.queue q).cmdEv with
  | some priQ, some ev => some ((s.enqPri priQ ev).setPc t .idle)
  | _, _ => none
 | .initAlloc q => s.initAlloc t q choice
 | .initPri q => some (s.initPri t q)
 | .prio i max =>
  if h : i < schedPrios then
   if ∀ id, s.priMask (⟨i,h⟩,id) = false then some (s.setPc t (.prio (i+1) max))
   else some (s.setPc t (.scan ⟨i,h⟩ 0 max))
  else some (s.setPc t .idle)
 | .scan i j max =>
  if queuesPerPrio ≤ j then some (s.setPc t (.prio (i+1) max))
  else if s.priMask (scanQueue t i j) then some (s.setPc t (.deqPri i j max))
  else some (s.setPc t (.scan i (j+1) max))
 | .deqPri i j max =>
  match s.priQueue (scanQueue t i j) with
  | [] => some (s.setPc t (.scan i (j+1) max))
  | ev::evs =>
   some ({ s with priQueue := Function.update s.priQueue (scanQueue t i j) evs }.setPc t
    (.gotCmd i j max ev))
 | .gotCmd i j max ev => (s.cmdQe ev).map (s.runCmd t i j max ev)
 | .finalize i j max _ q => some ((s.destroyFinalize q).setPc t (.scan i (j+1) max))
 | .contPri priQ ev => some ((s.enqPri priQ ev).setPc t .idle)

end State

inductive Action (ε : Type) (m n : Nat) where
 /-- `odp_queue_enq` -/
 | enq (t : Fin n) (q : Fin m) (ev : ε)
 /-- `odp_queue_enq_multi` -/
 | enqMulti (t : Fin n) (q : Fin m) (evs : List ε)
 /-- `odp_queue_create` -/
 | create (t : Fin n) (q : Fin m) (param : Param)
 /-- `odp_queue_destroy` -/
 | destroy (t : Fin n) (q : Fin m)
 /-- `odp_schedule` (with `max` 1) and `odp_schedule_multi` -/
 | schedule (t : Fin n) (max : Nat)
 /-- `odp_schedule_release_atomic` and `odp_schedule_release_context` -/
 | release (t : Fin n)
 /-- `odp_schedule_pause` and `odp_schedule_resume` -/
 | pause (t : Fin n) (on : Bool)
 /-- the next step of a thread inside a call -/
 | step (t : Fin n) (choice : Option CmdEvent)
 deriving DecidableEq, Repr

/-- The thread that acts. -/
def Action.thread : Action ε m n → Fin n
 | .enq t _ _ | .enqMulti t _ _ | .create t _ _ | .destroy t _ | .schedule t _ | .release t
 | .pause t _ | .step t _ => t

/-- What a call does up to its first lock being released. -/
def State.call (s : State ε m n) : Action ε m n → Option (State ε m n)
 | .enq t q ev => some (s.enqMulti t q [ev])
 | .enqMulti t q evs =>
  if evs = [] then some s else some (s.enqMulti t q (evs.take queueMultiMax))
 | .create t q param => if (s.queue q).status = .free then some (s.create t q param) else none
 | .destroy _ q => some (s.destroy q)
 | .schedule t max => some (s.schedule t max)
 | .release t => some (s.releaseAtomic t)
 | .pause t on => some (s.setLocal t { s.schedLocal t with pause := on })
 | .step _ _ => none

def step (s : State ε m n) : Action ε m n → Option (State ε m n)
 | .step t choice => s.advance t choice
 | a => if s.pc a.thread = .idle then s.call a else none

/-- Callers name a queue only when `odp_queue_create` has returned its handle: they do not touch
a queue that is still being created. -/
def CallerOk (s : State ε m n) : Action ε m n → Prop
 | .enq _ q _ | .enqMulti _ q _ | .destroy _ q =>
  (s.queue q).status = .notsched → (s.queue q).priQueue.isSome = true
 | _ => True

instance (s : State ε m n) : ∀ a, Decidable (CallerOk s a)
 | .enq _ q _ | .enqMulti _ q _ | .destroy _ q =>
  inferInstanceAs (Decidable ((s.queue q).status = .notsched →
   (s.queue q).priQueue.isSome = true))
 | .create _ _ _ | .schedule _ _ | .release _ | .pause _ _ | .step _ _ =>
  inferInstanceAs (Decidable True)

/-- The scheduler after `odp_schedule_init_global`: every slot free, nobody inside a call. -/
def Init (s : State ε m n) : Prop :=
 (∀ q, (s.queue q).status = .free ∧ (s.queue q).events = [] ∧ (s.queue q).priQueue = none ∧
  (s.queue q).cmdEv = none) ∧
 (∀ priQ, s.priQueue priQ = [] ∧ s.priMask priQ = false ∧ s.priCount priQ = 0) ∧
 (∀ ev, s.used ev = false) ∧
 (∀ t, s.pc t = .idle ∧ (s.schedLocal t).bufs = [] ∧ (s.schedLocal t).qe = none ∧
  (s.schedLocal t).priQueue = none)

end Packages.Scheduler

import Packages.Lib.Transition

/-!
# The timer pool of `odp_timer.c`

One timer pool, the callers of the timer API and the notification thread. A call on a timer is one
step, except `odp_timer_free`, which takes the timer's lock and then the pool's; the notification
thread takes one step for each timer it looks at and one more to post a timeout. The sources are
built without `ODP_ATOMIC_U128`, and `ODP_ASSERT` is on, as `configure.ac` has it.
-/

namespace Packages.TimerPool

open Function

/-- `odp_queue_t`; while a timer is free the same word is the next free index. -/
abbrev QueueHdl := Nat
/-- A non-null `odp_buffer_t` / `odp_event_t`. -/
abbrev Event := Nat
abbrev Thread := Nat

/-- `TMO_UNUSED`: the timer is not allocated. -/
def tmoUnused : Nat := 2^64-1
/-- `TMO_INACTIVE`: the bit of an expiration tick that marks an inactive timer. -/
def tmoInactive : Nat := 2^63
def queueInvalid : QueueHdl := 0
def indexBits : Nat := 24

/-- `tick_buf_t`; `none` is `ODP_BUFFER_INVALID`. -/
structure TickBuf where
 expTck : Nat
 tmoBuf : Option Event
 deriving DecidableEq, Repr

/-- `odp_timer`; `userPtr = 0` is `NULL`. -/
structure OdpTimer where
 userPtr : Nat
 queue : QueueHdl
 deriving DecidableEq, Repr

structure Pool where
 curTick : Nat
 minRelTck : Nat
 maxRelTck : Nat
 numTimers : Nat
 tickBuf : Nat → TickBuf
 timers : Nat → OdpTimer
 highWm : Nat
 numAlloc : Nat
 firstFree : Nat
 tpIdx : Nat

structure TimeoutHdr where
 expiration : Nat
 userPtr : Nat
 timer : Nat
 deriving DecidableEq, Repr

/-- What `odp_timer_set_abs` and `odp_timer_set_rel` return. -/
inductive SetRet where
 | success
 | tooEarly
 | tooLate
 | noEvent
 deriving DecidableEq, Repr

/-- How `timer_reset` re-arms a timer that keeps its buffer: `__ARM_ARCH` exchanges the
tick without the lock, every other build takes the lock. -/
inductive ResetVariant where
 | armArch
 | withLock
 deriving DecidableEq, Repr

/-- `odp_timer_pool_param_t`, as far as the pool reads it. -/
structure PoolParam where
 resNs : Nat
 minTmo : Nat
 maxTmo : Nat
 numTimers : Nat
 deriving DecidableEq, Repr

/-- The pool `odp_timer_pool_new` sets up. -/
def odpTimerPoolNew (tpIdx : Nat) (param : PoolParam) : Pool where
 curTick := 0
 minRelTck := param.minTmo/param.resNs
 maxRelTck := param.maxTmo/param.resNs
 numTimers := param.numTimers
 tickBuf := fun _ => ⟨tmoUnused,none⟩
 timers := fun i => ⟨0,i+1⟩
 highWm := 0
 numAlloc := 0
 firstFree := 0
 tpIdx := tpIdx

/-- `handle_to_idx`; `none` is the abort on an index the pool never allocated. -/
def handleToIdx (hdl : Nat) (tp : Pool) : Option Nat :=
 let idx := hdl &&& (2^indexBits-1)
 if idx < tp.highWm then some idx else none

/-- `tp_idx_to_handle`; `none` is the failed assertion on the index. -/
def tpIdxToHandle (tp : Pool) (idx : Nat) : Option Nat :=
 if idx < 2^indexBits then some (tp.tpIdx <<< indexBits ||| idx) else none

namespace Pool

def setTickBuf (tp : Pool) (idx : Nat) (tb : TickBuf) : Pool :=
 { tp with tickBuf := update tp.tickBuf idx tb }

def setTimer (tp : Pool) (idx : Nat) (tim : OdpTimer) : Pool :=
 { tp with timers := update tp.timers idx tim }

end Pool

/-- `timer_alloc` under the pool lock: the handle (`none` is `ODP_TIMER_INVALID`) and the
pool. The outer `none` is a failed assertion. -/
def timerAlloc (tp : Pool) (queue : QueueHdl) (userPtr : Nat) :
 Option (Option Nat × Pool) :=
 if tp.numAlloc < tp.numTimers then
  let idx := tp.firstFree
  let numAlloc := tp.numAlloc+1
  let tp' := { tp with
   numAlloc := numAlloc
   firstFree := (tp.timers idx).queue
   highWm := if numAlloc > tp.highWm then numAlloc else tp.highWm }
  -- timer_init
  let tp' := (tp'.setTimer idx ⟨userPtr,queue⟩).setTickBuf idx ⟨tmoInactive,none⟩
  if tp.firstFree = tp.numTimers then none else
   (tpIdxToHandle tp idx).map fun hdl => (some hdl,tp')
 else some (none,tp)

/-- `timer_cancel`: the buffer the timer held, and the timer without it. -/
def timerCancel (tp : Pool) (idx newState : Nat) : Option Event × Pool :=
 ((tp.tickBuf idx).tmoBuf,tp.setTickBuf idx ⟨newState,none⟩)

/-- The second half of `timer_free`: `timer_fini`, then the timer is put in front of the
free list under the pool lock. -/
def timerFreeInsert (tp : Pool) (idx : Nat) : Pool :=
 { tp.setTimer idx ⟨0,tp.firstFree⟩ with
   firstFree := idx
   numAlloc := tp.numAlloc-1 }

/-- `timer_reset` without a new buffer. -/
def timerResetKeep (v : ResetVariant) (tp : Pool) (idx absTck : Nat) : Bool × Pool :=
 let tb := tp.tickBuf idx
 match v with
 | .armArch =>
  if tb.expTck &&& tmoInactive = 0 then (true,tp.setTickBuf idx { tb with expTck := absTck })
  -- the inactive tick is swapped back in
  else (false,tp)
 | .withLock =>
  if tb.tmoBuf.isSome then (true,tp.setTickBuf idx { tb with expTck := absTck })
  else (false,tp)

/-- `timer_reset` with a new buffer, from the exchange on: the buffer it replaces. -/
def timerResetSwap (tp : Pool) (idx absTck : Nat) (tmoBuf : Event) :
 Option Event × Pool :=
 ((tp.tickBuf idx).tmoBuf,tp.setTickBuf idx ⟨absTck,some tmoBuf⟩)

/-- `timer_expire` up to the release of the timer's lock: the grabbed buffer with its
expiration tick, if the timer is due and has one. -/
def timerExpireGrab (tp : Pool) (idx tick : Nat) : Option (Event × Nat) × Pool :=
 let tb := tp.tickBuf idx
 if tb.expTck ≤ tick then
  match tb.tmoBuf with
  | some tmoBuf => (some (tmoBuf,tb.expTck),tp.setTickBuf idx ⟨tb.expTck ||| tmoInactive,none⟩)
  | none => (none,tp)
 else (none,tp)

/-- The range check of `odp_timer_set_abs`; sums of ticks wrap at 64 bits. -/
def setAbsCheck (tp : Pool) (absTck : Nat) : SetRet :=
 if absTck < (tp.curTick+tp.minRelTck)%2^64 then .tooEarly
 else if absTck > (tp.curTick+tp.maxRelTck)%2^64 then .tooLate
 else .success

/-- The range check of `odp_timer_set_rel`. -/
def setRelCheck (tp : Pool) (relTck : Nat) : SetRet :=
 if relTck < tp.minRelTck then .tooEarly
 else if relTck > tp.maxRelTck then .tooLate
 else .success

-- The state of a run

/-- A timeout the notification thread has posted. `serial` is the hand-over it ends, and
`freed` says whether the timer was freed between the grab and the post. -/
structure Delivery where
 serial : Nat
 event : Event
 queue : QueueHdl
 freed : Bool
 deriving DecidableEq, Repr

/-- The books on successful sets with an event, for the statements only: the code never
reads them. Hand-overs are numbered in the order they happen. -/
structure Ledger where
 issued : Nat
 /-- The hand-over whose event the timer holds. -/
 slot : Nat → Option Nat
 /-- The event of the hand-over. -/
 event : Nat → Event
 /-- The destination queue of the timer at the hand-over. -/
 dest : Nat → QueueHdl
 returned : List Nat
 delivered : List Delivery

namespace Ledger

/-- The event in the timer goes back to a caller. -/
def giveBack (b : Ledger) (idx : Nat) : Ledger :=
 { b with
   slot := update b.slot idx none
   returned := (b.slot idx).toList++b.returned }

/-- A new event goes into the timer, in exchange for the one it holds. -/
def handOver (b : Ledger) (idx : Nat) (ev : Event) (queue : QueueHdl) : Ledger :=
 { b.giveBack idx with
   issued := b.issued+1
   slot := update b.slot idx (some b.issued)
   event := update b.event b.issued ev
   dest := update b.dest b.issued queue }

/-- The event leaves the timer for the notification thread. -/
def grab (b : Ledger) (idx : Nat) : Ledger :=
 { b with slot := update b.slot idx none }

def deliver (b : Ledger) (d : Delivery) : Ledger :=
 { b with delivered := d::b.delivered }

end Ledger

/-- Where the notification thread is: between ticks, in `odp_timer_pool_expire` in front of timer
`i`, or in `timer_expire` of timer `i` with the grabbed buffer and its tick (`serial` and `freed` as
in `Delivery`). -/
inductive Notifier where
 | idle
 | scan (tick highWm i : Nat)
 | post (tick highWm i : Nat) (ev : Event) (expTck serial : Nat) (freed : Bool)
 deriving DecidableEq, Repr

structure State where
 tp : Pool
 tmoHdr : Event → TimeoutHdr
 /-- The events on each queue, oldest first. -/
 queue : QueueHdl → List Event
 /-- The timer a thread is in `timer_free` with, past the timer's lock. -/
 freeing : Thread → Option Nat
 notifier : Notifier
 /-- The timers callers hold a handle of. -/
 live : Nat → Bool
 /-- The events callers own. -/
 owned : Event → Bool
 ledger : Ledger

/-- A pool just created; every event still belongs to the application. -/
def State.init (tpIdx : Nat) (param : PoolParam) (tmoHdr : Event → TimeoutHdr) : State where
 tp := odpTimerPoolNew tpIdx param
 tmoHdr := tmoHdr
 queue := fun _ => []
 freeing := fun _ => none
 notifier := .idle
 live := fun _ => false
 owned := fun _ => true
 ledger := ⟨0,fun _ => none,fun _ => 0,fun _ => 0,[],[]⟩

inductive Action where
 | alloc (queue : QueueHdl) (userPtr : Nat)
 | setAbs (hdl absTck : Nat) (tmoEv : Option Event)
 | setRel (hdl relTck : Nat) (tmoEv : Option Event)
 | cancel (hdl : Nat)
 | free (t : Thread) (hdl : Nat)
 | freeInsert (t : Thread)
 | notify
 | scan
 | post
 /-- The application takes an event off a queue. -/
 | receive (queue : QueueHdl)
 deriving DecidableEq, Repr

/-- The events of `l` become the application's. -/
def giveOwned (owned : Event → Bool) (l : Option Event) : Event → Bool :=
 fun e => if l = some e then true else owned e

/-- `timer_reset` on a timer of the pool. With a new event the header of a timeout event is
filled in first, and the caller gets the replaced event, if any. -/
def timerReset (v : ResetVariant) (isTimeout : Event → Bool) (s : State) (idx absTck : Nat) :
 Option Event → Option (SetRet × State)
 | none =>
  let r := timerResetKeep v s.tp idx absTck
  some (if r.1 then .success else .noEvent,{ s with tp := r.2 })
 | some ev =>
  (if isTimeout ev then tpIdxToHandle s.tp idx else some 0).map fun hdl =>
   let r := timerResetSwap s.tp idx absTck ev
   let hdr := { s.tmoHdr ev with timer := hdl, userPtr := (s.tp.timers idx).userPtr }
   (.success,{ s with
    tp := r.2
    tmoHdr := if isTimeout ev then update s.tmoHdr ev hdr else s.tmoHdr
    owned := giveOwned (update s.owned ev false) r.1
    ledger := s.ledger.handOver idx ev (s.tp.timers idx).queue })

def odpTimerSetAbs (v : ResetVariant) (isTimeout : Event → Bool) (s : State) (hdl absTck : Nat)
 (tmoEv : Option Event) : Option (SetRet × State) := do
 let idx ← handleToIdx hdl s.tp
 match setAbsCheck s.tp absTck with
 | .success => timerReset v isTimeout s idx absTck tmoEv
 | r => some (r,s)

def odpTimerSetRel (v : ResetVariant) (isTimeout : Event → Bool) (s : State) (hdl relTck : Nat)
 (tmoEv : Option Event) : Option (SetRet × State) := do
 let idx ← handleToIdx hdl s.tp
 match setRelCheck s.tp relTck with
 | .success => timerReset v isTimeout s idx ((s.tp.curTick+relTck)%2^64) tmoEv
 | r => some (r,s)

/-- `odp_timer_cancel`; the result is the event the call hands back. -/
def odpTimerCancel (s : State) (hdl : Nat) : Option (Option Event × State) := do
 let idx ← handleToIdx hdl s.tp
 let r := timerCancel s.tp idx tmoInactive
 some (r.1,{ s with
  tp := r.2
  owned := giveOwned s.owned r.1
  ledger := s.ledger.giveBack idx })

/-- The timer is freed while its timeout is on the way to the queue. -/
def Notifier.markFreed (n : Notifier) (idx : Nat) : Notifier :=
 match n with
 | .post tick highWm i ev expTck serial freed =>
  .post tick highWm i ev expTck serial (freed || i == idx)
 | n => n

/-- `odp_timer_free` up to the pool lock; the result is the event the call will return. -/
def odpTimerFree (s : State) (t : Thread) (hdl : Nat) : Option (Option Event × State) := do
 let idx ← handleToIdx hdl s.tp
 let r := timerCancel s.tp idx tmoUnused
 some (r.1,{ s with
  tp := r.2
  owned := giveOwned s.owned r.1
  ledger := s.ledger.giveBack idx
  freeing := update s.freeing t (some idx)
  live := update s.live idx false
  notifier := s.notifier.markFreed idx })

/-- The next timer in the loop of `odp_timer_pool_expire`. -/
def expireNext (s : State) (tick highWm i : Nat) : State :=
 match timerExpireGrab s.tp i tick with
 | (some (ev,expTck),tp) => { s with
  tp := tp
  notifier := .post tick highWm i ev expTck ((s.ledger.slot i).getD 0) false
  ledger := s.ledger.grab i }
 | (none,tp) => { s with tp := tp, notifier := .scan tick highWm (i+1) }

/-- The end of `timer_expire`: the timeout goes to the queue the timer names now. -/
def expirePost (isTimeout : Event → Bool) (s : State) (tick highWm i : Nat) (ev : Event)
 (expTck serial : Nat) (freed : Bool) : State :=
 let q := (s.tp.timers i).queue
 { s with
   tmoHdr := if isTimeout ev
    then update s.tmoHdr ev { s.tmoHdr ev with expiration := expTck } else s.tmoHdr
   queue := update s.queue q (s.queue q++[ev])
   notifier := .scan tick highWm (i+1)
   ledger := s.ledger.deliver ⟨serial,ev,q,freed⟩ }

/-- One step of a run; `none` when the step is not possible or aborts the process. -/
def step (v : ResetVariant) (isTimeout : Event → Bool) (s : State) : Action → Option State
 | .alloc queue userPtr =>
  if queue = queueInvalid then none else
   (timerAlloc s.tp queue userPtr).map fun r => { s with
    tp := r.2
    live := if r.1.isSome then update s.live s.tp.firstFree true else s.live }
 | .setAbs hdl absTck tmoEv => (odpTimerSetAbs v isTimeout s hdl absTck tmoEv).map Prod.snd
 | .setRel hdl relTck tmoEv => (odpTimerSetRel v isTimeout s hdl relTck tmoEv).map Prod.snd
 | .cancel hdl => (odpTimerCancel s hdl).map Prod.snd
 | .free t hdl =>
  if (s.freeing t).isSome then none else (odpTimerFree s t hdl).map Prod.snd
 | .freeInsert t =>
  (s.freeing t).bind fun idx =>
   if s.tp.numAlloc = 0 then none else
    some { s with
     tp := timerFreeInsert s.tp idx
     freeing := update s.freeing t none }
 | .notify =>
  match s.notifier with
  | .idle => some { s with
   tp := { s.tp with curTick := (s.tp.curTick+1)%2^64 }
   notifier := .scan s.tp.curTick s.tp.highWm 0 }
  | _ => none
 | .scan =>
  match s.notifier with
  | .scan tick highWm i =>
   some (if i < highWm then expireNext s tick highWm i else { s with notifier := .idle })
  | _ => none
 | .post =>
  match s.notifier with
  | .post tick highWm i ev expTck serial freed =>
   some (expirePost isTimeout s tick highWm i ev expTck serial freed)
  | _ => none
 | .receive queue =>
  match s.queue queue with
  | [] => none
  | ev::evs => some { s with
   queue := update s.queue queue evs
   owned := update s.owned ev true }

/-- The handle names a timer of this pool that is allocated. -/
def NamesLive (s : State) (hdl : Nat) : Prop :=
 hdl >>> indexBits = s.tp.tpIdx ∧ s.live (hdl &&& (2^indexBits-1)) = true

instance (s : State) (hdl : Nat) : Decidable (NamesLive s hdl) :=
 inferInstanceAs (Decidable (_ ∧ _))

/-- What the callers of the API keep to: they use the handles they hold, and hand over
only events they own. -/
def CallerOk (s : State) : Action → Prop
 | .setAbs hdl _ tmoEv | .setRel hdl _ tmoEv =>
  NamesLive s hdl ∧ ∀ ev, tmoEv = some ev → s.owned ev = true
 | .cancel hdl | .free _ hdl => NamesLive s hdl
 | _ => True

instance (s : State) : ∀ a, Decidable (CallerOk s a)
 | .setAbs hdl _ none | .setRel hdl _ none =>
  decidable_of_iff (NamesLive s hdl) (by simp [CallerOk])
 | .setAbs hdl _ (some ev) | .setRel hdl _ (some ev) =>
  decidable_of_iff (NamesLive s hdl ∧ s.owned ev = true) (by simp [CallerOk])
 | .cancel hdl | .free _ hdl => inferInstanceAs (Decidable (NamesLive s hdl))
 | .alloc _ _ | .freeInsert _ | .notify | .scan | .post | .receive _ =>
  inferInstanceAs (Decidable True)

/-- The states of all runs of a pool. -/
abbrev Reachable (v : ResetVariant) (isTimeout : Event → Bool) : State → Prop :=
 Transition.Reach (fun s => ∃ tpIdx param tmoHdr, s = .init tpIdx param tmoHdr)
  (step v isTimeout) CallerOk

/-- The timer whose timeout the notification thread is about to post. -/
def Notifier.posting : Notifier → Option Nat
 | .post _ _ i _ _ _ _ => some i
 | _ => none

/-- No timer is freed while the notification thread holds its timeout. -/
def FreeApart (s : State) : Action → Prop
 | .free _ hdl => s.notifier.posting ≠ some (hdl &&& (2^indexBits-1))
 | _ => True

instance (s : State) : ∀ a, Decidable (FreeApart s a)
 | .free _ _ => inferInstanceAs (Decidable (_ ≠ _))
 | .alloc _ _ | .setAbs _ _ _ | .setRel _ _ _ | .cancel _ | .freeInsert _ | .notify | .scan | .post
  | .receive _ =>
  inferInstanceAs (Decidable True)

/-- The states of the runs that keep `odp_timer_free` and the posting of the timer's timeout
apart. -/
abbrev ReachableApart (v : ResetVariant) (isTimeout : Event → Bool) : State → Prop :=
 Transition.Reach (fun s => ∃ tpIdx param tmoHdr, s = .init tpIdx param tmoHdr)
  (step v isTimeout) fun s a => CallerOk s a ∧ FreeApart s a

end Packages.TimerPool

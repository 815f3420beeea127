import Packages.Lib.Transition
import Packages.Lib.Word32

/-!
# The ticket lock in `odp_ticketlock.c`

Every load, store and atomic operation is a step. The two tickets are 32-bit words. The state also
records who took a ticket and who got the lock, in this order, and how many tickets had been taken
when a thread in `odp_ticketlock_trylock` loaded `next_ticket`.
-/

namespace Packages.TicketLock

open Function

structure OdpTicketlock where
 nextTicket : Nat
 curTicket : Nat
 deriving DecidableEq,Repr

def odpTicketlockInit : OdpTicketlock := ⟨0,0⟩

/-- What a thread does next. -/
inductive Pc
 | idle
 | fetchInc
 | spin (ticket : Nat)
 | loadNext
 | loadCur (next : Nat)
 | cas (next : Nat)
 | unlockLoad
 | unlockStore (cur : Nat)
 deriving DecidableEq,Repr

/-- A thread with a ticket waits for its turn. -/
def Pc.waits : Pc → Bool
 | .spin _ => true
 | _ => false

/-- A thread holds the lock until `odp_ticketlock_unlock` has stored the new `cur_ticket`. -/
structure State (n : Nat) where
 lock : OdpTicketlock
 pc : Fin n → Pc
 holds : Fin n → Bool
 taken : List (Fin n)
 acquired : List (Fin n)
 loadedAt : Fin n → Nat

inductive Action
 | lock
 | trylock
 | unlock
 | next
 deriving DecidableEq,Repr

variable {n : Nat}

namespace State

def init : State n := ⟨odpTicketlockInit,fun _ => .idle,fun _ => false,[],[],fun _ => 0⟩

variable (s : State n) (t : Fin n)

def goto (pc : Pc) : State n := { s with pc := update s.pc t pc }

/-- `next_ticket` is incremented. -/
def take : State n :=
 { s with lock := { s.lock with nextTicket := add32 s.lock.nextTicket 1 }, taken := s.taken++[t] }

/-- The function returns with the lock. -/
def acquire : State n :=
 { s.goto t .idle with holds := update s.holds t true, acquired := s.acquired++[t] }

def release (cur : Nat) : State n :=
 { s.goto t .idle with
   lock := { s.lock with curTicket := add32 cur 1 }, holds := update s.holds t false }

/-- The next step of a thread inside one of the functions. -/
def next : Option (State n) :=
 match s.pc t with
 | .fetchInc => some ((s.take t).goto t (.spin s.lock.nextTicket))
 | .spin ticket => some (if ticket ≠ s.lock.curTicket then s else s.acquire t)
 | .loadNext =>
  some { s.goto t (.loadCur s.lock.nextTicket) with
   loadedAt := update s.loadedAt t s.taken.length }
 | .loadCur next => some (s.goto t (if next = s.lock.curTicket then .cas next else .idle))
 | .cas next => some (if s.lock.nextTicket = next then (s.take t).acquire t else s.goto t .idle)
 | .unlockLoad => some (s.goto t (.unlockStore s.lock.curTicket))
 | .unlockStore cur => some (s.release t cur)
 | .idle => none

/-- Only a thread that holds the lock calls `odp_ticketlock_unlock`. -/
def step (a : Fin n × Action) : Option (State n) :=
 match a.2 with
 | .lock => if s.pc a.1 = .idle then some (s.goto a.1 .fetchInc) else none
 | .trylock => if s.pc a.1 = .idle then some (s.goto a.1 .loadNext) else none
 | .unlock => if s.pc a.1 = .idle ∧ s.holds a.1 = true then some (s.goto a.1 .unlockLoad) else none
 | .next => s.next a.1

end State

/-- Fewer than `2 ^ 32` tickets are taken between the load and the compare-and-set of a trylock. -/
def Timely (s : State n) (a : Fin n × Action) : Prop :=
 match s.pc a.1 with
 | .cas _ => s.taken.length < s.loadedAt a.1+2^32
 | _ => True

instance (s : State n) (a : Fin n × Action) : Decidable (Timely s a) :=
 match h : s.pc a.1 with
 | .cas _ => decidable_of_iff (s.taken.length < s.loadedAt a.1+2^32) (by rw [Timely,h])
 | .idle | .fetchInc | .spin _ | .loadNext | .loadCur _ | .unlockLoad | .unlockStore _ =>
  isTrue (by rw [Timely,h]; trivial)

end Packages.TicketLock

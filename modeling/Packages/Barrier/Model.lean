import Packages.Lib.Transition
import Packages.Lib.Word32

/-!
# The barrier in `odp_barrier.c`

Every atomic access of `odp_barrier_wait` is a step of its own: the fetch-and-increment, the
comparison of what it returned, the subtraction, and each load of the spin loop. A thread outside
the function calls it again with its next step, if it is scheduled at all.
-/

namespace Packages.Barrier

open Function

structure OdpBarrier where
 count : Nat
 bar : Nat
 deriving DecidableEq,Repr

def odpBarrierInit (count : Int) : OdpBarrier := ⟨(count%2^32).toNat,0⟩

/-- `2 * barrier->count`. -/
def OdpBarrier.twice (barrier : OdpBarrier) : Nat := 2*barrier.count%2^32

/-- What a thread does next. -/
inductive Pc
 | idle
 | fetchInc
 | compare (count : Nat)
 | sub
 | load (wasless : Bool)
 deriving DecidableEq,Repr

/-- The barrier, the threads, and how many calls each of them has started and returned from. -/
structure State (n : Nat) where
 barrier : OdpBarrier
 pc : Fin n → Pc
 started : Fin n → Nat
 returned : Fin n → Nat

variable {n : Nat}

namespace State

def goto (s : State n) (t : Fin n) (pc : Pc) : State n := { s with pc := update s.pc t pc }

def setBar (s : State n) (bar : Nat) : State n :=
 { s with barrier := { s.barrier with bar := bar } }

def call (s : State n) (t : Fin n) : State n :=
 { s.goto t .fetchInc with started := update s.started t (s.started t+1) }

def ret (s : State n) (t : Fin n) : State n :=
 { s.goto t .idle with returned := update s.returned t (s.returned t+1) }

variable (s : State n) (t : Fin n)

@[simp] lemma goto_pc (pc : Pc) : (s.goto t pc).pc t = pc := update_self ..

@[simp] lemma call_pc : (s.call t).pc t = .fetchInc := update_self ..

@[simp] lemma call_started : (s.call t).started t = s.started t+1 := update_self ..

@[simp] lemma ret_pc : (s.ret t).pc t = .idle := update_self ..

@[simp] lemma ret_returned : (s.ret t).returned t = s.returned t+1 := update_self ..

end State

/-- The next step of a thread in `odp_barrier_wait`. -/
def odpBarrierWait (s : State n) (t : Fin n) : State n :=
 match s.pc t with
 | .idle => s.call t
 | .fetchInc => (s.setBar (add32 s.barrier.bar 1)).goto t (.compare s.barrier.bar)
 | .compare count =>
  if count = sub32 s.barrier.twice 1 then s.goto t .sub
  else s.goto t (.load (count < s.barrier.count))
 | .sub => (s.setBar (sub32 s.barrier.bar s.barrier.twice)).ret t
 | .load wasless => if decide (s.barrier.bar < s.barrier.count) = wasless then s else s.ret t

section

variable {s : State n} {t : Fin n}

lemma odpBarrierWait_idle (h : s.pc t = .idle) : odpBarrierWait s t = s.call t := by
 rw [odpBarrierWait,h]

lemma odpBarrierWait_fetchInc (h : s.pc t = .fetchInc) : odpBarrierWait s t =
 (s.setBar (add32 s.barrier.bar 1)).goto t (.compare s.barrier.bar) := by
 rw [odpBarrierWait,h]

lemma odpBarrierWait_last (h : s.pc t = .compare (sub32 s.barrier.twice 1)) :
 odpBarrierWait s t = s.goto t .sub := by
 rw [odpBarrierWait,h]
 exact if_pos rfl

lemma odpBarrierWait_compare {count : Nat} (h : s.pc t = .compare count)
 (hne : count ≠ sub32 s.barrier.twice 1) :
 odpBarrierWait s t = s.goto t (.load (count < s.barrier.count)) := by
 rw [odpBarrierWait,h]
 exact if_neg hne

lemma odpBarrierWait_sub (h : s.pc t = .sub) : odpBarrierWait s t =
 (s.setBar (sub32 s.barrier.bar s.barrier.twice)).ret t := by
 rw [odpBarrierWait,h]

lemma odpBarrierWait_spin {wasless : Bool} (h : s.pc t = .load wasless)
 (heq : decide (s.barrier.bar < s.barrier.count) = wasless) : odpBarrierWait s t = s := by
 rw [odpBarrierWait,h]
 exact if_pos heq

lemma odpBarrierWait_leave {wasless : Bool} (h : s.pc t = .load wasless)
 (hne : decide (s.barrier.bar < s.barrier.count) ≠ wasless) : odpBarrierWait s t = s.ret t := by
 rw [odpBarrierWait,h]
 exact if_neg hne

end

def step (s : State n) (t : Fin n) : Option (State n) := some (odpBarrierWait s t)

/-- `n` threads on a barrier for `n` threads. -/
def start (n : Nat) : State n := ⟨odpBarrierInit n,fun _ => .idle,fun _ => 0,fun _ => 0⟩

abbrev Reachable : State n → Prop := Transition.Reach (· = start n) step fun _ _ => True

/-- The steps of the given threads, one after the other. -/
def run (s : State n) (threads : List (Fin n)) : State n := threads.foldl odpBarrierWait s

end Packages.Barrier

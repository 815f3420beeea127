import Packages.Lib.Transition
import Packages.Lib.Word32

/-!
# The recursive reader/writer lock in `odp_rwlock_recursive.c`

The lock word of `odp_rwlock.c` is 0, the number of readers, or `2 ^ 32 - 1` for a writer. Every
access to the word and to the owner and count of the writer is a step; the 8-bit count of a reader
belongs to its thread. How deep a thread is in the two kinds of sections is recorded beside the
lock.
-/

namespace Packages.RwLock

open Function

variable {n : Nat}

/-- `odp_rwlock_recursive_t`; `NO_OWNER` is `none`. -/
structure OdpRwlockRecursive (n : Nat) where
 cnt : Nat
 wrOwner : Option (Fin n)
 wrCnt : Nat
 rdCnt : Fin n → Nat

def odpRwlockRecursiveInit : OdpRwlockRecursive n := ⟨0,none,0,fun _ => 0⟩

/-- What a thread does next. -/
inductive Pc
 | idle
 -- `read_lock`
 | rdTest
 | rdInc
 | rdLoad
 | rdCas (cnt : Nat)
 | rdSet
 -- `read_unlock`
 | rdDec
 | rdRetest
 | rdSub
 -- `write_lock`
 | wrTest
 | wrInc
 | wrIncStore (wrCnt : Nat)
 | wrLoad
 | wrCas
 | wrOwn
 | wrSet
 -- `write_unlock`
 | wrDec
 | wrDecStore (wrCnt : Nat)
 | wrRetest
 | wrDisown
 | wrStore
 deriving DecidableEq,Repr

structure State (n : Nat) where
 lock : OdpRwlockRecursive n
 pc : Fin n → Pc
 rdDepth : Fin n → Nat
 wrDepth : Fin n → Nat

inductive Action
 | readLock
 | readUnlock
 | writeLock
 | writeUnlock
 | next
 deriving DecidableEq,Repr

namespace State

def init : State n := ⟨odpRwlockRecursiveInit,fun _ => .idle,fun _ => 0,fun _ => 0⟩

variable (s : State n) (t : Fin n)

def goto (pc : Pc) : State n := { s with pc := update s.pc t pc }

def setCnt (cnt : Nat) : State n := { s with lock := { s.lock with cnt := cnt } }

def setWrOwner (wrOwner : Option (Fin n)) : State n :=
 { s with lock := { s.lock with wrOwner := wrOwner } }

def setWrCnt (wrCnt : Nat) : State n := { s with lock := { s.lock with wrCnt := wrCnt } }

def setRdCnt (rdCnt : Nat) : State n :=
 { s with lock := { s.lock with rdCnt := update s.lock.rdCnt t rdCnt } }

def setRdDepth (depth : Nat) : State n := { s with rdDepth := update s.rdDepth t depth }

def setWrDepth (depth : Nat) : State n := { s with wrDepth := update s.wrDepth t depth }

/-- The next step of a thread inside one of the functions. -/
def next : Option (State n) :=
 match s.pc t with
 | .idle => none
 | .rdTest => some (s.goto t (if s.lock.rdCnt t ≠ 0 then .rdInc else .rdLoad))
 | .rdInc =>
  some (((s.setRdCnt t ((s.lock.rdCnt t+1)%2^8)).setRdDepth t (s.rdDepth t+1)).goto t .idle)
 -- a negative `int32_t`
 | .rdLoad => some (if 2^31 ≤ s.lock.cnt then s else s.goto t (.rdCas s.lock.cnt))
 | .rdCas cnt =>
  some (if s.lock.cnt = cnt then (s.setCnt (add32 cnt 1)).goto t .rdSet else s.goto t .rdLoad)
 | .rdSet => some (((s.setRdCnt t 1).setRdDepth t (s.rdDepth t+1)).goto t .idle)
 | .rdDec => some ((s.setRdCnt t ((s.lock.rdCnt t+(2^8-1))%2^8)).goto t .rdRetest)
 | .rdRetest => some (s.goto t (if 0 < s.lock.rdCnt t then .idle else .rdSub))
 | .rdSub => some ((s.setCnt (sub32 s.lock.cnt 1)).goto t .idle)
 | .wrTest => some (s.goto t (if s.lock.wrOwner = some t then .wrInc else .wrLoad))
 | .wrInc => some (s.goto t (.wrIncStore s.lock.wrCnt))
 | .wrIncStore wrCnt =>
  some (((s.setWrCnt (add32 wrCnt 1)).setWrDepth t (s.wrDepth t+1)).goto t .idle)
 | .wrLoad => some (if s.lock.cnt ≠ 0 then s else s.goto t .wrCas)
 | .wrCas =>
  some (if s.lock.cnt = 0 then (s.setCnt (2^32-1)).goto t .wrOwn else s.goto t .wrLoad)
 | .wrOwn => some ((s.setWrOwner (some t)).goto t .wrSet)
 | .wrSet => some (((s.setWrCnt 1).setWrDepth t (s.wrDepth t+1)).goto t .idle)
 | .wrDec => some (s.goto t (.wrDecStore s.lock.wrCnt))
 | .wrDecStore wrCnt => some ((s.setWrCnt (sub32 wrCnt 1)).goto t .wrRetest)
 | .wrRetest => some (s.goto t (if 0 < s.lock.wrCnt then .idle else .wrDisown))
 | .wrDisown => some ((s.setWrOwner none).goto t .wrStore)
 | .wrStore => some ((s.setCnt 0).goto t .idle)

/-- Unlocks are matched, and no thread takes one kind while it has the other. -/
def step (a : Fin n × Action) : Option (State n) :=
 let t := a.1
 match a.2 with
 | .readLock => if s.pc t = .idle ∧ s.wrDepth t = 0 then some (s.goto t .rdTest) else none
 | .readUnlock =>
  if s.pc t = .idle ∧ 0 < s.rdDepth t then some ((s.setRdDepth t (s.rdDepth t-1)).goto t .rdDec)
   else none
 | .writeLock => if s.pc t = .idle ∧ s.rdDepth t = 0 then some (s.goto t .wrTest) else none
 | .writeUnlock =>
  if s.pc t = .idle ∧ 0 < s.wrDepth t then some ((s.setWrDepth t (s.wrDepth t-1)).goto t .wrDec)
   else none
 | .next => s.next t

end State

/-- No thread goes `2 ^ 32` levels deep into write sections. -/
def Bounded (s : State n) (a : Fin n × Action) : Prop := a.2 = .writeLock → s.wrDepth a.1+1 < 2^32

instance (s : State n) (a : Fin n × Action) : Decidable (Bounded s a) :=
 inferInstanceAs (Decidable (_ → _))

end Packages.RwLock

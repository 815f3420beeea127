import Packages.Lib.Transition
import Packages.Lib.Word32

/-!
# The ring of `ring.c`

The ring and what its routines share, then the multi-producer and multi-consumer routines as threads
that take one atomic step at a time. Both sides run the same protocol: read the own head and the
other tail, reserve a batch by moving the head, copy it, wait for the own tail to arrive, and move
the tail.
-/

namespace Packages.Ring

open Function

/-- `odph_ring_queue_behavior`: a batch is taken as a whole, or as far as possible. -/
inductive Behavior where
 | fixed
 | vary
 deriving DecidableEq, Repr

inductive Side where
 | prod
 | cons
 deriving DecidableEq, Repr

/-- The two indices of a side, 32 bits each. -/
structure HeadTail where
 head : Nat
 tail : Nat
 deriving DecidableEq, Repr

/-- `odph_ring_t`. A slot is `none` until something is stored there. -/
structure OdphRing (α : Type) where
 size : Nat
 watermark : Nat
 ht : Side → HeadTail
 slot : Nat → Option α

variable {α : Type}

namespace OdphRing

/-- `count - 1` as a 32-bit word. -/
def mask (r : OdphRing α) : Nat := if r.size = 0 then 2^32-1 else r.size-1

def setHead (r : OdphRing α) (d : Side) (v : Nat) : OdphRing α :=
 { r with ht := update r.ht d { r.ht d with head := v } }

def setTail (r : OdphRing α) (d : Side) (v : Nat) : OdphRing α :=
 { r with ht := update r.ht d { r.ht d with tail := v } }

def setSlot (r : OdphRing α) (k : Nat) (x : Option α) : OdphRing α :=
 { r with slot := update r.slot k x }

/-- `free_entries` of a producer, `entries` of a consumer that has read `head`. -/
def avail (r : OdphRing α) (d : Side) (head : Nat) : Nat :=
 match d with
 | .prod => sub32 (add32 r.mask (r.ht .cons).tail) head
 | .cons => sub32 (r.ht .prod).tail head

/-- Where entry `i` of a batch of `n` goes: the copying loops go round the end of the ring. -/
def slotIndex (r : OdphRing α) (head n i : Nat) : Nat :=
 let idx := head &&& r.mask
 if add32 idx n < r.size then idx+i
 else if i < r.size-idx then idx+i else i-(r.size-idx)

/-- What an enqueue of `n` objects returns. -/
def enqueued (r : OdphRing α) (b : Behavior) (free n : Nat) : Int :=
 if add32 (sub32 (add32 r.mask 1) free) n > r.watermark then
  match b with
  | .fixed => -122
  | .vary => (BitVec.ofNat 32 (n ||| 2^31)).toInt
 else
  match b with
  | .fixed => 0
  | .vary => n

end OdphRing

/-- `ENOBUFS` of a full ring, `ENOENT` of an empty one. -/
def Side.errno : Side → Int
 | .prod => -105
 | .cons => -2

/-- The size of the batch when `max` entries are asked for, or the value returned at once. -/
def batch (d : Side) (b : Behavior) (max avail : Nat) : Except Int Nat :=
 if max > avail then
  match b with
  | .fixed => .error d.errno
  | .vary => if avail = 0 then .error 0 else .ok avail
 else .ok max

def OdphRing.create (size : Nat) : OdphRing α where
 size := size
 watermark := size
 ht := fun _ => ⟨0,0⟩
 slot := fun _ => none

-- Threads

/-- A call of `__odph_ring_mp_do_enqueue` or of `__odph_ring_mc_do_dequeue`. -/
inductive Op (α : Type) where
 | enqueue (objs : List α)
 | dequeue (max : Nat)
 deriving DecidableEq, Repr

def Op.side : Op α → Side
 | .enqueue _ => .prod
 | .dequeue _ => .cons

def Op.max : Op α → Nat
 | .enqueue objs => objs.length
 | .dequeue max => max

/-- The local variables of a call from the comparison of the head on. `base` is not one of them:
it is the number of entries reserved on this side when the head was read. -/
structure Resv (α : Type) where
 op : Op α
 behavior : Behavior
 head : Nat
 n : Nat
 avail : Nat
 base : Nat
 out : List (Option α)
 deriving DecidableEq, Repr

def Resv.side (r : Resv α) : Side := r.op.side

def Resv.next (r : Resv α) : Nat := add32 r.head r.n

/-- The next atomic step of a thread. -/
inductive Pc (α : Type) where
 | idle (last : Option (Int × List (Option α)))
 /-- read the own head -/
 | top (op : Op α) (b : Behavior)
 /-- read the other tail -/
 | gotHead (op : Op α) (b : Behavior) (head base : Nat)
 /-- compare and set the own head -/
 | cas (r : Resv α)
 /-- copy entry `i` -/
 | copy (r : Resv α) (i : Nat)
 /-- compare the own tail -/
 | wait (r : Resv α)
 /-- write the own tail -/
 | store (r : Resv α)
 deriving DecidableEq, Repr

/-- A ring with `n` threads and its history: `enq` and `deq` in the order of the reservations
(`none` is not read yet), the entries `written`, and `tail` the tails as counters that never wrap
around. -/
structure State (α : Type) (n : Nat) where
 ring : OdphRing α
 pc : Fin n → Pc α
 enq : List α
 deq : List (Option (Option α))
 written : Nat → Bool
 tail : Side → Nat

variable {n : Nat}

namespace State

def setPc (s : State α n) (t : Fin n) (pc : Pc α) : State α n :=
 { s with pc := update s.pc t pc }

/-- The number of entries reserved on a side. -/
def resv (s : State α n) : Side → Nat
 | .prod => s.enq.length
 | .cons => s.deq.length

/-- After entry `i - 1` has been copied. -/
def copied (s : State α n) (t : Fin n) (r : Resv α) (i : Nat) : State α n :=
 s.setPc t (if i < r.n then .copy r i else .wait r)

/-- A batch has been reserved. -/
def reserve (s : State α n) (r : Resv α) : State α n :=
 let s := { s with ring := s.ring.setHead r.side r.next }
 match r.op with
 | .enqueue objs => { s with enq := s.enq++objs.take r.n }
 | .dequeue _ => { s with deq := s.deq++List.replicate r.n none }

/-- One round of the copying loops. -/
def copy (s : State α n) (t : Fin n) (r : Resv α) (i : Nat) : State α n :=
 let k := s.ring.slotIndex r.head r.n i
 match r.op with
 | .enqueue objs =>
  { s with
    ring := s.ring.setSlot k objs[i]?
    written := update s.written (r.base+i) true }.copied t r (i+1)
 | .dequeue _ =>
  { s with deq := s.deq.set (r.base+i) (some (s.ring.slot k)) }.copied t
    { r with out := r.out++[s.ring.slot k] } (i+1)

/-- The value a call returns in the end. -/
def result (s : State α n) (r : Resv α) : Int :=
 match r.op with
 | .enqueue _ => s.ring.enqueued r.behavior r.avail r.n
 | .dequeue _ => match r.behavior with
  | .fixed => 0
  | .vary => r.n

def store (s : State α n) (t : Fin n) (r : Resv α) : State α n :=
 { s with
   ring := s.ring.setTail r.side r.next
   tail := update s.tail r.side
    (s.tail r.side+sub32 r.next (s.ring.ht r.side).tail) }.setPc t
   (.idle (some (s.result r,r.out)))

def advance (s : State α n) (t : Fin n) : Option (State α n) :=
 match s.pc t with
 | .idle _ => none
 | .top op b => some (s.setPc t (.gotHead op b (s.ring.ht op.side).head (s.resv op.side)))
 | .gotHead op b head base =>
  let avail := s.ring.avail op.side head
  match batch op.side b op.max avail with
  | .error c => some (s.setPc t (.idle (some (c,[]))))
  | .ok k => some (s.setPc t (.cas ⟨op,b,head,k,avail,base,[]⟩))
 | .cas r =>
  if (s.ring.ht r.side).head = r.head then some ((s.reserve r).copied t r 0)
  else some (s.setPc t (.top r.op r.behavior))
 | .copy r i => some (s.copy t r i)
 | .wait r => if (s.ring.ht r.side).tail = r.head then some (s.setPc t (.store r)) else some s
 | .store r => some (s.store t r)

end State

inductive Action (α : Type) (n : Nat) where
 | call (t : Fin n) (op : Op α) (b : Behavior)
 | step (t : Fin n)
 deriving DecidableEq, Repr

def step (s : State α n) : Action α n → Option (State α n)
 | .call t op b =>
  match s.pc t with
  | .idle _ => some (s.setPc t (.top op b))
  | _ => none
 | .step t => s.advance t

/-- Fewer than `2 ^ 32` entries are reserved on a side between a thread's read of its head and the
comparison. -/
def CasBounded (s : State α n) : Pc α → Prop
 | .cas r => s.resv r.side < r.base+2^32
 | _ => True

/-- Batch sizes are 32-bit words, and the indices do not come round during a reservation. -/
def Bounded (s : State α n) : Action α n → Prop
 | .call _ op _ => op.max < 2^32
 | .step t => CasBounded s (s.pc t)

/-- A thread with an empty batch writes the tail only while the tail still is the head it waited
for. -/
def StoreOk (s : State α n) : Pc α → Prop
 | .store r => r.n = 0 → (s.ring.ht r.side).tail = r.head
 | _ => True

def EmptyOk (s : State α n) : Action α n → Prop
 | .call _ _ _ => True
 | .step t => StoreOk s (s.pc t)

instance (s : State α n) : ∀ pc, Decidable (CasBounded s pc)
 | .cas r => inferInstanceAs (Decidable (s.resv r.side < r.base+2^32))
 | .idle _ | .top _ _ | .gotHead _ _ _ _ | .copy _ _ | .wait _ | .store _ =>
  inferInstanceAs (Decidable True)

instance (s : State α n) : ∀ pc, Decidable (StoreOk s pc)
 | .store r => inferInstanceAs (Decidable (r.n = 0 → (s.ring.ht r.side).tail = r.head))
 | .idle _ | .top _ _ | .gotHead _ _ _ _ | .copy _ _ | .wait _ | .cas _ =>
  inferInstanceAs (Decidable True)

instance (s : State α n) : ∀ a, Decidable (Bounded s a)
 | .call _ op _ => inferInstanceAs (Decidable (op.max < 2^32))
 | .step t => inferInstanceAs (Decidable (CasBounded s (s.pc t)))

instance (s : State α n) : ∀ a, Decidable (EmptyOk s a)
 | .call _ _ _ => inferInstanceAs (Decidable True)
 | .step t => inferInstanceAs (Decidable (StoreOk s (s.pc t)))

/-- A ring just created, its size a power of two, and nobody at work. -/
def Init (s : State α n) : Prop :=
 ∃ k, k < 32 ∧ s = ⟨.create (2^k),fun _ => .idle none,[],[],fun _ => false,fun _ => 0⟩

end Packages.Ring

import Packages.HashTable.Model
import Packages.Lib.Region

/-!
# The linear table of the helper library

A linear table is an array of values, each behind its lock. `odph_linear_table_create` writes
`capacity < 20` for the shift by 20 bits, so that a table for values that would fit refuses every
call.
-/

namespace Packages.LinearTable

open HashTable (tableNameLen sizeofRwlock)

def sizeofLinearTableImp : Nat := 56

/-- `odph_linear_table_imp` with the bytes of its block. -/
structure LinearTableImp where
 initCap : Nat
 nodeSum : Nat
 /-- The size of an element, with the lock at its head. -/
 valueSize : Nat
 bytes : Nat → UInt8

/-- The checks of `odph_linear_table_create`. -/
def createAccepts (nameLen capacity valueSize : Nat) : Bool :=
 !(decide (tableNameLen ≤ nameLen) || decide (capacity < 1) || decide (0x1000 ≤ capacity) ||
  valueSize == 0)

/-- The memory is cleared, which leaves the locks free. A division by zero has no result. -/
def LinearTableImp.create (capacity valueSize : Nat) : Option LinearTableImp :=
 let initCap := if capacity < 20 then 1 else 0
 let elementSize := (valueSize+sizeofRwlock)%2^32
 if elementSize = 0 then none else some ⟨initCap,initCap/elementSize,elementSize,fun _ => 0⟩

inductive Call
 | putValue (ikey : Nat) (value : List UInt8)
 | getValue (ikey : Nat)

def Call.ikey : Call → Nat
 | putValue ikey _ => ikey
 | getValue ikey => ikey

/-- The caller passes values of the table's size. -/
def Call.Sized (valueSize : Nat) : Call → Prop
 | putValue _ value => value.length = valueSize
 | getValue _ => True

namespace LinearTableImp

variable (t : LinearTableImp)

/-- `entry`, moved behind the lock. -/
def entry (ikey : Nat) : Nat := sizeofLinearTableImp+ikey*t.valueSize%2^32+sizeofRwlock

/-- The `size_t` passed to `memcpy`. -/
def copySize : Nat := (t.valueSize+(2^64-sizeofRwlock))%2^64

/-- The lock and the bytes that a call with this key uses. -/
def touched (ikey : Nat) : Region := ⟨t.entry ikey-sizeofRwlock,sizeofRwlock+t.copySize⟩

/-- `odph_lineartable_put_value` and `odph_lineartable_get_value`: `none` is `ODPH_FAIL`, and the
bytes are those left in the buffer. -/
def call : Call → Option (List UInt8) × LinearTableImp
 | .putValue ikey value =>
  if t.nodeSum ≤ ikey then (none,t)
  else
   (some [],{ t with
    bytes := fun a =>
     if t.entry ikey ≤ a ∧ a < t.entry ikey+t.copySize then value.getD (a-t.entry ikey) 0
     else t.bytes a })
 | .getValue ikey =>
  if t.nodeSum ≤ ikey then (none,t)
  else (some ((List.range t.copySize).map fun i => t.bytes (t.entry ikey+i)),t)

def replies : LinearTableImp → List Call → List (Option (List UInt8))
 | _,[] => []
 | t,c::calls => (t.call c).1::replies (t.call c).2 calls

end LinearTableImp

/-- The array that a linear table stands for. -/
def arrayReplies : (Nat → List UInt8) → List Call → List (Option (List UInt8))
 | _,[] => []
 | a,.putValue ikey value::calls => some []::arrayReplies (Function.update a ikey value) calls
 | a,.getValue ikey::calls => some (a ikey)::arrayReplies a calls

/-- How many values the block has room for. -/
def arrayLen (capacity valueSize : Nat) : Nat :=
 (capacity*2^20-sizeofLinearTableImp)/(valueSize+sizeofRwlock)

def BehavesAsArray (capacity valueSize : Nat) : Prop :=
 ∃ t, LinearTableImp.create capacity valueSize = some t ∧ ∀ calls : List Call,
  (∀ c ∈ calls, c.ikey < arrayLen capacity valueSize ∧ c.Sized valueSize) →
  t.replies calls = arrayReplies (fun _ => .replicate valueSize 0) calls ∧
  ∀ c ∈ calls, (t.touched c.ikey).Within ⟨0,capacity*2^20⟩

variable {nameLen capacity valueSize : Nat} {t : LinearTableImp}

-- The quotient is of 0 or 1 by at least five.
lemma nodeSum_of_create (hpos : 0 < valueSize) (hlt : valueSize+sizeofRwlock < 2^32)
 (h : LinearTableImp.create capacity valueSize = some t) : t.nodeSum = 0 := by
 unfold LinearTableImp.create at h
 rw [Nat.mod_eq_of_lt hlt] at h
 cases h
 refine Nat.div_eq_of_lt ?_
 unfold sizeofRwlock
 split_ifs <;> omega

lemma call_of_nodeSum (h : t.nodeSum = 0) (c : Call) : t.call c = (none,t) := by
 cases c with
 | putValue ikey value => exact if_pos (h ▸ Nat.zero_le ikey)
 | getValue ikey => exact if_pos (h ▸ Nat.zero_le ikey)

lemma not_behavesAsArray (hpos : 0 < valueSize) (hcap : capacity < 0x1000)
 (hlen : arrayLen capacity valueSize ≠ 0) : ¬ BehavesAsArray capacity valueSize := by
 rintro ⟨t,hcreate,harray⟩
 have hroom : valueSize+sizeofRwlock ≤ capacity*2^20-sizeofLinearTableImp :=
  (Nat.div_pos_iff.mp (pos_of_ne_zero hlen)).2
 have hnode := nodeSum_of_create hpos (by unfold sizeofLinearTableImp at hroom; omega) hcreate
 have hreply := (harray [.getValue 0]
  (by simpa [Call.ikey,Call.Sized] using pos_of_ne_zero hlen)).1
 simp [LinearTableImp.replies,arrayReplies,call_of_nodeSum hnode] at hreply

/-- A linear table behaves as the array that fits into its block only where no value fits, and where
the size of an element is not computed as zero. -/
theorem linear_table_array_iff (nameLen capacity valueSize : Nat)
 (haccepts : createAccepts nameLen capacity valueSize = true) (hsize : valueSize < 2^32) :
 BehavesAsArray capacity valueSize ↔
  arrayLen capacity valueSize = 0 ∧ valueSize ≠ 2^32-sizeofRwlock := by
 simp only [createAccepts,Bool.not_eq_true',Bool.or_eq_false_iff,decide_eq_false_iff_not,
  beq_eq_false_iff_ne] at haccepts
 constructor
 · intro h
   refine ⟨by_contra fun hlen => not_behavesAsArray (by omega) (by omega) hlen h,?_⟩
   rintro rfl
   obtain ⟨t,hcreate,-⟩ := h
   simp [LinearTableImp.create,sizeofRwlock] at hcreate
 · rintro ⟨hlen,hne⟩
   have helement : (valueSize+sizeofRwlock)%2^32 ≠ 0 := by
    unfold sizeofRwlock at hne ⊢
    omega
   refine ⟨_,if_neg helement,fun calls hcalls => ?_⟩
   -- There is no key below zero, and so no call.
   have hnil : calls = [] := List.eq_nil_iff_forall_not_mem.mpr fun c hc =>
    Nat.not_lt_zero _ (hlen ▸ (hcalls c hc).1)
   subst hnil
   exact ⟨rfl,by simp⟩

theorem linear_table_array_large : BehavesAsArray 1 (2^20) :=
 (linear_table_array_iff 5 1 (2^20) (by decide) (by decide)).mpr (by decide)

/-- A table of one unit for values of four bytes refuses the first of its 131065 keys. -/
theorem linear_table_refuses : createAccepts 5 1 4 = true ∧ arrayLen 1 4 = 131065 ∧
 ∃ t, LinearTableImp.create 1 4 = some t ∧ (t.call (.getValue 0)).1 = none ∧
  ¬ BehavesAsArray 1 4 :=
 ⟨rfl,rfl,_,rfl,rfl,not_behavesAsArray (by decide) (by decide) (by decide)⟩

end Packages.LinearTable

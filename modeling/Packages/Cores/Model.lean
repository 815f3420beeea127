import Packages.Lib.Transition

/-!
# Cores bound to processes in `odp_core.c`

The bound cores are bits of two 64-bit words. Every function runs under the lock of the layout, so a
call is one step. `1 << (core & 63)` shifts a 32-bit `int`: the count is taken modulo 32, and the
result is sign-extended where it meets a word.
-/

namespace Packages.Cores

open Function

/-- A core id below `ODP_MAX_CORE`. -/
abbrev CoreId := Fin 128

abbrev LcoreStatus := Fin 2 → BitVec 64

/-- `1 << (lcore_id & 63)` as a 64-bit word. -/
def lcoreBit (lcoreId : CoreId) : BitVec 64 :=
 (1#32 <<< ((lcoreId.val &&& 63)%32)).signExtend 64

/-- The loop that looks for the word of a core. -/
def statusIndex (lcoreId : CoreId) : Option (Fin 2) :=
 (List.finRange 2).find? fun i => lcoreId.val < 64*(i.val+1) ∧ 64*i.val ≤ lcoreId.val

variable (detected : CoreId → Bool)

def odpBindProcToLcore (status : LcoreStatus) (lcoreId : CoreId) : LcoreStatus × Int :=
 if detected lcoreId then
  match statusIndex lcoreId with
  | some i =>
   if status i &&& lcoreBit lcoreId ≠ 0 then (status,-1)
   else (update status i (status i ||| lcoreBit lcoreId),0)
  | none => (status,-1)
 else (status,-1)

def odpUnbindProcToLcore (status : LcoreStatus) (lcoreId : CoreId) : LcoreStatus × Int :=
 if detected lcoreId then
  match statusIndex lcoreId with
  | some i =>
   let lcoreMask := 0xffffffffffffffff#64 ^^^ lcoreBit lcoreId
   (update status i (status i &&& lcoreMask),0)
  | none => (status,-1)
 else (status,-1)

/-- The loop of `odp_get_available_cpu` over the core ids. -/
def availableFrom (status : LcoreStatus) : List CoreId → LcoreStatus × Int
 | [] => (status,-1)
 | cpuId::cpuIds =>
  match statusIndex cpuId with
  | some i =>
   if status i &&& lcoreBit cpuId = 0 ∧ detected cpuId then
    (update status i (status i ||| lcoreBit cpuId),cpuId.val)
   else availableFrom status cpuIds
  | none => availableFrom status cpuIds

def odpGetAvailableCpu (status : LcoreStatus) : LcoreStatus × Int :=
 availableFrom detected status (List.finRange 128)

def odpCheckCpuStatus (status : LcoreStatus) (cpuId : CoreId) : Int :=
 if detected cpuId then
  match statusIndex cpuId with
  | some i => if lcoreBit cpuId &&& status i ≠ 0 then 1 else 0
  | none => -1
 else -1

inductive Call
 | bind (lcoreId : CoreId)
 | unbind (lcoreId : CoreId)
 | getAvailable
 deriving DecidableEq,Repr

def call (status : LcoreStatus) : Call → LcoreStatus × Int
 | .bind lcoreId => odpBindProcToLcore detected status lcoreId
 | .unbind lcoreId => odpUnbindProcToLcore detected status lcoreId
 | .getAvailable => odpGetAvailableCpu detected status

/-- The status words and the calls so far with what they returned. -/
structure State where
 status : LcoreStatus
 history : List (Call × Int)

def step (s : State) (a : Call) : Option State :=
 let result := call detected s.status a
 some ⟨result.1,s.history++[(a,result.2)]⟩

/-- As `odp_cpu_init` leaves it. -/
def start : State := ⟨fun _ => 0,[]⟩

abbrev Reachable : State → Prop := Transition.Reach (· = start) (step detected) fun _ _ => True

end Packages.Cores

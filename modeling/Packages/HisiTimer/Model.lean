import Packages.Lib.SkipList
import Packages.Lib.Transition

/-!
# The timers of `odp_hisi_timer.c`

The skip list of each core, the status words, and `odp_hisi_timer_reset`, `odp_hisi_timer_stop` and
`odp_hisi_timer_manage` as they take turns. A step is a compare-and-set of a status word, what is
done under the lock of a list, or a plain write; `odp_hisi_timer_manage` keeps its lock over several
steps. A callback may start any calls. Times are 64-bit words; `CORE_ID_ANY` is the core that was
picked.
-/

namespace Packages.HisiTimer

open Function

open HeadList SkipList

def maxSkiplistDepth : Nat := 10

inductive TimerState
 | stop
 | pending
 | running
 | config
 deriving DecidableEq,Repr

/-- `union odp_hisi_timer_status`; no owner is `none`. -/
structure Status (k : Nat) where
 state : TimerState
 owner : Option (Fin k)
 deriving DecidableEq,Repr

-- Skip lists

/-- The links of the timers and of the heads, the expiry times, and the depth of each list. -/
structure Mem (n k : Nat) where
 head : Fin k → Nat → Option (Fin n)
 headExpire : Fin k → Nat
 currSkiplistDepth : Fin k → Nat
 slNext : Fin n → Nat → Option (Fin n)
 expire : Fin n → Nat

variable {n k : Nat}

namespace Mem

variable (m : Mem n k)

/-- `sl_next[lvl]` of a cell: the head of the core or a timer. -/
def next (core : Fin k) (lvl : Nat) : Option (Fin n) → Option (Fin n)
 | none => m.head core lvl
 | some tim => m.slNext tim lvl

def setNext (core : Fin k) (lvl : Nat) (cell value : Option (Fin n)) : Mem n k :=
 match cell with
 | none => { m with head := update m.head core (update (m.head core) lvl value) }
 | some tim => { m with slNext := update m.slNext tim (update (m.slNext tim) lvl value) }

def setDepth (core : Fin k) (depth : Nat) : Mem n k :=
 { m with currSkiplistDepth := update m.currSkiplistDepth core depth }

/-- `pending_head.expire` as it is set from the first timer, zero without one. -/
def setHeadExpire (core : Fin k) (first : Option (Fin n)) : Mem n k :=
 { m with headExpire := update m.headExpire core (first.elim 0 m.expire) }

/-- The loops over a list end within so many timers, or never. -/
def fuel (_ : Mem n k) : Nat := n+1

/-- The cells `prev[0]` to `prev[depth - 1]`; `none` if the search does not end. -/
def timerGetPrevEntries (timeVal : Nat) (core : Fin k) : Option (List (Option (Fin n))) :=
 descend (m.next core) (fun tim => decide (m.expire tim ≤ timeVal)) m.fuel
  (m.currSkiplistDepth core) none

/-- The entry of a level; above the depth it is the head. -/
def prevAt (prev : List (Option (Fin n))) (lvl : Nat) : Option (Fin n) := (prev.getD lvl none)

def timerGetPrevEntriesForNode (tim : Fin n) (core : Fin k) : Option (List (Option (Fin n))) :=
 (m.timerGetPrevEntries ((m.expire tim+(2^64-1))%2^64) core).bind fun prev =>
  (List.range (m.currSkiplistDepth core)).mapM fun lvl =>
   advance (m.next core lvl) (fun t => decide (t ≠ tim ∧ m.expire t ≤ m.expire tim)) m.fuel
    (prevAt prev lvl)

def bsf32 (x : Nat) : Nat := ((List.range 32).find? x.testBit).getD 32

def timerGetSkiplistLevel (rand currDepth : Nat) : Nat :=
 let rand := rand%2^32/2*2
 let level := if rand = 0 then maxSkiplistDepth else (bsf32 rand-1)/2
 min (min level currDepth) (maxSkiplistDepth-1)

/-- The timer is put behind the cell. -/
def link (core : Fin k) (tim : Fin n) (prev : List (Option (Fin n))) (lvl : Nat) : Mem n k :=
 (m.setNext core lvl (some tim) (m.next core lvl (prevAt prev lvl))).setNext core lvl
  (prevAt prev lvl) (some tim)

/-- The levels from `lvl` down. -/
def linkAll (core : Fin k) (tim : Fin n) (prev : List (Option (Fin n))) : Nat → Mem n k → Mem n k
 | 0,m => m.link core tim prev 0
 | lvl+1,m => linkAll core tim prev lvl (m.link core tim prev (lvl+1))

def timerAdd (tim : Fin n) (timCore : Fin k) (rand : Nat) : Option (Mem n k) :=
 (m.timerGetPrevEntries (m.expire tim) timCore).map fun prev =>
  let depth := m.currSkiplistDepth timCore
  let timLevel := timerGetSkiplistLevel rand depth
  let m := if timLevel = depth then m.setDepth timCore (depth+1) else m
  let m := linkAll timCore tim prev timLevel m
  m.setHeadExpire timCore (m.head timCore 0)

def unlink (core : Fin k) (tim : Fin n) (prev : List (Option (Fin n))) (lvl : Nat) : Mem n k :=
 if m.next core lvl (prevAt prev lvl) = some tim
 then m.setNext core lvl (prevAt prev lvl) (m.slNext tim lvl) else m

/-- The levels below `lvl`, from the top. -/
def unlinkAll (core : Fin k) (tim : Fin n) (prev : List (Option (Fin n))) : Nat → Mem n k → Mem n k
 | 0,m => m
 | lvl+1,m => unlinkAll core tim prev lvl (m.unlink core tim prev lvl)

/-- The depth without empty levels at the top. -/
def shrink (core : Fin k) : Nat → Mem n k → Mem n k
 | 0,m => m
 | lvl+1,m =>
  if m.head core lvl = none then shrink core lvl (m.setDepth core (m.currSkiplistDepth core-1))
   else m

def timerDel (tim : Fin n) (prevOwner : Fin k) : Option (Mem n k) :=
 let m := if m.head prevOwner 0 = some tim then m.setHeadExpire prevOwner (m.slNext tim 0) else m
 (m.timerGetPrevEntriesForNode tim prevOwner).map fun prev =>
  let depth := m.currSkiplistDepth prevOwner
  shrink prevOwner depth (unlinkAll prevOwner tim prev depth m)

/-- One level of the list is broken behind the cell. -/
def breakLevel (core : Fin k) (prev : List (Option (Fin n))) (lvl : Nat) : Mem n k :=
 let rest := m.next core lvl (prevAt prev lvl)
 let m := m.setNext core lvl none rest
 let m := if rest = none then m.setDepth core (m.currSkiplistDepth core-1) else m
 m.setNext core lvl (prevAt prev lvl) none

def breakAll (core : Fin k) (prev : List (Option (Fin n))) : Nat → Mem n k → Mem n k
 | 0,m => m
 | lvl+1,m => breakAll core prev lvl (m.breakLevel core prev lvl)

/-- `odp_hisi_timer_manage` breaks the list at the current time. -/
def breakList (core : Fin k) (curTime : Nat) : Option (Mem n k) :=
 (m.timerGetPrevEntries curTime core).map fun prev =>
  breakAll core prev (m.currSkiplistDepth core) m

end Mem

-- Calls

inductive Op (k : Nat)
 | reset (expire period : Nat) (timCore : Fin k)
 | stop
 deriving DecidableEq,Repr

/-- What a call does next. -/
inductive Stage (k : Nat)
 | config
 | del (prevOwner : Fin k)
 | write
 | add
 | publish
 deriving DecidableEq,Repr

/-- A call of `__odp_hisi_timer_reset` or `odp_hisi_timer_stop`. -/
structure Call (n k : Nat) where
 tim : Fin n
 op : Op k
 localIsLocked : Bool
 stage : Stage k
 deriving DecidableEq,Repr

/-- Where `odp_hisi_timer_manage` is. While it walks over the run list, and while it arms a periodic
timer again, it has the lock of its list. -/
inductive Manage (n : Nat)
 | idle
 | sampled (curTime : Nat)
 | walking (curTime : Nat) (tim : Option (Fin n))
 | callback (curTime : Nat) (tim : Fin n) (nextTim : Option (Fin n))
 | rearming (curTime : Nat) (tim : Fin n) (nextTim : Option (Fin n))
 deriving DecidableEq,Repr

/-- Where the walk over the run list goes on. -/
def Manage.rest : Manage n → Option (Fin n)
 | .idle | .sampled _ => none
 | .walking _ tim => tim
 | .callback _ _ nextTim | .rearming _ _ nextTim => nextTim

/-- The time that was sampled. -/
def Manage.curTime : Manage n → Nat
 | .idle => 0
 | .sampled curTime | .walking curTime _ | .callback curTime _ _ | .rearming curTime _ _ => curTime

def Manage.locked : Manage n → Bool
 | .idle | .sampled _ | .callback .. => false
 | .walking .. | .rearming .. => true

structure State (n k : Nat) where
 mem : Mem n k
 status : Fin n → Status k
 period : Fin n → Nat
 updated : Fin k → Bool
 manage : Fin k → Manage n
 call : Fin k → Option (Call n k)

inductive Action (n k : Nat)
 /-- A core calls `odp_hisi_timer_reset` or `odp_hisi_timer_stop`, maybe from a callback. -/
 | call (tim : Fin n) (op : Op k)
 /-- A core calls `odp_hisi_timer_manage`. -/
 | manage (curTime : Nat)
 /-- A core goes on; the number is the one that `odp_random_data` would give. -/
 | next (rand : Nat)
 /-- A callback returns. -/
 | ret
 deriving DecidableEq,Repr

namespace State

variable (s : State n k)

/-- All timers are stopped and all lists are empty. -/
def init : State n k where
 mem := ⟨fun _ _ => none,fun _ => 0,fun _ => 0,fun _ _ => none,fun _ => 0⟩
 status _ := ⟨.stop,none⟩
 period _ := 0
 updated _ := false
 manage _ := .idle
 call _ := none

def setCall (core : Fin k) (call : Option (Call n k)) : State n k :=
 { s with call := update s.call core call }

def setManage (core : Fin k) (manage : Manage n) : State n k :=
 { s with manage := update s.manage core manage }

def setStatus (tim : Fin n) (status : Status k) : State n k :=
 { s with status := update s.status tim status }

/-- A call returns; `odp_hisi_timer_manage` goes on if it made the call. -/
def return_ (core : Fin k) : State n k :=
 let s := s.setCall core none
 match s.manage core with
 | .rearming curTime _ nextTim => s.setManage core (.walking curTime nextTim)
 | _ => s

/-- Whether a call has to wait for the lock of a list. -/
def mayLock (core : Fin k) (call : Call n k) (listCore : Fin k) : Bool :=
 (listCore = core ∧ call.localIsLocked = true) ∨ (s.manage listCore).locked = false

/-- What a call does behind `timer_set_config_state`. -/
def Call.afterConfig (call : Call n k) (prev : Status k) : Call n k :=
 match prev.state,prev.owner,call.op with
 | .pending,some owner,_ => { call with stage := .del owner }
 | _,_,.reset .. => { call with stage := .write }
 | _,_,.stop => { call with stage := .publish }

/-- `timer_set_config_state` -/
def config (core : Fin k) (call : Call n k) : State n k :=
 let prev := s.status call.tim
 if prev.state = .running ∧ prev.owner ≠ some core ∨ prev.state = .config then s.return_ core
 else
  let s := s.setStatus call.tim ⟨.config,some core⟩
  let s := if prev.state = .running then { s with updated := update s.updated core true } else s
  s.setCall core (some (Call.afterConfig call prev))

/-- One step of a call. -/
def callStep (core : Fin k) (rand : Nat) (call : Call n k) : Option (State n k) :=
 match call.stage,call.op with
 | .config,_ => some (s.config core call)
 | .del prevOwner,op =>
  if s.mayLock core call prevOwner = true then
   (s.mem.timerDel call.tim prevOwner).map fun mem =>
    { s with mem := mem }.setCall core
      (some { call with stage := match op with | .reset .. => .write | .stop => .publish })
  else none
 | .write,.reset expire period _ =>
  some ({ s with
   mem := { s.mem with expire := update s.mem.expire call.tim (expire%2^64) }
   period := update s.period call.tim period }.setCall core
    (some { call with stage := .add }))
 | .add,.reset _ _ timCore =>
  if s.mayLock core call timCore = true then
   (s.mem.timerAdd call.tim timCore rand).map fun mem =>
    { s with mem := mem }.setCall core (some { call with stage := .publish })
  else none
 | .publish,.reset _ _ timCore => some ((s.setStatus call.tim ⟨.pending,some timCore⟩).return_ core)
 | .publish,.stop => some ((s.setStatus call.tim ⟨.stop,none⟩).return_ core)
 -- a stop writes and adds nothing
 | .write,.stop | .add,.stop => none

/-- The list is broken, if its first timer has expired. -/
def manageStart (core : Fin k) (curTime : Nat) : Option (State n k) :=
 match s.mem.head core 0 with
 | none => some (s.setManage core .idle)
 | some tim =>
  if curTime < s.mem.expire tim then some (s.setManage core .idle)
  else (s.mem.breakList core curTime).map fun mem =>
   { s with mem := mem }.setManage core (.walking curTime (some tim))

/-- One round of the walk over the run list. -/
def manageWalk (core : Fin k) (curTime : Nat) : Option (Fin n) → State n k
 | none => { s with mem := s.mem.setHeadExpire core (s.mem.head core 0) }.setManage core .idle
 | some tim =>
  let nextTim := s.mem.slNext tim 0
  if (s.status tim).state = .pending then
   { s.setStatus tim ⟨.running,some core⟩ with
     updated := update s.updated core false }.setManage core (.callback curTime tim nextTim)
  else s.setManage core (.walking curTime nextTim)

/-- The callback has returned and the lock is taken again. -/
def manageReturn (core : Fin k) (curTime : Nat) (tim : Fin n) (nextTim : Option (Fin n)) :
 State n k :=
 if s.updated core = true then s.setManage core (.walking curTime nextTim)
 else if s.period tim = 0 then
  (s.setStatus tim ⟨.stop,none⟩).setManage core (.walking curTime nextTim)
 else
  ((s.setStatus tim ⟨.pending,some core⟩).setManage core (.rearming curTime tim nextTim)).setCall
   core (some ⟨tim,.reset (curTime+s.period tim) (s.period tim) core,true,.config⟩)

/-- A core that is in no call, or in a callback, may start one. -/
def mayCall (core : Fin k) : Bool :=
 (s.call core).isNone &&
  match s.manage core with
  | .idle | .callback .. => true
  | _ => false

def step (a : Fin k × Action n k) : Option (State n k) :=
 let core := a.1
 match a.2 with
 | .call tim op =>
  if s.mayCall core = true then some (s.setCall core (some ⟨tim,op,false,.config⟩)) else none
 | .manage curTime =>
  if s.call core = none ∧ s.manage core = .idle then
   -- without the lock: nothing to do if the list is empty
   if s.mem.head core 0 = none then some s else some (s.setManage core (.sampled curTime))
  else none
 | .next rand =>
  match s.call core,s.manage core with
  | some call,_ => s.callStep core rand call
  | none,.sampled curTime => s.manageStart core curTime
  | none,.walking curTime tim => some (s.manageWalk core curTime tim)
  | none,_ => none
 | .ret =>
  match s.call core,s.manage core with
  | none,.callback curTime tim nextTim => some (s.manageReturn core curTime tim nextTim)
  | _,_ => none

/-- The timers on one level of the list of a core. -/
def levelList (core : Fin k) (lvl : Nat) : List (Fin n) :=
 Linked.walk (s.mem.slNext · lvl) n (s.mem.head core lvl)

def pendingList (core : Fin k) : List (Fin n) := s.levelList core 0

/-- The timers that `odp_hisi_timer_manage` of a core still has to walk over. -/
def runList (core : Fin k) : List (Fin n) := Linked.walk (s.mem.slNext · 0) n (s.manage core).rest

end State

end Packages.HisiTimer

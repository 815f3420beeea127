import Packages.HashTable.Buckets
import Packages.Lib.Transition

/-!
# Threads on one hash table

`odph_hash_put_value` and `odph_hash_remove_value` step by step: every comparison, test of a link
and store is a step. A bucket is walked and changed under its lock; `odp_hashnode_take` takes none.
A thread that would follow a null link, or take the head of another bucket for a node, has no next
step.
-/

namespace Packages.HashTable

open Function

variable {keySize valueSize n : Nat}

inductive Call (keySize valueSize : Nat)
 | put (key : Key keySize) (value : Value valueSize)
 | remove (key : Key keySize)
 deriving DecidableEq

def Call.key : Call keySize valueSize → Key keySize
 | .put key _ => key
 | .remove key => key

/-- One store to the memory of the table. -/
inductive Store (keySize valueSize : Nat)
 | next (o : ListObject) (v : Option ListObject)
 | prev (o : ListObject) (v : Option ListObject)
 | key (idx : Nat) (key : Key keySize)
 | value (idx : Nat) (value : Value valueSize)
 deriving DecidableEq

def Store.target : Store keySize valueSize → ListObject
 | .next o _ => o
 | .prev o _ => o
 | .key idx _ => .node idx
 | .value idx _ => .node idx

def TableImp.store (t : TableImp keySize valueSize) :
 Store keySize valueSize → TableImp keySize valueSize
 | .next o v => { t with links := t.links.setNext o v }
 | .prev o v => { t with links := t.links.setPrev o v }
 | .key idx key => t.setContent idx (key,(t.content idx).2)
 | .value idx value => t.setContent idx ((t.content idx).1,value)

def TableImp.storeAll (t : TableImp keySize valueSize) (stores : List (Store keySize valueSize)) :
 TableImp keySize valueSize :=
 stores.foldl TableImp.store t

/-- `ODPH_INIT_LIST_HEAD` of a node that was found free, and the two `memcpy`. -/
def fillStores (idx : Nat) (key : Key keySize) (value : Value valueSize) :
 List (Store keySize valueSize) :=
 [.next (.node idx) (some (.node idx)),.prev (.node idx) (some (.node idx)),.key idx key,
  .value idx value]

/-- `__odph_list_add`. -/
def addStores (idx hash : Nat) (next : ListObject) : List (Store keySize valueSize) :=
 [.prev next (some (.node idx)),.next (.node idx) (some next),.prev (.node idx) (some (.head hash)),
  .next (.head hash) (some (.node idx))]

/-- `odp_hashnode_give`: `odph_list_del`, then the `memset`. -/
def giveStores (idx : Nat) (prev next : ListObject) : List (Store keySize valueSize) :=
 [.prev next (some prev),.next prev (some next),
  .next (.node idx) (some (.node idx)),.prev (.node idx) (some (.node idx)),
  .next (.node idx) none,.prev (.node idx) none,
  .key idx (.replicate keySize 0),.value idx (.replicate valueSize 0)]

/-- What a series of stores is for. -/
inductive Kind
 | set
 | fill
 | add
 | give
 deriving DecidableEq

/-- What a thread does next. -/
inductive Pc (keySize valueSize : Nat)
 | idle
 | lock (call : Call keySize valueSize)
 | first (call : Call keySize valueSize)
 | walk (call : Call keySize valueSize) (pos : ListObject)
 | follow (call : Call keySize valueSize) (idx : Nat)
 | testNext (key : Key keySize) (value : Value valueSize) (idx : Nat)
 | testPrev (key : Key keySize) (value : Value valueSize) (idx : Nat)
 | listAdd (key : Key keySize) (value : Value valueSize) (idx : Nat)
 | listDel (key : Key keySize) (idx : Nat)
 | write (call : Call keySize valueSize) (kind : Kind) (idx : Nat)
  (todo : List (Store keySize valueSize))
 | unlock (call : Call keySize valueSize) (ret : Int)
 deriving DecidableEq

/-- The table, who has the lock of each bucket, and the threads. `last` is the value of a key whose
last completed operation was a successful put. -/
structure State (n keySize valueSize : Nat) where
 table : TableImp keySize valueSize
 lock : Nat → Option (Fin n)
 pc : Fin n → Pc keySize valueSize
 last : Key keySize → Option (Value valueSize)

inductive Action (n keySize valueSize : Nat)
 | start (t : Fin n) (call : Call keySize valueSize)
 | go (t : Fin n)

variable (s : State n keySize valueSize)

def State.goto (t : Fin n) (pc : Pc keySize valueSize) : State n keySize valueSize :=
 { s with pc := update s.pc t pc }

@[simp] lemma State.goto_pc_self (u : Fin n) (pc : Pc keySize valueSize) :
 (s.goto u pc).pc u = pc :=
 update_self ..

lemma State.goto_pc_of_ne {u v : Fin n} (h : v ≠ u) (pc : Pc keySize valueSize) :
 (s.goto u pc).pc v = s.pc v :=
 update_of_ne h ..

def Call.outcome (ret : Int) : Call keySize valueSize → Option (Value valueSize)
 | .put _ value => if ret = odphSuccess then some value else none
 | .remove _ => none

/-- The next step of a thread within a call. -/
def State.go (t : Fin n) : Option (State n keySize valueSize) :=
 let table := s.table
 match s.pc t with
 | .idle => none
 | .lock call =>
  let hash := table.hash call.key
  if s.lock hash = none then
   some { s.goto t (.first call) with lock := update s.lock hash (some t) }
  else none
 | .first call =>
  (table.links.next (.head (table.hash call.key))).map fun pos => s.goto t (.walk call pos)
 | .walk call (.head hash) =>
  if hash = table.hash call.key then
   match call with
   | .put key value => some (s.goto t (.testNext key value 0))
   | .remove _ => some (s.goto t (.unlock call odphSuccess))
  else none
 | .walk call (.node idx) =>
  if table.KeyAt call.key idx then
   match call with
   | .put _ value => some (s.goto t (.write call .set idx [.value idx value]))
   | .remove key => some (s.goto t (.listDel key idx))
  else some (s.goto t (.follow call idx))
 | .follow call idx => (table.links.next (.node idx)).map fun pos => s.goto t (.walk call pos)
 | .testNext key value idx =>
  if idx < table.hashNodeNum then
   if table.InBlock idx then
    if table.links.next (.node idx) = none then some (s.goto t (.testPrev key value idx))
    else some (s.goto t (.testNext key value (idx+1)))
   else none
  else some (s.goto t (.unlock (.put key value) odphFail))
 | .testPrev key value idx =>
  if table.links.prev (.node idx) = none then
   some (s.goto t (.write (.put key value) .fill idx (fillStores idx key value)))
  else some (s.goto t (.testNext key value (idx+1)))
 | .listAdd key value idx =>
  (table.links.next (.head (table.hash key))).map fun next =>
   s.goto t (.write (.put key value) .add idx (addStores idx (table.hash key) next))
 | .listDel key idx =>
  match table.links.prev (.node idx),table.links.next (.node idx) with
  | some prev,some next =>
   some (s.goto t (.write (.remove key) .give idx (giveStores idx prev next)))
  | _,_ => none
 | .write call kind idx (st::todo) =>
  some { s.goto t (.write call kind idx todo) with table := table.store st }
 | .write call kind idx [] =>
  match kind,call with
  | .fill,.put key value => some (s.goto t (.listAdd key value idx))
  | _,_ => some (s.goto t (.unlock call odphSuccess))
 | .unlock call ret =>
  some { s.goto t .idle with
   lock := update s.lock (table.hash call.key) none
   last := update s.last call.key (call.outcome ret) }

def step : Action n keySize valueSize → Option (State n keySize valueSize)
 | .start t call => if s.pc t = .idle then some (s.goto t (.lock call)) else none
 | .go t => s.go t

/-- A new table of the given size in megabytes. -/
def start (n keySize valueSize : Nat) (signed : Bool) (capacity : Nat) :
 State n keySize valueSize :=
 ⟨.create keySize valueSize signed capacity,fun _ => none,fun _ => .idle,fun _ => none⟩

/-- The node is met on the way along the `next` links of the bucket. -/
def TableImp.Linked (t : TableImp keySize valueSize) (hash idx : Nat) : Prop :=
 Relation.ReflTransGen (fun o o' => t.links.next o = some o') (.head hash) (.node idx)

-- Who is at work on a node

/-- The thread has found the node's `next` link null, or has stores to the node left to make. -/
def Pc.amid (idx : Nat) : Pc keySize valueSize → Bool
 | .testPrev _ _ i => i = idx
 | .write _ _ _ todo => todo.any (·.target = .node idx)
 | _ => false

/-- Nobody finds a node's `next` link null while another thread is at work on the node. -/
def poolSafe : Action n keySize valueSize → Bool
 | .start _ _ => true
 | .go t =>
  match s.pc t with
  | .testNext _ _ idx =>
   s.table.links.next (.node idx) ≠ none ∨ ∀ u, u ≠ t → (s.pc u).amid idx = false
  | _ => true

end Packages.HashTable

import Packages.Lib.Circular
import Packages.Lib.Word32

/-!
# The hash table of the helper library

`odph_hash_table_create` cuts one block of memory into a control structure, locks and list heads for
the buckets and a pool of nodes: two links, both null if the node is free, a key and a value. An
access outside the block, a null link that is followed and a walk without end have no result.
-/

namespace Packages.HashTable

def maxBucketNum : Nat := 0x10000

def tableNameLen : Nat := 32

def odphSuccess : Int := 0

def odphFail : Int := -1

-- `sizeof` of the control structure, of a lock and of the two links, on a 64-bit target.
def sizeofTableImp : Nat := 96

def sizeofRwlock : Nat := 4

def sizeofListHead : Nat := 16

/-- An `odph_list_object`: the head of a bucket or the links of a node. -/
inductive ListObject
 | head (hash : Nat)
 | node (idx : Nat)
 deriving Repr,DecidableEq

abbrev Key (keySize : Nat) := Vector UInt8 keySize

abbrev Value (valueSize : Nat) := Vector UInt8 valueSize

/-- `odph_hash_table_imp`: its sizes, its pools and the memory of the nodes. -/
structure TableImp (keySize valueSize : Nat) where
 initCap : Nat
 hashNodeNum : Nat
 links : Links ListObject
 content : Nat → Key keySize × Value valueSize
 /-- The target's plain `char` is signed. -/
 charSigned : Bool

variable {keySize valueSize : Nat}

-- Creation

/-- The checks of `odph_hash_table_create`. -/
def createAccepts (nameLen capacity keySize valueSize : Nat) : Bool :=
 !(decide (tableNameLen ≤ nameLen) || decide (capacity < 1) || decide (0x1000 ≤ capacity) ||
  keySize == 0 || valueSize == 0)

def hashNodeSize (keySize valueSize : Nat) : Nat := sizeofListHead+keySize+valueSize

/-- Where the pool of nodes begins in the block. -/
def hashNodePool : Nat :=
 sizeofTableImp+maxBucketNum*sizeofRwlock+maxBucketNum*sizeofListHead

def nodeMem (initCap : Nat) : Nat :=
 sub32 (sub32 (sub32 initCap sizeofTableImp) (maxBucketNum*sizeofListHead))
  (maxBucketNum*sizeofRwlock)

/-- Zeroed memory: every link is null. -/
def zeroLinks : Links ListObject := ⟨fun _ => none,fun _ => none⟩

def zeroContent : Key keySize × Value valueSize := (.replicate keySize 0,.replicate valueSize 0)

/-- The loop over the list heads, after `n` rounds. -/
def initListHeads : Nat → Links ListObject
 | 0 => zeroLinks
 | i+1 => (initListHeads i).reset (.head i)

def TableImp.create (keySize valueSize : Nat) (charSigned : Bool) (capacity : Nat) :
 TableImp keySize valueSize where
 initCap := capacity <<< 20
 hashNodeNum := nodeMem (capacity <<< 20)/hashNodeSize keySize valueSize
 links := initListHeads maxBucketNum
 content := fun _ => zeroContent
 charSigned := charSigned

-- Hash, walk and node pool

/-- A `char` converted to `uint32_t`. -/
def charToU32 (signed : Bool) (c : UInt8) : Nat :=
 if signed && decide (128 ≤ c.toNat) then 2^32-256+c.toNat else c.toNat

def keyHashLoop (ch : Nat) : Nat → Nat → Nat
 | 0,hash => hash
 | idx+1,hash => keyHashLoop ch idx ((hash*131+ch)%2^32)

/-- The loop of `odp_key_hash` never moves on from the first byte of the key. -/
def keyHash (signed : Bool) (key : Key keySize) : Nat :=
 keyHashLoop (charToU32 signed (key[0]?.getD 0)) (if keySize = 0 then 1 else keySize) 0%2^16

namespace TableImp

variable (t : TableImp keySize valueSize)

def hash (key : Key keySize) : Nat := keyHash t.charSigned key

/-- `memcmp` on the key of a node. -/
def KeyAt (key : Key keySize) (idx : Nat) : Prop := (t.content idx).1 = key

instance (key : Key keySize) : DecidablePred (t.KeyAt key) :=
 fun _ => inferInstanceAs (Decidable (_ = _))

/-- `ODPH_LIST_FOR_EACH` up to the node that holds the key. -/
def forEach (key : Key keySize) : Nat → ListObject → Option (Option Nat)
 | 0,_ => none
 | _+1,.head h => if h = t.hash key then some none else none
 | fuel+1,.node idx =>
  if t.KeyAt key idx then some (some idx)
  else match t.links.next (.node idx) with
   | none => none
   | some pos => forEach key fuel pos

/-- The node of a key in its bucket. No list is longer than the pool. -/
def findNode (key : Key keySize) : Option (Option Nat) :=
 match t.links.next (.head (t.hash key)) with
 | none => none
 | some pos => t.forEach key (t.hashNodeNum+1) pos

/-- The node lies inside the block. -/
def InBlock (idx : Nat) : Prop :=
 hashNodePool+(idx+1)*hashNodeSize keySize valueSize ≤ t.initCap

instance (idx : Nat) : Decidable (t.InBlock idx) := inferInstanceAs (Decidable (_ ≤ _))

def Free (idx : Nat) : Prop := t.links.next (.node idx) = none ∧ t.links.prev (.node idx) = none

instance (idx : Nat) : Decidable (t.Free idx) := inferInstanceAs (Decidable (_ ∧ _))

/-- The scan of `odp_hashnode_take`, with the number of nodes left. -/
def scanFree : Nat → Nat → Option (Option Nat)
 | 0,_ => some none
 | left+1,idx =>
  if t.InBlock idx then
   if t.Free idx then some (some idx) else scanFree left (idx+1)
  else none

def hashnodeTake : Option (Option Nat × TableImp keySize valueSize) :=
 match t.scanFree t.hashNodeNum 0 with
 | none => none
 | some none => some (none,t)
 | some (some idx) => some (some idx,{ t with links := t.links.reset (.node idx) })

def setContent (idx : Nat) (c : Key keySize × Value valueSize) : TableImp keySize valueSize :=
 { t with content := Function.update t.content idx c }

def listAdd (new head : ListObject) : Option (TableImp keySize valueSize) :=
 match t.links.next head with
 | none => none
 | some next => some { t with links := t.links.insert new head next }

def listDel (entry : ListObject) : Option (TableImp keySize valueSize) :=
 match t.links.prev entry,t.links.next entry with
 | some prev,some next => some { t with links := (t.links.join prev next).reset entry }
 | _,_ => none

/-- `odp_hashnode_give`: the node is taken off its list and zeroed. -/
def hashnodeGive (idx : Nat) : Option (TableImp keySize valueSize) :=
 match t.listDel (.node idx) with
 | none => none
 | some t => some { t with
  links := t.links.clear (.node idx)
  content := Function.update t.content idx zeroContent }

-- The three operations

/-- `odph_hash_put_value`; a null argument is `none`. -/
def putValue : Option (Key keySize) → Option (Value valueSize) →
 Option (Int × TableImp keySize valueSize)
 | some key,some value =>
  match t.findNode key with
  | none => none
  | some (some idx) => some (odphSuccess,t.setContent idx ((t.content idx).1,value))
  | some none =>
   match t.hashnodeTake with
   | none => none
   | some (none,t) => some (odphFail,t)
   | some (some idx,t) =>
    ((t.setContent idx (key,value)).listAdd (.node idx) (.head (t.hash key))).map (odphSuccess,·)
 | _,_ => some (odphFail,t)

/-- `odph_hash_get_value`; the buffer is given by its size. -/
def getValue : Option (Key keySize) → Option Nat → Option (Int × Option (Value valueSize))
 | some key,some bufferSize =>
  if bufferSize < valueSize then some (odphFail,none)
  else match t.findNode key with
   | none => none
   | some none => some (odphFail,none)
   | some (some idx) => some (odphSuccess,some (t.content idx).2)
 | _,_ => some (odphFail,none)

def removeValue : Option (Key keySize) → Option (Int × TableImp keySize valueSize)
 | some key =>
  match t.findNode key with
  | none => none
  | some none => some (odphSuccess,t)
  | some (some idx) => (t.hashnodeGive idx).map (odphSuccess,·)
 | none => some (odphFail,t)

end TableImp

inductive Op (keySize valueSize : Nat)
 | put (key : Option (Key keySize)) (value : Option (Value valueSize))
 | get (key : Option (Key keySize)) (bufferSize : Option Nat)
 | remove (key : Option (Key keySize))

/-- The returned number and what was copied to the caller's buffer. -/
structure Reply (valueSize : Nat) where
 ret : Int
 value : Option (Value valueSize)
 deriving DecidableEq

def TableImp.apply (t : TableImp keySize valueSize) :
 Op keySize valueSize → Option (Reply valueSize × TableImp keySize valueSize)
 | .put key value => (t.putValue key value).map fun r => (⟨r.1,none⟩,r.2)
 | .get key bufferSize => (t.getValue key bufferSize).map fun r => (⟨r.1,r.2⟩,t)
 | .remove key => (t.removeValue key).map fun r => (⟨r.1,none⟩,r.2)

/-- A sequence of operations and their replies. -/
def TableImp.run (t : TableImp keySize valueSize) :
 List (Op keySize valueSize) → Option (List (Reply valueSize) × TableImp keySize valueSize)
 | [] => some ([],t)
 | op::ops =>
  match t.apply op with
  | none => none
  | some (r,t) => (t.run ops).map fun rs => (r::rs.1,rs.2)

end Packages.HashTable

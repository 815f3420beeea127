import Packages.HashTable.Model
import Packages.Lib.Region

/-!
# The memory of a hash table

The four parts into which `odph_hash_table_create` cuts the block, as offsets from its beginning.
The two pools of 65536 entries alone take more than one of the units of 2^20 bytes that a capacity
counts, so the parts fit exactly for the capacities from two on.
-/

namespace Packages.HashTable

open Region

variable {nameLen capacity keySize valueSize : Nat}

def control : Region := ⟨0,sizeofTableImp⟩

def lockPool : Region := ⟨sizeofTableImp,maxBucketNum*sizeofRwlock⟩

def listHeadPool : Region := ⟨sizeofTableImp+maxBucketNum*sizeofRwlock,maxBucketNum*sizeofListHead⟩

/-- The nodes that `odp_hashnode_take` looks at. -/
def TableImp.nodePool (t : TableImp keySize valueSize) : Region :=
 ⟨hashNodePool,t.hashNodeNum*hashNodeSize keySize valueSize⟩

def TableImp.parts (t : TableImp keySize valueSize) : List Region :=
 [control,lockPool,listHeadPool,t.nodePool]

lemma capacity_of_accepts (h : createAccepts nameLen capacity keySize valueSize = true) :
 0 < capacity ∧ capacity < 2^12 := by
 simp only [createAccepts,Bool.not_eq_true',Bool.or_eq_false_iff,decide_eq_false_iff_not] at h
 omega

lemma nodeMem_eq (hcap : 2 ≤ capacity) (hlt : capacity < 2^12) :
 nodeMem (capacity <<< 20)+hashNodePool = capacity*2^20 := by
 simp only [Nat.shiftLeft_eq,nodeMem,sub32,hashNodePool,maxBucketNum,sizeofTableImp,sizeofListHead,
  sizeofRwlock]
 omega

lemma nodePool_le (keySize valueSize : Nat) (charSigned : Bool) (hcap : 2 ≤ capacity)
 (hlt : capacity < 2^12) :
 hashNodePool+(TableImp.create keySize valueSize charSigned capacity).nodePool.len ≤
  capacity*2^20 := by
 have hdiv := Nat.div_mul_le_self (nodeMem (capacity <<< 20)) (hashNodeSize keySize valueSize)
 have hmem := nodeMem_eq hcap hlt
 show hashNodePool+nodeMem (capacity <<< 20)/_*_ ≤ _
 omega

/-- The parts of a table are disjoint and lie in the reserved block exactly if it has two units or
more. -/
theorem hash_table_layout (nameLen capacity keySize valueSize : Nat) (charSigned : Bool)
 (haccepts : createAccepts nameLen capacity keySize valueSize = true) :
 ((TableImp.create keySize valueSize charSigned capacity).parts.Pairwise Apart ∧
  ∀ r ∈ (TableImp.create keySize valueSize charSigned capacity).parts, r.Within ⟨0,capacity*2^20⟩) ↔
 2 ≤ capacity := by
 constructor
 · intro h
   have hlists : 1310816 ≤ 0+capacity*2^20 := (h.2 listHeadPool (by simp [TableImp.parts])).2
   omega
 intro hcap
 have hpool := nodePool_le keySize valueSize charSigned hcap
  (capacity_of_accepts haccepts).2
 have hbase : hashNodePool = 1310816 := rfl
 generalize hlen : (TableImp.create keySize valueSize charSigned capacity).nodePool.len =
  len at hpool
 have hnode : (TableImp.create keySize valueSize charSigned capacity).nodePool =
  ⟨hashNodePool,len⟩ :=
  hlen ▸ rfl
 simp only [TableImp.parts,hnode,List.pairwise_cons,List.forall_mem_cons,Apart,Within,
  control,lockPool,listHeadPool,sizeofTableImp,maxBucketNum,sizeofRwlock,sizeofListHead]
 simp
 omega

theorem hash_table_layout_two :
 (TableImp.create 4 8 true 2).parts.Pairwise Apart ∧
 ∀ r ∈ (TableImp.create 4 8 true 2).parts, r.Within ⟨0,2*2^20⟩ :=
 (hash_table_layout 5 2 4 8 true rfl).mpr (le_refl 2)

/-- With one unit the list heads end behind the block, and so does every node. -/
theorem hash_table_layout_overflows : createAccepts 5 1 4 8 = true ∧
 ¬ listHeadPool.Within ⟨0,1*2^20⟩ ∧ ¬ (TableImp.create 4 8 true 1).nodePool.Within ⟨0,1*2^20⟩ := by
 decide

end Packages.HashTable

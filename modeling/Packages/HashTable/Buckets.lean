import Packages.HashTable.Model

/-!
# The buckets and the free nodes

`Layout t bucket used` lists what hangs on every head and which nodes are in use. Lookup and
allocation are read off these lists, and every store of the table keeps a layout.
-/

namespace Packages.HashTable

open Function TableImp ListObject Nat
open List (nodup_cons range mem_range mem_cons mem_map map_append map_cons)

variable {keySize valueSize : Nat} {t : TableImp keySize valueSize}
 {bucket : Nat → List Nat} {used : List Nat} {key : Key keySize}
 {value : Value valueSize} {idx : Nat}

attribute [local simp] forEach Links.reset Links.setNext Links.setPrev

structure Layout (t : TableImp keySize valueSize) (bucket : Nat → List Nat) (used : List Nat) :
 Prop where
 ring : ∀ b < maxBucketNum, t.links.Ring (.head b) ((bucket b).map .node)
 mem : ∀ b i, i ∈ bucket b ↔ i ∈ used ∧ t.hash (t.content i).1 = b
 nodup : used.Nodup
 lt : ∀ i ∈ used, i < t.hashNodeNum
 free : ∀ i < t.hashNodeNum, i ∉ used → t.Free i
 inBlock : ∀ i < t.hashNodeNum, t.InBlock i
 key_inj : ∀ i ∈ used, ∀ j ∈ used, (t.content i).1 = (t.content j).1 → i = j

lemma hash_lt (t : TableImp keySize valueSize) (key : Key keySize) : t.hash key < maxBucketNum :=
 mod_lt _ (by decide)

@[simp] lemma hash_setContent (t : TableImp keySize valueSize) (idx : Nat)
 (c : Key keySize × Value valueSize) (key : Key keySize) :
 (t.setContent idx c).hash key = t.hash key := rfl

namespace Layout

section

variable (hl : Layout t bucket used)

include hl

lemma bucket_nodup {b : Nat} (hb : b < maxBucketNum) : (bucket b).Nodup :=
 List.Nodup.of_map _ (nodup_cons.mp (hl.ring b hb).nodup).2

lemma mem_bucket (hidx : idx ∈ used) :
 idx ∈ bucket (t.hash (t.content idx).1) := (hl.mem _ _).mpr ⟨hidx,rfl⟩

lemma not_free (hidx : idx ∈ used) : ¬ t.Free idx := fun hfree =>
 (hl.ring _ (hash_lt t _)).next_ne_none (List.mem_map_of_mem (hl.mem_bucket hidx)) hfree.1

lemma length_used_le : used.length ≤ t.hashNodeNum := by
 have hsub : used ⊆ range t.hashNodeNum := fun i hi => mem_range.mpr (hl.lt i hi)
 simpa using (hl.nodup.subperm hsub).length_le

lemma length_bucket_le {b : Nat} (hb : b < maxBucketNum) : (bucket b).length ≤ t.hashNodeNum := by
 have hsub : bucket b ⊆ used := fun i hi => ((hl.mem b i).mp hi).1
 exact ((hl.bucket_nodup hb).subperm hsub).length_le.trans hl.length_used_le

end

end Layout

-- Lookup and allocation

lemma forEach_path {l : List Nat} {a : ListObject} {fuel : Nat}
 (h : t.links.Path a (l.map .node) (.head (t.hash key))) (hfuel : l.length < fuel) :
 ∃ pos, t.links.next a = some pos ∧ t.forEach key fuel pos = some (l.find? (t.KeyAt key ·)) := by
 induction l generalizing a fuel with
 | nil =>
  obtain ⟨fuel,rfl⟩ := Nat.exists_eq_add_of_lt hfuel
  exact ⟨_,h.1,by simp⟩
 | cons x l ih =>
  obtain ⟨⟨hnext,-⟩,hrest⟩ := h
  obtain ⟨fuel,rfl⟩ : ∃ n, fuel = n+1 := ⟨fuel-1,by omega⟩
  obtain ⟨pos,hpos,hwalk⟩ := ih hrest (lt_of_succ_lt_succ hfuel)
  refine ⟨_,hnext,?_⟩
  by_cases hx : t.KeyAt key x
  · simp [hx]
  · simp [hx,hpos,hwalk]

lemma Layout.findNode_eq (hl : Layout t bucket used) (key : Key keySize) :
 t.findNode key = some ((bucket (t.hash key)).find? (t.KeyAt key ·)) := by
 have hb := hash_lt t key
 obtain ⟨pos,hpos,hwalk⟩ :=
  forEach_path (hl.ring _ hb).path (lt_succ_of_le (hl.length_bucket_le hb))
 simp only [findNode,hpos,hwalk]

lemma Layout.findNode_cases (hl : Layout t bucket used) (key : Key keySize) :
 (∃ idx ∈ used, (t.content idx).1 = key ∧ t.findNode key = some (some idx)) ∨
  (∀ idx ∈ used, (t.content idx).1 ≠ key) ∧ t.findNode key = some none := by
 rw [hl.findNode_eq key]
 cases hfind : (bucket (t.hash key)).find? (t.KeyAt key ·) with
 | none =>
  refine .inr ⟨fun idx hidx hkey => ?_,rfl⟩
  have hmem : idx ∈ bucket (t.hash key) := (hl.mem _ _).mpr ⟨hidx,by rw [hkey]⟩
  have hnot : ¬ t.KeyAt key idx := by simpa using List.find?_eq_none.mp hfind idx hmem
  exact hnot hkey
 | some idx =>
  have hmem := List.mem_of_find?_eq_some hfind
  have hkey : t.KeyAt key idx := by simpa using List.find?_some hfind
  exact .inl ⟨idx,((hl.mem _ _).mp hmem).1,hkey,rfl⟩

lemma scanFree_cases {left : Nat} (hin : ∀ i < idx+left, t.InBlock i) :
 (∃ i, idx ≤ i ∧ i < idx+left ∧ t.Free i ∧ t.scanFree left idx = some (some i)) ∨
  (∀ i, idx ≤ i → i < idx+left → ¬ t.Free i) ∧ t.scanFree left idx = some none := by
 induction left generalizing idx with
 | zero => exact .inr ⟨fun i hge hlt => absurd hlt (by omega),rfl⟩
 | succ left ih =>
  have hblock : t.InBlock idx := hin idx (by omega)
  by_cases hfree : t.Free idx
  · exact .inl ⟨idx,le_rfl,by omega,hfree,by simp [scanFree,hblock,hfree]⟩
  · have heq : t.scanFree (left+1) idx = t.scanFree left (idx+1) := by
     simp [scanFree,hblock,hfree]
    rw [heq]
    have hin' : ∀ i < idx+1+left, t.InBlock i := fun i hi => hin i (by omega)
    rcases ih hin' with ⟨i,hge,hlt,hi,hscan⟩ | ⟨hnone,hscan⟩
    · exact .inl ⟨i,by omega,by omega,hi,hscan⟩
    · refine .inr ⟨fun i hge hlt => ?_,hscan⟩
      rcases eq_or_lt_of_le hge with rfl | hgt
      · exact hfree
      · exact hnone i hgt (by omega)

section

variable (hl : Layout t bucket used)

include hl

lemma Layout.scanFree_cases : (∃ i < t.hashNodeNum, i ∉ used ∧ used.length < t.hashNodeNum ∧
 t.scanFree t.hashNodeNum 0 = some (some i)) ∨
 used.length = t.hashNodeNum ∧ t.scanFree t.hashNodeNum 0 = some none := by
 have hin : ∀ i < 0+t.hashNodeNum, t.InBlock i := fun i hi => hl.inBlock i (by omega)
 rcases HashTable.scanFree_cases hin with ⟨i,-,hlt,hfree,hscan⟩ | ⟨hnone,hscan⟩
 · rw [zero_add] at hlt
   have hi : i ∉ used := fun hi => hl.not_free hi hfree
   have hsub : i::used ⊆ range t.hashNodeNum := by
    intro j hj
    rcases mem_cons.mp hj with rfl | hj
    · exact mem_range.mpr hlt
    · exact mem_range.mpr (hl.lt j hj)
   have hlen := ((nodup_cons.mpr ⟨hi,hl.nodup⟩).subperm hsub).length_le
   rw [List.length_cons,List.length_range] at hlen
   exact .inl ⟨i,hlt,hi,hlen,hscan⟩
 · refine .inr ⟨le_antisymm hl.length_used_le ?_,hscan⟩
   have hsub : range t.hashNodeNum ⊆ used := by
    intro i hi
    have hlt := mem_range.mp hi
    exact Decidable.by_contra fun hmem => hnone i (zero_le i) (by omega) (hl.free i hlt hmem)
   simpa using (List.nodup_range.subperm hsub).length_le

-- Stores

lemma Layout.setValue (idx : Nat) (value : Value valueSize) :
 Layout (t.setContent idx ((t.content idx).1,value)) bucket used := by
 have hkey : ∀ i, ((t.setContent idx ((t.content idx).1,value)).content i).1 = (t.content i).1 := by
  intro i
  by_cases hi : i = idx <;> simp [setContent,hi]
 refine { hl with mem := fun b i => ?_,key_inj := fun i hi j hj hij => ?_ }
 · rw [hkey]
   exact hl.mem b i
 · rw [hkey,hkey] at hij
   exact hl.key_inj i hi j hj hij

lemma Layout.node_notMem_ring {b : Nat} (hidx : idx ∈ used → t.hash (t.content idx).1 ≠ b) :
 node idx ∉ head b::(bucket b).map .node := by
 intro hmem
 rcases mem_cons.mp hmem with hmem | hmem
 · exact absurd hmem (by simp)
 · obtain ⟨i,hi,heq⟩ := mem_map.mp hmem
   obtain rfl := node.inj heq
   obtain ⟨hused,hhash⟩ := (hl.mem b i).mp hi
   exact hidx hused hhash

lemma Layout.ring_disjoint {b c : Nat} (hbc : b ≠ c) {o : ListObject}
 (ho : o ∈ head c::(bucket c).map .node) : o ∉ head b::(bucket b).map .node := by
 rcases mem_cons.mp ho with rfl | ho
 · simp [Ne.symm hbc]
 · obtain ⟨i,hi,rfl⟩ := mem_map.mp ho
   exact hl.node_notMem_ring fun _ hhash => hbc (hhash.symm.trans ((hl.mem c i).mp hi).2)

end

/-- The table after a new key has been put into the free node `idx`. -/
def TableImp.added (t : TableImp keySize valueSize) (idx : Nat) (key : Key keySize)
 (value : Value valueSize) (next : ListObject) : TableImp keySize valueSize :=
 { t with
   links := (t.links.reset (.node idx)).insert (.node idx) (.head (t.hash key)) next
   content := update t.content idx (key,value) }

lemma Layout.added (hl : Layout t bucket used) (hidx : idx < t.hashNodeNum) (hfree : idx ∉ used)
 (hnew : ∀ i ∈ used, (t.content i).1 ≠ key) {next : ListObject}
 (hnext : t.links.next (.head (t.hash key)) = some next) : Layout (t.added idx key value next)
  (update bucket (t.hash key) (idx::bucket (t.hash key))) (idx::used) := by
 have hoff : ∀ b, node idx ∉ head b::(bucket b).map .node :=
  fun b => hl.node_notMem_ring fun h => absurd h hfree
 have hcontent : ∀ i ∈ used, (t.added idx key value next).content i = t.content i :=
  fun i hi => update_of_ne (ne_of_mem_of_not_mem hi hfree) ..
 have hself : (t.added idx key value next).content idx = (key,value) := update_self ..
 have hnext' : (t.links.reset (.node idx)).next (.head (t.hash key)) = some next := by
  simpa using hnext
 obtain ⟨n,hn,hmem⟩ := (hl.ring _ (hash_lt t key)).exists_next
 obtain rfl := Option.some.inj (hnext.symm.trans hn)
 refine ⟨fun b hb => ?_,fun b i => ?_,?_,?_,?_,hl.inBlock,?_⟩
 · by_cases hkey : b = t.hash key
   · subst hkey
     rw [update_self]
     exact ((hl.ring _ hb).frame_reset (hoff _)).insert (hoff _) hnext'
   · rw [update_of_ne hkey]
     exact ((hl.ring b hb).frame_reset (hoff b)).frame_insert (hoff b)
      (hl.ring_disjoint hkey (List.mem_cons_self ..)) (hl.ring_disjoint hkey hmem)
 · by_cases hi : i = idx
   · subst hi
     have hnot : i ∉ bucket b := fun h => hfree ((hl.mem b i).mp h).1
     have hhash : (t.added i key value next).hash key = t.hash key := rfl
     rw [hself,hhash]
     by_cases hb : b = t.hash key
     · simp [hb]
     · simp [hb,hnot,Ne.symm hb]
   · have hupd : i ∈ update bucket (t.hash key) (idx::bucket (t.hash key)) b ↔ i ∈ bucket b := by
      by_cases hb : b = t.hash key
      · simp [hb,hi]
      · simp [hb]
     rw [hupd,hl.mem b i,mem_cons,or_iff_right hi]
     refine and_congr_right fun hused => ?_
     rw [hcontent i hused]
     rfl
 · exact nodup_cons.mpr ⟨hfree,hl.nodup⟩
 · intro i hi
   rcases mem_cons.mp hi with rfl | hi
   · exact hidx
   · exact hl.lt i hi
 · intro i hlt hi
   obtain ⟨hne,hi⟩ := not_or.mp fun hor => hi (mem_cons.mpr hor)
   obtain ⟨hfreeNext,hfreePrev⟩ := hl.free i hlt hi
   have hon : node i ≠ next := by
    rintro rfl
    exact hl.node_notMem_ring (fun h => absurd h hi) hmem
   constructor
   · simpa [TableImp.added,Links.insert,hne] using hfreeNext
   · simpa [TableImp.added,Links.insert,hne,hon] using hfreePrev
 · intro i hi j hj hij
   rcases mem_cons.mp hi with hi | hi <;> rcases mem_cons.mp hj with hj | hj
   · rw [hi,hj]
   · rw [hi,hself,hcontent j hj] at hij
     exact absurd hij.symm (hnew j hj)
   · rw [hj,hself,hcontent i hi] at hij
     exact absurd hij (hnew i hi)
   · rw [hcontent i hi,hcontent j hj] at hij
     exact hl.key_inj i hi j hj hij

/-- The table after the node `idx` between `prev` and `next` has been given back. -/
def TableImp.given (t : TableImp keySize valueSize) (idx : Nat) (prev next : ListObject) :
 TableImp keySize valueSize :=
 { t with
   links := ((t.links.join prev next).reset (.node idx)).clear (.node idx)
   content := update t.content idx zeroContent }

lemma Layout.given (hl : Layout t bucket used) (hidx : idx ∈ used) :
 ∃ prev next l, t.links.prev (.node idx) = some prev ∧ t.links.next (.node idx) = some next ∧
  Layout (t.given idx prev next)
   (update bucket (t.hash (t.content idx).1) l) (used.erase idx) := by
 set h := t.hash (t.content idx).1 with hh
 have hb : h < maxBucketNum := hash_lt t _
 obtain ⟨l1,l2,hsplit⟩ := List.append_of_mem (hl.mem_bucket hidx)
 have hring := hl.ring h hb
 rw [hsplit,map_append,map_cons] at hring
 obtain ⟨prev,next,hprev,hnext,hprevMem,hnextMem,hjoined⟩ := hring.remove
 have hnodup := hl.bucket_nodup hb
 rw [hsplit] at hnodup
 have hout : idx ∉ l1++l2 := (List.nodup_middle.mp hnodup).notMem
 have hsub : ∀ o ∈ head h::(l1.map .node++l2.map .node),
  o ∈ head h::(bucket h).map .node := by
  intro o ho
  rw [hsplit]
  simp only [mem_cons,List.mem_append,map_append] at ho ⊢
  tauto
 have hcontent : ∀ i, i ≠ idx → (t.given idx prev next).content i = t.content i :=
  fun i hi => update_of_ne hi ..
 have hother : ∀ b, b ≠ h → node idx ∉ head b::(bucket b).map .node :=
  fun b hne => hl.node_notMem_ring fun _ heq => hne (heq.symm.trans hh.symm)
 refine ⟨prev,next,l1++l2,hprev,hnext,fun b hb => ?_,fun b i => ?_,hl.nodup.erase idx,?_,?_,
  hl.inBlock,?_⟩
 · by_cases hkey : b = h
   · have hself : node idx ∉ head h::(l1.map node++l2.map node) := by
      simpa using hout
     rw [hkey,update_self,map_append]
     exact (hjoined.frame_reset hself).frame_clear hself
   · rw [update_of_ne hkey]
     have hoff := hother b hkey
     exact (((hl.ring b hb).frame_join (hl.ring_disjoint hkey (hsub _ hprevMem))
      (hl.ring_disjoint hkey (hsub _ hnextMem))).frame_reset hoff).frame_clear hoff
 · by_cases hi : i = idx
   · subst hi
     have hnot : i ∉ update bucket h (l1++l2) b := by
      by_cases hkey : b = h
      · rw [hkey,update_self]
        exact hout
      · rw [update_of_ne hkey]
        exact fun hmem => hkey (((hl.mem b i).mp hmem).2.symm.trans hh.symm)
     exact iff_of_false hnot fun hmem => hl.nodup.not_mem_erase hmem.1
   · have hupd : i ∈ update bucket h (l1++l2) b ↔ i ∈ bucket b := by
      by_cases hkey : b = h
      · rw [hkey,hsplit]
        simp [hi]
      · rw [update_of_ne hkey]
     rw [hupd,hl.mem b i,List.mem_erase_of_ne hi,hcontent i hi]
     rfl
 · exact fun i hi => hl.lt i (List.mem_of_mem_erase hi)
 · intro i hlt hi
   by_cases hne : i = idx
   · subst hne
     constructor <;> exact update_self ..
   · have hi' : i ∉ used := fun h => hi ((List.mem_erase_of_ne hne).mpr h)
     obtain ⟨hfreeNext,hfreePrev⟩ := hl.free i hlt hi'
     have hoff := hl.node_notMem_ring (b := h) fun h => absurd h hi'
     have honPrev : node i ≠ prev := fun heq => hoff (heq ▸ hsub _ hprevMem)
     have honNext : node i ≠ next := fun heq => hoff (heq ▸ hsub _ hnextMem)
     constructor
     · simpa [TableImp.given,Links.join,Links.clear,hne,honPrev] using hfreeNext
     · simpa [TableImp.given,Links.join,Links.clear,hne,honNext] using hfreePrev
 · intro i hi j hj hij
   have hine : i ≠ idx := fun h => hl.nodup.not_mem_erase (h ▸ hi)
   have hjne : j ≠ idx := fun h => hl.nodup.not_mem_erase (h ▸ hj)
   rw [hcontent i hine,hcontent j hjne] at hij
   exact hl.key_inj i (List.mem_of_mem_erase hi) j (List.mem_of_mem_erase hj) hij

-- Creation

lemma initListHeads_spec (n : Nat) : (∀ b < n, (initListHeads n).Ring (.head b) []) ∧
 ∀ i, (initListHeads n).next (.node i) = none ∧ (initListHeads n).prev (.node i) = none := by
 induction n with
 | zero => exact ⟨fun b hb => absurd hb (by omega),fun i => ⟨rfl,rfl⟩⟩
 | succ n ih =>
  obtain ⟨hring,hnode⟩ := ih
  rw [initListHeads]
  refine ⟨fun b hb => ?_,fun i => ?_⟩
  · by_cases hbn : b = n
    · rw [hbn]
      exact Links.ring_reset ..
    · exact (hring b (by omega)).frame_reset (by simp [Ne.symm hbn])
  · simpa using hnode i

lemma create_inBlock {signed : Bool} {capacity : Nat} (hmin : 2 ≤ capacity)
 (hmax : capacity < 0x1000) (hidx : idx < (create keySize valueSize signed capacity).hashNodeNum) :
 (create keySize valueSize signed capacity).InBlock idx := by
 have hmem : nodeMem (capacity <<< 20)+hashNodePool = capacity <<< 20 := by
  simp only [nodeMem,hashNodePool,sub32,sizeofTableImp,sizeofListHead,sizeofRwlock,maxBucketNum,
   shiftLeft_eq]
  omega
 have hdiv : (idx+1)*hashNodeSize keySize valueSize ≤ nodeMem (capacity <<< 20) :=
  (mul_le_mul_right _ hidx).trans (div_mul_le_self ..)
 change hashNodePool+_ ≤ capacity <<< 20
 omega

lemma create_layout {signed : Bool} {capacity : Nat} (hmin : 2 ≤ capacity)
 (hmax : capacity < 0x1000) :
 Layout (create keySize valueSize signed capacity) (fun _ => []) [] := by
 obtain ⟨hring,hnode⟩ := initListHeads_spec maxBucketNum
 refine ⟨?_,by simp,.nil,by simp,?_,fun i hi => create_inBlock hmin hmax hi,by simp⟩
 · exact hring
 · exact fun i _ _ => hnode i

end Packages.HashTable

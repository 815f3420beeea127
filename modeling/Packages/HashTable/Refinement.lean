import Packages.HashTable.Buckets

/-!
# The hash table is a bounded finite map

The abstract table is an association list with at most as many keys as the pool has nodes. Each
operation on a table that represents a map answers as the map does and represents the new map.
-/

namespace Packages.HashTable

open Function List Option

attribute [local simp] TableImp.setContent

section AList

variable {K V : Type*} [DecidableEq K] {m : AList fun _ : K => V} {k : K}

lemma length_keys_insert_of_mem (h : k ∈ m) (v : V) :
 (m.insert k v).keys.length = m.keys.length := by
 have hmem : k ∈ m.keys := AList.mem_keys.mp h
 have hpos : 0 < m.keys.length := length_pos_of_mem hmem
 rw [AList.keys_insert,length_cons,length_erase_of_mem hmem]
 omega

lemma length_keys_insert_of_notMem (h : k ∉ m) (v : V) :
 (m.insert k v).keys.length = m.keys.length+1 := by
 have hkeys : k ∉ m.keys := fun hk => h (AList.mem_keys.mpr hk)
 rw [AList.keys_insert,length_cons,erase_of_not_mem hkeys]

lemma length_keys_erase (h : k ∈ m) : (m.erase k).keys.length = m.keys.length-1 := by
 rw [AList.keys_erase,length_erase_of_mem (AList.mem_keys.mp h)]

lemma erase_of_notMem (h : k ∉ m) : m.erase k = m :=
 AList.ext (kerase_of_notMem_keys fun hk => h (AList.mem_keys.mpr hk))

end AList

variable {keySize valueSize : Nat}

abbrev FiniteMap (keySize valueSize : Nat) := AList fun _ : Key keySize => Value valueSize

/-- What an operation does to a map of at most `cap` keys. -/
def mapApply (cap : Nat) (m : FiniteMap keySize valueSize) :
 Op keySize valueSize → Reply valueSize × FiniteMap keySize valueSize
 | .put (some key) (some value) =>
  if key ∈ m ∨ m.keys.length < cap then (⟨odphSuccess,none⟩,m.insert key value)
  else (⟨odphFail,none⟩,m)
 | .put _ _ => (⟨odphFail,none⟩,m)
 | .get (some key) (some bufferSize) =>
  if bufferSize < valueSize then (⟨odphFail,none⟩,m)
  else match m.lookup key with
   | some value => (⟨odphSuccess,some value⟩,m)
   | none => (⟨odphFail,none⟩,m)
 | .get _ _ => (⟨odphFail,none⟩,m)
 | .remove (some key) => (⟨odphSuccess,none⟩,m.erase key)
 | .remove none => (⟨odphFail,none⟩,m)

def mapRun (cap : Nat) (m : FiniteMap keySize valueSize) :
 List (Op keySize valueSize) → List (Reply valueSize) × FiniteMap keySize valueSize
 | [] => ([],m)
 | op::ops =>
  let r := mapApply cap m op
  let rs := mapRun cap r.2 ops
  (r.1::rs.1,rs.2)

variable {t t' : TableImp keySize valueSize} {m : FiniteMap keySize valueSize}
 {bucket : Nat → List Nat} {used : List Nat} {key : Key keySize} {value : Value valueSize}

/-- The used nodes hold the entries of the map. -/
structure Represents (t : TableImp keySize valueSize) (m : FiniteMap keySize valueSize)
 (bucket : Nat → List Nat) (used : List Nat) : Prop where
 layout : Layout t bucket used
 lookup : ∀ key value, m.lookup key = some value ↔ ∃ i ∈ used, t.content i = (key,value)
 size : m.keys.length = used.length

namespace Represents

section

variable (h : Represents t m bucket used)

include h

lemma mem_iff :
 key ∈ m ↔ ∃ i ∈ used, (t.content i).1 = key := by
 rw [← AList.lookup_isSome,isSome_iff_exists]
 constructor
 · rintro ⟨value,hvalue⟩
   obtain ⟨i,hi,hcontent⟩ := (h.lookup key value).mp hvalue
   exact ⟨i,hi,by rw [hcontent]⟩
 · rintro ⟨i,hi,rfl⟩
   exact ⟨_,(h.lookup _ _).mpr ⟨i,hi,rfl⟩⟩

lemma findNode_cases (key : Key keySize) :
 (∃ idx ∈ used, (t.content idx).1 = key ∧ key ∈ m ∧ m.lookup key = some (t.content idx).2 ∧
  t.findNode key = some (some idx)) ∨
  (∀ idx ∈ used, (t.content idx).1 ≠ key) ∧ key ∉ m ∧ m.lookup key = none ∧
   t.findNode key = some none := by
 rcases h.layout.findNode_cases key with ⟨idx,hidx,hkey,hfind⟩ | ⟨hnone,hfind⟩
 · have hlookup : m.lookup key = some (t.content idx).2 :=
    (h.lookup _ _).mpr ⟨idx,hidx,Prod.ext hkey rfl⟩
   exact .inl ⟨idx,hidx,hkey,h.mem_iff.mpr ⟨idx,hidx,hkey⟩,hlookup,hfind⟩
 · have hmem : key ∉ m := fun hmem =>
    let ⟨i,hi,hkey⟩ := h.mem_iff.mp hmem
    hnone i hi hkey
   exact .inr ⟨hnone,hmem,AList.lookup_eq_none.mpr hmem,hfind⟩

-- The three changes of the map

lemma setValue {idx : Nat} (hidx : idx ∈ used)
 (hkey : (t.content idx).1 = key) (value : Value valueSize) :
 Represents (t.setContent idx ((t.content idx).1,value)) (m.insert key value) bucket used := by
 refine ⟨h.layout.setValue idx value,fun k v => ?_,?_⟩
 · by_cases hk : k = key
   · subst hk
     rw [AList.lookup_insert]
     constructor
     · intro hv
       cases hv
       exact ⟨idx,hidx,by simp [hkey]⟩
     · rintro ⟨i,hi,hcontent⟩
       by_cases hne : i = idx
       · simp [hne] at hcontent
         rw [hcontent.2]
       · have hsame : t.content i = (k,v) := by simpa [hne] using hcontent
         exact absurd (h.layout.key_inj i hi idx hidx (by rw [hsame,hkey])) hne
   · rw [AList.lookup_insert_ne hk,h.lookup]
     refine exists_congr fun i => and_congr_right fun hi => ?_
     by_cases hne : i = idx
     · have hother : t.content idx ≠ (k,v) := fun heq => hk (by rw [← hkey,heq])
       simp [hne,hkey,hother,Ne.symm hk]
     · simp [hne]
 · rw [length_keys_insert_of_mem (h.mem_iff.mpr ⟨idx,hidx,hkey⟩),h.size]

lemma added {idx : Nat} (hidx : idx < t.hashNodeNum)
 (hfree : idx ∉ used) (hnew : ∀ i ∈ used, (t.content i).1 ≠ key) (hmem : key ∉ m)
 {next : ListObject} (hnext : t.links.next (.head (t.hash key)) = some next)
 (value : Value valueSize) : Represents (t.added idx key value next) (m.insert key value)
  (update bucket (t.hash key) (idx::bucket (t.hash key))) (idx::used) := by
 have hcontent : ∀ i ∈ used, (t.added idx key value next).content i = t.content i :=
  fun i hi => update_of_ne (ne_of_mem_of_not_mem hi hfree) ..
 have hself : (t.added idx key value next).content idx = (key,value) := update_self ..
 have hold : ∀ k v, (∃ i ∈ used, (t.added idx key value next).content i = (k,v)) ↔
  m.lookup k = some v := by
  intro k v
  rw [h.lookup]
  exact exists_congr fun i => and_congr_right fun hi => by rw [hcontent i hi]
 refine ⟨h.layout.added hidx hfree hnew hnext,fun k v => ?_,?_⟩
 · rw [exists_mem_cons_iff,hself,hold]
   by_cases hk : k = key
   · subst hk
     rw [AList.lookup_eq_none.mpr hmem]
     simp
   · rw [AList.lookup_insert_ne hk]
     simp [Ne.symm hk]
 · rw [length_keys_insert_of_notMem hmem,length_cons,h.size]

lemma given {idx : Nat} (hidx : idx ∈ used) (hkey : (t.content idx).1 = key) :
 ∃ prev next l, t.links.prev (.node idx) = some prev ∧ t.links.next (.node idx) = some next ∧
  Represents (t.given idx prev next) (m.erase key)
   (update bucket (t.hash (t.content idx).1) l) (used.erase idx) := by
 obtain ⟨prev,next,l,hprev,hnext,hlayout⟩ := h.layout.given hidx
 refine ⟨prev,next,l,hprev,hnext,hlayout,fun k v => ?_,?_⟩
 · have hcontent : ∀ i ∈ used.erase idx, (t.given idx prev next).content i = t.content i :=
    fun i hi => update_of_ne (h.layout.nodup.mem_erase_iff.mp hi).1 ..
   have hrest : (∃ i ∈ used.erase idx, (t.given idx prev next).content i = (k,v)) ↔
    ∃ i ∈ used.erase idx, t.content i = (k,v) :=
    exists_congr fun i => and_congr_right fun hi => by rw [hcontent i hi]
   rw [hrest]
   by_cases hk : k = key
   · subst hk
     refine iff_of_false (by simp) ?_
     rintro ⟨i,hi,heq⟩
     obtain ⟨hne,hi⟩ := h.layout.nodup.mem_erase_iff.mp hi
     exact hne (h.layout.key_inj i hi idx hidx (by rw [heq,hkey]))
   · rw [AList.lookup_erase_ne hk,h.lookup]
     refine exists_congr fun i => and_congr_left fun heq => ?_
     have hne : i ≠ idx := by
      rintro rfl
      exact hk (by rw [← hkey,heq])
     exact (mem_erase_of_ne hne).symm
 · rw [length_keys_erase (h.mem_iff.mpr ⟨idx,hidx,hkey⟩),length_erase_of_mem hidx,h.size]

-- One operation

lemma putValue (key : Key keySize) (value : Value valueSize) :
 ((key ∈ m ∨ m.keys.length < t.hashNodeNum) ∧ ∃ t' bucket' used',
  t.putValue (some key) (some value) = some (odphSuccess,t') ∧
  t'.hashNodeNum = t.hashNodeNum ∧ Represents t' (m.insert key value) bucket' used') ∨
 ¬ (key ∈ m ∨ m.keys.length < t.hashNodeNum) ∧
  t.putValue (some key) (some value) = some (odphFail,t) := by
 rcases h.findNode_cases key with ⟨idx,hidx,hkey,hmem,-,hfind⟩ | ⟨hnew,hmem,-,hfind⟩
 · refine .inl ⟨.inl hmem,t.setContent idx ((t.content idx).1,value),_,_,?_,rfl,
    h.setValue hidx hkey value⟩
   simp only [TableImp.putValue,hfind]
 rcases h.layout.scanFree_cases with ⟨idx,hidx,hfree,hroom,hscan⟩ | ⟨hfull,hscan⟩
 · obtain ⟨next,hnext,-⟩ := (h.layout.ring _ (hash_lt t key)).exists_next
   have hafter : (t.links.reset (.node idx)).next (.head (t.hash key)) = some next := by
    simpa [Links.reset,Links.setNext,Links.setPrev] using hnext
   refine .inl ⟨.inr (h.size ▸ hroom),t.added idx key value next,_,_,?_,rfl,
    h.added hidx hfree hnew hmem hnext value⟩
   simp only [TableImp.putValue,hfind,TableImp.hashnodeTake,hscan,TableImp.setContent,
    TableImp.listAdd,TableImp.hash,TableImp.added] at hafter ⊢
   simp only [hafter,map_some]
 · refine .inr ⟨?_,by simp only [TableImp.putValue,hfind,TableImp.hashnodeTake,hscan]⟩
   rintro (hin | hroom)
   · exact hmem hin
   · exact absurd (h.size ▸ hroom) (by omega)

lemma getValue (key : Key keySize) {bufferSize : Nat} (hbuf : ¬ bufferSize < valueSize) :
 (∃ value, m.lookup key = some value ∧
  t.getValue (some key) (some bufferSize) = some (odphSuccess,some value)) ∨
 m.lookup key = none ∧ t.getValue (some key) (some bufferSize) = some (odphFail,none) := by
 rcases h.findNode_cases key with ⟨idx,-,-,-,hlookup,hfind⟩ | ⟨-,-,hlookup,hfind⟩
 · exact .inl ⟨_,hlookup,by simp only [TableImp.getValue,hbuf,if_false,hfind]⟩
 · exact .inr ⟨hlookup,by simp only [TableImp.getValue,hbuf,if_false,hfind]⟩

lemma removeValue (key : Key keySize) :
 ∃ t' bucket' used', t.removeValue (some key) = some (odphSuccess,t') ∧
  t'.hashNodeNum = t.hashNodeNum ∧ Represents t' (m.erase key) bucket' used' := by
 rcases h.findNode_cases key with ⟨idx,hidx,hkey,-,-,hfind⟩ | ⟨-,hmem,-,hfind⟩
 · obtain ⟨prev,next,l,hprev,hnext,hrep⟩ := h.given hidx hkey
   refine ⟨t.given idx prev next,_,_,?_,rfl,hrep⟩
   simp only [TableImp.removeValue,hfind,TableImp.hashnodeGive,TableImp.listDel,hprev,hnext,
    map_some,TableImp.given]
 · rw [erase_of_notMem hmem]
   exact ⟨t,_,_,by simp only [TableImp.removeValue,hfind],rfl,h⟩

lemma apply (op : Op keySize valueSize) :
 ∃ t' bucket' used', t.apply op = some ((mapApply t.hashNodeNum m op).1,t') ∧
  t'.hashNodeNum = t.hashNodeNum ∧
  Represents t' (mapApply t.hashNodeNum m op).2 bucket' used' := by
 cases op with
 | put key value =>
  cases key with
  | none => exact ⟨t,_,_,rfl,rfl,h⟩
  | some key =>
   cases value with
   | none => exact ⟨t,_,_,rfl,rfl,h⟩
   | some value =>
    rcases h.putValue key value with ⟨hroom,t',_,_,hput,hnum,hrep⟩ | ⟨hroom,hput⟩
    · rw [mapApply,if_pos hroom]
      exact ⟨t',_,_,by rw [TableImp.apply,hput]; rfl,hnum,hrep⟩
    · rw [mapApply,if_neg hroom]
      exact ⟨t,_,_,by rw [TableImp.apply,hput]; rfl,rfl,h⟩
 | get key bufferSize =>
  cases key with
  | none => exact ⟨t,_,_,rfl,rfl,h⟩
  | some key =>
   cases bufferSize with
   | none => exact ⟨t,_,_,rfl,rfl,h⟩
   | some bufferSize =>
    by_cases hbuf : bufferSize < valueSize
    · rw [mapApply,if_pos hbuf]
      exact ⟨t,_,_,by simp [TableImp.apply,TableImp.getValue,hbuf],rfl,h⟩
    · rw [mapApply,if_neg hbuf]
      rcases h.getValue key hbuf with ⟨value,hlookup,hget⟩ | ⟨hlookup,hget⟩
      all_goals
       rw [hlookup]
       exact ⟨t,_,_,by rw [TableImp.apply,hget]; rfl,rfl,h⟩
 | remove key =>
  cases key with
  | none => exact ⟨t,_,_,rfl,rfl,h⟩
  | some key =>
   obtain ⟨t',_,_,hremove,hnum,hrep⟩ := h.removeValue key
   exact ⟨t',_,_,by rw [TableImp.apply,hremove]; rfl,hnum,hrep⟩

lemma run (ops : List (Op keySize valueSize)) :
 ∃ t' bucket' used', t.run ops = some ((mapRun t.hashNodeNum m ops).1,t') ∧
  t'.hashNodeNum = t.hashNodeNum ∧
  Represents t' (mapRun t.hashNodeNum m ops).2 bucket' used' := by
 induction ops generalizing t m bucket used with
 | nil => exact ⟨t,_,_,rfl,rfl,h⟩
 | cons op ops ih =>
  obtain ⟨t1,_,_,happly,hnum,hrep⟩ := h.apply op
  obtain ⟨t2,_,_,hrun,hnum2,hrep2⟩ := ih hrep
  rw [hnum] at hrun hrep2
  exact ⟨t2,_,_,by rw [TableImp.run,happly]; simp only [hrun]; rfl,
   hnum2.trans hnum,hrep2⟩

end

end Represents

-- The table's memory

/-- The bucket lists and the free nodes are the nodes of the pool, each once, and every key is in
the bucket of its hash. -/
def NodesPartitioned (t : TableImp keySize valueSize) : Prop :=
 ∃ bucket : Nat → List Nat,
  (∀ b < maxBucketNum, t.links.Ring (.head b) ((bucket b).map .node)) ∧
  (∀ b < maxBucketNum, ∀ i ∈ bucket b, t.hash (t.content i).1 = b) ∧
  ((List.range maxBucketNum).flatMap bucket++(List.range t.hashNodeNum).filter (t.Free ·)).Perm
   (List.range t.hashNodeNum)

lemma Layout.nodesPartitioned (hl : Layout t bucket used) : NodesPartitioned t := by
 refine ⟨bucket,hl.ring,fun b _ i hi => ((hl.mem b i).mp hi).2,?_⟩
 have hflat : ∀ i, i ∈ (range maxBucketNum).flatMap bucket ↔ i ∈ used := by
  intro i
  rw [mem_flatMap]
  constructor
  · rintro ⟨b,-,hi⟩
    exact ((hl.mem b i).mp hi).1
  · exact fun hi => ⟨_,mem_range.mpr (hash_lt t _),hl.mem_bucket hi⟩
 have hnodup : ((range maxBucketNum).flatMap bucket).Nodup := by
  refine nodup_flatMap.mpr ⟨fun b hb => hl.bucket_nodup (mem_range.mp hb),?_⟩
  refine nodup_range.imp fun {b c} hbc i hb hc => hbc ?_
  exact ((hl.mem b i).mp hb).2.symm.trans ((hl.mem c i).mp hc).2
 refine (perm_ext_iff_of_nodup ?_ nodup_range).mpr fun i => ?_
 · refine hnodup.append (nodup_range.filter _) fun i hi hfree => ?_
   exact hl.not_free ((hflat i).mp hi) (by simpa using (mem_filter.mp hfree).2)
 · rw [mem_append,hflat,mem_filter,mem_range,decide_eq_true_iff]
   constructor
   · rintro (hi | hi)
     · exact hl.lt i hi
     · exact hi.1
   · intro hi
     by_cases hused : i ∈ used
     · exact .inl hused
     · exact .inr ⟨hi,hl.free i hi hused⟩

/-- Any sequence of operations on a new table of at least two megabytes answers as a finite map
with one key for each node does, a refused put changes nothing, and the nodes stay partitioned. -/
theorem table_refines_map {nameLen capacity : Nat}
 (hcreate : createAccepts nameLen capacity keySize valueSize = true) (hmin : 2 ≤ capacity)
 (signed : Bool) (ops : List (Op keySize valueSize)) :
 ∃ t, (TableImp.create keySize valueSize signed capacity).run ops =
  some ((mapRun (TableImp.create keySize valueSize signed capacity).hashNodeNum ∅ ops).1,t) ∧
  NodesPartitioned t ∧ ∀ key value t', t.putValue key value = some (odphFail,t') → t' = t := by
 have hmax : capacity < 0x1000 := by
  simp only [createAccepts,Bool.not_eq_true',Bool.or_eq_false_iff,
   decide_eq_false_iff_not] at hcreate
  omega
 have hempty : Represents (TableImp.create keySize valueSize signed capacity) ∅ (fun _ => []) [] :=
  ⟨create_layout hmin hmax,by simp,by simp⟩
 obtain ⟨t,_,_,hrun,-,hrep⟩ := hempty.run ops
 refine ⟨t,hrun,hrep.layout.nodesPartitioned,fun key value t' hput => ?_⟩
 cases key with
 | none => exact (Prod.mk.inj (some.inj hput)).2.symm
 | some key =>
  cases value with
  | none => exact (Prod.mk.inj (some.inj hput)).2.symm
  | some value =>
   rcases hrep.putValue key value with ⟨-,t1,_,_,hok,-⟩ | ⟨-,hfail⟩
   · rw [hok] at hput
     exact absurd (Prod.mk.inj (some.inj hput)).1 (by decide)
   · rw [hfail] at hput
     exact (Prod.mk.inj (some.inj hput)).2.symm

theorem table_refines_map_colliding : createAccepts 4 2 2 1 = true ∧
 (∃ t : TableImp 2 1, (TableImp.create 2 1 true 2).run
  [.put (some #v[200,1]) (some #v[10]),.put (some #v[200,2]) (some #v[20]),
   .put (some #v[200,1]) (some #v[11]),.get (some #v[200,1]) (some 1),
   .remove (some #v[200,1]),.get (some #v[200,1]) (some 1),.get (some #v[200,2]) (some 1)] =
  some ([⟨0,none⟩,⟨0,none⟩,⟨0,none⟩,⟨0,some #v[11]⟩,⟨0,none⟩,⟨-1,none⟩,⟨0,some #v[20]⟩],t) ∧
  NodesPartitioned t) ∧ keyHash true #v[200,1] = keyHash true #v[200,2] := by
 have hcreate : createAccepts 4 2 2 1 = true := by decide
 obtain ⟨t,hrun,hnodes,-⟩ := table_refines_map hcreate (by decide) true
  [.put (some #v[200,1]) (some #v[10]),.put (some #v[200,2]) (some #v[20]),
   .put (some #v[200,1]) (some #v[11]),.get (some #v[200,1]) (some 1),
   .remove (some #v[200,1]),.get (some #v[200,1]) (some 1),.get (some #v[200,2]) (some 1)]
 exact ⟨hcreate,⟨t,hrun,hnodes⟩,rfl⟩

end Packages.HashTable

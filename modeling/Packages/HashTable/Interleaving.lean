import Packages.HashTable.Concurrent

/-!
# Interleavings on one hash table

Every node belongs to a bucket list, to one thread, or to nobody. A thread stores only to the bucket
it has locked and to its own node, so what the others rely on stays. In the middle of a series of
stores the invariant speaks about the table as it will be when they are done.
-/

namespace Packages.HashTable

open Function ListObject List

variable {keySize valueSize n : Nat} {t t' : TableImp keySize valueSize} {o : ListObject}
 {st : Store keySize valueSize} {todo : List (Store keySize valueSize)} {b c i idx : Nat}
 {l cur : List Nat} {last last' : Key keySize → Option (Value valueSize)} {own : Option Nat}
 {pc : Pc keySize valueSize}

-- Stores

@[simp] lemma hash_store (t : TableImp keySize valueSize) (st : Store keySize valueSize)
 (key : Key keySize) : (t.store st).hash key = t.hash key := by
 cases st <;> rfl

@[simp] lemma hashNodeNum_store (t : TableImp keySize valueSize) (st : Store keySize valueSize) :
 (t.store st).hashNodeNum = t.hashNodeNum := by
 cases st <;> rfl

@[simp] lemma hash_storeAll (t : TableImp keySize valueSize) (todo : List (Store keySize valueSize))
 (key : Key keySize) : (t.storeAll todo).hash key = t.hash key := by
 induction todo generalizing t with
 | nil => rfl
 | cons st todo ih => exact (ih (t.store st)).trans (hash_store t st key)

/-- The two tables have the same in an object. -/
structure SameAt (t t' : TableImp keySize valueSize) (o : ListObject) : Prop where
 next : t'.links.next o = t.links.next o
 prev : t'.links.prev o = t.links.prev o
 content : ∀ i, o = .node i → t'.content i = t.content i

lemma sameAt_store (t : TableImp keySize valueSize) (h : o ≠ st.target) :
 SameAt t (t.store st) o := by
 cases st with
 | next x v => exact ⟨update_of_ne h _ _,rfl,fun _ _ => rfl⟩
 | prev x v => exact ⟨rfl,update_of_ne h _ _,fun _ _ => rfl⟩
 | key x k | value x v =>
  refine ⟨rfl,rfl,fun i hi => update_of_ne ?_ _ _⟩
  rintro rfl
  exact h hi

lemma SameAt.store (h : SameAt t t' o) (st : Store keySize valueSize) :
 SameAt (t.store st) (t'.store st) o := by
 by_cases ho : o = st.target
 · cases st with
   | next x v =>
    refine ⟨?_,h.prev,h.content⟩
    simp only [ho,Store.target,TableImp.store,Links.setNext,update_self]
   | prev x v =>
    refine ⟨h.next,?_,h.content⟩
    simp only [ho,Store.target,TableImp.store,Links.setPrev,update_self]
   | key x k | value x v =>
    refine ⟨h.next,h.prev,fun i hi => ?_⟩
    obtain rfl : i = x := node.inj (hi.symm.trans ho)
    have hold := h.content i hi
    simp only [TableImp.store,TableImp.setContent,update_self,hold]
 · have h1 := sameAt_store t ho
   have h2 := sameAt_store t' ho
   exact ⟨h2.next.trans (h.next.trans h1.next.symm),h2.prev.trans (h.prev.trans h1.prev.symm),
    fun i hi => (h2.content i hi).trans ((h.content i hi).trans (h1.content i hi).symm)⟩

lemma SameAt.storeAll (h : SameAt t t' o) (todo : List (Store keySize valueSize)) :
 SameAt (t.storeAll todo) (t'.storeAll todo) o := by
 induction todo generalizing t t' with
 | nil => exact h
 | cons st todo ih => exact ih (h.store st)

lemma sameAt_storeAll (t : TableImp keySize valueSize) (h : ∀ st ∈ todo, o ≠ st.target) :
 SameAt t (t.storeAll todo) o := by
 induction todo generalizing t with
 | nil => exact ⟨rfl,rfl,fun _ _ => rfl⟩
 | cons st todo ih =>
  have h1 := sameAt_store t (h st mem_cons_self)
  have h2 := ih (t.store st) fun st' hst' => h st' (mem_cons_of_mem st hst')
  exact ⟨h2.next.trans h1.next,h2.prev.trans h1.prev,
   fun i hi => (h2.content i hi).trans (h1.content i hi)⟩

-- Buckets and threads

/-- The bucket as a call finds it: its nodes in a ring, a node for each key, and among them the keys
that were put last. -/
structure BucketOk (t : TableImp keySize valueSize) (last : Key keySize → Option (Value valueSize))
 (b : Nat) (l : List Nat) : Prop where
 ring : t.links.Ring (.head b) (l.map .node)
 hash : ∀ i ∈ l, t.hash (t.content i).1 = b
 inj : ∀ i ∈ l, ∀ j ∈ l, (t.content i).1 = (t.content j).1 → i = j
 found : ∀ key value, t.hash key = b → last key = some value → ∃ i ∈ l, t.content i = (key,value)

lemma BucketOk.congr (h : BucketOk t last b l) (hhash : ∀ key, t'.hash key = t.hash key)
 (hsame : ∀ o ∈ head b::l.map .node, SameAt t t' o)
 (hlast : ∀ key value, t.hash key = b → last' key = some value → last key = some value) :
 BucketOk t' last' b l := by
 have hcontent : ∀ i ∈ l, t'.content i = t.content i := by
  intro i hi
  exact (hsame (.node i) (mem_cons_of_mem _ (mem_map_of_mem hi))).content i rfl
 refine ⟨h.ring.congr (fun o ho => (hsame o ho).next) fun o ho => (hsame o ho).prev,?_,?_,?_⟩
 · intro i hi
   rw [hcontent i hi,hhash]
   exact h.hash i hi
 · intro i hi j hj hkey
   rw [hcontent i hi,hcontent j hj] at hkey
   exact h.inj i hi j hj hkey
 · intro key value hkey hvalue
   rw [hhash] at hkey
   obtain ⟨i,hi,heq⟩ := h.found key value hkey (hlast key value hkey hvalue)
   exact ⟨i,hi,(hcontent i hi).trans heq⟩

/-- The call of a thread that has the lock. -/
def Pc.call? : Pc keySize valueSize → Option (Call keySize valueSize)
 | .idle => none
 | .lock _ => none
 | .first call => some call
 | .walk call _ => some call
 | .follow call _ => some call
 | .testNext key value _ => some (.put key value)
 | .testPrev key value _ => some (.put key value)
 | .listAdd key value _ => some (.put key value)
 | .listDel key _ => some (.remove key)
 | .write call _ _ _ => some call
 | .unlock call _ => some call

/-- The stores it has left to make. -/
def Pc.pending : Pc keySize valueSize → List (Store keySize valueSize)
 | .write _ _ _ todo => todo
 | _ => []

/-- No node of the list has the key. -/
def Absent (t : TableImp keySize valueSize) (key : Key keySize) (l : List Nat) : Prop :=
 ∀ i ∈ l, (t.content i).1 ≠ key

/-- How far a thread has got: `cur` is the list of its bucket now, `own` its own node, and the list
that comes next what the bucket will be after the stores that are left. -/
inductive Stage (t : TableImp keySize valueSize) (cur : List Nat) :
 Option Nat → List Nat → Pc keySize valueSize → Prop
 | first {call} : Stage t cur none cur (.first call)
 | walk {call pos l1 l2} (hcur : cur = l1++l2) (habsent : Absent t call.key l1)
  (hpos : pos = (l2.map node).headD (.head (t.hash call.key))) :
  Stage t cur none cur (.walk call pos)
 | follow {call idx l1 l2} (hcur : cur = l1++idx::l2) (habsent : Absent t call.key (l1++[idx])) :
  Stage t cur none cur (.follow call idx)
 | testNext {key value idx} (habsent : Absent t key cur) :
  Stage t cur none cur (.testNext key value idx)
 | testPrev {key value idx} (habsent : Absent t key cur) (hfree : t.Free idx) :
  Stage t cur (some idx) cur (.testPrev key value idx)
 | fill {key value idx todo} (habsent : Absent t key cur) (j : Nat)
  (htodo : todo = (fillStores idx key value).drop j)
  (hcontent : (t.storeAll todo).content idx = (key,value))
  (hnext : (t.storeAll todo).links.next (.node idx) ≠ none) :
  Stage t cur (some idx) cur (.write (.put key value) .fill idx todo)
 | listAdd {key value idx} (habsent : Absent t key cur) (hcontent : t.content idx = (key,value))
  (hnext : t.links.next (.node idx) ≠ none) : Stage t cur (some idx) cur (.listAdd key value idx)
 | add {key value idx next todo} (hcontent : t.content idx = (key,value)) (j : Nat) (hj : j < 4)
  (htodo : todo = (addStores idx (t.hash key) next).drop j)
  (hhead : t.links.next (.head (t.hash key)) = some next)
  (hnext : t.links.next (.node idx) ≠ none)
  (hdone : 2 ≤ j → t.links.next (.node idx) = some next) :
  Stage t cur (some idx) (idx::cur) (.write (.put key value) .add idx todo)
 | added {key value idx} (hmem : idx ∈ cur) (hcontent : t.content idx = (key,value)) :
  Stage t cur none cur (.write (.put key value) .add idx [])
 | set {key value idx todo} (hmem : idx ∈ cur) (htodo : todo = [.value idx value] ∨ todo = [])
  (hcontent : (t.storeAll todo).content idx = (key,value)) :
  Stage t cur none cur (.write (.put key value) .set idx todo)
 | listDel {key idx} (hmem : idx ∈ cur) (hkey : (t.content idx).1 = key) :
  Stage t cur none cur (.listDel key idx)
 | unlink {key idx l1 l2 next todo} (hcur : cur = l1++idx::l2) (j : Nat) (hj : j < 2)
  (htodo : todo = (giveStores idx ((head (t.hash key)::l1.map .node).getLast
   (List.cons_ne_nil _ _)) next).drop j)
  (hnext : t.links.next (.node idx) = some next)
  (hmem : next ∈ head (t.hash key)::(l1++l2).map .node) :
  Stage t cur none (l1++l2) (.write (.remove key) .give idx todo)
 | unlinked {key idx prev next todo} (j : Nat) (hj : 2 ≤ j) (hj' : j < 8)
  (htodo : todo = (giveStores idx prev next).drop j) (hfree : (t.storeAll todo).Free idx) :
  Stage t cur (some idx) cur (.write (.remove key) .give idx todo)
 | given {key idx} : Stage t cur none cur (.write (.remove key) .give idx [])
 | unlock {call ret}
  (hresult : ∀ value, call.outcome ret = some value → ∃ i ∈ cur, t.content i = (call.key,value)) :
  Stage t cur none cur (.unlock call ret)

/-- What holds for a thread: without a lock it has no node, with the lock the bucket will be in
order after the stores that are left. -/
def ThreadOk (t : TableImp keySize valueSize) (last : Key keySize → Option (Value valueSize))
 (bucket : Nat → List Nat) (own : Option Nat) (pc : Pc keySize valueSize) : Prop :=
 match pc.call? with
 | none => own = none
 | some call => ∃ l, Stage t (bucket (t.hash call.key)) own l pc ∧
  BucketOk (t.storeAll pc.pending) (update last call.key none) (t.hash call.key) l

lemma threadOk_iff {bucket : Nat → List Nat} {call : Call keySize valueSize}
 (hcall : pc.call? = some call) : ThreadOk t last bucket own pc ↔
  ∃ l, Stage t (bucket (t.hash call.key)) own l pc ∧
   BucketOk (t.storeAll pc.pending) (update last call.key none) (t.hash call.key) l := by
 rw [ThreadOk,hcall]

lemma threadOk_iff_of_none {bucket : Nat → List Nat} (hcall : pc.call? = none) :
 ThreadOk t last bucket own pc ↔ own = none := by
 rw [ThreadOk,hcall]

/-- The nodes of the bucket after the stores are in the bucket now or the thread's own. -/
lemma Stage.mem (h : Stage t cur own l pc) (hi : i ∈ l) : i ∈ cur ∨ own = some i := by
 cases h with
 | add =>
  obtain rfl | hi := mem_cons.mp hi
  · exact .inr rfl
  · exact .inl hi
 | unlink hcur =>
  left
  rw [hcur]
  exact perm_middle.mem_iff.mpr (mem_cons_of_mem _ hi)
 | _ => exact .inl hi

/-- A node with a null `next` link that belongs to a thread: the thread is at work on it. -/
lemma Stage.amid (h : Stage t cur (some i) l pc) (hnull : t.links.next (.node i) = none) :
 pc.amid i = true := by
 cases h with
 | testPrev => exact decide_eq_true rfl
 | fill habsent j htodo hcontent hnext =>
  rw [Pc.amid,any_eq_true]
  rcases j with _ | _ | _ | _ | j
  iterate 4 exact ⟨_,by rw [htodo]; exact mem_cons_self,by simp [Store.target]⟩
  · rw [fillStores,drop_eq_nil_of_le (by simp)] at htodo
    rw [htodo] at hnext
    exact absurd hnull hnext
 | listAdd _ _ hnext | add _ _ _ _ _ hnext => exact absurd hnull hnext
 | unlinked j hj hj' htodo =>
  rw [Pc.amid,any_eq_true]
  obtain rfl | rfl | rfl | rfl | rfl | rfl : j = 2 ∨ j = 3 ∨ j = 4 ∨ j = 5 ∨ j = 6 ∨ j = 7 := by
   omega
  all_goals exact ⟨_,by rw [htodo]; exact mem_cons_self,by simp [Store.target]⟩

/-- The objects of a thread with the lock of bucket `b`. -/
def Mine (b : Nat) (cur : List Nat) (own : Option Nat) (o : ListObject) : Prop :=
 o = .head b ∨ ∃ i, o = .node i ∧ (i ∈ cur ∨ own = some i)

lemma Absent.congr {key : Key keySize} (h : Absent t key l)
 (hcontent : ∀ i ∈ l, t'.content i = t.content i) : Absent t' key l := by
 intro i hi
 rw [hcontent i hi]
 exact h i hi

lemma Stage.frame {call : Call keySize valueSize} (h : Stage t cur own l pc)
 (hcall : pc.call? = some call) (hhash : ∀ key, t'.hash key = t.hash key)
 (hsame : ∀ o, Mine (t.hash call.key) cur own o → SameAt t t' o) : Stage t' cur own l pc := by
 have hcur : ∀ i ∈ cur, t'.content i = t.content i := fun i hi =>
  (hsame (.node i) (.inr ⟨i,rfl,.inl hi⟩)).content i rfl
 have hown : ∀ i, own = some i → SameAt t t' (.node i) := fun i hi =>
  hsame (.node i) (.inr ⟨i,rfl,.inr hi⟩)
 cases h with
 | first => exact .first
 | walk hl habsent hpos =>
  refine .walk hl (habsent.congr fun i hi => hcur i ?_) (by rw [hhash]; exact hpos)
  rw [hl]
  exact mem_append_left _ hi
 | follow hl habsent =>
  refine .follow hl (habsent.congr fun i hi => hcur i ?_)
  rw [hl]
  obtain hi | hi := mem_append.mp hi
  · exact mem_append_left _ hi
  · rw [mem_singleton.mp hi]
    exact mem_append_right _ mem_cons_self
 | testNext habsent => exact .testNext (habsent.congr hcur)
 | testPrev habsent hfree =>
  have hidx := hown _ rfl
  exact .testPrev (habsent.congr hcur) ⟨hidx.next.trans hfree.1,hidx.prev.trans hfree.2⟩
 | @fill _ _ _ todo habsent j htodo hcontent hnext =>
  have hidx := (hown _ rfl).storeAll todo
  refine .fill (habsent.congr hcur) j htodo ((hidx.content _ rfl).trans hcontent) ?_
  rw [hidx.next]
  exact hnext
 | listAdd habsent hcontent hnext =>
  have hidx := hown _ rfl
  refine .listAdd (habsent.congr hcur) ((hidx.content _ rfl).trans hcontent) ?_
  rw [hidx.next]
  exact hnext
 | add hcontent j hj htodo hhead hnext hdone =>
  cases hcall
  have hidx := hown _ rfl
  refine .add ((hidx.content _ rfl).trans hcontent) j hj (by rw [hhash]; exact htodo) ?_ ?_ ?_
  · rw [hhash]
    exact (hsame _ (.inl rfl)).next.trans hhead
  · rw [hidx.next]
    exact hnext
  · rw [hidx.next]
    exact hdone
 | added hmem hcontent => exact .added hmem ((hcur _ hmem).trans hcontent)
 | @set _ _ _ todo hmem htodo hcontent =>
  have hidx := (hsame (.node _) (.inr ⟨_,rfl,.inl hmem⟩)).storeAll todo
  exact .set hmem htodo ((hidx.content _ rfl).trans hcontent)
 | listDel hmem hkey => exact .listDel hmem ((congrArg Prod.fst (hcur _ hmem)).trans hkey)
 | unlink hl j hj htodo hnext hmem =>
  cases hcall
  have hidx :=
   hsame (.node _) (.inr ⟨_,rfl,.inl (by rw [hl]; exact mem_append_right _ mem_cons_self)⟩)
  refine .unlink hl j hj (by simp only [hhash]; exact htodo) (hidx.next.trans hnext) ?_
  rw [hhash]
  exact hmem
 | @unlinked _ _ _ _ todo j hj hj' htodo hfree =>
  have hidx := (hown _ rfl).storeAll todo
  exact .unlinked j hj hj' htodo ⟨hidx.next.trans hfree.1,hidx.prev.trans hfree.2⟩
 | given => exact .given
 | unlock hresult =>
  refine .unlock fun value hvalue => ?_
  obtain ⟨i,hi,heq⟩ := hresult value hvalue
  exact ⟨i,hi,(hcur i hi).trans heq⟩

/-- What a thread relies on stays, if its own objects and the last values of its bucket do. -/
lemma ThreadOk.frame {bucket bucket' : Nat → List Nat} (h : ThreadOk t last bucket own pc)
 (hhash : ∀ key, t'.hash key = t.hash key)
 (hbucket : ∀ call, pc.call? = some call → bucket' (t.hash call.key) = bucket (t.hash call.key))
 (hsame : ∀ call, pc.call? = some call →
  ∀ o, Mine (t.hash call.key) (bucket (t.hash call.key)) own o → SameAt t t' o)
 (hlast : ∀ call, pc.call? = some call →
  ∀ key, t.hash key = t.hash call.key → last' key = last key) :
 ThreadOk t' last' bucket' own pc := by
 cases hcall : pc.call? with
 | none =>
  rw [threadOk_iff_of_none hcall] at h ⊢
  exact h
 | some call =>
  rw [threadOk_iff hcall] at h ⊢
  obtain ⟨l,hstage,hok⟩ := h
  rw [hhash call.key,hbucket call hcall]
  refine ⟨l,hstage.frame hcall hhash (hsame call hcall),hok.congr ?_ ?_ ?_⟩
  · intro key
    rw [hash_storeAll,hash_storeAll,hhash]
  · intro o ho
    refine (hsame call hcall o ?_).storeAll pc.pending
    obtain rfl | ho := mem_cons.mp ho
    · exact .inl rfl
    · obtain ⟨i,hi,rfl⟩ := mem_map.mp ho
      exact .inr ⟨i,rfl,hstage.mem hi⟩
  · intro key value hkey hvalue
    rw [hash_storeAll] at hkey
    by_cases hsamekey : key = call.key
    · rw [hsamekey,update_self] at hvalue
      cases hvalue
    · rw [update_of_ne hsamekey] at hvalue ⊢
      rwa [hlast call hcall key hkey] at hvalue

-- The invariant

structure Inv (s : State n keySize valueSize) (bucket : Nat → List Nat) (own : Fin n → Option Nat) :
 Prop where
 locks : ∀ b u, s.lock b = some u ↔ ∃ call, (s.pc u).call? = some call ∧ s.table.hash call.key = b
 nodup : ∀ b, (bucket b).Nodup
 disjoint : ∀ b c i, i ∈ bucket b → i ∈ bucket c → b = c
 owned : ∀ u i, own u = some i → ∀ b, i ∉ bucket b
 unique : ∀ u v i, own u = some i → own v = some i → u = v
 lt : ∀ i, (∃ b, i ∈ bucket b) ∨ (∃ u, own u = some i) → i < s.table.hashNodeNum
 heads : ∀ b i, i ∈ bucket b → b < maxBucketNum
 free : ∀ i < s.table.hashNodeNum, (∀ b, i ∉ bucket b) → (∀ u, own u ≠ some i) → s.table.Free i
 walk : ∀ b < maxBucketNum, s.table.links.Walk (.head b) ((bucket b).map .node) (.head b)
 idle : ∀ b < maxBucketNum, s.lock b = none → BucketOk s.table s.last b (bucket b)
 thread : ∀ u, ThreadOk s.table s.last bucket (own u) (s.pc u)

variable {s : State n keySize valueSize} {bucket : Nat → List Nat} {owner : Fin n → Option Nat}
 {u v : Fin n} {call : Call keySize valueSize}

lemma Inv.goto (h : Inv s bucket owner) (hcall : pc.call? = (s.pc u).call?)
 (hok : ThreadOk s.table s.last bucket (owner u) pc) : Inv (s.goto u pc) bucket owner := by
 have hpc : ∀ v, ((s.goto u pc).pc v).call? = (s.pc v).call? := by
  intro v
  by_cases hv : v = u
  · rw [hv,State.goto_pc_self]
    exact hcall
  · rw [State.goto_pc_of_ne _ hv]
 refine { h with locks := fun b v => ?_,thread := fun v => ?_ }
 · rw [hpc]
   exact h.locks b v
 · by_cases hv : v = u
   · rw [hv,State.goto_pc_self]
     exact hok
   · rw [State.goto_pc_of_ne _ hv]
     exact h.thread v

lemma Inv.hash_ne (h : Inv s bucket owner) {call' : Call keySize valueSize}
 (hu : (s.pc u).call? = some call) (hv : (s.pc v).call? = some call') (hne : v ≠ u) :
 s.table.hash call'.key ≠ s.table.hash call.key := by
 intro heq
 have hu := (h.locks _ u).mpr ⟨call,hu,rfl⟩
 have hv := (h.locks _ v).mpr ⟨call',hv,heq⟩
 exact hne (Option.some.inj (hv.symm.trans hu))

lemma Inv.stage (h : Inv s bucket owner) (hpc : s.pc u = pc) (hu : pc.call? = some call) :
 ∃ l own, owner u = own ∧ Stage s.table (bucket (s.table.hash call.key)) own l pc ∧
  BucketOk (s.table.storeAll pc.pending) (update s.last call.key none)
   (s.table.hash call.key) l := by
 subst hpc
 obtain ⟨l,hl⟩ := (threadOk_iff hu).mp (h.thread u)
 exact ⟨l,_,rfl,hl⟩

end Packages.HashTable

import Packages.HashTable.Threads

/-!
# Concurrent calls on one hash table

What a series of stores will have made of a bucket by its end, and the steps that take and give back
the lock of a bucket or take a node of the pool.
-/

namespace Packages.HashTable

open Function State TableImp List Option

variable {keySize valueSize n : Nat} {t : TableImp keySize valueSize}
 {s s' : State n keySize valueSize} {bucket : Nat → List Nat} {owner : Fin n → Option Nat}
 {u v : Fin n} {call : Call keySize valueSize} {key : Key keySize} {value : Value valueSize}
 {last : Key keySize → Option (Value valueSize)} {b c i idx : Nat} {cur l1 l2 : List Nat}
 {prev next : ListObject}

-- What the stores will have done

section

variable (h : BucketOk t (update last key none) b cur)

include h

lemma BucketOk.found_ne (hkey : (t.content idx).1 = key) {key' : Key keySize}
 {value' : Value valueSize}
 (hhash : t.hash key' = b) (hlast : update last key none key' = some value') :
 ∃ i ∈ cur, i ≠ idx ∧ t.content i = (key',value') := by
 obtain ⟨i,hi,heq⟩ := h.found key' value' hhash hlast
 refine ⟨i,hi,?_,heq⟩
 rintro rfl
 rw [heq] at hkey
 rw [show key' = key from hkey,update_self] at hlast
 cases hlast

lemma BucketOk.set (hmem : idx ∈ cur) (hkey : (t.content idx).1 = key) :
 BucketOk (t.storeAll [.value idx value]) (update last key none) b cur := by
 have hfst : ∀ i, ((t.storeAll [.value idx value]).content i).1 = (t.content i).1 := by
  intro i
  by_cases hi : i = idx
  · subst hi
    simp [storeAll,store,setContent]
  · simp [storeAll,store,setContent,hi]
 refine ⟨h.ring,fun i hi => ?_,fun i hi j hj hij => ?_,fun key' value' hhash hlast => ?_⟩
 · rw [hfst]
   exact h.hash i hi
 · rw [hfst,hfst] at hij
   exact h.inj i hi j hj hij
 · obtain ⟨i,hi,hne,heq⟩ := h.found_ne hkey hhash hlast
   exact ⟨i,hi,(update_of_ne hne _ _).trans heq⟩

lemma BucketOk.add (hb : t.hash key = b)
 (hfresh : idx ∉ cur) (habsent : Absent t key cur) (hcontent : t.content idx = (key,value))
 (hhead : t.links.next (.head b) = some next) :
 BucketOk (t.storeAll (addStores idx b next)) (update last key none) b (idx::cur) := by
 refine ⟨h.ring.insert (node_notMem_head_map b hfresh) hhead,fun i hi => ?_,fun i hi j hj hij => ?_,
  fun key' value' hhash hlast => ?_⟩
 · obtain rfl | hi := mem_cons.mp hi
   · show t.hash (t.content i).1 = b
     rw [hcontent]
     exact hb
   · exact h.hash i hi
 · change (t.content i).1 = (t.content j).1 at hij
   obtain rfl | hi' := mem_cons.mp hi
   · obtain rfl | hj' := mem_cons.mp hj
     · rfl
     · rw [hcontent] at hij
       exact absurd hij.symm (habsent j hj')
   · obtain rfl | hj' := mem_cons.mp hj
     · rw [hcontent] at hij
       exact absurd hij (habsent i hi')
     · exact h.inj i hi' j hj' hij
 · obtain ⟨i,hi,heq⟩ := h.found key' value' hhash hlast
   exact ⟨i,mem_cons_of_mem idx hi,heq⟩

end

lemma BucketOk.give (h : BucketOk t (update last key none) b (l1++idx::l2))
 (hkey : (t.content idx).1 = key) (hprev : t.links.prev (.node idx) = some prev)
 (hnext : t.links.next (.node idx) = some next) :
 BucketOk (t.storeAll (giveStores idx prev next)) (update last key none) b (l1++l2) := by
 have hring := h.ring
 have hnodup := (nodup_cons.mp hring.nodup).2.of_map
 have hidx : idx ∉ l1++l2 := (nodup_middle.mp hnodup).notMem
 have hcontent : ∀ i ∈ l1++l2,
  (t.storeAll (giveStores idx prev next)).content i = t.content i := by
  intro i hi
  have hne : i ≠ idx := ne_of_mem_of_not_mem hi hidx
  simp [giveStores,storeAll,store,setContent,hne]
 have hin : ∀ i ∈ l1++l2, i ∈ l1++idx::l2 := by
  intro i hi
  exact perm_middle.mem_iff.mpr (mem_cons_of_mem _ hi)
 have hhash : ∀ key', (t.storeAll (giveStores idx prev next)).hash key' = t.hash key' :=
  hash_storeAll t _
 refine ⟨?_,fun i hi => ?_,fun i hi j hj hij => ?_,fun key' value' hkey' hlast => ?_⟩
 · rw [map_append,map_cons] at hring
   obtain ⟨p,m,hp,hm,-,-,hjoin⟩ := hring.remove
   obtain rfl := some.inj (hp.symm.trans hprev)
   obtain rfl := some.inj (hm.symm.trans hnext)
   rw [← map_append] at hjoin
   have hoff := node_notMem_head_map b hidx
   exact (hjoin.frame_reset hoff).frame_clear hoff
 · rw [hcontent i hi,hhash]
   exact h.hash i (hin i hi)
 · rw [hcontent i hi,hcontent j hj] at hij
   exact h.inj i (hin i hi) j (hin j hj) hij
 · rw [hhash] at hkey'
   obtain ⟨i,hi,hne,heq⟩ := h.found_ne hkey hkey' hlast
   have hi' : i ∈ l1++l2 := by
    obtain hi | hi := mem_append.mp hi
    · exact mem_append_left _ hi
    · exact mem_append_right _ ((mem_cons.mp hi).resolve_left hne)
   exact ⟨i,hi',(hcontent i hi').trans heq⟩

-- The lock

lemma Inv.acquire (h : Inv s bucket owner) (hpc : s.pc u = .lock call)
 (hfree : s.lock (s.table.hash call.key) = none) :
 Inv { s.goto u (.first call) with
  lock := update s.lock (s.table.hash call.key) (some u) } bucket owner := by
 set b := s.table.hash call.key with hb
 have hnone : ∀ v call', (s.pc v).call? = some call' → s.table.hash call'.key ≠ b := by
  intro v call' hcall' heq
  have hlock := (h.locks b v).mpr ⟨call',hcall',heq⟩
  cases hfree.symm.trans hlock
 have hown : owner u = none := by
  have hok := h.thread u
  rw [hpc] at hok
  exact (threadOk_iff_of_none rfl).mp hok
 refine { h with locks := fun c v => ?_,idle := fun c hc hlock => ?_,thread := fun v => ?_ }
 · show update s.lock b (some u) c = some v ↔
    ∃ call', ((s.goto u (.first call)).pc v).call? = some call' ∧ s.table.hash call'.key = c
   by_cases hv : v = u
   · subst hv
     rw [goto_pc_self]
     by_cases hc : c = b
     · subst hc
       rw [update_self]
       exact ⟨fun _ => ⟨call,rfl,rfl⟩,fun _ => rfl⟩
     · rw [update_of_ne hc,h.locks c v,hpc]
       constructor
       · rintro ⟨call',hcall',-⟩
         cases hcall'
       · rintro ⟨call',hcall',heq⟩
         cases hcall'
         exact absurd heq.symm hc
   · rw [goto_pc_of_ne _ hv]
     by_cases hc : c = b
     · subst hc
       rw [update_self]
       constructor
       · intro heq
         exact absurd (some.inj heq).symm hv
       · rintro ⟨call',hcall',heq⟩
         exact absurd heq (hnone v call' hcall')
     · rw [update_of_ne hc]
       exact h.locks c v
 · change update s.lock b (some u) c = none at hlock
   by_cases hcb : c = b
   · rw [hcb,update_self] at hlock
     cases hlock
   · rw [update_of_ne hcb] at hlock
     exact h.idle c hc hlock
 · by_cases hv : v = u
   · subst hv
     show ThreadOk _ _ _ _ ((s.goto v (.first call)).pc v)
     rw [goto_pc_self,hown,threadOk_iff rfl]
     refine ⟨_,.first,(h.idle b (hash_lt _ _) hfree).congr (fun _ => rfl)
      (fun _ _ => ⟨rfl,rfl,fun _ _ => rfl⟩) fun key value _ hvalue => ?_⟩
     by_cases hkey : key = call.key
     · rw [hkey,update_self] at hvalue
       cases hvalue
     · rwa [update_of_ne hkey] at hvalue
   · show ThreadOk _ _ _ _ ((s.goto u (.first call)).pc v)
     rw [goto_pc_of_ne _ hv]
     exact h.thread v

lemma Inv.release (h : Inv s bucket owner) {ret : Int} (hpc : s.pc u = .unlock call ret) :
 Inv { s.goto u .idle with
  lock := update s.lock (s.table.hash call.key) none
  last := update s.last call.key (call.outcome ret) } bucket owner := by
 have hcall : (s.pc u).call? = some call := by rw [hpc]; rfl
 obtain ⟨l,_,hown,hstage,hok⟩ := h.stage hpc rfl
 cases hstage with
 | unlock hresult =>
 set b := s.table.hash call.key with hb
 have hok : BucketOk s.table (update s.last call.key none) b (bucket b) := hok
 refine { h with locks := fun c v => ?_,idle := fun c hc hlock => ?_,thread := fun v => ?_ }
 · show update s.lock b none c = some v ↔
    ∃ call', ((s.goto u .idle).pc v).call? = some call' ∧ s.table.hash call'.key = c
   by_cases hv : v = u
   · subst hv
     rw [goto_pc_self]
     constructor
     · intro hlock
       by_cases hc : c = b
       · rw [hc,update_self] at hlock
         cases hlock
       · rw [update_of_ne hc] at hlock
         obtain ⟨call',hcall',heq⟩ := (h.locks c v).mp hlock
         obtain rfl := some.inj (hcall.symm.trans hcall')
         exact absurd heq.symm hc
     · rintro ⟨call',hcall',-⟩
       cases hcall'
   · rw [goto_pc_of_ne _ hv]
     by_cases hc : c = b
     · subst hc
       rw [update_self]
       constructor
       · intro hlock
         cases hlock
       · rintro ⟨call',hcall',heq⟩
         exact absurd heq (h.hash_ne hcall hcall' hv)
     · rw [update_of_ne hc]
       exact h.locks c v
 · by_cases hcb : c = b
   · subst hcb
     refine ⟨hok.ring,hok.hash,hok.inj,fun key value hkey hvalue => ?_⟩
     by_cases hsame : key = call.key
     · rw [hsame] at hvalue ⊢
       change update s.last call.key (call.outcome ret) call.key = some value at hvalue
       rw [update_self] at hvalue
       exact hresult value hvalue
     · apply hok.found key value hkey
       change update s.last call.key (call.outcome ret) key = some value at hvalue
       rwa [update_of_ne hsame] at hvalue ⊢
   · change update s.lock b none c = none at hlock
     rw [update_of_ne hcb] at hlock
     refine (h.idle c hc hlock).congr (fun _ => rfl) (fun _ _ => ⟨rfl,rfl,fun _ _ => rfl⟩) ?_
     intro key value hkey hvalue
     change update s.last call.key (call.outcome ret) key = some value at hvalue
     have hne : key ≠ call.key := by
      rintro rfl
      exact hcb hkey.symm
     rwa [update_of_ne hne] at hvalue
 · by_cases hv : v = u
   · subst hv
     show ThreadOk _ _ _ _ ((s.goto v .idle).pc v)
     rw [goto_pc_self]
     exact (threadOk_iff_of_none rfl).mpr hown
   · show ThreadOk _ _ _ _ ((s.goto u .idle).pc v)
     rw [goto_pc_of_ne _ hv]
     refine (h.thread v).frame (fun _ => rfl) (fun _ _ => rfl)
      (fun _ _ _ _ => ⟨rfl,rfl,fun _ _ => rfl⟩) fun call' hcall' key hkey => ?_
     refine update_of_ne ?_ _ _
     rintro rfl
     exact h.hash_ne hcall hcall' hv hkey.symm

lemma Inv.take (h : Inv s bucket owner) (hpc : s.pc u = .testNext key value idx)
 (hlt : idx < s.table.hashNodeNum) (hnull : s.table.links.next (.node idx) = none)
 (hsafe : ∀ v, v ≠ u → (s.pc v).amid idx = false) :
 Inv (s.goto u (.testPrev key value idx)) bucket (update owner u (some idx)) := by
 have hcall : (s.pc u).call? = some (.put key value) := by rw [hpc]; rfl
 obtain ⟨l,_,hown,hstage,hok⟩ := h.stage hpc rfl
 cases hstage with
 | testNext habsent =>
 have hbucket : ∀ c, idx ∉ bucket c := by
  intro c hmem
  obtain ⟨o,ho,-⟩ := (h.walk c (h.heads c idx hmem)).next_mem
   (mem_cons_of_mem _ (mem_map_of_mem hmem))
  cases hnull.symm.trans ho
 have hnobody : ∀ v, owner v ≠ some idx := by
  intro v hv
  by_cases hvu : v = u
  · rw [hvu,hown] at hv
    cases hv
  · cases hcall' : (s.pc v).call? with
    | none =>
     have hnone := (threadOk_iff_of_none hcall').mp (h.thread v)
     cases hnone.symm.trans hv
    | some call' =>
     obtain ⟨l',_,rfl,hstage',-⟩ := h.stage rfl hcall'
     rw [hv] at hstage'
     cases (hsafe v hvu).symm.trans (hstage'.amid hnull)
 have hfree := h.free idx hlt hbucket hnobody
 have hothers : ∀ v i, update owner u (some idx) v = some i →
  v = u ∧ i = idx ∨ owner v = some i := by
  intro v i hi
  by_cases hv : v = u
  · rw [hv,update_self] at hi
    exact .inl ⟨hv,(some.inj hi).symm⟩
  · rw [update_of_ne hv] at hi
    exact .inr hi
 refine ⟨fun c v => ?_,h.nodup,h.disjoint,fun v i hi c => ?_,fun v w i hv hw => ?_,fun i hi => ?_,
  h.heads,fun i hi hno hnoowner => ?_,h.walk,h.idle,fun v => ?_⟩
 · show s.lock c = some v ↔ _
   rw [h.locks c v]
   by_cases hv : v = u
   · subst hv
     rw [goto_pc_self,hcall]
     rfl
   · rw [goto_pc_of_ne _ hv]
     rfl
 · obtain ⟨-,rfl⟩ | hi := hothers v i hi
   · exact hbucket c
   · exact h.owned v i hi c
 · obtain ⟨rfl,rfl⟩ | hv' := hothers v i hv
   · obtain ⟨rfl,-⟩ | hw' := hothers w i hw
     · rfl
     · exact absurd hw' (hnobody w)
   · obtain ⟨-,rfl⟩ | hw' := hothers w i hw
     · exact absurd hv' (hnobody v)
     · exact h.unique v w i hv' hw'
 · obtain hi | ⟨v,hv⟩ := hi
   · exact h.lt i (.inl hi)
   · obtain ⟨-,rfl⟩ | hv := hothers v i hv
     · exact hlt
     · exact h.lt i (.inr ⟨v,hv⟩)
 · refine h.free i hi hno fun v hv => ?_
   by_cases hvu : v = u
   · rw [hvu,hown] at hv
     cases hv
   · exact hnoowner v ((update_of_ne hvu _ _).trans hv)
 · by_cases hv : v = u
   · subst hv
     rw [goto_pc_self,update_self,threadOk_iff rfl]
     exact ⟨_,.testPrev habsent hfree,hok⟩
   · rw [goto_pc_of_ne _ hv,update_of_ne hv]
     exact h.thread v

end Packages.HashTable

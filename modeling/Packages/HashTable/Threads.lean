import Packages.HashTable.Interleaving

/-!
# The steps of the threads

Each step keeps the invariant. Only four of them change to whom a node belongs: a node that was
found free becomes the thread's own, the last store of an insertion hands it to the bucket, the
second store of a removal takes it back, and the last store of the `memset` gives it up.
-/

namespace Packages.HashTable

open Function ListObject List Option

variable {keySize valueSize n : Nat} {s : State n keySize valueSize}
 {bucket bucket' : Nat → List Nat}
 {owner owner' : Fin n → Option Nat} {u v : Fin n} {call : Call keySize valueSize}
 {st : Store keySize valueSize} {pc : Pc keySize valueSize} {i idx b c : Nat} {o : ListObject}

-- Stores

section

variable (h : Inv s bucket owner)

include h

lemma Inv.not_mine_bucket (hne : c ≠ b)
 (ho : o ∈ head c::(bucket c).map .node) : ¬Mine b (bucket b) (owner u) o := by
 obtain rfl | ho := mem_cons.mp ho
 · rintro (heq | ⟨i,hi,-⟩)
   · exact hne (head.inj heq)
   · cases hi
 · obtain ⟨i,hi,rfl⟩ := mem_map.mp ho
   rintro (heq | ⟨j,hj,hmem | hown⟩)
   · cases heq
   · obtain rfl := node.inj hj
     exact hne (h.disjoint c b i hi hmem)
   · obtain rfl := node.inj hj
     exact h.owned u i hown c hi

lemma Inv.not_mine_own (hne : v ≠ u) (hi : owner v = some i) :
 ¬Mine b (bucket b) (owner u) (.node i) := by
 rintro (heq | ⟨j,hj,hmem | hown⟩)
 · cases heq
 · obtain rfl := node.inj hj
   exact h.owned v i hi b hmem
 · obtain rfl := node.inj hj
   exact hne (h.unique v u i hi hown)

/-- A store to an object of the thread. What belonged to the thread or its bucket still does, or is
free now. -/
lemma Inv.store (hcall : (s.pc u).call? = some call)
 (hb : b = s.table.hash call.key) (hcall' : pc.call? = some call)
 (hbucket : ∀ c, c ≠ b → bucket' c = bucket c) (howner : ∀ v, v ≠ u → owner' v = owner v)
 (htarget : Mine b (bucket b) (owner u) st.target) (hnodup : (bucket' b).Nodup)
 (hmine : ∀ i, i ∈ bucket' b ∨ owner' u = some i → i ∈ bucket b ∨ owner u = some i)
 (hapart : ∀ i, owner' u = some i → i ∉ bucket' b)
 (hfree : ∀ i, i ∈ bucket b ∨ owner u = some i → i ∉ bucket' b → owner' u ≠ some i →
  (s.table.store st).Free i)
 (hwalk : (s.table.store st).links.Walk (.head b) ((bucket' b).map .node) (.head b))
 (hok : ThreadOk (s.table.store st) s.last bucket' (owner' u) pc) :
 Inv { s.goto u pc with table := s.table.store st } bucket' owner' := by
 have hlock : s.lock b = some u := (h.locks b u).mpr ⟨call,hcall,hb.symm⟩
 have hsame : ∀ o, ¬Mine b (bucket b) (owner u) o → SameAt s.table (s.table.store st) o := by
  intro o ho
  apply sameAt_store
  rintro rfl
  exact ho htarget
 -- what belongs to the thread now belonged to it before, so nobody else has it
 have hapart_bucket : ∀ i c, c ≠ b → i ∈ bucket c → ¬(i ∈ bucket' b ∨ owner' u = some i) := by
  intro i c hc hi hnow
  obtain hmem | hown := hmine i hnow
  · exact hc (h.disjoint c b i hi hmem)
  · exact h.owned u i hown c hi
 have hapart_owner : ∀ i v, v ≠ u → owner v = some i → ¬(i ∈ bucket' b ∨ owner' u = some i) := by
  intro i v hv hi hnow
  obtain hmem | hown := hmine i hnow
  · exact h.owned v i hi b hmem
  · exact hv (h.unique v u i hi hown)
 constructor
 · intro c v
   show s.lock c = some v ↔ _
   rw [h.locks c v]
   by_cases hv : v = u
   · subst hv
     simp [hcall,hcall']
   · simp [State.goto_pc_of_ne _ hv]
 · intro c
   by_cases hc : c = b
   · exact hc ▸ hnodup
   · rw [hbucket c hc]
     exact h.nodup c
 · intro c d i hic hid
   by_cases hc : c = b
   · by_cases hd : d = b
     · exact hc.trans hd.symm
     · rw [hbucket d hd] at hid
       exact absurd (.inl (hc ▸ hic)) (hapart_bucket i d hd hid)
   · rw [hbucket c hc] at hic
     by_cases hd : d = b
     · exact absurd (.inl (hd ▸ hid)) (hapart_bucket i c hc hic)
     · rw [hbucket d hd] at hid
       exact h.disjoint c d i hic hid
 · intro v i hi c hic
   by_cases hv : v = u
   · subst hv
     by_cases hc : c = b
     · exact hapart i hi (hc ▸ hic)
     · rw [hbucket c hc] at hic
       exact hapart_bucket i c hc hic (.inr hi)
   · rw [howner v hv] at hi
     by_cases hc : c = b
     · exact hapart_owner i v hv hi (.inl (hc ▸ hic))
     · rw [hbucket c hc] at hic
       exact h.owned v i hi c hic
 · intro v w i hi hi'
   by_cases hv : v = u
   · by_cases hw : w = u
     · exact hv.trans hw.symm
     · rw [howner w hw] at hi'
       exact absurd (.inr (hv ▸ hi)) (hapart_owner i w hw hi')
   · rw [howner v hv] at hi
     by_cases hw : w = u
     · exact absurd (.inr (hw ▸ hi')) (hapart_owner i v hv hi)
     · rw [howner w hw] at hi'
       exact h.unique v w i hi hi'
 · intro i hi
   show i < (s.table.store st).hashNodeNum
   rw [hashNodeNum_store]
   apply h.lt
   have hwas : i ∈ bucket' b ∨ owner' u = some i → (∃ c, i ∈ bucket c) ∨ ∃ v, owner v = some i :=
    fun hnow => (hmine i hnow).imp (fun hmem => ⟨b,hmem⟩) fun hown => ⟨u,hown⟩
   obtain ⟨c,hic⟩ | ⟨v,hi⟩ := hi
   · by_cases hc : c = b
     · exact hwas (.inl (hc ▸ hic))
     · exact .inl ⟨c,hbucket c hc ▸ hic⟩
   · by_cases hv : v = u
     · exact hwas (.inr (hv ▸ hi))
     · exact .inr ⟨v,howner v hv ▸ hi⟩
 · intro c i hic
   by_cases hc : c = b
   · rw [hc,hb]
     exact hash_lt _ _
   · rw [hbucket c hc] at hic
     exact h.heads c i hic
 · intro i hi hnobucket hnoowner
   by_cases hwas : i ∈ bucket b ∨ owner u = some i
   · exact hfree i hwas (hnobucket b) (hnoowner u)
   · have hold : s.table.Free i := by
      refine h.free i (hashNodeNum_store s.table st ▸ hi) (fun c hic => ?_) fun v hv => ?_
      · by_cases hc : c = b
        · exact hwas (.inl (hc ▸ hic))
        · exact hnobucket c ((hbucket c hc).symm ▸ hic)
      · by_cases hvu : v = u
        · exact hwas (.inr (hvu ▸ hv))
        · exact hnoowner v ((howner v hvu).trans hv)
     have hsame := hsame (.node i) (by
      rintro (heq | ⟨j,hj,hmem⟩)
      · cases heq
      · exact hwas (node.inj hj ▸ hmem))
     exact ⟨hsame.next.trans hold.1,hsame.prev.trans hold.2⟩
 · intro c hlt
   by_cases hc : c = b
   · exact hc ▸ hwalk
   · rw [hbucket c hc]
     exact (h.walk c hlt).congr fun o ho => (hsame o (h.not_mine_bucket hc ho)).next
 · intro c hlt hnone
   have hc : c ≠ b := by
    rintro rfl
    cases hlock.symm.trans hnone
   rw [hbucket c hc]
   exact (h.idle c hlt hnone).congr (hash_store s.table st)
    (fun o ho => hsame o (h.not_mine_bucket hc ho)) fun _ _ _ hvalue => hvalue
 · intro v
   by_cases hv : v = u
   · subst hv
     show ThreadOk _ _ _ _ ((s.goto v pc).pc v)
     rw [State.goto_pc_self]
     exact hok
   · show ThreadOk _ _ _ _ ((s.goto u pc).pc v)
     rw [State.goto_pc_of_ne _ hv,howner v hv]
     have hne : ∀ call', (s.pc v).call? = some call' → s.table.hash call'.key ≠ b := by
      intro call' hcall'
      rw [hb]
      exact h.hash_ne hcall hcall' hv
     refine (h.thread v).frame (hash_store s.table st) (fun call' hc => hbucket _ (hne call' hc)) ?_
      fun _ _ _ _ => rfl
     rintro call' hc o (rfl | ⟨i,rfl,hmem | hown⟩)
     · exact hsame _ (h.not_mine_bucket (hne call' hc) mem_cons_self)
     · exact hsame _ (h.not_mine_bucket (hne call' hc) (mem_cons_of_mem _ (mem_map_of_mem hmem)))
     · exact hsame _ (h.not_mine_own hv hown)

lemma Inv.store_same (hcall : (s.pc u).call? = some call)
 (hb : b = s.table.hash call.key) (hcall' : pc.call? = some call)
 (htarget : Mine b (bucket b) (owner u) st.target)
 (hwalk : (s.table.store st).links.Walk (.head b) ((bucket b).map .node) (.head b))
 (hok : ThreadOk (s.table.store st) s.last bucket (owner u) pc) :
 Inv { s.goto u pc with table := s.table.store st } bucket owner := by
 refine h.store hcall hb hcall' (fun _ _ => rfl) (fun _ _ => rfl) htarget (h.nodup b)
  (fun _ hi => hi) (fun i hi => h.owned u i hi b) ?_ hwalk hok
 rintro i (hmem | hown) hnot hnot'
 · exact absurd hmem hnot
 · exact absurd hown hnot'

end

section

variable {todo : List (Store keySize valueSize)} {kind : Kind} {key : Key keySize}
 {value : Value valueSize} {l l1 l2 : List Nat} {next prev : ListObject}

lemma node_notMem_head_map (b : Nat) (h : i ∉ l) : node i ∉ head b::l.map .node := by
 simpa using h

lemma Inv.sameAt_own (h : Inv s bucket owner) (hown : owner u = some idx)
 (htarget : st.target = .node idx) (ho : o ∈ head b::(bucket b).map .node) :
 SameAt s.table (s.table.store st) o := by
 apply sameAt_store
 rintro rfl
 rw [htarget] at ho
 exact node_notMem_head_map b (h.owned u idx hown b) ho

variable {j : Nat}

lemma tail_of_cons_eq_drop {α : Type*} {a : α} {l l' : List α} (h : a::l = l'.drop j) :
 l = l'.drop (j+1) := by
 rw [← tail_drop,← h,tail_cons]

lemma lt_of_cons_eq_drop {α : Type*} {a : α} {l l' : List α} (h : a::l = l'.drop j) :
 j < l'.length := by
 by_contra hle
 rw [drop_eq_nil_of_le (Nat.le_of_not_lt hle)] at h
 cases h

section

variable (h : Inv s bucket owner)

include h

lemma Inv.write_fill (hpc : s.pc u = .write (.put key value) .fill idx (st::todo))
 (hown : owner u = some idx) (habsent : Absent s.table key (bucket (s.table.hash key)))
 (htodo : st::todo = (fillStores idx key value).drop j)
 (hcontent : (s.table.storeAll (st::todo)).content idx = (key,value))
 (hnext : (s.table.storeAll (st::todo)).links.next (.node idx) ≠ none)
 (hok : BucketOk (s.table.storeAll (st::todo)) (update s.last key none)
  (s.table.hash key) (bucket (s.table.hash key))) :
 Inv { s.goto u (.write (.put key value) .fill idx todo) with table := s.table.store st } bucket
  owner := by
 have htarget : st.target = .node idx := by
  have hmem : st ∈ fillStores idx key value := mem_of_mem_drop (htodo ▸ mem_cons_self)
  simp only [fillStores,mem_cons,not_mem_nil,or_false] at hmem
  obtain rfl | rfl | rfl | rfl := hmem
  all_goals rfl
 have hsame := fun o ho => h.sameAt_own (o := o) (b := s.table.hash key) hown htarget ho
 refine h.store_same (by rw [hpc]; rfl) rfl rfl ?_ ?_ ?_
 · exact .inr ⟨idx,htarget,.inr hown⟩
 · exact (h.walk _ (hash_lt _ _)).congr fun o ho => (hsame o ho).next
 · rw [hown,threadOk_iff rfl,hash_store]
   refine ⟨_,.fill (habsent.congr fun i hi => ?_) (j+1) (tail_of_cons_eq_drop htodo) hcontent hnext,
    hok⟩
   exact (hsame (.node i) (mem_cons_of_mem _ (mem_map_of_mem hi))).content i rfl

lemma Inv.write_set (hpc : s.pc u = .write (.put key value) .set idx (st::todo))
 (hown : owner u = none)
 (hmem : idx ∈ bucket (s.table.hash key)) (htodo : st::todo = [.value idx value])
 (hcontent : (s.table.storeAll (st::todo)).content idx = (key,value))
 (hok : BucketOk (s.table.storeAll (st::todo)) (update s.last key none)
  (s.table.hash key) (bucket (s.table.hash key))) :
 Inv { s.goto u (.write (.put key value) .set idx todo) with table := s.table.store st } bucket
  owner := by
 cases htodo
 refine h.store_same (by rw [hpc]; rfl) rfl rfl (.inr ⟨idx,rfl,.inl hmem⟩) ?_ ?_
 · exact (h.walk _ (hash_lt _ _)).congr fun _ _ => rfl
 · rw [hown,threadOk_iff rfl]
   exact ⟨_,.set hmem (.inr rfl) hcontent,hok⟩

lemma Inv.write_add (hpc : s.pc u = .write (.put key value) .add idx (st::todo))
 (hown : owner u = some idx) (hcontent : s.table.content idx = (key,value))
 (htodo : st::todo = (addStores idx (s.table.hash key) next).drop j)
 (hhead : s.table.links.next (.head (s.table.hash key)) = some next)
 (hnext : s.table.links.next (.node idx) ≠ none)
 (hdone : 2 ≤ j → s.table.links.next (.node idx) = some next)
 (hok : BucketOk (s.table.storeAll (st::todo)) (update s.last key none)
  (s.table.hash key) (idx::bucket (s.table.hash key))) :
 ∃ bucket' owner', Inv { s.goto u (.write (.put key value) .add idx todo) with
  table := s.table.store st } bucket' owner' := by
 have hcall : (s.pc u).call? = some (.put key value) := by rw [hpc]; rfl
 have hwalk := h.walk (s.table.hash key) (hash_lt _ _)
 have hfresh := h.owned u idx hown (s.table.hash key)
 have hlt := lt_of_cons_eq_drop htodo
 have htail := tail_of_cons_eq_drop htodo
 obtain rfl | rfl | rfl | rfl : j = 0 ∨ j = 1 ∨ j = 2 ∨ j = 3 := by
  simp only [addStores,length_cons,length_nil] at hlt
  omega
 · cases htodo
   refine ⟨bucket,owner,h.store_same hcall rfl rfl ?_ (hwalk.congr fun _ _ => rfl) ?_⟩
   · obtain ⟨o,ho,hmem⟩ := hwalk.next_mem mem_cons_self
     obtain rfl := some.inj (hhead.symm.trans ho)
     obtain hmem | hmem := mem_append.mp hmem
     · obtain ⟨i,hi,heq⟩ := mem_map.mp hmem
       exact .inr ⟨i,heq.symm,.inl hi⟩
     · exact .inl (mem_singleton.mp hmem)
   · rw [hown,threadOk_iff rfl]
     exact ⟨_,.add hcontent 1 (by decide) htail hhead hnext (by omega),hok⟩
 · cases htodo
   refine ⟨bucket,owner,h.store_same hcall rfl rfl (.inr ⟨idx,rfl,.inr hown⟩) ?_ ?_⟩
   · exact hwalk.congr fun o ho => (h.sameAt_own hown rfl ho).next
   · have hnew : ((s.table.store (.next (.node idx) (some next))).links.next (.node idx)) =
      some next :=
      update_self ..
     rw [hown,threadOk_iff rfl]
     refine ⟨_,.add hcontent 2 (by decide) htail ?_ ?_ fun _ => hnew,hok⟩
     · have hsame : SameAt s.table (s.table.store (.next (.node idx) (some next)))
        (.head (s.table.hash key)) := h.sameAt_own hown rfl mem_cons_self
       exact hsame.next.trans hhead
     · rw [hnew]
       exact some_ne_none next
 · cases htodo
   refine ⟨bucket,owner,h.store_same hcall rfl rfl (.inr ⟨idx,rfl,.inr hown⟩)
    (hwalk.congr fun _ _ => rfl) ?_⟩
   rw [hown,threadOk_iff rfl]
   exact ⟨_,.add hcontent 3 (by decide) htail hhead hnext fun _ => hdone (by decide),hok⟩
 · obtain rfl := (cons.inj htodo).1
   obtain rfl : todo = [] := htail
   have hdone := hdone (by decide)
   -- the node goes from the thread to the bucket
   set b := s.table.hash key with hb
   refine ⟨update bucket b (idx::bucket b),update owner u none,
    h.store hcall hb rfl (fun c hc => update_of_ne hc _ _)
     (fun v hv => update_of_ne hv _ _) (.inl rfl) ?_ ?_ ?_ ?_ ?_ ?_⟩
   · rw [update_self]
     exact nodup_cons.mpr ⟨hfresh,h.nodup b⟩
   · rintro i (hi | hi)
     · rw [update_self] at hi
       obtain rfl | hi := mem_cons.mp hi
       · exact .inr hown
       · exact .inl hi
     · rw [update_self] at hi
       cases hi
   · intro i hi
     rw [update_self] at hi
     cases hi
   · intro i hi hnot
     rw [update_self] at hnot
     refine absurd ?_ hnot
     obtain hi | hi := hi
     · exact mem_cons_of_mem idx hi
     · rw [some.inj (hi.symm.trans hown)]
       exact mem_cons_self
   · rw [update_self,map_cons]
     exact hwalk.push (by simp) (hdone.trans hhead.symm)
   · rw [threadOk_iff rfl,update_self]
     show ∃ l, Stage _ (update bucket b (idx::bucket b) b) none l _ ∧ _
     rw [update_self]
     exact ⟨_,.added mem_cons_self hcontent,hok⟩

lemma Inv.write_unlink (hpc : s.pc u = .write (.remove key) .give idx (st::todo))
 (hown : owner u = none) (hcur : bucket (s.table.hash key) = l1++idx::l2) (hj : j < 2)
 (htodo : st::todo = (giveStores idx ((head (s.table.hash key)::l1.map .node).getLast
  (cons_ne_nil _ _)) next).drop j)
 (hnext : s.table.links.next (.node idx) = some next)
 (hmem : next ∈ head (s.table.hash key)::(l1++l2).map .node)
 (hok : BucketOk (s.table.storeAll (st::todo)) (update s.last key none)
  (s.table.hash key) (l1++l2)) :
 ∃ bucket' owner', Inv { s.goto u (.write (.remove key) .give idx todo) with
  table := s.table.store st } bucket' owner' := by
 have hcall : (s.pc u).call? = some (.remove key) := by rw [hpc]; rfl
 have hwalk := h.walk (s.table.hash key) (hash_lt _ _)
 have hnodup := h.nodup (s.table.hash key)
 rw [hcur] at hwalk hnodup
 have hidx : idx ∉ l1++l2 := (nodup_middle.mp hnodup).notMem
 have hin : ∀ i, i ∈ l1++l2 → i ∈ bucket (s.table.hash key) := by
  intro i hi
  rw [hcur]
  exact perm_middle.mem_iff.mpr (mem_cons_of_mem _ hi)
 have hmine : ∀ o ∈ head (s.table.hash key)::(l1++l2).map .node,
  Mine (s.table.hash key) (bucket (s.table.hash key)) (owner u) o := by
  intro o ho
  obtain rfl | ho := mem_cons.mp ho
  · exact .inl rfl
  · obtain ⟨i,hi,rfl⟩ := mem_map.mp ho
    exact .inr ⟨i,rfl,.inl (hin i hi)⟩
 obtain rfl | rfl : j = 0 ∨ j = 1 := by omega
 · have htail := tail_of_cons_eq_drop htodo
   cases htodo
   refine ⟨bucket,owner,h.store_same hcall rfl rfl (hmine _ hmem) ?_ ?_⟩
   · rw [show (Call.remove key : Call keySize valueSize).key = key from rfl,hcur]
     exact hwalk.congr fun _ _ => rfl
   · rw [hown,threadOk_iff rfl]
     exact ⟨_,.unlink hcur 1 (by decide) htail hnext hmem,hok⟩
 · have htail := tail_of_cons_eq_drop htodo
   cases htodo
   -- the node goes from the bucket to the thread
   set b := s.table.hash key with hb
   refine ⟨update bucket b (l1++l2),update owner u (some idx),
    h.store hcall hb rfl (fun c hc => update_of_ne hc _ _)
     (fun v hv => update_of_ne hv _ _) ?_ ?_ ?_ ?_ ?_ ?_ ?_⟩
   · apply hmine
     have hlast := getLast_mem (cons_ne_nil (head b) (l1.map node))
     obtain heq | hlast := mem_cons.mp hlast
     · exact mem_cons.mpr (.inl heq)
     · rw [map_append]
       exact mem_cons_of_mem _ (mem_append_left _ hlast)
   · rw [update_self]
     exact (nodup_middle.mp hnodup).of_cons
   · rintro i (hi | hi)
     · rw [update_self] at hi
       exact .inl (hin i hi)
     · rw [update_self] at hi
       cases hi
       left
       rw [hcur]
       exact mem_append_right _ mem_cons_self
   · intro i hi
     rw [update_self] at hi ⊢
     exact some.inj hi ▸ hidx
   · intro i hi hnot hnot'
     rw [update_self] at hnot hnot'
     rw [hown,hcur] at hi
     obtain hi | hi := hi
     · obtain rfl | hi := mem_cons.mp (perm_middle.mem_iff.mp hi)
       · exact absurd rfl hnot'
       · exact absurd hi hnot
     · cases hi
   · rw [update_self,map_append]
     rw [map_append,map_cons] at hwalk
     refine hwalk.skip ?_ hnext
     have hnodes := hnodup.map (f := node) fun _ _ heq => node.inj heq
     rw [map_append,map_cons] at hnodes
     exact nodup_cons.mpr ⟨by simp,hnodes⟩
   · rw [threadOk_iff rfl,update_self]
     show ∃ l, Stage _ (update bucket b (l1++l2) b) (some idx) l _ ∧ _
     rw [update_self]
     refine ⟨_,.unlinked 2 (by decide) (by decide) htail ?_,hok⟩
     rw [htail]
     constructor
     all_goals simp [giveStores,TableImp.storeAll,TableImp.store,TableImp.setContent,Links.setNext,
      Links.setPrev]

lemma Inv.write_unlinked (hpc : s.pc u = .write (.remove key) .give idx (st::todo))
 (hown : owner u = some idx) (hj : 2 ≤ j) (htodo : st::todo = (giveStores idx prev next).drop j)
 (hfree : (s.table.storeAll (st::todo)).Free idx)
 (hok : BucketOk (s.table.storeAll (st::todo)) (update s.last key none)
  (s.table.hash key) (bucket (s.table.hash key))) :
 ∃ bucket' owner', Inv { s.goto u (.write (.remove key) .give idx todo) with
  table := s.table.store st } bucket' owner' := by
 have hcall : (s.pc u).call? = some (.remove key) := by rw [hpc]; rfl
 have htarget : st.target = .node idx := by
  have hmem : st ∈ ((giveStores idx prev next).drop 2).drop (j-2) := by
   rw [drop_drop,Nat.add_sub_cancel' hj,← htodo]
   exact mem_cons_self
  have hmem := mem_of_mem_drop hmem
  simp only [giveStores,drop_succ_cons,drop_zero,mem_cons,not_mem_nil,or_false] at hmem
  obtain rfl | rfl | rfl | rfl | rfl | rfl := hmem
  all_goals rfl
 have hwalk : (s.table.store st).links.Walk (.head (s.table.hash key))
  ((bucket (s.table.hash key)).map .node) (.head (s.table.hash key)) :=
  (h.walk _ (hash_lt _ _)).congr fun o ho => (h.sameAt_own hown htarget ho).next
 have htail := tail_of_cons_eq_drop htodo
 have hmine : Mine (s.table.hash key) (bucket (s.table.hash key)) (owner u) st.target :=
  .inr ⟨idx,htarget,.inr hown⟩
 by_cases hlast : j+1 < 8
 · refine ⟨bucket,owner,h.store_same hcall rfl rfl hmine hwalk ?_⟩
   rw [hown,threadOk_iff rfl,hash_store]
   exact ⟨_,.unlinked (j+1) (by omega) hlast htail hfree,hok⟩
 · have hnil : todo = [] := by
    rw [htail]
    exact drop_eq_nil_of_le (by simp [giveStores]; omega)
   subst hnil
   -- the node is nobody's from now on
   refine ⟨bucket,update owner u none,h.store hcall rfl rfl (fun _ _ => rfl)
    (fun v hv => update_of_ne hv _ _) hmine (h.nodup _) ?_ ?_ ?_ hwalk ?_⟩
   · rintro i (hi | hi)
     · exact .inl hi
     · rw [update_self] at hi
       cases hi
   · intro i hi
     rw [update_self] at hi
     cases hi
   · intro i hi hnot _
     obtain hi | hi := hi
     · exact absurd hi hnot
     · rw [some.inj (hi.symm.trans hown)]
       exact hfree
   · rw [update_self,threadOk_iff rfl,hash_store]
     exact ⟨_,.given,hok⟩

lemma Inv.write (hpc : s.pc u = .write call kind idx (st::todo)) :
 ∃ bucket' owner', Inv { s.goto u (.write call kind idx todo) with table := s.table.store st }
  bucket' owner' := by
 obtain ⟨l,_,hown,hstage,hok⟩ := h.stage hpc rfl
 cases hstage with
 | fill habsent j htodo hcontent hnext =>
  exact ⟨bucket,owner,h.write_fill hpc hown habsent htodo hcontent hnext hok⟩
 | add hcontent j hj htodo hhead hnext hdone =>
  exact h.write_add hpc hown hcontent htodo hhead hnext hdone hok
 | set hmem htodo hcontent =>
  obtain htodo | htodo := htodo
  · exact ⟨bucket,owner,h.write_set hpc hown hmem htodo hcontent hok⟩
  · cases htodo
 | unlink hcur j hj htodo hnext hmem => exact h.write_unlink hpc hown hcur hj htodo hnext hmem hok
 | unlinked j hj hj' htodo hfree => exact h.write_unlinked hpc hown hj htodo hfree hok

end

end

end Packages.HashTable

import Packages.HashTable.Calls

/-!
# Runs of concurrent calls on one hash table

The steps of a thread that decide how to go on, and with them every run in which nobody finds a node
free while another thread is at work on it.
-/

namespace Packages.HashTable

open Function State ListObject List Option

variable {keySize valueSize n : Nat} {s s' : State n keySize valueSize} {bucket : Nat → List Nat}
 {owner : Fin n → Option Nat} {u : Fin n} {call : Call keySize valueSize} {key : Key keySize}
 {value : Value valueSize} {b idx : Nat}

-- The steps that decide

/-- A step that goes on within the call, with the same owner. -/
lemma Inv.goto_stage (h : Inv s bucket owner) {pc pc' : Pc keySize valueSize} {own : Option Nat}
 (hpc : s.pc u = pc) (hcall : pc.call? = some call) (hcall' : pc'.call? = some call)
 (hown : owner u = own) {l : List Nat}
 (hstage : Stage s.table (bucket (s.table.hash call.key)) own l pc')
 (hok : BucketOk (s.table.storeAll pc'.pending) (update s.last call.key none)
  (s.table.hash call.key) l) : Inv (s.goto u pc') bucket owner :=
 h.goto (hcall'.trans (hpc ▸ hcall).symm) ((threadOk_iff hcall').mpr ⟨l,hown ▸ hstage,hok⟩)

lemma headD_map_node_eq_head {l : List Nat} {b c : Nat}
 (h : head c = (l.map node).headD (.head b)) : l = [] := by
 cases l with
 | nil => rfl
 | cons i l => cases h

lemma headD_map_node_eq_node {l : List Nat} {b i : Nat}
 (h : node i = (l.map node).headD (.head b)) : ∃ l', l = i::l' := by
 cases l with
 | nil => cases h
 | cons j l => exact ⟨l,by rw [node.inj h]⟩

section

variable (h : Inv s bucket owner)

include h

lemma Inv.go_walk {pos : ListObject} (hpc : s.pc u = .walk call pos)
 (hgo : s.go u = some s') : Inv s' bucket owner := by
 obtain ⟨l,_,hown,hstage,hok⟩ := h.stage hpc rfl
 cases hstage with
 | @walk _ _ l1 l2 hcur habsent hpos =>
 have hok : BucketOk s.table (update s.last call.key none) (s.table.hash call.key)
  (bucket (s.table.hash call.key)) := hok
 rw [go,hpc] at hgo
 cases pos with
 | head hash =>
  obtain rfl := headD_map_node_eq_head hpos
  rw [append_nil] at hcur
  dsimp only at hgo
  split at hgo
  · cases call with
    | put key value =>
     cases hgo
     exact h.goto_stage hpc rfl rfl hown (.testNext (hcur ▸ habsent)) hok
    | remove key =>
     cases hgo
     exact h.goto_stage hpc rfl rfl hown (.unlock fun value hvalue => by cases hvalue) hok
  · cases hgo
 | node idx =>
  obtain ⟨l2,rfl⟩ := headD_map_node_eq_node hpos
  have hmem : idx ∈ bucket (s.table.hash call.key) := by
   rw [hcur]
   exact mem_append_right _ mem_cons_self
  dsimp only at hgo
  split at hgo
  · next hkey =>
    have hkey : (s.table.content idx).1 = call.key := hkey
    cases call with
    | put key value =>
     cases hgo
     refine h.goto_stage hpc rfl rfl hown (.set hmem (.inl rfl) ?_) (hok.set hmem hkey)
     have hset : (s.table.storeAll [.value idx value]).content idx =
      ((s.table.content idx).1,value) := update_self ..
     rw [hset,hkey]
     rfl
    | remove key =>
     cases hgo
     exact h.goto_stage hpc rfl rfl hown (.listDel hmem hkey) hok
  · next hkey =>
    cases hgo
    refine h.goto_stage hpc rfl rfl hown (.follow hcur fun i hi => ?_) hok
    obtain hi | hi := mem_append.mp hi
    · exact habsent i hi
    · rw [mem_singleton.mp hi]
      exact hkey

lemma Inv.go_next (hpc : s.pc u = .first call ∨ ∃ idx, s.pc u = .follow call idx)
 (hgo : s.go u = some s') : Inv s' bucket owner := by
 have hwalk := h.walk (s.table.hash call.key) (hash_lt _ _)
 obtain hpc | ⟨idx,hpc⟩ := hpc
 all_goals
  obtain ⟨l,_,hown,hstage,hok⟩ := h.stage hpc rfl
  rw [go,hpc] at hgo
  obtain ⟨pos,hpos,rfl⟩ := map_eq_some_iff.mp hgo
 · cases hstage with
   | first =>
   refine h.goto_stage hpc rfl rfl hown (.walk (nil_append _).symm (by simp [Absent]) ?_) hok
   exact some.inj (hpos.symm.trans hwalk.next_eq)
 · cases hstage with
   | @follow _ _ l1 l2 hcur habsent =>
   rw [hcur,map_append,map_cons] at hwalk
   refine h.goto_stage hpc rfl rfl hown (.walk (hcur.trans (append_cons l1 idx l2)) habsent ?_) hok
   exact some.inj (hpos.symm.trans hwalk.drop.next_eq)

lemma Inv.go_testNext (hpc : s.pc u = .testNext key value idx)
 (hsafe : poolSafe s (.go u) = true) (hgo : s.go u = some s') :
 ∃ owner', Inv s' bucket owner' := by
 obtain ⟨l,_,hown,hstage,hok⟩ := h.stage hpc rfl
 cases hstage with
 | testNext habsent =>
 rw [go,hpc] at hgo
 rw [poolSafe,hpc,decide_eq_true_iff] at hsafe
 dsimp only at hgo
 split at hgo
 · next hlt =>
   split at hgo
   · split at hgo
     · next hnull =>
       cases hgo
       exact ⟨_,h.take hpc hlt hnull (hsafe.resolve_left (not_not.mpr hnull))⟩
     · cases hgo
       exact ⟨owner,h.goto_stage hpc rfl rfl hown (.testNext habsent) hok⟩
   · cases hgo
 · cases hgo
   exact ⟨owner,h.goto_stage hpc rfl rfl hown (.unlock fun value' hvalue => by cases hvalue) hok⟩

lemma Inv.go_testPrev (hpc : s.pc u = .testPrev key value idx)
 (hgo : s.go u = some s') : Inv s' bucket owner := by
 obtain ⟨l,_,hown,hstage,hok⟩ := h.stage hpc rfl
 cases hstage with
 | testPrev habsent hfree =>
 rw [go,hpc] at hgo
 dsimp only at hgo
 rw [if_pos hfree.2] at hgo
 cases hgo
 refine h.goto_stage hpc rfl rfl hown (.fill habsent 0 rfl ?_ ?_)
  (hok.congr (hash_storeAll _ _) ?_ fun _ _ _ hvalue => hvalue)
 · simp [fillStores,TableImp.storeAll,TableImp.store,TableImp.setContent]
 · simp [fillStores,TableImp.storeAll,TableImp.store,TableImp.setContent,Links.setNext,
    Links.setPrev]
 · intro o ho
   apply sameAt_storeAll
   intro st hst heq
   have htarget : st.target = .node idx := by
    simp only [Pc.pending,fillStores,mem_cons,not_mem_nil,or_false] at hst
    obtain rfl | rfl | rfl | rfl := hst
    all_goals rfl
   rw [heq,htarget] at ho
   exact node_notMem_head_map _ (h.owned u idx hown _) ho

lemma Inv.go_listAdd (hpc : s.pc u = .listAdd key value idx)
 (hgo : s.go u = some s') : Inv s' bucket owner := by
 obtain ⟨l,_,hown,hstage,hok⟩ := h.stage hpc rfl
 cases hstage with
 | listAdd habsent hcontent hnext =>
 rw [go,hpc] at hgo
 obtain ⟨next,hhead,rfl⟩ := map_eq_some_iff.mp hgo
 have hfresh := h.owned u idx hown (s.table.hash key)
 exact h.goto_stage hpc rfl rfl hown (.add hcontent 0 (by decide) rfl hhead hnext (by omega))
  (BucketOk.add hok rfl hfresh habsent hcontent hhead)

lemma Inv.go_listDel (hpc : s.pc u = .listDel key idx)
 (hgo : s.go u = some s') : Inv s' bucket owner := by
 obtain ⟨l,_,hown,hstage,hok⟩ := h.stage hpc rfl
 cases hstage with
 | listDel hmem hkey =>
 have hok : BucketOk s.table (update s.last key none) (s.table.hash key)
  (bucket (s.table.hash key)) := hok
 rw [go,hpc] at hgo
 dsimp only at hgo
 split at hgo
 · next prev next hprev hnext =>
   cases hgo
   obtain ⟨l1,l2,hcur⟩ := append_of_mem hmem
   have hcur : bucket (s.table.hash key) = l1++idx::l2 := hcur
   rw [hcur] at hok
   have hring := hok.ring
   rw [map_append,map_cons] at hring
   have hlast := hring.path.append.1.prev_eq
   obtain ⟨p,m,-,hm,-,hin,-⟩ := hring.remove
   obtain rfl := some.inj (hm.symm.trans hnext)
   obtain rfl := some.inj (hlast.symm.trans hprev)
   refine h.goto_stage hpc rfl rfl hown (.unlink hcur 0 (by decide) rfl hnext ?_)
    (hok.give hkey hprev hnext)
   rw [map_append]
   exact hin
 · cases hgo

lemma Inv.go_done {kind : Kind} (hpc : s.pc u = .write call kind idx [])
 (hgo : s.go u = some s') : Inv s' bucket owner := by
 obtain ⟨l,_,hown,hstage,hok⟩ := h.stage hpc rfl
 rw [go,hpc] at hgo
 cases hstage with
 | fill habsent j htodo hcontent hnext =>
  cases hgo
  exact h.goto_stage hpc rfl rfl hown (.listAdd habsent hcontent hnext) hok
 | add hcontent j hj htodo =>
  have hlen := congrArg length htodo
  simp only [addStores,length_drop,length_cons,length_nil] at hlen
  omega
 | added hmem hcontent | set hmem htodo hcontent =>
  cases hgo
  refine h.goto_stage hpc rfl rfl hown (.unlock fun value hvalue => ⟨idx,hmem,?_⟩) hok
  cases hvalue
  exact hcontent
 | unlink hcur j hj htodo | unlinked j hj hj' htodo =>
  have hlen := congrArg length htodo
  simp only [giveStores,length_drop,length_cons,length_nil] at hlen
  omega
 | given =>
  cases hgo
  exact h.goto_stage hpc rfl rfl hown (.unlock fun value hvalue => by cases hvalue) hok

-- Runs

lemma Inv.go (hsafe : poolSafe s (.go u) = true) (hgo : s.go u = some s') :
 ∃ bucket' owner', Inv s' bucket' owner' := by
 cases hpc : s.pc u with
 | idle =>
  rw [State.go,hpc] at hgo
  cases hgo
 | lock call =>
  rw [State.go,hpc] at hgo
  dsimp only at hgo
  split at hgo
  · next hfree =>
    cases hgo
    exact ⟨_,_,h.acquire hpc hfree⟩
  · cases hgo
 | first call => exact ⟨_,_,h.go_next (.inl hpc) hgo⟩
 | walk call pos => exact ⟨_,_,h.go_walk hpc hgo⟩
 | follow call idx => exact ⟨_,_,h.go_next (.inr ⟨idx,hpc⟩) hgo⟩
 | testNext key value idx => exact ⟨_,h.go_testNext hpc hsafe hgo⟩
 | testPrev key value idx => exact ⟨_,_,h.go_testPrev hpc hgo⟩
 | listAdd key value idx => exact ⟨_,_,h.go_listAdd hpc hgo⟩
 | listDel key idx => exact ⟨_,_,h.go_listDel hpc hgo⟩
 | write call kind idx todo =>
  cases todo with
  | nil => exact ⟨_,_,h.go_done hpc hgo⟩
  | cons st todo =>
   rw [State.go,hpc] at hgo
   cases hgo
   exact h.write hpc
 | unlock call ret =>
  rw [State.go,hpc] at hgo
  cases hgo
  exact ⟨_,_,h.release hpc⟩

lemma Inv.step {a : Action n keySize valueSize}
 (hsafe : poolSafe s a = true) (hstep : step s a = some s') :
 ∃ bucket' owner', Inv s' bucket' owner' := by
 cases a with
 | start u call =>
  rw [HashTable.step] at hstep
  split at hstep
  · next hidle =>
    cases hstep
    have hok := h.thread u
    rw [hidle] at hok
    exact ⟨_,_,h.goto (by rw [hidle]; rfl) hok⟩
  · cases hstep
 | go u => exact h.go hsafe hstep

end

lemma inv_start (n keySize valueSize : Nat) (signed : Bool) (capacity : Nat) :
 Inv (start n keySize valueSize signed capacity) (fun _ => []) fun _ => none := by
 obtain ⟨hring,hnode⟩ := initListHeads_spec maxBucketNum
 have hmem : ∀ i, i ∉ ([] : List Nat) := fun _ => not_mem_nil
 refine ⟨fun b u => ⟨fun hlock => ?_,?_⟩,fun _ => .nil,fun _ _ i hi => absurd hi (hmem i),
  fun _ _ hi => ?_,fun _ _ _ hi => ?_,?_,fun _ i hi => absurd hi (hmem i),fun i _ _ _ => hnode i,
  fun b hb => (hring b hb).path.walk,
  fun b hb _ => ⟨hring b hb,by simp,by simp,fun _ _ _ hlast => by cases hlast⟩,fun _ => rfl⟩
 · cases hlock
 · rintro ⟨call,hcall,-⟩
   cases hcall
 · cases hi
 · cases hi
 · rintro i (⟨b,hi⟩ | ⟨u,hi⟩) <;> cases hi

/-- The states of `n` threads on a new table. -/
abbrev Reachable (allowed : State n keySize valueSize → Action n keySize valueSize → Prop)
 (signed : Bool) (capacity : Nat) : State n keySize valueSize → Prop :=
 Transition.Reach (· = start n keySize valueSize signed capacity) step allowed

lemma inv_of_reachable {signed : Bool} {capacity : Nat}
 (h : Reachable (poolSafe · · = true) signed capacity s) : ∃ bucket owner, Inv s bucket owner := by
 refine h.invariant (P := fun s => ∃ bucket owner, Inv s bucket owner) ?_ ?_
 · rintro _ rfl
   exact ⟨_,_,inv_start n keySize valueSize signed capacity⟩
 · rintro s a s' ⟨bucket,owner,hinv⟩ hsafe hstep
   exact hinv.step hsafe hstep

lemma Inv.mem_of_linked (h : Inv s bucket owner) (hb : b < maxBucketNum)
 (hlinked : s.table.Linked b idx) : idx ∈ bucket b := by
 have hclosed : ∀ o, Relation.ReflTransGen (fun o o' => s.table.links.next o = some o')
  (.head b) o → o ∈ head b::(bucket b).map .node := by
  intro o ho
  induction ho with
  | refl => exact mem_cons_self
  | tail _ hnext ih =>
   obtain ⟨o',ho',hmem⟩ := (h.walk b hb).next_mem ih
   obtain rfl := some.inj (hnext.symm.trans ho')
   obtain hmem | hmem := mem_append.mp hmem
   · exact mem_cons_of_mem _ hmem
   · exact mem_cons.mpr (.inl (mem_singleton.mp hmem))
 obtain heq | hmem := mem_cons.mp (hclosed _ hlinked)
 · cases heq
 · obtain ⟨i,hi,heq⟩ := mem_map.mp hmem
   exact node.inj heq ▸ hi

lemma Inv.getValue (h : Inv s bucket owner) (hidle : ∀ u, s.pc u = .idle)
 (hlast : s.last key = some value) {bufferSize : Nat} (hsize : valueSize ≤ bufferSize) :
 s.table.getValue (some key) (some bufferSize) = some (odphSuccess,some value) := by
 set b := s.table.hash key with hb
 have hlt : b < maxBucketNum := hash_lt _ _
 have hfree : s.lock b = none := by
  cases hlock : s.lock b with
  | none => rfl
  | some u =>
   obtain ⟨call,hcall,-⟩ := (h.locks b u).mp hlock
   rw [hidle u] at hcall
   cases hcall
 have hok := h.idle b hlt hfree
 obtain ⟨idx,hmem,hcontent⟩ := hok.found key value rfl hlast
 have hlength : (bucket b).length < s.table.hashNodeNum+1 := by
  have hsub : bucket b ⊆ range s.table.hashNodeNum := fun i hi =>
   mem_range.mpr (h.lt i (.inl ⟨b,hi⟩))
  have hle := ((h.nodup b).subperm hsub).length_le
  rw [length_range] at hle
  omega
 obtain ⟨pos,hpos,hwalk⟩ := forEach_path hok.ring.path hlength
 have hfind : (bucket b).find? (s.table.KeyAt key ·) = some idx := by
  cases hfind : (bucket b).find? (s.table.KeyAt key ·) with
  | none =>
   have hnot := find?_eq_none.mp hfind idx hmem
   rw [decide_eq_true_iff,TableImp.KeyAt,hcontent] at hnot
   exact absurd rfl hnot
  | some i =>
   have hkey : s.table.KeyAt key i := by simpa using find?_some hfind
   have hsame : (s.table.content i).1 = (s.table.content idx).1 := by
    rw [hcontent]
    exact hkey
   rw [hok.inj i (mem_of_find?_eq_some hfind) idx hmem hsame]
 rw [TableImp.getValue,if_neg (Nat.not_lt.mpr hsize),TableImp.findNode,hpos]
 dsimp only
 rw [hwalk,hfind]
 dsimp only
 rw [hcontent]

/-- Put and remove by any number of threads: while nobody finds a node free that another thread
works on, every node is in one bucket at most, and between calls a key that was put last is found
with its value. -/
theorem concurrent_table {signed : Bool} {capacity : Nat}
 (h : Reachable (poolSafe · · = true) signed capacity s) :
 (∀ b c idx, b < maxBucketNum → c < maxBucketNum →
  s.table.Linked b idx → s.table.Linked c idx → b = c) ∧
 ((∀ u, s.pc u = .idle) → ∀ key value, s.last key = some value →
  ∀ bufferSize, valueSize ≤ bufferSize →
   s.table.getValue (some key) (some bufferSize) = some (odphSuccess,some value)) := by
 obtain ⟨bucket,owner,hinv⟩ := inv_of_reachable h
 constructor
 · intro b c idx hb hc hlb hlc
   exact hinv.disjoint b c idx (hinv.mem_of_linked hb hlb) (hinv.mem_of_linked hc hlc)
 · intro hidle key value hlast bufferSize hsize
   exact hinv.getValue hidle hlast hsize

-- Two puts

def headLinks (n : Nat) : ListObject → Option ListObject
 | .head h => if h < n then some (.head h) else none
 | .node _ => none

lemma initListHeads_eq (n : Nat) : initListHeads n = ⟨headLinks n,headLinks n⟩ := by
 induction n with
 | zero =>
  have hlinks : headLinks 0 = fun _ => none := by
   funext o
   cases o with
   | head h | node i => rfl
  rw [initListHeads,zeroLinks,hlinks]
 | succ n ih =>
  have hlinks : update (headLinks n) (.head n) (some (.head n)) = headLinks (n+1) := by
   funext o
   by_cases ho : o = .head n
   · subst ho
     simp [headLinks]
   · rw [update_of_ne ho]
     cases o with
     | node i => rfl
     | head h =>
      have hne : h ≠ n := fun heq => ho (by rw [heq])
      have hlt : h < n ↔ h < n+1 := by omega
      simp [headLinks,hlt]
  rw [initListHeads,ih,Links.reset,Links.setNext,Links.setPrev]
  simp only [hlinks]

/-- A new table whose list heads are given by their links. -/
def ready (n keySize valueSize : Nat) (signed : Bool) (capacity : Nat) :
 State n keySize valueSize :=
 { start n keySize valueSize signed capacity with
   table := { TableImp.create keySize valueSize signed capacity with
    links := ⟨headLinks maxBucketNum,headLinks maxBucketNum⟩ } }

lemma ready_eq (n keySize valueSize : Nat) (signed : Bool) (capacity : Nat) :
 ready n keySize valueSize signed capacity = start n keySize valueSize signed capacity := by
 rw [ready,← initListHeads_eq]
 rfl

attribute [local instance] Transition.neZero_two

/-- Two threads put keys of two buckets; the second tests the pool after the first has written its
node. -/
def putsInTurn : List (Action 2 1 1) :=
 [.start 0 (.put #v[1] #v[10]),.start 1 (.put #v[2] #v[20]),.go 0,.go 1,.go 0,.go 1,.go 0,.go 1,
  .go 0,.go 0,.go 0,.go 1]++List.replicate 11 (.go 0)++List.replicate 14 (.go 1)

/-- The same, but both find node 0 free before either has written it. Bucket 1 ends up with a node
that leads on to the head of bucket 2. -/
def putsAtOnce : List (Action 2 1 1) :=
 [.start 0 (.put #v[1] #v[10]),.start 1 (.put #v[2] #v[20]),.go 0,.go 1,.go 0,.go 1,.go 0,.go 1,
  .go 0,.go 1,.go 0,.go 1]++List.replicate 12 (.go 0)++List.replicate 12 (.go 1)

theorem concurrent_table_putsAtOnce :
 ∃ s : State 2 1 1, Reachable (fun _ _ => True) true 2 s ∧ (∀ u, s.pc u = .idle) ∧
  (s.table.Linked 1 0 ∧ s.table.Linked 2 0) ∧ s.last #v[1] = some #v[10] ∧
  s.table.getValue (some #v[1]) (some 1) ≠ some (odphSuccess,some #v[10]) := by
 obtain ⟨s,hs,hidle,⟨hone,htwo⟩,hlast⟩ := Transition.Reach.exists_of_run
  (.start (ready_eq 2 1 1 true 2) : Reachable (fun _ _ => True) true 2 (ready 2 1 1 true 2))
  putsAtOnce
  (fun s => (∀ u, s.pc u = .idle) ∧ (s.table.links.next (.head 1) = some (.node 0) ∧
   s.table.links.next (.head 2) = some (.node 0)) ∧ s.last #v[1] = some #v[10] ∧
   s.table.getValue (some #v[1]) (some 1) ≠ some (odphSuccess,some #v[10])) (by decide +kernel)
 exact ⟨s,hs,hidle,⟨.single hone,.single htwo⟩,hlast⟩

theorem concurrent_table_putsInTurn :
 ∃ s : State 2 1 1, Reachable (poolSafe · · = true) true 2 s ∧ (∀ u, s.pc u = .idle) ∧
  s.last #v[1] = some #v[10] ∧ s.last #v[2] = some #v[20] ∧
  s.table.getValue (some #v[1]) (some 1) = some (odphSuccess,some #v[10]) ∧
  s.table.getValue (some #v[2]) (some 1) = some (odphSuccess,some #v[20]) := by
 obtain ⟨s,hs,hidle,hone,htwo⟩ := Transition.Reach.exists_of_run
  (.start (ready_eq 2 1 1 true 2) : Reachable (poolSafe · · = true) true 2 (ready 2 1 1 true 2))
  putsInTurn
  (fun s => (∀ u, s.pc u = .idle) ∧ s.last #v[1] = some #v[10] ∧
   s.last #v[2] = some #v[20]) (by decide +kernel)
 have hget := (concurrent_table hs).2 hidle
 exact ⟨s,hs,hidle,hone,htwo,hget _ _ hone 1 (by decide),hget _ _ htwo 1 (by decide)⟩

end Packages.HashTable

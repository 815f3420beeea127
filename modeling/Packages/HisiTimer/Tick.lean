import Packages.HisiTimer.Removal

/-!
# A core by itself

What `timer_add`, `timer_del` and a whole `odp_hisi_timer_manage` do to a well-formed list when
nobody interferes.
-/

namespace Packages.HisiTimer

open Function State List Option

open HeadList SkipList

variable {n k : Nat} {m : Mem n k} {core : Fin k} {L : Nat → List (Fin n)} {tim : Fin n}

/-- The list of a core with the timers `L i` on level `i`. -/
structure WellFormed (m : Mem n k) (core : Fin k) (L : Nat → List (Fin n)) : Prop where
 linked : ∀ i, Behind (m.next core i) none (L i)
 sublist : ∀ i, (L (i+1)).Sublist (L i)
 sorted : ∀ i, (L i).Pairwise fun x y => m.expire x ≤ m.expire y
 high : ∀ i, m.currSkiplistDepth core ≤ i → L i = []
 depth : m.currSkiplistDepth core ≤ maxSkiplistDepth
 words : ∀ t ∈ L 0, 0 < m.expire t ∧ m.expire t < 2^64

lemma WellFormed.listOf (h : WellFormed m core L) : ListOf m core L :=
 ⟨⟨h.sublist,h.sorted 0,(h.linked 0).nodup,h.high⟩,h.linked⟩

lemma ListOf.wellFormed (h : ListOf m core L) (hdepth : m.currSkiplistDepth core ≤ maxSkiplistDepth)
 (hwords : ∀ t ∈ L 0, 0 < m.expire t ∧ m.expire t < 2^64) : WellFormed m core L :=
 ⟨h.linked,h.levels.sublist,h.levels.sorted_level,h.levels.high,hdepth,hwords⟩

/-- **Insertion and removal.** `timer_add` puts a timer directly behind the last one whose time is
not larger, and `timer_del` takes exactly the timer out, on every level; the list stays well
formed. -/
theorem skiplist_add_del (h : WellFormed m core L) :
 (∀ tim ∉ L 0, 0 < m.expire tim → m.expire tim < 2^64 → ∀ rand, ∃ m' L' A B,
  m.timerAdd tim core rand = some m' ∧ WellFormed m' core L' ∧ m'.expire = m.expire ∧ L 0 = A++B ∧
  (∀ t ∈ A, m.expire t ≤ m.expire tim) ∧ (∀ t ∈ B, m.expire tim < m.expire t) ∧ L' 0 = A++tim::B) ∧
 ∀ tim ∈ L 0, ∃ m', m.timerDel tim core = some m' ∧ m'.expire = m.expire ∧
  WellFormed m' core fun i => (L i).filter (· ≠ tim) := by
 constructor
 · intro tim htim hpos hword rand
   obtain ⟨m',L',hadd,hL',htouch,hzero,hdepth⟩ := timerAdd_spec h.listOf htim rand
   refine ⟨m',L',_,_,hadd,hL'.wellFormed (hdepth h.depth) fun t ht => ?_,htouch.expire,
    (low_append_upp (h.sorted 0)).symm,fun t ht => (mem_low.mp ht).2,fun t ht =>
    (mem_upp.mp ht).2,hzero⟩
   rw [hzero,mem_insertKey (h.sorted 0)] at ht
   rw [htouch.expire]
   obtain rfl | ht := ht
   · exact ⟨hpos,hword⟩
   · exact h.words t ht
 · intro tim htim
   obtain ⟨m',hdel,hL',htouch,hdepth⟩ :=
    timerDel_spec h.listOf (fun _ => (h.words tim htim).1) (h.words tim htim).2
   refine ⟨m',hdel,htouch.expire,hL'.wellFormed (hdepth.trans h.depth) fun t ht => ?_⟩
   rw [htouch.expire]
   exact h.words t (mem_filter.mp ht).1

attribute [local instance] Transition.neZero_two

/-- Four timers, which expire at 5, 5, 20 and 5. The first three are on the list, the second of
them, with period 10, on two levels. -/
def threeTimers : State 4 1 :=
 { init with
   mem := ⟨fun _ i => [some 0,some 1].getD i none,fun _ => 5,fun _ => 2,
    fun t i => if i = 0 then ![some 1,some 2,none,none] t else none,![5,5,20,5]⟩
   status := ![⟨.pending,some 0⟩,⟨.pending,some 0⟩,⟨.pending,some 0⟩,⟨.stop,none⟩]
   period := ![0,10,0,0] }

/-- The timers on each level. -/
def threeLevels (i : Nat) : List (Fin 4) :=
 [[0,1,2],[1]].getD i []

lemma threeTimers_wellFormed : WellFormed threeTimers.mem 0 threeLevels where
 linked
  | 0 => ⟨rfl,rfl,rfl,rfl⟩
  | 1 => ⟨rfl,rfl⟩
  | _+2 => rfl
 sublist
  | 0 => by decide
  | _+1 => nil_sublist _
 sorted
  | 0 => by decide
  | 1 => by decide
  | _+2 => Pairwise.nil
 high
  | _+2,_ => rfl
 depth := by decide
 words := by decide

/-- The fourth timer goes behind the two with its time; the second one leaves both levels. -/
theorem skiplist_add_del_threeTimers :
 (∃ m' L', threeTimers.mem.timerAdd 3 0 7 = some m' ∧ WellFormed m' 0 L' ∧ L' 0 = [0,1,3,2]) ∧
 ∃ m' L', threeTimers.mem.timerDel 1 0 = some m' ∧ WellFormed m' 0 L' ∧ L' 0 = [0,2] ∧
  L' 1 = [] := by
 obtain ⟨hadd,hdel⟩ := skiplist_add_del threeTimers_wellFormed
 obtain ⟨m',L',A,B,h,hL',-,hsplit,hA,hB,hzero⟩ := hadd 3 (by decide) (by decide) (by decide) 7
 obtain ⟨m2,h2,-,hL2⟩ := hdel 1 (by decide)
 refine ⟨⟨m',L',h,hL',?_⟩,m2,_,h2,hL2,by decide,by decide⟩
 have hlow : (threeLevels 0).filter (threeTimers.mem.expire · ≤ threeTimers.mem.expire 3) = A := by
  rw [hsplit,filter_append,filter_eq_self.mpr (by simpa using hA),
   filter_eq_nil_iff.mpr (by simpa using hB),append_nil]
 obtain rfl : [0,1] = A := hlow
 have hcut : [0,1]++[2] = [0,1]++B := hsplit
 obtain rfl : [2] = B := append_cancel_left hcut
 exact hzero

-- A whole tick

namespace State

/-- A core goes on with `odp_hisi_timer_manage`, the callbacks return at once: the timers whose
callbacks have run. `rand` are the numbers that `odp_random_data` would give. -/
def alone (core : Fin k) (rand : Nat → Nat) : Nat → State n k → Option (List (Fin n) × State n k)
 | 0,s => some ([],s)
 | fuel+1,s =>
  match s.manage core with
  | .idle => some ([],s)
  | .callback _ tim _ =>
   ((s.step (core,.ret)).bind (alone core rand fuel)).map fun r => (tim::r.1,r.2)
  | .sampled _ | .walking .. | .rearming .. =>
   (s.step (core,.next (rand fuel))).bind (alone core rand fuel)

end State

section Alone

variable {s s' : State n k} {rand : Nat → Nat} {cur : Nat} {x : Fin n} {next : Option (Fin n)}

lemma alone_idle (hm : s.manage core = .idle) (fuel : Nat) :
 s.alone core rand fuel = some ([],s) := by
 cases fuel with
 | zero => rfl
 | succ fuel => rw [alone,hm]

lemma alone_call {call : Call n k} {fuel : Nat} (hm : s.manage core = .rearming cur x next)
 (hcall : s.call core = some call)
 (hs : s.callStep core (rand fuel) call = some s') : s.alone core rand (fuel+1) =
  s'.alone core rand fuel := by
 simp only [alone,hm,step,hcall,hs,bind_some]

lemma alone_rearm {period : Nat} (hm : s.manage core = .rearming cur x next)
 (hcall : s.call core = some ⟨x,.reset (cur+period) period core,true,.config⟩)
 (hst : s.status x = ⟨.pending,some core⟩) (hL : ListOf s.mem core L) (hx : x ∉ L 0)
 (hword : s.mem.expire x < 2^64) (rand : Nat → Nat) (fuel : Nat) :
 ∃ (s' : State n k) (L' : Nat → List (Fin n)), s.alone core rand (fuel+5) =
  s'.alone core rand fuel ∧ s'.manage core = .walking cur next ∧
  s'.call core = none ∧ ListOf s'.mem core L' ∧ L' 0 = insertKey s'.mem.expire (L 0) x ∧
  s'.mem.expire = update s.mem.expire x ((cur+period)%2^64) ∧ s'.status = s.status ∧
  s'.period = update s.period x period ∧ ∀ y ∉ x::L 0, s'.mem.slNext y = s.mem.slNext y := by
 obtain ⟨m1,hdel,hL1,htouch1,-⟩ := timerDel_spec hL (fun hmem => absurd hmem hx) hword
 have hsame : (L 0).filter (· ≠ x) = L 0 :=
  filter_eq_self.mpr fun y hy => decide_eq_true (ne_of_mem_of_not_mem hy hx)
 let m2 : Mem n k := { m1 with expire := update m1.expire x ((cur+period)%2^64) }
 have hL2 : ListOf m2 core fun i => (L i).filter (· ≠ x) := by
  refine ⟨hL1.levels.congr fun y hy => update_of_ne ?_ ..,fun i => (hL1.linked i).congr rfl
   fun _ _ => rfl⟩
  simpa using (mem_filter.mp hy).2
 obtain ⟨m3,L',hadd,hL',htouch3,hzero,-⟩ :=
  timerAdd_spec hL2 (show x ∉ (L 0).filter (· ≠ x) by simp) (rand (fuel+1))
 rw [hsame] at hzero htouch3
 let call : Stage k → Call n k := fun stage => ⟨x,.reset (cur+period) period core,true,stage⟩
 let s1 := (s.setStatus x ⟨.config,some core⟩).setCall core (some (call (.del core)))
 let s2 := { s1 with mem := m1 }.setCall core (some (call .write))
 let s3 := { s2 with mem := m2, period := update s.period x period }.setCall core (some (call .add))
 let s4 := { s3 with mem := m3 }.setCall core (some (call .publish))
 have h1 : s.callStep core (rand (fuel+4)) (call .config) = some s1 := by
  simp [callStep,config,call,hst,State.Call.afterConfig,s1]
 have h2 : s1.callStep core (rand (fuel+3)) (call (.del core)) = some s2 := by
  simp [callStep,call,mayLock,s1,s2,setStatus,setCall,hdel]
 have h3 : s2.callStep core (rand (fuel+2)) (call .write) = some s3 := rfl
 have h4 : s3.callStep core (rand (fuel+1)) (call .add) = some s4 := by
  simp [callStep,call,mayLock,s3,s4,setCall,hadd]
 have h5 : s4.callStep core (rand fuel) (call .publish) =
  some ((s4.setStatus x ⟨.pending,some core⟩).return_ core) := rfl
 have hself : ∀ (s : State n k) c, (s.setCall core c).call core = c := fun s c => update_self ..
 refine ⟨(s4.setStatus x ⟨.pending,some core⟩).return_ core,L',?_,?_⟩
 · rw [alone_call hm hcall h1,alone_call (s := s1) hm (hself ..) h2,alone_call (s := s2) hm
    (hself ..) h3,alone_call (s := s3) hm (hself ..) h4,alone_call (s := s4) hm (hself ..) h5]
 · have hret : (s4.setStatus x ⟨.pending,some core⟩).return_ core =
    ((s4.setStatus x ⟨.pending,some core⟩).setCall core none).setManage core
    (.walking cur next) := by
    simp only [return_,setCall,setStatus,s4,s3,s2,s1,hm]
   have hexpire : m3.expire = update s.mem.expire x ((cur+period)%2^64) := by
    rw [htouch3.expire]
    show update m1.expire x _ = _
    rw [htouch1.expire]
   rw [hret]
   refine ⟨update_self ..,update_self ..,hL',?_,hexpire,?_,rfl,fun y hy => ?_⟩
   · rw [hzero]
     exact congrArg (insertKey · (L 0) x) htouch3.expire.symm
   · show update (update s.status x _) x ⟨.pending,some core⟩ = s.status
     rw [update_idem,← hst,update_eq_self]
   · show m3.slNext y = _
     rw [htouch3.slNext y hy]
     exact htouch1.slNext y fun hmem => hy (mem_cons_of_mem x hmem)

/-- The walk over the run list `R`. `key` are the times that the timers on the list end up with. -/
lemma alone_walk {R : List (Fin n)} {r : Option (Fin n)} (key : Fin n → Nat) (rand : Nat → Nat)
 (fuel : Nat) (hm : s.manage core = .walking cur r) (hcall : s.call core = none)
 (hrun : Linked some (fun t => s.mem.slNext t 0) r R none) (hnodup : R.Nodup)
 (hoff : ∀ x ∈ R, x ∉ L 0)
 (hst : ∀ x ∈ R, s.status x = ⟨.pending,some core⟩) (hword : ∀ x ∈ R, s.mem.expire x < 2^64)
 (hL : ListOf s.mem core L) (hkey : ∀ x ∈ L 0, s.mem.expire x = key x)
 (hperiod : ∀ x ∈ R, s.period x ≠ 0 → key x = (cur+s.period x)%2^64) (hfuel : 7*R.length < fuel) :
 ∃ s' L', s.alone core rand fuel = some (R,s') ∧ s'.manage core = .idle ∧ ListOf s'.mem core L' ∧
  L' 0 = (R.filter (s.period · ≠ 0)).foldl (insertKey key) (L 0) ∧
  (∀ x ∈ L' 0, s'.mem.expire x = key x) ∧
  (∀ x ∈ R, s.period x = 0 → s'.status x = ⟨.stop,none⟩) ∧
  (∀ x ∈ R, s.period x ≠ 0 → s'.status x = ⟨.pending,some core⟩) ∧
   ∀ x ∉ R, s'.status x = s.status x := by
 induction R generalizing s r L fuel with
 | nil =>
  obtain rfl : r = none := hrun
  obtain ⟨fuel,rfl⟩ := Nat.exists_eq_add_one_of_ne_zero (Nat.ne_zero_of_lt hfuel)
  have hend : (s.manageWalk core cur none).manage core = .idle := update_self ..
  refine ⟨s.manageWalk core cur none,L,?_,hend,hL.congr rfl rfl rfl,rfl,hkey,
   nofun,nofun,fun _ _ => rfl⟩
  simp only [alone,hm,step,hcall,bind_some]
  exact alone_idle hend fuel
 | cons x R ih =>
  obtain ⟨rfl,hrest⟩ := hrun
  obtain ⟨fuel,rfl⟩ : ∃ f, fuel = f+7 := ⟨fuel-7,by rw [length_cons] at hfuel; omega⟩
  rw [length_cons] at hfuel
  obtain ⟨hnot,hnodup⟩ := nodup_cons.mp hnodup
  have hne : ∀ y ∈ R, y ≠ x := fun y hy => ne_of_mem_of_not_mem hy hnot
  have hxL := hoff x mem_cons_self
  obtain ⟨hxst,hst⟩ := forall_mem_cons.mp hst
  obtain ⟨hxword,hword⟩ := forall_mem_cons.mp hword
  obtain ⟨hxkey,hperiod⟩ := forall_mem_cons.mp hperiod
  have hoff := (forall_mem_cons.mp hoff).2
  -- the callback runs and returns
  let s1 : State n k := { s.setStatus x ⟨.running,some core⟩ with
   updated := update s.updated core false }.setManage core (.callback cur x (s.mem.slNext x 0))
  have h1 : ∀ fuel, s.alone core rand (fuel+2) =
   ((s1.manageReturn core cur x (s.mem.slNext x 0)).alone core rand fuel).map fun r =>
   (x::r.1,r.2) := by
   intro fuel
   have hwalk : s.manageWalk core cur (some x) = s1 := by simp only [manageWalk,hxst]; rfl
   have hm1 : s1.manage core = .callback cur x (s.mem.slNext x 0) := update_self ..
   simp only [alone,hm,step,hcall,hwalk,bind_some,hm1,show s1.call core = none from hcall]
  have hupd : s1.updated core = false := update_self ..
  by_cases hp : s.period x = 0
  · have hret : s1.manageReturn core cur x (s.mem.slNext x 0) =
     (s1.setStatus x ⟨.stop,none⟩).setManage core (.walking cur (s.mem.slNext x 0)) := by
     rw [manageReturn,hupd,if_neg Bool.false_ne_true]
     exact if_pos hp
    have hother : ∀ y, y ≠ x → (s1.setStatus x ⟨.stop,none⟩).status y = s.status y := fun y hy =>
     (update_of_ne hy ..).trans (update_of_ne hy ..)
    obtain ⟨s',L',hrun,hidle,hL',hzero,hexpire,hstop,hpend,hsame⟩ :=
     ih (s := (s1.setStatus x ⟨.stop,none⟩).setManage core
     (.walking cur (s.mem.slNext x 0))) (fuel+5) (update_self ..) hcall hrest hnodup hoff
     (fun y hy => (hother y (hne y hy)).trans (hst y hy)) hword (hL.congr rfl rfl rfl) hkey
      hperiod (by omega)
    refine ⟨s',L',?_,hidle,hL',?_,hexpire,forall_mem_cons.mpr ⟨fun _ => ?_,hstop⟩,
     forall_mem_cons.mpr ⟨absurd hp,hpend⟩,fun y hy => ?_⟩
    · rw [h1,hret,hrun,map_some]
    · rw [filter_cons_of_neg (by simpa using hp)]
      exact hzero
    · rw [hsame x hnot]
      exact update_self ..
    · rw [mem_cons,not_or] at hy
      exact (hsame y hy.2).trans (hother y hy.1)
  · let s2 :=
     ((s1.setStatus x ⟨.pending,some core⟩).setManage core
      (.rearming cur x (s.mem.slNext x 0))).setCall core
     (some ⟨x,.reset (cur+s.period x) (s.period x) core,true,.config⟩)
    have hret : s1.manageReturn core cur x (s.mem.slNext x 0) = s2 := by
     rw [manageReturn,hupd,if_neg Bool.false_ne_true]
     exact if_neg hp
    obtain ⟨s3,L3,hrun3,hm3,hcall3,hL3,hzero3,hexpire3,hst3,hperiod3,hslNext3⟩ :=
     alone_rearm (s := s2)
     (update_self ..) (update_self ..) (update_self ..) (hL.congr rfl rfl rfl) hxL hxword rand fuel
    have hstatus : s3.status = s.status := by
     rw [hst3]
     show update (update s.status x _) x _ = _
     rw [update_idem,← hxst,update_eq_self]
    have hpd : s3.period = s.period := by
     rw [hperiod3]
     exact update_eq_self ..
    have hexp : ∀ y, y ≠ x → s3.mem.expire y = s.mem.expire y := by
     intro y hy
     rw [hexpire3]
     exact update_of_ne hy ..
    have hxe : s3.mem.expire x = key x := by
     rw [hexpire3,update_self,hxkey hp]
    have hkey3 : ∀ y ∈ x::L 0, s3.mem.expire y = key y :=
     forall_mem_cons.mpr ⟨hxe,fun y hy => (hexp y (ne_of_mem_of_not_mem hy hxL)).trans (hkey y hy)⟩
    have hzero3' : L3 0 = insertKey key (L 0) x := hzero3.trans (insertKey_congr hkey3)
    have hmem3 : ∀ y, y ∈ L3 0 ↔ y = x ∨ y ∈ L 0 := by
     intro y
     rw [hzero3',mem_insertKey]
     exact hL.levels.sorted.imp_of_mem fun ha hb hle => by rwa [← hkey _ ha,← hkey _ hb]
    have hoff3 : ∀ y ∈ R, y ∉ x::L 0 :=
     fun y hy hmem => (mem_cons.mp hmem).elim (hne y hy) (hoff y hy)
    obtain ⟨s',L',hrun,hidle,hL',hzero,hexpire,hstop,hpend,hsame⟩ := ih fuel hm3 hcall3
     (hrest.congr fun y hy => congrFun (hslNext3 y (hoff3 y hy)) 0) hnodup
     (fun y hy hmem => hoff3 y hy (mem_cons.mpr ((hmem3 y).mp hmem)))
     (fun y hy => by rw [hstatus,hst y hy])
      (fun y hy => by rw [hexp y (hne y hy)]; exact hword y hy) hL3
     (fun y hy => hkey3 y (mem_cons.mpr ((hmem3 y).mp hy))) (by rwa [hpd]) (by omega)
    rw [hpd] at hzero hstop hpend
    refine ⟨s',L',?_,hidle,hL',?_,hexpire,forall_mem_cons.mpr ⟨fun h0 => absurd h0 hp,hstop⟩,
     forall_mem_cons.mpr ⟨fun _ => ?_,hpend⟩,fun y hy => ?_⟩
    · rw [h1,hret,hrun3,hrun,map_some]
    · rw [hzero,hzero3',filter_cons_of_pos (by simpa using hp)]
      rfl
    · rw [hsame x hnot,hstatus,hxst]
    · rw [hsame y fun hmem => hy (mem_cons_of_mem x hmem),hstatus]

/-- The times after a tick at `cur`: an expired timer is armed again after its period. -/
def rearmed (s : State n k) (cur : Nat) (x : Fin n) : Nat :=
 if s.mem.expire x ≤ cur then (cur+s.period x)%2^64 else s.mem.expire x

lemma WellFormed.exists_cons (h : WellFormed s.mem core L) (hfirst : s.mem.head core 0 = some tim) :
 ∃ l, L 0 = tim::l := by
 have hlinked := h.linked 0
 cases hzero : L 0 with
 | nil =>
  rw [hzero] at hlinked
  cases hlinked.symm.trans hfirst
 | cons x l =>
  rw [hzero] at hlinked
  cases (behind_cons.mp hlinked).1.symm.trans hfirst
  exact ⟨l,rfl⟩

/-- If the first timer has not expired, none has. -/
lemma WellFormed.late (h : WellFormed s.mem core L) (hfirst : s.mem.head core 0 = some tim)
 (hexp : cur < s.mem.expire tim) : ∀ x ∈ L 0, cur < s.mem.expire x := by
 obtain ⟨l,hl⟩ := h.exists_cons hfirst
 have hsorted := h.sorted 0
 rw [hl] at hsorted ⊢
 exact forall_mem_cons.mpr ⟨hexp,fun x hx => hexp.trans_le ((pairwise_cons.mp hsorted).1 x hx)⟩

/-- **One tick.** A core that is left alone with its well-formed list calls exactly the expired
timers, in the order of the list; then the list has the others and the periodic ones at their new
times, pending again, and the one-shot timers are stopped. -/
theorem tick_runs_expired (h : WellFormed s.mem core L)
 (howned : ∀ x ∈ L 0, s.status x = ⟨.pending,some core⟩)
 (hcall : s.call core = none) (hidle : s.manage core = .idle) (cur : Nat) (rand : Nat → Nat)
 {fuel : Nat} (hfuel : 7*n+1 < fuel) :
 ∃ s1 s' L', s.step (core,.manage cur) = some s1 ∧
  s1.alone core rand fuel = some ((L 0).filter (s.mem.expire · ≤ cur),s') ∧ s'.manage core = .idle ∧
  ListOf s'.mem core L' ∧
  L' 0 = (((L 0).filter (s.mem.expire · ≤ cur)).filter (s.period · ≠ 0)).foldl
   (insertKey (rearmed s cur)) ((L 0).filter (cur < s.mem.expire ·)) ∧
  (∀ x ∈ L' 0, s'.mem.expire x = rearmed s cur x) ∧
  (∀ x ∈ L 0, s.mem.expire x ≤ cur → s.period x = 0 → s'.status x = ⟨.stop,none⟩) ∧
  (∀ x ∈ L 0, s.mem.expire x ≤ cur → s.period x ≠ 0 → s'.status x = ⟨.pending,some core⟩) ∧
  ∀ x ∈ L 0, cur < s.mem.expire x → s'.status x = s.status x := by
 obtain ⟨fuel,rfl⟩ := Nat.exists_eq_add_one_of_ne_zero (Nat.ne_zero_of_lt hfuel)
 have hL := h.listOf
 have hkeep : ∀ x ∈ L 0, cur < s.mem.expire x → s.mem.expire x = rearmed s cur x := fun x _ hx =>
  (if_neg (Nat.not_le_of_lt hx)).symm
 -- nothing has expired
 have hnone : (∀ x ∈ L 0, cur < s.mem.expire x) → ∃ L' : Nat → List (Fin n), ListOf s.mem core L' ∧
  (L 0).filter (s.mem.expire · ≤ cur) = [] ∧ L' 0 = (L 0).filter (cur < s.mem.expire ·) :=
  fun hall =>
  ⟨L,hL,filter_eq_nil_iff.mpr fun x hx => by simpa using hall x hx,
   (filter_eq_self.mpr fun x hx => by simpa using hall x hx).symm⟩
 cases hfirst : s.mem.head core 0 with
 | none =>
  have hnil := hL.eq_nil hfirst
  obtain ⟨L',hL',hlow,hzero⟩ := hnone (by simp [hnil])
  refine ⟨s,s,L',by simp [step,hcall,hidle,hfirst],?_,hidle,hL',?_,fun x hx => ?_,?_,?_,?_⟩
  · rw [hlow]
    exact alone_idle hidle _
  · rw [hlow]
    exact hzero
  all_goals simp_all
 | some tim =>
  let s1 := s.setManage core (.sampled cur)
  have hm1 : s1.manage core = .sampled cur := update_self ..
  have hstart : s.step (core,.manage cur) = some s1 := by
   simp [step,hcall,hidle,hfirst,s1]
  have hrun1 : s1.alone core rand (fuel+1) =
   (s1.manageStart core cur).bind (alone core rand fuel) := by
   rw [alone,hm1]
   simp only [step,show s1.call core = none from hcall,hm1]
  by_cases hexp : cur < s.mem.expire tim
  · have hlate := h.late hfirst hexp
    obtain ⟨L',hL',hlow,hzero⟩ := hnone hlate
    refine ⟨s1,s1.setManage core .idle,L',hstart,?_,update_self ..,hL'.congr rfl rfl rfl,?_,
     fun x hx => ?_,fun x hx hle => absurd hle (hlate x hx).not_ge,
     fun x hx hle => absurd hle (hlate x hx).not_ge,fun _ _ _ => rfl⟩
    · rw [hrun1,manageStart,show s1.mem.head core 0 = some tim from hfirst]
      simp only [show cur < s1.mem.expire tim from hexp,if_true,bind_some]
      rw [hlow]
      exact alone_idle (update_self ..) fuel
    · rw [hlow]
      exact hzero
    · rw [hzero] at hx
      have hx := mem_filter.mp hx
      exact hkeep x hx.1 (of_decide_eq_true hx.2)
  · obtain ⟨m',L1,hbreak,hL1,htouch,hrun,hupp⟩ :=
     breakList_spec (m := s1.mem) hL hfirst (Nat.le_of_not_lt hexp)
    have hlen : ((L 0).filter (s.mem.expire · ≤ cur)).length ≤ n :=
     (length_filter_le ..).trans (hL.levels.nodup.length_le_card.trans_eq (Fintype.card_fin n))
    have hoff : ∀ x ∈ low s.mem.expire cur (L 0), x ∉ L1 0 := fun x hx hmem =>
     Nat.not_le_of_lt (mem_upp.mp (hupp ▸ hmem)).2 (mem_low.mp hx).2
    let s2 : State n k := { s1 with mem := m' }.setManage core (.walking cur (some tim))
    have hexpire2 : s2.mem.expire = s.mem.expire := htouch.expire
    obtain ⟨s',L',halone,hidle',hL',hzero,hexpire,hstop,hpend,hsame⟩ :=
     alone_walk (s := s2) (rearmed s cur) rand fuel
     (update_self ..) hcall hrun (hL.levels.nodup.filter _) hoff
      (fun x hx => howned x (mem_low.mp hx).1)
     (fun x hx => by rw [hexpire2]; exact (h.words x (mem_low.mp hx).1).2) (hL1.congr rfl rfl rfl)
     (fun x hx => by
      rw [hexpire2]
      exact hkeep x (mem_upp.mp (hupp ▸ hx)).1 (mem_upp.mp (hupp ▸ hx)).2)
     (fun x hx _ => if_pos (mem_low.mp hx).2)
     (show 7*((L 0).filter (s.mem.expire · ≤ cur)).length < fuel by omega)
    rw [hupp] at hzero
    refine ⟨s1,s',L',hstart,?_,hidle',hL',hzero,hexpire,
     fun x hx hle => hstop x (mem_low.mpr ⟨hx,hle⟩),fun x hx hle => hpend x (mem_low.mpr ⟨hx,hle⟩),
     fun x _ hlt => hsame x fun hmem => Nat.not_le_of_lt hlt (mem_low.mp hmem).2⟩
    rw [hrun1,manageStart,show s1.mem.head core 0 = some tim from hfirst]
    simp only [show ¬cur < s1.mem.expire tim from hexp,if_false,hbreak,map_some,bind_some]
    exact halone

end Alone

/-- At 9 the first two timers are called; the periodic one is armed for 19, in front of the
third. -/
theorem tick_runs_expired_threeTimers : ∃ s1 s' L', threeTimers.step (0,.manage 9) = some s1 ∧
 s1.alone 0 (fun _ => 0) 30 = some ([0,1],s') ∧ s'.manage 0 = .idle ∧
 ListOf s'.mem 0 L' ∧ L' 0 = [1,2] ∧
 s'.mem.expire 1 = 19 ∧ s'.status 0 = ⟨.stop,none⟩ ∧ s'.status 1 = ⟨.pending,some 0⟩ := by
 obtain ⟨s1,s',L',hstart,hrun,hidle,hL',hzero,hexpire,hstop,hpend,-⟩ :=
  tick_runs_expired (s := threeTimers)
  threeTimers_wellFormed (by decide) rfl rfl 9 (fun _ => 0) (by decide : _ < 30)
 refine ⟨s1,s',L',hstart,hrun,hidle,hL',hzero,?_,hstop 0 (by decide) (by decide) rfl,
  hpend 1 (by decide) (by decide) (by decide)⟩
 exact hexpire 1 (hzero ▸ by decide)

end Packages.HisiTimer

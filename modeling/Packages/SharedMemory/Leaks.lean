import Packages.SharedMemory.Outcomes

/-!
# Districts and the blocks that hold them

`odp_shm_reserve` takes a district before it looks at the table, and `odp_shm_free` gives one back
by a name that it rebuilds. While a district is new exactly when the call can go on, and is given
back under its own name, the districts are those of the live blocks.
-/

namespace Packages.SharedMemory

open Function Option List Transition

variable {p : Pages} {s s' s1 : State} {r : Request} {a : Answers} {m : Memory} {d : District}
 {i j : Fin configShmBlocks} {addr : Nat} {fd : Int}

-- Who holds a district

/-- The live block `i` is on the district `d`. -/
def State.Holds (s : State) (i : Fin configShmBlocks) (d : District) : Prop :=
 s.Live i ∧ isPhys (s.block i).flags = true ∧ s.backing i = some d

structure Backed (s : State) : Prop where
 zone : ∀ i, s.Live i → isPhys (s.block i).flags = true → ∃ d, s.Holds i d
 exact : ∀ d, d ∈ s.memory.districts ↔ ∃ i, s.Holds i d
 single : ∀ i j d, s.Holds i d → s.Holds j d → i = j
 names : ∀ d ∈ s.memory.districts, ∀ d' ∈ s.memory.districts, d.name = d'.name → d = d'
 nodup : s.memory.districts.Nodup

lemma Backed.congr (h : Backed s) (hholds : ∀ i d, s'.Holds i d ↔ s.Holds i d)
 (hzone : ∀ i, s'.Live i → isPhys (s'.block i).flags = true → s.Live i ∧
  isPhys (s.block i).flags = true)
 (hdistricts : s'.memory.districts = s.memory.districts) : Backed s' := by
 refine ⟨fun i hlive hphys => ?_,fun d => ?_,fun i j d hi hj => ?_,?_,?_⟩
 · obtain ⟨hlive,hphys⟩ := hzone i hlive hphys
   obtain ⟨d,hd⟩ := h.zone i hlive hphys
   exact ⟨d,(hholds i d).mpr hd⟩
 · rw [hdistricts,h.exact d]
   exact exists_congr fun i => (hholds i d).symm
 · exact h.single i j d ((hholds i d).mp hi) ((hholds j d).mp hj)
 · rw [hdistricts]
   exact h.names
 · rw [hdistricts]
   exact h.nodup

lemma Quiet.holds_iff (h : Quiet s s') (i : Fin configShmBlocks) (d : District) :
 s'.Holds i d ↔ s.Holds i d := by
 have hlive := h.live_iff i
 constructor
 · rintro ⟨hl,hphys,hb⟩
   have hl := hlive.mp hl
   rw [h.live i hl] at hphys
   rw [h.backing] at hb
   exact ⟨hl,hphys,hb⟩
 · rintro ⟨hl,hphys,hb⟩
   refine ⟨hlive.mpr hl,?_,?_⟩
   · rwa [h.live i hl]
   · rwa [h.backing]

lemma Backed.quiet (h : Backed s) (hquiet : Quiet s s') : Backed s' := by
 refine h.congr hquiet.holds_iff (fun i hlive hphys => ?_) hquiet.districts
 have hlive := (hquiet.live_iff i).mp hlive
 rw [hquiet.live i hlive] at hphys
 exact ⟨hlive,hphys⟩

-- Reserve

lemma Backed.finishMapped (h : Backed s) (hdead : ¬s.Live i) (hphys : isPhys r.flags = false) :
 Backed (s.finishMapped r i fd addr) := by
 have hflags : isPhys ((s.finishMapped r i fd addr).block i).flags = false := by
  rw [s.finishMapped_block_self]
  exact hphys
 refine h.congr (fun j d => ?_) (fun j hlive hphys' => ?_) rfl
 · by_cases hji : j = i
   · subst hji
     constructor
     · rintro ⟨-,hphys',-⟩
       rw [hflags] at hphys'
       cases hphys'
     · rintro ⟨hlive,-⟩
       exact absurd hlive hdead
   · unfold State.Holds State.Live
     rw [s.finishMapped_block_of_ne r fd addr hji]
     show _ ∧ _ ∧ update s.backing i none j = some d ↔ _
     rw [update_of_ne hji]
 · by_cases hji : j = i
   · subst hji
     rw [hflags] at hphys'
     cases hphys'
   · rw [State.Live,s.finishMapped_block_of_ne r fd addr hji] at hlive
     rw [s.finishMapped_block_of_ne r fd addr hji] at hphys'
     exact ⟨hlive,hphys'⟩

lemma Backed.finishZone (h : Backed s) (hdead : ¬s.Live i) (hphys : isPhys r.flags = true)
 (hne : r.roundPtr d.region.base ≠ 0) (hnew : ∀ d' ∈ s.memory.districts, d'.name ≠ d.name)
 (hquiet : Quiet { s with memory := { s.memory with districts := d::s.memory.districts } } s1) :
 Backed (s1.finishZone r i d) := by
 have hself : (s1.finishZone r i d).Holds i d := by
  have hblock : (s1.finishZone r i d).block i = _ := s1.setBlock_self i _
  refine ⟨?_,?_,update_self ..⟩
  · rw [State.Live,hblock]
    exact hne
  · rw [hblock]
    exact hphys
 have hother : ∀ j, j ≠ i → ∀ d', (s1.finishZone r i d).Holds j d' ↔ s.Holds j d' := by
  intro j hji d'
  refine Iff.trans ?_ (hquiet.holds_iff j d')
  unfold State.Holds State.Live
  rw [s1.finishZone_block_of_ne r d hji]
  show _ ∧ _ ∧ update s1.backing i (some d) j = some d' ↔ _
  rw [update_of_ne hji]
 have hold : ∀ j d', s.Holds j d' → j ≠ i := by
  rintro j d' ⟨hlive,-⟩ rfl
  exact hdead hlive
 have hdistricts : (s1.finishZone r i d).memory.districts = d::s.memory.districts :=
  hquiet.districts
 have hnotMem : d ∉ s.memory.districts := fun hd => hnew d hd rfl
 refine ⟨fun j hlive hphys' => ?_,fun d' => ?_,fun j k d' hj hk => ?_,?_,?_⟩
 · by_cases hji : j = i
   · subst hji
     exact ⟨d,hself⟩
   · rw [State.Live,s1.finishZone_block_of_ne r d hji] at hlive
     rw [s1.finishZone_block_of_ne r d hji] at hphys'
     have hlive := (hquiet.live_iff j).mp hlive
     rw [hquiet.live j hlive] at hphys'
     obtain ⟨d',hd'⟩ := h.zone j hlive hphys'
     exact ⟨d',(hother j hji d').mpr hd'⟩
 · rw [hdistricts,mem_cons,h.exact d']
   constructor
   · rintro (rfl | ⟨j,hj⟩)
     · exact ⟨i,hself⟩
     · exact ⟨j,(hother j (hold j d' hj) d').mpr hj⟩
   · rintro ⟨j,hj⟩
     by_cases hji : j = i
     · subst hji
       exact .inl (some.inj (hj.2.2.symm.trans hself.2.2))
     · exact .inr ⟨j,(hother j hji d').mp hj⟩
 · have hapart : ∀ k, k ≠ i → (s1.finishZone r i d).Holds k d' → d' ≠ d := by
    rintro k hki hk rfl
    exact hnotMem ((h.exact d').mpr ⟨k,(hother k hki d').mp hk⟩)
   have hmine : (s1.finishZone r i d).Holds i d' → d' = d := fun hi =>
    some.inj (hi.2.2.symm.trans hself.2.2)
   by_cases hji : j = i
   · by_cases hki : k = i
     · rw [hji,hki]
     · exact absurd (hmine (hji ▸ hj)) (hapart k hki hk)
   · by_cases hki : k = i
     · exact absurd (hmine (hki ▸ hk)) (hapart j hji hj)
     · exact h.single j k d' ((hother j hji d').mp hj) ((hother k hki d').mp hk)
 · rw [hdistricts]
   intro d1 hd1 d2 hd2 heq
   obtain rfl | hold1 := mem_cons.mp hd1
   · obtain rfl | hold2 := mem_cons.mp hd2
     · rfl
     · exact absurd heq.symm (hnew d2 hold2)
   · obtain rfl | hold2 := mem_cons.mp hd2
     · exact absurd heq (hnew d1 hold1)
     · exact h.names d1 hold1 d2 hold2 heq
 · rw [hdistricts]
   exact nodup_cons.mpr ⟨hnotMem,h.nodup⟩

-- Free

lemma State.clear_holds_iff (s : State) (m : Memory) (i j : Fin configShmBlocks) (d : District) :
 ({ s.clear i with memory := m } : State).Holds j d ↔ j ≠ i ∧ s.Holds j d := by
 by_cases hji : j = i
 · subst hji
   constructor
   · rintro ⟨hlive,-⟩
     exact absurd hlive (s.not_live_clear j)
   · rintro ⟨hne,-⟩
     exact absurd rfl hne
 · unfold Holds Live
   show ((s.clear i).block j).addr ≠ 0 ∧ isPhys ((s.clear i).block j).flags = true ∧
    update s.backing i none j = some d ↔ _
   rw [s.clear_block_of_ne hji,update_of_ne hji]
   exact ⟨fun h => ⟨hji,h⟩,fun h => h.2⟩

lemma Backed.clear_mapped (h : Backed s) (hphys : isPhys (s.block i).flags = false)
 (hdistricts : m.districts = s.memory.districts) : Backed { s.clear i with memory := m } := by
 refine h.congr (fun j d => ?_) (fun j hlive hphys' => ?_) hdistricts
 · rw [s.clear_holds_iff]
   constructor
   · exact fun hj => hj.2
   · rintro hj
     refine ⟨?_,hj⟩
     rintro rfl
     exact Bool.false_ne_true (hphys.symm.trans hj.2.1)
 · have hji : j ≠ i := by
    rintro rfl
    exact s.not_live_clear j hlive
   have hblock : ({ s.clear i with memory := m } : State).block j = s.block j :=
    s.clear_block_of_ne hji
   rw [State.Live,hblock] at hlive
   rw [hblock] at hphys'
   exact ⟨hlive,hphys'⟩

lemma Backed.clear_zone (h : Backed s) (hholds : s.Holds i d) :
 Backed { s.clear i with memory := s.memory.districtUnreserve d.name } := by
 have hmem : ∀ d', d' ∈ (s.memory.districtUnreserve d.name).districts ↔
  d' ∈ s.memory.districts ∧ d'.name ≠ d.name := by
  intro d'
  rw [Memory.districtUnreserve,mem_filter,decide_eq_true_iff]
 have hd : d ∈ s.memory.districts := (h.exact d).mpr ⟨i,hholds⟩
 refine ⟨fun j hlive hphys => ?_,fun d' => ?_,fun j k d' hj hk => ?_,?_,?_⟩
 · have hji : j ≠ i := by
    rintro rfl
    exact s.not_live_clear j hlive
   have hblock : ({ s.clear i with
    memory := s.memory.districtUnreserve d.name } : State).block j = s.block j :=
    s.clear_block_of_ne hji
   rw [State.Live,hblock] at hlive
   rw [hblock] at hphys
   obtain ⟨d',hd'⟩ := h.zone j hlive hphys
   exact ⟨d',(s.clear_holds_iff ..).mpr ⟨hji,hd'⟩⟩
 · rw [hmem,h.exact d']
   constructor
   · rintro ⟨⟨j,hj⟩,hne⟩
     refine ⟨j,(s.clear_holds_iff ..).mpr ⟨?_,hj⟩⟩
     rintro rfl
     exact hne (congrArg District.name (some.inj (hj.2.2.symm.trans hholds.2.2)))
   · rintro ⟨j,hj⟩
     obtain ⟨hji,hj'⟩ := (s.clear_holds_iff ..).mp hj
     refine ⟨⟨j,hj'⟩,fun heq => hji ?_⟩
     have hsame := h.names d' ((h.exact d').mpr ⟨j,hj'⟩) d hd heq
     exact h.single j i d (hsame ▸ hj') hholds
 · exact h.single j k d' ((s.clear_holds_iff ..).mp hj).2 ((s.clear_holds_iff ..).mp hk).2
 · intro d1 hd1 d2 hd2
   exact h.names d1 ((hmem d1).mp hd1).1 d2 ((hmem d2).mp hd2).1
 · exact h.nodup.filter _

-- Runs

/-- The name is in use or the table is full. -/
def State.Refuses (s : State) (name : Name) : Prop :=
 (s.findBlock name).isSome = true ∨ s.freeBlock = none

instance (s : State) (name : Name) : Decidable (s.Refuses name) :=
 inferInstanceAs (Decidable (_ ∨ _))

/-- A reserve that asks for a district that exists is refused by the table, one that is refused gets
no new district, and a district is given back under its own name. -/
def Kept (s : State) : Action → Prop
 | .reserve r a => ∀ name ∈ r.district?,
  if ∃ d ∈ s.memory.districts, d.name = name then s.Refuses r.name
  else s.Refuses r.name → ∀ z ∈ a.district, ¬ (r.allocSize ≤ z.len ∧ s.memory.Fresh z)
 | .free shm pid name _ _ => ∀ i : Fin configShmBlocks, fromHandle shm = i → s.Live i →
  isPhys (s.block i).flags = true → ∀ d ∈ s.backing i, s.freedName i pid name = d.name

instance (s : State) (c : Action) : Decidable (Kept s c) :=
 match c with
 | .reserve .. => by dsimp only [Kept]; infer_instance
 | .free .. => by dsimp only [Kept]; infer_instance

lemma Kept.refuses (hkept : Kept s (.reserve r a)) (hname : r.district? = some d.name)
 (hd : d ∈ s.memory.districts) : s.Refuses r.name := by
 have hask := hkept d.name hname
 rwa [if_pos ⟨d,hd,rfl⟩] at hask

lemma Kept.not_refuses (hkept : Kept s (.reserve r a)) (hname : r.district? = some d.name)
 (hnew : ∀ d' ∈ s.memory.districts, d'.name ≠ d.name) (hlen : r.allocSize ≤ d.region.len)
 (hfresh : s.memory.Fresh d.region) (hgiven : a.district = some d.region) : ¬ s.Refuses r.name := by
 have hask := hkept d.name hname
 rw [if_neg (by simpa using hnew)] at hask
 exact fun hrefuses => hask hrefuses d.region hgiven ⟨hlen,hfresh⟩

lemma Backed.reserve (h : Backed s) (hproper : r.Proper) (hkept : Kept s (.reserve r a))
 (hstep : Reserved p s r a s') : Backed s' := by
 cases hstep with
 | refused => exact h
 | @failed zone fd m s' hopen hquiet hfull =>
  cases opened_of_openBacking hopen with
  | nothing | existing => exact h.quiet hquiet
  | carved hname hnew hlen hfresh hgiven =>
   have hrefuses := hfull (by rw [hname]; exact some_ne_none _)
   exact absurd hrefuses (hkept.not_refuses hname hnew hlen hfresh hgiven)
 | @zone d fd m s1 i hphys hopen hfind hfree hquiet =>
  cases opened_of_openBacking hopen with
  | existing hname hd =>
   have hrefuses := hkept.refuses hname hd
   rw [State.Refuses,hfind,hfree] at hrefuses
   obtain hfalse | hfalse := hrefuses <;> cases hfalse
  | carved hname hnew hlen hfresh =>
   exact h.finishZone (State.not_live_of_freeBlock hfree) hphys
    (hproper.roundPtr_ne_zero hfresh) hnew hquiet
 | @mapped s0 s1 i addr fd hphys hfind hfree hquiet hhdl hmap =>
  have hquiet := hquiet.trans hmap.quiet
  exact (h.quiet hquiet).finishMapped (hquiet.dead i (State.not_live_of_freeBlock hfree)).1 hphys

lemma Backed.free (h : Backed s) {shm pid : Nat} {name : Name} {unmaps unlinks : Bool}
 (hkept : Kept s (.free shm pid name unmaps unlinks))
 (hstep : Freed s shm pid name unmaps unlinks s') : Backed s' := by
 cases hstep with
 | unchanged => exact h
 | @zone i hi hlive hphys =>
  obtain ⟨d,hd⟩ := h.zone i hlive hphys
  rw [hkept i hi hlive hphys d hd.2.2]
  exact h.clear_zone hd
 | mapped hi hlive hphys => exact h.clear_mapped hphys rfl
 | stale => exact h.congr (fun _ _ => Iff.rfl) (fun _ hlive hphys => ⟨hlive,hphys⟩) rfl

lemma backed_start (maps : List Region) : Backed (start maps) := by
 have hdead : ∀ i, ¬(start maps).Live i := fun i => not_not.mpr rfl
 refine ⟨fun i hlive => absurd hlive (hdead i),fun d => ⟨fun hd => ?_,?_⟩,?_,?_,.nil⟩
 · cases hd
 · rintro ⟨i,hlive,-⟩
   exact absurd hlive (hdead i)
 · rintro i j d ⟨hlive,-⟩
   exact absurd hlive (hdead i)
 · intro d hd
   cases hd

/-- After every call the districts are those of the live blocks of continuous physical memory, one
each. -/
theorem districts_backed {maps : List Region}
 (h : Reachable (fun s c => Named c ∧ Kept s c) p maps s) :
 (∀ d, d ∈ s.memory.districts ↔ ∃ i, s.Holds i d) ∧ s.memory.districts.Nodup ∧
 (∀ i, s.Live i → isPhys (s.block i).flags = true → ∃ d, s.Holds i d) ∧
 ∀ i j d, s.Holds i d → s.Holds j d → i = j := by
 have hinv : Backed s := by
  refine h.invariant (P := Backed) ?_ ?_
  · rintro _ rfl
    exact backed_start maps
  · rintro s (⟨r,a⟩ | ⟨shm,pid,name,unmaps,unlinks⟩) s' hs ⟨hnamed,hkept⟩ hstep
    · obtain ⟨⟨ret,s''⟩,hret,rfl⟩ := map_eq_some_iff.mp hstep
      exact hs.reserve hnamed hkept (reserved_of_reserve hret)
    · cases hstep
      exact hs.free hkept (freed_of_free ..)
 exact ⟨hinv.exact,hinv.nodup,hinv.zone,hinv.single⟩

/-- A name that is in use, and a name that was never written: both times a district is left over. -/
theorem districts_backed_left : (∃ s, Reachable (fun _ c => Named c) smallPages [] s ∧ s.Live 0 ∧
 isPhys (s.block 0).flags = false ∧ (∀ i, i ≠ 0 → ¬s.Live i) ∧ s.memory.districts ≠ []) ∧
 ∃ s, Reachable (fun _ c => Named c) smallPages [] s ∧ (∀ i, ¬s.Live i) ∧
  s.memory.districts ≠ [] := by
 have hstart : Reachable (fun _ c => Named c) smallPages [] (start []) := .start rfl
 constructor
 · exact Reach.exists_of_run hstart
    [.reserve (anonymous ['a'] 64) (answered none (some 4096)),
     .reserve (shared ['a'] 64) (answered (some ⟨8192,128⟩) none)] _ (by decide +kernel)
 · exact Reach.exists_of_run hstart
    [.reserve (shared ['a'] 64) (answered (some ⟨8192,128⟩) none),.free 1 7 ['?'] true true] _
    (by decide +kernel)

theorem districts_backed_kept : ∃ s, Reachable (fun s c => Named c ∧ Kept s c) smallPages [] s ∧
 s.memory.districts = [⟨['b'],⟨16384,256⟩⟩] ∧ ∃ i, s.Holds i ⟨['b'],⟨16384,256⟩⟩ := by
 obtain ⟨s,hs,hdistricts⟩ := Reach.exists_of_run
  (.start rfl : Reachable (fun s c => Named c ∧ Kept s c) smallPages [] (start []))
  [.reserve (monopolized ['a'] 64) (answered (some ⟨8192,128⟩) none),
   .reserve (anonymous ['c'] 100) (answered none (some 4096)),
   .reserve (shared ['b'] 192) (answered (some ⟨16384,256⟩) none),.free 1 7 ['?'] true true,
   .reserve (shared ['b'] 32) (answered none none)]
  (fun s => s.memory.districts = [⟨['b'],⟨16384,256⟩⟩]) (by decide +kernel)
 refine ⟨s,hs,hdistricts,((districts_backed hs).1 _).mp ?_⟩
 rw [hdistricts]
 exact mem_cons_self

end Packages.SharedMemory

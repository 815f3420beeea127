import Packages.SharedMemory.Outcomes

/-!
# Blocks do not overlap

Every live block lies inside the memory that was obtained for it, and no two blocks were given the
same memory, as long as a reserve never meets a district that was left over and a free never gives
back the district of another block.
-/

namespace Packages.SharedMemory

open Function State Transition

variable {p : Pages} {s s' s1 : State} {r : Request} {a : Answers} {m : Memory} {d : District}
 {i j : Fin configShmBlocks} {addr : Nat} {fd : Int}

/-- The addresses of a block. -/
def State.range (s : State) (i : Fin configShmBlocks) : Region :=
 ⟨(s.block i).addr,(s.block i).size⟩

/-- The district or the mapping that was obtained for a block. -/
def State.obtained (s : State) (i : Fin configShmBlocks) : Region :=
 match s.backing i with
 | some d => d.region
 | none => ⟨(s.block i).addrOrig,(s.block i).allocSize⟩

lemma State.obtained_of_some (h : s.backing i = some d) : s.obtained i = d.region := by
 rw [obtained,h]

lemma State.obtained_of_none (h : s.backing i = none) :
 s.obtained i = ⟨(s.block i).addrOrig,(s.block i).allocSize⟩ := by
 rw [obtained,h]

-- The invariant

structure BlockOk (s : State) (i : Fin configShmBlocks) : Prop where
 name : (s.block i).name ≠ []
 hdl : (s.block i).hdl = toHandle i
 aligned : (s.block i).align ∣ (s.block i).addr
 within : (s.range i).Within (s.obtained i)
 pos : 0 < (s.obtained i).len
 zone : isPhys (s.block i).flags = true → ∃ d ∈ s.memory.districts, s.backing i = some d
 map : isPhys (s.block i).flags = false → s.backing i = none ∧ s.obtained i ∈ s.memory.maps

structure Separate (s : State) : Prop where
 dead : ∀ i, ¬s.Live i → (s.block i).name = []
 ok : ∀ i, s.Live i → BlockOk s i
 names : ∀ i j, s.Live i → s.Live j → (s.block i).name = (s.block j).name → i = j
 apart : ∀ i j, s.Live i → s.Live j → i ≠ j → (s.obtained i).Apart (s.obtained j)

lemma obtained_congr (hblock : s'.block i = s.block i) (hbacking : s'.backing i = s.backing i) :
 s'.obtained i = s.obtained i := by
 rw [obtained,obtained,hblock,hbacking]

lemma BlockOk.congr (h : BlockOk s i) (hblock : s'.block i = s.block i)
 (hbacking : s'.backing i = s.backing i)
 (hdistricts : ∀ d ∈ s.memory.districts, s.backing i = some d → d ∈ s'.memory.districts)
 (hmaps : s.obtained i ∈ s.memory.maps → s.backing i = none → s.obtained i ∈ s'.memory.maps) :
 BlockOk s' i := by
 have hobtained := obtained_congr hblock hbacking
 have hrange : s'.range i = s.range i := by rw [range,range,hblock]
 refine ⟨?_,?_,?_,?_,?_,?_,?_⟩
 · rw [hblock]
   exact h.name
 · rw [hblock]
   exact h.hdl
 · rw [hblock]
   exact h.aligned
 · rw [hrange,hobtained]
   exact h.within
 · rw [hobtained]
   exact h.pos
 · rw [hblock,hbacking]
   intro hphys
   obtain ⟨d,hd,heq⟩ := h.zone hphys
   exact ⟨d,hdistricts d hd heq,heq⟩
 · rw [hblock,hbacking,hobtained]
   intro hphys
   obtain ⟨hnone,hmem⟩ := h.map hphys
   exact ⟨hnone,hmaps hmem hnone⟩

lemma BlockOk.mem_regions (h : BlockOk s i) : s.obtained i ∈ s.memory.regions := by
 cases hphys : isPhys (s.block i).flags with
 | true =>
  obtain ⟨d,hd,heq⟩ := h.zone hphys
  rw [obtained_of_some heq]
  exact List.mem_append_right _ (List.mem_map_of_mem hd)
 | false => exact List.mem_append_left _ (h.map hphys).2

lemma Separate.of_live (h : Separate s) (hdead : ∀ i, ¬s'.Live i → (s'.block i).name = [])
 (hlive : ∀ i, s'.Live i → s.Live i ∧ s'.block i = s.block i ∧ s'.backing i = s.backing i)
 (hok : ∀ i, s'.Live i → BlockOk s' i) : Separate s' := by
 refine ⟨hdead,hok,fun i j hi hj heq => ?_,fun i j hi hj hne => ?_⟩
 · obtain ⟨hi,hbi,-⟩ := hlive i hi
   obtain ⟨hj,hbj,-⟩ := hlive j hj
   rw [hbi,hbj] at heq
   exact h.names i j hi hj heq
 · obtain ⟨hi,hbi,hci⟩ := hlive i hi
   obtain ⟨hj,hbj,hcj⟩ := hlive j hj
   rw [obtained_congr hbi hci,obtained_congr hbj hcj]
   exact h.apart i j hi hj hne

lemma Separate.quiet (h : Separate s) (hquiet : Quiet { s with memory := m } s')
 (hmaps : s.memory.maps ⊆ m.maps) (hdistricts : s.memory.districts ⊆ m.districts) :
 Separate s' := by
 have hlive : ∀ i, s'.Live i → s.Live i ∧ s'.block i = s.block i ∧ s'.backing i = s.backing i := by
  intro i hi
  have hi : s.Live i := (hquiet.live_iff i).mp hi
  exact ⟨hi,hquiet.live i hi,congrFun hquiet.backing i⟩
 refine h.of_live (fun i hi => ?_) hlive fun i hi => ?_
 · have hdead : ¬s.Live i := fun hl => hi ((hquiet.live_iff i).mpr hl)
   exact (hquiet.dead i hdead).2.trans (h.dead i hdead)
 · obtain ⟨hl,hblock,hbacking⟩ := hlive i hi
   refine (h.ok i hl).congr hblock hbacking (fun d hd _ => ?_) fun hmem _ =>
    hquiet.maps (hmaps hmem)
   rw [hquiet.districts]
   exact hdistricts hd

lemma Separate.add (h : Separate s) (hblock : ∀ j, j ≠ i → s'.block j = s.block j)
 (hbacking : ∀ j, j ≠ i → s'.backing j = s.backing j) (hmemory : s'.memory = s.memory)
 (hlive : s'.Live i) (hok : BlockOk s' i)
 (hname : ∀ j, s.Live j → (s'.block i).name ≠ (s.block j).name)
 (hapart : ∀ j, j ≠ i → s.Live j → (s'.obtained i).Apart (s.obtained j)) : Separate s' := by
 have hother : ∀ j, j ≠ i → s'.Live j → s.Live j := by
  intro j hj hl
  rwa [State.Live,hblock j hj] at hl
 refine ⟨fun j hj => ?_,fun j hj => ?_,fun j k hj hk heq => ?_,fun j k hj hk hne => ?_⟩
 · have hji : j ≠ i := fun heq => hj (heq ▸ hlive)
   rw [State.Live,hblock j hji] at hj
   rw [hblock j hji]
   exact h.dead j hj
 · by_cases hji : j = i
   · exact hji ▸ hok
   · refine (h.ok j (hother j hji hj)).congr (hblock j hji) (hbacking j hji) ?_ ?_
     · rw [hmemory]
       exact fun d hd _ => hd
     · rw [hmemory]
       exact fun hmem _ => hmem
 · by_cases hji : j = i
   · by_cases hki : k = i
     · rw [hji,hki]
     · rw [hji,hblock k hki] at heq
       exact absurd heq (hname k (hother k hki hk))
   · by_cases hki : k = i
     · rw [hki,hblock j hji] at heq
       exact absurd heq.symm (hname j (hother j hji hj))
     · rw [hblock j hji,hblock k hki] at heq
       exact h.names j k (hother j hji hj) (hother k hki hk) heq
 · by_cases hji : j = i
   · have hki : k ≠ i := fun heq => hne (hji.trans heq.symm)
     rw [hji,obtained_congr (hblock k hki) (hbacking k hki)]
     exact hapart k hki (hother k hki hk)
   · rw [obtained_congr (hblock j hji) (hbacking j hji)]
     by_cases hki : k = i
     · rw [hki]
       exact (hapart j hji (hother j hji hj)).symm
     · rw [obtained_congr (hblock k hki) (hbacking k hki)]
       exact h.apart j k (hother j hji hj) (hother k hki hk) hne

lemma Separate.clear (h : Separate s)
 (hdistricts : ∀ j, j ≠ i → s.Live j → ∀ d ∈ s.memory.districts, s.backing j = some d →
  d ∈ m.districts)
 (hmaps : ∀ j, j ≠ i → s.Live j → s.obtained j ∈ s.memory.maps → s.obtained j ∈ m.maps) :
 Separate { s.clear i with memory := m } := by
 have hblock : ∀ j, j ≠ i → ({ s.clear i with memory := m } : State).block j = s.block j :=
  fun j hj =>
  s.clear_block_of_ne hj
 have hbacking : ∀ j, j ≠ i → ({ s.clear i with memory := m } : State).backing j = s.backing j :=
  fun j hj => update_of_ne hj ..
 have hlive : ∀ j, ({ s.clear i with memory := m } : State).Live j → j ≠ i ∧ s.Live j := by
  intro j hj
  have hji : j ≠ i := by
   rintro rfl
   exact s.not_live_clear j hj
  rw [State.Live,hblock j hji] at hj
  exact ⟨hji,hj⟩
 refine h.of_live (fun j hj => ?_) (fun j hj => ?_) fun j hj => ?_
 · by_cases hji : j = i
   · subst hji
     exact congrArg Block.name (s.setBlock_self j _)
   · rw [State.Live,hblock j hji] at hj
     rw [hblock j hji]
     exact h.dead j hj
 · obtain ⟨hji,hl⟩ := hlive j hj
   exact ⟨hl,hblock j hji,hbacking j hji⟩
 · obtain ⟨hji,hl⟩ := hlive j hj
   exact (h.ok j hl).congr (hblock j hji) (hbacking j hji) (hdistricts j hji hl) fun hmem _ =>
    hmaps j hji hl hmem

-- Steps

/-- The calls of a program: proper names and alignments, and sizes that can be had. -/
def Sized : Action → Prop
 | .reserve r _ => r.Proper ∧ r.size+r.align < 2^63
 | .free .. => True

instance (c : Action) : Decidable (Sized c) :=
 match c with
 | .reserve .. => by dsimp only [Sized]; infer_instance
 | .free .. => by dsimp only [Sized]; infer_instance

/-- A reserve that the table lets go on asks for a district that does not exist. A free does not
give back the district of another live block, and it does not fail once the block is unmapped. -/
def Clean (s : State) : Action → Prop
 | .reserve r _ =>
  ∀ d ∈ s.memory.districts, r.district? = some d.name → (s.findBlock r.name).isSome = true
 | .free shm pid name unmaps unlinks => ∀ i : Fin configShmBlocks, fromHandle shm = i → s.Live i →
  if isPhys (s.block i).flags = true then
   ∀ j, j ≠ i → s.Live j → ∀ d ∈ s.backing j, d.name ≠ s.freedName i pid name
  else unmaps = true → hasFlag (s.block i).flags shmProc = true → unlinks = true

instance (s : State) (c : Action) : Decidable (Clean s c) :=
 match c with
 | .reserve .. => by dsimp only [Clean]; infer_instance
 | .free .. => by dsimp only [Clean]; infer_instance

lemma Request.allocSize_eq (h : r.size+r.align < 2^63) : r.allocSize = r.size+r.align :=
 Nat.mod_eq_of_lt (by omega)

lemma Request.le_allocHpSize (h : r.size+r.align < 2^63) (hhuge : p.hugeSz ≠ 0) :
 r.size+r.align ≤ r.allocHpSize p := by
 obtain hzero | ⟨k,hk,hpow⟩ := p.huge
 · exact absurd hzero hhuge
 · have hle : p.hugeSz ≤ 2^62 := by
    rw [hpow]
    exact Nat.pow_le_pow_right (by decide) (Nat.le_of_lt_succ hk)
   have hpos := Nat.pos_of_ne_zero hhuge
   rw [allocHpSize,Nat.mod_eq_of_lt (by omega)]
   have hup := le_roundUp hpos (r.size+r.align)
   rwa [roundUp,Nat.mul_comm,Nat.add_sub_assoc hpos] at hup

lemma Request.Proper.take_name (h : r.Proper) : r.name.take (shmNameLen-1) = r.name :=
 List.take_of_length_le (Nat.le_of_lt_succ h.2.1)

lemma blockOk_fill {b : Block} (hproper : r.Proper) (hblock : s.block i = r.fill b fd addr)
 (hhdl : b.hdl = toHandle i) (hbase : (s.obtained i).base = addr) (haddr : addr ≤ 2^63)
 (hlen : r.size+r.align ≤ (s.obtained i).len)
 (hzone : isPhys r.flags = true → ∃ d ∈ s.memory.districts, s.backing i = some d)
 (hmap : isPhys r.flags = false → s.backing i = none ∧ s.obtained i ∈ s.memory.maps) :
 BlockOk s i := by
 have hpos := hproper.align_pos
 have hround : (s.block i).addr = roundUp r.align (s.obtained i).base := by
  rw [hblock,hbase]
  exact hproper.roundPtr_eq haddr
 refine ⟨?_,?_,?_,?_,?_,?_,?_⟩
 · rw [hblock]
   show r.name.take (shmNameLen-1) ≠ []
   rw [hproper.take_name]
   exact hproper.1
 · rw [hblock]
   exact hhdl
 · rw [hround,hblock]
   exact dvd_roundUp ..
 · rw [range,hround,hblock]
   exact within_roundUp hpos hlen
 · omega
 · rw [hblock]
   exact hzone
 · rw [hblock]
   exact hmap

lemma Separate.reserve (h : Separate s) (hproper : r.Proper) (hsize : r.size+r.align < 2^63)
 (hclean : Clean s (.reserve r a)) (hstep : Reserved p s r a s') : Separate s' := by
 cases hstep with
 | refused => exact h
 | failed hopen hquiet =>
  cases opened_of_openBacking hopen with
  | nothing | existing => exact h.quiet hquiet (fun _ hx => hx) fun _ hx => hx
  | carved => exact h.quiet hquiet (fun _ hx => hx) (List.subset_cons_self _ _)
 | @zone d fd m s1 i hphys hopen hfind hfree hquiet hhdl =>
  cases opened_of_openBacking hopen with
  | existing hname hd =>
   have hsome := hclean d hd hname
   rw [hfind] at hsome
   cases hsome
  | carved hname hnew hlen hfresh =>
   have hs1 : Separate s1 := h.quiet hquiet (fun _ hx => hx) (List.subset_cons_self _ _)
   have hblock : (s1.finishZone r i d).block i = _ := s1.setBlock_self i _
   have hbacking : (s1.finishZone r i d).backing i = some d := update_self ..
   have hobtained := obtained_of_some hbacking
   have hlive : (s1.finishZone r i d).Live i := by
    rw [State.Live,hblock]
    exact hproper.roundPtr_ne_zero hfresh
   refine hs1.add (fun j hj => s1.finishZone_block_of_ne r d hj) (fun j hj => update_of_ne hj ..)
    rfl hlive ?_ (fun j hj => ?_) fun j hj hl => ?_
   · refine blockOk_fill hproper hblock hhdl (by rw [hobtained]) hfresh.base_le ?_ (fun _ => ?_) ?_
     · rw [hobtained,← Request.allocSize_eq hsize]
       exact hlen
     · refine ⟨d,?_,hbacking⟩
       show d ∈ s1.memory.districts
       rw [hquiet.districts]
       exact List.mem_cons_self
     · intro hfalse
       rw [hphys] at hfalse
       cases hfalse
   · have hj := (hquiet.live_iff j).mp hj
     rw [hblock,hquiet.live j hj]
     show r.name.take (shmNameLen-1) ≠ (s.block j).name
     rw [hproper.take_name]
     exact findBlock_eq_none hfind j
   · have hl : s.Live j := (hquiet.live_iff j).mp hl
     rw [hobtained,obtained_congr (s := s) (hquiet.live j hl) (congrFun hquiet.backing j)]
     exact hfresh.2.2 _ (h.ok j hl).mem_regions
 | @mapped s0 s1 i addr fd hphys hfind hfree hquiet hhdl hmap =>
  have hquiet1 := hquiet.trans hmap.quiet
  have hs1 : Separate s1 := h.quiet hquiet1 (fun _ hx => hx) fun _ hx => hx
  have hblock : (s1.finishMapped r i fd addr).block i = _ := s1.finishMapped_block_self r i fd addr
  have hbacking : (s1.finishMapped r i fd addr).backing i = none := update_self ..
  have hobtained : (s1.finishMapped r i fd addr).obtained i = ⟨addr,(s1.block i).allocSize⟩ := by
   rw [obtained_of_none hbacking,hblock]
   rfl
  have hfresh := hmap.fresh.of_quiet hquiet
  have hlive : (s1.finishMapped r i fd addr).Live i := by
   rw [State.Live,hblock]
   exact hproper.roundPtr_ne_zero hfresh
  refine hs1.add (fun j hj => s1.finishMapped_block_of_ne r fd addr hj)
   (fun j hj => update_of_ne hj ..) rfl hlive ?_ (fun j hj => ?_) fun j hj hl => ?_
  · refine blockOk_fill hproper hblock (hmap.hdl.trans hhdl)
     (by rw [hobtained]) hfresh.base_le ?_ ?_ fun _ => ⟨hbacking,?_⟩
    · rw [hobtained]
      obtain hlen | ⟨hhuge,hlen⟩ := hmap.len
      · rw [hlen,Request.allocSize_eq hsize]
      · rw [hlen]
        exact Request.le_allocHpSize hsize hhuge
    · intro hfalse
      rw [hphys] at hfalse
      cases hfalse
    · rw [hobtained]
      exact hmap.mem
  · have hj := (hquiet1.live_iff j).mp hj
    rw [hblock,hquiet1.live j hj]
    show r.name.take (shmNameLen-1) ≠ (s.block j).name
    rw [hproper.take_name]
    exact findBlock_eq_none hfind j
  · have hl : s.Live j := (hquiet1.live_iff j).mp hl
    rw [hobtained,obtained_congr (s := s) (hquiet1.live j hl) (congrFun hquiet1.backing j)]
    exact hfresh.2.2 _ (h.ok j hl).mem_regions

lemma Separate.free (h : Separate s) {shm pid : Nat} {name : Name} {unmaps unlinks : Bool}
 (hclean : Clean s (.free shm pid name unmaps unlinks))
 (hstep : Freed s shm pid name unmaps unlinks s') : Separate s' := by
 cases hstep with
 | unchanged => exact h
 | @zone i hi hlive hphys =>
  have hkeep := hclean i hi hlive
  rw [if_pos hphys] at hkeep
  refine h.clear (fun j hj hl d hd hb => ?_) fun j _ _ hmem => hmem
  rw [Memory.districtUnreserve,List.mem_filter,decide_eq_true_iff]
  exact ⟨hd,hkeep j hj hl d hb⟩
 | @mapped i hi hlive hphys =>
  refine h.clear (fun j _ _ d hd _ => hd) fun j hj hl hmem => ?_
  rw [Memory.munmap,List.mem_filter,decide_eq_true_iff]
  refine ⟨hmem,?_⟩
  rw [← obtained_of_none ((h.ok i hlive).map hphys).1]
  exact (h.apart j i hl hlive hj).ne (h.ok j hl).pos
 | @stale i hi hlive hphys hunmaps hproc hunlinks =>
  have hunlinked := hclean i hi hlive
  rw [if_neg (by rw [hphys]; exact Bool.false_ne_true)] at hunlinked
  rw [hunlinked hunmaps hproc] at hunlinks
  cases hunlinks

lemma separate_start (maps : List Region) : Separate (start maps) := by
 have hdead : ∀ i, ¬(start maps).Live i := fun i => not_not.mpr rfl
 exact ⟨fun _ _ => rfl,fun i hi => absurd hi (hdead i),fun i _ hi => absurd hi (hdead i),
  fun i _ hi => absurd hi (hdead i)⟩

lemma Separate.lookup (h : Separate s) (hlive : s.Live i) :
 s.lookup (s.block i).name = toHandle i := by
 rw [State.lookup]
 cases hfind : s.findBlock (s.block i).name with
 | none => exact absurd rfl (State.findBlock_eq_none hfind i)
 | some j =>
  have hname := List.find?_some hfind
  rw [decide_eq_true_iff] at hname
  have hj : s.Live j := by
   by_contra hdead
   exact (h.ok i hlive).name (hname.trans (h.dead j hdead))
  obtain rfl := h.names i j hlive hj hname
  exact (h.ok i hlive).hdl

/-- Each live block lies, aligned, in the memory that was obtained for it and is still there, and is
found by its name; no two of them share an address or a name. -/
theorem blocks_separate {maps : List Region}
 (h : Reachable (fun s c => Sized c ∧ Clean s c) p maps s) :
 (∀ i, s.Live i → (s.range i).Within (s.obtained i) ∧ s.obtained i ∈ s.memory.regions ∧
  (s.block i).align ∣ (s.block i).addr ∧ s.lookup (s.block i).name = toHandle i) ∧
 ∀ i j, s.Live i → s.Live j → i ≠ j →
  (s.range i).Apart (s.range j) ∧ (s.block i).name ≠ (s.block j).name := by
 have hinv : Separate s := by
  refine h.invariant (P := Separate) ?_ ?_
  · rintro _ rfl
    exact separate_start maps
  · rintro s (⟨r,a⟩ | ⟨shm,pid,name,unmaps,unlinks⟩) s' hs ⟨hsized,hclean⟩ hstep
    · obtain ⟨⟨ret,s''⟩,hret,rfl⟩ := Option.map_eq_some_iff.mp hstep
      exact hs.reserve hsized.1 hsized.2 hclean (reserved_of_reserve hret)
    · cases hstep
      exact hs.free hclean (freed_of_free ..)
 constructor
 · intro i hi
   exact ⟨(hinv.ok i hi).within,(hinv.ok i hi).mem_regions,(hinv.ok i hi).aligned,hinv.lookup hi⟩
 · intro i j hi hj hne
   refine ⟨(hinv.apart i j hi hj hne).within (hinv.ok i hi).within (hinv.ok j hj).within,?_⟩
   exact fun heq => hne (hinv.names i j hi hj heq)

/-- A free that leaves its district behind, so that the next block of the name is longer than it;
and one that gives back the district of another block, which is then handed out again. -/
theorem blocks_separate_left : (∃ s, Reachable (fun _ c => Sized c) smallPages [] s ∧ s.Live 0 ∧
 ¬(s.range 0).Within (s.obtained 0)) ∧
 ∃ s, Reachable (fun _ c => Sized c) smallPages [] s ∧ s.Live 0 ∧ s.Live 1 ∧
  ¬(s.range 0).Apart (s.range 1) := by
 have hstart : Reachable (fun _ c => Sized c) smallPages [] (start []) := .start rfl
 constructor
 · exact Reach.exists_of_run hstart
    [.reserve (shared ['a'] 64) (answered (some ⟨8192,128⟩) none),.free 1 7 ['?'] true true,
     .reserve (shared ['a'] 4096) (answered none none)] _ (by decide +kernel)
 · exact Reach.exists_of_run hstart
    [.reserve (shared ['a'] 64) (answered (some ⟨8192,128⟩) none),
     .reserve (shared ['b'] 64) (answered (some ⟨4096,128⟩) none),.free 1 7 ['b'] true true,
     .reserve (shared ['c'] 64) (answered (some ⟨4096,128⟩) none)] _ (by decide +kernel)

theorem blocks_separate_clean : ∃ s, Reachable (fun s c => Sized c ∧ Clean s c) smallPages [] s ∧
 (s.Live 0 ∧ s.Live 1 ∧ s.Live 2) ∧ (s.range 0).Apart (s.range 2) ∧ (s.range 1).Apart (s.range 2) ∧
 s.lookup (s.block 1).name = 2 := by
 obtain ⟨s,hs,hzero,hone,htwo⟩ := Reach.exists_of_run
  (.start rfl : Reachable (fun s c => Sized c ∧ Clean s c) smallPages [] (start []))
  [.reserve (monopolized ['a'] 64) (answered (some ⟨8192,128⟩) none),
   .reserve (anonymous ['c'] 100) (answered none (some 4000)),
   .reserve (shared ['b'] 192) (answered (some ⟨16384,256⟩) none),.free 1 7 ['?'] true true,
   .reserve (monopolized ['a'] 640) (answered (some ⟨8192,1024⟩) none)]
  (fun s => s.Live 0 ∧ s.Live 1 ∧ s.Live 2) (by decide +kernel)
 obtain ⟨hlive,hapart⟩ := blocks_separate hs
 exact ⟨s,hs,⟨hzero,hone,htwo⟩,(hapart 0 2 hzero htwo (by decide)).1,
  (hapart 1 2 hone htwo (by decide)).1,(hlive 1 hone).2.2.2⟩

end Packages.SharedMemory

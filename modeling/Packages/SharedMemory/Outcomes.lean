import Packages.SharedMemory.Model

/-!
# What reserve and free can do

Every outcome of `odp_shm_reserve` and `odp_shm_free`, said once. A reserve that fails may have
taken a district and may have written into a free entry of the table; `Quiet` says what it has left
alone.
-/

namespace Packages.SharedMemory

open State Option List

variable {p : Pages} {s s' s1 s2 : State} {r : Request} {a : Answers} {m m' : Memory} {d : District}
 {i j : Fin configShmBlocks} {addr len : Nat} {fd : Int} {zone : Option District}

-- The memory

lemma Memory.mmap_eq_some {answer : Option Nat} (h : m.mmap answer len = some (addr,m')) :
 m.Fresh ⟨addr,len⟩ ∧ m' = { m with maps := ⟨addr,len⟩::m.maps } := by
 unfold mmap at h
 split at h
 · cases h
 · split at h
   · next hfresh =>
     cases h
     exact ⟨hfresh,rfl⟩
   · cases h

/-- What is opened for a request: nothing, a district that exists or a new one. -/
inductive Opened (r : Request) (a : Answers) (m : Memory) : Option District → Memory → Prop
 | nothing (hnone : r.district? = none) : Opened r a m none m
 | existing {d : District} (hname : r.district? = some d.name) (hd : d ∈ m.districts) :
  Opened r a m (some d) m
 | carved {d : District} (hname : r.district? = some d.name)
  (hnew : ∀ d' ∈ m.districts, d'.name ≠ d.name)
  (hlen : r.allocSize ≤ d.region.len) (hfresh : m.Fresh d.region)
   (hgiven : a.district = some d.region) :
  Opened r a m (some d) { m with districts := d::m.districts }

lemma opened_of_districtReserve {name : Name} (hname : r.district? = some name)
 (h : m.districtReserve a.district name r.allocSize = some (d,m')) : Opened r a m (some d) m' := by
 unfold Memory.districtReserve at h
 split at h
 · next d' hfind =>
   cases h
   have hd := find?_some hfind
   rw [decide_eq_true_iff] at hd
   exact .existing (hname.trans (congrArg some hd.symm)) (mem_of_find?_eq_some hfind)
 · next hfind =>
   split at h
   · cases h
   · next hgiven =>
     split at h
     · next hok =>
       cases h
       refine .carved hname (fun d' hd' heq => ?_) hok.1 hok.2 hgiven
       exact find?_eq_none.mp hfind d' hd' (decide_eq_true heq)
     · cases h

lemma opened_of_openBacking (h : r.openBacking a m = some (zone,fd,m')) : Opened r a m zone m' := by
 unfold Request.openBacking at h
 split at h
 · next hproc =>
   obtain ⟨fd',-,heq⟩ := map_eq_some_iff.mp h
   cases heq
   exact .nothing (if_pos hproc)
 · next hproc =>
   split at h
   · next hmono =>
     obtain ⟨⟨d,m''⟩,hd,heq⟩ := map_eq_some_iff.mp h
     cases heq
     refine opened_of_districtReserve ?_ hd
     rw [Request.district?,if_neg hproc,if_pos hmono]
   · next hmono =>
     split at h
     · next hshare =>
       obtain ⟨⟨d,m''⟩,hd,heq⟩ := map_eq_some_iff.mp h
       cases heq
       refine opened_of_districtReserve ?_ hd
       rw [Request.district?,if_neg hproc,if_neg hmono,if_pos hshare]
     · next hshare =>
       cases h
       refine .nothing ?_
       rw [Request.district?,if_neg hproc,if_neg hmono,if_neg hshare]

lemma Request.proc_of_district? (h : r.district? ≠ none) : hasFlag r.flags shmProc = false := by
 unfold district? at h
 split at h
 · exact absurd rfl h
 · next hproc => exact Bool.eq_false_iff.mpr hproc

lemma Request.isPhys_of_district? (h : r.district? ≠ none) : isPhys r.flags = true := by
 unfold district? at h
 unfold isPhys
 split at h
 · exact absurd rfl h
 · split at h
   · next hmono => rw [hmono,Bool.true_or]
   · split at h
     · next hshare => rw [hshare,Bool.or_true]
     · exact absurd rfl h

lemma Opened.eq_of_not_isPhys (h : Opened r a m zone m') (hphys : isPhys r.flags = false) :
 m' = m := by
 have hnone : ∀ name, r.district? ≠ some name := by
  intro name hname
  have htrue := Request.isPhys_of_district? (r := r) (by rw [hname]; exact some_ne_none _)
  rw [hphys] at htrue
  cases htrue
 cases h with
 | nothing => rfl
 | existing hname | carved hname => exact absurd hname (hnone _)

-- What is left alone

/-- Live entries are as they were and free ones are still free; mappings may have been added. -/
structure Quiet (s s' : State) : Prop where
 live : ∀ j, s.Live j → s'.block j = s.block j
 dead : ∀ j, ¬s.Live j → ¬s'.Live j ∧ (s'.block j).name = (s.block j).name
 backing : s'.backing = s.backing
 maps : s.memory.maps ⊆ s'.memory.maps
 districts : s'.memory.districts = s.memory.districts

lemma Quiet.refl (s : State) : Quiet s s :=
 ⟨fun _ _ => rfl,fun _ h => ⟨h,rfl⟩,rfl,fun _ h => h,rfl⟩

lemma Quiet.live_iff (h : Quiet s s') (j : Fin configShmBlocks) : s'.Live j ↔ s.Live j := by
 constructor
 · intro hlive
   by_contra hdead
   exact (h.dead j hdead).1 hlive
 · intro hlive
   rwa [State.Live,h.live j hlive]

lemma Quiet.trans (h : Quiet s s1) (h' : Quiet s1 s2) : Quiet s s2 where
 live j hj := (h'.live j ((h.live_iff j).mpr hj)).trans (h.live j hj)
 dead j hj := have hdead := h.dead j hj
  ⟨(h'.dead j hdead.1).1,(h'.dead j hdead.1).2.trans hdead.2⟩
 backing := h'.backing.trans h.backing
 maps := fun _ hx => h'.maps (h.maps hx)
 districts := h'.districts.trans h.districts

lemma Quiet.setBlock (hdead : ¬s.Live i) {b : Block} (haddr : b.addr = (s.block i).addr)
 (hname : b.name = (s.block i).name) (hmaps : s.memory.maps ⊆ m.maps)
 (hdistricts : m.districts = s.memory.districts) :
 Quiet s { s.setBlock i b with memory := m } := by
 refine ⟨fun j hj => ?_,fun j hj => ?_,rfl,hmaps,hdistricts⟩
 · have hne : j ≠ i := fun heq => hdead (heq ▸ hj)
   exact s.setBlock_of_ne hne b
 · by_cases hji : j = i
   · subst hji
     have hblock : ({ s.setBlock j b with memory := m } : State).block j = b := s.setBlock_self j b
     rw [State.Live,hblock,haddr]
     exact ⟨hj,hname⟩
   · have hblock : ({ s.setBlock i b with memory := m } : State).block j = s.block j :=
      s.setBlock_of_ne hji b
     rw [State.Live,hblock]
     exact ⟨hj,rfl⟩

lemma Memory.Fresh.of_quiet (h : Quiet s s') {x : Region} (hfresh : s'.memory.Fresh x) :
 s.memory.Fresh x := by
 refine ⟨hfresh.1,hfresh.2.1,fun y hy => hfresh.2.2 y ?_⟩
 obtain hy | hy := mem_append.mp hy
 · exact mem_append_left _ (h.maps hy)
 · refine mem_append_right _ ?_
   rwa [h.districts]

-- Aligned addresses

lemma Request.Proper.align_pos (h : r.Proper) : 0 < r.align := by
 obtain ⟨-,-,k,-,hk⟩ := h
 rw [hk]
 exact Nat.two_pow_pos k

lemma Request.Proper.align_le (h : r.Proper) : r.align ≤ 2^63 := by
 obtain ⟨-,-,k,hlt,hk⟩ := h
 rw [hk]
 exact Nat.pow_le_pow_right (by decide) (Nat.le_of_lt_succ hlt)

lemma Request.Proper.roundPtr_eq (h : r.Proper) (haddr : addr ≤ 2^63) :
 r.roundPtr addr = roundUp r.align addr := by
 have hpos := h.align_pos
 have hle := h.align_le
 have hlt := roundUp_lt hpos addr
 rw [roundPtr,Nat.mod_eq_of_lt (a := addr+r.align-1) (by omega)]
 exact Nat.mod_eq_of_lt (by unfold roundUp at hlt; omega)

lemma Memory.Fresh.base_le {x : Region} (h : m.Fresh x) : x.base ≤ 2^63 :=
 Nat.le_trans (Nat.le_add_right ..) h.2.1

lemma Request.Proper.roundPtr_ne_zero (h : r.Proper) {x : Region} (hfresh : m.Fresh x) :
 r.roundPtr x.base ≠ 0 := by
 rw [h.roundPtr_eq hfresh.base_le]
 have hle := le_roundUp h.align_pos x.base
 have hpos := hfresh.1
 omega

-- Reserve

lemma State.findBlock_eq_none {name : Name} (h : s.findBlock name = none)
 (j : Fin configShmBlocks) : name ≠ (s.block j).name :=
 fun heq => find?_eq_none.mp h j (mem_finRange j) (decide_eq_true heq)

lemma State.not_live_of_freeBlock (h : s.freeBlock = some i) : ¬s.Live i := by
 have hfree := find?_some h
 exact not_not.mpr (of_decide_eq_true hfree)

/-- The mapping at `addr` is new and long enough, and entry `i` says how long it is. -/
structure Mapping (p : Pages) (r : Request) (i : Fin configShmBlocks) (s s' : State) (addr : Nat) :
 Prop where
 quiet : Quiet s s'
 hdl : (s'.block i).hdl = (s.block i).hdl
 fresh : s.memory.Fresh ⟨addr,(s'.block i).allocSize⟩
 mem : ⟨addr,(s'.block i).allocSize⟩ ∈ s'.memory.maps
 len : (s'.block i).allocSize = r.allocSize ∨ p.hugeSz ≠ 0 ∧
  (s'.block i).allocSize = r.allocHpSize p

lemma Mapping.of_mmap {answer : Option Nat} (hdead : ¬s.Live i)
 (hmap : s.memory.mmap answer len = some (addr,m)) (huge : Bool) (pageSz : Nat)
 (hlen : len = r.allocSize ∨ p.hugeSz ≠ 0 ∧ len = r.allocHpSize p) :
 Mapping p r i s { s.setBlock i { s.block i with
  allocSize := len
  huge := huge
  pageSz := pageSz } with memory := m } addr := by
 obtain ⟨hfresh,rfl⟩ := Memory.mmap_eq_some hmap
 have hblock : ∀ b m, ({ s.setBlock i b with memory := m } : State).block i = b := by
  intro b m
  exact s.setBlock_self i b
 refine ⟨.setBlock hdead rfl rfl (subset_cons_self _ _) rfl,?_,?_,?_,?_⟩
 · rw [hblock]
 · rw [hblock]
   exact hfresh
 · rw [hblock]
   exact mem_cons_self
 · rw [hblock]
   exact hlen

lemma State.mapHuge_eq_ok {addr : Option Nat} (hdead : ¬s.Live i)
 (h : s.mapHuge p r a i = .ok (s',addr)) :
 addr = none ∧ s' = s ∨ ∃ x, addr = some x ∧ Mapping p r i s s' x := by
 unfold mapHuge at h
 split at h
 · next hneed =>
   split at h
   · cases h
   · split at h
     · cases h
       exact .inl ⟨rfl,rfl⟩
     · next x m hmap =>
       cases h
       exact .inr ⟨x,rfl,.of_mmap hdead hmap _ _ (.inr ⟨(of_decide_eq_true hneed).1,rfl⟩)⟩
 · cases h
   exact .inl ⟨rfl,rfl⟩

lemma State.mapHuge_eq_error (h : s.mapHuge p r a i = .error s') :
 s' = s ∧ hasFlag r.flags shmProc = true := by
 unfold mapHuge at h
 split at h
 · split at h
   · next hproc =>
     cases h
     exact ⟨rfl,hproc.1⟩
   · split at h <;> cases h
 · cases h

lemma State.mapNormal_eq_ok (hdead : ¬s.Live i) (h : s.mapNormal p r a i = .ok (s',addr)) :
 Mapping p r i s s' addr := by
 unfold mapNormal at h
 split at h
 · cases h
 · split at h
   · cases h
   · next x m hmap =>
     cases h
     exact .of_mmap hdead hmap _ _ (.inl rfl)

lemma State.mapNormal_eq_error (h : s.mapNormal p r a i = .error s') : s' = s := by
 unfold mapNormal at h
 split at h
 · cases h
   rfl
 · split at h
   · cases h
     rfl
   · cases h

/-- How a call of `odp_shm_reserve` ends. -/
inductive Reserved (p : Pages) (s : State) (r : Request) (a : Answers) : State → Prop
 | refused : Reserved p s r a s
 | failed {zone : Option District} {fd : Int} {m : Memory} {s' : State}
  (hopen : r.openBacking a s.memory = some (zone,fd,m)) (hquiet : Quiet { s with memory := m } s')
  (hfull : r.district? ≠ none → (s.findBlock r.name).isSome ∨ s.freeBlock = none) :
  Reserved p s r a s'
 | zone {d : District} {fd : Int} {m : Memory} {s1 : State} {i : Fin configShmBlocks}
  (hphys : isPhys r.flags = true) (hopen : r.openBacking a s.memory = some (some d,fd,m))
  (hfind : s.findBlock r.name = none) (hfree : s.freeBlock = some i)
  (hquiet : Quiet { s with memory := m } s1) (hhdl : (s1.block i).hdl = toHandle i) :
  Reserved p s r a (s1.finishZone r i d)
 | mapped {s0 s1 : State} {i : Fin configShmBlocks} {addr : Nat} (fd : Int)
  (hphys : isPhys r.flags = false) (hfind : s.findBlock r.name = none)
  (hfree : s.freeBlock = some i) (hquiet : Quiet s s0) (hhdl : (s0.block i).hdl = toHandle i)
  (hmap : Mapping p r i s0 s1 addr) : Reserved p s r a (s1.finishMapped r i fd addr)

lemma reserved_of_fillEntry {ret : Nat} (hopen : r.openBacking a s.memory = some (zone,fd,m))
 (hfind : s.findBlock r.name = none) (hfree : s.freeBlock = some i)
 (h : ({ s with memory := m } : State).fillEntry p r a i zone fd = some (ret,s')) :
 Reserved p s r a s' := by
 have hdead := not_live_of_freeBlock hfree
 have hquiet : Quiet { s with memory := m }
  (({ s with memory := m } : State).setBlock i { s.block i with hdl := toHandle i }) :=
  .setBlock (s := { s with memory := m }) (m := m) hdead rfl rfl (fun _ h => h) rfl
 have hhdl : ((({ s with memory := m } : State).setBlock i
  { s.block i with hdl := toHandle i }).block i).hdl = toHandle i := by
  rw [setBlock_self]
 have hdead0 := (hquiet.dead i hdead).1
 unfold fillEntry at h
 split at h
 · next s1 hhuge =>
   cases h
   obtain ⟨rfl,hproc⟩ := mapHuge_eq_error hhuge
   refine .failed hopen hquiet fun hdistrict => ?_
   rw [Request.proc_of_district? hdistrict] at hproc
   cases hproc
 · next s1 addr hhuge =>
   have hcases := mapHuge_eq_ok hdead0 hhuge
   split at h
   · next hphys =>
     obtain ⟨d,rfl,heq⟩ := map_eq_some_iff.mp h
     cases heq
     obtain ⟨-,rfl⟩ | ⟨x,-,hmap⟩ := hcases
     · exact .zone hphys hopen hfind hfree hquiet hhdl
     · exact .zone hphys hopen hfind hfree (hquiet.trans hmap.quiet) (hmap.hdl.trans hhdl)
   · next hphys =>
     have hphys := Bool.eq_false_iff.mpr hphys
     obtain rfl := (opened_of_openBacking hopen).eq_of_not_isPhys hphys
     split at h
     · next x =>
       cases h
       obtain ⟨hnone,-⟩ | ⟨x',hx,hmap⟩ := hcases
       · cases hnone
       · cases hx
         exact .mapped fd hphys hfind hfree hquiet hhdl hmap
     · obtain ⟨-,rfl⟩ | ⟨x',hx,-⟩ := hcases
       · split at h
         · next s2 hnormal =>
           cases h
           obtain rfl := mapNormal_eq_error hnormal
           refine .failed hopen hquiet fun hdistrict => ?_
           rw [Request.isPhys_of_district? hdistrict] at hphys
           cases hphys
         · next s2 x hnormal =>
           cases h
           exact .mapped fd hphys hfind hfree hquiet hhdl (mapNormal_eq_ok hdead0 hnormal)
       · cases hx

lemma reserved_of_reserve {ret : Nat} (h : s.reserve p r a = some (ret,s')) :
 Reserved p s r a s' := by
 unfold reserve at h
 split at h
 · cases h
   exact .refused
 · next zone fd m hopen =>
   dsimp only at h
   split at h
   · next hfind =>
     cases h
     exact .failed hopen (.refl _) fun _ => .inl hfind
   · next hfind =>
     split at h
     · next hfull =>
       cases h
       exact .failed hopen (.refl _) fun _ => .inr hfull
     · next i hfree =>
       exact reserved_of_fillEntry hopen (not_isSome_iff_eq_none.mp hfind) hfree h

lemma State.finishMapped_block_self (s : State) (r : Request) (i : Fin configShmBlocks) (fd : Int)
 (addr : Nat) : (s.finishMapped r i fd addr).block i = r.fill (s.block i) fd addr :=
 s.setBlock_self i _

lemma State.finishMapped_block_of_ne (s : State) (r : Request) (fd : Int) (addr : Nat) (h : j ≠ i) :
 (s.finishMapped r i fd addr).block j = s.block j :=
 s.setBlock_of_ne h _

lemma State.finishZone_block_of_ne (s : State) (r : Request) (d : District) (h : j ≠ i) :
 (s.finishZone r i d).block j = s.block j :=
 s.setBlock_of_ne h _

-- Free

/-- How a call of `odp_shm_free` ends. -/
inductive Freed (s : State) (shm pid : Nat) (name : Name) (unmaps unlinks : Bool) : State → Prop
 | unchanged : Freed s shm pid name unmaps unlinks s
 | zone {i : Fin configShmBlocks} (hi : fromHandle shm = i) (hlive : s.Live i)
  (hphys : isPhys (s.block i).flags = true) : Freed s shm pid name unmaps unlinks
   { s.clear i with memory := s.memory.districtUnreserve (s.freedName i pid name) }
 | mapped {i : Fin configShmBlocks} (hi : fromHandle shm = i) (hlive : s.Live i)
  (hphys : isPhys (s.block i).flags = false) : Freed s shm pid name unmaps unlinks
   { s.clear i with memory := s.memory.munmap ⟨(s.block i).addrOrig,(s.block i).allocSize⟩ }
 | stale {i : Fin configShmBlocks} (hi : fromHandle shm = i) (hlive : s.Live i)
  (hphys : isPhys (s.block i).flags = false)
  (hunmaps : unmaps = true) (hproc : hasFlag (s.block i).flags shmProc = true)
  (hunlinks : unlinks = false) :
  Freed s shm pid name unmaps unlinks
   { s with memory := s.memory.munmap ⟨(s.block i).addrOrig,(s.block i).allocSize⟩ }

lemma freed_of_free (s : State) (shm pid : Nat) (name : Name) (unmaps unlinks : Bool) :
 Freed s shm pid name unmaps unlinks (s.free shm pid name unmaps unlinks).2 := by
 unfold free
 split
 · exact .unchanged
 · split
   · next hlt =>
     unfold freeEntry
     dsimp only
     split
     · exact .unchanged
     · next hlive =>
       split
       · next hphys => exact .zone (i := ⟨_,hlt⟩) rfl hlive hphys
       · next hphys =>
         have hphys := Bool.eq_false_iff.mpr hphys
         split
         · exact .unchanged
         · next hunmaps =>
           split
           · next hstale =>
             exact .stale (i := ⟨_,hlt⟩) rfl hlive hphys (Bool.eq_true_of_not_eq_false hunmaps)
              hstale.1 hstale.2
           · exact .mapped (i := ⟨_,hlt⟩) rfl hlive hphys
   · exact .unchanged

lemma State.clear_block_of_ne (s : State) (h : j ≠ i) : (s.clear i).block j = s.block j :=
 s.setBlock_of_ne h _

lemma State.not_live_clear (s : State) (i : Fin configShmBlocks) : ¬(s.clear i).Live i := by
 have hblock : (s.clear i).block i = .zero := s.setBlock_self i _
 rw [State.Live,hblock]
 exact not_not.mpr rfl

end Packages.SharedMemory

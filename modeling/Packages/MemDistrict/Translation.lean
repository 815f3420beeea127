import Packages.MemDistrict.Districts

/-!
# Address translation

`odp_v2p` and `odp_p2v` add a district's distance between physical and virtual memory. A release
that gives a district back to the front of its fragment moves the virtual address of the fragment
and not the physical one, and what is carved from there is translated wrongly.
-/

namespace Packages.MemDistrict

open Function State

/-- Both addresses of the free part have moved equally far from where the fragment began. -/
def InStep (f orig : Mmfrag) : Prop := f.physAddr+orig.addr = orig.physAddr+f.addr

instance (f orig : Mmfrag) : Decidable (InStep f orig) :=
 inferInstanceAs (Decidable (f.physAddr+orig.addr = orig.physAddr+f.addr))

/-- A call of `odp_mm_district_reserve_aligned` carves only from a fragment whose addresses are in
step. -/
def CarvesInStep (layout : Nat → Mmfrag) (s : State) : Action → Prop
 | .reserve name _ len socketId flags align =>
  ∀ c ∈ s.carvesFrom name len.toNat socketId flags.toNat align.toNat,
   InStep (s.freeMmfrag c.idx) (layout c.idx)
 | .unreserve _ | .p2v _ => True

instance (layout : Nat → Mmfrag) (s : State) : ∀ a, Decidable (CarvesInStep layout s a)
 | .reserve name _ len socketId flags align =>
  inferInstanceAs (Decidable (∀ c ∈ s.carvesFrom name len.toNat socketId flags.toNat align.toNat,
   InStep (s.freeMmfrag c.idx) (layout c.idx)))
 | .unreserve _ | .p2v _ => inferInstanceAs (Decidable True)

/-- The fragments end below the last address and do not overlap in physical memory either. -/
structure PhysOk (layout : Nat → Mmfrag) : Prop where
 virt : LayoutOk layout
 virt_end : ∀ i < count layout, (layout i).addr+(layout i).len < 2^64
 phys_end : ∀ i < count layout, (layout i).physAddr+(layout i).len < 2^64
 disjoint : ∀ i < count layout, ∀ j < count layout, i ≠ j →
  (layout i).physRange.Disjoint (layout j).physRange

/-- The district's addresses are those of the fragment `orig`. -/
structure Mapped (orig : Mmfrag) (d : District) : Prop where
 lower : orig.addr ≤ d.addr
 upper : d.addr+d.len ≤ orig.addr+orig.len
 phys : d.physAddr+orig.addr = orig.physAddr+d.addr
 physEnd : d.physAddrEnd = d.physAddr+d.len
 excursion : d.excursionAddr = word (d.addr+2^64-d.physAddr)

/-- A slot is empty or mapped. -/
def SlotOk (layout : Nat → Mmfrag) (d : District) : Prop :=
 d.addr = 0 ∧ d.physAddrEnd = 0 ∨
  d.addr ≠ 0 ∧ d.mmfragId < count layout ∧ Mapped (layout d.mmfragId) d

-- Steps

section Steps

variable {layout : Nat → Mmfrag} {s s0 : State}

lemma exists_shift (district : Nat → District) (count i k : Nat) :
 ∃ j, shift district count i k = district j := by
 rw [shift_apply]
 split_ifs
 · exact ⟨k+1,rfl⟩
 · exact ⟨k,rfl⟩

lemma unreserve_slot (s : State) (name : Name) (k : Nat) :
 (∃ j, (s.unreserve name).2.district k = s.district j) ∨
 (s.unreserve name).2.district k = .cleared socketIdAny := by
 have hremove : ∀ (s' : State) i, (∀ j, ∃ j', s'.district j = s.district j') →
  (∃ j, (s'.remove i).district k = s.district j) ∨
  (s'.remove i).district k = .cleared socketIdAny := by
  intro s' i hs'
  simp only [remove]
  by_cases hk : k = i+(s'.mmDistrictIdx-i)
  · rw [hk,update_self]
    exact .inr rfl
  · rw [update_of_ne hk]
    obtain ⟨j,hj⟩ := exists_shift s'.district (s'.mmDistrictIdx-i) i k
    rw [hj]
    exact .inl (hs' j)
 simp only [unreserve]
 cases s.lookup name with
 | none => exact .inl ⟨k,rfl⟩
 | some i =>
  simp only [giveBack]
  split_ifs
  · exact hremove _ i fun j => ⟨j,rfl⟩
  · exact hremove _ i fun j => ⟨j,rfl⟩
  · refine hremove _ i fun j => ?_
    simp only [toFreeList]
    by_cases hj : j = maxMmDistrict+s.freeDistrictIdx
    · exact ⟨i,by rw [hj,update_self]⟩
    · exact ⟨j,by rw [update_of_ne hj]⟩
  · exact .inl ⟨k,rfl⟩

lemma Carved.mapped (hl : PhysOk layout) (hs0 : init layout = some s0) (h : Inv s0.freeMmfrag s)
 {r : Request} {c : Choice} {size : Nat} (hc : Carved s0.freeMmfrag s r c size)
 (hstep : InStep (s.freeMmfrag c.idx) (layout c.idx)) (name origName : Name) :
 SlotOk layout ((s.carve name origName c r).district s.mmDistrictIdx) := by
 have hroom := hc.room
 have hpos := hc.pos
 have hend := h.front_add_len c.idx
 have hle := h.len_le c.idx
 obtain ⟨hi,hlow,hhigh⟩ := init_within hl.virt hs0 c.idx (by omega)
 have hvirt := hl.virt_end c.idx hi
 have hphys := hl.phys_end c.idx hi
 have hnull := fragCount_addr (Nat.zero_le _) hi
 have haddr := hc.addr
 unfold InStep at hstep
 set frag := s.freeMmfrag c.idx with hf
 have hw : word (frag.addr+c.offset) = frag.addr+c.offset :=
  word_of_lt (by omega)
 have hwp : word (frag.physAddr+c.offset) =
  frag.physAddr+c.offset := word_of_lt (by omega)
 have hwe : word (frag.physAddr+c.offset+size) =
  frag.physAddr+c.offset+size := word_of_lt (by omega)
 have hd : (s.carve name origName c r).district s.mmDistrictIdx = {
  name := name.take (memzoneNamesize-1)
  origName := origName.take (memzoneNamesize-8-1)
  physAddr := frag.physAddr+c.offset
  physAddrEnd := frag.physAddr+c.offset+size
  excursionAddr := word (frag.addr+c.offset+2^64 -
   (frag.physAddr+c.offset))
  addr := frag.addr+c.offset
  len := size
  hugepageSz := frag.hugepageSz
  socketId := frag.socketId
  flags := 0
  mmfragId := c.idx } := by
  simp only [carve,update_self,hc.size_eq,← hf,hw,hwp,hwe]
 rw [hd]
 refine .inr ⟨?_,hi,?_,?_,?_,rfl,rfl⟩ <;> simp only <;> omega

/-- Every slot of the state is empty or mapped. -/
def Exact (layout : Nat → Mmfrag) (s : State) : Prop := ∀ k, SlotOk layout (s.district k)

lemma Exact.step (hl : PhysOk layout) (hs0 : init layout = some s0) (h : Inv s0.freeMmfrag s)
 (he : Exact layout s) {a : Action} (hok : CarvesInStep layout s a) {s' : State}
 (hstep : step s a = some s') : Exact layout s' := by
 cases a with
 | reserve name origName len socketId flags align =>
  cases hstep
  have halign : align.toNat ≤ 2^32 := le_of_lt align.toNat_lt
  rcases reserve_cases s name origName len.toNat socketId flags.toNat halign with
   hsame | ⟨r,c,hroom,hfits,hfrom,hcarve⟩
  · rw [hsame]
    exact he
  · obtain ⟨size,hc⟩ := hfits.carved (init_baseOk hl.virt hs0) h
    intro k
    rw [hcarve]
    by_cases hk : k = s.mmDistrictIdx
    · rw [hk]
      exact hc.mapped hl hs0 h (hok c hfrom) name origName
    · have hkeep : (s.carve name origName c r).district k = s.district k := by
       simp only [carve,update_of_ne hk]
      rw [hkeep]
      exact he k
 | unreserve name =>
  cases hstep
  intro k
  rcases unreserve_slot s name k with ⟨j,hj⟩ | hcleared
  · rw [hj]
    exact he j
  · rw [hcleared]
    exact .inl ⟨rfl,rfl⟩
 | p2v phyaddr =>
  cases hstep
  intro k
  have hkeep : (s.p2v phyaddr).2.district = s.district := by
   simp only [p2v]
   split_ifs <;> rfl
  rw [hkeep]
  exact he k

end Steps

-- Lookup

section Lookup

variable {layout : Nat → Mmfrag} {s s0 : State}

lemma scan_match {district : Nat → District} {p : District → Bool} {fuel i k : Nat} (hi : i ≤ k)
 (hk : k < i+fuel) (hused : ∀ j ≤ k, (district j).addr ≠ 0) (hp : p (district k) = true) :
 scan district p fuel i ≤ k ∧ p (district (scan district p fuel i)) = true := by
 induction fuel generalizing i with
 | zero => omega
 | succ fuel ih =>
  rw [scan]
  split_ifs with hstop
  · exact ⟨hi,hstop.resolve_left (hused i hi)⟩
  · have hne : i ≠ k := fun hik => hstop (.inr (hik ▸ hp))
    exact ih (by omega) (by omega)

lemma Inv.find {base : Nat → Mmfrag} (h : Inv base s) {p : District → Bool} {k : Nat}
 (hk : k < maxMmDistrict) (haddr : (s.district k).addr ≠ 0) (hp : p (s.district k) = true) :
 ∃ i, s.find p = some i ∧ (s.district i).addr ≠ 0 ∧ p (s.district i) = true := by
 have hused : ∀ j ≤ k, (s.district j).addr ≠ 0 := by
  intro j hj
  rcases eq_or_lt_of_le hj with rfl | hlt
  · exact haddr
  · obtain ⟨hmax,hle⟩ := h.table.le hk haddr
    obtain ⟨-,hfull,-⟩ := h.table.resolve_right fun hr => by omega
    exact hfull j (by omega)
 obtain ⟨hstop,hmatch⟩ := scan_match (Nat.zero_le k) (by omega : k < 0+maxMmDistrict) hused hp
 exact ⟨_,if_pos ⟨by unfold stop; omega,hused _ hstop⟩,hused _ hstop,hmatch⟩

section

variable (hl : PhysOk layout)

include hl

lemma PhysOk.unique {i j x : Nat} (hi : i < count layout)
 (hj : j < count layout) (hx : (layout i).range.Has x) (hx' : (layout j).range.Has x) : i = j := by
 by_contra hne
 exact hl.virt.disjoint i hi j hj hne x ⟨hx,hx'⟩

lemma PhysOk.unique_phys {i j x : Nat} (hi : i < count layout)
 (hj : j < count layout) (hx : (layout i).physRange.Has x) (hx' : (layout j).physRange.Has x) :
 i = j := by
 by_contra hne
 exact hl.disjoint i hi j hj hne x ⟨hx,hx'⟩

lemma Exact.v2p (h : Inv s0.freeMmfrag s) (he : Exact layout s) {k a : Nat}
 (hk : k < maxMmDistrict) (haddr : (s.district k).addr ≠ 0) (ha : (s.district k).range.Has a) :
 ∃ i < count layout, (layout i).range.Has a ∧
  s.v2p a = (layout i).physAddr+(a-(layout i).addr) := by
 obtain ⟨hzero,-⟩ | ⟨-,hi,hm⟩ := he k
 · exact absurd hzero haddr
 obtain ⟨hlow,hhigh⟩ := ha
 simp only [District.range] at hlow hhigh
 have hhas : (layout (s.district k).mmfragId).range.Has a := by
  have := hm.lower
  have := hm.upper
  simp only [Range.Has,Mmfrag.range]
  omega
 refine ⟨_,hi,hhas,?_⟩
 have hend := hl.virt_end _ hi
 have hupper := hm.upper
 have hholds : (s.district k).holdsVirt a = true := by
  simp only [District.holdsVirt,decide_eq_true_eq]
  rw [word_of_lt (by omega)]
  exact ⟨hlow,hhigh⟩
 -- the district that is found belongs to the same fragment
 obtain ⟨j,hfind,hj,hholdsj⟩ := h.find (p := (·.holdsVirt a)) hk haddr hholds
 obtain ⟨hzero,-⟩ | ⟨-,hij,hmj⟩ := he j
 · exact absurd hzero hj
 have hendj := hl.virt_end _ hij
 have hupperj := hmj.upper
 have hlowerj := hmj.lower
 simp only [District.holdsVirt,decide_eq_true_eq] at hholdsj
 rw [word_of_lt (by omega)] at hholdsj
 have hsame := hl.unique hij hi (by simp only [Range.Has,Mmfrag.range]; omega) hhas
 have hphysj := hmj.phys
 have hphysend := hl.phys_end _ hij
 simp only [State.v2p,hfind]
 rw [word_of_lt (by omega),← hsame]
 omega

lemma Exact.excursion (he : Exact layout s) {j i a : Nat}
 (hi : i < count layout) (ha : (layout i).range.Has a)
 (hholds : (s.district j).holdsPhys ((layout i).physAddr+(a-(layout i).addr)) = true) :
 word ((s.district j).excursionAddr+((layout i).physAddr+(a-(layout i).addr))) = a := by
 simp only [District.holdsPhys,decide_eq_true_eq] at hholds
 simp only [Range.Has,Mmfrag.range] at ha
 obtain ⟨-,hempty⟩ | ⟨-,hij,hmj⟩ := he j
 · omega
 have hphys := hmj.phys
 have hlower := hmj.lower
 have hupper := hmj.upper
 have hend := hl.virt_end _ hij
 have hphysend := hl.phys_end _ hij
 rw [hmj.physEnd] at hholds
 have hsame := hl.unique_phys (x := (layout i).physAddr+(a-(layout i).addr)) hij hi
  (by simp only [Range.Has,Mmfrag.physRange]; omega)
  (by simp only [Range.Has,Mmfrag.physRange]; omega)
 rw [hmj.excursion,← hsame]
 rw [← hsame] at hholds ha
 unfold word
 omega

lemma Exact.p2v (h : Inv s0.freeMmfrag s) (he : Exact layout s) {k a i : Nat}
 (hk : k < maxMmDistrict) (haddr : (s.district k).addr ≠ 0) (ha : (s.district k).range.Has a)
 (hi : i < count layout) (hai : (layout i).range.Has a) :
 (s.p2v ((layout i).physAddr+(a-(layout i).addr))).1 = a := by
 simp only [State.p2v]
 split_ifs with hcached
 · exact he.excursion hl hi hai hcached
 · obtain ⟨hzero,-⟩ | ⟨-,hik,hm⟩ := he k
   · exact absurd hzero haddr
   have hphys := hm.phys
   have hlower := hm.lower
   have hupper := hm.upper
   simp only [Range.Has,District.range] at ha
   have hsame := hl.unique hi hik hai (by simp only [Range.Has,Mmfrag.range]; omega)
   have hholds : (s.district k).holdsPhys ((layout i).physAddr+(a-(layout i).addr)) = true := by
    simp only [District.holdsPhys,decide_eq_true_eq,hm.physEnd]
    rw [hsame]
    omega
   obtain ⟨j,hfind,-,hholdsj⟩ := h.find
    (p := (·.holdsPhys ((layout i).physAddr+(a-(layout i).addr)))) hk haddr hholds
   rw [hfind]
   exact he.excursion hl hi hai hholdsj

end

end Lookup

/-- Runs in which no district is carved from a fragment that is out of step. -/
abbrev ReachableInStep (layout : Nat → Mmfrag) : State → Prop :=
 Transition.Reach (fun s => init layout = some s) step (CarvesInStep layout)

/-- Inside a district in the table, `odp_v2p` gives the physical address of the original fragment
and `odp_p2v` leads back. -/
theorem translation_exact {layout : Nat → Mmfrag} (hl : PhysOk layout) {s : State}
 (h : ReachableInStep layout s) {k a : Nat} (hk : k < maxMmDistrict)
 (hlive : (s.district k).addr ≠ 0) (ha : (s.district k).range.Has a) :
 (∃ i < count layout, (layout i).range.Has a ∧
  s.v2p a = (layout i).physAddr+(a-(layout i).addr)) ∧ (s.p2v (s.v2p a)).1 = a := by
 obtain ⟨s0,hs0,hinv,hexact⟩ : ∃ s0, init layout = some s0 ∧ Inv s0.freeMmfrag s ∧
  Exact layout s := by
  refine h.invariant
   (P := fun s => ∃ s0, init layout = some s0 ∧ Inv s0.freeMmfrag s ∧ Exact layout s) ?_ ?_
  · intro s hs
    refine ⟨s,hs,init_inv hl.virt hs,fun k => .inl ?_⟩
    simp only [init] at hs
    split_ifs at hs
    cases hs
    exact ⟨rfl,rfl⟩
  · rintro s a s' ⟨s0,hs0,hs,he⟩ ha hstep
    exact ⟨s0,hs0,hs.step (init_baseOk hl.virt hs0) hstep,he.step hl hs0 hs ha hstep⟩
 obtain ⟨i,hi,hai,hv2p⟩ := hexact.v2p hl hinv hk hlive ha
 refine ⟨⟨i,hi,hai,hv2p⟩,?_⟩
 rw [hv2p]
 exact hexact.p2v hl hinv hk hlive ha hi hai

lemma demoLayout_phys : PhysOk demoLayout := by
 have hcount : count demoLayout = 2 := by decide
 refine ⟨demoLayout_ok,?_,?_,?_⟩ <;> rw [hcount]
 · decide
 · decide
 · rintro i hi j hj hne x ⟨hx,hx'⟩
   simp only [Range.Has,Mmfrag.physRange] at hx hx'
   have hi : i = 0 ∨ i = 1 := by omega
   have hj : j = 0 ∨ j = 1 := by omega
   rcases hi with rfl | rfl <;> rcases hj with rfl | rfl <;>
    simp [demoLayout] at hx hx' hne <;> omega

/-- The first of two districts is released and a third one reserved, with a translation in
between. -/
theorem translation_exact_three :
 ∃ s : State, ReachableInStep demoLayout s ∧ (s.district 1).range.Has 0x12345 ∧
  (s.p2v (s.v2p 0x12345)).1 = 0x12345 := by
 refine Transition.exists_of_start rfl
  [.reserve ['a'] [] 4096 0 0 0,.reserve ['b'] [] 4096 0 0 0,.unreserve ['a'],.p2v 0x81000,
   .reserve ['c'] [] 8192 0 0 4096]
  (fun s => (s.district 1).addr ≠ 0 ∧ (s.district 1).addr ≤ 0x12345 ∧
   0x12345 < (s.district 1).addr+(s.district 1).len) (by decide)
  fun s hs ⟨hlive,hlow,hhigh⟩ => ?_
 exact ⟨⟨hlow,hhigh⟩,(translation_exact demoLayout_phys hs (by decide) hlive ⟨hlow,hhigh⟩).2⟩

/-- A district is reserved and released; the next one gets its virtual address with a wrong
physical one. -/
theorem translation_broken :
 ∃ s : State, Reachable demoLayout s ∧ (s.district 0).range.Has 0x10000 ∧
  s.v2p 0x10000 = 0x81000 ∧ (demoLayout 0).addr = 0x10000 ∧
  (demoLayout 0).physAddr = 0x80000 := by
 exact Transition.exists_of_start rfl
  [.reserve ['a'] [] 4096 0 0 0,.unreserve ['a'],.reserve ['b'] [] 4096 0 0 0]
  (fun s => (s.district 0).addr ≤ 0x10000 ∧
   0x10000 < (s.district 0).addr+(s.district 0).len ∧ s.v2p 0x10000 = 0x81000) (by decide)
  fun s hs ⟨hlow,hhigh,hv2p⟩ => ⟨⟨hlow,hhigh⟩,hv2p,rfl,rfl⟩

end Packages.MemDistrict

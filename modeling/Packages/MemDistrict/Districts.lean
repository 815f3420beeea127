import Packages.MemDistrict.Disjoint

/-!
# Runs of reservations and releases

`odp_mm_district_init` cuts the fragments to whole cache lines. From there on every call keeps the
districts, the free districts and the free parts of the fragments apart.
-/

namespace Packages.MemDistrict

open Option

/-- A range of addresses. -/
structure Range where
 addr : Nat
 len : Nat

namespace Range

def Has (r : Range) (x : Nat) : Prop := r.addr ≤ x ∧ x < r.addr+r.len

def Disjoint (r r' : Range) : Prop := ∀ x, ¬ (r.Has x ∧ r'.Has x)

def Within (r r' : Range) : Prop := ∀ x, r.Has x → r'.Has x

lemma Disjoint.apart {r r' : Range} (h : r.Disjoint r') (hr : 0 < r.len) (hr' : 0 < r'.len) :
 r.addr+r.len ≤ r'.addr ∨ r'.addr+r'.len ≤ r.addr := by
 by_contra hover
 refine h (max r.addr r'.addr) ⟨⟨by omega,by omega⟩,⟨by omega,by omega⟩⟩

end Range

def Mmfrag.range (f : Mmfrag) : Range := ⟨f.addr,f.len⟩

def Mmfrag.physRange (f : Mmfrag) : Range := ⟨f.physAddr,f.len⟩

def District.range (d : District) : Range := ⟨d.addr,d.len⟩

/-- The number of fragments. -/
abbrev count (layout : Nat → Mmfrag) : Nat := fragCount layout maxMmfrag 0

/-- The fragments are ranges of 64-bit addresses and do not overlap. -/
structure LayoutOk (layout : Nat → Mmfrag) : Prop where
 phys_lt : ∀ i < count layout, (layout i).physAddr < 2^64
 range : ∀ i < count layout, (layout i).addr+(layout i).len ≤ 2^64
 addr_lt : ∀ i < count layout, (layout i).addr < 2^64
 disjoint : ∀ i < count layout, ∀ j < count layout, i ≠ j →
  (layout i).range.Disjoint (layout j).range

variable {layout : Nat → Mmfrag}

lemma fragCount_addr {fuel i k : Nat} (hi : i ≤ k)
 (hk : k < fragCount layout fuel i) : (layout k).addr ≠ 0 := by
 induction fuel generalizing i with
 | zero =>
  rw [fragCount] at hk
  omega
 | succ fuel ih =>
  rw [fragCount] at hk
  split_ifs at hk with hzero
  · omega
  · rcases eq_or_lt_of_le hi with rfl | hlt
    · exact hzero
    · exact ih hlt hk

/-- `mmfrag_sanitize` moves both addresses by less than a cache line and cuts the length. -/
lemma mmfragSanitize_some {f g : Mmfrag} (h : mmfragSanitize f = some g)
 (hrange : f.addr+f.len ≤ 2^64) (hlt : f.addr < 2^64) :
 g.len = 0 ∧ g.addr = f.addr ∧ g.physAddr = f.physAddr ∨
 ∃ off, off+g.len ≤ f.len ∧ g.addr = f.addr+off ∧ g.physAddr = word (f.physAddr+off) := by
 simp only [mmfragSanitize,cacheLineSize] at h
 split_ifs at h with halign hsmall
 · cases h
   exact .inl ⟨rfl,rfl,rfl⟩
 · cases h
   refine .inr ⟨_,?_,word_of_lt ?_,rfl⟩
   · simp only
     omega
   · omega

variable {s : State}

lemma init_base (h : init layout = some s) (i : Nat)
 (hi : i < count layout) : mmfragSanitize (layout i) = some (s.freeMmfrag i) := by
 simp only [init] at h
 split_ifs at h with hsane
 cases h
 obtain ⟨f,hf⟩ := isSome_iff_exists.mp (hsane i hi)
 simp only [if_pos hi,hf,getD_some]

lemma init_beyond (h : init layout = some s) (i : Nat)
 (hi : ¬ i < count layout) : s.freeMmfrag i = .zero := by
 simp only [init] at h
 split_ifs at h with hsane
 cases h
 exact if_neg hi

section

variable (hl : LayoutOk layout) (h : init layout = some s)

include hl h

lemma init_within (i : Nat) (hlen : 0 < (s.freeMmfrag i).len) :
 i < count layout ∧ (layout i).addr ≤ (s.freeMmfrag i).addr ∧
  (s.freeMmfrag i).addr+(s.freeMmfrag i).len ≤ (layout i).addr+(layout i).len := by
 by_cases hi : i < count layout
 · rcases mmfragSanitize_some (init_base h i hi) (hl.range i hi) (hl.addr_lt i hi) with
    ⟨hzero,-⟩ | ⟨off,hle,haddr,-⟩
   · omega
   · exact ⟨hi,by omega,by omega⟩
 · rw [init_beyond h i hi] at hlen
   exact absurd hlen (lt_irrefl 0)

lemma init_baseOk : BaseOk s.freeMmfrag := by
 have hbounds : ∀ i, (s.freeMmfrag i).addr < 2^64 ∧ (s.freeMmfrag i).physAddr < 2^64 ∧
  (s.freeMmfrag i).addr+(s.freeMmfrag i).len ≤ 2^64 := by
  intro i
  by_cases hi : i < count layout
  · have hrange := hl.range i hi
    have haddr := hl.addr_lt i hi
    rcases mmfragSanitize_some (init_base h i hi) hrange haddr with ⟨h0,h1,h2⟩ | ⟨off,h0,h1,h2⟩
    · rw [h1,h2]
      exact ⟨haddr,hl.phys_lt i hi,by omega⟩
    · refine ⟨?_,h2 ▸ word_lt _,by omega⟩
      have hsane := init_base h i hi
      simp only [mmfragSanitize] at hsane
      split_ifs at hsane with hne hsmall
      · rw [← some.inj hsane] at h1 ⊢
        exact haddr
      · rw [← some.inj hsane]
        exact word_lt _
  · rw [init_beyond h i hi]
    exact ⟨by decide,by decide,by decide⟩
 refine ⟨fun i => (hbounds i).1,fun i => (hbounds i).2.1,fun i => (hbounds i).2.2,fun i hi => ?_,
  fun i j hne hi hj => ?_⟩
 · obtain ⟨hc,hle,-⟩ := init_within hl h i hi
   have := fragCount_addr (Nat.zero_le i) hc
   omega
 · obtain ⟨hci,hlei,hendi⟩ := init_within hl h i hi
   obtain ⟨hcj,hlej,hendj⟩ := init_within hl h j hj
   have := (hl.disjoint i hci j hcj hne).apart (by simp only [Mmfrag.range]; omega)
   simp only [Mmfrag.range] at this
   omega

lemma init_inv : Inv s.freeMmfrag s := by
 have hb := init_baseOk hl h
 have hblank : ∀ k, (s.district k).addr = 0 := by
  simp only [init] at h
  split_ifs at h
  cases h
  exact fun _ => rfl
 have hidx : s.mmDistrictIdx = 0 := by
  simp only [init] at h
  split_ifs at h
  cases h
  rfl
 refine ⟨hb.phys_lt,fun i => le_refl _,fun i => ?_,fun k hk => absurd (hblank k) hk,
  fun k _ _ hk => absurd (hblank k) hk,.inl ⟨by omega,fun k hk => by omega,fun k _ _ => hblank k⟩⟩
 rw [front,Nat.add_sub_cancel,word_of_lt (hb.addr_lt i)]

end

lemma Inv.p2v {base : Nat → Mmfrag} (h : Inv base s) (phyaddr : Nat) :
 Inv base (s.p2v phyaddr).2 := by
 simp only [State.p2v]
 split_ifs
 · exact h
 · exact { h with inside := fun k hk => { h.inside k hk with } }

lemma Inv.step {base : Nat → Mmfrag} (hb : BaseOk base) {s' : State} (h : Inv base s)
 {a : Action} (hstep : step s a = some s') : Inv base s' := by
 cases a with
 | reserve name origName len socketId flags align =>
  cases hstep
  have halign : align.toNat ≤ 2^32 := le_of_lt align.toNat_lt
  rcases reserve_cases s name origName len.toNat socketId flags.toNat halign with
   hsame | ⟨r,c,hroom,hfits,-,hcarve⟩
  · rw [hsame]
    exact h
  · rw [hcarve]
    exact h.carve hb hfits hroom name origName
 | unreserve name => exact some.inj hstep ▸ h.unreserve hb name
 | p2v phyaddr => exact some.inj hstep ▸ h.p2v phyaddr

-- The ranges of a state

/-- What has a range of addresses: the slots of `mm_district` and, behind them, those of
`free_mm_district`, and the free parts of the fragments. -/
inductive Part where
 | slot (k : Fin (maxMmDistrict+maxMmDistrict))
 | free (i : Nat)
 deriving DecidableEq

/-- The range of a part; an empty slot has none. -/
def State.rangeOf (layout : Nat → Mmfrag) (s : State) : Part → Option Range
 | .slot k => if (s.district k).addr ≠ 0 then some (s.district k).range else none
 | .free i => if i < count layout then some (s.freeMmfrag i).range else none

lemma State.rangeOf_slot {k r} (h : s.rangeOf layout (.slot k) = some r) :
 (s.district k).addr ≠ 0 ∧ (s.district k).range = r := by
 simpa [State.rangeOf] using h

lemma State.rangeOf_free {i r} (h : s.rangeOf layout (.free i) = some r) :
 i < count layout ∧ (s.freeMmfrag i).range = r := by
 simpa [State.rangeOf] using h

/-- The states of the runs on the fragments of a platform. -/
abbrev Reachable (layout : Nat → Mmfrag) : State → Prop :=
 Transition.Reach (fun s => init layout = some s) step fun _ _ => True

lemma Reachable.inv (hl : LayoutOk layout)
 (h : Reachable layout s) : ∃ s0, init layout = some s0 ∧ Inv s0.freeMmfrag s := by
 refine h.invariant (P := fun s => ∃ s0, init layout = some s0 ∧ Inv s0.freeMmfrag s)
  (fun s hs => ⟨s,hs,init_inv hl hs⟩) ?_
 rintro s a s' ⟨s0,hs0,hs⟩ - hstep
 exact ⟨s0,hs0,hs.step (init_baseOk hl hs0) hstep⟩

section Parts

variable {layout : Nat → Mmfrag} {s s0 : State}

section

variable (hl : LayoutOk layout) (hs0 : init layout = some s0) (h : Inv s0.freeMmfrag s)

include hl hs0 h

lemma Inv.addr_front {i : Nat} (hlen : 0 < (s.freeMmfrag i).len) :
 (s.freeMmfrag i).addr = front s0.freeMmfrag s i := by
 have := h.front_add_len i
 have := (init_baseOk hl hs0).range i
 rw [h.addr_eq,word_of_lt (by omega)]

lemma Inside.apart_free {d : District} (hd : Inside s0.freeMmfrag s d) (i : Nat) :
 d.range.Disjoint (s.freeMmfrag i).range := by
 rintro x ⟨⟨hlow,hhigh⟩,⟨hlow',hhigh'⟩⟩
 obtain ⟨hpos,hlower,hupper⟩ := hd
 simp only [District.range,Mmfrag.range] at hlow hhigh hlow' hhigh'
 have haddr := h.addr_front hl hs0 (i := i) (by omega)
 by_cases hi : d.mmfragId = i
 · rw [hi] at hupper
   omega
 · have hend := h.front_add_len i
   have hend' := h.front_add_len d.mmfragId
   have hle := h.len_le i
   have := (init_baseOk hl hs0).apart _ _ hi (by omega) (by omega)
   omega

lemma Inv.within {p : Part} {r : Range} (hp : s.rangeOf layout p = some r) :
 ∃ i < count layout, r.Within (layout i).range := by
 cases p with
 | slot k =>
  obtain ⟨hk,rfl⟩ := State.rangeOf_slot hp
  obtain ⟨hpos,hlower,hupper⟩ := h.inside k hk
  have hend := h.front_add_len (s.district k).mmfragId
  obtain ⟨hi,hle,hlast⟩ := init_within hl hs0 (s.district k).mmfragId (by omega)
  refine ⟨_,hi,fun x hx => ?_⟩
  simp only [Range.Has,District.range,Mmfrag.range] at hx ⊢
  omega
 | free i =>
  obtain ⟨hi,rfl⟩ := State.rangeOf_free hp
  refine ⟨i,hi,fun x hx => ?_⟩
  simp only [Range.Has,Mmfrag.range] at hx ⊢
  have haddr := h.addr_front hl hs0 (i := i) (by omega)
  have hend := h.front_add_len i
  have hle := h.len_le i
  have := init_within hl hs0 i (by omega)
  omega

lemma Inv.disjoint {p p' : Part} {r r' : Range} (hne : p ≠ p') (hp : s.rangeOf layout p = some r)
 (hp' : s.rangeOf layout p' = some r') : r.Disjoint r' := by
 cases p with
 | slot k =>
  obtain ⟨hk,rfl⟩ := State.rangeOf_slot hp
  cases p' with
  | slot k' =>
   obtain ⟨hk',rfl⟩ := State.rangeOf_slot hp'
   have hapart := h.apart k k' (fun hkk => hne (by rw [Fin.ext hkk])) hk hk'
   rintro x ⟨hx,hx'⟩
   simp only [Range.Has,District.range,District.Apart] at hx hx' hapart
   omega
  | free i =>
   obtain ⟨hi,rfl⟩ := State.rangeOf_free hp'
   exact (h.inside k hk).apart_free hl hs0 h i
 | free i =>
  obtain ⟨hi,rfl⟩ := State.rangeOf_free hp
  cases p' with
  | slot k =>
   obtain ⟨hk,rfl⟩ := State.rangeOf_slot hp'
   exact fun x hx => (h.inside k hk).apart_free hl hs0 h i x hx.symm
  | free j =>
   obtain ⟨hj,rfl⟩ := State.rangeOf_free hp'
   rintro x ⟨hx,hx'⟩
   simp only [Range.Has,Mmfrag.range] at hx hx'
   have hai := h.addr_front hl hs0 (i := i) (by omega)
   have haj := h.addr_front hl hs0 (i := j) (by omega)
   have hei := h.front_add_len i
   have hej := h.front_add_len j
   have hli := h.len_le i
   have hlj := h.len_le j
   have hij : i ≠ j := fun hij => hne (by rw [hij])
   have := (init_baseOk hl hs0).apart i j hij (by omega) (by omega)
   omega

end

end Parts

/-- The districts in the table, the free districts and the free parts of the fragments are always
pairwise disjoint and inside the original fragments. -/
theorem districts_disjoint {layout : Nat → Mmfrag} (hl : LayoutOk layout) {s : State}
 (h : Reachable layout s) {p : Part} {r : Range} (hp : s.rangeOf layout p = some r) :
 (∃ i < count layout, r.Within (layout i).range) ∧
 ∀ p' r', p' ≠ p → s.rangeOf layout p' = some r' → r.Disjoint r' := by
 obtain ⟨s0,hs0,hinv⟩ := h.inv hl
 exact ⟨hinv.within hl hs0 hp,fun p' r' hne hp' => hinv.disjoint hl hs0 hne.symm hp hp'⟩

/-- Two fragments, the second one in another place of physical memory. -/
def demoLayout (i : Nat) : Mmfrag :=
 if i = 0 then ⟨0x80000,0x10000,0x10000,pgsize2M,0⟩
 else if i = 1 then ⟨0x200040,0x40040,0x8000,pgsize1G,1⟩ else .zero

lemma demoLayout_ok : LayoutOk demoLayout := by
 have hcount : count demoLayout = 2 := by decide
 refine ⟨?_,?_,?_,?_⟩ <;> rw [hcount]
 · decide
 · decide
 · decide
 · rintro i hi j hj hne x ⟨hx,hx'⟩
   simp only [Range.Has,Mmfrag.range] at hx hx'
   have hi : i = 0 ∨ i = 1 := by omega
   have hj : j = 0 ∨ j = 1 := by omega
   rcases hi with rfl | rfl <;> rcases hj with rfl | rfl <;>
    simp [demoLayout] at hx hx' hne <;> omega

theorem districts_disjoint_three : ∃ s : State, Reachable demoLayout s ∧ ∃ r r' r'',
 s.rangeOf demoLayout (.slot 0) = some r ∧ s.rangeOf demoLayout (.slot 1) = some r' ∧
 s.rangeOf demoLayout (.slot 128) = some r'' ∧ r.Disjoint r' ∧ r.Disjoint r'' := by
 refine Transition.exists_of_start rfl
  [.reserve ['a'] [] 4096 (-1) 0 0,.reserve ['b'] [] 100 0 0 4096,.reserve ['c'] [] 0 1 0 0,
   .unreserve ['a']]
  (fun s => (s.district 0).addr ≠ 0 ∧ (s.district 1).addr ≠ 0 ∧ (s.district 128).addr ≠ 0)
   (by decide)
  fun s hs ⟨h0,h1,h128⟩ => ?_
 refine ⟨(s.district 0).range,(s.district 1).range,(s.district 128).range,?_⟩
 have hr : s.rangeOf demoLayout (.slot 0) = some (s.district 0).range := if_pos h0
 have hr' : s.rangeOf demoLayout (.slot 1) = some (s.district 1).range := if_pos h1
 have hr'' : s.rangeOf demoLayout (.slot 128) = some (s.district 128).range := if_pos h128
 have hdisjoint := (districts_disjoint demoLayout_ok hs hr).2
 exact ⟨hr,hr',hr'',hdisjoint _ _ (by decide) hr',hdisjoint _ _ (by decide) hr''⟩

end Packages.MemDistrict

import Packages.MemDistrict.Model

/-!
# Districts do not overlap

A fragment gives memory away at its front only. What it still has ends where the fragment ends, so
its first free address `front` says where the districts that came from it are.
-/

namespace Packages.MemDistrict

open Function State Nat

lemma word_lt (x : Nat) : word x < 2^64 := mod_lt _ (by decide)

lemma word_of_lt {x : Nat} (h : x < 2^64) : word x = x := mod_eq_of_lt h

lemma word_sub {x y : Nat} (hle : y ≤ x) (hlt : x < 2^64) : word (x+2^64-y) = x-y := by
 rw [show x+2^64-y = x-y+2^64 by omega,word,add_mod_right,mod_eq_of_lt (by omega)]

-- The chosen fragment

lemma alignLoop_zero (f : Mmfrag) (len step fuel start : Nat) :
 alignLoop f len step 0 fuel start = start := by
 cases fuel with
 | zero => rfl
 | succ fuel => simp [alignLoop,boundary]

variable {align : Nat}

lemma alignPhysBoundary_lt {f : Mmfrag} (len : Nat) (hphys : f.physAddr < 2^64)
 (hpos : 0 < align) (hle : align ≤ 2^32) : alignPhysBoundary f len align 0 < align := by
 have hmod := mod_lt (word (f.physAddr+(align-1))) hpos
 have hself := mod_le (word (f.physAddr+(align-1))) align
 simp only [alignPhysBoundary,alignLoop_zero,alignCeil]
 by_cases hwrap : f.physAddr+(align-1) < 2^64
 · rw [word_of_lt hwrap] at hmod hself ⊢
   rw [show f.physAddr+(align-1)-(f.physAddr+(align-1))%align+2^64-f.physAddr =
    (align-1-(f.physAddr+(align-1))%align)+2^64 by omega,word,add_mod_right,
    mod_eq_of_lt (by omega)]
   omega
 · have hword : word (f.physAddr+(align-1)) = f.physAddr+(align-1)-2^64 := by
    rw [word,mod_eq_sub_mod (by omega),mod_eq_of_lt (by omega)]
   rw [word_of_lt (by omega)]
   omega

/-- What the checks of a call let through. -/
structure RequestOk (r : Request) : Prop where
 bound : r.bound = 0
 align_pos : 0 < r.align
 align_le : r.align ≤ 2^32
 pos : 0 < r.requestedLen
 le : r.requestedLen ≤ 2^45

variable {r : Request}

lemma request_ok {len flags : Nat} {socketId : Int} (halign : align ≤ 2^32)
 (h : request len socketId flags align 0 = .ok r) : RequestOk r := by
 simp only [request,cacheLineSize,memSizeMax] at h
 split_ifs at h with hpow hsmall hlen
 all_goals
  obtain rfl := Except.ok.inj h
  refine ⟨rfl,?_,?_,?_,?_⟩ <;> simp only <;> omega

/-- The chosen fragment has room for the district behind the offset. -/
structure Fits (s : State) (r : Request) (c : Choice) : Prop where
 request : RequestOk r
 addr : (s.freeMmfrag c.idx).addr ≠ 0
 len : c.len = (s.freeMmfrag c.idx).len
 offset : c.offset = r.offset (s.freeMmfrag c.idx)
 admits : r.admits (s.freeMmfrag c.idx) = true

variable {i : Nat}

lemma choose_fits {s : State} (hr : RequestOk r) {fuel : Nat} {c : Option Choice}
 (hc : ∀ c', c = some c' → Fits s r c') {c' : Choice}
 (h : r.choose s.freeMmfrag fuel i c = some c') : Fits s r c' := by
 induction fuel generalizing i c with
 | zero => exact hc c' h
 | succ fuel ih =>
  rw [Request.choose] at h
  split_ifs at h with haddr htake
  · exact hc c' h
  · refine ih (fun c1 hc1 => ?_) h
    cases hc1
    exact ⟨hr,haddr,rfl,rfl,htake.1⟩
  · exact ih hc h

/-- The fragment that the calls of `mm_district_reserve_aligned` find. -/
def State.finds (s : State) (name : Name) (socketId : Int) :
 (calls len flags align : Nat) → Option Choice
 | 0, _, _, _ => none
 | calls+1, len, flags, align =>
  if maxMmDistrict ≤ s.mmDistrictIdx ∨ (s.lookup name).isSome then none
  else (request len socketId flags align 0).toOption.bind fun r =>
   (s.chosen r).or (if r.hintOnly then s.finds name socketId calls r.len 0 r.align else none)

/-- The fragment that `odp_mm_district_reserve_aligned` carves from. -/
def State.carvesFrom (s : State) (name : Name) (len : Nat) (socketId : Int) (flags align : Nat) :
 Option Choice :=
 if flags &&& memzone1GB ≠ 0 ∧ flags &&& memzone2MB ≠ 0 ∨
  flags &&& memzone16MB ≠ 0 ∧ flags &&& memzone16GB ≠ 0 then none
 else s.finds name socketId 2 len flags align

/-- A call changes nothing or carves a district from a fragment that has room for it. -/
lemma reserve_cases (s : State) (name origName : Name) (len : Nat) (socketId : Int)
 (flags : Nat) (halign : align ≤ 2^32) :
 (s.districtReserveAligned name origName len socketId flags align).2 = s ∨
 ∃ r c, s.mmDistrictIdx < maxMmDistrict ∧ Fits s r c ∧
  s.carvesFrom name len socketId flags align = some c ∧
  (s.districtReserveAligned name origName len socketId flags align).2 =
   s.carve name origName c r := by
 have hcalls : ∀ calls len flags align, align ≤ 2^32 →
  (s.reserveAligned name origName socketId 0 calls len flags align).2 = s ∨
  ∃ r c, s.mmDistrictIdx < maxMmDistrict ∧ Fits s r c ∧
   s.finds name socketId calls len flags align = some c ∧
   (s.reserveAligned name origName socketId 0 calls len flags align).2 =
    s.carve name origName c r := by
  intro calls
  induction calls with
  | zero => exact fun _ _ _ _ => .inl rfl
  | succ calls ih =>
   intro len flags align halign
   rw [reserveAligned,finds]
   by_cases hroom : maxMmDistrict ≤ s.mmDistrictIdx
   · rw [if_pos hroom]
     exact .inl rfl
   rw [if_neg hroom]
   cases s.lookup name with
   | some i => exact .inl rfl
   | none =>
    cases hreq : request len socketId flags align 0 with
    | error e => exact .inl rfl
    | ok r =>
     have hr := request_ok halign hreq
     rw [if_neg (by simpa using hroom)]
     cases hchosen : s.chosen r with
     | some c =>
      refine .inr ⟨r,c,by omega,choose_fits hr (fun _ h => by simp at h) hchosen,?_,?_⟩
      · simp [Except.toOption,hchosen]
      · simp [hchosen]
     | none =>
      by_cases hhint : r.hintOnly = true
      · simpa [Except.toOption,hchosen,hhint] using ih r.len 0 r.align hr.align_le
      · simp [hchosen,hhint]
 rw [districtReserveAligned,carvesFrom]
 split_ifs
 · exact .inl rfl
 · exact hcalls 2 len flags align halign

-- The invariant

/-- The fragments that `mmfrag_sanitize` leaves: ranges of 64-bit addresses that do not overlap. -/
structure BaseOk (base : Nat → Mmfrag) : Prop where
 addr_lt : ∀ i, (base i).addr < 2^64
 phys_lt : ∀ i, (base i).physAddr < 2^64
 range : ∀ i, (base i).addr+(base i).len ≤ 2^64
 addr_pos : ∀ i, 0 < (base i).len → 0 < (base i).addr
 apart : ∀ i j, i ≠ j → 0 < (base i).len → 0 < (base j).len →
  (base i).addr+(base i).len ≤ (base j).addr ∨ (base j).addr+(base j).len ≤ (base i).addr

/-- The first address that the fragment has not given away. -/
def front (base : Nat → Mmfrag) (s : State) (i : Nat) : Nat :=
 (base i).addr+(base i).len-(s.freeMmfrag i).len

/-- The district came from the given-away part of its fragment. -/
structure Inside (base : Nat → Mmfrag) (s : State) (d : District) : Prop where
 pos : 0 < d.len
 lower : (base d.mmfragId).addr ≤ d.addr
 upper : d.addr+d.len ≤ front base s d.mmfragId

def District.Apart (d d' : District) : Prop := d.addr+d.len ≤ d'.addr ∨ d'.addr+d'.len ≤ d.addr

/-- The slots below `mm_district_idx` are in use. One more can be: when the table is full, the loop
that closes a gap pulls in the first free district. -/
def TableOk (s : State) : Prop :=
 (s.mmDistrictIdx ≤ maxMmDistrict ∧ (∀ k, k < s.mmDistrictIdx → (s.district k).addr ≠ 0) ∧
  ∀ k, k < maxMmDistrict → s.mmDistrictIdx < k → (s.district k).addr = 0) ∨
 maxMmDistrict < s.mmDistrictIdx ∧ ∀ k, k < maxMmDistrict → (s.district k).addr = 0

structure Inv (base : Nat → Mmfrag) (s : State) : Prop where
 phys_lt : ∀ i, (s.freeMmfrag i).physAddr < 2^64
 len_le : ∀ i, (s.freeMmfrag i).len ≤ (base i).len
 addr_eq : ∀ i, (s.freeMmfrag i).addr = word (front base s i)
 inside : ∀ k, (s.district k).addr ≠ 0 → Inside base s (s.district k)
 apart : ∀ k k', k ≠ k' → (s.district k).addr ≠ 0 → (s.district k').addr ≠ 0 →
  (s.district k).Apart (s.district k')
 table : TableOk s

section Steps

variable {base : Nat → Mmfrag} {s : State}

lemma Inv.front_add_len (h : Inv base s) (i : Nat) :
 front base s i+(s.freeMmfrag i).len = (base i).addr+(base i).len := by
 have := h.len_le i
 unfold front
 omega

variable {d : District}

lemma Inside.apart (hb : BaseOk base) {s s' : State} {d' : District} (hd : Inside base s d)
 (hd' : Inside base s' d') (hne : d.mmfragId ≠ d'.mmfragId) : d.Apart d' := by
 obtain ⟨hpos,hlower,hupper⟩ := hd
 obtain ⟨hpos',hlower',hupper'⟩ := hd'
 unfold front at hupper hupper'
 have := hb.apart _ _ hne (by omega) (by omega)
 unfold District.Apart
 omega

lemma District.Apart.symm {d' : District} (h : d.Apart d') : d'.Apart d := Or.symm h

/-- The district that a call carves and what it leaves of the fragment. -/
structure Carved (base : Nat → Mmfrag) (s : State) (r : Request) (c : Choice) (size : Nat) :
 Prop where
 pos : 0 < size
 room : c.offset+size ≤ (s.freeMmfrag c.idx).len
 addr : (s.freeMmfrag c.idx).addr = front base s c.idx
 size_eq : ∀ physAddr, r.size c physAddr = size

variable {c : Choice}

section

variable (hb : BaseOk base) (h : Inv base s)

include hb h

lemma Fits.carved (hf : Fits s r c) : ∃ size, Carved base s r c size := by
 have hoff : c.offset < r.align := by
  rw [hf.offset,Request.offset,hf.request.bound]
  exact alignPhysBoundary_lt _ (h.phys_lt _) hf.request.align_pos hf.request.align_le
 have hadmits := hf.admits
 simp only [Request.admits,decide_eq_true_eq,← hf.offset] at hadmits
 obtain ⟨hlen,-,hroom,-⟩ := hadmits
 have hr := hf.request
 rw [word_of_lt (by have := hr.le; have := hr.align_le; omega)] at hroom
 have hend := h.front_add_len c.idx
 have hrange := hb.range c.idx
 have hle := h.len_le c.idx
 have haddr : (s.freeMmfrag c.idx).addr = front base s c.idx := by
  rw [h.addr_eq,word_of_lt (by omega)]
 by_cases hzero : r.len = 0
 · refine ⟨(s.freeMmfrag c.idx).len-c.offset,?_,?_,haddr,fun _ => ?_⟩
   · have := hr.pos
     omega
   · omega
   · rw [Request.size,if_pos hzero,if_pos hr.bound,hf.len,
      word_sub (by omega) (by have := hb.addr_pos c.idx; omega)]
 · refine ⟨r.requestedLen,hr.pos,by omega,haddr,fun _ => ?_⟩
   rw [Request.size,if_neg hzero]

lemma Carved.front_carve {size : Nat}
 (hc : Carved base s r c size) (name origName : Name) (i : Nat) :
 ((s.carve name origName c r).freeMmfrag i).len ≤ (base i).len ∧
 front base (s.carve name origName c r) i =
  front base s i+if i = c.idx then c.offset+size else 0 := by
 have hroom := hc.room
 have hle := h.len_le i
 by_cases hi : i = c.idx
 · subst hi
   have hbound : (base c.idx).len < 2^64 := by
    have := hb.addr_pos c.idx
    have := hb.range c.idx
    omega
   have hlen : ((s.carve name origName c r).freeMmfrag c.idx).len =
    (s.freeMmfrag c.idx).len-(c.offset+size) := by
    simp only [carve,update_self,hc.size_eq]
    have hword : word (c.offset+size) = c.offset+size := word_of_lt (by omega)
    rw [hword,word_sub hroom (by omega)]
   rw [front,front,if_pos rfl]
   omega
 · simp only [front,carve,update_of_ne hi,if_neg hi]
   omega

lemma Carved.district {size : Nat} (hc : Carved base s r c size) (name origName : Name) :
 ∃ d, (s.carve name origName c r).district = update s.district s.mmDistrictIdx d ∧
  d.addr = front base s c.idx+c.offset ∧ d.len = size ∧ d.mmfragId = c.idx ∧ d.addr ≠ 0 := by
 have hend := h.front_add_len c.idx
 have hrange := hb.range c.idx
 have hpos := hb.addr_pos c.idx
 have hroom := hc.room
 have hsize := hc.pos
 have hle := h.len_le c.idx
 refine ⟨_,rfl,?_,hc.size_eq _,rfl,?_⟩ <;> simp only [hc.addr] <;> rw [word_of_lt (by omega)]
 omega

end

lemma TableOk.carve (h : TableOk s) (hroom : s.mmDistrictIdx < maxMmDistrict) {s' : State}
 (hd : s'.district = update s.district s.mmDistrictIdx d)
 (hidx : s'.mmDistrictIdx = s.mmDistrictIdx+1) (haddr : d.addr ≠ 0) : TableOk s' := by
 rcases h with ⟨-,hused,hblank⟩ | ⟨hlt,-⟩
 · refine .inl ⟨by omega,fun k hk => ?_,fun k hk hlt => ?_⟩ <;> rw [hd]
   · by_cases hki : k = s.mmDistrictIdx
     · rwa [hki,update_self]
     · rw [update_of_ne hki]
       exact hused k (by omega)
   · rw [update_of_ne (by omega)]
     exact hblank k hk (by omega)
 · omega

lemma Inv.carve (hb : BaseOk base) (h : Inv base s) (hf : Fits s r c)
 (hroom : s.mmDistrictIdx < maxMmDistrict) (name origName : Name) :
 Inv base (s.carve name origName c r) := by
 obtain ⟨size,hc⟩ := hf.carved hb h
 obtain ⟨d,hdistrict,hdaddr,hdlen,hdid,hdpos⟩ := hc.district hb h name origName
 have hfront := hc.front_carve hb h name origName
 have hnew : Inside base (s.carve name origName c r) d := by
  have hlower := h.front_add_len c.idx
  have hle := h.len_le c.idx
  have hpos := hc.pos
  refine ⟨by omega,by rw [hdid]; omega,?_⟩
  rw [hdid,(hfront c.idx).2,if_pos rfl]
  omega
 -- the old districts end in front of the new one
 have hold : ∀ k, (s.district k).addr ≠ 0 → Inside base (s.carve name origName c r) (s.district k) ∧
  (s.district k).Apart d := by
  intro k hk
  have hk := h.inside k hk
  have hk' : Inside base (s.carve name origName c r) (s.district k) :=
   ⟨hk.pos,hk.lower,by rw [(hfront _).2]; exact le_add_right_of_le hk.upper⟩
  refine ⟨hk',?_⟩
  by_cases hid : (s.district k).mmfragId = c.idx
  · have hupper := hk.upper
    rw [hid] at hupper
    exact .inl (by omega)
  · exact hk'.apart hb hnew (by rwa [hdid])
 refine ⟨fun i => ?_,fun i => (hfront i).1,fun i => ?_,fun k hk => ?_,fun k k' hne hk hk' => ?_,?_⟩
 · by_cases hi : i = c.idx
   · simp only [hi,State.carve,update_self]
     exact word_lt _
   · simp only [State.carve,update_of_ne hi]
     exact h.phys_lt i
 · rw [(hfront i).2]
   by_cases hi : i = c.idx
   · rw [hi,if_pos rfl]
     simp only [State.carve,update_self,hc.size_eq,hc.addr]
     rw [word,word,word,add_mod_mod]
   · rw [if_neg hi,add_zero,← h.addr_eq]
     simp only [State.carve,update_of_ne hi]
 · rw [hdistrict] at hk ⊢
   by_cases hki : k = s.mmDistrictIdx
   · rwa [hki,update_self]
   · rw [update_of_ne hki] at hk ⊢
     exact (hold k hk).1
 · rw [hdistrict] at hk hk' ⊢
   by_cases hki : k = s.mmDistrictIdx
   · have hki' : k' ≠ s.mmDistrictIdx := fun h => hne (hki.trans h.symm)
     rw [update_of_ne hki'] at hk' ⊢
     rw [hki,update_self]
     exact (hold k' hk').2.symm
   · rw [update_of_ne hki] at hk ⊢
     by_cases hki' : k' = s.mmDistrictIdx
     · rw [hki',update_self]
       exact (hold k hk).2
     · rw [update_of_ne hki'] at hk' ⊢
       exact h.apart k k' hne hk hk'
 · exact h.table.carve hroom hdistrict rfl hdpos

-- Release

lemma shift_apply (district : Nat → District) (count i k : Nat) :
 shift district count i k = if i ≤ k ∧ k < i+count then district (k+1) else district k := by
 induction count generalizing district i with
 | zero => rw [shift,if_neg (by omega)]
 | succ count ih =>
  rw [shift,ih]
  by_cases hk : k = i
  · subst hk
    rw [if_neg (by omega),if_pos (by omega),update_self]
  · by_cases hlt : i+1 ≤ k ∧ k < i+1+count
    · rw [if_pos hlt,if_pos (by omega),update_of_ne (by omega)]
    · rw [if_neg hlt,if_neg (by omega),update_of_ne hk]

/-- Which slot a slot of the table is filled from when the gap at `i` closes. -/
def source (s : State) (i k : Nat) : Nat := if i ≤ k ∧ k < s.mmDistrictIdx then k+1 else k

lemma remove_district {k : Nat} (hi : i ≤ s.mmDistrictIdx)
 (hk : ((s.remove i).district k).addr ≠ 0) :
 k ≠ s.mmDistrictIdx ∧ (s.remove i).district k = s.district (source s i k) := by
 have hlast : i+(s.mmDistrictIdx-i) = s.mmDistrictIdx := by omega
 simp only [remove,hlast] at hk ⊢
 by_cases hki : k = s.mmDistrictIdx
 · rw [hki,update_self] at hk
   exact absurd rfl hk
 · refine ⟨hki,?_⟩
   rw [update_of_ne hki,shift_apply,hlast,source]
   split_ifs <;> rfl

lemma source_ne {k : Nat} (hi : i ≤ s.mmDistrictIdx) (hk : k ≠ s.mmDistrictIdx) :
 source s i k ≠ i := by
 unfold source
 split_ifs <;> omega

lemma source_inj {k k' : Nat} (hk : k ≠ s.mmDistrictIdx) (hk' : k' ≠ s.mmDistrictIdx)
 (h : source s i k = source s i k') : k = k' := by
 unfold source at h
 split_ifs at h <;> omega

section

variable (h : TableOk s) (hi : i < maxMmDistrict) (haddr : (s.district i).addr ≠ 0)

include h hi haddr

lemma TableOk.le : s.mmDistrictIdx ≤ maxMmDistrict ∧ i ≤ s.mmDistrictIdx := by
 rcases h with ⟨hle,-,hblank⟩ | ⟨-,hblank⟩
 · by_contra hlt
   exact haddr (hblank i hi (by omega))
 · exact absurd (hblank i hi) haddr

lemma TableOk.remove : TableOk (s.remove i) := by
 obtain ⟨hmax,hile⟩ := h.le hi haddr
 obtain ⟨-,hused,hblank⟩ := h.resolve_right fun hr => by omega
 have hlast : i+(s.mmDistrictIdx-i) = s.mmDistrictIdx := by omega
 have hbelow : ∀ k, k < s.mmDistrictIdx → (s.remove i).district k = s.district (source s i k) := by
  intro k hk
  simp only [State.remove]
  rw [update_of_ne (by omega),shift_apply,hlast,source]
  split_ifs <;> rfl
 have habove : ∀ k, k < maxMmDistrict → s.mmDistrictIdx ≤ k →
  ((s.remove i).district k).addr = 0 := by
  intro k hk hle
  by_contra hne
  obtain ⟨hki,heq⟩ := remove_district hile hne
  rw [heq,source,if_neg (by omega)] at hne
  exact hne (hblank k hk (by omega))
 rcases Nat.eq_zero_or_pos s.mmDistrictIdx with hzero | hpos
 · refine .inr ⟨?_,fun k hk => habove k hk (by omega)⟩
   simp [State.remove,hzero,maxMmDistrict]
 · have hidx : (s.remove i).mmDistrictIdx = s.mmDistrictIdx-1 := by
    simp only [State.remove]
    rw [show s.mmDistrictIdx+2^32-1 = s.mmDistrictIdx-1+2^32 by omega,add_mod_right,
     mod_eq_of_lt (by simp only [maxMmDistrict] at hmax; omega)]
   refine .inl ⟨by omega,fun k hk => ?_,fun k hk hlt => habove k hk (by omega)⟩
   rw [hbelow k (by omega)]
   unfold source
   split_ifs
   · exact hused (k+1) (by omega)
   · exact hused k (by omega)

end

lemma Inv.rearrange (h : Inv base s) {s' : State} (origin : Nat → Nat)
 (heq : ∀ k, (s'.district k).addr ≠ 0 → s'.district k = s.district (origin k))
 (hinj : ∀ k k', (s'.district k).addr ≠ 0 → (s'.district k').addr ≠ 0 → origin k = origin k' →
  k = k') (hphys : ∀ i, (s'.freeMmfrag i).physAddr = (s.freeMmfrag i).physAddr)
 (hlen : ∀ i, (s'.freeMmfrag i).len ≤ (base i).len)
 (haddr : ∀ i, (s'.freeMmfrag i).addr = word (front base s' i))
 (hinside : ∀ k, (s'.district k).addr ≠ 0 →
  (s.district (origin k)).addr+(s.district (origin k)).len ≤
  front base s' (s.district (origin k)).mmfragId) (htable : TableOk s') : Inv base s' := by
 refine ⟨fun i => hphys i ▸ h.phys_lt i,hlen,haddr,fun k hk => ?_,fun k k' hne hk hk' => ?_,htable⟩
 · have hin := hinside k hk
   have hk0 := heq k hk ▸ hk
   have hold := h.inside _ hk0
   rw [heq k hk]
   exact ⟨hold.pos,hold.lower,hin⟩
 · have hk0 := heq k hk ▸ hk
   have hk0' := heq k' hk' ▸ hk'
   rw [heq k hk,heq k' hk']
   exact h.apart _ _ (fun ho => hne (hinj k k' hk hk' ho)) hk0 hk0'

lemma Inv.mergeFront (hb : BaseOk base) (h : Inv base s) (hi : i < maxMmDistrict)
 (hmd : (s.district i).addr ≠ 0)
 (hmeets : (s.district i).addr+(s.district i).len = front base s (s.district i).mmfragId) :
 Inv base ((s.mergeFront (s.district i)).remove i) := by
 obtain ⟨hmax,hile⟩ := h.table.le hi hmd
 obtain ⟨hpos,hlower,-⟩ := h.inside i hmd
 set d := s.district i with hd
 have hend := h.front_add_len d.mmfragId
 have hrange := hb.range d.mmfragId
 have haddrpos := hb.addr_pos d.mmfragId
 generalize hs1 : s.mergeFront d = s1
 have hdistrict : s1.district = s.district := by rw [← hs1]; rfl
 have hidx : s1.mmDistrictIdx = s.mmDistrictIdx := by rw [← hs1]; rfl
 have hfree : ∀ j, (s1.freeMmfrag j).physAddr = (s.freeMmfrag j).physAddr ∧
  (j ≠ d.mmfragId → s1.freeMmfrag j = s.freeMmfrag j) ∧
  (j = d.mmfragId → (s1.freeMmfrag j).addr = d.addr ∧
   (s1.freeMmfrag j).len = (s.freeMmfrag j).len+d.len) := by
  intro j
  rw [← hs1]
  by_cases hj : j = d.mmfragId
  · subst hj
    have hlt : (s.freeMmfrag d.mmfragId).len+d.len < 2^64 := by omega
    simp [State.mergeFront,word_of_lt hlt]
  · simp [State.mergeFront,hj]
 have hfront : ∀ j, front base s1 j =
  if j = d.mmfragId then d.addr else front base s j := by
  intro j
  by_cases hj : j = d.mmfragId
  · rw [if_pos hj,front,((hfree j).2.2 hj).2,hj]
    omega
  · rw [if_neg hj,front,(hfree j).2.1 hj,front]
 have htable : TableOk s1 := by
  have := h.table
  unfold TableOk at this ⊢
  rwa [hdistrict,hidx]
 refine h.rearrange (source s1 i) (fun k hk => ?_) (fun k k' hk hk' ho => ?_) (fun j => (hfree j).1)
  (fun j => ?_) (fun j => ?_) (fun k hk => ?_) (htable.remove hi (by rwa [hdistrict]))
 · rw [(remove_district (by omega) hk).2,hdistrict]
 · exact source_inj (remove_district (by omega) hk).1 (remove_district (by omega) hk').1 ho
 · show (s1.freeMmfrag j).len ≤ (base j).len
   by_cases hj : j = d.mmfragId
   · rw [((hfree j).2.2 hj).2,hj]
     omega
   · rw [(hfree j).2.1 hj]
     exact h.len_le j
 · show (s1.freeMmfrag j).addr = word (front base s1 j)
   rw [hfront]
   by_cases hj : j = d.mmfragId
   · rw [((hfree j).2.2 hj).1,if_pos hj,word_of_lt (by omega)]
   · rw [(hfree j).2.1 hj,if_neg hj,h.addr_eq]
 · show _ ≤ front base s1 _
   obtain ⟨hki,heq⟩ := remove_district (by omega) hk
   have hne : source s1 i k ≠ i := source_ne (by omega) hki
   have hk0 : (s.district (source s1 i k)).addr ≠ 0 := by
    rw [heq,hdistrict] at hk
    exact hk
   have hold := h.inside _ hk0
   rw [hfront]
   by_cases hid : (s.district (source s1 i k)).mmfragId = d.mmfragId
   · -- it is apart from the released district, hence in front of it
     have hupper := hold.upper
     have hposk := hold.pos
     rw [if_pos hid]
     rw [hid] at hupper
     rcases h.apart _ _ hne hk0 hmd with hap | hap <;> rw [← hd] at hap <;> omega
   · rw [if_neg hid]
     exact hold.upper

lemma Inv.toFreeList (h : Inv base s) (hi : i < maxMmDistrict)
 (hmd : (s.district i).addr ≠ 0) : Inv base ((s.toFreeList (s.district i)).remove i) := by
 obtain ⟨hmax,hile⟩ := h.table.le hi hmd
 generalize hs1 : s.toFreeList (s.district i) = s1
 have hdistrict : s1.district =
  update s.district (maxMmDistrict+s.freeDistrictIdx) (s.district i) := by
  rw [← hs1]
  rfl
 have hidx : s1.mmDistrictIdx = s.mmDistrictIdx := by rw [← hs1]; rfl
 have hfree : s1.freeMmfrag = s.freeMmfrag := by rw [← hs1]; rfl
 have htable : ∀ k, k < maxMmDistrict → s1.district k = s.district k := by
  intro k hk
  rw [hdistrict,update_of_ne (by omega)]
 -- the copy on the list is the one in the table that goes away
 refine h.rearrange
  (fun k => if source s1 i k = maxMmDistrict+s.freeDistrictIdx then i else source s1 i k)
  (fun k hk => ?_) (fun k k' hk hk' ho => ?_) (fun j => ?_) (fun j => ?_) (fun j => ?_)
  (fun k hk => ?_) (TableOk.remove ?_ hi (by rwa [htable i hi]))
 · rw [(remove_district (by omega) hk).2,hdistrict]
   by_cases hc : source s1 i k = maxMmDistrict+s.freeDistrictIdx
   · rw [if_pos hc,hc,update_self]
   · rw [if_neg hc,update_of_ne hc]
 · have hki := (remove_district (by omega) hk).1
   have hki' := (remove_district (by omega) hk').1
   have hne := source_ne (i := i) (by omega) hki
   have hne' := source_ne (i := i) (by omega) hki'
   refine source_inj (i := i) hki hki' ?_
   split_ifs at ho with hc hc'
   · exact hc.trans hc'.symm
   · exact absurd ho.symm hne'
   · exact absurd ho hne
   · exact ho
 · rw [remove,hfree]
 · rw [remove,hfree]
   exact h.len_le j
 · rw [front,remove,hfree]
   exact h.addr_eq j
 · rw [front,remove,hfree]
   refine (h.inside _ ?_).upper
   obtain ⟨-,heq⟩ := remove_district (by omega) hk
   rw [heq,hdistrict] at hk
   by_cases hc : source s1 i k = maxMmDistrict+s.freeDistrictIdx
   · rwa [if_pos hc]
   · rw [update_of_ne hc] at hk
     rwa [if_neg hc]
 · rcases h.table with ⟨hle,hused,hblank⟩ | ⟨hlt,hblank⟩
   · refine .inl ⟨by omega,fun k hk => ?_,fun k hk hlt => ?_⟩
     · rw [htable k (by omega)]
       exact hused k (by omega)
     · rw [htable k hk]
       exact hblank k hk (by omega)
   · refine .inr ⟨by omega,fun k hk => ?_⟩
     rw [htable k hk]
     exact hblank k hk

lemma Inv.unreserve (hb : BaseOk base) (h : Inv base s) (name : Name) :
 Inv base (s.unreserve name).2 := by
 unfold State.unreserve
 cases hlookup : s.lookup name with
 | none => exact h
 | some i =>
  obtain ⟨hi,hmd⟩ : i < maxMmDistrict ∧ (s.district i).addr ≠ 0 := by
   simp only [lookup,find] at hlookup
   split_ifs at hlookup with hfound
   exact Option.some.inj hlookup ▸ hfound
  obtain ⟨hpos,hlower,hupper⟩ := h.inside i hmd
  set d := s.district i
  have hend := h.front_add_len d.mmfragId
  have hrange := hb.range d.mmfragId
  have hfaddr := h.addr_eq d.mmfragId
  simp only [giveBack]
  by_cases hbehind : word ((s.freeMmfrag d.mmfragId).addr +
   (s.freeMmfrag d.mmfragId).len) = d.addr
  · -- nothing lies behind the free part
    rw [hfaddr,word,word,Nat.mod_add_mod,hend] at hbehind
    rcases Nat.lt_or_eq_of_le hrange with hlt | heq
    · rw [Nat.mod_eq_of_lt hlt] at hbehind
      omega
    · rw [heq,Nat.mod_self] at hbehind
      exact absurd hbehind.symm hmd
  · rw [if_neg hbehind]
    by_cases hfront : word (d.addr+d.len) =
     (s.freeMmfrag d.mmfragId).addr
    · rw [if_pos hfront]
      refine h.mergeFront hb hi hmd ?_
      show d.addr+d.len = front base s d.mmfragId
      rw [hfaddr] at hfront
      unfold word at hfront
      omega
    · rw [if_neg hfront]
      by_cases hroom : s.freeDistrictIdx < maxMmDistrict
      · rw [if_pos hroom]
        exact h.toFreeList hi hmd
      · rw [if_neg hroom]
        exact h

end Steps

end Packages.MemDistrict

import Packages.Cores.Coremask
import Packages.Lib.Word32

/-!
# The next enabled core in `odp_core.h`

With `wrap` the counter of the loop never leaves the table, and nothing counts the rounds.
-/

namespace Packages.Coremask

open List

/-- What `odp_get_next_core` reads: fields of `odp_config`, and its flags. -/
structure Search where
 coreRole : Nat → Role
 bspCore : Nat
 skipMaster : Bool
 wrap : Bool

namespace Search

section

variable (s : Search)

def odpCoreIsEnabled (coreId : Nat) : Bool :=
 if maxCore ≤ coreId then false else s.coreRole coreId != .roleOff

/-- `i++`, reduced with `wrap`. -/
def advance (i : Nat) : Nat := if s.wrap then add32 i 1%maxCore else add32 i 1

/-- The `while` loop; `none` if it still runs after the rounds. -/
def nextLoop : Nat → Nat → Option Nat
 | 0,_ => none
 | rounds+1,i =>
  if i < maxCore then
   if !s.odpCoreIsEnabled i || (s.skipMaster && i == s.bspCore) then nextLoop rounds (s.advance i)
   else some i
  else some i

def odpGetNextCore (rounds i : Nat) : Option Nat := s.nextLoop rounds (s.advance i)

def eligible (c : Nat) : Bool := s.coreRole c != .roleOff && !(s.skipMaster && c == s.bspCore)

/-- The cores after `i`: all of them in cyclic order with `wrap`, otherwise those above it. -/
def coresAfter (i : Nat) : List Nat :=
 let start := if i = 2^32-1 then 0 else i+1
 if s.wrap then (range maxCore).map fun k => (i+1+k)%maxCore else range' start (maxCore-start)

end

variable {s : Search} {i : Nat}

lemma nextLoop_succ (hi : i < maxCore) (n : Nat) :
 s.nextLoop (n+1) i = if s.eligible i then some i else s.nextLoop n (s.advance i) := by
 rw [nextLoop,odpCoreIsEnabled,if_pos hi,if_neg (not_le.mpr hi),eligible]
 cases s.coreRole i != .roleOff <;> cases s.skipMaster && i == s.bspCore <;> rfl

lemma nextLoop_wrap (hwrap : s.wrap = true) (n i : Nat) :
 s.nextLoop n (s.advance i) = ((range n).map fun k => (i+1+k)%maxCore).find? s.eligible := by
 have hadvance : ∀ i, s.advance i = (i+1)%maxCore := by
  simp only [advance,add32,maxCore,if_pos hwrap]
  omega
 induction n generalizing i with
 | zero => rfl
 | succ n ih =>
  have hrest : (fun k => (s.advance i+1+k)%maxCore) = (fun k => (i+1+k)%maxCore) ∘ Nat.succ := by
   funext k
   simp only [hadvance,maxCore,Function.comp_apply]
   omega
  rw [nextLoop_succ (hadvance i ▸ Nat.mod_lt _ (by decide)),ih,hrest,range_succ_eq_map,
   map_cons,map_map,find?_cons,hadvance]
  cases s.eligible ((i+1)%maxCore) <;> rfl

lemma nextLoop_up (hwrap : s.wrap = false) (n : Nat) (hi : i+n = maxCore) :
 s.nextLoop (n+1) i = some (((range' i n).find? s.eligible).getD maxCore) := by
 induction n generalizing i with
 | zero =>
  rw [nextLoop,if_neg (by omega),← hi]
  rfl
 | succ n ih =>
  have hnext : s.advance i = i+1 := by
   simp only [advance,add32,hwrap,maxCore,Bool.false_eq_true,if_false] at *
   omega
  rw [nextLoop_succ (by omega),hnext,ih (by omega),range'_succ,find?_cons]
  cases s.eligible i <;> rfl

/-- With `wrap` some core is eligible. -/
def Ends (s : Search) : Prop := s.wrap = true → ∃ c < maxCore, s.eligible c = true

lemma Ends.found (hi : i < maxCore ∨ i = 2^32-1) (hany : s.Ends) : ∃ rounds ≤ maxCore+1,
 s.odpGetNextCore rounds i = some (((s.coresAfter i).find? s.eligible).getD maxCore) := by
 cases hwrap : s.wrap with
 | true =>
  obtain ⟨c,hc,he⟩ := hany hwrap
  refine ⟨maxCore,Nat.le_succ _,(nextLoop_wrap hwrap ..).trans ?_⟩
  have hmem : c ∈ (range maxCore).map fun k => (i+1+k)%maxCore := by
   refine mem_map.mpr ⟨(c+(maxCore-(i+1)%maxCore))%maxCore,?_⟩
   simp only [mem_range,maxCore] at *
   omega
  obtain ⟨x,hx⟩ := Option.isSome_iff_exists.mp (find?_isSome.mpr ⟨c,hmem,he⟩)
  simp only [coresAfter,hwrap,if_true,hx,Option.getD_some]
 | false =>
  have hstart : s.advance i = (if i = 2^32-1 then 0 else i+1) ∧ s.advance i ≤ maxCore := by
   simp only [advance,add32,hwrap,maxCore,Bool.false_eq_true,if_false] at *
   split <;> omega
  refine ⟨maxCore-s.advance i+1,by omega,?_⟩
  simp only [coresAfter,← hstart.1,hwrap]
  exact nextLoop_up hwrap _ (by omega)

lemma ends_of_returns {rounds c : Nat} (h : s.odpGetNextCore rounds i = some c) : s.Ends := by
 intro hwrap
 rw [odpGetNextCore,nextLoop_wrap hwrap] at h
 obtain ⟨k,-,rfl⟩ := mem_map.mp (mem_of_find?_eq_some h)
 exact ⟨_,Nat.mod_lt _ (by decide),find?_some h⟩

/-- The loop ends, and then with the next core in at most 129 rounds, exactly if with `wrap` there
is one. -/
theorem next_core_first (hi : i < maxCore ∨ i = 2^32-1) :
 ((∃ rounds, s.odpGetNextCore rounds i = some (((s.coresAfter i).find? s.eligible).getD maxCore)) ↔
  s.Ends) ∧
 ((∃ rounds c, s.odpGetNextCore rounds i = some c) → ∃ rounds ≤ maxCore+1,
  s.odpGetNextCore rounds i = some (((s.coresAfter i).find? s.eligible).getD maxCore)) := by
 refine ⟨⟨fun ⟨_,h⟩ => ends_of_returns h,fun h => ?_⟩,fun ⟨_,_,h⟩ => (ends_of_returns h).found hi⟩
 obtain ⟨rounds,-,hfound⟩ := h.found hi
 exact ⟨rounds,hfound⟩

/-- The master is skipped. -/
theorem next_core_first_two : ∃ rounds,
 odpGetNextCore ⟨fun c => if c < 4 then .roleOdp else .roleOff,2,true,true⟩ rounds 1 = some 3 :=
 (next_core_first (.inl (by decide))).1.mpr fun _ => ⟨3,by decide,by decide⟩

/-- Only the master is enabled. -/
theorem next_core_forever : ∃ coreRole, ∀ rounds i,
 odpGetNextCore ⟨coreRole,0,true,true⟩ rounds i = none := by
 refine ⟨fun c => if c = 0 then .roleOdp else .roleOff,fun rounds i => ?_⟩
 rw [odpGetNextCore,nextLoop_wrap rfl,find?_eq_none]
 intro c _
 by_cases hc : c = 0 <;> simp [eligible,hc]

end Search

end Packages.Coremask

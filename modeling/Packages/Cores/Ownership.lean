import Packages.Cores.Model
import Packages.Lib.Mask

/-!
# Owners of cores

What the calls have returned says which cores are bound. The status words agree with it as long as
no two detected cores have the same bit: the shift of an `int` gives 32 different bits, for the 64
cores of a word.
-/

namespace Packages.Cores

open Function List

-- The bits of the cores

/-- The word of a core. -/
def word (c : CoreId) : Fin 2 := ⟨c.val/64,by omega⟩

lemma statusIndex_eq (c : CoreId) : statusIndex c = some (word c) := by
 revert c
 decide +kernel

lemma lcoreBit_eq (c : CoreId) : lcoreBit c = (1#32 <<< (c.val%32)).signExtend 64 := by
 have hcount : (c.val &&& 63)%32 = c.val%32 := by
  revert c
  decide
 rw [lcoreBit,hcount]

lemma shift_ne_zero : ∀ i : Fin 32, (1#32 <<< i.val).signExtend 64 ≠ 0 := by decide +kernel

lemma shift_disjoint : ∀ i j : Fin 32, i ≠ j →
 (1#32 <<< i.val).signExtend 64 &&& (1#32 <<< j.val).signExtend 64 = 0 := by
 decide +kernel

lemma lcoreBit_ne_zero (c : CoreId) : lcoreBit c ≠ 0 := by
 rw [lcoreBit_eq]
 exact shift_ne_zero ⟨c.val%32,Nat.mod_lt _ (by decide)⟩

lemma lcoreBit_disjoint {c d : CoreId} (h : c.val%32 ≠ d.val%32) :
 lcoreBit c &&& lcoreBit d = 0 := by
 rw [lcoreBit_eq,lcoreBit_eq]
 exact shift_disjoint ⟨c.val%32,Nat.mod_lt _ (by decide)⟩ ⟨d.val%32,Nat.mod_lt _ (by decide)⟩
  fun heq => h (congrArg Fin.val heq)

/-- The status words say that the core is bound. -/
def Holds (status : LcoreStatus) (c : CoreId) : Prop := Mask.Has (status (word c)) (lcoreBit c)

instance (status : LcoreStatus) (c : CoreId) : Decidable (Holds status c) :=
 inferInstanceAs (Decidable (Mask.Has _ _))

def setCore (status : LcoreStatus) (c : CoreId) : LcoreStatus :=
 update status (word c) (status (word c) ||| lcoreBit c)

def clearCore (status : LcoreStatus) (c : CoreId) : LcoreStatus :=
 update status (word c) (status (word c) &&& ~~~lcoreBit c)

/-- No two detected cores have the same bit of the same word. -/
def Separate (detected : CoreId → Bool) : Prop :=
 ∀ c d : CoreId, detected c = true → detected d = true → c.val/64 = d.val/64 →
  c.val%32 = d.val%32 → c = d

variable {detected : CoreId → Bool} {status : LcoreStatus} {c d : CoreId}

section

variable (h : Separate detected) (hc : detected c = true) (hd : detected d = true)

include h hc hd

lemma Separate.disjoint (hne : d ≠ c) (hword : word d = word c) :
 lcoreBit c &&& lcoreBit d = 0 := by
 apply lcoreBit_disjoint
 intro heq
 exact hne (h c d hc hd (congrArg Fin.val hword).symm heq).symm

lemma holds_setCore : Holds (setCore status c) d ↔ d = c ∨ Holds status d := by
 by_cases hdc : d = c
 · subst hdc
   rw [Holds,setCore,update_self]
   exact ⟨fun _ => .inl rfl,fun _ => Mask.has_set (lcoreBit_ne_zero d)⟩
 · rw [Holds,setCore]
   by_cases hword : word d = word c
   · rw [hword,update_self,Mask.has_set_of_disjoint (h.disjoint hc hd hdc hword),Holds,hword]
     exact (or_iff_right hdc).symm
   · rw [update_of_ne hword]
     exact (or_iff_right hdc).symm

lemma holds_clearCore : Holds (clearCore status c) d ↔ d ≠ c ∧ Holds status d := by
 by_cases hdc : d = c
 · subst hdc
   rw [Holds,clearCore,update_self]
   exact ⟨fun hhas => absurd hhas Mask.not_has_clear,fun hne => absurd rfl hne.1⟩
 · rw [Holds,clearCore]
   by_cases hword : word d = word c
   · rw [hword,update_self,Mask.has_clear_of_disjoint (h.disjoint hc hd hdc hword),Holds,hword]
     exact (and_iff_right hdc).symm
   · rw [update_of_ne hword]
     exact (and_iff_right hdc).symm

end

-- The calls

lemma bind_eq (detected : CoreId → Bool) (status : LcoreStatus) (c : CoreId) :
 odpBindProcToLcore detected status c =
  if detected c = true ∧ ¬Holds status c then (setCore status c,0) else (status,-1) := by
 rw [odpBindProcToLcore,statusIndex_eq]
 by_cases hc : detected c = true
 · by_cases hholds : Holds status c
   · rw [if_pos hc,if_neg fun h => h.2 hholds]
     exact if_pos hholds
   · rw [if_pos hc,if_pos ⟨hc,hholds⟩]
     exact if_neg hholds
 · rw [if_neg hc,if_neg fun h => hc h.1]

lemma unbind_eq (detected : CoreId → Bool) (status : LcoreStatus) (c : CoreId) :
 odpUnbindProcToLcore detected status c =
  if detected c = true then (clearCore status c,0) else (status,-1) := by
 rw [odpUnbindProcToLcore,statusIndex_eq]
 have hmask : 0xffffffffffffffff#64 ^^^ lcoreBit c = ~~~lcoreBit c := BitVec.allOnes_xor
 rw [hmask,clearCore]

lemma check_eq (detected : CoreId → Bool) (status : LcoreStatus) (c : CoreId) :
 odpCheckCpuStatus detected status c =
  if detected c = true then if Holds status c then 1 else 0 else -1 := by
 rw [odpCheckCpuStatus,statusIndex_eq]
 dsimp only
 rw [BitVec.and_comm]
 rfl

lemma availableFrom_eq (detected : CoreId → Bool) (status : LcoreStatus) (cpuIds : List CoreId) :
 availableFrom detected status cpuIds =
  match cpuIds.find? fun c => detected c = true ∧ ¬Holds status c with
  | some c => (setCore status c,(c.val : Int))
  | none => (status,-1) := by
 induction cpuIds with
 | nil => rfl
 | cons c cpuIds ih =>
  rw [availableFrom,statusIndex_eq]
  dsimp only
  by_cases hfree : detected c = true ∧ ¬Holds status c
  · rw [find?_cons_of_pos (by simpa using hfree),if_pos ⟨Decidable.not_not.mp hfree.2,hfree.1⟩]
    rfl
  · rw [find?_cons_of_neg (by simpa using hfree),if_neg fun h => hfree ⟨h.2,not_not.mpr h.1⟩,ih]

lemma find?_finRange {n : Nat} {p : Fin n → Bool} {i : Fin n} :
 (finRange n).find? p = some i ↔ IsLeast {i | p i = true} i := by
 rw [find?_eq_some_iff_getElem]
 constructor
 · rintro ⟨hi,j,hj,hget,hbefore⟩
   refine ⟨hi,fun k hk => ?_⟩
   rw [getElem_finRange] at hget
   by_contra hlt
   have hkj : k.val < j := by
    have hval := congrArg Fin.val hget
    simp only [Fin.val_cast] at hval
    omega
   have hk' := hbefore k.val hkj
   exact absurd hk (by simpa using hk')
 · rintro ⟨hi,hleast⟩
   refine ⟨hi,i.val,by simp,by simp,fun k hk => ?_⟩
   have hle : ¬p ⟨k,lt_trans hk i.isLt⟩ = true := fun hp => absurd (hleast hp) (not_le.mpr hk)
   simpa using hle

-- Runs

/-- What a call and its result say about the bound cores. -/
def track (bound : Finset CoreId) : Call × Int → Finset CoreId
 | (.bind c,result) => if result = 0 then insert c bound else bound
 | (.unbind c,_) => bound.erase c
 | (.getAvailable,result) => bound ∪ Finset.univ.filter fun c => (c.val : Int) = result

/-- The cores that were bound and not unbound since. -/
def bound (history : List (Call × Int)) : Finset CoreId := history.foldl track ∅

/-- The detected cores that the status words say are bound. -/
def held (detected : CoreId → Bool) (status : LcoreStatus) : Finset CoreId :=
 Finset.univ.filter fun c => detected c = true ∧ Holds status c

lemma mem_held : c ∈ held detected status ↔ detected c = true ∧ Holds status c := by simp [held]

lemma held_setCore (h : Separate detected) (hc : detected c = true) :
 held detected (setCore status c) = insert c (held detected status) := by
 ext d
 rw [mem_held,Finset.mem_insert,mem_held]
 constructor
 · rintro ⟨hd,hholds⟩
   exact ((holds_setCore h hc hd).mp hholds).imp_right fun hold => ⟨hd,hold⟩
 · rintro (rfl | ⟨hd,hholds⟩)
   · exact ⟨hc,(holds_setCore h hc hc).mpr (.inl rfl)⟩
   · exact ⟨hd,(holds_setCore h hc hd).mpr (.inr hholds)⟩

lemma held_clearCore (h : Separate detected) (hc : detected c = true) :
 held detected (clearCore status c) = (held detected status).erase c := by
 ext d
 rw [mem_held,Finset.mem_erase,mem_held]
 constructor
 · rintro ⟨hd,hholds⟩
   have hboth := (holds_clearCore h hc hd).mp hholds
   exact ⟨hboth.1,hd,hboth.2⟩
 · rintro ⟨hne,hd,hholds⟩
   exact ⟨hd,(holds_clearCore h hc hd).mpr ⟨hne,hholds⟩⟩

lemma getAvailable_cases (detected : CoreId → Bool) (status : LcoreStatus) :
 (∃ c, IsLeast {c | detected c = true ∧ c ∉ held detected status} c ∧
  odpGetAvailableCpu detected status = (setCore status c,(c.val : Int))) ∨
 (∀ c, detected c = true → c ∈ held detected status) ∧
  odpGetAvailableCpu detected status = (status,-1) := by
 rw [odpGetAvailableCpu,availableFrom_eq]
 cases hfind : (finRange 128).find? fun c => detected c = true ∧ ¬Holds status c with
 | some c =>
  left
  refine ⟨c,?_,rfl⟩
  have hset : {c | detected c = true ∧ c ∉ held detected status} =
   {c | decide (detected c = true ∧ ¬Holds status c) = true} := by
   ext d
   simp only [mem_held,decide_eq_true_iff]
   exact ⟨fun hd => ⟨hd.1,fun hholds => hd.2 ⟨hd.1,hholds⟩⟩,fun hd =>
    ⟨hd.1,fun hboth => hd.2 hboth.2⟩⟩
  rw [hset]
  exact find?_finRange.mp hfind
 | none =>
  right
  refine ⟨fun c hc => ?_,rfl⟩
  have hnot := find?_eq_none.mp hfind c (mem_finRange c)
  rw [decide_eq_true_iff] at hnot
  exact mem_held.mpr ⟨hc,Decidable.byContradiction fun hfree => hnot ⟨hc,hfree⟩⟩

lemma held_call (h : Separate detected) (status : LcoreStatus) (a : Call) :
 held detected (call detected status a).1 =
  track (held detected status) (a,(call detected status a).2) := by
 cases a with
 | bind c =>
  rw [call,bind_eq]
  split
  · next hfree => exact held_setCore h hfree.1
  · rfl
 | unbind c =>
  rw [call,unbind_eq]
  split
  · next hc => exact held_clearCore h hc
  · next hc =>
    have hnot : c ∉ held detected status := fun hmem => hc (mem_held.mp hmem).1
    exact (Finset.erase_eq_of_notMem hnot).symm
 | getAvailable =>
  rw [call]
  obtain ⟨c,hleast,heq⟩ | ⟨-,heq⟩ := getAvailable_cases detected status
  · rw [heq,held_setCore h hleast.1.1]
    ext d
    simp only [track,Finset.mem_insert,Finset.mem_union,Finset.mem_filter,Finset.mem_univ,true_and,
     Fin.ext_iff,Int.natCast_inj]
    exact or_comm
  · rw [heq]
    ext d
    simp only [track,Finset.mem_union,Finset.mem_filter]
    refine ⟨.inl,fun hd => hd.resolve_right fun hneg => ?_⟩
    omega

lemma held_eq_bound (h : Separate detected) {s : State} (hs : Reachable detected s) :
 held detected s.status = bound s.history := by
 refine hs.invariant (P := fun s => held detected s.status = bound s.history) ?_ ?_
 · rintro _ rfl
   ext c
   rw [mem_held]
   exact ⟨fun hc => absurd hc.2 (Mask.not_has_zero _),fun hc => absurd hc (Finset.notMem_empty c)⟩
 · intro s a s' ih _ hstep
   cases hstep
   rw [bound,foldl_append,← bound,← ih]
   exact held_call h s.status a

/-- The core that a call with this result is about. -/
def Call.About (a : Call) (result : Int) (c : CoreId) : Prop :=
 match a with
 | .bind d => c = d
 | .unbind d => c = d
 | .getAvailable => (c.val : Int) = result

lemma track_of_not_about {b : Finset CoreId} {a : Call} {result : Int} (h : ¬a.About result c) :
 c ∈ track b (a,result) ↔ c ∈ b := by
 cases a with
 | bind d =>
  rw [track]
  split
  · rw [Finset.mem_insert]
    exact or_iff_right h
  · rfl
 | unbind d =>
  rw [track,Finset.mem_erase]
  exact and_iff_right h
 | getAvailable =>
  rw [track,Finset.mem_union,Finset.mem_filter]
  exact or_iff_left fun hc => h hc.2

lemma check_eq_one_iff : odpCheckCpuStatus detected status c = 1 ↔ c ∈ held detected status := by
 rw [check_eq,mem_held]
 by_cases hc : detected c = true
 · by_cases hholds : Holds status c <;> simp [hc]
 · simp [hc]

lemma check_congr {status' : LcoreStatus}
 (h : c ∈ held detected status' ↔ c ∈ held detected status) :
 odpCheckCpuStatus detected status' c = odpCheckCpuStatus detected status c := by
 rw [check_eq,check_eq]
 by_cases hc : detected c = true
 · have hholds : Holds status' c ↔ Holds status c := by
    rw [mem_held,mem_held] at h
    exact ⟨fun hs => (h.mp ⟨hc,hs⟩).2,fun hs => (h.mpr ⟨hc,hs⟩).2⟩
   simp only [hholds]
 · rw [if_neg hc,if_neg hc]

/-- In every reachable state the calls answer by the cores that are bound, and change no other core.
Detected cores must differ in their bits. -/
theorem core_ownership (detected : CoreId → Bool) (hseparate : Separate detected) (s : State)
 (hs : Reachable detected s) :
 (∀ c, odpCheckCpuStatus detected s.status c = 1 ↔ detected c = true ∧ c ∈ bound s.history) ∧
 (∀ c, (odpBindProcToLcore detected s.status c).2 = 0 ↔
  detected c = true ∧ c ∉ bound s.history) ∧
 ((∃ c, IsLeast {c | detected c = true ∧ c ∉ bound s.history} c ∧
  (odpGetAvailableCpu detected s.status).2 = c.val) ∨
  (∀ c, detected c = true → c ∈ bound s.history) ∧
   (odpGetAvailableCpu detected s.status).2 = -1) ∧
 ∀ a c, ¬a.About (call detected s.status a).2 c →
  odpCheckCpuStatus detected (call detected s.status a).1 c =
   odpCheckCpuStatus detected s.status c := by
 have hbound := held_eq_bound hseparate hs
 refine ⟨fun c => ?_,fun c => ?_,?_,fun a c habout => ?_⟩
 · rw [check_eq_one_iff,← hbound]
   exact ⟨fun hc => ⟨(mem_held.mp hc).1,hc⟩,And.right⟩
 · rw [bind_eq,← hbound,mem_held]
   by_cases hfree : detected c = true ∧ ¬Holds s.status c
   · rw [if_pos hfree]
     exact ⟨fun _ => ⟨hfree.1,fun hboth => hfree.2 hboth.2⟩,fun _ => rfl⟩
   · rw [if_neg hfree]
     refine ⟨fun hneg => absurd hneg (by simp),fun hc => absurd ⟨hc.1,fun hholds => ?_⟩ hfree⟩
     exact hc.2 ⟨hc.1,hholds⟩
 · rw [← hbound]
   obtain ⟨c,hleast,heq⟩ | ⟨hall,heq⟩ := getAvailable_cases detected s.status
   · exact .inl ⟨c,hleast,by rw [heq]⟩
   · exact .inr ⟨hall,by rw [heq]⟩
 · apply check_congr
   rw [held_call hseparate]
   exact track_of_not_about habout

/-- The lower half of each word is detected. -/
def lowerHalves (c : CoreId) : Bool := c.val%64 < 32

lemma separate_lowerHalves : Separate lowerHalves := by
 intro c d hc hd hword hbit
 have hc := of_decide_eq_true hc
 have hd := of_decide_eq_true hd
 apply Fin.ext
 omega

/-- Core 31, whose bit is the sign of the `int`, is bound and unbound between other cores. -/
theorem core_ownership_lowerHalves : ∃ s, Reachable lowerHalves s ∧
 bound s.history = {0,3,95} ∧ (∀ c, odpCheckCpuStatus lowerHalves s.status c = 1 ↔
  lowerHalves c = true ∧ c ∈ bound s.history) := by
 obtain ⟨s,hs,hbound⟩ := Transition.Reach.exists_of_run
  (.start rfl : Reachable lowerHalves start) [.bind 31,.bind 3,.bind 95,.unbind 31,.getAvailable]
  (fun s => bound s.history = {0,3,95}) (by decide +kernel)
 exact ⟨s,hs,hbound,(core_ownership lowerHalves separate_lowerHalves s hs).1⟩

/-- With all cores detected, binding core 0 binds core 32 as well. -/
theorem core_ownership_shared_bit : ∃ s, Reachable (fun _ => true) s ∧ bound s.history = {0} ∧
 odpCheckCpuStatus (fun _ => true) s.status 32 = 1 ∧
 (odpBindProcToLcore (fun _ => true) s.status 32).2 = -1 ∧
 odpCheckCpuStatus (fun _ => true) (odpUnbindProcToLcore (fun _ => true) s.status 32).1 0 = 0 := by
 exact Transition.Reach.exists_of_run
  (.start rfl : Reachable (fun _ => true) start) [.bind 0] _ (by decide +kernel)

end Packages.Cores

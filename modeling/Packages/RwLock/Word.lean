import Packages.RwLock.Model

/-!
# The lock word and the threads

A reader that is `d` levels deep has the inner lock `⌈d / 256⌉` times: its 8-bit count is `d` modulo
256, and whenever that is zero the inner lock is taken once more on the way in and given back on the
way out. The lock word counts these over all threads, or says that the one writer has the lock.
-/

namespace Packages.RwLock

open Function Finset

open Transition

variable {n : Nat} {s s' : State n} {t u : Fin n}

-- Threads

/-- What belongs to one thread. -/
structure View where
 pc : Pc
 rdCnt : Nat
 rdDepth : Nat
 wrDepth : Nat

def State.viewAt (s : State n) (t : Fin n) (pc : Pc) : View :=
 ⟨pc,s.lock.rdCnt t,s.rdDepth t,s.wrDepth t⟩

def State.view (s : State n) (t : Fin n) : View := s.viewAt t (s.pc t)

namespace View

/-- How often the thread has the inner lock as a reader. -/
def inner (v : View) : Nat :=
 match v.pc with
 | .rdSet | .rdDec | .rdRetest | .rdSub => v.rdDepth/2^8+1
 | _ => (v.rdDepth+(2^8-1))/2^8

/-- The thread has the inner lock as the writer. -/
def writes (v : View) : Bool :=
 match v.pc with
 | .wrOwn | .wrSet | .wrDec | .wrDecStore _ | .wrRetest | .wrDisown | .wrStore => true
 | _ => 0 < v.wrDepth

/-- The 8-bit count. -/
def Reads (v : View) : Prop :=
 match v.pc with
 | .rdInc => v.rdCnt = v.rdDepth%2^8 ∧ v.rdDepth%2^8 ≠ 0
 | .rdLoad | .rdSet | .rdSub => v.rdCnt = v.rdDepth%2^8 ∧ v.rdDepth%2^8 = 0
 | .rdCas cnt => v.rdCnt = v.rdDepth%2^8 ∧ v.rdDepth%2^8 = 0 ∧ cnt < 2^31
 | .rdDec => v.rdCnt = (v.rdDepth+1)%2^8
 | _ => v.rdCnt = v.rdDepth%2^8

/-- One kind at a time. -/
def Kinds (v : View) : Prop :=
 match v.pc with
 | .idle => v.rdDepth = 0 ∨ v.wrDepth = 0
 | .rdTest | .rdInc | .rdLoad | .rdCas _ | .rdSet | .rdDec | .rdRetest | .rdSub => v.wrDepth = 0
 | _ => v.rdDepth = 0

/-- What the thread knows about the owner and the count of the writer. -/
def Owns (t : Fin n) (wrOwner : Option (Fin n)) (wrCnt : Nat) (v : View) : Prop :=
 match v.pc with
 | .wrTest => v.wrDepth+1 < 2^32 ∧ (0 < v.wrDepth → wrOwner = some t ∧ wrCnt = v.wrDepth)
 | .wrInc => v.wrDepth+1 < 2^32 ∧ 0 < v.wrDepth ∧ wrOwner = some t ∧ wrCnt = v.wrDepth
 | .wrIncStore cnt => v.wrDepth+1 < 2^32 ∧ 0 < v.wrDepth ∧ wrOwner = some t ∧ cnt = v.wrDepth
 | .wrLoad | .wrCas => v.wrDepth = 0
 | .wrOwn | .wrStore => v.wrDepth = 0 ∧ wrOwner = none
 | .wrSet | .wrDisown => v.wrDepth = 0 ∧ wrOwner = some t
 | .wrDec => v.wrDepth+1 < 2^32 ∧ wrOwner = some t ∧ wrCnt = v.wrDepth+1
 | .wrDecStore cnt => v.wrDepth+1 < 2^32 ∧ wrOwner = some t ∧ cnt = v.wrDepth+1
 | .wrRetest => v.wrDepth < 2^32 ∧ wrOwner = some t ∧ wrCnt = v.wrDepth
 | _ => 0 < v.wrDepth → v.wrDepth < 2^32 ∧ wrOwner = some t ∧ wrCnt = v.wrDepth

lemma Owns.congr {v : View} {wrOwner wrOwner' : Option (Fin n)} {wrCnt wrCnt' : Nat}
 (h : v.Owns t wrOwner wrCnt) (hwrites : v.writes = false) : v.Owns t wrOwner' wrCnt' := by
 obtain ⟨pc,rdCnt,rdDepth,wrDepth⟩ := v
 cases pc with
 | wrOwn | wrSet | wrDec | wrDecStore | wrRetest | wrDisown | wrStore => cases hwrites
 | wrTest => exact ⟨h.1,fun hpos => absurd hpos (of_decide_eq_false hwrites)⟩
 | wrInc | wrIncStore => exact absurd h.2.1 (of_decide_eq_false hwrites)
 | wrLoad | wrCas => exact h
 | idle | rdTest | rdInc | rdLoad | rdCas | rdSet | rdDec | rdRetest | rdSub =>
  exact fun hpos => absurd hpos (of_decide_eq_false hwrites)

lemma writes_of_pos {v : View} (h : 0 < v.wrDepth) : v.writes = true := by
 unfold writes
 split
 all_goals first | rfl | exact decide_eq_true h

lemma rdDepth_of_inner {v : View} (h : v.inner = 0) : v.rdDepth = 0 := by
 unfold inner at h
 split at h
 all_goals omega

end View

-- The lock word

/-- One writer, or so many readers as the word says. -/
def Word (cnt : Nat) (views : Fin n → View) : Prop :=
 (∃ w, (∀ t, (views t).writes = true ↔ t = w) ∧ cnt = 2^32-1 ∧ ∀ t, (views t).inner = 0) ∨
 ((∀ t, (views t).writes = false) ∧ cnt = ∑ t, (views t).inner ∧ cnt ≤ 2^31)

variable {cnt : Nat} {views : Fin n → View} {v : View}

lemma sum_inner_update (views : Fin n → View) (t : Fin n) (v : View) :
 ∑ u, (update views t v u).inner+(views t).inner = ∑ u, (views u).inner+v.inner := by
 have hself := add_sum_erase univ (fun u => (views u).inner) (mem_univ t)
 have hnew := add_sum_erase univ (fun u => (update views t v u).inner)
  (mem_univ t)
 have hrest : ∑ u ∈ univ.erase t, (update views t v u).inner =
  ∑ u ∈ univ.erase t, (views u).inner :=
  sum_congr rfl fun u hu => by rw [update_of_ne (ne_of_mem_erase hu)]
 simp only [update_self] at hself hnew
 omega

namespace Word

lemma keep (h : Word cnt views) (hwrites : v.writes = (views t).writes)
 (hinner : v.inner = (views t).inner) : Word cnt (update views t v) := by
 have hw : ∀ u, (update views t v u).writes = (views u).writes := by
  intro u
  by_cases hu : u = t
  · rw [hu,update_self,hwrites]
  · rw [update_of_ne hu]
 have hi : ∀ u, (update views t v u).inner = (views u).inner := by
  intro u
  by_cases hu : u = t
  · rw [hu,update_self,hinner]
  · rw [update_of_ne hu]
 unfold Word
 simp only [hw,hi]
 exact h

lemma readIn (h : Word cnt views) (hcnt : cnt < 2^31) (hwrites : v.writes = false)
 (hinner : v.inner = (views t).inner+1) : Word (cnt+1) (update views t v) := by
 obtain ⟨w,-,hword,-⟩ | ⟨hnone,hsum,-⟩ := h
 · omega
 · refine .inr ⟨fun u => ?_,?_,hcnt⟩
   · by_cases hu : u = t
     · rw [hu,update_self,hwrites]
     · rw [update_of_ne hu,hnone]
   · have hupdate := sum_inner_update views t v
     omega

lemma readOut (h : Word cnt views) (hwrites : v.writes = false)
 (hinner : v.inner+1 = (views t).inner) : Word (sub32 cnt 1) (update views t v) := by
 obtain ⟨w,-,-,hzero⟩ | ⟨hnone,hsum,hle⟩ := h
 · rw [hzero t] at hinner
   cases hinner
 · have hupdate := sum_inner_update views t v
   have hsub : sub32 cnt 1 = cnt-1 := sub32_of_le (by omega) (by omega)
   refine .inr ⟨fun u => ?_,by omega,by omega⟩
   by_cases hu : u = t
   · rw [hu,update_self,hwrites]
   · rw [update_of_ne hu,hnone]

lemma writeIn (h : Word 0 views) (hwrites : v.writes = true) (hinner : v.inner = 0) :
 Word (2^32-1) (update views t v) := by
 obtain ⟨w,-,hword,-⟩ | ⟨hnone,hsum,-⟩ := h
 · cases hword
 · have hzero : ∀ u, (views u).inner = 0 := fun u =>
    sum_eq_zero_iff.mp hsum.symm u (mem_univ u)
   refine .inl ⟨t,fun u => ?_,rfl,fun u => ?_⟩
   · by_cases hu : u = t
     · rw [hu,update_self]
       exact iff_of_true hwrites rfl
     · rw [update_of_ne hu,hnone]
       exact iff_of_false nofun hu
   · by_cases hu : u = t
     · rw [hu,update_self,hinner]
     · rw [update_of_ne hu,hzero]

lemma writeOut (h : Word cnt views) (hbefore : (views t).writes = true) (hwrites : v.writes = false)
 (hinner : v.inner = 0) : Word 0 (update views t v) := by
 obtain ⟨w,hall,-,hzero⟩ | ⟨hnone,-⟩ := h
 · obtain rfl := (hall t).mp hbefore
   refine .inr ⟨fun u => ?_,?_,Nat.zero_le _⟩
   · by_cases hu : u = t
     · rw [hu,update_self,hwrites]
     · rw [update_of_ne hu]
       exact Bool.eq_false_iff.mpr fun hw => hu ((hall u).mp hw)
   · have hupdate := sum_inner_update views t v
     rw [sum_eq_zero fun u _ => hzero u,hzero t,hinner] at hupdate
     omega
 · cases (hnone t).symm.trans hbefore

lemma alone (h : Word cnt views) (ht : (views t).writes = true) :
 (∀ u, (views u).writes = true → u = t) ∧ ∀ u, (views u).inner = 0 := by
 obtain ⟨w,hall,-,hzero⟩ | ⟨hnone,-⟩ := h
 · obtain rfl := (hall t).mp ht
   exact ⟨fun u => (hall u).mp,hzero⟩
 · cases (hnone t).symm.trans ht

end Word

end Packages.RwLock

import Mathlib

/-!
# Counters in lockstep

Finitely many parties count rounds and are never more than one round apart. `ahead a k` is how many
of them have counted past round `k`.
-/

namespace Packages

open Function Finset

variable {ι : Type*} {a : ι → Nat} {i : ι} {k : Nat}

/-- Every counter is at `k` or one ahead, and not all of them are ahead. -/
structure Lockstep (a : ι → Nat) (k : Nat) : Prop where
 le : ∀ i, k ≤ a i
 le_succ : ∀ i, a i ≤ k+1
 behind : ∃ i, a i = k

lemma Lockstep.of_forall [Nonempty ι] (h : ∀ i, a i = k) : Lockstep a k :=
 ⟨fun i => Nat.le_of_eq (h i).symm,fun i => h i ▸ Nat.le_succ k,⟨Classical.arbitrary ι,h _⟩⟩

variable [Fintype ι]

def ahead (a : ι → Nat) (k : Nat) : Nat := (univ.filter fun i => k < a i).card

lemma Lockstep.ahead_lt (h : Lockstep a k) : ahead a k < Fintype.card ι := by
 obtain ⟨i,hi⟩ := h.behind
 apply card_lt_univ_of_notMem (x := i)
 simp [hi]

lemma ahead_of_forall (h : ∀ i, a i = k) : ahead a k = 0 := by
 rw [ahead,card_eq_zero,filter_eq_empty_iff]
 intro i _
 rw [h i]
 exact lt_irrefl k

variable [DecidableEq ι]

lemma ahead_update (hi : a i = k) : ahead (update a i (k+1)) k = ahead a k+1 := by
 have hfilter : (univ.filter fun j => k < update a i (k+1) j) =
  insert i (univ.filter fun j => k < a j) := by
  ext j
  by_cases hj : j = i
  · subst hj
    simp
  · simp [hj]
 rw [ahead,hfilter,card_insert_of_notMem (by simp [hi])]
 rfl

namespace Lockstep

lemma count (h : Lockstep a k) (hi : a i = k) (hlt : ahead a k+1 < Fintype.card ι) :
 Lockstep (update a i (k+1)) k := by
 refine ⟨fun j => ?_,fun j => ?_,?_⟩
 · by_cases hj : j = i
   · rw [hj,update_self]
     exact Nat.le_succ k
   · rw [update_of_ne hj]
     exact h.le j
 · by_cases hj : j = i
   · rw [hj,update_self]
   · rw [update_of_ne hj]
     exact h.le_succ j
 · by_contra hnone
   have hall : ∀ j, k < update a i (k+1) j := by
    intro j
    by_cases hj : j = i
    · rw [hj,update_self]
      exact Nat.lt_succ_self k
    · rw [update_of_ne hj]
      have hne : a j ≠ k := fun heq => hnone ⟨j,by rw [update_of_ne hj,heq]⟩
      exact lt_of_le_of_ne (h.le j) hne.symm
   have hcard : ahead (update a i (k+1)) k = Fintype.card ι := by
    rw [ahead,filter_true_of_mem fun j _ => hall j,card_univ]
   rw [ahead_update hi] at hcard
   omega

lemma count_last (h : Lockstep a k) (hi : a i = k) (heq : ahead a k+1 = Fintype.card ι) (j : ι) :
 update a i (k+1) j = k+1 := by
 have hcard : ahead (update a i (k+1)) k = Fintype.card ι := by rw [ahead_update hi,heq]
 have huniv := eq_univ_of_card _ hcard
 have hj : j ∈ univ.filter fun j => k < update a i (k+1) j := by
  rw [huniv]
  exact mem_univ j
 have hlt := (mem_filter.mp hj).2
 by_cases hji : j = i
 · rw [hji,update_self]
 · rw [update_of_ne hji] at hlt ⊢
   exact le_antisymm (h.le_succ j) hlt

end Lockstep

end Packages

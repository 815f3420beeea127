import Mathlib

/-!
# Numbers resolved one after the other

A sequencer hands out numbers and resolves them in turn; `next` is the first one not resolved. Those
still to be resolved are kept in lists, each at one place. `Settles` is for code that advances
`next` past numbers that it takes off a list; with `Resolves` it may also lose numbers.
-/

namespace Packages.Resolution

open List

/-- Different numbers, none of them resolved. -/
structure Pending (l : List Nat) (next : Nat) : Prop where
 nodup : l.Nodup
 ge : ∀ o ∈ l, next ≤ o

/-- The numbers that `next` passes have left the list, and no others. -/
structure Settles (l l' : List Nat) (next next' : Nat) : Prop where
 le : next ≤ next'
 count : ∀ o, l'.count o+(if next ≤ o ∧ o < next' then 1 else 0) = l.count o

/-- Every number that `next` passes has left the list. -/
structure Resolves (l l' : List Nat) (next next' : Nat) : Prop where
 le : next ≤ next'
 count : ∀ o, l'.count o+(if next ≤ o ∧ o < next' then 1 else 0) ≤ l.count o

variable {l l1 l2 : List Nat} {a next next1 next2 : Nat}

namespace Pending

lemma tail_of_due (h : Pending (a::l) next) (hdue : a ≤ next) : a = next ∧ Pending l (next+1) := by
 have ha : a = next := le_antisymm hdue (h.ge a mem_cons_self)
 refine ⟨ha,h.nodup.of_cons,fun o ho => ?_⟩
 have hge := h.ge o (mem_cons_of_mem a ho)
 have hne : o ≠ a := fun heq => (nodup_cons.mp h.nodup).1 (heq ▸ ho)
 omega

end Pending

namespace Settles

lemma of_count_eq (h : ∀ o, l1.count o = l.count o) : Settles l l1 next next := by
 refine ⟨le_refl _,fun o => ?_⟩
 have hnot : ¬ (next ≤ o ∧ o < next) := by omega
 rw [if_neg hnot,h o,add_zero]

lemma refl (l : List Nat) (next : Nat) : Settles l l next next := of_count_eq fun _ => rfl

lemma head (l : List Nat) (next : Nat) : Settles (next::l) l next (next+1) := by
 refine ⟨Nat.le_succ _,fun o => ?_⟩
 by_cases ho : o = next
 · subst ho
   simp
 · have hnot : ¬ (next ≤ o ∧ o < next+1) := by omega
   rw [if_neg hnot]
   simp [Ne.symm ho]

lemma trans (h : Settles l l1 next next1) (h' : Settles l1 l2 next1 next2) :
 Settles l l2 next next2 := by
 refine ⟨le_trans h.le h'.le,fun o => ?_⟩
 have hle := h.le
 have hle' := h'.le
 have hcount := h.count o
 have hcount' := h'.count o
 split_ifs at hcount hcount' ⊢ <;> omega

lemma resolves (h : Settles l l1 next next1) : Resolves l l1 next next1 :=
 ⟨h.le,fun o => Nat.le_of_eq (h.count o)⟩

end Settles

namespace Resolves

lemma of_count_le (h : ∀ o, l1.count o ≤ l.count o) : Resolves l l1 next next := by
 refine ⟨le_refl _,fun o => ?_⟩
 have hnot : ¬ (next ≤ o ∧ o < next) := by omega
 rw [if_neg hnot]
 exact h o

lemma pending (h : Resolves l l1 next next1) (hp : Pending l next) : Pending l1 next1 := by
 have hone : ∀ o, l.count o ≤ 1 := nodup_iff_count.mp hp.nodup
 refine ⟨nodup_iff_count.mpr fun o => ?_,fun o ho => ?_⟩
 · have hcount := h.count o
   have := hone o
   omega
 · have hpos : 0 < l1.count o := count_pos_iff.mpr ho
   have hcount := h.count o
   have hge := hp.ge o (count_pos_iff.mp (by omega))
   have := hone o
   split_ifs at hcount <;> omega

end Resolves

end Packages.Resolution

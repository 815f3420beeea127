import Mathlib

/-!
# The sort of the huge pages

`sort_hpt_by_physaddr` keeps the number of the page with the lowest address in an `int`. Its caller
passes no more pages than fit into 1 GiB.
-/

namespace Packages.HugePages

open List

variable {α : Type*} (physaddr : α → Nat)

/-- An `unsigned` stored to an `int`. -/
def toInt (j : Nat) : Int := if j < 2^31 then j else j-2^32

inductive Stop
 /-- The function returns -1. -/
 | error
 /-- An access outside of the table. -/
 | outside

/-- An iteration of the inner loop: `compare_addr` and `compare_idx`. -/
def compare (tbl : Nat → α) (best : Nat × Int) (j : Nat) : Nat × Int :=
 if best.1 = 0 ∨ physaddr (tbl j) < best.1 then (physaddr (tbl j),toInt j) else best

/-- An iteration of the outer loop. -/
def exchange (n : Nat) (tbl : Nat → α) (i : Nat) : Except Stop (Nat → α) :=
 let idx := ((range' i (n-i)).foldl (compare physaddr tbl) (0,-1)).2
 if idx = -1 then .error .error else if idx < 0 then .error .outside
 else .ok (tbl ∘ Equiv.swap i idx.toNat)

/-- The table as the function leaves it when it returns 0. -/
def sortHptByPhysaddr (n : Nat) (tbl : Nat → α) : Except Stop (Nat → α) :=
 (range n).foldlM (exchange physaddr n) tbl

def pageMemoryMax : Nat := 1024*1024*1024

/-- `num_pages[0]` as `odp_hugepage_info_init` stores it, where `get_num_hugepages` has `free`
pages. -/
def numPages (free hugepageSz : Nat) : Nat := min (free%2^32) (pageMemoryMax/hugepageSz)

variable {physaddr} {tbl : Nat → α} {n i : Nat}

lemma compare_least {l : Nat} (hne : ∀ j ≤ i+l, physaddr (tbl j) ≠ 0) : ∃ m, i ≤ m ∧ m ≤ i+l ∧
 (range' i (l+1)).foldl (compare physaddr tbl) (0,-1) = (physaddr (tbl m),toInt m) ∧
 ∀ j, i ≤ j → j ≤ i+l → physaddr (tbl m) ≤ physaddr (tbl j) := by
 induction l with
 | zero =>
  refine ⟨i,le_refl i,le_refl i,by simp [compare],fun j hi hj => ?_⟩
  rw [le_antisymm hi hj]
 | succ l ih =>
  obtain ⟨m,him,hm,hfold,hleast⟩ := ih fun j hj => hne j (Nat.le_succ_of_le hj)
  rw [range'_1_concat,foldl_concat,hfold]
  by_cases hlt : physaddr (tbl (i+(l+1))) < physaddr (tbl m)
  · refine ⟨i+(l+1),by omega,le_refl _,if_pos (.inr hlt),fun j hi hj => ?_⟩
    obtain hj | rfl := Nat.le_succ_iff.mp hj
    · exact hlt.le.trans (hleast j hi hj)
    · exact le_refl _
  · refine ⟨m,him,by omega,if_neg (by simp [hne m (by omega),hlt]),fun j hi hj => ?_⟩
    obtain hj | rfl := Nat.le_succ_iff.mp hj
    · exact hleast j hi hj
    · exact Nat.le_of_not_lt hlt

lemma swap_lt {m : Nat} (hi : i < n) (hm : m < n) {j : Nat} (hj : j < n) :
 Equiv.swap i m j < n := by
 rw [Equiv.swap_apply_def]
 split_ifs <;> assumption

lemma perm_swap {m : Nat} (hi : i < n) (hm : m < n) (tbl : Nat → α) :
 ((range n).map (tbl ∘ Equiv.swap i m)).Perm ((range n).map tbl) := by
 rw [← map_map]
 refine Perm.map tbl ((perm_ext_iff_of_nodup ?_ nodup_range).mpr fun j => ?_)
 · exact nodup_range.map (Equiv.injective _)
 simp only [mem_map,mem_range]
 constructor
 · rintro ⟨k,hk,rfl⟩
   exact swap_lt hi hm hk
 · exact fun hj => ⟨_,swap_lt hi hm hj,Equiv.swap_apply_self ..⟩

/-- After `k` rounds the first `k` pages are in their places. -/
lemma sort_rounds (hn : n ≤ 2^31) (hne : ∀ j < n, physaddr (tbl j) ≠ 0) {k : Nat} (hk : k ≤ n) :
 ∃ tbl', (range k).foldlM (exchange physaddr n) tbl = .ok tbl' ∧
  ((range n).map tbl').Perm ((range n).map tbl) ∧ (∀ j < n, physaddr (tbl' j) ≠ 0) ∧
  ∀ a b, a < k → a ≤ b → b < n → physaddr (tbl' a) ≤ physaddr (tbl' b) := by
 induction k with
 | zero => exact ⟨tbl,rfl,.refl _,hne,fun a b ha => absurd ha (Nat.not_lt_zero a)⟩
 | succ k ih =>
  obtain ⟨tbl',hfold,hperm,hne',hsorted⟩ := ih (Nat.le_of_succ_le hk)
  obtain ⟨m,hkm,hm,hmin,hleast⟩ := compare_least (i := k) (l := n-k-1) fun j hj => hne' j (by omega)
  have hround : exchange physaddr n tbl' k = .ok (tbl' ∘ Equiv.swap k m) := by
   have hint : toInt m = m := if_pos (by omega)
   rw [exchange,show n-k = n-k-1+1 by omega,hmin,hint,if_neg (by omega),if_neg (by omega),
    Int.toNat_natCast]
  have hlt : ∀ j < n, Equiv.swap k m j < n := fun j hj => swap_lt (by omega) (by omega) hj
  refine ⟨tbl' ∘ Equiv.swap k m,?_,(perm_swap (by omega) (by omega) tbl').trans hperm,
   fun j hj => hne' _ (hlt j hj),fun a b ha hab hb => ?_⟩
  · rw [range_succ,foldlM_append,hfold]
    simp [bind,Except.bind,pure,Except.pure,hround]
  have hb' := hlt b hb
  obtain ha | rfl := Nat.lt_succ_iff_lt_or_eq.mp ha
  · rw [Function.comp,Equiv.swap_apply_of_ne_of_ne (by omega) (by omega)]
    refine hsorted a _ ha ?_ hb'
    rw [Equiv.swap_apply_def]
    split_ifs <;> omega
  · rw [Function.comp,Equiv.swap_apply_left]
    refine hleast _ ?_ (by omega)
    rw [Equiv.swap_apply_def]
    split_ifs <;> omega

lemma numPages_le (free hugepageSz : Nat) : numPages free hugepageSz ≤ 2^31 :=
 calc numPages free hugepageSz ≤ pageMemoryMax/hugepageSz := Nat.min_le_right ..
  _ ≤ pageMemoryMax := Nat.div_le_self ..
  _ ≤ 2^31 := by decide

/-- Any table of pages that the caller can have is sorted. -/
theorem huge_pages_sorted (physaddr : α → Nat) (free hugepageSz : Nat) (tbl : Nat → α)
 (hne : ∀ j < numPages free hugepageSz, physaddr (tbl j) ≠ 0) : let n := numPages free hugepageSz
 ∃ tbl', sortHptByPhysaddr physaddr n tbl = .ok tbl' ∧
  ((range n).map tbl').Perm ((range n).map tbl) ∧
  ((range n).map tbl').Pairwise (physaddr · ≤ physaddr ·) := by
 obtain ⟨tbl',hsort,hperm,-,hsorted⟩ := sort_rounds (numPages_le ..) hne (Nat.le_refl _)
 refine ⟨tbl',hsort,hperm,pairwise_map.mpr (pairwise_lt_range.imp_of_mem ?_)⟩
 intro a b ha hb hab
 exact hsorted a b (mem_range.mp ha) hab.le (mem_range.mp hb)

/-- Three free pages of 512 MiB, of which two fit. -/
theorem huge_pages_sorted_two : ∃ tbl', sortHptByPhysaddr id 2 (2-·) = .ok tbl' ∧
 ((range 2).map tbl').Perm [2,1] ∧ ((range 2).map tbl').Pairwise (· ≤ ·) :=
 huge_pages_sorted id 3 (512*1024*1024) (2-·) (by decide)

end Packages.HugePages

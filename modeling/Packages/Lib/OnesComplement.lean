import Mathlib

/-!
# One's complement sums of 16-bit words

Addition with the carry brought around to the lowest bit. A sum of words is known from their sum as
natural numbers: it is the residue modulo `2^16-1`, with `2^16-1` in the place of zero unless every
word is zero.
-/

namespace Packages.OnesComplement

def add (a b : Nat) : Nat := (a+b)%2^16+(a+b)/2^16

def sum (ws : List Nat) : Nat := ws.foldl add 0

/-- The one's complement sum of words that sum to `n`. -/
def fold (n : Nat) : Nat := if n = 0 then 0 else (n-1)%(2^16-1)+1

lemma fold_cases (n : Nat) : n = 0 ∧ fold n = 0 ∨ 0 < n ∧ fold n = (n-1)%(2^16-1)+1 := by
 unfold fold
 split_ifs <;> omega

lemma add_fold {n w : Nat} (hw : w < 2^16) : add (fold n) w = fold (n+w) := by
 have := fold_cases n
 have := fold_cases (n+w)
 unfold add
 omega

lemma sum_eq {ws : List Nat} (hws : ∀ w ∈ ws, w < 2^16) : sum ws = fold ws.sum := by
 have hfrom : ∀ n, ws.foldl add (fold n) = fold (n+ws.sum) := by
  induction ws with
  | nil => exact fun _ => rfl
  | cons w ws ih =>
   obtain ⟨hw,hws⟩ := List.forall_mem_cons.mp hws
   intro n
   rw [List.foldl_cons,add_fold hw,ih hws,List.sum_cons,add_assoc]
 exact (hfrom 0).trans (by rw [zero_add])

lemma fold_add_mul {n : Nat} (hn : 0 < n) (k : Nat) : fold (n+(2^16-1)*k) = fold n := by
 have hmod := Nat.add_mul_mod_self_left (n-1) (2^16-1) k
 rw [fold,fold,if_neg (by omega),if_neg (by omega),← hmod,Nat.sub_add_comm hn]

/-- Two foldings of a 32-bit sum are enough. -/
lemma fold_eq {n : Nat} (hn : n < 2^32) : (n/2^16+n%2^16+(n/2^16+n%2^16)/2^16)%2^16 = fold n := by
 rcases eq_zero_or_pos n with rfl | hpos
 · rfl
 have hfold := fold_add_mul (by omega) (n/2^16)
 have hle : n/2^16+n%2^16 ≤ 2*(2^16-1) := by omega
 generalize ht : n/2^16+n%2^16 = t at hfold hle ⊢
 rw [fold,if_neg (by omega)]
 obtain hlt | hge := lt_or_ge t (2^16)
 · omega
 · omega

end Packages.OnesComplement

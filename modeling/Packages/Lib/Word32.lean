import Mathlib

/-!
# 32-bit words as natural numbers

Sums and differences modulo `2 ^ 32`, and what they say about counters that have wrapped around
but are close to each other.
-/

namespace Packages

def add32 (a b : Nat) : Nat := (a+b)%2^32

def sub32 (a b : Nat) : Nat := (a+(2^32-b%2^32))%2^32

lemma add32_mod (a b : Nat) : add32 (a%2^32) b = (a+b)%2^32 := by
 unfold add32
 omega

lemma add32_of_lt {a b : Nat} (h : a+b < 2^32) : add32 a b = a+b := Nat.mod_eq_of_lt h

lemma sub32_of_le {a b : Nat} (hle : b ≤ a) (hlt : a < 2^32) : sub32 a b = a-b := by
 unfold sub32
 omega

lemma sub32_mod {a b : Nat} (hle : b ≤ a) (hlt : a < b+2^32) :
 sub32 (a%2^32) (b%2^32) = a-b := by
 unfold sub32
 omega

/-- Counters less than `2 ^ 32` apart are equal if their low words are. -/
lemma eq_of_mod32 {a b : Nat} (h : a%2^32 = b%2^32) (hle : b ≤ a) (hlt : a < b+2^32) :
 a = b := by
 omega

lemma mod_ne_of_near {size i j : Nat} (hij : i < j) (hj : j < i+size) : i%size ≠ j%size := by
 intro h
 have hdvd : size ∣ j-i := Nat.dvd_of_mod_eq_zero (Nat.sub_mod_eq_zero_of_mod_eq h.symm)
 have := Nat.le_of_dvd (by omega) hdvd
 omega

end Packages

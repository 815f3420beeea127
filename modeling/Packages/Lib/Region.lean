import Mathlib

/-!
# Address ranges

`Region` is a range of addresses, `Apart` says that two of them have no address in common, written
over their ends so that it can be decided and holds of empty ranges too. Rounding an address up to
an alignment stays in a range that is long enough.
-/

namespace Packages

structure Region where
 base : Nat
 len : Nat
 deriving DecidableEq, Repr

namespace Region

variable {r r' s s' : Region}

def Apart (r s : Region) : Prop := r.base+r.len ≤ s.base ∨ s.base+s.len ≤ r.base

instance : Decidable (Apart r s) := inferInstanceAs (Decidable (_ ∨ _))

/-- `r` is part of `s`. -/
def Within (r s : Region) : Prop := s.base ≤ r.base ∧ r.base+r.len ≤ s.base+s.len

instance : Decidable (Within r s) := inferInstanceAs (Decidable (_ ∧ _))

lemma Apart.symm (h : r.Apart s) : s.Apart r := Or.symm h

lemma Apart.within (h : r.Apart s) (hr : r'.Within r) (hs : s'.Within s) : r'.Apart s' := by
 unfold Apart Within at *
 omega

lemma Apart.ne (h : r.Apart s) (hpos : 0 < r.len) : r ≠ s := by
 rintro rfl
 unfold Apart at h
 omega

end Region

/-- The next multiple of `align`. -/
def roundUp (align x : Nat) : Nat := align*((x+align-1)/align)

section

variable {align x : Nat}

lemma dvd_roundUp (align x : Nat) : align ∣ roundUp align x := Nat.dvd_mul_right ..

lemma le_roundUp (h : 0 < align) (x : Nat) : x ≤ roundUp align x := by
 have hdiv := Nat.div_add_mod (x+align-1) align
 have hmod := Nat.mod_lt (x+align-1) h
 unfold roundUp
 omega

lemma roundUp_lt (h : 0 < align) (x : Nat) : roundUp align x < x+align := by
 have hle := Nat.mul_div_le (x+align-1) align
 unfold roundUp
 omega

lemma within_roundUp (h : 0 < align) {size : Nat} {r : Region} (hlen : size+align ≤ r.len) :
 (⟨roundUp align r.base,size⟩ : Region).Within r := by
 have hle := le_roundUp h r.base
 have hlt := roundUp_lt h r.base
 refine ⟨hle,?_⟩
 show roundUp align r.base+size ≤ r.base+r.len
 omega

end

end Packages

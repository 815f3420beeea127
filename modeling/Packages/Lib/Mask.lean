import Mathlib

/-!
# Members of a set as masks of a word

A member is in the set when the word has a bit of its mask. Masks that share no bit keep the members
apart; a mask may have several bits.
-/

namespace Packages.Mask

variable {w : Nat} {word m m' : BitVec w}

def Has (word m : BitVec w) : Prop := word &&& m ≠ 0

instance (word m : BitVec w) : Decidable (Has word m) := inferInstanceAs (Decidable (_ ≠ _))

lemma not_has_zero (m : BitVec w) : ¬Has 0 m := by
 intro h
 exact h (by simp)

lemma has_set (hm : m ≠ 0) : Has (word ||| m) m := by
 have habsorb : (word ||| m) &&& m = m := by
  ext i
  simp only [BitVec.getElem_and,BitVec.getElem_or]
  cases word[i] <;> cases m[i] <;> rfl
 rw [Has,habsorb]
 exact hm

lemma has_set_of_disjoint (h : m &&& m' = 0) : Has (word ||| m) m' ↔ Has word m' := by
 have hsame : (word ||| m) &&& m' = word &&& m' := by
  rw [BitVec.and_or_distrib_right,h]
  simp
 rw [Has,Has,hsame]

lemma not_has_clear : ¬Has (word &&& ~~~m) m := by
 intro h
 apply h
 rw [BitVec.and_assoc]
 simp

lemma has_clear_of_disjoint (h : m &&& m' = 0) : Has (word &&& ~~~m) m' ↔ Has word m' := by
 have hsame : ~~~m &&& m' = m' := by
  ext i hi
  have hbit : (m &&& m')[i] = (0 : BitVec w)[i] := by rw [h]
  simp only [BitVec.getElem_and,BitVec.getElem_not] at hbit ⊢
  cases hm : m[i] with
  | true => simpa [hm] using hbit
  | false => simp
 rw [Has,Has,BitVec.and_assoc,hsame]

end Packages.Mask

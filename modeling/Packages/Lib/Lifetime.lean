import Mathlib

/-!
# References to slots that are used again

An object that was destroyed can become valid again, and then it is another object in the same slot.
A reference is fresh if none of the objects it names was destroyed after it was made. Strong
references are followed without a look at whether what they name is valid.
-/

namespace Packages

/-- What the references name, and when references were made and objects last destroyed. -/
structure Lifetime (ρ ω : Type*) where
 names : ρ → List ω
 valid : ω → Bool
 made : ρ → Nat
 destroyed : ω → Nat
 now : Nat

namespace Lifetime

variable {ρ ω : Type*} {l l' : Lifetime ρ ω} {strong : ρ → Prop}

def Fresh (l : Lifetime ρ ω) (r : ρ) : Prop :=
 ∀ o ∈ l.names r, l.valid o = true ∧ l.destroyed o < l.made r

structure Sound (strong : ρ → Prop) (l : Lifetime ρ ω) : Prop where
 past : ∀ o, l.destroyed o < l.now
 fresh : ∀ r, ∀ o ∈ l.names r, l.valid o = true → l.destroyed o < l.made r
 strong : ∀ r, strong r → ∀ o ∈ l.names r, l.valid o = true

lemma Sound.write (h : Sound strong l) (written : ρ → Prop) (hnow : l'.now = l.now+1)
 (hdestroyed : l'.destroyed = l.destroyed) (hmade : ∀ r, written r → l'.made r = l.now)
 (hkept : ∀ r, ¬written r → l'.made r = l.made r ∧ ∀ o ∈ l'.names r, o ∈ l.names r)
 (hvalid : ∀ o, l.valid o = true → l'.valid o = true)
 (hcreated : ∀ o, l.valid o = false → l'.valid o = true → ∀ r, o ∉ l.names r)
 (hstrong : ∀ r, written r → strong r → ∀ o ∈ l'.names r, l'.valid o = true) : Sound strong l' where
 past o := by
  rw [hdestroyed,hnow]
  exact Nat.lt_succ_of_lt (h.past o)
 fresh r o ho hv := by
  rw [hdestroyed]
  by_cases hr : written r
  · rw [hmade r hr]
    exact h.past o
  · obtain ⟨hsame,hsub⟩ := hkept r hr
    rw [hsame]
    refine h.fresh r o (hsub o ho) ?_
    cases hold : l.valid o with
    | true => rfl
    | false => exact absurd (hsub o ho) (hcreated o hold hv r)
 strong r hs o ho := by
  by_cases hr : written r
  · exact hstrong r hr hs o ho
  · exact hvalid o (h.strong r hs o ((hkept r hr).2 o ho))

lemma Sound.destroy (h : Sound strong l) (o : ω) (hnow : l'.now = l.now+1)
 (hmade : l'.made = l.made)
 (hnames : ∀ r, ∀ x ∈ l'.names r, x ∈ l.names r) (hself : l'.valid o = false)
 (hother : ∀ x, x ≠ o → l'.valid x = l.valid x ∧ l'.destroyed x = l.destroyed x)
 (hpast : l'.destroyed o ≤ l.now) (hfree : ∀ r, strong r → o ∉ l.names r) : Sound strong l' := by
 have hne : ∀ x, l'.valid x = true → x ≠ o := by
  rintro x hx rfl
  rw [hself] at hx
  cases hx
 refine ⟨fun x => ?_,fun r x hx hv => ?_,fun r hs x hx => ?_⟩
 · rw [hnow]
   by_cases hxo : x = o
   · rw [hxo]
     exact Nat.lt_succ_of_le hpast
   · rw [(hother x hxo).2]
     exact Nat.lt_succ_of_lt (h.past x)
 · obtain ⟨hvalid,hdestroyed⟩ := hother x (hne x hv)
   rw [hdestroyed,hmade]
   exact h.fresh r x (hnames r x hx) (hvalid ▸ hv)
 · have hmem := hnames r x hx
   have hxo : x ≠ o := by
    rintro rfl
    exact hfree r hs hmem
   rw [(hother x hxo).1]
   exact h.strong r hs x hmem

lemma Sound.isFresh (h : Sound strong l) {r : ρ} (hvalid : ∀ o ∈ l.names r, l.valid o = true) :
 l.Fresh r :=
 fun o ho => ⟨hvalid o ho,h.fresh r o ho (hvalid o ho)⟩

end Lifetime

end Packages

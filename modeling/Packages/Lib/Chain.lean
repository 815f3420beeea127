import Mathlib

/-!
# Following a partial function to its end

`last f n a` follows `f` from `a` for fewer than `n` steps. If `f` has no cycle and takes its values
in a finite set, one step more than the set has elements is enough.
-/

namespace Packages.Chain

variable {α : Type*} {f g : α → Option α} {a b c : α} {n : Nat}

/-- One step of `f`. -/
def Step (f : α → Option α) (a b : α) : Prop := f a = some b

def last (f : α → Option α) : Nat → α → Option α
 | 0,_ => none
 | n+1,a => match f a with
  | none => some a
  | some b => last f n b

def Acyclic (f : α → Option α) : Prop := ∀ a, ¬ Relation.TransGen (Step f) a a

lemma Acyclic.mono (hf : Acyclic f) (hsub : ∀ a b, Step g a b → Step f a b) : Acyclic g :=
 fun a h => hf a (Relation.TransGen.mono hsub a a h)

lemma Acyclic.of_lt (rank : α → Nat) (hup : ∀ a b, Step f a b → rank a < rank b) : Acyclic f := by
 intro a hcycle
 have hlt : ∀ b, Relation.TransGen (Step f) a b → rank a < rank b := by
  intro b hb
  induction hb with
  | single hstep => exact hup _ _ hstep
  | tail _ hstep ih => exact Nat.lt_trans ih (hup _ _ hstep)
 exact Nat.lt_irrefl _ (hlt a hcycle)

lemma last_spec (h : last f n a = some c) : Relation.ReflTransGen (Step f) a c ∧ f c = none := by
 induction n generalizing a with
 | zero => cases h
 | succ n ih =>
  rw [last] at h
  cases hf : f a with
  | none =>
   rw [hf] at h
   cases h
   exact ⟨.refl,hf⟩
  | some b =>
   rw [hf] at h
   obtain ⟨hreach,hend⟩ := ih h
   exact ⟨.head hf hreach,hend⟩

lemma exists_last_iff :
 (∃ n c, last f n a = some c) ↔ ∃ c, Relation.ReflTransGen (Step f) a c ∧ f c = none := by
 constructor
 · rintro ⟨n,c,h⟩
   exact ⟨c,last_spec h⟩
 · rintro ⟨c,hreach,hend⟩
   induction hreach using Relation.ReflTransGen.head_induction_on with
   | refl => exact ⟨1,c,by rw [last,hend]⟩
   | head hstep _ ih =>
    obtain ⟨n,d,hd⟩ := ih
    exact ⟨n+1,d,by rw [last,hstep]; exact hd⟩

/-- A function whose steps are steps of another one, seen through `φ`, ends no later. -/
lemma exists_last_of_map {β : Type*} {g : β → Option β} {b : β} (φ : β → α)
 (hstep : ∀ a b, Step g a b → Step f (φ a) (φ b)) (h : last f n (φ b) = some c) :
 ∃ d, last g n b = some d := by
 induction n generalizing b with
 | zero => cases h
 | succ n ih =>
  rw [last]
  cases hg : g b with
  | none => exact ⟨b,rfl⟩
  | some b' =>
   rw [last,hstep b b' hg] at h
   exact ih h

section Finite

variable (s : Finset α)

open Classical in
/-- What can be reached from `a` in one step or more. -/
noncomputable def ahead (f : α → Option α) (a : α) : Finset α :=
 s.filter fun b => Relation.TransGen (Step f) a b

lemma card_ahead_lt (hf : Acyclic f) (hs : ∀ a b, Step f a b → b ∈ s) (h : Step f a b) :
 (ahead s f b).card < (ahead s f a).card := by
 classical
 apply Finset.card_lt_card
 refine Finset.ssubset_iff_of_subset (fun d hd => ?_) |>.mpr ⟨b,?_,?_⟩
 · obtain ⟨hmem,hreach⟩ := Finset.mem_filter.mp hd
   exact Finset.mem_filter.mpr ⟨hmem,.head h hreach⟩
 · exact Finset.mem_filter.mpr ⟨hs a b h,.single h⟩
 · exact fun hb => hf b (Finset.mem_filter.mp hb).2

lemma exists_last (hf : Acyclic f) (hs : ∀ a b, Step f a b → b ∈ s)
 (hn : (ahead s f a).card < n) : ∃ c, last f n a = some c := by
 induction n generalizing a with
 | zero => exact absurd hn (Nat.not_lt_zero _)
 | succ n ih =>
  cases h : f a with
  | none => exact ⟨a,by rw [last,h]⟩
  | some b =>
   obtain ⟨c,hc⟩ := ih (Nat.lt_of_lt_of_le (card_ahead_lt s hf hs h) (Nat.le_of_lt_succ hn))
   exact ⟨c,by rw [last,h]; exact hc⟩

lemma exists_last_of_card_lt (hf : Acyclic f) (hs : ∀ a b, Step f a b → b ∈ s)
 (hn : s.card < n) (a : α) : ∃ c, last f n a = some c := by
 classical
 exact exists_last s hf hs (lt_of_le_of_lt (Finset.card_le_card (Finset.filter_subset ..)) hn)

end Finite

end Packages.Chain

import Packages.Lib.Transition

/-!
# Endless runs and fairness

A trace is an endless run of a transition system that may pause. What no step leaves but towards a
goal, and what some agent leaves with its next step, leads to the goal as long as the agent gets its
turns.
-/

namespace Packages.Transition

variable {σ α ι : Type*} {step : σ → α → Option σ}

/-- An endless run; without a label the state stays. -/
structure Trace (step : σ → α → Option σ) where
 state : Nat → σ
 label : Nat → Option α
 pause : ∀ i, label i = none → state (i+1) = state i
 move : ∀ i a, label i = some a → step (state i) a = some (state (i+1))

namespace Trace

variable (tr : Trace step) {P Q : σ → Prop}

lemma keep {i : Nat} (hstay : ∀ s a s', P s → step s a = some s' → P s' ∨ Q s')
 (h : P (tr.state i)) : P (tr.state (i+1)) ∨ Q (tr.state (i+1)) := by
 cases hlabel : tr.label i with
 | none =>
  rw [tr.pause i hlabel]
  exact .inl h
 | some a => exact hstay _ a _ h (tr.move i a hlabel)

lemma stable (hstep : ∀ s a s', P s → step s a = some s' → P s') {i j : Nat} (hij : i ≤ j)
 (h : P (tr.state i)) : P (tr.state j) := by
 induction j, hij using Nat.le_induction with
 | base => exact h
 | succ j _ ih => exact (tr.keep (fun s a s' hs ha => .inl (hstep s a s' hs ha)) ih).elim id id

/-- `Q` holds at `i` or later. -/
def Eventually (i : Nat) (Q : σ → Prop) : Prop := ∃ j, i ≤ j ∧ Q (tr.state j)

variable {tr}

lemma Eventually.trans {R : σ → Prop} {i : Nat} (h : tr.Eventually i Q)
 (hnext : ∀ j, i ≤ j → Q (tr.state j) → tr.Eventually j R) : tr.Eventually i R := by
 obtain ⟨j,hij,hq⟩ := h
 obtain ⟨k,hjk,hr⟩ := hnext j hij hq
 exact ⟨k,le_trans hij hjk,hr⟩

/-- The rule for weak fairness: every step keeps `P` or reaches `Q`, a helpful one reaches `Q`. -/
lemma eventually_of_helpful (help : α → Prop) {i : Nat}
 (hfair : ∃ j, i ≤ j ∧ ∃ a, tr.label j = some a ∧ help a)
 (hstay : ∀ s a s', P s → step s a = some s' → P s' ∨ Q s')
 (hhelp : ∀ s a s', P s → help a → step s a = some s' → Q s') (h : P (tr.state i)) :
 tr.Eventually i Q := by
 obtain ⟨j,hij,a,hlabel,ha⟩ := hfair
 -- until the helpful step the trace stays in `P` or has reached `Q`
 have huntil : ∀ k, i ≤ k → P (tr.state k) ∨ tr.Eventually i Q := by
  intro k hik
  induction k,hik using Nat.le_induction with
  | base => exact .inl h
  | succ k hik ih =>
   obtain hp | hq := ih
   · exact (tr.keep hstay hp).imp_right fun hq => ⟨k+1,Nat.le_succ_of_le hik,hq⟩
   · exact .inr hq
 obtain hp | hq := huntil j hij
 · exact ⟨j+1,Nat.le_succ_of_le hij,hhelp _ a _ hp ha (tr.move j a hlabel)⟩
 · exact hq

lemma eventually_forall [Fintype ι] {Q : ι → σ → Prop} {i : Nat}
 (hstep : ∀ u s a s', Q u s → step s a = some s' → Q u s')
 (h : ∀ u, tr.Eventually i (Q u)) : tr.Eventually i fun s => ∀ u, Q u s := by
 choose f hle hf using h
 refine ⟨max i (Finset.univ.sup f),le_max_left _ _,fun u => ?_⟩
 have hsup : f u ≤ Finset.univ.sup f := Finset.le_sup (Finset.mem_univ u)
 exact tr.stable (hstep u) (le_trans hsup (le_max_right _ _)) (hf u)

end Trace

end Packages.Transition

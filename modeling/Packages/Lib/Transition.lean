import Mathlib

/-!
# Guarded runs of a transition system

A system is an initial predicate and a partial step function over labels; `none` says that the label
is not enabled. `Reach init step allowed` collects the states of runs whose every step is `allowed`
in the state it leaves.
-/

namespace Packages.Transition

variable {σ α : Type*}

/-- The states reached from `init` by steps that are all `allowed`. -/
inductive Reach (init : σ → Prop) (step : σ → α → Option σ) (allowed : σ → α → Prop) :
 σ → Prop where
 | start {s : σ} : init s → Reach init step allowed s
 | next {s t : σ} {a : α} :
  Reach init step allowed s → allowed s a → step s a = some t → Reach init step allowed t

variable {init : σ → Prop} {step : σ → α → Option σ} {allowed : σ → α → Prop}

/-- The induction rule for safety: what holds initially and survives every allowed
step holds in every reached state. -/
lemma Reach.invariant {P : σ → Prop} (hinit : ∀ s, init s → P s)
 (hstep : ∀ s a t, P s → allowed s a → step s a = some t → P t)
 {s : σ} (h : Reach init step allowed s) : P s := by
 induction h with
 | start hs => exact hinit _ hs
 | next _ ha ht ih => exact hstep _ _ _ ih ha ht

lemma Reach.mono {allowed' : σ → α → Prop} (hle : ∀ s a, allowed s a → allowed' s a)
 {s : σ} (h : Reach init step allowed s) : Reach init step allowed' s := by
 induction h with
 | start hs => exact .start hs
 | next _ ha ht ih => exact .next ih (hle _ _ ha) ht

/-- The state a list of labels leads to; `none` as soon as one is not allowed or not
enabled. -/
def guardedRun (step : σ → α → Option σ) (allowed : σ → α → Prop)
 [∀ s a, Decidable (allowed s a)] : σ → List α → Option σ
 | s, [] => some s
 | s, a::as => if allowed s a then (step s a).bind (guardedRun step allowed · as) else none

variable [∀ s a, Decidable (allowed s a)]

lemma guardedRun_cons {s t : σ} {a : α} (as : List α) (ha : allowed s a) (hs : step s a = some t) :
 guardedRun step allowed s (a::as) = guardedRun step allowed t as := by
 rw [guardedRun,if_pos ha,hs,Option.bind_some]

lemma Reach.of_guardedRun {as : List α} {s t : σ} (hs : Reach init step allowed s)
 (hr : guardedRun step allowed s as = some t) : Reach init step allowed t := by
 induction as generalizing s with
 | nil =>
  simp only [guardedRun,Option.some.injEq] at hr
  exact hr ▸ hs
 | cons a as ih =>
  simp only [guardedRun] at hr
  split at hr
  · next ha =>
    obtain ⟨u,hu,hr⟩ := Option.bind_eq_some_iff.mp hr
    exact ih (.next hs ha hu) hr
  · simp at hr

lemma Reach.exists_of_run {s : σ} (hs : Reach init step allowed s) (as : List α)
 (P : σ → Prop) [DecidablePred P]
 (h : (guardedRun step allowed s as).any (fun t => decide (P t)) = true) :
 ∃ t, Reach init step allowed t ∧ P t := by
 cases hr : guardedRun step allowed s as with
 | none => simp [hr] at h
 | some t => exact ⟨t,hs.of_guardedRun hr,by simpa [hr] using h⟩

/-- A run from a start state to a state where `P` holds, for what follows from `P` there. -/
lemma exists_of_start {s : σ} {Q : σ → Prop} (hs : init s) (as : List α) (P : σ → Prop)
 [DecidablePred P] (h : (guardedRun step allowed s as).any (fun t => decide (P t)) = true)
 (hQ : ∀ t, Reach init step allowed t → P t → Q t) : ∃ t, Reach init step allowed t ∧ Q t := by
 obtain ⟨t,ht,hP⟩ := (Reach.start hs).exists_of_run as P h
 exact ⟨t,ht,hQ t ht hP⟩

lemma Reach.exists_step_of_run {s : σ} (hs : Reach init step allowed s) (as : List α) (a : α)
 (P : σ → σ → Prop) [∀ t t', Decidable (P t t')] (h : (guardedRun step allowed s as).any
  (fun t => decide ((step t a).any (fun t' => decide (P t t')) = true)) = true) :
 ∃ t t', Reach init step allowed t ∧ step t a = some t' ∧ P t t' := by
 obtain ⟨t,ht,htest⟩ :=
  hs.exists_of_run as (fun t => (step t a).any (fun t' => decide (P t t')) = true) h
 cases hstep : step t a with
 | none => simp [hstep] at htest
 | some t' => exact ⟨t,t',ht,hstep,by simpa [hstep] using htest⟩

/-- The library composes these two instances anew at each numeral; under one name they are local
instances of the modules with closed thread numbers. -/
lemma neZero_two : NeZero 2 := ⟨two_ne_zero⟩

lemma neZero_three : NeZero 3 := ⟨three_ne_zero⟩

end Packages.Transition

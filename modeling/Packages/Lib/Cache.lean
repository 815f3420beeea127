import Mathlib

/-!
# A cache beside a store

`view` is what the store says about each key. A cache agrees with it if every entry is the view of
its key; it need not have an entry for each of them.
-/

namespace Packages.Cache

open Function

variable {κ V : Type*} {view view' cache cache' : κ → Option V} {k : κ} {v : V}

def Agree (view cache : κ → Option V) : Prop := ∀ k v, cache k = some v → view k = some v

variable [DecidableEq κ]

section

variable (h : Agree view cache) (hview : ∀ k', k' ≠ k → view' k' = view k')

include h hview

lemma Agree.change (hcache : ∀ k', k' ≠ k → cache' k' = cache k')
 (hk : ∀ v, cache' k = some v → view' k = some v) : Agree view' cache' := by
 intro k' v hv
 by_cases hne : k' = k
 · subst hne
   exact hk v hv
 · rw [hcache k' hne] at hv
   rw [hview k' hne]
   exact h k' v hv

lemma Agree.write (hk : view' k = some v) : Agree view' (update cache k (some v)) := by
 refine h.change hview (fun k' hne => update_of_ne hne ..) fun v' hv' => ?_
 rw [update_self] at hv'
 rw [hk,hv']

lemma Agree.drop : Agree view' (update cache k none) := by
 refine h.change hview (fun k' hne => update_of_ne hne ..) fun v' hv' => ?_
 rw [update_self] at hv'
 cases hv'

lemma Agree.uncached (hk : cache k = none) : Agree view' cache := by
 refine h.change hview (fun _ _ => rfl) fun v hv => ?_
 rw [hk] at hv
 cases hv

end

end Packages.Cache

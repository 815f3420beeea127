import Mathlib

/-!
# Custody: every token at exactly one place, exactly once

`occ p t` counts how often place `p` holds token `t`. Under `Custody occ` each token has one place,
which holds it once. A step that takes the tokens `l` from `a` and puts them at `b` balances the
books, and `Custody.move` does the rest. Under the weaker `Exclusive occ` tokens may be lost but not
copied.
-/

namespace Packages

open List

variable {P T : Type*} [DecidableEq P]

/-- Every token is at exactly one place, and there exactly once. -/
def Custody (occ : P → T → Nat) : Prop :=
 ∃ loc : T → P, ∀ p t, occ p t = if loc t = p then 1 else 0

namespace Custody

variable {occ occ' : P → T → Nat}

lemma sum_map_ite {S : List P} (hS : S.Nodup) {f : P → Nat} {q : P}
 (hf : ∀ p, f p = if q = p then 1 else 0) : (S.map f).sum = if q ∈ S then 1 else 0 := by
 induction S with
 | nil => simp
 | cons p S ih =>
  obtain ⟨hp,hS⟩ := nodup_cons.mp hS
  rw [map_cons,sum_cons,ih hS,hf]
  by_cases hqp : q = p
  · subst hqp
    simp [hp]
  · simp [hqp]

omit [DecidableEq P] in
lemma exists_of_sum_eq_one {S : List P} (hS : S.Nodup) {f : P → Nat} (h : (S.map f).sum = 1) :
 ∃ q ∈ S, f q = 1 ∧ ∀ p ∈ S, p ≠ q → f p = 0 := by
 induction S with
 | nil => simp at h
 | cons p S ih =>
  obtain ⟨hp,hS⟩ := nodup_cons.mp hS
  rw [map_cons,sum_cons] at h
  by_cases hz : f p = 0
  · obtain ⟨q,hq,hone,hrest⟩ := ih hS (by omega)
    refine ⟨q,mem_cons_of_mem _ hq,hone,fun r hr hrq => ?_⟩
    rcases mem_cons.mp hr with rfl | hr
    · exact hz
    · exact hrest r hr hrq
  · refine ⟨p,mem_cons_self ..,by omega,fun r hr hrp => ?_⟩
    have hzero : (S.map f).sum = 0 := by omega
    exact List.sum_eq_zero_iff_forall_eq_nat.mp hzero _
     (List.mem_map_of_mem ((List.mem_cons.mp hr).resolve_left hrp))

lemma existsUnique (h : Custody occ) (t : T) : ∃! p, occ p t = 1 := by
 obtain ⟨loc,hloc⟩ := h
 refine ⟨loc t,by simp [hloc],fun p hp => ?_⟩
 by_contra hne
 simp [hloc,Ne.symm hne] at hp

lemma le_one (h : Custody occ) (p : P) (t : T) : occ p t ≤ 1 := by
 obtain ⟨loc,hloc⟩ := h
 rw [hloc]
 split_ifs <;> omega

lemma unique (h : Custody occ) {p q : P} {t : T} (hp : occ p t ≠ 0) (hq : occ q t ≠ 0) :
 p = q := by
 obtain ⟨loc,hloc⟩ := h
 simp only [hloc,ne_eq,ite_eq_right_iff,one_ne_zero,imp_false,not_not] at hp hq
 exact hp.symm.trans hq

lemma eq_zero (h : Custody occ) {p q : P} {t : T} (hp : occ p t ≠ 0) (hne : q ≠ p) :
 occ q t = 0 := by
 by_contra hq
 exact hne (h.unique hq hp)

lemma nodup [DecidableEq T] (h : Custody occ) {p : P} {l : List T}
 (hl : ∀ t, occ p t = l.count t) : l.Nodup :=
 nodup_iff_count.mpr fun t => hl t ▸ h.le_one p t

variable [DecidableEq T]

/-- The books balance when the tokens `l` leave `a` and arrive at `b`. -/
def Balanced (occ occ' : P → T → Nat) (l : List T) (a b : P) : Prop :=
 ∀ p t, occ' p t+(if p = a then l.count t else 0) =
  occ p t+(if p = b then l.count t else 0)

lemma Balanced.symm {l : List T} {a b : P} (h : Balanced occ occ' l a b) :
 Balanced occ' occ l b a :=
 fun p t => (h p t).symm

lemma move {l : List T} {a b : P} (h : Custody occ) (hm : Balanced occ occ' l a b) :
 Custody occ' := by
 by_cases hab : a = b
 · obtain ⟨loc,hloc⟩ := h
   refine ⟨loc,fun p t => ?_⟩
   have hpt := hm p t
   subst hab
   rw [← hloc]
   omega
 obtain ⟨loc,hloc⟩ := h
 refine ⟨fun t => if t ∈ l then b else loc t,fun p t => ?_⟩
 have hpt := hm p t
 have ha := hm a t
 rw [hloc] at hpt ha
 by_cases ht : t ∈ l
 · have hcount : 0 < l.count t := count_pos_iff.mpr ht
   simp only [↓reduceIte,hab,if_pos ht] at ha hpt ⊢
   -- the books at the source say that `t` was there, once
   have hloc' : loc t = a := by
    by_contra hne
    simp only [hne,if_false] at ha
    omega
   rw [hloc',if_pos rfl] at ha
   rw [hloc'] at hpt
   have hone : l.count t = 1 := by omega
   rw [hone] at hpt
   by_cases hpa : p = a
   · subst hpa
     simp only [↓reduceIte,Ne.symm hab] at hpt ⊢
     omega
   · simp only [hpa,Ne.symm hpa] at hpt
     by_cases hpb : p = b
     · simp only [hpb] at hpt ⊢
       omega
     · simp only [hpb,Ne.symm hpb] at hpt ⊢
       omega
 · have hcount : l.count t = 0 := count_eq_zero.mpr ht
   simp only [hcount,ite_self,if_neg ht] at hpt ⊢
   exact hpt

omit [DecidableEq T] in
/-- A step that touches the places `S` only, and keeps how often they hold each token in
total, keeps custody. -/
lemma regroup (h : Custody occ) {S : List P} (hS : S.Nodup)
 (hout : ∀ p, p ∉ S → ∀ t, occ' p t = occ p t)
 (hsum : ∀ t, (S.map (occ' · t)).sum = (S.map (occ · t)).sum) : Custody occ' := by
 have hloc : ∀ t, ∃ q, ∀ p, occ' p t = if q = p then 1 else 0 := by
  intro t
  obtain ⟨loc,hloc⟩ := h
  have hold : ∀ p, occ p t = if loc t = p then 1 else 0 := fun p => hloc p t
  by_cases hin : loc t ∈ S
  · -- the token is at one of the places, so one of them holds it now
    have htotal : (S.map (occ' · t)).sum = 1 := by
     rw [hsum,sum_map_ite hS hold,if_pos hin]
    obtain ⟨q,hq,hone,hrest⟩ := exists_of_sum_eq_one hS htotal
    refine ⟨q,fun p => ?_⟩
    by_cases hp : p ∈ S
    · by_cases hqp : q = p
      · rw [if_pos hqp,← hqp,hone]
      · rw [if_neg hqp,hrest p hp (Ne.symm hqp)]
    · rw [hout p hp,hold,if_neg (ne_of_mem_of_not_mem hin hp),if_neg (ne_of_mem_of_not_mem hq hp)]
  · have htotal : (S.map (occ' · t)).sum = 0 := by
     rw [hsum,sum_map_ite hS hold,if_neg hin]
    refine ⟨loc t,fun p => ?_⟩
    by_cases hp : p ∈ S
    · rw [if_neg (ne_of_mem_of_not_mem hp hin).symm]
      exact List.sum_eq_zero_iff_forall_eq_nat.mp htotal _ (mem_map_of_mem hp)
    · rw [hout p hp,hold]
 choose loc hloc using hloc
 exact ⟨loc,fun p t => hloc t p⟩

end Custody

-- At most once

/-- Whichever places are counted, a token is there at most once. -/
def Exclusive (occ : P → T → Nat) : Prop :=
 ∀ S : List P, S.Nodup → ∀ t, (S.map (occ · t)).sum ≤ 1

namespace Exclusive

variable {occ occ' : P → T → Nat}

omit [DecidableEq P] in
lemma eq_zero (h : Exclusive occ) {p q : P} {t : T} (hp : occ p t ≠ 0) (hne : q ≠ p) :
 occ q t = 0 := by
 have hpq := h [p,q] (by simpa using Ne.symm hne) t
 simp only [map_cons,sum_cons] at hpq
 omega

omit [DecidableEq P] in
lemma unique (h : Exclusive occ) {p q : P} {t : T} (hp : occ p t ≠ 0) (hq : occ q t ≠ 0) :
 p = q := by
 by_contra hne
 exact hq (h.eq_zero hp (Ne.symm hne))

omit [DecidableEq P] in
/-- A place outside `S` that holds a token leaves none of it to `S`. -/
lemma sum_eq_zero (h : Exclusive occ) {S : List P} (hS : S.Nodup) {q : P} {t : T} (hq : q ∉ S)
 (hne : occ q t ≠ 0) : (S.map (occ · t)).sum = 0 := by
 have hsum := h (q::S) (nodup_cons.mpr ⟨hq,hS⟩) t
 rw [map_cons,sum_cons] at hsum
 omega

lemma of_loc (loc : T → P) (h : ∀ p t, occ p t ≤ if loc t = p then 1 else 0) : Exclusive occ := by
 intro S hS t
 have hle : (S.map (occ · t)).sum ≤ (S.map fun p => if loc t = p then 1 else 0).sum :=
  sum_le_sum fun p _ => h p t
 rw [Custody.sum_map_ite hS fun p => rfl] at hle
 split_ifs at hle <;> omega

/-- A step that touches the places `S` only, and does not hold more of a token there than before,
keeps the law. -/
lemma regroup (h : Exclusive occ) {S : List P} (hS : S.Nodup)
 (hout : ∀ p, p ∉ S → ∀ t, occ' p t ≤ occ p t)
 (hsum : ∀ t, (S.map (occ' · t)).sum ≤ (S.map (occ · t)).sum) : Exclusive occ' := by
 intro S' hS' t
 have hsplit := ((filter_append_perm (· ∈ S) S').map (occ' · t)).sum_eq
 rw [map_append,sum_append] at hsplit
 -- the touched places among those counted
 have hin : ((S'.filter (· ∈ S)).map (occ' · t)).sum ≤ (S.map (occ' · t)).sum := by
  have hsub : ∀ p ∈ S'.filter (· ∈ S), p ∈ S := fun p hp => by simpa using (mem_filter.mp hp).2
  obtain ⟨l,hl,hsub⟩ := subperm_of_subset (hS'.filter _) hsub
  rw [← (hl.map _).sum_eq]
  exact (hsub.map _).sum_le_sum fun _ _ => Nat.zero_le _
 -- and the others
 have hrest : ((S'.filter fun p => !decide (p ∈ S)).map (occ' · t)).sum ≤
  ((S'.filter fun p => !decide (p ∈ S)).map (occ · t)).sum := by
  refine sum_le_sum fun p hp => hout p ?_ t
  simpa using (mem_filter.mp hp).2
 have hnodup : (S++S'.filter fun p => !decide (p ∈ S)).Nodup := by
  refine hS.append (hS'.filter _) fun p hp hp' => ?_
  simp [hp] at hp'
 have hle := h _ hnodup t
 rw [map_append,sum_append] at hle
 have := hsum t
 omega

lemma issue (h : Exclusive occ) (a : P) (t0 : T) (hsame : ∀ p t, t ≠ t0 → occ' p t ≤ occ p t)
 (hnew : ∀ p, occ' p t0 ≤ if a = p then 1 else 0) : Exclusive occ' := by
 intro S hS t
 by_cases ht : t = t0
 · subst ht
   have hle : (S.map (occ' · t)).sum ≤ (S.map fun p => if a = p then 1 else 0).sum :=
    sum_le_sum fun p _ => hnew p
   rw [Custody.sum_map_ite hS fun p => rfl] at hle
   split_ifs at hle <;> omega
 · exact le_trans (sum_le_sum fun p _ => hsame p t ht) (h S hS t)

end Exclusive

end Packages

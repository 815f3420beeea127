import Packages.Classifier.Model
import Packages.Lib.Chain

/-!
# The rule set of an interface

A configuration without tables and pointers: rules in the order they were attached, cascades between
classes of service, two tables of priorities and a default. Every configuration call keeps
`Represents` as long as the interface has fewer input queues than `in_queue` has entries.
-/

namespace Packages.Classifier

open Function State

open Packages.Parser

/-- The terms of a rule; all of them have to match. -/
abbrev Rule := List PmrTermValue

def Rule.Matches (r : Rule) (pkt : Packet) : Prop := ∀ tv ∈ r, tv.verify pkt = true

instance (r : Rule) (pkt : Packet) : Decidable (r.Matches pkt) :=
 inferInstanceAs (Decidable (∀ tv ∈ r, _))

structure RuleSet where
 cosCount : Nat
 pmrs : List Rule
 sets : List Rule
 rules : List (Rule × Nat)
 cascade : Nat → Option (Rule × Nat)
 l2Cos : Nat → Option Nat
 l3Cos : Nat → Option Nat
 l3First : Bool
 default : Option Nat

namespace RuleSet

def empty : RuleSet := ⟨0,[],[],[],fun _ => none,fun _ => none,fun _ => none,false,none⟩

variable (R : RuleSet)

/-- A class of service that exists, under each priority of the list that is in range. -/
def fill (max : Nat) (table : Nat → Option Nat) (entries : List (Nat × Nat)) : Nat → Option Nat :=
 entries.foldl
  (fun table e => if e.2 < R.cosCount ∧ e.1 < max then update table e.1 (some e.2) else table)
  table

/-- A rule becomes the last one of the interface. -/
def attach (rule : Option Rule) (cos : Nat) : RuleSet :=
 match rule with
 | none => R
 | some r =>
  if cos < R.cosCount ∧ R.rules.length < pktioMaxPmr then { R with rules := R.rules++[(r,cos)] }
  else R

/-- What a call on the interface `p` does. -/
def callHere : Call → RuleSet
 | .cosCreate _ _ => if R.cosCount < cosMaxEntry then { R with cosCount := R.cosCount+1 } else R
 | .pmrCreate m =>
  if m.valSz ≤ pmrTermBytesMax ∧ R.pmrs.length < pmrMaxEntry then
   { R with pmrs := R.pmrs++[[m.createTerm]] }
  else R
 | .pmrMatchSetCreate terms =>
  if terms.length ≤ pmrtermMax ∧ R.sets.length < pmrSetMaxEntry then
   { R with sets := R.sets ++
      [(terms.filter fun m => m.valSz ≤ pmrTermBytesMax).map PmrMatch.createTerm] }
  else R
 | .pktioDefaultCosSet _ cos => if cos < R.cosCount then { R with default := some cos } else R
 | .pktioPmrCos pmr _ cos => R.attach R.pmrs[pmr]? cos
 | .pktioPmrMatchSetCos set _ cos => R.attach R.sets[set]? cos
 | .cosPmrCos pmr src dst =>
  match R.pmrs[pmr]? with
  | none => R
  | some r =>
   if src < R.cosCount ∧ dst < R.cosCount then
    { R with cascade := update R.cascade src (some (r,dst)) }
   else R
 | .cosWithL2Priority _ table => { R with l2Cos := R.fill cosMaxL2Qos R.l2Cos table }
 | .cosWithL3Qos _ table pref =>
  { R with l3Cos := R.fill cosMaxL3Qos R.l3Cos table,l3First := pref }

end RuleSet

/-- The interface a call names. -/
def Call.pktio? : Call → Option Nat
 | .pktioDefaultCosSet p _ | .pktioPmrCos _ p _ | .pktioPmrMatchSetCos _ p _
 | .cosWithL2Priority p _ | .cosWithL3Qos p _ _ => some p
 | _ => none

/-- What a call means for the interface `p`. -/
def RuleSet.call (p : Nat) (R : RuleSet) (c : Call) : RuleSet :=
 if c.pktio? = none ∨ c.pktio? = some p then R.callHere c else R

def ruleSet (p : Nat) (calls : List Call) : RuleSet := calls.foldl (RuleSet.call p) .empty

variable {st st' : State} {R : RuleSet} {p : Nat} {ptr : PmrPtr} {r : Rule}

-- Rules in the tables

/-- The entry behind a pointer is valid and matches when the rule does. -/
structure Denotes (st : State) (ptr : PmrPtr) (r : Rule) : Prop where
 valid : (st.pmrAt ptr).valid = true
 verify : ∀ pkt, st.verifyPmr pkt ptr = true ↔ r.Matches pkt

lemma Denotes.mono (h : Denotes st ptr r)
 (hsame : (st.pmrAt ptr).valid = true → st'.pmrAt ptr = st.pmrAt ptr) : Denotes st' ptr r := by
 have heq := hsame h.valid
 refine ⟨by rw [heq]; exact h.valid,fun pkt => ?_⟩
 rw [verifyPmr,heq]
 exact h.verify pkt

lemma verify_zeroTermValue (pkt : Packet) : zeroTermValue.verify pkt = true := by
 simp [zeroTermValue,PmrTermValue.verify,PmrTermValue.verifyPacketLen,PmrTermValue.same]

lemma createTerms_of_lt {terms : List PmrMatch} {i k : Nat} {tv : Nat → PmrTermValue}
 (hk : k < i) : createTerms terms i tv k = tv k := by
 induction terms generalizing i tv with
 | nil => rfl
 | cons m terms ih =>
  rw [createTerms,ih (by omega)]
  split
  · rfl
  · exact update_of_ne (by omega) ..

lemma verifyTerms_createTerms (pkt : Packet) (terms : List PmrMatch) (i : Nat)
 (tv : Nat → PmrTermValue) (hzero : ∀ k, i ≤ k → tv k = zeroTermValue) :
 verifyTerms pkt (createTerms terms i tv) terms.length i = true ↔
  Rule.Matches ((terms.filter fun m => m.valSz ≤ pmrTermBytesMax).map PmrMatch.createTerm) pkt := by
 induction terms generalizing i tv with
 | nil => simp [verifyTerms,Rule.Matches]
 | cons m terms ih =>
  rw [List.length_cons,verifyTerms,createTerms]
  by_cases hsz : m.valSz > pmrTermBytesMax
  · have hhead : createTerms terms (i+1) tv i = zeroTermValue :=
     (createTerms_of_lt (by omega)).trans (hzero i le_rfl)
    rw [if_pos hsz,hhead,if_pos (verify_zeroTermValue pkt),
     ih (i+1) tv fun k hk => hzero k (by omega)]
    simp [not_le.mpr hsz]
  · have hhead : createTerms terms (i+1) (update tv i m.createTerm) i =
     m.createTerm := (createTerms_of_lt (by omega)).trans (update_self ..)
    have hrest : ∀ k, i+1 ≤ k → update tv i m.createTerm k = zeroTermValue := fun k hk =>
     (update_of_ne (by omega) ..).trans (hzero k (by omega))
    rw [if_neg hsz,hhead]
    by_cases hm : m.createTerm.verify pkt
    · rw [if_pos hm,ih (i+1) _ hrest]
      simp [Rule.Matches,not_lt.mp hsz,hm]
    · simp [Rule.Matches,not_lt.mp hsz,hm]

lemma firstFree_eq {valid : Nat → Bool} {n max : Nat} (h : ∀ i, valid i = decide (i < n)) :
 firstFree valid max = if n < max then some n else none := by
 rw [firstFree]
 split
 · rename_i hn
   rw [List.find?_range_eq_some]
   refine ⟨by simp [h],List.mem_range.mpr hn,fun j hj => by simp [h,hj]⟩
 · rename_i hn
   rw [List.find?_eq_none]
   intro i hi
   have hlt : i < n := lt_of_lt_of_le (List.mem_range.mp hi) (not_lt.mp hn)
   simp [h,hlt]

end Packages.Classifier

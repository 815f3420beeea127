import Packages.Classifier.Lifetimes
import Packages.Classifier.Selection

/-!
# Sets of terms over their lifetimes

A history of `odp_pmr_match_set_create` and `odp_pmr_match_set_destroy` with the terms of the last
create for every slot. A set matches by its own terms as long as none is too long: a term that is
passed over leaves its place as an earlier set left it.
-/

namespace Packages.Classifier

open Function State Transition

inductive SetCall
 | create (terms : List PmrMatch)
 | destroy (set : Nat)

/-- The sizes are positive as `int`. -/
def SetCall.Sized : SetCall → Prop
 | .create terms => ∀ m ∈ terms, m.valSz < 2^31
 | .destroy _ => True

instance (c : SetCall) : Decidable c.Sized :=
 match c with
 | .create terms => inferInstanceAs (Decidable (∀ m ∈ terms, _))
 | .destroy _ => inferInstanceAs (Decidable True)

structure SetHistory where
 st : State
 own : Nat → List PmrMatch

namespace SetHistory

variable {h h' : SetHistory} {pkt : Packet} {i : Nat}

def step (h : SetHistory) : SetCall → SetHistory
 | .create terms =>
  if terms.length > pmrtermMax then h
  else match firstFree (fun i => (h.st.pmrSetTbl i).valid) pmrSetMaxEntry with
   | none => h
   | some i => ⟨h.st.pmrMatchSetCreate terms,update h.own i terms⟩
 | .destroy set => ⟨h.st.pmrMatchSetDestroy set,h.own⟩

/-- The histories that begin with a table without sets, whatever is left in its slots. -/
def Reachable : SetHistory → Prop :=
 Reach (fun h => ∀ i, (h.st.pmrSetTbl i).valid = false)
  (fun h c => some (h.step c)) fun _ c => c.Sized

/-- A live slot holds the terms of its create call, each in its place. -/
def Holds (h : SetHistory) : Prop := ∀ i, (h.st.pmrSetTbl i).valid = true →
 (h.st.pmrSetTbl i).numPmr = (h.own i).length ∧ ∀ k m, (h.own i)[k]? = some m →
  m.valSz ≤ pmrTermBytesMax → (h.st.pmrSetTbl i).termValue k = m.createTerm

lemma createTerms_getElem {terms : List PmrMatch} {j k : Nat} {tv : Nat → PmrTermValue}
 {m : PmrMatch} (hk : terms[k]? = some m) (hsz : m.valSz ≤ pmrTermBytesMax) :
 createTerms terms j tv (j+k) = m.createTerm := by
 induction terms generalizing j k tv with
 | nil => simp at hk
 | cons x terms ih =>
  rw [createTerms]
  cases k with
  | zero =>
   obtain rfl : x = m := by simpa using hk
   rw [if_neg (not_lt.mpr hsz),createTerms_of_lt (by omega),add_zero,update_self]
  | succ k =>
   rw [add_comm k,← add_assoc]
   exact ih hk

lemma verifyTerms_iff (tv : Nat → PmrTermValue) (n j : Nat) :
 verifyTerms pkt tv n j = true ↔ ∀ k < n, (tv (j+k)).verify pkt = true := by
 induction n generalizing j with
 | zero => simp [verifyTerms]
 | succ n ih =>
  rw [verifyTerms,Nat.forall_lt_succ_left]
  simp [ih,add_assoc,add_comm 1]

lemma Holds.step (hh : h.Holds) (c : SetCall) : (h.step c).Holds := by
 cases c with
 | create terms =>
  rw [SetHistory.step]
  split_ifs with hmax
  · exact hh
  cases hfree : firstFree (fun i => (h.st.pmrSetTbl i).valid) pmrSetMaxEntry with
  | none => exact hh
  | some i =>
   intro j hj
   dsimp only [pmrMatchSetCreate] at hj ⊢
   rw [if_neg hmax,hfree] at hj ⊢
   by_cases hji : j = i
   · subst hji
     simp only [update_self]
     exact ⟨trivial,fun k m hk hsz => by simpa using createTerms_getElem (j := 0) hk hsz⟩
   · simp only [update_of_ne hji] at hj ⊢
     exact hh j hj
 | destroy set =>
  rw [SetHistory.step,pmrMatchSetDestroy]
  cases h.st.getPmrSetEntry set with
  | none => exact hh
  | some ptr =>
   intro j hj
   by_cases hjs : j = set
   · subst hjs
     simp at hj
   · simp only [update_of_ne hjs] at hj ⊢
     exact hh j hj

lemma Reachable.holds (hr : Reachable h) : h.Holds :=
 Reach.invariant (fun _ hnone i hi => absurd hi (by simp [hnone i]))
  (fun _ c _ hh _ hs => Option.some.inj hs ▸ hh.step c) hr

/-- In every history, `verify_pmr` of a live set none of whose terms is too long says whether all
the terms of its own create call match the packet. -/
theorem set_matches_own_terms (h : SetHistory) (hr : Reachable h) (i : Nat)
 (hlive : (h.st.pmrSetTbl i).valid = true) (hall : ∀ m ∈ h.own i, m.valSz ≤ pmrTermBytesMax)
 (pkt : Packet) :
 h.st.verifyPmr pkt (.set i) = true ↔ ∀ m ∈ h.own i, m.createTerm.verify pkt = true := by
 obtain ⟨hnum,hterms⟩ := hr.holds i hlive
 rw [verifyPmr,pmrAt,hlive,Bool.true_and,verifyTerms_iff,hnum,List.forall_mem_iff_getElem]
 refine forall₂_congr fun k hk => ?_
 rw [Nat.zero_add,hterms k _ (List.getElem?_eq_getElem hk) (hall _ (List.getElem_mem hk))]

/-- No sets yet. -/
def start : SetHistory := ⟨init fun _ => 1,fun _ => []⟩

/-- The length of a packet, and that its first byte is zero. -/
def twoTerms : List PmrMatch := [lengthMatch 100,⟨.customFrame,fun _ => 0,fun _ => 255,1,0⟩]

/-- A set of two terms in the slot of a destroyed one of three. -/
def reusedSlot : SetHistory :=
 ((start.step (.create (lengthMatch 99::twoTerms))).step (.destroy 0)).step (.create twoTerms)

theorem set_matches_own_terms_reused :
 reusedSlot.st.verifyPmr (parsedPacket {} fun _ => 0) (.set 0) = true ↔
 ∀ m ∈ twoTerms, m.createTerm.verify (parsedPacket {} fun _ => 0) = true := by
 have hr : Reachable reusedSlot := .next (.next (.next (.start fun _ => rfl)
  (show SetCall.Sized (.create (lengthMatch 99::twoTerms)) by decide) rfl)
  (show SetCall.Sized (.destroy 0) by decide) rfl)
   (show SetCall.Sized (.create twoTerms) by decide) rfl
 exact set_matches_own_terms reusedSlot hr 0 (by decide) (by decide) _

/-- A set without accepted terms in the slot of a destroyed one matches by the terms of the
latter. -/
theorem set_matches_left_terms : ∃ h, Reachable h ∧ (h.st.pmrSetTbl 0).valid = true ∧
 (h.own 0).filter (fun m => m.valSz ≤ pmrTermBytesMax) = [] ∧
 h.st.verifyPmr (parsedPacket {} fun _ => 0) (.set 0) = false := by
 exact Reach.exists_of_run (.start (s := start) fun _ => rfl)
  [.create [lengthMatch 99],.destroy 0,.create [⟨.len,fun _ => 0,fun _ => 0,9,0⟩]] _ (by decide)

end SetHistory

end Packages.Classifier

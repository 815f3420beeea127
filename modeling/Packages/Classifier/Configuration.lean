import Packages.Classifier.Rules

/-!
# Configuration calls and the rule set

`Tables` relates the three tables to the rule set, `AtPktio` the classifiers of one interface. Each
configuration call keeps both.
-/

namespace Packages.Classifier

open Function State Nat

variable {st st' : State} {R R' : RuleSet} {p id : Nat} {ptr : PmrPtr} {r : Rule}

attribute [local simp] setCos pmrAt RuleSet.empty

/-- The cascade of a class of service. -/
inductive CascadeAt (st : State) (R : RuleSet) (c : Nat) : Prop
 | none (hlinked : (st.cosTbl c).linkedCos = none) (hcascade : R.cascade c = none)
 | some (r : Rule) (d : Nat) (ptr : PmrPtr) (hlinked : (st.cosTbl c).linkedCos = some d)
  (hpmr : (st.cosTbl c).pmr = some ptr) (hcascade : R.cascade c = some (r,d))
  (hrule : Denotes st ptr r) (hsrc : c < R.cosCount) (hdst : d < R.cosCount)

structure Tables (st : State) (R : RuleSet) : Prop where
 cosValid : ∀ i, (st.cosTbl i).valid = decide (i < R.cosCount)
 cosCount : R.cosCount ≤ cosMaxEntry
 pmrValid : ∀ i, (st.pmrTbl i).valid = decide (i < R.pmrs.length)
 pmrCount : R.pmrs.length ≤ pmrMaxEntry
 setValid : ∀ i, (st.pmrSetTbl i).valid = decide (i < R.sets.length)
 setCount : R.sets.length ≤ pmrSetMaxEntry
 pmr : ∀ i r, R.pmrs[i]? = some r → Denotes st (.pmr i) r
 set : ∀ i r, R.sets[i]? = some r → Denotes st (.set i) r
 zero : ∀ i, R.sets.length ≤ i → ∀ k, (st.pmrSetTbl i).termValue k = zeroTermValue
 cascade : ∀ c, CascadeAt st R c

/-- The classifier of queue zero holds the rule set of the interface. -/
structure AtPktio (st : State) (p : Nat) (R : RuleSet) : Prop where
 index : (st.pktio p).inQueueIndex (pktioMaxQueues-1) = 0
 globalCls : ((st.pktio p).cls globalClsId).numPmr = 0
 numPmr : ((st.pktio p).cls 0).numPmr = R.rules.length
 count : R.rules.length ≤ pktioMaxPmr
 rules : ∀ i r c, R.rules[i]? = some (r,c) → ((st.pktio p).cls 0).cos i = some c ∧
  c < R.cosCount ∧ ∃ ptr, ((st.pktio p).cls 0).pmr i = some ptr ∧ Denotes st ptr r
 default : ((st.pktio p).cls 0).defaultCos = R.default
 l2 : ((st.pktio p).cls 0).l2CosTable = R.l2Cos
 l3 : ((st.pktio p).cls 0).l3CosTable = R.l3Cos
 precedence : ((st.pktio p).cls 0).l3Precedence = R.l3First

structure Represents (st : State) (p : Nat) (R : RuleSet) : Prop where
 tables : Tables st R
 atPktio : AtPktio st p R

-- Handles

namespace Tables

section

variable (h : Tables st R)

include h

lemma getCosEntry (c : Nat) :
 st.getCosEntry c = if c < R.cosCount then some c else none := by
 have hcount := h.cosCount
 rw [State.getCosEntry,State.cosValid,h.cosValid]
 by_cases hc : c < R.cosCount
 · have : c < cosMaxEntry := lt_of_lt_of_le hc hcount
   simp [this]
 · simp [hc]

lemma getPmrEntry (i : Nat) :
 st.getPmrEntry i = if i < R.pmrs.length then some (.pmr i) else none := by
 have hcount := h.pmrCount
 rw [State.getPmrEntry,h.pmrValid]
 by_cases hi : i < R.pmrs.length
 · have : i < pmrMaxEntry := lt_of_lt_of_le hi hcount
   simp [this]
 · simp [hi]

lemma getPmrSetEntry (i : Nat) :
 st.getPmrSetEntry i = if i < R.sets.length then some (.set i) else none := by
 have hcount := h.setCount
 rw [State.getPmrSetEntry,h.setValid]
 by_cases hi : i < R.sets.length
 · have : i < pmrSetMaxEntry := lt_of_lt_of_le hi hcount
   simp [this]
 · simp [hi]

lemma fillQos (max : Nat) (table : Nat → Option Nat)
 (entries : List (Nat × Nat)) : st.fillQos max table entries = R.fill max table entries := by
 induction entries generalizing table with
 | nil => rfl
 | cons e entries ih =>
  rw [State.fillQos,ih,RuleSet.fill,RuleSet.fill,List.foldl_cons,h.getCosEntry]
  congr 1
  by_cases hc : e.2 < R.cosCount
  · by_cases hq : e.1 < max <;> simp [hc,hq]
  · simp [hc]

lemma congr (hcos : st'.cosTbl = st.cosTbl) (hpmr : st'.pmrTbl = st.pmrTbl)
 (hset : st'.pmrSetTbl = st.pmrSetTbl) (hcount : R'.cosCount = R.cosCount)
 (hpmrs : R'.pmrs = R.pmrs) (hsets : R'.sets = R.sets) (hcascade : R'.cascade = R.cascade) :
 Tables st' R' := by
 have hat : ∀ ptr, st'.pmrAt ptr = st.pmrAt ptr := by
  intro ptr
  cases ptr with
  | pmr i => exact congrFun hpmr i
  | set i => exact congrFun hset i
 constructor
 · rw [hcos,hcount]
   exact h.cosValid
 · rw [hcount]
   exact h.cosCount
 · rw [hpmr,hpmrs]
   exact h.pmrValid
 · rw [hpmrs]
   exact h.pmrCount
 · rw [hset,hsets]
   exact h.setValid
 · rw [hsets]
   exact h.setCount
 · rw [hpmrs]
   exact fun i r hr => (h.pmr i r hr).mono fun _ => hat _
 · rw [hsets]
   exact fun i r hr => (h.set i r hr).mono fun _ => hat _
 · rw [hset,hsets]
   exact h.zero
 · intro c
   cases h.cascade c with
   | none hl hc => exact .none (by rw [hcos]; exact hl) (by rw [hcascade]; exact hc)
   | some r d ptr hl hp hc hr hs hd =>
    exact .some r d ptr (by rw [hcos]; exact hl) (by rw [hcos]; exact hp)
     (by rw [hcascade]; exact hc) (hr.mono fun _ => hat ptr) (by rw [hcount]; exact hs)
     (by rw [hcount]; exact hd)

end

end Tables

lemma AtPktio.congr (h : AtPktio st p R) (hpktio : st'.pktio p = st.pktio p)
 (hat : ∀ ptr, (st.pmrAt ptr).valid = true → st'.pmrAt ptr = st.pmrAt ptr)
 (hcount : R.cosCount ≤ R'.cosCount) (hrules : R'.rules = R.rules) (hdef : R'.default = R.default)
 (hl2 : R'.l2Cos = R.l2Cos) (hl3 : R'.l3Cos = R.l3Cos) (hfirst : R'.l3First = R.l3First) :
 AtPktio st' p R' := by
 obtain ⟨hindex,hglobal,hnum,hlen,hrule,hdefault,hl2',hl3',hprec⟩ := h
 constructor
 · rw [hpktio]
   exact hindex
 · rw [hpktio]
   exact hglobal
 · rw [hpktio,hrules]
   exact hnum
 · rw [hrules]
   exact hlen
 · intro i r c hi
   rw [hrules] at hi
   obtain ⟨hcos,hc,ptr,hptr,hden⟩ := hrule i r c hi
   rw [hpktio]
   exact ⟨hcos,lt_of_lt_of_le hc hcount,ptr,hptr,hden.mono (hat ptr)⟩
 · rw [hpktio,hdef]
   exact hdefault
 · rw [hpktio,hl2]
   exact hl2'
 · rw [hpktio,hl3]
   exact hl3'
 · rw [hpktio,hfirst]
   exact hprec

lemma getElem?_concat {α : Type*} {l : List α} {a b : α} {i : Nat} (h : (l++[a])[i]? = some b) :
 l[i]? = some b ∨ i = l.length ∧ b = a := by
 rcases lt_trichotomy i l.length with hlt | rfl | hgt
 · rw [List.getElem?_append_left hlt] at h
   exact .inl h
 · simp only [List.getElem?_concat_length,Option.some.injEq] at h
   exact .inr ⟨rfl,h.symm⟩
 · rw [List.getElem?_eq_none (by simp; omega)] at h
   cases h

-- New entries

lemma Tables.cosCreate (h : Tables st R) (queue pool : Option Nat) :
 Tables (st.cosCreate queue pool) (R.callHere (.cosCreate queue pool)) := by
 rw [State.cosCreate,firstFree_eq h.cosValid,RuleSet.callHere]
 by_cases hfull : R.cosCount < cosMaxEntry
 · rw [if_pos hfull,if_pos hfull]
   refine ⟨fun i => ?_,hfull,h.pmrValid,h.pmrCount,h.setValid,h.setCount,
    fun i r hr => (h.pmr i r hr).mono fun _ => rfl,fun i r hr => (h.set i r hr).mono fun _ => rfl,
    h.zero,fun c => ?_⟩
   · by_cases hi : i = R.cosCount
     · simp [hi]
     · have hiff : i < R.cosCount ↔ i < R.cosCount+1 := by omega
       simp [hi,h.cosValid,hiff]
   · by_cases hc : c = R.cosCount
     · refine .none (by simp [hc]) ?_
       cases h.cascade c with
       | none _ hcascade => exact hcascade
       | some r d ptr _ _ _ _ hsrc _ => exact absurd hsrc (by omega)
     · cases h.cascade c with
       | none hl hcascade => exact .none (by simp [hc,hl]) hcascade
       | some r d ptr hl hp hcascade hr hs hd =>
        exact .some r d ptr (by simp [hc,hl]) (by simp [hc,hp]) hcascade
         (hr.mono fun _ => rfl) (lt_succ_of_lt hs) (lt_succ_of_lt hd)
 · rw [if_neg hfull,if_neg hfull]
   exact h

lemma CascadeAt.mono {c : Nat} (h : CascadeAt st R c) (hcos : st'.cosTbl = st.cosTbl)
 (hat : ∀ ptr, (st.pmrAt ptr).valid = true → st'.pmrAt ptr = st.pmrAt ptr)
 (hcount : R'.cosCount = R.cosCount) (hcascade : R'.cascade = R.cascade) : CascadeAt st' R' c := by
 cases h with
 | none hl hc => exact .none (by rw [hcos]; exact hl) (by rw [hcascade]; exact hc)
 | some r d ptr hl hp hc hr hs hd =>
  exact .some r d ptr (by rw [hcos]; exact hl) (by rw [hcos]; exact hp) (by rw [hcascade]; exact hc)
   (hr.mono (hat ptr)) (by rw [hcount]; exact hs) (by rw [hcount]; exact hd)

lemma pmrAt_update_pmr {n : Nat} {e : Pmr} (hfree : (st.pmrTbl n).valid = false) (ptr : PmrPtr)
 (hvalid : (st.pmrAt ptr).valid = true) :
 pmrAt { st with pmrTbl := update st.pmrTbl n e } ptr = st.pmrAt ptr := by
 cases ptr with
 | set i => rfl
 | pmr i =>
  refine update_of_ne ?_ ..
  rintro rfl
  exact absurd (hvalid.symm.trans hfree) (by decide)

lemma pmrAt_update_set {n : Nat} {e : Pmr} (hfree : (st.pmrSetTbl n).valid = false) (ptr : PmrPtr)
 (hvalid : (st.pmrAt ptr).valid = true) :
 pmrAt { st with pmrSetTbl := update st.pmrSetTbl n e } ptr = st.pmrAt ptr := by
 cases ptr with
 | pmr i => rfl
 | set i =>
  refine update_of_ne ?_ ..
  rintro rfl
  exact absurd (hvalid.symm.trans hfree) (by decide)

lemma valid_update {tbl : Nat → Pmr} {n : Nat} {e : Pmr} (h : ∀ i, (tbl i).valid = decide (i < n))
 (he : e.valid = true) (i : Nat) : (update tbl n e i).valid = decide (i < n+1) := by
 by_cases hi : i = n
 · simp [hi,he]
 · have hiff : i < n ↔ i < n+1 := by omega
   simp [hi,h,hiff]

lemma Tables.pmrCreate (h : Tables st R) (m : PmrMatch) :
 Tables (st.pmrCreate m) (R.callHere (.pmrCreate m)) ∧
  ∀ ptr, (st.pmrAt ptr).valid = true → (st.pmrCreate m).pmrAt ptr = st.pmrAt ptr := by
 rw [State.pmrCreate,firstFree_eq h.pmrValid,RuleSet.callHere]
 by_cases hsz : m.valSz > pmrTermBytesMax
 · rw [if_pos hsz,if_neg fun hor => not_le.mpr hsz hor.1]
   exact ⟨h,fun _ _ => rfl⟩
 rw [if_neg hsz]
 by_cases hfull : R.pmrs.length < pmrMaxEntry
 · rw [if_pos hfull,if_pos ⟨not_lt.mp hsz,hfull⟩]
   have hfree : (st.pmrTbl R.pmrs.length).valid = false := by simp [h.pmrValid]
   have hat := @pmrAt_update_pmr st R.pmrs.length
    ⟨true,1,update (st.pmrTbl R.pmrs.length).termValue 0 m.createTerm⟩ hfree
   refine ⟨⟨h.cosValid,h.cosCount,fun i => ?_,by rw [List.length_append]; exact hfull,
    h.setValid,h.setCount,fun i r hr => ?_,fun i r hr => (h.set i r hr).mono (hat _),h.zero,
    fun c => (h.cascade c).mono rfl hat rfl rfl⟩,hat⟩
   · simpa using valid_update h.pmrValid rfl i
   · rcases getElem?_concat hr with hr | ⟨rfl,rfl⟩
     · exact (h.pmr i r hr).mono (hat _)
     · refine ⟨by simp,fun pkt => ?_⟩
       simp [verifyPmr,verifyTerms,Rule.Matches]
 · rw [if_neg hfull,if_neg fun hor => hfull hor.2]
   exact ⟨h,fun _ _ => rfl⟩

lemma Tables.pmrMatchSetCreate (h : Tables st R) (terms : List PmrMatch) :
 Tables (st.pmrMatchSetCreate terms) (R.callHere (.pmrMatchSetCreate terms)) ∧
  ∀ ptr, (st.pmrAt ptr).valid = true →
   (st.pmrMatchSetCreate terms).pmrAt ptr = st.pmrAt ptr := by
 rw [State.pmrMatchSetCreate,firstFree_eq h.setValid,RuleSet.callHere]
 by_cases hnum : terms.length > pmrtermMax
 · rw [if_pos hnum,if_neg fun hor => not_le.mpr hnum hor.1]
   exact ⟨h,fun _ _ => rfl⟩
 rw [if_neg hnum]
 by_cases hfull : R.sets.length < pmrSetMaxEntry
 · rw [if_pos hfull,if_pos ⟨not_lt.mp hnum,hfull⟩]
   have hfree : (st.pmrSetTbl R.sets.length).valid = false := by simp [h.setValid]
   have hat := @pmrAt_update_set st R.sets.length
    ⟨true,terms.length,createTerms terms 0 (st.pmrSetTbl R.sets.length).termValue⟩ hfree
   refine ⟨⟨h.cosValid,h.cosCount,h.pmrValid,h.pmrCount,fun i => ?_,
    by rw [List.length_append]; exact hfull,
    fun i r hr => (h.pmr i r hr).mono (hat _),fun i r hr => ?_,fun i hi k => ?_,
    fun c => (h.cascade c).mono rfl hat rfl rfl⟩,hat⟩
   · simpa using valid_update h.setValid rfl i
   · rcases getElem?_concat hr with hr | ⟨rfl,rfl⟩
     · exact (h.set i r hr).mono (hat _)
     · refine ⟨by simp,fun pkt => ?_⟩
       rw [← verifyTerms_createTerms pkt terms 0 _ fun k _ => h.zero R.sets.length le_rfl k]
       simp [verifyPmr]
   · have hne : i ≠ R.sets.length := by
      simp only [List.length_append,List.length_singleton] at hi
      omega
     simp only [List.length_append,List.length_singleton] at hi
     dsimp only
     rw [update_of_ne hne]
     exact h.zero i (by omega) k
 · rw [if_neg hfull,if_neg fun hor => hfull hor.2]
   exact ⟨h,fun _ _ => rfl⟩

lemma Tables.cosPmrCos (h : Tables st R) (pmr src dst : Nat) :
 Tables (st.cosPmrCos pmr src dst) (R.callHere (.cosPmrCos pmr src dst)) := by
 rw [State.cosPmrCos,h.getCosEntry,h.getCosEntry,h.getPmrEntry,RuleSet.callHere]
 cases hr : R.pmrs[pmr]? with
 | none =>
  rw [if_neg (not_lt.mpr (List.getElem?_eq_none_iff.mp hr))]
  split
  · rename_i hnone
    cases hnone
  · exact h
 | some r =>
  have hlt : pmr < R.pmrs.length := (List.getElem?_eq_some_iff.mp hr).1
  rw [if_pos hlt]
  by_cases hboth : src < R.cosCount ∧ dst < R.cosCount
  · rw [if_pos hboth.1,if_pos hboth.2]
    simp only [if_pos hboth]
    refine ⟨fun i => ?_,h.cosCount,h.pmrValid,h.pmrCount,h.setValid,h.setCount,
     fun i r hr => (h.pmr i r hr).mono fun _ => rfl,
     fun i r hr => (h.set i r hr).mono fun _ => rfl,h.zero,fun c => ?_⟩
    · by_cases hi : i = src <;> simp [hi,h.cosValid]
    · by_cases hc : c = src
      · subst hc
        exact .some r dst (.pmr pmr) (by simp) (by simp) (by simp)
         ((h.pmr pmr r hr).mono fun _ => rfl) hboth.1 hboth.2
      · cases h.cascade c with
        | none hl hcascade => exact .none (by simp [hc,hl]) (by simp [hc,hcascade])
        | some r' d ptr hl hp hcascade hden hs hd =>
         exact .some r' d ptr (by simp [hc,hl]) (by simp [hc,hp])
          (by simp [hc,hcascade]) (hden.mono fun _ => rfl) hs hd
  · simp only [if_neg hboth]
    split
    · rename_i hsrc hdst _
      refine absurd ⟨?_,?_⟩ hboth
      · exact Decidable.by_contra fun hn => by simp [hn] at hsrc
      · exact Decidable.by_contra fun hn => by simp [hn] at hdst
    · exact h

-- Stores to the classifiers of the interface

@[simp] lemma pktio_setCls (st : State) (p id : Nat) (cls : Cls) :
 ((st.setCls p id cls).pktio p).cls = update (st.pktio p).cls id cls := by
 simp [setCls,setPktio]

@[simp] lemma inQueueIndex_setCls (st : State) (p id : Nat) (cls : Cls) :
 ((st.setCls p id cls).pktio p).inQueueIndex = (st.pktio p).inQueueIndex := by
 simp [setCls,setPktio]

variable {q : Nat}

lemma pktio_setCls_of_ne (st : State) {p : Nat} (hne : p ≠ q) (id : Nat) (cls : Cls) :
 (st.setCls q id cls).pktio p = st.pktio p := update_of_ne hne ..

section

variable (h : Represents st p R)

include h

lemma Represents.of_setCls (hne : p ≠ q) (cls : Cls) : Represents (st.setCls q id cls) p R :=
 ⟨h.tables.congr rfl rfl rfl rfl rfl rfl rfl,
  h.atPktio.congr (pktio_setCls_of_ne st hne id cls) (fun _ _ => rfl) le_rfl rfl rfl rfl rfl rfl⟩

lemma Represents.attach {c : Nat} (hrule : Denotes st ptr r)
 (hc : c < R.cosCount) : Represents (st.attach p 0 ptr c) p (R.attach (some r) c) := by
 have hnum := h.atPktio.numPmr
 rw [State.attach,RuleSet.attach,hnum]
 by_cases hfull : R.rules.length < pktioMaxPmr
 · simp only [if_neg (not_le.mpr hfull),if_pos (And.intro hc hfull)]
   refine ⟨h.tables.congr rfl rfl rfl rfl rfl rfl rfl,?_,?_,?_,?_,fun i r' c' hi => ?_,?_,?_,?_,?_⟩
   · rw [inQueueIndex_setCls]
     exact h.atPktio.index
   · rw [pktio_setCls]
     exact h.atPktio.globalCls
   · simp
   · rw [List.length_append]
     exact hfull
   · rw [pktio_setCls,update_self]
     rcases getElem?_concat hi with hi | ⟨rfl,heq⟩
     · have hne : i ≠ R.rules.length := Nat.ne_of_lt (List.getElem?_eq_some_iff.mp hi).1
       obtain ⟨hcos,hlt,ptr',hptr,hden⟩ := h.atPktio.rules i r' c' hi
       exact ⟨by simp [hne,hcos],hlt,ptr',by simp [hne,hptr],hden.mono fun _ => rfl⟩
     · cases heq
       exact ⟨by simp,hc,ptr,by simp,hrule.mono fun _ => rfl⟩
   · rw [pktio_setCls,update_self]
     exact h.atPktio.default
   · rw [pktio_setCls,update_self]
     exact h.atPktio.l2
   · rw [pktio_setCls,update_self]
     exact h.atPktio.l3
   · rw [pktio_setCls,update_self]
     exact h.atPktio.precedence
 · simp only [if_pos (not_lt.mp hfull),if_neg fun hor : c < R.cosCount ∧ _ => hfull hor.2]
   exact h

lemma Represents.of_setCls_self {cls : Cls}
 (hnum : cls.numPmr = ((st.pktio p).cls 0).numPmr) (hpmr : cls.pmr = ((st.pktio p).cls 0).pmr)
 (hcos : cls.cos = ((st.pktio p).cls 0).cos) (hcount : R'.cosCount = R.cosCount)
 (hpmrs : R'.pmrs = R.pmrs) (hsets : R'.sets = R.sets) (hcascade : R'.cascade = R.cascade)
 (hrules : R'.rules = R.rules) (hdef : cls.defaultCos = R'.default)
 (hl2 : cls.l2CosTable = R'.l2Cos) (hl3 : cls.l3CosTable = R'.l3Cos)
 (hfirst : cls.l3Precedence = R'.l3First) : Represents (st.setCls p 0 cls) p R' := by
 refine ⟨h.tables.congr rfl rfl rfl hcount hpmrs hsets hcascade,?_,?_,?_,?_,fun i r c hi => ?_,
  ?_,?_,?_,?_⟩
 · rw [inQueueIndex_setCls]
   exact h.atPktio.index
 · rw [pktio_setCls]
   exact h.atPktio.globalCls
 · rw [pktio_setCls,update_self,hnum,hrules]
   exact h.atPktio.numPmr
 · rw [hrules]
   exact h.atPktio.count
 · rw [hrules] at hi
   obtain ⟨hc,hlt,ptr,hptr,hden⟩ := h.atPktio.rules i r c hi
   rw [pktio_setCls,update_self,hcos,hpmr,hcount]
   exact ⟨hc,hlt,ptr,hptr,hden.mono fun _ => rfl⟩
 · rw [pktio_setCls,update_self]
   exact hdef
 · rw [pktio_setCls,update_self]
   exact hl2
 · rw [pktio_setCls,update_self]
   exact hl3
 · rw [pktio_setCls,update_self]
   exact hfirst

-- Calls

lemma Represents.cosCreate (queue pool : Option Nat) :
 Represents (st.cosCreate queue pool) p (R.callHere (.cosCreate queue pool)) := by
 refine ⟨h.tables.cosCreate queue pool,?_⟩
 have hstore : (st.cosCreate queue pool).pktio = st.pktio ∧
  ∀ ptr, (st.cosCreate queue pool).pmrAt ptr = st.pmrAt ptr := by
  rw [State.cosCreate]
  split
  · exact ⟨rfl,fun _ => rfl⟩
  · exact ⟨rfl,fun ptr => by cases ptr <;> rfl⟩
 have hcount : R.cosCount ≤ (R.callHere (.cosCreate queue pool)).cosCount := by
  rw [RuleSet.callHere]
  split
  · exact le_succ _
  · exact le_rfl
 refine h.atPktio.congr (congrFun hstore.1 p) (fun ptr _ => hstore.2 ptr) hcount ?_ ?_ ?_ ?_ ?_ <;>
  (rw [RuleSet.callHere]; split <;> rfl)

lemma Represents.pmrCreate (m : PmrMatch) :
 Represents (st.pmrCreate m) p (R.callHere (.pmrCreate m)) := by
 obtain ⟨htables,hat⟩ := h.tables.pmrCreate m
 have hpktio : (st.pmrCreate m).pktio = st.pktio := by
  rw [State.pmrCreate]
  split
  · rfl
  · split <;> rfl
 refine ⟨htables,h.atPktio.congr (congrFun hpktio p) hat ?_ ?_ ?_ ?_ ?_ ?_⟩ <;>
  (rw [RuleSet.callHere]; split <;> rfl)

lemma Represents.pmrMatchSetCreate (terms : List PmrMatch) :
 Represents (st.pmrMatchSetCreate terms) p (R.callHere (.pmrMatchSetCreate terms)) := by
 obtain ⟨htables,hat⟩ := h.tables.pmrMatchSetCreate terms
 have hpktio : (st.pmrMatchSetCreate terms).pktio = st.pktio := by
  rw [State.pmrMatchSetCreate]
  split
  · rfl
  · split <;> rfl
 refine ⟨htables,h.atPktio.congr (congrFun hpktio p) hat ?_ ?_ ?_ ?_ ?_ ?_⟩ <;>
  (rw [RuleSet.callHere]; split <;> rfl)

lemma Represents.cosPmrCos (pmr src dst : Nat) :
 Represents (st.cosPmrCos pmr src dst) p (R.callHere (.cosPmrCos pmr src dst)) := by
 have hstore : (st.cosPmrCos pmr src dst).pktio = st.pktio ∧
  ∀ ptr, (st.cosPmrCos pmr src dst).pmrAt ptr = st.pmrAt ptr := by
  rw [State.cosPmrCos]
  split
  · exact ⟨rfl,fun ptr => by cases ptr <;> rfl⟩
  · exact ⟨rfl,fun _ => rfl⟩
 refine ⟨h.tables.cosPmrCos pmr src dst,
  h.atPktio.congr (congrFun hstore.1 p) (fun ptr _ => hstore.2 ptr) ?_ ?_ ?_ ?_ ?_ ?_⟩ <;>
  (rw [RuleSet.callHere]; split <;> first | rfl | (split <;> rfl))

lemma Represents.pktioDefaultCosSet (cos : Nat) :
 Represents (st.pktioDefaultCosSet p cos) p (R.callHere (.pktioDefaultCosSet p cos)) := by
 rw [State.pktioDefaultCosSet,h.tables.getCosEntry,RuleSet.callHere]
 by_cases hc : cos < R.cosCount
 · simp only [if_pos hc,h.atPktio.index]
   exact h.of_setCls_self rfl rfl rfl rfl rfl rfl rfl rfl rfl h.atPktio.l2 h.atPktio.l3
    h.atPktio.precedence
 · simp only [if_neg hc]
   exact h

lemma Represents.pktioPmrCos (pmr cos : Nat) :
 Represents (st.pktioPmrCos pmr p cos) p (R.callHere (.pktioPmrCos pmr p cos)) := by
 rw [State.pktioPmrCos,h.tables.getCosEntry,h.tables.getPmrEntry,RuleSet.callHere]
 cases hr : R.pmrs[pmr]? with
 | none =>
  rw [if_neg (not_lt.mpr (List.getElem?_eq_none_iff.mp hr))]
  exact h
 | some r =>
  rw [if_pos (List.getElem?_eq_some_iff.mp hr).1]
  by_cases hc : cos < R.cosCount
  · rw [if_pos hc]
    exact h.attach (h.tables.pmr pmr r hr) hc
  · rw [if_neg hc,RuleSet.attach,if_neg fun hor => hc hor.1]
    exact h

lemma Represents.pktioPmrMatchSetCos (set cos : Nat) :
 Represents (st.pktioPmrMatchSetCos set p cos) p (R.callHere (.pktioPmrMatchSetCos set p cos)) := by
 rw [State.pktioPmrMatchSetCos,h.tables.getCosEntry,h.tables.getPmrSetEntry,RuleSet.callHere,
  h.atPktio.index]
 cases hr : R.sets[set]? with
 | none =>
  rw [if_neg (not_lt.mpr (List.getElem?_eq_none_iff.mp hr))]
  exact h
 | some r =>
  rw [if_pos (List.getElem?_eq_some_iff.mp hr).1]
  by_cases hc : cos < R.cosCount
  · rw [if_pos hc]
    exact h.attach (h.tables.set set r hr) hc
  · rw [if_neg hc,RuleSet.attach,if_neg fun hor => hc hor.1]
    exact h

lemma Represents.cosWithL2Priority (table : List (Nat × Nat)) :
 Represents (st.cosWithL2Priority p table) p (R.callHere (.cosWithL2Priority p table)) := by
 rw [State.cosWithL2Priority,RuleSet.callHere]
 refine h.of_setCls_self rfl rfl rfl rfl rfl rfl rfl rfl h.atPktio.default ?_ h.atPktio.l3
  h.atPktio.precedence
 simp only [h.tables.fillQos,h.atPktio.l2]

lemma Represents.cosWithL3Qos (table : List (Nat × Nat)) (pref : Bool) :
 Represents (st.cosWithL3Qos p table pref) p (R.callHere (.cosWithL3Qos p table pref)) := by
 rw [State.cosWithL3Qos,RuleSet.callHere]
 refine h.of_setCls_self rfl rfl rfl rfl rfl rfl rfl rfl h.atPktio.default h.atPktio.l2 ?_ rfl
 simp only [h.tables.fillQos,h.atPktio.l3]

lemma Represents.call_other {c : Call} (hc : c.pktio? = some q)
 (hne : p ≠ q) : Represents (st.call c) p R := by
 have hrefused : ∀ st', Represents st' p R → Represents (st.onPktio q st') p R := by
  intro st' hst'
  rw [onPktio]
  split
  · exact hst'
  · exact h
 have hattach : ∀ id ptr cos, Represents (st.attach q id ptr cos) p R := by
  intro id ptr cos
  rw [State.attach]
  split
  · exact h
  · exact h.of_setCls hne _
 cases c with
 | cosCreate | pmrCreate | pmrMatchSetCreate | cosPmrCos => cases hc
 | pktioDefaultCosSet _ cos =>
  cases hc
  refine hrefused _ ?_
  rw [State.pktioDefaultCosSet]
  split
  · exact h
  · exact h.of_setCls hne _
 | pktioPmrCos pmr _ cos =>
  cases hc
  refine hrefused _ ?_
  rw [State.pktioPmrCos]
  split
  · exact hattach ..
  · exact h
 | pktioPmrMatchSetCos set _ cos =>
  cases hc
  refine hrefused _ ?_
  rw [State.pktioPmrMatchSetCos]
  split
  · exact hattach ..
  · exact h
 | cosWithL2Priority _ table | cosWithL3Qos _ table pref =>
  cases hc
  exact hrefused _ (h.of_setCls hne _)

end

/-- The tables of a state and of another one are the same. -/
structure SameTables (st st' : State) : Prop where
 cos : st'.cosTbl = st.cosTbl
 pmr : st'.pmrTbl = st.pmrTbl
 set : st'.pmrSetTbl = st.pmrSetTbl

lemma SameTables.onPktio (h : SameTables st st') (q : Nat) : SameTables st (st.onPktio q st') := by
 rw [State.onPktio]
 split
 · exact h
 · exact ⟨rfl,rfl,rfl⟩

lemma sameTables_attach (st : State) (q id : Nat) (ptr : PmrPtr) (cos : Nat) :
 SameTables st (st.attach q id ptr cos) := by
 rw [attach]
 split <;> exact ⟨rfl,rfl,rfl⟩

lemma sameTables_call (st : State) {c : Call} (hc : c.pktio? = some q) :
 SameTables st (st.call c) := by
 cases c with
 | cosCreate | pmrCreate | pmrMatchSetCreate | cosPmrCos => cases hc
 | pktioDefaultCosSet _ cos =>
  refine SameTables.onPktio ?_ _
  rw [pktioDefaultCosSet]
  split <;> exact ⟨rfl,rfl,rfl⟩
 | pktioPmrCos pmr _ cos =>
  refine SameTables.onPktio ?_ _
  rw [pktioPmrCos]
  split
  · exact sameTables_attach ..
  · exact ⟨rfl,rfl,rfl⟩
 | pktioPmrMatchSetCos set _ cos =>
  refine SameTables.onPktio ?_ _
  rw [pktioPmrMatchSetCos]
  split
  · exact sameTables_attach ..
  · exact ⟨rfl,rfl,rfl⟩
 | cosWithL2Priority _ table | cosWithL3Qos _ table pref =>
  refine SameTables.onPktio ?_ _
  exact ⟨rfl,rfl,rfl⟩

/-- What the tables hold of the rule set is the same. -/
structure SameTablePart (R R' : RuleSet) : Prop where
 cosCount : R'.cosCount = R.cosCount
 pmrs : R'.pmrs = R.pmrs
 sets : R'.sets = R.sets
 cascade : R'.cascade = R.cascade

lemma sameTablePart_attach (R : RuleSet) (rule : Option Rule) (cos : Nat) :
 SameTablePart R (R.attach rule cos) := by
 cases rule with
 | none => exact ⟨rfl,rfl,rfl,rfl⟩
 | some r =>
  rw [RuleSet.attach]
  split <;> exact ⟨rfl,rfl,rfl,rfl⟩

lemma sameTablePart_call (R : RuleSet) {c : Call} (hc : c.pktio? = some q) :
 SameTablePart R (R.call p c) := by
 rw [RuleSet.call]
 split
 · cases c with
   | cosCreate | pmrCreate | pmrMatchSetCreate | cosPmrCos => cases hc
   | pktioDefaultCosSet _ cos =>
    rw [RuleSet.callHere]
    split <;> exact ⟨rfl,rfl,rfl,rfl⟩
   | pktioPmrCos pmr _ cos | pktioPmrMatchSetCos set _ cos => exact sameTablePart_attach ..
   | cosWithL2Priority _ table | cosWithL3Qos _ table pref => exact ⟨rfl,rfl,rfl,rfl⟩
 · exact ⟨rfl,rfl,rfl,rfl⟩

lemma Tables.call_pktio (h : Tables st R) {c : Call} (hc : c.pktio? = some q) :
 Tables (st.call c) (R.call p c) := by
 obtain ⟨hcos,hpmr,hset⟩ := sameTables_call st hc
 obtain ⟨hcount,hpmrs,hsets,hcascade⟩ := sameTablePart_call R hc
 exact h.congr hcos hpmr hset hcount hpmrs hsets hcascade

lemma Tables.call (h : Tables st R) (c : Call) : Tables (st.call c) (R.call p c) := by
 cases c with
 | cosCreate queue pool => exact h.cosCreate queue pool
 | pmrCreate m => exact (h.pmrCreate m).1
 | pmrMatchSetCreate terms => exact (h.pmrMatchSetCreate terms).1
 | cosPmrCos pmr src dst => exact h.cosPmrCos pmr src dst
 | pktioDefaultCosSet | pktioPmrCos | pktioPmrMatchSetCos | cosWithL2Priority | cosWithL3Qos =>
  exact h.call_pktio rfl

lemma Represents.call (h : Represents st p R) (hp : p < configPktioEntries) (c : Call) :
 Represents (st.call c) p (R.call p c) := by
 rw [RuleSet.call]
 by_cases hc : c.pktio? = none ∨ c.pktio? = some p
 · rw [if_pos hc]
   have hself : ∀ q, c.pktio? = some q → q = p := fun q hq => by simpa [hq] using hc
   cases c with
   | cosCreate queue pool => exact h.cosCreate queue pool
   | pmrCreate m => exact h.pmrCreate m
   | pmrMatchSetCreate terms => exact h.pmrMatchSetCreate terms
   | cosPmrCos pmr src dst => exact h.cosPmrCos pmr src dst
   | pktioDefaultCosSet q cos =>
    obtain rfl := hself q rfl
    rw [call,onPktio,if_pos hp]
    exact h.pktioDefaultCosSet cos
   | pktioPmrCos pmr q cos =>
    obtain rfl := hself q rfl
    rw [call,onPktio,if_pos hp]
    exact h.pktioPmrCos pmr cos
   | pktioPmrMatchSetCos set q cos =>
    obtain rfl := hself q rfl
    rw [call,onPktio,if_pos hp]
    exact h.pktioPmrMatchSetCos set cos
   | cosWithL2Priority q table =>
    obtain rfl := hself q rfl
    rw [call,onPktio,if_pos hp]
    exact h.cosWithL2Priority table
   | cosWithL3Qos q table pref =>
    obtain rfl := hself q rfl
    rw [call,onPktio,if_pos hp]
    exact h.cosWithL3Qos table pref
 · rw [if_neg hc]
   obtain ⟨hsome,hne⟩ := not_or.mp hc
   obtain ⟨q,hq⟩ := Option.ne_none_iff_exists'.mp hsome
   exact h.call_other hq fun heq => hne (heq ▸ hq)

lemma tables_init (numInQueue : Nat → Nat) : Tables (init numInQueue) .empty :=
 ⟨by simp [init,zeroCos],by simp,by simp [init,zeroPmr],by simp,by simp [init,zeroPmr],by simp,
  by simp,by simp,fun _ _ _ => rfl,fun _ => .none rfl rfl⟩

lemma represents_init {numInQueue : Nat → Nat} (hq : numInQueue p < pktioMaxQueues) :
 Represents (init numInQueue) p .empty := by
 refine ⟨tables_init numInQueue,?_,rfl,rfl,by simp,by simp,rfl,rfl,rfl,rfl⟩
 have hlast : ¬ pktioMaxQueues-1 < numInQueue p := by
  simp only [pktioMaxQueues] at hq ⊢
  omega
 simp [init,initPktio,hlast]

lemma tables_configure (numInQueue : Nat → Nat) (p : Nat) (calls : List Call) :
 Tables ((init numInQueue).configure calls) (ruleSet p calls) := by
 have hrun : ∀ st R, Tables st R →
  Tables (st.configure calls) (calls.foldl (RuleSet.call p) R) := by
  induction calls with
  | nil => exact fun _ _ h => h
  | cons c calls ih => exact fun st R h => ih _ _ (h.call c)
 exact hrun _ _ (tables_init numInQueue)

lemma represents_configure {numInQueue : Nat → Nat} (hp : p < configPktioEntries)
 (hq : numInQueue p < pktioMaxQueues) (calls : List Call) :
 Represents ((init numInQueue).configure calls) p (ruleSet p calls) := by
 have hrun : ∀ st R, Represents st p R →
  Represents (st.configure calls) p (calls.foldl (RuleSet.call p) R) := by
  induction calls with
  | nil => exact fun _ _ h => h
  | cons c calls ih => exact fun st R h => ih _ _ (h.call hp c)
 exact hrun _ _ (represents_init hq)

end Packages.Classifier

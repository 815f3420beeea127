import Packages.Classifier.Lifetimes
import Packages.Classifier.Selection

/-!
# What an attachment leads to is what it was made for

If no class of service is destroyed while it is a default or in a table of priorities, and no slot
is used again while an attachment points to it, the classifier only goes through fresh attachments.
-/

namespace Packages.Classifier

open Function State
open Option (map_eq_some_iff)

open Packages.Parser Transition

variable {st st' : State} {pkt : Packet} {a : Attachment} {e : Entry}

attribute [local simp] makes

-- Traces

lemma mem_entriesOf {pmr : Option PmrPtr} {cos : Option Nat} :
 e ∈ entriesOf pmr cos ↔ (∃ ptr, pmr = some ptr ∧ e = .pmr ptr) ∨ ∃ c, cos = some c ∧
 e = .cos c := by
 simp [entriesOf,eq_comm]

lemma map_fst_map {α β : Type*} (x : Option α) (b : β) : (x.map (·,b)).map Prod.fst = x := by
 cases x <;> rfl

lemma State.qosL3Trace_eq (p : Nat) :
 (st.qosL3Trace pkt p).map Prod.fst = matchQosL3Cos pkt ((st.pktio p).cls 0).l3CosTable := by
 unfold qosL3Trace matchQosL3Cos
 split
 · exact map_fst_map ..
 · split
   · exact map_fst_map ..
   · rfl

lemma State.qosL2Trace_eq (p : Nat) :
 (st.qosL2Trace pkt p).map Prod.fst = matchQosL2Cos pkt ((st.pktio p).cls 0).l2CosTable := by
 unfold qosL2Trace matchQosL2Cos
 split
 · exact map_fst_map ..
 · rfl

lemma State.qosTrace_eq (p : Nat) :
 (st.qosTrace pkt p).map Prod.fst = matchQosCos pkt ((st.pktio p).cls 0) := by
 unfold qosTrace matchQosCos
 split
 · rw [← qosL3Trace_eq,← qosL2Trace_eq]
   cases st.qosL3Trace pkt p <;> rfl
 · rw [← qosL3Trace_eq,← qosL2Trace_eq]
   cases st.qosL2Trace pkt p <;> rfl

lemma State.selectTrace_eq (p queueId : Nat) :
 (st.selectTrace pkt p queueId).map (·.map Prod.fst) = st.selectCosParsed pkt p queueId := by
 unfold selectTrace selectCosParsed
 simp only
 split
 · rfl
 · rw [← scanTrace_eq p globalClsId,← scanTrace_eq p queueId,← qosTrace_eq]
   cases st.scanTrace pkt p globalClsId ((st.pktio p).cls globalClsId).numPmr 0 with
   | none => rfl
   | some found =>
    cases found with
    | some found => rfl
    | none =>
     cases st.scanTrace pkt p queueId ((st.pktio p).cls queueId).numPmr 0 with
     | none => rfl
     | some found =>
      cases found with
      | some found => rfl
      | none =>
       cases st.qosTrace pkt p with
       | some found => rfl
       | none => exact congrArg some (map_fst_map ..)

/-- The attachments of a trace point to valid entries. -/
def Good (st : State) (found : Nat × List Attachment) : Prop :=
 (st.cosTbl found.1).valid = true ∧ ∀ a ∈ found.2, ∀ e ∈ st.attached a, st.entryValid e = true

variable {found : Nat × List Attachment}

lemma good_matchTrace {fuel : Nat} {cos : Option Nat} {pmr : Option PmrPtr}
 (ha : ∀ e ∈ st.attached a, e ∈ entriesOf pmr cos)
 (h : st.matchTrace pkt fuel a cos pmr = some (some found)) : Good st found := by
 induction fuel generalizing a cos pmr found with
 | zero => cases h
 | succ fuel ih =>
  cases cos with
  | none => cases h
  | some cos =>
   cases pmr with
   | none => cases h
   | some pmr =>
    simp only [matchTrace] at h
    split at h
    · next hcos =>
      split at h
      · next hpmr =>
        have hvalid : ∀ e ∈ st.attached a, st.entryValid e = true := by
         intro e he
         obtain ⟨ptr,hptr,rfl⟩ | ⟨c,hc,rfl⟩ := mem_entriesOf.mp (ha e he)
         · cases hptr
           exact (Bool.and_eq_true_iff.mp hpmr).1
         · cases hc
           exact hcos
        have hlink : ∀ e ∈ st.attached (.link cos),
          e ∈ entriesOf (st.cosTbl cos).pmr (st.cosTbl cos).linkedCos := by
         intro e he
         change e ∈ (st.cosTbl cos).linkEntries at he
         rwa [Cos.linkEntries,if_pos hcos] at he
        split at h
        · cases h
        · obtain rfl := Option.some.inj (Option.some.inj h)
          refine ⟨hcos,fun b hb => ?_⟩
          obtain rfl := List.mem_singleton.mp hb
          exact hvalid
        · next retcos trace hrec =>
          obtain rfl := Option.some.inj (Option.some.inj h)
          obtain ⟨hret,htrace⟩ := ih hlink hrec
          refine ⟨hret,fun b hb => ?_⟩
          obtain rfl | hb := List.mem_cons.mp hb
          · exact hvalid
          · exact htrace b hb
      · cases h
    · cases h

variable {p : Nat}

lemma good_scanTrace {id left i : Nat}
 (h : st.scanTrace pkt p id left i = some (some found)) : Good st found := by
 induction left generalizing i with
 | zero => cases h
 | succ left ih =>
  simp only [scanTrace] at h
  split at h
  · cases h
  · next hmatch =>
    obtain rfl := Option.some.inj (Option.some.inj h)
    refine good_matchTrace (fun e he => ?_) hmatch
    change e ∈ ((st.pktio p).cls id).ruleEntries i at he
    rw [Cls.ruleEntries] at he
    split at he
    · exact he
    · cases he
  · exact ih h

section

variable (hstrong : ∀ a : Attachment, a.Unchecked → ∀ e ∈ st.attached a, st.entryValid e = true)

include hstrong

lemma good_unchecked (a : Attachment) (ha : a.Unchecked) {c : Nat} (hc : .cos c ∈ st.attached a) :
 Good st (c,[a]) := by
 refine ⟨hstrong a ha _ hc,fun b hb => ?_⟩
 obtain rfl := List.mem_singleton.mp hb
 exact hstrong b ha

lemma good_qosTrace (h : st.qosTrace pkt p = some found) : Good st found := by
 have hl3 : ∀ {found}, st.qosL3Trace pkt p = some found → Good st found := by
  intro found h
  have hqos : ∀ qos, (((st.pktio p).cls 0).l3CosTable qos).map (·,[Attachment.l3 p qos]) =
    some found → Good st found := by
   intro qos h
   obtain ⟨c,hc,rfl⟩ := map_eq_some_iff.mp h
   exact good_unchecked hstrong (.l3 p qos) trivial (mem_entriesOf.mpr (.inr ⟨c,hc,rfl⟩))
  unfold qosL3Trace at h
  split at h
  · exact hqos _ h
  · split at h
    · exact hqos _ h
    · cases h
 have hl2 : ∀ {found}, st.qosL2Trace pkt p = some found → Good st found := by
  intro found h
  unfold qosL2Trace at h
  split at h
  · obtain ⟨c,hc,rfl⟩ := map_eq_some_iff.mp h
    exact good_unchecked hstrong (.l2 p _) trivial (mem_entriesOf.mpr (.inr ⟨c,hc,rfl⟩))
  · cases h
 unfold qosTrace at h
 split at h
 · obtain hfound | ⟨-,hfound⟩ := Option.or_eq_some_iff.mp h
   · exact hl3 hfound
   · exact hl2 hfound
 · obtain hfound | ⟨-,hfound⟩ := Option.or_eq_some_iff.mp h
   · exact hl2 hfound
   · exact hl3 hfound

lemma good_selectTrace {queueId : Nat}
 (h : st.selectTrace pkt p queueId = some (some found)) : Good st found := by
 unfold selectTrace at h
 simp only at h
 split at h
 · cases h
 · split at h
   · cases h
   · next hscan => exact Option.some.inj (Option.some.inj h) ▸ good_scanTrace hscan
   · split at h
     · cases h
     · next hscan => exact Option.some.inj (Option.some.inj h) ▸ good_scanTrace hscan
     · split at h
       · next hqos => exact Option.some.inj (Option.some.inj h) ▸ good_qosTrace hstrong hqos
       · obtain ⟨c,hc,rfl⟩ := map_eq_some_iff.mp (Option.some.inj h)
         exact good_unchecked hstrong (.default p queueId) trivial
          (mem_entriesOf.mpr (.inr ⟨c,hc,rfl⟩))

end

-- Calls

lemma cls_setCls (st : State) (p id : Nat) (cls : Cls) (q j : Nat) :
 ((st.setCls p id cls).pktio q).cls j = if q = p ∧ j = id then cls else (st.pktio q).cls j := by
 unfold setCls setPktio
 by_cases hq : q = p
 · subst hq
   by_cases hj : j = id <;> simp [hj]
 · simp [hq]

lemma attached_setCos (st : State) (i : Nat) (cos : Cos) (ha : a ≠ .link i) :
 (st.setCos i cos).attached a = st.attached a := by
 cases a with
 | link c =>
  have hne : c ≠ i := fun heq => ha (heq ▸ rfl)
  show (update st.cosTbl i cos c).linkEntries = _
  rw [update_of_ne hne]
  rfl
 | rule | default | l2 | l3 => rfl

lemma attached_setCls {id : Nat} {cls : Cls}
 (hrule : ∀ i, a = .rule p id i → ∀ e ∈ cls.ruleEntries i, e ∈ ((st.pktio p).cls id).ruleEntries i)
 (hdefault : a = .default p id → cls.defaultCos = ((st.pktio p).cls id).defaultCos)
 (hl2 : ∀ qos, a = .l2 p qos → id = 0 → cls.l2CosTable qos = ((st.pktio p).cls id).l2CosTable qos)
 (hl3 : ∀ qos, a = .l3 p qos → id = 0 → cls.l3CosTable qos = ((st.pktio p).cls id).l3CosTable qos) :
 ∀ e ∈ (st.setCls p id cls).attached a, e ∈ st.attached a := by
 intro e he
 cases a with
 | rule q j i =>
  change e ∈ (((st.setCls p id cls).pktio q).cls j).ruleEntries i at he
  rw [cls_setCls] at he
  split at he
  · next heq =>
    obtain ⟨rfl,rfl⟩ := heq
    exact hrule i rfl e he
  · exact he
 | link c => exact he
 | default q j =>
  change e ∈ entriesOf none (((st.setCls p id cls).pktio q).cls j).defaultCos at he
  rw [cls_setCls] at he
  split at he
  · next heq =>
    obtain ⟨rfl,rfl⟩ := heq
    rwa [hdefault rfl] at he
  · exact he
 | l2 q qos =>
  change e ∈ entriesOf none ((((st.setCls p id cls).pktio q).cls 0).l2CosTable qos) at he
  rw [cls_setCls] at he
  split at he
  · next heq =>
    obtain ⟨rfl,rfl⟩ := heq
    rwa [hl2 qos rfl rfl] at he
  · exact he
 | l3 q qos =>
  change e ∈ entriesOf none ((((st.setCls p id cls).pktio q).cls 0).l3CosTable qos) at he
  rw [cls_setCls] at he
  split at he
  · next heq =>
    obtain ⟨rfl,rfl⟩ := heq
    rwa [hl3 qos rfl rfl] at he
  · exact he

lemma attached_attach {id : Nat} {ptr : PmrPtr} {cos : Nat}
 (ha : ((st.pktio p).cls id).numPmr < pktioMaxPmr → a ≠ .rule p id ((st.pktio p).cls id).numPmr) :
 ∀ e ∈ (st.attach p id ptr cos).attached a, e ∈ st.attached a := by
 unfold attach
 simp only
 split
 · exact fun _ he => he
 · next hroom =>
   have hne := ha (Nat.lt_of_not_le hroom)
   refine attached_setCls (fun i hi e he => ?_) (fun _ => rfl) (fun _ _ _ => rfl) (fun _ _ _ => rfl)
   have hi : i ≠ ((st.pktio p).cls id).numPmr := fun heq => hne (heq ▸ hi)
   rw [Cls.ruleEntries] at he ⊢
   simp only [update_of_ne hi] at he
   split at he
   · next hlt => rwa [if_pos (by omega)]
   · cases he

lemma getCosEntry_eq_some {cos c : Nat} (h : st.getCosEntry cos = some c) :
 c = cos ∧ st.cosValid cos = true ∧ (st.cosTbl cos).valid = true := by
 rw [getCosEntry] at h
 split at h
 · next hvalid => exact ⟨(Option.some.inj h).symm,hvalid,(Bool.and_eq_true_iff.mp hvalid).2⟩
 · cases h

lemma fillQos_cons (max : Nat) (table : Nat → Option Nat) (q cos : Nat) (rest : List (Nat × Nat)) :
 st.fillQos max table ((q,cos)::rest) = st.fillQos max (fun qos =>
  if q = qos ∧ max > qos ∧ st.cosValid cos = true then some cos else table qos) rest := by
 rw [fillQos]
 congr 1
 funext qos
 by_cases hvalid : st.cosValid cos = true
 · rw [getCosEntry,if_pos hvalid]
   by_cases hmax : max > q
   · simp only [if_pos hmax,hvalid,and_true]
     by_cases hq : q = qos
     · subst hq
       rw [update_self,if_pos ⟨rfl,hmax⟩]
     · rw [update_of_ne (Ne.symm hq),if_neg fun h : q = qos ∧ max > qos => hq h.1]
   · simp only [if_neg hmax]
     rw [if_neg fun h : q = qos ∧ max > qos ∧ st.cosValid cos = true => hmax (h.1 ▸ h.2.1)]
 · rw [getCosEntry,if_neg hvalid,
    if_neg fun h : q = qos ∧ max > qos ∧ st.cosValid cos = true => hvalid h.2.2]

lemma fills_cons (max q cos : Nat) (rest : List (Nat × Nat)) (qos : Nat) :
 st.fills max ((q,cos)::rest) qos = true ↔
  (q = qos ∧ max > qos ∧ st.cosValid cos = true) ∨ st.fills max rest qos = true := by
 simp [fills,and_assoc]

lemma fillQos_of_not {max : Nat} {entries : List (Nat × Nat)} {table : Nat → Option Nat} {qos : Nat}
 (h : ¬st.fills max entries qos = true) : st.fillQos max table entries qos = table qos := by
 induction entries generalizing table with
 | nil => rfl
 | cons entry entries ih =>
  rw [fills_cons,not_or] at h
  rw [fillQos_cons,ih h.2,if_neg h.1]

lemma fillQos_valid {max : Nat} {entries : List (Nat × Nat)} {table : Nat → Option Nat}
 {qos c : Nat}
 (h : st.fills max entries qos = true) (hc : st.fillQos max table entries qos = some c) :
 (st.cosTbl c).valid = true := by
 induction entries generalizing table with
 | nil => cases h
 | cons entry entries ih =>
  obtain ⟨q,cos⟩ := entry
  rw [fillQos_cons] at hc
  by_cases hrest : st.fills max entries qos = true
  · exact ih hrest hc
  · have hhead := ((fills_cons ..).mp h).resolve_right hrest
    rw [fillQos_of_not hrest,if_pos hhead] at hc
    exact Option.some.inj hc ▸ (Bool.and_eq_true_iff.mp hhead.2.2).2

lemma attached_call (c : Call) (hmakes : ¬st.makes a c = true) :
 ∀ e ∈ (st.call c).attached a, e ∈ st.attached a := by
 have hrefused : ∀ {p : Nat} {next : State},
   (p < configPktioEntries → ∀ e ∈ next.attached a, e ∈ st.attached a) →
   ∀ e ∈ (st.onPktio p next).attached a, e ∈ st.attached a := by
  intro p next h
  rw [onPktio]
  split
  · next hp => exact h hp
  · exact fun _ he => he
 cases c with
 | cosCreate queue pool =>
  simp only [call,cosCreate]
  split
  · exact fun _ he => he
  · next i hi =>
    by_cases ha : a = .link i
    · subst ha
      intro e he
      change e ∈ (update st.cosTbl i _ i).linkEntries at he
      rw [update_self] at he
      cases he
    · rw [attached_setCos st i _ ha]
      exact fun _ he => he
 | pmrCreate m =>
  simp only [call,pmrCreate]
  split
  · exact fun _ he => he
  · split <;> exact fun _ he => he
 | pmrMatchSetCreate terms =>
  simp only [call,pmrMatchSetCreate]
  split
  · exact fun _ he => he
  · split <;> exact fun _ he => he
 | pktioDefaultCosSet p cos =>
  refine hrefused fun hp => ?_
  rw [pktioDefaultCosSet]
  split
  · exact fun _ he => he
  · next c hc =>
    obtain ⟨rfl,hvalid,-⟩ := getCosEntry_eq_some hc
    refine attached_setCls (fun _ _ _ he => he) (fun ha => ?_) (fun _ _ _ => rfl) (fun _ _ _ => rfl)
    exact absurd (by simp [hp,hvalid,ha]) hmakes
 | pktioPmrCos pmr p cos | pktioPmrMatchSetCos set p cos =>
  refine hrefused fun hp => ?_
  simp only [pktioPmrCos,pktioPmrMatchSetCos]
  split
  · next ptr c hptr hc =>
    obtain ⟨rfl,hvalid,-⟩ := getCosEntry_eq_some hc
    refine attached_attach fun hroom ha => hmakes ?_
    simp [hp,hvalid,hptr,hroom,ha]
  · exact fun _ he => he
 | cosPmrCos pmr src dst =>
  simp only [call,cosPmrCos]
  split
  · next s d ptr hs hd hptr =>
    obtain ⟨rfl,hsrc,-⟩ := getCosEntry_eq_some hs
    obtain ⟨rfl,hdst,-⟩ := getCosEntry_eq_some hd
    rw [attached_setCos]
    · exact fun _ he => he
    · rintro rfl
      exact hmakes (by simp [hsrc,hdst,hptr])
  · exact fun _ he => he
 | cosWithL2Priority p table =>
  refine hrefused fun hp => ?_
  refine attached_setCls (fun _ _ _ he => he) (fun _ => rfl) (fun qos ha _ => ?_) (fun _ _ _ => rfl)
  refine fillQos_of_not fun hfills => hmakes ?_
  simp [hp,ha,hfills]
 | cosWithL3Qos p table pref =>
  refine hrefused fun hp => ?_
  refine attached_setCls (fun _ _ _ he => he) (fun _ => rfl) (fun _ _ _ => rfl) (fun qos ha _ => ?_)
  refine fillQos_of_not fun hfills => hmakes ?_
  simp [hp,ha,hfills]

lemma entryValid_cos (i : Nat) (x : Cos) (e : Entry) :
 (st.setCos i x).entryValid e = if e = .cos i then x.valid else st.entryValid e := by
 obtain k | k | k := e <;> by_cases hk : k = i <;> simp [entryValid,pmrAt,setCos,hk]

lemma entryValid_pmr (i : Nat) (x : Pmr) (e : Entry) :
 entryValid { st with pmrTbl := update st.pmrTbl i x } e =
 if e = .pmr (.pmr i) then x.valid else st.entryValid e := by
 obtain k | k | k := e <;> by_cases hk : k = i <;> simp [entryValid,pmrAt,hk]

lemma entryValid_set (i : Nat) (x : Pmr) (e : Entry) :
 entryValid { st with pmrSetTbl := update st.pmrSetTbl i x } e =
 if e = .pmr (.set i) then x.valid else st.entryValid e := by
 obtain k | k | k := e <;> by_cases hk : k = i <;> simp [entryValid,pmrAt,hk]

/-- The entries that are there after a call are those from before and the slot it takes. -/
lemma entryValid_call_iff (c : Call) (e : Entry) :
 (st.call c).entryValid e = true ↔ st.entryValid e = true ∨ st.slotOf c = some e := by
 have hnew : ∀ (x : Entry) (b : Bool), (if e = x then true else b) = true ↔ b = true ∨ x = e := by
  intro x b
  by_cases he : e = x
  · simp [he]
  · simp [he,Ne.symm he]
 have htables : SameTables st (st.call c) → (st.call c).entryValid e = st.entryValid e := by
  intro hsame
  obtain i | i | i := e
  all_goals simp only [entryValid,pmrAt,hsame.cos,hsame.pmr,hsame.set]
 cases c with
 | cosCreate queue pool =>
  simp only [call,cosCreate,slotOf]
  split
  · next hfull => simp [hfull]
  · next i hi =>
    rw [entryValid_cos,hi]
    simpa using hnew (.cos i) _
 | pmrCreate m =>
  simp only [call,pmrCreate,slotOf]
  split
  · simp
  · split
    · next hfull => simp [hfull]
    · next i hi =>
      rw [entryValid_pmr,hi]
      simpa using hnew (.pmr (.pmr i)) _
 | pmrMatchSetCreate terms =>
  simp only [call,pmrMatchSetCreate,slotOf]
  split
  · simp
  · split
    · next hfull => simp [hfull]
    · next i hi =>
      rw [entryValid_set,hi]
      simpa using hnew (.pmr (.set i)) _
 | cosPmrCos pmr src dst =>
  simp only [call,cosPmrCos,slotOf]
  split
  · rw [entryValid_cos]
    split
    · next heq =>
      subst heq
      simp [entryValid]
    · simp
  · simp
 | pktioDefaultCosSet | pktioPmrCos | pktioPmrMatchSetCos | cosWithL2Priority | cosWithL3Qos =>
  rw [htables (sameTables_call st rfl)]
  simp [slotOf]

lemma attached_valid (c : Call) (hmakes : st.makes a c = true) (ha : a.Unchecked) :
 ∀ e ∈ (st.call c).attached a, (st.call c).entryValid e = true := by
 intro e he
 refine (entryValid_call_iff c e).mpr (.inl ?_)
 cases c with
 | cosCreate | pmrCreate | pmrMatchSetCreate => cases hmakes
 | pktioDefaultCosSet p cos =>
  simp only [makes,Bool.and_eq_true,decide_eq_true_eq,beq_iff_eq] at hmakes
  obtain ⟨⟨hp,hvalid⟩,rfl⟩ := hmakes
  change e ∈ entriesOf none (((st.onPktio p (st.pktioDefaultCosSet p cos)).pktio p).cls
   _).defaultCos at he
  rw [onPktio,if_pos hp,pktioDefaultCosSet,getCosEntry,if_pos hvalid] at he
  simp only at he
  rw [cls_setCls,if_pos ⟨rfl,rfl⟩] at he
  obtain ⟨_,hnone,-⟩ | ⟨c,hc,rfl⟩ := mem_entriesOf.mp he
  · cases hnone
  · exact Option.some.inj hc ▸ (Bool.and_eq_true_iff.mp hvalid).2
 | pktioPmrCos pmr p cos | pktioPmrMatchSetCos set p cos | cosPmrCos pmr src dst =>
  simp only [makes,Bool.and_eq_true,beq_iff_eq] at hmakes
  obtain ⟨-,rfl⟩ := hmakes
  exact ha.elim
 | cosWithL2Priority p table =>
  cases a with
  | l2 q qos =>
   simp only [makes,Bool.and_eq_true,decide_eq_true_eq,beq_iff_eq] at hmakes
   obtain ⟨hp,rfl,hfills⟩ := hmakes
   change e ∈
    entriesOf none ((((st.onPktio q (st.cosWithL2Priority q table)).pktio q).cls 0).l2CosTable qos)
    at he
   rw [onPktio,if_pos hp,cosWithL2Priority,cls_setCls,if_pos ⟨rfl,rfl⟩] at he
   obtain ⟨_,hnone,-⟩ | ⟨c,hc,rfl⟩ := mem_entriesOf.mp he
   · cases hnone
   · exact fillQos_valid hfills hc
  | rule | link | default | l3 => simp at hmakes
 | cosWithL3Qos p table pref =>
  cases a with
  | l3 q qos =>
   simp only [makes,Bool.and_eq_true,decide_eq_true_eq,beq_iff_eq] at hmakes
   obtain ⟨hp,rfl,hfills⟩ := hmakes
   change e ∈ entriesOf none
    ((((st.onPktio q (st.cosWithL3Qos q table pref)).pktio q).cls 0).l3CosTable qos) at he
   rw [onPktio,if_pos hp,cosWithL3Qos,cls_setCls,if_pos ⟨rfl,rfl⟩] at he
   obtain ⟨_,hnone,-⟩ | ⟨c,hc,rfl⟩ := mem_entriesOf.mp he
   · cases hnone
   · exact fillQos_valid hfills hc
  | rule | link | default | l2 => simp at hmakes

-- Histories

variable {h : History}

section

variable (hs : h.lifetime.Sound Attachment.Unchecked)

include hs

lemma sound_call (c : Call) (hcareful : h.Careful (.call c)) :
 (h.step (.call c)).lifetime.Sound Attachment.Unchecked := by
 refine hs.write (fun a => h.st.makes a c = true) rfl rfl (fun a ha => if_pos ha)
  (fun a ha => ⟨if_neg ha,attached_call c ha⟩) (fun e he => (entryValid_call_iff c e).mpr (.inl he))
  (fun e hno hyes => hcareful e ?_) fun a ha hstrong => attached_valid c ha hstrong
 exact ((entryValid_call_iff c e).mp hyes).resolve_left (ne_true_of_eq_false hno)

lemma sound_destroy {e : Entry}
 (hattached : ∀ a, ∀ x ∈ st'.attached a, x ∈ h.st.attached a) (hself : st'.entryValid e = false)
 (hother : ∀ x, x ≠ e → st'.entryValid x = h.st.entryValid x)
 (hfree : ∀ a : Attachment, a.Unchecked → e ∉ h.st.attached a) :
 (h.destroy e true st').lifetime.Sound Attachment.Unchecked :=
 hs.destroy e rfl rfl hattached hself (fun x hx => ⟨hother x hx,update_of_ne hx ..⟩)
  (Nat.le_of_eq (update_self ..)) hfree

lemma sound_refused (e : Entry) : (h.destroy e false h.st).lifetime.Sound Attachment.Unchecked :=
 hs.write (fun _ => False) rfl rfl (fun _ => False.elim) (fun _ _ => ⟨rfl,fun _ he => he⟩)
  (fun _ he => he) (fun _ hno hyes => nomatch hno.symm.trans hyes) fun _ => False.elim

end

lemma pmr_notMem_unchecked (ha : a.Unchecked) (ptr : PmrPtr) : .pmr ptr ∉ st.attached a := by
 intro he
 cases a with
 | rule | link => exact ha.elim
 | default | l2 | l3 =>
  obtain ⟨_,hnone,-⟩ | ⟨_,-,hcos⟩ := mem_entriesOf.mp he
  · cases hnone
  · cases hcos

lemma sound_step (hs : h.lifetime.Sound Attachment.Unchecked) {c : HistCall}
 (hcareful : h.Careful c) : (h.step c).lifetime.Sound Attachment.Unchecked := by
 cases c with
 | call c => exact sound_call hs c hcareful
 | cosDestroy cos =>
  rw [History.step,cosDestroy,getCosEntry]
  cases h.st.cosValid cos with
  | false => exact sound_refused hs _
  | true =>
   refine sound_destroy hs (fun a e he => ?_) ?_ (fun e hne => ?_) hcareful
   · by_cases ha : a = .link cos
     · subst ha
       change e ∈ (update h.st.cosTbl cos _ cos).linkEntries at he
       rw [update_self] at he
       cases he
     · change e ∈ (h.st.setCos cos _).attached a at he
       rwa [attached_setCos _ _ _ ha] at he
   · exact (entryValid_cos ..).trans (if_pos rfl)
   · exact (entryValid_cos ..).trans (if_neg hne)
 | pmrDestroy pmr =>
  rw [History.step,pmrDestroy]
  cases h.st.getPmrEntry pmr with
  | none => exact sound_refused hs _
  | some _ =>
   refine sound_destroy hs (fun a e he => he) ?_ (fun e hne => ?_) fun a ha =>
    pmr_notMem_unchecked ha _
   · rw [entryValid_pmr,if_pos rfl]
   · rw [entryValid_pmr,if_neg hne]
 | pmrMatchSetDestroy set =>
  rw [History.step,pmrMatchSetDestroy]
  cases h.st.getPmrSetEntry set with
  | none => exact sound_refused hs _
  | some _ =>
   refine sound_destroy hs (fun a e he => he) ?_ (fun e hne => ?_) fun a ha =>
    pmr_notMem_unchecked ha _
   · rw [entryValid_set,if_pos rfl]
   · rw [entryValid_set,if_neg hne]

lemma sound_init (numInQueue : Nat → Nat) :
 (History.init numInQueue).lifetime.Sound Attachment.Unchecked := by
 have hnil : ∀ a, (History.init numInQueue).lifetime.names a = [] := by
  intro a
  cases a <;> rfl
 refine ⟨fun _ => one_pos,fun a e he => ?_,fun a _ e he => ?_⟩
 all_goals
  rw [hnil] at he
  cases he

lemma sound_of_reach {numInQueue : Nat → Nat}
 (hr : Reach (· = History.init numInQueue) (fun h c => some (h.step c)) History.Careful h) :
 h.lifetime.Sound Attachment.Unchecked := by
 refine hr.invariant (P := fun h => h.lifetime.Sound Attachment.Unchecked) ?_ ?_
 · rintro _ rfl
   exact sound_init numInQueue
 · rintro h c h' hs hcareful hstep
   cases hstep
   exact sound_step hs hcareful

/-- What `pktio_select_cos` returns is valid, and it is reached through attachments that were made
after the last destruction of each entry they point to. -/
theorem destroyed_without_effect {numInQueue : Nat → Nat} {p queueId c : Nat} {pkt' : Packet}
 (hr : Reach (· = History.init numInQueue) (fun h c => some (h.step c)) History.Careful h)
 (hselect : h.st.pktioSelectCos pkt p queueId = some (some c,pkt')) :
 (h.st.cosTbl c).valid = true ∧ ∃ trace, h.st.selectTrace pkt' p queueId = some (some (c,trace)) ∧
  ∀ a ∈ trace, h.lifetime.Fresh a := by
 have hsound := sound_of_reach hr
 have hparsed : h.st.selectCosParsed pkt' p queueId = some (some c) := by
  rw [pktioSelectCos] at hselect
  split at hselect
  · obtain ⟨cos,hcos,heq⟩ := map_eq_some_iff.mp hselect
    cases heq
    exact hcos
  · split at hselect
    · cases hselect
    · obtain ⟨cos,hcos,heq⟩ := map_eq_some_iff.mp hselect
      cases heq
      exact hcos
 rw [← selectTrace_eq] at hparsed
 obtain ⟨found,hfound,hsome⟩ := map_eq_some_iff.mp hparsed
 obtain ⟨⟨_,trace⟩,rfl,rfl⟩ := map_eq_some_iff.mp hsome
 obtain ⟨hvalid,htrace⟩ := good_selectTrace hsound.strong hfound
 exact ⟨hvalid,trace,hfound,fun a ha => hsound.isFresh (htrace a ha)⟩

-- Examples

def runHistory (numInQueue : Nat → Nat) (calls : List HistCall) : History :=
 calls.foldl History.step (History.init numInQueue)

lemma careful_of_nil (hnil : ∀ a, h.st.attached a = []) (c : Call) : h.Careful (.call c) := by
 intro e _ a
 rw [hnil]
 exact List.not_mem_nil

lemma careful_attach {c : Call} (hc : h.st.slotOf c = none) : h.Careful (.call c) := by
 intro e he
 rw [hc] at he
 cases he

lemma nil_call (hnil : ∀ a, st.attached a = []) {c : Call} (hmakes : ∀ a, ¬st.makes a c = true) :
 ∀ a, (st.call c).attached a = [] := by
 intro a
 rw [List.eq_nil_iff_forall_not_mem]
 intro e he
 have hmem := attached_call c (hmakes a) e he
 rw [hnil] at hmem
 cases hmem

/-- Two rules for packets of length 100, the first of which is destroyed. -/
def destroyedRuleCalls : List HistCall :=
 [.call (.cosCreate none none),.call (.cosCreate none none),.call (.pmrCreate (lengthMatch 100)),
  .call (.pmrCreate (lengthMatch 100)),.call (.pktioPmrCos 0 0 0),.call (.pktioPmrCos 1 0 1),
  .pmrDestroy 0]

lemma reach_destroyedRule :
 Reach (· = History.init fun _ => 1) (fun h c => some (h.step c)) History.Careful
 (runHistory (fun _ => 1) destroyedRuleCalls) := by
 have h0 : ∀ a, (History.init fun _ => 1).st.attached a = [] := by
  intro a
  cases a <;> rfl
 have h1 := nil_call h0 (c := .cosCreate none none) fun _ => nofun
 have h2 := nil_call h1 (c := .cosCreate none none) fun _ => nofun
 have h3 := nil_call h2 (c := .pmrCreate (lengthMatch 100)) fun _ => nofun
 have r0 : Reach (· = History.init fun _ => 1) (fun h c => some (h.step c)) History.Careful
   (History.init fun _ => 1) := .start rfl
 have r1 := r0.next (careful_of_nil h0 (.cosCreate none none)) rfl
 have r2 := r1.next (careful_of_nil h1 (.cosCreate none none)) rfl
 have r3 := r2.next (careful_of_nil h2 (.pmrCreate (lengthMatch 100))) rfl
 have r4 := r3.next (careful_of_nil h3 (.pmrCreate (lengthMatch 100))) rfl
 have r5 := r4.next (careful_attach (c := .pktioPmrCos 0 0 0) rfl) rfl
 have r6 := r5.next (careful_attach (c := .pktioPmrCos 1 0 1) rfl) rfl
 exact r6.next (a := .pmrDestroy 0) trivial rfl

theorem destroyed_without_effect_rule : ∃ c, ∃ trace : List Attachment,
 (runHistory (fun _ => 1) destroyedRuleCalls).st.pktioSelectCos (parsedPacket {} fun _ => 0) 0 0 =
  some (some c,parsedPacket {} fun _ => 0) ∧ c = 1 ∧
 ∀ a ∈ trace, (runHistory (fun _ => 1) destroyedRuleCalls).lifetime.Fresh a := by
 have hvalue : ((runHistory (fun _ => 1) destroyedRuleCalls).st.selectCosParsed
   (parsedPacket {} fun _ => 0) 0 0) = some (some 1) := by decide
 have hselect : (runHistory (fun _ => 1) destroyedRuleCalls).st.pktioSelectCos
   (parsedPacket {} fun _ => 0) 0 0 = some (some 1,parsedPacket {} fun _ => 0) := by
  have hparsed : (parsedPacket {} fun _ => 0).hdr.inputFlags.parsedAll = true := rfl
  rw [pktioSelectCos,if_pos hparsed,hvalue]
  rfl
 obtain ⟨-,trace,-,hfresh⟩ := destroyed_without_effect reach_destroyedRule hselect
 exact ⟨1,trace,hselect,rfl,hfresh⟩

/-- A default that is destroyed is still returned. A rule whose slot is used again leads packets of
the new rule to the class of service of the old one. -/
theorem destroyed_without_effect_fails :
 (let h := runHistory (fun _ => 1)
   [.call (.cosCreate none none),.call (.pktioDefaultCosSet 0 0),.cosDestroy 0]
 (h.st.pktioSelectCos (parsedPacket {} fun _ => 0) 0 0).map Prod.fst = some (some 0) ∧
  (h.st.cosTbl 0).valid = false) ∧
 (let h := runHistory (fun _ => 1)
   [.call (.cosCreate none none),.call (.pmrCreate (lengthMatch 99)),.call (.pktioPmrCos 0 0 0),
    .pmrDestroy 0,.call (.pmrCreate (lengthMatch 100))]
 (h.st.pktioSelectCos (parsedPacket {} fun _ => 0) 0 0).map Prod.fst = some (some 0) ∧
  h.st.selectTrace (parsedPacket {} fun _ => 0) 0 0 = some (some (0,[.rule 0 0 0])) ∧
  h.made (.rule 0 0 0) < h.destroyed (.pmr (.pmr 0))) := by
 decide

end Packages.Classifier

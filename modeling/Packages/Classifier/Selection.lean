import Packages.Classifier.Configuration

/-!
# The classifier selects by the rule set

`Selected` says which class of service a rule set gives to a packet: the end of the cascade that
begins with the first matching rule, else the entry of the tables of priorities, else the default.
`pktio_select_cos` returns it for every configuration without a cyclic cascade.
-/

namespace Packages.Classifier

open Packages.Parser State RuleSet List

-- What a rule set selects

/-- The priority in the first VLAN tag. -/
def Packet.priority (pkt : Packet) : Option Nat :=
 if pkt.hdr.inputFlags.l2 && pkt.hdr.inputFlags.vlan && pkt.hdr.inputFlags.eth then
  some (be16 pkt.data (pkt.hdr.l2Offset+14)/2^13)
 else none

/-- The six bits behind version and before the rest of the traffic class of an IPv6 header. -/
def Packet.ipv6Dscp (pkt : Packet) : Nat := be16 pkt.data pkt.hdr.l3Offset/2^6%2^6

def Packet.dscp (pkt : Packet) : Option Nat :=
 if pkt.hdr.inputFlags.l3 && pkt.hdr.inputFlags.ipv4 then
  some (byteAt pkt.data (pkt.hdr.l3Offset+1)/2^2)
 else if pkt.hdr.inputFlags.l3 && pkt.hdr.inputFlags.ipv6 then some pkt.ipv6Dscp
 else none

namespace RuleSet

variable (R : RuleSet) (pkt : Packet)

/-- The class of service the cascade goes on to. -/
def next (c : Nat) : Option Nat :=
 match R.cascade c with
 | none => none
 | some (r,d) => if r.Matches pkt then some d else none

/-- The cascade for packets that match everything. -/
def linked (c : Nat) : Option Nat := (R.cascade c).map Prod.snd

def qos : Option Nat :=
 if R.l3First then (pkt.dscp.bind R.l3Cos).or (pkt.priority.bind R.l2Cos)
 else (pkt.priority.bind R.l2Cos).or (pkt.dscp.bind R.l3Cos)

inductive Selected : Option Nat → Prop
 | rule (r : Rule) (c d : Nat) (hfirst : R.rules.find? (fun e => e.1.Matches pkt) = some (r,c))
  (hreach : Relation.ReflTransGen (Chain.Step (R.next pkt)) c d) (hlast : R.next pkt d = none) :
  Selected (some d)
 | fallback (hnone : ∀ e ∈ R.rules, ¬ e.1.Matches pkt) : Selected ((R.qos pkt).or R.default)

end RuleSet

variable {st : State} {R : RuleSet} {p : Nat} {ptr : PmrPtr} {r : Rule} {pkt : Packet}

-- Cascades

/-- The recursion of `match_pmr_cos` follows the cascade to its end. -/
lemma Tables.matchPmrCos (h : Tables st R) {c n : Nat} (hc : c < R.cosCount)
 (hrule : Denotes st ptr r) : st.matchPmrCos pkt (n+1) (some c) (some ptr) =
  if r.Matches pkt then (Chain.last (R.next pkt) n c).map some else some none := by
 have hvalid : (st.cosTbl c).valid = true := by simp [h.cosValid,hc]
 induction n generalizing c ptr r with
 | zero =>
  rw [matchPmrCos,if_pos hvalid]
  by_cases hm : r.Matches pkt
  · rw [if_pos ((hrule.verify pkt).mpr hm),if_pos hm]
    rfl
  · rw [if_neg fun hv => hm ((hrule.verify pkt).mp hv),if_neg hm]
 | succ n ih =>
  rw [matchPmrCos,if_pos hvalid]
  by_cases hm : r.Matches pkt
  · rw [if_pos ((hrule.verify pkt).mpr hm),if_pos hm,Chain.last,RuleSet.next]
    cases h.cascade c with
    | none hl hcascade =>
     rw [hl,hcascade]
     rfl
    | some r' d ptr' hl hp hcascade hrule' _ hd =>
     rw [hl,hp,hcascade,ih hd hrule' (by simp [h.cosValid,hd])]
     by_cases hm' : r'.Matches pkt
     · simp only [if_pos hm']
       cases Chain.last (R.next pkt) n d with
       | none | some e => rfl
     · simp only [if_neg hm']
       rfl
  · rw [if_neg fun hv => hm ((hrule.verify pkt).mp hv),if_neg hm]

lemma next_step_linked {a b : Nat} (h : Chain.Step (R.next pkt) a b) : Chain.Step R.linked a b := by
 rw [Chain.Step,RuleSet.next] at h
 rw [Chain.Step,linked]
 cases hcascade : R.cascade a with
 | none =>
  rw [hcascade] at h
  cases h
 | some e =>
  rw [hcascade] at h
  dsimp only at h
  split at h
  · exact h
  · cases h

lemma Tables.linked_lt (h : Tables st R) {a b : Nat} (hab : Chain.Step R.linked a b) :
 b < cosMaxEntry := by
 rw [Chain.Step,linked] at hab
 cases h.cascade a with
 | none _ hcascade =>
  rw [hcascade] at hab
  cases hab
 | some r d ptr _ _ hcascade _ _ hd =>
  rw [hcascade] at hab
  cases hab
  exact lt_of_lt_of_le hd h.cosCount

lemma Tables.exists_last (h : Tables st R) (hacyclic : Chain.Acyclic R.linked) (pkt : Packet)
 (c : Nat) : ∃ d, Chain.last (R.next pkt) (cosMaxEntry+1) c = some d :=
 Chain.exists_last_of_card_lt (Finset.range cosMaxEntry)
  (hacyclic.mono fun a b => next_step_linked)
  (fun a b hab => Finset.mem_range.mpr (h.linked_lt (next_step_linked hab))) (by simp) c

-- Rules in order

lemma Represents.scanPmr (h : Represents st p R) (pkt : Packet) {left i : Nat}
 (hlen : i+left = R.rules.length) :
 st.scanPmr pkt ((st.pktio p).cls 0) left i =
  match (R.rules.drop i).find? (fun e => e.1.Matches pkt) with
  | none => some none
  | some e => (Chain.last (R.next pkt) (cosMaxEntry+1) e.2).map some := by
 induction left generalizing i with
 | zero =>
  rw [drop_of_length_le (by omega)]
  rfl
 | succ left ih =>
  have hi : i < R.rules.length := by omega
  obtain ⟨⟨r,c⟩,hrc⟩ : ∃ e, R.rules[i] = e := ⟨_,rfl⟩
  have hget : R.rules[i]? = some (r,c) := by rw [getElem?_eq_getElem hi,hrc]
  obtain ⟨hcos,hc,ptr,hptr,hrule⟩ := h.atPktio.rules i r c hget
  rw [State.scanPmr,hcos,hptr,State.cascadeFuel,h.tables.matchPmrCos hc hrule,
   drop_eq_getElem_cons hi,hrc]
  by_cases hm : r.Matches pkt
  · rw [if_pos hm,find?_cons_of_pos (by simpa using hm)]
    dsimp only
    cases Chain.last (R.next pkt) (cosMaxEntry+1) c with
    | none | some d => rfl
  · rw [if_neg hm,find?_cons_of_neg (by simpa using hm)]
    exact ih (by omega)

-- Priorities

lemma matchQosL2Cos_eq (pkt : Packet) (table : Nat → Option Nat) :
 matchQosL2Cos pkt table = pkt.priority.bind table := by
 rw [matchQosL2Cos,Packet.priority]
 split <;> rfl

lemma matchQosL3Cos_eq (table : Nat → Option Nat) (hv6 : pkt.hdr.inputFlags.ipv6 = true →
 ipv6hdrDscp pkt pkt.hdr.l3Offset = pkt.ipv6Dscp) :
 matchQosL3Cos pkt table = pkt.dscp.bind table := by
 rw [matchQosL3Cos,Packet.dscp]
 split
 · rfl
 split
 · rename_i hflags
   rw [hv6 (Bool.and_eq_true_iff.mp hflags).2]
   rfl
 · rfl

lemma Represents.matchQosCos (h : Represents st p R) (hv6 : pkt.hdr.inputFlags.ipv6 = true →
 State.ipv6hdrDscp pkt pkt.hdr.l3Offset = pkt.ipv6Dscp) :
 State.matchQosCos pkt ((st.pktio p).cls 0) = R.qos pkt := by
 rw [State.matchQosCos,qos,h.atPktio.precedence,h.atPktio.l2,h.atPktio.l3,
  matchQosL2Cos_eq,matchQosL3Cos_eq _ hv6]
 split
 · cases pkt.dscp.bind R.l3Cos with
   | none | some c => rfl
 · cases pkt.priority.bind R.l2Cos with
   | none | some c => rfl

-- Selection

lemma Represents.selectCosParsed (h : Represents st p R) (hacyclic : Chain.Acyclic R.linked)
 (hok : pkt.hdr.errorFlags.any = false) (hv6 : pkt.hdr.inputFlags.ipv6 = true →
  ipv6hdrDscp pkt pkt.hdr.l3Offset = pkt.ipv6Dscp) :
 ∃ cos, st.selectCosParsed pkt p 0 = some cos ∧ R.Selected pkt cos := by
 have hglobal : st.scanPmr pkt ((st.pktio p).cls globalClsId) 0 0 = some none := rfl
 have hscan := h.scanPmr pkt (zero_add R.rules.length)
 rw [drop_zero] at hscan
 rw [State.selectCosParsed]
 simp only [hok,h.atPktio.globalCls,hglobal,h.atPktio.numPmr,hscan]
 cases hfind : R.rules.find? (fun e => e.1.Matches pkt) with
 | some e =>
  obtain ⟨r,c⟩ := e
  obtain ⟨d,hd⟩ := h.tables.exists_last hacyclic pkt c
  obtain ⟨hreach,hend⟩ := Chain.last_spec hd
  refine ⟨some d,?_,.rule r c d hfind hreach hend⟩
  simp [hd]
 | none =>
  have hnone : ∀ e ∈ R.rules, ¬ e.1.Matches pkt := by
   simpa using find?_eq_none.mp hfind
  refine ⟨_,?_,.fallback hnone⟩
  simp only [h.matchQosCos hv6,h.atPktio.default]
  cases R.qos pkt with
  | none | some c => rfl

/-- `pktio_select_cos` on queue zero returns what the rule set selects, for every interface with
fewer than 64 input queues, configuration without a cyclic cascade and parsed packet without errors
whose IPv6 code point is read right. -/
theorem select_refines_rules (p : Nat) (numInQueue : Nat → Nat) (hp : p < configPktioEntries)
 (hq : numInQueue p < pktioMaxQueues) (calls : List Call)
 (hacyclic : Chain.Acyclic (ruleSet p calls).linked) (pkt : Packet)
 (hparsed : pkt.hdr.inputFlags.parsedAll = true) (hok : pkt.hdr.errorFlags.any = false)
 (hv6 : pkt.hdr.inputFlags.ipv6 = true → State.ipv6hdrDscp pkt pkt.hdr.l3Offset = pkt.ipv6Dscp) :
 ∃ cos, ((init numInQueue).configure calls).pktioSelectCos pkt p 0 = some (cos,pkt) ∧
  (ruleSet p calls).Selected pkt cos := by
 obtain ⟨cos,hselect,hselected⟩ :=
  (represents_configure hp hq calls).selectCosParsed hacyclic hok hv6
 refine ⟨cos,?_,hselected⟩
 rw [pktioSelectCos,if_pos hparsed,hselect]
 rfl

/-- A parsed packet of a hundred bytes with the given flags and data. -/
def parsedPacket (flags : InputFlags) (data : Memory) : Packet :=
 ⟨⟨{ flags with parsedAll := true },{},0,14,34,42,0,0,0,0,0,0,100⟩,data⟩

/-- The length of a packet is to be the given one. -/
def lengthMatch (len : UInt8) : PmrMatch := ⟨.len,fun _ => len,fun _ => 255,1,0⟩

/-- Two rules and a cascade: the first rule does not match, the second one and its cascade do. -/
def cascadeCalls : List Call :=
 [.cosCreate none none,.cosCreate none none,.cosCreate none none,.pmrCreate (lengthMatch 99),
  .pmrCreate (lengthMatch 100),.pktioDefaultCosSet 0 0,.pktioPmrCos 0 0 0,.pktioPmrCos 1 0 1,
  .cosPmrCos 1 1 2]

lemma acyclic_cascadeCalls : Chain.Acyclic (ruleSet 0 cascadeCalls).linked := by
 refine .of_lt id fun a b hab => ?_
 have hcascade : (ruleSet 0 cascadeCalls).cascade =
  Function.update (fun _ : Nat => (none : Option (Rule × Nat))) 1
   (some ([(lengthMatch 100).createTerm],2)) := rfl
 rw [Chain.Step,linked,hcascade] at hab
 by_cases ha : a = 1
 · rw [ha] at hab
   cases hab
   simp [ha]
 · simp [ha] at hab

theorem select_refines_rules_cascade : ∃ cos,
 ((init fun _ => 8).configure cascadeCalls).pktioSelectCos (parsedPacket {} fun _ => 0) 0 0 =
  some (cos,parsedPacket {} fun _ => 0) ∧
 (ruleSet 0 cascadeCalls).Selected (parsedPacket {} fun _ => 0) cos ∧ cos = some 2 := by
 obtain ⟨cos,hselect,hselected⟩ := select_refines_rules 0 (fun _ => 8) (by decide) (by decide)
  cascadeCalls acyclic_cascadeCalls (parsedPacket {} fun _ => 0) rfl rfl (by decide)
 refine ⟨cos,hselect,hselected,?_⟩
 have hvalue : (((init fun _ => 8).configure cascadeCalls).pktioSelectCos
  (parsedPacket {} fun _ => 0) 0 0).map Prod.fst = some (some 2) := by decide
 rw [hselect] at hvalue
 exact Option.some.inj hvalue

def defaultCalls : List Call := [.cosCreate none none,.pktioDefaultCosSet 0 0]

def dscpCalls : List Call := [.cosCreate none none,.cosWithL3Qos 0 [(46,0)] true]

/-- An IPv6 packet of the code point 46. -/
def dscpPacket : Packet :=
 parsedPacket { l3 := true,ipv6 := true } fun i => if i = 14 then 0x6b else if i = 15
  then 0x80 else 0

/-- With an entry for its priority or a default every packet is given a class of service. -/
lemma not_selected_none (hsome : ((R.qos pkt).or R.default).isSome = true) :
 ¬ R.Selected pkt none := by
 intro h
 generalize hcos : (none : Option Nat) = cos at h
 cases h with
 | rule r c d hfirst => cases hcos
 | fallback =>
  rw [← hcos] at hsome
  cases hsome

/-- With 64 input queues the default is stored behind the array of classifiers, and the code point
of an IPv6 packet is read without conversion from network order. -/
theorem select_misses_rules :
 ((((init fun _ => 64).configure defaultCalls).pktioSelectCos (parsedPacket {} fun _ => 0) 0 0).map
  Prod.fst = some none ∧ ¬ (ruleSet 0 defaultCalls).Selected (parsedPacket {} fun _ => 0) none) ∧
 (((init fun _ => 1).configure dscpCalls).pktioSelectCos dscpPacket 0 0).map Prod.fst = some none ∧
  ¬ (ruleSet 0 dscpCalls).Selected dscpPacket none :=
 ⟨⟨by decide,not_selected_none (by decide)⟩,by decide,not_selected_none (by decide)⟩

-- Termination

lemma Tables.linked_eq (h : Tables st R) : (fun c => (st.cosTbl c).linkedCos) = R.linked := by
 funext c
 cases h.cascade c with
 | none hl hcascade => rw [hl,linked,hcascade]; rfl
 | some _ _ _ hl _ hcascade => rw [hl,linked,hcascade]; rfl

/-- The class of service and rule that `match_pmr_cos` calls itself with. -/
def State.goesOn (st : State) (pkt : Packet) (e : Nat × PmrPtr) : Option (Nat × PmrPtr) :=
 if (st.cosTbl e.1).valid = true ∧ st.verifyPmr pkt e.2 = true then
  (st.cosTbl e.1).linkedCos.bind fun cos => (st.cosTbl e.1).pmr.map (cos,·)
 else none

lemma step_linkedCos {a b : Nat × PmrPtr} (h : Chain.Step (st.goesOn pkt) a b) :
 Chain.Step (fun c => (st.cosTbl c).linkedCos) a.1 b.1 := by
 rw [Chain.Step,goesOn] at h
 split_ifs at h
 obtain ⟨c,hc,hmap⟩ := Option.bind_eq_some_iff.mp h
 obtain ⟨ptr,-,rfl⟩ := Option.map_eq_some_iff.mp hmap
 exact hc

/-- The recursion is no deeper than the calls that are left. -/
lemma isSome_matchPmrCos {n c : Nat} {e : Nat × PmrPtr}
 (hlast : Chain.last (st.goesOn pkt) n (c,ptr) = some e) :
 (st.matchPmrCos pkt (n+1) (some c) (some ptr)).isSome = true := by
 induction n generalizing c ptr with
 | zero => cases hlast
 | succ n ih =>
  rw [matchPmrCos]
  split_ifs with hvalid hverify
  · rw [Chain.last,goesOn,if_pos ⟨hvalid,hverify⟩] at hlast
    have hrest : (st.matchPmrCos pkt (n+1) (st.cosTbl c).linkedCos (st.cosTbl c).pmr).isSome =
     true := by
     cases hl : (st.cosTbl c).linkedCos with
     | none => rfl
     | some b =>
      cases hp : (st.cosTbl c).pmr with
      | none => rfl
      | some ptr' =>
       rw [hl,hp] at hlast
       exact ih hlast
    obtain ⟨ret,hret⟩ := Option.isSome_iff_exists.mp hrest
    rw [hret]
    cases ret with
    | none | some c => rfl
  all_goals rfl

lemma exists_last_of_matchPmrCos {n c : Nat}
 (h : (st.matchPmrCos pkt n (some c) (some ptr)).isSome = true) :
 ∃ e, Chain.last (st.goesOn pkt) n (c,ptr) = some e := by
 induction n generalizing c ptr with
 | zero => cases h
 | succ n ih =>
  rw [Chain.last]
  cases hnext : st.goesOn pkt (c,ptr) with
  | none => exact ⟨_,rfl⟩
  | some e =>
   obtain ⟨b,ptr'⟩ := e
   rw [goesOn] at hnext
   split_ifs at hnext with hon
   obtain ⟨b',hl,hmap⟩ := Option.bind_eq_some_iff.mp hnext
   obtain ⟨_,hp,heq⟩ := Option.map_eq_some_iff.mp hmap
   cases heq
   rw [matchPmrCos,if_pos hon.1,if_pos hon.2,hl,hp] at h
   refine ih ?_
   cases hret : st.matchPmrCos pkt n (some b) (some ptr') with
   | none => rw [hret] at h; cases h
   | some ret => rfl

lemma Tables.isSome_matchPmrCos (h : Tables st R) (hacyclic : Chain.Acyclic R.linked) (pkt : Packet)
 (cos : Option Nat) (pmr : Option PmrPtr) :
 (st.matchPmrCos pkt cascadeFuel cos pmr).isSome = true := by
 cases cos with
 | none => rfl
 | some c =>
  cases pmr with
  | none => rfl
  | some ptr =>
   obtain ⟨d,hd⟩ := Chain.exists_last_of_card_lt (Finset.range cosMaxEntry) hacyclic
    (fun a b hab => Finset.mem_range.mpr (h.linked_lt hab)) (n := cosMaxEntry+1) (by simp) c
   obtain ⟨e,he⟩ := Chain.exists_last_of_map (b := (c,ptr)) Prod.fst (fun a b => step_linkedCos)
    (h.linked_eq ▸ hd)
   exact Classifier.isSome_matchPmrCos he

/-- **Termination.** `match_pmr_cos` returns exactly when the classes of service and rules that it
goes on to with the packet come to an end, and for every packet if the links that the configuration
calls made have no cycle. -/
theorem match_pmr_cos_returns (numInQueue : Nat → Nat) (calls : List Call) (pkt : Packet)
 (cos : Option Nat) (pmr : Option PmrPtr) :
 ((∃ depth, (((init numInQueue).configure calls).matchPmrCos pkt depth cos pmr).isSome = true) ↔
  ∀ c ptr, cos = some c → pmr = some ptr →
   ∃ e, Relation.ReflTransGen (Chain.Step (((init numInQueue).configure calls).goesOn pkt))
    (c,ptr) e ∧ ((init numInQueue).configure calls).goesOn pkt e = none) ∧
 (Chain.Acyclic (fun c => (((init numInQueue).configure calls).cosTbl c).linkedCos) →
  ∃ depth, (((init numInQueue).configure calls).matchPmrCos pkt depth cos pmr).isSome = true) := by
 constructor
 · constructor
   · rintro ⟨depth,h⟩ c ptr rfl rfl
     exact Chain.exists_last_iff.mp ⟨depth,exists_last_of_matchPmrCos h⟩
   · intro h
     cases cos with
     | none => exact ⟨1,rfl⟩
     | some c =>
      cases pmr with
      | none => exact ⟨1,rfl⟩
      | some ptr =>
       obtain ⟨n,e,he⟩ := Chain.exists_last_iff.mpr (h c ptr rfl rfl)
       exact ⟨n+1,isSome_matchPmrCos he⟩
 · intro hacyclic
   have htables := tables_configure numInQueue 0 calls
   exact ⟨_,htables.isSome_matchPmrCos (htables.linked_eq ▸ hacyclic) pkt cos pmr⟩

theorem match_pmr_cos_returns_cascade :
 ∃ depth, (((init fun _ => 8).configure cascadeCalls).matchPmrCos
 (parsedPacket {} fun _ => 0) depth (some 1) (some (.pmr 1))).isSome = true :=
 (match_pmr_cos_returns ..).2 ((tables_configure _ 0 cascadeCalls).linked_eq ▸ acyclic_cascadeCalls)

/-- A rule for packets of 100 bytes, and a class of service that leads on to itself by that rule. -/
def selfCalls : List Call :=
 [.cosCreate none none,.pmrCreate (lengthMatch 100),.pktioPmrCos 0 0 0,.cosPmrCos 0 0 0]

/-- The rule is attached to the interface, and `match_pmr_cos` does not return at any depth. -/
theorem match_pmr_cos_loops :
 ((((init fun _ => 1).configure selfCalls).pktio 0).cls 0).cos 0 = some 0 ∧
 ((((init fun _ => 1).configure selfCalls).pktio 0).cls 0).pmr 0 = some (.pmr 0) ∧
 ∀ depth, ((init fun _ => 1).configure selfCalls).matchPmrCos (parsedPacket {} fun _ => 0) depth
  (some 0) (some (.pmr 0)) = none := by
 refine ⟨rfl,rfl,fun depth => ?_⟩
 induction depth with
 | zero => rfl
 | succ depth ih =>
  have hcos : ((init fun _ => 1).configure selfCalls).cosTbl 0 =
   ⟨true,none,none,some (.pmr 0),some 0⟩ :=
   rfl
  have hverify : ((init fun _ => 1).configure selfCalls).verifyPmr (parsedPacket {} fun _ => 0)
   (.pmr 0) = true := by decide
  rw [matchPmrCos,hcos,if_pos rfl,if_pos hverify,ih]

end Packages.Classifier

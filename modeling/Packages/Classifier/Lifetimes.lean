import Packages.Classifier.Model
import Packages.Lib.Lifetime
import Packages.Lib.Transition

/-!
# Destroyed classes of service and rules

The tables are only ever marked: a destroyed entry stays where it is until its slot is used again,
and the attachments go on to point to it. The history records when attachments were made and entries
were last destroyed.
-/

namespace Packages.Classifier

open Function

open Packages.Parser Transition

-- Destruction

namespace State

variable (st : State)

def cosDestroy (cos : Nat) : State :=
 match st.getCosEntry cos with
 | none => st
 | some i => st.setCos i { st.cosTbl i with valid := false }

def pmrDestroy (pmr : Nat) : State :=
 match st.getPmrEntry pmr with
 | none => st
 | some _ => { st with pmrTbl := update st.pmrTbl pmr { st.pmrTbl pmr with valid := false } }

def pmrMatchSetDestroy (set : Nat) : State :=
 match st.getPmrSetEntry set with
 | none => st
 | some _ =>
  { st with pmrSetTbl := update st.pmrSetTbl set { st.pmrSetTbl set with valid := false } }

end State

-- Attachments

/-- An entry of one of the tables. -/
inductive Entry
 | cos (idx : Nat)
 | pmr (ptr : PmrPtr)
 deriving DecidableEq,Repr

/-- Where a pointer to a class of service is stored: with a rule of a classifier, in a cascade, as a
default, or in a table of priorities. -/
inductive Attachment
 | rule (pktio id i : Nat)
 | link (cos : Nat)
 | default (pktio id : Nat)
 | l2 (pktio qos : Nat)
 | l3 (pktio qos : Nat)
 deriving DecidableEq,Repr

/-- Defaults and priorities are returned as they are. -/
def Attachment.Unchecked : Attachment → Prop
 | .default .. | .l2 .. | .l3 .. => True
 | .rule .. | .link _ => False

def entriesOf (pmr : Option PmrPtr) (cos : Option Nat) : List Entry :=
 pmr.toList.map .pmr++cos.toList.map .cos

def Cls.ruleEntries (cls : Cls) (i : Nat) : List Entry :=
 if i < cls.numPmr then entriesOf (cls.pmr i) (cls.cos i) else []

def Cos.linkEntries (cos : Cos) : List Entry :=
 if cos.valid then entriesOf cos.pmr cos.linkedCos else []

namespace State

variable (st : State)

def entryValid : Entry → Bool
 | .cos i => (st.cosTbl i).valid
 | .pmr ptr => (st.pmrAt ptr).valid

/-- The entries an attachment points to. -/
def attached : Attachment → List Entry
 | .rule p id i => ((st.pktio p).cls id).ruleEntries i
 | .link c => (st.cosTbl c).linkEntries
 | .default p id => entriesOf none ((st.pktio p).cls id).defaultCos
 | .l2 p qos => entriesOf none (((st.pktio p).cls 0).l2CosTable qos)
 | .l3 p qos => entriesOf none (((st.pktio p).cls 0).l3CosTable qos)

/-- The priorities that `fillQos` stores to. -/
def fills (max : Nat) (table : List (Nat × Nat)) (qos : Nat) : Bool :=
 table.any fun e => e.1 == qos && decide (max > qos) && st.cosValid e.2

/-- The attachments a call makes. -/
def makes (a : Attachment) : Call → Bool
 | .pktioDefaultCosSet p cos =>
  decide (p < configPktioEntries) && st.cosValid cos &&
   a == .default p ((st.pktio p).inQueueIndex (pktioMaxQueues-1))
 | .pktioPmrCos pmr p cos =>
  decide (p < configPktioEntries) && (st.getPmrEntry pmr).isSome && st.cosValid cos &&
   decide (((st.pktio p).cls 0).numPmr < pktioMaxPmr) && a == .rule p 0 ((st.pktio p).cls 0).numPmr
 | .pktioPmrMatchSetCos set p cos =>
  let id := (st.pktio p).inQueueIndex (pktioMaxQueues-1)
  decide (p < configPktioEntries) && (st.getPmrSetEntry set).isSome && st.cosValid cos &&
   decide (((st.pktio p).cls id).numPmr < pktioMaxPmr) && a == .rule p id
   ((st.pktio p).cls id).numPmr
 | .cosPmrCos pmr src dst =>
  st.cosValid src && st.cosValid dst && (st.getPmrEntry pmr).isSome && a == .link src
 | .cosWithL2Priority p table =>
  decide (p < configPktioEntries) &&
   match a with
   | .l2 q qos => q == p && st.fills cosMaxL2Qos table qos
   | _ => false
 | .cosWithL3Qos p table _ =>
  decide (p < configPktioEntries) &&
   match a with
   | .l3 q qos => q == p && st.fills cosMaxL3Qos table qos
   | _ => false
 | .cosCreate .. | .pmrCreate _ | .pmrMatchSetCreate _ => false

/-- The free slot that a create call takes. -/
def slotOf : Call → Option Entry
 | .cosCreate .. => (firstFree (fun i => (st.cosTbl i).valid) cosMaxEntry).map .cos
 | .pmrCreate m =>
  if m.valSz > pmrTermBytesMax then none
  else (firstFree (fun i => (st.pmrTbl i).valid) pmrMaxEntry).map fun i => .pmr (.pmr i)
 | .pmrMatchSetCreate terms =>
  if terms.length > pmrtermMax then none
  else (firstFree (fun i => (st.pmrSetTbl i).valid) pmrSetMaxEntry).map fun i => .pmr (.set i)
 | _ => none

end State

-- Histories

inductive HistCall
 | call (c : Call)
 | cosDestroy (cos : Nat)
 | pmrDestroy (pmr : Nat)
 | pmrMatchSetDestroy (set : Nat)

structure History where
 st : State
 made : Attachment → Nat
 destroyed : Entry → Nat
 now : Nat

namespace History

def init (numInQueue : Nat → Nat) : History := ⟨Classifier.init numInQueue,fun _ => 0,fun _ => 0,1⟩

variable (h : History)

/-- An entry is destroyed, if it was there. -/
def destroy (e : Entry) (exists_ : Bool) (st : State) : History where
 st := st
 made := h.made
 destroyed := if exists_ then update h.destroyed e h.now else h.destroyed
 now := h.now+1

def step : HistCall → History
 | .call c =>
  { h with
    st := h.st.call c
    made := fun a => if h.st.makes a c then h.now else h.made a
    now := h.now+1 }
 | .cosDestroy cos => h.destroy (.cos cos) (h.st.cosValid cos) (h.st.cosDestroy cos)
 | .pmrDestroy pmr =>
  h.destroy (.pmr (.pmr pmr)) (h.st.getPmrEntry pmr).isSome (h.st.pmrDestroy pmr)
 | .pmrMatchSetDestroy set =>
  h.destroy (.pmr (.set set)) (h.st.getPmrSetEntry set).isSome (h.st.pmrMatchSetDestroy set)

def lifetime : Lifetime Attachment Entry :=
 ⟨h.st.attached,h.st.entryValid,h.made,h.destroyed,h.now⟩

/-- No class of service is destroyed while it is a default or in a table of priorities, and no slot
is used again while an attachment points to it. -/
def Careful : HistCall → Prop
 | .call c => ∀ e ∈ h.st.slotOf c, ∀ a, e ∉ h.st.attached a
 | .cosDestroy cos => ∀ a : Attachment, a.Unchecked → .cos cos ∉ h.st.attached a
 | .pmrDestroy _ | .pmrMatchSetDestroy _ => True

end History

-- Selection with the attachments it goes through

namespace State

variable (st : State) (pkt : Packet)

/-- `matchPmrCos` with the attachments that lead to the result; the first one is given. -/
def matchTrace :
 Nat → Attachment → Option Nat → Option PmrPtr → Option (Option (Nat × List Attachment))
 | 0,_,_,_ => none
 | fuel+1,a,some cos,some pmr =>
  if (st.cosTbl cos).valid then
   if st.verifyPmr pkt pmr then
    match matchTrace fuel (.link cos) (st.cosTbl cos).linkedCos (st.cosTbl cos).pmr with
    | none => none
    | some none => some (some (cos,[a]))
    | some (some (retcos,trace)) => some (some (retcos,a::trace))
   else some none
  else some none
 | _+1,_,_,_ => some none

def scanTrace (p id : Nat) : Nat → Nat → Option (Option (Nat × List Attachment))
 | 0,_ => some none
 | left+1,i =>
  match st.matchTrace pkt cascadeFuel (.rule p id i) (((st.pktio p).cls id).cos i)
   (((st.pktio p).cls id).pmr i) with
  | none => none
  | some (some found) => some (some found)
  | some none => scanTrace p id left (i+1)

def qosL3Trace (p : Nat) : Option (Nat × List Attachment) :=
 let table := ((st.pktio p).cls 0).l3CosTable
 if pkt.hdr.inputFlags.l3 && pkt.hdr.inputFlags.ipv4 then
  let qos := byteAt pkt.data (pkt.hdr.l3Offset+1)/2^2
  (table qos).map (·,[.l3 p qos])
 else if pkt.hdr.inputFlags.l3 && pkt.hdr.inputFlags.ipv6 then
  let qos := ipv6hdrDscp pkt pkt.hdr.l3Offset
  (table qos).map (·,[.l3 p qos])
 else none

def qosL2Trace (p : Nat) : Option (Nat × List Attachment) :=
 let table := ((st.pktio p).cls 0).l2CosTable
 if pkt.hdr.inputFlags.l2 && pkt.hdr.inputFlags.vlan && pkt.hdr.inputFlags.eth then
  let qos := be16 pkt.data (pkt.hdr.l2Offset+14)/2^13
  (table qos).map (·,[.l2 p qos])
 else none

def qosTrace (p : Nat) : Option (Nat × List Attachment) :=
 if ((st.pktio p).cls 0).l3Precedence then (st.qosL3Trace pkt p).or (st.qosL2Trace pkt p)
 else (st.qosL2Trace pkt p).or (st.qosL3Trace pkt p)

def selectTrace (p queueId : Nat) : Option (Option (Nat × List Attachment)) :=
 let entry := st.pktio p
 if pkt.hdr.errorFlags.any then some none
 else
  match st.scanTrace pkt p globalClsId (entry.cls globalClsId).numPmr 0 with
  | none => none
  | some (some found) => some (some found)
  | some none =>
   match st.scanTrace pkt p queueId (entry.cls queueId).numPmr 0 with
   | none => none
   | some (some found) => some (some found)
   | some none =>
    match st.qosTrace pkt p with
    | some found => some (some found)
    | none => some ((entry.cls queueId).defaultCos.map (·,[.default p queueId]))

variable {st pkt}

lemma matchTrace_eq (fuel : Nat) (a : Attachment) (cos : Option Nat) (pmr : Option PmrPtr) :
 (st.matchTrace pkt fuel a cos pmr).map (·.map Prod.fst) = st.matchPmrCos pkt fuel cos pmr := by
 induction fuel generalizing a cos pmr with
 | zero => rfl
 | succ fuel ih =>
  cases cos with
  | none => rfl
  | some cos =>
   cases pmr with
   | none => rfl
   | some pmr =>
    simp only [matchTrace,matchPmrCos]
    split
    · split
      · rw [← ih (.link cos)]
        split <;> simp_all
      · rfl
    · rfl

lemma scanTrace_eq (p id left i : Nat) :
 (st.scanTrace pkt p id left i).map (·.map Prod.fst) =
 st.scanPmr pkt ((st.pktio p).cls id) left i := by
 induction left generalizing i with
 | zero => rfl
 | succ left ih =>
  simp only [scanTrace,scanPmr]
  rw [← matchTrace_eq cascadeFuel (.rule p id i)]
  split <;> simp_all

end State

end Packages.Classifier

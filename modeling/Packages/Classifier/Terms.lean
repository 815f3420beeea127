import Packages.Classifier.Selection

/-!
# What a matching term says

`Packet.field` is the number in network order that a term looks at. A rule of one term matches when
field and value agree under the mask.
-/

namespace Packages.Classifier

open Packages.Parser State

namespace Packet

variable (pkt : Packet)

/-- The number in `n` bytes at `p`, if the packet has the header they belong to. -/
def read (has : Bool) (p n : Nat) : Option Nat := if has then some (beBytes pkt.data p n) else none

/-- The field of a term. -/
def field : PmrTerm → Option Nat
 | .len => some pkt.hdr.frameLen
 | .ipproto => pkt.read pkt.hdr.inputFlags.ipv4 (pkt.hdr.l3Offset+9) 1
 | .sipAddr => pkt.read pkt.hdr.inputFlags.ipv4 (pkt.hdr.l3Offset+12) 4
 | .dipAddr => pkt.read pkt.hdr.inputFlags.ipv4 (pkt.hdr.l3Offset+16) 4
 | .udpSport => pkt.read pkt.hdr.inputFlags.udp pkt.hdr.l4Offset 2
 | .udpDport => pkt.read pkt.hdr.inputFlags.udp (pkt.hdr.l4Offset+2) 2
 | .tcpSport => pkt.read pkt.hdr.inputFlags.tcp pkt.hdr.l4Offset 2
 | .tcpDport => pkt.read pkt.hdr.inputFlags.tcp (pkt.hdr.l4Offset+2) 2
 | .ipsecSpi =>
  if pkt.hdr.l4Protocol = ipprotoAh then pkt.read pkt.hdr.inputFlags.ipsec (pkt.hdr.l4Offset+4) 4
  else if pkt.hdr.l4Protocol = ipprotoEsp then pkt.read pkt.hdr.inputFlags.ipsec pkt.hdr.l4Offset 4
  else none
 | .dmac => pkt.read pkt.hdr.inputFlags.eth pkt.hdr.l2Offset 6
 | _ => none

end Packet

def fieldTerms : List PmrTerm :=
 [.len,.ipproto,.udpSport,.udpDport,.tcpSport,.tcpDport,.sipAddr,.dipAddr,.ipsecSpi,.dmac]

/-- The number that the functions of the terms compare. The destination address keeps the zero bytes
of its word if the word reads the same with its bytes swapped. -/
def Packet.compared (pkt : Packet) (term : PmrTerm) : Option Nat :=
 if term = .dmac ∧ leBytes pkt.data pkt.hdr.l2Offset 6 =
  beBytes pkt.data pkt.hdr.l2Offset 6*2^16 then
  (pkt.field .dmac).map (·*2^16)
 else pkt.field term

lemma verify_field {tv : PmrTermValue} {pkt : Packet} (hterm : tv.term ∈ fieldTerms) :
 tv.verify pkt = (pkt.compared tv.term).any tv.same := by
 have hread : ∀ has p n, (pkt.read has p n).any tv.same =
  (has && tv.same (beBytes pkt.data p n)) := by
  intro has p n
  cases has <;> rfl
 have hbyte : ∀ p, beBytes pkt.data p 1 = byteAt pkt.data p := fun p => by simp [beBytes]
 have hport : ∀ p, beBytes pkt.data p 2 = be16 pkt.data p := fun p => by simp [beBytes,be16]
 by_cases ht : tv.term = .dmac
 · simp only [PmrTermValue.verify,ht,PmrTermValue.verifyDmac,Packet.compared,Packet.field,
    Packet.read,true_and]
   split_ifs <;> simp_all
 · rw [Packet.compared,if_neg fun h => ht h.1,PmrTermValue.verify]
   cases ht' : tv.term with
   | len => rfl
   | ipproto => rw [Packet.field,hread,hbyte]; rfl
   | sipAddr | dipAddr => rw [Packet.field,hread]; rfl
   | udpSport | udpDport | tcpSport | tcpDport => rw [Packet.field,hread,hport]; rfl
   | ipsecSpi =>
    dsimp only [PmrTermValue.verifyIpsecSpi,Packet.field]
    split_ifs
    · rw [hread]
    · rw [hread]
    · simp
   | dmac => exact absurd ht' ht
   | _ => simp [ht',fieldTerms] at hterm

-- The bytes of a frame

lemma leBytes_and_eq_iff (a b mask : Memory) (p q n : Nat) :
 leBytes a p n &&& leBytes mask p n = leBytes b q n &&& leBytes mask p n ↔
  ∀ i < n, byteAt a (p+i) &&& byteAt mask (p+i) = byteAt b (q+i) &&& byteAt mask (p+i) := by
 induction n generalizing p q with
 | zero => simp [leBytes]
 | succ n ih =>
  have hsplit : ∀ x y : Nat, x = y ↔ x%2^8 = y%2^8 ∧ x/2^8 = y/2^8 := fun x y => by omega
  have hlt : ∀ mem p, byteAt mem p < 2^8 := fun mem p => (mem p).toNat_lt
  have hmod : ∀ mem p, leBytes mem p (n+1)%2^8 = byteAt mem p := fun mem p => by
   rw [leBytes,Nat.add_mul_mod_self_left,Nat.mod_eq_of_lt (hlt mem p)]
  have hdiv : ∀ mem p, leBytes mem p (n+1)/2^8 = leBytes mem (p+1) n := fun mem p => by
   rw [leBytes,Nat.add_mul_div_left _ _ (Nat.two_pow_pos 8),Nat.div_eq_of_lt (hlt mem p),zero_add]
  rw [hsplit,Nat.and_mod_two_pow,Nat.and_mod_two_pow,Nat.and_div_two_pow,
   Nat.and_div_two_pow,hmod,hmod,hmod,hdiv,hdiv,hdiv,ih,Nat.forall_lt_succ_left]
  simp only [add_zero,add_assoc,add_comm 1]

variable {st : State} {m : PmrMatch} {i : Nat}

lemma verifyPmr_pmrCreate (hsz : m.valSz ≤ pmrTermBytesMax) (pkt : Packet)
 (hfree : firstFree (fun i => (st.pmrTbl i).valid) pmrMaxEntry = some i) :
 (st.pmrCreate m).verifyPmr pkt (.pmr i) = m.createTerm.verify pkt := by
 rw [pmrCreate,if_neg (not_lt.mpr hsz),hfree]
 simp [verifyPmr,pmrAt,verifyTerms]

namespace PmrMatch

/-- A number and the value of a rule are the same under its mask. -/
def Agrees (m : PmrMatch) (v : Nat) : Prop :=
 v &&& leBytes m.mask 0 m.valSz = leBytes m.val 0 m.valSz &&& leBytes m.mask 0 m.valSz

/-- The bytes of the frame at the offset of a rule and its value are the same under its mask. -/
def BytesAgree (m : PmrMatch) (pkt : Packet) : Prop :=
 ∀ k < m.valSz, byteAt pkt.data (m.offset+k) &&& byteAt m.mask k =
  byteAt m.val k &&& byteAt m.mask k

/-- What a rule is to say about a packet. -/
def Meant (m : PmrMatch) (pkt : Packet) (matched : Prop) : Prop :=
 (m.term ∈ fieldTerms → (matched ↔ ∃ v, pkt.field m.term = some v ∧ m.Agrees v)) ∧
 (m.term = .customFrame → (matched ↔ m.offset+m.valSz ≤ pkt.hdr.frameLen ∧ m.BytesAgree pkt))

/-- A destination address that reads the same with its bytes swapped agrees with the value of the
rule whether it is shifted or not; bytes that agree do not end with the frame, and their end is a
32-bit word or wraps to one behind the frame. -/
def ReadRight (m : PmrMatch) (pkt : Packet) : Prop :=
 (m.term = .dmac → leBytes pkt.data pkt.hdr.l2Offset 6 = beBytes pkt.data pkt.hdr.l2Offset 6*2^16 →
  ∀ v, pkt.field .dmac = some v → (m.Agrees (v*2^16) ↔ m.Agrees v)) ∧
 (m.term = .customFrame → m.BytesAgree pkt →
  m.offset+m.valSz < 2^32 ∧ m.offset+m.valSz ≠ pkt.hdr.frameLen ∨ pkt.hdr.frameLen+2^32 ≤
  m.offset+m.valSz)

lemma same_createTerm {m : PmrMatch} {v : Nat} : m.createTerm.same v = true ↔ m.Agrees v :=
 beq_iff_eq.trans eq_comm

lemma meant_field {m : PmrMatch} {pkt : Packet} (hterm : m.term ∈ fieldTerms) :
 (m.createTerm.verify pkt = true ↔ ∃ v, pkt.field m.term = some v ∧ m.Agrees v) ↔
  (m.term = .dmac → leBytes pkt.data pkt.hdr.l2Offset 6 = beBytes pkt.data pkt.hdr.l2Offset 6*2^16 →
   ∀ v, pkt.field .dmac = some v → (m.Agrees (v*2^16) ↔ m.Agrees v)) := by
 rw [verify_field (show m.createTerm.term ∈ fieldTerms from hterm),Option.any_eq_true]
 simp only [same_createTerm,show m.createTerm.term = m.term from rfl,Packet.compared]
 split_ifs with h
 · rw [h.1]
   cases pkt.field .dmac <;> simp [h.2]
 · exact iff_of_true Iff.rfl fun h1 h2 => absurd ⟨h1,h2⟩ h

lemma meant_customFrame {m : PmrMatch} {pkt : Packet} (hterm : m.term = .customFrame)
 (hsz : m.valSz ≤ pmrTermBytesMax) (hoffset : m.offset < 2^32) (hlen : pkt.hdr.frameLen < 2^32) :
 (m.createTerm.verify pkt = true ↔ m.offset+m.valSz ≤ pkt.hdr.frameLen ∧ m.BytesAgree pkt) ↔
  (m.BytesAgree pkt → m.offset+m.valSz < 2^32 ∧ m.offset+m.valSz ≠ pkt.hdr.frameLen ∨
   pkt.hdr.frameLen+2^32 ≤ m.offset+m.valSz) := by
 have hbytes := leBytes_and_eq_iff m.val pkt.data m.mask 0 m.offset m.valSz
 simp only [Nat.zero_add] at hbytes
 have hsame : m.createTerm.same (leBytes pkt.data m.offset m.valSz) = true ↔ m.BytesAgree pkt := by
  refine beq_iff_eq.trans (hbytes.trans (forall₂_congr fun k _ => eq_comm))
 have hverify : m.createTerm.verify pkt =
  (!decide (pkt.hdr.frameLen ≤ add32 m.offset m.valSz) && m.createTerm.same
   (leBytes pkt.data m.offset m.valSz)) := by
  rw [PmrTermValue.verify,show m.createTerm.term = .customFrame from hterm]
  rfl
 have hmax : pmrTermBytesMax < 2^32 := by decide
 rw [hverify,Bool.and_eq_true,hsame,Bool.not_eq_true',decide_eq_false_iff_not,not_le,
  and_congr_left_iff]
 refine imp_congr_right fun _ => ?_
 rw [add32]
 omega

end PmrMatch

/-- A rule for one destination address. -/
def dmacMatch (val : Memory) : PmrMatch := ⟨.dmac,val,fun _ => 255,6,0⟩

/-- The six bytes 0,0,1,2,2,1 in network order are the bytes 1,2,2,1,0,0 of a little-endian
value. -/
def swappedDmac : Memory := fun i => if i < 2 then 0 else if i = 2 ∨ i = 5 then 1 else 2

end Packages.Classifier

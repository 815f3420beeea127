import Packages.Helper.Checksum

/-!
# The UDP checksum of the helper library

`odph_ipv4_udp_chksum` on a little-endian machine. It compares the complement with zero before it is
cut to 16 bits, so the checksum of words that sum to 0xFFFF is a zero.
-/

namespace Packages.Helper

open OnesComplement Packages.Parser

namespace Packet

variable (pkt : Packet) (l4 : Nat)

/-- The UDP header, with the length in its third and the checksum in its fourth word. -/
def udph : Packet := ⟨pkt.data,l4⟩

def udplen : Nat := word ((pkt.udph l4).pair 2).2 ((pkt.udph l4).pair 2).1

def datagram (len : Nat) : List UInt8 := (List.range len).map fun i => pkt.data (l4+i)

def pseudoHeader : List (UInt8 × UInt8) :=
 [pkt.pair 6,pkt.pair 7,pkt.pair 8,pkt.pair 9,(pkt.udph l4).pair 2,(0,(pkt.pair 4).2)]

/-- What the checksum covers. -/
def covered : List UInt8 := bytes (pkt.pseudoHeader l4)++pkt.datagram l4 (pkt.udplen l4)

def setUdpChksum (c : Nat) : Packet :=
 let data := Function.update pkt.data (l4+6) (halves c).1
 { pkt with data := Function.update data (l4+7) (halves c).2 }

end Packet

/-- The sum over pseudo-header and datagram in 32 bits. -/
def udpSum (pkt : Packet) (l4 : Nat) : Nat :=
 let srcAddr := wordOf (pkt.pair 6)+2^16*wordOf (pkt.pair 7)
 let dstAddr := wordOf (pkt.pair 8)+2^16*wordOf (pkt.pair 9)
 let length := wordOf ((pkt.udph l4).pair 2)
 let sum := (srcAddr%2^16+srcAddr/2^16+dstAddr%2^16+dstAddr/2^16+length)%2^32
 let sum := (sum+wordOf (0,(pkt.pair 4).2))%2^32
 chksumLoop (pkt.datagram l4 (pkt.udplen l4)) sum

def ipv4UdpChksum (pkt : Packet) (l4Offset : Option Nat) : Nat :=
 match l4Offset with
 | none => 0
 | some l4 =>
  let sum := udpSum pkt l4
  let sum := (sum%2^16+sum/2^16)%2^32
  let sum := (sum+sum/2^16)%2^32
  let sum := 2^32-1-sum
  if sum = 0 then 0xFFFF else sum%2^16

namespace Packet

variable {pkt : Packet} {l4 : Nat}

lemma sum_covered (pkt : Packet) (l4 : Nat) : (words (pkt.covered l4)).sum =
 ((pkt.pseudoHeader l4).map wordOf).sum+
  (words (pkt.datagram l4 (pkt.udplen l4))).sum := sum_words_bytes ..

lemma datagram_eq (n : Nat) : pkt.datagram l4 (8+n) =
 bytes ((List.range 4).map (pkt.udph l4).pair)++pkt.datagram (l4+8) n := by
 simp only [datagram,List.range_add,List.map_append,List.map_map]
 congr 1
 exact List.map_congr_left fun i _ => congrArg pkt.data (add_assoc ..).symm

lemma pair_setUdpChksum (c i : Nat) : ((pkt.setUdpChksum l4 c).udph l4).pair i =
 if i = 3 then halves c else (pkt.udph l4).pair i := by
 simp only [pair,udph,setUdpChksum,Function.update_apply]
 split_ifs <;> first | omega | simp

lemma sum_setUdpChksum {c : Nat} (hc : c < 2^16) (hhdr : pkt.l3Offset+20 ≤ l4)
 (hlen : 8 ≤ pkt.udplen l4) (hzero : (pkt.udph l4).pair 3 = (0,0)) :
 (words ((pkt.setUdpChksum l4 c).covered l4)).sum = (words (pkt.covered l4)).sum+c := by
 have hbelow : ∀ i ≤ 9, (pkt.setUdpChksum l4 c).pair i = pkt.pair i := by
  intro i hi
  simp only [pair,setUdpChksum,Function.update_apply]
  rw [if_neg (by omega),if_neg (by omega),if_neg (by omega),if_neg (by omega)]
 have hpseudo : (pkt.setUdpChksum l4 c).pseudoHeader l4 = pkt.pseudoHeader l4 := by
  simp [pseudoHeader,pair_setUdpChksum,hbelow]
 have hudplen : (pkt.setUdpChksum l4 c).udplen l4 = pkt.udplen l4 := by
  simp [udplen,pair_setUdpChksum]
 obtain ⟨n,hn⟩ := Nat.exists_eq_add_of_le hlen
 have hrest : (pkt.setUdpChksum l4 c).datagram (l4+8) n = pkt.datagram (l4+8) n := by
  refine List.map_congr_left fun i _ => ?_
  simp only [setUdpChksum,Function.update_apply]
  rw [if_neg (by omega),if_neg (by omega)]
 have hfield : wordOf (0,0) = 0 := rfl
 rw [sum_covered,sum_covered,hpseudo,hudplen,hn,datagram_eq,datagram_eq,hrest,sum_words_bytes,
  sum_words_bytes]
 simp [List.range_succ,pair_setUdpChksum,hzero,wordOf_halves hc]
 omega

lemma sum_covered_lt (pkt : Packet) (l4 : Nat) : (words (pkt.covered l4)).sum < 2^32 := by
 have hle := sum_words_le (pkt.covered l4)
 have hudplen : pkt.udplen l4 < 2^16 := word_lt ..
 have hlen : (pkt.covered l4).length = 12+pkt.udplen l4 := by
  simp [covered,datagram,pseudoHeader,length_bytes]
 omega

lemma udpSum_eq (pkt : Packet) (l4 : Nat) :
 udpSum pkt l4 = (words (pkt.covered l4)).sum := by
 have hlt := pkt.sum_covered_lt l4
 have hsrc : wordOf (pkt.pair 6) < 2^16 := word_lt ..
 have hdst : wordOf (pkt.pair 8) < 2^16 := word_lt ..
 rw [sum_covered] at hlt ⊢
 simp only [pseudoHeader,List.map_cons,List.map_nil,List.sum_cons,List.sum_nil] at hlt ⊢
 rw [udpSum,chksumLoop_eq _ (Nat.mod_lt _ (Nat.two_pow_pos 32))]
 omega

lemma ipv4UdpChksum_eq (pkt : Packet) (l4 : Nat) :
 ipv4UdpChksum pkt (some l4) = 2^16-1-fold (words (pkt.covered l4)).sum := by
 have hlt := pkt.sum_covered_lt l4
 rw [← fold_eq hlt]
 simp only [ipv4UdpChksum,udpSum_eq]
 generalize (words (pkt.covered l4)).sum = n at hlt ⊢
 have ht : n%2^16+n/2^16 < 2^17 := by omega
 rw [add_comm (n/2^16)]
 generalize n%2^16+n/2^16 = t at ht ⊢
 -- The complement of a folded sum has its upper half set.
 rw [Nat.mod_eq_of_lt (by omega : t < 2^32),if_neg (by omega)]
 omega

lemma sum_covered_pos (hlen : 8 ≤ pkt.udplen l4) : 0 < (words (pkt.covered l4)).sum := by
 rw [sum_covered]
 simp only [udplen,word,pseudoHeader,List.map_cons,List.sum_cons,wordOf] at hlen ⊢
 omega

end Packet

/-- The checksum is non-zero and completes the words to 0xFFFF exactly if they do not sum to 0xFFFF
without it. -/
theorem ipv4_udp_chksum_exact (pkt : Packet) (l4 : Nat) (hhdr : pkt.l3Offset+20 ≤ l4)
 (hlen : 8 ≤ pkt.udplen l4) (hzero : (pkt.udph l4).pair 3 = (0,0)) :
 (ipv4UdpChksum pkt (some l4) ≠ 0 ∧
  sum (words ((pkt.setUdpChksum l4 (ipv4UdpChksum pkt (some l4))).covered l4)) = 0xFFFF) ↔
 sum (words (pkt.covered l4)) ≠ 0xFFFF := by
 have hc := pkt.ipv4UdpChksum_eq l4
 rw [sum_eq (words_lt _),sum_eq (words_lt _),Packet.sum_setUdpChksum (by omega) hhdr hlen hzero,hc]
 have hpos := Packet.sum_covered_pos hlen
 generalize (words (pkt.covered l4)).sum = n at hpos ⊢
 have := fold_cases n
 have := fold_cases (n+(2^16-1-fold n))
 omega

/-- An IPv4 header of zeros and a datagram of eight bytes, the first two of them `lo` and `hi`. -/
def udpPacket (lo hi : UInt8) : Packet where
 data i := if i = 20 then lo else if i = 21 then hi else if i = 25 then 8 else 0
 l3Offset := 0

theorem ipv4_udp_chksum_exact_zeros : ipv4UdpChksum (udpPacket 0 0) (some 20) ≠ 0 :=
 ((ipv4_udp_chksum_exact (udpPacket 0 0) 20 (by decide) (by decide) rfl).mpr (by decide)).1

theorem ipv4_udp_chksum_zero : (udpPacket 0xFF 0xEF).udplen 20 = 8 ∧
 ((udpPacket 0xFF 0xEF).udph 20).pair 3 = (0,0) ∧
 ipv4UdpChksum (udpPacket 0xFF 0xEF) (some 20) = 0 := by
 decide

end Packages.Helper

import Packages.Lib.OnesComplement
import Packages.Parser.Model

/-!
# Internet checksums of the helper library

`odp_chksum` on a little-endian machine, and the two functions on the header checksum of an IPv4
packet. `odph_ipv4_csum_update` sums the header with the checksum that is in it, so it leaves a
valid header only if that was a zero, and a second call undoes the first.
-/

namespace Packages.Helper

open Function OnesComplement Packages.Parser

-- `odp_chksum`

/-- A word of two bytes in host order. -/
def word (lo hi : UInt8) : Nat := lo.toNat+2^8*hi.toNat

/-- The loop over the words, with the odd byte at the end. -/
def chksumLoop : List UInt8 → Nat → Nat
 | lo::hi::buf,sum => chksumLoop buf ((sum+word lo hi)%2^32)
 | [b],sum => (sum+b.toNat)%2^32
 | [],sum => sum

def chksum (buf : List UInt8) : Nat :=
 let sum := chksumLoop buf 0
 let sum := (sum/2^16+sum%2^16)%2^32
 let sum := (sum+sum/2^16)%2^32
 (2^32-1-sum)%2^16

/-- The words of a byte string, an odd last byte padded with a zero byte. -/
def words : List UInt8 → List Nat
 | lo::hi::buf => word lo hi::words buf
 | [b] => [word b 0]
 | [] => []

lemma word_lt (lo hi : UInt8) : word lo hi < 2^16 := by
 have := lo.toNat_lt
 have := hi.toNat_lt
 unfold word
 omega

lemma chksum_lt (buf : List UInt8) : chksum buf < 2^16 := Nat.mod_lt _ (Nat.two_pow_pos 16)

lemma words_lt (buf : List UInt8) : ∀ w ∈ words buf, w < 2^16 := by
 fun_induction words buf with
 | case1 lo hi buf ih => exact List.forall_mem_cons.mpr ⟨word_lt lo hi,ih⟩
 | case2 b => exact fun w hw => List.mem_singleton.mp hw ▸ word_lt b 0
 | case3 => simp

lemma sum_words_le (buf : List UInt8) : (words buf).sum ≤ (2^16-1)*((buf.length+1)/2) := by
 fun_induction words buf with
 | case1 lo hi buf ih =>
  have := word_lt lo hi
  rw [List.sum_cons]
  simp only [List.length_cons]
  omega
 | case2 b =>
  have := word_lt b 0
  simp only [List.sum_singleton,List.length_singleton]
  omega
 | case3 => simp

lemma chksumLoop_eq (buf : List UInt8) {sum : Nat} (hsum : sum < 2^32) :
 chksumLoop buf sum = (sum+(words buf).sum)%2^32 := by
 fun_induction words buf generalizing sum with
 | case1 lo hi buf ih =>
  rw [chksumLoop,ih (Nat.mod_lt _ (Nat.two_pow_pos 32)),List.sum_cons,Nat.mod_add_mod,add_assoc]
 | case2 b => simp [chksumLoop,word]
 | case3 => exact (Nat.mod_eq_of_lt hsum).symm

/-- No sum of at most 65537 words overflows. -/
lemma chksum_eq {buf : List UInt8} (hlen : buf.length ≤ 131074) :
 chksum buf = 2^16-1-fold (words buf).sum := by
 have hle := sum_words_le buf
 have hlt : (words buf).sum < 2^32 := by omega
 rw [← fold_eq hlt,chksum,chksumLoop_eq buf (Nat.two_pow_pos 32),zero_add,Nat.mod_eq_of_lt hlt]
 omega

/-- A byte string of complete words. -/
def bytes (ws : List (UInt8 × UInt8)) : List UInt8 := ws.flatMap fun w => [w.1,w.2]

def wordOf (w : UInt8 × UInt8) : Nat := word w.1 w.2

/-- The two bytes of a word in host order. -/
def halves (w : Nat) : UInt8 × UInt8 := (UInt8.ofNat w,UInt8.ofNat (w/2^8))

lemma wordOf_halves {w : Nat} (hw : w < 2^16) : wordOf (halves w) = w := by
 simp only [wordOf,halves,word,UInt8.toNat_ofNat']
 omega

lemma sum_words_bytes (ws : List (UInt8 × UInt8)) (tail : List UInt8) :
 (words (bytes ws++tail)).sum = (ws.map wordOf).sum+(words tail).sum := by
 induction ws with
 | nil => simp [bytes]
 | cons w ws ih =>
  rw [List.map_cons,List.sum_cons,add_assoc,← ih]
  rfl

lemma length_bytes (ws : List (UInt8 × UInt8)) : (bytes ws).length = 2*ws.length := by
 simp [bytes,mul_comm]

/-- `odp_chksum` of at most 131074 bytes is the complement of the one's complement sum of the words;
it is zero when it stands in the place of a zero word, and does not depend on the order of the
complete words. -/
theorem chksum_ones_complement (buf : List UInt8) (hlen : buf.length ≤ 131074) :
 chksum buf = 2^16-1-sum (words buf) ∧
 (∀ l r tail, buf = bytes (l++(0,0)::r)++tail →
  chksum (bytes (l++halves (chksum buf)::r)++tail) = 0) ∧
 ∀ ws ws' tail, buf = bytes ws++tail → ws.Perm ws' → chksum (bytes ws'++tail) = chksum buf := by
 have hbuf := chksum_eq hlen
 refine ⟨by rw [hbuf,sum_eq (words_lt buf)],fun l r tail heq => ?_,fun ws ws' tail heq hperm => ?_⟩
 · have hlen' : (bytes (l++halves (chksum buf)::r)++tail).length ≤ 131074 := by
    simpa [heq,length_bytes] using hlen
   have hsum : (words (bytes (l++halves (chksum buf)::r)++tail)).sum =
    (words buf).sum+chksum buf := by
    rw [sum_words_bytes,heq,sum_words_bytes,← heq]
    simp only [List.map_append,List.map_cons,List.sum_append,List.sum_cons,
     wordOf_halves (chksum_lt buf)]
    have hzero : wordOf (0,0) = 0 := rfl
    omega
   have hle := sum_words_le (bytes (l++halves (chksum buf)::r)++tail)
   rw [chksum_eq hlen',hsum]
   have := fold_cases (words buf).sum
   have := fold_cases ((words buf).sum+chksum buf)
   omega
 · have hlen' : (bytes ws'++tail).length ≤ 131074 := by
    simpa [heq,length_bytes,hperm.length_eq] using hlen
   rw [chksum_eq hlen',hbuf,heq,sum_words_bytes,sum_words_bytes,(hperm.map wordOf).sum_eq]

/-- A zero word between another one and an odd byte. -/
theorem chksum_ones_complement_zero : chksum [1,2,0,0,3] = 2^16-1-sum (words [1,2,0,0,3]) ∧
 chksum (bytes [(1,2),halves (chksum [1,2,0,0,3])]++[3]) = 0 ∧
 chksum (bytes [(0,0),(1,2)]++[3]) = chksum [1,2,0,0,3] := by
 obtain ⟨hsum,hzero,hperm⟩ := chksum_ones_complement [1,2,0,0,3] (by decide)
 exact ⟨hsum,hzero [(1,2)] [] [3] rfl,hperm [(1,2),(0,0)] [(0,0),(1,2)] [3] rfl (.swap ..)⟩

-- The header checksum of IPv4

structure Packet where
 data : Memory
 l3Offset : Nat

namespace Packet

variable (pkt : Packet)

def pair (i : Nat) : UInt8 × UInt8 := (pkt.data (pkt.l3Offset+2*i),pkt.data (pkt.l3Offset+2*i+1))

/-- The 20 bytes of the header. -/
def hdr : List UInt8 := bytes ((List.range 10).map pkt.pair)

/-- The member `chksum`, the sixth word. -/
def chksumField : Nat := wordOf (pkt.pair 5)

def setChksum (c : Nat) : Packet :=
 let data := update pkt.data (pkt.l3Offset+10) (halves c).1
 { pkt with data := update data (pkt.l3Offset+11) (halves c).2 }

end Packet

/-- `odph_ipv4_csum_valid`: the checksum is cleared in a copy of the header. -/
def ipv4CsumValid (pkt : Packet) : Nat :=
 if pkt.l3Offset = 0 then 0 else if chksum (pkt.setChksum 0).hdr = pkt.chksumField then 1 else 0

/-- `odph_ipv4_csum_update`: the checksum is not cleared. -/
def ipv4CsumUpdate (pkt : Packet) : Nat × Packet :=
 if pkt.l3Offset = 0 then (0,pkt) else (chksum pkt.hdr,pkt.setChksum (chksum pkt.hdr))

namespace Packet

variable {pkt : Packet} {c d : Nat}

lemma pair_setChksum (pkt : Packet) (c i : Nat) :
 (pkt.setChksum c).pair i = if i = 5 then halves c else pkt.pair i := by
 simp only [pair,setChksum,update_apply]
 split_ifs <;> first | omega | simp

lemma setChksum_setChksum (pkt : Packet) (c d : Nat) :
 (pkt.setChksum c).setChksum d = pkt.setChksum d := by
 simp only [setChksum,mk.injEq,and_true]
 funext i
 simp only [update_apply]
 split_ifs <;> rfl

lemma chksumField_setChksum (pkt : Packet) (hc : c < 2^16) : (pkt.setChksum c).chksumField = c := by
 rw [chksumField,pair_setChksum,if_pos rfl,wordOf_halves hc]

lemma sum_hdr (pkt : Packet) :
 (words pkt.hdr).sum = (words (pkt.setChksum 0).hdr).sum+pkt.chksumField := by
 have hsum : ∀ p : Packet, (words p.hdr).sum = (((List.range 10).map p.pair).map wordOf).sum := by
  intro p
  simpa [words,hdr] using sum_words_bytes ((List.range 10).map p.pair) []
 have hzero : wordOf (halves 0) = 0 := rfl
 rw [hsum,hsum]
 simp only [List.range_succ,List.range_zero,List.map_append,List.map_cons,List.map_nil,
  List.sum_append,List.sum_cons,List.sum_nil,List.nil_append,pair_setChksum,chksumField]
 simp [hzero]
 omega

lemma chksum_hdr (pkt : Packet) : chksum pkt.hdr =
 2^16-1-fold ((words (pkt.setChksum 0).hdr).sum+pkt.chksumField) := by
 rw [← sum_hdr]
 exact chksum_eq (by simp [hdr,length_bytes])

end Packet

/-- After `odph_ipv4_csum_update` the words sum to 0xFFFF, the checker accepts the header and a
second update changes nothing, exactly if the other words sum to 0xFFFF and the checksum was a zero;
the first two hold if it was cleared before. -/
theorem ipv4_csum_update_exact (pkt : Packet) (hl3 : pkt.l3Offset ≠ 0) :
 ((sum (words (ipv4CsumUpdate pkt).2.hdr) = 0xFFFF ∧ ipv4CsumValid (ipv4CsumUpdate pkt).2 = 1 ∧
  (ipv4CsumUpdate (ipv4CsumUpdate pkt).2).2 = (ipv4CsumUpdate pkt).2) ↔
  sum (words (pkt.setChksum 0).hdr) = 0xFFFF ∧
   (pkt.chksumField = 0 ∨ pkt.chksumField = 0xFFFF)) ∧
 (pkt.chksumField = 0 → sum (words (ipv4CsumUpdate pkt).2.hdr) = 0xFFFF ∧
  ipv4CsumValid (ipv4CsumUpdate pkt).2 = 1) := by
 have hfield : pkt.chksumField < 2^16 := word_lt ..
 have hc := pkt.chksum_hdr
 have hlt := chksum_lt pkt.hdr
 have hupd : (ipv4CsumUpdate pkt).2 = pkt.setChksum (chksum pkt.hdr) := by
  rw [ipv4CsumUpdate,if_neg hl3]
 generalize chksum pkt.hdr = c at hc hlt hupd
 have hzero : (pkt.setChksum 0).chksumField = 0 := pkt.chksumField_setChksum (Nat.two_pow_pos 16)
 have hvalid := (pkt.setChksum 0).chksum_hdr
 have hagain := (pkt.setChksum c).chksum_hdr
 have hsum := (pkt.setChksum c).sum_hdr
 rw [Packet.setChksum_setChksum,Packet.chksumField_setChksum pkt hlt] at hagain hsum
 rw [Packet.setChksum_setChksum,hzero,Nat.add_zero] at hvalid
 have hl3' : (pkt.setChksum c).l3Offset ≠ 0 := hl3
 have hone : ipv4CsumValid (pkt.setChksum c) = 1 ↔ chksum (pkt.setChksum 0).hdr = c := by
  rw [ipv4CsumValid,if_neg hl3',Packet.setChksum_setChksum,Packet.chksumField_setChksum pkt hlt]
  simp
 have hsame : (ipv4CsumUpdate (pkt.setChksum c)).2 = pkt.setChksum c ↔
  chksum (pkt.setChksum c).hdr = c := by
  rw [ipv4CsumUpdate,if_neg hl3',Packet.setChksum_setChksum]
  refine ⟨fun h => ?_,fun h => by rw [h]⟩
  have hfields := congrArg Packet.chksumField h
  rwa [Packet.chksumField_setChksum pkt (chksum_lt _),Packet.chksumField_setChksum pkt
   hlt] at hfields
 rw [hupd,hone,hsame,sum_eq (words_lt _),sum_eq (words_lt _),hsum,hvalid,hagain]
 generalize (words (pkt.setChksum 0).hdr).sum = rest at hc ⊢
 have := fold_cases rest
 have := fold_cases (rest+c)
 have := fold_cases (rest+pkt.chksumField)
 omega

theorem ipv4_csum_update_exact_cleared :
 sum (words (ipv4CsumUpdate ⟨fun i => if i = 14 then 0x45 else 0,14⟩).2.hdr) = 0xFFFF ∧
 ipv4CsumValid (ipv4CsumUpdate ⟨fun i => if i = 14 then 0x45 else 0,14⟩).2 = 1 :=
 (ipv4_csum_update_exact ⟨fun i => if i = 14 then 0x45 else 0,14⟩ (by decide)).2 (by decide)

/-- A header with a checksum of 1 is not accepted after the update, and a second update after one
from a cleared checksum clears it again. -/
theorem ipv4_csum_update_fails :
 ipv4CsumValid (ipv4CsumUpdate ⟨fun i => if i = 24 then 1 else 0,14⟩).2 = 0 ∧
 (ipv4CsumUpdate (ipv4CsumUpdate ⟨fun i => if i = 14 then 0x45 else 0,14⟩).2).2.chksumField = 0 ∧
 (ipv4CsumUpdate ⟨fun i => if i = 14 then 0x45 else 0,14⟩).2.chksumField = 0xFFBA := by
 decide

end Packages.Helper

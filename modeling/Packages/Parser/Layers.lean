import Packages.Lib.Chain
import Packages.Parser.Model

/-!
# The headers of a frame

Where the headers of a frame are, told from its bytes alone, and what each layer of the parser makes
of them. The headers behind an IPv6 header are a chain: hop-by-hop and routing headers lead on to
the next one.
-/

namespace Packages.Parser

open Relation

variable {mem : Memory} {h : PacketHdr} {frameLen l3 ethtype n p : Nat}

lemma advance_same (hp : p+n < 2^32) : Cursor.advance ⟨p,p⟩ n = ⟨p+n,p+n⟩ := by
 rw [Cursor.advance]
 exact congrArg (Cursor.mk (p+n)) (add32_of_lt hp)

-- Layer 2

lemma be16_lt (mem : Memory) (p : Nat) : be16 mem p < 2^16 := by
 have := (mem p).toNat_lt
 have := (mem (p+1)).toNat_lt
 simp only [be16,byteAt]
 omega

/-- Behind a tag of the type `tag`, if there is one. -/
def behindTag (mem : Memory) (tag p : Nat) : Nat := if be16 mem p = tag then p+sizeofVlanhdr else p

/-- The type field behind the tags. -/
def typeAt (mem : Memory) : Nat := behindTag mem ethtypeVlan (behindTag mem ethtypeVlanOuter 12)

/-- Where layer 3 begins: SNAP has eight bytes more. -/
def l3At (mem : Memory) : Nat := typeAt mem+if be16 mem (typeAt mem) < ethLenMax then 10 else 2

/-- The last ethertype. -/
def l3Type (mem : Memory) : Nat := be16 mem (l3At mem-2)

/-- A length of a SNAP frame that is refused. -/
def SnapLong (mem : Memory) (frameLen : Nat) : Prop :=
 be16 mem (typeAt mem) < ethLenMax ∧ sub32 frameLen (typeAt mem+2) < be16 mem (typeAt mem)

lemma le_behindTag (mem : Memory) (tag p : Nat) :
 p ≤ behindTag mem tag p ∧ behindTag mem tag p ≤ p+4 := by
 rw [behindTag,sizeofVlanhdr]
 split <;> omega

lemma typeAt_le (mem : Memory) : 12 ≤ typeAt mem ∧ typeAt mem ≤ 20 := by
 have houter := le_behindTag mem ethtypeVlanOuter 12
 have hinner := le_behindTag mem ethtypeVlan (behindTag mem ethtypeVlanOuter 12)
 rw [typeAt]
 omega

lemma l3At_le (mem : Memory) : 14 ≤ l3At mem ∧ l3At mem ≤ 30 := by
 have htype := typeAt_le mem
 rw [l3At]
 split <;> omega

lemma parseVlanOuter_spec (mem : Memory) (h : PacketHdr) (hp : p+6 < 2^32) :
 (parseVlanOuter mem h ⟨p,p+2⟩).2 =
 ⟨behindTag mem ethtypeVlanOuter p,behindTag mem ethtypeVlanOuter p+2⟩ ∧
  (parseVlanOuter mem h ⟨p,p+2⟩).1.frameLen = h.frameLen ∧
  (parseVlanOuter mem h ⟨p,p+2⟩).1.errorFlags = h.errorFlags := by
 rw [parseVlanOuter,behindTag]
 split
 · simp [Cursor.advance,sizeofVlanhdr,add32_of_lt (show p+2+4 < 2^32 from hp),add_right_comm p]
 · exact ⟨rfl,rfl,rfl⟩

lemma parseVlan_spec (mem : Memory) (h : PacketHdr) (hp : p+6 < 2^32) :
 (parseVlan mem h ⟨p,p+2⟩).2 = ⟨behindTag mem ethtypeVlan p,behindTag mem ethtypeVlan p+2⟩ ∧
  (parseVlan mem h ⟨p,p+2⟩).1.frameLen = h.frameLen ∧
  (parseVlan mem h ⟨p,p+2⟩).1.errorFlags = h.errorFlags := by
 rw [parseVlan,behindTag]
 split
 · simp [Cursor.advance,sizeofVlanhdr,add32_of_lt (show p+2+4 < 2^32 from hp),add_right_comm p]
 · exact ⟨rfl,rfl,rfl⟩

lemma parseEth_spec (mem : Memory) (h : PacketHdr) : (parseEth mem h).2.1.frameLen = h.frameLen ∧
 (SnapLong mem h.frameLen → (parseEth mem h).1 = false ∧
  (parseEth mem h).2.1.errorFlags.any = true) ∧
 (¬ SnapLong mem h.frameLen → (parseEth mem h).1 = true ∧
  (parseEth mem h).2.1.errorFlags = h.errorFlags ∧
  (parseEth mem h).2.2 = ⟨l3At mem-2,l3At mem⟩) := by
 rw [parseEth]
 generalize hh1 : (if h.inputFlags.parsedL2 then h else parseL2 h) = h1
 have hl2 : h1.frameLen = h.frameLen ∧ h1.errorFlags = h.errorFlags := by
  rw [← hh1]
  split <;> exact ⟨rfl,rfl⟩
 obtain ⟨hc1,hframe1,herr1⟩ := parseVlanOuter_spec mem h1 (p := 12) (by decide)
 have hle := le_behindTag mem ethtypeVlanOuter 12
 obtain ⟨hc2,hframe2,herr2⟩ := parseVlan_spec mem (parseVlanOuter mem h1 ⟨12,12+2⟩).1
  (p := behindTag mem ethtypeVlanOuter 12) (by omega)
 have htype := typeAt_le mem
 simp only [sizeofEthhdr,hc1] at hc2 hframe2 herr2 ⊢
 rw [← typeAt] at hc2
 have hframe := hframe2.trans (hframe1.trans hl2.1)
 have herr := herr2.trans (herr1.trans hl2.2)
 generalize parseVlan mem _ _ = inner at hc2 hframe herr ⊢
 obtain ⟨h2,c⟩ := inner
 obtain rfl : c = ⟨typeAt mem,typeAt mem+2⟩ := hc2
 dsimp only at hframe herr ⊢
 rw [parseSnap,SnapLong,l3At,← hframe,← herr]
 dsimp only
 split_ifs with hsnap hlong
 · exact ⟨rfl,fun _ => ⟨rfl,by simp [ErrorFlags.any]⟩,fun h => absurd ⟨hsnap,hlong⟩ h⟩
 · refine ⟨rfl,fun h => absurd h.2 hlong,fun _ => ⟨rfl,rfl,?_⟩⟩
   rw [Cursor.advance,add32_of_lt (show typeAt mem+2+8 < 2^32 by omega)]
   rfl
 · exact ⟨rfl,fun h => absurd h.1 hsnap,fun _ => ⟨rfl,rfl,rfl⟩⟩

-- The headers behind an IPv6 header

/-- The header that a header of a type, at a position, leads on to. -/
def extNext (mem : Memory) (e : Nat × Nat) : Option (Nat × Nat) :=
 if skipped e.1 then some (byteAt mem e.2,e.2+(8+byteAt mem (e.2+1)*8)) else none

/-- A header of the type `n` is at `p` behind the IPv6 header at `l3`. -/
def ExtAt (mem : Memory) (l3 n p : Nat) : Prop :=
 ReflTransGen (Chain.Step (extNext mem)) (ipv6NextHdr mem l3,l3+sizeofIpv6hdr) (n,p)

lemma step_extNext {e : Nat × Nat} (hskip : skipped n = true) :
 Chain.Step (extNext mem) (n,p) e ↔ e = (byteAt mem p,p+(8+byteAt mem (p+1)*8)) := by
 rw [Chain.Step,extNext,if_pos hskip,Option.some_inj,eq_comm]

lemma not_step_extNext {e : Nat × Nat} (hskip : skipped n = false) :
 ¬ Chain.Step (extNext mem) (n,p) e := by
 rw [Chain.Step,extNext,if_neg (by simp [hskip])]
 nofun

lemma ExtAt.next (hat : ExtAt mem l3 n p) (hskip : skipped n = true) :
 ExtAt mem l3 (byteAt mem p) (p+(8+byteAt mem (p+1)*8)) :=
 hat.tail ((step_extNext hskip).mpr rfl)

/-- Headers lie behind each other. -/
lemma eq_or_add_le {a b : Nat × Nat} (h : ReflTransGen (Chain.Step (extNext mem)) a b) :
 a = b ∨ a.2+8 ≤ b.2 := by
 induction h with
 | refl => exact .inl rfl
 | tail _ hstep ih =>
  rw [Chain.Step,extNext] at hstep
  split_ifs at hstep
  cases hstep
  obtain rfl | ih := ih <;> exact .inr (by dsimp only; omega)

lemma ExtAt.eq_or_le (hat : ExtAt mem l3 n p) :
 (n = ipv6NextHdr mem l3 ∧ p = l3+sizeofIpv6hdr) ∨ l3+sizeofIpv6hdr+8 ≤ p := by
 obtain heq | hle := eq_or_add_le hat
 · cases heq
   exact .inl ⟨rfl,rfl⟩
 · exact .inr hle

/-- Every header is at the last one of the chain, or before it. -/
lemma ExtAt.eq_or_lt (hat : ExtAt mem l3 n p) (hlast : skipped n = false) {n' p' : Nat}
 (hat' : ExtAt mem l3 n' p') : (n' = n ∧ p' = p) ∨ p'+8 ≤ p := by
 have hunique : Relator.RightUnique (Chain.Step (extNext mem)) := fun a b c hb hc =>
  Option.some.inj (hb.symm.trans hc)
 obtain hto | hfrom := ReflTransGen.total_of_right_unique hunique hat' hat
 · obtain heq | hle := eq_or_add_le hto
   · cases heq
     exact .inl ⟨rfl,rfl⟩
   · exact .inr hle
 · obtain heq | ⟨e,hstep,-⟩ := hfrom.cases_head
   · cases heq
     exact .inl ⟨rfl,rfl⟩
   · exact absurd hstep (not_step_extNext hlast)

lemma ExtAt.unique (hat : ExtAt mem l3 n p) (hlast : skipped n = false) {n' p' : Nat}
 (hat' : ExtAt mem l3 n' p') (hlast' : skipped n' = false) : n' = n ∧ p' = p := by
 obtain h | hlt := hat.eq_or_lt hlast hat'
 · exact h
 · obtain ⟨rfl,rfl⟩ | hlt' := hat'.eq_or_lt hlast' hat
   · exact ⟨rfl,rfl⟩
   · omega

/-- The loop ends at the first header that is not skipped, or behind the frame. -/
lemma skipExt_spec (frameLen fuel : Nat) (hat : ExtAt mem l3 n p) (hskip : skipped n = true)
 (hsmall : p+2048 < 2^32) (hmax : frameLen+2048 < 2^32) (hfuel : frameLen-p < fuel) :
 ∃ n' p', skipExt mem frameLen fuel ⟨p,p⟩ = some (n',⟨p',p'⟩) ∧ ExtAt mem l3 n' p' ∧ p+8 ≤ p' ∧
  (skipped n' = true → frameLen ≤ p') := by
 induction fuel generalizing n p with
 | zero => exact absurd hfuel (Nat.not_lt_zero _)
 | succ fuel ih =>
  have hext : byteAt mem (p+1) < 2^8 := (mem _).toNat_lt
  rw [skipExt]
  simp only [advance_same (show p+(8+byteAt mem (p+1)*8) < 2^32 by omega)]
  split_ifs with hmore
  · simp only [Bool.and_eq_true,decide_eq_true_eq] at hmore
    obtain ⟨n',p',hrun,hat',hle,hend⟩ := ih (hat.next hskip) hmore.1 (by omega) (by omega)
    exact ⟨n',p',hrun,hat',by omega,hend⟩
  · refine ⟨_,_,rfl,hat.next hskip,by omega,fun hs => ?_⟩
    simpa [hs] using hmore

-- Layer 3

/-- The checks of `parse_ipv4`. -/
def Ipv4Ok (mem : Memory) (frameLen l3 : Nat) : Prop :=
 ipv4hdrIhlMin ≤ ipv4Ihl mem l3 ∧ ipv4Ver mem l3 = 4 ∧ ipv4TotLen mem l3 ≤ sub32 frameLen l3

/-- The first checks of `parse_ipv6`. -/
def Ipv6Ok (mem : Memory) (frameLen l3 : Nat) : Prop :=
 byteAt mem l3/2^4 = 6 ∧ ipv6PayloadLen mem l3 ≤ sub32 frameLen l3

/-- What layer 3 of a type makes of the bytes: nothing after an error, or the protocol and where it
begins. -/
inductive Layer3 (mem : Memory) (frameLen l3 : Nat) : Nat → Option (Nat × Nat) → Prop
 | ipv4 (hok : Ipv4Ok mem frameLen l3) :
  Layer3 mem frameLen l3 ethtypeIpv4 (some (byteAt mem (l3+9),l3+ipv4Ihl mem l3*4))
 | ipv4Err (hbad : ¬ Ipv4Ok mem frameLen l3) : Layer3 mem frameLen l3 ethtypeIpv4 none
 | ipv6 {n p : Nat} (hok : Ipv6Ok mem frameLen l3) (hat : ExtAt mem l3 n p)
  (hend : skipped n = true → frameLen ≤ p ∧ l3+sizeofIpv6hdr < p)
  (hin : p = l3+sizeofIpv6hdr ∨ p < l3+ipv6PayloadLen mem l3) :
   Layer3 mem frameLen l3 ethtypeIpv6 (some (n,p))
 | ipv6Err (hbad : ¬ Ipv6Ok mem frameLen l3) : Layer3 mem frameLen l3 ethtypeIpv6 none
 | ipv6Long {n p : Nat} (hok : Ipv6Ok mem frameLen l3) (hat : ExtAt mem l3 n p)
  (hend : skipped n = true → frameLen ≤ p) (hlt : l3+sizeofIpv6hdr < p)
  (hout : l3+ipv6PayloadLen mem l3 ≤ p) :
  Layer3 mem frameLen l3 ethtypeIpv6 none
 | other {ethtype : Nat} (hne4 : ethtype ≠ ethtypeIpv4) (hne6 : ethtype ≠ ethtypeIpv6) :
  Layer3 mem frameLen l3 ethtype (some (ipprotoInvalid,l3))

/-- Layer 4 begins behind the beginning of layer 3, not far from it. -/
lemma Layer3.bounds (hout : Layer3 mem frameLen l3 ethtype (some (n,p))) (hle : l3 ≤ 30) :
 l3 ≤ p ∧ p < 2^17 := by
 have hihl : ipv4Ihl mem l3 < 16 := Nat.mod_lt _ (by decide)
 have hlen : ipv6PayloadLen mem l3 < 2^16 := be16_lt mem _
 have hsize : sizeofIpv6hdr = 40 := rfl
 cases hout with
 | ipv4 | other => omega
 | ipv6 _ hat _ hin =>
  have := hat.eq_or_le
  omega

/-- The length field of an IP header. -/
def l3Length (mem : Memory) (l3 ethtype : Nat) : Nat :=
 if ethtype = ethtypeIpv4 then ipv4TotLen mem l3 else ipv6PayloadLen mem l3

/-- The fields that layer 3 leaves in the header of the packet. -/
structure L3Fields (mem : Memory) (h : PacketHdr) (l3 ethtype : Nat) (h3 : PacketHdr) : Prop where
 frameLen : h3.frameLen = h.frameLen
 l3Protocol : h3.l3Protocol = h.l3Protocol
 l3Offset : h3.l3Offset = h.l3Offset ∨ h3.l3Offset = packetOffsetInvalid
 ip : ethtype = ethtypeIpv4 ∨ ethtype = ethtypeIpv6 → h3.l3Offset = h.l3Offset ∧
  h3.l3Len = l3Length mem l3 ethtype

/-- A result of layer 3: the protocol is zero after an error. -/
structure L3Result (mem : Memory) (h : PacketHdr) (l3 ethtype : Nat) (out : Option (Nat × Nat))
 (r : Nat × PacketHdr × Cursor) : Prop where
 fields : L3Fields mem h l3 ethtype r.2.1
 failed : out = none → r.1 = 0 ∧ r.2.1.errorFlags.any = true
 done : ∀ n p, out = some (n,p) → r.1 = n ∧ r.2.2 = ⟨p,p⟩ ∧ r.2.1.errorFlags = h.errorFlags

lemma any_ipErr (h : PacketHdr) : (ipErr h).errorFlags.any = true := by
 simp [ipErr,ErrorFlags.any]

lemma parseIpv4_spec (mem : Memory) (h : PacketHdr) (hle : l3 ≤ 30) :
 ∃ out, Layer3 mem h.frameLen l3 ethtypeIpv4 out ∧
 L3Result mem h l3 ethtypeIpv4 out (parseIpv4 mem h ⟨l3,l3⟩) := by
 have hihl : ipv4Ihl mem l3 < 16 := Nat.mod_lt _ (by decide)
 have hfields : ∀ h3 : PacketHdr, h3.frameLen = h.frameLen → h3.l3Protocol = h.l3Protocol →
  h3.l3Offset = h.l3Offset → h3.l3Len = ipv4TotLen mem l3 → L3Fields mem h l3 ethtypeIpv4 h3 :=
  fun _ h1 h2 h3 h4 => ⟨h1,h2,.inl h3,fun _ => ⟨h3,h4.trans (if_pos rfl).symm⟩⟩
 rw [parseIpv4]
 dsimp only
 split
 · rename_i hbad
   refine ⟨none,.ipv4Err fun hok => ?_,hfields _ rfl rfl rfl rfl,fun _ => ⟨rfl,any_ipErr _⟩,nofun⟩
   obtain ⟨h1,h2,h3⟩ := hok
   omega
 · rename_i hbad
   refine ⟨_,.ipv4 ⟨by omega,by omega,by omega⟩,hfields _ rfl rfl rfl rfl,nofun,fun n p heq => ?_⟩
   cases heq
   exact ⟨rfl,advance_same (by omega),rfl⟩

lemma parseIpv6_spec (mem : Memory) (h : PacketHdr) (hle : l3 ≤ 30) (hmax : h.frameLen+2048 < 2^32)
 (hoff : h.l3Offset = l3) : ∃ out r, Layer3 mem h.frameLen l3 ethtypeIpv6 out ∧
  parseIpv6 mem h ⟨l3,l3⟩ = some r ∧ L3Result mem h l3 ethtypeIpv6 out r := by
 have hlen : ipv6PayloadLen mem l3 < 2^16 := be16_lt mem _
 have hfields : ∀ h3 : PacketHdr, h3.frameLen = h.frameLen → h3.l3Protocol = h.l3Protocol →
  h3.l3Offset = h.l3Offset → h3.l3Len = ipv6PayloadLen mem l3 → L3Fields mem h l3 ethtypeIpv6 h3 :=
  fun _ h1 h2 h3 h4 => ⟨h1,h2,.inl h3,fun _ => ⟨h3,h4.trans (if_neg (by decide)).symm⟩⟩
 have hsize : sizeofIpv6hdr = 40 := rfl
 rw [parseIpv6]
 simp only [advance_same (show l3+sizeofIpv6hdr < 2^32 by omega)]
 split_ifs with hbad hskip hfrag
 · refine ⟨none,_,.ipv6Err fun hok => ?_,rfl,hfields _ rfl rfl rfl rfl,fun _ =>
    ⟨rfl,any_ipErr _⟩,nofun⟩
   obtain ⟨h1,h2⟩ := hok
   omega
 · have hok : Ipv6Ok mem h.frameLen l3 := ⟨by omega,by omega⟩
   obtain ⟨n,p,hrun,hat,hp,hend⟩ := skipExt_spec h.frameLen (h.frameLen+1)
    (show ExtAt mem l3 _ _ from .refl) hskip (by omega) hmax (by omega)
   have hadd : add32 h.l3Offset (ipv6PayloadLen mem l3) = l3+ipv6PayloadLen mem l3 := by
    rw [hoff,add32_of_lt (by omega)]
   simp only [hrun,hadd]
   split_ifs with hout hfrag
   · exact ⟨none,_,.ipv6Long hok hat hend (by omega) hout,rfl,hfields _ rfl rfl rfl rfl,
     fun _ => ⟨rfl,any_ipErr _⟩,nofun⟩
   all_goals
    refine ⟨_,_,.ipv6 hok hat (fun h => ⟨hend h,by omega⟩) (.inr (by omega)),rfl,
     hfields _ rfl rfl rfl rfl,nofun,fun _ _ heq => ?_⟩
    cases heq
    exact ⟨rfl,rfl,rfl⟩
 all_goals
  refine ⟨_,_,.ipv6 ⟨by omega,by omega⟩ .refl (fun hs => absurd hs hskip) (.inl rfl),rfl,
   hfields _ rfl rfl rfl rfl,nofun,fun _ _ heq => ?_⟩
  cases heq
  exact ⟨rfl,rfl,rfl⟩

lemma parseL3_spec (mem : Memory) (h : PacketHdr) (ethtype : Nat) (hle : l3 ≤ 30)
 (hmax : h.frameLen+2048 < 2^32)
 (hoff : h.l3Offset = l3) : ∃ out r, Layer3 mem h.frameLen l3 ethtype out ∧
  parseL3 mem h ⟨l3,l3⟩ ethtype = some r ∧ L3Result mem h l3 ethtype out r := by
 rw [parseL3]
 split_ifs with h4 h6 harp
 · subst h4
   obtain ⟨out,hout,hr⟩ :=
    parseIpv4_spec mem { h with inputFlags := { h.inputFlags with ipv4 := true } } hle
   exact ⟨out,_,hout,rfl,{ hr with fields := { hr.fields with } }⟩
 · subst h6
   obtain ⟨out,r,hout,hparse,hr⟩ :=
    parseIpv6_spec mem { h with inputFlags := { h.inputFlags with ipv6 := true } } hle hmax hoff
   exact ⟨out,r,hout,hparse,{ hr with fields := { hr.fields with } }⟩
 · refine ⟨_,_,.other h4 h6,rfl,⟨rfl,rfl,.inl rfl,fun hip => absurd hip (not_or.mpr ⟨h4,h6⟩)⟩,
    nofun,fun _ _ heq => ?_⟩
   cases heq
   exact ⟨rfl,rfl,rfl⟩
 · refine ⟨_,_,.other h4 h6,rfl,⟨rfl,rfl,.inr rfl,fun hip => absurd hip (not_or.mpr ⟨h4,h6⟩)⟩,
    nofun,fun _ _ heq => ?_⟩
   cases heq
   exact ⟨rfl,rfl,rfl⟩

-- Layer 4

/-- The errors of `parse_tcp` and `parse_udp`. -/
def L4Err (mem : Memory) (h : PacketHdr) (n p : Nat) : Prop :=
 (n = ipprotoTcp ∧ tcpHl mem p < sizeofTcphdr/4) ∨
 (n = ipprotoUdp ∧ (udpLength mem p < sizeofUdphdr ∨ l3Rest h < udpLength mem p))

/-- The protocols with a position of layer 4. -/
def L4Known (n : Nat) : Prop :=
 n = ipprotoIcmp ∨ n = ipprotoTcp ∨ n = ipprotoUdp ∨ n = ipprotoAh ∨ n = ipprotoEsp

def payloadAt (mem : Memory) (n p : Nat) : Nat :=
 if n = ipprotoTcp then p+tcpHl mem p*4 else if n = ipprotoUdp then p+sizeofUdphdr else p

/-- What layer 4 leaves in the header of the packet, and behind itself. -/
structure L4Result (mem : Memory) (h : PacketHdr) (n p : Nat) (r : PacketHdr × Cursor) : Prop where
 frameLen : r.1.frameLen = h.frameLen
 l3Offset : r.1.l3Offset = h.l3Offset
 l3Len : r.1.l3Len = h.l3Len
 l3Protocol : r.1.l3Protocol = h.l3Protocol
 l4Protocol : r.1.l4Protocol = h.l4Protocol
 known : L4Known n → r.1.l4Offset = h.l4Offset
 unknown : ¬ L4Known n → r.1.l4Offset = packetOffsetInvalid
 tcp : n = ipprotoTcp → r.1.l4Len = l3Rest h
 udp : n = ipprotoUdp → r.1.l4Len = udpLength mem p
 offset : r.2.offset = payloadAt mem n p
 errors : r.1.errorFlags.any = true ↔ h.errorFlags.any = true ∨ L4Err mem h n p

lemma parseL4_spec (mem : Memory) (h : PacketHdr) (n : Nat) (hp : p+2048 < 2^32) :
 L4Result mem h n p (parseL4 mem h ⟨p,p⟩ n) := by
 have hhl : tcpHl mem p < 16 := by
  have := (mem (p+12)).toNat_lt
  simp only [tcpHl,byteAt]
  omega
 by_cases htcp : n = ipprotoTcp
 · subst htcp
   rw [parseL4,if_neg (by decide),if_pos rfl,parseTcp]
   have hadd : add32 p (tcpHl mem p*4) = p+tcpHl mem p*4 := add32_of_lt (by omega)
   dsimp only
   split_ifs with hshort hopt
   all_goals
    refine ⟨rfl,rfl,rfl,rfl,rfl,fun _ => rfl,fun h => absurd (.inr (.inl rfl)) h,fun _ => rfl,
     nofun,hadd,?_⟩
    simp [L4Err,ErrorFlags.any,hshort,show ipprotoTcp ≠ ipprotoUdp by decide]
 by_cases hudp : n = ipprotoUdp
 · subst hudp
   rw [parseL4,if_neg (by decide),if_neg (by decide),if_pos rfl,parseUdp]
   have hadd : add32 p sizeofUdphdr = p+sizeofUdphdr := add32_of_lt (by rw [sizeofUdphdr]; omega)
   dsimp only
   split_ifs with hbad
   all_goals
    refine ⟨rfl,rfl,rfl,rfl,rfl,fun _ => rfl,fun h => absurd (.inr (.inr (.inl rfl))) h,
     nofun,fun _ => rfl,hadd,?_⟩
    simp only [L4Err,show ipprotoUdp ≠ ipprotoTcp by decide,false_and,false_or,true_and]
   · exact iff_of_true (by simp [ErrorFlags.any]) (.inr hbad)
   · exact ⟨.inl,fun h => h.resolve_right hbad⟩
 have hpayload : payloadAt mem n p = p := by rw [payloadAt,if_neg htcp,if_neg hudp]
 have herr : ¬ L4Err mem h n p := fun h => h.elim (fun h => htcp h.1) fun h => hudp h.1
 have hdone : ∀ r : PacketHdr, r.frameLen = h.frameLen → r.l3Offset = h.l3Offset →
  r.l3Len = h.l3Len →
  r.l3Protocol = h.l3Protocol → r.l4Protocol = h.l4Protocol →
   (L4Known n → r.l4Offset = h.l4Offset) →
  (¬ L4Known n → r.l4Offset = packetOffsetInvalid) → r.errorFlags = h.errorFlags →
  L4Result mem h n p (r,⟨p,p⟩) := fun r h1 h2 h3 h4 h5 h6 h7 h8 =>
  ⟨h1,h2,h3,h4,h5,h6,h7,fun h => absurd h htcp,fun h => absurd h hudp,
   hpayload.symm,by simp [h8,herr]⟩
 rw [parseL4,if_neg htcp,if_neg hudp]
 split_ifs with hicmp hsec
 · exact hdone _ rfl rfl rfl rfl rfl (fun _ => rfl) (fun h => absurd (.inl hicmp) h) rfl
 · exact hdone _ rfl rfl rfl rfl rfl (fun _ => rfl)
    (fun h => absurd (.inr (.inr (.inr hsec))) h) rfl
 · exact hdone _ rfl rfl rfl rfl rfl
    (fun h => absurd h (by simp [L4Known,htcp,hudp,hicmp,not_or.mp hsec])) (fun _ => rfl) rfl

-- The whole frame

lemma parseExit_eq_zero : (parseExit h).1 = 0 ↔ h.errorFlags.any = false := by
 rw [parseExit]
 cases h.errorFlags.any <;> simp

/-- What the parser makes of a frame: it fails in layer 2 or 3, or has the results of layers 3 and
4. -/
inductive Parsed (mem : Memory) (h : PacketHdr) : Int × PacketHdr → Prop
 | snapLong {r : Int × PacketHdr} (hlong : SnapLong mem h.frameLen) (hret : r.1 = 1) :
  Parsed mem h r
 | l3Err {r : Int × PacketHdr} (hout : Layer3 mem h.frameLen (l3At mem) (l3Type mem) none)
  (hret : r.1 = 1) : Parsed mem h r
 | layers {n p : Nat} {h2 h3 : PacketHdr} {r : PacketHdr × Cursor}
  (hframe : h2.frameLen = h.frameLen)
  (hprot : h2.l3Protocol = l3Type mem) (hoff : h2.l3Offset = l3At mem)
  (hout : Layer3 mem h.frameLen (l3At mem) (l3Type mem) (some (n,p)))
  (hfields : L3Fields mem h2 (l3At mem) (l3Type mem) h3) (herr : h3.errorFlags = h.errorFlags)
  (hr : L4Result mem (atL4 h3 ⟨p,p⟩ n) n p r) :
   Parsed mem h (parseExit { r.1 with payloadOffset := r.2.offset })

lemma parseCommon_spec (mem : Memory) (h : PacketHdr) (hmax : h.frameLen+2048 < 2^32) :
 ∃ r, parseCommon mem h = some r ∧ Parsed mem h r := by
 obtain ⟨hframe,hlong,hok⟩ := parseEth_spec mem h
 have hl3 := l3At_le mem
 rw [parseCommon]
 generalize parseEth mem h = eth at hframe hlong hok ⊢
 obtain ⟨ok,h2,c⟩ := eth
 by_cases hsnap : SnapLong mem h.frameLen
 · obtain ⟨rfl,herr⟩ := hlong hsnap
   exact ⟨_,rfl,.snapLong hsnap (if_pos herr)⟩
 · obtain ⟨rfl,herr,rfl⟩ := hok hsnap
   have hptr : l3At mem-2+2 = l3At mem := by omega
   obtain ⟨out,⟨n,h3,c⟩,hout,hparse,hfields,hfailed,hdone⟩ :=
    parseL3_spec mem (atL3 mem h2 ⟨l3At mem-2,l3At mem⟩)
    (l3Type mem) hl3.2 (show h2.frameLen+2048 < 2^32 from hframe ▸ hmax) rfl
   rw [l3Type] at hparse
   simp only [hptr,hparse]
   replace hout : Layer3 mem h.frameLen (l3At mem) (l3Type mem) out := hframe ▸ hout
   cases out with
   | none =>
    obtain ⟨rfl,hany⟩ := hfailed rfl
    exact ⟨_,rfl,.l3Err hout (if_pos hany)⟩
   | some e =>
    obtain ⟨m,p⟩ := e
    obtain ⟨rfl,rfl,herr3⟩ := hdone m p rfl
    have hp := hout.bounds hl3.2
    exact ⟨_,rfl,.layers (show (atL3 mem h2 ⟨l3At mem-2,l3At mem⟩).frameLen = h.frameLen
     from hframe) rfl rfl hout hfields (herr3.trans herr) (parseL4_spec mem _ n (by omega))⟩

lemma exists_parseCommon (mem : Memory) (h : PacketHdr) (hmax : h.frameLen+2048 < 2^32) :
 ∃ r, parseCommon mem h = some r :=
 (parseCommon_spec mem h hmax).imp fun _ h => h.1

end Packages.Parser

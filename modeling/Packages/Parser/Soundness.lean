import Packages.Parser.Layers

/-!
# The recorded offsets lie inside the frame

The parser checks the length fields of the headers against the frame only in part. `HeadersFit` is
what it leaves unchecked: an accepted frame is recorded inside itself exactly if the headers fit.
-/

namespace Packages.Parser

variable {mem : Memory} {h : PacketHdr} {frameLen l3 ethtype n p : Nat}

/-- The recorded metadata lies inside the frame. -/
structure MetadataInside (h : PacketHdr) : Prop where
 l3 : h.l3Offset ≠ packetOffsetInvalid → sizeofEthhdr ≤ h.l3Offset ∧ h.l3Offset ≤ h.frameLen ∧
  (h.l3Protocol = ethtypeIpv4 → h.l3Offset+h.l3Len ≤ h.frameLen) ∧
  (h.l3Protocol = ethtypeIpv6 → h.l3Offset+sizeofIpv6hdr+h.l3Len ≤ h.frameLen)
 l4 : h.l4Offset ≠ packetOffsetInvalid → h.l3Offset ≤ h.l4Offset ∧ h.l4Offset ≤ h.frameLen ∧
  (h.l4Protocol = ipprotoTcp ∨ h.l4Protocol = ipprotoUdp → h.l4Offset+h.l4Len ≤ h.frameLen)
 payload : h.payloadOffset ≤ h.frameLen

/-- Layer 4 of the protocol `n` at `p`: a TCP header and a datagram end inside the frame, and a TCP
header begins before `last`, where the parser takes layer 3 to end. -/
structure TransportFits (mem : Memory) (frameLen last n p : Nat) : Prop where
 inside : p ≤ frameLen
 tcp : n = ipprotoTcp → p ≤ last ∧ p+tcpHl mem p*4 ≤ frameLen
 udp : n = ipprotoUdp → p+udpLength mem p ≤ frameLen

/-- What the parser does not check. It takes the payload length of IPv6 for the total length. -/
structure HeadersFit (mem : Memory) (frameLen : Nat) : Prop where
 l2 : l3At mem ≤ frameLen
 ipv4 : l3Type mem = ethtypeIpv4 → TransportFits mem frameLen (l3At mem+ipv4TotLen mem (l3At mem))
  (byteAt mem (l3At mem+9)) (l3At mem+ipv4Ihl mem (l3At mem)*4)
 ipv6 : l3Type mem = ethtypeIpv6 → l3At mem+sizeofIpv6hdr+ipv6PayloadLen mem (l3At mem) ≤ frameLen ∧
  ∀ n p, ExtAt mem (l3At mem) n p → skipped n = false →
   TransportFits mem frameLen (l3At mem+ipv6PayloadLen mem (l3At mem)) n p

lemma L4Result.noError {r : PacketHdr × Cursor} (hr : L4Result mem h n p r)
 (herr : r.1.errorFlags.any = false) : ¬ L4Err mem h n p := fun hbad => by
 rw [hr.errors.mpr (.inr hbad)] at herr
 cases herr

/-- Layer 4 of an accepted packet, with the offset of layer 3 inside the frame. -/
lemma L4Result.inside_iff {r : PacketHdr × Cursor} (hr : L4Result mem h n p r)
 (herr : r.1.errorFlags.any = false)
 (hoff : h.l4Offset = p) (hprot : h.l4Protocol = n) (hp : h.l3Offset ≤ p ∧ p < 2^17)
 (hmax : h.frameLen+2048 < 2^32) (hend : h.l3Offset+h.l3Len ≤ h.frameLen) :
 ((r.1.l4Offset ≠ packetOffsetInvalid → r.1.l3Offset ≤ r.1.l4Offset ∧ r.1.l4Offset ≤ r.1.frameLen ∧
   (r.1.l4Protocol = ipprotoTcp ∨ r.1.l4Protocol = ipprotoUdp →
    r.1.l4Offset+r.1.l4Len ≤ r.1.frameLen)) ∧
  r.2.offset ≤ r.1.frameLen) ↔ TransportFits mem h.frameLen (h.l3Offset+h.l3Len) n p := by
 have hno := hr.noError herr
 have hvalid : p ≠ packetOffsetInvalid := by
  rw [packetOffsetInvalid]
  omega
 have hrest : h.l3Offset+h.l3Len < p ∧ h.frameLen < p+l3Rest h ∨ p+l3Rest h =
  h.l3Offset+h.l3Len := by
  rw [l3Rest,hoff,sub32,add32]
  omega
 have hsize : sizeofUdphdr = 8 := rfl
 rw [hr.l3Offset,hr.l4Protocol,hr.frameLen,hr.offset,hprot,payloadAt]
 by_cases htcp : n = ipprotoTcp
 · have hne : n ≠ ipprotoUdp := by rw [htcp]; decide
   rw [hr.known (.inr (.inl htcp)),hr.tcp htcp,if_pos htcp,hoff,forall_prop_of_true hvalid]
   constructor
   · rintro ⟨⟨-,hle,hlen⟩,hpay⟩
     have := hlen (.inl htcp)
     exact ⟨hle,fun _ => ⟨by omega,hpay⟩,fun h => absurd h hne⟩
   · intro hfit
     have := hfit.tcp htcp
     exact ⟨⟨hp.1,hfit.inside,fun _ => by omega⟩,this.2⟩
 by_cases hudp : n = ipprotoUdp
 · have hge : sizeofUdphdr ≤ udpLength mem p := by
    by_contra hlt
    exact hno (.inr ⟨hudp,.inl (by omega)⟩)
   rw [hr.known (.inr (.inr (.inl hudp))),hr.udp hudp,if_neg htcp,if_pos hudp,hoff,
    forall_prop_of_true hvalid]
   constructor
   · rintro ⟨⟨-,hle,hlen⟩,-⟩
     exact ⟨hle,fun h => absurd h htcp,fun _ => hlen (.inr hudp)⟩
   · intro hfit
     have := hfit.udp hudp
     exact ⟨⟨hp.1,hfit.inside,fun _ => this⟩,by omega⟩
 · rw [if_neg htcp,if_neg hudp]
   constructor
   · exact fun h => ⟨h.2,fun h => absurd h htcp,fun h => absurd h hudp⟩
   · refine fun hfit => ⟨fun hset => ?_,hfit.inside⟩
     have hknown : L4Known n := by
      by_contra hunknown
      exact hset (hr.unknown hunknown)
     rw [hr.known hknown,hoff]
     exact ⟨hp.1,hfit.inside,fun h => absurd h (not_or.mpr ⟨htcp,hudp⟩)⟩

/-- An accepted IP packet. -/
lemma inside_ip {h3 : PacketHdr} {r : PacketHdr × Cursor}
 (hr : L4Result mem (atL4 h3 ⟨p,p⟩ n) n p r) (herr : r.1.errorFlags.any = false)
 (hprot : h3.l3Protocol = ethtype)
 (hoff : h3.l3Offset = l3) (hlen : h3.l3Len = l3Length mem l3 ethtype)
 (hmax : h3.frameLen+2048 < 2^32)
 (hl3 : 14 ≤ l3 ∧ l3 ≤ 30) (hcheck : l3Length mem l3 ethtype ≤ sub32 h3.frameLen l3)
 (hp : l3 ≤ p ∧ p < 2^17) :
 MetadataInside { r.1 with payloadOffset := r.2.offset } ↔ l3 ≤ h3.frameLen ∧
  (ethtype = ethtypeIpv6 → l3+sizeofIpv6hdr+l3Length mem l3 ethtype ≤ h3.frameLen) ∧
  TransportFits mem h3.frameLen (l3+l3Length mem l3 ethtype) n p := by
 have hvalid : l3 ≠ packetOffsetInvalid := by
  rw [packetOffsetInvalid]
  omega
 have hend : l3 ≤ h3.frameLen → l3+l3Length mem l3 ethtype ≤ h3.frameLen := by
  intro hle
  rw [sub32_of_le hle (by omega)] at hcheck
  omega
 have hl4 := fun hle => hr.inside_iff herr rfl rfl (show h3.l3Offset ≤ p ∧ _ from hoff ▸ hp) hmax
  (show h3.l3Offset+h3.l3Len ≤ h3.frameLen by rw [hoff,hlen]; exact hend hle)
 have hfields : r.1.l3Offset = l3 ∧ r.1.l3Len = l3Length mem l3 ethtype ∧ r.1.l3Protocol = ethtype ∧
  r.1.frameLen = h3.frameLen :=
  ⟨hr.l3Offset.trans hoff,hr.l3Len.trans hlen,hr.l3Protocol.trans hprot,hr.frameLen⟩
 obtain ⟨hoff',hlen',hprot',hframe'⟩ := hfields
 simp only [atL4,hoff,hlen] at hl4
 constructor
 · intro hinside
   obtain ⟨-,hle,-,h6⟩ := hinside.l3 (by dsimp only; rw [hoff']; exact hvalid)
   dsimp only at hle h6
   rw [hoff',hframe'] at hle
   rw [hoff',hframe',hprot',hlen'] at h6
   exact ⟨hle,h6,(hl4 hle).mp ⟨hinside.l4,hinside.payload⟩⟩
 · rintro ⟨hle,h6,hfit⟩
   obtain ⟨hl4',hpay⟩ := (hl4 hle).mpr hfit
   refine ⟨fun _ => ?_,hl4',hpay⟩
   dsimp only
   rw [hoff',hframe',hprot',hlen']
   exact ⟨hl3.1,hle,fun _ => hend hle,h6⟩

/-- An accepted packet without IP. -/
lemma inside_other {h3 : PacketHdr} {r : PacketHdr × Cursor} (hne4 : ethtype ≠ ethtypeIpv4)
 (hne6 : ethtype ≠ ethtypeIpv6)
 (hr : L4Result mem (atL4 h3 ⟨l3,l3⟩ ipprotoInvalid) ipprotoInvalid l3 r)
 (hprot : h3.l3Protocol = ethtype)
 (hoff : h3.l3Offset = l3 ∨ h3.l3Offset = packetOffsetInvalid) (hl3 : 14 ≤ l3) :
 MetadataInside { r.1 with payloadOffset := r.2.offset } ↔ l3 ≤ h3.frameLen := by
 have hpay : r.2.offset = l3 := hr.offset
 have hframe : r.1.frameLen = h3.frameLen := hr.frameLen
 refine ⟨fun hinside => hpay ▸ hframe ▸ hinside.payload,fun hle =>
  ⟨fun hset => ?_,fun hset => ?_,?_⟩⟩
 · dsimp only at hset ⊢
   rw [hr.l3Offset] at hset ⊢
   rw [hr.l3Protocol,show (atL4 h3 _ _).l3Protocol = ethtype from hprot,hframe]
   have heq : (atL4 h3 ⟨l3,l3⟩ ipprotoInvalid).l3Offset = l3 := hoff.resolve_right hset
   exact ⟨heq ▸ hl3,heq ▸ hle,fun h => absurd h hne4,fun h => absurd h hne6⟩
 · exact absurd (hr.unknown
    (by simp [L4Known,ipprotoInvalid,ipprotoIcmp,ipprotoTcp,ipprotoUdp,ipprotoAh,ipprotoEsp])) hset
 · dsimp only
   rw [hpay,hframe]
   exact hle

/-- The parser returns for every frame, and what it recorded of an accepted frame lies inside the
frame exactly if the headers fit. -/
theorem parsed_metadata_inside (mem : Memory) (h : PacketHdr) (hmax : h.frameLen+2048 < 2^32) :
 ∃ ret h', parseCommon mem h.parseReset = some (ret,h') ∧
  (ret = 0 → (MetadataInside h' ↔ HeadersFit mem h.frameLen)) := by
 have hl3 := l3At_le mem
 obtain ⟨r,hparse,hparsed⟩ := parseCommon_spec mem h.parseReset hmax
 refine ⟨r.1,r.2,hparse,fun hret => ?_⟩
 cases hparsed with
 | snapLong _ hone | l3Err _ hone => cases hone.symm.trans hret
 | @layers n p h2 h3 r hframe hprot hoff hout hfields herr hr =>
  obtain ⟨hframe3,hprot3,hoff3,hip3⟩ := hfields
  have hF : h3.frameLen = h.frameLen := hframe3.trans hframe
  have hP : h3.l3Protocol = l3Type mem := hprot3.trans hprot
  have hp := hout.bounds hl3.2
  have hexit : MetadataInside (parseExit { r.1 with payloadOffset := r.2.offset }).2 ↔
   MetadataInside { r.1 with payloadOffset := r.2.offset } :=
   ⟨fun h => ⟨h.l3,h.l4,h.payload⟩,fun h => ⟨h.l3,h.l4,h.payload⟩⟩
  have herr4 : r.1.errorFlags.any = false := parseExit_eq_zero.mp hret
  rw [show h.parseReset.frameLen = h3.frameLen from hF.symm] at hout
  rw [hexit,← hF]
  rw [← hF] at hmax
  rw [hoff] at hip3 hoff3
  generalize htype : l3Type mem = ethtype at hout hip3 hP
  cases hout with
  | ipv4 hok =>
   obtain ⟨hoff4,hlen4⟩ := hip3 (.inl rfl)
   rw [inside_ip hr herr4 hP hoff4 hlen4 hmax hl3 hok.2.2 hp]
   exact ⟨fun h => ⟨h.1,fun _ => h.2.2,fun h6 => absurd (htype.symm.trans h6) (by decide)⟩,
    fun h => ⟨h.l2,nofun,h.ipv4 htype⟩⟩
  | ipv6 hok hat hend hin =>
   obtain ⟨hoff4,hlen4⟩ := hip3 (.inr rfl)
   rw [inside_ip hr herr4 hP hoff4 hlen4 hmax hl3 hok.2 hp]
   -- inside the frame the loop ends at the last header of the chain
   have hlast : l3At mem+sizeofIpv6hdr+ipv6PayloadLen mem (l3At mem) ≤ h3.frameLen →
    skipped n = false := by
    intro hle
    by_contra hskip
    have := hend (by simpa using hskip)
    omega
   constructor
   · rintro ⟨hle,h6,hfit⟩
     refine ⟨hle,fun h4 => absurd (htype.symm.trans h4) (by decide),fun _ =>
      ⟨h6 rfl,fun n' p' hat' hlast' => ?_⟩⟩
     obtain ⟨rfl,rfl⟩ := hat.unique (hlast (h6 rfl)) hat' hlast'
     exact hfit
   · intro hfit
     obtain ⟨h6,hall⟩ := hfit.ipv6 htype
     exact ⟨hfit.l2,fun _ => h6,hall n p hat (hlast h6)⟩
  | other hne4 hne6 =>
   rw [inside_other hne4 hne6 hr hP hoff3 hl3.1]
   exact ⟨fun h => ⟨h,fun h4 => absurd (htype.symm.trans h4) hne4,fun h6 =>
    absurd (htype.symm.trans h6) hne6⟩,fun h => h.l2⟩

/-- Memory that begins with the given bytes. -/
def memOf (bytes : List UInt8) : Memory := fun i => bytes.getD i 0

/-- The header of a packet before its first parse. -/
def newHdr (frameLen : Nat) : PacketHdr := ⟨{},{},0,0,0,0,0,0,0,0,0,0,frameLen⟩

def ethAddrs : List UInt8 := List.replicate 12 0

/-- A tagged frame with a UDP datagram of twelve bytes. -/
def udpFrame : List UInt8 :=
 ethAddrs++[0x81,0,0,5,0x08,0] ++
  [0x45,0,0,32,0,0,0,0,64,17,0,0,10,0,0,1,10,0,0,2]++[0,7,0,9,0,12,0,0]++[1,2,3,4]

theorem parsed_metadata_inside_udp : ∃ ret h',
 parseCommon (memOf udpFrame) (newHdr 50).parseReset = some (ret,h') ∧
  MetadataInside h' ∧ ret = 0 ∧ h'.l3Offset = 18 ∧ h'.l4Offset = 38 ∧ h'.l4Len = 12 ∧
  h'.payloadOffset = 46 := by
 have hfit : HeadersFit (memOf udpFrame) 50 :=
  ⟨by decide,fun _ => ⟨by decide,by decide,by decide⟩,fun h6 => absurd h6 (by decide)⟩
 obtain ⟨ret,h',hparse,hinside⟩ := parsed_metadata_inside (memOf udpFrame) (newHdr 50) (by decide)
 have hvalues : (parseCommon (memOf udpFrame) (newHdr 50).parseReset).map
  (fun r => (r.1,r.2.l3Offset,r.2.l4Offset,r.2.l4Len,r.2.payloadOffset)) =
  some (0,18,38,12,46) := by decide
 rw [hparse] at hvalues
 simp only [Option.map_some,Option.some.injEq,Prod.mk.injEq] at hvalues
 exact ⟨ret,h',hparse,(hinside hvalues.1).mpr hfit,hvalues⟩

/-- A frame of 34 bytes whose IPv4 header claims fifteen words and a total length of twenty
bytes. -/
def longHeaderFrame : List UInt8 :=
 ethAddrs++[0x08,0]++[0x4f,0,0,20,0,0,0,0,64,1,0,0,10,0,0,1,10,0,0,2]

/-- It is accepted with layer 4 and payload forty bytes behind its end. -/
theorem parsed_metadata_outside : longHeaderFrame.length = 34 ∧ ∃ h',
 parseCommon (memOf longHeaderFrame) (newHdr 34).parseReset = some (0,h') ∧
  h'.l4Offset = 74 ∧ h'.payloadOffset = 74 ∧ ¬ MetadataInside h' := by
 have hvalues : (parseCommon (memOf longHeaderFrame) (newHdr 34).parseReset).map
  (fun r => (r.1,r.2.l4Offset,r.2.payloadOffset,r.2.frameLen)) = some (0,74,74,34) := by decide
 obtain ⟨⟨ret,h'⟩,hparse,hfields⟩ := Option.map_eq_some_iff.mp hvalues
 simp only [Prod.mk.injEq] at hfields
 obtain ⟨rfl,hl4,hpayload,hframe⟩ := hfields
 refine ⟨by decide,h',hparse,hl4,hpayload,fun hinside => ?_⟩
 have := hinside.payload
 omega

end Packages.Parser

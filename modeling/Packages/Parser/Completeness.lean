import Packages.Parser.Soundness

/-!
# Well-formed frames

A well-formed frame is an Ethernet header with optional VLAN tags, an IPv4 header with options or an
IPv6 header with hop-by-hop and routing headers, and a TCP or UDP header with its payload. With IPv4
the parser finds every part of it; the length of an IPv6 header does not count its own forty bytes,
which `parse_tcp` and `parse_udp` overlook, so that only short datagrams directly behind the IPv6
header are found.
-/

namespace Packages.Parser

variable {mem : Memory} {h : PacketHdr} {frameLen ethtype ipProto l3 l4 payload n p : Nat}

/-- The Ethernet header and the optional tags before `l3`. -/
inductive EthHeader (mem : Memory) (ethtype : Nat) : Nat → Prop
 | untagged : be16 mem 12 = ethtype → EthHeader mem ethtype 14
 | outer : be16 mem 12 = ethtypeVlanOuter → be16 mem 16 = ethtype → EthHeader mem ethtype 18
 | inner : be16 mem 12 = ethtypeVlan → be16 mem 16 = ethtype → EthHeader mem ethtype 18
 | both : be16 mem 12 = ethtypeVlanOuter → be16 mem 16 = ethtypeVlan → be16 mem 20 = ethtype →
  EthHeader mem ethtype 22

/-- The IP header at `l3`, whose length field is true. -/
inductive IpHeader (mem : Memory) (frameLen l3 l4 : Nat) : Nat → Nat → Prop
 | ipv4 : ipv4Ver mem l3 = 4 → ipv4hdrIhlMin ≤ ipv4Ihl mem l3 → l4 = l3+ipv4Ihl mem l3*4 →
  l3+ipv4TotLen mem l3 = frameLen → IpHeader mem frameLen l3 l4 ethtypeIpv4 (byteAt mem (l3+9))
 | ipv6 {ipProto : Nat} : byteAt mem l3/2^4 = 6 → ExtAt mem l3 ipProto l4 →
  skipped ipProto = false →
  l3+sizeofIpv6hdr+ipv6PayloadLen mem l3 = frameLen →
   IpHeader mem frameLen l3 l4 ethtypeIpv6 ipProto

/-- The transport header at `l4`, with its payload. -/
inductive Transport (mem : Memory) (frameLen l4 : Nat) : Nat → Nat → Prop
 | tcp : sizeofTcphdr/4 ≤ tcpHl mem l4 → Transport mem frameLen l4 ipprotoTcp (l4+tcpHl mem l4*4)
 | udp : l4+udpLength mem l4 = frameLen → Transport mem frameLen l4 ipprotoUdp (l4+sizeofUdphdr)

structure WellFormed (mem : Memory) (frameLen ethtype ipProto l3 l4 payload : Nat) : Prop where
 eth : EthHeader mem ethtype l3
 ip : IpHeader mem frameLen l3 l4 ethtype ipProto
 transport : Transport mem frameLen l4 ipProto payload
 inside : payload ≤ frameLen

lemma EthHeader.positions (heth : EthHeader mem ethtype l3) (frameLen : Nat)
 (hip : ethtype = ethtypeIpv4 ∨ ethtype = ethtypeIpv6) :
 l3At mem = l3 ∧ l3Type mem = ethtype ∧ ¬ SnapLong mem frameLen ∧ l3 ≤ 22 := by
 have hne : ethtype ≠ ethtypeVlanOuter ∧ ethtype ≠ ethtypeVlan ∧ ¬ ethtype < ethLenMax := by
  obtain rfl | rfl := hip <;> decide
 have htags : ethtypeVlan ≠ ethtypeVlanOuter := by decide
 cases heth with
 | untagged h1 => simp [l3Type,l3At,SnapLong,typeAt,behindTag,h1,hne]
 | outer h1 h2 => simp [l3Type,l3At,SnapLong,typeAt,behindTag,sizeofVlanhdr,h1,h2,hne]
 | inner h1 h2 => simp [l3Type,l3At,SnapLong,typeAt,behindTag,sizeofVlanhdr,h1,h2,hne,htags]
 | both h1 h2 h3 => simp [l3Type,l3At,SnapLong,typeAt,behindTag,sizeofVlanhdr,h1,h2,h3,hne]

lemma IpHeader.ethtype_eq (hip : IpHeader mem frameLen l3 l4 ethtype ipProto) :
 ethtype = ethtypeIpv4 ∨ ethtype = ethtypeIpv6 := by
 cases hip with
 | ipv4 => exact .inl rfl
 | ipv6 => exact .inr rfl

lemma IpHeader.frameLen_lt (hip : IpHeader mem frameLen l3 l4 ethtype ipProto) (hle : l3 ≤ 22) :
 frameLen < 2^17 := by
 have hsize : sizeofIpv6hdr = 40 := rfl
 cases hip with
 | ipv4 _ _ _ hend =>
  have : ipv4TotLen mem l3 < 2^16 := be16_lt mem _
  omega
 | ipv6 _ _ _ hend =>
  have : ipv6PayloadLen mem l3 < 2^16 := be16_lt mem _
  omega

/-- Layer 3 finds the transport header of a well-formed frame. -/
lemma IpHeader.layer3 (hip : IpHeader mem frameLen l3 l4 ethtype ipProto) (hle : l4 ≤ frameLen)
 (hout : Layer3 mem frameLen l3 ethtype (some (n,p))) : n = ipProto ∧ p = l4 := by
 cases hip with
 | ipv4 _ _ hl4 =>
  cases hout with
  | ipv4 => exact ⟨rfl,hl4.symm⟩
  | other hne4 => exact absurd rfl hne4
 | ipv6 _ hat hlast =>
  cases hout with
  | ipv6 _ hat' hend =>
   obtain h | hlt := hat.eq_or_lt hlast hat'
   · exact h
   · refine hat.unique hlast hat' ?_
     by_contra hskip
     have := hend (by simpa using hskip)
     omega
  | other _ hne6 => exact absurd rfl hne6

/-- Behind an IPv6 header it only finds one that forty bytes of payload are left for. -/
lemma IpHeader.behind_ipv6 (hip : IpHeader mem frameLen l3 p ethtype ipProto)
 (hout : Layer3 mem frameLen l3 ethtype (some (n,p))) (hne : ethtype ≠ ethtypeIpv4) :
 l3+sizeofIpv6hdr ≤ p ∧ (p = l3+sizeofIpv6hdr ∨ p+sizeofIpv6hdr < frameLen) := by
 cases hip with
 | ipv4 => exact absurd rfl hne
 | ipv6 _ hat _ hend =>
  have := hat.eq_or_le
  cases hout with
  | ipv6 _ _ _ hin => omega
  | other _ hne6 => exact absurd rfl hne6

/-- It only fails on headers behind an IPv6 header. -/
lemma IpHeader.layer3_none (hip : IpHeader mem frameLen l3 l4 ethtype ipProto) (hle : l4 ≤ frameLen)
 (hlt : frameLen < 2^17) (hout : Layer3 mem frameLen l3 ethtype none) :
 ethtype = ethtypeIpv6 ∧ l4 ≠ l3+sizeofIpv6hdr := by
 cases hip with
 | ipv4 hver hihl _ hend =>
  cases hout with
  | ipv4Err hbad => exact absurd ⟨hihl,hver,by rw [sub32_of_le (by omega) (by omega)]; omega⟩ hbad
 | ipv6 hver hat hlast hend =>
  cases hout with
  | ipv6Err hbad => exact absurd ⟨hver,by rw [sub32_of_le (by omega) (by omega)]; omega⟩ hbad
  | ipv6Long _ hat' hend' hlong =>
   refine ⟨rfl,?_⟩
   obtain ⟨rfl,rfl⟩ | hlt := hat.eq_or_lt hlast hat' <;> omega

/-- What the parser takes for the rest of layer 3: forty bytes less than there are with IPv6. -/
lemma IpHeader.l3Rest_eq (hip : IpHeader mem h.frameLen l3 l4 ethtype ipProto)
 (hoff : h.l3Offset = l3) (hlen : h.l3Len = l3Length mem l3 ethtype) (hl4 : h.l4Offset = l4) :
 l3Rest h =
  sub32 (add32 (h.frameLen-l3-if ethtype = ethtypeIpv4 then 0 else sizeofIpv6hdr) l3) l4 := by
 rw [l3Rest,hoff,hlen,hl4,l3Length]
 cases hip with
 | ipv4 _ _ _ hend =>
  rw [if_pos rfl,if_pos rfl]
  congr 2
  omega
 | ipv6 _ _ _ hend =>
  rw [if_neg (by decide),if_neg (by decide)]
  congr 2
  omega

/-- The parser ends with the expected metadata just if layer 4 has no error and the expected
length. -/
lemma L4Result.exit_iff {r : PacketHdr × Cursor} {len : Nat} (hr : L4Result mem h n p r)
 (hclean : ¬ h.errorFlags.any = true) (hknown : L4Known n) (hpayload : payloadAt mem n p = payload)
 (hl3 : h.l3Offset = l3) (hl4 : h.l4Offset = p) :
 (∃ h', some (parseExit { r.1 with payloadOffset := r.2.offset }) = some (0,h') ∧ h'.l3Offset = l3 ∧
  h'.l4Offset = p ∧ h'.l4Len = len ∧ h'.payloadOffset = payload) ↔
 ¬ L4Err mem h n p ∧ r.1.l4Len = len := by
 constructor
 · rintro ⟨h',heq,-,-,hlen,-⟩
   have hexit := Option.some.inj heq
   have hret : (parseExit { r.1 with payloadOffset := r.2.offset }).1 = 0 := by rw [hexit]
   have hh' : (parseExit { r.1 with payloadOffset := r.2.offset }).2 = h' := by rw [hexit]
   refine ⟨hr.noError (parseExit_eq_zero.mp hret),?_⟩
   rw [← hlen,← hh']
   rfl
 · rintro ⟨hno,hlen⟩
   have herr : r.1.errorFlags.any = false := by
    rw [Bool.eq_false_iff]
    exact fun hany => (hr.errors.mp hany).elim hclean hno
   exact ⟨_,congrArg some (Prod.ext (parseExit_eq_zero.mpr herr) rfl),hr.l3Offset.trans hl3,
    (hr.known hknown).trans hl4,hlen,hr.offset.trans hpayload⟩

/-- A well-formed frame is accepted and every part of it is found exactly if it is an IPv4 frame, or
one with a datagram of less than forty bytes directly behind the IPv6 header. -/
theorem parse_wellFormed (mem : Memory) (h : PacketHdr)
 (hframe : WellFormed mem h.frameLen ethtype ipProto l3 l4 payload) :
 (∃ h', parseCommon mem h.parseReset = some (0,h') ∧ h'.l3Offset = l3 ∧ h'.l4Offset = l4 ∧
  h'.l4Len = h.frameLen-l4 ∧ h'.payloadOffset = payload) ↔
 ethtype = ethtypeIpv4 ∨ (ipProto = ipprotoUdp ∧ l4 = l3+sizeofIpv6hdr ∧ h.frameLen < l4+40) := by
 obtain ⟨heth,hip,htransport,hinside⟩ := hframe
 obtain ⟨rfl,htype,hsnap,hle⟩ := heth.positions h.frameLen hip.ethtype_eq
 have hlt := hip.frameLen_lt hle
 have hl4 : l4 ≤ payload := by cases htransport <;> omega
 obtain ⟨r,hparse,hparsed⟩ :=
  parseCommon_spec mem h.parseReset (show h.frameLen+2048 < 2^32 by omega)
 rw [hparse]
 cases hparsed with
 | snapLong hlong => exact absurd hlong hsnap
 | l3Err hout hret =>
  rw [htype] at hout
  obtain ⟨h6,hne⟩ := hip.layer3_none (hl4.trans hinside) hlt hout
  refine iff_of_false ?_ (by rw [h6]; exact fun h => h.elim (by decide) fun h => hne h.2.1)
  rintro ⟨h',heq,-⟩
  rw [Option.some.inj heq] at hret
  cases hret
 | @layers n p h2 h3 r hframe hprot hoff hout hfields herr hr =>
  rw [htype] at hout hfields
  obtain ⟨rfl,rfl⟩ := hip.layer3 (hl4.trans hinside) hout
  obtain ⟨hoff3,hlen3⟩ := hfields.ip hip.ethtype_eq
  have hF : h3.frameLen = h.frameLen := hfields.frameLen.trans hframe
  have hrest : l3Rest (atL4 h3 ⟨p,p⟩ n) =
   sub32 (add32 (h.frameLen-l3At mem-if ethtype = ethtypeIpv4 then 0 else sizeofIpv6hdr)
    (l3At mem)) p := by
   rw [← hF]
   exact IpHeader.l3Rest_eq (h := atL4 h3 ⟨p,p⟩ n) (hF ▸ hip) (hoff3.trans hoff) hlen3 rfl
  have hsize : sizeofIpv6hdr = 40 := rfl
  have hclean : ¬ (atL4 h3 ⟨p,p⟩ n).errorFlags.any = true := by
   show ¬ h3.errorFlags.any = true
   rw [herr]
   exact Bool.false_ne_true
  have hpayload : payloadAt mem n p = payload := by
   cases htransport <;> rfl
  have hknown : L4Known n := by
   cases htransport with
   | tcp => exact .inr (.inl rfl)
   | udp => exact .inr (.inr (.inl rfl))
  rw [hr.exit_iff hclean hknown hpayload (hoff3.trans hoff) rfl]
  have hp := (hout.bounds (hle.trans (by decide))).1
  have hv6 := hip.behind_ipv6 hout
  cases htransport with
  | tcp hhl =>
   have hno : ¬ L4Err mem (atL4 h3 ⟨p,p⟩ ipprotoTcp) ipprotoTcp p := by
    rintro (⟨-,hshort⟩ | ⟨heq,-⟩)
    · omega
    · cases heq
   rw [hr.tcp rfl,hrest,and_iff_right hno]
   split_ifs with h4
   · exact iff_of_true (by rw [sub32,add32]; omega) (.inl h4)
   · refine iff_of_false ?_ (fun h => h.elim h4 fun h => absurd h.1 (by decide))
     have := hv6 h4
     rw [sub32,add32]
     omega
  | udp hlen =>
   have hsize' : sizeofUdphdr = 8 := rfl
   have herr : L4Err mem (atL4 h3 ⟨p,p⟩ ipprotoUdp) ipprotoUdp p ↔
    l3Rest (atL4 h3 ⟨p,p⟩ ipprotoUdp) < udpLength mem p := by
    refine ⟨fun h => ?_,fun h => .inr ⟨rfl,.inr h⟩⟩
    obtain ⟨heq,-⟩ | ⟨-,h⟩ := h
    · cases heq
    · exact h.resolve_left (by omega)
   rw [hr.udp rfl,herr,hrest,and_iff_left (by omega)]
   split_ifs with h4
   · exact iff_of_true (by rw [sub32,add32]; omega) (.inl h4)
   · have := hv6 h4
     simp only [h4,false_or,true_and,sub32,add32]
     omega

theorem parse_wellFormed_udp : WellFormed (memOf udpFrame) 50 ethtypeIpv4 ipprotoUdp 18 38 46 ∧
 ∃ h', parseCommon (memOf udpFrame) (newHdr 50).parseReset = some (0,h') ∧ h'.l3Offset = 18 ∧
  h'.l4Offset = 38 ∧ h'.l4Len = 50-38 ∧ h'.payloadOffset = 46 := by
 have hframe : WellFormed (memOf udpFrame) 50 ethtypeIpv4 ipprotoUdp 18 38 46 :=
  ⟨.inner (by decide) (by decide),.ipv4 (by decide) (by decide) (by decide) (by decide),
   .udp (by decide),by decide⟩
 exact ⟨hframe,(parse_wellFormed _ (newHdr 50) hframe).mpr (.inl rfl)⟩

/-- A UDP datagram of forty bytes in IPv6. -/
def udpFrame6 : List UInt8 :=
 ethAddrs++[0x86,0xdd]++[0x60,0,0,0,0,40,17,64]++List.replicate 32 0++[0,7,0,9,0,40,0,0] ++
  List.replicate 32 1

/-- The frame is well formed, and the parser rejects it. -/
theorem parse_wellFormed_ipv6 : udpFrame6.length = 94 ∧
 WellFormed (memOf udpFrame6) 94 ethtypeIpv6 ipprotoUdp 14 54 62 ∧
 (parseCommon (memOf udpFrame6) (newHdr 94).parseReset).map Prod.fst = some 1 :=
 ⟨by decide,⟨.untagged (by decide),.ipv6 (by decide) .refl (by decide) (by decide),
  .udp (by decide),by decide⟩,by decide⟩

end Packages.Parser

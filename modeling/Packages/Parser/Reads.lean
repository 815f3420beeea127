import Packages.Parser.Soundness

/-!
# What the parser reads

`reads` lists the offsets `_odp_parse_common` reads, function by function. No read is checked
against `frame_len` beforehand; `HeadersComplete` says from the bytes of the frame when they stay
inside it all the same.
-/

namespace Packages.Parser

open Relation

variable {mem : Memory} {h : PacketHdr} {frameLen l3 n p : Nat}

def be16Reads (p : Nat) : List Nat := [p,p+1]

/-- Behind a VLAN tag: its `tci` and the next ethertype. -/
def vlanReads (mem : Memory) (tag p : Nat) : List Nat :=
 if be16 mem p = tag then be16Reads (p+2)++be16Reads (p+sizeofVlanhdr) else []

def snapReads (mem : Memory) (h : PacketHdr) (c : Cursor) : List Nat :=
 if be16 mem c.parseptr < ethLenMax ∧ be16 mem c.parseptr ≤ sub32 h.frameLen c.offset then
  be16Reads (c.parseptr+8)
 else []

def ethReads (mem : Memory) (h : PacketHdr) : List Nat :=
 let h := if h.inputFlags.parsedL2 then h else parseL2 h
 let outer := parseVlanOuter mem h ⟨12,sizeofEthhdr⟩
 let inner := parseVlan mem outer.1 outer.2
 be16Reads 12++vlanReads mem ethtypeVlanOuter 12 ++
  vlanReads mem ethtypeVlan outer.2.parseptr++snapReads mem inner.1 inner.2

/-- Version and length; after the check also fragment offset and protocol. -/
def ipv4Reads (mem : Memory) (frameLen : Nat) (c : Cursor) : List Nat :=
 let p := c.parseptr
 p::be16Reads (p+2) ++
  if ipv4Ihl mem p < ipv4hdrIhlMin ∨ ipv4Ver mem p ≠ 4 ∨
   ipv4TotLen mem p > sub32 frameLen c.offset then []
  else be16Reads (p+6)++[p+9]

/-- The two fields of each extension header. -/
def extReads (mem : Memory) (frameLen : Nat) : Nat → Cursor → List Nat
 | 0,_ => []
 | fuel+1,c =>
  let next := c.advance (8+byteAt mem (c.parseptr+1)*8)
  be16Reads c.parseptr ++
   if skipped (byteAt mem c.parseptr) && decide (next.offset < frameLen) then
    extReads mem frameLen fuel next
   else []

/-- The word with the version and the length; after the check also the next header. -/
def ipv6Reads (mem : Memory) (frameLen : Nat) (c : Cursor) : List Nat :=
 let p := c.parseptr
 be16Reads p++be16Reads (p+2)++be16Reads (p+4) ++
  if byteAt mem p/2^4 ≠ 6 ∨ ipv6PayloadLen mem p > sub32 frameLen c.offset then []
  else (p+6)::if skipped (ipv6NextHdr mem p) then
   extReads mem frameLen (frameLen+1) (c.advance sizeofIpv6hdr) else []

def l3Reads (mem : Memory) (frameLen : Nat) (c : Cursor) (ethtype : Nat) : List Nat :=
 if ethtype = ethtypeIpv4 then ipv4Reads mem frameLen c
 else if ethtype = ethtypeIpv6 then ipv6Reads mem frameLen c
 else []

/-- The header length of TCP is a part of a halfword. -/
def l4Reads (c : Cursor) (ipProto : Nat) : List Nat :=
 if ipProto = ipprotoTcp then be16Reads (c.parseptr+12)
 else if ipProto = ipprotoUdp then be16Reads (c.parseptr+4)
 else []

/-- The offsets `_odp_parse_common` reads. -/
def reads (mem : Memory) (h : PacketHdr) : List Nat :=
 ethReads mem h ++
  match parseEth mem h with
  | (false,_) => []
  | (true,h2,c) =>
   l3Reads mem h.frameLen ⟨c.parseptr+2,c.offset⟩ (be16 mem c.parseptr) ++
    match parseL3 mem (atL3 mem h2 c) ⟨c.parseptr+2,c.offset⟩ (be16 mem c.parseptr) with
    | none => []
    | some (ipProto,_,c) => l4Reads c ipProto

-- The last byte that is read of each header

/-- The fields of a TCP or UDP header at `p`. -/
def L4Complete (frameLen n p : Nat) : Prop :=
 (n = ipprotoTcp → p+14 ≤ frameLen) ∧ (n = ipprotoUdp → p+6 ≤ frameLen)

/-- The lengths; of an accepted header also the protocol, and the transport header behind it. -/
def Ipv4Complete (mem : Memory) (frameLen l3 : Nat) : Prop :=
 l3+4 ≤ frameLen ∧ (Ipv4Ok mem frameLen l3 →
  l3+10 ≤ frameLen ∧ L4Complete frameLen (byteAt mem (l3+9)) (l3+ipv4Ihl mem l3*4))

/-- The length; of an accepted header also the type of the next one, both fields of each header that
is skipped, and the transport header, unless it is behind the payload. -/
def Ipv6Complete (mem : Memory) (frameLen l3 : Nat) : Prop :=
 l3+6 ≤ frameLen ∧ (Ipv6Ok mem frameLen l3 → l3+7 ≤ frameLen ∧ ∀ n p, ExtAt mem l3 n p →
  (skipped n = true → p = l3+sizeofIpv6hdr ∨ p < frameLen → p+2 ≤ frameLen) ∧
  (skipped n = false → p = l3+sizeofIpv6hdr ∨ p < l3+ipv6PayloadLen mem l3 →
   L4Complete frameLen n p))

/-- No header is cut off before the last of its bytes that is read. -/
structure HeadersComplete (mem : Memory) (frameLen : Nat) : Prop where
 type : typeAt mem+2 ≤ frameLen
 l3 : ¬ SnapLong mem frameLen → l3At mem ≤ frameLen
 ipv4 : ¬ SnapLong mem frameLen → l3Type mem = ethtypeIpv4 → Ipv4Complete mem frameLen (l3At mem)
 ipv6 : ¬ SnapLong mem frameLen → l3Type mem = ethtypeIpv6 → Ipv6Complete mem frameLen (l3At mem)

lemma forall_be16Reads : (∀ x ∈ be16Reads p, x < frameLen) ↔ p+2 ≤ frameLen := by
 simp only [be16Reads,List.forall_mem_cons,List.not_mem_nil,false_implies,implies_true,and_true]
 omega

attribute [local simp] forall_be16Reads List.forall_mem_append

lemma forall_vlanReads (mem : Memory) (frameLen tag p : Nat) :
 p+2 ≤ frameLen ∧ (∀ x ∈ vlanReads mem tag p, x < frameLen) ↔ behindTag mem tag p+2 ≤ frameLen := by
 rw [vlanReads,behindTag,sizeofVlanhdr]
 split
 · simp only [List.forall_mem_append,forall_be16Reads]
   omega
 · simp

lemma forall_ethReads (mem : Memory) (h : PacketHdr) : (∀ x ∈ ethReads mem h, x < h.frameLen) ↔
 typeAt mem+2 ≤ h.frameLen ∧ (¬ SnapLong mem h.frameLen → l3At mem ≤ h.frameLen) := by
 rw [ethReads]
 generalize hh1 : (if h.inputFlags.parsedL2 then h else parseL2 h) = h1
 have hl2 : h1.frameLen = h.frameLen := by
  rw [← hh1]
  split <;> rfl
 have hle := le_behindTag mem ethtypeVlanOuter 12
 obtain ⟨hc1,hframe1,-⟩ := parseVlanOuter_spec mem h1 (p := 12) (by decide)
 obtain ⟨hc2,hframe2,-⟩ := parseVlan_spec mem (parseVlanOuter mem h1 ⟨12,12+2⟩).1
  (p := behindTag mem ethtypeVlanOuter 12) (by omega)
 have houter := forall_vlanReads mem h.frameLen ethtypeVlanOuter 12
 have hinner := forall_vlanReads mem h.frameLen ethtypeVlan (behindTag mem ethtypeVlanOuter 12)
 simp only [sizeofEthhdr,hc1,hc2,List.forall_mem_append,forall_be16Reads,houter,hinner]
 rw [← typeAt,and_congr_right_iff]
 intro htype
 rw [snapReads,hframe2,hframe1,hl2,SnapLong,l3At]
 dsimp only
 split_ifs <;> simp <;> omega

lemma forall_extReads {fuel : Nat} (hskip : skipped n = true) (hsmall : p+2048 < 2^32)
 (hmax : frameLen+2048 < 2^32) (hfuel : frameLen-p < fuel) :
 (∀ x ∈ extReads mem frameLen fuel ⟨p,p⟩, x < frameLen) ↔
  ∀ n' p', ReflTransGen (Chain.Step (extNext mem)) (n,p) (n',p') → skipped n' = true → p' = p ∨
   p' < frameLen → p'+2 ≤ frameLen := by
 induction fuel generalizing n p with
 | zero => exact absurd hfuel (Nat.not_lt_zero _)
 | succ fuel ih =>
  have hext : byteAt mem (p+1) < 2^8 := (mem _).toNat_lt
  rw [extReads]
  simp only [advance_same (show p+(8+byteAt mem (p+1)*8) < 2^32 by omega),List.forall_mem_append,
   forall_be16Reads]
  generalize hq : p+(8+byteAt mem (p+1)*8) = q
  -- the first header, and those behind it
  have hsplit :
   (∀ n' p', ReflTransGen (Chain.Step (extNext mem)) (n,p) (n',p') → skipped n' = true →
    p' = p ∨ p' < frameLen → p'+2 ≤ frameLen) ↔ p+2 ≤ frameLen ∧
   ∀ n' p', ReflTransGen (Chain.Step (extNext mem)) (byteAt mem p,q) (n',p') → skipped n' = true →
    p' < frameLen → p'+2 ≤ frameLen := by
   constructor
   · refine fun hall => ⟨hall n p .refl hskip (.inl rfl),fun n' p' hreach hs hlt => ?_⟩
     exact hall n' p' (.head ((step_extNext hskip).mpr (by rw [hq])) hreach) hs (.inr hlt)
   · rintro ⟨hfirst,hall⟩ n' p' hreach hs hor
     obtain heq | ⟨e,hstep,hrest⟩ := hreach.cases_head
     · cases heq
       exact hfirst
     · obtain rfl := (step_extNext hskip).mp hstep
       rw [hq] at hrest
       have := eq_or_add_le hrest
       refine hall n' p' hrest hs (hor.resolve_left ?_)
       rintro rfl
       obtain heq | hle := this
       · cases heq
         omega
       · dsimp only at hle
         omega
  rw [hsplit]
  refine and_congr_right fun _ => ?_
  split_ifs with hmore
  · simp only [Bool.and_eq_true,decide_eq_true_eq] at hmore
    rw [ih hmore.1 (by omega) (by omega)]
    refine forall₄_congr fun n' p' _ _ => ?_
    rw [or_iff_right_of_imp (by rintro rfl; exact hmore.2)]
  · refine iff_of_true (by simp) fun n' p' hreach hs hlt => ?_
    simp only [Bool.and_eq_true,decide_eq_true_eq,not_and,not_lt] at hmore
    obtain heq | hle := eq_or_add_le hreach
    · cases heq
      have := hmore hs
      omega
    · obtain heq | ⟨e,hstep,-⟩ := hreach.cases_head
      · cases heq
        have := hmore hs
        omega
      · cases hbyte : skipped (byteAt mem p) with
        | true =>
         have := hmore hbyte
         dsimp only at hle
         omega
        | false => exact absurd hstep (not_step_extNext hbyte)

lemma forall_l4Reads (frameLen n p : Nat) :
 (∀ x ∈ l4Reads ⟨p,p⟩ n, x < frameLen) ↔ L4Complete frameLen n p := by
 rw [l4Reads,L4Complete]
 split_ifs with htcp hudp
 · simp [htcp,show ipprotoTcp ≠ ipprotoUdp by decide]
 · simp [hudp,show ipprotoUdp ≠ ipprotoTcp by decide]
 · simp [htcp,hudp]

lemma forall_ipv4Reads (mem : Memory) (frameLen l3 : Nat) :
 (∀ x ∈ ipv4Reads mem frameLen ⟨l3,l3⟩, x < frameLen) ↔
 l3+4 ≤ frameLen ∧ (Ipv4Ok mem frameLen l3 → l3+10 ≤ frameLen) := by
 rw [ipv4Reads,Ipv4Ok]
 dsimp only
 split_ifs with hbad
 · simp only [List.append_nil,List.forall_mem_cons,forall_be16Reads]
   omega
 · simp only [List.forall_mem_append,List.forall_mem_cons,forall_be16Reads,List.not_mem_nil,
    false_implies,implies_true,and_true]
   omega

lemma forall_ipv6Reads (mem : Memory) (hle : l3 ≤ 30) (hmax : frameLen+2048 < 2^32) :
 (∀ x ∈ ipv6Reads mem frameLen ⟨l3,l3⟩, x < frameLen) ↔ l3+6 ≤ frameLen ∧ (Ipv6Ok mem frameLen l3 →
  l3+7 ≤ frameLen ∧ ∀ n p, ExtAt mem l3 n p → skipped n = true → p = l3+sizeofIpv6hdr ∨
   p < frameLen → p+2 ≤ frameLen) := by
 have hsize : sizeofIpv6hdr = 40 := rfl
 rw [ipv6Reads,Ipv6Ok]
 simp only [advance_same (show l3+sizeofIpv6hdr < 2^32 by omega)]
 split_ifs with hbad hskip
 · simp only [List.append_nil,List.forall_mem_append,forall_be16Reads]
   omega
 · have hext : (∀ x ∈ extReads mem frameLen (frameLen+1) ⟨l3+sizeofIpv6hdr,l3+sizeofIpv6hdr⟩,
    x < frameLen) ↔
    ∀ n p, ExtAt mem l3 n p → skipped n = true → p = l3+sizeofIpv6hdr ∨ p < frameLen →
     p+2 ≤ frameLen :=
    forall_extReads hskip (by omega) hmax (by omega)
   rw [forall_prop_of_true ⟨by omega,by omega⟩]
   simp only [List.forall_mem_append,List.forall_mem_cons,forall_be16Reads,hext]
   constructor
   · rintro ⟨⟨-,h6⟩,h7,hall⟩
     exact ⟨h6,h7,hall⟩
   · rintro ⟨h6,h7,hall⟩
     exact ⟨⟨⟨by omega,by omega⟩,h6⟩,h7,hall⟩
 · have hnone : ∀ n p, ExtAt mem l3 n p → skipped n = true → p = l3+sizeofIpv6hdr ∨ p < frameLen →
    p+2 ≤ frameLen := by
    intro n p hat hs
    have hfirst : ExtAt mem l3 _ _ := .refl
    obtain ⟨rfl,-⟩ | hlt := hfirst.eq_or_lt (by simpa using hskip) hat
    · exact absurd hs hskip
    · have := hat.eq_or_le
      omega
   rw [forall_prop_of_true ⟨by omega,by omega⟩,and_iff_left hnone]
   simp only [List.forall_mem_append,List.forall_mem_cons,forall_be16Reads,List.not_mem_nil,
    false_implies,implies_true,and_true]
   omega

/-- The reads of layers 3 and 4, behind a complete layer 2. -/
lemma Layer3.reads_iff {ethtype : Nat} {out : Option (Nat × Nat)}
 (hout : Layer3 mem frameLen l3 ethtype out)
 (hl3 : l3 ≤ 30) (hmax : frameLen+2048 < 2^32) (hle : l3 ≤ frameLen) :
 ((∀ x ∈ l3Reads mem frameLen ⟨l3,l3⟩ ethtype, x < frameLen) ∧ ∀ n p, out = some (n,p) →
  L4Complete frameLen n p) ↔
  (ethtype = ethtypeIpv4 → Ipv4Complete mem frameLen l3) ∧
   (ethtype = ethtypeIpv6 → Ipv6Complete mem frameLen l3) := by
 have hlen : Ipv6Ok mem frameLen l3 → l3+ipv6PayloadLen mem l3 ≤ frameLen := by
  intro hok
  have := hok.2
  rw [sub32_of_le hle (by omega)] at this
  omega
 have h46 : ethtypeIpv4 ≠ ethtypeIpv6 := by decide
 have hv6 : l3Reads mem frameLen ⟨l3,l3⟩ ethtypeIpv6 = ipv6Reads mem frameLen ⟨l3,l3⟩ := rfl
 cases hout with
 | ipv4 hok =>
  simp [l3Reads,forall_ipv4Reads,Ipv4Complete,h46,hok,and_assoc]
 | ipv4Err hbad =>
  simp [l3Reads,forall_ipv4Reads,Ipv4Complete,h46,hbad]
 | @ipv6 n p hok hat hend hin =>
  -- the last header of the chain is the only one that is not skipped
  have hlast : skipped n = false := by
   by_contra hskip
   have := hend (by simpa using hskip)
   have := hlen hok
   omega
  rw [hv6,forall_ipv6Reads mem hl3 hmax]
  constructor
  · rintro ⟨⟨h6,hreads⟩,hl4⟩
    refine ⟨nofun,fun _ =>
     ⟨h6,fun _ => ⟨(hreads hok).1,fun n' p' hat' => ⟨(hreads hok).2 n' p' hat',?_⟩⟩⟩⟩
    intro hlast' _
    obtain ⟨rfl,rfl⟩ := hat.unique hlast hat' hlast'
    exact hl4 _ _ rfl
  · rintro ⟨-,hall⟩
    obtain ⟨h6,hreads⟩ := hall rfl
    obtain ⟨h7,hall⟩ := hreads hok
    refine ⟨⟨h6,fun _ => ⟨h7,fun n' p' hat' => (hall n' p' hat').1⟩⟩,fun n' p' heq => ?_⟩
    cases heq
    exact (hall n p hat).2 hlast hin
 | ipv6Err hbad =>
  simp [l3Reads,h46.symm,forall_ipv6Reads mem hl3 hmax,Ipv6Complete,hbad]
 | @ipv6Long n p hok hat hend hlt hout =>
  have hpay := hlen hok
  have hbehind : ∀ n' p', ExtAt mem l3 n' p' → skipped n' = false →
   ¬ (p' = l3+sizeofIpv6hdr ∨ p' < l3+ipv6PayloadLen mem l3) := by
   intro n' p' hat' hlast'
   obtain ⟨rfl,rfl⟩ | hle' := hat'.eq_or_lt hlast' hat
   · omega
   · omega
  rw [hv6,forall_ipv6Reads mem hl3 hmax]
  constructor
  · rintro ⟨⟨h6,hreads⟩,-⟩
    exact ⟨nofun,fun _ => ⟨h6,fun hok => ⟨(hreads hok).1,fun n' p' hat' =>
     ⟨(hreads hok).2 n' p' hat',fun hlast' hin => absurd hin (hbehind n' p' hat' hlast')⟩⟩⟩⟩
  · rintro ⟨-,hall⟩
    obtain ⟨h6,hreads⟩ := hall rfl
    exact ⟨⟨h6,fun hok => ⟨(hreads hok).1,fun n' p' hat' => ((hreads hok).2 n' p' hat').1⟩⟩,nofun⟩
 | other hne4 hne6 =>
  simp [l3Reads,hne4,hne6,L4Complete,ipprotoInvalid,ipprotoTcp,ipprotoUdp]

/-- The parser reads only the frame exactly if no header is cut off before the last of its bytes
that is read. -/
theorem reads_inside_frame (mem : Memory) (h : PacketHdr) (hmax : h.frameLen+2048 < 2^32) :
 (∀ x ∈ reads mem h, x < h.frameLen) ↔ HeadersComplete mem h.frameLen := by
 have hl3 := l3At_le mem
 obtain ⟨hframe,hlong,hok⟩ := parseEth_spec mem h
 rw [reads,List.forall_mem_append,forall_ethReads]
 generalize parseEth mem h = eth at hframe hlong hok ⊢
 obtain ⟨ok,h2,c⟩ := eth
 by_cases hsnap : SnapLong mem h.frameLen
 · obtain ⟨rfl,-⟩ := hlong hsnap
   exact ⟨fun hall => ⟨hall.1.1,hall.1.2,fun h => absurd hsnap h,fun h => absurd hsnap h⟩,
    fun hcomplete => ⟨⟨hcomplete.type,hcomplete.l3⟩,nofun⟩⟩
 · obtain ⟨rfl,-,rfl⟩ := hok hsnap
   have hptr : l3At mem-2+2 = l3At mem := by omega
   obtain ⟨out,⟨m,h3,c⟩,hout,hparse,-,hfailed,hdone⟩ :=
    parseL3_spec mem (atL3 mem h2 ⟨l3At mem-2,l3At mem⟩)
    (l3Type mem) hl3.2 (show h2.frameLen+2048 < 2^32 from hframe ▸ hmax) rfl
   replace hout : Layer3 mem h.frameLen (l3At mem) (l3Type mem) out := hframe ▸ hout
   have hl4 : (∀ x ∈ l4Reads c m, x < h.frameLen) ↔ ∀ n p, out = some (n,p) →
    L4Complete h.frameLen n p := by
    cases out with
    | none =>
     obtain ⟨rfl,-⟩ := hfailed rfl
     exact iff_of_true nofun nofun
    | some e =>
     obtain ⟨n,p⟩ := e
     obtain ⟨rfl,rfl,-⟩ := hdone n p rfl
     simp [forall_l4Reads]
   dsimp only
   rw [hptr,← l3Type,hparse]
   simp only [List.forall_mem_append,hl4]
   constructor
   · rintro ⟨⟨htype,hle⟩,hall⟩
     obtain ⟨h4,h6⟩ := (hout.reads_iff hl3.2 hmax (hle hsnap)).mp hall
     exact ⟨htype,hle,fun _ => h4,fun _ => h6⟩
   · rintro ⟨htype,hle,h4,h6⟩
     exact ⟨⟨htype,hle⟩,(hout.reads_iff hl3.2 hmax (hle hsnap)).mpr ⟨h4 hsnap,h6 hsnap⟩⟩

/-- The tagged frame of IPv4 is complete. -/
theorem reads_inside_frame_udp : udpFrame.length = 50 ∧
 ∀ x ∈ reads (memOf udpFrame) (newHdr 50).parseReset, x < 50 := by
 refine ⟨rfl,(reads_inside_frame (memOf udpFrame) (newHdr 50).parseReset (by decide)).mpr ?_⟩
 exact ⟨by decide,fun _ => by decide,fun _ _ =>
  ⟨by decide,fun _ => ⟨by decide,by decide,by decide⟩⟩,fun _ h6 => absurd h6 (by decide)⟩

/-- An Ethernet header that announces IPv4, and nothing behind it. -/
def bareFrame : List UInt8 := ethAddrs++[0x08,0]

/-- The parser reads behind its end, and returns what the memory there says. -/
theorem reads_outside_frame : bareFrame.length = 14 ∧
 14 ∈ reads (memOf bareFrame) (newHdr 14).parseReset ∧
 (parseCommon (memOf bareFrame) (newHdr 14).parseReset).map Prod.fst = some 1 ∧
 (parseCommon (memOf (bareFrame++[0x45])) (newHdr 14).parseReset).map Prod.fst = some 0 := by
 decide

end Packages.Parser

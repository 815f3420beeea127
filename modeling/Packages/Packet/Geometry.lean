import Packages.Packet.Model

/-!
# Headroom, data and tailroom fill the segments

The three fields of a packet add up to the bytes of its segments. Two functions break that:
`odp_packet_reset` adds the room to the requested length in 32 bits, and `odp_packet_copy` gives the
copy the room of the source. A push or a pull up to the end of the last segment returns `NULL`
though it has changed the packet. `SizesOk` allows the runs in which they do no harm.
-/

namespace Packages.Packet

open Function World Option Nat

open BufferPool

variable {m n : Nat}

attribute [local simp] setPool setPkt buf free Call.given

-- The fields of one packet

namespace PktHdr

/-- The bytes the three fields account for. -/
def total (k : PktHdr) : Nat := k.headroom+k.frameLen+k.tailroom

section Shift

variable {k : PktHdr} {len : Nat}

section

variable (hk : k.total < 2^32)

include hk

lemma total_pushHead (hlen : len ≤ k.headroom) : (k.pushHead len).total = k.total := by
 simp only [total,pushHead,add32,sub32] at hk ⊢
 omega

lemma total_pullHead (hlen : len ≤ k.frameLen) : (k.pullHead len).total = k.total := by
 simp only [total,pullHead,add32,sub32] at hk ⊢
 omega

lemma total_pushTail (hlen : len ≤ k.tailroom) : (k.pushTail len).total = k.total := by
 simp only [total,pushTail,add32,sub32] at hk ⊢
 omega

lemma total_pullTail (hlen : len ≤ k.frameLen) : (k.pullTail len).total = k.total := by
 simp only [total,pullTail,add32,sub32] at hk ⊢
 omega

/-- `odp_packet_push_tail` returns an address of the frame. -/
lemma frameLen_le_pushTail (hlen : len ≤ k.tailroom) :
 k.frameLen ≤ (k.pushTail len).frameLen := by
 simp only [total,pushTail,add32] at hk ⊢
 omega

end

end Shift

/-- An offset in front of the end of the segments is mapped. -/
lemma packetMap_mem (k : PktHdr) (seg : Nat × Nat) (offset : Nat) (hlt : seg.2*seg.1 < 2^32)
 (h : offset ≤ k.frameLen) (hin : k.headroom+offset < seg.2*seg.1) :
 ∃ a, k.packetMap seg offset = some a ∧ a.segIndex < seg.2 ∧ a.segOffset < seg.1 := by
 have hoff : add32 k.headroom offset = k.headroom+offset := add32_of_lt (by omega)
 rw [mul_comm] at hin
 have hpos : 0 < seg.1 := pos_of_ne_zero fun h0 => by simp [h0] at hin
 have hidx : (bufferMap seg.1 (add32 k.headroom offset) (add32 k.headroom k.frameLen)).segIndex <
  seg.2 := by
  simp only [bufferMap,hoff]
  split_ifs
  · exact Nat.pos_of_ne_zero fun h0 => by simp [h0] at hin
  · exact Nat.div_lt_of_lt_mul hin
 refine ⟨_,by rw [packetMap,if_neg (by omega),if_pos hidx],hidx,?_⟩
 simp only [bufferMap,hoff]
 split_ifs with hfirst
 · exact hfirst
 · exact mod_lt _ hpos

end PktHdr

variable {size : Nat}

lemma total_packetInit {c : Config} {b : BufHdr} (hsize : c.headroom+size ≤ b.size)
 (hlt : b.size < 2^32) : (packetInit c b size).total = b.size ∧
  (packetInit c b size).frameLen = size := by
 simp only [PktHdr.total,packetInit,sub32]
 omega

-- All packets

/-- The bytes in the segments of a packet. -/
def World.bytes (w : World m n) (p : Fin m) (h : Nat) : Nat :=
 (w.buf p h).segcount*(w.cfg p).hdrSegSize

/-- The fields of every live packet add up; the pools' own books are in order. -/
structure Ok (w : World m n) : Prop where
 inv : ∀ p, Inv (w.pool p)
 quiet : ∀ p, (w.pool p).Quiet
 config : ∀ p, (w.cfg p).type = .packet → PacketConfig (w.cfg p)
 blocks : ∀ p h, w.Live p h → (w.cfg p).hdrdata = false
 total : ∀ p h, w.Live p h → (w.pkt p h).total = w.bytes p h

/-- The packet is as it was. -/
structure Same (w w' : World m n) (p : Fin m) (h : Nat) : Prop where
 live : w'.Live p h
 cfg : w'.cfg p = w.cfg p
 buf : w'.buf p h = w.buf p h
 pkt : w'.pkt p h = w.pkt p h

section Ok

variable {w w' : World m n} {p q : Fin m} {h x : Nat} {t : Fin n}

lemma Same.trans {w'' : World m n} (h1 : Same w w' p h) (h2 : Same w' w'' p h) : Same w w'' p h :=
 ⟨h2.live,h2.cfg.trans h1.cfg,h2.buf.trans h1.buf,h2.pkt.trans h1.pkt⟩

lemma size_eq_bytes {s : State n} (hi : Inv s) (hq : s.Quiet) (hc : PacketConfig s.pool.cfg)
 (hd : s.pool.cfg.hdrdata = false) :
 (s.pool.hdr x).size = (s.pool.hdr x).segcount*s.pool.cfg.hdrSegSize := by
 have hset : Settled s.pool x := hi.sizes.settled_of fun u hu => by simp [hq u,Pc.busy] at hu
 have hin : (s.pool.hdr x).inlined = false := hi.inlined_of_hdrdata hd
 rw [hset hd,hc.segSize]
 simp [BufHdr.segcount,hin]

lemma bytes_lt {s : State n} (hi : Inv s) (hc : PacketConfig s.pool.cfg) :
 (s.pool.hdr x).segcount*s.pool.cfg.hdrSegSize < 2^32 := by
 have h1 := hi.segcount_le x
 have h2 := hc.upper
 rw [← hc.segSize] at h2
 calc (s.pool.hdr x).segcount*s.pool.cfg.hdrSegSize ≤ maxSeg*65728 := Nat.mul_le_mul h1 h2
  _ < 2^32 := by decide

lemma Ok.bytes_lt (hw : Ok w) (hl : w.Live p h) : w.bytes p h < 2^32 :=
 Packet.bytes_lt (hw.inv p) (hw.config p hl.1)

lemma Ok.total_lt (hw : Ok w) (hl : w.Live p h) : (w.pkt p h).total < 2^32 := by
 rw [hw.total p h hl]
 exact hw.bytes_lt hl

lemma Ok.size_eq (hw : Ok w) (hl : w.Live p h) : (w.buf p h).size = w.bytes p h :=
 size_eq_bytes (hw.inv p) (hw.quiet p) (hw.config p hl.1) (hw.blocks p h hl)

lemma Ok.setPkt (hw : Ok w) {k : PktHdr} (hk : w.Live p h → k.total = w.bytes p h) :
 Ok (w.setPkt p h k) where
 __ := hw
 total := by
  intro q x hl
  have hl' : w.Live q x := hl
  show (update w.pkt p (update (w.pkt p) h k) q x).total = w.bytes q x
  by_cases hq : q = p
  · subst hq
    by_cases hx : x = h
    · subst hx
      simpa using hk hl'
    · simpa [hx] using hw.total q x hl'
  · simpa [hq] using hw.total q x hl'

variable {len : Nat}

/-- `odp_packet_push_head` and its relatives fail before they touch the packet, if the address
they return is in front of the end of its segments. -/
lemma Ok.shift (hw : Ok w) (hl : w.Live p h) {room origin : Nat} {k : PktHdr}
 (hk : len ≤ room → k.total = (w.pkt p h).total ∧ origin ≤ k.frameLen ∧
  k.headroom+origin < w.bytes p h) :
 Ok (w.shift p h room len k origin).2 ∧ ((w.shift p h room len k origin).1.isSome = false →
  Same w (w.shift p h room len k origin).2 p h) := by
 unfold World.shift
 split_ifs with hlen
 · exact ⟨hw,fun _ => ⟨hl,rfl,rfl,rfl⟩⟩
 · obtain ⟨htotal,horigin,hin⟩ := hk (by omega)
   obtain ⟨a,ha,-⟩ := PktHdr.packetMap_mem _ (w.seg p h) _ (hw.bytes_lt hl) horigin hin
   exact ⟨hw.setPkt fun _ => htotal.trans (hw.total p h hl),fun hf => by simp [ha] at hf⟩

-- Allocating and freeing

/-- The pool `p` has granted the headers `hs`, and their fields have been written. -/
structure Granted (w w' : World m n) (p : Fin m) (size : Nat) (hs : List Nat) (k : Nat → PktHdr) :
 Prop where
 pool : ∀ q, q ≠ p → w'.pool q = w.pool q
 grant : GrantSpec (w.pool p) (w'.pool p) size hs
 pkt : ∀ q y, w'.pkt q y = if q = p ∧ y ∈ hs then k y else w.pkt q y

variable {hs : List Nat} {k : Nat → PktHdr}

section

variable (hg : Granted w w' p size hs k)

include hg

lemma Granted.live : w'.Live q x ↔ w.Live q x ∨ (q = p ∧ x ∈ hs ∧ (w.cfg p).type = .packet) := by
 unfold World.Live cfg
 by_cases hq : q = p
 · subst hq
   rw [hg.grant.cfg,hg.grant.allocated]
   tauto
 · simp [hg.pool q hq,hq]

lemma Granted.cfg (q : Fin m) : w'.cfg q = w.cfg q := by
 unfold World.cfg
 by_cases hq : q = p
 · subst hq
   exact hg.grant.cfg
 · rw [hg.pool q hq]

lemma Granted.same (hl : w.Live q x) : Same w w' q x where
 live := hg.live.mpr (.inl hl)
 cfg := hg.cfg q
 buf := by
  unfold buf
  by_cases hq : q = p
  · subst hq
    exact hg.grant.hdr x hl.2
  · rw [hg.pool q hq]
 pkt := by
  rw [hg.pkt,if_neg]
  rintro ⟨rfl,hx⟩
  have := hg.grant.fresh x hx
  simp [hl.2] at this

lemma Granted.blocks (hc : PacketConfig (w.cfg p)) (hx : x ∈ hs) : (w.cfg p).hdrdata = false := by
 by_contra hd
 have hd : (w.cfg p).hdrdata = true := by simpa using hd
 have hsize := (hg.grant.inv.sizes.hdr x).inlineSize (by rw [hg.grant.cfg]; exact hd)
 have hfits := hg.grant.fits x hx
 rw [hsize,hg.grant.cfg] at hfits
 have h1 : (w.cfg p).headroom = 128 := hc.headroom
 have h2 : (w.cfg p).blkSize ≤ 40 := of_decide_eq_true hd
 simp only [World.cfg,Config.roomSize] at h1 h2 hfits
 omega

end

lemma Granted.ok (hw : Ok w)
 (hg : Granted w w' p size hs k) (hk : ∀ x ∈ hs, (w.cfg p).type = .packet →
  (w'.buf p x).size = w'.bytes p x → w'.bytes p x < 2^32 →
  (w.cfg p).headroom+size ≤ (w'.buf p x).size → (k x).total = w'.bytes p x) : Ok w' where
 inv q := by
  by_cases hq : q = p
  · subst hq
    exact hg.grant.inv
  · rw [hg.pool q hq]
    exact hw.inv q
 quiet q u := by
  by_cases hq : q = p
  · subst hq
    rw [hg.grant.pc]
    exact hw.quiet q u
  · rw [hg.pool q hq]
    exact hw.quiet q u
 config q hq := by
  rw [hg.cfg] at hq ⊢
  exact hw.config q hq
 blocks q y hl := by
  rw [hg.cfg]
  rcases hg.live.mp hl with hl | ⟨rfl,hy,htype⟩
  · exact hw.blocks q y hl
  · exact hg.blocks (hw.config q htype) hy
 total q y hl := by
  rcases hg.live.mp hl with hl | ⟨rfl,hy,htype⟩
  · have hs := hg.same hl
    rw [hs.pkt,hw.total q y hl]
    unfold bytes
    rw [hs.buf,hs.cfg]
  · have hc := hw.config q htype
    have hc' : PacketConfig (w'.cfg q) := by rwa [hg.cfg]
    rw [hg.pkt,if_pos ⟨rfl,hy⟩]
    refine hk y hy htype ?_ (Packet.bytes_lt hg.grant.inv hc') ?_
    · refine size_eq_bytes hg.grant.inv (fun u => ?_) hc' ?_
      · rw [hg.grant.pc]
        exact hw.quiet q u
      · exact (congrArg _ (hg.cfg q)).trans (hg.blocks hc hy)
    · have hfits := hg.grant.fits y hy
      simp only [World.cfg,World.buf,Config.roomSize] at hfits ⊢
      omega

lemma alloc_granted (hw : Ok w) (t : Fin n) (p : Fin m) (len : Nat) :
 Granted w (w.alloc t p len).2 p (w.reqLen p len) (w.alloc t p len).1.toList
  (fun x => packetInit (w.cfg p) ((w.alloc t p len).2.buf p x) (w.reqLen p len)) := by
 unfold alloc
 split_ifs with htype
 · exact ⟨fun _ _ => rfl,⟨hw.inv p,rfl,rfl,fun _ _ => rfl,by simp,by simp,by simp⟩,by simp⟩
 · have hspec := ((hw.inv p).bufferAlloc_spec (hw.quiet p t) (w.reqLen p len)).grant
   rcases hr : (w.pool p).bufferAlloc t (w.reqLen p len) with ⟨_ | x,s⟩
   · simp only [hr] at hspec
     exact ⟨fun q hq => by simp [hq],by simpa using hspec,by simp⟩
   · simp only [hr] at hspec
     refine ⟨fun q hq => by simp [hq],by simpa using hspec,fun q y => ?_⟩
     have hcfg : s.pool.cfg = w.cfg p := hspec.cfg
     by_cases hq : q = p
     · subst hq
       by_cases hy : y = x
       · subst hy
         simp [hcfg]
       · simp [hy]
     · simp [hq]

/-- What `odp_packet_alloc` does: no live packet changes, and the new one was not live. -/
lemma Ok.alloc (hw : Ok w) (t : Fin n) (p : Fin m) (len : Nat) :
 Ok (w.alloc t p len).2 ∧ (∀ q y, w.Live q y → Same w (w.alloc t p len).2 q y) ∧
  ∀ x, (w.alloc t p len).1 = some x → (w.alloc t p len).2.Live p x ∧ ¬ w.Live p x := by
 have hg := alloc_granted hw t p len
 refine ⟨hg.ok hw fun x _ _ hsize hlt hfits => ?_,fun q y hl => hg.same hl,fun x hx => ⟨?_,?_⟩⟩
 · rw [← hsize] at hlt ⊢
   exact (total_packetInit hfits hlt).1
 · refine hg.live.mpr (.inr ⟨rfl,by simp [hx],?_⟩)
   by_contra htype
   simp [World.alloc,htype] at hx
 · intro hl
   have := hg.grant.fresh x (by simp [hx])
   simp [hl.2] at this

lemma foldl_setPkt (k : World m n → Nat → PktHdr) (hs : List Nat) (w : World m n)
 (hk : ∀ (w' : World m n) y, w'.pool = w.pool → k w' y = k w y) :
 (hs.foldl (fun w h => w.setPkt p h (k w h)) w).pool = w.pool ∧
 ∀ q y, (hs.foldl (fun w h => w.setPkt p h (k w h)) w).pkt q y =
  if q = p ∧ y ∈ hs then k w y else w.pkt q y := by
 induction hs generalizing w with
 | nil => simp
 | cons h hs ih =>
  obtain ⟨h1,h2⟩ := ih (w.setPkt p h (k w h)) fun w' y hw' => by
   rw [hk w' y hw',hk (w.setPkt p h (k w h)) y rfl]
  refine ⟨h1,fun q y => ?_⟩
  rw [List.foldl_cons,h2,hk (w.setPkt p h (k w h)) y rfl]
  by_cases hq : q = p
  · subst hq
    by_cases hy : y = h
    · subst hy
      simp
    · simp [hy]
  · simp [hq]

section

variable (hw : Ok w)

include hw

lemma Ok.allocMulti (t : Fin n) (p : Fin m) (len num : Nat) :
 Ok (w.allocMulti t p len num).2 := by
 unfold World.allocMulti
 split_ifs with htype
 · exact hw
 simp only
 have hspec := (hw.inv p).bufferAllocMulti_spec (hw.quiet p t) (w.reqLen p len) num
 generalize State.bufferAllocMulti t (w.reqLen p len) num (w.pool p) = r at hspec ⊢
 obtain ⟨h1,h2⟩ := foldl_setPkt
  (fun v h => multiInit (v.cfg p) (v.buf p h) len (w.reqLen p len)) r.1 (w.setPool p r.2)
  fun w' y hw' => by simp only [cfg,buf,hw']
 generalize r.1.foldl _ (w.setPool p r.2) = w' at h1 h2 ⊢
 have hg : Granted w w' p (w.reqLen p len) r.1 _ :=
  ⟨fun q hq => by simp [h1,hq],by simpa [h1] using hspec,h2⟩
 refine hg.ok hw fun x _ _ hbytes hlt hfits => ?_
 have hcfg : (w.setPool p r.2).cfg p = w.cfg p := by
  simpa [cfg] using hspec.cfg
 have hbuf : w'.buf p x = (w.setPool p r.2).buf p x := by
  simp only [buf,h1]
 rw [← hbytes,hbuf] at hlt ⊢
 rw [hbuf] at hfits
 obtain ⟨htotal,hlen⟩ := total_packetInit (c := (w.setPool p r.2).cfg p) (by rwa [hcfg]) hlt
 simp only [multiInit]
 split_ifs
 · rw [PktHdr.total_pullTail (by rwa [htotal]) (by rw [hlen]),htotal]
 · exact htotal

lemma Ok.free (hl : w.Live p h) (t : Fin n) : Ok (w.free t p h) ∧
 ∀ q y, (q,y) ≠ (p,h) → w.Live q y → Same w (w.free t p h) q y := by
 have hspec := (hw.inv p).bufferFree_spec (hw.quiet p t) hl.2
 have hcfg : ∀ q, (w.free t p h).cfg q = w.cfg q := by
  intro q
  by_cases hq : q = p
  · subst hq
    simpa [cfg] using hspec.cfg
  · simp [cfg,hq]
 have hlive : ∀ q y, (w.free t p h).Live q y → (q,y) ≠ (p,h) ∧ w.Live q y := by
  rintro q y ⟨htype,hy⟩
  rw [hcfg] at htype
  by_cases hq : q = p
  · subst hq
    by_cases hyh : y = h
    · simp [hspec.allocated,hyh] at hy
    · simp only [free,setPool,update_self,hspec.allocated,ne_eq,hyh,
       not_false_eq_true,update_of_ne] at hy
      exact ⟨by simp [hyh],htype,hy⟩
  · simp only [World.free,World.setPool,ne_eq,hq,not_false_eq_true,update_of_ne] at hy
    exact ⟨by simp [hq],htype,hy⟩
 have hsame : ∀ q y, (q,y) ≠ (p,h) → w.Live q y → Same w (w.free t p h) q y := by
  intro q y hne hy
  by_cases hq : q = p
  · subst hq
    have hyh : y ≠ h := fun e => hne (by rw [e])
    refine ⟨⟨by rw [hcfg]; exact hy.1,?_⟩,hcfg q,?_,rfl⟩
    · simpa [hspec.allocated,hyh] using hy.2
    · simpa using hspec.hdr y hyh hy.2
  · refine ⟨⟨by rw [hcfg]; exact hy.1,?_⟩,hcfg q,?_,rfl⟩
    · simpa [hq] using hy.2
    · simp [hq]
 refine ⟨⟨fun q => ?_,fun q u => ?_,fun q hq => ?_,fun q y hy => ?_,fun q y hy => ?_⟩,hsame⟩
 · by_cases hq : q = p
   · subst hq
     simpa using hspec.inv
   · simpa [hq] using hw.inv q
 · by_cases hq : q = p
   · subst hq
     simpa [hspec.pc] using hw.quiet q u
   · simpa [hq] using hw.quiet q u
 · rw [hcfg] at hq ⊢
   exact hw.config q hq
 · rw [hcfg]
   exact hw.blocks q y (hlive q y hy).2
 · obtain ⟨hne,hy⟩ := hlive q y hy
   have hs := hsame q y hne hy
   rw [hs.pkt,hw.total q y hy]
   unfold bytes
   rw [hs.buf,hs.cfg]

-- The calls

lemma Ok.reset (hl : w.Live p h) (hlen : (w.cfg p).roomSize+len < 2^32) :
 Ok (w.reset p h len).2 ∧ ((w.reset p h len).1 = false → Same w (w.reset p h len).2 p h) := by
 unfold World.reset
 split_ifs with hbig
 · exact ⟨hw,fun _ => ⟨hl,rfl,rfl,rfl⟩⟩
 · refine ⟨hw.setPkt fun _ => ?_,by simp⟩
   have hsize := hw.size_eq hl
   have hlt := hw.bytes_lt hl
   rw [← hsize] at hlt ⊢
   refine (total_packetInit ?_ hlt).1
   simp only [add32,Config.roomSize] at hbig hlen
   omega

variable {r : Option Nat × World m n}

section

variable (hl : w.Live p h)

include hl

/-- One of the two packets goes: the new one if the copying failed, else the old one. -/
lemma Ok.replace (hx : w.Live p x) (hne : x ≠ h) {offset srcoffset dstoffset : Nat}
 (hr : w.replace t p h x offset srcoffset dstoffset len = some r) :
 Ok r.2 ∧ (r.1 = none → Same w r.2 p h) := by
 have hback : Ok (w.free t p x) ∧ Same w (w.free t p x) p h :=
  ⟨(hw.free hx t).1,(hw.free hx t).2 p h (by simpa using Ne.symm hne) hl⟩
 obtain ⟨ok,-,hr⟩ := bind_eq_some_iff.mp hr
 cases ok with
 | false =>
  cases hr
  exact ⟨hback.1,fun _ => hback.2⟩
 | true =>
  obtain ⟨ok,-,rfl⟩ := map_eq_some_iff.mp hr
  cases ok with
  | false => exact ⟨hback.1,fun _ => hback.2⟩
  | true => exact ⟨(hw.free hl t).1,by simp⟩

/-- A new packet is allocated, and `odp_packet_add_data` or `odp_packet_rem_data` goes on with
both. -/
lemma Ok.alloc_replace (size offset srcoffset dstoffset len : Nat)
 (hr : (match w.alloc t p size with
  | (none,w) => some (none,w)
  | (some x,w) => w.replace t p h x offset srcoffset dstoffset len) = some r) :
 Ok r.2 ∧ (r.1 = none → Same w r.2 p h) := by
 obtain ⟨hok,hsame,hnew⟩ := hw.alloc t p size
 rcases ha : w.alloc t p size with ⟨_ | x,w1⟩ <;> rw [ha] at hok hsame hnew hr
 · cases hr
   exact ⟨hok,fun _ => hsame p h hl⟩
 · obtain ⟨hx,hfresh⟩ := hnew x rfl
   have hne : x ≠ h := fun e => hfresh (e ▸ hl)
   obtain ⟨h1,h2⟩ := hok.replace (hsame p h hl).live hx hne hr
   exact ⟨h1,fun hnone => (hsame p h hl).trans (h2 hnone)⟩

lemma Ok.addData {offset : Nat}
 (hr : w.addData t p h offset len = some r) : Ok r.2 ∧ (r.1 = none → Same w r.2 p h) := by
 simp only [World.addData] at hr
 split at hr
 · cases hr
   exact ⟨hw,fun _ => ⟨hl,rfl,rfl,rfl⟩⟩
 · exact hw.alloc_replace hl _ _ _ _ _ hr

lemma Ok.remData {offset : Nat}
 (hr : w.remData t p h offset len = some r) : Ok r.2 ∧ (r.1 = none → Same w r.2 p h) := by
 simp only [World.remData] at hr
 split at hr
 · cases hr
   exact ⟨hw,fun _ => ⟨hl,rfl,rfl,rfl⟩⟩
 · exact hw.alloc_replace hl _ _ _ _ _ hr

lemma Ok.odpCopy (hsize : ∀ x ∈ (w.alloc t q (w.pkt p h).frameLen).1,
 (w.alloc t q (w.pkt p h).frameLen).2.bytes q x = w.bytes p h)
 (hr : w.odpCopy t p h q = some r) : Ok r.2 ∧ (r.1 = none → Same w r.2 p h) := by
 obtain ⟨hok,hsame,hnew⟩ := hw.alloc t q (w.pkt p h).frameLen
 simp only [World.odpCopy] at hr
 rcases ha : w.alloc t q (w.pkt p h).frameLen with ⟨_ | x,w1⟩ <;>
  rw [ha] at hok hsame hnew hsize hr
 · cases hr
   exact ⟨hok,fun _ => hsame p h hl⟩
 · obtain ⟨hx,hfresh⟩ := hnew x rfl
   have hne : (p,h) ≠ (q,x) := fun e => hfresh (by cases e; exact hl)
   have hold := hsame p h hl
   have hok' : Ok (w1.setPkt q x (w1.pkt p h)) := hok.setPkt fun _ => by
    rw [hold.pkt,hw.total p h hl,hsize x rfl]
   have hkeep : Same w (w1.setPkt q x (w1.pkt p h)) p h := by
    refine ⟨hold.live,hold.cfg,hold.buf,?_⟩
    by_cases hq : p = q
    · subst hq
      have hhx : h ≠ x := fun e => hne (by rw [e])
      simpa [hhx] using hold.pkt
    · simpa [hq] using hold.pkt
   obtain ⟨ok,-,rfl⟩ := map_eq_some_iff.mp hr
   cases ok with
   | true => exact ⟨hok',by simp⟩
   | false =>
    obtain ⟨h1,h2⟩ := hok'.free hx t
    exact ⟨h1,fun _ => hkeep.trans (h2 p h hne hkeep.live)⟩

end

end

end Ok

/-- The defects stay away: no reset wraps around, no packet is copied to a buffer of another size,
and a call that moves an end of the data does not return the end of the segments. -/
def SizesOk (w : World m n) : Call m n → Prop
 | .reset p _ len => (w.cfg p).roomSize+len.toNat < 2^32
 | .pushHead p h len =>
  len.toNat ≤ (w.pkt p h).headroom → (w.pkt p h).headroom < w.bytes p h+len.toNat
 | .pullHead p h len =>
  len.toNat ≤ (w.pkt p h).frameLen → (w.pkt p h).headroom+len.toNat < w.bytes p h
 | .pushTail p h len => len.toNat ≤ (w.pkt p h).tailroom →
  (w.pkt p h).headroom+(w.pkt p h).frameLen < w.bytes p h
 | .pullTail p h len => len.toNat ≤ (w.pkt p h).frameLen →
  (w.pkt p h).headroom+(w.pkt p h).frameLen < w.bytes p h+len.toNat
 | .copy t p h q => ∀ x ∈ (w.alloc t q (w.pkt p h).frameLen).1,
  (w.alloc t q (w.pkt p h).frameLen).2.bytes q x = w.bytes p h
 | _ => True

instance (w : World m n) : ∀ c, Decidable (SizesOk w c)
 | .reset p _ len => inferInstanceAs (Decidable ((w.cfg p).roomSize+len.toNat < 2^32))
 | .copy t p h q => inferInstanceAs (Decidable (∀ x ∈ (w.alloc t q (w.pkt p h).frameLen).1,
  (w.alloc t q (w.pkt p h).frameLen).2.bytes q x = w.bytes p h))
 | .pushHead .. | .pullHead .. | .pushTail .. | .pullTail .. => inferInstanceAs (Decidable (_ → _))
 | .alloc .. | .allocMulti .. | .free .. | .addData .. | .remData .. =>
  inferInstanceAs (Decidable True)

/-- Every call keeps the sums, and a call that reports failure leaves its packet alone. -/
lemma Ok.call {w w' : World m n} (hw : Ok w) {c : Call m n} (hcaller : CallerOk w c)
 (hsizes : SizesOk w c) {ok : Bool} (hc : w.call c = some (ok,w')) :
 Ok w' ∧ (ok = false → ∀ k ∈ c.given, Same w w' k.1 k.2) := by
 have hgive : ∀ {p : Fin m} {h : Nat}, c.given = some (p,h) → w.Live p h := fun hg =>
  hcaller _ hg
 cases c with
 | alloc t p len =>
  cases hc
  exact ⟨(hw.alloc t p len.toNat).1,by simp⟩
 | allocMulti t p len num =>
  cases hc
  exact ⟨hw.allocMulti t p len.toNat num,by simp⟩
 | free t p h =>
  cases hc
  exact ⟨(hw.free (hgive rfl) t).1,by simp⟩
 | reset p h len =>
  have hr := hw.reset (hgive rfl) hsizes
  rw [show w.reset p h len.toNat = (ok,w') from some.inj hc] at hr
  simpa using hr
 | pushHead p h len =>
  have hl := hgive rfl
  have hr := hw.shift hl fun (hlen : len.toNat ≤ (w.pkt p h).headroom) =>
   ⟨PktHdr.total_pushHead (hw.total_lt hl) hlen,zero_le _,by
    have := hsizes hlen
    have := hw.total_lt hl
    simp only [PktHdr.total,PktHdr.pushHead,sub32] at *
    omega⟩
  cases hc
  simpa [pushHead] using hr
 | pullHead p h len =>
  have hl := hgive rfl
  have hr := hw.shift hl fun (hlen : len.toNat ≤ (w.pkt p h).frameLen) =>
   ⟨PktHdr.total_pullHead (hw.total_lt hl) hlen,zero_le _,by
    have := hsizes hlen
    have := hw.total_lt hl
    simp only [PktHdr.total,PktHdr.pullHead,add32] at *
    omega⟩
  cases hc
  simpa [pullHead] using hr
 | pushTail p h len =>
  have hl := hgive rfl
  have hr := hw.shift hl fun (hlen : len.toNat ≤ (w.pkt p h).tailroom) =>
   ⟨PktHdr.total_pushTail (hw.total_lt hl) hlen,PktHdr.frameLen_le_pushTail (hw.total_lt hl) hlen,
    hsizes hlen⟩
  cases hc
  simpa [pushTail] using hr
 | pullTail p h len =>
  have hl := hgive rfl
  have hr := hw.shift hl fun (hlen : len.toNat ≤ (w.pkt p h).frameLen) =>
   ⟨PktHdr.total_pullTail (hw.total_lt hl) hlen,le_refl _,by
    have := hsizes hlen
    have := hw.total_lt hl
    simp only [PktHdr.total,PktHdr.pullTail,sub32] at *
    omega⟩
  cases hc
  simpa [pullTail] using hr
 | addData t p h offset len =>
  obtain ⟨r,hr,heq⟩ := map_eq_some_iff.mp hc
  cases heq
  simpa using hw.addData (hgive rfl) hr
 | remData t p h offset len =>
  obtain ⟨r,hr,heq⟩ := map_eq_some_iff.mp hc
  cases heq
  simpa using hw.remData (hgive rfl) hr
 | copy t p h q =>
  obtain ⟨r,hr,heq⟩ := map_eq_some_iff.mp hc
  cases heq
  simpa using hw.odpCopy (hgive rfl) hsizes hr

lemma init_ok {stride : PoolType → Nat} {params : Fin m → PoolParam} {w : World m n}
 (h : Init stride params w) : Ok w := by
 have hcreate : ∀ p, ∃ cfg, poolConfig stride (params p) = some cfg ∧ w.cfg p = cfg ∧
  Inv (w.pool p) ∧ w.pool p = .init cfg := by
  intro p
  obtain ⟨cfg,hcfg,hpos,hp⟩ := h p
  refine ⟨cfg,hcfg,?_,hp ▸ init_inv (poolConfig_ok hcfg) hpos,hp⟩
  simp [World.cfg,hp,State.init,create_eq (poolConfig_ok hcfg) hpos,Pool.blank]
 have hnone : ∀ p x, ¬ w.Live p x := by
  rintro p x ⟨-,hx⟩
  obtain ⟨cfg,-,-,-,hp⟩ := hcreate p
  simp [hp,State.init] at hx
 refine ⟨fun p => ?_,fun p t => ?_,fun p htype => ?_,fun p x hl => absurd hl (hnone p x),
  fun p x hl => absurd hl (hnone p x)⟩
 · obtain ⟨_,-,-,hi,-⟩ := hcreate p
   exact hi
 · obtain ⟨cfg,-,-,-,hp⟩ := hcreate p
   rw [hp]
   rfl
 · obtain ⟨cfg,hcfg,heq,-,-⟩ := hcreate p
   rw [heq] at htype ⊢
   exact poolConfig_packet hcfg htype

/-- **Packet geometry.** If the defects stay away, headroom, data and tailroom of each live packet
add up to its segments, so every offset in the data lies in a block of it; a call that fails leaves
its packet as it was. -/
theorem packet_geometry {stride : PoolType → Nat} {params : Fin m → PoolParam} {w : World m n}
 (h : Transition.Reach (Init stride params) step (fun w c => CallerOk w c ∧ SizesOk w c) w) :
 (∀ p x, w.Live p x → (w.pkt p x).headroom+(w.pkt p x).frameLen+(w.pkt p x).tailroom =
  (w.buf p x).segcount*(w.cfg p).hdrSegSize ∧
  ∀ offset, offset < (w.pkt p x).frameLen → ∃ a blk,
   (w.pkt p x).packetMap (w.seg p x) offset = some a ∧
   (w.buf p x).blks[a.segIndex]? = some blk ∧ a.segOffset < (w.cfg p).hdrSegSize) ∧
 ∀ c w', CallerOk w c → SizesOk w c → w.call c = some (false,w') → ∀ k ∈ c.given,
  w'.Live k.1 k.2 ∧ w'.pkt k.1 k.2 = w.pkt k.1 k.2 ∧ w'.buf k.1 k.2 = w.buf k.1 k.2 := by
 have hw : Ok w := by
  refine h.invariant (fun _ => init_ok) ?_
  rintro w w' c hw ⟨hcaller,hsizes⟩ hs
  obtain ⟨⟨ok,w''⟩,hc,rfl⟩ := map_eq_some_iff.mp hs
  exact (hw.call hcaller hsizes hc).1
 refine ⟨fun p x hl => ⟨hw.total p x hl,fun offset hoff => ?_⟩,?_⟩
 · have htotal := hw.total p x hl
   simp only [PktHdr.total] at htotal
   obtain ⟨a,ha,hidx,hoff⟩ := PktHdr.packetMap_mem _ (w.seg p x) _ (hw.bytes_lt hl) hoff.le
    (show _ < w.bytes p x by omega)
   have hlen : (w.buf p x).segcount = (w.buf p x).blks.length := by
    have := (hw.inv p).inlined_of_hdrdata (h := x) (hw.blocks p x hl)
    simp [BufHdr.segcount,this]
   rw [World.seg,hlen] at hidx
   exact ⟨a,(w.buf p x).blks[a.segIndex],ha,List.getElem?_eq_getElem hidx,hoff⟩
 · intro c w' hcaller hsizes hc k hk
   have hsame := (hw.call hcaller hsizes hc).2 rfl k hk
   exact ⟨hsame.live,hsame.pkt,hsame.buf⟩

/-- One packet pool, as `odp_pool_create` makes it for three packets, and one thread. -/
def demoConfig : Config := ⟨.packet,100,4,3,4,1792,1792,1792,128,64,10560⟩

def demoInit : World 1 1 → Prop := Init (fun _ => 64) fun _ => ⟨.packet,3,100,0⟩

def demo : World 1 1 := ⟨fun _ => .init demoConfig,fun _ _ => ⟨0,0,0⟩⟩

lemma demo_init : demoInit demo := by
 have hcfg : poolConfig (fun _ => 64) ⟨.packet,3,100,0⟩ = some demoConfig := by decide
 exact fun _ => ⟨demoConfig,hcfg,by decide,rfl⟩

/-- A packet of two segments is cut short, data is put in front of it, and a copy is made of it
in a buffer of two segments that came back from the cache. -/
theorem packet_geometry_two_segments : ∃ w : World 1 1,
 Transition.Reach demoInit step (fun w c => CallerOk w c ∧ SizesOk w c) w ∧
 (w.Live 0 1 ∧ w.Live 0 2 ∧ (w.pkt 0 2).frameLen = 120) ∧
 (w.pkt 0 2).headroom+(w.pkt 0 2).frameLen+(w.pkt 0 2).tailroom =
  (w.buf 0 2).segcount*(w.cfg 0).hdrSegSize := by
 refine Transition.exists_of_start demo_init
  [.alloc 0 0 3000,.alloc 0 0 3000,.free 0 0 2,.pullTail 0 1 2900,.pushHead 0 1 20,.copy 0 0 1 0]
  (fun w => w.Live 0 1 ∧ w.Live 0 2 ∧ (w.pkt 0 2).frameLen = 120) (by decide)
  fun w hw htest => ?_
 exact ⟨htest,((packet_geometry hw).1 0 2 htest.2.1).1⟩

/-- A reset to almost 4 GiB is accepted; the copy of a packet that was cut short gets the tailroom
of a larger buffer; and a packet that fills its segment loses its data to a call that returns
`NULL`. -/
theorem packet_geometry_broken :
 (∃ w : World 1 1, Transition.Reach demoInit step CallerOk w ∧ w.Live 0 1 ∧
  ¬ (w.pkt 0 1).headroom+(w.pkt 0 1).frameLen+(w.pkt 0 1).tailroom =
   (w.buf 0 1).segcount*(w.cfg 0).hdrSegSize) ∧
 (∃ w : World 1 1, Transition.Reach demoInit step CallerOk w ∧ w.Live 0 2 ∧
  ¬ (w.pkt 0 2).headroom+(w.pkt 0 2).frameLen+(w.pkt 0 2).tailroom =
   (w.buf 0 2).segcount*(w.cfg 0).hdrSegSize) ∧
 ∃ w : World 1 1, Transition.Reach demoInit step CallerOk w ∧ CallerOk w (.pullHead 0 1 1664) ∧
  (w.pkt 0 1).frameLen = 1664 ∧
  (w.call (.pullHead 0 1 1664)).map (fun r => (r.1,(r.2.pkt 0 1).frameLen)) = some (false,0) := by
 have h0 : Transition.Reach demoInit step CallerOk demo := .start demo_init
 refine ⟨?_,?_,?_⟩
 · exact h0.exists_of_run [.alloc 0 0 100,.reset 0 1 4294967196] _ (by decide)
 · exact h0.exists_of_run [.alloc 0 0 3000,.pullTail 0 1 2900,.copy 0 0 1 0] _ (by decide)
 · exact h0.exists_of_run [.alloc 0 0 1600,.pushTail 0 1 64] _ (by decide)

end Packages.Packet

import Packages.Lib.Transition
import Packages.Lib.Word32

/-!
# The receive ring of `socket_mmap.c`

The kernel and `pkt_mmap_v2_rx` go round a ring of frames, each on its own; a frame belongs to the
side that its status word names. The state also records the frames the kernel put in, and what
became of those that were read.
-/

namespace Packages.MmapRing

open Function List

variable {α : Type}

/-- `struct tpacket2_hdr` and the data behind it. -/
structure Frame (α : Type) where
 tpStatus : BitVec 32
 data : α

def tpStatusKernel : BitVec 32 := 0

def tpStatusUser : BitVec 32 := 1

def mmapRxKernelReady (hdr : Frame α) : Bool := hdr.tpStatus &&& tpStatusUser == tpStatusUser

def mmapRxUserReady (hdr : Frame α) : Frame α := { hdr with tpStatus := tpStatusKernel }

inductive Fate
 | dropped
 /-- by the classifier, to a queue or nowhere -/
 | diverted
 | returned
 deriving DecidableEq

/-- The local variables of `pkt_mmap_v2_rx`; `first` frames were read before the call, and the
classifier is not switched during it. -/
structure Rx where
 cls : Bool
 len : Nat
 i : Nat
 nbRx : Nat
 first : Nat
 deriving DecidableEq

/-- Outside a call with what the last one left, at the head of the loop, or before the frame goes
back. -/
inductive Pc (α : Type)
 | idle (r : Rx)
 | loop (r : Rx)
 | give (r : Rx) (x : α) (fate : Fate)
 deriving DecidableEq

/-- `frameNum` is the local variable during a call. -/
structure State (α : Type) where
 rd : Nat → Frame α
 frameNum : Nat
 pktTable : Nat → Option α
 pc : Pc α
 kernel : Nat
 put : List α
 seen : List (α × Fate)

/-- The loop body on a frame that holds `x`. `ok` says that a packet could be made of it, or with
classification that it comes back; a failed packet leaves no valid entry. -/
def Rx.frame (own : α → Bool) (r : Rx) (table : Nat → Option α) (x : α) (ok : Bool) :
 Rx × (Nat → Option α) × Fate :=
 if own x then (r,table,.dropped)
 else if r.cls then
  if ok then ({ r with nbRx := (r.nbRx+1)%2^8, i := r.i+1 },update table r.nbRx (some x),.returned)
  else ({ r with i := r.i+1 },table,.diverted)
 else if ok then ({ r with nbRx := (r.nbRx+1)%2^8, i := r.i+1 },update table r.i (some x),.returned)
 else (r,update table r.i none,.dropped)

inductive Action (α : Type)
 | put (x : α) (status : BitVec 32)
 | recv (cls : Bool) (len : Nat)
 | next (ok : Bool)

/-- `own` are the frames with the source address of the interface. -/
def step (own : α → Bool) (rdNum : Nat) (s : State α) : Action α → Option (State α)
 | .put x status =>
  if (s.rd s.kernel).tpStatus = tpStatusKernel ∧ status &&& tpStatusUser = tpStatusUser then
   some { s with
    rd := update s.rd s.kernel ⟨status,x⟩, kernel := (s.kernel+1)%rdNum, put := s.put++[x] }
  else none
 | .recv cls len =>
  match s.pc with
  | .idle _ => some { s with pc := .loop ⟨cls,len,0,0,s.seen.length⟩ }
  | _ => none
 | .next ok =>
  match s.pc with
  | .idle _ => none
  | .loop r =>
   if r.i < r.len ∧ mmapRxKernelReady (s.rd s.frameNum) then
    let x := (s.rd s.frameNum).data
    let y := r.frame own s.pktTable x ok
    some { s with pc := .give y.1 x y.2.2, pktTable := y.2.1 }
   else some { s with pc := .idle r }
  | .give r x fate => some { s with
    rd := update s.rd s.frameNum (mmapRxUserReady (s.rd s.frameNum))
    frameNum := (s.frameNum+1)%rdNum, pc := .loop r, seen := s.seen++[(x,fate)] }

/-- `nb_rx` has 8 bits. -/
def Short (_ : State α) : Action α → Prop
 | .recv _ len => len < 2^8
 | _ => True

instance (s : State α) : ∀ a, Decidable (Short s a)
 | .recv _ _ => inferInstanceAs (Decidable (_ < _))
 | .put _ _ | .next _ => inferInstanceAs (Decidable True)

def Init (s : State α) : Prop := (∀ k, (s.rd k).tpStatus = tpStatusKernel) ∧
 s.pc = .idle ⟨false,0,0,0,0⟩ ∧ s.frameNum = 0 ∧ s.kernel = 0 ∧ s.put = [] ∧ s.seen = []

-- One call

/-- The packets of these frames. -/
def got (seen : List (α × Fate)) : List α := (seen.filter (·.2 = .returned)).map Prod.fst

/-- The call has stored these packets. -/
structure Rx.Ok (r : Rx) (table : Nat → Option α) (pkts : List α) : Prop where
 len : r.i ≤ r.len ∧ r.len < 2^8
 nbRx : r.nbRx = pkts.length
 i : pkts.length ≤ r.i ∧ (r.cls = false → r.i = pkts.length)
 table : ∀ k, k < pkts.length → table k = pkts[k]?

lemma Rx.Ok.frame {r : Rx} {table : Nat → Option α} {pkts : List α} (h : r.Ok table pkts)
 (hi : r.i < r.len) (own : α → Bool) (x : α) (ok : Bool) : let y := r.frame own table x ok
 y.1.Ok y.2.1 (pkts++got [(x,y.2.2)]) ∧ y.1.first = r.first := by
 obtain ⟨hlen,hnb,hexact,htable⟩ := h
 have hbehind : ∀ j y k, pkts.length ≤ j → k < pkts.length → update table j y k = pkts[k]? := by
  intro j y k hj hk
  rw [update_of_ne (by omega)]
  exact htable k hk
 have hadd : ∀ k, k < (pkts++[x]).length → update table pkts.length (some x) k =
  (pkts++[x])[k]? := by
  intro k hk
  by_cases hlast : k < pkts.length
  · rw [hbehind _ _ k le_rfl hlast,getElem?_append_left hlast]
  · obtain rfl : k = pkts.length := by rw [length_append,length_singleton] at hk; omega
    rw [update_self,getElem?_concat_length]
 have hnb' : (r.nbRx+1)%2^8 = (pkts++[x]).length := by
  rw [length_append,length_singleton]
  omega
 fun_cases Rx.frame own r table x ok with
 | case1 => exact ⟨by simpa [got] using ⟨hlen,hnb,hexact,htable⟩,rfl⟩
 | case2 _ hcls => exact ⟨⟨⟨hi,hlen.2⟩,hnb',by simp [got,hcls,hexact.1],hnb ▸ hadd⟩,rfl⟩
 | case3 _ hcls =>
  exact ⟨by simpa [got] using ⟨⟨hi,hlen.2⟩,hnb,⟨Nat.le_succ_of_le hexact.1,by simp [hcls]⟩,htable⟩,
   rfl⟩
 | case4 _ hcls =>
  have hcls := hexact.2 (by simpa using hcls)
  exact ⟨⟨⟨hi,hlen.2⟩,hnb',by simp [got,hcls],hcls ▸ hadd⟩,rfl⟩
 | case5 => exact ⟨by simpa [got] using ⟨hlen,hnb,hexact,fun k => hbehind _ _ k hexact.1⟩,rfl⟩

-- The ring

/-- What the call has stored; a frame that is given back is the oldest one. -/
def PcOk (s : State α) : Pc α → Prop
 | .idle r | .loop r => r.first ≤ s.seen.length ∧ r.Ok s.pktTable (got (s.seen.drop r.first))
 | .give r x fate => (r.first ≤ s.seen.length ∧
  r.Ok s.pktTable (got (s.seen.drop r.first)++got [(x,fate)])) ∧ s.put[s.seen.length]? = some x

/-- Frame `k` of all is in slot `k % rdNum`: those between are the library's. -/
structure Inv (rdNum : Nat) (s : State α) : Prop where
 order : s.seen.map Prod.fst <+: s.put
 room : s.put.length ≤ s.seen.length+rdNum
 frameNum : s.frameNum = s.seen.length%rdNum
 kernel : s.kernel = s.put.length%rdNum
 full : ∀ k, s.seen.length ≤ k → k < s.put.length →
  mmapRxKernelReady (s.rd (k%rdNum)) = true ∧ s.put[k]? = some (s.rd (k%rdNum)).data
 free : ∀ k, s.put.length ≤ k → k < s.seen.length+rdNum → (s.rd (k%rdNum)).tpStatus = tpStatusKernel
 pc : PcOk s s.pc

variable {own : α → Bool} {rdNum : Nat} {s s' : State α}

lemma not_ready {hdr : Frame α} (h : hdr.tpStatus = tpStatusKernel) :
 mmapRxKernelReady hdr = false := by
 rw [mmapRxKernelReady,h]
 rfl

section

variable (h : Inv rdNum s) (hn : 0 < rdNum)

include h hn

lemma Inv.put {x : α} {status : BitVec 32} (hs : step own rdNum s (.put x status) = some s') :
 Inv rdNum s' := by
 have hlen : (s.put++[x]).length = s.put.length+1 := length_append
 have hle : s.seen.length ≤ s.put.length := by simpa using h.order.length_le
 simp only [step] at hs
 split at hs
 · next htest =>
   cases hs
   -- a full ring has the oldest frame of the library here
   have hroom : s.put.length < s.seen.length+rdNum := by
    by_contra hfull
    have hready := (h.full s.seen.length le_rfl (by omega)).1
    rw [← Nat.add_mod_right,← le_antisymm h.room (not_lt.mp hfull),← h.kernel,
     not_ready htest.1] at hready
    cases hready
   refine ⟨h.order.trans (prefix_append ..),by simpa [hlen] using hroom,
    h.frameNum,by simp [h.kernel],fun k hlow hhigh => ?_,fun k hlow hhigh => ?_,?_⟩
   · by_cases hk : k = s.put.length
     · simp only [hk,← h.kernel,update_self,getElem?_concat_length]
       exact ⟨by simpa [mmapRxKernelReady] using htest.2,trivial⟩
     · simp only [hlen] at hlow hhigh ⊢
       rw [update_of_ne (h.kernel ▸ mod_ne_of_near (by omega) (by omega)),
        getElem?_append_left (by omega)]
       exact h.full k hlow (by omega)
   · simp only [hlen] at hlow hhigh ⊢
     rw [update_of_ne (h.kernel ▸ (mod_ne_of_near (by omega) (by omega)).symm)]
     exact h.free k (by omega) hhigh
   · have hpc := h.pc
     show PcOk _ s.pc
     cases hp : s.pc with
     | idle | loop => rwa [hp] at hpc
     | give r x fate =>
      rw [hp] at hpc
      exact ⟨hpc.1,by rw [getElem?_append_left (List.getElem?_eq_some_iff.mp hpc.2).1]; exact hpc.2⟩
 · cases hs

omit hn in
lemma Inv.give {r : Rx} {x : α} {fate : Fate} {ok : Bool} (hp : s.pc = .give r x fate)
 (hs : step own rdNum s (.next ok) = some s') : Inv rdNum s' := by
 obtain ⟨⟨hfirst,hok⟩,hx⟩ : PcOk s (.give r x fate) := hp ▸ h.pc
 have hlt := (List.getElem?_eq_some_iff.mp hx).1
 have hlen : (s.seen++[(x,fate)]).length = s.seen.length+1 := length_append
 have hroom := h.room
 simp only [step,hp] at hs
 cases hs
 refine ⟨?_,by simp only [hlen]; omega,by simp [h.frameNum],h.kernel,fun k hlow hhigh => ?_,
  fun k hlow hhigh => ?_,by simp only [hlen]; omega,?_⟩
 · obtain ⟨rest,hrest⟩ := h.order
   rw [← hrest,← length_map (f := Prod.fst),getElem?_append_right le_rfl,Nat.sub_self] at hx
   cases rest with
   | nil => cases hx
   | cons y rest =>
    cases hx
    exact ⟨rest,by simp [← hrest]⟩
 · simp only [hlen] at hlow hhigh ⊢
   rw [update_of_ne (h.frameNum ▸ (mod_ne_of_near (by omega) (by omega)).symm)]
   exact h.full k (by omega) hhigh
 · simp only [hlen] at hhigh ⊢
   by_cases hk : k%rdNum = s.frameNum
   · rw [hk,update_self]
     rfl
   · rw [update_of_ne hk]
     refine h.free k hlow (lt_of_le_of_ne (by omega) ?_)
     rintro rfl
     exact hk (by rw [Nat.add_mod_right,h.frameNum])
 · show Rx.Ok _ _ (got ((s.seen++[(x,fate)]).drop r.first))
   rwa [drop_append_of_le_length hfirst,got,filter_append,map_append]

lemma Inv.step {a : Action α} (ha : Short s a) (hs : step own rdNum s a = some s') :
 Inv rdNum s' := by
 have hpc := h.pc
 cases a with
 | put x status => exact h.put hn hs
 | recv cls len =>
  simp only [MmapRing.step] at hs
  split at hs <;> cases hs
  exact { h with pc := ⟨le_rfl,⟨Nat.zero_le _,ha⟩,by simp [got],by simp [got],by simp [got]⟩ }
 | next ok =>
  cases hp : s.pc with
  | give r x fate => exact h.give hp hs
  | idle r => simp [MmapRing.step,hp] at hs
  | loop r =>
   rw [hp] at hpc
   simp only [MmapRing.step,hp] at hs
   split at hs <;> cases hs
   · next htest =>
     have hlt : s.seen.length < s.put.length := by
      by_contra hge
      have hfree := h.free s.seen.length (not_lt.mp hge) (by omega)
      rw [← h.frameNum] at hfree
      rw [not_ready hfree] at htest
      cases htest.2
     obtain ⟨hok,hfirst⟩ := hpc.2.frame htest.1 own (s.rd s.frameNum).data ok
     refine { h with pc := ⟨⟨hfirst.trans_le hpc.1,?_⟩,?_⟩ }
     · rw [hfirst]
       exact hok
     · rw [h.frameNum]
       exact (h.full _ le_rfl hlt).2
   · exact { h with pc := hpc }

end

/-- **The receive ring is a queue.** -/
theorem rx_ring_fifo (hn : 0 < rdNum) (h : Transition.Reach Init (step own rdNum) Short s) :
 (s.seen.map Prod.fst <+: s.put ∧ s.put.length ≤ s.seen.length+rdNum ∧
  ∀ k, s.seen.length ≤ k → k < s.put.length → s.put[k]? = some (s.rd (k%rdNum)).data) ∧
 (∀ r x fate, s.pc = .give r x fate → (s.rd s.frameNum).data = x) ∧
 ∀ r, s.pc = .idle r → r.nbRx = (got (s.seen.drop r.first)).length ∧
  ∀ k, k < r.nbRx → s.pktTable k = (got (s.seen.drop r.first))[k]? := by
 have hi : Inv rdNum s := by
  refine h.invariant ?_ fun _ _ _ hi ha hs => hi.step hn ha hs
  rintro s ⟨hrd,hpc,hframe,hkernel,hput,hseen⟩
  refine ⟨by simp [hseen],by simp [hput],by simp [hframe,hseen],by simp [hkernel,hput],by
   simp [hput],fun k _ _ => hrd _,?_⟩
  rw [hpc]
  exact ⟨Nat.zero_le _,
   ⟨le_rfl,by decide⟩,by simp [hseen,got],by simp [hseen,got],by simp [hseen,got]⟩
 have hpc := hi.pc
 refine ⟨⟨hi.order,hi.room,fun k hlow hhigh => (hi.full k hlow hhigh).2⟩,fun r x fate hp =>
  ?_,fun r hp => ?_⟩
 · rw [hp] at hpc
   have hdata := (hi.full _ le_rfl (List.getElem?_eq_some_iff.mp hpc.2).1).2
   rw [hpc.2,← hi.frameNum] at hdata
   exact (Option.some.inj hdata).symm
 · rw [hp] at hpc
   exact ⟨hpc.2.nbRx,fun k hk => hpc.2.table k (hpc.2.nbRx ▸ hk)⟩

/-- Two slots, where 9 stands for a frame of the interface itself. -/
theorem rx_ring_fifo_two_slots : ∃ s : State Nat, Transition.Reach Init (step (· == 9) 2) Short s ∧
 s.put = [7,9,8] ∧ ∀ k, k < 2 → s.pktTable k = [7,8][k]? := by
 refine Transition.exists_of_start
  (s := ⟨fun _ => ⟨0,0⟩,0,fun _ => none,.idle ⟨false,0,0,0,0⟩,0,[],[]⟩)
  (by simp [Init,tpStatusKernel])
   [.put 7 1,.put 9 5,.recv false 3,.next true,.next true,.next true,.put 8 1,
   .next true,.next true,.next true,.next true]
  (fun s => s.put = [7,9,8] ∧ got s.seen = [7,8] ∧ s.pc = .idle ⟨false,3,2,2,0⟩) (by decide)
  fun s hs hrun => ⟨hrun.1,?_⟩
 obtain ⟨-,-,hidle⟩ := rx_ring_fifo (by decide) hs
 have htable := (hidle _ hrun.2.2).2
 rwa [List.drop_zero,hrun.2.1] at htable

end Packages.MmapRing

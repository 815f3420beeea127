import Packages.Lib.Custody
import Packages.BufferPool.Layout
import Packages.BufferPool.Steps

/-!
# The books on a buffer pool

Every header is on the free list, in one thread's cache, with a caller, kept as packet template, or
with a thread inside a call; every block is free, in one header, or with a thread. The counters
differ from the lengths of the lists by what threads past a lock have not yet counted.
-/

namespace Packages.BufferPool

open List

variable {n : Nat}

def After.hdrs : After → List Nat
 | .flush rest => rest
 | _ => []

namespace Pc

/-- The headers the thread has in its hands. -/
def hdrs : Pc → List Nat
 | .grow h _ _ _ | .gotBlk h _ _ _ _ | .gotBuf h _ => [h]
 | .retBuf h after | .retBlkInc h after => h::after.hdrs
 | .retBufInc after => after.hdrs
 | .idle | .getBuf _ => []

/-- The block the thread has taken and not yet put into its header. -/
def blks : Pc → List Nat
 | .gotBlk _ b _ _ _ => [b]
 | _ => []

/-- What the thread still has to take off `bufcount` (negative: to add). -/
def bufOwed : Pc → Int
 | .gotBuf _ _ => 1
 | .retBufInc _ => -1
 | _ => 0

/-- What the thread still has to take off `blkcount`. -/
def blkOwed : Pc → Int
 | .gotBlk _ _ _ _ _ => 1
 | .retBlkInc _ _ => -1
 | _ => 0

end Pc

inductive HdrPlace (n : Nat) where
 | free
 | cache (t : Fin n)
 | allocated
 | template
 | hands (t : Fin n)
 /-- not a header of the pool -/
 | outside
 deriving DecidableEq

def hdrAt (s : State n) : HdrPlace n → Nat → Nat
 | .free, h => s.pool.bufFree.count h
 | .cache t, h => (s.cache t).count h
 | .allocated, h => (s.allocated h).toNat
 | .template, h => if s.pool.cfg.type = .packet ∧ h = 0 then 1 else 0
 | .hands t, h => (s.pc t).hdrs.count h
 | .outside, h => if s.pool.cfg.hdrNum ≤ h then 1 else 0

inductive BlkPlace (n : Nat) where
 | free
 | hdr (h : Nat)
 | hands (t : Fin n)
 /-- not a block of the pool -/
 | outside
 deriving DecidableEq

def blkAt (s : State n) : BlkPlace n → Nat → Nat
 | .free, b => s.pool.blkFree.count b
 | .hdr h, b => (s.pool.hdr h).blks.count b
 | .hands t, b => (s.pc t).blks.count b
 | .outside, b => if s.pool.cfg.blkNum ≤ b then 1 else 0

/-- The constants of the pool and the other threads' data stay as they are. -/
structure OnlyThread (t : Fin n) (s s' : State n) : Prop where
 cfg : s'.pool.cfg = s.pool.cfg
 cache : ∀ u, u ≠ t → s'.cache u = s.cache u
 pc : ∀ u, u ≠ t → s'.pc u = s.pc u

section Custody

variable {s s' : State n} {t : Fin n}

/-- A step of a thread keeps headers if it keeps their number over the free list, its own
cache, the callers and its own hands. -/
lemma custody_hdrs (h : Custody (hdrAt s)) (ho : OnlyThread t s s')
 (hsum : ∀ x, s'.pool.bufFree.count x+(s'.cache t).count x+(s'.allocated x).toNat +
  (s'.pc t).hdrs.count x =
  s.pool.bufFree.count x+(s.cache t).count x+(s.allocated x).toNat +
   (s.pc t).hdrs.count x) : Custody (hdrAt s') := by
 refine h.regroup (S := [.free,.cache t,.allocated,.hands t]) (by simp) ?_ ?_
 · intro p hp x
   cases p with
   | free | allocated => simp at hp
   | cache u => simp [hdrAt,ho.cache u (by simpa using hp)]
   | template | outside => simp [hdrAt,ho.cfg]
   | hands u => simp [hdrAt,ho.pc u (by simpa using hp)]
 · intro x
   have := hsum x
   simp only [map_cons,map_nil,sum_cons,hdrAt]
   omega

/-- Likewise for the blocks, over the free list, the one header the step writes and the
thread's own hands. -/
lemma custody_blks (h : Custody (blkAt s)) (ho : OnlyThread t s s') (x : Nat)
 (hhdr : ∀ y, y ≠ x → (s'.pool.hdr y).blks = (s.pool.hdr y).blks)
 (hsum : ∀ b, s'.pool.blkFree.count b+(s'.pool.hdr x).blks.count b+(s'.pc t).blks.count b =
  s.pool.blkFree.count b+(s.pool.hdr x).blks.count b+(s.pc t).blks.count b) :
 Custody (blkAt s') := by
 refine h.regroup (S := [.free,.hdr x,.hands t]) (by simp) ?_ ?_
 · intro p hp b
   cases p with
   | free => simp at hp
   | hdr y => simp [blkAt,hhdr y (by simpa using hp)]
   | hands u => simp [blkAt,ho.pc u (by simpa using hp)]
   | outside => simp [blkAt,ho.cfg]
 · intro b
   have := hsum b
   simp only [map_cons,map_nil,sum_cons,blkAt]
   omega

/-- A header in a thread's hands is with no other thread, in no cache and not a caller's. -/
lemma hands_unique (h : Custody (hdrAt s)) {x : Nat} (hx : x ∈ (s.pc t).hdrs) {u : Fin n}
 (hu : x ∈ (s.pc u).hdrs) : u = t := by
 have := h.unique (p := .hands u) (q := .hands t)
  (by simpa [hdrAt,count_eq_zero] using hu) (by simpa [hdrAt,count_eq_zero] using hx)
 simpa using this

lemma hands_not_allocated (h : Custody (hdrAt s)) {x : Nat} (hx : x ∈ (s.pc t).hdrs) :
 s.allocated x = false := by
 have := h.eq_zero (p := .hands t) (q := .allocated)
  (by simpa [hdrAt,count_eq_zero] using hx) (by simp)
 simpa [hdrAt] using this

end Custody

lemma sum_owed (f : Pc → Int) {s s' : State n} {t : Fin n} (hpc : ∀ u, u ≠ t → s'.pc u = s.pc u) :
 ∑ u, f (s'.pc u) = ∑ u, f (s.pc u)+(f (s'.pc t)-f (s.pc t)) := by
 have hrest : ∑ u ∈ Finset.univ.erase t, f (s'.pc u) = ∑ u ∈ Finset.univ.erase t, f (s.pc u) :=
  Finset.sum_congr rfl fun u hu => by rw [hpc u (Finset.ne_of_mem_erase hu)]
 rw [← Finset.add_sum_erase _ _ (Finset.mem_univ t),
  ← Finset.add_sum_erase _ (fun u => f (s.pc u)) (Finset.mem_univ t),hrest]
 omega

-- Sizes and segment counts

/-- The header whose size field the thread may have left behind its blocks. -/
def Pc.busy : Pc → Option Nat
 | .grow h _ _ _ | .gotBlk h _ _ _ _ | .retBuf h _ | .retBlkInc h _ => some h
 | _ => none

lemma Pc.mem_hdrs_of_busy {pc : Pc} {h : Nat} (hb : pc.busy = some h) : h ∈ pc.hdrs := by
 cases pc <;> simp_all [Pc.busy,Pc.hdrs]

/-- The size field says what the blocks hold. -/
def Settled (p : Pool) (h : Nat) : Prop :=
 p.cfg.hdrdata = false → (p.hdr h).size = (p.hdr h).blks.length*p.cfg.segSize

/-- The requested size passed the check in `buffer_alloc`. -/
def Fits (p : Pool) (totsize : Nat) : Prop := totsize ≤ p.cfg.maxSize+p.cfg.roomSize

def After.Ok (p : Pool) : After → Prop
 | .retry totsize => Fits p totsize
 | _ => True

/-- What a thread at `pc` can rely on: a growing header has room for the segments it still
needs, and `ret_buf` leaves the header settled. -/
def PcOk (p : Pool) : Pc → Prop
 | .grow h needed totsize _ | .gotBlk h _ needed totsize _ =>
  Fits p totsize ∧ 0 < needed ∧
   ((p.hdr h).blks.length*p.cfg.segSize : Int)+needed ≤ maxSeg*p.cfg.segSize ∧
   (p.cfg.type = .buffer → Settled p h ∧ needed ≤ p.cfg.segSize)
 | .getBuf totsize | .gotBuf _ totsize => Fits p totsize
 | .retBuf h after | .retBlkInc h after => (p.returnsBlks = true ∨ Settled p h) ∧ after.Ok p
 | .retBufInc after => after.Ok p
 | .idle => True

lemma PcOk.congr {p p' : Pool} {pc : Pc} (h : PcOk p pc) (hcfg : p'.cfg = p.cfg)
 (hhdr : ∀ x ∈ pc.hdrs, p'.hdr x = p.hdr x) : PcOk p' pc := by
 have hafter : ∀ a : After, a.Ok p → a.Ok p' := by
  intro a ha
  cases a <;> simp_all [After.Ok,Fits]
 cases pc <;> simp_all [PcOk,Fits,Settled,Pc.hdrs,Pool.returnsBlks]

/-- What holds of a header at any time. -/
structure HdrBase (p : Pool) (h : Nat) : Prop where
 inlined : (p.hdr h).inlined = p.cfg.inlined
 blks_le : (p.hdr h).blks.length ≤ maxSeg
 outside : p.cfg.hdrNum ≤ h → (p.hdr h).blks = []
 inlineSize : p.cfg.hdrdata = true → (p.hdr h).size = p.cfg.blkSize

lemma HdrBase.of_eq {p p' : Pool} {h : Nat} (hb : HdrBase p h) (hcfg : p'.cfg = p.cfg)
 (hin : (p'.hdr h).inlined = (p.hdr h).inlined) (hblks : (p'.hdr h).blks = (p.hdr h).blks)
 (hsize : (p'.hdr h).size = (p.hdr h).size) : HdrBase p' h where
 inlined := by rw [hin,hcfg,hb.inlined]
 blks_le := by rw [hblks]; exact hb.blks_le
 outside := by rw [hblks,hcfg]; exact hb.outside
 inlineSize := by rw [hsize,hcfg]; exact hb.inlineSize

structure HdrOk (s : State n) (h : Nat) : Prop extends HdrBase s.pool h where
 settled : Settled s.pool h ∨ ∃ t, (s.pc t).busy = some h

structure SizeInv (s : State n) : Prop where
 hdr : ∀ h, HdrOk s h
 pc : ∀ t, PcOk s.pool (s.pc t)

section Sizes

variable {s s' : State n} {t : Fin n}

/-- A step of a thread that writes the header `x` at most keeps the sizes, if it does so for
`x` and for its own position. -/
lemma SizeInv.step (h : SizeInv s) (ho : OnlyThread t s s') {x : Nat}
 (hfree : ∀ u, u ≠ t → x ∉ (s.pc u).hdrs)
 (hhdr : ∀ y, y ≠ x → s'.pool.hdr y = s.pool.hdr y)
 (hbusy : ∀ y, (s.pc t).busy = some y → y = x) (hx : HdrOk s' x) (hpc : PcOk s'.pool (s'.pc t)) :
 SizeInv s' where
 hdr y := by
  by_cases hy : y = x
  · exact hy ▸ hx
  obtain ⟨hbase,hset⟩ := h.hdr y
  refine ⟨hbase.of_eq ho.cfg (by rw [hhdr y hy]) (by rw [hhdr y hy]) (by rw [hhdr y hy]),?_⟩
  rcases hset with hset | ⟨u,hu⟩
  · left
    unfold Settled
    rw [hhdr y hy,ho.cfg]
    exact hset
  · have hut : u ≠ t := by
     rintro rfl
     exact hy (hbusy y hu)
    exact .inr ⟨u,by rw [ho.pc u hut,hu]⟩
 pc u := by
  by_cases hut : u = t
  · exact hut ▸ hpc
  · rw [ho.pc u hut]
    refine (h.pc u).congr ho.cfg fun y hy => hhdr y ?_
    rintro rfl
    exact hfree u hut hy

lemma SizeInv.settled_of (h : SizeInv s) {x : Nat} (hx : ∀ u, (s.pc u).busy ≠ some x) :
 Settled s.pool x := by
 rcases (h.hdr x).settled with hset | ⟨u,hu⟩
 · exact hset
 · exact absurd hu (hx u)

end Sizes

-- The invariant

structure Inv (s : State n) : Prop where
 cfg : ConfigOk s.pool.cfg
 pos : 0 < s.pool.cfg.hdrNum
 hdrs : Custody (hdrAt s)
 blks : Custody (blkAt s)
 bufcount : (s.pool.bufcount : Int) =
  (s.pool.bufFree.length+∑ t, (s.pc t).bufOwed)%2^32
 blkcount : (s.pool.blkcount : Int) =
  (s.pool.blkFree.length+∑ t, (s.pc t).blkOwed)%2^32
 sizes : SizeInv s

/-- What one step of thread `t` that works on header `x` has to show. -/
structure Effect (t : Fin n) (x : Nat) (s s' : State n) : Prop where
 only : OnlyThread t s s'
 hdr : ∀ y, y ≠ x → s'.pool.hdr y = s.pool.hdr y
 hdrs : ∀ y, s'.pool.bufFree.count y+(s'.cache t).count y+(s'.allocated y).toNat +
  (s'.pc t).hdrs.count y =
  s.pool.bufFree.count y+(s.cache t).count y+(s.allocated y).toNat +
   (s.pc t).hdrs.count y
 blks : ∀ b, s'.pool.blkFree.count b+(s'.pool.hdr x).blks.count b+(s'.pc t).blks.count b =
  s.pool.blkFree.count b+(s.pool.hdr x).blks.count b+(s.pc t).blks.count b
 bufcount : (s'.pool.bufcount : Int) = (s.pool.bufcount +
  (s'.pool.bufFree.length-s.pool.bufFree.length) +
  ((s'.pc t).bufOwed-(s.pc t).bufOwed))%2^32
 blkcount : (s'.pool.blkcount : Int) = (s.pool.blkcount +
  (s'.pool.blkFree.length-s.pool.blkFree.length) +
  ((s'.pc t).blkOwed-(s.pc t).blkOwed))%2^32
 free : ∀ u, u ≠ t → x ∉ (s.pc u).hdrs
 busy : ∀ y, (s.pc t).busy = some y → y = x
 hdrOk : HdrOk s' x
 pcOk : PcOk s'.pool (s'.pc t)

lemma Inv.step {s s' : State n} {t : Fin n} {x : Nat} (h : Inv s) (e : Effect t x s s') :
 Inv s' where
 cfg := e.only.cfg ▸ h.cfg
 pos := e.only.cfg ▸ h.pos
 hdrs := custody_hdrs h.hdrs e.only e.hdrs
 blks := custody_blks h.blks e.only x (fun y hy => by rw [e.hdr y hy]) e.blks
 bufcount := by
  rw [e.bufcount,sum_owed Pc.bufOwed e.only.pc,h.bufcount]
  omega
 blkcount := by
  rw [e.blkcount,sum_owed Pc.blkOwed e.only.pc,h.blkcount]
  omega
 sizes := h.sizes.step e.only e.free e.hdr e.busy e.hdrOk e.pcOk

end Packages.BufferPool

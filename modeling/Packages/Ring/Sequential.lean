import Packages.Ring.Invariant

/-!
# The ring in one thread

The four routines as one thread runs them, with the unrolled copying loops of `ENQUEUE_PTRS` and
`DEQUEUE_PTRS`, and the functions that count the entries.
-/

namespace Packages.Ring

open Function List
open Nat (zero_add mod_lt mod_eq_of_lt)

variable {α : Type}

-- Copying

/-- `count` rounds of `r->ring[idx++] = obj_table[i++]` -/
def putRun (objs : List α) : (count idx i : Nat) → (Nat → Option α) → Nat → Option α
 | 0, _, _, slot => slot
 | count+1, idx, i, slot => putRun objs count (idx+1) (i+1) (update slot idx objs[i]?)

/-- The loop that is unrolled four times. -/
def putBlocks (objs : List α) : (blocks idx i : Nat) → (Nat → Option α) → Nat → Option α
 | 0, _, _, slot => slot
 | blocks+1, idx, i, slot => putBlocks objs blocks (idx+4) (i+4) (update
  (update (update (update slot idx objs[i]?) (idx+1) objs[i+1]?)
   (idx+2) objs[i+2]?) (idx+3) objs[i+3]?)

def OdphRing.enqueuePtrs (r : OdphRing α) (objs : List α) (head n : Nat) : OdphRing α :=
 let idx := head &&& r.mask
 { r with slot :=
    if add32 idx n < r.size then
     putRun objs (n%4) (idx+n/4*4) (n/4*4) (putBlocks objs (n/4) idx 0 r.slot)
    else
     putRun objs (n-(r.size-idx)) 0 (r.size-idx) (putRun objs (r.size-idx) idx 0 r.slot) }

/-- `count` rounds of `obj_table[i++] = r->ring[idx++]` -/
def getRun (slot : Nat → Option α) : (count idx : Nat) → List (Option α)
 | 0, _ => []
 | count+1, idx => slot idx::getRun slot count (idx+1)

/-- The loop that is unrolled four times. -/
def getBlocks (slot : Nat → Option α) : (blocks idx : Nat) → List (Option α)
 | 0, _ => []
 | blocks+1, idx =>
  slot idx::slot (idx+1)::slot (idx+2)::slot (idx+3)::getBlocks slot blocks (idx+4)

def OdphRing.dequeuePtrs (r : OdphRing α) (head n : Nat) : List (Option α) :=
 let idx := head &&& r.mask
 if add32 idx n < r.size then
  getBlocks r.slot (n/4) idx++getRun r.slot (n%4) (idx+n/4*4)
 else getRun r.slot (r.size-idx) idx++getRun r.slot (n-(r.size-idx)) 0

-- Routines

/-- The sizes that `odph_ring_create` accepts. -/
def createAccepts (count : Nat) : Bool := sub32 count 1 &&& count = 0 ∧ count ≤ 0x0fffffff

namespace OdphRing

/-- An enqueue up to the new tail. -/
def enqueueBatch (r : OdphRing α) (objs : List α) (head n : Nat) : OdphRing α :=
 (r.setHead .prod (add32 head n)).enqueuePtrs objs head n

def spDoEnqueue (r : OdphRing α) (objs : List α) (b : Behavior) : Int × OdphRing α :=
 let head := (r.ht .prod).head
 let free := r.avail .prod head
 match batch .prod b objs.length free with
 | .error c => (c,r)
 | .ok n => (r.enqueued b free n,(r.enqueueBatch objs head n).setTail .prod (add32 head n))

/-- `__odph_ring_mp_do_enqueue`: the comparison of the head succeeds at once, and the routine hangs
(`none`) if it has to wait for the tail. -/
def mpDoEnqueue (r : OdphRing α) (objs : List α) (b : Behavior) : Option (Int × OdphRing α) :=
 let head := (r.ht .prod).head
 let free := r.avail .prod head
 match batch .prod b objs.length free with
 | .error c => some (c,r)
 | .ok n =>
  let r' := r.enqueueBatch objs head n
  if (r'.ht .prod).tail = head then
   some (r.enqueued b free n,r'.setTail .prod (add32 head n))
  else none

/-- What a dequeue of `n` entries returns. -/
def dequeued (b : Behavior) (n : Nat) : Int :=
 match b with
 | .fixed => 0
 | .vary => n

def scDoDequeue (r : OdphRing α) (max : Nat) (b : Behavior) :
 Int × List (Option α) × OdphRing α :=
 let head := (r.ht .cons).head
 match batch .cons b max (r.avail .cons head) with
 | .error c => (c,[],r)
 | .ok n =>
  let r' := r.setHead .cons (add32 head n)
  (dequeued b n,r'.dequeuePtrs head n,r'.setTail .cons (add32 head n))

def mcDoDequeue (r : OdphRing α) (max : Nat) (b : Behavior) :
 Option (Int × List (Option α) × OdphRing α) :=
 let head := (r.ht .cons).head
 match batch .cons b max (r.avail .cons head) with
 | .error c => some (c,[],r)
 | .ok n =>
  let r' := r.setHead .cons (add32 head n)
  if (r'.ht .cons).tail = head then
   some (dequeued b n,r'.dequeuePtrs head n,r'.setTail .cons (add32 head n))
  else none

def full (r : OdphRing α) : Bool :=
 sub32 (sub32 (r.ht .cons).tail (r.ht .prod).tail) 1 &&& r.mask = 0

def empty (r : OdphRing α) : Bool := (r.ht .cons).tail = (r.ht .prod).tail

def count (r : OdphRing α) : Nat := sub32 (r.ht .prod).tail (r.ht .cons).tail &&& r.mask

def freeCount (r : OdphRing α) : Nat :=
 sub32 (sub32 (r.ht .cons).tail (r.ht .prod).tail) 1 &&& r.mask

end OdphRing

inductive Access where
 | single
 | multi
 deriving DecidableEq, Repr

inductive Call (α : Type) where
 | enqueue (a : Access) (b : Behavior) (objs : List α)
 | dequeue (a : Access) (b : Behavior) (max : Nat)
 | full
 | empty
 | count
 | freeCount
 deriving DecidableEq, Repr

/-- What a call returns, and the objects a dequeue stores in the caller's table. -/
structure Reply (α : Type) where
 ret : Int
 objs : List (Option α)
 deriving DecidableEq, Repr

def OdphRing.call (r : OdphRing α) : Call α → Option (Reply α × OdphRing α)
 | .enqueue .single b objs => let x := r.spDoEnqueue objs b; some (⟨x.1,[]⟩,x.2)
 | .enqueue .multi b objs => (r.mpDoEnqueue objs b).map fun x => (⟨x.1,[]⟩,x.2)
 | .dequeue .single b max => let x := r.scDoDequeue max b; some (⟨x.1,x.2.1⟩,x.2.2)
 | .dequeue .multi b max => (r.mcDoDequeue max b).map fun x => (⟨x.1,x.2.1⟩,x.2.2)
 | .full => some (⟨if r.full then 1 else 0,[]⟩,r)
 | .empty => some (⟨if r.empty then 1 else 0,[]⟩,r)
 | .count => some (⟨r.count,[]⟩,r)
 | .freeCount => some (⟨r.freeCount,[]⟩,r)

/-- One call after the other. -/
def OdphRing.run (r : OdphRing α) : List (Call α) → Option (List (Reply α) × OdphRing α)
 | [] => some ([],r)
 | c::cs => (r.call c).bind fun x => (x.2.run cs).map fun y => (x.1::y.1,y.2)

-- Runs of the copying loops

lemma putRun_apply (objs : List α) (count idx i : Nat) (slot : Nat → Option α) (k : Nat) :
 putRun objs count idx i slot k =
  if idx ≤ k ∧ k < idx+count then objs[i+(k-idx)]? else slot k := by
 induction count generalizing idx i slot with
 | zero => rw [putRun,if_neg (by omega)]
 | succ count ih =>
  rw [putRun,ih]
  by_cases hk : k = idx
  · subst hk
    rw [if_neg (by omega),if_pos (by omega),update_self,Nat.sub_self,add_zero]
  · by_cases hin : idx+1 ≤ k ∧ k < idx+1+count
    · rw [if_pos hin,if_pos (by omega)]
      congr 1
      omega
    · rw [if_neg hin,if_neg (by omega),update_of_ne hk]

lemma putRun_add (objs : List α) (a b idx i : Nat) (slot : Nat → Option α) :
 putRun objs (a+b) idx i slot = putRun objs b (idx+a) (i+a) (putRun objs a idx i slot) := by
 induction a generalizing idx i slot with
 | zero => rw [zero_add]; rfl
 | succ a ih =>
  rw [add_right_comm,putRun,ih]
  congr 1 <;> omega

lemma putBlocks_eq (objs : List α) (blocks idx i : Nat) (slot : Nat → Option α) :
 putBlocks objs blocks idx i slot = putRun objs (blocks*4) idx i slot := by
 induction blocks generalizing idx i slot with
 | zero => rfl
 | succ blocks ih =>
  rw [putBlocks,ih,Nat.succ_mul]
  rfl

lemma getRun_eq (slot : Nat → Option α) (count idx : Nat) :
 getRun slot count idx = (range count).map fun j => slot (idx+j) := by
 induction count generalizing idx with
 | zero => rfl
 | succ count ih =>
  rw [getRun,ih,range_succ_eq_map,map_cons,map_map]
  congr 1
  apply map_congr_left
  intro j _
  congr 1
  omega

lemma getRun_add (slot : Nat → Option α) (a b idx : Nat) :
 getRun slot (a+b) idx = getRun slot a idx++getRun slot b (idx+a) := by
 induction a generalizing idx with
 | zero => rw [zero_add]; rfl
 | succ a ih =>
  rw [add_right_comm,getRun,ih]
  congr 3
  omega

lemma getBlocks_eq (slot : Nat → Option α) (blocks idx : Nat) :
 getBlocks slot blocks idx = getRun slot (blocks*4) idx := by
 induction blocks generalizing idx with
 | zero => rfl
 | succ blocks ih =>
  rw [getBlocks,ih,Nat.succ_mul,add_comm (blocks*4),getRun_add]
  rfl

-- Slots

section Slots

variable {r : OdphRing α} {k base n : Nat}

lemma and_mask (hk : k < 32) (hsize : r.size = 2^k) (base : Nat) :
 base%2^32 &&& r.mask = base%2^k := by
 have hdvd : 2^k ∣ 2^32 := pow_dvd_pow 2 (by omega)
 rw [mask_eq hsize,Nat.and_two_pow_sub_one_eq_mod,Nat.mod_mod_of_dvd _ hdvd]

/-- A batch of `n` starting at entry `base` fills the slots of these entries and no others. -/
lemma enqueuePtrs_slot (hk : k < 32) (hsize : r.size = 2^k) (hn : n < 2^k) (objs : List α)
 (x : Nat) (hx : x < 2^k) :
 (r.enqueuePtrs objs (base%2^32) n).slot x =
  if (x+2^k-base%2^k)%2^k < n then objs[(x+2^k-base%2^k)%2^k]?
  else r.slot x := by
 have hpos : 0 < 2^k := Nat.two_pow_pos k
 have hbig := two_pow_le hk
 have hlt := mod_lt base hpos
 simp only [OdphRing.enqueuePtrs,and_mask hk hsize,hsize]
 generalize base%2^k = idx at *
 have hadd : add32 idx n = idx+n := mod_eq_of_lt (by omega)
 have hdist : (x+2^k-idx)%2^k = if idx ≤ x then x-idx else x+2^k-idx := by
  split_ifs with hle
  · rw [show x+2^k-idx = x-idx+2^k by omega,Nat.add_mod_right,mod_eq_of_lt (by omega)]
  · exact mod_eq_of_lt (by omega)
 have hrun : putRun objs (n%4) (idx+n/4*4) (n/4*4) (putBlocks objs (n/4) idx 0 r.slot) =
  putRun objs n idx 0 r.slot := by
  rw [putBlocks_eq]
  have := putRun_add objs (n/4*4) (n%4) idx 0 r.slot
  rw [show n/4*4+n%4 = n by omega,zero_add] at this
  exact this.symm
 rw [hadd,hrun,hdist]
 by_cases hwrap : idx+n < 2^k
 · rw [if_pos hwrap,putRun_apply,zero_add]
   by_cases hle : idx ≤ x
   · rw [if_pos hle]
     by_cases hin : x-idx < n
     · rw [if_pos hin,if_pos (by omega)]
     · rw [if_neg hin,if_neg (by omega)]
   · rw [if_neg hle,if_neg (by omega),if_neg (by omega)]
 · rw [if_neg hwrap,putRun_apply,putRun_apply]
   by_cases hle : idx ≤ x
   · rw [if_neg (by omega : ¬ (0 ≤ x ∧ x < 0+(n-(2^k-idx)))),if_pos (by omega),if_pos hle,
      if_pos (by omega),zero_add]
   · rw [if_neg (by omega : ¬ (idx ≤ x ∧ x < idx+(2^k-idx))),if_neg hle]
     by_cases hin : x+2^k-idx < n
     · rw [if_pos hin,if_pos (by omega)]
       congr 1
       omega
     · rw [if_neg hin,if_neg (by omega)]

lemma mod_add_sub_mod {M j : Nat} (hj : j < M) (base : Nat) :
 ((base+j)%M+M-base%M)%M = j := by
 have hlt := mod_lt base (by omega : 0 < M)
 rw [← Nat.mod_add_mod]
 generalize base%M = b at *
 by_cases hwrap : b+j < M
 · rw [mod_eq_of_lt hwrap,show b+j+M-b = j+M by omega,Nat.add_mod_right,mod_eq_of_lt hj]
 · have hround : (b+j)%M = b+j-M := by
    rw [Nat.mod_eq_sub_mod (by omega),mod_eq_of_lt (by omega)]
   rw [hround,show b+j-M+M-b = j by omega,mod_eq_of_lt hj]

lemma add_sub_mod {M x : Nat} (hx : x < M) (base : Nat) :
 (base+(x+M-base%M)%M)%M = x := by
 have hlt := mod_lt base (by omega : 0 < M)
 rw [Nat.add_mod_mod,← Nat.mod_add_mod]
 generalize base%M = b at *
 rw [show b+(x+M-b) = x+M by omega,Nat.add_mod_right,mod_eq_of_lt hx]

section

variable (hk : k < 32) (hsize : r.size = 2^k) (hn : n < 2^k)

include hk hsize hn

lemma enqueuePtrs_in (objs : List α) {j : Nat} (hj : j < n) :
 (r.enqueuePtrs objs (base%2^32) n).slot ((base+j)%2^k) = objs[j]? := by
 have hdist := mod_add_sub_mod (show j < 2^k by omega) base
 rw [enqueuePtrs_slot hk hsize hn objs _ (mod_lt _ (Nat.two_pow_pos k)),hdist,if_pos hj]

lemma enqueuePtrs_out (objs : List α)
 {x : Nat} (hx : x < 2^k) (hout : ∀ j, j < n → (base+j)%2^k ≠ x) :
 (r.enqueuePtrs objs (base%2^32) n).slot x = r.slot x := by
 rw [enqueuePtrs_slot hk hsize hn objs x hx,if_neg]
 intro hin
 exact hout _ hin (add_sub_mod hx base)

lemma dequeuePtrs_eq :
 r.dequeuePtrs (base%2^32) n = (range n).map fun j => r.slot ((base+j)%2^k) := by
 have hpos : 0 < 2^k := Nat.two_pow_pos k
 have hbig := two_pow_le hk
 have hlt := mod_lt base hpos
 have hmod : ∀ j, (base+j)%2^k = (base%2^k+j)%2^k := fun j => by rw [Nat.mod_add_mod]
 simp only [OdphRing.dequeuePtrs,and_mask hk hsize,hsize,hmod]
 generalize base%2^k = idx at *
 have hadd : add32 idx n = idx+n := mod_eq_of_lt (by omega)
 rw [hadd,getBlocks_eq,← getRun_add,show n/4*4+n%4 = n by omega]
 by_cases hwrap : idx+n < 2^k
 · rw [if_pos hwrap,getRun_eq]
   apply map_congr_left
   intro j hj
   rw [mem_range] at hj
   rw [mod_eq_of_lt (by omega)]
 · rw [if_neg hwrap,getRun_eq,getRun_eq]
   apply ext_getElem?
   intro j
   rw [getElem?_append,length_map,length_range]
   simp only [getElem?_map]
   by_cases hj : j < 2^k-idx
   · rw [if_pos hj,getElem?_range hj,getElem?_range (by omega)]
     simp only [Option.map_some]
     rw [mod_eq_of_lt (by omega)]
   · rw [if_neg hj]
     by_cases hjn : j < n
     · rw [getElem?_range hjn,getElem?_range (by omega)]
       simp only [Option.map_some]
       rw [Nat.mod_eq_sub_mod (by omega),mod_eq_of_lt (by omega)]
       congr 2
       omega
     · rw [getElem?_eq_none (by simp; omega),getElem?_eq_none (by simp; omega)]
       rfl

end

end Slots

end Packages.Ring

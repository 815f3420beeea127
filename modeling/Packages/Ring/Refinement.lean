import Packages.Ring.Sequential

/-!
# A ring is a bounded list

In one thread every call on a ring answers like a list of capacity `size - 1`, for every size that
`odph_ring_create` accepts except zero, and however often the 32-bit indices come round.
-/

namespace Packages.Ring

open Function OdphRing List Nat Option

variable {α : Type}

-- The list

/-- A call on a list with room for `cap` objects. -/
def fifoCall (cap : Nat) (q : List α) : Call α → Reply α × List α
 | .enqueue _ .fixed objs =>
  if objs.length ≤ cap-q.length then (⟨0,[]⟩,q++objs) else (⟨-105,[]⟩,q)
 | .enqueue _ .vary objs =>
  let n := min objs.length (cap-q.length)
  (⟨n,[]⟩,q++objs.take n)
 | .dequeue _ .fixed max =>
  if max ≤ q.length then (⟨0,(q.take max).map some⟩,q.drop max) else (⟨-2,[]⟩,q)
 | .dequeue _ .vary max =>
  let n := min max q.length
  (⟨n,(q.take n).map some⟩,q.drop n)
 | .full => (⟨if q.length = cap then 1 else 0,[]⟩,q)
 | .empty => (⟨if q.length = 0 then 1 else 0,[]⟩,q)
 | .count => (⟨q.length,[]⟩,q)
 | .freeCount => (⟨(cap-q.length : Nat),[]⟩,q)

def fifoRun (cap : Nat) (q : List α) : List (Call α) → List (Reply α) × List α
 | [] => ([],q)
 | c::cs =>
  let x := fifoCall cap q c
  let y := fifoRun cap x.2 cs
  (x.1::y.1,y.2)

-- The ring holds the list

/-- Between two calls the ring holds the list `q`: `first` entries have been taken out. -/
structure Holds (k : Nat) (r : OdphRing α) (first : Nat) (q : List α) : Prop where
 size : r.size = 2^k
 watermark : r.watermark = 2^k
 cons : r.ht .cons = ⟨first%2^32,first%2^32⟩
 prod : r.ht .prod = ⟨(first+q.length)%2^32,(first+q.length)%2^32⟩
 room : q.length < 2^k
 slot : ∀ j, j < q.length → r.slot ((first+j)%2^k) = q[j]?

section Steps

variable {k first : Nat} {r : OdphRing α} {q : List α}

variable {avail max : Nat}

lemma batch_fits (d : Side) (b : Behavior) (h : max ≤ avail) :
 batch d b max avail = .ok max := if_neg (by omega)

lemma batch_fixed (d : Side) (h : avail < max) :
 batch d .fixed max avail = .error d.errno := if_pos h

lemma batch_vary (d : Side) (h : avail < max) :
 batch d .vary max avail = if avail = 0 then .error 0 else .ok avail := if_pos h

variable (h : Holds k r first q)

include h

lemma Holds.mp_eq_sp (objs : List α) (b : Behavior) :
 r.mpDoEnqueue objs b = some (r.spDoEnqueue objs b) := by
 have htail : ∀ n, ((r.enqueueBatch objs (r.ht .prod).head n).ht .prod).tail =
  (r.ht .prod).head := by
  intro n
  simp only [enqueueBatch,enqueuePtrs,setHead,update_self,h.prod]
 simp only [mpDoEnqueue,spDoEnqueue,htail]
 cases batch .prod b objs.length (r.avail .prod (r.ht .prod).head) <;> rfl

lemma Holds.mc_eq_sc (max : Nat) (b : Behavior) :
 r.mcDoDequeue max b = some (r.scDoDequeue max b) := by
 have htail : ∀ v, ((r.setHead .cons v).ht .cons).tail = (r.ht .cons).head := by
  intro v
  simp only [setHead,update_self,h.cons]
 simp only [mcDoDequeue,scDoDequeue,htail]
 cases batch .cons b max (r.avail .cons (r.ht .cons).head) <;> rfl

variable (hk : k < 32)

include hk

lemma Holds.free : r.avail .prod (r.ht .prod).head = 2^k-1-q.length := by
 have hbig := two_pow_le hk
 have hroom := h.room
 rw [avail,h.cons,h.prod,mask_eq h.size]
 simp only [add32,sub32]
 omega

lemma Holds.entries : r.avail .cons (r.ht .cons).head = q.length := by
 have hbig := two_pow_le hk
 have hroom := h.room
 rw [avail,h.cons,h.prod,sub32_mod (by omega) (by omega)]
 omega

variable {n : Nat}

lemma Holds.enqueued (hn : n ≤ 2^k-1-q.length) (b : Behavior) :
 r.enqueued b (2^k-1-q.length) n = dequeued b n := by
 have hbig := two_pow_le hk
 have hroom := h.room
 have hused : add32 (sub32 (add32 r.mask 1) (2^k-1-q.length)) n = q.length+1+n := by
  rw [mask_eq h.size]
  simp only [add32,sub32]
  omega
 simp only [OdphRing.enqueued]
 rw [h.watermark,if_neg (by omega)]
 cases b <;> rfl

variable {objs : List α}

lemma Holds.enqueue (hn : n ≤ 2^k-1-q.length) (hobjs : n ≤ objs.length) :
 Holds k ((r.enqueueBatch objs (r.ht .prod).head n).setTail .prod (add32 (r.ht .prod).head n))
  first (q++objs.take n) := by
 have hroom := h.room
 have hlen : (q++objs.take n).length = q.length+n := by
  rw [length_append,length_take,min_eq_left hobjs]
 have hnext : add32 (r.ht .prod).head n = (first+(q.length+n))%2^32 := by
  rw [h.prod,add32_mod,add_assoc]
 refine ⟨h.size,h.watermark,h.cons,?_,by omega,fun j hj => ?_⟩
 · simp only [setTail,enqueueBatch,enqueuePtrs,setHead,update_self,hnext,hlen]
 · have hsize : (r.setHead .prod (add32 (r.ht .prod).head n)).size = 2^k := h.size
   have hslot : (r.setHead .prod (add32 (r.ht .prod).head n)).slot = r.slot := rfl
   have hhead : (r.ht .prod).head = (first+q.length)%2^32 := by rw [h.prod]
   show ((r.setHead .prod (add32 (r.ht .prod).head n)).enqueuePtrs objs (r.ht .prod).head n).slot
    ((first+j)%2^k) = _
   generalize r.setHead .prod (add32 (r.ht .prod).head n) = r' at *
   rw [hhead]
   by_cases hold : j < q.length
   · rw [enqueuePtrs_out hk hsize (by omega) objs (mod_lt _ (Nat.two_pow_pos k)),
      getElem?_append_left hold]
     · rw [hslot]
       exact h.slot j hold
     · intro i hi
       exact (mod_ne_of_near (by omega) (by omega)).symm
   · obtain ⟨i,rfl⟩ : ∃ i, j = q.length+i := ⟨j-q.length,by omega⟩
     rw [← add_assoc,enqueuePtrs_in hk hsize (by omega) objs (by omega),
      getElem?_append_right (by omega),Nat.add_sub_cancel_left,getElem?_take,
      if_pos (by omega)]

lemma Holds.dequeue (hn : n ≤ q.length) :
 (r.setHead .cons (add32 (r.ht .cons).head n)).dequeuePtrs (r.ht .cons).head n =
  (q.take n).map some ∧
 Holds k ((r.setHead .cons (add32 (r.ht .cons).head n)).setTail .cons (add32 (r.ht .cons).head n))
  (first+n) (q.drop n) := by
 have hroom := h.room
 have hhead : (r.ht .cons).head = first%2^32 := by rw [h.cons]
 have hlen : (q.drop n).length = q.length-n := length_drop
 constructor
 · have hsize : (r.setHead .cons (add32 (r.ht .cons).head n)).size = 2^k := h.size
   have hslot : (r.setHead .cons (add32 (r.ht .cons).head n)).slot = r.slot := rfl
   generalize r.setHead .cons (add32 (r.ht .cons).head n) = r' at *
   rw [hhead,dequeuePtrs_eq hk hsize (by omega),hslot]
   apply ext_getElem?
   intro j
   rw [getElem?_map,getElem?_map,getElem?_take]
   by_cases hj : j < n
   · rw [getElem?_range hj,if_pos hj,getElem?_eq_getElem (by omega)]
     simp only [map_some]
     rw [h.slot j (by omega),getElem?_eq_getElem (by omega)]
   · rw [getElem?_eq_none (by simp; omega),if_neg hj]
     rfl
 · refine ⟨h.size,h.watermark,?_,?_,by omega,fun j hj => ?_⟩
   · simp only [setTail,setHead,update_self,hhead,add32_mod]
   · show r.ht .prod = _
     rw [h.prod,hlen,show first+n+(q.length-n) = first+q.length by omega]
   · rw [getElem?_drop,add_assoc]
     exact h.slot (n+j) (by omega)

lemma Holds.sp_ok {b : Behavior} (hb : batch .prod b objs.length (2^k-1-q.length) = .ok n)
 (hn : n ≤ 2^k-1-q.length) (hobjs : n ≤ objs.length) :
 (r.spDoEnqueue objs b).1 = dequeued b n ∧
  Holds k (r.spDoEnqueue objs b).2 first (q++objs.take n) := by
 simp only [spDoEnqueue,h.free hk,hb]
 exact ⟨h.enqueued hk hn b,h.enqueue hk hn hobjs⟩

lemma Holds.spDoEnqueue (a : Access) (b : Behavior) (objs : List α) :
 (⟨(r.spDoEnqueue objs b).1,[]⟩ : Reply α) = (fifoCall (2^k-1) q (.enqueue a b objs)).1 ∧
  Holds k (r.spDoEnqueue objs b).2 first (fifoCall (2^k-1) q (.enqueue a b objs)).2 := by
 have hfree := h.free hk
 by_cases hfits : objs.length ≤ 2^k-1-q.length
 · obtain ⟨hret,hholds⟩ := h.sp_ok hk (batch_fits .prod b hfits) hfits (le_refl _)
   rw [take_length] at hholds
   cases b with
   | fixed =>
    rw [fifoCall,if_pos hfits,hret]
    exact ⟨rfl,hholds⟩
   | vary =>
    simp only [fifoCall]
    rw [min_eq_left hfits,take_length,hret]
    exact ⟨rfl,hholds⟩
 · cases b with
   | fixed =>
    rw [fifoCall,if_neg hfits]
    simp only [OdphRing.spDoEnqueue,hfree,batch_fixed .prod (Nat.lt_of_not_le hfits)]
    exact ⟨rfl,h⟩
   | vary =>
    have hbatch := batch_vary .prod (Nat.lt_of_not_le hfits)
    simp only [fifoCall]
    rw [Nat.min_eq_right (by omega)]
    by_cases hzero : 2^k-1-q.length = 0
    · simp only [OdphRing.spDoEnqueue,hfree,hbatch]
      simp only [hzero,take_zero,append_nil]
      exact ⟨rfl,h⟩
    · rw [if_neg hzero] at hbatch
      obtain ⟨hret,hholds⟩ := h.sp_ok hk hbatch (le_refl _) (by omega)
      rw [hret]
      exact ⟨rfl,hholds⟩

lemma Holds.sc_ok {b : Behavior} (hb : batch .cons b max q.length = .ok n) (hn : n ≤ q.length) :
 (r.scDoDequeue max b).1 = dequeued b n ∧ (r.scDoDequeue max b).2.1 = (q.take n).map some ∧
  Holds k (r.scDoDequeue max b).2.2 (first+n) (q.drop n) := by
 simp only [scDoDequeue,h.entries hk,hb]
 exact ⟨trivial,h.dequeue hk hn⟩

lemma Holds.scDoDequeue (a : Access) (b : Behavior) (max : Nat) :
 (⟨(r.scDoDequeue max b).1,(r.scDoDequeue max b).2.1⟩ : Reply α) =
  (fifoCall (2^k-1) q (.dequeue a b max)).1 ∧
 ∃ first', Holds k (r.scDoDequeue max b).2.2 first'
  (fifoCall (2^k-1) q (.dequeue a b max)).2 := by
 have hentries := h.entries hk
 by_cases hfits : max ≤ q.length
 · obtain ⟨hret,hobjs,hholds⟩ := h.sc_ok hk (batch_fits .cons b hfits) hfits
   cases b with
   | fixed =>
    rw [fifoCall,if_pos hfits,hret,hobjs]
    exact ⟨rfl,_,hholds⟩
   | vary =>
    simp only [fifoCall]
    rw [min_eq_left hfits,hret,hobjs]
    exact ⟨rfl,_,hholds⟩
 · cases b with
   | fixed =>
    rw [fifoCall,if_neg hfits]
    simp only [OdphRing.scDoDequeue,hentries,batch_fixed .cons (Nat.lt_of_not_le hfits)]
    exact ⟨rfl,_,h⟩
   | vary =>
    have hbatch := batch_vary .cons (Nat.lt_of_not_le hfits)
    simp only [fifoCall]
    rw [Nat.min_eq_right (by omega)]
    by_cases hzero : q.length = 0
    · simp only [OdphRing.scDoDequeue,hentries,hbatch]
      simp only [hzero]
      exact ⟨rfl,_,h⟩
    · rw [if_neg hzero] at hbatch
      obtain ⟨hret,hobjs,hholds⟩ := h.sc_ok hk hbatch (le_refl _)
      rw [hret,hobjs]
      exact ⟨rfl,_,hholds⟩

lemma Holds.count : r.count = q.length ∧ r.freeCount = 2^k-1-q.length := by
 have hbig := two_pow_le hk
 have hroom := h.room
 have hmask : ∀ x, x &&& r.mask = x%2^k := by
  intro x
  rw [mask_eq h.size,and_two_pow_sub_one_eq_mod]
 constructor
 · rw [OdphRing.count,hmask,h.prod,h.cons,sub32_mod (by omega) (by omega),Nat.add_sub_cancel_left,
    mod_eq_of_lt hroom]
 · have hdvd : 2^k ∣ 2^32 := pow_dvd_pow 2 (by omega)
   have hsub : sub32 (sub32 (first%2^32) ((first+q.length)%2^32)) 1 =
    2^32-1-q.length := by
    simp only [sub32]
    omega
   obtain ⟨c,hc⟩ := hdvd
   rw [freeCount,hmask,h.prod,h.cons,hsub]
   have hcpos : 0 < c := pos_of_ne_zero fun h0 => by simp [h0] at hc
   rw [show 2^32-1-q.length = 2^k-1-q.length+2^k*(c-1) by
    rw [Nat.mul_sub]; have : 2^k ≤ 2^k*c := Nat.le_mul_of_pos_right _ hcpos
    omega,add_mul_mod_self_left,mod_eq_of_lt (by omega)]

lemma Holds.full : r.full = decide (q.length = 2^k-1) := by
 have hroom := h.room
 have hfree := (h.count hk).2
 show decide (r.freeCount = 0) = _
 congr 1
 apply propext
 omega

lemma Holds.empty : r.empty = decide (q.length = 0) := by
 have hbig := two_pow_le hk
 have hroom := h.room
 rw [OdphRing.empty,h.cons,h.prod]
 congr 1
 apply propext
 simp only
 omega

lemma Holds.enqueue_refused (a : Access) (hobjs : 2^k-1-q.length < objs.length) :
 r.call (.enqueue a .fixed objs) = some (⟨-105,[]⟩,r) := by
 have hsp : r.spDoEnqueue objs .fixed = (-105,r) := by
  simp only [OdphRing.spDoEnqueue,h.free hk,batch_fixed .prod hobjs]
  rfl
 cases a with
 | single => rw [OdphRing.call,hsp]
 | multi => rw [call,h.mp_eq_sp,map_some,hsp]

lemma Holds.dequeue_refused (a : Access)
 (hmax : q.length < max) : r.call (.dequeue a .fixed max) = some (⟨-2,[]⟩,r) := by
 have hsc : r.scDoDequeue max .fixed = (-2,[],r) := by
  simp only [OdphRing.scDoDequeue,h.entries hk,batch_fixed .cons hmax]
  rfl
 cases a with
 | single => rw [OdphRing.call,hsc]
 | multi => rw [call,h.mc_eq_sc,map_some,hsc]

lemma Holds.call (c : Call α) : ∃ r' first', r.call c = some ((fifoCall (2^k-1) q c).1,r') ∧
 Holds k r' first' (fifoCall (2^k-1) q c).2 := by
 obtain ⟨hcount,hfree⟩ := h.count hk
 cases c with
 | enqueue a b objs =>
  obtain ⟨hreply,hholds⟩ := h.spDoEnqueue hk a b objs
  refine ⟨_,first,?_,hholds⟩
  cases a with
  | single => rw [OdphRing.call,hreply]
  | multi => rw [OdphRing.call,h.mp_eq_sp,map_some,hreply]
 | dequeue a b max =>
  obtain ⟨hreply,first',hholds⟩ := h.scDoDequeue hk a b max
  refine ⟨_,first',?_,hholds⟩
  cases a with
  | single => rw [OdphRing.call,hreply]
  | multi => rw [OdphRing.call,h.mc_eq_sc,map_some,hreply]
 | full =>
  refine ⟨r,first,?_,h⟩
  rw [OdphRing.call,fifoCall,h.full hk]
  simp only [decide_eq_true_eq]
 | empty =>
  refine ⟨r,first,?_,h⟩
  rw [OdphRing.call,fifoCall,h.empty hk]
  simp only [decide_eq_true_eq]
 | count => exact ⟨r,first,by rw [OdphRing.call,fifoCall,hcount],h⟩
 | freeCount => exact ⟨r,first,by rw [OdphRing.call,fifoCall,hfree],h⟩

lemma Holds.run (calls : List (Call α)) :
 ∃ r' first', r.run calls = some ((fifoRun (2^k-1) q calls).1,r') ∧
  Holds k r' first' (fifoRun (2^k-1) q calls).2 := by
 induction calls generalizing r first q with
 | nil => exact ⟨r,first,rfl,h⟩
 | cons c cs ih =>
  obtain ⟨r1,first1,hcall,h1⟩ := h.call hk c
  obtain ⟨r2,first2,hrun,h2⟩ := ih h1
  refine ⟨r2,first2,?_,h2⟩
  rw [run,hcall,bind_some,hrun]
  rfl

end Steps

-- Every accepted size

lemma createAccepts_pow {size : Nat} (h : createAccepts size = true) (hpos : size ≠ 0) :
 ∃ k, k < 32 ∧ size = 2^k := by
 simp only [createAccepts,decide_eq_true_eq] at h
 obtain ⟨hand,hle⟩ := h
 have hsub : sub32 size 1 = size-1 := by
  rw [sub32]
  omega
 rw [hsub,Nat.and_comm] at hand
 obtain ⟨k,hk⟩ := (Nat.and_sub_one_eq_zero_iff_isPowerOfTwo hpos).mp hand
 refine ⟨k,?_,hk⟩
 by_contra hbig
 have : 2^32 ≤ 2^k := Nat.pow_le_pow_right (by decide) (by omega)
 omega

lemma create_holds (k : Nat) : Holds k (create (α := α) (2^k)) 0 [] :=
 ⟨rfl,rfl,rfl,rfl,Nat.two_pow_pos k,fun j hj => absurd hj (Nat.not_lt_zero j)⟩

/-- A ring answers every sequence of calls like a list with room for `size - 1` objects. Then its
counts are those of the list, and a fixed batch that does not fit is refused and changes
nothing. -/
theorem ring_refines_list {size : Nat} (hsize : createAccepts size = true) (hpos : size ≠ 0)
 (calls : List (Call α)) :
 ∃ r, (OdphRing.create size).run calls = some ((fifoRun (size-1) [] calls).1,r) ∧
  ((r.count = (fifoRun (size-1) [] calls).2.length ∧
   r.freeCount = size-1-(fifoRun (size-1) [] calls).2.length) ∧
  (r.full = decide ((fifoRun (size-1) [] calls).2.length = size-1) ∧
   r.empty = decide ((fifoRun (size-1) [] calls).2.length = 0))) ∧
  (∀ a objs, size-1-(fifoRun (size-1) [] calls).2.length < objs.length →
   r.call (.enqueue a .fixed objs) = some (⟨-105,[]⟩,r)) ∧
  ∀ a max, (fifoRun (size-1) [] calls).2.length < max →
   r.call (.dequeue a .fixed max) = some (⟨-2,[]⟩,r) := by
 obtain ⟨k,hk,rfl⟩ := createAccepts_pow hsize hpos
 obtain ⟨r,first,hrun,hholds⟩ := (create_holds (α := α) k).run hk calls
 exact ⟨r,hrun,⟨hholds.count hk,hholds.full hk,hholds.empty hk⟩,
  fun a objs hobjs => hholds.enqueue_refused hk a hobjs,
  fun a max hmax => hholds.dequeue_refused hk a hmax⟩

theorem ring_refines_list_four : ∃ r : OdphRing Nat,
 (OdphRing.create 4).run [.enqueue .multi .fixed [1,2],.dequeue .single .vary 5,
  .enqueue .single .vary [3,4,5,6],.full,.dequeue .multi .fixed 2,.count] =
  some ([⟨0,[]⟩,⟨2,[some 1,some 2]⟩,⟨3,[]⟩,⟨1,[]⟩,⟨0,[some 3,some 4]⟩,⟨1,[]⟩],r) ∧
 r.freeCount = 2 := by
 have hsize : createAccepts 4 = true := by decide
 obtain ⟨r,hrun,⟨⟨-,hfree⟩,-⟩,-⟩ := ring_refines_list (α := Nat) hsize (by decide)
  [.enqueue .multi .fixed [1,2],.dequeue .single .vary 5,.enqueue .single .vary [3,4,5,6],.full,
   .dequeue .multi .fixed 2,.count]
 exact ⟨r,hrun,hfree⟩

/-- `odph_ring_create` accepts the size zero, and the ring stores an object although it has no
slot. -/
theorem ring_of_size_zero : createAccepts 0 = true ∧ ∃ r : OdphRing Nat,
 (OdphRing.create 0).run [.enqueue .single .fixed [7],.count] = some ([⟨-122,[]⟩,⟨1,[]⟩],r) ∧
 r.slot 0 = some 7 ∧
 (fifoRun (0-1) [] [Call.enqueue .single .fixed [7],.count]).1 = [⟨-105,[]⟩,⟨0,[]⟩] :=
 ⟨by decide,_,rfl,rfl,rfl⟩

end Packages.Ring

import Packages.Ring.Model

/-!
# What holds between two steps on a ring

Entries are numbered in the order of their reservation, and
`tail cons ≤ resv cons ≤ tail prod ≤ resv prod ≤ tail cons + mask`. Threads between reservation and
tail work on disjoint ranges; an entry is read after it was written, and its slot is not used again
before.
-/

namespace Packages.Ring

open Nat

variable {α : Type} {n : Nat}

-- Slots

lemma two_pow_le {k : Nat} (hk : k < 32) : 2^k ≤ 2^31 := Nat.pow_le_pow_right (by decide) (by omega)

lemma mask_eq {r : OdphRing α} {k : Nat} (hsize : r.size = 2^k) : r.mask = 2^k-1 := by
 have hpos : 0 < 2^k := Nat.two_pow_pos k
 rw [OdphRing.mask,hsize,if_neg (by omega)]

/-- The copying loops put entry `base + i` into its slot, also when they go round the end. -/
lemma slotIndex_eq {r : OdphRing α} {k base m i : Nat} (hk : k < 32) (hsize : r.size = 2^k)
 (hm : m ≤ r.mask) (hi : i < m) : r.slotIndex (base%2^32) m i = (base+i)%r.size := by
 have hpos : 0 < 2^k := Nat.two_pow_pos k
 have hbig := two_pow_le hk
 have hdvd : 2^k ∣ 2^32 := pow_dvd_pow 2 (by omega)
 have hidx : base%2^32 &&& r.mask = base%2^k := by
  rw [mask_eq hsize,Nat.and_two_pow_sub_one_eq_mod,Nat.mod_mod_of_dvd _ hdvd]
 have hlt := Nat.mod_lt base hpos
 have hmod : (base+i)%2^k = (base%2^k+i)%2^k := by
  rw [mod_add_mod]
 rw [mask_eq hsize] at hm
 have hadd : add32 (base%2^k) m = base%2^k+m := mod_eq_of_lt (by omega)
 simp only [OdphRing.slotIndex,hidx,hsize,hadd,hmod]
 generalize base%2^k = idx at *
 split_ifs with h1 h2
 · exact (mod_eq_of_lt (by omega)).symm
 · exact (mod_eq_of_lt (by omega)).symm
 · rw [mod_eq_sub_mod (by omega),mod_eq_of_lt (by omega)]
   omega

-- Threads

/-- The batch a thread has reserved and not yet released. -/
def Pc.inFlight : Pc α → Option (Resv α)
 | .copy r _ | .wait r | .store r => some r
 | _ => none

/-- Two batches on one side have no entry in common. -/
def Apart (pc pc' : Pc α) : Prop :=
 ∀ r r', pc.inFlight = some r → pc'.inFlight = some r' → r.side = r'.side → 0 < r.n → 0 < r'.n →
  r.base+r.n ≤ r'.base ∨ r'.base+r'.n ≤ r.base

/-- A consumer has read the entry. -/
def State.IsRead (s : State α n) (i : Nat) : Prop := ∃ v, s.deq[i]? = some (some v)

/-- The other side has made room up to entry `x`. -/
def State.Room (s : State α n) : Side → Nat → Prop
 | .prod, x => x ≤ s.tail .cons+s.ring.mask
 | .cons, x => x ≤ s.tail .prod

/-- What a thread has done of its batch when it is to copy entry `i`. -/
def Progress (s : State α n) (r : Resv α) (i : Nat) : Prop :=
 match r.op with
 | .enqueue objs => (∀ j, j < i → s.written (r.base+j) = true) ∧
  ∀ j, j < r.n → s.enq[r.base+j]? = objs[j]?
 | .dequeue _ => (∀ j, j < i → s.IsRead (r.base+j)) ∧
  ∀ j, i ≤ j → j < r.n → s.deq[r.base+j]? = some none

structure InFlight (s : State α n) (r : Resv α) (i : Nat) : Prop where
 head : r.head = r.base%2^32
 max : r.n ≤ r.op.max
 range : 0 < r.n → s.tail r.side ≤ r.base ∧ r.base+r.n ≤ s.resv r.side
 progress : Progress s r i

def PcOk (s : State α n) : Pc α → Prop
 | .idle _ | .top _ _ => True
 | .gotHead op _ head base => head = base%2^32 ∧ base ≤ s.resv op.side
 | .cas r => r.head = r.base%2^32 ∧ r.n ≤ r.op.max ∧ r.base ≤ s.resv r.side ∧
  (s.resv r.side = r.base → s.Room r.side (r.base+r.n))
 | .copy r i => InFlight s r i ∧ i < r.n
 | .wait r => InFlight s r r.n
 | .store r => InFlight s r r.n ∧ (0 < r.n → s.tail r.side = r.base)

/-- The thread is a consumer that still has to read entry `x`. -/
def Awaits (pc : Pc α) (x : Nat) : Prop :=
 ∃ r i, pc = .copy r i ∧ r.side = .cons ∧ r.base+i ≤ x ∧ x < r.base+r.n

structure Inv (s : State α n) : Prop where
 size : ∃ k, k < 32 ∧ s.ring.size = 2^k
 head : ∀ d, (s.ring.ht d).head = s.resv d%2^32
 tail : ∀ d, (s.ring.ht d).tail = s.tail d%2^32
 cons_le : s.tail .cons ≤ s.resv .cons
 mid_le : s.resv .cons ≤ s.tail .prod
 prod_le : s.tail .prod ≤ s.resv .prod
 room : s.resv .prod ≤ s.tail .cons+s.ring.mask
 pc : ∀ t, PcOk s (s.pc t)
 apart : ∀ t u, t ≠ u → Apart (s.pc t) (s.pc u)
 written : ∀ i, i < s.tail .prod → s.written i = true
 reserved : ∀ i, s.written i = true → i < s.resv .prod
 gone : ∀ i, i < s.tail .cons → s.IsRead i
 read : ∀ i v, s.deq[i]? = some (some v) → s.written i = true ∧ v = s.enq[i]?
 kept : ∀ i, s.written i = true → ¬ s.IsRead i → s.ring.slot (i%s.ring.size) = s.enq[i]?
 pending : ∀ x : Nat, s.deq[x]? = some none → ∃ t, Awaits (s.pc t) x

/-- What every step does to the history: it grows. -/
structure Grows (s s' : State α n) : Prop where
 mask : s'.ring.mask = s.ring.mask
 resv : ∀ d, s.resv d ≤ s'.resv d
 tail : ∀ d, s.tail d ≤ s'.tail d
 written : ∀ i, s.written i = true → s'.written i = true
 enq : ∀ i, i < s.resv .prod → s'.enq[i]? = s.enq[i]?
 read : ∀ i, s.IsRead i → s'.IsRead i

section Threads

variable {s s' : State α n} {t u : Fin n} {r : Resv α} {i : Nat}

/-- A step of one thread keeps what another one relies on, if it stays behind the other's batch
with the tail and reads none of its entries. -/
lemma InFlight.grows (h : InFlight s r i) (hg : Grows s s')
 (htail : 0 < r.n → s'.tail r.side ≤ r.base)
 (hunread : r.side = .cons → ∀ x, r.base ≤ x → x < r.base+r.n → s.deq[x]? = some none →
  s'.deq[x]? = some none) : InFlight s' r i where
 __ := h
 range hpos := ⟨htail hpos,le_trans (h.range hpos).2 (hg.resv r.side)⟩
 progress := by
  have hp := h.progress
  have hrange := h.range
  unfold Progress at hp ⊢
  cases hop : r.op with
  | enqueue objs =>
   simp only [hop] at hp ⊢
   refine ⟨fun j hj => hg.written _ (hp.1 j hj),fun j hj => ?_⟩
   rw [hg.enq _ ?_,hp.2 j hj]
   have := (hrange (by omega)).2
   simp only [Resv.side,hop,Op.side] at this
   omega
  | dequeue max =>
   simp only [hop] at hp ⊢
   exact ⟨fun j hj => hg.read _ (hp.1 j hj),fun j hij hj =>
    hunread (by rw [Resv.side,hop]; rfl) _ (by omega) (by omega) (hp.2 j hij hj)⟩

lemma room_mono {d : Side} {x : Nat} (hg : Grows s s') (h : s.Room d x) : s'.Room d x := by
 cases d with
 | prod =>
  have h : x ≤ s.tail .cons+s.ring.mask := h
  have := hg.tail .cons
  show x ≤ s'.tail .cons+s'.ring.mask
  rw [hg.mask]
  omega
 | cons => exact le_trans h (hg.tail .prod)

lemma PcOk.grows {pc : Pc α} (h : PcOk s pc) (hg : Grows s s')
 (htail : ∀ r, pc.inFlight = some r → 0 < r.n → s'.tail r.side ≤ r.base)
 (hstore : ∀ r, pc = .store r → 0 < r.n → s'.tail r.side = s.tail r.side)
 (hunread : ∀ r, pc.inFlight = some r → r.side = .cons → ∀ x, r.base ≤ x → x < r.base+r.n →
  s.deq[x]? = some none → s'.deq[x]? = some none) : PcOk s' pc := by
 cases pc with
 | idle _ | top _ _ => trivial
 | gotHead op b head base => exact ⟨h.1,le_trans h.2 (hg.resv _)⟩
 | cas r =>
  obtain ⟨h1,h2,h3,h4⟩ := h
  have hle := hg.resv r.side
  exact ⟨h1,h2,by omega,fun heq => room_mono hg (h4 (by omega))⟩
 | copy r i => exact ⟨h.1.grows hg (htail r rfl) (hunread r rfl),h.2⟩
 | wait r => exact InFlight.grows h hg (htail r rfl) (hunread r rfl)
 | store r =>
  exact ⟨h.1.grows hg (htail r rfl) (hunread r rfl),
   fun hpos => (hstore r rfl hpos).trans (h.2 hpos)⟩

lemma PcOk.inFlight {pc : Pc α} (h : PcOk s pc) (hr : pc.inFlight = some r) :
 ∃ i, InFlight s r i := by
 cases pc <;> simp only [Pc.inFlight,Option.some.injEq,reduceCtorEq] at hr <;> subst hr
 · exact ⟨_,h.1⟩
 · exact ⟨_,h⟩
 · exact ⟨_,h.1⟩

lemma PcOk.range {pc : Pc α} (h : PcOk s pc) (hr : pc.inFlight = some r) (hpos : 0 < r.n) :
 s.tail r.side ≤ r.base ∧ r.base+r.n ≤ s.resv r.side := by
 obtain ⟨i,hi⟩ := h.inFlight hr
 exact hi.range hpos

@[simp] lemma resv_setPc (s : State α n) (t : Fin n) (pc : Pc α) (d : Side) :
 (s.setPc t pc).resv d = s.resv d := by
 cases d <;> rfl

lemma grows_setPc (s : State α n) (t : Fin n) (pc : Pc α) : Grows s (s.setPc t pc) :=
 ⟨rfl,fun d => by simp,fun _ => le_refl _,fun _ hi => hi,fun _ _ => rfl,fun _ hi => hi⟩

lemma Inv.mask_lt (h : Inv s) : s.ring.mask < 2^31 := by
 obtain ⟨k,hk,hsize⟩ := h.size
 have := Nat.pow_le_pow_right (n := 2) (by decide) (show k ≤ 31 by omega)
 rw [mask_eq hsize]
 omega

lemma Inv.size_eq (h : Inv s) : s.ring.size = s.ring.mask+1 := by
 obtain ⟨k,hk,hsize⟩ := h.size
 have := Nat.two_pow_pos k
 rw [mask_eq hsize]
 omega

lemma Inv.resv_le (h : Inv s) (d : Side) :
 s.tail d ≤ s.resv d ∧ s.resv d ≤ s.tail d+s.ring.mask := by
 have h1 := h.cons_le
 have h2 := h.mid_le
 have h3 := h.prod_le
 have h4 := h.room
 cases d <;> omega

lemma Inv.n_le (h : Inv s) (hr : InFlight s r i) : r.n ≤ s.ring.mask := by
 rcases Nat.eq_zero_or_pos r.n with h0 | hpos
 · omega
 · have h1 := hr.range hpos
   have h2 := h.resv_le r.side
   omega


end Threads

end Packages.Ring

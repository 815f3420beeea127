import Packages.Lib.Region

/-!
# Loops that walk down through memory

`doWhile` is a loop whose body runs before its test, with the states that the body sees. A loop that
counts down to where its test fails sees all states on the way. `row` are places of one size at a
fixed distance.
-/

namespace Packages

open Nat List

section DoWhile

variable {σ : Type*}

/-- `do { … } while (…)`: the states in which the body runs; `none` when the fuel runs out. -/
def doWhile (next : σ → σ) (go : σ → Bool) : Nat → σ → Option (List σ)
 | 0, _ => none
 | fuel+1, s => if go (next s) then (doWhile next go fuel (next s)).map (s::·) else some [s]

variable {next : σ → σ} {go : σ → Bool}

lemma doWhile_countdown {f : Nat → σ} {k fuel : Nat} (hnext : ∀ i, i < k → next (f (i+1)) = f i)
 (hgo : ∀ i, i < k → go (f i) = true) (hstop : go (next (f 0)) = false) (hfuel : k < fuel) :
 doWhile next go fuel (f k) = some ((range (k+1)).reverse.map f) := by
 obtain ⟨fuel,rfl⟩ := Nat.exists_eq_add_of_lt hfuel
 induction k generalizing fuel with
 | zero => simp [doWhile,hstop]
 | succ k ih =>
  have hrest := ih (fun i hi => hnext i (lt_succ_of_lt hi)) (fun i hi => hgo i (lt_succ_of_lt hi))
   fuel (by omega)
  have hfuel : k+1+fuel+1 = (k+fuel+1)+1 := by omega
  rw [hfuel,doWhile,hnext k (lt_succ_self k),if_pos (hgo k (lt_succ_self k)),hrest,
   range_succ (n := k+1)]
  simp

lemma doWhile_invariant {P : σ → Prop} (hnext : ∀ s, P s → P (next s)) {fuel : Nat} {s : σ}
 {l : List σ} (hs : P s) (h : doWhile next go fuel s = some l) : ∀ x ∈ l, P x := by
 induction fuel generalizing s l with
 | zero => cases h
 | succ fuel ih =>
  rw [doWhile] at h
  split at h
  · obtain ⟨l',hl',rfl⟩ := Option.map_eq_some_iff.mp h
    exact forall_mem_cons.mpr ⟨hs,ih (hnext s hs) hl'⟩
  · cases h
    exact forall_mem_cons.mpr ⟨hs,nofun⟩

lemma doWhile_ne_nil {fuel : Nat} {s : σ} {l : List σ} (h : doWhile next go fuel s = some l) :
 l ≠ [] := by
 rintro rfl
 cases fuel with
 | zero => cases h
 | succ fuel =>
  rw [doWhile] at h
  split at h
  · simp at h
  · cases h

end DoWhile

/-- Subtraction of 64-bit addresses. -/
def sub64 (a b : Nat) : Nat := (a+(2^64-b))%2^64

lemma sub64_of_le {a b : Nat} (hle : b ≤ a) (hpos : 0 < b) (ha : a ≤ 2^64) : sub64 a b = a-b := by
 unfold sub64
 omega

lemma dvd_sub64 {d a b : Nat} (hd : d ∣ 2^64) (ha : d ∣ a) (hb : d ∣ b) : d ∣ sub64 a b :=
 (Nat.dvd_mod_iff hd).mpr (Nat.dvd_add ha (Nat.dvd_sub hd hb))

namespace Region

/-- The place number `i` of size `len`. -/
def row (base stride len i : Nat) : Region := ⟨base+i*stride,len⟩

variable {base stride len : Nat}

section

variable (hlen : len ≤ stride)

include hlen

lemma row_apart {i j : Nat} (hne : i ≠ j) :
 (row base stride len i).Apart (row base stride len j) := by
 have hlt : ∀ {i j : Nat}, i < j → base+i*stride+len ≤ base+j*stride := by
  intro i j hij
  have := mul_le_mul_right stride (succ_le_of_lt hij)
  rw [succ_mul] at this
  omega
 obtain hij | hij := lt_or_gt_of_ne hne
 · exact .inl (hlt hij)
 · exact .inr (hlt hij)

lemma row_within {i n : Nat} (hi : i < n) : (row base stride len i).Within ⟨base,n*stride⟩ := by
 have hle := mul_le_mul_right stride (succ_le_of_lt hi)
 rw [succ_mul] at hle
 refine ⟨Nat.le_add_right ..,?_⟩
 show base+i*stride+len ≤ base+n*stride
 omega

lemma pairwise_row (n : Nat) : ((range n).reverse.map (row base stride len)).Pairwise Apart := by
 refine pairwise_map.mpr (pairwise_reverse.mpr ?_)
 exact nodup_range.imp fun hne => row_apart hlen (Ne.symm hne)

lemma within_of_mem_row {n : Nat} {r : Region}
 (h : r ∈ (range n).reverse.map (row base stride len)) : r.Within ⟨base,n*stride⟩ := by
 obtain ⟨i,hi,rfl⟩ := mem_map.mp h
 rw [mem_reverse,mem_range] at hi
 exact row_within hlen hi

end

lemma pairwise_append {l l' : List Region} {r r' : Region} (h : l.Pairwise Apart)
 (h' : l'.Pairwise Apart)
 (hl : ∀ s ∈ l, s.Within r) (hl' : ∀ s ∈ l', s.Within r') (hr : r.Apart r') :
  (l++l').Pairwise Apart :=
 List.pairwise_append.mpr ⟨h,h',fun s hs s' hs' => hr.within (hl s hs) (hl' s' hs')⟩

lemma Within.trans {r s t : Region} (h : r.Within s) (h' : s.Within t) : r.Within t :=
 ⟨Nat.le_trans h'.1 h.1,Nat.le_trans h.2 h'.2⟩

end Region

end Packages

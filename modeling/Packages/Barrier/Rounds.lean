import Packages.Barrier.Model
import Packages.Lib.Lockstep

/-!
# Rounds of the barrier

A thread arrives with its increment. While round `k + 1` is open, some threads have arrived `k`
times and the others `k + 1` times, and the counter says how many, in the lower half of its cycle if
`k` is even. An even round that is complete is closing until its last thread has subtracted the
cycle; nobody moves on.
-/

namespace Packages.Barrier

open Function State Nat

variable {n k : Nat} {s s' : State n} {t u : Fin n}

/-- How often a thread has incremented the counter. -/
def State.arrived (s : State n) (t : Fin n) : Nat :=
 if s.pc t = .fetchInc then s.started t-1 else s.started t

/-- The thread has seen the last value of the cycle. -/
def Pc.Pending (n : Nat) : Pc → Prop
 | .compare count => count = 2*n-1
 | .sub => True
 | _ => False

/-- A thread within a call knows by the parity of its calls in which half it has arrived. -/
def PcOk (n started returned : Nat) : Pc → Prop
 | .idle => started = returned
 | .fetchInc => started = returned+1
 | .compare count => started = returned+1 ∧ (count < n ↔ started%2 = 1)
 | .sub => started = returned+1
 | .load wasless => started = returned+1 ∧ (wasless = true ↔ started%2 = 1)

/-- Round `k + 1` is open. -/
structure Open (s : State n) (k : Nat) : Prop where
 count : s.barrier.count = n
 pcs : ∀ t, PcOk n (s.started t) (s.returned t) (s.pc t)
 lockstep : Lockstep s.arrived k
 bar : s.barrier.bar = (if k%2 = 1 then n else 0)+ahead s.arrived k
 settled : ∀ t, ¬(s.pc t).Pending n
 returned : ∀ t, s.returned t ≤ k

/-- Thread `u` closes round `k + 1`. -/
structure Closing (s : State n) (k : Nat) (u : Fin n) : Prop where
 count : s.barrier.count = n
 pcs : ∀ t, PcOk n (s.started t) (s.returned t) (s.pc t)
 odd : k%2 = 1
 arrived : ∀ t, s.arrived t = k+1
 bar : s.barrier.bar = 2*n
 pending : (s.pc u).Pending n
 settled : ∀ t, t ≠ u → ¬(s.pc t).Pending n
 returned : ∀ t, s.returned t = k

-- One step

/-- A step of thread `t` leaves the other threads where they are. -/
structure Keeps (s s' : State n) (t : Fin n) : Prop where
 count : s'.barrier.count = s.barrier.count
 pc : ∀ u, u ≠ t → s'.pc u = s.pc u
 started : ∀ u, u ≠ t → s'.started u = s.started u
 returned : ∀ u, u ≠ t → s'.returned u = s.returned u

lemma keeps_goto (s : State n) (t : Fin n) (pc : Pc) : Keeps s (s.goto t pc) t :=
 ⟨rfl,fun _ hne => update_of_ne hne _ _,fun _ _ => rfl,fun _ _ => rfl⟩

lemma keeps_ret (s : State n) (t : Fin n) : Keeps s (s.ret t) t :=
 ⟨rfl,fun _ hne => update_of_ne hne _ _,fun _ _ => rfl,fun _ hne => update_of_ne hne _ _⟩

lemma keeps_call (s : State n) (t : Fin n) : Keeps s (s.call t) t :=
 ⟨rfl,fun _ hne => update_of_ne hne _ _,fun _ hne => update_of_ne hne _ _,fun _ _ => rfl⟩

lemma Keeps.of_setBar {bar : Nat} (h : Keeps (s.setBar bar) s' t) : Keeps s s' t :=
 { h with }

lemma odpBarrierWait_keeps (s : State n) (t : Fin n) : Keeps s (odpBarrierWait s t) t := by
 rw [odpBarrierWait]
 split
 · exact keeps_call s t
 · exact (keeps_goto _ t _).of_setBar
 · split <;> exact keeps_goto s t _
 · exact (keeps_ret _ t).of_setBar
 · split
   · exact ⟨rfl,fun _ _ => rfl,fun _ _ => rfl,fun _ _ => rfl⟩
   · exact keeps_ret s t

namespace Keeps

section

variable (h : Keeps s s' t)

include h

lemma arrived_of_ne (hne : u ≠ t) : s'.arrived u = s.arrived u := by
 rw [arrived,arrived,h.pc u hne,h.started u hne]

lemma arrived : s'.arrived = update s.arrived t (s'.arrived t) := by
 funext u
 by_cases hu : u = t
 · rw [hu,update_self]
 · rw [update_of_ne hu,h.arrived_of_ne hu]

lemma pcs (hs : ∀ u, PcOk n (s.started u) (s.returned u) (s.pc u))
 (ht : PcOk n (s'.started t) (s'.returned t) (s'.pc t)) (u : Fin n) :
 PcOk n (s'.started u) (s'.returned u) (s'.pc u) := by
 by_cases hu : u = t
 · exact hu ▸ ht
 · rw [h.pc u hu,h.started u hu,h.returned u hu]
   exact hs u

lemma settled (hs : ∀ u, ¬(s.pc u).Pending n) (ht : ¬(s'.pc t).Pending n)
 (u : Fin n) : ¬(s'.pc u).Pending n := by
 by_cases hu : u = t
 · exact hu ▸ ht
 · rw [h.pc u hu]
   exact hs u

lemma returned_le (hs : ∀ u, s.returned u ≤ k) (ht : s'.returned t ≤ k)
 (u : Fin n) : s'.returned u ≤ k := by
 by_cases hu : u = t
 · exact hu ▸ ht
 · rw [h.returned u hu]
   exact hs u

end

end Keeps

lemma Open.of_keeps (h : Open s k) (hk : Keeps s s' t) (hbar : s'.barrier.bar = s.barrier.bar)
 (hpc : PcOk n (s'.started t) (s'.returned t) (s'.pc t)) (harrived : s'.arrived t = s.arrived t)
 (hsettled : ¬(s'.pc t).Pending n) (hreturned : s'.returned t ≤ k) : Open s' k := by
 have hsame : s'.arrived = s.arrived := by
  rw [hk.arrived,harrived,update_eq_self]
 refine ⟨hk.count.trans h.count,hk.pcs h.pcs hpc,hsame ▸ h.lockstep,?_,
  hk.settled h.settled hsettled,hk.returned_le h.returned hreturned⟩
 rw [hbar,hsame]
 exact h.bar

lemma Open.bar_lt (h : Open s k) : s.barrier.bar < n ↔ k%2 = 0 := by
 have hlt := h.lockstep.ahead_lt
 rw [Fintype.card_fin] at hlt
 have hbar := h.bar
 split at hbar <;> omega

lemma State.arrived_of_pc (s : State n) {t : Fin n} (hpc : s.pc t ≠ .fetchInc) :
 s.arrived t = s.started t :=
 if_neg hpc

lemma State.arrived_fetchInc (s : State n) {t : Fin n} (hpc : s.pc t = .fetchInc) :
 s.arrived t = s.started t-1 :=
 if_pos hpc

/-- Within a call a thread has arrived once more than it has returned, or is about to arrive. -/
lemma PcOk.arrived_le (h : PcOk n (s.started t) (s.returned t) (s.pc t)) :
 s.arrived t ≤ s.returned t+1 := by
 rw [arrived]
 cases hpc : s.pc t with
 | idle =>
  rw [hpc] at h
  exact le_succ_of_le (le_of_eq h)
 | fetchInc =>
  rw [hpc] at h
  exact le_succ_of_le (sub_le_of_le_add (le_of_eq h))
 | compare count | load wasless =>
  rw [hpc] at h
  exact le_of_eq h.1
 | sub =>
  rw [hpc] at h
  exact le_of_eq h

lemma twice_eq (hcount : s.barrier.count = n) (h32 : 2*n < 2^32) : s.barrier.twice = 2*n := by
 rw [OdpBarrier.twice,hcount,mod_eq_of_lt h32]

lemma last_eq (hcount : s.barrier.count = n) (hn : 0 < 2*n) (h32 : 2*n < 2^32) :
 sub32 s.barrier.twice 1 = 2*n-1 := by
 rw [twice_eq hcount h32]
 exact sub32_of_le hn h32

lemma Open.fetchInc (h : Open s k) (h32 : 2*n < 2^32) (hpc : s.pc t = .fetchInc)
 (hs' : s' = (s.setBar (add32 s.barrier.bar 1)).goto t (.compare s.barrier.bar)) :
 Open s' k ∨ (∀ u, s'.arrived u = k+1) ∧ (Open s' (k+1) ∨ Closing s' k t) := by
 have hstarted := h.pcs t
 rw [hpc] at hstarted
 change s.started t = s.returned t+1 at hstarted
 have hold : s.arrived t = s.started t-1 := s.arrived_fetchInc hpc
 have hk : s.arrived t = k := by
  have hle := h.lockstep.le t
  have hret := h.returned t
  omega
 have hlt := h.lockstep.ahead_lt
 rw [Fintype.card_fin] at hlt
 have hbar := h.bar
 have hpc' : s'.pc t = .compare s.barrier.bar := by
  rw [hs']
  exact update_self ..
 have hkeeps : Keeps s s' t := hs' ▸ (keeps_goto _ t _).of_setBar
 have hstarted' : s'.started = s.started := by rw [hs']; rfl
 have hreturned' : s'.returned = s.returned := by rw [hs']; rfl
 have harrived' : s'.arrived = update s.arrived t (k+1) := by
  rw [hkeeps.arrived,s'.arrived_of_pc (by simp [hpc']),hstarted']
  congr 1
  omega
 have hbar' : s'.barrier.bar = s.barrier.bar+1 := by
  rw [hs']
  apply add32_of_lt
  split at hbar <;> omega
 have hpcs' : ∀ u, PcOk n (s'.started u) (s'.returned u) (s'.pc u) := by
  apply hkeeps.pcs h.pcs
  rw [hpc',hstarted',hreturned']
  refine ⟨hstarted,h.bar_lt.trans ?_⟩
  omega
 have hle' : ∀ u, s'.returned u ≤ k := by
  rw [hreturned']
  exact h.returned
 have hcount' := hkeeps.count.trans h.count
 have hpending : (s'.pc t).Pending n ↔ s.barrier.bar = 2*n-1 := by rw [hpc']; rfl
 by_cases hlast : ahead s.arrived k+1 = n
 · right
   have hall : ∀ u, s'.arrived u = k+1 := by
    intro u
    rw [harrived']
    exact h.lockstep.count_last hk (by rw [Fintype.card_fin]; exact hlast) u
   refine ⟨hall,?_⟩
   have : Nonempty (Fin n) := ⟨t⟩
   by_cases hodd : k%2 = 1
   · rw [if_pos hodd] at hbar
     right
     refine ⟨hcount',hpcs',hodd,hall,by omega,hpending.mpr (by omega),fun u hu => ?_,fun u => ?_⟩
     · rw [hkeeps.pc u hu]
       exact h.settled u
     · have hu := hall u
       have hbounds := (hpcs' u).arrived_le
       have hleu := hle' u
       omega
   · rw [if_neg hodd] at hbar
     left
     refine ⟨hcount',hpcs',.of_forall hall,?_,hkeeps.settled h.settled ?_,fun u =>
      le_succ_of_le (hle' u)⟩
     · rw [ahead_of_forall hall,if_pos (by omega)]
       omega
     · rw [hpending]
       omega
 · left
   have hmore : ahead s.arrived k+1 < Fintype.card (Fin n) := by
    rw [Fintype.card_fin]
    omega
   refine ⟨hcount',hpcs',harrived' ▸ h.lockstep.count hk hmore,?_,hkeeps.settled h.settled ?_,hle'⟩
   · rw [harrived',ahead_update hk,hbar',hbar,add_assoc]
   · rw [hpending]
     split at hbar <;> omega

lemma compare_eq {count : Nat} (hpc : s.pc t = .compare count) (hcount : s.barrier.count = n)
 (hn : 0 < 2*n) (h32 : 2*n < 2^32) (hsettled : ¬(s.pc t).Pending n) :
 odpBarrierWait s t = s.goto t (.load (count < n)) := by
 have hne : count ≠ sub32 s.barrier.twice 1 := by
  rw [last_eq hcount hn h32]
  rw [hpc] at hsettled
  exact hsettled
 rw [odpBarrierWait_compare hpc hne,hcount]

lemma PcOk.load {count started returned : Nat} (h : PcOk n started returned (.compare count)) :
 PcOk n started returned (.load (count < n)) := by
 refine ⟨h.1,?_⟩
 rw [decide_eq_true_iff]
 exact h.2

lemma Open.leave_iff (h : Open s k) {wasless : Bool} (hpc : s.pc t = .load wasless) :
 decide (s.barrier.bar < s.barrier.count) ≠ wasless ↔ s.arrived t = k := by
 have hok := h.pcs t
 rw [hpc] at hok
 have hle := h.lockstep.le t
 have hsucc := h.lockstep.le_succ t
 rw [s.arrived_of_pc (by simp [hpc])] at hle hsucc ⊢
 have hparity := hok.2
 rw [h.count]
 cases wasless with
 | true =>
  rw [ne_eq,decide_eq_true_iff,h.bar_lt]
  have := hparity.mp rfl
  omega
 | false =>
  rw [ne_eq,decide_eq_false_iff_not,Decidable.not_not,h.bar_lt]
  have : s.started t%2 ≠ 1 := fun hodd => Bool.noConfusion (hparity.mpr hodd)
  omega

lemma Open.step (h : Open s k) (hn : 0 < 2*n) (h32 : 2*n < 2^32) (t : Fin n) :
 Open (odpBarrierWait s t) k ∨ (∀ u, (odpBarrierWait s t).arrived u = k+1) ∧
  (Open (odpBarrierWait s t) (k+1) ∨ Closing (odpBarrierWait s t) k t) := by
 have hok := h.pcs t
 cases hpc : s.pc t with
 | idle =>
  left
  rw [hpc] at hok
  rw [odpBarrierWait_idle hpc]
  refine h.of_keeps (keeps_call s t) rfl ?_ ?_ ?_ (h.returned t)
  · rw [call_pc,call_started]
    exact congrArg succ hok
  · rw [arrived_fetchInc _ (s.call_pc t),call_started,s.arrived_of_pc (by simp [hpc])]
    rfl
  · rw [call_pc]
    exact id
 | fetchInc => exact h.fetchInc h32 hpc (odpBarrierWait_fetchInc hpc)
 | compare count =>
  left
  rw [compare_eq hpc h.count hn h32 (h.settled t)]
  rw [hpc] at hok
  refine h.of_keeps (keeps_goto s t _) rfl ?_ ?_ ?_ (h.returned t)
  · rw [goto_pc]
    exact hok.load
  · rw [arrived_of_pc _ (by simp),s.arrived_of_pc (by simp [hpc])]
    rfl
  · rw [goto_pc]
    exact id
 | sub =>
  refine absurd ?_ (h.settled t)
  rw [hpc]
  trivial
 | load wasless =>
  left
  rw [hpc] at hok
  by_cases hseen : decide (s.barrier.bar < s.barrier.count) = wasless
  · rw [odpBarrierWait_spin hpc hseen]
    exact h
  · rw [odpBarrierWait_leave hpc hseen]
    have hround := (h.leave_iff hpc).mp hseen
    rw [s.arrived_of_pc (by simp [hpc])] at hround
    refine h.of_keeps (keeps_ret s t) rfl ?_ ?_ ?_ ?_
    · rw [ret_pc,ret_returned]
      exact hok.1
    · rw [arrived_of_pc _ (by simp),s.arrived_of_pc (by simp [hpc])]
      rfl
    · rw [ret_pc]
      exact id
    · rw [ret_returned,← hok.1,hround]

/-- A thread that has arrived in more rounds than it has returned from is past its `fetch_inc`. -/
lemma pc_cases_of_arrived (hok : PcOk n (s.started t) (s.returned t) (s.pc t))
 (h : s.returned t < s.arrived t) :
 (∃ count, s.pc t = .compare count) ∨ s.pc t = .sub ∨ ∃ wasless, s.pc t = .load wasless := by
 cases hpc : s.pc t with
 | idle =>
  rw [hpc] at hok
  rw [s.arrived_of_pc (by simp [hpc])] at h
  have : s.started t = s.returned t := hok
  omega
 | fetchInc =>
  rw [hpc] at hok
  rw [s.arrived_fetchInc hpc] at h
  have : s.started t = s.returned t+1 := hok
  omega
 | compare count => exact .inl ⟨count,rfl⟩
 | sub => exact .inr (.inl rfl)
 | load wasless => exact .inr (.inr ⟨wasless,rfl⟩)

section

variable (h : Closing s k u)

include h

lemma Closing.pc_cases (t : Fin n) :
 (∃ count, s.pc t = .compare count) ∨ s.pc t = .sub ∨ s.pc t = .load false := by
 have hok := h.pcs t
 have harrived := h.arrived t
 have hreturned := h.returned t
 have hodd := h.odd
 obtain hc | hs | ⟨wasless,hl⟩ := pc_cases_of_arrived hok (by omega)
 · exact .inl hc
 · exact .inr (.inl hs)
 · rw [hl] at hok ⊢
   cases wasless with
   | false => exact .inr (.inr rfl)
   | true =>
    have hlast := hok.2.mp rfl
    have := hok.1
    omega

lemma Closing.of_goto {pc : Pc} (hold : s.pc t ≠ .fetchInc)
 (hnew : pc ≠ .fetchInc) (hok : PcOk n (s.started t) (s.returned t) pc)
 (hpending : pc.Pending n ↔ t = u) : Closing (s.goto t pc) k u := by
 have hkeeps := keeps_goto s t pc
 have hpc' := s.goto_pc t pc
 refine ⟨h.count,hkeeps.pcs h.pcs (by rw [hpc']; exact hok),h.odd,fun v => ?_,h.bar,
  ?_,fun v hv => ?_,h.returned⟩
 · by_cases hv : v = t
   · rw [hv,arrived_of_pc _ (by rw [hpc']; exact hnew),← h.arrived t,s.arrived_of_pc hold]
     rfl
   · rw [hkeeps.arrived_of_ne hv]
     exact h.arrived v
 · by_cases hu : u = t
   · rw [hu,hpc']
     exact hpending.mpr hu.symm
   · rw [hkeeps.pc u hu]
     exact h.pending
 · by_cases hvt : v = t
   · rw [hvt,hpc']
     exact fun hp => hv (hvt.trans (hpending.mp hp))
   · rw [hkeeps.pc v hvt]
     exact h.settled v hv

lemma Closing.last (hn : 0 < 2*n) (h32 : 2*n < 2^32) {count : Nat}
 (hpc : s.pc u = .compare count) : odpBarrierWait s u = s.goto u .sub := by
 have hlast : count = 2*n-1 := by
  have hp := h.pending
  rwa [hpc] at hp
 apply odpBarrierWait_last
 rw [hpc,hlast,last_eq h.count hn h32]

lemma Closing.sub (h32 : 2*n < 2^32) (hpc : s.pc u = .sub) :
 Open (odpBarrierWait s u) (k+1) := by
 have hkeeps := odpBarrierWait_keeps s u
 have hok := h.pcs u
 have hodd := h.odd
 rw [hpc] at hok
 have hstarted : s.started u = s.returned u+1 := hok
 rw [odpBarrierWait_sub hpc] at hkeeps ⊢
 set s' := (s.setBar (sub32 s.barrier.bar s.barrier.twice)).ret u
 have hpc' : s'.pc u = .idle := ret_pc ..
 have hreturned' : s'.returned u = s.returned u+1 := ret_returned ..
 have hall : ∀ t, s'.arrived t = k+1 := by
  intro t
  by_cases ht : t = u
  · rw [ht,arrived_of_pc _ (by simp [hpc']),← h.arrived u,s.arrived_of_pc (by simp [hpc])]
    rfl
  · rw [hkeeps.arrived_of_ne ht]
    exact h.arrived t
 have : Nonempty (Fin n) := ⟨u⟩
 refine ⟨h.count,hkeeps.pcs h.pcs ?_,.of_forall hall,?_,fun t => ?_,
  hkeeps.returned_le (fun t => le_succ_of_le (le_of_eq (h.returned t))) ?_⟩
 · rw [hpc',hreturned']
   exact hstarted
 · have hbar : s'.barrier.bar = sub32 s.barrier.bar s.barrier.twice := rfl
   rw [hbar,twice_eq h.count h32,h.bar,sub32_of_le (le_refl _) h32,ahead_of_forall hall,
    if_neg (by omega),Nat.sub_self]
 · by_cases ht : t = u
   · rw [ht,hpc']
     exact id
   · rw [hkeeps.pc t ht]
     exact h.settled t ht
 · rw [hreturned',h.returned u]

lemma Closing.step (hn : 0 < 2*n) (h32 : 2*n < 2^32) (t : Fin n) :
 Closing (odpBarrierWait s t) k u ∨ t = u ∧ s.pc u = .sub ∧ Open (odpBarrierWait s t) (k+1) := by
 have hok := h.pcs t
 obtain ⟨count,hpc⟩ | hpc | hpc := h.pc_cases t
 · left
   rw [hpc] at hok
   have hold : s.pc t ≠ .fetchInc := by simp [hpc]
   by_cases ht : t = u
   · subst ht
     rw [h.last hn h32 hpc]
     exact h.of_goto hold Pc.noConfusion hok.1 ⟨fun _ => rfl,fun _ => trivial⟩
   · rw [compare_eq hpc h.count hn h32 (h.settled t ht)]
     exact h.of_goto hold Pc.noConfusion hok.load ⟨False.elim,fun heq => absurd heq ht⟩
 · right
   have ht : t = u := by
    by_contra hne
    apply h.settled t hne
    rw [hpc]
    trivial
   subst ht
   exact ⟨rfl,hpc,h.sub h32 hpc⟩
 · left
   rw [odpBarrierWait_spin hpc (by rw [h.bar,h.count,decide_eq_false (by omega)])]
   exact h

end

-- Runs

/-- A round is open or closing. -/
def Rounds (s : State n) : Prop := ∃ k, Open s k ∨ ∃ u, Closing s k u

lemma rounds_start (hn : 0 < 2*n) (h32 : 2*n < 2^32) : Rounds (start n) := by
 have hall : ∀ t, (start n).arrived t = 0 := fun _ => rfl
 have : Nonempty (Fin n) := ⟨⟨0,by omega⟩⟩
 refine ⟨0,.inl ⟨?_,fun _ => rfl,.of_forall hall,?_,fun _ => id,fun _ => le_refl 0⟩⟩
 · show ((n : Int)%2^32).toNat = n
   omega
 · rw [ahead_of_forall hall]
   rfl

lemma Rounds.step (h : Rounds s) (hn : 0 < 2*n) (h32 : 2*n < 2^32) (t : Fin n) :
 Rounds (odpBarrierWait s t) := by
 obtain ⟨k,hopen | ⟨u,hclosing⟩⟩ := h
 · obtain hsame | ⟨-,hnext | hclose⟩ := hopen.step hn h32 t
   · exact ⟨k,.inl hsame⟩
   · exact ⟨k+1,.inl hnext⟩
   · exact ⟨k,.inr ⟨t,hclose⟩⟩
 · obtain hsame | ⟨-,-,hnext⟩ := hclosing.step hn h32 t
   · exact ⟨k,.inr ⟨u,hsame⟩⟩
   · exact ⟨k+1,.inl hnext⟩

lemma rounds_of_reachable (hn : 0 < 2*n) (h32 : 2*n < 2^32) (h : Reachable s) : Rounds s := by
 refine h.invariant ?_ ?_
 · rintro _ rfl
   exact rounds_start hn h32
 · intro s t s' hs _ hstep
   cases hstep
   exact hs.step hn h32 t

lemma Rounds.returned_le (h : Rounds s) (t u : Fin n) : s.returned t ≤ s.arrived u := by
 obtain ⟨k,hopen | ⟨v,hclosing⟩⟩ := h
 · exact le_trans (hopen.returned t) (hopen.lockstep.le u)
 · rw [hclosing.returned t,hclosing.arrived u]
   exact le_succ k

lemma State.arrived_le_started (s : State n) (t : Fin n) : s.arrived t ≤ s.started t := by
 rw [arrived]
 split
 · exact sub_le _ _
 · exact le_refl _

/-- The next load lets the thread out of the spin loop. -/
def Awaited (s : State n) (t : Fin n) : Prop :=
 ∃ wasless, s.pc t = .load wasless ∧ decide (s.barrier.bar < s.barrier.count) ≠ wasless

lemma Open.awaited_iff (h : Open s k) {wasless : Bool} (hpc : s.pc t = .load wasless) :
 Awaited s t ↔ s.arrived t = k := by
 rw [← h.leave_iff hpc]
 constructor
 · rintro ⟨w,hw,hne⟩
   rw [hpc] at hw
   obtain rfl := Pc.load.inj hw
   exact hne
 · intro hne
   exact ⟨wasless,hpc,hne⟩

lemma Closing.not_awaited (h : Closing s k u) (t : Fin n) : ¬Awaited s t := by
 rintro ⟨wasless,hpc,hne⟩
 obtain ⟨count,hc⟩ | hc | hc := h.pc_cases t
 · rw [hpc] at hc
   cases hc
 · rw [hpc] at hc
   cases hc
 · rw [hpc] at hc
   obtain rfl := Pc.load.inj hc
   apply hne
   rw [h.bar,h.count,decide_eq_false (by omega)]

lemma Awaited.step (h : Awaited s t) (hr : Rounds s) (hn : 0 < 2*n) (h32 : 2*n < 2^32)
 (hu : u ≠ t) : Awaited (odpBarrierWait s u) t := by
 have hkeeps := odpBarrierWait_keeps s u
 obtain ⟨wasless,hpc,-⟩ := id h
 have hpc' : (odpBarrierWait s u).pc t = .load wasless := (hkeeps.pc t hu.symm).trans hpc
 obtain ⟨k,hopen | ⟨v,hclosing⟩⟩ := hr
 · have harrived := (hopen.awaited_iff hpc).mp h
   have harrived' := (hkeeps.arrived_of_ne hu.symm).trans harrived
   obtain hsame | ⟨hall,-⟩ := hopen.step hn h32 u
   · exact (hsame.awaited_iff hpc').mpr harrived'
   · have := hall t
     omega
 · exact absurd h (hclosing.not_awaited t)

lemma Awaited.load (h : Awaited s t) : odpBarrierWait s t = s.ret t := by
 obtain ⟨wasless,hpc,hne⟩ := h
 exact odpBarrierWait_leave hpc hne

lemma Awaited.run (h : Awaited s t) (hr : Rounds s) (hn : 0 < 2*n) (h32 : 2*n < 2^32)
 {threads : List (Fin n)} (ht : t ∉ threads) :
 Awaited (run s threads) t ∧ (run s threads).returned t = s.returned t := by
 induction threads generalizing s with
 | nil => exact ⟨h,rfl⟩
 | cons u threads ih =>
  obtain ⟨hu,hthreads⟩ := List.ne_and_not_mem_of_not_mem_cons ht
  obtain ⟨hend,hreturned⟩ := ih (h.step hr hn h32 hu.symm) (hr.step hn h32 u) hthreads
  exact ⟨hend,hreturned.trans ((odpBarrierWait_keeps s u).returned t hu)⟩

end Packages.Barrier

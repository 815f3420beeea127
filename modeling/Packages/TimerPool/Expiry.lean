import Packages.TimerPool.Steps

/-!
# Ticks below `TMO_INACTIVE`

As long as the ticks stay below 2^63, the expiration tick of a timer tells whether it is armed: an
armed timer has a tick below the flag, all others have the flag set. Then the range checks mean what
they say, and a set without a new event succeeds just if the timer holds one.
-/

namespace Packages.TimerPool

open Function List Nat

attribute [local simp] Pool.setTickBuf

/-- The ticks in range stay below the flag, and the sum for the first of them does not wrap. -/
def TicksBelow (s : State) : Prop :=
 s.tp.curTick+s.tp.minRelTck < 2^64 ∧
 (s.tp.minRelTck ≤ s.tp.maxRelTck → s.tp.curTick+s.tp.maxRelTck < tmoInactive)

instance (s : State) : Decidable (TicksBelow s) := inferInstanceAs (Decidable (_ ∧ _))

/-- The states of the runs with ticks below the flag. -/
abbrev ReachableBelow (v : ResetVariant) (isTimeout : Event → Bool) : State → Prop :=
 Transition.Reach (fun s => ∃ tpIdx param tmoHdr, s = .init tpIdx param tmoHdr)
  (step v isTimeout) fun s a => CallerOk s a ∧ TicksBelow s

/-- An armed timer has a tick without the flag, every other one the flag. -/
def TickBuf.Marked (tb : TickBuf) : Prop :=
 if tb.tmoBuf.isSome then tb.expTck < tmoInactive else tmoInactive ≤ tb.expTck ∧ tb.expTck < 2^64

variable {s s' : State} {v : ResetVariant} {isTimeout : Event → Bool} {a : Action}
 {hdl idx i absTck relTck : Nat} {tmoEv : Option Event} {r : SetRet}

lemma or_tmoInactive {x : Nat} (hx : x < tmoInactive) : x ||| tmoInactive = x+tmoInactive := by
 have := shiftLeft_add_eq_or_of_lt (a := 1) (show x < 2^63 from hx)
 rw [Nat.or_comm]
 exact this.symm.trans (add_comm ..)

lemma and_tmoInactive {x : Nat} (hx : x < 2^64) : x &&& tmoInactive = 0 ↔ x < tmoInactive := by
 rw [tmoInactive,and_two_pow,testBit_eq_decide_div_mod_eq]
 simp
 omega

-- The range checks

lemma setAbsCheck_eq_success (hb : TicksBelow s) : setAbsCheck s.tp absTck = .success ↔
 s.tp.curTick+s.tp.minRelTck ≤ absTck ∧ absTck ≤ s.tp.curTick+s.tp.maxRelTck := by
 obtain ⟨hmin,hmax⟩ := hb
 have hflag : tmoInactive = 2^63 := rfl
 rw [setAbsCheck]
 split_ifs with hearly hlate
 all_goals
  simp
  omega

lemma setRelCheck_eq (hb : TicksBelow s) :
 setRelCheck s.tp relTck = setAbsCheck s.tp (s.tp.curTick+relTck) := by
 obtain ⟨hmin,hmax⟩ := hb
 have hflag : tmoInactive = 2^63 := rfl
 rw [setAbsCheck,setRelCheck,mod_eq_of_lt hmin,mod_eq_of_lt (by omega)]
 simp only [add_lt_add_iff_left]

lemma relTck_mod (hb : TicksBelow s) (hok : setRelCheck s.tp relTck = .success) :
 (s.tp.curTick+relTck)%2^64 = s.tp.curTick+relTck := by
 have hrange := (setAbsCheck_eq_success hb).mp (setRelCheck_eq hb ▸ hok)
 have hflag : tmoInactive = 2^63 := rfl
 have := hb.2
 exact mod_eq_of_lt (by omega)

lemma Sets.range (hset : Sets s hdl tmoEv absTck a) (hb : TicksBelow s) :
 s.tp.curTick+s.tp.minRelTck ≤ absTck ∧ absTck ≤ s.tp.curTick+s.tp.maxRelTck := by
 cases hset with
 | abs hok => exact (setAbsCheck_eq_success hb).mp hok
 | rel hok =>
  rw [relTck_mod hb hok]
  exact (setAbsCheck_eq_success hb).mp (setRelCheck_eq hb ▸ hok)

lemma lt_tmoInactive (hb : TicksBelow s)
 (h : s.tp.curTick+s.tp.minRelTck ≤ absTck ∧ absTck ≤ s.tp.curTick+s.tp.maxRelTck) :
 absTck < tmoInactive :=
 lt_of_le_of_lt h.2 (hb.2 (by omega))

lemma odpTimerSetRel_eq (hb : TicksBelow s) : odpTimerSetRel v isTimeout s hdl relTck tmoEv =
 odpTimerSetAbs v isTimeout s hdl (s.tp.curTick+relTck) tmoEv := by
 rw [odpTimerSetRel,odpTimerSetAbs]
 cases hok : setRelCheck s.tp relTck with
 | success =>
  rw [← setRelCheck_eq hb,hok,relTck_mod hb hok]
 | tooEarly | tooLate | noEvent => rw [← setRelCheck_eq hb,hok]

-- The flag

/-- In both builds a timer can be re-armed without a new event just if it holds one. -/
lemma TickBuf.Marked.keeps_iff {tb : TickBuf} (h : tb.Marked) :
 Keeps v tb ↔ tb.tmoBuf.isSome = true := by
 cases v with
 | withLock => exact Iff.rfl
 | armArch =>
  rw [TickBuf.Marked] at h
  split_ifs at h with hsome
  · simp [Keeps,hsome,(and_tmoInactive (lt_trans h (by decide))).mpr h]
  · simp [Keeps,hsome,and_tmoInactive h.2,h.1]

attribute [local simp] TickBuf.Marked

lemma Takes.marked (ht : Takes v isTimeout s a s') (hb : TicksBelow s)
 (h : ∀ i, (s.tp.tickBuf i).Marked) : ∀ i, (s'.tp.tickBuf i).Marked := by
 have hset : ∀ j tb, tb.Marked → ∀ i, ((s.tp.setTickBuf j tb).tickBuf i).Marked := by
  intro j tb htb i
  by_cases hi : i = j
  · simpa [hi] using htb
  · simpa [hi] using h i
 have hbelow : ∀ {hdl tmoEv absTck}, Sets s hdl tmoEv absTck a → absTck < tmoInactive :=
  fun hs => lt_tmoInactive hb (hs.range hb)
 cases ht with
 | alloc | cancel => exact hset _ _ (by simp [tmoInactive])
 | @keep _ _ _ idx hs _ hkeeps =>
  have hsome := (h idx).keeps_iff.mp hkeeps
  exact hset _ _ (by simpa [hsome] using hbelow hs)
 | swap hs => exact hset _ _ (by simpa using hbelow hs)
 | free => exact hset _ _ (by simp [tmoInactive,tmoUnused])
 | @scanGrab _ _ i _ _ _ _ hbuf =>
  have hlt : (s.tp.tickBuf i).expTck < tmoInactive := by simpa [hbuf] using h i
  refine hset _ _ ?_
  rw [or_tmoInactive hlt]
  rw [tmoInactive] at hlt
  simp [tmoInactive]
  omega
 | refused | freeInsert | notify | scanEnd | scanSkip | post | receive => exact h

lemma reachableBelow_marked (h : ReachableBelow v isTimeout s) (i : Nat) :
 (s.tp.tickBuf i).Marked := by
 refine h.invariant (P := fun s => ∀ i, (s.tp.tickBuf i).Marked) ?_ ?_ i
 · rintro _ ⟨tpIdx,param,tmoHdr,rfl⟩ i
   simp [State.init,odpTimerPoolNew,tmoInactive,tmoUnused]
 · exact fun _ _ _ hinv hok hs => (takes_of_step hs).marked hok.2 hinv

-- Setting a timer

/-- The timer expires at `e` now. -/
def Armed (s : State) (idx e : Nat) : Prop :=
 (s.tp.tickBuf idx).expTck = e ∧ (s.tp.tickBuf idx).tmoBuf.isSome = true ∧ e < tmoInactive

/-- A set of the timer to `e` succeeds and arms it just if `e` is in range and an event is at hand,
and changes nothing otherwise. -/
def SetsTo (s : State) (idx e : Nat) (tmoEv : Option Event) (result : Option (SetRet × State)) :
 Prop :=
 ∃ r s', result = some (r,s') ∧
  (r = .success ↔ (s.tp.curTick+s.tp.minRelTck ≤ e ∧ e ≤ s.tp.curTick+s.tp.maxRelTck) ∧
   (tmoEv.isSome = true ∨ (s.tp.tickBuf idx).tmoBuf.isSome = true)) ∧
  (r = .success → Armed s' idx e) ∧ (r ≠ .success → s' = s)

lemma setsTo_abs (hmarked : ∀ i, (s.tp.tickBuf i).Marked) (hb : TicksBelow s)
 (hidx : handleToIdx hdl s.tp = some idx) :
 SetsTo s idx absTck tmoEv (odpTimerSetAbs v isTimeout s hdl absTck tmoEv) := by
 have hrange : setAbsCheck s.tp absTck = .success ↔ _ := setAbsCheck_eq_success hb
 simp only [odpTimerSetAbs,hidx,Option.bind_eq_bind,Option.bind_some]
 cases hok : setAbsCheck s.tp absTck with
 | tooEarly | tooLate | noEvent =>
  refine ⟨_,_,rfl,iff_of_false (by simp) fun hin => ?_,by simp,fun _ => rfl⟩
  simpa [hok] using hrange.mpr hin.1
 | success =>
 have hin := hrange.mp hok
 have hlt := lt_tmoInactive hb hin
 cases tmoEv with
 | some ev =>
  have hbits : ∃ hdl', (if isTimeout ev then tpIdxToHandle s.tp idx else some 0) = some hdl' := by
   rw [handleToIdx] at hidx
   split_ifs at hidx
   cases hidx
   rw [tpIdxToHandle,if_pos (lt_of_le_of_lt and_le_right (by decide))]
   split <;> exact ⟨_,rfl⟩
  obtain ⟨hdl',hhdl⟩ := hbits
  simp only [timerReset,hhdl,Option.map_some]
  exact ⟨_,_,rfl,by simp [hin],fun _ => by simp [Armed,timerResetSwap,hlt],by simp⟩
 | none =>
  have hkeeps := (hmarked idx).keeps_iff (v := v)
  have hkeep : timerResetKeep v s.tp idx absTck = if (s.tp.tickBuf idx).tmoBuf.isSome then
   (true,s.tp.setTickBuf idx { s.tp.tickBuf idx with expTck := absTck }) else (false,s.tp) := by
   cases v with
   | withLock => rfl
   | armArch => exact if_congr hkeeps rfl rfl
  rw [timerReset,hkeep]
  by_cases hsome : (s.tp.tickBuf idx).tmoBuf.isSome = true
  · rw [if_pos hsome]
    exact ⟨_,_,rfl,by simp [hin,hsome],fun _ => by simp [Armed,hlt,hsome],by simp⟩
  · rw [if_neg hsome]
    exact ⟨_,_,rfl,by simp [hsome],by simp,fun _ => rfl⟩

/-- If the sum for the first tick wraps, a relative timeout of 0 is too early and the absolute one
is not. -/
lemma odpTimerSetRel_ne (hidx : handleToIdx hdl s.tp = some idx) (hcur : s.tp.curTick < 2^64)
 (hmin : s.tp.minRelTck < 2^64) (hwrap : 2^64 ≤ s.tp.curTick+s.tp.minRelTck) :
 odpTimerSetRel v isTimeout s hdl 0 none ≠ odpTimerSetAbs v isTimeout s hdl s.tp.curTick none := by
 have hrel : setRelCheck s.tp 0 = .tooEarly := if_pos (by omega)
 have habs : setAbsCheck s.tp s.tp.curTick ≠ .tooEarly := by
  rw [setAbsCheck,if_neg (by omega)]
  split_ifs <;> simp
 simp only [odpTimerSetRel,odpTimerSetAbs,hidx,Option.bind_eq_bind,Option.bind_some,hrel]
 split
 · rw [timerReset]
   split_ifs <;> simp
 · simpa using Ne.symm habs

lemma start_below (v : ResetVariant) (isTimeout : Event → Bool) (param : PoolParam) :
 ReachableBelow v isTimeout (.init 0 param fun _ => ⟨0,0,0⟩) := .start ⟨_,_,_,rfl⟩

end Packages.TimerPool

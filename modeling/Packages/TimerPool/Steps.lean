import Packages.TimerPool.Model

/-!
# What one step of a timer pool can do

`Takes` lists the effects of the calls and of the notification thread, with the conditions under
which they happen. The invariants go through these cases and never through `step` itself.
-/

namespace Packages.TimerPool

open Function Option

/-- The call asks for the timer of `hdl` to expire at `absTck`, which passes its range check. -/
inductive Sets (s : State) (hdl : Nat) (tmoEv : Option Event) : Nat → Action → Prop
 | abs {absTck : Nat} : setAbsCheck s.tp absTck = .success →
  Sets s hdl tmoEv absTck (.setAbs hdl absTck tmoEv)
 | rel {relTck : Nat} : setRelCheck s.tp relTck = .success →
  Sets s hdl tmoEv ((s.tp.curTick+relTck)%2^64) (.setRel hdl relTck tmoEv)

/-- `timer_reset` finds the timer active. -/
def Keeps (v : ResetVariant) (tb : TickBuf) : Prop :=
 match v with
 | .armArch => tb.expTck &&& tmoInactive = 0
 | .withLock => tb.tmoBuf.isSome

/-- The pool after a successful `timer_alloc`. -/
def Pool.allocated (tp : Pool) (queue : QueueHdl) (userPtr : Nat) : Pool :=
 (({ tp with
     numAlloc := tp.numAlloc+1
     firstFree := (tp.timers tp.firstFree).queue
     highWm := if tp.numAlloc+1 > tp.highWm then tp.numAlloc+1 else tp.highWm }).setTimer
  tp.firstFree ⟨userPtr,queue⟩).setTickBuf tp.firstFree ⟨tmoInactive,none⟩

/-- The timer takes a new event. -/
def State.swapped (s : State) (idx absTck : Nat) (ev : Event) (tmoHdr : Event → TimeoutHdr) :
 State :=
 { s with
   tp := s.tp.setTickBuf idx ⟨absTck,some ev⟩
   tmoHdr := tmoHdr
   owned := giveOwned (update s.owned ev false) (s.tp.tickBuf idx).tmoBuf
   ledger := s.ledger.handOver idx ev (s.tp.timers idx).queue }

/-- The timer gives its event back to the caller. -/
def State.takenOut (s : State) (idx newState : Nat) : State :=
 { s with
   tp := s.tp.setTickBuf idx ⟨newState,none⟩
   owned := giveOwned s.owned (s.tp.tickBuf idx).tmoBuf
   ledger := s.ledger.giveBack idx }

/-- The effects of a step. -/
inductive Takes (v : ResetVariant) (isTimeout : Event → Bool) (s : State) : Action → State → Prop
 | refused {a : Action} : (∀ t hdl, a ≠ .free t hdl) → Takes v isTimeout s a s
 | alloc {queue : QueueHdl} {userPtr : Nat} : queue ≠ queueInvalid →
  s.tp.numAlloc < s.tp.numTimers → s.tp.firstFree < 2^indexBits →
  Takes v isTimeout s (.alloc queue userPtr) { s with
   tp := s.tp.allocated queue userPtr
   live := update s.live s.tp.firstFree true }
 | keep {a : Action} {hdl absTck idx : Nat} : Sets s hdl none absTck a →
  handleToIdx hdl s.tp = some idx → Keeps v (s.tp.tickBuf idx) →
  Takes v isTimeout s a
   { s with tp := s.tp.setTickBuf idx { s.tp.tickBuf idx with expTck := absTck } }
 | swap {a : Action} {hdl absTck idx hdl' : Nat} {ev : Event} : Sets s hdl (some ev) absTck a →
  handleToIdx hdl s.tp = some idx → (isTimeout ev = true → tpIdxToHandle s.tp idx = some hdl') →
  Takes v isTimeout s a (s.swapped idx absTck ev (if isTimeout ev then update s.tmoHdr ev
   { s.tmoHdr ev with timer := hdl', userPtr := (s.tp.timers idx).userPtr } else s.tmoHdr))
 | cancel {hdl idx : Nat} : handleToIdx hdl s.tp = some idx →
  Takes v isTimeout s (.cancel hdl) (s.takenOut idx tmoInactive)
 | free {t : Thread} {hdl idx : Nat} : s.freeing t = none → handleToIdx hdl s.tp = some idx →
  Takes v isTimeout s (.free t hdl) { s.takenOut idx tmoUnused with
   freeing := update s.freeing t (some idx)
   live := update s.live idx false
   notifier := s.notifier.markFreed idx }
 | freeInsert {t : Thread} {idx : Nat} : s.freeing t = some idx → s.tp.numAlloc ≠ 0 →
  Takes v isTimeout s (.freeInsert t) { s with
   tp := timerFreeInsert s.tp idx
   freeing := update s.freeing t none }
 | notify : s.notifier = .idle → Takes v isTimeout s .notify { s with
  tp := { s.tp with curTick := (s.tp.curTick+1)%2^64 }
  notifier := .scan s.tp.curTick s.tp.highWm 0 }
 | scanEnd {tick highWm i : Nat} : s.notifier = .scan tick highWm i → highWm ≤ i →
  Takes v isTimeout s .scan { s with notifier := .idle }
 | scanSkip {tick highWm i : Nat} : s.notifier = .scan tick highWm i → i < highWm →
  ((s.tp.tickBuf i).expTck ≤ tick → (s.tp.tickBuf i).tmoBuf = none) →
  Takes v isTimeout s .scan { s with notifier := .scan tick highWm (i+1) }
 | scanGrab {tick highWm i : Nat} {ev : Event} : s.notifier = .scan tick highWm i → i < highWm →
  (s.tp.tickBuf i).expTck ≤ tick → (s.tp.tickBuf i).tmoBuf = some ev →
  Takes v isTimeout s .scan { s with
   tp := s.tp.setTickBuf i ⟨(s.tp.tickBuf i).expTck ||| tmoInactive,none⟩
   notifier := .post tick highWm i ev (s.tp.tickBuf i).expTck ((s.ledger.slot i).getD 0) false
   ledger := s.ledger.grab i }
 | post {tick highWm i ev expTck serial : Nat} {freed : Bool} :
  s.notifier = .post tick highWm i ev expTck serial freed →
  Takes v isTimeout s .post (expirePost isTimeout s tick highWm i ev expTck serial freed)
 | receive {queue : QueueHdl} {ev : Event} {evs : List Event} : s.queue queue = ev::evs →
  Takes v isTimeout s (.receive queue) { s with
   queue := update s.queue queue evs
   owned := update s.owned ev true }

variable {v : ResetVariant} {isTimeout : Event → Bool} {s s' : State} {a : Action}

lemma takes_reset {hdl idx absTck : Nat} {tmoEv : Option Event} {r : SetRet}
 (hset : Sets s hdl tmoEv absTck a) (hidx : handleToIdx hdl s.tp = some idx)
 (hs : timerReset v isTimeout s idx absTck tmoEv = some (r,s')) : Takes v isTimeout s a s' := by
 have hrefused : Takes v isTimeout s a s := .refused fun t hdl => by cases hset <;> simp
 cases tmoEv with
 | none =>
  cases hs
  cases v with
  | armArch | withLock =>
   simp only [timerResetKeep]
   split_ifs with hkeep
   · exact .keep hset hidx hkeep
   · exact hrefused
 | some ev =>
  obtain ⟨hdl',hhdl,hs⟩ := map_eq_some_iff.mp hs
  cases hs
  exact .swap hset hidx fun ht => by simpa [ht] using hhdl

lemma takes_of_step (hs : step v isTimeout s a = some s') : Takes v isTimeout s a s' := by
 cases a with
 | alloc queue userPtr =>
  simp only [step] at hs
  split_ifs at hs with hq
  obtain ⟨⟨hdl,tp⟩,hr,rfl⟩ := map_eq_some_iff.mp hs
  unfold timerAlloc at hr
  split_ifs at hr with hlt hlast
  · obtain ⟨hdl',hhdl,hr⟩ := map_eq_some_iff.mp hr
    cases hr
    rw [tpIdxToHandle] at hhdl
    split_ifs at hhdl with hbits
    exact .alloc hq hlt hbits
  · cases hr
    exact .refused (by simp)
 | setAbs hdl absTck tmoEv =>
  simp only [step,odpTimerSetAbs,bind_eq_bind,map_eq_some_iff,bind_eq_some_iff] at hs
  obtain ⟨⟨r,t⟩,⟨idx,hidx,hs⟩,rfl⟩ := hs
  split at hs
  · next hok => exact takes_reset (.abs hok) hidx hs
  · cases hs
    exact .refused (by simp)
 | setRel hdl relTck tmoEv =>
  simp only [step,odpTimerSetRel,bind_eq_bind,map_eq_some_iff,bind_eq_some_iff] at hs
  obtain ⟨⟨r,t⟩,⟨idx,hidx,hs⟩,rfl⟩ := hs
  split at hs
  · next hok => exact takes_reset (.rel hok) hidx hs
  · cases hs
    exact .refused (by simp)
 | cancel hdl =>
  simp only [step,odpTimerCancel,bind_eq_bind,map_eq_some_iff,bind_eq_some_iff,some.injEq] at hs
  obtain ⟨-,⟨idx,hidx,rfl⟩,rfl⟩ := hs
  exact .cancel hidx
 | free t hdl =>
  simp only [step] at hs
  split_ifs at hs with hidle
  simp only [odpTimerFree,bind_eq_bind,map_eq_some_iff,bind_eq_some_iff,some.injEq] at hs
  obtain ⟨-,⟨idx,hidx,rfl⟩,rfl⟩ := hs
  exact .free (by simpa using hidle) hidx
 | freeInsert t =>
  simp only [step,bind_eq_some_iff] at hs
  obtain ⟨idx,ht,hs⟩ := hs
  split_ifs at hs with hpos
  cases hs
  exact .freeInsert ht hpos
 | notify =>
  simp only [step] at hs
  split at hs
  · next hidle =>
    cases hs
    exact .notify hidle
  · cases hs
 | scan =>
  simp only [step] at hs
  split at hs
  case h_2 => cases hs
  next tick highWm i hscan =>
  cases hs
  split_ifs with hlt
  · simp only [expireNext,timerExpireGrab]
    split_ifs with hdue
    · cases hb : (s.tp.tickBuf i).tmoBuf with
      | none => exact .scanSkip hscan hlt fun _ => hb
      | some ev => exact .scanGrab hscan hlt hdue hb
    · exact .scanSkip hscan hlt fun h => absurd h hdue
  · exact .scanEnd hscan (Nat.le_of_not_lt hlt)
 | post =>
  simp only [step] at hs
  split at hs
  case h_2 => cases hs
  next hpost =>
  cases hs
  exact .post hpost
 | receive queue =>
  simp only [step] at hs
  split at hs
  · cases hs
  · next hq =>
    cases hs
    exact .receive hq

end Packages.TimerPool

import Packages.TimerPool.Conservation
import Packages.TimerPool.Expiry

/-!
# A notification delivers what is due

`timer_notify` without concurrent calls: the notification thread steps on alone until its scan is
over.
-/

namespace Packages.TimerPool

open Function List

/-- One round of the loop of `odp_timer_pool_expire`, with the post of a grabbed timeout. -/
def scanOne (v : ResetVariant) (isTimeout : Event → Bool) (s : State) : Option State :=
 (step v isTimeout s .scan).bind fun s' =>
  match s'.notifier with
  | .post _ _ _ _ _ _ _ => step v isTimeout s' .post
  | _ => some s'

/-- The loop over `k` timers, and its end. -/
def scanLoop (v : ResetVariant) (isTimeout : Event → Bool) : Nat → State → Option State
 | 0, s => step v isTimeout s .scan
 | k+1, s => (scanOne v isTimeout s).bind (scanLoop v isTimeout k)

/-- `timer_notify`. -/
def timerNotify (v : ResetVariant) (isTimeout : Event → Bool) (s : State) : Option State :=
 (step v isTimeout s .notify).bind (scanLoop v isTimeout s.tp.highWm)

/-- The timer is armed and its tick has come. -/
def Due (s : State) (i : Nat) : Prop :=
 (s.tp.tickBuf i).tmoBuf.isSome = true ∧ (s.tp.tickBuf i).expTck ≤ s.tp.curTick

instance (s : State) (i : Nat) : Decidable (Due s i) := inferInstanceAs (Decidable (_ ∧ _))

/-- The timeouts due for the queue among the first `k` timers. -/
def dueEvents (s : State) (k : Nat) (q : QueueHdl) : List Event :=
 (range k).filterMap fun i =>
  if Due s i ∧ (s.tp.timers i).queue = q then (s.tp.tickBuf i).tmoBuf else none

/-- What the scan of the first `k` timers has done. -/
structure Scanned (isTimeout : Event → Bool) (s : State) (k : Nat) (s' : State) : Prop where
 timers : s'.tp.timers = s.tp.timers
 tickBuf : ∀ i, s'.tp.tickBuf i = if i < k ∧ Due s i then
  ⟨(s.tp.tickBuf i).expTck ||| tmoInactive,none⟩ else s.tp.tickBuf i
 queue : ∀ q, s'.queue q = s.queue q ++ dueEvents s k q
 hdr : ∀ i ev, i < k → Due s i → (s.tp.tickBuf i).tmoBuf = some ev → isTimeout ev = true →
  (s'.tmoHdr ev).expiration = (s.tp.tickBuf i).expTck

variable {s s' : State} {v : ResetVariant} {isTimeout : Event → Bool} {k : Nat}

lemma dueEvents_succ (s : State) (k : Nat) (q : QueueHdl) : dueEvents s (k+1) q = dueEvents s k q ++
 if Due s k ∧ (s.tp.timers k).queue = q then (s.tp.tickBuf k).tmoBuf.toList else [] := by
 rw [dueEvents,range_succ,filterMap_append]
 congr 1
 by_cases hq : Due s k ∧ (s.tp.timers k).queue = q
 · cases hb : (s.tp.tickBuf k).tmoBuf <;> simp [hq,hb]
 · simp [hq]

/-- No event is in two timers. -/
def Single (s : State) : Prop :=
 ∀ i j e, (s.tp.tickBuf i).tmoBuf = some e → (s.tp.tickBuf j).tmoBuf = some e → i = j

-- A round

section Round

variable (h : Scanned isTimeout s k s') {highWm : Nat}

include h

lemma Scanned.skip (hno : ¬ Due s k) :
 Scanned isTimeout s (k+1) { s' with notifier := .scan s.tp.curTick highWm (k+1) } := by
 refine ⟨h.timers,fun i => ?_,fun q => ?_,fun i e hi hd he ht => ?_⟩
 · have hiff : i < k+1 ∧ Due s i ↔ i < k ∧ Due s i := by
    refine and_congr_left fun hd => ?_
    have hik : i ≠ k := fun hik => hno (hik ▸ hd)
    omega
   simp only [h.tickBuf,hiff]
 · simpa [dueEvents_succ,hno] using h.queue q
 · have hik : i ≠ k := fun hik => hno (hik ▸ hd)
   exact h.hdr i e (by omega) hd he ht

/-- The grabbed timeout is posted: the timers before this one keep what the scan did to them. -/
lemma Scanned.post (hsingle : Single s) (hdue : Due s k) {ev : Event} {n : Nat} {l : Ledger}
 (hev : (s.tp.tickBuf k).tmoBuf = some ev) :
 Scanned isTimeout s (k+1) (expirePost isTimeout { s' with
  tp := s'.tp.setTickBuf k ⟨(s.tp.tickBuf k).expTck ||| tmoInactive,none⟩
  notifier := .post s.tp.curTick highWm k ev (s.tp.tickBuf k).expTck n false
  ledger := l } s.tp.curTick highWm k ev (s.tp.tickBuf k).expTck n false) := by
 refine ⟨h.timers,fun i => ?_,fun q => ?_,fun i e hi hd he ht => ?_⟩
 · by_cases hi : i = k
   · subst hi
     simp [expirePost,Pool.setTickBuf,hdue]
   · have hbefore : i < k+1 ↔ i < k := by omega
     simp [expirePost,Pool.setTickBuf,hi,h.tickBuf,hbefore]
 · rw [dueEvents_succ,← append_assoc,← h.queue q]
   by_cases hq : (s.tp.timers k).queue = q
   · simp [expirePost,Pool.setTickBuf,h.timers,hq,hdue,hev]
   · simp [expirePost,Pool.setTickBuf,h.timers,hq,Ne.symm hq]
 · by_cases hik : i = k
   · subst hik
     obtain rfl : ev = e := by simpa [hev] using he
     simp [expirePost,ht]
   · have hne : e ≠ ev := fun heq => hik (hsingle i k e he (heq ▸ hev))
     have hold := h.hdr i e (by omega) hd he ht
     by_cases hev' : isTimeout ev = true
     · simpa [expirePost,hev',hne] using hold
     · simpa [expirePost,hev'] using hold

lemma Scanned.next (hsingle : Single s) (hk : k < highWm)
 (hn : s'.notifier = .scan s.tp.curTick highWm k) :
 ∃ t, scanOne v isTimeout s' = some t ∧ t.notifier = .scan s.tp.curTick highWm (k+1) ∧
  t.tp.curTick = s'.tp.curTick ∧ Scanned isTimeout s (k+1) t := by
 have htb : s'.tp.tickBuf k = s.tp.tickBuf k := by simp [h.tickBuf]
 have hscan : step v isTimeout s' .scan = some (expireNext s' s.tp.curTick highWm k) := by
  simp only [step,hn,if_pos hk]
 rw [scanOne,hscan,expireNext,timerExpireGrab,htb]
 by_cases hdue : Due s k
 · obtain ⟨ev,hev⟩ := Option.isSome_iff_exists.mp hdue.1
   simp only [if_pos hdue.2,hev]
   exact ⟨_,rfl,rfl,rfl,h.post hsingle hdue hev⟩
 · by_cases hle : (s.tp.tickBuf k).expTck ≤ s.tp.curTick
   · have hnone : (s.tp.tickBuf k).tmoBuf = none := by simpa [Due,hle] using hdue
     simp only [if_pos hle,hnone]
     exact ⟨_,rfl,rfl,rfl,h.skip hdue⟩
   · simp only [if_neg hle]
     exact ⟨_,rfl,rfl,rfl,h.skip hdue⟩

lemma scanLoop_scanned (hsingle : Single s) (m : Nat) (hm : k+m = highWm)
 (hn : s'.notifier = .scan s.tp.curTick highWm k) :
 ∃ t, scanLoop v isTimeout m s' = some t ∧ t.notifier = .idle ∧ t.tp.curTick = s'.tp.curTick ∧
  Scanned isTimeout s highWm t := by
 induction m generalizing k s' with
 | zero =>
  obtain rfl : k = highWm := hm
  rw [scanLoop,step,hn]
  dsimp only
  rw [if_neg (Nat.lt_irrefl k)]
  exact ⟨_,rfl,rfl,rfl,h.timers,h.tickBuf,h.queue,h.hdr⟩
 | succ m ih =>
  obtain ⟨s₁,hone,hn₁,hcur,h₁⟩ := h.next (v := v) hsingle (by omega) hn
  obtain ⟨t,hloop,hidle,hcur',ht⟩ := ih h₁ (by omega) hn₁
  refine ⟨t,?_,hidle,hcur'.trans hcur,ht⟩
  rw [scanLoop,hone]
  exact hloop

end Round

end Packages.TimerPool

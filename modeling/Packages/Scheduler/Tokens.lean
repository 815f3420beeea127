import Packages.Lib.Custody
import Packages.Scheduler.Model

/-!
# Command events as tokens

A queue in scheduling has its command event on its priority queue or in the hands of one thread.
A token is the command event with the priority queue it belongs on; the tokens of queues that
are not in scheduling are in limbo, so that the law of the scheduler is custody of the tokens.
-/

namespace Packages.Scheduler

structure Token where
 ev : CmdEvent
 priQ : PriQueue
 deriving DecidableEq

variable {ε : Type} {m n : Nat}

/-- The statuses in which the queue's command event is about. -/
def Status.inSched : Status → Bool
 | .sched | .destroyed => true
 | .free | .ready | .notsched => false

namespace QueueEntry

def token (e : QueueEntry ε) : Option Token :=
 match e.cmdEv, e.priQueue with
 | some ev, some priQ => some ⟨ev,priQ⟩
 | _, _ => none

/-- The token of a queue in scheduling. -/
def active (e : QueueEntry ε) : Option Token := if e.status.inSched then e.token else none

lemma token_eq_some {e : QueueEntry ε} {x : Token} :
 e.token = some x ↔ e.cmdEv = some x.ev ∧ e.priQueue = some x.priQ := by
 obtain ⟨ev,priQ⟩ := x
 rcases hc : e.cmdEv with _ | a <;> rcases hp : e.priQueue with _ | b <;> simp [token,hc,hp]

lemma active_eq_some {e : QueueEntry ε} {x : Token} :
 e.active = some x ↔ e.status.inSched = true ∧ e.cmdEv = some x.ev ∧ e.priQueue = some x.priQ := by
 unfold active
 split_ifs with h <;> simp [h,token_eq_some]

lemma token_congr {e e' : QueueEntry ε} (hc : e'.cmdEv = e.cmdEv)
 (hp : e'.priQueue = e.priQueue) : e'.token = e.token := by
 simp [token,hc,hp]

lemma active_congr {e e' : QueueEntry ε} (hs : e'.status.inSched = e.status.inSched)
 (hc : e'.cmdEv = e.cmdEv) (hp : e'.priQueue = e.priQueue) : e'.active = e.active := by
 simp [active,hs,token_congr hc hp]

end QueueEntry

/-- The token of the atomic context that the thread holds. -/
def Local.held (l : Local ε m) : Option Token :=
 match l.cmdEv, l.priQueue with
 | some ev, some priQ => some ⟨ev,priQ⟩
 | _, _ => none

/-- The token that a thread `t` inside a call has in hand. -/
def Pc.token (queue : Fin m → QueueEntry ε) (t : Fin n) : Pc m → Option Token
 | .scheduleQueue q => (queue q).token
 | .gotCmd i j _ ev | .finalize i j _ ev _ => some ⟨ev,State.scanQueue t i j⟩
 | .contPri priQ ev => some ⟨ev,priQ⟩
 | _ => none

/-- What thread `t` has in hand: it took or claimed it and still has to put it back. -/
def State.hand (s : State ε m n) (t : Fin n) : List Token :=
 (s.schedLocal t).held.toList++((s.pc t).token s.queue t).toList

inductive Place (n : Nat) where
 | limbo
 | pri (priQ : PriQueue)
 | hand (t : Fin n)
 deriving DecidableEq

/-- How often the place holds the token. -/
def tokenAt (s : State ε m n) : Place n → Token → Nat
 | .limbo, x => if ∃ q, (s.queue q).active = some x then 0 else 1
 | .pri priQ, x => ((s.priQueue priQ).map (Token.mk · priQ)).count x
 | .hand t, x => (s.hand t).count x

-- Moving tokens

section Moves

variable {s s' : State ε m n} {t : Fin n} {x : Token}

lemma hand_congr (hpc : s'.pc t = s.pc t) (hl : s'.schedLocal t = s.schedLocal t)
 (hq : ∀ q, s.pc t = .scheduleQueue q → (s'.queue q).token = (s.queue q).token) :
 s'.hand t = s.hand t := by
 unfold State.hand
 rw [hpc,hl]
 cases h : s.pc t <;> simp [Pc.token]
 exact congrArg Option.toList (hq _ h)

lemma exists_active (h : Custody (tokenAt s)) {p : Place n} (hp : p ≠ .limbo)
 (hx : tokenAt s p x ≠ 0) : ∃ q, (s.queue q).active = some x := by
 have h0 := h.eq_zero hx hp.symm
 simpa [tokenAt] using h0

lemma exists_active_of_hand (h : Custody (tokenAt s)) (hx : x ∈ s.hand t) :
 ∃ q, (s.queue q).active = some x :=
 exists_active h (p := .hand t) (by simp) (List.count_pos_iff.mpr hx).ne'

lemma limbo_congr (hact : ∀ q, (s'.queue q).active = (s.queue q).active) :
 tokenAt s' .limbo x = tokenAt s .limbo x := by
 simp [tokenAt,hact]

lemma custody_keep (h : Custody (tokenAt s))
 (hact : ∀ q, (s'.queue q).active = (s.queue q).active) (hpri : s'.priQueue = s.priQueue)
 (hhand : ∀ u, (s'.hand u).Perm (s.hand u)) : Custody (tokenAt s') := by
 have heq : tokenAt s' = tokenAt s := by
  funext p x
  cases p with
  | limbo => exact limbo_congr hact
  | pri priQ => simp [tokenAt,hpri]
  | hand u => exact (hhand u).count_eq x
 exact heq ▸ h

lemma balanced_pri (hact : ∀ q, (s'.queue q).active = (s.queue q).active)
 (hperm : (s'.priQueue x.priQ).Perm (x.ev::s.priQueue x.priQ))
 (hpri : ∀ priQ, priQ ≠ x.priQ → s'.priQueue priQ = s.priQueue priQ)
 (hne : ∀ u, u ≠ t → s'.hand u = s.hand u) (ht : (s.hand t).Perm (x::s'.hand t)) :
 Custody.Balanced (tokenAt s) (tokenAt s') [x] (.hand t) (.pri x.priQ) := by
 intro p y
 cases p with
 | limbo => simp [limbo_congr hact]
 | pri priQ =>
  by_cases hp : priQ = x.priQ
  · subst hp
    simp [tokenAt,(hperm.map _).count_eq,List.count_cons]
  · simp [tokenAt,hpri priQ hp,hp]
 | hand u =>
  by_cases hu : u = t
  · subst hu
    simp [tokenAt,ht.count_eq,List.count_cons]
  · simp [tokenAt,hne u hu,hu]

lemma custody_enqPri (h : Custody (tokenAt s))
 (hact : ∀ q, (s'.queue q).active = (s.queue q).active)
 (hpri : s'.priQueue = Function.update s.priQueue x.priQ (s.priQueue x.priQ++[x.ev]))
 (hne : ∀ u, u ≠ t → s'.hand u = s.hand u) (ht : (s.hand t).Perm (x::s'.hand t)) :
 Custody (tokenAt s') := by
 refine h.move (balanced_pri hact ?_ (fun priQ hp => ?_) hne ht)
 · rw [hpri,Function.update_self]
   exact List.perm_append_singleton ..
 · rw [hpri,Function.update_of_ne hp]

lemma custody_deqPri {evs : List CmdEvent} (h : Custody (tokenAt s))
 (hact : ∀ q, (s'.queue q).active = (s.queue q).active) (hold : s.priQueue x.priQ = x.ev::evs)
 (hpri : s'.priQueue = Function.update s.priQueue x.priQ evs)
 (hne : ∀ u, u ≠ t → s'.hand u = s.hand u) (ht : (s'.hand t).Perm (x::s.hand t)) :
 Custody (tokenAt s') := by
 refine h.move (balanced_pri (fun q => (hact q).symm) ?_ (fun priQ hp => ?_)
  (fun u hu => (hne u hu).symm) ht).symm
 · rw [hpri,Function.update_self,hold]
 · rw [hpri,Function.update_of_ne hp]

lemma balanced_claim {q : Fin m} (hold : ∀ q', (s.queue q').active ≠ some x)
 (hnone : (s.queue q).active = none) (hnew : (s'.queue q).active = some x)
 (hact : ∀ q', q' ≠ q → (s'.queue q').active = (s.queue q').active)
 (hpri : s'.priQueue = s.priQueue)
 (hne : ∀ u, u ≠ t → s'.hand u = s.hand u) (ht : (s'.hand t).Perm (x::s.hand t)) :
 Custody.Balanced (tokenAt s) (tokenAt s') [x] .limbo (.hand t) := by
 have hex : ∀ y, (∃ q', (s'.queue q').active = some y) ↔
  y = x ∨ ∃ q', (s.queue q').active = some y := by
  intro y
  constructor
  · rintro ⟨q',hy⟩
    by_cases hq : q' = q
    · subst hq
      exact .inl (Option.some.inj (hy.symm.trans hnew))
    · exact .inr ⟨q',hact q' hq ▸ hy⟩
  · rintro (rfl | ⟨q',hy⟩)
    · exact ⟨q,hnew⟩
    · refine ⟨q',?_⟩
      rw [hact q' (by rintro rfl; simp [hnone] at hy),hy]
 intro p y
 cases p with
 | limbo =>
  by_cases hyx : y = x
  · subst hyx
    simp [tokenAt,hex,hold]
  · simp [tokenAt,hex,hyx,Ne.symm hyx]
 | pri priQ => simp [tokenAt,hpri]
 | hand u =>
  by_cases hu : u = t
  · subst hu
    simp [tokenAt,ht.count_eq,List.count_cons]
  · simp [tokenAt,hne u hu,hu]

lemma custody_drop {q : Fin m} (h : Custody (tokenAt s))
 (hinj : ∀ q', (s.queue q').active = some x → q' = q) (hold : (s.queue q).active = some x)
 (hnone : (s'.queue q).active = none)
 (hact : ∀ q', q' ≠ q → (s'.queue q').active = (s.queue q').active)
 (hpri : s'.priQueue = s.priQueue)
 (hne : ∀ u, u ≠ t → s'.hand u = s.hand u) (ht : (s.hand t).Perm (x::s'.hand t)) :
 Custody (tokenAt s') := by
 refine h.move (balanced_claim (fun q' hx => ?_) hnone hold
  (fun q' hq => (hact q' hq).symm) hpri.symm (fun u hu => (hne u hu).symm) ht).symm
 by_cases hq : q' = q
 · subst hq
   cases hnone.symm.trans hx
 · exact hq (hinj q' (hact q' hq ▸ hx))

end Moves

end Packages.Scheduler

import Packages.HisiTimer.Places

/-!
# Status words and places

What the status of a timer and the calls in progress say about its place, in runs where no timer is
added while it waits on a run list and no expiry time is zero. Under `kept` a walk never comes to a
timer between `timer_add` and the new status, and no pending timer is lost. Under `freed` no timer
is stopped on a run list, and stopped timers are nowhere.
-/

namespace Packages.HisiTimer

open Function Option

variable {n k : Nat}

-- Runs

/-- The call is about to write an expiry time of zero. -/
def Call.zeroExpire (call : Call n k) : Bool :=
 match call.stage,call.op with
 | .write,.reset expire _ _ => expire%2^64 = 0
 | _,_ => false

/-- The timer that a walk comes to. -/
def Manage.visited : Manage n → Option (Fin n)
 | .walking _ tim => tim
 | _ => none

/-- No expiry time is zero, and no timer is added while it waits on a run list. -/
def Safe (s : State n k) (a : Fin k × Action n k) : Prop :=
 ∀ call ∈ s.call a.1, call.zeroExpire = false ∧ (call.stage = .add → ∀ c, call.tim ∉ s.runList c)

instance (s : State n k) (a : Fin k × Action n k) : Decidable (Safe s a) :=
 inferInstanceAs (Decidable (∀ call ∈ s.call a.1, _ ∧ (_ → ∀ _ : Fin k, _)))

/-- A walk does not come to a timer that is added but has not got its new status. -/
def Unskipped (s : State n k) (a : Fin k × Action n k) : Prop :=
 ∀ t ∈ (s.manage a.1).visited, ∀ c, ∀ call ∈ s.call c, call.tim = t → call.stage = .publish →
  call.op = .stop

instance (s : State n k) (a : Fin k × Action n k) : Decidable (Unskipped s a) :=
 inferInstanceAs (Decidable (∀ t ∈ (s.manage a.1).visited, ∀ c, ∀ call ∈ s.call c, _ → _ → _))

/-- A stop does not end while its timer waits on a run list. -/
def Unwalked (s : State n k) (a : Fin k × Action n k) : Prop :=
 ∀ call ∈ s.call a.1, call.stage = .publish → call.op = .stop → ∀ c, call.tim ∉ s.runList c

instance (s : State n k) (a : Fin k × Action n k) : Decidable (Unwalked s a) :=
 inferInstanceAs (Decidable (∀ call ∈ s.call a.1, _ → _ → ∀ _ : Fin k, _))

-- Laws

variable {place place' : Fin n → Option (Place k)} {t tim : Fin n} {c core : Fin k}

def OffList (place : Fin n → Option (Place k)) (t : Fin n) : Prop := ∀ c, place t ≠ some (.list c)

/-- On the list or the run list of the core, or nowhere. -/
def Near (place : Fin n → Option (Place k)) (t : Fin n) (c : Fin k) : Prop :=
 place t = none ∨ place t = some (.list c) ∨ place t = some (.run c)

/-- The core is about to arm its periodic timer again. -/
def Rearming (s : State n k) (c : Fin k) (t : Fin n) : Prop :=
 (∃ curTime nextTim, s.manage c = .rearming curTime t nextTim) ∧
  ∃ op, s.call c = some ⟨t,op,true,.config⟩

def StatusFits (kept freed : Prop) (s : State n k) (place : Fin n → Option (Place k)) (t : Fin n) :
 Prop :=
 match (s.status t).state with
 | .stop => OffList place t ∧ (freed → place t = none)
 | .pending =>
  ∃ c, (s.status t).owner = some c ∧ Near place t c ∧ (kept → place t = none → Rearming s c t)
 | .running => place t = none
 | .config => True

def StageFits (kept : Prop) (m : Mem n k) (place : Fin n → Option (Place k)) (call : Call n k) :
 Prop :=
 match call.stage,call.op with
 | .config,_ => True
 | .del prevOwner,_ => Near place call.tim prevOwner
 | .write,_ => OffList place call.tim
 | .add,_ => OffList place call.tim ∧ 0 < m.expire call.tim
 | .publish,.reset _ _ c => Near place call.tim c ∧ (kept → place call.tim ≠ none)
 | .publish,.stop => OffList place call.tim

structure Inv (kept freed : Prop) (s : State n k) (g : Layout n k) : Prop where
 shape : Shape s.mem (fun c => (s.manage c).rest) g
 status : ∀ t, StatusFits kept freed s g.place t
 calls : ∀ c call, s.call c = some call → call.stage ≠ .config →
  s.status call.tim = ⟨.config,some c⟩
 stages : ∀ c call, s.call c = some call → StageFits kept s.mem g.place call
 callback : ∀ c curTime t nextTim, s.manage c = .callback curTime t nextTim → s.updated c = false →
  s.status t = ⟨.running,some c⟩
 /-- What waits on a run list has expired, unless it is being reset. -/
 due : ∀ c t, g.place t = some (.run c) →
  (∃ d call, s.call d = some call ∧ call.tim = t ∧ call.stage = .add) ∨
   s.mem.expire t ≤ (s.manage c).curTime

-- Moving along

/-- Timers go from the list of a core to its run list, or away. -/
def Later (core : Fin k) (place place' : Fin n → Option (Place k)) : Prop :=
 ∀ t, place' t = place t ∨ place' t = none ∨ place t = some (.list core) ∧
  place' t = some (.run core)

lemma Later.refl (core : Fin k) (place : Fin n → Option (Place k)) : Later core place place :=
 fun _ => .inl rfl

lemma Later.none (h : Later core place place') (ht : place t = none) : place' t = none := by
 obtain hsame | hnone | ⟨hlist,-⟩ := h t
 · rw [hsame,ht]
 · exact hnone
 · rw [ht] at hlist
   cases hlist

lemma Later.offList (h : Later core place place') (ht : OffList place t) : OffList place' t := by
 intro c hc
 obtain hsame | hnone | ⟨hlist,-⟩ := h t
 · exact ht c (hsame ▸ hc)
 · rw [hnone] at hc
   cases hc
 · exact ht core hlist

lemma near_congr (hplace : place' t = place t) (h : Near place t c) : Near place' t c := by
 rwa [Near,hplace]

lemma Later.near (h : Later core place place') (ht : Near place t c) : Near place' t c := by
 obtain hsame | hnone | ⟨hlist,hrun⟩ := h t
 · exact near_congr hsame ht
 · exact .inl hnone
 · obtain hnone | hc | hc := ht
   · rw [hnone] at hlist
     cases hlist
   · obtain rfl := Place.list.inj (some.inj (hlist.symm.trans hc))
     exact .inr (.inr hrun)
   · exact absurd (some.inj (hc.symm.trans hlist)) (Place.run_ne_list c core)

lemma Later.run (h : Later core place place') (hne : c ≠ core) (ht : place' t = some (.run c)) :
 place t = some (.run c) := by
 obtain hsame | hnone | ⟨-,hrun⟩ := h t
 · rw [← hsame,ht]
 · rw [hnone] at ht
   cases ht
 · exact absurd (Place.run.inj (some.inj (ht.symm.trans hrun))) hne

variable {kept freed : Prop} {s s' : State n k} {g g' : Layout n k} {m m' : Mem n k}
 {call call' : Call n k}

variable {o : Option (Fin k)}

lemma statusFits_stop (hst : s.status t = ⟨.stop,o⟩) (hoff : OffList place t)
 (hfreed : freed → place t = none) : StatusFits kept freed s place t := by
 unfold StatusFits
 rw [hst]
 exact ⟨hoff,hfreed⟩

lemma statusFits_pending (hst : s.status t = ⟨.pending,some c⟩) (hnear : Near place t c)
 (hkept : kept → place t = none → Rearming s c t) : StatusFits kept freed s place t := by
 unfold StatusFits
 rw [hst]
 exact ⟨c,rfl,hnear,hkept⟩

lemma statusFits_running (hst : s.status t = ⟨.running,o⟩) (hplace : place t = none) :
 StatusFits kept freed s place t := by
 unfold StatusFits
 rw [hst]
 exact hplace

lemma statusFits_config (hst : s.status t = ⟨.config,o⟩) : StatusFits kept freed s place t := by
 unfold StatusFits
 rw [hst]
 trivial

section

variable (h : StatusFits kept freed s place t)

include h

lemma StatusFits.stop (hst : (s.status t).state = .stop) :
 OffList place t ∧ (freed → place t = none) := by
 unfold StatusFits at h
 rw [hst] at h
 exact h

lemma StatusFits.pending (hst : (s.status t).state = .pending) :
 ∃ c, (s.status t).owner = some c ∧ Near place t c ∧ (kept → place t = none → Rearming s c t) := by
 unfold StatusFits at h
 rw [hst] at h
 exact h

lemma StatusFits.running (hst : (s.status t).state = .running) : place t = none := by
 unfold StatusFits at h
 rw [hst] at h
 exact h

end

lemma stageFits_config (h : call.stage = .config) : StageFits kept m place call := by
 unfold StageFits
 rw [h]
 trivial

lemma StageFits.later (h : StageFits kept m place call) (hlater : Later core place place')
 (hexpire : m'.expire = m.expire)
 (hkept : kept → call.stage = .publish → call.op ≠ .stop → place call.tim ≠ none →
  place' call.tim ≠ none) :
 StageFits kept m' place' call := by
 obtain ⟨tim,op,isLocked,stage⟩ := call
 cases stage with
 | config => exact stageFits_config rfl
 | del o =>
  cases op with
  | reset expire period c | stop => exact hlater.near h
 | write =>
  cases op with
  | reset expire period c | stop => exact hlater.offList h
 | add =>
  cases op with
  | reset expire period c | stop => exact ⟨hlater.offList h.1,hexpire ▸ h.2⟩
 | publish =>
  cases op with
  | reset expire period c => exact ⟨hlater.near h.1,fun hk => hkept hk rfl nofun (h.2 hk)⟩
  | stop => exact hlater.offList h

lemma StageFits.congr (h : StageFits kept m place call) (hplace : place' call.tim = place call.tim)
 (hexpire : m'.expire call.tim = m.expire call.tim) : StageFits kept m' place' call := by
 unfold StageFits OffList Near at h ⊢
 rw [hplace,hexpire]
 exact h

/-- Everything of other cores, and the status of other timers, is as before. -/
structure Frame (core : Fin k) (T : Option (Fin n)) (s s' : State n k) : Prop where
 status : ∀ t, t ∉ T → s'.status t = s.status t
 call : ∀ c, c ≠ core → s'.call c = s.call c
 manage : ∀ c, c ≠ core → s'.manage c = s.manage c
 updated : ∀ c, c ≠ core → s'.updated c = s.updated c

lemma Inv.frame {T : Option (Fin n)} (h : Inv kept freed s g) (hframe : Frame core T s s')
 (hshape : Shape s'.mem (fun c => (s'.manage c).rest) g') (hlater : Later core g.place g'.place)
 (hexpire : s'.mem.expire = s.mem.expire)
 (hfree : ∀ t ∈ T, ∀ c, c ≠ core → s.status t ≠ ⟨.config,some c⟩ ∧ s.status t ≠ ⟨.running,some c⟩)
 (hstatus : ∀ t ∈ T, StatusFits kept freed s' g'.place t)
 (hold : ∀ call, s.call core = some call → call.stage ≠ .add ∧
  (call.stage = .config → call.tim ∈ T ∨ (s.status call.tim).state ≠ .pending))
 (hcall : ∀ call, s'.call core = some call →
  (call.stage ≠ .config → s'.status call.tim = ⟨.config,some core⟩) ∧
  StageFits kept s'.mem g'.place call)
 (hcallback : ∀ curTime t nextTim, s'.manage core = .callback curTime t nextTim →
  s'.updated core = false → s'.status t = ⟨.running,some core⟩)
 (hdue : ∀ t, g'.place t = some (.run core) → s.mem.expire t ≤ (s'.manage core).curTime ∨
  g.place t = some (.run core) ∧ (s'.manage core).curTime = (s.manage core).curTime)
 (hgone : kept → ∀ t, t ∉ T → g.place t ≠ none → g'.place t = none → (s.status t).state ≠ .pending ∧
  ∀ c call, s.call c = some call → call.tim = t → call.stage = .publish → call.op = .stop) :
 Inv kept freed s' g' where
 shape := hshape
 status t := by
  by_cases ht : t ∈ T
  · exact hstatus t ht
  · have hfits := h.status t
    unfold StatusFits at hfits ⊢
    rw [hframe.status t ht]
    cases hst : (s.status t).state with
    | stop =>
     rw [hst] at hfits
     exact ⟨hlater.offList hfits.1,fun hf => hlater.none (hfits.2 hf)⟩
    | pending =>
     rw [hst] at hfits
     obtain ⟨c,howner,hnear,hkept⟩ := hfits
     refine ⟨c,howner,hlater.near hnear,fun hk hnone => ?_⟩
     have hbefore : g.place t = none := by
      by_contra hne
      exact (hgone hk t ht hne hnone).1 hst
     obtain ⟨hmanage,op,hconfig⟩ := hkept hk hbefore
     -- the core that arms the timer again would be at the timer
     have hc : c ≠ core := by
      rintro rfl
      obtain hT | hne := (hold _ hconfig).2 rfl
      · exact ht hT
      · exact hne hst
     exact ⟨by rw [hframe.manage c hc]; exact hmanage,op,by rw [hframe.call c hc]; exact hconfig⟩
    | running =>
     rw [hst] at hfits
     exact hlater.none hfits
    | config => trivial
 calls c call hc hstage := by
  by_cases hcore : c = core
  · subst hcore
    exact (hcall call hc).1 hstage
  · rw [hframe.call c hcore] at hc
    have hconfig := h.calls c call hc hstage
    rw [hframe.status call.tim fun ht => (hfree _ ht c hcore).1 hconfig,hconfig]
 stages c call hc := by
  by_cases hcore : c = core
  · subst hcore
    exact (hcall call hc).2
  · rw [hframe.call c hcore] at hc
    by_cases hstage : call.stage = .config
    · exact stageFits_config hstage
    · have hconfig := h.calls c call hc hstage
      have ht : call.tim ∉ T := fun ht => (hfree _ ht c hcore).1 hconfig
      refine (h.stages c call hc).later hlater hexpire fun hk hpublish hop hne hnone => ?_
      exact hop ((hgone hk _ ht hne hnone).2 c call hc rfl hpublish)
 callback c curTime t nextTim hmanage hupdated := by
  by_cases hcore : c = core
  · subst hcore
    exact hcallback curTime t nextTim hmanage hupdated
  · rw [hframe.manage c hcore] at hmanage
    rw [hframe.updated c hcore] at hupdated
    have hrunning := h.callback c curTime t nextTim hmanage hupdated
    rw [hframe.status t fun ht => (hfree t ht c hcore).2 hrunning,hrunning]
 due c t hrun := by
  have hadd : (∃ d call, s.call d = some call ∧ call.tim = t ∧ call.stage = .add) →
   ∃ d call, s'.call d = some call ∧ call.tim = t ∧ call.stage = .add := by
   rintro ⟨d,call,hd,htim,hstage⟩
   have hne : d ≠ core := by
    rintro rfl
    exact (hold call hd).1 hstage
   exact ⟨d,call,by rw [hframe.call d hne,hd],htim,hstage⟩
  rw [hexpire]
  by_cases hcore : c = core
  · subst hcore
    obtain hle | ⟨hbefore,hsame⟩ := hdue t hrun
    · exact .inr hle
    · rw [hsame]
      exact (h.due c t hbefore).imp_left hadd
  · rw [hframe.manage c hcore]
    exact (h.due c t (hlater.run hcore hrun)).imp_left hadd

/-- A call that has configured its timer goes on to another stage and changes only what concerns the
timer. -/
lemma Inv.stage (h : Inv kept freed s g) (hcall : s.call core = some call)
 (hstage : call.stage ≠ .config)
 (call' : Call n k) (htim : call'.tim = call.tim) (hstatus : s'.status = s.status)
 (hmanage : s'.manage = s.manage) (hupdated : s'.updated = s.updated)
 (hcalls : s'.call = update s.call core (some call'))
 (hshape : Shape s'.mem (fun c => (s'.manage c).rest) g')
 (hplace : ∀ t, t ≠ call.tim → g'.place t = g.place t)
 (hexpire : ∀ t, t ≠ call.tim → s'.mem.expire t = s.mem.expire t)
 (hfits : StageFits kept s'.mem g'.place call')
 (hdue : ∀ c, g'.place call.tim = some (.run c) → call'.stage = .add ∨
  s'.mem.expire call.tim ≤ (s.manage c).curTime) : Inv kept freed s' g' := by
 have hconfig := h.calls core call hcall hstage
 have hself : s'.call core = some call' := by
  rw [hcalls]
  exact update_self ..
 have hother : ∀ c, c ≠ core → s'.call c = s.call c := by
  intro c hc
  rw [hcalls]
  exact update_of_ne hc ..
 -- nobody else has configured the timer
 have hfree : ∀ c call1, c ≠ core → s.call c = some call1 → call1.tim = call.tim →
  call1.stage = .config := by
  intro c call1 hc hcall1 heq
  by_contra hne
  have howner := h.calls c call1 hcall1 hne
  rw [heq,hconfig] at howner
  exact hc (some.inj (congrArg Status.owner howner)).symm
 refine ⟨hshape,fun t => ?_,fun c call1 hc hne => ?_,fun c call1 hc =>
  ?_,fun c curTime t nextTim hm hu => ?_,fun c t hrun => ?_⟩
 · have hold := h.status t
   unfold StatusFits at hold ⊢
   rw [hstatus]
   by_cases ht : t = call.tim
   · rw [ht,hconfig]
     trivial
   · cases hst : (s.status t).state with
     | stop =>
      rw [hst] at hold
      exact ⟨fun c => hplace t ht ▸ hold.1 c,fun hf => (hplace t ht).trans (hold.2 hf)⟩
     | pending =>
      rw [hst] at hold
      obtain ⟨c,howner,hnear,hkept⟩ := hold
      refine ⟨c,howner,near_congr (hplace t ht) hnear,fun hk hnone => ?_⟩
      rw [hplace t ht] at hnone
      obtain ⟨hm,op,hc⟩ := hkept hk hnone
      have hne : c ≠ core := by
       rintro rfl
       rw [hcall] at hc
       exact hstage (congrArg Call.stage (some.inj hc))
      exact ⟨by rw [hmanage]; exact hm,op,by rw [hother c hne]; exact hc⟩
     | running =>
      rw [hst] at hold
      exact (hplace t ht).trans hold
     | config => trivial
 · rw [hstatus]
   by_cases hcore : c = core
   · subst hcore
     obtain rfl := some.inj (hself.symm.trans hc)
     rw [htim,hconfig]
   · rw [hother c hcore] at hc
     exact h.calls c call1 hc hne
 · by_cases hcore : c = core
   · subst hcore
     obtain rfl := some.inj (hself.symm.trans hc)
     exact hfits
   · rw [hother c hcore] at hc
     by_cases heq : call1.tim = call.tim
     · exact stageFits_config (hfree c call1 hcore hc heq)
     · exact (h.stages c call1 hc).congr (hplace _ heq) (hexpire _ heq)
 · rw [hstatus]
   rw [hmanage] at hm
   rw [hupdated] at hu
   exact h.callback c curTime t nextTim hm hu
 · rw [hmanage]
   by_cases ht : t = call.tim
   · subst ht
     obtain hadd | hle := hdue c hrun
     · exact .inl ⟨core,call',hself,htim,hadd⟩
     · exact .inr hle
   · rw [hplace t ht] at hrun
     obtain ⟨d,call1,hd,heq,hadd⟩ | hle := h.due c t hrun
     · have hne : d ≠ core := by
        rintro rfl
        rw [hcall] at hd
        cases hd
        exact ht heq.symm
       exact .inl ⟨d,call1,by rw [hother d hne,hd],heq,hadd⟩
     · rw [hexpire t ht]
       exact .inr hle

end Packages.HisiTimer

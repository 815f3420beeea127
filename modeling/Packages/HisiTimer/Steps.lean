import Packages.HisiTimer.Protocol

/-!
# Every step keeps the laws
-/

namespace Packages.HisiTimer

open Function State Option

open Transition

variable {n k : Nat} {kept freed : Prop} {s s' : State n k} {g : Layout n k} {core : Fin k}
variable {call : Call n k} {tim : Fin n} {curTime rand : Nat}

lemma Shape.runList_eq {s : State n k} (h : Shape s.mem (fun c => (s.manage c).rest) g)
 (c : Fin k) : s.runList c = g.run c :=
 (h.runs c).walk_eq ((h.nodup c).length_le_card.trans_eq (Fintype.card_fin n))

lemma Shape.levelList_eq {s : State n k}
 (h : Shape s.mem (fun c => (s.manage c).rest) g) (c : Fin k)
 (lvl : Nat) : s.levelList c lvl = g.list c lvl :=
 Linked.walk_eq ((h.lists c).linked lvl)
  (((h.lists c).levels.nodup_level lvl).length_le_card.trans_eq (Fintype.card_fin n))

lemma rest_setManage (s : State n k) (core : Fin k) (mg : Manage n) :
 (fun c => ((s.setManage core mg).manage c).rest) =
  update (fun c => (s.manage c).rest) core mg.rest := by
 funext c
 exact apply_update (fun _ => Manage.rest) s.manage core mg c

lemma Shape.setManage {m : Mem n k} (h : Shape m (fun c => (s.manage c).rest) g) {mg : Manage n}
 (hrest : mg.rest = (s.manage core).rest) :
 Shape m (fun c => ((s.setManage core mg).manage c).rest) g := by
 rw [rest_setManage,hrest]
 exact (update_eq_self core fun c => (s.manage c).rest).symm ▸ h

lemma Shape.place_ne_run {m : Mem n k} {rest : Fin k → Option (Fin n)} (h : Shape m rest g)
 (hrest : rest core = none) (t : Fin n) : g.place t ≠ some (.run core) := by
 intro ht
 have hmem := (h.onRun core t).mpr ht
 rw [h.run_eq_nil hrest] at hmem
 exact absurd hmem List.not_mem_nil

lemma ne_of_notMem_some {t u : Fin n} (h : u ∉ (some t : Option (Fin n))) : u ≠ t :=
 fun heq => h (heq ▸ rfl)

lemma setManage_self (s : State n k) (core : Fin k) (mg : Manage n) :
 (s.setManage core mg).manage core = mg :=
 update_self ..

lemma setCall_self (s : State n k) (core : Fin k) (call : Option (Call n k)) :
 (s.setCall core call).call core = call :=
 update_self ..

/-- A timer that is nowhere stays so, unless the core is resetting it. -/
def Joins (s : State n k) (core : Fin k) (g g' : Layout n k) : Prop :=
 ∀ t, g.place t = none → g'.place t = none ∨ ∃ call, s.call core = some call ∧ call.tim = t ∧
  call.op ≠ .stop

lemma Joins.refl : Joins s core g g := fun _ ht => .inl ht

lemma Later.joins {g' : Layout n k} (h : Later core g.place g'.place) : Joins s core g g' :=
 fun _ ht => .inl (h.none ht)

-- Steps of a manage

section

variable (h : Inv kept freed s g) (hcall : s.call core = none)

include h hcall

lemma Inv.setManage {mg : Manage n} (hrest : mg.rest = (s.manage core).rest)
 (htime : mg.curTime = (s.manage core).curTime ∨ (s.manage core).rest = none)
 (hcallback : ∀ curTime t nextTim, mg ≠ .callback curTime t nextTim) :
 Inv kept freed (s.setManage core mg) g := by
 refine h.frame (T := none)
  ⟨fun _ _ => rfl,fun _ _ => rfl,fun c hc => update_of_ne hc ..,fun _ _ => rfl⟩
  (h.shape.setManage hrest) (Later.refl core g.place) rfl (fun t ht => nomatch ht)
   (fun t ht => nomatch ht)
  (fun _ hc => nomatch hcall.symm.trans hc) (fun _ hc => nomatch hcall.symm.trans hc)
  (fun ct t nt hm _ => ?_) (fun t ht => ?_) fun _ t _ hne hnone => absurd hnone hne
 · rw [setManage_self] at hm
   exact absurd hm (hcallback ct t nt)
 · rw [setManage_self]
   obtain hsame | hnone := htime
   · exact .inr ⟨ht,hsame⟩
   · exact absurd ht (h.shape.place_ne_run hnone t)

lemma Inv.manageStart (hmanage : s.manage core = .sampled curTime)
 (hstep : s.manageStart core curTime = some s') :
 ∃ g', Inv kept freed s' g' ∧ Joins s core g g' := by
 have hrest : (s.manage core).rest = none := by rw [hmanage]; rfl
 have hidle : Inv kept freed (s.setManage core .idle) g :=
  h.setManage hcall hrest.symm (.inr hrest) fun _ _ _ => nofun
 unfold State.manageStart at hstep
 split at hstep
 · cases hstep
   exact ⟨g,hidle,Joins.refl⟩
 · next first hfirst =>
   split at hstep
   · cases hstep
     exact ⟨g,hidle,Joins.refl⟩
   · next hexpired =>
     obtain ⟨m',g',hbreak,hshape,hexpire,hplace⟩ :=
      h.shape.break_ hrest hfirst (Nat.le_of_not_lt hexpired)
     rw [hbreak] at hstep
     cases hstep
     have hlater : Later core g.place g'.place := by
      intro t
      rw [hplace t]
      split
      · next hboth => exact .inr (.inr ⟨hboth.1,rfl⟩)
      · exact .inl rfl
     refine ⟨g',h.frame (T := none)
      ⟨fun _ _ => rfl,fun _ _ => rfl,fun c hc => update_of_ne hc ..,fun _ _ => rfl⟩ ?_
      hlater hexpire
      (fun t ht => nomatch ht) (fun t ht => nomatch ht) (fun _ hc => nomatch hcall.symm.trans hc)
      (fun _ hc => nomatch hcall.symm.trans hc) (fun ct t nt hm _ => ?_) (fun t ht => ?_)
      fun _ t _ hne hnone => ?_,hlater.joins⟩
     · rw [rest_setManage]
       exact hshape
     · rw [setManage_self] at hm
       cases hm
     · rw [setManage_self]
       rw [hplace t] at ht
       split at ht
       · next hboth => exact .inl hboth.2
       · exact absurd ht (h.shape.place_ne_run hrest t)
     · rw [hplace t] at hnone
       split at hnone
       · cases hnone
       · exact absurd hnone hne

lemma Inv.manageWalk {cur : Option (Fin n)} (hmanage : s.manage core = .walking curTime cur)
 (hunskipped : kept → ∀ t ∈ cur, ∀ c call, s.call c = some call → call.tim = t →
  call.stage = .publish → call.op = .stop) :
 ∃ g', Inv kept freed (s.manageWalk core curTime cur) g' ∧ Joins s core g g' := by
 cases cur with
 | none =>
  have hrest : (s.manage core).rest = none := by rw [hmanage]; rfl
  have hmem : Inv kept freed { s with mem := s.mem.setHeadExpire core (s.mem.head core 0) } g :=
   { h with shape := h.shape.congr rfl rfl rfl rfl }
  exact ⟨g,hmem.setManage hcall hrest.symm (.inr hrest) fun _ _ _ => nofun,Joins.refl⟩
 | some t =>
  have hrest : (s.manage core).rest = some t := by rw [hmanage]; rfl
  obtain ⟨hrun,g',hshape,hplace⟩ := h.shape.pass hrest
  have hself : g'.place t = none := by
   rw [hplace]
   exact update_self ..
  have hother : ∀ u, u ≠ t → g'.place u = g.place u := by
   intro u hu
   rw [hplace]
   exact update_of_ne hu ..
  have hlater : Later core g.place g'.place := by
   intro u
   by_cases hu : u = t
   · subst hu
     exact .inr (.inl hself)
   · exact .inl (hother u hu)
  have hdue : ∀ u, g'.place u = some (.run core) → g.place u = some (.run core) := by
   intro u hu
   by_cases heq : u = t
   · rw [heq,hself] at hu
     cases hu
   · rwa [← hother u heq]
  have hcur : (s.manage core).curTime = curTime := by rw [hmanage]; rfl
  refine ⟨g',?_,hlater.joins⟩
  simp only [State.manageWalk]
  split
  · next hpending =>
    refine h.frame (T := some t)
     ⟨fun u hu => update_of_ne (ne_of_notMem_some hu) ..,fun _ _ => rfl,
      fun c hc => update_of_ne hc ..,fun c hc => update_of_ne hc ..⟩
     ?_ hlater rfl (fun u hu c _ => ?_) (fun u hu => ?_) (fun _ hc => nomatch hcall.symm.trans hc)
     (fun _ hc => nomatch hcall.symm.trans hc) (fun ct u nt hm _ => ?_) (fun u hu => ?_)
     fun _ u hu hne hnone => ?_
    · show Shape s.mem (fun c => ((s.setManage core _).manage c).rest) g'
      rw [rest_setManage]
      exact hshape
    · cases hu
      constructor <;> exact fun heq => nomatch hpending.symm.trans (congrArg Status.state heq)
    · cases hu
      exact statusFits_running (update_self ..) hself
    · rw [setManage_self] at hm
      cases hm
      exact update_self ..
    · rw [setManage_self]
      exact .inr ⟨hdue u hu,hcur.symm⟩
    · exact absurd ((hother u (ne_of_notMem_some hu)).symm.trans hnone) hne
  · next hnot =>
    refine h.frame (T := none)
     ⟨fun _ _ => rfl,fun _ _ => rfl,fun c hc => update_of_ne hc ..,fun _ _ => rfl⟩ ?_ hlater rfl
     (fun t ht => nomatch ht) (fun t ht => nomatch ht) (fun _ hc => nomatch hcall.symm.trans hc)
     (fun _ hc => nomatch hcall.symm.trans hc) (fun ct u nt hm _ => ?_) (fun u hu => ?_)
     fun hk u _ hne hnone => ?_
    · rw [rest_setManage]
      exact hshape
    · rw [setManage_self] at hm
      cases hm
    · rw [setManage_self]
      exact .inr ⟨hdue u hu,hcur.symm⟩
    · have heq : u = t := by
       by_contra heq
       exact hne ((hother u heq).symm.trans hnone)
      subst heq
      exact ⟨hnot,hunskipped hk u rfl⟩

lemma Inv.manageReturn {nextTim : Option (Fin n)}
 (hmanage : s.manage core = .callback curTime tim nextTim) :
 Inv kept freed (s.manageReturn core curTime tim nextTim) g := by
 have hrest : (s.manage core).rest = nextTim := by rw [hmanage]; rfl
 have hcur : (s.manage core).curTime = curTime := by rw [hmanage]; rfl
 unfold State.manageReturn
 split
 · exact h.setManage hcall hrest.symm (.inl hcur.symm) fun _ _ _ => nofun
 · next hupdated =>
   have hrunning := h.callback core curTime tim nextTim hmanage (Bool.eq_false_iff.mpr hupdated)
   have hplace : g.place tim = none := (h.status tim).running (congrArg Status.state hrunning)
   have hfree : ∀ t ∈ some tim, ∀ c, c ≠ core →
    s.status t ≠ ⟨.config,some c⟩ ∧ s.status t ≠ ⟨.running,some c⟩ := by
    intro t ht c hc
    cases ht
    rw [hrunning]
    exact ⟨nofun,fun heq => hc (some.inj (congrArg Status.owner heq)).symm⟩
   split
   · refine h.frame
      ⟨fun u hu => update_of_ne (ne_of_notMem_some hu) ..,fun _ _ => rfl,
       fun c hc => update_of_ne hc ..,fun _ _ => rfl⟩
      (h.shape.setManage hrest.symm) (Later.refl core g.place) rfl hfree (fun u hu => ?_)
      (fun _ hc => nomatch hcall.symm.trans hc) (fun _ hc => nomatch hcall.symm.trans hc)
      (fun ct u nt hm _ => ?_) (fun u hu => ?_) fun _ u _ hne hnone => absurd hnone hne
     · cases hu
       refine statusFits_stop (update_self ..) (fun c hc => ?_) fun _ => hplace
       rw [hplace] at hc
       cases hc
     · rw [setManage_self] at hm
       cases hm
     · rw [setManage_self]
       exact .inr ⟨hu,hcur.symm⟩
   · refine h.frame ⟨fun u hu => update_of_ne (ne_of_notMem_some hu) ..,
      fun c hc => update_of_ne hc ..,fun c hc => update_of_ne hc ..,fun _ _ => rfl⟩
      (h.shape.setManage hrest.symm) (Later.refl core g.place) rfl hfree (fun u hu => ?_)
      (fun _ hc => nomatch hcall.symm.trans hc) (fun call hc => ?_)
      (fun ct u nt hm _ => ?_) (fun u hu => ?_) fun _ u _ hne hnone => absurd hnone hne
     · cases hu
       exact statusFits_pending (update_self ..) (.inl hplace) fun _ _ =>
        ⟨⟨curTime,nextTim,update_self ..⟩,_,update_self ..⟩
     · rw [setCall_self] at hc
       cases hc
       exact ⟨fun hne => absurd rfl hne,stageFits_config rfl⟩
     · cases (setManage_self ..).symm.trans hm
     · exact .inr ⟨hu,(congrArg Manage.curTime (setManage_self ..)).trans hcur.symm⟩

end

-- Steps of a call

/-- What a return leaves as it is. -/
structure Returned (core : Fin k) (s s' : State n k) : Prop where
 mem : s'.mem = s.mem
 status : s'.status = s.status
 updated : s'.updated = s.updated
 call : s'.call core = none
 calls : ∀ c, c ≠ core → s'.call c = s.call c
 manages : ∀ c, c ≠ core → s'.manage c = s.manage c
 rest : (fun c => (s'.manage c).rest) = fun c => (s.manage c).rest
 curTime : (s'.manage core).curTime = (s.manage core).curTime
 callback : ∀ curTime t nextTim, s'.manage core = .callback curTime t nextTim →
  s.manage core = .callback curTime t nextTim

lemma returned (s : State n k) (core : Fin k) : Returned core s (s.return_ core) := by
 have hcalls : ∀ c, c ≠ core → (s.setCall core none).call c = s.call c :=
  fun c hc => update_of_ne hc ..
 unfold return_
 simp only
 split
 · next curTime tim nextTim hmanage =>
   change s.manage core = .rearming curTime tim nextTim at hmanage
   refine ⟨rfl,rfl,rfl,setCall_self ..,hcalls,fun c hc => update_of_ne hc ..,?_,?_,
    fun ct t nt hm => ?_⟩
   · rw [rest_setManage]
     have hsame : (Manage.walking curTime nextTim).rest = (s.manage core).rest := by
      rw [hmanage]; rfl
     rw [hsame]
     exact update_eq_self core fun c => (s.manage c).rest
   · rw [setManage_self,hmanage]
     rfl
   · rw [setManage_self] at hm
     cases hm
 · exact ⟨rfl,rfl,rfl,setCall_self ..,hcalls,fun _ _ => rfl,rfl,rfl,fun _ _ _ hm => hm⟩

lemma Inv.configFail (h : Inv kept freed s g) (hcall : s.call core = some call)
 (hstage : call.stage = .config) (hnot : (s.status call.tim).state ≠ .pending) :
 Inv kept freed (s.return_ core) g := by
 have hret := returned s core
 refine h.frame (T := none)
  ⟨fun t _ => congrFun hret.status t,hret.calls,hret.manages,fun c _ => congrFun hret.updated c⟩
  (by rw [hret.mem,hret.rest]; exact h.shape) (Later.refl core g.place) (by rw [hret.mem])
  (fun t ht => nomatch ht) (fun t ht => nomatch ht) (fun call1 hc => ?_) (fun call1 hc => ?_)
  (fun ct t nt hm hu => ?_) (fun t ht => .inr ⟨ht,hret.curTime⟩) fun _ t _ hne hnone =>
   absurd hnone hne
 · obtain rfl := some.inj (hcall.symm.trans hc)
   rw [hstage]
   exact ⟨nofun,fun _ => .inr hnot⟩
 · rw [hret.call] at hc
   cases hc
 · rw [hret.status]
   rw [hret.updated] at hu
   exact h.callback core ct t nt (hret.callback ct t nt hm) hu

lemma afterConfig_tim (call : Call n k) (prev : Status k) :
 (State.Call.afterConfig call prev).tim = call.tim := by
 unfold State.Call.afterConfig
 split <;> rfl

section

variable (h : Inv kept freed s g)

include h

lemma Inv.afterConfig (hconfig : (s.status call.tim).state ≠ .config) :
 StageFits kept s.mem g.place (State.Call.afterConfig call (s.status call.tim)) := by
 have hfits := h.status call.tim
 obtain ⟨tim,op,isLocked,stage⟩ := call
 change StatusFits kept freed s g.place tim at hfits
 -- without a list the timer is written or stopped
 have hoff : (s.status tim).state ≠ .pending → OffList g.place tim := by
  intro hne c hc
  cases hst : (s.status tim).state with
  | stop => exact (hfits.stop hst).1 c hc
  | pending => exact hne hst
  | running =>
   rw [hfits.running hst] at hc
   cases hc
  | config => exact hconfig hst
 have hpending' : (∀ c, (s.status tim).state = .pending → (s.status tim).owner = some c → False) →
  (s.status tim).state ≠ .pending := by
  intro hnone hst
  obtain ⟨c,hc,-⟩ := hfits.pending hst
  exact hnone c hst hc
 unfold State.Call.afterConfig
 split
 · next owner hst howner =>
   obtain ⟨c,hc,hnear,-⟩ := hfits.pending hst
   obtain rfl := some.inj (howner.symm.trans hc)
   cases op with
   | reset expire period c | stop => exact hnear
 · next hop hpending =>
   exact hoff (hpending' hpending)
 · next hop hpending =>
   obtain rfl := hop
   exact hoff (hpending' hpending)

section

variable (hcall : s.call core = some call)

include hcall

lemma Inv.config (hstage : call.stage = .config) : Inv kept freed (s.config core call) g := by
 unfold State.config
 simp only
 split
 · next hbusy =>
   refine h.configFail hcall hstage fun hpending => ?_
   rw [hpending] at hbusy
   obtain ⟨hrunning,-⟩ | hconfig := hbusy
   · cases hrunning
   · cases hconfig
 · next hbusy =>
   push Not at hbusy
   obtain ⟨hrunning,hconfig⟩ := hbusy
   obtain ⟨s1,hs1,hmem,hstatus,hcalls,hmanage,hupdated⟩ : ∃ s1 : State n k,
    (if (s.status call.tim).state = .running then
     { s.setStatus call.tim ⟨.config,some core⟩ with
       updated := update (s.setStatus call.tim ⟨.config,some core⟩).updated core true }
     else s.setStatus call.tim ⟨.config,some core⟩) = s1 ∧
    s1.mem = s.mem ∧ s1.status = update s.status call.tim ⟨.config,some core⟩ ∧
    s1.call = s.call ∧ s1.manage = s.manage ∧ (∀ c, c ≠ core → s1.updated c = s.updated c) ∧
     (s1.updated core = false → s.updated core = false ∧ (s.status call.tim).state ≠ .running) := by
    refine ⟨_,rfl,?_⟩
    split
    · refine ⟨rfl,rfl,rfl,rfl,fun c hc => update_of_ne hc ..,fun hfalse => ?_⟩
      cases (update_self ..).symm.trans hfalse
    · next hne => exact ⟨rfl,rfl,rfl,rfl,fun _ _ => rfl,fun hfalse => ⟨hfalse,hne⟩⟩
   rw [hs1]
   have hself :
    (s1.setCall core (some (State.Call.afterConfig call (s.status call.tim)))).status call.tim =
    ⟨.config,some core⟩ := by
    show s1.status call.tim = _
    rw [hstatus]
    exact update_self ..
   have hother : ∀ t, t ≠ call.tim → s1.status t = s.status t := by
    intro t ht
    rw [hstatus]
    exact update_of_ne ht ..
   refine h.frame
    ⟨fun t ht => hother t (ne_of_notMem_some ht),fun c hc => ?_,fun c _ => congrFun hmanage
     c,hupdated.1⟩
    ?_ (Later.refl core g.place) (congrArg Mem.expire hmem) (fun t ht c hc => ?_) (fun t ht => ?_)
    (fun call1 hc => ?_) (fun call1 hc => ?_) (fun ct t nt hm hu => ?_) (fun t ht => .inr ⟨ht,?_⟩)
    fun _ t _ hne hnone => absurd hnone hne
   · show update s1.call core _ c = s.call c
     rw [update_of_ne hc,hcalls]
   · show Shape s1.mem (fun c => (s1.manage c).rest) g
     rw [hmem,hmanage]
     exact h.shape
   · cases ht
     refine ⟨fun heq => hconfig (congrArg Status.state heq),fun heq => ?_⟩
     have howner := hrunning (congrArg Status.state heq)
     rw [heq] at howner
     exact hc (some.inj howner)
   · cases ht
     exact statusFits_config hself
   · obtain rfl := some.inj (hcall.symm.trans hc)
     rw [hstage]
     exact ⟨nofun,fun _ => .inl rfl⟩
   · rw [setCall_self] at hc
     cases hc
     refine ⟨fun _ => by rw [afterConfig_tim]; exact hself,?_⟩
     show StageFits kept s1.mem g.place _
     rw [hmem]
     exact h.afterConfig hconfig
   · change s1.manage core = .callback ct t nt at hm
     obtain ⟨hfalse,hne⟩ := hupdated.2 hu
     rw [hmanage] at hm
     have hcb := h.callback core ct t nt hm hfalse
     refine (hother t ?_).trans hcb
     rintro rfl
     exact hne (congrArg Status.state hcb)
   · show (s1.manage core).curTime = _
     rw [hmanage]

lemma Inv.publish (hstage : call.stage = .publish) {st : Status k}
 (hfits : StatusFits kept freed ((s.setStatus call.tim st).return_ core) g.place call.tim) :
 Inv kept freed ((s.setStatus call.tim st).return_ core) g := by
 have hconfig := h.calls core call hcall (by rw [hstage]; nofun)
 have hret := returned (s.setStatus call.tim st) core
 have hother : ∀ t, t ≠ call.tim → ((s.setStatus call.tim st).return_ core).status t =
  s.status t := by
  intro t ht
  rw [hret.status]
  exact update_of_ne ht ..
 refine h.frame (T := some call.tim)
  ⟨fun t ht => hother t (ne_of_notMem_some ht),hret.calls,hret.manages,fun c _ =>
   congrFun hret.updated c⟩
  (by rw [hret.mem,hret.rest]; exact h.shape) (Later.refl core g.place) (by rw [hret.mem]; rfl)
  (fun t ht c hc => ?_) (fun t ht => ?_) (fun call1 hc => ?_) (fun call1 hc => ?_)
  (fun ct t nt hm hu => ?_) (fun t ht => .inr ⟨ht,hret.curTime⟩) fun _ t _ hne hnone =>
   absurd hnone hne
 · cases ht
   rw [hconfig]
   exact ⟨fun heq => hc (some.inj (congrArg Status.owner heq)).symm,nofun⟩
 · cases ht
   exact hfits
 · obtain rfl := some.inj (hcall.symm.trans hc)
   rw [hstage]
   exact ⟨nofun,nofun⟩
 · rw [hret.call] at hc
   cases hc
 · rw [hret.updated] at hu
   have hcb := h.callback core ct t nt (hret.callback ct t nt hm) hu
   refine (hother t ?_).trans hcb
   rintro rfl
   rw [hconfig] at hcb
   cases hcb

lemma Inv.del {o : Fin k}
 (hstage : call.stage = .del o) {m' : Mem n k} (hdel : s.mem.timerDel call.tim o = some m') :
 ∃ g', Inv kept freed ({ s with mem := m' }.setCall core
  (some { call with stage := match call.op with | .reset .. => .write | .stop => .publish })) g' ∧
  Joins s core g g' := by
 obtain ⟨m1,g',hdel1,hshape,hexpire,hplace⟩ := h.shape.del call.tim o
 obtain rfl := some.inj (hdel1.symm.trans hdel)
 have hnear : Near g.place call.tim o := by
  have hfits := h.stages core call hcall
  unfold StageFits at hfits
  rw [hstage] at hfits
  exact hfits
 have hself : g'.place call.tim =
  if g.place call.tim = some (.list o) then none else g.place call.tim := by
  rw [hplace]
  exact update_self ..
 have hother : ∀ t, t ≠ call.tim → g'.place t = g.place t := by
  intro t ht
  rw [hplace]
  exact update_of_ne ht ..
 have hoff : OffList g'.place call.tim := by
  intro c hc
  rw [hself] at hc
  split at hc
  · cases hc
  · next hne =>
    obtain hnone | hlist | hrun := hnear
    · rw [hnone] at hc
      cases hc
    · exact hne hlist
    · exact Place.run_ne_list o c (some.inj (hrun.symm.trans hc))
 refine ⟨g',h.stage hcall (by rw [hstage]; nofun)
  { call with stage := match call.op with | .reset .. => .write | .stop => .publish } rfl
  rfl rfl rfl rfl
  hshape hother (fun t _ => congrFun hexpire t) ?_ fun c hrun => .inr ?_,fun t ht => .inl ?_⟩
 · obtain ⟨tim,op,isLocked,stage⟩ := call
   cases op with
   | reset expire period c | stop => exact hoff
 · show m1.expire call.tim ≤ _
   rw [hexpire]
   rw [hself] at hrun
   split at hrun
   · cases hrun
   · obtain ⟨d,call1,hd,htim,hadd⟩ | hle := h.due c call.tim hrun
     · -- only this call has the timer
       have hconfig := h.calls core call hcall (by rw [hstage]; nofun)
       have hconfig1 := h.calls d call1 hd (by rw [hadd]; nofun)
       rw [htim,hconfig] at hconfig1
       obtain rfl := some.inj (congrArg Status.owner hconfig1)
       obtain rfl := some.inj (hcall.symm.trans hd)
       rw [hstage] at hadd
       cases hadd
     · exact hle
 · by_cases heq : t = call.tim
   · rw [heq,hself,← heq,ht]
     exact ite_self ..
   · exact (hother t heq).trans ht

lemma Inv.write (hstage : call.stage = .write)
 {expire period : Nat} {c : Fin k} (hop : call.op = .reset expire period c)
 (hpos : expire%2^64 ≠ 0) :
 Inv kept freed ({ s with
  mem := { s.mem with expire := update s.mem.expire call.tim (expire%2^64) }
  period := update s.period call.tim period }.setCall core
   (some { call with stage := .add })) g := by
 have hoff : OffList g.place call.tim := by
  have hfits := h.stages core call hcall
  unfold StageFits at hfits
  rw [hstage,hop] at hfits
  exact hfits
 refine h.stage hcall (by rw [hstage]; nofun) { call with stage := .add } rfl rfl rfl rfl rfl
  (h.shape.write hoff (Nat.mod_lt _ (by decide))) (fun _ _ => rfl)
  (fun t ht => update_of_ne ht ..) ?_
  fun _ _ => .inl rfl
 obtain ⟨tim,op,isLocked,stage⟩ := call
 obtain rfl : op = .reset expire period c := hop
 refine ⟨hoff,?_⟩
 show 0 < update s.mem.expire tim (expire%2^64) tim
 rw [update_self]
 exact Nat.pos_of_ne_zero hpos

lemma Inv.add (hstage : call.stage = .add)
 {expire period : Nat} {c : Fin k} (hop : call.op = .reset expire period c)
 (hnot : ∀ c, call.tim ∉ s.runList c) {m' : Mem n k}
 (hadd : s.mem.timerAdd call.tim c rand = some m') :
 ∃ g', Inv kept freed ({ s with mem := m' }.setCall core (some { call with stage := .publish })) g'
  ∧ Joins s core g g' := by
 have hfits := h.stages core call hcall
 unfold StageFits at hfits
 rw [hstage,hop] at hfits
 obtain ⟨hoff,hpos⟩ := hfits
 have hnone : g.place call.tim = none := by
  cases hplace : g.place call.tim with
  | none => rfl
  | some p =>
   cases p with
   | list d => exact absurd hplace (hoff d)
   | run d =>
    refine absurd ?_ (hnot d)
    rw [h.shape.runList_eq]
    exact (h.shape.onRun d call.tim).mpr hplace
 obtain ⟨m1,g',hadd1,hshape,hexpire,hplace⟩ := h.shape.add hnone hpos c rand
 obtain rfl := some.inj (hadd1.symm.trans hadd)
 have hself : g'.place call.tim = some (.list c) := by
  rw [hplace]
  exact update_self ..
 have hother : ∀ t, t ≠ call.tim → g'.place t = g.place t := by
  intro t ht
  rw [hplace]
  exact update_of_ne ht ..
 refine ⟨g',h.stage hcall (by rw [hstage]; nofun) { call with stage := .publish } rfl
  rfl rfl rfl rfl hshape hother (fun t _ => congrFun hexpire t) ?_ fun d hrun => ?_,fun t ht => ?_⟩
 · obtain ⟨tim,op,isLocked,stage⟩ := call
   obtain rfl : op = .reset expire period c := hop
   refine ⟨.inr (.inl hself),fun _ hnone => ?_⟩
   rw [hself] at hnone
   cases hnone
 · exact absurd (some.inj (hrun.symm.trans hself)) (Place.run_ne_list d c)
 · by_cases heq : t = call.tim
   · exact .inr ⟨call,hcall,heq.symm,by rw [hop]; nofun⟩
   · exact .inl ((hother t heq).trans ht)

lemma Inv.callStep (hsafe : call.zeroExpire = false ∧
 (call.stage = .add → ∀ c, call.tim ∉ s.runList c))
 (hunwalked : freed → call.stage = .publish → call.op = .stop → ∀ c, call.tim ∉ s.runList c)
 (hstep : s.callStep core rand call = some s') : ∃ g', Inv kept freed s' g' ∧
  Joins s core g g' := by
 have hfits := h.stages core call hcall
 have hret : ∀ st : Status k, ((s.setStatus call.tim st).return_ core).status call.tim = st := by
  intro st
  rw [(returned (s.setStatus call.tim st) core).status]
  exact update_self ..
 unfold State.callStep at hstep
 split at hstep
 · next hstage =>
   cases hstep
   exact ⟨g,h.config hcall hstage,Joins.refl⟩
 · next o hstage =>
   split at hstep
   · obtain ⟨m',hdel,rfl⟩ := map_eq_some_iff.mp hstep
     exact h.del hcall hstage hdel
   · cases hstep
 · next expire period c hstage hop =>
   cases hstep
   refine ⟨g,h.write hcall hstage hop fun hzero => ?_,Joins.refl⟩
   have hexpire := hsafe.1
   unfold Call.zeroExpire at hexpire
   rw [hstage,hop] at hexpire
   exact absurd hzero (of_decide_eq_false hexpire)
 · next expire period c hstage hop =>
   split at hstep
   · obtain ⟨m',hadd,rfl⟩ := map_eq_some_iff.mp hstep
     exact h.add hcall hstage hop (hsafe.2 hstage) hadd
   · cases hstep
 · next expire period c hstage hop =>
   cases hstep
   unfold StageFits at hfits
   rw [hstage,hop] at hfits
   exact ⟨g,h.publish hcall hstage (statusFits_pending (hret _) hfits.1 fun hk hnone =>
    absurd hnone (hfits.2 hk)),Joins.refl⟩
 · next hstage hop =>
   cases hstep
   unfold StageFits at hfits
   rw [hstage,hop] at hfits
   refine ⟨g,h.publish hcall hstage (statusFits_stop (hret _) hfits fun hf => ?_),Joins.refl⟩
   cases hplace : g.place call.tim with
   | none => rfl
   | some p =>
    cases p with
    | list d => exact absurd hplace (hfits d)
    | run d =>
     refine absurd ?_ (hunwalked hf hstage hop d)
     rw [h.shape.runList_eq]
     exact (h.shape.onRun d call.tim).mpr hplace
 · cases hstep
 · cases hstep

end

end

-- Runs

lemma inv_init : Inv kept freed (init : State n k) ⟨fun _ _ => [],fun _ => [],fun _ => none⟩ where
 shape :=
  { lists := fun _ =>
     ⟨⟨fun _ => List.Sublist.refl _,List.Pairwise.nil,List.nodup_nil,fun _ _ => rfl⟩,fun _ => rfl⟩
    onList := fun _ _ => iff_of_false List.not_mem_nil nofun
    onRun := fun _ _ => iff_of_false List.not_mem_nil nofun
    runs := fun _ => rfl
    nodup := fun _ => List.nodup_nil
    word := fun _ => Nat.two_pow_pos 64
    positive := fun _ _ => nofun }
 status _ := statusFits_stop rfl nofun fun _ => rfl
 calls _ _ := nofun
 stages _ _ := nofun
 callback _ _ _ _ := nofun
 due _ _ := nofun

/-- The runs for which the laws hold. -/
def Allowed (kept freed : Prop) (s : State n k) (a : Fin k × Action n k) : Prop :=
 Safe s a ∧ (kept → Unskipped s a) ∧ (freed → Unwalked s a)

lemma Inv.step {a : Fin k × Action n k} (h : Inv kept freed s g) (hallowed : Allowed kept freed s a)
 (hstep : s.step a = some s') : ∃ g', Inv kept freed s' g' ∧ Joins s a.1 g g' := by
 obtain ⟨core,action⟩ := a
 obtain ⟨hsafe,hunskipped,hunwalked⟩ := hallowed
 cases action with
 | call tim op =>
  simp only [State.step] at hstep
  split at hstep
  · next hmay =>
    cases hstep
    have hnone : s.call core = none := by
     simp only [mayCall,Bool.and_eq_true,isNone_iff_eq_none] at hmay
     exact hmay.1
    refine ⟨g,h.frame (T := none)
     ⟨fun _ _ => rfl,fun c hc => update_of_ne hc ..,fun _ _ => rfl,fun _ _ => rfl⟩ h.shape
     (Later.refl core g.place) rfl (fun t ht => nomatch ht) (fun t ht => nomatch ht)
      (fun call hc => ?_)
     (fun call hc => ?_) (h.callback core) (fun t ht => .inr ⟨ht,rfl⟩)
     fun _ t _ hne hnone => absurd hnone hne,Joins.refl⟩
    · rw [hnone] at hc
      cases hc
    · rw [setCall_self] at hc
      cases hc
      exact ⟨fun hne => absurd rfl hne,stageFits_config rfl⟩
  · cases hstep
 | manage curTime =>
  simp only [State.step] at hstep
  split at hstep
  · next hidle =>
    have hrest : (s.manage core).rest = none := by rw [hidle.2]; rfl
    split at hstep
    · cases hstep
      exact ⟨g,h,Joins.refl⟩
    · cases hstep
      exact ⟨g,h.setManage hidle.1 hrest.symm (.inr hrest) fun _ _ _ => nofun,Joins.refl⟩
  · cases hstep
 | next rand =>
  simp only [State.step] at hstep
  split at hstep
  · next call hcall =>
    exact h.callStep hcall (hsafe call hcall) (fun hf => hunwalked hf call hcall) hstep
  · next curTime hcall hmanage => exact h.manageStart hcall hmanage hstep
  · next curTime tim hcall hmanage =>
    cases hstep
    refine h.manageWalk hcall hmanage fun hk t ht c call hc => ?_
    refine hunskipped hk t ?_ c call hc
    show t ∈ (s.manage core).visited
    rw [hmanage]
    exact ht
  · cases hstep
 | ret =>
  simp only [State.step] at hstep
  split at hstep
  · next curTime tim nextTim hcall hmanage =>
    cases hstep
    exact ⟨g,h.manageReturn hcall hmanage,Joins.refl⟩
  · cases hstep

lemma exists_inv (h : Reach (· = init) step (Allowed kept freed) s) :
 ∃ g, Inv kept freed s g := by
 refine h.invariant (P := fun s => ∃ g, Inv kept freed s g) ?_ ?_
 · rintro _ rfl
   exact ⟨_,inv_init⟩
 · rintro s a s' ⟨g,hinv⟩ hallowed hstep
   obtain ⟨g',hinv',-⟩ := hinv.step hallowed hstep
   exact ⟨g',hinv'⟩

end Packages.HisiTimer

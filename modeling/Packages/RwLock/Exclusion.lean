import Packages.RwLock.Word

/-!
# Exclusion and balance of the recursive reader/writer lock
-/

namespace Packages.RwLock

open Function State Option

open Transition

variable {n : Nat} {s s' : State n} {t u : Fin n} {v : View}

attribute [local simp] view viewAt setRdCnt setRdDepth setWrDepth

structure Inv (s : State n) : Prop where
 reads : ∀ t, (s.view t).Reads
 kinds : ∀ t, (s.view t).Kinds
 owns : ∀ t, (s.view t).Owns t s.lock.wrOwner s.lock.wrCnt
 owner : ∀ t, s.lock.wrOwner = some t → (s.view t).writes = true
 word : Word s.lock.cnt s.view

lemma inv_init : Inv (init : State n) where
 reads _ := rfl
 kinds _ := .inl rfl
 owns _ := nofun
 owner _ := nofun
 word := .inr ⟨fun _ => rfl,Eq.symm (Finset.sum_eq_zero fun _ _ => show View.inner ⟨.idle,0,0,0⟩ = 0
  from rfl),Nat.zero_le _⟩

-- Views after a step

section Views

variable (s : State n) (t : Fin n)

lemma view_goto (pc : Pc) : (s.goto t pc).view = update s.view t (s.viewAt t pc) :=
 eq_update_iff.mpr ⟨by simp [goto],fun u hu => by simp [goto,hu]⟩

lemma view_setRdCnt (rdCnt : Nat) :
 (s.setRdCnt t rdCnt).view = update s.view t { s.view t with rdCnt := rdCnt } :=
 eq_update_iff.mpr ⟨by simp,fun u hu => by simp [hu]⟩

lemma view_setRdDepth (depth : Nat) :
 (s.setRdDepth t depth).view = update s.view t { s.view t with rdDepth := depth } :=
 eq_update_iff.mpr ⟨by simp,fun u hu => by simp [hu]⟩

lemma view_setWrDepth (depth : Nat) :
 (s.setWrDepth t depth).view = update s.view t { s.view t with wrDepth := depth } :=
 eq_update_iff.mpr ⟨by simp,fun u hu => by simp [hu]⟩

end Views

section

variable (h : Inv s) (hview : s'.view = update s.view t v) (hreads : v.Reads) (hkinds : v.Kinds)

include h hview hreads hkinds

lemma Inv.of_view (howns : v.Owns t s'.lock.wrOwner s'.lock.wrCnt)
 (hshared : (s.view t).writes = true ∨ s'.lock.wrOwner = s.lock.wrOwner ∧
  s'.lock.wrCnt = s.lock.wrCnt)
 (howner : s'.lock.wrOwner = some t → v.writes = true)
 (hothers : ∀ u, u ≠ t → s'.lock.wrOwner = some u → s.lock.wrOwner = some u)
 (hword : Word s'.lock.cnt (update s.view t v)) : Inv s' := by
 have hself : s'.view t = v := by rw [hview,update_self]
 have hother : ∀ u, u ≠ t → s'.view u = s.view u := fun u hu => by rw [hview,update_of_ne hu]
 refine ⟨fun u => ?_,fun u => ?_,fun u => ?_,fun u hu => ?_,hview ▸ hword⟩
 · by_cases hu : u = t
   · rw [hu,hself]
     exact hreads
   · rw [hother u hu]
     exact h.reads u
 · by_cases hu : u = t
   · rw [hu,hself]
     exact hkinds
   · rw [hother u hu]
     exact h.kinds u
 · by_cases hu : u = t
   · rw [hu,hself]
     exact howns
   · rw [hother u hu]
     obtain hwrites | ⟨hsame,hcnt⟩ := hshared
     · -- the writer is alone
       refine (h.owns u).congr (Bool.eq_false_iff.mpr fun hw => hu ?_)
       exact (h.word.alone hwrites).1 u hw
     · rw [hsame,hcnt]
       exact h.owns u
 · by_cases heq : u = t
   · rw [heq,hself]
     exact howner (heq ▸ hu)
   · rw [hother u heq]
     exact h.owner u (hothers u heq hu)

lemma Inv.quiet (howns : v.Owns t s.lock.wrOwner s.lock.wrCnt)
 (hwrites : v.writes = (s.view t).writes) (hinner : v.inner = (s.view t).inner)
 (hcnt : s'.lock.cnt = s.lock.cnt) (howner : s'.lock.wrOwner = s.lock.wrOwner)
 (hwrCnt : s'.lock.wrCnt = s.lock.wrCnt) : Inv s' := by
 refine h.of_view hview hreads hkinds (by rw [howner,hwrCnt]; exact howns) (.inr ⟨howner,hwrCnt⟩)
  (fun hu => ?_) (fun u _ hu => howner ▸ hu) (by rw [hcnt]; exact h.word.keep hwrites hinner)
 rw [hwrites]
 exact h.owner t (howner ▸ hu)

end

lemma Inv.writer (h : Inv s) (hbefore : (s.view t).writes = true)
 (hview : s'.view = update s.view t v) (hreads : v.Reads) (hkinds : v.Kinds)
 (howns : v.Owns t s'.lock.wrOwner s'.lock.wrCnt) (hwrites : v.writes = true)
 (hinner : v.inner = (s.view t).inner) (hcnt : s'.lock.cnt = s.lock.cnt)
 (hothers : ∀ u, u ≠ t → s'.lock.wrOwner ≠ some u) : Inv s' :=
 h.of_view hview hreads hkinds howns (.inl hbefore) (fun _ => hwrites)
  (fun u hu heq => absurd heq (hothers u hu))
  (by rw [hcnt]; exact h.word.keep (hwrites.trans hbefore.symm) hinner)

variable {pc : Pc}

lemma view_eq (hpc : s.pc t = pc) : s.view t = s.viewAt t pc := by
 rw [view,hpc]

lemma Inv.at (h : Inv s) (hpc : s.pc t = pc) :
 (s.viewAt t pc).Reads ∧ (s.viewAt t pc).Kinds ∧
 (s.viewAt t pc).Owns t s.lock.wrOwner s.lock.wrCnt := by
 rw [← view_eq hpc]
 exact ⟨h.reads t,h.kinds t,h.owns t⟩

lemma Inv.goto (h : Inv s) {pc' : Pc} (hpc : s.pc t = pc) (hreads : (s.viewAt t pc').Reads)
 (hkinds : (s.viewAt t pc').Kinds) (howns : (s.viewAt t pc').Owns t s.lock.wrOwner s.lock.wrCnt)
 (hwrites : (s.viewAt t pc').writes = (s.viewAt t pc).writes)
 (hinner : (s.viewAt t pc').inner = (s.viewAt t pc).inner) : Inv (s.goto t pc') :=
 h.quiet (view_goto s t pc') hreads hkinds howns (by rw [hwrites,view_eq hpc])
  (by rw [hinner,view_eq hpc]) rfl rfl rfl

lemma Inv.setCnt (h : Inv s) (cnt : Nat) (hreads : (s.viewAt t pc).Reads)
 (hkinds : (s.viewAt t pc).Kinds) (howns : (s.viewAt t pc).Owns t s.lock.wrOwner s.lock.wrCnt)
 (howner : s.lock.wrOwner = some t → (s.viewAt t pc).writes = true)
 (hword : Word cnt (update s.view t (s.viewAt t pc))) : Inv ((s.setCnt cnt).goto t pc) :=
 h.of_view (view_goto (s.setCnt cnt) t pc) hreads hkinds howns (.inr ⟨rfl,rfl⟩) howner
  (fun _ _ hown => hown) hword

-- Readers

lemma Inv.rdTest (h : Inv s) (hpc : s.pc t = .rdTest) :
 Inv (s.goto t (if s.lock.rdCnt t ≠ 0 then .rdInc else .rdLoad)) := by
 obtain ⟨hreads,hkinds,howns⟩ := h.at hpc
 have hcnt : s.lock.rdCnt t = s.rdDepth t%2^8 := hreads
 split
 · next hne => exact h.goto hpc ⟨hcnt,by rwa [hcnt] at hne⟩ hkinds howns rfl rfl
 · next hzero => exact h.goto hpc ⟨hcnt,by rwa [not_not,hcnt] at hzero⟩ hkinds howns rfl rfl

lemma Inv.enterRead (h : Inv s) (hpc : s.pc t = pc) {rdCnt : Nat}
 (hcnt : rdCnt = (s.rdDepth t+1)%2^8) (hnone : s.wrDepth t = 0)
 (hwrites : (s.viewAt t pc).writes = decide (0 < s.wrDepth t))
 (hinner : (s.rdDepth t+1+(2^8-1))/2^8 = (s.viewAt t pc).inner) :
 Inv (((s.setRdCnt t rdCnt).setRdDepth t (s.rdDepth t+1)).goto t .idle) := by
 refine h.quiet (v := ⟨.idle,rdCnt,s.rdDepth t+1,s.wrDepth t⟩) ?_ hcnt (.inr hnone)
  (fun hpos => absurd hnone hpos.ne') (by rw [view_eq hpc,hwrites]; rfl)
  (by rw [view_eq hpc,← hinner]; rfl) rfl rfl rfl
 rw [view_goto,view_setRdDepth,view_setRdCnt,update_idem,update_idem,viewAt]
 simp

lemma Inv.rdLoad (h : Inv s) (hpc : s.pc t = .rdLoad) :
 Inv (if 2^31 ≤ s.lock.cnt then s else s.goto t (.rdCas s.lock.cnt)) := by
 obtain ⟨⟨hcnt,hzero⟩,hkinds,howns⟩ := h.at hpc
 split
 · exact h
 · next hlt => exact h.goto hpc ⟨hcnt,hzero,Nat.lt_of_not_le hlt⟩ hkinds howns rfl rfl

lemma Inv.rdCas {cnt : Nat} (h : Inv s) (hpc : s.pc t = .rdCas cnt) :
 Inv (if s.lock.cnt = cnt then (s.setCnt (add32 cnt 1)).goto t .rdSet else s.goto t .rdLoad) := by
 obtain ⟨⟨hcnt,hround,hlt⟩,hkinds,howns⟩ := h.at hpc
 have hzero : s.rdDepth t%2^8 = 0 := hround
 have hnone : s.wrDepth t = 0 := hkinds
 have hwrites : decide (0 < s.wrDepth t) = false := by rw [hnone]; rfl
 split
 · next hsame =>
   subst hsame
   have hword : Word (add32 s.lock.cnt 1) (update s.view t (s.viewAt t .rdSet)) := by
    rw [add32_of_lt (by omega)]
    refine h.word.readIn hlt hwrites ?_
    rw [view_eq hpc]
    show s.rdDepth t/2^8+1 = (s.rdDepth t+(2^8-1))/2^8+1
    omega
   refine h.setCnt (add32 s.lock.cnt 1) ⟨hcnt,hzero⟩ hkinds howns (fun hown => ?_) hword
   have howner := h.owner t hown
   rw [view_eq hpc] at howner
   exact howner
 · exact h.goto hpc ⟨hcnt,hzero⟩ hkinds howns rfl rfl

section

variable (h : Inv s)

include h

lemma Inv.readUnlock (hpc : s.pc t = .idle) (hpos : 0 < s.rdDepth t) :
 Inv ((s.setRdDepth t (s.rdDepth t-1)).goto t .rdDec) := by
 obtain ⟨hreads,hkinds,howns⟩ := h.at hpc
 have hcnt : s.lock.rdCnt t = s.rdDepth t%2^8 := hreads
 have hnone : s.wrDepth t = 0 := hkinds.resolve_left hpos.ne'
 refine h.quiet (v := ⟨.rdDec,s.lock.rdCnt t,s.rdDepth t-1,s.wrDepth t⟩) ?_ ?_ hnone
  (fun hpos => absurd hnone hpos.ne') (by rw [view_eq hpc]; rfl) ?_ rfl rfl rfl
 · rw [view_goto,view_setRdDepth,update_idem,viewAt]
   simp
 · show s.lock.rdCnt t = (s.rdDepth t-1+1)%2^8
   rw [hcnt,Nat.sub_add_cancel hpos]
 · rw [view_eq hpc]
   show (s.rdDepth t-1)/2^8+1 = (s.rdDepth t+(2^8-1))/2^8
   omega

lemma Inv.rdDec (hpc : s.pc t = .rdDec) :
 Inv ((s.setRdCnt t ((s.lock.rdCnt t+(2^8-1))%2^8)).goto t .rdRetest) := by
 obtain ⟨hreads,hkinds,howns⟩ := h.at hpc
 have hcnt : s.lock.rdCnt t = (s.rdDepth t+1)%2^8 := hreads
 refine h.quiet (v := ⟨.rdRetest,(s.lock.rdCnt t+(2^8-1))%2^8,s.rdDepth t,s.wrDepth t⟩) ?_ ?_
  hkinds howns (by rw [view_eq hpc]; rfl) (by rw [view_eq hpc]; rfl) rfl rfl rfl
 · rw [view_goto,view_setRdCnt,update_idem,viewAt]
   simp
 · show (s.lock.rdCnt t+(2^8-1))%2^8 = s.rdDepth t%2^8
   omega

lemma Inv.rdRetest (hpc : s.pc t = .rdRetest) :
 Inv (s.goto t (if 0 < s.lock.rdCnt t then .idle else .rdSub)) := by
 obtain ⟨hreads,hkinds,howns⟩ := h.at hpc
 have hcnt : s.lock.rdCnt t = s.rdDepth t%2^8 := hreads
 split
 · refine h.goto hpc hcnt (.inr hkinds) howns rfl ?_
   show (s.rdDepth t+(2^8-1))/2^8 = s.rdDepth t/2^8+1
   omega
 · next hround =>
   have hzero : s.rdDepth t%2^8 = 0 := by omega
   exact h.goto hpc ⟨hcnt,hzero⟩ hkinds howns rfl rfl

lemma Inv.rdSub (hpc : s.pc t = .rdSub) : Inv ((s.setCnt (sub32 s.lock.cnt 1)).goto t .idle) := by
 obtain ⟨⟨hcnt,hround⟩,hkinds,howns⟩ := h.at hpc
 have hzero : s.rdDepth t%2^8 = 0 := hround
 have hnone : s.wrDepth t = 0 := hkinds
 have hword : Word (sub32 s.lock.cnt 1) (update s.view t (s.viewAt t .idle)) := by
  refine h.word.readOut (decide_eq_false fun hpos : 0 < s.wrDepth t => hpos.ne' hnone) ?_
  rw [view_eq hpc]
  show (s.rdDepth t+(2^8-1))/2^8+1 = s.rdDepth t/2^8+1
  omega
 refine h.setCnt (sub32 s.lock.cnt 1) hcnt (.inr hnone) howns (fun hown => ?_) hword
 have howner := h.owner t hown
 rw [view_eq hpc] at howner
 exact howner

-- Writers

lemma Inv.wrTest (hpc : s.pc t = .wrTest) :
 Inv (s.goto t (if s.lock.wrOwner = some t then .wrInc else .wrLoad)) := by
 obtain ⟨hreads,hkinds,hbound,howns⟩ := h.at hpc
 split
 · next hown =>
   have hwrites := h.owner t hown
   rw [view_eq hpc] at hwrites
   have hpos : 0 < s.wrDepth t := of_decide_eq_true hwrites
   exact h.goto hpc hreads hkinds ⟨hbound,hpos,howns hpos⟩ rfl rfl
 · next hown =>
   have hnone : s.wrDepth t = 0 := by
    by_contra hne
    exact hown (howns (Nat.pos_of_ne_zero hne)).1
   exact h.goto hpc hreads hkinds hnone rfl rfl

lemma Inv.enterWrite (hpc : s.pc t = pc) {wrCnt : Nat}
 (hreads : s.lock.rdCnt t = s.rdDepth t%2^8) (hnone : s.rdDepth t = 0)
 (hbefore : (s.viewAt t pc).writes = true) (hbound : s.wrDepth t+1 < 2^32)
 (hown : s.lock.wrOwner = some t) (hcnt : wrCnt = s.wrDepth t+1)
 (hinner : (s.viewAt t pc).inner = (s.rdDepth t+(2^8-1))/2^8) :
 Inv (((s.setWrCnt wrCnt).setWrDepth t (s.wrDepth t+1)).goto t .idle) := by
 refine h.writer (t := t) (v := ⟨.idle,s.lock.rdCnt t,s.rdDepth t,s.wrDepth t+1⟩)
  (by rw [view_eq hpc,hbefore]) ?_
  hreads (.inl hnone) (fun _ => ⟨hbound,hown,hcnt⟩) (decide_eq_true (Nat.succ_pos (s.wrDepth t)))
  (by rw [view_eq hpc,hinner]; rfl) rfl fun u hu heq => hu (some.inj (heq.symm.trans hown))
 rw [view_goto,view_setWrDepth,update_idem,viewAt,show (s.setWrCnt wrCnt).view = s.view from rfl]
 simp [setWrCnt]

lemma Inv.wrLoad (hpc : s.pc t = .wrLoad) :
 Inv (if s.lock.cnt ≠ 0 then s else s.goto t .wrCas) := by
 obtain ⟨hreads,hkinds,howns⟩ := h.at hpc
 split
 · exact h
 · exact h.goto hpc hreads hkinds howns rfl rfl

lemma Inv.wrCas (hpc : s.pc t = .wrCas) :
 Inv (if s.lock.cnt = 0 then (s.setCnt (2^32-1)).goto t .wrOwn else s.goto t .wrLoad) := by
 obtain ⟨hreads,hkinds,howns⟩ := h.at hpc
 split
 · next hfree =>
   have hword := h.word
   rw [hfree] at hword
   -- nobody else is the writer
   have hnone : s.lock.wrOwner = none := by
    rw [eq_none_iff_forall_ne_some]
    intro u hu
    obtain ⟨-,-,hword,-⟩ | ⟨hnone,-⟩ := hword
    · cases hword
    · cases (hnone u).symm.trans (h.owner u hu)
   have hdepth : s.rdDepth t = 0 := hkinds
   refine h.setCnt (2^32-1) hreads hkinds ⟨howns,hnone⟩ (fun _ => rfl) (hword.writeIn rfl ?_)
   show (s.rdDepth t+(2^8-1))/2^8 = 0
   rw [hdepth]
   rfl
 · exact h.goto hpc hreads hkinds howns rfl rfl

lemma Inv.wrOwn (hpc : s.pc t = .wrOwn) : Inv ((s.setWrOwner (some t)).goto t .wrSet) := by
 obtain ⟨hreads,hkinds,hnone,-⟩ := h.at hpc
 exact h.writer (by rw [view_eq hpc]; rfl) (view_goto (s.setWrOwner _) t .wrSet) hreads hkinds
  ⟨hnone,rfl⟩ rfl (by rw [view_eq hpc]; rfl) rfl fun u hu heq => hu (some.inj heq).symm

lemma Inv.writeUnlock (hpc : s.pc t = .idle) (hpos : 0 < s.wrDepth t) :
 Inv ((s.setWrDepth t (s.wrDepth t-1)).goto t .wrDec) := by
 obtain ⟨hreads,hkinds,howns⟩ := h.at hpc
 obtain ⟨hbound,hown,hcnt⟩ := howns hpos
 have hsucc : s.wrDepth t-1+1 = s.wrDepth t := Nat.sub_add_cancel hpos
 refine h.quiet (v := ⟨.wrDec,s.lock.rdCnt t,s.rdDepth t,s.wrDepth t-1⟩) ?_ hreads
  (hkinds.resolve_right hpos.ne') ⟨hsucc.symm ▸ hbound,hown,hsucc.symm ▸ hcnt⟩ ?_
  (by rw [view_eq hpc]; rfl)
  rfl rfl rfl
 · rw [view_goto,view_setWrDepth,update_idem,viewAt]
   simp
 · rw [view_eq hpc]
   exact (decide_eq_true hpos).symm

end

lemma Inv.wrDecStore {wrCnt : Nat} (h : Inv s) (hpc : s.pc t = .wrDecStore wrCnt) :
 Inv ((s.setWrCnt (sub32 wrCnt 1)).goto t .wrRetest) := by
 obtain ⟨hreads,hkinds,hbound,hown,hcnt⟩ := h.at hpc
 have hless : sub32 wrCnt 1 = s.wrDepth t := by
  rw [hcnt,sub32_of_le (Nat.succ_pos _) hbound]
  rfl
 rw [hless]
 exact h.writer (by rw [view_eq hpc]; rfl) (view_goto (s.setWrCnt (s.wrDepth t)) t .wrRetest)
  hreads hkinds ⟨Nat.lt_of_succ_lt hbound,hown,rfl⟩ rfl (by rw [view_eq hpc]; rfl) rfl
  fun u hu heq => hu (some.inj (heq.symm.trans hown))

lemma Inv.wrRetest (h : Inv s) (hpc : s.pc t = .wrRetest) :
 Inv (s.goto t (if 0 < s.lock.wrCnt then .idle else .wrDisown)) := by
 obtain ⟨hreads,hkinds,hbound,hown,hcnt⟩ := h.at hpc
 have hdepth : s.lock.wrCnt = s.wrDepth t := hcnt
 split
 · next hpos =>
   rw [hdepth] at hpos
   exact h.goto hpc hreads (.inl hkinds) (fun _ => ⟨hbound,hown,hcnt⟩) (decide_eq_true hpos) rfl
 · next hzero =>
    exact h.goto hpc hreads hkinds ⟨by rw [hdepth] at hzero; exact Nat.eq_zero_of_not_pos hzero,
     hown⟩ rfl rfl

lemma Inv.wrDisown (h : Inv s) (hpc : s.pc t = .wrDisown) :
 Inv ((s.setWrOwner none).goto t .wrStore) := by
 obtain ⟨hreads,hkinds,hnone,-⟩ := h.at hpc
 exact h.writer (by rw [view_eq hpc]; rfl) (view_goto (s.setWrOwner _) t .wrStore) hreads hkinds
  ⟨hnone,rfl⟩ rfl (by rw [view_eq hpc]; rfl) rfl fun _ _ => nofun

lemma Inv.wrStore (h : Inv s) (hpc : s.pc t = .wrStore) : Inv ((s.setCnt 0).goto t .idle) := by
 obtain ⟨hreads,hkinds,hnone,hown⟩ := h.at hpc
 have hdepth : s.rdDepth t = 0 := hkinds
 have hzero : ¬0 < s.wrDepth t := fun hpos => hpos.ne' hnone
 refine h.setCnt 0 hreads (.inl hdepth) (fun hpos => absurd hpos hzero)
  (fun heq => nomatch hown.symm.trans heq)
  (h.word.writeOut (by rw [view_eq hpc]; rfl) (decide_eq_false hzero) ?_)
 show (s.rdDepth t+(2^8-1))/2^8 = 0
 rw [hdepth]
 rfl

-- Runs

lemma Inv.next (h : Inv s) (hstep : s.next t = some s') : Inv s' := by
 unfold State.next at hstep
 split at hstep
 · cases hstep
 all_goals obtain rfl := some.inj hstep
 · next hpc => exact h.rdTest hpc
 · next hpc =>
   obtain ⟨⟨hcnt,hne⟩,hkinds,-⟩ := h.at hpc
   have hcnt : s.lock.rdCnt t = s.rdDepth t%2^8 := hcnt
   have hne : s.rdDepth t%2^8 ≠ 0 := hne
   refine h.enterRead hpc (by omega) hkinds rfl ?_
   show _ = (s.rdDepth t+(2^8-1))/2^8
   omega
 · next hpc => exact h.rdLoad hpc
 · next hpc => exact h.rdCas hpc
 · next hpc =>
   obtain ⟨⟨-,hzero⟩,hkinds,-⟩ := h.at hpc
   have hzero : s.rdDepth t%2^8 = 0 := hzero
   refine h.enterRead hpc (by omega) hkinds rfl ?_
   show _ = s.rdDepth t/2^8+1
   omega
 · next hpc => exact h.rdDec hpc
 · next hpc => exact h.rdRetest hpc
 · next hpc => exact h.rdSub hpc
 · next hpc => exact h.wrTest hpc
 · next hpc =>
   obtain ⟨hreads,hkinds,hbound,hpos,hown,hcnt⟩ := h.at hpc
   exact h.goto hpc hreads hkinds ⟨hbound,hpos,hown,hcnt⟩ rfl rfl
 · next wrCnt hpc =>
   obtain ⟨hreads,hkinds,hbound,hpos,hown,hcnt⟩ := h.at hpc
   refine h.enterWrite hpc hreads hkinds (decide_eq_true hpos) hbound hown ?_ rfl
   rw [hcnt]
   exact add32_of_lt hbound
 · next hpc => exact h.wrLoad hpc
 · next hpc => exact h.wrCas hpc
 · next hpc => exact h.wrOwn hpc
 · next hpc =>
   obtain ⟨hreads,hkinds,hnone,hown⟩ := h.at hpc
   have hnone : s.wrDepth t = 0 := hnone
   exact h.enterWrite hpc hreads hkinds rfl (by omega) hown (by omega) rfl
 · next hpc =>
   obtain ⟨hreads,hkinds,hbound,hown,hcnt⟩ := h.at hpc
   exact h.goto hpc hreads hkinds ⟨hbound,hown,hcnt⟩ rfl rfl
 · next hpc => exact h.wrDecStore hpc
 · next hpc => exact h.wrRetest hpc
 · next hpc => exact h.wrDisown hpc
 · next hpc => exact h.wrStore hpc

lemma Inv.step {a : Fin n × Action} (h : Inv s) (hbounded : Bounded s a)
 (hstep : s.step a = some s') : Inv s' := by
 obtain ⟨t,action⟩ := a
 cases action
 case next => exact h.next hstep
 all_goals
  simp only [State.step] at hstep
  split at hstep <;> cases hstep
 case readLock hidle =>
  obtain ⟨hreads,-,howns⟩ := h.at hidle.1
  exact h.goto hidle.1 hreads hidle.2 howns rfl rfl
 case readUnlock hidle => exact h.readUnlock hidle.1 hidle.2
 case writeLock hidle =>
  obtain ⟨hreads,-,howns⟩ := h.at hidle.1
  exact h.goto hidle.1 hreads hidle.2 ⟨hbounded rfl,fun hpos => (howns hpos).2⟩ rfl rfl
 case writeUnlock hidle => exact h.writeUnlock hidle.1 hidle.2

lemma inv_of_reach (h : Reach (· = init) step Bounded s) : Inv s :=
 h.invariant (fun _ hs => hs ▸ inv_init) fun _ _ _ => Inv.step

lemma Inv.exclusive (h : Inv s) (hne : u ≠ t) (hpos : 0 < s.wrDepth t) :
 s.rdDepth u = 0 ∧ s.wrDepth u = 0 := by
 obtain ⟨honly,hzero⟩ := h.word.alone (View.writes_of_pos (v := s.view t) hpos)
 refine ⟨View.rdDepth_of_inner (hzero u),?_⟩
 by_contra hu
 exact hne (honly u (View.writes_of_pos (v := s.view u) (Nat.pos_of_ne_zero hu)))

/-- Without sections and calls the lock is as it was at the beginning. -/
lemma Inv.released (h : Inv s) (hall : ∀ t, s.pc t = .idle ∧ s.rdDepth t = 0 ∧ s.wrDepth t = 0) :
 s.lock.cnt = 0 ∧ s.lock.wrOwner = none ∧ ∀ t, s.lock.rdCnt t = 0 := by
 have hview : ∀ t, s.view t = ⟨.idle,s.lock.rdCnt t,0,0⟩ := by
  intro t
  obtain ⟨hpc,hrd,hwr⟩ := hall t
  rw [view_eq hpc,viewAt,hrd,hwr]
 have hwrites : ∀ t, (s.view t).writes = false := fun t => by rw [hview]; rfl
 refine ⟨?_,?_,fun t => ?_⟩
 · obtain ⟨w,hw,-⟩ | ⟨-,hsum,-⟩ := h.word
   · cases (hwrites w).symm.trans ((hw w).mpr rfl)
   · rw [hsum]
     exact Finset.sum_eq_zero fun t _ => by rw [hview]; show (0+(2^8-1))/2^8 = 0; rfl
 · rw [eq_none_iff_forall_ne_some]
   intro t ht
   cases (hwrites t).symm.trans (h.owner t ht)
 · have hreads := h.reads t
   rw [hview] at hreads
   exact hreads

/-- A call of a thread that nobody interferes with. -/
def callOf (t : Fin n) (call : Action) (steps : Nat) : List (Fin n × Action) :=
 (t,call)::List.replicate steps (t,.next)

lemma goto_pc (s : State n) (t : Fin n) (pc : Pc) : (s.goto t pc).pc t = pc := update_self ..

section Free

variable (s t)

lemma step_rdTest (hrdCnt : s.lock.rdCnt t = 0) :
 (s.goto t .rdTest).step (t,.next) = some ((s.goto t .rdTest).goto t .rdLoad) := by
 show (s.goto t .rdTest).next t = _
 rw [next,goto_pc]
 exact congrArg (fun pc => some ((s.goto t .rdTest).goto t pc)) (if_neg (not_not.mpr hrdCnt))

lemma step_rdLoad (hcnt : s.lock.cnt = 0) :
 (s.goto t .rdLoad).step (t,.next) = some ((s.goto t .rdLoad).goto t (.rdCas 0)) := by
 have hcnt : (s.goto t .rdLoad).lock.cnt = 0 := hcnt
 show (s.goto t .rdLoad).next t = _
 rw [next,goto_pc]
 simp only [hcnt]
 rw [if_neg (by decide)]

lemma step_rdCas (hcnt : s.lock.cnt = 0) : (s.goto t (.rdCas 0)).step (t,.next) =
 some (((s.goto t (.rdCas 0)).setCnt (add32 0 1)).goto t .rdSet) := by
 show (s.goto t (.rdCas 0)).next t = _
 rw [next,goto_pc]
 exact congrArg some (if_pos hcnt)

lemma step_rdSet : (s.goto t .rdSet).step (t,.next) =
 some ((((s.goto t .rdSet).setRdCnt t 1).setRdDepth t (s.rdDepth t+1)).goto t .idle) := by
 show (s.goto t .rdSet).next t = _
 rw [next,goto_pc]
 rfl

lemma step_wrTest (howner : s.lock.wrOwner = none) :
 (s.goto t .wrTest).step (t,.next) = some ((s.goto t .wrTest).goto t .wrLoad) := by
 have hne : ¬(s.goto t .wrTest).lock.wrOwner = some t := fun heq => nomatch howner.symm.trans heq
 show (s.goto t .wrTest).next t = _
 rw [next,goto_pc]
 exact congrArg (fun pc => some ((s.goto t .wrTest).goto t pc)) (if_neg hne)

lemma step_wrLoad (hcnt : s.lock.cnt = 0) :
 (s.goto t .wrLoad).step (t,.next) = some ((s.goto t .wrLoad).goto t .wrCas) := by
 show (s.goto t .wrLoad).next t = _
 rw [next,goto_pc]
 exact congrArg some (if_neg (not_not.mpr hcnt))

lemma step_wrCas (hcnt : s.lock.cnt = 0) :
 (s.goto t .wrCas).step (t,.next) = some (((s.goto t .wrCas).setCnt (2^32-1)).goto t .wrOwn) := by
 show (s.goto t .wrCas).next t = _
 rw [next,goto_pc]
 exact congrArg some (if_pos hcnt)

lemma step_wrOwn : (s.goto t .wrOwn).step (t,.next) =
 some (((s.goto t .wrOwn).setWrOwner (some t)).goto t .wrSet) := by
 show (s.goto t .wrOwn).next t = _
 rw [next,goto_pc]

lemma step_wrSet : (s.goto t .wrSet).step (t,.next) =
 some ((((s.goto t .wrSet).setWrCnt 1).setWrDepth t (s.wrDepth t+1)).goto t .idle) := by
 show (s.goto t .wrSet).next t = _
 rw [next,goto_pc]
 rfl

end Free

section

variable (hpc : s.pc t = .idle) (hwr : s.wrDepth t = 0) (hrd : s.rdDepth t = 0)
 (hcnt : s.lock.cnt = 0)

include hpc hwr hrd hcnt

lemma readLock_free (hrdCnt : s.lock.rdCnt t = 0) :
 ∃ s', guardedRun step (fun _ _ => True) s (callOf t .readLock 4) = some s' ∧
  s'.pc t = .idle ∧ s'.rdDepth t = 1 := by
 have hcall : s.step (t,.readLock) = some (s.goto t .rdTest) := if_pos ⟨hpc,hwr⟩
 refine ⟨_,(guardedRun_cons _ trivial hcall).trans <|
  (guardedRun_cons _ trivial (step_rdTest s t hrdCnt)).trans <|
  (guardedRun_cons _ trivial (step_rdLoad (s.goto t .rdTest) t hcnt)).trans <|
  (guardedRun_cons _ trivial (step_rdCas ((s.goto t .rdTest).goto t .rdLoad) t hcnt)).trans <|
  (guardedRun_cons _ trivial (step_rdSet _ t)).trans rfl,?_,?_⟩
 · exact goto_pc ..
 · show update s.rdDepth t (s.rdDepth t+1) t = 1
   rw [update_self,hrd]

lemma writeLock_free (howner : s.lock.wrOwner = none) :
 ∃ s', guardedRun step (fun _ _ => True) s (callOf t .writeLock 5) = some s' ∧
  s'.pc t = .idle ∧ s'.wrDepth t = 1 := by
 have hcall : s.step (t,.writeLock) = some (s.goto t .wrTest) := if_pos ⟨hpc,hrd⟩
 refine ⟨_,(guardedRun_cons _ trivial hcall).trans <|
  (guardedRun_cons _ trivial (step_wrTest s t howner)).trans <|
  (guardedRun_cons _ trivial (step_wrLoad (s.goto t .wrTest) t hcnt)).trans <|
  (guardedRun_cons _ trivial (step_wrCas ((s.goto t .wrTest).goto t .wrLoad) t hcnt)).trans <|
  (guardedRun_cons _ trivial (step_wrOwn _ t)).trans <|
  (guardedRun_cons _ trivial (step_wrSet _ t)).trans rfl,?_,?_⟩
 · exact goto_pc ..
 · show update s.wrDepth t (s.wrDepth t+1) t = 1
   rw [update_self,hwr]

end

/-- While a thread is in a write section no other thread is in a section. When all threads have left
their sections the word is zero, and a lock call of any thread goes through. -/
theorem recursive_rwlock_exclusive (h : Reach (· = State.init) State.step Bounded s) :
 (∀ t u, u ≠ t → 0 < s.wrDepth t → s.rdDepth u = 0 ∧ s.wrDepth u = 0) ∧
 ((∀ t, s.pc t = .idle ∧ s.rdDepth t = 0 ∧ s.wrDepth t = 0) → s.lock.cnt = 0 ∧ ∀ t,
  (∃ s', guardedRun State.step (fun _ _ => True) s (callOf t .readLock 4) = some s' ∧
   s'.pc t = .idle ∧ s'.rdDepth t = 1) ∧
  (∃ s', guardedRun State.step (fun _ _ => True) s (callOf t .writeLock 5) = some s' ∧
   s'.pc t = .idle ∧ s'.wrDepth t = 1)) := by
 have hinv := inv_of_reach h
 refine ⟨fun t u hne hpos => hinv.exclusive hne hpos,fun hall => ?_⟩
 obtain ⟨hcnt,howner,hrdCnt⟩ := hinv.released hall
 refine ⟨hcnt,fun t => ?_⟩
 obtain ⟨hpc,hrd,hwr⟩ := hall t
 exact ⟨readLock_free hpc hwr hrd hcnt (hrdCnt t),writeLock_free hpc hwr hrd hcnt howner⟩

theorem recursive_rwlock_exclusive_nested : ∃ s : State 2,
 (s.wrDepth 0 = 2 ∧ s.pc 1 = .rdLoad ∧ s.lock.cnt = 2^32-1) ∧
 s.rdDepth 1 = 0 ∧ s.wrDepth 1 = 0 := by
 have hstart : Reach (· = init) step Bounded (init : State 2) := .start rfl
 obtain ⟨s,hreach,hdepth,hpc,hcnt⟩ := hstart.exists_of_run
  (callOf 0 .readLock 4++callOf 0 .readLock 2++callOf 0 .readUnlock 2++callOf 0 .readUnlock 3 ++
   callOf 0 .writeLock 5++callOf 1 .readLock 2++callOf 0 .writeLock 3)
  (fun s => s.wrDepth 0 = 2 ∧ s.pc 1 = .rdLoad ∧ s.lock.cnt = 2^32-1) (by decide +kernel)
 have hpos : 0 < s.wrDepth 0 := by rw [hdepth]; decide
 exact ⟨s,⟨hdepth,hpc,hcnt⟩,(recursive_rwlock_exclusive hreach).1 0 1 (by decide) hpos⟩

end Packages.RwLock

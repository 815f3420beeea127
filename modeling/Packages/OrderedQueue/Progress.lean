import Packages.OrderedQueue.Conservation
import Packages.OrderedQueue.Orders

/-!
# Released orders do not block their queue

An order stays with somebody until it is resolved, as long as a context is not dropped for want of
a placeholder. An element that can go is handed on at once, so when all threads have released their
contexts every order is resolved.
-/

namespace Packages.OrderedQueue

open Function List

variable {m n : Nat}

/-- Every order handed out and not resolved is held. -/
def Covered (s : State m n) : Prop :=
 ∀ p o, (s.queue p).orderOut ≤ o → o < (s.queue p).orderIn → ∃ x, orderAt s x (p,o) ≠ 0

lemma Covered.of_effect {s s' : State m n} {a : Action m n} (h : Covered s)
 (he : OrderEffect s a s') (hl : losesNone s a) : Covered s' := by
 intro p o hge hlt
 cases he with
 | unaffected hu =>
  rw [(hu.queue p).2.2] at hge
  rw [(hu.queue p).2.1] at hlt
  rw [hu.orderAt_eq]
  exact h p o hge hlt
 | moves r hs hloss =>
  have hset := hloss hl p
  rw [hs.orderIn] at hlt
  obtain ⟨x,hx⟩ := h p o (le_trans hset.le hge) hlt
  by_cases hmem : x ∈ touched a.thread r
  · -- it is still with one of those that the step touches
    have hheld := count_pos_iff.mpr (mem_held_of_orderAt hmem hx)
    have hcount := hset.count o
    rw [if_neg (by omega)] at hcount
    obtain ⟨y,-,hy⟩ := exists_orderAt_of_mem_held (count_pos_iff.mp
     (by omega : 0 < (held s' a.thread r p).count o))
    exact ⟨y,hy⟩
  · refine ⟨x,?_⟩
    rw [hs.orderAt_eq hmem]
    exact hx
 | issues q hi =>
  by_cases hnew : p = q ∧ o = (s.queue q).orderIn
  · refine ⟨.context a.thread,?_⟩
    rw [hi.orderAt_self,if_pos hnew]
    exact one_ne_zero
  · have hlt' : o < (s.queue p).orderIn := by
     by_cases hp : p = q
     · subst hp
       have hin := hi.orderIn
       omega
     · rwa [hi.orderIn_ne p hp] at hlt
    rw [(hi.queue p).2] at hge
    obtain ⟨x,hx⟩ := h p o hge hlt'
    refine ⟨x,?_⟩
    rw [hi.orderAt_ne]
    · exact hx
    · rintro rfl
      simp [orderAt,resolving_context,hi.free] at hx

-- What reorder_complete leaves behind

/-- No element of the list can resolve its order now. -/
def QueueEntry.NoneDue (o : QueueEntry m) : Prop :=
 ∀ x ∈ o.reorder, x.sustain = false → o.orderOut < x.order

/-- The list after a scan for elements that can go: none is left, or one is handed back. -/
def QueueEntry.Scanned (o : QueueEntry m) : Option (Entry m) → Prop
 | none => o.NoneDue
 | some b => b.order ≤ o.orderOut ∧
  ∃ a ∈ b::o.reorder, a.sustain = false ∧ a.order ≤ o.orderOut

lemma QueueEntry.completeLoop_scanned (o : QueueEntry m) {passed l : List (Entry m)}
 (hpassed : ∀ x ∈ passed, x.sustain = true ∧ x.order ≤ o.orderOut) (hsorted : Sorted l) :
 (o.completeLoop passed l).1.Scanned (o.completeLoop passed l).2 := by
 induction l generalizing o passed with
 | nil =>
  intro x hx hs
  rw [(hpassed x hx).1] at hs
  cases hs
 | cons a l ih =>
  obtain ⟨hle,hsorted'⟩ := pairwise_cons.mp hsorted
  by_cases hdue : a.order ≤ o.orderOut
  · cases ht : a.target with
    | none =>
     rw [completeLoop_placeholder hdue ht]
     exact ih (o.orderRelease 1) nofun hsorted'
    | some q =>
     cases hs : a.sustain with
     | true =>
      rw [completeLoop_sustain hdue ht hs]
      refine ih o (fun x hx => ?_) hsorted'
      obtain hx | hx := mem_append.mp hx
      · exact hpassed x hx
      · rw [mem_singleton.mp hx]
        exact ⟨hs,hdue⟩
     | false =>
      obtain ⟨b,bs,hb,hc⟩ : ∃ b bs, b::bs = passed++a::l ∧ _ := completeLoop_stop hdue ht hs
      rw [hc]
      refine ⟨?_,a,hb ▸ mem_append_right _ mem_cons_self,hs,hdue⟩
      cases passed with
      | nil =>
       cases hb
       exact hdue
      | cons x xs =>
       cases hb
       exact (hpassed b mem_cons_self).2
  · rw [completeLoop_late hdue]
    intro x hx hs
    have hlate : o.orderOut < a.order := Nat.lt_of_not_le hdue
    obtain hx | hx := mem_append.mp hx
    · rw [(hpassed x hx).1] at hs
      cases hs
    · obtain rfl | hx := mem_cons.mp hx
      · exact hlate
      · exact lt_of_lt_of_le hlate (hle x hx)

lemma QueueEntry.reorderComplete_scanned {o : QueueEntry m} (hsorted : Sorted o.reorder) :
 o.reorderComplete.1.Scanned o.reorderComplete.2 :=
 o.completeLoop_scanned nofun hsorted

lemma QueueEntry.Scanned.congr {o o' : QueueEntry m} {ret : Option (Entry m)} (h : o.Scanned ret)
 (hreorder : o'.reorder = o.reorder) (hout : o'.orderOut = o.orderOut) : o'.Scanned ret := by
 cases ret with
 | none =>
  intro x hx hs
  rw [hout]
  exact h x (hreorder ▸ hx) hs
 | some b =>
  rw [Scanned,hreorder,hout]
  exact h

section Deliver

variable {s s' : State m n} {t : Fin n} {target origin : Fin m} {e : Entry m}

lemma complete_scanned {s : State m n} (hsorted : Sorted (s.queue origin).reorder) :
 ((s.complete t origin).queue origin).Scanned (s.queue origin).reorderComplete.2 := by
 have hc := complete_change s t origin origin
 exact (QueueEntry.reorderComplete_scanned hsorted).congr hc.reorder hc.orderOut

lemma complete_sorted {s : State m n} (hsorted : Sorted (s.queue origin).reorder) :
 Sorted ((s.complete t origin).queue origin).reorder := by
 rw [(complete_change s t origin origin).reorder]
 have hsub := QueueEntry.completeLoop_sublist (s.queue origin) [] (s.queue origin).reorder
 exact Pairwise.sublist ((sublist_append_right _ _).trans hsub) hsorted

/-- The element waits if it is early; otherwise its order is resolved, and then those of all others
that can go, up to one that is handed back. -/
lemma orderedQueueEnq_scans (h : s.orderedQueueEnq t target origin e = some s')
 (hsorted : Sorted (s.queue origin).reorder) : Sorted (s'.queue origin).reorder ∧
  ((s.queue origin).orderOut < e.order ∧ s'.pc t = .idle ∧
   (s'.queue origin).orderOut = (s.queue origin).orderOut ∧ (s'.queue origin).reorder =
    reorderEnq { e with target := some target } (s.queue origin).reorder ∨
   e.order ≤ (s.queue origin).orderOut ∧
    (s.queue origin).orderOut+e.releaseCount ≤ (s'.queue origin).orderOut ∧
    ∃ ret, s'.pc t = .handOn origin ret ∧ (s'.queue origin).Scanned ret) := by
 obtain ⟨⟨s1,b⟩,hmove,rfl⟩ := Option.map_eq_some_iff.mp h
 have hidle : (s1.setPc t .idle).pc t = .idle := by simp [State.setPc]
 obtain ⟨-,-,⟨hlate,rfl,-,hc⟩ | ⟨hin,-,⟨-,rfl,hc⟩ | ⟨-,rfl,r,hr,-,hc⟩⟩⟩ := orderedMove_cases hmove
 · have hc' := hc.setPc t .idle
   refine ⟨?_,.inl ⟨hlate,hidle,hc'.orderOut,hc'.reorder⟩⟩
   rw [if_neg Bool.false_ne_true,hc'.reorder]
   exact hsorted.reorderEnq _
 · have hc' := hc.setPc t .idle
   rw [if_neg Bool.false_ne_true,hc'.reorder,hc'.orderOut]
   refine ⟨Pairwise.nil,.inr ⟨hin,le_refl _,none,hidle,?_⟩⟩
   intro x hx
   rw [hc'.reorder] at hx
   cases hx
 · have hsorted1 : Sorted (s1.queue origin).reorder := by
    rw [hc.reorder,hr]
    exact Pairwise.sublist ((sublist_append_right _ _).trans (reorderDeq_sublist ..))
     (hsorted.reorderEnq _)
   have hle : (s.queue origin).orderOut+e.releaseCount ≤ r.orderOut := by
    rw [hr]
    exact le_reorderDeq_orderOut ..
   refine ⟨complete_sorted hsorted1,.inr ⟨hin,?_,_,complete_pc s1 t origin,
    complete_scanned hsorted1⟩⟩
   rw [← hc.orderOut] at hle
   exact le_trans hle ((complete_change s1 t origin origin).released origin).orderOut

end Deliver

-- Elements that can go are on their way

/-- The events are enqueued from the caller's own context: the first one does not carry the header
of another context. -/
def InContext (s : State m n) (t : Fin n) (evs : List Event) : Prop :=
 ∀ ev ∈ evs.head?,
  s.getQueueOrder t ev = (s.schedLocal t).originQe.map fun q => (q,(s.schedLocal t).order)

instance (s : State m n) (t : Fin n) (evs : List Event) : Decidable (InContext s t evs) :=
 inferInstanceAs (Decidable (∀ ev ∈ evs.head?, _ = _))

lemma InContext.enq {evs : List Event} (hown : InContext s t evs)
 (hstep : s.enq t q evs = some s') : s' = s ∨
 ((s.schedLocal t).originQe = none ∧
  s' = (s.record t q none evs).modify q fun e => (e.add evs).wake) ∨
 ∃ p ev link, (s.schedLocal t).originQe = some p ∧ evs = ev::link ∧
  (s.record t q (some p) evs).orderedQueueEnq t q p
   ⟨(s.schedLocal t).order,some q,true,ev,link⟩ = some s' := by
 obtain hs | ⟨ev,link,rfl,⟨hnone,hs⟩ | ⟨p,order,hsome,hs⟩⟩ := enq_cases hstep
 · exact .inl hs
 · rw [hown ev rfl,Option.map_eq_none_iff] at hnone
   exact .inr (.inl ⟨hnone,hs⟩)
 · rw [hown ev rfl] at hsome
   obtain ⟨_,horigin,heq⟩ := Option.map_eq_some_iff.mp hsome
   cases heq
   exact .inr (.inr ⟨p,ev,link,horigin,rfl,hs⟩)

/-- Queues are neither created nor destroyed, threads enqueue from their own context, and
`odp_schedule_release_context` gets a placeholder where it needs one. -/
def ReleaseOk (s : State m n) : Action m n → Prop
 | .enq t _ evs => InContext s t evs
 | .release _ keep alloc => keep = false → alloc = true
 | .create _ _ _ | .destroy _ _ => False
 | .take _ _ | .lock _ _ | .unlock _ _ | .step _ => True

instance (s : State m n) : ∀ a, Decidable (ReleaseOk s a)
 | .enq t _ evs => inferInstanceAs (Decidable (InContext s t evs))
 | .release _ keep alloc => inferInstanceAs (Decidable (keep = false → alloc = true))
 | .create _ _ _ | .destroy _ _ => inferInstanceAs (Decidable False)
 | .take _ _ | .lock _ _ | .unlock _ _ | .step _ => inferInstanceAs (Decidable True)

/-- Elements of `p` that can resolve their order are in the hands of a thread, which has no
context. -/
structure Handled (s : State m n) : Prop where
 live : ∀ q, s.bad q = false
 alone : ∀ t p e k, s.pc t = .moving p e k →
  (s.schedLocal t).originQe = none ∧ e.order ≤ (s.queue p).orderOut
 sorted : ∀ p, Sorted (s.queue p).reorder
 due : ∀ p, (s.queue p).NoneDue ∨ ∃ t e k, s.pc t = .moving p e k

/-- Where order `o` of the thread's context is when the thread has released it. -/
def Settled (s : State m n) (t : Fin n) (p : Fin m) (o : Nat) : Prop :=
 o < (s.queue p).orderOut ∨ (∃ x ∈ (s.queue p).reorder, x.order = o ∧ x.sustain = false) ∨
  (s.schedLocal t).originQe = some p ∧ (s.schedLocal t).order = o

/-- Where it is while `release_order` goes on. -/
def Resolving (s : State m n) (t : Fin n) (p : Fin m) (o : Nat) : Prop :=
 o < (s.queue p).orderOut ∨ ∃ e k, s.pc t = .moving p e k ∧ e.order = o ∧ e.sustain = false

namespace Handled

variable {s s' : State m n} {t : Fin n} {p q : Fin m}

lemma update (h : Handled s) (p : Fin m) (hbad : s'.bad = s.bad)
 (hlocal : ∀ u, u ≠ t → s'.schedLocal u = s.schedLocal u) (hpc : ∀ u, u ≠ t → s'.pc u = s.pc u)
 (hother : ∀ q, q ≠ p → (s'.queue q).reorder = (s.queue q).reorder ∧
  (s'.queue q).orderOut = (s.queue q).orderOut)
 (hmono : (s.queue p).orderOut ≤ (s'.queue p).orderOut)
 (hthread : ∀ q, q ≠ p → ∀ e k, s.pc t ≠ .moving q e k)
 (halone : ∀ q e k, s'.pc t = .moving q e k →
  (s'.schedLocal t).originQe = none ∧ e.order ≤ (s'.queue q).orderOut)
 (hsorted : Sorted (s'.queue p).reorder)
 (hdue : (s'.queue p).NoneDue ∨ ∃ u e k, s'.pc u = .moving p e k) : Handled s' := by
 refine ⟨fun q => ?_,fun u q e k hu => ?_,fun q => ?_,fun q => ?_⟩
 · rw [hbad]
   exact h.live q
 · by_cases hut : u = t
   · subst hut
     exact halone q e k hu
   · rw [hpc u hut] at hu
     obtain ⟨hnone,hle⟩ := h.alone u q e k hu
     rw [hlocal u hut]
     refine ⟨hnone,?_⟩
     by_cases hq : q = p
     · subst hq
       exact le_trans hle hmono
     · rw [(hother q hq).2]
       exact hle
 · by_cases hq : q = p
   · exact hq ▸ hsorted
   · rw [(hother q hq).1]
     exact h.sorted q
 · by_cases hq : q = p
   · exact hq ▸ hdue
   · obtain hnone | ⟨u,e,k,hu⟩ := h.due q
     · left
       intro x hx hs
       rw [(hother q hq).1] at hx
       rw [(hother q hq).2]
       exact hnone x hx hs
     · have hut : u ≠ t := by
        rintro rfl
        exact hthread q hq e k hu
       exact .inr ⟨u,e,k,(hpc u hut).trans hu⟩

section

variable (h : Handled s) (hbad : s'.bad = s.bad)

include h hbad

lemma congr (hpc : s'.pc = s.pc)
 (hlocal : ∀ u, s.pc u ≠ .idle → (s'.schedLocal u).originQe = (s.schedLocal u).originQe)
 (hq : ∀ r, (s'.queue r).reorder = (s.queue r).reorder ∧
  (s'.queue r).orderOut = (s.queue r).orderOut) : Handled s' := by
 refine ⟨fun q => ?_,fun u q e k hu => ?_,fun q => ?_,fun q => ?_⟩
 · rw [hbad]
   exact h.live q
 · rw [hpc] at hu
   rw [hlocal u (by rw [hu]; nofun),(hq q).2]
   exact h.alone u q e k hu
 · rw [(hq q).1]
   exact h.sorted q
 · rw [hpc]
   obtain hnone | hmover := h.due q
   · left
     intro x hx hs
     rw [(hq q).1] at hx
     rw [(hq q).2]
     exact hnone x hx hs
   · exact .inr hmover

lemma of_unaffected (hu : Unaffected s s') : Handled s' :=
 h.congr hbad hu.pc (fun u _ => (hu.context u).1) fun r => ⟨(hu.queue r).1,(hu.queue r).2.2⟩

lemma of_issues (hi : Issues s s' t q) : Handled s' := by
 refine h.congr hbad hi.pc (fun u hu => ?_) hi.queue
 have hut : u ≠ t := by
  rintro rfl
  exact hu hi.idle
 rw [hi.context_ne u hut]

end

/-- An enqueue from a context whose turn it is gets nothing back: there is no other element of its
order that could go. -/
lemma idle_of_context (h : Accounted s') {o : QueueEntry m} {k : Nat} {ret : Option (Entry m)}
 (ho : o = s'.queue p) (hpc : s'.pc t = .handOn p ret) (hscan : o.Scanned ret)
 (horigin : (s'.schedLocal t).originQe = some p) (horder : (s'.schedLocal t).order = k)
 (hk : k ≤ o.orderOut) : ret = none := by
 subst ho
 cases ret with
 | none => rfl
 | some b =>
  obtain ⟨-,a,hmem,hs,hdue⟩ := hscan
  have hctx : orderAt s' (.context t) (p,k) ≠ 0 := by
   rw [orderAt,resolving_context,if_pos horigin,horder]
   simp
  have hge := (h.bounds _ _ _ hctx).1
  have hheld : ∃ x, x ≠ .context t ∧ orderAt s' x (p,a.order) ≠ 0 := by
   obtain rfl | hmem := mem_cons.mp hmem
   · refine ⟨.hand t,by simp,?_⟩
     rw [orderAt,hpc,Pc.handOn,resolving_moving,resolving_cons hs]
     simp
   · refine ⟨.reorder p,by simp,?_⟩
     rw [orderAt,if_pos rfl]
     have hin : a.order ∈ resolving (s'.queue p).reorder :=
      mem_map_of_mem (mem_filter.mpr ⟨hmem,by simp [hs]⟩)
     exact (count_pos_iff.mpr hin).ne'
  obtain ⟨x,hne,hx⟩ := hheld
  have hge' := (h.bounds _ _ _ hx).1
  have heq : a.order = k := by omega
  rw [heq] at hx
  exact absurd (h.exclusive.unique hx hctx) hne

lemma enq (h : Handled s) (hacc : Accounted s') (hpc : s.pc t = .idle) {evs : List Event}
 (hown : InContext s t evs) (hstep : s.enq t q evs = some s') : Handled s' := by
 have hbad := bad_enq hstep
 obtain rfl | ⟨-,rfl⟩ | ⟨origin,ev,link,horigin,rfl,hstep⟩ := hown.enq hstep
 · exact h
 · exact h.of_unaffected hbad (.enq s t q _)
 · obtain ⟨hframe,⟨added,rest,out,hc⟩,qe,hqe,hself⟩ := orderedQueueEnq_frame hstep
   obtain ⟨hsorted,hscan⟩ := orderedQueueEnq_scans hstep (h.sorted origin)
   obtain rfl : qe = some origin := by
    obtain rfl | ⟨-,hs⟩ := hqe
    · exact horigin
    · cases hs
   refine h.update origin hbad (fun u hu => (hframe u hu).1)
    (fun u hu => (hframe u hu).2) (fun r hr => ⟨hc.reorder_ne r hr,hc.orderOut_ne r hr⟩)
    (hc.released origin).orderOut (fun r _ e k he => ?_) (fun r e k he => ?_) hsorted ?_
   · rw [hpc] at he
     cases he
   · obtain ⟨-,hidle,-⟩ | ⟨hin,-,ret,hret,hscan⟩ := hscan
     · rw [hidle] at he
       cases he
     · have hnone := idle_of_context hacc rfl hret hscan (by rw [hself]) (by rw [hself]; rfl)
        (le_trans hin (hc.released origin).orderOut)
       rw [hret,hnone] at he
       cases he
   · obtain ⟨-,-,hout,hlist⟩ | ⟨-,-,ret,hret,hscan⟩ := hscan
     · obtain hnone | ⟨u,e,k,hu⟩ := h.due origin
       · left
         intro x hx hs
         rw [hlist] at hx
         rw [hout]
         obtain rfl | hx := mem_reorderEnq.mp hx
         · cases hs
         · exact hnone x hx hs
       · have hut : u ≠ t := by
          rintro rfl
          rw [hpc] at hu
          cases hu
         exact .inr ⟨u,e,k,((hframe u hut).2).trans hu⟩
     · cases ret with
       | none => exact .inl hscan
       | some b => exact .inr ⟨t,b,false,hret⟩

lemma enqMoving (h : Handled s) {origin : Fin m} {e : Entry m} {keep : Bool}
 (hpc : s.pc t = .moving origin e keep) (hstep : s.enqMoving t origin e keep = some s') :
 Handled s' ∧ (s.queue origin).orderOut+e.releaseCount ≤ (s'.queue origin).orderOut := by
 obtain ⟨hnone,hdue⟩ := h.alone t origin e keep hpc
 obtain ⟨target,-,hstep⟩ := Option.bind_eq_some_iff.mp hstep
 rw [if_neg (by simp [h.live])] at hstep
 obtain ⟨hframe,⟨added,rest,out,hc⟩,qe,hqe,hself⟩ := orderedQueueEnq_frame hstep
 obtain ⟨hsorted,hscan⟩ := orderedQueueEnq_scans hstep (h.sorted origin)
 obtain ⟨hlate,-⟩ | ⟨-,hout,ret,hret,hscan⟩ := hscan
 · omega
 refine ⟨h.update origin (funext hc.bad) (fun u hu => (hframe u hu).1)
  (fun u hu => (hframe u hu).2) (fun r hr => ⟨hc.reorder_ne r hr,hc.orderOut_ne r hr⟩)
  (hc.released origin).orderOut (fun r hr e k he => ?_) (fun r e k he => ?_) hsorted ?_,hout⟩
 · rw [hpc] at he
   exact hr (Pc.moving.inj he).1.symm
 · rw [hself]
   cases ret with
   | none =>
    rw [hret] at he
    cases he
   | some b =>
    rw [hret] at he
    cases he
    refine ⟨?_,hscan.1⟩
    obtain rfl | ⟨rfl,-⟩ := hqe
    · exact hnone
    · rfl
 · cases ret with
   | none => exact .inl hscan
   | some b => exact .inr ⟨t,b,false,hret⟩

section

variable (h : Handled s) (hpc : s.pc t = .idle)

include h hpc

lemma of_marked {list : List (Entry m)} (h' : Aside s s' t p .idle list) (hsorted : Sorted list)
 (hnew : ∀ x ∈ list, x.sustain = false →
  x ∈ (s.queue p).reorder ∨ (s.queue p).orderOut < x.order) : Handled s' := by
 have hc := h'.change
 have hpc' : s'.pc = s.pc := by rw [h'.pc,← hpc,update_eq_self]
 refine h.update p (funext hc.bad) (fun u hu => ?_) (fun u => h'.pc_ne)
  (fun r hr => ⟨hc.reorder_ne r hr,hc.orderOut_ne r hr⟩)
  (hc.released p).orderOut (fun r _ e k he => ?_)
  (fun r e k he => ?_) (by rw [hc.reorder]; exact hsorted) ?_
 · rw [h'.schedLocal,update_of_ne hu]
 · rw [hpc] at he
   cases he
 · rw [h'.pc_self] at he
   cases he
 · rw [hpc']
   obtain hnone | hmover := h.due p
   · left
     intro x hx hs
     rw [hc.reorder] at hx
     rw [hc.orderOut]
     obtain hx' | hlate := hnew x hx hs
     · exact hnone x hx' hs
     · exact hlate
   · exact .inr hmover

lemma of_completed {s1 : State m n} {l : Local m}
 {out : Nat} (hc1 : Change s s1 p p [] (s.queue p).reorder out)
 (hlocal : s1.schedLocal = Function.update s.schedLocal t l) (hnone : l.originQe = none)
 (hpc1 : s1.pc = s.pc) :
 Handled (s1.complete t p) ∧ out ≤ ((s1.complete t p).queue p).orderOut := by
 have hc := hc1.trans (complete_change s1 t p p)
 have hsorted : Sorted (s1.queue p).reorder := by
  rw [hc1.reorder]
  exact h.sorted p
 have hscan := complete_scanned (t := t) hsorted
 have hret := complete_pc s1 t p
 have hlocal' : (s1.complete t p).schedLocal = Function.update s.schedLocal t l := hlocal
 refine ⟨h.update (t := t) p (funext hc.bad) (fun u hu => ?_) (fun u hu => ?_)
  (fun r hr => ⟨hc.reorder_ne r hr,hc.orderOut_ne r hr⟩) (hc.released p).orderOut
  (fun r _ e k he => ?_) (fun r e k he => ?_) (complete_sorted hsorted) ?_,?_⟩
 · rw [hlocal',update_of_ne hu]
 · rw [complete_pc_ne s1 t p hu,hpc1]
 · rw [hpc] at he
   cases he
 · rw [hret] at he
   rw [hlocal',update_self]
   cases hsome : (s1.queue p).reorderComplete.2 with
   | none =>
    rw [hsome] at he
    cases he
   | some b =>
    rw [hsome] at he hscan
    cases he
    exact ⟨hnone,hscan.1⟩
 · cases hsome : (s1.queue p).reorderComplete.2 with
   | none =>
    rw [hsome] at hscan
    exact .inl hscan
   | some b =>
    rw [hsome] at hret
    exact .inr ⟨t,b,false,hret⟩
 · have hle := ((complete_change s1 t p p).released p).orderOut
   rw [hc1.orderOut] at hle
   exact hle

lemma release {keep alloc : Bool}
 (halloc : keep = false → alloc = true) (horigin : (s.schedLocal t).originQe = some p) :
 Handled (s.release t keep alloc) ∧ ((s.release t keep alloc).pc t = .idle ∧
  Settled (s.release t keep alloc) t p (s.schedLocal t).order ∨
  Resolving (s.release t keep alloc) t p (s.schedLocal t).order) := by
 cases release_cases hpc keep alloc horigin with
 | kept _ _ h' =>
  rw [h']
  exact ⟨h,.inl ⟨hpc,.inr (.inr ⟨horigin,rfl⟩)⟩⟩
 | dropped hfail hkeep =>
  rw [halloc hkeep] at hfail
  cases hfail
 | resolved s1 hin _ hlocal hpc1 hc h' =>
  rw [h']
  obtain ⟨hhandled,hle⟩ := h.of_completed hpc hc hlocal rfl hpc1
  exact ⟨hhandled,.inr (.inl (lt_of_lt_of_le (Nat.lt_succ_of_le hin) hle))⟩
 | first a as hin hreorder ha h' =>
  have hc := h'.change
  have hsub : (as.dropWhile (·.order == (s.schedLocal t).order)).Sublist (s.queue p).reorder := by
   rw [hreorder]
   exact (dropWhile_sublist _).cons a
  refine ⟨h.update p (funext hc.bad) (fun u hu => ?_) (fun u => h'.pc_ne)
   (fun r hr => ⟨hc.reorder_ne r hr,hc.orderOut_ne r hr⟩) (hc.released p).orderOut
   (fun r _ e k he => ?_) (fun r e k he => ?_) ?_ (.inr ⟨t,_,_,h'.pc_self⟩),
   .inr (.inr ⟨_,_,h'.pc_self,ha,rfl⟩)⟩
  · rw [h'.schedLocal,update_of_ne hu]
  · rw [hpc] at he
    cases he
  · rw [h'.pc_self] at he
    cases he
    rw [h'.schedLocal,update_self,hc.orderOut]
    exact ⟨rfl,ha ▸ hin⟩
  · rw [hc.reorder]
    exact Pairwise.sublist hsub (h.sorted p)
 | marked pre a post hlate hold ha _ h' =>
  have hsorted : Sorted (pre++{ a with sustain := false }::post) := by
   refine (h.sorted p).of_orders ?_
   rw [hold]
   simp
  refine ⟨h.of_marked hpc h' hsorted fun x hx _ => ?_,.inl ⟨h'.pc_self,.inr (.inl ?_)⟩⟩
  · rw [hold]
    obtain rfl | hx := mem_marked a hx
    · exact .inr (ha ▸ hlate)
    · exact .inl hx
  · rw [h'.change.reorder]
    exact ⟨_,mem_append_right _ mem_cons_self,ha,rfl⟩
 | placed hlate h' =>
  refine ⟨h.of_marked hpc h' ((h.sorted p).reorderEnq _) fun x hx _ => ?_,
   .inl ⟨h'.pc_self,.inr (.inl ?_)⟩⟩
  · obtain rfl | hx := mem_reorderEnq.mp hx
    · exact .inr hlate
    · exact .inl hx
  · rw [h'.change.reorder]
    exact ⟨_,mem_reorderEnq.mpr (.inl rfl),rfl,rfl⟩

end

end Handled

-- Whole runs

structure Progressing (s : State m n) : Prop where
 accounted : Accounted s
 covered : Covered s
 handled : Handled s

/-- Live queues with any events on them, and no order handed out. -/
def Fresh (s : State m n) : Prop :=
 (∀ q, s.bad q = false ∧ (s.queue q).reorder = [] ∧ (s.queue q).orderOut = (s.queue q).orderIn) ∧
  ∀ t, s.pc t = .idle ∧ (s.schedLocal t).originQe = none

/-- Runs in which placeholders can be had for `odp_schedule_release_context`. -/
abbrev Released.Reachable : State m n → Prop := Transition.Reach Fresh step ReleaseOk

namespace Progressing

variable {s s' : State m n} {a : Action m n}

lemma init (h : Fresh s) : Progressing s := by
 obtain ⟨hq,ht⟩ := h
 refine ⟨.init (fun q => (hq q).2) ht,fun p o hge hlt => ?_,fun q => (hq q).1,fun t p e k he => ?_,
  fun p => ?_,fun p => .inl ?_⟩
 · rw [(hq p).2.2] at hge
   omega
 · rw [(ht t).1] at he
   cases he
 · rw [(hq p).2.1]
   exact Pairwise.nil
 · intro x hx
   rw [(hq p).2.1] at hx
   cases hx

lemma losesNone (h : Progressing s) (hok : ReleaseOk s a) (hstep : step s a = some s') :
 losesNone s a := by
 cases a with
 | step t =>
  obtain ⟨t,origin,e,keep,heq,hpc,-⟩ | ⟨-,hstep⟩ := step_cases hstep
  · obtain rfl := Action.step.inj heq
    exact ⟨h.handled.live,(h.handled.alone _ origin e keep hpc).1⟩
  · cases hstep
 | release t keep alloc | create t q param => exact hok
 | enq t q evs | take t q | lock t k | unlock t k | destroy t q => trivial

lemma step (h : Progressing s) (hok : ReleaseOk s a) (hstep : OrderedQueue.step s a = some s') :
 Progressing s' := by
 have heffect := h.accounted.effect hstep
 have hacc := h.accounted.of_effect heffect
 refine ⟨hacc,h.covered.of_effect heffect (h.losesNone hok hstep),?_⟩
 have hbad : a.keepsQueues = true → s'.bad = s.bad := step_bad hstep
 obtain ⟨t,origin,e,keep,rfl,hpc,hstep⟩ | ⟨hpc,hstep⟩ := step_cases hstep
 · exact (h.handled.enqMoving hpc hstep).1
 · cases a with
   | enq t q evs =>
    refine h.handled.enq hacc hpc (fun ev hev => hok ev ?_) hstep
    rw [head?_take] at hev
    split at hev
    · cases hev
    · exact hev
   | take t q =>
    simp only [State.call] at hstep
    split at hstep
    · cases hstep
    · next hfree =>
      cases hstep
      obtain hu | hi := Accounted.take_orders hpc hfree
      · exact h.handled.of_unaffected (hbad rfl) hu
      · exact h.handled.of_issues (hbad rfl) hi
   | release t keep alloc =>
    cases hstep
    cases horigin : (s.schedLocal t).originQe with
    | none =>
     rw [State.release,horigin]
     exact h.handled
    | some p => exact (h.handled.release hpc hok horigin).1
   | lock t k => exact h.handled.of_unaffected (hbad rfl) (Accounted.orderLock_unaffected hstep)
   | unlock t k =>
    cases hstep
    exact h.handled.of_unaffected (hbad rfl) (Accounted.orderUnlock_unaffected s t k)
   | create t q param | destroy t q => exact hok.elim
   | step t => cases hstep

lemma of_reachable (h : Released.Reachable s) : Progressing s :=
 h.invariant (fun _ => init) fun _ _ _ hs hok hstep => hs.step hok hstep

lemma orderOut_eq (h : Progressing s) {p : Fin m}
 (hquiet : ∀ t, s.pc t = .idle ∧ (s.schedLocal t).originQe ≠ some p) :
 (s.queue p).orderOut = (s.queue p).orderIn := by
 by_contra hne
 have hlt := lt_of_le_of_ne (h.accounted.le p) hne
 obtain ⟨x,hx⟩ := h.covered p _ (le_refl _) hlt
 cases x with
 | context t => simp [orderAt,resolving_context,(hquiet t).2] at hx
 | hand t => simp [orderAt,(hquiet t).1,Pc.resolving] at hx
 | reorder q =>
  rw [orderAt] at hx
  split at hx
  · next hq =>
    subst hq
    have hmem := count_pos_iff.mp (pos_of_ne_zero hx)
    obtain ⟨e,he,heq⟩ := mem_map.mp hmem
    obtain ⟨he,hs⟩ := mem_filter.mp he
    obtain hnone | ⟨t,e',k,ht⟩ := h.handled.due q
    · have hdue := hnone e he (by simpa using hs)
      omega
    · rw [(hquiet t).1] at ht
      cases ht
  · exact hx rfl

/-- While a call of the thread goes on, the order it was called with stays with it until it is
resolved. -/
lemma resolving_step (h : Progressing s) {t : Fin n} {p : Fin m} {o : Nat}
 (hown : a.thread = t → a = .step t) (hstep : OrderedQueue.step s a = some s')
 (hr : s.pc t = .idle ∨ Resolving s t p o) :
 (a = .step t → o < (s'.queue p).orderOut) ∧ (s'.pc t = .idle ∨ Resolving s' t p o) := by
 have heffect := h.accounted.effect hstep
 have hmono := heffect.orderOut_le p
 by_cases ha : a.thread = t
 · obtain rfl := hown ha
   have hlt : o < (s'.queue p).orderOut := by
    obtain ⟨u,origin,e,keep,heq,hpc,hstep⟩ | ⟨-,hstep⟩ := step_cases hstep
    · obtain rfl := Action.step.inj heq
      obtain hidle | hlt | ⟨e',k,hpc',horder,hs⟩ := hr
      · rw [hidle] at hpc
        cases hpc
      · exact lt_of_lt_of_le hlt hmono
      · cases hpc'.symm.trans hpc
        have hle := (h.handled.enqMoving hpc hstep).2
        have hdue := (h.handled.alone _ _ _ _ hpc).2
        rw [Entry.releaseCount,hs] at hle
        simp only [Bool.false_eq_true,if_false] at hle
        omega
    · cases hstep
   exact ⟨fun _ => hlt,.inr (.inl hlt)⟩
 · refine ⟨fun heq => absurd (congrArg Action.thread heq) ha,?_⟩
   rw [Resolving,heffect.pc_ne (Ne.symm ha)]
   obtain hidle | hlt | hmoving := hr
   · exact .inl hidle
   · exact .inr (.inl (lt_of_lt_of_le hlt hmono))
   · exact .inr (.inr hmoving)

end Progressing

/-- A release by a thread with order `o` of `p` returns at once, or after more steps of the thread:
then the order is resolved, an element of the reorder list resolves it, or the thread still has it.
When all threads have released, all orders are resolved. -/
theorem released_order_never_blocks {s : State m n} (h : Released.Reachable s) :
 (∀ t p keep alloc s1, (s.schedLocal t).originQe = some p →
  ReleaseOk s (.release t keep alloc) → step s (.release t keep alloc) = some s1 →
  (s1.pc t = .idle → Settled s1 t p (s.schedLocal t).order) ∧
  ∀ s2 s3, Transition.Reach (· = s1) step
   (fun s a => ReleaseOk s a ∧ (a.thread = t → a = .step t)) s2 →
   step s2 (.step t) = some s3 → s3.pc t = .idle → Settled s3 t p (s.schedLocal t).order) ∧
 ∀ p, (∀ t, s.pc t = .idle ∧ (s.schedLocal t).originQe ≠ some p) →
  (s.queue p).orderOut = (s.queue p).orderIn := by
 have hs := Progressing.of_reachable h
 refine ⟨fun t p keep alloc s1 horigin hok hstep => ?_,fun p hquiet => hs.orderOut_eq hquiet⟩
 have hs1 := hs.step hok hstep
 have hreleased : s1.pc t = .idle ∧ Settled s1 t p (s.schedLocal t).order ∨
  Resolving s1 t p (s.schedLocal t).order := by
  obtain ⟨u,origin,e,k,heq,-⟩ | ⟨hpc,hstep⟩ := step_cases hstep
  · cases heq
  · cases hstep
    exact (hs.handled.release hpc hok horigin).2
 refine ⟨fun hidle => ?_,fun s2 s3 hrun hlast _ => ?_⟩
 · obtain ⟨-,hsettled⟩ | hlt | ⟨e,k,hpc,-⟩ := hreleased
   · exact hsettled
   · exact .inl hlt
   · rw [hidle] at hpc
     cases hpc
 · -- the call goes on: the order stays with it
   have hrunning : Progressing s2 ∧
    (s2.pc t = .idle ∨ Resolving s2 t p (s.schedLocal t).order) := by
    refine hrun.invariant (P := fun s' => Progressing s' ∧
     (s'.pc t = .idle ∨ Resolving s' t p (s.schedLocal t).order)) ?_ ?_
    · rintro s' rfl
      exact ⟨hs1,hreleased.imp_left And.left⟩
    · intro s' a s'' hs' ha hstep
      exact ⟨hs'.1.step ha.1 hstep,(hs'.1.resolving_step ha.2 hstep hs'.2).2⟩
   exact .inl ((hrunning.1.resolving_step (fun _ => rfl) hlast hrunning.2).1 rfl)

lemma demo_fresh : Fresh demo :=
 ⟨fun q => ⟨(demo_init.1 q).1,rfl,rfl⟩,fun _ => ⟨rfl,rfl⟩⟩

theorem released_order_never_blocks_placeholder :
 ∃ s s1 : State 2 2, Released.Reachable s ∧ (s.schedLocal 1).originQe = some 0 ∧
  step s (.release 1 false true) = some s1 ∧ s1.pc 1 = .idle ∧
  Settled s1 1 0 (s.schedLocal 1).order := by
 have h0 : Released.Reachable demo := .start demo_fresh
 obtain ⟨s,hs,horigin,htest⟩ := h0.exists_of_run [.enq 0 0 [0,1],.take 0 0,.take 1 0]
  (fun s => (s.schedLocal 1).originQe = some 0 ∧
   (step s (.release 1 false true)).any (fun s1 => decide (s1.pc 1 = .idle)) = true) (by decide)
 cases hstep : step s (.release 1 false true) with
 | none =>
  rw [hstep] at htest
  cases htest
 | some s1 =>
  rw [hstep] at htest
  have hidle : s1.pc 1 = .idle := of_decide_eq_true htest
  exact ⟨s,s1,hs,horigin,hstep,hidle,
   ((released_order_never_blocks hs).1 1 0 false true s1 horigin (fun _ => rfl) hstep).1 hidle⟩

/-- Without a placeholder `odp_schedule_release_context` drops the context all the same: the order
is with nobody, and when all threads have released `order_out` stands before it. -/
theorem released_order_blocks : ∃ s : State 2 2, Transition.Reach Fresh step
 (fun s a => ReleaseOk s a ∨ a = .release 1 false false) s ∧
 (∀ t, s.pc t = .idle ∧ (s.schedLocal t).originQe = none) ∧
 (s.queue 0).orderOut = 1 ∧ (s.queue 0).orderIn = 2 ∧ (s.queue 0).reorder = [] := by
 exact Transition.exists_of_start demo_fresh
  [.enq 0 0 [0,1],.take 0 0,.take 1 0,.release 1 false false,.release 0 false true] _ (by decide)
  fun _ _ h => h

end Packages.OrderedQueue

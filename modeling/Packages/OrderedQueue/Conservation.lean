import Packages.OrderedQueue.Delivery

/-!
# Ordered scheduling conserves events

Two situations lose events: a context with several enqueued events is released when its turn has
come, and `reorder_complete` resolves a placeholder behind elements that it has passed. Runs
without them lose and duplicate nothing.
-/

namespace Packages.OrderedQueue

open Function State QueueEntry List

variable {m n : Nat}

attribute [local simp] eventAt Pc.events setLocal recordTake

structure Conserving (s : State m n) : Prop where
 custody : Custody (eventAt s)
 addressed : Addressed s
 live : ∀ q, s.bad q = false

-- Steps that lose events

/-- `release_order` in order: of the elements of this order there is one, without a chain; if there
is none, `reorder_complete` drops nothing. -/
def releaseKeepsAll (order : Nat) (o : QueueEntry m) : Bool :=
 match o.reorder with
 | a::as =>
  if a.order = order then a.link.isEmpty && !(as.head?.any (·.order = order))
  else dropsNone (o.orderOut+1) false o.reorder
 | [] => true

/-- The step does not overwrite the link of a first element that leads to others, nor move the head
of a reorder list past elements that are still to be delivered. -/
def keepsAll (s : State m n) : Action m n → Bool
 | .enq t q evs =>
  match evs.take Scheduler.queueMultiMax with
  | ev::link =>
   match s.getQueueOrder t ev with
   | some (origin,order) => enqKeepsAll (s.queue origin) q ⟨order,some q,true,ev,link⟩
   | none => true
  | [] => true
 | .release t _ _ =>
  match (s.schedLocal t).originQe with
  | some origin =>
   if (s.schedLocal t).order ≤ (s.queue origin).orderOut then
    releaseKeepsAll (s.schedLocal t).order (s.queue origin)
   else true
  | none => true
 | .step t =>
  match s.pc t with
  | .moving origin e _ =>
   match e.target with
   | some target => enqKeepsAll (s.queue origin) target e
   | none => true
  | .idle => true
 | _ => true

/-- Queues are neither created nor destroyed, placeholders can be allocated, and callers enqueue
events that they have. -/
def CallerOk (s : State m n) : Action m n → Prop
 | .enq _ _ evs => evs.Nodup ∧ ∀ ev ∈ evs, s.ledger.owned ev = true
 | .release _ _ alloc => alloc = true
 | .create _ _ _ | .destroy _ _ => False
 | .take _ _ | .lock _ _ | .unlock _ _ | .step _ => True

instance (s : State m n) : ∀ a, Decidable (CallerOk s a)
 | .enq _ _ evs => inferInstanceAs (Decidable (evs.Nodup ∧ ∀ ev ∈ evs, s.ledger.owned ev = true))
 | .release _ _ alloc => inferInstanceAs (Decidable (alloc = true))
 | .create _ _ _ | .destroy _ _ => inferInstanceAs (Decidable False)
 | .take _ _ | .lock _ _ | .unlock _ _ | .step _ => inferInstanceAs (Decidable True)

/-- Any live queues, all empty, and all events with the application. -/
def Init (s : State m n) : Prop :=
 (∀ q, s.bad q = false ∧ (s.queue q).events = [] ∧ (s.queue q).reorder = [] ∧
  (s.queue q).orderOut = (s.queue q).orderIn) ∧
 (∀ t, s.pc t = .idle ∧ (s.schedLocal t).originQe = none) ∧
 (∀ ev, s.ledger.owned ev = true ∧ s.hdr ev = none) ∧
 (s.ledger.seq = 0 ∧ ∀ q, s.ledger.taken q = [])

-- The steps

namespace Conserving

variable {s s' : State m n} {t : Fin n} {q : Fin m}

lemma enqMoving (h : Conserving s) {origin : Fin m} {e : Entry m} {keep : Bool}
 (hpc : s.pc t = .moving origin e keep) (hstep : s.enqMoving t origin e keep = some s')
 (hk : ∀ target, e.target = some target → enqKeepsAll (s.queue origin) target e = true) :
 Conserving s' := by
 obtain ⟨target,htarget,hstep⟩ := Option.bind_eq_some_iff.mp hstep
 rw [if_neg (by simp [h.live])] at hstep
 obtain ⟨added,rest,ret,d⟩ := orderedQueueEnq_delivers hstep (hk target htarget)
 have hevents := events_of_target htarget
 refine ⟨d.custody h.custody rfl rfl fun ev => ?_,d.addressed h.addressed fun ev hev => ?_,
  fun q => ?_⟩
 · rw [hpc,Pc.events,hevents]
 · have hsent := h.addressed.hand t origin e keep hpc ev (hevents ▸ hev)
   exact ⟨hsent.1.trans htarget,hsent.2⟩
 · obtain ⟨orderOut,hc⟩ := d.change
   rw [hc.bad,h.live]

lemma eventAt_of_owned (h : Conserving s) {ev : Event} (hev : s.ledger.owned ev = true)
 {p : Place m n} (hp : p ≠ .application) : eventAt s p ev = 0 :=
 h.custody.eq_zero (p := .application) (by simp [hev]) hp

variable {evs : List Event}

lemma record_addressed (h : Conserving s) (src : Option (Fin m))
 (howned : ∀ ev ∈ evs, s.ledger.owned ev = true) : Addressed (s.record t q src evs) := by
 have hnot : ∀ p : Place m n, p ≠ .application → ∀ ev, eventAt s p ev ≠ 0 → ev ∉ evs :=
  fun p hp ev hev hmem => hev (h.eventAt_of_owned (howned ev hmem) hp)
 have hsent : ∀ (p : Place m n), p ≠ .application → ∀ r x,
  (∀ ev ∈ x.events, eventAt s p ev ≠ 0) → Sent s.ledger r x →
  Sent (s.record t q src evs).ledger r x := by
  intro p hp r x hx hsent ev hev
  have hev' := hnot p hp ev (hx ev hev)
  simp only [record,hev']
  exact hsent ev hev
 refine ⟨fun r ev hev => ?_,fun r x hx => ?_,fun u r x k hu => ?_⟩
 · have hev' := hnot (.list r) (by simp) ev (count_pos_iff.mpr hev).ne'
   simp only [record,hev']
   exact h.addressed.list r ev hev
 · refine hsent (.reorder r) (by simp) r x (fun ev hev => ?_) (h.addressed.reorder r x hx)
   exact (count_pos_iff.mpr (mem_flatMap.mpr ⟨x,hx,hev⟩)).ne'
 · have hu : s.pc u = .moving r x k := hu
   refine hsent (.hand u) (by simp) r x (fun ev hev => ?_) (h.addressed.hand u r x k hu)
   rw [eventAt,hu]
   exact (count_pos_iff.mpr hev).ne'

lemma application_record (src : Option (Fin m)) (hnodup : evs.Nodup)
 (howned : ∀ ev ∈ evs, s.ledger.owned ev = true) (ev : Event) : eventAt s .application ev =
  eventAt (s.record t q src evs) .application ev+evs.count ev := by
 by_cases hev : ev ∈ evs
 · simp [record,hev,howned ev hev,count_eq_one_of_mem hnodup hev]
 · simp [record,hev,count_eq_zero_of_not_mem hev]

section

variable (h : Conserving s)

include h

attribute [local simp] State.bad

lemma enq_unordered (hnodup : evs.Nodup) (howned : ∀ ev ∈ evs, s.ledger.owned ev = true) :
 Conserving ((s.record t q none evs).modify q fun e => (e.add evs).wake) := by
 have hevents : ∀ r, (((s.record t q none evs).modify q fun e => (e.add evs).wake).queue r).events =
  (s.queue r).events++if r = q then evs else [] := by
  intro r
  by_cases hr : r = q
  · subst hr
    simp [State.modify,State.record,wake_fields,add]
  · simp [State.modify,State.record,hr]
 have hreorder :
  ∀ r, (((s.record t q none evs).modify q fun e => (e.add evs).wake).queue r).reorder =
  (s.queue r).reorder := by
  intro r
  by_cases hr : r = q
  · subst hr
    simp [State.modify,State.record,wake_fields,add]
  · simp [State.modify,State.record,hr]
 have haddr := h.record_addressed (t := t) (q := q) none howned
 refine ⟨?_,⟨fun r ev hev => ?_,fun r x hx => ?_,haddr.hand⟩,fun r => ?_⟩
 · refine h.custody.move (l := evs) (a := .application) (b := .list q) fun p ev => ?_
   cases p with
   | application =>
    have := application_record (t := t) (q := q) none hnodup howned ev
    exact this.symm
   | list r =>
    by_cases hr : r = q
    · subst hr
      simp [hevents]
    · simp [hevents,hr]
   | reorder r => simp [hreorder]
   | hand u => simp [State.modify,State.record]
 · rw [hevents] at hev
   rcases mem_append.mp hev with hev | hev
   · exact haddr.list r ev hev
   · split_ifs at hev with hr
     · simp [State.modify,State.record,hev,hr]
     · simp at hev
 · rw [hreorder] at hx
   exact haddr.reorder r x hx
 · have hbad := h.live r
   by_cases hr : r = q
   · subst hr
     have := ((s.queue r).add evs).keeps_wake.bad
     simp only [State.bad,State.modify,State.record,update_self] at hbad ⊢
     rw [this]
     exact hbad
   · simpa [State.modify,State.record,hr] using hbad

lemma enq (hpc : s.pc t = .idle) (hnodup : evs.Nodup)
 (howned : ∀ ev ∈ evs, s.ledger.owned ev = true)
 (hk : ∀ ev link origin order, evs = ev::link → s.getQueueOrder t ev = some (origin,order) →
  enqKeepsAll (s.queue origin) q ⟨order,some q,true,ev,link⟩ = true)
 (hstep : s.enq t q evs = some s') : Conserving s' := by
 obtain rfl | ⟨ev,link,rfl,⟨-,rfl⟩ | ⟨origin,order,horder,hstep⟩⟩ := enq_cases hstep
 · exact h
 · exact h.enq_unordered hnodup howned
 · obtain ⟨added,rest,ret,d⟩ := orderedQueueEnq_delivers hstep (hk ev link origin order rfl horder)
   refine ⟨d.custody h.custody rfl rfl fun ev' => ?_,
    d.addressed (h.record_addressed _ howned) fun ev' hev' => ?_,fun r => ?_⟩
   · rw [hpc]
     exact application_record _ hnodup howned ev'
   · have hmem : ev' ∈ ev::link := hev'
     simp only [record,if_pos hmem,and_self]
   · obtain ⟨orderOut,hc⟩ := d.change
     rw [hc.bad]
     exact h.live r

lemma reorder_step {origin : Fin m} {rest : List (Entry m)} {orderOut : Nat}
 (ret : Option (Entry m)) (hpc : s.pc t = .idle)
 (hc : Change s s' origin origin [] rest orderOut)
 (hret : s'.pc t = .idle ∧ ret = none ∨ ∃ x k, ret = some x ∧ s'.pc t = .moving origin x k)
 (hne : ∀ u, u ≠ t → s'.pc u = s.pc u) (hcount : ∀ ev, (eventsOf (ret.toList++rest)).count ev =
  (eventsOf (s.queue origin).reorder).count ev)
 (hmem : ∀ x ∈ ret.toList++rest, Sent s.ledger origin x) : Conserving s' := by
 have hhand : (s'.pc t).events = eventsOf ret.toList := by
  rcases hret with ⟨hidle,rfl⟩ | ⟨x,k,rfl,hmoving⟩
  · rw [hidle]
    rfl
  · rw [hmoving]
    simp
 have hlist : ∀ r, (s'.queue r).events = (s.queue r).events := by
  intro r
  rw [hc.events]
  split_ifs <;> exact append_nil _
 refine ⟨?_,⟨fun r ev hev => ?_,fun r x hx => ?_,fun u p x k hu => ?_⟩,fun r => ?_⟩
 · refine h.custody.regroup (S := [.reorder origin,.hand t]) (by simp)
    (fun p hp ev => ?_) fun ev => ?_
   · simp only [mem_cons,not_mem_nil,or_false,not_or] at hp
     cases p with
     | application => simp [hc.ledger]
     | list r => simp [hlist]
     | reorder r =>
      have hr : r ≠ origin := fun hr => hp.1 (by rw [hr])
      simp [hc.reorder_ne r hr]
     | hand u =>
      have hu : u ≠ t := fun hu => hp.2 (by rw [hu])
      simp [hne u hu]
   · have := hcount ev
     rw [eventsOf_append,count_append] at this
     have hidle : (s.pc t).events = [] := by rw [hpc]; rfl
     simp only [map_cons,map_nil,sum_cons,eventAt,hc.reorder,hhand,hidle,count_nil]
     omega
 · rw [hc.ledger]
   exact h.addressed.list r ev (hlist r ▸ hev)
 · rw [hc.ledger]
   by_cases hr : r = origin
   · subst hr
     rw [hc.reorder] at hx
     exact hmem x (mem_append_right _ hx)
   · rw [hc.reorder_ne r hr] at hx
     exact h.addressed.reorder r x hx
 · rw [hc.ledger]
   by_cases hut : u = t
   · subst hut
     rcases hret with ⟨hidle,-⟩ | ⟨y,k',rfl,hmoving⟩
     · simp [hidle] at hu
     · rw [hmoving] at hu
       cases hu
       exact hmem x (by simp)
   · exact h.addressed.hand u p x k (hne u hut ▸ hu)
 · rw [hc.bad,h.live]

lemma release (hpc : s.pc t = .idle) (keep : Bool)
 (hk : ∀ origin, (s.schedLocal t).originQe = some origin →
  (s.schedLocal t).order ≤ (s.queue origin).orderOut →
  releaseKeepsAll (s.schedLocal t).order (s.queue origin) = true) :
 Conserving (s.release t keep true) := by
 cases horigin : (s.schedLocal t).originQe with
 | none => simpa only [State.release,horigin] using h
 | some origin =>
  have hsent := h.addressed.reorder origin
  cases release_cases hpc keep true horigin with
  | kept halloc | dropped halloc => cases halloc
  | resolved s1 hin hhead _ hpc1 hc1 h' =>
   rw [h']
   -- no element of this order is in front of the list
   have hdrop : dropsNone ((s.queue origin).orderOut+1) false (s.queue origin).reorder = true := by
    have hkeep := hk origin horigin hin
    cases hreorder : (s.queue origin).reorder with
    | nil => rfl
    | cons a as =>
     rw [hreorder] at hhead
     simpa only [releaseKeepsAll,hreorder,if_neg (hhead a rfl)] using hkeep
   have hevents := (s1.queue origin).reorderComplete_events
    (by rw [hc1.orderOut,hc1.reorder]; exact hdrop)
   refine h.reorder_step (s1.queue origin).reorderComplete.2 hpc
    (hc1.trans (complete_change s1 t origin origin)) ?_ (fun u hu => ?_)
    (fun ev => ?_) fun x hx => ?_
   · rw [complete_pc]
     cases (s1.queue origin).reorderComplete.2 with
     | none => exact .inl ⟨rfl,rfl⟩
     | some x => exact .inr ⟨x,false,rfl,rfl⟩
   · rw [complete_pc_ne s1 t origin hu,hpc1]
   · rw [hevents,hc1.reorder]
   · have hx := mem_completeLoop hx
     rw [nil_append,hc1.reorder] at hx
     exact hsent x hx
  | first a as hin hreorder ha h' =>
   -- one element of this order, without a chain
   have hkeep := hk origin horigin hin
   rw [releaseKeepsAll,hreorder] at hkeep
   simp only [if_pos ha,Bool.and_eq_true,List.isEmpty_iff] at hkeep
   obtain ⟨hlink,hnext⟩ := hkeep
   have hdrop : as.dropWhile (·.order == (s.schedLocal t).order) = as := by
    cases as with
    | nil => rfl
    | cons b bs => exact dropWhile_cons_of_neg (by simpa using hnext)
   have hevents : Entry.events { a with sustain := false, link := [] } = a.events :=
    events_congr rfl rfl hlink.symm
   refine h.reorder_step (some { a with sustain := false, link := [] }) hpc h'.change
    (.inr ⟨_,keep,rfl,h'.pc_self⟩) (fun u => h'.pc_ne) (fun ev => ?_) fun x hx => ?_
   · simp [hdrop,hreorder,hevents]
   · rw [hreorder] at hsent
     rw [hdrop] at hx
     rcases mem_cons.mp hx with rfl | hx
     · intro ev hev
       exact hsent a (mem_cons_self ..) ev (hevents ▸ hev)
     · exact hsent x (mem_cons_of_mem a hx)
  | marked pre a post _ hold _ _ h' =>
   refine h.reorder_step none hpc h'.change (.inl ⟨h'.pc_self,rfl⟩) (fun u => h'.pc_ne)
    (fun ev => ?_) fun x hx => ?_
   · rw [hold]
     simp [Entry.events]
   · rw [hold] at hsent
     rw [Option.toList_none,nil_append] at hx
     obtain rfl | hx := mem_marked a hx
     · exact hsent a (by simp)
     · exact hsent x hx
  | placed _ h' =>
   refine h.reorder_step none hpc h'.change (.inl ⟨h'.pc_self,rfl⟩) (fun u => h'.pc_ne)
    (fun ev => ?_) fun x hx => ?_
   · rw [Option.toList_none,nil_append,(eventsOf_perm (reorderEnq_perm _ _)).count_eq]
     simp
   · rcases mem_reorderEnq.mp hx with rfl | hx
     · intro ev hev
       simp at hev
     · exact hsent x hx

lemma of_eq (hpc : s'.pc = s.pc) (hledger : s'.ledger = s.ledger)
 (hq : ∀ r, (s'.queue r).events = (s.queue r).events ∧
  (s'.queue r).reorder = (s.queue r).reorder ∧ s'.bad r = s.bad r) : Conserving s' := by
 refine ⟨?_,⟨fun r ev hev => ?_,fun r x hx => ?_,fun u r x k hu => ?_⟩,fun r => ?_⟩
 · have hsame : eventAt s' = eventAt s := by
    funext p ev
    cases p <;> simp [hpc,hledger,hq]
   rw [hsame]
   exact h.custody
 · rw [(hq r).1] at hev
   exact hledger ▸ h.addressed.list r ev hev
 · rw [(hq r).2.1] at hx
   exact hledger ▸ h.addressed.reorder r x hx
 · rw [hpc] at hu
   exact hledger ▸ h.addressed.hand u r x k hu
 · rw [(hq r).2.2,h.live]

lemma take_event {ev : Event} (hevents : (s.queue q).events = ev::evs) (hpc : s'.pc = s.pc)
 (howned : s'.ledger.owned = update s.ledger.owned ev true)
 (hdest : s'.ledger.dest = s.ledger.dest) (hsrc : s'.ledger.src = s.ledger.src)
 (hq : (s'.queue q).events = evs) (hne : ∀ r, r ≠ q → s'.queue r = s.queue r)
 (hreorder : ∀ r, (s'.queue r).reorder = (s.queue r).reorder) (hbad : ∀ r, s'.bad r = s.bad r) :
 Conserving s' := by
 have hnot : s.ledger.owned ev = false := by
  by_contra howned
  have := h.eventAt_of_owned (p := .list q) (eq_true_of_ne_false howned) (by simp)
  simp [hevents] at this
 have hsent : ∀ r x, Sent s.ledger r x → Sent s'.ledger r x := by
  intro r x hx ev hev
  rw [hdest,hsrc]
  exact hx ev hev
 refine ⟨?_,⟨fun r ev' hev => ?_,fun r x hx => hsent r x ?_,fun u r x k hu => hsent r x ?_⟩,
  fun r => ?_⟩
 · refine h.custody.move (l := [ev]) (a := .list q) (b := .application) fun p ev' => ?_
   cases p with
   | application =>
    by_cases hev : ev' = ev
    · subst hev
      simp [howned,hnot]
    · simp [howned,hev,Ne.symm hev]
   | list r =>
    by_cases hr : r = q
    · subst hr
      simp [hevents,hq,count_cons]
    · simp [hne r hr,hr]
   | reorder r => simp [hreorder]
   | hand u => simp [hpc]
 · rw [hdest]
   by_cases hr : r = q
   · subst hr
     rw [hq] at hev
     exact h.addressed.list r ev' (hevents ▸ mem_cons_of_mem ev hev)
   · exact h.addressed.list r ev' (hne r hr ▸ hev)
 · exact h.addressed.reorder r x (hreorder r ▸ hx)
 · exact h.addressed.hand u r x k (hpc ▸ hu)
 · rw [hbad,h.live]

attribute [local simp] State.modify

lemma take : Conserving (s.take t q) := by
 simp only [State.take,h.live,Bool.false_eq_true,if_false]
 cases hevents : (s.queue q).events with
 | nil =>
  refine h.of_eq rfl rfl fun r => ?_
  by_cases hr : r = q
  · subst hr
    simp only [State.modify,State.bad,update_self]
    exact (s.queue r).sleep_fields
  · simp [hr]
 | cons ev evs =>
  simp only
  split
  all_goals
   refine h.take_event hevents rfl rfl rfl rfl ?_ (fun r hr => ?_) (fun r => ?_) fun r => ?_
   · simp
   · simp [hr]
   all_goals
    by_cases hr : r = q
    · subst hr
      simp
    · simp [hr]

lemma orderLock {k : Nat} (hstep : s.orderLock t k = some s') : Conserving s' := by
 simp only [State.orderLock] at hstep
 split at hstep
 · exact Option.some.inj hstep ▸ h
 · split_ifs at hstep
   · exact Option.some.inj hstep ▸ h
   · exact Option.some.inj hstep ▸ h.of_eq rfl rfl fun r => ⟨rfl,rfl,rfl⟩

lemma orderUnlock (k : Nat) : Conserving (s.orderUnlock t k) := by
 simp only [State.orderUnlock]
 split
 · exact h
 · next p hp =>
   split_ifs
   · exact h
   · refine h.of_eq rfl rfl fun r => ?_
     by_cases hr : r = p
     · subst hr
       simp
     · simp [hr]

lemma step {a : Action m n} (hok : CallerOk s a) (hk : keepsAll s a = true)
 (hstep : OrderedQueue.step s a = some s') : Conserving s' := by
 rcases step_cases hstep with ⟨t,origin,e,keep,rfl,hpc,hstep⟩ | ⟨hpc,hstep⟩
 · refine h.enqMoving hpc hstep fun target htarget => ?_
   simpa [keepsAll,hpc,htarget] using hk
 · cases a with
   | enq t' q' evs =>
    obtain ⟨hnodup,howned⟩ := hok
    refine h.enq hpc (hnodup.sublist (take_sublist ..))
     (fun ev hev => howned ev (mem_of_mem_take hev)) (fun ev link origin order hevs horder => ?_)
     hstep
    have horder : s.getQueueOrder t' ev = some (origin,order) := horder
    simpa [keepsAll,hevs,horder] using hk
   | take t' q' =>
    simp only [call] at hstep
    split_ifs at hstep
    exact Option.some.inj hstep ▸ h.take
   | release t' keep alloc =>
    cases hstep
    subst hok
    refine h.release hpc keep fun origin horigin hin => ?_
    have horigin : (s.schedLocal t').originQe = some origin := horigin
    have hin : (s.schedLocal t').order ≤ (s.queue origin).orderOut := hin
    show releaseKeepsAll (s.schedLocal t').order (s.queue origin) = true
    simpa [keepsAll,horigin,hin] using hk
   | lock t' k => exact h.orderLock hstep
   | unlock t' k => exact Option.some.inj hstep ▸ h.orderUnlock k
   | create t' q' param | destroy t' q' => exact hok.elim
   | step t' => simp [call] at hstep

end

lemma init (h : Init s) : Conserving s := by
 obtain ⟨hqueue,hthread,hevent,-⟩ := h
 refine ⟨⟨fun _ => .application,fun p ev => ?_⟩,⟨fun q ev hev => ?_,fun q x hx => ?_,
  fun u r x k hu => ?_⟩,fun q => (hqueue q).1⟩
 · cases p with
   | application => simp [hevent]
   | list q | reorder q => simp [hqueue]
   | hand t => simp [hthread]
 · simp [hqueue] at hev
 · simp [hqueue] at hx
 · simp [hthread] at hu

end Conserving

-- Whole runs

/-- The event is there once, and nowhere else. -/
def OnlyAt (s : State m n) (p : Place m n) (ev : Event) : Prop :=
 eventAt s p ev = 1 ∧ ∀ p', p' ≠ p → eventAt s p' ev = 0

/-- Runs in which no step loses events, from any queues. -/
abbrev Reachable : State m n → Prop :=
 Transition.Reach Init step fun s a => CallerOk s a ∧ keepsAll s a = true

/-- An enqueued event is at one place, once: on the list of its queue, on the reorder list of the
queue whose order the enqueue was subject to, or with a thread that took it off there. -/
theorem ordered_events_conserved {s : State m n} (h : Reachable s) (ev : Event)
 (hev : s.ledger.owned ev = false) : (∃ q, s.ledger.dest ev = some q ∧ OnlyAt s (.list q) ev) ∨
 (∃ p, s.ledger.src ev = some p ∧ OnlyAt s (.reorder p) ev) ∨
 ∃ t p e keep, s.pc t = .moving p e keep ∧ s.ledger.src ev = some p ∧ OnlyAt s (.hand t) ev := by
 have hc : Conserving s :=
  h.invariant (fun _ => Conserving.init) fun s a s' hs ha hstep => hs.step ha.1 ha.2 hstep
 obtain ⟨p,hp,-⟩ := hc.custody.existsUnique ev
 have honly : OnlyAt s p ev := ⟨hp,fun p' hne => hc.custody.eq_zero (by rw [hp]; decide) hne⟩
 cases p with
 | application => simp [hev] at hp
 | list q =>
  have hmem : ev ∈ (s.queue q).events := count_pos_iff.mp (by rw [eventAt] at hp; omega)
  exact .inl ⟨q,hc.addressed.list q ev hmem,honly⟩
 | reorder q =>
  have hmem : ev ∈ eventsOf (s.queue q).reorder := count_pos_iff.mp (by rw [eventAt] at hp; omega)
  obtain ⟨x,hx,hevx⟩ := mem_flatMap.mp hmem
  exact .inr (.inl ⟨q,(hc.addressed.reorder q x hx ev hevx).2,honly⟩)
 | hand t =>
  have hmem : ev ∈ (s.pc t).events := count_pos_iff.mp (by rw [eventAt] at hp; omega)
  cases hpc : s.pc t with
  | idle => simp [hpc] at hmem
  | moving p e keep =>
   rw [hpc] at hmem
   exact .inr (.inr ⟨t,p,e,keep,hpc,(hc.addressed.hand t p e keep hpc ev hmem).2,honly⟩)

attribute [local instance] Transition.neZero_two

/-- An ordered queue, a plain queue and two threads. -/
def demo : State 2 2 where
 queue q := ⟨if q = 0 then .notsched else .ready,⟨if q = 0 then .ordered else .plain,0⟩,[],0,0,[],
  fun _ => 0,fun _ => 0,fun _ _ => 0,fun _ _ => false⟩
 hdr _ := none
 schedLocal _ := ⟨none,0,fun _ => 0,false,fun _ => false⟩
 pc _ := .idle
 ledger := ⟨fun _ => true,fun _ => none,fun _ => none,fun _ => ⟨none,0,0⟩,0,fun _ => []⟩

lemma demo_init : Init demo := by
 refine ⟨fun q => ⟨?_,rfl,rfl,rfl⟩,fun t => ⟨rfl,rfl⟩,fun ev => ⟨rfl,rfl⟩,rfl,fun q => rfl⟩
 revert q
 decide

/-- The second context enqueues out of order and is released; its event waits on the reorder list
and with the first thread before it gets to its queue. -/
theorem ordered_events_conserved_two_contexts :
 ∃ s : State 2 2, Reachable s ∧ s.ledger.owned 10 = false ∧ s.pc 0 ≠ .idle ∧
  ((∃ q, s.ledger.dest 10 = some q ∧ OnlyAt s (.list q) 10) ∨
  (∃ p, s.ledger.src 10 = some p ∧ OnlyAt s (.reorder p) 10) ∨
  ∃ t p e keep, s.pc t = .moving p e keep ∧ s.ledger.src 10 = some p ∧
   OnlyAt s (.hand t) 10) := by
 refine Transition.exists_of_start demo_init
  [.enq 0 0 [0,1],.take 0 0,.take 1 0,.enq 1 1 [10],.release 1 true true,.release 0 true true]
  (fun s => s.ledger.owned 10 = false ∧ s.pc 0 ≠ .idle) (by decide)
  fun s hs ⟨howned,hpc⟩ => ?_
 exact ⟨howned,hpc,ordered_events_conserved hs 10 howned⟩

/-- Two events enqueued one by one out of order, and the context released when its turn has come:
the second one is on no list and in nobody's hands. -/
theorem ordered_events_lost :
 ∃ s : State 2 2, Transition.Reach Init step CallerOk s ∧ s.ledger.owned 11 = false ∧
  s.ledger.dest 11 = some 1 ∧ ∀ p, eventAt s p 11 = 0 := by
 have h0 : Transition.Reach Init step CallerOk demo := .start demo_init
 obtain ⟨s,hs,howned,hdest,hlist,hreorder,hhand⟩ := h0.exists_of_run
  [.enq 0 0 [0,1],.take 0 0,.take 1 0,.enq 1 1 [10],.enq 1 1 [11],.release 0 true true,
   .release 1 true true,.step 1]
  (fun s => s.ledger.owned 11 = false ∧ s.ledger.dest 11 = some 1 ∧
   (∀ q, eventAt s (.list q) 11 = 0) ∧ (∀ q, eventAt s (.reorder q) 11 = 0) ∧
   ∀ t, eventAt s (.hand t) 11 = 0) (by decide)
 refine ⟨s,hs,howned,hdest,fun p => ?_⟩
 cases p with
 | application => simp [howned]
 | list q => exact hlist q
 | reorder q => exact hreorder q
 | hand t => exact hhand t

end Packages.OrderedQueue

import Packages.OrderedQueue.Line

/-!
# Order restoration

Events from contexts of one queue reach their targets in the order of their contexts, and those of
one context as they were enqueued. The line in front of the origin is sorted in this way, everything
that has left it comes before it, and whoever enqueues comes last. `reorder_complete` breaks the
sequence when it hands back an element that keeps its sustain flag, for that one is sorted in again.
-/

namespace Packages.OrderedQueue

open Function State List Nat

variable {m n : Nat}

attribute [local simp] State.recordTake State.modify State.setLocal

def Tag.Before (x y : Tag m) : Prop := x.order < y.order ∨ x.order = y.order ∧ x.seq < y.seq

instance (x y : Tag m) : Decidable (x.Before y) :=
 inferInstanceAs (Decidable (x.order < y.order ∨ x.order = y.order ∧ x.seq < y.seq))

/-- `x` comes out before `y` rightly. -/
def Restored (x y : Tag m) : Prop := x.origin = y.origin → x.origin ≠ none → x.Before y

/-- The element in hand, if any, resolves its order. -/
def Pc.resolves : Pc m → Bool
 | .idle => true
 | .moving _ e _ => !e.sustain

/-- Threads enqueue events that they have, from their own contexts; queues are neither created nor
destroyed. -/
def OwnEvents (s : State m n) : Action m n → Prop
 | .enq t _ evs => InContext s t evs ∧ evs.Nodup ∧ ∀ ev ∈ evs, s.ledger.owned ev = true
 | .create _ _ _ | .destroy _ _ => False
 | .take _ _ | .release _ _ _ | .lock _ _ | .unlock _ _ | .step _ => True

instance (s : State m n) : ∀ a, Decidable (OwnEvents s a)
 | .enq t _ evs => inferInstanceAs
  (Decidable (InContext s t evs ∧ evs.Nodup ∧ ∀ ev ∈ evs, s.ledger.owned ev = true))
 | .create _ _ _ | .destroy _ _ => inferInstanceAs (Decidable False)
 | .take _ _ | .release _ _ _ | .lock _ _ | .unlock _ _ | .step _ =>
  inferInstanceAs (Decidable True)

/-- `reorder_complete` stops at no element behind sustained ones that it passed, so that it hands
back the one it stopped at. -/
def stopsFirst (orderOut : Nat) (passed : Bool) : List (Entry m) → Bool
 | [] => true
 | a::l =>
  if a.order ≤ orderOut then
   match a.target, a.sustain with
   | none, _ => stopsFirst (orderOut+1) false l
   | some _, true => stopsFirst orderOut true l
   | some _, false => !passed
  else true

/-- `ordered_queue_enq` of the element calls `reorder_complete` only where that stops first. -/
def enqHandsResolved (o : QueueEntry m) (target : Fin m) (e : Entry m) : Bool :=
 if o.orderOut < e.order ∨ o.reorder = [] then true
 else
  let r := reorderDeq target (o.orderOut+e.releaseCount)
   (reorderEnq { e with target := some target, sustain := true } o.reorder)
  stopsFirst r.orderOut false r.rest

/-- The step does not hand an element with the sustain flag to the thread. -/
def handsResolved (s : State m n) : Action m n → Bool
 | .enq t q evs =>
  match evs.take Scheduler.queueMultiMax with
  | ev::link =>
   match s.getQueueOrder t ev with
   | some (origin,order) => enqHandsResolved (s.queue origin) q ⟨order,some q,true,ev,link⟩
   | none => true
  | [] => true
 | .release t _ _ =>
  match (s.schedLocal t).originQe with
  | some origin =>
   let o := s.queue origin
   -- the first element of its own order is handed over without the flag
   if (s.schedLocal t).order ≤ o.orderOut ∧
    ¬ o.reorder.head?.any (·.order = (s.schedLocal t).order) then
    stopsFirst (o.orderOut+1) false o.reorder
   else true
  | none => true
 | .step t =>
  match s.pc t with
  | .moving origin e _ =>
   match e.target with
   | some target => enqHandsResolved (s.queue origin) target e
   | none => true
  | .idle => true
 | _ => true

/-- What came to the queue, and what of it was taken off. -/
def arrived (s : State m n) (q : Fin m) : List (Tag m) :=
 s.ledger.taken q++(s.queue q).events.map s.ledger.tag

-- What is handed back

lemma QueueEntry.completeLoop_resolves {o : QueueEntry m} {passed l : List (Entry m)}
 (h : stopsFirst o.orderOut (!passed.isEmpty) l = true) (origin : Fin m) :
 (Pc.handOn origin (o.completeLoop passed l).2).resolves = true := by
 induction l generalizing o passed with
 | nil => rfl
 | cons a l ih =>
  obtain hc | ⟨hdue,ht,hc⟩ | ⟨hdue,ht,hs,hc⟩ | ⟨hdue,ht,hs,b,bs,hb,hc⟩ :=
   completeLoop_cons o passed a l
  · rw [hc]
    rfl
  · simp only [stopsFirst,hdue,ht,if_true] at h
    rw [hc]
    exact ih h
  · obtain ⟨q,hq⟩ := Option.isSome_iff_exists.mp ht
    simp only [stopsFirst,hdue,hq,hs,if_true] at h
    rw [hc]
    refine ih ?_
    rw [show (passed++[a]).isEmpty = false by simp]
    exact h
  · obtain ⟨q,hq⟩ := Option.isSome_iff_exists.mp ht
    obtain rfl : passed = [] := by simpa [stopsFirst,hdue,hq,hs] using h
    obtain ⟨rfl,-⟩ := cons.inj hb
    rw [hc]
    simp [Pc.handOn,Pc.resolves,hs]

section Hand

variable {s s' : State m n} {t : Fin n} {target origin : Fin m} {e : Entry m}

lemma complete_resolves
 (h : stopsFirst (s.queue origin).orderOut false (s.queue origin).reorder = true) :
 ((s.complete t origin).pc t).resolves = true := by
 rw [complete_pc]
 have hnone : stopsFirst (s.queue origin).orderOut (!([] : List (Entry m)).isEmpty)
  (s.queue origin).reorder = true := h
 exact QueueEntry.completeLoop_resolves hnone origin

lemma orderedQueueEnq_resolves (h : s.orderedQueueEnq t target origin e = some s')
 (hhands : enqHandsResolved (s.queue origin) target e = true) : (s'.pc t).resolves = true := by
 obtain ⟨⟨s1,b⟩,hmove,rfl⟩ := Option.map_eq_some_iff.mp h
 obtain ⟨-,-,⟨-,rfl,-⟩ | ⟨hin,-,⟨-,rfl,-⟩ | ⟨hne,rfl,r,hr,-,hc⟩⟩⟩ := orderedMove_cases hmove
 · simp [State.setPc,Pc.resolves]
 · simp [State.setPc,Pc.resolves]
 · refine complete_resolves ?_
   rw [hc.orderOut,hc.reorder,hr]
   simpa [enqHandsResolved,not_lt.mpr hin,hne] using hhands

lemma release_resolves (hpc : s.pc t = .idle) (keep alloc : Bool)
 (hhands : handsResolved s (.release t keep alloc) = true) :
 ((s.release t keep alloc).pc t).resolves = true := by
 cases horigin : (s.schedLocal t).originQe with
 | none =>
  simp only [State.release,horigin,hpc]
  rfl
 | some origin =>
  cases release_cases hpc keep alloc horigin with
  | kept _ _ h =>
   rw [h,hpc]
   rfl
  | dropped _ _ h | marked _ _ _ _ _ _ _ h | placed _ h =>
   rw [h.pc_self]
   rfl
  | first a as hin hreorder ha h =>
   rw [h.pc_self]
   rfl
  | resolved s1 hin hhead _ _ hc h =>
   rw [h]
   refine complete_resolves ?_
   rw [hc.orderOut,hc.reorder]
   have hfirst : (s.queue origin).reorder.head?.any (·.order = (s.schedLocal t).order) = false := by
    cases hsome : (s.queue origin).reorder.head? with
    | none => rfl
    | some a => simpa using hhead a hsome
   simpa [handsResolved,horigin,hin,hfirst] using hhands

lemma pc_take (s : State m n) (t : Fin n) (q : Fin m) : (s.take t q).pc = s.pc := by
 simp only [State.take]
 split
 · split <;> rfl
 · split
   · rfl
   · split <;> rfl

lemma step_resolves {a : Action m n} (hown : OwnEvents s a) (hhands : handsResolved s a = true)
 (hstep : OrderedQueue.step s a = some s') : (s'.pc a.thread).resolves = true := by
 obtain ⟨t,p,e,k,rfl,hpc,hstep⟩ | ⟨hpc,hstep⟩ := step_cases hstep
 · obtain ⟨target,htarget,hstep⟩ := Option.bind_eq_some_iff.mp hstep
   split at hstep
   · cases hstep
     simp [Action.thread,State.setPc,Pc.resolves]
   · refine orderedQueueEnq_resolves hstep ?_
     simpa only [handsResolved,hpc,htarget] using hhands
 · have hidle : (s.pc a.thread).resolves = true := by
    rw [hpc]
    rfl
   cases a with
   | enq t q evs =>
    obtain rfl | ⟨ev,link,hevs,⟨-,rfl⟩ | ⟨p,order,horder,hstep⟩⟩ := enq_cases hstep
    · exact hidle
    · exact hidle
    · refine orderedQueueEnq_resolves hstep ?_
      simp only [handsResolved,hevs,horder] at hhands
      exact hhands
   | take t q =>
    simp only [call] at hstep
    split_ifs at hstep
    cases hstep
    rw [pc_take]
    exact hidle
   | release t keep alloc => exact Option.some.inj hstep ▸ release_resolves hpc keep alloc hhands
   | lock t k =>
    simp only [call,State.orderLock] at hstep
    split at hstep
    · exact Option.some.inj hstep ▸ hidle
    · split_ifs at hstep
      · exact Option.some.inj hstep ▸ hidle
      · exact Option.some.inj hstep ▸ hidle
   | unlock t k =>
    cases hstep
    simp only [State.orderUnlock]
    split
    · exact hidle
    · split_ifs <;> exact hidle
   | create t q param | destroy t q => exact hown.elim
   | step t => cases hstep

end Hand

-- Lines

/-- The events of the elements are in sequence. -/
structure Ranked (tag : Event → Tag m) (p : Fin m) (l : List (Entry m)) : Prop where
 tagged : ∀ x ∈ l, ∀ ev ∈ x.events, (tag ev).origin = some p ∧ (tag ev).order = x.order
 inside : ∀ x ∈ l, x.events.Pairwise fun a b => (tag a).Before (tag b)
 across : l.Pairwise fun x y => ∀ a ∈ x.events, ∀ b ∈ y.events, (tag a).Before (tag b)

/-- What came before the line. -/
def Passed (tag : Event → Tag m) (p : Fin m) (out : Nat) (past : List (Tag m))
 (l : List (Entry m)) : Prop :=
 ∀ x ∈ past, x.origin = some p → x.order ≤ out ∧ ∀ y ∈ l, ∀ ev ∈ y.events, x.Before (tag ev)

section Lists

variable {tag tag' : Event → Tag m} {p : Fin m} {out out' : Nat} {past : List (Tag m)}
 {a e : Entry m} {l l' : List (Entry m)}

lemma Ranked.sublist (h : Ranked tag p l) (hsub : l'.Sublist l) : Ranked tag p l' :=
 ⟨fun x hx => h.tagged x (hsub.subset hx),fun x hx => h.inside x (hsub.subset hx),
  h.across.sublist hsub⟩

lemma Passed.mono (h : Passed tag p out past l) (hsub : ∀ x ∈ l', x ∈ l) (hout : out ≤ out') :
 Passed tag p out' past l' := by
 intro x hx horigin
 obtain ⟨hle,hbefore⟩ := h x hx horigin
 exact ⟨le_trans hle hout,fun y hy => hbefore y (hsub y hy)⟩

lemma Ranked.shrink (pre : List (Entry m)) {post : List (Entry m)} (h : Ranked tag p (pre++a::post))
 (horder : e.order = a.order) (hsub : e.events.Sublist a.events) : Ranked tag p (pre++e::post) := by
 have ha : a ∈ pre++a::post := mem_append_right _ mem_cons_self
 obtain ⟨hpre,hpost,hcross⟩ := pairwise_append.mp h.across
 obtain ⟨hfirst,hpost⟩ := pairwise_cons.mp hpost
 refine ⟨fun x hx => ?_,fun x hx => ?_,pairwise_append.mpr ⟨hpre,?_,fun x hx y hy => ?_⟩⟩
 · obtain rfl | hx := mem_marked a hx
   · rw [horder]
     exact fun ev hev => h.tagged a ha ev (hsub.subset hev)
   · exact h.tagged x hx
 · obtain rfl | hx := mem_marked a hx
   · exact (h.inside a ha).sublist hsub
   · exact h.inside x hx
 · exact pairwise_cons.mpr ⟨fun y hy v hv => hfirst y hy v (hsub.subset hv),hpost⟩
 · obtain rfl | hy := mem_cons.mp hy
   · exact fun v hv w hw => hcross x hx a mem_cons_self v hv w (hsub.subset hw)
   · exact hcross x hx y (mem_cons_of_mem a hy)

lemma Passed.shrink (pre : List (Entry m)) {post : List (Entry m)}
 (h : Passed tag p out past (pre++a::post)) (hsub : e.events.Sublist a.events) :
 Passed tag p out past (pre++e::post) := by
 intro x hx horigin
 obtain ⟨hle,hbefore⟩ := h x hx horigin
 refine ⟨hle,fun y hy ev hev => ?_⟩
 obtain rfl | hy := mem_marked a hy
 · exact hbefore a (mem_append_right _ mem_cons_self) ev (hsub.subset hev)
 · exact hbefore y hy ev hev

lemma Ranked.reorderEnq (h : Ranked tag p l) (hsorted : Sorted l)
 (htagged : ∀ ev ∈ e.events, (tag ev).origin = some p ∧ (tag ev).order = e.order)
 (hinside : e.events.Pairwise fun a b => (tag a).Before (tag b))
 (hlast : ∀ x ∈ l, ∀ v ∈ x.events, ∀ ev ∈ e.events, (tag v).seq < (tag ev).seq) :
 Ranked tag p (reorderEnq e l) := by
 refine ⟨fun x hx => ?_,fun x hx => ?_,pairwise_reorderEnq hsorted h.across
  (fun x hx hle v hv ev hev => ?_) fun x hx hlt ev hev v hv => ?_⟩
 · obtain rfl | hx := mem_reorderEnq.mp hx
   · exact htagged
   · exact h.tagged x hx
 · obtain rfl | hx := mem_reorderEnq.mp hx
   · exact hinside
   · exact h.inside x hx
 · have hv' := (h.tagged x hx v hv).2
   have hev' := (htagged ev hev).2
   obtain heq | hlt := eq_or_lt_of_le hle
   · exact .inr ⟨by omega,hlast x hx v hv ev hev⟩
   · exact .inl (by omega)
 · have hv' := (h.tagged x hx v hv).2
   have hev' := (htagged ev hev).2
   exact .inl (by omega)

lemma Passed.reorderEnq (h : Passed tag p out past l)
 (htagged : ∀ ev ∈ e.events, (tag ev).origin = some p ∧ (tag ev).order = e.order)
 (hdue : out ≤ e.order) (hlast : ∀ x ∈ past, ∀ ev ∈ e.events, x.seq < (tag ev).seq) :
 Passed tag p out past (reorderEnq e l) := by
 intro x hx horigin
 obtain ⟨hle,hbefore⟩ := h x hx horigin
 refine ⟨hle,fun y hy ev hev => ?_⟩
 obtain rfl | hy := mem_reorderEnq.mp hy
 · have hev' := (htagged ev hev).2
   obtain heq | hlt := eq_or_lt_of_le (le_trans hle hdue)
   · exact .inr ⟨by omega,hlast x hx ev hev⟩
   · exact .inl (by omega)
 · exact hbefore y hy ev hev

lemma Ranked.deliver {moved rest : List (Entry m)} (h : Ranked tag p l)
 (hsub : (moved++rest).Sublist l)
 (hpassed : Passed tag p out past l) (hpast : past.Pairwise Restored) (hout : out ≤ out')
 (hmoved : ∀ x ∈ moved, x.order ≤ out') : (past++(eventsOf moved).map tag).Pairwise Restored ∧
  Passed tag p out' (past++(eventsOf moved).map tag) rest := by
 have h' := h.sublist hsub
 obtain ⟨hin,-,hcross⟩ := pairwise_append.mp h'.across
 refine ⟨pairwise_append.mpr ⟨hpast,?_,fun x hx y hy horigin hne => ?_⟩,fun x hx horigin => ?_⟩
 · refine pairwise_map.mpr (pairwise_flatMap.mpr ⟨fun x hx => ?_,?_⟩)
   · exact (h'.inside x (mem_append_left _ hx)).imp fun hbefore _ _ => hbefore
   · exact hin.imp fun hbefore v hv w hw _ _ => hbefore v hv w hw
 · obtain ⟨ev,hev,rfl⟩ := mem_map.mp hy
   obtain ⟨y,hy,hev⟩ := mem_flatMap.mp hev
   have hmem := hsub.subset (mem_append_left rest hy)
   rw [(h.tagged y hmem ev hev).1] at horigin
   exact (hpassed x hx horigin).2 y hmem ev hev
 · obtain hx | hx := mem_append.mp hx
   · obtain ⟨hle,hbefore⟩ := hpassed x hx horigin
     exact ⟨le_trans hle hout,fun y hy => hbefore y (hsub.subset (mem_append_right _ hy))⟩
   · obtain ⟨v,hv,rfl⟩ := mem_map.mp hx
     obtain ⟨z,hz,hv⟩ := mem_flatMap.mp hv
     have horder := (h.tagged z (hsub.subset (mem_append_left rest hz)) v hv).2
     refine ⟨?_,fun y hy ev hev => hcross z hz y hy v hv ev hev⟩
     rw [horder]
     exact hmoved z hz

lemma Ranked.congr (h : Ranked tag p l) (htag : ∀ x ∈ l, ∀ ev ∈ x.events, tag' ev = tag ev) :
 Ranked tag' p l := by
 refine ⟨fun x hx ev hev => ?_,fun x hx => ?_,?_⟩
 · rw [htag x hx ev hev]
   exact h.tagged x hx ev hev
 · refine Pairwise.imp_of_mem (fun {v w} hv hw hbefore => ?_) (h.inside x hx)
   rw [htag x hx v hv,htag x hx w hw]
   exact hbefore
 · refine Pairwise.imp_of_mem (fun {x y} hx hy hbefore v hv w hw => ?_) h.across
   rw [htag x hx v hv,htag y hy w hw]
   exact hbefore v hv w hw

lemma Passed.congr (h : Passed tag p out past l)
 (htag : ∀ x ∈ l, ∀ ev ∈ x.events, tag' ev = tag ev) : Passed tag' p out past l := by
 intro x hx horigin
 obtain ⟨hle,hbefore⟩ := h x hx horigin
 refine ⟨hle,fun y hy ev hev => ?_⟩
 rw [htag y hy ev hev]
 exact hbefore y hy ev hev

lemma Passed.append {more : List (Tag m)} (h : Passed tag p out past l)
 (hmore : ∀ x ∈ more, x.origin ≠ some p) : Passed tag p out (past++more) l := by
 intro x hx horigin
 obtain hx | hx := mem_append.mp hx
 · exact h x hx horigin
 · exact absurd horigin (hmore x hx)

lemma le_of_mem_moved {queue : Fin m} {x : Entry m} (h : x ∈ (reorderDeq queue out l).moved) :
 x.order ≤ (reorderDeq queue out l).orderOut := by
 induction l generalizing out with
 | nil => cases h
 | cons a l ih =>
  obtain hd | ⟨-,-,hd⟩ | ⟨hdue,-,hd⟩ := reorderDeq_cons queue out a l
  · rw [hd] at h
    cases h
  · rw [hd] at h ⊢
    exact ih h
  · rw [hd] at h ⊢
    obtain rfl | h := mem_cons.mp h
    · exact le_trans hdue (le_trans (Nat.le_add_right ..) (le_reorderDeq_orderOut ..))
    · exact ih h

lemma eventsOf_sublist (h : l'.Sublist l) : (eventsOf l').Sublist (eventsOf l) := by
 induction h with
 | slnil => exact .slnil
 | cons a _ ih => exact ih.trans (sublist_append_right _ _)
 | cons_cons a _ ih => exact (Sublist.refl a.events).append ih

end Lists

-- States

def Pc.entriesAt (p : Fin m) : Pc m → List (Entry m)
 | .idle => []
 | .moving origin e _ => if origin = p then [e] else []

/-- The line in front of `p` with what the thread took off it. -/
def lineOf (s : State m n) (t : Fin n) (p : Fin m) : List (Entry m) :=
 (s.pc t).entriesAt p++(s.queue p).reorder

structure InSequence (s : State m n) : Prop where
 restored : ∀ q, (arrived s q).Pairwise Restored
 ranked : ∀ t p, Ranked s.ledger.tag p (lineOf s t p)
 passed : ∀ t p q, Passed s.ledger.tag p (s.queue p).orderOut (arrived s q) (lineOf s t p)

lemma Pc.entriesAt_handOn (p : Fin m) (ret : Option (Entry m)) :
 (Pc.handOn p ret).entriesAt p = ret.toList := by
 cases ret with
 | none => rfl
 | some b => exact if_pos rfl

variable {p : Fin m}

lemma Pc.entriesAt_handOn_of_ne {r : Fin m} (ret : Option (Entry m)) (hr : r ≠ p) :
 (Pc.handOn p ret).entriesAt r = [] := by
 cases ret with
 | none => rfl
 | some b => exact if_neg (Ne.symm hr)

lemma Pc.entriesAt_eq_nil {pc : Pc m} (h : ∀ e k, pc ≠ .moving p e k) : pc.entriesAt p = [] := by
 cases pc with
 | idle => rfl
 | moving origin e k =>
  refine if_neg fun heq => ?_
  subst heq
  exact h e k rfl

/-- What `ordered_queue_enq` of `e` does with the line: the element is sorted in, `moved` goes to
the target and `ret` to the thread. -/
structure Served (s s' : State m n) (t : Fin n) (target p : Fin m) (e : Entry m)
 (moved rest : List (Entry m)) (ret : Option (Entry m)) : Prop where
 change : ∃ out, Change s s' target p (eventsOf moved) rest out
 pc : s'.pc t = .handOn p ret
 pc_ne : ∀ u, u ≠ t → s'.pc u = s.pc u
 sublist : ∃ b, (moved++(ret.toList++rest)).Sublist
  (reorderEnq { e with target := some target, sustain := b } (s.queue p).reorder)
 due : ∀ x ∈ moved, x.order ≤ (s'.queue p).orderOut
 late : (s.queue p).orderOut < e.order → moved = [] ∧ ret = none ∧
  rest = reorderEnq { e with target := some target } (s.queue p).reorder ∧
  (s'.queue p).orderOut = (s.queue p).orderOut

lemma orderedQueueEnq_served {s s' : State m n} {t : Fin n} {target : Fin m} {e : Entry m}
 (h : s.orderedQueueEnq t target p e = some s') :
 ∃ moved rest ret, Served s s' t target p e moved rest ret := by
 obtain ⟨⟨s1,b⟩,hmove,rfl⟩ := Option.map_eq_some_iff.mp h
 obtain ⟨hpc,-,hcase⟩ := orderedMove_cases hmove
 have hidle : (s1.setPc t .idle).pc t = .handOn p none := by simp [setPc,Pc.handOn]
 have hne : ∀ u, u ≠ t → (s1.setPc t .idle).pc u = s.pc u := by
  intro u hu
  simp [setPc,hu,hpc]
 obtain ⟨-,rfl,-,hc⟩ | ⟨hin,-,⟨hempty,rfl,hc⟩ | ⟨-,rfl,r,hr,-,hc⟩⟩ := hcase
 · -- sorted in
   have hc' := hc.setPc t .idle
   exact ⟨[],_,none,⟨⟨_,hc'⟩,hidle,hne,⟨e.sustain,.refl _⟩,by simp,fun _ =>
    ⟨rfl,rfl,rfl,hc'.orderOut⟩⟩⟩
 · -- straight to the target
   have hc' := hc.setPc t .idle
   rw [if_neg Bool.false_ne_true]
   have hevents : eventsOf [{ e with target := some target, sustain := true }] = e.buf::e.link :=
    append_nil _
   rw [← hevents] at hc'
   refine ⟨[{ e with target := some target, sustain := true }],[],none,
    ⟨⟨_,hc'⟩,hidle,hne,⟨true,?_⟩,fun x hx => ?_,fun hlate => ?_⟩⟩
   · rw [hempty]
     exact .refl _
   · rw [mem_singleton.mp hx,hc'.orderOut]
     exact le_trans hin (Nat.le_add_right ..)
   · omega
 · -- with everything due for the target
   have hcc := complete_change s1 t target p
   have hall := hc.trans hcc
   rw [if_pos rfl]
   rw [append_nil] at hall
   refine ⟨r.moved,_,_,⟨⟨_,hall⟩,complete_pc s1 t p,fun u hu => ?_,⟨true,?_⟩,fun x hx =>
    ?_,fun hlate => ?_⟩⟩
   · rw [complete_pc_ne s1 t p hu,hpc]
   · have hsub := (s1.queue p).completeLoop_sublist [] (s1.queue p).reorder
     have hrest : ([]++(s1.queue p).reorder).Sublist r.rest := by
      rw [nil_append,hc.reorder]
     have hall := (Sublist.refl r.moved).append (hsub.trans hrest)
     refine hall.trans ?_
     rw [hr]
     exact reorderDeq_sublist ..
   · have hle := (hcc.released p).orderOut
     rw [hc.orderOut] at hle
     rw [hr] at hx hle
     exact le_trans (le_of_mem_moved hx) hle
   · omega

namespace InSequence

variable {s s' : State m n} {t : Fin n} {p q target : Fin m}

lemma of_lines (harrived : ∀ q, arrived s' q = arrived s q) (htag : s'.ledger.tag = s.ledger.tag)
 (h : InSequence s) (hranked : ∀ u r, Ranked s.ledger.tag r (lineOf s' u r))
 (hpassed : ∀ u r q, Passed s.ledger.tag r (s'.queue r).orderOut (arrived s q) (lineOf s' u r)) :
 InSequence s' := by
 refine ⟨fun q => ?_,fun u r => ?_,fun u r q => ?_⟩
 · rw [harrived]
   exact h.restored q
 · rw [htag]
   exact hranked u r
 · rw [htag,harrived]
   exact hpassed u r q

variable {l : List (Entry m)}

lemma arrived_of_change {added : List Event} {out : Nat}
 (hc : Change s s' target p added l out) (q : Fin m) :
 arrived s' q = arrived s q++if q = target then added.map s.ledger.tag else [] := by
 rw [arrived,arrived,hc.ledger,hc.events,map_append,append_assoc]
 split
 · rfl
 · rw [map_nil]

lemma deliver (h : InSequence s) (moved : List (Entry m)) {rest : List (Entry m)}
 {ret : Option (Entry m)} {out : Nat}
 (hc : Change s s' target p (eventsOf moved) rest out) (hpc : s'.pc t = .handOn p ret)
 (hne : ∀ u, u ≠ t → s'.pc u = s.pc u) (hfree : ∀ u, u ≠ t → ∀ e k, s.pc u ≠ .moving p e k)
 (hown : ∀ r, r ≠ p → (s.pc t).entriesAt r = []) (hranked : Ranked s.ledger.tag p l)
 (hpassed : ∀ q, Passed s.ledger.tag p (s.queue p).orderOut (arrived s q) l)
 (hsub : (moved++(ret.toList++rest)).Sublist l) (hmoved : ∀ x ∈ moved, x.order ≤ out) :
 InSequence s' := by
 have hle : (s.queue p).orderOut ≤ out := hc.orderOut ▸ (hc.released p).orderOut
 have hrest : (ret.toList++rest).Sublist l := (sublist_append_right _ _).trans hsub
 have hself : lineOf s' t p = ret.toList++rest := by
  rw [lineOf,hpc,Pc.entriesAt_handOn,hc.reorder]
 have hothers : ∀ u, u ≠ t → lineOf s' u p = rest := by
  intro u hu
  rw [lineOf,hne u hu,Pc.entriesAt_eq_nil (hfree u hu),hc.reorder,nil_append]
 have hline : ∀ u, (lineOf s' u p).Sublist (ret.toList++rest) := by
  intro u
  by_cases hu : u = t
  · rw [hu,hself]
  · rw [hothers u hu]
    exact sublist_append_right _ _
 have helse : ∀ u r, r ≠ p → lineOf s' u r = lineOf s u r := by
  intro u r hr
  rw [lineOf,lineOf,hc.reorder_ne r hr]
  by_cases hu : u = t
  · rw [hu,hpc,Pc.entriesAt_handOn_of_ne ret hr,hown r hr]
  · rw [hne u hu]
 have hnew := fun q => hranked.deliver hsub (hpassed q) (h.restored q) hle hmoved
 have horigin : ∀ x ∈ (eventsOf moved).map s.ledger.tag, x.origin = some p := by
  intro x hx
  obtain ⟨ev,hev,rfl⟩ := mem_map.mp hx
  obtain ⟨y,hy,hev⟩ := mem_flatMap.mp hev
  exact (hranked.tagged y (hsub.subset (mem_append_left _ hy)) ev hev).1
 refine ⟨fun q => ?_,fun u r => ?_,fun u r q => ?_⟩
 · rw [arrived_of_change hc]
   split
   · exact (hnew q).1
   · rw [append_nil]
     exact h.restored q
 · rw [hc.ledger]
   by_cases hr : r = p
   · subst hr
     exact hranked.sublist ((hline u).trans hrest)
   · rw [helse u r hr]
     exact h.ranked u r
 · rw [hc.ledger,arrived_of_change hc]
   by_cases hr : r = p
   · subst hr
     rw [hc.orderOut]
     split
     · exact (hnew q).2.mono (fun x hx => (hline u).subset hx) (le_refl _)
     · rw [append_nil]
       exact (hpassed q).mono (fun x hx => ((hline u).trans hrest).subset hx) hle
   · rw [helse u r hr,hc.orderOut_ne r hr]
     refine (h.passed u r q).append fun x hx => ?_
     split at hx
     · rw [horigin x hx]
       exact fun heq => hr (Option.some.inj heq).symm
     · cases hx

/-- A step that leaves the lines as they are and takes nothing from what has arrived. -/
lemma of_same (h : InSequence s) (harrived : ∀ q, arrived s' q = arrived s q)
 (htag : s'.ledger.tag = s.ledger.tag) (hpc : s'.pc = s.pc)
 (hq : ∀ r, (s'.queue r).reorder = (s.queue r).reorder ∧
  (s'.queue r).orderOut = (s.queue r).orderOut) : InSequence s' := by
 have hline : ∀ u r, lineOf s' u r = lineOf s u r := by
  intro u r
  rw [lineOf,lineOf,hpc,(hq r).1]
 refine of_lines harrived htag h (fun u r => ?_) fun u r q => ?_
 · rw [hline]
   exact h.ranked u r
 · rw [hline,(hq r).2]
   exact h.passed u r q

lemma of_line (h : InSequence s) (t : Fin n) {out : Nat}
 (hc : Change s s' target p [] l out) (hne : ∀ u, u ≠ t → s'.pc u = s.pc u)
 (hown : ∀ r, r ≠ p → (s'.pc t).entriesAt r = (s.pc t).entriesAt r)
 (hranked : ∀ u, Ranked s.ledger.tag p (lineOf s' u p))
 (hpassed : ∀ u q, Passed s.ledger.tag p out (arrived s q) (lineOf s' u p)) : InSequence s' := by
 have helse : ∀ u r, r ≠ p → lineOf s' u r = lineOf s u r := by
  intro u r hr
  rw [lineOf,lineOf,hc.reorder_ne r hr]
  by_cases hu : u = t
  · rw [hu,hown r hr]
  · rw [hne u hu]
 refine of_lines (fun q => ?_) (by rw [hc.ledger]) h (fun u r => ?_) fun u r q => ?_
 · rw [arrived_of_change hc]
   split
   · rw [map_nil,append_nil]
   · rw [append_nil]
 · by_cases hr : r = p
   · subst hr
     exact hranked u
   · rw [helse u r hr]
     exact h.ranked u r
 · by_cases hr : r = p
   · subst hr
     rw [hc.orderOut]
     exact hpassed u q
   · rw [helse u r hr,hc.orderOut_ne r hr]
     exact h.passed u r q

end InSequence

section Lines

variable {s : State m n} {aim : Fin m → Nat → Fin m → Prop}

lemma Lined.sorted_line (h : Lined aim s) (u : Fin n) (p : Fin m) : Sorted (lineOf s u p) := by
 rw [lineOf]
 cases hpc : s.pc u with
 | idle => exact (h.line p).sorted
 | moving origin e k =>
  by_cases hp : origin = p
  · subst hp
    rw [Pc.entriesAt,if_pos rfl]
    exact (h.hand u origin e k hpc).1.line.sorted
  · rw [Pc.entriesAt,if_neg hp]
    exact (h.line p).sorted

lemma Lined.line_reorderEnq (h : Lined aim s) (u : Fin n) {e : Entry m}
 (hdue : (s.queue p).orderOut ≤ e.order) :
 (s.pc u).entriesAt p++reorderEnq e (s.queue p).reorder = reorderEnq e (lineOf s u p) := by
 rw [lineOf]
 cases hpc : s.pc u with
 | idle => rfl
 | moving origin b k =>
  by_cases hp : origin = p
  · subst hp
    have horder := (h.hand u origin b k hpc).1.order
    rw [Pc.entriesAt,if_pos rfl,singleton_append,singleton_append,reorderEnq,if_pos (by omega)]
  · rw [Pc.entriesAt,if_neg hp]
    rfl

lemma lineOf_of_idle {u : Fin n} (hpc : s.pc u = .idle) (p : Fin m) :
 lineOf s u p = (s.queue p).reorder := by
 rw [lineOf,hpc]
 rfl

lemma eventAt_of_line {u : Fin n} {x : Entry m} {ev : Event} (hx : x ∈ lineOf s u p)
 (hev : ev ∈ x.events) : ∃ place, place ≠ .application ∧ eventAt s place ev ≠ 0 := by
 obtain hx | hx := mem_append.mp hx
 · refine ⟨.hand u,by simp,?_⟩
   rw [eventAt]
   cases hpc : s.pc u with
   | idle =>
    rw [hpc] at hx
    cases hx
   | moving origin e k =>
    rw [hpc,Pc.entriesAt] at hx
    split at hx
    · obtain rfl := mem_singleton.mp hx
      exact (count_pos_iff.mpr hev).ne'
    · cases hx
 · exact ⟨.reorder p,by simp,(count_pos_iff.mpr (mem_flatMap.mpr ⟨x,hx,hev⟩)).ne'⟩

end Lines

-- The books

/-- No event is at two places, and everything that was enqueued comes before the next enqueue. -/
structure Booked (s : State m n) : Prop where
 exclusive : Exclusive (eventAt s)
 known : ∀ ev, s.ledger.owned ev = false → (s.ledger.tag ev).seq < s.ledger.seq
 taken : ∀ q, ∀ x ∈ s.ledger.taken q, x.seq < s.ledger.seq

/-- A step of `t` that takes events from and to the application, its hands, the list of `q` and the
line in front of `p`. -/
lemma exclusive_of_step {s s' : State m n} (h : Exclusive (eventAt s)) (t : Fin n) (p q : Fin m)
 (hlist : ∀ r, r ≠ q → (s'.queue r).events = (s.queue r).events)
 (hreorder : ∀ r, r ≠ p → (s'.queue r).reorder = (s.queue r).reorder)
 (hpc : ∀ u, u ≠ t → s'.pc u = s.pc u)
 (hsum : ∀ ev, eventAt s' .application ev+(s'.queue q).events.count ev +
  (eventsOf (s'.queue p).reorder).count ev+(s'.pc t).events.count ev ≤
  eventAt s .application ev+(s.queue q).events.count ev +
   (eventsOf (s.queue p).reorder).count ev+(s.pc t).events.count ev) : Exclusive (eventAt s') := by
 refine h.regroup (S := [.application,.list q,.reorder p,.hand t]) (by simp)
  (fun place hplace ev => ?_) fun ev => ?_
 · simp only [mem_cons,not_mem_nil,or_false,not_or] at hplace
   obtain ⟨happ,hq,hp,ht⟩ := hplace
   cases place with
   | application => exact absurd rfl happ
   | list r =>
    have hr : r ≠ q := fun heq => hq (by rw [heq])
    rw [eventAt,eventAt,hlist r hr]
   | reorder r =>
    have hr : r ≠ p := fun heq => hp (by rw [heq])
    rw [eventAt,eventAt,hreorder r hr]
   | hand u =>
    have hu : u ≠ t := fun heq => ht (by rw [heq])
    rw [eventAt,eventAt,hpc u hu]
 · have hev := hsum ev
   simp only [map_cons,map_nil,sum_cons]
   simp only [eventAt] at hev ⊢
   omega

namespace Booked

variable {s s' : State m n} {t : Fin n} {p q : Fin m} {evs : List Event}

lemma notMem_of_owned (h : Booked s) (howned : ∀ ev ∈ evs, s.ledger.owned ev = true)
 (place : Place m n)
 {ev : Event} (hplace : place ≠ .application) (hev : eventAt s place ev ≠ 0) : ev ∉ evs := by
 intro hmem
 have happ : eventAt s .application ev ≠ 0 := by
  rw [eventAt,if_pos (howned ev hmem)]
  exact one_ne_zero
 exact hev (h.exclusive.eq_zero happ hplace)

lemma owned_eq_false (h : Booked s) (place : Place m n) {ev : Event} (hplace : place ≠ .application)
 (hev : eventAt s place ev ≠ 0) : s.ledger.owned ev = false := by
 cases howned : s.ledger.owned ev with
 | false => rfl
 | true =>
  refine absurd (mem_singleton_self ev) (h.notMem_of_owned (fun x hx => ?_) place hplace hev)
  rw [mem_singleton.mp hx]
  exact howned

lemma seq_of_arrived (h : Booked s) {x : Tag m} (hx : x ∈ arrived s q) : x.seq < s.ledger.seq := by
 obtain hx | hx := mem_append.mp hx
 · exact h.taken q x hx
 · obtain ⟨ev,hev,rfl⟩ := mem_map.mp hx
   exact h.known ev (h.owned_eq_false (.list q) nofun (count_pos_iff.mpr hev).ne')

lemma seq_of_line (h : Booked s) {u : Fin n} {x : Entry m} {ev : Event} (hx : x ∈ lineOf s u p)
 (hev : ev ∈ x.events) : (s.ledger.tag ev).seq < s.ledger.seq := by
 obtain ⟨place,hplace,hne⟩ := eventAt_of_line hx hev
 exact h.known ev (h.owned_eq_false place hplace hne)

variable {src : Option (Fin m)}

lemma tag_record {ev : Event} (hev : ev ∉ evs) :
 (s.record t q src evs).ledger.tag ev = s.ledger.tag ev := if_neg hev

lemma tag_record_of_mem {ev : Event} (hev : ev ∈ evs) : (s.record t q src evs).ledger.tag ev =
 ⟨(s.schedLocal t).originQe,(s.schedLocal t).order,s.ledger.seq+evs.idxOf ev⟩ := if_pos hev

lemma pairwise_record (src : Option (Fin m)) (hnodup : evs.Nodup) :
 evs.Pairwise fun a b => ((s.record t q src evs).ledger.tag a).Before
  ((s.record t q src evs).ledger.tag b) := by
 refine pairwise_iff_getElem.mpr fun i j hi hj hij => .inr ?_
 rw [tag_record_of_mem (getElem_mem hi),tag_record_of_mem (getElem_mem hj),
  hnodup.idxOf_getElem i hi,hnodup.idxOf_getElem j hj]
 exact ⟨rfl,Nat.add_lt_add_left hij _⟩

lemma arrived_record (h : Booked s) (src : Option (Fin m))
 (howned : ∀ ev ∈ evs, s.ledger.owned ev = true) (r : Fin m) :
 arrived (s.record t q src evs) r = arrived s r := by
 rw [arrived]
 congr 1
 refine map_congr_left fun ev hev => tag_record ?_
 exact h.notMem_of_owned howned (.list r) nofun (count_pos_iff.mpr hev).ne'

lemma record (h : Booked s) (hseq : InSequence s) (src : Option (Fin m))
 (howned : ∀ ev ∈ evs, s.ledger.owned ev = true) : InSequence (s.record t q src evs) := by
 have htag : ∀ u r, ∀ x ∈ lineOf s u r, ∀ ev ∈ x.events,
  (s.record t q src evs).ledger.tag ev = s.ledger.tag ev := by
  intro u r x hx ev hev
  obtain ⟨place,hplace,hne⟩ := eventAt_of_line hx hev
  exact tag_record (h.notMem_of_owned howned place hplace hne)
 refine ⟨fun r => ?_,fun u r => ?_,fun u r q' => ?_⟩
 · rw [h.arrived_record src howned]
   exact hseq.restored r
 · exact (hseq.ranked u r).congr (htag u r)
 · rw [h.arrived_record src howned]
   exact (hseq.passed u r q').congr (htag u r)

lemma of_record (h : Booked s) (hledger : s'.ledger = (s.record t q src evs).ledger)
 (hexclusive : Exclusive (eventAt s')) : Booked s' := by
 have hseq : s'.ledger.seq = s.ledger.seq+evs.length := by
  rw [hledger]
  rfl
 refine ⟨hexclusive,fun ev hev => ?_,fun r x hx => ?_⟩
 · rw [hledger] at hev
   rw [hledger]
   by_cases hmem : ev ∈ evs
   · rw [tag_record_of_mem hmem]
     exact Nat.add_lt_add_left (idxOf_lt_length_of_mem hmem) _
   · rw [tag_record hmem]
     have hev : (if ev ∈ evs then false else s.ledger.owned ev) = false := hev
     rw [if_neg hmem] at hev
     exact lt_of_lt_of_le (h.known ev hev) (Nat.le_add_right ..)
 · rw [hledger] at hx
   rw [hseq]
   exact lt_of_lt_of_le (h.taken r x hx) (Nat.le_add_right ..)

lemma of_ledger (h : Booked s) (hledger : s'.ledger = s.ledger)
 (hexclusive : Exclusive (eventAt s')) : Booked s' := by
 refine ⟨hexclusive,fun ev hev => ?_,fun r x hx => ?_⟩
 · rw [hledger] at hev ⊢
   exact h.known ev hev
 · rw [hledger] at hx ⊢
   exact h.taken r x hx

end Booked

-- Serving an element

namespace Served

variable {s s' s0 : State m n} {t : Fin n} {target p : Fin m} {e : Entry m}
 {moved rest : List (Entry m)} {ret : Option (Entry m)} {aim : Fin m → Nat → Fin m → Prop}

section

variable (d : Served s s' t target p e moved rest ret)

include d

lemma count (ev : Event) :
 (eventsOf moved).count ev+(eventsOf rest).count ev+(eventsOf ret.toList).count ev ≤
  (e.buf::e.link).count ev+(eventsOf (s.queue p).reorder).count ev := by
 obtain ⟨b,hsub⟩ := d.sublist
 have hle := (eventsOf_sublist hsub).count_le ev
 rw [count_sorted,eventsOf_append,eventsOf_append,count_append,count_append] at hle
 omega

lemma exclusive (h : Exclusive (eventAt s0)) (hqueue : s0.queue = s.queue) (hpc : s0.pc = s.pc)
 (hfrom : ∀ ev, eventAt s0 .application ev+(s0.pc t).events.count ev =
  eventAt s .application ev+(e.buf::e.link).count ev) : Exclusive (eventAt s') := by
 obtain ⟨out,hc⟩ := d.change
 refine exclusive_of_step h t p target (fun r hr => ?_) (fun r hr => ?_)
  (fun u hu => ?_) fun ev => ?_
 · rw [hc.events,if_neg hr,append_nil,hqueue]
 · rw [hc.reorder_ne r hr,hqueue]
 · rw [d.pc_ne u hu,hpc]
 · have hcount := d.count ev
   have hev := hfrom ev
   have happ : eventAt s' .application ev = eventAt s .application ev := by
    rw [eventAt,eventAt,hc.ledger]
   rw [hc.events,if_pos rfl,count_append,hc.reorder,d.pc,events_handOn,hqueue]
   omega

lemma sequence_late (hseq : InSequence s)
 (hlined : Lined aim s) (hpc : s.pc t = .idle) (hlate : (s.queue p).orderOut < e.order)
 (htagged : ∀ ev ∈ e.buf::e.link, (s.ledger.tag ev).origin = some p ∧
  (s.ledger.tag ev).order = e.order)
 (hinside : (e.buf::e.link).Pairwise fun a b => (s.ledger.tag a).Before (s.ledger.tag b))
 (hlast : ∀ ev ∈ e.buf::e.link, (∀ q, ∀ x ∈ arrived s q, x.seq < (s.ledger.tag ev).seq) ∧
  ∀ u, ∀ x ∈ lineOf s u p, ∀ v ∈ x.events, (s.ledger.tag v).seq < (s.ledger.tag ev).seq) :
 InSequence s' := by
 obtain ⟨out,hc⟩ := d.change
 obtain ⟨rfl,rfl,rfl,hout⟩ := d.late hlate
 have hout : (s.queue p).orderOut = out := hout.symm.trans hc.orderOut
 have hline : ∀ u, lineOf s' u p = reorderEnq { e with target := some target } (lineOf s u p) := by
  intro u
  rw [← hlined.line_reorderEnq u (e := { e with target := some target }) (le_of_lt hlate),
   lineOf,hc.reorder]
  by_cases hu : u = t
  · rw [hu,d.pc,hpc]
    rfl
  · rw [d.pc_ne u hu]
 refine hseq.of_line t hc d.pc_ne (fun r _ => ?_) (fun u => ?_) fun u q => ?_
 · rw [d.pc,hpc]
   rfl
 · rw [hline]
   exact (hseq.ranked u p).reorderEnq (hlined.sorted_line u p) htagged hinside
    fun x hx v hv ev hev => (hlast ev hev).2 u x hx v hv
 · rw [hline,← hout]
   exact (hseq.passed u p q).reorderEnq htagged (le_of_lt hlate) fun x hx ev hev =>
    (hlast ev hev).1 q x hx

lemma sequence_due (hseq : InSequence s)
 (hfree : ∀ u, u ≠ t → ∀ e k, s.pc u ≠ .moving p e k)
 (hown : ∀ r, r ≠ p → (s.pc t).entriesAt r = []) (hranked : ∀ b, Ranked s.ledger.tag p
  (reorderEnq { e with target := some target, sustain := b } (s.queue p).reorder))
 (hpassed : ∀ b q, Passed s.ledger.tag p (s.queue p).orderOut (arrived s q)
  (reorderEnq { e with target := some target, sustain := b } (s.queue p).reorder)) : InSequence
  s' := by
 obtain ⟨out,hc⟩ := d.change
 obtain ⟨b,hsub⟩ := d.sublist
 refine hseq.deliver moved hc d.pc d.pc_ne hfree hown (hranked b) (hpassed b) hsub fun x hx => ?_
 rw [← hc.orderOut]
 exact d.due x hx

end

end Served

structure Restoring (s : State m n) : Prop where
 accounted : Accounted s
 lined : Lined (fun _ _ _ => True) s
 resolves : ∀ t, (s.pc t).resolves = true
 booked : Booked s
 sequence : InSequence s

namespace Restoring

variable {s s' : State m n} {t : Fin n} {p q : Fin m}

section

variable (h : Restoring s)

include h

lemma enq_ordered (hpc : s.pc t = .idle) (horigin : (s.schedLocal t).originQe = some p)
 {ev : Event} {link : List Event} (hnodup : (ev::link).Nodup)
 (howned : ∀ x ∈ ev::link, s.ledger.owned x = true)
 (hstep : (s.record t q (some p) (ev::link)).orderedQueueEnq t q p
  ⟨(s.schedLocal t).order,some q,true,ev,link⟩ = some s') : Booked s' ∧ InSequence s' := by
 obtain ⟨moved,rest,ret,d⟩ := orderedQueueEnq_served hstep
 obtain ⟨out,hc⟩ := d.change
 have hseq := h.booked.record (t := t) (q := q) h.sequence (some p) howned
 have hlined0 : Lined (fun _ _ _ => True) (s.record t q (some p) (ev::link)) :=
  h.lined.congr rfl rfl fun _ => ⟨rfl,rfl⟩
 have htagged : ∀ x ∈ ev::link,
  ((s.record t q (some p) (ev::link)).ledger.tag x).origin = some p ∧
  ((s.record t q (some p) (ev::link)).ledger.tag x).order = (s.schedLocal t).order := by
  intro x hx
  rw [Booked.tag_record_of_mem hx]
  exact ⟨horigin,rfl⟩
 have hinside := Booked.pairwise_record (s := s) (t := t) (q := q) (some p) hnodup
 -- the new events come after all others
 have hseqs : ∀ x ∈ ev::link, s.ledger.seq ≤
  ((s.record t q (some p) (ev::link)).ledger.tag x).seq := by
  intro x hx
  rw [Booked.tag_record_of_mem hx]
  exact Nat.le_add_right ..
 have hpast : ∀ x ∈ ev::link, ∀ r, ∀ y ∈ arrived (s.record t q (some p) (ev::link)) r,
  y.seq < ((s.record t q (some p) (ev::link)).ledger.tag x).seq := by
  intro x hx r y hy
  rw [h.booked.arrived_record (some p) howned] at hy
  exact lt_of_lt_of_le (h.booked.seq_of_arrived hy) (hseqs x hx)
 have hwait : ∀ x ∈ ev::link, ∀ u, ∀ y ∈ lineOf (s.record t q (some p) (ev::link)) u p,
  ∀ v ∈ y.events, ((s.record t q (some p) (ev::link)).ledger.tag v).seq <
   ((s.record t q (some p) (ev::link)).ledger.tag x).seq := by
  intro x hx u y hy v hv
  have hy : y ∈ lineOf s u p := hy
  obtain ⟨place,hplace,hne⟩ := eventAt_of_line hy hv
  rw [Booked.tag_record (h.booked.notMem_of_owned howned place hplace hne)]
  exact lt_of_lt_of_le (h.booked.seq_of_line hy hv) (hseqs x hx)
 refine ⟨h.booked.of_record hc.ledger (d.exclusive h.booked.exclusive rfl rfl fun x => ?_),?_⟩
 · rw [hpc]
   exact Conserving.application_record (some p) hnodup howned x
 · by_cases hlate : (s.queue p).orderOut < (s.schedLocal t).order
   · exact d.sequence_late hseq hlined0 hpc hlate htagged hinside fun x hx =>
      ⟨hpast x hx,hwait x hx⟩
   · have hle := h.accounted.orderOut_le_context horigin
     have heq : (s.schedLocal t).order = (s.queue p).orderOut :=
      le_antisymm (Nat.le_of_not_lt hlate) hle
     have hline : lineOf (s.record t q (some p) (ev::link)) t p = (s.queue p).reorder :=
      lineOf_of_idle hpc p
     refine d.sequence_due hseq (fun u _ e k hu => ?_) (fun r _ => ?_) (fun b => ?_) fun b r => ?_
     · exact h.accounted.order_ne_of_hand horigin hu (h.lined.hand u p e k hu).1 heq
     · have hidle : (s.record t q (some p) (ev::link)).pc t = .idle := hpc
       rw [hidle]
       rfl
     · have hranked := hseq.ranked t p
       have hsorted := hlined0.sorted_line t p
       have hlast := fun x hx => hwait x hx t
       rw [hline] at hranked hsorted hlast
       exact hranked.reorderEnq hsorted htagged hinside fun y hy v hv x hx => hlast x hx y hy v hv
     · have hpassed := hseq.passed t p r
       rw [hline] at hpassed
       exact hpassed.reorderEnq htagged hle fun y hy x hx => hpast x hx r y hy

variable {evs : List Event}

lemma enq_unordered (hnone : (s.schedLocal t).originQe = none)
 (hnodup : evs.Nodup) (howned : ∀ x ∈ evs, s.ledger.owned x = true) :
 Booked ((s.record t q none evs).modify q fun e => (e.add evs).wake) ∧
  InSequence ((s.record t q none evs).modify q fun e => (e.add evs).wake) := by
 generalize hs' : (s.record t q none evs).modify q (fun e => (e.add evs).wake) = s'
 have hledger : s'.ledger = (s.record t q none evs).ledger := by rw [← hs']; rfl
 have hpc : s'.pc = s.pc := by rw [← hs']; rfl
 have hseq := h.booked.record (t := t) (q := q) h.sequence none howned
 obtain ⟨hevents,hreorder,hout,-⟩ := ((s.queue q).add evs).wake_fields
 have hqueue : ∀ r, (s'.queue r).reorder = (s.queue r).reorder ∧
  (s'.queue r).orderOut = (s.queue r).orderOut ∧
  (s'.queue r).events = (s.queue r).events++if r = q then evs else [] := by
  intro r
  by_cases hr : r = q
  · subst hr
    rw [← hs',queue_modify,if_pos rfl]
    exact ⟨hreorder,hout,hevents⟩
  · rw [← hs',queue_modify_of_ne _ _ hr,if_neg hr,append_nil]
    exact ⟨rfl,rfl,rfl⟩
 have harrived : ∀ r, arrived s' r = arrived (s.record t q none evs) r ++
  if r = q then evs.map (s.record t q none evs).ledger.tag else [] := by
  intro r
  rw [arrived,(hqueue r).2.2,hledger,map_append,← append_assoc]
  split <;> rfl
 have horigin : ∀ x ∈ evs.map (s.record t q none evs).ledger.tag, x.origin = none := by
  intro x hx
  obtain ⟨ev,hev,rfl⟩ := mem_map.mp hx
  rw [Booked.tag_record_of_mem hev]
  exact hnone
 have hline : ∀ u r, lineOf s' u r = lineOf (s.record t q none evs) u r := by
  intro u r
  rw [lineOf,(hqueue r).1,hpc]
  rfl
 refine ⟨h.booked.of_record hledger ?_,⟨fun r => ?_,fun u r => ?_,fun u r r' => ?_⟩⟩
 · refine exclusive_of_step h.booked.exclusive t q q (fun r hr => ?_) (fun r _ => (hqueue r).1)
    (fun u _ => congrFun hpc u) fun ev => ?_
   · rw [(hqueue r).2.2,if_neg hr,append_nil]
   · have happ := Conserving.application_record (t := t) (q := q) none hnodup howned ev
     rw [(hqueue q).2.2,(hqueue q).1,if_pos rfl,count_append]
     have hown : eventAt s' .application ev = eventAt (s.record t q none evs) .application ev := by
      rw [← hs']; rfl
     rw [hpc]
     omega
 · rw [harrived]
   split
   · refine pairwise_append.mpr ⟨hseq.restored r,?_,fun x _ y hy heq hne => ?_⟩
     · refine pairwise_map.mpr (Pairwise.imp_of_mem (fun {x y} hx _ _ _ hne => ?_)
        (Booked.pairwise_record (s := s) (t := t) (q := q) none hnodup))
       exact absurd (horigin _ (mem_map_of_mem hx)) hne
     · rw [heq] at hne
       exact absurd (horigin y hy) hne
   · rw [append_nil]
     exact hseq.restored r
 · rw [hline,hledger]
   exact hseq.ranked u r
 · rw [hline,harrived,hledger,(hqueue r).2.1]
   refine (hseq.passed u r r').append fun x hx => ?_
   split at hx
   · rw [horigin x hx]
     nofun
   · cases hx

lemma enqMoving {e : Entry m} {k : Bool} (hpc : s.pc t = .moving p e k)
 (hstep : s.enqMoving t p e k = some s') : Booked s' ∧ InSequence s' := by
 obtain ⟨hhand,-⟩ := h.lined.hand t p e k hpc
 have hs : e.sustain = false := by
  have hresolves := h.resolves t
  rw [hpc] at hresolves
  simpa [Pc.resolves] using hresolves
 obtain ⟨target,htarget,hstep⟩ := Option.bind_eq_some_iff.mp hstep
 rw [if_neg (by simp [h.lined.live])] at hstep
 obtain ⟨moved,rest,ret,d⟩ := orderedQueueEnq_served hstep
 obtain ⟨out,hc⟩ := d.change
 have hline : lineOf s t p = []++e::(s.queue p).reorder := by
  rw [lineOf,hpc,Pc.entriesAt,if_pos rfl]
  rfl
 have hsorted : ∀ b, reorderEnq { e with target := some target, sustain := b } (s.queue p).reorder =
  []++{ e with target := some target, sustain := b }::(s.queue p).reorder := by
  intro b
  refine reorderEnq_eq_cons fun x hx => ?_
  rw [hhand.order]
  exact (hhand.line.next (le_of_eq hhand.order) hs).due x hx
 have hevents : e.events = e.buf::e.link := events_of_target htarget
 have hsame :
  ∀ b, (Entry.events { e with target := some target, sustain := b }).Sublist e.events := by
  intro b
  rw [hevents]
  exact .refl _
 refine ⟨h.booked.of_ledger hc.ledger (d.exclusive h.booked.exclusive rfl rfl fun ev => ?_),
  d.sequence_due h.sequence (fun u hu e' k' he => ?_) (fun r hr => ?_) (fun b => ?_) fun b q => ?_⟩
 · rw [hpc,Pc.events,hevents]
 · exact hu (h.lined.unique u t p e' k' e k he hpc)
 · rw [hpc]
   exact if_neg (Ne.symm hr)
 · have hranked := h.sequence.ranked t p
   rw [hline] at hranked
   rw [hsorted]
   exact Ranked.shrink [] hranked rfl (hsame b)
 · have hpassed := h.sequence.passed t p q
   rw [hline] at hpassed
   rw [hsorted]
   exact Passed.shrink [] hpassed (hsame b)

lemma booked_of_line {l : List (Entry m)} {out : Nat} (t : Fin n)
 (hc : Change s s' p p [] l out) (hne : ∀ u, u ≠ t → s'.pc u = s.pc u)
 (hcount : ∀ ev, (s'.pc t).events.count ev+(eventsOf l).count ev ≤
  (s.pc t).events.count ev+(eventsOf (s.queue p).reorder).count ev) : Booked s' := by
 have hevents : ∀ r, (s'.queue r).events = (s.queue r).events := by
  intro r
  rw [hc.events]
  split <;> rw [append_nil]
 refine h.booked.of_ledger hc.ledger (exclusive_of_step h.booked.exclusive t p p
  (fun r _ => hevents r) hc.reorder_ne hne fun ev => ?_)
 have happ : eventAt s' .application ev = eventAt s .application ev := by
  rw [eventAt,eventAt,hc.ledger]
 have hev := hcount ev
 rw [hevents,hc.reorder]
 omega

section

variable (hpc : s.pc t = .idle)

include hpc

lemma release_resolve (hfree : ∀ u, u ≠ t → ∀ e k, s.pc u ≠ .moving p e k) {s1 : State m n}
 (hpc1 : s1.pc = s.pc) (hc1 : Change s s1 p p [] (s.queue p).reorder ((s.queue p).orderOut+1)) :
 Booked (s1.complete t p) ∧ InSequence (s1.complete t p) := by
 have hc := hc1.trans (complete_change s1 t p p)
 have hne : ∀ u, u ≠ t → (s1.complete t p).pc u = s.pc u := by
  intro u hu
  rw [complete_pc_ne s1 t p hu,hpc1]
 have hsub : ((s1.queue p).reorderComplete.2.toList++(s1.queue p).reorderComplete.1.reorder).Sublist
  (s.queue p).reorder := by
  have hloop := (s1.queue p).completeLoop_sublist [] (s1.queue p).reorder
  rw [nil_append] at hloop
  exact hloop.trans (by rw [hc1.reorder])
 have hline : lineOf s t p = (s.queue p).reorder := lineOf_of_idle hpc p
 refine ⟨h.booked_of_line t hc hne fun ev => ?_,?_⟩
 · have hle := (eventsOf_sublist hsub).count_le ev
   rw [eventsOf_append,count_append] at hle
   rw [complete_pc,events_handOn]
   omega
 · refine h.sequence.deliver [] hc (complete_pc s1 t p) hne hfree (fun r _ => ?_)
    (hline ▸ h.sequence.ranked t p) (fun q => hline ▸ h.sequence.passed t p q) hsub nofun
   rw [hpc]
   rfl

/-- The first element of the released order is taken in hand, and the others of it go missing. -/
lemma release_first (hfree : ∀ u, u ≠ t → ∀ e k, s.pc u ≠ .moving p e k) {a : Entry m}
 {as : List (Entry m)} (hreorder : (s.queue p).reorder = a::as) {o : Nat} {keep : Bool}
 (h' : Aside s s' t p (.moving p { a with sustain := false, link := [] } keep)
  (as.dropWhile (·.order == o))) :
 Booked s' ∧ InSequence s' := by
 have hsub : (as.dropWhile (·.order == o)).Sublist as := dropWhile_sublist _
 have hevents : (Entry.events { a with sustain := false, link := [] }).Sublist a.events := by
  rw [Entry.events,Entry.events]
  cases a.target with
  | none => exact .refl _
  | some q => exact Sublist.cons_cons _ (nil_sublist _)
 have hold : lineOf s t p = []++a::as := (lineOf_of_idle hpc p).trans hreorder
 -- the lines afterwards are parts of the line with the shortened element
 have hline : ∀ u, (lineOf s' u p).Sublist ([]++{ a with sustain := false, link := [] }::as) := by
  intro u
  rw [lineOf,h'.change.reorder]
  by_cases hu : u = t
  · rw [hu,h'.pc_self,Pc.entriesAt,if_pos rfl]
    exact Sublist.cons_cons _ hsub
  · rw [h'.pc_ne hu,Pc.entriesAt_eq_nil (hfree u hu)]
    exact hsub.cons _
 have hranked := h.sequence.ranked t p
 rw [hold] at hranked
 refine ⟨h.booked_of_line t h'.change (fun u => h'.pc_ne) fun ev => ?_,
  h.sequence.of_line t h'.change (fun u => h'.pc_ne) (fun r hr => ?_) (fun u => ?_) fun u q => ?_⟩
 · have hle := hevents.count_le ev
   have hle' := (eventsOf_sublist hsub).count_le ev
   rw [h'.pc_self,Pc.events,hreorder,eventsOf_cons,count_append]
   omega
 · rw [h'.pc_self,hpc]
   exact if_neg (Ne.symm hr)
 · have hshrunk :=
    Ranked.shrink (e := { a with sustain := false, link := [] }) [] hranked rfl hevents
   exact hshrunk.sublist (hline u)
 · have hpassed := h.sequence.passed t p q
   rw [hold] at hpassed
   exact (Passed.shrink [] hpassed hevents).mono (fun x hx => (hline u).subset hx) (le_refl _)

lemma release_marked {list : List (Entry m)} (h' : Aside s s' t p .idle list)
 (hcount : ∀ ev, (eventsOf list).count ev ≤ (eventsOf (s.queue p).reorder).count ev)
 (hranked : ∀ u, Ranked s.ledger.tag p ((s.pc u).entriesAt p++list))
 (hpassed : ∀ u q, Passed s.ledger.tag p (s.queue p).orderOut (arrived s q)
  ((s.pc u).entriesAt p++list)) :
 Booked s' ∧ InSequence s' := by
 have hsame : s'.pc = s.pc := by rw [h'.pc,← hpc,update_eq_self]
 have hline : ∀ u, lineOf s' u p = (s.pc u).entriesAt p++list := by
  intro u
  rw [lineOf,h'.change.reorder,hsame]
 refine ⟨h.booked_of_line t h'.change (fun u => h'.pc_ne) fun ev => ?_,
  h.sequence.of_line t h'.change (fun u => h'.pc_ne) (fun _ _ => by rw [hsame])
  (fun u => ?_) fun u q => ?_⟩
 · rw [hsame]
   exact Nat.add_le_add_left (hcount ev) _
 · rw [hline]
   exact hranked u
 · rw [hline]
   exact hpassed u q

lemma release (keep alloc : Bool) :
 Booked (s.release t keep alloc) ∧ InSequence (s.release t keep alloc) := by
 cases horigin : (s.schedLocal t).originQe with
 | none =>
  simp only [State.release,horigin]
  exact ⟨h.booked,h.sequence⟩
 | some p =>
  have hle := h.accounted.orderOut_le_context horigin
  have hfree : (s.schedLocal t).order ≤ (s.queue p).orderOut →
   ∀ u, u ≠ t → ∀ e k, s.pc u ≠ .moving p e k :=
   fun hin u _ e k hu => h.accounted.order_ne_of_hand horigin hu (h.lined.hand u p e k hu).1
    (le_antisymm hin hle)
  cases release_cases hpc keep alloc horigin with
  | kept _ _ h' =>
   rw [h']
   exact ⟨h.booked,h.sequence⟩
  | dropped _ _ h' =>
   exact h.release_marked hpc h' (fun _ => le_refl _) (h.sequence.ranked · p)
    (h.sequence.passed · p)
  | resolved s1 hin _ _ hpc1 hc h' =>
   rw [h']
   exact h.release_resolve hpc (hfree hin) hpc1 hc
  | first a as hin hreorder _ h' => exact h.release_first hpc (hfree hin) hreorder h'
  | marked pre a post _ hold _ _ h' =>
   refine h.release_marked hpc h' (fun ev => ?_) (fun u => ?_) fun u q => ?_
   · rw [hold,eventsOf_append,eventsOf_append]
     exact le_refl _
   · have hranked := h.sequence.ranked u p
     rw [lineOf,hold,← append_assoc] at hranked
     rw [← append_assoc]
     exact Ranked.shrink _ hranked rfl (.refl _)
   · have hpassed := h.sequence.passed u p q
     rw [lineOf,hold,← append_assoc] at hpassed
     rw [← append_assoc]
     exact Passed.shrink _ hpassed (.refl _)
  | placed _ h' =>
   have hline := fun u => h.lined.line_reorderEnq u (e := .placeholder (s.schedLocal t).order) hle
   refine h.release_marked hpc h' (fun ev => ?_) (fun u => ?_) fun u q => ?_
   · rw [(eventsOf_perm (reorderEnq_perm _ _)).count_eq]
     exact le_refl _
   · have hranked := (h.sequence.ranked u p).reorderEnq (e := .placeholder (s.schedLocal t).order)
      (h.lined.sorted_line u p) (by simp) .nil (by simp)
     rw [← hline u] at hranked
     exact hranked
   · have hpassed := (h.sequence.passed u p q).reorderEnq (e := .placeholder (s.schedLocal t).order)
      (by simp) hle (by simp)
     rw [← hline u] at hpassed
     exact hpassed

lemma enq (hown : InContext s t evs)
 (hnodup : evs.Nodup) (howned : ∀ ev ∈ evs, s.ledger.owned ev = true)
 (hstep : s.enq t q evs = some s') :
 Booked s' ∧ InSequence s' := by
 obtain rfl | ⟨horigin,rfl⟩ | ⟨p,ev,link,horigin,rfl,hstep⟩ := hown.enq hstep
 · exact ⟨h.booked,h.sequence⟩
 · exact h.enq_unordered horigin hnodup howned
 · exact h.enq_ordered hpc horigin hnodup howned hstep

end

lemma take_event {ev : Event} (t : Fin n)
 (hevents : (s.queue q).events = ev::evs) (hpc : s'.pc = s.pc)
 (hledger : s'.ledger = (s.recordTake q ev).ledger) (hq : (s'.queue q).events = evs)
 (hne : ∀ r, r ≠ q → (s'.queue r).events = (s.queue r).events)
 (hline : ∀ r, (s'.queue r).reorder = (s.queue r).reorder ∧
  (s'.queue r).orderOut = (s.queue r).orderOut) : Booked s' ∧ InSequence s' := by
 have hfirst : eventAt s (.list q) ev ≠ 0 := by
  rw [eventAt,hevents,count_cons_self]
  exact succ_ne_zero _
 have hnot : s.ledger.owned ev = false := h.booked.owned_eq_false (.list q) nofun hfirst
 refine ⟨⟨?_,fun ev' hev => ?_,fun r x hx => ?_⟩,h.sequence.of_same (fun r => ?_) ?_ hpc hline⟩
 · refine exclusive_of_step h.booked.exclusive t q q hne (fun r _ => (hline r).1)
    (fun u _ => congrFun hpc u) fun ev' => ?_
   have happ : eventAt s' .application ev' = eventAt s .application ev'+[ev].count ev' := by
    rw [eventAt,eventAt,hledger]
    by_cases hev : ev' = ev
    · subst hev
      simp [hnot]
    · simp [hev,Ne.symm hev]
   rw [happ,hq,hevents,(hline q).1,hpc,count_cons,count_cons,count_nil]
   omega
 · rw [hledger] at hev ⊢
   refine h.booked.known ev' ?_
   by_cases heq : ev' = ev
   · rw [heq]
     exact hnot
   · rw [← update_of_ne heq true s.ledger.owned]
     exact hev
 · rw [hledger] at hx ⊢
   by_cases hr : r = q
   · subst hr
     have hx : x ∈ s.ledger.taken r++[s.ledger.tag ev] := by
      rw [← update_self r (s.ledger.taken r++[s.ledger.tag ev]) s.ledger.taken]
      exact hx
     obtain hx | hx := mem_append.mp hx
     · exact h.booked.taken r x hx
     · rw [mem_singleton.mp hx]
       exact h.booked.known ev hnot
   · refine h.booked.taken r x ?_
     rw [← update_of_ne hr (s.ledger.taken q++[s.ledger.tag ev]) s.ledger.taken]
     exact hx
 · rw [arrived,arrived,hledger]
   by_cases hr : r = q
   · subst hr
     rw [hq,hevents]
     simp
   · rw [hne r hr]
     simp [hr]
 · rw [hledger]
   rfl

lemma of_fields (hpc : s'.pc = s.pc) (hledger : s'.ledger = s.ledger)
 (hq : ∀ r, (s'.queue r).events = (s.queue r).events ∧ (s'.queue r).reorder = (s.queue r).reorder ∧
  (s'.queue r).orderOut = (s.queue r).orderOut) : Booked s' ∧ InSequence s' := by
 refine ⟨h.booked.of_ledger hledger ?_,h.sequence.of_same (fun r => ?_) (by rw [hledger]) hpc
  fun r => (hq r).2⟩
 · have hsame : eventAt s' = eventAt s := by
    funext place ev
    cases place with
    | application => rw [eventAt,eventAt,hledger]
    | list r => rw [eventAt,eventAt,(hq r).1]
    | reorder r => rw [eventAt,eventAt,(hq r).2.1]
    | hand u => rw [eventAt,eventAt,hpc]
   rw [hsame]
   exact h.booked.exclusive
 · rw [arrived,arrived,hledger,(hq r).1]

lemma take (t : Fin n) (q : Fin m) : Booked (s.take t q) ∧ InSequence (s.take t q) := by
 simp only [State.take,h.lined.live,Bool.false_eq_true,if_false]
 cases hevents : (s.queue q).events with
 | nil =>
  obtain ⟨hsleep,hreorder,-⟩ := (s.queue q).sleep_fields
  have hout : (s.queue q).sleep.orderOut = (s.queue q).orderOut := by
   unfold QueueEntry.sleep
   split <;> rfl
  refine h.of_fields rfl rfl fun r => ?_
  by_cases hr : r = q
  · subst hr
    rw [State.queue_modify]
    exact ⟨hsleep,hreorder,hout⟩
  · rw [queue_modify_of_ne _ _ hr]
    exact ⟨rfl,rfl,rfl⟩
 | cons ev evs =>
  simp only
  split
  all_goals
   refine h.take_event t hevents rfl rfl ?_ (fun r hr => ?_) fun r => ?_
   · simp
   · simp [hr]
   · by_cases hr : r = q
     · subst hr
       simp
     · simp [hr]

lemma orderLock {k : Nat} (hstep : s.orderLock t k = some s') : Booked s' ∧ InSequence s' := by
 simp only [State.orderLock] at hstep
 split at hstep
 · exact Option.some.inj hstep ▸ ⟨h.booked,h.sequence⟩
 · split_ifs at hstep
   · exact Option.some.inj hstep ▸ ⟨h.booked,h.sequence⟩
   · exact Option.some.inj hstep ▸ h.of_fields rfl rfl fun _ => ⟨rfl,rfl,rfl⟩

lemma orderUnlock (t : Fin n) (k : Nat) :
 Booked (s.orderUnlock t k) ∧ InSequence (s.orderUnlock t k) := by
 simp only [State.orderUnlock]
 split
 · exact ⟨h.booked,h.sequence⟩
 · next p hp =>
   split_ifs
   · exact ⟨h.booked,h.sequence⟩
   · refine h.of_fields rfl rfl fun r => ?_
     by_cases hr : r = p
     · subst hr
       simp
     · simp [hr]

lemma step {a : Action m n} (hown : OwnEvents s a) (hhands : handsResolved s a = true)
 (hstep : OrderedQueue.step s a = some s') : Restoring s' := by
 have hkeeps : a.keepsQueues = true := by
  cases a <;> first | rfl | exact hown.elim
 have hresolves : ∀ u, (s'.pc u).resolves = true := by
  intro u
  by_cases hu : u = a.thread
  · exact hu ▸ step_resolves hown hhands hstep
  · rw [(Accounted.effect h.accounted hstep).pc_ne hu]
    exact h.resolves u
 have hlined : Lined (fun _ _ _ => True) s' := by
  refine h.lined.step h.accounted hkeeps (fun t q evs ha => ?_) (fun t p e k _ hpc hs => ?_) hstep
  · subst ha
    exact ⟨hown.1,fun _ _ => trivial⟩
  · have hidle := h.resolves t
    rw [hpc,Pc.resolves,hs] at hidle
    cases hidle
 suffices hboth : Booked s' ∧ InSequence s' from
  ⟨h.accounted.step hstep,hlined,hresolves,hboth.1,hboth.2⟩
 obtain ⟨t,p,e,k,rfl,hpc,hstep⟩ | ⟨hpc,hstep⟩ := step_cases hstep
 · exact h.enqMoving hpc hstep
 · cases a with
   | enq t q evs =>
    obtain ⟨hcontext,hnodup,howned⟩ := hown
    exact h.enq hpc (inContext_take hcontext _) (hnodup.sublist (take_sublist ..))
     (fun ev hev => howned ev (mem_of_mem_take hev)) hstep
   | take t q =>
    simp only [call] at hstep
    split_ifs at hstep
    exact Option.some.inj hstep ▸ h.take t q
   | release t keep alloc => exact Option.some.inj hstep ▸ h.release hpc keep alloc
   | lock t k => exact h.orderLock hstep
   | unlock t k => exact Option.some.inj hstep ▸ h.orderUnlock t k
   | create t q param | destroy t q => exact hown.elim
   | step t => cases hstep

end

lemma init (h : Init s) : Restoring s := by
 obtain ⟨loc,hloc⟩ := (Conserving.init h).custody
 obtain ⟨hqueue,hthread,hevent,-,htaken⟩ := h
 have hfresh : Fresh s := ⟨fun q => ⟨(hqueue q).1,(hqueue q).2.2⟩,hthread⟩
 have harrived : ∀ q, arrived s q = [] := by
  intro q
  rw [arrived,htaken,(hqueue q).2.1]
  rfl
 have hline : ∀ u p, lineOf s u p = [] := by
  intro u p
  rw [lineOf_of_idle (hthread u).1,(hqueue p).2.2.1]
 refine ⟨.init (fun q => (hqueue q).2.2) hthread,.init hfresh,fun t => ?_,
  ⟨?_,fun ev hev => ?_,fun q => ?_⟩,⟨fun q => ?_,fun u p => ?_,fun u p q => ?_⟩⟩
 · rw [(hthread t).1]
   rfl
 · exact .of_loc loc fun place ev => le_of_eq (hloc place ev)
 · rw [(hevent ev).1] at hev
   cases hev
 · rw [htaken]
   nofun
 · rw [harrived]
   exact .nil
 · rw [hline]
   exact ⟨nofun,nofun,.nil⟩
 · rw [harrived]
   nofun

end Restoring

/-- Events from contexts of one queue come out of the queue they were enqueued to in the order of
their contexts, and those of one context in the order they were enqueued in. -/
theorem order_restored {s : State m n}
 (hr : Transition.Reach Init step (fun s a => OwnEvents s a ∧ handsResolved s a = true) s)
 (q : Fin m) :
 (s.ledger.taken q).Pairwise Restored := by
 have h : Restoring s :=
  hr.invariant (fun _ => Restoring.init) fun s a s' hs ha hstep => hs.step ha.1 ha.2 hstep
 exact (pairwise_append.mp (h.sequence.restored q)).1

/-- The second context enqueues out of order, from the first one two events come later, and one more
enqueue is without a context. -/
theorem order_restored_two_contexts :
 ∃ s : State 2 2,
  Transition.Reach Init step (fun s a => OwnEvents s a ∧ handsResolved s a = true) s ∧
  s.ledger.taken 1 = [⟨some 0,0,3⟩,⟨some 0,0,4⟩,⟨some 0,1,2⟩] ∧
  (s.ledger.taken 1).Pairwise Restored := by
 refine Transition.exists_of_start demo_init
  [.enq 0 0 [0,1],.take 0 0,.take 1 0,.enq 1 1 [10],.release 1 true true,.enq 0 1 [11,12],
   .release 0 true true,.step 0,.take 0 1,.take 0 1,.take 1 1]
  (fun s => s.ledger.taken 1 = [⟨some 0,0,3⟩,⟨some 0,0,4⟩,⟨some 0,1,2⟩]) (by decide)
  fun s hs htest => ?_
 exact ⟨htest,order_restored hs 1⟩

/-- The second context enqueues two events one by one and is released; `reorder_complete` of the
first one hands back the first of them with its sustain flag, and it is sorted in behind the
other. -/
theorem order_not_restored : ∃ s : State 2 2, Transition.Reach Init step OwnEvents s ∧
 s.ledger.taken 1 = [⟨some 0,1,3⟩,⟨some 0,1,2⟩] ∧ ¬(s.ledger.taken 1).Pairwise Restored := by
 have h0 : Transition.Reach Init step OwnEvents demo := .start demo_init
 obtain ⟨s,hs,htaken⟩ := h0.exists_of_run
  [.enq 0 0 [0,1],.take 0 0,.take 1 0,.enq 1 1 [10],.enq 1 1 [11],.release 1 true true,
   .release 0 true true,.step 0,.take 0 1,.take 0 1]
  (fun s => s.ledger.taken 1 = [⟨some 0,1,3⟩,⟨some 0,1,2⟩]) (by decide)
 refine ⟨s,hs,htaken,fun h => ?_⟩
 rw [htaken] at h
 obtain hlt | ⟨-,hlt⟩ := (pairwise_cons.mp h).1 ⟨some 0,1,2⟩ mem_cons_self rfl nofun
 all_goals exact absurd hlt (by decide)

end Packages.OrderedQueue

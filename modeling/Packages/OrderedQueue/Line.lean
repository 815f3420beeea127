import Packages.OrderedQueue.Progress

/-!
# The line in front of an ordered queue

The elements of a reorder list wait in line: none is overdue, and of the elements of one order only
the last one resolves it. An element that a thread was handed is the first in line. So
`ordered_queue_enq` finds an element for its target, unless one of the same order for another target
is in front.
-/

namespace Packages.OrderedQueue

open List Nat Transition

variable {m n : Nat}

-- Lists

def Entry.Precedes (x y : Entry m) : Prop :=
 x.order < y.order ∨ x.order = y.order ∧ x.sustain = true

structure InLine (out : Nat) (l : List (Entry m)) : Prop where
 due : ∀ x ∈ l, out ≤ x.order
 precedes : l.Pairwise Entry.Precedes

/-- What a thread has in hand is the first element in line; its order is to be resolved, by itself
or by a later one. -/
structure Handed (out : Nat) (b : Entry m) (l : List (Entry m)) : Prop where
 line : InLine out (b::l)
 order : b.order = out
 target : b.target.isSome = true
 resolver : ∃ x ∈ b::l, x.order = out ∧ x.sustain = false

namespace InLine

variable {out : Nat} {a e : Entry m} {l l' : List (Entry m)}

lemma nil (out : Nat) : InLine out ([] : List (Entry m)) := ⟨nofun,List.Pairwise.nil⟩

lemma sorted (h : InLine out l) : Sorted l :=
 h.precedes.imp fun hxy => hxy.elim le_of_lt fun heq => le_of_eq heq.1

lemma sublist (h : InLine out l) (hsub : l'.Sublist l) : InLine out l' :=
 ⟨fun x hx => h.due x (hsub.subset hx),h.precedes.sublist hsub⟩

lemma tail (h : InLine out (a::l)) : InLine out l := h.sublist (sublist_cons_self a l)

lemma next (h : InLine out (a::l)) (hdue : a.order ≤ out) (hs : a.sustain = false) :
 InLine (out+1) l := by
 refine ⟨fun x hx => ?_,h.tail.precedes⟩
 have ha := h.due a mem_cons_self
 obtain hlt | ⟨-,hsustain⟩ := (pairwise_cons.mp h.precedes).1 x hx
 · omega
 · rw [hs] at hsustain
   cases hsustain

lemma advance (h : InLine out (a::l)) (hdue : a.order ≤ out) : InLine (out+a.releaseCount) l := by
 cases hs : a.sustain with
 | true =>
  rw [Entry.releaseCount,hs]
  exact h.tail
 | false =>
  rw [Entry.releaseCount,hs]
  exact h.next hdue hs

lemma reorderEnq (h : InLine out l) (hdue : out ≤ e.order)
 (hs : ∀ x ∈ l, x.order = e.order → x.sustain = true) : InLine out (reorderEnq e l) := by
 refine ⟨fun x hx => ?_,pairwise_reorderEnq h.sorted h.precedes (fun x hx hle => ?_)
  fun x _ hlt => .inl hlt⟩
 · obtain rfl | hx := mem_reorderEnq.mp hx
   · exact hdue
   · exact h.due x hx
 · obtain heq | hlt := eq_or_lt_of_le hle
   · exact .inr ⟨heq,hs x hx heq⟩
   · exact .inl hlt

lemma reorderDeq (queue : Fin m) (h : InLine out l) (hformed : Formed l) :
 InLine (reorderDeq queue out l).orderOut (reorderDeq queue out l).rest := by
 induction l generalizing out with
 | nil => exact .nil _
 | cons a l ih =>
  have hformed' : Formed l := fun x hx => hformed x (mem_cons_of_mem a hx)
  obtain hd | ⟨hdue,ht,hd⟩ | ⟨hdue,-,hd⟩ := reorderDeq_cons queue out a l
  · rw [hd]
    exact h
  · rw [hd]
    exact ih (h.next hdue (hformed a mem_cons_self ht)) hformed'
  · rw [hd]
    exact ih (h.advance hdue) hformed'

/-- `reorder_complete` leaves a line behind and hands back the first one in it. -/
lemma completeLoop (o : QueueEntry m) {passed : List (Entry m)} (h : InLine o.orderOut (passed++l))
 (hpassed : ∀ x ∈ passed, x.target.isSome = true) (hformed : Formed l) :
 InLine (o.completeLoop passed l).1.orderOut (o.completeLoop passed l).1.reorder ∧
  ∀ b ∈ (o.completeLoop passed l).2,
   Handed (o.completeLoop passed l).1.orderOut b (o.completeLoop passed l).1.reorder := by
 induction l generalizing o passed with
 | nil =>
  rw [append_nil] at h
  exact ⟨h,nofun⟩
 | cons a l ih =>
  have hformed' : Formed l := fun x hx => hformed x (mem_cons_of_mem a hx)
  obtain hc | ⟨hdue,ht,hc⟩ | ⟨-,ht,-,hc⟩ | ⟨hdue,ht,hs,b,bs,hb,hc⟩ :=
   QueueEntry.completeLoop_cons o passed a l
  · rw [hc]
    exact ⟨h,nofun⟩
  · rw [hc]
    refine ih (o.orderRelease 1) ?_ nofun hformed'
    exact (h.sublist (sublist_append_right _ _)).next hdue (hformed a mem_cons_self ht)
  · rw [hc]
    refine ih o (by simpa using h) (fun x hx => ?_) hformed'
    obtain hx | hx := mem_append.mp hx
    · exact hpassed x hx
    · rw [mem_singleton.mp hx]
      exact ht
  · rw [hc]
    rw [← hb] at h
    refine ⟨h.tail,fun x hx => ?_⟩
    cases hx
    have hmem : a ∈ b::bs := by
     rw [hb]
     exact mem_append_right _ mem_cons_self
    have ha : a.order = o.orderOut := le_antisymm hdue (h.due a hmem)
    refine ⟨h,?_,?_,a,hmem,ha,hs⟩
    · have hle : b.order ≤ a.order := by
       obtain rfl | hmem := mem_cons.mp hmem
       · exact le_refl _
       · exact (pairwise_cons.mp h.sorted).1 a hmem
      have hge := h.due b mem_cons_self
      show b.order = o.orderOut
      omega
    · cases passed with
      | nil =>
       cases hb
       exact ht
      | cons x xs =>
       cases hb
       exact hpassed b mem_cons_self

lemma mark (pre : List (Entry m)) {post : List (Entry m)} (h : InLine out (pre++a::post))
 (hpost : ∀ y ∈ post, a.order < y.order) : InLine out (pre++{ a with sustain := false }::post) := by
 obtain ⟨hpre,hsuf,hcross⟩ := pairwise_append.mp h.precedes
 refine ⟨fun x hx => ?_,pairwise_append.mpr ⟨hpre,?_,fun x hx y hy => ?_⟩⟩
 · obtain rfl | hx := mem_marked a hx
   · exact h.due a (mem_append_right _ mem_cons_self)
   · exact h.due x hx
 · exact pairwise_cons.mpr ⟨fun y hy => .inl (hpost y hy),(pairwise_cons.mp hsuf).2⟩
 · obtain rfl | hy := mem_cons.mp hy
   · exact hcross x hx a mem_cons_self
   · exact hcross x hx y (mem_cons_of_mem a hy)

end InLine

variable {l : List (Entry m)}

lemma lt_of_mem_dropWhile {o : Nat} (hsorted : Sorted l)
 (hge : ∀ x ∈ l, o ≤ x.order) : ∀ x ∈ l.dropWhile (·.order == o), o < x.order := by
 induction l with
 | nil => nofun
 | cons a l ih =>
  obtain ⟨hle,hsorted'⟩ := pairwise_cons.mp hsorted
  by_cases ha : a.order = o
  · rw [dropWhile_cons_of_pos (by simpa using ha)]
    exact ih hsorted' fun x hx => hge x (mem_cons_of_mem a hx)
  · rw [dropWhile_cons_of_neg (by simpa using ha)]
    intro x hx
    have hlt : o < a.order := lt_of_le_of_ne (hge a mem_cons_self) (Ne.symm ha)
    obtain rfl | hx := mem_cons.mp hx
    · exact hlt
    · exact lt_of_lt_of_le hlt (hle x hx)

variable {e : Entry m}

lemma reorderEnq_eq_cons (h : ∀ x ∈ l, e.order < x.order) : reorderEnq e l = e::l := by
 cases l with
 | nil => rfl
 | cons a l => rw [reorderEnq,if_neg (not_le.mpr (h a mem_cons_self))]

variable {out : Nat} {target : Fin m}

/-- An element whose order was resolved just now is taken, and those behind it go on. -/
lemma reorderDeq_enq_late
 (hline : InLine (out+1) l) (hformed : Formed l) (horder : e.order = out)
 (htarget : e.target = some target) (hs : e.sustain = true) :
 (reorderDeq target (out+1) (reorderEnq e l)).moved ≠ [] ∧
  InLine (reorderDeq target (out+1) (reorderEnq e l)).orderOut
   (reorderDeq target (out+1) (reorderEnq e l)).rest := by
 rw [reorderEnq_eq_cons fun x hx => horder ▸ hline.due x hx,
  reorderDeq_move (horder ▸ le_succ out) htarget]
 have hzero : e.releaseCount = 0 := by
  rw [Entry.releaseCount,hs]
  rfl
 rw [hzero]
 exact ⟨cons_ne_nil _ _,hline.reorderDeq target hformed⟩

/-- The element goes behind the others of its order, which go to the same target, and all of them
are taken. -/
lemma reorderDeq_enq_sustain (hline : InLine out l) (hformed : Formed l) (horder : e.order = out)
 (htarget : e.target = some target) (hs : e.sustain = true)
 (hresolver : ∃ x ∈ l, x.order = out ∧ x.sustain = false)
 (hsame : ∀ x ∈ l, x.order = out → ∀ q, x.target = some q → q = target) :
 (reorderDeq target out (reorderEnq e l)).moved ≠ [] ∧
  InLine (reorderDeq target out (reorderEnq e l)).orderOut
   (reorderDeq target out (reorderEnq e l)).rest := by
 induction l with
 | nil =>
  obtain ⟨x,hx,-⟩ := hresolver
  cases hx
 | cons a l ih =>
  have hformed' : Formed l := fun x hx => hformed x (mem_cons_of_mem a hx)
  obtain ⟨x,hx,hxo,hxs⟩ := hresolver
  have hle : a.order ≤ out := by
   obtain rfl | hx := mem_cons.mp hx
   · exact le_of_eq hxo
   · exact hxo ▸ (pairwise_cons.mp hline.sorted).1 x hx
  have ha : a.order = out := le_antisymm hle (hline.due a mem_cons_self)
  have henq : reorderEnq e (a::l) = a::reorderEnq e l := by
   rw [reorderEnq,if_pos]
   omega
  rw [henq]
  cases ht : a.target with
  | none =>
   have hsa := hformed a mem_cons_self ht
   rw [reorderDeq_placeholder hle ht]
   exact reorderDeq_enq_late (hline.next hle hsa) hformed' horder htarget hs
  | some q =>
   obtain rfl := hsame a mem_cons_self ha q ht
   rw [reorderDeq_move hle ht]
   refine ⟨cons_ne_nil _ _,?_⟩
   cases hsa : a.sustain with
   | false =>
    rw [Entry.releaseCount,hsa]
    exact (reorderDeq_enq_late (hline.next hle hsa) hformed' horder htarget hs).2
   | true =>
    rw [Entry.releaseCount,hsa]
    refine (ih hline.tail hformed' ⟨x,?_,hxo,hxs⟩ fun y hy => hsame y (mem_cons_of_mem a hy)).2
    obtain rfl | hx := mem_cons.mp hx
    · rw [hsa] at hxs
      cases hxs
    · exact hx

lemma Handed.reorderDeq (h : Handed out e l) (target : Fin m) (hformed : Formed l)
 (hsame : e.sustain = true → ∀ x ∈ l, x.order = out → ∀ q, x.target = some q → q = target) :
 (reorderDeq target (out+e.releaseCount)
  (reorderEnq { e with target := some target, sustain := true } l)).moved ≠ [] ∧
  InLine (reorderDeq target (out+e.releaseCount)
   (reorderEnq { e with target := some target, sustain := true } l)).orderOut
   (reorderDeq target (out+e.releaseCount)
    (reorderEnq { e with target := some target, sustain := true } l)).rest := by
 cases hs : e.sustain with
 | false =>
  rw [Entry.releaseCount,hs]
  exact reorderDeq_enq_late (h.line.next (le_of_eq h.order) hs) hformed h.order rfl rfl
 | true =>
  rw [Entry.releaseCount,hs]
  obtain ⟨x,hx,hxo,hxs⟩ := h.resolver
  refine reorderDeq_enq_sustain h.line.tail hformed h.order rfl rfl ⟨x,?_,hxo,hxs⟩ (hsame hs)
  obtain rfl | hx := mem_cons.mp hx
  · rw [hs] at hxs
    cases hxs
  · exact hx

/-- The element of a context whose turn it is finds itself, or others of its order, at the head. -/
lemma moved_ne_nil_of_context
 (hline : InLine out l) (horder : e.order = out) (htarget : e.target = some target)
 (hsame : ∀ x ∈ l, x.order = out → x.target = some target) :
 (reorderDeq target out (reorderEnq e l)).moved ≠ [] := by
 cases l with
 | nil =>
  rw [reorderEnq,reorderDeq_move (le_of_eq horder) htarget]
  exact cons_ne_nil _ _
 | cons a l =>
  rw [reorderEnq]
  split
  · next hle =>
    have hdue := hline.due a mem_cons_self
    rw [reorderDeq_move (by omega) (hsame a mem_cons_self (by omega))]
    exact cons_ne_nil _ _
  · rw [reorderDeq_move (le_of_eq horder) htarget]
    exact cons_ne_nil _ _

-- States

/-- The target of the element is one that is allowed for its order. -/
def Aimed (aim : Fin m → Nat → Fin m → Prop) (p : Fin m) (x : Entry m) : Prop :=
 ∀ q, x.target = some q → aim p x.order q

structure Lined (aim : Fin m → Nat → Fin m → Prop) (s : State m n) : Prop where
 live : ∀ q, s.bad q = false
 line : ∀ p, InLine (s.queue p).orderOut (s.queue p).reorder
 aimed : ∀ p, ∀ x ∈ (s.queue p).reorder, Aimed aim p x
 hand : ∀ t p e k, s.pc t = .moving p e k →
  Handed (s.queue p).orderOut e (s.queue p).reorder ∧ Aimed aim p e
 unique : ∀ t u p e k e' k', s.pc t = .moving p e k → s.pc u = .moving p e' k' → t = u

lemma Handed.reorderEnq {b : Entry m} (h : Handed out b l)
 (hlate : out < e.order) (hs : ∀ x ∈ l, x.order = e.order → x.sustain = true) :
 Handed out b (reorderEnq e l) := by
 have hb := h.order
 have henq : OrderedQueue.reorderEnq e (b::l) = b::OrderedQueue.reorderEnq e l := by
  rw [OrderedQueue.reorderEnq,if_pos]
  omega
 obtain ⟨x,hx,hxo,hxs⟩ := h.resolver
 refine ⟨?_,hb,h.target,x,?_,hxo,hxs⟩
 · rw [← henq]
   refine h.line.reorderEnq (le_of_lt hlate) fun y hy hye => ?_
   obtain rfl | hy := mem_cons.mp hy
   · omega
   · exact hs y hy hye
 · rw [← henq]
   exact mem_reorderEnq.mpr (.inr hx)

section Context

variable {s : State m n} {t : Fin n} {p : Fin m}

lemma context_ne_zero (horigin : (s.schedLocal t).originQe = some p) :
 orderAt s (.context t) (p,(s.schedLocal t).order) ≠ 0 := by
 rw [orderAt,resolving_context,if_pos horigin]
 simp

lemma reorder_ne_zero {x : Entry m} (hx : x ∈ (s.queue p).reorder) (hs : x.sustain = false) :
 orderAt s (.reorder p) (p,x.order) ≠ 0 := by
 rw [orderAt,if_pos rfl]
 have hin : x.order ∈ resolving (s.queue p).reorder :=
  mem_map_of_mem (mem_filter.mpr ⟨hx,by simp [hs]⟩)
 exact (count_pos_iff.mpr hin).ne'

section

variable (h : Accounted s) (horigin : (s.schedLocal t).originQe = some p)

include h horigin

lemma Accounted.sustain_of_context {x : Entry m} (hx : x ∈ (s.queue p).reorder)
 (horder : x.order = (s.schedLocal t).order) : x.sustain = true := by
 by_contra hs
 have hreorder := reorder_ne_zero hx (by simpa using hs)
 rw [horder] at hreorder
 cases h.exclusive.unique hreorder (context_ne_zero horigin)

/-- While a thread has an element of the current order in hand, no context of this order is left. -/
lemma Accounted.order_ne_of_hand {u : Fin n} {k : Bool} (hpc : s.pc u = .moving p e k)
 (hhand : Handed (s.queue p).orderOut e (s.queue p).reorder) :
 (s.schedLocal t).order ≠ (s.queue p).orderOut := by
 intro horder
 have hcontext := context_ne_zero horigin
 obtain ⟨x,hx,hxo,hxs⟩ := hhand.resolver
 rw [horder] at hcontext
 obtain rfl | hx := mem_cons.mp hx
 · have hne : orderAt s (.hand u) (p,(s.queue p).orderOut) ≠ 0 := by
    rw [orderAt,hpc,resolving_moving,resolving_cons hxs,hxo]
    simp
   cases h.exclusive.unique hne hcontext
 · have hne := reorder_ne_zero hx hxs
   rw [hxo] at hne
   cases h.exclusive.unique hne hcontext

lemma Accounted.orderOut_le_context : (s.queue p).orderOut ≤ (s.schedLocal t).order :=
 (h.bounds _ _ _ (context_ne_zero horigin)).1

end

end Context

namespace Lined

variable {s s' : State m n} {t : Fin n} {p q : Fin m} {aim : Fin m → Nat → Fin m → Prop}

section

variable (h : Lined aim s)

include h

lemma update (t : Fin n) (p : Fin m) (hbad : s'.bad = s.bad) (hpc : ∀ u, u ≠ t → s'.pc u = s.pc u)
 (hother : ∀ q, q ≠ p → (s'.queue q).reorder = (s.queue q).reorder ∧
  (s'.queue q).orderOut = (s.queue q).orderOut)
 (hline : InLine (s'.queue p).orderOut (s'.queue p).reorder)
 (haimed : ∀ x ∈ (s'.queue p).reorder, Aimed aim p x) (hhand : ∀ q e k, s'.pc t = .moving q e k →
  q = p ∧ Handed (s'.queue p).orderOut e (s'.queue p).reorder ∧ Aimed aim p e)
 (hkept : ∀ u, u ≠ t → ∀ e k, s.pc u = .moving p e k →
  Handed (s'.queue p).orderOut e (s'.queue p).reorder ∧ s'.pc t = .idle) : Lined aim s' := by
 refine ⟨fun q => ?_,fun q => ?_,fun q => ?_,fun u q e k hu => ?_,fun u v q e k e' k' hu hv => ?_⟩
 · rw [hbad]
   exact h.live q
 · by_cases hq : q = p
   · exact hq ▸ hline
   · rw [(hother q hq).1,(hother q hq).2]
     exact h.line q
 · by_cases hq : q = p
   · exact hq ▸ haimed
   · rw [(hother q hq).1]
     exact h.aimed q
 · by_cases hut : u = t
   · subst hut
     obtain ⟨rfl,hhanded,haim⟩ := hhand q e k hu
     exact ⟨hhanded,haim⟩
   · rw [hpc u hut] at hu
     by_cases hq : q = p
     · subst hq
       exact ⟨(hkept u hut e k hu).1,(h.hand u q e k hu).2⟩
     · rw [(hother q hq).1,(hother q hq).2]
       exact h.hand u q e k hu
 · -- of two threads with an element of the same queue one has it anew
   have hnew : ∀ w, w ≠ t → ∀ e1 k1 e2 k2, s'.pc w = .moving q e1 k1 →
    s'.pc t ≠ .moving q e2 k2 := by
    intro w hw e1 k1 e2 k2 hw' ht
    obtain ⟨rfl,-⟩ := hhand q e2 k2 ht
    rw [hpc w hw] at hw'
    rw [(hkept w hw e1 k1 hw').2] at ht
    cases ht
   by_cases hut : u = t
   · by_cases hvt : v = t
     · rw [hut,hvt]
     · subst hut
       exact absurd hu (hnew v hvt e' k' e k hv)
   · by_cases hvt : v = t
     · subst hvt
       exact absurd hv (hnew u hut e k e' k' hu)
     · rw [hpc u hut] at hu
       rw [hpc v hvt] at hv
       exact h.unique u v q e k e' k' hu hv

lemma congr (hbad : s'.bad = s.bad) (hpc : s'.pc = s.pc)
 (hq : ∀ r, (s'.queue r).reorder = (s.queue r).reorder ∧
  (s'.queue r).orderOut = (s.queue r).orderOut) : Lined aim s' := by
 refine ⟨fun q => ?_,fun q => ?_,fun q => ?_,fun u q e k hu => ?_,fun u v q e k e' k' hu hv => ?_⟩
 · rw [hbad]
   exact h.live q
 · rw [(hq q).1,(hq q).2]
   exact h.line q
 · rw [(hq q).1]
   exact h.aimed q
 · rw [hpc] at hu
   rw [(hq q).1,(hq q).2]
   exact h.hand u q e k hu
 · rw [hpc] at hu hv
   exact h.unique u v q e k e' k' hu hv

lemma of_unaffected (hbad : s'.bad = s.bad) (hu : Unaffected s s') : Lined aim s' :=
 h.congr hbad hu.pc fun r => ⟨(hu.queue r).1,(hu.queue r).2.2⟩

lemma of_issues (hbad : s'.bad = s.bad) (hi : Issues s s' t q) : Lined aim s' :=
 h.congr hbad hi.pc hi.queue

/-- The step ends with `reorder_complete` on a line in which no other thread has an element in
hand. -/
lemma of_complete {s1 : State m n} {added : List Event} (hc : Change s s1 target p added l out)
 (hpc : ∀ u, u ≠ t → s1.pc u = s.pc u)
 (hfree : ∀ u, u ≠ t → ∀ e k, s.pc u ≠ .moving p e k) (hline : InLine out l) (hformed : Formed l)
 (haimed : ∀ x ∈ l, Aimed aim p x) : Lined aim (s1.complete t p) := by
 have hc' := hc.trans (complete_change s1 t target p)
 have hline1 : InLine (s1.queue p).orderOut ([]++(s1.queue p).reorder) := by
  rw [hc.orderOut,hc.reorder]
  exact hline
 obtain ⟨hline',hhanded⟩ :=
  InLine.completeLoop (s1.queue p) hline1 nofun (by rw [hc.reorder]; exact hformed)
 have hmem :
  ∀ x ∈ (s1.queue p).reorderComplete.2.toList++(s1.queue p).reorderComplete.1.reorder, x ∈ l := by
  intro x hx
  have hx := QueueEntry.mem_completeLoop hx
  rw [hc.reorder] at hx
  exact hx
 have hreorder : ((s1.complete t p).queue p).reorder = (s1.queue p).reorderComplete.1.reorder :=
  hc'.reorder
 have hout : ((s1.complete t p).queue p).orderOut = (s1.queue p).reorderComplete.1.orderOut :=
  hc'.orderOut
 refine h.update t p (funext hc'.bad) (fun u hu => (complete_pc_ne s1 t p hu).trans (hpc u hu))
  (fun q hq => ⟨hc'.reorder_ne q hq,hc'.orderOut_ne q hq⟩) ?_ (fun x hx => ?_) (fun q e k he => ?_)
  fun u hu e k he => absurd he (hfree u hu e k)
 · rw [hreorder,hout]
   exact hline'
 · rw [hreorder] at hx
   exact haimed x (hmem x (mem_append_right _ hx))
 · rw [complete_pc] at he
   cases hret : (s1.queue p).reorderComplete.2 with
   | none =>
    rw [hret] at he
    cases he
   | some b =>
    rw [hret] at he
    obtain ⟨rfl,rfl,-⟩ := Pc.moving.inj he
    rw [hreorder,hout]
    refine ⟨rfl,hhanded b hret,haimed b (hmem b ?_)⟩
    rw [hret]
    exact mem_cons_self

/-- `ordered_queue_enq`: an early element goes behind the others of its order; otherwise what
`reorder_deq` leaves is a line. -/
lemma of_orderedQueueEnq (hformed : Formed (s.queue p).reorder)
 (haim : aim p e.order target) (hstep : s.orderedQueueEnq t target p e = some s')
 (hlate : (s.queue p).orderOut < e.order →
  ∀ x ∈ (s.queue p).reorder, x.order = e.order → x.sustain = true)
 (hin : e.order ≤ (s.queue p).orderOut → (∀ u, u ≠ t → ∀ e k, s.pc u ≠ .moving p e k) ∧
  InLine (reorderDeq target ((s.queue p).orderOut+e.releaseCount)
   (reorderEnq { e with target := some target, sustain := true } (s.queue p).reorder)).orderOut
   (reorderDeq target ((s.queue p).orderOut+e.releaseCount)
    (reorderEnq { e with target := some target, sustain := true } (s.queue p).reorder)).rest) :
 Lined aim s' := by
 obtain ⟨⟨s1,b⟩,hmove,rfl⟩ := Option.map_eq_some_iff.mp hstep
 obtain ⟨hpc,-,hcase⟩ := orderedMove_cases hmove
 have hidle : (s1.setPc t .idle).pc t = .idle := by simp [State.setPc]
 have hne : ∀ u, u ≠ t → (s1.setPc t .idle).pc u = s.pc u := by
  intro u hu
  simp [State.setPc,hu,hpc]
 have haimed : ∀ (b : Bool), ∀ x ∈ reorderEnq { e with target := some target, sustain := b }
  (s.queue p).reorder, Aimed aim p x := by
  intro b x hx q hq
  obtain rfl | hx := mem_reorderEnq.mp hx
  · cases hq
    exact haim
  · exact h.aimed p x hx q hq
 obtain ⟨hlt,rfl,-,hc⟩ | ⟨hle,-,⟨-,rfl,hc⟩ | ⟨-,rfl,r,hr,-,hc⟩⟩ := hcase
 · have hc' := hc.setPc t .idle
   have hsustain := hlate hlt
   refine h.update t p (funext hc'.bad) hne (fun q hq => ⟨hc'.reorder_ne q hq,hc'.orderOut_ne q hq⟩)
    ?_ (fun x hx => ?_) (fun q e k he => ?_) fun u hu e k he => ⟨?_,hidle⟩
   · rw [if_neg Bool.false_ne_true,hc'.reorder,hc'.orderOut]
     exact (h.line p).reorderEnq (le_of_lt hlt) hsustain
   · rw [if_neg Bool.false_ne_true,hc'.reorder] at hx
     exact haimed e.sustain x hx
   · rw [if_neg Bool.false_ne_true,hidle] at he
     cases he
   · rw [if_neg Bool.false_ne_true,hc'.reorder,hc'.orderOut]
     exact (h.hand u p e k he).1.reorderEnq hlt hsustain
 · obtain ⟨hfree,-⟩ := hin hle
   have hc' := hc.setPc t .idle
   refine h.update t p (funext hc'.bad) hne (fun q hq => ⟨hc'.reorder_ne q hq,hc'.orderOut_ne q hq⟩)
    ?_ (fun x hx => ?_) (fun q e k he => ?_) fun u hu e k he => absurd he (hfree u hu e k)
   · rw [if_neg Bool.false_ne_true,hc'.reorder]
     exact .nil _
   · rw [if_neg Bool.false_ne_true,hc'.reorder] at hx
     cases hx
   · rw [if_neg Bool.false_ne_true,hidle] at he
     cases he
 · obtain ⟨hfree,hrest⟩ := hin hle
   rw [← hr] at hrest
   have hsub : ∀ x ∈ r.rest,
    x ∈ reorderEnq { e with target := some target, sustain := true } (s.queue p).reorder := by
    intro x hx
    rw [hr] at hx
    exact mem_rest hx
   have hformed1 : Formed (reorderEnq { e with target := some target, sustain := true }
    (s.queue p).reorder) := hformed.reorderEnq nofun
   exact h.of_complete hc (fun u _ => by rw [hpc]) hfree hrest (fun x hx => hformed1 x (hsub x hx))
    fun x hx => haimed true x (hsub x hx)

lemma enq (hacc : Accounted s) {evs : List Event} (hown : InContext s t evs)
 (haim : ∀ p, (s.schedLocal t).originQe = some p → aim p (s.schedLocal t).order q)
 (hstep : s.enq t q evs = some s') : Lined aim s' := by
 have hbad := bad_enq hstep
 obtain rfl | ⟨-,rfl⟩ | ⟨p,ev,link,horigin,rfl,hstep⟩ := hown.enq hstep
 · exact h
 · exact h.of_unaffected hbad (.enq s t q _)
 · have h0 : Lined aim (s.record t q (some p) (ev::link)) := h.congr rfl rfl fun _ => ⟨rfl,rfl⟩
   have hsustain : ∀ x ∈ (s.queue p).reorder, x.order = (s.schedLocal t).order → x.sustain = true :=
    fun x hx => hacc.sustain_of_context horigin hx
   have hle := hacc.orderOut_le_context horigin
   refine h0.of_orderedQueueEnq (hacc.formed p) (haim p horigin) hstep (fun _ => hsustain)
    fun hin => ?_
   have heq : (s.schedLocal t).order = (s.queue p).orderOut := le_antisymm hin hle
   refine ⟨fun u _ e k hu => ?_,?_⟩
   · exact hacc.order_ne_of_hand horigin hu (h.hand u p e k hu).1 heq
   · exact ((h.line p).reorderEnq hle hsustain).reorderDeq q ((hacc.formed p).reorderEnq (by simp))

/-- The enqueue finds an element for its target if those of its order have the same target. -/
lemma enq_ne_none (hacc : Accounted s) {evs : List Event} (hown : InContext s t evs)
 (hsame : ∀ p, (s.schedLocal t).originQe = some p → ∀ x ∈ (s.queue p).reorder,
  x.order = (s.schedLocal t).order → ∀ r, x.target = some r → r = q) : s.enq t q evs ≠ none := by
 cases evs with
 | nil => rintro ⟨⟩
 | cons ev link =>
  have hown := hown ev rfl
  simp only [State.enq]
  cases horigin : (s.schedLocal t).originQe with
  | none =>
   rw [horigin] at hown
   rw [hown]
   simp only [h.live]
   simp
  | some p =>
   rw [horigin] at hown
   rw [hown]
   simp only [h.live]
   intro hnone
   obtain ⟨hin,hmoved⟩ := orderedMove_eq_none (Option.map_eq_none_iff.mp hnone)
   have heq : (s.schedLocal t).order = (s.queue p).orderOut :=
    le_antisymm hin (hacc.orderOut_le_context horigin)
   refine moved_ne_nil_of_context (h.line p) heq rfl (fun x hx hxo => ?_) hmoved
   cases htarget : x.target with
   | none =>
    have hs := hacc.formed p x hx htarget
    rw [hacc.sustain_of_context horigin hx (hxo.trans heq.symm)] at hs
    cases hs
   | some r => rw [hsame p horigin x hx (hxo.trans heq.symm) r htarget]

lemma enqMoving (hacc : Accounted s) {k : Bool} (hpc : s.pc t = .moving p e k)
 (hsame : e.sustain = true → ∀ x ∈ (s.queue p).reorder, x.order = e.order →
  ∀ r, x.target = some r → e.target = some r) :
 ∃ s', s.enqMoving t p e k = some s' ∧ Lined aim s' := by
 obtain ⟨hhand,haim⟩ := h.hand t p e k hpc
 obtain ⟨target,htarget⟩ := Option.isSome_iff_exists.mp hhand.target
 have hdeq := hhand.reorderDeq target (hacc.formed p) fun hs x hx hxo r hr => by
  have heq := hsame hs x hx (hxo.trans hhand.order.symm) r hr
  rw [htarget] at heq
  exact (Option.some.inj heq).symm
 have hcall : s.enqMoving t p e k = s.orderedQueueEnq t target p e := by
  rw [State.enqMoving,htarget,Option.bind_some,if_neg (by simp [h.live])]
 rw [hcall]
 cases hstep : s.orderedQueueEnq t target p e with
 | none =>
  obtain ⟨-,hmoved⟩ := orderedMove_eq_none (Option.map_eq_none_iff.mp hstep)
  exact absurd hmoved hdeq.1
 | some s' =>
  refine ⟨s',rfl,h.of_orderedQueueEnq (hacc.formed p) (haim target htarget) hstep (fun hlate => ?_)
   fun _ => ⟨fun u hu e' k' he => ?_,hdeq.2⟩⟩
  · have horder := hhand.order
    omega
  · exact hu (h.unique u t p e' k' e k he hpc)

/-- `release_order` in order, with elements of this order: the first one of them is taken in
hand. -/
lemma of_first (hfree : ∀ u, u ≠ t → ∀ e k, s.pc u ≠ .moving p e k)
 (hformed : Formed (s.queue p).reorder) {a : Entry m} {as : List (Entry m)}
 (hreorder : (s.queue p).reorder = a::as) (ha : a.order = (s.queue p).orderOut)
 (hs : a.sustain = true) {keep : Bool}
 (h' : Aside s s' t p (.moving p { a with sustain := false, link := [] } keep)
  (as.dropWhile (·.order == (s.queue p).orderOut))) : Lined aim s' := by
 have hline := h.line p
 rw [hreorder] at hline hformed
 have hc := h'.change
 have hsub : (as.dropWhile (·.order == (s.queue p).orderOut)).Sublist as := dropWhile_sublist _
 have hrest := hline.tail.sublist hsub
 have hafter := lt_of_mem_dropWhile hline.tail.sorted hline.tail.due
 have htarget : a.target.isSome = true := by
  rw [Option.isSome_iff_ne_none]
  intro hnone
  rw [hformed a mem_cons_self hnone] at hs
  cases hs
 refine h.update t p (funext hc.bad) (fun u => h'.pc_ne)
  (fun q hq => ⟨hc.reorder_ne q hq,hc.orderOut_ne q hq⟩) ?_
  (fun x hx => ?_) (fun q e k he => ?_) fun u hu e k he => absurd he (hfree u hu e k)
 · rw [hc.reorder,hc.orderOut]
   exact hrest
 · rw [hc.reorder] at hx
   refine h.aimed p x ?_
   rw [hreorder]
   exact mem_cons_of_mem a (hsub.subset hx)
 · rw [h'.pc_self] at he
   cases he
   rw [hc.reorder,hc.orderOut]
   refine ⟨rfl,⟨⟨fun x hx => ?_,?_⟩,ha,htarget,_,mem_cons_self,ha,rfl⟩,fun q hq =>
    h.aimed p a ?_ q hq⟩
   · obtain rfl | hx := mem_cons.mp hx
     · exact le_of_eq ha.symm
     · exact hrest.due x hx
   · refine pairwise_cons.mpr ⟨fun x hx => .inl ?_,hrest.precedes⟩
     rw [ha]
     exact hafter x hx
   · rw [hreorder]
     exact mem_cons_self

/-- `release_order` out of order changes the line behind the current order only. -/
lemma of_marked {list : List (Entry m)} (h' : Aside s s' t p .idle list)
 (hline : InLine (s.queue p).orderOut list) (haimed : ∀ x ∈ list, Aimed aim p x)
 (hkept : ∀ b, Handed (s.queue p).orderOut b (s.queue p).reorder →
  Handed (s.queue p).orderOut b list) :
 Lined aim s' := by
 have hc := h'.change
 refine h.update t p (funext hc.bad) (fun u => h'.pc_ne)
  (fun q hq => ⟨hc.reorder_ne q hq,hc.orderOut_ne q hq⟩) ?_ (fun x hx => ?_) (fun q e k he => ?_)
  fun u hu e k he => ⟨?_,h'.pc_self⟩
 · rw [hc.reorder,hc.orderOut]
   exact hline
 · rw [hc.reorder] at hx
   exact haimed x hx
 · rw [h'.pc_self] at he
   cases he
 · rw [hc.reorder,hc.orderOut]
   exact hkept e (h.hand u p e k he).1

lemma release (hacc : Accounted s) (hpc : s.pc t = .idle) (keep alloc : Bool) :
 Lined aim (s.release t keep alloc) := by
 cases horigin : (s.schedLocal t).originQe with
 | none =>
  simp only [State.release,horigin]
  exact h
 | some p =>
  have hle := hacc.orderOut_le_context horigin
  have hsustain : ∀ x ∈ (s.queue p).reorder, x.order = (s.schedLocal t).order → x.sustain = true :=
   fun x hx => hacc.sustain_of_context horigin hx
  have hfree : (s.schedLocal t).order ≤ (s.queue p).orderOut →
   ∀ u, u ≠ t → ∀ e k, s.pc u ≠ .moving p e k :=
   fun hin u _ e k hu => hacc.order_ne_of_hand horigin hu (h.hand u p e k hu).1
    (le_antisymm hin hle)
  cases release_cases hpc keep alloc horigin with
  | kept _ _ h' =>
   rw [h']
   exact h
  | dropped _ _ h' => exact h.of_marked h' (h.line p) (h.aimed p) fun _ hb => hb
  | resolved s1 hin hhead _ hpc1 hc h' =>
   rw [h']
   refine h.of_complete hc (fun u _ => by rw [hpc1])
    (hfree hin) ⟨fun x hx => ?_,(h.line p).precedes⟩ (hacc.formed p) (h.aimed p)
   -- no element of this order is in the line
   have hline := h.line p
   have hsorted := hline.sorted
   cases hreorder : (s.queue p).reorder with
   | nil =>
    rw [hreorder] at hx
    cases hx
   | cons a as =>
    rw [hreorder] at hline hsorted hx hhead
    have hge := hline.due a mem_cons_self
    have hne := hhead a rfl
    obtain rfl | hx := mem_cons.mp hx
    · omega
    · have hax := (pairwise_cons.mp hsorted).1 x hx
      omega
  | first a as hin hreorder ha h' =>
   have heq : (s.schedLocal t).order = (s.queue p).orderOut := le_antisymm hin hle
   rw [heq] at ha h' hsustain
   refine h.of_first (hfree hin) (hacc.formed p) hreorder ha (hsustain a ?_ ha) h'
   rw [hreorder]
   exact mem_cons_self
  | marked pre a post hlate hold ha hhead h' =>
   have hline := h.line p
   have haimed := h.aimed p
   rw [hold] at hline haimed
   have hpost : ∀ y ∈ post, a.order < y.order := by
    intro y hy
    obtain ⟨z,zs,rfl⟩ := exists_cons_of_ne_nil (ne_nil_of_mem hy)
    have hz := hhead z rfl
    obtain rfl | hy := mem_cons.mp hy
    · omega
    · have hzs := hline.sorted.sublist (sublist_append_right _ _)
      have hzy := (pairwise_cons.mp (pairwise_cons.mp hzs).2).1 y hy
      omega
   refine h.of_marked h' (InLine.mark pre hline hpost) (fun x hx => ?_) fun b hb => ?_
   · obtain rfl | hx := mem_marked a hx
     · exact haimed a (mem_append_right _ mem_cons_self)
     · exact haimed x hx
   · rw [hold] at hb
     obtain ⟨x,hx,hxo,hxs⟩ := hb.resolver
     refine ⟨InLine.mark (b::pre) hb.line hpost,hb.order,hb.target,x,?_,hxo,hxs⟩
     have hxa : x ≠ a := by
      rintro rfl
      omega
     simp only [mem_cons,mem_append] at hx ⊢
     tauto
  | placed hlate h' =>
   refine h.of_marked h' ((h.line p).reorderEnq hle hsustain) (fun x hx => ?_)
    fun b hb => hb.reorderEnq hlate hsustain
   obtain rfl | hx := mem_reorderEnq.mp hx
   · rintro _ ⟨⟩
   · exact h.aimed p x hx

end

lemma init (h : Fresh s) : Lined aim s := by
 obtain ⟨hq,ht⟩ := h
 refine ⟨fun q => (hq q).1,fun p => ?_,fun p x hx => ?_,fun t p e k he =>
  ?_,fun t u p e k e' k' he => ?_⟩
 · rw [(hq p).2.1]
   exact .nil _
 · rw [(hq p).2.1] at hx
   cases hx
 · rw [(ht t).1] at he
   cases he
 · rw [(ht t).1] at he
   cases he

end Lined

-- Whole runs

/-- Threads enqueue from their own context, and where elements of its order still wait, to the queue
that those are for; queues are neither created nor destroyed. -/
def SameTarget (s : State m n) : Action m n → Prop
 | .enq t q evs => InContext s t evs ∧ ∀ p, (s.schedLocal t).originQe = some p →
  ∀ x ∈ (s.queue p).reorder, x.order = (s.schedLocal t).order → ∀ r, x.target = some r → r = q
 | .create _ _ _ | .destroy _ _ => False
 | .take _ _ | .release _ _ _ | .lock _ _ | .unlock _ _ | .step _ => True

instance (s : State m n) : ∀ a, Decidable (SameTarget s a)
 | .enq t q evs => inferInstanceAs (Decidable (InContext s t evs ∧
  ∀ p, (s.schedLocal t).originQe = some p → ∀ x ∈ (s.queue p).reorder,
   x.order = (s.schedLocal t).order → ∀ r, x.target = some r → r = q))
 | .create _ _ _ | .destroy _ _ => inferInstanceAs (Decidable False)
 | .take _ _ | .release _ _ _ | .lock _ _ | .unlock _ _ | .step _ =>
  inferInstanceAs (Decidable True)

lemma inContext_take {s : State m n} {t : Fin n} {evs : List Event} (h : InContext s t evs)
 (num : Nat) : InContext s t (evs.take num) := by
 intro ev hev
 rw [head?_take] at hev
 split at hev
 · cases hev
 · exact h ev hev

namespace Lined

variable {s s' : State m n} {a : Action m n} {aim : Fin m → Nat → Fin m → Prop}

lemma step (h : Lined aim s) (hacc : Accounted s) (ha : a.keepsQueues = true)
 (henq : ∀ t q evs, a = .enq t q evs → InContext s t evs ∧
  ∀ p, (s.schedLocal t).originQe = some p → aim p (s.schedLocal t).order q)
 (hmoving : ∀ t p e k, a = .step t → s.pc t = .moving p e k → e.sustain = true →
  ∀ x ∈ (s.queue p).reorder, x.order = e.order → ∀ r, x.target = some r → e.target = some r)
 (hstep : OrderedQueue.step s a = some s') : Lined aim s' := by
 have hbad := step_bad hstep ha
 obtain ⟨t,p,e,k,rfl,hpc,hstep⟩ | ⟨hpc,hstep⟩ := step_cases hstep
 · obtain ⟨s1,hs1,hlined⟩ := h.enqMoving hacc hpc (hmoving t p e k rfl hpc)
   exact Option.some.inj (hs1.symm.trans hstep) ▸ hlined
 · cases a with
   | enq t q evs =>
    obtain ⟨hown,haim⟩ := henq t q evs rfl
    exact h.enq hacc (inContext_take hown _) haim hstep
   | take t q =>
    simp only [State.call] at hstep
    split at hstep
    · cases hstep
    · next hfree =>
      cases hstep
      obtain hu | hi := Accounted.take_orders hpc hfree
      · exact h.of_unaffected hbad hu
      · exact h.of_issues hbad hi
   | release t keep alloc => exact Option.some.inj hstep ▸ h.release hacc hpc keep alloc
   | lock t k => exact h.of_unaffected hbad (Accounted.orderLock_unaffected hstep)
   | unlock t k =>
    cases hstep
    exact h.of_unaffected hbad (Accounted.orderUnlock_unaffected s t k)
   | create t q param | destroy t q => cases ha
   | step t => cases hstep

end Lined

section SameTarget

variable {s : State m n} {a : Action m n} {tgt : Fin m → Nat → Fin m} {p q : Fin m} {o : Nat}

/-- An order may aim at the target of its waiting elements, if none of it is in a hand. -/
lemma Lined.retarget (h : Lined (fun p o q => q = tgt p o) s)
 (hlist : ∀ x ∈ (s.queue p).reorder, x.order = o → ∀ r, x.target = some r → r = q)
 (hhand : ∀ t e k, s.pc t = .moving p e k → e.order ≠ o) :
 Lined (fun p' o' r => r = if p' = p ∧ o' = o then q else tgt p' o') s := by
 refine ⟨h.live,h.line,fun p' x hx r hr => ?_,fun t p' e k hpc =>
  ⟨(h.hand t p' e k hpc).1,fun r hr => ?_⟩,h.unique⟩
 · split
   · next heq =>
     obtain ⟨rfl,ho⟩ := heq
     exact hlist x hx ho r hr
   · exact h.aimed p' x hx r hr
 · dsimp only
   split
   · next heq =>
     obtain ⟨rfl,ho⟩ := heq
     exact absurd ho (hhand t e k hpc)
   · exact (h.hand t p' e k hpc).2 r hr

lemma Lined.exists_target (h : Lined (fun p o q => q = tgt p o) s) (hacc : Accounted s)
 (hok : SameTarget s a) : ∃ tgt' : Fin m → Nat → Fin m, Lined (fun p o q => q = tgt' p o) s ∧
  ∀ t q evs, a = .enq t q evs → InContext s t evs ∧
   ∀ p, (s.schedLocal t).originQe = some p → q = tgt' p (s.schedLocal t).order := by
 cases a with
 | enq t q evs =>
  cases horigin : (s.schedLocal t).originQe with
  | none =>
   refine ⟨tgt,h,?_⟩
   rintro t q evs ⟨⟩
   refine ⟨hok.1,fun p hp => ?_⟩
   cases horigin.symm.trans hp
  | some p =>
   refine ⟨_,h.retarget (hok.2 p horigin) fun u e k hu ho => ?_,?_⟩
   · have hhand := (h.hand u p e k hu).1
     exact hacc.order_ne_of_hand horigin hu hhand (ho.symm.trans hhand.order)
   · rintro t q evs ⟨⟩
     refine ⟨hok.1,fun p' hp => ?_⟩
     obtain rfl : p = p' := Option.some.inj (horigin.symm.trans hp)
     exact (if_pos ⟨rfl,rfl⟩).symm
 | _ => exact ⟨tgt,h,fun _ _ _ ha => by cases ha⟩

/-- An element in hand has the target of the others of its order. -/
lemma Lined.same_target (h : Lined (fun p o q => q = tgt p o) s) {t : Fin n}
 {e x : Entry m} {k : Bool}
 (hpc : s.pc t = .moving p e k) (hx : x ∈ (s.queue p).reorder) (hxo : x.order = e.order) (r : Fin m)
 (hr : x.target = some r) : e.target = some r := by
 obtain ⟨hhand,haim⟩ := h.hand t p e k hpc
 obtain ⟨target,htarget⟩ := Option.isSome_iff_exists.mp hhand.target
 rw [htarget,haim target htarget,h.aimed p x hx r hr,hxo]

lemma lined_of_sameTarget (hr : Reach Fresh step SameTarget s) :
 Accounted s ∧ ∃ tgt : Fin m → Nat → Fin m, Lined (fun p o q => q = tgt p o) s := by
 refine hr.invariant (P := fun s => Accounted s ∧ ∃ tgt : Fin m → Nat → Fin m,
  Lined (fun p o q => q = tgt p o) s) (fun s hs => ⟨.init (fun q => (hs.1 q).2) hs.2,fun p _ => p,
   .init hs⟩) ?_
 rintro s a s' ⟨hacc,tgt,hlined⟩ hok hstep
 obtain ⟨tgt',hlined,henq⟩ := hlined.exists_target hacc hok
 refine ⟨hacc.step hstep,tgt',hlined.step hacc ?_ henq (fun t p e k _ hpc _ x hx hxo => ?_) hstep⟩
 · cases a <;> first | rfl | exact hok.elim
 · exact hlined.same_target hpc hx hxo

/-- No enqueue to the queue that the waiting elements of its order are for meets a `reorder_tail`
that is `NULL`: neither the enqueue itself nor that of an element which a thread was handed. -/
theorem reorder_tail_not_null (hr : Transition.Reach Fresh step SameTarget s) :
 (∀ t q evs, s.pc t = .idle → SameTarget s (.enq t q evs) → step s (.enq t q evs) ≠ none) ∧
  ∀ t, s.pc t ≠ .idle → step s (.step t) ≠ none := by
 obtain ⟨hacc,tgt,hlined⟩ := lined_of_sameTarget hr
 refine ⟨fun t q evs hpc hok => ?_,fun t hpc => ?_⟩
 · have hcall : step s (.enq t q evs) = s.enq t q (evs.take Scheduler.queueMultiMax) := by
    simp only [step,Action.thread,hpc]
    rfl
   rw [hcall]
   exact hlined.enq_ne_none hacc (inContext_take hok.1 _) hok.2
 · cases hmoving : s.pc t with
   | idle => exact absurd hmoving hpc
   | moving p e k =>
    have hcall : step s (.step t) = s.enqMoving t p e k := by
     simp only [step,Action.thread,hmoving]
    rw [hcall]
    obtain ⟨s',hs',-⟩ :=
     hlined.enqMoving hacc hmoving fun _ x hx hxo => hlined.same_target hmoving hx hxo
    rw [hs']
    simp

end SameTarget

attribute [local instance] Transition.neZero_three

/-- An ordered queue, two plain queues and two threads. -/
def demoTargets : State 3 2 where
 queue q := ⟨if q = 0 then .notsched else .ready,⟨if q = 0 then .ordered else .plain,0⟩,[],0,0,[],
  fun _ => 0,fun _ => 0,fun _ _ => 0,fun _ _ => false⟩
 hdr _ := none
 schedLocal _ := ⟨none,0,fun _ => 0,false,fun _ => false⟩
 pc _ := .idle
 ledger := ⟨fun _ => true,fun _ => none,fun _ => none,fun _ => ⟨none,0,0⟩,0,fun _ => []⟩

lemma demoTargets_fresh : Fresh demoTargets := by
 refine ⟨fun q => ⟨?_,rfl,rfl⟩,fun t => ⟨rfl,rfl⟩⟩
 revert q
 decide

/-- The first context enqueues to both queues in its turn, the second one has an element waiting. -/
theorem reorder_tail_not_null_same : ∃ s : State 3 2,
 Transition.Reach Fresh step SameTarget s ∧ (s.queue 1).events = [12] ∧ (s.queue 2).events = [13] ∧
  (s.queue 0).reorder ≠ [] ∧ (s.schedLocal 1).order = (s.queue 0).orderOut ∧
  step s (.enq 1 1 [11]) ≠ none := by
 refine exists_of_start demoTargets_fresh
  [.enq 0 0 [0,1],.take 0 0,.take 1 0,.enq 0 1 [12],.enq 0 2 [13],.enq 1 1 [10],
   .release 0 true true]
  (fun s => (s.queue 1).events = [12] ∧ (s.queue 2).events = [13] ∧ (s.queue 0).reorder ≠ [] ∧
   (s.schedLocal 1).order = (s.queue 0).orderOut ∧ s.pc 1 = .idle ∧ SameTarget s (.enq 1 1 [11]))
  (by decide) fun s hs ⟨hfirst,hsecond,hlist,horder,hidle,hok⟩ => ?_
 exact ⟨hfirst,hsecond,hlist,horder,(reorder_tail_not_null hs).1 1 1 [11] hidle hok⟩

/-- The second context enqueues to one queue out of order and to another in its turn: the element
for the first queue is in front, and `reorder_deq` returns no tail. -/
theorem reorder_tail_null : ∃ s : State 3 2, Transition.Reach Fresh step ReleaseOk s ∧
 s.pc 1 = .idle ∧ (s.schedLocal 1).originQe = some 0 ∧ ReleaseOk s (.enq 1 2 [11]) ∧
  (reorderDeq 2 (s.queue 0).orderOut
   (reorderEnq ⟨(s.schedLocal 1).order,some 2,true,11,[]⟩ (s.queue 0).reorder)).moved = [] ∧
  step s (.enq 1 2 [11]) = none := by
 refine exists_of_start demoTargets_fresh
  [.enq 0 0 [0,1],.take 0 0,.take 1 0,.enq 1 1 [10],.release 0 true true]
  (fun s => s.pc 1 = .idle ∧ (s.schedLocal 1).originQe = some 0 ∧
   ReleaseOk s (.enq 1 2 [11]) ∧ (reorderDeq 2 (s.queue 0).orderOut
    (reorderEnq ⟨(s.schedLocal 1).order,some 2,true,11,[]⟩ (s.queue 0).reorder)).moved = [] ∧
   (step s (.enq 1 2 [11])).isNone = true) (by decide)
  fun s hs ⟨hidle,horigin,hok,hmoved,hnone⟩ => ?_
 exact ⟨hidle,horigin,hok,hmoved,Option.isNone_iff_eq_none.mp hnone⟩

end Packages.OrderedQueue

import Packages.OrderedQueue.Reorder

/-!
# What the list functions keep

`reorder_enq`, `reorder_deq` and `reorder_complete` move elements between lists. Here is what they
do to the elements, apart from the order they come in.
-/

namespace Packages.OrderedQueue

open Entry List

variable {m : Nat}

/-- The events of a reorder list, chains included. -/
def eventsOf (l : List (Entry m)) : List Event := l.flatMap events

@[simp] lemma eventsOf_nil : eventsOf ([] : List (Entry m)) = [] := rfl

@[simp] lemma eventsOf_cons (a : Entry m) (l : List (Entry m)) :
 eventsOf (a::l) = a.events++eventsOf l := rfl

@[simp] lemma eventsOf_append (l l' : List (Entry m)) :
 eventsOf (l++l') = eventsOf l++eventsOf l' := flatMap_append

variable {l l' : List (Entry m)}

lemma eventsOf_perm (h : l.Perm l') : (eventsOf l).Perm (eventsOf l') := h.flatMap_right _

@[simp] lemma events_placeholder (order : Nat) : (placeholder order : Entry m).events = [] := rfl

variable {e : Entry m}

lemma events_of_target {q : Fin m} (h : e.target = some q) : e.events = e.buf::e.link := by
 simp [events,h]

lemma events_congr {e' : Entry m} (ht : e'.target = e.target) (hb : e'.buf = e.buf)
 (hl : e'.link = e.link) : e'.events = e.events := by
 simp [events,ht,hb,hl]

lemma mem_marked {x a' : Entry m} (a : Entry m) (hx : x ∈ l++a'::l') :
 x = a' ∨ x ∈ l++a::l' := by
 rw [perm_middle.mem_iff,mem_cons] at hx ⊢
 exact hx.imp_right .inr

-- reorder_enq

lemma reorderEnq_perm (e : Entry m) (l : List (Entry m)) : (reorderEnq e l).Perm (e::l) := by
 induction l with
 | nil => exact .rfl
 | cons a l ih =>
  rw [reorderEnq]
  split_ifs
  · exact (ih.cons a).trans (.swap e a l)
  · exact .rfl

lemma mem_reorderEnq {x : Entry m} : x ∈ reorderEnq e l ↔ x = e ∨ x ∈ l := by
 rw [(reorderEnq_perm e l).mem_iff,mem_cons]

/-- The elements stand in the order of their contexts. -/
def Sorted (l : List (Entry m)) : Prop := l.Pairwise fun x y => x.order ≤ y.order

/-- A relation between the elements of a sorted list still holds with the new one in its place. -/
lemma pairwise_reorderEnq {R : Entry m → Entry m → Prop}
 (hsorted : Sorted l) (h : l.Pairwise R) (hbefore : ∀ x ∈ l, x.order ≤ e.order → R x e)
 (hafter : ∀ x ∈ l, e.order < x.order → R e x) : (reorderEnq e l).Pairwise R := by
 induction l with
 | nil => exact pairwise_singleton _ _
 | cons a l ih =>
  obtain ⟨hle,hsorted'⟩ := pairwise_cons.mp hsorted
  obtain ⟨ha,hl⟩ := pairwise_cons.mp h
  rw [reorderEnq]
  split
  · next hae =>
    refine pairwise_cons.mpr ⟨fun x hx => ?_,ih hsorted' hl
     (fun x hx => hbefore x (mem_cons_of_mem a hx))
     fun x hx => hafter x (mem_cons_of_mem a hx)⟩
    obtain rfl | hx := mem_reorderEnq.mp hx
    · exact hbefore a mem_cons_self hae
    · exact ha x hx
  · next hae =>
    have hea : e.order < a.order := Nat.lt_of_not_le hae
    refine pairwise_cons.mpr ⟨fun x hx => hafter x hx ?_,h⟩
    obtain rfl | hx := mem_cons.mp hx
    · exact hea
    · exact lt_of_lt_of_le hea (hle x hx)

lemma Sorted.reorderEnq (h : Sorted l) (e : Entry m) : Sorted (reorderEnq e l) :=
 pairwise_reorderEnq h h (fun _ _ hx => hx) fun _ _ hx => Nat.le_of_lt hx

lemma Sorted.of_orders (h : Sorted l) (heq : l'.map order = l.map order) : Sorted l' := by
 have hmap : (l.map order).Pairwise (· ≤ ·) := pairwise_map.mpr h
 rw [← heq] at hmap
 exact pairwise_map.mp hmap

-- reorder_deq

section Deq

variable {queue : Fin m} {a x : Entry m} {l : List (Entry m)} {orderOut : Nat}

lemma reorderDeq_late (h : ¬ a.order ≤ orderOut) :
 reorderDeq queue orderOut (a::l) = ⟨[],a::l,orderOut⟩ := by
 simp [reorderDeq,h]

lemma reorderDeq_other {target : Fin m} (ht : a.target = some target) (hq : target ≠ queue) :
 reorderDeq queue orderOut (a::l) = ⟨[],a::l,orderOut⟩ := by
 simp [reorderDeq,ht,hq]

lemma reorderDeq_placeholder (h : a.order ≤ orderOut) (ht : a.target = none) :
 reorderDeq queue orderOut (a::l) = reorderDeq queue (orderOut+1) l := by
 simp [reorderDeq,h,ht]

lemma reorderDeq_move (h : a.order ≤ orderOut) (ht : a.target = some queue) :
 reorderDeq queue orderOut (a::l) = { reorderDeq queue (orderOut+a.releaseCount) l with
  moved := a::(reorderDeq queue (orderOut+a.releaseCount) l).moved } := by
 simp [reorderDeq,h,ht]

lemma reorderDeq_cons (queue : Fin m) (orderOut : Nat) (a : Entry m) (l : List (Entry m)) :
 reorderDeq queue orderOut (a::l) = ⟨[],a::l,orderOut⟩ ∨
  (a.order ≤ orderOut ∧ a.target = none ∧
   reorderDeq queue orderOut (a::l) = reorderDeq queue (orderOut+1) l) ∨
  (a.order ≤ orderOut ∧ a.target = some queue ∧ reorderDeq queue orderOut (a::l) =
   { reorderDeq queue (orderOut+a.releaseCount) l with
     moved := a::(reorderDeq queue (orderOut+a.releaseCount) l).moved }) := by
 by_cases hdue : a.order ≤ orderOut
 · cases ht : a.target with
   | none => exact .inr (.inl ⟨hdue,rfl,reorderDeq_placeholder hdue ht⟩)
   | some target =>
    by_cases hq : target = queue
    · subst hq
      exact .inr (.inr ⟨hdue,rfl,reorderDeq_move hdue ht⟩)
    · exact .inl (reorderDeq_other ht hq)
 · exact .inl (reorderDeq_late hdue)

lemma reorderDeq_events (queue : Fin m) (orderOut : Nat) (l : List (Entry m)) :
 eventsOf (reorderDeq queue orderOut l).moved++eventsOf (reorderDeq queue orderOut l).rest =
  eventsOf l := by
 induction l generalizing orderOut with
 | nil => rfl
 | cons a l ih =>
  rcases reorderDeq_cons queue orderOut a l with h | ⟨-,ht,h⟩ | ⟨-,-,h⟩ <;> rw [h]
  · rfl
  · simpa [events,ht] using ih (orderOut+1)
  · simpa using ih (orderOut+a.releaseCount)

lemma mem_moved (h : x ∈ (reorderDeq queue orderOut l).moved) :
 x ∈ l ∧ x.target = some queue := by
 induction l generalizing orderOut with
 | nil => simp [reorderDeq] at h
 | cons a l ih =>
  rcases reorderDeq_cons queue orderOut a l with hd | ⟨-,ht,hd⟩ | ⟨-,ht,hd⟩ <;> rw [hd] at h
  · simp at h
  · exact (ih h).imp_left (mem_cons_of_mem a)
  · rcases mem_cons.mp h with rfl | h
    · exact ⟨mem_cons_self ..,ht⟩
    · exact (ih h).imp_left (mem_cons_of_mem a)

lemma reorderDeq_sublist (queue : Fin m) (orderOut : Nat) (l : List (Entry m)) :
 ((reorderDeq queue orderOut l).moved++(reorderDeq queue orderOut l).rest).Sublist l := by
 induction l generalizing orderOut with
 | nil => exact .slnil
 | cons a l ih =>
  obtain hd | ⟨-,-,hd⟩ | ⟨-,-,hd⟩ := reorderDeq_cons queue orderOut a l
  · rw [hd]
    exact .refl _
  · rw [hd]
    exact (ih _).cons a
  · rw [hd]
    exact (ih _).cons_cons a

lemma mem_rest (h : x ∈ (reorderDeq queue orderOut l).rest) : x ∈ l :=
 (reorderDeq_sublist queue orderOut l).subset (mem_append_right _ h)

end Deq

-- reorder_complete

/-- `reorder_complete` meets no placeholder behind an element that it passed. -/
def dropsNone (orderOut : Nat) (passed : Bool) : List (Entry m) → Bool
 | [] => true
 | a::l =>
  if a.order ≤ orderOut then
   match a.target, a.sustain with
   | none, _ => !passed && dropsNone (orderOut+1) false l
   | some _, true => dropsNone orderOut true l
   | some _, false => true
  else true

namespace QueueEntry

section CompleteLoop

variable {o : QueueEntry m} {a x : Entry m} {passed l : List (Entry m)}

lemma completeLoop_late (h : ¬ a.order ≤ o.orderOut) :
 o.completeLoop passed (a::l) = ({ o with reorder := passed++a::l },none) := by
 simp [completeLoop,h]

lemma completeLoop_placeholder (h : a.order ≤ o.orderOut) (ht : a.target = none) :
 o.completeLoop passed (a::l) = (o.orderRelease 1).completeLoop [] l := by
 simp [completeLoop,h,ht]

lemma completeLoop_sustain {q : Fin m} (h : a.order ≤ o.orderOut) (ht : a.target = some q)
 (hs : a.sustain = true) :
 o.completeLoop passed (a::l) = o.completeLoop (passed++[a]) l := by
 simp [completeLoop,h,ht,hs]

/-- An element that resolves its order stops the loop, and the head of the list is handed back. -/
lemma completeLoop_stop {q : Fin m} (h : a.order ≤ o.orderOut) (ht : a.target = some q)
 (hs : a.sustain = false) : ∃ b bs, b::bs = passed++a::l ∧
  o.completeLoop passed (a::l) = ({ o with reorder := bs },some b) := by
 cases passed with
 | nil => exact ⟨a,l,rfl,by simp [completeLoop,h,ht,hs]⟩
 | cons b bs => exact ⟨b,bs++a::l,rfl,by simp [completeLoop,h,ht,hs]⟩

lemma completeLoop_cons (o : QueueEntry m) (passed : List (Entry m)) (a : Entry m)
 (l : List (Entry m)) :
 o.completeLoop passed (a::l) = ({ o with reorder := passed++a::l },none) ∨
  (a.order ≤ o.orderOut ∧ a.target = none ∧
   o.completeLoop passed (a::l) = (o.orderRelease 1).completeLoop [] l) ∨
  (a.order ≤ o.orderOut ∧ a.target.isSome = true ∧ a.sustain = true ∧
   o.completeLoop passed (a::l) = o.completeLoop (passed++[a]) l) ∨
  (a.order ≤ o.orderOut ∧ a.target.isSome = true ∧ a.sustain = false ∧
   ∃ b bs, b::bs = passed++a::l ∧
    o.completeLoop passed (a::l) = ({ o with reorder := bs },some b)) := by
 by_cases hdue : a.order ≤ o.orderOut
 · cases ht : a.target with
   | none => exact .inr (.inl ⟨hdue,rfl,completeLoop_placeholder hdue ht⟩)
   | some q =>
    cases hs : a.sustain with
    | true => exact .inr (.inr (.inl ⟨hdue,rfl,rfl,completeLoop_sustain hdue ht hs⟩))
    | false => exact .inr (.inr (.inr ⟨hdue,rfl,rfl,completeLoop_stop hdue ht hs⟩))
 · exact .inl (completeLoop_late hdue)

lemma completeLoop_sublist (o : QueueEntry m) (passed l : List (Entry m)) :
 ((o.completeLoop passed l).2.toList++(o.completeLoop passed l).1.reorder).Sublist
  (passed++l) := by
 induction l generalizing o passed with
 | nil => simp [completeLoop]
 | cons a l ih =>
  obtain hc | ⟨-,-,hc⟩ | ⟨-,-,-,hc⟩ | ⟨-,-,-,b,bs,hb,hc⟩ := completeLoop_cons o passed a l
  · rw [hc]
    exact .refl _
  · rw [hc]
    exact (ih _ []).trans ((sublist_cons_self a l).trans (sublist_append_right _ _))
  · rw [hc]
    simpa using ih o (passed++[a])
  · rw [hc,← hb]
    exact .refl _

lemma mem_completeLoop
 (h : x ∈ (o.completeLoop passed l).2.toList++(o.completeLoop passed l).1.reorder) :
 x ∈ passed++l :=
 (completeLoop_sublist o passed l).subset h

lemma completeLoop_events (h : dropsNone o.orderOut (!passed.isEmpty) l = true) :
 (eventsOf ((o.completeLoop passed l).2.toList++(o.completeLoop passed l).1.reorder)) =
  eventsOf (passed++l) := by
 induction l generalizing o passed with
 | nil => simp [completeLoop]
 | cons a l ih =>
  rcases completeLoop_cons o passed a l with
   hc | ⟨hdue,ht,hc⟩ | ⟨hdue,ht,hs,hc⟩ | ⟨-,-,-,b,bs,hb,hc⟩ <;> rw [hc]
  · simp
  · simp only [dropsNone,hdue,ht,Bool.not_not,if_true,Bool.and_eq_true,List.isEmpty_iff] at h
    obtain ⟨rfl,h⟩ := h
    have hnext : dropsNone (o.orderRelease 1).orderOut (!([] : List (Entry m)).isEmpty) l = true :=
     h
    simpa [Entry.events,ht] using ih hnext
  · obtain ⟨q,hq⟩ := Option.isSome_iff_exists.mp ht
    simp only [dropsNone,hdue,hq,hs,if_true] at h
    have hnext : dropsNone o.orderOut (!(passed++[a]).isEmpty) l = true := by
     rw [show (passed++[a]).isEmpty = false by simp]
     exact h
    simpa using ih hnext
  · rw [← hb]
    simp

lemma reorderComplete_events (h : dropsNone o.orderOut false o.reorder = true) :
 eventsOf (o.reorderComplete.2.toList++o.reorderComplete.1.reorder) = eventsOf o.reorder := by
 have hnone : dropsNone o.orderOut (!([] : List (Entry m)).isEmpty) o.reorder = true := h
 exact completeLoop_events hnone

end CompleteLoop

end QueueEntry

-- release_order

lemma resolveLast_eq_some {order : Nat} (h : resolveLast order l = some l') :
 ∃ pre a post, l = pre++a::post ∧ a.order = order ∧
  l' = pre++{ a with sustain := false }::post ∧ (∀ x ∈ pre, x.order ≤ order) ∧
  ∀ x ∈ post.head?, order < x.order := by
 simp only [resolveLast] at h
 split at h
 · next a ha =>
   split_ifs at h with ho
   cases h
   have hlast := dropLast_append_getLast? a ha
   refine ⟨(l.takeWhile (·.order ≤ order)).dropLast,a,l.dropWhile (·.order ≤ order),?_,ho,rfl,?_,?_⟩
   · rw [← singleton_append,← append_assoc,hlast,takeWhile_append_dropWhile]
   · intro x hx
     simpa using mem_takeWhile_imp (dropLast_subset _ hx)
   · intro x hx
     have := head?_dropWhile_not (fun x : Entry m => decide (x.order ≤ order)) l
     rw [Option.mem_def.mp hx] at this
     simpa using this
 · simp at h

end Packages.OrderedQueue

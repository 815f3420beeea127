import Mathlib

/-!
# Circular doubly linked lists in a store

`Links` are the two nullable links of every object. `Path s a l b` says that the objects from `a`
over `l` to `b` are linked both ways, and `Ring s h l` that `l` hangs on the head `h` in a circle.
-/

namespace Packages

open Function List

variable {O : Type*} [DecidableEq O]

structure Links (O : Type*) where
 next : O → Option O
 prev : O → Option O

namespace Links

variable {s s' : Links O}

def setNext (s : Links O) (a : O) (v : Option O) : Links O :=
 { s with next := update s.next a v }

def setPrev (s : Links O) (a : O) (v : Option O) : Links O :=
 { s with prev := update s.prev a v }

/-- The object points to itself. -/
def reset (s : Links O) (x : O) : Links O := (s.setNext x (some x)).setPrev x (some x)

/-- The object points nowhere. -/
def clear (s : Links O) (x : O) : Links O := (s.setNext x none).setPrev x none

/-- `x` goes between `p` and `n`. -/
def insert (s : Links O) (x p n : O) : Links O :=
 (((s.setPrev n (some x)).setNext x (some n)).setPrev x (some p)).setNext p (some x)

/-- What is between `p` and `n` is left out. -/
def join (s : Links O) (p n : O) : Links O := (s.setPrev n (some p)).setNext p (some n)

omit [DecidableEq O] in
/-- From `a` over `l` to `b`. -/
def Path (s : Links O) : O → List O → O → Prop
 | a, [], b => s.next a = some b ∧ s.prev b = some a
 | a, x::l, b => (s.next a = some x ∧ s.prev x = some a) ∧ Path s x l b

omit [DecidableEq O] in
lemma Path.congr {a b : O} {l : List O} (h : Path s a l b)
 (hn : ∀ y ∈ a::l, s'.next y = s.next y) (hp : ∀ y ∈ l++[b], s'.prev y = s.prev y) :
 Path s' a l b := by
 induction l generalizing a with
 | nil =>
  obtain ⟨h1,h2⟩ := h
  exact ⟨(hn a (by simp)).trans h1,(hp b (by simp)).trans h2⟩
 | cons x l ih =>
  obtain ⟨⟨h1,h2⟩,h3⟩ := h
  refine ⟨⟨(hn a (by simp)).trans h1,(hp x (by simp)).trans h2⟩,ih h3 (fun y hy => ?_)
   fun y hy => ?_⟩
  · exact hn y (mem_cons_of_mem a hy)
  · exact hp y (mem_cons_of_mem x hy)

omit [DecidableEq O] in
lemma Path.append {a x b : O} {l1 l2 : List O} (h : Path s a (l1++x::l2) b) :
 Path s a l1 x ∧ Path s x l2 b := by
 induction l1 generalizing a with
 | nil => exact h
 | cons y l1 ih => exact ⟨⟨h.1,(ih h.2).1⟩,(ih h.2).2⟩

lemma Path.bypass {a x b : O} {l1 l2 : List O} (h1 : Path s a l1 x) (h2 : Path s x l2 b)
 (hnodup : (a::(l1++x::l2)).Nodup) (hb : b ∉ l1++x::l2) :
 ∃ p n, s.prev x = some p ∧ s.next x = some n ∧ p ∈ a::l1 ∧ n ∈ l2++[b] ∧
  Path (s.join p n) a (l1++l2) b := by
 induction l1 generalizing a with
 | nil =>
  obtain ⟨-,hprev⟩ := h1
  cases l2 with
  | nil => exact ⟨a,b,hprev,h2.1,by simp,by simp,by simp [Path,join,setNext,setPrev]⟩
  | cons y l2 =>
   obtain ⟨⟨hnext,-⟩,hrest⟩ := h2
   simp only [nil_append,nodup_cons,mem_cons,not_or] at hnodup hb
   obtain ⟨⟨-,hay,hal⟩,-,hyl,-⟩ := hnodup
   refine ⟨a,y,hprev,hnext,by simp,by simp,by simp [join,setNext,setPrev],
    hrest.congr (fun z hz => ?_) fun z hz => ?_⟩
   · refine update_of_ne ?_ ..
     rintro rfl
     exact (mem_cons.mp hz).elim hay hal
   · refine update_of_ne ?_ ..
     rintro rfl
     rcases mem_append.mp hz with hz | hz
     · exact hyl hz
     · exact hb.2.1 (mem_singleton.mp hz).symm
 | cons y l1 ih =>
  obtain ⟨hay,hrest⟩ := h1
  have hnd := (nodup_cons.mp hnodup).2
  have ha := (nodup_cons.mp hnodup).1
  obtain ⟨p,n,hprev,hnext,hp,hn,hpath⟩ := ih hrest hnd fun h => hb (mem_cons_of_mem y h)
  refine ⟨p,n,hprev,hnext,mem_cons_of_mem a hp,hn,⟨?_,?_⟩,hpath⟩
  · refine (update_of_ne ?_ ..).trans hay.1
    rintro rfl
    exact ha (mem_append_left _ hp)
  · refine (update_of_ne ?_ ..).trans hay.2
    rintro rfl
    rcases mem_append.mp hn with hn | hn
    · exact (nodup_cons.mp hnd).1 (mem_append_right _ (mem_cons_of_mem x hn))
    · exact hb (by simp [mem_singleton.mp hn])

omit [DecidableEq O] in
lemma Path.prev_eq {a b : O} {l : List O} (h : Path s a l b) :
 s.prev b = some ((a::l).getLast (cons_ne_nil a l)) := by
 induction l generalizing a with
 | nil => exact h.2
 | cons x l ih =>
  exact ih h.2

-- Walks

omit [DecidableEq O] in
/-- From `a` over `l` to `b` along the `next` links, whatever the others are. -/
def Walk (s : Links O) : O → List O → O → Prop
 | a, [], b => s.next a = some b
 | a, x::l, b => s.next a = some x ∧ Walk s x l b

section Walk

variable {a b x y z : O} {l l1 l2 : List O}

omit [DecidableEq O] in
lemma Path.walk (h : Path s a l b) : Walk s a l b := by
 induction l generalizing a with
 | nil => exact h.1
 | cons x l ih => exact ⟨h.1.1,ih h.2⟩

omit [DecidableEq O] in
lemma Walk.congr (h : Walk s a l b) (hn : ∀ y ∈ a::l, s'.next y = s.next y) : Walk s' a l b := by
 induction l generalizing a with
 | nil => exact (hn a (by simp)).trans h
 | cons x l ih =>
  exact ⟨(hn a (by simp)).trans h.1,ih h.2 fun y hy => hn y (mem_cons_of_mem a hy)⟩

omit [DecidableEq O] in
lemma Walk.next_mem (h : Walk s a l b) (hy : y ∈ a::l) : ∃ z, s.next y = some z ∧ z ∈ l++[b] := by
 induction l generalizing a with
 | nil =>
  rw [mem_singleton.mp hy]
  exact ⟨b,h,by simp⟩
 | cons x l ih =>
  obtain rfl | hy := mem_cons.mp hy
  · exact ⟨x,h.1,by simp⟩
  · obtain ⟨z,hz,hmem⟩ := ih h.2 hy
    exact ⟨z,hz,mem_cons_of_mem x hmem⟩

omit [DecidableEq O] in
lemma Walk.next_eq (h : Walk s a l b) : s.next a = some (l.headD b) := by
 cases l with
 | nil => exact h
 | cons x l => exact h.1

omit [DecidableEq O] in
lemma Walk.drop (h : Walk s a (l1++x::l2) b) : Walk s x l2 b := by
 induction l1 generalizing a with
 | nil => exact h.2
 | cons y l1 ih => exact ih h.2

omit [DecidableEq O] in
lemma Walk.of_next_eq (h : Walk s a l b) (hx : s.next x = s.next a) : Walk s x l b := by
 cases l with
 | nil => exact hx.trans h
 | cons y l => exact ⟨hx.trans h.1,h.2⟩

lemma Walk.push (h : Walk s a l b) (ha : a ∉ x::l) (hx : s.next x = s.next a) :
 Walk (s.setNext a (some x)) a (x::l) b := by
 refine ⟨update_self ..,(h.of_next_eq hx).congr fun y hy => ?_⟩
 exact update_of_ne (ne_of_mem_of_not_mem hy ha) ..

lemma Walk.skip (h : Walk s a (l1++x::l2) b) (hnodup : (a::(l1++x::l2)).Nodup)
 (hx : s.next x = some z) :
 Walk (s.setNext ((a::l1).getLast (cons_ne_nil a l1)) (some z)) a (l1++l2) b := by
 induction l1 generalizing a with
 | nil =>
  have hself : (s.setNext a (some z)).next a = some z := update_self ..
  have hsame : ∀ y ∈ l2, (s.setNext a (some z)).next y = s.next y := by
   intro y hy
   refine update_of_ne ?_ ..
   rintro rfl
   exact (nodup_cons.mp hnodup).1 (mem_cons_of_mem x hy)
  cases l2 with
  | nil => exact hself.trans (hx.symm.trans h.2)
  | cons y l2 => exact ⟨hself.trans (hx.symm.trans h.2.1),h.2.2.congr hsame⟩
 | cons y l1 ih =>
  rw [getLast_cons (cons_ne_nil y l1)]
  obtain ⟨ha,hrest⟩ := nodup_cons.mp hnodup
  refine ⟨(update_of_ne ?_ ..).trans h.1,ih h.2 hrest⟩
  intro heq
  have hlast := getLast_mem (cons_ne_nil y l1)
  rw [← heq] at hlast
  exact ha (mem_append_left (x::l2) hlast)

end Walk

-- Rings

omit [DecidableEq O] in
/-- The objects `l` hang on the head `h`, each once. -/
structure Ring (s : Links O) (h : O) (l : List O) : Prop where
 nodup : (h::l).Nodup
 path : Path s h l h

section Ring

variable {h x : O} {l l1 l2 : List O}

omit [DecidableEq O] in
lemma Ring.congr (hr : Ring s h l) (hn : ∀ y ∈ h::l, s'.next y = s.next y)
 (hp : ∀ y ∈ h::l, s'.prev y = s.prev y) : Ring s' h l := by
 refine ⟨hr.nodup,hr.path.congr hn fun y hy => hp y ?_⟩
 rcases mem_append.mp hy with hy | hy
 · exact mem_cons_of_mem h hy
 · exact mem_cons.mpr (.inl (mem_singleton.mp hy))

lemma Ring.frame_reset (hr : Ring s h l) (hx : x ∉ h::l) : Ring (s.reset x) h l := by
 refine hr.congr (fun y hy => ?_) fun y hy => ?_
 all_goals exact update_of_ne (ne_of_mem_of_not_mem hy hx) ..

lemma Ring.frame_clear (hr : Ring s h l) (hx : x ∉ h::l) : Ring (s.clear x) h l := by
 refine hr.congr (fun y hy => ?_) fun y hy => ?_
 all_goals exact update_of_ne (ne_of_mem_of_not_mem hy hx) ..

lemma Ring.frame_join {p n : O} (hr : Ring s h l) (hp : p ∉ h::l) (hn : n ∉ h::l) :
 Ring (s.join p n) h l := by
 refine hr.congr (fun y hy => ?_) fun y hy => ?_
 · exact update_of_ne (ne_of_mem_of_not_mem hy hp) ..
 · exact update_of_ne (ne_of_mem_of_not_mem hy hn) ..

lemma Ring.frame_insert {p n : O} (hr : Ring s h l) (hx : x ∉ h::l) (hp : p ∉ h::l)
 (hn : n ∉ h::l) : Ring (s.insert x p n) h l := by
 refine hr.congr (fun y hy => ?_) fun y hy => ?_
 · exact (update_of_ne (ne_of_mem_of_not_mem hy hp) ..).trans
    (update_of_ne (ne_of_mem_of_not_mem hy hx) ..)
 · exact (update_of_ne (ne_of_mem_of_not_mem hy hx) ..).trans
    (update_of_ne (ne_of_mem_of_not_mem hy hn) ..)

lemma ring_reset (s : Links O) (h : O) : Ring (s.reset h) h [] :=
 ⟨by simp,by simp [Path,reset,setNext,setPrev]⟩

omit [DecidableEq O] in
lemma Ring.exists_next (hr : Ring s h l) : ∃ n, s.next h = some n ∧ n ∈ h::l := by
 cases l with
 | nil => exact ⟨h,hr.path.1,by simp⟩
 | cons y l => exact ⟨y,hr.path.1.1,by simp⟩

lemma Ring.insert (hr : Ring s h l) (hx : x ∉ h::l) {n : O} (hn : s.next h = some n) :
 Ring (s.insert x h n) h (x::l) := by
 obtain ⟨hxh,hxl⟩ := not_or.mp fun hor => hx (mem_cons.mpr hor)
 obtain ⟨hhl,hl⟩ := nodup_cons.mp hr.nodup
 refine ⟨by simp [Ne.symm hxh,hhl,hxl,hl],?_⟩
 cases l with
 | nil =>
  obtain rfl := Option.some.inj (hr.path.1.symm.trans hn)
  simp [Path,Links.insert,setNext,setPrev,hxh,Ne.symm hxh]
 | cons y l =>
  obtain rfl := Option.some.inj (hr.path.1.1.symm.trans hn)
  have hxy : x ≠ y := fun hxy => hxl (by simp [hxy])
  refine ⟨by simp [Links.insert,setNext,setPrev],by simp [Links.insert,setNext,setPrev,hxh,
   Ne.symm hxy],hr.path.2.congr (fun z hz => ?_) fun z hz => ?_⟩
  · have hzh : z ≠ h := fun hzh => hhl (hzh ▸ hz)
    have hzx : z ≠ x := fun hzx => hxl (hzx ▸ hz)
    simp [Links.insert,setNext,setPrev,hzh,hzx]
  · have hzx : z ≠ x := by
     rintro rfl
     rcases mem_append.mp hz with hz | hz
     · exact hxl (mem_cons_of_mem y hz)
     · exact hxh (mem_singleton.mp hz)
    have hzy : z ≠ y := by
     rintro rfl
     rcases mem_append.mp hz with hz | hz
     · exact (nodup_cons.mp hl).1 hz
     · exact hhl (by simp [mem_singleton.mp hz])
    simp [Links.insert,setNext,setPrev,hzx,hzy]

lemma Ring.remove (hr : Ring s h (l1++x::l2)) :
 ∃ p n, s.prev x = some p ∧ s.next x = some n ∧ p ∈ h::(l1++l2) ∧ n ∈ h::(l1++l2) ∧
  Ring (s.join p n) h (l1++l2) := by
 obtain ⟨hpath1,hpath2⟩ := hr.path.append
 obtain ⟨p,n,hprev,hnext,hp,hn,hpath⟩ := hpath1.bypass hpath2 hr.nodup (nodup_cons.mp hr.nodup).1
 have hsub : (h::(l1++l2)).Sublist (h::(l1++x::l2)) :=
  ((Sublist.refl l1).append (sublist_cons_self x l2)).cons_cons h
 refine ⟨p,n,hprev,hnext,?_,?_,hr.nodup.sublist hsub,hpath⟩
 · rcases mem_cons.mp hp with rfl | hp
   · simp
   · exact mem_cons_of_mem h (mem_append_left l2 hp)
 · rcases mem_append.mp hn with hn | hn
   · exact mem_cons_of_mem h (mem_append_right l1 hn)
   · exact mem_cons.mpr (.inl (mem_singleton.mp hn))

omit [DecidableEq O] in
lemma Ring.next_ne_none (hr : Ring s h l) (hx : x ∈ l) : s.next x ≠ none := by
 obtain ⟨l1,l2,rfl⟩ := append_of_mem hx
 obtain ⟨-,hpath⟩ := hr.path.append
 cases l2 with
 | nil => rw [hpath.1]; simp
 | cons y l2 => rw [hpath.1.1]; simp

end Ring

end Links

end Packages

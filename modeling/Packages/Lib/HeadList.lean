import Packages.Lib.Linked

/-!
# Linked lists behind a head cell

A cell is the head, `none`, or a node, `some x`, and `next` gives the node a cell points to.
`Behind next cell l` says that the nodes behind a cell are `l`. The lemmas are about the ways a list
is changed by writing to cells: a node is put in, taken out, or a front part is cut off.
-/

namespace Packages.HeadList

open Function List Option

variable {ι : Type*} {next next' : Option ι → Option ι} {cell : Option ι} {l A B : List ι} {x : ι}

def Behind (next : Option ι → Option ι) (cell : Option ι) (l : List ι) : Prop :=
 Linked some (fun x => next (some x)) (next cell) l none

lemma behind_cons : Behind next cell (x::l) ↔ next cell = some x ∧ Behind next (some x) l := Iff.rfl

/-- The cell of the last node, or the cell where the list begins. -/
def last : Option ι → List ι → Option ι
 | cell,[] => cell
 | _,x::l => last (some x) l

lemma last_append (cell : Option ι) (A B : List ι) : last cell (A++B) = last (last cell A) B := by
 induction A generalizing cell with
 | nil => rfl
 | cons a A ih => exact ih (some a)

lemma last_mem (cell : Option ι) (hl : l ≠ []) : ∃ x ∈ l, last cell l = some x := by
 induction l generalizing cell with
 | nil => exact absurd rfl hl
 | cons a l ih =>
  cases l with
  | nil => exact ⟨a,mem_cons_self,rfl⟩
  | cons b l =>
   obtain ⟨x,hx,hlast⟩ := ih (some a) (cons_ne_nil b l)
   exact ⟨x,mem_cons_of_mem a hx,hlast⟩

lemma Behind.congr (h : Behind next cell l) (hcell : next' cell = next cell)
 (hl : ∀ x ∈ l, next' (some x) = next (some x)) : Behind next' cell l := by
 rw [Behind,hcell]
 exact Linked.congr h hl

lemma Behind.drop (h : Behind next cell (A++B)) : Behind next (last cell A) B := by
 induction A generalizing cell with
 | nil => exact h
 | cons a A ih => exact ih (behind_cons.mp h).2

/-- A list that ends has no node twice: the rest of a list follows from where it begins. -/
lemma Behind.nodup (h : Behind next cell l) : l.Nodup := by
 induction l generalizing cell with
 | nil => exact nodup_nil
 | cons a l ih =>
  have hrest := (behind_cons.mp h).2
  refine nodup_cons.mpr ⟨fun hmem => ?_,ih hrest⟩
  obtain ⟨A,B,rfl⟩ := append_of_mem hmem
  have hB : Behind next (some a) B := (behind_cons.mp hrest.drop).2
  have hlen : B.length < (A++a::B).length := by
   rw [length_append,length_cons]
   omega
  have heq :=
   (Linked.walk_eq hrest (Nat.le_refl _)).symm.trans (Linked.walk_eq hB (Nat.le_of_lt hlen))
  exact absurd (congrArg length heq) (Nat.ne_of_gt hlen)

-- Searching

/-- Go on while the next node passes the test; `none` after `fuel` nodes. -/
def advance (next : Option ι → Option ι) (p : ι → Bool) : Nat → Option ι → Option (Option ι)
 | 0,_ => none
 | fuel+1,cell =>
  match next cell with
  | none => some cell
  | some x => if p x = true then advance next p fuel (some x) else some cell

lemma advance_eq {p : ι → Bool} {fuel : Nat} (h : Behind next cell (A++B))
 (hA : ∀ x ∈ A, p x = true) (hB : ∀ x ∈ B.head?, p x = false) (hfuel : A.length < fuel) :
 advance next p fuel cell = some (last cell A) := by
 induction A generalizing cell fuel with
 | nil =>
  obtain ⟨fuel,rfl⟩ := Nat.exists_eq_add_of_lt hfuel
  rw [Nat.add_assoc,Nat.add_comm]
  cases B with
  | nil =>
   have hend : next cell = none := h
   simp [advance,hend,last]
  | cons b B =>
   have hnext : next cell = some b := (behind_cons.mp h).1
   simp [advance,hnext,hB b rfl,last]
 | cons a A ih =>
  cases fuel with
  | zero => exact absurd hfuel (Nat.not_lt_zero _)
  | succ fuel =>
   obtain ⟨hnext,hrest⟩ := behind_cons.mp h
   rw [advance,hnext]
   simp only [hA a mem_cons_self,if_true]
   exact ih hrest (fun x hx => hA x (mem_cons_of_mem a hx)) (Nat.lt_of_succ_lt_succ hfuel)

-- Writing

lemma last_ne_of_fresh (hfresh : ∀ y ∈ A, some y ≠ cell) (hA : A ≠ []) : last cell A ≠ cell := by
 obtain ⟨y,hy,hlast⟩ := last_mem cell hA
 rw [hlast]
 exact hfresh y hy

lemma Behind.insert [DecidableEq ι] (h : Behind next cell (A++B))
 (hfresh : ∀ y ∈ A++B, some y ≠ cell)
 (hnodup : (A++B).Nodup) (hx : x ∉ A++B) (hcell : some x ≠ cell) :
 Behind (update (update next (some x) (next (last cell A))) (last cell A) (some x))
  cell (A++x::B) := by
 induction A generalizing cell with
 | nil =>
  refine behind_cons.mpr ⟨update_self ..,?_⟩
  have hnext : ∀ y : Option ι, y ≠ cell → y ≠ some x →
   update (update next (some x) (next cell)) cell (some x) y = next y := by
   intro y hne hnx
   rw [update_of_ne hne,update_of_ne hnx]
  rw [Behind,last,update_of_ne hcell,update_self]
  refine Linked.congr h fun y hy => hnext (some y) (hfresh y hy) ?_
  rintro heq
  exact hx (some.inj heq ▸ hy)
 | cons a A ih =>
  obtain ⟨hnext,hrest⟩ := behind_cons.mp h
  obtain ⟨hnot,hnodup⟩ := nodup_cons.mp hnodup
  have hlast : cell ≠ last cell (a::A) :=
   (last_ne_of_fresh (fun y hy => hfresh y (mem_append_left B hy)) (cons_ne_nil a A)).symm
  refine behind_cons.mpr ⟨?_,ih hrest (fun y hy heq => hnot (some.inj heq ▸ hy)) hnodup
   (fun hmem => hx (mem_cons_of_mem a hmem)) fun heq => hx (some.inj heq ▸ mem_cons_self)⟩
  rw [update_of_ne hlast,update_of_ne hcell.symm,hnext]

lemma Behind.remove [DecidableEq ι] (h : Behind next cell (A++x::B))
 (hfresh : ∀ y ∈ A++x::B, some y ≠ cell) (hnodup : (A++x::B).Nodup) :
 Behind (update next (last cell A) (next (some x))) cell (A++B) := by
 induction A generalizing cell with
 | nil =>
  obtain ⟨hnext,hrest⟩ := behind_cons.mp h
  rw [Behind,last,nil_append,update_self]
  refine Linked.congr hrest fun y hy => update_of_ne ?_ ..
  exact hfresh y (mem_cons_of_mem x hy)
 | cons a A ih =>
  obtain ⟨hnext,hrest⟩ := behind_cons.mp h
  obtain ⟨hnot,hnodup⟩ := nodup_cons.mp hnodup
  have hlast : cell ≠ last cell (a::A) :=
   (last_ne_of_fresh (fun y hy => hfresh y (mem_append_left (x::B) hy)) (cons_ne_nil a A)).symm
  refine behind_cons.mpr ⟨?_,ih hrest (fun y hy heq => hnot (some.inj heq ▸ hy)) hnodup⟩
  rw [update_of_ne hlast,hnext]

lemma Behind.front (h : Behind next cell (A++B)) (hnodup : A.Nodup) (hA : A ≠ [])
 (hend : next' (last cell A) = none)
 (hsame : ∀ y ∈ A, some y ≠ last cell A → next' (some y) = next (some y)) :
 Linked some (fun x => next' (some x)) (next cell) A none := by
 induction A generalizing cell with
 | nil => exact absurd rfl hA
 | cons a A ih =>
  obtain ⟨hnext,hrest⟩ := behind_cons.mp h
  obtain ⟨hnot,hnodup⟩ := nodup_cons.mp hnodup
  refine ⟨hnext,?_⟩
  by_cases hnil : A = []
  · subst hnil
    exact hend
  · have hfresh : ∀ y ∈ A, some y ≠ some a := fun y hy heq => hnot (some.inj heq ▸ hy)
    have hne : some a ≠ last (some a) A := (last_ne_of_fresh hfresh hnil).symm
    show Linked some _ (next' (some a)) A none
    rw [hsame a mem_cons_self hne]
    exact ih hrest hnodup hnil hend fun y hy => hsame y (mem_cons_of_mem a hy)

lemma Behind.cut [DecidableEq ι] (h : Behind next none (A++B)) (hnodup : (A++B).Nodup)
 (hA : A ≠ []) :
 Behind (update (update next none (next (last none A))) (last none A) none) none B ∧
 Linked some (fun x => update (update next none (next (last none A)))
  (last none A) none (some x)) (next none) A none := by
 obtain ⟨a,ha,hlast⟩ := last_mem none hA
 constructor
 · have hB := h.drop
   rw [hlast] at hB ⊢
   rw [Behind,update_of_ne (some_ne_none a).symm,update_self]
   refine Linked.congr hB fun y hy => ?_
   have hne : some y ≠ some a := fun heq =>
    disjoint_of_nodup_append hnodup ha (some.inj heq ▸ hy)
   rw [update_of_ne hne,update_of_ne (some_ne_none y)]
 · refine h.front (List.Nodup.of_append_left hnodup) hA (update_self ..) fun y _ hne => ?_
   rw [update_of_ne hne,update_of_ne (some_ne_none y)]

end Packages.HeadList

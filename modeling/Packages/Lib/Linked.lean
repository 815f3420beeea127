import Mathlib

/-!
# Singly linked lists in a store

`Linked ptr next r l stop` says that following `next` from the reference `r` visits the
nodes `l` in order and then arrives at `stop`. `ptr` makes a reference of a node: the
identity for lists threaded through an index array, `some` for nullable pointers.
-/

namespace Packages

open Function

variable {N R : Type*}

/-- The walk from `r` along `next` visits `l` and ends at `stop`. -/
def Linked (ptr : N → R) (next : N → R) : R → List N → R → Prop
 | r, [], stop => r = stop
 | r, n::ns, stop => r = ptr n ∧ Linked ptr next (next n) ns stop

namespace Linked

variable {ptr next next' : N → R} {r stop : R} {l : List N}

@[simp] lemma nil_iff : Linked ptr next r [] stop ↔ r = stop := Iff.rfl

@[simp] lemma cons_iff {n : N} :
 Linked ptr next r (n::l) stop ↔ r = ptr n ∧ Linked ptr next (next n) l stop := Iff.rfl

lemma congr (h : Linked ptr next r l stop) (hn : ∀ n ∈ l, next' n = next n) :
 Linked ptr next' r l stop := by
 induction l generalizing r with
 | nil => exact h
 | cons n ns ih =>
  refine ⟨h.1,?_⟩
  rw [hn n (List.mem_cons_self ..)]
  exact ih h.2 fun m hm => hn m (List.mem_cons_of_mem _ hm)

lemma update_of_notMem [DecidableEq N] (h : Linked ptr next r l stop) {n : N} (hn : n ∉ l)
 (v : R) : Linked ptr (update next n v) r l stop :=
 h.congr fun _ hm => update_of_ne (ne_of_mem_of_not_mem hm hn) ..

lemma append_iff {l' : List N} : Linked ptr next r (l++l') stop ↔
 ∃ m, Linked ptr next r l m ∧ Linked ptr next m l' stop := by
 induction l generalizing r with
 | nil => simp
 | cons n ns ih => simp [ih,and_assoc]

/-- The nodes on the way from a nullable pointer, `fuel` of them at most. -/
def walk (next : N → Option N) : Nat → Option N → List N
 | 0, _ => []
 | _+1, none => []
 | fuel+1, some n => n::walk next fuel (next n)

variable {next : N → Option N} {r : Option N}

lemma walk_eq (h : Linked some next r l none) {fuel : Nat}
 (hfuel : l.length ≤ fuel) : walk next fuel r = l := by
 induction l generalizing r fuel with
 | nil =>
  obtain rfl : r = none := h
  cases fuel with
  | zero | succ fuel => rfl
 | cons n l ih =>
  obtain ⟨rfl,hrest⟩ := h
  cases fuel with
  | zero => exact absurd hfuel (Nat.not_succ_le_zero _)
  | succ fuel => exact congrArg (n::·) (ih hrest (Nat.le_of_succ_le_succ hfuel))

lemma splice [DecidableEq N] {r' : Option N} {last : N} {l' : List N}
 (h : Linked some next r (l++[last]) none) (h' : Linked some next r' l' none) (hl : last ∉ l)
 (hl' : last ∉ l') : Linked some (update next last r') r (l++last::l') none := by
 obtain ⟨x,hfirst,rfl,-⟩ := append_iff.mp h
 refine append_iff.mpr ⟨some last,hfirst.update_of_notMem hl r',rfl,?_⟩
 rw [update_self]
 exact h'.update_of_notMem hl' r'

lemma snoc [DecidableEq N] {stop : Option N} {last : N}
 (h : Linked some next r l (some last)) (hl : last ∉ l) :
 Linked some (update next last stop) r (l++[last]) stop := by
 refine append_iff.mpr ⟨some last,h.update_of_notMem hl stop,rfl,?_⟩
 exact update_self ..

lemma eq_nil_of_none (h : Linked some next none l none) : l = [] := by
 cases l with
 | nil => rfl
 | cons n l => exact absurd h.1 (Option.some_ne_none n).symm

end Linked

end Packages

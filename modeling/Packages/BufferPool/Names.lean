import Packages.BufferPool.Model
import Packages.Lib.Transition

/-!
# The names of pools

`odp_pool_create` writes the name into the first free entry of the table before it reserves memory,
and nothing takes a name out again. `odp_pool_lookup` compares names only.
-/

namespace Packages.BufferPool

open Function

/-- An entry of the pool table: its name up to the terminator, and whether `pool_shm` is valid.
`title` is the name its pool was created under. -/
structure Entry where
 name : List Char
 shm : Bool
 title : Option (List Char)
 deriving DecidableEq

def poolNameLen : Nat := 32

/-- What `strncpy` leaves of the name; `none` is `NULL`. -/
def entryName (name : Option (List Char)) : List Char := (name.getD []).take (poolNameLen-1)

/-- The entry is a pool that was created under the name. -/
def Entry.Exists (e : Entry) (name : List Char) : Prop := e.shm = true ∧ e.title = some name

instance (e : Entry) (name : List Char) : Decidable (e.Exists name) :=
 inferInstanceAs (Decidable (_ ∧ _))

/-- Calls on the table. `shm` says whether `odp_shm_reserve` succeeds, `idle` whether all buffers
are back in the pool. -/
inductive PoolCall (n : Nat) where
 | create (name : Option (List Char)) (params : PoolParam) (shm : Bool)
 | destroy (i : Fin n) (idle : Bool)

namespace Table

variable {n : Nat} {stride : PoolType → Nat} {tbl : Fin n → Entry}

def poolCreate (stride : PoolType → Nat) (tbl : Fin n → Entry) (name : Option (List Char))
 (params : PoolParam) (shm : Bool) : Option (Fin n) × (Fin n → Entry) :=
 if (poolConfig stride params).isNone then (none,tbl) else
  match (List.finRange n).find? fun i => !(tbl i).shm with
  | none => (none,tbl)
  | some i =>
   if shm then (some i,update tbl i ⟨entryName name,true,name⟩)
   else (none,update tbl i { tbl i with name := entryName name })

/-- `odp_pool_destroy`; `false` is -1. -/
def poolDestroy (tbl : Fin n → Entry) (i : Fin n) (idle : Bool) : Bool × (Fin n → Entry) :=
 if !(tbl i).shm || !idle then (false,tbl) else (true,update tbl i { tbl i with shm := false })

def poolLookup (tbl : Fin n → Entry) (name : List Char) : Option (Fin n) :=
 (List.finRange n).find? fun i => name = (tbl i).name

def step (stride : PoolType → Nat) (tbl : Fin n → Entry) : PoolCall n → Option (Fin n → Entry)
 | .create name params shm => some (poolCreate stride tbl name params shm).2
 | .destroy i idle => some (poolDestroy tbl i idle).2

def Init (tbl : Fin n → Entry) : Prop := ∀ i, tbl i = ⟨[],false,none⟩

/-- The tables of all histories. -/
abbrev Reachable (stride : PoolType → Nat) : (Fin n → Entry) → Prop :=
 Transition.Reach Init (step stride) fun _ _ => True

/-- The entry of a pool has what the name of the pool was cut to. -/
def Named (tbl : Fin n → Entry) : Prop :=
 ∀ i, (tbl i).shm = true → (tbl i).name = entryName (tbl i).title

lemma Named.update (h : Named tbl) {i : Fin n} {e : Entry}
 (he : e.shm = true → e.name = entryName e.title) : Named (update tbl i e) := by
 intro j
 by_cases hj : j = i
 · subst hj
   rwa [update_self]
 · rw [update_of_ne hj]
   exact h j

lemma Named.step (h : Named tbl) {c : PoolCall n} {tbl' : Fin n → Entry}
 (hs : step stride tbl c = some tbl') : Named tbl' := by
 cases c with
 | create name params shm =>
  cases hs
  fun_cases poolCreate stride tbl name params shm with
  | case1 | case2 => exact h
  | case3 => exact h.update fun _ => rfl
  | case4 _ i hfree =>
   have hdead := List.find?_some hfree
   exact h.update fun (hlive : (tbl i).shm = true) => by simp [hlive] at hdead
 | destroy i idle =>
  cases hs
  fun_cases poolDestroy tbl i idle with
  | case1 => exact h
  | case2 => exact h.update nofun

lemma reachable_named (h : Reachable stride tbl) : Named tbl :=
 h.invariant (P := Named) (fun _ h0 i => by simp [h0 i]) fun _ _ _ hn _ hs => hn.step hs

/-- **Lookup of pools.** After any calls, a name of 1 to 31 bytes is looked up right exactly if the
first entry that carries it is that of a pool and was not cut from a longer name. -/
theorem pool_lookup (h : Reachable stride tbl) {name : List Char} (hpos : name ≠ [])
 (hlen : name.length < poolNameLen) :
 ((∀ i, poolLookup tbl name = some i → (tbl i).Exists name) ∧
  (poolLookup tbl name = none → ∀ i, ¬(tbl i).Exists name)) ↔
 ∀ i, (tbl i).name = name → (∀ j < i, (tbl j).name ≠ name) →
  (tbl i).shm = true ∧ ∀ long, (tbl i).title = some long → long = name := by
 have hnamed := reachable_named h
 have hfirst : ∀ i, poolLookup tbl name = some i ↔ (tbl i).name = name ∧
  ∀ j < i, (tbl j).name ≠ name := by
  intro i
  rw [poolLookup,List.find?_eq_some_iff_getElem]
  constructor
  · rintro ⟨heq,k,hk,hki,hbefore⟩
    obtain rfl : k = i := by simpa [Fin.ext_iff] using hki
    refine ⟨(of_decide_eq_true heq).symm,fun j hj hname => ?_⟩
    simpa [hname] using hbefore j hj
  · rintro ⟨heq,hbefore⟩
    refine ⟨decide_eq_true heq.symm,i,by simp,by simp,fun j hj => ?_⟩
    simpa using (hbefore ⟨j,hj.trans i.isLt⟩ hj).symm
 constructor
 · rintro ⟨hfound,-⟩ i heq hbefore
   obtain ⟨hshm,htitle⟩ := hfound i ((hfirst i).mpr ⟨heq,hbefore⟩)
   exact ⟨hshm,fun long hlong => Option.some.inj (hlong.symm.trans htitle)⟩
 · refine fun hright => ⟨fun i hfind => ?_,fun hfind i hi => ?_⟩
   · obtain ⟨heq,hbefore⟩ := (hfirst i).mp hfind
     obtain ⟨hshm,hcut⟩ := hright i heq hbefore
     have hname := hnamed i hshm
     rw [heq] at hname
     cases htitle : (tbl i).title with
     | none =>
      rw [htitle] at hname
      exact absurd hname hpos
     | some long => exact ⟨hshm,htitle.trans (congrArg some (hcut long htitle))⟩
   · refine List.find?_eq_none.mp hfind i (List.mem_finRange i) (decide_eq_true ?_)
     rw [hnamed i hi.1,hi.2]
     exact (List.take_of_length_le (Nat.le_pred_of_lt hlen)).symm

/-- One pool of buffers is created, then destroyed. -/
def createDestroy : List (PoolCall 2) :=
 [.create (some ['a']) ⟨.buffer,4,64,0⟩ true,.destroy 0 true]

theorem pool_lookup_created : ∃ tbl : Fin 2 → Entry, Reachable (fun _ => 64) tbl ∧
 (∀ i, poolLookup tbl ['a'] = some i → (tbl i).Exists ['a']) ∧
  (poolLookup tbl ['a'] = none → ∀ i, ¬(tbl i).Exists ['a']) := by
 have hstart : Reachable (fun _ => 64) fun _ : Fin 2 => ⟨[],false,none⟩ := .start fun _ => rfl
 obtain ⟨tbl,hr,h0,h1⟩ := hstart.exists_of_run (createDestroy.take 1)
  (fun tbl => tbl 0 = ⟨['a'],true,some ['a']⟩ ∧ tbl 1 = ⟨[],false,none⟩) (by decide)
 exact ⟨tbl,hr,(pool_lookup hr (by decide) (by decide)).mpr (by simp [Fin.forall_fin_two,h0,h1])⟩

/-- The name outlives its pool. -/
theorem pool_lookup_destroyed : ∃ tbl : Fin 2 → Entry, Reachable (fun _ => 64) tbl ∧
 poolLookup tbl ['a'] = some 0 ∧ ∀ i, (tbl i).shm = false := by
 exact Transition.exists_of_start (fun _ => rfl) createDestroy _ (by decide)
  fun _ _ h => h

end Table

end Packages.BufferPool

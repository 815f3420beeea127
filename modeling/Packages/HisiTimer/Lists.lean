import Packages.HisiTimer.Model

/-!
# The list operations of the timers

`ListOf m core L` says that the links of a core's list are a skip list with the levels `L`. Adding,
deleting and breaking keep this, and touch only timers of the list and the one they are about.
-/

namespace Packages.HisiTimer

open Function HisiTimer.Mem Option List Nat

open HeadList SkipList

variable {n k : Nat}
variable {m m' m'' : Mem n k} {core : Fin k} {L : Nat → List (Fin n)} {tim : Fin n}
 {S : List (Fin n)}

structure ListOf (m : Mem n k) (core : Fin k) (L : Nat → List (Fin n)) : Prop where
 levels : Levels m.expire (m.currSkiplistDepth core) L
 linked : ∀ i, Behind (m.next core i) none (L i)

lemma ListOf.lt_fuel (h : ListOf m core L) : (L 0).length < m.fuel :=
 lt_succ_of_le (h.levels.nodup.length_le_card.trans_eq (Fintype.card_fin n))

-- Frames

/-- Only the head of one core and the links of some timers are written. -/
structure Touches (core : Fin k) (S : List (Fin n)) (m m' : Mem n k) : Prop where
 head : ∀ c, c ≠ core → m'.head c = m.head c
 depth : ∀ c, c ≠ core → m'.currSkiplistDepth c = m.currSkiplistDepth c
 slNext : ∀ t, t ∉ S → m'.slNext t = m.slNext t
 expire : m'.expire = m.expire

namespace Touches

lemma refl (core : Fin k) (S : List (Fin n)) (m : Mem n k) : Touches core S m m :=
 ⟨fun _ _ => rfl,fun _ _ => rfl,fun _ _ => rfl,rfl⟩

lemma trans (h : Touches core S m m') (h' : Touches core S m' m'') : Touches core S m m'' where
 head c hc := (h'.head c hc).trans (h.head c hc)
 depth c hc := (h'.depth c hc).trans (h.depth c hc)
 slNext t ht := (h'.slNext t ht).trans (h.slNext t ht)
 expire := h'.expire.trans h.expire

lemma setNext (m : Mem n k) (core : Fin k) (lvl : Nat) {cell : Option (Fin n)}
 (hcell : ∀ t ∈ cell, t ∈ S)
 (value : Option (Fin n)) : Touches core S m (m.setNext core lvl cell value) := by
 cases cell with
 | none => exact ⟨fun c hc => update_of_ne hc ..,fun _ _ => rfl,fun _ _ => rfl,rfl⟩
 | some tim =>
  refine ⟨fun _ _ => rfl,fun _ _ => rfl,fun t ht => update_of_ne ?_ ..,rfl⟩
  rintro rfl
  exact ht (hcell t rfl)

lemma setDepth (m : Mem n k) (core : Fin k) (S : List (Fin n)) (depth : Nat) :
 Touches core S m (m.setDepth core depth) :=
 ⟨fun _ _ => rfl,fun _ hc => update_of_ne hc ..,fun _ _ => rfl,rfl⟩

lemma setHeadExpire (m : Mem n k) (core : Fin k) (S : List (Fin n)) (first : Option (Fin n)) :
 Touches core S m (m.setHeadExpire core first) :=
 ⟨fun _ _ => rfl,fun _ _ => rfl,fun _ _ => rfl,rfl⟩

lemma listOf (h : Touches core S m m') {c : Fin k} (hc : c ≠ core) (hL : ListOf m c L)
 (hdisjoint : ∀ t ∈ L 0, t ∉ S) : ListOf m' c L where
 levels := by
  rw [h.expire,h.depth c hc]
  exact hL.levels
 linked i := by
  refine (hL.linked i).congr ?_ fun t ht => ?_
  · show m'.head c i = m.head c i
    rw [h.head c hc]
  · show m'.slNext t i = m.slNext t i
    rw [h.slNext t (hdisjoint t (hL.levels.mem_zero ht))]

lemma linked (h : Touches core S m m') {r : Option (Fin n)} {R : List (Fin n)}
 (hR : Linked some (fun t => m.slNext t 0) r R none) (hdisjoint : ∀ t ∈ R, t ∉ S) :
 Linked some (fun t => m'.slNext t 0) r R none :=
 hR.congr fun t ht => congrFun (h.slNext t (hdisjoint t ht)) 0

end Touches

-- Writing to one level

lemma next_setNext (m : Mem n k) (core : Fin k) (lvl : Nat) (cell value : Option (Fin n)) :
 (m.setNext core lvl cell value).next core lvl = update (m.next core lvl) cell value := by
 funext c
 cases cell with
 | none =>
  cases c with
  | none =>
   rw [update_self]
   show update m.head core (update (m.head core) lvl value) core lvl = value
   rw [update_self,update_self]
  | some t => rw [update_of_ne (some_ne_none t)]; rfl
 | some tim =>
  cases c with
  | none => rw [update_of_ne (some_ne_none tim).symm]; rfl
  | some t =>
   show update m.slNext tim (update (m.slNext tim) lvl value) t lvl = _
   by_cases ht : t = tim
   · subst ht
     rw [update_self,update_self,update_self]
   · rw [update_of_ne ht,update_of_ne fun heq => ht (some.inj heq)]
     rfl

lemma next_setNext_of_ne (m : Mem n k) (core : Fin k) {lvl i : Nat} (hi : i ≠ lvl)
 (cell value : Option (Fin n)) : (m.setNext core lvl cell value).next core i = m.next core i := by
 funext c
 cases cell with
 | none =>
  cases c with
  | none =>
   show update m.head core (update (m.head core) lvl value) core i = m.head core i
   rw [update_self,update_of_ne hi]
  | some t => rfl
 | some tim =>
  cases c with
  | none => rfl
  | some t =>
   show update m.slNext tim (update (m.slNext tim) lvl value) t i = m.slNext t i
   by_cases ht : t = tim
   · subst ht
     rw [update_self,update_of_ne hi]
   · rw [update_of_ne ht]

lemma setNext_depth (m : Mem n k) (core : Fin k) (lvl : Nat) (cell value : Option (Fin n)) :
 (m.setNext core lvl cell value).currSkiplistDepth = m.currSkiplistDepth := by
 cases cell with
 | none => rfl
 | some t => rfl

-- Searching

lemma prevAt_map_range (f : Nat → Option (Fin n)) (depth i : Nat) :
 prevAt ((range depth).map f) i = if i < depth then f i else none := by
 unfold prevAt
 rw [getD_eq_getElem?_getD,getElem?_map]
 split
 · next hi => rw [getElem?_range hi]; rfl
 · next hi => rw [getElem?_eq_none (by rw [length_range]; omega)]; rfl

lemma ListOf.prevEntries (h : ListOf m core L) (time : Nat) :
 ∃ prev, m.timerGetPrevEntries time core = some prev ∧
  ∀ i, prevAt prev i = last none (low m.expire time (L i)) := by
 have hnil : ∀ i, m.currSkiplistDepth core ≤ i → last none (low m.expire time (L i)) = none := by
  intro i hi
  rw [h.levels.high i hi]
  rfl
 have hdescend := descend_eq h.levels h.linked h.lt_fuel time (m.currSkiplistDepth core)
 rw [hnil _ le_rfl] at hdescend
 refine ⟨_,hdescend,fun i => ?_⟩
 rw [prevAt_map_range]
 split
 · rfl
 · next hi => exact (hnil i (Nat.le_of_not_lt hi)).symm

lemma last_cell_mem {A l : List (Fin n)} (hA : ∀ t ∈ A, t ∈ l) : ∀ t ∈ last none A, t ∈ l := by
 intro t ht
 by_cases hnil : A = []
 · rw [hnil] at ht
   cases ht
 · obtain ⟨x,hx,hlast⟩ := last_mem none hnil
   rw [hlast] at ht
   obtain rfl := some.inj ht
   exact hA x hx

lemma ListOf.low_cell (h : ListOf m core L) (time i : Nat) :
 ∀ t ∈ last none (low m.expire time (L i)), t ∈ L 0 :=
 last_cell_mem fun _ ht => h.levels.mem_zero (mem_low.mp ht).1

-- Adding

lemma next_link (m : Mem n k) (core : Fin k) (tim : Fin n) (prev : List (Option (Fin n)))
 (lvl : Nat) : (m.link core tim prev lvl).next core lvl =
  update (update (m.next core lvl) (some tim) (m.next core lvl (prevAt prev lvl)))
   (prevAt prev lvl) (some tim) := by
 rw [link,next_setNext,next_setNext]

lemma next_link_of_ne (m : Mem n k) (core : Fin k) (tim : Fin n) (prev : List (Option (Fin n)))
 {lvl i : Nat} (hi : i ≠ lvl) : (m.link core tim prev lvl).next core i = m.next core i := by
 rw [link,next_setNext_of_ne _ _ hi,next_setNext_of_ne _ _ hi]

lemma next_linkAll (core : Fin k) (tim : Fin n) (prev : List (Option (Fin n))) (lvl i : Nat)
 (m : Mem n k) : (linkAll core tim prev lvl m).next core i = if i ≤ lvl then
  update (update (m.next core i) (some tim) (m.next core i (prevAt prev i)))
   (prevAt prev i) (some tim)
  else m.next core i := by
 induction lvl generalizing m with
 | zero =>
  rw [linkAll]
  split
  · next hi =>
    obtain rfl := le_zero.mp hi
    exact next_link ..
  · next hi => exact next_link_of_ne _ _ _ _ (by omega)
 | succ lvl ih =>
  rw [linkAll,ih]
  by_cases hi : i ≤ lvl
  · rw [if_pos hi,if_pos (le_succ_of_le hi),next_link_of_ne _ _ _ _ (by omega)]
  · rw [if_neg hi]
    by_cases heq : i = lvl+1
    · subst heq
      rw [if_pos le_rfl,next_link]
    · rw [if_neg (by omega),next_link_of_ne _ _ _ _ heq]

lemma touches_linkAll {prev : List (Option (Fin n))} (hprev : ∀ i, ∀ t ∈ prevAt prev i, t ∈ S)
 (htim : tim ∈ S) (lvl : Nat) (m : Mem n k) : Touches core S m (linkAll core tim prev lvl m) := by
 have hlink : ∀ (m : Mem n k) (lvl : Nat), Touches core S m (m.link core tim prev lvl) := by
  intro m lvl
  have hself : ∀ t ∈ some tim, t ∈ S := by
   rintro t ht
   exact some.inj ht ▸ htim
  exact (Touches.setNext m core lvl hself _).trans (Touches.setNext _ core lvl (hprev lvl) _)
 induction lvl generalizing m with
 | zero => exact hlink m 0
 | succ lvl ih => exact (hlink m (lvl+1)).trans (ih _)

lemma linkAll_depth (core : Fin k) (tim : Fin n) (prev : List (Option (Fin n))) (lvl : Nat)
 (m : Mem n k) : (linkAll core tim prev lvl m).currSkiplistDepth = m.currSkiplistDepth := by
 have hlink : ∀ (m : Mem n k) (lvl : Nat),
  (m.link core tim prev lvl).currSkiplistDepth = m.currSkiplistDepth := by
  intro m lvl
  rw [link,setNext_depth,setNext_depth]
 induction lvl generalizing m with
 | zero => exact hlink m 0
 | succ lvl ih => exact (ih _).trans (hlink m (lvl+1))

lemma timerGetSkiplistLevel_le (rand depth : Nat) : timerGetSkiplistLevel rand depth ≤ depth :=
 (min_le_left _ _).trans (min_le_right _ _)

lemma timerAdd_spec (h : ListOf m core L) (htim : tim ∉ L 0) (rand : Nat) :
 ∃ m' L', m.timerAdd tim core rand = some m' ∧ ListOf m' core L' ∧ Touches core (tim::L 0) m m' ∧
  L' 0 = insertKey m.expire (L 0) tim ∧
  (m.currSkiplistDepth core ≤ maxSkiplistDepth → m'.currSkiplistDepth core ≤ maxSkiplistDepth) := by
 obtain ⟨prev,hprev,hcells⟩ := h.prevEntries (m.expire tim)
 have hlevel := timerGetSkiplistLevel_le rand (m.currSkiplistDepth core)
 generalize hlvl : timerGetSkiplistLevel rand (m.currSkiplistDepth core) = level at hlevel
 -- the depth is raised first
 obtain ⟨m1,hm1,hnext1,hexpire1,hdepth1,htouch1⟩ : ∃ m1 : Mem n k,
  (if level = m.currSkiplistDepth core then m.setDepth core (m.currSkiplistDepth core+1)
   else m) = m1 ∧
  m1.next = m.next ∧ m1.expire = m.expire ∧
  m1.currSkiplistDepth core =
   (if level = m.currSkiplistDepth core then m.currSkiplistDepth core+1
    else m.currSkiplistDepth core) ∧
  Touches core (tim::L 0) m m1 := by
  refine ⟨_,rfl,?_⟩
  split
  · exact ⟨rfl,rfl,update_self ..,Touches.setDepth ..⟩
  · exact ⟨rfl,rfl,rfl,Touches.refl ..⟩
 have htouch : Touches core (tim::L 0) m1 (linkAll core tim prev level m1) := by
  refine touches_linkAll (fun i t ht => ?_) mem_cons_self level m1
  rw [hcells i] at ht
  exact mem_cons_of_mem tim (h.low_cell _ i t ht)
 let L' : Nat → List (Fin n) := fun i => if i ≤ level then insertKey m.expire (L i) tim else L i
 let m2 := linkAll core tim prev level m1
 refine ⟨m2.setHeadExpire core (m2.head core 0),L',?_,⟨?_,fun i => ?_⟩,
  htouch1.trans (htouch.trans (Touches.setHeadExpire ..)),if_pos (zero_le level),fun hmax => ?_⟩
 · rw [timerAdd,hprev,map_some]
   simp only [hlvl,hm1]
   rfl
 · show Levels m2.expire (m2.currSkiplistDepth core) L'
   rw [htouch.expire,hexpire1,linkAll_depth,hdepth1]
   exact h.levels.insert htim hlevel
 · show Behind (m2.next core i) none (L' i)
   rw [next_linkAll,hnext1,hcells i]
   by_cases hi : i ≤ level
   · have hbehind : Behind (m.next core i) none
      (low m.expire (m.expire tim) (L i)++upp m.expire (m.expire tim) (L i)) := by
      rw [h.levels.split]
      exact h.linked i
     have hnot : tim ∉ low m.expire (m.expire tim) (L i)++upp m.expire (m.expire tim) (L i) := by
      rw [h.levels.split]
      exact fun hmem => htim (h.levels.mem_zero hmem)
     rw [if_pos hi,show L' i = _ from if_pos hi]
     exact hbehind.insert (fun _ _ => some_ne_none _) (h.levels.nodup_split _ i) hnot
      (some_ne_none tim)
   · rw [if_neg hi,show L' i = _ from if_neg hi]
     exact h.linked i
 · show m2.currSkiplistDepth core ≤ maxSkiplistDepth
   have hlt : level < maxSkiplistDepth := hlvl ▸ lt_of_le_of_lt (min_le_right _ _) (by decide)
   rw [linkAll_depth,hdepth1]
   split
   · next heq => exact heq ▸ hlt
   · exact hmax

end Packages.HisiTimer

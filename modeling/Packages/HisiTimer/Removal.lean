import Packages.HisiTimer.Lists

/-!
# Deleting a timer and breaking the list

`timer_del` finds a timer through its expiry time less one, which fails for zero: the search runs to
the end of the list. Breaking the list at the current time leaves the timers behind it in the list;
a level where no timer has expired is lost, but level 0 never is.
-/

namespace Packages.HisiTimer

open Function HisiTimer.Mem Nat Option List

open HeadList SkipList

variable {n k : Nat} {m m' : Mem n k} {core : Fin k} {L : Nat → List (Fin n)} {tim : Fin n}
variable {S : List (Fin n)} {prev : List (Option (Fin n))}

lemma ListOf.congr (h : ListOf m core L) (hnext : m'.next core = m.next core)
 (hexpire : m'.expire = m.expire) (hdepth : m'.currSkiplistDepth core = m.currSkiplistDepth core) :
 ListOf m' core L where
 levels := by
  rw [hexpire,hdepth]
  exact h.levels
 linked i := by
  rw [hnext]
  exact h.linked i

lemma ListOf.eq_nil (h : ListOf m core L) {i : Nat} (hi : m.head core i = none) : L i = [] := by
 cases hL : L i with
 | nil => rfl
 | cons t l =>
  have hbehind := h.linked i
  rw [hL] at hbehind
  exact absurd ((behind_cons.mp hbehind).1.symm.trans hi) (some_ne_none t)

-- Finding a timer

lemma mapM_eq_some {α β : Type} {f : α → Option β} {g : α → β} {l : List α}
 (h : ∀ a ∈ l, f a = some (g a)) : l.mapM f = some (l.map g) := by
 induction l with
 | nil => rfl
 | cons a l ih =>
  rw [mapM_cons,h a mem_cons_self,ih fun b hb => h b (mem_cons_of_mem a hb)]
  rfl

/-- What the search for a timer on one level finds: the cell before it, or one that is not. -/
structure Found (m : Mem n k) (core : Fin k) (L : Nat → List (Fin n)) (tim : Fin n) (i : Nat)
 (cell : Option (Fin n)) : Prop where
 mem : ∀ t ∈ cell, t ∈ L 0
 before : tim ∈ L i → ∃ A B, L i = A++tim::B ∧ cell = last none A
 absent : tim ∉ L i → m.next core i cell ≠ some tim

lemma word_pred {x : Nat} (hpos : 0 < x) (hx : x < 2^64) : (x+(2^64-1))%2^64 = x-1 := by
 omega

lemma ListOf.behind_upp (h : ListOf m core L) (time i : Nat) :
 Behind (m.next core i) (last none (low m.expire time (L i))) (upp m.expire time (L i)) := by
 have hall := h.linked i
 rw [← h.levels.split time i] at hall
 exact hall.drop

lemma ListOf.found (h : ListOf m core L) (hexpire : tim ∈ L 0 → 0 < m.expire tim)
 (hword : m.expire tim < 2^64) (i : Nat) :
 ∃ cell, advance (m.next core i) (fun t => decide (t ≠ tim ∧ m.expire t ≤ m.expire tim)) m.fuel
  (last none (low m.expire ((m.expire tim+(2^64-1))%2^64) (L i))) = some cell ∧
  Found m core L tim i cell := by
 by_cases hmem : tim ∈ L i
 · have hpos := hexpire (h.levels.mem_zero hmem)
   rw [word_pred hpos hword]
   obtain ⟨A,B,hAB,hadvance⟩ := advance_to h.levels h.linked h.lt_fuel hmem
    (m.expire tim-1) (sub_lt hpos one_pos)
   refine ⟨_,hadvance,last_cell_mem fun t ht => ?_,fun _ => ⟨A,B,hAB,rfl⟩,
    fun hnot => absurd hmem hnot⟩
   have hin : t ∈ L i := hAB ▸ mem_append_left _ ht
   exact h.levels.mem_zero hin
 · generalize (m.expire tim+(2^64-1))%2^64 = time
   have hlen : (upp m.expire time (L i)).length < m.fuel :=
    ((length_filter_le ..).trans (h.levels.sublist_zero i).length_le).trans_lt h.lt_fuel
   obtain ⟨A,B,hAB,-,-,hadvance⟩ := advance_total (h.behind_upp time i) hlen
    fun t => decide (t ≠ tim ∧ m.expire t ≤ m.expire tim)
   have hall : L i = (low m.expire time (L i)++A)++B := by
    rw [append_assoc,← hAB,h.levels.split]
   refine ⟨_,hadvance,?_,fun hin => absurd hin hmem,fun _ hnext => hmem ?_⟩
   · rw [← last_append]
     refine last_cell_mem fun t ht => ?_
     have hin : t ∈ L i := hall ▸ mem_append_left _ ht
     exact h.levels.mem_zero hin
   · rw [← last_append] at hnext
     have hrest : Behind (m.next core i) (last none (low m.expire time (L i)++A)) B := by
      have hwhole := h.linked i
      rw [hall] at hwhole
      exact hwhole.drop
     rw [hall]
     cases B with
     | nil => exact absurd (hrest.symm.trans hnext) (some_ne_none tim).symm
     | cons b B =>
      obtain rfl := some.inj ((behind_cons.mp hrest).1.symm.trans hnext)
      exact mem_append_right _ mem_cons_self

lemma ListOf.prevForNode (h : ListOf m core L) (tim : Fin n)
 (hexpire : tim ∈ L 0 → 0 < m.expire tim)
 (hword : m.expire tim < 2^64) : ∃ prev, m.timerGetPrevEntriesForNode tim core = some prev ∧
  ∀ i, i < m.currSkiplistDepth core → Found m core L tim i (prevAt prev i) := by
 obtain ⟨first,hfirst,hcells⟩ := h.prevEntries ((m.expire tim+(2^64-1))%2^64)
 choose cell hcell hfound using h.found hexpire hword
 refine ⟨(range (m.currSkiplistDepth core)).map cell,?_,fun i hi => ?_⟩
 · rw [timerGetPrevEntriesForNode,hfirst,bind_some]
   refine mapM_eq_some fun i _ => ?_
   rw [hcells i]
   exact hcell i
 · rw [prevAt_map_range,if_pos hi]
   exact hfound i

-- Deleting

/-- A link that leads to the timer leads past it. -/
def bypass (next : Option (Fin n) → Option (Fin n)) (cell : Option (Fin n)) (tim : Fin n) :
 Option (Fin n) → Option (Fin n) :=
 if next cell = some tim then update next cell (next (some tim)) else next

lemma next_unlink (m : Mem n k) (core : Fin k) (tim : Fin n) (prev : List (Option (Fin n)))
 (lvl : Nat) : (m.unlink core tim prev lvl).next core lvl =
  bypass (m.next core lvl) (prevAt prev lvl) tim := by
 unfold unlink bypass
 split
 · exact next_setNext ..
 · rfl

lemma next_unlink_of_ne (m : Mem n k) (core : Fin k) (tim : Fin n) (prev : List (Option (Fin n)))
 {lvl i : Nat} (hi : i ≠ lvl) : (m.unlink core tim prev lvl).next core i = m.next core i := by
 unfold unlink
 split
 · exact next_setNext_of_ne _ _ hi ..
 · rfl

lemma next_unlinkAll (core : Fin k) (tim : Fin n) (prev : List (Option (Fin n))) (lvl i : Nat)
 (m : Mem n k) :
 (unlinkAll core tim prev lvl m).next core i =
  if i < lvl then bypass (m.next core i) (prevAt prev i) tim else m.next core i := by
 induction lvl generalizing m with
 | zero => rw [if_neg (not_lt_zero i)]; rfl
 | succ lvl ih =>
  rw [unlinkAll,ih]
  by_cases hi : i < lvl
  · rw [if_pos hi,if_pos (lt_succ_of_lt hi),next_unlink_of_ne _ _ _ _ (by omega)]
  · rw [if_neg hi]
    by_cases heq : i = lvl
    · subst heq
      rw [if_pos (lt_succ_self i),next_unlink]
    · rw [if_neg (by omega),next_unlink_of_ne _ _ _ _ heq]

lemma unlink_frame (core : Fin k) (tim : Fin n) (m : Mem n k) (lvl : Nat)
 (hprev : ∀ t ∈ prevAt prev lvl, t ∈ S) : Touches core S m (m.unlink core tim prev lvl) ∧
 (m.unlink core tim prev lvl).currSkiplistDepth = m.currSkiplistDepth := by
 unfold unlink
 split
 · exact ⟨Touches.setNext m core lvl hprev _,setNext_depth ..⟩
 · exact ⟨Touches.refl ..,rfl⟩

lemma unlinkAll_frame (core : Fin k) (tim : Fin n) (lvl : Nat) (m : Mem n k)
 (hprev : ∀ i, i < lvl → ∀ t ∈ prevAt prev i, t ∈ S) :
 Touches core S m (unlinkAll core tim prev lvl m) ∧
 (unlinkAll core tim prev lvl m).currSkiplistDepth = m.currSkiplistDepth := by
 induction lvl generalizing m with
 | zero => exact ⟨Touches.refl ..,rfl⟩
 | succ lvl ih =>
  obtain ⟨htouch,hdepth⟩ := unlink_frame core tim m lvl (hprev lvl (lt_succ_self lvl))
  obtain ⟨htouch',hdepth'⟩ := ih (m.unlink core tim prev lvl) fun i hi => hprev i (lt_succ_of_lt hi)
  exact ⟨htouch.trans htouch',hdepth'.trans hdepth⟩

lemma shrink_spec (core : Fin k) (S : List (Fin n)) (lvl : Nat) (m : Mem n k)
 (hdepth : m.currSkiplistDepth core = lvl) (hhigh : ∀ i, lvl ≤ i → m.head core i = none) :
 (shrink core lvl m).next = m.next ∧ Touches core S m (shrink core lvl m) ∧
 (∀ i, (shrink core lvl m).currSkiplistDepth core ≤ i → m.head core i = none) ∧
 (shrink core lvl m).currSkiplistDepth core ≤ lvl := by
 induction lvl generalizing m with
 | zero => exact ⟨rfl,Touches.refl ..,fun i _ => hhigh i (zero_le i),hdepth.le⟩
 | succ lvl ih =>
  rw [shrink]
  split
  · next hnone =>
    obtain ⟨hnext,htouch,hrest,hle⟩ := ih (m.setDepth core (m.currSkiplistDepth core-1))
     (by rw [hdepth]; exact update_self ..) (fun i hi => by
      by_cases heq : i = lvl
      · exact heq ▸ hnone
      · exact hhigh i (by omega))
    exact ⟨hnext,(Touches.setDepth m core S _).trans htouch,hrest,le_succ_of_le hle⟩
  · exact ⟨rfl,Touches.refl ..,fun i hi => hhigh i (hdepth ▸ hi),hdepth.le⟩

lemma timerDel_spec (h : ListOf m core L) (hexpire : tim ∈ L 0 → 0 < m.expire tim)
 (hword : m.expire tim < 2^64) :
 ∃ m', m.timerDel tim core = some m' ∧ ListOf m' core (fun i => (L i).filter (· ≠ tim)) ∧
  Touches core (L 0) m m' ∧ m'.currSkiplistDepth core ≤ m.currSkiplistDepth core := by
 -- first the time of the head is set
 obtain ⟨m0,hm0,hL0,hexpire0,htouch0,hdepth0⟩ : ∃ m0 : Mem n k,
  (if m.head core 0 = some tim then m.setHeadExpire core (m.slNext tim 0) else m) = m0 ∧
  ListOf m0 core L ∧ m0.expire = m.expire ∧ Touches core (L 0) m m0 ∧
  m0.currSkiplistDepth = m.currSkiplistDepth := by
  refine ⟨_,rfl,?_⟩
  split
  · exact ⟨h.congr rfl rfl rfl,rfl,Touches.setHeadExpire ..,rfl⟩
  · exact ⟨h,rfl,Touches.refl ..,rfl⟩
 obtain ⟨prev,hprev,hfound⟩ := hL0.prevForNode tim (by rwa [hexpire0]) (by rwa [hexpire0])
 obtain ⟨htouch1,hdepth1⟩ := unlinkAll_frame core tim (m0.currSkiplistDepth core) m0
  fun i hi => (hfound i hi).mem
 let m1 := unlinkAll core tim prev (m0.currSkiplistDepth core) m0
 let L' : Nat → List (Fin n) := fun i => (L i).filter (· ≠ tim)
 have hL1 : ListOf m1 core L' := by
  refine ⟨?_,fun i => ?_⟩
  · rw [htouch1.expire,hdepth1]
    exact hL0.levels.remove tim
  · show Behind (m1.next core i) none ((L i).filter (· ≠ tim))
    rw [next_unlinkAll]
    by_cases hi : i < m0.currSkiplistDepth core
    · rw [if_pos hi,bypass]
      by_cases hmem : tim ∈ L i
      · obtain ⟨A,B,hAB,hcell⟩ := (hfound i hi).before hmem
        have hbehind := hL0.linked i
        have hnodup := hL0.levels.nodup_level i
        rw [hAB] at hbehind hnodup ⊢
        have hnext : m0.next core i (prevAt prev i) = some tim := by
         rw [hcell]
         exact (behind_cons.mp hbehind.drop).1
        rw [if_pos hnext,hcell,filter_ne_middle hnodup]
        exact hbehind.remove (fun _ _ => some_ne_none _) hnodup
      · rw [if_neg ((hfound i hi).absent hmem),filter_eq_self.mpr]
        · exact hL0.linked i
        · exact fun t ht => decide_eq_true fun heq => hmem (heq ▸ ht)
    · rw [if_neg hi]
      have hnil := hL0.levels.high i (Nat.le_of_not_lt hi)
      have hbehind := hL0.linked i
      rw [hnil] at hbehind ⊢
      exact hbehind
 obtain ⟨hnext2,htouch2,hhigh2,hle2⟩ := shrink_spec core (L 0) (m0.currSkiplistDepth core) m1
  (congrFun hdepth1 core) fun i hi => by
   have hnil : L' i = [] := by
    show (L i).filter (· ≠ tim) = []
    rw [hL0.levels.high i hi]
    rfl
   have hbehind := hL1.linked i
   rw [hnil] at hbehind
   exact hbehind
 refine ⟨shrink core (m0.currSkiplistDepth core) m1,?_,⟨?_,fun i => ?_⟩,
  htouch0.trans (htouch1.trans htouch2),hdepth0 ▸ hle2⟩
 · rw [timerDel]
   simp only [hm0,hprev,map_some]
   rfl
 · rw [htouch2.expire]
   exact hL1.levels.shrink fun i hi => hL1.eq_nil (hhigh2 i hi)
 · rw [hnext2]
   exact hL1.linked i

-- Breaking

lemma next_breakLevel (m : Mem n k) (core : Fin k) (prev : List (Option (Fin n))) (lvl : Nat) :
 (m.breakLevel core prev lvl).next core lvl =
  update (update (m.next core lvl) none (m.next core lvl (prevAt prev lvl)))
   (prevAt prev lvl) none := by
 rw [breakLevel,next_setNext]
 split
 · show update ((m.setNext core lvl none _).next core lvl) _ none = _
   rw [next_setNext]
 · rw [next_setNext]

lemma next_breakLevel_of_ne (m : Mem n k) (core : Fin k) (prev : List (Option (Fin n)))
 {lvl i : Nat} (hi : i ≠ lvl) : (m.breakLevel core prev lvl).next core i = m.next core i := by
 rw [breakLevel,next_setNext_of_ne _ _ hi]
 split
 · show (m.setNext core lvl none _).next core i = _
   rw [next_setNext_of_ne _ _ hi]
 · rw [next_setNext_of_ne _ _ hi]

lemma next_breakAll (core : Fin k) (prev : List (Option (Fin n))) (lvl i : Nat) (m : Mem n k) :
 (breakAll core prev lvl m).next core i = if i < lvl then
  update (update (m.next core i) none (m.next core i (prevAt prev i))) (prevAt prev i) none
  else m.next core i := by
 induction lvl generalizing m with
 | zero => rw [if_neg (not_lt_zero i)]; rfl
 | succ lvl ih =>
  rw [breakAll,ih]
  by_cases hi : i < lvl
  · rw [if_pos hi,if_pos (lt_succ_of_lt hi),next_breakLevel_of_ne _ _ _ (by omega)]
  · rw [if_neg hi]
    by_cases heq : i = lvl
    · subst heq
      rw [if_pos (lt_succ_self i),next_breakLevel]
    · rw [if_neg (by omega),next_breakLevel_of_ne _ _ _ heq]

lemma breakLevel_frame (core : Fin k) (m : Mem n k) (lvl : Nat)
 (hprev : ∀ t ∈ prevAt prev lvl, t ∈ S) : Touches core S m (m.breakLevel core prev lvl) ∧
 (m.breakLevel core prev lvl).currSkiplistDepth core =
  if m.next core lvl (prevAt prev lvl) = none then m.currSkiplistDepth core-1
  else m.currSkiplistDepth core := by
 have hnone : ∀ t ∈ (none : Option (Fin n)), t ∈ S := fun t ht => nomatch ht
 rw [breakLevel]
 have hfirst := Touches.setNext m core lvl hnone (m.next core lvl (prevAt prev lvl))
 split
 · refine ⟨(hfirst.trans (Touches.setDepth ..)).trans (Touches.setNext _ core lvl hprev _),?_⟩
   rw [setNext_depth]
   exact update_self ..
 · refine ⟨hfirst.trans (Touches.setNext _ core lvl hprev _),?_⟩
   rw [setNext_depth]
   rfl

lemma breakAll_frame (lvl : Nat) (m : Mem n k) (hprev : ∀ i, ∀ t ∈ prevAt prev i, t ∈ S) :
 Touches core S m (breakAll core prev lvl m) := by
 induction lvl generalizing m with
 | zero => exact Touches.refl ..
 | succ lvl ih => exact (breakLevel_frame core m lvl (hprev lvl)).1.trans (ih _)

/-- Going down, the depth follows the empty levels at the top: a level above an empty one is
empty. -/
lemma breakAll_depth {upper : Nat → Prop} (hup : ∀ i, upper i → upper (i+1)) (lvl : Nat)
 (m : Mem n k) (hrest : ∀ i, i < lvl → (m.next core i (prevAt prev i) = none ↔ upper i))
 (hhigh : ∀ i, m.currSkiplistDepth core ≤ i → upper i) (hle : lvl ≤ m.currSkiplistDepth core)
 (htop : lvl < m.currSkiplistDepth core → ¬ upper (m.currSkiplistDepth core-1)) :
 ∀ i, (breakAll core prev lvl m).currSkiplistDepth core ≤ i → upper i := by
 have hmono : ∀ i j, i ≤ j → upper i → upper j := by
  intro i j hij hi
  induction hij with
  | refl => exact hi
  | step _ ih => exact hup _ ih
 induction lvl generalizing m with
 | zero => exact hhigh
 | succ lvl ih =>
  obtain ⟨-,hdepth⟩ := breakLevel_frame core (S := finRange n) m lvl
   (fun t (_ : t ∈ prevAt prev lvl) => mem_finRange t)
  have hrest' : ∀ i, i < lvl → ((m.breakLevel core prev lvl).next core i (prevAt prev i) = none ↔
   upper i) := by
   intro i hi
   rw [next_breakLevel_of_ne _ _ _ (by omega)]
   exact hrest i (lt_succ_of_lt hi)
  rw [breakAll]
  by_cases hempty : upper lvl
  · rw [if_pos ((hrest lvl (lt_succ_self lvl)).mpr hempty)] at hdepth
    -- nothing above this level was left, so the depth is just above it
    have heq : m.currSkiplistDepth core = lvl+1 := by
     by_contra hne
     exact htop (by omega) (hmono lvl _ (by omega) hempty)
    refine ih _ hrest' (fun i hi => ?_) (by omega) (fun hlt => by omega)
    exact hmono lvl i (by omega) hempty
  · rw [if_neg fun hnone => hempty ((hrest lvl (lt_succ_self lvl)).mp hnone)] at hdepth
    refine ih _ hrest' (fun i hi => hhigh i (by omega)) (by omega) fun _ => ?_
    rw [hdepth]
    by_cases heq : m.currSkiplistDepth core = lvl+1
    · rw [heq]
      exact hempty
    · exact htop (by omega)

lemma ListOf.rest_eq_none (h : ListOf m core L) (time i : Nat) :
 m.next core i (last none (low m.expire time (L i))) = none ↔ upp m.expire time (L i) = [] := by
 have hbehind := h.behind_upp time i
 constructor
 · intro hnone
   cases hupp : upp m.expire time (L i) with
   | nil => rfl
   | cons t l =>
    rw [hupp] at hbehind
    exact absurd ((behind_cons.mp hbehind).1.symm.trans hnone) (some_ne_none t)
 · intro hnil
   rw [hnil] at hbehind
   exact hbehind

lemma breakList_spec (h : ListOf m core L) {time : Nat} (hfirst : m.head core 0 = some tim)
 (hexpired : m.expire tim ≤ time) :
 ∃ m' L', m.breakList core time = some m' ∧ ListOf m' core L' ∧ Touches core (L 0) m m' ∧
  Linked some (fun t => m'.slNext t 0) (some tim) (low m.expire time (L 0)) none ∧
  L' 0 = upp m.expire time (L 0) := by
 obtain ⟨prev,hprev,hcells⟩ := h.prevEntries time
 have hcell_mem : ∀ i, ∀ t ∈ prevAt prev i, t ∈ L 0 := by
  intro i
  rw [hcells i]
  exact h.low_cell time i
 let m1 := breakAll core prev (m.currSkiplistDepth core) m
 let L' : Nat → List (Fin n) :=
  fun i => if low m.expire time (L i) = [] then [] else upp m.expire time (L i)
 have htouch : Touches core (L 0) m m1 := breakAll_frame _ m hcell_mem
 have hlow : low m.expire time (L 0) ≠ [] := by
  have hbehind := h.linked 0
  cases hL : L 0 with
  | nil =>
   rw [hL] at hbehind
   exact absurd (hfirst.symm.trans hbehind) (some_ne_none tim)
  | cons t l =>
   rw [hL] at hbehind
   obtain rfl := some.inj ((behind_cons.mp hbehind).1.symm.trans hfirst)
   exact ne_nil_of_mem (mem_low.mpr ⟨mem_cons_self,hexpired⟩)
 have hpos : 0 < m.currSkiplistDepth core := by
  by_contra hzero
  exact hlow (by rw [h.levels.high 0 (by omega)]; rfl)
 -- the link of each level
 have hnext : ∀ i, i < m.currSkiplistDepth core → m1.next core i =
  update (update (m.next core i) none
   (m.next core i (last none (low m.expire time (L i)))))
   (last none (low m.expire time (L i))) none := by
  intro i hi
  rw [next_breakAll,if_pos hi,hcells i]
 have hsplit :
  ∀ i, Behind (m.next core i) none (low m.expire time (L i)++upp m.expire time (L i)) := by
  intro i
  rw [h.levels.split]
  exact h.linked i
 have hdepth : ∀ i, m1.currSkiplistDepth core ≤ i → upp m.expire time (L i) = [] := by
  refine breakAll_depth (fun i hnil => ?_) _ m (fun i _ => ?_) (fun i hi => ?_) le_rfl
   fun hlt => absurd hlt (lt_irrefl _)
  · exact sublist_nil.mp (hnil ▸ (h.levels.sublist i).filter _)
  · rw [hcells i]
    exact h.rest_eq_none time i
  · rw [h.levels.high i hi]
    rfl
 refine ⟨m1,L',?_,⟨?_,fun i => ?_⟩,htouch,?_,if_neg hlow⟩
 · rw [breakList,hprev,map_some]
 · rw [htouch.expire]
   exact h.levels.cut time hdepth
 · by_cases hi : i < m.currSkiplistDepth core
   · rw [hnext i hi]
     by_cases hnil : low m.expire time (L i) = []
     · rw [show L' i = [] from if_pos hnil,hnil]
       exact update_self ..
     · rw [show L' i = _ from if_neg hnil]
       exact ((hsplit i).cut (h.levels.nodup_split time i) hnil).1
   · have hempty := h.levels.high i (Nat.le_of_not_lt hi)
     have hbehind := h.linked i
     rw [hempty] at hbehind
     rw [next_breakAll,if_neg hi,show L' i = [] from if_pos (by rw [hempty]; rfl)]
     exact hbehind
 · have hfront := ((hsplit 0).cut (h.levels.nodup_split time 0) hlow).2
   rw [← hnext 0 hpos] at hfront
   rw [← hfirst]
   exact hfront

end Packages.HisiTimer

import Packages.HisiTimer.Removal

/-!
# Where the timers are

A timer is on the list of one core, on the run list of one core, or on none. `Shape` says so,
together with the form of the lists; each of the operations on the lists keeps it and moves its
timer.
-/

namespace Packages.HisiTimer

open Function Option

open HeadList SkipList

variable {n k : Nat}

inductive Place (k : Nat)
 | list (core : Fin k)
 | run (core : Fin k)
 deriving DecidableEq

lemma Place.run_ne_list (c d : Fin k) : Place.run c ≠ Place.list d := nofun

/-- The levels of the lists, the run lists, and the place of each timer. -/
structure Layout (n k : Nat) where
 list : Fin k → Nat → List (Fin n)
 run : Fin k → List (Fin n)
 place : Fin n → Option (Place k)

/-- `rest` is where the run list of each core begins. -/
structure Shape (m : Mem n k) (rest : Fin k → Option (Fin n)) (g : Layout n k) : Prop where
 lists : ∀ c, ListOf m c (g.list c)
 onList : ∀ c t, t ∈ g.list c 0 ↔ g.place t = some (.list c)
 onRun : ∀ c t, t ∈ g.run c ↔ g.place t = some (.run c)
 runs : ∀ c, Linked some (fun t => m.slNext t 0) (rest c) (g.run c) none
 nodup : ∀ c, (g.run c).Nodup
 word : ∀ t, m.expire t < 2^64
 positive : ∀ t c, g.place t = some (.list c) → 0 < m.expire t

variable {m m' : Mem n k} {rest rest' : Fin k → Option (Fin n)} {g : Layout n k} {tim : Fin n}
 {core : Fin k}

namespace Shape

section

variable (h : Shape m rest g)

include h

lemma list_ne {c d : Fin k} (hne : c ≠ d) {t : Fin n} (hc : t ∈ g.list c 0) : t ∉ g.list d 0 := by
 intro hd
 have heq := ((h.onList c t).mp hc).symm.trans ((h.onList d t).mp hd)
 exact hne (Place.list.inj (some.inj heq))

lemma run_notMem {c d : Fin k} {t : Fin n} (hc : t ∈ g.run c) : t ∉ g.list d 0 := by
 intro hd
 have heq := ((h.onRun c t).mp hc).symm.trans ((h.onList d t).mp hd)
 exact Place.run_ne_list c d (some.inj heq)

lemma run_eq_nil (hrest : rest core = none) : g.run core = [] := by
 have hrun := h.runs core
 rw [hrest] at hrun
 exact hrun.eq_nil_of_none

lemma congr (hhead : m'.head = m.head) (hslNext : m'.slNext = m.slNext)
 (hexpire : m'.expire = m.expire) (hdepth : m'.currSkiplistDepth = m.currSkiplistDepth) :
 Shape m' rest g where
 __ := h
 lists c := by
  refine (h.lists c).congr ?_ hexpire (congrFun hdepth c)
  funext i cell
  cases cell with
  | none => exact congrFun (congrFun hhead c) i
  | some t => exact congrFun (congrFun hslNext t) i
 runs c := by
  rw [hslNext]
  exact h.runs c
 word := hexpire ▸ h.word
 positive := hexpire ▸ h.positive

lemma move {S : List (Fin n)} (htouch : Touches core S m m') {L' : Nat → List (Fin n)}
 (hL' : ListOf m' core L') {place : Fin n → Option (Place k)}
 (hS : ∀ t ∈ S, g.place t = none ∨ g.place t = some (.list core))
 (honList : ∀ t, t ∈ L' 0 ↔ place t = some (.list core))
 (hother : ∀ t p, p ≠ .list core → (place t = some p ↔ g.place t = some p))
 (hpositive : ∀ t, t ∈ L' 0 → 0 < m.expire t) :
 Shape m' rest ⟨update g.list core L',g.run,place⟩ := by
 have hlist_ne : ∀ c, c ≠ core → (Place.list c : Place k) ≠ .list core :=
  fun c hc heq => hc (Place.list.inj heq)
 refine ⟨fun c => ?_,fun c t => ?_,fun c t => ?_,fun c => ?_,h.nodup,htouch.expire ▸ h.word,
  fun t c ht => ?_⟩
 · by_cases hc : c = core
   · subst hc
     show ListOf m' c (update g.list c L' c)
     rw [update_self]
     exact hL'
   · show ListOf m' c (update g.list core L' c)
     rw [update_of_ne hc]
     refine htouch.listOf hc (h.lists c) fun t ht hmem => ?_
     have hplace := (h.onList c t).mp ht
     obtain hnone | hcore := hS t hmem
     · rw [hnone] at hplace
       cases hplace
     · exact hlist_ne c hc (some.inj (hplace.symm.trans hcore))
 · show t ∈ update g.list core L' c 0 ↔ place t = some (.list c)
   by_cases hc : c = core
   · subst hc
     rw [update_self]
     exact honList t
   · rw [update_of_ne hc,hother t _ (hlist_ne c hc)]
     exact h.onList c t
 · show t ∈ g.run c ↔ place t = some (.run c)
   rw [hother t _ (Place.run_ne_list c core)]
   exact h.onRun c t
 · refine htouch.linked (h.runs c) fun t ht hmem => ?_
   have hplace := (h.onRun c t).mp ht
   obtain hnone | hcore := hS t hmem
   · rw [hnone] at hplace
     cases hplace
   · exact Place.run_ne_list c core (some.inj (hplace.symm.trans hcore))
 · rw [htouch.expire]
   change place t = some (.list c) at ht
   by_cases hc : c = core
   · subst hc
     exact hpositive t ((honList t).mpr ht)
   · exact h.positive t c ((hother t _ (hlist_ne c hc)).mp ht)

lemma del (tim : Fin n) (core : Fin k) :
 ∃ m' g', m.timerDel tim core = some m' ∧ Shape m' rest g' ∧ m'.expire = m.expire ∧
  g'.place = update g.place tim
   (if g.place tim = some (.list core) then none else g.place tim) := by
 obtain ⟨m',hdel,hL',htouch,-⟩ := timerDel_spec (h.lists core)
  (fun ht => h.positive tim core ((h.onList core tim).mp ht)) (h.word tim)
 have hmem : ∀ t, t ∈ (g.list core 0).filter (· ≠ tim) ↔ t ∈ g.list core 0 ∧ t ≠ tim := fun t => by
  rw [List.mem_filter,decide_eq_true_eq]
 refine ⟨m',⟨update g.list core _,g.run,update g.place tim
  (if g.place tim = some (.list core) then none else g.place tim)⟩,hdel,h.move htouch hL'
  (fun t ht => .inr ((h.onList core t).mp ht)) (fun t => ?_)
  (fun t p hp => ?_) (fun t ht => ?_),htouch.expire,rfl⟩
 · rw [hmem t,h.onList]
   by_cases ht : t = tim
   · subst ht
     rw [update_self]
     split
     · exact iff_of_false (fun hboth => hboth.2 rfl) (some_ne_none _).symm
     · next hnot => exact iff_of_false (fun hboth => hboth.2 rfl) hnot
   · rw [update_of_ne ht,and_iff_left ht]
 · by_cases ht : t = tim
   · subst ht
     rw [update_self]
     split
     · next hcore =>
       rw [hcore]
       exact iff_of_false (some_ne_none _).symm fun heq => hp (some.inj heq).symm
     · rfl
   · rw [update_of_ne ht]
 · exact h.positive t core ((h.onList core t).mp ((hmem t).mp ht).1)

lemma add (hnone : g.place tim = none) (hpos : 0 < m.expire tim) (core : Fin k) (rand : Nat) :
 ∃ m' g', m.timerAdd tim core rand = some m' ∧ Shape m' rest g' ∧ m'.expire = m.expire ∧
  g'.place = update g.place tim (some (.list core)) := by
 have hnot : tim ∉ g.list core 0 := by
  rw [h.onList,hnone]
  exact (some_ne_none _).symm
 obtain ⟨m',L',hadd,hL',htouch,hzero,-⟩ := timerAdd_spec (h.lists core) hnot rand
 have hmem : ∀ t, t ∈ L' 0 ↔ t = tim ∨ t ∈ g.list core 0 := fun t => by
  rw [hzero,mem_insertKey (h.lists core).levels.sorted]
 refine ⟨m',⟨update g.list core L',g.run,update g.place tim (some (.list core))⟩,hadd,
  h.move htouch hL' (fun t ht => ?_) (fun t => ?_) (fun t p hp => ?_) (fun t ht => ?_),
  htouch.expire,rfl⟩
 · obtain rfl | ht := List.mem_cons.mp ht
   · exact .inl hnone
   · exact .inr ((h.onList core t).mp ht)
 · rw [hmem t]
   by_cases ht : t = tim
   · subst ht
     rw [update_self]
     exact iff_of_true (.inl rfl) rfl
   · rw [update_of_ne ht,or_iff_right ht]
     exact h.onList core t
 · by_cases ht : t = tim
   · subst ht
     rw [update_self,hnone]
     exact iff_of_false (fun heq => hp (some.inj heq).symm) (some_ne_none _).symm
   · rw [update_of_ne ht]
 · obtain rfl | ht := (hmem t).mp ht
   · exact hpos
   · exact h.positive t core ((h.onList core t).mp ht)

lemma write (hnot : ∀ c, g.place tim ≠ some (.list c)) {expire : Nat}
 (hword : expire < 2^64) : Shape { m with expire := update m.expire tim expire } rest g := by
 have hother : ∀ c t, t ∈ g.list c 0 → update m.expire tim expire t = m.expire t := by
  intro c t ht
  refine update_of_ne ?_ ..
  rintro rfl
  exact hnot c ((h.onList c t).mp ht)
 refine ⟨fun c => ⟨(h.lists c).levels.congr (hother c),fun i => ?_⟩,h.onList,h.onRun,h.runs,h.nodup,
  fun t => ?_,fun t c ht => ?_⟩
 · refine ((h.lists c).linked i).congr rfl fun t _ => rfl
 · show update m.expire tim expire t < 2^64
   by_cases ht : t = tim
   · subst ht
     rw [update_self]
     exact hword
   · rw [update_of_ne ht]
     exact h.word t
 · show 0 < update m.expire tim expire t
   rw [hother c t ((h.onList c t).mpr ht)]
   exact h.positive t c ht

lemma break_ (hrest : rest core = none) {time : Nat}
 (hfirst : m.head core 0 = some tim) (hexpired : m.expire tim ≤ time) :
 ∃ m' g', m.breakList core time = some m' ∧ Shape m' (update rest core (some tim)) g' ∧
  m'.expire = m.expire ∧ ∀ t, g'.place t =
   if g.place t = some (.list core) ∧ m.expire t ≤ time then some (.run core) else g.place t := by
 obtain ⟨m',L',hbreak,hL',htouch,hrun,hzero⟩ := breakList_spec (h.lists core) hfirst hexpired
 have hempty := h.run_eq_nil hrest
 have hnoRun : ∀ t, g.place t ≠ some (.run core) := by
  intro t ht
  have hmem := (h.onRun core t).mpr ht
  rw [hempty] at hmem
  exact absurd hmem List.not_mem_nil
 let place : Fin n → Option (Place k) := fun t =>
  if g.place t = some (.list core) ∧ m.expire t ≤ time then some (.run core) else g.place t
 have hkeep : ∀ t p, p ≠ .list core → p ≠ .run core → (place t = some p ↔ g.place t = some p) := by
  intro t p hlist hrun
  show (if _ then _ else _) = _ ↔ _
  split
  · next hboth =>
    rw [hboth.1]
    exact iff_of_false (fun heq => hrun (some.inj heq).symm) fun heq => hlist (some.inj heq).symm
  · rfl
 -- first the list of the core, then its run list
 refine ⟨m',⟨update g.list core L',update g.run core (low m.expire time (g.list core 0)),
  place⟩,hbreak,⟨fun c => ?_,fun c t => ?_,fun c t => ?_,fun c => ?_,fun c => ?_,
  htouch.expire ▸ h.word,fun t c ht => ?_⟩,htouch.expire,fun t => rfl⟩
 · show ListOf m' c (update g.list core L' c)
   by_cases hc : c = core
   · subst hc
     rw [update_self]
     exact hL'
   · rw [update_of_ne hc]
     exact htouch.listOf hc (h.lists c) fun t ht => h.list_ne hc ht
 · show t ∈ update g.list core L' c 0 ↔ place t = some (.list c)
   by_cases hc : c = core
   · subst hc
     rw [update_self,hzero,mem_upp,h.onList]
     show _ ↔ (if _ then _ else _) = _
     split
     · next hboth =>
       exact iff_of_false (fun hlt => Nat.not_lt_of_le hboth.2 hlt.2)
        fun heq => Place.run_ne_list c c (some.inj heq)
     · next hnot =>
       constructor
       · exact fun hboth => hboth.1
       · exact fun hlist => ⟨hlist,Nat.lt_of_not_le fun hle => hnot ⟨hlist,hle⟩⟩
   · rw [update_of_ne hc,hkeep t _ (fun heq => hc (Place.list.inj heq))
      (Place.run_ne_list core c).symm]
     exact h.onList c t
 · show t ∈ update g.run core _ c ↔ place t = some (.run c)
   by_cases hc : c = core
   · subst hc
     rw [update_self,mem_low,h.onList]
     show _ ↔ (if _ then _ else _) = _
     split
     · next hboth => exact iff_of_true hboth rfl
     · next hnot => exact iff_of_false hnot (hnoRun t)
   · rw [update_of_ne hc,hkeep t _ (Place.run_ne_list c core) (fun heq => hc (Place.run.inj heq))]
     exact h.onRun c t
 · show Linked some _ (update rest core (some tim) c) (update g.run core _ c) none
   by_cases hc : c = core
   · subst hc
     rw [update_self,update_self]
     exact hrun
   · rw [update_of_ne hc,update_of_ne hc]
     exact htouch.linked (h.runs c) fun t ht => h.run_notMem ht
 · show (update g.run core _ c).Nodup
   by_cases hc : c = core
   · subst hc
     rw [update_self]
     exact (h.lists c).levels.nodup.filter _
   · rw [update_of_ne hc]
     exact h.nodup c
 · rw [htouch.expire]
   change (if _ then _ else _) = some (Place.list c) at ht
   split at ht
   · exact absurd (some.inj ht) (Place.run_ne_list core c)
   · exact h.positive t c ht

lemma pass (hrest : rest core = some tim) : g.place tim = some (.run core) ∧
 ∃ g', Shape m (update rest core (m.slNext tim 0)) g' ∧ g'.place = update g.place tim none := by
 have hrun := h.runs core
 rw [hrest] at hrun
 cases hR : g.run core with
 | nil =>
  rw [hR] at hrun
  exact absurd hrun (some_ne_none tim)
 | cons t R =>
  rw [hR] at hrun
  obtain ⟨heq,hlinked⟩ := hrun
  cases heq
  have hnodup := h.nodup core
  rw [hR] at hnodup
  obtain ⟨hnot,hnodup⟩ := List.nodup_cons.mp hnodup
  have hplace : g.place tim = some (.run core) := by
   rw [← h.onRun,hR]
   exact List.mem_cons_self
  refine ⟨hplace,⟨g.list,update g.run core R,update g.place tim none⟩,
   ⟨h.lists,fun c t => ?_,fun c t => ?_,fun c => ?_,fun c => ?_,h.word,fun t c ht => ?_⟩,rfl⟩
  · show _ ↔ update g.place tim none t = _
    by_cases ht : t = tim
    · subst ht
      rw [update_self,h.onList,hplace]
      exact iff_of_false (fun heq => Place.run_ne_list core c (some.inj heq))
       (some_ne_none _).symm
    · rw [update_of_ne ht]
      exact h.onList c t
  · show t ∈ update g.run core R c ↔ update g.place tim none t = _
    by_cases ht : t = tim
    · subst ht
      rw [update_self]
      refine iff_of_false (fun hmem => ?_) (some_ne_none _).symm
      by_cases hc : c = core
      · subst hc
        rw [update_self] at hmem
        exact hnot hmem
      · rw [update_of_ne hc,h.onRun,hplace] at hmem
        exact hc (Place.run.inj (some.inj hmem)).symm
    · rw [update_of_ne ht,← h.onRun]
      by_cases hc : c = core
      · subst hc
        rw [update_self,hR,List.mem_cons,or_iff_right ht]
      · rw [update_of_ne hc]
  · show Linked some _ (update rest core _ c) (update g.run core R c) none
    by_cases hc : c = core
    · subst hc
      rw [update_self,update_self]
      exact hlinked
    · rw [update_of_ne hc,update_of_ne hc]
      exact h.runs c
  · show (update g.run core R c).Nodup
    by_cases hc : c = core
    · subst hc
      rw [update_self]
      exact hnodup
    · rw [update_of_ne hc]
      exact h.nodup c
  · change update g.place tim none t = some (Place.list c) at ht
    by_cases heq : t = tim
    · subst heq
      rw [update_self] at ht
      cases ht
    · rw [update_of_ne heq] at ht
      exact h.positive t c ht

end

end Shape

end Packages.HisiTimer

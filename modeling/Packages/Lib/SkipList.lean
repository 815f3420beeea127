import Packages.Lib.HeadList

/-!
# Skip lists

`L i` are the nodes on level `i`. Level 0 has all of them in the order of their keys, and each level
has some of the nodes of the level below.
-/

namespace Packages.SkipList

open HeadList List

variable {ι : Type*} {key : ι → Nat} {depth time fuel : Nat} {L : Nat → List ι}
 {l l' : List ι} {x : ι}

structure Levels (key : ι → Nat) (depth : Nat) (L : Nat → List ι) : Prop where
 sublist : ∀ i, (L (i+1)).Sublist (L i)
 sorted : (L 0).Pairwise fun x y => key x ≤ key y
 nodup : (L 0).Nodup
 high : ∀ i, depth ≤ i → L i = []

/-- The nodes up to a key, and those above it. -/
def low (key : ι → Nat) (time : Nat) (l : List ι) : List ι := l.filter (key · ≤ time)

def upp (key : ι → Nat) (time : Nat) (l : List ι) : List ι := l.filter (time < key ·)

lemma mem_low : x ∈ low key time l ↔ x ∈ l ∧ key x ≤ time := by
 rw [low,mem_filter,decide_eq_true_eq]

lemma mem_upp : x ∈ upp key time l ↔ x ∈ l ∧ time < key x := by
 rw [upp,mem_filter,decide_eq_true_eq]

lemma low_append_upp (h : l.Pairwise fun x y => key x ≤ key y) :
 low key time l++upp key time l = l := by
 induction l with
 | nil => rfl
 | cons x l ih =>
  obtain ⟨hx,hl⟩ := pairwise_cons.mp h
  by_cases hle : key x ≤ time
  · have hlow : low key time (x::l) = x::low key time l := filter_cons_of_pos (by simpa using hle)
    have hupp : upp key time (x::l) = upp key time l := filter_cons_of_neg (by simpa using hle)
    rw [hlow,hupp,cons_append,ih hl]
  · have hlow : low key time (x::l) = [] := by
     rw [low,filter_eq_nil_iff]
     intro y hy hkey
     have hky : key y ≤ time := of_decide_eq_true hkey
     obtain rfl | hmem := mem_cons.mp hy
     · exact hle hky
     · exact hle ((hx y hmem).trans hky)
    have hupp : upp key time (x::l) = x::l := by
     rw [upp,filter_eq_self]
     intro y hy
     refine decide_eq_true ?_
     obtain rfl | hmem := mem_cons.mp hy
     · exact Nat.lt_of_not_le hle
     · exact (Nat.lt_of_not_le hle).trans_le (hx y hmem)
    rw [hlow,hupp,nil_append]

/-- A node is put behind the last one whose key is not above its own. -/
def insertKey (key : ι → Nat) (l : List ι) (x : ι) : List ι :=
 low key (key x) l++x::upp key (key x) l

lemma mem_insertKey (h : l.Pairwise fun x y => key x ≤ key y) {y : ι} :
 y ∈ insertKey key l x ↔ y = x ∨ y ∈ l := by
 rw [insertKey,mem_append,mem_cons,or_left_comm,← mem_append,low_append_upp h]

lemma insertKey_congr {key' : ι → Nat} (h : ∀ y ∈ x::l, key' y = key y) :
 insertKey key' l x = insertKey key l x := by
 have hl : ∀ y ∈ l, key' y = key y := fun y hy => h y (mem_cons_of_mem x hy)
 rw [insertKey,insertKey,low,low,upp,upp,h x mem_cons_self]
 congr 1
 · exact filter_congr fun y hy => by rw [hl y hy]
 · exact congrArg (x::·) (filter_congr fun y hy => by rw [hl y hy])

namespace Levels

section

variable (h : Levels key depth L)

include h

lemma sublist_zero (i : Nat) : (L i).Sublist (L 0) := by
 induction i with
 | zero => exact Sublist.refl _
 | succ i ih => exact (h.sublist i).trans ih

lemma sorted_level (i : Nat) : (L i).Pairwise fun x y => key x ≤ key y :=
 h.sorted.sublist (h.sublist_zero i)

lemma nodup_level (i : Nat) : (L i).Nodup := h.nodup.sublist (h.sublist_zero i)

lemma mem_zero {i : Nat} (hx : x ∈ L i) : x ∈ L 0 := (h.sublist_zero i).subset hx

lemma split (time i : Nat) : low key time (L i)++upp key time (L i) = L i :=
 low_append_upp (h.sorted_level i)

lemma nodup_split (time i : Nat) : (low key time (L i)++upp key time (L i)).Nodup := by
 rw [h.split]
 exact h.nodup_level i

lemma congr {key' : ι → Nat} (hkey : ∀ y ∈ L 0, key' y = key y) : Levels key' depth L where
 __ := h
 sorted := h.sorted.imp_of_mem fun hx hy hle => by rwa [hkey _ hx,hkey _ hy]

end

end Levels

-- Searching

/-- The cells where the search stops on the levels below `lvl`, from the lowest up. -/
def descend (next : Nat → Option ι → Option ι) (p : ι → Bool) (fuel : Nat) :
 Nat → Option ι → Option (List (Option ι))
 | 0,_ => some []
 | lvl+1,cell =>
  (advance (next lvl) p fuel cell).bind fun prev => (descend next p fuel lvl prev).map (· ++ [prev])

lemma exists_split (h : l'.Sublist l) : ∃ X Y, l = X++Y ∧ last none X = last none l' := by
 by_cases hnil : l' = []
 · exact ⟨[],l,rfl,by rw [hnil]⟩
 · obtain ⟨x,hx,hlast⟩ := last_mem none hnil
   obtain ⟨X,Y,rfl⟩ := append_of_mem (h.subset hx)
   refine ⟨X++[x],Y,by rw [append_assoc]; rfl,?_⟩
   rw [last_append,hlast]
   rfl

lemma head_upp (h : x ∈ (upp key time l).head?) : decide (key x ≤ time) = false := by
 have hmem := (mem_upp.mp (mem_of_mem_head? h)).2
 exact decide_eq_false (Nat.not_le_of_lt hmem)

lemma descend_eq {next : Nat → Option ι → Option ι} (h : Levels key depth L)
 (hnext : ∀ i, Behind (next i) none (L i)) (hfuel : (L 0).length < fuel) (time lvl : Nat) :
 descend next (fun y => decide (key y ≤ time)) fuel lvl (last none (low key time (L lvl))) =
  some ((range lvl).map fun i => last none (low key time (L i))) := by
 induction lvl with
 | zero => rfl
 | succ lvl ih =>
  obtain ⟨X,Y,hXY,hX⟩ := exists_split ((h.sublist lvl).filter (key · ≤ time))
  change low key time (L lvl) = X++Y at hXY
  change last none X = last none (low key time (L (lvl+1))) at hX
  have hbehind : Behind (next lvl) (last none X) (Y++upp key time (L lvl)) := by
   have hall := hnext lvl
   rw [← h.split time lvl,hXY,append_assoc] at hall
   exact hall.drop
  have hlen : Y.length < fuel := by
   have h1 : Y.length ≤ (low key time (L lvl)).length := by
    rw [hXY,length_append]
    omega
   exact (h1.trans ((length_filter_le ..).trans (h.sublist_zero lvl).length_le)).trans_lt hfuel
  have hY : ∀ y ∈ Y, decide (key y ≤ time) = true := by
   intro y hy
   have hmem : y ∈ low key time (L lvl) := hXY ▸ mem_append_right X hy
   exact decide_eq_true (mem_low.mp hmem).2
  rw [descend,← hX,advance_eq hbehind hY (fun y => head_upp) hlen,Option.bind_some,
   ← last_append,← hXY,ih,range_succ,map_append]
  rfl

lemma advance_total {next : Option ι → Option ι} {cell : Option ι} (h : Behind next cell l)
 (hfuel : l.length < fuel) (p : ι → Bool) : ∃ A B, l = A++B ∧ (∀ y ∈ A, p y = true) ∧
  (∀ y ∈ B.head?, p y = false) ∧ advance next p fuel cell = some (last cell A) := by
 have hsplit : l.takeWhile p++l.dropWhile p = l := takeWhile_append_dropWhile
 have hA : ∀ y ∈ l.takeWhile p, p y = true := fun y hy => mem_takeWhile_imp hy
 have hB : ∀ y ∈ (l.dropWhile p).head?, p y = false := by
  intro y hy
  have hnot := head?_dropWhile_not p l
  rw [Option.mem_def.mp hy] at hnot
  simpa using hnot
 refine ⟨_,_,hsplit.symm,hA,hB,advance_eq (by rwa [hsplit]) hA hB ?_⟩
 exact (( takeWhile_prefix p).length_le).trans_lt hfuel

/-- From the last smaller key the search goes on to the cell before `x`, if `x` is there. -/
lemma advance_to {next : Nat → Option ι → Option ι} [DecidableEq ι] (h : Levels key depth L)
 (hnext : ∀ i, Behind (next i) none (L i)) (hfuel : (L 0).length < fuel) {i : Nat} (hx : x ∈ L i)
 (time : Nat) (htime : time < key x) : ∃ A B, L i = A++x::B ∧
  advance (next i) (fun y => decide (y ≠ x ∧ key y ≤ key x)) fuel (last none (low key time (L i))) =
   some (last none A) := by
 have hmem : x ∈ upp key time (L i) := mem_upp.mpr ⟨hx,htime⟩
 obtain ⟨A,B,hAB⟩ := append_of_mem hmem
 have hall : L i = low key time (L i)++A++x::B := by
  rw [append_assoc,← hAB,h.split]
 refine ⟨low key time (L i)++A,B,hall,?_⟩
 have hbehind : Behind (next i) (last none (low key time (L i))) (A++x::B) := by
  have hwhole := hnext i
  rw [hall,append_assoc] at hwhole
  exact hwhole.drop
 have hnodup : (low key time (L i)++A++x::B).Nodup := hall ▸ h.nodup_level i
 have hA : ∀ y ∈ A, decide (y ≠ x ∧ key y ≤ key x) = true := by
  intro y hy
  have hne : y ≠ x := by
   rintro rfl
   exact disjoint_of_nodup_append hnodup (mem_append_right _ hy) mem_cons_self
  have hsorted : (low key time (L i)++A++x::B).Pairwise fun x y => key x ≤ key y :=
   hall ▸ h.sorted_level i
  exact decide_eq_true ⟨hne,(pairwise_append.mp hsorted).2.2 y (mem_append_right _ hy) x
   mem_cons_self⟩
 have hlen : A.length < fuel := by
  have hle : A.length ≤ (L i).length := by
   rw [hall,length_append,length_append]
   omega
  exact (hle.trans (h.sublist_zero i).length_le).trans_lt hfuel
 rw [advance_eq hbehind hA ?_ hlen,last_append]
 intro y hy
 obtain rfl : x = y := Option.some.inj hy
 exact decide_eq_false fun hboth => hboth.1 rfl

-- Changing

lemma Levels.insert (h : Levels key depth L) (hx : x ∉ L 0) {level : Nat} (hlevel : level ≤ depth) :
 Levels key (if level = depth then depth+1 else depth) fun i =>
  if i ≤ level then insertKey key (L i) x else L i where
 sublist i := by
  by_cases hi : i+1 ≤ level
  · rw [if_pos hi,if_pos (Nat.le_of_succ_le hi)]
    exact ((h.sublist i).filter _).append (((h.sublist i).filter _).cons_cons x)
  · rw [if_neg hi]
    split
    · refine (h.sublist i).trans ?_
      conv_lhs => rw [← h.split (key x) i]
      exact (List.Sublist.refl _).append (sublist_cons_self ..)
    · exact h.sublist i
 sorted := by
  rw [if_pos (Nat.zero_le level),insertKey,pairwise_append,pairwise_cons]
  refine ⟨h.sorted.filter _,⟨fun y hy => (mem_upp.mp hy).2.le,h.sorted.filter _⟩,fun y hy z hz =>
   ?_⟩
  have hy' := (mem_low.mp hy).2
  obtain rfl | hz := mem_cons.mp hz
  · exact hy'
  · exact hy'.trans (mem_upp.mp hz).2.le
 nodup := by
  rw [if_pos (Nat.zero_le level),insertKey,nodup_middle,nodup_cons,h.split]
  exact ⟨hx,h.nodup⟩
 high i hi := by
  split at hi
  · rw [if_neg (by omega)]
    exact h.high i (by omega)
  · rw [if_neg (by omega)]
    exact h.high i hi

lemma Levels.remove [DecidableEq ι] (h : Levels key depth L) (x : ι) :
 Levels key depth fun i => (L i).filter (· ≠ x) where
 sublist i := (h.sublist i).filter _
 sorted := h.sorted.filter _
 nodup := h.nodup.filter _
 high i hi := by rw [h.high i hi,filter_nil]

lemma filter_ne_middle [DecidableEq ι] {A B : List ι} (h : (A++x::B).Nodup) :
 (A++x::B).filter (· ≠ x) = A++B := by
 rw [nodup_middle,nodup_cons] at h
 rw [filter_append,filter_cons_of_neg (by simp),← filter_append,filter_eq_self]
 intro y hy
 exact decide_eq_true fun heq => h.1 (heq ▸ hy)

lemma Levels.cut (h : Levels key depth L) (time : Nat) {depth' : Nat}
 (hhigh : ∀ i, depth' ≤ i → upp key time (L i) = []) :
 Levels key depth' fun i => if low key time (L i) = [] then [] else upp key time (L i) where
 sublist i := by
  by_cases hi : low key time (L (i+1)) = []
  · rw [if_pos hi]
    exact nil_sublist _
  · have hlow : low key time (L i) ≠ [] := by
     intro hnil
     exact hi (sublist_nil.mp (hnil ▸ (h.sublist i).filter (key · ≤ time)))
    rw [if_neg hi,if_neg hlow]
    exact (h.sublist i).filter _
 sorted := by
  split
  · exact List.Pairwise.nil
  · exact h.sorted.filter _
 nodup := by
  split
  · exact nodup_nil
  · exact h.nodup.filter _
 high i hi := by
  rw [hhigh i hi]
  split <;> rfl

lemma Levels.shrink (h : Levels key depth L) {depth' : Nat} (hhigh : ∀ i, depth' ≤ i → L i = []) :
 Levels key depth' L := { h with high := hhigh }

end Packages.SkipList

import Mathlib

/-!
# Tables with a key

A table is a list of rows of which no two have the same key. Rows are replaced and deleted by key,
and a sum over all rows changes by the rows concerned.
-/

namespace Packages.Table

open List

variable {α κ A : Type*} [AddCommGroup A] {key : α → κ} {f : α → A} {row row' : α} {rows : List α}

/-- No two rows have the same key. -/
def Keyed (key : α → κ) (rows : List α) : Prop := (rows.map key).Nodup

def total (f : α → A) (rows : List α) : A := (rows.map f).sum

@[simp] lemma total_nil (f : α → A) : total f [] = 0 := rfl

@[simp] lemma total_cons (f : α → A) (row : α) (rows : List α) :
 total f (row::rows) = f row+total f rows := by
 simp [total]

@[simp] lemma total_append (f : α → A) (rows rows' : List α) :
 total f (rows++rows') = total f rows+total f rows' := by
 simp [total]

lemma total_eq_zero (h : ∀ r ∈ rows, f r = 0) : total f rows = 0 := by
 apply sum_eq_zero
 intro a ha
 obtain ⟨r,hr,rfl⟩ := mem_map.mp ha
 exact h r hr

lemma Keyed.eq_of_key_eq (h : Keyed key rows) (hrow : row ∈ rows) (hrow' : row' ∈ rows)
 (hkey : key row = key row') : row = row' :=
 inj_on_of_nodup_map h hrow hrow' hkey

lemma Keyed.filter (h : Keyed key rows) (p : α → Bool) : Keyed key (rows.filter p) :=
 List.Nodup.sublist (filter_sublist.map key) h

lemma Keyed.append (h : Keyed key rows) (hnew : ∀ r ∈ rows, key r ≠ key row) :
 Keyed key (rows++[row]) := by
 rw [Keyed,map_append]
 apply Nodup.append h (nodup_singleton _)
 intro k hk hk'
 obtain ⟨r,hr,rfl⟩ := mem_map.mp hk
 exact hnew r hr (mem_singleton.mp hk')

lemma total_filter_add (f : α → A) (p : α → Bool) (rows : List α) :
 total f (rows.filter p)+total f (rows.filter (!p ·)) = total f rows := by
 induction rows with
 | nil => simp
 | cons r rows ih =>
  rw [total_cons,← ih]
  cases hp : p r with
  | true =>
   rw [filter_cons_of_pos hp,filter_cons_of_neg (by simp [hp]),total_cons]
   abel
  | false =>
   rw [filter_cons_of_neg (by simp [hp]),filter_cons_of_pos (by simp [hp]),total_cons]
   abel

lemma total_filter_of_ne (p : α → Bool) (h : ∀ r ∈ rows, p r = false → f r = 0) :
 total f (rows.filter p) = total f rows := by
 have hzero : total f (rows.filter (!p ·)) = 0 := by
  apply total_eq_zero
  intro r hr
  obtain ⟨hmem,hp⟩ := mem_filter.mp hr
  exact h r hmem (by simpa using hp)
 rw [← total_filter_add f p rows,hzero,add_zero]

variable [DecidableEq κ]

def delete (key : α → κ) (k : κ) (rows : List α) : List α := rows.filter (key · ≠ k)

def replace (key : α → κ) (row : α) (rows : List α) : List α :=
 rows.map fun r => if key r = key row then row else r

lemma Keyed.delete (h : Keyed key rows) (k : κ) : Keyed key (Table.delete key k rows) := h.filter _

lemma map_key_replace (key : α → κ) (row : α) (rows : List α) :
 (replace key row rows).map key = rows.map key := by
 rw [replace,map_map]
 apply map_congr_left
 intro r _
 by_cases h : key r = key row <;> simp [h]

lemma Keyed.replace (h : Keyed key rows) (row : α) : Keyed key (Table.replace key row rows) := by
 rw [Keyed,map_key_replace]
 exact h

lemma total_delete (h : Keyed key rows) (hrow : row ∈ rows) :
 total f (delete key (key row) rows) = total f rows-f row := by
 induction rows with
 | nil => cases hrow
 | cons r rows ih =>
  obtain ⟨hr,hrows⟩ := nodup_cons.mp h
  obtain rfl | hmem := mem_cons.mp hrow
  · have hsame : delete key (key row) rows = rows := by
     apply filter_eq_self.mpr
     intro a ha
     exact decide_eq_true fun heq => hr (heq ▸ mem_map_of_mem ha)
    rw [delete,filter_cons_of_neg (by simp),← delete,hsame,total_cons]
    abel
  · have hne : key r ≠ key row := fun heq => hr (heq ▸ mem_map_of_mem hmem)
    rw [delete,filter_cons_of_pos (by simpa using hne),← delete,total_cons,ih hrows hmem,
     total_cons]
    abel

lemma total_replace (h : Keyed key rows) (hrow : row ∈ rows) (hkey : key row' = key row) :
 total f (replace key row' rows) = total f rows-f row+f row' := by
 induction rows with
 | nil => cases hrow
 | cons r rows ih =>
  obtain ⟨hr,hrows⟩ := nodup_cons.mp h
  obtain rfl | hmem := mem_cons.mp hrow
  · have hsame : replace key row' rows = rows := by
     have hid : ∀ a ∈ rows, (if key a = key row' then row' else a) = a := by
      intro a ha
      apply if_neg
      rw [hkey]
      exact fun heq => hr (heq ▸ mem_map_of_mem ha)
     exact (map_congr_left hid).trans (map_id' rows)
    rw [replace,map_cons,← replace,hsame,if_pos hkey.symm,total_cons,total_cons]
    abel
  · have hne : key r ≠ key row' := by
     rw [hkey]
     exact fun heq => hr (heq ▸ mem_map_of_mem hmem)
    rw [replace,map_cons,← replace,if_neg hne,total_cons,ih hrows hmem,total_cons]
    abel

end Packages.Table

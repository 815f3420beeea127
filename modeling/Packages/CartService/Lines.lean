import Packages.CartService.Controller
import Packages.CartService.Totals

/-!
# Lines of a cart

`getSKUListBycarskuList` gives the quantities of the rows to the products in the order of their ids.
-/

namespace Packages.CartService

open List

variable {db : Db} {rows : List (Nat × Int)}

/-- The rows as the catalogue orders their products. -/
def inIdOrder (rows : List (Nat × Int)) : List (Nat × Int) := rows.mergeSort fun a b => a.1 ≤ b.1

def SKUDTO.line (dto : SKUDTO) : Nat × Int := (dto.skuId,dto.quantity)

lemma lines_eq (hnodup : (rows.map Prod.fst).Nodup)
 (hsku : ∀ row ∈ rows, (db.sku row.1).isSome = true) :
 (db.getSKUListBycarskuList rows).map SKUDTO.line =
  ((inIdOrder rows).map Prod.fst).zip (rows.map Prod.snd) := by
 have hids : (rows.map Prod.fst).dedup.mergeSort (· ≤ ·) = (inIdOrder rows).map Prod.fst := by
  rw [hnodup.dedup]
  exact (map_mergeSort (f := Prod.fst) fun _ _ _ _ => rfl).symm
 have hall : ∀ row ∈ inIdOrder rows, (db.sku row.1).isSome = true := fun row hrow =>
  hsku row (mem_mergeSort.mp hrow)
 rw [Db.getSKUListBycarskuList,hids,map_map]
 generalize rows.map Prod.snd = quantities
 generalize inIdOrder rows = sorted at hall
 induction sorted generalizing quantities with
 | nil => rfl
 | cons row sorted ih =>
  obtain ⟨sku,hrow⟩ := Option.isSome_iff_exists.mp (hall row mem_cons_self)
  cases quantities with
  | nil => simp
  | cons quantity quantities =>
   rw [map_cons,filterMap_cons_some (by rw [hrow]; rfl),zip_cons_cons,map_cons,
    zip_cons_cons,ih quantities fun x hx => hall x (mem_cons_of_mem row hx)]
   rfl

/-- Each row has a line with its product. All lines show the quantity of their own row exactly when
sorting the rows by product leaves the quantities in their places. -/
theorem cart_lines (db : Db) (rows : List (Nat × Int)) (hnodup : (rows.map Prod.fst).Nodup)
 (hsku : ∀ row ∈ rows, (db.sku row.1).isSome = true) :
 ((db.getSKUListBycarskuList rows).map (·.line.1)).Perm (rows.map Prod.fst) ∧
 ((∀ dto ∈ db.getSKUListBycarskuList rows, dto.line ∈ rows) ↔
  (inIdOrder rows).map Prod.snd = rows.map Prod.snd) := by
 have hperm : (inIdOrder rows).Perm rows := mergeSort_perm ..
 have hlines := lines_eq hnodup hsku
 have hids : (db.getSKUListBycarskuList rows).map (·.line.1) = (inIdOrder rows).map Prod.fst := by
  rw [← Function.comp_def Prod.fst SKUDTO.line,← map_map,hlines]
  exact map_fst_zip (by simp [hperm.length_eq])
 refine ⟨hids ▸ hperm.map Prod.fst,?_⟩
 rw [← forall_mem_map (f := SKUDTO.line) (P := (· ∈ rows)),hlines]
 constructor
 · intro h
   refine ext_getElem (by simp [hperm.length_eq]) fun k hk hk' => ?_
   rw [length_map] at hk hk'
   have hline := h _ (getElem_mem (n := k) (by simp [hperm.length_eq,hk']))
   rw [getElem_zip] at hline
   have hrow := hperm.mem_iff.mp (getElem_mem hk)
   have heq := inj_on_of_nodup_map hnodup hline hrow (getElem_map ..)
   rw [getElem_map,← heq]
 · intro h row hrow
   rw [← h,← unzip_fst,← unzip_snd,zip_unzip] at hrow
   exact hperm.mem_iff.mp hrow

theorem cart_lines_sorted :
 ((shopDb.getSKUListBycarskuList [(1,7),(2,5)]).map (·.line.1)).Perm [1,2] ∧
 ∀ dto ∈ shopDb.getSKUListBycarskuList [(1,7),(2,5)], dto.line ∈ [(1,7),(2,5)] :=
 have h := cart_lines shopDb [(1,7),(2,5)] (by decide) (by decide)
 ⟨h.1,h.2.mpr (by simp [inIdOrder,mergeSort])⟩

/-- Product 2 was put into the cart first. -/
theorem cart_lines_exchanged :
 (shopDb.getSKUListBycarskuList [(2,5),(1,7)]).map SKUDTO.line = [(1,5),(2,7)] := by
 simp [lines_eq,shopDb,inIdOrder,mergeSort]

end Packages.CartService

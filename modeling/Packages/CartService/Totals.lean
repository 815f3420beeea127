import Packages.CartService.Model

/-!
# Totals of a cart and the catalogue

The stored totals of a cart are compared with sums over its rows at the rates of the catalogue. The
service computes the totals from the amounts in the requests, so they follow the catalogue as long
as the requests do.
-/

namespace Packages.CartService

open Function Db Option
open List (mem_append mem_singleton mem_of_mem_filter mem_map foldl_cons mem_filter not_mem_nil)

variable {db db' : Db} {rate : Nat → BigDecimal} {cartid skuid c : Nat} {list : List SKUDTO}

-- Sums over rows

/-- What a row adds to the sum of a cart. -/
def amount (rate : Nat → BigDecimal) (cartid : Nat) (row : Cartsku) : BigDecimal :=
 if row.nshoppingcartid = cartid then rate row.nskuid*row.nquantity else 0

/-- The sum over the rows of a cart of rate times quantity. -/
def Db.sum (db : Db) (rate : Nat → BigDecimal) (cartid : Nat) : BigDecimal :=
 Table.total (amount rate cartid) db.cartsku

/-- The rows have different keys, all generated. -/
structure Db.Ok (db : Db) : Prop where
 keyed : Table.Keyed Cartsku.ncartskuid db.cartsku
 below : ∀ row ∈ db.cartsku, row.ncartskuid < db.nextCartskuid

lemma Db.Ok.insertCartsku (h : db.Ok) (userid cartid skuid : Nat) (quantity : Int) :
 (db.insertCartsku userid cartid skuid quantity).Ok := by
 refine ⟨h.keyed.append fun row hrow => ne_of_lt (h.below row hrow),fun row hrow => ?_⟩
 obtain hmem | hnew := mem_append.mp hrow
 · exact Nat.lt_succ_of_lt (h.below row hmem)
 · rw [mem_singleton.mp hnew]
   exact Nat.lt_succ_self _

lemma Db.Ok.deleteCartsku (h : db.Ok) (ncartskuid : Nat) : (db.deleteCartsku ncartskuid).Ok :=
 ⟨h.keyed.delete ncartskuid,fun row hrow => h.below row (mem_of_mem_filter hrow)⟩

lemma Db.Ok.updateCartsku (h : db.Ok) (row : Cartsku) (hrow : row.ncartskuid < db.nextCartskuid) :
 (db.updateCartsku row).Ok := by
 refine ⟨h.keyed.replace row,fun row' hrow' => ?_⟩
 obtain ⟨r,hr,rfl⟩ := mem_map.mp hrow'
 split
 · exact hrow
 · exact h.below r hr

lemma Db.Ok.storeShoppingcart (h : db.Ok) (cartid : Nat) (cart : Shoppingcart) :
 (db.storeShoppingcart cartid cart).Ok :=
 ⟨h.keyed,h.below⟩

@[simp] lemma sum_storeShoppingcart (db : Db) (cartid : Nat) (cart : Shoppingcart)
 (rate : Nat → BigDecimal) (c : Nat) : (db.storeShoppingcart cartid cart).sum rate c =
 db.sum rate c :=
 rfl

lemma sum_insertCartsku (db : Db) (rate : Nat → BigDecimal) (userid cartid skuid c : Nat)
 (quantity : Int) :
 (db.insertCartsku userid cartid skuid quantity).sum rate c =
  db.sum rate c+if cartid = c then rate skuid*quantity else 0 := by
 rw [sum,insertCartsku,Table.total_append,Table.total_cons,Table.total_nil,add_zero]
 rfl

variable {row : Cartsku}

lemma sum_deleteCartsku (h : db.Ok) (hrow : row ∈ db.cartsku)
 (rate : Nat → BigDecimal) (c : Nat) :
 (db.deleteCartsku row.ncartskuid).sum rate c = db.sum rate c-amount rate c row :=
 Table.total_delete h.keyed hrow

lemma sum_updateCartsku (h : db.Ok) (row' : Cartsku) (hrow : row ∈ db.cartsku)
 (hkey : row'.ncartskuid = row.ncartskuid) (rate : Nat → BigDecimal) (c : Nat) :
 (db.updateCartsku row').sum rate c = db.sum rate c-amount rate c row+amount rate c row' :=
 Table.total_replace h.keyed hrow hkey

/-- The sum of the quantities in a request at the given rates. -/
def requested (rate : SKUDTO → BigDecimal) (list : List SKUDTO) : BigDecimal :=
 Table.total (fun dto => rate dto*dto.quantity) list

lemma insertAll_spec (h : db.Ok) (cartid : Nat) (list : List SKUDTO) :
 let db' := db.insertAll cartid list
 db'.Ok ∧ db'.sku = db.sku ∧ db'.shoppingcart = db.shoppingcart ∧
  (∀ row ∈ db'.cartsku, row ∈ db.cartsku ∨ row.nshoppingcartid = cartid) ∧
  db.cartsku ⊆ db'.cartsku ∧
  ∀ rate c, db'.sum rate c =
   db.sum rate c+if cartid = c then requested (fun dto => rate dto.skuId) list else 0 := by
 induction list generalizing db with
 | nil =>
  exact ⟨h,rfl,rfl,fun row hrow => .inl hrow,fun row hrow => hrow,
   fun rate c => by simp [insertAll,requested]⟩
 | cons dto list ih =>
  obtain ⟨hok,hsku,hcarts,hrows,hkept,hsum⟩ :=
   ih (h.insertCartsku cartid cartid dto.skuId dto.quantity)
  refine ⟨hok,hsku,hcarts,fun row hrow => ?_,
   fun row hrow => hkept (List.mem_append_left _ hrow),fun rate c => ?_⟩
  · obtain hmem | hcart := hrows row hrow
    · obtain hold | hnew := mem_append.mp hmem
      · exact .inl hold
      · exact .inr (congrArg Cartsku.nshoppingcartid (mem_singleton.mp hnew))
    · exact .inr hcart
  rw [insertAll,foldl_cons,← insertAll,hsum,sum_insertCartsku,requested,requested,
   Table.total_cons]
  split <;> ring

lemma deleteAll_eq (db : Db) (rows : List Cartsku) :
 rows.foldl (fun db row => db.deleteCartsku row.ncartskuid) db =
  { db with cartsku := db.cartsku.filter fun row =>
     row.ncartskuid ∉ rows.map Cartsku.ncartskuid } := by
 induction rows generalizing db with
 | nil => simp
 | cons r rows ih =>
  rw [foldl_cons,ih,deleteCartsku,Table.delete,List.filter_filter]
  congr 1
  apply List.filter_congr
  intro row _
  by_cases hr : row.ncartskuid = r.ncartskuid <;> simp [hr]

lemma Db.Ok.mem_keys (h : db.Ok) (cartid : Nat) (hrow : row ∈ db.cartsku) :
 row.ncartskuid ∈ (db.selectByShoppingCartId cartid).map Cartsku.ncartskuid ↔
  row.nshoppingcartid = cartid := by
 constructor
 · intro hin
   obtain ⟨r,hr,hkey⟩ := mem_map.mp hin
   obtain ⟨hr,hcart⟩ := mem_filter.mp hr
   obtain rfl := h.keyed.eq_of_key_eq hr hrow hkey
   exact of_decide_eq_true hcart
 · intro hcart
   exact List.mem_map_of_mem (mem_filter.mpr ⟨hrow,decide_eq_true hcart⟩)

lemma sum_deleteCart (h : db.Ok) (cartid : Nat) (rate : Nat → BigDecimal) (c : Nat) :
 sum { db with cartsku := db.cartsku.filter fun row =>
  row.ncartskuid ∉ (db.selectByShoppingCartId cartid).map Cartsku.ncartskuid } rate c =
  if cartid = c then 0 else db.sum rate c := by
 split
 · rename_i heq
   apply Table.total_eq_zero
   intro row hrow
   obtain ⟨hrow,hnot⟩ := mem_filter.mp hrow
   have hne : row.nshoppingcartid ≠ c := fun hcart =>
    of_decide_eq_true hnot ((h.mem_keys cartid hrow).mpr (hcart.trans heq.symm))
   exact if_neg hne
 · rename_i hne
   apply Table.total_filter_of_ne
   intro row hrow hnot
   have hcart : row.nshoppingcartid = cartid := by
    apply (h.mem_keys cartid hrow).mp
    simpa using hnot
   exact if_neg fun heq => hne (hcart.symm.trans heq)

-- What the requests say

lemma toInt_modEq (x : Int) : toInt x ≡ x [ZMOD 2^32] := Int.bmod_emod

lemma toInt_zero_add_modEq (x : Int) : toInt (0+x) ≡ x [ZMOD 2^32] := by
 rw [zero_add]
 exact toInt_modEq x

lemma computeNumber_singleton (dto : SKUDTO) : computeNumber [dto] ≡ dto.quantity [ZMOD 2^32] :=
 toInt_zero_add_modEq dto.quantity

lemma computeDiscount_eq (list : List SKUDTO) :
 computeDiscount list = requested (fun dto => dto.discount.getD 0) list := by
 have hfold : ∀ acc : BigDecimal,list.foldl (fun (discount : BigDecimal) (dto : SKUDTO) =>
  discount+dto.discount.getD 0*dto.quantity) acc =
  acc+requested (fun dto => dto.discount.getD 0) list := by
  induction list with
  | nil => intro acc; simp [requested]
  | cons dto list ih =>
   intro acc
   rw [foldl_cons,ih,requested,requested,Table.total_cons]
   ring
 rw [computeDiscount,hfold,zero_add]

lemma computeTotalPrice_eq {totalPrice : BigDecimal}
 (h : computeTotalPrice list = some totalPrice) :
 totalPrice = requested (fun dto => dto.displayPrice.getD 0) list := by
 have hfold : ∀ acc : BigDecimal, list.foldlM (fun totalPrice dto =>
  dto.displayPrice.map fun price => totalPrice+price*dto.quantity) acc = some totalPrice →
  totalPrice = acc+requested (fun dto => dto.displayPrice.getD 0) list := by
  clear h
  induction list with
  | nil =>
   intro acc hacc
   cases hacc
   simp [requested]
  | cons dto list ih =>
   intro acc hacc
   rw [List.foldlM_cons] at hacc
   cases hprice : dto.displayPrice with
   | none => simp [hprice] at hacc
   | some price =>
    rw [hprice] at hacc
    rw [ih _ hacc,requested,requested,Table.total_cons,hprice]
    simp only [getD_some]
    ring
 rw [hfold 0 h,zero_add]

/-- The display price and the discount of the catalogue, zero without an entry. -/
def Db.displayPrice (db : Db) (skuid : Nat) : BigDecimal :=
 ((db.sku skuid).bind Sku.ndisplayprice).getD 0

def Db.discount (db : Db) (skuid : Nat) : BigDecimal := ((db.sku skuid).bind Sku.ndiscount).getD 0

/-- A request gives the amounts of the catalogue. -/
def SKUDTO.Honest (db : Db) (skuid : Nat) (dto : SKUDTO) : Prop :=
 dto.displayPrice.getD 0 = db.displayPrice skuid ∧ dto.discount.getD 0 = db.discount skuid

lemma requested_congr {rate rate' : SKUDTO → BigDecimal} (h : ∀ dto ∈ list, rate dto = rate' dto) :
 requested rate list = requested rate' list := by
 rw [requested,Table.total]
 congr 1
 apply List.map_congr_left
 intro dto hdto
 rw [h dto hdto]

-- One call

/-- The stored totals of a cart are the sums at the rates of the catalogue; without the cart there
are no rows. -/
structure Follows (db : Db) (c : Nat) : Prop where
 absent : db.shoppingcart c = none → ∀ row ∈ db.cartsku, row.nshoppingcartid ≠ c
 price : ∀ cart, db.shoppingcart c = some cart → cart.ntotalprice = db.sum db.displayPrice c
 discount : ∀ cart, db.shoppingcart c = some cart → cart.ndiscount = db.sum db.discount c

/-- A call on a cart changed nothing of the catalogue and of the other carts. -/
structure Elsewhere (db db' : Db) (cartid : Nat) : Prop where
 sku : db'.sku = db.sku
 cart : ∀ c, c ≠ cartid → db'.shoppingcart c = db.shoppingcart c
 rows : ∀ row ∈ db'.cartsku, row.nshoppingcartid ≠ cartid →
  ∃ r ∈ db.cartsku, r.nshoppingcartid = row.nshoppingcartid
 kept : ∀ row ∈ db.cartsku, row.nshoppingcartid ≠ cartid → row ∈ db'.cartsku
 sum : ∀ c, c ≠ cartid → ∀ rate, db'.sum rate c = db.sum rate c

lemma Elsewhere.absent (he : Elsewhere db db' cartid) (hne : c ≠ cartid)
 (h : db.shoppingcart c = none → ∀ row ∈ db.cartsku, row.nshoppingcartid ≠ c) :
 db'.shoppingcart c = none → ∀ row ∈ db'.cartsku, row.nshoppingcartid ≠ c := by
 intro hnone row hrow hcart
 rw [he.cart c hne] at hnone
 obtain ⟨r,hr,hsame⟩ := he.rows row hrow (hcart ▸ hne)
 exact h hnone r hr (hsame.trans hcart)

lemma Follows.elsewhere (h : Follows db c) (he : Elsewhere db db' cartid) (hne : c ≠ cartid) :
 Follows db' c := by
 have hprice : db'.displayPrice = db.displayPrice := by
  funext skuid
  rw [displayPrice,displayPrice,he.sku]
 have hdiscount : db'.discount = db.discount := by
  funext skuid
  rw [Db.discount,Db.discount,he.sku]
 constructor
 · exact he.absent hne h.absent
 · intro cart hcart
   rw [he.cart c hne] at hcart
   rw [he.sum c hne,hprice]
   exact h.price cart hcart
 · intro cart hcart
   rw [he.cart c hne] at hcart
   rw [he.sum c hne,hdiscount]
   exact h.discount cart hcart

/-- What a call on a cart did: for the cart itself, the totals that were stored at last. -/
structure Stored (db db' : Db) (cartid : Nat) (cart : Shoppingcart) : Prop where
 ok : db'.Ok
 elsewhere : Elsewhere db db' cartid
 cart : db'.shoppingcart cartid = some cart

lemma Stored.follows {cart : Shoppingcart} (h : Stored db db' cartid cart)
 (hprice : cart.ntotalprice = db'.sum db.displayPrice cartid)
 (hdiscount : cart.ndiscount = db'.sum db.discount cartid) : Follows db' cartid := by
 have hsku := h.elsewhere.sku
 constructor
 · intro hnone
   rw [h.cart] at hnone
   cases hnone
 · intro cart' hcart'
   obtain rfl := some.inj (h.cart.symm.trans hcart')
   rw [hprice]
   congr 1
   funext skuid
   rw [displayPrice,displayPrice,hsku]
 · intro cart' hcart'
   obtain rfl := some.inj (h.cart.symm.trans hcart')
   rw [hdiscount]
   congr 1
   funext skuid
   rw [discount,discount,hsku]

/-- What was left of a cart when its new rows are inserted: a cart that is not there keeps the rows
that name it. -/
def Db.leftover (db : Db) (rate : Nat → BigDecimal) (cartid : Nat) : BigDecimal :=
 if (db.shoppingcart cartid).isSome then 0 else db.sum rate cartid

lemma create_spec (h : db.Ok) {dto : ShoppingCartDTO}
 (hcall : db.createShoppingCartAndSKU dto = some db') :
 ∃ cart, Stored db db' dto.userId cart ∧ cart.nuserid = dto.userId ∧ cart.ntotalprice =
  requested (fun dto => dto.displayPrice.getD 0) (dto.skudtoList.getD []) ∧
  cart.ndiscount = requested (fun dto => dto.discount.getD 0) (dto.skudtoList.getD []) ∧
  cart.ntotalquantity = computeNumber (dto.skudtoList.getD []) ∧
  ∀ rate, db'.sum rate dto.userId = db.leftover rate dto.userId +
   requested (fun dto => rate dto.skuId) (dto.skudtoList.getD []) := by
 rw [createShoppingCartAndSKU] at hcall
 cases hprice : computeTotalPrice (dto.skudtoList.getD []) with
 | none => simp [hprice] at hcall
 | some totalPrice =>
  simp only [hprice] at hcall
  set list := dto.skudtoList.getD []
  set cart : Shoppingcart := ⟨dto.userId,computeDiscount list,computeNumber list,totalPrice⟩
  -- both branches insert the rows after the cart is stored
  obtain ⟨db1,rfl,hok1,hsku1,hcart1,hrows1,hkept1,hsum1⟩ :
   ∃ db1 : Db, db' = db1.insertAll dto.userId list ∧
   db1.Ok ∧ db1.sku = db.sku ∧ db1.shoppingcart = update db.shoppingcart dto.userId (some cart) ∧
   (∀ row ∈ db1.cartsku, row ∈ db.cartsku) ∧
   (∀ row ∈ db.cartsku, row.nshoppingcartid ≠ dto.userId → row ∈ db1.cartsku) ∧
   ∀ rate c, db1.sum rate c =
    if dto.userId = c then db.leftover rate dto.userId else db.sum rate c := by
   cases hcart : db.shoppingcart dto.userId with
   | none =>
    rw [hcart] at hcall
    refine ⟨_,(some.inj hcall).symm,h.storeShoppingcart _ _,rfl,rfl,fun _ hrow =>
     hrow,fun _ hrow _ => hrow,fun rate c => ?_⟩
    split
    · rename_i heq
      rw [leftover,hcart,heq]
      rfl
    · rfl
   | some old =>
    rw [hcart] at hcall
    dsimp only at hcall
    rw [deleteAll_eq] at hcall
    refine ⟨_,(some.inj hcall).symm,?_,rfl,rfl,?_,?_,?_⟩
    · exact ⟨h.keyed.filter _,fun row hrow => h.below row (mem_of_mem_filter hrow)⟩
    · exact fun row hrow => mem_of_mem_filter hrow
    · intro row hrow hne
      exact mem_filter.mpr ⟨hrow,decide_eq_true fun hin => hne ((h.mem_keys _ hrow).mp hin)⟩
    · intro rate c
      rw [leftover,hcart]
      exact sum_deleteCart (h.storeShoppingcart dto.userId cart) dto.userId rate c
  obtain ⟨hok,hsku,hcarts,hrows,hkept,hsum⟩ := insertAll_spec hok1 dto.userId list
  refine ⟨cart,⟨hok,⟨hsku.trans hsku1,fun c hne => ?_,fun row hrow hne => ?_,
   fun row hrow hne => hkept (hkept1 row hrow hne),fun c hne rate => ?_⟩,?_⟩,rfl,
   computeTotalPrice_eq hprice,computeDiscount_eq _,rfl,fun rate => ?_⟩
  · rw [hcarts,hcart1,update_of_ne hne]
  · exact ⟨row,hrows1 row ((hrows row hrow).resolve_right hne),rfl⟩
  · rw [hsum,hsum1,if_neg hne.symm,if_neg hne.symm,add_zero]
  · rw [hcarts,hcart1,update_self]
  · rw [hsum,hsum1,if_pos rfl,if_pos rfl]

lemma leftover_eq_zero (h : db.shoppingcart c = none → ∀ row ∈ db.cartsku, row.nshoppingcartid ≠ c)
 (rate : Nat → BigDecimal) : db.leftover rate c = 0 := by
 rw [leftover]
 cases hcart : db.shoppingcart c with
 | some cart => rfl
 | none =>
  apply Table.total_eq_zero
  intro row hrow
  exact if_neg (h hcart row hrow)

lemma mem_of_select (h : db.selectByREcCartskuKey cartid skuid = some (some row)) :
 row ∈ db.cartsku ∧ row.nshoppingcartid = cartid ∧ row.nskuid = skuid := by
 rw [selectByREcCartskuKey] at h
 split at h
 · cases h
 · rename_i r hfilter
   obtain rfl := some.inj (some.inj h)
   have hmem : r ∈ db.cartsku.filter fun row => row.nshoppingcartid = cartid ∧
    row.nskuid = skuid := by
    rw [hfilter]
    exact List.mem_singleton_self r
   obtain ⟨hrow,hkey⟩ := mem_filter.mp hmem
   exact ⟨hrow,of_decide_eq_true hkey⟩
 · cases h

lemma requested_singleton (rate : SKUDTO → BigDecimal) (dto : SKUDTO) :
 requested rate [dto] = rate dto*dto.quantity := by
 simp [requested]

lemma amount_of_ne (hrow : row.nshoppingcartid ≠ c) : amount rate c row = 0 :=
 if_neg hrow

lemma amount_of_eq (hrow : row.nshoppingcartid = c) :
 amount rate c row = rate row.nskuid*row.nquantity :=
 if_pos hrow

lemma stored_insert (h : db.Ok) (userid cartid skuid : Nat) (quantity : Int) (cart : Shoppingcart) :
 Stored db ((db.insertCartsku userid cartid skuid quantity).storeShoppingcart cartid cart) cartid
  cart := by
 refine ⟨(h.insertCartsku ..).storeShoppingcart _ _,⟨rfl,fun c hne => ?_,fun row hrow hne => ?_,
  fun row hrow _ => List.mem_append_left _ hrow,fun c hne rate => ?_⟩,?_⟩
 · exact update_of_ne hne _ _
 · obtain hold | hnew := mem_append.mp hrow
   · exact ⟨row,hold,rfl⟩
   · rw [mem_singleton.mp hnew] at hne
     exact absurd rfl hne
 · have hsum := sum_insertCartsku db rate userid cartid skuid c quantity
   rwa [if_neg hne.symm,add_zero] at hsum
 · exact update_self ..

lemma stored_update (h : db.Ok) (row' : Cartsku) (hrow : row ∈ db.cartsku)
 (hkey : row'.ncartskuid = row.ncartskuid) (hcart : row.nshoppingcartid = cartid)
 (hcart' : row'.nshoppingcartid = cartid) (cart : Shoppingcart) :
 Stored db ((db.updateCartsku row').storeShoppingcart cartid cart) cartid cart := by
 have hbelow : row'.ncartskuid < db.nextCartskuid := hkey ▸ h.below row hrow
 refine ⟨(h.updateCartsku row' hbelow).storeShoppingcart _ _,⟨rfl,fun c hne => ?_,
  fun r' hr' hne => ?_,fun r hr hne => ?_,fun c hne rate => ?_⟩,?_⟩
 · exact update_of_ne hne _ _
 · obtain ⟨r,hr,rfl⟩ := mem_map.mp hr'
   split at hne
   · exact absurd hcart' hne
   · rename_i hother
     exact ⟨r,hr,by rw [if_neg hother]⟩
 · have hother : r.ncartskuid ≠ row'.ncartskuid := by
    intro heq
    obtain rfl := h.keyed.eq_of_key_eq hr hrow (heq.trans hkey)
    exact hne hcart
   exact mem_map.mpr ⟨r,hr,if_neg hother⟩
 · have hsum := sum_updateCartsku h row' hrow hkey rate c
   rwa [amount_of_ne (hcart.trans_ne hne.symm),amount_of_ne (hcart'.trans_ne hne.symm),sub_zero,
    add_zero] at hsum
 · exact update_self ..

lemma stored_delete (h : db.Ok) (hrow : row ∈ db.cartsku)
 (hcart : row.nshoppingcartid = cartid) (cart : Shoppingcart) :
 Stored db ((db.deleteCartsku row.ncartskuid).storeShoppingcart cartid cart) cartid cart := by
 refine ⟨(h.deleteCartsku _).storeShoppingcart _ _,⟨rfl,fun c hne => ?_,fun row' hrow' _ => ?_,
  fun r hr hne => ?_,fun c hne rate => ?_⟩,?_⟩
 · exact update_of_ne hne _ _
 · exact ⟨row',mem_of_mem_filter hrow',rfl⟩
 · refine mem_filter.mpr ⟨hr,decide_eq_true fun heq => ?_⟩
   obtain rfl := h.keyed.eq_of_key_eq hr hrow heq
   exact hne hcart
 · have hsum := sum_deleteCartsku h hrow rate c
   rwa [amount_of_ne (hcart.trans_ne hne.symm),sub_zero] at hsum
 · exact update_self ..

lemma computeTotals_spec {dto : SKUDTO} {old cart : Shoppingcart}
 (hselect : db.selectByREcCartskuKey cartid dto.skuId = some (some row))
 (hsku : (db.sku dto.skuId).isSome = true)
 (h : db.computeQuantityDiscountTotalPrice cartid [dto] old = some cart) :
 cart.ntotalprice = old.ntotalprice-db.displayPrice dto.skuId*row.nquantity +
  dto.displayPrice.getD 0*dto.quantity ∧
  cart.ndiscount = old.ndiscount-db.discount dto.skuId*row.nquantity +
   dto.discount.getD 0*dto.quantity ∧
  cart.ntotalquantity ≡ old.ntotalquantity-row.nquantity+dto.quantity [ZMOD 2^32] ∧
  cart.nuserid = old.nuserid := by
 obtain ⟨sku,hsku⟩ := isSome_iff_exists.mp hsku
 rw [computeQuantityDiscountTotalPrice] at h
 cases hprice : computeTotalPrice [dto] with
 | none => simp [hprice] at h
 | some totalPrice =>
  simp only [hprice,originSums,hselect,hsku] at h
  cases hdiscount : sku.ndiscount with
  | none => simp [hdiscount] at h
  | some discount =>
   cases hdisplay : sku.ndisplayprice with
   | none => simp [hdiscount,hdisplay] at h
   | some price =>
    simp only [hdiscount,hdisplay] at h
    cases h
    have hp : db.displayPrice dto.skuId = price := by simp [Db.displayPrice,hsku,hdisplay]
    have hd : db.discount dto.skuId = discount := by simp [Db.discount,hsku,hdiscount]
    rw [hp,hd]
    refine ⟨?_,?_,?_,rfl⟩
    · rw [computeTotalPrice_eq hprice,requested_singleton]
      ring
    · rw [computeDiscount_eq,requested_singleton]
      ring
    · have hless := (toInt_modEq (old.ntotalquantity-toInt (0+row.nquantity))).trans
       ((toInt_zero_add_modEq row.nquantity).sub_left old.ntotalquantity)
      exact (toInt_modEq _).trans (hless.add (computeNumber_singleton dto))

/-- A successful change of a product: `quantity` is what the cart held of it before. -/
lemma update_spec (h : db.Ok) {list : Option (List SKUDTO)} {userid : Nat}
 (hcall : db.updateShoppingCartSKU list userid cartid skuid = some db') :
 ∃ dto old cart, ∃ quantity : Int, list = some [dto] ∧ db.shoppingcart cartid = some old ∧
  Stored db db' cartid cart ∧ cart.nuserid = old.nuserid ∧
  cart.ntotalprice = old.ntotalprice-db.displayPrice skuid*quantity +
   dto.displayPrice.getD 0*dto.quantity ∧
  cart.ndiscount = old.ndiscount-db.discount skuid*quantity +
   dto.discount.getD 0*dto.quantity ∧
  cart.ntotalquantity ≡ old.ntotalquantity-quantity+dto.quantity [ZMOD 2^32] ∧
  ∀ rate, db'.sum rate cartid =
   db.sum rate cartid-rate skuid*quantity+rate skuid*dto.quantity := by
 rw [updateShoppingCartSKU.eq_def] at hcall
 split at hcall
 case h_2 => cases hcall
 rename_i old dto hold
 dsimp only at hcall
 cases hsku : db.sku skuid with
 | none => simp [hsku] at hcall
 | some sku =>
  simp only [hsku] at hcall
  cases hprice : computeTotalPrice [{ dto with skuId := skuid }] with
  | none => simp [hprice] at hcall
  | some totalPrice =>
   simp only [hprice] at hcall
   cases hselect : db.selectByREcCartskuKey cartid skuid with
   | none => simp [hselect] at hcall
   | some found =>
    rw [hselect] at hcall
    cases found with
    | none =>
     cases hcall
     refine ⟨dto,old,_,0,rfl,hold,stored_insert h ..,rfl,?_,?_,?_,fun rate => ?_⟩
     · rw [computeTotalPrice_eq hprice,requested_singleton]
       simp
     · rw [computeDiscount_eq,requested_singleton]
       simp
     · rw [sub_zero]
       exact (toInt_modEq _).trans ((computeNumber_singleton _).add_left old.ntotalquantity)
     · rw [sum_storeShoppingcart,sum_insertCartsku,if_pos rfl]
       simp
    | some row =>
     obtain ⟨hrow,hcart,hskuid⟩ := mem_of_select hselect
     dsimp only at hcall
     cases hcompute : db.computeQuantityDiscountTotalPrice cartid
      [{ dto with skuId := skuid }] old with
     | none => simp [hcompute] at hcall
     | some cart =>
      simp only [hcompute] at hcall
      cases hcall
      obtain ⟨htotal,hdiscount,hnumber,howner⟩ :=
       computeTotals_spec hselect (by rw [hsku]; rfl) hcompute
      have hstored :=
       stored_update h { row with nquantity := dto.quantity } hrow rfl hcart hcart cart
      refine ⟨dto,old,cart,row.nquantity,rfl,hold,hstored,howner,htotal,hdiscount,hnumber,
       fun rate => ?_⟩
      have hsum :=
       sum_updateCartsku h { row with nquantity := dto.quantity } hrow rfl rate cartid
      rw [amount_of_eq hcart,amount_of_eq (by exact hcart)] at hsum
      rw [sum_storeShoppingcart,hsum,← hskuid]

lemma delete_spec (h : db.Ok) (hcall : db.deleteShoppingCartSKU cartid skuid = some db') :
 ∃ old cart, ∃ quantity : Int, db.shoppingcart cartid = some old ∧ Stored db db' cartid cart ∧
  cart.nuserid = old.nuserid ∧
  cart.ntotalprice = old.ntotalprice-db.displayPrice skuid*quantity ∧
  cart.ndiscount = old.ndiscount-db.discount skuid*quantity ∧
  cart.ntotalquantity ≡ old.ntotalquantity-quantity [ZMOD 2^32] ∧
  ∀ rate, db'.sum rate cartid = db.sum rate cartid-rate skuid*quantity := by
 rw [deleteShoppingCartSKU.eq_def] at hcall
 split at hcall
 case h_2 => cases hcall
 rename_i old row sku hold hselect hsku
 obtain ⟨hrow,hcart,hskuid⟩ := mem_of_select hselect
 dsimp only at hcall
 cases hprice : computeTotalPrice [convertToSKUDTO skuid sku row.nquantity] with
 | none => simp [hprice] at hcall
 | some totalPrice =>
  simp only [hprice] at hcall
  cases hcall
  refine ⟨old,_,row.nquantity,hold,stored_delete h hrow hcart _,rfl,?_,?_,?_,fun rate => ?_⟩
  · rw [computeTotalPrice_eq hprice,requested_singleton,displayPrice,hsku]
    rfl
  · rw [computeDiscount_eq,requested_singleton,discount,hsku]
    rfl
  · exact (toInt_modEq _).trans ((computeNumber_singleton _).sub_left old.ntotalquantity)
  · have hsum := sum_deleteCartsku h hrow rate cartid
    rw [amount_of_eq hcart,hskuid] at hsum
    exact hsum

-- Runs

/-- The cart a call works on. -/
def Call.cart : Call → Nat
 | .createShoppingCartAndSKU shoppingCartDTO => shoppingCartDTO.userId
 | .updateShoppingCartSKU _ _ cartid _ => cartid
 | .deleteShoppingCartSKU cartid _ => cartid

/-- The products in the request have the amounts of the catalogue. -/
def Call.Honest (db : Db) : Call → Prop
 | .createShoppingCartAndSKU shoppingCartDTO =>
  ∀ dto ∈ shoppingCartDTO.skudtoList.getD [], dto.Honest db dto.skuId
 | .updateShoppingCartSKU skudtoList _ _ skuid => ∀ dto ∈ skudtoList.getD [], dto.Honest db skuid
 | .deleteShoppingCartSKU _ _ => True

lemma call_follows {call : Call} (h : db.Ok) (hc : Follows db c)
 (hhonest : call.cart = c → call.Honest db) (hcall : db.call call = some db') :
 db'.Ok ∧ db'.sku = db.sku ∧ Follows db' c := by
 have hfinish : ∀ cart, Stored db db' call.cart cart →
  (call.cart = c → Follows db' call.cart) → db'.Ok ∧ db'.sku = db.sku ∧ Follows db' c := by
  intro cart hstored hsame
  refine ⟨hstored.ok,hstored.elsewhere.sku,?_⟩
  by_cases heq : call.cart = c
  · exact heq ▸ hsame heq
  · exact hc.elsewhere hstored.elsewhere (Ne.symm heq)
 cases call with
 | createShoppingCartAndSKU dto =>
  obtain ⟨cart,hstored,-,hprice,hdiscount,-,hsum⟩ := create_spec h hcall
  refine hfinish cart hstored fun heq => ?_
  obtain rfl : dto.userId = c := heq
  apply hstored.follows
  · rw [hprice,hsum,leftover_eq_zero hc.absent,zero_add]
    exact requested_congr fun d hd => (hhonest rfl d hd).1
  · rw [hdiscount,hsum,leftover_eq_zero hc.absent,zero_add]
    exact requested_congr fun d hd => (hhonest rfl d hd).2
 | updateShoppingCartSKU list userid cartid skuid =>
  obtain ⟨dto,old,cart,quantity,rfl,hold,hstored,-,hprice,hdiscount,-,hsum⟩ := update_spec h hcall
  refine hfinish cart hstored fun heq => ?_
  obtain ⟨hp,hd⟩ := hhonest heq dto (by simp)
  obtain rfl : cartid = c := heq
  apply hstored.follows
  · rw [hprice,hsum,hp,hc.price old hold]
  · rw [hdiscount,hsum,hd,hc.discount old hold]
 | deleteShoppingCartSKU cartid skuid =>
  obtain ⟨old,cart,quantity,hold,hstored,-,hprice,hdiscount,-,hsum⟩ := delete_spec h hcall
  refine hfinish cart hstored fun heq => ?_
  obtain rfl : cartid = c := heq
  apply hstored.follows
  · rw [hprice,hsum,hc.price old hold]
  · rw [hdiscount,hsum,hc.discount old hold]

lemma run_follows {calls : List Call} (h : db.Ok) (hc : Follows db c)
 (hhonest : ∀ call ∈ calls, call.cart = c → call.Honest db) (hrun : db.run calls = some db') :
 db'.Ok ∧ db'.sku = db.sku ∧ Follows db' c := by
 induction calls generalizing db with
 | nil =>
  cases hrun
  exact ⟨h,rfl,hc⟩
 | cons call calls ih =>
  rw [run,List.foldlM_cons] at hrun
  obtain ⟨db1,hcall,hrest⟩ := bind_eq_some_iff.mp hrun
  obtain ⟨hok1,hsku1,hc1⟩ := call_follows h hc (hhonest call List.mem_cons_self) hcall
  have hhonest1 : ∀ call ∈ calls, call.cart = c → call.Honest db1 := by
   intro call' hmem hcart
   have hold := hhonest call' (List.mem_cons_of_mem call hmem) hcart
   cases call' with
   | createShoppingCartAndSKU dto | updateShoppingCartSKU list userid cartid skuid =>
    intro d hd
    have hd := hold d hd
    rwa [SKUDTO.Honest,displayPrice,discount,← hsku1] at hd
   | deleteShoppingCartSKU cartid skuid => trivial
  obtain ⟨hok,hsku,hfollows⟩ := ih hok1 hc1 hhonest1 hrest
  exact ⟨hok,hsku.trans hsku1,hfollows⟩

/-- After any successful calls on a new cart, on other carts as well, its totals are the sums at the
rates of the catalogue, and zero when the cart has no rows. -/
theorem totals_follow_catalogue (db db' : Db) (calls : List Call) (c : Nat) (cart : Shoppingcart)
 (h : db.Ok) (hnew : db.shoppingcart c = none)
 (hempty : ∀ row ∈ db.cartsku, row.nshoppingcartid ≠ c)
 (hhonest : ∀ call ∈ calls, call.cart = c → call.Honest db) (hrun : db.run calls = some db')
 (hcart : db'.shoppingcart c = some cart) :
 cart.ntotalprice = db'.sum db.displayPrice c ∧ cart.ndiscount = db'.sum db.discount c ∧
  (db'.selectByShoppingCartId c = [] → cart.ntotalprice = 0 ∧ cart.ndiscount = 0) := by
 have hfollows : Follows db c := by
  refine ⟨fun _ => hempty,fun cart hcart => ?_,fun cart hcart => ?_⟩
  all_goals
   rw [hnew] at hcart
   cases hcart
 obtain ⟨-,hsku,hend⟩ := run_follows h hfollows hhonest hrun
 have hrate : db'.displayPrice = db.displayPrice ∧ db'.discount = db.discount := by
  constructor
  · funext skuid
    rw [displayPrice,displayPrice,hsku]
  · funext skuid
    rw [discount,discount,hsku]
 have hprice := hend.price cart hcart
 have hdiscount := hend.discount cart hcart
 rw [hrate.1] at hprice
 rw [hrate.2] at hdiscount
 refine ⟨hprice,hdiscount,fun hnone => ?_⟩
 have hzero : ∀ rate, db'.sum rate c = 0 := by
  intro rate
  apply Table.total_eq_zero
  intro row hrow
  have hnot := List.filter_eq_nil_iff.mp hnone row hrow
  exact if_neg (by simpa using hnot)
 rw [hprice,hdiscount]
 exact ⟨hzero _,hzero _⟩

/-- SKU 1 costs 100 with a discount of 5, SKU 2 costs 30 without one. -/
def shopDb : Db where
 sku skuid := if skuid = 1 then some ⟨some 100,some 5⟩ else if skuid = 2 then some ⟨some 30,some 0⟩
  else none
 shoppingcart _ := none
 cartsku := []
 nextCartskuid := 0

def honestCalls : List Call :=
 [.createShoppingCartAndSKU ⟨7,some [⟨1,some 100,some 5,2⟩]⟩,
  .updateShoppingCartSKU (some [⟨2,some 30,none,4⟩]) 7 7 2,
  .updateShoppingCartSKU (some [⟨1,some 100,some 5,3⟩]) 7 7 1,
  .deleteShoppingCartSKU 7 2]

lemma ok_shopDb : shopDb.Ok :=
 ⟨List.nodup_nil,fun _ hrow => absurd hrow not_mem_nil⟩

theorem totals_follow_catalogue_mixed : ∃ db' cart, shopDb.run honestCalls = some db' ∧
 db'.shoppingcart 7 = some cart ∧ cart.ntotalprice = 300 ∧
 cart.ntotalprice = db'.sum shopDb.displayPrice 7 ∧ cart.ndiscount = db'.sum shopDb.discount 7 := by
 have hhonest : ∀ call ∈ honestCalls, call.cart = 7 → call.Honest shopDb := by
  intro call hcall _
  simp only [honestCalls,List.mem_cons,not_mem_nil,or_false] at hcall
  obtain rfl | rfl | rfl | rfl := hcall
  · simp [Call.Honest,SKUDTO.Honest,displayPrice,discount,shopDb]
  · simp [Call.Honest,SKUDTO.Honest,displayPrice,discount,shopDb]
  · simp [Call.Honest,SKUDTO.Honest,displayPrice,discount,shopDb]
  · trivial
 obtain ⟨db',hrun,cart,hcart,hprice⟩ : ∃ db', shopDb.run honestCalls = some db' ∧
  ∃ cart, db'.shoppingcart 7 = some cart ∧ cart.ntotalprice = 300 := by
  have hvalue : (shopDb.run honestCalls).bind (fun db' => (db'.shoppingcart 7).map
   Shoppingcart.ntotalprice) = some 300 := by decide +kernel
  obtain ⟨db',hrun,hcart⟩ := bind_eq_some_iff.mp hvalue
  obtain ⟨cart,hcart,hprice⟩ := map_eq_some_iff.mp hcart
  exact ⟨db',hrun,cart,hcart,hprice⟩
 obtain ⟨htotal,hdiscount,-⟩ := totals_follow_catalogue shopDb db' honestCalls 7 cart ok_shopDb rfl
  (fun _ hrow => absurd hrow not_mem_nil) hhonest hrun hcart
 exact ⟨db',cart,hrun,hcart,hprice,htotal,hdiscount⟩

/-- A request with a price of its own: the total is what the request says, and after the deletion of
the last row it is not zero. -/
def ownPrice : List Call :=
 [.createShoppingCartAndSKU ⟨7,some [⟨1,some 1,some 5,2⟩]⟩,.deleteShoppingCartSKU 7 1]

theorem totals_miss_catalogue :
 (∃ db' cart, shopDb.run (ownPrice.take 1) = some db' ∧ db'.shoppingcart 7 = some cart ∧
  cart.ntotalprice = 2 ∧ db'.sum shopDb.displayPrice 7 = 200) ∧
 ∃ db' cart, shopDb.run ownPrice = some db' ∧ db'.shoppingcart 7 = some cart ∧
  db'.selectByShoppingCartId 7 = [] ∧ cart.ntotalprice = -198 := by
 refine ⟨⟨_,_,rfl,rfl,?_,?_⟩,_,_,rfl,rfl,?_,?_⟩ <;> decide +kernel

end Packages.CartService

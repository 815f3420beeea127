import Packages.CartService.Totals

/-!
# Quantity of a cart

The stored total quantity of a cart is an `int` that every call adjusts. Modulo `2 ^ 32` it stays
the sum of the quantities of the rows, whatever the requests ask for.
-/

namespace Packages.CartService

variable {db db' : Db} {c : Nat}

/-- The sum of the quantities of the rows of a cart. -/
def Db.quantity (db : Db) (cartid : Nat) : Int :=
 ((db.selectByShoppingCartId cartid).map Cartsku.nquantity).sum

lemma sum_one (db : Db) (c : Nat) : db.sum (fun _ => 1) c = db.quantity c := by
 rw [Db.sum,Db.quantity,Db.selectByShoppingCartId]
 induction db.cartsku with
 | nil => simp
 | cons row rows ih =>
  rw [Table.total_cons,ih]
  by_cases hrow : row.nshoppingcartid = c
  · rw [List.filter_cons_of_pos (by simpa using hrow),amount_of_eq hrow]
    simp
  · rw [List.filter_cons_of_neg (by simpa using hrow),amount_of_ne hrow,zero_add]

lemma requested_one (list : List SKUDTO) :
 requested (fun _ => 1) list = ((list.map SKUDTO.quantity).sum : Int) := by
 induction list with
 | nil => simp [requested]
 | cons dto list ih =>
  rw [requested,Table.total_cons,← requested,ih]
  simp

lemma computeNumber_modEq (list : List SKUDTO) :
 computeNumber list ≡ (list.map SKUDTO.quantity).sum [ZMOD 2^32] := by
 have hfold : ∀ acc : Int,list.foldl (fun quantity dto => toInt (quantity+dto.quantity)) acc ≡
  acc+(list.map SKUDTO.quantity).sum [ZMOD 2^32] := by
  induction list with
  | nil => intro acc; simp
  | cons dto list ih =>
   intro acc
   have hrest := ih (toInt (acc+dto.quantity))
   have hfirst := (toInt_modEq (acc+dto.quantity)).add_right (list.map SKUDTO.quantity).sum
   rw [List.map_cons,List.sum_cons,← add_assoc]
   exact hrest.trans hfirst
 have hzero := hfold 0
 rwa [zero_add] at hzero

/-- The stored quantity of a cart is that of its rows; without the cart there are no rows. -/
structure Counted (db : Db) (c : Nat) : Prop where
 absent : db.shoppingcart c = none → ∀ row ∈ db.cartsku, row.nshoppingcartid ≠ c
 total : ∀ cart, db.shoppingcart c = some cart → cart.ntotalquantity ≡ db.quantity c [ZMOD 2^32]

lemma Counted.elsewhere {cartid : Nat} (h : Counted db c) (he : Elsewhere db db' cartid)
 (hne : c ≠ cartid) : Counted db' c := by
 refine ⟨he.absent hne h.absent,fun cart hcart => ?_⟩
 have hquantity : db'.quantity c = db.quantity c := by
  have hsum := he.sum c hne fun _ => 1
  rw [sum_one,sum_one] at hsum
  exact_mod_cast hsum
 rw [hquantity]
 exact h.total cart (he.cart c hne ▸ hcart)

lemma Stored.counted {cart : Shoppingcart} (h : Stored db db' c cart)
 (htotal : cart.ntotalquantity ≡ db'.quantity c [ZMOD 2^32]) : Counted db' c := by
 constructor
 · intro hnone
   rw [h.cart] at hnone
   cases hnone
 · intro cart' hcart'
   rwa [← Option.some.inj (h.cart.symm.trans hcart')]

lemma quantity_of_sum {x : Int} (h : db'.sum (fun _ => 1) c = x) : db'.quantity c = x := by
 rw [sum_one] at h
 exact_mod_cast h

lemma call_counted {call : Call} (h : db.Ok) (hc : Counted db c) (hcall : db.call call = some db') :
 db'.Ok ∧ Counted db' c := by
 have hfinish : ∀ cart, Stored db db' call.cart cart →
  (call.cart = c → cart.ntotalquantity ≡ db'.quantity c [ZMOD 2^32]) →
  db'.Ok ∧ Counted db' c := by
  intro cart hstored hsame
  refine ⟨hstored.ok,?_⟩
  by_cases heq : call.cart = c
  · subst heq
    exact hstored.counted (hsame rfl)
  · exact hc.elsewhere hstored.elsewhere (Ne.symm heq)
 cases call with
 | createShoppingCartAndSKU dto =>
  obtain ⟨cart,hstored,-,-,-,hnumber,hsum⟩ := create_spec h hcall
  refine hfinish cart hstored fun heq => ?_
  obtain rfl : dto.userId = c := heq
  have hquantity : db'.quantity dto.userId =
   ((dto.skudtoList.getD []).map SKUDTO.quantity).sum := by
   apply quantity_of_sum
   rw [hsum,leftover_eq_zero hc.absent,zero_add,requested_one]
  rw [hnumber,hquantity]
  exact computeNumber_modEq _
 | updateShoppingCartSKU list userid cartid skuid =>
  obtain ⟨dto,old,cart,quantity,rfl,hold,hstored,-,-,-,hnumber,hsum⟩ := update_spec h hcall
  refine hfinish cart hstored fun heq => ?_
  obtain rfl : cartid = c := heq
  have hquantity : db'.quantity cartid = db.quantity cartid-quantity+dto.quantity := by
   apply quantity_of_sum
   rw [hsum,sum_one]
   push_cast
   ring
  rw [hquantity]
  exact hnumber.trans (((hc.total old hold).sub_right quantity).add_right dto.quantity)
 | deleteShoppingCartSKU cartid skuid =>
  obtain ⟨old,cart,quantity,hold,hstored,-,-,-,hnumber,hsum⟩ := delete_spec h hcall
  refine hfinish cart hstored fun heq => ?_
  obtain rfl : cartid = c := heq
  have hquantity : db'.quantity cartid = db.quantity cartid-quantity := by
   apply quantity_of_sum
   rw [hsum,sum_one]
   push_cast
   ring
  rw [hquantity]
  exact hnumber.trans ((hc.total old hold).sub_right quantity)

/-- After any successful calls the stored quantity of a cart is the sum of those of its rows. A cart
that is not there yet and has no rows is counted at the start. -/
theorem cart_quantity (db db' : Db) (calls : List Call) (c : Nat) (h : db.Ok) (hc : Counted db c)
 (hrun : db.run calls = some db') (cart : Shoppingcart) (hcart : db'.shoppingcart c = some cart) :
 cart.ntotalquantity ≡ db'.quantity c [ZMOD 2^32] := by
 have hend : Counted db' c := by
  clear hcart
  induction calls generalizing db with
  | nil =>
   cases hrun
   exact hc
  | cons call calls ih =>
   rw [Db.run,List.foldlM_cons] at hrun
   obtain ⟨db1,hcall,hrest⟩ := Option.bind_eq_some_iff.mp hrun
   obtain ⟨hok,hcounted⟩ := call_counted h hc hcall
   exact ih db1 hok hcounted hrest
 exact hend.total cart hcart

/-- The two quantities together leave the range of an `int`. -/
def largeCalls : List Call :=
 [.createShoppingCartAndSKU ⟨7,some [⟨1,some 100,some 5,2^31-1⟩]⟩,
  .updateShoppingCartSKU (some [⟨2,some 30,none,2⟩]) 7 7 2]

theorem cart_quantity_wraps : ∃ db' cart, shopDb.run largeCalls = some db' ∧
 db'.shoppingcart 7 = some cart ∧ cart.ntotalquantity = -2^31+1 ∧ db'.quantity 7 = 2^31+1 ∧
 cart.ntotalquantity ≡ db'.quantity 7 [ZMOD 2^32] := by
 have hempty : Counted shopDb 7 := ⟨fun _ _ hrow => absurd hrow List.not_mem_nil,fun cart hcart =>
  absurd hcart (Option.some_ne_none cart).symm⟩
 refine ⟨_,_,rfl,rfl,?_,?_,cart_quantity shopDb _ largeCalls 7 ok_shopDb hempty rfl _ rfl⟩
 all_goals decide +kernel

end Packages.CartService

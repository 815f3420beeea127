import Packages.CartService.Controller
import Packages.CartService.Totals

/-!
# Carts of other users

A request changes the cart it names and no other. Nothing compares the cart with the user of the
request, so other users are safe exactly as long as the requests name carts of their own user.
-/

namespace Packages.CartService

open Function List

variable {s s' s'' s0 : Store} {db db' : Db} {u c : Nat} {answer : RedisAnswer} {r : Request}

/-- The tables have their keys, and `cartIds` has the ids of the carts. -/
structure Store.Ok (s : Store) : Prop where
 db : s.db.Ok
 nodup : s.cartIds.Nodup
 listed : ∀ c, c ∈ s.cartIds ↔ (s.db.shoppingcart c).isSome = true

/-- Nothing of another user than `u` was changed or deleted. -/
structure Kept (u : Nat) (s s' : Store) : Prop where
 cart : ∀ c cart, s.db.shoppingcart c = some cart → cart.nuserid ≠ u →
  s'.db.shoppingcart c = some cart
 row : ∀ row ∈ s.db.cartsku, row.nuserid ≠ u → row ∈ s'.db.cartsku
 cached : ∀ c dto, s.redis c = some dto → dto.userId ≠ u → s'.redis c = some dto

lemma Kept.refl (u : Nat) (s : Store) : Kept u s s :=
 ⟨fun _ _ h _ => h,fun _ h _ => h,fun _ _ h _ => h⟩

lemma Kept.trans (h : Kept u s s') (h' : Kept u s' s'') : Kept u s s'' where
 cart c cart hcart hne := h'.cart c cart (h.cart c cart hcart hne) hne
 row row hrow hne := h'.row row (h.row row hrow hne) hne
 cached c dto hdto hne := h'.cached c dto (h.cached c dto hdto hne) hne

-- Requests that stay at home

/-- What the tables and Redis have under the cart id is the user's. -/
def Mine (s : Store) (u c : Nat) : Prop :=
 (∀ cart ∈ s.db.shoppingcart c, cart.nuserid = u) ∧
 (∀ row ∈ s.db.cartsku, row.nshoppingcartid = c → row.nuserid = u) ∧
 ∀ dto ∈ s.redis c, dto.userId = u

instance (s : Store) (u c : Nat) : Decidable (Mine s u c) := inferInstanceAs (Decidable (_ ∧ _ ∧ _))

/-- A cart of the user has no rows of others. -/
def Unmixed (s : Store) (u c : Nat) : Prop :=
 ∀ cart ∈ s.db.shoppingcart c, cart.nuserid = u →
  ∀ row ∈ s.db.cartsku, row.nshoppingcartid = c → row.nuserid = u

instance (s : Store) (u c : Nat) : Decidable (Unmixed s u c) :=
 inferInstanceAs (Decidable (∀ cart ∈ s.db.shoppingcart c, _))

/-- A request that writes names a cart id under which there is nothing of others; one that reads may
name any. -/
def Own (s : Store) : Request → Prop
 | .createShoppingCart shoppingCartDTO => Mine s shoppingCartDTO.userId shoppingCartDTO.userId
 | .getShoppingCart userid cartid => Unmixed s userid cartid
 | .getShoppingCartByUser userid => ∀ cartid ∈ s.selectByUserId userid, Unmixed s userid cartid
 | .deleteShoppingCart userid cartid => Mine s userid cartid
 | .updateShoppingCartProduct _ userid cartid _ => Mine s userid cartid
 | .deleteShoppingCartProduct userid cartid _ => Mine s userid cartid

instance (s : Store) : (r : Request) → Decidable (Own s r)
 | .createShoppingCart _ | .deleteShoppingCart _ _ | .updateShoppingCartProduct _ _ _ _
 | .deleteShoppingCartProduct _ _ _ => inferInstanceAs (Decidable (Mine ..))
 | .getShoppingCart _ _ => inferInstanceAs (Decidable (Unmixed ..))
 | .getShoppingCartByUser _ => inferInstanceAs (Decidable (∀ cartid ∈ _, Unmixed ..))

lemma Mine.kept (h : Mine s u c)
 (hcart : ∀ c', c' ≠ c → s'.db.shoppingcart c' = s.db.shoppingcart c')
 (hrow : ∀ row ∈ s.db.cartsku, row.nshoppingcartid ≠ c → row ∈ s'.db.cartsku)
 (hcached : ∀ c', c' ≠ c → s'.redis c' = s.redis c') : Kept u s s' := by
 refine ⟨fun c' cart hc' hne => ?_,fun row hmem hne => ?_,fun c' dto hc' hne => ?_⟩
 · have hother : c' ≠ c := by
    rintro rfl
    exact hne (h.1 cart hc')
   rw [hcart c' hother,hc']
 · exact hrow row hmem fun heq => hne (h.2.1 row hmem heq)
 · have hother : c' ≠ c := by
    rintro rfl
    exact hne (h.2.2 dto hc')
   rw [hcached c' hother,hc']

lemma Store.Ok.commit (h : s.Ok) (hmine : Mine s u c) {result : Option (Db × CartDTO)}
 (hresult : ∀ db' dto, result = some (db',dto) → dto.nshoppingcartid = c ∧
  ∃ cart, Stored s.db db' c cart) :
 (s.commit answer result).2.Ok ∧ Kept u s (s.commit answer result).2 := by
 unfold Store.commit
 split
 · next db' dto =>
   obtain ⟨hid,cart,hstored⟩ := hresult db' dto rfl
   rw [hid]
   refine ⟨⟨hstored.ok,?_,fun c' => ?_⟩,hmine.kept hstored.elsewhere.cart hstored.elsewhere.kept ?_⟩
   · show (if c ∈ s.cartIds then s.cartIds else c::s.cartIds).Nodup
     split
     · exact h.nodup
     · next hnot => exact nodup_cons.mpr ⟨hnot,h.nodup⟩
   · show c' ∈ (if c ∈ s.cartIds then s.cartIds else c::s.cartIds) ↔
      (db'.shoppingcart c').isSome = true
     by_cases hc' : c' = c
     · subst hc'
       rw [hstored.cart]
       split
       · next hmem => exact iff_of_true hmem rfl
       · exact iff_of_true mem_cons_self rfl
     · rw [hstored.elsewhere.cart c' hc',← h.listed c']
       split
       · rfl
       · rw [mem_cons,or_iff_right hc']
   · exact fun c' hne => update_of_ne hne ..
 · exact ⟨h,.refl u s⟩

lemma returnCart_spec {result : Option Db}
 (h : ∀ db', result = some db' → ∃ cart, Stored db db' c cart)
 {db' : Db} {dto : CartDTO} (hcall : Db.returnCart c result = some (db',dto)) :
 dto.nshoppingcartid = c ∧ ∃ cart, Stored db db' c cart := by
 obtain ⟨db1,hresult,hmap⟩ := Option.bind_eq_some_iff.mp hcall
 obtain ⟨cart,-,heq⟩ := Option.map_eq_some_iff.mp hmap
 cases heq
 exact ⟨rfl,h db' hresult⟩

lemma createToMySQL_spec (h : db.Ok) {shoppingCartDTO : ShoppingCartDTO} {dto : CartDTO}
 (hcall : db.createToMySQL shoppingCartDTO = some (db',dto)) :
 dto.nshoppingcartid = shoppingCartDTO.userId ∧
  ∃ cart, Stored db db' shoppingCartDTO.userId cart := by
 obtain ⟨db1,hcreate,hmap⟩ := Option.bind_eq_some_iff.mp hcall
 obtain ⟨cart,-,heq⟩ := Option.map_eq_some_iff.mp hmap
 cases heq
 obtain ⟨cart',hstored,-⟩ := create_spec h hcreate
 exact ⟨rfl,cart',hstored⟩

lemma deleteKeys_spec (c : Nat) (skuIdList : List Nat) (db : Db) :
 (skuIdList.foldl (fun db skuid => db.deleteByREcCartskuKey c skuid) db).shoppingcart =
 db.shoppingcart ∧
 (db.Ok → (skuIdList.foldl (fun db skuid => db.deleteByREcCartskuKey c skuid) db).Ok) ∧
 ∀ row ∈ db.cartsku, row.nshoppingcartid ≠ c →
  row ∈ (skuIdList.foldl (fun db skuid => db.deleteByREcCartskuKey c skuid) db).cartsku := by
 induction skuIdList generalizing db with
 | nil => exact ⟨rfl,fun h => h,fun _ hrow _ => hrow⟩
 | cons skuid skuIdList ih =>
  obtain ⟨hcart,hok,hrow⟩ := ih (db.deleteByREcCartskuKey c skuid)
  refine ⟨hcart,fun h => hok ⟨h.keyed.filter _,fun row hr => h.below row (mem_of_mem_filter hr)⟩,
   fun row hr hne => hrow row ?_ hne⟩
  exact mem_filter.mpr ⟨hr,decide_eq_true fun hboth => hne hboth.1⟩

lemma Store.Ok.deleteCart (h : s.Ok) (hmine : Mine s u c) {redis : Nat → Option CartDTO}
 (hredis : ∀ c', c' ≠ c → redis c' = s.redis c') :
 (s.deleteCart c redis).Ok ∧ Kept u s (s.deleteCart c redis) := by
 obtain ⟨hcart,hok,hrow⟩ := deleteKeys_spec c ((s.db.selectByShoppingCartId c).map (·.nskuid)) s.db
 have hother : ∀ c', c' ≠ c →
  (s.db.deleteShoppingCartAndSKU c).shoppingcart c' = s.db.shoppingcart c' := by
  intro c' hne
  exact (update_of_ne hne ..).trans (congrFun hcart c')
 refine ⟨⟨⟨(hok h.db).keyed,(hok h.db).below⟩,h.nodup.erase c,fun c' => ?_⟩,
  hmine.kept hother hrow hredis⟩
 show c' ∈ s.cartIds.erase c ↔ ((s.db.deleteShoppingCartAndSKU c).shoppingcart c').isSome = true
 rw [h.nodup.mem_erase_iff]
 by_cases hc' : c' = c
 · subst hc'
   have hnone : (s.db.deleteShoppingCartAndSKU c').shoppingcart c' = none := update_self ..
   rw [hnone]
   exact iff_of_false (fun h => h.1 rfl) Bool.false_ne_true
 · rw [hother c' hc',← h.listed c',and_iff_right hc']

-- One request

lemma Store.Ok.handle (h : s.Ok) (answer : RedisAnswer) (hown : Own s r) :
 (s.handle answer r).2.Ok ∧ Kept r.userid s (s.handle answer r).2 := by
 cases r with
 | createShoppingCart shoppingCartDTO =>
  exact h.commit hown fun db' dto hcall => createToMySQL_spec h.db hcall
 | getShoppingCart userid cartid => exact ⟨h,.refl _ s⟩
 | getShoppingCartByUser userid =>
  simp only [Store.handle]
  split <;> exact ⟨h,.refl _ s⟩
 | deleteShoppingCart userid cartid =>
  simp only [Store.handle]
  split
  · exact h.deleteCart hown fun c' hne => update_of_ne hne ..
  · exact h.deleteCart hown fun _ _ => rfl
  · exact ⟨h,.refl _ s⟩
  · exact ⟨h,.refl _ s⟩
 | updateShoppingCartProduct skudtoList userid cartid skuid =>
  refine h.commit hown fun db' dto hcall => returnCart_spec (fun db' hupdate => ?_) hcall
  obtain ⟨-,-,cart,-,-,-,hstored,-⟩ := update_spec h.db hupdate
  exact ⟨cart,hstored⟩
 | deleteShoppingCartProduct userid cartid skuid =>
  refine h.commit hown fun db' dto hcall => returnCart_spec (fun db' hdelete => ?_) hcall
  obtain ⟨-,cart,-,-,hstored,-⟩ := delete_spec h.db hdelete
  exact ⟨cart,hstored⟩

/-- A cart in a response is the user's: it is a cached cart of the user or is read from rows of the
user. -/
def Response.Of (s : Store) (u : Nat) : Response → Prop
 | .cart dto => dto.userId = u ∧ ((∃ c, s.redis c = some dto) ∨
  ∃ c cart, s.db.shoppingcart c = some cart ∧ cart.nuserid = u ∧ dto = s.db.cartDTO c cart ∧
   ∀ row ∈ s.db.selectByShoppingCartId c, row.nuserid = u)
 | _ => True

lemma getShoppingCart_of (hunmixed : Unmixed s u c) : (s.getShoppingCart answer u c).Of s u := by
 have hmysql : (s.getShoppingCartByMySQL u c).Of s u := by
  unfold Store.getShoppingCartByMySQL
  split
  · trivial
  · next cart hcart =>
    split
    · next hu =>
      refine ⟨hu,.inr ⟨c,cart,hcart,hu,rfl,fun row hrow => ?_⟩⟩
      obtain ⟨hmem,hc⟩ := mem_filter.mp hrow
      exact hunmixed cart hcart hu row hmem (of_decide_eq_true hc)
    · trivial
 unfold Store.getShoppingCart
 split
 · trivial
 · exact hmysql
 · exact hmysql
 · split
   · exact hmysql
   · next dto hdto =>
     split
     · next hu => exact ⟨hu.symm,.inl ⟨c,hdto⟩⟩
     · exact hmysql

lemma commit_of (result : Option (Db × CartDTO)) : (s.commit answer result).1.Of s u := by
 unfold Store.commit
 split <;> trivial

lemma handle_of (hown : Own s r) : (s.handle answer r).1.Of s r.userid := by
 cases r with
 | createShoppingCart shoppingCartDTO
 | updateShoppingCartProduct skudtoList userid cartid skuid
 | deleteShoppingCartProduct userid cartid skuid => exact commit_of _
 | getShoppingCart userid cartid => exact getShoppingCart_of hown
 | getShoppingCartByUser userid =>
  simp only [Store.handle]
  split
  · next cartid hcarts =>
    refine getShoppingCart_of (hown cartid ?_)
    rw [hcarts]
    exact mem_cons_self
  · trivial
 | deleteShoppingCart userid cartid => cases answer <;> trivial

-- Runs

/-- Requests of one user that write only to their own carts leave the carts, rows and cached carts
of every other user as they were, and get none of them in return. -/
theorem cart_isolation (h0 : s0.Ok)
 (h : Transition.Reach (· = s0) step (fun s a => a.2.userid = u ∧ Own s a.2) s) :
 Kept u s0 s ∧ ∀ answer r, r.userid = u → Own s r → (s.handle answer r).1.Of s u := by
 have hinv : s.Ok ∧ Kept u s0 s := by
  refine h.invariant (P := fun s => s.Ok ∧ Kept u s0 s) ?_ ?_
  · rintro _ rfl
    exact ⟨h0,.refl u _⟩
  · rintro s ⟨answer,r⟩ s' ⟨hok,hkept⟩ ⟨rfl,hown⟩ hstep
    cases hstep
    obtain ⟨hok',hkept'⟩ := hok.handle answer hown
    exact ⟨hok',hkept.trans hkept'⟩
 refine ⟨hinv.2,fun answer r hu hown => ?_⟩
 subst hu
 exact handle_of hown

/-- User 2 has a cart with a product, also in Redis. -/
def sharedStore : Store where
 db := { shopDb with
  shoppingcart := fun cartid => if cartid = 2 then some ⟨2,5,1,100⟩ else none
  cartsku := [⟨0,2,1,1,2⟩]
  nextCartskuid := 1 }
 cartIds := [2]
 redis cartid := if cartid = 2 then some ⟨2,2,5,1,100,[⟨1,some 100,some 5,1⟩]⟩ else none

lemma ok_sharedStore : sharedStore.Ok where
 db := ⟨nodup_singleton 0,fun row hrow => by
  obtain rfl := mem_singleton.mp hrow
  decide⟩
 nodup := nodup_singleton 2
 listed c := by
  by_cases hc : c = 2
  · subst hc
    decide
  · simp [sharedStore]

/-- User 1 fills a cart, changes it, loses a deletion to Redis and reads. -/
def ownRequests : List (RedisAnswer × Request) :=
 [(.works,.createShoppingCart ⟨1,some [⟨1,some 100,some 5,2⟩]⟩),
  (.works,.updateShoppingCartProduct (some [⟨2,some 30,none,4⟩]) 1 1 2),
  (.throws,.deleteShoppingCart 1 1),
  (.works,.deleteShoppingCartProduct 1 1 1),
  (.works,.getShoppingCart 1 2)]

theorem cart_isolation_own : ∃ s,
 (s.db.cartsku.map (·.nuserid) = [2,1] ∧ ((s.redis 1).map (·.userId)) = some 1 ∧
  Own s (.getShoppingCartByUser 1)) ∧
 s.db.shoppingcart 2 = some ⟨2,5,1,100⟩ ∧ (⟨0,2,1,1,2⟩ : Cartsku) ∈ s.db.cartsku ∧
 s.redis 2 = sharedStore.redis 2 ∧
 ∀ answer, (s.handle answer (.getShoppingCartByUser 1)).1.Of s 1 := by
 have hstart : Transition.Reach (· = sharedStore) step (fun s a => a.2.userid = 1 ∧ Own s a.2)
  sharedStore := .start rfl
 obtain ⟨s,hreach,hs⟩ := hstart.exists_of_run ownRequests
  (fun s => s.db.cartsku.map (·.nuserid) = [2,1] ∧ ((s.redis 1).map (·.userId)) = some 1 ∧
   Own s (.getShoppingCartByUser 1)) (by decide +kernel)
 obtain ⟨hkept,hreturned⟩ := cart_isolation ok_sharedStore hreach
 exact ⟨s,hs,hkept.cart 2 _ rfl (by decide),hkept.row _ (mem_singleton_self _) (by decide),
  hkept.cached 2 _ rfl (by decide),fun answer => hreturned answer _ rfl hs.2.2⟩

/-- User 1 deletes the cart of user 2: the row, its product and the cached cart are gone. -/
theorem cart_isolation_otherCart : ∃ s, (Request.deleteShoppingCart 1 2).userid = 1 ∧
 step sharedStore (.works,.deleteShoppingCart 1 2) = some s ∧
 sharedStore.db.shoppingcart 2 = some ⟨2,5,1,100⟩ ∧ s.db.shoppingcart 2 = none ∧
 sharedStore.db.cartsku = [⟨0,2,1,1,2⟩] ∧ s.db.cartsku = [] ∧
 ((sharedStore.redis 2).map (·.userId)) = some 2 ∧ (s.redis 2).isNone = true :=
 ⟨_,rfl,rfl,rfl,rfl,rfl,rfl,rfl,rfl⟩

end Packages.CartService

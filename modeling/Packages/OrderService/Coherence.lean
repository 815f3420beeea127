import Packages.Lib.Cache
import Packages.OrderService.Cache

/-!
# Orders in Redis are the orders in MySQL

The cache has to agree with the view of an order: its status, user and lines. A call changes one
view at most; the transactions write the new view to Redis or undo their change. Two calls do
neither: a payment that fails after its update, and a deletion without a reply.
-/

namespace Packages.OrderService

open Function Option List Nat

open CartService (BigDecimal SKUDTO ShoppingCartDTO RedisAnswer)

variable {t t' : Tables} {s s' s0 : Store} {answer : RedisAnswer} {dto : OrderDTO}

/-- Every order in Redis exists in MySQL and has the status, the user and the lines there. -/
def Store.Coherent (s : Store) : Prop :=
 ∀ orderId dto, s.redis orderId = some dto → ∃ orderinfo, s.tables.orderinfo orderId =
  some orderinfo ∧ dto.cstatus = orderinfo.cstatus ∧ dto.userId = orderinfo.nuserid ∧
  dto.orderskudtoList =
   (s.tables.selectByOrderId orderId).map fun row => (row.nskuid,row.nquantity)

/-- Generated keys are new. -/
structure Tables.Ok (t : Tables) : Prop where
 fresh : ∀ orderId, t.nextOrderid ≤ orderId → t.orderinfo orderId = none
 below : ∀ row ∈ t.ordersku, row.norderid < t.nextOrderid

-- Views

abbrev View := Int × Option Nat × List (Nat × Int)

def Tables.view (t : Tables) (orderId : Nat) : Option View :=
 (t.orderinfo orderId).map fun orderinfo =>
  (orderinfo.cstatus,orderinfo.nuserid,
   (t.selectByOrderId orderId).map fun row => (row.nskuid,row.nquantity))

def OrderDTO.view (dto : OrderDTO) : View := (dto.cstatus,dto.userId,dto.orderskudtoList)

def Store.cached (s : Store) (orderId : Nat) : Option View := (s.redis orderId).map OrderDTO.view

lemma coherent_iff_agree : s.Coherent ↔ Cache.Agree s.tables.view s.cached := by
 constructor
 · intro h orderId v hv
   obtain ⟨dto,hdto,rfl⟩ := map_eq_some_iff.mp hv
   obtain ⟨orderinfo,horder,hstatus,huser,hlines⟩ := h orderId dto hdto
   rw [Tables.view,horder,map_some,OrderDTO.view,hstatus,huser,hlines]
 · intro h orderId dto hdto
   have hv : s.cached orderId = some dto.view := by
    rw [Store.cached,hdto,map_some]
   obtain ⟨orderinfo,horder,heq⟩ := map_eq_some_iff.mp (h orderId dto.view hv)
   obtain ⟨hstatus,hrest⟩ := Prod.mk.inj heq
   obtain ⟨huser,hlines⟩ := Prod.mk.inj hrest
   exact ⟨orderinfo,horder,hstatus.symm,huser.symm,hlines.symm⟩

variable {orderId : Nat}

lemma view_congr (horder : t'.orderinfo orderId = t.orderinfo orderId)
 (hlines : t'.selectByOrderId orderId = t.selectByOrderId orderId) :
 t'.view orderId = t.view orderId := by
 rw [Tables.view,Tables.view,horder,hlines]

lemma cached_set (tables : Tables) (dto : OrderDTO) :
 (s.set tables dto).cached = update s.cached dto.orderId (some dto.view) := by
 funext orderId
 show Option.map OrderDTO.view (update s.redis dto.orderId (some dto) orderId) = _
 by_cases hne : orderId = dto.orderId
 · subst hne
   rw [update_self,update_self,map_some]
 · rw [update_of_ne hne,update_of_ne hne]
   rfl

lemma Store.Coherent.set (h : s.Coherent)
 (hother : ∀ orderId, orderId ≠ dto.orderId → t'.view orderId = s.tables.view orderId)
 (hview : t'.view dto.orderId = some dto.view) : (s.set t' dto).Coherent := by
 rw [coherent_iff_agree,cached_set]
 exact (coherent_iff_agree.mp h).write hother hview

-- Creation

/-- The loop over the lines adds them behind the others. -/
def AddsLines (skus : List (Nat × Int)) (lines : Tables → Nat → Option Tables) : Prop :=
 ∀ t t' norderid, lines t norderid = some t' →
  t'.orderinfo = t.orderinfo ∧ t'.nextOrderid = t.nextOrderid ∧
  t'.ordersku = t.ordersku++skus.map fun sku => ⟨norderid,sku.1,sku.2⟩

lemma addsLines_createOrderSKU (skus : List (Nat × Int)) :
 AddsLines skus fun t norderid => some (t.createOrderSKU norderid skus) := by
 intro t t' norderid h
 obtain rfl := some.inj h
 clear h
 induction skus generalizing t with
 | nil => exact ⟨rfl,rfl,(append_nil _).symm⟩
 | cons sku skus ih =>
  obtain ⟨horder,hnext,hlines⟩ :=
   ih ((t.insertOrdersku ⟨norderid,sku.1,sku.2⟩).updateInventory sku.1 sku.2)
  exact ⟨horder,hnext,hlines.trans (append_assoc ..)⟩

lemma addsLines_createOrderSKUByCart (skus : List (Nat × Int)) :
 AddsLines skus fun t norderid => t.createOrderSKUByCart norderid skus := by
 intro t t' norderid h
 induction skus generalizing t with
 | nil =>
  cases h
  exact ⟨rfl,rfl,(append_nil _).symm⟩
 | cons sku skus ih =>
  obtain ⟨t1,hfirst,hrest⟩ := bind_eq_some_iff.mp h
  obtain ⟨inventory,-,rfl⟩ := map_eq_some_iff.mp hfirst
  obtain ⟨horder,hnext,hlines⟩ := ih _ hrest
  exact ⟨horder,hnext,hlines.trans (append_assoc ..)⟩

/-- What a creation leaves: keys that are used, and maybe a new order with its lines. -/
inductive Created (t : Tables) : Tables × Option OrderDTO → Prop
 | thrown {t' : Tables} : t.nextOrderid ≤ t'.nextOrderid → Created t (t',none)
 | inserted {t' : Tables} {dto : OrderDTO} {orderinfo : Orderinfo} {rows : List Ordersku} :
  dto.orderId = t.nextOrderid → t'.nextOrderid = t.nextOrderid+1 →
  t'.orderinfo = update t.orderinfo t.nextOrderid (some orderinfo) →
  t'.ordersku = t.ordersku++rows → (∀ row ∈ rows, row.norderid = t.nextOrderid) →
  dto.view = (orderinfo.cstatus,orderinfo.nuserid,rows.map fun row => (row.nskuid,row.nquantity)) →
  Created t (t',some dto)

lemma createDeliveryInfo_frame (t : Tables) (deliveryDTO : Option (Option BigDecimal)) :
 (t.createDeliveryInfo deliveryDTO).1.orderinfo = t.orderinfo ∧
 (t.createDeliveryInfo deliveryDTO).1.nextOrderid = t.nextOrderid ∧
 (t.createDeliveryInfo deliveryDTO).1.ordersku = t.ordersku := by
 cases deliveryDTO with
 | none | some _ => exact ⟨rfl,rfl,rfl⟩

lemma createOrderWith_created (t : Tables) (request : OrderRequest) (order : Nat → Option Orderinfo)
 {skus : List (Nat × Int)} {lines : Tables → Nat → Option Tables} (hlines : AddsLines skus lines) :
 Created t (t.createOrderWith request order skus lines) := by
 obtain ⟨horder1,hnext1,hrows1⟩ := createDeliveryInfo_frame t request.deliveryDTO
 unfold Tables.createOrderWith
 generalize t.createDeliveryInfo request.deliveryDTO = delivery at horder1 hnext1 hrows1
 obtain ⟨t1,_ | ⟨ndeliveryid,deliveryinfo⟩⟩ := delivery
 · exact .thrown (le_of_eq hnext1.symm)
 · change t1.orderinfo = _ at horder1
   change t1.nextOrderid = _ at hnext1
   change t1.ordersku = _ at hrows1
   dsimp only
   cases order ndeliveryid with
   | none => exact .thrown (le_of_eq hnext1.symm)
   | some orderinfo =>
    have hnext2 : (t1.insertOrderinfo orderinfo).nextOrderid = t.nextOrderid+1 := by
     rw [← hnext1]
     rfl
    dsimp only
    cases hloop : lines (t1.insertOrderinfo orderinfo) t1.nextOrderid with
    | none => exact .thrown (by rw [hnext2]; exact le_succ _)
    | some t3 =>
     obtain ⟨horder3,hnext3,hrows3⟩ := hlines _ _ _ hloop
     dsimp only
     split
     · refine .inserted hnext1 (hnext3.trans hnext2) ?_
        (hrows3.trans (congrArg (· ++ _) hrows1)) ?_ rfl
       · rw [horder3,← horder1,← hnext1]
         rfl
       · intro row hrow
         obtain ⟨sku,-,rfl⟩ := mem_map.mp hrow
         exact hnext1
     · exact .thrown (by rw [hnext3,hnext2]; exact le_succ _)

lemma Tables.Ok.selectByOrderId_fresh (h : t.Ok) : t.selectByOrderId t.nextOrderid = [] := by
 rw [Tables.selectByOrderId,filter_eq_nil_iff]
 intro row hrow heq
 exact absurd (of_decide_eq_true heq) (Nat.ne_of_lt (h.below row hrow))

lemma create_spec {result : Tables × Option OrderDTO} (hok : s.tables.Ok) (h : s.Coherent)
 (hcreated : Created s.tables result) :
 (s.create answer result).tables.Ok ∧ (s.create answer result).Coherent := by
 -- a creation that is rolled back has only used keys
 have hrollback : s.tables.nextOrderid ≤ result.1.nextOrderid →
  (s.rollback result.1).tables.Ok ∧ (s.rollback result.1).Coherent := by
  intro hle
  exact ⟨⟨fun orderId hid => hok.fresh orderId (hle.trans hid),
   fun row hrow => (hok.below row hrow).trans_le hle⟩,h⟩
 cases hcreated with
 | thrown hle => exact hrollback hle
 | @inserted t' dto orderinfo rows hid hnext horder hrows hnew hview =>
  cases answer with
  | works =>
   refine ⟨⟨fun orderId hle => ?_,fun row hrow => ?_⟩,h.set (fun orderId hne => ?_) ?_⟩
   · change t'.nextOrderid ≤ orderId at hle
     show t'.orderinfo orderId = none
     rw [horder,update_of_ne (by omega)]
     exact hok.fresh orderId (by omega)
   · change row ∈ t'.ordersku at hrow
     show row.norderid < t'.nextOrderid
     rw [hrows] at hrow
     obtain hold | hrow := mem_append.mp hrow
     · exact hnext ▸ lt_succ_of_lt (hok.below row hold)
     · rw [hnew row hrow,hnext]
       exact lt_succ_self _
   · rw [hid] at hne
     refine view_congr (by rw [horder,update_of_ne hne]) ?_
     have hnone : rows.filter (·.norderid = orderId) = [] := by
      rw [filter_eq_nil_iff]
      intro row hrow heq
      exact hne ((of_decide_eq_true heq).symm.trans (hnew row hrow))
     rw [Tables.selectByOrderId,hrows,filter_append,hnone,append_nil]
     rfl
   · have hlines : t'.selectByOrderId s.tables.nextOrderid = rows := by
      rw [Tables.selectByOrderId,hrows,filter_append]
      show s.tables.selectByOrderId _++_ = _
      rw [hok.selectByOrderId_fresh,nil_append,filter_eq_self]
      exact fun row hrow => decide_eq_true (hnew row hrow)
     rw [hid,Tables.view,horder,update_self,hlines,map_some,hview]
  | noReply | noConnection | throws => exact hrollback (by rw [hnext]; exact le_succ _)

-- Deletion

lemma restock_frame (rows : List Ordersku) (t : Tables) :
 (rows.foldl (fun t row => t.updateInventory row.nskuid (0-row.nquantity)) t).orderinfo =
 t.orderinfo ∧
 (rows.foldl (fun t row => t.updateInventory row.nskuid (0-row.nquantity)) t).ordersku =
  t.ordersku ∧
 (rows.foldl (fun t row => t.updateInventory row.nskuid (0-row.nquantity)) t).nextOrderid =
  t.nextOrderid := by
 induction rows generalizing t with
 | nil => exact ⟨rfl,rfl,rfl⟩
 | cons row rows ih => exact ih (t.updateInventory row.nskuid (0-row.nquantity))

lemma deleteLines_frame (orderId : Nat) (rows : List Ordersku) (t : Tables) :
 (rows.foldl (fun t row => t.deleteByOrderskuKey orderId row.nskuid) t).orderinfo = t.orderinfo ∧
 (rows.foldl (fun t row => t.deleteByOrderskuKey orderId row.nskuid) t).nextOrderid =
  t.nextOrderid ∧
 (rows.foldl (fun t row => t.deleteByOrderskuKey orderId row.nskuid) t).ordersku ⊆ t.ordersku ∧
 ∀ id, id ≠ orderId →
  (rows.foldl (fun t row => t.deleteByOrderskuKey orderId row.nskuid) t).selectByOrderId id =
   t.selectByOrderId id := by
 induction rows generalizing t with
 | nil => exact ⟨rfl,rfl,List.Subset.refl _,fun _ _ => rfl⟩
 | cons row rows ih =>
  obtain ⟨horder,hnext,hsub,hlines⟩ := ih (t.deleteByOrderskuKey orderId row.nskuid)
  refine ⟨horder,hnext,fun r hr => mem_of_mem_filter (hsub hr),fun id hne => ?_⟩
  refine (hlines id hne).trans ?_
  show (t.ordersku.filter _).filter _ = t.ordersku.filter _
  rw [List.filter_filter]
  apply List.filter_congr
  intro r _
  by_cases hid : r.norderid = id
  · simp [hid,hne]
  · simp [hid]

lemma deleteOrder_spec {userId : Nat} (hok : t.Ok)
 (h : t.deleteOrderInfoByMySQL userId orderId = some t') :
 t'.Ok ∧ ∀ id, id ≠ orderId → t'.view id = t.view id := by
 unfold Tables.deleteOrderInfoByMySQL at h
 split at h
 · cases h
 · next orderinfo horderinfo =>
   split at h
   · obtain ⟨horder1,hrows1,hnext1⟩ := restock_frame (t.selectByOrderId orderId) t
     obtain ⟨horder2,hnext2,hsub,hlines⟩ := deleteLines_frame orderId (t.selectByOrderId orderId)
      (((t.selectByOrderId orderId).foldl
       (fun t row => t.updateInventory row.nskuid (0-row.nquantity)) t).deleteOrderinfo orderId
        orderinfo.ndeliveryid)
     rw [some.inj h] at horder2 hnext2 hsub hlines
     have horder : t'.orderinfo = update t.orderinfo orderId none := by
      rw [horder2,← horder1]
      rfl
     have hnext : t'.nextOrderid = t.nextOrderid := hnext2.trans hnext1
     refine ⟨⟨fun id hle => ?_,fun row hrow => ?_⟩,fun id hne => ?_⟩
     · rw [horder]
       by_cases hid : id = orderId
       · subst hid
         exact update_self ..
       · exact (update_of_ne hid ..).trans (hok.fresh id (hnext ▸ hle))
     · rw [hnext]
       exact hok.below row (hrows1 ▸ hsub hrow)
     · refine view_congr ?_ ((hlines id hne).trans ?_)
       · rw [horder]
         exact update_of_ne hne ..
       · exact congrArg (filter _) hrows1
   · cases h

-- Delivery and payment

/-- The tables after an update of an order that exists. -/
structure Updated (t t' : Tables) (orderId : Nat) : Prop where
 ok : t.Ok → t'.Ok
 other : ∀ id, id ≠ orderId → t'.view id = t.view id

lemma Updated.refl (t : Tables) (orderId : Nat) : Updated t t orderId := ⟨fun h => h,fun _ _ => rfl⟩

variable {orderinfo : Orderinfo}

lemma updated_of {old : Orderinfo} (hold : t.orderinfo orderId = some old)
 (horder : t'.orderinfo = update t.orderinfo orderId (some orderinfo))
 (hrows : t'.ordersku = t.ordersku) (hnext : t'.nextOrderid = t.nextOrderid) :
 Updated t t' orderId := by
 refine ⟨fun hok => ⟨fun id hle => ?_,fun row hrow => ?_⟩,fun id hne => ?_⟩
 · rw [hnext] at hle
   have hne : id ≠ orderId := by
    rintro rfl
    rw [hok.fresh id hle] at hold
    cases hold
   rw [horder,update_of_ne hne]
   exact hok.fresh id hle
 · rw [hnext]
   exact hok.below row (hrows ▸ hrow)
 · refine view_congr (by rw [horder,update_of_ne hne]) ?_
   rw [Tables.selectByOrderId,hrows]
   rfl

lemma orderDTO_view (horder : t.orderinfo orderId = some orderinfo)
 (h : t.orderDTO orderId orderinfo = some dto) :
 dto.orderId = orderId ∧ t.view orderId = some dto.view := by
 unfold Tables.orderDTO at h
 split at h
 · cases h
 · split at h
   · cases h
     refine ⟨rfl,?_⟩
     rw [Tables.view,horder]
     rfl
   · cases h

lemma updateOrderDelivery_spec {deliveryStatus : Int}
 (h : t.updateOrderDeliveryByMySQL orderId deliveryStatus = some (t',dto)) :
 Updated t t' orderId ∧ dto.orderId = orderId ∧ t'.view orderId = some dto.view := by
 unfold Tables.updateOrderDeliveryByMySQL at h
 split at h
 · cases h
 · next orderinfo horderinfo =>
   split at h
   · cases h
   · obtain ⟨dto',hdto,heq⟩ := map_eq_some_iff.mp h
     cases heq
     exact ⟨updated_of horderinfo rfl rfl rfl,orderDTO_view (update_self ..) hdto⟩

/-- A payment changes the order if it finds it unpaid and the password and the card are right. -/
def Tables.Pays (t : Tables) (userId orderId : Nat) (cardId paymentPassword : String) : Prop :=
 ((t.payment userId orderId cardId paymentPassword).any (·.2.isSome)) = true

instance (t : Tables) (userId orderId : Nat) (cardId paymentPassword : String) :
 Decidable (t.Pays userId orderId cardId paymentPassword) :=
 inferInstanceAs (Decidable (_ = true))

lemma payment_orderinfo {userId : Nat} {cardId paymentPassword : String}
 {card : Option Userbankinfo}
 (h : t.payment userId orderId cardId paymentPassword = some (orderinfo,card)) :
 t.orderinfo orderId = some orderinfo := by
 unfold Tables.payment at h
 split at h
 · next horder =>
   cases h
   exact horder
 · cases h

lemma updateOrderPayment_spec (t : Tables) (userId orderId : Nat)
 (cardId paymentPassword : String) :
 let y := t.updateOrderPaymentByMySQL userId orderId cardId paymentPassword
 Updated t y.1 orderId ∧ (¬ t.Pays userId orderId cardId paymentPassword → y.1 = t) ∧
 ∀ dto, y.2 = some dto → dto.orderId = orderId ∧ y.1.view orderId = some dto.view := by
 unfold Tables.updateOrderPaymentByMySQL Tables.Pays
 split
 · exact ⟨.refl t orderId,fun _ => rfl,fun dto hdto => by cases hdto⟩
 · next orderinfo hpay =>
   exact ⟨.refl t orderId,fun _ => rfl,fun dto hdto => orderDTO_view (payment_orderinfo hpay) hdto⟩
 · next orderinfo card hpay =>
   refine ⟨updated_of (payment_orderinfo hpay) rfl rfl rfl,fun hnot => ?_,fun dto hdto =>
    orderDTO_view (update_self ..) hdto⟩
   rw [hpay] at hnot
   exact absurd rfl hnot

-- Runs

/-- A deletion that happens gets a reply, and a payment that happens reaches Redis, unless the order
is not in Redis. -/
def Safe (s : Store) : RedisAnswer × CacheCall → Prop
 | (answer,.deleteOrder userId orderId) =>
  answer = .noReply → (s.tables.deleteOrderInfoByMySQL userId orderId).isSome = true →
   (s.redis orderId).isNone = true
 | (answer,.updateOrderPayment userId orderId cardId paymentPassword) =>
  s.tables.Pays userId orderId cardId paymentPassword → (s.redis orderId).isNone = true ∨
   answer = .works ∧
   (s.tables.updateOrderPaymentByMySQL userId orderId cardId paymentPassword).2.isSome = true
 | _ => True

instance (s : Store) : (a : RedisAnswer × CacheCall) → Decidable (Safe s a)
 | (_,.createOrder _) | (_,.createOrderByShoppingCart _ _) | (_,.updateOrderDelivery _ _) =>
  inferInstanceAs (Decidable True)
 | (_,.deleteOrder _ _) => inferInstanceAs (Decidable (_ → _ → _))
 | (_,.updateOrderPayment _ _ _ _) => inferInstanceAs (Decidable (_ → _ ∨ _ ∧ _))

lemma Store.Coherent.uncached (h : s.Coherent)
 (hother : ∀ id, id ≠ orderId → t'.view id = s.tables.view id)
 (hnone : (s.redis orderId).isNone = true) :
 (Store.mk t' s.redis).Coherent := by
 rw [coherent_iff_agree]
 apply (coherent_iff_agree.mp h).uncached hother
 rw [Store.cached,isNone_iff_eq_none.mp hnone]
 rfl

lemma call_spec {call : CacheCall} (hok : s.tables.Ok) (h : s.Coherent)
 (hsafe : Safe s (answer,call)) :
 (s.call answer call).tables.Ok ∧ (s.call answer call).Coherent := by
 cases call with
 | createOrder request =>
  exact create_spec hok h (createOrderWith_created _ _ _ (addsLines_createOrderSKU _))
 | createOrderByShoppingCart request cart =>
  exact create_spec hok h (createOrderWith_created _ _ _ (addsLines_createOrderSKUByCart _))
 | deleteOrder userId orderId =>
  simp only [Store.call]
  split
  · next tables hdelete =>
    obtain ⟨hok',hother⟩ := deleteOrder_spec hok hdelete
    refine ⟨hok',coherent_iff_agree.mpr ?_⟩
    have hcached : (Store.mk tables (update s.redis orderId none)).cached =
     update s.cached orderId none := by
     funext id
     exact apply_update (fun _ => Option.map OrderDTO.view) s.redis orderId none id
    rw [hcached]
    exact (coherent_iff_agree.mp h).drop hother
  · next tables hdelete =>
    obtain ⟨hok',hother⟩ := deleteOrder_spec hok hdelete
    exact ⟨hok',h.uncached hother (hsafe rfl (by rw [hdelete]; rfl))⟩
  · exact ⟨hok,h⟩
 | updateOrderDelivery orderId deliveryStatus =>
  simp only [Store.call]
  split
  · next tables dto hupdate =>
    obtain ⟨hupdated,rfl,hview⟩ := updateOrderDelivery_spec hupdate
    exact ⟨hupdated.ok hok,h.set hupdated.other hview⟩
  · exact ⟨hok,h⟩
 | updateOrderPayment userId orderId cardId paymentPassword =>
  obtain ⟨hupdated,hsame,hreturned⟩ :=
   updateOrderPayment_spec s.tables userId orderId cardId paymentPassword
  simp only [Store.call]
  split
  · next dto hdto =>
    obtain ⟨rfl,hview⟩ := hreturned dto hdto
    exact ⟨hupdated.ok hok,h.set hupdated.other hview⟩
  · next hfailed =>
    refine ⟨hupdated.ok hok,?_⟩
    by_cases hpays : s.tables.Pays userId orderId cardId paymentPassword
    · obtain hnone | ⟨hworks,hsome⟩ := hsafe hpays
      · exact h.uncached hupdated.other hnone
      · obtain ⟨dto,hdto⟩ := isSome_iff_exists.mp hsome
        exact absurd hworks (hfailed dto hdto)
    · rw [hsame hpays]
      exact h

/-- If deletions get a reply and payments reach Redis, after every call each order in Redis is as in
MySQL. Every other call of Redis may fail. -/
theorem cache_coherence (hok : s0.tables.Ok) (h0 : s0.Coherent)
 (h : Transition.Reach (· = s0) cacheStep Safe s) : s.Coherent := by
 have hinv : s.tables.Ok ∧ s.Coherent := by
  refine h.invariant (P := fun s => s.tables.Ok ∧ s.Coherent) ?_ ?_
  · rintro _ rfl
    exact ⟨hok,h0⟩
  · rintro s ⟨answer,call⟩ s' ⟨hok,hcoherent⟩ hsafe hstep
    cases hstep
    exact call_spec hok hcoherent hsafe
 exact hinv.2

/-- A shop without orders: one product, one address, one user with a card. -/
def newShop : Store where
 tables :=
  { ninventory := fun nskuid => if nskuid = 5 then some 10 else none
    deliveryinfo := fun _ => none
    orderinfo := fun _ => none
    ordersku := []
    address := (· = 1)
    userinfo := fun userId => if userId = 7 then some (some "1234") else none
    userbankinfo := fun cardId => if cardId = "c" then some ⟨"c",some 2⟩ else none
    nextDeliveryid := 0
    nextOrderid := 0 }
 redis _ := none

lemma ok_newShop : newShop.tables.Ok :=
 ⟨fun _ _ => rfl,fun _ hrow => absurd hrow not_mem_nil⟩

lemma coherent_newShop : newShop.Coherent := fun _ _ h => nomatch h

/-- Three pieces of product 5 for user 7. -/
def threePieces : OrderRequest := ⟨some 7,some 1,some (some 20),none,some [⟨5,some 100,none,3⟩]⟩

/-- Redis fails in a creation, a delivery update and a deletion, but not in the payment. -/
def failingCalls : List (RedisAnswer × CacheCall) :=
 [(.works,.createOrder threePieces),
  (.throws,.createOrderByShoppingCart threePieces ⟨7,some [⟨5,some 100,none,1⟩]⟩),
  (.noReply,.createOrder threePieces),
  (.works,.updateOrderPayment 7 0 "c" "1234"),
  (.noReply,.updateOrderDelivery 0 1),
  (.works,.updateOrderDelivery 0 1),
  (.throws,.deleteOrder 7 0)]

theorem cache_coherence_failing : ∃ s : Store,
 (((s.redis 0).map OrderDTO.view) = some (2,some 7,[(5,3)]) ∧ s.tables.nextOrderid = 3) ∧
 s.Coherent := by
 have hstart : Transition.Reach (· = newShop) cacheStep Safe newShop := .start rfl
 obtain ⟨s,hreach,htest⟩ := hstart.exists_of_run failingCalls
  (fun s => ((s.redis 0).map OrderDTO.view) = some (2,some 7,[(5,3)]) ∧
   s.tables.nextOrderid = 3) (by decide +kernel)
 exact ⟨s,htest,cache_coherence ok_newShop coherent_newShop hreach⟩

/-- Redis fails in a payment: the order is paid in MySQL and unpaid in Redis. It gives no reply to a
deletion: the order is only in Redis. -/
theorem cache_coherence_lost :
 ¬ ((newShop.call .works (.createOrder threePieces)).call .throws
  (.updateOrderPayment 7 0 "c" "1234")).Coherent ∧
 ¬ ((newShop.call .works (.createOrder threePieces)).call .noReply
  (.deleteOrder 7 0)).Coherent := by
 constructor
 · intro h
   obtain ⟨orderinfo,horder,hstatus,-⟩ := h 0 _ rfl
   cases horder
   exact absurd hstatus (by decide)
 · intro h
   obtain ⟨orderinfo,horder,-⟩ := h 0 _ rfl
   cases horder

end Packages.OrderService

import Packages.CartService.Controller

/-!
# Orders in MySQL and in Redis

The calls of `OrderServiceImpl.java` one after another, with their tables and the copy of each order
in Redis. Creations, deletions and delivery updates are transactions, but generated keys stay used.
A payment is none, so its statements stay. Texts, times and the prices of single lines are left out.
-/

namespace Packages.OrderService

open Function

open CartService (BigDecimal toInt SKUDTO ShoppingCartDTO RedisAnswer)

/-- A row of `r_ec_ordersku`; prices and currency are not read again. -/
structure Ordersku where
 norderid : Nat
 nskuid : Nat
 nquantity : Int
 deriving DecidableEq,Repr

/-- A row of `r_ec_deliveryinfo`. -/
structure Deliveryinfo where
 ndeliveryprice : Option BigDecimal
 cstatus : Int
 deriving DecidableEq

/-- A row of `r_ec_orderinfo`, without its id. -/
structure Orderinfo where
 nuserid : Option Nat
 cpaymentmethod : Option Int
 ndiscount : BigDecimal
 ntotalquantity : Int
 ntotalprice : BigDecimal
 cstatus : Int
 ndeliveryid : Nat
 naddressid : Nat
 deriving DecidableEq

/-- A row of `r_ec_userbankinfo`. -/
structure Userbankinfo where
 scardid : String
 scardtype : Option Int

structure Tables where
 ninventory : Nat → Option Int
 deliveryinfo : Nat → Option Deliveryinfo
 orderinfo : Nat → Option Orderinfo
 ordersku : List Ordersku
 /-- The ids in `r_ec_userdeliveryaddress`. -/
 address : Nat → Bool
 /-- The password of each user in `r_ec_userinfo`. -/
 userinfo : Nat → Option (Option String)
 userbankinfo : String → Option Userbankinfo
 nextDeliveryid : Nat
 nextOrderid : Nat

structure OrderSKUDTO where
 skuId : Nat
 price : Option BigDecimal
 discount : Option BigDecimal
 quantity : Int

/-- `OrderDTO` in a request; of the address it has the id, and of the delivery the price. -/
structure OrderRequest where
 userId : Option Nat
 addressDTO : Option Nat
 deliveryDTO : Option (Option BigDecimal)
 paymentMethod : Option Int
 orderskudtoList : Option (List OrderSKUDTO)

/-- `OrderDTO` as the service returns and caches it, with products and quantities of the lines. -/
structure OrderDTO where
 orderId : Nat
 userId : Option Nat
 paymentMethod : Option Int
 discount : BigDecimal
 totalQuantity : Int
 totalPrice : BigDecimal
 cstatus : Int
 delivery : Nat × Deliveryinfo
 naddressid : Nat
 orderskudtoList : List (Nat × Int)

def convertToOrderDTO (ndeliveryid : Nat) (deliveryinfo : Deliveryinfo) (norderid : Nat)
 (orderinfo : Orderinfo) (orderskuList : List Ordersku) (naddressid : Nat) : OrderDTO where
 orderId := norderid
 userId := orderinfo.nuserid
 paymentMethod := orderinfo.cpaymentmethod
 discount := orderinfo.ndiscount
 totalQuantity := orderinfo.ntotalquantity
 totalPrice := orderinfo.ntotalprice
 cstatus := orderinfo.cstatus
 delivery := (ndeliveryid,deliveryinfo)
 naddressid := naddressid
 orderskudtoList := orderskuList.map fun row => (row.nskuid,row.nquantity)

-- `ComputeUtils`

def computeNumber (orderSKUDTOList : List OrderSKUDTO) : Int :=
 orderSKUDTOList.foldl (fun quantity dto => toInt (quantity+dto.quantity)) 0

def computeDiscount (orderSKUDTOList : List OrderSKUDTO) : BigDecimal :=
 orderSKUDTOList.foldl (fun discount dto => discount+dto.discount.getD 0*dto.quantity) 0

/-- Throws on a line without a price, or if the delivery or its price is missing. -/
def computeTotalPrice (orderSKUDTOList : List OrderSKUDTO)
 (deliveryDTO : Option (Option BigDecimal)) : Option BigDecimal :=
 deliveryDTO.bind fun ndeliveryprice =>
  (orderSKUDTOList.foldlM (fun (totalPrice : BigDecimal) (dto : OrderSKUDTO) =>
   dto.price.map fun price => totalPrice+price*dto.quantity) 0).bind fun totalPrice =>
    ndeliveryprice.map fun deliveryPrice => totalPrice+deliveryPrice

def computeTotalPriceByCart (skuDTOList : List SKUDTO) (deliveryDTO : Option (Option BigDecimal)) :
 Option BigDecimal :=
 deliveryDTO.bind fun ndeliveryprice =>
  (CartService.computeTotalPrice skuDTOList).bind fun totalPrice =>
   ndeliveryprice.map fun deliveryPrice => totalPrice+deliveryPrice

namespace Tables

variable (t : Tables)

-- Creation

def createDeliveryInfo (deliveryDTO : Option (Option BigDecimal)) :
 Tables × Option (Nat × Deliveryinfo) :=
 match deliveryDTO with
 | none => (t,none)
 | some ndeliveryprice =>
  let deliveryinfo : Deliveryinfo := ⟨ndeliveryprice,0⟩
  ({ t with
     deliveryinfo := update t.deliveryinfo t.nextDeliveryid (some deliveryinfo)
     nextDeliveryid := t.nextDeliveryid+1 },
   some (t.nextDeliveryid,deliveryinfo))

def insertOrderinfo (orderinfo : Orderinfo) : Tables :=
 { t with
   orderinfo := update t.orderinfo t.nextOrderid (some orderinfo)
   nextOrderid := t.nextOrderid+1 }

/-- The order that `createOrder` inserts; a new order has no payment time, so it is not paid. -/
def createOrder (orderDTO : OrderRequest) (ndeliveryid : Nat) : Option Orderinfo :=
 match orderDTO.addressDTO,orderDTO.orderskudtoList with
 | some naddressid,some list =>
  (computeTotalPrice list orderDTO.deliveryDTO).map fun totalPrice =>
   ⟨orderDTO.userId,orderDTO.paymentMethod,computeDiscount list,computeNumber list,totalPrice,0,
    ndeliveryid,naddressid⟩
 | _,_ => none

def createOrderByCart (orderDTO : OrderRequest) (shoppingCartDTO : ShoppingCartDTO)
 (ndeliveryid : Nat) : Option Orderinfo :=
 match orderDTO.addressDTO,shoppingCartDTO.skudtoList with
 | some naddressid,some list =>
  (computeTotalPriceByCart list orderDTO.deliveryDTO).map fun totalPrice =>
   ⟨some shoppingCartDTO.userId,orderDTO.paymentMethod,CartService.computeDiscount list,
    CartService.computeNumber list,totalPrice,0,ndeliveryid,naddressid⟩
 | _,_ => none

def insertOrdersku (row : Ordersku) : Tables := { t with ordersku := t.ordersku++[row] }

/-- `nInventory = nInventory - amount`; without a row nothing happens. -/
def updateInventory (nskuid : Nat) (amount : Int) : Tables :=
 { t with ninventory := update t.ninventory nskuid ((t.ninventory nskuid).map (· - amount)) }

def createOrderSKU (norderid : Nat) (skus : List (Nat × Int)) : Tables :=
 skus.foldl (fun t sku =>
  (t.insertOrdersku ⟨norderid,sku.1,sku.2⟩).updateInventory sku.1 sku.2) t

/-- As above, but throws on a product that is not there, and subtracts the `int`s in Java. -/
def createOrderSKUByCart (norderid : Nat) (skus : List (Nat × Int)) : Option Tables :=
 skus.foldlM (fun t sku =>
  (t.ninventory sku.1).map fun ninventory =>
   { t.insertOrdersku ⟨norderid,sku.1,sku.2⟩ with
     ninventory := update t.ninventory sku.1 (some (toInt (ninventory-sku.2))) }) t

/-- What both creations do: delivery, order, lines, and the order as it is returned. They differ in
the order and in the loop over the lines. If something throws, the tables so far are returned. -/
def createOrderWith (orderDTO : OrderRequest) (order : Nat → Option Orderinfo)
 (skus : List (Nat × Int)) (lines : Tables → Nat → Option Tables) : Tables × Option OrderDTO :=
 match t.createDeliveryInfo orderDTO.deliveryDTO with
 | (t1,none) => (t1,none)
 | (t1,some (ndeliveryid,deliveryinfo)) =>
  match order ndeliveryid with
  | none => (t1,none)
  | some orderinfo =>
   let norderid := t1.nextOrderid
   let t2 := t1.insertOrderinfo orderinfo
   match lines t2 norderid with
   | none => (t2,none)
   | some t3 =>
    -- without an address the conversion throws
    if t3.address orderinfo.naddressid then
     (t3,some (convertToOrderDTO ndeliveryid deliveryinfo norderid orderinfo
      (skus.map fun sku => ⟨norderid,sku.1,sku.2⟩) orderinfo.naddressid))
    else (t3,none)

def createOrderByMySQL (orderDTO : OrderRequest) : Tables × Option OrderDTO :=
 let skus := (orderDTO.orderskudtoList.getD []).map fun dto => (dto.skuId,dto.quantity)
 t.createOrderWith orderDTO (createOrder orderDTO) skus
  fun t norderid => some (t.createOrderSKU norderid skus)

def createOrderByMySQLShoppingCart (orderDTO : OrderRequest) (shoppingCartDTO : ShoppingCartDTO) :
 Tables × Option OrderDTO :=
 let skus := (shoppingCartDTO.skudtoList.getD []).map fun dto => (dto.skuId,dto.quantity)
 t.createOrderWith orderDTO (createOrderByCart orderDTO shoppingCartDTO) skus
  fun t norderid => t.createOrderSKUByCart norderid skus

-- Deletion, delivery and payment

def selectByOrderId (norderid : Nat) : List Ordersku := t.ordersku.filter (·.norderid = norderid)

def deleteByOrderskuKey (norderid nskuid : Nat) : Tables :=
 { t with ordersku := t.ordersku.filter fun row =>
  ¬(row.norderid = norderid ∧ row.nskuid = nskuid) }

/-- `deleteByPrimaryKey` of an order and its delivery. -/
def deleteOrderinfo (norderid ndeliveryid : Nat) : Tables :=
 { t with
   deliveryinfo := update t.deliveryinfo ndeliveryid none
   orderinfo := update t.orderinfo norderid none }

/-- `none` if the user has no such order. -/
def deleteOrderInfoByMySQL (userId orderId : Nat) : Option Tables :=
 match t.orderinfo orderId with
 | none => none
 | some orderinfo =>
  if orderinfo.nuserid = some userId then
   let orderskuList := t.selectByOrderId orderId
   let t1 := orderskuList.foldl (fun t row => t.updateInventory row.nskuid (0-row.nquantity)) t
   let t2 := t1.deleteOrderinfo orderId orderinfo.ndeliveryid
   some (orderskuList.foldl (fun t row => t.deleteByOrderskuKey orderId row.nskuid) t2)
  else none

/-- The order as the rows have it; `none` if its delivery or address is missing. -/
def orderDTO (orderId : Nat) (orderinfo : Orderinfo) : Option OrderDTO :=
 match t.deliveryinfo orderinfo.ndeliveryid with
 | none => none
 | some deliveryinfo =>
  if t.address orderinfo.naddressid then
   some (convertToOrderDTO orderinfo.ndeliveryid deliveryinfo orderId orderinfo
    (t.selectByOrderId orderId) orderinfo.naddressid)
  else none

/-- `updateByPrimaryKey` of an order. -/
def updateOrderinfo (orderId : Nat) (orderinfo : Orderinfo) : Tables :=
 { t with orderinfo := update t.orderinfo orderId (some orderinfo) }

/-- The status of an order after a delivery update. -/
def deliveredStatus (cstatus deliveryStatus : Int) : Int :=
 if deliveryStatus = 4 then 3
 else if deliveryStatus = 1 ∨ deliveryStatus = 2 ∨ deliveryStatus = 3 then 2
 else cstatus

def updateOrderDeliveryByMySQL (orderId : Nat) (deliveryStatus : Int) :
 Option (Tables × OrderDTO) :=
 match t.orderinfo orderId with
 | none => none
 | some orderinfo =>
  match t.deliveryinfo orderinfo.ndeliveryid with
  | none => none
  | some deliveryinfo =>
   let t1 := { t with
    deliveryinfo := update t.deliveryinfo orderinfo.ndeliveryid
     (some { deliveryinfo with cstatus := deliveryStatus }) }
   let orderinfo := { orderinfo with cstatus := deliveredStatus orderinfo.cstatus deliveryStatus }
   let t2 := t1.updateOrderinfo orderId orderinfo
   (t2.orderDTO orderId orderinfo).map (t2,·)

/-- The order that a payment finds and the card it is paid with. -/
def payment (userId orderId : Nat) (cardId paymentPassword : String) :
 Option (Orderinfo × Option Userbankinfo) :=
 match t.userinfo userId,t.userbankinfo cardId,t.orderinfo orderId with
 | some spaypassword,some userbankinfo,some orderinfo =>
  some (orderinfo,
   if spaypassword = some paymentPassword ∧ cardId = userbankinfo.scardid ∧ orderinfo.cstatus = 0
   then some userbankinfo else none)
 | _,_,_ => none

/-- The tables, which keep the new status also if the rest throws. -/
def updateOrderPaymentByMySQL (userId orderId : Nat) (cardId paymentPassword : String) :
 Tables × Option OrderDTO :=
 match t.payment userId orderId cardId paymentPassword with
 | none => (t,none)
 | some (orderinfo,none) => (t,t.orderDTO orderId orderinfo)
 | some (orderinfo,some userbankinfo) =>
  let orderinfo := { orderinfo with cstatus := 1,cpaymentmethod := userbankinfo.scardtype }
  let t := t.updateOrderinfo orderId orderinfo
  (t,t.orderDTO orderId orderinfo)

end Tables

-- Calls

inductive CacheCall
 | createOrder (orderDTO : OrderRequest)
 | createOrderByShoppingCart (orderDTO : OrderRequest) (shoppingCartDTO : ShoppingCartDTO)
 | deleteOrder (userId orderId : Nat)
 | updateOrderDelivery (orderId : Nat) (deliveryStatus : Int)
 | updateOrderPayment (userId orderId : Nat) (cardId paymentPassword : String)

structure Store where
 tables : Tables
 redis : Nat → Option OrderDTO

namespace Store

variable (s : Store)

/-- `jedis.set` of a returned order. -/
def set (tables : Tables) (orderDTO : OrderDTO) : Store :=
 ⟨tables,update s.redis orderDTO.orderId (some orderDTO)⟩

/-- The tables of a creation that threw. -/
def rollback (tables : Tables) : Store :=
 { s with tables := { s.tables with
    nextDeliveryid := tables.nextDeliveryid
    nextOrderid := tables.nextOrderid } }

/-- A creation in its transaction. -/
def create (answer : RedisAnswer) (result : Tables × Option OrderDTO) : Store :=
 match result.2,answer with
 | some orderDTO,.works => s.set result.1 orderDTO
 | _,_ => s.rollback result.1

def call (answer : RedisAnswer) : CacheCall → Store
 | .createOrder orderDTO => s.create answer (s.tables.createOrderByMySQL orderDTO)
 | .createOrderByShoppingCart orderDTO shoppingCartDTO =>
  s.create answer (s.tables.createOrderByMySQLShoppingCart orderDTO shoppingCartDTO)
 | .deleteOrder userId orderId =>
  match s.tables.deleteOrderInfoByMySQL userId orderId,answer with
  | some tables,.works => ⟨tables,update s.redis orderId none⟩
  -- the reply is not looked at
  | some tables,.noReply => ⟨tables,s.redis⟩
  | _,_ => s
 | .updateOrderDelivery orderId deliveryStatus =>
  match s.tables.updateOrderDeliveryByMySQL orderId deliveryStatus,answer with
  | some (tables,orderDTO),.works => s.set tables orderDTO
  | _,_ => s
 | .updateOrderPayment userId orderId cardId paymentPassword =>
  let result := s.tables.updateOrderPaymentByMySQL userId orderId cardId paymentPassword
  match result.2,answer with
  | some orderDTO,.works => s.set result.1 orderDTO
  -- not a transaction: what was written stays
  | _,_ => { s with tables := result.1 }

end Store

def cacheStep (s : Store) (a : RedisAnswer × CacheCall) : Option Store := some (s.call a.1 a.2)

end Packages.OrderService

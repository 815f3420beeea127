import Packages.Lib.Table

/-!
# Shopping carts in `ShoppingCartServiceImpl.java`

`createShoppingCartAndSKU`, `updateShoppingCartSKU` and `deleteShoppingCartSKU` over their three
tables. A call is a transaction: it returns the new database, or throws and leaves the old one. A
cart has the id of its user. Currency, times and Redis are left out; a `BigDecimal` is exact, an
`int` wraps, `null` is `none`.
-/

namespace Packages.CartService

abbrev BigDecimal := Rat

/-- A number as Java stores it in an `int`. -/
def toInt (x : Int) : Int := x.bmod (2^32)

/-- A row of `r_ec_sku`. -/
structure Sku where
 ndisplayprice : Option BigDecimal
 ndiscount : Option BigDecimal

/-- A row of `r_ec_cartsku`. -/
structure Cartsku where
 ncartskuid : Nat
 nuserid : Nat
 nskuid : Nat
 nquantity : Int
 nshoppingcartid : Nat
 deriving DecidableEq,Repr

/-- A row of `r_ec_shoppingcart`, without its id. -/
structure Shoppingcart where
 nuserid : Nat
 ndiscount : BigDecimal
 ntotalquantity : Int
 ntotalprice : BigDecimal
 deriving DecidableEq,Repr

structure Db where
 sku : Nat → Option Sku
 shoppingcart : Nat → Option Shoppingcart
 cartsku : List Cartsku
 /-- The next generated key of `r_ec_cartsku`. -/
 nextCartskuid : Nat

/-- A product in the body of a request. -/
structure SKUDTO where
 skuId : Nat
 displayPrice : Option BigDecimal
 discount : Option BigDecimal
 quantity : Int

structure ShoppingCartDTO where
 userId : Nat
 skudtoList : Option (List SKUDTO)

-- `ComputeUtils`

def computeNumber (skuDTOList : List SKUDTO) : Int :=
 skuDTOList.foldl (fun quantity dto => toInt (quantity+dto.quantity)) 0

def computeDiscount (skuDTOList : List SKUDTO) : BigDecimal :=
 skuDTOList.foldl (fun discount dto => discount+dto.discount.getD 0*dto.quantity) 0

/-- Throws on a product without a price. -/
def computeTotalPrice (skuDTOList : List SKUDTO) : Option BigDecimal :=
 skuDTOList.foldlM (fun totalPrice dto =>
  dto.displayPrice.map fun price => totalPrice+price*dto.quantity) 0

def convertToSKUDTO (skuid : Nat) (sku : Sku) (ninventory : Int) : SKUDTO :=
 ⟨skuid,sku.ndisplayprice,sku.ndiscount,ninventory⟩

-- Statements

namespace Db

variable (db : Db)

/-- `insertSelective` and `updateByPrimaryKeySelective` of a shopping cart. -/
def storeShoppingcart (cartid : Nat) (cart : Shoppingcart) : Db :=
 { db with shoppingcart := Function.update db.shoppingcart cartid (some cart) }

def insertCartsku (userid cartid skuid : Nat) (quantity : Int) : Db :=
 { db with
   cartsku := db.cartsku++[⟨db.nextCartskuid,userid,skuid,quantity,cartid⟩]
   nextCartskuid := db.nextCartskuid+1 }

/-- `updateByPrimaryKey` of a row of the cart. -/
def updateCartsku (row : Cartsku) : Db :=
 { db with cartsku := Table.replace Cartsku.ncartskuid row db.cartsku }

/-- `deleteByPrimaryKey` of a row of the cart. -/
def deleteCartsku (ncartskuid : Nat) : Db :=
 { db with cartsku := Table.delete Cartsku.ncartskuid ncartskuid db.cartsku }

def selectByShoppingCartId (cartid : Nat) : List Cartsku :=
 db.cartsku.filter (·.nshoppingcartid = cartid)

/-- The row with a key or none; more than one row throws. -/
def selectByREcCartskuKey (cartid skuid : Nat) : Option (Option Cartsku) :=
 match db.cartsku.filter fun row => row.nshoppingcartid = cartid ∧ row.nskuid = skuid with
 | [] => some none
 | [row] => some (some row)
 | _::_::_ => none

-- Calls

def insertAll (cartid : Nat) (skuDTOList : List SKUDTO) : Db :=
 skuDTOList.foldl (fun db dto => db.insertCartsku cartid cartid dto.skuId dto.quantity) db

def createShoppingCartAndSKU (shoppingCartDTO : ShoppingCartDTO) : Option Db :=
 let skuDTOList := shoppingCartDTO.skudtoList.getD []
 let userId := shoppingCartDTO.userId
 match computeTotalPrice skuDTOList with
 | none => none
 | some totalPrice =>
  let cart : Shoppingcart :=
   ⟨userId,computeDiscount skuDTOList,computeNumber skuDTOList,totalPrice⟩
  match db.shoppingcart userId with
  | none => some ((db.storeShoppingcart userId cart).insertAll userId skuDTOList)
  | some _ =>
   let db := db.storeShoppingcart userId cart
   let db :=
    (db.selectByShoppingCartId userId).foldl (fun db row => db.deleteCartsku row.ncartskuid) db
   some (db.insertAll userId skuDTOList)

/-- The loop of `computeQuantityDiscountTotalPrice` over the rows in the cart: quantity, discount
and price by the catalogue. The outer `none` is an exception, the inner one a missing row. -/
def originSums (cartid : Nat) :
 List SKUDTO → Int × BigDecimal × BigDecimal → Option (Option (Int × BigDecimal × BigDecimal))
 | [],sums => some (some sums)
 | dto::list,(quantityOrigin,discountOrigin,totalPriceOrigin) =>
  match db.selectByREcCartskuKey cartid dto.skuId with
  | none => none
  | some none => some none
  | some (some cartsku) =>
   match db.sku dto.skuId with
   | none => some none
   | some sku =>
    match sku.ndiscount,sku.ndisplayprice with
    | some discount,some price => originSums cartid list
     (toInt (quantityOrigin+cartsku.nquantity),
      discountOrigin+discount*cartsku.nquantity,
      totalPriceOrigin+price*cartsku.nquantity)
    | _,_ => none

/-- `computeQuantityDiscountTotalPrice`: the cart with the new totals, or as it was if a row is
missing. -/
def computeQuantityDiscountTotalPrice (cartid : Nat) (skuDTOList : List SKUDTO)
 (cart : Shoppingcart) : Option Shoppingcart :=
 match computeTotalPrice skuDTOList with
 | none => none
 | some totalPriceDTO =>
  (db.originSums cartid skuDTOList (0,0,0)).map fun sums =>
   match sums with
   | none => cart
   | some (quantityOrigin,discountOrigin,totalPriceOrigin) =>
    { cart with
      ntotalquantity :=
       toInt (toInt (cart.ntotalquantity-quantityOrigin)+computeNumber skuDTOList)
      ndiscount := cart.ndiscount-discountOrigin+computeDiscount skuDTOList
      ntotalprice := cart.ntotalprice-totalPriceOrigin+totalPriceDTO }

def updateShoppingCartSKU (skudtoList : Option (List SKUDTO)) (userid cartid skuid : Nat) :
 Option Db :=
 match db.shoppingcart cartid,skudtoList with
 | some cart,some [dto] =>
  let skudto := { dto with skuId := skuid }
  match db.sku skuid with
  | none => none
  | some _ =>
   match computeTotalPrice [skudto] with
   | none => none
   | some totalPrice =>
    match db.selectByREcCartskuKey cartid skuid with
    | none => none
    | some none =>
     some ((db.insertCartsku userid cartid skuid skudto.quantity).storeShoppingcart cartid
      { cart with
        ntotalquantity := toInt (cart.ntotalquantity+computeNumber [skudto])
        ndiscount := cart.ndiscount+computeDiscount [skudto]
        ntotalprice := cart.ntotalprice+totalPrice })
    | some (some cartsku) =>
     match db.computeQuantityDiscountTotalPrice cartid [skudto] cart with
     | none => none
     | some cart =>
      some ((db.updateCartsku { cartsku with nquantity := skudto.quantity }).storeShoppingcart
       cartid cart)
 | _,_ => none

def deleteShoppingCartSKU (cartid skuid : Nat) : Option Db :=
 match db.shoppingcart cartid,db.selectByREcCartskuKey cartid skuid,db.sku skuid with
 | some cart,some (some cartsku),some sku =>
  let skuDTOList := [convertToSKUDTO skuid sku cartsku.nquantity]
  match computeTotalPrice skuDTOList with
  | none => none
  | some totalPrice =>
   some ((db.deleteCartsku cartsku.ncartskuid).storeShoppingcart cartid
    { cart with
      ntotalquantity := toInt (cart.ntotalquantity-computeNumber skuDTOList)
      ndiscount := cart.ndiscount-computeDiscount skuDTOList
      ntotalprice := cart.ntotalprice-totalPrice })
 -- no cart, no row or several rows, no product in the catalogue: each of them throws
 | _,_,_ => none

end Db

inductive Call
 | createShoppingCartAndSKU (shoppingCartDTO : ShoppingCartDTO)
 | updateShoppingCartSKU (skudtoList : Option (List SKUDTO)) (userid cartid skuid : Nat)
 | deleteShoppingCartSKU (cartid skuid : Nat)

def Db.call (db : Db) : Call → Option Db
 | .createShoppingCartAndSKU shoppingCartDTO => db.createShoppingCartAndSKU shoppingCartDTO
 | .updateShoppingCartSKU skudtoList userid cartid skuid =>
  db.updateShoppingCartSKU skudtoList userid cartid skuid
 | .deleteShoppingCartSKU cartid skuid => db.deleteShoppingCartSKU cartid skuid

/-- A sequence of successful calls. -/
def Db.run (db : Db) (calls : List Call) : Option Db := calls.foldlM Db.call db

end Packages.CartService

import Packages.CartService.Model
import Packages.Lib.Transition

/-!
# Requests to `ShoppingCartController.java`

Every request with its transaction on the tables and its call of Redis, which may fail. A request
that fails leaves tables and Redis as they were. Cart ids and user ids come from the path or the
body of the request and nobody checks that they belong together.
-/

namespace Packages.CartService

open Function

-- The cart that is sent and cached

/-- `ShoppingCartDTO` as the service returns it; `skudtoList` has the quantities of the cart. -/
structure CartDTO where
 nshoppingcartid : Nat
 userId : Nat
 discount : BigDecimal
 quantity : Int
 price : BigDecimal
 skudtoList : List SKUDTO

namespace Db

variable (db : Db)

/-- `getSKUListBycarskuList` on the products and quantities of some rows. The catalogue answers in
the order of the ids, each once, and the quantities are given out by position. -/
def getSKUListBycarskuList (rows : List (Nat × Int)) : List SKUDTO :=
 let skuList := ((rows.map (·.1)).dedup.mergeSort (· ≤ ·)).filterMap fun skuid =>
  (db.sku skuid).map (skuid,·)
 (skuList.zip (rows.map (·.2))).map fun ((skuid,sku),quantity) => convertToSKUDTO skuid sku quantity

def convertToShoppingDTO (cartid : Nat) (cart : Shoppingcart) (rows : List (Nat × Int)) : CartDTO :=
 ⟨cartid,cart.nuserid,cart.ndiscount,cart.ntotalquantity,cart.ntotalprice,
  db.getSKUListBycarskuList rows⟩

/-- The cart as the tables have it. -/
def cartDTO (cartid : Nat) (cart : Shoppingcart) : CartDTO :=
 db.convertToShoppingDTO cartid cart
  ((db.selectByShoppingCartId cartid).map fun row => (row.nskuid,row.nquantity))

def deleteByREcCartskuKey (cartid skuid : Nat) : Db :=
 { db with cartsku := db.cartsku.filter fun row =>
  ¬(row.nshoppingcartid = cartid ∧ row.nskuid = skuid) }

/-- `deleteShoppingCartAndSKUByMySQL` -/
def deleteShoppingCartAndSKU (cartid : Nat) : Db :=
 let db' := ((db.selectByShoppingCartId cartid).map (·.nskuid)).foldl
  (fun db skuid => db.deleteByREcCartskuKey cartid skuid) db
 { db' with shoppingcart := update db'.shoppingcart cartid none }

/-- `createShoppingCartAndSKUToMySQL` with the cart it returns. -/
def createToMySQL (shoppingCartDTO : ShoppingCartDTO) : Option (Db × CartDTO) :=
 (db.createShoppingCartAndSKU shoppingCartDTO).bind fun db' =>
  (db'.shoppingcart shoppingCartDTO.userId).map fun cart =>
   (db',db'.convertToShoppingDTO shoppingCartDTO.userId cart
    ((shoppingCartDTO.skudtoList.getD []).map fun dto => (dto.skuId,dto.quantity)))

/-- The last part of both `updateShoppingCartAndSKUByMySQL`. -/
def returnCart (cartid : Nat) (result : Option Db) : Option (Db × CartDTO) :=
 result.bind fun db' => (db'.shoppingcart cartid).map fun cart => (db',db'.cartDTO cartid cart)

end Db

-- Requests

/-- The tables, the ids of the rows of `r_ec_shoppingcart`, and the carts in Redis by cart id. -/
structure Store where
 db : Db
 cartIds : List Nat
 redis : Nat → Option CartDTO

/-- What becomes of the call of Redis. Without a reply or a connection nothing is done. -/
inductive RedisAnswer
 | works
 | noReply
 | noConnection
 | throws
 deriving DecidableEq

inductive Request
 | createShoppingCart (shoppingCartDTO : ShoppingCartDTO)
 | getShoppingCart (userid cartid : Nat)
 | getShoppingCartByUser (userid : Nat)
 | deleteShoppingCart (userid cartid : Nat)
 | updateShoppingCartProduct (skudtoList : Option (List SKUDTO)) (userid cartid skuid : Nat)
 | deleteShoppingCartProduct (userid cartid skuid : Nat)

/-- The user id in the path, or in the body of a creation. -/
def Request.userid : Request → Nat
 | .createShoppingCart shoppingCartDTO => shoppingCartDTO.userId
 | .getShoppingCart userid _ => userid
 | .getShoppingCartByUser userid => userid
 | .deleteShoppingCart userid _ => userid
 | .updateShoppingCartProduct _ userid _ _ => userid
 | .deleteShoppingCartProduct userid _ _ => userid

inductive Response
 | status (success : Bool)
 | cart (shoppingCartDTO : CartDTO)
 | message

namespace Store

variable (s : Store)

/-- A transaction that ends with `jedis.set`. -/
def commit (answer : RedisAnswer) (result : Option (Db × CartDTO)) : Response × Store :=
 match result,answer with
 | some (db,dto),.works =>
  (.status true,{
   db := db
   cartIds := if dto.nshoppingcartid ∈ s.cartIds then s.cartIds
    else dto.nshoppingcartid::s.cartIds
   redis := update s.redis dto.nshoppingcartid (some dto) })
 | _,_ => (.status false,s)

def getShoppingCartByMySQL (userid cartid : Nat) : Response :=
 match s.db.shoppingcart cartid with
 | none => .message
 | some cart => if cart.nuserid = userid then .cart (s.db.cartDTO cartid cart) else .message

def getShoppingCart (answer : RedisAnswer) (userid cartid : Nat) : Response :=
 match answer with
 | .throws => .message
 | .noReply | .noConnection => s.getShoppingCartByMySQL userid cartid
 | .works =>
  match s.redis cartid with
  | none => s.getShoppingCartByMySQL userid cartid
  | some dto => if userid = dto.userId then .cart dto else s.getShoppingCartByMySQL userid cartid

def selectByUserId (userid : Nat) : List Nat :=
 s.cartIds.filter fun cartid => (s.db.shoppingcart cartid).any (·.nuserid = userid)

def deleteCart (cartid : Nat) (redis : Nat → Option CartDTO) : Store where
 db := s.db.deleteShoppingCartAndSKU cartid
 cartIds := s.cartIds.erase cartid
 redis := redis

def handle (answer : RedisAnswer) : Request → Response × Store
 | .createShoppingCart shoppingCartDTO => s.commit answer (s.db.createToMySQL shoppingCartDTO)
 | .getShoppingCart userid cartid => (s.getShoppingCart answer userid cartid,s)
 | .getShoppingCartByUser userid =>
  match s.selectByUserId userid with
  | [cartid] => (s.getShoppingCart answer userid cartid,s)
  | _ => (.message,s)
 | .deleteShoppingCart _ cartid =>
  match answer with
  | .works => (.status true,s.deleteCart cartid (update s.redis cartid none))
  -- the reply is not looked at
  | .noReply => (.status true,s.deleteCart cartid s.redis)
  | .noConnection | .throws => (.status false,s)
 | .updateShoppingCartProduct skudtoList userid cartid skuid =>
  s.commit answer (Db.returnCart cartid (s.db.updateShoppingCartSKU skudtoList userid cartid skuid))
 | .deleteShoppingCartProduct _ cartid skuid =>
  s.commit answer (Db.returnCart cartid (s.db.deleteShoppingCartSKU cartid skuid))

end Store

def step (s : Store) (a : RedisAnswer × Request) : Option Store := some (s.handle a.1 a.2).2

end Packages.CartService

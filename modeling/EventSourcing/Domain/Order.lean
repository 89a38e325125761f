import EventSourcing.Aggregate
import EventSourcing.Table

/-!
# Orders

Orders are placed, filled with items, shipped and deleted. The same events also feed a ledger, which
only counts them and cannot be deleted.
-/

namespace EventSourcing.Domain

inductive OrderEvent
  | placed (customer : String)
  | itemAdded (sku : String) (quantity : UInt32)
  | shipped
  | deleted
  deriving DecidableEq, Repr

namespace OrderEvent

def typeName : OrderEvent → String
  | .placed _ => "OrderPlaced"
  | .itemAdded _ _ => "ItemAdded"
  | .shipped => "OrderShipped"
  | .deleted => "OrderDeleted"

def payload : OrderEvent → Bytes
  | .placed customer => Json.writeObject [("customer", Json.writeText customer)]
  | .itemAdded sku quantity =>
    Json.writeObject [("quantity", Json.writeInt quantity.toNat), ("sku", Json.writeText sku)]
  | .shipped | .deleted => Json.writeObject []

def readPlaced (t : Json.Tree) : Option OrderEvent := do
  match ← t.fields? ["customer"] with
  | [some customer] => return .placed (← customer.text?)
  | _ => none

def readItemAdded (t : Json.Tree) : Option OrderEvent := do
  match ← t.fields? ["sku", "quantity"] with
  | [some sku, some quantity] =>
    let sku ← sku.text?
    let quantity ← quantity.int?
    if 0 ≤ quantity ∧ quantity ≤ Number.maxWord32 then some (.itemAdded sku quantity.toNat.toUInt32) else none
  | _ => none

/-- An event without fields accepts every JSON value. -/
def readBare (event : OrderEvent) (t : Json.Tree) : Option OrderEvent :=
  if t.isValue then some event else none

/-- The retired type `LegacyNote` is left out. -/
def decode (eventType : String) (data : Bytes) : Decoded OrderEvent :=
  if eventType = "OrderPlaced" then Decoded.ofJson eventType data readPlaced
  else if eventType = "ItemAdded" then Decoded.ofJson eventType data readItemAdded
  else if eventType = "OrderShipped" then Decoded.ofJson eventType data (readBare .shipped)
  else if eventType = "OrderDeleted" then Decoded.ofJson eventType data (readBare .deleted)
  else if eventType = "LegacyNote" then .skip
  else .error (.unknownType eventType)

end OrderEvent

instance : DomainEvent OrderEvent where
  eventType := OrderEvent.typeName
  encode event := .ok event.payload
  decode := OrderEvent.decode

/-! ## The order -/

inductive OrderStatus
  | draft
  | placed
  | shipped
  | deleted
  deriving DecidableEq, Repr

def OrderStatus.name : OrderStatus → String
  | .draft => "Draft"
  | .placed => "Placed"
  | .shipped => "Shipped"
  | .deleted => "Deleted"

structure Order where
  customer : Option String
  items : Table String UInt32
  status : OrderStatus
  deriving DecidableEq, Repr

namespace Order

def apply (o : Order) : OrderEvent → Order
  | .placed customer => { o with customer := some customer, status := .placed }
  | .itemAdded sku quantity =>
    { o with items := o.items.insert sku ((o.items.get? sku).getD 0 + quantity) }
  | .shipped => { o with status := .shipped }
  | .deleted => { o with status := .deleted }

/-- Only a placed order is shipped. -/
def ship (o : Order) : Except String (List OrderEvent) :=
  if o.status = .placed then .ok [.shipped]
  else .error ("cannot ship order in status " ++ o.status.name)

end Order

instance : Aggregate Order OrderEvent where
  kind := "order"
  zero := ⟨none, [], .draft⟩
  apply := Order.apply

instance : Removable Order OrderEvent where
  deletion _ := .deleted

/-! ## The ledger -/

structure Ledger where
  entries : Nat
  deriving DecidableEq, Repr

instance : Aggregate Ledger OrderEvent where
  kind := "ledger"
  zero := ⟨0⟩
  apply l _ := ⟨l.entries + 1⟩

end EventSourcing.Domain

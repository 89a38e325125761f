import EventSourcing.Aggregate

/-!
# Bank accounts

Accounts are opened, money goes in and out, and they are closed.
-/

namespace EventSourcing.Domain

inductive AccountEvent
  | opened (owner : String)
  | deposited (cents : Int64)
  | withdrawn (cents : Int64)
  | closed
  deriving DecidableEq, Repr

namespace AccountEvent

def typeName : AccountEvent → String
  | .opened _ => "AccountOpened"
  | .deposited _ => "MoneyDeposited"
  | .withdrawn _ => "MoneyWithdrawn"
  | .closed => "AccountClosed"

def payload : AccountEvent → Bytes
  | .opened owner => Json.writeObject [("owner", Json.writeText owner)]
  | .deposited cents | .withdrawn cents => Json.writeObject [("cents", Json.writeInt cents.toInt)]
  | .closed => Json.writeObject []

def readOpened (t : Json.Tree) : Option AccountEvent := do
  match ← t.fields? ["owner"] with
  | [some owner] => return .opened (← owner.text?)
  | _ => none

/-- Reads an amount of money for the event that holds it. -/
def readAmount (event : Int64 → AccountEvent) (t : Json.Tree) : Option AccountEvent := do
  match ← t.fields? ["cents"] with
  | [some cents] =>
    let cents ← cents.int?
    if Number.FitsInt64 cents then some (event (Int64.ofInt cents)) else none
  | _ => none

/-- The payload of a closing is not looked at. -/
def decode (eventType : String) (data : Bytes) : Decoded AccountEvent :=
  if eventType = "AccountOpened" then Decoded.ofJson eventType data readOpened
  else if eventType = "MoneyDeposited" then Decoded.ofJson eventType data (readAmount .deposited)
  else if eventType = "MoneyWithdrawn" then Decoded.ofJson eventType data (readAmount .withdrawn)
  else if eventType = "AccountClosed" then .event .closed
  else .error (.unknownType eventType)

end AccountEvent

instance : DomainEvent AccountEvent where
  eventType := AccountEvent.typeName
  encode event := .ok event.payload
  decode := AccountEvent.decode

structure Account where
  owner : Option String
  balance : Int64
  closed : Bool
  deriving DecidableEq, Repr

namespace Account

def apply (a : Account) : AccountEvent → Account
  | .opened owner => { a with owner := some owner }
  | .deposited cents => { a with balance := a.balance + cents }
  | .withdrawn cents => { a with balance := a.balance - cents }
  | .closed => { a with closed := true }

/-- Money leaves only an open account that holds it. -/
def withdraw (a : Account) (cents : Int64) : Except String (List AccountEvent) :=
  if a.closed then .error "account is closed"
  else if a.balance < cents then
    .error ("insufficient funds: " ++ toString a.balance.toInt ++ " < " ++ toString cents.toInt)
  else .ok [.withdrawn cents]

end Account

instance : Aggregate Account AccountEvent where
  kind := "account"
  zero := ⟨none, 0, false⟩
  apply := Account.apply

instance : Removable Account AccountEvent where
  deletion _ := .closed

end EventSourcing.Domain

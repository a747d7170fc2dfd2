import Omniscient.OrderJson
import Omniscient.Reconcile
import Omniscient.Service

/-! The routes of the gateway. The body of a request is read before its handler runs,
and a body that cannot be read is answered without it. -/

namespace Omniscient.Gateway.Api

inductive Content where
  | json (value : Json)
  | rejection (error : Json.Error)

structure Response where
  status : Nat
  content : Content

def Response.isSuccess (response : Response) : Bool := 200 ≤ response.status ∧ response.status < 300

def unprocessable (error : Json.Error) : Response := ⟨422, .rejection error⟩

inductive AppError where
  | badRequest (message : String)
  | unauthorized
  | internal (message : String)
  deriving DecidableEq, Repr

/-- Whose fault it is, told by the words of the message. -/
def AppError.fromOrderError (e : String) : AppError :=
  if "insufficient".toList <:+: e.toList ∨ "expired".toList <:+: e.toList ∨ "invalid".toList <:+: e.toList then
    .badRequest e
  else
    .internal e

def AppError.intoResponse (error : AppError) : Response :=
  let (status, message) := match error with
    | .badRequest message => (400, message)
    | .unauthorized => (401, "unauthorized")
    | .internal message => (500, message)
  ⟨status, .json (.object [("error", .string message)])⟩

/-- The crate behind `OrderId`: its parser, with the error as a text, and its display. -/
structure UuidCrate where
  parseStr : String → Except String OrderId
  display : OrderId → String

structure SubmitOrderRequest where
  marketId : String
  signedOrder : SignedOrder

def SubmitOrderRequest.deserialize (crates : Crates) (json : Json) : Except Json.Error SubmitOrderRequest := do
  let values ← json.members ["marketId", "signedOrder"]
  match values with
  | [marketId, signedOrder] =>
    let marketId ← marketId.readString
    let signedOrder ← SignedOrder.deserialize crates signedOrder
    return { marketId, signedOrder }
  | _ => .error (.invalidLength values.length)

structure CancelOrderRequest where
  positionId : String

def CancelOrderRequest.deserialize (json : Json) : Except Json.Error CancelOrderRequest := do
  let values ← json.members ["positionId"]
  match values with
  | [positionId] =>
    let positionId ← positionId.readString
    return { positionId }
  | _ => .error (.invalidLength values.length)

structure ReconcilePayload where
  user : String
  deposit : Nat
  blockNumber : Nat

def ReconcilePayload.deserialize (json : Json) : Except Json.Error ReconcilePayload := do
  let values ← json.members ["user", "deposit", "blockNumber"]
  match values with
  | [user, deposit, blockNumber] =>
    let user ← user.readString
    let deposit ← deposit.readUnsigned 64
    let blockNumber ← blockNumber.readUnsigned 64
    return { user, deposit, blockNumber }
  | _ => .error (.invalidLength values.length)

def service {α : Type} (call : ExceptT String Effect α) : ExceptT AppError Effect α :=
  ExceptT.mk do return (← call.run).mapError AppError.fromOrderError

/-- A step of a handler that parses a text of the request. -/
def parsed {α : Type} (label : String) (result : Except String α) : ExceptT AppError Effect α :=
  ExceptT.mk (pure (result.mapError fun e => .badRequest (label ++ e)))

def respond (handler : ExceptT AppError Effect Response) : Effect Response := do
  match ← handler.run with
  | .ok response => return response
  | .error error => return error.intoResponse

/-- `orderId` is the new random id. -/
def postOrders (crates : Crates) (uuid : UuidCrate) (crypto : Crypto) (config : AppConfig) (now : UInt64)
    (orderId : OrderId) (body : Json) : Effect Response :=
  match SubmitOrderRequest.deserialize crates body with
  | .error error => return unprocessable error
  | .ok body => respond do
    let marketId ← parsed "invalid market_id: " (MarketId.fromHex crates.hex body.marketId)
    let orderId ← service (acceptOrder crypto config now orderId body.signedOrder marketId)
    return ⟨202, .json (.object [("orderId", .string (uuid.display orderId)), ("status", .string "accepted")])⟩

def postCancelOrder (crates : Crates) (uuid : UuidCrate) (orderId : String) (body : Json) : Effect Response :=
  match CancelOrderRequest.deserialize body with
  | .error error => return unprocessable error
  | .ok body => respond do
    let orderId ← parsed "invalid order_id: " (uuid.parseStr orderId)
    let positionId ← parsed "invalid position_id: " (crates.parseU256 body.positionId)
    service (cancelOrder orderId positionId)
    return ⟨200, .json (.object [("status", .string "cancelled")])⟩

open Indexer (Ending) in
/-- The handler with its transaction, which ends as any transaction can. The secret is
the configured one, and `header` what the request carries as its own. -/
def postReconcile (hex : HexCrate) (secret : String) (ending : Ending) (header : Option String) (body : Json)
    (db : Database) : Response × Database :=
  match ReconcilePayload.deserialize body with
  | .error error => (unprocessable error, db)
  | .ok body =>
    if header.getD "" ≠ secret then
      (AppError.unauthorized.intoResponse, db)
    else
      match Address.fromHex hex body.user with
      | .error e => ((AppError.badRequest ("invalid user address: " ++ e)).intoResponse, db)
      | .ok user =>
        match ending, Gateway.postReconcile ⟨user, body.deposit, body.blockNumber⟩ db with
        | .succeeds, .ok after => (⟨200, .json (.object [("status", .string "ok")])⟩, after)
        | .unreported, .ok after => ((AppError.internal "database error").intoResponse, after)
        | _, _ => ((AppError.internal "database error").intoResponse, db)

end Omniscient.Gateway.Api

import Omniscient.Service

/-! Accepting an order where its operations fail: one call alone, any of whose steps
may fail, and many calls whose statements interleave on one database. -/

namespace Omniscient.Gateway

/-- The steps of `accept_order` after validation. -/
inductive AcceptStep where
  | ensureUser
  | reserveCollateral
  | insertOrder
  | insertHold
  | enqueue
  deriving DecidableEq

/-- The step that an operation is; a release compensates and is none. -/
def Operation.acceptStep : Operation → Option AcceptStep
  | .execute (.ensureUser _) => some .ensureUser
  | .execute (.reserveCollateral ..) => some .reserveCollateral
  | .execute (.insertOrder _) => some .insertOrder
  | .execute (.insertHold ..) => some .insertHold
  | .trySend _ => some .enqueue
  | _ => none

def Operation.failure : (operation : Operation) → operation.Answer
  | .execute _ => .error "pool timed out while waiting for an open connection"
  | .trySend _ => false
  | .publish _ => ()

/-- One operation, where the chosen steps fail and do nothing. -/
def System.attempt (fails : AcceptStep → Bool) (system : System) (operation : Operation) : operation.Answer × System :=
  if operation.acceptStep.any fails then (operation.failure, system) else system.perform operation

/-- A call of `accept_order` alone: its result and what it leaves. -/
def System.accept (crypto : Crypto) (config : AppConfig) (fails : AcceptStep → Bool) (system : System)
    (orderId : OrderId) (signed : SignedOrder) (marketId : MarketId) : Except String OrderId × System :=
  (acceptOrder crypto config system.clock orderId signed marketId).run.exec (System.attempt fails) system

/-- How a statement goes: it runs and its answer arrives; it fails and does nothing; it
runs, but its answer is lost and the caller sees a failure. -/
inductive Delivery where
  | answered
  | failed (error : String)
  | lost (error : String)

def Delivery.execute (now : Nat) (statement : Statement) (db : Database) : Delivery → Except String Nat × Database
  | .answered =>
    match statement.run now db with
    | .ok (affected, db) => (.ok affected, db)
    | .error error => (.error error, db)
  | .failed error => (.error error, db)
  | .lost error =>
    match statement.run now db with
    | .ok (_, db) => (.error error, db)
    | .error _ => (.error error, db)

/-- The calls so far, each with what is left of it, and the database they share. -/
structure Calls where
  db : Database
  calls : List (Effect (Except String OrderId))

/-- What can happen next: a call arrives, or performs its next operation. The queue has
room or not. -/
inductive Calls.Event where
  | call (now : UInt64) (orderId : OrderId) (signed : SignedOrder) (marketId : MarketId)
  | execute (index : Nat) (now : Nat) (delivery : Delivery)
  | send (index : Nat) (sent : Bool)

def Calls.step (crypto : Crypto) (config : AppConfig) (state : Calls) : Calls.Event → Option Calls
  | .call now orderId signed marketId =>
    some { state with calls := state.calls ++ [(acceptOrder crypto config now orderId signed marketId).run] }
  | .execute index now delivery =>
    match state.calls[index]? with
    | some (.perform (.execute statement) next) =>
      let (answer, db) := delivery.execute now statement state.db
      some { db, calls := state.calls.set index (next answer) }
    | _ => none
  | .send index sent =>
    match state.calls[index]? with
    | some (.perform (.trySend _) next) => some { state with calls := state.calls.set index (next sent) }
    | _ => none

def Calls.Moves (crypto : Crypto) (config : AppConfig) (state : Calls) (event : Calls.Event) (after : Calls) : Prop :=
  state.step crypto config event = some after

end Omniscient.Gateway

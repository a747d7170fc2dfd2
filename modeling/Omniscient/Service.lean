import Omniscient.Infra

/-! The gateway as a whole: its API requests, the matcher thread, the result
processor and the database they share. Requests interleave between any two
operations; the queues keep their order. -/

namespace Omniscient.Gateway
open Outcome

/-- Checks the deadline, the ranges and the signature. Returns the maker. -/
def validateSignedOrder (crypto : Crypto) (config : AppConfig) (now : UInt64) (signed : SignedOrder) :
    Except String Address := do
  revertIf (signed.order.deadline ≤ now) "order expired"
  revertIf (signed.order.price = 0 ∨ signed.order.price > PRICE_SCALE) "price out of range (0, 1e6]"
  revertIf (signed.order.amount = 0) "amount must be > 0"
  let recovered ← (verifyOrderSignature crypto signed.order signed.signature config.chainId
    config.settlementExchangeAddr).mapError ("signature verification: " ++ ·)
  revertIf (recovered ≠ signed.order.maker) "signature does not match maker"
  return signed.order.maker

/-- An attempt whose error is reported under a label. -/
def labelled (label : String) (attempt : ExceptT String Effect Unit) : ExceptT String Effect Unit :=
  ExceptT.mk do return (← attempt.run).mapError (label ++ ·)

/-- An attempt after whose failure the compensation runs; its own failure is ignored. -/
def compensated (label : String) (attempt compensation : ExceptT String Effect Unit) : ExceptT String Effect Unit :=
  ExceptT.mk do
    match ← attempt.run with
    | .ok () => return .ok ()
    | .error error =>
      let _ ← compensation.run
      return .error (label ++ error)

def enqueue (command : MatchCommand) : ExceptT String Effect Unit :=
  ExceptT.mk do
    let sent : Bool ← Program.request (Operation.trySend command)
    return if sent then .ok () else .error "matcher queue full: sending on a full channel"

/-- Validate, ensure the user, reserve the collateral, insert the order and its
hold, and enqueue it. `orderId` is the new random id. -/
def acceptOrder (crypto : Crypto) (config : AppConfig) (now : UInt64) (orderId : OrderId) (signed : SignedOrder)
    (marketId : MarketId) : ExceptT String Effect OrderId := do
  let order := signed.order
  let maker ← ExceptT.mk (pure (validateSignedOrder crypto config now signed))
  labelled "ensure_user: " (ensureUser maker)
  let collateral := UInt64.ofNat order.requiredCollateral
  let assetType := order.assetType
  let positionRef := if assetType = .ctf then some order.positionId else none
  labelled "collateral: " (reserveCollateral maker assetType positionRef collateral)
  let release := releaseCollateral maker assetType positionRef collateral
  compensated "insert_order: "
    (insertOrder orderId maker marketId order.side order.price order.amount order.nonce order.salt order.positionId
      signed.signature (i64OrZero order.deadline)) release
  compensated "insert_hold: " (insertHold orderId maker assetType positionRef collateral) release
  enqueue (.placeOrder marketId order.positionId orderId maker order.price order.amount order.side order.nonce
    order.deadline)
  return orderId

/-- Cancel an order in the matcher, then in the database. -/
def cancelOrder (orderId : OrderId) (positionId : Uint256) : ExceptT String Effect Unit := do
  enqueue (.cancelOrder positionId orderId)
  labelled "cancel_order_db: " (cancelOrderDb orderId)

/-- Publish every fill and add it to both of its orders. Failures are logged only. -/
def processMatchResult (result : MatchResult) : Effect Unit :=
  result.fills.forM fun fill => do
    publishMatch result.marketId fill
    let _ ← (updateOrderFilled fill.makerOrderId fill.amount true).run
    let _ ← (updateOrderFilled fill.takerOrderId fill.amount false).run

/-- One row of the rebuild: its order goes to the end of its level. -/
def restore (books : Books) (row : OpenOrderRow) : Books :=
  let book := (books row.positionId).getD .new
  let resting : RestingOrder := {
    orderId := row.orderId
    maker := row.userAddress
    price := row.price
    amount := row.amount
    filled := row.filledAmount
    side := row.side
    seq := 0
    nonce := row.nonce
    deadline := .ofInt row.deadline }
  Function.update books row.positionId (some (book.insert resting).2)

/-- Rebuild the books from the open orders, as the gateway does when it starts. -/
def rebuildBooks (db : Database) : Option Books := do
  let rows ← loadOpenOrders db
  let books := rows.foldl restore fun _ => none
  return fun position => (books position).map OrderBook.prune

inductive Response where
  | placed (result : Except String OrderId)
  | cancelled (result : Except String Unit)

/-- The running gateway. `processing` is what the result processor has left to do
with the result it took last. -/
structure System where
  db : Database
  clock : UInt64
  dbClock : Nat
  requests : List (Effect Response)
  commands : List MatchCommand
  books : Books
  results : List MatchResult
  processing : Effect Unit
  published : List MatchEvent

def QUEUE_CAPACITY : Nat := 10000

/-- One operation. The command queue is bounded, and a full one refuses. -/
def System.perform (system : System) : (operation : Operation) → operation.Answer × System
  | .execute statement =>
    match statement.run system.dbClock system.db with
    | .ok (affected, db) => (.ok affected, { system with db })
    | .error error => (.error error, system)
  | .trySend command =>
    if system.commands.length < QUEUE_CAPACITY then
      (true, { system with commands := system.commands ++ [command] })
    else
      (false, system)
  | .publish event => ((), { system with published := system.published ++ [event] })

/-- What can happen next: a request arrives, performs its next operation or is
answered; the matcher takes a command; the result processor takes a result or
performs its next operation; the clocks move; the other services write. -/
inductive Event where
  | postOrder (orderId : OrderId) (signed : SignedOrder) (marketId : MarketId)
  | postCancel (orderId : OrderId) (positionId : Uint256)
  | request (index : Nat)
  | respond (index : Nat)
  | matching
  | receive
  | persist
  | clocks (gateway : UInt64) (db : Nat)
  | ledger (users : Address → Option UserRow) (markets : MarketId → Option MarketRow)
      (balances : BalanceKey → Option BalanceRow)
  | invalidateNonce (user : Address) (nonce : Int)

def System.step (crypto : Crypto) (config : AppConfig) (system : System) : Event → Option System
  | .postOrder orderId signed marketId =>
    let request : Effect Response := do
      return .placed (← (acceptOrder crypto config system.clock orderId signed marketId).run)
    some { system with requests := system.requests ++ [request] }
  | .postCancel orderId positionId =>
    let request : Effect Response := do
      return .cancelled (← (cancelOrder orderId positionId).run)
    some { system with requests := system.requests ++ [request] }
  | .request index =>
    match system.requests[index]? with
    | some (.perform operation next) =>
      let (answer, system) := system.perform operation
      some { system with requests := system.requests.set index (next answer) }
    | _ => none
  | .respond index =>
    match system.requests[index]? with
    | some (.done _) => some { system with requests := system.requests.eraseIdx index }
    | _ => none
  | .matching =>
    match system.commands with
    | command :: commands =>
      let (books, result) := process system.books command
      some { system with commands, books, results := system.results ++ result.toList }
    | [] => none
  | .receive =>
    match system.processing, system.results with
    | .done (), result :: results => some { system with results, processing := processMatchResult result }
    | _, _ => none
  | .persist =>
    match system.processing with
    | .perform operation next =>
      let (answer, system) := system.perform operation
      some { system with processing := next answer }
    | .done () => none
  | .clocks clock dbClock => some { system with clock, dbClock }
  | .ledger users markets balances => some { system with db := { system.db with users, markets, balances } }
  | .invalidateNonce user nonce =>
    let (_, db) := updateOrders (fun row => row.userAddress = user ∧ row.nonce < nonce ∧ row.status = .open)
      (fun row => { row with status := .cancelled }) system.db
    some { system with db }

def System.Moves (crypto : Crypto) (config : AppConfig) (system : System) (event : Event) (after : System) : Prop :=
  system.step crypto config event = some after

/-- The gateway as it starts on an empty database whose orders have such numbers. -/
def System.start (orderNumbers : NumberColumn) : System where
  db := { Database.empty with orderNumbers }
  clock := 0
  dbClock := 0
  requests := []
  commands := []
  books _ := none
  results := []
  processing := .done ()
  published := []

/-- The gateway as it starts on a database and the books loaded from it. -/
def System.starting (db : Database) (books : Books) (clock : UInt64) (dbClock : Nat) : System where
  db
  clock
  dbClock
  requests := []
  commands := []
  books
  results := []
  processing := .done ()
  published := []

/-- A restart, as far as the open orders can be loaded. -/
def System.restart (db : Database) (clock : UInt64) (dbClock : Nat) : Option System := do
  let books ← rebuildBooks db
  return .starting db books clock dbClock

def System.operation (system : System) : Event → Option Operation
  | .request index =>
    match system.requests[index]? with
    | some (.perform operation _) => some operation
    | _ => none
  | .persist =>
    match system.processing with
    | .perform operation _ => some operation
    | .done () => none
  | _ => none

/-- Both queues are empty and the last result is dealt with. -/
def System.drained (system : System) : Prop :=
  system.commands = [] ∧ system.results = [] ∧ system.processing = .done ()

end Omniscient.Gateway

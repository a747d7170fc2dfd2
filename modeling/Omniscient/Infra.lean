import Mathlib.Data.List.Sort
import Omniscient.Lib.Outcome
import Omniscient.Lib.Program
import Omniscient.Matcher
import Omniscient.Schema

/-! The gateway's statements. Each is atomic: it either returns the number of rows
it affected and the new tables, or fails on a constraint and changes nothing. Assumed of
the server: the decimal text that `insert_order` and `insert_hold` bind for `position_id`,
a NUMERIC, is read as its number. -/

namespace Omniscient.Gateway

/-- The values that `insert_order` binds; the other columns are the statement's. -/
structure OrderValues where
  orderId : OrderId
  maker : Address
  marketId : MarketId
  side : OrderSide
  price : Int
  amount : Int
  nonce : Int
  salt : Bytes32
  positionId : Uint256
  signature : Bytes
  deadline : Int
  deriving DecidableEq

inductive Statement where
  | ensureUser (maker : Address)
  | reserveCollateral (key : BalanceKey) (amount : Int)
  | releaseCollateral (key : BalanceKey) (amount : Int)
  | insertOrder (values : OrderValues)
  | insertHold (orderId : OrderId) (key : BalanceKey) (amount : Int)
  | updateOrderFilled (orderId : OrderId) (filledDelta : Int) (status : OrderStatus)
  | cancelOrderDb (orderId : OrderId)
  deriving DecidableEq

/-- A row that `insert_order` writes at time `now`. -/
def OrderValues.row (values : OrderValues) (now : Nat) : OrderRow where
  orderId := values.orderId
  userAddress := values.maker
  marketId := values.marketId
  side := values.side
  price := values.price
  amount := values.amount
  filledAmount := 0
  status := .open
  nonce := values.nonce
  salt := values.salt
  positionId := values.positionId
  signature := values.signature
  deadline := values.deadline
  createdAt := now

/-- `UPDATE orders SET … WHERE …`. -/
def updateOrders (affects : OrderRow → Bool) (set : OrderRow → OrderRow) (db : Database) : Nat × Database :=
  (db.orders.countP affects,
    { db with orders := db.orders.map fun row => if affects row then set row else row })

open Outcome in
def Statement.run (now : Nat) (db : Database) : Statement → Except String (Nat × Database)
  | .ensureUser maker =>
    match db.users maker with
    | some _ => return (0, db)
    | none => return (1, { db with users := Function.update db.users maker (some ⟨0⟩) })
  | .reserveCollateral key amount =>
    match db.balances key with
    | some row =>
      if amount ≤ row.availableAmount then
        let row := { row with
          holdAmount := row.holdAmount + amount
          availableAmount := row.availableAmount - amount }
        return (1, { db with balances := Function.update db.balances key (some row) })
      else
        return (0, db)
    | none => return (0, db)
  | .releaseCollateral key amount =>
    match db.balances key with
    | some row =>
      let row := { row with
        holdAmount := max (row.holdAmount - amount) 0
        availableAmount := row.availableAmount + amount }
      return (1, { db with balances := Function.update db.balances key (some row) })
    | none => return (0, db)
  | .insertOrder values => do
    revertIf (TIMESTAMP_END ≤ values.deadline) DbError.timestampOutOfRange
    revertIf (values.amount ≤ 0) (DbError.check "orders" "orders_amount_check")
    revertIf (¬ (0 < values.price ∧ values.price ≤ 1000000)) (DbError.check "orders" "orders_price_check")
    revertIf (db.orders.any (·.orderId = values.orderId)) (DbError.unique "orders_pkey")
    revertIf (db.users values.maker = none) (DbError.foreignKey "orders" "orders_user_address_fkey")
    revertIf (db.markets values.marketId = none) (DbError.foreignKey "orders" "orders_market_id_fkey")
    return (1, { db with orders := db.orders ++ [values.row now] })
  | .insertHold orderId key amount => do
    revertIf (amount ≤ 0) (DbError.check "holds" "holds_amount_check")
    revertIf (db.users key.userAddress = none) (DbError.foreignKey "holds" "holds_user_address_fkey")
    revertIf (db.orders.any (·.orderId = orderId) = false) (DbError.foreignKey "holds" "holds_order_id_fkey")
    let hold : HoldRow := {
      userAddress := key.userAddress
      orderId
      assetType := key.assetType
      positionId := key.positionId
      amount
      status := .held }
    return (1, { db with holds := db.holds ++ [hold] })
  | .updateOrderFilled orderId filledDelta status =>
    return updateOrders (·.orderId = orderId)
      (fun row => { row with filledAmount := row.filledAmount + filledDelta, status }) db
  | .cancelOrderDb orderId =>
    return updateOrders (fun row => row.orderId = orderId ∧ row.status = .open)
      (fun row => { row with status := .cancelled }) db

/-- A match as published to `orders.matched`. -/
structure MatchEvent where
  marketId : String
  maker : String
  taker : String
  price : UInt64
  amount : UInt64
  side : String
  deriving DecidableEq

/-- What a request or the result processor does between two of its awaits. -/
inductive Operation where
  | execute (statement : Statement)
  | trySend (command : MatchCommand)
  | publish (event : MatchEvent)
  deriving DecidableEq

/-- The driver's answers; a failed publication is only logged. -/
abbrev Operation.Answer : Operation → Type
  | .execute _ => Except String Nat
  | .trySend _ => Bool
  | .publish _ => Unit

abbrev Effect := Program Operation Operation.Answer

/-- Execute a statement for its effect; a failure is a `shared::Error`. -/
def execute (statement : Statement) : ExceptT String Effect Nat :=
  ExceptT.mk do
    let answer : Except String Nat ← Program.request (Operation.execute statement)
    return answer.mapError ("database error: " ++ ·)

def ensureUser (maker : Address) : ExceptT String Effect Unit := do
  let _ ← execute (.ensureUser maker)

/-- Reserve collateral in one update, if the balance covers it. -/
def reserveCollateral (maker : Address) (assetType : AssetType) (positionId : Option Uint256) (amount : UInt64) :
    ExceptT String Effect Unit := do
  let affected ← execute (.reserveCollateral ⟨maker, assetType, positionId⟩ (i64OrZero amount))
  if affected = 0 then
    throw ("domain error: insufficient balance for " ++ displayAddress maker ++ " " ++ assetType.text)

def releaseCollateral (maker : Address) (assetType : AssetType) (positionId : Option Uint256) (amount : UInt64) :
    ExceptT String Effect Unit := do
  let _ ← execute (.releaseCollateral ⟨maker, assetType, positionId⟩ (i64OrZero amount))

/-- The position is bound as decimal text, which the server is assumed to read as a NUMERIC. -/
def insertOrder (orderId : OrderId) (maker : Address) (marketId : MarketId) (side : OrderSide)
    (price amount nonce : UInt64) (salt : Bytes32) (positionId : Uint256) (signature : Bytes) (deadline : Int) :
    ExceptT String Effect Unit := do
  let _ ← execute (.insertOrder {
    orderId, maker, marketId, side
    price := i64OrZero price
    amount := i64OrZero amount
    nonce := i64OrZero nonce
    salt, positionId, signature, deadline })

/-- As `insertOrder`, the position is bound as text and assumed to be read as a NUMERIC. -/
def insertHold (orderId : OrderId) (maker : Address) (assetType : AssetType) (positionId : Option Uint256)
    (amount : UInt64) : ExceptT String Effect Unit := do
  let _ ← execute (.insertHold orderId ⟨maker, assetType, positionId⟩ (i64OrZero amount))

def updateOrderFilled (orderId : OrderId) (filledDelta : UInt64) (fullyFilled : Bool) :
    ExceptT String Effect Unit := do
  let status := if fullyFilled then OrderStatus.filled else OrderStatus.open
  let _ ← execute (.updateOrderFilled orderId (i64OrZero filledDelta) status)

def cancelOrderDb (orderId : OrderId) : ExceptT String Effect Unit := do
  let _ ← execute (.cancelOrderDb orderId)

def OrderSide.text : OrderSide → String
  | .buy => "buy"
  | .sell => "sell"

def publishMatch (marketId : MarketId) (fill : Fill) : Effect Unit :=
  Program.request (Operation.publish {
    marketId := "0x" ++ hexEncode (Abi.word marketId.toNat)
    maker := displayAddress fill.maker
    taker := displayAddress fill.taker
    price := fill.price
    amount := fill.amount
    side := OrderSide.text fill.takerSide })

structure OpenOrderRow where
  orderId : OrderId
  userAddress : Address
  marketId : MarketId
  side : OrderSide
  price : UInt64
  amount : UInt64
  filledAmount : UInt64
  nonce : UInt64
  deadline : Int
  positionId : Uint256
  deriving DecidableEq

/-- A column decoded as an `i64`. -/
def readI64 : NumberColumn → Int → Option Int
  | .bigint, value => if -2 ^ 63 ≤ value ∧ value < 2 ^ 63 then some value else none
  | .numeric, _ => none

/-- The deadline is cast to `int8` by the query. -/
def OrderRow.load (numbers : NumberColumn) (row : OrderRow) : Option OpenOrderRow := do
  let price ← readI64 numbers row.price
  let amount ← readI64 numbers row.amount
  let filled ← readI64 numbers row.filledAmount
  let nonce ← readI64 numbers row.nonce
  let deadline ← readI64 .bigint row.deadline
  return {
    orderId := row.orderId
    userAddress := row.userAddress
    marketId := row.marketId
    side := row.side
    price := .ofInt price
    amount := .ofInt amount
    filledAmount := .ofInt filled
    nonce := .ofInt nonce
    deadline
    positionId := row.positionId }

/-- All open orders, oldest first. A row that does not decode fails the query. -/
def loadOpenOrders (db : Database) : Option (List OpenOrderRow) :=
  ((db.orders.filter (·.status = .open)).insertionSort (·.createdAt ≤ ·.createdAt)).mapM (OrderRow.load db.orderNumbers)

end Omniscient.Gateway

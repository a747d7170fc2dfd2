import Omniscient.Chain
import Omniscient.Lib.Outcome
import Omniscient.Schema

/-! The indexer's event handlers. A handler decodes a log and runs its statements
in the surrounding transaction; it returns whether it handled the log, and an
error rolls the transaction back. -/

namespace Omniscient.Indexer
open Outcome

/-- What the indexer takes from outside: hashing, and what the server stores for a
text bound to a BYTEA column, if it accepts one. -/
structure Surroundings where
  keccak256 : Bytes → Bytes32
  bytea : String → Option Bytes

/-- The word of event data at an index, most significant byte first. -/
def wordAt (data : Bytes) (index : Nat) : Nat :=
  ((data.drop (32 * index)).take 32).foldl (fun value byte => 256 * value + byte.toNat) 0

def topicAddress (topic : Bytes32) : Address := topic.setWidth 160

def I64_END : Nat := 2 ^ 63

def conversionError (name error : String) : String := "domain error: " ++ name ++ " conversion error: " ++ error

/-- What `i64::try_from` says of a `u64` and of a `U256` that it cannot hold. -/
def u64Error : String := "out of range integral type conversion attempted"

def u256Error : String := "Uint<256> value is too large for i64"

def sqlxError (error : String) : String := "database error: " ++ error

def usdc (user : Address) : BalanceKey := ⟨user, .usdc, none⟩

/-- `INSERT INTO users (address) … ON CONFLICT DO NOTHING`. -/
def insertUser (user : Address) (db : Database) : Database :=
  { db with users := Function.update db.users user (some ((db.users user).getD ⟨0⟩)) }

/-- The upsert of a USDC balance: insert `amount`, or update what is there. -/
def upsertBalance (user : Address) (amount : Nat) (block : Nat) (update : Int → Int) (db : Database) :
    Except String Database :=
  match db.balances (usdc user) with
  | some row =>
    let row := { row with availableAmount := update row.availableAmount, finalizedBlockNumber := block }
    return { db with balances := Function.update db.balances (usdc user) (some row) }
  | none =>
    if db.users user = none then
      .error (sqlxError (DbError.foreignKey "balances" "balances_user_address_fkey"))
    else
      return { db with balances := Function.update db.balances (usdc user) (some ⟨amount, 0, block⟩) }

/-- A handler reads the log and the tables; it returns whether the log was one to handle. -/
abbrev Handler := Log → Database → Except String (Bool × Database)

/-- A log without the event's indexed argument, or with too little data, is not handled. -/
def withTopic (size : Nat) (body : Bytes32 → Handler) : Handler := fun log db =>
  match log.topics[1]? with
  | none => return (false, db)
  | some topic => if log.data.length < size then return (false, db) else body topic log db

def handleDeposited : Handler := withTopic 32 fun topic log db => do
  let user := topicAddress topic
  let amount := wordAt log.data 0
  let db := insertUser user db
  revertIf (I64_END ≤ log.blockNumber) (conversionError "block_number" u64Error)
  let db ← upsertBalance user amount log.blockNumber (· + amount) db
  return (true, db)

/-- Both withdrawal handlers; `size` is the least length of their data. -/
def handleWithdrawal (size : Nat) : Handler := withTopic size fun topic log db => do
  let account := topicAddress topic
  let amount := wordAt log.data 0
  revertIf (I64_END ≤ log.blockNumber) (conversionError "block_number" u64Error)
  let db ← upsertBalance account amount log.blockNumber (· - amount) db
  return (true, db)

def handleWithdrawn : Handler := handleWithdrawal 64

def handleForcedWithdrawalExecuted : Handler := handleWithdrawal 32

/-- The handlers that only write to the log of the service. -/
def handleNotice (size : Nat) : Handler := fun log db => return (size ≤ log.data.length, db)

def handleOperatorHeartbeat : Handler := handleNotice 32

def handleOperatorInactivityThresholdUpdated : Handler := handleNotice 32

def handleFeeRatesUpdated : Handler := handleNotice 64

def handleNonceInvalidated : Handler := withTopic 32 fun topic log db => do
  let user := topicAddress topic
  let nonce := wordAt log.data 0
  revertIf (I64_END ≤ nonce) (conversionError "nonce" u256Error)
  let cancel (row : OrderRow) : OrderRow :=
    if row.userAddress = user ∧ row.nonce < nonce ∧ row.status = .open then { row with status := .cancelled } else row
  return (true, { db with
    users := Function.update db.users user (some ⟨nonce⟩)
    orders := db.orders.map cancel })

/-- The question id is bound as its decimal text. An existing market is kept, but
the new row is checked all the same. -/
def handleMarketCreated (outside : Surroundings) : Handler := withTopic 64 fun marketId log db => do
  let questionId := wordAt log.data 0
  let expiry := wordAt log.data 1
  revertIf (I64_END ≤ expiry) (conversionError "expiry" u256Error)
  revertIf (I64_END ≤ log.blockNumber) (conversionError "block_number" u64Error)
  let question ← orRevert (sqlxError "column \"question_id\" is of type bytea") (outside.bytea (toString questionId))
  revertIf (TIMESTAMP_END ≤ (expiry : Int)) (sqlxError DbError.timestampOutOfRange)
  revertIf (question.length ≠ 32) (sqlxError (DbError.check "markets" "markets_question_id_check"))
  let row : MarketRow := {
    questionId := question
    state := .open
    expiry
    outcomeSlotCount := 2
    blockNumber := log.blockNumber }
  return (true, { db with markets := Function.update db.markets marketId (some ((db.markets marketId).getD row)) })

/-- `UPDATE markets SET state = … WHERE market_id = …`: the handlers of a market's
later events read only its id. -/
def handleMarketState (state : MarketState) : Handler := withTopic 0 fun marketId _ db =>
  let row := (db.markets marketId).map fun row => { row with state }
  return (true, { db with markets := Function.update db.markets marketId row })

def handleOutcomeProposed : Handler := handleMarketState .proposed

def handleOutcomeDisputed : Handler := handleMarketState .disputed

def handleOutcomeResolved : Handler := handleMarketState .resolved

def handleDisputeResolved : Handler := handleMarketState .resolved

def topicHash (outside : Surroundings) (signature : String) : Bytes32 := outside.keccak256 (Abi.ascii signature)

/-- The event signatures, in the order in which they are compared, and their handlers. -/
def handlers (outside : Surroundings) : List (String × Handler) :=
  [ ("Deposited(address,uint256,uint256)", handleDeposited),
    ("Withdrawn(address,uint256,uint256)", handleWithdrawn),
    ("ForcedWithdrawalExecuted(address,address,uint256)", handleForcedWithdrawalExecuted),
    ("OperatorHeartbeat(uint256)", handleOperatorHeartbeat),
    ("OperatorInactivityThresholdUpdated(uint256)", handleOperatorInactivityThresholdUpdated),
    ("FeeRatesUpdated(uint256,uint256)", handleFeeRatesUpdated),
    ("NonceInvalidated(address,uint256)", handleNonceInvalidated),
    ("MarketCreated(bytes32,bytes32,uint256)", handleMarketCreated outside),
    ("OutcomeProposed(bytes32,address,uint256[])", handleOutcomeProposed),
    ("OutcomeDisputed(bytes32,address,string)", handleOutcomeDisputed),
    ("OutcomeResolved(bytes32,uint256[])", handleOutcomeResolved),
    ("DisputeResolved(bytes32,uint256[])", handleDisputeResolved) ]

/-- The first handler whose signature hashes to the topic; an unknown topic is skipped. -/
def handlerOf (outside : Surroundings) (topic : Bytes32) : Option Handler :=
  ((handlers outside).find? fun entry => topic = topicHash outside entry.1).map Prod.snd

def dispatch (outside : Surroundings) (log : Log) (db : Database) : Except String (Bool × Database) :=
  match log.topics.head? with
  | none => return (false, db)
  | some topic =>
    match handlerOf outside topic with
    | some handler => handler log db
    | none => return (false, db)

end Omniscient.Indexer

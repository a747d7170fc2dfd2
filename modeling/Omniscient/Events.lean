import Omniscient.Indexer

/-! What the logs mean to the tables that the index is kept for. A log is read as
an event, and an event takes the tables to the next; an event that the database
refuses changes nothing. -/

namespace Omniscient.Indexer

/-- The accounts that are users, and the rows of the balances and the markets. -/
structure Tables where
  known : Address → Bool
  balances : BalanceKey → Option BalanceRow
  markets : MarketId → Option MarketRow

def Tables.of (db : Database) : Tables where
  known user := (db.users user).isSome
  balances := db.balances
  markets := db.markets

/-- A deposit enters the account as a user; a withdrawal needs one. -/
inductive Event where
  | balanceMoved (user : Address) (enters : Bool) (amount block : Nat)
  | nonceInvalidated (user : Address)
  | marketCreated (marketId : MarketId) (row : MarketRow)
  | marketMoved (marketId : MarketId) (state : MarketState)
  | nothing
  deriving DecidableEq

/-- The row of an account after a deposit or a withdrawal. -/
def BalanceRow.moved (row : BalanceRow) (enters : Bool) (amount block : Nat) : BalanceRow :=
  { row with
    availableAmount := if enters then row.availableAmount + amount else row.availableAmount - amount
    finalizedBlockNumber := block }

def Event.step (tables : Tables) : Event → Tables
  | .balanceMoved user enters amount block =>
    let known := if enters then Function.update tables.known user true else tables.known
    let row :=
      match tables.balances (usdc user) with
      | some row => some (BalanceRow.moved row enters amount block)
      | none => bif known user then some ⟨amount, 0, block⟩ else none
    { tables with known, balances := Function.update tables.balances (usdc user) row }
  | .nonceInvalidated user => { tables with known := Function.update tables.known user true }
  | .marketCreated marketId row =>
    { tables with markets := Function.update tables.markets marketId (some ((tables.markets marketId).getD row)) }
  | .marketMoved marketId state =>
    let row := (tables.markets marketId).map fun row => { row with state }
    { tables with markets := Function.update tables.markets marketId row }
  | .nothing => tables

/-- A log whose topics or data are too short for its event is none. -/
def withArgument (size : Nat) (body : Bytes32 → Log → Event) (log : Log) : Event :=
  match log.topics[1]? with
  | none => .nothing
  | some topic => if log.data.length < size then .nothing else body topic log

def readBalance (enters : Bool) (topic : Bytes32) (log : Log) : Event :=
  .balanceMoved (topicAddress topic) enters (wordAt log.data 0) log.blockNumber

def readNonce (topic : Bytes32) (log : Log) : Event :=
  if I64_END ≤ wordAt log.data 0 then .nothing else .nonceInvalidated (topicAddress topic)

/-- A market is created only if its row passes the checks of the table. -/
def readMarket (outside : Surroundings) (topic : Bytes32) (log : Log) : Event :=
  let expiry := wordAt log.data 1
  match outside.bytea (toString (wordAt log.data 0)) with
  | none => .nothing
  | some questionId =>
    if I64_END ≤ expiry ∨ TIMESTAMP_END ≤ (expiry : Int) ∨ questionId.length ≠ 32 then
      .nothing
    else
      .marketCreated topic ⟨questionId, .open, expiry, 2, log.blockNumber⟩

def readState (state : MarketState) (topic : Bytes32) (_ : Log) : Event := .marketMoved topic state

def readers (outside : Surroundings) : List (String × (Log → Event)) :=
  [ ("Deposited(address,uint256,uint256)", withArgument 32 (readBalance true)),
    ("Withdrawn(address,uint256,uint256)", withArgument 64 (readBalance false)),
    ("ForcedWithdrawalExecuted(address,address,uint256)", withArgument 32 (readBalance false)),
    ("OperatorHeartbeat(uint256)", fun _ => .nothing),
    ("OperatorInactivityThresholdUpdated(uint256)", fun _ => .nothing),
    ("FeeRatesUpdated(uint256,uint256)", fun _ => .nothing),
    ("NonceInvalidated(address,uint256)", withArgument 32 readNonce),
    ("MarketCreated(bytes32,bytes32,uint256)", withArgument 64 (readMarket outside)),
    ("OutcomeProposed(bytes32,address,uint256[])", withArgument 0 (readState .proposed)),
    ("OutcomeDisputed(bytes32,address,string)", withArgument 0 (readState .disputed)),
    ("OutcomeResolved(bytes32,uint256[])", withArgument 0 (readState .resolved)),
    ("DisputeResolved(bytes32,uint256[])", withArgument 0 (readState .resolved)) ]

def event (outside : Surroundings) (log : Log) : Event :=
  match log.topics.head? with
  | none => .nothing
  | some topic =>
    match (readers outside).find? fun entry => topic = topicHash outside entry.1 with
    | some entry => entry.2 log
    | none => .nothing

/-- The database after a transaction that commits if its statements succeed. -/
def Transaction.after (outside : Surroundings) (db : Database) (transaction : Transaction) : Database :=
  match transaction.run outside db with
  | .ok after => after
  | .error _ => db

/-- One iteration over the logs where nothing fails but the statements themselves. -/
def indexed (outside : Surroundings) (db : Database) (log : Log) : Database :=
  if I64_END ≤ log.logIndex ∨ (db.indexedLogs log.key).isSome then
    db
  else
    Transaction.after outside db (.indexLog log.address log)

def index (outside : Surroundings) (db : Database) (logs : List Log) : Database := logs.foldl (indexed outside) db

/-- The world after a program of which each operation succeeds if it can. -/
def calm (outside : Surroundings) (blocks : Bytes32 → List RawLog) : Effect Unit → World → Option World
  | .done (), world => some world
  | .perform operation next, world => do
    let (answer, after) ← world.perform outside blocks operation .succeeds <|>
      world.perform outside blocks operation .fails
    calm outside blocks (next answer) after

end Omniscient.Indexer

import Omniscient.Domain

/-! The tables of the database, with the columns that statements read or write.
A keyed table is a partial function of its key; `orders`, `holds` and the cursors
are lists in insertion order. Two things are assumed of the server: it reads a text
bound to the NUMERIC column `position_id` as its number, and `hold_amount`, which the
statements name, is a column of `balances`. What it does with a text bound to a BYTEA
column is a parameter of the indexer's model, and which number columns sqlx decodes as
i64 is one of the tables. -/

namespace Omniscient

structure UserRow where
  cancellationNonce : Int
  deriving DecidableEq

inductive MarketState where
  | open
  | halted
  | expired
  | proposed
  | disputed
  | resolved
  | settled
  | redeemable
  deriving DecidableEq, Repr

structure MarketRow where
  questionId : Bytes
  state : MarketState
  expiry : Int
  outcomeSlotCount : Nat
  blockNumber : Nat
  deriving DecidableEq

/-- The primary key of `balances`; a missing position is the NULL of `position_id`. -/
structure BalanceKey where
  userAddress : Address
  assetType : AssetType
  positionId : Option Uint256
  deriving DecidableEq

structure BalanceRow where
  availableAmount : Int
  holdAmount : Int
  finalizedBlockNumber : Nat
  deriving DecidableEq

inductive OrderStatus where
  | open
  | filled
  | cancelled
  | expired
  deriving DecidableEq, Repr

structure OrderRow where
  orderId : OrderId
  userAddress : Address
  marketId : MarketId
  side : OrderSide
  price : Int
  amount : Int
  filledAmount : Int
  status : OrderStatus
  nonce : Int
  salt : Bytes32
  positionId : Uint256
  signature : Bytes
  deadline : Int
  createdAt : Nat
  deriving DecidableEq

inductive HoldStatus where
  | held
  | released
  | applied
  deriving DecidableEq, Repr

structure HoldRow where
  userAddress : Address
  orderId : OrderId
  assetType : AssetType
  positionId : Option Uint256
  amount : Int
  status : HoldStatus
  deriving DecidableEq

structure CursorRow where
  contractAddress : Address
  lastFinalizedBlock : Nat
  lastFinalizedBlockHash : Option Bytes32
  deriving DecidableEq

structure CheckpointRow where
  blockHash : Bytes32
  isFinalized : Bool
  deriving DecidableEq

structure IndexedLogRow where
  blockNumber : Nat
  contractAddress : Address
  topic0 : Bytes32
  deriving DecidableEq

/-- A type for the numbers of a column. sqlx decodes an `i64` from a BIGINT, and from a
NUMERIC never. -/
inductive NumberColumn where
  | bigint
  | numeric
  deriving DecidableEq, Repr

/-- `orderNumbers` is the type of `price`, `amount`, `filled_amount` and `nonce` in `orders`. -/
structure Database where
  orderNumbers : NumberColumn
  users : Address → Option UserRow
  markets : MarketId → Option MarketRow
  balances : BalanceKey → Option BalanceRow
  orders : List OrderRow
  holds : List HoldRow
  indexerCursors : List CursorRow
  reorgCheckpoints : Nat → Option CheckpointRow
  /-- Keyed by transaction hash and log index. -/
  indexedLogs : Bytes32 × Nat → Option IndexedLogRow

/-- What `schema.sql` creates. -/
def Database.empty : Database where
  orderNumbers := .numeric
  users _ := none
  markets _ := none
  balances _ := none
  orders := []
  holds := []
  indexerCursors := []
  reorgCheckpoints _ := none
  indexedLogs _ := none

namespace DbError

def check (table constraint : String) : String :=
  "error returned from database: new row for relation \"" ++ table ++ "\" violates check constraint \"" ++ constraint ++ "\""

def unique (constraint : String) : String :=
  "error returned from database: duplicate key value violates unique constraint \"" ++ constraint ++ "\""

def foreignKey (table constraint : String) : String :=
  "error returned from database: insert or update on table \"" ++ table ++
    "\" violates foreign key constraint \"" ++ constraint ++ "\""

def timestampOutOfRange : String := "error returned from database: timestamp out of range"

end DbError

/-- The range of `to_timestamp`, in seconds after the epoch, as far as it ends. -/
def TIMESTAMP_END : Int := 9224318016000

end Omniscient

import Omniscient.Handlers
import Omniscient.Lib.Program
import Omniscient.Lib.Run

/-! The indexer's loop: poll the head, and for each contract index the logs above
its cursor and finalize the blocks that are deep enough. A failed step is logged
and the loop goes on. Each database transaction is one operation, which commits
all of its statements or none. -/

namespace Omniscient.Indexer
open Outcome

/-- The checkpoint of an unfinalized block takes the hash of the newest log. -/
def upsertCheckpoint (blockNumber : Nat) (blockHash : Bytes32) (db : Database) : Database :=
  let row : CheckpointRow :=
    match db.reorgCheckpoints blockNumber with
    | some row => if row.isFinalized = false then ⟨blockHash, false⟩ else row
    | none => ⟨blockHash, false⟩
  { db with reorgCheckpoints := Function.update db.reorgCheckpoints blockNumber (some row) }

/-- `INSERT INTO indexed_logs … ON CONFLICT DO NOTHING`. -/
def insertIndexedLog (contract : Address) (log : Log) (db : Database) : Except String Database :=
  match log.topics.head? with
  | none => .error (sqlxError (DbError.check "indexed_logs" "indexed_logs_topic0_check"))
  | some topic0 =>
    let row := (db.indexedLogs log.key).getD ⟨log.blockNumber, contract, topic0⟩
    return { db with indexedLogs := Function.update db.indexedLogs log.key (some row) }

/-- The transaction of one log: its checkpoint, its effect and its mark. -/
def indexLog (outside : Surroundings) (contract : Address) (log : Log) (db : Database) : Except String Database := do
  revertIf (I64_END ≤ log.blockNumber) (conversionError "block_number" u64Error)
  let db := upsertCheckpoint log.blockNumber log.blockHash db
  let (handled, db) ← dispatch outside log db
  if handled then insertIndexedLog contract log db else return db

/-- The transaction that finalizes a block and moves the contract's cursor to it. -/
def finalize (contract : Address) (block : Nat) (hash : Bytes32) (db : Database) : Database :=
  let checkpoint := (db.reorgCheckpoints block).map fun row => { row with isFinalized := true }
  let move (row : CursorRow) : CursorRow :=
    if row.contractAddress = contract then
      { row with lastFinalizedBlock := block, lastFinalizedBlockHash := some hash }
    else
      row
  { db with
    reorgCheckpoints := Function.update db.reorgCheckpoints block checkpoint
    indexerCursors := db.indexerCursors.map move }

/-- The rows of a keyed table that a deletion leaves. -/
def keepRows {κ ρ : Type} (keep : κ → ρ → Bool) (table : κ → Option ρ) (key : κ) : Option ρ :=
  (table key).filter (keep key)

/-- Delete what was indexed from a block on. Orders refer to their markets, so a
market with orders stops it. -/
def rollbackUnfinalized (fromBlock : Nat) (db : Database) : Except String Database := do
  revertIf (I64_END ≤ fromBlock) "domain error: from_block conversion: out of range integral type conversion attempted"
  let markets := keepRows (fun _ row => row.blockNumber < fromBlock) db.markets
  revertIf (db.orders.any fun order => decide (markets order.marketId = none ∧ db.markets order.marketId ≠ none))
    (sqlxError (DbError.foreignKey "markets" "orders_market_id_fkey"))
  return { db with
    reorgCheckpoints := keepRows (fun number row => number < fromBlock || row.isFinalized) db.reorgCheckpoints
    indexedLogs := keepRows (fun _ row => row.blockNumber < fromBlock) db.indexedLogs
    balances := keepRows (fun _ row => row.finalizedBlockNumber < fromBlock) db.balances
    markets }

inductive Transaction where
  | indexLog (contract : Address) (log : Log)
  | finalize (contract : Address) (block : Nat) (hash : Bytes32)
  | rollbackUnfinalized (fromBlock : Nat)
  deriving DecidableEq

def Transaction.run (outside : Surroundings) (db : Database) : Transaction → Except String Database
  | .indexLog contract log => Indexer.indexLog outside contract log db
  | .finalize contract block hash => .ok (Indexer.finalize contract block hash db)
  | .rollbackUnfinalized fromBlock => Indexer.rollbackUnfinalized fromBlock db

/-- What the loop asks of the node, of the database and of the gateway. -/
inductive Operation where
  | getBlockNumber
  | selectCursors
  | getLogs (contract : Address) (first last : Nat)
  | selectIndexed (log : Log)
  | transact (transaction : Transaction)
  | getBlock (number : Nat)
  | selectCheckpoint (number : Nat)
  | reconcile (block : Nat)
  deriving DecidableEq

/-- The answer to an operation; none and false are failures. The posts of
`reconcile` end in a log line whatever they answer. -/
abbrev Operation.Answer : Operation → Type
  | .getBlockNumber => Option Nat
  | .selectCursors => Option (List (Address × Nat))
  | .getLogs .. => Option (List Log)
  | .selectIndexed _ => Option Bool
  | .transact _ => Bool
  | .getBlock _ => Option Bytes32
  | .selectCheckpoint _ => Option (Option Bytes32)
  | .reconcile _ => Unit

abbrev Effect := Program Operation Operation.Answer

def request (operation : Operation) : Effect operation.Answer := Program.request operation

def processLog (contract : Address) (log : Log) : Effect Unit :=
  if I64_END ≤ log.logIndex then
    return ()
  else do
    match (← request (.selectIndexed log) : Option Bool) with
    | none => return ()
    | some true => return ()
    | some false =>
      let _ ← request (.transact (.indexLog contract log))

/-- One iteration over the blocks to finalize. A block whose checkpoint has another
hash than the node's is rolled back instead. -/
def finalizeBlock (custodyAddr contract : Address) (block : Nat) : Effect Unit := do
  match (← request (.getBlock block) : Option Bytes32) with
  | none => return ()
  | some hash =>
    if I64_END ≤ block then
      return ()
    else do
      match (← request (.selectCheckpoint block) : Option (Option Bytes32)) with
      | none => return ()
      | some stored =>
        if stored.any (· ≠ hash) then
          let _ ← request (.transact (.rollbackUnfinalized block))
        else do
          let committed : Bool ← request (.transact (.finalize contract block hash))
          if committed ∧ contract = custodyAddr then
            request (.reconcile block)

def finalizeBlocks (custodyAddr contract : Address) (start last currentBlock : Nat) : Effect Unit :=
  ((List.range' start (last + 1 - start)).filter fun block => FINALITY_BLOCKS ≤ currentBlock - block).forM
    (finalizeBlock custodyAddr contract)

def indexContract (custodyAddr : Address) (currentBlock : Nat) (cursor : Address × Nat) : Effect Unit :=
  let (contract, lastBlock) := cursor
  let start := lastBlock + 1
  if currentBlock < start then
    return ()
  else do
    let last := min (start + 50) currentBlock
    match (← request (.getLogs contract start last) : Option (List Log)) with
    | none => return ()
    | some logs =>
      logs.forM (processLog contract)
      finalizeBlocks custodyAddr contract start last currentBlock

/-- One turn of `index_loop`. -/
def poll (custodyAddr : Address) : Effect Unit := do
  match (← request .getBlockNumber : Option Nat) with
  | none => return ()
  | some currentBlock =>
    match (← request .selectCursors : Option (List (Address × Nat))) with
    | none => return ()
    | some cursors => cursors.forM (indexContract custodyAddr currentBlock)

/-- How an operation ends: it succeeds, it fails without effect, or a commit takes
effect but is reported as failed. -/
inductive Ending where
  | succeeds
  | fails
  | unreported
  deriving DecidableEq, Repr

structure World where
  db : Database
  chain : Chain

def answered {α : Type} (world : World) (answer : Option α) : Ending → Option (Option α × World)
  | .succeeds => some (answer, world)
  | .fails => some (none, world)
  | .unreported => none

def World.perform (outside : Surroundings) (blocks : Bytes32 → List RawLog) (world : World) :
    (operation : Operation) → Ending → Option (operation.Answer × World)
  | .getBlockNumber, ending => answered world (some world.chain.head) ending
  | .selectCursors, ending =>
    answered world (some (world.db.indexerCursors.map fun row => (row.contractAddress, row.lastFinalizedBlock))) ending
  | .getLogs contract first last, ending => answered world (some (world.chain.getLogs blocks contract first last)) ending
  | .selectIndexed log, ending => answered world (some (world.db.indexedLogs log.key).isSome) ending
  | .getBlock number, ending => answered world (world.chain.getBlock number) ending
  | .selectCheckpoint number, ending =>
    answered world (some ((world.db.reorgCheckpoints number).map CheckpointRow.blockHash)) ending
  | .transact _, .fails => some (false, world)
  | .transact transaction, .succeeds =>
    match transaction.run outside world.db with
    | .ok db => some (true, { world with db })
    | .error _ => none
  | .transact transaction, .unreported =>
    match transaction.run outside world.db with
    | .ok db => some (false, { world with db })
    | .error _ => none
  | .reconcile _, _ => some ((), world)

structure SameIndex (db after : Database) : Prop where
  cursors : after.indexerCursors = db.indexerCursors
  checkpoints : after.reorgCheckpoints = db.reorgCheckpoints
  logs : after.indexedLogs = db.indexedLogs

/-- What happens elsewhere between two operations: the chain moves on as it may,
and the gateway writes to its tables. -/
structure World.Drifts (may : Chain → Chain → Prop) (world after : World) : Prop where
  chain : may world.chain after.chain
  index : SameIndex world.db after.db

/-- The indexer at work: the world, and what is left of the turn. -/
structure State where
  world : World
  turn : Effect Unit

/-- What is done next: the rest of the turn, or a new turn. -/
def State.next (custodyAddr : Address) (state : State) : Effect Unit :=
  match state.turn with
  | .done () => poll custodyAddr
  | turn => turn

/-- One operation and its ending, as the history records it. -/
abbrev Label := Operation × Ending

/-- The indexer of a deployment on a chain that moves as `may` says. -/
inductive Moves (outside : Surroundings) (config : AppConfig) (blocks : Bytes32 → List RawLog)
    (may : Chain → Chain → Prop) (state : State) : Label → State → Prop where
  | perform {operation : Operation} {ending : Ending} {next : operation.Answer → Effect Unit} {drifted after : World}
      {answer : operation.Answer} (pending : state.next config.custodyAddr = .perform operation next)
      (drifts : state.world.Drifts may drifted)
      (performed : drifted.perform outside blocks operation ending = some (answer, after)) :
      Moves outside config blocks may state (operation, ending) ⟨after, next answer⟩

end Omniscient.Indexer

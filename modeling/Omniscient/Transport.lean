import Omniscient.Api

/-! The reconcile calls as they are sent: the body that `finalize_blocks` writes, its
attempts, and the route of the gateway that answers them. -/

namespace Omniscient.Indexer
open Gateway

/-- The body of the calls for a row. How an amount is written is left to its crate. -/
def reconcileBody (decimal : Int → Json) (key : BalanceKey) (row : BalanceRow) : Json :=
  .object [
    ("user", .string key.userAddress.display),
    ("deposit", decimal row.availableAmount),
    ("block_number", .number row.finalizedBlockNumber)]

/-- A request gets to the gateway, whose transaction ends somehow and whose answer may
be lost, or it does not get there. -/
inductive Transmission where
  | lost
  | served (ending : Ending) (heard : Bool)
  deriving DecidableEq

def Transmission.run (server : Ending → Database → Api.Response × Database) (db : Database) :
    Transmission → Option Api.Response × Database
  | .lost => (none, db)
  | .served ending heard =>
    let (response, db) := server ending db
    (if heard then some response else none, db)

/-- The attempts of a call, which end with the first success: what is heard, and the
database behind them. -/
def post (server : Ending → Database → Api.Response × Database) :
    Database → List Transmission → List (Option Api.Response) × Database
  | db, [] => ([], db)
  | db, transmission :: transmissions =>
    let (answer, db) := transmission.run server db
    if answer.any Api.Response.isSuccess then
      ([answer], db)
    else
      let (answers, db) := post server db transmissions
      (answer :: answers, db)

/-- A row that was selected, and how each of its attempts would go. -/
structure Posting where
  key : BalanceKey
  row : BalanceRow
  transmissions : List Transmission

/-- What both services are built and configured with. -/
structure Wire where
  hex : HexCrate
  decimal : Int → Json
  /-- The secret that the gateway compares with, and the header that the indexer sends. -/
  secret : String
  header : Option String

def Posting.run (wire : Wire) (db : Database) (posting : Posting) : List (Option Api.Response) × Database :=
  post (fun ending db => Api.postReconcile wire.hex wire.secret ending wire.header
    (reconcileBody wire.decimal posting.key posting.row) db) db posting.transmissions

/-- The loop over the rows of a block, in any order. -/
structure Posts (wire : Wire) (block : Nat) (db : Database) (postings : List Posting) (after : Database) : Prop where
  selected : ∀ posting ∈ postings,
    db.balances posting.key = some posting.row ∧ posting.row.finalizedBlockNumber = block
  rows : (postings.map Posting.key).Nodup
  attempts : ∀ posting ∈ postings, posting.transmissions.length = 3
  posted : postings.foldl (fun db posting => (posting.run wire db).2) db = after

def Operation.Sends (wire : Wire) (db : Database) (postings : List Posting) (after : Database) : Operation → Prop
  | .reconcile block => Posts wire block db postings after
  | _ => postings = [] ∧ after = db

/-- An operation with its ending, the database it was performed on, and its calls. -/
structure Exchange where
  label : Label
  before : Database
  postings : List Posting

/-- The indexer on a fixed chain, with the gateway it sends its calls to; nothing else
writes. -/
inductive Exchanges (wire : Wire) (outside : Surroundings) (config : AppConfig) (blocks : Bytes32 → List RawLog)
    (state : State) : Exchange → State → Prop where
  | perform {operation : Operation} {ending : Ending} {next : operation.Answer → Effect Unit} {chain : Chain}
      {after : World} {answer : operation.Answer} {postings : List Posting} {db : Database}
      (pending : state.next config.custodyAddr = .perform operation next)
      (evolves : state.world.chain.Evolves chain) (same : chain.hashAt = state.world.chain.hashAt)
      (performed : { state.world with chain }.perform outside blocks operation ending = some (answer, after))
      (sends : operation.Sends wire after.db postings db) :
      Exchanges wire outside config blocks state ⟨(operation, ending), state.world.db, postings⟩
        ⟨{ after with db }, next answer⟩

end Omniscient.Indexer

import Omniscient.Indexer

/-! The reconcile calls. Behind the finalization of a block of Custody the indexer
posts each balance last changed in that block to the gateway, up to three times,
until a post is answered with success; the gateway adds what it is posted. -/

namespace Omniscient

namespace Gateway
open Indexer (I64_END insertUser upsertBalance)

structure ReconcilePayload where
  user : Address
  deposit : Nat
  blockNumber : Nat
  deriving DecidableEq

/-- The transaction of `post_reconcile`, for a caller that knows the secret. A number
that no i64 holds is replaced. -/
def postReconcile (payload : ReconcilePayload) (db : Database) : Except String Database :=
  let deposit := if payload.deposit < I64_END then payload.deposit else I64_END - 1
  let block := if payload.blockNumber < I64_END then payload.blockNumber else 0
  upsertBalance payload.user deposit block (· + deposit) (insertUser payload.user db)

end Gateway

namespace Indexer
open Outcome Gateway

def U64_END : Nat := 2 ^ 64

/-- A row that was selected, and how many of its posts the gateway has committed. A
post whose answer is lost is committed and yet repeated. -/
structure Delivery where
  key : BalanceKey
  row : BalanceRow
  posts : Nat
  deriving DecidableEq

/-- What is posted, if the amount arrives as a u64. -/
def Delivery.payload (delivery : Delivery) : Option ReconcilePayload :=
  if 0 ≤ delivery.row.availableAmount ∧ delivery.row.availableAmount < U64_END then
    some ⟨delivery.key.userAddress, delivery.row.availableAmount.toNat, delivery.row.finalizedBlockNumber⟩
  else
    none

def Delivery.run (db : Database) (delivery : Delivery) : Except String Database :=
  match delivery.payload with
  | some payload => each (fun db _ => postReconcile payload db) db (List.replicate delivery.posts ())
  | none => .ok db

/-- The loop over the rows of a block, in any order. Where the query has failed there
are no deliveries. -/
structure Reconciles (block : Nat) (db : Database) (deliveries : List Delivery) (after : Database) : Prop where
  selected : ∀ delivery ∈ deliveries,
    db.balances delivery.key = some delivery.row ∧ delivery.row.finalizedBlockNumber = block
  rows : (deliveries.map Delivery.key).Nodup
  attempts : ∀ delivery ∈ deliveries, delivery.posts ≤ 3
  posted : each Delivery.run db deliveries = .ok after

/-- The deliveries of an operation: only `reconcile` makes any. -/
def Operation.Delivers (db : Database) (deliveries : List Delivery) (after : Database) : Operation → Prop
  | .reconcile block => Reconciles block db deliveries after
  | _ => deliveries = [] ∧ after = db

/-- An operation with its ending, the database it was performed on, and its deliveries. -/
structure Service where
  label : Label
  before : Database
  deliveries : List Delivery

/-- The indexer on a fixed chain, with the gateway it reconciles; nothing else writes. -/
inductive Serves (outside : Surroundings) (config : AppConfig) (blocks : Bytes32 → List RawLog) (state : State) :
    Service → State → Prop where
  | perform {operation : Operation} {ending : Ending} {next : operation.Answer → Effect Unit} {chain : Chain}
      {after : World} {answer : operation.Answer} {deliveries : List Delivery} {db : Database}
      (pending : state.next config.custodyAddr = .perform operation next)
      (evolves : state.world.chain.Evolves chain) (same : chain.hashAt = state.world.chain.hashAt)
      (performed : { state.world with chain }.perform outside blocks operation ending = some (answer, after))
      (delivers : operation.Delivers after.db deliveries db) :
      Serves outside config blocks state ⟨(operation, ending), state.world.db, deliveries⟩ ⟨{ after with db }, next answer⟩

end Indexer

end Omniscient

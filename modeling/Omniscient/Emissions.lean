import Omniscient.Custody
import Omniscient.Handlers
import Omniscient.Oracle

/-! The events of the contracts as the logs that the indexer reads. The ABI hashes
the signature of an event into the first topic, gives each indexed argument a topic
of its own, and encodes the other arguments into the data. -/

namespace Omniscient

structure Emission where
  signature : String
  indexed : List Bytes32
  data : Bytes

namespace Abi

/-- A `uint256[]` behind its offset. -/
def array (values : List Uint256) : Bytes := word values.length ++ values.flatMap fun value => word value.toNat

/-- A `string` behind its offset, padded to whole words. -/
def text (bytes : Bytes) : Bytes := word bytes.length ++ bytes ++ List.replicate ((32 - bytes.length % 32) % 32) 0

end Abi

def Custody.Event.emission : Custody.Event → Emission
  | .deposited account amount newBalance =>
    ⟨"Deposited(address,uint256,uint256)", [account.setWidth 256], Abi.word amount.toNat ++ Abi.word newBalance.toNat⟩
  | .withdrawn account amount newBalance =>
    ⟨"Withdrawn(address,uint256,uint256)", [account.setWidth 256], Abi.word amount.toNat ++ Abi.word newBalance.toNat⟩
  | .forcedWithdrawalExecuted account recipient amount =>
    ⟨"ForcedWithdrawalExecuted(address,address,uint256)", [account.setWidth 256, recipient.setWidth 256],
      Abi.word amount.toNat⟩
  | .netDeltasApplied batchId accounts =>
    ⟨"NetDeltasApplied(bytes32,uint256)", [batchId], Abi.word accounts.toNat⟩
  | .operatorHeartbeat timestamp => ⟨"OperatorHeartbeat(uint256)", [], Abi.word timestamp.toNat⟩
  | .operatorInactivityThresholdUpdated newThreshold =>
    ⟨"OperatorInactivityThresholdUpdated(uint256)", [], Abi.word newThreshold.toNat⟩

def Oracle.Event.emission : Oracle.Event → Emission
  | .marketCreated marketId questionId expiry =>
    ⟨"MarketCreated(bytes32,bytes32,uint256)", [marketId], Abi.word questionId.toNat ++ Abi.word expiry.toNat⟩
  | .outcomeProposed marketId proposer payouts =>
    ⟨"OutcomeProposed(bytes32,address,uint256[])", [marketId],
      Abi.word proposer.toNat ++ Abi.word 64 ++ Abi.array payouts⟩
  | .outcomeDisputed marketId disputer reasoning =>
    ⟨"OutcomeDisputed(bytes32,address,string)", [marketId],
      Abi.word disputer.toNat ++ Abi.word 64 ++ Abi.text reasoning⟩
  | .outcomeResolved marketId payouts =>
    ⟨"OutcomeResolved(bytes32,uint256[])", [marketId], Abi.word 32 ++ Abi.array payouts⟩
  | .disputeResolved marketId payouts =>
    ⟨"DisputeResolved(bytes32,uint256[])", [marketId], Abi.word 32 ++ Abi.array payouts⟩

namespace Indexer

/-- A log of an event, in a block whose number the index can store. -/
structure Carries (outside : Surroundings) (emission : Emission) (log : Log) : Prop where
  topics : log.topics = topicHash outside emission.signature :: emission.indexed
  data : log.data = emission.data
  number : log.blockNumber < I64_END

/-- The logs of a list of events. Between them stand those that a contract inherits
(of its roles and its pause), which no handler knows. -/
inductive Emitted (outside : Surroundings) : List Emission → List Log → Prop where
  | nothing : Emitted outside [] []
  | own {emission emissions log logs} : Carries outside emission log → Emitted outside emissions logs →
      Emitted outside (emission :: emissions) (log :: logs)
  | inherited {emissions log logs} : log.topics.head?.bind (handlerOf outside) = none → Emitted outside emissions logs →
      Emitted outside emissions (log :: logs)

/-- Dispatch a log in a transaction of its own, which is rolled back if the handler fails. -/
def dispatched (outside : Surroundings) (db : Database) (log : Log) : Database :=
  match dispatch outside log db with
  | .ok (_, after) => after
  | .error _ => db

def dispatchAll (outside : Surroundings) (db : Database) (logs : List Log) : Database := logs.foldl (dispatched outside) db

/-- The signatures that logs are compared with, and the one event of the contracts
that no handler is for, hash to different topics. -/
def Apart (outside : Surroundings) : Prop :=
  (((handlers outside).map Prod.fst ++ ["NetDeltasApplied(bytes32,uint256)"]).map (topicHash outside)).Nodup

end Indexer

end Omniscient

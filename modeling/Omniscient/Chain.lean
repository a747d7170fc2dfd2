import Omniscient.Domain

/-! The chain as an RPC node shows it. A block hash stands for one block, so the
logs of a block are a function of its hash; a reorganisation changes which hashes
are canonical, but never below the frozen height. -/

namespace Omniscient

structure RawLog where
  address : Address
  transactionHash : Bytes32
  logIndex : Nat
  topics : List Bytes32
  data : Bytes
  deriving DecidableEq

/-- A log as `get_logs` returns it, with the block it was mined in. -/
structure Log where
  address : Address
  blockNumber : Nat
  blockHash : Bytes32
  transactionHash : Bytes32
  logIndex : Nat
  topics : List Bytes32
  data : Bytes
  deriving DecidableEq

/-- The key of `indexed_logs`. -/
def Log.key (log : Log) : Bytes32 × Nat := (log.transactionHash, log.logIndex)

def RawLog.mined (raw : RawLog) (blockNumber : Nat) (blockHash : Bytes32) : Log where
  address := raw.address
  blockNumber
  blockHash
  transactionHash := raw.transactionHash
  logIndex := raw.logIndex
  topics := raw.topics
  data := raw.data

/-- The canonical chain. Blocks below `frozen` never change again: they are those
that have been `FINALITY_BLOCKS` or more below some head. -/
structure Chain where
  head : Nat
  hashAt : Nat → Bytes32
  frozen : Nat
  reached : frozen ≤ head + 1
  buried : head < frozen + FINALITY_BLOCKS

structure Chain.Evolves (chain after : Chain) : Prop where
  frozen : chain.frozen ≤ after.frozen
  settled : ∀ number < chain.frozen, after.hashAt number = chain.hashAt number

theorem Chain.Evolves.refl (chain : Chain) : chain.Evolves chain := ⟨le_refl _, fun _ _ => rfl⟩

theorem Chain.Evolves.trans {first second third : Chain} (start : first.Evolves second) (next : second.Evolves third) :
    first.Evolves third := by
  refine ⟨start.frozen.trans next.frozen, fun number frozen => ?_⟩
  exact (next.settled number (frozen.trans_le start.frozen)).trans (start.settled number frozen)

/-- The logs of the block at a number, by the blocks' contents. -/
def logsAt (blocks : Bytes32 → List RawLog) (hashAt : Nat → Bytes32) (number : Nat) : List Log :=
  (blocks (hashAt number)).map (·.mined number (hashAt number))

/-- What `get_logs` returns for one address and a range of blocks. -/
def Chain.getLogs (chain : Chain) (blocks : Bytes32 → List RawLog) (address : Address) (first last : Nat) : List Log :=
  (List.range' first (min last chain.head + 1 - first)).flatMap fun number =>
    (logsAt blocks chain.hashAt number).filter (·.address = address)

def Chain.getBlock (chain : Chain) (number : Nat) : Option Bytes32 :=
  if number ≤ chain.head then some (chain.hashAt number) else none

theorem Chain.getBlock_some {chain : Chain} {number : Nat} {hash : Bytes32} (found : chain.getBlock number = some hash) :
    chain.hashAt number = hash := by
  unfold getBlock at found
  split at found
  next => exact Option.some.inj found
  next => cases found

theorem Chain.mem_getLogs {chain : Chain} {blocks : Bytes32 → List RawLog} {address : Address} {first last : Nat} {log : Log} :
    log ∈ chain.getLogs blocks address first last ↔
      first ≤ log.blockNumber ∧ log.blockNumber ≤ min last chain.head ∧
        log ∈ logsAt blocks chain.hashAt log.blockNumber ∧ log.address = address := by
  have numbered {number : Nat} (member : log ∈ logsAt blocks chain.hashAt number) : log.blockNumber = number := by
    obtain ⟨raw, -, rfl⟩ := List.mem_map.mp member
    rfl
  simp only [getLogs, List.mem_flatMap, List.mem_range'_1, List.mem_filter, decide_eq_true_eq]
  constructor
  · intro holds
    obtain ⟨number, ⟨low, high⟩, member, own⟩ := holds
    obtain rfl := numbered member
    exact ⟨low, by omega, member, own⟩
  · intro holds
    obtain ⟨low, high, member, own⟩ := holds
    exact ⟨log.blockNumber, ⟨low, by omega⟩, member, own⟩

end Omniscient

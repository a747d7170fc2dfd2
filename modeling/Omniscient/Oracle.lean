import Omniscient.Evm
import Omniscient.Lib.Outcome
import Omniscient.Lib.Word

/-! The Oracle contract: optimistic resolution with bonds. Specs, states and
proposals live in separate mappings with zero defaults. A call takes the storage
together with the state of the USDC contract and of the conditional tokens. -/

namespace Omniscient.Oracle
open Outcome

inductive Role where
  | defaultAdmin
  | pauser
  | arbitrator
  | marketCreator
  deriving DecidableEq, Repr

inductive MarketState where
  | open
  | proposed
  | disputed
  | resolved
  deriving DecidableEq, Repr

structure ResolutionSpec where
  questionId : Bytes32
  outcomeSlotCount : Uint256
  expiry : Uint256
  disputeWindow : Uint256
  bondAmount : Uint256
  deriving DecidableEq, Repr

structure OptimisticState where
  proposedPayoutsHash : Bytes32
  proposeTime : Uint256
  proposer : Address
  disputer : Address
  deriving DecidableEq, Repr

inductive Event where
  | marketCreated (marketId questionId : Bytes32) (expiry : Uint256)
  | outcomeProposed (marketId : Bytes32) (proposer : Address) (payouts : List Uint256)
  | outcomeDisputed (marketId : Bytes32) (disputer : Address) (reasoning : Bytes)
  | outcomeResolved (marketId : Bytes32) (payouts : List Uint256)
  | disputeResolved (marketId : Bytes32) (payouts : List Uint256)
  deriving DecidableEq, Repr

inductive Error where
  | invalidState
  | notExpired
  | disputeWindowNotPassed
  | disputeWindowPassed
  | invalidPayouts
  | payoutsMismatch
  | enforcedPause
  | expectedPause
  | accessControlUnauthorizedAccount (account : Address) (role : Role)
  | accessControlBadConfirmation
  | safeERC20FailedOperation
  | ctfFailed
  | panic (code : Panic)
  deriving DecidableEq, Repr

/-- The conditional tokens as the Oracle calls them, with state `κ`. -/
structure Conditions (κ : Type) where
  prepareCondition : κ → (oracle : Address) → (questionId : Bytes32) → (outcomeSlotCount : Uint256) → Option κ
  reportPayouts : κ → (caller : Address) → (questionId : Bytes32) → (payouts : List Uint256) → Option κ

structure Env (σ κ : Type) where
  crypto : Crypto
  usdc : Token σ
  ctf : Conditions κ
  self : Address

structure State (σ κ : Type) where
  usdc : σ
  ctf : κ
  events : List Event
  paused : Bool
  hasRole : Role → Address → Bool
  specs : Bytes32 → ResolutionSpec
  states : Bytes32 → MarketState
  optimisticStates : Bytes32 → OptimisticState

variable {σ κ : Type}

def State.emit (state : State σ κ) (event : Event) : State σ κ := { state with events := state.events ++ [event] }

def State.setRole (state : State σ κ) (role : Role) (account : Address) (granted : Bool) : State σ κ :=
  { state with hasRole := Function.update state.hasRole role (Function.update (state.hasRole role) account granted) }

/-- The constructor. No market has been created: all specs are zero. -/
def deploy (deployer : Address) (usdc : σ) (ctf : κ) : State σ κ where
  usdc
  ctf
  events := []
  paused := false
  hasRole role account := role == .defaultAdmin && account == deployer
  specs _ := ⟨0, 0, 0, 0, 0⟩
  states _ := .open
  optimisticStates _ := ⟨0, 0, 0, 0⟩

def whenNotPaused (state : State σ κ) : Except Error Unit := revertIf (state.paused = true) .enforcedPause

def onlyRole (state : State σ κ) (role : Role) (msg : Message) : Except Error Unit :=
  revertIf (state.hasRole role msg.sender = false) (.accessControlUnauthorizedAccount msg.sender role)

def createMarket (env : Env σ κ) (msg : Message) (marketId : Bytes32) (spec : ResolutionSpec) (state : State σ κ) :
    Except Error (State σ κ) := do
  onlyRole state .marketCreator msg
  whenNotPaused state
  revertIf ((state.specs marketId).expiry ≠ 0) .invalidState
  let ctf ← orRevert .ctfFailed (env.ctf.prepareCondition state.ctf env.self spec.questionId spec.outcomeSlotCount)
  return { state with ctf, specs := Function.update state.specs marketId spec }.emit
    (.marketCreated marketId spec.questionId spec.expiry)

def pause (msg : Message) (state : State σ κ) : Except Error (State σ κ) := do
  onlyRole state .pauser msg
  whenNotPaused state
  return { state with paused := true }

def unpause (msg : Message) (state : State σ κ) : Except Error (State σ κ) := do
  onlyRole state .pauser msg
  revertIf (state.paused = false) .expectedPause
  return { state with paused := false }

def validatePayouts (spec : ResolutionSpec) (payouts : List Uint256) : Except Error Unit := do
  revertIf (payouts.length ≠ spec.outcomeSlotCount.toNat) .invalidPayouts
  let sum ← each (fun sum payout => orRevert (.panic .arithmetic) (Word.add sum payout)) 0 payouts
  revertIf (sum = 0) .invalidPayouts

/-- `keccak256(abi.encode(payouts))`. -/
def hashPayouts (env : Env σ κ) (payouts : List Uint256) : Bytes32 :=
  env.crypto.keccak256 (Abi.word 32 ++ Abi.word payouts.length ++ payouts.flatMap fun payout => Abi.word payout.toNat)

def proposeOutcome (env : Env σ κ) (msg : Message) (marketId : Bytes32) (payouts : List Uint256) (state : State σ κ) :
    Except Error (State σ κ) := do
  whenNotPaused state
  let spec := state.specs marketId
  revertIf (state.states marketId ≠ .open) .invalidState
  revertIf (msg.timestamp < spec.expiry) .notExpired
  validatePayouts spec payouts
  let usdc ← orRevert .safeERC20FailedOperation
    (env.usdc.safeTransferFrom state.usdc env.self msg.sender env.self spec.bondAmount)
  let os := { state.optimisticStates marketId with
    proposedPayoutsHash := hashPayouts env payouts
    proposer := msg.sender
    proposeTime := msg.timestamp }
  return { state with
    usdc
    states := Function.update state.states marketId .proposed
    optimisticStates := Function.update state.optimisticStates marketId os }.emit
      (.outcomeProposed marketId msg.sender payouts)

def disputeOutcome (env : Env σ κ) (msg : Message) (marketId : Bytes32) (reasoning : Bytes) (state : State σ κ) :
    Except Error (State σ κ) := do
  whenNotPaused state
  revertIf (state.states marketId ≠ .proposed) .invalidState
  let spec := state.specs marketId
  let os := state.optimisticStates marketId
  let windowEnd ← orRevert (.panic .arithmetic) (Word.add os.proposeTime spec.disputeWindow)
  revertIf (msg.timestamp > windowEnd) .disputeWindowPassed
  let usdc ← orRevert .safeERC20FailedOperation
    (env.usdc.safeTransferFrom state.usdc env.self msg.sender env.self spec.bondAmount)
  return { state with
    usdc
    states := Function.update state.states marketId .disputed
    optimisticStates := Function.update state.optimisticStates marketId { os with disputer := msg.sender } }.emit
      (.outcomeDisputed marketId msg.sender reasoning)

/-- The arbitrator's payouts decide which of the two bonds was right. -/
def resolveDispute (env : Env σ κ) (msg : Message) (marketId : Bytes32) (payouts : List Uint256) (state : State σ κ) :
    Except Error (State σ κ) := do
  onlyRole state .arbitrator msg
  revertIf (state.states marketId ≠ .disputed) .invalidState
  let spec := state.specs marketId
  let os := state.optimisticStates marketId
  validatePayouts spec payouts
  let disputerRight : Bool := hashPayouts env payouts ≠ os.proposedPayoutsHash
  let winner := if disputerRight then os.disputer else os.proposer
  let ctf ← orRevert .ctfFailed (env.ctf.reportPayouts state.ctf env.self spec.questionId payouts)
  let award ← orRevert (.panic .arithmetic) (Word.mul 2 spec.bondAmount)
  let usdc ← orRevert .safeERC20FailedOperation (env.usdc.safeTransfer state.usdc env.self winner award)
  return { state with usdc, ctf, states := Function.update state.states marketId .resolved }.emit
    (.disputeResolved marketId payouts)

/-- The hash binds the payouts to the proposal, which was validated. -/
def finalizeOutcome (env : Env σ κ) (msg : Message) (marketId : Bytes32) (payouts : List Uint256) (state : State σ κ) :
    Except Error (State σ κ) := do
  whenNotPaused state
  revertIf (state.states marketId ≠ .proposed) .invalidState
  let spec := state.specs marketId
  let os := state.optimisticStates marketId
  let windowEnd ← orRevert (.panic .arithmetic) (Word.add os.proposeTime spec.disputeWindow)
  revertIf (msg.timestamp ≤ windowEnd) .disputeWindowNotPassed
  revertIf (hashPayouts env payouts ≠ os.proposedPayoutsHash) .payoutsMismatch
  let ctf ← orRevert .ctfFailed (env.ctf.reportPayouts state.ctf env.self spec.questionId payouts)
  let usdc ← orRevert .safeERC20FailedOperation
    (env.usdc.safeTransfer state.usdc env.self os.proposer spec.bondAmount)
  return { state with usdc, ctf, states := Function.update state.states marketId .resolved }.emit
    (.outcomeResolved marketId payouts)

def grantRole (msg : Message) (role : Role) (account : Address) (state : State σ κ) : Except Error (State σ κ) := do
  onlyRole state .defaultAdmin msg
  return state.setRole role account true

def revokeRole (msg : Message) (role : Role) (account : Address) (state : State σ κ) : Except Error (State σ κ) := do
  onlyRole state .defaultAdmin msg
  return state.setRole role account false

def renounceRole (msg : Message) (role : Role) (callerConfirmation : Address) (state : State σ κ) :
    Except Error (State σ κ) := do
  revertIf (callerConfirmation ≠ msg.sender) .accessControlBadConfirmation
  return state.setRole role callerConfirmation false

/-- The state-changing external functions with their arguments. -/
inductive Call where
  | createMarket (marketId : Bytes32) (spec : ResolutionSpec)
  | proposeOutcome (marketId : Bytes32) (payouts : List Uint256)
  | disputeOutcome (marketId : Bytes32) (reasoning : Bytes)
  | resolveDispute (marketId : Bytes32) (payouts : List Uint256)
  | finalizeOutcome (marketId : Bytes32) (payouts : List Uint256)
  | pause
  | unpause
  | grantRole (role : Role) (account : Address)
  | revokeRole (role : Role) (account : Address)
  | renounceRole (role : Role) (callerConfirmation : Address)
  deriving DecidableEq

def exec (env : Env σ κ) (msg : Message) : Call → State σ κ → Except Error (State σ κ)
  | .createMarket marketId spec => createMarket env msg marketId spec
  | .proposeOutcome marketId payouts => proposeOutcome env msg marketId payouts
  | .disputeOutcome marketId reasoning => disputeOutcome env msg marketId reasoning
  | .resolveDispute marketId payouts => resolveDispute env msg marketId payouts
  | .finalizeOutcome marketId payouts => finalizeOutcome env msg marketId payouts
  | .pause => pause msg
  | .unpause => unpause msg
  | .grantRole role account => grantRole msg role account
  | .revokeRole role account => revokeRole msg role account
  | .renounceRole role callerConfirmation => renounceRole msg role callerConfirmation

/-- A step: a call that succeeds, from any account but the contract's own, or what
others do to the two token contracts, which cannot lower what the Oracle holds. -/
inductive Step (env : Env σ κ) : State σ κ → Option (Message × Call) → State σ κ → Prop where
  | call {msg call state after} : msg.sender ≠ env.self → exec env msg call state = .ok after →
      Step env state (some (msg, call)) after
  | others {state usdc ctf} : env.usdc.balanceOf state.usdc env.self ≤ env.usdc.balanceOf usdc env.self →
      Step env state none { state with usdc, ctf }

/-- Take one step, where `none` stands for no change at all. -/
def perform (env : Env σ κ) (state : State σ κ) : Option (Message × Call) → Except Error (State σ κ)
  | some (msg, call) => exec env msg call state
  | none => return state

/-- The accounts that send transactions: every address but the Oracle's. -/
def external (self : Address) : Option (Message × Call) → Bool
  | some (msg, _) => msg.sender ≠ self
  | none => true

theorem perform_step {env : Env σ κ} {state after : State σ κ} {label : Option (Message × Call)}
    (outside : external env.self label = true) (ran : perform env state label = .ok after) :
    Step env state label after := by
  cases label with
  | some each =>
    obtain ⟨msg, call⟩ := each
    exact .call (by simpa [external] using outside) ran
  | none =>
    cases ran
    exact .others (BitVec.le_refl _)

end Omniscient.Oracle

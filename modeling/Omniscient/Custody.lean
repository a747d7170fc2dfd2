import Omniscient.Evm
import Omniscient.Lib.Outcome
import Omniscient.Lib.Postings

/-! The Custody contract: a vault that holds USDC for its accounts. A call takes
the contract's storage together with the state of the USDC contract, and either
returns both or reverts. The reentrancy guard is not part of the storage: the
token is assumed not to call back. -/

namespace Omniscient.Custody
open Outcome

inductive Role where
  | defaultAdmin
  | pauser
  | settlement
  | withdrawalSigner
  deriving DecidableEq, Repr

/-- One entry of the list handed to `applyNetDeltas`. -/
abbrev BalanceDelta := Posting Address 256

inductive Event where
  | deposited (account : Address) (amount newBalance : Uint256)
  | withdrawn (account : Address) (amount newBalance : Uint256)
  | forcedWithdrawalExecuted (account recipient : Address) (amount : Uint256)
  | netDeltasApplied (batchId : Bytes32) (accounts : Uint256)
  | operatorHeartbeat (timestamp : Uint256)
  | operatorInactivityThresholdUpdated (newThreshold : Uint256)
  deriving DecidableEq, Repr

inductive Error where
  | zeroAmount
  | zeroAddress
  | insufficientBalance (available requested : Uint256)
  | authorizationExpired (deadline : Uint256)
  | invalidWithdrawalSigner (recovered : Address)
  | deltasDoNotConserve (net : Int256)
  | batchAlreadyApplied (batchId : Bytes32)
  | operatorActive (lastOperatorActivity : Uint256)
  | inactivityThresholdOutOfBounds (threshold : Uint256)
  | enforcedPause
  | expectedPause
  | accessControlUnauthorizedAccount (account : Address) (role : Role)
  | accessControlBadConfirmation
  | ecdsaInvalidSignature
  | safeERC20FailedOperation
  | panic (code : Panic)
  deriving DecidableEq, Repr

def minOperatorInactivityThreshold : Uint256 := 86400
def maxOperatorInactivityThreshold : Uint256 := 7776000

/-- The contract's surroundings: its own address, the chain, and USDC. -/
structure Env (σ : Type) where
  crypto : Crypto
  usdc : Token σ
  self : Address
  chainId : Uint256

structure State (σ : Type) where
  usdc : σ
  events : List Event
  paused : Bool
  hasRole : Role → Address → Bool
  lastOperatorActivity : Uint256
  operatorInactivityThreshold : Uint256
  balances : Address → Uint256
  withdrawalNonce : Address → Uint256
  appliedBatches : Bytes32 → Bool

variable {σ : Type}

def State.emit (state : State σ) (event : Event) : State σ := { state with events := state.events ++ [event] }

def State.setBalance (state : State σ) (account : Address) (balance : Uint256) : State σ :=
  { state with balances := Function.update state.balances account balance }

def State.setRole (state : State σ) (role : Role) (account : Address) (granted : Bool) : State σ :=
  { state with hasRole := Function.update state.hasRole role (Function.update (state.hasRole role) account granted) }

/-- The constructor. `token` is the address given for USDC. -/
def deploy (token admin : Address) (initialInactivityThreshold now : Uint256) (usdc : σ) : Except Error (State σ) := do
  revertIf (token = 0 ∨ admin = 0) .zeroAddress
  revertIf (initialInactivityThreshold < minOperatorInactivityThreshold ∨
    initialInactivityThreshold > maxOperatorInactivityThreshold)
    (.inactivityThresholdOutOfBounds initialInactivityThreshold)
  return {
    usdc
    events := []
    paused := false
    hasRole := fun role account => role == .defaultAdmin && account == admin
    lastOperatorActivity := now
    operatorInactivityThreshold := initialInactivityThreshold
    balances := fun _ => 0
    withdrawalNonce := fun _ => 0
    appliedBatches := fun _ => false }

def whenNotPaused (state : State σ) : Except Error Unit := revertIf (state.paused = true) .enforcedPause

def onlyRole (state : State σ) (role : Role) (msg : Message) : Except Error Unit :=
  revertIf (state.hasRole role msg.sender = false) (.accessControlUnauthorizedAccount msg.sender role)

/-- `deposit`, with the body of `_deposit`: the credit is the measured change of
the contract's USDC balance, not the requested amount. -/
def deposit (env : Env σ) (msg : Message) (amount : Uint256) (state : State σ) : Except Error (State σ) := do
  whenNotPaused state
  revertIf (amount = 0) .zeroAmount
  let before := env.usdc.balanceOf state.usdc env.self
  let usdc ← orRevert .safeERC20FailedOperation
    (env.usdc.safeTransferFrom state.usdc env.self msg.sender env.self amount)
  let received ← orRevert (.panic .arithmetic) (Word.sub (env.usdc.balanceOf usdc env.self) before)
  revertIf (received = 0) .zeroAmount
  let newBalance ← orRevert (.panic .arithmetic) (Word.add (state.balances msg.sender) received)
  return ({ state with usdc }.setBalance msg.sender newBalance).emit (.deposited msg.sender received newBalance)

def debitAndPay (env : Env σ) (account recipient : Address) (amount : Uint256) (state : State σ) :
    Except Error (State σ) := do
  let bal := state.balances account
  revertIf (bal < amount) (.insufficientBalance bal amount)
  let rest ← orRevert (.panic .arithmetic) (Word.sub bal amount)
  let usdc ← orRevert .safeERC20FailedOperation (env.usdc.safeTransfer state.usdc env.self recipient amount)
  return { state.setBalance account rest with usdc }

def withdrawalDigest (env : Env σ) (account : Address) (amount nonce deadline : Uint256) : Bytes32 :=
  let typehash := env.crypto.keccak256
    (Abi.ascii "Withdrawal(address account,uint256 amount,uint256 nonce,uint256 deadline)")
  let structHash := env.crypto.keccak256
    (Abi.word typehash.toNat ++ Abi.word account.toNat ++ Abi.word amount.toNat ++ Abi.word nonce.toNat ++
      Abi.word deadline.toNat)
  Eip712.hashTypedData env.crypto
    (Eip712.domainSeparator env.crypto "Omniscient Custody" "1" env.chainId env.self) structHash

def withdraw (env : Env σ) (msg : Message) (amount deadline : Uint256) (operatorSig : Bytes) (state : State σ) :
    Except Error (State σ) := do
  whenNotPaused state
  revertIf (amount = 0) .zeroAmount
  revertIf (msg.timestamp > deadline) (.authorizationExpired deadline)
  let nonce := state.withdrawalNonce msg.sender
  let signer ← orRevert .ecdsaInvalidSignature
    (env.crypto.recover (withdrawalDigest env msg.sender amount nonce deadline) operatorSig)
  revertIf (state.hasRole .withdrawalSigner signer = false) (.invalidWithdrawalSigner signer)
  let next ← orRevert (.panic .arithmetic) (Word.add nonce 1)
  let paid ← debitAndPay env msg.sender msg.sender amount
    { state with withdrawalNonce := Function.update state.withdrawalNonce msg.sender next }
  return paid.emit (.withdrawn msg.sender amount (paid.balances msg.sender))

/-- The subtraction is checked: a clock before the last activity reverts. -/
def operatorAbsent (msg : Message) (state : State σ) : Except Error Bool := do
  let silence ← orRevert (.panic .arithmetic) (Word.sub msg.timestamp state.lastOperatorActivity)
  return state.operatorInactivityThreshold < silence

def executeForcedWithdrawal (env : Env σ) (msg : Message) (recipient : Address) (state : State σ) :
    Except Error (State σ) := do
  revertIf (recipient = 0) .zeroAddress
  let absent ← operatorAbsent msg state
  revertIf (absent = false) (.operatorActive state.lastOperatorActivity)
  let amount := state.balances msg.sender
  revertIf (amount = 0) .zeroAmount
  let paid ← debitAndPay env msg.sender recipient amount state
  return paid.emit (.forcedWithdrawalExecuted msg.sender recipient amount)

def recordOperatorActivity (msg : Message) (state : State σ) : State σ :=
  { state with lastOperatorActivity := msg.timestamp }.emit (.operatorHeartbeat msg.timestamp)

/-- The first loop of `applyNetDeltas`: the checked sum of the amounts. -/
def sumDeltas (deltas : List BalanceDelta) : Except Error Int256 :=
  each (fun net delta => orRevert (.panic .arithmetic) (Word.addSigned net delta.amount)) 0 deltas

/-- One iteration of its second loop. Negating the least int256 panics. -/
def applyDelta (state : State σ) (delta : BalanceDelta) : Except Error (State σ) :=
  let bal := state.balances delta.account
  if delta.amount = 0 then
    return state
  else if 0 < delta.amount.toInt then do
    let credited ← orRevert (.panic .arithmetic) (Word.add bal delta.amount)
    return state.setBalance delta.account credited
  else do
    let debit ← orRevert (.panic .arithmetic) (Word.negSigned delta.amount)
    revertIf (bal < debit) (.insufficientBalance bal debit)
    let rest ← orRevert (.panic .arithmetic) (Word.sub bal debit)
    return state.setBalance delta.account rest

def applyNetDeltas (msg : Message) (batchId : Bytes32) (deltas : List BalanceDelta) (state : State σ) :
    Except Error (State σ) := do
  whenNotPaused state
  onlyRole state .settlement msg
  revertIf (state.appliedBatches batchId = true) (.batchAlreadyApplied batchId)
  let state := recordOperatorActivity msg
    { state with appliedBatches := Function.update state.appliedBatches batchId true }
  let net ← sumDeltas deltas
  revertIf (net ≠ 0) (.deltasDoNotConserve net)
  let state ← each applyDelta state deltas
  return state.emit (.netDeltasApplied batchId (BitVec.ofNat 256 deltas.length))

def heartbeat (msg : Message) (state : State σ) : Except Error (State σ) := do
  whenNotPaused state
  onlyRole state .settlement msg
  return recordOperatorActivity msg state

def pause (msg : Message) (state : State σ) : Except Error (State σ) := do
  onlyRole state .pauser msg
  whenNotPaused state
  return { state with paused := true }

def unpause (msg : Message) (state : State σ) : Except Error (State σ) := do
  onlyRole state .pauser msg
  revertIf (state.paused = false) .expectedPause
  return { state with paused := false }

def setOperatorInactivityThreshold (msg : Message) (newThreshold : Uint256) (state : State σ) :
    Except Error (State σ) := do
  onlyRole state .defaultAdmin msg
  revertIf (newThreshold < minOperatorInactivityThreshold ∨ newThreshold > maxOperatorInactivityThreshold)
    (.inactivityThresholdOutOfBounds newThreshold)
  return { state with operatorInactivityThreshold := newThreshold }.emit
    (.operatorInactivityThresholdUpdated newThreshold)

/-- The entry points inherited from AccessControl. Every role is administered by
the default admin role. -/
def grantRole (msg : Message) (role : Role) (account : Address) (state : State σ) : Except Error (State σ) := do
  onlyRole state .defaultAdmin msg
  return state.setRole role account true

def revokeRole (msg : Message) (role : Role) (account : Address) (state : State σ) : Except Error (State σ) := do
  onlyRole state .defaultAdmin msg
  return state.setRole role account false

def renounceRole (msg : Message) (role : Role) (callerConfirmation : Address) (state : State σ) :
    Except Error (State σ) := do
  revertIf (callerConfirmation ≠ msg.sender) .accessControlBadConfirmation
  return state.setRole role callerConfirmation false

/-- The state-changing external functions with their arguments. -/
inductive Call where
  | deposit (amount : Uint256)
  | withdraw (amount deadline : Uint256) (operatorSig : Bytes)
  | executeForcedWithdrawal (recipient : Address)
  | applyNetDeltas (batchId : Bytes32) (deltas : List BalanceDelta)
  | heartbeat
  | pause
  | unpause
  | setOperatorInactivityThreshold (newThreshold : Uint256)
  | grantRole (role : Role) (account : Address)
  | revokeRole (role : Role) (account : Address)
  | renounceRole (role : Role) (callerConfirmation : Address)

def exec (env : Env σ) (msg : Message) : Call → State σ → Except Error (State σ)
  | .deposit amount => deposit env msg amount
  | .withdraw amount deadline operatorSig => withdraw env msg amount deadline operatorSig
  | .executeForcedWithdrawal recipient => executeForcedWithdrawal env msg recipient
  | .applyNetDeltas batchId deltas => applyNetDeltas msg batchId deltas
  | .heartbeat => heartbeat msg
  | .pause => pause msg
  | .unpause => unpause msg
  | .setOperatorInactivityThreshold newThreshold => setOperatorInactivityThreshold msg newThreshold
  | .grantRole role account => grantRole msg role account
  | .revokeRole role account => revokeRole msg role account
  | .renounceRole role callerConfirmation => renounceRole msg role callerConfirmation

/-- A step of the vault among its surroundings: a call by anyone that succeeds (a
reverted call changes nothing), or a change of the USDC contract made by others,
which cannot lower what the vault holds. -/
inductive Step (env : Env σ) : State σ → Option (Message × Call) → State σ → Prop where
  | call {msg call state after} : exec env msg call state = .ok after → Step env state (some (msg, call)) after
  | others {state usdc} : env.usdc.balanceOf state.usdc env.self ≤ env.usdc.balanceOf usdc env.self →
      Step env state none { state with usdc }

end Omniscient.Custody

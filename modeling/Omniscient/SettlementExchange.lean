import Omniscient.Custody

/-! The SettlementExchange contract. A batch of signed orders is settled by
deriving every USDC delta from the orders, handing the deltas to Custody, and
moving the outcome shares through the exchange. A call takes the storage of both
contracts together with the state of the two token contracts. -/

namespace Omniscient.SettlementExchange
open Outcome

structure Order where
  salt : Bytes32
  maker : Address
  positionId : Uint256
  price : Uint256
  amount : Uint256
  side : UInt8
  nonce : Uint256
  deadline : Uint256
  deriving DecidableEq, Repr

structure SignedOrder where
  order : Order
  signature : Bytes
  deriving DecidableEq, Repr

/-- One index of the three arrays given to `settleBatch`. -/
structure Entry where
  signed : SignedOrder
  fill : Uint256
  isMaker : Bool
  deriving DecidableEq, Repr

abbrev Entry.order (entry : Entry) : Order := entry.signed.order

inductive Role where
  | defaultAdmin
  | pauser
  | operator
  deriving DecidableEq, Repr

inductive Event where
  | nonceInvalidated (maker : Address) (newNonce : Uint256)
  | feeRatesUpdated (takerFeeBps makerRebateBps : Uint256)
  deriving DecidableEq, Repr

inductive Error where
  | invalidSignature
  | orderExpired
  | invalidNonce
  | overfill (requested available : Uint256)
  | lengthMismatch
  | batchAlreadySettled (batchId : Bytes32)
  | invalidFee
  | exchangeUsdcNetNegative (net : Int256)
  | ctfNotConserved (positionId : Uint256) (net : Int256)
  | enforcedPause
  | expectedPause
  | accessControlUnauthorizedAccount (account : Address) (role : Role)
  | accessControlBadConfirmation
  | ecdsaInvalidSignature
  | safeERC20FailedOperation
  | ctfTransferFailed
  | custody (error : Custody.Error)
  | panic (code : Panic)
  deriving DecidableEq, Repr

/-- The exchange's surroundings: Custody's own, the conditional tokens, and the
exchange's address. -/
structure Env (σ κ : Type) where
  custody : Custody.Env σ
  ctf : MultiToken κ
  self : Address

structure Storage where
  events : List Event
  paused : Bool
  hasRole : Role → Address → Bool
  takerFeeBps : Uint256
  makerRebateBps : Uint256
  filledAmount : Bytes32 → Uint256
  nonces : Address → Uint256
  settledBatches : Bytes32 → Bool

structure World (σ κ : Type) where
  custody : Custody.State σ
  exchange : Storage
  ctf : κ

variable {σ κ : Type}

/-- The constructor: the deployer is the default admin, and both rates are zero. -/
def deploy (deployer : Address) : Storage where
  events := []
  paused := false
  hasRole role account := role == .defaultAdmin && account == deployer
  takerFeeBps := 0
  makerRebateBps := 0
  filledAmount _ := 0
  nonces _ := 0
  settledBatches _ := false

def whenNotPaused (storage : Storage) : Except Error Unit := revertIf (storage.paused = true) .enforcedPause

def onlyRole (storage : Storage) (role : Role) (msg : Message) : Except Error Unit :=
  revertIf (storage.hasRole role msg.sender = false) (.accessControlUnauthorizedAccount msg.sender role)

def orderTypeString : String :=
  "Order(bytes32 salt,address maker,uint256 positionId,uint256 price,uint256 amount,uint8 side,uint256 nonce,uint256 deadline)"

def hashOrder (env : Env σ κ) (order : Order) : Bytes32 :=
  let crypto := env.custody.crypto
  let structHash := crypto.keccak256
    (Abi.word (crypto.keccak256 (Abi.ascii orderTypeString)).toNat ++ Abi.word order.salt.toNat ++
      Abi.word order.maker.toNat ++ Abi.word order.positionId.toNat ++ Abi.word order.price.toNat ++
      Abi.word order.amount.toNat ++ Abi.word order.side.toNat ++ Abi.word order.nonce.toNat ++
      Abi.word order.deadline.toNat)
  Eip712.hashTypedData crypto
    (Eip712.domainSeparator crypto "Omniscient Exchange" "1" env.custody.chainId env.self) structHash

/-- `deltas` is the memory array, `deltaCount` its cells in use. -/
structure Accrual where
  filledAmount : Bytes32 → Uint256
  deltas : List Custody.BalanceDelta
  deltaCount : Nat
  exchangeUsdcNet : Int256

/-- The USDC leg of an entry: what a buyer pays, or what a seller receives. -/
inductive Leg where
  | buy (charge : Int256)
  | sell (credit : Int256)
  deriving DecidableEq, Repr

def checkFill (filled total amount : Uint256) : Except Error Unit :=
  if amount < total then do
    let available ← orRevert (.panic .arithmetic) (Word.sub amount filled)
    .error (.overfill total available)
  else
    return ()

/-- Buy volume rounds up, any other volume rounds down. The cast to int256 keeps
the bits. -/
def volume (entry : Entry) : Except Error Int256 := do
  let product ← orRevert (.panic .arithmetic) (Word.mul entry.fill entry.order.price)
  if entry.order.side = 0 then do
    let raised ← orRevert (.panic .arithmetic) (Word.add product 999999)
    return raised / 1000000
  else
    return product / 1000000

/-- A taker fee rounds up; a maker rebate rounds down and is a negative fee. -/
def fee (storage : Storage) (entry : Entry) (volume : Int256) : Except Error Int256 :=
  if entry.isMaker then do
    let product ← orRevert (.panic .arithmetic) (Word.mulSigned volume storage.makerRebateBps)
    orRevert (.panic .arithmetic) (Word.negSigned (product.sdiv 10000))
  else do
    let product ← orRevert (.panic .arithmetic) (Word.mulSigned volume storage.takerFeeBps)
    let raised ← orRevert (.panic .arithmetic) (Word.addSigned product 9999)
    return raised.sdiv 10000

def usdcLeg (storage : Storage) (entry : Entry) : Except Error Leg := do
  let volume ← volume entry
  let fee ← fee storage entry volume
  if entry.order.side = 0 then do
    let charge ← orRevert (.panic .arithmetic) (Word.addSigned volume fee)
    return .buy charge
  else do
    let credit ← orRevert (.panic .arithmetic) (Word.subSigned volume fee)
    return .sell credit

/-- `_accrue`: aggregate an amount into the delta of an account. -/
def accrue (account : Address) (amount : Int256) (acc : Accrual) : Except Error Accrual := do
  let (deltas, deltaCount) ←
    Postings.accrue (.panic .arithmetic) (.panic .outOfBounds) account amount acc.deltas acc.deltaCount
  return { acc with deltas, deltaCount }

/-- Book a leg to the maker and the opposite amount to the exchange. -/
def bookLeg (maker : Address) (leg : Leg) (acc : Accrual) : Except Error Accrual :=
  match leg with
  | .buy charge => do
    let amount ← orRevert (.panic .arithmetic) (Word.negSigned charge)
    let acc ← accrue maker amount acc
    let exchangeUsdcNet ← orRevert (.panic .arithmetic) (Word.addSigned acc.exchangeUsdcNet charge)
    return { acc with exchangeUsdcNet }
  | .sell credit => do
    let acc ← accrue maker credit acc
    let exchangeUsdcNet ← orRevert (.panic .arithmetic) (Word.subSigned acc.exchangeUsdcNet credit)
    return { acc with exchangeUsdcNet }

/-- One iteration of the loop of `settleBatch`. -/
def settleEntry (env : Env σ κ) (msg : Message) (storage : Storage) (acc : Accrual) (entry : Entry) :
    Except Error Accrual :=
  if entry.fill = 0 then
    return acc
  else do
    let orderHash := hashOrder env entry.order
    revertIf (msg.timestamp > entry.order.deadline) .orderExpired
    revertIf (entry.order.nonce ≠ storage.nonces entry.order.maker) .invalidNonce
    let signer ← orRevert .ecdsaInvalidSignature
      (env.custody.crypto.recover orderHash entry.signed.signature)
    revertIf (signer ≠ entry.order.maker) .invalidSignature
    let filled := acc.filledAmount orderHash
    let total ← orRevert (.panic .arithmetic) (Word.add filled entry.fill)
    checkFill filled total entry.order.amount
    let leg ← usdcLeg storage entry
    bookLeg entry.order.maker leg { acc with filledAmount := Function.update acc.filledAmount orderHash total }

def balancingDelta (self : Address) (acc : Accrual) : Except Error (List Custody.BalanceDelta) :=
  if acc.deltaCount < acc.deltas.length then
    return acc.deltas.set acc.deltaCount ⟨self, acc.exchangeUsdcNet⟩
  else
    .error (.panic .outOfBounds)

structure Transfer where
  holder : Address
  recipient : Address
  positionId : Uint256
  amount : Uint256
  deriving DecidableEq, Repr

/-- Only side 1 is pulled in, and only side 0 is pushed out. -/
def Entry.pull (self : Address) (entry : Entry) : Option Transfer :=
  if entry.fill ≠ 0 ∧ entry.order.side = 1 then
    some ⟨entry.order.maker, self, entry.order.positionId, entry.fill⟩
  else
    none

def Entry.push (self : Address) (entry : Entry) : Option Transfer :=
  if entry.fill ≠ 0 ∧ entry.order.side = 0 then
    some ⟨self, entry.order.maker, entry.order.positionId, entry.fill⟩
  else
    none

def transferShares (env : Env σ κ) (ctf : κ) (transfer : Option Transfer) : Except Error κ :=
  match transfer with
  | none => return ctf
  | some move => orRevert .ctfTransferFailed
      (env.ctf.safeTransferFrom ctf env.self move.holder move.recipient move.positionId move.amount)

/-- One iteration of the first loop of `_settleCtf`: a fill is cast to int256 and
counted in for side 1, out for every other side. -/
def accrueShares (nets : List (Posting Uint256 256) × Nat) (entry : Entry) :
    Except Error (List (Posting Uint256 256) × Nat) :=
  if entry.fill = 0 then
    return nets
  else do
    let delta ← if entry.order.side = 1 then pure entry.fill
      else orRevert (.panic .arithmetic) (Word.negSigned entry.fill)
    Postings.accrue (.panic .arithmetic) (.panic .outOfBounds) entry.order.positionId delta nets.1 nets.2

def checkConserved (_ : Unit) (net : Posting Uint256 256) : Except Error Unit :=
  revertIf (net.amount ≠ 0) (.ctfNotConserved net.account net.amount)

/-- `_settleCtf`: verify that each position nets to zero, then pull the sells in
and push the buys out. -/
def settleCtf (env : Env σ κ) (entries : List Entry) (ctf : κ) : Except Error κ := do
  let (nets, pCount) ← each accrueShares (List.replicate entries.length ⟨0, 0⟩, 0) entries
  each checkConserved () (nets.take pCount)
  let ctf ← each (fun ctf (entry : Entry) => transferShares env ctf (entry.pull env.self)) ctf entries
  each (fun ctf (entry : Entry) => transferShares env ctf (entry.push env.self)) ctf entries

def entriesOf (orders : List SignedOrder) (fills : List Uint256) (isMaker : List Bool) : List Entry :=
  (orders.zip (fills.zip isMaker)).map fun (signed, fill, isMaker) => { signed, fill, isMaker }

def settleBatch (env : Env σ κ) (msg : Message) (batchId : Bytes32) (orders : List SignedOrder)
    (fills : List Uint256) (isMaker : List Bool) (world : World σ κ) : Except Error (World σ κ) := do
  let storage := world.exchange
  onlyRole storage .operator msg
  whenNotPaused storage
  revertIf (storage.settledBatches batchId = true) (.batchAlreadySettled batchId)
  revertIf (orders.length ≠ fills.length ∨ orders.length ≠ isMaker.length) .lengthMismatch
  let entries := entriesOf orders fills isMaker
  let acc ← each (settleEntry env msg storage)
    { filledAmount := storage.filledAmount
      deltas := List.replicate (orders.length + 1) ⟨0, 0⟩
      deltaCount := 0
      exchangeUsdcNet := 0 } entries
  revertIf (acc.exchangeUsdcNet.toInt < 0) (.exchangeUsdcNetNegative acc.exchangeUsdcNet)
  let deltas ← balancingDelta env.self acc
  let custody ← (Custody.applyNetDeltas ⟨env.self, msg.timestamp⟩ batchId (deltas.take (acc.deltaCount + 1))
    world.custody).mapError .custody
  let ctf ← settleCtf env entries world.ctf
  return {
    custody
    ctf
    exchange := { storage with
      filledAmount := acc.filledAmount
      settledBatches := Function.update storage.settledBatches batchId true } }

def setFeeRates (msg : Message) (takerFeeBps makerRebateBps : Uint256) (storage : Storage) :
    Except Error Storage := do
  onlyRole storage .defaultAdmin msg
  revertIf (takerFeeBps > 1000 ∨ makerRebateBps > 1000) .invalidFee
  return { storage with
    takerFeeBps
    makerRebateBps
    events := storage.events ++ [.feeRatesUpdated takerFeeBps makerRebateBps] }

/-- Custody only ever pays its caller, here the exchange; the fees are forwarded. -/
def withdrawFees (env : Env σ κ) (msg : Message) (amount : Uint256) (recipient : Address) (deadline : Uint256)
    (sig : Bytes) (world : World σ κ) : Except Error (World σ κ) := do
  onlyRole world.exchange .defaultAdmin msg
  let custody ← (Custody.withdraw env.custody ⟨env.self, msg.timestamp⟩ amount deadline sig
    world.custody).mapError .custody
  let usdc ← orRevert .safeERC20FailedOperation
    (env.custody.usdc.safeTransfer custody.usdc env.self recipient amount)
  return { world with custody := { custody with usdc } }

def cancelAllOrders (msg : Message) (storage : Storage) : Except Error Storage := do
  let next ← orRevert (.panic .arithmetic) (Word.add (storage.nonces msg.sender) 1)
  return { storage with
    nonces := Function.update storage.nonces msg.sender next
    events := storage.events ++ [.nonceInvalidated msg.sender next] }

def pause (msg : Message) (storage : Storage) : Except Error Storage := do
  onlyRole storage .pauser msg
  whenNotPaused storage
  return { storage with paused := true }

def unpause (msg : Message) (storage : Storage) : Except Error Storage := do
  onlyRole storage .pauser msg
  revertIf (storage.paused = false) .expectedPause
  return { storage with paused := false }

def setRole (storage : Storage) (role : Role) (account : Address) (granted : Bool) : Storage :=
  { storage with
    hasRole := Function.update storage.hasRole role (Function.update (storage.hasRole role) account granted) }

def grantRole (msg : Message) (role : Role) (account : Address) (storage : Storage) : Except Error Storage := do
  onlyRole storage .defaultAdmin msg
  return setRole storage role account true

def revokeRole (msg : Message) (role : Role) (account : Address) (storage : Storage) : Except Error Storage := do
  onlyRole storage .defaultAdmin msg
  return setRole storage role account false

def renounceRole (msg : Message) (role : Role) (callerConfirmation : Address) (storage : Storage) :
    Except Error Storage := do
  revertIf (callerConfirmation ≠ msg.sender) .accessControlBadConfirmation
  return setRole storage role callerConfirmation false

inductive Call where
  | settleBatch (batchId : Bytes32) (orders : List SignedOrder) (fills : List Uint256) (isMaker : List Bool)
  | withdrawFees (amount : Uint256) (recipient : Address) (deadline : Uint256) (sig : Bytes)
  | setFeeRates (takerFeeBps makerRebateBps : Uint256)
  | cancelAllOrders
  | pause
  | unpause
  | grantRole (role : Role) (account : Address)
  | revokeRole (role : Role) (account : Address)
  | renounceRole (role : Role) (callerConfirmation : Address)

/-- A call that only writes the exchange's own storage. -/
def onStorage (world : World σ κ) (result : Except Error Storage) : Except Error (World σ κ) := do
  let exchange ← result
  return { world with exchange }

def exec (env : Env σ κ) (msg : Message) (call : Call) (world : World σ κ) : Except Error (World σ κ) :=
  match call with
  | .settleBatch batchId orders fills isMaker => settleBatch env msg batchId orders fills isMaker world
  | .withdrawFees amount recipient deadline sig => withdrawFees env msg amount recipient deadline sig world
  | .setFeeRates takerFeeBps makerRebateBps => onStorage world (setFeeRates msg takerFeeBps makerRebateBps world.exchange)
  | .cancelAllOrders => onStorage world (cancelAllOrders msg world.exchange)
  | .pause => onStorage world (pause msg world.exchange)
  | .unpause => onStorage world (unpause msg world.exchange)
  | .grantRole role account => onStorage world (grantRole msg role account world.exchange)
  | .revokeRole role account => onStorage world (revokeRole msg role account world.exchange)
  | .renounceRole role callerConfirmation =>
    onStorage world (renounceRole msg role callerConfirmation world.exchange)

/-- What happens in one step: a call to one of the contracts, or a change that
others make to a token contract. -/
inductive Action where
  | custody (msg : Message) (call : Custody.Call)
  | exchange (msg : Message) (call : Call)
  | others

/-- Perform an action, where `others` stands for no change at all. -/
def perform (env : Env σ κ) (world : World σ κ) : Action → Except Error (World σ κ)
  | .custody msg call => do
    let custody ← (Custody.exec env.custody msg call world.custody).mapError .custody
    return { world with custody }
  | .exchange msg call => exec env msg call world
  | .others => return world

/-- The accounts that send transactions: every address but the exchange's. -/
def Action.external (self : Address) : Action → Bool
  | .custody msg _ | .exchange msg _ => msg.sender ≠ self
  | .others => true

/-- A step of the two contracts. The exchange is a contract, so no transaction
comes from its address: it calls Custody only through its own functions. -/
inductive Step (env : Env σ κ) : World σ κ → Action → World σ κ → Prop where
  | custody {world msg call custody} : msg.sender ≠ env.self →
      Custody.exec env.custody msg call world.custody = .ok custody →
      Step env world (.custody msg call) { world with custody }
  | exchange {world msg call after} : msg.sender ≠ env.self → exec env msg call world = .ok after →
      Step env world (.exchange msg call) after
  | usdc {world usdc} : Step env world .others { world with custody := { world.custody with usdc } }
  | ctf {world ctf} : Step env world .others { world with ctf }

theorem perform_step {env : Env σ κ} {world after : World σ κ} {action : Action}
    (external : action.external env.self = true) (ran : perform env world action = .ok after) :
    Step env world action after := by
  cases action with
  | custody msg call =>
    simp only [perform, bind_ok, mapError_ok, pure_ok] at ran
    obtain ⟨custody, called, rfl⟩ := ran
    exact .custody (by simpa [Action.external] using external) called
  | exchange msg call => exact .exchange (by simpa [Action.external] using external) ran
  | others =>
    cases ran
    exact .ctf

end Omniscient.SettlementExchange

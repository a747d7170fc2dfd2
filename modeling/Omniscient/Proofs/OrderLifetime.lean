import Omniscient.Proofs.CustodySolvency
import Omniscient.Proofs.SettlementCalls

/-! The life of a signed order on chain. Its filled amount is the exact sum of
its settled fills, bounded by its amount, and closed by a cancellation. -/

namespace Omniscient.SettlementExchange
open Outcome

variable {σ κ : Type} {env : Env σ κ} {world after start middle final : World σ κ} {action : Action}
  {earlier later : List Action}

def Action.entries : Action → List Entry
  | .exchange _ (.settleBatch _ orders fills isMaker) => entriesOf orders fills isMaker
  | _ => []

def settledFor (order : Order) (trace : List Action) : Nat :=
  ((trace.flatMap Action.entries).map fun entry => if entry.order = order then entry.fill.toNat else 0).sum

/-- No other order of the history has the hash of this one. -/
def CollisionFree (env : Env σ κ) (order : Order) (trace : List Action) : Prop :=
  ∀ entry ∈ trace.flatMap Action.entries, hashOrder env entry.order = hashOrder env order → entry.order = order

def hashTotal (env : Env σ κ) (hash : Bytes32) (entries : List Entry) : Nat :=
  (entries.map fun entry => if hashOrder env entry.order = hash then entry.fill.toNat else 0).sum

theorem Action.entries_of_storageOnly {msg : Message} {call : Call} (kind : call.storageOnly = true) :
    (Action.exchange msg call).entries = [] := by
  cases call <;> first | rfl | cases kind

/-- What a step does to the storage of the exchange, apart from a settlement. -/
theorem Step.kept (moved : Step env world action after) :
    (∃ msg batchId orders fills isMaker, action = .exchange msg (.settleBatch batchId orders fills isMaker) ∧
      BatchSettled env msg batchId (entriesOf orders fills isMaker) world after) ∨
    (action.entries = [] ∧ StorageKept world.exchange after.exchange) := by
  have same : StorageKept world.exchange world.exchange := ⟨rfl, fun _ => BitVec.le_refl _, id, id⟩
  cases moved with
  | custody => exact .inr ⟨rfl, same⟩
  | usdc => exact .inr ⟨rfl, same⟩
  | ctf => exact .inr ⟨rfl, same⟩
  | @exchange msg call _ _ ran =>
    by_cases kind : call.storageOnly = true
    · exact .inr ⟨Action.entries_of_storageOnly kind, (storageOnly_ok kind ran).2.2⟩
    · cases call with
      | settleBatch batchId orders fills isMaker =>
        exact .inl ⟨msg, batchId, orders, fills, isMaker, rfl, settleBatch_ok ran⟩
      | withdrawFees =>
        obtain ⟨-, custody, -, -, unchanged, -⟩ := withdrawFees_ok ran
        exact .inr ⟨rfl, unchanged ▸ same⟩
      | _ => exact absurd rfl kind

theorem Step.filled (moved : Step env world action after) (hash : Bytes32) :
    (after.exchange.filledAmount hash).toNat =
      (world.exchange.filledAmount hash).toNat + hashTotal env hash action.entries := by
  rcases moved.kept with ⟨msg, batchId, orders, fills, isMaker, rfl, batch⟩ | ⟨none, kept⟩
  · exact batch.filled hash
  · simp [none, kept.filledAmount, hashTotal]

theorem Step.nonces (moved : Step env world action after) (maker : Address) :
    world.exchange.nonces maker ≤ after.exchange.nonces maker := by
  rcases moved.kept with ⟨msg, batchId, orders, fills, isMaker, rfl, batch⟩ | ⟨-, kept⟩
  · rw [batch.exchange]
    exact BitVec.le_refl _
  · exact kept.nonces maker

theorem Step.frozen (moved : Step env world action after) {order : Order}
    (single : CollisionFree env order [action]) (cancelled : order.nonce < world.exchange.nonces order.maker) :
    after.exchange.filledAmount (hashOrder env order) = world.exchange.filledAmount (hashOrder env order) := by
  rcases moved.kept with ⟨msg, batchId, orders, fills, isMaker, rfl, batch⟩ | ⟨-, kept⟩
  · have none : hashTotal env (hashOrder env order) (entriesOf orders fills isMaker) = 0 := by
      rw [hashTotal, List.sum_eq_zero_iff_forall_eq_nat]
      intro amount listed
      obtain ⟨entry, member, rfl⟩ := List.mem_map.mp listed
      split
      next same =>
        have this := single entry (by simpa [Action.entries] using member) same
        by_contra filled
        obtain ⟨-, -, -, current, -⟩ := batch.settled entry member (fun zero => filled (by simp [zero]))
        rw [this] at current
        rw [current] at cancelled
        exact BitVec.lt_irrefl _ cancelled
      next => rfl
    exact BitVec.eq_of_toNat_eq (by rw [batch.filled, ← hashTotal, none, add_zero])
  · rw [kept.filledAmount]

theorem Step.within (moved : Step env world action after) {order : Order}
    (single : CollisionFree env order [action])
    (within : world.exchange.filledAmount (hashOrder env order) ≤ order.amount) :
    after.exchange.filledAmount (hashOrder env order) ≤ order.amount := by
  rcases moved.kept with ⟨msg, batchId, orders, fills, isMaker, rfl, batch⟩ | ⟨-, kept⟩
  · exact batch.within order (fun entry member => single entry (by simpa [Action.entries] using member)) within
  · rwa [kept.filledAmount]

theorem CollisionFree.of_append {order : Order} (single : CollisionFree env order (earlier ++ later)) :
    CollisionFree env order earlier ∧ CollisionFree env order later := by
  constructor <;> intro entry member same <;> refine single entry ?_ same <;> simp_all

theorem filled_run (run : Run (Step env) start earlier middle) (hash : Bytes32) :
    (middle.exchange.filledAmount hash).toNat =
      (start.exchange.filledAmount hash).toNat + hashTotal env hash (earlier.flatMap Action.entries) := by
  have total := run.accounts (fun world => (world.exchange.filledAmount hash).toNat)
    (fun action => hashTotal env hash action.entries) (fun _ _ _ _ _ moved => moved.filled hash)
  rw [total]
  simp only [hashTotal, List.map_flatMap]
  rw [List.flatMap_def, List.sum_flatten, List.map_map, Function.comp_def]

private theorem hashTotal_eq_settledFor {order : Order} (single : CollisionFree env order earlier) :
    hashTotal env (hashOrder env order) (earlier.flatMap Action.entries) = settledFor order earlier := by
  rw [hashTotal, settledFor]
  congr 1
  apply List.map_congr_left
  intro entry member
  by_cases same : entry.order = order
  · simp [same]
  · rw [if_neg same, if_neg (fun collides => same (single entry member collides))]

private theorem within_run (run : Run (Step env) start earlier middle) {order : Order}
    (single : CollisionFree env order earlier)
    (initial : start.exchange.filledAmount (hashOrder env order) ≤ order.amount) :
    middle.exchange.filledAmount (hashOrder env order) ≤ order.amount := by
  refine run.invariant (fun trace world => CollisionFree env order trace →
    world.exchange.filledAmount (hashOrder env order) ≤ order.amount) (fun _ => initial) ?_ single
  intro trace world action after _ before moved single
  exact moved.within single.of_append.2 (before single.of_append.1)

private theorem frozen_run (run : Run (Step env) middle later final) {order : Order}
    (single : CollisionFree env order later) (cancelled : order.nonce < middle.exchange.nonces order.maker) :
    final.exchange.filledAmount (hashOrder env order) = middle.exchange.filledAmount (hashOrder env order) := by
  have both := run.invariant (fun trace world => CollisionFree env order trace →
    order.nonce < world.exchange.nonces order.maker ∧
      world.exchange.filledAmount (hashOrder env order) = middle.exchange.filledAmount (hashOrder env order))
    (fun _ => ⟨cancelled, rfl⟩) (by
      intro trace world action after _ before moved single
      obtain ⟨spent, same⟩ := before single.of_append.1
      exact ⟨Nat.lt_of_lt_of_le spent (moved.nonces _), (moved.frozen single.of_append.2 spent).trans same⟩)
  exact (both single).2

/-- In every run from a fresh exchange, an order's filled amount is the sum of
its fills so far, at most its amount, never lowered, and final once the maker's
nonce is past the order's. -/
theorem order_lifetime {deployer : Address} (deployed : start.exchange = deploy deployer)
    (past : Run (Step env) start earlier middle) (future : Run (Step env) middle later final) (order : Order)
    (single : CollisionFree env order (earlier ++ later)) :
    (middle.exchange.filledAmount (hashOrder env order)).toNat = settledFor order earlier ∧
    middle.exchange.filledAmount (hashOrder env order) ≤ order.amount ∧
    middle.exchange.filledAmount (hashOrder env order) ≤ final.exchange.filledAmount (hashOrder env order) ∧
    (order.nonce < middle.exchange.nonces order.maker →
      final.exchange.filledAmount (hashOrder env order) = middle.exchange.filledAmount (hashOrder env order)) := by
  obtain ⟨before, behind⟩ := single.of_append
  have empty : start.exchange.filledAmount (hashOrder env order) = 0 := by rw [deployed]; rfl
  refine ⟨?_, within_run past before (empty ▸ Nat.zero_le _), ?_, frozen_run future behind⟩
  · rw [filled_run past, empty, hashTotal_eq_settledFor before]
    exact Nat.zero_add _
  · rw [BitVec.le_def, filled_run future]
    exact Nat.le_add_right _ _

namespace Sample

def crypto : Crypto where
  keccak256 bytes := bytes.foldl (fun hash byte => hash * 257 + byte.toNat) 1
  recover _ signature := some (BitVec.ofNat 160 (signature.headD 0).toNat)

/-- The exchange at address 9, run by account 1, where account 5 bids and account 6 asks. -/
def market : Env Erc20.State Erc1155.State where
  custody := { Custody.Sample.vault with crypto }
  ctf := Erc1155.token
  self := 9

def opened : World Erc20.State Erc1155.State where
  custody := { Custody.Sample.start with usdc := { balances := fun _ => 100, allowance := fun _ _ => 100 } }
  exchange := deploy 1
  ctf := { balances := fun account _ => if account = 9 then 0 else 100, approved := fun _ _ => true }

def order (maker : Address) (price amount : Uint256) (side : UInt8) : Order where
  salt := 0
  maker
  positionId := 3
  price
  amount
  side
  nonce := 0
  deadline := 5000

def bid : SignedOrder := ⟨order 5 500000 10 0, [5]⟩
def ask : SignedOrder := ⟨order 6 500000 20 1, [6]⟩

def opening : List Action := [
  .custody ⟨1, 2000⟩ (.grantRole .settlement 9),
  .custody ⟨5, 2000⟩ (.deposit 50),
  .exchange ⟨1, 2000⟩ (.grantRole .operator 1),
  .exchange ⟨1, 2000⟩ (.setFeeRates 100 50)]

def day : List Action := opening ++ [.exchange ⟨1, 2001⟩ (.settleBatch 1 [bid, ask] [10, 10] [false, true])]

def cancellation : List Action := [.exchange ⟨6, 2002⟩ .cancelAllOrders]

theorem performed {world final : World Erc20.State Erc1155.State} {actions : List Action}
    (ran : each (perform market) world actions = .ok final)
    (external : actions.all (Action.external market.self) = true) : Run (Step market) world actions final := by
  apply Run.of_each ran
  intro state action after member once
  exact perform_step (List.all_eq_true.mp external action member) once

end Sample

/-- The hypotheses meet: half of the ask is filled, and then it is cancelled. -/
theorem order_lifetime_sample : ∃ middle final, Run (Step Sample.market) Sample.opened Sample.day middle ∧
    Run (Step Sample.market) middle Sample.cancellation final ∧
    (middle.exchange.filledAmount (hashOrder Sample.market Sample.ask.order)).toNat = 10 ∧
    middle.exchange.filledAmount (hashOrder Sample.market Sample.ask.order) ≤
      final.exchange.filledAmount (hashOrder Sample.market Sample.ask.order) := by
  obtain ⟨middle, traded, cancels⟩ := returns_iff.mp (show returns
    (each (perform Sample.market) Sample.opened Sample.day) (fun middle => returns
      (each (perform Sample.market) middle Sample.cancellation) fun _ => true) = true by decide +kernel)
  obtain ⟨final, cancelled, -⟩ := returns_iff.mp cancels
  have past := Sample.performed traded (by decide)
  have future := Sample.performed cancelled (by decide)
  have single : CollisionFree Sample.market Sample.ask.order (Sample.day ++ Sample.cancellation) := by
    unfold CollisionFree
    decide +kernel
  obtain ⟨total, -, grown, -⟩ := order_lifetime rfl past future Sample.ask.order single
  exact ⟨middle, final, past, future, total, grown⟩

end Omniscient.SettlementExchange

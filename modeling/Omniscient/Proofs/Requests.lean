import Mathlib.Algebra.Order.Ring.Int
import Mathlib.Tactic.Linarith
import Omniscient.Service

/-! What the requests and the result processor perform: operations of which kind,
and in which order. A request that accepts an order reserves, inserts, holds and
sends, and gives back what it reserved where it stops before the insert. -/

namespace Omniscient.Gateway
open Outcome

variable {allowed : Operation → Prop}

theorem execute_only {statement : Statement} (allows : allowed (.execute statement)) :
    (execute statement).run.Only allowed :=
  Program.only_bind ((Program.only_request _).mpr allows) fun _ => Program.only_pure _

theorem statement_only {statement : Statement} (allows : allowed (.execute statement)) :
    (execute statement >>= fun _ => pure ()).run.Only allowed :=
  Program.only_seq (execute_only allows) fun _ => Program.only_pure _

theorem labelled_only {label : String} {attempt : ExceptT String Effect Unit} (only : attempt.run.Only allowed) :
    (labelled label attempt).run.Only allowed :=
  Program.only_bind only fun _ => Program.only_pure _

theorem compensated_only {label : String} {attempt compensation : ExceptT String Effect Unit}
    (only : attempt.run.Only allowed) (repair : compensation.run.Only allowed) :
    (compensated label attempt compensation).run.Only allowed := by
  apply Program.only_bind only
  intro result
  cases result with
  | ok value => exact Program.only_pure _
  | error error => exact Program.only_bind repair fun _ => Program.only_pure _

theorem enqueue_only {command : MatchCommand} (allows : allowed (.trySend command)) : (enqueue command).run.Only allowed :=
  Program.only_bind ((Program.only_request _).mpr allows) fun _ => Program.only_pure _

theorem reserveCollateral_only {maker : Address} {assetType : AssetType} {positionId : Option Uint256} {amount : UInt64}
    (allows : allowed (.execute (.reserveCollateral ⟨maker, assetType, positionId⟩ (i64OrZero amount)))) :
    (reserveCollateral maker assetType positionId amount).run.Only allowed := by
  refine Program.only_seq (execute_only allows) fun affected => ?_
  split
  next => exact Program.only_throw _
  next => exact Program.only_pure _

theorem i64OrZero_lt (value : UInt64) : i64OrZero value < 2 ^ 63 := by
  unfold i64OrZero
  split <;> omega

def Statement.Requested : Statement → Prop
  | .insertOrder values => values.amount < 2 ^ 63
  | .updateOrderFilled .. => False
  | _ => True

def SignedOrder.command (signed : SignedOrder) (marketId : MarketId) (orderId : OrderId) : MatchCommand :=
  .placeOrder marketId signed.order.positionId orderId signed.order.maker signed.order.price signed.order.amount
    signed.order.side signed.order.nonce signed.order.deadline

theorem validateSignedOrder_ok {crypto : Crypto} {config : AppConfig} {now : UInt64} {signed : SignedOrder}
    {maker : Address} (valid : validateSignedOrder crypto config now signed = .ok maker) :
    maker = signed.order.maker ∧ 0 < signed.order.price ∧ signed.order.price ≤ PRICE_SCALE ∧ 0 < signed.order.amount := by
  simp only [validateSignedOrder, bind_ok, revertIf_ok, pure_ok, not_or] at valid
  obtain ⟨-, -, -, ⟨priced, small⟩, -, some_, -, -, -, -, rfl⟩ := valid
  exact ⟨rfl, UInt64.pos_iff_ne_zero.mpr priced, UInt64.not_lt.mp small, UInt64.pos_iff_ne_zero.mpr some_⟩

section
variable {crypto : Crypto} {config : AppConfig} {now : UInt64} {orderId : OrderId} {signed : SignedOrder}
  {marketId : MarketId}

/-- What accepting an order performs: statements of its own, and the placement of a
valid order. -/
theorem acceptOrder_only (statements : ∀ statement : Statement, statement.Requested → allowed (.execute statement))
    (places : ∀ maker, validateSignedOrder crypto config now signed = .ok maker →
      allowed (.trySend (signed.command marketId orderId))) :
    (acceptOrder crypto config now orderId signed marketId).run.Only allowed := by
  unfold acceptOrder
  cases valid : validateSignedOrder crypto config now signed with
  | error error => exact Program.only_throw _
  | ok maker =>
    obtain ⟨rfl, -⟩ := validateSignedOrder_ok valid
    apply Program.only_ok.mpr
    refine Program.only_seq (labelled_only (statement_only (statements _ trivial))) fun _ => ?_
    refine Program.only_seq (labelled_only (reserveCollateral_only (statements _ trivial))) fun _ => ?_
    refine Program.only_seq (compensated_only (statement_only (statements _ (i64OrZero_lt _)))
      (statement_only (statements _ trivial))) fun _ => ?_
    refine Program.only_seq (compensated_only (statement_only (statements _ trivial))
      (statement_only (statements _ trivial))) fun _ => ?_
    exact Program.only_seq (enqueue_only (places _ valid)) fun _ => Program.only_pure _

end

theorem cancelOrder_only {orderId : OrderId} {positionId : Uint256}
    (statements : ∀ statement : Statement, statement.Requested → allowed (.execute statement))
    (cancels : allowed (.trySend (.cancelOrder positionId orderId))) :
    (cancelOrder orderId positionId).run.Only allowed :=
  Program.only_seq (enqueue_only cancels) fun _ => labelled_only (statement_only (statements _ trivial))

theorem processMatchResult_only {result : MatchResult} (publishes : ∀ event, allowed (.publish event))
    (updates : ∀ fill ∈ result.fills, ∀ orderId status,
      allowed (.execute (.updateOrderFilled orderId (i64OrZero fill.amount) status))) :
    (processMatchResult result).Only allowed := by
  apply Program.only_forM
  intro fill member
  apply Program.only_bind ((Program.only_request _).mpr (publishes _))
  intro _
  refine Program.only_bind (statement_only (updates fill member _ _)) fun _ => ?_
  exact Program.only_bind (statement_only (updates fill member _ _)) fun _ => Program.only_pure _

def balanceKey (maker : Address) (side : OrderSide) (positionId : Uint256) : BalanceKey :=
  match side with
  | .buy => ⟨maker, .usdc, none⟩
  | .sell => ⟨maker, .ctf, some positionId⟩

def collateral (side : OrderSide) (price quantity : Int) : Int :=
  match side with
  | .buy => (quantity * price + 999999) / 1000000
  | .sell => quantity

def OrderValues.key (values : OrderValues) : BalanceKey := balanceKey values.maker values.side values.positionId

def OrderValues.collateral (values : OrderValues) : Int := Gateway.collateral values.side values.price values.amount

inductive Stage where
  | idle
  | reserved (key : BalanceKey) (amount : Int)
  | inserted (values : OrderValues)
  | abandoned (key : BalanceKey) (amount : Int)

inductive Stage.Ready : Stage → Operation → Prop where
  | ensure {maker : Address} : Ready .idle (.execute (.ensureUser maker))
  | reserve {key : BalanceKey} {amount : Int} (enough : 0 ≤ amount) :
      Ready .idle (.execute (.reserveCollateral key amount))
  | insert {key : BalanceKey} {amount : Int} {values : OrderValues}
      (backed : 0 < values.amount → values.key = key ∧ values.collateral = amount) :
      Ready (.reserved key amount) (.execute (.insertOrder values))
  | release {key : BalanceKey} {amount : Int} :
      Ready (.reserved key amount) (.execute (.releaseCollateral key amount))
  | hold {values : OrderValues} {key : BalanceKey} {amount : Int} (own : key.userAddress = values.maker)
      (positive : 0 < amount) : Ready (.inserted values) (.execute (.insertHold values.orderId key amount))
  | repair {key : BalanceKey} {amount : Int} :
      Ready (.abandoned key amount) (.execute (.releaseCollateral key amount))
  | place {values : OrderValues} {marketId : MarketId} {maker : Address} {price amount : UInt64} {side : OrderSide}
      {nonce deadline : UInt64} : Ready (.inserted values)
        (.trySend (.placeOrder marketId values.positionId values.orderId maker price amount side nonce deadline))
  | cancel {positionId : Uint256} {orderId : OrderId} : Ready .idle (.trySend (.cancelOrder positionId orderId))
  | close {orderId : OrderId} : Ready .idle (.execute (.cancelOrderDb orderId))

inductive Stage.Moves : Stage → (operation : Operation) → operation.Answer → Stage → Prop where
  | ensured {maker : Address} {answer : Except String Nat} : Moves .idle (.execute (.ensureUser maker)) answer .idle
  | reserved {key : BalanceKey} {amount : Int} {affected : Nat} (affects : affected ≠ 0) :
      Moves .idle (.execute (.reserveCollateral key amount)) (.ok affected) (.reserved key amount)
  | short {key : BalanceKey} {amount : Int} :
      Moves .idle (.execute (.reserveCollateral key amount)) (.ok 0) .idle
  | unreserved {key : BalanceKey} {amount : Int} {error : String} :
      Moves .idle (.execute (.reserveCollateral key amount)) (.error error) .idle
  | inserted {key : BalanceKey} {amount : Int} {values : OrderValues} {affected : Nat}
      (priced : 0 < values.price) (positive : 0 < values.amount) :
      Moves (.reserved key amount) (.execute (.insertOrder values)) (.ok affected) (.inserted values)
  | refused {key : BalanceKey} {amount : Int} {values : OrderValues} {error : String} :
      Moves (.reserved key amount) (.execute (.insertOrder values)) (.error error) (.reserved key amount)
  | released {key : BalanceKey} {amount : Int} {answer : Except String Nat} :
      Moves (.reserved key amount) (.execute (.releaseCollateral key amount)) answer .idle
  | held {values : OrderValues} {orderId : OrderId} {key : BalanceKey} {amount : Int} {affected : Nat} :
      Moves (.inserted values) (.execute (.insertHold orderId key amount)) (.ok affected) (.inserted values)
  | unheld {values : OrderValues} {orderId : OrderId} {key : BalanceKey} {amount : Int} {error : String} :
      Moves (.inserted values) (.execute (.insertHold orderId key amount)) (.error error) (.abandoned key amount)
  | repaired {key : BalanceKey} {amount : Int} {answer : Except String Nat} :
      Moves (.abandoned key amount) (.execute (.releaseCollateral key amount)) answer .idle
  | sent {values : OrderValues} {command : MatchCommand} {answer : Bool} :
      Moves (.inserted values) (.trySend command) answer .idle
  | cancelled {command : MatchCommand} {answer : Bool} : Moves .idle (.trySend command) answer .idle
  | closed {orderId : OrderId} {answer : Except String Nat} :
      Moves .idle (.execute (.cancelOrderDb orderId)) answer .idle

abbrev Keeps {α : Type} (stage : Stage) (attempt : ExceptT String Effect α) (returned : Stage → Prop)
    (failed : Stage → Prop) : Prop :=
  attempt.run.Follows Stage.Ready Stage.Moves (Program.either (fun _ => returned) fun _ => failed) stage

section
variable {γ : Type} {ready : γ → Operation → Prop} {moves : γ → (operation : Operation) → operation.Answer → γ → Prop}
  {statement : Statement} {label : String} {attempt compensation : ExceptT String Effect Unit} {stage : γ}
  {returned broken failed : γ → Prop}

theorem execute_follows (now : ready stage (.execute statement))
    (ok : ∀ affected after, moves stage (.execute statement) (.ok affected) after → returned after)
    (error : ∀ error after, moves stage (.execute statement) (.error error) after → failed after) :
    (execute statement).run.Follows ready moves (Program.either (fun _ => returned) fun _ => failed) stage := by
  apply Program.follows_bind
  apply Program.follows_request now
  intro answer after moved
  cases answer with
  | ok affected => exact ok affected after moved
  | error text => exact error text after moved

theorem statement_follows
    (follows : (execute statement).run.Follows ready moves (Program.either (fun _ => returned) fun _ => failed) stage) :
    (execute statement >>= fun _ => pure ()).run.Follows ready moves
      (Program.either (fun _ => returned) fun _ => failed) stage :=
  Program.follows_seq follows fun _ _ reached => reached

theorem labelled_follows
    (follows : attempt.run.Follows ready moves (Program.either (fun _ => returned) fun _ => failed) stage) :
    (labelled label attempt).run.Follows ready moves (Program.either (fun _ => returned) fun _ => failed) stage := by
  apply Program.follows_bind
  apply follows.weaken
  intro result stage reached
  cases result with
  | ok value => exact reached
  | error error => exact reached

theorem compensated_follows
    (follows : attempt.run.Follows ready moves (Program.either (fun _ => returned) fun _ => broken) stage)
    (repairs : ∀ stage, broken stage →
      compensation.run.Follows ready moves (Program.either (fun _ => failed) fun _ => failed) stage) :
    (compensated label attempt compensation).run.Follows ready moves
      (Program.either (fun _ => returned) fun _ => failed) stage := by
  apply Program.follows_bind
  apply follows.weaken
  intro result stage reached
  cases result with
  | ok value => exact reached
  | error error =>
    apply Program.follows_bind
    apply (repairs stage reached).weaken
    intro result stage reached
    cases result with
    | ok value => exact reached
    | error error => exact reached

end

theorem enqueue_keeps {command : MatchCommand} {stage : Stage} (ready : stage.Ready (.trySend command)) :
    Keeps stage (enqueue command) (· = .idle) (· = .idle) := by
  apply Program.follows_bind
  apply Program.follows_request ready
  intro sent after moved
  have idle : after = .idle := by cases moved <;> rfl
  cases sent with
  | true => exact idle
  | false => exact idle

theorem i64OrZero_nonneg (value : UInt64) : 0 ≤ i64OrZero value := by
  unfold i64OrZero
  split <;> omega

theorem i64OrZero_pos {value : UInt64} (positive : 0 < i64OrZero value) : i64OrZero value = value.toNat := by
  by_cases small : value.toNat < 2 ^ 63
  · exact if_pos small
  · simp only [i64OrZero, if_neg small, lt_irrefl] at positive

theorem collateral_pos {side : OrderSide} {price quantity : Int} (priced : 0 < price) (positive : 0 < quantity) :
    0 < collateral side price quantity := by
  have volume : 0 < quantity * price := Int.mul_pos positive priced
  cases side with
  | buy =>
    simp only [collateral]
    omega
  | sell => exact positive

/-- A price of at most one makes the collateral no more than the amount, so it fits. -/
theorem requiredCollateral_le {order : Order} (priced : order.price ≤ PRICE_SCALE) :
    order.requiredCollateral ≤ order.amount.toNat := by
  have price : order.price.toNat ≤ 1000000 := UInt64.le_iff_toNat_le.mp priced
  have volume : order.amount.toNat * order.price.toNat ≤ order.amount.toNat * 1000000 := Nat.mul_le_mul_left _ price
  unfold Order.requiredCollateral
  cases order.side with
  | buy =>
    simp only []
    omega
  | sell => exact le_refl _

theorem backed_collateral {order : Order} (priced : order.price ≤ PRICE_SCALE)
    (positive : 0 < i64OrZero order.amount) : i64OrZero (.ofNat order.requiredCollateral) =
      collateral order.side (i64OrZero order.price) (i64OrZero order.amount) := by
  have bound := requiredCollateral_le priced
  have price : order.price.toNat ≤ 1000000 := UInt64.le_iff_toNat_le.mp priced
  have amount := i64OrZero_pos positive
  have small : order.amount.toNat < 2 ^ 63 := by
    have := i64OrZero_lt order.amount
    omega
  have read : i64OrZero order.price = order.price.toNat := by
    unfold i64OrZero
    rw [if_pos (by omega)]
  have fits : (UInt64.ofNat order.requiredCollateral).toNat = order.requiredCollateral :=
    UInt64.toNat_ofNat_of_lt' (by simp only [UInt64.size]; omega)
  rw [amount, read]
  unfold i64OrZero
  rw [fits, if_pos (by omega)]
  unfold Order.requiredCollateral collateral
  cases order.side with
  | buy => push_cast; rfl
  | sell => rfl

theorem order_key (order : Order) : (⟨order.maker, order.assetType,
    if order.assetType = .ctf then some order.positionId else none⟩ : BalanceKey) =
      balanceKey order.maker order.side order.positionId := by
  unfold Order.assetType balanceKey
  cases order.side <;> rfl

theorem ensureUser_keeps {maker : Address} : Keeps .idle (ensureUser maker) (· = .idle) (· = .idle) := by
  apply statement_follows
  apply execute_follows .ensure
  · intro affected after moved
    cases moved
    rfl
  · intro error after moved
    cases moved
    rfl

theorem reserveCollateral_keeps {maker : Address} {assetType : AssetType} {positionId : Option Uint256} {amount : UInt64} :
    Keeps .idle (reserveCollateral maker assetType positionId amount)
      (· = .reserved ⟨maker, assetType, positionId⟩ (i64OrZero amount)) (· = .idle) := by
  have start : (execute (.reserveCollateral ⟨maker, assetType, positionId⟩ (i64OrZero amount))).run.Follows
      Stage.Ready Stage.Moves (Program.either
        (fun affected stage => affected = 0 ∧ stage = .idle ∨
          affected ≠ 0 ∧ stage = .reserved ⟨maker, assetType, positionId⟩ (i64OrZero amount))
        fun _ stage => stage = .idle) .idle := by
    apply Program.follows_bind
    apply Program.follows_request (.reserve (i64OrZero_nonneg _))
    intro answer after moved
    cases moved with
    | reserved affects => exact .inr ⟨affects, rfl⟩
    | short => exact .inl ⟨rfl, rfl⟩
    | unreserved => exact rfl
  refine Program.follows_seq start fun affected stage reached => ?_
  rcases reached with ⟨none, idle⟩ | ⟨affects, reserved⟩
  · rw [if_pos none]
    exact idle
  · rw [if_neg affects]
    exact reserved

theorem releaseCollateral_keeps {stage : Stage} {maker : Address} {assetType : AssetType} {positionId : Option Uint256}
    {amount : UInt64}
    (ready : stage.Ready (.execute (.releaseCollateral ⟨maker, assetType, positionId⟩ (i64OrZero amount)))) :
    Keeps stage (releaseCollateral maker assetType positionId amount) (· = .idle) (· = .idle) := by
  apply statement_follows
  apply execute_follows ready
  · intro affected after moved
    cases moved <;> rfl
  · intro error after moved
    cases moved <;> rfl

theorem insertOrder_keeps {key : BalanceKey} {amount : Int} {values : OrderValues}
    (backed : 0 < values.amount → values.key = key ∧ values.collateral = amount) :
    Keeps (.reserved key amount) (execute (.insertOrder values) >>= fun _ => pure ())
      (fun stage => stage = .inserted values ∧ 0 < values.price ∧ 0 < values.amount) (· = .reserved key amount) := by
  apply statement_follows
  apply execute_follows (.insert backed)
  · intro affected after moved
    cases moved with
    | inserted priced positive => exact ⟨rfl, priced, positive⟩
  · intro error after moved
    cases moved
    rfl

theorem insertHold_keeps {values : OrderValues} {key : BalanceKey} {amount : Int} (own : key.userAddress = values.maker)
    (positive : 0 < amount) : Keeps (.inserted values) (execute (.insertHold values.orderId key amount) >>= fun _ => pure ())
      (· = .inserted values) (· = .abandoned key amount) := by
  apply statement_follows
  apply execute_follows (.hold own positive)
  · intro affected after moved
    cases moved
    rfl
  · intro error after moved
    cases moved
    rfl

section
variable {crypto : Crypto} {config : AppConfig} {now : UInt64} {orderId : OrderId} {signed : SignedOrder}
  {marketId : MarketId}

def SignedOrder.values (signed : SignedOrder) (marketId : MarketId) (orderId : OrderId) : OrderValues where
  orderId
  maker := signed.order.maker
  marketId
  side := signed.order.side
  price := i64OrZero signed.order.price
  amount := i64OrZero signed.order.amount
  nonce := i64OrZero signed.order.nonce
  salt := signed.order.salt
  positionId := signed.order.positionId
  signature := signed.signature
  deadline := i64OrZero signed.order.deadline

theorem acceptOrder_keeps : Keeps .idle (acceptOrder crypto config now orderId signed marketId)
    (· = .idle) (· = .idle) := by
  unfold acceptOrder
  cases valid : validateSignedOrder crypto config now signed with
  | error error => exact rfl
  | ok maker =>
    obtain ⟨rfl, -, bounded, -⟩ := validateSignedOrder_ok valid
    let values := signed.values marketId orderId
    have backed (positive : 0 < values.amount) := (backed_collateral bounded positive).symm
    apply Program.follows_ok.mpr
    refine Program.follows_seq (labelled_follows ensureUser_keeps) fun _ stage reached => ?_
    subst reached
    refine Program.follows_seq (labelled_follows reserveCollateral_keeps) fun _ stage reached => ?_
    subst reached
    have inserts := @insertOrder_keeps _ _ values fun positive => ⟨(order_key signed.order).symm, backed positive⟩
    refine Program.follows_seq (compensated_follows inserts fun stage reached =>
      reached ▸ releaseCollateral_keeps .release) fun _ stage reached => ?_
    obtain ⟨rfl, priced, positive⟩ := reached
    have held : 0 < i64OrZero (.ofNat signed.order.requiredCollateral) := backed positive ▸ collateral_pos priced positive
    have holds := @insertHold_keeps values ⟨signed.order.maker, signed.order.assetType,
      if signed.order.assetType = .ctf then some signed.order.positionId else none⟩ _ rfl held
    refine Program.follows_seq (compensated_follows holds fun stage reached =>
      reached ▸ releaseCollateral_keeps .repair) fun _ stage reached => ?_
    subst reached
    exact Program.follows_seq (enqueue_keeps (@Stage.Ready.place values ..)) fun _ _ reached => reached

theorem cancelOrder_keeps {positionId : Uint256} : Keeps .idle (cancelOrder orderId positionId)
    (· = .idle) (· = .idle) := by
  refine Program.follows_seq (enqueue_keeps .cancel) fun _ stage reached => ?_
  subst reached
  apply labelled_follows
  apply statement_follows
  apply execute_follows .close
  · intro affected after moved
    cases moved
    rfl
  · intro error after moved
    cases moved
    rfl

end

end Omniscient.Gateway

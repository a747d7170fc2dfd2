import Mathlib.Algebra.Order.Ring.Int
import Omniscient.Domain
import Omniscient.Proofs.SignedBalances

/-! What the gateway reserves for a buy, against what its fills cost on chain. The
reservation is one rounded product; every fill rounds its volume up again and
carries a fee or a rebate. -/

namespace Omniscient

/-- The gateway's order as the contract reads it. -/
def Gateway.Order.onChain (order : Gateway.Order) : SettlementExchange.Order where
  salt := order.salt
  maker := order.maker
  positionId := order.positionId
  price := BitVec.ofNat 256 order.price.toNat
  amount := BitVec.ofNat 256 order.amount.toNat
  side := UInt8.ofNat order.side.toByte
  nonce := BitVec.ofNat 256 order.nonce.toNat
  deadline := BitVec.ofNat 256 order.deadline.toNat

namespace SettlementExchange
open Outcome

variable {σ κ : Type} {env : Env σ κ} {start state : World σ κ} {trace : List (Record σ κ)} {entry : Entry}

theorem toNat_word (value : UInt64) : (BitVec.ofNat 256 value.toNat).toNat = value.toNat := by
  have bound := value.toNat_lt
  rw [BitVec.toNat_ofNat, Nat.mod_eq_of_lt (by omega)]

def constantRates : Rates := ⟨TAKER_FEE_BPS, MAKER_REBATE_BPS⟩

def fillsOf (order : Order) (trace : List (Record σ κ)) : List Entry :=
  (trace.flatMap fun record => record.action.entries).filter fun entry => entry.order = order ∧ entry.fill ≠ 0

/-- What the settlements of a record debit from the maker of one order for its fills. -/
def Record.debited (order : Order) (record : Record σ κ) : Int :=
  (record.action.entries.map fun entry =>
    if entry.order = order ∧ entry.fill ≠ 0 then -entry.booked record.world.exchange else 0).sum

def totalFill (fills : List Entry) : Nat := (fills.map fun entry => entry.fill.toNat).sum

def roundingLoss (entry : Entry) : Nat :=
  1000000 * exactVolume entry - entry.fill.toNat * entry.order.price.toNat

/-- The fees less the rebates of the fills, and what their roundings add, come to
less than the value of the unfilled part and one more unit, in millionths. -/
def FeesFit (order : Gateway.Order) (fills : List Entry) : Prop :=
  ((fills.map roundingLoss).sum : Int) + 1000000 * (fills.map (exactFee constantRates)).sum <
    (order.amount.toNat - totalFill fills : Int) * order.price.toNat + 1000000

theorem Recorded.booked {record : Record σ κ} {world after : World σ κ} (moved : Recorded env world record after)
    (rates : record.rates = constantRates) (member : entry ∈ record.action.entries) (filled : entry.fill ≠ 0) :
    entry.booked record.world.exchange = exactLeg constantRates entry := by
  obtain ⟨recordWorld, action⟩ := record
  obtain ⟨rfl, moved⟩ := moved
  rcases moved.kept with ⟨msg, batchId, orders, fills, isMaker, rfl, batch⟩ | ⟨none, -⟩
  · obtain ⟨leg, owed, -⟩ := batch.settled entry member filled
    obtain ⟨takerFee, makerRebate⟩ := Rates.mk.inj rates
    rw [Entry.booked, if_neg filled, owed, ← rates]
    apply leg_exact ?_ ?_ owed
    · rw [BitVec.le_def, takerFee]
      decide
    · rw [BitVec.le_def, makerRebate]
      decide
  · rw [none] at member
    cases member

theorem fillsOf_own {order : Order} (member : entry ∈ fillsOf order trace) : entry.order = order ∧ entry.fill ≠ 0 := by
  simpa using (List.mem_filter.mp member).2

private theorem fillsOf_append (order : Order) (earlier later : List (Record σ κ)) :
    fillsOf order (earlier ++ later) = fillsOf order earlier ++ fillsOf order later := by
  simp [fillsOf]

private theorem sum_selected {chosen : Entry → Prop} [DecidablePred chosen] {amount exact : Entry → Int}
    {entries : List Entry}
    (same : ∀ entry ∈ entries, chosen entry → amount entry = -exact entry) :
    (entries.map fun entry => if chosen entry then amount entry else 0).sum =
      -((entries.filter fun entry => chosen entry).map exact).sum := by
  induction entries with
  | nil => rfl
  | cons entry entries ih =>
    rw [List.map_cons, List.sum_cons, ih fun other member => same other (List.mem_cons_of_mem _ member)]
    by_cases own : chosen entry
    · rw [if_pos own, same entry List.mem_cons_self own, List.filter_cons_of_pos (by simpa using own),
        List.map_cons, List.sum_cons]
      omega
    · rw [if_neg own, List.filter_cons_of_neg (by simpa using own), zero_add]

theorem Recorded.debited {record : Record σ κ} {world after : World σ κ} (moved : Recorded env world record after)
    (order : Order) (rates : record.action.entries ≠ [] → record.rates = constantRates) :
    record.debited order = -((fillsOf order [record]).map (exactLeg constantRates)).sum := by
  have selected := @sum_selected (fun entry => entry.order = order ∧ entry.fill ≠ 0) _
    (fun entry => -entry.booked record.world.exchange) (exactLeg constantRates) record.action.entries
    fun entry member own => by rw [moved.booked (rates (List.ne_nil_of_mem member)) member own.2]
  simpa [Record.debited, fillsOf] using selected

private theorem debited_run (order : Order) (run : Run (Recorded env) start trace state)
    (rates : ∀ record ∈ trace, record.action.entries ≠ [] → record.rates = constantRates) :
    (trace.map (Record.debited order)).sum = -((fillsOf order trace).map (exactLeg constantRates)).sum := by
  refine run.invariant (fun trace _ => (∀ record ∈ trace, record.action.entries ≠ [] → record.rates = constantRates) →
    (trace.map (Record.debited order)).sum = -((fillsOf order trace).map (exactLeg constantRates)).sum)
    (fun _ => rfl) ?_ rates
  intro trace world record after _ earlier moved rates
  have before := earlier fun other member => rates other (List.mem_append_left _ member)
  have here := moved.debited order (rates record (List.mem_append_right _ List.mem_cons_self))
  rw [fillsOf_append, List.map_append, List.sum_append, List.map_append, List.sum_append, before, List.map_singleton,
    List.sum_singleton, here]
  omega

private theorem cost_scaled (buy : entry.order.side = 0) :
    1000000 * -exactLeg constantRates entry = entry.fill.toNat * entry.order.price.toNat + roundingLoss entry +
      1000000 * exactFee constantRates entry := by
  have up : entry.fill.toNat * entry.order.price.toNat ≤ 1000000 * exactVolume entry := by
    rw [exactVolume, if_pos buy, Nat.ceilDiv_eq_add_pred_div]
    omega
  rw [exactLeg, if_pos buy, roundingLoss]
  push_cast [up]
  omega

private theorem costs_scaled {order : Gateway.Order} {fills : List Entry} (buy : order.side = .buy)
    (own : ∀ entry ∈ fills, entry.order = order.onChain) :
    1000000 * -(fills.map (exactLeg constantRates)).sum =
      (totalFill fills : Int) * order.price.toNat + (fills.map roundingLoss).sum +
        1000000 * (fills.map (exactFee constantRates)).sum := by
  have price : order.onChain.price.toNat = order.price.toNat := toNat_word order.price
  induction fills with
  | nil => simp [totalFill]
  | cons entry fills ih =>
    have rest := ih fun other member => own other (List.mem_cons_of_mem _ member)
    have mine := own entry List.mem_cons_self
    have side : entry.order.side = 0 := by
      rw [mine, Gateway.Order.onChain, buy]
      rfl
    have first := cost_scaled side
    rw [mine, price] at first
    simp only [totalFill, List.map_cons, List.sum_cons, Nat.cast_add, add_mul] at rest ⊢
    omega

private theorem fees_fit_iff {order : Gateway.Order} (buy : order.side = .buy)
    (run : Run (Recorded env) start trace state)
    (rates : ∀ record ∈ trace, record.action.entries ≠ [] → record.rates = constantRates) :
    (trace.map (Record.debited order.onChain)).sum ≤ order.requiredCollateral ↔
      FeesFit order (fillsOf order.onChain trace) := by
  have own (entry : Entry) (member : entry ∈ fillsOf order.onChain trace) : entry.order = order.onChain :=
    (fillsOf_own member).1
  have costs := costs_scaled buy own
  rw [debited_run order.onChain run rates, Gateway.Order.requiredCollateral, buy, FeesFit, sub_mul]
  dsimp only
  omega

/-- What rounding a fill's value up to a unit adds to it, in millionths. -/
def addedByRounding (order : Gateway.Order) (entry : Entry) : Nat :=
  (1000000 - entry.fill.toNat * order.price.toNat % 1000000) % 1000000

/-- A maker's fill above 999 units is large enough for a rebate. -/
def LargeEnough (order : Gateway.Order) (entry : Entry) : Prop :=
  999000000 < entry.fill.toNat * order.price.toNat

instance (order : Gateway.Order) : DecidablePred (LargeEnough order) :=
  fun entry => inferInstanceAs (Decidable (999000000 < entry.fill.toNat * order.price.toNat))

/-- Every fill is as maker, and rounding adds to those too small for a rebate less than
the one unit by which the reservation itself is rounded. -/
structure Covered (order : Gateway.Order) (fills : List Entry) : Prop where
  makers : ∀ entry ∈ fills, entry.isMaker = true
  rounded : ((fills.filter fun entry => ¬ LargeEnough order entry).map (addedByRounding order)).sum < 1000000

private theorem Covered.of_few {order : Gateway.Order} {fills : List Entry}
    (makers : ∀ entry ∈ fills, entry.isMaker = true)
    (few : (fills.filter fun entry => ¬ LargeEnough order entry).length ≤ 1) : Covered order fills := by
  refine ⟨makers, ?_⟩
  rcases small : fills.filter fun entry => ¬ LargeEnough order entry with _ | ⟨entry, _ | ⟨other, more⟩⟩
  · simp
  · simp only [List.map_cons, List.map_nil, List.sum_cons, List.sum_nil, addedByRounding]
    omega
  · rw [small] at few
    simp at few

theorem volume_value {order : Gateway.Order} (buy : order.side = .buy) (own : entry.order = order.onChain) :
    exactVolume entry = (entry.fill.toNat * order.price.toNat) ⌈/⌉ 1000000 ∧
      roundingLoss entry = addedByRounding order entry := by
  have price : entry.order.price.toNat = order.price.toNat := by
    rw [own]
    exact toNat_word order.price
  have volume : exactVolume entry = (entry.fill.toNat * order.price.toNat) ⌈/⌉ 1000000 := by
    have side : entry.order.side = 0 := by
      rw [own, Gateway.Order.onChain, buy]
      rfl
    rw [exactVolume, if_pos side, price]
  refine ⟨volume, ?_⟩
  rw [roundingLoss, volume, price, addedByRounding, Nat.ceilDiv_eq_add_pred_div]
  omega

private theorem maker_costs {order : Gateway.Order} (buy : order.side = .buy) (own : entry.order = order.onChain)
    (maker : entry.isMaker = true) :
    roundingLoss entry + 1000000 * exactFee constantRates entry ≤
      if LargeEnough order entry then 0 else (addedByRounding order entry : Int) := by
  obtain ⟨volume, loss⟩ := volume_value buy own
  rw [exactFee, if_pos maker, volume, loss, constantRates, MAKER_REBATE_BPS, Nat.ceilDiv_eq_add_pred_div]
  dsimp only
  split
  next large =>
    rw [LargeEnough] at large
    rw [addedByRounding]
    omega
  next => omega

private theorem small_costs {order : Gateway.Order} (buy : order.side = .buy) (priced : 0 < order.price)
    (own : entry.order = order.onChain) (filled : entry.fill ≠ 0)
    (small : entry.isMaker = true → ¬ LargeEnough order entry) :
    (if entry.isMaker then (addedByRounding order entry : Int) else 1000000) ≤
      roundingLoss entry + 1000000 * exactFee constantRates entry := by
  obtain ⟨volume, loss⟩ := volume_value buy own
  rw [exactFee, volume, loss, constantRates, MAKER_REBATE_BPS, TAKER_FEE_BPS]
  dsimp only
  split
  next maker =>
    have below := small maker
    rw [LargeEnough] at below
    rw [Nat.ceilDiv_eq_add_pred_div]
    omega
  next =>
    have value : 0 < entry.fill.toNat * order.price.toNat :=
      Nat.mul_pos (by bv_omega) (UInt64.lt_iff_toNat_lt.mp priced)
    rw [Nat.ceilDiv_eq_add_pred_div, Nat.ceilDiv_eq_add_pred_div]
    omega

private theorem covered_fits {order : Gateway.Order} {fills : List Entry} (buy : order.side = .buy)
    (own : ∀ entry ∈ fills, entry.order = order.onChain) (within : totalFill fills ≤ order.amount.toNat)
    (covered : Covered order fills) : FeesFit order fills := by
  have costs : (fills.map roundingLoss).sum + 1000000 * (fills.map (exactFee constantRates)).sum ≤
      (((fills.filter fun entry => ¬ LargeEnough order entry).map (addedByRounding order)).sum : Int) := by
    have makers := covered.makers
    clear within covered
    induction fills with
    | nil => simp
    | cons entry fills ih =>
      have rest := ih (fun other member => own other (List.mem_cons_of_mem _ member))
        fun other member => makers other (List.mem_cons_of_mem _ member)
      have first := maker_costs buy (own entry List.mem_cons_self) (makers entry List.mem_cons_self)
      simp only [List.map_cons, List.sum_cons, Nat.cast_add, mul_add]
      by_cases large : LargeEnough order entry
      · rw [if_pos large] at first
        rw [List.filter_cons_of_neg (by simpa using large)]
        omega
      · rw [if_neg large] at first
        rw [List.filter_cons_of_pos (by simpa using large), List.map_cons, List.sum_cons]
        omega
  have unfilled : 0 ≤ (order.amount.toNat - totalFill fills : Int) * order.price.toNat :=
    mul_nonneg (by omega) (Int.natCast_nonneg _)
  have rounded := covered.rounded
  rw [FeesFit]
  omega

private theorem fits_covered {order : Gateway.Order} {fills : List Entry} (buy : order.side = .buy)
    (priced : 0 < order.price)
    (own : ∀ entry ∈ fills, entry.order = order.onChain ∧ entry.fill ≠ 0)
    (whole : totalFill fills = order.amount.toNat)
    (small : ∀ entry ∈ fills, entry.isMaker = true → ¬ LargeEnough order entry)
    (fit : FeesFit order fills) : Covered order fills := by
  have cost (entry : Entry) (member : entry ∈ fills) :=
    small_costs buy priced (own entry member).1 (own entry member).2 (small entry member)
  have total : (fills.map fun entry => if entry.isMaker then (addedByRounding order entry : Int) else 1000000).sum <
      1000000 := by
    refine (List.sum_le_sum cost).trans_lt ?_
    rw [FeesFit, whole, sub_self, zero_mul, zero_add, Nat.cast_list_sum, List.map_map] at fit
    rwa [List.sum_map_add, List.sum_map_mul_left]
  have cost_nonneg (entry : Entry) : (0 : Int) ≤ if entry.isMaker then (addedByRounding order entry : Int) else 1000000 := by
    split <;> omega
  have makers (entry : Entry) (member : entry ∈ fills) : entry.isMaker = true := by
    by_contra taker
    have below := List.single_le_sum (by simpa using fun entry _ => cost_nonneg entry) _ (List.mem_map_of_mem member)
    rw [if_neg taker] at below
    omega
  refine ⟨makers, ?_⟩
  have roundings : ((fills.map (addedByRounding order)).sum : Int) < 1000000 := by
    rw [Nat.cast_list_sum, List.map_map]
    rwa [List.map_congr_left fun entry member => if_pos (makers entry member)] at total
  have fewer := ((List.filter_sublist (p := fun entry => ¬ LargeEnough order entry) (l := fills)).map
    (addedByRounding order)).sum_le_sum fun _ _ => Nat.zero_le _
  omega

/-- Reserved collateral covers settlement for every run at the constant rates in which
the buy's fills are covered; where its whole amount is filled and no rebate is paid, in no
other. -/
theorem reserved_collateral {order : Gateway.Order} (buy : order.side = .buy) (priced : 0 < order.price)
    (run : Run (Recorded env) start trace state)
    (rates : ∀ record ∈ trace, record.action.entries ≠ [] → record.rates = constantRates)
    (within : totalFill (fillsOf order.onChain trace) ≤ order.amount.toNat) :
    (Covered order (fillsOf order.onChain trace) →
      (trace.map (Record.debited order.onChain)).sum ≤ order.requiredCollateral) ∧
    (totalFill (fillsOf order.onChain trace) = order.amount.toNat →
      (∀ entry ∈ fillsOf order.onChain trace, entry.isMaker = true → ¬ LargeEnough order entry) →
      (trace.map (Record.debited order.onChain)).sum ≤ order.requiredCollateral →
      Covered order (fillsOf order.onChain trace)) := by
  rw [fees_fit_iff buy run rates]
  exact ⟨covered_fits buy (fun _ member => (fillsOf_own member).1) within,
    fits_covered buy priced fun _ member => fillsOf_own member⟩

namespace Sample

def gatewayBid : Gateway.Order where
  salt := 0
  maker := 5
  positionId := 3
  price := 500000
  amount := 10
  side := .buy
  nonce := 0
  deadline := 5000

/-- The bid and the ask are settled at the constant rates; the bid is the maker or not. -/
def trade (bidMaker : Bool) : List Action :=
  opening ++ [.exchange ⟨1, 2000⟩ (.setFeeRates 50 10),
    .exchange ⟨1, 2001⟩ (.settleBatch 1 [bid, ask] [10, 10] [bidMaker, !bidMaker])]

abbrev History := List (Record Erc20.State Erc1155.State) × World Erc20.State Erc1155.State

def remember (history : History) (action : Action) : Except Error History := do
  let after ← perform market history.2 action
  return (history.1 ++ [⟨history.2, action⟩], after)

theorem remembered {history : History} {actions : List Action} (ran : each remember ([], opened) actions = .ok history)
    (external : actions.all (Action.external market.self) = true) :
    Run (Recorded market) opened history.1 history.2 := by
  refine each_keeps (fun history : History => Run (Recorded market) opened history.1 history.2) ran ?_ .start
  intro before action next member once run
  simp only [remember, bind_ok, pure_ok] at once
  obtain ⟨after, done, rfl⟩ := once
  exact run.next ⟨rfl, perform_step (List.all_eq_true.mp external action member) done⟩

def constantly (trace : List (Record Erc20.State Erc1155.State)) : Bool :=
  trace.all fun record => record.action.entries.isEmpty || decide (record.rates = constantRates)

theorem constantly_rates {trace : List (Record Erc20.State Erc1155.State)} (constant : constantly trace = true) :
    ∀ record ∈ trace, record.action.entries ≠ [] → record.rates = constantRates := by
  intro record member some_entries
  have each := List.all_eq_true.mp constant record member
  simpa [some_entries] using each

end Sample

/-- Ten shares at half a dollar, bought as taker: 5 is reserved and 6 is debited. -/
theorem reserved_collateral_fails : ∃ trace state, Run (Recorded Sample.market) Sample.opened trace state ∧
    (∀ record ∈ trace, record.action.entries ≠ [] → record.rates = constantRates) ∧
    totalFill (fillsOf Sample.gatewayBid.onChain trace) ≤ Sample.gatewayBid.amount.toNat ∧
    ¬ (trace.map (Record.debited Sample.gatewayBid.onChain)).sum ≤ Sample.gatewayBid.requiredCollateral := by
  obtain ⟨history, ran, checked⟩ := returns_iff.mp (show returns
    (each Sample.remember ([], Sample.opened) (Sample.trade false)) (fun history => Sample.constantly history.1 &&
      decide (totalFill (fillsOf Sample.gatewayBid.onChain history.1) ≤ Sample.gatewayBid.amount.toNat ∧
        ¬ (history.1.map (Record.debited Sample.gatewayBid.onChain)).sum ≤ Sample.gatewayBid.requiredCollateral)) =
      true by decide +kernel)
  obtain ⟨constant, short⟩ := Bool.and_eq_true_iff.mp checked
  obtain ⟨within, more⟩ := of_decide_eq_true short
  exact ⟨history.1, history.2, Sample.remembered ran (by decide), Sample.constantly_rates constant, within, more⟩

/-- The hypotheses meet: as maker the same bid costs what is reserved. -/
theorem reserved_collateral_sample : ∃ trace state, Run (Recorded Sample.market) Sample.opened trace state ∧
    fillsOf Sample.gatewayBid.onChain trace = [⟨Sample.bid, 10, true⟩] ∧
    (trace.map (Record.debited Sample.gatewayBid.onChain)).sum ≤ Sample.gatewayBid.requiredCollateral := by
  obtain ⟨history, ran, checked⟩ := returns_iff.mp (show returns
    (each Sample.remember ([], Sample.opened) (Sample.trade true)) (fun history => Sample.constantly history.1 &&
      decide (fillsOf Sample.gatewayBid.onChain history.1 = [⟨Sample.bid, 10, true⟩])) = true by decide +kernel)
  obtain ⟨constant, filled⟩ := Bool.and_eq_true_iff.mp checked
  have once := of_decide_eq_true filled
  have run := Sample.remembered ran (by decide)
  have within : totalFill (fillsOf Sample.gatewayBid.onChain history.1) ≤ Sample.gatewayBid.amount.toNat := by
    rw [once]
    decide
  refine ⟨history.1, history.2, run, once,
    (reserved_collateral rfl (by decide) run (Sample.constantly_rates constant) within).1 ?_⟩
  rw [once]
  exact .of_few (by decide) (by decide)

end SettlementExchange

end Omniscient

import Mathlib.Tactic.Linarith
import Omniscient.Proofs.SettlementErrors
import Omniscient.Proofs.SettlementLegs

/-! The exchange never pays for matched orders. In each match the taker's fee covers
the makers' rebates and every rounding: the volumes are compared in millionths, the
fees in basis points. -/

namespace Omniscient.SettlementExchange
open Outcome

structure Match where
  taker : Entry
  makers : List Entry

def Match.entries (trade : Match) : List Entry := trade.taker :: trade.makers

structure Entry.Crosses (taker maker : Entry) : Prop where
  position : maker.order.positionId = taker.order.positionId
  opposite : maker.order.side = 0 ↔ taker.order.side ≠ 0
  buys : taker.order.side = 0 → maker.order.price ≤ taker.order.price
  sells : taker.order.side ≠ 0 → taker.order.price ≤ maker.order.price

/-- One taker entry, and maker entries that cross it and fill all of its fill. -/
structure Match.Crossing (trade : Match) : Prop where
  taker : trade.taker.isMaker = false
  makers : ∀ maker ∈ trade.makers, maker.isMaker = true ∧ trade.taker.Crosses maker
  fills : (trade.makers.map fun maker => maker.fill.toNat).sum = trade.taker.fill.toNat

section
variable {rates : Rates} {entry : Entry}

theorem volume_ceil (buy : entry.order.side = 0) :
    entry.fill.toNat * entry.order.price.toNat ≤ 1000000 * exactVolume entry := by
  rw [exactVolume, if_pos buy, Nat.ceilDiv_eq_add_pred_div]
  omega

theorem volume_floor (other : entry.order.side ≠ 0) :
    1000000 * exactVolume entry ≤ entry.fill.toNat * entry.order.price.toNat := by
  rw [exactVolume, if_neg other]
  omega

theorem rebate_floor (maker : entry.isMaker = true) :
    -10000 * exactFee rates entry ≤ (exactVolume entry : Int) * rates.makerRebateBps := by
  rw [exactFee, if_pos maker, ← Nat.cast_mul]
  omega

private theorem fee_ceil (taker : entry.isMaker = false) :
    (exactVolume entry : Int) * rates.takerFeeBps ≤ 10000 * exactFee rates entry := by
  rw [exactFee, if_neg (Bool.eq_false_iff.mp taker), Nat.ceilDiv_eq_add_pred_div, ← Nat.cast_mul]
  omega

theorem leg_empty (empty : entry.fill = 0) : exactLeg rates entry = 0 := by
  have volume : exactVolume entry = 0 := by
    simp [exactVolume, empty]
  have fee : exactFee rates entry = 0 := by
    simp [exactFee, volume]
  simp [exactLeg, volume, fee]

end

def volumes (entries : List Entry) : Nat := (entries.map exactVolume).sum

def fillsSum (entries : List Entry) : Nat := (entries.map fun entry => entry.fill.toNat).sum

def legs (rates : Rates) (entries : List Entry) : Int := (entries.map (exactLeg rates)).sum

section
variable {rates : Rates} {makers : List Entry} {price : Nat}

private theorem sellers_receive (sells : ∀ maker ∈ makers, maker.isMaker = true ∧ maker.order.side ≠ 0 ∧
    maker.order.price.toNat ≤ price) : 1000000 * volumes makers ≤ fillsSum makers * price ∧
      10000 * legs rates makers ≤ (volumes makers : Int) * (10000 + rates.makerRebateBps) := by
  induction makers with
  | nil => simp [volumes, fillsSum, legs]
  | cons maker makers ih =>
    obtain ⟨volume, received⟩ := ih fun other member => sells other (List.mem_cons_of_mem _ member)
    obtain ⟨isMaker, sell, cheap⟩ := sells maker List.mem_cons_self
    have floor := volume_floor sell
    have rebate := @rebate_floor rates maker isMaker
    have capped := Nat.mul_le_mul_left maker.fill.toNat cheap
    have leg : exactLeg rates maker = exactVolume maker - exactFee rates maker := if_neg sell
    simp only [volumes, fillsSum, legs, List.map_cons, List.sum_cons] at volume received ⊢
    constructor
    · linarith
    · rw [leg, Nat.cast_add]
      linarith

private theorem buyers_pay (buys : ∀ maker ∈ makers, maker.isMaker = true ∧ maker.order.side = 0 ∧
    price ≤ maker.order.price.toNat) : fillsSum makers * price ≤ 1000000 * volumes makers ∧
      10000 * legs rates makers ≤ -((volumes makers : Int) * (10000 - rates.makerRebateBps)) := by
  induction makers with
  | nil => simp [volumes, fillsSum, legs]
  | cons maker makers ih =>
    obtain ⟨volume, paid⟩ := ih fun other member => buys other (List.mem_cons_of_mem _ member)
    obtain ⟨isMaker, buy, dear⟩ := buys maker List.mem_cons_self
    have ceil := volume_ceil buy
    have rebate := @rebate_floor rates maker isMaker
    have raised := Nat.mul_le_mul_left maker.fill.toNat dear
    have leg : exactLeg rates maker = -(exactVolume maker + exactFee rates maker) := if_pos buy
    simp only [volumes, fillsSum, legs, List.map_cons, List.sum_cons] at volume paid ⊢
    constructor
    · linarith
    · rw [leg, Nat.cast_add]
      linarith

theorem Match.Crossing.legs_nonpos {trade : Match} (crossing : trade.Crossing)
    (funded : rates.makerRebateBps ≤ rates.takerFeeBps) (capped : rates.makerRebateBps ≤ 10000) :
    legs rates trade.entries ≤ 0 := by
  have fee := @fee_ceil rates _ crossing.taker
  have fills : fillsSum trade.makers = trade.taker.fill.toNat := crossing.fills
  have total : legs rates trade.entries = exactLeg rates trade.taker + legs rates trade.makers := by
    simp [legs, Match.entries]
  by_cases buy : trade.taker.order.side = 0
  · have sellers := @sellers_receive rates trade.makers trade.taker.order.price.toNat fun maker member => by
      obtain ⟨isMaker, crosses⟩ := crossing.makers maker member
      exact ⟨isMaker, fun sell => crosses.opposite.mp sell buy, crosses.buys buy⟩
    have ceil := volume_ceil buy
    have less : volumes trade.makers ≤ exactVolume trade.taker := by
      have both := sellers.1
      rw [fills] at both
      omega
    have leg : exactLeg rates trade.taker = -(exactVolume trade.taker + exactFee rates trade.taker) := if_pos buy
    have rebates : volumes trade.makers * rates.makerRebateBps ≤ exactVolume trade.taker * rates.takerFeeBps :=
      Nat.mul_le_mul less funded
    zify at less rebates
    rw [total, leg]
    linarith [sellers.2]
  · have buyers := @buyers_pay rates trade.makers trade.taker.order.price.toNat fun maker member => by
      obtain ⟨isMaker, crosses⟩ := crossing.makers maker member
      exact ⟨isMaker, crosses.opposite.mpr buy, crosses.sells buy⟩
    have floor := volume_floor buy
    have more : exactVolume trade.taker ≤ volumes trade.makers := by
      have both := buyers.1
      rw [fills] at both
      omega
    have leg : exactLeg rates trade.taker = exactVolume trade.taker - exactFee rates trade.taker := if_neg buy
    have kept : (exactVolume trade.taker : Int) * (10000 - rates.makerRebateBps) ≤
        volumes trade.makers * (10000 - rates.makerRebateBps) := by
      apply mul_le_mul_of_nonneg_right <;> omega
    have rebates : exactVolume trade.taker * rates.makerRebateBps ≤ exactVolume trade.taker * rates.takerFeeBps :=
      Nat.mul_le_mul_left _ funded
    zify at rebates
    rw [total, leg]
    linarith [buyers.2]

end

variable {σ κ : Type} {env : Env σ κ} {msg : Message} {batchId : Bytes32} {orders : List SignedOrder}
  {fills : List Uint256} {isMaker : List Bool} {world : World σ κ} {storage : Storage} {acc : Accrual}
  {entries : List Entry}

def Accrual.initial (storage : Storage) (count : Nat) : Accrual where
  filledAmount := storage.filledAmount
  deltas := List.replicate (count + 1) ⟨0, 0⟩
  deltaCount := 0
  exchangeUsdcNet := 0

private theorem booked_exact (takerFee : storage.takerFeeBps ≤ 1000) (makerRebate : storage.makerRebateBps ≤ 1000)
    (ran : each (settleEntry env msg storage) acc entries = .ok acc') {entry : Entry} (member : entry ∈ entries) :
    entry.booked storage = exactLeg storage.rates entry := by
  by_cases empty : entry.fill = 0
  · rw [Entry.booked, if_pos empty, leg_empty empty]
  · obtain ⟨leg, owed, -⟩ := settleEntries_settled ran entry member empty
    rw [Entry.booked, if_neg empty, owed]
    exact leg_exact takerFee makerRebate owed

def Error.notNegativeNet : Error → Prop
  | .exchangeUsdcNetNegative _ => False
  | _ => True

private theorem loop_notNegativeNet (error : Error) (loop : error.inLoop) : error.notNegativeNet := by
  cases error <;> trivial

theorem transferShares_raises {ctf : κ} {transfer : Option Transfer} :
    Raises Error.notNegativeNet (transferShares env ctf transfer) := by
  cases transfer with
  | none => exact raises_pure _
  | some move => exact raises_orRevert trivial

private theorem settleCtf_raises {ctf : κ} : Raises Error.notNegativeNet (settleCtf env entries ctf) := by
  refine raises_bind (raises_each fun nets entry => ?_) fun nets => ?_
  · unfold accrueShares
    split
    next => exact raises_pure _
    next =>
      split
      next => exact accrueCell_raises trivial (.inr trivial)
      next => exact raises_bind (raises_orRevert trivial) fun _ => accrueCell_raises trivial (.inr trivial)
  · refine raises_bind (raises_each fun _ _ => raises_revertIf trivial) fun _ => ?_
    exact raises_bind (raises_each fun _ _ => transferShares_raises) fun _ => raises_each fun _ _ => transferShares_raises

private theorem loop_net_nonneg {trades : List Match} {acc : Accrual} (crossing : ∀ trade ∈ trades, trade.Crossing)
    (capped : storage.takerFeeBps ≤ 1000) (funded : storage.makerRebateBps ≤ storage.takerFeeBps)
    (batch : entries = trades.flatMap Match.entries) (count : Nat)
    (ran : each (settleEntry env msg storage) (.initial storage count) entries = .ok acc) : 0 ≤ acc.exchangeUsdcNet.toInt := by
  have rebates : storage.makerRebateBps ≤ 1000 := BitVec.le_trans funded capped
  have total := (settleEntries_ok ran).2.2
  have exact_legs : entries.map (Entry.booked storage) = entries.map (exactLeg storage.rates) :=
    List.map_congr_left fun entry member => booked_exact capped rebates ran member
  have each_match : ∀ trade ∈ trades, legs storage.rates trade.entries ≤ 0 := by
    intro trade member
    apply (crossing trade member).legs_nonpos funded
    have bound : storage.makerRebateBps.toNat ≤ 1000 := rebates
    exact bound.trans (by decide)
  have all : (entries.map (exactLeg storage.rates)).sum ≤ 0 := by
    clear ran total exact_legs crossing
    subst batch
    induction trades with
    | nil => exact le_refl _
    | cons trade trades ih =>
      have first := each_match trade List.mem_cons_self
      have rest := ih fun other member => each_match other (List.mem_cons_of_mem _ member)
      simp only [List.flatMap_cons, List.map_append, List.sum_append]
      exact add_nonpos first rest
  have zero : (Accrual.initial storage count).exchangeUsdcNet.toInt = 0 := rfl
  rw [total, exact_legs, zero]
  omega

/-- Matched orders settle with a protocol fee of at least zero: for every batch made of
crossing trades, at all rates that `setFeeRates` admits with the rebate at most the fee. -/
theorem matched_net_nonneg {trades : List Match} (crossing : ∀ trade ∈ trades, trade.Crossing)
    (capped : world.exchange.takerFeeBps ≤ 1000)
    (funded : world.exchange.makerRebateBps ≤ world.exchange.takerFeeBps)
    (batch : entriesOf orders fills isMaker = trades.flatMap Match.entries) :
    (∀ acc, each (settleEntry env msg world.exchange) (.initial world.exchange orders.length)
      (entriesOf orders fills isMaker) = .ok acc → 0 ≤ acc.exchangeUsdcNet.toInt) ∧
    ∀ net, settleBatch env msg batchId orders fills isMaker world ≠ .error (.exchangeUsdcNetNegative net) := by
  have nonneg (acc : Accrual) := @loop_net_nonneg _ _ env msg world.exchange _ trades acc crossing capped funded batch
    orders.length
  refine ⟨nonneg, fun net raised => ?_⟩
  have honest : Raises Error.notNegativeNet (settleBatch env msg batchId orders fills isMaker world) := by
    refine raises_bind (raises_revertIf trivial) fun _ => raises_bind (raises_revertIf trivial) fun _ => ?_
    refine raises_bind (raises_revertIf trivial) fun _ => raises_bind (raises_revertIf trivial) fun _ => ?_
    refine raises_bind_ok (raises_each fun _ _ => settleEntry_raises loop_notNegativeNet (.inr trivial)) fun acc ran => ?_
    refine raises_bind (raises_revertIf_not (nonneg acc ran).not_gt) fun _ => ?_
    refine raises_bind ?_ fun _ => raises_bind (raises_mapError fun _ => trivial) fun _ => ?_
    · unfold balancingDelta
      split
      next => exact raises_pure _
      next => exact raises_error trivial
    · exact raises_bind settleCtf_raises fun _ => raises_pure _
  exact honest _ raised

namespace Sample

def rated : World Erc20.State Erc1155.State :=
  { opened with exchange := { opened.exchange with takerFeeBps := 50, makerRebateBps := 10 } }

def crossing : Match := ⟨⟨bid, 10, false⟩, [⟨ask, 10, true⟩]⟩

private theorem crossing_crosses : crossing.Crossing where
  taker := rfl
  makers maker member := by
    rw [List.mem_singleton.mp member]
    exact ⟨rfl, rfl, by decide, fun _ => by decide, fun sell => absurd rfl sell⟩
  fills := rfl

end Sample

/-- The hypotheses meet: the bid pays 6 and the ask gets 5. -/
theorem matched_net_nonneg_sample : ∃ acc, each (settleEntry Sample.market ⟨1, 2001⟩ Sample.rated.exchange)
      (.initial Sample.rated.exchange 2) (entriesOf [Sample.bid, Sample.ask] [10, 10] [false, true]) = .ok acc ∧
    acc.exchangeUsdcNet = 1 ∧ 0 ≤ acc.exchangeUsdcNet.toInt := by
  obtain ⟨acc, ran, net⟩ := returns_iff.mp (show returns (each (settleEntry Sample.market ⟨1, 2001⟩ Sample.rated.exchange)
    (.initial Sample.rated.exchange 2) (entriesOf [Sample.bid, Sample.ask] [10, 10] [false, true]))
    (fun acc => acc.exchangeUsdcNet == 1) = true by decide +kernel)
  have crossing : ∀ trade ∈ [Sample.crossing], trade.Crossing := by
    intro trade member
    rw [List.mem_singleton.mp member]
    exact Sample.crossing_crosses
  have nonneg := @matched_net_nonneg _ _ Sample.market ⟨1, 2001⟩ 1 [Sample.bid, Sample.ask] [10, 10] [false, true]
    Sample.rated _ crossing (by decide) (by decide) rfl
  exact ⟨acc, ran, beq_iff_eq.mp net, nonneg.1 acc ran⟩

end Omniscient.SettlementExchange

import Mathlib.Data.Int.ModEq
import Omniscient.Proofs.OrderLifetime

/-! Delivery versus payment. The side byte of an order is read in several places:
by the USDC leg as zero or not zero, by the net of shares as one or not one, and
by the transfers as one or zero. The readings agree on the sides 0 and 1 only. -/

namespace Omniscient.SettlementExchange
open Outcome

variable {σ κ : Type} {env : Env σ κ} {msg : Message} {batchId : Bytes32} {orders : List SignedOrder}
  {fills : List Uint256} {isMaker : List Bool} {world after : World σ κ} {storage : Storage} {entry : Entry}
  {entries : List Entry}

def Entry.transfers (self : Address) (entry : Entry) : List Transfer :=
  (entry.pull self).toList ++ (entry.push self).toList

/-- The maker pays exactly when the shares go from the exchange to the maker, and
is paid exactly when they go from the maker to the exchange. -/
structure Exchanged (env : Env σ κ) (storage : Storage) (entry : Entry) (volume fee : Int256) : Prop where
  sized : SettlementExchange.volume entry = .ok volume
  charged : SettlementExchange.fee storage entry volume = .ok fee
  buys : (∃ charge, usdcLeg storage entry = .ok (.buy charge) ∧ charge.toInt = volume.toInt + fee.toInt) ↔
    ⟨env.self, entry.order.maker, entry.order.positionId, entry.fill⟩ ∈ entry.transfers env.self
  sells : (∃ credit, usdcLeg storage entry = .ok (.sell credit) ∧ credit.toInt = volume.toInt - fee.toInt) ↔
    ⟨entry.order.maker, env.self, entry.order.positionId, entry.fill⟩ ∈ entry.transfers env.self

/-- Delivery versus payment for a settled batch: in every filled entry, and so
for the exchange's own holdings. -/
structure DeliveryVersusPayment (env : Env σ κ) (entries : List Entry) (world after : World σ κ) : Prop where
  exchanged : ∀ entry ∈ entries, entry.fill ≠ 0 → ∃ volume fee, Exchanged env world.exchange entry volume fee
  passthrough : ∀ position,
    env.ctf.balanceOf after.ctf env.self position = env.ctf.balanceOf world.ctf env.self position

/-- A filled entry of a buy or a sell order of somebody else. -/
structure Entry.TwoSided (exchange : Address) (entry : Entry) : Prop where
  side : entry.order.side = 0 ∨ entry.order.side = 1
  maker : entry.order.maker ≠ exchange

theorem usdcLeg_ok {leg : Leg} (ran : usdcLeg storage entry = .ok leg) :
    ∃ volume fee, SettlementExchange.volume entry = .ok volume ∧ SettlementExchange.fee storage entry volume = .ok fee ∧
      if entry.order.side = 0 then ∃ charge, leg = .buy charge ∧ charge.toInt = volume.toInt + fee.toInt
      else ∃ credit, leg = .sell credit ∧ credit.toInt = volume.toInt - fee.toInt := by
  simp only [usdcLeg, bind_ok] at ran
  obtain ⟨volume, sized, fee, charged, booked⟩ := ran
  refine ⟨volume, fee, sized, charged, ?_⟩
  split at booked
  next buy =>
    simp only [bind_ok, orRevert_ok, pure_ok, Word.addSigned_some] at booked
    obtain ⟨charge, sum, rfl⟩ := booked
    rw [if_pos buy]
    exact ⟨charge, rfl, sum⟩
  next other =>
    simp only [bind_ok, orRevert_ok, pure_ok, Word.subSigned_some] at booked
    obtain ⟨credit, difference, rfl⟩ := booked
    rw [if_neg other]
    exact ⟨credit, rfl, difference⟩

theorem Entry.mem_transfers {self : Address} (filled : entry.fill ≠ 0) (move : Transfer) :
    move ∈ entry.transfers self ↔
      (entry.order.side = 1 ∧ move = ⟨entry.order.maker, self, entry.order.positionId, entry.fill⟩) ∨
      (entry.order.side = 0 ∧ move = ⟨self, entry.order.maker, entry.order.positionId, entry.fill⟩) := by
  simp only [Entry.transfers, Entry.pull, Entry.push, filled, ne_eq, not_false_eq_true, true_and, List.mem_append]
  split <;> split <;> simp_all

theorem exchanged_iff {leg : Leg} (filled : entry.fill ≠ 0) (owed : usdcLeg storage entry = .ok leg) :
    (∃ volume fee, Exchanged env storage entry volume fee) ↔ entry.TwoSided env.self := by
  obtain ⟨volume, fee, sized, charged, booked⟩ := usdcLeg_ok owed
  by_cases buy : entry.order.side = 0
  · rw [if_pos buy] at booked
    obtain ⟨charge, rfl, sum⟩ := booked
    have notSell : entry.order.side ≠ 1 := by rw [buy]; decide
    constructor
    · intro holds
      obtain ⟨volume', fee', exchanged⟩ := holds
      refine ⟨.inl buy, fun own => ?_⟩
      have paid := exchanged.sells.mpr ((Entry.mem_transfers filled _).mpr (.inr ⟨buy, by rw [own]⟩))
      rw [owed] at paid
      obtain ⟨_, impossible, -⟩ := paid
      cases impossible
    · intro twoSided
      refine ⟨volume, fee, sized, charged, ?_, ?_⟩
      · simp [Entry.mem_transfers filled, owed, sum, buy]
      · simp [Entry.mem_transfers filled, owed, notSell, twoSided.maker]
  · rw [if_neg buy] at booked
    obtain ⟨credit, rfl, difference⟩ := booked
    constructor
    · intro holds
      obtain ⟨volume', fee', exchanged⟩ := holds
      have same : volume' = volume := Except.ok.inj (exchanged.sized.symm.trans sized)
      subst same
      have same : fee' = fee := Except.ok.inj (exchanged.charged.symm.trans charged)
      subst same
      have delivered := (Entry.mem_transfers filled _).mp (exchanged.sells.mp ⟨credit, owed, difference⟩)
      have sell : entry.order.side = 1 := by
        rcases delivered with ⟨sell, -⟩ | ⟨zero, -⟩
        · exact sell
        · exact absurd zero buy
      refine ⟨.inr sell, fun own => ?_⟩
      have paid := exchanged.buys.mpr ((Entry.mem_transfers filled _).mpr (.inl ⟨sell, by rw [own]⟩))
      rw [owed] at paid
      obtain ⟨_, impossible, -⟩ := paid
      cases impossible
    · intro twoSided
      have sell := twoSided.side.resolve_left buy
      refine ⟨volume, fee, sized, charged, ?_, ?_⟩
      · simp [Entry.mem_transfers filled, owed, buy, Ne.symm twoSided.maker]
      · simp [Entry.mem_transfers filled, owed, difference, sell]

def Transfer.inflow (account : Address) (position : Uint256) (move : Transfer) : Int :=
  (if move.recipient = account ∧ move.positionId = position then (move.amount.toNat : Int) else 0) -
    if move.holder = account ∧ move.positionId = position then (move.amount.toNat : Int) else 0

def holding (env : Env σ κ) (position : Uint256) (ctf : κ) : Int := (env.ctf.balanceOf ctf env.self position).toNat

theorem transferShares_ok (exact : env.ctf.Exact) {ctf ctf' : κ} {transfer : Option Transfer}
    (ran : transferShares env ctf transfer = .ok ctf') (position : Uint256) :
    holding env position ctf' = holding env position ctf + (transfer.elim 0 (Transfer.inflow env.self position)) := by
  cases transfer with
  | none =>
    cases ran
    simp
  | some move =>
    have moved := exact _ _ _ _ _ _ _ (orRevert_ok.mp ran) env.self position
    simp only [holding, Transfer.inflow, Option.elim]
    have counted (condition : Prop) [Decidable condition] :
        (if condition then (move.amount.toNat : Int) else 0) = ((if condition then move.amount.toNat else 0 : Nat) : Int) := by
      split <;> rfl
    rw [counted, counted]
    omega

theorem settleCtf_holding (exact : env.ctf.Exact) {ctf ctf' : κ} (ran : settleCtf env entries ctf = .ok ctf')
    (position : Uint256) : holding env position ctf' = holding env position ctf +
      (entries.map fun entry => (entry.pull env.self).elim 0 (Transfer.inflow env.self position)).sum +
      (entries.map fun entry => (entry.push env.self).elim 0 (Transfer.inflow env.self position)).sum := by
  obtain ⟨-, pulled, pulls, pushes⟩ := settleCtf_ok ran
  have inward := each_sum (holding env position)
    (fun entry : Entry => (entry.pull env.self).elim 0 (Transfer.inflow env.self position)) pulls (by
      intro ctf entry next _ once
      exact transferShares_ok exact once position)
  have outward := each_sum (holding env position)
    (fun entry : Entry => (entry.push env.self).elim 0 (Transfer.inflow env.self position)) pushes (by
      intro ctf entry next _ once
      exact transferShares_ok exact once position)
  rw [outward, inward]

theorem Entry.moves_buy {self : Address} (filled : entry.fill ≠ 0) (buy : entry.order.side = 0) :
    entry.pull self = none ∧
      entry.push self = some ⟨self, entry.order.maker, entry.order.positionId, entry.fill⟩ := by
  refine ⟨if_neg ?_, if_pos ⟨filled, buy⟩⟩
  simp [buy]

theorem Entry.moves_sell {self : Address} (filled : entry.fill ≠ 0) (sell : entry.order.side = 1) :
    entry.pull self = some ⟨entry.order.maker, self, entry.order.positionId, entry.fill⟩ ∧
      entry.push self = none := by
  refine ⟨if_pos ⟨filled, sell⟩, if_neg ?_⟩
  simp [sell]

/-- For a two-sided entry the shares counted and the shares moved are the same,
up to the cast of the fill to int256. -/
theorem Entry.TwoSided.counted (twoSided : entry.TwoSided env.self) (filled : entry.fill ≠ 0) (position : Uint256) :
    (entry.pull env.self).elim 0 (Transfer.inflow env.self position) +
      (entry.push env.self).elim 0 (Transfer.inflow env.self position) ≡
    (if entry.order.positionId = position then entry.shares else 0) [ZMOD 2 ^ 256] := by
  have cast : (entry.fill.toNat : Int) ≡ entry.fill.toInt [ZMOD 2 ^ 256] := by
    rw [BitVec.toInt_eq_toNat_bmod]
    exact (Int.bmod_emod ..).symm
  rcases twoSided.side with buy | sell
  · obtain ⟨pull, push⟩ := @Entry.moves_buy entry env.self filled buy
    have shares : entry.shares = -entry.fill.toInt := by
      rw [Entry.shares, if_neg filled, if_neg (by simp [buy])]
    rw [pull, push, shares]
    simp only [Option.elim, Transfer.inflow, twoSided.maker, false_and, if_false, true_and, zero_add, zero_sub]
    split
    · exact cast.neg
    · rfl
  · obtain ⟨pull, push⟩ := @Entry.moves_sell entry env.self filled sell
    have shares : entry.shares = entry.fill.toInt := by
      rw [Entry.shares, if_neg filled, if_pos sell]
    rw [pull, push, shares]
    simp only [Option.elim, Transfer.inflow, twoSided.maker, false_and, if_false, true_and, add_zero, sub_zero]
    split
    · exact cast
    · rfl

theorem passthrough (exact : env.ctf.Exact) {ctf ctf' : κ} (ran : settleCtf env entries ctf = .ok ctf')
    (twoSided : ∀ entry ∈ entries, entry.fill ≠ 0 → entry.TwoSided env.self) (position : Uint256) :
    env.ctf.balanceOf ctf' env.self position = env.ctf.balanceOf ctf env.self position := by
  have moved := settleCtf_holding exact ran position
  have conserved := (settleCtf_ok ran).1 position
  have same : (entries.map fun entry => (entry.pull env.self).elim 0 (Transfer.inflow env.self position)).sum +
      (entries.map fun entry => (entry.push env.self).elim 0 (Transfer.inflow env.self position)).sum ≡
      (entries.map fun entry => if entry.order.positionId = position then entry.shares else 0).sum
        [ZMOD 2 ^ 256] := by
    rw [← List.sum_map_add]
    clear ran moved conserved
    induction entries with
    | nil => rfl
    | cons entry entries ih =>
      simp only [List.map_cons, List.sum_cons]
      refine Int.ModEq.add ?_ (ih fun entry member => twoSided entry (List.mem_cons_of_mem _ member))
      by_cases empty : entry.fill = 0
      · simp [Entry.pull, Entry.push, Entry.shares, empty]
      · exact (twoSided entry List.mem_cons_self empty).counted empty position
  rw [conserved] at same
  apply BitVec.eq_of_toNat_eq
  simp only [holding] at moved
  have bound := (env.ctf.balanceOf ctf' env.self position).isLt
  have bound' := (env.ctf.balanceOf ctf env.self position).isLt
  have divides := Int.modEq_zero_iff_dvd.mp same
  omega

/-- A settled batch is delivery versus payment exactly when all its filled orders
are two-sided. -/
theorem delivery_versus_payment (exact : env.ctf.Exact)
    (ran : settleBatch env msg batchId orders fills isMaker world = .ok after) :
    DeliveryVersusPayment env (entriesOf orders fills isMaker) world after ↔
      ∀ entry ∈ entriesOf orders fills isMaker, entry.fill ≠ 0 → entry.TwoSided env.self := by
  have batch := settleBatch_ok ran
  constructor
  · intro delivered entry member filled
    obtain ⟨leg, owed, -⟩ := batch.settled entry member filled
    exact (exchanged_iff filled owed).mp (delivered.exchanged entry member filled)
  · intro twoSided
    refine ⟨fun entry member filled => ?_, passthrough exact batch.shares twoSided⟩
    obtain ⟨leg, owed, -⟩ := batch.settled entry member filled
    exact (exchanged_iff filled owed).mpr (twoSided entry member filled)

namespace Sample

/-- Account 6 sells twenty shares; account 5 buys ten of them, and account 7 signs
side 2 for the other ten. -/
def lopsided : List SignedOrder :=
  [⟨order 5 500000 10 0, [5]⟩, ⟨order 6 100000 20 1, [6]⟩, ⟨order 7 200000 10 2, [7]⟩]

def settling (orders : List SignedOrder) (fills : List Uint256) (isMaker : List Bool)
    (look : World Erc20.State Erc1155.State → World Erc20.State Erc1155.State → Bool) : Bool :=
  returns (each (perform market) opened opening) fun world =>
    returns (settleBatch market ⟨1, 2001⟩ 1 orders fills isMaker world) (look world)

theorem settling_iff {orders : List SignedOrder} {fills : List Uint256} {isMaker : List Bool}
    {look : World Erc20.State Erc1155.State → World Erc20.State Erc1155.State → Bool} :
    settling orders fills isMaker look = true ↔ ∃ world, each (perform market) opened opening = .ok world ∧
      ∃ after, settleBatch market ⟨1, 2001⟩ 1 orders fills isMaker world = .ok after ∧ look world after = true := by
  simp only [settling, returns_iff]

end Sample

/-- The seller's other ten shares stay in the exchange, and account 7 is paid
without having delivered any. -/
theorem delivery_versus_payment_fails : ∃ world after,
    settleBatch Sample.market ⟨1, 2001⟩ 1 Sample.lopsided [10, 20, 10] [false, false, false] world = .ok after ∧
    world.custody.balances 7 = 0 ∧ after.custody.balances 7 = 1 ∧
    ¬ DeliveryVersusPayment Sample.market (entriesOf Sample.lopsided [10, 20, 10] [false, false, false])
      world after := by
  obtain ⟨world, -, after, ran, seen⟩ := Sample.settling_iff.mp (show Sample.settling Sample.lopsided [10, 20, 10]
    [false, false, false] (fun world after => world.custody.balances 7 == 0 && after.custody.balances 7 == 1 &&
      Sample.market.ctf.balanceOf world.ctf Sample.market.self 3 == 0 &&
      Sample.market.ctf.balanceOf after.ctf Sample.market.self 3 == 10) = true by decide +kernel)
  simp only [Bool.and_eq_true, beq_iff_eq] at seen
  obtain ⟨⟨⟨unpaid, paid⟩, empty⟩, stranded⟩ := seen
  refine ⟨world, after, ran, unpaid, paid, fun delivered => ?_⟩
  have same := delivered.passthrough 3
  rw [empty, stranded] at same
  cases same

namespace Sample

theorem cross_twoSided : ∀ entry ∈ entriesOf [bid, ask] [10, 10] [false, true], entry.fill ≠ 0 →
    entry.TwoSided market.self := by
  intro entry member _
  have cases_ : entry = ⟨bid, 10, false⟩ ∨ entry = ⟨ask, 10, true⟩ := by
    simpa [entriesOf] using member
  rcases cases_ with rfl | rfl
  · exact ⟨.inl rfl, by decide⟩
  · exact ⟨.inr rfl, by decide⟩

theorem cross_settles : ∃ world after, settleBatch market ⟨1, 2001⟩ 1 [bid, ask] [10, 10] [false, true] world = .ok after := by
  obtain ⟨world, -, after, ran, -⟩ := settling_iff.mp
    (show settling [bid, ask] [10, 10] [false, true] (fun _ _ => true) = true by decide +kernel)
  exact ⟨world, after, ran⟩

end Sample

/-- The hypotheses meet, and so does the condition: a bid against an ask. -/
theorem delivery_versus_payment_sample : ∃ world after,
    settleBatch Sample.market ⟨1, 2001⟩ 1 [Sample.bid, Sample.ask] [10, 10] [false, true] world = .ok after ∧
    DeliveryVersusPayment Sample.market (entriesOf [Sample.bid, Sample.ask] [10, 10] [false, true]) world after := by
  obtain ⟨world, after, ran⟩ := Sample.cross_settles
  exact ⟨world, after, ran, (delivery_versus_payment Erc1155.exact ran).mpr Sample.cross_twoSided⟩

def fillsOn (side : UInt8) (position : Uint256) (entries : List Entry) : Nat :=
  (entries.map fun entry => if entry.order.side = side ∧ entry.order.positionId = position then entry.fill.toNat else 0).sum

private theorem twoSided_moves (twoSided : ∀ entry ∈ entries, entry.fill ≠ 0 → entry.TwoSided env.self)
    (position : Uint256) :
    (entries.map fun entry => (entry.pull env.self).elim 0 (Transfer.inflow env.self position)).sum =
      (fillsOn 1 position entries : Int) ∧
    (entries.map fun entry => (entry.push env.self).elim 0 (Transfer.inflow env.self position)).sum =
      -(fillsOn 0 position entries : Int) := by
  induction entries with
  | nil => exact ⟨rfl, rfl⟩
  | cons entry entries ih =>
    obtain ⟨inward, outward⟩ := ih fun other member => twoSided other (List.mem_cons_of_mem _ member)
    have here : (entry.pull env.self).elim 0 (Transfer.inflow env.self position) = (fillsOn 1 position [entry] : Int) ∧
        (entry.push env.self).elim 0 (Transfer.inflow env.self position) = -(fillsOn 0 position [entry] : Int) := by
      by_cases empty : entry.fill = 0
      · simp [Entry.pull, Entry.push, fillsOn, empty]
      · have own := (twoSided entry List.mem_cons_self empty).maker
        rcases (twoSided entry List.mem_cons_self empty).side with buy | sell
        · obtain ⟨pull, push⟩ := @Entry.moves_buy entry env.self empty buy
          rw [pull, push]
          simp [fillsOn, Transfer.inflow, buy, own]
        · obtain ⟨pull, push⟩ := @Entry.moves_sell entry env.self empty sell
          rw [pull, push]
          simp [fillsOn, Transfer.inflow, sell, own]
    have split (side : UInt8) : fillsOn side position (entry :: entries) =
        fillsOn side position [entry] + fillsOn side position entries := by
      simp [fillsOn]
    simp only [List.map_cons, List.sum_cons, split, inward, outward, here.1, here.2]
    omega

/-- In a settled batch of two-sided entries the sells of a position are its buys, over the
integers, and the exchange keeps none of its shares, however large the fills are. -/
theorem shares_exact (exact : env.ctf.Exact)
    (twoSided : ∀ entry ∈ entriesOf orders fills isMaker, entry.fill ≠ 0 → entry.TwoSided env.self)
    (ran : settleBatch env msg batchId orders fills isMaker world = .ok after) (position : Uint256) :
    fillsOn 1 position (entriesOf orders fills isMaker) = fillsOn 0 position (entriesOf orders fills isMaker) ∧
    env.ctf.balanceOf after.ctf env.self position = env.ctf.balanceOf world.ctf env.self position := by
  have batch := settleBatch_ok ran
  have kept := passthrough exact batch.shares twoSided position
  have moved := settleCtf_holding exact batch.shares position
  obtain ⟨inward, outward⟩ := twoSided_moves twoSided position
  rw [inward, outward, holding, holding, kept] at moved
  exact ⟨by omega, kept⟩

/-- The hypotheses meet: ten shares of a bid are the ten of an ask. -/
theorem shares_exact_sample : ∃ world after,
    settleBatch Sample.market ⟨1, 2001⟩ 1 [Sample.bid, Sample.ask] [10, 10] [false, true] world = .ok after ∧
    fillsOn 1 3 (entriesOf [Sample.bid, Sample.ask] [10, 10] [false, true]) =
      fillsOn 0 3 (entriesOf [Sample.bid, Sample.ask] [10, 10] [false, true]) ∧
    Sample.market.ctf.balanceOf after.ctf Sample.market.self 3 = Sample.market.ctf.balanceOf world.ctf Sample.market.self 3 := by
  obtain ⟨world, after, ran⟩ := Sample.cross_settles
  exact ⟨world, after, ran, shares_exact Erc1155.exact Sample.cross_twoSided ran 3⟩

end Omniscient.SettlementExchange

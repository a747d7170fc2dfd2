import Omniscient.Proofs.MatcherCommands
import Omniscient.Proofs.ReservedCollateral

/-! At which price a fill settles. The matcher reports the price of the resting order;
the contract is given no price and takes each leg's from the order its maker signed.
So the maker's leg settles at the reported price, the taker's at its own limit. -/

namespace Omniscient

def Gateway.Order.entry (order : Gateway.Order) (signature : Bytes) (amount : UInt64) (isMaker : Bool) :
    SettlementExchange.Entry where
  signed := ⟨order.onChain, signature⟩
  fill := BitVec.ofNat 256 amount.toNat
  isMaker

/-- What a price charges a buyer, or credits a seller, before fees. -/
def Gateway.volumeAt (side : OrderSide) (amount price : UInt64) : Nat :=
  match side with
  | .buy => (amount.toNat * price.toNat) ⌈/⌉ 1000000
  | .sell => amount.toNat * price.toNat / 1000000

namespace SettlementExchange
open Outcome

variable {σ κ : Type} {env : Env σ κ} {msg : Message} {batchId : Bytes32} {orders : List SignedOrder}
  {fills : List Uint256} {isMaker : List Bool} {world after : World σ κ} {storage : Storage}

/-- The settlement charges or credits the entry's maker a volume, and the fee that the
contract takes on it. -/
def Charged (world after : World σ κ) (entry : Entry) (volume : Nat) : Prop :=
  ∃ sized charged, SettlementExchange.volume entry = .ok sized ∧ sized.toInt = volume ∧
    fee world.exchange entry sized = .ok charged ∧
    ((after.custody.balances entry.order.maker).toNat : Int) = (world.custody.balances entry.order.maker).toNat +
      if entry.order.side = 0 then -(volume + charged.toInt) else volume - charged.toInt

theorem exactVolume_entry (order : Gateway.Order) (signature : Bytes) (amount : UInt64) (isMaker : Bool) :
    exactVolume (order.entry signature amount isMaker) = Gateway.volumeAt order.side amount order.price := by
  have fill : (order.entry signature amount isMaker).fill.toNat = amount.toNat := toNat_word amount
  have price : (order.entry signature amount isMaker).order.price.toNat = order.price.toNat := toNat_word order.price
  have side : (order.entry signature amount isMaker).order.side = UInt8.ofNat order.side.toByte := rfl
  rw [exactVolume, fill, price, side]
  cases order.side with
  | buy => exact if_pos (show UInt8.ofNat OrderSide.buy.toByte = 0 by decide)
  | sell => exact if_neg (show UInt8.ofNat OrderSide.sell.toByte ≠ 0 by decide)

private theorem empty_exact {entry : Entry} (empty : entry.fill = 0) :
    SettlementExchange.volume entry = .ok 0 ∧ fee storage entry 0 = .ok 0 := by
  have product : Word.mul entry.fill entry.order.price = some 0 := by
    rw [empty, Word.mul_some]
    exact (Nat.zero_mul _).symm
  have scaled (rate : Uint256) : Word.mulSigned (0 : Int256) rate = some 0 := by
    rw [Word.mulSigned_some]
    exact (Int.zero_mul _).symm
  constructor
  · refine bind_ok.mpr ⟨0, orRevert_ok.mpr product, ?_⟩
    split
    next => exact bind_ok.mpr ⟨999999, orRevert_ok.mpr (Word.add_some.mpr (by decide)), pure_ok.mpr (by decide)⟩
    next => exact pure_ok.mpr (by decide)
  · unfold fee
    split
    next =>
      refine bind_ok.mpr ⟨0, orRevert_ok.mpr (scaled _), orRevert_ok.mpr ?_⟩
      exact Word.negSigned_some.mpr (by decide)
    next =>
      refine bind_ok.mpr ⟨0, orRevert_ok.mpr (scaled _), ?_⟩
      exact bind_ok.mpr ⟨9999, orRevert_ok.mpr (Word.addSigned_some.mpr (by decide)), pure_ok.mpr (by decide)⟩

theorem batch_charged {first second : Entry} (ran : settleBatch env msg batchId orders fills isMaker world = .ok after)
    (two : (entriesOf orders fills isMaker).Perm [first, second]) (apart : first.order.maker ≠ second.order.maker)
    (outside : first.order.maker ≠ env.self) : Charged world after first (exactVolume first) := by
  have batch := settleBatch_ok ran
  have booked : ((entriesOf orders fills isMaker).map fun entry =>
      if entry.order.maker = first.order.maker then entry.booked world.exchange else 0).sum =
        first.booked world.exchange := by
    rw [(two.map _).sum_eq]
    simp [Ne.symm apart]
  have moved := batch.balances first.order.maker
  rw [booked, if_neg (Ne.symm outside), Int.sub_zero] at moved
  by_cases empty : first.fill = 0
  · obtain ⟨sized, charged⟩ := @empty_exact world.exchange first empty
    have zero : (0 : Int256).toInt = 0 := by decide
    have exact_zero := (volume_exact sized).symm
    refine ⟨0, 0, sized, volume_exact sized, charged, ?_⟩
    rw [moved, Entry.booked, if_pos empty, exact_zero, zero]
    simp
  · obtain ⟨leg, owed, -⟩ := batch.settled first (two.mem_iff.mpr List.mem_cons_self) empty
    obtain ⟨sized, charged, volume, fee, legs⟩ := usdcLeg_ok owed
    refine ⟨sized, charged, volume, volume_exact volume, fee, ?_⟩
    rw [moved, Entry.booked, if_neg empty, owed, ← volume_exact volume]
    split at legs
    next buy =>
      obtain ⟨charge, rfl, sum⟩ := legs
      rw [if_pos buy, ← sum]
      rfl
    next other =>
      obtain ⟨credit, rfl, difference⟩ := legs
      rw [if_neg other, ← difference]
      rfl

/-- A fill settles at its own price on the maker's leg, and at the taker's limit price on
the taker's, whatever the book, the fill and the order of its two entries. -/
theorem settles_at_limits {book : Gateway.OrderBook} {order : Gateway.RestingOrder} {fill : Gateway.Fill}
    (matched : fill ∈ (book.matchOrder order).1) : ∃ resting ∈ book.resting,
      fill.makerOrderId = resting.orderId ∧ fill.maker = resting.maker ∧ fill.price = resting.price ∧
      ∀ taker maker : Gateway.Order, taker.maker = order.maker → taker.side = order.side → taker.price = order.price →
        maker.maker = resting.maker → maker.price = resting.price →
      ∀ takerSignature makerSignature,
        (entriesOf orders fills isMaker).Perm
          [taker.entry takerSignature fill.amount false, maker.entry makerSignature fill.amount true] →
        taker.maker ≠ env.self → maker.maker ≠ env.self →
        settleBatch env msg batchId orders fills isMaker world = .ok after →
        Charged world after (maker.entry makerSignature fill.amount true)
          (Gateway.volumeAt maker.side fill.amount fill.price) ∧
        Charged world after (taker.entry takerSignature fill.amount false)
          (Gateway.volumeAt order.side fill.amount order.price) := by
  rw [(Gateway.matchOrder_eq book order).1] at matched
  obtain ⟨resting, member, different, amount, rfl⟩ := Gateway.incoming_pairs book order fill matched
  refine ⟨resting, member, rfl, rfl, rfl, ?_⟩
  intro taker maker takes side limit makes priced takerSignature makerSignature two takerOutside makerOutside ran
  have apart : taker.maker ≠ maker.maker := by
    rw [takes, makes]
    exact Ne.symm different
  have makerLeg := batch_charged ran (two.trans (List.Perm.swap ..)) (Ne.symm apart) makerOutside
  have takerLeg := batch_charged ran two apart takerOutside
  rw [exactVolume_entry] at makerLeg takerLeg
  rw [priced] at makerLeg
  rw [side, limit] at takerLeg
  exact ⟨makerLeg, takerLeg⟩

namespace Sample

def gatewayAsk : Gateway.Order := { gatewayBid with maker := 6, price := 400000, side := .sell }

def atMatcher (orderId : OrderId) (order : Gateway.Order) : Gateway.RestingOrder where
  orderId
  maker := order.maker
  price := order.price
  amount := order.amount
  filled := 0
  side := order.side
  seq := 0
  nonce := order.nonce
  deadline := order.deadline

def askBook : Gateway.OrderBook := (Gateway.OrderBook.new.insert (atMatcher 101 gatewayAsk)).2

def askFill : Gateway.Fill := ⟨101, 102, 6, 5, 400000, 10, .buy⟩

theorem askFill_matched : askFill ∈ (askBook.matchOrder (atMatcher 102 gatewayBid)).1 := by decide +kernel

def askOrders : List SignedOrder := [⟨gatewayBid.onChain, [5]⟩, ⟨gatewayAsk.onChain, [6]⟩]

theorem ask_settles : ∃ world after, settleBatch market ⟨1, 2001⟩ 1 askOrders [10, 10] [false, true] world = .ok after := by
  obtain ⟨world, -, after, ran, -⟩ := settling_iff.mp
    (show settling askOrders [10, 10] [false, true] (fun _ _ => true) = true by decide +kernel)
  exact ⟨world, after, ran⟩

end Sample

/-- The fill is reported at 400000 and worth 4; the buyer is charged 5 before fees. -/
theorem settles_at_limits_fails : ∃ world after,
    settleBatch Sample.market ⟨1, 2001⟩ 1 Sample.askOrders [10, 10] [false, true] world = .ok after ∧
    Sample.askFill ∈ (Sample.askBook.matchOrder (Sample.atMatcher 102 Sample.gatewayBid)).1 ∧
    ¬ Charged world after (Sample.gatewayBid.entry [5] Sample.askFill.amount false)
      (Gateway.volumeAt .buy Sample.askFill.amount Sample.askFill.price) := by
  obtain ⟨world, after, ran⟩ := Sample.ask_settles
  refine ⟨world, after, ran, Sample.askFill_matched, ?_⟩
  intro holds
  obtain ⟨sized, charged, volume, amount, -⟩ := holds
  have limit : sized.toInt = 5 := (volume_exact volume).trans (by decide +kernel)
  have reported : Gateway.volumeAt .buy Sample.askFill.amount Sample.askFill.price = 4 := by decide +kernel
  rw [limit, reported] at amount
  omega

/-- The hypotheses meet: the seller is credited 4, the buyer charged 5, before fees. -/
theorem settles_at_limits_sample : ∃ world after,
    settleBatch Sample.market ⟨1, 2001⟩ 1 Sample.askOrders [10, 10] [false, true] world = .ok after ∧
    Charged world after (Sample.gatewayAsk.entry [6] 10 true) 4 ∧
    Charged world after (Sample.gatewayBid.entry [5] 10 false) 5 := by
  obtain ⟨world, after, ran⟩ := Sample.ask_settles
  obtain ⟨resting, member, -, -, -, settles⟩ := settles_at_limits Sample.askFill_matched
  have only : resting = (Gateway.OrderBook.new.insert (Sample.atMatcher 101 Sample.gatewayAsk)).1 := by
    have one : Sample.askBook.resting = [(Gateway.OrderBook.new.insert (Sample.atMatcher 101 Sample.gatewayAsk)).1] := by
      decide +kernel
    rw [one] at member
    exact List.mem_singleton.mp member
  subst only
  exact ⟨world, after, ran, settles Sample.gatewayBid Sample.gatewayAsk rfl rfl rfl rfl rfl [5] [6] (.refl _)
    (by decide) (by decide) ran⟩

end SettlementExchange

end Omniscient

import Omniscient.Proofs.SettledPrices

/-! The gateway's fee math against the contract's. Volumes and rebates agree on every
fill; a taker's fee rounds down at the gateway and up on chain. -/

namespace Omniscient

namespace Gateway

def sideVolume : OrderSide → UInt64 → UInt64 → Option (BitVec 128)
  | .buy, amount, price => buyVolume amount price
  | .sell, amount, price => sellVolume amount price

def roleFee (isMaker : Bool) (volume : BitVec 128) : Option Int :=
  if isMaker then (makerRebate volume).map fun rebate => -(rebate.toNat : Int)
  else (takerFee volume).map fun fee => (fee.toNat : Int)

private theorem divCeil_exact {value divisor : BitVec 128} (large : 1 < divisor.toNat) :
    (divCeil value divisor).toNat = value.toNat ⌈/⌉ divisor.toNat := by
  have parts := Nat.div_add_mod' value.toNat divisor.toNat
  have below := Nat.mod_lt value.toNat (by omega : 0 < divisor.toNat)
  have remainder : value % divisor = 0 ↔ value.toNat % divisor.toNat = 0 := by
    rw [← BitVec.toNat_inj, BitVec.toNat_umod]
    rfl
  rw [Nat.ceilDiv_eq_add_pred_div, divCeil]
  symm
  by_cases even : value % divisor = 0
  · have none := remainder.mp even
    rw [if_pos even, BitVec.toNat_udiv]
    apply Nat.div_eq_of_lt_le
    · omega
    · rw [Nat.add_one_mul]
      omega
  · have more : value.toNat % divisor.toNat ≠ 0 := fun none => even (remainder.mpr none)
    have half : value.toNat / divisor.toNat ≤ value.toNat / 2 := Nat.div_le_div_left large (by decide)
    have one : (1 : BitVec 128).toNat = 1 := by decide
    have room : (value / divisor).toNat + (1 : BitVec 128).toNat < 2 ^ 128 := by
      have lt := value.isLt
      rw [BitVec.toNat_udiv, one]
      omega
    rw [if_neg even, BitVec.toNat_add_of_lt room, BitVec.toNat_udiv, one]
    apply Nat.div_eq_of_lt_le
    · rw [Nat.add_one_mul]
      omega
    · rw [Nat.add_one_mul, Nat.add_one_mul]
      omega

theorem product_lt (amount price : UInt64) : amount.toNat * price.toNat < 2 ^ 128 :=
  (Nat.mul_lt_mul'' amount.toNat_lt price.toNat_lt).trans_eq (by decide)

private theorem product_exact (amount price : UInt64) : ∃ product,
    Word.mul (BitVec.ofNat 128 amount.toNat) (.ofNat 128 price.toNat) = some product ∧
      product.toNat = amount.toNat * price.toNat := by
  have read (value : UInt64) : (BitVec.ofNat 128 value.toNat).toNat = value.toNat := by
    have lt := value.toNat_lt
    rw [BitVec.toNat_ofNat, Nat.mod_eq_of_lt (by omega)]
  obtain ⟨product, ran⟩ := @Word.mul_fits 128 (.ofNat 128 amount.toNat) (.ofNat 128 price.toNat)
    (by rw [read, read]; exact product_lt amount price)
  exact ⟨product, ran, by rw [Word.mul_some.mp ran, read, read]⟩

private theorem sideVolume_exact (side : OrderSide) (amount price : UInt64) :
    ∃ volume, sideVolume side amount price = some volume ∧ volume.toNat = volumeAt side amount price := by
  obtain ⟨product, ran, exact⟩ := product_exact amount price
  have scale : (BitVec.ofNat 128 PRICE_SCALE.toNat).toNat = 1000000 := by decide
  cases side with
  | buy =>
    refine ⟨_, by simp only [sideVolume, buyVolume, ran]; rfl, ?_⟩
    rw [divCeil_exact (by rw [scale]; decide), scale, exact]
    rfl
  | sell =>
    refine ⟨_, by simp only [sideVolume, sellVolume, ran]; rfl, ?_⟩
    rw [BitVec.toNat_udiv, scale, exact]
    rfl

private theorem volumeAt_lt (side : OrderSide) (amount price : UInt64) : volumeAt side amount price < 2 ^ 110 := by
  have fits := product_lt amount price
  cases side with
  | buy =>
    rw [volumeAt, Nat.ceilDiv_eq_add_pred_div]
    omega
  | sell =>
    rw [volumeAt]
    omega

theorem rateOf_exact {bps : Nat} {volume : BitVec 128} (small : volume.toNat < 2 ^ 110) (capped : bps ≤ 1000) :
    ∃ part, rateOf bps volume = some part ∧ part.toNat = volume.toNat * bps / 10000 := by
  have read : (BitVec.ofNat 128 bps).toNat = bps := by
    rw [BitVec.toNat_ofNat, Nat.mod_eq_of_lt (by omega)]
  have fits : volume.toNat * bps ≤ 2 ^ 110 * 1000 := Nat.mul_le_mul small.le capped
  obtain ⟨product, ran⟩ := @Word.mul_fits 128 volume (.ofNat 128 bps) (by rw [read]; omega)
  refine ⟨_, by simp only [rateOf, ran]; rfl, ?_⟩
  rw [BitVec.toNat_udiv, Word.mul_some.mp ran, read]
  rfl

private theorem roleFee_exact {volume : BitVec 128} (small : volume.toNat < 2 ^ 110) (isMaker : Bool) :
    roleFee isMaker volume = some (if isMaker then -((volume.toNat * MAKER_REBATE_BPS / 10000 : Nat) : Int)
      else ((volume.toNat * TAKER_FEE_BPS / 10000 : Nat) : Int)) := by
  obtain ⟨fee, charged, exactFee⟩ := @rateOf_exact TAKER_FEE_BPS volume small (by decide)
  obtain ⟨rebate, paid, exactRebate⟩ := @rateOf_exact MAKER_REBATE_BPS volume small (by decide)
  cases isMaker with
  | true => rw [roleFee, if_pos rfl, if_pos rfl, makerRebate, paid, Option.map_some, exactRebate]
  | false => rw [roleFee, if_neg nofun, if_neg nofun, takerFee, charged, Option.map_some, exactFee]

end Gateway

namespace SettlementExchange
open Outcome

variable {storage : Storage} {entry : Entry}

theorem volume_returns (small : entry.fill.toNat * entry.order.price.toNat < 2 ^ 128) :
    ∃ sized, volume entry = .ok sized := by
  obtain ⟨product, ran⟩ := Word.mul_fits (small.trans (by decide))
  have exact := Word.mul_some.mp ran
  have almost : (999999 : Uint256).toNat = 999999 := by decide
  obtain ⟨raised, sum⟩ := @Word.add_fits 256 product 999999 (by rw [exact, almost]; omega)
  unfold volume
  rw [ran]
  by_cases buy : entry.order.side = 0
  · exact ⟨raised / 1000000, bind_ok.mpr ⟨product, rfl, by rw [if_pos buy, sum]; rfl⟩⟩
  · exact ⟨product / 1000000, bind_ok.mpr ⟨product, rfl, by rw [if_neg buy]; rfl⟩⟩

theorem fee_returns {sized : Int256} {amount : Nat} (exact : sized.toInt = amount) (small : amount < 2 ^ 128)
    (takerFee : storage.takerFeeBps ≤ 1000) (makerRebate : storage.makerRebateBps ≤ 1000) :
    ∃ charged, fee storage entry sized = .ok charged := by
  have fits {rate : Uint256} (capped : rate ≤ 1000) :
      ∃ product count, Word.mulSigned sized rate = some product ∧ product.toInt = (count : Nat) ∧ count < 2 ^ 140 := by
    have bound : rate.toNat ≤ 1000 := capped
    have whole : sized.toInt * rate.toInt = (amount * rate.toNat : Nat) := by
      rw [exact, rate_exact capped, Nat.cast_mul]
    have lt : amount * rate.toNat ≤ 2 ^ 128 * 1000 := Nat.mul_le_mul small.le bound
    obtain ⟨product, ran⟩ := @Word.mulSigned_fits 256 sized rate (by rw [whole]; omega) (by decide)
    exact ⟨product, amount * rate.toNat, ran, (Word.mulSigned_some.mp ran).trans whole, by omega⟩
  unfold fee
  cases entry.isMaker with
  | true =>
    obtain ⟨product, count, ran, exact, lt⟩ := fits makerRebate
    obtain ⟨opposite, negated⟩ := @Word.negSigned_fits 256 (product.sdiv 10000) (by rw [share_exact exact]; omega) (by decide)
    exact ⟨opposite, bind_ok.mpr ⟨product, orRevert_ok.mpr ran, orRevert_ok.mpr negated⟩⟩
  | false =>
    obtain ⟨product, count, ran, exact, lt⟩ := fits takerFee
    have almost : (9999 : Int256).toInt = 9999 := by decide
    obtain ⟨raised, sum⟩ := @Word.addSigned_fits 256 product 9999 (by rw [exact, almost]; omega) (by decide)
    refine ⟨raised.sdiv 10000, bind_ok.mpr ⟨product, orRevert_ok.mpr ran, bind_ok.mpr ⟨raised, orRevert_ok.mpr sum, rfl⟩⟩⟩

/-- Nothing overflows on either side, the volumes are the same, and so are the fees. -/
def Agrees (storage : Storage) (entry : Entry) (side : OrderSide) (amount price : UInt64) : Prop :=
  ∃ volume sized charged, Gateway.sideVolume side amount price = some volume ∧
    SettlementExchange.volume entry = .ok sized ∧ sized.toInt = volume.toNat ∧
    fee storage entry sized = .ok charged ∧ Gateway.roleFee entry.isMaker volume = some charged.toInt

/-- The gateway's math is the contract's, for every fill of an amount at a price. -/
def MathAgrees (amount price : UInt64) : Prop :=
  ∀ (storage : Storage) (order : Gateway.Order) signature isMaker, storage.takerFeeBps = 50 → storage.makerRebateBps = 10 →
    order.price = price → Agrees storage (order.entry signature amount isMaker) order.side amount price

private theorem entry_small (order : Gateway.Order) (signature : Bytes) (amount : UInt64) (isMaker : Bool) :
    (order.entry signature amount isMaker).fill.toNat * (order.entry signature amount isMaker).order.price.toNat < 2 ^ 128 := by
  have fill : (order.entry signature amount isMaker).fill.toNat = amount.toNat := toNat_word amount
  have price : (order.entry signature amount isMaker).order.price.toNat = order.price.toNat := toNat_word order.price
  rw [fill, price]
  exact Gateway.product_lt amount order.price

theorem agrees_iff (order : Gateway.Order) (signature : Bytes) (amount : UInt64) (isMaker : Bool)
    (takerFee : storage.takerFeeBps = 50) (makerRebate : storage.makerRebateBps = 10) :
    Agrees storage (order.entry signature amount isMaker) order.side amount order.price ↔
      isMaker = true ∨ 200 ∣ Gateway.volumeAt order.side amount order.price := by
  have capped : storage.takerFeeBps ≤ 1000 ∧ storage.makerRebateBps ≤ 1000 := by
    rw [takerFee, makerRebate]
    decide
  have rates : storage.takerFeeBps.toNat = 50 ∧ storage.makerRebateBps.toNat = 10 := by
    rw [takerFee, makerRebate]
    decide
  have small := Gateway.volumeAt_lt order.side amount order.price
  obtain ⟨volume, sizedHere, same⟩ := Gateway.sideVolume_exact order.side amount order.price
  obtain ⟨sized, sizedThere⟩ := @volume_returns (order.entry signature amount isMaker) (entry_small ..)
  have exact := (volume_exact sizedThere).trans (congrArg Nat.cast (exactVolume_entry order signature amount isMaker))
  obtain ⟨charged, ran⟩ := @fee_returns storage (order.entry signature amount isMaker) _ _ exact (by omega) capped.1 capped.2
  have fees : Gateway.roleFee isMaker volume = some charged.toInt ↔
      isMaker = true ∨ 200 ∣ Gateway.volumeAt order.side amount order.price := by
    have role : (order.entry signature amount isMaker).isMaker = isMaker := rfl
    rw [Gateway.roleFee_exact (by omega), fee_exact exact capped.1 capped.2 ran, role, same, rates.1, rates.2,
      TAKER_FEE_BPS, MAKER_REBATE_BPS, Option.some.injEq]
    cases isMaker with
    | true => simp
    | false =>
      rw [Nat.ceilDiv_eq_add_pred_div]
      simp only [Bool.false_eq_true, if_false, false_or]
      omega
  rw [← fees]
  constructor
  · intro agrees
    obtain ⟨other, otherSized, otherCharged, here, there, -, taken, agree⟩ := agrees
    cases sizedHere.symm.trans here
    cases sizedThere.symm.trans there
    cases ran.symm.trans taken
    exact agree
  · intro agree
    exact ⟨volume, sized, charged, sizedHere, sizedThere, by rw [exact, same], ran, agree⟩

private theorem whole_iff (amount price : UInt64) :
    (∀ side, 200 ∣ Gateway.volumeAt side amount price) ↔ 200000000 ∣ amount.toNat * price.toNat := by
  constructor
  · intro whole
    have up := whole .buy
    have down := whole .sell
    rw [Gateway.volumeAt, Nat.ceilDiv_eq_add_pred_div] at up
    rw [Gateway.volumeAt] at down
    omega
  · intro whole side
    cases side with
    | buy =>
      rw [Gateway.volumeAt, Nat.ceilDiv_eq_add_pred_div]
      omega
    | sell =>
      rw [Gateway.volumeAt]
      omega

/-- The gateway's volumes, fees and rebates are the contract's exactly where neither side's
volume is rounded and its taker fee is whole: for every u64 amount and price. -/
theorem fee_math_agrees (amount price : UInt64) : MathAgrees amount price ↔ 200000000 ∣ amount.toNat * price.toNat := by
  rw [← whole_iff]
  constructor
  · intro agrees side
    let order : Gateway.Order := ⟨0, 0, 0, price, amount, side, 0, 0⟩
    let storage : Storage := { deploy 0 with takerFeeBps := 50, makerRebateBps := 10 }
    -- every rebate agrees, so the fill of a taker decides
    have taker := (agrees_iff order [] amount false rfl rfl).mp (agrees storage order [] false rfl rfl rfl)
    exact taker.resolve_left nofun
  · intro whole storage order signature isMaker takerFee makerRebate priced
    subst priced
    exact (agrees_iff order signature amount isMaker takerFee makerRebate).mpr (.inr (whole order.side))

namespace Sample

def constantFees : Storage := { deploy 0 with takerFeeBps := 50, makerRebateBps := 10 }

def wholeShare : Gateway.Order := ⟨0, 0, 0, 1000000, 1, .buy, 0, 0⟩

end Sample

/-- On a volume of 1 the gateway takes no fee, and the contract takes 1. -/
theorem fee_math_agrees_fails : Gateway.takerFee 1 = some 0 ∧
    fee Sample.constantFees (Sample.wholeShare.entry [] 1 false) 1 = .ok 1 ∧ ¬ MathAgrees 1 1000000 := by
  refine ⟨by decide +kernel, by decide +kernel, fun agrees => ?_⟩
  have taker := (agrees_iff Sample.wholeShare [] 1 false rfl rfl).mp
    (agrees Sample.constantFees Sample.wholeShare [] false rfl rfl rfl)
  exact absurd (taker.resolve_left nofun) (by decide)

end SettlementExchange

end Omniscient

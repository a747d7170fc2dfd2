import Mathlib.Algebra.Order.Floor.Div
import Omniscient.Proofs.DeliveryVersusPayment

/-! The USDC legs in exact integers. The casts to int256 and the checked
products never change a value, and each rounding is a floor or a ceiling. -/

namespace Omniscient.SettlementExchange
open Outcome

variable {storage : Storage} {entry : Entry}

structure Rates where
  takerFeeBps : Nat
  makerRebateBps : Nat
  deriving DecidableEq, Repr

def Storage.rates (storage : Storage) : Rates := ⟨storage.takerFeeBps.toNat, storage.makerRebateBps.toNat⟩

def exactVolume (entry : Entry) : Nat :=
  if entry.order.side = 0 then (entry.fill.toNat * entry.order.price.toNat) ⌈/⌉ 1000000
  else entry.fill.toNat * entry.order.price.toNat / 1000000

def exactFee (rates : Rates) (entry : Entry) : Int :=
  if entry.isMaker then -((exactVolume entry * rates.makerRebateBps / 10000 : Nat) : Int)
  else ((exactVolume entry * rates.takerFeeBps) ⌈/⌉ 10000 : Nat)

def exactLeg (rates : Rates) (entry : Entry) : Int :=
  if entry.order.side = 0 then -(exactVolume entry + exactFee rates entry) else exactVolume entry - exactFee rates entry

theorem toInt_small {value : Uint256} (small : value.toNat < 2 ^ 255) : value.toInt = value.toNat :=
  BitVec.toInt_eq_toNat_of_lt (by omega)

theorem volume_exact {volume : Int256} (ran : SettlementExchange.volume entry = .ok volume) :
    volume.toInt = exactVolume entry := by
  have small (value : Uint256) : (value / 1000000).toInt = (value.toNat / 1000000 : Nat) := by
    have bound := value.isLt
    have quotient : (value / 1000000).toNat = value.toNat / 1000000 := by simp
    rw [toInt_small (by omega), quotient]
  simp only [SettlementExchange.volume, bind_ok, orRevert_ok, Word.mul_some] at ran
  obtain ⟨product, exact, rounded⟩ := ran
  unfold exactVolume
  rw [← exact]
  split at rounded
  next buy =>
    simp only [bind_ok, orRevert_ok, pure_ok, Word.add_some] at rounded
    obtain ⟨raised, sum, rfl⟩ := rounded
    have almost : (999999 : Uint256).toNat = 999999 := by decide
    rw [small, if_pos buy, sum, almost, Nat.ceilDiv_eq_add_pred_div, Nat.add_sub_assoc (by decide)]
  next other =>
    rw [← pure_ok.mp rounded, small, if_neg other]

theorem rate_exact {rate : Uint256} (capped : rate ≤ 1000) : rate.toInt = rate.toNat := by
  have bound : rate.toNat ≤ 1000 := capped
  exact toInt_small (by omega)

theorem share_exact {value : Int256} {count : Nat} (exact : value.toInt = count) :
    (value.sdiv 10000).toInt = (count / 10000 : Nat) := by
  have unit : (10000 : Int256).toInt = 10000 := by decide
  rw [BitVec.toInt_sdiv_of_ne_or_ne _ _ (.inr (by decide)), exact, unit, Int.natCast_div]
  exact Int.tdiv_eq_ediv_of_nonneg (Int.natCast_nonneg _)

theorem fee_exact {volume fee : Int256} {amount : Nat} (positive : volume.toInt = amount)
    (takerFee : storage.takerFeeBps ≤ 1000) (makerRebate : storage.makerRebateBps ≤ 1000)
    (ran : SettlementExchange.fee storage entry volume = .ok fee) :
    fee.toInt = if entry.isMaker then -((amount * storage.makerRebateBps.toNat / 10000 : Nat) : Int)
      else ((amount * storage.takerFeeBps.toNat) ⌈/⌉ 10000 : Nat) := by
  unfold SettlementExchange.fee at ran
  split at ran
  next maker =>
    simp only [bind_ok, orRevert_ok, Word.mulSigned_some, Word.negSigned_some] at ran
    obtain ⟨product, exact, opposite⟩ := ran
    rw [positive, rate_exact makerRebate, ← Nat.cast_mul] at exact
    rw [if_pos maker, opposite, share_exact exact]
  next taker =>
    simp only [bind_ok, orRevert_ok, pure_ok, Word.mulSigned_some, Word.addSigned_some] at ran
    obtain ⟨product, exact, raised, sum, rfl⟩ := ran
    rw [positive, rate_exact takerFee, ← Nat.cast_mul] at exact
    have total : raised.toInt = (amount * storage.takerFeeBps.toNat + 9999 : Nat) := by
      have almost : (9999 : Int256).toInt = 9999 := by decide
      rw [sum, exact, almost, Nat.cast_add, Nat.cast_ofNat]
    rw [if_neg taker, share_exact total, Nat.ceilDiv_eq_add_pred_div, Nat.add_sub_assoc (by decide)]

theorem leg_exact {leg : Leg} (takerFee : storage.takerFeeBps ≤ 1000) (makerRebate : storage.makerRebateBps ≤ 1000)
    (ran : usdcLeg storage entry = .ok leg) : leg.amount = exactLeg storage.rates entry := by
  obtain ⟨volume, fee, sized, charged, booked⟩ := usdcLeg_ok ran
  have size := volume_exact sized
  have rate : fee.toInt = exactFee storage.rates entry := fee_exact size takerFee makerRebate charged
  unfold exactLeg
  split at booked
  next buy =>
    obtain ⟨charge, rfl, sum⟩ := booked
    rw [if_pos buy, Leg.amount, sum, size, rate]
  next other =>
    obtain ⟨credit, rfl, difference⟩ := booked
    rw [if_neg other, Leg.amount, difference, size, rate]

end Omniscient.SettlementExchange

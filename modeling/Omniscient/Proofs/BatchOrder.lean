import Mathlib.Tactic.Linarith
import Omniscient.Proofs.ProtocolFees
import Omniscient.Proofs.ShareTransfers
import Omniscient.Proofs.SignedBalances

/-! A batch settles the same in any order. Whether `settleBatch` returns is read off
conditions on the batch as a whole, sums and quantifiers over its entries, and so is
what it leaves behind. -/

namespace Omniscient.SettlementExchange
open Outcome

variable {σ κ : Type} {env : Env σ κ} {msg : Message} {storage : Storage} {entry : Entry} {entries : List Entry}
  {acc : Accrual}

def legBound : Nat := 2 ^ 112

theorem exactVolume_le (small : entry.Small) : exactVolume entry ≤ 2 ^ 110 := by
  have product : entry.fill.toNat * entry.order.price.toNat ≤ 2 ^ 64 * 2 ^ 64 :=
    Nat.mul_le_mul small.fill.le small.price.le
  unfold exactVolume
  split
  next => rw [Nat.ceilDiv_eq_add_pred_div]; omega
  next => omega

theorem exactFee_le {rates : Rates} (taker : rates.takerFeeBps ≤ 1000) (maker : rates.makerRebateBps ≤ 1000)
    (small : entry.Small) : (exactFee rates entry).natAbs ≤ 2 ^ 110 := by
  have size := exactVolume_le small
  have rebate := Nat.mul_le_mul size maker
  have fee := Nat.mul_le_mul size taker
  unfold exactFee
  split
  next => omega
  next => rw [Nat.ceilDiv_eq_add_pred_div]; omega

private theorem leg_le {leg : Leg} (takerFee : storage.takerFeeBps ≤ 1000) (makerRebate : storage.makerRebateBps ≤ 1000)
    (small : entry.Small) (owed : usdcLeg storage entry = .ok leg) : leg.amount.natAbs ≤ legBound := by
  have size := exactVolume_le small
  have fee := @exactFee_le entry storage.rates takerFee makerRebate small
  rw [leg_exact takerFee makerRebate owed, exactLeg, legBound]
  split <;> omega

structure Accrual.Bounded (exchange : Address) (bound : Nat) (acc : Accrual) : Prop where
  cells : Postings.Bounded bound (acc.deltas.take acc.deltaCount)
  net : acc.exchangeUsdcNet.toInt.natAbs ≤ bound
  foreign : exchange ∉ (acc.deltas.take acc.deltaCount).map Posting.account

theorem accrue_bounded {self account : Address} {amount : Int256} {bound : Nat} (bounded : acc.Bounded self bound)
    (room : acc.deltaCount < acc.deltas.length) (size : amount.toInt.natAbs ≤ legBound) (fits : bound + legBound ≤ 2 ^ 180)
    (foreign : account ≠ self) : ∃ next, accrue account amount acc = .ok next ∧
      Postings.Bounded (bound + legBound) (next.deltas.take next.deltaCount) ∧
      self ∉ (next.deltas.take next.deltaCount).map Posting.account ∧ next.exchangeUsdcNet = acc.exchangeUsdcNet := by
  obtain ⟨cells, count, ran, accounts, amounts⟩ := @Postings.accrue_returns _ _ _ _ (Error.panic .arithmetic)
    (.panic .outOfBounds) account amount acc.deltas acc.deltaCount bound room bounded.cells
    (Nat.lt_of_le_of_lt (show _ ≤ 2 ^ 180 by omega) (Nat.pow_lt_pow_right (by decide) (by decide))) (by decide)
  refine ⟨_, bind_ok.mpr ⟨_, ran, rfl⟩, ⟨accounts, fun cell member => (amounts cell member).trans (by omega)⟩, ?_, rfl⟩
  have absent := bounded.foreign
  rw [(Postings.accrue_ok ran).accounts]
  split
  next => exact absent
  next =>
    simp only [List.mem_append, List.mem_singleton, not_or]
    exact ⟨absent, foreign.symm⟩

private theorem bookLeg_bounded {self maker : Address} {leg : Leg} {bound : Nat} (bounded : acc.Bounded self bound)
    (room : acc.deltaCount < acc.deltas.length) (size : leg.amount.natAbs ≤ legBound) (fits : bound + legBound ≤ 2 ^ 180)
    (foreign : maker ≠ self) : ∃ next, bookLeg maker leg acc = .ok next ∧ next.Bounded self (bound + legBound) := by
  have net := bounded.net
  have wide : (2 : Nat) ^ 200 < 2 ^ (256 - 1) := Nat.pow_lt_pow_right (by decide) (by decide)
  have widest : legBound ≤ 2 ^ 180 := by omega
  cases leg with
  | buy charge =>
    simp only [Leg.amount] at size
    obtain ⟨amount, opposite⟩ := @Word.negSigned_fits _ charge (by omega) (by decide)
    have exact_amount := Word.negSigned_some.mp opposite
    obtain ⟨booked, accrued, cells, absent, same⟩ :=
      @accrue_bounded acc self maker amount bound bounded room (by omega) fits foreign
    obtain ⟨total, added⟩ := @Word.addSigned_fits _ acc.exchangeUsdcNet charge (by omega) (by decide)
    have sum := Word.addSigned_some.mp added
    refine ⟨{ booked with exchangeUsdcNet := total }, ?_, cells, by dsimp only; omega, absent⟩
    simp only [bookLeg, bind_ok, orRevert_ok, pure_ok]
    exact ⟨amount, opposite, booked, accrued, total, same ▸ added, rfl⟩
  | sell credit =>
    simp only [Leg.amount] at size
    obtain ⟨booked, accrued, cells, absent, same⟩ :=
      @accrue_bounded acc self maker credit bound bounded room size fits foreign
    obtain ⟨total, subtracted⟩ := @Word.subSigned_fits _ acc.exchangeUsdcNet credit (by omega) (by decide)
    have difference := Word.subSigned_some.mp subtracted
    refine ⟨{ booked with exchangeUsdcNet := total }, ?_, cells, by dsimp only; omega, absent⟩
    simp only [bookLeg, bind_ok, orRevert_ok, pure_ok]
    exact ⟨booked, accrued, total, same ▸ subtracted, rfl⟩

def Entry.Authorized (env : Env σ κ) (msg : Message) (storage : Storage) (entry : Entry) : Prop :=
  ∃ leg, usdcLeg storage entry = .ok leg ∧ msg.timestamp ≤ entry.order.deadline ∧
    entry.order.nonce = storage.nonces entry.order.maker ∧
    env.custody.crypto.recover (hashOrder env entry.order) entry.signed.signature = some entry.order.maker

theorem hashTotal_cons (hash : Bytes32) : hashTotal env hash (entry :: entries) =
    (if hashOrder env entry.order = hash then entry.fill.toNat else 0) + hashTotal env hash entries := by
  simp [hashTotal]

structure Accruing (env : Env σ κ) (msg : Message) (storage : Storage) (entries : List Entry) (acc : Accrual) : Prop where
  small : ∀ entry ∈ entries, entry.Small
  foreign : ∀ entry ∈ entries, entry.order.maker ≠ env.self
  authorized : ∀ entry ∈ entries, entry.fill ≠ 0 → entry.Authorized env msg storage
  within : ∀ entry ∈ entries, entry.fill ≠ 0 → (acc.filledAmount (hashOrder env entry.order)).toNat +
    hashTotal env (hashOrder env entry.order) entries ≤ entry.order.amount.toNat
  room : acc.deltaCount + entries.length < acc.deltas.length
  bounded : ∃ bound, acc.Bounded env.self bound ∧ bound + entries.length * legBound ≤ 2 ^ 180

private theorem settleEntry_returns (takerFee : storage.takerFeeBps ≤ 1000)
    (makerRebate : storage.makerRebateBps ≤ 1000)
    (accruing : Accruing env msg storage (entry :: entries) acc) :
    ∃ next, settleEntry env msg storage acc entry = .ok next ∧ Accruing env msg storage entries next := by
  obtain ⟨small, foreign, authorized, within, room, bound, bounded, fits⟩ := accruing
  rw [List.length_cons] at room fits
  have rest : bound + entries.length * legBound ≤ 2 ^ 180 := by linarith
  have step : bound + legBound + entries.length * legBound ≤ 2 ^ 180 := by linarith
  have returned : ∃ next bound, settleEntry env msg storage acc entry = .ok next ∧ next.Bounded env.self bound ∧
      bound + entries.length * legBound ≤ 2 ^ 180 := by
    unfold settleEntry
    split
    next => exact ⟨acc, bound, rfl, bounded, rest⟩
    next filled =>
      obtain ⟨leg, owed, inTime, nonce, recovered⟩ := authorized entry List.mem_cons_self filled
      have total_le := within entry List.mem_cons_self filled
      rw [hashTotal_cons, if_pos rfl] at total_le
      have amount := (small entry List.mem_cons_self).amount
      obtain ⟨total, added⟩ := @Word.add_fits _ (acc.filledAmount (hashOrder env entry.order)) entry.fill (by omega)
      have sum := Word.add_some.mp added
      have checked : checkFill (acc.filledAmount (hashOrder env entry.order)) total entry.order.amount = .ok () := by
        refine if_neg ?_
        rw [BitVec.lt_def]
        omega
      obtain ⟨next, booked, kept⟩ := @bookLeg_bounded
        { acc with filledAmount := Function.update acc.filledAmount (hashOrder env entry.order) total } env.self
        entry.order.maker leg bound ⟨bounded.cells, bounded.net, bounded.foreign⟩ (by dsimp only; omega)
        (leg_le takerFee makerRebate (small entry List.mem_cons_self) owed) (by omega)
        (foreign entry List.mem_cons_self)
      refine ⟨next, bound + legBound, ?_, kept, step⟩
      simp only [bind_ok, revertIf_ok, orRevert_ok, gt_iff_lt, BitVec.not_lt, ne_eq, Decidable.not_not]
      exact ⟨(), inTime, (), nonce, _, recovered, (), rfl, total, added, (), checked, leg, owed, booked⟩
  obtain ⟨next, bound, ran, kept, fits⟩ := returned
  obtain ⟨filled, booked⟩ := settleEntry_accrual ran
  have length := booked.length
  have grown := booked.grown
  dsimp only at length grown
  refine ⟨next, ran, fun other member => small other (List.mem_cons_of_mem _ member),
    fun other member => foreign other (List.mem_cons_of_mem _ member),
    fun other member => authorized other (List.mem_cons_of_mem _ member), fun other member nonempty => ?_, by omega,
    bound, kept, fits⟩
  have before := within other (List.mem_cons_of_mem _ member) nonempty
  rw [hashTotal_cons] at before
  have now := filled (hashOrder env other.order)
  omega

/-- `settleBatch` on the arrays of a list of entries. -/
def settle (env : Env σ κ) (msg : Message) (batchId : Bytes32) (entries : List Entry) (world : World σ κ) :
    Except Error (World σ κ) :=
  settleBatch env msg batchId (entries.map Entry.signed) (entries.map Entry.fill) (entries.map Entry.isMaker) world

theorem entriesOf_map : entriesOf (entries.map Entry.signed) (entries.map Entry.fill) (entries.map Entry.isMaker) = entries := by
  induction entries with
  | nil => rfl
  | cons entry entries ih => exact congrArg (entry :: ·) ih

def bookedTo (storage : Storage) (entries : List Entry) (account : Address) : Int :=
  (entries.map fun entry => if entry.order.maker = account then entry.booked storage else 0).sum

def bookedSum (storage : Storage) (entries : List Entry) : Int := (entries.map (Entry.booked storage)).sum

structure Admissible (env : Env σ κ) (msg : Message) (batchId : Bytes32)
    (permitted : κ → Address → Address → Address → Prop) (entries : List Entry) (world : World σ κ) : Prop where
  operator : world.exchange.hasRole .operator msg.sender = true
  unpaused : world.exchange.paused = false
  fresh : world.exchange.settledBatches batchId = false
  authorized : ∀ entry ∈ entries, entry.fill ≠ 0 → entry.Authorized env msg world.exchange
  within : ∀ entry ∈ entries, entry.fill ≠ 0 → (world.exchange.filledAmount (hashOrder env entry.order)).toNat +
    hashTotal env (hashOrder env entry.order) entries ≤ entry.order.amount.toNat
  net : bookedSum world.exchange entries ≤ 0
  vaultUnpaused : world.custody.paused = false
  settlement : world.custody.hasRole .settlement env.self = true
  unapplied : world.custody.appliedBatches batchId = false
  solvent : ∀ account, 0 ≤ ((world.custody.balances account).toNat : Int) + bookedTo world.exchange entries account
  deliverable : Deliverable env permitted entries world.ctf

variable {batchId : Bytes32} {permitted : κ → Address → Address → Address → Prop} {world after : World σ κ}

theorem settle_ok (ran : settle env msg batchId entries world = .ok after) :
    (∃ acc, each (settleEntry env msg world.exchange) (.initial world.exchange entries.length) entries = .ok acc) ∧
    world.custody.paused = false ∧ world.custody.hasRole .settlement env.self = true ∧
    world.custody.appliedBatches batchId = false ∧ BatchSettled env msg batchId entries world after := by
  have batch := settleBatch_ok ran
  rw [entriesOf_map] at batch
  simp only [settle, settleBatch, bind_ok, mapError_ok, entriesOf_map, List.length_map] at ran
  obtain ⟨-, -, -, -, -, -, -, -, acc, looped, -, -, deltas, -, custody, applied, -⟩ := ran
  obtain ⟨unpaused, trusted, fresh, -⟩ := Custody.applyNetDeltas_ok applied
  exact ⟨⟨acc, looped⟩, unpaused, trusted, fresh, batch⟩

private theorem settleEntries_room (ran : each (settleEntry env msg storage) acc entries = .ok acc') :
    ∀ entry ∈ entries, entry.fill ≠ 0 → acc.filledAmount (hashOrder env entry.order) ≤ entry.order.amount := by
  induction entries generalizing acc with
  | nil => simp
  | cons first entries ih =>
    obtain ⟨next, once, rest⟩ := bind_ok.mp ran
    intro entry member filled
    rcases List.mem_cons.mp member with rfl | later
    · rcases settleEntry_ok once with ⟨empty, -⟩ | ⟨-, leg, total, settled, -, -⟩
      · exact absurd empty filled
      · exact BitVec.le_def.mpr (le_trans (Nat.le_add_right _ _) settled.within)
    · have grown := (settleEntry_accrual once).1 (hashOrder env entry.order)
      refine BitVec.le_def.mpr (le_trans ?_ (BitVec.le_def.mp (ih rest entry later filled)))
      omega

structure Accrued (env : Env σ κ) (storage : Storage) (entries : List Entry) (acc : Accrual) : Prop where
  room : acc.deltaCount < acc.deltas.length
  count : acc.deltaCount ≤ entries.length
  bounded : acc.Bounded env.self (2 ^ 180)
  booked : ∀ account, Postings.net (acc.deltas.take acc.deltaCount) account = bookedTo storage entries account
  net : acc.exchangeUsdcNet.toInt = -bookedSum storage entries
  conserved : Postings.sum (acc.deltas.take acc.deltaCount) = bookedSum storage entries

private theorem admissible_loop (capped : Capped world) (small : ∀ entry ∈ entries, entry.Small)
    (few : entries.length < 2 ^ 64) (foreign : ∀ entry ∈ entries, entry.order.maker ≠ env.self)
    (admissible : Admissible env msg batchId permitted entries world) :
    ∃ acc, each (settleEntry env msg world.exchange) (.initial world.exchange entries.length) entries = .ok acc ∧
      Accrued env world.exchange entries acc := by
  obtain ⟨acc, ran, done⟩ := @each_returns _ _ _ (settleEntry env msg world.exchange) entries
    (.initial world.exchange entries.length) (Accruing env msg world.exchange)
    (fun _ _ _ => settleEntry_returns capped.1 capped.2)
    ⟨small, foreign, admissible.authorized, admissible.within, by simp [Accrual.initial], 0,
      ⟨⟨by simp [Accrual.initial], by simp [Accrual.initial]⟩, by simp [Accrual.initial], by simp [Accrual.initial]⟩, by
        have total := Nat.mul_le_mul_right legBound few.le
        have wide : 2 ^ 64 * legBound ≤ 2 ^ 180 := by decide
        omega⟩
  obtain ⟨-, accrued, net⟩ := settleEntries_ok ran
  have length : acc.deltas.length = entries.length + 1 := by
    refine each_keeps (fun acc : Accrual => acc.deltas.length = entries.length + 1) ran (fun before entry next _ once kept => ?_)
      (by simp [Accrual.initial])
    exact (settleEntry_accrual once).2.length.trans kept
  have sum := each_sum (fun acc : Accrual => Postings.sum (acc.deltas.take acc.deltaCount))
    (Entry.booked world.exchange) ran fun _ _ _ _ once => (settleEntry_accrual once).2.sum
  have room := done.room
  obtain ⟨bound, ⟨⟨accounts, amounts⟩, netBound, absent⟩, wide⟩ := done.bounded
  have start : (Accrual.initial world.exchange entries.length).exchangeUsdcNet.toInt = 0 := rfl
  refine ⟨acc, ran, by simpa using room, by simp at room; omega,
    ⟨⟨accounts, fun cell member => (amounts cell member).trans (by simp at wide; omega)⟩, by simp at wide; omega, absent⟩,
    fun account => ?_, ?_, ?_⟩
  · simpa [Accrual.initial, bookedTo] using accrued account
  · rw [net, start, zero_sub, bookedSum]
  · simpa [Accrual.initial, bookedSum] using sum

def Accrual.vaultDeltas (exchange : Address) (acc : Accrual) : List Custody.BalanceDelta :=
  acc.deltas.take acc.deltaCount ++ [⟨exchange, acc.exchangeUsdcNet⟩]

private theorem accrued_bearable (accrued : Accrued env world.exchange entries acc)
    (admissible : Admissible env msg batchId permitted entries world)
    (funds : ∀ account, (world.custody.balances account).toNat < 2 ^ 128) :
    Custody.Bearable world.custody (acc.vaultDeltas env.self) (2 ^ 180) := by
  obtain ⟨cells, netBound, foreign⟩ := accrued.bounded
  have net := accrued.net
  have positive := admissible.net
  have each_delta : ∀ delta ∈ acc.vaultDeltas env.self, delta.amount.toInt.natAbs ≤ 2 ^ 180 ∧
      0 ≤ ((world.custody.balances delta.account).toNat : Int) + delta.amount.toInt := by
    intro delta member
    rcases List.mem_append.mp member with cell | own
    · have owed := accrued.booked delta.account
      rw [Postings.net_of_mem cells.accounts cell] at owed
      exact ⟨cells.amounts delta cell, owed ▸ admissible.solvent delta.account⟩
    · obtain rfl := List.mem_singleton.mp own
      exact ⟨netBound, by dsimp only; omega⟩
  refine ⟨?_, fun delta member => (each_delta delta member).1, fun delta member => (each_delta delta member).2,
    fun delta member => ?_⟩
  · rw [Accrual.vaultDeltas, List.map_append, List.nodup_append]
    refine ⟨cells.accounts, by simp, ?_⟩
    rintro account used _ (⟨⟩ | ⟨_, ⟨⟩⟩) rfl
    exact foreign used
  · have size := (each_delta delta member).1
    have held := funds delta.account
    omega

private theorem accrued_applies (few : entries.length < 2 ^ 64) (accrued : Accrued env world.exchange entries acc)
    (admissible : Admissible env msg batchId permitted entries world)
    (funds : ∀ account, (world.custody.balances account).toNat < 2 ^ 128) :
    ∃ custody, Custody.applyNetDeltas ⟨env.self, msg.timestamp⟩ batchId (acc.vaultDeltas env.self) world.custody =
      .ok custody := by
  have bearable := accrued_bearable accrued admissible funds
  have count := accrued.count
  have conserved := accrued.conserved
  have net := accrued.net
  apply Custody.applyNetDeltas_returns admissible.vaultUnpaused admissible.settlement admissible.unapplied (by decide) ?_ ?_
    bearable
  · have length : (acc.vaultDeltas env.self).length ≤ 2 ^ 64 := by
      rw [Accrual.vaultDeltas, List.length_append, List.length_take, List.length_singleton]
      omega
    exact (Nat.mul_le_mul_right _ length).trans_lt (by decide)
  · rw [Postings.sum, Accrual.vaultDeltas, List.map_append, List.sum_append, ← Postings.sum]
    simp only [List.map_cons, List.map_nil, List.sum_cons, List.sum_nil]
    omega

section
variable (lawful : env.ctf.Lawful permitted) (capped : Capped world) (small : ∀ entry ∈ entries, entry.Small)
  (few : entries.length < 2 ^ 64) (foreign : ∀ entry ∈ entries, entry.order.maker ≠ env.self)
  (single : ∀ entry ∈ entries, ∀ other ∈ entries, hashOrder env entry.order = hashOrder env other.order →
    entry.order = other.order)
  (funds : ∀ account, (world.custody.balances account).toNat < 2 ^ 128)
  (held : ∀ account position, (env.ctf.balanceOf world.ctf account position).toNat < 2 ^ 128)
include lawful small few foreign held

theorem settle_admissible (single : ∀ entry ∈ entries, ∀ other ∈ entries,
      hashOrder env entry.order = hashOrder env other.order → entry.order = other.order)
    (ran : settle env msg batchId entries world = .ok after) : Admissible env msg batchId permitted entries world := by
  obtain ⟨⟨acc, looped⟩, vaultUnpaused, settlement, unapplied, batch⟩ := settle_ok ran
  refine ⟨batch.operator, batch.unpaused, batch.fresh, batch.settled, fun entry member filled => ?_, batch.net,
    vaultUnpaused, settlement, unapplied, fun account => ?_,
    (settleCtf_iff lawful foreign small few held).mp ⟨after.ctf, batch.shares⟩⟩
  · have total := batch.filled (hashOrder env entry.order)
    have room := settleEntries_room looped entry member filled
    have within := BitVec.le_def.mp (batch.within entry.order (fun other among => single other among entry member) room)
    rw [hashTotal]
    omega
  · have moved := batch.balances account
    by_cases own : env.self = account
    · subst own
      have none : bookedTo world.exchange entries env.self = 0 := by
        apply List.sum_eq_zero
        intro amount counted
        obtain ⟨entry, member, rfl⟩ := List.mem_map.mp counted
        exact if_neg (foreign entry member)
      omega
    · rw [if_neg own, sub_zero] at moved
      rw [bookedTo]
      omega

include capped funds in
theorem admissible_settles (admissible : Admissible env msg batchId permitted entries world) :
    ∃ after, settle env msg batchId entries world = .ok after := by
  obtain ⟨acc, looped, accrued⟩ := @admissible_loop _ _ env msg entries batchId permitted world capped small few foreign admissible
  have balanced : balancingDelta env.self acc = .ok (acc.deltas.set acc.deltaCount ⟨env.self, acc.exchangeUsdcNet⟩) :=
    if_pos accrued.room
  obtain ⟨custody, applied⟩ := accrued_applies few accrued admissible funds
  obtain ⟨ctf, shares⟩ := (settleCtf_iff lawful foreign small few held).mpr admissible.deliverable
  have nonneg : ¬ acc.exchangeUsdcNet.toInt < 0 := by
    have net := accrued.net
    have positive := admissible.net
    omega
  refine ⟨{
    custody
    ctf
    exchange := { world.exchange with
      filledAmount := acc.filledAmount
      settledBatches := Function.update world.exchange.settledBatches batchId true } }, ?_⟩
  simp only [settle, settleBatch, onlyRole, whenNotPaused, bind_ok, revertIf_ok, mapError_ok, pure_ok, Bool.not_eq_true,
    Bool.not_eq_false, not_or, Decidable.not_not, entriesOf_map, List.length_map, ne_eq, and_self]
  exact ⟨(), admissible.operator, (), admissible.unpaused, (), admissible.fresh, (), trivial, acc, looped, (), nonneg, _,
    balanced, custody, balancingDelta_ok balanced ▸ applied, ctf, shares, rfl⟩

end

section
variable {reordered : List Entry} (reorders : entries.Perm reordered)
include reorders

private theorem deliverable_perm {ctf : κ} (deliverable : Deliverable env permitted entries ctf) :
    Deliverable env permitted reordered ctf := by
  have inward : (pulls env.self entries).Perm (pulls env.self reordered) := reorders.filterMap _
  have outward : (pushes env.self entries).Perm (pushes env.self reordered) := reorders.filterMap _
  obtain ⟨conserved, ⟨allowed, payable⟩, permitted, covered⟩ := deliverable
  refine ⟨fun position => ?_, ⟨fun move member => allowed move (inward.mem_iff.mpr member), fun account position => ?_⟩,
    fun move member => permitted move (outward.mem_iff.mpr member), fun account position => ?_⟩
  · rw [← (reorders.map _).sum_eq]
    exact conserved position
  · rw [given, ← (inward.map _).sum_eq]
    exact payable account position
  · rw [given, given, received, ← (outward.map _).sum_eq, ← (inward.map _).sum_eq, ← (inward.map _).sum_eq]
    exact covered account position

theorem admissible_perm (admissible : Admissible env msg batchId permitted entries world) :
    Admissible env msg batchId permitted reordered world := by
  refine { admissible with
    authorized := fun entry member => admissible.authorized entry (reorders.mem_iff.mpr member)
    within := fun entry member filled => ?_
    net := ?_
    solvent := fun account => ?_
    deliverable := deliverable_perm reorders admissible.deliverable }
  · rw [hashTotal, ← (reorders.map _).sum_eq]
    exact admissible.within entry (reorders.mem_iff.mpr member) filled
  · rw [bookedSum, ← (reorders.map _).sum_eq]
    exact admissible.net
  · rw [bookedTo, ← (reorders.map _).sum_eq]
    exact admissible.solvent account

structure SameOutcome (env : Env σ κ) (first second : World σ κ) : Prop where
  balances : first.custody.balances = second.custody.balances
  filledAmount : first.exchange.filledAmount = second.exchange.filledAmount
  shares : ∀ account position, env.ctf.balanceOf first.ctf account position = env.ctf.balanceOf second.ctf account position

private theorem same_outcome (exact : env.ctf.Exact) {other : World σ κ}
    (ran : settle env msg batchId entries world = .ok after)
    (again : settle env msg batchId reordered world = .ok other) : SameOutcome env after other := by
  obtain ⟨-, -, -, -, first⟩ := settle_ok ran
  obtain ⟨-, -, -, -, second⟩ := settle_ok again
  have inward : (pulls env.self entries).Perm (pulls env.self reordered) := reorders.filterMap _
  have outward : (pushes env.self entries).Perm (pushes env.self reordered) := reorders.filterMap _
  refine ⟨funext fun account => ?_, funext fun hash => ?_, fun account position => ?_⟩
  · apply BitVec.eq_of_toNat_eq
    have moved := first.balances account
    have moved' := second.balances account
    rw [(reorders.map _).sum_eq, (reorders.map _).sum_eq] at moved
    omega
  · apply BitVec.eq_of_toNat_eq
    have moved := first.filled hash
    have moved' := second.filled hash
    rw [(reorders.map _).sum_eq] at moved
    omega
  · apply BitVec.eq_of_toNat_eq
    have moved := settleCtf_moved exact first.shares account position
    have moved' := settleCtf_moved exact second.shares account position
    simp only [given, received] at moved moved'
    rw [(inward.map _).sum_eq, (inward.map _).sum_eq, (outward.map _).sum_eq, (outward.map _).sum_eq] at moved
    omega

end

theorem capped_run {start : World σ κ} {deployer : Address} {history : List Action}
    (deployed : start.exchange = deploy deployer) (run : Run (Step env) start history world) : Capped world := by
  refine run.keeps Capped (fun state action after moved capped => ?_) ?_
  · cases moved with
    | custody | usdc | ctf => exact capped
    | @exchange msg call _ external ran =>
      by_cases kind : call.storageOnly = true
      · obtain ⟨-, -, kept⟩ := storageOnly_ok kind ran
        exact ⟨kept.takerFee capped.1, kept.makerRebate capped.2⟩
      · cases call with
        | settleBatch =>
          rw [Capped, (settleBatch_ok ran).exchange]
          exact capped
        | withdrawFees =>
          obtain ⟨-, custody, -, -, same, -⟩ := withdrawFees_ok ran
          rw [Capped, same]
          exact capped
        | _ => exact absurd rfl kind
  · have zero : (0 : Uint256) ≤ 1000 := by decide
    rw [Capped, deployed]
    exact ⟨zero, zero⟩

/-- A batch settles the same in every order of its entries: from one state it settles
in one order exactly when it does in the other, and both leave the same behind. -/
theorem batch_order (lawful : env.ctf.Lawful permitted) (capped : Capped world) {reordered : List Entry}
    (reorders : entries.Perm reordered) (small : ∀ entry ∈ entries, entry.Small) (few : entries.length < 2 ^ 64)
    (foreign : ∀ entry ∈ entries, entry.order.maker ≠ env.self)
    (single : ∀ entry ∈ entries, ∀ other ∈ entries, hashOrder env entry.order = hashOrder env other.order →
      entry.order = other.order)
    (funds : ∀ account, (world.custody.balances account).toNat < 2 ^ 128)
    (held : ∀ account position, (env.ctf.balanceOf world.ctf account position).toNat < 2 ^ 128) :
    ((∃ after, settle env msg batchId entries world = .ok after) ↔
      ∃ after, settle env msg batchId reordered world = .ok after) ∧
    ∀ after other, settle env msg batchId entries world = .ok after →
      settle env msg batchId reordered world = .ok other → SameOutcome env after other := by
  have small' : ∀ entry ∈ reordered, entry.Small := fun entry member => small entry (reorders.mem_iff.mpr member)
  have few' : reordered.length < 2 ^ 64 := reorders.length_eq ▸ few
  have foreign' : ∀ entry ∈ reordered, entry.order.maker ≠ env.self :=
    fun entry member => foreign entry (reorders.mem_iff.mpr member)
  have single' : ∀ entry ∈ reordered, ∀ other ∈ reordered, hashOrder env entry.order = hashOrder env other.order →
      entry.order = other.order :=
    fun entry member other among => single entry (reorders.mem_iff.mpr member) other (reorders.mem_iff.mpr among)
  refine ⟨⟨?_, ?_⟩, fun after other ran again => same_outcome reorders lawful.exact ran again⟩
  · intro holds
    obtain ⟨after, ran⟩ := holds
    have admissible := settle_admissible lawful small few foreign held single ran
    exact admissible_settles lawful capped small' few' foreign' funds held (admissible_perm reorders admissible)
  · intro holds
    obtain ⟨after, ran⟩ := holds
    have admissible := settle_admissible lawful small' few' foreign' held single' ran
    exact admissible_settles lawful capped small few foreign funds held (admissible_perm reorders.symm admissible)

namespace Sample

/-- Every account holds fifty in the vault and a hundred of every share, and may do anything. -/
def trading : World Erc20.State Erc1155.State where
  custody := { opened.custody with hasRole := fun _ _ => true, balances := fun _ => 50 }
  exchange := { opened.exchange with hasRole := fun _ _ => true, takerFeeBps := 100, makerRebateBps := 50 }
  ctf := { balances := fun _ _ => 100, approved := fun _ _ => true }

def cross : List Entry := [⟨bid, 10, false⟩, ⟨ask, 10, true⟩]

end Sample

/-- The hypotheses meet: a bid and an ask settle as well when the ask comes first. -/
theorem batch_order_sample : ∃ after, settle Sample.market ⟨1, 2001⟩ 1 Sample.cross.reverse Sample.trading = .ok after ∧
    ∀ first, settle Sample.market ⟨1, 2001⟩ 1 Sample.cross Sample.trading = .ok first →
      SameOutcome Sample.market first after := by
  obtain ⟨first, ran, -⟩ := returns_iff.mp
    (show returns (settle Sample.market ⟨1, 2001⟩ 1 Sample.cross Sample.trading) (fun _ => true) = true by decide +kernel)
  have fifty : (50 : Uint256).toNat < 2 ^ 128 := by decide
  have hundred : (100 : Uint256).toNat < 2 ^ 128 := by decide
  obtain ⟨same, agree⟩ := @batch_order _ _ Sample.market ⟨1, 2001⟩ Sample.cross 1 _ Sample.trading Erc1155.lawful
    ⟨by decide, by decide⟩ Sample.cross.reverse (List.reverse_perm _).symm (by
      intro entry member
      rcases List.mem_pair.mp member with rfl | rfl
      · exact ⟨by decide, by decide, by decide⟩
      · exact ⟨by decide, by decide, by decide⟩) (by decide) (by decide) (by decide +kernel) (fun _ => fifty)
    (fun _ _ => hundred)
  obtain ⟨after, again⟩ := same.mp ⟨first, ran⟩
  exact ⟨after, again, fun first ran => agree first after ran again⟩

end Omniscient.SettlementExchange

import Omniscient.Erc1155
import Omniscient.Proofs.CustodyCalls
import Omniscient.SettlementExchange

/-! What a successful settlement implies and does: one inversion for each loop of
`settleBatch`, stated over the entries of the batch. -/

namespace Omniscient.SettlementExchange
open Outcome

variable {σ κ : Type} {env : Env σ κ} {msg : Message} {storage : Storage} {entry : Entry} {acc acc' : Accrual}

def Leg.amount : Leg → Int
  | .buy charge => -charge.toInt
  | .sell credit => credit.toInt

def Entry.booked (storage : Storage) (entry : Entry) : Int :=
  if entry.fill = 0 then 0 else
    match usdcLeg storage entry with
    | .ok leg => leg.amount
    | .error _ => 0

private theorem checkFill_ok {filled total amount : Uint256} {done : Unit}
    (ran : checkFill filled total amount = .ok done) :
    total ≤ amount := by
  unfold checkFill at ran
  split at ran
  next =>
    obtain ⟨_, _, impossible⟩ := bind_ok.mp ran
    cases impossible
  next within => simpa using within

/-- What booking a leg does to the accrual: the maker's delta moves by the leg,
the exchange's net by its opposite. -/
structure Booked (maker : Address) (amount : Int) (acc acc' : Accrual) : Prop where
  filledAmount : acc'.filledAmount = acc.filledAmount
  length : acc'.deltas.length = acc.deltas.length
  grown : acc'.deltaCount ≤ acc.deltaCount + 1
  net : ∀ account, Postings.net (acc'.deltas.take acc'.deltaCount) account =
    Postings.net (acc.deltas.take acc.deltaCount) account + if maker = account then amount else 0
  sum : Postings.sum (acc'.deltas.take acc'.deltaCount) = Postings.sum (acc.deltas.take acc.deltaCount) + amount
  exchangeUsdcNet : acc'.exchangeUsdcNet.toInt = acc.exchangeUsdcNet.toInt - amount

private theorem bookLeg_ok {maker : Address} {leg : Leg} (ran : bookLeg maker leg acc = .ok acc') :
    Booked maker leg.amount acc acc' := by
  cases leg with
  | buy charge =>
    simp only [bookLeg, accrue, bind_ok, orRevert_ok, pure_ok, Word.negSigned_some, Word.addSigned_some] at ran
    obtain ⟨amount, opposite, booked, ⟨⟨deltas, count⟩, accrued, rfl⟩, net, sum, rfl⟩ := ran
    have cells := Postings.accrue_ok accrued
    exact ⟨rfl, cells.length, cells.grown, fun account => by rw [cells.net account, opposite]; rfl,
      by rw [cells.sum, opposite]; rfl, by simp only [Leg.amount]; dsimp only at sum; omega⟩
  | sell credit =>
    simp only [bookLeg, accrue, bind_ok, orRevert_ok, pure_ok, Word.subSigned_some] at ran
    obtain ⟨booked, ⟨⟨deltas, count⟩, accrued, rfl⟩, net, difference, rfl⟩ := ran
    have cells := Postings.accrue_ok accrued
    exact ⟨rfl, cells.length, cells.grown, cells.net, cells.sum, difference⟩

structure Settled (env : Env σ κ) (msg : Message) (storage : Storage) (acc : Accrual) (entry : Entry) (leg : Leg) : Prop where
  inTime : msg.timestamp ≤ entry.order.deadline
  nonce : entry.order.nonce = storage.nonces entry.order.maker
  signed : env.custody.crypto.recover (hashOrder env entry.order) entry.signed.signature = some entry.order.maker
  within : (acc.filledAmount (hashOrder env entry.order)).toNat + entry.fill.toNat ≤ entry.order.amount.toNat
  leg : usdcLeg storage entry = .ok leg

theorem settleEntry_ok (ran : settleEntry env msg storage acc entry = .ok acc') :
    (entry.fill = 0 ∧ acc' = acc) ∨
    (entry.fill ≠ 0 ∧ ∃ leg total, Settled env msg storage acc entry leg ∧
      total.toNat = (acc.filledAmount (hashOrder env entry.order)).toNat + entry.fill.toNat ∧
      Booked entry.order.maker leg.amount
        { acc with filledAmount := Function.update acc.filledAmount (hashOrder env entry.order) total } acc') := by
  unfold settleEntry at ran
  split at ran
  next empty =>
    cases ran
    exact .inl ⟨empty, rfl⟩
  next filled =>
    simp only [bind_ok, revertIf_ok, orRevert_ok, Word.add_some, gt_iff_lt, BitVec.not_lt, ne_eq,
      Decidable.not_not] at ran
    obtain ⟨-, inTime, -, nonce, signer, recovered, -, rfl, total, sum, _, checked, leg, owed, booked⟩ := ran
    have within := checkFill_ok checked
    exact .inr ⟨filled, leg, total, ⟨inTime, nonce, recovered, sum ▸ within, owed⟩, sum, bookLeg_ok booked⟩

theorem settleEntry_accrual (ran : settleEntry env msg storage acc entry = .ok acc') :
    (∀ hash, (acc'.filledAmount hash).toNat =
      (acc.filledAmount hash).toNat + if hashOrder env entry.order = hash then entry.fill.toNat else 0) ∧
    Booked entry.order.maker (entry.booked storage) { acc with filledAmount := acc'.filledAmount } acc' := by
  rcases settleEntry_ok ran with ⟨empty, rfl⟩ | ⟨filled, leg, total, settled, sum, booked⟩
  · refine ⟨fun hash => by simp [empty], ?_⟩
    constructor <;> simp [Entry.booked, empty]
  · have amount : entry.booked storage = leg.amount := by
      rw [Entry.booked, if_neg filled, settled.leg]
    refine ⟨?_, ?_⟩
    · intro hash
      rw [booked.filledAmount]
      by_cases same : hashOrder env entry.order = hash
      · subst same
        simpa using sum
      · simp [same, Function.update_of_ne (Ne.symm same)]
    · rw [amount]
      exact ⟨rfl, booked.length, booked.grown, booked.net, booked.sum, booked.exchangeUsdcNet⟩

variable {entries : List Entry}

theorem settleEntries_ok (ran : each (settleEntry env msg storage) acc entries = .ok acc') :
    (∀ hash, (acc'.filledAmount hash).toNat = (acc.filledAmount hash).toNat +
      (entries.map fun entry => if hashOrder env entry.order = hash then entry.fill.toNat else 0).sum) ∧
    (∀ account, Postings.net (acc'.deltas.take acc'.deltaCount) account =
      Postings.net (acc.deltas.take acc.deltaCount) account +
        (entries.map fun entry => if entry.order.maker = account then entry.booked storage else 0).sum) ∧
    acc'.exchangeUsdcNet.toInt = acc.exchangeUsdcNet.toInt - (entries.map (Entry.booked storage)).sum := by
  refine ⟨fun hash => ?_, fun account => ?_, ?_⟩
  · have total := each_sum (fun acc : Accrual => (acc.filledAmount hash).toNat)
      (fun entry => if hashOrder env entry.order = hash then entry.fill.toNat else 0) ran (by
        intro acc entry next _ once
        exact (settleEntry_accrual once).1 hash)
    exact total
  · have total := each_sum (fun acc : Accrual => Postings.net (acc.deltas.take acc.deltaCount) account)
      (fun entry => if entry.order.maker = account then entry.booked storage else 0) ran (by
        intro acc entry next _ once
        exact (settleEntry_accrual once).2.net account)
    exact total
  · have total := each_sum (fun acc : Accrual => -acc.exchangeUsdcNet.toInt) (Entry.booked storage) ran (by
        intro acc entry next _ once
        have net := (settleEntry_accrual once).2.exchangeUsdcNet
        dsimp only at net
        omega)
    omega

def Entry.shares (entry : Entry) : Int :=
  if entry.fill = 0 then 0 else if entry.order.side = 1 then entry.fill.toInt else -entry.fill.toInt

theorem accrueShares_ok {nets nets' : List (Posting Uint256 256) × Nat} (ran : accrueShares nets entry = .ok nets')
    (position : Uint256) :
    Postings.net (nets'.1.take nets'.2) position = Postings.net (nets.1.take nets.2) position +
      if entry.order.positionId = position then entry.shares else 0 := by
  unfold accrueShares at ran
  split at ran
  next empty =>
    cases ran
    simp [Entry.shares, empty]
  next filled =>
    simp only [Entry.shares, if_neg filled]
    split at ran
    next sell =>
      rw [if_pos sell]
      exact (Postings.accrue_ok ran).net position
    next other =>
      obtain ⟨delta, opposite, accrued⟩ := bind_ok.mp ran
      rw [if_neg other, ← Word.negSigned_some.mp (orRevert_ok.mp opposite)]
      exact (Postings.accrue_ok accrued).net position

private theorem checkConserved_ok {nets : List (Posting Uint256 256)} {done : Unit}
    (ran : each checkConserved () nets = .ok done) (position : Uint256) : Postings.net nets position = 0 := by
  induction nets with
  | nil => rfl
  | cons net nets ih =>
    simp only [each_cons, bind_ok, checkConserved, revertIf_ok, ne_eq, Decidable.not_not] at ran
    obtain ⟨_, zero, rest⟩ := ran
    rw [Postings.net_cons, ih rest, zero]
    simp

/-- A settlement of shares first nets every position to zero, over the integers,
and then moves the pulls and the pushes. -/
theorem settleCtf_ok {ctf ctf' : κ} (ran : settleCtf env entries ctf = .ok ctf') :
    (∀ position, (entries.map fun entry => if entry.order.positionId = position then entry.shares else 0).sum = 0) ∧
    ∃ pulled,
      each (fun ctf (entry : Entry) => transferShares env ctf (entry.pull env.self)) ctf entries = .ok pulled ∧
      each (fun ctf (entry : Entry) => transferShares env ctf (entry.push env.self)) pulled entries = .ok ctf' := by
  simp only [settleCtf, bind_ok] at ran
  obtain ⟨⟨nets, pCount⟩, accrued, _, conserved, pulled, pulls, pushes⟩ := ran
  refine ⟨fun position => ?_, pulled, pulls, pushes⟩
  have total := each_sum (fun nets : List (Posting Uint256 256) × Nat => Postings.net (nets.1.take nets.2) position)
    (fun entry : Entry => if entry.order.positionId = position then entry.shares else 0) accrued (by
      intro nets entry next _ once
      exact accrueShares_ok once position)
  rw [checkConserved_ok conserved position] at total
  simpa using total.symm

variable {batchId : Bytes32} {orders : List SignedOrder} {fills : List Uint256} {isMaker : List Bool}
  {world after : World σ κ}

structure BatchSettled (env : Env σ κ) (msg : Message) (batchId : Bytes32) (entries : List Entry)
    (world after : World σ κ) : Prop where
  operator : world.exchange.hasRole .operator msg.sender = true
  unpaused : world.exchange.paused = false
  fresh : world.exchange.settledBatches batchId = false
  settled : ∀ entry ∈ entries, entry.fill ≠ 0 → ∃ leg, usdcLeg world.exchange entry = .ok leg ∧
    msg.timestamp ≤ entry.order.deadline ∧ entry.order.nonce = world.exchange.nonces entry.order.maker ∧
    env.custody.crypto.recover (hashOrder env entry.order) entry.signed.signature = some entry.order.maker
  filled : ∀ hash, (after.exchange.filledAmount hash).toNat = (world.exchange.filledAmount hash).toNat +
    (entries.map fun entry => if hashOrder env entry.order = hash then entry.fill.toNat else 0).sum
  within : ∀ order : Order, (∀ entry ∈ entries, hashOrder env entry.order = hashOrder env order → entry.order = order) →
    world.exchange.filledAmount (hashOrder env order) ≤ order.amount →
    after.exchange.filledAmount (hashOrder env order) ≤ order.amount
  net : (entries.map (Entry.booked world.exchange)).sum ≤ 0
  balances : ∀ account, ((after.custody.balances account).toNat : Int) = (world.custody.balances account).toNat +
    ((entries.map fun entry => if entry.order.maker = account then entry.booked world.exchange else 0).sum -
      if env.self = account then (entries.map (Entry.booked world.exchange)).sum else 0)
  flow : ∀ account, Custody.flow after.custody.events account = Custody.flow world.custody.events account
  roles : after.custody.hasRole = world.custody.hasRole
  shares : settleCtf env entries world.ctf = .ok after.ctf
  exchange : after.exchange = { world.exchange with
    filledAmount := after.exchange.filledAmount
    settledBatches := Function.update world.exchange.settledBatches batchId true }

theorem settleEntries_settled (ran : each (settleEntry env msg storage) acc entries = .ok acc') :
    ∀ entry ∈ entries, entry.fill ≠ 0 → ∃ leg, usdcLeg storage entry = .ok leg ∧
      msg.timestamp ≤ entry.order.deadline ∧ entry.order.nonce = storage.nonces entry.order.maker ∧
      env.custody.crypto.recover (hashOrder env entry.order) entry.signed.signature = some entry.order.maker := by
  induction entries generalizing acc with
  | nil => simp
  | cons first entries ih =>
    obtain ⟨next, once, rest⟩ := bind_ok.mp ran
    intro entry member filled
    rcases List.mem_cons.mp member with rfl | later
    · rcases settleEntry_ok once with ⟨empty, -⟩ | ⟨-, leg, total, settled, -, -⟩
      · exact absurd empty filled
      · exact ⟨leg, settled.leg, settled.inTime, settled.nonce, settled.signed⟩
    · exact ih rest entry later filled

private theorem settleEntries_within (ran : each (settleEntry env msg storage) acc entries = .ok acc') (order : Order)
    (single : ∀ entry ∈ entries, hashOrder env entry.order = hashOrder env order → entry.order = order)
    (within : acc.filledAmount (hashOrder env order) ≤ order.amount) :
    acc'.filledAmount (hashOrder env order) ≤ order.amount := by
  refine each_keeps (fun acc => acc.filledAmount (hashOrder env order) ≤ order.amount) ran ?_ within
  intro acc entry next member once within
  rcases settleEntry_ok once with ⟨-, rfl⟩ | ⟨-, leg, total, settled, sum, booked⟩
  · exact within
  · rw [booked.filledAmount]
    dsimp only
    by_cases same : hashOrder env entry.order = hashOrder env order
    · have bound := settled.within
      rw [← same, Function.update_self, BitVec.le_def, ← single entry member same]
      omega
    · rw [Function.update_of_ne (Ne.symm same)]
      exact within

theorem balancingDelta_ok {deltas : List Custody.BalanceDelta} (ran : balancingDelta env.self acc = .ok deltas) :
    deltas.take (acc.deltaCount + 1) = acc.deltas.take acc.deltaCount ++ [⟨env.self, acc.exchangeUsdcNet⟩] := by
  unfold balancingDelta at ran
  split at ran
  next room =>
    cases ran
    rw [List.take_add_one, List.take_set_of_le (Nat.le_refl _), List.getElem?_set_self room]
    rfl
  next => cases ran

theorem settleBatch_ok (ran : settleBatch env msg batchId orders fills isMaker world = .ok after) :
    BatchSettled env msg batchId (entriesOf orders fills isMaker) world after := by
  simp only [settleBatch, onlyRole, whenNotPaused, bind_ok, revertIf_ok, mapError_ok, pure_ok, Bool.not_eq_true,
    Bool.not_eq_false, not_or, not_lt, Decidable.not_not] at ran
  obtain ⟨-, operator, -, unpaused, -, fresh, -, -, acc, looped, -, net, deltas, balanced, custody, applied, ctf,
    shares, rfl⟩ := ran
  obtain ⟨filled, accrued, exchangeNet⟩ := settleEntries_ok looped
  rw [balancingDelta_ok balanced] at applied
  obtain ⟨-, -, -, -, moved, framed⟩ := Custody.applyNetDeltas_ok applied
  have fromZero : (0 : Int256).toInt = 0 := rfl
  rw [fromZero, zero_sub] at exchangeNet
  refine ⟨operator, unpaused, fresh, settleEntries_settled looped, filled, settleEntries_within looped, by omega,
    fun account => ?_, fun account => ?_, ?_, shares, rfl⟩
  · rw [moved account, Postings.net_append, accrued account, Postings.net_cons, exchangeNet]
    simp only [List.take_zero, Postings.net_nil, zero_add, add_zero]
    split <;> omega
  · rw [framed]
    simp [Custody.Event.credit]
  · rw [framed]

/-- Fees leave the vault through a withdrawal of the exchange itself; forwarding
them touches only the token. -/
theorem withdrawFees_ok {amount deadline : Uint256} {recipient : Address} {sig : Bytes}
    (ran : withdrawFees env msg amount recipient deadline sig world = .ok after) :
    world.exchange.hasRole .defaultAdmin msg.sender = true ∧ ∃ custody,
      Custody.exec env.custody ⟨env.self, msg.timestamp⟩ (.withdraw amount deadline sig) world.custody = .ok custody ∧
      after.custody = { custody with usdc := after.custody.usdc } ∧
      after.exchange = world.exchange ∧ after.ctf = world.ctf := by
  simp only [withdrawFees, onlyRole, bind_ok, revertIf_ok, mapError_ok, orRevert_ok, pure_ok,
    Bool.not_eq_false] at ran
  obtain ⟨-, admin, custody, withdrawn, usdc, -, rfl⟩ := ran
  exact ⟨admin, custody, withdrawn, rfl, rfl, rfl⟩

def Call.storageOnly : Call → Bool
  | .settleBatch .. | .withdrawFees .. => false
  | _ => true

/-- What such a call does to the storage: fills are left alone, an order epoch
never goes back, and rates stay within the cap. -/
structure StorageKept (storage after : Storage) : Prop where
  filledAmount : after.filledAmount = storage.filledAmount
  nonces : ∀ maker, storage.nonces maker ≤ after.nonces maker
  takerFee : storage.takerFeeBps ≤ 1000 → after.takerFeeBps ≤ 1000
  makerRebate : storage.makerRebateBps ≤ 1000 → after.makerRebateBps ≤ 1000

theorem storageOnly_ok {call : Call} (kind : call.storageOnly = true) (ran : exec env msg call world = .ok after) :
    after.custody = world.custody ∧ after.ctf = world.ctf ∧ StorageKept world.exchange after.exchange := by
  cases call with
  | settleBatch | withdrawFees => cases kind
  | setFeeRates takerFeeBps makerRebateBps =>
    simp only [exec, onStorage, setFeeRates, bind_ok, revertIf_ok, pure_ok, not_or, gt_iff_lt, BitVec.not_lt] at ran
    obtain ⟨_, ⟨-, -, -, capped, rfl⟩, rfl⟩ := ran
    exact ⟨rfl, rfl, rfl, fun _ => BitVec.le_refl _, fun _ => capped.1, fun _ => capped.2⟩
  | cancelAllOrders =>
    simp only [exec, onStorage, cancelAllOrders, bind_ok, orRevert_ok, pure_ok, Word.add_some] at ran
    obtain ⟨_, ⟨next, raised, rfl⟩, rfl⟩ := ran
    refine ⟨rfl, rfl, rfl, fun maker => ?_, id, id⟩
    dsimp only
    by_cases same : msg.sender = maker
    · subst same
      rw [Function.update_self, BitVec.le_def, raised]
      exact Nat.le_add_right _ _
    · rw [Function.update_of_ne (Ne.symm same)]
      exact BitVec.le_refl _
  | pause =>
    simp only [exec, onStorage, pause, bind_ok, pure_ok] at ran
    obtain ⟨_, ⟨-, -, -, -, rfl⟩, rfl⟩ := ran
    exact ⟨rfl, rfl, rfl, fun _ => BitVec.le_refl _, id, id⟩
  | unpause =>
    simp only [exec, onStorage, unpause, bind_ok, pure_ok] at ran
    obtain ⟨_, ⟨-, -, -, -, rfl⟩, rfl⟩ := ran
    exact ⟨rfl, rfl, rfl, fun _ => BitVec.le_refl _, id, id⟩
  | grantRole role account =>
    simp only [exec, onStorage, grantRole, bind_ok, pure_ok] at ran
    obtain ⟨_, ⟨-, -, rfl⟩, rfl⟩ := ran
    exact ⟨rfl, rfl, rfl, fun _ => BitVec.le_refl _, id, id⟩
  | revokeRole role account =>
    simp only [exec, onStorage, revokeRole, bind_ok, pure_ok] at ran
    obtain ⟨_, ⟨-, -, rfl⟩, rfl⟩ := ran
    exact ⟨rfl, rfl, rfl, fun _ => BitVec.le_refl _, id, id⟩
  | renounceRole role callerConfirmation =>
    simp only [exec, onStorage, renounceRole, bind_ok, pure_ok] at ran
    obtain ⟨_, ⟨-, -, rfl⟩, rfl⟩ := ran
    exact ⟨rfl, rfl, rfl, fun _ => BitVec.le_refl _, id, id⟩

end Omniscient.SettlementExchange

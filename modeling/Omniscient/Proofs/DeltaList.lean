import Omniscient.Proofs.BatchOrder
import Omniscient.Proofs.SettlementErrors

/-! The delta list that `settleBatch` hands to Custody. It has one cell for every maker
that is filled and one for the exchange, it conserves, and Custody applies it exactly
when every maker can bear its net amount. -/

namespace Omniscient.Custody
open Outcome

variable {σ : Type} {msg : Message} {state : State σ} {batchId : Bytes32} {deltas : List BalanceDelta}

/-- No checked operation on the amounts or the balances leaves its type. -/
structure InRange (state : State σ) (deltas : List BalanceDelta) : Prop where
  summed : ∀ first, first <+: deltas → -2 ^ 255 ≤ Postings.sum first ∧ Postings.sum first < 2 ^ 255
  negated : ∀ delta ∈ deltas, delta.amount.toInt ≠ -2 ^ 255
  credited : ∀ delta ∈ deltas, ((state.balances delta.account).toNat : Int) + delta.amount.toInt < 2 ^ 256

private theorem sumDeltas_inRange
    (summed : ∀ first, first <+: deltas → -2 ^ 255 ≤ Postings.sum first ∧ Postings.sum first < 2 ^ 255) :
    ∃ net, sumDeltas deltas = .ok net := by
  obtain ⟨net, ran, -⟩ := @each_returns Error BalanceDelta Int256
    (fun net delta => orRevert (.panic .arithmetic) (Word.addSigned net delta.amount)) deltas 0
    (fun rest net => ∃ done, done ++ rest = deltas ∧ net.toInt = Postings.sum done) (by
    intro delta rest net known
    obtain ⟨done, whole, partial_⟩ := known
    have next : Postings.sum (done ++ [delta]) = net.toInt + delta.amount.toInt := by
      simp [partial_, Postings.sum]
    obtain ⟨low, high⟩ := summed (done ++ [delta]) ⟨rest, by rw [← whole]; simp⟩
    rw [next] at low high
    have exact := @Word.ofInt_fits 256 _ low high (by decide)
    exact ⟨_, orRevert_ok.mpr (Word.addSigned_some.mpr exact), done ++ [delta], by rw [← whole]; simp, exact.trans next.symm⟩)
    ⟨[], rfl, rfl⟩
  exact ⟨net, ran⟩

def Error.other (error : Error) : Prop := ∀ net, error ≠ .deltasDoNotConserve net

private theorem applyDelta_raises {delta : BalanceDelta} : Raises Error.other (applyDelta state delta) := by
  simp only [applyDelta]
  split
  next => exact raises_pure _
  next =>
    split
    next => exact raises_bind (raises_orRevert (by simp [Error.other])) fun _ => raises_pure _
    next =>
      refine raises_bind (raises_orRevert (by simp [Error.other])) fun _ => ?_
      refine raises_bind (raises_revertIf (by simp [Error.other])) fun _ => ?_
      exact raises_bind (raises_orRevert (by simp [Error.other])) fun _ => raises_pure _

private theorem applyNetDeltas_conserves (total : Postings.sum deltas = 0) (net : Int256) :
    applyNetDeltas msg batchId deltas state ≠ .error (.deltasDoNotConserve net) := by
  have other : Raises Error.other (applyNetDeltas msg batchId deltas state) := by
    refine raises_bind (raises_revertIf (by simp [Error.other])) fun _ => ?_
    refine raises_bind (raises_revertIf (by simp [Error.other])) fun _ => ?_
    refine raises_bind (raises_revertIf (by simp [Error.other])) fun _ => raises_bind_ok ?_ fun sum summed => ?_
    · exact raises_each fun _ _ => raises_orRevert (by simp [Error.other])
    · have zero : sum = 0 := BitVec.toInt_inj.mp ((sumDeltas_ok summed).trans total)
      refine raises_bind (raises_revertIf_not (not_not.mpr zero)) fun _ => ?_
      exact raises_bind (raises_each fun _ _ => applyDelta_raises) fun _ => raises_pure _
  exact fun raised => other _ raised net rfl

private theorem applyNetDeltas_iff (distinct : (deltas.map Posting.account).Nodup) (total : Postings.sum deltas = 0)
    (fresh : state.appliedBatches batchId = false) (unpaused : state.paused = false)
    (trusted : state.hasRole .settlement msg.sender = true) (inRange : InRange state deltas) :
    (∃ after, applyNetDeltas msg batchId deltas state = .ok after) ↔
      ∀ delta ∈ deltas, 0 ≤ ((state.balances delta.account).toNat : Int) + delta.amount.toInt := by
  constructor
  · intro applied delta member
    obtain ⟨after, ran⟩ := applied
    obtain ⟨-, -, -, -, moved, -⟩ := applyNetDeltas_ok ran
    rw [← Postings.net_of_mem distinct member, ← moved]
    exact Int.natCast_nonneg _
  · intro solvent
    obtain ⟨net, summed⟩ := sumDeltas_inRange inRange.summed
    refine @applyNetDeltas_bears _ msg state _ _ (2 ^ 255 - 1) _ unpaused trusted fresh (by decide) summed total
      ⟨distinct, fun delta member => ?_, solvent, inRange.credited⟩
    have range := Word.signed_range delta.amount
    have negated := inRange.negated delta member
    omega

end Omniscient.Custody

namespace Omniscient.SettlementExchange
open Outcome

variable {σ κ : Type} {env : Env σ κ} {msg : Message} {storage : Storage} {acc acc' : Accrual} {entry : Entry}
  {entries : List Entry} {orders : List SignedOrder} {fills : List Uint256} {isMaker : List Bool}

/-- The body of `settleBatch` between its first checks and the call of Custody. -/
def deltaList (env : Env σ κ) (msg : Message) (storage : Storage) (orders : List SignedOrder) (fills : List Uint256)
    (isMaker : List Bool) : Except Error (Accrual × List Custody.BalanceDelta) := do
  let acc ← each (settleEntry env msg storage) (.initial storage orders.length) (entriesOf orders fills isMaker)
  revertIf (acc.exchangeUsdcNet.toInt < 0) (.exchangeUsdcNetNegative acc.exchangeUsdcNet)
  let deltas ← balancingDelta env.self acc
  return (acc, deltas.take (acc.deltaCount + 1))

theorem settleBatch_eq (batchId : Bytes32) (world : World σ κ) :
    settleBatch env msg batchId orders fills isMaker world = (do
      onlyRole world.exchange .operator msg
      whenNotPaused world.exchange
      revertIf (world.exchange.settledBatches batchId = true) (.batchAlreadySettled batchId)
      revertIf (orders.length ≠ fills.length ∨ orders.length ≠ isMaker.length) .lengthMismatch
      let (acc, deltas) ← deltaList env msg world.exchange orders fills isMaker
      let custody ← (Custody.applyNetDeltas ⟨env.self, msg.timestamp⟩ batchId deltas world.custody).mapError .custody
      let ctf ← settleCtf env (entriesOf orders fills isMaker) world.ctf
      return {
        custody
        ctf
        exchange := { world.exchange with
          filledAmount := acc.filledAmount
          settledBatches := Function.update world.exchange.settledBatches batchId true } }) := by
  simp only [settleBatch, deltaList, Accrual.initial, bind_assoc, pure_bind]

def Accrual.accounts (acc : Accrual) : List Address := (acc.deltas.take acc.deltaCount).map Posting.account

private theorem bookLeg_accounts {maker : Address} {leg : Leg} (ran : bookLeg maker leg acc = .ok acc') :
    acc'.accounts = if maker ∈ acc.accounts then acc.accounts else acc.accounts ++ [maker] := by
  cases leg with
  | buy charge =>
    simp only [bookLeg, accrue, bind_ok, orRevert_ok, pure_ok] at ran
    obtain ⟨amount, -, booked, ⟨⟨deltas, count⟩, accrued, rfl⟩, net, -, rfl⟩ := ran
    exact (Postings.accrue_ok accrued).accounts
  | sell credit =>
    simp only [bookLeg, accrue, bind_ok, orRevert_ok, pure_ok] at ran
    obtain ⟨booked, ⟨⟨deltas, count⟩, accrued, rfl⟩, net, -, rfl⟩ := ran
    exact (Postings.accrue_ok accrued).accounts

private theorem settleEntry_accounts (ran : settleEntry env msg storage acc entry = .ok acc') :
    acc'.accounts = if entry.fill = 0 ∨ entry.order.maker ∈ acc.accounts then acc.accounts
      else acc.accounts ++ [entry.order.maker] := by
  unfold settleEntry at ran
  split at ran
  next empty =>
    cases ran
    rw [if_pos (.inl empty)]
  next filled =>
    simp only [bind_ok, orRevert_ok] at ran
    obtain ⟨-, -, -, -, signer, -, -, -, total, -, -, -, leg, -, booked⟩ := ran
    rw [bookLeg_accounts booked]
    simp only [filled, false_or]
    rfl

/-- What the loop keeps: the cells in use are those of the makers filled so far, each
with the exact sum of its legs, and the exchange's net is the opposite of all legs. -/
structure Listed (storage : Storage) (size : Nat) (done : List Entry) (acc : Accrual) : Prop where
  length : acc.deltas.length = size
  count : acc.deltaCount ≤ done.length
  distinct : acc.accounts.Nodup
  accounts : ∀ account, account ∈ acc.accounts ↔ ∃ entry ∈ done, entry.fill ≠ 0 ∧ entry.order.maker = account
  net : ∀ account, Postings.net (acc.deltas.take acc.deltaCount) account = bookedTo storage done account
  sum : Postings.sum (acc.deltas.take acc.deltaCount) = bookedSum storage done
  exchange : acc.exchangeUsdcNet.toInt = -bookedSum storage done

theorem listed_initial (storage : Storage) (count : Nat) : Listed storage (count + 1) [] (.initial storage count) where
  length := List.length_replicate
  count := Nat.le_refl 0
  distinct := .nil
  accounts := by simp [Accrual.accounts, Accrual.initial]
  net := by simp [Accrual.initial, bookedTo]
  sum := rfl
  exchange := rfl

private theorem bookedTo_append (done : List Entry) (account : Address) : bookedTo storage (done ++ [entry]) account =
    bookedTo storage done account + if entry.order.maker = account then entry.booked storage else 0 := by
  simp [bookedTo]

theorem bookedSum_append (done : List Entry) :
    bookedSum storage (done ++ [entry]) = bookedSum storage done + entry.booked storage := by
  simp [bookedSum]

theorem Listed.next {size : Nat} {done : List Entry} (listed : Listed storage size done acc)
    (ran : settleEntry env msg storage acc entry = .ok acc') : Listed storage size (done ++ [entry]) acc' := by
  have booked := (settleEntry_accrual ran).2
  have accounts := settleEntry_accounts ran
  have grown := booked.grown
  have count := listed.count
  refine ⟨booked.length.trans listed.length, ?_, ?_, fun account => ?_, fun account => ?_, ?_, ?_⟩
  · rw [List.length_append, List.length_singleton]
    exact grown.trans (Nat.succ_le_succ count)
  · rw [accounts]
    split
    next => exact listed.distinct
    next fresh => exact List.nodup_append.mpr ⟨listed.distinct, by simp, by
      intro used known other member same
      rw [List.mem_singleton.mp member] at same
      exact fresh (.inr (same ▸ known))⟩
  · simp only [List.mem_append, List.mem_singleton, or_and_right, exists_or, exists_eq_left, ← listed.accounts]
    rw [accounts]
    split
    next known =>
      refine ⟨.inl, ?_⟩
      intro either
      rcases either with inside | ⟨filled, rfl⟩
      · exact inside
      · exact known.resolve_left filled
    next fresh =>
      obtain ⟨filled, -⟩ := not_or.mp fresh
      rw [List.mem_append, List.mem_singleton]
      exact or_congr_right ⟨fun same => ⟨filled, same.symm⟩, fun held => held.2.symm⟩
  · rw [booked.net, bookedTo_append, ← listed.net]
  · rw [booked.sum, bookedSum_append, ← listed.sum]
  · rw [booked.exchangeUsdcNet, bookedSum_append, neg_add, ← listed.exchange]
    exact Int.sub_eq_add_neg

theorem entriesOf_length_le (orders : List SignedOrder) (fills : List Uint256) (isMaker : List Bool) :
    (entriesOf orders fills isMaker).length ≤ orders.length := by
  simp only [entriesOf, List.length_map, List.length_zip]
  exact Nat.min_le_left _ _

theorem loop_listed (looped : each (settleEntry env msg storage) (.initial storage orders.length)
    (entriesOf orders fills isMaker) = .ok acc) :
    Listed storage (orders.length + 1) (entriesOf orders fills isMaker) acc :=
  each_started (Listed storage (orders.length + 1)) looped (fun _ _ _ _ once listed => listed.next once)
    (listed_initial storage orders.length)

private theorem deltaList_inBounds (env : Env σ κ) (msg : Message) (storage : Storage) (orders : List SignedOrder)
    (fills : List Uint256) (isMaker : List Bool) :
    deltaList env msg storage orders fills isMaker ≠ .error (.panic .outOfBounds) := by
  have loop (error : Error) (raised : error.inLoop) : error ≠ .panic .outOfBounds := by
    intro same
    subst same
    cases raised
  have few := entriesOf_length_le orders fills isMaker
  have inBounds : Raises (· ≠ Error.panic .outOfBounds) (deltaList env msg storage orders fills isMaker) := by
    refine raises_bind_ok (raises_each_started (Listed storage (orders.length + 1)) ?_
      (fun _ _ _ _ once listed => listed.next once) (listed_initial storage orders.length)) fun acc looped => ?_
    · intro done entry rest acc whole listed
      refine settleEntry_raises loop (.inl ?_)
      have length := congrArg List.length whole
      have count := listed.count
      rw [List.length_append, List.length_cons] at length
      rw [listed.length]
      omega
    · refine raises_bind (raises_revertIf nofun) fun _ => raises_bind ?_ fun _ => raises_pure _
      have listed := loop_listed looped
      have room : acc.deltaCount < acc.deltas.length := by
        have count := listed.count
        rw [listed.length]
        omega
      rw [balancingDelta, if_pos room]
      exact raises_pure _
  exact fun raised => inBounds _ raised rfl

/-- A delta list that conserves, with one cell for each filled maker and one for the exchange. -/
structure WellFormed (exchange : Address) (storage : Storage) (entries : List Entry) (orders : Nat)
    (deltas : List Custody.BalanceDelta) : Prop where
  distinct : (deltas.map Posting.account).Nodup
  length : deltas.length ≤ orders + 1
  listed : ∀ entry ∈ entries, entry.fill ≠ 0 → ∃ delta ∈ deltas, delta.account = entry.order.maker
  amounts : ∀ delta ∈ deltas, delta.account ≠ exchange →
    (∃ entry ∈ entries, entry.fill ≠ 0 ∧ entry.order.maker = delta.account) ∧
    delta.amount.toInt = bookedTo storage entries delta.account
  exchange : ∀ delta ∈ deltas, delta.account = exchange → 0 ≤ delta.amount.toInt
  total : Postings.sum deltas = 0

theorem Listed.wellFormed {exchange : Address} {entries : List Entry} {count : Nat}
    (listed : Listed storage (count + 1) entries acc) (few : entries.length ≤ count)
    (foreign : ∀ entry ∈ entries, entry.fill ≠ 0 → entry.order.maker ≠ exchange)
    (nonneg : 0 ≤ acc.exchangeUsdcNet.toInt) :
    WellFormed exchange storage entries count (acc.deltas.take acc.deltaCount ++ [⟨exchange, acc.exchangeUsdcNet⟩]) := by
  have absent : exchange ∉ acc.accounts := by
    intro inside
    obtain ⟨entry, member, filled, same⟩ := (listed.accounts exchange).mp inside
    exact foreign entry member filled same
  refine ⟨?_, ?_, fun entry member filled => ?_, fun delta member other => ?_, fun delta member own => ?_, ?_⟩
  · rw [List.map_append, List.nodup_append]
    refine ⟨listed.distinct, by simp, fun account known other member same => ?_⟩
    rw [List.map_singleton, List.mem_singleton] at member
    have own : account = exchange := same.trans member
    exact absent (own ▸ known)
  · have used := listed.count
    rw [List.length_append, List.length_take, List.length_singleton]
    omega
  · obtain ⟨delta, cell, same⟩ := List.mem_map.mp ((listed.accounts _).mpr ⟨entry, member, filled, rfl⟩)
    exact ⟨delta, List.mem_append_left _ cell, same⟩
  · rcases List.mem_append.mp member with cell | balancing
    · refine ⟨(listed.accounts _).mp (List.mem_map_of_mem cell), ?_⟩
      rw [← listed.net, Postings.net_of_mem listed.distinct cell]
    · rw [List.mem_singleton.mp balancing] at other
      exact absurd rfl other
  · rcases List.mem_append.mp member with cell | balancing
    · exact absurd (own ▸ List.mem_map_of_mem cell) absent
    · rw [List.mem_singleton.mp balancing]
      exact nonneg
  · have sum := listed.sum
    have opposite := listed.exchange
    simp only [Postings.sum, List.map_append, List.sum_append] at sum ⊢
    simp only [List.map_cons, List.map_nil, List.sum_cons, List.sum_nil]
    omega

private theorem deltaList_ok {deltas : List Custody.BalanceDelta}
    (foreign : ∀ entry ∈ entriesOf orders fills isMaker, entry.fill ≠ 0 → entry.order.maker ≠ env.self)
    (ran : deltaList env msg storage orders fills isMaker = .ok (acc, deltas)) :
    WellFormed env.self storage (entriesOf orders fills isMaker) orders.length deltas := by
  simp only [deltaList, bind_ok, revertIf_ok, pure_ok, not_lt, Prod.mk.injEq] at ran
  obtain ⟨final, looped, -, nonneg, cells, balanced, -, rfl⟩ := ran
  rw [balancingDelta_ok balanced]
  exact (loop_listed looped).wellFormed (entriesOf_length_le orders fills isMaker) foreign nonneg

/-- Whatever the batch, as long as no maker is the exchange, the list is well formed, and
Custody applies it exactly when every maker can bear its net amount. Custody must be open to
the exchange, and no checked operation on the amounts may overflow. -/
theorem delta_list_well_formed
    (foreign : ∀ entry ∈ entriesOf orders fills isMaker, entry.fill ≠ 0 → entry.order.maker ≠ env.self) :
    deltaList env msg storage orders fills isMaker ≠ .error (.panic .outOfBounds) ∧
    ∀ acc deltas, deltaList env msg storage orders fills isMaker = .ok (acc, deltas) →
      WellFormed env.self storage (entriesOf orders fills isMaker) orders.length deltas ∧
      ∀ batchId (vault : Custody.State σ),
        (∀ net, Custody.applyNetDeltas ⟨env.self, msg.timestamp⟩ batchId deltas vault ≠ .error (.deltasDoNotConserve net)) ∧
        (vault.appliedBatches batchId = false → vault.paused = false → vault.hasRole .settlement env.self = true →
          Custody.InRange vault deltas →
          ((∃ after, Custody.applyNetDeltas ⟨env.self, msg.timestamp⟩ batchId deltas vault = .ok after) ↔
            ∀ entry ∈ entriesOf orders fills isMaker, entry.fill ≠ 0 → 0 ≤ ((vault.balances entry.order.maker).toNat : Int) +
              bookedTo storage (entriesOf orders fills isMaker) entry.order.maker)) := by
  refine ⟨deltaList_inBounds env msg storage orders fills isMaker, fun acc deltas ran => ?_⟩
  have formed := deltaList_ok foreign ran
  refine ⟨formed, fun batchId vault => ⟨Custody.applyNetDeltas_conserves formed.total, fun fresh unpaused trusted inRange => ?_⟩⟩
  rw [Custody.applyNetDeltas_iff formed.distinct formed.total fresh unpaused trusted inRange]
  constructor
  · intro solvent entry member filled
    obtain ⟨delta, cell, same⟩ := formed.listed entry member filled
    have amount := (formed.amounts delta cell (same ▸ foreign entry member filled)).2
    rw [← same, ← amount]
    exact solvent delta cell
  · intro solvent delta cell
    by_cases own : delta.account = env.self
    · exact Int.add_nonneg (Int.natCast_nonneg _) (formed.exchange delta cell own)
    · obtain ⟨⟨entry, member, filled, same⟩, amount⟩ := formed.amounts delta cell own
      rw [amount, ← same]
      exact solvent entry member filled

namespace Sample

def crossDeltas : List Custody.BalanceDelta := [⟨5, -6⟩, ⟨6, 5⟩, ⟨9, 1⟩]

theorem cross_deltas : ∃ acc, deltaList market ⟨1, 2001⟩ trading.exchange [bid, ask] [10, 10] [false, true] =
    .ok (acc, crossDeltas) := by
  obtain ⟨⟨acc, deltas⟩, ran, same⟩ := returns_iff.mp (show returns (deltaList market ⟨1, 2001⟩ trading.exchange
    [bid, ask] [10, 10] [false, true]) (fun result => result.2 == crossDeltas) = true by decide +kernel)
  obtain rfl : deltas = crossDeltas := beq_iff_eq.mp same
  exact ⟨acc, ran⟩

theorem cross_inRange {vault : Custody.State Erc20.State} (funds : vault.balances = fun _ => 50) :
    Custody.InRange vault crossDeltas := by
  refine ⟨fun first early => ?_, by decide, ?_⟩
  · have small : ∀ first ∈ crossDeltas.inits, -2 ^ 255 ≤ Postings.sum first ∧ Postings.sum first < 2 ^ 255 := by
      decide
    exact small first ((List.mem_inits _ _).mpr early)
  · rw [funds]
    decide

def closed : Custody.State Erc20.State := { trading.custody with hasRole := fun _ _ => false }

private theorem cross_foreign : ∀ entry ∈ entriesOf [bid, ask] [10, 10] [false, true], entry.fill ≠ 0 →
    entry.order.maker ≠ market.self := by
  decide

theorem cross_solvent : ∀ entry ∈ entriesOf [bid, ask] [10, 10] [false, true], entry.fill ≠ 0 →
    0 ≤ ((trading.custody.balances entry.order.maker).toNat : Int) +
      bookedTo trading.exchange (entriesOf [bid, ask] [10, 10] [false, true]) entry.order.maker := by
  decide +kernel

end Sample

/-- Custody takes deltas from none but its settlement role, however well they are formed. -/
theorem delta_list_fails : ∃ acc deltas,
    deltaList Sample.market ⟨1, 2001⟩ Sample.trading.exchange [Sample.bid, Sample.ask] [10, 10] [false, true] =
      .ok (acc, deltas) ∧
    Sample.closed.appliedBatches 1 = false ∧ Sample.closed.paused = false ∧ Custody.InRange Sample.closed deltas ∧
    (∀ entry ∈ entriesOf [Sample.bid, Sample.ask] [10, 10] [false, true], entry.fill ≠ 0 →
      0 ≤ ((Sample.closed.balances entry.order.maker).toNat : Int) +
        bookedTo Sample.trading.exchange (entriesOf [Sample.bid, Sample.ask] [10, 10] [false, true]) entry.order.maker) ∧
    ¬ ∃ after, Custody.applyNetDeltas ⟨Sample.market.self, 2001⟩ 1 deltas Sample.closed = .ok after := by
  obtain ⟨acc, ran⟩ := Sample.cross_deltas
  refine ⟨acc, _, ran, rfl, rfl, Sample.cross_inRange rfl, Sample.cross_solvent, fun applied => ?_⟩
  obtain ⟨after, applied⟩ := applied
  have trusted := (Custody.applyNetDeltas_ok applied).2.1
  cases trusted

/-- The hypotheses meet: the bid and the ask are applied. -/
theorem delta_list_sample : ∃ after, Custody.applyNetDeltas ⟨Sample.market.self, 2001⟩ 1 Sample.crossDeltas
    Sample.trading.custody = .ok after := by
  obtain ⟨acc, ran⟩ := Sample.cross_deltas
  have formed := (@delta_list_well_formed _ _ Sample.market ⟨1, 2001⟩ _ _ _ _ Sample.cross_foreign).2 acc _ ran
  exact ((formed.2 1 Sample.trading.custody).2 rfl rfl rfl (Sample.cross_inRange rfl)).mpr Sample.cross_solvent

end Omniscient.SettlementExchange

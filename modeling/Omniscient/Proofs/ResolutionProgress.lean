import Omniscient.Proofs.OracleProtocol

/-! Resolution is never blocked. Where every market is created with an expiry, each has
a condition of its own that stays unreported until the market is resolved, and the bonds
are there; so nothing but the clock and a pause stands between a proposal and its
payouts, and nothing at all between the arbitrator and a dispute. -/

namespace Omniscient.Oracle
open Outcome

variable {σ κ : Type} {env : Env σ κ} {msg : Message} {state after : State σ κ} {marketId : Bytes32} {payouts : List Uint256}
  {label : Option (Message × Call)} {trace : List (Option (Message × Call))} {prepared reported : κ → Bytes32 → Uint256 → Prop}

/-- Payouts whose sum is computed and is not zero. -/
def Payable (payouts : List Uint256) : Prop :=
  0 < (payouts.map BitVec.toNat).sum ∧ (payouts.map BitVec.toNat).sum < 2 ^ 256

/-- What the Oracle relies on the conditional tokens for, as to its own conditions: one is
prepared once, only a report makes it reported, and the first payable report goes through. -/
structure ConditionLaws (env : Env σ κ) (prepared reported : κ → Bytes32 → Uint256 → Prop) : Prop where
  fresh : ∀ ctf ctf' question slots, env.ctf.prepareCondition ctf env.self question slots = some ctf' →
    ¬ prepared ctf question slots ∧ prepared ctf' question slots
  prepares : ∀ ctf ctf' question slots, env.ctf.prepareCondition ctf env.self question slots = some ctf' →
    (∀ other count, prepared ctf other count → prepared ctf' other count) ∧
    ∀ other count, reported ctf' other count → reported ctf other count
  reports : ∀ ctf ctf' question payouts, env.ctf.reportPayouts ctf env.self question payouts = some ctf' →
    (∀ other count, prepared ctf other count → prepared ctf' other count) ∧
    ∀ other count, reported ctf' other count → reported ctf other count ∨
      other = question ∧ count = BitVec.ofNat 256 payouts.length
  unprepared : ∀ ctf question slots, reported ctf question slots → prepared ctf question slots
  accepts : ∀ ctf question slots payouts, prepared ctf question slots → ¬ reported ctf question slots →
    payouts.length = slots.toNat → Payable payouts → (env.ctf.reportPayouts ctf env.self question payouts).isSome

/-- Markets are created with an expiry, and others leave the Oracle's conditions alone. -/
def Careful (prepared reported : κ → Bytes32 → Uint256 → Prop) (state after : State σ κ) : Option (Message × Call) → Prop
  | some (_, .createMarket _ spec) => spec.expiry ≠ 0
  | some _ => True
  | none => (∀ question slots, prepared state.ctf question slots → prepared after.ctf question slots) ∧
      ∀ question slots, reported after.ctf question slots → reported state.ctf question slots

def Progresses (env : Env σ κ) (prepared reported : κ → Bytes32 → Uint256 → Prop) (state : State σ κ)
    (label : Option (Message × Call)) (after : State σ κ) : Prop :=
  Step env state label after ∧ Careful prepared reported state after label

def Call.hashed : Call → List (List Uint256)
  | .proposeOutcome _ payouts | .finalizeOutcome _ payouts => [payouts]
  | _ => []

def payoutsOf (trace : List (Option (Message × Call))) : List (List Uint256) :=
  trace.flatMap fun label => label.elim [] fun each => each.2.hashed

def DistinctHashes (env : Env σ κ) (trace : List (Option (Message × Call))) : Prop :=
  ∀ payouts ∈ payoutsOf trace, ∀ other ∈ payoutsOf trace, hashPayouts env payouts = hashPayouts env other → payouts = other

theorem DistinctHashes.earlier {later : List (Option (Message × Call))} (distinct : DistinctHashes env (trace ++ later)) :
    DistinctHashes env trace := by
  intro payouts member other among same
  refine distinct payouts ?_ other ?_ same
  · rw [payoutsOf, List.flatMap_append]
    exact List.mem_append_left _ member
  · rw [payoutsOf, List.flatMap_append]
    exact List.mem_append_left _ among

theorem mem_payoutsOf {call : Call} (member : some (msg, call) ∈ trace) (names : payouts ∈ call.hashed) :
    payouts ∈ payoutsOf trace := List.mem_flatMap.mpr ⟨_, member, names⟩

structure Pending (env : Env σ κ) (trace : List (Option (Message × Call))) (state : State σ κ) (marketId : Bytes32)
    (proposal : Message) (payouts : List Uint256) : Prop where
  made : some (proposal, Call.proposeOutcome marketId payouts) ∈ trace
  hash : (state.optimisticStates marketId).proposedPayoutsHash = hashPayouts env payouts
  time : (state.optimisticStates marketId).proposeTime = proposal.timestamp
  length : payouts.length = (state.specs marketId).outcomeSlotCount.toNat
  payable : Payable payouts

def Present (state : State σ κ) (marketId : Bytes32) : Prop := (state.specs marketId).expiry ≠ 0

structure Orderly (env : Env σ κ) (prepared reported : κ → Bytes32 → Uint256 → Prop) (trace : List (Option (Message × Call)))
    (state : State σ κ) : Prop where
  covered : Covered env state
  missing : ∀ marketId, ¬ Present state marketId →
    state.states marketId = .open ∧ (state.specs marketId).outcomeSlotCount = 0
  prepared : ∀ marketId, Present state marketId →
    prepared state.ctf (state.specs marketId).questionId (state.specs marketId).outcomeSlotCount
  apart : ∀ marketId other, Present state marketId → Present state other →
    (state.specs marketId).questionId = (state.specs other).questionId →
    (state.specs marketId).outcomeSlotCount = (state.specs other).outcomeSlotCount → marketId = other
  unreported : ∀ marketId, Present state marketId → state.states marketId ≠ .resolved →
    ¬ reported state.ctf (state.specs marketId).questionId (state.specs marketId).outcomeSlotCount
  pending : ∀ marketId, state.states marketId = .proposed →
    ∃ proposal payouts, Pending env trace state marketId proposal payouts

theorem Pending.next {proposal : Message} (pending : Pending env trace state marketId proposal payouts)
    (specs : after.specs marketId = state.specs marketId)
    (os : after.optimisticStates marketId = state.optimisticStates marketId) :
    Pending env (trace ++ [label]) after marketId proposal payouts where
  made := List.mem_append_left _ pending.made
  hash := os ▸ pending.hash
  time := os ▸ pending.time
  length := specs ▸ pending.length
  payable := pending.payable

private theorem validatePayouts_payable {spec : ResolutionSpec} {done : Unit}
    (ran : validatePayouts spec payouts = .ok done) :
    payouts.length = spec.outcomeSlotCount.toNat ∧ Payable payouts := by
  have valid := validatePayouts_ok ran
  simp only [validatePayouts, bind_ok, revertIf_ok] at ran
  obtain ⟨-, -, sum, summed, -⟩ := ran
  have total := each_sum BitVec.toNat BitVec.toNat summed fun _ _ _ _ once => Word.add_some.mp (orRevert_ok.mp once)
  have start : (0 : Uint256).toNat = 0 := by simp
  have bound := sum.isLt
  exact ⟨valid.length, valid.some_paid, by omega⟩

private theorem validatePayouts_returns {spec : ResolutionSpec} (length : payouts.length = spec.outcomeSlotCount.toNat)
    (payable : Payable payouts) : validatePayouts spec payouts = .ok () := by
  obtain ⟨sum, summed, -⟩ := @each_returns Error Uint256 Uint256
    (fun sum payout => orRevert (.panic .arithmetic) (Word.add sum payout)) payouts 0
    (fun rest sum => sum.toNat + (rest.map BitVec.toNat).sum < 2 ^ 256) (by
      intro payout rest sum fits
      rw [List.map_cons, List.sum_cons] at fits
      obtain ⟨next, added⟩ := @Word.add_fits _ sum payout (by omega)
      have grown := Word.add_some.mp added
      exact ⟨next, orRevert_ok.mpr added, by omega⟩) (by simpa using payable.2)
  have total := each_sum BitVec.toNat BitVec.toNat summed fun _ _ _ _ once => Word.add_some.mp (orRevert_ok.mp once)
  have start : (0 : Uint256).toNat = 0 := by simp
  have positive : sum ≠ 0 := by
    intro same
    subst same
    have paid := payable.1
    omega
  simp only [validatePayouts, bind_ok, revertIf_ok, ne_eq, Decidable.not_not]
  exact ⟨(), length, sum, summed, positive⟩

theorem Orderly.kept (orderly : Orderly env prepared reported trace state) (covered : Covered env after)
    (specs : after.specs = state.specs) (states : after.states = state.states)
    (optimistic : after.optimisticStates = state.optimisticStates)
    (keeps : ∀ question slots, prepared state.ctf question slots → prepared after.ctf question slots)
    (adds : ∀ question slots, reported after.ctf question slots → reported state.ctf question slots) :
    Orderly env prepared reported (trace ++ [label]) after where
  covered := covered
  missing other absent := by
    unfold Present at absent
    rw [specs] at absent ⊢
    rw [states]
    exact orderly.missing other absent
  prepared other present := by
    unfold Present at present
    rw [specs] at present ⊢
    exact keeps _ _ (orderly.prepared other present)
  apart first second one two := by
    unfold Present at one two
    rw [specs] at one two ⊢
    exact orderly.apart first second one two
  unreported other present unresolved known := by
    unfold Present at present
    rw [specs] at present known
    rw [states] at unresolved
    exact orderly.unreported other present unresolved (adds _ _ known)
  pending other proposed := by
    rw [states] at proposed
    obtain ⟨proposal, payouts, pending⟩ := orderly.pending other proposed
    exact ⟨proposal, payouts, pending.next (congrFun specs _) (congrFun optimistic _)⟩

private theorem Orderly.create (orderly : Orderly env prepared reported trace state)
    (conditions : ConditionLaws env prepared reported)
    {spec : ResolutionSpec} (ran : createMarket env msg marketId spec state = .ok after) (lasting : spec.expiry ≠ 0) :
    Orderly env prepared reported (trace ++ [some (msg, .createMarket marketId spec)]) after := by
  have covered : Covered env after := by
    obtain ⟨-, -, absent, -⟩ := createMarket_ok ran
    refine createMarket_covered ran (.inl ?_) orderly.covered
    rw [(orderly.missing marketId fun present => present absent).1]
    rfl
  obtain ⟨-, -, absent, ctf, made, rfl⟩ := createMarket_ok ran
  obtain ⟨idle, -⟩ := orderly.missing marketId fun present => present absent
  obtain ⟨unprepared, ready⟩ := conditions.fresh _ _ _ _ made
  obtain ⟨keeps, adds⟩ := conditions.prepares _ _ _ _ made
  have elsewhere {other : Bytes32} (different : other ≠ marketId) :
      Function.update state.specs marketId spec other = state.specs other := Function.update_of_ne different _ _
  refine ⟨covered, fun other missing => ?_, fun other present => ?_, fun first second one two => ?_,
    fun other present unresolved known => ?_, fun other proposed => ?_⟩
  · have different : other ≠ marketId := by
      intro same
      subst same
      exact missing (by simpa [Present, State.emit] using lasting)
    simp only [Present, State.emit, elsewhere different] at missing ⊢
    exact orderly.missing other missing
  · by_cases same : other = marketId
    · subst same
      simpa [State.emit] using ready
    · simp only [Present, State.emit, elsewhere same] at present ⊢
      exact keeps _ _ (orderly.prepared other present)
  · have clash {other : Bytes32} (different : other ≠ marketId) (present : Present state other)
        (question : (state.specs other).questionId = spec.questionId)
        (slots : (state.specs other).outcomeSlotCount = spec.outcomeSlotCount) : False :=
      unprepared (question ▸ slots ▸ orderly.prepared other present)
    simp only [Present, State.emit] at one two ⊢
    intro question slots
    by_cases here : first = marketId
    · by_cases there : second = marketId
      · exact here.trans there.symm
      · subst here
        rw [elsewhere there] at two
        rw [Function.update_self, elsewhere there] at question slots
        exact (clash there two question.symm slots.symm).elim
    · by_cases there : second = marketId
      · subst there
        rw [elsewhere here] at one
        rw [Function.update_self, elsewhere here] at question slots
        exact (clash here one question slots).elim
      · rw [elsewhere here] at one question slots
        rw [elsewhere there] at two question slots
        exact orderly.apart first second one two question slots
  · by_cases same : other = marketId
    · subst same
      simp only [State.emit, Function.update_self] at known
      exact unprepared (conditions.unprepared _ _ _ (adds _ _ known))
    · simp only [Present, State.emit, elsewhere same] at present unresolved known
      exact orderly.unreported other present unresolved (adds _ _ known)
  · have different : other ≠ marketId := by
      intro same
      subst same
      simp only [State.emit] at proposed
      rw [idle] at proposed
      cases proposed
    obtain ⟨proposal, payouts, pending⟩ := orderly.pending other proposed
    exact ⟨proposal, payouts, pending.next (elsewhere different) rfl⟩

theorem Orderly.moves {next : MarketState} {os : OptimisticState} (orderly : Orderly env prepared reported trace state)
    (covered : Covered env after) (present : Present state marketId) (unresolved : state.states marketId ≠ .resolved)
    (specs : after.specs = state.specs) (ctf : after.ctf = state.ctf)
    (states : after.states = Function.update state.states marketId next)
    (optimistic : after.optimisticStates = Function.update state.optimisticStates marketId os)
    (pending : next = .proposed → ∃ proposal payouts, Pending env (trace ++ [label]) after marketId proposal payouts) :
    Orderly env prepared reported (trace ++ [label]) after where
  covered := covered
  missing other absent := by
    unfold Present at absent
    rw [specs] at absent ⊢
    have different : other ≠ marketId := fun same => absent (same ▸ present)
    rw [states, Function.update_of_ne different]
    exact orderly.missing other absent
  prepared other there := by
    unfold Present at there
    rw [specs] at there ⊢
    rw [ctf]
    exact orderly.prepared other there
  apart first second one two := by
    unfold Present at one two
    rw [specs] at one two ⊢
    exact orderly.apart first second one two
  unreported other there open_ := by
    unfold Present at there
    rw [specs] at there ⊢
    rw [ctf]
    by_cases same : other = marketId
    · subst same
      exact orderly.unreported other there unresolved
    · rw [states, Function.update_of_ne same] at open_
      exact orderly.unreported other there open_
  pending other proposed := by
    by_cases same : other = marketId
    · subst same
      rw [states, Function.update_self] at proposed
      exact pending proposed
    · rw [states, Function.update_of_ne same] at proposed
      obtain ⟨proposal, payouts, waits⟩ := orderly.pending other proposed
      exact ⟨proposal, payouts, waits.next (congrFun specs _) (by rw [optimistic, Function.update_of_ne same])⟩

theorem Orderly.resolves (orderly : Orderly env prepared reported trace state) (conditions : ConditionLaws env prepared reported)
    (covered : Covered env after) (present : Present state marketId)
    (length : payouts.length = (state.specs marketId).outcomeSlotCount.toNat) (specs : after.specs = state.specs)
    (report : env.ctf.reportPayouts state.ctf env.self (state.specs marketId).questionId payouts = some after.ctf)
    (states : after.states = Function.update state.states marketId .resolved)
    (optimistic : after.optimisticStates = state.optimisticStates) :
    Orderly env prepared reported (trace ++ [label]) after := by
  obtain ⟨keeps, adds⟩ := conditions.reports _ _ _ _ report
  refine ⟨covered, fun other absent => ?_, fun other there => ?_, fun first second one two => ?_,
    fun other there unresolved known => ?_, fun other proposed => ?_⟩
  · unfold Present at absent
    rw [specs] at absent ⊢
    have different : other ≠ marketId := fun same => absent (same ▸ present)
    rw [states, Function.update_of_ne different]
    exact orderly.missing other absent
  · unfold Present at there
    rw [specs] at there ⊢
    exact keeps _ _ (orderly.prepared other there)
  · unfold Present at one two
    rw [specs] at one two ⊢
    exact orderly.apart first second one two
  · unfold Present at there
    rw [specs] at there known
    by_cases same : other = marketId
    · rw [same, states, Function.update_self] at unresolved
      exact unresolved rfl
    · rw [states, Function.update_of_ne same] at unresolved
      rcases adds _ _ known with before | ⟨question, slots⟩
      · exact orderly.unreported other there unresolved before
      · -- another market with this condition would be this market
        refine same (orderly.apart other marketId there present question (slots.trans ?_))
        rw [length]
        simp
  · have different : other ≠ marketId := by
      intro same
      subst same
      rw [states, Function.update_self] at proposed
      cases proposed
    rw [states, Function.update_of_ne different] at proposed
    obtain ⟨proposal, payouts, pending⟩ := orderly.pending other proposed
    exact ⟨proposal, payouts, pending.next (congrFun specs _) (congrFun optimistic _)⟩

theorem Orderly.present (orderly : Orderly env prepared reported trace state) (live : state.states marketId ≠ .open) :
    Present state marketId := by
  by_contra absent
  exact live (orderly.missing marketId absent).1

theorem Orderly.next (orderly : Orderly env prepared reported trace state) (laws : TokenLaws env)
    (conditions : ConditionLaws env prepared reported) (progress : Progresses env prepared reported state label after)
    (distinct : DistinctHashes env (trace ++ [label])) : Orderly env prepared reported (trace ++ [label]) after := by
  obtain ⟨step, careful⟩ := progress
  cases step with
  | @others _ usdc ctf richer =>
    have covered := (@Step.others _ _ env state usdc ctf richer).covered laws trivial orderly.covered
    exact orderly.kept covered rfl rfl rfl careful.1 careful.2
  | @call msg call _ _ external ran =>
    by_cases kind : call.administrative = true
    · have kept := administrative_ok kind ran
      have covered : Covered env after := by
        simpa only [Covered, State.owed, kept.usdc, kept.specs, kept.states] using orderly.covered
      exact orderly.kept covered kept.specs kept.states kept.optimisticStates (fun _ _ => by rw [kept.ctf]; exact id)
        (fun _ _ => by rw [kept.ctf]; exact id)
    · cases call with
      | createMarket marketId spec => exact orderly.create conditions ran careful
      | proposeOutcome marketId payouts =>
        have covered := proposeOutcome_covered laws external ran orderly.covered
        have validated : ∃ done, validatePayouts (state.specs marketId) payouts = .ok done := by
          simp only [exec, proposeOutcome, bind_ok] at ran
          obtain ⟨-, -, -, -, -, -, done, valid, -⟩ := ran
          exact ⟨done, valid⟩
        obtain ⟨_, valid⟩ := validated
        obtain ⟨length, payable⟩ := validatePayouts_payable valid
        obtain ⟨-, live, -, outcomes, usdc, -, rfl⟩ := proposeOutcome_ok ran
        have present : Present state marketId := by
          by_contra absent
          exact outcomes.slots (orderly.missing marketId absent).2
        refine orderly.moves covered present (by simp [live]) rfl rfl rfl rfl fun _ => ⟨msg, payouts, ?_⟩
        refine ⟨List.mem_append_right _ List.mem_cons_self, ?_, ?_, length, payable⟩
        · simp [State.emit]
        · simp [State.emit]
      | disputeOutcome marketId reasoning =>
        have covered := disputeOutcome_covered laws external ran orderly.covered
        obtain ⟨-, proposed, -, usdc, -, rfl⟩ := disputeOutcome_ok ran
        have present : Present state marketId := orderly.present (by simp [proposed])
        exact orderly.moves covered present (by simp [proposed]) rfl rfl rfl rfl (by simp)
      | resolveDispute marketId payouts =>
        have covered := resolveDispute_covered laws ran orderly.covered
        obtain ⟨-, disputed, valid, ctf, usdc, winner, award, report, -, -, -, rfl⟩ := resolveDispute_ok ran
        have present : Present state marketId := orderly.present (by simp [disputed])
        exact orderly.resolves conditions covered present valid.length rfl report rfl rfl
      | finalizeOutcome marketId payouts =>
        have covered := finalizeOutcome_covered laws ran orderly.covered
        obtain ⟨-, proposed, -, same, ctf, usdc, report, -, rfl⟩ := finalizeOutcome_ok ran
        have present : Present state marketId := orderly.present (by simp [proposed])
        obtain ⟨proposal, proposedPayouts, pending⟩ := orderly.pending marketId proposed
        have length : payouts.length = (state.specs marketId).outcomeSlotCount.toNat := by
          have equal := distinct payouts (mem_payoutsOf (List.mem_append_right _ List.mem_cons_self) List.mem_cons_self)
            proposedPayouts (mem_payoutsOf (List.mem_append_left _ pending.made) List.mem_cons_self) (same.trans pending.hash)
          rw [equal, pending.length]
        exact orderly.resolves conditions covered present length rfl report rfl rfl
      | _ => exact absurd rfl kind

private theorem orderly_run (laws : TokenLaws env) (conditions : ConditionLaws env prepared reported)
    {deployer : Address} {usdc : σ}
    {ctf : κ} (run : Run (Progresses env prepared reported) (deploy deployer usdc ctf) trace state)
    (distinct : DistinctHashes env trace) : Orderly env prepared reported trace state := by
  refine run.invariant (fun trace state => DistinctHashes env trace → Orderly env prepared reported trace state)
    (fun _ => ?_) ?_ distinct
  · refine ⟨?_, fun _ _ => ⟨rfl, rfl⟩, fun _ present => absurd rfl present, fun _ _ present => absurd rfl present,
      fun _ present => absurd rfl present, nofun⟩
    simp [Covered, State.owed, deploy, MarketState.bonds]
  · intro trace state label after _ before progress distinct
    exact (before distinct.earlier).next laws conditions progress distinct

theorem owed_le (covered : Covered env state) (marketId : Bytes32) :
    (state.states marketId).bonds * (state.specs marketId).bondAmount.toNat ≤
      (env.usdc.balanceOf state.usdc env.self).toNat :=
  (Finset.single_le_sum (fun other _ => Nat.zero_le (state.owed other)) (Finset.mem_univ marketId)).trans covered

/-- The token pays to an account what the Oracle has. -/
def Pays (env : Env σ κ) (state : State σ κ) (account : Address) : Prop :=
  ∀ amount, amount ≤ env.usdc.balanceOf state.usdc env.self →
    (env.usdc.safeTransfer state.usdc env.self account amount).isSome

theorem Orderly.finalizes {proposal : Message} (orderly : Orderly env prepared reported trace state)
    (conditions : ConditionLaws env prepared reported) (pays : Pays env state (state.optimisticStates marketId).proposer)
    (unpaused : state.paused = false) (proposed : state.states marketId = .proposed)
    (pending : Pending env trace state marketId proposal payouts)
    (passed : proposal.timestamp.toNat + (state.specs marketId).disputeWindow.toNat < msg.timestamp.toNat) :
    ∃ after, finalizeOutcome env msg marketId payouts state = .ok after ∧ after.states marketId = .resolved := by
  have present := orderly.present (show state.states marketId ≠ .open by rw [proposed]; nofun)
  have unreported := orderly.unreported marketId present (by rw [proposed]; nofun)
  obtain ⟨ctf, report⟩ := Option.isSome_iff_exists.mp
    (conditions.accepts _ _ _ _ (orderly.prepared marketId present) unreported pending.length pending.payable)
  have bond : (state.specs marketId).bondAmount ≤ env.usdc.balanceOf state.usdc env.self := by
    have owed := owed_le orderly.covered marketId
    rw [proposed, MarketState.bonds, one_mul] at owed
    exact BitVec.le_def.mpr owed
  obtain ⟨usdc, refund⟩ := Option.isSome_iff_exists.mp (pays _ bond)
  have late := msg.timestamp.isLt
  obtain ⟨windowEnd, sum⟩ := @Word.add_fits _ (state.optimisticStates marketId).proposeTime
    (state.specs marketId).disputeWindow (by rw [pending.time]; omega)
  have ends := Word.add_some.mp sum
  rw [pending.time] at ends
  refine ⟨{ state with usdc, ctf, states := Function.update state.states marketId .resolved }.emit
    (.outcomeResolved marketId payouts), ?_, by simp [State.emit]⟩
  simp only [finalizeOutcome, whenNotPaused, bind_ok, revertIf_ok, orRevert_ok, pure_ok, ne_eq, Decidable.not_not]
  refine ⟨(), by simp [unpaused], (), proposed, windowEnd, sum, (), ?_, (), pending.hash.symm, ctf, report, usdc, refund, rfl⟩
  rw [BitVec.not_le, BitVec.lt_def]
  omega

private theorem Orderly.arbitrates (orderly : Orderly env prepared reported trace state)
    (conditions : ConditionLaws env prepared reported) (paysProposer : Pays env state (state.optimisticStates marketId).proposer)
    (paysDisputer : Pays env state (state.optimisticStates marketId).disputer)
    (disputed : state.states marketId = .disputed) (trusted : state.hasRole .arbitrator msg.sender = true)
    (length : payouts.length = (state.specs marketId).outcomeSlotCount.toNat) (payable : Payable payouts) :
    ∃ after, resolveDispute env msg marketId payouts state = .ok after ∧ after.states marketId = .resolved := by
  have present := orderly.present (show state.states marketId ≠ .open by rw [disputed]; nofun)
  have unreported := orderly.unreported marketId present (by rw [disputed]; nofun)
  obtain ⟨ctf, report⟩ := Option.isSome_iff_exists.mp
    (conditions.accepts _ _ _ _ (orderly.prepared marketId present) unreported length payable)
  have owed := owed_le orderly.covered marketId
  rw [disputed, MarketState.bonds] at owed
  have room := (env.usdc.balanceOf state.usdc env.self).isLt
  have two : (2 : Uint256).toNat = 2 := rfl
  obtain ⟨award, doubled⟩ := @Word.mul_fits _ 2 (state.specs marketId).bondAmount (by rw [two]; omega)
  have size := Word.mul_some.mp doubled
  rw [two] at size
  have winner (right : Bool) : (env.usdc.safeTransfer state.usdc env.self
      (if right then (state.optimisticStates marketId).disputer else (state.optimisticStates marketId).proposer)
      award).isSome := by
    have funded : award ≤ env.usdc.balanceOf state.usdc env.self := BitVec.le_def.mpr (by omega)
    cases right with
    | true => exact paysDisputer _ funded
    | false => exact paysProposer _ funded
  obtain ⟨usdc, paid⟩ := Option.isSome_iff_exists.mp
    (winner (hashPayouts env payouts ≠ (state.optimisticStates marketId).proposedPayoutsHash))
  refine ⟨{ state with usdc, ctf, states := Function.update state.states marketId .resolved }.emit
    (.disputeResolved marketId payouts), ?_, by simp [State.emit]⟩
  simp only [resolveDispute, onlyRole, bind_ok, revertIf_ok, orRevert_ok, pure_ok, ne_eq, Decidable.not_not]
  exact ⟨(), by simp [trusted], (), disputed, (), validatePayouts_returns length payable, ctf, report, award, doubled,
    usdc, paid, rfl⟩

/-- Resolution is never blocked: over every run from deployment in which markets are
created with an expiry, the proposed payouts can be finalized by anyone as soon as the
window is over, and the arbitrator can resolve a dispute with any valid payouts. -/
theorem resolution_never_blocked (laws : TokenLaws env) (conditions : ConditionLaws env prepared reported)
    {deployer : Address} {usdc : σ} {ctf : κ} (run : Run (Progresses env prepared reported) (deploy deployer usdc ctf) trace state)
    (distinct : DistinctHashes env trace) (marketId : Bytes32)
    (pays : Pays env state (state.optimisticStates marketId).proposer) :
    (state.states marketId = .proposed → ∃ proposal payouts,
      some (proposal, Call.proposeOutcome marketId payouts) ∈ trace ∧ ∀ msg, state.paused = false →
        proposal.timestamp.toNat + (state.specs marketId).disputeWindow.toNat < msg.timestamp.toNat →
        ∃ after, finalizeOutcome env msg marketId payouts state = .ok after ∧ after.states marketId = .resolved) ∧
    (state.states marketId = .disputed → Pays env state (state.optimisticStates marketId).disputer →
      ∀ msg payouts, state.hasRole .arbitrator msg.sender = true →
      payouts.length = (state.specs marketId).outcomeSlotCount.toNat → Payable payouts →
      ∃ after, resolveDispute env msg marketId payouts state = .ok after ∧ after.states marketId = .resolved) := by
  have orderly := orderly_run laws conditions run distinct
  constructor
  · intro proposed
    obtain ⟨proposal, payouts, pending⟩ := orderly.pending marketId proposed
    exact ⟨proposal, payouts, pending.made, fun msg unpaused passed =>
      orderly.finalizes conditions pays unpaused proposed pending passed⟩
  · intro disputed paysDisputer msg payouts trusted length payable
    exact orderly.arbitrates conditions pays paysDisputer disputed trusted length payable

namespace Sample

/-- Conditional tokens as a map from a condition to its payouts, empty until they are reported. -/
abbrev Ledger := Condition → Option (List Uint256)

def ledger : Conditions Ledger where
  prepareCondition state oracle questionId outcomeSlotCount :=
    let condition : Condition := (oracle, questionId, outcomeSlotCount)
    if state condition = none then some (Function.update state condition (some [])) else none
  reportPayouts state caller questionId payouts :=
    let condition : Condition := (caller, questionId, BitVec.ofNat 256 payouts.length)
    let sum := (payouts.map BitVec.toNat).sum
    if state condition = some [] ∧ 0 < sum ∧ sum < 2 ^ 256 then
      some (Function.update state condition (some payouts))
    else
      none

def hall : Env Erc20.State Ledger where
  crypto := court.crypto
  usdc := Erc20.token
  ctf := ledger
  self := 4

def key (question : Bytes32) (slots : Uint256) : Condition := (4, question, slots)

private theorem key_same {question other : Bytes32} {slots count : Uint256} :
    key question slots = key other count ↔ question = other ∧ slots = count := by simp [key]

def isPrepared (state : Ledger) (question : Bytes32) (slots : Uint256) : Prop := state (key question slots) ≠ none

def isReported (state : Ledger) (question : Bytes32) (slots : Uint256) : Prop :=
  isPrepared state question slots ∧ state (key question slots) ≠ some []

theorem prepared_ok {state after : Ledger} {question : Bytes32} {slots : Uint256}
    (made : ledger.prepareCondition state 4 question slots = some after) :
    state (key question slots) = none ∧ after = Function.update state (key question slots) (some []) := by
  simp only [ledger] at made
  split at made
  next fresh =>
    cases made
    exact ⟨fresh, rfl⟩
  next => cases made

private theorem reported_ok {state after : Ledger} {question : Bytes32} {payouts : List Uint256}
    (made : ledger.reportPayouts state 4 question payouts = some after) :
    after = Function.update state (key question (BitVec.ofNat 256 payouts.length)) (some payouts) := by
  simp only [ledger] at made
  split at made
  next accepted =>
    cases made
    rfl
  next => cases made

private theorem ledger_laws : ConditionLaws hall isPrepared isReported where
  fresh state after question slots made := by
    obtain ⟨fresh, rfl⟩ := prepared_ok made
    exact ⟨fun known => known fresh, by simp [isPrepared]⟩
  prepares state after question slots made := by
    obtain ⟨fresh, rfl⟩ := prepared_ok made
    refine ⟨fun other count known => ?_, fun other count known => ?_⟩ <;>
      by_cases same : key other count = key question slots
    · simp [isPrepared, same]
    · simpa [isPrepared, Function.update_of_ne same] using known
    · simp [isReported, same] at known
    · simpa [isReported, isPrepared, Function.update_of_ne same] using known
  reports state after question payouts made := by
    obtain rfl := reported_ok made
    refine ⟨fun other count known => ?_, fun other count known => ?_⟩ <;>
      by_cases same : key other count = key question (BitVec.ofNat 256 payouts.length)
    · simp [isPrepared, same]
    · simpa [isPrepared, Function.update_of_ne same] using known
    · exact .inr (key_same.mp same)
    · exact .inl (by simpa [isReported, isPrepared, Function.update_of_ne same] using known)
  unprepared _ _ _ known := known.1
  accepts state question slots payouts known unreported length payable := by
    have same : BitVec.ofNat 256 payouts.length = slots := by rw [length, BitVec.ofNat_toNat, BitVec.setWidth_eq]
    have empty : state (key question slots) = some [] := by
      by_contra other
      exact unreported ⟨known, other⟩
    have passes : state (4, question, BitVec.ofNat 256 payouts.length) = some [] ∧
        0 < (payouts.map BitVec.toNat).sum ∧ (payouts.map BitVec.toNat).sum < 2 ^ 256 := ⟨same ▸ empty, payable⟩
    show (ledger.reportPayouts state 4 question payouts).isSome
    simp only [ledger, if_pos passes, Option.isSome_some]

def opening : State Erc20.State Ledger := deploy 1 usdc fun _ => none

end Sample

/-- The hypotheses meet: account 9 finalizes what account 5 has proposed. -/
theorem resolution_never_blocked_sample : ∃ state after,
    Run (Progresses Sample.hall Sample.isPrepared Sample.isReported) Sample.opening (Sample.creation 1500) state ∧
    finalizeOutcome Sample.hall ⟨9, 2101⟩ 7 [0, 1] state = .ok after ∧ after.states 7 = .resolved := by
  obtain ⟨state, ran, checked⟩ := returns_iff.mp (show returns (each (perform Sample.hall) Sample.opening
    (Sample.creation 1500)) (fun state => state.states 7 = .proposed ∧ state.paused = false ∧
      (state.optimisticStates 7).proposer = 5 ∧ (state.specs 7).disputeWindow = 100 ∧
      state.usdc.balances 4 = 10 ∧ state.usdc.balances 5 = 990) = true by decide +kernel)
  obtain ⟨proposed, unpaused, proposer, window, ten, left⟩ := of_decide_eq_true checked
  have run : Run (Progresses Sample.hall Sample.isPrepared Sample.isReported) Sample.opening (Sample.creation 1500) state := by
    apply Run.of_each ran
    intro before label next member once
    refine ⟨perform_step (List.all_eq_true.mp (by decide) label member) once, ?_⟩
    simp only [Sample.creation, List.mem_cons, List.not_mem_nil, or_false] at member
    rcases member with rfl | rfl | rfl
    · trivial
    · exact (by decide : (1500 : Uint256) ≠ 0)
    · trivial
  have distinct : DistinctHashes Sample.hall (Sample.creation 1500) := by
    intro payouts member other among _
    have one : payoutsOf (Sample.creation 1500) = [[0, 1]] := rfl
    rw [one, List.mem_singleton] at member among
    rw [member, among]
  have pays : Pays Sample.hall state (state.optimisticStates 7).proposer := by
    intro amount within
    have small : amount ≤ state.usdc.balances 4 := within
    have room : amount.toNat ≤ 10 := by
      rw [ten] at small
      exact small
    have balance : (state.usdc.balances 5).toNat = 990 := by
      rw [left]
      rfl
    rw [proposer]
    exact Erc20.transfer_succeeds (show (5 : Address) ≠ 0 by decide) small (by omega)
  obtain ⟨proposal, payouts, made, finalizes⟩ :=
    (resolution_never_blocked (erc20_laws rfl) Sample.ledger_laws run distinct 7 pays).1 proposed
  simp only [Sample.creation, List.mem_cons, List.not_mem_nil, or_false, Option.some.injEq, Prod.mk.injEq, reduceCtorEq,
    and_false, false_or, Call.proposeOutcome.injEq] at made
  obtain ⟨rfl, -, rfl⟩ := made
  obtain ⟨after, done, resolved⟩ := finalizes ⟨9, 2101⟩ unpaused (by rw [window]; decide)
  exact ⟨state, after, run, done, resolved⟩

end Omniscient.Oracle

import Omniscient.Oracle

/-! What a successful Oracle call implies and does: one inversion for each
function, and one for the calls that leave the markets alone. -/

namespace Omniscient.Oracle
open Outcome

variable {σ κ : Type} {env : Env σ κ} {msg : Message} {state after : State σ κ} {marketId : Bytes32}
  {payouts : List Uint256}

structure ValidPayouts (spec : ResolutionSpec) (payouts : List Uint256) : Prop where
  length : payouts.length = spec.outcomeSlotCount.toNat
  some_paid : 0 < (payouts.map BitVec.toNat).sum

theorem validatePayouts_ok {spec : ResolutionSpec} {done : Unit} (ran : validatePayouts spec payouts = .ok done) :
    ValidPayouts spec payouts := by
  simp only [validatePayouts, bind_ok, revertIf_ok, ne_eq, Decidable.not_not] at ran
  obtain ⟨-, length, sum, summed, nonzero⟩ := ran
  have total := each_sum BitVec.toNat BitVec.toNat summed fun _ _ _ _ once => Word.add_some.mp (orRevert_ok.mp once)
  refine ⟨length, ?_⟩
  have positive : sum.toNat ≠ 0 := fun zero => nonzero (BitVec.eq_of_toNat_eq zero)
  have start : (0 : Uint256).toNat = 0 := by simp
  omega

theorem ValidPayouts.slots {spec : ResolutionSpec} (valid : ValidPayouts spec payouts) : spec.outcomeSlotCount ≠ 0 := by
  intro none
  have length := valid.length
  rw [none] at length
  have empty : payouts = [] := List.length_eq_zero_iff.mp (by simpa using length)
  have paid := valid.some_paid
  simp [empty] at paid

theorem createMarket_ok {spec : ResolutionSpec} (ran : createMarket env msg marketId spec state = .ok after) :
    state.hasRole .marketCreator msg.sender = true ∧ state.paused = false ∧ (state.specs marketId).expiry = 0 ∧
      ∃ ctf, env.ctf.prepareCondition state.ctf env.self spec.questionId spec.outcomeSlotCount = some ctf ∧
        after = { state with ctf, specs := Function.update state.specs marketId spec }.emit
          (.marketCreated marketId spec.questionId spec.expiry) := by
  simp only [createMarket, onlyRole, whenNotPaused, bind_ok, revertIf_ok, orRevert_ok, pure_ok, Bool.not_eq_true,
    Bool.not_eq_false, ne_eq, Decidable.not_not] at ran
  obtain ⟨-, trusted, -, unpaused, -, fresh, ctf, prepared, rfl⟩ := ran
  exact ⟨trusted, unpaused, fresh, ctf, prepared, rfl⟩

theorem proposeOutcome_ok (ran : proposeOutcome env msg marketId payouts state = .ok after) :
    state.paused = false ∧ state.states marketId = .open ∧ (state.specs marketId).expiry ≤ msg.timestamp ∧
      ValidPayouts (state.specs marketId) payouts ∧ ∃ usdc,
        env.usdc.safeTransferFrom state.usdc env.self msg.sender env.self (state.specs marketId).bondAmount = some usdc ∧
        after = { state with
          usdc
          states := Function.update state.states marketId .proposed
          optimisticStates := Function.update state.optimisticStates marketId { state.optimisticStates marketId with
            proposedPayoutsHash := hashPayouts env payouts
            proposer := msg.sender
            proposeTime := msg.timestamp } }.emit (.outcomeProposed marketId msg.sender payouts) := by
  simp only [proposeOutcome, whenNotPaused, bind_ok, revertIf_ok, orRevert_ok, pure_ok, Bool.not_eq_true, ne_eq,
    Decidable.not_not, BitVec.not_lt] at ran
  obtain ⟨-, unpaused, -, live, -, expired, _, valid, usdc, paid, rfl⟩ := ran
  exact ⟨unpaused, live, expired, validatePayouts_ok valid, usdc, paid, rfl⟩

theorem disputeOutcome_ok {reasoning : Bytes} (ran : disputeOutcome env msg marketId reasoning state = .ok after) :
    state.paused = false ∧ state.states marketId = .proposed ∧
      msg.timestamp.toNat ≤
        (state.optimisticStates marketId).proposeTime.toNat + (state.specs marketId).disputeWindow.toNat ∧ ∃ usdc,
        env.usdc.safeTransferFrom state.usdc env.self msg.sender env.self (state.specs marketId).bondAmount = some usdc ∧
        after = { state with
          usdc
          states := Function.update state.states marketId .disputed
          optimisticStates := Function.update state.optimisticStates marketId
            { state.optimisticStates marketId with disputer := msg.sender } }.emit
              (.outcomeDisputed marketId msg.sender reasoning) := by
  simp only [disputeOutcome, whenNotPaused, bind_ok, revertIf_ok, orRevert_ok, pure_ok, Bool.not_eq_true, ne_eq,
    Decidable.not_not, gt_iff_lt, BitVec.not_lt, Word.add_some] at ran
  obtain ⟨-, unpaused, -, proposed, windowEnd, sum, -, inTime, usdc, paid, rfl⟩ := ran
  exact ⟨unpaused, proposed, sum ▸ inTime, usdc, paid, rfl⟩

theorem resolveDispute_ok (ran : resolveDispute env msg marketId payouts state = .ok after) :
    state.hasRole .arbitrator msg.sender = true ∧ state.states marketId = .disputed ∧
      ValidPayouts (state.specs marketId) payouts ∧ ∃ ctf usdc winner award,
        env.ctf.reportPayouts state.ctf env.self (state.specs marketId).questionId payouts = some ctf ∧
        award.toNat = 2 * (state.specs marketId).bondAmount.toNat ∧
        winner = (if hashPayouts env payouts ≠ (state.optimisticStates marketId).proposedPayoutsHash
          then (state.optimisticStates marketId).disputer else (state.optimisticStates marketId).proposer) ∧
        env.usdc.safeTransfer state.usdc env.self winner award = some usdc ∧
        after = { state with usdc, ctf, states := Function.update state.states marketId .resolved }.emit
          (.disputeResolved marketId payouts) := by
  simp only [resolveDispute, onlyRole, bind_ok, revertIf_ok, orRevert_ok, pure_ok, Bool.not_eq_false, ne_eq,
    Decidable.not_not, decide_eq_true_eq, Word.mul_some] at ran
  obtain ⟨-, trusted, -, disputed, _, valid, ctf, reported, award, doubled, usdc, paid, rfl⟩ := ran
  exact ⟨trusted, disputed, validatePayouts_ok valid, ctf, usdc, _, award, reported, doubled, rfl, paid, rfl⟩

theorem finalizeOutcome_ok (ran : finalizeOutcome env msg marketId payouts state = .ok after) :
    state.paused = false ∧ state.states marketId = .proposed ∧
      (state.optimisticStates marketId).proposeTime.toNat + (state.specs marketId).disputeWindow.toNat <
        msg.timestamp.toNat ∧
      hashPayouts env payouts = (state.optimisticStates marketId).proposedPayoutsHash ∧ ∃ ctf usdc,
        env.ctf.reportPayouts state.ctf env.self (state.specs marketId).questionId payouts = some ctf ∧
        env.usdc.safeTransfer state.usdc env.self (state.optimisticStates marketId).proposer
          (state.specs marketId).bondAmount = some usdc ∧
        after = { state with usdc, ctf, states := Function.update state.states marketId .resolved }.emit
          (.outcomeResolved marketId payouts) := by
  simp only [finalizeOutcome, whenNotPaused, bind_ok, revertIf_ok, orRevert_ok, pure_ok, Bool.not_eq_true, ne_eq,
    Decidable.not_not, BitVec.not_le, Word.add_some] at ran
  obtain ⟨-, unpaused, -, proposed, windowEnd, sum, -, passed, -, same, ctf, reported, usdc, refunded, rfl⟩ := ran
  exact ⟨unpaused, proposed, sum ▸ passed, same, ctf, usdc, reported, refunded, rfl⟩

def Call.administrative : Call → Bool
  | .createMarket .. | .proposeOutcome .. | .disputeOutcome .. | .resolveDispute .. | .finalizeOutcome .. => false
  | _ => true

structure MarketsKept (state after : State σ κ) : Prop where
  usdc : after.usdc = state.usdc
  ctf : after.ctf = state.ctf
  specs : after.specs = state.specs
  states : after.states = state.states
  optimisticStates : after.optimisticStates = state.optimisticStates
  events : after.events = state.events

theorem administrative_ok {call : Call} (kind : call.administrative = true)
    (ran : exec env msg call state = .ok after) : MarketsKept state after := by
  cases call with
  | createMarket | proposeOutcome | disputeOutcome | resolveDispute | finalizeOutcome => cases kind
  | pause =>
    simp only [exec, pause, bind_ok, pure_ok] at ran
    obtain ⟨-, -, -, -, rfl⟩ := ran
    exact ⟨rfl, rfl, rfl, rfl, rfl, rfl⟩
  | unpause =>
    simp only [exec, unpause, bind_ok, pure_ok] at ran
    obtain ⟨-, -, -, -, rfl⟩ := ran
    exact ⟨rfl, rfl, rfl, rfl, rfl, rfl⟩
  | grantRole role account =>
    simp only [exec, grantRole, bind_ok, pure_ok] at ran
    obtain ⟨-, -, rfl⟩ := ran
    exact ⟨rfl, rfl, rfl, rfl, rfl, rfl⟩
  | revokeRole role account =>
    simp only [exec, revokeRole, bind_ok, pure_ok] at ran
    obtain ⟨-, -, rfl⟩ := ran
    exact ⟨rfl, rfl, rfl, rfl, rfl, rfl⟩
  | renounceRole role callerConfirmation =>
    simp only [exec, renounceRole, bind_ok, pure_ok] at ran
    obtain ⟨-, -, rfl⟩ := ran
    exact ⟨rfl, rfl, rfl, rfl, rfl, rfl⟩

end Omniscient.Oracle

import Omniscient.Proofs.CustodySolvency

/-! A pause cannot hold the escape hatch shut. While the vault is paused its
liveness clock stands still, the threshold is bounded in every reachable state,
and a solvent vault can pay whoever comes. -/

namespace Omniscient.Custody
open Outcome Totals

variable {σ : Type} {env : Env σ} {msg : Message} {state after : State σ}

structure Clockwork (call : Call) (state after : State σ) : Prop where
  bounded : state.operatorInactivityThreshold ≤ maxOperatorInactivityThreshold →
    after.operatorInactivityThreshold ≤ maxOperatorInactivityThreshold
  frozen : state.paused = true → call ≠ .unpause →
    after.paused = true ∧ after.lastOperatorActivity = state.lastOperatorActivity

theorem Clockwork.unpaused {call : Call} (running : state.paused = false)
    (same : after.operatorInactivityThreshold = state.operatorInactivityThreshold) : Clockwork call state after := by
  refine ⟨fun bounded => same ▸ bounded, fun paused => ?_⟩
  rw [running] at paused
  cases paused

theorem exec_clockwork {call : Call} (ran : exec env msg call state = .ok after) : Clockwork call state after := by
  cases call with
  | deposit amount =>
    obtain ⟨running, -, usdc, received, newBalance, -, -, -, -, rfl⟩ := deposit_ok ran
    exact .unpaused running rfl
  | withdraw amount deadline operatorSig =>
    obtain ⟨running, -, -, signer, next, usdc, rest, -, -, -, -, -, rfl⟩ := withdraw_ok ran
    exact .unpaused running rfl
  | executeForcedWithdrawal recipient =>
    obtain ⟨-, -, -, usdc, -, rfl⟩ := executeForcedWithdrawal_ok ran
    exact ⟨id, fun paused _ => ⟨paused, rfl⟩⟩
  | applyNetDeltas batchId deltas =>
    obtain ⟨running, -, -, -, -, framed⟩ := applyNetDeltas_ok ran
    exact .unpaused running (by rw [framed])
  | heartbeat =>
    obtain ⟨running, -, rfl⟩ := heartbeat_ok ran
    exact .unpaused running rfl
  | pause =>
    simp only [exec, pause, bind_ok, pure_ok] at ran
    obtain ⟨-, -, -, -, rfl⟩ := ran
    exact ⟨id, fun _ _ => ⟨rfl, rfl⟩⟩
  | unpause =>
    simp only [exec, unpause, bind_ok, pure_ok] at ran
    obtain ⟨-, -, -, -, rfl⟩ := ran
    exact ⟨id, fun _ other => absurd rfl other⟩
  | setOperatorInactivityThreshold newThreshold =>
    simp only [exec, setOperatorInactivityThreshold, bind_ok, revertIf_ok, pure_ok, not_or, gt_iff_lt,
      BitVec.not_lt] at ran
    obtain ⟨-, -, -, within, rfl⟩ := ran
    exact ⟨fun _ => within.2, fun paused _ => ⟨paused, rfl⟩⟩
  | grantRole role account =>
    simp only [exec, grantRole, bind_ok, pure_ok] at ran
    obtain ⟨-, -, rfl⟩ := ran
    exact ⟨id, fun paused _ => ⟨paused, rfl⟩⟩
  | revokeRole role account =>
    simp only [exec, revokeRole, bind_ok, pure_ok] at ran
    obtain ⟨-, -, rfl⟩ := ran
    exact ⟨id, fun paused _ => ⟨paused, rfl⟩⟩
  | renounceRole role callerConfirmation =>
    simp only [exec, renounceRole, bind_ok, pure_ok] at ran
    obtain ⟨-, -, rfl⟩ := ran
    exact ⟨id, fun paused _ => ⟨paused, rfl⟩⟩

private theorem deploy_bounded {token admin : Address} {threshold now : Uint256} {usdc : σ}
    (ran : deploy token admin threshold now usdc = .ok state) :
    state.operatorInactivityThreshold ≤ maxOperatorInactivityThreshold := by
  simp only [deploy, bind_ok, revertIf_ok, pure_ok, not_or, gt_iff_lt, BitVec.not_lt] at ran
  obtain ⟨-, -, -, within, rfl⟩ := ran
  exact within.2

private theorem threshold_bounded {token admin : Address} {threshold now : Uint256} {usdc : σ} {start : State σ}
    (deployed : deploy token admin threshold now usdc = .ok start)
    {trace : List (Option (Message × Call))} (run : Run (Step env) start trace state) :
    state.operatorInactivityThreshold ≤ maxOperatorInactivityThreshold := by
  apply run.keeps fun state => state.operatorInactivityThreshold ≤ maxOperatorInactivityThreshold
  · intro before label next step bounded
    cases step with
    | call ran => exact (exec_clockwork ran).bounded bounded
    | others => exact bounded
  · exact deploy_bounded deployed

private theorem paused_run {trace : List (Option (Message × Call))} (run : Run (Step env) state trace after)
    (paused : state.paused = true) (held : ∀ msg, some (msg, Call.unpause) ∉ trace) :
    after.paused = true ∧ after.lastOperatorActivity = state.lastOperatorActivity := by
  refine run.invariant (fun trace after => (∀ msg, some (msg, Call.unpause) ∉ trace) →
    after.paused = true ∧ after.lastOperatorActivity = state.lastOperatorActivity) (fun _ => ⟨paused, rfl⟩) ?_ held
  intro trace before label next _ earlier step held
  obtain ⟨still, clock⟩ := earlier fun msg member => held msg (List.mem_append_left _ member)
  cases step with
  | @call msg call _ _ ran =>
    have other : call ≠ .unpause := by
      intro same
      subst same
      exact held msg (List.mem_append_right _ List.mem_cons_self)
    obtain ⟨paused, same⟩ := (exec_clockwork ran).frozen still other
    exact ⟨paused, same.trans clock⟩
  | others => exact ⟨still, clock⟩

/-- A silent operator and a paying token leave nothing for a forced withdrawal to fail on. -/
theorem executeForcedWithdrawal_succeeds {recipient : Address} {usdc : σ} (named : recipient ≠ 0)
    (silent : state.lastOperatorActivity.toNat + state.operatorInactivityThreshold.toNat < msg.timestamp.toNat)
    (positive : state.balances msg.sender ≠ 0)
    (paid : env.usdc.safeTransfer state.usdc env.self recipient (state.balances msg.sender) = some usdc) :
    executeForcedWithdrawal env msg recipient state = .ok ({ state.setBalance msg.sender 0 with usdc }.emit
      (.forcedWithdrawalExecuted msg.sender recipient (state.balances msg.sender))) := by
  have elapsed : (msg.timestamp - state.lastOperatorActivity).toNat =
      msg.timestamp.toNat - state.lastOperatorActivity.toNat :=
    BitVec.toNat_sub_of_le (BitVec.le_def.mpr (by omega))
  simp only [executeForcedWithdrawal, operatorAbsent, debitAndPay, bind_ok, revertIf_ok, orRevert_ok, pure_ok,
    Word.sub_some, Bool.not_eq_false]
  refine ⟨(), named, true, ⟨msg.timestamp - state.lastOperatorActivity, by omega, ?_⟩, (), rfl, (), positive, _,
    ⟨(), BitVec.lt_irrefl _, 0, by simp, usdc, paid, rfl⟩, rfl⟩
  rw [decide_eq_true_eq, BitVec.lt_def, elapsed]
  omega

/-- From every reachable paused state, as long as nobody unpauses, 90 days after
the operator's last activity everyone gets out with the whole balance. -/
theorem escape_hatch (laws : TokenLaws env)
    {token admin : Address} {threshold now : Uint256} {usdc : σ} {start held : State σ}
    (deployed : deploy token admin threshold now usdc = .ok start)
    {past future : List (Option (Message × Call))} (reached : Run (Step env) start past held)
    (paused : held.paused = true) (continued : Run (Step env) held future state)
    (shut : ∀ msg, some (msg, Call.unpause) ∉ future) {recipient : Address} (named : recipient ≠ 0)
    (positive : state.balances msg.sender ≠ 0)
    (late : held.lastOperatorActivity.toNat + 90 * 86400 < msg.timestamp.toNat)
    (pays : ∀ amount, amount ≤ env.usdc.balanceOf state.usdc env.self →
      (env.usdc.safeTransfer state.usdc env.self recipient amount).isSome) :
    ∃ after, exec env msg (.executeForcedWithdrawal recipient) state = .ok after ∧
      after.balances = Function.update state.balances msg.sender 0 ∧
      env.usdc.safeTransfer state.usdc env.self recipient (state.balances msg.sender) = some after.usdc := by
  have run := reached.append continued
  obtain ⟨-, clock⟩ := paused_run continued paused shut
  have bounded : state.operatorInactivityThreshold.toNat ≤ 7776000 := threshold_bounded deployed run
  have solvent : Solvent env state := custody_solvent laws deployed run
  have own : (state.balances msg.sender).toNat ≤ total state.balances :=
    Finset.single_le_sum (fun other _ => Nat.zero_le (state.balances other).toNat) (Finset.mem_univ msg.sender)
  obtain ⟨usdc', paid⟩ := Option.isSome_iff_exists.mp
    (pays (state.balances msg.sender) (own.trans solvent))
  refine ⟨_, executeForcedWithdrawal_succeeds named ?_ positive paid, rfl, paid⟩
  rw [clock]
  omega

namespace Sample

def perform (state : State Erc20.State) (label : Option (Message × Call)) : Except Error (State Erc20.State) :=
  match label with
  | some (msg, call) => exec vault msg call state
  | none => return state

theorem performed {state after : State Erc20.State} {trace : List (Option (Message × Call))}
    (ran : each perform state trace = .ok after) : Run (Step vault) state trace after := by
  apply Run.of_each ran
  intro before label next _ once
  cases label with
  | some each => exact .call once
  | none =>
    cases once
    exact .others (BitVec.le_refl _)

def pausing : List (Option (Message × Call)) :=
  [some (⟨7, 2000⟩, .deposit 4), some (⟨1, 2001⟩, .grantRole .pauser 1), some (⟨1, 2002⟩, .pause)]

def raising : List (Option (Message × Call)) := [some (⟨1, 2003⟩, .setOperatorInactivityThreshold 7776000)]

end Sample

/-- The hypotheses meet: the threshold is raised during the pause, and account 7
gets its 4 USDC out to account 8. -/
theorem escape_hatch_sample : ∃ state after, exec Sample.vault ⟨7, 7777001⟩ (.executeForcedWithdrawal 8) state = .ok after ∧
    after.balances = Function.update state.balances 7 0 := by
  obtain ⟨held, paused, later⟩ := returns_iff.mp (show returns (each Sample.perform Sample.start Sample.pausing)
    (fun held => held.paused = true ∧ held.lastOperatorActivity = 1000 ∧ returns (each Sample.perform held Sample.raising)
      fun state => state.balances 7 = 4 ∧ state.usdc.balances 2 = 4 ∧ state.usdc.balances 8 = 0) = true by decide +kernel)
  obtain ⟨holds, clock, raised⟩ := of_decide_eq_true later
  obtain ⟨state, continued, checked⟩ := returns_iff.mp raised
  obtain ⟨four, backed, empty⟩ := of_decide_eq_true checked
  have pays (amount : Uint256) (within : amount ≤ Sample.vault.usdc.balanceOf state.usdc Sample.vault.self) :
      (Sample.vault.usdc.safeTransfer state.usdc Sample.vault.self 8 amount).isSome := by
    have small : amount ≤ 4 := backed ▸ within
    have room : amount.toNat ≤ 4 := small
    have nothing : (state.usdc.balances 8).toNat = 0 := by
      rw [empty]
      rfl
    exact Erc20.transfer_succeeds (show (8 : Address) ≠ 0 by decide) within (by omega)
  obtain ⟨after, ran, emptied, -⟩ := @escape_hatch _ Sample.vault ⟨7, 7777001⟩ state (erc20_laws rfl) 3 1 86400 1000
    Sample.usdc Sample.start held Sample.deployed _ _ (Sample.performed paused) holds (Sample.performed continued)
    (by simp [Sample.raising]) 8 (by decide) (by rw [four]; decide) (by rw [clock]; decide) pays
  exact ⟨state, after, ran, emptied⟩

end Omniscient.Custody

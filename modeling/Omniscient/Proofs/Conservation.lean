import Omniscient.Proofs.EscapeHatch

/-! What the vault holds beyond its accounts' balances. No operation moves this
surplus, except one that pays the vault itself: the debit is then not matched by
an outgoing transfer, and the amount belongs to nobody. -/

namespace Omniscient.Custody
open Outcome Totals

variable {σ : Type} {env : Env σ} {msg : Message} {state after : State σ}

def surplus (env : Env σ) (state : State σ) : Int :=
  (env.usdc.balanceOf state.usdc env.self).toNat - total state.balances

def Call.payee (msg : Message) : Call → Option Address
  | .withdraw .. => some msg.sender
  | .executeForcedWithdrawal recipient => some recipient
  | _ => none

/-- A payment lowers the balances by its amount, and the vault's USDC as well
unless the vault is the recipient. -/
theorem payment_surplus (laws : TokenLaws env) {usdc : σ} {account recipient : Address} {amount rest : Uint256}
    (moved : env.usdc.safeTransfer state.usdc env.self recipient amount = some usdc)
    (debited : rest.toNat + amount.toNat = (state.balances account).toNat)
    (pool : after.usdc = usdc) (balances : after.balances = Function.update state.balances account rest) :
    surplus env after = surplus env state + if recipient = env.self then amount.toNat else 0 := by
  have sum := total_update state.balances account rest
  simp only [surplus, pool, balances]
  split
  next own =>
    subst own
    rw [laws.returned _ _ _ moved]
    omega
  next other =>
    have paid := laws.outgoing _ _ _ _ moved other
    omega

private theorem administrative_payee {call : Call} (kind : call.administrative = true) : call.payee msg = none := by
  cases call <;> first | rfl | cases kind

theorem exec_surplus (laws : TokenLaws env) {call : Call} (ran : exec env msg call state = .ok after) :
    ∃ amount : Nat, surplus env after = surplus env state + (if call.payee msg = some env.self then amount else 0) ∧
      (call.payee msg ≠ none → amount ≠ 0) := by
  by_cases kind : call.administrative = true
  · obtain ⟨usdc, balances, -⟩ := administrative_ok kind ran
    have same : surplus env after = surplus env state := by rw [surplus, surplus, usdc, balances]
    exact ⟨0, by simp [same], fun paid => absurd (administrative_payee kind) paid⟩
  · cases call with
    | deposit amount =>
      obtain ⟨-, -, usdc, received, newBalance, moved, measured, -, credited, rfl⟩ := deposit_ok ran
      have sum := total_update state.balances msg.sender newBalance
      refine ⟨0, ?_, by simp [Call.payee]⟩
      simp only [surplus, Call.payee, emit_usdc, setBalance_usdc, emit_balances, setBalance_balances]
      simp only [reduceCtorEq, if_false]
      omega
    | withdraw amount deadline operatorSig =>
      obtain ⟨-, positive, -, signer, next, usdc, rest, -, -, -, moved, debited, rfl⟩ := withdraw_ok ran
      refine ⟨amount.toNat, ?_, fun _ zero => positive (BitVec.eq_of_toNat_eq zero)⟩
      rw [payment_surplus laws moved debited rfl rfl]
      simp [Call.payee]
    | executeForcedWithdrawal recipient =>
      obtain ⟨-, -, positive, usdc, moved, rfl⟩ := executeForcedWithdrawal_ok ran
      refine ⟨(state.balances msg.sender).toNat, ?_, fun _ zero => positive (BitVec.eq_of_toNat_eq zero)⟩
      have emptied : (0 : Uint256).toNat + (state.balances msg.sender).toNat = (state.balances msg.sender).toNat := by simp
      rw [payment_surplus laws moved emptied rfl rfl]
      simp [Call.payee]
    | applyNetDeltas batchId deltas =>
      have total := deltas_total ran
      obtain ⟨-, -, -, -, -, framed⟩ := applyNetDeltas_ok ran
      have usdc : after.usdc = state.usdc := by rw [framed]
      have same : surplus env after = surplus env state := by rw [surplus, surplus, total, usdc]
      exact ⟨0, by simp [same, Call.payee], by simp [Call.payee]⟩
    | _ => simp [Call.administrative] at kind

/-- Exact conservation: a call that succeeds leaves the surplus alone if and only
if it does not pay the vault. -/
theorem exact_conservation (laws : TokenLaws env) {call : Call} (ran : exec env msg call state = .ok after) :
    surplus env after = surplus env state ↔ call.payee msg ≠ some env.self := by
  obtain ⟨amount, moved, paid⟩ := exec_surplus laws ran
  by_cases own : call.payee msg = some env.self
  · have positive := paid (by simp [own])
    rw [if_pos own] at moved
    simp only [own, ne_eq, not_true_eq_false, iff_false]
    omega
  · rw [if_neg own] at moved
    simp only [ne_eq, own, not_false_eq_true, iff_true]
    omega

theorem surplus_run (laws : TokenLaws env) {start : State σ} {trace : List (Option (Message × Call))}
    (run : Run (fun state label after => Step env state label after ∧
      match label with
      | some (msg, call) => call.payee msg ≠ some env.self
      | none => env.usdc.balanceOf after.usdc env.self = env.usdc.balanceOf state.usdc env.self) start trace state) :
    surplus env state = surplus env start := by
  apply run.keeps (fun state => surplus env state = surplus env start)
  · rintro before label next ⟨step, outward⟩ same
    cases step with
    | call ran => exact ((exact_conservation laws ran).mpr outward).trans same
    | others =>
      rw [← same, surplus, surplus]
      dsimp only at outward
      rw [outward]
  · rfl

/-- Account 7 deposits 4 and forces them out to the vault itself: the vault still
holds 4, and no account has a balance. -/
theorem exact_conservation_fails : ∃ trace state after, Run (Step Sample.vault) Sample.start trace state ∧
    exec Sample.vault ⟨7, 100000⟩ (.executeForcedWithdrawal 2) state = .ok after ∧
    surplus Sample.vault after ≠ surplus Sample.vault state := by
  obtain ⟨state, ran, later⟩ := returns_iff.mp (show returns
    (each Sample.perform Sample.start [some (⟨7, 2000⟩, .deposit 4)]) (fun state => returns
      (exec Sample.vault ⟨7, 100000⟩ (.executeForcedWithdrawal 2) state) fun _ => true) = true by decide +kernel)
  obtain ⟨after, forced, -⟩ := returns_iff.mp later
  refine ⟨_, state, after, Sample.performed ran, forced, ?_⟩
  obtain ⟨amount, moved, paid⟩ := exec_surplus (erc20_laws rfl) forced
  have positive := paid (by simp [Call.payee])
  have own : Call.payee ⟨7, 100000⟩ (.executeForcedWithdrawal 2) = some Sample.vault.self := rfl
  rw [if_pos own] at moved
  omega

/-- The hypotheses meet: the deposit alone leaves the surplus at 0. -/
theorem exact_conservation_sample : ∃ after, exec Sample.vault ⟨7, 2000⟩ (.deposit 4) Sample.start = .ok after ∧
    surplus Sample.vault after = surplus Sample.vault Sample.start := by
  obtain ⟨after, ran, -⟩ := returns_iff.mp (show returns (exec Sample.vault ⟨7, 2000⟩ (.deposit 4) Sample.start)
    (fun _ => true) = true by decide +kernel)
  exact ⟨after, ran, (exact_conservation (erc20_laws rfl) ran).mpr (by simp [Call.payee])⟩

end Omniscient.Custody

import Omniscient.Erc20
import Omniscient.Lib.Run
import Omniscient.Lib.Totals
import Omniscient.Proofs.CustodyCalls

/-! The vault can always pay everyone: the USDC it holds covers the sum of all
balances, in every state a run from deployment reaches. -/

namespace Omniscient.Custody
open Totals

variable {σ : Type} {env : Env σ} {msg : Message} {state after : State σ}

/-- What the vault relies on the token for: a transfer out costs exactly its
amount, and a transfer to itself nothing. Of a transfer in nothing is assumed,
since the deposit measures what arrived. -/
structure TokenLaws (env : Env σ) : Prop where
  outgoing : ∀ usdc usdc' recipient amount, env.usdc.safeTransfer usdc env.self recipient amount = some usdc' →
    recipient ≠ env.self →
    (env.usdc.balanceOf usdc' env.self).toNat + amount.toNat = (env.usdc.balanceOf usdc env.self).toNat
  returned : ∀ usdc usdc' amount, env.usdc.safeTransfer usdc env.self env.self amount = some usdc' →
    env.usdc.balanceOf usdc' env.self = env.usdc.balanceOf usdc env.self

theorem erc20_laws {env : Env Erc20.State} (plain : env.usdc = Erc20.token) : TokenLaws env := by
  constructor
  · intro usdc usdc' recipient amount paid other
    rw [plain] at paid ⊢
    simp only [Erc20.token, Erc20.transfer] at paid ⊢
    split at paid
    · cases paid
    · exact (Erc20.move_other paid other.symm).1
  · intro usdc usdc' amount paid
    rw [plain] at paid ⊢
    simp only [Erc20.token, Erc20.transfer] at paid ⊢
    split at paid
    · cases paid
    · exact Erc20.move_self paid

def Solvent (env : Env σ) (state : State σ) : Prop :=
  total state.balances ≤ (env.usdc.balanceOf state.usdc env.self).toNat

private theorem payment_solvent (laws : TokenLaws env) {usdc : σ} {account recipient : Address} {amount rest : Uint256}
    (moved : env.usdc.safeTransfer state.usdc env.self recipient amount = some usdc)
    (debited : rest.toNat + amount.toNat = (state.balances account).toNat) (solvent : Solvent env state) :
    total (Function.update state.balances account rest) ≤ (env.usdc.balanceOf usdc env.self).toNat := by
  have sum := total_update state.balances account rest
  unfold Solvent at solvent
  by_cases own : recipient = env.self
  · subst own
    rw [laws.returned _ _ _ moved]
    omega
  · have paid := laws.outgoing _ _ _ _ moved own
    omega

theorem deltas_total {batchId : Bytes32} {deltas : List BalanceDelta}
    (ran : applyNetDeltas msg batchId deltas state = .ok after) : total after.balances = total state.balances := by
  obtain ⟨-, -, -, conserved, moved, -⟩ := applyNetDeltas_ok ran
  have exact : (total after.balances : Int) = total state.balances + Postings.sum deltas := by
    simp only [total, Nat.cast_sum, moved, Finset.sum_add_distrib, Postings.sum_net]
  omega

theorem Step.solvent (laws : TokenLaws env) {label : Option (Message × Call)} (step : Step env state label after)
    (solvent : Solvent env state) : Solvent env after := by
  cases step with
  | others richer =>
    unfold Solvent at *
    simp only [BitVec.le_def] at richer
    exact Nat.le_trans solvent richer
  | @call msg call _ _ ran =>
    by_cases kind : call.administrative = true
    · obtain ⟨usdc, balances, -⟩ := administrative_ok kind ran
      simpa only [Solvent, usdc, balances] using solvent
    · cases call with
      | deposit amount =>
        obtain ⟨-, -, usdc, received, newBalance, moved, measured, -, credited, rfl⟩ := deposit_ok ran
        have sum := total_update state.balances msg.sender newBalance
        unfold Solvent at *
        simp only [emit_balances, setBalance_balances, emit_usdc, setBalance_usdc]
        omega
      | withdraw amount deadline operatorSig =>
        obtain ⟨-, -, -, signer, next, usdc, rest, -, -, -, moved, debited, rfl⟩ := withdraw_ok ran
        exact payment_solvent laws moved debited solvent
      | executeForcedWithdrawal recipient =>
        obtain ⟨-, -, -, usdc, moved, rfl⟩ := executeForcedWithdrawal_ok ran
        exact payment_solvent laws moved (by simp) solvent
      | applyNetDeltas batchId deltas =>
        have same := deltas_total ran
        obtain ⟨-, -, -, -, -, framed⟩ := applyNetDeltas_ok ran
        have usdc := congrArg State.usdc framed
        simpa only [Solvent, same, usdc] using solvent
      | _ => simp [Call.administrative] at kind

/-- Custody solvency, over every run from deployment. -/
theorem custody_solvent (laws : TokenLaws env) {token admin : Address} {threshold now : Uint256} {usdc : σ}
    {start : State σ} (deployed : deploy token admin threshold now usdc = .ok start)
    {trace : List (Option (Message × Call))} (run : Run (Step env) start trace state) : Solvent env state := by
  apply run.keeps (Solvent env)
  · intro before label next step solvent
    exact step.solvent laws solvent
  · obtain ⟨-, -, empty⟩ := deploy_ok deployed
    unfold Solvent
    rw [empty, total_zero]
    exact Nat.zero_le _

namespace Sample

/-- A vault at address 2 over a plain ledger. -/
def vault : Env Erc20.State where
  crypto := { keccak256 := fun bytes => bytes.foldl (fun hash byte => hash * 257 + byte.toNat) 1, recover := fun _ _ => none }
  usdc := Erc20.token
  self := 2
  chainId := 137

/-- Account 7 owns 10 USDC and has approved the vault for them. -/
def usdc : Erc20.State where
  balances account := if account = 7 then 10 else 0
  allowance holder spender := if holder = 7 ∧ spender = 2 then 10 else 0

def start : State Erc20.State where
  usdc
  events := []
  paused := false
  hasRole role account := role == .defaultAdmin && account == 1
  lastOperatorActivity := 1000
  operatorInactivityThreshold := 86400
  balances _ := 0
  withdrawalNonce _ := 0
  appliedBatches _ := false

theorem deployed : deploy 3 1 86400 1000 usdc = .ok start := rfl

end Sample

/-- The hypotheses meet: account 7 deposits 4 and takes them out through the
hatch, to the vault itself. -/
theorem custody_solvent_sample : ∃ trace state, Run (Step Sample.vault) Sample.start trace state ∧
    trace.length = 2 ∧ Solvent Sample.vault state := by
  obtain ⟨held, deposited⟩ : ∃ held, exec Sample.vault ⟨7, 2000⟩ (.deposit 4) Sample.start = .ok held := ⟨_, rfl⟩
  obtain ⟨left, forced⟩ : ∃ left, exec Sample.vault ⟨7, 100000⟩ (.executeForcedWithdrawal 2) held = .ok left := by
    cases deposited
    exact ⟨_, rfl⟩
  have run : Run (Step Sample.vault) Sample.start _ left := (Run.start.next (.call deposited)).next (.call forced)
  exact ⟨_, left, run, rfl, custody_solvent (erc20_laws rfl) Sample.deployed run⟩

end Omniscient.Custody

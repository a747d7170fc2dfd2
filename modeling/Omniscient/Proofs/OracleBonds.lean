import Omniscient.Erc20
import Omniscient.Lib.Run
import Omniscient.Lib.Totals
import Omniscient.Proofs.OracleCalls

/-! The bonds of all markets lie in one pool. A market is owed its bond once when
proposed and twice when disputed, at the amount its spec has now; the pool covers
all markets as long as no spec is replaced under a bond by one with a larger bond. -/

namespace Omniscient.Oracle
open Outcome Totals

variable {σ κ : Type} {env : Env σ κ} {msg : Message} {state after : State σ κ} {marketId : Bytes32}

/-- What the Oracle relies on the token for: a transfer in brings its amount, and a
transfer out costs at most its amount. -/
structure TokenLaws (env : Env σ κ) : Prop where
  incoming : ∀ usdc usdc' holder amount, holder ≠ env.self →
    env.usdc.safeTransferFrom usdc env.self holder env.self amount = some usdc' →
    (env.usdc.balanceOf usdc' env.self).toNat = (env.usdc.balanceOf usdc env.self).toNat + amount.toNat
  outgoing : ∀ usdc usdc' recipient amount, env.usdc.safeTransfer usdc env.self recipient amount = some usdc' →
    (env.usdc.balanceOf usdc env.self).toNat ≤ (env.usdc.balanceOf usdc' env.self).toNat + amount.toNat

theorem erc20_laws {env : Env Erc20.State κ} (plain : env.usdc = Erc20.token) : TokenLaws env := by
  constructor
  · intro usdc usdc' holder amount external paid
    rw [plain] at paid ⊢
    simp only [Erc20.token, Erc20.transferFrom] at paid ⊢
    split at paid
    · cases paid
    · obtain ⟨left, allowed, moved⟩ := Option.bind_eq_some_iff.mp paid
      exact (Erc20.move_other moved external).2.1
  · intro usdc usdc' recipient amount paid
    rw [plain] at paid ⊢
    simp only [Erc20.token, Erc20.transfer] at paid ⊢
    split at paid
    · cases paid
    · by_cases own : recipient = env.self
      · subst own
        rw [Erc20.move_self paid]
        exact Nat.le_add_right _ _
      · exact (Erc20.move_other paid (Ne.symm own)).1.ge

def MarketState.bonds : MarketState → Nat
  | .proposed => 1
  | .disputed => 2
  | .open | .resolved => 0

def State.owed (state : State σ κ) (marketId : Bytes32) : Nat :=
  (state.states marketId).bonds * (state.specs marketId).bondAmount.toNat

/-- Every pending refund or award can be paid. -/
def Covered (env : Env σ κ) (state : State σ κ) : Prop :=
  ∑ marketId, state.owed marketId ≤ (env.usdc.balanceOf state.usdc env.self).toNat

/-- No spec is replaced under a pending bond by one with a larger bond. -/
def KeepsBonds (state : State σ κ) : Option (Message × Call) → Prop
  | some (_, .createMarket marketId spec) =>
    (state.states marketId).bonds = 0 ∨ spec.bondAmount ≤ (state.specs marketId).bondAmount
  | _ => True

/-- A step that changes one market's debt, no more than it changes the pool. -/
theorem Covered.moves (covered : Covered env state) (marketId : Bytes32)
    (others : ∀ other, other ≠ marketId → after.owed other = state.owed other)
    (paid : after.owed marketId + (env.usdc.balanceOf state.usdc env.self).toNat ≤
      state.owed marketId + (env.usdc.balanceOf after.usdc env.self).toNat) : Covered env after := by
  have moved := sum_moved marketId others
  unfold Covered at *
  omega

theorem Covered.advances {next : MarketState} (covered : Covered env state)
    (states : after.states = Function.update state.states marketId next) (specs : after.specs = state.specs)
    (paid : next.bonds * (state.specs marketId).bondAmount.toNat + (env.usdc.balanceOf state.usdc env.self).toNat ≤
      (state.states marketId).bonds * (state.specs marketId).bondAmount.toNat +
        (env.usdc.balanceOf after.usdc env.self).toNat) : Covered env after := by
  apply covered.moves marketId
  · intro other different
    rw [State.owed, State.owed, states, specs, Function.update_of_ne different]
  · rwa [State.owed, State.owed, states, specs, Function.update_self]

theorem createMarket_owed {spec : ResolutionSpec} (ran : createMarket env msg marketId spec state = .ok after) :
    ∑ other, after.owed other + state.owed marketId =
      ∑ other, state.owed other + (state.states marketId).bonds * spec.bondAmount.toNat ∧ after.usdc = state.usdc := by
  obtain ⟨-, -, -, ctf, -, rfl⟩ := createMarket_ok ran
  refine ⟨?_, rfl⟩
  rw [sum_moved marketId fun other different => by
    simp only [State.owed, State.emit, Function.update_of_ne different]]
  simp only [State.owed, State.emit, Function.update_self]

theorem createMarket_covered {spec : ResolutionSpec} (ran : createMarket env msg marketId spec state = .ok after)
    (keeps : KeepsBonds state (some (msg, .createMarket marketId spec))) (covered : Covered env state) :
    Covered env after := by
  obtain ⟨sum, pool⟩ := createMarket_owed ran
  have lower : (state.states marketId).bonds * spec.bondAmount.toNat ≤ state.owed marketId := by
    rcases keeps with none | lower
    · simp [none]
    · exact Nat.mul_le_mul_left _ lower
  unfold Covered at *
  rw [pool]
  omega

theorem createMarket_covered_iff {spec : ResolutionSpec} (ran : createMarket env msg marketId spec state = .ok after)
    (tight : ∑ other, state.owed other = (env.usdc.balanceOf state.usdc env.self).toNat) :
    Covered env after ↔ KeepsBonds state (some (msg, .createMarket marketId spec)) := by
  constructor
  · intro covered
    obtain ⟨sum, pool⟩ := createMarket_owed ran
    have lower : (state.states marketId).bonds * spec.bondAmount.toNat ≤
        (state.states marketId).bonds * (state.specs marketId).bondAmount.toNat := by
      unfold Covered at covered
      rw [pool] at covered
      simp only [State.owed] at *
      omega
    rcases Nat.eq_zero_or_pos (state.states marketId).bonds with none | pending
    · exact .inl none
    · exact .inr (Nat.le_of_mul_le_mul_left lower pending)
  · exact fun keeps => createMarket_covered ran keeps tight.le

theorem proposeOutcome_covered (laws : TokenLaws env) (external : msg.sender ≠ env.self) {payouts : List Uint256}
    (ran : proposeOutcome env msg marketId payouts state = .ok after) (covered : Covered env state) :
    Covered env after := by
  obtain ⟨-, live, -, -, usdc, paid, rfl⟩ := proposeOutcome_ok ran
  have received := laws.incoming _ _ _ _ external paid
  refine @Covered.advances σ κ env state _ marketId .proposed covered rfl rfl ?_
  rw [live]
  simp only [MarketState.bonds, State.emit]
  omega

theorem disputeOutcome_covered (laws : TokenLaws env) (external : msg.sender ≠ env.self) {reasoning : Bytes}
    (ran : disputeOutcome env msg marketId reasoning state = .ok after) (covered : Covered env state) :
    Covered env after := by
  obtain ⟨-, proposed, -, usdc, paid, rfl⟩ := disputeOutcome_ok ran
  have received := laws.incoming _ _ _ _ external paid
  refine @Covered.advances σ κ env state _ marketId .disputed covered rfl rfl ?_
  rw [proposed]
  simp only [MarketState.bonds, State.emit]
  omega

theorem resolveDispute_covered (laws : TokenLaws env) {payouts : List Uint256}
    (ran : resolveDispute env msg marketId payouts state = .ok after) (covered : Covered env state) :
    Covered env after := by
  obtain ⟨-, disputed, -, ctf, usdc, winner, award, -, doubled, -, paid, rfl⟩ := resolveDispute_ok ran
  have spent := laws.outgoing _ _ _ _ paid
  refine @Covered.advances σ κ env state _ marketId .resolved covered rfl rfl ?_
  rw [disputed]
  simp only [MarketState.bonds, State.emit]
  omega

theorem finalizeOutcome_covered (laws : TokenLaws env) {payouts : List Uint256}
    (ran : finalizeOutcome env msg marketId payouts state = .ok after) (covered : Covered env state) :
    Covered env after := by
  obtain ⟨-, proposed, -, -, ctf, usdc, -, paid, rfl⟩ := finalizeOutcome_ok ran
  have spent := laws.outgoing _ _ _ _ paid
  refine @Covered.advances σ κ env state _ marketId .resolved covered rfl rfl ?_
  rw [proposed]
  simp only [MarketState.bonds, State.emit]
  omega

theorem Step.covered (laws : TokenLaws env) {label : Option (Message × Call)} (step : Step env state label after)
    (keeps : KeepsBonds state label) (covered : Covered env state) : Covered env after := by
  cases step with
  | others richer =>
    unfold Covered at *
    simp only [BitVec.le_def] at richer
    exact Nat.le_trans covered richer
  | @call msg call _ _ external ran =>
    by_cases kind : call.administrative = true
    · have kept := administrative_ok kind ran
      simpa only [Covered, State.owed, kept.usdc, kept.specs, kept.states] using covered
    · cases call with
      | createMarket marketId spec => exact createMarket_covered ran keeps covered
      | proposeOutcome marketId payouts => exact proposeOutcome_covered laws external ran covered
      | disputeOutcome marketId reasoning => exact disputeOutcome_covered laws external ran covered
      | resolveDispute marketId payouts => exact resolveDispute_covered laws ran covered
      | finalizeOutcome marketId payouts => exact finalizeOutcome_covered laws ran covered
      | _ => simp [Call.administrative] at kind

/-- Bond solvency, over every run from deployment in which no spec is replaced
under a pending bond by one with a larger bond. -/
theorem bonds_covered (laws : TokenLaws env) {deployer : Address} {usdc : σ} {ctf : κ}
    {trace : List (Option (Message × Call))}
    (run : Run (fun state label after => Step env state label after ∧ KeepsBonds state label)
      (deploy deployer usdc ctf) trace state) : Covered env state := by
  apply run.keeps (Covered env)
  · intro before label next step covered
    exact step.1.covered laws step.2 covered
  · simp [Covered, State.owed, deploy, MarketState.bonds]

namespace Sample

abbrev Condition := Address × Bytes32 × Uint256

structure Ctf where
  prepared : List Condition
  reported : List (Condition × List Uint256)

def ctf : Conditions Ctf where
  prepareCondition state oracle questionId outcomeSlotCount :=
    let condition : Condition := (oracle, questionId, outcomeSlotCount)
    if condition ∈ state.prepared then none else some { state with prepared := condition :: state.prepared }
  reportPayouts state caller questionId payouts :=
    let condition : Condition := (caller, questionId, BitVec.ofNat 256 payouts.length)
    if condition ∈ state.prepared ∧ state.reported.all (·.1 ≠ condition) then
      some { state with reported := (condition, payouts) :: state.reported }
    else
      none

/-- An Oracle at address 4 over a plain ledger and plain conditional tokens. -/
def court : Env Erc20.State Ctf where
  crypto := { keccak256 := fun bytes => bytes.foldl (fun hash byte => hash * 257 + byte.toNat) 1, recover := fun _ _ => none }
  usdc := Erc20.token
  ctf
  self := 4

/-- Accounts 5 and 6 own 1000 USDC each and have approved the Oracle. -/
def usdc : Erc20.State where
  balances account := if account = 5 ∨ account = 6 then 1000 else 0
  allowance _ spender := if spender = 4 then 1000 else 0

def start : State Erc20.State Ctf := deploy 1 usdc ⟨[], []⟩

def spec (questionId : Bytes32) (expiry bondAmount : Uint256) : ResolutionSpec where
  questionId
  outcomeSlotCount := 2
  expiry
  disputeWindow := 100
  bondAmount

def creation (expiry : Uint256) : List (Option (Message × Call)) :=
  [ some (⟨1, 1000⟩, .grantRole .marketCreator 1),
    some (⟨1, 1000⟩, .createMarket 7 (spec 70 expiry 10)),
    some (⟨5, 2000⟩, .proposeOutcome 7 [0, 1]) ]

def disputed : List (Option (Message × Call)) := creation 1500 ++ [some (⟨6, 2050⟩, .disputeOutcome 7 [])]

instance decidableKeepsBonds (state : State Erc20.State Ctf) (label : Option (Message × Call)) :
    Decidable (KeepsBonds state label) :=
  match label with
  | some (_, .createMarket marketId spec) =>
    inferInstanceAs (Decidable ((state.states marketId).bonds = 0 ∨ spec.bondAmount ≤ (state.specs marketId).bondAmount))
  | some (_, .proposeOutcome ..) | some (_, .disputeOutcome ..) | some (_, .resolveDispute ..)
  | some (_, .finalizeOutcome ..) | some (_, .pause) | some (_, .unpause) | some (_, .grantRole ..)
  | some (_, .revokeRole ..) | some (_, .renounceRole ..) | none => .isTrue trivial

/-- A step that also has to keep the bonds. -/
def careful (state : State Erc20.State Ctf) (label : Option (Message × Call)) : Except Error (State Erc20.State Ctf) := do
  revertIf (¬ KeepsBonds state label) .invalidState
  perform court state label

end Sample

/-- A market created without an expiry is created again, with another question and
five times the bond, while its bond of 10 is pending. -/
theorem bonds_covered_fails : ∃ trace state, Run (Step Sample.court) Sample.start trace state ∧
    ¬ Covered Sample.court state := by
  obtain ⟨state, ran, checked⟩ := returns_iff.mp (show returns (each (perform Sample.court) Sample.start
    (Sample.creation 0 ++ [some (⟨1, 2001⟩, .createMarket 7 (Sample.spec 71 5000 50))]))
    (fun state => (Sample.court.usdc.balanceOf state.usdc 4).toNat < state.owed 7) = true by decide +kernel)
  refine ⟨_, state, Run.of_each ran fun before label next member once =>
    perform_step (List.all_eq_true.mp (by decide) label member) once, ?_⟩
  intro covered
  have one := Finset.single_le_sum (fun other _ => Nat.zero_le (state.owed other)) (Finset.mem_univ 7)
  exact absurd (one.trans covered) (Nat.not_le.mpr (of_decide_eq_true checked))

/-- The hypotheses meet: a market is created, proposed and disputed, and both
bonds are there. -/
theorem bonds_covered_sample : ∃ state, (∃ trace, Run (fun state label after =>
    Step Sample.court state label after ∧ KeepsBonds state label) Sample.start trace state) ∧
    state.states 7 = .disputed ∧ Covered Sample.court state := by
  obtain ⟨state, ran, checked⟩ := returns_iff.mp (show returns (each Sample.careful Sample.start Sample.disputed)
    (fun state => state.states 7 = .disputed) = true by decide +kernel)
  have run : Run (fun state label after => Step Sample.court state label after ∧ KeepsBonds state label)
      Sample.start Sample.disputed state := by
    apply Run.of_each ran
    intro before label next member once
    obtain ⟨_, keeps, taken⟩ := bind_ok.mp once
    exact ⟨perform_step (List.all_eq_true.mp (by decide) label member) taken, not_not.mp (revertIf_ok.mp keeps)⟩
  exact ⟨state, ⟨_, run⟩, of_decide_eq_true checked, bonds_covered (erc20_laws rfl) run⟩

end Omniscient.Oracle

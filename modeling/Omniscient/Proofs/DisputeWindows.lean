import Omniscient.Proofs.OracleProtocol

/-! Whether a proposed market gets settled. A dispute has to come by the end of the
window and the finalization after it; both compute that end with a checked sum, and
the creation of a market bounds neither the window nor, therefore, the sum. -/

namespace Omniscient.Oracle
open Outcome

variable {σ κ : Type} {env : Env σ κ} {msg : Message} {state after : State σ κ} {marketId : Bytes32}
  {label : Option (Message × Call)}

/-- `os.proposeTime + spec.disputeWindow`, which panics where it overflows. -/
def windowEnd (spec : ResolutionSpec) (os : OptimisticState) : Except Error Uint256 :=
  orRevert (.panic .arithmetic) (Word.add os.proposeTime spec.disputeWindow)

def disputeTimeCheck (timestamp : Uint256) (spec : ResolutionSpec) (os : OptimisticState) : Except Error Unit := do
  let windowEnd ← windowEnd spec os
  revertIf (timestamp > windowEnd) .disputeWindowPassed

def finalizeTimeCheck (timestamp : Uint256) (spec : ResolutionSpec) (os : OptimisticState) : Except Error Unit := do
  let windowEnd ← windowEnd spec os
  revertIf (timestamp ≤ windowEnd) .disputeWindowNotPassed

theorem disputeOutcome_checks (reasoning : Bytes) : disputeOutcome env msg marketId reasoning state = (do
    whenNotPaused state
    revertIf (state.states marketId ≠ .proposed) .invalidState
    let os := state.optimisticStates marketId
    disputeTimeCheck msg.timestamp (state.specs marketId) os
    let usdc ← orRevert .safeERC20FailedOperation
      (env.usdc.safeTransferFrom state.usdc env.self msg.sender env.self (state.specs marketId).bondAmount)
    return { state with
      usdc
      states := Function.update state.states marketId .disputed
      optimisticStates := Function.update state.optimisticStates marketId { os with disputer := msg.sender } }.emit
        (.outcomeDisputed marketId msg.sender reasoning)) := by
  simp only [disputeOutcome, disputeTimeCheck, windowEnd, bind_assoc]

private theorem finalizeOutcome_checks (payouts : List Uint256) : finalizeOutcome env msg marketId payouts state = (do
    whenNotPaused state
    revertIf (state.states marketId ≠ .proposed) .invalidState
    let os := state.optimisticStates marketId
    finalizeTimeCheck msg.timestamp (state.specs marketId) os
    revertIf (hashPayouts env payouts ≠ os.proposedPayoutsHash) .payoutsMismatch
    let ctf ← orRevert .ctfFailed
      (env.ctf.reportPayouts state.ctf env.self (state.specs marketId).questionId payouts)
    let usdc ← orRevert .safeERC20FailedOperation
      (env.usdc.safeTransfer state.usdc env.self os.proposer (state.specs marketId).bondAmount)
    return { state with usdc, ctf, states := Function.update state.states marketId .resolved }.emit
      (.outcomeResolved marketId payouts)) := by
  simp only [finalizeOutcome, finalizeTimeCheck, windowEnd, bind_assoc]

section

variable {spec : ResolutionSpec} {os : OptimisticState} {timestamp : Uint256}

theorem disputeTimeCheck_ok : disputeTimeCheck timestamp spec os = .ok () ↔
    os.proposeTime.toNat + spec.disputeWindow.toNat < 2 ^ 256 ∧
      timestamp.toNat ≤ os.proposeTime.toNat + spec.disputeWindow.toNat := by
  simp only [disputeTimeCheck, windowEnd, bind_ok, orRevert_ok, revertIf_ok, gt_iff_lt, BitVec.not_lt, Word.add_some]
  constructor
  · intro checked
    obtain ⟨windowEnd, sum, inTime⟩ := checked
    exact ⟨sum ▸ windowEnd.isLt, sum ▸ inTime⟩
  · intro both
    obtain ⟨fits, inTime⟩ := both
    obtain ⟨windowEnd, added⟩ := Word.add_fits fits
    have sum := Word.add_some.mp added
    exact ⟨windowEnd, sum, BitVec.le_def.mpr (sum ▸ inTime)⟩

theorem finalizeTimeCheck_ok : finalizeTimeCheck timestamp spec os = .ok () ↔
    os.proposeTime.toNat + spec.disputeWindow.toNat < timestamp.toNat := by
  simp only [finalizeTimeCheck, windowEnd, bind_ok, orRevert_ok, revertIf_ok, BitVec.not_le, Word.add_some]
  constructor
  · intro checked
    obtain ⟨windowEnd, sum, passed⟩ := checked
    exact sum ▸ passed
  · intro passed
    obtain ⟨windowEnd, added⟩ := Word.add_fits (passed.trans timestamp.isLt)
    have sum := Word.add_some.mp added
    exact ⟨windowEnd, sum, BitVec.lt_def.mpr (sum ▸ passed)⟩

end

/-- At every timestamp one of the two time checks passes and the other does not, and
from some timestamp on it is the one of the finalization. -/
structure NeverStuck (spec : ResolutionSpec) (os : OptimisticState) : Prop where
  one : ∀ timestamp, disputeTimeCheck timestamp spec os = .ok () ↔ ¬ finalizeTimeCheck timestamp spec os = .ok ()
  eventually : ∃ timestamp, ∀ later, timestamp ≤ later → finalizeTimeCheck later spec os = .ok ()

def WindowEnds (spec : ResolutionSpec) (proposeTime : Uint256) : Prop :=
  proposeTime.toNat + spec.disputeWindow.toNat + 1 < 2 ^ 256

theorem neverStuck_iff {spec : ResolutionSpec} {os : OptimisticState} :
    NeverStuck spec os ↔ WindowEnds spec os.proposeTime := by
  unfold WindowEnds
  constructor
  · intro free
    obtain ⟨-, timestamp, passes⟩ := free
    have passed := finalizeTimeCheck_ok.mp (passes timestamp (BitVec.le_refl _))
    have bound := timestamp.isLt
    omega
  · intro ends
    refine ⟨fun timestamp => ?_, BitVec.ofNat 256 (os.proposeTime.toNat + spec.disputeWindow.toNat + 1), fun later behind => ?_⟩
    · rw [disputeTimeCheck_ok, finalizeTimeCheck_ok]
      omega
    · rw [finalizeTimeCheck_ok]
      rw [BitVec.le_def, BitVec.toNat_ofNat, Nat.mod_eq_of_lt ends] at behind
      omega

/-- Where the calls to the tokens go through, the bond of such a market is at every
timestamp disputed or refunded. -/
theorem disputed_or_refunded (unpaused : state.paused = false) (proposed : state.states marketId = .proposed)
    (free : NeverStuck (state.specs marketId) (state.optimisticStates marketId)) {payouts : List Uint256}
    (same : hashPayouts env payouts = (state.optimisticStates marketId).proposedPayoutsHash) {bonded refunded : σ} {ctf : κ}
    (bond : env.usdc.safeTransferFrom state.usdc env.self msg.sender env.self (state.specs marketId).bondAmount = some bonded)
    (report : env.ctf.reportPayouts state.ctf env.self (state.specs marketId).questionId payouts = some ctf)
    (refund : env.usdc.safeTransfer state.usdc env.self (state.optimisticStates marketId).proposer
      (state.specs marketId).bondAmount = some refunded) (reasoning : Bytes) :
    (∃ after, disputeOutcome env msg marketId reasoning state = .ok after) ∨
      ∃ after, finalizeOutcome env msg marketId payouts state = .ok after := by
  by_cases passed : finalizeTimeCheck msg.timestamp (state.specs marketId) (state.optimisticStates marketId) = .ok ()
  · apply Or.inr
    simp only [finalizeOutcome_checks, whenNotPaused, bind_ok, revertIf_ok, orRevert_ok, pure_ok, unpaused, proposed]
    exact ⟨_, (), by simp, (), by simp, (), passed, (), by simp [same], ctf, report, refunded, refund, rfl⟩
  · apply Or.inl
    simp only [disputeOutcome_checks, whenNotPaused, bind_ok, revertIf_ok, orRevert_ok, pure_ok, unpaused, proposed]
    exact ⟨_, (), by simp, (), by simp, (), (free.one _).mpr passed, bonded, bond, rfl⟩

theorem endless_window (endless : ¬ WindowEnds (state.specs marketId) (state.optimisticStates marketId).proposeTime)
    (payouts : List Uint256) : ¬ finalizeOutcome env msg marketId payouts state = .ok after := by
  intro ran
  obtain ⟨-, -, passed, -⟩ := finalizeOutcome_ok ran
  have bound := msg.timestamp.isLt
  unfold WindowEnds at endless
  omega

theorem overflowing_window (overflows : 2 ^ 256 ≤
    (state.optimisticStates marketId).proposeTime.toNat + (state.specs marketId).disputeWindow.toNat)
    (reasoning : Bytes) : ¬ disputeOutcome env msg marketId reasoning state = .ok after := by
  intro ran
  simp only [disputeOutcome_checks, bind_ok] at ran
  obtain ⟨-, -, -, -, _, inTime, -⟩ := ran
  have fits := (disputeTimeCheck_ok.mp inTime).1
  omega

def WindowsEnd (state : State σ κ) : Prop :=
  ∀ marketId, state.states marketId = .proposed →
    WindowEnds (state.specs marketId) (state.optimisticStates marketId).proposeTime

/-- A proposal, and a spec put under one, have a window that ends. -/
def KeepsWindow (state : State σ κ) : Option (Message × Call) → Prop
  | some (msg, .proposeOutcome marketId _) => WindowEnds (state.specs marketId) msg.timestamp
  | some (_, .createMarket marketId spec) =>
    state.states marketId = .proposed → WindowEnds spec (state.optimisticStates marketId).proposeTime
  | _ => True

private theorem createMarket_window {spec : ResolutionSpec} (ran : createMarket env msg marketId spec state = .ok after)
    (ends : WindowsEnd state) : WindowsEnd after ↔ KeepsWindow state (some (msg, .createMarket marketId spec)) := by
  obtain ⟨-, -, -, ctf, -, rfl⟩ := createMarket_ok ran
  constructor
  · intro all proposed
    have here := all marketId proposed
    simpa only [State.emit, Function.update_self] using here
  · intro keeps other proposed
    simp only [State.emit] at proposed ⊢
    by_cases same : other = marketId
    · subst same
      rw [Function.update_self]
      exact keeps proposed
    · rw [Function.update_of_ne same]
      exact ends other proposed

private theorem proposeOutcome_window {payouts : List Uint256}
    (ran : proposeOutcome env msg marketId payouts state = .ok after)
    (ends : WindowsEnd state) : WindowsEnd after ↔ KeepsWindow state (some (msg, .proposeOutcome marketId payouts)) := by
  obtain ⟨-, -, -, -, usdc, -, rfl⟩ := proposeOutcome_ok ran
  constructor
  · intro all
    have here := all marketId (Function.update_self ..)
    simpa only [State.emit, Function.update_self, KeepsWindow] using here
  · intro keeps other proposed
    simp only [State.emit] at proposed ⊢
    by_cases same : other = marketId
    · subst same
      rw [Function.update_self]
      exact keeps
    · rw [Function.update_of_ne same] at proposed ⊢
      exact ends other proposed

theorem settled_window {next : MarketState} (settled : next ≠ .proposed)
    (states : after.states = Function.update state.states marketId next) (specs : after.specs = state.specs)
    (proposals : ∀ other, other ≠ marketId → after.optimisticStates other = state.optimisticStates other)
    (ends : WindowsEnd state) : WindowsEnd after := by
  intro other proposed
  rw [states] at proposed
  by_cases same : other = marketId
  · subst same
    rw [Function.update_self] at proposed
    exact absurd proposed settled
  · rw [Function.update_of_ne same] at proposed
    rw [specs, proposals other same]
    exact ends other proposed

/-- From a state whose windows end, a step leads to one exactly where it keeps them. -/
theorem Step.window (step : Step env state label after) (ends : WindowsEnd state) :
    WindowsEnd after ↔ KeepsWindow state label := by
  cases step with
  | others => exact iff_of_true ends trivial
  | @call msg call _ _ external ran =>
    by_cases kind : call.administrative = true
    · have kept := administrative_ok kind ran
      have same : WindowsEnd after := by simpa only [WindowsEnd, kept.states, kept.specs, kept.optimisticStates] using ends
      refine iff_of_true same ?_
      cases call <;> trivial
    · cases call with
      | createMarket marketId spec => exact createMarket_window ran ends
      | proposeOutcome marketId payouts => exact proposeOutcome_window ran ends
      | disputeOutcome marketId reasoning =>
        obtain ⟨-, -, -, usdc, -, rfl⟩ := disputeOutcome_ok ran
        refine iff_of_true (settled_window ?_ rfl rfl (fun other different => Function.update_of_ne different _ _) ends) trivial
        exact MarketState.noConfusion
      | resolveDispute marketId payouts =>
        obtain ⟨-, -, -, ctf, usdc, winner, award, -, -, -, -, rfl⟩ := resolveDispute_ok ran
        exact iff_of_true (settled_window MarketState.noConfusion rfl rfl (fun _ _ => rfl) ends) trivial
      | finalizeOutcome marketId payouts =>
        obtain ⟨-, -, -, -, ctf, usdc, -, -, rfl⟩ := finalizeOutcome_ok ran
        exact iff_of_true (settled_window MarketState.noConfusion rfl rfl (fun _ _ => rfl) ends) trivial
      | _ => simp [Call.administrative] at kind

theorem windowsEnd_iff : WindowsEnd state ↔ ∀ marketId, state.states marketId = .proposed →
    NeverStuck (state.specs marketId) (state.optimisticStates marketId) := by
  simp only [neverStuck_iff, WindowsEnd]

/-- A proposed market is never stuck, over every run from deployment whose proposals,
and specs put under one, have a window that ends; and the first step without such a
window leaves a market stuck. -/
theorem proposed_never_stuck {deployer : Address} {usdc : σ} {ctf : κ} {trace : List (Option (Message × Call))}
    (run : Run (fun state label after => Step env state label after ∧ KeepsWindow state label)
      (deploy deployer usdc ctf) trace state) :
    (∀ marketId, state.states marketId = .proposed →
      NeverStuck (state.specs marketId) (state.optimisticStates marketId)) ∧
    ∀ label after, Step env state label after → ((∀ marketId, after.states marketId = .proposed →
      NeverStuck (after.specs marketId) (after.optimisticStates marketId)) ↔ KeepsWindow state label) := by
  have ends : WindowsEnd state := by
    apply run.keeps WindowsEnd
    · intro before label next step ends
      exact (step.1.window ends).mpr step.2
    · intro marketId proposed
      cases proposed
  refine ⟨windowsEnd_iff.mp ends, fun label after step => ?_⟩
  rw [← windowsEnd_iff]
  exact step.window ends

namespace Sample

/-- A market with the longest window, which account 5 proposes. -/
def endless : List (Option (Message × Call)) :=
  [ some (⟨1, 1000⟩, .grantRole .marketCreator 1),
    some (⟨1, 1000⟩, .createMarket 7 { spec 70 1500 10 with disputeWindow := BitVec.allOnes 256 }),
    some (⟨5, 2000⟩, .proposeOutcome 7 [0, 1]) ]

instance (spec : ResolutionSpec) (proposeTime : Uint256) : Decidable (WindowEnds spec proposeTime) :=
  inferInstanceAs (Decidable (proposeTime.toNat + spec.disputeWindow.toNat + 1 < 2 ^ 256))

instance decidableKeepsWindow (state : State Erc20.State Ctf) (label : Option (Message × Call)) :
    Decidable (KeepsWindow state label) :=
  match label with
  | some (msg, .proposeOutcome marketId _) => inferInstanceAs (Decidable (WindowEnds (state.specs marketId) msg.timestamp))
  | some (_, .createMarket marketId spec) => inferInstanceAs (Decidable (state.states marketId = .proposed →
      WindowEnds spec (state.optimisticStates marketId).proposeTime))
  | some (_, .disputeOutcome ..) | some (_, .resolveDispute ..) | some (_, .finalizeOutcome ..) | some (_, .pause)
  | some (_, .unpause) | some (_, .grantRole ..) | some (_, .revokeRole ..) | some (_, .renounceRole ..) | none =>
    .isTrue trivial

def punctual (state : State Erc20.State Ctf) (label : Option (Message × Call)) : Except Error (State Erc20.State Ctf) := do
  revertIf (¬ KeepsWindow state label) .invalidState
  perform court state label

end Sample

/-- The bond of account 5 stays in a market that nobody disputes and nobody finalizes,
at whatever time. -/
theorem proposed_never_stuck_fails : ∃ state, Run (Step Sample.court) Sample.start Sample.endless state ∧
    state.states 7 = .proposed ∧ ¬ NeverStuck (state.specs 7) (state.optimisticStates 7) ∧
    ∀ timestamp, ¬ disputeTimeCheck timestamp (state.specs 7) (state.optimisticStates 7) = .ok () ∧
      ¬ finalizeTimeCheck timestamp (state.specs 7) (state.optimisticStates 7) = .ok () := by
  obtain ⟨state, ran, checked⟩ := returns_iff.mp (show returns (each (perform Sample.court) Sample.start Sample.endless)
    (fun state => state.states 7 = .proposed ∧ (state.optimisticStates 7).proposeTime = 2000 ∧
      (state.specs 7).disputeWindow = BitVec.allOnes 256) = true by decide +kernel)
  obtain ⟨proposed, time, window⟩ := of_decide_eq_true checked
  have run : Run (Step Sample.court) Sample.start Sample.endless state := Run.of_each ran fun before label next member once =>
    perform_step (List.all_eq_true.mp (by decide) label member) once
  have sum : (state.optimisticStates 7).proposeTime.toNat + (state.specs 7).disputeWindow.toNat = 2 ^ 256 + 1999 := by
    rw [time, window]
    decide
  refine ⟨state, run, proposed, fun free => ?_, fun timestamp => ⟨fun inTime => ?_, fun passed => ?_⟩⟩
  · have ends := neverStuck_iff.mp free
    unfold WindowEnds at ends
    omega
  · have fits := (disputeTimeCheck_ok.mp inTime).1
    omega
  · have behind := finalizeTimeCheck_ok.mp passed
    have bound := timestamp.isLt
    omega

/-- The hypotheses meet: a market with a window of 100 is proposed at 2000. -/
theorem proposed_never_stuck_sample : ∃ state, (∃ trace, Run (fun state label after =>
    Step Sample.court state label after ∧ KeepsWindow state label) Sample.start trace state) ∧
    state.states 7 = .proposed ∧ NeverStuck (state.specs 7) (state.optimisticStates 7) := by
  obtain ⟨state, ran, checked⟩ := returns_iff.mp (show returns (each Sample.punctual Sample.start (Sample.creation 1500))
    (fun state => state.states 7 = .proposed) = true by decide +kernel)
  have run : Run (fun state label after => Step Sample.court state label after ∧ KeepsWindow state label)
      Sample.start (Sample.creation 1500) state := by
    apply Run.of_each ran
    intro before label next member once
    obtain ⟨_, keeps, taken⟩ := bind_ok.mp once
    exact ⟨perform_step (List.all_eq_true.mp (by decide) label member) taken, not_not.mp (revertIf_ok.mp keeps)⟩
  have proposed := of_decide_eq_true checked
  exact ⟨state, ⟨_, run⟩, proposed, (proposed_never_stuck run).1 7 proposed⟩

end Omniscient.Oracle

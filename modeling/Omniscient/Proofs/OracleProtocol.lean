import Omniscient.Proofs.OracleBonds

/-! The resolution protocol. What a step does to one market is said once; the
history of a market is then what its state allows. -/

namespace Omniscient.Oracle
open Outcome

variable {σ κ : Type} {env : Env σ κ} {state after : State σ κ} {marketId : Bytes32}
  {label : Option (Message × Call)} {trace : List (Option (Message × Call))}

def Call.moves : Call → Option Bytes32
  | .proposeOutcome marketId _ | .disputeOutcome marketId _ | .resolveDispute marketId _
  | .finalizeOutcome marketId _ => some marketId
  | _ => none

def moved (label : Option (Message × Call)) : Option Bytes32 := label.bind fun each => each.2.moves

private theorem administrative_moves {call : Call} (kind : call.administrative = true) : call.moves = none := by
  cases call <;> first | rfl | cases kind

inductive Moves (env : Env σ κ) (state after : State σ κ) (marketId : Bytes32) : Option (Message × Call) → Prop where
  | idle {label : Option (Message × Call)} : moved label ≠ some marketId → after.states marketId = state.states marketId →
      after.optimisticStates marketId = state.optimisticStates marketId → Moves env state after marketId label
  | propose {msg payouts} : state.states marketId = .open → ValidPayouts (state.specs marketId) payouts →
      after.states marketId = .proposed →
      (after.optimisticStates marketId).proposedPayoutsHash = hashPayouts env payouts →
      (after.optimisticStates marketId).proposeTime = msg.timestamp →
      Moves env state after marketId (some (msg, .proposeOutcome marketId payouts))
  | dispute {msg reasoning} : state.states marketId = .proposed → after.states marketId = .disputed →
      Moves env state after marketId (some (msg, .disputeOutcome marketId reasoning))
  | resolve {msg payouts} : state.hasRole .arbitrator msg.sender = true → state.states marketId = .disputed →
      after.states marketId = .resolved → Moves env state after marketId (some (msg, .resolveDispute marketId payouts))
  | finalize {msg payouts} : state.states marketId = .proposed → after.states marketId = .resolved →
      hashPayouts env payouts = (state.optimisticStates marketId).proposedPayoutsHash →
      (state.optimisticStates marketId).proposeTime.toNat + (state.specs marketId).disputeWindow.toNat <
        msg.timestamp.toNat →
      Moves env state after marketId (some (msg, .finalizeOutcome marketId payouts))

theorem Step.moves (step : Step env state label after) (marketId : Bytes32) : Moves env state after marketId label := by
  have elsewhere {msg : Message} {call : Call} {other : Bytes32} (names : call.moves = some other)
      (different : other ≠ marketId) : moved (some (msg, call)) ≠ some marketId := by
    simpa [moved, names] using different
  cases step with
  | others => exact .idle (by simp [moved]) rfl rfl
  | @call msg call _ _ external ran =>
    by_cases kind : call.administrative = true
    · have kept := administrative_ok kind ran
      exact .idle (by simp [moved, administrative_moves kind]) (congrFun kept.states _)
        (congrFun kept.optimisticStates _)
    · cases call with
      | createMarket other spec =>
        obtain ⟨-, -, -, ctf, -, rfl⟩ := createMarket_ok ran
        exact .idle (by simp [moved, Call.moves]) rfl rfl
      | proposeOutcome other payouts =>
        obtain ⟨-, live, -, valid, usdc, -, rfl⟩ := proposeOutcome_ok ran
        by_cases same : other = marketId
        · subst same
          exact .propose live valid (by simp [State.emit]) (by simp [State.emit]) (by simp [State.emit])
        · exact .idle (elsewhere rfl same) (Function.update_of_ne (Ne.symm same) _ _)
            (Function.update_of_ne (Ne.symm same) _ _)
      | disputeOutcome other reasoning =>
        obtain ⟨-, proposed, -, usdc, -, rfl⟩ := disputeOutcome_ok ran
        by_cases same : other = marketId
        · subst same
          exact .dispute proposed (by simp [State.emit])
        · exact .idle (elsewhere rfl same) (Function.update_of_ne (Ne.symm same) _ _)
            (Function.update_of_ne (Ne.symm same) _ _)
      | resolveDispute other payouts =>
        obtain ⟨trusted, disputed, -, ctf, usdc, winner, award, -, -, -, -, rfl⟩ := resolveDispute_ok ran
        by_cases same : other = marketId
        · subst same
          exact .resolve trusted disputed (by simp [State.emit])
        · exact .idle (elsewhere rfl same) (Function.update_of_ne (Ne.symm same) _ _) rfl
      | finalizeOutcome other payouts =>
        obtain ⟨-, proposed, passed, same, ctf, usdc, -, -, rfl⟩ := finalizeOutcome_ok ran
        by_cases here : other = marketId
        · subst here
          exact .finalize proposed (by simp [State.emit]) same passed
        · exact .idle (elsewhere rfl here) (Function.update_of_ne (Ne.symm here) _ _) rfl
      | _ => simp [Call.administrative] at kind

/-- The edges of the state machine. -/
inductive Advances : MarketState → MarketState → Prop where
  | stays (state : MarketState) : Advances state state
  | proposed : Advances .open .proposed
  | disputed : Advances .proposed .disputed
  | finalized : Advances .proposed .resolved
  | arbitrated : Advances .disputed .resolved

theorem Moves.advances (moves : Moves env state after marketId label) :
    Advances (state.states marketId) (after.states marketId) := by
  cases moves with
  | idle _ same => exact same ▸ .stays _
  | propose before _ now => exact before ▸ now ▸ .proposed
  | dispute before now => exact before ▸ now ▸ .disputed
  | resolve _ before now => exact before ▸ now ▸ .arbitrated
  | finalize before now => exact before ▸ now ▸ .finalized

def Call.report : Call → Option (Bytes32 × List Uint256)
  | .resolveDispute marketId payouts | .finalizeOutcome marketId payouts => some (marketId, payouts)
  | _ => none

/-- What a call does to the conditional tokens: its one report, the preparation of the market
that it creates, or nothing. -/
def Call.Reports (env : Env σ κ) (state : State σ κ) (call : Call) (after : State σ κ) : Prop :=
  match call.report with
  | some (marketId, payouts) =>
    env.ctf.reportPayouts state.ctf env.self (state.specs marketId).questionId payouts = some after.ctf
  | none => after.ctf = state.ctf ∨ ∃ marketId spec, call = .createMarket marketId spec ∧
      env.ctf.prepareCondition state.ctf env.self spec.questionId spec.outcomeSlotCount = some after.ctf

private theorem exec_report {msg : Message} {call : Call} (ran : exec env msg call state = .ok after) :
    call.Reports env state after := by
  by_cases kind : call.administrative = true
  · have kept := administrative_ok kind ran
    cases call <;> first | exact .inl kept.ctf | cases kind
  · cases call with
    | createMarket marketId spec =>
      obtain ⟨-, -, -, ctf, prepared, rfl⟩ := createMarket_ok ran
      exact .inr ⟨marketId, spec, rfl, prepared⟩
    | proposeOutcome marketId payouts =>
      obtain ⟨-, -, -, -, usdc, -, rfl⟩ := proposeOutcome_ok ran
      exact .inl rfl
    | disputeOutcome marketId reasoning =>
      obtain ⟨-, -, -, usdc, -, rfl⟩ := disputeOutcome_ok ran
      exact .inl rfl
    | resolveDispute marketId payouts =>
      obtain ⟨-, -, -, ctf, usdc, winner, award, reported, -, -, -, rfl⟩ := resolveDispute_ok ran
      exact reported
    | finalizeOutcome marketId payouts =>
      obtain ⟨-, -, -, -, ctf, usdc, reported, -, rfl⟩ := finalizeOutcome_ok ran
      exact reported
    | _ => simp [Call.administrative] at kind

def reportedIn (marketId : Bytes32) (label : Option (Message × Call)) : Option (List Uint256) :=
  (label.bind fun each => each.2.report).bind fun (other, payouts) => if other = marketId then some payouts else none

def reports (marketId : Bytes32) (trace : List (Option (Message × Call))) : List (List Uint256) :=
  trace.filterMap (reportedIn marketId)

def Undisputed (marketId : Bytes32) (trace : List (Option (Message × Call))) : Prop :=
  ∀ msg reasoning, some (msg, Call.disputeOutcome marketId reasoning) ∉ trace

def History (env : Env σ κ) (marketId : Bytes32) (trace : List (Option (Message × Call))) :
    MarketState → OptimisticState → Prop
  | .open, _ => reports marketId trace = [] ∧ Undisputed marketId trace
  | .proposed, os => reports marketId trace = [] ∧ Undisputed marketId trace ∧ ∃ msg payouts,
      some (msg, Call.proposeOutcome marketId payouts) ∈ trace ∧
      os.proposedPayoutsHash = hashPayouts env payouts ∧ os.proposeTime = msg.timestamp
  | .disputed, _ => reports marketId trace = []
  | .resolved, _ => (reports marketId trace).length = 1

@[simp] theorem reports_append (marketId : Bytes32) (earlier later : List (Option (Message × Call))) :
    reports marketId (earlier ++ later) = reports marketId earlier ++ reports marketId later :=
  List.filterMap_append ..

private theorem report_moves {call : Call} {other : Bytes32} {payouts : List Uint256}
    (reported : call.report = some (other, payouts)) : call.moves = some other := by
  cases call with
  | resolveDispute | finalizeOutcome =>
    cases reported
    rfl
  | _ => cases reported

private theorem reports_quiet (quiet : moved label ≠ some marketId) : reports marketId [label] = [] := by
  have silent : reportedIn marketId label = none := by
    cases label with
    | none => rfl
    | some each =>
      obtain ⟨msg, call⟩ := each
      cases told : call.report with
      | none => simp [reportedIn, told]
      | some report =>
        obtain ⟨other, payouts⟩ := report
        have different : other ≠ marketId := fun same => quiet (by rw [moved, Option.bind_some, report_moves told, same])
        simp [reportedIn, told, different]
  simp [reports, silent]

theorem undisputed_append {earlier later : List (Option (Message × Call))} (before : Undisputed marketId earlier)
    (after : Undisputed marketId later) : Undisputed marketId (earlier ++ later) := by
  intro msg reasoning member
  rcases List.mem_append.mp member with past | new
  · exact before msg reasoning past
  · exact after msg reasoning new

theorem undisputed_quiet (quiet : moved label ≠ some marketId) : Undisputed marketId [label] := by
  intro msg reasoning member
  rw [← List.mem_singleton.mp member] at quiet
  exact quiet rfl

theorem History.next (history : History env marketId trace (state.states marketId) (state.optimisticStates marketId))
    (moves : Moves env state after marketId label) :
    History env marketId (trace ++ [label]) (after.states marketId) (after.optimisticStates marketId) := by
  cases moves with
  | idle quiet same sameOs =>
    have silent := reports_quiet quiet
    rw [same, sameOs]
    cases now : state.states marketId with
    | «open» =>
      rw [now] at history
      exact ⟨by simp [history.1, silent], undisputed_append history.2 (undisputed_quiet quiet)⟩
    | proposed =>
      rw [now] at history
      obtain ⟨none, undisputed, msg, payouts, member, hash, time⟩ := history
      exact ⟨by simp [none, silent], undisputed_append undisputed (undisputed_quiet quiet), msg, payouts,
        List.mem_append_left _ member, hash, time⟩
    | disputed =>
      rw [now] at history
      have none : reports marketId trace = [] := history
      simp [History, none, silent]
    | resolved =>
      rw [now] at history
      have one : (reports marketId trace).length = 1 := history
      simp [History, one, silent]
  | @propose msg payouts before _ now hash time =>
    rw [before] at history
    rw [now]
    exact ⟨by rw [reports_append, history.1]; rfl, undisputed_append history.2 (by simp [Undisputed]), msg, payouts,
      List.mem_append_right _ List.mem_cons_self, hash, time⟩
  | dispute before now =>
    rw [before] at history
    rw [now, History, reports_append, history.1]
    rfl
  | resolve _ before now =>
    rw [before] at history
    have none : reports marketId trace = [] := history
    rw [now, History, reports_append, none]
    simp [reports, reportedIn, Call.report]
  | finalize before now =>
    rw [before] at history
    rw [now, History, reports_append, history.1]
    simp [reports, reportedIn, Call.report]

private theorem history_run {deployer : Address} {usdc : σ} {ctf : κ}
    (run : Run (Step env) (deploy deployer usdc ctf) trace state) (marketId : Bytes32) :
    History env marketId trace (state.states marketId) (state.optimisticStates marketId) := by
  apply run.invariant fun trace state =>
    History env marketId trace (state.states marketId) (state.optimisticStates marketId)
  · exact ⟨rfl, by simp [Undisputed]⟩
  · intro trace state label after _ history step
    exact history.next (step.moves marketId)

def Created (marketId : Bytes32) (trace : List (Option (Message × Call))) : Prop :=
  ∃ msg spec, some (msg, Call.createMarket marketId spec) ∈ trace

theorem Step.specs (step : Step env state label after) (marketId : Bytes32) :
    after.specs marketId = state.specs marketId ∨ Created marketId [label] := by
  cases step with
  | others => exact .inl rfl
  | @call msg call _ _ external ran =>
    by_cases kind : call.administrative = true
    · exact .inl (congrFun (administrative_ok kind ran).specs _)
    · cases call with
      | createMarket other spec =>
        obtain ⟨-, -, -, ctf, -, rfl⟩ := createMarket_ok ran
        by_cases same : other = marketId
        · subst same
          exact .inr ⟨msg, spec, List.mem_cons_self⟩
        · exact .inl (Function.update_of_ne (Ne.symm same) _ _)
      | proposeOutcome other payouts =>
        obtain ⟨-, -, -, -, usdc, -, rfl⟩ := proposeOutcome_ok ran
        exact .inl rfl
      | disputeOutcome other reasoning =>
        obtain ⟨-, -, -, usdc, -, rfl⟩ := disputeOutcome_ok ran
        exact .inl rfl
      | resolveDispute other payouts =>
        obtain ⟨-, -, -, ctf, usdc, winner, award, -, -, -, -, rfl⟩ := resolveDispute_ok ran
        exact .inl rfl
      | finalizeOutcome other payouts =>
        obtain ⟨-, -, -, -, ctf, usdc, -, -, rfl⟩ := finalizeOutcome_ok ran
        exact .inl rfl
      | _ => simp [Call.administrative] at kind

/-- A market that nobody has created is open and its spec allows no payouts, which
is all that keeps a proposal away. -/
private theorem created_run {deployer : Address} {usdc : σ} {ctf : κ}
    (run : Run (Step env) (deploy deployer usdc ctf) trace state) (marketId : Bytes32) :
    Created marketId trace ∨
      (state.states marketId = .open ∧ (state.specs marketId).outcomeSlotCount = 0) := by
  apply run.invariant fun trace state => Created marketId trace ∨
    (state.states marketId = .open ∧ (state.specs marketId).outcomeSlotCount = 0)
  · exact .inr ⟨rfl, rfl⟩
  · intro trace state label after _ before step
    rcases before with ⟨msg, spec, member⟩ | ⟨live, zero⟩
    · exact .inl ⟨msg, spec, List.mem_append_left _ member⟩
    · rcases step.specs marketId with same | ⟨msg, spec, member⟩
      · refine .inr ⟨?_, by rw [same, zero]⟩
        cases step.moves marketId with
        | idle _ kept => rw [kept, live]
        | propose _ valid => exact absurd zero valid.slots
        | dispute proposed => rw [live] at proposed; cases proposed
        | resolve _ disputed => rw [live] at disputed; cases disputed
        | finalize proposed => rw [live] at proposed; cases proposed
      · exact .inl ⟨msg, spec, List.mem_append_right _ member⟩

/-- How a market may be resolved: by the arbitrator, or without a dispute, by the
proposed payouts, after the window. -/
inductive Resolution (env : Env σ κ) (marketId : Bytes32) (trace : List (Option (Message × Call))) (state : State σ κ) :
    Option (Message × Call) → Prop where
  | arbitrated {msg payouts} : state.hasRole .arbitrator msg.sender = true →
      Resolution env marketId trace state (some (msg, .resolveDispute marketId payouts))
  | undisputed {msg payouts proposal proposed} : Undisputed marketId trace →
      some (proposal, Call.proposeOutcome marketId proposed) ∈ trace →
      hashPayouts env payouts = hashPayouts env proposed →
      proposal.timestamp.toNat + (state.specs marketId).disputeWindow.toNat < msg.timestamp.toNat →
      Resolution env marketId trace state (some (msg, .finalizeOutcome marketId payouts))

/-- The resolution protocol, for every step of every run from deployment. -/
theorem resolution_protocol {deployer : Address} {usdc : σ} {ctf : κ}
    (run : Run (Step env) (deploy deployer usdc ctf) trace state) (step : Step env state label after)
    (marketId : Bytes32) :
    Advances (state.states marketId) (after.states marketId) ∧
    (after.states marketId ≠ .open → Created marketId trace) ∧
    (reports marketId (trace ++ [label])).length ≤ 1 ∧
    (∀ msg call, label = some (msg, call) → call.Reports env state after) ∧
    (state.states marketId ≠ .resolved → after.states marketId = .resolved →
      Resolution env marketId trace state label) := by
  have history := history_run run marketId
  have moves := step.moves marketId
  refine ⟨moves.advances, fun left => ?_, ?_, fun msg call same => ?_, fun unresolved resolved => ?_⟩
  · rcases created_run run marketId with created | ⟨live, zero⟩
    · exact created
    · cases moves with
      | idle _ kept => exact absurd (kept.trans live) left
      | propose _ valid => exact absurd zero valid.slots
      | dispute proposed => rw [live] at proposed; cases proposed
      | resolve _ disputed => rw [live] at disputed; cases disputed
      | finalize proposed => rw [live] at proposed; cases proposed
  · have later := history.next moves
    cases now : after.states marketId with
    | «open» => rw [now] at later; simp [later.1]
    | proposed => rw [now] at later; simp [later.1]
    | disputed =>
      rw [now] at later
      have none : reports marketId (trace ++ [label]) = [] := later
      simp [none]
    | resolved => rw [now] at later; exact le_of_eq later
  · subst same
    cases step with
    | call _ ran => exact exec_report ran
  · cases moves with
    | idle _ kept => exact absurd (kept ▸ resolved) unresolved
    | propose _ _ now => rw [now] at resolved; cases resolved
    | dispute _ now => rw [now] at resolved; cases resolved
    | resolve trusted => exact .arbitrated trusted
    | finalize proposed _ same passed =>
      rw [proposed] at history
      obtain ⟨-, undisputed, proposal, payouts, member, hash, time⟩ := history
      exact .undisputed undisputed member (same.trans hash) (time ▸ passed)

namespace Sample

def finalized : Option (Message × Call) := some (⟨9, 2101⟩, .finalizeOutcome 7 [0, 1])

end Sample

/-- The hypotheses meet: a proposal of account 5 is finalized by account 9. -/
theorem resolution_protocol_sample : ∃ state after, Run (Step Sample.court) Sample.start (Sample.creation 1500) state ∧
    Step Sample.court state Sample.finalized after ∧ after.states 7 = .resolved ∧
    Resolution Sample.court 7 (Sample.creation 1500) state Sample.finalized := by
  obtain ⟨state, ran, later⟩ := returns_iff.mp (show returns (each (perform Sample.court) Sample.start
    (Sample.creation 1500)) (fun state => state.states 7 = .proposed ∧ returns
      (perform Sample.court state Sample.finalized) fun after => after.states 7 = .resolved) = true by decide +kernel)
  obtain ⟨proposed, finalizes⟩ := of_decide_eq_true later
  obtain ⟨after, once, resolved⟩ := returns_iff.mp finalizes
  have run : Run (Step Sample.court) Sample.start (Sample.creation 1500) state := Run.of_each ran
    fun before label next member once => perform_step (List.all_eq_true.mp (by decide) label member) once
  have step := perform_step (by decide) once
  have now := of_decide_eq_true resolved
  refine ⟨state, after, run, step, now, (resolution_protocol run step 7).2.2.2.2 ?_ now⟩
  rw [proposed]
  intro same
  cases same

end Omniscient.Oracle

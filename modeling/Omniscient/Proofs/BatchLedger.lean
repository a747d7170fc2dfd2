import Omniscient.Proofs.EscapeHatch
import Omniscient.Proofs.SettlementErrors
import Omniscient.Proofs.Withdrawals

/-! The two ledgers of settled batches. Where the exchange alone holds the settlement
role, Custody applies the batches that the exchange settles and no others, once each
and in their order; and a batch is the only sign of life that the escape hatch sees. -/

namespace Omniscient

namespace Custody
open Outcome

variable {σ : Type} {env : Env σ} {msg : Message} {state after : State σ}

def Event.batch : Event → Option Bytes32
  | .netDeltasApplied batchId _ => some batchId
  | _ => none

def batchesOf (events : List Event) : List Bytes32 := events.filterMap Event.batch

@[simp] theorem batchesOf_append (events news : List Event) : batchesOf (events ++ news) = batchesOf events ++ batchesOf news :=
  List.filterMap_append

def Call.settles : Call → Bool
  | .applyNetDeltas .. | .heartbeat => true
  | _ => false

structure SameBatches (state after : State σ) : Prop where
  applied : after.appliedBatches = state.appliedBatches
  activity : after.lastOperatorActivity = state.lastOperatorActivity
  reported : batchesOf after.events = batchesOf state.events

theorem settles_trusted {call : Call} (settles : call.settles = true) (ran : exec env msg call state = .ok after) :
    state.hasRole .settlement msg.sender = true := by
  cases call with
  | applyNetDeltas batchId deltas => exact (applyNetDeltas_ok ran).2.1
  | heartbeat => exact (heartbeat_ok ran).2.1
  | _ => cases settles

theorem exec_sameBatches {call : Call} (kind : call.settles = false) (ran : exec env msg call state = .ok after) :
    SameBatches state after := by
  cases call with
  | applyNetDeltas | heartbeat => cases kind
  | deposit amount =>
    obtain ⟨-, -, usdc, received, newBalance, -, -, -, -, rfl⟩ := deposit_ok ran
    exact ⟨rfl, rfl, by simp [batchesOf, Event.batch]⟩
  | withdraw amount deadline operatorSig =>
    obtain ⟨-, -, -, signer, next, usdc, rest, -, -, -, -, -, rfl⟩ := withdraw_ok ran
    exact ⟨rfl, rfl, by simp [batchesOf, Event.batch]⟩
  | executeForcedWithdrawal recipient =>
    obtain ⟨-, -, -, usdc, -, rfl⟩ := executeForcedWithdrawal_ok ran
    exact ⟨rfl, rfl, by simp [batchesOf, Event.batch]⟩
  | pause =>
    simp only [exec, pause, bind_ok, pure_ok] at ran
    obtain ⟨-, -, -, -, rfl⟩ := ran
    exact ⟨rfl, rfl, rfl⟩
  | unpause =>
    simp only [exec, unpause, bind_ok, pure_ok] at ran
    obtain ⟨-, -, -, -, rfl⟩ := ran
    exact ⟨rfl, rfl, rfl⟩
  | setOperatorInactivityThreshold newThreshold =>
    simp only [exec, setOperatorInactivityThreshold, bind_ok, pure_ok] at ran
    obtain ⟨-, -, -, -, rfl⟩ := ran
    exact ⟨rfl, rfl, by simp [batchesOf, Event.batch]⟩
  | grantRole role account =>
    simp only [exec, grantRole, bind_ok, pure_ok] at ran
    obtain ⟨-, -, rfl⟩ := ran
    exact ⟨rfl, rfl, rfl⟩
  | revokeRole role account =>
    simp only [exec, revokeRole, bind_ok, pure_ok] at ran
    obtain ⟨-, -, rfl⟩ := ran
    exact ⟨rfl, rfl, rfl⟩
  | renounceRole role callerConfirmation =>
    simp only [exec, renounceRole, bind_ok, pure_ok] at ran
    obtain ⟨-, -, rfl⟩ := ran
    exact ⟨rfl, rfl, rfl⟩

def Bounded (state : State σ) : Prop :=
  minOperatorInactivityThreshold ≤ state.operatorInactivityThreshold ∧
    state.operatorInactivityThreshold ≤ maxOperatorInactivityThreshold

theorem deploy_within {token admin : Address} {threshold now : Uint256} {usdc : σ}
    (ran : deploy token admin threshold now usdc = .ok state) :
    Bounded state ∧ state.lastOperatorActivity = now ∧ state.appliedBatches = fun _ => false := by
  simp only [deploy, bind_ok, revertIf_ok, pure_ok, not_or, gt_iff_lt, BitVec.not_lt] at ran
  obtain ⟨-, -, -, within, rfl⟩ := ran
  exact ⟨within, rfl, rfl⟩

theorem exec_bounded {call : Call} (ran : exec env msg call state = .ok after) (bounded : Bounded state) : Bounded after := by
  by_cases kind : call.administrative = true
  · cases call with
    | setOperatorInactivityThreshold newThreshold =>
      simp only [exec, setOperatorInactivityThreshold, bind_ok, revertIf_ok, pure_ok, not_or, gt_iff_lt,
        BitVec.not_lt] at ran
      obtain ⟨-, -, -, within, rfl⟩ := ran
      exact within
    | heartbeat =>
      obtain ⟨-, -, rfl⟩ := heartbeat_ok ran
      exact bounded
    | pause | unpause =>
      simp only [exec, pause, unpause, bind_ok, pure_ok] at ran
      obtain ⟨-, -, -, -, rfl⟩ := ran
      exact bounded
    | grantRole role account | revokeRole role account | renounceRole role callerConfirmation =>
      simp only [exec, grantRole, revokeRole, renounceRole, bind_ok, pure_ok] at ran
      obtain ⟨-, -, rfl⟩ := ran
      exact bounded
    | _ => cases kind
  · cases call with
    | deposit amount =>
      obtain ⟨-, -, usdc, received, newBalance, -, -, -, -, rfl⟩ := deposit_ok ran
      exact bounded
    | withdraw amount deadline operatorSig =>
      obtain ⟨-, -, -, signer, next, usdc, rest, -, -, -, -, -, rfl⟩ := withdraw_ok ran
      exact bounded
    | executeForcedWithdrawal recipient =>
      obtain ⟨-, -, -, usdc, -, rfl⟩ := executeForcedWithdrawal_ok ran
      exact bounded
    | applyNetDeltas batchId deltas =>
      obtain ⟨-, -, -, -, -, framed⟩ := applyNetDeltas_ok ran
      rw [framed]
      exact bounded
    | _ => exact absurd rfl kind

private theorem applyNetDeltas_raises {batchId : Bytes32} {deltas : List BalanceDelta}
    (fresh : state.appliedBatches batchId = false) :
    Raises (fun error => ∀ id, error ≠ .batchAlreadyApplied id) (applyNetDeltas msg batchId deltas state) := by
  have unapplied : ¬ state.appliedBatches batchId = true := by simp [fresh]
  refine raises_bind (raises_revertIf (by simp)) fun _ => raises_bind (raises_revertIf (by simp)) fun _ => ?_
  refine raises_bind (raises_revertIf_not unapplied) fun _ => raises_bind (raises_each fun _ _ => ?_) fun _ => ?_
  · exact raises_orRevert (by simp)
  · refine raises_bind (raises_revertIf (by simp)) fun _ => raises_bind (raises_each fun state delta => ?_) fun _ => raises_pure _
    unfold applyDelta
    split
    next => exact raises_pure _
    next =>
      split
      next => exact raises_bind (raises_orRevert (by simp)) fun _ => raises_pure _
      next =>
        refine raises_bind (raises_orRevert (by simp)) fun _ => raises_bind (raises_revertIf (by simp)) fun _ => ?_
        exact raises_bind (raises_orRevert (by simp)) fun _ => raises_pure _

end Custody

namespace SettlementExchange
open Outcome
open Custody (batchesOf SameBatches Bounded)

variable {σ κ : Type} {env : Env σ κ} {msg : Message} {record : Record σ κ} {trace : List (Record σ κ)}
  {start world after state : World σ κ}

/-- Nobody but the exchange may settle. -/
def SoleSettler (env : Env σ κ) (world : World σ κ) : Prop :=
  ∀ account, world.custody.hasRole .settlement account = true → account = env.self

def Action.batch : Action → Option (Bytes32 × Uint256)
  | .exchange msg (.settleBatch batchId ..) => some (batchId, msg.timestamp)
  | _ => none

def settled (trace : List (Record σ κ)) : List (Bytes32 × Uint256) := (trace.map Record.action).filterMap Action.batch

def batchIds (trace : List (Record σ κ)) : List Bytes32 := (settled trace).map Prod.fst

/-- When the last batch was settled, or `since` when there was none. -/
def lastSettled (since : Uint256) (trace : List (Record σ κ)) : Uint256 := ((settled trace).map Prod.snd).getLastD since

inductive Settles (record : Record σ κ) (world after : World σ κ) : Prop where
  | nothing : record.action.batch = none → after.exchange.settledBatches = world.exchange.settledBatches →
      SameBatches world.custody after.custody → Settles record world after
  | batch (batchId : Bytes32) (timestamp : Uint256) : record.action.batch = some (batchId, timestamp) →
      world.exchange.settledBatches batchId = false →
      after.exchange.settledBatches = Function.update world.exchange.settledBatches batchId true →
      after.custody.appliedBatches = Function.update world.custody.appliedBatches batchId true →
      after.custody.lastOperatorActivity = timestamp →
      batchesOf after.custody.events = batchesOf world.custody.events ++ [batchId] → Settles record world after

private theorem storageOnly_batches {call : Call} (kind : call.storageOnly = true)
    (ran : exec env msg call world = .ok after) :
    after.exchange.settledBatches = world.exchange.settledBatches := by
  cases call with
  | settleBatch | withdrawFees => cases kind
  | setFeeRates takerFeeBps makerRebateBps =>
    simp only [exec, onStorage, setFeeRates, bind_ok, pure_ok] at ran
    obtain ⟨_, ⟨-, -, -, -, rfl⟩, rfl⟩ := ran
    rfl
  | cancelAllOrders =>
    simp only [exec, onStorage, cancelAllOrders, bind_ok, pure_ok] at ran
    obtain ⟨_, ⟨next, -, rfl⟩, rfl⟩ := ran
    rfl
  | pause | unpause =>
    simp only [exec, onStorage, pause, unpause, bind_ok, pure_ok] at ran
    obtain ⟨_, ⟨-, -, -, -, rfl⟩, rfl⟩ := ran
    rfl
  | grantRole role account | revokeRole role account | renounceRole role callerConfirmation =>
    simp only [exec, onStorage, grantRole, revokeRole, renounceRole, bind_ok, pure_ok] at ran
    obtain ⟨_, ⟨-, -, rfl⟩, rfl⟩ := ran
    rfl

theorem Recorded.settles (moved : Recorded env world record after) (sole : SoleSettler env world) :
    Settles record world after := by
  obtain ⟨recordWorld, action⟩ := record
  obtain ⟨rfl, moved⟩ := moved
  cases moved with
  | usdc => exact .nothing rfl rfl ⟨rfl, rfl, rfl⟩
  | ctf => exact .nothing rfl rfl ⟨rfl, rfl, rfl⟩
  | @custody msg call custody external ran =>
    cases kind : call.settles with
    | true => exact absurd (sole _ (Custody.settles_trusted kind ran)) external
    | false => exact .nothing rfl rfl (Custody.exec_sameBatches kind ran)
  | @exchange msg call _ external ran =>
    by_cases kind : call.storageOnly = true
    · obtain ⟨custody, -, -⟩ := storageOnly_ok kind ran
      refine .nothing ?_ (storageOnly_batches kind ran) (custody ▸ ⟨rfl, rfl, rfl⟩)
      cases call <;> first | rfl | cases kind
    · cases call with
      | settleBatch batchId orders fills isMaker =>
        have batch := settleBatch_ok ran
        obtain ⟨deltas, applied⟩ := settleBatch_custody ran
        obtain ⟨-, -, -, -, -, framed⟩ := Custody.applyNetDeltas_ok applied
        refine .batch batchId msg.timestamp rfl batch.fresh (by rw [batch.exchange]) ?_ ?_ ?_
        · rw [framed]
        · rw [framed]
        · rw [framed]
          exact Custody.batchesOf_append _ _
      | withdrawFees amount recipient deadline sig =>
        obtain ⟨-, custody, withdrawn, paid, exchange, -⟩ := withdrawFees_ok ran
        obtain ⟨applied, activity, reported⟩ := Custody.exec_sameBatches rfl withdrawn
        refine .nothing rfl (by rw [exchange]) ⟨?_, ?_, ?_⟩
        · rw [paid, applied]
        · rw [paid, activity]
        · rw [paid, reported]
      | _ => exact absurd rfl kind

structure BatchesKept (since : Uint256) (trace : List (Record σ κ)) (state : World σ κ) : Prop where
  distinct : (batchIds trace).Nodup
  marked : ∀ batchId, state.exchange.settledBatches batchId = true ↔ batchId ∈ batchIds trace
  applied : state.custody.appliedBatches = state.exchange.settledBatches
  reported : batchesOf state.custody.events = batchIds trace
  activity : state.custody.lastOperatorActivity = lastSettled since trace

theorem BatchesKept.next {since : Uint256} (kept : BatchesKept since trace world) (step : Settles record world after) :
    BatchesKept since (trace ++ [record]) after := by
  obtain ⟨distinct, marked, applied, reported, activity⟩ := kept
  have grown : settled (trace ++ [record]) = settled trace ++ record.action.batch.toList := by
    rw [settled, List.map_append, List.filterMap_append]
    cases batch : record.action.batch <;> simp [settled, batch]
  cases step with
  | nothing none marks same =>
    have unchanged : settled (trace ++ [record]) = settled trace := by simp [grown, none]
    refine ⟨?_, ?_, ?_, ?_, ?_⟩
    · rwa [batchIds, unchanged]
    · rw [marks, batchIds, unchanged]
      exact marked
    · rw [same.applied, marks, applied]
    · rw [same.reported, batchIds, unchanged]
      exact reported
    · rw [same.activity, lastSettled, unchanged]
      exact activity
  | batch batchId timestamp settles fresh marks applies moment reports =>
    have longer : settled (trace ++ [record]) = settled trace ++ [(batchId, timestamp)] := by simp [grown, settles]
    have ids : batchIds (trace ++ [record]) = batchIds trace ++ [batchId] := by simp [batchIds, longer]
    have unused : batchId ∉ batchIds trace := by simp [← marked, fresh]
    refine ⟨?_, fun other => ?_, ?_, ?_, ?_⟩
    · rw [ids]
      exact List.nodup_append_comm.mp (List.nodup_cons.mpr ⟨unused, distinct⟩)
    · rw [marks, ids, List.mem_append, List.mem_singleton, ← marked other]
      by_cases same : other = batchId
      · subst same
        simp
      · simp [same]
    · rw [applies, marks, applied]
    · rw [reports, reported, ids]
    · rw [moment, lastSettled, longer]
      simp

theorem kept_run {token admin deployer : Address} {threshold now : Uint256} {usdc : σ}
    (custody : Custody.deploy token admin threshold now usdc = .ok start.custody)
    (exchange : start.exchange = deploy deployer) (run : Run (Recorded env) start trace state)
    (sole : ∀ record ∈ trace, SoleSettler env record.world) : BatchesKept now trace state := by
  obtain ⟨-, active, unapplied⟩ := Custody.deploy_within custody
  obtain ⟨-, silent, -⟩ := Custody.deploy_ok custody
  refine run.invariant (fun trace state => (∀ record ∈ trace, SoleSettler env record.world) → BatchesKept now trace state)
    (fun _ => ?_) ?_ sole
  · refine ⟨List.nodup_nil, fun batchId => ?_, ?_, ?_, active⟩
    · simp [exchange, deploy, batchIds, settled]
    · rw [unapplied, exchange]
      rfl
    · rw [silent]
      rfl
  · intro trace world record after _ before moved sole
    have kept := before fun earlier member => sole earlier (List.mem_append_left _ member)
    have here := sole record (List.mem_append_right _ (List.mem_singleton.mpr rfl))
    rw [moved.1] at here
    exact kept.next (moved.settles here)

private theorem settleCtf_errors {entries : List Entry} {ctf : κ} {errors : Error → Prop}
    (panics : ∀ code, errors (.panic code))
    (unbalanced : ∀ position net, errors (.ctfNotConserved position net)) (refused : errors .ctfTransferFailed) :
    Raises errors (settleCtf env entries ctf) := by
  have moves (ctf : κ) (move : Option Transfer) : Raises errors (transferShares env ctf move) := by
    cases move with
    | none => exact raises_pure _
    | some move => exact raises_orRevert refused
  refine raises_bind (raises_each fun nets entry => ?_) fun nets => ?_
  · unfold accrueShares
    split
    next => exact raises_pure _
    next =>
      split
      next => exact accrueCell_raises (panics _) (.inr (panics _))
      next => exact raises_bind (raises_orRevert (panics _)) fun _ => accrueCell_raises (panics _) (.inr (panics _))
  · refine raises_bind (raises_each fun _ _ => raises_revertIf (unbalanced _ _)) fun _ => ?_
    exact raises_bind (raises_each fun _ _ => moves _ _) fun _ => raises_each fun _ _ => moves _ _

private theorem settleBatch_unapplied {batchId : Bytes32} {orders : List SignedOrder} {fills : List Uint256}
    {isMaker : List Bool}
    (agree : world.custody.appliedBatches = world.exchange.settledBatches) :
    Raises (fun error => ∀ id, error ≠ .custody (.batchAlreadyApplied id))
      (settleBatch env msg batchId orders fills isMaker world) := by
  have loop : ∀ error : Error, error.inLoop → ∀ id, error ≠ .custody (.batchAlreadyApplied id) := by
    intro _ inside id same
    subst same
    exact inside
  refine raises_bind (raises_revertIf nofun) fun _ => raises_bind (raises_revertIf nofun) fun _ => ?_
  refine raises_bind_ok (raises_revertIf nofun) fun _ fresh => raises_bind (raises_revertIf nofun) fun _ => ?_
  refine raises_bind (raises_each fun _ _ => settleEntry_raises loop (.inr nofun)) fun acc => ?_
  refine raises_bind (raises_revertIf nofun) fun _ => raises_bind ?_ fun deltas => raises_bind ?_ fun custody =>
    raises_bind (settleCtf_errors (fun _ => nofun) (fun _ _ => nofun) nofun) fun _ => raises_pure _
  · unfold balancingDelta
    split
    next => exact raises_pure _
    next => exact raises_error nofun
  · have unapplied : world.custody.appliedBatches batchId = false := by
      rw [agree]
      simpa using fresh
    exact raises_mapError_of (Custody.applyNetDeltas_raises unapplied) fun error other id same =>
      other id (Error.custody.inj same)

/-- The batches of both contracts agree: over every run from deployment in which nobody
but the exchange may settle. -/
theorem batches_agree {token admin deployer : Address} {threshold now : Uint256} {usdc : σ}
    (custody : Custody.deploy token admin threshold now usdc = .ok start.custody)
    (exchange : start.exchange = deploy deployer) (run : Run (Recorded env) start trace state)
    (sole : ∀ record ∈ trace, SoleSettler env record.world) :
    (batchIds trace).Nodup ∧
    (∀ batchId, state.exchange.settledBatches batchId = true ↔ batchId ∈ batchIds trace) ∧
    state.custody.appliedBatches = state.exchange.settledBatches ∧
    batchesOf state.custody.events = batchIds trace ∧
    ∀ msg batchId orders fills isMaker id,
      settleBatch env msg batchId orders fills isMaker state ≠ .error (.custody (.batchAlreadyApplied id)) := by
  have kept := kept_run custody exchange run sole
  refine ⟨kept.distinct, kept.marked, kept.applied, kept.reported, ?_⟩
  intro msg batchId orders fills isMaker id refused
  exact settleBatch_unapplied kept.applied _ refused id rfl

/-- The hypotheses meet: a day with one batch. -/
theorem batches_agree_sample : ∃ trace state, Run (Recorded Sample.market) Sample.opened trace state ∧
    trace.map Record.action = Sample.day ∧ batchesOf state.custody.events = [1] ∧
    state.exchange.settledBatches 1 = true := by
  obtain ⟨final, traded, -⟩ := returns_iff.mp (show returns
    (each (perform Sample.market) Sample.opened Sample.day) (fun _ => true) = true by decide +kernel)
  obtain ⟨trace, recorded, named, sole, -⟩ := Recorded.of_run Sample.Settlers (Sample.performed traded (by decide))
    Sample.settlers_kept (fun account granted => by simp [Sample.opened, Custody.Sample.start] at granted)
  have deployed : Custody.deploy 3 1 86400 1000 Sample.opened.custody.usdc = .ok Sample.opened.custody := rfl
  obtain ⟨-, marked, -, reported, -⟩ := batches_agree deployed rfl recorded sole
  have one : batchIds trace = [1] := by
    rw [batchIds, settled, named]
    rfl
  refine ⟨trace, final, recorded, named, reported.trans one, (marked 1).mpr ?_⟩
  rw [one]
  exact List.mem_singleton.mpr rfl

theorem Recorded.bounded (moved : Recorded env world record after) (bounded : Bounded world.custody) :
    Bounded after.custody := by
  obtain ⟨recordWorld, action⟩ := record
  obtain ⟨rfl, moved⟩ := moved
  cases moved with
  | custody external ran => exact Custody.exec_bounded ran bounded
  | usdc => exact bounded
  | ctf => exact bounded
  | @exchange msg call _ external ran =>
    by_cases kind : call.storageOnly = true
    · obtain ⟨custody, -, -⟩ := storageOnly_ok kind ran
      rwa [custody]
    · cases call with
      | settleBatch batchId orders fills isMaker =>
        obtain ⟨deltas, applied⟩ := settleBatch_custody ran
        exact Custody.exec_bounded applied bounded
      | withdrawFees amount recipient deadline sig =>
        obtain ⟨-, custody, withdrawn, paid, -, -⟩ := withdrawFees_ok ran
        have still : Bounded custody := Custody.exec_bounded withdrawn bounded
        rw [paid]
        exact still
      | _ => exact absurd rfl kind

/-- The exchange calls `applyNetDeltas` only, and nobody else may give a sign of life. -/
theorem Recorded.silent (moved : Recorded env world record after) (sole : SoleSettler env world) (msg : Message) :
    record.action ≠ .custody msg .heartbeat := by
  obtain ⟨recordWorld, action⟩ := record
  obtain ⟨rfl, moved⟩ := moved
  intro same
  subst same
  cases moved with
  | custody external ran => exact external (sole _ (Custody.settles_trusted rfl ran))

private theorem silent_run (run : Run (Recorded env) start trace state)
    (sole : ∀ record ∈ trace, SoleSettler env record.world) :
    ∀ record ∈ trace, ∀ msg, record.action ≠ .custody msg .heartbeat := by
  refine run.invariant (fun trace _ => (∀ record ∈ trace, SoleSettler env record.world) →
    ∀ record ∈ trace, ∀ msg, record.action ≠ .custody msg .heartbeat) (fun _ => by simp) ?_ sole
  intro trace world record after _ before moved sole each member
  rcases List.mem_append.mp member with earlier | last
  · exact before (fun record earlier => sole record (List.mem_append_left _ earlier)) each earlier
  · have here := sole record (List.mem_append_right _ (List.mem_singleton.mpr rfl))
    rw [moved.1] at here
    rw [List.mem_singleton.mp last]
    exact moved.silent here

/-- The escape hatch opens, to whoever has a balance, exactly when no batch has been
settled for longer than the threshold, itself 1 to 90 days; no heartbeat keeps it shut. -/
theorem escape_follows_settlement {token admin deployer : Address} {threshold now : Uint256} {usdc : σ}
    (custody : Custody.deploy token admin threshold now usdc = .ok start.custody)
    (exchange : start.exchange = deploy deployer) (run : Run (Recorded env) start trace state)
    (sole : ∀ record ∈ trace, SoleSettler env record.world) :
    (∀ record ∈ trace, ∀ msg, record.action ≠ .custody msg .heartbeat) ∧
    86400 ≤ state.custody.operatorInactivityThreshold.toNat ∧
    state.custody.operatorInactivityThreshold.toNat ≤ 90 * 86400 ∧
    ∀ msg recipient,
      (∃ after, Custody.exec env.custody msg (.executeForcedWithdrawal recipient) state.custody = .ok after) ↔
        recipient ≠ 0 ∧ state.custody.balances msg.sender ≠ 0 ∧
        (lastSettled now trace).toNat + state.custody.operatorInactivityThreshold.toNat < msg.timestamp.toNat ∧
        (env.custody.usdc.safeTransfer state.custody.usdc env.custody.self recipient
          (state.custody.balances msg.sender)).isSome := by
  have kept := kept_run custody exchange run sole
  have bounded : Bounded state.custody := run.keeps (fun world => Bounded world.custody)
    (fun _ _ _ moved => moved.bounded) (Custody.deploy_within custody).1
  refine ⟨silent_run run sole, bounded.1, bounded.2, fun msg recipient => ?_⟩
  rw [← kept.activity]
  constructor
  · intro holds
    obtain ⟨after, ran⟩ := holds
    obtain ⟨named, late, positive, paid, transferred, -⟩ := Custody.executeForcedWithdrawal_ok ran
    exact ⟨named, positive, late, by rw [transferred]; rfl⟩
  · intro holds
    obtain ⟨named, positive, late, pays⟩ := holds
    obtain ⟨paid, transferred⟩ := Option.isSome_iff_exists.mp pays
    exact ⟨_, Custody.executeForcedWithdrawal_succeeds named late positive transferred⟩

/-- The hypotheses meet: a day and a second after the only batch, account 6 gets its proceeds out. -/
theorem escape_follows_settlement_sample : ∃ trace state, Run (Recorded Sample.market) Sample.opened trace state ∧
    trace.map Record.action = Sample.day ∧ ∃ after, Custody.exec Sample.market.custody ⟨6, 88402⟩
      (.executeForcedWithdrawal 8) state.custody = .ok after := by
  obtain ⟨final, traded, checked⟩ := returns_iff.mp (show returns
    (each (perform Sample.market) Sample.opened Sample.day) (fun world =>
      world.custody.operatorInactivityThreshold = 86400 ∧ world.custody.balances 6 ≠ 0 ∧
      (Sample.market.custody.usdc.safeTransfer world.custody.usdc Sample.market.custody.self 8
        (world.custody.balances 6)).isSome) = true by decide +kernel)
  obtain ⟨within, positive, pays⟩ := of_decide_eq_true checked
  obtain ⟨trace, recorded, named, sole, -⟩ := Recorded.of_run Sample.Settlers (Sample.performed traded (by decide))
    Sample.settlers_kept (fun account granted => by simp [Sample.opened, Custody.Sample.start] at granted)
  have deployed : Custody.deploy 3 1 86400 1000 Sample.opened.custody.usdc = .ok Sample.opened.custody := rfl
  have last : lastSettled 1000 trace = 2001 := by
    rw [lastSettled, settled, named]
    rfl
  refine ⟨trace, final, recorded, named, ?_⟩
  refine ((escape_follows_settlement deployed rfl recorded sole).2.2.2 ⟨6, 88402⟩ 8).mpr ⟨by decide, positive, ?_, pays⟩
  rw [last, within]
  decide

end SettlementExchange

end Omniscient

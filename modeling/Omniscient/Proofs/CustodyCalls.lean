import Omniscient.Custody

/-! What a successful Custody call implies and does. Each call is inverted once;
no later proof unfolds a function of the contract. -/

namespace Omniscient.Custody
open Outcome

variable {σ : Type} {env : Env σ} {msg : Message} {state after : State σ}

@[simp] theorem emit_usdc (event : Event) : (state.emit event).usdc = state.usdc := rfl
@[simp] theorem emit_balances (event : Event) : (state.emit event).balances = state.balances := rfl
@[simp] theorem emit_events (event : Event) : (state.emit event).events = state.events ++ [event] := rfl

@[simp] theorem setBalance_usdc (account : Address) (balance : Uint256) :
    (state.setBalance account balance).usdc = state.usdc := rfl
@[simp] theorem setBalance_balances (account : Address) (balance : Uint256) :
    (state.setBalance account balance).balances = Function.update state.balances account balance := rfl
@[simp] theorem setBalance_events (account : Address) (balance : Uint256) :
    (state.setBalance account balance).events = state.events := rfl

theorem deploy_ok {token admin : Address} {threshold now : Uint256} {usdc : σ}
    (ran : deploy token admin threshold now usdc = .ok state) :
    state.usdc = usdc ∧ state.events = [] ∧ state.balances = fun _ => 0 := by
  simp only [deploy, bind_ok, pure_ok] at ran
  obtain ⟨-, -, -, -, rfl⟩ := ran
  exact ⟨rfl, rfl, rfl⟩

/-- A deposit credits the caller with the measured change of the vault's USDC. -/
theorem deposit_ok {amount : Uint256} (ran : deposit env msg amount state = .ok after) :
    state.paused = false ∧ amount ≠ 0 ∧ ∃ usdc received newBalance,
      env.usdc.safeTransferFrom state.usdc env.self msg.sender env.self amount = some usdc ∧
      received.toNat + (env.usdc.balanceOf state.usdc env.self).toNat = (env.usdc.balanceOf usdc env.self).toNat ∧
      received ≠ 0 ∧ newBalance.toNat = (state.balances msg.sender).toNat + received.toNat ∧
      after = ({ state with usdc }.setBalance msg.sender newBalance).emit
        (.deposited msg.sender received newBalance) := by
  simp only [deposit, whenNotPaused, bind_ok, revertIf_ok, orRevert_ok, pure_ok, Word.sub_some, Word.add_some,
    Bool.not_eq_true] at ran
  obtain ⟨-, unpaused, -, positive, usdc, moved, received, measured, -, some, newBalance, credited, rfl⟩ := ran
  exact ⟨unpaused, positive, usdc, received, newBalance, moved, measured, some, credited, rfl⟩

theorem debitAndPay_ok {account recipient : Address} {amount : Uint256}
    (ran : debitAndPay env account recipient amount state = .ok after) :
    ∃ usdc rest, env.usdc.safeTransfer state.usdc env.self recipient amount = some usdc ∧
      rest.toNat + amount.toNat = (state.balances account).toNat ∧
      after = { state.setBalance account rest with usdc } := by
  simp only [debitAndPay, bind_ok, revertIf_ok, orRevert_ok, pure_ok, Word.sub_some] at ran
  obtain ⟨-, -, rest, debited, usdc, moved, rfl⟩ := ran
  exact ⟨usdc, rest, moved, debited, rfl⟩

theorem withdraw_ok {amount deadline : Uint256} {operatorSig : Bytes}
    (ran : withdraw env msg amount deadline operatorSig state = .ok after) :
    state.paused = false ∧ amount ≠ 0 ∧ msg.timestamp ≤ deadline ∧ ∃ signer next usdc rest,
      env.crypto.recover
        (withdrawalDigest env msg.sender amount (state.withdrawalNonce msg.sender) deadline) operatorSig = some signer ∧
      state.hasRole .withdrawalSigner signer = true ∧
      next.toNat = (state.withdrawalNonce msg.sender).toNat + 1 ∧
      env.usdc.safeTransfer state.usdc env.self msg.sender amount = some usdc ∧
      rest.toNat + amount.toNat = (state.balances msg.sender).toNat ∧
      after = { state.setBalance msg.sender rest with
        usdc, withdrawalNonce := Function.update state.withdrawalNonce msg.sender next }.emit
          (.withdrawn msg.sender amount rest) := by
  simp only [withdraw, whenNotPaused, bind_ok, revertIf_ok, orRevert_ok, pure_ok, Word.add_some,
    Bool.not_eq_true, Bool.not_eq_false, gt_iff_lt, BitVec.not_lt] at ran
  obtain ⟨-, unpaused, -, positive, -, inTime, signer, recovered, -, trusted, next, counted, paid, payment, rfl⟩ := ran
  obtain ⟨usdc, rest, moved, debited, rfl⟩ := debitAndPay_ok payment
  refine ⟨unpaused, positive, inTime, signer, next, usdc, rest, recovered, trusted, counted, moved, debited, ?_⟩
  simp [State.setBalance]

theorem executeForcedWithdrawal_ok {recipient : Address}
    (ran : executeForcedWithdrawal env msg recipient state = .ok after) :
    recipient ≠ 0 ∧
      state.lastOperatorActivity.toNat + state.operatorInactivityThreshold.toNat < msg.timestamp.toNat ∧
      state.balances msg.sender ≠ 0 ∧ ∃ usdc,
        env.usdc.safeTransfer state.usdc env.self recipient (state.balances msg.sender) = some usdc ∧
        after = { state.setBalance msg.sender 0 with usdc }.emit
          (.forcedWithdrawalExecuted msg.sender recipient (state.balances msg.sender)) := by
  simp only [executeForcedWithdrawal, operatorAbsent, bind_ok, revertIf_ok, orRevert_ok, pure_ok,
    Word.sub_some] at ran
  obtain ⟨-, named, absent, ⟨silence, elapsed, rfl⟩, -, open_, -, positive, paid, payment, rfl⟩ := ran
  obtain ⟨usdc, rest, moved, debited, rfl⟩ := debitAndPay_ok payment
  have emptied : rest = 0 := BitVec.eq_of_toNat_eq (by simpa using debited)
  subst emptied
  refine ⟨named, ?_, positive, usdc, moved, rfl⟩
  have passed : state.operatorInactivityThreshold.toNat < silence.toNat := by simpa [BitVec.lt_def] using open_
  omega

theorem sumDeltas_ok {deltas : List BalanceDelta} {net : Int256} (ran : sumDeltas deltas = .ok net) :
    net.toInt = Postings.sum deltas := by
  have summed := each_sum BitVec.toInt (fun delta : BalanceDelta => delta.amount.toInt) ran
    fun _ _ _ _ once => Word.addSigned_some.mp (orRevert_ok.mp once)
  simpa [Postings.sum] using summed

theorem applyDelta_ok {delta : BalanceDelta} (ran : applyDelta state delta = .ok after) :
    (∀ account, ((after.balances account).toNat : Int) =
      (state.balances account).toNat + if delta.account = account then delta.amount.toInt else 0) ∧
    after = { state with balances := after.balances } := by
  have written (value : Uint256)
      (exact : (value.toNat : Int) = (state.balances delta.account).toNat + delta.amount.toInt) (account : Address) :
      (((state.setBalance delta.account value).balances account).toNat : Int) =
        (state.balances account).toNat + if delta.account = account then delta.amount.toInt else 0 := by
    by_cases same : delta.account = account
    · subst same
      simpa using exact
    · simp [same, Function.update_of_ne (Ne.symm same)]
  simp only [applyDelta] at ran
  split at ran
  next zero =>
    cases ran
    simp [zero]
  next nonzero =>
    split at ran
    next positive =>
      simp only [bind_ok, orRevert_ok, pure_ok, Word.add_some] at ran
      obtain ⟨credited, sum, rfl⟩ := ran
      refine ⟨written credited ?_, rfl⟩
      have reading := BitVec.toInt_eq_toNat_cond delta.amount
      split at reading <;> omega
    next negative =>
      simp only [bind_ok, revertIf_ok, orRevert_ok, pure_ok, Word.negSigned_some, Word.sub_some] at ran
      obtain ⟨debit, opposite, -, -, rest, difference, rfl⟩ := ran
      refine ⟨written rest ?_, rfl⟩
      have reading := BitVec.toInt_eq_toNat_cond debit
      split at reading <;> omega

private theorem applyDeltas_ok {deltas : List BalanceDelta} (ran : each applyDelta state deltas = .ok after) :
    (∀ account, ((after.balances account).toNat : Int) =
      (state.balances account).toNat + Postings.net deltas account) ∧
    after = { state with balances := after.balances } := by
  constructor
  · intro account
    exact each_sum (fun current : State σ => ((current.balances account).toNat : Int))
      (fun delta : BalanceDelta => if delta.account = account then delta.amount.toInt else 0) ran
      fun _ _ _ _ once => (applyDelta_ok once).1 account
  · refine each_keeps (fun current => current = { state with balances := current.balances }) ran
      (fun current delta next _ once same => ?_) rfl
    rw [(applyDelta_ok once).2, same]

/-- A settled list of deltas sums to zero and moves every balance by the exact
net amount of its account. -/
theorem applyNetDeltas_ok {batchId : Bytes32} {deltas : List BalanceDelta}
    (ran : applyNetDeltas msg batchId deltas state = .ok after) :
    state.paused = false ∧ state.hasRole .settlement msg.sender = true ∧ state.appliedBatches batchId = false ∧
      Postings.sum deltas = 0 ∧
      (∀ account, ((after.balances account).toNat : Int) =
        (state.balances account).toNat + Postings.net deltas account) ∧
      after = { state with
        balances := after.balances
        lastOperatorActivity := msg.timestamp
        appliedBatches := Function.update state.appliedBatches batchId true
        events := state.events ++
          [.operatorHeartbeat msg.timestamp, .netDeltasApplied batchId (BitVec.ofNat 256 deltas.length)] } := by
  simp only [applyNetDeltas, whenNotPaused, onlyRole, bind_ok, revertIf_ok, pure_ok, Bool.not_eq_true,
    Bool.not_eq_false, ne_eq, Decidable.not_not] at ran
  obtain ⟨-, unpaused, -, trusted, -, fresh, net, summed, -, rfl, settled, applied, rfl⟩ := ran
  obtain ⟨moved, framed⟩ := applyDeltas_ok applied
  refine ⟨unpaused, trusted, fresh, (sumDeltas_ok summed).symm, moved, ?_⟩
  rw [framed]
  simp [recordOperatorActivity, State.emit]

private theorem applyDelta_returns {delta : BalanceDelta} (bounded : delta.amount.toInt.natAbs < 2 ^ 255)
    (solvent : 0 ≤ ((state.balances delta.account).toNat : Int) + delta.amount.toInt)
    (fits : ((state.balances delta.account).toNat : Int) + delta.amount.toInt < 2 ^ 256) :
    ∃ after, applyDelta state delta = .ok after := by
  have reading := BitVec.toInt_eq_toNat_cond delta.amount
  simp only [applyDelta]
  split
  next => exact ⟨state, rfl⟩
  next nonzero =>
    split
    next positive =>
      obtain ⟨credited, sum⟩ := @Word.add_fits _ (state.balances delta.account) delta.amount (by
        split at reading <;> omega)
      exact ⟨_, bind_ok.mpr ⟨credited, orRevert_ok.mpr sum, rfl⟩⟩
    next negative =>
      obtain ⟨debit, opposite⟩ := Word.negSigned_fits bounded (by decide)
      have exact := Word.negSigned_some.mp opposite
      have size : (debit.toNat : Int) = -delta.amount.toInt := by
        have debitReading := BitVec.toInt_eq_toNat_cond debit
        split at debitReading <;> omega
      have covered : debit.toNat ≤ (state.balances delta.account).toNat := by omega
      obtain ⟨rest, difference⟩ := Word.sub_fits covered
      refine ⟨state.setBalance delta.account rest, ?_⟩
      simp only [bind_ok, orRevert_ok, revertIf_ok, pure_ok, BitVec.not_lt]
      exact ⟨debit, opposite, (), BitVec.le_def.mpr covered, rest, difference, rfl⟩

private theorem sumDeltas_returns {deltas : List BalanceDelta} {bound : Nat}
    (bounded : ∀ delta ∈ deltas, delta.amount.toInt.natAbs ≤ bound) (fits : deltas.length * bound < 2 ^ 255) :
    ∃ net, sumDeltas deltas = .ok net := by
  obtain ⟨net, ran, -⟩ := @each_returns Error BalanceDelta Int256
    (fun net delta => orRevert (.panic .arithmetic) (Word.addSigned net delta.amount)) deltas 0
    (fun rest net => (∀ delta ∈ rest, delta.amount.toInt.natAbs ≤ bound) ∧
      net.toInt.natAbs + rest.length * bound < 2 ^ 255) (by
    intro delta rest net holds
    obtain ⟨bounded, fits⟩ := holds
    have first := bounded delta List.mem_cons_self
    rw [List.length_cons, Nat.succ_mul] at fits
    obtain ⟨next, added⟩ := @Word.addSigned_fits _ net delta.amount (by omega) (by decide)
    have sum := Word.addSigned_some.mp added
    exact ⟨next, orRevert_ok.mpr added, fun other member => bounded other (List.mem_cons_of_mem _ member), by omega⟩)
    ⟨bounded, by simpa using fits⟩
  exact ⟨net, ran⟩

structure Bearable (state : State σ) (deltas : List BalanceDelta) (bound : Nat) : Prop where
  accounts : (deltas.map Posting.account).Nodup
  amounts : ∀ delta ∈ deltas, delta.amount.toInt.natAbs ≤ bound
  solvent : ∀ delta ∈ deltas, 0 ≤ ((state.balances delta.account).toNat : Int) + delta.amount.toInt
  fits : ∀ delta ∈ deltas, ((state.balances delta.account).toNat : Int) + delta.amount.toInt < 2 ^ 256

private theorem applyDelta_bearable {delta : BalanceDelta} {deltas : List BalanceDelta} {bound : Nat}
    (small : bound < 2 ^ 255)
    (bearable : Bearable state (delta :: deltas) bound) :
    ∃ after, applyDelta state delta = .ok after ∧ Bearable after deltas bound := by
  obtain ⟨accounts, amounts, solvent, fits⟩ := bearable
  obtain ⟨fresh, rest⟩ := List.nodup_cons.mp accounts
  obtain ⟨after, ran⟩ := applyDelta_returns ((amounts delta List.mem_cons_self).trans_lt small)
    (solvent delta List.mem_cons_self) (fits delta List.mem_cons_self)
  have kept {other : BalanceDelta} (member : other ∈ deltas) :
      ((after.balances other.account).toNat : Int) = (state.balances other.account).toNat := by
    have different : delta.account ≠ other.account := fun same => fresh (same ▸ List.mem_map_of_mem member)
    rw [(applyDelta_ok ran).1, if_neg different, add_zero]
  exact ⟨after, ran, rest, fun other member => amounts other (List.mem_cons_of_mem _ member),
    fun other member => kept member ▸ solvent other (List.mem_cons_of_mem _ member),
    fun other member => kept member ▸ fits other (List.mem_cons_of_mem _ member)⟩

/-- Net deltas go through when they have a sum, it is zero, and every account can bear its own. -/
theorem applyNetDeltas_bears {batchId : Bytes32} {deltas : List BalanceDelta} {bound : Nat} {net : Int256}
    (unpaused : state.paused = false) (trusted : state.hasRole .settlement msg.sender = true)
    (fresh : state.appliedBatches batchId = false) (small : bound < 2 ^ 255) (summed : sumDeltas deltas = .ok net)
    (conserved : Postings.sum deltas = 0) (bearable : Bearable state deltas bound) :
    ∃ after, applyNetDeltas msg batchId deltas state = .ok after := by
  have zero : net = 0 := BitVec.toInt_inj.mp ((sumDeltas_ok summed).trans conserved)
  obtain ⟨accounts, amounts, solvent, fits⟩ := bearable
  obtain ⟨after, applied, -⟩ := @each_returns _ _ _ applyDelta deltas
    (recordOperatorActivity msg { state with appliedBatches := Function.update state.appliedBatches batchId true })
    (fun rest current => Bearable current rest bound) (fun _ _ _ => applyDelta_bearable small)
    ⟨accounts, amounts, solvent, fits⟩
  refine ⟨after.emit (.netDeltasApplied batchId (BitVec.ofNat 256 deltas.length)), ?_⟩
  simp only [applyNetDeltas, whenNotPaused, onlyRole, bind_ok, revertIf_ok, pure_ok, Bool.not_eq_true,
    Bool.not_eq_false, ne_eq, Decidable.not_not]
  exact ⟨(), unpaused, (), trusted, (), fresh, net, summed, (), zero, after, applied, rfl⟩

theorem applyNetDeltas_returns {batchId : Bytes32} {deltas : List BalanceDelta} {bound : Nat}
    (unpaused : state.paused = false) (trusted : state.hasRole .settlement msg.sender = true)
    (fresh : state.appliedBatches batchId = false) (small : bound < 2 ^ 255) (count : deltas.length * bound < 2 ^ 255)
    (conserved : Postings.sum deltas = 0) (bearable : Bearable state deltas bound) :
    ∃ after, applyNetDeltas msg batchId deltas state = .ok after := by
  obtain ⟨net, summed⟩ := sumDeltas_returns bearable.amounts count
  exact applyNetDeltas_bears unpaused trusted fresh small summed conserved bearable

theorem heartbeat_ok (ran : heartbeat msg state = .ok after) :
    state.paused = false ∧ state.hasRole .settlement msg.sender = true ∧
      after = recordOperatorActivity msg state := by
  simp only [heartbeat, whenNotPaused, onlyRole, bind_ok, revertIf_ok, pure_ok, Bool.not_eq_true,
    Bool.not_eq_false] at ran
  obtain ⟨-, unpaused, -, trusted, rfl⟩ := ran
  exact ⟨unpaused, trusted, rfl⟩

/-- What an event says entered (or left) an account from outside the vault. -/
def Event.credit (account : Address) : Event → Int
  | .deposited owner amount _ => if owner = account then amount.toNat else 0
  | .withdrawn owner amount _ => if owner = account then -amount.toNat else 0
  | .forcedWithdrawalExecuted owner _ amount => if owner = account then -amount.toNat else 0
  | _ => 0

/-- Measured deposits less withdrawals and forced withdrawals, by the events. -/
def flow (events : List Event) (account : Address) : Int := (events.map (Event.credit account)).sum

@[simp] theorem flow_nil (account : Address) : flow [] account = 0 := rfl

@[simp] theorem flow_append (events news : List Event) (account : Address) :
    flow (events ++ news) account = flow events account + flow news account := by
  simp [flow]

@[simp] theorem flow_cons (event : Event) (events : List Event) (account : Address) :
    flow (event :: events) account = event.credit account + flow events account := by
  simp [flow]

/-- The signed amounts a call books between accounts inside the vault. -/
def Call.deltas : Call → List BalanceDelta
  | .applyNetDeltas _ deltas => deltas
  | _ => []

def Call.administrative : Call → Bool
  | .deposit .. | .withdraw .. | .executeForcedWithdrawal .. | .applyNetDeltas .. => false
  | _ => true

def Event.notice : Event → Bool
  | .operatorHeartbeat _ | .operatorInactivityThresholdUpdated _ => true
  | _ => false

private theorem flow_notices {news : List Event} (notices : ∀ event ∈ news, event.notice = true) (account : Address) :
    flow news account = 0 := by
  apply List.sum_eq_zero
  intro credit member
  obtain ⟨event, listed, rfl⟩ := List.mem_map.mp member
  have notice := notices event listed
  cases event <;> first | rfl | cases notice

/-- An administrative call writes the switches, the roles and the clock, and may leave a notice. -/
theorem administrative_frame {call : Call} (kind : call.administrative = true)
    (ran : exec env msg call state = .ok after) :
    after = { state with
      events := after.events
      paused := after.paused
      hasRole := after.hasRole
      lastOperatorActivity := after.lastOperatorActivity
      operatorInactivityThreshold := after.operatorInactivityThreshold } ∧
      ∃ news, after.events = state.events ++ news ∧ ∀ event ∈ news, event.notice = true := by
  have quiet : state.events = state.events ++ [] ∧ ∀ event ∈ ([] : List Event), event.notice = true := by simp
  cases call with
  | deposit | withdraw | executeForcedWithdrawal | applyNetDeltas => cases kind
  | heartbeat =>
    obtain ⟨-, -, rfl⟩ := heartbeat_ok ran
    exact ⟨rfl, [.operatorHeartbeat msg.timestamp], rfl, by simp [Event.notice]⟩
  | pause =>
    simp only [exec, pause, bind_ok, pure_ok] at ran
    obtain ⟨-, -, -, -, rfl⟩ := ran
    exact ⟨rfl, [], quiet⟩
  | unpause =>
    simp only [exec, unpause, bind_ok, pure_ok] at ran
    obtain ⟨-, -, -, -, rfl⟩ := ran
    exact ⟨rfl, [], quiet⟩
  | setOperatorInactivityThreshold newThreshold =>
    simp only [exec, setOperatorInactivityThreshold, bind_ok, pure_ok] at ran
    obtain ⟨-, -, -, -, rfl⟩ := ran
    exact ⟨rfl, [.operatorInactivityThresholdUpdated newThreshold], rfl, by simp [Event.notice]⟩
  | grantRole role account =>
    simp only [exec, grantRole, bind_ok, pure_ok] at ran
    obtain ⟨-, -, rfl⟩ := ran
    exact ⟨rfl, [], quiet⟩
  | revokeRole role account =>
    simp only [exec, revokeRole, bind_ok, pure_ok] at ran
    obtain ⟨-, -, rfl⟩ := ran
    exact ⟨rfl, [], quiet⟩
  | renounceRole role callerConfirmation =>
    simp only [exec, renounceRole, bind_ok, pure_ok] at ran
    obtain ⟨-, -, rfl⟩ := ran
    exact ⟨rfl, [], quiet⟩

theorem administrative_events {call : Call} (kind : call.administrative = true)
    (ran : exec env msg call state = .ok after) :
    after.usdc = state.usdc ∧ after.balances = state.balances ∧
      ∃ news, after.events = state.events ++ news ∧ ∀ event ∈ news, event.notice = true := by
  obtain ⟨frame, told⟩ := administrative_frame kind ran
  have usdc := congrArg State.usdc frame
  have balances := congrArg State.balances frame
  exact ⟨usdc, balances, told⟩

theorem administrative_ok {call : Call} (kind : call.administrative = true)
    (ran : exec env msg call state = .ok after) :
    after.usdc = state.usdc ∧ after.balances = state.balances ∧
      ∀ account, flow after.events account = flow state.events account := by
  obtain ⟨usdc, balances, news, events, notices⟩ := administrative_events kind ran
  refine ⟨usdc, balances, fun account => ?_⟩
  rw [events, flow_append, flow_notices notices, add_zero]

theorem exec_flow_other {call : Call} (ran : exec env msg call state = .ok after) {account : Address}
    (other : msg.sender ≠ account) : flow after.events account = flow state.events account := by
  by_cases kind : call.administrative = true
  · exact (administrative_ok kind ran).2.2 account
  · cases call with
    | deposit amount =>
      obtain ⟨-, -, usdc, received, newBalance, -, -, -, -, rfl⟩ := deposit_ok ran
      simp [Event.credit, other]
    | withdraw amount deadline operatorSig =>
      obtain ⟨-, -, -, signer, next, usdc, rest, -, -, -, -, -, rfl⟩ := withdraw_ok ran
      simp [Event.credit, other]
    | executeForcedWithdrawal recipient =>
      obtain ⟨-, -, -, usdc, -, rfl⟩ := executeForcedWithdrawal_ok ran
      simp [Event.credit, other]
    | applyNetDeltas batchId deltas =>
      obtain ⟨-, -, -, -, -, framed⟩ := applyNetDeltas_ok ran
      rw [framed]
      simp [Event.credit]
    | _ => simp [Call.administrative] at kind

private theorem updated (balances : Address → Uint256) (owner account : Address) (value : Uint256) (amount : Int)
    (exact : (value.toNat : Int) = (balances owner).toNat + amount) :
    ((Function.update balances owner value account).toNat : Int) =
      (balances account).toNat + if owner = account then amount else 0 := by
  by_cases same : owner = account
  · subst same
    simpa using exact
  · simp [same, Function.update_of_ne (Ne.symm same)]

/-- Ledger law of a call: every balance moves by what the call's events report
and by what its deltas book, exactly. -/
theorem exec_ledger {call : Call} (ran : exec env msg call state = .ok after) (account : Address) :
    ((after.balances account).toNat : Int) - flow after.events account =
      (state.balances account).toNat - flow state.events account + Postings.net call.deltas account := by
  by_cases kind : call.administrative = true
  · obtain ⟨-, balances, events⟩ := administrative_ok kind ran
    have none : call.deltas = [] := by cases call <;> first | rfl | cases kind
    rw [balances, events, none, Postings.net_nil, add_zero]
  · cases call with
    | deposit amount =>
      obtain ⟨-, -, usdc, received, newBalance, -, -, -, credited, rfl⟩ := deposit_ok ran
      have moved := updated state.balances msg.sender account newBalance received.toNat (by omega)
      simp only [emit_balances, setBalance_balances, emit_events, setBalance_events, flow_append, flow_cons, flow_nil,
        Event.credit, Call.deltas, Postings.net_nil, moved]
      omega
    | withdraw amount deadline operatorSig =>
      obtain ⟨-, -, -, signer, next, usdc, rest, -, -, -, -, debited, rfl⟩ := withdraw_ok ran
      have moved := updated state.balances msg.sender account rest (-amount.toNat) (by omega)
      simp only [emit_balances, setBalance_balances, emit_events, setBalance_events, flow_append, flow_cons, flow_nil,
        Event.credit, Call.deltas, Postings.net_nil, moved]
      omega
    | executeForcedWithdrawal recipient =>
      obtain ⟨-, -, -, usdc, -, rfl⟩ := executeForcedWithdrawal_ok ran
      have moved := updated state.balances msg.sender account 0 (-(state.balances msg.sender).toNat) (by simp)
      simp only [emit_balances, setBalance_balances, emit_events, setBalance_events, flow_append, flow_cons, flow_nil,
        Event.credit, Call.deltas, Postings.net_nil, moved]
      omega
    | applyNetDeltas batchId deltas =>
      obtain ⟨-, -, -, -, moved, framed⟩ := applyNetDeltas_ok ran
      have events := congrArg State.events framed
      simp only at events
      rw [moved account, events]
      simp only [flow_append, flow_cons, flow_nil, Event.credit, Call.deltas]
      omega
    | _ => simp [Call.administrative] at kind

end Omniscient.Custody

import Omniscient.Proofs.ContractLogs
import Omniscient.Proofs.CustodySolvency
import Omniscient.Proofs.Deposits

/-! Whether the index follows the vault. Deposits and withdrawals come with the amount
that their handlers book; a settled batch comes with the number of its deltas only, and
no handler books it. -/

namespace Omniscient.Custody

variable {σ : Type} {env : Env σ} {msg : Message} {state after : State σ}

def Event.backed (balances : Address → Uint256) : Event → Prop
  | .withdrawn account _ _ => balances account ≠ 0
  | .forcedWithdrawalExecuted account _ _ => balances account ≠ 0
  | _ => True

private theorem exec_events {call : Call} (ran : exec env msg call state = .ok after) :
    ∃ news, after.events = state.events ++ news ∧ ∀ event ∈ news, event.backed state.balances := by
  by_cases kind : call.administrative = true
  · obtain ⟨-, -, news, events, notices⟩ := administrative_events kind ran
    refine ⟨news, events, fun event listed => ?_⟩
    have notice := notices event listed
    cases event <;> first | exact trivial | cases notice
  · cases call with
    | deposit amount =>
      obtain ⟨-, -, usdc, received, newBalance, -, -, -, -, rfl⟩ := deposit_ok ran
      exact ⟨[.deposited msg.sender received newBalance], rfl, by simp [Event.backed]⟩
    | withdraw amount deadline operatorSig =>
      obtain ⟨-, positive, -, signer, next, usdc, rest, -, -, -, -, debited, rfl⟩ := withdraw_ok ran
      refine ⟨[.withdrawn msg.sender amount rest], rfl, List.forall_mem_singleton.mpr fun empty => positive ?_⟩
      rw [empty] at debited
      exact BitVec.eq_of_toNat_eq (by simp at debited ⊢; omega)
    | executeForcedWithdrawal recipient =>
      obtain ⟨-, -, funded, usdc, -, rfl⟩ := executeForcedWithdrawal_ok ran
      exact ⟨[.forcedWithdrawalExecuted msg.sender recipient (state.balances msg.sender)], rfl,
        List.forall_mem_singleton.mpr funded⟩
    | applyNetDeltas batchId deltas =>
      obtain ⟨-, -, -, -, -, framed⟩ := applyNetDeltas_ok ran
      exact ⟨_, congrArg State.events framed, by simp [Event.backed]⟩
    | _ => simp [Call.administrative] at kind

def Flat : Option (Message × Call) → Prop
  | some (_, call) => ∀ account, Postings.net call.deltas account = 0
  | none => True

def StepTo (env : Env σ) (state : State σ) (record : Option (Message × Call) × State σ) (after : State σ) : Prop :=
  Step env state record.1 after ∧ record.2 = after

theorem StepTo.call {call : Call} (ran : exec env msg call state = .ok after) :
    StepTo env state (some (msg, call), after) after :=
  ⟨.call ran, rfl⟩

end Omniscient.Custody

namespace Omniscient.Indexer
open Outcome

def covered (columns : Columns) : Custody.Event → Prop
  | .withdrawn account _ _ => columns.available account ≠ none
  | .forcedWithdrawalExecuted account _ _ => columns.available account ≠ none
  | _ => True

def custodyChange : Custody.Event → Change
  | .deposited account amount _ => .moved account true amount.toNat
  | .withdrawn account amount _ => .moved account false amount.toNat
  | .forcedWithdrawalExecuted account _ amount => .moved account false amount.toNat
  | _ => .nothing

section
variable {outside : Surroundings} {log : Log} {topic : Bytes32} {db : Database}

theorem upsertBalance_returns {user : Address} {amount block : Nat} {update : Int → Int}
    (known : db.balances (usdc user) ≠ none ∨ db.users user ≠ none) :
    ∃ after, upsertBalance user amount block update db = .ok after := by
  unfold upsertBalance
  cases present : db.balances (usdc user) with
  | some row => exact ⟨_, rfl⟩
  | none =>
    have user := known.resolve_left (absurd present)
    simp only [if_neg user]
    exact ⟨_, rfl⟩

private theorem handleDeposited_returns (second : log.topics[1]? = some topic) (long : 32 ≤ log.data.length)
    (number : log.blockNumber < I64_END) : ∃ after, handleDeposited log db = .ok (true, after) := by
  have known : (insertUser (topicAddress topic) db).users (topicAddress topic) ≠ none := by simp [insertUser]
  obtain ⟨after, upserted⟩ := @upsertBalance_returns (insertUser (topicAddress topic) db) (topicAddress topic)
    (wordAt log.data 0) log.blockNumber (· + wordAt log.data 0) (.inr known)
  refine ⟨after, ?_⟩
  rw [handleDeposited, withTopic_reads second long]
  simp only [bind_ok, revertIf_ok, pure_ok, Nat.not_le]
  exact ⟨(), number, after, upserted, rfl⟩

private theorem handleWithdrawal_returns {size : Nat} (second : log.topics[1]? = some topic)
    (long : size ≤ log.data.length)
    (number : log.blockNumber < I64_END) (row : (Columns.of db).available (topicAddress topic) ≠ none) :
    ∃ after, handleWithdrawal size log db = .ok (true, after) := by
  have present : db.balances (usdc (topicAddress topic)) ≠ none := fun absent => row (by simp [Columns.of, absent])
  obtain ⟨after, upserted⟩ := @upsertBalance_returns db (topicAddress topic) (wordAt log.data 0) log.blockNumber
    (· - wordAt log.data 0) (.inl present)
  refine ⟨after, ?_⟩
  rw [handleWithdrawal, withTopic_reads second long]
  simp only [bind_ok, revertIf_ok, pure_ok, Nat.not_le]
  exact ⟨(), number, after, upserted, rfl⟩

theorem withdrawal_dispatch {size : Nat} {account : Address} {amount : Uint256} {indexed : List Bytes32} {rest : Bytes}
    {first : Bytes32} (topics : log.topics = first :: account.setWidth 256 :: indexed)
    (data : log.data = Abi.word amount.toNat ++ rest) (number : log.blockNumber < I64_END)
    (long : size ≤ log.data.length) (row : (Columns.of db).available account ≠ none) :
    ∃ flag after, handleWithdrawal size log db = .ok (flag, after) ∧
      Columns.of after = Change.apply (Columns.of db) (.moved account false amount.toNat) := by
  have second : log.topics[1]? = some (account.setWidth 256) := by rw [topics]; rfl
  obtain ⟨after, handled⟩ := handleWithdrawal_returns second long number (by rwa [topicAddress_indexed])
  refine ⟨true, after, handled, ?_⟩
  rw [handleWithdrawal_changes size log db true after handled, withArgument_reads second long, readBalance,
    topicAddress_indexed, data, wordAt_word amount.isLt]
  rfl

private theorem custody_dispatched (apart : Apart outside) {event : Custody.Event}
    (carries : Carries outside event.emission log)
    (rows : covered (Columns.of db) event) :
    Columns.of (dispatched outside db log) = Change.apply (Columns.of db) (custodyChange event) := by
  obtain ⟨topics, data, number⟩ := id carries
  have handled {handler : Handler} (listed : (event.emission.signature, handler) ∈ handlers outside)
      (done : ∃ flag after, handler log db = .ok (flag, after) ∧
        Columns.of after = Change.apply (Columns.of db) (custodyChange event)) :
      Columns.of (dispatched outside db log) = Change.apply (Columns.of db) (custodyChange event) := by
    obtain ⟨flag, after, once, changed⟩ := done
    rw [dispatched_ok ((carries.dispatch apart listed).trans once), changed]
  cases event with
  | deposited account amount newBalance =>
    have second : log.topics[1]? = some (account.setWidth 256) := by rw [topics]; rfl
    have long : 32 ≤ log.data.length := by rw [data]; simp [Custody.Event.emission]
    obtain ⟨after, once⟩ := @handleDeposited_returns _ _ db second long number
    refine @handled handleDeposited (by simp [handlers, Custody.Event.emission]) ⟨true, after, once, ?_⟩
    rw [handleDeposited_changes log db true after once, withArgument_reads second long, readBalance,
      topicAddress_indexed, data, Custody.Event.emission, wordAt_word amount.isLt]
    rfl
  | withdrawn account amount newBalance =>
    have long : 64 ≤ log.data.length := by rw [data]; simp [Custody.Event.emission]
    exact @handled handleWithdrawn (by simp [handlers, Custody.Event.emission])
      (withdrawal_dispatch topics data number long rows)
  | forcedWithdrawalExecuted account recipient amount =>
    have long : 32 ≤ log.data.length := by rw [data]; simp [Custody.Event.emission]
    exact @handled handleForcedWithdrawalExecuted (by simp [handlers, Custody.Event.emission])
      (withdrawal_dispatch topics (data.trans (List.append_nil _).symm) number long rows)
  | netDeltasApplied batchId accounts =>
    rw [dispatched_unknown]
    · rfl
    · rw [topics]
      exact apart.unhandled
  | operatorHeartbeat timestamp =>
    exact @handled handleOperatorHeartbeat (by simp [handlers, Custody.Event.emission]) ⟨_, db, rfl, rfl⟩
  | operatorInactivityThresholdUpdated newThreshold =>
    exact @handled handleOperatorInactivityThresholdUpdated (by simp [handlers, Custody.Event.emission]) ⟨_, db, rfl, rfl⟩

private theorem apply_row {columns : Columns} (change : Change) {account : Address}
    (row : columns.available account ≠ none) :
    (Change.apply columns change).available account ≠ none := by
  cases change with
  | moved other enters amount =>
    by_cases here : account = other
    · subst here
      simp [Change.apply]
    · simpa [Change.apply, Function.update_of_ne here] using row
  | _ => exact row

private theorem custodyChange_balance {columns : Columns} {event : Custody.Event} (rows : covered columns event)
    (account : Address) :
    (Change.apply columns (custodyChange event)).balance account = columns.balance account + event.credit account := by
  rw [Change.apply_balance]
  cases event with
  | deposited => simp [custodyChange, Change.amount, Change.misread, Custody.Event.credit]
  | withdrawn owner | forcedWithdrawalExecuted owner =>
    have present : ¬ (owner = account ∧ columns.available account = none) := by
      intro missing
      obtain ⟨rfl, absent⟩ := missing
      exact rows absent
    simp [custodyChange, Change.amount, Change.misread, Custody.Event.credit, present]
  | _ => simp [custodyChange, Change.amount, Change.misread, Custody.Event.credit]

private theorem custody_dispatchAll (apart : Apart outside) {events : List Custody.Event} {logs : List Log}
    (emitted : Emitted outside (events.map Custody.Event.emission) logs)
    (rows : ∀ event ∈ events, covered (Columns.of db) event) (account : Address) :
    (Columns.of (dispatchAll outside db logs)).balance account =
      (Columns.of db).balance account + Custody.flow events account := by
  generalize whole : events.map Custody.Event.emission = emissions at emitted
  induction emitted generalizing events db with
  | nothing =>
    obtain rfl := List.map_eq_nil_iff.mp whole
    rw [Custody.flow_nil, add_zero]
    rfl
  | @own _ _ log _ carries _ ih =>
    obtain ⟨event, events, rfl, rfl, rest⟩ := List.map_eq_cons_iff.mp whole
    have first := rows event List.mem_cons_self
    have changed := custody_dispatched apart carries first
    have moved := @ih (dispatched outside db log) events (fun other listed => by
      have row := rows other (List.mem_cons_of_mem _ listed)
      rw [changed]
      cases other with
      | withdrawn | forcedWithdrawalExecuted => exact apply_row _ row
      | _ => trivial) rest
    rw [dispatchAll_cons, moved, changed, custodyChange_balance first, Custody.flow_cons, add_assoc]
  | inherited unknown _ ih => rw [dispatchAll_cons, dispatched_unknown unknown, ih rows whole]

end

section
variable {σ : Type} {env : Custody.Env σ} {state after : Custody.State σ} {outside : Surroundings} {db : Database}

/-- Dispatching the logs of all events so far leaves the vault's balances. -/
def Follows (outside : Surroundings) (db : Database) (state : Custody.State σ) : Prop :=
  ∀ logs, Emitted outside (state.events.map Custody.Event.emission) logs →
    ∀ account, (Columns.of (dispatchAll outside db logs)).balance account = (state.balances account).toNat

theorem exec_follows (apart : Apart outside) {msg : Message} {call : Custody.Call} (follows : Follows outside db state)
    (ran : Custody.exec env msg call state = .ok after) :
    Follows outside db after ↔ ∀ account, Postings.net call.deltas account = 0 := by
  obtain ⟨news, events, backed⟩ := Custody.exec_events ran
  have balances {first second : List Log} (earlier : Emitted outside (state.events.map Custody.Event.emission) first)
      (later : Emitted outside (news.map Custody.Event.emission) second) (account : Address) :
      (Columns.of (dispatchAll outside db (first ++ second))).balance account =
        (after.balances account).toNat - Postings.net call.deltas account := by
    have before := follows first earlier
    have row {owner : Address} (funded : state.balances owner ≠ 0) :
        (Columns.of (dispatchAll outside db first)).available owner ≠ none := by
      intro absent
      have balance := before owner
      rw [Columns.balance, absent, Option.getD_none] at balance
      exact funded (BitVec.eq_of_toNat_eq (by simp; omega))
    have rows : ∀ event ∈ news, covered (Columns.of (dispatchAll outside db first)) event := by
      intro event listed
      have funded := backed event listed
      cases event with
      | withdrawn | forcedWithdrawalExecuted => exact row funded
      | _ => trivial
    have ledger := Custody.exec_ledger ran account
    rw [events, Custody.flow_append] at ledger
    rw [dispatchAll_append, custody_dispatchAll apart later rows, before]
    omega
  constructor
  · intro left account
    obtain ⟨first, earlier⟩ := @Emitted.exists outside (state.events.map Custody.Event.emission)
    obtain ⟨second, later⟩ := @Emitted.exists outside (news.map Custody.Event.emission)
    have same := left (first ++ second) (by rw [events, List.map_append]; exact earlier.append later) account
    rw [balances earlier later] at same
    omega
  · intro flat logs emitted account
    rw [events, List.map_append] at emitted
    obtain ⟨first, second, rfl, earlier, later⟩ := emitted.split
    rw [balances earlier later, flat account, sub_zero]

theorem step_follows (apart : Apart outside) (follows : Follows outside db state) {label : Option (Message × Custody.Call)}
    (step : Custody.Step env state label after) : Follows outside db after ↔ Custody.Flat label := by
  cases step with
  | call ran => exact exec_follows apart follows ran
  | others => exact ⟨fun _ => trivial, fun _ => follows⟩

/-- The index follows the vault: over every run from deployment, dispatching all events
so far leaves every account the vault's balance, after each step, exactly when no step
books a net amount on an account. -/
theorem ledger_follows (apart : Apart outside) (empty : ∀ account, db.balances (usdc account) = none)
    {token admin : Address} {threshold now : Uint256} {usdc : σ} {start : Custody.State σ}
    (deployed : Custody.deploy token admin threshold now usdc = .ok start)
    {history : List (Option (Message × Custody.Call) × Custody.State σ)}
    (run : Run (Custody.StepTo env) start history state) :
    (∀ record ∈ history, Follows outside db record.2) ↔ ∀ record ∈ history, Custody.Flat record.1 := by
  have initial : Follows outside db start := by
    obtain ⟨-, events, balances⟩ := Custody.deploy_ok deployed
    intro logs emitted account
    rw [events] at emitted
    rw [emitted.quiet, balances]
    simp [Columns.balance, Columns.of, empty]
  have along : ((∀ record ∈ history, Follows outside db record.2) ↔ ∀ record ∈ history, Custody.Flat record.1) ∧
      ((∀ record ∈ history, Custody.Flat record.1) → Follows outside db state) := by
    apply run.invariant fun history state =>
      ((∀ record ∈ history, Follows outside db record.2) ↔ ∀ record ∈ history, Custody.Flat record.1) ∧
        ((∀ record ∈ history, Custody.Flat record.1) → Follows outside db state)
    · simpa using initial
    · rintro history state ⟨label, left⟩ after - ⟨same, follows⟩ ⟨step, rfl⟩
      simp only [List.forall_mem_append, List.forall_mem_singleton]
      constructor
      · constructor
        · intro follow
          obtain ⟨earlier, last⟩ := follow
          exact ⟨same.mp earlier, (step_follows apart (follows (same.mp earlier)) step).mp last⟩
        · intro flat
          obtain ⟨earlier, last⟩ := flat
          exact ⟨same.mpr earlier, (step_follows apart (follows earlier) step).mpr last⟩
      · intro flat
        obtain ⟨earlier, last⟩ := flat
        exact (step_follows apart (follows earlier) step).mpr last
  exact along.1

end

/-- A batch moves the 4 that account 7 has deposited to account 8; the index is not told. -/
theorem ledger_follows_fails : ∃ history state,
    Run (Custody.StepTo Custody.Sample.vault) Custody.Sample.start history state ∧
    ¬ ∀ record ∈ history, Follows Sample.outside Database.empty record.2 := by
  obtain ⟨trusted, granted, later⟩ := returns_iff.mp (show returns
    (Custody.exec Custody.Sample.vault ⟨1, 2000⟩ (.grantRole .settlement 1) Custody.Sample.start) (fun trusted => returns
      (Custody.exec Custody.Sample.vault ⟨7, 2001⟩ (.deposit 4) trusted) fun held => returns
        (Custody.exec Custody.Sample.vault ⟨1, 2002⟩ (.applyNetDeltas 9 [⟨7, -4⟩, ⟨8, 4⟩]) held) fun _ => true) = true by
    decide +kernel)
  obtain ⟨held, deposited, later⟩ := returns_iff.mp later
  obtain ⟨settled, applied, -⟩ := returns_iff.mp later
  refine ⟨_, settled, ((Run.start.next (.call granted)).next (.call deposited)).next (.call applied), ?_⟩
  intro follows
  simp only [List.nil_append, List.cons_append, List.forall_mem_cons] at follows
  obtain ⟨-, before, after, -⟩ := follows
  have flat := (exec_follows Sample.apart before applied).mp after 7
  exact absurd flat (by decide)

/-- The hypotheses meet: account 7 deposits 4 and takes them out through the hatch. -/
theorem ledger_follows_sample : ∃ history state,
    Run (Custody.StepTo Custody.Sample.vault) Custody.Sample.start history state ∧ history.length = 2 ∧
    ∀ record ∈ history, Follows Sample.outside Database.empty record.2 := by
  obtain ⟨held, deposited, later⟩ := returns_iff.mp (show returns
    (Custody.exec Custody.Sample.vault ⟨7, 2000⟩ (.deposit 4) Custody.Sample.start) (fun held => returns
      (Custody.exec Custody.Sample.vault ⟨7, 100000⟩ (.executeForcedWithdrawal 8) held) fun _ => true) = true by
    decide +kernel)
  obtain ⟨left, forced, -⟩ := returns_iff.mp later
  have run : Run (Custody.StepTo Custody.Sample.vault) Custody.Sample.start _ left :=
    (Run.start.next (.call deposited)).next (.call forced)
  refine ⟨_, left, run, rfl, (ledger_follows Sample.apart (fun _ => rfl) Custody.Sample.deployed run).mpr ?_⟩
  intro record member
  simp only [List.nil_append, List.cons_append, List.mem_cons, List.not_mem_nil, or_false] at member
  rcases member with rfl | rfl <;> exact fun account => rfl

end Omniscient.Indexer

import Omniscient.Proofs.LostEvents

/-! No event is applied twice. The mark of a log is read outside the transaction
that applies it, but nothing else indexes in between, and on a fixed chain no mark
is ever deleted. -/

namespace Omniscient.Indexer
open Outcome

def Uniform (handler : Handler) : Prop := ∀ log,
  (∀ db flag after, handler log db = .ok (flag, after) → flag = true) ∨ ∀ db, handler log db = .ok (false, db)

theorem withTopic_uniform {size : Nat} {body : Bytes32 → Handler}
    (handles : ∀ topic log db flag after, body topic log db = .ok (flag, after) → flag = true) :
    Uniform (withTopic size body) := by
  intro log
  unfold withTopic
  cases log.topics[1]? with
  | none => exact .inr fun _ => rfl
  | some topic =>
    by_cases short : log.data.length < size
    · simp only [if_pos short]
      exact .inr fun _ => rfl
    · simp only [if_neg short]
      exact .inl (handles topic log)

private theorem handleDeposited_uniform : Uniform handleDeposited := by
  apply withTopic_uniform
  intro topic log db flag after done
  simp only [bind_ok, revertIf_ok, pure_ok, Prod.mk.injEq] at done
  obtain ⟨-, -, -, -, rfl, -⟩ := done
  rfl

theorem handleWithdrawal_uniform (size : Nat) : Uniform (handleWithdrawal size) := by
  apply withTopic_uniform
  intro topic log db flag after done
  simp only [bind_ok, revertIf_ok, pure_ok, Prod.mk.injEq] at done
  obtain ⟨-, -, -, -, rfl, -⟩ := done
  rfl

theorem handleNotice_uniform (size : Nat) : Uniform (handleNotice size) := by
  intro log
  by_cases long : size ≤ log.data.length
  · refine .inl fun db flag after done => ?_
    cases done
    exact decide_eq_true long
  · refine .inr fun db => ?_
    rw [handleNotice, decide_eq_false long]
    rfl

private theorem handleNonceInvalidated_uniform : Uniform handleNonceInvalidated := by
  apply withTopic_uniform
  intro topic log db flag after done
  simp only [bind_ok, revertIf_ok, pure_ok, Prod.mk.injEq] at done
  obtain ⟨-, -, rfl, -⟩ := done
  rfl

private theorem handleMarketCreated_uniform (outside : Surroundings) : Uniform (handleMarketCreated outside) := by
  apply withTopic_uniform
  intro topic log db flag after done
  simp only [bind_ok, revertIf_ok, orRevert_ok, pure_ok, Prod.mk.injEq] at done
  obtain ⟨-, -, -, -, question, -, -, -, -, -, rfl, -⟩ := done
  rfl

theorem handleMarketState_uniform (state : MarketState) : Uniform (handleMarketState state) := by
  apply withTopic_uniform
  intro topic log db flag after done
  cases done
  rfl

private theorem handlers_uniform (outside : Surroundings) : ∀ entry ∈ handlers outside, Uniform entry.2 := by
  simp only [handlers, List.forall_mem_cons, List.not_mem_nil, IsEmpty.forall_iff, implies_true, and_true]
  exact ⟨handleDeposited_uniform, handleWithdrawal_uniform 64, handleWithdrawal_uniform 32, handleNotice_uniform 32,
    handleNotice_uniform 32, handleNotice_uniform 64, handleNonceInvalidated_uniform, handleMarketCreated_uniform outside,
    handleMarketState_uniform .proposed, handleMarketState_uniform .disputed, handleMarketState_uniform .resolved,
    handleMarketState_uniform .resolved⟩

theorem dispatch_uniform (outside : Surroundings) : Uniform (dispatch outside) := by
  intro log
  unfold dispatch
  cases log.topics.head? with
  | none => exact .inr fun _ => rfl
  | some topic =>
    cases known : handlerOf outside topic with
    | none =>
      simp only [known]
      exact .inr fun _ => rfl
    | some handler =>
      obtain ⟨entry, found, rfl⟩ := Option.map_eq_some_iff.mp known
      simp only [known]
      exact handlers_uniform outside entry (List.mem_of_find?_eq_some found) log

structure Record where
  label : Label
  before : Database
  after : Database

/-- A move of the indexer, with what its operation has found and left. -/
inductive Recorded (outside : Surroundings) (config : AppConfig) (blocks : Bytes32 → List RawLog)
    (may : Chain → Chain → Prop) (state : State) : Record → State → Prop where
  | perform {operation : Operation} {ending : Ending} {next : operation.Answer → Effect Unit} {drifted after : World}
      {answer : operation.Answer} (pending : state.next config.custodyAddr = .perform operation next)
      (drifts : state.world.Drifts may drifted)
      (performed : drifted.perform outside blocks operation ending = some (answer, after)) :
      Recorded outside config blocks may state ⟨(operation, ending), drifted.db, after.db⟩ ⟨after, next answer⟩

/-- The log that an operation commits and that dispatch has handled. -/
def Record.applies (outside : Surroundings) (record : Record) : Option Log :=
  (Label.commits record.label).filter fun log =>
    returns (dispatch outside log (upsertCheckpoint log.blockNumber log.blockHash record.before)) Prod.fst

structure SameLedger (db after : Database) : Prop where
  users : after.users = db.users
  balances : after.balances = db.balances
  markets : after.markets = db.markets
  orders : after.orders = db.orders

section
variable {outside : Surroundings} {config : AppConfig} {blocks : Bytes32 → List RawLog} {hashAt : Nat → Bytes32}
  {may : Chain → Chain → Prop}

theorem Recorded.moves {state after : State} {record : Record} (moved : Recorded outside config blocks may state record after) :
    Moves outside config blocks may state record.label after := by
  cases moved with
  | perform pending drifts performed => exact .perform pending drifts performed

theorem Recorded.labels {start state : State} {trace : List Record}
    (run : Run (Recorded outside config blocks may) start trace state) :
    Run (Moves outside config blocks may) start (trace.map Record.label) state := by
  induction run with
  | start => exact .start
  | next _ moved ih =>
    rw [List.map_append]
    exact ih.next moved.moves

theorem Recorded.exists {start state : State} {labels : List Label} (run : Run (Moves outside config blocks may) start labels state) :
    ∃ trace, Run (Recorded outside config blocks may) start trace state ∧ trace.map Record.label = labels := by
  induction run with
  | start => exact ⟨[], .start, rfl⟩
  | next _ moved ih =>
    obtain ⟨trace, before, same⟩ := ih
    cases moved with
    | perform pending drifts performed =>
      refine ⟨_, before.next (.perform pending drifts performed), ?_⟩
      rw [List.map_append, same]
      rfl

/-- What holds throughout on a fixed chain: the checkpoints are canonical, what was
applied is marked, no marked log was committed again, and nothing was rolled back. -/
structure Once (outside : Surroundings) (hashAt : Nat → Bytes32) (history : History) : Prop where
  chain : history.2.chain.hashAt = hashAt
  checkpoints : ∀ number row, history.2.db.reorgCheckpoints number = some row → row.blockHash = hashAt number
  marked : ∀ log ∈ committed history.1, Handled outside log → (history.2.db.indexedLogs log.key).isSome
  distinct : (committed history.1).Pairwise fun first second => Handled outside first → first.key ≠ second.key
  forward : ∀ label ∈ history.1, ∀ block, label.1 ≠ .transact (.rollbackUnfinalized block)

theorem Once.drift {trace : List Label} {world drifted : World} (once : Once outside hashAt (trace, world))
    (drifts : world.Drifts Fixed drifted) : Once outside hashAt (trace, drifted) := by
  refine ⟨drifts.chain.same.trans once.chain, ?_, ?_, once.distinct, once.forward⟩
  · rw [drifts.index.checkpoints]
    exact once.checkpoints
  · rw [drifts.index.logs]
    exact once.marked

theorem Once.forward_append {trace : List Label} {world : World} (once : Once outside hashAt (trace, world)) {label : Label}
    (forward : ∀ block, label.1 ≠ .transact (.rollbackUnfinalized block)) :
    ∀ each ∈ trace ++ [label], ∀ block, each.1 ≠ .transact (.rollbackUnfinalized block) := by
  intro each member
  rcases List.mem_append.mp member with earlier | last
  · exact once.forward each earlier
  · rw [List.mem_singleton.mp last]
    exact forward

theorem Once.record {trace : List Label} {world : World} (once : Once outside hashAt (trace, world)) (label : Label)
    (quiet : Label.commits label = none) (forward : ∀ block, label.1 ≠ .transact (.rollbackUnfinalized block)) :
    Once outside hashAt (trace ++ [label], world) := by
  have same : committed (trace ++ [label]) = committed trace := by rw [committed_append, quiet]; simp
  refine ⟨once.chain, once.checkpoints, ?_, ?_, once.forward_append forward⟩
  · rw [same]
    exact once.marked
  · rw [same]
    exact once.distinct

theorem Once.stable {operation : Operation} (query : ∀ transaction, operation ≠ .transact transaction) :
    Stable Fixed operation (Once outside hashAt) :=
  fun _ _ _ ending once drifts => (once.drift drifts).record (operation, ending) (commits_query query ending)
    fun block => query (.rollbackUnfinalized block)

theorem Once.index {trace : List Label} {world : World} (once : Once outside hashAt (trace, world)) {contract : Address}
    {log : Log} {db : Database} {ending : Ending}
    (commits : Label.commits (.transact (.indexLog contract log), ending) = some log)
    (mined : log ∈ logsAt blocks hashAt log.blockNumber) (unmarked : world.db.indexedLogs log.key = none)
    (effect : IndexedBy outside contract log world.db db) :
    Once outside hashAt (trace ++ [(.transact (.indexLog contract log), ending)], { world with db }) := by
  have extended : committed (trace ++ [(.transact (.indexLog contract log), ending)]) = committed trace ++ [log] := by
    rw [committed_append, commits]
    rfl
  have new : ∀ other ∈ committed trace, Handled outside other → other.key ≠ log.key := by
    intro other member handled same
    have mark := once.marked other member handled
    rw [same, unmarked] at mark
    cases mark
  refine ⟨once.chain, effect.canonical (mined_hash mined) once.checkpoints, ?_, ?_, once.forward_append nofun⟩
  · rw [extended]
    intro other member handled
    rcases List.mem_append.mp member with earlier | same
    · exact effect.keepsMark (once.marked other earlier handled)
    · obtain rfl := List.mem_singleton.mp same
      exact effect.mark handled
  · rw [extended, List.pairwise_append]
    refine ⟨once.distinct, List.pairwise_singleton .., fun other member same listed handled => ?_⟩
    rw [List.mem_singleton.mp listed]
    exact new other member handled

abbrev Turns (outside : Surroundings) (blocks : Bytes32 → List RawLog) :
    History → (operation : Operation) → operation.Answer → History → Prop :=
  Extends outside blocks Fixed (fun _ _ => True) (fun _ => True)

private theorem processLog_once {contract : Address} {log : Log} (mined : log ∈ logsAt blocks hashAt log.blockNumber)
    {history : History} (once : Once outside hashAt history) :
    (processLog contract log).Safe (Turns outside blocks) (Once outside hashAt) (fun _ _ => True) history := by
  obtain ⟨trace, world⟩ := history
  unfold processLog
  split
  next => exact Program.safe_pure once trivial
  next =>
    refine safe_query once (Once.stable nofun) nofun ?_
    intro looking asked answer drifts looked once
    cases answer with
    | none => exact Program.safe_pure once trivial
    | some marked =>
      obtain rfl := Option.some.inj (answered_some looked)
      cases found : looking.db.indexedLogs log.key with
      | some row => exact Program.safe_pure once trivial
      | none =>
        apply Program.safe_bind
        apply safe_operation once
        intro drifted ending answer after drifts performed _ _
        have unmarked : drifted.db.indexedLogs log.key = none := by rw [drifts.index.logs, found]
        have once := once.drift drifts
        rcases transact_cases performed with ⟨rfl, rfl, rfl⟩ | ⟨took, db, ran, rfl⟩
        · have recorded := once.record (.transact (.indexLog contract log), .fails) rfl nofun
          exact ⟨recorded, recorded, trivial⟩
        · have commits := commits_indexLog contract log took
          have recorded := once.index commits mined unmarked (indexLog_ok ran)
          exact ⟨recorded, recorded, trivial⟩

private theorem finalizeBlock_once {custodyAddr contract : Address} {block : Nat} {history : History}
    (once : Once outside hashAt history) (frozen : block < history.2.chain.frozen) :
    (finalizeBlock custodyAddr contract block).Safe (Turns outside blocks) (Once outside hashAt) (fun _ _ => True) history := by
  have stable : ∀ operation ∈ [Operation.getBlock block, .selectCheckpoint block, .reconcile block],
      Stable Fixed operation (Once outside hashAt) ∧ Stable Fixed operation fun _ => True := by
    simp only [List.forall_mem_cons, List.not_mem_nil, IsEmpty.forall_iff, implies_true, and_true]
    exact ⟨⟨Once.stable nofun, fun _ _ _ _ _ _ => trivial⟩, ⟨Once.stable nofun, fun _ _ _ _ _ _ => trivial⟩,
      ⟨Once.stable nofun, fun _ _ _ _ _ _ => trivial⟩⟩
  refine finalizeBlock_rule Fixed.toEvolves stable ?_ ?_ once trivial frozen
  · rintro hash ⟨trace, world⟩ once - - - -
    apply safe_operation once
    intro drifted ending _ after drifts performed _ _
    have recorded := (once.drift drifts).record (.transact (.finalize contract block hash), ending)
      (by cases ending <;> rfl) nofun
    refine ⟨?_, trivial⟩
    rcases transact_cases performed with ⟨rfl, -, rfl⟩ | ⟨took, db, ran, rfl⟩
    · exact recorded
    · cases ran
      refine ⟨recorded.chain, fun number row found => ?_, recorded.marked, recorded.distinct, recorded.forward⟩
      obtain ⟨old, before, same⟩ := finalize_checkpoint found
      exact same.trans (recorded.checkpoints number old before)
  · intro checkpoint history once _ there differs
    rw [once.chain] at differs
    exact absurd (once.checkpoints block checkpoint there) differs

private theorem poll_once {custodyAddr : Address} {history : History} (once : Once outside hashAt history) :
    (poll custodyAddr).Safe (Turns outside blocks) (Once outside hashAt) (fun _ _ => True) history := by
  have stable : ∀ operation ∈ [Operation.getBlockNumber, .selectCursors], Stable Fixed operation (Once outside hashAt) := by
    simp only [List.forall_mem_cons, List.not_mem_nil, IsEmpty.forall_iff, implies_true, and_true]
    exact ⟨Once.stable nofun, Once.stable nofun⟩
  refine poll_rule Fixed.toEvolves stable ?_ once
  intro currentBlock cursor selected history _ once _ _ depth
  have scanned := @indexContract_rule outside blocks Fixed (fun _ _ => True) (fun _ => True) (Once outside hashAt)
    Fixed.toEvolves custodyAddr cursor.contractAddress currentBlock cursor.lastFinalizedBlock (fun _ _ _ => True)
  refine scanned once (fun _ _ => Once.stable nofun) (fun _ _ _ => trivial) ?_ ?_
  · intro fetched done log later _ fetchedOnce once member _
    obtain ⟨-, -, mined, -⟩ := Chain.mem_getLogs.mp member
    rw [fetchedOnce.chain] at mined
    exact processLog_once mined once
  · intro fetched later start between _ once _
    have deep := depth.trans_le (Nat.add_le_add_right (start.trans between).frozen _)
    exact finalizeBlocks_rule Fixed.toEvolves
      (fun block history _ _ once _ frozen => finalizeBlock_once once frozen) once trivial deep

/-- Wherever a run on a fixed chain has led, each handled log was committed once. -/
theorem once_run {start : World}
    (canonical : ∀ number row, start.db.reorgCheckpoints number = some row → row.blockHash = start.chain.hashAt number)
    {trace : List Label} {state : State} (run : Run (Moves outside config blocks Fixed) ⟨start, .done ()⟩ trace state) :
    Once outside start.chain.hashAt (trace, state.world) := by
  have initial : Once outside start.chain.hashAt ([], start) :=
    ⟨rfl, canonical, fun _ member => (List.not_mem_nil member).elim, List.Pairwise.nil,
      fun _ member => (List.not_mem_nil member).elim⟩
  exact run_safe (fun history once => poll_once once) (fun _ _ => id) initial
    (run.mono fun _ _ _ moved => ⟨moved, trivial⟩) trivial

private theorem applies_sublist (trace : List Record) :
    (trace.filterMap (Record.applies outside)).Sublist (committed (trace.map Record.label)) := by
  induction trace with
  | nil => exact List.Sublist.refl _
  | cons record trace ih =>
    rw [committed, List.map_cons, List.filterMap_cons, List.filterMap_cons, Record.applies]
    cases Label.commits record.label with
    | none => exact ih
    | some log =>
      rw [Option.filter_some]
      split
      next => exact ih.cons log
      next other applied =>
        obtain ⟨-, ⟨⟩⟩ := Option.ite_none_right_eq_some.mp applied
        exact ih.cons_cons log

private theorem applies_handled {record : Record} {log : Log} (applies : record.applies outside = some log) :
    Handled outside log := by
  rcases dispatch_uniform outside log with handled | skipped
  · exact handled
  · obtain ⟨⟨flag, after⟩, dispatched, flagged⟩ := returns_iff.mp (Option.filter_eq_some_iff.mp applies).2
    cases dispatched.symm.trans (skipped _)
    cases flagged

/-- A committed log that dispatch does not handle leaves the tables as they were. -/
theorem Recorded.skips {state after : State} {record : Record} (moved : Recorded outside config blocks may state record after)
    {log : Log} (commits : Label.commits record.label = some log) (unapplied : record.applies outside = none) :
    SameLedger record.before record.after := by
  cases moved with
  | @perform operation ending next drifted after answer pending drifts performed =>
    have transacts : ∃ contract, operation = .transact (.indexLog contract log) ∧ ending ≠ .fails := by
      cases operation with
      | transact transaction =>
        cases transaction with
        | indexLog contract other => cases ending <;> cases commits <;> exact ⟨contract, rfl, nofun⟩
        | finalize => cases ending <;> cases commits
        | rollbackUnfinalized => cases ending <;> cases commits
      | _ => cases ending <;> cases commits
    obtain ⟨contract, rfl, took⟩ := transacts
    rcases transact_cases performed with ⟨failed, -, -⟩ | ⟨-, db, ran, rfl⟩
    · exact absurd failed took
    · simp only [Transaction.run, indexLog, bind_ok, revertIf_ok] at ran
      obtain ⟨-, -, ⟨flag, written⟩, dispatched, ran⟩ := ran
      rw [Record.applies, commits, Option.filter_some] at unapplied
      simp only [dispatched, returns, ite_eq_right_iff, reduceCtorEq, imp_false, Bool.not_eq_true] at unapplied
      subst unapplied
      cases ran
      rcases dispatch_uniform outside log with handled | skipped
      · cases handled _ _ _ dispatched
      · cases dispatched.symm.trans (skipped _)
        exact ⟨rfl, rfl, rfl, rfl⟩

/-- No event is applied twice: in every run on a fixed chain, whatever fails and at
whatever point, the handled logs that were committed have different keys, and a log
that dispatch does not handle changes no table. -/
theorem applied_once {start : World}
    (canonical : ∀ number row, start.db.reorgCheckpoints number = some row → row.blockHash = start.chain.hashAt number)
    {trace : List Record} {state : State} (run : Run (Recorded outside config blocks Fixed) ⟨start, .done ()⟩ trace state) :
    ((trace.filterMap (Record.applies outside)).map Log.key).Nodup ∧
    ∀ record ∈ trace, ∀ log, Label.commits record.label = some log → record.applies outside = none →
      SameLedger record.before record.after := by
  constructor
  · have distinct := (once_run canonical (Recorded.labels run)).distinct.sublist (@applies_sublist outside trace)
    rw [List.Nodup, List.pairwise_map]
    refine distinct.imp_of_mem fun {first second} member _ different => different ?_
    obtain ⟨record, -, applies⟩ := List.mem_filterMap.mp member
    exact applies_handled applies
  · apply run.invariant fun trace _ => ∀ record ∈ trace, ∀ log, Label.commits record.label = some log →
      record.applies outside = none → SameLedger record.before record.after
    · exact fun record member => (List.not_mem_nil member).elim
    · intro trace state record after _ before moved each member log commits unapplied
      rcases List.mem_append.mp member with earlier | last
      · exact before each earlier log commits unapplied
      · obtain rfl := List.mem_singleton.mp last
        exact moved.skips commits unapplied

end

/-- The hypotheses meet: a turn that indexes a deposit. -/
theorem applied_once_sample : ∃ trace state,
    Run (Recorded Sample.outside Sample.config Sample.blocks Fixed) ⟨Sample.indexed, .done ()⟩ trace state ∧
    (trace.map Record.label).filterMap Label.commits = [(Sample.deposit 71).mined 1 1001] ∧
    ((trace.filterMap (Record.applies Sample.outside)).map Log.key).Nodup := by
  have drove : ((drive Sample.outside Sample.config Sample.blocks (fun _ _ => true) ⟨Sample.indexed, .done ()⟩ Sample.passing).any
      fun result => decide (result.1.filterMap Label.commits = [(Sample.deposit 71).mined 1 1001])) = true := by
    decide +kernel
  obtain ⟨⟨labels, state⟩, driven, checked⟩ := (Option.any_eq_true _ _).mp drove
  obtain ⟨trace, run, same⟩ := Recorded.exists ((drive_runs Sample.passing_fixed driven).mono fun _ _ _ => And.left)
  refine ⟨trace, state, run, same ▸ of_decide_eq_true checked, (applied_once (fun number row found => ?_) run).1⟩
  cases found

end Omniscient.Indexer

import Omniscient.Proofs.EventTables
import Omniscient.Proofs.AppliedOnce
import Omniscient.Reconcile

/-! What an applied log does to the columns that the index is read for. Unlike the
tables of an event, these are described for handlers that have succeeded: a row that
was missing is there afterwards. -/

namespace Omniscient.Indexer
open Outcome

/-- The nonce of each user, the USDC of each account that has a row, and the markets. -/
@[ext] structure Columns where
  nonce : Address → Int
  available : Address → Option Int
  markets : MarketId → Option MarketRow

def Columns.of (db : Database) : Columns where
  nonce user := (db.users user).elim 0 UserRow.cancellationNonce
  available user := (db.balances (usdc user)).map BalanceRow.availableAmount
  markets := db.markets

inductive Change where
  | moved (user : Address) (enters : Bool) (amount : Nat)
  | nonceSet (user : Address) (nonce : Nat)
  | marketCreated (marketId : MarketId) (row : MarketRow)
  | marketMoved (marketId : MarketId) (state : MarketState)
  | nothing
  deriving DecidableEq

/-- The amount of an account after a deposit or a withdrawal; the first of them
inserts its amount as it is. -/
def movedAmount (enters : Bool) (amount : Nat) : Option Int → Int
  | none => amount
  | some available => if enters then available + amount else available - amount

def Change.apply (columns : Columns) : Change → Columns
  | .moved user enters amount =>
    { columns with
      available := Function.update columns.available user (some (movedAmount enters amount (columns.available user))) }
  | .nonceSet user nonce => { columns with nonce := Function.update columns.nonce user nonce }
  | .marketCreated marketId row =>
    { columns with markets := Function.update columns.markets marketId (some ((columns.markets marketId).getD row)) }
  | .marketMoved marketId state =>
    let row := (columns.markets marketId).map fun row => { row with state }
    { columns with markets := Function.update columns.markets marketId row }
  | .nothing => columns

def Event.change (log : Log) : Event → Change
  | .balanceMoved user enters amount _ => .moved user enters amount
  | .nonceInvalidated user => .nonceSet user (wordAt log.data 0)
  | .marketCreated marketId row => .marketCreated marketId row
  | .marketMoved marketId state => .marketMoved marketId state
  | .nothing => .nothing

def change (outside : Surroundings) (log : Log) : Change := (event outside log).change log

section
variable {outside : Surroundings}

def Changes (handler : Handler) (reader : Log → Event) : Prop :=
  ∀ log db flag after, handler log db = .ok (flag, after) →
    Columns.of after = Change.apply (Columns.of db) ((reader log).change log)

theorem withTopic_changes {size : Nat} {body : Bytes32 → Handler} {reader : Bytes32 → Log → Event}
    (changes : ∀ topic, Changes (body topic) (reader topic)) :
    Changes (withTopic size body) (withArgument size reader) := by
  intro log db flag after done
  unfold withTopic at done
  unfold withArgument
  cases first : log.topics[1]? with
  | none =>
    rw [first] at done
    cases done
    rfl
  | some topic =>
    rw [first] at done
    dsimp only at done ⊢
    split at done
    next short =>
      cases done
      rw [if_pos short]
      rfl
    next long =>
      rw [if_neg long]
      exact changes topic log db flag after done

theorem upsertBalance_columns {user : Address} {enters : Bool} {amount block : Nat} {update : Int → Int} {db after : Database}
    (moves : ∀ available, update available = if enters then available + amount else available - amount)
    (done : upsertBalance user amount block update db = .ok after) :
    Columns.of after = Change.apply (Columns.of db) (.moved user enters amount) := by
  have written (row : BalanceRow) (amount' : Int) (same : row.availableAmount = amount') :
      Columns.of { db with balances := Function.update db.balances (usdc user) (some row) } =
        { Columns.of db with available := Function.update (Columns.of db).available user (some amount') } := by
    refine Columns.ext rfl (funext fun other => ?_) rfl
    by_cases here : other = user
    · subst here
      simp [Columns.of, same]
    · have elsewhere : usdc other ≠ usdc user := fun keys => here (BalanceKey.mk.inj keys).1
      simp [Columns.of, Function.update_of_ne elsewhere, Function.update_of_ne here]
  have found : (Columns.of db).available user = (db.balances (usdc user)).map BalanceRow.availableAmount := rfl
  unfold upsertBalance at done
  rw [Change.apply, found]
  split at done
  next row present =>
    cases done
    rw [present]
    exact written _ _ (moves _)
  next absent =>
    split at done
    next => cases done
    next =>
      cases done
      rw [absent]
      exact written _ _ rfl

theorem insertUser_columns (user : Address) (db : Database) : Columns.of (insertUser user db) = Columns.of db := by
  refine Columns.ext (funext fun other => ?_) rfl rfl
  by_cases here : other = user
  · subst here
    cases present : db.users other <;> simp [Columns.of, insertUser, present]
  · simp [Columns.of, insertUser, Function.update_of_ne here]

theorem handleDeposited_changes : Changes handleDeposited (withArgument 32 (readBalance true)) := by
  apply withTopic_changes
  intro topic log db flag after done
  simp only [bind_ok, revertIf_ok, pure_ok, Prod.mk.injEq] at done
  obtain ⟨-, -, stored, upserted, -, rfl⟩ := done
  rw [@upsertBalance_columns (topicAddress topic) true _ _ _ _ _ (fun _ => rfl) upserted, insertUser_columns]
  rfl

theorem handleWithdrawal_changes (size : Nat) :
    Changes (handleWithdrawal size) (withArgument size (readBalance false)) := by
  apply withTopic_changes
  intro topic log db flag after done
  simp only [bind_ok, revertIf_ok, pure_ok, Prod.mk.injEq] at done
  obtain ⟨-, -, stored, upserted, -, rfl⟩ := done
  rw [@upsertBalance_columns (topicAddress topic) false _ _ _ _ _ (fun _ => rfl) upserted]
  rfl

theorem handleNotice_changes (size : Nat) : Changes (handleNotice size) (fun _ => .nothing) := by
  intro log db flag after done
  cases done
  rfl

private theorem handleNonceInvalidated_changes : Changes handleNonceInvalidated (withArgument 32 readNonce) := by
  apply withTopic_changes
  intro topic log db flag after done
  simp only [bind_ok, revertIf_ok, pure_ok, Prod.mk.injEq] at done
  obtain ⟨-, small, -, rfl⟩ := done
  rw [readNonce, if_neg small]
  refine Columns.ext (funext fun other => ?_) rfl rfl
  by_cases here : other = topicAddress topic
  · subst here
    simp [Columns.of, Event.change, Change.apply]
  · simp [Columns.of, Event.change, Change.apply, Function.update_of_ne here]

private theorem handleMarketCreated_changes : Changes (handleMarketCreated outside)
    (withArgument 64 (readMarket outside)) := by
  apply withTopic_changes
  intro topic log db flag after done
  simp only [bind_ok, revertIf_ok, orRevert_ok, pure_ok, Prod.mk.injEq, Decidable.not_not, ne_eq] at done
  obtain ⟨-, soon, -, -, question, stored, -, range, -, size, -, rfl⟩ := done
  have sound : ¬ (I64_END ≤ wordAt log.data 1 ∨ TIMESTAMP_END ≤ (wordAt log.data 1 : Int) ∨ question.length ≠ 32) := by
    simp only [not_or, Decidable.not_not]
    exact ⟨soon, range, size⟩
  rw [readMarket, stored]
  dsimp only
  rw [if_neg sound]
  rfl

theorem handleMarketState_changes (state : MarketState) :
    Changes (handleMarketState state) (withArgument 0 (readState state)) := by
  apply withTopic_changes
  intro topic log db flag after done
  cases done
  rfl

private theorem handlers_change : List.Forall₂ (fun handler reader => handler.1 = reader.1 ∧ Changes handler.2 reader.2)
    (handlers outside) (readers outside) := by
  unfold handlers readers
  exact .cons ⟨rfl, handleDeposited_changes⟩ <| .cons ⟨rfl, handleWithdrawal_changes 64⟩ <|
    .cons ⟨rfl, handleWithdrawal_changes 32⟩ <| .cons ⟨rfl, handleNotice_changes 32⟩ <|
    .cons ⟨rfl, handleNotice_changes 32⟩ <| .cons ⟨rfl, handleNotice_changes 64⟩ <|
    .cons ⟨rfl, handleNonceInvalidated_changes⟩ <| .cons ⟨rfl, handleMarketCreated_changes⟩ <|
    .cons ⟨rfl, handleMarketState_changes .proposed⟩ <| .cons ⟨rfl, handleMarketState_changes .disputed⟩ <|
    .cons ⟨rfl, handleMarketState_changes .resolved⟩ <| .cons ⟨rfl, handleMarketState_changes .resolved⟩ .nil

private theorem dispatch_changes : Changes (dispatch outside) (event outside) := by
  intro log db flag after done
  unfold dispatch at done
  unfold event
  cases first : log.topics.head? with
  | none =>
    rw [first] at done
    cases done
    rfl
  | some topic =>
    have found := find_related (@handlers_change outside) fun signature => decide (topic = topicHash outside signature)
    rw [first] at done
    unfold handlerOf at done
    dsimp only at done ⊢
    generalize (handlers outside).find? _ = handler at found done
    generalize (readers outside).find? _ = reader at found
    cases found with
    | none =>
      cases done
      rfl
    | some changes => exact changes log db flag after done

theorem indexLog_columns {contract : Address} {log : Log} {db after : Database}
    (done : indexLog outside contract log db = .ok after) :
    Columns.of after = Change.apply (Columns.of db) (change outside log) := by
  simp only [indexLog, bind_ok, revertIf_ok] at done
  obtain ⟨-, -, ⟨flag, written⟩, dispatched, done⟩ := done
  have changed := dispatch_changes log _ _ _ dispatched
  cases flag with
  | false =>
    cases done
    exact changed
  | true =>
    simp only [if_true, insertIndexedLog] at done
    split at done
    next => cases done
    next =>
      cases done
      exact changed

variable {config : AppConfig} {blocks : Bytes32 → List RawLog} {state after : State} {record : Service}

def applied (outside : Surroundings) (columns : Columns) (logs : List Log) : Columns :=
  logs.foldl (fun columns log => Change.apply columns (change outside log)) columns

/-- An operation changes the columns by the log it commits, and by nothing else. -/
theorem Recorded.effect {may : Chain → Chain → Prop} {record : Record}
    (moved : Recorded outside config blocks may state record after)
    (forward : ∀ block, record.label.1 ≠ .transact (.rollbackUnfinalized block)) :
    Columns.of record.after = applied outside (Columns.of record.before) (Label.commits record.label).toList := by
  cases moved with
  | @perform operation ending next drifted found answer pending drifts performed =>
    have queried (untouched : found = drifted) (query : Label.commits (operation, ending) = none) :
        Columns.of found.db = applied outside (Columns.of drifted.db) (Label.commits (operation, ending)).toList := by
      rw [query, untouched]
      rfl
    cases operation with
    | transact transaction =>
      rcases transact_cases performed with ⟨rfl, -, rfl⟩ | ⟨took, db, ran, rfl⟩
      · cases transaction <;> rfl
      · cases transaction with
        | rollbackUnfinalized block => exact absurd rfl (forward block)
        | finalize =>
          cases ran
          cases ending <;> rfl
        | indexLog contract log =>
          have commits := commits_indexLog contract log took
          rw [commits]
          exact indexLog_columns ran
    | reconcile block =>
      cases performed
      exact queried rfl (by cases ending <;> rfl)
    | getBlockNumber => exact queried (answered_cases performed).1 (by cases ending <;> rfl)
    | selectCursors => exact queried (answered_cases performed).1 (by cases ending <;> rfl)
    | getLogs => exact queried (answered_cases performed).1 (by cases ending <;> rfl)
    | selectIndexed => exact queried (answered_cases performed).1 (by cases ending <;> rfl)
    | getBlock => exact queried (answered_cases performed).1 (by cases ending <;> rfl)
    | selectCheckpoint => exact queried (answered_cases performed).1 (by cases ending <;> rfl)

theorem postReconcile_ok {payload : Gateway.ReconcilePayload} {db posted : Database}
    (done : Gateway.postReconcile payload db = .ok posted) :
    SameIndex db posted ∧ Columns.of posted = Change.apply (Columns.of db)
      (.moved payload.user true (if payload.deposit < I64_END then payload.deposit else I64_END - 1)) := by
  unfold Gateway.postReconcile at done
  constructor
  · obtain ⟨row, rfl⟩ := upsertBalance_ok done
    exact ⟨rfl, rfl, rfl⟩
  · rw [@upsertBalance_columns payload.user true _ _ _ _ _ (fun _ => rfl) done, insertUser_columns]

private theorem Delivery.run_index {delivery : Delivery} {db posted : Database} (done : delivery.run db = .ok posted) :
    SameIndex db posted := by
  unfold Delivery.run at done
  split at done
  next payload _ =>
    refine each_keeps (fun current => SameIndex db current) done (fun current _ next _ once same => ?_) (.refl db)
    have posted := (postReconcile_ok once).1
    exact ⟨posted.cursors.trans same.cursors, posted.checkpoints.trans same.checkpoints, posted.logs.trans same.logs⟩
  next =>
    cases done
    exact .refl db

theorem Operation.Delivers.index {operation : Operation} {deliveries : List Delivery} {db posted : Database}
    (delivers : operation.Delivers db deliveries posted) : SameIndex db posted := by
  have none (nothing : deliveries = [] ∧ posted = db) : SameIndex db posted := nothing.2 ▸ .refl db
  cases operation with
  | reconcile block =>
    refine each_keeps (fun current => SameIndex db current) delivers.posted (fun current _ next _ once same => ?_) (.refl db)
    have posted := Delivery.run_index once
    exact ⟨posted.cursors.trans same.cursors, posted.checkpoints.trans same.checkpoints, posted.logs.trans same.logs⟩
  | _ => exact none delivers

theorem Serves.moves (moved : Serves outside config blocks state record after) :
    Moves outside config blocks Fixed state record.label after := by
  cases moved with
  | @perform operation ending next chain found answer deliveries db pending evolves same performed delivers =>
    have drifts (drifted : World) (chained : drifted.chain = chain) (index : SameIndex state.world.db drifted.db) :
        state.world.Drifts Fixed drifted := ⟨chained ▸ ⟨evolves, same⟩, index⟩
    have undisturbed (nothing : deliveries = [] ∧ db = found.db) :
        Moves outside config blocks Fixed state (operation, ending) ⟨{ found with db }, next answer⟩ := by
      rw [nothing.2]
      exact .perform pending (drifts { state.world with chain } rfl (.refl _)) performed
    cases operation with
    | reconcile block =>
      cases performed
      exact .perform pending (drifts { state.world with chain, db } rfl delivers.index) rfl
    | _ => exact undisturbed delivers

theorem Serves.labels {start : State} {trace : List Service} (run : Run (Serves outside config blocks) start trace state) :
    Run (Moves outside config blocks Fixed) start (trace.map Service.label) state := by
  induction run with
  | start => exact .start
  | next _ moved ih =>
    rw [List.map_append]
    exact ih.next moved.moves

theorem Serves.effect (moved : Serves outside config blocks state record after)
    (forward : ∀ block, record.label.1 ≠ .transact (.rollbackUnfinalized block)) :
    record.before = state.world.db ∧
    ((record.deliveries = [] ∧ Columns.of after.world.db =
        applied outside (Columns.of record.before) (Label.commits record.label).toList) ∨
      (Label.commits record.label = none ∧ ∃ block, Reconciles block record.before record.deliveries after.world.db)) := by
  cases moved with
  | @perform operation ending next chain found answer deliveries db pending evolves same performed delivers =>
    refine ⟨rfl, ?_⟩
    have drifts : state.world.Drifts Fixed { state.world with chain } := ⟨⟨evolves, same⟩, .refl _⟩
    have recorded : Recorded outside config blocks Fixed state ⟨(operation, ending), state.world.db, found.db⟩ ⟨found, next answer⟩ :=
      @Recorded.perform _ _ _ _ _ _ _ _ { state.world with chain } _ _ pending drifts performed
    have unposted (nothing : deliveries = [] ∧ db = found.db) : deliveries = [] ∧ Columns.of db =
        applied outside (Columns.of state.world.db) (Label.commits (operation, ending)).toList :=
      ⟨nothing.1, nothing.2 ▸ recorded.effect forward⟩
    cases operation with
    | reconcile block =>
      cases performed
      exact .inr ⟨by cases ending <;> rfl, block, delivers⟩
    | _ => exact .inl (unposted delivers)

end

def Operation.deliver (db : Database) (deliveries : List Delivery) : Operation → Option Database
  | .reconcile block =>
    if (∀ delivery ∈ deliveries, db.balances delivery.key = some delivery.row ∧ delivery.row.finalizedBlockNumber = block) ∧
        (deliveries.map Delivery.key).Nodup ∧ ∀ delivery ∈ deliveries, delivery.posts ≤ 3 then
      (each Delivery.run db deliveries).toOption
    else
      none
  | _ => if deliveries = [] then some db else none

def serving (outside : Surroundings) (config : AppConfig) (blocks : Bytes32 → List RawLog) :
    State → List (Ending × List Delivery) → Option (List Service × State)
  | state, [] => some ([], state)
  | state, (ending, deliveries) :: steps =>
    match state.next config.custodyAddr with
    | .done () => none
    | .perform operation next => do
      let (answer, world) ← state.world.perform outside blocks operation ending
      let db ← operation.deliver world.db deliveries
      let (trace, final) ← serving outside config blocks ⟨{ world with db }, next answer⟩ steps
      return (⟨(operation, ending), state.world.db, deliveries⟩ :: trace, final)

private theorem deliver_delivers {operation : Operation} {deliveries : List Delivery} {db posted : Database}
    (delivered : operation.deliver db deliveries = some posted) : operation.Delivers db deliveries posted := by
  have nothing (undelivered : (if deliveries = [] then some db else none) = some posted) : deliveries = [] ∧ posted = db := by
    split at undelivered
    next empty => exact ⟨empty, (Option.some.inj undelivered).symm⟩
    next => cases undelivered
  cases operation with
  | reconcile block =>
    simp only [Operation.deliver] at delivered
    split at delivered
    next allowed =>
      obtain ⟨selected, rows, attempts⟩ := allowed
      refine ⟨selected, rows, attempts, ?_⟩
      cases posted_ : each Delivery.run db deliveries with
      | ok result =>
        rw [posted_] at delivered
        cases delivered
        rfl
      | error error =>
        rw [posted_] at delivered
        cases delivered
    next => cases delivered
  | _ => exact nothing delivered

theorem serving_runs {outside : Surroundings} {config : AppConfig} {blocks : Bytes32 → List RawLog}
    {steps : List (Ending × List Delivery)} {state final : State} {trace : List Service}
    (served : serving outside config blocks state steps = some (trace, final)) :
    Run (Serves outside config blocks) state trace final := by
  induction steps generalizing state trace with
  | nil =>
    cases served
    exact .start
  | cons step steps ih =>
    obtain ⟨ending, deliveries⟩ := step
    rw [serving] at served
    split at served
    next => cases served
    next operation next pending =>
      simp only [Option.bind_eq_bind, Option.bind_eq_some_iff, Option.pure_def, Option.some.injEq, Prod.mk.injEq,
        Prod.exists] at served
      obtain ⟨answer, world, performed, db, delivered, rest, last, later, rfl, rfl⟩ := served
      have moved : Serves outside config blocks state ⟨(operation, ending), state.world.db, deliveries⟩
          ⟨{ world with db }, next answer⟩ :=
        .perform pending ⟨le_refl _, fun _ _ => rfl⟩ rfl performed (deliver_delivers delivered)
      exact (Run.start.next moved).append (ih later)

end Omniscient.Indexer

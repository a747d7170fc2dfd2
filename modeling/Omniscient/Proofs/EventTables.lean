import Omniscient.Events
import Omniscient.Proofs.Indexing

/-! The handlers do to the tables what the events say, and the loop over the logs
does it for each log once. -/

namespace Omniscient.Indexer
open Outcome

section
variable {outside : Surroundings}

/-- The database after a transaction: an error has rolled it back. -/
def settle {α : Type} (db : Database) : Except String (α × Database) → Database
  | .ok (_, after) => after
  | .error _ => db

def Refines (handler : Handler) (reader : Log → Event) : Prop :=
  ∀ log db, log.blockNumber < I64_END → Tables.of (settle db (handler log db)) = Event.step (Tables.of db) (reader log)

theorem withTopic_refines {size : Nat} {body : Bytes32 → Handler} {reader : Bytes32 → Log → Event}
    (refines : ∀ topic, Refines (body topic) (reader topic)) :
    Refines (withTopic size body) (withArgument size reader) := by
  intro log db small
  unfold withTopic withArgument
  cases log.topics[1]? with
  | none => simp only [settle, pure, Except.pure, Event.step]
  | some topic =>
    dsimp only
    by_cases short : log.data.length < size
    · rw [if_pos short, if_pos short]
      simp only [settle, pure, Except.pure, Event.step]
    · rw [if_neg short, if_neg short]
      exact refines topic log db small

section
variable {user : Address} {enters : Bool} {db entered : Database}

private theorem entered_tables (enter : entered = if enters then insertUser user db else db) :
    entered.balances = db.balances ∧ (Tables.of entered).markets = (Tables.of db).markets ∧
      (Tables.of entered).known =
        if enters then Function.update (Tables.of db).known user true else (Tables.of db).known := by
  subst enter
  cases enters with
  | false => exact ⟨rfl, rfl, rfl⟩
  | true =>
    refine ⟨rfl, rfl, ?_⟩
    funext other
    simp only [if_true, Tables.of, insertUser, Function.update_apply]
    split <;> rfl

private theorem entered_unknown (enter : entered = if enters then insertUser user db else db)
    (unknown : entered.users user = none) :
    entered = db := by
  cases enters with
  | false => exact enter
  | true =>
    subst enter
    simp [insertUser] at unknown

end

theorem upsertBalance_moves {user : Address} {enters : Bool} {amount block : Nat} {update : Int → Int} {db entered : Database}
    (moves : ∀ available, update available = if enters then available + amount else available - amount)
    (enter : entered = if enters then insertUser user db else db) :
    Tables.of (settle db (upsertBalance user amount block update entered >>= fun db => pure (true, db))) =
      Event.step (Tables.of db) (.balanceMoved user enters amount block) := by
  obtain ⟨balances, markets, known⟩ := entered_tables enter
  rw [Event.step, ← known]
  cases present : db.balances (usdc user) with
  | some row =>
    have upserted : upsertBalance user amount block update entered = .ok { entered with
        balances := Function.update db.balances (usdc user) (some (BalanceRow.moved row enters amount block)) } := by
      simp only [upsertBalance, balances, present, BalanceRow.moved, moves]
      rfl
    have found : (Tables.of db).balances (usdc user) = some row := present
    rw [upserted, found, ← markets]
    rfl
  | none =>
    have missing : (Tables.of db).balances (usdc user) = none := present
    rw [missing]
    cases isUser : entered.users user with
    | none =>
      -- Only a withdrawal is refused, and it leaves no row where there was none.
      have refused : upsertBalance user amount block update entered =
          .error (sqlxError (DbError.foreignKey "balances" "balances_user_address_fkey")) := by
        simp only [upsertBalance, balances, present, isUser, if_true]
      have unknown : (Tables.of entered).known user = false := by simp [Tables.of, isUser]
      have absent : Function.update (Tables.of db).balances (usdc user) none = (Tables.of db).balances := by
        rw [← missing, Function.update_eq_self]
      rw [refused, unknown, cond_false, absent, entered_unknown enter isUser]
      rfl
    | some row =>
      have upserted : upsertBalance user amount block update entered = .ok { entered with
          balances := Function.update db.balances (usdc user) (some ⟨amount, 0, block⟩) } := by
        simp only [upsertBalance, balances, present, isUser]
        rfl
      have isKnown : (Tables.of entered).known user = true := by simp [Tables.of, isUser]
      rw [upserted, isKnown, cond_true, ← markets]
      rfl

private theorem handleDeposited_refines : Refines handleDeposited (withArgument 32 (readBalance true)) := by
  apply withTopic_refines
  intro topic log db small
  simp only [readBalance, revertIf, if_neg (not_le.mpr small)]
  exact upsertBalance_moves (fun available => rfl) rfl

theorem handleWithdrawal_refines (size : Nat) :
    Refines (handleWithdrawal size) (withArgument size (readBalance false)) := by
  apply withTopic_refines
  intro topic log db small
  simp only [readBalance, revertIf, if_neg (not_le.mpr small)]
  exact upsertBalance_moves (fun available => rfl) rfl

theorem handleNotice_refines (size : Nat) : Refines (handleNotice size) (fun _ => .nothing) :=
  fun _ _ _ => rfl

private theorem handleNonceInvalidated_refines : Refines handleNonceInvalidated (withArgument 32 readNonce) := by
  apply withTopic_refines
  intro topic log db small
  rw [readNonce]
  by_cases large : I64_END ≤ wordAt log.data 0
  · simp only [revertIf, if_pos large]
    rfl
  · simp only [revertIf, if_neg large]
    have known : (fun user => (Function.update db.users (topicAddress topic) (some ⟨(wordAt log.data 0 : Int)⟩) user).isSome) =
        Function.update (Tables.of db).known (topicAddress topic) true := by
      funext user
      simp only [Tables.of, Function.update_apply]
      split <;> rfl
    rw [Event.step, ← known]
    rfl

private theorem handleMarketCreated_refines : Refines (handleMarketCreated outside)
    (withArgument 64 (readMarket outside)) := by
  apply withTopic_refines
  intro topic log db small
  simp only [readMarket, revertIf, if_neg (not_le.mpr small)]
  by_cases late : I64_END ≤ wordAt log.data 1
  · rw [if_pos late]
    cases outside.bytea (toString (wordAt log.data 0)) with
    | none => rfl
    | some question =>
      simp only [late, true_or, if_true]
      rfl
  · rw [if_neg late]
    cases outside.bytea (toString (wordAt log.data 0)) with
    | none => rfl
    | some question =>
      simp only [orRevert, bind, Except.bind]
      by_cases range : TIMESTAMP_END ≤ (wordAt log.data 1 : Int)
      · simp only [range, if_true, true_or, or_true]
        rfl
      · by_cases size : question.length = 32
        · simp only [late, range, size, ne_eq, not_true_eq_false, if_false, or_self]
          rfl
        · simp only [range, size, ne_eq, not_false_eq_true, if_true, if_false, or_true]
          rfl

theorem handleMarketState_refines (state : MarketState) :
    Refines (handleMarketState state) (withArgument 0 (readState state)) := by
  apply withTopic_refines
  intro topic log db small
  rfl

private theorem handlers_refine : List.Forall₂ (fun handler reader => handler.1 = reader.1 ∧ Refines handler.2 reader.2)
    (handlers outside) (readers outside) := by
  unfold handlers readers
  exact .cons ⟨rfl, handleDeposited_refines⟩ <| .cons ⟨rfl, handleWithdrawal_refines 64⟩ <|
    .cons ⟨rfl, handleWithdrawal_refines 32⟩ <| .cons ⟨rfl, handleNotice_refines 32⟩ <|
    .cons ⟨rfl, handleNotice_refines 32⟩ <| .cons ⟨rfl, handleNotice_refines 64⟩ <|
    .cons ⟨rfl, handleNonceInvalidated_refines⟩ <| .cons ⟨rfl, handleMarketCreated_refines⟩ <|
    .cons ⟨rfl, handleMarketState_refines .proposed⟩ <| .cons ⟨rfl, handleMarketState_refines .disputed⟩ <|
    .cons ⟨rfl, handleMarketState_refines .resolved⟩ <| .cons ⟨rfl, handleMarketState_refines .resolved⟩ .nil

/-- In tables with the same keys, the first entries that match are related. -/
theorem find_related {κ α β : Type} {related : α → β → Prop} {first : List (κ × α)} {second : List (κ × β)}
    (all : List.Forall₂ (fun entry other => entry.1 = other.1 ∧ related entry.2 other.2) first second) (matches' : κ → Bool) :
    Option.Rel (fun entry other => related entry.2 other.2) (first.find? fun entry => matches' entry.1)
      (second.find? fun entry => matches' entry.1) := by
  induction all with
  | nil => exact .none
  | @cons entry other _ _ same _ ih =>
    rw [List.find?_cons, List.find?_cons, same.1]
    cases matches' other.1 with
    | true => exact .some same.2
    | false => exact ih

private theorem dispatch_refines : Refines (dispatch outside) (event outside) := by
  intro log db small
  unfold dispatch event
  cases log.topics.head? with
  | none => rfl
  | some topic =>
    have found := find_related (@handlers_refine outside) fun signature => decide (topic = topicHash outside signature)
    unfold handlerOf
    dsimp only
    generalize (handlers outside).find? _ = handler at found
    generalize (readers outside).find? _ = reader at found
    cases found with
    | none => rfl
    | some refines => exact refines log db small

private theorem indexLog_tables {contract : Address} {log : Log} (small : log.blockNumber < I64_END) (db : Database) :
    Tables.of (Transaction.after outside db (.indexLog contract log)) = Event.step (Tables.of db) (event outside log) := by
  have refines := @dispatch_refines outside log (upsertCheckpoint log.blockNumber log.blockHash db) small
  unfold Transaction.after Transaction.run indexLog
  simp only [revertIf, if_neg (not_le.mpr small), bind, Except.bind]
  cases dispatched : dispatch outside log (upsertCheckpoint log.blockNumber log.blockHash db) with
  | error error =>
    rw [dispatched] at refines
    exact refines
  | ok result =>
    obtain ⟨handled, after⟩ := result
    rw [dispatched] at refines
    cases handled with
    | false => exact refines
    | true =>
      simp only [if_true, insertIndexedLog]
      cases first : log.topics.head? with
      | none => simp [dispatch, first, pure, Except.pure] at dispatched
      | some topic0 => exact refines

private theorem indexed_tables {log : Log} {db : Database} (small : log.blockNumber < I64_END)
    (listed : log.logIndex < I64_END)
    (unmarked : db.indexedLogs log.key = none) :
    Tables.of (indexed outside db log) = Event.step (Tables.of db) (event outside log) := by
  have new : ¬ (I64_END ≤ log.logIndex ∨ (db.indexedLogs log.key).isSome) := by simp [unmarked, listed]
  rw [indexed, if_neg new]
  exact indexLog_tables small db

theorem indexed_marks {log : Log} {db : Database} {key : Bytes32 × Nat} {row : IndexedLogRow}
    (marked : (indexed outside db log).indexedLogs key = some row) :
    db.indexedLogs key = some row ∨ key = log.key ∧ row.blockNumber = log.blockNumber := by
  unfold indexed at marked
  split at marked
  next => exact .inl marked
  next new =>
    unfold Transaction.after at marked
    split at marked
    next after ran =>
      rcases (indexLog_ok ran).logs with ⟨-, same⟩ | ⟨topic0, -, same⟩
      · exact .inl (same ▸ marked)
      · by_cases own : key = log.key
        · subst own
          have unmarked : db.indexedLogs log.key = none := by
            simpa using (not_or.mp new).2
          rw [same, Function.update_self, unmarked] at marked
          cases marked
          exact .inr ⟨rfl, rfl⟩
        · rw [same, Function.update_of_ne own] at marked
          exact .inl marked
    next => exact .inl marked

theorem index_marks {logs : List Log} {db : Database} {key : Bytes32 × Nat} {row : IndexedLogRow}
    (marked : (index outside db logs).indexedLogs key = some row) :
    db.indexedLogs key = some row ∨ ∃ log ∈ logs, key = log.key ∧ row.blockNumber = log.blockNumber := by
  induction logs generalizing db with
  | nil => exact .inl marked
  | cons log logs ih =>
    rcases ih marked with before | ⟨other, member, own⟩
    · rcases indexed_marks before with before | own
      · exact .inl before
      · exact .inr ⟨log, List.mem_cons_self, own⟩
    · exact .inr ⟨other, List.mem_cons_of_mem _ member, own⟩

theorem index_orders (logs : List Log) (db : Database) : (index outside db logs).orders.length = db.orders.length := by
  induction logs generalizing db with
  | nil => rfl
  | cons log logs ih =>
    apply (ih _).trans
    unfold indexed
    split
    next => rfl
    next =>
      unfold Transaction.after
      split
      next after ran => exact (indexLog_ok ran).orders
      next => rfl

/-- Indexing new logs does the steps of their events, one after the other. -/
theorem index_tables {logs : List Log} {db : Database} (keys : (logs.map Log.key).Nodup)
    (small : ∀ log ∈ logs, log.blockNumber < I64_END ∧ log.logIndex < I64_END)
    (unmarked : ∀ log ∈ logs, db.indexedLogs log.key = none) :
    Tables.of (index outside db logs) = (logs.map (event outside)).foldl Event.step (Tables.of db) := by
  induction logs generalizing db with
  | nil => rfl
  | cons log logs ih =>
    obtain ⟨blockSmall, indexSmall⟩ := small log List.mem_cons_self
    obtain ⟨different, keys⟩ := List.nodup_cons.mp keys
    rw [List.map_cons, List.foldl_cons, ← indexed_tables blockSmall indexSmall (unmarked log List.mem_cons_self)]
    apply ih keys (fun other member => small other (List.mem_cons_of_mem _ member))
    intro other member
    cases marked : (indexed outside db log).indexedLogs other.key with
    | none => rfl
    | some row =>
      rcases indexed_marks marked with before | ⟨same, -⟩
      · rw [unmarked other (List.mem_cons_of_mem _ member)] at before
        cases before
      · exact absurd (same ▸ List.mem_map_of_mem member) different

variable {blocks : Bytes32 → List RawLog}

private theorem calm_bind {first second : Effect Unit} {world : World} :
    calm outside blocks (first >>= fun _ => second) world =
      (calm outside blocks first world).bind (calm outside blocks second) := by
  induction first generalizing world with
  | done value => rfl
  | perform operation next ih =>
    change calm outside blocks (.perform operation fun answer => (next answer).bind fun _ => second) world = _
    simp only [calm, Option.bind_eq_bind, Option.bind_assoc]
    congr 1
    funext answered
    exact ih answered.1

private theorem calm_request {operation : Operation} {next : operation.Answer → Effect Unit} {world : World} :
    calm outside blocks (request operation >>= next) world =
      (world.perform outside blocks operation .succeeds <|> world.perform outside blocks operation .fails).bind
        fun answered => calm outside blocks (next answered.1) answered.2 := rfl

private theorem calm_transact (transaction : Transaction) (world : World) :
    (world.perform outside blocks (.transact transaction) .succeeds <|>
      world.perform outside blocks (.transact transaction) .fails).map Prod.snd =
        some { world with db := transaction.after outside world.db } := by
  simp only [World.perform, Transaction.after]
  cases transaction.run outside world.db <;> rfl

private theorem processLog_calm (log : Log) (world : World) :
    calm outside blocks (processLog log.address log) world =
      some { world with db := indexed outside world.db log } := by
  unfold processLog indexed
  by_cases large : I64_END ≤ log.logIndex
  · rw [if_pos large, if_pos (.inl large)]
    rfl
  · rw [if_neg large, calm_request]
    cases marked : (world.db.indexedLogs log.key).isSome with
    | true =>
      rw [if_pos (.inr rfl)]
      simp only [World.perform, answered, marked]
      rfl
    | false =>
      rw [if_neg (by simpa using large)]
      simp only [World.perform, answered, marked]
      exact (Option.map_eq_bind ..).symm.trans (@calm_transact outside blocks (.indexLog log.address log) world)

theorem index_calm (logs : List Log) (world : World) :
    calm outside blocks (logs.forM fun log => processLog log.address log) world =
      some { world with db := index outside world.db logs } := by
  induction logs generalizing world with
  | nil => rfl
  | cons log logs ih =>
    change calm outside blocks (processLog log.address log >>= fun _ => _) world = _
    rw [calm_bind, processLog_calm, Option.bind_some, ih]
    rfl

end

end Omniscient.Indexer

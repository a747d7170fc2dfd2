import Omniscient.Indexer

/-! What the indexer's transactions do to its own tables, and how a fact about one
turn becomes a fact about every run. -/

namespace Omniscient.Indexer
open Outcome

theorem SameIndex.refl (db : Database) : SameIndex db db := ⟨rfl, rfl, rfl⟩

structure Frame (db after : Database) : Prop extends SameIndex db after where
  orders : after.orders.length = db.orders.length

theorem Frame.refl (db : Database) : Frame db db := ⟨.refl db, rfl⟩

def Framed (handler : Handler) : Prop :=
  ∀ log db flag after, handler log db = .ok (flag, after) → Frame db after

theorem upsertBalance_ok {user : Address} {amount block : Nat} {update : Int → Int} {db after : Database}
    (done : upsertBalance user amount block update db = .ok after) :
    ∃ row, after = { db with balances := Function.update db.balances (usdc user) (some row) } := by
  unfold upsertBalance at done
  split at done
  next =>
    cases done
    exact ⟨_, rfl⟩
  next =>
    split at done
    next => cases done
    next =>
      cases done
      exact ⟨_, rfl⟩

theorem withTopic_framed {size : Nat} {body : Bytes32 → Handler} (framed : ∀ topic, Framed (body topic)) :
    Framed (withTopic size body) := by
  intro log db flag after done
  unfold withTopic at done
  split at done
  next =>
    cases done
    exact .refl db
  next topic _ =>
    split at done
    next =>
      cases done
      exact .refl db
    next => exact framed topic log db flag after done

private theorem handleDeposited_framed : Framed handleDeposited := by
  apply withTopic_framed
  intro topic log db flag after done
  simp only [bind_ok, revertIf_ok, pure_ok, Prod.mk.injEq] at done
  obtain ⟨-, -, stored, upserted, -, rfl⟩ := done
  obtain ⟨row, rfl⟩ := upsertBalance_ok upserted
  exact ⟨⟨rfl, rfl, rfl⟩, rfl⟩

theorem handleWithdrawal_framed (size : Nat) : Framed (handleWithdrawal size) := by
  apply withTopic_framed
  intro topic log db flag after done
  simp only [bind_ok, revertIf_ok, pure_ok, Prod.mk.injEq] at done
  obtain ⟨-, -, stored, upserted, -, rfl⟩ := done
  obtain ⟨row, rfl⟩ := upsertBalance_ok upserted
  exact ⟨⟨rfl, rfl, rfl⟩, rfl⟩

theorem handleNotice_framed (size : Nat) : Framed (handleNotice size) := by
  intro log db flag after done
  cases done
  exact .refl db

private theorem handleNonceInvalidated_framed : Framed handleNonceInvalidated := by
  apply withTopic_framed
  intro topic log db flag after done
  simp only [bind_ok, revertIf_ok, pure_ok, Prod.mk.injEq] at done
  obtain ⟨-, -, -, rfl⟩ := done
  exact ⟨⟨rfl, rfl, rfl⟩, List.length_map _⟩

private theorem handleMarketCreated_framed (outside : Surroundings) : Framed (handleMarketCreated outside) := by
  apply withTopic_framed
  intro topic log db flag after done
  simp only [bind_ok, revertIf_ok, orRevert_ok, pure_ok, Prod.mk.injEq] at done
  obtain ⟨-, -, -, -, question, -, -, -, -, -, -, rfl⟩ := done
  exact ⟨⟨rfl, rfl, rfl⟩, rfl⟩

theorem handleMarketState_framed (state : MarketState) : Framed (handleMarketState state) := by
  apply withTopic_framed
  intro topic log db flag after done
  cases done
  exact ⟨⟨rfl, rfl, rfl⟩, rfl⟩

private theorem handlers_framed (outside : Surroundings) : ∀ entry ∈ handlers outside, Framed entry.2 := by
  simp only [handlers, List.forall_mem_cons, List.not_mem_nil, IsEmpty.forall_iff, implies_true, and_true]
  exact ⟨handleDeposited_framed, handleWithdrawal_framed 64, handleWithdrawal_framed 32, handleNotice_framed 32,
    handleNotice_framed 32, handleNotice_framed 64, handleNonceInvalidated_framed, handleMarketCreated_framed outside,
    handleMarketState_framed .proposed, handleMarketState_framed .disputed, handleMarketState_framed .resolved,
    handleMarketState_framed .resolved⟩

private theorem dispatch_framed {outside : Surroundings} {log : Log} {db after : Database} {flag : Bool}
    (done : dispatch outside log db = .ok (flag, after)) : Frame db after := by
  unfold dispatch at done
  split at done
  next =>
    cases done
    exact .refl db
  next topic _ =>
    split at done
    next handler known =>
      obtain ⟨entry, found, rfl⟩ := Option.map_eq_some_iff.mp known
      exact handlers_framed outside entry (List.mem_of_find?_eq_some found) log db flag after done
    next =>
      cases done
      exact .refl db

theorem upsertCheckpoint_self (block : Nat) (hash : Bytes32) (db : Database) :
    ∃ row, (upsertCheckpoint block hash db).reorgCheckpoints block = some row := ⟨_, Function.update_self ..⟩

theorem upsertCheckpoint_other {block number : Nat} (different : number ≠ block) (hash : Bytes32) (db : Database) :
    (upsertCheckpoint block hash db).reorgCheckpoints number = db.reorgCheckpoints number :=
  Function.update_of_ne different ..

/-- A checkpoint after the upsert is an old one, or the new one in place of none or
of an unfinalized one. -/
theorem upsertCheckpoint_cases {block number : Nat} {hash : Bytes32} {db : Database} {row : CheckpointRow}
    (found : (upsertCheckpoint block hash db).reorgCheckpoints number = some row) :
    (db.reorgCheckpoints number = some row ∧ (number = block → row.isFinalized = true)) ∨
      (number = block ∧ row = ⟨hash, false⟩ ∧ ∀ old, db.reorgCheckpoints block = some old → old.isFinalized = false) := by
  by_cases here : number = block
  · subst here
    simp only [upsertCheckpoint, Function.update_self] at found
    cases before : db.reorgCheckpoints number with
    | none =>
      simp only [before, Option.some.injEq] at found
      exact .inr ⟨rfl, found.symm, nofun⟩
    | some old =>
      simp only [before, Option.some.injEq] at found
      split at found
      next unfinalized =>
        refine .inr ⟨rfl, found.symm, fun other same => ?_⟩
        cases same
        exact unfinalized
      next finalized =>
        subst found
        exact .inl ⟨rfl, fun _ => by simpa using finalized⟩
  · rw [upsertCheckpoint_other here] at found
    exact .inl ⟨found, fun same => absurd same here⟩

/-- Dispatch returns true for the log whenever its statements succeed. -/
def Handled (outside : Surroundings) (log : Log) : Prop :=
  ∀ db flag after, dispatch outside log db = .ok (flag, after) → flag = true

structure IndexedBy (outside : Surroundings) (contract : Address) (log : Log) (db after : Database) : Prop where
  cursors : after.indexerCursors = db.indexerCursors
  checkpoints : after.reorgCheckpoints = (upsertCheckpoint log.blockNumber log.blockHash db).reorgCheckpoints
  logs : (¬ Handled outside log ∧ after.indexedLogs = db.indexedLogs) ∨
    ∃ topic0, log.topics.head? = some topic0 ∧ after.indexedLogs = Function.update db.indexedLogs log.key
      (some ((db.indexedLogs log.key).getD ⟨log.blockNumber, contract, topic0⟩))
  orders : after.orders.length = db.orders.length

theorem indexLog_ok {outside : Surroundings} {contract : Address} {log : Log} {db after : Database}
    (done : indexLog outside contract log db = .ok after) : IndexedBy outside contract log db after := by
  simp only [indexLog, bind_ok, revertIf_ok] at done
  obtain ⟨-, -, ⟨flag, dispatched⟩, handled, done⟩ := done
  have same := dispatch_framed handled
  cases flag with
  | false =>
    cases done
    exact ⟨same.cursors, same.checkpoints,
      .inl ⟨fun always => Bool.false_ne_true (always _ _ _ handled), same.logs⟩, same.orders⟩
  | true =>
    simp only [if_true, insertIndexedLog] at done
    split at done
    next => cases done
    next topic0 first =>
      cases done
      exact ⟨same.cursors, same.checkpoints, .inr ⟨topic0, first, by rw [same.logs]; rfl⟩, same.orders⟩

section
variable {outside : Surroundings} {contract : Address} {log : Log} {db after : Database} {hashAt : Nat → Bytes32}

theorem mined_hash {blocks : Bytes32 → List RawLog} (mined : log ∈ logsAt blocks hashAt log.blockNumber) :
    log.blockHash = hashAt log.blockNumber := by
  obtain ⟨raw, -, made⟩ := List.mem_map.mp mined
  rw [← made]
  rfl

theorem IndexedBy.canonical (effect : IndexedBy outside contract log db after)
    (hash : log.blockHash = hashAt log.blockNumber)
    (canonical : ∀ number row, db.reorgCheckpoints number = some row → row.blockHash = hashAt number) (number : Nat)
    (row : CheckpointRow) (found : after.reorgCheckpoints number = some row) : row.blockHash = hashAt number := by
  rw [effect.checkpoints] at found
  rcases upsertCheckpoint_cases found with ⟨before, -⟩ | ⟨rfl, rfl, -⟩
  · exact canonical number row before
  · exact hash

theorem IndexedBy.marked (effect : IndexedBy outside contract log db after) {key : Bytes32 × Nat} {row : IndexedLogRow}
    (found : after.indexedLogs key = some row) : (∃ old, db.indexedLogs key = some old) ∨ key = log.key := by
  rcases effect.logs with ⟨-, same⟩ | ⟨topic0, -, same⟩
  · exact .inl ⟨row, same ▸ found⟩
  · by_cases here : key = log.key
    · exact .inr here
    · rw [same, Function.update_of_ne here] at found
      exact .inl ⟨row, found⟩

theorem IndexedBy.keepsMark (effect : IndexedBy outside contract log db after) {key : Bytes32 × Nat}
    (marked : (db.indexedLogs key).isSome) : (after.indexedLogs key).isSome := by
  rcases effect.logs with ⟨-, same⟩ | ⟨topic0, -, same⟩
  · exact same ▸ marked
  · rw [same]
    by_cases here : key = log.key
    · rw [here, Function.update_self]
      rfl
    · rwa [Function.update_of_ne here]

theorem IndexedBy.mark (effect : IndexedBy outside contract log db after) (handled : Handled outside log) :
    (after.indexedLogs log.key).isSome := by
  rcases effect.logs with ⟨unhandled, -⟩ | ⟨topic0, -, same⟩
  · exact absurd handled unhandled
  · rw [same, Function.update_self]
    rfl

theorem finalize_checkpoint {block number : Nat} {hash : Bytes32} {row : CheckpointRow}
    (found : (finalize contract block hash db).reorgCheckpoints number = some row) :
    ∃ old, db.reorgCheckpoints number = some old ∧ row.blockHash = old.blockHash := by
  by_cases here : number = block
  · subst here
    simp only [finalize, Function.update_self, Option.map_eq_some_iff] at found
    obtain ⟨old, before, rfl⟩ := found
    exact ⟨old, before, rfl⟩
  · simp only [finalize, Function.update_of_ne here] at found
    exact ⟨row, found, rfl⟩

end

theorem answered_cases {α : Type} {world after : World} {actual answer : Option α} {ending : Ending}
    (done : answered world actual ending = some (answer, after)) :
    after = world ∧ (ending = .succeeds ∧ answer = actual ∨ ending = .fails ∧ answer = none) := by
  cases ending with
  | succeeds =>
    cases done
    exact ⟨rfl, .inl ⟨rfl, rfl⟩⟩
  | fails =>
    cases done
    exact ⟨rfl, .inr ⟨rfl, rfl⟩⟩
  | unreported => cases done

/-- A transaction has no effect, or commits; only a commit is reported as success. -/
theorem transact_cases {outside : Surroundings} {blocks : Bytes32 → List RawLog} {world after : World}
    {transaction : Transaction} {ending : Ending} {answer : Bool}
    (done : world.perform outside blocks (.transact transaction) ending = some (answer, after)) :
    (ending = .fails ∧ answer = false ∧ after = world) ∨
      (ending ≠ .fails ∧ ∃ db, transaction.run outside world.db = .ok db ∧ after = { world with db }) := by
  cases ending with
  | fails =>
    cases done
    exact .inl ⟨rfl, rfl, rfl⟩
  | succeeds =>
    simp only [World.perform] at done
    split at done
    next db ran =>
      cases done
      exact .inr ⟨nofun, db, ran, rfl⟩
    next => cases done
  | unreported =>
    simp only [World.perform] at done
    split at done
    next db ran =>
      cases done
      exact .inr ⟨nofun, db, ran, rfl⟩
    next => cases done

theorem perform_chain {world after : World} {operation : Operation} {ending : Ending} {answer : operation.Answer}
    (performed : world.perform outside blocks operation ending = some (answer, after)) : after.chain = world.chain := by
  cases operation with
  | transact transaction =>
    rcases transact_cases performed with ⟨-, -, rfl⟩ | ⟨-, db, -, rfl⟩ <;> rfl
  | reconcile block =>
    cases performed
    rfl
  | getBlockNumber => rw [(answered_cases performed).1]
  | selectCursors => rw [(answered_cases performed).1]
  | getLogs contract first last => rw [(answered_cases performed).1]
  | selectIndexed log => rw [(answered_cases performed).1]
  | getBlock number => rw [(answered_cases performed).1]
  | selectCheckpoint number => rw [(answered_cases performed).1]

/-- A new index: its cursors are set, one for each contract, and nothing is indexed. -/
structure Fresh (db : Database) : Prop where
  cursors : ∀ first ∈ db.indexerCursors, ∀ second ∈ db.indexerCursors,
    first.contractAddress = second.contractAddress → first = second
  checkpoints : ∀ number, db.reorgCheckpoints number = none
  logs : ∀ key, db.indexedLogs key = none

abbrev History := List Label × World

section
variable (outside : Surroundings) (config : AppConfig) (blocks : Bytes32 → List RawLog) (may : Chain → Chain → Prop)
  (allowed : World → Label → Prop) (good : List Label → Prop)

/-- One operation, among histories. A step may be restricted by the world before
it, and the whole history by what it may contain. -/
def Extends (history : History) (operation : Operation) (answer : operation.Answer) (after : History) : Prop :=
  ∃ drifted ending, history.2.Drifts may drifted ∧
    drifted.perform outside blocks operation ending = some (answer, after.2) ∧
    after.1 = history.1 ++ [(operation, ending)] ∧ allowed history.2 (operation, ending) ∧ good after.1

variable {outside config blocks may allowed good}

theorem safe_operation {holds : History → Prop} {operation : Operation} {post : operation.Answer → History → Prop}
    {trace : List Label} {world : World} (now : holds (trace, world))
    (step : ∀ drifted ending answer after, world.Drifts may drifted →
      drifted.perform outside blocks operation ending = some (answer, after) → allowed world (operation, ending) →
      good (trace ++ [(operation, ending)]) →
      holds (trace ++ [(operation, ending)], after) ∧ post answer (trace ++ [(operation, ending)], after)) :
    (request operation).Safe (Extends outside blocks may allowed good) holds post (trace, world) := by
  apply Program.safe_request now
  rintro answer ⟨later, after⟩ ⟨drifted, ending, drifts, performed, rfl, permitted, sound⟩
  exact step drifted ending answer after drifts performed permitted sound

theorem run_safe {holds : History → Prop}
    (turn : ∀ history, holds history →
      (poll config.custodyAddr).Safe (Extends outside blocks may allowed good) holds (fun _ _ => True) history)
    (closed : ∀ trace label, good (trace ++ [label]) → good trace) {world : World} (initial : holds ([], world))
    {trace : List Label} {state : State}
    (run : Run (fun state label after => Moves outside config blocks may state label after ∧ allowed state.world label)
      ⟨world, .done ()⟩ trace state)
    (sound : good trace) : holds (trace, state.world) := by
  have safe : state.turn.Safe (Extends outside blocks may allowed good) holds (fun _ _ => True) (trace, state.world) := by
    revert sound
    apply run.invariant fun trace state => good trace →
      state.turn.Safe (Extends outside blocks may allowed good) holds (fun _ _ => True) (trace, state.world)
    · exact fun _ => ⟨initial, trivial⟩
    · rintro trace state label after - before ⟨moved, permitted⟩ sound
      have current := before (closed trace label sound)
      have next : (state.next config.custodyAddr).Safe (Extends outside blocks may allowed good) holds
          (fun _ _ => True) (trace, state.world) := by
        unfold State.next
        split
        next => exact turn _ current.now
        next => exact current
      cases moved with
      | perform pending drifts performed =>
        rw [pending] at next
        exact next.2 _ _ ⟨_, _, drifts, performed, rfl, permitted, sound⟩
  exact safe.now

end

/-- A run that can be computed: each operation finds the chain and ends as it is told to. -/
def drive (outside : Surroundings) (config : AppConfig) (blocks : Bytes32 → List RawLog)
    (check : World → Label → Bool) : State → List (Chain × Ending) → Option (List Label × State)
  | state, [] => some ([], state)
  | state, (chain, ending) :: steps =>
    match state.next config.custodyAddr with
    | .done () => none
    | .perform operation next => do
      guard (check state.world (operation, ending) = true)
      let (answer, world) ← { state.world with chain }.perform outside blocks operation ending
      let (trace, final) ← drive outside config blocks check ⟨world, next answer⟩ steps
      return ((operation, ending) :: trace, final)

theorem drive_runs {outside : Surroundings} {config : AppConfig} {blocks : Bytes32 → List RawLog}
    {check : World → Label → Bool} {may : Chain → Chain → Prop} {steps : List (Chain × Ending)}
    {state final : State} {trace : List Label} (evolves : (state.world.chain :: steps.map Prod.fst).IsChain may)
    (driven : drive outside config blocks check state steps = some (trace, final)) :
    Run (fun state label after => Moves outside config blocks may state label after ∧ check state.world label = true)
      state trace final := by
  induction steps generalizing state trace with
  | nil =>
    cases driven
    exact .start
  | cons step steps ih =>
    obtain ⟨chain, ending⟩ := step
    rw [drive] at driven
    split at driven
    next => cases driven
    next operation next pending =>
      simp only [Option.bind_eq_bind, Option.bind_eq_some_iff, Option.pure_def, Option.some.injEq, Prod.mk.injEq,
        Prod.exists, Option.guard_eq_some', exists_const] at driven
      obtain ⟨checked, answer, world, performed, rest, last, later, rfl, rfl⟩ := driven
      obtain ⟨first, others⟩ := List.isChain_cons_cons.mp evolves
      have drifts : state.world.Drifts may { state.world with chain } := ⟨first, .refl _⟩
      have moved : Moves outside config blocks may state (operation, ending) ⟨world, next answer⟩ :=
        .perform pending drifts performed
      exact (Run.start.next ⟨moved, checked⟩).append (ih (by rwa [perform_chain performed]) later)

namespace Sample

/-- Topics are the text of the signature, read as a number. -/
def outside : Surroundings where
  keccak256 bytes := BitVec.ofNat 256 (bytes.foldl (fun value byte => 256 * value + byte.toNat) 0)
  bytea _ := none

/-- Custody is account 201; the exchange and the oracle emit nothing. -/
def config : AppConfig := ⟨1, 201, 202, 203⟩

def deposit (transactionHash : Bytes32) : RawLog where
  address := 201
  transactionHash
  logIndex := 0
  topics := [topicHash outside "Deposited(address,uint256,uint256)", 5]
  data := Abi.word 100 ++ Abi.word 100

def deep (first : Bytes32) : Chain where
  head := 13
  hashAt number := if number = 1 then first else 1000
  frozen := 2
  reached := by decide
  buried := by decide

def early (first : Bytes32) : Chain where
  head := 1
  hashAt number := if number = 1 then first else 1000
  frozen := 0
  reached := by decide
  buried := by decide

def tables : Database := { Database.empty with indexerCursors := [⟨201, 0, none⟩] }

theorem tables_fresh : Fresh tables where
  cursors first listed second also _ := by rw [List.mem_singleton.mp listed, List.mem_singleton.mp also]
  checkpoints _ := rfl
  logs _ := rfl

end Sample

end Omniscient.Indexer

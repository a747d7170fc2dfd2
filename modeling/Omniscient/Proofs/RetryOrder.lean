import Omniscient.Lib.Reorder
import Omniscient.Proofs.Columns

/-! Whether failures reorder history. A log that fails is tried again at a later turn,
behind younger logs. Only a few pairs of changes mind: two nonces of one user, two
events of one market, and whatever inserts the row of an account. -/

namespace Omniscient.Indexer
open Outcome Reorder

def Alone (outside : Surroundings) (config : AppConfig) (blocks : Bytes32 → List RawLog) (state : State) (record : Record)
    (after : State) : Prop :=
  Recorded outside config blocks Fixed state record after ∧ record.before = state.world.db

def applyInOrder (outside : Surroundings) (db : Database) (logs : List Log) : Except String Database :=
  each (fun db log => indexLog outside log.address log db) db logs

/-- Changes that leave something else when they are made in the other order. -/
def Change.Conflicts : Change → Change → Prop
  | .nonceSet user nonce, .nonceSet other value => user = other ∧ nonce ≠ value
  | .marketMoved marketId state, .marketMoved other later => marketId = other ∧ state ≠ later
  | .marketCreated marketId row, .marketCreated other later => marketId = other ∧ row.state ≠ later.state
  | .marketCreated marketId _, .marketMoved other _ => marketId = other
  | .marketMoved marketId _, .marketCreated other _ => marketId = other
  | _, _ => False

def Change.move (user : Address) : Change → Option (Bool × Nat)
  | .moved other enters amount => if other = user then some (enters, amount) else none
  | _ => none

def moves (outside : Surroundings) (user : Address) (logs : List Log) : List (Bool × Nat) :=
  logs.filterMap fun log => (change outside log).move user

/-- What a move withdraws, which it adds all the same if it inserts the row. -/
def withdrawn (move : Bool × Nat) : Nat := if move.1 then 0 else move.2

/-- Logs that were taken out of their order harmlessly: no two that conflict, and the
row of an account is inserted by a move that withdraws as much as the oldest one. -/
structure InOrder (outside : Surroundings) (start : Database) (ordered taken : List Log) : Prop where
  pairs : ∀ older newer, [older, newer].Sublist ordered → [newer, older].Sublist taken →
    ¬ (change outside older).Conflicts (change outside newer)
  rows : ∀ user, start.balances (usdc user) = none →
    (moves outside user taken).head?.map withdrawn = (moves outside user ordered).head?.map withdrawn

structure SameColumns (db other : Database) : Prop where
  nonce : ∀ user, (Columns.of db).nonce user = (Columns.of other).nonce user
  available : ∀ user, (Columns.of db).available user = (Columns.of other).available user
  states : ∀ marketId, (db.markets marketId).map MarketRow.state = (other.markets marketId).map MarketRow.state

section
variable {outside : Surroundings} {columns : Columns} {logs : List Log}

def nonceStep (outside : Surroundings) (user : Address) (nonce : Int) (log : Log) : Int :=
  match change outside log with
  | .nonceSet other value => if other = user then value else nonce
  | _ => nonce

def stateStep (outside : Surroundings) (marketId : MarketId) (state : Option MarketState) (log : Log) : Option MarketState :=
  match change outside log with
  | .marketCreated other row => if other = marketId then some (state.getD row.state) else state
  | .marketMoved other later => if other = marketId then state.map fun _ => later else state
  | _ => state

theorem applied_nonce (user : Address) :
    (applied outside columns logs).nonce user = logs.foldl (nonceStep outside user) (columns.nonce user) := by
  induction logs generalizing columns with
  | nil => rfl
  | cons log logs ih =>
    have step : (Change.apply columns (change outside log)).nonce user = nonceStep outside user (columns.nonce user) log := by
      unfold nonceStep
      cases change outside log with
      | nonceSet other value => simp [Change.apply, Function.update_apply, eq_comm]
      | _ => rfl
    rw [applied, List.foldl_cons, ← applied, ih, step, List.foldl_cons]

theorem applied_state (marketId : MarketId) : ((applied outside columns logs).markets marketId).map MarketRow.state =
    logs.foldl (stateStep outside marketId) ((columns.markets marketId).map MarketRow.state) := by
  induction logs generalizing columns with
  | nil => rfl
  | cons log logs ih =>
    have step : ((Change.apply columns (change outside log)).markets marketId).map MarketRow.state =
        stateStep outside marketId ((columns.markets marketId).map MarketRow.state) log := by
      unfold stateStep
      cases change outside log with
      | marketCreated other row =>
        by_cases here : other = marketId
        · subst here
          cases present : columns.markets other <;> simp [Change.apply, present]
        · simp [Change.apply, here, Function.update_of_ne (Ne.symm here)]
      | marketMoved other later =>
        by_cases here : other = marketId
        · subst here
          cases present : columns.markets other <;> simp [Change.apply, present]
        · simp [Change.apply, here, Function.update_of_ne (Ne.symm here)]
      | _ => rfl
    rw [applied, List.foldl_cons, ← applied, ih, step, List.foldl_cons]

def moveStep (available : Option Int) (move : Bool × Nat) : Option Int :=
  some (movedAmount move.1 move.2 available)

private theorem moves_cons (user : Address) (log : Log) (logs : List Log) :
    moves outside user (log :: logs) = ((change outside log).move user).toList ++ moves outside user logs := by
  simp only [moves, List.filterMap_cons]
  cases (change outside log).move user <;> rfl

theorem applied_available (user : Address) : (applied outside columns logs).available user =
    (moves outside user logs).foldl moveStep (columns.available user) := by
  induction logs generalizing columns with
  | nil => rfl
  | cons log logs ih =>
    have step : (Change.apply columns (change outside log)).available user =
        ((change outside log).move user).toList.foldl moveStep (columns.available user) := by
      cases change outside log with
      | moved other enters amount =>
        by_cases here : other = user
        · subst here
          simp [Change.apply, Change.move, moveStep]
        · simp [Change.apply, Change.move, here, Function.update_of_ne (Ne.symm here)]
      | _ => rfl
    rw [applied, List.foldl_cons, ← applied, ih, step, moves_cons, List.foldl_append]

private theorem nonces_commute {first second : Log}
    (peaceful : ¬ (change outside first).Conflicts (change outside second))
    (user : Address) : Commutes (nonceStep outside user) first second := by
  intro nonce
  unfold nonceStep
  cases earlier : change outside first with
  | nonceSet one value =>
    cases later : change outside second with
    | nonceSet other newer =>
      rw [earlier, later, Change.Conflicts, not_and, Decidable.not_not] at peaceful
      grind
    | _ => rfl
  | _ => rfl

private theorem states_commute {first second : Log}
    (peaceful : ¬ (change outside first).Conflicts (change outside second))
    (marketId : MarketId) : Commutes (stateStep outside marketId) first second := by
  intro state
  unfold stateStep
  cases earlier : change outside first <;> cases later : change outside second <;>
    rw [earlier, later] at peaceful <;> simp only [Change.Conflicts, not_and, Decidable.not_not] at peaceful ⊢
  all_goals cases state <;> grind

def signed (move : Bool × Nat) : Int := if move.1 then move.2 else -move.2

theorem moves_some (moves : List (Bool × Nat)) (available : Int) :
    moves.foldl moveStep (some available) = some (available + (moves.map signed).sum) := by
  induction moves generalizing available with
  | nil => simp
  | cons move moves ih =>
    have step : moveStep (some available) move = some (available + signed move) := by
      unfold moveStep movedAmount signed
      dsimp only
      split <;> rfl
    rw [List.foldl_cons, step, ih, List.map_cons, List.sum_cons, add_assoc]

theorem moves_none (first : Bool × Nat) (moves : List (Bool × Nat)) :
    (first :: moves).foldl moveStep none = some (2 * withdrawn first + ((first :: moves).map signed).sum) := by
  have inserted : moveStep none first = some (2 * withdrawn first + signed first) := by
    obtain ⟨enters, amount⟩ := first
    cases enters <;> simp only [moveStep, movedAmount, withdrawn, signed] <;> simp
    omega
  rw [List.foldl_cons, inserted, moves_some, List.map_cons, List.sum_cons, add_assoc]

private theorem moves_same {taken ordered : List (Bool × Nat)} (same : taken.Perm ordered) (available : Option Int)
    (rows : available = none → taken.head?.map withdrawn = ordered.head?.map withdrawn) :
    taken.foldl moveStep available = ordered.foldl moveStep available := by
  have sums : (taken.map signed).sum = (ordered.map signed).sum := (same.map signed).sum_eq
  cases available with
  | some available => rw [moves_some, moves_some, sums]
  | none =>
    have heads := rows rfl
    cases taken with
    | nil => rw [same.nil_eq]
    | cons first taken =>
      cases ordered with
      | nil => cases same.eq_nil
      | cons oldest ordered =>
        have equal : withdrawn first = withdrawn oldest := Option.some.inj heads
        rw [moves_none, moves_none, sums, equal]

variable {config : AppConfig} {blocks : Bytes32 → List RawLog} {state after : State} {record : Record} {trace : List Record}

private theorem alone_effect (moved : Alone outside config blocks state record after)
    (forward : ∀ block, record.label.1 ≠ .transact (.rollbackUnfinalized block)) :
    Columns.of after.world.db = applied outside (Columns.of state.world.db) (record.applies outside).toList := by
  obtain ⟨recorded, found⟩ := moved
  have left : record.after = after.world.db := by
    cases recorded
    rfl
  have effect := recorded.effect forward
  rw [left, found] at effect
  cases commits : Label.commits record.label with
  | none =>
    rw [commits] at effect
    rw [Record.applies, commits]
    exact effect
  | some log =>
    cases applies : record.applies outside with
    | none =>
      have same := recorded.skips commits applies
      rw [left, found] at same
      rw [Columns.of, same.users, same.balances, same.markets]
      rfl
    | some other =>
      obtain ⟨committed, -⟩ := Option.filter_eq_some_iff.mp applies
      rwa [committed] at effect

theorem alone_recorded {start : State} (run : Run (Alone outside config blocks) start trace state) :
    Run (Recorded outside config blocks Fixed) start trace state :=
  run.mono fun _ _ _ => And.left

private theorem alone_columns {start : World}
    (canonical : ∀ number row, start.db.reorgCheckpoints number = some row → row.blockHash = start.chain.hashAt number)
    (run : Run (Alone outside config blocks) ⟨start, .done ()⟩ trace state) :
    Columns.of state.world.db = applied outside (Columns.of start.db) (trace.filterMap (Record.applies outside)) := by
  apply run.invariant fun trace state => Columns.of state.world.db =
    applied outside (Columns.of start.db) (trace.filterMap (Record.applies outside))
  · rfl
  · intro trace state record after before columns moved
    have once := @once_run outside config blocks start canonical _ _ (Recorded.labels (alone_recorded (before.next moved)))
    have forward := once.forward record.label (by simp)
    rw [alone_effect moved forward, columns, applied, applied, applied, ← List.foldl_append, List.filterMap_append]
    cases applies : record.applies outside <;> simp [applies]

private theorem applyInOrder_columns {db final : Database} {logs : List Log}
    (calm : applyInOrder outside db logs = .ok final) :
    Columns.of final = applied outside (Columns.of db) logs := by
  induction logs generalizing db with
  | nil =>
    cases calm
    rfl
  | cons log logs ih =>
    rw [applyInOrder, each_cons, bind_ok] at calm
    obtain ⟨next, once, calm⟩ := calm
    rw [ih calm, indexLog_columns once]
    rfl

/-- Failures do not reorder history: over every run on a fixed chain, whatever fails
and whenever it is retried, the nonces, balances and market states are those of the
applied logs in any order that the run keeps to, but for harmless exchanges. -/
theorem retries_keep_order {start : World}
    (canonical : ∀ number row, start.db.reorgCheckpoints number = some row → row.blockHash = start.chain.hashAt number)
    (run : Run (Alone outside config blocks) ⟨start, .done ()⟩ trace state) {ordered : List Log} (nodup : ordered.Nodup)
    (complete : ∀ log, log ∈ ordered ↔ log ∈ trace.filterMap (Record.applies outside))
    (inOrder : InOrder outside start.db ordered (trace.filterMap (Record.applies outside)))
    {final : Database} (calm : applyInOrder outside start.db ordered = .ok final) : SameColumns state.world.db final := by
  have taken := alone_columns canonical run
  have once := (applied_once canonical (alone_recorded run)).1.of_map
  have same := (List.perm_ext_iff_of_nodup once nodup).mpr fun log => (complete log).symm
  have calm := applyInOrder_columns calm
  refine ⟨fun user => ?_, fun user => ?_, fun marketId => ?_⟩
  · rw [taken, calm, applied_nonce, applied_nonce]
    exact foldl_eq same nodup (fun older newer early late => nonces_commute (inOrder.pairs older newer early late) user) _
  · rw [taken, calm, applied_available, applied_available]
    apply moves_same (same.filterMap _)
    intro absent
    exact inOrder.rows user (Option.map_eq_none_iff.mp absent)
  · have shown (db : Database) : db.markets = (Columns.of db).markets := rfl
    rw [shown, shown, taken, calm, applied_state, applied_state]
    exact foldl_eq same nodup (fun older newer early late => states_commute (inOrder.pairs older newer early late) marketId) _

end

/-- A run that can be computed: the chain stands still, and each operation ends as it is told to. -/
def recording (outside : Surroundings) (config : AppConfig) (blocks : Bytes32 → List RawLog) :
    State → List Ending → Option (List Record × State)
  | state, [] => some ([], state)
  | state, ending :: endings =>
    match state.next config.custodyAddr with
    | .done () => none
    | .perform operation next => do
      let (answer, world) ← state.world.perform outside blocks operation ending
      let (trace, final) ← recording outside config blocks ⟨world, next answer⟩ endings
      return (⟨(operation, ending), state.world.db, world.db⟩ :: trace, final)

theorem recording_runs {outside : Surroundings} {config : AppConfig} {blocks : Bytes32 → List RawLog}
    {endings : List Ending} {state final : State} {trace : List Record}
    (recorded : recording outside config blocks state endings = some (trace, final)) :
    Run (Alone outside config blocks) state trace final := by
  induction endings generalizing state trace with
  | nil =>
    cases recorded
    exact .start
  | cons ending endings ih =>
    rw [recording] at recorded
    split at recorded
    next => cases recorded
    next operation next pending =>
      simp only [Option.bind_eq_bind, Option.bind_eq_some_iff, Option.pure_def, Option.some.injEq, Prod.mk.injEq,
        Prod.exists] at recorded
      obtain ⟨answer, world, performed, rest, last, later, rfl, rfl⟩ := recorded
      have drifts : state.world.Drifts Fixed state.world := ⟨⟨⟨le_refl _, fun _ _ => rfl⟩, rfl⟩, .refl _⟩
      have moved : Alone outside config blocks state ⟨(operation, ending), state.world.db, world.db⟩ ⟨world, next answer⟩ :=
        ⟨.perform pending drifts performed, rfl⟩
      exact (Run.start.next moved).append (ih later)

namespace Sample

def recent (contract : Address) : World := ⟨{ Database.empty with indexerCursors := [⟨contract, 0, none⟩] }, early 1001⟩

def pair (first second : RawLog) (hash : Bytes32) : List RawLog := if hash = 1001 then [first, second] else []

def invalidated (transactionHash : Bytes32) (logIndex nonce : Nat) : RawLog where
  address := 202
  transactionHash
  logIndex
  topics := [topicHash outside "NonceInvalidated(address,uint256)", 5]
  data := Abi.word nonce

def retrying (contract : Address) (first second : RawLog) : Option (List Record × State) :=
  recording outside config (pair first second) ⟨recent contract, .done ()⟩
    [.succeeds, .succeeds, .succeeds, .succeeds, .fails, .succeeds, .succeeds,
      .succeeds, .succeeds, .succeeds, .succeeds, .succeeds, .succeeds]

def nextDeposit : RawLog := { deposit 72 with logIndex := 1 }

def first : Log := (invalidated 71 0 5).mined 1 1001

def second : Log := (invalidated 72 1 7).mined 1 1001

end Sample

/-- An older nonce is retried behind a newer one, and the user is left with it. -/
theorem retries_keep_order_fails : ∃ trace state final,
    Run (Alone Sample.outside Sample.config (Sample.pair (Sample.invalidated 71 0 5) (Sample.invalidated 72 1 7)))
      ⟨Sample.recent 202, .done ()⟩ trace state ∧
    (∀ log, log ∈ [Sample.first, Sample.second] ↔ log ∈ trace.filterMap (Record.applies Sample.outside)) ∧
    applyInOrder Sample.outside (Sample.recent 202).db [Sample.first, Sample.second] = .ok final ∧
    ¬ SameColumns state.world.db final := by
  have checked : ((Sample.retrying 202 (Sample.invalidated 71 0 5) (Sample.invalidated 72 1 7)).any fun result =>
      returns (applyInOrder Sample.outside (Sample.recent 202).db [Sample.first, Sample.second]) fun final =>
        decide (result.1.filterMap (Record.applies Sample.outside) = [Sample.second, Sample.first] ∧
          (Columns.of result.2.world.db).nonce 5 = 5 ∧ (Columns.of final).nonce 5 = 7)) = true := by
    decide +kernel
  obtain ⟨⟨trace, state⟩, recorded, seen⟩ := (Option.any_eq_true _ _).mp checked
  obtain ⟨final, calm, seen⟩ := returns_iff.mp seen
  obtain ⟨taken, older, newer⟩ := of_decide_eq_true seen
  refine ⟨trace, state, final, recording_runs recorded, fun log => ?_, calm, fun same => ?_⟩
  · rw [taken, List.mem_pair, List.mem_pair, or_comm]
  · have nonces := same.nonce 5
    rw [older, newer] at nonces
    cases nonces

/-- The hypotheses meet: two deposits of one account that are applied in the other order. -/
theorem retries_keep_order_sample : ∃ trace state final,
    Run (Alone Sample.outside Sample.config (Sample.pair (Sample.deposit 71) Sample.nextDeposit))
      ⟨Sample.recent 201, .done ()⟩ trace state ∧
    trace.filterMap (Record.applies Sample.outside) = [Sample.nextDeposit.mined 1 1001, (Sample.deposit 71).mined 1 1001] ∧
    SameColumns state.world.db final := by
  let ordered := [(Sample.deposit 71).mined 1 1001, Sample.nextDeposit.mined 1 1001]
  have checked : ((Sample.retrying 201 (Sample.deposit 71) Sample.nextDeposit).any fun result =>
      returns (applyInOrder Sample.outside (Sample.recent 201).db ordered) fun _ =>
        decide (result.1.filterMap (Record.applies Sample.outside) = ordered.reverse)) = true := by
    decide +kernel
  obtain ⟨⟨trace, state⟩, recorded, seen⟩ := (Option.any_eq_true _ _).mp checked
  obtain ⟨final, calm, seen⟩ := returns_iff.mp seen
  have taken := of_decide_eq_true seen
  have run := recording_runs recorded
  have deposits : ∀ log ∈ ordered, change Sample.outside log = .moved 5 true 100 := by decide +kernel
  refine ⟨trace, state, final, run, taken, retries_keep_order ?_ run (by decide) ?_ ⟨?_, ?_⟩ calm⟩
  · intro number row found
    cases found
  · intro log
    rw [taken, List.mem_reverse]
  · intro older newer inOrder _
    rw [deposits older (inOrder.subset List.mem_cons_self)]
    exact id
  · intro user _
    have moves_deposits : ∀ logs : List Log, (∀ log ∈ logs, log ∈ ordered) →
        moves Sample.outside user logs = logs.filterMap fun _ => Change.move user (.moved 5 true 100) :=
      fun logs listed => List.filterMap_congr fun log member => by rw [deposits log (listed log member)]
    rw [taken, moves_deposits _ (fun log => List.mem_reverse.mp), moves_deposits ordered fun _ => id]
    rfl

end Omniscient.Indexer

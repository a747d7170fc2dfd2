import Omniscient.Proofs.EventTables

/-! Whether a rollback undoes what was indexed from a block on. It deletes rows by
the one block number they carry, which is that of the last deposit or withdrawal in a
balance and that of the creation in a market. -/

namespace Omniscient.Indexer
open Outcome

def Tables.rollback (fromBlock : Nat) (tables : Tables) : Tables :=
  { tables with
    balances := keepRows (fun _ row => row.finalizedBlockNumber < fromBlock) tables.balances
    markets := keepRows (fun _ row => row.blockNumber < fromBlock) tables.markets }

structure Tables.Below (block : Nat) (tables : Tables) : Prop where
  balances : ∀ key row, tables.balances key = some row → row.finalizedBlockNumber < block
  markets : ∀ marketId row, tables.markets marketId = some row → row.blockNumber < block

def Event.At (block : Nat) : Event → Prop
  | .balanceMoved _ _ _ number => number = block
  | .marketCreated _ row => row.blockNumber = block
  | _ => True

def Event.account : Event → Option Address
  | .balanceMoved user _ _ _ => some user
  | _ => none

def Event.enters (user : Address) : Event → Bool
  | .balanceMoved account enters _ _ => enters && account = user
  | .nonceInvalidated account => account = user
  | _ => false

def Event.stateAfter (marketId : MarketId) (state : MarketState) : Event → MarketState
  | .marketMoved moved next => if moved = marketId then next else state
  | _ => state

section
variable {tables : Tables} {event : Event} {block : Nat}

theorem step_balance (written : event.At block) (key : BalanceKey) :
    ((event.step tables).balances key = tables.balances key ∧
      (event.account.map usdc = some key → tables.balances key = none)) ∨
    (event.account.map usdc = some key ∧
      ∃ row, (event.step tables).balances key = some row ∧ row.finalizedBlockNumber = block) := by
  cases event with
  | balanceMoved user enters amount number =>
    by_cases own : usdc user = key
    · subst own
      simp only [Event.step, Function.update_self]
      cases present : tables.balances (usdc user) with
      | some row => exact .inr ⟨rfl, _, rfl, written⟩
      | none =>
        dsimp only
        cases (if enters = true then Function.update tables.known user true else tables.known) user with
        | false => exact .inl ⟨rfl, fun _ => rfl⟩
        | true => exact .inr ⟨rfl, _, rfl, written⟩
    · refine .inl ⟨Function.update_of_ne (Ne.symm own) .., fun same => ?_⟩
      exact absurd (Option.some.inj same) own
  | nonceInvalidated user => exact .inl ⟨rfl, fun same => by cases same⟩
  | marketCreated marketId row => exact .inl ⟨rfl, fun same => by cases same⟩
  | marketMoved marketId state => exact .inl ⟨rfl, fun same => by cases same⟩
  | nothing => exact .inl ⟨rfl, fun same => by cases same⟩

theorem step_market_none (written : event.At block) {marketId : MarketId} (absent : tables.markets marketId = none) :
    (event.step tables).markets marketId = none ∨
      ∃ row, (event.step tables).markets marketId = some row ∧ row.blockNumber = block := by
  cases event with
  | marketCreated created row =>
    by_cases own : marketId = created
    · subst own
      exact .inr ⟨row, by simp [Event.step, absent], written⟩
    · exact .inl ((Function.update_of_ne own ..).trans absent)
  | marketMoved moved state =>
    by_cases own : marketId = moved
    · subst own
      exact .inl (by simp [Event.step, absent])
    · exact .inl ((Function.update_of_ne own ..).trans absent)
  | balanceMoved user enters amount number => exact .inl absent
  | nonceInvalidated user => exact .inl absent
  | nothing => exact .inl absent

theorem step_market_some {marketId : MarketId} {row : MarketRow} (present : tables.markets marketId = some row) :
    (event.step tables).markets marketId = some { row with state := event.stateAfter marketId row.state } := by
  cases event with
  | marketCreated created other =>
    by_cases own : marketId = created
    · subst own
      simp [Event.step, Event.stateAfter, present]
    · exact (Function.update_of_ne own ..).trans present
  | marketMoved moved state =>
    by_cases own : marketId = moved
    · subst own
      simp [Event.step, Event.stateAfter, present]
    · apply (Function.update_of_ne own ..).trans
      simp [Event.stateAfter, Ne.symm own, present]
  | balanceMoved user enters amount number => exact present
  | nonceInvalidated user => exact present
  | nothing => exact present

theorem step_known (user : Address) : (event.step tables).known user = (tables.known user || event.enters user) := by
  cases event with
  | balanceMoved account enters amount number =>
    cases enters with
    | false => simp [Event.step, Event.enters]
    | true =>
      by_cases own : user = account <;> simp [Event.step, Event.enters, own, Ne.symm]
  | nonceInvalidated account =>
    by_cases own : user = account <;> simp [Event.step, Event.enters, own, Ne.symm]
  | marketCreated created row => simp [Event.step, Event.enters]
  | marketMoved moved state => simp [Event.step, Event.enters]
  | nothing => simp [Event.step, Event.enters]

theorem Tables.Below.step {low : Nat} (before : tables.Below low) (written : event.At block) (old : block < low) :
    (event.step tables).Below low := by
  constructor
  · intro key row found
    rcases step_balance written key with ⟨same, -⟩ | ⟨-, row', here, number⟩
    · exact before.balances key row (same ▸ found)
    · cases here.symm.trans found
      exact number ▸ old
  · intro marketId row found
    cases present : tables.markets marketId with
    | none =>
      rcases step_market_none written present with absent | ⟨row', here, number⟩
      · cases absent.symm.trans found
      · cases here.symm.trans found
        exact number ▸ old
    | some row' =>
      cases (step_market_some present).symm.trans found
      exact before.markets marketId row' present

def Tables.Owned (tables : Tables) : Prop := ∀ user, tables.known user = false → tables.balances (usdc user) = none

theorem Tables.Owned.step (owned : tables.Owned) : (event.step tables).Owned := by
  intro user unknown
  rw [step_known, Bool.or_eq_false_iff] at unknown
  have absent := owned user unknown.1
  cases event with
  | balanceMoved account enters amount number =>
    by_cases own : user = account
    · subst own
      cases enters with
      | false => simp [Event.step, absent, unknown.1]
      | true => simp [Event.enters] at unknown
    · have other : usdc user ≠ usdc account := by simpa [usdc] using own
      exact (Function.update_of_ne other ..).trans absent
  | nonceInvalidated account => exact absent
  | marketCreated created row => exact absent
  | marketMoved moved state => exact absent
  | nothing => exact absent

end

section
variable {tables : Tables} {events : List Event} {block : Nat}

def From (block : Nat) (events : List Event) : Prop := ∀ event ∈ events, ∃ number, event.At number ∧ block ≤ number

theorem run_balance (written : From block events) (key : BalanceKey) :
    ((events.foldl Event.step tables).balances key = tables.balances key ∧
      ((∃ event ∈ events, event.account.map usdc = some key) → tables.balances key = none)) ∨
    ((∃ event ∈ events, event.account.map usdc = some key) ∧
      ∃ row, (events.foldl Event.step tables).balances key = some row ∧ block ≤ row.finalizedBlockNumber) := by
  induction events generalizing tables with
  | nil => exact .inl ⟨rfl, by simp⟩
  | cons event events ih =>
    obtain ⟨number, own, late⟩ := written event List.mem_cons_self
    have later := @ih (event.step tables) fun other member => written other (List.mem_cons_of_mem _ member)
    simp only [List.foldl_cons, List.exists_mem_cons_iff]
    rcases step_balance own key with ⟨same, untouched⟩ | ⟨moved, row, here, stamped⟩
    · rw [same] at later
      rcases later with ⟨same, untouched'⟩ | ⟨touched, row, here, stamped⟩
      · exact .inl ⟨same, Or.rec untouched untouched'⟩
      · exact .inr ⟨.inr touched, row, here, stamped⟩
    · rcases later with ⟨same, -⟩ | ⟨-, row, here, stamped⟩
      · exact .inr ⟨.inl moved, row, same.trans here, stamped ▸ late⟩
      · exact .inr ⟨.inl moved, row, here, stamped⟩

theorem run_market_some {marketId : MarketId} {row : MarketRow} (present : tables.markets marketId = some row) :
    (events.foldl Event.step tables).markets marketId =
      some { row with state := events.foldl (Event.stateAfter marketId) row.state } := by
  induction events generalizing tables row with
  | nil => exact present
  | cons event events ih => exact ih (step_market_some present)

private theorem run_market_none (written : From block events) {marketId : MarketId}
    (absent : tables.markets marketId = none) :
    (events.foldl Event.step tables).markets marketId = none ∨
      ∃ row, (events.foldl Event.step tables).markets marketId = some row ∧ block ≤ row.blockNumber := by
  induction events generalizing tables with
  | nil => exact .inl absent
  | cons event events ih =>
    obtain ⟨number, own, late⟩ := written event List.mem_cons_self
    rcases step_market_none own absent with absent | ⟨row, here, stamped⟩
    · exact ih (fun other member => written other (List.mem_cons_of_mem _ member)) absent
    · exact .inr ⟨_, @run_market_some (event.step tables) events marketId row here, stamped ▸ late⟩

private theorem run_known (user : Address) :
    (events.foldl Event.step tables).known user = (tables.known user || events.any (Event.enters user)) := by
  induction events generalizing tables with
  | nil => simp
  | cons event events ih => rw [List.foldl_cons, ih, step_known, List.any_cons, Bool.or_assoc]

private theorem run_owned (owned : tables.Owned) : (events.foldl Event.step tables).Owned := by
  induction events generalizing tables with
  | nil => exact owned
  | cons event events ih => exact ih owned.step

private theorem run_below (before : tables.Below block)
    (written : ∀ event ∈ events, ∃ number, event.At number ∧ number < block) :
    (events.foldl Event.step tables).Below block := by
  induction events generalizing tables with
  | nil => exact before
  | cons event events ih =>
    obtain ⟨number, own, old⟩ := written event List.mem_cons_self
    exact ih (before.step own old) fun other member => written other (List.mem_cons_of_mem _ member)

theorem rollback_balance (below : tables.Below block) (written : From block events) (key : BalanceKey) :
    ((events.foldl Event.step tables).rollback block).balances key = tables.balances key ↔
      ((∃ event ∈ events, event.account.map usdc = some key) → tables.balances key = none) := by
  have rolled (after : Option BalanceRow) (here : (events.foldl Event.step tables).balances key = after) :
      ((events.foldl Event.step tables).rollback block).balances key =
        after.filter fun row => row.finalizedBlockNumber < block := by rw [← here]; rfl
  rcases run_balance written key with ⟨same, untouched⟩ | ⟨touched, row, here, late⟩
  · refine ⟨fun _ => untouched, fun _ => ?_⟩
    rw [rolled _ same]
    cases present : tables.balances key with
    | none => rfl
    | some row => simpa using below.balances key row present
  · have deleted : ((events.foldl Event.step tables).rollback block).balances key = none := by
      rw [rolled _ here]
      simpa using late
    rw [deleted, eq_comm]
    exact ⟨fun absent _ => absent, fun untouched => untouched touched⟩

theorem rollback_market (below : tables.Below block) (written : From block events) (marketId : MarketId) :
    ((events.foldl Event.step tables).rollback block).markets marketId = tables.markets marketId ↔
      ∀ row, tables.markets marketId = some row → events.foldl (Event.stateAfter marketId) row.state = row.state := by
  cases present : tables.markets marketId with
  | none =>
    refine ⟨nofun, fun _ => ?_⟩
    change Option.filter _ ((events.foldl Event.step tables).markets marketId) = none
    rcases run_market_none written present with absent | ⟨row, here, late⟩
    · rw [absent]
      rfl
    · rw [here]
      simpa using late
  | some row =>
    have kept : ((events.foldl Event.step tables).rollback block).markets marketId =
        some { row with state := events.foldl (Event.stateAfter marketId) row.state } := by
      change Option.filter _ ((events.foldl Event.step tables).markets marketId) = _
      rw [run_market_some present]
      simpa using below.markets marketId row present
    rw [kept]
    constructor
    · intro same other found
      cases found
      exact congrArg MarketRow.state (Option.some.inj same)
    · intro same
      rw [same row rfl]

end

/-- What a node guarantees of the logs that it lists in chain order. -/
structure WellFormed (logs : List Log) : Prop where
  ordered : logs.Pairwise fun first second => first.blockNumber ≤ second.blockNumber
  keys : (logs.map Log.key).Nodup
  small : ∀ log ∈ logs, log.blockNumber < I64_END ∧ log.logIndex < I64_END

def below (block : Nat) (logs : List Log) : List Log := logs.filter (·.blockNumber < block)

def onward (block : Nat) (logs : List Log) : List Log := logs.filter (block ≤ ·.blockNumber)

section
variable (outside : Surroundings) (fromBlock : Nat) (logs : List Log)

def indexBelow : Database := index outside .empty (below fromBlock logs)

def rolledBack : Database := Transaction.after outside (index outside .empty logs) (.rollbackUnfinalized fromBlock)

/-- The balances and the markets are those of an index of the logs below the block. -/
def Undone : Prop :=
  (rolledBack outside fromBlock logs).balances = (indexBelow outside fromBlock logs).balances ∧
    (rolledBack outside fromBlock logs).markets = (indexBelow outside fromBlock logs).markets

/-- Whatever the canonical logs from the block on are, indexing them after the
rollback gives the balances and the markets of a new index. -/
def Reindexes : Prop :=
  ∀ later, (∀ log ∈ later, fromBlock ≤ log.blockNumber) → WellFormed (below fromBlock logs ++ later) →
    (index outside (rolledBack outside fromBlock logs) later).balances =
        (index outside .empty (below fromBlock logs ++ later)).balances ∧
      (index outside (rolledBack outside fromBlock logs) later).markets =
        (index outside .empty (below fromBlock logs ++ later)).markets

/-- No balance or market that is there at the block is changed from the block on. -/
structure Separate : Prop where
  balances : ∀ log ∈ onward fromBlock logs, ∀ user, (event outside log).account = some user →
    (indexBelow outside fromBlock logs).balances (usdc user) = none
  markets : ∀ marketId row, (indexBelow outside fromBlock logs).markets marketId = some row →
    ((onward fromBlock logs).map (event outside)).foldl (Event.stateAfter marketId) row.state = row.state

/-- No account becomes a user from the block on. -/
def NoNewUser : Prop :=
  ∀ log ∈ onward fromBlock logs, ∀ user, (event outside log).enters user = true →
    ((indexBelow outside fromBlock logs).users user).isSome

variable {outside fromBlock logs}

private theorem readers_at : ∀ entry ∈ readers outside, ∀ log : Log, (entry.2 log).At log.blockNumber := by
  have argument {size : Nat} {body : Bytes32 → Log → Event} (written : ∀ topic log, (body topic log).At log.blockNumber)
      (log : Log) : (withArgument size body log).At log.blockNumber := by
    unfold withArgument
    split
    next => exact trivial
    next topic _ =>
      split
      next => exact trivial
      next => exact written topic log
  simp only [readers, List.forall_mem_cons, List.not_mem_nil, IsEmpty.forall_iff, implies_true, and_true]
  have balance (enters : Bool) (topic : Bytes32) (log : Log) : (readBalance enters topic log).At log.blockNumber := rfl
  have nonce (topic : Bytes32) (log : Log) : (readNonce topic log).At log.blockNumber := by
    unfold readNonce
    split <;> exact trivial
  have market (topic : Bytes32) (log : Log) : (readMarket outside topic log).At log.blockNumber := by
    unfold readMarket
    split
    next => exact trivial
    next =>
      dsimp only
      split
      next => exact trivial
      next => rfl
  have state (state : MarketState) (topic : Bytes32) (log : Log) : (readState state topic log).At log.blockNumber := trivial
  exact ⟨argument (balance true), argument (balance false), argument (balance false), fun _ => trivial, fun _ => trivial,
    fun _ => trivial, argument nonce, argument market, argument (state .proposed), argument (state .disputed),
    argument (state .resolved), argument (state .resolved)⟩

theorem event_at (log : Log) : (event outside log).At log.blockNumber := by
  unfold event
  split
  next => exact trivial
  next topic _ =>
    split
    next entry found => exact readers_at entry (List.mem_of_find?_eq_some found) log
    next => exact trivial

theorem WellFormed.splits (wellFormed : WellFormed logs) : below fromBlock logs ++ onward fromBlock logs = logs := by
  obtain ⟨ordered, -, -⟩ := wellFormed
  induction logs with
  | nil => rfl
  | cons log logs ih =>
    obtain ⟨first, ordered⟩ := List.pairwise_cons.mp ordered
    by_cases old : log.blockNumber < fromBlock
    · rw [below, onward, List.filter_cons_of_pos (by simpa using old), List.filter_cons_of_neg (by simpa using old)]
      exact congrArg (log :: ·) (ih ordered)
    · -- All later logs are from the block on, too.
      have late : ∀ other ∈ log :: logs, fromBlock ≤ other.blockNumber := by
        intro other either
        rcases either with _ | ⟨_, member⟩
        · exact not_lt.mp old
        · exact (not_lt.mp old).trans (first other member)
      have nothing : below fromBlock (log :: logs) = [] :=
        List.filter_eq_nil_iff.mpr fun other member => by simpa using late other member
      have everything : onward fromBlock (log :: logs) = log :: logs :=
        List.filter_eq_self.mpr fun other member => by simpa using late other member
      rw [nothing, everything, List.nil_append]

theorem WellFormed.tables (wellFormed : WellFormed logs) :
    Tables.of (index outside .empty logs) = (logs.map (event outside)).foldl Event.step (Tables.of .empty) :=
  index_tables wellFormed.keys wellFormed.small fun _ _ => rfl

theorem WellFormed.below (wellFormed : WellFormed logs) : WellFormed (below fromBlock logs) where
  ordered := wellFormed.ordered.filter _
  keys := wellFormed.keys.sublist (List.filter_sublist.map _)
  small log member := wellFormed.small log (List.mem_of_mem_filter member)

private theorem WellFormed.split_tables (wellFormed : WellFormed logs) : Tables.of (index outside .empty logs) =
    ((onward fromBlock logs).map (event outside)).foldl Event.step (Tables.of (indexBelow outside fromBlock logs)) := by
  rw [indexBelow, wellFormed.below.tables, ← List.foldl_append, ← List.map_append, wellFormed.splits, wellFormed.tables]

private theorem below_all (small : ∀ log ∈ logs, log.blockNumber < I64_END ∧ log.logIndex < I64_END)
    (beyond : I64_END ≤ fromBlock) :
    below fromBlock logs = logs :=
  List.filter_eq_self.mpr fun log member => decide_eq_true ((small log member).1.trans_le beyond)

theorem Tables.Below.rollback {tables : Tables} {block : Nat} (below : tables.Below block) : tables.rollback block = tables := by
  have balances : keepRows (fun _ row => decide (row.finalizedBlockNumber < block)) tables.balances = tables.balances := by
    funext key
    cases present : tables.balances key with
    | none => simp [keepRows, present]
    | some row => simpa [keepRows, present] using below.balances key row present
  have markets : keepRows (fun _ row => decide (row.blockNumber < block)) tables.markets = tables.markets := by
    funext marketId
    cases present : tables.markets marketId with
    | none => simp [keepRows, present]
    | some row => simpa [keepRows, present] using below.markets marketId row present
  rw [Tables.rollback, balances, markets]

variable (outside fromBlock)

theorem indexBelow_below (wellFormed : WellFormed logs) :
    (Tables.of (indexBelow outside fromBlock logs)).Below fromBlock := by
  rw [indexBelow, wellFormed.below.tables]
  refine run_below ⟨nofun, nofun⟩ fun event member => ?_
  obtain ⟨log, listed, rfl⟩ := List.mem_map.mp member
  exact ⟨log.blockNumber, event_at log, by simpa using (List.mem_filter.mp listed).2⟩

variable (logs)

private theorem onward_from : From fromBlock ((onward fromBlock logs).map (event outside)) := by
  intro event member
  obtain ⟨log, listed, rfl⟩ := List.mem_map.mp member
  exact ⟨log.blockNumber, event_at log, by simpa using (List.mem_filter.mp listed).2⟩

theorem rolledBack_inRange (inRange : fromBlock < I64_END) : rolledBack outside fromBlock logs =
    let db := index outside .empty logs
    { db with
      reorgCheckpoints := keepRows (fun number row => number < fromBlock || row.isFinalized) db.reorgCheckpoints
      indexedLogs := keepRows (fun _ row => row.blockNumber < fromBlock) db.indexedLogs
      balances := keepRows (fun _ row => row.finalizedBlockNumber < fromBlock) db.balances
      markets := keepRows (fun _ row => row.blockNumber < fromBlock) db.markets } := by
  have noOrders : (index outside .empty logs).orders = [] := List.length_eq_zero_iff.mp (index_orders logs .empty)
  unfold rolledBack Transaction.after Transaction.run
  simp only [rollbackUnfinalized, revertIf, if_neg (not_le.mpr inRange), noOrders, List.any_nil, Bool.false_eq_true,
    if_false]
  rfl

theorem rolledBack_beyond (beyond : I64_END ≤ fromBlock) : rolledBack outside fromBlock logs = index outside .empty logs := by
  unfold rolledBack Transaction.after Transaction.run
  simp only [rollbackUnfinalized, revertIf, if_pos beyond]
  rfl

variable {logs}

theorem rolledBack_tables (wellFormed : WellFormed logs) : Tables.of (rolledBack outside fromBlock logs) =
    (((onward fromBlock logs).map (event outside)).foldl Event.step
      (Tables.of (indexBelow outside fromBlock logs))).rollback fromBlock := by
  rw [← wellFormed.split_tables]
  rcases Nat.lt_or_ge fromBlock I64_END with inRange | beyond
  · rw [rolledBack_inRange outside fromBlock logs inRange]
    rfl
  · have all := indexBelow_below outside fromBlock wellFormed
    rw [indexBelow, below_all wellFormed.small beyond] at all
    rw [all.rollback, rolledBack_beyond outside fromBlock logs beyond]

private theorem rolledBack_marks (wellFormed : WellFormed logs) {key : Bytes32 × Nat} {row : IndexedLogRow}
    (marked : (rolledBack outside fromBlock logs).indexedLogs key = some row) :
    ∃ log ∈ below fromBlock logs, key = log.key := by
  have old : (index outside .empty logs).indexedLogs key = some row ∧ (fromBlock < I64_END → row.blockNumber < fromBlock) := by
    rcases Nat.lt_or_ge fromBlock I64_END with inRange | beyond
    · rw [rolledBack_inRange outside fromBlock logs inRange] at marked
      obtain ⟨found, kept⟩ := Option.filter_eq_some_iff.mp marked
      exact ⟨found, fun _ => of_decide_eq_true kept⟩
    · rw [rolledBack_beyond outside fromBlock logs beyond] at marked
      exact ⟨marked, fun inRange => absurd beyond (not_le.mpr inRange)⟩
  rcases index_marks old.1 with absent | ⟨log, member, own, number⟩
  · cases absent
  · refine ⟨log, List.mem_filter.mpr ⟨member, decide_eq_true ?_⟩, own⟩
    have small := (wellFormed.small log member).1
    have kept := old.2
    omega

theorem undone_iff (wellFormed : WellFormed logs) : Undone outside fromBlock logs ↔ Separate outside fromBlock logs := by
  have base := indexBelow_below outside fromBlock wellFormed
  have written := onward_from outside fromBlock logs
  have rolled := rolledBack_tables outside fromBlock wellFormed
  have balance (key : BalanceKey) : (rolledBack outside fromBlock logs).balances key = _ :=
    congrFun (congrArg Tables.balances rolled) key
  have market (marketId : MarketId) : (rolledBack outside fromBlock logs).markets marketId = _ :=
    congrFun (congrArg Tables.markets rolled) marketId
  constructor
  · intro holds
    obtain ⟨balances, markets⟩ := holds
    constructor
    · intro log member user moved
      have same := (balance (usdc user)).symm.trans (congrFun balances (usdc user))
      exact (rollback_balance base written (usdc user)).mp same
        ⟨event outside log, List.mem_map_of_mem member, congrArg (Option.map usdc) moved⟩
    · intro marketId
      have same := (market marketId).symm.trans (congrFun markets marketId)
      exact (rollback_market base written marketId).mp same
  · intro holds
    obtain ⟨balances, markets⟩ := holds
    constructor
    · funext key
      refine (balance key).trans ((rollback_balance base written key).mpr ?_)
      intro holds
      obtain ⟨moved, member, own⟩ := holds
      obtain ⟨log, listed, rfl⟩ := List.mem_map.mp member
      obtain ⟨user, account, rfl⟩ := Option.map_eq_some_iff.mp own
      exact balances log listed user account
    · funext marketId
      exact (market marketId).trans ((rollback_market base written marketId).mpr (markets marketId))

theorem reindex_tables (wellFormed : WellFormed logs) {later : List Log}
    (continued : WellFormed (below fromBlock logs ++ later)) :
    Tables.of (index outside (rolledBack outside fromBlock logs) later) =
        (later.map (event outside)).foldl Event.step (Tables.of (rolledBack outside fromBlock logs)) ∧
      Tables.of (index outside .empty (below fromBlock logs ++ later)) =
        (later.map (event outside)).foldl Event.step (Tables.of (indexBelow outside fromBlock logs)) := by
  obtain ⟨-, laterKeys, different⟩ := List.nodup_append.mp (List.map_append ▸ continued.keys)
  constructor
  · refine index_tables laterKeys (fun log member => continued.small log (List.mem_append_right _ member)) ?_
    intro log member
    cases marked : (rolledBack outside fromBlock logs).indexedLogs log.key with
    | none => rfl
    | some row =>
      obtain ⟨old, listed, same⟩ := rolledBack_marks outside fromBlock wellFormed marked
      exact absurd same.symm (different _ (List.mem_map_of_mem listed) _ (List.mem_map_of_mem member))
  · rw [continued.tables, List.map_append, List.foldl_append, indexBelow, wellFormed.below.tables]

/-- The rolled back tables are those of the index below the block, but for the users. -/
theorem Undone.tables (undone : Undone outside fromBlock logs) : Tables.of (rolledBack outside fromBlock logs) =
    { Tables.of (indexBelow outside fromBlock logs) with known := (Tables.of (rolledBack outside fromBlock logs)).known } := by
  obtain ⟨balances, markets⟩ := undone
  simp only [Tables.of, balances, markets]

theorem rolledBack_known (wellFormed : WellFormed logs) (user : Address) :
    (Tables.of (rolledBack outside fromBlock logs)).known user =
      ((Tables.of (indexBelow outside fromBlock logs)).known user ||
        ((onward fromBlock logs).map (event outside)).any (Event.enters user)) := by
  rw [rolledBack_tables outside fromBlock wellFormed]
  exact run_known user

def withdrawalAt (log : Log) (user : Address) : Log :=
  { log with
    topics := [topicHash outside "Withdrawn(address,uint256,uint256)", user.setWidth 256]
    data := List.replicate 64 0 }

private theorem withdrawalAt_event (distinct : topicHash outside "Deposited(address,uint256,uint256)" ≠
    topicHash outside "Withdrawn(address,uint256,uint256)") (log : Log) (user : Address) :
    ∃ amount, event outside (withdrawalAt outside log user) = .balanceMoved user false amount log.blockNumber := by
  have found : (readers outside).find? (fun entry =>
      topicHash outside "Withdrawn(address,uint256,uint256)" = topicHash outside entry.1) =
        some ("Withdrawn(address,uint256,uint256)", withArgument 64 (readBalance false)) := by
    rw [readers, List.find?_cons_of_neg (by simpa using distinct.symm), List.find?_cons_of_pos (by simp)]
  have own : topicAddress (user.setWidth 256) = user := by
    simp [topicAddress]
  refine ⟨wordAt (List.replicate 64 0) 0, ?_⟩
  simp only [event, withdrawalAt, List.head?_cons, found, withArgument, List.getElem?_cons_succ, List.getElem?_cons_zero,
    List.length_replicate, lt_irrefl, if_false, readBalance, own]

private theorem continued_wellFormed (wellFormed : WellFormed logs) {log : Log} (member : log ∈ onward fromBlock logs)
    (user : Address) :
    WellFormed (below fromBlock logs ++ [withdrawalAt outside log user]) := by
  obtain ⟨listed, late⟩ := List.mem_filter.mp member
  have old (other : Log) (there : other ∈ below fromBlock logs) : other.blockNumber < fromBlock := by
    simpa using (List.mem_filter.mp there).2
  constructor
  · rw [List.pairwise_append]
    refine ⟨wellFormed.below.ordered, List.pairwise_singleton .., fun first there second place => ?_⟩
    rw [List.mem_singleton.mp place]
    exact (old first there).le.trans (of_decide_eq_true late)
  · have keys := wellFormed.keys
    rw [← wellFormed.splits, List.map_append, List.nodup_append] at keys
    obtain ⟨first, -, different⟩ := keys
    rw [List.map_append, List.nodup_append]
    refine ⟨first, List.nodup_singleton _, fun key there second place => ?_⟩
    rw [List.mem_singleton.mp place]
    exact different key there log.key (List.mem_map_of_mem member)
  · intro other place
    rcases List.mem_append.mp place with there | place
    · exact wellFormed.below.small other there
    · rw [List.mem_singleton.mp place]
      exact wellFormed.small log listed

/-- Re-indexing gives the state of a new index, whatever the canonical logs are, if
and only if the rollback undoes the indexing and there are no new users. -/
private theorem reindexes_iff (wellFormed : WellFormed logs)
    (distinct : topicHash outside "Deposited(address,uint256,uint256)" ≠
      topicHash outside "Withdrawn(address,uint256,uint256)") :
    Reindexes outside fromBlock logs ↔ Separate outside fromBlock logs ∧ NoNewUser outside fromBlock logs := by
  rw [← undone_iff outside fromBlock wellFormed]
  constructor
  · intro reindexes
    have undone : Undone outside fromBlock logs := by
      have same := reindexes [] (by simp) (by simpa using wellFormed.below)
      rwa [List.append_nil] at same
    refine ⟨undone, fun log member user enters => ?_⟩
    by_contra unknown
    have stranger : (Tables.of (indexBelow outside fromBlock logs)).known user = false := by simpa [Tables.of] using unknown
    have entered : (Tables.of (rolledBack outside fromBlock logs)).known user = true := by
      rw [rolledBack_known outside fromBlock wellFormed user]
      have any : ((onward fromBlock logs).map (event outside)).any (Event.enters user) = true :=
        List.any_eq_true.mpr ⟨_, List.mem_map_of_mem member, enters⟩
      rw [any, Bool.or_true]
    have absent : (Tables.of (indexBelow outside fromBlock logs)).balances (usdc user) = none := by
      rw [indexBelow, wellFormed.below.tables] at stranger ⊢
      exact run_owned (fun _ _ => rfl) user stranger
    -- The canonical chain may have a withdrawal of the account there, which a new index refuses.
    have late : ∀ other ∈ [withdrawalAt outside log user], fromBlock ≤ other.blockNumber := by
      intro other place
      rw [List.mem_singleton.mp place]
      exact of_decide_eq_true (List.mem_filter.mp member).2
    have continued := continued_wellFormed outside fromBlock wellFormed member user
    obtain ⟨same, -⟩ := reindexes [withdrawalAt outside log user] late continued
    obtain ⟨again, new⟩ := reindex_tables outside fromBlock wellFormed continued
    obtain ⟨amount, withdraws⟩ := withdrawalAt_event outside distinct log user
    have same := congrFun (((congrArg Tables.balances again).symm.trans same).trans (congrArg Tables.balances new)) (usdc user)
    rw [undone.tables] at same
    simp [withdraws, Event.step, stranger, entered, absent] at same
  · rintro ⟨undone, noNewUser⟩ later _ continued
    have known : (Tables.of (rolledBack outside fromBlock logs)).known = (Tables.of (indexBelow outside fromBlock logs)).known := by
      funext user
      rw [rolledBack_known outside fromBlock wellFormed user]
      cases entered : ((onward fromBlock logs).map (event outside)).any (Event.enters user) with
      | false => rw [Bool.or_false]
      | true =>
        obtain ⟨entering, member, enters⟩ := List.any_eq_true.mp entered
        obtain ⟨log, listed, rfl⟩ := List.mem_map.mp member
        have isUser : (Tables.of (indexBelow outside fromBlock logs)).known user = true := noNewUser log listed user enters
        rw [isUser, Bool.true_or]
    have same : Tables.of (rolledBack outside fromBlock logs) = Tables.of (indexBelow outside fromBlock logs) := by
      rw [undone.tables, known]
    obtain ⟨again, new⟩ := reindex_tables outside fromBlock wellFormed continued
    rw [same, ← new] at again
    exact ⟨congrArg Tables.balances again, congrArg Tables.markets again⟩

/-- A rollback undoes the indexing exactly where what was there below the block is
not changed from the block on. For every possible continuation there must also be no
new users, whom it does not delete. -/
theorem rollback_undoes (wellFormed : WellFormed logs)
    (distinct : topicHash outside "Deposited(address,uint256,uint256)" ≠
      topicHash outside "Withdrawn(address,uint256,uint256)") :
    (Undone outside fromBlock logs ↔ Separate outside fromBlock logs) ∧
      (Reindexes outside fromBlock logs ↔ Separate outside fromBlock logs ∧ NoNewUser outside fromBlock logs) :=
  ⟨undone_iff outside fromBlock wellFormed, reindexes_iff outside fromBlock wellFormed distinct⟩

end

namespace Sample

/-- Account 5 deposits in block 1, and an account in block 2. -/
def deposits (account : Bytes32) : List Log :=
  [ (deposit 71).mined 1 1001,
    { (deposit 72).mined 2 1002 with topics := [topicHash outside "Deposited(address,uint256,uint256)", account] } ]

theorem deposits_wellFormed (account : Bytes32) : WellFormed (deposits account) where
  ordered := by simp [deposits, RawLog.mined]
  keys := by simp [deposits, RawLog.mined, Log.key, deposit]
  small log member := by
    rcases List.mem_cons.mp member with rfl | member
    · exact ⟨by decide, by decide⟩
    · rw [List.mem_singleton.mp member]
      simp [RawLog.mined, deposit, I64_END]

end Sample

/-- An account that deposits on both sides of the block loses its balance. -/
theorem rollback_undoes_fails : ∃ fromBlock logs, WellFormed logs ∧ ¬ Undone Sample.outside fromBlock logs := by
  refine ⟨2, Sample.deposits 5, Sample.deposits_wellFormed 5, fun undone => ?_⟩
  have lost : (rolledBack Sample.outside 2 (Sample.deposits 5)).balances (usdc 5) = none := by decide +kernel
  have there : (indexBelow Sample.outside 2 (Sample.deposits 5)).balances (usdc 5) = some ⟨100, 0, 1⟩ := by decide +kernel
  rw [undone.1, there] at lost
  cases lost

/-- Two accounts that each deposit on one side are separate. -/
theorem rollback_undoes_sample : Undone Sample.outside 2 (Sample.deposits 6) := by
  have distinct : topicHash Sample.outside "Deposited(address,uint256,uint256)" ≠
      topicHash Sample.outside "Withdrawn(address,uint256,uint256)" := by decide +kernel
  refine (rollback_undoes Sample.outside 2 (Sample.deposits_wellFormed 6) distinct).1.mpr ⟨?_, ?_⟩
  · intro log member user moved
    have account : ∀ log ∈ onward 2 (Sample.deposits 6), (event Sample.outside log).account = some 6 := by decide +kernel
    cases (account log member).symm.trans moved
    decide +kernel
  · intro marketId row found
    cases found

end Omniscient.Indexer

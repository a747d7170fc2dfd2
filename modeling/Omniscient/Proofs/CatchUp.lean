import Omniscient.Proofs.LostEvents

/-! Progress of the indexer where nothing goes wrong: each turn takes every cursor 51
blocks further, up to the depth of finality, and leaves no handled log behind that
the database takes. -/

namespace Omniscient.Indexer

/-- How an operation ends while nothing goes wrong: a transaction fails only if one of
its statements does. -/
def World.ending (outside : Surroundings) (world : World) : Operation → Ending
  | .transact transaction =>
    match transaction.run outside world.db with
    | .ok _ => .succeeds
    | .error _ => .fails
  | _ => .succeeds

def World.calmly (outside : Surroundings) (blocks : Bytes32 → List RawLog) (world : World) :
    (operation : Operation) → operation.Answer × World
  | .getBlockNumber => (some world.chain.head, world)
  | .selectCursors => (some (world.db.indexerCursors.map fun row => (row.contractAddress, row.lastFinalizedBlock)), world)
  | .getLogs contract first last => (some (world.chain.getLogs blocks contract first last), world)
  | .selectIndexed log => (some (world.db.indexedLogs log.key).isSome, world)
  | .getBlock number => (world.chain.getBlock number, world)
  | .selectCheckpoint number => (some ((world.db.reorgCheckpoints number).map CheckpointRow.blockHash), world)
  | .transact transaction =>
    match transaction.run outside world.db with
    | .ok db => (true, { world with db })
    | .error _ => (false, world)
  | .reconcile _ => ((), world)

def calmly (outside : Surroundings) (blocks : Bytes32 → List RawLog) (history : History) (operation : Operation) :
    operation.Answer × History :=
  let (answer, world) := history.2.calmly outside blocks operation
  (answer, history.1 ++ [(operation, history.2.ending outside operation)], world)

def calmTurn (outside : Surroundings) (config : AppConfig) (blocks : Bytes32 → List RawLog) (history : History) : History :=
  ((poll config.custodyAddr).exec (calmly outside blocks) history).2

section
variable {outside : Surroundings} {config : AppConfig} {blocks : Bytes32 → List RawLog}

theorem World.calmly_performs (world : World) (operation : Operation) :
    world.perform outside blocks operation (world.ending outside operation) = some (world.calmly outside blocks operation) := by
  cases operation with
  | transact transaction =>
    cases ran : transaction.run outside world.db with
    | ok db => simp [World.ending, World.calmly, World.perform, ran]
    | error error => simp [World.ending, World.calmly, World.perform, ran]
  | _ => rfl

private theorem exec_runs {program : Effect Unit} (history : History) (fixed : ∀ chain : Chain, Fixed chain chain)
    {start : State} (before : Run (Moves outside config blocks Fixed) start history.1 ⟨history.2, program⟩) :
    Run (Moves outside config blocks Fixed) start (program.exec (calmly outside blocks) history).2.1
      ⟨(program.exec (calmly outside blocks) history).2.2, .done ()⟩ := by
  induction program generalizing history with
  | done value => exact before
  | perform operation next ih =>
    refine ih _ _ (before.next ?_)
    exact .perform rfl ⟨fixed _, .refl _⟩ (World.calmly_performs history.2 operation)

theorem Fixed.refl (chain : Chain) : Fixed chain chain := ⟨.refl _, rfl⟩

private theorem calmTurn_runs {history : History} {start : State}
    (before : Run (Moves outside config blocks Fixed) start history.1 ⟨history.2, .done ()⟩) :
    Run (Moves outside config blocks Fixed) start (calmTurn outside config blocks history).1
      ⟨(calmTurn outside config blocks history).2, .done ()⟩ := by
  have asked := before.next (.perform rfl ⟨Fixed.refl _, .refl _⟩ (World.calmly_performs history.2 .getBlockNumber))
  exact exec_runs (calmly outside blocks history .getBlockNumber).2 Fixed.refl asked

/-- The chain is as it was, and every checkpoint has the hash of its block. -/
structure Undisturbed (origin : Chain) (world : World) : Prop where
  chain : world.chain = origin
  checkpoints : ∀ number row, world.db.reorgCheckpoints number = some row → row.blockHash = origin.hashAt number

structure Onward (before after : History) : Prop where
  trace : before.1 <+: after.1
  marks : ∀ key, (before.2.db.indexedLogs key).isSome → (after.2.db.indexedLogs key).isSome

theorem Onward.refl (history : History) : Onward history history := ⟨List.prefix_refl _, fun _ => id⟩

theorem Onward.trans {first second third : History} (start : Onward first second) (next : Onward second third) :
    Onward first third := ⟨start.trace.trans next.trace, fun key marked => next.marks key (start.marks key marked)⟩

def Dealt (outside : Surroundings) (contract : Address) (history : History) (log : Log) : Prop :=
  log.logIndex < I64_END → Handled outside log →
    (history.2.db.indexedLogs log.key).isSome ∨ (.transact (.indexLog contract log), .fails) ∈ history.1

theorem Dealt.onward {contract : Address} {before after : History} {log : Log} (dealt : Dealt outside contract before log)
    (onward : Onward before after) : Dealt outside contract after log := fun small handled =>
  (dealt small handled).imp (onward.marks log.key) fun failed => onward.trace.subset failed

def positions (db : Database) : List (Address × Nat) :=
  db.indexerCursors.map fun row => (row.contractAddress, row.lastFinalizedBlock)

structure Calm (origin : Chain) (move : Address × Nat → Address × Nat) (before after : History) : Prop where
  undisturbed : Undisturbed origin after.2
  onward : Onward before after
  positions : positions after.2.db = (positions before.2.db).map move

theorem Calm.refl {origin : Chain} {history : History} (undisturbed : Undisturbed origin history.2) :
    Calm origin id history history := ⟨undisturbed, .refl _, (List.map_id _).symm⟩

theorem Calm.trans {origin : Chain} {move next : Address × Nat → Address × Nat} {first second third : History}
    (start : Calm origin move first second) (rest : Calm origin next second third) : Calm origin (next ∘ move) first third := by
  refine ⟨rest.undisturbed, start.onward.trans rest.onward, ?_⟩
  rw [rest.positions, start.positions, List.map_map]

variable {origin : Chain} {contract : Address}

structure Leads (outside : Surroundings) (blocks : Bytes32 → List RawLog) (origin : Chain) (program : Effect Unit)
    (move : Address × Nat → Address × Nat) (post : History → Prop) (history : History) : Prop where
  calm : Calm origin move history (program.exec (calmly outside blocks) history).2
  post : post (program.exec (calmly outside blocks) history).2

theorem Leads.done {post : History → Prop} {history : History} (undisturbed : Undisturbed origin history.2)
    (now : post history) : Leads outside blocks origin (pure ()) id post history := ⟨.refl undisturbed, now⟩

theorem Leads.seq {first second : Effect Unit} {move next : Address × Nat → Address × Nat} {middle post : History → Prop}
    {history : History} (start : Leads outside blocks origin first move middle history)
    (rest : ∀ later, Calm origin move history later → middle later → Leads outside blocks origin second next post later) :
    Leads outside blocks origin (first >>= fun _ => second) (next ∘ move) post history := by
  have split : (first >>= fun _ => second).exec (calmly outside blocks) history =
      second.exec (calmly outside blocks) (first.exec (calmly outside blocks) history).2 := Program.exec_bind ..
  have later := rest _ start.calm start.post
  exact ⟨split ▸ start.calm.trans later.calm, split ▸ later.post⟩

theorem Leads.query {operation : Operation} {answer : operation.Answer} {next : operation.Answer → Effect Unit}
    {move : Address × Nat → Address × Nat} {post : History → Prop} {history : History}
    (undisturbed : Undisturbed origin history.2)
    (answers : history.2.calmly outside blocks operation = (answer, history.2))
    (rest : ∀ later, Calm origin id history later → later.2 = history.2 →
      Leads outside blocks origin (next answer) move post later) :
    Leads outside blocks origin (request operation >>= next) move post history := by
  let asked : History := (history.1 ++ [(operation, history.2.ending outside operation)], history.2)
  have performed : calmly outside blocks history operation = (answer, asked) := by simp [calmly, answers, asked]
  have split : (request operation >>= next).exec (calmly outside blocks) history =
      (next answer).exec (calmly outside blocks) asked := by
    rw [request, Program.exec_bind, Program.exec_request, performed]
  have calm : Calm origin id history asked :=
    ⟨undisturbed, ⟨List.prefix_append _ _, fun _ => id⟩, (List.map_id _).symm⟩
  have later := rest asked calm rfl
  exact ⟨split ▸ calm.trans later.calm, split ▸ later.post⟩

theorem Leads.transact {transaction : Transaction} {next : Bool → Effect Unit} {db : Database}
    {move after : Address × Nat → Address × Nat} {post : History → Prop} {history : History}
    (undisturbed : Undisturbed origin history.2) (ran : transaction.run outside history.2.db = .ok db)
    (checkpoints : ∀ number row, db.reorgCheckpoints number = some row → row.blockHash = origin.hashAt number)
    (marks : ∀ key, (history.2.db.indexedLogs key).isSome → (db.indexedLogs key).isSome)
    (moved : positions db = (positions history.2.db).map move)
    (rest : ∀ later, Calm origin move history later → later.2.db = db →
      Leads outside blocks origin (next true) after post later) :
    Leads outside blocks origin (request (.transact transaction) >>= next) (after ∘ move) post history := by
  let done : History := (history.1 ++ [(.transact transaction, .succeeds)], { history.2 with db })
  have performed : calmly outside blocks history (.transact transaction) = (true, done) := by
    simp [calmly, World.calmly, World.ending, ran, done]
  have split : (request (.transact transaction) >>= next).exec (calmly outside blocks) history =
      (next true).exec (calmly outside blocks) done := by
    rw [request, Program.exec_bind, Program.exec_request, performed]
  have calm : Calm origin move history done :=
    ⟨⟨undisturbed.chain, checkpoints⟩, ⟨List.prefix_append _ _, marks⟩, moved⟩
  have later := rest done calm rfl
  exact ⟨split ▸ calm.trans later.calm, split ▸ later.post⟩

theorem Leads.refused {transaction : Transaction} {next : Bool → Effect Unit} {error : String}
    {move : Address × Nat → Address × Nat} {post : History → Prop} {history : History}
    (undisturbed : Undisturbed origin history.2) (ran : transaction.run outside history.2.db = .error error)
    (rest : ∀ later, Calm origin id history later → (.transact transaction, .fails) ∈ later.1 →
      Leads outside blocks origin (next false) move post later) :
    Leads outside blocks origin (request (.transact transaction) >>= next) move post history := by
  let done : History := (history.1 ++ [(.transact transaction, .fails)], history.2)
  have performed : calmly outside blocks history (.transact transaction) = (false, done) := by
    simp [calmly, World.calmly, World.ending, ran, done]
  have split : (request (.transact transaction) >>= next).exec (calmly outside blocks) history =
      (next false).exec (calmly outside blocks) done := by
    rw [request, Program.exec_bind, Program.exec_request, performed]
  have calm : Calm origin id history done :=
    ⟨undisturbed, ⟨List.prefix_append _ _, fun _ => id⟩, (List.map_id _).symm⟩
  have later := rest done calm (List.mem_append_right _ (List.mem_singleton.mpr rfl))
  exact ⟨split ▸ calm.trans later.calm, split ▸ later.post⟩

private theorem processLog_leads {log : Log} {history : History} (undisturbed : Undisturbed origin history.2)
    (mined : log ∈ logsAt blocks origin.hashAt log.blockNumber) :
    Leads outside blocks origin (processLog contract log) id (Dealt outside contract · log) history := by
  unfold processLog
  split
  next large => exact .done undisturbed fun small => absurd small (not_lt.mpr large)
  next =>
    refine .query undisturbed rfl fun looked calm same => ?_
    have undisturbed := calm.undisturbed
    cases marked : (history.2.db.indexedLogs log.key).isSome with
    | true => exact .done undisturbed fun _ _ => .inl (same ▸ marked)
    | false =>
      cases ran : indexLog outside contract log looked.2.db with
      | error error =>
        exact .refused undisturbed ran fun later calm failed => .done calm.undisturbed fun _ _ => .inr failed
      | ok db =>
        have effect := indexLog_ok ran
        have taken : (Transaction.indexLog contract log).run outside looked.2.db = .ok db := ran
        have recorded : Leads outside blocks origin (request (.transact (.indexLog contract log)) >>= fun _ => pure ())
            (id ∘ id) (Dealt outside contract · log) looked := by
          refine .transact undisturbed taken (effect.canonical (mined_hash mined) undisturbed.checkpoints)
            (fun key => effect.keepsMark) ?_ fun later calm same => .done calm.undisturbed fun _ handled => .inl ?_
          · rw [positions, effect.cursors, List.map_id]
            rfl
          · exact same ▸ effect.mark handled
        exact recorded

def moveTo (contract : Address) (block : Nat) (position : Address × Nat) : Address × Nat :=
  if position.1 = contract then (position.1, block) else position

private theorem positions_finalize (contract : Address) (block : Nat) (hash : Bytes32) (db : Database) :
    positions (finalize contract block hash db) = (positions db).map (moveTo contract block) := by
  rw [positions, positions, finalize, List.map_map, List.map_map]
  apply List.map_congr_left
  intro row _
  dsimp only [Function.comp, moveTo]
  split <;> rfl

private theorem finalizeBlock_leads {custodyAddr : Address} {block : Nat} {history : History}
    (undisturbed : Undisturbed origin history.2) (below : block ≤ origin.head) (small : block < I64_END) :
    Leads outside blocks origin (finalizeBlock custodyAddr contract block) (moveTo contract block) (fun _ => True)
      history := by
  unfold finalizeBlock
  have canonical : history.2.chain.getBlock block = some (origin.hashAt block) := by
    rw [undisturbed.chain, Chain.getBlock, if_pos below]
  refine .query undisturbed (congrArg (·, history.2) canonical) fun found calm _ => ?_
  dsimp only
  rw [if_neg (not_le.mpr small)]
  refine .query calm.undisturbed rfl fun selected calm same => ?_
  have undisturbed := calm.undisturbed
  have agrees : ¬ ((found.2.db.reorgCheckpoints block).map CheckpointRow.blockHash).any (· ≠ origin.hashAt block) = true := by
    rw [← same]
    cases stored : selected.2.db.reorgCheckpoints block with
    | none => simp
    | some row => simp [undisturbed.checkpoints block row stored]
  dsimp only
  rw [if_neg agrees]
  have moved : Leads outside blocks origin (request (.transact (.finalize contract block (origin.hashAt block))) >>=
      fun committed => if committed = true ∧ contract = custodyAddr then request (.reconcile block) else pure ())
      (id ∘ moveTo contract block) (fun _ => True) selected := by
    refine .transact undisturbed rfl (fun number row stored => ?_) (fun _ => id) (positions_finalize ..)
      fun later calm _ => ?_
    · obtain ⟨old, before, hash⟩ := finalize_checkpoint stored
      exact hash.trans (undisturbed.checkpoints number old before)
    · have posted : Leads outside blocks origin (request (.reconcile block) >>= fun _ => pure ()) id (fun _ => True) later :=
        .query calm.undisturbed rfl fun _ calm _ => .done calm.undisturbed trivial
      split
      next => exact posted
      next => exact .done calm.undisturbed trivial
  exact moved

private theorem range'_filter_le (start count last : Nat) :
    (List.range' start count).filter (· ≤ last) = List.range' start (min count (last + 1 - start)) := by
  induction count generalizing start with
  | zero => simp
  | succ count ih =>
    rw [List.range'_succ, List.filter_cons, ih]
    by_cases inside : start ≤ last
    · rw [if_pos (decide_eq_true inside), ← List.range'_succ]
      congr 1
      omega
    · rw [if_neg (by simpa using inside)]
      rw [show min (count + 1) (last + 1 - start) = 0 by omega, show min count (last + 1 - (start + 1)) = 0 by omega]
      rfl

private theorem finalizes_last {start last currentBlock : Nat} (positive : 0 < start) :
    ((List.range' start (last + 1 - start)).filter fun block => FINALITY_BLOCKS ≤ currentBlock - block).getLast? =
      if start ≤ min last (currentBlock - FINALITY_BLOCKS) then some (min last (currentBlock - FINALITY_BLOCKS)) else none := by
  have deep : (List.range' start (last + 1 - start)).filter (fun block => FINALITY_BLOCKS ≤ currentBlock - block) =
      (List.range' start (last + 1 - start)).filter (· ≤ currentBlock - FINALITY_BLOCKS) := by
    apply List.filter_congr
    intro block member
    have above := (List.mem_range'_1.mp member).1
    have depth : FINALITY_BLOCKS = 12 := rfl
    exact decide_eq_decide.mpr (by omega)
  rw [deep, range'_filter_le, List.getLast?_range']
  split
  next empty => rw [if_neg (by omega)]
  next some_ =>
    rw [if_pos (by omega)]
    congr 1
    omega

def movedTo (contract : Address) : Option Nat → Address × Nat → Address × Nat
  | some block => moveTo contract block
  | none => id

private theorem moveTo_movedTo (contract : Address) (block : Nat) (before : Option Nat) :
    moveTo contract block ∘ movedTo contract before = moveTo contract block := by
  cases before with
  | none => rfl
  | some earlier =>
    funext position
    dsimp only [Function.comp, movedTo, moveTo]
    split
    next => rfl
    next => rfl

private theorem finalizeBlocks_leads {custodyAddr : Address} {start last : Nat} {history : History}
    (undisturbed : Undisturbed origin history.2) (small : origin.head < I64_END) (positive : 0 < start)
    (below : last ≤ origin.head) :
    Leads outside blocks origin (finalizeBlocks custodyAddr contract start last origin.head)
      (movedTo contract (if start ≤ min last (origin.head - FINALITY_BLOCKS) then
        some (min last (origin.head - FINALITY_BLOCKS)) else none)) (fun _ => True) history := by
  refine ⟨?_, trivial⟩
  rw [← finalizes_last positive]
  refine Program.exec_forM (fun done later => Calm origin (movedTo contract done.getLast?) history later)
    (.refl undisturbed) fun done block rest split later calm => ?_
  have member : block ∈ (List.range' start (last + 1 - start)).filter fun block => FINALITY_BLOCKS ≤ origin.head - block :=
    split ▸ List.mem_append_right _ List.mem_cons_self
  have inside : block ≤ origin.head := by
    have range := List.mem_range'_1.mp (List.mem_filter.mp member).1
    omega
  have moved : Leads outside blocks origin (finalizeBlock custodyAddr contract block) (moveTo contract block)
      (fun _ => True) later := finalizeBlock_leads calm.undisturbed inside (inside.trans_lt small)
  rw [List.getLast?_concat, movedTo, ← moveTo_movedTo contract block done.getLast?]
  exact calm.trans moved.calm

def advance (head last : Nat) : Nat := max last (min (last + 51) (head - FINALITY_BLOCKS))

def Swept (outside : Surroundings) (blocks : Bytes32 → List RawLog) (origin : Chain) (contract : Address) (low high : Nat)
    (history : History) : Prop :=
  ∀ log, low < log.blockNumber → log.blockNumber ≤ high → log ∈ logsAt blocks origin.hashAt log.blockNumber →
    log.address = contract → Dealt outside contract history log

theorem Swept.onward {low high : Nat} {before after : History} (swept : Swept outside blocks origin contract low high before)
    (onward : Onward before after) : Swept outside blocks origin contract low high after :=
  fun log above below mined own => (swept log above below mined own).onward onward

private theorem moveTo_self {lastBlock : Nat} {list : List (Address × Nat)}
    (current : ∀ position ∈ list, position.1 = contract → position.2 = lastBlock) :
    list.map (moveTo contract lastBlock) = list := by
  refine (List.map_congr_left fun position member => ?_).trans (List.map_id list)
  unfold moveTo
  split
  next own => exact Prod.ext rfl (current position member own).symm
  next => rfl

theorem Calm.stay {lastBlock : Nat} {before after : History} (calm : Calm origin id before after)
    (current : ∀ position ∈ Indexer.positions before.2.db, position.1 = contract → position.2 = lastBlock) :
    Calm origin (moveTo contract lastBlock) before after := by
  refine ⟨calm.undisturbed, calm.onward, ?_⟩
  rw [calm.positions, List.map_id, moveTo_self current]

private theorem scan_leads {logs : List Log} {history : History} (undisturbed : Undisturbed origin history.2)
    (mined : ∀ log ∈ logs, log ∈ logsAt blocks origin.hashAt log.blockNumber) :
    Leads outside blocks origin (logs.forM (processLog contract)) id
      (fun later => ∀ log ∈ logs, Dealt outside contract later log) history := by
  let scanned (done : List Log) (later : History) : Prop :=
    Calm origin id history later ∧ ∀ log ∈ done, Dealt outside contract later log
  suffices all : scanned logs ((logs.forM (processLog contract)).exec (calmly outside blocks) history).2 from ⟨all.1, all.2⟩
  apply Program.exec_forM scanned ⟨.refl undisturbed, fun log member => absurd member List.not_mem_nil⟩
  intro done log rest split later reached
  have member : log ∈ logs := split ▸ List.mem_append_right _ List.mem_cons_self
  have next : Leads outside blocks origin (processLog contract log) id (Dealt outside contract · log) later :=
    processLog_leads reached.1.undisturbed (mined log member)
  refine ⟨reached.1.trans next.calm, fun other listed => ?_⟩
  rcases List.mem_append.mp listed with before | here
  · exact (reached.2 other before).onward next.calm.onward
  · exact List.mem_singleton.mp here ▸ next.post

private theorem indexContract_leads {custodyAddr : Address} {lastBlock : Nat} {history : History}
    (undisturbed : Undisturbed origin history.2) (small : origin.head < I64_END)
    (current : ∀ position ∈ positions history.2.db, position.1 = contract → position.2 = lastBlock) :
    Leads outside blocks origin (indexContract custodyAddr origin.head (contract, lastBlock))
      (moveTo contract (advance origin.head lastBlock))
      (Swept outside blocks origin contract lastBlock (advance origin.head lastBlock)) history := by
  have depth : FINALITY_BLOCKS = 12 := rfl
  unfold indexContract
  dsimp only
  split
  next ahead =>
    have still : advance origin.head lastBlock = lastBlock := by
      unfold advance
      omega
    rw [still]
    exact ⟨(Calm.refl undisturbed).stay current, fun log above below => absurd above (not_lt.mpr below)⟩
  next behind =>
    refine .query undisturbed rfl fun fetched calm same => ?_
    dsimp only
    rw [undisturbed.chain]
    have mined : ∀ log ∈ origin.getLogs blocks contract (lastBlock + 1) (min (lastBlock + 1 + 50) origin.head),
        log ∈ logsAt blocks origin.hashAt log.blockNumber := fun log member => (Chain.mem_getLogs.mp member).2.2.1
    have walked : Leads outside blocks origin
        ((origin.getLogs blocks contract (lastBlock + 1) (min (lastBlock + 1 + 50) origin.head)).forM (processLog contract) >>=
          fun _ => finalizeBlocks custodyAddr contract (lastBlock + 1) (min (lastBlock + 1 + 50) origin.head) origin.head)
        (moveTo contract (advance origin.head lastBlock) ∘ id)
        (Swept outside blocks origin contract lastBlock (advance origin.head lastBlock)) fetched := by
      refine .seq (scan_leads calm.undisturbed mined) fun scanned later dealt => ?_
      let last := min (lastBlock + 1 + 50) origin.head
      let deepest := min last (origin.head - FINALITY_BLOCKS)
      have finalizes : Leads outside blocks origin (finalizeBlocks custodyAddr contract (lastBlock + 1) last origin.head)
          (movedTo contract (if lastBlock + 1 ≤ deepest then some deepest else none)) (fun _ => True) scanned :=
        finalizeBlocks_leads later.undisturbed small (Nat.succ_pos _) (min_le_right _ _)
      constructor
      · have finalized := finalizes.calm
        split at finalized
        next deep =>
          have moves : advance origin.head lastBlock = deepest := by
            unfold advance
            omega
          rw [moves]
          exact finalized
        next shallow =>
          have still : advance origin.head lastBlock = lastBlock := by
            unfold advance
            omega
          rw [still]
          refine finalized.stay ?_
          rwa [later.positions, List.map_id, calm.positions, List.map_id]
      · intro log above below mined own
        refine (dealt log (Chain.mem_getLogs.mpr ⟨above, ?_, mined, own⟩)).onward finalizes.calm.onward
        unfold advance at below
        omega
    exact walked

/-- A turn has taken along the cursors that it has gone through. -/
def taken (head : Nat) (done : List (Address × Nat)) (position : Address × Nat) : Address × Nat :=
  if position ∈ done then (position.1, advance head position.2) else position

theorem taken_fst (head : Nat) (done : List (Address × Nat)) (position : Address × Nat) :
    (taken head done position).1 = position.1 := by
  unfold taken
  split <;> rfl

private theorem moveTo_taken {head : Nat} {done rest list : List (Address × Nat)} {cursor : Address × Nat}
    (split : list = done ++ cursor :: rest) (distinct : (list.map Prod.fst).Nodup) {position : Address × Nat}
    (member : position ∈ list) :
    moveTo cursor.1 (advance head cursor.2) (taken head done position) = taken head (done ++ [cursor]) position := by
  unfold moveTo
  rw [taken_fst]
  by_cases same : position = cursor
  · subst same
    rw [if_pos rfl, taken, if_pos (List.mem_append_right _ (List.mem_singleton.mpr rfl))]
  · have listed : cursor ∈ list := split ▸ List.mem_append_right _ List.mem_cons_self
    have other : position.1 ≠ cursor.1 := fun named => same (List.inj_on_of_nodup_map distinct member listed named)
    rw [if_neg other, taken, taken]
    simp [same]

private theorem contracts_lead {custodyAddr : Address} {history : History} (undisturbed : Undisturbed origin history.2)
    (small : origin.head < I64_END) (distinct : ((positions history.2.db).map Prod.fst).Nodup) :
    Leads outside blocks origin ((positions history.2.db).forM (indexContract custodyAddr origin.head))
      (fun position => (position.1, advance origin.head position.2))
      (fun later => ∀ position ∈ positions history.2.db,
        Swept outside blocks origin position.1 position.2 (advance origin.head position.2) later) history := by
  let reached (done : List (Address × Nat)) (later : History) : Prop :=
    Calm origin (taken origin.head done) history later ∧
      ∀ position ∈ done, Swept outside blocks origin position.1 position.2 (advance origin.head position.2) later
  have start : reached [] history := by
    refine ⟨⟨undisturbed, .refl _, ?_⟩, fun _ member => absurd member List.not_mem_nil⟩
    exact (List.map_id _).symm
  have all : reached (positions history.2.db)
      (((positions history.2.db).forM (indexContract custodyAddr origin.head)).exec (calmly outside blocks) history).2 := by
    apply Program.exec_forM reached start
    intro done cursor rest split later holds
    obtain ⟨calm, swept⟩ := holds
    have listed : cursor ∈ positions history.2.db := split ▸ List.mem_append_right _ List.mem_cons_self
    have fresh : cursor ∉ done := by
      intro before
      rw [split, List.map_append, List.map_cons, List.nodup_middle] at distinct
      exact (List.nodup_cons.mp distinct).1 (List.mem_append_left _ (List.mem_map_of_mem before))
    have current : ∀ position ∈ positions later.2.db, position.1 = cursor.1 → position.2 = cursor.2 := by
      intro position member named
      rw [calm.positions] at member
      obtain ⟨old, there, rfl⟩ := List.mem_map.mp member
      rw [taken_fst] at named
      obtain rfl : old = cursor := List.inj_on_of_nodup_map distinct there listed named
      rw [taken, if_neg fresh]
    have next : Leads outside blocks origin (indexContract custodyAddr origin.head cursor)
        (moveTo cursor.1 (advance origin.head cursor.2))
        (Swept outside blocks origin cursor.1 cursor.2 (advance origin.head cursor.2)) later :=
      indexContract_leads calm.undisturbed small current
    refine ⟨⟨next.calm.undisturbed, calm.onward.trans next.calm.onward, ?_⟩, fun position member => ?_⟩
    · rw [next.calm.positions, calm.positions, List.map_map]
      exact List.map_congr_left fun position member => moveTo_taken split distinct member
    · rcases List.mem_append.mp member with before | here
      · exact (swept position before).onward next.calm.onward
      · exact List.mem_singleton.mp here ▸ next.post
  refine ⟨⟨all.1.undisturbed, all.1.onward, ?_⟩, all.2⟩
  rw [all.1.positions]
  exact List.map_congr_left fun position member => if_pos member

private theorem poll_leads {custodyAddr : Address} {history : History} (undisturbed : Undisturbed origin history.2)
    (small : origin.head < I64_END) (distinct : ((positions history.2.db).map Prod.fst).Nodup) :
    Leads outside blocks origin (poll custodyAddr) (fun position => (position.1, advance origin.head position.2))
      (fun later => ∀ position ∈ positions history.2.db,
        Swept outside blocks origin position.1 position.2 (advance origin.head position.2) later) history := by
  unfold poll
  refine .query undisturbed rfl fun found calm same => ?_
  dsimp only
  refine .query calm.undisturbed rfl fun selected calm again => ?_
  dsimp only
  have world : selected.2 = history.2 := again.trans same
  rw [undisturbed.chain, same, ← world]
  exact contracts_lead calm.undisturbed small (world ▸ distinct)

def calmTurns (outside : Surroundings) (config : AppConfig) (blocks : Bytes32 → List RawLog) (turns : Nat) (world : World) :
    History := (calmTurn outside config blocks)^[turns] ([], world)

private theorem calmTurns_run (world : World) (turns : Nat) :
    Run (Moves outside config blocks Fixed) ⟨world, .done ()⟩ (calmTurns outside config blocks turns world).1
      ⟨(calmTurns outside config blocks turns world).2, .done ()⟩ := by
  induction turns with
  | zero => exact .start
  | succ turns ih =>
    rw [calmTurns, Function.iterate_succ_apply']
    exact calmTurn_runs ih

private theorem advance_iterate (head turns last : Nat) :
    (advance head)^[turns] last = max last (min (last + 51 * turns) (head - FINALITY_BLOCKS)) := by
  induction turns with
  | zero => simp
  | succ turns ih =>
    rw [Function.iterate_succ_apply', ih]
    unfold advance
    omega

private theorem calmTurns_lead {world : World} (canonical : Undisturbed world.chain world)
    (small : world.chain.head < I64_END)
    (distinct : ((positions world.db).map Prod.fst).Nodup) (turns : Nat) :
    Calm world.chain (fun position => (position.1, (advance world.chain.head)^[turns] position.2)) ([], world)
        (calmTurns outside config blocks turns world) ∧
      ∀ position ∈ positions world.db, Swept outside blocks world.chain position.1 position.2
        ((advance world.chain.head)^[turns] position.2) (calmTurns outside config blocks turns world) := by
  induction turns with
  | zero =>
    refine ⟨⟨canonical, .refl _, (List.map_id _).symm⟩, fun position _ log above below => ?_⟩
    exact absurd above (not_lt.mpr below)
  | succ turns ih =>
    obtain ⟨calm, swept⟩ := ih
    have contracts : ((positions (calmTurns outside config blocks turns world).2.db).map Prod.fst).Nodup := by
      rw [calm.positions, List.map_map]
      exact distinct
    have next : Leads outside blocks world.chain (poll config.custodyAddr) _ _ (calmTurns outside config blocks turns world) :=
      poll_leads calm.undisturbed small contracts
    have last : calmTurns outside config blocks (turns + 1) world =
        calmTurn outside config blocks (calmTurns outside config blocks turns world) := Function.iterate_succ_apply' ..
    rw [last]
    refine ⟨⟨next.calm.undisturbed, calm.onward.trans next.calm.onward, ?_⟩, fun position member log above below mined own => ?_⟩
    · refine next.calm.positions.trans ?_
      rw [calm.positions, List.map_map]
      refine List.map_congr_left fun position _ => ?_
      rw [Function.iterate_succ_apply']
      rfl
    · by_cases before : log.blockNumber ≤ (advance world.chain.head)^[turns] position.2
      · exact (swept position member log above before mined own).onward next.calm.onward
      · have moved : (position.1, (advance world.chain.head)^[turns] position.2) ∈
            positions (calmTurns outside config blocks turns world).2.db := by
          rw [calm.positions]
          exact List.mem_map_of_mem member
        rw [Function.iterate_succ_apply'] at below
        exact next.post _ moved log (not_le.mp before) below mined own

/-- Where nothing fails but what the database refuses, each turn takes every cursor 51
blocks further, as long as the blocks are deep enough. Every log that a cursor passes
and that dispatch handles is then marked, or its transaction was refused. -/
theorem index_catches_up {world : World} (small : world.chain.head < I64_END)
    (canonical : ∀ number row, world.db.reorgCheckpoints number = some row → row.blockHash = world.chain.hashAt number)
    (distinct : (world.db.indexerCursors.map (·.contractAddress)).Nodup) (turns : Nat) :
    let later := calmTurns outside config blocks turns world
    let reached (last : Nat) := max last (min (last + 51 * turns) (world.chain.head - FINALITY_BLOCKS))
    Run (Moves outside config blocks Fixed) ⟨world, .done ()⟩ later.1 ⟨later.2, .done ()⟩ ∧
      positions later.2.db = (positions world.db).map (fun position => (position.1, reached position.2)) ∧
      ∀ position ∈ positions world.db, ∀ log, position.2 < log.blockNumber → log.blockNumber ≤ reached position.2 →
        log ∈ logsAt blocks world.chain.hashAt log.blockNumber → log.address = position.1 → log.logIndex < I64_END →
        Handled outside log →
          (later.2.db.indexedLogs log.key).isSome ∨ (.transact (.indexLog position.1 log), .fails) ∈ later.1 := by
  have contracts : ((positions world.db).map Prod.fst).Nodup := by
    rw [positions, List.map_map]
    exact distinct
  obtain ⟨calm, swept⟩ := @calmTurns_lead outside config blocks world ⟨rfl, canonical⟩ small contracts turns
  simp only [advance_iterate] at calm swept
  exact ⟨calmTurns_run world turns, calm.positions, swept⟩

end

/-- Two turns over the sample chain. -/
theorem index_catches_up_sample :
    positions (calmTurns Sample.outside Sample.config Sample.blocks 2 Sample.indexed).2.db = [(201, 1)] := by
  have canonical : ∀ number row, Sample.indexed.db.reorgCheckpoints number = some row →
      row.blockHash = Sample.indexed.chain.hashAt number := by
    intro number row found
    cases found
  exact (index_catches_up (by decide) canonical (by decide) 2).2.1

end Omniscient.Indexer

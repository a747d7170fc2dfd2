import Omniscient.Proofs.Turn

/-! Under reorganisations: whether a row of an orphaned block can survive the
finalization of its number. One checkpoint hash stands for all rows of a number,
and a newly seen log replaces it. -/

namespace Omniscient.Indexer

def IsLogOf (blocks : Bytes32 → List RawLog) (hash : Bytes32) (key : Bytes32 × Nat) (row : IndexedLogRow) : Prop :=
  ∃ raw ∈ blocks hash, (raw.transactionHash, raw.logIndex) = key ∧ raw.address = row.contractAddress ∧
    raw.topics.head? = some row.topic0

/-- A commit of a log never replaces the hash of an unfinalized checkpoint while a
row of that number is not of the log's own block. -/
def Unmixed (blocks : Bytes32 → List RawLog) (world : World) (label : Label) : Prop :=
  ∀ contract log, label.1 = .transact (.indexLog contract log) → label.2 ≠ .fails →
    ∀ checkpoint, world.db.reorgCheckpoints log.blockNumber = some checkpoint → checkpoint.isFinalized = false →
      checkpoint.blockHash ≠ log.blockHash → ∀ key row, world.db.indexedLogs key = some row →
        row.blockNumber = log.blockNumber → IsLogOf blocks log.blockHash key row

section
variable {outside : Surroundings} {config : AppConfig} {blocks : Bytes32 → List RawLog}

/-- Every row has a checkpoint, of the block its log is in, and a finalized
checkpoint is frozen and canonical. -/
structure Rooted (blocks : Bytes32 → List RawLog) (world : World) : Prop where
  rows : ∀ key row, world.db.indexedLogs key = some row → ∃ checkpoint,
    world.db.reorgCheckpoints row.blockNumber = some checkpoint ∧ IsLogOf blocks checkpoint.blockHash key row
  finalized : ∀ number checkpoint, world.db.reorgCheckpoints number = some checkpoint →
    checkpoint.isFinalized = true → number < world.chain.frozen ∧ checkpoint.blockHash = world.chain.hashAt number

def Confirmed (blocks : Bytes32 → List RawLog) (history : History) : Prop :=
  ∀ before contract block hash ending, history.1 = before ++ [(.transact (.finalize contract block hash), ending)] →
    ending ≠ .fails → ∀ key row, history.2.db.indexedLogs key = some row → row.blockNumber = block →
      IsLogOf blocks (history.2.chain.hashAt block) key row

def Canonical (blocks : Bytes32 → List RawLog) (history : History) : Prop :=
  Rooted blocks history.2 ∧ Confirmed blocks history

theorem Rooted.drift {world drifted : World} (rooted : Rooted blocks world)
    (drifts : world.Drifts Chain.Evolves drifted) : Rooted blocks drifted := by
  obtain ⟨rows, finalized⟩ := rooted
  constructor
  · rw [drifts.index.logs, drifts.index.checkpoints]
    exact rows
  · intro number checkpoint found done
    rw [drifts.index.checkpoints] at found
    obtain ⟨frozen, same⟩ := finalized number checkpoint found done
    exact ⟨frozen.trans_le drifts.chain.frozen, same.trans (drifts.chain.settled number frozen).symm⟩

theorem Rooted.other {world : World} (rooted : Rooted blocks world) (trace : List Label) (label : Label)
    (other : ∀ contract block hash, label.1 ≠ .transact (.finalize contract block hash)) :
    Canonical blocks (trace ++ [label], world) := by
  refine ⟨rooted, fun before contract block hash ending same => ?_⟩
  obtain ⟨-, last⟩ := List.append_inj' same rfl
  cases last
  exact absurd rfl (other contract block hash)

/-- A log as it was fetched: it is in the block it names, and agrees with the block's
checkpoint if that is final. -/
structure Fetched (blocks : Bytes32 → List RawLog) (contract : Address) (log : Log) (db : Database) : Prop where
  own : log.address = contract
  mined : ∃ raw ∈ blocks log.blockHash, raw.mined log.blockNumber log.blockHash = log
  final : ∀ checkpoint, db.reorgCheckpoints log.blockNumber = some checkpoint → checkpoint.isFinalized = true →
    checkpoint.blockHash = log.blockHash

def FinalKept (db after : Database) : Prop :=
  ∀ number checkpoint, after.reorgCheckpoints number = some checkpoint → checkpoint.isFinalized = true →
    db.reorgCheckpoints number = some checkpoint

theorem Fetched.kept {contract : Address} {log : Log} {db after : Database} (fetched : Fetched blocks contract log db)
    (kept : FinalKept db after) : Fetched blocks contract log after :=
  ⟨fetched.own, fetched.mined, fun checkpoint found done => fetched.final checkpoint (kept _ _ found done) done⟩

theorem IndexedBy.finalKept {contract : Address} {log : Log} {db after : Database}
    (effect : IndexedBy outside contract log db after) : FinalKept db after := by
  intro number checkpoint found done
  rw [effect.checkpoints] at found
  rcases upsertCheckpoint_cases found with ⟨before, -⟩ | ⟨-, rfl, -⟩
  · exact before
  · cases done

theorem IndexedBy.checkpoint {contract : Address} {log : Log} {db after : Database}
    (effect : IndexedBy outside contract log db after) :
    ∃ checkpoint, after.reorgCheckpoints log.blockNumber = some checkpoint := by
  rw [effect.checkpoints]
  exact upsertCheckpoint_self ..

private theorem Rooted.old_row {world : World} (rooted : Rooted blocks world) {contract : Address} {log : Log}
    {db : Database}
    (effect : IndexedBy outside contract log world.db db)
    (unmixed : ∀ checkpoint, world.db.reorgCheckpoints log.blockNumber = some checkpoint →
      checkpoint.isFinalized = false → checkpoint.blockHash ≠ log.blockHash → ∀ key row,
        world.db.indexedLogs key = some row → row.blockNumber = log.blockNumber → IsLogOf blocks log.blockHash key row)
    (key : Bytes32 × Nat) (row : IndexedLogRow) (before : world.db.indexedLogs key = some row) :
    ∃ checkpoint, db.reorgCheckpoints row.blockNumber = some checkpoint ∧ IsLogOf blocks checkpoint.blockHash key row := by
  obtain ⟨checkpoint, there, inBlock⟩ := rooted.rows key row before
  by_cases here : row.blockNumber = log.blockNumber
  · obtain ⟨now, found⟩ := effect.checkpoint
    refine ⟨now, here ▸ found, ?_⟩
    rw [effect.checkpoints] at found
    rw [here] at there
    rcases upsertCheckpoint_cases found with ⟨same, -⟩ | ⟨-, rfl, unfinalized⟩
    · rw [there] at same
      cases same
      exact inBlock
    · by_cases agree : checkpoint.blockHash = log.blockHash
      · exact agree ▸ inBlock
      · exact unmixed checkpoint there (unfinalized checkpoint there) agree key row before here
  · refine ⟨checkpoint, ?_, inBlock⟩
    rw [effect.checkpoints, upsertCheckpoint_other here]
    exact there

private theorem Fetched.new_row {contract : Address} {log : Log} {db after : Database} {topic0 : Bytes32}
    (fetched : Fetched blocks contract log db) (effect : IndexedBy outside contract log db after)
    (first : log.topics.head? = some topic0) : ∃ checkpoint, after.reorgCheckpoints log.blockNumber = some checkpoint ∧
      IsLogOf blocks checkpoint.blockHash log.key ⟨log.blockNumber, contract, topic0⟩ := by
  obtain ⟨checkpoint, now⟩ := effect.checkpoint
  have agrees : checkpoint.blockHash = log.blockHash := by
    rw [effect.checkpoints] at now
    rcases upsertCheckpoint_cases now with ⟨same, final⟩ | ⟨-, rfl, -⟩
    · exact fetched.final checkpoint same (final rfl)
    · rfl
  obtain ⟨raw, inside, made⟩ := fetched.mined
  refine ⟨checkpoint, now, ?_⟩
  rw [agrees]
  refine ⟨raw, inside, ?_, ?_, ?_⟩
  · exact congrArg Log.key made
  · exact (congrArg Log.address made).trans fetched.own
  · exact (congrArg (fun log => log.topics.head?) made).trans first

/-- A committed log of its block keeps the rows rooted, if it mixes no blocks. -/
theorem Rooted.index {world : World} (rooted : Rooted blocks world) {contract : Address} {log : Log} {db : Database}
    (fetched : Fetched blocks contract log world.db) (effect : IndexedBy outside contract log world.db db)
    (unmixed : ∀ checkpoint, world.db.reorgCheckpoints log.blockNumber = some checkpoint →
      checkpoint.isFinalized = false → checkpoint.blockHash ≠ log.blockHash → ∀ key row,
        world.db.indexedLogs key = some row → row.blockNumber = log.blockNumber → IsLogOf blocks log.blockHash key row) :
    Rooted blocks { world with db } := by
  have old := rooted.old_row effect unmixed
  constructor
  · intro key row found
    rcases effect.logs with ⟨-, same⟩ | ⟨topic0, first, same⟩
    · rw [same] at found
      exact old key row found
    · by_cases here : key = log.key
      · subst here
        rw [same, Function.update_self, Option.some.injEq] at found
        cases before : world.db.indexedLogs log.key with
        | some row' =>
          rw [before, Option.getD_some] at found
          exact old _ row (found ▸ before)
        | none =>
          rw [before, Option.getD_none] at found
          subst found
          exact fetched.new_row effect first
      · rw [same, Function.update_of_ne here] at found
        exact old key row found
  · intro number checkpoint found done
    exact rooted.finalized number checkpoint (effect.finalKept number checkpoint found done) done

theorem Rooted.finalize {world : World} (rooted : Rooted blocks world) {contract : Address} {block : Nat} {hash : Bytes32}
    (frozen : block < world.chain.frozen) (canonical : hash = world.chain.hashAt block)
    (agrees : ∀ checkpoint, world.db.reorgCheckpoints block = some checkpoint → checkpoint.blockHash = hash) :
    Rooted blocks { world with db := finalize contract block hash world.db } := by
  constructor
  · intro key row found
    obtain ⟨checkpoint, there, inBlock⟩ := rooted.rows key row found
    by_cases here : row.blockNumber = block
    · refine ⟨{ checkpoint with isFinalized := true }, ?_, inBlock⟩
      simp only [Indexer.finalize, here, Function.update_self]
      rw [← here, there]
      rfl
    · refine ⟨checkpoint, ?_, inBlock⟩
      simp only [Indexer.finalize, Function.update_of_ne here]
      exact there
  · intro number checkpoint found done
    by_cases here : number = block
    · subst here
      simp only [Indexer.finalize, Function.update_self, Option.map_eq_some_iff] at found
      obtain ⟨old, before, rfl⟩ := found
      exact ⟨frozen, (agrees old before).trans canonical⟩
    · simp only [Indexer.finalize, Function.update_of_ne here] at found
      exact rooted.finalized number checkpoint found done

theorem keepRows_eq_some {κ ρ : Type} {keep : κ → ρ → Bool} {table : κ → Option ρ} {key : κ} {row : ρ} :
    keepRows keep table key = some row ↔ table key = some row ∧ keep key row = true := by
  simp [keepRows, Option.filter_eq_some_iff]

theorem Rooted.rollback {world : World} (rooted : Rooted blocks world) {fromBlock : Nat} {db : Database}
    (ran : rollbackUnfinalized fromBlock world.db = .ok db) : Rooted blocks { world with db } := by
  simp only [rollbackUnfinalized, Outcome.bind_ok, Outcome.revertIf_ok, Outcome.pure_ok] at ran
  obtain ⟨-, -, -, -, rfl⟩ := ran
  constructor
  · intro key row found
    dsimp only at found
    obtain ⟨before, below⟩ := keepRows_eq_some.mp found
    obtain ⟨checkpoint, there, inBlock⟩ := rooted.rows key row before
    refine ⟨checkpoint, ?_, inBlock⟩
    dsimp only
    exact keepRows_eq_some.mpr ⟨there, by rw [below, Bool.true_or]⟩
  · intro number checkpoint found done
    dsimp only at found
    exact rooted.finalized number checkpoint (keepRows_eq_some.mp found).1 done

theorem Canonical.stable {operation : Operation}
    (other : ∀ contract block hash, operation ≠ .transact (.finalize contract block hash)) :
    Stable Chain.Evolves operation (Canonical blocks) :=
  fun trace _ _ ending canonical drifts => (canonical.1.drift drifts).other trace (operation, ending) other

abbrev Forks (outside : Surroundings) (blocks : Bytes32 → List RawLog) :
    History → (operation : Operation) → operation.Answer → History → Prop :=
  Extends outside blocks Chain.Evolves (Unmixed blocks) (fun _ => True)

private theorem processLog_rooted {contract : Address} {log : Log} {history : History}
    (canonical : Canonical blocks history)
    (fetched : Fetched blocks contract log history.2.db) :
    (processLog contract log).Safe (Forks outside blocks) (Canonical blocks)
      (fun _ after => FinalKept history.2.db after.2.db) history := by
  obtain ⟨trace, world⟩ := history
  unfold processLog
  split
  next => exact Program.safe_pure canonical fun _ _ found _ => found
  next =>
    refine safe_query canonical (Canonical.stable nofun) nofun fun looking asked answer drifts looked canonical => ?_
    have kept : FinalKept world.db looking.db := fun number checkpoint found _ => by rwa [← drifts.index.checkpoints]
    match answer with
    | none => exact Program.safe_pure canonical kept
    | some true => exact Program.safe_pure canonical kept
    | some false =>
      apply Program.safe_bind
      apply safe_operation canonical
      intro drifted ending answer after drifts performed unmixed _
      have rooted := canonical.1.drift drifts
      have keptHere : FinalKept world.db drifted.db := fun number checkpoint found done =>
        kept number checkpoint (by rwa [← drifts.index.checkpoints]) done
      rcases transact_cases performed with ⟨-, -, rfl⟩ | ⟨took, db, ran, rfl⟩
      · have recorded := rooted.other (trace ++ [(.selectIndexed log, asked)])
          (.transact (.indexLog contract log), ending) nofun
        exact ⟨recorded, Program.safe_pure recorded keptHere⟩
      · have effect := indexLog_ok ran
        have mixed := unmixed contract log rfl took
        rw [← drifts.index.checkpoints, ← drifts.index.logs] at mixed
        have recorded := (rooted.index (fetched.kept keptHere) effect mixed).other
          (trace ++ [(.selectIndexed log, asked)]) (.transact (.indexLog contract log), ending) nofun
        exact ⟨recorded, Program.safe_pure recorded fun number checkpoint found done =>
          keptHere number checkpoint (effect.finalKept number checkpoint found done) done⟩

private theorem finalize_canonical {contract : Address} {block : Nat} {hash : Bytes32} {history : History}
    (canonical : Canonical blocks history) (frozen : block < history.2.chain.frozen)
    (same : hash = history.2.chain.hashAt block)
    (agrees : ∀ checkpoint, history.2.db.reorgCheckpoints block = some checkpoint → checkpoint.blockHash = hash) :
    (request (.transact (.finalize contract block hash))).Safe (Forks outside blocks) (Canonical blocks)
      (fun _ _ => True) history := by
  obtain ⟨trace, world⟩ := history
  apply safe_operation canonical
  intro drifted ending _ after drifts performed _ _
  have rooted := canonical.1.drift drifts
  refine ⟨?_, trivial⟩
  rcases transact_cases performed with ⟨rfl, -, rfl⟩ | ⟨took, db, ran, rfl⟩
  · refine ⟨rooted, fun before contract block hash ending shape took => ?_⟩
    obtain ⟨-, last⟩ := List.append_inj' shape rfl
    cases last
    exact absurd rfl took
  · cases ran
    have settled := drifts.chain.settled block frozen
    have comparable : ∀ checkpoint, drifted.db.reorgCheckpoints block = some checkpoint → checkpoint.blockHash = hash := by
      rw [drifts.index.checkpoints]
      exact agrees
    refine ⟨rooted.finalize (frozen.trans_le drifts.chain.frozen) (same.trans settled.symm) comparable, ?_⟩
    -- The rows of the block have its checkpoint, whose hash is the canonical one.
    intro before contract' block' hash' ending' shape _ key row found number
    obtain ⟨-, last⟩ := List.append_inj' shape rfl
    cases last
    obtain ⟨checkpoint, there, inBlock⟩ := rooted.rows key row found
    rw [number] at there
    rw [comparable checkpoint there, same] at inBlock
    exact settled ▸ inBlock

private theorem rollback_canonical {block : Nat} {history : History} (canonical : Canonical blocks history) :
    (request (.transact (.rollbackUnfinalized block))).Safe (Forks outside blocks) (Canonical blocks)
      (fun _ _ => True) history := by
  obtain ⟨trace, world⟩ := history
  apply safe_operation canonical
  intro drifted ending _ after drifts performed _ _
  have rooted := canonical.1.drift drifts
  refine ⟨Rooted.other ?_ trace (.transact (.rollbackUnfinalized block), ending) nofun, trivial⟩
  rcases transact_cases performed with ⟨-, -, rfl⟩ | ⟨-, db, ran, rfl⟩
  · exact rooted
  · exact rooted.rollback ran

private theorem finalizeBlock_canonical {custodyAddr contract : Address} {block : Nat} {history : History}
    (canonical : Canonical blocks history) (frozen : block < history.2.chain.frozen) :
    (finalizeBlock custodyAddr contract block).Safe (Forks outside blocks) (Canonical blocks)
      (fun _ _ => True) history := by
  have stable : ∀ operation ∈ [Operation.getBlock block, .selectCheckpoint block, .reconcile block],
      Stable Chain.Evolves operation (Canonical blocks) ∧ Stable Chain.Evolves operation fun _ => True := by
    simp only [List.forall_mem_cons, List.not_mem_nil, IsEmpty.forall_iff, implies_true, and_true]
    have nothing (operation : Operation) : Stable Chain.Evolves operation fun _ => True := fun _ _ _ _ _ _ => trivial
    exact ⟨⟨Canonical.stable nofun, nothing _⟩, ⟨Canonical.stable nofun, nothing _⟩, ⟨Canonical.stable nofun, nothing _⟩⟩
  refine finalizeBlock_rule (fun _ _ => id) stable ?_ ?_ canonical trivial frozen
  · exact fun hash history canonical _ frozen same agrees => finalize_canonical canonical frozen same agrees
  · exact fun checkpoint history canonical _ _ _ => rollback_canonical canonical

/-- Fetched logs are of canonical blocks, so they agree with what is final. -/
theorem Rooted.fetched {world : World} (rooted : Rooted blocks world) {contract : Address} {first last : Nat} {log : Log}
    (member : log ∈ world.chain.getLogs blocks contract first last) : Fetched blocks contract log world.db := by
  obtain ⟨-, -, mined, own⟩ := Chain.mem_getLogs.mp member
  obtain ⟨raw, inside, made⟩ := List.mem_map.mp mined
  have hash : log.blockHash = world.chain.hashAt log.blockNumber := (congrArg Log.blockHash made).symm
  refine ⟨own, ⟨raw, by rwa [hash], by rwa [hash]⟩, fun checkpoint found done => ?_⟩
  rw [hash]
  exact (rooted.finalized log.blockNumber checkpoint found done).2

private theorem indexContract_canonical {custodyAddr contract : Address} {currentBlock lastBlock : Nat}
    {history : History} (canonical : Canonical blocks history)
    (depth : currentBlock < history.2.chain.frozen + FINALITY_BLOCKS) :
    (indexContract custodyAddr currentBlock (contract, lastBlock)).Safe (Forks outside blocks) (Canonical blocks)
      (fun _ _ => True) history := by
  have scanned := @indexContract_rule outside blocks Chain.Evolves (Unmixed blocks) (fun _ => True) (Canonical blocks)
    (fun _ _ => id) custodyAddr contract currentBlock lastBlock
    (fun fetched _ history => FinalKept fetched.2.db history.2.db)
  refine scanned canonical (fun _ _ => Canonical.stable nofun) (fun _ _ _ _ _ found _ => found) ?_ ?_
  · intro fetched done log later _ before canonical member kept
    exact (processLog_rooted canonical ((before.1.fetched member).kept kept)).weaken fun _ after _ keptHere =>
      fun number checkpoint found done => kept number checkpoint (keptHere number checkpoint found done) done
  · intro fetched later start between _ canonical _
    have deep := depth.trans_le (Nat.add_le_add_right (start.trans between).frozen _)
    exact finalizeBlocks_rule (fun _ _ => id)
      (fun block history _ _ canonical _ frozen => finalizeBlock_canonical canonical frozen) canonical trivial deep

private theorem poll_canonical {custodyAddr : Address} {history : History} (canonical : Canonical blocks history) :
    (poll custodyAddr).Safe (Forks outside blocks) (Canonical blocks) (fun _ _ => True) history := by
  have stable : ∀ operation ∈ [Operation.getBlockNumber, .selectCursors],
      Stable Chain.Evolves operation (Canonical blocks) := by
    simp only [List.forall_mem_cons, List.not_mem_nil, IsEmpty.forall_iff, implies_true, and_true]
    exact ⟨Canonical.stable nofun, Canonical.stable nofun⟩
  exact poll_rule (fun _ _ => id) stable
    (fun _ _ _ _ _ canonical _ _ depth => indexContract_canonical canonical depth) canonical

/-- Whatever reorganisations and failures there are, when a block is marked as
finalized all its rows are of the canonical block, in a run that never mixes the
rows of two blocks under one checkpoint. -/
theorem no_phantom_event {start : World} (fresh : Fresh start.db) {before : List Label} {contract : Address} {block : Nat}
    {hash : Bytes32} {ending : Ending} {state : State}
    (run : Run (fun state label after => Moves outside config blocks Chain.Evolves state label after ∧
      Unmixed blocks state.world label) ⟨start, .done ()⟩ (before ++ [(.transact (.finalize contract block hash), ending)])
      state) (marked : ending ≠ .fails) :
    ∀ key row, state.world.db.indexedLogs key = some row → row.blockNumber = block →
      IsLogOf blocks (state.world.chain.hashAt block) key row := by
  have initial : Canonical blocks ([], start) := by
    refine ⟨⟨fun key row found => ?_, fun number checkpoint found => ?_⟩, fun before contract block hash ending shape => ?_⟩
    · simp [fresh.logs key] at found
    · simp [fresh.checkpoints number] at found
    · simp at shape
  have turn (history : History) : Canonical blocks history → (poll config.custodyAddr).Safe (Forks outside blocks)
      (Canonical blocks) (fun _ _ => True) history := poll_canonical
  have canonical := run_safe turn (fun _ _ _ => trivial) initial run trivial
  exact canonical.2 before contract block hash ending rfl marked

end

namespace Sample

/-- The deposit of block 1 is transaction 71, or transaction 72 after a reorganisation. -/
def forks (hash : Bytes32) : List RawLog :=
  if hash = 1001 then [deposit 71] else if hash = 1002 then [deposit 72] else []

/-- A turn that indexes the log of block 1, and one that finalizes it. -/
def turns (first second : Bytes32) (operations : Nat) : List (Chain × Ending) :=
  List.replicate 5 (early first, .succeeds) ++ List.replicate operations (deep second, .succeeds)

theorem settles (first second : Bytes32) : (early first).Evolves (deep second) :=
  ⟨Nat.zero_le _, fun _ settled => absurd settled (Nat.not_lt_zero _)⟩

theorem stays (chain : Chain) : chain.Evolves chain := ⟨le_refl _, fun _ _ => rfl⟩

private theorem forked : (early 1001 :: (turns 1001 1002 8).map Prod.fst).IsChain Chain.Evolves := by
  simp [turns, settles, stays]

theorem extended : (early 1001 :: (turns 1001 1001 7).map Prod.fst).IsChain Chain.Evolves := by
  simp [turns, settles, stays]

def agrees (world : World) (label : Label) : Bool :=
  match label.1 with
  | .transact (.indexLog _ log) => (world.db.reorgCheckpoints log.blockNumber).all (·.blockHash = log.blockHash)
  | _ => true

private theorem agrees_unmixed {blocks : Bytes32 → List RawLog} {world : World} {label : Label}
    (agree : agrees world label = true) : Unmixed blocks world label := by
  intro contract log indexing _ checkpoint found _ different
  simp only [agrees, indexing, found, Option.all_some, decide_eq_true_eq] at agree
  exact absurd agree different

end Sample

/-- Without any failure: a reorganisation replaces block 1 before it is deep enough,
the new log takes over the checkpoint, and the row of the old log stays. -/
theorem no_phantom_event_fails : ∃ trace block hash state key row,
    Run (Moves Sample.outside Sample.config Sample.forks Chain.Evolves) ⟨⟨Sample.tables, Sample.early 1001⟩, .done ()⟩
      (trace ++ [(.transact (.finalize 201 block hash), .succeeds)]) state ∧
    Fresh Sample.tables ∧ (∀ label ∈ trace, label.2 = .succeeds) ∧
    state.world.db.indexedLogs key = some row ∧ row.blockNumber = block ∧
    ¬ IsLogOf Sample.forks (state.world.chain.hashAt block) key row := by
  have drove : ((drive Sample.outside Sample.config Sample.forks (fun _ _ => true)
      ⟨⟨Sample.tables, Sample.early 1001⟩, .done ()⟩ (Sample.turns 1001 1002 8)).any fun result =>
        decide (result.1.getLast? = some (.transact (.finalize 201 1 1002), .succeeds) ∧
          (∀ label ∈ result.1, label.2 = .succeeds) ∧ result.2.world.chain.hashAt 1 = 1002 ∧
          (result.2.world.db.indexedLogs (71, 0)).any fun row => row.blockNumber = 1)) = true := by
    decide +kernel
  obtain ⟨⟨trace, state⟩, driven, checked⟩ := (Option.any_eq_true _ _).mp drove
  obtain ⟨last, quiet, canonical, present⟩ := of_decide_eq_true checked
  obtain ⟨before, rfl⟩ := List.getLast?_eq_some_iff.mp last
  obtain ⟨row, found, number⟩ := (Option.any_eq_true _ _).mp present
  have run := drive_runs Sample.forked driven
  refine ⟨before, 1, 1002, state, (71, 0), row, run.mono fun _ _ _ => And.left, Sample.tables_fresh,
    fun label member => quiet label (List.mem_append_left _ member), found, of_decide_eq_true number, ?_⟩
  dsimp only at canonical
  rw [canonical]
  intro holds
  obtain ⟨raw, member, key, -⟩ := holds
  cases List.mem_singleton.mp member
  exact absurd key (by decide)

/-- The hypotheses meet: without a reorganisation the block is finalized with its row. -/
theorem no_phantom_event_sample : ∃ (state : State) (row : IndexedLogRow),
    state.world.db.indexedLogs (71, 0) = some row ∧ row.blockNumber = 1 ∧
    IsLogOf Sample.forks (state.world.chain.hashAt 1) (71, 0) row := by
  have drove : ((drive Sample.outside Sample.config Sample.forks Sample.agrees
      ⟨⟨Sample.tables, Sample.early 1001⟩, .done ()⟩ (Sample.turns 1001 1001 7)).any fun result =>
        decide (result.1.getLast? = some (.transact (.finalize 201 1 1001), .succeeds) ∧
          (result.2.world.db.indexedLogs (71, 0)).any fun row => row.blockNumber = 1)) = true := by
    decide +kernel
  obtain ⟨⟨trace, state⟩, driven, checked⟩ := (Option.any_eq_true _ _).mp drove
  obtain ⟨last, present⟩ := of_decide_eq_true checked
  obtain ⟨before, rfl⟩ := List.getLast?_eq_some_iff.mp last
  obtain ⟨row, found, number⟩ := (Option.any_eq_true _ _).mp present
  have run := drive_runs Sample.extended driven
  refine ⟨state, row, found, of_decide_eq_true number, ?_⟩
  exact no_phantom_event Sample.tables_fresh
    (run.mono fun _ _ _ moved => ⟨moved.1, Sample.agrees_unmixed moved.2⟩) nofun (71, 0) row found
    (of_decide_eq_true number)

end Omniscient.Indexer

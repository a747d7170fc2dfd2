import Omniscient.Proofs.CursorOrder
import Omniscient.Proofs.PhantomEvents

/-! What is final stays final. A checkpoint is marked, and a cursor takes the hash of
its block, only for a block that is too deep to be replaced; no transaction ever
takes the mark away. -/

namespace Omniscient.Indexer

section
variable {outside : Surroundings} {config : AppConfig} {blocks : Bytes32 → List RawLog} {may : Chain → Chain → Prop}

def Upheld (outside : Surroundings) (blocks : Bytes32 → List RawLog) (may : Chain → Chain → Prop)
    (holds : History → Prop) (trace : List Label) : Process → Prop
  | .running state => state.turn.Safe (Extends outside blocks may (fun _ _ => True) (fun _ => True)) holds
      (fun _ _ => True) (trace, state.world)
  | .stopped world => holds (trace, world)

theorem Upheld.now {holds : History → Prop} {trace : List Label} {process : Process}
    (upheld : Upheld outside blocks may holds trace process) : holds (trace, process.world) := by
  cases process with
  | running state => exact Program.Safe.now upheld
  | stopped world => exact upheld

private theorem lives_safe {holds : History → Prop}
    (turn : ∀ history, holds history → (poll config.custodyAddr).Safe
      (Extends outside blocks may (fun _ _ => True) (fun _ => True)) holds (fun _ _ => True) history)
    (ensured : ∀ trace world drifted (contracts : List Address), holds (trace, world) → world.Drifts may drifted →
      holds (trace, { drifted with db := contracts.foldl ensureCursor drifted.db }))
    {start : World} (initial : holds ([], start)) {life : List Life} {process : Process}
    (run : Run (Lives outside config blocks may) (.stopped start) life process) :
    holds (operations life, process.world) := by
  suffices upheld : Upheld outside blocks may holds (operations life) process from upheld.now
  apply run.invariant fun life process => Upheld outside blocks may holds (operations life) process
  · exact initial
  · intro life process event after _ upheld lived
    rw [operations_append]
    cases lived with
    | @operates state after label moved =>
      have next : (state.next config.custodyAddr).Safe (Extends outside blocks may (fun _ _ => True) (fun _ => True)) holds
          (fun _ _ => True) (operations life, state.world) := by
        unfold State.next
        split
        next => exact turn _ upheld.now
        next => exact upheld
      cases moved with
      | perform pending drifts performed =>
        rw [pending] at next
        exact next.2 _ _ ⟨_, _, drifts, performed, rfl, trivial, trivial⟩
    | stops =>
      rw [Life.label, Option.toList_none, List.append_nil]
      exact upheld.now
    | starts drifts inserted =>
      rw [Life.label, Option.toList_none, List.append_nil]
      have kept := ensured _ _ _ ((followed config).take inserted) upheld.now drifts
      unfold starting
      dsimp only
      split
      next => exact ⟨kept, trivial⟩
      next => exact kept

/-- Final checkpoints and the hashes of cursors are of canonical blocks that cannot be
replaced. -/
structure Settled (world : World) : Prop where
  checkpoints : ∀ number row, world.db.reorgCheckpoints number = some row → row.isFinalized = true →
    number < world.chain.frozen ∧ row.blockHash = world.chain.hashAt number
  cursors : ∀ cursor ∈ world.db.indexerCursors, ∀ hash, cursor.lastFinalizedBlockHash = some hash →
    cursor.lastFinalizedBlock < world.chain.frozen ∧ hash = world.chain.hashAt cursor.lastFinalizedBlock

theorem Settled.drift {world drifted : World} (settled : Settled world) (drifts : world.Drifts Chain.Evolves drifted) :
    Settled drifted := by
  have still {number : Nat} {hash : Bytes32} (before : number < world.chain.frozen ∧ hash = world.chain.hashAt number) :
      number < drifted.chain.frozen ∧ hash = drifted.chain.hashAt number :=
    ⟨before.1.trans_le drifts.chain.frozen, before.2.trans (drifts.chain.settled number before.1).symm⟩
  constructor
  · intro number row found done
    rw [drifts.index.checkpoints] at found
    exact still (settled.checkpoints number row found done)
  · intro cursor listed hash known
    rw [drifts.index.cursors] at listed
    exact still (settled.cursors cursor listed hash known)

theorem Settled.stable {operation : Operation} :
    Stable Chain.Evolves operation fun history => Settled history.2 :=
  fun _ _ _ _ settled drifts => settled.drift drifts

private theorem ensureCursors_checkpoints (contracts : List Address) (db : Database) :
    (contracts.foldl ensureCursor db).reorgCheckpoints = db.reorgCheckpoints := by
  induction contracts generalizing db with
  | nil => rfl
  | cons contract contracts ih =>
    refine (ih (ensureCursor db contract)).trans ?_
    unfold ensureCursor
    split <;> rfl

def Permanent (db after : Database) : Prop :=
  ∀ number row, db.reorgCheckpoints number = some row → row.isFinalized = true → after.reorgCheckpoints number = some row

theorem Permanent.refl (db : Database) : Permanent db db := fun _ _ found _ => found

theorem Permanent.trans {first second third : Database} (start : Permanent first second) (next : Permanent second third) :
    Permanent first third := fun number row found done => next number row (start number row found done) done

theorem Permanent.of_same {db after : Database} (same : after.reorgCheckpoints = db.reorgCheckpoints) :
    Permanent db after := fun _ _ found _ => same ▸ found

theorem Transaction.permanent {transaction : Transaction} {db after : Database}
    (ran : transaction.run outside db = .ok after) : Permanent db after := by
  intro number row found done
  cases transaction with
  | indexLog contract log =>
    rw [(indexLog_ok ran).checkpoints]
    by_cases here : number = log.blockNumber
    · subst here
      simp [upsertCheckpoint, found, done]
    · rwa [upsertCheckpoint_other here]
  | finalize contract block hash =>
    cases ran
    by_cases here : number = block
    · subst here
      simp [Indexer.finalize, found, ← done]
    · simpa [Indexer.finalize, here] using found
  | rollbackUnfinalized fromBlock =>
    simp only [Transaction.run, Indexer.rollbackUnfinalized, Outcome.bind_ok, Outcome.revertIf_ok, Outcome.pure_ok] at ran
    obtain ⟨-, -, -, -, rfl⟩ := ran
    simp [keepRows, found, done]

theorem Lives.permanent {process after : Process} {event : Life} (lived : Lives outside config blocks may process event after) :
    Permanent process.world.db after.world.db := by
  cases lived with
  | operates moved =>
    cases moved with
    | @perform operation ending next drifted after answer pending drifts performed =>
      refine (Permanent.of_same drifts.index.checkpoints).trans ?_
      cases operation with
      | transact transaction =>
        rcases transact_cases performed with ⟨-, -, rfl⟩ | ⟨-, db, ran, rfl⟩
        · exact .refl _
        · exact transaction.permanent ran
      | reconcile block =>
        cases performed
        exact .refl _
      | getBlockNumber => exact (answered_cases performed).1 ▸ .refl _
      | selectCursors => exact (answered_cases performed).1 ▸ .refl _
      | getLogs contract first last => exact (answered_cases performed).1 ▸ .refl _
      | selectIndexed log => exact (answered_cases performed).1 ▸ .refl _
      | getBlock number => exact (answered_cases performed).1 ▸ .refl _
      | selectCheckpoint number => exact (answered_cases performed).1 ▸ .refl _
  | stops => exact .refl _
  | starts drifts inserted =>
    refine (Permanent.of_same drifts.index.checkpoints).trans (.of_same ?_)
    unfold starting
    dsimp only
    split <;> exact ensureCursors_checkpoints _ _

abbrev Roams (outside : Surroundings) (blocks : Bytes32 → List RawLog) :
    History → (operation : Operation) → operation.Answer → History → Prop :=
  Extends outside blocks Chain.Evolves (fun _ _ => True) (fun _ => True)

theorem transact_settled {transaction : Transaction} {history : History} (settled : Settled history.2)
    (kept : ∀ drifted db, Settled drifted → history.2.Drifts Chain.Evolves drifted →
      transaction.run outside drifted.db = .ok db → Settled { drifted with db }) :
    (request (.transact transaction)).Safe (Roams outside blocks) (fun history => Settled history.2)
      (fun _ _ => True) history := by
  obtain ⟨trace, world⟩ := history
  apply safe_operation settled
  intro drifted ending answer after drifts performed _ _
  refine ⟨?_, trivial⟩
  rcases transact_cases performed with ⟨-, -, rfl⟩ | ⟨-, db, ran, rfl⟩
  · exact settled.drift drifts
  · exact kept drifted db (settled.drift drifts) drifts ran

/-- Where no checkpoint becomes final and no cursor moves, nothing is to be shown. -/
theorem Settled.of_same {world : World} (settled : Settled world) {db : Database}
    (cursors : db.indexerCursors = world.db.indexerCursors)
    (checkpoints : ∀ number row, db.reorgCheckpoints number = some row → row.isFinalized = true →
      world.db.reorgCheckpoints number = some row) : Settled { world with db } := by
  constructor
  · intro number row found done
    exact settled.checkpoints number row (checkpoints number row found done) done
  · intro cursor listed hash known
    rw [show ({ world with db } : World).db.indexerCursors = world.db.indexerCursors from cursors] at listed
    exact settled.cursors cursor listed hash known

private theorem indexLog_settled {contract : Address} {log : Log} {history : History} (settled : Settled history.2) :
    (request (.transact (.indexLog contract log))).Safe (Roams outside blocks) (fun history => Settled history.2)
      (fun _ _ => True) history := by
  apply transact_settled settled
  intro drifted db settled _ ran
  have effect := indexLog_ok ran
  apply settled.of_same effect.cursors
  intro number row found done
  rw [effect.checkpoints] at found
  rcases upsertCheckpoint_cases found with ⟨before, -⟩ | ⟨-, rfl, -⟩
  · exact before
  · cases done

private theorem rollback_settled {block : Nat} {history : History} (settled : Settled history.2) :
    (request (.transact (.rollbackUnfinalized block))).Safe (Roams outside blocks) (fun history => Settled history.2)
      (fun _ _ => True) history := by
  apply transact_settled settled
  intro drifted db settled _ ran
  apply settled.of_same (rollbackUnfinalized_cursors ran)
  simp only [Transaction.run, rollbackUnfinalized, Outcome.bind_ok, Outcome.revertIf_ok, Outcome.pure_ok] at ran
  obtain ⟨-, -, -, -, rfl⟩ := ran
  intro number row found _
  dsimp only at found
  exact (keepRows_eq_some.mp found).1

private theorem finalize_settled {contract : Address} {block : Nat} {hash : Bytes32} {history : History}
    (settled : Settled history.2) (frozen : block < history.2.chain.frozen) (same : hash = history.2.chain.hashAt block)
    (agrees : ∀ checkpoint, history.2.db.reorgCheckpoints block = some checkpoint → checkpoint.blockHash = hash) :
    (request (.transact (.finalize contract block hash))).Safe (Roams outside blocks) (fun history => Settled history.2)
      (fun _ _ => True) history := by
  apply transact_settled settled
  intro drifted db settled drifts ran
  cases ran
  have canonical : block < drifted.chain.frozen ∧ hash = drifted.chain.hashAt block :=
    ⟨frozen.trans_le drifts.chain.frozen, same.trans (drifts.chain.settled block frozen).symm⟩
  constructor
  · intro number row found done
    by_cases here : number = block
    · obtain ⟨old, before, hashes⟩ := finalize_checkpoint found
      rw [here] at before ⊢
      rw [drifts.index.checkpoints] at before
      exact ⟨canonical.1, hashes.trans ((agrees old before).trans canonical.2)⟩
    · simp only [finalize, Function.update_of_ne here] at found
      exact settled.checkpoints number row found done
  · intro cursor listed known stored
    obtain ⟨old, row, rfl⟩ := List.mem_map.mp listed
    split at stored
    next own =>
      rw [if_pos own]
      cases stored
      exact canonical
    next other =>
      rw [if_neg other]
      exact settled.cursors old row known stored

private theorem processLog_settled {contract : Address} {log : Log} {history : History} (settled : Settled history.2) :
    (processLog contract log).Safe (Roams outside blocks) (fun history => Settled history.2)
      (fun _ _ => True) history := by
  obtain ⟨trace, world⟩ := history
  unfold processLog
  split
  next => exact Program.safe_pure settled trivial
  next =>
    refine safe_query settled Settled.stable nofun fun looking asked answer _ _ settled => ?_
    match answer with
    | none => exact Program.safe_pure settled trivial
    | some true => exact Program.safe_pure settled trivial
    | some false =>
      apply Program.safe_bind
      exact (indexLog_settled settled).weaken fun _ _ settled _ => Program.safe_pure settled trivial

private theorem finalizeBlock_settled {custodyAddr contract : Address} {block : Nat} {history : History}
    (settled : Settled history.2) (frozen : block < history.2.chain.frozen) :
    (finalizeBlock custodyAddr contract block).Safe (Roams outside blocks) (fun history => Settled history.2)
      (fun _ _ => True) history := by
  have nothing (operation : Operation) : Stable Chain.Evolves operation fun _ => True := fun _ _ _ _ _ _ => trivial
  exact finalizeBlock_rule (fun _ _ => id) (fun _ _ => ⟨Settled.stable, nothing _⟩)
    (fun _ _ settled _ frozen same agrees => finalize_settled settled frozen same agrees)
    (fun _ _ settled _ _ _ => rollback_settled settled) settled trivial frozen

private theorem poll_settled {custodyAddr : Address} {history : History} (settled : Settled history.2) :
    (poll custodyAddr).Safe (Roams outside blocks) (fun history => Settled history.2) (fun _ _ => True) history := by
  have evolves : ∀ chain after : Chain, chain.Evolves after → chain.Evolves after := fun _ _ => id
  refine poll_rule evolves (fun _ _ => Settled.stable) (fun currentBlock cursor _ _ _ settled _ _ depth => ?_) settled
  have walked := @indexContract_rule outside blocks Chain.Evolves (fun _ _ => True) (fun _ => True)
    (fun history => Settled history.2) evolves custodyAddr cursor.contractAddress currentBlock cursor.lastFinalizedBlock
    (fun _ _ _ => True)
  refine walked settled (fun _ _ => Settled.stable) (fun _ _ _ => trivial)
    (fun _ _ _ _ _ _ settled _ _ => processLog_settled settled) fun fetched later start between _ settled _ => ?_
  have deep := depth.trans_le (Nat.add_le_add_right (start.trans between).frozen _)
  exact finalizeBlocks_rule evolves (fun _ _ _ _ settled _ frozen => finalizeBlock_settled settled frozen) settled trivial deep

theorem Settled.ensureCursors {world : World} (settled : Settled world) (contracts : List Address) :
    Settled { world with db := contracts.foldl ensureCursor world.db } := by
  induction contracts generalizing world with
  | nil => exact settled
  | cons contract contracts ih =>
    have kept : Settled { world with db := ensureCursor world.db contract } := by
      unfold ensureCursor
      split
      next => exact settled
      next =>
        refine ⟨settled.checkpoints, fun cursor listed hash known => ?_⟩
        rcases List.mem_append.mp listed with before | here
        · exact settled.cursors cursor before hash known
        · rw [List.mem_singleton.mp here] at known
          cases known
    exact ih kept

theorem Lives.chain {process after : Process} {event : Life}
    (lived : Lives outside config blocks Chain.Evolves process event after) :
    process.world.chain.Evolves after.world.chain := by
  cases lived with
  | operates moved =>
    cases moved with
    | perform pending drifts performed => exact (perform_chain performed).symm ▸ drifts.chain
  | stops => exact .refl _
  | starts drifts inserted =>
    unfold starting
    dsimp only
    split <;> exact drifts.chain

/-- Whatever reorganisations and failures there are, and however often the process is
stopped and started: a checkpoint that is final at one time stays as it is, and it and
the hash of a cursor name the block that the chain has at their height ever after. -/
theorem finality_is_final {start : World} (cursors : start.db.indexerCursors = [])
    (checkpoints : ∀ number, start.db.reorgCheckpoints number = none) {earlier later : List Life} {process after : Process}
    (before : Run (Lives outside config blocks Chain.Evolves) (.stopped start) earlier process)
    (rest : Run (Lives outside config blocks Chain.Evolves) process later after) :
    (∀ number row, process.world.db.reorgCheckpoints number = some row → row.isFinalized = true →
      after.world.db.reorgCheckpoints number = some row ∧ row.blockHash = after.world.chain.hashAt number) ∧
    ∀ cursor ∈ process.world.db.indexerCursors, ∀ hash, cursor.lastFinalizedBlockHash = some hash →
      hash = after.world.chain.hashAt cursor.lastFinalizedBlock := by
  have settled : Settled process.world := by
    have initial : Settled start := by
      refine ⟨fun number row found => ?_, fun cursor listed => ?_⟩
      · rw [checkpoints number] at found
        cases found
      · rw [cursors] at listed
        cases listed
    have turn (history : History) (settled : Settled history.2) : (poll config.custodyAddr).Safe (Roams outside blocks)
        (fun history => Settled history.2) (fun _ _ => True) history := poll_settled settled
    exact lives_safe turn (fun _ _ _ contracts settled drifts => (Settled.drift settled drifts).ensureCursors contracts)
      initial before
  have evolved := rest.keeps (fun later => process.world.chain.Evolves later.world.chain)
    (fun _ _ _ lived sofar => sofar.trans lived.chain) (.refl _)
  have permanent := rest.keeps (fun later => Permanent process.world.db later.world.db)
    (fun _ _ _ lived sofar => sofar.trans lived.permanent) (.refl _)
  constructor
  · intro number row found done
    obtain ⟨frozen, hash⟩ := settled.checkpoints number row found done
    exact ⟨permanent number row found done, hash.trans (evolved.settled number frozen).symm⟩
  · intro cursor listed hash known
    obtain ⟨frozen, same⟩ := settled.cursors cursor listed hash known
    exact same.trans (evolved.settled cursor.lastFinalizedBlock frozen).symm

end

/-- Block 1 is final after the first turn; the process ends, fails to start and starts. -/
theorem finality_is_final_sample : ∃ (process after : Process),
    process.world.db.reorgCheckpoints 1 = some ⟨1001, true⟩ ∧
    Run (Lives Sample.outside Sample.config Sample.blocks Chain.Evolves) process [.stops, .starts 1, .starts 3] after ∧
    after.world.db.reorgCheckpoints 1 = some ⟨1001, true⟩ ∧ (1001 : Bytes32) = after.world.chain.hashAt 1 := by
  obtain ⟨trace, state, run, -, -, marked⟩ := Sample.lived
  have still : state.world.Drifts Chain.Evolves state.world := ⟨.refl _, .refl _⟩
  have failed : Run (Lives Sample.outside Sample.config Sample.blocks Chain.Evolves) (.running state) [.stops, .starts 1]
      (starting Sample.config 1 state.world) := (Run.start.next .stops).next (.starts still 1)
  have rest := failed.next (.starts ⟨.refl _, .refl _⟩ 3)
  refine ⟨.running state, _, marked, rest, ?_⟩
  exact (finality_is_final rfl (fun _ => rfl) run rest).1 1 _ marked rfl

end Omniscient.Indexer

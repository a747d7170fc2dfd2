import Omniscient.Proofs.Indexing

/-! Rules for a turn of the loop. They walk past the queries, which change nothing,
and say what is known where a transaction is reached; a proof about all runs then
says what each transaction keeps. -/

namespace Omniscient.Indexer

section
variable {outside : Surroundings} {blocks : Bytes32 → List RawLog} {may : Chain → Chain → Prop}
  {allowed : World → Label → Prop} {good : List Label → Prop} {holds : History → Prop}

def Stable (may : Chain → Chain → Prop) (operation : Operation) (assertion : History → Prop) : Prop :=
  ∀ trace world drifted ending, assertion (trace, world) → world.Drifts may drifted →
    assertion (trace ++ [(operation, ending)], drifted)

structure Later (before after : History) : Prop where
  trace : before.1 <+: after.1
  frozen : before.2.chain.frozen ≤ after.2.chain.frozen

theorem Later.refl (history : History) : Later history history := ⟨List.prefix_refl _, le_refl _⟩

theorem Later.trans {first second third : History} (start : Later first second) (next : Later second third) :
    Later first third := ⟨start.trace.trans next.trace, start.frozen.trans next.frozen⟩

theorem Later.step (evolves : ∀ chain after, may chain after → chain.Evolves after) {history after : History}
    {operation : Operation} {answer : operation.Answer}
    (step : Extends outside blocks may allowed good history operation answer after) : Later history after := by
  obtain ⟨drifted, ending, drifts, performed, extended, -, -⟩ := step
  refine ⟨extended ▸ List.prefix_append _ _, ?_⟩
  rw [perform_chain performed]
  exact (evolves _ _ drifts.chain).frozen

theorem Later.query (evolves : ∀ chain after, may chain after → chain.Evolves after) {world drifted : World}
    (drifts : world.Drifts may drifted) (trace : List Label) (label : Label) :
    Later (trace, world) (trace ++ [label], drifted) := ⟨List.prefix_append _ _, (evolves _ _ drifts.chain).frozen⟩

theorem Safe.later (evolves : ∀ chain after, may chain after → chain.Evolves after) {program : Effect Unit}
    {post : Unit → History → Prop} {history : History}
    (safe : program.Safe (Extends outside blocks may allowed good) holds post history) :
    program.Safe (Extends outside blocks may allowed good) holds
      (fun value after => post value after ∧ Later history after) history :=
  safe.tracks Later Later.refl Later.trans (Later.step evolves)

theorem answered_some {α : Type} {world after : World} {actual : Option α} {value : α} {ending : Ending}
    (done : answered world actual ending = some (some value, after)) : actual = some value := by
  rcases (answered_cases done).2 with ⟨-, same⟩ | ⟨-, none⟩
  · exact same.symm
  · cases none

theorem safe_query {operation : Operation} {next : operation.Answer → Effect Unit} {post : Unit → History → Prop}
    {trace : List Label} {world : World} (now : holds (trace, world)) (stable : Stable may operation holds)
    (query : ∀ transaction, operation ≠ .transact transaction)
    (rest : ∀ drifted ending answer, world.Drifts may drifted →
      drifted.perform outside blocks operation ending = some (answer, drifted) →
      holds (trace ++ [(operation, ending)], drifted) →
      (next answer).Safe (Extends outside blocks may allowed good) holds post (trace ++ [(operation, ending)], drifted)) :
    (request operation >>= next).Safe (Extends outside blocks may allowed good) holds post (trace, world) := by
  apply Program.safe_bind
  apply safe_operation now
  intro drifted ending answer after drifts performed _ _
  have same : after = drifted := by
    cases operation with
    | transact transaction => exact absurd rfl (query transaction)
    | reconcile block =>
      cases performed
      rfl
    | getBlockNumber => exact (answered_cases performed).1
    | selectCursors => exact (answered_cases performed).1
    | getLogs contract first last => exact (answered_cases performed).1
    | selectIndexed log => exact (answered_cases performed).1
    | getBlock number => exact (answered_cases performed).1
    | selectCheckpoint number => exact (answered_cases performed).1
  subst same
  have kept := stable trace world after ending now drifts
  exact ⟨kept, rest after ending answer drifts performed kept⟩

/-- A frozen block is finalized with its canonical hash, which its checkpoint, if
any, has; it is rolled back if its checkpoint has another. -/
theorem finalizeBlock_rule (evolves : ∀ chain after, may chain after → chain.Evolves after)
    {custodyAddr contract : Address} {block : Nat} {ready : History → Prop}
    (stable : ∀ operation ∈ [Operation.getBlock block, .selectCheckpoint block, .reconcile block],
      Stable may operation holds ∧ Stable may operation ready)
    (finalizes : ∀ hash history, holds history → ready history → block < history.2.chain.frozen →
      hash = history.2.chain.hashAt block →
      (∀ checkpoint, history.2.db.reorgCheckpoints block = some checkpoint → checkpoint.blockHash = hash) →
      (request (.transact (.finalize contract block hash))).Safe (Extends outside blocks may allowed good) holds
        (fun _ => ready) history)
    (rollsBack : ∀ checkpoint history, holds history → ready history →
      history.2.db.reorgCheckpoints block = some checkpoint → checkpoint.blockHash ≠ history.2.chain.hashAt block →
      (request (.transact (.rollbackUnfinalized block))).Safe (Extends outside blocks may allowed good) holds
        (fun _ => ready) history)
    {history : History} (now : holds history) (isReady : ready history) (frozen : block < history.2.chain.frozen) :
    (finalizeBlock custodyAddr contract block).Safe (Extends outside blocks may allowed good) holds
      (fun _ => ready) history := by
  simp only [List.forall_mem_cons, List.not_mem_nil, IsEmpty.forall_iff, implies_true, and_true] at stable
  obtain ⟨getBlock, selectCheckpoint, reconcile⟩ := stable
  obtain ⟨trace, world⟩ := history
  apply safe_query now getBlock.1 nofun
  intro found asked hash drifts fetched now
  have isReady := getBlock.2 _ _ _ asked isReady drifts
  have frozen : block < found.chain.frozen := frozen.trans_le (evolves _ _ drifts.chain).frozen
  cases hash with
  | none => exact Program.safe_pure now isReady
  | some hash =>
    have canonical : hash = found.chain.hashAt block := (Chain.getBlock_some (answered_some fetched)).symm
    dsimp only
    split
    next => exact Program.safe_pure now isReady
    next =>
      apply safe_query now selectCheckpoint.1 nofun
      intro later ended stored drifts selected now
      have isReady := selectCheckpoint.2 _ _ _ ended isReady drifts
      have settled := (evolves _ _ drifts.chain).settled block frozen
      have frozen : block < later.chain.frozen := frozen.trans_le (evolves _ _ drifts.chain).frozen
      cases stored with
      | none => exact Program.safe_pure now isReady
      | some stored =>
        obtain rfl := Option.some.inj (answered_some selected)
        dsimp only
        split
        next differs =>
          apply Program.safe_bind
          cases there : later.db.reorgCheckpoints block with
          | none => simp [there] at differs
          | some checkpoint =>
            have other : checkpoint.blockHash ≠ later.chain.hashAt block := by
              rw [settled, ← canonical]
              simpa [there] using differs
            exact (rollsBack checkpoint _ now isReady there other).weaken fun _ _ now isReady =>
              Program.safe_pure now isReady
        next agrees =>
          apply Program.safe_bind
          have same : ∀ checkpoint, later.db.reorgCheckpoints block = some checkpoint → checkpoint.blockHash = hash := by
            intro checkpoint there
            simpa [there] using agrees
          refine (finalizes hash _ now isReady frozen (canonical.trans settled.symm) same).weaken
            fun committed history now isReady => ?_
          split
          next =>
            obtain ⟨trace, world⟩ := history
            apply safe_operation now
            intro drifted ending _ after drifts performed _ _
            cases performed
            exact ⟨reconcile.1 _ _ _ ending now drifts, reconcile.2 _ _ _ ending isReady drifts⟩
          next => exact Program.safe_pure now isReady

/-- Only blocks up to the last fetched one, and only frozen ones, are finalized. -/
theorem finalizeBlocks_rule (evolves : ∀ chain after, may chain after → chain.Evolves after)
    {custodyAddr contract : Address} {start last currentBlock : Nat} {ready : History → Prop}
    (block : ∀ block history, start ≤ block → block ≤ min last (currentBlock - FINALITY_BLOCKS) → holds history →
      ready history → block < history.2.chain.frozen →
      (finalizeBlock custodyAddr contract block).Safe (Extends outside blocks may allowed good) holds
        (fun _ => ready) history)
    {history : History} (now : holds history) (isReady : ready history)
    (depth : currentBlock < history.2.chain.frozen + FINALITY_BLOCKS) :
    (finalizeBlocks custodyAddr contract start last currentBlock).Safe (Extends outside blocks may allowed good) holds
      (fun _ _ => True) history := by
  refine (Program.safe_forM (fun _ later => ready later ∧ Later history later) now ⟨isReady, .refl history⟩ ?_).weaken
    fun _ _ _ _ => trivial
  intro done number rest split later now holds
  obtain ⟨isReady, reached⟩ := holds
  have member : number ∈ (List.range' start (last + 1 - start)).filter fun block => FINALITY_BLOCKS ≤ currentBlock - block := by
    rw [split]
    exact List.mem_append_right _ List.mem_cons_self
  simp only [List.mem_filter, List.mem_range'_1, decide_eq_true_eq] at member
  have positive : 0 < FINALITY_BLOCKS := by decide
  have frozen : number < later.2.chain.frozen := by
    have grown := reached.frozen
    omega
  exact (Safe.later evolves (block number later member.1.1 (le_min (by omega) (by omega)) now isReady frozen)).weaken
    fun _ _ _ ended => ⟨ended.1, reached.trans ended.2⟩

/-- All logs above the cursor that the chain has when they are fetched are gone
through, before any block is finalized. -/
theorem indexContract_rule (evolves : ∀ chain after, may chain after → chain.Evolves after)
    {custodyAddr contract : Address} {currentBlock lastBlock : Nat} {scanned : History → List Log → History → Prop}
    {history : History} (now : holds history) (stable : ∀ first last, Stable may (.getLogs contract first last) holds)
    (fetch : ∀ fetched, Later history fetched → holds fetched → scanned fetched [] fetched)
    (scan : ∀ fetched done log later, Later history fetched → holds fetched → holds later →
      log ∈ fetched.2.chain.getLogs blocks contract (lastBlock + 1) (min (lastBlock + 1 + 50) currentBlock) →
      scanned fetched done later → (processLog contract log).Safe (Extends outside blocks may allowed good) holds
        (fun _ => scanned fetched (done ++ [log])) later)
    (finalizes : ∀ fetched later, Later history fetched → Later fetched later → holds fetched → holds later →
      scanned fetched
        (fetched.2.chain.getLogs blocks contract (lastBlock + 1) (min (lastBlock + 1 + 50) currentBlock)) later →
      (finalizeBlocks custodyAddr contract (lastBlock + 1) (min (lastBlock + 1 + 50) currentBlock) currentBlock).Safe
        (Extends outside blocks may allowed good) holds (fun _ _ => True) later) :
    (indexContract custodyAddr currentBlock (contract, lastBlock)).Safe (Extends outside blocks may allowed good) holds
      (fun _ _ => True) history := by
  obtain ⟨trace, world⟩ := history
  unfold indexContract
  dsimp only
  split
  next => exact Program.safe_pure now trivial
  next =>
    apply safe_query now (stable _ _) nofun
    intro found asked logs drifts fetched now
    have later := Later.query evolves drifts trace
      (.getLogs contract (lastBlock + 1) (min (lastBlock + 1 + 50) currentBlock), asked)
    cases logs with
    | none => exact Program.safe_pure now trivial
    | some logs =>
      obtain rfl := Option.some.inj (answered_some fetched)
      apply Program.safe_bind
      refine (Safe.later evolves (Program.safe_forM (scanned (_, found)) now (fetch _ later now) ?_)).weaken
        fun _ ended current reached => finalizes _ ended later reached.2 now current reached.1
      intro done log rest split between current reached
      have member : log ∈ found.chain.getLogs blocks contract (lastBlock + 1) (min (lastBlock + 1 + 50) currentBlock) := by
        rw [split]
        exact List.mem_append_right _ List.mem_cons_self
      exact scan _ done log between later now current member reached

/-- The head is read before the cursors, and both before the contracts are gone through. -/
theorem poll_rule (evolves : ∀ chain after, may chain after → chain.Evolves after) {custodyAddr : Address}
    (stable : ∀ operation ∈ [Operation.getBlockNumber, .selectCursors], Stable may operation holds)
    (contract : ∀ currentBlock cursor selected history, holds selected → holds history → Later selected history →
      cursor ∈ selected.2.db.indexerCursors → currentBlock < history.2.chain.frozen + FINALITY_BLOCKS →
      (indexContract custodyAddr currentBlock (cursor.contractAddress, cursor.lastFinalizedBlock)).Safe
        (Extends outside blocks may allowed good) holds (fun _ _ => True) history)
    {history : History} (now : holds history) :
    (poll custodyAddr).Safe (Extends outside blocks may allowed good) holds (fun _ _ => True) history := by
  simp only [List.forall_mem_cons, List.not_mem_nil, IsEmpty.forall_iff, implies_true, and_true] at stable
  obtain ⟨getBlockNumber, selectCursors⟩ := stable
  obtain ⟨trace, world⟩ := history
  apply safe_query now getBlockNumber nofun
  intro found asked head _ answered now
  cases head with
  | none => exact Program.safe_pure now trivial
  | some currentBlock =>
    obtain rfl := Option.some.inj (answered_some answered)
    apply safe_query now selectCursors nofun
    intro selected ended cursors drifts answered now
    cases cursors with
    | none => exact Program.safe_pure now trivial
    | some cursors =>
      obtain rfl := Option.some.inj (answered_some answered)
      have depth : found.chain.head < selected.chain.frozen + FINALITY_BLOCKS :=
        found.chain.buried.trans_le (Nat.add_le_add_right (evolves _ _ drifts.chain).frozen _)
      refine (Program.safe_forM (fun _ => Later (_, selected)) now (.refl _) ?_).weaken fun _ _ _ _ => trivial
      intro done listed rest split history current later
      have member : listed ∈ selected.db.indexerCursors.map fun row => (row.contractAddress, row.lastFinalizedBlock) := by
        rw [split]
        exact List.mem_append_right _ List.mem_cons_self
      obtain ⟨cursor, row, rfl⟩ := List.mem_map.mp member
      have deep := depth.trans_le (Nat.add_le_add_right later.frozen _)
      exact (Safe.later evolves (contract found.chain.head cursor _ history now current later row deep)).weaken
        fun _ _ _ reached => later.trans reached.2

end

end Omniscient.Indexer

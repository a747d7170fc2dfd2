import Omniscient.IndexerProcess
import Omniscient.Proofs.LostEvents

/-! The order of the blocks that the indexer finalizes and reconciles, over its
whole life. A turn reads the cursors once and goes up from them; what it may still
finalize is bounded below by what it has read or finalized already. -/

namespace Omniscient.Indexer

def Label.finalizes (contract : Address) : Label → Option Nat
  | (.transact (.finalize moved block _), .succeeds) => if moved = contract then some block else none
  | (.transact (.finalize moved block _), .unreported) => if moved = contract then some block else none
  | _ => none

def Label.reconciles : Label → Option Nat
  | (.reconcile block, _) => some block
  | _ => none

def Operation.finalizes : Operation → Bool
  | .transact (.finalize ..) => true
  | _ => false

def finalized (contract : Address) (trace : List Label) : List Nat := trace.filterMap (Label.finalizes contract)

def reconciled (trace : List Label) : List Nat := trace.filterMap Label.reconciles

/-- Where a turn is: how far each contract that it has read a cursor of has come, and
the block of Custody whose finalization was the last operation. -/
structure Pace where
  reached : Address → Option Nat
  reconcilable : Option Nat

def Pace.resting (pace : Pace) : Pace := { pace with reconcilable := none }

def Pace.Below (pace : Pace) (contract : Address) (block : Nat) : Prop :=
  ∃ bound, pace.reached contract = some bound ∧ bound < block

def Pace.Ready (pace : Pace) : Operation → Prop
  | .transact (.finalize contract block _) => pace.Below contract block
  | .reconcile block => pace.reconcilable = some block
  | _ => True

def Pace.Moves (custodyAddr : Address) (pace : Pace) : (operation : Operation) → operation.Answer → Pace → Prop
  | .transact (.finalize contract block _), committed, after =>
    after.reached = Function.update pace.reached contract (some block) ∧
      after.reconcilable = if committed = true ∧ contract = custodyAddr then some block else none
  | .selectCursors, some cursors, after =>
    (cursors.map Prod.fst).Nodup ∧ (∀ cursor ∈ cursors, after.reached cursor.1 = some cursor.2) ∧ after.reconcilable = none
  | _, _, after => after.reached = pace.reached ∧ after.reconcilable = none

section
variable {custodyAddr : Address} {outside : Surroundings} {config : AppConfig} {blocks : Bytes32 → List RawLog}
  {may : Chain → Chain → Prop}

abbrev Keeps (custodyAddr : Address) (program : Effect Unit) (post : Pace → Prop) (pace : Pace) : Prop :=
  program.Follows Pace.Ready (Pace.Moves custodyAddr) (fun _ => post) pace

theorem keeps_forM {β : Type} {items : List β} {body : β → Effect Unit} {pace : Pace} (kept : List β → Pace → Prop)
    (start : kept [] pace)
    (step : ∀ done item rest, items = done ++ item :: rest → ∀ pace, kept done pace →
      Keeps custodyAddr (body item) (kept (done ++ [item])) pace) :
    Keeps custodyAddr (items.forM body) (kept items) pace := Program.follows_forM kept start step

structure Pace.Upto (contract : Address) (block : Nat) (pace after : Pace) : Prop where
  own : after.reached contract = pace.reached contract ∨ after.reached contract = some block
  others : ∀ other, other ≠ contract → after.reached other = pace.reached other

theorem Pace.Upto.of_same {contract : Address} {block : Nat} {pace after : Pace} (same : after.reached = pace.reached) :
    pace.Upto contract block after := ⟨.inl (congrFun same _), fun other _ => congrFun same other⟩

private theorem processLog_keeps {contract : Address} {log : Log} {pace : Pace} :
    Keeps custodyAddr (processLog contract log) (fun after => after.reached = pace.reached) pace := by
  unfold processLog
  split
  next => exact rfl
  next =>
    apply Program.follows_bind
    apply Program.follows_request trivial
    intro answer looked holds
    obtain ⟨same, -⟩ := holds
    match answer with
    | none => exact same
    | some true => exact same
    | some false =>
      apply Program.follows_bind
      apply Program.follows_request trivial
      intro _ after holds
      obtain ⟨kept, -⟩ := holds
      exact kept.trans same

private theorem finalizeBlock_keeps {contract : Address} {block : Nat} {pace : Pace}
    (above : pace.Below contract block) :
    Keeps custodyAddr (finalizeBlock custodyAddr contract block) (pace.Upto contract block) pace := by
  unfold finalizeBlock
  apply Program.follows_bind
  apply Program.follows_request trivial
  intro hash found holds
  obtain ⟨same, -⟩ := holds
  cases hash with
  | none => exact .of_same same
  | some hash =>
    dsimp only
    split
    next => exact .of_same same
    next =>
      apply Program.follows_bind
      apply Program.follows_request trivial
      intro stored compared holds
      obtain ⟨again, -⟩ := holds
      have same := again.trans same
      cases stored with
      | none => exact .of_same same
      | some stored =>
        dsimp only
        split
        next =>
          apply Program.follows_bind
          apply Program.follows_request trivial
          intro _ after holds
          obtain ⟨kept, -⟩ := holds
          exact .of_same (kept.trans same)
        next =>
          apply Program.follows_bind
          have ready : compared.Ready (.transact (.finalize contract block hash)) := by
            obtain ⟨bound, current, less⟩ := above
            exact ⟨bound, (congrFun same contract).trans current, less⟩
          apply Program.follows_request ready
          intro committed moved holds
          obtain ⟨updated, reconcilable⟩ := holds
          have upto : pace.Upto contract block moved := by
            rw [same] at updated
            refine ⟨.inr ?_, fun other different => ?_⟩
            · rw [updated, Function.update_self]
            · rw [updated, Function.update_of_ne different]
          split
          next custody =>
            refine Program.follows_request (reconcilable.trans (if_pos custody)) ?_
            intro _ after holds
            obtain ⟨kept, -⟩ := holds
            exact ⟨by rw [kept]; exact upto.own, by rw [kept]; exact upto.others⟩
          next => exact upto

private theorem finalizeBlocks_keeps {contract : Address} {start last currentBlock : Nat} {pace : Pace}
    (below : pace.Below contract start) :
    Keeps custodyAddr (finalizeBlocks custodyAddr contract start last currentBlock)
      (fun after => ∀ other, other ≠ contract → after.reached other = pace.reached other) pace := by
  let blocks := (List.range' start (last + 1 - start)).filter fun block => FINALITY_BLOCKS ≤ currentBlock - block
  have sorted : blocks.Pairwise (· < ·) := List.Pairwise.filter _ (List.pairwise_lt_range' _)
  have above : ∀ block ∈ blocks, start ≤ block := fun block member =>
    (List.mem_range'_1.mp (List.mem_filter.mp member).1).1
  let kept (done : List Nat) (after : Pace) : Prop :=
    (after.Below contract start ∨ ∃ block ∈ done, after.reached contract = some block) ∧
      ∀ other, other ≠ contract → after.reached other = pace.reached other
  have walk : Keeps custodyAddr (blocks.forM (finalizeBlock custodyAddr contract)) (kept blocks) pace := by
    apply keeps_forM kept ⟨.inl below, fun _ _ => rfl⟩
    intro done block rest split middle holds
    obtain ⟨own, others⟩ := holds
    rw [split] at sorted
    have next : middle.Below contract block := by
      rcases own with ⟨bound, current, early⟩ | ⟨earlier, member, current⟩
      · exact ⟨bound, current, early.trans_le (above block (split ▸ List.mem_append_right _ List.mem_cons_self))⟩
      · exact ⟨earlier, current, (List.pairwise_append.mp sorted).2.2 _ member block List.mem_cons_self⟩
    refine (finalizeBlock_keeps next).weaken fun _ after upto => ⟨?_, fun other different => ?_⟩
    · rcases upto.own with same | moved
      · rw [Pace.Below, same]
        exact own.imp_right fun ⟨earlier, member, current⟩ => ⟨earlier, List.mem_append_left _ member, current⟩
      · exact .inr ⟨block, List.mem_append_right _ (List.mem_singleton.mpr rfl), moved⟩
    · exact (upto.others other different).trans (others other different)
  exact walk.weaken fun _ _ reached => reached.2

private theorem indexContract_keeps {currentBlock : Nat} {cursor : Address × Nat} {pace : Pace}
    (current : pace.reached cursor.1 = some cursor.2) :
    Keeps custodyAddr (indexContract custodyAddr currentBlock cursor)
      (fun after => ∀ other, other ≠ cursor.1 → after.reached other = pace.reached other) pace := by
  obtain ⟨contract, lastBlock⟩ := cursor
  unfold indexContract
  dsimp only
  split
  next => exact fun _ _ => rfl
  next =>
    apply Program.follows_bind
    apply Program.follows_request trivial
    intro logs fetched holds
    obtain ⟨same, -⟩ := holds
    cases logs with
    | none => exact fun other _ => congrFun same other
    | some logs =>
      apply Program.follows_bind
      have walk : Keeps custodyAddr (logs.forM (processLog contract)) (fun after => after.reached = pace.reached) fetched :=
        keeps_forM (fun _ after => after.reached = pace.reached) same fun _ _ _ _ _ reached =>
          processLog_keeps.weaken fun _ _ kept => kept.trans reached
      refine walk.weaken fun _ scanned kept => ?_
      have below : scanned.Below contract (lastBlock + 1) :=
        ⟨lastBlock, (congrFun kept contract).trans current, Nat.lt_succ_self _⟩
      exact (finalizeBlocks_keeps below).weaken fun _ _ others other different =>
        (others other different).trans (congrFun kept other)

private theorem poll_keeps (pace : Pace) : Keeps custodyAddr (poll custodyAddr) (fun _ => True) pace := by
  unfold poll
  apply Program.follows_bind
  apply Program.follows_request trivial
  intro head found _
  cases head with
  | none => exact trivial
  | some currentBlock =>
    apply Program.follows_bind
    apply Program.follows_request trivial
    intro cursors selected moved
    cases cursors with
    | none => exact trivial
    | some cursors =>
      obtain ⟨distinct, current, -⟩ := moved
      -- The contracts that are still to come stand where they were selected.
      let kept (done : List (Address × Nat)) (after : Pace) : Prop :=
        ∀ cursor ∈ cursors, cursor.1 ∉ done.map Prod.fst → after.reached cursor.1 = some cursor.2
      have walk : Keeps custodyAddr (cursors.forM (indexContract custodyAddr currentBlock)) (kept cursors) selected := by
        apply keeps_forM kept fun cursor member _ => current cursor member
        intro done cursor rest split middle reached
        have fresh : cursor.1 ∉ done.map Prod.fst := by
          rw [split, List.map_append, List.map_cons, List.nodup_middle] at distinct
          exact fun member => (List.nodup_cons.mp distinct).1 (List.mem_append_left _ member)
        have own := reached cursor (split ▸ List.mem_append_right _ List.mem_cons_self) fresh
        refine (indexContract_keeps own).weaken fun _ after others other member absent => ?_
        rw [List.map_append, List.mem_append, not_or] at absent
        have different : other.1 ≠ cursor.1 := fun same => absent.2 (List.mem_singleton.mpr same)
        exact (others other.1 different).trans (reached other member absent.1)
      exact walk.weaken fun _ _ _ => trivial

structure Advancing (custodyAddr : Address) (trace : List Label) (db : Database) : Prop where
  distinct : (db.indexerCursors.map (·.contractAddress)).Nodup
  current : ∀ cursor ∈ db.indexerCursors, cursor.lastFinalizedBlock = (finalized cursor.contractAddress trace).getLastD 0
  followed : ∀ contract, finalized contract trace ≠ [] → contract ∈ db.indexerCursors.map (·.contractAddress)
  ordered : ∀ contract, (0 :: finalized contract trace).Pairwise (· < ·)
  posted : (reconciled trace).Sublist (finalized custodyAddr trace)

/-- The pace is behind no block that was finalized, and the block it lets be
reconciled was not reconciled before. -/
structure Paced (custodyAddr : Address) (pace : Pace) (trace : List Label) (db : Database) : Prop
    extends Advancing custodyAddr trace db where
  reached : ∀ contract bound, pace.reached contract = some bound →
    contract ∈ db.indexerCursors.map (·.contractAddress) ∧ (finalized contract trace).getLastD 0 ≤ bound
  reconcilable : ∀ block, pace.reconcilable = some block →
    (reconciled trace ++ [block]).Sublist (finalized custodyAddr trace)

theorem finalized_append (contract : Address) (trace : List Label) (label : Label) :
    finalized contract (trace ++ [label]) = finalized contract trace ++ (Label.finalizes contract label).toList := by
  rw [finalized, List.filterMap_append]
  cases finalizes : Label.finalizes contract label <;> simp [finalized, finalizes]

theorem reconciled_append (trace : List Label) (label : Label) :
    reconciled (trace ++ [label]) = reconciled trace ++ (Label.reconciles label).toList := by
  rw [reconciled, List.filterMap_append]
  cases reconciles : Label.reconciles label <;> simp [reconciled, reconciles]

/-- An operation that finalizes nothing and reconciles nothing, and leaves the cursors. -/
theorem Advancing.other {trace : List Label} {db after : Database} (advancing : Advancing custodyAddr trace db)
    (cursors : after.indexerCursors = db.indexerCursors) : Advancing custodyAddr trace after := by
  obtain ⟨distinct, current, followed, ordered, posted⟩ := advancing
  exact ⟨by rwa [cursors], by rwa [cursors], by rwa [cursors], ordered, posted⟩

private theorem Advancing.upto_last {trace : List Label} {db : Database} (advancing : Advancing custodyAddr trace db)
    (contract : Address) : ∀ block ∈ 0 :: finalized contract trace, block ≤ (finalized contract trace).getLastD 0 := by
  have ordered := advancing.ordered contract
  intro block member
  rcases List.eq_nil_or_concat' (finalized contract trace) with empty | ⟨earlier, last, split⟩
  · rw [empty] at member ⊢
    rw [List.mem_singleton.mp member]
    exact le_refl _
  · rw [split, ← List.cons_append] at member ordered
    rw [split, List.getLastD_concat]
    rcases List.mem_append.mp member with before | here
    · exact ((List.pairwise_append.mp ordered).2.2 _ before last (List.mem_singleton.mpr rfl)).le
    · exact (List.mem_singleton.mp here).le

theorem finalizes_quiet {operation : Operation} (other : operation.finalizes = false) (contract : Address)
    (ending : Ending) : Label.finalizes contract (operation, ending) = none := by
  cases operation with
  | transact transaction =>
    cases transaction with
    | finalize moved block hash => cases other
    | indexLog log => cases ending <;> rfl
    | rollbackUnfinalized block => cases ending <;> rfl
  | _ => cases ending <;> rfl

theorem finalizes_committed (contract moved : Address) (block : Nat) (hash : Bytes32) {ending : Ending}
    (took : ending ≠ .fails) :
    Label.finalizes contract (.transact (.finalize moved block hash), ending) = if moved = contract then some block else none := by
  cases ending with
  | fails => exact absurd rfl took
  | succeeds => rfl
  | unreported => rfl

theorem Advancing.finalize {trace : List Label} {db : Database} (advancing : Advancing custodyAddr trace db)
    {contract : Address} {block : Nat} {hash : Bytes32} {ending : Ending} (took : ending ≠ .fails)
    (listed : contract ∈ db.indexerCursors.map (·.contractAddress))
    (above : (finalized contract trace).getLastD 0 < block) :
    Advancing custodyAddr (trace ++ [(.transact (.finalize contract block hash), ending)])
      (finalize contract block hash db) := by
  have grown (other : Address) : finalized other (trace ++ [(.transact (.finalize contract block hash), ending)]) =
      finalized other trace ++ (if contract = other then some block else none).toList := by
    rw [finalized_append, finalizes_committed other contract block hash took]
  have contracts : (Indexer.finalize contract block hash db).indexerCursors.map (·.contractAddress) =
      db.indexerCursors.map (·.contractAddress) := by
    rw [Indexer.finalize, List.map_map]
    apply List.map_congr_left
    intro cursor _
    dsimp only [Function.comp]
    split <;> rfl
  refine ⟨contracts ▸ advancing.distinct, fun cursor member => ?_, fun other some_ => ?_, fun other => ?_, ?_⟩
  · obtain ⟨old, row, rfl⟩ := List.mem_map.mp member
    rw [grown]
    by_cases own : old.contractAddress = contract
    · simp [own]
    · simpa [own, Ne.symm own] using advancing.current old row
  · rw [contracts]
    by_cases own : contract = other
    · exact own ▸ listed
    · rw [grown, if_neg own, Option.toList_none, List.append_nil] at some_
      exact advancing.followed other some_
  · rw [grown]
    by_cases own : contract = other
    · rw [if_pos own, ← List.cons_append]
      refine List.pairwise_append.mpr ⟨advancing.ordered other, List.pairwise_singleton _ _, ?_⟩
      intro earlier before last here
      rw [List.mem_singleton.mp here]
      exact (advancing.upto_last other earlier before).trans_lt (own ▸ above)
    · rw [if_neg own, Option.toList_none, List.append_nil]
      exact advancing.ordered other
  · rw [grown, reconciled_append]
    exact (advancing.posted.append (List.nil_sublist _))

/-- An operation that finalizes nothing and reconciles nothing, and leaves the cursors. -/
theorem Paced.other {pace : Pace} {trace : List Label} {db after : Database} (paced : Paced custodyAddr pace trace db)
    (cursors : after.indexerCursors = db.indexerCursors) {label : Label}
    (quiet : ∀ contract, Label.finalizes contract label = none) (silent : Label.reconciles label = none) :
    Paced custodyAddr pace.resting (trace ++ [label]) after := by
  have same (contract : Address) : finalized contract (trace ++ [label]) = finalized contract trace := by
    rw [finalized_append, quiet, Option.toList_none, List.append_nil]
  obtain ⟨⟨distinct, current, followed, ordered, posted⟩, reached, -⟩ := paced
  refine ⟨⟨?_, ?_, ?_, ?_, ?_⟩, ?_, nofun⟩
  · rwa [cursors]
  · simpa only [cursors, same] using current
  · simpa only [cursors, same] using followed
  · simpa only [same] using ordered
  · rwa [same, reconciled_append, silent, Option.toList_none, List.append_nil]
  · simpa only [cursors, same, Pace.resting] using reached

theorem rollbackUnfinalized_cursors {fromBlock : Nat} {db after : Database}
    (ran : rollbackUnfinalized fromBlock db = .ok after) : after.indexerCursors = db.indexerCursors := by
  simp only [rollbackUnfinalized, Outcome.bind_ok, Outcome.revertIf_ok, Outcome.pure_ok] at ran
  obtain ⟨-, -, -, -, rfl⟩ := ran
  rfl

theorem transact_cursors {world after : World} {transaction : Transaction} {ending : Ending} {answer : Bool}
    (other : (Operation.transact transaction).finalizes = false)
    (performed : world.perform outside blocks (.transact transaction) ending = some (answer, after)) :
    after.db.indexerCursors = world.db.indexerCursors := by
  rcases transact_cases performed with ⟨-, -, rfl⟩ | ⟨-, db, ran, rfl⟩
  · rfl
  · cases transaction with
    | indexLog contract log => exact (indexLog_ok ran).cursors
    | finalize contract block hash => cases other
    | rollbackUnfinalized fromBlock => exact rollbackUnfinalized_cursors ran

theorem update_reached {reached : Address → Option Nat} {contract : Address} {block : Nat} {holds : Address → Nat → Prop}
    (own : holds contract block) (others : ∀ other bound, other ≠ contract → reached other = some bound → holds other bound)
    (other : Address) (bound : Nat) (found : Function.update reached contract (some block) other = some bound) :
    holds other bound := by
  by_cases same : other = contract
  · subst same
    rw [Function.update_self] at found
    cases found
    exact own
  · rw [Function.update_of_ne same] at found
    exact others other bound same found

/-- The finalization that the pace lets happen, whether it commits or not. -/
theorem Paced.finalize {pace : Pace} {trace : List Label} {world after : World} (paced : Paced custodyAddr pace trace world.db)
    {contract : Address} {block : Nat} {hash : Bytes32} {ending : Ending} {answer : Bool}
    (below : pace.Below contract block)
    (performed : world.perform outside blocks (.transact (.finalize contract block hash)) ending = some (answer, after)) :
    Paced custodyAddr ⟨Function.update pace.reached contract (some block),
      if answer = true ∧ contract = custodyAddr then some block else none⟩
      (trace ++ [(.transact (.finalize contract block hash), ending)]) after.db := by
  obtain ⟨bound, known, less⟩ := below
  obtain ⟨listed, behind⟩ := paced.reached contract bound known
  rcases transact_cases performed with ⟨rfl, rfl, rfl⟩ | ⟨took, db, ran, rfl⟩
  · have kept : Paced custodyAddr pace.resting (trace ++ [(.transact (.finalize contract block hash), .fails)]) _ :=
      paced.other rfl (fun _ => rfl) rfl
    refine ⟨kept.toAdvancing, update_reached ?_ fun other limit _ found => kept.reached other limit found, by simp⟩
    exact ⟨listed, (kept.reached contract bound known).2.trans less.le⟩
  · cases ran
    have moved : Advancing custodyAddr (trace ++ [(.transact (.finalize contract block hash), ending)])
        (Indexer.finalize contract block hash world.db) := paced.toAdvancing.finalize took listed (behind.trans_lt less)
    have grown (other : Address) := finalized_append other trace (.transact (.finalize contract block hash), ending)
    simp only [finalizes_committed _ contract block hash took] at grown
    refine ⟨moved, update_reached ⟨moved.followed contract ?_, ?_⟩ fun other limit different found => ?_,
      fun posted found => ?_⟩
    · simp [grown]
    · simp [grown]
    · obtain ⟨there, most⟩ := paced.reached other limit found
      rw [grown, if_neg (Ne.symm different), Option.toList_none, List.append_nil]
      refine ⟨?_, most⟩
      obtain ⟨cursor, row, named⟩ := List.mem_map.mp there
      refine List.mem_map.mpr ⟨_, List.mem_map_of_mem row, ?_⟩
      split <;> exact named
    · split at found
      next custody =>
        cases found
        rw [grown, if_pos custody.2, reconciled_append]
        simpa [Label.reconciles] using paced.posted
      next => cases found

theorem Paced.step {pace : Pace} {trace : List Label} {world drifted after : World} {operation : Operation} {ending : Ending}
    {answer : operation.Answer} (paced : Paced custodyAddr pace trace world.db) (ready : pace.Ready operation)
    (drifts : world.Drifts may drifted)
    (performed : drifted.perform outside blocks operation ending = some (answer, after)) :
    ∃ next, pace.Moves custodyAddr operation answer next ∧
      Paced custodyAddr next (trace ++ [(operation, ending)]) after.db := by
  have cursors := drifts.index.cursors
  have query (same : after = drifted) (other : operation.finalizes = false)
      (silent : Label.reconciles (operation, ending) = none) :
      Paced custodyAddr pace.resting (trace ++ [(operation, ending)]) after.db :=
    paced.other (by rw [same, cursors]) (fun contract => finalizes_quiet other contract ending) silent
  cases operation with
  | getBlockNumber => exact ⟨pace.resting, ⟨rfl, rfl⟩, query (answered_cases performed).1 rfl rfl⟩
  | getLogs contract first last => exact ⟨pace.resting, ⟨rfl, rfl⟩, query (answered_cases performed).1 rfl rfl⟩
  | selectIndexed log => exact ⟨pace.resting, ⟨rfl, rfl⟩, query (answered_cases performed).1 rfl rfl⟩
  | getBlock number => exact ⟨pace.resting, ⟨rfl, rfl⟩, query (answered_cases performed).1 rfl rfl⟩
  | selectCheckpoint number => exact ⟨pace.resting, ⟨rfl, rfl⟩, query (answered_cases performed).1 rfl rfl⟩
  | selectCursors =>
    obtain ⟨same, answer⟩ := answered_cases performed
    have kept := query same rfl rfl
    rcases answer with ⟨-, rfl⟩ | ⟨-, rfl⟩
    · let reached (contract : Address) : Option Nat :=
        if contract ∈ after.db.indexerCursors.map (·.contractAddress) then
          some ((finalized contract (trace ++ [(.selectCursors, ending)])).getLastD 0)
        else
          none
      refine ⟨⟨reached, none⟩, ⟨?_, fun cursor member => ?_, rfl⟩, kept.toAdvancing, fun contract bound found => ?_, nofun⟩
      · rw [List.map_map, cursors]
        exact paced.distinct
      · obtain ⟨row, listed, rfl⟩ := List.mem_map.mp member
        rw [← same] at listed
        dsimp only [reached]
        rw [if_pos (List.mem_map_of_mem listed), kept.current row listed]
      · dsimp only [reached] at found
        split at found
        next listed =>
          cases found
          exact ⟨listed, le_refl _⟩
        next => cases found
    · exact ⟨pace.resting, ⟨rfl, rfl⟩, kept⟩
  | reconcile block =>
    cases performed
    have posted := paced.reconcilable block ready
    have same (contract : Address) : finalized contract (trace ++ [(.reconcile block, ending)]) = finalized contract trace := by
      rw [finalized_append, finalizes_quiet rfl contract ending, Option.toList_none, List.append_nil]
    obtain ⟨⟨distinct, current, followed, ordered, -⟩, reached, -⟩ := paced
    refine ⟨pace.resting, ⟨rfl, rfl⟩, ⟨?_, ?_, ?_, ?_, ?_⟩, ?_, nofun⟩
    · rwa [cursors]
    · simpa only [cursors, same] using current
    · simpa only [cursors, same] using followed
    · simpa only [same] using ordered
    · rw [same, reconciled_append]
      exact posted
    · simpa only [cursors, same, Pace.resting] using reached
  | transact transaction =>
    cases transaction with
    | indexLog contract log =>
      exact ⟨pace.resting, ⟨rfl, rfl⟩, paced.other ((transact_cursors rfl performed).trans cursors)
        (fun contract => finalizes_quiet rfl contract ending) rfl⟩
    | rollbackUnfinalized fromBlock =>
      exact ⟨pace.resting, ⟨rfl, rfl⟩, paced.other ((transact_cursors rfl performed).trans cursors)
        (fun contract => finalizes_quiet rfl contract ending) rfl⟩
    | finalize contract block hash =>
      have drifted : Paced custodyAddr pace trace drifted.db := by
        obtain ⟨advancing, reached, reconcilable⟩ := paced
        exact ⟨advancing.other cursors, by rwa [cursors], reconcilable⟩
      exact ⟨_, ⟨rfl, rfl⟩, drifted.finalize ready performed⟩

theorem operations_append (life : List Life) (event : Life) :
    operations (life ++ [event]) = operations life ++ event.label.toList := by
  rw [operations, List.filterMap_append]
  cases label : event.label <;> simp [operations, label]

private theorem operations_operates (trace : List Label) : operations (trace.map .operates) = trace := by
  rw [operations, List.filterMap_map]
  exact List.filterMap_some

/-- A new cursor stands before every block, for a contract of which none was finalized. -/
theorem Advancing.ensureCursor {trace : List Label} {db : Database} (advancing : Advancing custodyAddr trace db)
    (contract : Address) : Advancing custodyAddr trace (ensureCursor db contract) := by
  unfold Indexer.ensureCursor
  split
  next => exact advancing
  next absent =>
    have unlisted : contract ∉ db.indexerCursors.map (·.contractAddress) := by
      simpa [List.any_eq_true] using absent
    obtain ⟨distinct, current, followed, ordered, posted⟩ := advancing
    refine ⟨?_, fun cursor member => ?_, fun other some_ => ?_, ordered, posted⟩
    · rw [List.map_append, List.map_singleton]
      refine List.nodup_append.mpr ⟨distinct, List.nodup_singleton _, fun other listed last here => ?_⟩
      intro same
      subst same
      rw [List.mem_singleton.mp here] at listed
      exact unlisted listed
    · rcases List.mem_append.mp member with before | here
      · exact current cursor before
      · have nothing : finalized contract trace = [] := by
          by_contra some_
          exact unlisted (followed contract some_)
        rw [List.mem_singleton.mp here, nothing]
        rfl
    · rw [List.map_append]
      exact List.mem_append_left _ (followed other some_)

theorem Advancing.ensureCursors {trace : List Label} {db : Database} (advancing : Advancing custodyAddr trace db)
    (contracts : List Address) : Advancing custodyAddr trace (contracts.foldl Indexer.ensureCursor db) := by
  induction contracts generalizing db with
  | nil => exact advancing
  | cons contract contracts ih => exact ih (advancing.ensureCursor contract)

theorem Advancing.paced {trace : List Label} {db : Database} (advancing : Advancing custodyAddr trace db) :
    Paced custodyAddr ⟨fun _ => none, none⟩ trace db := ⟨advancing, nofun, nofun⟩

def Marching (custodyAddr : Address) (trace : List Label) : Process → Prop
  | .running state => ∃ pace, Keeps custodyAddr state.turn (fun _ => True) pace ∧ Paced custodyAddr pace trace state.world.db
  | .stopped world => Advancing custodyAddr trace world.db

theorem Marching.advancing {trace : List Label} {process : Process} (marching : Marching custodyAddr trace process) :
    Advancing custodyAddr trace process.world.db := by
  cases process with
  | running state =>
    obtain ⟨pace, -, paced⟩ := marching
    exact paced.toAdvancing
  | stopped world => exact marching

theorem Marching.operates {trace : List Label} {state after : State} {label : Label}
    (marching : Marching config.custodyAddr trace (.running state)) (moved : Moves outside config blocks may state label after) :
    Marching config.custodyAddr (trace ++ [label]) (.running after) := by
  obtain ⟨pace, keeps, paced⟩ := marching
  have next : Keeps config.custodyAddr (state.next config.custodyAddr) (fun _ => True) pace := by
    unfold State.next
    split
    next => exact poll_keeps pace
    next => exact keeps
  cases moved with
  | perform pending drifts performed =>
    rw [pending] at next
    obtain ⟨later, stepped, paced⟩ := paced.step next.1 drifts performed
    exact ⟨later, next.2 _ later stepped, paced⟩

/-- Whatever fails, whatever the node answers, whoever else writes, and however often
the process is stopped and started: the blocks finalized for a contract only go up,
its cursor is at the last, and every block of Custody is reconciled at most once. -/
theorem cursors_advance {start : World} (empty : start.db.indexerCursors = []) {life : List Life} {process : Process}
    (run : Run (Lives outside config blocks may) (.stopped start) life process) :
    Advancing config.custodyAddr (operations life) process.world.db := by
  refine (run.invariant (fun life process => Marching config.custodyAddr (operations life) process) ?_ ?_).advancing
  · refine ⟨by simp [empty], by simp [empty], fun _ some_ => absurd rfl some_, fun _ => List.pairwise_singleton _ _, ?_⟩
    exact List.Sublist.refl _
  · intro life process event after _ marching lived
    rw [operations_append]
    cases lived with
    | operates moved => exact marching.operates moved
    | stops =>
      rw [Life.label, Option.toList_none, List.append_nil]
      exact marching.advancing
    | starts drifts inserted =>
      rw [Life.label, Option.toList_none, List.append_nil]
      have ensured := (marching.advancing.other drifts.index.cursors).ensureCursors ((Indexer.followed config).take inserted)
      unfold starting
      dsimp only
      split
      next => exact ⟨_, trivial, ensured.paced⟩
      next => exact ensured

theorem Lives.of_run {state final : State} {trace : List Label} (run : Run (Moves outside config blocks may) state trace final) :
    Run (Lives outside config blocks may) (.running state) (trace.map .operates) (.running final) := by
  apply run.invariant fun trace final => Run (Lives outside config blocks may) (.running state) (trace.map .operates) (.running final)
  · exact .start
  · intro trace state label after _ lived moved
    rw [List.map_append]
    exact lived.next (.operates moved)

end

namespace Sample

def started : World := { chain, db := (followed config).foldl ensureCursor .empty }

/-- The first turn: the deposit is indexed and block 1 is finalized for all contracts. -/
theorem lived : ∃ (trace : List Label) (state : State),
    Run (Lives outside config blocks Chain.Evolves) (.stopped ⟨.empty, chain⟩) (.starts 3 :: trace.map .operates) (.running state) ∧
    reconciled trace = [1] ∧ finalized 203 trace = [1] ∧
    state.world.db.reorgCheckpoints 1 = some ⟨1001, true⟩ := by
  have drove : ((drive outside config blocks (fun _ _ => true) ⟨started, .done ()⟩ (List.replicate 17 (chain, .succeeds))).any
      fun result => decide (reconciled result.1 = [1] ∧ finalized 203 result.1 = [1] ∧
        result.2.world.db.reorgCheckpoints 1 = some ⟨1001, true⟩)) = true := by
    decide +kernel
  obtain ⟨⟨trace, state⟩, driven, checked⟩ := (Option.any_eq_true _ _).mp drove
  obtain ⟨posted, moved, marked⟩ := of_decide_eq_true checked
  have still : (started.chain :: (List.replicate 17 (chain, Ending.succeeds)).map Prod.fst).IsChain Chain.Evolves := by
    simp [started, Chain.Evolves.refl]
  have run := (drive_runs still driven).mono fun _ _ _ => And.left
  have first : Lives outside config blocks Chain.Evolves (.stopped ⟨.empty, chain⟩) (.starts 3) (.running ⟨started, .done ()⟩) :=
    .starts ⟨.refl _, .refl _⟩ 3
  refine ⟨trace, state, ?_, posted, moved, marked⟩
  exact (Run.start.next first).append (Lives.of_run run)

end Sample

/-- A life to which the theorem applies: one turn that finalizes block 1, and an end. -/
theorem cursors_advance_sample : ∃ (life : List Life) (process : Process),
    reconciled (operations life) = [1] ∧
    Advancing Sample.config.custodyAddr (operations life) process.world.db := by
  obtain ⟨trace, state, run, posted, -, -⟩ := Sample.lived
  refine ⟨_, _, ?_, cursors_advance rfl (run.next .stops)⟩
  have same : operations (.starts 3 :: trace.map .operates) = trace := operations_operates trace
  rw [operations_append, same]
  simpa [Life.label] using posted

end Omniscient.Indexer

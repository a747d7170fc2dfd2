import Omniscient.Proofs.Turn

/-! On a fixed chain: whether a cursor can pass a log that was never indexed. The
loop over the logs goes on after a failure, and the loop over the blocks does not
know of it. -/

namespace Omniscient.Indexer
open Outcome

def Label.commits : Label → Option Log
  | (.transact (.indexLog _ log), .succeeds) => some log
  | (.transact (.indexLog _ log), .unreported) => some log
  | _ => none

def Label.misses : Label → Option Log
  | (.selectIndexed log, .fails) => some log
  | (.transact (.indexLog _ log), .fails) => some log
  | _ => none

def committed (trace : List Label) : List Log := trace.filterMap Label.commits

def noteMissed (contract : Address) (missed : List Log) (label : Label) : List Log :=
  match label.1 with
  | .getLogs fetched _ _ => if fetched = contract then [] else missed
  | _ => (Label.misses label).toList ++ missed

/-- The logs that failed since those of the contract were last fetched. -/
def missed (contract : Address) (trace : List Label) : List Log := trace.foldl (noteMissed contract) []

/-- No cursor is moved to or past a log that failed, while it has not been committed. -/
def Careful (outside : Surroundings) (trace : List Label) : Prop :=
  ∀ before contract block hash ending, before ++ [(.transact (.finalize contract block hash), ending)] <+: trace →
    ending ≠ .fails → ∀ log ∈ missed contract before, log.address = contract → log.blockNumber ≤ block →
      Handled outside log → log ∈ committed before

/-- New blocks, and no reorganisation. -/
structure Fixed (chain after : Chain) : Prop where
  evolves : chain.Evolves after
  same : after.hashAt = chain.hashAt

/-- What the node guarantees: a transaction hash and a log index name one log, and
an index is far below 2^63. -/
structure Distinct (blocks : Bytes32 → List RawLog) (hashAt : Nat → Bytes32) : Prop where
  keys : ∀ first second : Log, first ∈ logsAt blocks hashAt first.blockNumber →
    second ∈ logsAt blocks hashAt second.blockNumber → first.key = second.key → first = second
  small : ∀ log : Log, log ∈ logsAt blocks hashAt log.blockNumber → log.logIndex < I64_END

theorem committed_append (trace : List Label) (label : Label) :
    committed (trace ++ [label]) = committed trace ++ (Label.commits label).toList := by
  rw [committed, List.filterMap_append]
  cases commits : Label.commits label <;> simp [committed, commits]

theorem missed_append (contract : Address) (trace : List Label) (label : Label) :
    missed contract (trace ++ [label]) = noteMissed contract (missed contract trace) label := by
  simp [missed]

theorem committed_grows {trace : List Label} {log : Log} (member : log ∈ committed trace) (label : Label) :
    log ∈ committed (trace ++ [label]) := by
  rw [committed_append]
  exact List.mem_append_left _ member

section
variable {outside : Surroundings} {config : AppConfig} {blocks : Bytes32 → List RawLog} {hashAt : Nat → Bytes32}
  {initial : List CursorRow}

/-- Every handled log of the contract in a range of blocks has been committed. -/
def Covered (outside : Surroundings) (blocks : Bytes32 → List RawLog) (hashAt : Nat → Bytes32) (trace : List Label)
    (contract : Address) (low high : Nat) : Prop :=
  ∀ log, low < log.blockNumber → log.blockNumber ≤ high → log ∈ logsAt blocks hashAt log.blockNumber →
    log.address = contract → Handled outside log → log ∈ committed trace

structure Sound (outside : Surroundings) (blocks : Bytes32 → List RawLog) (hashAt : Nat → Bytes32)
    (initial : List CursorRow) (history : History) : Prop where
  chain : history.2.chain.hashAt = hashAt
  checkpoints : ∀ number row, history.2.db.reorgCheckpoints number = some row → row.blockHash = hashAt number
  indexed : ∀ key row, history.2.db.indexedLogs key = some row → ∃ log ∈ committed history.1, log.key = key
  onChain : ∀ log ∈ committed history.1, log ∈ logsAt blocks hashAt log.blockNumber
  marked : ∀ log ∈ committed history.1, Handled outside log → (history.2.db.indexedLogs log.key).isSome
  complete : ∀ first ∈ initial, ∀ cursor ∈ history.2.db.indexerCursors, cursor.contractAddress = first.contractAddress →
    Covered outside blocks hashAt history.1 cursor.contractAddress first.lastFinalizedBlock cursor.lastFinalizedBlock

theorem Covered.grows {trace : List Label} {contract : Address} {low high : Nat}
    (covered : Covered outside blocks hashAt trace contract low high) {later : List Label}
    (grows : ∀ log ∈ committed trace, log ∈ committed later) :
    Covered outside blocks hashAt later contract low high :=
  fun log above below mined own handled => grows log (covered log above below mined own handled)

theorem Sound.drift {trace : List Label} {world drifted : World}
    (sound : Sound outside blocks hashAt initial (trace, world)) (drifts : world.Drifts Fixed drifted) :
    Sound outside blocks hashAt initial (trace, drifted) := by
  obtain ⟨chain, checkpoints, indexed, onChain, marked, complete⟩ := sound
  refine ⟨drifts.chain.same.trans chain, ?_, ?_, onChain, ?_, ?_⟩
  · rw [drifts.index.checkpoints]
    exact checkpoints
  · rw [drifts.index.logs]
    exact indexed
  · rw [drifts.index.logs]
    exact marked
  · rw [drifts.index.cursors]
    exact complete

theorem Sound.record {trace : List Label} {world : World} (sound : Sound outside blocks hashAt initial (trace, world))
    (label : Label) (quiet : Label.commits label = none) :
    Sound outside blocks hashAt initial (trace ++ [label], world) := by
  have same : committed (trace ++ [label]) = committed trace := by rw [committed_append, quiet]; simp
  obtain ⟨chain, checkpoints, indexed, onChain, marked, complete⟩ := sound
  refine ⟨chain, checkpoints, ?_, ?_, ?_, ?_⟩
  · rw [same]
    exact indexed
  · rw [same]
    exact onChain
  · rw [same]
    exact marked
  · intro first listed cursor row own
    exact (complete first listed cursor row own).grows fun log member => committed_grows member label

theorem Sound.index {trace : List Label} {world : World} (sound : Sound outside blocks hashAt initial (trace, world))
    {contract : Address} {log : Log} {db : Database} {label : Label} (commits : Label.commits label = some log)
    (mined : log ∈ logsAt blocks hashAt log.blockNumber) (effect : IndexedBy outside contract log world.db db) :
    Sound outside blocks hashAt initial (trace ++ [label], { world with db }) := by
  have members (other : Log) : other ∈ committed (trace ++ [label]) ↔ other ∈ committed trace ∨ other = log := by
    simp [committed_append, commits]
  refine ⟨sound.chain, effect.canonical (mined_hash mined) sound.checkpoints, fun key row found => ?_,
    fun other member => ?_, fun other member handled => ?_, fun first listed cursor row own => ?_⟩
  · rcases effect.marked found with ⟨old, before⟩ | rfl
    · obtain ⟨other, member, named⟩ := sound.indexed key old before
      exact ⟨other, (members other).mpr (.inl member), named⟩
    · exact ⟨log, (members log).mpr (.inr rfl), rfl⟩
  · rcases (members other).mp member with before | rfl
    · exact sound.onChain other before
    · exact mined
  · rcases (members other).mp member with before | rfl
    · exact effect.keepsMark (sound.marked other before handled)
    · exact effect.mark handled
  · rw [effect.cursors] at row
    exact (sound.complete first listed cursor row own).grows fun other member => (members other).mpr (.inl member)

theorem Sound.finalize {trace : List Label} {world : World} (sound : Sound outside blocks hashAt initial (trace, world))
    {contract : Address} {block : Nat} {hash : Bytes32}
    (covered : ∀ first ∈ initial, first.contractAddress = contract →
      Covered outside blocks hashAt trace contract first.lastFinalizedBlock block) :
    Sound outside blocks hashAt initial (trace, { world with db := finalize contract block hash world.db }) := by
  refine ⟨sound.chain, fun number row found => ?_, sound.indexed, sound.onChain, sound.marked,
    fun first listed cursor member own => ?_⟩
  · obtain ⟨old, before, same⟩ := finalize_checkpoint found
    exact same.trans (sound.checkpoints number old before)
  · obtain ⟨old, before, rfl⟩ := List.mem_map.mp member
    split at own
    next moved =>
      rw [if_pos moved]
      exact moved ▸ covered first listed (own.symm.trans moved)
    next other =>
      rw [if_neg other]
      exact sound.complete first listed old before own

theorem Fixed.toEvolves (chain after : Chain) (fixed : Fixed chain after) : chain.Evolves after := fixed.evolves

theorem committed_later {history after : History} (later : Later history after) {log : Log}
    (member : log ∈ committed history.1) : log ∈ committed after.1 :=
  (later.trace.filterMap Label.commits).subset member

theorem commits_query {operation : Operation} (query : ∀ transaction, operation ≠ .transact transaction) (ending : Ending) :
    Label.commits (operation, ending) = none := by
  cases operation with
  | transact transaction => exact absurd rfl (query transaction)
  | _ => cases ending <;> rfl

theorem commits_indexLog (contract : Address) (log : Log) {ending : Ending} (took : ending ≠ .fails) :
    Label.commits (.transact (.indexLog contract log), ending) = some log := by
  cases ending with
  | fails => exact absurd rfl took
  | succeeds => rfl
  | unreported => rfl

theorem Sound.stable {operation : Operation} (query : ∀ transaction, operation ≠ .transact transaction) :
    Stable Fixed operation (Sound outside blocks hashAt initial) :=
  fun _ _ _ ending sound drifts => (sound.drift drifts).record (operation, ending) (commits_query query ending)

abbrev Steps (outside : Surroundings) (blocks : Bytes32 → List RawLog) :
    History → (operation : Operation) → operation.Answer → History → Prop :=
  Extends outside blocks Fixed (fun _ _ => True) (Careful outside)

def Tried (contract : Address) (trace : List Label) (log : Log) : Prop :=
  log ∈ committed trace ∨ log ∈ missed contract trace

theorem Tried.record {contract : Address} {trace : List Label} {log : Log} (tried : Tried contract trace log)
    (label : Label) (noFetch : ∀ first last, label.1 ≠ .getLogs contract first last) :
    Tried contract (trace ++ [label]) log := by
  rcases tried with done | failed
  · exact .inl (committed_grows done label)
  · apply Or.inr
    rw [missed_append, noteMissed]
    split
    next fetched first last same =>
      rw [if_neg]
      · exact failed
      · intro same
        subst same
        exact noFetch first last same
    next => exact List.mem_append_right _ failed

private theorem processLog_safe (distinct : Distinct blocks hashAt) {contract : Address} {log : Log}
    (mined : log ∈ logsAt blocks hashAt log.blockNumber) {history : History}
    (sound : Sound outside blocks hashAt initial history) :
    (processLog contract log).Safe (Steps outside blocks) (Sound outside blocks hashAt initial)
      (fun _ after => Tried contract after.1 log ∧
        ∀ other, Tried contract history.1 other → Tried contract after.1 other) history := by
  obtain ⟨trace, world⟩ := history
  unfold processLog
  rw [if_neg (not_le.mpr (distinct.small log mined))]
  refine safe_query sound (Sound.stable nofun) nofun ?_
  intro looking asked answer drifts looked sound
  have keeps (other : Log) (tried : Tried contract trace other) :
      Tried contract (trace ++ [(.selectIndexed log, asked)]) other := tried.record _ nofun
  cases answer with
  | none =>
    obtain ⟨-, ⟨-, none⟩ | ⟨failed, -⟩⟩ := answered_cases looked
    · cases none
    · refine Program.safe_pure sound ⟨.inr ?_, keeps⟩
      rw [missed_append, failed]
      exact List.mem_append_left _ (List.mem_singleton.mpr rfl)
  | some marked =>
    obtain rfl := Option.some.inj (answered_some looked)
    cases found : looking.db.indexedLogs log.key with
    | some row =>
      obtain ⟨other, member, named⟩ := sound.indexed log.key row found
      have same : other = log := distinct.keys other log (sound.onChain other member) mined named
      exact Program.safe_pure sound ⟨.inl (same ▸ member), keeps⟩
    | none =>
      apply Program.safe_bind
      apply safe_operation sound
      intro drifted ending answer after drifts performed _ _
      have drifted := sound.drift drifts
      rcases transact_cases performed with ⟨rfl, rfl, rfl⟩ | ⟨took, db, ran, rfl⟩
      · have recorded := drifted.record (.transact (.indexLog contract log), .fails) rfl
        refine ⟨recorded, recorded, .inr ?_, fun other tried => (keeps other tried).record _ nofun⟩
        rw [missed_append]
        exact List.mem_append_left _ (List.mem_singleton.mpr rfl)
      · have commits := commits_indexLog contract log took
        have recorded := drifted.index commits mined (indexLog_ok ran)
        refine ⟨recorded, recorded, .inl ?_, fun other tried => (keeps other tried).record _ nofun⟩
        rw [committed_append, commits]
        exact List.mem_append_right _ (List.mem_singleton.mpr rfl)

def TriedUpTo (outside : Surroundings) (blocks : Bytes32 → List RawLog) (hashAt : Nat → Bytes32)
    (initial : List CursorRow) (contract : Address) (block : Nat) (trace : List Label) : Prop :=
  ∀ first ∈ initial, first.contractAddress = contract → ∀ log, first.lastFinalizedBlock < log.blockNumber →
    log.blockNumber ≤ block → log ∈ logsAt blocks hashAt log.blockNumber → log.address = contract →
    Handled outside log → Tried contract trace log

theorem TriedUpTo.record {contract : Address} {block : Nat} {trace : List Label}
    (tried : TriedUpTo outside blocks hashAt initial contract block trace) (label : Label)
    (noFetch : ∀ first last, label.1 ≠ .getLogs contract first last) :
    TriedUpTo outside blocks hashAt initial contract block (trace ++ [label]) :=
  fun first listed same log above below mined own handled =>
    (tried first listed same log above below mined own handled).record label noFetch

theorem TriedUpTo.stable {contract : Address} {block : Nat} {operation : Operation}
    (noFetch : ∀ first last, operation ≠ .getLogs contract first last) :
    Stable Fixed operation fun history => TriedUpTo outside blocks hashAt initial contract block history.1 :=
  fun _ _ _ ending tried _ => tried.record (operation, ending) noFetch

/-- A cursor may move to a block up to which all logs were tried: the failed ones
are committed, or it would not be careful. -/
private theorem moveCursor_safe {contract : Address} {block top : Nat} {hash : Bytes32} (inside : block ≤ top)
    {history : History}
    (sound : Sound outside blocks hashAt initial history)
    (tried : TriedUpTo outside blocks hashAt initial contract top history.1) :
    (request (.transact (.finalize contract block hash))).Safe (Steps outside blocks)
      (Sound outside blocks hashAt initial)
      (fun _ after => TriedUpTo outside blocks hashAt initial contract top after.1) history := by
  obtain ⟨trace, world⟩ := history
  apply safe_operation sound
  intro drifted ending _ after drifts performed _ careful
  have recorded := (sound.drift drifts).record (.transact (.finalize contract block hash), ending) (by
    cases ending <;> rfl)
  refine ⟨?_, tried.record _ nofun⟩
  rcases transact_cases performed with ⟨rfl, -, rfl⟩ | ⟨took, db, ran, rfl⟩
  · exact recorded
  · cases ran
    apply recorded.finalize
    intro first listed same log above below mined own handled
    rcases tried first listed same log above (below.trans inside) mined own handled with done | failed
    · exact committed_grows done _
    · exact committed_grows (careful _ _ _ _ _ (List.prefix_refl _) took log failed own below handled) _

private theorem finalizeBlock_safe {custodyAddr contract : Address} {block top : Nat} (inside : block ≤ top)
    {history : History}
    (sound : Sound outside blocks hashAt initial history) (frozen : block < history.2.chain.frozen)
    (tried : TriedUpTo outside blocks hashAt initial contract top history.1) :
    (finalizeBlock custodyAddr contract block).Safe (Steps outside blocks) (Sound outside blocks hashAt initial)
      (fun _ after => TriedUpTo outside blocks hashAt initial contract top after.1) history := by
  have stable : ∀ operation ∈ [Operation.getBlock block, .selectCheckpoint block, .reconcile block],
      Stable Fixed operation (Sound outside blocks hashAt initial) ∧ Stable Fixed operation fun history =>
        TriedUpTo outside blocks hashAt initial contract top history.1 := by
    simp only [List.forall_mem_cons, List.not_mem_nil, IsEmpty.forall_iff, implies_true, and_true]
    exact ⟨⟨Sound.stable nofun, TriedUpTo.stable nofun⟩, ⟨Sound.stable nofun, TriedUpTo.stable nofun⟩,
      ⟨Sound.stable nofun, TriedUpTo.stable nofun⟩⟩
  refine finalizeBlock_rule Fixed.toEvolves stable ?_ ?_ sound tried frozen
  · exact fun hash history sound tried _ _ _ => moveCursor_safe inside sound tried
  · intro checkpoint history sound _ there differs
    rw [sound.chain] at differs
    exact absurd (sound.checkpoints block checkpoint there) differs

private theorem indexContract_safe (distinct : Distinct blocks hashAt) {custodyAddr contract : Address}
    {currentBlock lastBlock : Nat} {history : History} (sound : Sound outside blocks hashAt initial history)
    (depth : currentBlock < history.2.chain.frozen + FINALITY_BLOCKS)
    (covered : ∀ first ∈ initial, first.contractAddress = contract →
      Covered outside blocks hashAt history.1 contract first.lastFinalizedBlock lastBlock) :
    (indexContract custodyAddr currentBlock (contract, lastBlock)).Safe (Steps outside blocks)
      (Sound outside blocks hashAt initial) (fun _ _ => True) history := by
  have scanned := @indexContract_rule outside blocks Fixed (fun _ _ => True) (Careful outside)
    (Sound outside blocks hashAt initial) Fixed.toEvolves custodyAddr contract currentBlock lastBlock
    (fun _ done history => ∀ log ∈ done, Tried contract history.1 log)
  refine scanned sound (fun _ _ => Sound.stable nofun) (fun _ _ _ log member => nomatch member) ?_ ?_
  · intro fetched done log later _ fetchedSound sound member tried
    obtain ⟨-, -, mined, -⟩ := Chain.mem_getLogs.mp member
    rw [fetchedSound.chain] at mined
    apply (processLog_safe distinct mined sound).weaken
    intro _ after _ reached other before
    rcases List.mem_append.mp before with earlier | same
    · exact reached.2 other (tried other earlier)
    · rw [List.mem_singleton.mp same]
      exact reached.1
  · intro fetched later start between fetchedSound sound tried
    have deep := depth.trans_le (Nat.add_le_add_right (start.trans between).frozen _)
    refine finalizeBlocks_rule Fixed.toEvolves
      (fun block history _ last sound tried frozen => finalizeBlock_safe last sound frozen tried) sound ?_ deep
    intro first listed same log above below mined own handled
    rcases Nat.lt_or_ge lastBlock log.blockNumber with new | old
    · -- The block is frozen, so its logs were all there when they were fetched.
      have reached := fetched.2.chain.reached
      have frozen := start.frozen
      apply tried log
      rw [Chain.mem_getLogs, fetchedSound.chain]
      exact ⟨new, by omega, mined, own⟩
    · exact .inl (committed_later (start.trans between) (covered first listed same log above old mined own handled))

private theorem poll_safe (distinct : Distinct blocks hashAt) {custodyAddr : Address} {history : History}
    (sound : Sound outside blocks hashAt initial history) :
    (poll custodyAddr).Safe (Steps outside blocks) (Sound outside blocks hashAt initial) (fun _ _ => True) history := by
  have stable : ∀ operation ∈ [Operation.getBlockNumber, .selectCursors],
      Stable Fixed operation (Sound outside blocks hashAt initial) := by
    simp only [List.forall_mem_cons, List.not_mem_nil, IsEmpty.forall_iff, implies_true, and_true]
    exact ⟨Sound.stable nofun, Sound.stable nofun⟩
  refine poll_rule Fixed.toEvolves stable ?_ sound
  intro currentBlock cursor selected history before sound later row depth
  exact indexContract_safe distinct sound depth fun first listed own =>
    (before.complete first listed cursor row own.symm).grows fun log => committed_later later

/-- Every log that a contract emitted above its initial cursor, up to its cursor, and
that dispatch handles, has had its effect committed and is in `indexed_logs`. -/
def NoLostEvent (outside : Surroundings) (blocks : Bytes32 → List RawLog) (initial : List CursorRow)
    (trace : List Label) (world : World) : Prop :=
  ∀ first ∈ initial, ∀ cursor ∈ world.db.indexerCursors, cursor.contractAddress = first.contractAddress →
    ∀ log, first.lastFinalizedBlock < log.blockNumber → log.blockNumber ≤ cursor.lastFinalizedBlock →
      log ∈ logsAt blocks world.chain.hashAt log.blockNumber → log.address = cursor.contractAddress →
      Handled outside log → log ∈ committed trace ∧ (world.db.indexedLogs log.key).isSome

theorem Fresh.sound {world : World} (fresh : Fresh world.db) :
    Sound outside blocks world.chain.hashAt world.db.indexerCursors ([], world) where
  chain := rfl
  checkpoints number row found := by simp [fresh.checkpoints number] at found
  indexed key row found := by simp [fresh.logs key] at found
  onChain log member := nomatch member
  marked log member := nomatch member
  complete first listed cursor row own log above below := by
    cases fresh.cursors cursor row first listed own
    omega

/-- On a fixed chain, whatever fails, no event is lost in a run in which no cursor
is moved past a log that failed since the last fetch and is not committed. -/
theorem no_lost_event {start : World} (fresh : Fresh start.db) (distinct : Distinct blocks start.chain.hashAt)
    {trace : List Label} {state : State} (run : Run (Moves outside config blocks Fixed) ⟨start, .done ()⟩ trace state)
    (careful : Careful outside trace) : NoLostEvent outside blocks start.db.indexerCursors trace state.world := by
  have closed (trace : List Label) (label : Label) (careful : Careful outside (trace ++ [label])) :
      Careful outside trace := fun before contract block hash ending earlier =>
    careful before contract block hash ending (earlier.trans (List.prefix_append _ _))
  have initial : Sound outside blocks start.chain.hashAt start.db.indexerCursors ([], start) := fresh.sound
  have sound := run_safe (fun history sound => poll_safe distinct sound) closed initial
    (run.mono fun _ _ _ moved => ⟨moved, trivial⟩) careful
  intro first listed cursor row own log above below mined from_ handled
  rw [sound.chain] at mined
  have done := sound.complete first listed cursor row own log above below mined from_ handled
  exact ⟨done, sound.marked log done handled⟩

end

private theorem careful_of_no_misses {outside : Surroundings} {trace : List Label}
    (quiet : ∀ label ∈ trace, Label.misses label = none) : Careful outside trace := by
  have empty (contract : Address) (trace : List Label) (quiet : ∀ label ∈ trace, Label.misses label = none) :
      missed contract trace = [] := by
    induction trace using List.reverseRecOn with
    | nil => rfl
    | append_singleton trace label ih =>
      rw [missed_append, ih fun other member => quiet other (List.mem_append_left _ member), noteMissed,
        quiet label (List.mem_append_right _ (List.mem_singleton.mpr rfl))]
      split
      next => split <;> rfl
      next => rfl
  intro before contract block hash ending earlier _ log member
  rw [empty contract before fun label inside => quiet label
    (earlier.subset (List.mem_append_left _ inside))] at member
  cases member

namespace Sample

def blocks (hash : Bytes32) : List RawLog := if hash = 1001 then [deposit 71] else []

def chain : Chain := deep 1001

def indexed : World := ⟨tables, chain⟩

def failing : List (Chain × Ending) :=
  [.succeeds, .succeeds, .succeeds, .succeeds, .fails, .succeeds, .succeeds, .succeeds, .succeeds].map (chain, ·)

def passing : List (Chain × Ending) := (List.replicate 9 .succeeds).map (chain, ·)

theorem still : Fixed chain chain := ⟨⟨le_refl _, fun _ _ => rfl⟩, rfl⟩

private theorem failing_fixed : (indexed.chain :: failing.map Prod.fst).IsChain Fixed := by
  simp [indexed, failing, still]

theorem passing_fixed : (indexed.chain :: passing.map Prod.fst).IsChain Fixed := by
  simp [indexed, passing, still]

private theorem deposit_handled (transactionHash : Bytes32) (number : Nat) (hash : Bytes32) :
    Handled outside ((deposit transactionHash).mined number hash) := by
  intro db flag after done
  have handler : handlerOf outside (topicHash outside "Deposited(address,uint256,uint256)") = some handleDeposited := by
    rw [handlerOf, handlers, List.find?_cons_of_pos]
    · rfl
    · exact decide_eq_true rfl
  have long : ¬ (Abi.word 100 ++ Abi.word 100).length < 32 := by decide
  simp only [dispatch, RawLog.mined, deposit, List.head?_cons, handler] at done
  rw [handleDeposited, withTopic] at done
  simp only [List.getElem?_cons_succ, List.getElem?_cons_zero] at done
  rw [if_neg long] at done
  simp only [bind_ok, revertIf_ok, pure_ok, Prod.mk.injEq] at done
  obtain ⟨-, -, stored, -, rfl, -⟩ := done
  rfl

theorem distinct : Distinct blocks chain.hashAt := by
  have only (log : Log) (mined : log ∈ logsAt blocks chain.hashAt log.blockNumber) :
      log = (deposit 71).mined 1 1001 := by
    obtain ⟨raw, member, made⟩ := List.mem_map.mp mined
    by_cases first : log.blockNumber = 1
    · rw [first] at made member
      rw [List.mem_singleton.mp member] at made
      exact made.symm
    · simp [blocks, chain, deep, first] at member
  constructor
  · intro first second here there _
    rw [only first here, only second there]
  · intro log mined
    rw [only log mined]
    decide

end Sample

/-- One failed transaction in a deep block: the cursor passes the deposit, which is
not indexed. -/
theorem no_lost_event_fails : ∃ trace state,
    Run (Moves Sample.outside Sample.config Sample.blocks Fixed) ⟨Sample.indexed, .done ()⟩ trace state ∧
    Fresh Sample.indexed.db ∧ Distinct Sample.blocks Sample.indexed.chain.hashAt ∧
    ¬ NoLostEvent Sample.outside Sample.blocks Sample.indexed.db.indexerCursors trace state.world := by
  have drove : ((drive Sample.outside Sample.config Sample.blocks (fun _ _ => true) ⟨Sample.indexed, .done ()⟩ Sample.failing).any
      fun result => decide ((⟨201, 1, some 1001⟩ : CursorRow) ∈ result.2.world.db.indexerCursors ∧
        (Sample.deposit 71).mined 1 1001 ∈ logsAt Sample.blocks result.2.world.chain.hashAt 1 ∧
        result.2.world.db.indexedLogs (71, 0) = none)) = true := by
    decide +kernel
  obtain ⟨⟨trace, state⟩, driven, checked⟩ := (Option.any_eq_true _ _).mp drove
  obtain ⟨cursor, mined, absent⟩ := of_decide_eq_true checked
  have run := drive_runs Sample.failing_fixed driven
  refine ⟨trace, state, run.mono fun _ _ _ => And.left, Sample.tables_fresh, Sample.distinct, fun complete => ?_⟩
  obtain ⟨-, present⟩ := complete ⟨201, 0, none⟩ (List.mem_singleton.mpr rfl) _ cursor rfl
    ((Sample.deposit 71).mined 1 1001) (by decide) (by decide) mined rfl (Sample.deposit_handled 71 1 1001)
  rw [show ((Sample.deposit 71).mined 1 1001).key = (71, 0) from rfl, absent] at present
  cases present

/-- The hypotheses meet: without a failure the deposit is indexed before the cursor passes it. -/
theorem no_lost_event_sample : ∃ (trace : List Label) (state : State),
    (⟨201, 1, some 1001⟩ : CursorRow) ∈ state.world.db.indexerCursors ∧
    NoLostEvent Sample.outside Sample.blocks Sample.indexed.db.indexerCursors trace state.world := by
  have drove : ((drive Sample.outside Sample.config Sample.blocks (fun _ _ => true) ⟨Sample.indexed, .done ()⟩ Sample.passing).any
      fun result => decide ((⟨201, 1, some 1001⟩ : CursorRow) ∈ result.2.world.db.indexerCursors ∧
        ∀ label ∈ result.1, Label.misses label = none)) = true := by
    decide +kernel
  obtain ⟨⟨trace, state⟩, driven, checked⟩ := (Option.any_eq_true _ _).mp drove
  obtain ⟨cursor, quiet⟩ := of_decide_eq_true checked
  have run := drive_runs Sample.passing_fixed driven
  exact ⟨trace, state, cursor, no_lost_event Sample.tables_fresh Sample.distinct
    (run.mono fun _ _ _ => And.left) (careful_of_no_misses quiet)⟩

end Omniscient.Indexer

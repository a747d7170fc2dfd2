import Omniscient.Proofs.ContractLogs
import Omniscient.Proofs.OracleBonds

/-! Whether the index follows the oracle. The handler of a creation binds the question
id as text, and the index keeps the row of a market's first creation, while the oracle
lets a market without an expiry be created again. -/

namespace Omniscient.Oracle

def Event.subject : Event → Bytes32
  | .marketCreated marketId .. | .outcomeProposed marketId .. | .outcomeDisputed marketId .. | .outcomeResolved marketId ..
  | .disputeResolved marketId .. => marketId

def Event.next : Event → Option MarketState
  | .marketCreated .. => none
  | .outcomeProposed .. => some .proposed
  | .outcomeDisputed .. => some .disputed
  | .outcomeResolved .. | .disputeResolved .. => some .resolved

def creation : Option (Message × Call) → Option (Bytes32 × ResolutionSpec)
  | some (_, .createMarket marketId spec) => some (marketId, spec)
  | _ => none

section
variable {σ κ : Type} {env : Env σ κ} {state after : State σ κ} {label : Option (Message × Call)} {marketId : Bytes32}

def Announced (state : State σ κ) (marketId : Bytes32) : Prop :=
  ∃ questionId expiry, .marketCreated marketId questionId expiry ∈ state.events

def Sound (state : State σ κ) (marketId : Bytes32) : Prop :=
  Announced state marketId ∨ (state.specs marketId).outcomeSlotCount = 0 ∧ state.states marketId = .open

inductive Effect (state after : State σ κ) : Option (Message × Call) → Prop where
  | quiet {label : Option (Message × Call)} : creation label = none → after.events = state.events → after.specs = state.specs →
      after.states = state.states → Effect state after label
  | created {msg : Message} {marketId : Bytes32} {spec : ResolutionSpec} :
      after.events = state.events ++ [.marketCreated marketId spec.questionId spec.expiry] →
      after.specs = Function.update state.specs marketId spec → after.states = state.states →
      Effect state after (some (msg, .createMarket marketId spec))
  | moved {label : Option (Message × Call)} {event : Event} {next : MarketState} : creation label = none → event.next = some next →
      after.events = state.events ++ [event] → after.specs = state.specs →
      after.states = Function.update state.states event.subject next →
      (state.states event.subject ≠ .open ∨ (state.specs event.subject).outcomeSlotCount ≠ 0) → Effect state after label

theorem Step.effect (step : Step env state label after) : Effect state after label := by
  have proposed {other : Bytes32} (before : state.states other = .proposed) : state.states other ≠ .open := by simp [before]
  cases step with
  | others => exact .quiet rfl rfl rfl rfl
  | @call msg call _ _ external ran =>
    by_cases kind : call.administrative = true
    · have kept := administrative_ok kind ran
      refine .quiet ?_ kept.events kept.specs kept.states
      cases call <;> first | rfl | cases kind
    · cases call with
      | createMarket marketId spec =>
        obtain ⟨-, -, -, ctf, -, rfl⟩ := createMarket_ok ran
        exact .created rfl rfl rfl
      | proposeOutcome marketId payouts =>
        obtain ⟨-, -, -, valid, usdc, -, rfl⟩ := proposeOutcome_ok ran
        exact @Effect.moved _ _ _ _ _ (.outcomeProposed marketId msg.sender payouts) _ rfl rfl rfl rfl rfl (.inr valid.slots)
      | disputeOutcome marketId reasoning =>
        obtain ⟨-, before, -, usdc, -, rfl⟩ := disputeOutcome_ok ran
        exact @Effect.moved _ _ _ _ _ (.outcomeDisputed marketId msg.sender reasoning) _ rfl rfl rfl rfl rfl
          (.inl (proposed before))
      | resolveDispute marketId payouts =>
        obtain ⟨-, -, valid, ctf, usdc, winner, award, -, -, -, -, rfl⟩ := resolveDispute_ok ran
        exact @Effect.moved _ _ _ _ _ (.disputeResolved marketId payouts) _ rfl rfl rfl rfl rfl (.inr valid.slots)
      | finalizeOutcome marketId payouts =>
        obtain ⟨-, before, -, -, ctf, usdc, -, -, rfl⟩ := finalizeOutcome_ok ran
        exact @Effect.moved _ _ _ _ _ (.outcomeResolved marketId payouts) _ rfl rfl rfl rfl rfl (.inl (proposed before))
      | _ => simp [Call.administrative] at kind

theorem Announced.grows {news : List Event} (announced : Announced state marketId) (events : after.events = state.events ++ news) :
    Announced after marketId := by
  obtain ⟨questionId, expiry, emitted⟩ := announced
  exact ⟨questionId, expiry, by rw [events]; exact List.mem_append_left _ emitted⟩

theorem Announced.before {event : Event} (announced : Announced after marketId) (events : after.events = state.events ++ [event])
    (other : ∀ questionId expiry, event ≠ .marketCreated marketId questionId expiry) : Announced state marketId := by
  obtain ⟨questionId, expiry, emitted⟩ := announced
  rw [events] at emitted
  rcases List.mem_append.mp emitted with earlier | last
  · exact ⟨questionId, expiry, earlier⟩
  · exact absurd (List.mem_singleton.mp last).symm (other questionId expiry)

theorem Sound.announced (sound : Sound state marketId)
    (live : state.states marketId ≠ .open ∨ (state.specs marketId).outcomeSlotCount ≠ 0) : Announced state marketId := by
  rcases sound with announced | ⟨empty, still⟩
  · exact announced
  · exact absurd empty (live.resolve_left (not_not.mpr still))

theorem Effect.sound (effect : Effect state after label) (sound : ∀ marketId, Sound state marketId) (marketId : Bytes32) :
    Sound after marketId := by
  cases effect with
  | quiet _ events specs states =>
    rw [Sound, Announced, events, specs, states]
    exact sound marketId
  | @created _ created spec events specs states =>
    by_cases here : created = marketId
    · subst here
      exact .inl ⟨spec.questionId, spec.expiry, by rw [events]; simp⟩
    · rcases sound marketId with before | ⟨empty, still⟩
      · exact .inl (before.grows events)
      · apply Or.inr
        rw [specs, states, Function.update_of_ne (Ne.symm here)]
        exact ⟨empty, still⟩
  | @moved _ event next _ _ events specs states live =>
    by_cases here : event.subject = marketId
    · subst here
      exact .inl (((sound event.subject).announced live).grows events)
    · rcases sound marketId with before | ⟨empty, still⟩
      · exact .inl (before.grows events)
      · apply Or.inr
        rw [specs, states, Function.update_of_ne (Ne.symm here)]
        exact ⟨empty, still⟩

structure Record (σ κ : Type) where
  before : State σ κ
  label : Option (Message × Call)
  after : State σ κ

structure StepTo (env : Env σ κ) (state : State σ κ) (record : Record σ κ) (after : State σ κ) : Prop where
  before : record.before = state
  step : Step env state record.label after
  after : record.after = after

theorem StepTo.call {msg : Message} {call : Call} (external : msg.sender ≠ env.self)
    (ran : exec env msg call state = .ok after) : StepTo env state ⟨state, some (msg, call), after⟩ after :=
  ⟨rfl, .call external ran, rfl⟩

end

end Omniscient.Oracle

namespace Omniscient.Indexer

def shown : Oracle.MarketState → MarketState
  | .open => .open
  | .proposed => .proposed
  | .disputed => .disputed
  | .resolved => .resolved

structure Inserts (outside : Surroundings) (questionId : Bytes32) (expiry : Uint256) (row : MarketRow) : Prop where
  range : (expiry.toNat : Int) < TIMESTAMP_END
  stored : outside.bytea (toString questionId.toNat) = some row.questionId
  size : row.questionId.length = 32
  state : row.state = .open
  expiry : row.expiry = expiry.toNat

section
variable {outside : Surroundings} {log : Log} {db : Database} {marketId : MarketId}

theorem creation_dispatched (apart : Apart outside) {questionId : Bytes32} {expiry : Uint256}
    (carries : Carries outside (Oracle.Event.marketCreated marketId questionId expiry).emission log) :
    (∃ row, Inserts outside questionId expiry row ∧ (dispatched outside db log).markets =
      Function.update db.markets marketId (some ((db.markets marketId).getD row))) ∨
    ((∀ row, ¬ Inserts outside questionId expiry row) ∧ dispatched outside db log = db) := by
  obtain ⟨topics, data, number⟩ := id carries
  have second : log.topics[1]? = some marketId := by rw [topics]; rfl
  have long : 64 ≤ log.data.length := by rw [data]; simp [Oracle.Event.emission]
  have question : wordAt log.data 0 = questionId.toNat := by
    rw [data, Oracle.Event.emission, wordAt_word questionId.isLt]
  have time : wordAt log.data 1 = expiry.toNat := by
    have only := wordAt_word expiry.isLt []
    rw [List.append_nil] at only
    rw [data, Oracle.Event.emission, wordAt_skip, only]
  have ends : TIMESTAMP_END ≤ I64_END := by decide
  have handled := @Carries.dispatch _ _ _ db carries apart (handleMarketCreated outside)
    (by simp [handlers, Oracle.Event.emission])
  rw [handleMarketCreated, withTopic_reads second long, question, time] at handled
  cases done : dispatch outside log db with
  | ok result =>
    obtain ⟨flag, after⟩ := result
    rw [dispatched_ok done]
    rw [handled] at done
    simp only [Outcome.bind_ok, Outcome.revertIf_ok, Outcome.orRevert_ok, Outcome.pure_ok, Prod.mk.injEq, not_le, ne_eq,
      Decidable.not_not] at done
    obtain ⟨-, -, -, -, question, stored, -, range, -, size, -, rfl⟩ := done
    exact .inl ⟨_, ⟨range, stored, size, rfl, rfl⟩, rfl⟩
  | error error =>
    refine .inr ⟨fun row inserts => ?_, dispatched_error done⟩
    obtain ⟨range, stored, size, -, -⟩ := inserts
    have taken : ∃ result, dispatch outside log db = .ok result := by
      rw [handled]
      simp only [Outcome.bind_ok, Outcome.revertIf_ok, Outcome.orRevert_ok, Outcome.pure_ok, not_le, ne_eq,
        Decidable.not_not]
      exact ⟨_, (), by omega, (), number, _, stored, (), range, (), size, rfl⟩
    obtain ⟨result, ok⟩ := taken
    cases done.symm.trans ok

theorem move_dispatched (apart : Apart outside) {event : Oracle.Event} {next : Oracle.MarketState}
    (moves : event.next = some next) (carries : Carries outside event.emission log) :
    (dispatched outside db log).markets =
      Function.update db.markets event.subject ((db.markets event.subject).map fun row => { row with state := shown next }) := by
  have sets (listed : (event.emission.signature, handleMarketState (shown next)) ∈ handlers outside)
      (indexed : event.emission.indexed = [event.subject]) : (dispatched outside db log).markets =
      Function.update db.markets event.subject ((db.markets event.subject).map fun row => { row with state := shown next }) := by
    have second : log.topics[1]? = some event.subject := by rw [carries.topics, indexed]; rfl
    have done := @Carries.dispatch _ _ _ db carries apart _ listed
    rw [handleMarketState, withTopic_reads second (Nat.zero_le _)] at done
    rw [dispatched_ok done]
  cases event with
  | marketCreated => cases moves
  | outcomeProposed | outcomeDisputed | outcomeResolved | disputeResolved =>
    cases moves
    refine sets ?_ rfl
    simp [handlers, Oracle.Event.emission, shown, handleOutcomeProposed, handleOutcomeDisputed, handleOutcomeResolved,
      handleDisputeResolved]

private theorem dispatchAll_absent (apart : Apart outside) {events : List Oracle.Event} {logs : List Log}
    (emitted : Emitted outside (events.map Oracle.Event.emission) logs)
    (unborn : ∀ questionId expiry, .marketCreated marketId questionId expiry ∉ events) (absent : db.markets marketId = none) :
    (dispatchAll outside db logs).markets marketId = none := by
  generalize whole : events.map Oracle.Event.emission = emissions at emitted
  induction emitted generalizing events db with
  | nothing => exact absent
  | own carries _ ih =>
    obtain ⟨event, events, rfl, rfl, rest⟩ := List.map_eq_cons_iff.mp whole
    rw [dispatchAll_cons]
    refine ih (fun questionId expiry later => unborn questionId expiry (List.mem_cons_of_mem _ later)) ?_ rest
    cases moves : event.next with
    | some next =>
      rw [move_dispatched apart moves carries]
      by_cases here : marketId = event.subject
      · rw [here, Function.update_self, ← here, absent]
        rfl
      · rw [Function.update_of_ne here, absent]
    | none =>
      cases event with
      | marketCreated other questionId expiry =>
        have different : marketId ≠ other := by
          intro same
          subst same
          exact unborn questionId expiry List.mem_cons_self
        rcases creation_dispatched apart carries with ⟨row, -, markets⟩ | ⟨-, same⟩
        · rw [markets, Function.update_of_ne different, absent]
        · rw [same, absent]
      | _ => cases moves
  | inherited unknown _ ih =>
    rw [dispatchAll_cons, dispatched_unknown unknown]
    exact ih unborn absent whole

end

structure Mirrors (row : MarketRow) (spec : Oracle.ResolutionSpec) (state : Oracle.MarketState) : Prop where
  state : row.state = shown state
  questionId : row.questionId = Abi.word spec.questionId.toNat
  expiry : row.expiry = spec.expiry.toNat

section
variable {σ κ : Type} {env : Oracle.Env σ κ} {state after : Oracle.State σ κ} {label : Option (Message × Oracle.Call)}
  {outside : Surroundings} {db : Database} {log : Log}

def MarketsFollow (state : Oracle.State σ κ) (db : Database) : Prop :=
  ∀ marketId, Oracle.Announced state marketId →
    ∃ row, db.markets marketId = some row ∧ Mirrors row (state.specs marketId) (state.states marketId)

/-- Dispatching the logs of all events so far leaves such rows. -/
def FollowsOracle (outside : Surroundings) (db : Database) (state : Oracle.State σ κ) : Prop :=
  ∀ logs, Emitted outside (state.events.map Oracle.Event.emission) logs → MarketsFollow state (dispatchAll outside db logs)

/-- The table can hold a creation: a market that is created again keeps the question
and the expiry it had, and a new one has some that the columns take. -/
structure Admits (outside : Surroundings) (state : Oracle.State σ κ) (marketId : Bytes32) (spec : Oracle.ResolutionSpec) : Prop where
  again : Oracle.Announced state marketId → spec.questionId = (state.specs marketId).questionId ∧
    spec.expiry = (state.specs marketId).expiry
  new : ¬ Oracle.Announced state marketId → (spec.expiry.toNat : Int) < TIMESTAMP_END ∧
    outside.bytea (toString spec.questionId.toNat) = some (Abi.word spec.questionId.toNat)

/-- The condition on a step: the table can hold what it creates. -/
def Holdable (outside : Surroundings) (state : Oracle.State σ κ) (label : Option (Message × Oracle.Call)) : Prop :=
  ∀ marketId spec, Oracle.creation label = some (marketId, spec) → Admits outside state marketId spec

/-- The row that mirrored the old spec mirrors the new one if question and expiry agree. -/
theorem Mirrors.again {row : MarketRow} {old new : Oracle.ResolutionSpec} {stage : Oracle.MarketState}
    (mirrors : Mirrors row old stage) :
    Mirrors row new stage ↔ new.questionId = old.questionId ∧ new.expiry = old.expiry := by
  constructor
  · intro renewed
    have questions := Abi.word_injective new.questionId.isLt old.questionId.isLt
      (renewed.questionId.symm.trans mirrors.questionId)
    have times : (new.expiry.toNat : Int) = old.expiry.toNat := renewed.expiry.symm.trans mirrors.expiry
    exact ⟨BitVec.eq_of_toNat_eq questions, BitVec.eq_of_toNat_eq (by exact_mod_cast times)⟩
  · intro same
    obtain ⟨question, time⟩ := same
    exact ⟨mirrors.state, question ▸ mirrors.questionId, time ▸ mirrors.expiry⟩

private theorem recreated_mirrors (apart : Apart outside) {marketId : Bytes32} {spec : Oracle.ResolutionSpec}
    {old : Oracle.ResolutionSpec} {stage : Oracle.MarketState} {row : MarketRow}
    (carries : Carries outside (Oracle.Event.marketCreated marketId spec.questionId spec.expiry).emission log)
    (found : db.markets marketId = some row) (mirrors : Mirrors row old stage) :
    (∃ row, (dispatched outside db log).markets marketId = some row ∧ Mirrors row spec stage) ↔
      spec.questionId = old.questionId ∧ spec.expiry = old.expiry := by
  have kept : (dispatched outside db log).markets marketId = some row := by
    rcases @creation_dispatched _ _ db _ apart _ _ carries with ⟨new, -, markets⟩ | ⟨-, same⟩
    · rw [markets, Function.update_self, found, Option.getD_some]
    · rw [same, found]
  rw [← mirrors.again]
  constructor
  · intro mirrored
    obtain ⟨other, there, renewed⟩ := mirrored
    cases kept.symm.trans there
    exact renewed
  · exact fun renewed => ⟨row, kept, renewed⟩

private theorem created_mirrors (apart : Apart outside) {marketId : Bytes32} {spec : Oracle.ResolutionSpec}
    (carries : Carries outside (Oracle.Event.marketCreated marketId spec.questionId spec.expiry).emission log)
    (absent : db.markets marketId = none) :
    (∃ row, (dispatched outside db log).markets marketId = some row ∧ Mirrors row spec .open) ↔
      (spec.expiry.toNat : Int) < TIMESTAMP_END ∧
      outside.bytea (toString spec.questionId.toNat) = some (Abi.word spec.questionId.toNat) := by
  rcases @creation_dispatched _ _ db _ apart _ _ carries with ⟨row, inserts, markets⟩ | ⟨refused, same⟩
  · have now : (dispatched outside db log).markets marketId = some row := by
      rw [markets, Function.update_self, absent, Option.getD_none]
    constructor
    · intro mirrored
      obtain ⟨other, there, mirrors⟩ := mirrored
      cases now.symm.trans there
      exact ⟨inserts.range, mirrors.questionId ▸ inserts.stored⟩
    · intro taken
      obtain ⟨-, stored⟩ := taken
      exact ⟨row, now, inserts.state, Option.some.inj (inserts.stored.symm.trans stored), inserts.expiry⟩
  · constructor
    · intro mirrored
      obtain ⟨row, there, -⟩ := mirrored
      rw [same, absent] at there
      cases there
    · intro taken
      obtain ⟨range, stored⟩ := taken
      exact absurd ⟨range, stored, Abi.word_length _, rfl, rfl⟩
        (refused ⟨Abi.word spec.questionId.toNat, .open, spec.expiry.toNat, 2, 0⟩)

private theorem creation_follows (apart : Apart outside) {marketId : Bytes32} {spec : Oracle.ResolutionSpec}
    (carries : Carries outside (Oracle.Event.marketCreated marketId spec.questionId spec.expiry).emission log)
    (events : after.events = state.events ++ [.marketCreated marketId spec.questionId spec.expiry])
    (specs : after.specs = Function.update state.specs marketId spec) (states : after.states = state.states)
    (sound : Oracle.Sound state marketId) (follow : MarketsFollow state db)
    (absent : ¬ Oracle.Announced state marketId → db.markets marketId = none) :
    MarketsFollow after (dispatched outside db log) ↔ Admits outside state marketId spec := by
  have mine : (∃ row, (dispatched outside db log).markets marketId = some row ∧ Mirrors row spec (state.states marketId)) ↔
      Admits outside state marketId spec := by
    by_cases known : Oracle.Announced state marketId
    · obtain ⟨row, found, mirrors⟩ := follow marketId known
      rw [recreated_mirrors apart carries found mirrors]
      exact ⟨fun same => ⟨fun _ => same, fun unknown => absurd known unknown⟩, fun admits => admits.again known⟩
    · have still : state.states marketId = .open := (sound.resolve_left known).2
      rw [still, created_mirrors apart carries (absent known)]
      exact ⟨fun taken => ⟨fun announced => absurd announced known, fun _ => taken⟩, fun admits => admits.new known⟩
  rw [← mine]
  constructor
  · intro follows
    have row := follows marketId ⟨spec.questionId, spec.expiry, by rw [events]; simp⟩
    rwa [specs, states, Function.update_self] at row
  · intro row other announced
    rw [specs, states]
    by_cases here : other = marketId
    · subst here
      rwa [Function.update_self]
    · have elsewhere : (dispatched outside db log).markets other = db.markets other := by
        rcases @creation_dispatched _ _ db _ apart _ _ carries with ⟨new, -, markets⟩ | ⟨-, same⟩
        · rw [markets, Function.update_of_ne here]
        · rw [same]
      have before : Oracle.Announced state other := announced.before events (by
        intro questionId expiry same
        cases same
        exact here rfl)
      rw [elsewhere, Function.update_of_ne here]
      exact follow other before

private theorem move_follows (apart : Apart outside) {event : Oracle.Event} {next : Oracle.MarketState}
    (carries : Carries outside event.emission log) (moves : event.next = some next)
    (events : after.events = state.events ++ [event]) (specs : after.specs = state.specs)
    (states : after.states = Function.update state.states event.subject next) (follow : MarketsFollow state db) :
    MarketsFollow after (dispatched outside db log) := by
  intro marketId announced
  have before : Oracle.Announced state marketId := announced.before events (by
    intro questionId expiry same
    subst same
    cases moves)
  obtain ⟨row, found, mirrors⟩ := follow marketId before
  rw [move_dispatched apart moves carries, specs, states]
  by_cases here : marketId = event.subject
  · subst here
    rw [Function.update_self, Function.update_self, found]
    exact ⟨_, rfl, rfl, mirrors.questionId, mirrors.expiry⟩
  · rw [Function.update_of_ne here, Function.update_of_ne here]
    exact ⟨row, found, mirrors⟩

private theorem effect_follows (apart : Apart outside) (empty : ∀ marketId, db.markets marketId = none)
    (sound : ∀ marketId, Oracle.Sound state marketId) (effect : Oracle.Effect state after label)
    (follows : FollowsOracle outside db state) : FollowsOracle outside db after ↔ Holdable outside state label := by
  have nothing (none : Oracle.creation label = none) : Holdable outside state label := by
    intro marketId spec creates
    rw [none] at creates
    cases creates
  cases effect with
  | quiet none events specs states =>
    refine ⟨fun _ => nothing none, fun _ logs emitted marketId announced => ?_⟩
    rw [events] at emitted
    rw [Oracle.Announced, events] at announced
    rw [specs, states]
    exact follows logs emitted marketId announced
  | moved none moves events specs states =>
    refine ⟨fun _ => nothing none, fun _ logs emitted => ?_⟩
    rw [events, List.map_append] at emitted
    obtain ⟨first, second, rfl, earlier, later⟩ := emitted.split
    obtain ⟨log, carries, last⟩ := later.single (dispatchAll outside db first)
    rw [dispatchAll_append, last]
    exact move_follows apart carries moves events specs states (follows first earlier)
  | @created msg marketId spec events specs states =>
    have last {first second : List Log} (earlier : Emitted outside (state.events.map Oracle.Event.emission) first)
        (later : Emitted outside [(Oracle.Event.marketCreated marketId spec.questionId spec.expiry).emission] second) :
        MarketsFollow after (dispatchAll outside db (first ++ second)) ↔
          Holdable outside state (some (msg, .createMarket marketId spec)) := by
      obtain ⟨log, carries, same⟩ := later.single (dispatchAll outside db first)
      have absent (new : ¬ Oracle.Announced state marketId) : (dispatchAll outside db first).markets marketId = none :=
        dispatchAll_absent apart earlier (fun questionId expiry listed => new ⟨questionId, expiry, listed⟩) (empty marketId)
      rw [dispatchAll_append, same,
        creation_follows apart carries events specs states (sound marketId) (follows first earlier) absent]
      constructor
      · intro holdable other again creates
        cases creates
        exact holdable
      · exact fun holdable => holdable marketId spec rfl
    constructor
    · intro left
      obtain ⟨first, earlier⟩ := @Emitted.exists outside (state.events.map Oracle.Event.emission)
      obtain ⟨second, later⟩ :=
        @Emitted.exists outside [(Oracle.Event.marketCreated marketId spec.questionId spec.expiry).emission]
      refine (last earlier later).mp (left _ ?_)
      rw [events, List.map_append]
      exact earlier.append later
    · intro holdable logs emitted
      rw [events, List.map_append] at emitted
      obtain ⟨first, second, rfl, earlier, later⟩ := emitted.split
      exact (last earlier later).mpr holdable

/-- The index follows the oracle: over every run from deployment, dispatching all events
so far leaves every created market a row with the oracle's state, question and expiry,
after each step, exactly when the table can hold every creation. -/
theorem markets_follow (apart : Apart outside) (empty : ∀ marketId, db.markets marketId = none)
    {deployer : Address} {usdc : σ} {ctf : κ} {history : List (Oracle.Record σ κ)}
    (run : Run (Oracle.StepTo env) (Oracle.deploy deployer usdc ctf) history state) :
    (∀ record ∈ history, FollowsOracle outside db record.after) ↔
      ∀ record ∈ history, Holdable outside record.before record.label := by
  have along : (∀ marketId, Oracle.Sound state marketId) ∧
      ((∀ record ∈ history, FollowsOracle outside db record.after) ↔
        ∀ record ∈ history, Holdable outside record.before record.label) ∧
      ((∀ record ∈ history, Holdable outside record.before record.label) → FollowsOracle outside db state) := by
    apply run.invariant fun history state => (∀ marketId, Oracle.Sound state marketId) ∧
      ((∀ record ∈ history, FollowsOracle outside db record.after) ↔
        ∀ record ∈ history, Holdable outside record.before record.label) ∧
      ((∀ record ∈ history, Holdable outside record.before record.label) → FollowsOracle outside db state)
    · refine ⟨fun marketId => .inr ⟨rfl, rfl⟩, by simp, fun _ logs _ marketId announced => ?_⟩
      obtain ⟨questionId, expiry, emitted⟩ := announced
      cases emitted
    · intro history state record after _ before moved
      obtain ⟨sound, same, follows⟩ := before
      obtain ⟨rfl, step, rfl⟩ := moved
      have effect := step.effect
      have last (earlier : ∀ record ∈ history, Holdable outside record.before record.label) :=
        effect_follows apart empty sound effect (follows earlier)
      simp only [List.forall_mem_append, List.forall_mem_singleton]
      refine ⟨effect.sound sound, ⟨fun all => ?_, fun all => ?_⟩, fun all => (last all.1).mpr all.2⟩
      · have earlier := same.mp all.1
        exact ⟨earlier, (last earlier).mp all.2⟩
      · exact ⟨same.mpr all.1, (last all.1).mpr all.2⟩
  exact along.2.1

end

namespace Sample

/-- A server that would read a decimal text as the number's 32 bytes. -/
def casting : Surroundings where
  keccak256 := outside.keccak256
  bytea text := some (Abi.word (Nat.ofDigitChars 10 text.toList 0))

private theorem casting_apart : Apart casting := apart

abbrev court := Oracle.Sample.court
abbrev start := Oracle.Sample.start

theorem creates : ∃ trusted state,
    Oracle.exec court ⟨1, 1000⟩ (.grantRole .marketCreator 1) start = .ok trusted ∧
    Oracle.exec court ⟨1, 1000⟩ (.createMarket 7 (Oracle.Sample.spec 70 1500 10)) trusted = .ok state ∧
    trusted.events = [] ∧ state.events = [.marketCreated 7 70 1500] := by
  obtain ⟨trusted, granted, later⟩ := Outcome.returns_iff.mp (show Outcome.returns
    (Oracle.exec court ⟨1, 1000⟩ (.grantRole .marketCreator 1) start) (fun trusted =>
      Outcome.returns (Oracle.exec court ⟨1, 1000⟩ (.createMarket 7 (Oracle.Sample.spec 70 1500 10)) trusted)
        fun state => trusted.events = [] ∧ state.events = [.marketCreated 7 70 1500]) = true by decide +kernel)
  obtain ⟨state, created, seen⟩ := Outcome.returns_iff.mp later
  exact ⟨trusted, state, granted, created, of_decide_eq_true seen⟩

private theorem pauses : ∃ trusted state, Oracle.exec court ⟨1, 1000⟩ (.grantRole .pauser 1) start = .ok trusted ∧
    Oracle.exec court ⟨1, 1000⟩ .pause trusted = .ok state := by
  obtain ⟨trusted, granted, later⟩ := Outcome.returns_iff.mp (show Outcome.returns
    (Oracle.exec court ⟨1, 1000⟩ (.grantRole .pauser 1) start) (fun trusted =>
      Outcome.returns (Oracle.exec court ⟨1, 1000⟩ .pause trusted) fun _ => true) = true by decide +kernel)
  obtain ⟨state, paused, -⟩ := Outcome.returns_iff.mp later
  exact ⟨trusted, state, granted, paused⟩

theorem calls_run {first second : Oracle.Call} {trusted state : Oracle.State Erc20.State Oracle.Sample.Ctf}
    (once : Oracle.exec court ⟨1, 1000⟩ first start = .ok trusted)
    (twice : Oracle.exec court ⟨1, 1000⟩ second trusted = .ok state) :
    Run (Oracle.StepTo court) start
      [⟨start, some (⟨1, 1000⟩, first), trusted⟩, ⟨trusted, some (⟨1, 1000⟩, second), state⟩] state :=
  (Run.start.next (Oracle.StepTo.call (by decide) once)).next (Oracle.StepTo.call (by decide) twice)

end Sample

/-- PostgreSQL takes no text for the question id of a created market, and the market
gets no row. -/
theorem markets_follow_fails : ∃ history state,
    Run (Oracle.StepTo Oracle.Sample.court) Oracle.Sample.start history state ∧
    ¬ ∀ record ∈ history, FollowsOracle Sample.outside Database.empty record.after := by
  obtain ⟨trusted, state, granted, created, -, events⟩ := Sample.creates
  refine ⟨_, state, Sample.calls_run granted created, ?_⟩
  intro follows
  simp only [List.forall_mem_cons] at follows
  obtain ⟨logs, emitted⟩ := @Emitted.exists Sample.outside [(Oracle.Event.marketCreated 7 70 1500).emission]
  obtain ⟨log, carries, same⟩ := emitted.single Database.empty
  obtain ⟨row, found, -⟩ := follows.2.1 logs (by rw [events]; exact emitted) 7 ⟨70, 1500, by rw [events]; simp⟩
  rw [same] at found
  rcases @creation_dispatched _ _ Database.empty _ Sample.apart _ _ carries with ⟨other, inserts, -⟩ | ⟨-, unchanged⟩
  · cases inserts.stored
  · rw [unchanged] at found
    cases found

/-- The hypotheses meet, and so does the condition: at PostgreSQL where no market is
created, and also where one is if the server reads the question id that is bound. -/
theorem markets_follow_sample :
    (∃ history state, Run (Oracle.StepTo Oracle.Sample.court) Oracle.Sample.start history state ∧ history.length = 2 ∧
      ∀ record ∈ history, FollowsOracle Sample.outside Database.empty record.after) ∧
    ∃ history state, Run (Oracle.StepTo Oracle.Sample.court) Oracle.Sample.start history state ∧
      state.events = [.marketCreated 7 70 1500] ∧
      ∀ record ∈ history, FollowsOracle Sample.casting Database.empty record.after := by
  constructor
  · obtain ⟨trusted, state, granted, paused⟩ := Sample.pauses
    have run := Sample.calls_run granted paused
    refine ⟨_, state, run, rfl, (markets_follow Sample.apart (fun _ => rfl) run).mpr ?_⟩
    simp [Holdable, Oracle.creation]
  · obtain ⟨trusted, state, granted, created, before, events⟩ := Sample.creates
    have run := Sample.calls_run granted created
    refine ⟨_, state, run, events, (markets_follow Sample.casting_apart (fun _ => rfl) run).mpr ?_⟩
    simp only [List.forall_mem_cons]
    refine ⟨fun _ _ grants => (by cases grants), fun _ _ creates => ?_, nofun⟩
    cases creates
    refine ⟨fun announced => ?_, fun _ => ⟨by decide +kernel, by decide +kernel⟩⟩
    obtain ⟨questionId, expiry, listed⟩ := announced
    rw [before] at listed
    cases listed

end Omniscient.Indexer

import Omniscient.Handlers
import Omniscient.Proofs.GatewaySteps
import Omniscient.Proofs.MatcherCommands

/-! Cancellation nonces across the two services. The indexer writes a new nonce to
the tables that the gateway shares, where the gateway never looks: neither the
validation of an order nor the matcher compares nonces. -/

namespace Omniscient.Gateway
open Outcome

/-- A step of the gateway, or the indexer's transaction for a log. -/
inductive JointEvent where
  | gateway (event : Event)
  | nonceInvalidated (log : Log)

def System.jointStep (crypto : Crypto) (config : AppConfig) (system : System) : JointEvent → Option System
  | .gateway event => system.step crypto config event
  | .nonceInvalidated log =>
    match Indexer.handleNonceInvalidated log system.db with
    | .ok (true, db) => some { system with db }
    | _ => none

def System.Commits (crypto : Crypto) (config : AppConfig) (system : System) (user : Address) (nonce : Nat)
    (after : System) : Prop :=
  ∃ log topic, log.topics[1]? = some topic ∧ Indexer.topicAddress topic = user ∧ Indexer.wordAt log.data 0 = nonce ∧
    system.jointStep crypto config (.nonceInvalidated log) = some after

/-- An order of the user with a nonce below the new one. -/
def Stale (user : Address) (nonce : Nat) (order : RestingOrder) : Prop := order.maker = user ∧ order.nonce.toNat < nonce

instance decidableStale (user : Address) (nonce : Nat) (order : RestingOrder) : Decidable (Stale user nonce order) :=
  inferInstanceAs (Decidable (_ ∧ _))

def MatchCommand.Current (user : Address) (nonce : Nat) (command : MatchCommand) : Prop :=
  ∀ order, command.order = some order → ¬ Stale user nonce order

/-- No stale order is on its way to the matcher, queued or at rest. -/
def System.Clear (user : Address) (nonce : Nat) (system : System) : Prop :=
  system.Carries (MatchCommand.Current user nonce) fun _ order => ¬ Stale user nonce order

/-- What is posted is either not stale or not valid. -/
def System.Admits (crypto : Crypto) (config : AppConfig) (user : Address) (nonce : Nat) (system : System) :
    JointEvent → Prop
  | .gateway (.postOrder _ signed _) =>
    signed.order.maker = user → signed.order.nonce.toNat < nonce →
      ∀ maker, validateSignedOrder crypto config system.clock signed ≠ .ok maker
  | _ => True

/-- The maker and the taker of a fill, as the matcher knows them when it makes it. -/
structure Fill.Between (fill : Fill) (system : System) (command : MatchCommand) (maker taker : RestingOrder) : Prop where
  placed : command.order = some taker
  rested : maker ∈ restingAt system.books command.position
  makerId : fill.makerOrderId = maker.orderId
  takerId : fill.takerOrderId = taker.orderId

variable {crypto : Crypto} {config : AppConfig} {user : Address} {nonce : Nat} {system after : System}

private theorem Stale.of_terms {first second : RestingOrder} (same : first.terms = second.terms)
    (stale : Stale user nonce first) : Stale user nonce second := by
  obtain ⟨maker, number⟩ : first.terms.maker = second.terms.maker ∧ first.terms.nonce = second.terms.nonce := by
    rw [same]
    exact ⟨rfl, rfl⟩
  exact ⟨maker ▸ stale.1, number ▸ stale.2⟩

theorem Stepped.clear {event : Event} (stepped : Stepped crypto config system event after)
    (admits : system.Admits crypto config user nonce (.gateway event)) (clear : system.Clear user nonce) :
    after.Clear user nonce := by
  refine stepped.carries ?_ ?_ ?_ ?_ clear
  · rintro orderId signed marketId maker rfl valid order placed stale
    cases placed
    exact admits stale.1 stale.2 maker valid
  · intro positionId orderId order placed
    cases placed
  · exact fun command order filled seq current places => current order places
  · exact fun position before order same current stale => current (stale.of_terms same)

theorem jointStep_clear {event : JointEvent} (moved : system.jointStep crypto config event = some after)
    (admits : system.Admits crypto config user nonce event) (clear : system.Clear user nonce) : after.Clear user nonce := by
  cases event with
  | gateway event => exact (System.Moves.stepped moved).clear admits clear
  | nonceInvalidated log =>
    simp only [System.jointStep] at moved
    split at moved
    next =>
      cases moved
      exact ⟨⟨clear.confined.requests, clear.confined.processing⟩, clear.queued, clear.resting⟩
    next => cases moved

theorem System.Clear.fills (clear : system.Clear user nonce) {command : MatchCommand} {commands : List MatchCommand}
    (queued : system.commands = command :: commands) {fill : Fill}
    (member : fill ∈ resultFills (process system.books command).2) :
    ∃ maker taker, fill.Between system command maker taker ∧ ∀ maker taker, fill.Between system command maker taker →
      ¬ Stale user nonce maker ∧ ¬ Stale user nonce taker := by
  obtain ⟨taker, placed, maker, rested, -, amount, rfl⟩ := process_pairs member
  refine ⟨maker, taker, ⟨placed, rested, rfl, rfl⟩, fun maker taker between => ⟨?_, ?_⟩⟩
  · exact clear.resting _ maker between.rested
  · exact clear.queued command (queued ▸ List.mem_cons_self) taker between.placed

/-- After a commit at which no stale order is with the gateway, and while none that
is valid is posted, none is sent to the matcher, and no order of a fill is stale. -/
theorem nonce_epochs {committed later : System} {events : List JointEvent}
    (commit : system.Commits crypto config user nonce committed) (clear : system.Clear user nonce)
    (run : Run (fun system event after => system.jointStep crypto config event = some after ∧
      system.Admits crypto config user nonce event) committed events later) :
    (∀ event command order, later.operation event = some (.trySend command) → command.order = some order →
      ¬ Stale user nonce order) ∧
    ∀ command commands, later.commands = command :: commands →
      ∀ fill ∈ resultFills (process later.books command).2, ∃ maker taker, fill.Between later command maker taker ∧
        ∀ maker taker, fill.Between later command maker taker → ¬ Stale user nonce maker ∧ ¬ Stale user nonce taker := by
  obtain ⟨log, topic, -, -, -, committing⟩ := commit
  have clear : later.Clear user nonce := by
    apply run.keeps fun system => system.Clear user nonce
    · exact fun system event after moved clear => jointStep_clear moved.1 moved.2 clear
    · exact jointStep_clear committing trivial clear
  constructor
  · intro event command order performs places
    exact clear.confined.operation performs command rfl order places
  · exact fun command commands queued fill member => clear.fills queued member

namespace Sample

def bumped (user : Bytes32) : Log where
  address := 202
  blockNumber := 1
  blockHash := 0
  transactionHash := 0
  logIndex := 0
  topics := [0, user]
  data := Abi.word 1

def jointSteps (start : System) (events : List JointEvent) : Option System :=
  events.foldlM (System.jointStep signers deployment) start

theorem commits {start : System} {user : Bytes32} {check : System → Bool}
    (passes : (jointSteps start [.nonceInvalidated (bumped user)]).any check = true) :
    ∃ committed, start.Commits signers deployment (Indexer.topicAddress user) 1 committed ∧ check committed = true := by
  obtain ⟨committed, took, checked⟩ := (Option.any_eq_true _ _).mp passes
  have decoded : Indexer.wordAt (Abi.word 1) 0 = 1 := by decide +kernel
  refine ⟨committed, ⟨bumped user, user, rfl, rfl, decoded, ?_⟩, checked⟩
  simpa [jointSteps] using took

theorem jointRuns {start : System} {events : List JointEvent} {check : System → Bool}
    (passes : (jointSteps start events).any check = true) :
    ∃ later, Run (fun system event after => system.jointStep signers deployment event = some after) start events later ∧
      check later = true := Run.of_check passes

/-- Account 6 buys with nonce 1, and account 5 is about to sell more with nonce 0. -/
def afterBump : List JointEvent :=
  [ .postOrder 102 (signedBy 6 .buy 510000 40 1) 1, .request 0, .request 0, .request 0, .request 0, .request 0,
    .respond 0, .postOrder 103 (signedBy 5 .sell 500000 40 0) 1, .request 0, .request 0, .request 0,
    .request 0 ].map JointEvent.gateway

def staleUse (later : System) : Bool :=
  (match later.commands with
    | command :: _ => (resultFills (process later.books command).2).any fun fill =>
      (restingAt later.books command.position).any fun maker =>
        command.order.any fun taker =>
          decide (fill.makerOrderId = maker.orderId ∧ fill.takerOrderId = taker.orderId ∧ Stale 5 1 maker)
    | [] => false) &&
  match later.operation (.request 0) with
  | some (.trySend command) => command.order.any fun order => decide (Stale 5 1 order)
  | _ => false

end Sample

/-- After the nonce of account 5 is 1, its resting sale with nonce 0 is filled, and
another order with nonce 0 is sent to the matcher. -/
theorem nonce_epochs_fails : ∃ start committed later,
    Run (System.Moves Sample.signers Sample.deployment) Sample.opened Sample.selling start ∧
    start.Commits Sample.signers Sample.deployment 5 1 committed ∧
    Run (fun system event after => system.jointStep Sample.signers Sample.deployment event = some after)
      committed Sample.afterBump later ∧
    (∃ event command order, later.operation event = some (.trySend command) ∧ command.order = some order ∧ Stale 5 1 order) ∧
    ∃ command commands, later.commands = command :: commands ∧
      ∃ fill ∈ resultFills (process later.books command).2, ∃ maker taker, fill.Between later command maker taker ∧
        Stale 5 1 maker := by
  obtain ⟨start, sold, checked⟩ := @Sample.runs_from Sample.opened Sample.selling
    (fun start => (Sample.jointSteps start [.nonceInvalidated (Sample.bumped 5)]).any fun committed =>
      (Sample.jointSteps committed Sample.afterBump).any Sample.staleUse) (by decide +kernel)
  obtain ⟨committed, commit, checked⟩ := Sample.commits checked
  obtain ⟨later, run, used⟩ := Sample.jointRuns checked
  obtain ⟨filled, sent⟩ := Bool.and_eq_true_iff.mp used
  refine ⟨start, committed, later, sold, commit, run, ?_, ?_⟩
  · split at sent
    next command performs =>
      obtain ⟨order, places, stale⟩ := (Option.any_eq_true _ _).mp sent
      exact ⟨_, command, order, performs, places, of_decide_eq_true stale⟩
    next => cases sent
  · split at filled
    next command commands queued =>
      obtain ⟨fill, member, between⟩ := List.any_eq_true.mp filled
      obtain ⟨maker, rested, between⟩ := List.any_eq_true.mp between
      obtain ⟨taker, placed, between⟩ := (Option.any_eq_true _ _).mp between
      obtain ⟨makerId, takerId, stale⟩ := of_decide_eq_true between
      exact ⟨command, commands, queued, fill, member, maker, taker, ⟨placed, rested, makerId, takerId⟩, stale⟩
    next => cases filled

namespace Sample

private theorem restarted_clear : restarted.Clear 6 1 where
  confined := ⟨fun _ none => (nomatch none), trivial⟩
  queued _ none := nomatch none
  resting position order member stale := by
    have seller : order.maker = 5 := congrArg RestingOrder.maker (restarted_resting position order member)
    exact absurd (seller.symm.trans stale.1) (by decide)

def current : JointEvent → Bool
  | .gateway (.postOrder _ signed _) => signed.order.maker ≠ 6 ∨ 1 ≤ signed.order.nonce.toNat
  | _ => true

private theorem current_admitted {event : JointEvent} (posted : current event = true) (system : System) :
    system.Admits signers deployment 6 1 event := by
  unfold System.Admits
  split
  next orderId signed marketId =>
    intro own stale
    have fresh : signed.order.maker ≠ 6 ∨ 1 ≤ signed.order.nonce.toNat := of_decide_eq_true posted
    rcases fresh with other | recent
    · exact absurd own other
    · omega
  next => trivial

end Sample

/-- The nonce of account 6 is 1 when nothing of it is with the gateway, and what it
posts next carries it. -/
theorem nonce_epochs_sample : ∃ (later : System) (command : MatchCommand), later.commands = [command] ∧
    resultFills (process later.books command).2 ≠ [] ∧ ∀ fill ∈ resultFills (process later.books command).2,
      ∃ maker taker, fill.Between later command maker taker ∧ ¬ Stale 6 1 taker := by
  obtain ⟨committed, commit, checked⟩ := @Sample.commits Sample.restarted 6
    (fun committed => (Sample.jointSteps committed Sample.afterBump).any
      (Sample.queuedOne fun command later => decide (resultFills (process later.books command).2 ≠ []))) (by decide +kernel)
  obtain ⟨later, run, checked⟩ := Sample.jointRuns checked
  obtain ⟨command, queued, filled⟩ := Sample.queuedOne_some checked
  have admitted : ∀ event ∈ Sample.afterBump, ∀ system : System,
      system.Admits Sample.signers Sample.deployment 6 1 event := fun event member =>
    Sample.current_admitted (List.all_eq_true.mp (by decide +kernel : Sample.afterBump.all Sample.current = true) event member)
  refine ⟨later, command, queued, of_decide_eq_true filled, fun fill member => ?_⟩
  obtain ⟨maker, taker, between, fresh⟩ := (nonce_epochs commit Sample.restarted_clear (run.within admitted)).2
    command [] queued fill member
  exact ⟨maker, taker, between, (fresh maker taker between).2⟩

end Omniscient.Gateway

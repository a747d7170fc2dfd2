import Omniscient.Proofs.GatewaySteps
import Omniscient.Proofs.PositionIndependence
import Omniscient.Proofs.Restart

/-! The running gateway refines its matcher. However requests, matcher and result
processor interleave, the books are those of `run_matcher` on a part of the commands in the
order they were queued, and what the result processor does is what its results ask for,
in their order. -/

namespace Omniscient.Gateway

def Fill.event (marketId : MarketId) (fill : Fill) : MatchEvent where
  marketId := "0x" ++ hexEncode (Abi.word marketId.toNat)
  maker := displayAddress fill.maker
  taker := displayAddress fill.taker
  price := fill.price
  amount := fill.amount
  side := OrderSide.text fill.takerSide

def Fill.operations (marketId : MarketId) (fill : Fill) : List Operation :=
  [ .publish (fill.event marketId), .execute (.updateOrderFilled fill.makerOrderId (i64OrZero fill.amount) .filled),
    .execute (.updateOrderFilled fill.takerOrderId (i64OrZero fill.amount) .open) ]

def MatchResult.operations (result : MatchResult) : List Operation :=
  result.fills.flatMap (Fill.operations result.marketId)

theorem statement_performs (statement : Statement) :
    (execute statement >>= fun _ => pure ()).run.Performs [.execute statement] := by
  refine Program.performs_bind (Program.performs_request (Operation.execute statement)) fun answer => ?_
  cases answer with
  | ok affected => exact Program.performs_pure _
  | error error => exact Program.performs_pure _

theorem processMatchResult_performs (result : MatchResult) :
    (processMatchResult result).Performs result.operations := by
  apply Program.performs_forM
  intro fill
  refine Program.performs_bind (Program.performs_request (Operation.publish (fill.event result.marketId))) fun _ => ?_
  refine Program.performs_bind (statement_performs _) fun _ => ?_
  exact Program.performs_bind (statement_performs _) fun _ => Program.performs_pure ()

def System.queues (system : System) (event : Event) : List MatchCommand :=
  match system.operation event with
  | some (.trySend command) => if system.commands.length < QUEUE_CAPACITY then [command] else []
  | _ => []

def System.persists (system : System) : Event → List Operation
  | .persist => (system.operation .persist).toList
  | _ => []

/-- A step, with the state that it is taken in. -/
def System.Takes (crypto : Crypto) (config : AppConfig) (system : System) (step : System × Event)
    (after : System) : Prop :=
  step.1 = system ∧ system.Moves crypto config step.2 after

def queuedIn (trace : List (System × Event)) : List MatchCommand := trace.flatMap fun step => step.1.queues step.2

def persistedIn (trace : List (System × Event)) : List Operation := trace.flatMap fun step => step.1.persists step.2

def Operation.published : Operation → Option MatchEvent
  | .publish event => some event
  | _ => none

theorem runMatcher_snoc {commands : List MatchCommand} {command : MatchCommand} (running : .shutdown ∉ commands)
    (runs : command ≠ .shutdown) (books : Books) : runMatcher books (commands ++ [command]) =
      ((process (runMatcher books commands).1 command).1,
        (runMatcher books commands).2 ++ (process (runMatcher books commands).1 command).2.toList) := by
  induction commands generalizing books with
  | nil => simp [runMatcher_cons runs, runMatcher]
  | cons first commands ih =>
    obtain ⟨one, others⟩ := not_or.mp fun inside => running (List.mem_cons.mpr inside)
    rw [List.cons_append, runMatcher_cons (Ne.symm one), runMatcher_cons (Ne.symm one), ih others]
    simp

def Operation.Asked : Operation → Prop
  | .execute _ => True
  | .trySend command => command ≠ .shutdown
  | .publish _ => False

theorem Operation.Asked.running {operation : Operation} (asked : operation.Asked) : operation ≠ .trySend .shutdown := by
  intro same
  subst same
  exact asked rfl

/-- After a run: the commands that the matcher has processed, and what its processor has
in hand. -/
structure Refines (start : Books) (trace : List (System × Event)) (system : System) (processed : List MatchCommand)
    (pending : List Operation) : Prop where
  requests : ∀ request ∈ system.requests, request.Only Operation.Asked
  running : .shutdown ∉ queuedIn trace
  queued : queuedIn trace = processed ++ system.commands
  books : system.books = (runMatcher start processed).1
  processing : system.processing.Performs pending
  persisted : (runMatcher start processed).2.flatMap MatchResult.operations =
    persistedIn trace ++ pending ++ system.results.flatMap MatchResult.operations
  published : system.published = (persistedIn trace).filterMap Operation.published

variable {crypto : Crypto} {config : AppConfig} {start : Books} {trace : List (System × Event)} {system after : System}
  {event : Event} {processed : List MatchCommand} {pending : List Operation}

theorem Performed.queued {operation : Operation} {answer : operation.Answer}
    (performed : Performed system operation answer after)
    (now : system.operation event = some operation) : after.commands = system.commands ++ system.queues event := by
  unfold System.queues
  rw [now]
  cases performed with
  | ran | failed | published => exact (List.append_nil _).symm
  | sent room => simp only [if_pos room]
  | refused full => simp only [if_neg full, List.append_nil]

theorem Performed.told {operation : Operation} {answer : operation.Answer}
    (performed : Performed system operation answer after) :
    after.published = system.published ++ operation.published.toList := by
  cases performed with
  | ran | failed | sent | refused => exact (List.append_nil _).symm
  | published => rfl

theorem queues_none (idle : system.operation event = none) : system.queues event = [] := by
  simp only [System.queues, idle]

theorem queues_running {operation : Operation} (running : operation ≠ .trySend .shutdown)
    (now : system.operation event = some operation) : .shutdown ∉ system.queues event := by
  unfold System.queues
  rw [now]
  cases operation with
  | trySend command =>
    have other : command ≠ .shutdown := fun same => running (congrArg Operation.trySend same)
    simp only []
    split
    next => simpa using other.symm
    next => exact List.not_mem_nil
  | _ => exact List.not_mem_nil

private theorem operations_running {results : List MatchResult} {operation : Operation}
    (member : operation ∈ results.flatMap MatchResult.operations) : operation ≠ .trySend .shutdown := by
  obtain ⟨result, -, inside⟩ := List.mem_flatMap.mp member
  obtain ⟨fill, -, one⟩ := List.mem_flatMap.mp inside
  intro same
  subst same
  simp [Fill.operations] at one

theorem queuedIn_snoc (step : System × Event) :
    queuedIn (trace ++ [step]) = queuedIn trace ++ step.1.queues step.2 := by
  simp [queuedIn]

theorem persistedIn_snoc (step : System × Event) :
    persistedIn (trace ++ [step]) = persistedIn trace ++ step.1.persists step.2 := by
  simp [persistedIn]

theorem Refines.aside (refines : Refines start trace system processed pending) (quiet : system.queues event = [])
    (still : system.persists event = []) (requests : ∀ request ∈ after.requests, request.Only Operation.Asked)
    (commands : after.commands = system.commands) (books : after.books = system.books)
    (processing : after.processing = system.processing) (results : after.results = system.results)
    (published : after.published = system.published) :
    Refines start (trace ++ [(system, event)]) after processed pending := by
  have sameQueued : queuedIn (trace ++ [(system, event)]) = queuedIn trace := by
    rw [queuedIn_snoc, quiet, List.append_nil]
  have samePersisted : persistedIn (trace ++ [(system, event)]) = persistedIn trace := by
    rw [persistedIn_snoc, still, List.append_nil]
  constructor
  · exact requests
  · exact sameQueued ▸ refines.running
  · rw [sameQueued, commands, refines.queued]
  · rw [books, refines.books]
  · exact processing ▸ refines.processing
  · rw [samePersisted, results, refines.persisted]
  · rw [samePersisted, published, refines.published]

private theorem arriving_asked {request : Effect Response}
    (arriving : system.arriving crypto config event = some request) :
    request.Only Operation.Asked := by
  refine arriving_only arriving (fun _ _ => trivial) ?_ ?_
  · exact fun _ _ _ _ _ _ same => nomatch same
  · exact fun _ _ same => nomatch same

theorem Refines.step (refines : Refines start trace system processed pending)
    (stepped : Stepped crypto config system event after) :
    ∃ processed pending, Refines start (trace ++ [(system, event)]) after processed pending := by
  cases stepped with
  | @arrives _ request arriving =>
    have idle : system.operation event = none ∧ system.persists event = [] := by
      cases event <;> first | exact ⟨rfl, rfl⟩ | cases arriving
    refine ⟨processed, pending, refines.aside (queues_none idle.1) idle.2 ?_ rfl rfl rfl rfl rfl⟩
    intro each member
    rcases List.mem_append.mp member with before | new
    · exact refines.requests each before
    · rw [List.mem_singleton.mp new]
      exact arriving_asked arriving
  | @request index operation next answer middle found performed =>
    have asked := refines.requests _ (List.mem_of_getElem? found)
    have now := operation_request found
    obtain ⟨-, sameProcessing, sameBooks, sameResults⟩ := performed.frame
    have still : persistedIn (trace ++ [(system, Event.request index)]) = persistedIn trace := by
      rw [persistedIn_snoc]
      exact List.append_nil _
    refine ⟨processed, pending, ?_⟩
    constructor
    · intro each member
      rcases List.mem_or_eq_of_mem_set member with before | rfl
      · exact refines.requests each before
      · exact asked.2 answer
    · rw [queuedIn_snoc, List.mem_append, not_or]
      exact ⟨refines.running, fun member => queues_running asked.1.running now member⟩
    · rw [queuedIn_snoc, refines.queued, performed.queued now, List.append_assoc]
    · rw [sameBooks, refines.books]
    · exact sameProcessing ▸ refines.processing
    · rw [still, sameResults, refines.persisted]
    · have silent : operation.published = none := by
        cases operation with
        | publish => exact asked.1.elim
        | _ => rfl
      rw [still, performed.told, silent, refines.published]
      exact List.append_nil _
  | respond found =>
    refine ⟨processed, pending, refines.aside (queues_none rfl) rfl ?_ rfl rfl rfl rfl rfl⟩
    exact fun each member => refines.requests each (List.mem_of_mem_eraseIdx member)
  | @matching command commands queued =>
    have quiet : queuedIn (trace ++ [(system, Event.matching)]) = queuedIn trace := by
      rw [queuedIn_snoc, queues_none rfl, List.append_nil]
    have still : persistedIn (trace ++ [(system, Event.matching)]) = persistedIn trace := by
      rw [persistedIn_snoc]
      exact List.append_nil _
    have running := refines.running
    rw [refines.queued, queued] at running
    obtain ⟨before, later⟩ := not_or.mp fun inside => running (List.mem_append.mpr inside)
    have one : command ≠ .shutdown := fun same => later (same ▸ List.mem_cons_self)
    refine ⟨processed ++ [command], pending, ?_⟩
    constructor
    · exact refines.requests
    · exact quiet ▸ refines.running
    · rw [quiet, refines.queued, queued, List.append_assoc, List.singleton_append]
    · rw [runMatcher_snoc before one, refines.books]
    · exact refines.processing
    · rw [runMatcher_snoc before one, List.flatMap_append, refines.persisted, still, refines.books, List.flatMap_append,
        List.append_assoc _ (system.results.flatMap _)]
    · rw [still, refines.published]
  | @receive result results idle queued =>
    have quiet : queuedIn (trace ++ [(system, Event.receive)]) = queuedIn trace := by
      rw [queuedIn_snoc, queues_none rfl, List.append_nil]
    have still : persistedIn (trace ++ [(system, Event.receive)]) = persistedIn trace := by
      rw [persistedIn_snoc]
      exact List.append_nil _
    obtain rfl : pending = [] := (idle ▸ refines.processing : (Program.done ()).Performs pending)
    refine ⟨processed, result.operations, ?_⟩
    constructor
    · exact refines.requests
    · exact quiet ▸ refines.running
    · rw [quiet, refines.queued]
    · exact refines.books
    · exact processMatchResult_performs result
    · rw [refines.persisted, still, queued, List.flatMap_cons, List.append_nil, List.append_assoc]
    · rw [still, refines.published]
  | @persist operation next answer middle busy performed =>
    have now := operation_persist busy
    obtain ⟨rest, rfl, performs⟩ := (busy ▸ refines.processing : (Program.perform operation next).Performs pending)
    have asked : operation ∈ (runMatcher start processed).2.flatMap MatchResult.operations := by
      rw [refines.persisted]
      simp
    obtain ⟨sameRequests, -, sameBooks, sameResults⟩ := performed.frame
    have persists : persistedIn (trace ++ [(system, Event.persist)]) = persistedIn trace ++ [operation] := by
      rw [persistedIn_snoc]
      simp only [System.persists, now, Option.toList_some]
    refine ⟨processed, rest, ?_⟩
    constructor
    · exact sameRequests ▸ refines.requests
    · rw [queuedIn_snoc, List.mem_append, not_or]
      exact ⟨refines.running, fun member => queues_running (operations_running asked) now member⟩
    · rw [queuedIn_snoc, refines.queued, performed.queued now, List.append_assoc]
    · rw [sameBooks, refines.books]
    · exact performs answer
    · rw [persists, sameResults, refines.persisted]
      simp
    · rw [persists, performed.told, refines.published, List.filterMap_append]
      cases operation <;> rfl
  | clocks | ledger | invalidateNonce =>
    exact ⟨processed, pending, refines.aside (queues_none rfl) rfl refines.requests rfl rfl rfl rfl rfl⟩

private theorem restart_refines {db : Database} {clock : UInt64} {dbClock : Nat}
    (restarted : System.restart db clock dbClock = some system) : Refines system.books [] system [] [] := by
  obtain ⟨books, -, rfl⟩ := restart_some restarted
  exact ⟨nofun, List.not_mem_nil, rfl, rfl, rfl, rfl, rfl⟩

/-- From any restart on, the gateway is `run_matcher` on the commands that are queued: on
a part of them at first, and on all of them once it is drained. -/
theorem gateway_refines_matcher {db : Database} {clock : UInt64} {dbClock : Nat} {first : System}
    (restarted : System.restart db clock dbClock = some first)
    (run : Run (System.Takes crypto config) first trace system) :
    (∃ processed, queuedIn trace = processed ++ system.commands ∧
      system.books = (runMatcher first.books processed).1 ∧
      persistedIn trace <+: (runMatcher first.books processed).2.flatMap MatchResult.operations) ∧
    system.published = (persistedIn trace).filterMap Operation.published ∧
    (system.drained → system.books = (runMatcher first.books (queuedIn trace)).1 ∧
      persistedIn trace = (runMatcher first.books (queuedIn trace)).2.flatMap MatchResult.operations) := by
  have reached : ∃ processed pending, Refines first.books trace system processed pending := by
    refine run.invariant (fun trace system => ∃ processed pending, Refines first.books trace system processed pending)
      ⟨[], [], restart_refines restarted⟩ ?_
    rintro trace state ⟨_, event⟩ after - ⟨processed, pending, refines⟩ ⟨rfl, moved⟩
    exact refines.step (System.Moves.stepped moved)
  obtain ⟨processed, pending, refines⟩ := reached
  refine ⟨⟨processed, refines.queued, refines.books, ?_⟩, refines.published, fun drained => ?_⟩
  · rw [refines.persisted, List.append_assoc]
    exact List.prefix_append ..
  · obtain ⟨commands, results, idle⟩ := drained
    have all : queuedIn trace = processed := by rw [refines.queued, commands, List.append_nil]
    obtain rfl : pending = [] := (idle ▸ refines.processing : (Program.done ()).Performs pending)
    rw [all]
    refine ⟨refines.books, ?_⟩
    simpa [results] using refines.persisted.symm

namespace Sample

private theorem takes_of {start system : System} {events : List Event}
    (run : Run (System.Moves signers deployment) start events system) :
    ∃ trace, Run (System.Takes signers deployment) start trace system ∧ trace.map Prod.snd = events := by
  refine run.invariant (fun events system => ∃ trace, Run (System.Takes signers deployment) start trace system ∧
    trace.map Prod.snd = events) ⟨[], .start, rfl⟩ ?_
  rintro events state event after - ⟨trace, took, same⟩ moved
  exact ⟨trace ++ [(state, event)], took.next ⟨rfl, moved⟩, by rw [List.map_append, same]; rfl⟩

def meeting : List Event :=
  [ .postOrder 102 (signedBy 6 .buy 510000 40 0) 1, .request 0, .request 0, .request 0, .request 0, .request 0,
    .respond 0, .matching, .receive, .persist, .persist, .persist ]

end Sample

theorem gateway_refines_matcher_sample : ∃ trace system,
    Run (System.Takes Sample.signers Sample.deployment) Sample.restarted trace system ∧
    trace.map Prod.snd = Sample.meeting ∧ system.published.length = 1 ∧
    persistedIn trace = (runMatcher Sample.restarted.books (queuedIn trace)).2.flatMap MatchResult.operations := by
  obtain ⟨system, run, checked⟩ := @Sample.runs_from Sample.restarted Sample.meeting
    (fun system => Sample.idle system && decide (system.published.length = 1)) (by decide +kernel)
  obtain ⟨still, one⟩ := Bool.and_eq_true_iff.mp checked
  obtain ⟨trace, took, same⟩ := Sample.takes_of run
  exact ⟨trace, system, took, same, of_decide_eq_true one,
    ((gateway_refines_matcher Sample.restarts took).2.2 (Sample.idle_drained still)).2⟩

end Omniscient.Gateway

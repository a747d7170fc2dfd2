import Omniscient.Lib.Run
import Omniscient.Proofs.MatcherCommands
import Omniscient.Proofs.Requests

/-! What one step of the gateway can do: to its requests, to the database and to
the matcher. Later proofs take a step apart here and never unfold it. -/

namespace Omniscient.Gateway
open Outcome

def orderRequest (crypto : Crypto) (config : AppConfig) (now : UInt64) (orderId : OrderId) (signed : SignedOrder)
    (marketId : MarketId) : Effect Response := do
  return .placed (← (acceptOrder crypto config now orderId signed marketId).run)

def cancelRequest (orderId : OrderId) (positionId : Uint256) : Effect Response := do
  return .cancelled (← (cancelOrder orderId positionId).run)

def System.arriving (crypto : Crypto) (config : AppConfig) (system : System) : Event → Option (Effect Response)
  | .postOrder orderId signed marketId => some (orderRequest crypto config system.clock orderId signed marketId)
  | .postCancel orderId positionId => some (cancelRequest orderId positionId)
  | _ => none

inductive Performed (system : System) : (operation : Operation) → operation.Answer → System → Prop where
  | ran {statement : Statement} {affected : Nat} {db : Database}
      (ran : statement.run system.dbClock system.db = .ok (affected, db)) :
      Performed system (.execute statement) (.ok affected) { system with db }
  | failed {statement : Statement} {error : String}
      (failed : statement.run system.dbClock system.db = .error error) :
      Performed system (.execute statement) (.error error) system
  | sent {command : MatchCommand} (room : system.commands.length < QUEUE_CAPACITY) :
      Performed system (.trySend command) true { system with commands := system.commands ++ [command] }
  | refused {command : MatchCommand} (full : ¬ system.commands.length < QUEUE_CAPACITY) :
      Performed system (.trySend command) false system
  | published (event : MatchEvent) :
      Performed system (.publish event) () { system with published := system.published ++ [event] }

theorem perform_performed (system : System) (operation : Operation) :
    Performed system operation (system.perform operation).1 (system.perform operation).2 := by
  cases operation with
  | execute statement =>
    simp only [System.perform]
    split
    next affected db ran => exact .ran ran
    next error failed => exact .failed failed
  | trySend command =>
    simp only [System.perform]
    split
    next room => exact .sent room
    next full => exact .refused full
  | publish event => exact .published event

theorem Performed.frame {system after : System} {operation : Operation} {answer : operation.Answer}
    (performed : Performed system operation answer after) :
    after.requests = system.requests ∧ after.processing = system.processing ∧ after.books = system.books ∧
      after.results = system.results := by
  cases performed <;> exact ⟨rfl, rfl, rfl, rfl⟩

inductive Stepped (crypto : Crypto) (config : AppConfig) (system : System) : Event → System → Prop where
  | arrives {event : Event} {request : Effect Response} (arriving : system.arriving crypto config event = some request) :
      Stepped crypto config system event { system with requests := system.requests ++ [request] }
  | request {index : Nat} {operation : Operation} {next : operation.Answer → Effect Response}
      {answer : operation.Answer} {after : System} (found : system.requests[index]? = some (.perform operation next))
      (performed : Performed system operation answer after) :
      Stepped crypto config system (.request index) { after with requests := system.requests.set index (next answer) }
  | respond {index : Nat} {response : Response} (found : system.requests[index]? = some (.done response)) :
      Stepped crypto config system (.respond index) { system with requests := system.requests.eraseIdx index }
  | matching {command : MatchCommand} {commands : List MatchCommand} (queued : system.commands = command :: commands) :
      Stepped crypto config system .matching { system with
        commands
        books := (process system.books command).1
        results := system.results ++ (process system.books command).2.toList }
  | receive {result : MatchResult} {results : List MatchResult} (idle : system.processing = .done ())
      (queued : system.results = result :: results) :
      Stepped crypto config system .receive { system with results, processing := processMatchResult result }
  | persist {operation : Operation} {next : operation.Answer → Effect Unit} {answer : operation.Answer} {after : System}
      (busy : system.processing = .perform operation next) (performed : Performed system operation answer after) :
      Stepped crypto config system .persist { after with processing := next answer }
  | clocks (clock : UInt64) (dbClock : Nat) :
      Stepped crypto config system (.clocks clock dbClock) { system with clock, dbClock }
  | ledger (users : Address → Option UserRow) (markets : MarketId → Option MarketRow)
      (balances : BalanceKey → Option BalanceRow) :
      Stepped crypto config system (.ledger users markets balances)
        { system with db := { system.db with users, markets, balances } }
  | invalidateNonce (user : Address) (nonce : Int) :
      Stepped crypto config system (.invalidateNonce user nonce) { system with
        db := (updateOrders (fun row => row.userAddress = user ∧ row.nonce < nonce ∧ row.status = .open)
          (fun row => { row with status := .cancelled }) system.db).2 }

variable {crypto : Crypto} {config : AppConfig} {system after : System} {event : Event}

theorem System.Moves.stepped (moved : system.Moves crypto config event after) : Stepped crypto config system event after := by
  unfold System.Moves at moved
  cases event with
  | postOrder orderId signed marketId =>
    cases moved
    exact .arrives rfl
  | postCancel orderId positionId =>
    cases moved
    exact .arrives rfl
  | request index =>
    simp only [System.step] at moved
    split at moved
    next operation next found =>
      cases moved
      have performed := perform_performed system operation
      rw [performed.frame.1]
      exact .request found performed
    next => cases moved
  | respond index =>
    simp only [System.step] at moved
    split at moved
    next found =>
      cases moved
      exact .respond found
    next => cases moved
  | matching =>
    simp only [System.step] at moved
    split at moved
    next command commands queued =>
      cases moved
      exact .matching queued
    next => cases moved
  | receive =>
    simp only [System.step] at moved
    split at moved
    next result results idle queued =>
      cases moved
      exact .receive idle queued
    next => cases moved
  | persist =>
    simp only [System.step] at moved
    split at moved
    next operation next busy =>
      cases moved
      exact .persist busy (perform_performed system operation)
    next => cases moved
  | clocks clock dbClock =>
    cases moved
    exact .clocks clock dbClock
  | ledger users markets balances =>
    cases moved
    exact .ledger users markets balances
  | invalidateNonce user nonce =>
    cases moved
    exact .invalidateNonce user nonce

theorem operation_request {index : Nat} {operation : Operation} {next : operation.Answer → Effect Response}
    (found : system.requests[index]? = some (.perform operation next)) :
    system.operation (.request index) = some operation := by
  simp only [System.operation, found]

theorem operation_persist {operation : Operation} {next : operation.Answer → Effect Unit}
    (busy : system.processing = .perform operation next) : system.operation .persist = some operation := by
  simp only [System.operation, busy]

inductive Stored (system : System) (event : Event) : Database → Prop where
  | kept : Stored system event system.db
  | ran {statement : Statement} {affected : Nat} {db : Database}
      (performed : system.operation event = some (.execute statement))
      (ran : statement.run system.dbClock system.db = .ok (affected, db)) : Stored system event db
  | ledger (users : Address → Option UserRow) (markets : MarketId → Option MarketRow)
      (balances : BalanceKey → Option BalanceRow) (now : event = .ledger users markets balances) :
      Stored system event { system.db with users, markets, balances }
  | invalidated (user : Address) (nonce : Int) (now : event = .invalidateNonce user nonce) :
      Stored system event (updateOrders (fun row => row.userAddress = user ∧ row.nonce < nonce ∧ row.status = .open)
        (fun row => { row with status := .cancelled }) system.db).2

theorem Performed.stored {operation : Operation} {answer : operation.Answer} (performed : Performed system operation answer after)
    (now : system.operation event = some operation) : Stored system event after.db := by
  cases performed with
  | ran ran => exact .ran now ran
  | failed failed => exact .kept
  | sent room => exact .kept
  | refused full => exact .kept
  | published => exact .kept

theorem Stepped.stored (stepped : Stepped crypto config system event after) : Stored system event after.db := by
  cases stepped with
  | arrives => exact .kept
  | request found performed => exact performed.stored (operation_request found)
  | respond => exact .kept
  | matching => exact .kept
  | receive => exact .kept
  | persist busy performed => exact performed.stored (operation_persist busy)
  | clocks => exact .kept
  | ledger users markets balances => exact .ledger users markets balances rfl
  | invalidateNonce user nonce => exact .invalidated user nonce rfl

def Event.isMatching : Event → Bool
  | .matching => true
  | _ => false

inductive MatcherStep (system : System) (event : Event) (after : System) : Prop where
  | idle (other : event.isMatching = false) (commands : after.commands = system.commands)
      (books : after.books = system.books)
  | sent {command : MatchCommand} (other : event.isMatching = false)
      (performed : system.operation event = some (.trySend command))
      (commands : after.commands = system.commands ++ [command]) (books : after.books = system.books)
  | processed {command : MatchCommand} (now : event.isMatching = true)
      (queued : system.commands = command :: after.commands) (books : after.books = (process system.books command).1)

theorem Performed.matcher {operation : Operation} {answer : operation.Answer} {middle : System}
    (performed : Performed system operation answer middle) (now : system.operation event = some operation)
    (other : event.isMatching = false) (commands : after.commands = middle.commands) (books : after.books = middle.books) :
    MatcherStep system event after := by
  cases performed with
  | ran ran => exact .idle other commands books
  | failed failed => exact .idle other commands books
  | sent room => exact .sent other now commands books
  | refused full => exact .idle other commands books
  | published => exact .idle other commands books

theorem Stepped.matcher (stepped : Stepped crypto config system event after) : MatcherStep system event after := by
  cases stepped with
  | arrives arriving =>
    refine .idle ?_ rfl rfl
    cases event <;> first | rfl | cases arriving
  | request found performed => exact performed.matcher (operation_request found) rfl rfl rfl
  | respond => exact .idle rfl rfl rfl
  | matching queued => exact .processed rfl queued rfl
  | receive => exact .idle rfl rfl rfl
  | persist busy performed => exact performed.matcher (operation_persist busy) rfl rfl rfl
  | clocks => exact .idle rfl rfl rfl
  | ledger => exact .idle rfl rfl rfl
  | invalidateNonce => exact .idle rfl rfl rfl

def Statement.writesOrders : Statement → Bool
  | .insertOrder _ | .updateOrderFilled .. | .cancelOrderDb _ => true
  | .ensureUser _ | .reserveCollateral .. | .releaseCollateral .. | .insertHold .. => false

theorem run_keepsOrders {now affected : Nat} {db db' : Database} {statement : Statement}
    (ran : statement.run now db = .ok (affected, db')) (elsewhere : statement.writesOrders = false) :
    db'.orders = db.orders := by
  cases statement with
  | ensureUser maker =>
    simp only [Statement.run] at ran
    split at ran <;> cases ran <;> rfl
  | reserveCollateral key amount =>
    simp only [Statement.run] at ran
    split at ran
    next =>
      split at ran <;> cases ran <;> rfl
    next =>
      cases ran
      rfl
  | releaseCollateral key amount =>
    simp only [Statement.run] at ran
    split at ran <;> cases ran <;> rfl
  | insertHold orderId key amount =>
    simp only [Statement.run, bind_ok, revertIf_ok, pure_ok, Prod.mk.injEq] at ran
    obtain ⟨-, -, -, -, -, -, -, rfl⟩ := ran
    rfl
  | insertOrder => cases elsewhere
  | updateOrderFilled => cases elsewhere
  | cancelOrderDb => cases elsewhere

theorem insertOrder_ok {now affected : Nat} {db db' : Database} {values : OrderValues}
    (ran : (Statement.insertOrder values).run now db = .ok (affected, db')) :
    0 < values.price ∧ 0 < values.amount ∧ (∀ row ∈ db.orders, row.orderId ≠ values.orderId) ∧
      db.users values.maker ≠ none ∧ db' = { db with orders := db.orders ++ [values.row now] } := by
  simp only [Statement.run, bind_ok, revertIf_ok, pure_ok, Prod.mk.injEq, not_not] at ran
  obtain ⟨-, -, -, positive, -, ⟨priced, -⟩, -, fresh, -, user, -, -, -, rfl⟩ := ran
  refine ⟨priced, not_le.mp positive, fun row member same => ?_, user, rfl⟩
  exact fresh (List.any_eq_true.mpr ⟨row, member, decide_eq_true same⟩)

theorem mem_updateOrders {affects : OrderRow → Bool} {set : OrderRow → OrderRow} {db : Database} {row : OrderRow} :
    row ∈ (updateOrders affects set db).2.orders ↔
      ∃ old ∈ db.orders, (if affects old then set old else old) = row := List.mem_map

private theorem run_numbers {now affected : Nat} {db db' : Database} {statement : Statement}
    (ran : statement.run now db = .ok (affected, db')) : db'.orderNumbers = db.orderNumbers := by
  cases statement with
  | insertOrder values =>
    obtain ⟨-, -, -, -, rfl⟩ := insertOrder_ok ran
    rfl
  | insertHold orderId key amount =>
    simp only [Statement.run, bind_ok, revertIf_ok, pure_ok, Prod.mk.injEq] at ran
    obtain ⟨-, -, -, -, -, -, -, rfl⟩ := ran
    rfl
  | ensureUser maker =>
    simp only [Statement.run] at ran
    split at ran <;> cases ran <;> rfl
  | reserveCollateral key amount =>
    simp only [Statement.run] at ran
    split at ran
    next => split at ran <;> cases ran <;> rfl
    next =>
      cases ran
      rfl
  | releaseCollateral key amount =>
    simp only [Statement.run] at ran
    split at ran <;> cases ran <;> rfl
  | updateOrderFilled orderId filledDelta status =>
    cases ran
    rfl
  | cancelOrderDb orderId =>
    cases ran
    rfl

theorem Stored.numbers {db : Database} (stored : Stored system event db) : db.orderNumbers = system.db.orderNumbers := by
  cases stored with
  | kept => rfl
  | ran performed ran => exact run_numbers ran
  | ledger => rfl
  | invalidated => rfl

structure System.Confined (allowed : Operation → Prop) (system : System) : Prop where
  requests : ∀ request ∈ system.requests, request.Only allowed
  processing : system.processing.Only allowed

variable {allowed : Operation → Prop}

theorem System.Confined.operation (confined : system.Confined allowed) {operation : Operation}
    (performs : system.operation event = some operation) : allowed operation := by
  cases event with
  | request index =>
    simp only [System.operation] at performs
    split at performs
    next next found =>
      cases performs
      exact (confined.requests _ (List.mem_of_getElem? found)).1
    next => cases performs
  | persist =>
    simp only [System.operation] at performs
    split at performs
    next next busy =>
      cases performs
      exact (busy ▸ confined.processing : (Program.perform _ next).Only allowed).1
    next => cases performs
  | _ => cases performs

/-- What arrives is confined where the statements of requests, the placement that
is posted and every cancellation are allowed. -/
theorem arriving_only {request : Effect Response} (arriving : system.arriving crypto config event = some request)
    (statements : ∀ statement : Statement, statement.Requested → allowed (.execute statement))
    (places : ∀ orderId signed marketId maker, event = .postOrder orderId signed marketId →
      validateSignedOrder crypto config system.clock signed = .ok maker →
      allowed (.trySend (signed.command marketId orderId)))
    (cancels : ∀ positionId orderId, allowed (.trySend (.cancelOrder positionId orderId))) : request.Only allowed := by
  cases event with
  | postOrder orderId signed marketId =>
    cases arriving
    exact Program.only_bind (acceptOrder_only statements fun maker => places orderId signed marketId maker rfl)
      fun _ => Program.only_pure _
  | postCancel orderId positionId =>
    cases arriving
    exact Program.only_bind (cancelOrder_only statements (cancels positionId orderId)) fun _ => Program.only_pure _
  | _ => cases arriving

/-- A step keeps the confinement where what arrives and what is received does. -/
theorem Stepped.confined (stepped : Stepped crypto config system event after) (confined : system.Confined allowed)
    (arrives : ∀ request, system.arriving crypto config event = some request → request.Only allowed)
    (receives : ∀ result ∈ system.results, (processMatchResult result).Only allowed) : after.Confined allowed := by
  cases stepped with
  | @arrives _ request arriving =>
    refine ⟨fun each member => ?_, confined.processing⟩
    rcases List.mem_append.mp member with before | new
    · exact confined.requests each before
    · rw [List.mem_singleton.mp new]
      exact arrives request arriving
  | request found performed =>
    refine ⟨fun each member => ?_, performed.frame.2.1 ▸ confined.processing⟩
    rcases List.mem_or_eq_of_mem_set member with before | rfl
    · exact confined.requests each before
    · exact (confined.requests _ (List.mem_of_getElem? found)).2 _
  | respond => exact ⟨fun each member => confined.requests each (List.mem_of_mem_eraseIdx member), confined.processing⟩
  | matching => exact ⟨confined.requests, confined.processing⟩
  | receive idle queued => exact ⟨confined.requests, receives _ (queued ▸ List.mem_cons_self)⟩
  | @persist operation next _ _ busy performed =>
    refine ⟨performed.frame.1 ▸ confined.requests, ?_⟩
    exact (busy ▸ confined.processing : (Program.perform operation next).Only allowed).2 _
  | clocks => exact ⟨confined.requests, confined.processing⟩
  | ledger => exact ⟨confined.requests, confined.processing⟩
  | invalidateNonce => exact ⟨confined.requests, confined.processing⟩

/-- Commands in flight or queued keep to one condition, and orders at rest to another. -/
structure System.Carries (sent : MatchCommand → Prop) (held : Uint256 → RestingOrder → Prop) (system : System) : Prop where
  confined : system.Confined fun operation => ∀ command, operation = .trySend command → sent command
  queued : ∀ command ∈ system.commands, sent command
  resting : ∀ position, ∀ order ∈ restingAt system.books position, held position order

/-- A step keeps the conditions where what is posted meets them, what a command leaves
at rest, and whatever has the terms of an order at rest. -/
theorem Stepped.carries {sent : MatchCommand → Prop} {held : Uint256 → RestingOrder → Prop}
    (stepped : Stepped crypto config system event after)
    (posts : ∀ orderId signed marketId maker, event = .postOrder orderId signed marketId →
      validateSignedOrder crypto config system.clock signed = .ok maker → sent (signed.command marketId orderId))
    (cancels : ∀ positionId orderId, sent (.cancelOrder positionId orderId))
    (rests : ∀ command order filled seq, sent command → command.order = some order →
      held command.position { order with filled, seq })
    (terms : ∀ position (before order : RestingOrder), order.terms = before.terms → held position before →
      held position order)
    (carries : system.Carries sent held) : after.Carries sent held := by
  have confined : after.Confined fun operation => ∀ command, operation = .trySend command → sent command := by
    apply stepped.confined carries.confined
    · intro request arriving
      refine arriving_only arriving (fun _ _ _ none => nomatch none) ?_ ?_
      · intro orderId signed marketId maker posted valid command impossible
        cases impossible
        exact posts orderId signed marketId maker posted valid
      · intro positionId orderId command impossible
        cases impossible
        exact cancels positionId orderId
    · exact fun result _ => processMatchResult_only (fun _ _ none => nomatch none) fun _ _ _ _ _ none => nomatch none
  cases stepped.matcher with
  | idle other commands books => exact ⟨confined, commands ▸ carries.queued, books ▸ carries.resting⟩
  | @sent command other performed commands books =>
    refine ⟨confined, fun each member => ?_, books ▸ carries.resting⟩
    rw [commands] at member
    rcases List.mem_append.mp member with before | new
    · exact carries.queued each before
    · rw [List.mem_singleton.mp new]
      exact carries.confined.operation performed command rfl
  | @processed command now queued books =>
    refine ⟨confined, fun later member => carries.queued later (queued ▸ List.mem_cons_of_mem _ member), ?_⟩
    intro position order member
    rw [books] at member
    rcases process_resting member with ⟨before, rested, same⟩ | ⟨placed, places, rfl, filled, seq, rfl⟩
    · exact terms position before order same (carries.resting position before rested)
    · exact rests command placed filled seq (carries.queued command (queued ▸ List.mem_cons_self)) places

namespace Sample

/-- Every hash is 0, and a signature recovers the account that its first byte names. -/
def signers : Crypto where
  keccak256 _ := 0
  recover _ signature := signature.head?.map fun account => account.toNat

def deployment : AppConfig := ⟨1, 201, 202, 203⟩

def signedBy (maker : Nat) (side : OrderSide) (price amount nonce : UInt64) : SignedOrder where
  order := { salt := 0, maker, positionId := 3, price, amount, side, nonce, deadline := 5000 }
  signature := .ofNat maker :: List.replicate 64 27

def openSale : OrderRow where
  orderId := 101
  userAddress := 5
  marketId := 1
  side := .sell
  price := 500000
  amount := 100
  filledAmount := 0
  status := .open
  nonce := 0
  salt := 0
  positionId := 3
  signature := []
  deadline := 5000
  createdAt := 0

/-- Market 1, a thousand units of account 6 and a thousand shares of account 5. -/
def unlisted : Database := { Database.empty with
  users := fun user => if user = 5 ∨ user = 6 then some ⟨0⟩ else none
  markets := fun market => if market = 1 then some ⟨[], .open, 0, 2, 1⟩ else none
  balances := fun key => if key = ⟨6, .usdc, none⟩ ∨ key = ⟨5, .ctf, some 3⟩ then some ⟨1000, 0, 1⟩ else none }

/-- The same with an open sale, were the numbers of the orders BIGINT. -/
def listed : Database := { unlisted with orderNumbers := .bigint, orders := [openSale] }

def opened : System := .starting unlisted (fun _ => none) 0 0

def restarted : System := .starting listed ((rebuildBooks listed).getD fun _ => none) 0 0

theorem restarted_resting (position : Uint256) :
    ∀ order ∈ restingAt restarted.books position, order = ⟨101, 5, 500000, 100, 0, .sell, 0, 0, 5000⟩ := by
  intro order member
  by_cases here : position = 3
  · subst here
    have one : restingAt restarted.books 3 = [⟨101, 5, 500000, 100, 0, .sell, 0, 0, 5000⟩] := by decide +kernel
    rw [one] at member
    exact List.mem_singleton.mp member
  · have none : restarted.books position = Option.none := by
      have untouched (book : OrderBook) : Function.update (fun _ => Option.none) 3 (some book) position =
          (Option.none : Option OrderBook) := Function.update_of_ne here ..
      exact congrArg (Option.map OrderBook.prune) (untouched _)
    rw [restingAt, none] at member
    cases member

theorem restarts : System.restart listed 0 0 = some restarted := rfl

def placing (orderId : OrderId) (signed : SignedOrder) : List Event :=
  [ .postOrder orderId signed 1, .request 0, .request 0, .request 0, .request 0, .request 0, .respond 0, .matching ]

def signedSaleOf5 : SignedOrder := signedBy 5 .sell 500000 100 0

/-- The sale is posted, comes to rest, and its result is dealt with. -/
def selling : List Event := placing 101 signedSaleOf5 ++ [.receive]

def idle (system : System) : Bool :=
  match system.commands, system.results, system.processing with
  | [], [], .done () => true
  | _, _, _ => false

theorem idle_drained {system : System} (still : idle system = true) : system.drained := by
  unfold idle at still
  split at still
  next commands results processing => exact ⟨commands, results, processing⟩
  next => cases still

def queuedOne (check : MatchCommand → System → Bool) (system : System) : Bool :=
  match system.commands with
  | [command] => check command system
  | _ => false

theorem queuedOne_some {check : MatchCommand → System → Bool} {system : System} (one : queuedOne check system = true) :
    ∃ command, system.commands = [command] ∧ check command system = true := by
  unfold queuedOne at one
  split at one
  next command queued => exact ⟨command, queued, one⟩
  next => cases one

def steps (keeps : System → Event → Bool) (start : System) (events : List Event) : Option System :=
  events.foldlM (fun system event => if keeps system event then System.step signers deployment system event else none) start

theorem runs_within {keeps : System → Event → Bool} {start : System} {events : List Event} {check : System → Bool}
    (passes : (steps keeps start events).any check = true) : ∃ system,
    Run (fun system event after => System.Moves signers deployment system event after ∧ keeps system event = true)
      start events system ∧ check system = true := by
  obtain ⟨system, run, checked⟩ := Run.of_check passes
  refine ⟨system, run.mono fun state event after moved => ?_, checked⟩
  split at moved
  next kept => exact ⟨moved, kept⟩
  next => cases moved

theorem runs_from {start : System} {events : List Event} {check : System → Bool}
    (passes : (steps (fun _ _ => true) start events).any check = true) :
    ∃ system, Run (System.Moves signers deployment) start events system ∧ check system = true := by
  obtain ⟨system, run, checked⟩ := runs_within passes
  exact ⟨system, run.mono fun _ _ _ moved => moved.1, checked⟩

end Sample

end Omniscient.Gateway

import Omniscient.Proofs.GatewaySteps

/-! The stages of the requests in flight, through the steps of the gateway. What a
stage owes can be counted over all requests, since one step moves one stage. -/

namespace Omniscient.Gateway
open Outcome

/-- What an index finds in the second of two related lists has its counterpart in
the first; both can be replaced or removed together. -/
theorem related_at {α β : Type} {related : α → β → Prop} {items : List α} {others : List β}
    (all : List.Forall₂ related items others) {index : Nat} {other : β} (found : others[index]? = some other) :
    ∃ front item back, items = front ++ item :: back ∧ related item other ∧
      (∀ item other, related item other → List.Forall₂ related (front ++ item :: back) (others.set index other)) ∧
      List.Forall₂ related (front ++ back) (others.eraseIdx index) := by
  induction all generalizing index with
  | nil => cases found
  | @cons item first items rest one others ih =>
    cases index with
    | zero =>
      cases found
      exact ⟨[], item, items, rfl, one, fun _ _ same => .cons same others, others⟩
    | succ index =>
      obtain ⟨front, found, back, rfl, same, replaced, removed⟩ := ih found
      exact ⟨item :: front, found, back, rfl, same, fun _ _ same => .cons one (replaced _ _ same), .cons one removed⟩

def Operation.Persists : Operation → Prop
  | .execute (.updateOrderFilled ..) | .publish _ => True
  | _ => False

structure System.Staged (system : System) (stages : List Stage) : Prop where
  requests : List.Forall₂ (fun stage (request : Effect Response) =>
    request.Follows Stage.Ready Stage.Moves (fun _ stage => stage = .idle) stage) stages system.requests
  processing : system.processing.Only Operation.Persists

structure System.SameStores (system other : System) : Prop where
  db : system.db = other.db
  commands : system.commands = other.commands
  books : system.books = other.books

variable {crypto : Crypto} {config : AppConfig} {system after : System} {event : Event} {stages : List Stage}

theorem arriving_keeps {request : Effect Response} (arriving : system.arriving crypto config event = some request) :
    request.Follows Stage.Ready Stage.Moves (fun _ stage => stage = .idle) .idle := by
  cases event with
  | postOrder orderId signed marketId =>
    cases arriving
    apply Program.follows_bind
    apply acceptOrder_keeps.weaken
    intro result stage reached
    cases result with
    | ok value => exact reached
    | error error => exact reached
  | postCancel orderId positionId =>
    cases arriving
    apply Program.follows_bind
    apply cancelOrder_keeps.weaken
    intro result stage reached
    cases result with
    | ok value => exact reached
    | error error => exact reached
  | _ => cases arriving

def OrderRow.fixed (row : OrderRow) : OrderRow := { row with filledAmount := 0, status := .open }

theorem updateOrders_fixed {affects : OrderRow → Bool} {set : OrderRow → OrderRow} {db : Database}
    (keeps : ∀ row, OrderRow.fixed (set row) = OrderRow.fixed row) :
    (updateOrders affects set db).2.orders.map OrderRow.fixed = db.orders.map OrderRow.fixed := by
  simp only [updateOrders, List.map_map]
  apply List.map_congr_left
  intro row _
  simp only [Function.comp_apply]
  split
  next => exact keeps row
  next => rfl

def Statement.inserts (now : Nat) : Statement → List OrderRow
  | .insertOrder values => [values.row now]
  | _ => []

/-- A statement adds its rows, and keeps what the others were inserted with. -/
theorem run_fixed {now affected : Nat} {db db' : Database} {statement : Statement}
    (ran : statement.run now db = .ok (affected, db')) :
    db'.orders.map OrderRow.fixed = db.orders.map OrderRow.fixed ++ statement.inserts now := by
  cases statement with
  | insertOrder values =>
    obtain ⟨-, -, -, -, rfl⟩ := insertOrder_ok ran
    simp only [List.map_append, List.map_cons, List.map_nil]
    rfl
  | updateOrderFilled orderId filledDelta status =>
    cases ran
    refine Eq.trans (updateOrders_fixed fun row => ?_) (List.append_nil _).symm
    rfl
  | cancelOrderDb orderId =>
    cases ran
    refine Eq.trans (updateOrders_fixed fun row => ?_) (List.append_nil _).symm
    rfl
  | _ => simp [run_keepsOrders ran rfl, Statement.inserts]

inductive StagedStep (system : System) (stages : List Stage) (event : Event) (after : System) : List Stage → Prop where
  | arrived (same : after.SameStores system) : StagedStep system stages event after (stages ++ [.idle])
  | performed {operation : Operation} {answer : operation.Answer} {middle : System} {front back : List Stage}
      {stage next : Stage} (now : system.operation event = some operation) (split : stages = front ++ stage :: back) (ready : stage.Ready operation)
      (moved : stage.Moves operation answer next) (performed : Performed system operation answer middle)
      (same : after.SameStores middle) : StagedStep system stages event after (front ++ next :: back)
  | responded {front back : List Stage} (split : stages = front ++ .idle :: back)
      (same : after.SameStores system) : StagedStep system stages event after (front ++ back)
  | persisted {operation : Operation} {answer : operation.Answer} {middle : System}
      (now : system.operation event = some operation) (persists : operation.Persists)
      (performed : Performed system operation answer middle) (same : after.SameStores middle) :
      StagedStep system stages event after stages
  | matched {command : MatchCommand} (queued : system.commands = command :: after.commands)
      (books : after.books = (process system.books command).1) (db : after.db = system.db) :
      StagedStep system stages event after stages
  | outside (db : after.db = system.db ∨ (∃ users markets balances, event = .ledger users markets balances ∧
        after.db = { system.db with users, markets, balances }) ∨
        ∃ user nonce affects, event = .invalidateNonce user nonce ∧
          after.db = (updateOrders affects (fun row => { row with status := .cancelled }) system.db).2)
      (commands : after.commands = system.commands) (books : after.books = system.books) :
      StagedStep system stages event after stages

theorem Performed.moves {operation : Operation} {answer : operation.Answer} {stage : Stage}
    (performed : Performed system operation answer after) (ready : stage.Ready operation) :
    ∃ next, stage.Moves operation answer next := by
  cases performed with
  | @ran statement affected db ran =>
    cases ready with
    | ensure => exact ⟨_, .ensured⟩
    | reserve =>
      cases affected with
      | zero => exact ⟨_, .short⟩
      | succ affected => exact ⟨_, .reserved (Nat.succ_ne_zero affected)⟩
    | insert =>
      obtain ⟨priced, positive, -⟩ := insertOrder_ok ran
      exact ⟨_, .inserted priced positive⟩
    | release => exact ⟨_, .released⟩
    | hold => exact ⟨_, .held⟩
    | repair => exact ⟨_, .repaired⟩
    | close => exact ⟨_, .closed⟩
  | failed =>
    cases ready with
    | ensure => exact ⟨_, .ensured⟩
    | reserve => exact ⟨_, .unreserved⟩
    | insert => exact ⟨_, .refused⟩
    | release => exact ⟨_, .released⟩
    | hold => exact ⟨_, .unheld⟩
    | repair => exact ⟨_, .repaired⟩
    | close => exact ⟨_, .closed⟩
  | sent =>
    cases ready with
    | place => exact ⟨_, .sent⟩
    | cancel => exact ⟨_, .cancelled⟩
  | refused =>
    cases ready with
    | place => exact ⟨_, .sent⟩
    | cancel => exact ⟨_, .cancelled⟩
  | published => cases ready

theorem processMatchResult_persists (result : MatchResult) : (processMatchResult result).Only Operation.Persists :=
  processMatchResult_only (fun _ => trivial) fun _ _ _ _ => trivial

theorem Stepped.staged (stepped : Stepped crypto config system event after) (staged : system.Staged stages) :
    ∃ later, after.Staged later ∧ StagedStep system stages event after later := by
  obtain ⟨requests, processing⟩ := staged
  cases stepped with
  | arrives arriving =>
    refine ⟨stages ++ [.idle], ⟨?_, processing⟩, .arrived ?_⟩
    · exact List.rel_append requests (.cons (arriving_keeps arriving) .nil)
    · exact ⟨rfl, rfl, rfl⟩
  | @request index operation next answer middle found performed =>
    obtain ⟨front, stage, back, split, follows, replaced, -⟩ := related_at requests found
    obtain ⟨later, moved⟩ := performed.moves follows.1
    refine ⟨front ++ later :: back, ⟨replaced _ _ (follows.2 answer later moved), ?_⟩, ?_⟩
    · exact performed.frame.2.1 ▸ processing
    · exact .performed (operation_request found) split follows.1 moved performed ⟨rfl, rfl, rfl⟩
  | respond found =>
    obtain ⟨front, stage, back, split, rfl, -, removed⟩ := related_at requests found
    exact ⟨front ++ back, ⟨removed, processing⟩, .responded split ⟨rfl, rfl, rfl⟩⟩
  | matching queued => exact ⟨stages, ⟨requests, processing⟩, .matched queued rfl rfl⟩
  | receive idle queued =>
    exact ⟨stages, ⟨requests, processMatchResult_persists _⟩, .outside (.inl rfl) rfl rfl⟩
  | @persist operation next answer middle busy performed =>
    have only : (Program.perform operation next).Only Operation.Persists := busy ▸ processing
    refine ⟨stages, ⟨performed.frame.1 ▸ requests, only.2 answer⟩, ?_⟩
    exact .persisted (operation_persist busy) only.1 performed ⟨rfl, rfl, rfl⟩
  | clocks => exact ⟨stages, ⟨requests, processing⟩, .outside (.inl rfl) rfl rfl⟩
  | ledger users markets balances =>
    exact ⟨stages, ⟨requests, processing⟩, .outside (.inr (.inl ⟨users, markets, balances, rfl, rfl⟩)) rfl rfl⟩
  | invalidateNonce user nonce =>
    exact ⟨stages, ⟨requests, processing⟩, .outside (.inr (.inr ⟨user, nonce, _, rfl, rfl⟩)) rfl rfl⟩

/-- What the result processor does leaves the accounts alone, and what the orders
were inserted with. -/
theorem Performed.persists {operation : Operation} {answer : operation.Answer}
    (performed : Performed system operation answer after) (persists : operation.Persists) :
    after.commands = system.commands ∧ after.db.orders.map OrderRow.fixed = system.db.orders.map OrderRow.fixed ∧
      after.db.users = system.db.users ∧ after.db.balances = system.db.balances := by
  cases performed with
  | @ran statement affected db ran =>
    cases statement with
    | updateOrderFilled =>
      have rows := run_fixed ran
      cases ran
      exact ⟨rfl, by simpa [Statement.inserts] using rows, rfl, rfl⟩
    | _ => exact persists.elim
  | failed => exact ⟨rfl, rfl, rfl, rfl⟩
  | sent => exact persists.elim
  | refused => exact ⟨rfl, rfl, rfl, rfl⟩
  | published => exact ⟨rfl, rfl, rfl, rfl⟩

end Omniscient.Gateway

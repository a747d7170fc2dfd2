import Omniscient.Proofs.Acceptance
import Omniscient.Proofs.Restart

/-! Whether a cancelled order stops trading. The matcher looks for the order in the
book of the position that the client names, so the command has to name the order's
own position, and to come after the order's placement. -/

namespace Omniscient.Gateway

def Stage.owes (id : OrderId) (position : Uint256) : Stage → Nat
  | .inserted values => if values.orderId = id ∧ values.positionId = position then 1 else 0
  | _ => 0

def MatchCommand.places (id : OrderId) (position : Uint256) (command : MatchCommand) : Bool :=
  command.order.any (·.orderId = id) && command.position = position

@[simp] theorem places_placeOrder {id : OrderId} {position : Uint256} {marketId : MarketId} {positionId : Uint256}
    {orderId : OrderId} {maker : Address} {price amount : UInt64} {side : OrderSide} {nonce deadline : UInt64} :
    (MatchCommand.placeOrder marketId positionId orderId maker price amount side nonce deadline).places id position =
      decide (orderId = id ∧ positionId = position) := by
  rw [Bool.decide_and]
  rfl

@[simp] theorem places_cancelOrder {id : OrderId} {position : Uint256} {positionId : Uint256} {orderId : OrderId} :
    (MatchCommand.cancelOrder positionId orderId).places id position = false := rfl

def restingCount (id : OrderId) (position : Uint256) (books : Books) : Nat :=
  (restingAt books position).countP (·.orderId = id)

/-- The placements of an order in a position that are queued or at rest. -/
def load (id : OrderId) (position : Uint256) (commands : List MatchCommand) (books : Books) : Nat :=
  commands.countP (·.places id position) + restingCount id position books

def rowCount (id : OrderId) (position : Uint256) (db : Database) : Nat :=
  db.orders.countP fun row => row.orderId = id ∧ row.positionId = position

def System.Backed (id : OrderId) (position : Uint256) (stages : List Stage) (system : System) : Prop :=
  (stages.map (Stage.owes id position)).sum + load id position system.commands system.books ≤
    rowCount id position system.db

variable {id : OrderId} {position : Uint256} {books : Books} {command : MatchCommand}

private theorem countP_le_of_ids {orders orders' : List RestingOrder}
    (less : (orders'.map RestingOrder.orderId).Sublist (orders.map RestingOrder.orderId)) :
    orders'.countP (·.orderId = id) ≤ orders.countP (·.orderId = id) := by
  have counted (orders : List RestingOrder) :
      orders.countP (·.orderId = id) = (orders.map RestingOrder.orderId).countP (· = id) := by
    rw [List.countP_map]
    rfl
  rw [counted, counted]
  exact less.countP_le

theorem process_count : restingCount id position (process books command).1 ≤
    (if command.places id position then 1 else 0) + restingCount id position books := by
  unfold restingCount
  cases placed : command.order with
  | none => exact ((process_withdraws placed).2 position).countP_le.trans (Nat.le_add_left ..)
  | some order =>
    have placing := @process_places books command order placed
    by_cases here : position = command.position
    · subst here
      have matched := @countP_le_of_ids id _ _ (matchOrder_remains ((books command.position).getD .new) order).ids
      rcases placing.here with ⟨-, same⟩ | ⟨-, seq, same⟩
      · rw [same]
        exact matched.trans (Nat.le_add_left ..)
      · rw [same.countP_eq, List.countP_cons]
        have own : command.places id command.position = decide (order.orderId = id) := by
          simp [MatchCommand.places, placed]
        rw [own, Nat.add_comm]
        exact Nat.add_le_add_left matched _
    · rw [placing.others position here]
      exact Nat.le_add_left ..

theorem load_process {commands : List MatchCommand} :
    load id position commands (process books command).1 ≤ load id position (command :: commands) books := by
  have bound := @process_count id position books command
  unfold load
  rw [List.countP_cons]
  omega

theorem rowCount_inserted {db db' : Database} {added : List OrderRow}
    (same : db'.orders.map OrderRow.fixed = db.orders.map OrderRow.fixed ++ added) :
    rowCount id position db' = rowCount id position db +
      added.countP fun row => row.orderId = id ∧ row.positionId = position := by
  have counted (rows : List OrderRow) : rows.countP (fun row => decide (row.orderId = id ∧ row.positionId = position)) =
      (rows.map OrderRow.fixed).countP fun row => row.orderId = id ∧ row.positionId = position := by
    rw [List.countP_map]
    rfl
  unfold rowCount
  rw [counted, same, List.countP_append, ← counted]

theorem rowCount_kept {db db' : Database} (same : db'.orders.map OrderRow.fixed = db.orders.map OrderRow.fixed) :
    rowCount id position db' = rowCount id position db :=
  @rowCount_inserted id position db db' [] (same.trans (List.append_nil _).symm)

theorem Stage.Moves.owes {system middle : System} {stage next : Stage} {operation : Operation}
    {answer : operation.Answer} (moved : stage.Moves operation answer next) (ready : stage.Ready operation)
    (performed : Performed system operation answer middle) :
    next.owes id position + middle.commands.countP (·.places id position) + rowCount id position system.db ≤
      stage.owes id position + system.commands.countP (·.places id position) + rowCount id position middle.db := by
  cases performed with
  | ran ran =>
    have rows := @rowCount_inserted id position _ _ _ (run_fixed ran)
    cases moved with
    | inserted =>
      simp only [Statement.inserts, List.countP_singleton, OrderValues.row, decide_eq_true_eq] at rows
      simp only [Stage.owes]
      omega
    | _ =>
      simp only [Stage.owes] at rows ⊢
      omega
  | failed =>
    cases moved <;> simp only [Stage.owes] <;> omega
  | sent room =>
    simp only [List.countP_append, List.countP_singleton]
    cases ready with
    | @place values =>
      cases moved
      simp only [Stage.owes, places_placeOrder, decide_eq_true_eq]
      omega
    | cancel =>
      cases moved
      simp only [Stage.owes, places_cancelOrder, Bool.false_eq_true, if_false]
      omega
  | refused full =>
    cases moved <;> simp only [Stage.owes] <;> omega
  | published => cases moved

theorem StagedStep.backed {system after : System} {stages later : List Stage} {event : Event}
    (step : StagedStep system stages event after later) (backed : system.Backed id position stages) :
    after.Backed id position later := by
  unfold System.Backed load at *
  cases step with
  | arrived same =>
    rw [same.db, same.commands, same.books]
    simpa [Stage.owes] using backed
  | @performed operation answer middle front back stage next now split ready moved performed same =>
    have owes := @Stage.Moves.owes id position _ _ _ _ _ _ moved ready performed
    rw [same.db, same.commands, same.books, performed.frame.2.2.1]
    subst split
    simp only [List.map_append, List.map_cons, List.sum_append, List.sum_cons] at backed ⊢
    omega
  | responded split same =>
    rw [same.db, same.commands, same.books]
    subst split
    simp only [List.map_append, List.map_cons, List.sum_append, List.sum_cons] at backed ⊢
    omega
  | persisted now persists performed same =>
    obtain ⟨commands, rows, -, -⟩ := performed.persists persists
    rw [same.db, same.commands, same.books, commands, rowCount_kept rows, performed.frame.2.2.1]
    exact backed
  | @matched command queued books db =>
    have less := @load_process id position system.books command after.commands
    unfold load at less
    rw [db, books]
    rw [queued] at backed
    omega
  | outside db commands books =>
    have rows : after.db.orders.map OrderRow.fixed = system.db.orders.map OrderRow.fixed := by
      rcases db with same | ⟨users, markets, balances, -, same⟩ | ⟨user, nonce, affects, -, same⟩
      · rw [same]
      · rw [same]
      · rw [same]
        exact updateOrders_fixed fun _ => rfl
    rw [rowCount_kept rows, commands, books]
    exact backed

private theorem rebuilt_count {db : Database} (rebuilt : rebuildBooks db = some books) :
    restingCount id position books ≤ rowCount id position db := by
  have counted := (rebuilt_perm rebuilt position).countP_eq (·.orderId = id)
  rw [unnumbered, List.countP_map, List.countP_map, List.countP_filter] at counted
  refine (Nat.le_of_eq counted).trans ?_
  refine (List.countP_mono_left fun row _ both => ?_).trans List.filter_sublist.countP_le
  simpa [readRow, OpenOrderRow.resting] using both

theorem restart_backed {db : Database} {clock : UInt64} {dbClock : Nat} {start : System}
    (restart : System.restart db clock dbClock = some start) :
    start.Staged [] ∧ ∀ id position, start.Backed id position [] := by
  simp only [System.restart, Option.bind_eq_bind, Option.bind_eq_some_iff, Option.pure_def, Option.some.injEq] at restart
  obtain ⟨books, rebuilt, rfl⟩ := restart
  refine ⟨⟨.nil, trivial⟩, fun id position => ?_⟩
  simpa [System.Backed, load, System.starting] using rebuilt_count rebuilt

def Keyed (db : Database) : Prop := (db.orders.map OrderRow.orderId).Nodup

theorem fixed_ids (rows : List OrderRow) : (rows.map OrderRow.fixed).map OrderRow.orderId = rows.map OrderRow.orderId := by
  rw [List.map_map]
  rfl

theorem Stored.fixed {system : System} {event : Event} {db : Database} (stored : Stored system event db) :
    ∃ added, db.orders.map OrderRow.fixed = system.db.orders.map OrderRow.fixed ++ added ∧
      (added.map OrderRow.orderId).Nodup ∧ ∀ row ∈ added, ∀ other ∈ system.db.orders, other.orderId ≠ row.orderId := by
  cases stored with
  | kept => exact ⟨[], (List.append_nil _).symm, .nil, fun _ none => nomatch none⟩
  | @ran statement _ _ performed ran =>
    refine ⟨_, run_fixed ran, ?_⟩
    cases statement with
    | insertOrder values =>
      refine ⟨List.nodup_singleton _, fun row member => ?_⟩
      rw [List.mem_singleton.mp member]
      exact (insertOrder_ok ran).2.2.1
    | _ => exact ⟨.nil, fun _ none => nomatch none⟩
  | ledger => exact ⟨[], (List.append_nil _).symm, .nil, fun _ none => nomatch none⟩
  | invalidated =>
    refine ⟨[], Eq.trans (updateOrders_fixed fun row => ?_) (List.append_nil _).symm, .nil, fun _ none => nomatch none⟩
    rfl

theorem Stored.keyed {system : System} {event : Event} {db : Database} (stored : Stored system event db)
    (keyed : Keyed system.db) : Keyed db := by
  obtain ⟨added, same, distinct, fresh⟩ := stored.fixed
  have ids : db.orders.map OrderRow.orderId = system.db.orders.map OrderRow.orderId ++ added.map OrderRow.orderId := by
    rw [← fixed_ids, same, List.map_append, fixed_ids]
  unfold Keyed
  rw [ids]
  refine List.nodup_append'.mpr ⟨keyed, distinct, fun id before new => ?_⟩
  obtain ⟨other, member, rfl⟩ := List.mem_map.mp before
  obtain ⟨row, inside, equal⟩ := List.mem_map.mp new
  exact fresh row inside other member equal.symm

theorem Keyed.rows {db : Database} (keyed : Keyed db) (id : OrderId) (position : Uint256) : rowCount id position db ≤ 1 := by
  have within : rowCount id position db ≤ (db.orders.map OrderRow.orderId).count id := by
    rw [List.count, List.countP_map]
    apply List.countP_mono_left
    intro other _ both
    simpa using (of_decide_eq_true both).1
  exact within.trans (List.nodup_iff_count_le_one.mp keyed _)

/-- The request is at a stage that owes no placement of the order. -/
def Settled (id : OrderId) (request : Effect Response) : Prop :=
  ∃ stage : Stage, (∀ values, stage = .inserted values → values.orderId ≠ id) ∧
    request.Follows Stage.Ready Stage.Moves (fun _ _ => True) stage

structure System.Settles (id : OrderId) (system : System) : Prop where
  known : ∃ row ∈ system.db.orders, row.orderId = id
  requests : ∀ request ∈ system.requests, Settled id request
  processing : system.processing.Only Operation.Persists

def Quiet (id : OrderId) (commands : List MatchCommand) : Prop :=
  ∀ command ∈ commands, ∀ order, command.order = some order → order.orderId ≠ id

section
variable {crypto : Crypto} {config : AppConfig} {system after : System} {event : Event}

theorem System.Settles.sends (settles : system.Settles id) {command : MatchCommand}
    (performs : system.operation event = some (.trySend command)) : Quiet id [command] := by
  intro same member order placed own
  cases List.mem_singleton.mp member
  cases event with
  | request index =>
    simp only [System.operation] at performs
    split at performs
    next next found =>
      cases performs
      obtain ⟨stage, apart, follows⟩ := settles.requests _ (List.mem_of_getElem? found)
      cases follows.1 with
      | @place values =>
        cases placed
        exact apart values rfl own
      | cancel => cases placed
    next => cases performs
  | persist =>
    simp only [System.operation] at performs
    split at performs
    next next busy =>
      cases performs
      exact (busy ▸ settles.processing : (Program.perform _ next).Only Operation.Persists).1
    next => cases performs
  | _ => cases performs

theorem Stored.known {db : Database} (stored : Stored system event db) (known : ∃ row ∈ system.db.orders, row.orderId = id) :
    ∃ row ∈ db.orders, row.orderId = id := by
  obtain ⟨added, same, -, -⟩ := stored.fixed
  obtain ⟨row, member, own⟩ := known
  have kept : OrderRow.fixed row ∈ db.orders.map OrderRow.fixed := same ▸ List.mem_append_left _ (List.mem_map_of_mem member)
  obtain ⟨later, inside, equal⟩ := List.mem_map.mp kept
  exact ⟨later, inside, (congrArg OrderRow.orderId equal).trans own⟩

theorem Stepped.settles (stepped : Stepped crypto config system event after) (settles : system.Settles id) :
    after.Settles id := by
  have known := stepped.stored.known settles.known
  obtain ⟨known', requests, processing⟩ := settles
  cases stepped with
  | arrives arriving =>
    refine ⟨known, fun each member => ?_, processing⟩
    rcases List.mem_append.mp member with before | new
    · exact requests each before
    · rw [List.mem_singleton.mp new]
      exact ⟨.idle, fun _ same => (nomatch same), (arriving_keeps arriving).weaken fun _ _ _ => trivial⟩
  | @request index operation next answer middle found performed =>
    refine ⟨known, fun each member => ?_, performed.frame.2.1 ▸ processing⟩
    rcases List.mem_or_eq_of_mem_set member with before | rfl
    · exact requests each before
    · obtain ⟨stage, apart, follows⟩ := requests _ (List.mem_of_getElem? found)
      obtain ⟨later, moved⟩ := performed.moves follows.1
      refine ⟨later, ?_, follows.2 answer later moved⟩
      rintro values rfl own
      -- only a successful insert begins to owe a placement, and the order has its row already
      cases moved with
      | inserted =>
        cases performed with
        | ran ran =>
          obtain ⟨row, member, same⟩ := known'
          exact (insertOrder_ok ran).2.2.1 row member (same.trans own.symm)
      | held => exact apart values rfl own
  | respond found => exact ⟨known, fun each member => requests each (List.mem_of_mem_eraseIdx member), processing⟩
  | matching => exact ⟨known, requests, processing⟩
  | receive => exact ⟨known, requests, processMatchResult_persists _⟩
  | @persist operation next answer middle busy performed =>
    have only : (Program.perform operation next).Only Operation.Persists := busy ▸ processing
    exact ⟨known, performed.frame.1 ▸ requests, only.2 answer⟩
  | clocks => exact ⟨known, requests, processing⟩
  | ledger => exact ⟨known, requests, processing⟩
  | invalidateNonce => exact ⟨known, requests, processing⟩

end

theorem cancelIn_count {levels : List Level} {left : List Level} (found : cancelIn id levels = some left) :
    (ordersOf left).countP (·.orderId = id) + 1 = (ordersOf levels).countP (·.orderId = id) := by
  induction levels generalizing left with
  | nil => cases found
  | cons level levels ih =>
    obtain ⟨price, queue⟩ := level
    simp only [cancelIn] at found
    split at found
    next held =>
      cases found
      obtain ⟨order, member, own⟩ := List.any_eq_true.mp held
      have one : (queue.eraseP (·.orderId = id)).countP (·.orderId = id) + 1 = queue.countP (·.orderId = id) := by
        obtain ⟨found, front, back, -, matched, split, erased⟩ :=
          List.exists_of_eraseP (p := fun order => decide (order.orderId = id)) member own
        rw [erased, split, List.countP_append, List.countP_append, List.countP_cons, if_pos matched, Nat.add_assoc]
      simp only [ordersOf, List.flatMap_cons, List.countP_append]
      omega
    next =>
      obtain ⟨rest, inner, rfl⟩ := Option.map_eq_some_iff.mp found
      have less := ih inner
      simp only [ordersOf, List.flatMap_cons, List.countP_append] at less ⊢
      omega

theorem cancelIn_none {levels : List Level} (missing : cancelIn id levels = none) :
    (ordersOf levels).countP (·.orderId = id) = 0 := by
  induction levels with
  | nil => rfl
  | cons level levels ih =>
    obtain ⟨price, queue⟩ := level
    simp only [cancelIn] at missing
    split at missing
    next => cases missing
    next absent =>
      have none := ih (Option.map_eq_none_iff.mp missing)
      simp only [ordersOf, List.flatMap_cons, List.countP_append] at none ⊢
      rw [none, Nat.add_zero]
      apply List.countP_eq_zero.mpr
      exact fun order member own => absent (List.any_eq_true.mpr ⟨order, member, own⟩)

private theorem cancel_count {book : OrderBook} (single : book.resting.countP (·.orderId = id) ≤ 1) :
    (book.cancel id).2.resting.countP (·.orderId = id) = 0 := by
  unfold OrderBook.resting at single ⊢
  rw [List.countP_append] at single ⊢
  unfold OrderBook.cancel
  split
  next left found =>
    have one := cancelIn_count found
    show (ordersOf left).countP (·.orderId = id) + (ordersOf book.sells.entries).countP (·.orderId = id) = 0
    omega
  next missing =>
    have none := cancelIn_none missing
    split
    next left found =>
      have one := cancelIn_count found
      show (ordersOf book.buys.entries).countP (·.orderId = id) + (ordersOf left).countP (·.orderId = id) = 0
      omega
    next absent =>
      have others := cancelIn_none absent
      show (ordersOf book.buys.entries).countP (·.orderId = id) + (ordersOf book.sells.entries).countP (·.orderId = id) = 0
      omega

private theorem process_cancels (single : ∀ place, restingCount id place books ≤ if place = position then 1 else 0)
    (place : Uint256) :
    restingCount id place (process books (.cancelOrder position id)).1 = 0 := by
  have bound := single place
  by_cases here : place = position
  · subst here
    rw [if_pos rfl] at bound
    simp only [process]
    split
    next book found =>
      simp only [restingCount, restingAt, found, Option.getD_some] at bound
      simp only [restingCount, restingAt, Function.update_self, Option.getD_some, resting_prune]
      exact cancel_count bound
    next missing => simp [restingCount, restingAt, missing, resting_new]
  · rw [if_neg here] at bound
    have less := @process_count id place books (.cancelOrder position id)
    simp only [places_cancelOrder, Bool.false_eq_true, if_false] at less
    omega

/-- The command is queued behind others, with at most one placement of the order
before it, in its position, and none after it. -/
structure System.Awaits (id : OrderId) (position : Uint256) (ahead : Nat) (system : System) : Prop where
  queued : ∃ first rest, system.commands = first ++ .cancelOrder position id :: rest ∧ first.length = ahead ∧
    Quiet id rest ∧ ∀ place, load id place first system.books ≤ if place = position then 1 else 0

structure System.Gone (id : OrderId) (system : System) : Prop where
  queued : Quiet id system.commands
  resting : ∀ place, restingCount id place system.books = 0

def System.Stops (id : OrderId) (position : Uint256) (ahead taken : Nat) (system : System) : Prop :=
  taken ≤ ahead ∧ system.Awaits id position (ahead - taken) ∨ ahead < taken ∧ system.Gone id

section
variable {crypto : Crypto} {config : AppConfig} {system after : System} {event : Event}

theorem Quiet.append {first second : List MatchCommand} (quiet : Quiet id first) (later : Quiet id second) :
    Quiet id (first ++ second) := by
  intro command member
  rcases List.mem_append.mp member with before | new
  · exact quiet command before
  · exact later command new

theorem Quiet.places (quiet : Quiet id [command]) (place : Uint256) : command.places id place = false := by
  apply Bool.eq_false_iff.mpr
  intro places
  obtain ⟨order, placed, own⟩ := (Option.any_eq_true _ _).mp (Bool.and_eq_true_iff.mp places).1
  exact quiet command (List.mem_singleton.mpr rfl) order placed (of_decide_eq_true own)

theorem MatcherStep.stops {ahead taken : Nat} (step : MatcherStep system event after)
    (sends : ∀ command, system.operation event = some (.trySend command) → Quiet id [command])
    (stops : system.Stops id position ahead taken) :
    after.Stops id position ahead (taken + if event.isMatching then 1 else 0) := by
  cases step with
  | idle other commands books =>
    simp only [other, Bool.false_eq_true, if_false, Nat.add_zero]
    rcases stops with ⟨waiting, ⟨queued⟩⟩ | ⟨past, gone⟩
    · exact .inl ⟨waiting, ⟨by rwa [commands, books]⟩⟩
    · exact .inr ⟨past, ⟨commands ▸ gone.queued, books ▸ gone.resting⟩⟩
  | sent other performed commands books =>
    simp only [other, Bool.false_eq_true, if_false, Nat.add_zero]
    have quiet := sends _ performed
    rcases stops with ⟨waiting, ⟨first, rest, queued, length, clear, single⟩⟩ | ⟨past, gone⟩
    · refine .inl ⟨waiting, ⟨first, rest ++ [_], ?_, length, clear.append quiet, books ▸ single⟩⟩
      rw [commands, queued]
      simp
    · exact .inr ⟨past, ⟨commands ▸ gone.queued.append quiet, books ▸ gone.resting⟩⟩
  | @processed command now queued books =>
    simp only [now, if_true]
    rcases stops with ⟨waiting, ⟨first, rest, split, length, clear, single⟩⟩ | ⟨past, gone⟩
    · rw [split] at queued
      cases first with
      | nil =>
        -- it is the turn of the cancellation
        obtain ⟨rfl, same⟩ := List.cons.inj queued
        have single (place : Uint256) : restingCount id place system.books ≤ if place = position then 1 else 0 := by
          simpa [load] using single place
        rw [List.length_nil] at length
        refine .inr ⟨by omega, ⟨same ▸ clear, fun place => ?_⟩⟩
        rw [books]
        exact process_cancels single place
      | cons next first =>
        obtain ⟨rfl, same⟩ := List.cons.inj queued
        rw [List.length_cons] at length
        refine .inl ⟨by omega, ⟨first, rest, same.symm, by omega, clear, fun place => ?_⟩⟩
        rw [books]
        exact load_process.trans (single place)
    · have quiet : Quiet id [command] := fun each member =>
        gone.queued each (queued ▸ List.mem_cons.mpr (.inl (List.mem_singleton.mp member)))
      refine .inr ⟨by omega, ⟨fun each member => gone.queued each (queued ▸ List.mem_cons_of_mem _ member), fun place => ?_⟩⟩
      have less := @process_count id place system.books command
      rw [quiet.places, gone.resting place] at less
      rw [books]
      simpa using less

theorem System.Gone.fills (gone : system.Gone id) {command : MatchCommand} {commands : List MatchCommand}
    (queued : system.commands = command :: commands) {fill : Fill}
    (member : fill ∈ resultFills (process system.books command).2) : fill.involves id = false := by
  obtain ⟨taker, placed, maker, rested, -, amount, rfl⟩ := process_pairs member
  have absent : maker.orderId ≠ id := fun own =>
    List.countP_eq_zero.mp (gone.resting command.position) maker rested (decide_eq_true own)
  have other := gone.queued command (queued ▸ List.mem_cons_self) taker placed
  simp [Fill.involves, RestingOrder.fill, RestingOrder.taker, other, absent]

/-- The requests of a reachable state keep to the protocol, every placement has its
row, and the rows are of different orders. -/
private theorem reachable_backed {db : Database} {clock : UInt64} {dbClock : Nat} {start : System} {events : List Event}
    (keyed : Keyed db) (restart : System.restart db clock dbClock = some start)
    (run : Run (System.Moves crypto config) start events system) :
    ∃ stages, system.Staged stages ∧ (∀ id position, system.Backed id position stages) ∧ Keyed system.db := by
  apply run.keeps fun system => ∃ stages, system.Staged stages ∧ (∀ id position, system.Backed id position stages) ∧
    Keyed system.db
  · intro system event after moved holds
    obtain ⟨stages, staged, backed, keyed⟩ := holds
    obtain ⟨later, stagedLater, step⟩ := moved.stepped.staged staged
    exact ⟨later, stagedLater, fun id position => step.backed (backed id position), moved.stepped.stored.keyed keyed⟩
  · obtain ⟨staged, backed⟩ := restart_backed restart
    refine ⟨[], staged, backed, ?_⟩
    simp only [System.restart, Option.bind_eq_bind, Option.bind_eq_some_iff, Option.pure_def, Option.some.injEq] at restart
    obtain ⟨books, -, rfl⟩ := restart
    exact keyed

private theorem Stepped.enqueues {command : MatchCommand} (stepped : Stepped crypto config system event after)
    (sends : system.operation event = some (.trySend command)) (room : system.commands.length < QUEUE_CAPACITY) :
    after.commands = system.commands ++ [command] ∧ after.books = system.books := by
  cases stepped with
  | request found performed =>
    rw [operation_request found] at sends
    cases sends
    cases performed with
    | sent => exact ⟨rfl, rfl⟩
    | refused full => exact absurd room full
  | persist busy performed =>
    rw [operation_persist busy] at sends
    cases sends
    cases performed with
    | sent => exact ⟨rfl, rfl⟩
    | refused full => exact absurd room full
  | arrives arriving =>
    cases event <;> first | cases sends | cases arriving
  | _ => cases sends

/-- Once a cancellation is queued for an order whose row is in the table, whose placement
no request owes any more, and which is neither queued nor at rest in another position
than the one named, and once it has been processed, the order is in no book and in no
later fill. -/
theorem cancel_stops {db : Database} {clock : UInt64} {dbClock : Nat} {start before : System} {events : List Event}
    (keyed : Keyed db) (restart : System.restart db clock dbClock = some start)
    (reached : Run (System.Moves crypto config) start events before)
    (cancels : before.operation event = some (.trySend (.cancelOrder position id)))
    (room : before.commands.length < QUEUE_CAPACITY) (enqueued : before.Moves crypto config event after)
    (known : ∃ row ∈ before.db.orders, row.orderId = id)
    (elsewhere : ∀ place, place ≠ position → load id place before.commands before.books = 0)
    (settled : ∀ request ∈ before.requests, Settled id request)
    {later : System} {rest : List Event} (run : Run (System.Moves crypto config) after rest later)
    (processed : before.commands.length < rest.countP Event.isMatching) :
    (∀ place, ∀ order ∈ restingAt later.books place, order.orderId ≠ id) ∧
    ∀ command commands, later.commands = command :: commands →
      ∀ fill ∈ resultFills (process later.books command).2, fill.involves id = false := by
  obtain ⟨stages, staged, backed, distinct⟩ := reachable_backed keyed restart reached
  obtain ⟨queued, books⟩ := enqueued.stepped.enqueues cancels room
  have single (place : Uint256) : load id place before.commands before.books ≤ if place = position then 1 else 0 := by
    split
    next => exact ((Nat.le_add_left ..).trans (backed id place)).trans (distinct.rows id place)
    next other => exact (elsewhere place other).le
  have settles : before.Settles id := ⟨known, settled, staged.processing⟩
  have stops : later.Settles id ∧
      later.Stops id position before.commands.length (rest.countP Event.isMatching) := by
    apply run.invariant fun trace system => system.Settles id ∧
      system.Stops id position before.commands.length (trace.countP Event.isMatching)
    · refine ⟨enqueued.stepped.settles settles, .inl ⟨Nat.zero_le _, ⟨before.commands, [], queued, rfl, ?_, ?_⟩⟩⟩
      · exact fun _ none => nomatch none
      · exact books ▸ single
    · intro trace system event after _ ⟨settles, stops⟩ moved
      rw [List.countP_append, List.countP_singleton]
      exact ⟨moved.stepped.settles settles, moved.stepped.matcher.stops (fun _ => settles.sends) stops⟩
  have gone : later.Gone id := by
    rcases stops.2 with ⟨waiting, -⟩ | ⟨-, gone⟩
    · omega
    · exact gone
  constructor
  · exact fun place order rested own => List.countP_eq_zero.mp (gone.resting place) order rested (decide_eq_true own)
  · exact fun command commands queued fill member => gone.fills queued member

end

namespace Sample

def purchasing : List Event :=
  [ .postOrder 102 (signedBy 6 .buy 510000 40 0) 1, .request 0, .request 0, .request 0, .request 0, .request 0,
    .respond 0 ]

def answered (system : System) : Bool :=
  match system.requests with
  | [.done (.cancelled (.ok ()))] => true
  | _ => false

private theorem answered_ok {system : System} (ok : answered system = true) : system.requests =
    [.done (.cancelled (.ok ()))] := by
  unfold answered at ok
  split at ok
  next requests => exact requests
  next => cases ok

def fillsNext (id : OrderId) (system : System) : Bool :=
  match system.commands with
  | command :: _ => (resultFills (process system.books command).2).any (Fill.involves id)
  | [] => false

def cancelling : System := { restarted with requests := [cancelRequest 101 3] }

end Sample

/-- The sale is cancelled with another position than its own, which is answered with
success; the command is processed, and the sale is filled all the same. -/
theorem cancel_stops_fails : ∃ cancelled later,
    Run (System.Moves Sample.signers Sample.deployment) Sample.opened
      (Sample.selling ++ [.postCancel 101 4, .request 0, .request 0]) cancelled ∧
    cancelled.requests = [.done (.cancelled (.ok ()))] ∧ cancelled.commands = [.cancelOrder 4 101] ∧
    Run (System.Moves Sample.signers Sample.deployment) cancelled ([.respond 0, .matching] ++ Sample.purchasing) later ∧
    ∃ command commands, later.commands = command :: commands ∧
      ∃ fill ∈ resultFills (process later.books command).2, fill.involves 101 = true := by
  obtain ⟨cancelled, run, checked⟩ := @Sample.runs_from Sample.opened
    (Sample.selling ++ [.postCancel 101 4, .request 0, .request 0]) (fun cancelled => (Sample.answered cancelled && decide (cancelled.commands = [.cancelOrder 4 101])) &&
      (Sample.steps (fun _ _ => true) cancelled ([.respond 0, .matching] ++ Sample.purchasing)).any
        (Sample.fillsNext 101)) (by decide +kernel)
  obtain ⟨replied, continues⟩ := Bool.and_eq_true_iff.mp checked
  obtain ⟨ok, queued⟩ := Bool.and_eq_true_iff.mp replied
  obtain ⟨later, rest, filled⟩ := Sample.runs_from continues
  refine ⟨cancelled, later, run, Sample.answered_ok ok, of_decide_eq_true queued, rest, ?_⟩
  unfold Sample.fillsNext at filled
  split at filled
  next command commands next => exact ⟨command, commands, next, List.any_eq_true.mp filled⟩
  next => cases filled

/-- The same with the sale's own position: the purchase finds nothing. -/
theorem cancel_stops_sample : ∃ (later : System) (command : MatchCommand), later.commands = [command] ∧
    (∃ order, command.order = some order) ∧
    ∀ fill ∈ resultFills (process later.books command).2, fill.involves 101 = false := by
  obtain ⟨after, enqueued, continues⟩ := (Option.any_eq_true
    (fun after => (Sample.steps (fun _ _ => true) after ([.request 0, .respond 0, .matching] ++ Sample.purchasing)).any
      (Sample.queuedOne fun command _ => command.order.isSome))
    (Sample.cancelling.step Sample.signers Sample.deployment (.request 0))).mp (by decide +kernel)
  obtain ⟨later, run, checked⟩ := Sample.runs_from continues
  obtain ⟨command, queued, places⟩ := Sample.queuedOne_some checked
  have settled : ∀ request ∈ Sample.cancelling.requests, Settled 101 request := by
    intro request member
    rw [List.mem_singleton.mp member]
    exact ⟨.idle, fun _ same => (nomatch same),
      (@arriving_keeps Sample.signers Sample.deployment Sample.restarted (.postCancel 101 3) _ rfl).weaken
        fun _ _ _ => trivial⟩
  have arrives : Sample.restarted.Moves Sample.signers Sample.deployment (.postCancel 101 3) Sample.cancelling := rfl
  have keyed : Keyed Sample.listed := List.nodup_singleton _
  have elsewhere (place : Uint256) (other : place ≠ 3) :
      load 101 place Sample.cancelling.commands Sample.cancelling.books = 0 := by
    have backed := (restart_backed Sample.restarts).2 101 place
    have absent : rowCount 101 place Sample.listed = 0 := by
      simpa [rowCount, Sample.listed, Sample.openSale] using other.symm
    exact Nat.le_zero.mp (absent ▸ (Nat.le_add_left ..).trans backed)
  have stopped := cancel_stops keyed Sample.restarts (Run.start.next arrives) rfl (by decide) enqueued
    ⟨Sample.openSale, List.mem_singleton.mpr rfl, rfl⟩ elsewhere settled run (by decide +kernel)
  exact ⟨later, command, queued, Option.isSome_iff_exists.mp places, stopped.2 command [] queued⟩

end Omniscient.Gateway

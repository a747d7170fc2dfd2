import Omniscient.Proofs.Acceptance
import Omniscient.Proofs.AcceptedOrders
import Omniscient.Proofs.Overmatching

/-! Nothing unsigned trades. Whatever is in the orders table, rests in a book or is
published as a match comes from orders that were posted with a valid signature,
over restarts and whatever interleaves. -/

namespace Omniscient.Gateway
open Outcome

def Filed (side : OrderSide) (levels : List Level) : Prop :=
  ∀ level ∈ levels, ∀ order ∈ level.2, order.side = side ∧ order.price = level.1

def OrderBook.Filed (book : OrderBook) : Prop := ∀ side, Gateway.Filed side (book.levels side)

def AllFiled (books : Books) : Prop := ∀ position book, books position = some book → book.Filed

theorem BookShrinks.levels {kept : List RestingOrder → List RestingOrder → Prop} {book after : OrderBook}
    (shrinks : BookShrinks kept book after) (side : OrderSide) : Shrinks kept (book.levels side) (after.levels side) := by
  cases side with
  | buy => exact shrinks.buys
  | sell => exact shrinks.sells

theorem OrderBook.Filed.shrinks {book after : OrderBook} (filed : book.Filed)
    (shrinks : BookShrinks Remains book after) : after.Filed := by
  intro side level member order inside
  obtain ⟨queue, before, remains⟩ := (shrinks.levels side).level level member
  obtain ⟨old, rested, same⟩ := remains.mem inside
  rw [terms_side same, terms_price same]
  exact filed side _ before old rested

theorem OrderBook.Filed.prune {book : OrderBook} (filed : book.Filed) : book.prune.Filed :=
  filed.shrinks (prune_shrinks book).remains

theorem Filed.upsert {side : OrderSide} {levels : List Level} {order : RestingOrder} (filed : Filed side levels)
    (own : order.side = side) :
    Filed side (SortedMap.upsertIn order.price (fun level => level.getD [] ++ [order]) levels) := by
  intro level member other inside
  rcases SortedMap.mem_upsertIn member with rfl | ⟨queue, before, rfl⟩ | before
  · rw [List.mem_singleton.mp inside]
    exact ⟨own, rfl⟩
  · rcases List.mem_append.mp inside with old | new
    · exact filed _ before other old
    · rw [List.mem_singleton.mp new]
      exact ⟨own, rfl⟩
  · exact filed level before other inside

theorem OrderBook.Filed.insert {book : OrderBook} (filed : book.Filed) (order : RestingOrder) :
    (book.insert order).2.Filed := by
  intro side
  cases own : order.side with
  | buy =>
    rw [insert_buy own]
    cases side with
    | buy => exact @Filed.upsert .buy book.buys.entries (order.numbered book.nextSeq) (filed .buy) own
    | sell => exact filed .sell
  | sell =>
    rw [insert_sell own]
    cases side with
    | buy => exact filed .buy
    | sell => exact @Filed.upsert .sell book.sells.entries (order.numbered book.nextSeq) (filed .sell) own

private theorem new_filed : OrderBook.new.Filed := by
  intro side level member
  cases side <;> cases member

theorem AllFiled.at {books : Books} (filed : AllFiled books) (position : Uint256) :
    ((books position).getD .new).Filed := @book_at books (fun _ book => book.Filed) filed position new_filed

theorem AllFiled.update {books : Books} (filed : AllFiled books) {position : Uint256} {after : OrderBook}
    (here : after.Filed) : AllFiled (Function.update books position (some after)) :=
  book_replaced here fun place book _ => filed place book

private theorem place_filed {book : OrderBook} (filed : book.Filed) (marketId : MarketId) (order : RestingOrder) :
    (book.place marketId order).1.Filed := by
  obtain ⟨-, -, -, shrinks⟩ := matchOrder_eq book order
  have matched := filed.shrinks shrinks
  obtain ⟨-, ⟨-, -, settled⟩ | ⟨-, resting, -, -, settled⟩⟩ := place_cases book marketId order
  · rw [settled]
    exact matched.prune
  · rw [settled]
    exact (matched.insert resting).prune

private theorem process_filed {books : Books} (filed : AllFiled books) (command : MatchCommand) :
    AllFiled (process books command).1 := by
  cases command with
  | placeOrder marketId positionId orderId maker price amount side nonce deadline =>
    rw [process_placeOrder]
    exact filed.update (place_filed (filed.at positionId) marketId _)
  | cancelOrder positionId orderId =>
    simp only [process]
    split
    next book found => exact filed.update ((filed positionId book found).shrinks (cancel_shrinks book orderId).remains).prune
    next => exact filed
  | cancelAll marketId positionId maker =>
    simp only [process]
    split
    next book found => exact filed.update ((filed positionId book found).shrinks (cancelAll_shrinks book maker).remains).prune
    next => exact filed
  | shutdown => exact filed

private theorem rebuilt_filed {db : Database} {books : Books} (rebuilt : rebuildBooks db = some books) :
    AllFiled books := by
  simp only [rebuildBooks, Option.bind_eq_bind, Option.bind_eq_some_iff, Option.pure_def, Option.some.injEq] at rebuilt
  obtain ⟨rows, -, rfl⟩ := rebuilt
  have restored (books : Books) (filed : AllFiled books) : AllFiled (rows.foldl restore books) := by
    induction rows generalizing books with
    | nil => exact filed
    | cons row rows ih =>
      apply ih
      rw [restore_eq]
      exact filed.update ((filed.at row.positionId).insert row.resting)
  have empty : AllFiled fun _ => none := by
    intro position book none
    cases none
  intro position book found
  obtain ⟨before, held, rfl⟩ := Option.map_eq_some_iff.mp found
  exact (restored _ empty position before held).prune

private theorem matchLevels_reaches (taker : Taker) (crosses : UInt64 → Bool) (levels : List Level)
    (remaining : UInt64) :
    ∀ fill ∈ (matchLevels taker crosses levels remaining).fills,
      ∃ level ∈ levels, crosses level.1 = true ∧ fill.Pairs level.2 taker := by
  apply matchLevels_induct (motive := fun levels _ matched => ∀ fill ∈ matched.fills,
    ∃ level ∈ levels, crosses level.1 = true ∧ fill.Pairs level.2 taker)
  · simp
  · simp
  · intro price queue levels remaining matched _ reached _ ih fill member
    rcases List.mem_append.mp member with here | later
    · exact ⟨(price, queue), List.mem_cons_self, reached, matchLevel_pairs taker queue remaining fill here⟩
    · obtain ⟨level, listed, found⟩ := ih fill later
      exact ⟨level, List.mem_cons_of_mem _ listed, found⟩
  · intro price queue levels remaining _ reached _ _ fill member
    exact ⟨(price, queue), List.mem_cons_self, reached, matchLevel_pairs taker queue remaining fill member⟩

private theorem amount_le_filledBy {fills : List Fill} {fill : Fill} (member : fill ∈ fills) :
    fill.amount.toNat ≤ filledBy fills := List.le_sum_of_mem (List.mem_map_of_mem member)

theorem incoming_within (book : OrderBook) (order : RestingOrder) :
    filledBy (book.incoming order).fills ≤ order.amount.toNat := by
  have total : filledBy (book.incoming order).fills + (book.incoming order).remaining.toNat = order.amount.toNat :=
    matchLevels_total ..
  omega

private theorem opposite_level {book : OrderBook} {side : OrderSide} {level : Level}
    (member : level ∈ book.opposite side) :
    ∃ other, other ≠ side ∧ level ∈ book.levels other := by
  cases side with
  | buy => exact ⟨.sell, OrderSide.noConfusion, member⟩
  | sell => exact ⟨.buy, OrderSide.noConfusion, List.mem_reverse.mp member⟩

private theorem incoming_crosses {book : OrderBook} (filed : book.Filed) {order : RestingOrder} {fill : Fill}
    (member : fill ∈ (book.incoming order).fills) : ∃ maker ∈ book.resting, maker.maker ≠ order.maker ∧
      maker.side ≠ order.side ∧ crosses order maker.price = true ∧
      ∃ amount, amount ≤ order.amount ∧ fill = maker.fill order.taker amount := by
  obtain ⟨level, listed, reached, maker, queued, different, amount, rfl⟩ := matchLevels_reaches _ _ _ _ fill member
  obtain ⟨other, opposed, inside⟩ := opposite_level listed
  obtain ⟨side, price⟩ := filed other level inside maker queued
  have within := (amount_le_filledBy member).trans (incoming_within book order)
  refine ⟨maker, ?_, different, side ▸ opposed, price ▸ reached, amount, ?_, rfl⟩
  · exact (resting_opposite book order.side).mem_iff.mpr (List.mem_append_left _ (mem_ordersOf.mpr ⟨level, listed, queued⟩))
  · exact UInt64.le_iff_toNat_le.mpr within

structure Tradable (maker taker : Order) (amount : UInt64) : Prop where
  accounts : maker.maker ≠ taker.maker
  position : maker.positionId = taker.positionId
  sides : maker.side ≠ taker.side
  limit : if taker.side = .buy then maker.price ≤ taker.price else taker.price ≤ maker.price
  amount : amount ≤ taker.amount

section
variable (accepted : OrderId → SignedOrder → MarketId → Prop)

/-- A row written for an accepted order: only its fills and its status have changed since. -/
def Written (row : OrderRow) : Prop :=
  ∃ signed marketId now, accepted row.orderId signed marketId ∧
    OrderRow.fixed row = (signed.values marketId row.orderId).row now ∧
    row.price = signed.order.price.toNat ∧ row.amount = signed.order.amount.toNat

def Sent (command : MatchCommand) : Prop :=
  ∀ order, command.order = some order →
    ∃ orderId signed marketId, accepted orderId signed marketId ∧ command = signed.command marketId orderId

def Held (position : Uint256) (order : RestingOrder) : Prop :=
  ∃ signed marketId, accepted order.orderId signed marketId ∧ position = signed.order.positionId ∧
    order.maker = signed.order.maker ∧ order.side = signed.order.side ∧ order.price = signed.order.price ∧
    order.amount = signed.order.amount

def Supported (marketId : MarketId) (fill : Fill) : Prop :=
  ∃ maker taker makerMarket, accepted fill.makerOrderId maker makerMarket ∧
    accepted fill.takerOrderId taker marketId ∧ Tradable maker.order taker.order fill.amount ∧
    fill.maker = maker.order.maker ∧ fill.taker = taker.order.maker ∧ fill.price = maker.order.price ∧
    fill.takerSide = taker.order.side

/-- A published match tells of two accepted orders that trade. -/
def Sourced (event : MatchEvent) : Prop :=
  ∃ makerId takerId maker taker makerMarket marketId, accepted makerId maker makerMarket ∧
    accepted takerId taker marketId ∧ Tradable maker.order taker.order event.amount ∧
    event.marketId = "0x" ++ hexEncode (Abi.word marketId.toNat) ∧ event.maker = displayAddress maker.order.maker ∧
    event.taker = displayAddress taker.order.maker ∧ event.price = maker.order.price ∧
    event.side = OrderSide.text taker.order.side

def Vouched : Operation → Prop
  | .execute (.insertOrder values) =>
    ∃ signed marketId, accepted values.orderId signed marketId ∧ values = signed.values marketId values.orderId
  | .publish event => Sourced accepted event
  | _ => True

structure System.Genuine (system : System) : Prop where
  carries : system.Carries (Sent accepted) (Held accepted)
  confined : system.Confined (Vouched accepted)
  written : ∀ row ∈ system.db.orders, Written accepted row
  filed : AllFiled system.books
  results : ∀ result ∈ system.results, ∀ fill ∈ result.fills, Supported accepted result.marketId fill
  published : ∀ event ∈ system.published, Sourced accepted event

end

variable {accepted : OrderId → SignedOrder → MarketId → Prop}

theorem Sent.held {command : MatchCommand} {order : RestingOrder} (sent : Sent accepted command)
    (placed : command.order = some order) (filled seq : UInt64) :
    Held accepted command.position { order with filled, seq } := by
  obtain ⟨orderId, signed, marketId, known, rfl⟩ := sent order placed
  cases placed
  exact ⟨signed, marketId, known, rfl, rfl, rfl, rfl, rfl⟩

theorem Held.terms {position : Uint256} {before order : RestingOrder} (same : order.terms = before.terms)
    (held : Held accepted position before) : Held accepted position order := by
  obtain ⟨orderId, maker, price, amount, filled, side, seq, nonce, deadline⟩ := order
  obtain ⟨⟩ := before
  cases same
  exact held

/-- A result is that of an accepted order, which trades with accepted orders at rest. -/
theorem process_trades {books : Books} {command : MatchCommand} {result : MatchResult} (filed : AllFiled books)
    (sent : Sent accepted command) (held : ∀ position, ∀ order ∈ restingAt books position, Held accepted position order)
    (made : (process books command).2 = some result) :
    ∃ orderId taker, accepted orderId taker result.marketId ∧ filledBy result.fills ≤ taker.order.amount.toNat ∧
      ∀ fill ∈ result.fills, fill.takerOrderId = orderId ∧ fill.taker = taker.order.maker ∧
        fill.takerSide = taker.order.side ∧ ∃ maker makerMarket, accepted fill.makerOrderId maker makerMarket ∧
          Tradable maker.order taker.order fill.amount ∧ fill.maker = maker.order.maker ∧ fill.price = maker.order.price := by
  have places : ∃ order, command.order = some order := by
    cases command with
    | placeOrder => exact ⟨_, rfl⟩
    | cancelOrder =>
      simp only [process] at made
      split at made <;> cases made
    | cancelAll =>
      simp only [process] at made
      split at made <;> cases made
    | shutdown => cases made
  obtain ⟨order, placed⟩ := places
  have fills := (@process_places books _ _ placed).fills
  obtain ⟨orderId, taker, marketId, known, rfl⟩ := sent order placed
  have filledHere : result.fills =
      (((books (taker.command marketId orderId).position).getD .new).incoming order).fills := by
    rw [← fills, made]
    exact (List.flatMap_singleton ..).symm
  cases placed
  rw [SignedOrder.command, process_placeOrder] at made
  cases made
  refine ⟨orderId, taker, known, ?_, fun fill member => ?_⟩
  · rw [filledHere]
    exact incoming_within _ _
  rw [filledHere] at member
  obtain ⟨maker, rested, different, opposed, reached, amount, within, rfl⟩ := incoming_crosses (filed.at _) member
  obtain ⟨signed, makerMarket, resting, position, account, side, price, -⟩ := held _ maker rested
  refine ⟨rfl, rfl, rfl, signed, makerMarket, resting, ⟨?_, position.symm, ?_, ?_, within⟩, account, price⟩
  · rw [← account]
    exact different
  · rw [← side]
    exact opposed
  · rw [crosses, price] at reached
    cases bought : taker.order.side with
    | buy => simpa [bought] using reached
    | sell => simpa [bought] using reached

private theorem process_supported {books : Books} {command : MatchCommand} (filed : AllFiled books)
    (sent : Sent accepted command) (held : ∀ position, ∀ order ∈ restingAt books position, Held accepted position order) :
    ∀ result ∈ (process books command).2, ∀ fill ∈ result.fills, Supported accepted result.marketId fill := by
  intro result made fill member
  obtain ⟨orderId, taker, known, -, trades⟩ := process_trades filed sent held made
  obtain ⟨rfl, takes, side, maker, makerMarket, resting, tradable, makes, price⟩ := trades fill member
  exact ⟨maker, taker, makerMarket, resting, known, tradable, makes, takes, price, side⟩

private theorem acceptOrder_vouched {crypto : Crypto} {config : AppConfig} {now : UInt64} {orderId : OrderId}
    {signed : SignedOrder} {marketId : MarketId}
    (known : validateSignedOrder crypto config now signed = .ok signed.order.maker → accepted orderId signed marketId) :
    (acceptOrder crypto config now orderId signed marketId).run.Only (Vouched accepted) := by
  unfold acceptOrder
  cases valid : validateSignedOrder crypto config now signed with
  | error error => exact Program.only_throw _
  | ok maker =>
    obtain ⟨rfl, -⟩ := validateSignedOrder_ok valid
    apply Program.only_ok.mpr
    refine Program.only_seq (labelled_only (statement_only trivial)) fun _ => ?_
    refine Program.only_seq (labelled_only (reserveCollateral_only trivial)) fun _ => ?_
    refine Program.only_seq (compensated_only (statement_only ?_) (statement_only trivial)) fun _ => ?_
    · exact ⟨signed, marketId, known valid, rfl⟩
    refine Program.only_seq (compensated_only (statement_only trivial) (statement_only trivial)) fun _ => ?_
    exact Program.only_seq (enqueue_only trivial) fun _ => Program.only_pure _

private theorem processMatchResult_vouched {result : MatchResult}
    (supported : ∀ fill ∈ result.fills, Supported accepted result.marketId fill) :
    (processMatchResult result).Only (Vouched accepted) := by
  apply Program.only_forM
  intro fill member
  obtain ⟨maker, taker, makerMarket, resting, incoming, tradable, makes, takes, price, side⟩ := supported fill member
  refine Program.only_bind ((Program.only_request _).mpr ?_) fun _ => ?_
  · refine ⟨fill.makerOrderId, fill.takerOrderId, maker, taker, makerMarket, result.marketId, resting, incoming, tradable,
      rfl, ?_, ?_, price, ?_⟩
    · rw [← makes]
    · rw [← takes]
    · rw [← side]
  · refine Program.only_bind (statement_only trivial) fun _ => ?_
    exact Program.only_bind (statement_only trivial) fun _ => Program.only_pure _

section
variable {crypto : Crypto} {config : AppConfig} {system after : System} {event : Event}

theorem Written.fixed {row before : OrderRow} (same : OrderRow.fixed row = OrderRow.fixed before)
    (written : Written accepted before) : Written accepted row := by
  obtain ⟨signed, marketId, now, known, inserted, price, amount⟩ := written
  have kept {α : Type} (field : OrderRow → α) : field (OrderRow.fixed row) = field (OrderRow.fixed before) :=
    congrArg field same
  have id : row.orderId = before.orderId := kept OrderRow.orderId
  refine ⟨signed, marketId, now, id ▸ known, ?_, ?_, ?_⟩
  · rw [same, inserted, id]
  · exact (kept OrderRow.price).trans price
  · exact (kept OrderRow.amount).trans amount

theorem written_of_fixed {db later : Database} {rows : List OrderRow}
    (same : later.orders.map OrderRow.fixed = db.orders.map OrderRow.fixed ++ rows)
    (before : ∀ row ∈ db.orders, Written accepted row) (added : ∀ row ∈ rows, Written accepted row) :
    ∀ row ∈ later.orders, Written accepted row := by
  intro row member
  have listed : OrderRow.fixed row ∈ db.orders.map OrderRow.fixed ++ rows := same ▸ List.mem_map_of_mem member
  rcases List.mem_append.mp listed with old | new
  · obtain ⟨other, inside, fixed⟩ := List.mem_map.mp old
    exact (before other inside).fixed fixed.symm
  · exact (added _ new).fixed rfl

private theorem run_written {now affected : Nat} {db later : Database} {statement : Statement}
    (ran : statement.run now db = .ok (affected, later)) (vouched : Vouched accepted (.execute statement))
    (before : ∀ row ∈ db.orders, Written accepted row) : ∀ row ∈ later.orders, Written accepted row := by
  refine written_of_fixed (run_fixed ran) before fun row added => ?_
  cases statement with
  | insertOrder values =>
    obtain ⟨signed, marketId, known, same⟩ := vouched
    obtain ⟨priced, positive, -⟩ := insertOrder_ok ran
    rw [List.mem_singleton.mp added, same] at *
    exact ⟨signed, marketId, now, known, rfl, i64OrZero_pos priced, i64OrZero_pos positive⟩
  | _ => cases added

theorem Stepped.written (stepped : Stepped crypto config system event after) (confined : system.Confined (Vouched accepted))
    (before : ∀ row ∈ system.db.orders, Written accepted row) : ∀ row ∈ after.db.orders, Written accepted row := by
  have stored := stepped.stored
  generalize after.db = db at stored
  cases stored with
  | kept => exact before
  | ran performed ran => exact run_written ran (confined.operation performed) before
  | ledger => exact before
  | invalidated user nonce =>
    refine @written_of_fixed accepted system.db _ [] ?_ before fun row none => nomatch none
    refine Eq.trans (updateOrders_fixed fun row => ?_) (List.append_nil _).symm
    rfl

theorem Stepped.published (stepped : Stepped crypto config system event after)
    (confined : system.Confined (Vouched accepted)) (before : ∀ event ∈ system.published, Sourced accepted event) :
    ∀ event ∈ after.published, Sourced accepted event := by
  have performs {operation : Operation} {answer : operation.Answer} {later : System}
      (performed : Performed system operation answer later) (vouched : Vouched accepted operation) :
      ∀ event ∈ later.published, Sourced accepted event := by
    cases performed with
    | published event =>
      intro each member
      rcases List.mem_append.mp member with old | new
      · exact before each old
      · rw [List.mem_singleton.mp new]
        exact vouched
    | _ => exact before
  cases stepped with
  | request found performed =>
    have later := performs performed (confined.operation (operation_request found))
    exact later
  | persist busy performed =>
    have later := performs performed (confined.operation (operation_persist busy))
    exact later
  | _ => exact before

theorem Stepped.results (stepped : Stepped crypto config system event after) (filed : AllFiled system.books)
    (carries : system.Carries (Sent accepted) (Held accepted))
    (before : ∀ result ∈ system.results, ∀ fill ∈ result.fills, Supported accepted result.marketId fill) :
    ∀ result ∈ after.results, ∀ fill ∈ result.fills, Supported accepted result.marketId fill := by
  cases stepped with
  | request found performed => exact performed.frame.2.2.2 ▸ before
  | persist busy performed => exact performed.frame.2.2.2 ▸ before
  | matching queued =>
    intro result member
    rcases List.mem_append.mp member with old | new
    · exact before result old
    · have sent := carries.queued _ (queued ▸ List.mem_cons_self)
      exact process_supported filed sent carries.resting result (Option.mem_toList.mp new)
  | receive idle queued => exact fun result member => before result (queued ▸ List.mem_cons_of_mem _ member)
  | _ => exact before

theorem Stepped.filed (stepped : Stepped crypto config system event after) (filed : AllFiled system.books) :
    AllFiled after.books := by
  cases stepped.matcher with
  | idle other commands books => exact books ▸ filed
  | sent other performed commands books => exact books ▸ filed
  | processed now queued books => exact books ▸ process_filed filed _

theorem Stepped.genuine (stepped : Stepped crypto config system event after)
    (posts : ∀ orderId signed marketId, event = .postOrder orderId signed marketId →
      validateSignedOrder crypto config system.clock signed = .ok signed.order.maker → accepted orderId signed marketId)
    (genuine : system.Genuine accepted) : after.Genuine accepted where
  carries := by
    refine stepped.carries ?_ ?_ ?_ ?_ genuine.carries
    · intro orderId signed marketId maker posted valid order placed
      obtain ⟨rfl, -⟩ := validateSignedOrder_ok valid
      exact ⟨orderId, signed, marketId, posts orderId signed marketId posted valid, rfl⟩
    · intro positionId orderId order placed
      cases placed
    · exact fun command order filled seq sent placed => sent.held placed filled seq
    · exact fun position before order same held => held.terms same
  confined := by
    refine stepped.confined genuine.confined ?_ fun result member => processMatchResult_vouched (genuine.results result member)
    intro request arriving
    cases event with
    | postOrder orderId signed marketId =>
      cases arriving
      exact Program.only_bind (acceptOrder_vouched (posts orderId signed marketId rfl)) fun _ => Program.only_pure _
    | postCancel orderId positionId =>
      cases arriving
      refine Program.only_bind ?_ fun _ => Program.only_pure _
      exact Program.only_seq (enqueue_only trivial) fun _ => labelled_only (statement_only trivial)
    | _ => cases arriving
  written := stepped.written genuine.confined genuine.written
  filed := stepped.filed genuine.filed
  results := stepped.results genuine.filed genuine.carries genuine.results
  published := stepped.published genuine.confined genuine.published

end

theorem Written.held {row : OrderRow} (written : Written accepted row) :
    Held accepted row.positionId (readRow row).resting := by
  obtain ⟨signed, marketId, now, known, inserted, price, amount⟩ := written
  have position : row.positionId = signed.order.positionId := congrArg OrderRow.positionId inserted
  have maker : row.userAddress = signed.order.maker := congrArg OrderRow.userAddress inserted
  have side : row.side = signed.order.side := congrArg OrderRow.side inserted
  refine ⟨signed, marketId, known, position, maker, side, ?_, ?_⟩
  · simp only [OpenOrderRow.resting, readRow, price, ofInt_toNat]
  · simp only [OpenOrderRow.resting, readRow, amount, ofInt_toNat]

theorem System.Genuine.restart {db : Database} {clock : UInt64} {dbClock : Nat} {after : System}
    (written : ∀ row ∈ db.orders, Written accepted row) (restarted : System.restart db clock dbClock = some after) :
    after.Genuine accepted := by
  obtain ⟨books, rebuilt, started⟩ := Option.bind_eq_some_iff.mp restarted
  cases started
  have resting : ∀ position, ∀ order ∈ restingAt books position, Held accepted position order := by
    intro position order member
    obtain ⟨row, open_, rfl, same⟩ := (rebuilt_iff rebuilt).mp (List.mem_map_of_mem member)
    have held := (written row (List.mem_of_mem_filter open_)).held
    rw [same] at held
    exact held
  exact {
    carries := ⟨⟨fun _ none => (nomatch none), trivial⟩, fun _ none => (nomatch none), resting⟩
    confined := ⟨fun _ none => (nomatch none), trivial⟩
    written
    filed := rebuilt_filed rebuilt
    results := fun _ none => nomatch none
    published := fun _ none => nomatch none }

section
variable {crypto : Crypto} {config : AppConfig} {numbers : NumberColumn}

/-- A step, or a crash at any point and a restart on the tables it left. -/
def System.Lives (crypto : Crypto) (config : AppConfig) (system : System) (step : System × Option Event)
    (after : System) : Prop :=
  step.1 = system ∧
    match step.2 with
    | some event => system.Moves crypto config event after
    | none => ∃ clock dbClock, System.restart system.db clock dbClock = some after

/-- The order was posted under this id, and was found valid then. -/
def Accepted (crypto : Crypto) (config : AppConfig) (trace : List (System × Option Event)) (orderId : OrderId)
    (signed : SignedOrder) (marketId : MarketId) : Prop :=
  ∃ before : System, (before, some (.postOrder orderId signed marketId)) ∈ trace ∧
    validateSignedOrder crypto config before.clock signed = .ok signed.order.maker

private theorem start_genuine (numbers : NumberColumn) : (System.start numbers).Genuine accepted where
  carries := ⟨⟨fun _ none => (nomatch none), trivial⟩, fun _ none => (nomatch none), fun _ _ none => (nomatch none)⟩
  confined := ⟨fun _ none => (nomatch none), trivial⟩
  written _ none := nomatch none
  filed _ _ none := nomatch none
  results _ none := nomatch none
  published _ none := nomatch none

theorem lives_genuine {trace : List (System × Option Event)} {system : System}
    (run : Run (System.Lives crypto config) (.start numbers) trace system) : system.Genuine (Accepted crypto config trace) := by
  have known : ∀ step ∈ trace, ∀ _ : System, ∀ orderId signed marketId,
      step.2 = some (.postOrder orderId signed marketId) →
      validateSignedOrder crypto config step.1.clock signed = .ok signed.order.maker →
      Accepted crypto config trace orderId signed marketId := by
    rintro ⟨before, event⟩ member _ orderId signed marketId rfl valid
    exact ⟨before, member, valid⟩
  have posts := run.within known
  generalize Accepted crypto config trace = accepted at posts ⊢
  refine posts.keeps (System.Genuine accepted) ?_ (start_genuine numbers)
  rintro system ⟨_, event⟩ after ⟨⟨rfl, moved⟩, posted⟩ genuine
  cases event with
  | some event =>
    refine Stepped.genuine (System.Moves.stepped moved) (fun orderId signed marketId same valid => ?_) genuine
    exact posted orderId signed marketId (congrArg some same) valid
  | none =>
    obtain ⟨clock, dbClock, restarted⟩ := moved
    exact .restart genuine.written restarted

/-- Whatever is in the orders table, at rest or published comes from accepted orders,
wherever the gateway crashes and however its requests interleave. -/
theorem only_signed_orders {trace : List (System × Option Event)} {system : System}
    (run : Run (System.Lives crypto config) (.start numbers) trace system) :
    (∀ row ∈ system.db.orders, Written (Accepted crypto config trace) row) ∧
    (∀ position, ∀ order ∈ restingAt system.books position, Held (Accepted crypto config trace) position order) ∧
    ∀ event ∈ system.published, Sourced (Accepted crypto config trace) event := by
  have genuine := lives_genuine run
  exact ⟨genuine.written, genuine.carries.resting, genuine.published⟩

namespace Sample

def relive (crypto : Crypto) (config : AppConfig) (system : System) : Option Event → Option System
  | some event => System.step crypto config system event
  | none => System.restart system.db 0 0

theorem relive_lives {crypto : Crypto} {config : AppConfig} {start : System} {labels : List (Option Event)}
    {check : System → Bool} (passes : (labels.foldlM (relive crypto config) start).any check = true) :
    ∃ trace system, Run (System.Lives crypto config) start trace system ∧ trace.map Prod.snd = labels ∧
      check system = true := by
  obtain ⟨final, run, checked⟩ := Run.of_check passes
  suffices lives : ∃ trace, Run (System.Lives crypto config) start trace final ∧ trace.map Prod.snd = labels by
    obtain ⟨trace, lived, same⟩ := lives
    exact ⟨trace, final, lived, same, checked⟩
  refine run.invariant (fun labels system => ∃ trace, Run (System.Lives crypto config) start trace system ∧
    trace.map Prod.snd = labels) ⟨[], .start, rfl⟩ ?_
  rintro labels state label after - ⟨trace, lived, same⟩ moved
  refine ⟨trace ++ [(state, label)], lived.next ⟨rfl, ?_⟩, by rw [List.map_append, same]; rfl⟩
  cases label with
  | some event => exact moved
  | none => exact ⟨0, 0, moved⟩

def relived : List (Option Event) :=
  some (.ledger listed.users listed.markets listed.balances) ::
    (placing 101 signedSaleOf5).map some ++ none :: (placing 102 signedPurchase).map some ++ [some .receive, some .persist]

def soldFifty : MatchEvent :=
  ⟨"0x" ++ hexEncode (Abi.word 1), displayAddress 5, displayAddress 6, 500000, 50, "buy"⟩

end Sample

theorem only_signed_orders_sample : ∃ trace system,
    Run (System.Lives Sample.signers Sample.deployment) (.start .bigint) trace system ∧
    Sample.soldFifty ∈ system.published ∧
    Sourced (Accepted Sample.signers Sample.deployment trace) Sample.soldFifty := by
  obtain ⟨trace, system, run, -, checked⟩ := @Sample.relive_lives Sample.signers Sample.deployment (.start .bigint) Sample.relived
    (fun system => decide (Sample.soldFifty ∈ system.published)) (by decide +kernel)
  have sold := of_decide_eq_true checked
  exact ⟨trace, system, run, sold, (only_signed_orders run).2.2 _ sold⟩

end

end Omniscient.Gateway

import Omniscient.Proofs.Restart

/-! What a restart would rebuild, against what the matcher has in memory. The
engine rests an untouched order as if it were filled, so nothing in memory has
anything remaining, while the orders table never sees a fill. -/

namespace Omniscient.Gateway
open Outcome

def OrderBook.queue (book : OrderBook) : OrderSide → List RestingOrder
  | .buy => ordersOf book.buys.entries.reverse
  | .sell => ordersOf book.sells.entries

structure LiveOrder where
  orderId : OrderId
  side : OrderSide
  price : UInt64
  amount : UInt64
  remaining : UInt64
  deriving DecidableEq

def RestingOrder.live (order : RestingOrder) : LiveOrder :=
  ⟨order.orderId, order.side, order.price, order.amount, order.remaining⟩

def liveOrders (books : Books) (position : Uint256) (side : OrderSide) : List LiveOrder :=
  (((books position).getD .new).queue side).map RestingOrder.live

/-- A rebuild from the database gives the live orders in memory, in their order. -/
def System.Recovers (system : System) : Prop :=
  ∃ books, rebuildBooks system.db = some books ∧
    ∀ position side, liveOrders books position side = liveOrders system.books position side

theorem mem_resting_iff_queue {book : OrderBook} {order : RestingOrder} :
    order ∈ book.resting ↔ ∃ side, order ∈ book.queue side := by
  have reversed := (ordersOf_reverse book.buys.entries).mem_iff (a := order)
  constructor
  · intro member
    rcases List.mem_append.mp member with onBuys | onSells
    · exact ⟨.buy, reversed.mpr onBuys⟩
    · exact ⟨.sell, onSells⟩
  · intro holds
    obtain ⟨side, member⟩ := holds
    cases side with
    | buy => exact List.mem_append_left _ (reversed.mp member)
    | sell => exact List.mem_append_right _ member

def Spent (orders : List RestingOrder) : Prop := ∀ order ∈ orders, order.remaining = 0

def AllSpent (books : Books) : Prop := ∀ position book, books position = some book → Spent book.resting

def Hollow (fills : List Fill) : Prop := ∀ fill ∈ fills, fill.amount = 0

theorem Remains.spent {orders orders' : List RestingOrder} (remains : Remains orders orders') (spent : Spent orders) :
    Spent orders' := by
  intro order' member
  obtain ⟨order, before, survives⟩ := remains.survives order' member
  rcases survives with rfl | ⟨amount, short, -⟩
  · exact spent order' before
  · rw [spent order before] at short
    exact absurd short UInt64.not_lt_zero

private theorem hollow_of_filledBy {fills : List Fill} (none : filledBy fills = 0) : Hollow fills := by
  induction fills with
  | nil => simp [Hollow]
  | cons fill fills ih =>
    rw [filledBy_cons] at none
    intro each member
    rcases List.mem_cons.mp member with rfl | later
    · exact UInt64.toNat_inj.mp (by simpa using (by omega : each.amount.toNat = 0))
    · exact ih (by omega) each later

private theorem incoming_spent {book : OrderBook} (spent : Spent book.resting) (order : RestingOrder) :
    (book.incoming order).remaining = order.amount ∧ Hollow (book.incoming order).fills := by
  have nothing : book.liquidity order = 0 := by
    apply List.sum_eq_zero
    intro amount listed
    obtain ⟨other, member, rfl⟩ := List.mem_map.mp listed
    obtain ⟨level, met, inside⟩ := mem_ordersOf.mp (List.mem_of_mem_filter member)
    have opposite : other ∈ ordersOf (book.opposite order.side) := mem_ordersOf.mpr ⟨level, List.mem_of_mem_filter met, inside⟩
    rw [spent other ((resting_opposite book order.side).mem_iff.mpr (List.mem_append_left _ opposite))]
    rfl
  have left := incoming_remaining book order
  rw [nothing, Nat.sub_zero] at left
  have total : filledBy (book.incoming order).fills + (book.incoming order).remaining.toNat = order.amount.toNat :=
    matchLevels_total ..
  exact ⟨UInt64.toNat_inj.mp left, hollow_of_filledBy (by omega)⟩

private theorem place_spent {book : OrderBook} (spent : Spent book.resting) (marketId : MarketId)
    (order : RestingOrder) :
    Spent (book.place marketId order).1.resting ∧ Hollow (book.place marketId order).2.fills := by
  obtain ⟨-, -, -, shrinks⟩ := matchOrder_eq book order
  obtain ⟨whole, hollow⟩ := incoming_spent spent order
  have matched := shrinks.resting.spent spent
  obtain ⟨fills, ⟨-, -, settled⟩ | ⟨-, resting, made, -, settled⟩⟩ := place_cases book marketId order
  · rw [settled, resting_prune, fills]
    exact ⟨matched, hollow⟩
  · rw [settled, resting_prune, fills]
    refine ⟨fun other member => ?_, hollow⟩
    rcases List.mem_cons.mp ((resting_insert _ resting).mem_iff.mp member) with rfl | before
    · simp only [RestingOrder.numbered, RestingOrder.remaining, made, whole, UInt64.sub_self]
    · exact matched other before

theorem AllSpent.update {books : Books} (spent : AllSpent books) {position : Uint256} {book : OrderBook}
    (here : Spent book.resting) : AllSpent (Function.update books position (some book)) :=
  book_replaced here fun place book _ => spent place book

theorem AllSpent.at {books : Books} (spent : AllSpent books) (position : Uint256) :
    Spent ((books position).getD .new).resting :=
  @book_at books (fun _ book => Spent book.resting) spent position (by simp [Spent, resting_new])

private theorem process_spent {books : Books} (spent : AllSpent books) (command : MatchCommand) :
    AllSpent (process books command).1 ∧ Hollow (resultFills (process books command).2) := by
  have shrunk {position : Uint256} {book after : OrderBook} (found : books position = some book)
      (shrinks : BookShrinks Removed book after) : AllSpent (Function.update books position (some after.prune)) := by
    apply spent.update
    rw [resting_prune]
    exact shrinks.remains.resting.spent (spent position book found)
  cases command with
  | placeOrder marketId positionId orderId maker price amount side nonce deadline =>
    obtain ⟨settled, hollow⟩ := place_spent (spent.at positionId) marketId
      { orderId, maker, price, amount, filled := 0, side, seq := 0, nonce, deadline }
    rw [process_placeOrder]
    exact ⟨spent.update settled, by simpa [resultFills] using hollow⟩
  | cancelOrder positionId orderId =>
    simp only [process]
    split
    next book found => exact ⟨shrunk found (cancel_shrinks book orderId), by simp [Hollow, resultFills]⟩
    next => exact ⟨spent, by simp [Hollow, resultFills]⟩
  | cancelAll marketId positionId maker =>
    simp only [process]
    split
    next book found => exact ⟨shrunk found (cancelAll_shrinks book maker), by simp [Hollow, resultFills]⟩
    next => exact ⟨spent, by simp [Hollow, resultFills]⟩
  | shutdown => exact ⟨spent, by simp [process, Hollow, resultFills]⟩

structure Untouched (row : OrderRow) : Prop where
  filled : row.filledAmount = 0
  positive : 0 < row.amount
  small : row.amount < 2 ^ 63

def AllUntouched (db : Database) : Prop := ∀ row ∈ db.orders, Untouched row

def Operation.Harmless : Operation → Prop
  | .execute (.insertOrder values) => values.amount < 2 ^ 63
  | .execute (.updateOrderFilled _ filledDelta _) => filledDelta = 0
  | _ => True

theorem updateOrders_untouched {db : Database} (untouched : AllUntouched db) (affects : OrderRow → Bool)
    {set : OrderRow → OrderRow} (keeps : ∀ row, Untouched row → Untouched (set row)) :
    AllUntouched (updateOrders affects set db).2 := by
  intro row member
  obtain ⟨old, before, rfl⟩ := List.mem_map.mp member
  split
  next => exact keeps old (untouched old before)
  next => exact untouched old before

private theorem run_untouched {now affected : Nat} {db after : Database} {statement : Statement}
    (ran : statement.run now db = .ok (affected, after)) (harmless : (Operation.execute statement).Harmless)
    (untouched : AllUntouched db) : AllUntouched after := by
  cases statement with
  | insertOrder values =>
    obtain ⟨-, positive, -, -, rfl⟩ := insertOrder_ok ran
    intro row member
    rcases List.mem_append.mp member with before | new
    · exact untouched row before
    · rw [List.mem_singleton.mp new]
      exact ⟨rfl, positive, harmless⟩
  | updateOrderFilled orderId filledDelta status =>
    cases ran
    apply updateOrders_untouched untouched
    intro row kept
    cases harmless
    exact ⟨by simpa using kept.filled, kept.positive, kept.small⟩
  | cancelOrderDb orderId =>
    cases ran
    exact updateOrders_untouched untouched _ fun row kept => ⟨kept.filled, kept.positive, kept.small⟩
  | _ =>
    unfold AllUntouched
    rw [run_keepsOrders ran rfl]
    exact untouched

private theorem requested_harmless {statement : Statement} (requested : statement.Requested) :
    (Operation.execute statement).Harmless := by
  cases statement with
  | insertOrder values => exact requested
  | updateOrderFilled orderId filledDelta status => exact requested.elim
  | _ => exact trivial

private theorem processMatchResult_harmless {result : MatchResult} (hollow : Hollow result.fills) :
    (processMatchResult result).Only Operation.Harmless := by
  apply processMatchResult_only
  · exact fun _ => trivial
  · intro fill member orderId status
    show i64OrZero fill.amount = 0
    rw [hollow fill member]
    rfl

structure System.Barren (system : System) : Prop where
  untouched : AllUntouched system.db
  spent : AllSpent system.books
  hollow : ∀ result ∈ system.results, Hollow result.fills
  requests : ∀ request ∈ system.requests, request.Only Operation.Harmless
  processing : system.processing.Only Operation.Harmless

private theorem start_barren (numbers : NumberColumn) : (System.start numbers).Barren where
  untouched := by simp [AllUntouched, System.start, Database.empty]
  spent _ _ none := nomatch none
  hollow := by simp [System.start]
  requests := by simp [System.start]
  processing := trivial

theorem Stored.untouched {system : System} {event : Event} {db : Database} (stored : Stored system event db)
    (harmless : ∀ operation, system.operation event = some operation → operation.Harmless)
    (untouched : AllUntouched system.db) : AllUntouched db := by
  cases stored with
  | kept => exact untouched
  | ran performed ran => exact run_untouched ran (harmless _ performed) untouched
  | ledger => exact untouched
  | invalidated user nonce =>
    exact updateOrders_untouched untouched _ fun row kept => ⟨kept.filled, kept.positive, kept.small⟩

private theorem step_barren {crypto : Crypto} {config : AppConfig} {system after : System} {event : Event}
    (moved : system.Moves crypto config event after) (barren : system.Barren) : after.Barren := by
  have stepped := moved.stepped
  have confined : system.Confined Operation.Harmless := ⟨barren.requests, barren.processing⟩
  have later : after.Confined Operation.Harmless := by
    apply stepped.confined confined
    · intro request arriving
      exact arriving_only arriving (fun _ => requested_harmless) (fun _ _ _ _ _ _ => trivial) fun _ _ => trivial
    · exact fun result member => processMatchResult_harmless (barren.hollow result member)
  have untouched := stepped.stored.untouched (fun _ => confined.operation) barren.untouched
  obtain ⟨spent, hollow⟩ : AllSpent after.books ∧ ∀ result ∈ after.results, Hollow result.fills := by
    cases stepped with
    | matching queued =>
      obtain ⟨spent, hollow⟩ := process_spent barren.spent _
      refine ⟨spent, fun result member => ?_⟩
      rcases List.mem_append.mp member with before | new
      · exact barren.hollow result before
      · exact fun fill inside => hollow fill (List.mem_flatMap.mpr ⟨result, new, inside⟩)
    | receive idle queued =>
      exact ⟨barren.spent, fun result member => barren.hollow result (queued ▸ List.mem_cons_of_mem _ member)⟩
    | request found performed =>
      obtain ⟨-, -, books, results⟩ := performed.frame
      exact ⟨books ▸ barren.spent, results ▸ barren.hollow⟩
    | persist busy performed =>
      obtain ⟨-, -, books, results⟩ := performed.frame
      exact ⟨books ▸ barren.spent, results ▸ barren.hollow⟩
    | _ => exact ⟨barren.spent, barren.hollow⟩
  exact ⟨untouched, spent, hollow, later.requests, later.processing⟩

def OpenOrderRow.live (row : OpenOrderRow) : LiveOrder :=
  ⟨row.orderId, row.side, row.price, row.amount, row.amount - row.filledAmount⟩

def Rests (books : Books) (position : Uint256) (live : LiveOrder) : Prop :=
  ∃ book, books position = some book ∧ ∃ order ∈ book.resting, order.live = live

theorem rests_iff {books : Books} {position : Uint256} {live : LiveOrder} :
    Rests books position live ↔ ∃ side, live ∈ liveOrders books position side := by
  constructor
  · intro holds
    obtain ⟨book, found, order, member, rfl⟩ := holds
    obtain ⟨side, inside⟩ := mem_resting_iff_queue.mp member
    exact ⟨side, List.mem_map_of_mem (by simpa [found] using inside)⟩
  · intro holds
    obtain ⟨side, listed⟩ := holds
    obtain ⟨order, inside, rfl⟩ := List.mem_map.mp listed
    have member := mem_resting_iff_queue.mpr ⟨side, inside⟩
    cases found : books position with
    | none => simp [found, resting_new] at member
    | some book => exact ⟨book, found, order, by simpa [found] using member, rfl⟩

private theorem rebuilt_rests {db : Database} {books : Books} (rebuilt : rebuildBooks db = some books) {row : OrderRow}
    (member : row ∈ openOrders db) : Rests books row.positionId (readRow row).live := by
  obtain ⟨order, listed, same⟩ := List.mem_map.mp ((rebuilt_iff rebuilt).mpr ⟨row, member, rfl, rfl⟩)
  obtain ⟨book, found, resting⟩ := mem_restingAt.mp listed
  exact ⟨book, found, order, resting, congrArg RestingOrder.live same⟩

private theorem rebuilt_open {db : Database} {books : Books} (rebuilt : rebuildBooks db = some books) {row : OrderRow}
    (member : row ∈ db.orders) (live : row.status = .open) (untouched : Untouched row) :
    ∃ position live, Rests books position live ∧ live.remaining ≠ 0 := by
  have opened : row ∈ openOrders db := List.mem_filter.mpr ⟨member, by simp [live]⟩
  refine ⟨row.positionId, (readRow row).live, rebuilt_rests rebuilt opened, fun zero => ?_⟩
  have positive := untouched.positive
  have small := untouched.small
  have none : UInt64.ofInt row.amount = 0 := by
    have unfilled : UInt64.ofInt row.filledAmount = 0 := by rw [untouched.filled]; rfl
    simpa [readRow, OpenOrderRow.live, unfilled] using zero
  have value := congrArg UInt64.toNat none
  simp only [UInt64.ofInt, UInt64.toNat_ofNat', UInt64.toNat_zero] at value
  omega

theorem rebuild_nothing {db : Database} (none : ∀ row ∈ db.orders, row.status ≠ .open) :
    rebuildBooks db = some fun _ => Option.none := by
  have empty : db.orders.filter (·.status = .open) = [] := by
    simpa [List.filter_eq_nil_iff] using none
  simp [rebuildBooks, loadOpenOrders, empty]

/-- A run of the gateway from an empty database, with any interleaving of requests,
matching and persistence, recovers exactly in the states where neither an open row
nor a resting order is left. -/
theorem crash_recovery {crypto : Crypto} {config : AppConfig} {numbers : NumberColumn} {events : List Event}
    {system : System} (run : Run (System.Moves crypto config) (.start numbers) events system) :
    system.Recovers ↔ (∀ row ∈ system.db.orders, row.status ≠ .open) ∧
      ∀ position book, system.books position = some book → book.resting = [] := by
  have barren : system.Barren := run.keeps System.Barren (fun _ _ _ => step_barren) (start_barren numbers)
  constructor
  · intro holds
    obtain ⟨books, rebuilt, same⟩ := holds
    have closed : ∀ row ∈ system.db.orders, row.status ≠ .open := by
      intro row member live
      obtain ⟨position, order, rests, positive⟩ := rebuilt_open rebuilt member live (barren.untouched row member)
      obtain ⟨side, listed⟩ := rests_iff.mp rests
      rw [same position side] at listed
      obtain ⟨book, found, resting, inside, view⟩ := rests_iff.mpr ⟨side, listed⟩
      exact positive (by rw [← view]; exact barren.spent position book found resting inside)
    refine ⟨closed, fun position book found => List.eq_nil_iff_forall_not_mem.mpr fun order member => ?_⟩
    rw [rebuild_nothing closed] at rebuilt
    cases rebuilt
    obtain ⟨side, listed⟩ := rests_iff.mp ⟨book, found, order, member, rfl⟩
    rw [← same position side] at listed
    obtain ⟨empty, none, -⟩ := rests_iff.mpr ⟨side, listed⟩
    cases none
  · intro holds
    obtain ⟨closed, empty⟩ := holds
    refine ⟨_, rebuild_nothing closed, fun position side => ?_⟩
    have nothing {books : Books} (none : ∀ book, books position = some book → book.resting = []) :
        liveOrders books position side = [] := by
      apply List.eq_nil_iff_forall_not_mem.mpr
      intro live listed
      obtain ⟨book, found, order, member, -⟩ := rests_iff.mpr ⟨side, listed⟩
      rw [none book found] at member
      cases member
    have rebuilt : liveOrders (fun _ => none) position side = [] := nothing fun _ none => nomatch none
    rw [rebuilt, nothing (empty position)]

namespace Sample

/-- Every hash is 0 and every signature recovers account 5. -/
def crypto : Crypto where
  keccak256 _ := 0
  recover _ _ := some 5

def config : AppConfig := ⟨1, 201, 202, 203⟩

def signedSale : SignedOrder where
  order := {
    salt := 0
    maker := 5
    positionId := 3
    price := 500000
    amount := 100
    side := .sell
    nonce := 0
    deadline := 5000 }
  signature := List.replicate 65 0

/-- With market 1 indexed and 100 shares of account 5, its sale is accepted, rests
unmatched, and its result is dealt with. -/
def acceptedSale : List Event :=
  [ .ledger (fun _ => none) (fun market => if market = 1 then some ⟨[], .open, 0, 2, 1⟩ else none)
      (fun key => if key = ⟨5, .ctf, some 3⟩ then some ⟨100, 0, 1⟩ else none),
    .postOrder 101 signedSale 1, .request 0, .request 0, .request 0, .request 0, .request 0, .respond 0,
    .matching, .receive ]

theorem runs_to {numbers : NumberColumn} {events : List Event} {check : System → Bool}
    (passes : (events.foldlM (System.step crypto config) (.start numbers)).any check = true) :
    ∃ system, Run (System.Moves crypto config) (.start numbers) events system ∧ check system = true := Run.of_check passes

theorem sale_strays (numbers : NumberColumn) : ∃ system,
    Run (System.Moves crypto config) (.start numbers) acceptedSale system ∧ system.drained ∧ ¬ system.Recovers := by
  obtain ⟨system, run, checked⟩ := @runs_to numbers acceptedSale
    (fun system => idle system && decide ((rebuildBooks system.db).map (liveOrders · 3 .sell) ≠
      some (liveOrders system.books 3 .sell))) (by cases numbers <;> decide +kernel)
  obtain ⟨still, differ⟩ := Bool.and_eq_true_iff.mp checked
  refine ⟨system, run, idle_drained still, fun recovers => ?_⟩
  obtain ⟨books, rebuilt, same⟩ := recovers
  apply of_decide_eq_true differ
  rw [rebuilt, Option.map_some, same]

end Sample

/-- After one accepted order a restart fails to load it from NUMERIC columns, and rebuilds
it from BIGINT ones with 100 remaining, where the matcher has it with 0. -/
theorem crash_recovery_fails :
    (∃ system, Run (System.Moves Sample.crypto Sample.config) (.start .numeric) Sample.acceptedSale system ∧
      system.drained ∧ ¬ system.Recovers) ∧
    ∃ system, Run (System.Moves Sample.crypto Sample.config) (.start .bigint) Sample.acceptedSale system ∧
      system.drained ∧ ¬ system.Recovers :=
  ⟨Sample.sale_strays .numeric, Sample.sale_strays .bigint⟩

theorem crash_recovery_sample : ∃ system : System, (∃ row ∈ system.db.orders, row.status = .open) ∧ ¬ system.Recovers := by
  obtain ⟨system, run, checked⟩ := @Sample.runs_to .numeric Sample.acceptedSale
    (fun system => decide (∃ row ∈ system.db.orders, row.status = .open)) (by decide +kernel)
  obtain ⟨row, member, live⟩ := of_decide_eq_true checked
  exact ⟨system, ⟨row, member, live⟩, fun recovers => ((crash_recovery run).mp recovers).1 row member live⟩

end Omniscient.Gateway

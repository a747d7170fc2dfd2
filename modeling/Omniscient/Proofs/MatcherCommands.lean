import Omniscient.Proofs.FillAccounting

/-! What one command does to the orders at rest, and which orders its fills name. -/

namespace Omniscient.Gateway

def restingAt (books : Books) (position : Uint256) : List RestingOrder := ((books position).getD .new).resting

def RestingOrder.taker (order : RestingOrder) : Taker := ⟨order.orderId, order.maker, order.side⟩

def Fill.Pairs (orders : List RestingOrder) (taker : Taker) (fill : Fill) : Prop :=
  ∃ maker ∈ orders, maker.maker ≠ taker.address ∧ ∃ amount, fill = maker.fill taker amount

theorem Fill.Pairs.mono {orders more : List RestingOrder} {taker : Taker} {fill : Fill} (pairs : fill.Pairs orders taker)
    (within : ∀ order ∈ orders, order ∈ more) : fill.Pairs more taker := by
  obtain ⟨maker, member, pair⟩ := pairs
  exact ⟨maker, within maker member, pair⟩

theorem matchLevel_pairs (taker : Taker) (queue : List RestingOrder) (remaining : UInt64) :
    ∀ fill ∈ (matchLevel taker queue remaining).fills, fill.Pairs queue taker := by
  apply matchLevel_induct (motive := fun queue _ matched => ∀ fill ∈ matched.fills, fill.Pairs queue taker)
  · simp
  · simp
  · exact fun maker queue _ _ _ _ ih fill member => (ih fill member).mono fun _ => List.mem_cons_of_mem _
  · intro maker queue remaining matched _ different _ ih fill member
    rcases List.mem_cons.mp member with rfl | later
    · exact ⟨maker, List.mem_cons_self, different, maker.remaining, rfl⟩
    · exact (ih fill later).mono fun _ => List.mem_cons_of_mem _
  · intro maker queue remaining _ different _ fill member
    rw [List.mem_singleton.mp member]
    exact ⟨maker, List.mem_cons_self, different, remaining, rfl⟩

private theorem matchLevels_pairs (taker : Taker) (crosses : UInt64 → Bool) (levels : List Level) (remaining : UInt64) :
    ∀ fill ∈ (matchLevels taker crosses levels remaining).fills, fill.Pairs (ordersOf levels) taker := by
  apply matchLevels_induct (motive := fun levels _ matched => ∀ fill ∈ matched.fills, fill.Pairs (ordersOf levels) taker)
  · simp
  · simp
  · intro price queue levels remaining matched _ _ _ ih fill member
    rcases List.mem_append.mp member with here | later
    · exact (matchLevel_pairs taker queue remaining fill here).mono fun _ => List.mem_append_left _
    · exact (ih fill later).mono fun _ => List.mem_append_right _
  · intro price queue levels remaining _ _ _ _ fill member
    exact (matchLevel_pairs taker queue remaining fill member).mono fun _ => List.mem_append_left _

theorem incoming_pairs (book : OrderBook) (order : RestingOrder) :
    ∀ fill ∈ (book.incoming order).fills, fill.Pairs book.resting order.taker := by
  intro fill member
  apply (matchLevels_pairs order.taker _ _ _ fill member).mono
  exact fun other inside => (resting_opposite book order.side).mem_iff.mpr (List.mem_append_left _ inside)

/-- What is at rest once an order is placed: what the match left, and the order
itself unless it was filled. -/
private theorem place_resting (book : OrderBook) (marketId : MarketId) (order : RestingOrder) :
    (book.incoming order).remaining = 0 ∧
      (book.place marketId order).1.resting = (book.matchOrder order).2.2.resting ∨
    (book.incoming order).remaining ≠ 0 ∧ ∃ seq, (book.place marketId order).1.resting.Perm
      ({ order with filled := (book.incoming order).remaining, seq } :: (book.matchOrder order).2.2.resting) := by
  obtain ⟨-, ⟨zero, -, settled⟩ | ⟨some_, resting, rfl, -, settled⟩⟩ := place_cases book marketId order
  · exact .inl ⟨zero, by rw [settled, resting_prune]⟩
  · refine .inr ⟨some_, (book.matchOrder order).2.2.nextSeq, ?_⟩
    rw [settled, resting_prune]
    exact resting_insert _ _

variable {books : Books} {command : MatchCommand} {order : RestingOrder}

/-- A command that places nothing fills nothing and only takes orders away. -/
theorem process_withdraws (withdraws : command.order = none) : resultFills (process books command).2 = [] ∧
    ∀ position, Removed (restingAt books position) (restingAt (process books command).1 position) := by
  have shrunk {position : Uint256} {book after : OrderBook} (found : books position = some book)
      (shrinks : BookShrinks Removed book after) (place : Uint256) :
      Removed (restingAt books place) (restingAt (Function.update books position (some after.prune)) place) := by
    have removed {levels levels' : List Level} (shrinks : Shrinks Removed levels levels') :
        Removed (ordersOf levels) (ordersOf levels') :=
      shrinks.orders (fun _ => List.nil_sublist _) fun _ _ _ _ => List.Sublist.append
    by_cases here : place = position
    · subst here
      simp only [restingAt, Function.update_self, Option.getD_some, found, resting_prune]
      exact (removed shrinks.buys).append (removed shrinks.sells)
    · simp only [restingAt, Function.update_of_ne here]
      exact .refl _
  cases command with
  | placeOrder => cases withdraws
  | cancelOrder positionId orderId =>
    simp only [process]
    split
    next book found => exact ⟨rfl, shrunk found (cancel_shrinks book orderId)⟩
    next => exact ⟨rfl, fun _ => .refl _⟩
  | cancelAll marketId positionId maker =>
    simp only [process]
    split
    next book found => exact ⟨rfl, shrunk found (cancelAll_shrinks book maker)⟩
    next => exact ⟨rfl, fun _ => .refl _⟩
  | shutdown => exact ⟨rfl, fun _ => .refl _⟩

structure Placing (books : Books) (command : MatchCommand) (order : RestingOrder) : Prop where
  fills : resultFills (process books command).2 = (((books command.position).getD .new).incoming order).fills
  others : ∀ position, position ≠ command.position →
    restingAt (process books command).1 position = restingAt books position
  here : (((books command.position).getD .new).incoming order).remaining = 0 ∧
      restingAt (process books command).1 command.position =
        (((books command.position).getD .new).matchOrder order).2.2.resting ∨
    (((books command.position).getD .new).incoming order).remaining ≠ 0 ∧ ∃ seq,
      (restingAt (process books command).1 command.position).Perm
        ({ order with filled := (((books command.position).getD .new).incoming order).remaining, seq } ::
          (((books command.position).getD .new).matchOrder order).2.2.resting)

theorem process_places (places : command.order = some order) : Placing books command order := by
  cases command with
  | placeOrder marketId positionId orderId maker price amount side nonce deadline =>
    cases places
    refine ⟨?_, fun position elsewhere => ?_, ?_⟩
    · rw [process_placeOrder]
      simp only [resultFills, Option.toList_some, List.flatMap_singleton]
      exact (place_cases _ marketId _).1
    · have apart : position ≠ positionId := elsewhere
      rw [process_placeOrder]
      simp only [restingAt, Function.update_of_ne apart]
    · rw [process_placeOrder]
      simp only [restingAt, MatchCommand.position, Function.update_self, Option.getD_some]
      exact place_resting _ marketId _
  | _ => cases places

theorem matchOrder_remains (book : OrderBook) (order : RestingOrder) :
    Remains book.resting (book.matchOrder order).2.2.resting := (matchOrder_eq book order).2.2.2.resting

/-- Every order at rest after a command was at rest before it, or is the one it places. -/
theorem process_resting {position : Uint256} {rested : RestingOrder}
    (member : rested ∈ restingAt (process books command).1 position) :
    (∃ before ∈ restingAt books position, rested.terms = before.terms) ∨
    ∃ order, command.order = some order ∧ position = command.position ∧ ∃ filled seq, rested = { order with filled, seq } := by
  cases places : command.order with
  | none => exact .inl ⟨rested, (process_withdraws places).2 position |>.subset member, rfl⟩
  | some order =>
    have placing := @process_places books command order places
    by_cases here : position = command.position
    · subst here
      have kept {rested : RestingOrder}
          (member : rested ∈ (((books command.position).getD .new).matchOrder order).2.2.resting) :=
        (matchOrder_remains _ order).mem member
      rcases placing.here with ⟨-, same⟩ | ⟨-, seq, same⟩
      · exact .inl (kept (same ▸ member))
      · rcases List.mem_cons.mp (same.mem_iff.mp member) with rfl | before
        · exact .inr ⟨order, rfl, rfl, _, seq, rfl⟩
        · exact .inl (kept before)
    · rw [placing.others position here] at member
      exact .inl ⟨rested, member, rfl⟩

/-- Every fill of a command is between the order it places and one at rest in its book. -/
theorem process_pairs {fill : Fill} (member : fill ∈ resultFills (process books command).2) :
    ∃ order, command.order = some order ∧ fill.Pairs (restingAt books command.position) order.taker := by
  cases places : command.order with
  | none =>
    rw [(process_withdraws places).1] at member
    cases member
  | some order =>
    rw [(process_places places).fills] at member
    exact ⟨order, rfl, incoming_pairs _ order fill member⟩

end Omniscient.Gateway

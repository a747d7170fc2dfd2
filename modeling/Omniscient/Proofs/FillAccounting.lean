import Omniscient.Proofs.BookInvariant

/-! Fill accounting. A maker's remainder is kept exact by the matching loops. The
engine records as filled what a resting taker has left, so the account of a
placed order is right when the crossing liquidity covers it, or half of it. -/

namespace Omniscient.Gateway

def Fill.involves (id : OrderId) (fill : Fill) : Bool := fill.makerOrderId = id || fill.takerOrderId = id

def filledFor (id : OrderId) (fills : List Fill) : Nat := filledBy (fills.filter (Fill.involves id))

@[simp] theorem filledFor_nil (id : OrderId) : filledFor id [] = 0 := rfl

theorem filledFor_append (id : OrderId) (first second : List Fill) :
    filledFor id (first ++ second) = filledFor id first + filledFor id second := by
  simp [filledFor]

theorem filledFor_cons (id : OrderId) (fill : Fill) (fills : List Fill) :
    filledFor id (fill :: fills) = (if fill.involves id then fill.amount.toNat else 0) + filledFor id fills := by
  unfold filledFor
  rw [List.filter_cons]
  split <;> simp

def withId (id : OrderId) (orders : List RestingOrder) : List RestingOrder := orders.filter (·.orderId = id)

/-- At most one of the orders has this id, and then with this amount and total. -/
def Traces (id : OrderId) (amount : UInt64) (total : Nat) (orders : List RestingOrder) : Prop :=
  withId id orders = [] ∨ ∃ order, withId id orders = [order] ∧ order.amount = amount ∧ order.filled.toNat = total

def Unfilled (orders : List RestingOrder) : Prop := ∀ order ∈ orders, order.filled < order.amount

namespace Traces

variable {id : OrderId} {amount : UInt64} {total : Nat} {orders orders' : List RestingOrder} {order : RestingOrder}

theorem removed (traces : Traces id amount total orders) (removed : Removed orders orders') :
    Traces id amount total orders' := by
  have fewer : (withId id orders').Sublist (withId id orders) := removed.filter _
  rcases traces with none | ⟨order, one, facts⟩
  · rw [none] at fewer
    exact .inl (List.sublist_nil.mp fewer)
  · rw [one] at fewer
    rcases List.sublist_singleton.mp fewer with none | same
    · exact .inl none
    · exact .inr ⟨order, same, facts⟩

theorem perm (traces : Traces id amount total orders) (same : orders.Perm orders') : Traces id amount total orders' := by
  have matched : (withId id orders).Perm (withId id orders') := same.filter _
  rcases traces with none | ⟨order, one, facts⟩
  · rw [none] at matched
    exact .inl (List.nil_perm.mp matched)
  · rw [one] at matched
    exact .inr ⟨order, (List.singleton_perm.mp matched).symm, facts⟩

theorem other (different : order.orderId ≠ id) :
    Traces id amount total (order :: orders) ↔ Traces id amount total orders := by
  simp only [Traces, withId, List.filter_cons, different, decide_false, Bool.false_eq_true, if_false]

theorem alone (own : order.orderId = id) (traces : Traces id amount total (order :: orders)) :
    order.amount = amount ∧ order.filled.toNat = total ∧ withId id orders = [] := by
  simp only [Traces, withId, List.filter_cons, own, decide_true, if_true] at traces
  rcases traces with none | ⟨same, one, facts⟩
  · cases none
  · obtain ⟨rfl, none⟩ := List.cons.inj one
    exact ⟨facts.1, facts.2, none⟩

theorem single (own : order.orderId = id) (none : withId id orders = []) :
    Traces id order.amount order.filled.toNat (order :: orders) := by
  refine .inr ⟨order, ?_, rfl, rfl⟩
  simp only [withId] at none
  simp [withId, own, none]

end Traces

variable {taker : Taker} {id : OrderId} {amount : UInt64}

theorem matchLevel_traces (notTaker : taker.orderId ≠ id) (queue : List RestingOrder) (remaining : UInt64) :
    ∀ total behind, Traces id amount total (queue ++ behind) → Unfilled queue → total ≤ amount.toNat →
      Traces id amount (total + filledFor id (matchLevel taker queue remaining).fills)
        ((matchLevel taker queue remaining).left ++ behind) ∧
      total + filledFor id (matchLevel taker queue remaining).fills ≤ amount.toNat := by
  apply matchLevel_induct (motive := fun queue _ matched => ∀ total behind,
    Traces id amount total (queue ++ behind) → Unfilled queue → total ≤ amount.toNat →
      Traces id amount (total + filledFor id matched.fills) (matched.left ++ behind) ∧
      total + filledFor id matched.fills ≤ amount.toNat)
  · exact fun _ total behind traces _ within => ⟨traces, within⟩
  · exact fun _ total behind traces _ within => ⟨traces, within⟩
  · intro maker queue _ matched _ _ ih total behind traces unfilled within
    exact ih total behind (traces.removed (List.sublist_cons_self ..))
      (fun order member => unfilled order (List.mem_cons_of_mem _ member)) within
  · intro maker queue remaining matched _ _ enough ih total behind traces unfilled within
    have later : Unfilled queue := fun order member => unfilled order (List.mem_cons_of_mem _ member)
    have open_ := unfilled maker List.mem_cons_self
    have left := remaining_toNat open_.le
    rw [UInt64.lt_iff_toNat_lt] at open_
    simp only [filledFor_cons, Fill.involves, RestingOrder.fill]
    by_cases own : maker.orderId = id
    · obtain ⟨sized, filled, none⟩ := traces.alone own
      have rest := ih (total + maker.remaining.toNat) behind (.inl none) later (by rw [← sized]; omega)
      simp only [own, decide_true, Bool.true_or, if_true]
      rwa [← Nat.add_assoc]
    · have rest := ih total behind ((Traces.other own).mp traces) later within
      simpa [own, notTaker] using rest
  · intro maker queue remaining _ _ short total behind traces unfilled within
    have inside := (unfilled maker List.mem_cons_self).le
    have left := remaining_toNat inside
    have taken := take_filled inside short
    rw [UInt64.lt_iff_toNat_lt] at short
    rw [UInt64.le_iff_toNat_le] at inside
    simp only [filledFor_cons, filledFor_nil, Fill.involves, RestingOrder.fill, Nat.add_zero]
    by_cases own : maker.orderId = id
    · obtain ⟨sized, filled, none⟩ := traces.alone own
      have kept : Traces id maker.amount (maker.take remaining).filled.toNat (maker.take remaining :: (queue ++ behind)) :=
        .single own none
      simp only [own, decide_true, Bool.true_or, if_true]
      rw [taken, filled] at kept
      rw [← sized]
      exact ⟨kept, by omega⟩
    · have ownTaken : (maker.take remaining).orderId ≠ id := own
      have kept : Traces id amount total (maker.take remaining :: (queue ++ behind)) :=
        (Traces.other ownTaken).mpr ((Traces.other own).mp traces)
      simpa [own, notTaker] using ⟨kept, within⟩

private theorem matchLevels_traces (notTaker : taker.orderId ≠ id) (crosses : UInt64 → Bool) (levels : List Level)
    (remaining : UInt64) : ∀ total behind, Traces id amount total (ordersOf levels ++ behind) →
      Unfilled (ordersOf levels) → total ≤ amount.toNat →
      Traces id amount (total + filledFor id (matchLevels taker crosses levels remaining).fills)
        (ordersOf (matchLevels taker crosses levels remaining).left ++ behind) ∧
      total + filledFor id (matchLevels taker crosses levels remaining).fills ≤ amount.toNat := by
  apply matchLevels_induct (motive := fun levels _ matched => ∀ total behind,
    Traces id amount total (ordersOf levels ++ behind) → Unfilled (ordersOf levels) → total ≤ amount.toNat →
      Traces id amount (total + filledFor id matched.fills) (ordersOf matched.left ++ behind) ∧
      total + filledFor id matched.fills ≤ amount.toNat)
  · exact fun _ total behind traces _ within => ⟨traces, within⟩
  · exact fun _ _ _ _ total behind traces _ within => ⟨traces, within⟩
  · intro price queue levels remaining matched _ _ gone ih total behind traces unfilled within
    obtain ⟨here, bound⟩ := matchLevel_traces notTaker queue remaining total (ordersOf levels ++ behind)
      (by simpa [ordersOf] using traces) (fun order member => unfilled order (List.mem_append_left _ member)) within
    rw [gone] at here
    have rest := ih _ behind here (fun order member => unfilled order (List.mem_append_right _ member)) bound
    rwa [filledFor_append, ← Nat.add_assoc]
  · intro price queue levels remaining _ _ _ _ total behind traces unfilled within
    have here := matchLevel_traces notTaker queue remaining total (ordersOf levels ++ behind)
      (by simpa [ordersOf] using traces) (fun order member => unfilled order (List.mem_append_left _ member)) within
    simpa [ordersOf] using here

theorem matchLevel_positive (taker : Taker) (queue : List RestingOrder) (remaining : UInt64) (unfilled : Unfilled queue) :
    ∀ fill ∈ (matchLevel taker queue remaining).fills, fill.amount ≠ 0 ∧ fill.takerOrderId = taker.orderId := by
  revert unfilled
  apply matchLevel_induct (motive := fun queue _ matched => Unfilled queue →
    ∀ fill ∈ matched.fills, fill.amount ≠ 0 ∧ fill.takerOrderId = taker.orderId)
  · simp
  · simp
  · exact fun maker queue _ _ _ _ ih unfilled => ih fun order member => unfilled order (List.mem_cons_of_mem _ member)
  · intro maker queue remaining matched _ _ _ ih unfilled fill member
    rcases List.mem_cons.mp member with rfl | later
    · have open_ := unfilled maker List.mem_cons_self
      have left := remaining_toNat open_.le
      rw [UInt64.lt_iff_toNat_lt] at open_
      refine ⟨fun zero => ?_, rfl⟩
      have none : maker.remaining.toNat = 0 := congrArg UInt64.toNat zero
      omega
    · exact ih (fun order member => unfilled order (List.mem_cons_of_mem _ member)) fill later
  · intro maker queue remaining positive _ _ _ fill member
    rw [List.mem_singleton.mp member]
    exact ⟨positive, rfl⟩

private theorem matchLevels_positive (taker : Taker) (crosses : UInt64 → Bool) (levels : List Level)
    (remaining : UInt64)
    (unfilled : Unfilled (ordersOf levels)) : ∀ fill ∈ (matchLevels taker crosses levels remaining).fills,
      fill.amount ≠ 0 ∧ fill.takerOrderId = taker.orderId := by
  revert unfilled
  apply matchLevels_induct (motive := fun levels _ matched => Unfilled (ordersOf levels) →
    ∀ fill ∈ matched.fills, fill.amount ≠ 0 ∧ fill.takerOrderId = taker.orderId)
  · simp
  · simp
  · intro price queue levels remaining matched _ _ _ ih unfilled fill member
    rcases List.mem_append.mp member with here | later
    · exact matchLevel_positive taker queue remaining
        (fun order member => unfilled order (List.mem_append_left _ member)) fill here
    · exact ih (fun order member => unfilled order (List.mem_append_right _ member)) fill later
  · intro price queue levels remaining _ _ _ _ unfilled
    exact matchLevel_positive taker queue remaining fun order member => unfilled order (List.mem_append_left _ member)

def supply (taker : Address) (orders : List RestingOrder) : Nat :=
  ((orders.filter (·.maker ≠ taker)).map fun order => order.remaining.toNat).sum

theorem supply_append (taker : Address) (first second : List RestingOrder) :
    supply taker (first ++ second) = supply taker first + supply taker second := by
  simp [supply]

theorem matchLevel_supply (taker : Taker) (queue : List RestingOrder) (remaining : UInt64) :
    (matchLevel taker queue remaining).remaining.toNat = remaining.toNat - supply taker.address queue := by
  apply matchLevel_induct (motive := fun queue remaining matched =>
    matched.remaining.toNat = remaining.toNat - supply taker.address queue)
  · simp [supply]
  · simp
  · intro maker queue remaining matched _ same ih
    have skipped : supply taker.address (maker :: queue) = supply taker.address queue := by simp [supply, same]
    rw [skipped, ih]
  · intro maker queue remaining matched _ different enough ih
    have given : supply taker.address (maker :: queue) = maker.remaining.toNat + supply taker.address queue := by
      simp [supply, different]
    rw [given, ih, UInt64.toNat_sub_of_le _ _ enough, Nat.sub_sub]
  · intro maker queue remaining _ different short
    have given : supply taker.address (maker :: queue) = maker.remaining.toNat + supply taker.address queue := by
      simp [supply, different]
    rw [UInt64.lt_iff_toNat_lt] at short
    rw [given, UInt64.toNat_zero]
    omega

private theorem matchLevels_supply {crosses : UInt64 → Bool} {levels : List Level} {remaining : UInt64}
    (priority : levels.Pairwise fun first second => crosses second.1 = true → crosses first.1 = true) :
    (matchLevels taker crosses levels remaining).remaining.toNat =
      remaining.toNat - supply taker.address (ordersOf (levels.filter fun level => crosses level.1)) := by
  revert priority
  apply matchLevels_induct (motive := fun levels remaining matched =>
    (levels.Pairwise fun first second => crosses second.1 = true → crosses first.1 = true) →
    matched.remaining.toNat =
      remaining.toNat - supply taker.address (ordersOf (levels.filter fun level => crosses level.1)))
  · simp [ordersOf, supply]
  · intro first levels remaining stop priority
    rcases stop with rfl | beyond
    · simp
    · have none : (first :: levels).filter (fun level => crosses level.1) = [] := by
        apply List.filter_eq_nil_iff.mpr
        intro level member
        rcases List.mem_cons.mp member with rfl | later
        · simp [beyond]
        · intro reached
          have ahead := (List.pairwise_cons.mp priority).1 level later reached
          simp [beyond] at ahead
      rw [none]
      simp [ordersOf, supply]
  · intro price queue levels remaining matched _ reached _ ih priority
    have here := matchLevel_supply taker queue remaining
    rw [ih (List.pairwise_cons.mp priority).2, List.filter_cons, if_pos reached, here]
    simp only [ordersOf, List.flatMap_cons, supply_append]
    omega
  · intro price queue levels remaining _ reached _ zero _
    have here := matchLevel_supply taker queue remaining
    rw [zero, UInt64.toNat_zero] at here
    rw [List.filter_cons, if_pos reached]
    simp only [ordersOf, List.flatMap_cons, supply_append, UInt64.toNat_zero]
    omega

def OrderBook.liquidity (book : OrderBook) (order : RestingOrder) : Nat :=
  supply order.maker (ordersOf ((book.opposite order.side).filter fun level => crosses order level.1))

def OrderBook.Covers (book : OrderBook) (order : RestingOrder) : Prop :=
  order.amount.toNat ≤ book.liquidity order ∨ 2 * book.liquidity order = order.amount.toNat

theorem ordersOf_reverse (levels : List Level) : (ordersOf levels.reverse).Perm (ordersOf levels) :=
  (List.reverse_perm levels).flatMap_right _

theorem resting_opposite (book : OrderBook) (side : OrderSide) :
    book.resting.Perm (ordersOf (book.opposite side) ++ ordersOf (book.levels side)) := by
  cases side with
  | buy => exact List.perm_append_comm
  | sell => exact (ordersOf_reverse _).symm.append_right _

theorem matchOrder_levels (book : OrderBook) (order : RestingOrder) :
    (book.matchOrder order).2.2.levels order.side = book.levels order.side := by
  unfold OrderBook.matchOrder
  cases order.side <;> rfl

theorem incoming_remaining (book : OrderBook) (order : RestingOrder) :
    (book.incoming order).remaining.toNat = order.amount.toNat - book.liquidity order :=
  matchLevels_supply (opposite_priority book order)

theorem Remains.unfilled {orders orders' : List RestingOrder} (remains : Remains orders orders')
    (unfilled : Unfilled orders) : Unfilled orders' := by
  intro order' member
  obtain ⟨order, before, survives⟩ := remains.survives order' member
  have open_ := unfilled order before
  have amount : order'.terms.amount = order.terms.amount := congrArg RestingOrder.amount survives.terms
  simp only [RestingOrder.terms] at amount
  rcases (survives.filled open_.le).2 with same | less
  · rw [same, amount]
    exact open_
  · exact less

theorem withId_of_absent {id : OrderId} {orders : List RestingOrder} (absent : id ∉ orders.map RestingOrder.orderId) :
    withId id orders = [] := by
  apply List.filter_eq_nil_iff.mpr
  intro order member
  simp only [decide_eq_true_eq]
  intro same
  subst same
  exact absent (List.mem_map_of_mem member)

structure Accounts (book after : OrderBook) (fills : List Fill) (placed : Option RestingOrder) : Prop where
  unfilled : Unfilled after.resting
  positive : ∀ fill ∈ fills, fill.amount ≠ 0
  others : ∀ id amount total, (∀ order, placed = some order → order.orderId ≠ id) →
    Traces id amount total book.resting → total ≤ amount.toNat →
      Traces id amount (total + filledFor id fills) after.resting ∧ total + filledFor id fills ≤ amount.toNat
  own : ∀ order, placed = some order →
    Traces order.orderId order.amount (filledFor order.orderId fills) after.resting ∧
      filledFor order.orderId fills ≤ order.amount.toNat

theorem Accounts.prune {book after : OrderBook} {fills : List Fill} {placed : Option RestingOrder}
    (accounts : Accounts book after fills placed) : Accounts book after.prune fills placed := by
  obtain ⟨unfilled, positive, others, own⟩ := accounts
  rw [← resting_prune after] at unfilled others own
  exact ⟨unfilled, positive, others, own⟩

theorem Unfilled.opposite {book : OrderBook} (unfilled : Unfilled book.resting) (side : OrderSide) :
    Unfilled (ordersOf (book.opposite side)) := fun each member =>
  unfilled each ((resting_opposite book side).mem_iff.mpr (List.mem_append_left _ member))

theorem matchOrder_traces {book : OrderBook} {order : RestingOrder} (unfilled : Unfilled book.resting) {id : OrderId}
    {amount : UInt64} {total : Nat} (other : order.orderId ≠ id) (traces : Traces id amount total book.resting)
    (within : total ≤ amount.toNat) :
    Traces id amount (total + filledFor id (book.incoming order).fills) (book.matchOrder order).2.2.resting ∧
      total + filledFor id (book.incoming order).fills ≤ amount.toNat := by
  obtain ⟨-, -, left, -⟩ := matchOrder_eq book order
  let taker : Taker := ⟨order.orderId, order.maker, order.side⟩
  have notTaker : taker.orderId ≠ id := other
  obtain ⟨kept, bound⟩ := matchLevels_traces notTaker (crosses order) (book.opposite order.side) order.amount total _
    (traces.perm (resting_opposite book order.side)) (unfilled.opposite _) within
  refine ⟨kept.perm ?_, bound⟩
  have after := resting_opposite (book.matchOrder order).2.2 order.side
  rw [left, matchOrder_levels] at after
  exact after.symm

theorem incoming_positive {book : OrderBook} (unfilled : Unfilled book.resting) (order : RestingOrder) :
    ∀ fill ∈ (book.incoming order).fills, fill.amount ≠ 0 ∧ fill.takerOrderId = order.orderId :=
  matchLevels_positive ⟨order.orderId, order.maker, order.side⟩ _ _ _ (unfilled.opposite _)

theorem filledFor_incoming {book : OrderBook} (unfilled : Unfilled book.resting) (order : RestingOrder) :
    filledFor order.orderId (book.incoming order).fills = filledBy (book.incoming order).fills := by
  rw [filledFor, List.filter_eq_self.mpr fun fill member => ?_]
  simp [Fill.involves, (incoming_positive unfilled order fill member).2]

/-- An order rests with what it had left as filled. It is traced all the same where that is
what was filled. -/
private theorem rests_accounts {book : OrderBook} {order resting : RestingOrder} (unfilled : Unfilled book.resting)
    (fresh : order.orderId ∉ book.resting.map RestingOrder.orderId)
    (half : (book.incoming order).remaining.toNat = filledBy (book.incoming order).fills)
    (unsatisfied : (book.incoming order).remaining ≠ 0)
    (made : resting = { order with filled := (book.incoming order).remaining, seq := 0 }) :
    Accounts book ((book.matchOrder order).2.2.insert resting).2 (book.incoming order).fills (some order) := by
  obtain ⟨-, -, -, shrinks⟩ := matchOrder_eq book order
  have total : filledBy (book.incoming order).fills + (book.incoming order).remaining.toNat = order.amount.toNat :=
    matchLevels_total ..
  have positiveRest : (book.incoming order).remaining.toNat ≠ 0 := fun zero => unsatisfied (UInt64.toNat_inj.mp zero)
  have absent : withId order.orderId (book.matchOrder order).2.2.resting = [] :=
    withId_of_absent fun inside => fresh (shrinks.resting.ids.subset inside)
  have perm := resting_insert (book.matchOrder order).2.2 resting
  have sameId : resting.orderId = order.orderId := by rw [made]
  have filled : resting.filled = (book.incoming order).remaining := by rw [made]
  have amount : resting.amount = order.amount := by rw [made]
  refine ⟨fun each member => ?_, fun fill member => (incoming_positive unfilled order fill member).1, ?_, ?_⟩
  · rcases List.mem_cons.mp (perm.mem_iff.mp member) with rfl | before
    · simp only [RestingOrder.numbered, filled, amount, UInt64.lt_iff_toNat_lt]
      omega
    · exact shrinks.resting.unfilled unfilled each before
  · intro id amount total other traces within
    obtain ⟨kept, bound⟩ := matchOrder_traces unfilled (other order rfl) traces within
    have different : (resting.numbered (book.matchOrder order).2.2.nextSeq).orderId ≠ id := fun same =>
      other order rfl (sameId.symm.trans same)
    exact ⟨((Traces.other different).mpr kept).perm perm.symm, bound⟩
  · intro _ same
    cases same
    have own : (resting.numbered (book.matchOrder order).2.2.nextSeq).orderId = order.orderId := sameId
    have sized : (resting.numbered (book.matchOrder order).2.2.nextSeq).amount = order.amount := amount
    have recorded : (resting.numbered (book.matchOrder order).2.2.nextSeq).filled = (book.incoming order).remaining :=
      filled
    have single := Traces.single own absent
    rw [sized, recorded, half] at single
    rw [filledFor_incoming unfilled]
    exact ⟨single.perm perm.symm, by omega⟩

private theorem place_accounts {book : OrderBook} {order : RestingOrder} (marketId : MarketId)
    (unfilled : Unfilled book.resting)
    (covers : book.Covers order) (fresh : order.orderId ∉ book.resting.map RestingOrder.orderId) :
    Accounts book (book.place marketId order).1 (book.place marketId order).2.fills (some order) := by
  have total : filledBy (book.incoming order).fills + (book.incoming order).remaining.toNat = order.amount.toNat :=
    matchLevels_total ..
  obtain ⟨fills, ⟨-, -, settled⟩ | ⟨unsatisfied, resting, made, -, settled⟩⟩ := place_cases book marketId order
  · obtain ⟨-, -, -, shrinks⟩ := matchOrder_eq book order
    have absent : withId order.orderId (book.matchOrder order).2.2.resting = [] :=
      withId_of_absent fun inside => fresh (shrinks.resting.ids.subset inside)
    rw [settled, fills]
    refine Accounts.prune ⟨shrinks.resting.unfilled unfilled,
      fun fill member => (incoming_positive unfilled order fill member).1, ?_, ?_⟩
    · intro id amount total other traces within
      exact matchOrder_traces unfilled (other order rfl) traces within
    · intro _ same
      cases same
      rw [filledFor_incoming unfilled]
      exact ⟨.inl absent, by omega⟩
  · -- The order rests, so its liquidity is half its amount, and what is left is what was filled.
    have reached := incoming_remaining book order
    have positiveRest : (book.incoming order).remaining.toNat ≠ 0 := fun zero =>
      unsatisfied (UInt64.toNat_inj.mp zero)
    have half : (book.incoming order).remaining.toNat = filledBy (book.incoming order).fills := by
      rcases covers with enough | exactly <;> omega
    rw [settled, fills]
    exact Accounts.prune (rests_accounts unfilled fresh half unsatisfied made)

theorem withdrawal_accounts {book after : OrderBook} (unfilled : Unfilled book.resting)
    (shrinks : BookShrinks Removed book after) : Accounts book after.prune [] none := by
  have removed {levels levels' : List Level} (shrinks : Shrinks Removed levels levels') :
      Removed (ordersOf levels) (ordersOf levels') :=
    shrinks.orders (fun _ => List.nil_sublist _) fun _ _ _ _ => List.Sublist.append
  have less : Removed book.resting after.resting := (removed shrinks.buys).append (removed shrinks.sells)
  refine Accounts.prune ⟨fun order member => unfilled order (less.subset member), by simp, ?_, fun _ none => by cases none⟩
  intro id amount total _ traces within
  exact ⟨traces.removed less, within⟩

theorem Accounts.absent {book after : OrderBook} {fills : List Fill} {placed : Option RestingOrder}
    (accounts : Accounts book after fills placed) {id : OrderId}
    (other : ∀ order, placed = some order → order.orderId ≠ id) (absent : withId id book.resting = []) :
    withId id after.resting = [] ∧ filledFor id fills = 0 := by
  obtain ⟨traces, bound⟩ := accounts.others id 0 0 other (.inl absent) (Nat.zero_le _)
  refine ⟨?_, by simpa using bound⟩
  rcases traces with none | ⟨order, one, amount, -⟩
  · exact none
  · have member : order ∈ withId id after.resting := by rw [one]; exact List.mem_singleton.mpr rfl
    have open_ := accounts.unfilled order (List.mem_of_mem_filter member)
    rw [amount] at open_
    exact absurd open_ (UInt64.not_lt_zero)

def resultFills (result : Option MatchResult) : List Fill := result.toList.flatMap MatchResult.fills

def AllUnfilled (books : Books) : Prop := ∀ position book, books position = some book → Unfilled book.resting

def MatchCommand.position : MatchCommand → Uint256
  | .placeOrder _ positionId .. | .cancelOrder positionId _ | .cancelAll _ positionId _ => positionId
  | .shutdown => 0

def MatchCommand.Covered (books : Books) (command : MatchCommand) : Prop :=
  ∀ order, command.order = some order → ((books command.position).getD .new).Covers order

theorem resting_new : OrderBook.new.resting = [] := rfl

private theorem process_accounts {books : Books} {command : MatchCommand} {commands : List MatchCommand}
    (unfilled : AllUnfilled books) (covered : command.Covered books) (fresh : FreshIds books (command :: commands)) :
    (∃ after, (process books command).1 = Function.update books command.position (some after) ∧
      Accounts ((books command.position).getD .new) after (resultFills (process books command).2) command.order) ∨
    ((process books command).1 = books ∧ resultFills (process books command).2 = [] ∧ command.order = none) := by
  cases command with
  | placeOrder marketId positionId orderId maker price amount side nonce deadline =>
    have before : Unfilled ((books positionId).getD .new).resting := by
      cases found : books positionId with
      | none => simp [Unfilled, resting_new]
      | some book => exact unfilled positionId book found
    have unused : orderId ∉ ((books positionId).getD .new).resting.map RestingOrder.orderId := by
      cases found : books positionId with
      | none => simp [resting_new]
      | some book =>
        exact fresh.unused orderId (by simp [placedIds, MatchCommand.placedId, MatchCommand.order]) positionId book found
    rw [process_placeOrder]
    refine .inl ⟨_, rfl, ?_⟩
    simp only [resultFills, Option.toList_some, List.flatMap_singleton]
    exact place_accounts marketId before (covered _ rfl) unused
  | cancelOrder positionId orderId =>
    simp only [process]
    split
    next book found =>
      refine .inl ⟨_, rfl, ?_⟩
      have accounts := withdrawal_accounts (unfilled positionId book found) (cancel_shrinks book orderId)
      rw [MatchCommand.position, found]
      exact accounts
    next => exact .inr ⟨rfl, rfl, rfl⟩
  | cancelAll marketId positionId maker =>
    simp only [process]
    split
    next book found =>
      refine .inl ⟨_, rfl, ?_⟩
      have accounts := withdrawal_accounts (unfilled positionId book found) (cancelAll_shrinks book maker)
      rw [MatchCommand.position, found]
      exact accounts
    next => exact .inr ⟨rfl, rfl, rfl⟩
  | shutdown => exact .inr ⟨rfl, rfl, rfl⟩

def Absent (id : OrderId) (books : Books) : Prop :=
  ∀ position book, books position = some book → withId id book.resting = []

def Kept (id : OrderId) (amount : UInt64) (total : Nat) (books : Books) : Prop :=
  total ≤ amount.toNat ∧ ∃ home, ∀ position book, books position = some book →
    Traces id amount total book.resting ∧ (position ≠ home → withId id book.resting = [])

theorem Absent.at {id : OrderId} {books : Books} (absent : Absent id books) (position : Uint256) :
    withId id ((books position).getD .new).resting = [] :=
  @book_at books (fun _ book => withId id book.resting = []) absent position rfl

section step

variable {books : Books} {position : Uint256} {after : OrderBook} {fills : List Fill} {placed : Option RestingOrder}
  (accounts : Accounts ((books position).getD .new) after fills placed) {id : OrderId} {amount : UInt64} {total : Nat}

include accounts

theorem Absent.step (other : ∀ order, placed = some order → order.orderId ≠ id) (absent : Absent id books) :
    Absent id (Function.update books position (some after)) ∧ filledFor id fills = 0 := by
  obtain ⟨gone, none⟩ := accounts.absent other (absent.at position)
  exact ⟨book_replaced gone fun place book _ => absent place book, none⟩

theorem Absent.arrives {order : RestingOrder} (own : placed = some order) (absent : Absent order.orderId books) :
    Kept order.orderId order.amount (filledFor order.orderId fills) (Function.update books position (some after)) := by
  obtain ⟨traces, bound⟩ := accounts.own order own
  refine ⟨bound, position, book_replaced ⟨traces, fun away => absurd rfl away⟩ fun place book _ found => ?_⟩
  have none := absent place book found
  exact ⟨.inl none, fun _ => none⟩

theorem Kept.step (other : ∀ order, placed = some order → order.orderId ≠ id) (kept : Kept id amount total books) :
    Kept id amount (total + filledFor id fills) (Function.update books position (some after)) := by
  obtain ⟨within, home, held⟩ := kept
  obtain ⟨before, elsewhere⟩ := book_at held position ⟨.inl rfl, fun _ => rfl⟩
  obtain ⟨traces, bound⟩ := accounts.others id amount total other before within
  refine ⟨bound, home, book_replaced ?_ fun place book here found => ?_⟩
  · exact ⟨traces, fun away => (accounts.absent other (elsewhere away)).1⟩
  · obtain ⟨old, away⟩ := held place book found
    by_cases atHome : place = home
    · -- The order lives in another book, so this command's fills are not its own.
      rw [(accounts.absent other (elsewhere (atHome ▸ Ne.symm here))).2, Nat.add_zero]
      exact ⟨old, away⟩
    · exact ⟨.inl (away atHome), away⟩

theorem AllUnfilled.step (unfilled : AllUnfilled books) :
    AllUnfilled (Function.update books position (some after)) :=
  book_replaced accounts.unfilled fun place book _ => unfilled place book

end step

/-- Every placed order is covered where it arrives. -/
def Covered : Books → List MatchCommand → Prop
  | _, [] => True
  | _, .shutdown :: _ => True
  | books, command :: commands => command.Covered books ∧ Covered (process books command).1 commands

def placedOrders (commands : List MatchCommand) : List RestingOrder := commands.filterMap MatchCommand.order

def fillsOf (results : List MatchResult) : List Fill := results.flatMap MatchResult.fills

theorem FreshIds.absent {books : Books} {commands : List MatchCommand} (fresh : FreshIds books commands) {id : OrderId}
    (member : id ∈ placedIds commands) : Absent id books :=
  fun position book found => withId_of_absent (fresh.unused id member position book found)

private theorem mem_of_withId {id : OrderId} {orders : List RestingOrder} (none : withId id orders = []) :
    id ∉ orders.map RestingOrder.orderId := by
  intro member
  obtain ⟨order, inside, rfl⟩ := List.mem_map.mp member
  have found := List.filter_eq_nil_iff.mp none order inside
  simp at found

theorem placedIds_cons (command : MatchCommand) (commands : List MatchCommand) :
    placedIds (command :: commands) = (command.order.map RestingOrder.orderId).toList ++ placedIds commands := by
  unfold placedIds
  rw [List.filterMap_cons]
  cases placed : command.order <;> simp [MatchCommand.placedId, placed]

theorem FreshIds.step {books : Books} {command : MatchCommand} {commands : List MatchCommand} {after : OrderBook}
    {fills : List Fill} (fresh : FreshIds books (command :: commands))
    (accounts : Accounts ((books command.position).getD .new) after fills command.order) :
    FreshIds (Function.update books command.position (some after)) commands := by
  have distinct := fresh.distinct
  rw [placedIds_cons, List.nodup_append] at distinct
  refine ⟨distinct.2.1, fun id member position book found => ?_⟩
  have listed : id ∈ placedIds (command :: commands) := by
    rw [placedIds_cons]
    exact List.mem_append_right _ member
  have other : ∀ order, command.order = some order → order.orderId ≠ id := by
    intro order placed same
    exact distinct.2.2 order.orderId (by simp [placed]) id member same
  exact mem_of_withId (((fresh.absent listed).step accounts other).1 position book found)

/-- What a run does to the books and to the account of every order. -/
structure Accounted (books : Books) (commands : List MatchCommand) (after : Books) (fills : List Fill) : Prop where
  unfilled : AllUnfilled after
  positive : ∀ fill ∈ fills, fill.amount ≠ 0
  kept : ∀ id amount total, Kept id amount total books → id ∉ placedIds commands →
    Kept id amount (total + filledFor id fills) after
  placed : ∀ id amount, Absent id books → (∀ order ∈ placedOrders commands, order.orderId = id → order.amount = amount) →
    Kept id amount (filledFor id fills) after

theorem Accounted.idle {books : Books} (commands : List MatchCommand) (unfilled : AllUnfilled books) :
    Accounted books commands books [] := by
  refine ⟨unfilled, by simp, fun id amount total kept _ => kept, fun id amount absent _ => ?_⟩
  exact ⟨Nat.zero_le _, 0, fun position book found => ⟨.inl (absent position book found), fun _ => absent position book found⟩⟩

theorem Accounted.cons {books : Books} {command : MatchCommand} {commands : List MatchCommand} {book : OrderBook}
    {first later : List Fill} {final : Books} (fresh : FreshIds books (command :: commands))
    (accounts : Accounts ((books command.position).getD .new) book first command.order)
    (rest : Accounted (Function.update books command.position (some book)) commands final later) :
    Accounted books (command :: commands) final (first ++ later) := by
  have distinct := fresh.distinct
  rw [placedIds_cons, List.nodup_append] at distinct
  refine ⟨rest.unfilled, fun fill member => ?_, fun id amount total kept unplaced => ?_, fun id amount absent sized => ?_⟩
  · exact (List.mem_append.mp member).elim (accounts.positive fill) (rest.positive fill)
  · rw [placedIds_cons, List.mem_append, not_or] at unplaced
    have other : ∀ order, command.order = some order → order.orderId ≠ id := by
      intro order placed same
      subst same
      exact unplaced.1 (by simp [placed])
    have after := rest.kept id amount _ (kept.step accounts other) unplaced.2
    rwa [filledFor_append, ← Nat.add_assoc]
  · rw [filledFor_append]
    by_cases own : ∃ order, command.order = some order ∧ order.orderId = id
    · obtain ⟨order, placed, rfl⟩ := own
      have same : order.amount = amount := sized order (by simp [placedOrders, placed]) rfl
      have arrived := absent.arrives accounts placed
      rw [same] at arrived
      apply rest.kept order.orderId amount _ arrived
      intro again
      exact distinct.2.2 order.orderId (by simp [placed]) order.orderId again rfl
    · have other : ∀ order, command.order = some order → order.orderId ≠ id := fun order placed same =>
        own ⟨order, placed, same⟩
      obtain ⟨still, none⟩ := absent.step accounts other
      rw [none, Nat.zero_add]
      refine rest.placed id amount still fun order member => sized order ?_
      simp only [placedOrders, List.filterMap_cons] at member ⊢
      split
      · exact member
      · exact List.mem_cons_of_mem _ member

private theorem accounted_run {books : Books} {commands : List MatchCommand} (unfilled : AllUnfilled books)
    (covered : Covered books commands) (fresh : FreshIds books commands) :
    Accounted books commands (runMatcher books commands).1 (fillsOf (runMatcher books commands).2) := by
  induction commands generalizing books with
  | nil => exact .idle [] unfilled
  | cons command commands ih =>
    by_cases stop : command = .shutdown
    · subst stop
      exact .idle _ unfilled
    · obtain ⟨here, later⟩ : command.Covered books ∧ Covered (process books command).1 commands := by
        cases command <;> first | exact covered | exact absurd rfl stop
      have unfold_run : runMatcher books (command :: commands) = ((runMatcher (process books command).1 commands).1,
          (process books command).2.toList ++ (runMatcher (process books command).1 commands).2) := by
        cases command <;> first | rfl | exact absurd rfl stop
      rw [unfold_run, fillsOf, List.flatMap_append]
      rcases process_accounts unfilled here fresh with ⟨after, moved, accounts⟩ | ⟨same, none, idle⟩
      · rw [moved] at later ⊢
        exact .cons fresh accounts (ih (unfilled.step accounts) later (fresh.step accounts))
      · have ids : placedIds (command :: commands) = placedIds commands := by rw [placedIds_cons, idle]; rfl
        have orders : placedOrders (command :: commands) = placedOrders commands := by simp [placedOrders, idle]
        rw [same] at later ⊢
        have rest := ih unfilled later ⟨ids ▸ fresh.distinct, ids ▸ fresh.unused⟩
        rw [show (process books command).2.toList.flatMap MatchResult.fills = [] from none, List.nil_append]
        exact ⟨rest.unfilled, rest.positive, ids ▸ rest.kept, orders ▸ rest.placed⟩

theorem Covered.earlier {books : Books} {done commands : List MatchCommand} (covered : Covered books commands)
    (earlier : done <+: commands) : Covered books done := by
  induction done generalizing books commands with
  | nil => trivial
  | cons command done ih =>
    obtain ⟨rest, rfl⟩ := earlier
    cases command with
    | shutdown => trivial
    | _ => exact ⟨covered.1, ih covered.2 (List.prefix_append _ _)⟩

theorem Kept.remaining {id : OrderId} {amount : UInt64} {total : Nat} {books : Books} (kept : Kept id amount total books)
    {position : Uint256} {book : OrderBook} (found : books position = some book) {resting : RestingOrder}
    (member : resting ∈ book.resting) (own : resting.orderId = id) :
    resting.remaining.toNat = amount.toNat - total := by
  obtain ⟨within, home, held⟩ := kept
  have inside : resting ∈ withId id book.resting := List.mem_filter.mpr ⟨member, by simp [own]⟩
  rcases (held position book found).1 with none | ⟨order, one, sized, filled⟩
  · rw [none] at inside
    cases inside
  · rw [one] at inside
    rw [List.mem_singleton.mp inside, ← sized, ← filled]
    refine remaining_toNat (UInt64.le_iff_toNat_le.mpr ?_)
    rw [filled, sized]
    exact within

/-- In every run whose placed orders are covered, the account of each placed
order is right at every moment, and no fill is empty. -/
theorem fill_accounting {books : Books} {commands : List MatchCommand} (unfilled : AllUnfilled books)
    (fresh : FreshIds books commands) (covered : Covered books commands) :
    ∀ done, done <+: commands → (∀ fill ∈ fillsOf (runMatcher books done).2, fill.amount ≠ 0) ∧
      ∀ order ∈ placedOrders done,
        filledFor order.orderId (fillsOf (runMatcher books done).2) ≤ order.amount.toNat ∧
        ∀ position book, (runMatcher books done).1 position = some book →
          ∀ resting ∈ book.resting, resting.orderId = order.orderId → resting.remaining.toNat =
            order.amount.toNat - filledFor order.orderId (fillsOf (runMatcher books done).2) := by
  intro done earlier
  have freshDone := fresh.earlier earlier
  have accounted := accounted_run unfilled (covered.earlier earlier) freshDone
  refine ⟨accounted.positive, fun order placed => ?_⟩
  have ids : placedIds done = (placedOrders done).map RestingOrder.orderId := by
    simp only [placedIds, placedOrders, List.map_filterMap]
    rfl
  have distinct := freshDone.distinct
  rw [ids] at distinct
  have absent : Absent order.orderId books := freshDone.absent (ids ▸ List.mem_map_of_mem placed)
  have kept := accounted.placed order.orderId order.amount absent fun other member same =>
    congrArg RestingOrder.amount (List.inj_on_of_nodup_map distinct member placed same)
  exact ⟨kept.1, fun position book found resting member own => kept.remaining found member own⟩

namespace Sample

def noBooks : Books := fun _ => none

def stocked : Books := fun position => if position = 3 then
  some (OrderBook.new.insert ⟨101, 5, 500000, 100, 0, .sell, 0, 0, 5000⟩).2 else none

def double : MatchCommand := .placeOrder 1 3 102 6 510000 200 .buy 0 5000

end Sample

/-- An order placed into no books at all rests with nothing remaining. -/
theorem fill_accounting_fails : AllUnfilled Sample.noBooks ∧ FreshIds Sample.noBooks [Sample.sale] ∧
    ∃ order book resting, placedOrders [Sample.sale] = [order] ∧
      (runMatcher Sample.noBooks [Sample.sale]).1 3 = some book ∧ book.resting = [resting] ∧
      resting.orderId = order.orderId ∧ resting.remaining.toNat = 0 ∧
      order.amount.toNat - filledFor order.orderId (fillsOf (runMatcher Sample.noBooks [Sample.sale]).2) = 100 := by
  refine ⟨(fun _ _ found => nomatch found), ⟨by decide, (fun _ _ _ _ found => nomatch found)⟩, ?_⟩
  exact ⟨_, _, _, rfl, rfl, rfl, rfl, by decide, by decide⟩

/-- The hypotheses meet: half of the purchase is filled, and half of it rests. -/
theorem fill_accounting_sample : ∃ book resting, (runMatcher Sample.stocked [Sample.double]).1 3 = some book ∧
    book.resting = [resting] ∧ resting.remaining.toNat =
      200 - filledFor 102 (fillsOf (runMatcher Sample.stocked [Sample.double]).2) := by
  have unfilled : AllUnfilled Sample.stocked := by
    intro position book found
    unfold Sample.stocked at found
    split at found
    next =>
      cases found
      unfold Unfilled
      decide
    next => cases found
  have fresh : FreshIds Sample.stocked [Sample.double] := by
    refine ⟨by decide, fun id member position book found => ?_⟩
    obtain rfl : id = 102 := List.mem_singleton.mp member
    unfold Sample.stocked at found
    split at found
    next =>
      cases found
      decide
    next => cases found
  have covered : Covered Sample.stocked [Sample.double] := by
    refine ⟨fun order placed => ?_, trivial⟩
    cases placed
    exact .inr (by decide)
  obtain ⟨book, resting, found, rests⟩ : ∃ book resting, (runMatcher Sample.stocked [Sample.double]).1 3 = some book ∧
      book.resting = [resting] ∧ resting.orderId = 102 := ⟨_, _, rfl, rfl, rfl⟩
  obtain ⟨order, placed, own⟩ : ∃ order, placedOrders [Sample.double] = [order] ∧
      order.orderId = 102 ∧ order.amount = 200 := ⟨_, rfl, rfl, rfl⟩
  have account := (fill_accounting unfilled fresh covered _ (List.prefix_refl _)).2 order (by simp [placed])
  have remaining := account.2 3 book found resting (by simp [rests.1]) (rests.2.trans own.1.symm)
  rw [own.1, own.2] at remaining
  exact ⟨book, resting, found, rests.1, remaining⟩

end Omniscient.Gateway

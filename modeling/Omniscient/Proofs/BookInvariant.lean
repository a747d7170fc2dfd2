import Omniscient.Proofs.Matching

/-! The invariant of a book. Between the commands of the matcher no level is
empty, orders sit where they belong in the order they came, and the sides do not
cross. The engine prunes last, so until then a book is sound with empty levels. -/

namespace Omniscient.Gateway

def OrderBook.resting (book : OrderBook) : List RestingOrder :=
  ordersOf book.buys.entries ++ ordersOf book.sells.entries

def OrderBook.levels (book : OrderBook) : OrderSide → List Level
  | .buy => book.buys.entries
  | .sell => book.sells.entries

structure OrderBook.Valid (book : OrderBook) : Prop where
  nonempty : ∀ side, ∀ level ∈ book.levels side, level.2 ≠ []
  placed : ∀ side, ∀ level ∈ book.levels side, ∀ order ∈ level.2, order.side = side ∧ order.price = level.1
  queued : ∀ side, ∀ level ∈ book.levels side, (level.2.map RestingOrder.seq).Pairwise (· < ·) ∧
    ∀ order ∈ level.2, order.seq < book.nextSeq
  unique : (book.resting.map RestingOrder.orderId).Nodup
  within : ∀ order ∈ book.resting, order.filled ≤ order.amount
  uncrossed : ∀ bid ask, book.bestBid = some bid → book.bestAsk = some ask → bid < ask

structure Arranged (side : OrderSide) (nextSeq : UInt64) (levels : List Level) : Prop where
  placed : ∀ level ∈ levels, ∀ order ∈ level.2, order.side = side ∧ order.price = level.1
  queued : ∀ level ∈ levels, (level.2.map RestingOrder.seq).Pairwise (· < ·) ∧
    ∀ order ∈ level.2, order.seq < nextSeq
  within : ∀ order ∈ ordersOf levels, order.filled ≤ order.amount

structure OrderBook.Sound (book : OrderBook) : Prop where
  buys : Arranged .buy book.nextSeq book.buys.entries
  sells : Arranged .sell book.nextSeq book.sells.entries
  unique : (book.resting.map RestingOrder.orderId).Nodup
  uncrossed : ∀ bid ∈ ordersOf book.buys.entries, ∀ ask ∈ ordersOf book.sells.entries, bid.price < ask.price

theorem mem_ordersOf {levels : List Level} {order : RestingOrder} :
    order ∈ ordersOf levels ↔ ∃ level ∈ levels, order ∈ level.2 := List.mem_flatMap

theorem OrderBook.Valid.sound {book : OrderBook} (valid : book.Valid) : book.Sound := by
  have within (side : OrderSide) : ∀ order ∈ ordersOf (book.levels side), order.filled ≤ order.amount := by
    intro order member
    apply valid.within order
    cases side with
    | buy => exact List.mem_append_left _ member
    | sell => exact List.mem_append_right _ member
  have arranged (side : OrderSide) : Arranged side book.nextSeq (book.levels side) :=
    ⟨valid.placed side, valid.queued side, within side⟩
  refine ⟨arranged .buy, arranged .sell, valid.unique, fun bid onBuys ask onSells => ?_⟩
  obtain ⟨low, lowMember, inLow⟩ := mem_ordersOf.mp onBuys
  obtain ⟨high, highMember, inHigh⟩ := mem_ordersOf.mp onSells
  rw [(valid.placed .buy low lowMember bid inLow).2, (valid.placed .sell high highMember ask inHigh).2]
  obtain ⟨best, top⟩ : ∃ best, book.buys.lastKey? = some best := by
    cases found : book.buys.lastKey? with
    | some best => exact ⟨best, rfl⟩
    | none => simp_all [SortedMap.lastKey?]
  obtain ⟨cheapest, bottom⟩ : ∃ cheapest, book.sells.firstKey? = some cheapest := by
    cases found : book.sells.firstKey? with
    | some cheapest => exact ⟨cheapest, rfl⟩
    | none => simp_all [SortedMap.firstKey?]
  calc low.1 ≤ best := SortedMap.le_lastKey? top lowMember
    _ < cheapest := valid.uncrossed best cheapest top bottom
    _ ≤ high.1 := SortedMap.firstKey?_le bottom highMember

theorem Remains.mem {queue queue' : List RestingOrder} (remains : Remains queue queue') {order' : RestingOrder}
    (member : order' ∈ queue') : ∃ order ∈ queue, order'.terms = order.terms := by
  obtain ⟨order, before, survives⟩ := remains.survives order' member
  exact ⟨order, before, survives.terms⟩

theorem Remains.ids {queue queue' : List RestingOrder} (remains : Remains queue queue') :
    (queue'.map RestingOrder.orderId).Sublist (queue.map RestingOrder.orderId) := by
  simpa [Function.comp_def, RestingOrder.terms] using remains.terms.map RestingOrder.orderId

private theorem Remains.seqs {queue queue' : List RestingOrder} (remains : Remains queue queue') :
    (queue'.map RestingOrder.seq).Sublist (queue.map RestingOrder.seq) := by
  simpa [Function.comp_def, RestingOrder.terms] using remains.terms.map RestingOrder.seq

theorem terms_side {first second : RestingOrder} (same : first.terms = second.terms) : first.side = second.side :=
  show first.terms.side = second.terms.side by rw [same]

theorem terms_price {first second : RestingOrder} (same : first.terms = second.terms) : first.price = second.price :=
  show first.terms.price = second.terms.price by rw [same]

private theorem terms_seq {first second : RestingOrder} (same : first.terms = second.terms) : first.seq = second.seq :=
  show first.terms.seq = second.terms.seq by rw [same]

theorem Shrinks.ordersRemain {levels levels' : List Level} (shrinks : Shrinks Remains levels levels') :
    Remains (ordersOf levels) (ordersOf levels') :=
  shrinks.orders (fun _ => .of_sublist (List.nil_sublist _)) fun _ _ _ _ => .append

theorem Arranged.shrinks {side : OrderSide} {nextSeq : UInt64} {levels levels' : List Level}
    (arranged : Arranged side nextSeq levels) (shrinks : Shrinks Remains levels levels') : Arranged side nextSeq levels' := by
  refine ⟨fun level' member order' inside => ?_, fun level' member => ?_, fun order' inside => ?_⟩
  · obtain ⟨queue, before, remains⟩ := shrinks.level level' member
    obtain ⟨order, old, same⟩ := remains.mem inside
    rw [terms_side same, terms_price same]
    exact arranged.placed _ before order old
  · obtain ⟨queue, before, remains⟩ := shrinks.level level' member
    obtain ⟨increasing, bounded⟩ := arranged.queued _ before
    refine ⟨increasing.sublist remains.seqs, fun order' inside => ?_⟩
    obtain ⟨order, old, same⟩ := remains.mem inside
    rw [terms_seq same]
    exact bounded order old
  · obtain ⟨order, old, survives⟩ := shrinks.ordersRemain.survives order' inside
    exact survives.within (arranged.within order old)

theorem BookShrinks.resting {book book' : OrderBook} (shrinks : BookShrinks Remains book book') :
    Remains book.resting book'.resting := shrinks.buys.ordersRemain.append shrinks.sells.ordersRemain

theorem OrderBook.Sound.shrinks {book book' : OrderBook} (sound : book.Sound) (shrinks : BookShrinks Remains book book') :
    book'.Sound := by
  refine ⟨?_, ?_, sound.unique.sublist shrinks.resting.ids, fun bid onBuys ask onSells => ?_⟩
  · rw [shrinks.nextSeq]
    exact sound.buys.shrinks shrinks.buys
  · rw [shrinks.nextSeq]
    exact sound.sells.shrinks shrinks.sells
  · obtain ⟨oldBid, bidBefore, sameBid⟩ := shrinks.buys.ordersRemain.mem onBuys
    obtain ⟨oldAsk, askBefore, sameAsk⟩ := shrinks.sells.ordersRemain.mem onSells
    rw [terms_price sameBid, terms_price sameAsk]
    exact sound.uncrossed oldBid bidBefore oldAsk askBefore

theorem resting_prune (book : OrderBook) : book.prune.resting = book.resting := by
  have kept (levels : List Level) : ordersOf (levels.filter fun level => !level.2.isEmpty) = ordersOf levels := by
    induction levels with
    | nil => rfl
    | cons level levels ih =>
      obtain ⟨price, queue⟩ := level
      cases queue with
      | nil => exact ih
      | cons order queue => exact congrArg (order :: queue ++ ·) ih
  exact congrArg₂ (· ++ ·) (kept book.buys.entries) (kept book.sells.entries)

theorem OrderBook.Sound.prune {book : OrderBook} (sound : book.Sound) : book.prune.Valid := by
  have pruned := sound.shrinks (prune_shrinks book).remains
  have nonempty (side : OrderSide) (level : Level) (member : level ∈ book.prune.levels side) : level.2 ≠ [] := by
    cases side <;> simp_all [OrderBook.levels, OrderBook.prune, SortedMap.retain, SortedMap.narrow]
  refine ⟨nonempty, fun side => ?_, fun side => ?_, pruned.unique, fun order member => ?_, ?_⟩
  · cases side with
    | buy => exact pruned.buys.placed
    | sell => exact pruned.sells.placed
  · cases side with
    | buy => exact pruned.buys.queued
    | sell => exact pruned.sells.queued
  · rcases List.mem_append.mp member with onBuys | onSells
    · exact pruned.buys.within order onBuys
    · exact pruned.sells.within order onSells
  · intro bid ask top bottom
    obtain ⟨buyers, bidLevel⟩ := SortedMap.lastKey?_mem top
    obtain ⟨sellers, askLevel⟩ := SortedMap.firstKey?_mem bottom
    obtain ⟨buyer, inBuyers⟩ := List.exists_mem_of_ne_nil _ (nonempty .buy _ bidLevel)
    obtain ⟨seller, inSellers⟩ := List.exists_mem_of_ne_nil _ (nonempty .sell _ askLevel)
    have apart := pruned.uncrossed buyer (mem_ordersOf.mpr ⟨_, bidLevel, inBuyers⟩)
      seller (mem_ordersOf.mpr ⟨_, askLevel, inSellers⟩)
    rwa [(pruned.buys.placed _ bidLevel buyer inBuyers).2, (pruned.sells.placed _ askLevel seller inSellers).2] at apart

def OrderBook.opposite (book : OrderBook) : OrderSide → List Level
  | .buy => book.sells.entries
  | .sell => book.buys.entries.reverse

def crosses (order : RestingOrder) (price : UInt64) : Bool :=
  match order.side with
  | .buy => price ≤ order.price
  | .sell => order.price ≤ price

def OrderBook.incoming (book : OrderBook) (order : RestingOrder) : Matched (List Level) :=
  matchLevels ⟨order.orderId, order.maker, order.side⟩ (crosses order) (book.opposite order.side) order.amount

theorem matchOrder_eq (book : OrderBook) (order : RestingOrder) :
    (book.matchOrder order).1 = (book.incoming order).fills ∧
    (book.matchOrder order).2.1 = decide ((book.incoming order).remaining = 0) ∧
    (book.matchOrder order).2.2.opposite order.side = (book.incoming order).left ∧
    BookShrinks Remains book (book.matchOrder order).2.2 := by
  unfold OrderBook.matchOrder OrderBook.incoming
  have sameCrosses : crosses order = fun price => match order.side with
    | .buy => decide (price ≤ order.price)
    | .sell => decide (order.price ≤ price) := by
    funext price
    unfold crosses
    cases order.side <;> rfl
  rw [sameCrosses]
  cases order.side with
  | buy => exact ⟨rfl, rfl, rfl, matchBuy_shrinks ..⟩
  | sell => exact ⟨rfl, rfl, List.reverse_reverse _, matchSell_shrinks ..⟩

theorem opposite_priority (book : OrderBook) (order : RestingOrder) : (book.opposite order.side).Pairwise
    fun first second => crosses order second.1 = true → crosses order first.1 = true := by
  unfold crosses OrderBook.opposite
  cases order.side with
  | buy =>
    have sorted := List.pairwise_map.mp book.sells.sorted
    refine sorted.imp fun ahead reached => ?_
    simp only [decide_eq_true_eq] at reached ⊢
    exact ahead.le.trans reached
  | sell =>
    have sorted := List.pairwise_map.mp book.buys.sorted
    refine List.pairwise_reverse.mpr (sorted.imp fun ahead reached => ?_)
    simp only [decide_eq_true_eq] at reached ⊢
    exact reached.trans ahead.le

private theorem matchOrder_uncrossed (book : OrderBook) (order : RestingOrder)
    (unsatisfied : (book.incoming order).remaining ≠ 0) :
    ∀ level ∈ (book.incoming order).left, crosses order level.1 = false :=
  matchLevels_stops (opposite_priority book order) unsatisfied

/-- The u64 sum of the fills is their sum, and what the engine subtracts leaves
the taker's remainder. -/
private theorem incoming_filled (book : OrderBook) (order : RestingOrder) :
    order.amount - ((book.incoming order).fills.map Fill.amount).sum = (book.incoming order).remaining := by
  have total : filledBy (book.incoming order).fills + (book.incoming order).remaining.toNat = order.amount.toNat :=
    matchLevels_total ..
  have bound := order.amount.toNat_lt
  have exact (fills : List Fill) (small : filledBy fills < 2 ^ 64) :
      (fills.map Fill.amount).sum.toNat = filledBy fills := by
    induction fills with
    | nil => rfl
    | cons fill fills ih =>
      rw [filledBy_cons] at small ⊢
      rw [List.map_cons, List.sum_cons, UInt64.toNat_add, ih (by omega)]
      exact Nat.mod_eq_of_lt small
  have sum := exact (book.incoming order).fills (by omega)
  apply UInt64.toNat_inj.mp
  rw [UInt64.toNat_sub_of_le _ _ (UInt64.le_iff_toNat_le.mpr (by omega)), sum]
  omega

/-- What placing an order does: match it, and rest what is not filled, with the
unfilled amount recorded as filled. -/
theorem place_cases (book : OrderBook) (marketId : MarketId) (order : RestingOrder) :
    (book.place marketId order).2.fills = (book.incoming order).fills ∧
    (((book.incoming order).remaining = 0 ∧ (book.place marketId order).2.resting = none ∧
        (book.place marketId order).1 = (book.matchOrder order).2.2.prune) ∨
      ((book.incoming order).remaining ≠ 0 ∧ ∃ resting,
        resting = { order with filled := (book.incoming order).remaining, seq := 0 } ∧
        (book.place marketId order).2.resting = some ((book.matchOrder order).2.2.insert resting).1 ∧
        (book.place marketId order).1 = ((book.matchOrder order).2.2.insert resting).2.prune)) := by
  obtain ⟨fills, satisfied, -, -⟩ := matchOrder_eq book order
  have filled := incoming_filled book order
  unfold OrderBook.place
  simp only [fills, satisfied, filled]
  by_cases zero : (book.incoming order).remaining = 0
  · simp [zero]
  · simp [zero]

def RestingOrder.numbered (order : RestingOrder) (seq : UInt64) : RestingOrder := { order with seq }

theorem insert_buy {book : OrderBook} {order : RestingOrder} (buy : order.side = .buy) :
    (book.insert order).2 = { book with
      nextSeq := book.nextSeq + 1
      buys := book.buys.upsert order.price fun level => level.getD [] ++ [order.numbered book.nextSeq] } := by
  simp only [OrderBook.insert, buy, RestingOrder.numbered]

theorem insert_sell {book : OrderBook} {order : RestingOrder} (sell : order.side = .sell) :
    (book.insert order).2 = { book with
      nextSeq := book.nextSeq + 1
      sells := book.sells.upsert order.price fun level => level.getD [] ++ [order.numbered book.nextSeq] } := by
  simp only [OrderBook.insert, sell, RestingOrder.numbered]

theorem ordersOf_upsert (price : UInt64) (order : RestingOrder) (levels : List Level) :
    (ordersOf (SortedMap.upsertIn price (fun level => level.getD [] ++ [order]) levels)).Perm
      (order :: ordersOf levels) := by
  induction levels with
  | nil => exact .refl _
  | cons level levels ih =>
    obtain ⟨other, queue⟩ := level
    simp only [SortedMap.upsertIn]
    split
    next => exact .refl _
    next =>
      split
      next =>
        simp only [ordersOf, List.flatMap_cons, Option.getD_some, List.append_assoc, List.cons_append, List.nil_append]
        exact List.perm_middle
      next =>
        have later := ih.append_left queue
        exact later.trans List.perm_middle

theorem Arranged.insert {side : OrderSide} {nextSeq : UInt64} {levels : List Level} {order : RestingOrder}
    (arranged : Arranged side nextSeq levels) (room : nextSeq.toNat + 1 < 2 ^ 64) (own : order.side = side)
    (numbered : order.seq = nextSeq) (within : order.filled ≤ order.amount) :
    Arranged side (nextSeq + 1)
      (SortedMap.upsertIn order.price (fun level => level.getD [] ++ [order]) levels) := by
  have next : nextSeq < nextSeq + 1 := by
    rw [UInt64.lt_iff_toNat_lt, UInt64.toNat_add]
    exact lt_of_lt_of_eq (Nat.lt_succ_self _) (Nat.mod_eq_of_lt room).symm
  refine ⟨fun level member => ?_, fun level member => ?_, fun other member => ?_⟩
  · rcases SortedMap.mem_upsertIn member with rfl | ⟨queue, before, rfl⟩ | before
    · simpa using own
    · intro other inside
      rcases List.mem_append.mp inside with old | new
      · exact arranged.placed _ before other old
      · rw [List.mem_singleton.mp new]
        exact ⟨own, rfl⟩
    · exact arranged.placed level before
  · rcases SortedMap.mem_upsertIn member with rfl | ⟨queue, before, rfl⟩ | before
    · simpa [numbered] using next
    · obtain ⟨increasing, bounded⟩ := arranged.queued _ before
      constructor
      · simp only [Option.getD_some, List.map_append, List.map_cons, List.map_nil]
        refine List.pairwise_append.mpr ⟨increasing, List.pairwise_singleton _ _, fun seq old new latest => ?_⟩
        obtain ⟨other, inside, rfl⟩ := List.mem_map.mp old
        rw [List.mem_singleton.mp latest, numbered]
        exact bounded other inside
      · intro other inside
        rcases List.mem_append.mp inside with old | new
        · exact (bounded other old).trans next
        · rw [List.mem_singleton.mp new, numbered]
          exact next
    · obtain ⟨increasing, bounded⟩ := arranged.queued _ before
      exact ⟨increasing, fun other inside => (bounded other inside).trans next⟩
  · rcases List.mem_cons.mp ((ordersOf_upsert order.price order levels).mem_iff.mp member) with rfl | before
    · exact within
    · exact arranged.within other before

theorem Arranged.later {side : OrderSide} {nextSeq : UInt64} {levels : List Level}
    (arranged : Arranged side nextSeq levels) (room : nextSeq.toNat + 1 < 2 ^ 64) :
    Arranged side (nextSeq + 1) levels := by
  have next : nextSeq < nextSeq + 1 := by
    rw [UInt64.lt_iff_toNat_lt, UInt64.toNat_add]
    exact lt_of_lt_of_eq (Nat.lt_succ_self _) (Nat.mod_eq_of_lt room).symm
  refine ⟨arranged.placed, fun level member => ?_, arranged.within⟩
  obtain ⟨increasing, bounded⟩ := arranged.queued level member
  exact ⟨increasing, fun other inside => (bounded other inside).trans next⟩

theorem resting_insert (book : OrderBook) (order : RestingOrder) :
    (book.insert order).2.resting.Perm (order.numbered book.nextSeq :: book.resting) := by
  have placed (levels : List Level) := ordersOf_upsert order.price (order.numbered book.nextSeq) levels
  cases side : order.side with
  | buy =>
    rw [insert_buy side]
    exact (placed _).append_right _
  | sell =>
    rw [insert_sell side]
    exact ((placed _).append_left _).trans List.perm_middle

theorem OrderBook.Sound.insert {book : OrderBook} {order : RestingOrder} (sound : book.Sound)
    (room : book.nextSeq.toNat + 1 < 2 ^ 64) (fresh : order.orderId ∉ book.resting.map RestingOrder.orderId)
    (within : order.filled ≤ order.amount)
    (apart : ∀ level ∈ book.opposite order.side, crosses order level.1 = false) : (book.insert order).2.Sound := by
  have unique : ((book.insert order).2.resting.map RestingOrder.orderId).Nodup := by
    rw [((resting_insert book order).map RestingOrder.orderId).nodup_iff]
    exact List.nodup_cons.mpr ⟨fresh, sound.unique⟩
  have placed (levels : List Level) := ordersOf_upsert order.price (order.numbered book.nextSeq) levels
  have arranged {side : OrderSide} {levels : List Level} (own : order.side = side)
      (before : Arranged side book.nextSeq levels) :=
    @Arranged.insert side book.nextSeq levels (order.numbered book.nextSeq) before room own rfl within
  cases side : order.side with
  | buy =>
    rw [insert_buy side] at unique ⊢
    refine ⟨arranged side sound.buys, sound.sells.later room, unique, fun bid onBuys ask onSells => ?_⟩
    rcases List.mem_cons.mp ((placed _).mem_iff.mp onBuys) with rfl | before
    · obtain ⟨level, member, inside⟩ := mem_ordersOf.mp onSells
      have beyond := apart level (by rw [side]; exact member)
      rw [(sound.sells.placed level member ask inside).2]
      simp only [crosses, side, decide_eq_false_iff_not] at beyond
      exact not_le.mp beyond
    · exact sound.uncrossed bid before ask onSells
  | sell =>
    rw [insert_sell side] at unique ⊢
    refine ⟨sound.buys.later room, arranged side sound.sells, unique, fun bid onBuys ask onSells => ?_⟩
    rcases List.mem_cons.mp ((placed _).mem_iff.mp onSells) with rfl | before
    · obtain ⟨level, member, inside⟩ := mem_ordersOf.mp onBuys
      have beyond := apart level (by rw [side]; exact List.mem_reverse.mpr member)
      rw [(sound.buys.placed level member bid inside).2]
      simp only [crosses, side, decide_eq_false_iff_not] at beyond
      exact not_le.mp beyond
    · exact sound.uncrossed bid onBuys ask before

theorem new_valid : OrderBook.new.Valid := by
  have none (side : OrderSide) : OrderBook.new.levels side = [] := by cases side <;> rfl
  refine ⟨?_, ?_, ?_, List.nodup_nil, by simp [OrderBook.new, OrderBook.resting, SortedMap.empty, ordersOf], ?_⟩
  · simp [none]
  · simp [none]
  · simp [none]
  · intro bid ask top
    cases top

/-- What one command may do to a book, for the commands still to come. -/
structure Advances (book after : OrderBook) (placed : Option OrderId) : Prop where
  valid : after.Valid
  nextSeq : after.nextSeq.toNat ≤ book.nextSeq.toNat + 1
  ids : ∀ id ∈ after.resting.map RestingOrder.orderId, some id = placed ∨ id ∈ book.resting.map RestingOrder.orderId

theorem Advances.shrinks {book after : OrderBook} (valid : book.Valid) (shrinks : BookShrinks Remains book after) :
    Advances book after.prune none := by
  have pruned := (prune_shrinks after).remains
  refine ⟨(valid.sound.shrinks shrinks).prune, ?_, fun id member => .inr ?_⟩
  · rw [pruned.nextSeq, shrinks.nextSeq]
    exact Nat.le_succ _
  · exact shrinks.resting.ids.subset (pruned.resting.ids.subset member)

private theorem place_advances {book : OrderBook} {order : RestingOrder} (valid : book.Valid) (marketId : MarketId)
    (room : book.nextSeq.toNat + 1 < 2 ^ 64) (fresh : order.orderId ∉ book.resting.map RestingOrder.orderId) :
    Advances book (book.place marketId order).1 (some order.orderId) := by
  obtain ⟨-, -, opposite, shrinks⟩ := matchOrder_eq book order
  obtain ⟨-, ⟨-, -, settled⟩ | ⟨unsatisfied, resting, made, -, settled⟩⟩ := place_cases book marketId order
  · have advances := Advances.shrinks valid shrinks
    rw [settled]
    exact ⟨advances.valid, advances.nextSeq, fun id member => .inr ((advances.ids id member).resolve_left nofun)⟩
  · have matched := valid.sound.shrinks shrinks
    have total : filledBy (book.incoming order).fills + (book.incoming order).remaining.toNat = order.amount.toNat :=
      matchLevels_total ..
    have within : resting.filled ≤ resting.amount := by
      rw [made, UInt64.le_iff_toNat_le]
      dsimp only
      omega
    have sameSide : resting.side = order.side := by rw [made]
    have sameId : resting.orderId = order.orderId := by rw [made]
    have sound := @OrderBook.Sound.insert _ resting matched (by rw [shrinks.nextSeq]; exact room)
      (by rw [sameId]; exact fun inside => fresh (shrinks.resting.ids.subset inside)) within (by
        rw [sameSide, opposite, made]
        exact matchOrder_uncrossed book order unsatisfied)
    have pruned := (prune_shrinks ((book.matchOrder order).2.2.insert resting).2).remains
    rw [settled]
    refine ⟨sound.prune, ?_, fun id member => ?_⟩
    · have counted : ((book.matchOrder order).2.2.insert resting).2.nextSeq = book.nextSeq + 1 := by
        rw [← shrinks.nextSeq]
        cases side : resting.side with
        | buy => rw [insert_buy side]
        | sell => rw [insert_sell side]
      rw [pruned.nextSeq, counted, UInt64.toNat_add]
      exact Nat.mod_le _ _
    · have inside := pruned.resting.ids.subset member
      rw [((resting_insert _ resting).map RestingOrder.orderId).mem_iff] at inside
      rcases List.mem_cons.mp inside with rfl | before
      · exact .inl (congrArg some sameId)
      · exact .inr (shrinks.resting.ids.subset before)

def MatchCommand.order : MatchCommand → Option RestingOrder
  | .placeOrder _ _ orderId maker price amount side nonce deadline =>
    some { orderId, maker, price, amount, filled := 0, side, seq := 0, nonce, deadline }
  | _ => none

def MatchCommand.placedId (command : MatchCommand) : Option OrderId := command.order.map RestingOrder.orderId

def placedIds (commands : List MatchCommand) : List OrderId := commands.filterMap MatchCommand.placedId

/-- Placed ids are new, to the books and to each other. -/
structure FreshIds (books : Books) (commands : List MatchCommand) : Prop where
  distinct : (placedIds commands).Nodup
  unused : ∀ id ∈ placedIds commands, ∀ position book, books position = some book →
    id ∉ book.resting.map RestingOrder.orderId

/-- Valid books that have numbers and ids left for the commands. -/
structure Matchable (books : Books) (commands : List MatchCommand) : Prop where
  valid : ∀ position book, books position = some book → book.Valid
  room : ∀ position, ((books position).getD .new).nextSeq.toNat + commands.length < 2 ^ 64
  fresh : FreshIds books commands

theorem book_at {books : Books} {kept : Uint256 → OrderBook → Prop}
    (held : ∀ place book, books place = some book → kept place book) (position : Uint256) (new : kept position .new) :
    kept position ((books position).getD .new) := by
  cases found : books position with
  | none => exact new
  | some book => exact held position book found

theorem book_replaced {books : Books} {kept : Uint256 → OrderBook → Prop} {position : Uint256} {after : OrderBook}
    (here : kept position after)
    (others : ∀ place book, place ≠ position → books place = some book → kept place book) :
    ∀ place book, Function.update books position (some after) place = some book → kept place book := by
  intro place book found
  by_cases own : place = position
  · subst own
    rw [Function.update_self] at found
    cases found
    exact here
  · rw [Function.update_of_ne own] at found
    exact others place book own found

theorem Matchable.book {books : Books} {commands : List MatchCommand} (ready : Matchable books commands)
    (position : Uint256) : ((books position).getD .new).Valid :=
  @book_at books (fun _ book => book.Valid) ready.valid position new_valid

theorem Matchable.advance {books : Books} {command : MatchCommand} {commands : List MatchCommand}
    (ready : Matchable books (command :: commands)) {position : Uint256} {after : OrderBook}
    (advances : Advances ((books position).getD .new) after command.placedId) :
    Matchable (Function.update books position (some after)) commands := by
  have later (id : OrderId) (member : id ∈ placedIds commands) :
      id ∈ placedIds (command :: commands) ∧ some id ≠ command.placedId := by
    have distinct := ready.fresh.distinct
    cases placed : command.placedId with
    | none => exact ⟨by simpa [placedIds, placed] using member, nofun⟩
    | some own =>
      simp only [placedIds, List.filterMap_cons, placed, List.nodup_cons] at distinct ⊢
      refine ⟨List.mem_cons_of_mem _ member, fun same => ?_⟩
      cases same
      exact distinct.1 member
  refine ⟨fun other book found => ?_, fun other => ?_, ?_, fun id member other book found inside => ?_⟩
  · exact @book_replaced books (fun _ book => book.Valid) position after advances.valid
      (fun place book _ => ready.valid place book) other book found
  · have room := ready.room other
    simp only [List.length_cons] at room
    by_cases here : other = position
    · subst here
      rw [Function.update_self]
      have counted := advances.nextSeq
      simp only [Option.getD_some]
      omega
    · rw [Function.update_of_ne here]
      omega
  · have distinct := ready.fresh.distinct
    cases placed : command.placedId with
    | none => simpa [placedIds, placed] using distinct
    | some own =>
      simp only [placedIds, List.filterMap_cons, placed, List.nodup_cons] at distinct
      exact distinct.2
  · obtain ⟨listed, different⟩ := later id member
    by_cases here : other = position
    · subst here
      rw [Function.update_self] at found
      cases found
      have before := (advances.ids id inside).resolve_left different
      cases existing : books other with
      | none => simp [existing, OrderBook.new, OrderBook.resting, SortedMap.empty, ordersOf] at before
      | some old =>
        rw [existing] at before
        exact ready.fresh.unused id listed other old existing before
    · rw [Function.update_of_ne here] at found
      exact ready.fresh.unused id listed other book found inside

theorem Matchable.process {books : Books} {command : MatchCommand} {commands : List MatchCommand}
    (ready : Matchable books (command :: commands)) : Matchable (process books command).1 commands := by
  have idle (nothing : command.placedId = none) : Matchable books commands := by
    have ids : placedIds (command :: commands) = placedIds commands := by simp [placedIds, nothing]
    refine ⟨ready.valid, fun position => ?_, ids ▸ ready.fresh.distinct, ids ▸ ready.fresh.unused⟩
    have room := ready.room position
    simp only [List.length_cons] at room
    omega
  cases command with
  | placeOrder marketId positionId orderId maker price amount side nonce deadline =>
    refine ready.advance (place_advances (ready.book positionId) marketId ?_ ?_)
    · have room := ready.room positionId
      simp only [List.length_cons] at room
      omega
    · cases found : books positionId with
      | none => simp [OrderBook.new, OrderBook.resting, SortedMap.empty, ordersOf]
      | some book => exact ready.fresh.unused orderId (by simp [placedIds, MatchCommand.placedId, MatchCommand.order]) positionId book found
  | cancelOrder positionId orderId =>
    simp only [Gateway.process]
    split
    next book found =>
      have valid := ready.valid positionId book found
      exact ready.advance (by rw [found]; exact .shrinks valid (cancel_shrinks book orderId).remains)
    next => exact idle rfl
  | cancelAll marketId positionId maker =>
    simp only [Gateway.process]
    split
    next book found =>
      have valid := ready.valid positionId book found
      exact ready.advance (by rw [found]; exact .shrinks valid (cancelAll_shrinks book maker).remains)
    next => exact idle rfl
  | shutdown => exact idle rfl

theorem Matchable.run {books : Books} {commands : List MatchCommand} (ready : Matchable books commands) :
    ∀ position book, (runMatcher books commands).1 position = some book → book.Valid := by
  induction commands generalizing books with
  | nil => exact ready.valid
  | cons command commands ih =>
    cases command with
    | shutdown => exact ready.valid
    | _ => exact ih ready.process

theorem FreshIds.earlier {books : Books} {done commands : List MatchCommand} (fresh : FreshIds books commands)
    (earlier : done <+: commands) : FreshIds books done := by
  have ids : (placedIds done).Sublist (placedIds commands) := earlier.sublist.filterMap _
  exact ⟨fresh.distinct.sublist ids, fun id member => fresh.unused id (ids.subset member)⟩

theorem Matchable.earlier {books : Books} {done commands : List MatchCommand} (ready : Matchable books commands)
    (earlier : done <+: commands) : Matchable books done := by
  refine ⟨ready.valid, fun position => ?_, ready.fresh.earlier earlier⟩
  have room := ready.room position
  have shorter := earlier.length_le
  omega

/-- The books are valid after every command, from valid books whose sequence
numbers do not run out on the way. -/
theorem books_valid {books : Books} {commands : List MatchCommand}
    (valid : ∀ position book, books position = some book → book.Valid)
    (room : ∀ position, ((books position).getD .new).nextSeq.toNat + commands.length < 2 ^ 64)
    (fresh : FreshIds books commands) :
    ∀ done, done <+: commands → ∀ position book, (runMatcher books done).1 position = some book → book.Valid :=
  fun _ earlier => (Matchable.earlier ⟨valid, room, fresh⟩ earlier).run

namespace Sample

def sale : MatchCommand := .placeOrder 1 3 101 5 500000 100 .sell 0 5000
def purchase : MatchCommand := .placeOrder 1 3 102 6 510000 150 .buy 0 5000

theorem sale_valid {book : OrderBook} (found : (runMatcher (fun _ => none) [sale]).1 3 = some book) : book.Valid := by
  have ready : Matchable (fun _ => none) [sale] := by
    refine ⟨?_, fun position => by decide, by decide, ?_⟩
    · intro position book none
      cases none
    · intro _ _ _ _ none
      cases none
  exact ready.run 3 book found

def exhausted : Books := fun position => if position = 3 then some { OrderBook.new with nextSeq := 18446744073709551615 } else none

end Sample

/-- Without room the counter wraps, and a resting order is not below it. -/
theorem books_valid_needs_room : ∃ books commands, (∀ position book, books position = some book → book.Valid) ∧
    FreshIds books commands ∧ commands.length < 2 ^ 64 ∧
    ¬ ∀ position book, (runMatcher books commands).1 position = some book → book.Valid := by
  have valid : ∀ position book, Sample.exhausted position = some book → book.Valid := by
    intro position book found
    unfold Sample.exhausted at found
    split at found
    next =>
      cases found
      have none (side : OrderSide) :
          ({ OrderBook.new with nextSeq := 18446744073709551615 } : OrderBook).levels side = [] := by
        cases side <;> rfl
      exact ⟨by simp [none], by simp [none], by simp [none], new_valid.unique, new_valid.within, new_valid.uncrossed⟩
    next => cases found
  have fresh : FreshIds Sample.exhausted [Sample.sale] := by
    refine ⟨by decide, fun id _ position book found => ?_⟩
    unfold Sample.exhausted at found
    split at found
    next =>
      cases found
      exact List.not_mem_nil
    next => cases found
  refine ⟨Sample.exhausted, [Sample.sale], valid, fresh, by decide, fun after => ?_⟩
  obtain ⟨book, found⟩ : ∃ book, (runMatcher Sample.exhausted [Sample.sale]).1 3 = some book := ⟨_, rfl⟩
  have broken := (after 3 book found).queued .sell
  cases found
  have below := (broken (500000, [_]) (List.mem_singleton.mpr rfl)).2 _ (List.mem_singleton.mpr rfl)
  exact absurd below (by decide)

/-- The hypotheses meet: from no books, a sale and a larger purchase. -/
theorem books_valid_sample : ∃ book, (runMatcher (fun _ => none) [Sample.sale, Sample.purchase]).1 3 = some book ∧
    book.Valid := by
  obtain ⟨book, found⟩ : ∃ book, (runMatcher (fun _ => none) [Sample.sale, Sample.purchase]).1 3 = some book :=
    ⟨_, rfl⟩
  refine ⟨book, found, books_valid ?_ ?_ ?_ _ (List.prefix_refl _) 3 book found⟩
  · intro position book none
    cases none
  · intro position
    decide
  · exact ⟨by decide, (fun _ _ _ _ none => nomatch none)⟩

end Omniscient.Gateway

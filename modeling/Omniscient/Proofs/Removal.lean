import Omniscient.Proofs.BookInvariant

/-! Removed orders leave no trace. With distinct ids a cancellation filters every queue,
so a book after any removals is the book that never had the removed orders, but for the
empty levels, and pruning drops those. -/

namespace Omniscient.Gateway

inductive BookCall where
  | insert (order : RestingOrder)
  | matchBuy (takerOrderId : OrderId) (taker : Address) (price amount : UInt64)
  | matchSell (takerOrderId : OrderId) (taker : Address) (price amount : UInt64)
  | cancel (orderId : OrderId)
  | cancelAll (maker : Address)
  deriving DecidableEq

inductive BookAnswer where
  | inserted (order : RestingOrder)
  | matched (fills : List Fill) (fullyFilled : Bool)
  | found (was : Bool)
  | removed (ids : List OrderId)
  deriving DecidableEq

def OrderBook.call (book : OrderBook) : BookCall → BookAnswer × OrderBook
  | .insert order =>
    let (order, book) := book.insert order
    (.inserted order, book)
  | .matchBuy takerOrderId taker price amount =>
    let (fills, fullyFilled, book) := book.matchBuy takerOrderId taker price amount
    (.matched fills fullyFilled, book)
  | .matchSell takerOrderId taker price amount =>
    let (fills, fullyFilled, book) := book.matchSell takerOrderId taker price amount
    (.matched fills fullyFilled, book)
  | .cancel orderId =>
    let (was, book) := book.cancel orderId
    (.found was, book)
  | .cancelAll maker =>
    let (ids, book) := book.cancelAll maker
    (.removed ids, book)

/-- Calls one after another: their answers, and the book they leave. -/
def OrderBook.calls (book : OrderBook) : List BookCall → List BookAnswer × OrderBook
  | [] => ([], book)
  | call :: calls =>
    let (answer, book) := book.call call
    let (answers, book) := book.calls calls
    (answer :: answers, book)

/-- A call that removes orders, and the orders it is meant for. -/
inductive Removal where
  | cancel (orderId : OrderId)
  | cancelAll (maker : Address)
  deriving DecidableEq

def Removal.call : Removal → BookCall
  | .cancel orderId => .cancel orderId
  | .cancelAll maker => .cancelAll maker

def Removal.covers (order : RestingOrder) : Removal → Bool
  | .cancel orderId => order.orderId = orderId
  | .cancelAll maker => order.maker = maker

def covered (removals : List Removal) (order : RestingOrder) : Bool := removals.any (Removal.covers order)

def OrderBook.strip (book : OrderBook) (gone : RestingOrder → Bool) : OrderBook :=
  { book with
    buys := book.buys.mapValues (List.filter fun order => !gone order)
    sells := book.sells.mapValues (List.filter fun order => !gone order) }

/-- The book that never had certain orders: each queue without them, and no level without orders. -/
def OrderBook.without (book : OrderBook) (gone : RestingOrder → Bool) : OrderBook :=
  let left (side : SortedMap UInt64 (List RestingOrder)) :=
    (side.mapValues (List.filter fun order => !gone order)).retain fun queue => !queue.isEmpty
  { book with buys := left book.buys, sells := left book.sells }

def stripLevels (gone : RestingOrder → Bool) (levels : List Level) : List Level :=
  levels.map fun level => (level.1, level.2.filter fun order => !gone order)

variable {orderId : OrderId}

theorem filter_id_self {queue : List RestingOrder} (absent : orderId ∉ queue.map RestingOrder.orderId) :
    (queue.filter fun order => !decide (order.orderId = orderId)) = queue := by
  refine List.filter_eq_self.mpr fun order member => ?_
  have other : order.orderId ≠ orderId := fun same => absent (same ▸ List.mem_map_of_mem member)
  simpa using other

private theorem eraseP_filter {queue : List RestingOrder} (distinct : (queue.map RestingOrder.orderId).Nodup) :
    queue.eraseP (·.orderId = orderId) = queue.filter fun order => !decide (order.orderId = orderId) := by
  induction queue with
  | nil => rfl
  | cons order queue ih =>
    obtain ⟨fresh, rest⟩ := List.nodup_cons.mp distinct
    by_cases own : order.orderId = orderId
    · subst own
      rw [List.eraseP_cons_of_pos (by simp), List.filter_cons_of_neg (by simp), filter_id_self fresh]
    · rw [List.eraseP_cons_of_neg (by simpa using own), List.filter_cons_of_pos (by simpa using own), ih rest]

theorem stripLevels_id_self {levels : List Level} (absent : orderId ∉ (ordersOf levels).map RestingOrder.orderId) :
    stripLevels (·.orderId = orderId) levels = levels := by
  refine (List.map_congr_left fun level member => ?_).trans (List.map_id' levels)
  rw [filter_id_self]
  intro inside
  obtain ⟨order, among, own⟩ := List.mem_map.mp inside
  exact absent (List.mem_map.mpr ⟨order, mem_ordersOf.mpr ⟨level, member, among⟩, own⟩)

theorem cancelIn_strips {levels : List Level} (distinct : ((ordersOf levels).map RestingOrder.orderId).Nodup) :
    cancelIn orderId levels =
      if orderId ∈ (ordersOf levels).map RestingOrder.orderId then some (stripLevels (·.orderId = orderId) levels) else none := by
  induction levels with
  | nil => rfl
  | cons level levels ih =>
    obtain ⟨price, queue⟩ := level
    have split : (ordersOf ((price, queue) :: levels)).map RestingOrder.orderId =
        queue.map RestingOrder.orderId ++ (ordersOf levels).map RestingOrder.orderId := List.map_append
    rw [split] at distinct ⊢
    obtain ⟨here, rest, apart⟩ := List.nodup_append.mp distinct
    have any : queue.any (·.orderId = orderId) = true ↔ orderId ∈ queue.map RestingOrder.orderId := by
      simp [List.any_eq_true]
    simp only [cancelIn, any, List.mem_append]
    by_cases inQueue : orderId ∈ queue.map RestingOrder.orderId
    · have absent : orderId ∉ (ordersOf levels).map RestingOrder.orderId := fun behind => apart _ inQueue _ behind rfl
      have others := stripLevels_id_self absent
      rw [if_pos inQueue, if_pos (.inl inQueue), eraseP_filter here]
      exact congrArg (fun levels => some ((price, _) :: levels)) others.symm
    · rw [if_neg inQueue, ih rest]
      by_cases behind : orderId ∈ (ordersOf levels).map RestingOrder.orderId
      · rw [if_pos behind, if_pos (.inr behind), Option.map_some]
        exact congrArg (fun queue => some ((price, queue) :: _)) (filter_id_self inQueue).symm
      · rw [if_neg behind, if_neg (not_or.mpr ⟨inQueue, behind⟩), Option.map_none]

theorem OrderBook.ext_levels {book other : OrderBook} (buys : book.buys.entries = other.buys.entries)
    (sells : book.sells.entries = other.sells.entries) (nextSeq : book.nextSeq = other.nextSeq) : book = other := by
  obtain ⟨buys₁, sells₁, seq₁⟩ := book
  obtain ⟨buys₂, sells₂, seq₂⟩ := other
  obtain rfl : buys₁ = buys₂ := SortedMap.ext_entries buys
  obtain rfl : sells₁ = sells₂ := SortedMap.ext_entries sells
  obtain rfl : seq₁ = seq₂ := nextSeq
  rfl

theorem cancelIn_found {levels left : List Level} (distinct : ((ordersOf levels).map RestingOrder.orderId).Nodup)
    (found : cancelIn orderId levels = some left) : orderId ∈ (ordersOf levels).map RestingOrder.orderId ∧
      left = stripLevels (·.orderId = orderId) levels := by
  rw [cancelIn_strips distinct] at found
  split at found
  next inside => exact ⟨inside, (Option.some.inj found).symm⟩
  next => cases found

theorem cancelIn_missing {levels : List Level} (distinct : ((ordersOf levels).map RestingOrder.orderId).Nodup)
    (missing : cancelIn orderId levels = none) : orderId ∉ (ordersOf levels).map RestingOrder.orderId := by
  rw [cancelIn_strips distinct] at missing
  split at missing
  next => cases missing
  next outside => exact outside

private theorem cancel_strips {book : OrderBook} (distinct : (book.resting.map RestingOrder.orderId).Nodup)
    (orderId : OrderId) :
    book.cancel orderId = (decide (orderId ∈ book.resting.map RestingOrder.orderId), book.strip (·.orderId = orderId)) := by
  simp only [OrderBook.resting, List.map_append] at distinct ⊢
  obtain ⟨buys, sells, apart⟩ := List.nodup_append.mp distinct
  unfold OrderBook.cancel
  split
  next left found =>
    obtain ⟨inside, rfl⟩ := cancelIn_found buys found
    have absent : orderId ∉ (ordersOf book.sells.entries).map RestingOrder.orderId := fun behind => apart _ inside _ behind rfl
    refine Prod.ext (by simp [inside]) ?_
    exact OrderBook.ext_levels rfl (stripLevels_id_self absent).symm rfl
  next missing =>
    have outside := cancelIn_missing buys missing
    have buysSame := (stripLevels_id_self outside).symm
    split
    next left found =>
      obtain ⟨inside, rfl⟩ := cancelIn_found sells found
      refine Prod.ext (by simp [inside]) ?_
      exact OrderBook.ext_levels buysSame rfl rfl
    next missing =>
      have nowhere := cancelIn_missing sells missing
      refine Prod.ext (by simp [outside, nowhere]) ?_
      exact OrderBook.ext_levels buysSame (stripLevels_id_self nowhere).symm rfl

theorem ordersOf_strip (gone : RestingOrder → Bool) (levels : List Level) :
    ordersOf (stripLevels gone levels) = (ordersOf levels).filter fun order => !gone order := by
  simp only [ordersOf, stripLevels, List.flatMap_map, List.filter_flatMap]

theorem strip_resting (book : OrderBook) (gone : RestingOrder → Bool) :
    (book.strip gone).resting = book.resting.filter fun order => !gone order := by
  rw [OrderBook.resting, OrderBook.resting, List.filter_append, ← ordersOf_strip, ← ordersOf_strip]
  rfl

theorem cancelAll_strips (book : OrderBook) (maker : Address) : book.cancelAll maker =
    ((book.resting.filter (·.maker = maker)).map RestingOrder.orderId, book.strip (·.maker = maker)) := by
  refine Prod.ext ?_ (OrderBook.ext_levels ?_ ?_ rfl)
  · simp only [OrderBook.cancelAll, OrderBook.resting, ordersOf, List.filter_append, List.map_append, List.filter_flatMap,
      List.map_flatMap]
  · simp [OrderBook.cancelAll, OrderBook.strip]
  · simp [OrderBook.cancelAll, OrderBook.strip]

theorem stripLevels_strip (first second : RestingOrder → Bool) (levels : List Level) :
    stripLevels second (stripLevels first levels) = stripLevels (fun order => first order || second order) levels := by
  simp only [stripLevels, List.map_map]
  refine List.map_congr_left fun level _ => ?_
  simp only [Function.comp_apply, List.filter_filter, Bool.not_or, Bool.and_comm]

private theorem strip_strip (book : OrderBook) (first second : RestingOrder → Bool) :
    (book.strip first).strip second = book.strip fun order => first order || second order :=
  OrderBook.ext_levels (stripLevels_strip ..) (stripLevels_strip ..) rfl

private theorem strip_none (book : OrderBook) : book.strip (fun _ => false) = book := by
  have same (levels : List Level) : stripLevels (fun _ => false) levels = levels := by
    simp [stripLevels]
  exact OrderBook.ext_levels (same _) (same _) rfl

theorem strip_distinct {book : OrderBook} (distinct : (book.resting.map RestingOrder.orderId).Nodup)
    (gone : RestingOrder → Bool) : ((book.strip gone).resting.map RestingOrder.orderId).Nodup := by
  rw [strip_resting]
  exact distinct.sublist (List.filter_sublist.map _)

private theorem removal_strips {book : OrderBook} (distinct : (book.resting.map RestingOrder.orderId).Nodup)
    (removal : Removal) :
    (book.call removal.call).2 = book.strip fun order => removal.covers order := by
  cases removal with
  | cancel orderId => exact congrArg Prod.snd (cancel_strips distinct orderId)
  | cancelAll maker => exact congrArg Prod.snd (cancelAll_strips book maker)

private theorem removals_strip {book : OrderBook} (distinct : (book.resting.map RestingOrder.orderId).Nodup)
    (removals : List Removal) : (book.calls (removals.map Removal.call)).2 = book.strip (covered removals) := by
  induction removals generalizing book with
  | nil => exact (strip_none book).symm
  | cons removal removals ih =>
    have first := removal_strips distinct removal
    have rest := ih (strip_distinct distinct fun order => removal.covers order)
    rw [strip_strip, ← first] at rest
    exact rest

/-- After any removals and a pruning, the book is the one that never had the removed orders,
so whatever is called next answers the same on both; and among the removals a `cancel_all`
reports the maker's orders that are left, on both sides and each once. -/
theorem removal_traceless {book : OrderBook} (valid : book.Valid) (removals : List Removal) :
    (book.calls (removals.map Removal.call)).2.prune = book.without (covered removals) ∧
    (∀ later, ((book.calls (removals.map Removal.call)).2.prune.calls later).1 =
      ((book.without (covered removals)).calls later).1) ∧
    ∀ maker, ∃ ids, ((book.calls (removals.map Removal.call)).2.call (.cancelAll maker)).1 = .removed ids ∧ ids.Nodup ∧
      ∀ id, id ∈ ids ↔ ∃ order ∈ book.resting, order.maker = maker ∧ covered removals order = false ∧ order.orderId = id := by
  have stripped := removals_strip valid.unique removals
  rw [stripped]
  refine ⟨rfl, fun later => rfl, fun maker => ?_⟩
  have reported := congrArg Prod.fst (cancelAll_strips (book.strip (covered removals)) maker)
  refine ⟨_, congrArg BookAnswer.removed reported, ?_, fun id => ?_⟩
  · exact (strip_distinct valid.unique (covered removals)).sublist (List.filter_sublist.map _)
  · simp only [strip_resting, List.mem_map, List.mem_filter, Bool.not_eq_true', decide_eq_true_eq]
    constructor
    · intro listed
      obtain ⟨order, ⟨⟨inside, left⟩, own⟩, same⟩ := listed
      exact ⟨order, inside, own, left, same⟩
    · intro held
      obtain ⟨order, inside, own, left, same⟩ := held
      exact ⟨order, ⟨⟨inside, left⟩, own⟩, same⟩

/-- The hypothesis meets: a sale of account 5 is removed, and a purchase finds nothing. -/
theorem removal_traceless_sample : ∃ book, (runMatcher (fun _ => none) [Sample.sale]).1 3 = some book ∧
    (book.calls [.cancelAll 5]).2.prune = book.without (covered [.cancelAll 5]) := by
  obtain ⟨book, found⟩ : ∃ book, (runMatcher (fun _ => none) [Sample.sale]).1 3 = some book := ⟨_, rfl⟩
  exact ⟨book, found, (removal_traceless (Sample.sale_valid found) [.cancelAll 5]).1⟩

end Omniscient.Gateway

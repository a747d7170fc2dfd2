import Omniscient.Lib.Greedy
import Omniscient.Proofs.FillAccounting
import Mathlib.Data.List.Sort

/-! Matching is greedy allocation in price-time order. The reference sorts what the
limit reaches on the other side and walks it once, over the integers; the loops
follow it level by level. -/

namespace Omniscient

def OrderSide.other : OrderSide → OrderSide
  | .buy => .sell
  | .sell => .buy

namespace Gateway

open Greedy

/-- A book in order. The seq of an order tells its place in its level. -/
structure OrderBook.Orderly (book : OrderBook) : Prop where
  nonempty : ∀ side, ∀ level ∈ book.levels side, level.2 ≠ []
  placed : ∀ side, ∀ level ∈ book.levels side, ∀ order ∈ level.2, order.side = side ∧ order.price = level.1
  queued : ∀ side, ∀ level ∈ book.levels side, (level.2.map RestingOrder.seq).Pairwise (· < ·)
  within : ∀ order ∈ book.resting, order.filled ≤ order.amount

def RestingOrder.unfilled (order : RestingOrder) : Nat := order.amount.toNat - order.filled.toNat

def reaches (side : OrderSide) (limit price : UInt64) : Bool :=
  match side with
  | .buy => price ≤ limit
  | .sell => limit ≤ price

def better (side : OrderSide) (first second : UInt64) : Prop :=
  match side with
  | .buy => first < second
  | .sell => second < first

instance (side : OrderSide) (first second : UInt64) : Decidable (better side first second) :=
  match side with
  | .buy => inferInstanceAs (Decidable (first < second))
  | .sell => inferInstanceAs (Decidable (second < first))

def ahead (side : OrderSide) (first second : RestingOrder) : Prop :=
  better side first.price second.price ∨ first.price = second.price ∧ first.seq ≤ second.seq

instance (side : OrderSide) : DecidableRel (ahead side) := fun first second =>
  inferInstanceAs (Decidable (better side first.price second.price ∨ first.price = second.price ∧ first.seq ≤ second.seq))

def OrderBook.offers (book : OrderBook) (side : OrderSide) (limit : UInt64) : List RestingOrder :=
  ((ordersOf (book.levels side.other)).filter (reaches side limit ·.price)).insertionSort (ahead side)

def OrderBook.walk (book : OrderBook) (taker : Taker) (limit amount : UInt64) : List (RestingOrder × Verdict) :=
  allocate (·.maker = taker.address) RestingOrder.unfilled (book.offers taker.side limit) amount.toNat

/-- An order that gave is exhausted, or has the amount added to what is filled. -/
def RestingOrder.less (order : RestingOrder) (amount : Nat) : Option RestingOrder :=
  if amount = order.unfilled then none else some { order with filled := .ofNat (order.filled.toNat + amount) }

def settleLevels (walk : List (RestingOrder × Verdict)) (levels : List Level) : List Level :=
  (levels.map fun level => (level.1, level.2.filterMap (settle RestingOrder.less walk))).filter (·.2 ≠ [])

/-- A result of matching is that of the greedy walk. -/
structure Greedily (book : OrderBook) (taker : Taker) (limit amount : UInt64) (result : List Fill × Bool × OrderBook) : Prop where
  fills : result.1 = (grants (book.walk taker limit amount)).map fun grant => grant.1.fill taker (.ofNat grant.2)
  satisfied : result.2.1 = true ↔ filledBy result.1 = amount.toNat
  makers : result.2.2.levels taker.side.other = settleLevels (book.walk taker limit amount) (book.levels taker.side.other)
  others : result.2.2.levels taker.side = book.levels taker.side
  nextSeq : result.2.2.nextSeq = book.nextSeq

/-- What a loop did is what a walk says, where `settled` settles what the loop was given. -/
structure Follows {β : Type} (taker : Taker) (walk : List (RestingOrder × Verdict)) (demand : UInt64) (settled : β)
    (matched : Matched β) : Prop where
  fills : matched.fills = (grants walk).map fun grant => grant.1.fill taker (.ofNat grant.2)
  left : matched.left = settled
  remaining : matched.remaining.toNat = demand.toNat - granted walk

theorem unfilled_eq {order : RestingOrder} (within : order.filled ≤ order.amount) :
    order.remaining.toNat = order.unfilled := remaining_toNat within

abbrev levelWalk (taker : Taker) (orders : List RestingOrder) (demand : Nat) : List (RestingOrder × Verdict) :=
  allocate (·.maker = taker.address) RestingOrder.unfilled orders demand

theorem settle_untouched {walk : List (RestingOrder × Verdict)} {queue : List RestingOrder}
    (outside : ∀ order ∈ queue, order ∉ walk.map Prod.fst) :
    queue.filterMap (settle RestingOrder.less walk) = queue := by
  rw [List.filterMap_congr fun order member => settle_unvisited (outside order member)]
  exact List.filterMap_some

theorem settle_rest {maker : RestingOrder} {queue : List RestingOrder} (fresh : maker ∉ queue) (verdict : Verdict)
    (walk : List (RestingOrder × Verdict)) :
    queue.filterMap (settle RestingOrder.less ((maker, verdict) :: walk)) = queue.filterMap (settle RestingOrder.less walk) := by
  refine List.filterMap_congr fun order member => settle_other ?_ verdict
  intro same
  exact fresh (same ▸ member)

private theorem less_all (order : RestingOrder) : order.less order.unfilled = none := if_pos rfl

private theorem less_some {order : RestingOrder} (within : order.filled ≤ order.amount) {amount : UInt64}
    (short : amount < order.remaining) : order.less amount.toNat = some (order.take amount) := by
  rw [UInt64.lt_iff_toNat_lt, unfilled_eq within] at short
  have sum : UInt64.ofNat (order.filled.toNat + amount.toNat) = order.filled + amount := by
    rw [UInt64.ofNat_add, UInt64.ofNat_toNat, UInt64.ofNat_toNat]
  rw [RestingOrder.less, if_neg (Nat.ne_of_lt short), sum]
  rfl

theorem toNat_ne_zero {value : UInt64} (positive : value ≠ 0) : value.toNat ≠ 0 :=
  fun zero => positive (UInt64.toNat_inj.mp zero)

section
variable {taker : Taker} {maker : RestingOrder} {remaining : UInt64}

private theorem levelWalk_own (own : maker.maker = taker.address) (positive : remaining ≠ 0)
    (queue : List RestingOrder) :
    levelWalk taker (maker :: queue) remaining.toNat = (maker, .passed) :: levelWalk taker queue remaining.toNat :=
  allocate_passed (by simpa using own) queue (toNat_ne_zero positive)

private theorem levelWalk_whole (other : maker.maker ≠ taker.address) (positive : remaining ≠ 0)
    (enough : maker.remaining ≤ remaining)
    (within : maker.filled ≤ maker.amount) (queue : List RestingOrder) :
    levelWalk taker (maker :: queue) remaining.toNat =
      (maker, .given maker.unfilled) :: levelWalk taker queue (remaining - maker.remaining).toNat := by
  have left := UInt64.toNat_sub_of_le _ _ enough
  have unfilled := unfilled_eq within
  rw [UInt64.le_iff_toNat_le] at enough
  rw [levelWalk, allocate_given (by simpa using other) queue (toNat_ne_zero positive), left, unfilled,
    min_eq_right (unfilled ▸ enough)]

private theorem levelWalk_part (other : maker.maker ≠ taker.address) (positive : remaining ≠ 0)
    (short : remaining < maker.remaining)
    (within : maker.filled ≤ maker.amount) (queue : List RestingOrder) :
    levelWalk taker (maker :: queue) remaining.toNat = [(maker, .given remaining.toNat)] := by
  rw [UInt64.lt_iff_toNat_lt, unfilled_eq within] at short
  rw [levelWalk, allocate_given (by simpa using other) queue (toNat_ne_zero positive), min_eq_left short.le,
    Nat.sub_eq_zero_of_le short.le, allocate_zero]

end

private theorem matchLevel_follows (taker : Taker) (queue : List RestingOrder) (remaining : UInt64)
    (distinct : queue.Nodup) (within : ∀ order ∈ queue, order.filled ≤ order.amount) :
    Follows taker (levelWalk taker queue remaining.toNat) remaining
      (queue.filterMap (settle RestingOrder.less (levelWalk taker queue remaining.toNat)))
      (matchLevel taker queue remaining) := by
  revert distinct within
  apply matchLevel_induct (motive := fun queue remaining matched => queue.Nodup →
    (∀ order ∈ queue, order.filled ≤ order.amount) → Follows taker (levelWalk taker queue remaining.toNat) remaining
      (queue.filterMap (settle RestingOrder.less (levelWalk taker queue remaining.toNat))) matched)
  · intro remaining _ _
    exact ⟨rfl, rfl, rfl⟩
  · intro queue _ _
    simp only [levelWalk, UInt64.toNat_zero, allocate_zero]
    exact ⟨rfl, (settle_untouched (by simp)).symm, rfl⟩
  · intro maker queue remaining matched positive own follows distinct within
    obtain ⟨fresh, distinct⟩ := List.nodup_cons.mp distinct
    have later := follows distinct fun order member => within order (List.mem_cons_of_mem _ member)
    rw [levelWalk_own own positive, List.filterMap_cons, settle_passed, settle_rest fresh]
    exact ⟨later.fills, later.left, later.remaining⟩
  · intro maker queue remaining matched positive other enough follows distinct within
    obtain ⟨fresh, distinct⟩ := List.nodup_cons.mp distinct
    have later := follows distinct fun order member => within order (List.mem_cons_of_mem _ member)
    have inside := within maker List.mem_cons_self
    rw [levelWalk_whole other positive enough inside, List.filterMap_cons, settle_given, settle_rest fresh, less_all]
    refine ⟨?_, later.left, ?_⟩
    · rw [grants_given, List.map_cons, ← later.fills, ← unfilled_eq inside, UInt64.ofNat_toNat]
    · rw [later.remaining, granted_given, UInt64.toNat_sub_of_le _ _ enough, unfilled_eq inside]
      omega
  · intro maker queue remaining positive other short distinct within
    obtain ⟨fresh, -⟩ := List.nodup_cons.mp distinct
    have inside := within maker List.mem_cons_self
    rw [levelWalk_part other positive short inside, List.filterMap_cons, settle_given, settle_rest fresh,
      less_some inside short, settle_untouched (by simp)]
    exact ⟨by simp, rfl, by simp⟩

structure Lined (crosses : UInt64 → Bool) (levels : List Level) : Prop where
  nonempty : ∀ level ∈ levels, level.2 ≠ []
  keyed : ∀ level ∈ levels, ∀ order ∈ level.2, order.price = level.1
  priority : levels.Pairwise fun first second => crosses second.1 = true → crosses first.1 = true
  distinct : (ordersOf levels).Nodup
  within : ∀ order ∈ ordersOf levels, order.filled ≤ order.amount

theorem Lined.tail {crosses : UInt64 → Bool} {level : Level} {levels : List Level}
    (lined : Lined crosses (level :: levels)) : Lined crosses levels where
  nonempty other member := lined.nonempty other (List.mem_cons_of_mem _ member)
  keyed other member := lined.keyed other (List.mem_cons_of_mem _ member)
  priority := (List.pairwise_cons.mp lined.priority).2
  distinct := (List.nodup_append.mp lined.distinct).2.1
  within order member := lined.within order (List.mem_append_right _ member)

def reached (crosses : UInt64 → Bool) (levels : List Level) : List RestingOrder :=
  (ordersOf levels).filter fun order => crosses order.price

private theorem reached_none {crosses : UInt64 → Bool} {level : Level} {levels : List Level}
    (lined : Lined crosses (level :: levels)) (beyond : crosses level.1 = false) : reached crosses (level :: levels) = [] := by
  refine List.filter_eq_nil_iff.mpr fun order member => ?_
  obtain ⟨other, inside, inQueue⟩ := mem_ordersOf.mp member
  rw [lined.keyed other inside order inQueue]
  rcases List.mem_cons.mp inside with rfl | later
  · simp [beyond]
  · intro reached
    have first := (List.pairwise_cons.mp lined.priority).1 other later reached
    simp [beyond] at first

private theorem reached_cons {crosses : UInt64 → Bool} {level : Level} {levels : List Level}
    (lined : Lined crosses (level :: levels)) (crossed : crosses level.1 = true) :
    reached crosses (level :: levels) = level.2 ++ reached crosses levels := by
  have all : level.2.filter (fun order => crosses order.price) = level.2 := by
    refine List.filter_eq_self.mpr fun order member => ?_
    rw [lined.keyed level List.mem_cons_self order member]
    exact crossed
  simp only [reached, ordersOf, List.flatMap_cons, List.filter_append, all]

private theorem settleLevels_congr {walk other : List (RestingOrder × Verdict)} {levels : List Level}
    (same : ∀ order ∈ ordersOf levels, settle RestingOrder.less walk order = settle RestingOrder.less other order) :
    settleLevels walk levels = settleLevels other levels := by
  have queues : levels.map (fun level => (level.1, level.2.filterMap (settle RestingOrder.less walk))) =
      levels.map fun level => (level.1, level.2.filterMap (settle RestingOrder.less other)) := by
    refine List.map_congr_left fun level member => ?_
    rw [List.filterMap_congr fun order inside => same order (mem_ordersOf.mpr ⟨level, member, inside⟩)]
  rw [settleLevels, queues, settleLevels]

theorem settleLevels_nil {levels : List Level} (nonempty : ∀ level ∈ levels, level.2 ≠ []) : settleLevels [] levels = levels := by
  have same : levels.map (fun level => (level.1, level.2.filterMap (settle RestingOrder.less []))) = levels :=
    (List.map_congr_left fun level _ => by rw [settle_untouched (by simp)]).trans (List.map_id' levels)
  rw [settleLevels, same]
  exact List.filter_eq_self.mpr fun level member => by simpa using nonempty level member

private theorem settleLevels_cons (walk : List (RestingOrder × Verdict)) (price : UInt64) (queue : List RestingOrder)
    (levels : List Level) : settleLevels walk ((price, queue) :: levels) =
      if queue.filterMap (settle RestingOrder.less walk) = [] then settleLevels walk levels
      else (price, queue.filterMap (settle RestingOrder.less walk)) :: settleLevels walk levels := by
  by_cases gone : queue.filterMap (settle RestingOrder.less walk) = []
  · simp [settleLevels, gone]
  · simp [settleLevels, gone]

private theorem settleLevels_append {price : UInt64} {queue : List RestingOrder} {levels : List Level}
    (distinct : (ordersOf ((price, queue) :: levels)).Nodup) {here rest : List (RestingOrder × Verdict)}
    (first : ∀ order ∈ here.map Prod.fst, order ∈ queue) (later : ∀ order ∈ rest.map Prod.fst, order ∈ ordersOf levels) :
    settleLevels (here ++ rest) ((price, queue) :: levels) =
      if queue.filterMap (settle RestingOrder.less here) = [] then settleLevels rest levels
      else (price, queue.filterMap (settle RestingOrder.less here)) :: settleLevels rest levels := by
  have apart : ∀ order ∈ queue, order ∉ ordersOf levels := fun order inside behind =>
    (List.nodup_append.mp distinct).2.2 order inside order behind rfl
  have front : queue.filterMap (settle RestingOrder.less (here ++ rest)) = queue.filterMap (settle RestingOrder.less here) :=
    List.filterMap_congr fun order inside => settle_first fun visited => apart order inside (later order visited)
  have back : settleLevels (here ++ rest) levels = settleLevels rest levels :=
    settleLevels_congr fun order behind => settle_second fun visited => apart order (first order visited) behind
  rw [settleLevels_cons, front, back]

theorem level_follows {taker : Taker} {crosses : UInt64 → Bool} {price : UInt64} {queue : List RestingOrder}
    {levels : List Level} (lined : Lined crosses ((price, queue) :: levels)) (remaining : UInt64) :
    Follows taker (levelWalk taker queue remaining.toNat) remaining
      (queue.filterMap (settle RestingOrder.less (levelWalk taker queue remaining.toNat)))
      (matchLevel taker queue remaining) :=
  matchLevel_follows taker queue remaining (List.nodup_append.mp lined.distinct).1
    fun order member => lined.within order (List.mem_append_left _ member)

theorem walk_cons {taker : Taker} {crosses : UInt64 → Bool} {price : UInt64} {queue : List RestingOrder}
    {levels : List Level} (lined : Lined crosses ((price, queue) :: levels)) (crossed : crosses price = true)
    (remaining : UInt64) : levelWalk taker (reached crosses ((price, queue) :: levels)) remaining.toNat =
      levelWalk taker queue remaining.toNat ++
        levelWalk taker (reached crosses levels) (matchLevel taker queue remaining).remaining.toNat := by
  rw [reached_cons lined crossed, (level_follows lined remaining).remaining]
  exact allocate_append ..

theorem settleLevels_walk {taker : Taker} {crosses : UInt64 → Bool} {price : UInt64} {queue : List RestingOrder}
    {levels : List Level} (lined : Lined crosses ((price, queue) :: levels)) (demand rest : Nat) :
    settleLevels (levelWalk taker queue demand ++ levelWalk taker (reached crosses levels) rest) ((price, queue) :: levels) =
      if queue.filterMap (settle RestingOrder.less (levelWalk taker queue demand)) = [] then
        settleLevels (levelWalk taker (reached crosses levels) rest) levels
      else (price, queue.filterMap (settle RestingOrder.less (levelWalk taker queue demand))) ::
        settleLevels (levelWalk taker (reached crosses levels) rest) levels :=
  settleLevels_append lined.distinct (fun _ visited => (visited_started _ _).subset visited)
    fun _ visited => (List.mem_filter.mp ((visited_started _ _).subset visited)).1

private theorem matchLevels_follows (taker : Taker) (crosses : UInt64 → Bool) (levels : List Level) (remaining : UInt64)
    (lined : Lined crosses levels) :
    Follows taker (levelWalk taker (reached crosses levels) remaining.toNat) remaining
      (settleLevels (levelWalk taker (reached crosses levels) remaining.toNat) levels)
      (matchLevels taker crosses levels remaining) := by
  revert lined
  apply matchLevels_induct (motive := fun levels remaining matched => Lined crosses levels →
    Follows taker (levelWalk taker (reached crosses levels) remaining.toNat) remaining
      (settleLevels (levelWalk taker (reached crosses levels) remaining.toNat) levels) matched)
  · intro remaining _
    exact ⟨rfl, rfl, rfl⟩
  · intro level levels remaining stop lined
    have none : levelWalk taker (reached crosses (level :: levels)) remaining.toNat = [] := by
      rcases stop with rfl | beyond
      · exact allocate_zero _
      · rw [reached_none lined beyond]
        exact allocate_nil _
    rw [none, settleLevels_nil lined.nonempty]
    exact ⟨rfl, rfl, rfl⟩
  · intro price queue levels remaining matched positive crossed gone follows lined
    have here := @level_follows taker _ _ _ _ lined remaining
    have rest := follows lined.tail
    rw [walk_cons lined crossed, settleLevels_walk lined, if_pos (here.left ▸ gone)]
    refine ⟨?_, rest.left, ?_⟩
    · rw [grants_append, List.map_append, ← here.fills, ← rest.fills]
    · rw [rest.remaining, granted_append, here.remaining, Nat.sub_sub]
  · intro price queue levels remaining positive crossed kept zero lined
    have here := @level_follows taker _ _ _ _ lined remaining
    have nothing : levelWalk taker (reached crosses levels) (matchLevel taker queue remaining).remaining.toNat = [] := by
      rw [zero]
      exact allocate_zero _
    rw [walk_cons lined crossed, settleLevels_walk lined, if_neg (here.left ▸ kept), nothing,
      settleLevels_nil lined.tail.nonempty, List.append_nil, ← here.left]
    exact ⟨here.fills, rfl, zero ▸ here.remaining⟩

theorem OrderBook.opposite_perm (book : OrderBook) (side : OrderSide) :
    (book.opposite side).Perm (book.levels side.other) := by
  cases side with
  | buy => exact .refl _
  | sell => exact List.reverse_perm _

theorem opposite_better (book : OrderBook) (side : OrderSide) :
    (book.opposite side).Pairwise fun first second => better side first.1 second.1 := by
  cases side with
  | buy => exact List.pairwise_map.mp book.sells.sorted
  | sell => exact List.pairwise_reverse.mpr (List.pairwise_map.mp book.buys.sorted)

instance (side : OrderSide) : Std.Total (ahead side) where
  total first second := by
    cases side <;> simp only [ahead, better] <;> grind

instance (side : OrderSide) : IsTrans RestingOrder (ahead side) where
  trans first second third early late := by
    cases side <;> simp only [ahead, better] at * <;> grind

def strictlyAhead (side : OrderSide) (first second : RestingOrder) : Prop :=
  ahead side first second ∧ ¬ ahead side second first

private theorem strictlyAhead_price {side : OrderSide} {first second : RestingOrder}
    (price : better side first.price second.price) : strictlyAhead side first second := by
  cases side <;> simp only [strictlyAhead, ahead, better] at * <;> grind

private theorem strictlyAhead_seq (side : OrderSide) {first second : RestingOrder} (price : first.price = second.price)
    (seq : first.seq < second.seq) : strictlyAhead side first second := by
  cases side <;> simp only [strictlyAhead, ahead, better] at * <;> grind

theorem opposite_ordered {book : OrderBook} (orderly : book.Orderly) (side : OrderSide) :
    (ordersOf (book.opposite side)).Pairwise (strictlyAhead side) := by
  have placed : ∀ level ∈ book.opposite side, ∀ order ∈ level.2, order.price = level.1 := fun level member order inside =>
    (orderly.placed side.other level ((book.opposite_perm side).mem_iff.mp member) order inside).2
  refine List.pairwise_flatMap.mpr ⟨fun level member => ?_, ?_⟩
  · have queued := orderly.queued side.other level ((book.opposite_perm side).mem_iff.mp member)
    refine (List.pairwise_map.mp queued).imp_of_mem fun first second before => ?_
    exact strictlyAhead_seq side ((placed level member _ first).trans (placed level member _ second).symm) before
  · refine (opposite_better book side).imp_of_mem fun first second before order inside other behind => ?_
    apply strictlyAhead_price
    rw [placed _ first order inside, placed _ second other behind]
    exact before

private theorem sorted_unique {side : OrderSide} {orders others : List RestingOrder}
    (ordered : orders.Pairwise (strictlyAhead side))
    (same : others.Perm orders) : others.insertionSort (ahead side) = orders := by
  have symmetric : Std.Symm fun first second => ¬ (ahead side first second ∧ ahead side second first) :=
    ⟨fun _ _ apart level => apart level.symm⟩
  have apart := (ordered.imp fun before level => before.2 level.2 :
    orders.Pairwise fun first second => ¬ (ahead side first second ∧ ahead side second first)).forall
  refine List.Perm.eq_of_pairwise ?_ (List.pairwise_insertionSort (ahead side) others) (ordered.imp And.left)
    ((List.perm_insertionSort _ others).trans same)
  intro first second inside behind early late
  by_contra different
  exact apart (same.subset ((List.mem_insertionSort _).mp inside)) behind different ⟨early, late⟩

private theorem offers_eq {book : OrderBook} (orderly : book.Orderly) (side : OrderSide) (limit : UInt64) :
    book.offers side limit = reached (reaches side limit) (book.opposite side) := by
  refine sorted_unique ((opposite_ordered orderly side).sublist List.filter_sublist) ?_
  exact ((book.opposite_perm side).symm.flatMap_right Prod.snd).filter _

private theorem reaches_better {side : OrderSide} {limit first second : UInt64} (ahead : better side first second)
    (reached : reaches side limit second = true) : reaches side limit first = true := by
  cases side <;> simp only [better, reaches, decide_eq_true_eq] at * <;> grind

private theorem opposite_lined {book : OrderBook} (orderly : book.Orderly) (side : OrderSide) (limit : UInt64) :
    Lined (reaches side limit) (book.opposite side) := by
  have back (level : Level) (member : level ∈ book.opposite side) : level ∈ book.levels side.other :=
    (book.opposite_perm side).mem_iff.mp member
  refine ⟨fun level member => orderly.nonempty _ level (back level member),
    fun level member order inside => (orderly.placed _ level (back level member) order inside).2,
    (opposite_better book side).imp reaches_better, ?_, fun order member => ?_⟩
  · refine (opposite_ordered orderly side).imp fun before same => ?_
    subst same
    exact before.2 before.1
  · apply orderly.within order
    exact (resting_opposite book side).mem_iff.mpr (List.mem_append_left _ member)

theorem opposite_follows {book : OrderBook} (orderly : book.Orderly) (taker : Taker) (limit amount : UInt64) :
    Follows taker (book.walk taker limit amount) amount
      (settleLevels (book.walk taker limit amount) (book.opposite taker.side))
      (matchLevels taker (reaches taker.side limit) (book.opposite taker.side) amount) := by
  have follows := matchLevels_follows taker _ _ amount (opposite_lined orderly taker.side limit)
  rwa [← offers_eq orderly] at follows

theorem satisfied_iff (taker : Taker) (crosses : UInt64 → Bool) (levels : List Level) (amount : UInt64) :
    (matchLevels taker crosses levels amount).remaining = 0 ↔
      filledBy (matchLevels taker crosses levels amount).fills = amount.toNat := by
  have total := matchLevels_total taker crosses levels amount
  rw [← UInt64.toNat_inj, UInt64.toNat_zero]
  omega

/-- Matching a buy or a sell is greedy allocation in price-time order. -/
theorem match_greedy (book : OrderBook) (orderly : book.Orderly) (orderId : OrderId) (taker : Address)
    (limit amount : UInt64) :
    Greedily book ⟨orderId, taker, .buy⟩ limit amount (book.matchBuy orderId taker limit amount) ∧
    Greedily book ⟨orderId, taker, .sell⟩ limit amount (book.matchSell orderId taker limit amount) := by
  constructor
  · have follows := opposite_follows orderly ⟨orderId, taker, .buy⟩ limit amount
    exact ⟨follows.fills, decide_eq_true_iff.trans (satisfied_iff _ _ _ _), follows.left, rfl, rfl⟩
  · have follows := opposite_follows orderly ⟨orderId, taker, .sell⟩ limit amount
    refine ⟨follows.fills, decide_eq_true_iff.trans (satisfied_iff _ _ _ _), ?_, rfl, rfl⟩
    have left := congrArg List.reverse follows.left
    simp only [settleLevels, OrderBook.opposite, List.map_reverse, List.filter_reverse, List.reverse_reverse] at left
    exact left

theorem OrderBook.Valid.orderly {book : OrderBook} (valid : book.Valid) : book.Orderly where
  nonempty := valid.nonempty
  placed := valid.placed
  queued side level member := (valid.queued side level member).1
  within := valid.within

/-- A purchase and a sale meet the book that a resting sale leaves. -/
theorem match_greedy_sample : ∃ book, (runMatcher (fun _ => none) [Sample.sale]).1 3 = some book ∧
    Greedily book ⟨102, 6, .buy⟩ 510000 60 (book.matchBuy 102 6 510000 60) ∧
    Greedily book ⟨102, 6, .sell⟩ 510000 60 (book.matchSell 102 6 510000 60) := by
  obtain ⟨book, found⟩ : ∃ book, (runMatcher (fun _ => none) [Sample.sale]).1 3 = some book := ⟨_, rfl⟩
  exact ⟨book, found, match_greedy book (Sample.sale_valid found).orderly 102 6 510000 60⟩

end Gateway

end Omniscient

import Mathlib.Algebra.BigOperators.Group.List.Basic
import Omniscient.Matcher

/-! The matching loops, described once. A step of the inner loop drops an order
of the taker's own, exhausts a maker, or takes all that is left from a maker; the
wrapping arithmetic is exact in each case. -/

namespace Omniscient.Gateway

def RestingOrder.take (order : RestingOrder) (amount : UInt64) : RestingOrder :=
  { order with filled := order.filled + amount }

def RestingOrder.fill (maker : RestingOrder) (taker : Taker) (amount : UInt64) : Fill where
  makerOrderId := maker.orderId
  takerOrderId := taker.orderId
  maker := maker.maker
  taker := taker.address
  price := maker.price
  amount
  takerSide := taker.side

theorem take_remaining (order : RestingOrder) (amount : UInt64) :
    (order.take amount).remaining = order.remaining - amount := by
  simp only [RestingOrder.take, RestingOrder.remaining]
  grind

theorem remaining_toNat {order : RestingOrder} (within : order.filled ≤ order.amount) :
    order.remaining.toNat = order.amount.toNat - order.filled.toNat := UInt64.toNat_sub_of_le _ _ within

/-- The wrapping addition of `take` is exact up to the amount of the order. -/
theorem take_filled {order : RestingOrder} (within : order.filled ≤ order.amount) {amount : UInt64}
    (short : amount < order.remaining) : (order.take amount).filled.toNat = order.filled.toNat + amount.toNat := by
  rw [UInt64.lt_iff_toNat_lt, remaining_toNat within] at short
  have bound := order.amount.toNat_lt
  rw [RestingOrder.take, UInt64.toNat_add]
  exact Nat.mod_eq_of_lt (by omega)

theorem matchLevel_induct {taker : Taker} {motive : List RestingOrder → UInt64 → Matched (List RestingOrder) → Prop}
    (empty : ∀ remaining, motive [] remaining ⟨[], [], remaining⟩)
    (done : ∀ queue, motive queue 0 ⟨[], queue, 0⟩)
    (own : ∀ maker queue remaining matched, remaining ≠ 0 → maker.maker = taker.address → motive queue remaining matched →
      motive (maker :: queue) remaining matched)
    (exhausted : ∀ maker queue remaining matched, remaining ≠ 0 → maker.maker ≠ taker.address →
      maker.remaining ≤ remaining → motive queue (remaining - maker.remaining) matched →
      motive (maker :: queue) remaining
        ⟨maker.fill taker maker.remaining :: matched.fills, matched.left, matched.remaining⟩)
    (satisfied : ∀ maker queue remaining, remaining ≠ 0 → maker.maker ≠ taker.address → remaining < maker.remaining →
      motive (maker :: queue) remaining ⟨[maker.fill taker remaining], maker.take remaining :: queue, 0⟩)
    (queue : List RestingOrder) (remaining : UInt64) : motive queue remaining (matchLevel taker queue remaining) := by
  induction queue generalizing remaining with
  | nil => exact empty remaining
  | cons maker queue ih =>
    simp only [matchLevel]
    split
    next zero =>
      subst zero
      exact done _
    next positive =>
      split
      next same => exact own maker queue remaining _ positive same (ih remaining)
      next different =>
        have left : ({ maker with filled := maker.filled + min remaining maker.remaining } : RestingOrder).remaining =
            maker.remaining - min remaining maker.remaining := take_remaining maker _
        rw [left]
        rcases le_or_gt maker.remaining remaining with enough | short
        · have all : min remaining maker.remaining = maker.remaining := min_eq_right enough
          simp only [all, UInt64.sub_self, if_true]
          exact exhausted maker queue remaining _ positive different enough (ih _)
        · have all : min remaining maker.remaining = remaining := min_eq_left short.le
          have some : maker.remaining - remaining ≠ 0 := fun zero => by
            have equal : maker.remaining = remaining := by grind
            exact absurd short (equal ▸ lt_irrefl _)
          simp only [all, if_neg some, UInt64.sub_self]
          exact satisfied maker queue remaining positive different short

def filledBy (fills : List Fill) : Nat := (fills.map fun fill => fill.amount.toNat).sum

@[simp] theorem filledBy_nil : filledBy [] = 0 := rfl

@[simp] theorem filledBy_cons (fill : Fill) (fills : List Fill) :
    filledBy (fill :: fills) = fill.amount.toNat + filledBy fills := by
  simp [filledBy]

@[simp] theorem filledBy_append (first second : List Fill) :
    filledBy (first ++ second) = filledBy first + filledBy second := by
  simp [filledBy]

theorem matchLevel_total (taker : Taker) (queue : List RestingOrder) (remaining : UInt64) :
    filledBy (matchLevel taker queue remaining).fills + (matchLevel taker queue remaining).remaining.toNat =
      remaining.toNat := by
  apply matchLevel_induct (motive := fun _ remaining matched =>
    filledBy matched.fills + matched.remaining.toNat = remaining.toNat)
  · simp
  · simp
  · exact fun _ _ _ _ _ _ total => total
  · intro maker queue remaining matched _ _ enough total
    rw [UInt64.toNat_sub_of_le _ _ enough] at total
    rw [UInt64.le_iff_toNat_le] at enough
    simp only [filledBy_cons, RestingOrder.fill]
    omega
  · simp [RestingOrder.fill]

private theorem matchLevel_stops (taker : Taker) (queue : List RestingOrder) (remaining : UInt64) :
    (matchLevel taker queue remaining).left = [] ∨ (matchLevel taker queue remaining).remaining = 0 := by
  apply matchLevel_induct (motive := fun _ _ matched => matched.left = [] ∨ matched.remaining = 0)
  · exact fun _ => .inl rfl
  · exact fun _ => .inr rfl
  · exact fun _ _ _ _ _ _ stops => stops
  · exact fun _ _ _ _ _ _ _ stops => stops
  · exact fun _ _ _ _ _ _ => .inr rfl

def RestingOrder.terms (order : RestingOrder) : RestingOrder := { order with filled := 0 }

def Survives (order order' : RestingOrder) : Prop :=
  order' = order ∨ ∃ amount, amount < order.remaining ∧ order' = order.take amount

theorem Survives.terms {order order' : RestingOrder} (survives : Survives order order') :
    order'.terms = order.terms := by
  rcases survives with rfl | ⟨amount, -, rfl⟩ <;> rfl

theorem Survives.filled {order order' : RestingOrder} (survives : Survives order order')
    (within : order.filled ≤ order.amount) :
    order.filled ≤ order'.filled ∧ (order'.filled = order.filled ∨ order'.filled < order'.amount) := by
  rcases survives with rfl | ⟨amount, short, rfl⟩
  · exact ⟨le_refl _, .inl rfl⟩
  · have sum := take_filled within short
    have sized : (order.take amount).amount = order.amount := rfl
    rw [UInt64.lt_iff_toNat_lt, remaining_toNat within] at short
    rw [UInt64.le_iff_toNat_le, UInt64.lt_iff_toNat_lt, sum, sized]
    omega

theorem Survives.within {order order' : RestingOrder} (survives : Survives order order')
    (within : order.filled ≤ order.amount) : order'.filled ≤ order'.amount := by
  have amount : order'.terms.amount = order.terms.amount := congrArg RestingOrder.amount survives.terms
  simp only [RestingOrder.terms] at amount
  rcases (survives.filled within).2 with same | less
  · rw [same, amount]
    exact within
  · exact less.le

structure Remains (queue queue' : List RestingOrder) : Prop where
  terms : (queue'.map RestingOrder.terms).Sublist (queue.map RestingOrder.terms)
  survives : ∀ order' ∈ queue', ∃ order ∈ queue, Survives order order'

theorem Remains.of_sublist {queue queue' : List RestingOrder} (sublist : queue'.Sublist queue) :
    Remains queue queue' :=
  ⟨sublist.map _, fun order member => ⟨order, sublist.subset member, .inl rfl⟩⟩

theorem Remains.append {first first' second second' : List RestingOrder} (front : Remains first first')
    (back : Remains second second') : Remains (first ++ second) (first' ++ second') := by
  constructor
  · simpa using front.terms.append back.terms
  · intro order' member
    rcases List.mem_append.mp member with inFirst | inSecond
    · obtain ⟨order, before, survives⟩ := front.survives order' inFirst
      exact ⟨order, List.mem_append_left _ before, survives⟩
    · obtain ⟨order, before, survives⟩ := back.survives order' inSecond
      exact ⟨order, List.mem_append_right _ before, survives⟩

private theorem matchLevel_remains (taker : Taker) (queue : List RestingOrder) (remaining : UInt64) :
    Remains queue (matchLevel taker queue remaining).left := by
  apply matchLevel_induct (motive := fun queue _ matched => Remains queue matched.left)
  · exact fun _ => .of_sublist (.refl _)
  · exact fun _ => .of_sublist (.refl _)
  · intro maker queue _ matched _ _ remains
    exact (Remains.of_sublist (List.nil_sublist [maker])).append remains
  · intro maker queue _ matched _ _ _ remains
    exact (Remains.of_sublist (List.nil_sublist [maker])).append remains
  · intro maker queue remaining _ _ short
    have first : Remains [maker] [maker.take remaining] :=
      ⟨by simp [RestingOrder.terms, RestingOrder.take], by simpa using .inr ⟨remaining, short, rfl⟩⟩
    exact first.append (.of_sublist (.refl queue))

theorem matchLevels_induct {taker : Taker} {crosses : UInt64 → Bool}
    {motive : List Level → UInt64 → Matched (List Level) → Prop}
    (empty : ∀ remaining, motive [] remaining ⟨[], [], remaining⟩)
    (done : ∀ level levels remaining, remaining = 0 ∨ crosses level.1 = false →
      motive (level :: levels) remaining ⟨[], level :: levels, remaining⟩)
    (emptied : ∀ price queue levels remaining matched, remaining ≠ 0 → crosses price = true →
      (matchLevel taker queue remaining).left = [] →
      motive levels (matchLevel taker queue remaining).remaining matched →
      motive ((price, queue) :: levels) remaining
        ⟨(matchLevel taker queue remaining).fills ++ matched.fills, matched.left, matched.remaining⟩)
    (satisfied : ∀ price queue levels remaining, remaining ≠ 0 → crosses price = true →
      (matchLevel taker queue remaining).left ≠ [] → (matchLevel taker queue remaining).remaining = 0 →
      motive ((price, queue) :: levels) remaining
        ⟨(matchLevel taker queue remaining).fills, (price, (matchLevel taker queue remaining).left) :: levels, 0⟩)
    (levels : List Level) (remaining : UInt64) :
    motive levels remaining (matchLevels taker crosses levels remaining) := by
  induction levels generalizing remaining with
  | nil => exact empty remaining
  | cons level levels ih =>
    obtain ⟨price, queue⟩ := level
    simp only [matchLevels]
    split
    next stop => exact done _ _ _ stop
    next go =>
      obtain ⟨positive, crossed⟩ := not_or.mp go
      rw [Bool.not_eq_false] at crossed
      split
      next gone => exact emptied _ _ _ _ _ positive crossed gone (ih _)
      next some =>
        have zero := (matchLevel_stops taker queue remaining).resolve_left some
        rw [zero]
        exact satisfied _ _ _ _ positive crossed some zero

variable {taker : Taker} {crosses : UInt64 → Bool} {levels : List Level} {remaining : UInt64}

theorem matchLevels_total (taker : Taker) (crosses : UInt64 → Bool) (levels : List Level) (remaining : UInt64) :
    filledBy (matchLevels taker crosses levels remaining).fills +
      (matchLevels taker crosses levels remaining).remaining.toNat = remaining.toNat := by
  apply matchLevels_induct (motive := fun _ remaining matched =>
    filledBy matched.fills + matched.remaining.toNat = remaining.toNat)
  · simp
  · simp
  · intro price queue levels remaining matched _ _ _ total
    have here := matchLevel_total taker queue remaining
    simp only [filledBy_append]
    omega
  · intro price queue levels remaining _ _ _ zero
    have here := matchLevel_total taker queue remaining
    simpa [zero] using here

theorem matchLevels_stops (priority : levels.Pairwise fun first second => crosses second.1 = true → crosses first.1 = true)
    (unsatisfied : (matchLevels taker crosses levels remaining).remaining ≠ 0) :
    ∀ level ∈ (matchLevels taker crosses levels remaining).left, crosses level.1 = false := by
  revert priority unsatisfied
  apply matchLevels_induct (motive := fun levels _ matched =>
    (levels.Pairwise fun first second => crosses second.1 = true → crosses first.1 = true) → matched.remaining ≠ 0 →
      ∀ level ∈ matched.left, crosses level.1 = false)
  · intro _ _ _ level member
    cases member
  · intro first levels remaining stop priority positive level member
    have beyond := stop.resolve_left positive
    rcases List.mem_cons.mp member with rfl | later
    · exact beyond
    · have ahead := (List.pairwise_cons.mp priority).1 level later
      rw [beyond] at ahead
      simpa using ahead
  · intro price queue levels remaining matched _ _ _ stops priority
    exact stops (List.pairwise_cons.mp priority).2
  · intro price queue levels remaining _ _ _ _ _ positive
    exact absurd rfl positive

def ordersOf (levels : List Level) : List RestingOrder := levels.flatMap Prod.snd

inductive Shrinks (kept : List RestingOrder → List RestingOrder → Prop) : List Level → List Level → Prop where
  | nil : Shrinks kept [] []
  | drop (level : Level) {levels levels' : List Level} :
    Shrinks kept levels levels' → Shrinks kept (level :: levels) levels'
  | keep (price : UInt64) {queue queue' : List RestingOrder} {levels levels' : List Level} :
    kept queue queue' → Shrinks kept levels levels' → Shrinks kept ((price, queue) :: levels) ((price, queue') :: levels')

namespace Shrinks

variable {kept weaker : List RestingOrder → List RestingOrder → Prop} {levels levels' : List Level}

theorem refl (same : ∀ queue, kept queue queue) (levels : List Level) : Shrinks kept levels levels := by
  induction levels with
  | nil => exact .nil
  | cons level levels ih => exact .keep level.1 (same _) ih

theorem mono (weaken : ∀ queue queue', kept queue queue' → weaker queue queue')
    (shrinks : Shrinks kept levels levels') : Shrinks weaker levels levels' := by
  induction shrinks with
  | nil => exact .nil
  | drop level _ ih => exact .drop level ih
  | keep price remains _ ih => exact .keep price (weaken _ _ remains) ih

theorem append {first first' second second' : List Level} (front : Shrinks kept first first')
    (back : Shrinks kept second second') : Shrinks kept (first ++ second) (first' ++ second') := by
  induction front with
  | nil => exact back
  | drop level _ ih => exact .drop level ih
  | keep price remains _ ih => exact .keep price remains ih

theorem reverse (shrinks : Shrinks kept levels levels') : Shrinks kept levels.reverse levels'.reverse := by
  induction shrinks with
  | nil => exact .nil
  | drop level _ ih => simpa using ih.append (.drop level .nil)
  | keep price remains _ ih => simpa using ih.append (.keep price remains .nil)

theorem orders (none : ∀ queue, kept queue [])
    (join : ∀ first first' second second', kept first first' → kept second second' →
      kept (first ++ second) (first' ++ second'))
    (shrinks : Shrinks kept levels levels') : kept (ordersOf levels) (ordersOf levels') := by
  induction shrinks with
  | nil => exact none []
  | drop level _ ih => exact join level.2 [] _ _ (none _) ih
  | keep price remains _ ih => exact join _ _ _ _ remains ih

theorem level (shrinks : Shrinks kept levels levels') :
    ∀ level' ∈ levels', ∃ queue, (level'.1, queue) ∈ levels ∧ kept queue level'.2 := by
  induction shrinks with
  | nil => simp
  | drop level _ ih =>
    intro level' member
    obtain ⟨queue, before, remains⟩ := ih level' member
    exact ⟨queue, List.mem_cons_of_mem _ before, remains⟩
  | @keep price queue queue' _ _ remains _ ih =>
    intro level' member
    rcases List.mem_cons.mp member with rfl | later
    · exact ⟨queue, List.mem_cons_self, remains⟩
    · obtain ⟨queue, before, remains⟩ := ih level' later
      exact ⟨queue, List.mem_cons_of_mem _ before, remains⟩

theorem filter (same : ∀ queue, kept queue queue) (keep : Level → Bool) (levels : List Level) :
    Shrinks kept levels (levels.filter keep) := by
  induction levels with
  | nil => exact .nil
  | cons level levels ih =>
    rw [List.filter_cons]
    split
    · exact .keep level.1 (same _) ih
    · exact .drop level ih

theorem map (write : List RestingOrder → List RestingOrder) (writes : ∀ queue, kept queue (write queue))
    (levels : List Level) : Shrinks kept levels (levels.map fun level => (level.1, write level.2)) := by
  induction levels with
  | nil => exact .nil
  | cons level levels ih => exact .keep level.1 (writes _) ih

end Shrinks

abbrev Removed (queue queue' : List RestingOrder) : Prop := queue'.Sublist queue

theorem Shrinks.remains {levels levels' : List Level} (shrinks : Shrinks Removed levels levels') :
    Shrinks Remains levels levels' := shrinks.mono fun _ _ => .of_sublist

theorem matchLevels_shrinks (taker : Taker) (crosses : UInt64 → Bool) (levels : List Level) (remaining : UInt64) :
    Shrinks Remains levels (matchLevels taker crosses levels remaining).left := by
  have same (levels : List Level) : Shrinks Remains levels levels := .refl (fun queue => .of_sublist (.refl queue)) levels
  apply matchLevels_induct (motive := fun levels _ matched => Shrinks Remains levels matched.left)
  · exact fun _ => same []
  · exact fun _ _ _ _ => same _
  · exact fun price queue _ _ _ _ _ _ shrinks => .drop (price, queue) shrinks
  · exact fun price queue levels remaining _ _ _ _ => .keep price (matchLevel_remains taker queue remaining) (same levels)

theorem cancelIn_shrinks {orderId : OrderId} {levels left : List Level} (found : cancelIn orderId levels = some left) :
    Shrinks Removed levels left := by
  induction levels generalizing left with
  | nil => cases found
  | cons level levels ih =>
    obtain ⟨price, queue⟩ := level
    simp only [cancelIn] at found
    split at found
    next =>
      cases found
      exact .keep price List.eraseP_sublist (.refl (fun _ => .refl _) levels)
    next =>
      obtain ⟨rest, inner, rfl⟩ := Option.map_eq_some_iff.mp found
      exact .keep price (.refl queue) (ih inner)

structure BookShrinks (kept : List RestingOrder → List RestingOrder → Prop) (book book' : OrderBook) : Prop where
  buys : Shrinks kept book.buys.entries book'.buys.entries
  sells : Shrinks kept book.sells.entries book'.sells.entries
  nextSeq : book'.nextSeq = book.nextSeq

theorem BookShrinks.remains {book book' : OrderBook} (shrinks : BookShrinks Removed book book') :
    BookShrinks Remains book book' := ⟨shrinks.buys.remains, shrinks.sells.remains, shrinks.nextSeq⟩

theorem matchBuy_shrinks (book : OrderBook) (orderId : OrderId) (taker : Address) (price amount : UInt64) :
    BookShrinks Remains book (book.matchBuy orderId taker price amount).2.2 :=
  ⟨.refl (fun queue => .of_sublist (.refl queue)) _, matchLevels_shrinks .., rfl⟩

theorem matchSell_shrinks (book : OrderBook) (orderId : OrderId) (taker : Address) (price amount : UInt64) :
    BookShrinks Remains book (book.matchSell orderId taker price amount).2.2 := by
  refine ⟨?_, .refl (fun queue => .of_sublist (.refl queue)) _, rfl⟩
  have shrinks := (matchLevels_shrinks ⟨orderId, taker, .sell⟩ (fun level => price ≤ level)
    book.buys.entries.reverse amount).reverse
  rwa [List.reverse_reverse] at shrinks

theorem cancel_shrinks (book : OrderBook) (orderId : OrderId) : BookShrinks Removed book (book.cancel orderId).2 := by
  have same (levels : List Level) : Shrinks Removed levels levels := .refl (fun _ => .refl _) levels
  unfold OrderBook.cancel
  split
  next found => exact ⟨cancelIn_shrinks found, same _, rfl⟩
  next =>
    split
    next found => exact ⟨same _, cancelIn_shrinks found, rfl⟩
    next => exact ⟨same _, same _, rfl⟩

theorem cancelAll_shrinks (book : OrderBook) (maker : Address) : BookShrinks Removed book (book.cancelAll maker).2 := by
  have keeps (levels : List Level) : Shrinks Removed levels
      (levels.map fun level => (level.1, level.2.filter (·.maker ≠ maker))) :=
    @Shrinks.map Removed (List.filter (·.maker ≠ maker)) (fun _ => List.filter_sublist) levels
  exact ⟨keeps _, keeps _, rfl⟩

theorem prune_shrinks (book : OrderBook) : BookShrinks Removed book book.prune :=
  ⟨.filter (fun _ => .refl _) _ _, .filter (fun _ => .refl _) _ _, rfl⟩

end Omniscient.Gateway

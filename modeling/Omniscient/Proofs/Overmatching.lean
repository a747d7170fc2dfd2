import Omniscient.Proofs.GatewaySteps
import Omniscient.Proofs.MatcherCommands

/-! How much of a signed order is matched, over all the copies of it that are
accepted. A submission gets a new id, and nothing ties the copies of one signed order
together; and a copy that meets too little liquidity rests with what it was filled
still to give. -/

namespace Omniscient.Gateway
open Outcome

def stock (ids : List OrderId) (orders : List RestingOrder) : Nat :=
  ((orders.filter (·.orderId ∈ ids)).map fun order => order.remaining.toNat).sum

def takenFrom (ids : List OrderId) (fills : List Fill) : Nat := filledBy (fills.filter (·.makerOrderId ∈ ids))

def matchedFor (ids : List OrderId) (fills : List Fill) : Nat :=
  filledBy (fills.filter fun fill => fill.makerOrderId ∈ ids ∨ fill.takerOrderId ∈ ids)

variable {ids : List OrderId}

theorem stock_append (first second : List RestingOrder) : stock ids (first ++ second) = stock ids first + stock ids second := by
  simp [stock]

theorem stock_cons (order : RestingOrder) (orders : List RestingOrder) :
    stock ids (order :: orders) = (if order.orderId ∈ ids then order.remaining.toNat else 0) + stock ids orders := by
  unfold stock
  rw [List.filter_cons]
  split <;> simp_all

theorem stock_perm {first second : List RestingOrder} (same : first.Perm second) : stock ids first = stock ids second :=
  ((same.filter _).map _).sum_eq

private theorem stock_sublist {first second : List RestingOrder} (less : first.Sublist second) :
    stock ids first ≤ stock ids second := by
  induction less with
  | slnil => exact le_refl _
  | cons order _ ih =>
    rw [stock_cons]
    omega
  | cons_cons order _ ih =>
    rw [stock_cons, stock_cons]
    omega

private theorem stock_absent {orders : List RestingOrder} (absent : ∀ order ∈ orders, order.orderId ∉ ids) :
    stock ids orders = 0 := by
  have none : orders.filter (·.orderId ∈ ids) = [] := by simpa [List.filter_eq_nil_iff] using absent
  rw [stock, none]
  rfl

private theorem takenFrom_append (first second : List Fill) :
    takenFrom ids (first ++ second) = takenFrom ids first + takenFrom ids second := by
  simp only [takenFrom, List.filter_append, filledBy_append]

theorem takenFrom_cons (fill : Fill) (fills : List Fill) :
    takenFrom ids (fill :: fills) = (if fill.makerOrderId ∈ ids then fill.amount.toNat else 0) + takenFrom ids fills := by
  unfold takenFrom
  rw [List.filter_cons]
  split <;> simp_all

theorem matchLevel_stock (taker : Taker) (queue : List RestingOrder) (remaining : UInt64) :
    takenFrom ids (matchLevel taker queue remaining).fills + stock ids (matchLevel taker queue remaining).left ≤
      stock ids queue := by
  apply matchLevel_induct (motive := fun queue _ matched => takenFrom ids matched.fills + stock ids matched.left ≤
    stock ids queue)
  · exact fun _ => le_refl _
  · exact fun queue => Nat.le_of_eq (Nat.zero_add _)
  · intro maker queue remaining matched _ _ ih
    rw [stock_cons]
    omega
  · intro maker queue remaining matched _ _ _ ih
    have same : (maker.fill taker maker.remaining).makerOrderId = maker.orderId := rfl
    have given : (maker.fill taker maker.remaining).amount = maker.remaining := rfl
    show takenFrom ids (maker.fill taker maker.remaining :: matched.fills) + stock ids matched.left ≤ _
    rw [stock_cons, takenFrom_cons, same, given]
    split <;> omega
  · intro maker queue remaining _ _ short
    have left : (maker.take remaining).remaining.toNat = maker.remaining.toNat - remaining.toNat := by
      rw [take_remaining, UInt64.toNat_sub_of_le _ _ short.le]
    have same : (maker.take remaining).orderId = maker.orderId := rfl
    have named : (maker.fill taker remaining).makerOrderId = maker.orderId := rfl
    have given : (maker.fill taker remaining).amount = remaining := rfl
    have none : takenFrom ids [] = 0 := rfl
    rw [UInt64.lt_iff_toNat_lt] at short
    show takenFrom ids [maker.fill taker remaining] + stock ids (maker.take remaining :: queue) ≤ _
    rw [takenFrom_cons, stock_cons, stock_cons, left, same, named, given, none]
    split <;> omega

private theorem matchLevels_stock (taker : Taker) (crosses : UInt64 → Bool) (levels : List Level) (remaining : UInt64) :
    takenFrom ids (matchLevels taker crosses levels remaining).fills +
      stock ids (ordersOf (matchLevels taker crosses levels remaining).left) ≤ stock ids (ordersOf levels) := by
  apply matchLevels_induct (motive := fun levels _ matched =>
    takenFrom ids matched.fills + stock ids (ordersOf matched.left) ≤ stock ids (ordersOf levels))
  · exact fun _ => le_refl _
  · exact fun _ _ _ _ => Nat.le_of_eq (Nat.zero_add _)
  · intro price queue levels remaining matched _ _ emptied ih
    have here := @matchLevel_stock ids taker queue remaining
    rw [emptied] at here
    simp only [takenFrom_append, ordersOf, List.flatMap_cons, stock_append] at ih ⊢
    have none : stock ids [] = 0 := rfl
    omega
  · intro price queue levels remaining _ _ _ _
    have here := @matchLevel_stock ids taker queue remaining
    simp only [ordersOf, List.flatMap_cons, stock_append]
    omega

private theorem matchOrder_stock (book : OrderBook) (order : RestingOrder) :
    takenFrom ids (book.incoming order).fills + stock ids (book.matchOrder order).2.2.resting ≤ stock ids book.resting := by
  obtain ⟨-, -, left, -⟩ := matchOrder_eq book order
  have same := matchOrder_levels book order
  rw [stock_perm (resting_opposite book order.side), stock_perm (resting_opposite _ order.side), left, same,
    stock_append, stock_append]
  have taken := @matchLevels_stock ids order.taker (crosses order) (book.opposite order.side) order.amount
  unfold OrderBook.incoming at *
  exact Nat.add_assoc .. ▸ Nat.add_le_add_right taken _

/-- What placing an order can come to: its amount where the liquidity it meets covers
it, and otherwise that liquidity twice, once at the match and once at rest. -/
def OrderBook.exposure (book : OrderBook) (order : RestingOrder) : Nat :=
  if order.amount.toNat ≤ book.liquidity order then order.amount.toNat else 2 * book.liquidity order

private theorem matchedFor_taker {book : OrderBook} {order : RestingOrder} (own : order.orderId ∈ ids) :
    matchedFor ids (book.incoming order).fills = filledBy (book.incoming order).fills := by
  have all : (book.incoming order).fills.filter (fun fill => fill.makerOrderId ∈ ids ∨ fill.takerOrderId ∈ ids) =
      (book.incoming order).fills := by
    apply List.filter_eq_self.mpr
    intro fill member
    obtain ⟨maker, -, -, amount, rfl⟩ := incoming_pairs book order fill member
    exact decide_eq_true (.inr own)
  rw [matchedFor, all]

private theorem matchedFor_others {book : OrderBook} {order : RestingOrder} (other : order.orderId ∉ ids) :
    matchedFor ids (book.incoming order).fills = takenFrom ids (book.incoming order).fills := by
  unfold matchedFor takenFrom
  congr 1
  apply List.filter_congr
  intro fill member
  obtain ⟨maker, -, -, amount, rfl⟩ := incoming_pairs book order fill member
  exact decide_eq_decide.mpr (or_iff_left other)

private theorem place_exposes {books : Books} {command : MatchCommand} {order : RestingOrder}
    (placed : command.order = some order) :
    matchedFor ids (resultFills (process books command).2) +
        stock ids (restingAt (process books command).1 command.position) ≤
      stock ids (restingAt books command.position) +
        if order.orderId ∈ ids then ((books command.position).getD .new).exposure order else 0 := by
  have placing := @process_places books command order placed
  have taken := @matchOrder_stock ids ((books command.position).getD .new) order
  have total : filledBy (((books command.position).getD .new).incoming order).fills +
      (((books command.position).getD .new).incoming order).remaining.toNat = order.amount.toNat := matchLevels_total ..
  have left := incoming_remaining ((books command.position).getD .new) order
  rw [placing.fills]
  by_cases own : order.orderId ∈ ids
  · rw [matchedFor_taker own, if_pos own]
    unfold OrderBook.exposure
    rcases placing.here with ⟨zero, same⟩ | ⟨some_, seq, same⟩
    · rw [zero, UInt64.toNat_zero] at left total
      rw [same, if_pos (by omega)]
      unfold restingAt
      omega
    · have positive : (((books command.position).getD .new).incoming order).remaining.toNat ≠ 0 := fun zero =>
        some_ (UInt64.toNat_inj.mp zero)
      have rests : ({ order with
          filled := (((books command.position).getD .new).incoming order).remaining, seq } : RestingOrder).remaining.toNat =
          ((books command.position).getD .new).liquidity order := by
        have unfilled : (order.amount - (((books command.position).getD .new).incoming order).remaining).toNat =
            order.amount.toNat - (((books command.position).getD .new).incoming order).remaining.toNat :=
          UInt64.toNat_sub_of_le _ _ (UInt64.le_iff_toNat_le.mpr (by omega))
        simp only [RestingOrder.remaining, unfilled]
        omega
      rw [stock_perm same, stock_cons, if_pos own, rests, if_neg (by omega)]
      unfold restingAt
      omega
  · rw [matchedFor_others own, if_neg own]
    rcases placing.here with ⟨-, same⟩ | ⟨-, seq, same⟩
    · rw [same]
      exact taken
    · rw [stock_perm same, stock_cons, if_neg own, Nat.zero_add]
      exact taken

def System.taken (system : System) (event : Event) : Option MatchCommand :=
  if event.isMatching then system.commands.head? else none

def System.fills (system : System) (event : Event) : List Fill :=
  (system.taken event).toList.flatMap fun command => resultFills (process system.books command).2

def System.exposes (ids : List OrderId) (system : System) (event : Event) : Nat :=
  match (system.taken event).bind fun command => command.order.map fun order => (command.position, order) with
  | some (position, order) =>
    if order.orderId ∈ ids then ((system.books position).getD .new).exposure order else 0
  | none => 0

def System.Records (crypto : Crypto) (config : AppConfig) (system : System) (step : System × Event) (after : System) : Prop :=
  step.1 = system ∧ system.Moves crypto config step.2 after

def fillsIn (trace : List (System × Event)) : List Fill := trace.flatMap fun step => step.1.fills step.2

def exposed (ids : List OrderId) (trace : List (System × Event)) : Nat :=
  (trace.map fun step => step.1.exposes ids step.2).sum

def postedId : Event → Option OrderId
  | .postOrder orderId _ _ => some orderId
  | _ => none

def copyOf (signed : SignedOrder) : Event → Option OrderId
  | .postOrder orderId submitted _ => if submitted = signed then some orderId else none
  | _ => none

def copies (signed : SignedOrder) (trace : List (System × Event)) : List OrderId :=
  (trace.map Prod.snd).filterMap (copyOf signed)

/-- Every submission draws a new id. -/
structure FreshPosts (books : Books) (trace : List (System × Event)) : Prop where
  distinct : ((trace.map Prod.snd).filterMap postedId).Nodup
  unused : ∀ id ∈ (trace.map Prod.snd).filterMap postedId, ∀ position, ∀ order ∈ restingAt books position, order.orderId ≠ id

def Copied (signed : SignedOrder) (ids : List OrderId) (command : MatchCommand) : Prop :=
  ∀ order, command.order = some order → order.orderId ∈ ids → ∃ marketId, command = signed.command marketId order.orderId

def System.Copies (signed : SignedOrder) (ids : List OrderId) (system : System) : Prop :=
  system.Carries (Copied signed ids) fun position order => order.orderId ∈ ids → position = signed.order.positionId

variable {crypto : Crypto} {config : AppConfig} {system after : System} {event : Event} {signed : SignedOrder}

theorem Copied.position {command : MatchCommand} {order : RestingOrder} (copied : Copied signed ids command)
    (placed : command.order = some order) (own : order.orderId ∈ ids) : command.position = signed.order.positionId := by
  obtain ⟨marketId, rfl⟩ := copied order placed own
  rfl

theorem Stepped.copies (stepped : Stepped crypto config system event after)
    (posted : ∀ orderId submitted marketId, event = .postOrder orderId submitted marketId → orderId ∈ ids → submitted = signed)
    (held : system.Copies signed ids) : after.Copies signed ids := by
  refine stepped.carries ?_ ?_ ?_ ?_ held
  · intro orderId submitted marketId maker same valid order placed own
    cases placed
    exact ⟨marketId, by rw [posted orderId submitted marketId same own]⟩
  · intro positionId orderId order placed
    cases placed
  · exact fun command order filled seq copied placed own => copied.position placed own
  · intro position before order same here own
    have id : order.orderId = before.orderId := by
      show order.terms.orderId = before.terms.orderId
      rw [same]
    exact here (id ▸ own)

theorem taken_nothing (other : event.isMatching = false) : system.fills event = [] ∧ system.exposes ids event = 0 := by
  simp [System.fills, System.exposes, System.taken, other]

private theorem taken_command {command : MatchCommand} {commands : List MatchCommand} (now : event.isMatching = true)
    (queued : system.commands = command :: commands) :
    system.fills event = resultFills (process system.books command).2 ∧
      system.exposes ids event = match command.order with
        | some order => if order.orderId ∈ ids then ((system.books command.position).getD .new).exposure order else 0
        | none => 0 := by
  constructor
  · simp [System.fills, System.taken, now, queued]
  · simp only [System.exposes, System.taken, now, queued, if_true, List.head?_cons, Option.bind_some]
    cases command.order <;> rfl

private theorem matchedFor_none {fills : List Fill}
    (absent : ∀ fill ∈ fills, fill.makerOrderId ∉ ids ∧ fill.takerOrderId ∉ ids) :
    matchedFor ids fills = 0 := by
  have none : fills.filter (fun fill => fill.makerOrderId ∈ ids ∨ fill.takerOrderId ∈ ids) = [] := by
    apply List.filter_eq_nil_iff.mpr
    intro fill member both
    rcases of_decide_eq_true both with maker | taker
    · exact (absent fill member).1 maker
    · exact (absent fill member).2 taker
  rw [matchedFor, none]
  rfl

theorem Stepped.exposes (stepped : Stepped crypto config system event after) (held : system.Copies signed ids) :
    matchedFor ids (system.fills event) + stock ids (restingAt after.books signed.order.positionId) ≤
      stock ids (restingAt system.books signed.order.positionId) + system.exposes ids event := by
  cases stepped.matcher with
  | idle other commands books =>
    rw [(@taken_nothing ids system event other).1, books]
    exact Nat.le_add_right_of_le (Nat.le_of_eq (Nat.zero_add _))
  | sent other performed commands books =>
    rw [(@taken_nothing ids system event other).1, books]
    exact Nat.le_add_right_of_le (Nat.le_of_eq (Nat.zero_add _))
  | @processed command now queued books =>
    obtain ⟨fills, exposes⟩ := @taken_command ids system event command _ now queued
    rw [fills, exposes, books]
    cases placed : command.order with
    | none =>
      obtain ⟨nothing, removed⟩ := @process_withdraws system.books command placed
      rw [nothing]
      exact Nat.le_add_right_of_le ((Nat.le_of_eq (Nat.zero_add _)).trans (stock_sublist (removed _)))
    | some order =>
      by_cases here : command.position = signed.order.positionId
      · rw [← here]
        exact place_exposes placed
      · -- in another position neither the taker nor a maker is a copy
        have other : order.orderId ∉ ids := fun own =>
          here ((held.queued command (queued ▸ List.mem_cons_self)).position placed own)
        have absent : matchedFor ids (resultFills (process system.books command).2) = 0 := by
          apply matchedFor_none
          intro fill member
          obtain ⟨taker, same, maker, rested, -, amount, rfl⟩ := process_pairs member
          cases placed.symm.trans same
          exact ⟨fun own => here (held.resting command.position maker rested own), other⟩
        rw [absent, (process_places placed).others _ (Ne.symm here)]
        omega

private theorem filterMap_inj {α β : Type} {f : α → Option β} {items : List α} (distinct : (items.filterMap f).Nodup)
    {first second : α} (one : first ∈ items) (two : second ∈ items) {image : β} (left : f first = some image)
    (right : f second = some image) : first = second := by
  induction items with
  | nil => cases one
  | cons item items ih =>
    rw [List.filterMap_cons] at distinct
    have later (distinct : (items.filterMap f).Nodup) (one : first ∈ items) (two : second ∈ items) : first = second :=
      ih distinct one two
    cases taken : f item with
    | none =>
      simp only [taken] at distinct
      rcases List.mem_cons.mp one with rfl | inOne
      · rw [taken] at left
        cases left
      · rcases List.mem_cons.mp two with rfl | inTwo
        · rw [taken] at right
          cases right
        · exact later distinct inOne inTwo
    | some value =>
      simp only [taken, List.nodup_cons] at distinct
      obtain ⟨fresh, distinct⟩ := distinct
      rcases List.mem_cons.mp one with rfl | inOne <;> rcases List.mem_cons.mp two with rfl | inTwo
      · rfl
      · cases taken.symm.trans left
        exact absurd (List.mem_filterMap.mpr ⟨second, inTwo, right⟩) fresh
      · cases taken.symm.trans right
        exact absurd (List.mem_filterMap.mpr ⟨first, inOne, left⟩) fresh
      · exact later distinct inOne inTwo

theorem copyOf_some {id : OrderId} : copyOf signed event = some id ↔ ∃ marketId, event = .postOrder id signed marketId := by
  unfold copyOf
  split
  next orderId submitted marketId =>
    constructor
    · intro same
      split at same
      next own =>
        cases same
        exact ⟨marketId, by rw [own]⟩
      next => cases same
    · intro holds
      obtain ⟨marketId, ⟨⟩⟩ := holds
      exact if_pos rfl
  next other =>
    constructor
    · intro none
      cases none
    · intro holds
      obtain ⟨marketId, rfl⟩ := holds
      exact absurd rfl (other id signed marketId)

theorem mem_copies {trace : List (System × Event)} {id : OrderId} :
    id ∈ copies signed trace ↔ ∃ marketId, .postOrder id signed marketId ∈ trace.map Prod.snd := by
  unfold copies
  rw [List.mem_filterMap]
  constructor
  · intro holds
    obtain ⟨event, member, same⟩ := holds
    obtain ⟨marketId, rfl⟩ := copyOf_some.mp same
    exact ⟨marketId, member⟩
  · intro holds
    obtain ⟨marketId, member⟩ := holds
    exact ⟨_, member, copyOf_some.mpr ⟨marketId, rfl⟩⟩

private theorem matchedFor_append (first second : List Fill) :
    matchedFor ids (first ++ second) = matchedFor ids first + matchedFor ids second := by
  simp only [matchedFor, List.filter_append, filledBy_append]

private theorem fillsIn_next (trace : List (System × Event)) (step : System × Event) :
    fillsIn (trace ++ [step]) = fillsIn trace ++ step.1.fills step.2 := by
  simp [fillsIn]

private theorem exposed_next (trace : List (System × Event)) (step : System × Event) :
    exposed ids (trace ++ [step]) = exposed ids trace + step.1.exposes ids step.2 := by
  simp [exposed]

theorem copies_posted {trace : List (System × Event)} {id : OrderId} (copied : id ∈ copies signed trace) :
    id ∈ (trace.map Prod.snd).filterMap postedId := by
  obtain ⟨marketId, member⟩ := mem_copies.mp copied
  exact List.mem_filterMap.mpr ⟨_, member, rfl⟩

theorem FreshPosts.same {books : Books} {trace : List (System × Event)} (fresh : FreshPosts books trace)
    {step : System × Event} (member : step ∈ trace) {orderId : OrderId} {submitted : SignedOrder} {marketId : MarketId}
    (posted : step.2 = .postOrder orderId submitted marketId) (copied : orderId ∈ copies signed trace) :
    submitted = signed := by
  obtain ⟨other, also⟩ := mem_copies.mp copied
  have here : .postOrder orderId submitted marketId ∈ trace.map Prod.snd := posted ▸ List.mem_map_of_mem member
  cases filterMap_inj fresh.distinct here also rfl rfl
  rfl

theorem FreshPosts.copies {db : Database} {books : Books} {clock : UInt64} {dbClock : Nat} {trace : List (System × Event)}
    (fresh : FreshPosts books trace) : (System.starting db books clock dbClock).Copies signed (copies signed trace) where
  confined := ⟨fun _ none => (nomatch none), trivial⟩
  queued _ none := nomatch none
  resting position order member copied := (fresh.unused _ (copies_posted copied) position order member rfl).elim

/-- Over a run from any books, what is matched for the copies of a signed order is at
most what their placements expose. -/
private theorem matched_exposed {db : Database} {books : Books} {clock : UInt64} {dbClock : Nat}
    {trace : List (System × Event)}
    (run : Run (System.Records crypto config) (.starting db books clock dbClock) trace system)
    (fresh : FreshPosts books trace) :
    matchedFor (copies signed trace) (fillsIn trace) ≤ exposed (copies signed trace) trace := by
  have same : ∀ step ∈ trace, ∀ _ : System, ∀ orderId submitted marketId,
      step.2 = .postOrder orderId submitted marketId → orderId ∈ copies signed trace → submitted = signed :=
    fun step member _ _ _ _ posted copied => fresh.same member posted copied
  have posts := run.within same
  have start := @FreshPosts.copies signed db books clock dbClock trace fresh
  have unstocked : stock (copies signed trace) (restingAt books signed.order.positionId) = 0 :=
    stock_absent fun order member copied => fresh.unused _ (copies_posted copied) _ order member rfl
  generalize copies signed trace = ids at posts start unstocked ⊢
  -- what is matched so far and what is at rest are covered together
  have covered := Run.invariant (fun trace system => system.Copies signed ids ∧
    matchedFor ids (fillsIn trace) + stock ids (restingAt system.books signed.order.positionId) ≤ exposed ids trace)
    ⟨start, Nat.le_of_eq ((Nat.zero_add _).trans unstocked)⟩ ?_ posts
  · exact (Nat.le_add_right _ _).trans covered.2
  · rintro trace system ⟨state, event⟩ after - ⟨held, bound⟩ ⟨⟨(rfl : state = system), moved⟩, posted⟩
    have stepped := moved.stepped
    refine ⟨stepped.copies posted held, ?_⟩
    have gained := stepped.exposes held
    rw [fillsIn_next, exposed_next, matchedFor_append]
    dsimp only at gained ⊢
    omega

/-- Where the placements of the copies expose no more than the order's amount, no more
than its amount is matched. -/
theorem not_overmatched {db : Database} {books : Books} {clock : UInt64} {dbClock : Nat} {trace : List (System × Event)}
    (run : Run (System.Records crypto config) (.starting db books clock dbClock) trace system)
    (fresh : FreshPosts books trace)
    (bounded : exposed (copies signed trace) trace ≤ signed.order.amount.toNat) :
    matchedFor (copies signed trace) (fillsIn trace) ≤ signed.order.amount.toNat :=
  (matched_exposed run fresh).trans bounded

namespace Sample

/-- The trace of the events from a state, if it takes them all. -/
def record (start : System) : List Event → Option (List (System × Event))
  | [] => some []
  | event :: events => do
    let after ← System.step signers deployment start event
    return (start, event) :: (← record after events)

private theorem record_runs {start : System} {events : List Event} {trace : List (System × Event)}
    (recorded : record start events = some trace) :
    trace.map Prod.snd = events ∧ ∃ system, Run (System.Records signers deployment) start trace system := by
  induction events generalizing start trace with
  | nil =>
    cases recorded
    exact ⟨rfl, start, .start⟩
  | cons event events ih =>
    simp only [record, Option.bind_eq_bind, Option.bind_eq_some_iff, Option.pure_def, Option.some.injEq] at recorded
    obtain ⟨after, moved, rest, later, rfl⟩ := recorded
    obtain ⟨same, system, run⟩ := ih later
    have first : Run (System.Records signers deployment) start [(start, event)] after := Run.start.next ⟨rfl, moved⟩
    exact ⟨by rw [List.map_cons, same], system, first.append run⟩

def signedPurchase : SignedOrder := signedBy 6 .buy 510000 50 0

/-- The open sale is at rest, whatever the columns of its row. -/
def offered : System := .starting { unlisted with orders := [openSale] } restarted.books 0 0

theorem records {events : List Event} {check : List (System × Event) → Bool}
    (distinct : (101 :: events.filterMap postedId).Nodup) (passes : (record offered events).any check = true) :
    ∃ trace system, Run (System.Records signers deployment) offered trace system ∧ FreshPosts offered.books trace ∧
      check trace = true := by
  obtain ⟨trace, recorded, checked⟩ := (Option.any_eq_true _ _).mp passes
  obtain ⟨same, system, run⟩ := record_runs recorded
  obtain ⟨other, distinct⟩ := List.nodup_cons.mp distinct
  refine ⟨trace, system, run, ⟨same ▸ distinct, fun id posted position order member own => ?_⟩, checked⟩
  rw [same] at posted
  have listed : order.orderId = 101 := congrArg RestingOrder.orderId (restarted_resting position order member)
  exact other (listed.symm.trans own ▸ posted)

end Sample

/-- The same purchase of fifty, submitted twice, is matched for a hundred. -/
theorem not_overmatched_fails : ∃ trace system,
    Run (System.Records Sample.signers Sample.deployment) Sample.offered trace system ∧
    FreshPosts Sample.offered.books trace ∧
    matchedFor (copies Sample.signedPurchase trace) (fillsIn trace) = 100 ∧ Sample.signedPurchase.order.amount = 50 := by
  obtain ⟨trace, system, run, fresh, checked⟩ := @Sample.records
    (Sample.placing 102 Sample.signedPurchase ++ Sample.placing 103 Sample.signedPurchase)
    (fun trace => decide (matchedFor (copies Sample.signedPurchase trace) (fillsIn trace) = 100))
    (by decide +kernel) (by decide +kernel)
  exact ⟨trace, system, run, fresh, of_decide_eq_true checked, rfl⟩

/-- Submitted once, it is matched for fifty. -/
theorem not_overmatched_sample : ∃ trace system,
    Run (System.Records Sample.signers Sample.deployment) Sample.offered trace system ∧
    0 < matchedFor (copies Sample.signedPurchase trace) (fillsIn trace) ∧
    matchedFor (copies Sample.signedPurchase trace) (fillsIn trace) ≤ 50 := by
  obtain ⟨trace, system, run, fresh, checked⟩ := @Sample.records
    (Sample.placing 102 Sample.signedPurchase)
    (fun trace => decide (0 < matchedFor (copies Sample.signedPurchase trace) (fillsIn trace) ∧
      exposed (copies Sample.signedPurchase trace) trace ≤ Sample.signedPurchase.order.amount.toNat))
    (by decide +kernel) (by decide +kernel)
  obtain ⟨matched, bounded⟩ := of_decide_eq_true checked
  exact ⟨trace, system, run, matched, not_overmatched run fresh bounded⟩

end Omniscient.Gateway

import Mathlib.Data.UInt
import Omniscient.Domain
import Omniscient.Lib.SortedMap
import Omniscient.Lib.Word

/-! The gateway's order book for one position. Amounts, prices and sequence
numbers are u64 and wrap, as the release build does. Both matching loops are one
loop over the opposite side's levels in priority order. -/

namespace Omniscient.Gateway

instance linearOrderUInt64 : LinearOrder UInt64 where
  le_refl _ := UInt64.le_refl _
  le_trans _ _ _ := UInt64.le_trans
  le_antisymm _ _ := UInt64.le_antisymm
  le_total _ _ := UInt64.le_total _ _
  lt_iff_le_not_ge _ _ := by simp only [UInt64.lt_iff_toNat_lt, UInt64.le_iff_toNat_le]; omega
  toDecidableLE := inferInstance
  toDecidableLT := inferInstance

structure RestingOrder where
  orderId : OrderId
  maker : Address
  price : UInt64
  amount : UInt64
  filled : UInt64
  side : OrderSide
  seq : UInt64
  nonce : UInt64
  deadline : UInt64
  deriving DecidableEq, Repr

def RestingOrder.remaining (order : RestingOrder) : UInt64 := order.amount - order.filled

structure Fill where
  makerOrderId : OrderId
  takerOrderId : OrderId
  maker : Address
  taker : Address
  price : UInt64
  amount : UInt64
  takerSide : OrderSide
  deriving DecidableEq, Repr

abbrev Level := UInt64 × List RestingOrder

structure OrderBook where
  buys : SortedMap UInt64 (List RestingOrder)
  sells : SortedMap UInt64 (List RestingOrder)
  nextSeq : UInt64

def OrderBook.new : OrderBook := ⟨.empty, .empty, 0⟩

/-- Put a resting order at the end of its level. Returns the order as stored. -/
def OrderBook.insert (book : OrderBook) (order : RestingOrder) : RestingOrder × OrderBook :=
  let order := { order with seq := book.nextSeq }
  let push (level : Option (List RestingOrder)) := level.getD [] ++ [order]
  let book := { book with nextSeq := book.nextSeq + 1 }
  match order.side with
  | .buy => (order, { book with buys := book.buys.upsert order.price push })
  | .sell => (order, { book with sells := book.sells.upsert order.price push })

/-- The incoming order, as the matching loops see it. -/
structure Taker where
  orderId : OrderId
  address : Address
  side : OrderSide
  deriving DecidableEq, Repr

/-- What a loop has done: its fills, what it left of the queue or the levels, and
what it left of the taker's amount. -/
structure Matched (α : Type) where
  fills : List Fill
  left : α
  remaining : UInt64

/-- The inner loop: take from the front of one level. The taker's own orders are
dropped. A maker that is not exhausted has taken all the taker had, and the loop
ends with it in front. -/
def matchLevel (taker : Taker) : List RestingOrder → UInt64 → Matched (List RestingOrder)
  | [], remaining => ⟨[], [], remaining⟩
  | maker :: level, remaining =>
    if remaining = 0 then
      ⟨[], maker :: level, remaining⟩
    else if maker.maker = taker.address then
      matchLevel taker level remaining
    else
      let fillAmount := min remaining maker.remaining
      let fill : Fill := {
        makerOrderId := maker.orderId
        takerOrderId := taker.orderId
        maker := maker.maker
        taker := taker.address
        price := maker.price
        amount := fillAmount
        takerSide := taker.side }
      let maker := { maker with filled := maker.filled + fillAmount }
      if maker.remaining = 0 then
        let rest := matchLevel taker level (remaining - fillAmount)
        ⟨fill :: rest.fills, rest.left, rest.remaining⟩
      else
        ⟨[fill], maker :: level, remaining - fillAmount⟩

/-- The outer loop, over the levels that the limit price crosses. An emptied
level is removed; a level with orders left has ended the loop. -/
def matchLevels (taker : Taker) (crosses : UInt64 → Bool) : List Level → UInt64 → Matched (List Level)
  | [], remaining => ⟨[], [], remaining⟩
  | (price, queue) :: levels, remaining =>
    if remaining = 0 ∨ crosses price = false then
      ⟨[], (price, queue) :: levels, remaining⟩
    else
      let here := matchLevel taker queue remaining
      if here.left = [] then
        let rest := matchLevels taker crosses levels here.remaining
        ⟨here.fills ++ rest.fills, rest.left, rest.remaining⟩
      else
        ⟨here.fills, (price, here.left) :: levels, here.remaining⟩

theorem matchLevels_keys (taker : Taker) (crosses : UInt64 → Bool) (levels : List Level) (remaining : UInt64) :
    ((matchLevels taker crosses levels remaining).left.map Prod.fst).Sublist (levels.map Prod.fst) := by
  induction levels generalizing remaining with
  | nil => exact .slnil
  | cons level levels ih =>
    obtain ⟨price, queue⟩ := level
    simp only [matchLevels]
    split
    next => exact .refl _
    next =>
      split
      next => exact (ih _).cons _
      next => exact .refl _

/-- Match a buy against the sells, from the lowest price up. -/
def OrderBook.matchBuy (book : OrderBook) (takerOrderId : OrderId) (taker : Address) (price amount : UInt64) :
    List Fill × Bool × OrderBook :=
  let who : Taker := ⟨takerOrderId, taker, .buy⟩
  let crosses (level : UInt64) : Bool := level ≤ price
  let done := matchLevels who crosses book.sells.entries amount
  (done.fills, done.remaining = 0,
    { book with sells := book.sells.narrow done.left (matchLevels_keys who crosses _ amount) })

/-- Match a sell against the buys, from the highest price down. -/
def OrderBook.matchSell (book : OrderBook) (takerOrderId : OrderId) (taker : Address) (price amount : UInt64) :
    List Fill × Bool × OrderBook :=
  let who : Taker := ⟨takerOrderId, taker, .sell⟩
  let crosses (level : UInt64) : Bool := price ≤ level
  let done := matchLevels who crosses book.buys.entries.reverse amount
  (done.fills, done.remaining = 0,
    { book with buys := book.buys.narrow done.left.reverse (by
        have kept := (matchLevels_keys who crosses book.buys.entries.reverse amount).reverse
        rwa [← List.map_reverse, ← List.map_reverse, List.reverse_reverse] at kept) })

/-- Remove the first order with this id, in the first level that has one. -/
def cancelIn (orderId : OrderId) : List Level → Option (List Level)
  | [] => none
  | (price, queue) :: levels =>
    if queue.any (·.orderId = orderId) then
      some ((price, queue.eraseP (·.orderId = orderId)) :: levels)
    else
      (cancelIn orderId levels).map ((price, queue) :: ·)

theorem cancelIn_keys {orderId : OrderId} {levels left : List Level} (found : cancelIn orderId levels = some left) :
    left.map Prod.fst = levels.map Prod.fst := by
  induction levels generalizing left with
  | nil => cases found
  | cons level levels ih =>
    obtain ⟨price, queue⟩ := level
    simp only [cancelIn] at found
    split at found
    next =>
      cases found
      rfl
    next =>
      obtain ⟨rest, inner, rfl⟩ := Option.map_eq_some_iff.mp found
      simp [ih inner]

/-- Cancel a resting order; the buys are searched first. -/
def OrderBook.cancel (book : OrderBook) (orderId : OrderId) : Bool × OrderBook :=
  match buy : cancelIn orderId book.buys.entries with
  | some left => (true, { book with buys := book.buys.narrow left (cancelIn_keys buy ▸ .refl _) })
  | none =>
    match sell : cancelIn orderId book.sells.entries with
    | some left => (true, { book with sells := book.sells.narrow left (cancelIn_keys sell ▸ .refl _) })
    | none => (false, book)

/-- Remove all orders of a maker. Returns the removed ids, the buys' first. -/
def OrderBook.cancelAll (book : OrderBook) (maker : Address) : List OrderId × OrderBook :=
  let removed (levels : List Level) := levels.flatMap fun level =>
    (level.2.filter (·.maker = maker)).map RestingOrder.orderId
  let keep (queue : List RestingOrder) := queue.filter (·.maker ≠ maker)
  (removed book.buys.entries ++ removed book.sells.entries,
    { book with buys := book.buys.mapValues keep, sells := book.sells.mapValues keep })

def OrderBook.prune (book : OrderBook) : OrderBook :=
  { book with buys := book.buys.retain fun queue => !queue.isEmpty, sells := book.sells.retain fun queue => !queue.isEmpty }

def OrderBook.bestBid (book : OrderBook) : Option UInt64 := book.buys.lastKey?

def OrderBook.bestAsk (book : OrderBook) : Option UInt64 := book.sells.firstKey?

/-- `u128::div_ceil`. -/
def divCeil (value divisor : BitVec 128) : BitVec 128 :=
  if value % divisor = 0 then value / divisor else value / divisor + 1

/-- A rate of a volume. The division rounds down. -/
def rateOf (bps : Nat) (volume : BitVec 128) : Option (BitVec 128) := do
  let product ← Word.mul volume (.ofNat 128 bps)
  return product / 10000

def takerFee (volume : BitVec 128) : Option (BitVec 128) := rateOf TAKER_FEE_BPS volume

def makerRebate (volume : BitVec 128) : Option (BitVec 128) := rateOf MAKER_REBATE_BPS volume

def buyVolume (amount price : UInt64) : Option (BitVec 128) := do
  let product ← Word.mul (BitVec.ofNat 128 amount.toNat) (.ofNat 128 price.toNat)
  return divCeil product (.ofNat 128 PRICE_SCALE.toNat)

def sellVolume (amount price : UInt64) : Option (BitVec 128) := do
  let product ← Word.mul (BitVec.ofNat 128 amount.toNat) (.ofNat 128 price.toNat)
  return product / .ofNat 128 PRICE_SCALE.toNat

end Omniscient.Gateway

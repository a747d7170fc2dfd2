import Omniscient.OrderBook

/-! The matcher thread. It owns one book for each position and takes commands one
by one; a placed order that is not fully filled rests in its book. -/

namespace Omniscient.Gateway

inductive MatchCommand where
  | placeOrder (marketId : MarketId) (positionId : Uint256) (orderId : OrderId) (maker : Address)
      (price amount : UInt64) (side : OrderSide) (nonce deadline : UInt64)
  | cancelOrder (positionId : Uint256) (orderId : OrderId)
  | cancelAll (marketId : MarketId) (positionId : Uint256) (maker : Address)
  | shutdown
  deriving DecidableEq, Repr

structure MatchResult where
  marketId : MarketId
  fills : List Fill
  resting : Option RestingOrder
  fullyFilled : Bool
  deriving DecidableEq, Repr

abbrev Books := Uint256 → Option OrderBook

/-- Match an incoming order against the other side of its book. -/
def OrderBook.matchOrder (book : OrderBook) (order : RestingOrder) : List Fill × Bool × OrderBook :=
  match order.side with
  | .buy => book.matchBuy order.orderId order.maker order.price order.amount
  | .sell => book.matchSell order.orderId order.maker order.price order.amount

/-- The `PlaceOrder` arm, inside one book. `order` carries the command's fields;
its `filled` is computed here. -/
def OrderBook.place (book : OrderBook) (marketId : MarketId) (order : RestingOrder) : OrderBook × MatchResult :=
  let (fills, fullyFilled, book) := book.matchOrder order
  let (resting, book) :=
    if fullyFilled = false then
      let filled := order.amount - (fills.map Fill.amount).sum
      let (resting, book) := book.insert { order with filled, seq := 0 }
      (some resting, book)
    else
      (none, book)
  (book.prune, { marketId, fills, resting, fullyFilled })

/-- The body of the loop of `run_matcher`, for every command but `shutdown`. -/
def process (books : Books) : MatchCommand → Books × Option MatchResult
  | .placeOrder marketId positionId orderId maker price amount side nonce deadline =>
    let book := (books positionId).getD .new
    let (book, result) :=
      book.place marketId { orderId, maker, price, amount, filled := 0, side, seq := 0, nonce, deadline }
    (Function.update books positionId (some book), some result)
  | .cancelOrder positionId orderId =>
    match books positionId with
    | some book => (Function.update books positionId (some (book.cancel orderId).2.prune), none)
    | none => (books, none)
  | .cancelAll _ positionId maker =>
    match books positionId with
    | some book => (Function.update books positionId (some (book.cancelAll maker).2.prune), none)
    | none => (books, none)
  | .shutdown => (books, none)

theorem process_placeOrder (books : Books) (marketId : MarketId) (positionId : Uint256) (orderId : OrderId)
    (maker : Address) (price amount : UInt64) (side : OrderSide) (nonce deadline : UInt64) :
    process books (.placeOrder marketId positionId orderId maker price amount side nonce deadline) =
      let placed := ((books positionId).getD .new).place marketId
        { orderId, maker, price, amount, filled := 0, side, seq := 0, nonce, deadline }
      (Function.update books positionId (some placed.1), some placed.2) := rfl

/-- The loop of `run_matcher`: the books it ends with, and the results it sent. -/
def runMatcher : Books → List MatchCommand → Books × List MatchResult
  | books, [] => (books, [])
  | books, .shutdown :: _ => (books, [])
  | books, command :: commands =>
    let (books, result) := process books command
    let (books, results) := runMatcher books commands
    (books, result.toList ++ results)

end Omniscient.Gateway

import Mathlib.Logic.Function.Basic
import Omniscient.Infra
import Omniscient.Lib.Broadcast
import Omniscient.Lib.Consumer
import Omniscient.OrderJson

/-! The live feed: what is published to `orders.matched` is consumed again by the gateway,
broadcast within it, and forwarded to the sockets of its clients. -/

namespace Omniscient.Gateway

def MatchEvent.serialize (event : MatchEvent) : Json :=
  .object [
    ("market_id", .string event.marketId),
    ("maker", .string event.maker),
    ("taker", .string event.taker),
    ("price", serializeU64 event.price),
    ("amount", serializeU64 event.amount),
    ("side", .string event.side)]

def CHANNEL_CAPACITY : Nat := 1024

/-- A client's socket: where its receiver started and where it is, how many values it
was told that it missed, and what was sent to the client. -/
structure Socket where
  start : Nat
  position : Nat
  missed : Nat
  texts : List Json

def Socket.subscribe (sent : List Json) : Socket where
  start := sent.length
  position := sent.length
  missed := 0
  texts := []

/-- One turn of `handle_socket`, once there is something to receive. A lag is passed over. -/
def handleSocket (sent : List Json) (socket : Socket) : Option Socket := do
  let (received, position) ← Broadcast.recv CHANNEL_CAPACITY sent socket.position
  match received with
  | .value msg => return { socket with position, texts := socket.texts ++ [msg] }
  | .lagged missed => return { socket with position, missed := socket.missed + missed }

/-- The topic by its partitions, the gateway's consumer of it, what its channel was sent
since it started, and its open sockets. -/
structure Feed where
  topic : Nat → List MatchEvent
  consumer : Consumer Nat
  sent : List Json
  sockets : List Socket

def Feed.empty : Feed where
  topic _ := []
  consumer := .start
  sent := []
  sockets := []

/-- What can happen next: a match is published; the broadcast loop takes the next record
of a partition and asks for its commit; a commit lands; a partition is assigned anew; the
gateway is started again; a client connects, is forwarded to, or is gone. -/
inductive FeedEvent where
  | publish (event : MatchEvent)
  | poll (partition offset : Nat)
  | commit (partition offset : Nat)
  | rebalance (partition : Nat)
  | restart
  | subscribe
  | forward (index : Nat)
  | close (index : Nat)
  deriving DecidableEq

/-- A match goes to the partition of its key, which is its market. -/
def Feed.publish (partitioner : String → Nat) (feed : Feed) (event : MatchEvent) : Feed :=
  let partition := partitioner event.marketId
  { feed with topic := Function.update feed.topic partition (feed.topic partition ++ [event]) }

theorem publish_topic (partitioner : String → Nat) (feed : Feed) (event : MatchEvent) (partition : Nat) :
    (feed.publish partitioner event).topic partition =
      if partition = partitioner event.marketId then feed.topic (partitioner event.marketId) ++ [event]
      else feed.topic partition :=
  Function.update_apply ..

def Feed.step (partitioner : String → Nat) (feed : Feed) : FeedEvent → Option Feed
  | .publish event => some (feed.publish partitioner event)
  | .poll partition offset => do
    let event ← (feed.topic partition)[feed.consumer.position partition]?
    if offset = feed.consumer.position partition then
      return { feed with consumer := feed.consumer.deliver partition, sent := feed.sent ++ [event.serialize] }
    else
      none
  | .commit partition offset =>
    if offset ∈ feed.consumer.requested partition then
      some { feed with consumer := feed.consumer.commit partition offset }
    else
      none
  | .rebalance partition => some { feed with consumer := feed.consumer.rewind partition }
  | .restart => some { feed with consumer := feed.consumer.restart, sent := [], sockets := [] }
  | .subscribe => some { feed with sockets := feed.sockets ++ [.subscribe feed.sent] }
  | .forward index => do
    let socket ← feed.sockets[index]?
    let socket ← handleSocket feed.sent socket
    return { feed with sockets := feed.sockets.set index socket }
  | .close index => some { feed with sockets := feed.sockets.eraseIdx index }

def Feed.Moves (partitioner : String → Nat) (feed : Feed) (event : FeedEvent) (after : Feed) : Prop :=
  feed.step partitioner event = some after

end Omniscient.Gateway

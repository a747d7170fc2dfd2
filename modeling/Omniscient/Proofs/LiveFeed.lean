import Omniscient.Feed
import Omniscient.Lib.Run

/-! What clients of the live feed get to see. Nothing that is published is skipped by the
broadcast loop, though it can be broadcast again; between two reassignments a market's
matches go out in the order they were published in, and a socket is short of them by
exactly what it was told that it missed. -/

namespace Omniscient.Gateway

inductive Feed.Stepped (partitioner : String → Nat) (feed : Feed) : FeedEvent → Feed → Prop where
  | publish (event : MatchEvent) : Stepped partitioner feed (.publish event) (feed.publish partitioner event)
  | poll {partition : Nat} {event : MatchEvent}
      (found : (feed.topic partition)[feed.consumer.position partition]? = some event) :
      Stepped partitioner feed (.poll partition (feed.consumer.position partition))
        { feed with consumer := feed.consumer.deliver partition, sent := feed.sent ++ [event.serialize] }
  | commit {partition offset : Nat} (asked : offset ∈ feed.consumer.requested partition) :
      Stepped partitioner feed (.commit partition offset) { feed with consumer := feed.consumer.commit partition offset }
  | rebalance (partition : Nat) :
      Stepped partitioner feed (.rebalance partition) { feed with consumer := feed.consumer.rewind partition }
  | restart : Stepped partitioner feed .restart { feed with consumer := feed.consumer.restart, sent := [], sockets := [] }
  | subscribe : Stepped partitioner feed .subscribe { feed with sockets := feed.sockets ++ [.subscribe feed.sent] }
  | forward {index : Nat} {socket after : Socket} (found : feed.sockets[index]? = some socket)
      (turned : handleSocket feed.sent socket = some after) :
      Stepped partitioner feed (.forward index) { feed with sockets := feed.sockets.set index after }
  | close (index : Nat) : Stepped partitioner feed (.close index) { feed with sockets := feed.sockets.eraseIdx index }

variable {partitioner : String → Nat} {feed after : Feed} {event : FeedEvent} {trace : List FeedEvent} {market : String}

theorem Feed.Moves.stepped (moved : feed.Moves partitioner event after) : feed.Stepped partitioner event after := by
  cases event with
  | publish event =>
    cases moved
    exact .publish event
  | poll partition offset =>
    obtain ⟨event, found, placed⟩ := Option.bind_eq_some_iff.mp moved
    split at placed
    next here =>
      cases placed
      exact here ▸ .poll found
    next => cases placed
  | commit partition offset =>
    simp only [Feed.Moves, Feed.step] at moved
    split at moved
    next asked =>
      cases moved
      exact .commit asked
    next => cases moved
  | rebalance partition =>
    cases moved
    exact .rebalance partition
  | restart =>
    cases moved
    exact .restart
  | subscribe =>
    cases moved
    exact .subscribe
  | forward index =>
    obtain ⟨socket, found, rest⟩ := Option.bind_eq_some_iff.mp moved
    obtain ⟨next, turned, same⟩ := Option.bind_eq_some_iff.mp rest
    cases same
    exact .forward found turned
  | close index =>
    cases moved
    exact .close index

def Socket.Accounted (sent : List Json) (socket : Socket) : Prop :=
  Broadcast.Account sent socket.start socket.position socket.missed socket.texts

private theorem handleSocket_accounts {sent : List Json} {socket next : Socket}
    (turned : handleSocket sent socket = some next)
    (accounted : socket.Accounted sent) : next.Accounted sent := by
  obtain ⟨⟨received, position⟩, given, rest⟩ := Option.bind_eq_some_iff.mp turned
  cases received with
  | value msg =>
    cases rest
    exact accounted.value given
  | lagged missed =>
    cases rest
    exact accounted.lagged given

private theorem handleSocket_keeps {sent : List Json} {socket next : Socket}
    (turned : handleSocket sent socket = some next)
    (close : sent.length ≤ socket.position + CHANNEL_CAPACITY) : next.missed = socket.missed := by
  obtain ⟨⟨received, position⟩, given, rest⟩ := Option.bind_eq_some_iff.mp turned
  cases received with
  | value msg =>
    cases rest
    rfl
  | lagged missed => exact absurd given (Broadcast.recv_kept close)

theorem Feed.Stepped.accounted (stepped : feed.Stepped partitioner event after)
    (accounted : ∀ socket ∈ feed.sockets, socket.Accounted feed.sent) : ∀ socket ∈ after.sockets, socket.Accounted after.sent := by
  cases stepped with
  | poll found => exact fun socket member => (accounted socket member).send _
  | restart => exact fun _ member => (by cases member)
  | subscribe =>
    intro socket member
    rcases List.mem_append.mp member with earlier | last
    · exact accounted socket earlier
    · rw [List.mem_singleton.mp last]
      exact .subscribe
  | forward found turned =>
    intro socket member
    rcases List.mem_or_eq_of_mem_set member with other | rfl
    · exact accounted socket other
    · exact handleSocket_accounts turned (accounted _ (List.mem_of_getElem? found))
  | close index => exact fun socket member => accounted socket (List.mem_of_mem_eraseIdx member)
  | _ => exact accounted

/-- The matches of a market, in the order they were published in. -/
def publishedIn (market : String) (trace : List FeedEvent) : List MatchEvent :=
  trace.filterMap fun event => match event with
    | .publish event => if event.marketId = market then some event else none
    | _ => none

private theorem mem_publishedIn {event : MatchEvent} : event ∈ publishedIn market trace ↔
    .publish event ∈ trace ∧ event.marketId = market := by
  rw [publishedIn, List.mem_filterMap]
  constructor
  · intro holds
    obtain ⟨published, member, same⟩ := holds
    split at same
    next =>
      split at same
      next of =>
        cases same
        exact ⟨member, of⟩
      next => cases same
    next => cases same
  · intro holds
    obtain ⟨member, of⟩ := holds
    exact ⟨_, member, if_pos of⟩

structure Feed.Filed (partitioner : String → Nat) (trace : List FeedEvent) (feed : Feed) : Prop where
  placed : ∀ partition, ∀ event ∈ feed.topic partition, partitioner event.marketId = partition
  markets : ∀ market, (feed.topic (partitioner market)).filter (·.marketId = market) = publishedIn market trace

theorem Feed.Stepped.filed (stepped : feed.Stepped partitioner event after) (filed : feed.Filed partitioner trace) :
    after.Filed partitioner (trace ++ [event]) := by
  have elsewhere (quiet : ∀ market, publishedIn market [event] = []) (market : String) :
      publishedIn market (trace ++ [event]) = publishedIn market trace := by
    rw [publishedIn, List.filterMap_append]
    exact (congrArg _ (quiet market)).trans (List.append_nil _)
  cases stepped with
  | publish event =>
    constructor
    · intro partition other member
      rw [publish_topic] at member
      split at member
      next here =>
        rcases List.mem_append.mp member with earlier | last
        · exact (filed.placed _ other earlier).trans here.symm
        · rw [List.mem_singleton.mp last, here]
      next => exact filed.placed partition other member
    · intro market
      rw [publishedIn, List.filterMap_append, ← publishedIn, ← filed.markets market, publish_topic]
      by_cases of : event.marketId = market
      · rw [if_pos (congrArg partitioner of).symm, List.filter_append, of]
        simp [of]
      · split
        next here =>
          rw [List.filter_append, here]
          simp [of]
        next => simp [of]
  | _ => exact ⟨filed.placed, fun market => (filed.markets market).trans (elsewhere (fun _ => rfl) market).symm⟩

theorem Feed.Stepped.grows (stepped : feed.Stepped partitioner event after) (partition : Nat) :
    feed.topic partition <+: after.topic partition := by
  cases stepped with
  | publish event =>
    rw [publish_topic]
    split
    next here => exact here ▸ List.prefix_append _ _
    next => exact List.prefix_rfl
  | _ => exact List.prefix_rfl

def Feed.Polled (trace : List FeedEvent) (feed : Feed) (partition offset : Nat) : Prop :=
  .poll partition offset ∈ trace ∧ offset < (feed.topic partition).length

theorem Feed.Stepped.covers (stepped : feed.Stepped partitioner event after)
    (covers : feed.consumer.Covers (feed.Polled trace)) : after.consumer.Covers (after.Polled (trace ++ [event])) := by
  have kept : feed.consumer.Covers (after.Polled (trace ++ [event])) :=
    covers.mono fun partition offset polled =>
      ⟨List.mem_append_left _ polled.1, polled.2.trans_le (stepped.grows partition).length_le⟩
  cases stepped with
  | poll found =>
    exact kept.deliver ⟨List.mem_append_right _ (List.mem_singleton.mpr rfl), (List.getElem?_eq_some_iff.mp found).1⟩
  | commit asked => exact kept.commit asked
  | rebalance partition => exact kept.rewind
  | restart => exact kept.restart
  | _ => exact kept

theorem position_le (covers : feed.consumer.Covers (feed.Polled trace)) (partition : Nat) :
    feed.consumer.position partition ≤ (feed.topic partition).length :=
  Nat.le_of_not_lt fun beyond => Nat.lt_irrefl _ (covers.position partition _ beyond).2

def Feed.Genuine (feed : Feed) : Prop :=
  ∀ value ∈ feed.sent, ∃ partition, ∃ event ∈ feed.topic partition, value = event.serialize

theorem Feed.Stepped.genuine (stepped : feed.Stepped partitioner event after) (genuine : feed.Genuine) : after.Genuine := by
  have kept : ∀ value ∈ feed.sent, ∃ partition, ∃ event ∈ after.topic partition, value = event.serialize := by
    intro value member
    obtain ⟨partition, event, filed, same⟩ := genuine value member
    exact ⟨partition, event, (stepped.grows partition).subset filed, same⟩
  cases stepped with
  | @poll partition event found =>
    intro value member
    rcases List.mem_append.mp member with earlier | last
    · exact kept value earlier
    · exact ⟨partition, event, List.mem_of_getElem? found, List.mem_singleton.mp last⟩
  | restart => exact fun _ member => (by cases member)
  | _ => exact kept

def ofMarket (market : String) : Json → Bool
  | .object (("market_id", .string name) :: _) => name = market
  | _ => false

def life (trace : List FeedEvent) : List FeedEvent :=
  trace.foldl (fun life event => if event = .restart then [] else life ++ [event]) []

private theorem life_append : life (trace ++ [event]) = if event = .restart then [] else life trace ++ [event] := by
  rw [life, List.foldl_append]
  rfl

/-- The partition of a market has not been assigned anew since. -/
def Undisturbed (partitioner : String → Nat) (trace : List FeedEvent) (market : String) : Prop :=
  .rebalance (partitioner market) ∉ life trace

/-- Of a market, one stretch of its partition has been broadcast. -/
def Feed.InOrder (partitioner : String → Nat) (feed : Feed) (market : String) : Prop :=
  ∃ first ≤ feed.consumer.position (partitioner market), feed.sent.filter (ofMarket market) =
    ((((feed.topic (partitioner market)).take (feed.consumer.position (partitioner market))).drop first).map
      MatchEvent.serialize).filter (ofMarket market)

theorem Feed.Stepped.inOrder (stepped : feed.Stepped partitioner event after) (filed : feed.Filed partitioner trace)
    (covers : feed.consumer.Covers (feed.Polled trace))
    (inOrder : Undisturbed partitioner trace market → feed.InOrder partitioner market)
    (undisturbed : Undisturbed partitioner (trace ++ [event]) market) : after.InOrder partitioner market := by
  rw [Undisturbed, life_append] at undisturbed
  by_cases restarted : event = .restart
  · subst restarted
    cases stepped
    exact ⟨feed.consumer.committed (partitioner market), Nat.le_refl _, by simp [Consumer.restart]⟩
  rw [if_neg restarted, List.mem_append, List.mem_singleton, not_or] at undisturbed
  obtain ⟨first, started, stretch⟩ := inOrder undisturbed.1
  cases stepped with
  | publish event =>
    refine ⟨first, started, ?_⟩
    rw [publish_topic]
    split
    next here =>
      have bound := position_le covers (partitioner market)
      exact here ▸ (List.take_append_of_le_length bound).symm ▸ stretch
    next => exact stretch
  | @poll partition event found =>
    by_cases here : partition = partitioner market
    · subst here
      refine ⟨first, ?_, ?_⟩
      · rw [Consumer.deliver_position, if_pos rfl]
        exact Nat.le_succ_of_le started
      · rw [List.filter_append, stretch, Consumer.deliver_position, if_pos rfl, Broadcast.window_succ started found,
          List.map_append, List.filter_append]
        rfl
    · refine ⟨first, ?_, ?_⟩
      · rw [Consumer.deliver_position, if_neg (Ne.symm here)]
        exact started
      · have other : ofMarket market event.serialize = false := by
          refine decide_eq_false fun same => here ?_
          rw [← filed.placed partition event (List.mem_of_getElem? found), same]
        rw [List.filter_append, stretch, Consumer.deliver_position, if_neg (Ne.symm here), List.filter_cons_of_neg (by simp [other]),
          List.filter_nil, List.append_nil]
  | rebalance partition =>
    have elsewhere : partitioner market ≠ partition := fun same => undisturbed.2 (same ▸ rfl)
    refine ⟨first, ?_, ?_⟩
    · rw [Consumer.rewind_position, if_neg elsewhere]
      exact started
    · rw [Consumer.rewind_position, if_neg elsewhere]
      exact stretch
  | restart => exact absurd rfl restarted
  | _ => exact ⟨first, started, stretch⟩

/-- A stretch of a market's partition is a part of what was published for it. -/
theorem Feed.InOrder.sublist (inOrder : feed.InOrder partitioner market) (filed : feed.Filed partitioner trace) :
    (feed.sent.filter (ofMarket market)).Sublist ((publishedIn market trace).map MatchEvent.serialize) := by
  obtain ⟨first, -, stretch⟩ := inOrder
  have whole : ((feed.topic (partitioner market)).map MatchEvent.serialize).filter (ofMarket market) =
      (publishedIn market trace).map MatchEvent.serialize := by
    rw [List.filter_map, ← filed.markets market]
    rfl
  rw [stretch, ← whole]
  exact (((List.drop_sublist _ _).trans (List.take_sublist _ _)).map _).filter _

/-- In every run of the feed: nothing before a committed offset is never broadcast; what
is broadcast was published; a socket has been sent what was broadcast since it was
opened, short of exactly what it was told that it missed, and misses nothing at a turn
where it is no further behind than the channel keeps; and of a market whose partition
was not assigned anew since the gateway started, in the order of publication and never
twice. -/
theorem live_feed (run : Run (Feed.Moves partitioner) .empty trace feed) :
    (∀ partition offset, offset < feed.consumer.position partition ∨ offset < feed.consumer.committed partition →
      .poll partition offset ∈ trace) ∧
    (∀ value ∈ feed.sent, ∃ event, .publish event ∈ trace ∧ value = event.serialize) ∧
    (∀ socket ∈ feed.sockets, socket.Accounted feed.sent ∧
      (socket.missed = 0 → socket.texts = (feed.sent.take socket.position).drop socket.start) ∧
      ∀ next, handleSocket feed.sent socket = some next →
        feed.sent.length ≤ socket.position + CHANNEL_CAPACITY → next.missed = socket.missed) ∧
    ∀ market, Undisturbed partitioner trace market → ∀ socket ∈ feed.sockets,
      (socket.texts.filter (ofMarket market)).Sublist ((publishedIn market trace).map MatchEvent.serialize) := by
  have invariant : (feed.consumer.Covers (feed.Polled trace) ∧ feed.Filed partitioner trace ∧ feed.Genuine) ∧
      (∀ socket ∈ feed.sockets, socket.Accounted feed.sent) ∧
      ∀ market, Undisturbed partitioner trace market → feed.InOrder partitioner market := by
    apply run.invariant fun trace feed => (feed.consumer.Covers (feed.Polled trace) ∧ feed.Filed partitioner trace ∧
      feed.Genuine) ∧ (∀ socket ∈ feed.sockets, socket.Accounted feed.sent) ∧
        ∀ market, Undisturbed partitioner trace market → feed.InOrder partitioner market
    · refine ⟨⟨Consumer.covers_start, ⟨fun _ _ none => (by cases none), fun _ => rfl⟩, fun _ none => (by cases none)⟩,
        fun _ none => (by cases none), fun market _ => ⟨0, Nat.le_refl _, rfl⟩⟩
    · rintro trace feed event after - ⟨⟨covers, filed, genuine⟩, accounted, inOrder⟩ moved
      have stepped := moved.stepped
      exact ⟨⟨stepped.covers covers, stepped.filed filed, stepped.genuine genuine⟩, stepped.accounted accounted,
        fun market => stepped.inOrder filed covers (inOrder market)⟩
  obtain ⟨⟨covers, filed, genuine⟩, accounted, inOrder⟩ := invariant
  refine ⟨?_, ?_, ?_, ?_⟩
  · intro partition offset either
    rcases either with below | below
    · exact (covers.position partition offset below).1
    · exact (covers.committed partition offset below).1
  · intro value member
    obtain ⟨partition, event, found, same⟩ := genuine value member
    have published : event ∈ publishedIn event.marketId trace := by
      rw [← filed.markets event.marketId, filed.placed partition event found]
      exact List.mem_filter.mpr ⟨found, decide_eq_true rfl⟩
    exact ⟨event, (mem_publishedIn.mp published).1, same⟩
  · intro socket member
    refine ⟨accounted socket member, fun none => ?_, fun next turned close => handleSocket_keeps turned close⟩
    have account := accounted socket member
    rw [Socket.Accounted, none] at account
    exact account.complete
  · intro market undisturbed socket member
    have given : socket.texts.Sublist feed.sent :=
      (accounted socket member).ordered.trans ((List.drop_sublist _ _).trans (List.take_sublist _ _))
    exact (given.filter _).trans ((inOrder market undisturbed).sublist filed)

namespace Sample

def marketMatch (amount : UInt64) : MatchEvent where
  marketId := "0x01"
  maker := "0x02"
  taker := "0x03"
  price := 500000
  amount
  side := "buy"

/-- The second match is broadcast again behind a restart, to a client that came back. -/
def feeding : List FeedEvent :=
  [.subscribe, .publish (marketMatch 1), .publish (marketMatch 2), .poll 0 0, .forward 0, .poll 0 1, .commit 0 1,
    .restart, .subscribe, .poll 0 1, .forward 0]

end Sample

theorem live_feed_sample : ∃ feed, Run (Feed.Moves fun _ => 0) .empty Sample.feeding feed ∧
    ∃ socket ∈ feed.sockets, socket.texts.length = 1 ∧ (socket.texts.filter (ofMarket "0x01")).Sublist
      ((publishedIn "0x01" Sample.feeding).map MatchEvent.serialize) := by
  obtain ⟨feed, run, seen⟩ := @Run.of_check Feed FeedEvent (Feed.step fun _ => 0) .empty Sample.feeding
    (fun feed => feed.sockets.map (·.texts.length) = [1]) (by decide +kernel)
  obtain ⟨socket, only, length⟩ := List.map_eq_singleton_iff.mp (of_decide_eq_true seen)
  have member : socket ∈ feed.sockets := only ▸ List.mem_singleton.mpr rfl
  refine ⟨feed, run, socket, member, length, (live_feed run).2.2.2 "0x01" ?_ socket member⟩
  unfold Undisturbed
  decide +kernel

end Omniscient.Gateway

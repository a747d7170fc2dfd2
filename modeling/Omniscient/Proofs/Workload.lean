import Omniscient.Lib.Amortized
import Omniscient.Lib.Totals
import Omniscient.Proofs.GatewaySteps
import Omniscient.Proofs.Restart

/-! The gateway gets through its work. Every order and every cancellation brings in what
it will ever cost: its statements, its answer, its match and the fills that are persisted.
An order at rest has one fill saved up, the one that will exhaust it. -/

namespace Omniscient.Gateway

/-- The steps by which the gateway works; the others are done to it. -/
def Event.isWork : Event → Bool
  | .request _ | .respond _ | .matching | .receive | .persist => true
  | _ => false

def Event.isOrder : Event → Bool
  | .postOrder .. => true
  | _ => false

def Event.isCancel : Event → Bool
  | .postCancel .. => true
  | _ => false

def Event.cost (event : Event) : Nat := if event.isWork then 1 else 0

/-- What a command is queued with: its match, and for an order its result and one fill. -/
def MatchCommand.work (command : MatchCommand) : Nat := if command.order.isSome then 5 else 1

def MatchResult.work (result : MatchResult) : Nat := 1 + 3 * result.fills.length

def Operation.cost : Operation → Nat
  | .trySend command => 1 + command.work
  | .execute _ | .publish _ => 1

def Event.income : Event → Nat
  | .postOrder .. => 11
  | .postCancel .. => 4
  | _ => 0

private theorem matchLevel_fills (taker : Taker) (queue : List RestingOrder) (remaining : UInt64) :
    (matchLevel taker queue remaining).fills.length ≤ queue.length := by
  apply matchLevel_induct (motive := fun queue _ matched => matched.fills.length ≤ queue.length)
  · exact fun _ => le_refl _
  · exact fun _ => Nat.zero_le _
  · exact fun maker queue _ _ _ _ ih => ih.trans (Nat.le_succ _)
  · exact fun maker queue _ _ _ _ _ ih => Nat.succ_le_succ ih
  · exact fun maker queue _ _ _ _ => Nat.succ_le_succ (Nat.zero_le _)

private theorem matchLevel_spends (taker : Taker) (queue : List RestingOrder) (remaining : UInt64) :
    (matchLevel taker queue remaining).fills.length + (matchLevel taker queue remaining).left.length ≤
      queue.length + if (matchLevel taker queue remaining).remaining = 0 then 1 else 0 := by
  apply matchLevel_induct (motive := fun queue _ matched =>
    matched.fills.length + matched.left.length ≤ queue.length + if matched.remaining = 0 then 1 else 0)
  · exact fun _ => Nat.zero_le _
  · intro queue
    simp
  · intro maker queue remaining matched _ _ ih
    rw [List.length_cons]
    omega
  · intro maker queue remaining matched _ _ _ ih
    simp only [List.length_cons]
    omega
  · intro maker queue remaining _ _ _
    simp [Nat.add_comm]

private theorem matchLevels_spends (taker : Taker) (crosses : UInt64 → Bool) (levels : List Level)
    (remaining : UInt64) :
    (matchLevels taker crosses levels remaining).fills.length +
        (ordersOf (matchLevels taker crosses levels remaining).left).length ≤
      (ordersOf levels).length + if (matchLevels taker crosses levels remaining).remaining = 0 then 1 else 0 := by
  apply matchLevels_induct (motive := fun levels _ matched =>
    matched.fills.length + (ordersOf matched.left).length ≤
      (ordersOf levels).length + if matched.remaining = 0 then 1 else 0)
  · exact fun _ => Nat.zero_le _
  · intro level levels remaining _
    simp
  · intro price queue levels remaining matched _ _ _ ih
    have here := matchLevel_fills taker queue remaining
    simp only [ordersOf, List.flatMap_cons, List.length_append] at ih ⊢
    omega
  · intro price queue levels remaining _ _ _ zero
    have here := matchLevel_spends taker queue remaining
    simp only [zero, ordersOf, List.flatMap_cons, List.length_append, if_true] at here ⊢
    omega

private theorem matchOrder_spends (book : OrderBook) (order : RestingOrder) :
    (book.incoming order).fills.length + (book.matchOrder order).2.2.resting.length ≤
      book.resting.length + if (book.incoming order).remaining = 0 then 1 else 0 := by
  obtain ⟨-, -, left, -⟩ := matchOrder_eq book order
  have spends : (book.incoming order).fills.length + (ordersOf (book.incoming order).left).length ≤
      (ordersOf (book.opposite order.side)).length + if (book.incoming order).remaining = 0 then 1 else 0 :=
    matchLevels_spends ..
  have before := (resting_opposite book order.side).length_eq
  have after := (resting_opposite (book.matchOrder order).2.2 order.side).length_eq
  rw [left, matchOrder_levels, List.length_append] at after
  rw [List.length_append] at before
  omega

private theorem process_spends (books : Books) (command : MatchCommand) :
    (∀ position, position ≠ command.position →
      (restingAt (process books command).1 position).length ≤ (restingAt books position).length) ∧
    (resultFills (process books command).2).length + (restingAt (process books command).1 command.position).length ≤
      (restingAt books command.position).length + if command.order.isSome then 1 else 0 := by
  cases places : command.order with
  | none =>
    obtain ⟨none, removed⟩ := @process_withdraws books command places
    exact ⟨fun position _ => (removed position).length_le, by simpa [none] using (removed command.position).length_le⟩
  | some order =>
    obtain ⟨fills, others, here⟩ := @process_places books command order places
    refine ⟨fun position elsewhere => (congrArg List.length (others position elsewhere)).le, ?_⟩
    have spends := matchOrder_spends ((books command.position).getD .new) order
    rw [fills]
    simp only [Option.isSome_some, if_true]
    rcases here with ⟨zero, same⟩ | ⟨positive, seq, same⟩
    · rw [same]
      rwa [if_pos zero] at spends
    · rw [same.length_eq, List.length_cons]
      rw [if_neg positive] at spends
      unfold restingAt
      omega

def Resting (books : Books) (count : Nat) : Prop :=
  ∀ positions : Finset Uint256, ∑ position ∈ positions, (restingAt books position).length ≤ count

theorem Resting.processed {books : Books} {count : Nat} (resting : Resting books count) (command : MatchCommand) :
    ∃ left, Resting (process books command).1 left ∧
      left + (resultFills (process books command).2).length ≤ count + if command.order.isSome then 1 else 0 := by
  obtain ⟨others, here⟩ := process_spends books command
  have bounded := Totals.sum_bounded resting others here
  refine ⟨count + (if command.order.isSome then 1 else 0) - (resultFills (process books command).2).length, ?_, ?_⟩
  · intro positions
    have bound := bounded positions
    omega
  · have bound := bounded ∅
    omega

private theorem process_work (books : Books) (command : MatchCommand) :
    ((process books command).2.toList.map MatchResult.work).sum =
      if command.order.isSome then 1 + 3 * (resultFills (process books command).2).length else 0 := by
  cases command with
  | placeOrder =>
    rw [process_placeOrder]
    simp [MatchCommand.order, MatchResult.work, resultFills]
  | cancelOrder =>
    simp only [process]
    split <;> rfl
  | cancelAll =>
    simp only [process]
    split <;> rfl
  | shutdown => rfl

theorem execute_affords {statement : Statement} {left failed : Nat} (less : failed ≤ left) :
    (execute statement).run.Affords Operation.cost (Program.leaving left failed) (1 + left) := by
  apply Program.affords_bind (Program.affords_request (Operation.execute statement) left)
  intro answer
  apply Program.affords_pure
  cases answer with
  | ok affected => exact le_refl _
  | error error => exact less

theorem statement_affords {statement : Statement} {left failed : Nat} (less : failed ≤ left) :
    (execute statement >>= fun _ => pure ()).run.Affords Operation.cost (Program.leaving left failed) (1 + left) :=
  Program.affords_seq (execute_affords less) fun _ => Program.affords_ok (le_refl _)

theorem labelled_affords {label : String} {attempt : ExceptT String Effect Unit} {left failed budget : Nat}
    (affords : attempt.run.Affords Operation.cost (Program.leaving left failed) budget) :
    (labelled label attempt).run.Affords Operation.cost (Program.leaving left failed) budget := by
  apply Program.affords_bind affords
  intro result
  apply Program.affords_pure
  cases result <;> exact le_refl _

theorem compensated_affords {label : String} {attempt compensation : ExceptT String Effect Unit}
    {left repair failed budget : Nat}
    (affords : attempt.run.Affords Operation.cost (Program.leaving left repair) budget)
    (repairs : compensation.run.Affords Operation.cost (Program.leaving failed failed) repair) :
    (compensated label attempt compensation).run.Affords Operation.cost (Program.leaving left failed) budget := by
  apply Program.affords_bind affords
  intro result
  cases result with
  | ok value => exact Program.affords_ok (le_refl _)
  | error error =>
    apply Program.affords_bind repairs
    intro result
    apply Program.affords_error
    cases result <;> exact le_refl _

theorem enqueue_affords {command : MatchCommand} {left failed : Nat} (less : failed ≤ left) :
    (enqueue command).run.Affords Operation.cost (Program.leaving left failed) (1 + command.work + left) := by
  apply Program.affords_bind (Program.affords_request (Operation.trySend command) left)
  intro sent
  cases sent with
  | true => exact Program.affords_ok (le_refl _)
  | false => exact Program.affords_error less

private theorem reserveCollateral_affords {maker : Address} {assetType : AssetType} {positionId : Option Uint256}
    {amount : UInt64} {left failed : Nat} (less : failed ≤ left) :
    (reserveCollateral maker assetType positionId amount).run.Affords Operation.cost (Program.leaving left failed)
      (1 + left) := by
  refine Program.affords_seq (execute_affords less) fun affected => ?_
  split
  next => exact Program.affords_error less
  next => exact Program.affords_ok (le_refl _)

private theorem acceptOrder_affords (crypto : Crypto) (config : AppConfig) (now : UInt64) (orderId : OrderId)
    (signed : SignedOrder) (marketId : MarketId) :
    (acceptOrder crypto config now orderId signed marketId).run.Affords Operation.cost (Program.leaving 1 1) 11 := by
  unfold acceptOrder
  refine @Program.affords_seq _ _ _ _ _ _ _ _ 11 _ _ _ ?_ fun maker => ?_
  · cases validateSignedOrder crypto config now signed with
    | ok maker => exact Program.affords_ok (le_refl _)
    | error error => exact Program.affords_error (by decide)
  refine Program.affords_seq (labelled_affords (@statement_affords _ 10 _ (by decide))) fun _ => ?_
  refine Program.affords_seq (labelled_affords (@reserveCollateral_affords _ _ _ _ 9 _ (by decide))) fun _ => ?_
  refine Program.affords_seq (compensated_affords (@statement_affords _ 8 8 (le_refl _))
    ((@statement_affords _ 1 1 (le_refl _)).mono (by decide))) fun _ => ?_
  refine Program.affords_seq (compensated_affords (@statement_affords _ 7 7 (le_refl _))
    ((@statement_affords _ 1 1 (le_refl _)).mono (by decide))) fun _ => ?_
  exact Program.affords_seq (@enqueue_affords _ 1 _ (le_refl _)) fun _ => Program.affords_ok (le_refl _)

private theorem cancelOrder_affords (orderId : OrderId) (positionId : Uint256) :
    (cancelOrder orderId positionId).run.Affords Operation.cost (Program.leaving 1 1) 4 :=
  Program.affords_seq (@enqueue_affords _ 2 _ (by decide)) fun _ =>
    labelled_affords (@statement_affords _ 1 _ (le_refl _))

private theorem processMatchResult_affords (result : MatchResult) :
    (processMatchResult result).Affords Operation.cost (fun _ => 0) (3 * result.fills.length) := by
  apply Program.affords_forM
  intro fill _ left
  have published : (publishMatch result.marketId fill).Affords Operation.cost (fun _ => 1 + (1 + left))
    (1 + (1 + (1 + left))) :=
    Program.affords_request _ _
  apply Program.affords_bind (published.mono (by omega))
  intro _
  apply Program.affords_bind (@statement_affords _ (1 + left) _ (le_refl _))
  intro result
  rw [Program.leaving_same]
  apply Program.affords_bind (@statement_affords _ left _ (le_refl _))
  intro result
  rw [Program.leaving_same]
  exact Program.affords_pure (le_refl _)

structure Funds where
  requests : Nat
  processing : Nat
  resting : Nat

structure Funds.Cover (funds : Funds) (system : System) : Prop where
  requests : Program.AffordAll Operation.cost (fun _ => 1) system.requests funds.requests
  processing : system.processing.Affords Operation.cost (fun _ => 0) funds.processing
  resting : Resting system.books funds.resting

def Funds.total (funds : Funds) (system : System) : Nat :=
  funds.requests + (system.commands.map MatchCommand.work).sum + (system.results.map MatchResult.work).sum +
    funds.processing + 3 * funds.resting

def System.Saved (system : System) (savings : Nat) : Prop :=
  ∃ funds : Funds, funds.Cover system ∧ funds.total system = savings

theorem Performed.spends {system after : System} {operation : Operation} {answer : operation.Answer}
    (performed : Performed system operation answer after) :
    (after.commands.map MatchCommand.work).sum + 1 ≤ (system.commands.map MatchCommand.work).sum + operation.cost := by
  cases performed with
  | ran | failed | published => exact le_refl _
  | sent room =>
    simp only [List.map_append, List.map_singleton, List.sum_append, List.sum_singleton, Operation.cost]
    omega
  | refused full =>
    simp only [Operation.cost]
    omega

variable {crypto : Crypto} {config : AppConfig} {system after : System} {event : Event}

private theorem arriving_affords {request : Effect Response}
    (arriving : system.arriving crypto config event = some request) :
    request.Affords Operation.cost (fun _ => 1) event.income := by
  cases event with
  | postOrder orderId signed marketId =>
    cases arriving
    apply Program.affords_bind (acceptOrder_affords crypto config system.clock orderId signed marketId)
    intro result
    exact Program.affords_pure (Program.leaving_same 1 result).ge
  | postCancel orderId positionId =>
    cases arriving
    apply Program.affords_bind (cancelOrder_affords orderId positionId)
    intro result
    exact Program.affords_pure (Program.leaving_same 1 result).ge
  | _ => cases arriving

/-- Every step of the gateway's own is paid for, and every request brings in its share. -/
theorem Stepped.pays (stepped : Stepped crypto config system event after) {savings : Nat}
    (saved : system.Saved savings) :
    ∃ left, after.Saved left ∧ left + event.cost ≤ savings + event.income := by
  obtain ⟨funds, ⟨requests, processing, resting⟩, rfl⟩ := saved
  cases stepped with
  | arrives arriving =>
    have affords := arriving_affords arriving
    have all := Program.affordAll_append requests affords
    refine ⟨_, ⟨⟨_, funds.processing, funds.resting⟩, ⟨all, processing, resting⟩, rfl⟩, ?_⟩
    have free : event.cost = 0 := by cases event <;> first | rfl | cases arriving
    simp only [Funds.total, free]
    omega
  | request found performed =>
    obtain ⟨sameRequests, sameProcessing, sameBooks, sameResults⟩ := performed.frame
    obtain ⟨left, enough, affords⟩ := Program.affordAll_perform requests found
    have spends := performed.spends
    refine ⟨_, ⟨⟨left, funds.processing, funds.resting⟩, ⟨affords _, ?_, ?_⟩, rfl⟩, ?_⟩
    · exact sameProcessing ▸ processing
    · exact sameBooks ▸ resting
    · simp only [Funds.total, sameResults, Event.cost, Event.isWork, Event.income, if_true]
      omega
  | respond found =>
    obtain ⟨left, enough, affords⟩ := Program.affordAll_done requests found
    refine ⟨_, ⟨⟨left, funds.processing, funds.resting⟩, ⟨affords, processing, resting⟩, rfl⟩, ?_⟩
    simp only [Funds.total, Event.cost, Event.isWork, Event.income, if_true]
    omega
  | @matching command commands queued =>
    obtain ⟨left, rests, enough⟩ := resting.processed command
    refine ⟨_, ⟨⟨funds.requests, funds.processing, left⟩, ⟨requests, processing, rests⟩, rfl⟩, ?_⟩
    have yields := process_work system.books command
    simp only [Funds.total, queued, List.map_cons, List.sum_cons, List.map_append, List.sum_append, yields,
      MatchCommand.work, Event.cost, Event.isWork, Event.income, if_true]
    cases places : command.order.isSome with
    | true =>
      simp only [places, if_true] at enough ⊢
      omega
    | false =>
      simp only [places, Bool.false_eq_true, if_false] at enough ⊢
      omega
  | @receive result results idle queued =>
    refine ⟨_, ⟨⟨funds.requests, 3 * result.fills.length, funds.resting⟩,
      ⟨requests, processMatchResult_affords result, resting⟩, rfl⟩, ?_⟩
    simp only [Funds.total, queued, List.map_cons, List.sum_cons, MatchResult.work, Event.cost, Event.isWork,
      Event.income, if_true]
    omega
  | persist busy performed =>
    obtain ⟨sameRequests, sameProcessing, sameBooks, sameResults⟩ := performed.frame
    rw [busy] at processing
    obtain ⟨left, enough, affords⟩ := processing
    have spends := performed.spends
    refine ⟨_, ⟨⟨funds.requests, left, funds.resting⟩, ⟨?_, affords _, ?_⟩, rfl⟩, ?_⟩
    · exact sameRequests ▸ requests
    · exact sameBooks ▸ resting
    · simp only [Funds.total, sameResults, Event.cost, Event.isWork, Event.income, if_true]
      omega
  | clocks | ledger | invalidateNonce => exact ⟨_, ⟨funds, ⟨requests, processing, resting⟩, rfl⟩, le_refl _⟩

private theorem restart_saved {db : Database} {clock : UInt64} {dbClock : Nat}
    (started : System.restart db clock dbClock = some system) :
    system.Saved (3 * (openOrders db).length) := by
  obtain ⟨books, rebuilt, rfl⟩ := restart_some started
  refine ⟨⟨0, 0, (openOrders db).length⟩, ⟨trivial, Nat.zero_le _, fun positions => ?_⟩,
    by simp [Funds.total, System.starting]⟩
  have rests (position : Uint256) :
      (restingAt books position).length = ((openOrders db).filter (·.positionId = position)).length := by
    have same := (rebuilt_perm rebuilt position).length_eq
    rwa [unnumbered, List.length_map, List.length_map] at same
  calc
    ∑ position ∈ positions, (restingAt books position).length
    _ = ∑ position ∈ positions, ((openOrders db).filter (·.positionId = position)).length :=
      Finset.sum_congr rfl fun position _ => rests position
    _ ≤ (openOrders db).length := Totals.sum_filter_le ..

def System.finished (system : System) : Prop := system.requests = [] ∧ system.drained

theorem goes_on (unfinished : ¬ system.finished) :
    ∃ event after, event.isWork = true ∧ system.Moves crypto config event after := by
  have takes (event : Event) (works : event.isWork = true) (can : (system.step crypto config event).isSome) :
      ∃ event after, event.isWork = true ∧ system.Moves crypto config event after := by
    obtain ⟨after, moved⟩ := Option.isSome_iff_exists.mp can
    exact ⟨event, after, works, moved⟩
  cases requests : system.requests with
  | cons request rest =>
    cases request with
    | done response => exact takes (.respond 0) rfl (by simp [System.step, requests])
    | perform operation next => exact takes (.request 0) rfl (by simp [System.step, requests])
  | nil =>
    cases commands : system.commands with
    | cons command rest => exact takes .matching rfl (by simp [System.step, commands])
    | nil =>
      cases processing : system.processing with
      | perform operation next => exact takes .persist rfl (by simp [System.step, processing])
      | done value =>
        cases results : system.results with
        | cons result rest => exact takes .receive rfl (by simp [System.step, processing, results])
        | nil => exact absurd ⟨requests, commands, results, processing⟩ unfinished

theorem stays (finished : system.finished) (works : event.isWork = true) :
    ¬ system.Moves crypto config event after := by
  obtain ⟨requests, commands, results, processing⟩ := finished
  cases event with
  | request | respond | matching | receive | persist =>
    simp [System.Moves, System.step, requests, commands, results, processing]
  | _ => cases works

private theorem work_cost (works : event.isWork = true) : event.cost = 1 ∧ event.income = 0 := by
  cases event <;> first | exact ⟨rfl, rfl⟩ | cases works

private theorem income_sum (trace : List Event) :
    (trace.map Event.income).sum = 11 * trace.countP Event.isOrder + 4 * trace.countP Event.isCancel := by
  induction trace with
  | nil => rfl
  | cons event trace ih =>
    rw [List.map_cons, List.sum_cons, ih, List.countP_cons, List.countP_cons]
    cases event <;> simp [Event.income, Event.isOrder, Event.isCancel] <;> omega

private theorem cost_sum (trace : List Event) : (trace.map Event.cost).sum = trace.countP Event.isWork := by
  induction trace with
  | nil => rfl
  | cons event trace ih => rw [List.map_cons, List.sum_cons, ih, List.countP_cons, Event.cost, Nat.add_comm]

/-- The gateway gets through its work: in any order of its steps they are never more than
what its orders and cancellations bring in; it only stops where it is finished, and it
always can finish. -/
theorem work_ends {db : Database} {clock : UInt64} {dbClock : Nat} {trace : List Event}
    (started : System.restart db clock dbClock = some system)
    (run : Run (System.Moves crypto config) system trace after) :
    trace.countP Event.isWork ≤
      3 * (openOrders db).length + 11 * trace.countP Event.isOrder + 4 * trace.countP Event.isCancel ∧
    ((∀ event next, event.isWork = true → ¬ after.Moves crypto config event next) ↔
      after.requests = [] ∧ after.drained) ∧
    ∃ later last, Run (System.Moves crypto config) after later last ∧ (∀ event ∈ later, event.isWork = true) ∧
      last.requests = [] ∧ last.drained := by
  obtain ⟨left, saved, enough⟩ := run.paid (fun _ _ _ _ moved saved => moved.stepped.pays saved) (restart_saved started)
  rw [income_sum, cost_sum] at enough
  refine ⟨by omega, ⟨fun stuck => ?_, fun finished event next works => stays finished works⟩, ?_⟩
  · by_contra unfinished
    obtain ⟨event, next, works, moved⟩ := @goes_on crypto config after unfinished
    exact stuck event next works moved
  · refine @Run.finishes _ Event _ _ _ (Event.isWork · = true) System.finished ?_ (fun _ => goes_on) _ saved
    intro state event next savings moved works saved
    obtain ⟨left, saved, enough⟩ := moved.stepped.pays saved
    obtain ⟨cost, income⟩ := work_cost works
    exact ⟨left, saved, by omega⟩

namespace Sample

def bought : List Event :=
  [ .postOrder 102 (signedBy 6 .buy 510000 40 0) 1, .request 0, .request 0, .request 0, .request 0, .request 0,
    .respond 0 ]

end Sample

theorem work_ends_sample : ∃ after, Run (System.Moves Sample.signers Sample.deployment)
    Sample.restarted Sample.bought after ∧
    after.commands.length = 1 ∧ Sample.bought.countP Event.isWork ≤ 14 ∧
    ∃ later last, Run (System.Moves Sample.signers Sample.deployment) after later last ∧
      last.requests = [] ∧ last.drained := by
  obtain ⟨after, run, queued⟩ := @Sample.runs_from Sample.restarted Sample.bought
    (fun after => decide (after.commands.length = 1)) (by decide +kernel)
  obtain ⟨bound, -, later, last, goes, -, finished⟩ := work_ends Sample.restarts run
  exact ⟨after, run, of_decide_eq_true queued, bound, later, last, goes, finished⟩

end Omniscient.Gateway

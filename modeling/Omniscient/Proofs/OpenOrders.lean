import Omniscient.Proofs.Cancellation
import Omniscient.Proofs.MatcherRefinement
import Omniscient.Proofs.PersistedFills
import Omniscient.Proofs.SignedOrders

/-! No order that is open is filled beyond its amount, over crashes and restarts. An order
is a taker once, and its updates as a taker come before those as a maker; the first of
these closes its row. -/

namespace Omniscient.Gateway

def Operation.updates (id : OrderId) : Operation → List (Int × OrderStatus)
  | .execute (.updateOrderFilled orderId filledDelta status) => if orderId = id then [(filledDelta, status)] else []
  | _ => []

def updatesOf (id : OrderId) (operations : List Operation) : List (Int × OrderStatus) :=
  operations.flatMap (Operation.updates id)

@[simp] theorem updatesOf_nil (id : OrderId) : updatesOf id [] = [] := rfl

@[simp] theorem updatesOf_append (id : OrderId) (first second : List Operation) :
    updatesOf id (first ++ second) = updatesOf id first ++ updatesOf id second := List.flatMap_append

@[simp] theorem updatesOf_cons (id : OrderId) (operation : Operation) (operations : List Operation) :
    updatesOf id (operation :: operations) = operation.updates id ++ updatesOf id operations := List.flatMap_cons

/-- The row and its updates: those of a taker, which leave it open and within its amount,
and then those of a maker, which close it. -/
structure Sane (row : OrderRow) (updates : List (Int × OrderStatus)) : Prop where
  intro ::
  exact : ∃ takers makers : List Int,
    updates = takers.map (·, .open) ++ makers.map (·, .filled) ∧ (∀ taken ∈ takers, 0 ≤ taken) ∧
    (row.status = .filled → takers = []) ∧
    (row.status ≠ .filled → 0 ≤ row.filledAmount ∧ row.filledAmount + takers.sum ≤ row.amount)

theorem Sane.within {row : OrderRow} {updates : List (Int × OrderStatus)} (sane : Sane row updates)
    (live : row.status ≠ .filled) : 0 ≤ row.filledAmount ∧ row.filledAmount ≤ row.amount := by
  obtain ⟨takers, -, -, positive, -, bounds⟩ := sane
  obtain ⟨low, high⟩ := bounds live
  have more := List.sum_nonneg positive
  exact ⟨low, by omega⟩

def updated (row : OrderRow) (filledDelta : Int) (status : OrderStatus) : OrderRow :=
  { row with filledAmount := row.filledAmount + filledDelta, status }

theorem Sane.updated {row : OrderRow} {filledDelta : Int} {status : OrderStatus} {updates : List (Int × OrderStatus)}
    (sane : Sane row ((filledDelta, status) :: updates)) : Sane (Gateway.updated row filledDelta status) updates := by
  obtain ⟨takers, makers, same, positive, closed, bounds⟩ := sane
  cases takers with
  | nil =>
    cases makers with
    | nil => cases same
    | cons made makers =>
      cases same
      exact ⟨[], makers, rfl, nofun, fun _ => rfl, fun live => absurd rfl live⟩
  | cons taken takers =>
    cases same
    have live : row.status ≠ .filled := fun filled => nomatch closed filled
    obtain ⟨low, high⟩ := bounds live
    have one := positive filledDelta List.mem_cons_self
    refine ⟨takers, makers, rfl, fun other member => positive other (List.mem_cons_of_mem _ member), nofun, fun _ => ?_⟩
    rw [List.sum_cons] at high
    simp only [Gateway.updated]
    omega

theorem Sane.made {row : OrderRow} {updates : List (Int × OrderStatus)} (sane : Sane row updates) (more : List Int) :
    Sane row (updates ++ more.map (·, .filled)) := by
  obtain ⟨takers, makers, rfl, positive, closed, bounds⟩ := sane
  exact ⟨takers, makers ++ more, by simp, positive, closed, bounds⟩

def Closes (row after : OrderRow) : Prop :=
  after = row ∨ row.status ≠ .filled ∧ after = { row with status := .cancelled }

theorem Closes.sane {row after : OrderRow} (closes : Closes row after) {updates : List (Int × OrderStatus)}
    (sane : Sane row updates) : Sane after updates := by
  rcases closes with rfl | ⟨live, rfl⟩
  · exact sane
  · obtain ⟨takers, makers, rfl, positive, -, bounds⟩ := sane
    exact ⟨takers, makers, rfl, positive, nofun, fun _ => bounds live⟩

theorem Closes.orderId {row after : OrderRow} (closes : Closes row after) : after.orderId = row.orderId := by
  rcases closes with rfl | ⟨-, rfl⟩ <;> rfl

structure Due where
  orderId : OrderId
  positionId : Uint256
  amount : Int

structure Due.Row (due : Due) (row : OrderRow) : Prop where
  orderId : row.orderId = due.orderId
  positionId : row.positionId = due.positionId
  amount : row.amount = due.amount
  positive : 0 < row.amount
  unfilled : row.filledAmount = 0
  live : row.status ≠ .filled

structure Tally (rows : List OrderRow) (operations : List Operation) (dues : List Due) : Prop where
  keyed : (rows.map OrderRow.orderId).Nodup
  sane : ∀ row ∈ rows, Sane row (updatesOf row.orderId operations)
  known : ∀ id, updatesOf id operations ≠ [] → ∃ row ∈ rows, row.orderId = id
  untaken : ∀ due ∈ dues, updatesOf due.orderId operations = []
  standing : ∀ due ∈ dues, ∃ row ∈ rows, due.Row row

namespace Tally

variable {rows : List OrderRow} {operations : List Operation} {dues : List Due}

theorem same_row (tally : Tally rows operations dues) {first second : OrderRow} (one : first ∈ rows)
    (other : second ∈ rows) (same : first.orderId = second.orderId) : first = second :=
  List.inj_on_of_nodup_map tally.keyed one other same

theorem forgets (tally : Tally rows operations dues) {fewer : List Due} (within : ∀ due ∈ fewer, due ∈ dues) :
    Tally rows operations fewer :=
  ⟨tally.keyed, tally.sane, tally.known, fun due member => tally.untaken due (within due member),
    fun due member => tally.standing due (within due member)⟩

theorem ids_kept {set : OrderRow → OrderRow} (keeps : ∀ row, (set row).orderId = row.orderId) :
    (rows.map set).map OrderRow.orderId = rows.map OrderRow.orderId := by
  rw [List.map_map]
  exact List.map_congr_left fun row _ => keeps row

theorem closes (tally : Tally rows operations dues) {set : OrderRow → OrderRow}
    (closing : ∀ row, Closes row (set row)) :
    Tally (rows.map set) operations dues := by
  constructor
  · rw [ids_kept fun row => (closing row).orderId]
    exact tally.keyed
  · intro after member
    obtain ⟨row, before, rfl⟩ := List.mem_map.mp member
    rw [(closing row).orderId]
    exact (closing row).sane (tally.sane row before)
  · intro id some
    obtain ⟨row, before, own⟩ := tally.known id some
    exact ⟨set row, List.mem_map_of_mem before, (closing row).orderId.trans own⟩
  · exact tally.untaken
  · intro due member
    obtain ⟨row, before, ⟨id, position, amount, positive, unfilled, live⟩⟩ := tally.standing due member
    refine ⟨set row, List.mem_map_of_mem before, ?_⟩
    rcases closing row with same | ⟨-, same⟩
    · rw [same]
      exact ⟨id, position, amount, positive, unfilled, live⟩
    · rw [same]
      exact ⟨id, position, amount, positive, unfilled, nofun⟩

theorem inserts (tally : Tally rows operations dues) {row : OrderRow}
    (fresh : ∀ other ∈ rows, other.orderId ≠ row.orderId)
    (opened : row.status = .open) (unfilled : row.filledAmount = 0) (positive : 0 < row.amount) :
    Tally (rows ++ [row]) operations (⟨row.orderId, row.positionId, row.amount⟩ :: dues) := by
  have unknown : updatesOf row.orderId operations = [] := by
    by_contra some
    obtain ⟨other, before, own⟩ := tally.known _ some
    exact fresh other before own
  have live : row.status ≠ .filled := by rw [opened]; nofun
  constructor
  · rw [List.map_append]
    refine List.nodup_append'.mpr ⟨tally.keyed, List.nodup_singleton _, fun id before new => ?_⟩
    obtain ⟨other, member, rfl⟩ := List.mem_map.mp before
    exact fresh other member (List.mem_singleton.mp new)
  · intro other member
    rcases List.mem_append.mp member with before | new
    · exact tally.sane other before
    · rw [List.mem_singleton.mp new, unknown]
      refine ⟨[], [], rfl, nofun, fun _ => rfl, fun _ => ?_⟩
      rw [unfilled, List.sum_nil]
      omega
  · intro id some
    obtain ⟨other, before, own⟩ := tally.known id some
    exact ⟨other, List.mem_append_left _ before, own⟩
  · exact List.forall_mem_cons.mpr ⟨unknown, tally.untaken⟩
  · refine List.forall_mem_cons.mpr ⟨⟨row, ?_, rfl, rfl, rfl, positive, unfilled, live⟩, fun due member => ?_⟩
    · exact List.mem_append_right _ (List.mem_singleton.mpr rfl)
    · obtain ⟨other, before, standing⟩ := tally.standing due member
      exact ⟨other, List.mem_append_left _ before, standing⟩

theorem passes {operation : Operation} (tally : Tally rows (operation :: operations) dues)
    (other : ∀ id, operation.updates id = []) : Tally rows operations dues := by
  obtain ⟨keyed, sane, known, untaken, standing⟩ := tally
  simp only [updatesOf_cons, other, List.nil_append] at sane known untaken
  exact ⟨keyed, sane, known, untaken, standing⟩

theorem writes {id : OrderId} {filledDelta : Int} {status : OrderStatus}
    (tally : Tally rows (.execute (.updateOrderFilled id filledDelta status) :: operations) dues) :
    Tally (rows.map fun row => if row.orderId = id then updated row filledDelta status else row) operations dues := by
  obtain ⟨keyed, sane, known, untaken, standing⟩ := tally
  have keeps (row : OrderRow) :
      (if row.orderId = id then updated row filledDelta status else row).orderId = row.orderId := by
    split <;> rfl
  have before (other : OrderId) : updatesOf other (.execute (.updateOrderFilled id filledDelta status) :: operations) =
      (if id = other then [(filledDelta, status)] else []) ++ updatesOf other operations := rfl
  constructor
  · rw [ids_kept keeps]
    exact keyed
  · intro after member
    obtain ⟨row, inside, rfl⟩ := List.mem_map.mp member
    have was := sane row inside
    rw [before] at was
    rw [keeps]
    by_cases own : row.orderId = id
    · rw [if_pos own.symm] at was
      rw [if_pos own]
      exact was.updated
    · rw [if_neg (Ne.symm own)] at was
      rw [if_neg own]
      exact was
  · intro other some
    obtain ⟨row, inside, own⟩ := known other fun none => by
      rw [before] at none
      exact some (List.append_eq_nil_iff.mp none).2
    exact ⟨_, List.mem_map_of_mem inside, (keeps row).trans own⟩
  · intro due member
    have none := untaken due member
    rw [before] at none
    exact (List.append_eq_nil_iff.mp none).2
  · intro due member
    obtain ⟨row, inside, stands⟩ := standing due member
    have other : row.orderId ≠ id := by
      intro same
      subst same
      have none := untaken due member
      rw [before, if_pos stands.orderId] at none
      cases none
    exact ⟨_, List.mem_map_of_mem inside, by rwa [if_neg other]⟩

end Tally

section
variable {id : OrderId} {marketId : MarketId} {fills : List Fill}

theorem fill_updates (fill : Fill) : updatesOf id (fill.operations marketId) =
    (if fill.makerOrderId = id then [(i64OrZero fill.amount, OrderStatus.filled)] else []) ++
      if fill.takerOrderId = id then [(i64OrZero fill.amount, OrderStatus.open)] else [] := by
  simp [Fill.operations, Operation.updates]

private theorem taker_updates (takes : ∀ fill ∈ fills, fill.takerOrderId = id)
    (others : ∀ fill ∈ fills, fill.makerOrderId ≠ id) :
    updatesOf id (fills.flatMap (Fill.operations marketId)) =
      (fills.map fun fill => i64OrZero fill.amount).map (·, OrderStatus.open) := by
  induction fills with
  | nil => rfl
  | cons fill fills ih =>
    have later := ih (fun other member => takes other (List.mem_cons_of_mem _ member))
      fun other member => others other (List.mem_cons_of_mem _ member)
    rw [List.flatMap_cons, updatesOf_append, fill_updates, later, if_neg (others fill List.mem_cons_self),
      if_pos (takes fill List.mem_cons_self)]
    rfl

private theorem maker_updates (takes : ∀ fill ∈ fills, fill.takerOrderId ≠ id) :
    updatesOf id (fills.flatMap (Fill.operations marketId)) =
      ((fills.filter (·.makerOrderId = id)).map fun fill => i64OrZero fill.amount).map (·, OrderStatus.filled) := by
  induction fills with
  | nil => rfl
  | cons fill fills ih =>
    have later := ih fun other member => takes other (List.mem_cons_of_mem _ member)
    rw [List.flatMap_cons, updatesOf_append, fill_updates, later, if_neg (takes fill List.mem_cons_self),
      List.filter_cons]
    by_cases own : fill.makerOrderId = id
    · simp [own]
    · simp [own]

private theorem persisted_le (fills : List Fill) :
    (fills.map fun fill => i64OrZero fill.amount).sum ≤ filledBy fills := by
  induction fills with
  | nil => exact le_refl _
  | cons fill fills ih =>
    have one := i64OrZero_le fill.amount
    rw [List.map_cons, List.sum_cons, filledBy_cons]
    push_cast
    omega

variable {rows : List OrderRow} {operations : List Operation} {dues : List Due}

/-- An order is placed: it is the taker of its fills, and their makers are neither it
nor still to be placed. -/
private theorem Tally.matches {due : Due} (tally : Tally rows operations (due :: dues))
    (takes : ∀ fill ∈ fills, fill.takerOrderId = due.orderId) (apart : ∀ fill ∈ fills, fill.makerOrderId ≠ due.orderId)
    (within : (filledBy fills : Int) ≤ due.amount)
    (known : ∀ fill ∈ fills, ∃ row ∈ rows, row.orderId = fill.makerOrderId)
    (others : ∀ other ∈ dues, other.orderId ≠ due.orderId ∧ ∀ fill ∈ fills, fill.makerOrderId ≠ other.orderId) :
    Tally rows (operations ++ fills.flatMap (Fill.operations marketId)) dues := by
  have elsewhere {id : OrderId} (different : due.orderId ≠ id) :=
    @maker_updates id marketId fills fun fill member same => different ((takes fill member).symm.trans same)
  constructor
  · exact tally.keyed
  · intro row member
    have was := tally.sane row member
    rw [updatesOf_append]
    by_cases own : due.orderId = row.orderId
    · obtain ⟨other, inside, stands⟩ := tally.standing due List.mem_cons_self
      obtain rfl : other = row := tally.same_row inside member (stands.orderId.trans own)
      rw [← own, tally.untaken due List.mem_cons_self, taker_updates takes apart]
      refine ⟨fills.map fun fill => i64OrZero fill.amount, [], by simp, ?_, fun filled => absurd filled stands.live,
        fun _ => ?_⟩
      · intro taken listed
        obtain ⟨fill, -, rfl⟩ := List.mem_map.mp listed
        exact i64OrZero_nonneg _
      · have bound := persisted_le fills
        rw [stands.unfilled, stands.amount]
        omega
    · rw [elsewhere own]
      exact was.made _
  · intro id some
    by_cases before : updatesOf id operations = []
    · by_contra unknown
      have none : updatesOf id (fills.flatMap (Fill.operations marketId)) = [] := by
        have different : due.orderId ≠ id := by
          intro same
          subst same
          obtain ⟨row, inside, stands⟩ := tally.standing due List.mem_cons_self
          exact unknown ⟨row, inside, stands.orderId⟩
        rw [elsewhere different, List.map_eq_nil_iff, List.map_eq_nil_iff, List.filter_eq_nil_iff]
        intro fill member own
        obtain ⟨row, inside, same⟩ := known fill member
        exact unknown ⟨row, inside, same.trans (of_decide_eq_true own)⟩
      exact some (by rw [updatesOf_append, before, none, List.append_nil])
    · exact tally.known id before
  · intro other member
    obtain ⟨different, makers⟩ := others other member
    rw [updatesOf_append, tally.untaken other (List.mem_cons_of_mem _ member), elsewhere (Ne.symm different)]
    have none : fills.filter (·.makerOrderId = other.orderId) = [] := by
      apply List.filter_eq_nil_iff.mpr
      exact fun fill listed own => makers fill listed (of_decide_eq_true own)
    rw [none]
    rfl
  · exact fun other member => tally.standing other (List.mem_cons_of_mem _ member)

end

/-- What a stage is ready for, where what is placed has the amount that was inserted. -/
structure Stage.Sends (stage : Stage) (operation : Operation) : Prop where
  ready : stage.Ready operation
  amount : ∀ values command order, stage = .inserted values → operation = .trySend command →
    command.order = some order → values.amount = i64OrZero order.amount

def Operation.Places (operation : Operation) : Prop := ∃ command, operation = .trySend command ∧ command.order.isSome

private theorem sends_ready {stage : Stage} {operation : Operation} (ready : stage.Ready operation)
    (placeless : ¬ operation.Places) :
    stage.Sends operation := by
  refine ⟨ready, fun values command order _ same placed => absurd ?_ placeless⟩
  exact ⟨command, same, by rw [placed]; rfl⟩

theorem execute_placeless (statement : Statement) : ¬ (Operation.execute statement).Places :=
  fun ⟨_, same, _⟩ => nomatch same

theorem statements_send {α : Type} {attempt : ExceptT String Effect α} {stage : Stage}
    {post : Except String α → Stage → Prop} (follows : attempt.run.Follows Stage.Ready Stage.Moves post stage)
    (only : attempt.run.Only fun operation => ¬ operation.Places) :
    attempt.run.Follows Stage.Sends Stage.Moves post stage :=
  follows.narrow only fun _ _ => sends_ready

private theorem enqueue_sends {command : MatchCommand} {stage : Stage} (sends : stage.Sends (.trySend command)) :
    (enqueue command).run.Follows Stage.Sends Stage.Moves
      (Program.either (fun _ stage => stage = .idle) fun _ stage => stage = .idle) stage := by
  apply Program.follows_bind
  apply Program.follows_request sends
  intro sent after moved
  have idle : after = .idle := by cases moved <;> rfl
  cases sent with
  | true => exact idle
  | false => exact idle

section
variable {crypto : Crypto} {config : AppConfig} {now : UInt64} {orderId : OrderId} {signed : SignedOrder}
  {marketId : MarketId}

private theorem acceptOrder_sends :
    (acceptOrder crypto config now orderId signed marketId).run.Follows Stage.Sends Stage.Moves
    (Program.either (fun _ stage => stage = .idle) fun _ stage => stage = .idle) .idle := by
  unfold acceptOrder
  cases valid : validateSignedOrder crypto config now signed with
  | error error => exact rfl
  | ok maker =>
    obtain ⟨rfl, -, bounded, -⟩ := validateSignedOrder_ok valid
    let values := signed.values marketId orderId
    have backed (positive : 0 < values.amount) := (backed_collateral bounded positive).symm
    have statement (statement : Statement) :
        (execute statement >>= fun _ => pure ()).run.Only fun operation => ¬ operation.Places :=
      statement_only (execute_placeless statement)
    apply Program.follows_ok.mpr
    refine Program.follows_seq (statements_send (labelled_follows ensureUser_keeps)
      (labelled_only (statement _))) fun _ stage reached => ?_
    subst reached
    refine Program.follows_seq (statements_send (labelled_follows reserveCollateral_keeps)
      (labelled_only (reserveCollateral_only (execute_placeless _)))) fun _ stage reached => ?_
    subst reached
    have inserts := @insertOrder_keeps _ _ values fun positive => ⟨(order_key signed.order).symm, backed positive⟩
    refine Program.follows_seq (statements_send (compensated_follows inserts fun stage reached =>
      reached ▸ releaseCollateral_keeps .release) (compensated_only (statement _) (statement _)))
        fun _ stage reached => ?_
    obtain ⟨rfl, priced, positive⟩ := reached
    have held : 0 < i64OrZero (.ofNat signed.order.requiredCollateral) :=
      backed positive ▸ collateral_pos priced positive
    have holds := @insertHold_keeps values ⟨signed.order.maker, signed.order.assetType,
      if signed.order.assetType = .ctf then some signed.order.positionId else none⟩ _ rfl held
    refine Program.follows_seq (statements_send (compensated_follows holds fun stage reached =>
      reached ▸ releaseCollateral_keeps .repair) (compensated_only (statement _) (statement _)))
        fun _ stage reached => ?_
    subst reached
    refine Program.follows_seq (enqueue_sends ⟨@Stage.Ready.place values .., ?_⟩) fun _ _ reached => reached
    intro others command order inserted sent placed
    cases inserted
    cases sent
    cases placed
    rfl

private theorem cancelOrder_sends {positionId : Uint256} :
    (cancelOrder orderId positionId).run.Follows Stage.Sends Stage.Moves
    (Program.either (fun _ stage => stage = .idle) fun _ stage => stage = .idle) .idle := by
  refine statements_send cancelOrder_keeps (cancelOrder_only (fun statement _ => execute_placeless statement) ?_)
  intro holds
  obtain ⟨command, same, placed⟩ := holds
  cases same
  cases placed

end

def Stage.due : Stage → Option Due
  | .inserted values => some ⟨values.orderId, values.positionId, values.amount⟩
  | _ => none

def MatchCommand.due (command : MatchCommand) : Option Due :=
  command.order.map fun order => ⟨order.orderId, command.position, i64OrZero order.amount⟩

def duesOf (stages : List Stage) (commands : List MatchCommand) : List Due :=
  stages.filterMap Stage.due ++ commands.filterMap MatchCommand.due

theorem mem_duesOf {stages : List Stage} {commands : List MatchCommand} {due : Due} : due ∈ duesOf stages commands ↔
    (∃ stage ∈ stages, stage.due = some due) ∨ ∃ command ∈ commands, command.due = some due := by
  simp [duesOf, List.mem_filterMap]

private theorem due_owed {stage : Stage} {due : Due} (owed : stage.due = some due) :
    stage.owes due.orderId due.positionId = 1 := by
  cases stage with
  | inserted values =>
    cases owed
    exact if_pos ⟨rfl, rfl⟩
  | _ => cases owed

theorem due_places {command : MatchCommand} {due : Due} (owed : command.due = some due) :
    command.places due.orderId due.positionId = true := by
  obtain ⟨order, placed, rfl⟩ := Option.map_eq_some_iff.mp owed
  simp [MatchCommand.places, placed]

theorem dues_counted {stages : List Stage} {commands : List MatchCommand} {due : Due}
    (member : due ∈ duesOf stages commands) :
    1 ≤ (stages.map (Stage.owes due.orderId due.positionId)).sum +
      commands.countP (·.places due.orderId due.positionId) := by
  rcases mem_duesOf.mp member with ⟨stage, inside, owed⟩ | ⟨command, inside, owed⟩
  · have one := List.le_sum_of_mem (List.mem_map_of_mem (f := Stage.owes due.orderId due.positionId) inside)
    rw [due_owed owed] at one
    omega
  · have some : 0 < commands.countP (·.places due.orderId due.positionId) :=
      List.countP_pos_iff.mpr ⟨command, inside, due_places owed⟩
    omega

theorem mem_duesOf_stage {front back : List Stage} {stage : Stage} {commands : List MatchCommand} {due : Due} :
    due ∈ duesOf (front ++ stage :: back) commands ↔ stage.due = some due ∨ due ∈ duesOf (front ++ back) commands := by
  simp only [mem_duesOf, List.mem_append, List.mem_cons]
  grind

private theorem mem_duesOf_sent {stages : List Stage} {commands : List MatchCommand} {command : MatchCommand}
    {due : Due} :
    due ∈ duesOf stages (commands ++ [command]) ↔ command.due = some due ∨ due ∈ duesOf stages commands := by
  simp only [mem_duesOf, List.mem_append, List.mem_singleton]
  grind

theorem mem_duesOf_taken {stages : List Stage} {commands : List MatchCommand} {command : MatchCommand} {due : Due} :
    due ∈ duesOf stages (command :: commands) ↔ command.due = some due ∨ due ∈ duesOf stages commands := by
  simp only [mem_duesOf, List.mem_cons]
  grind

theorem Stage.Sends.tally {system middle : System} {front back : List Stage} {stage next : Stage}
    {operation : Operation}
    {answer : operation.Answer} {operations : List Operation} (sends : stage.Sends operation)
    (moved : stage.Moves operation answer next) (performed : Performed system operation answer middle)
    (tally : Tally system.db.orders operations (duesOf (front ++ stage :: back) system.commands)) :
    Tally middle.db.orders operations (duesOf (front ++ next :: back) middle.commands) := by
  have fewer (less : next.due = none ∨ next.due = stage.due) :
      Tally system.db.orders operations (duesOf (front ++ next :: back) system.commands) := by
    refine tally.forgets fun due member => ?_
    rcases mem_duesOf_stage.mp member with own | other
    · rcases less with none | same
      · rw [none] at own
        cases own
      · exact mem_duesOf_stage.mpr (.inl (same ▸ own))
    · exact mem_duesOf_stage.mpr (.inr other)
  cases performed with
  | @ran statement affected db ran =>
    cases moved with
    | ensured | reserved | short | released | repaired =>
      rw [run_keepsOrders ran rfl]
      exact fewer (.inl rfl)
    | held =>
      rw [run_keepsOrders ran rfl]
      exact fewer (.inr rfl)
    | @inserted key amount values =>
      obtain ⟨-, positive, fresh, -, rfl⟩ := insertOrder_ok ran
      have added := @Tally.inserts _ _ _ tally (values.row system.dbClock) fresh rfl rfl positive
      refine added.forgets fun due member => ?_
      rcases mem_duesOf_stage.mp member with own | other
      · cases own
        exact List.mem_cons_self
      · exact List.mem_cons_of_mem _ (mem_duesOf_stage.mpr (.inr other))
    | closed =>
      cases ran
      refine (fewer (.inl rfl)).closes fun row => ?_
      split
      next cancels =>
        have opened := (of_decide_eq_true cancels).2
        exact .inr ⟨by rw [opened]; nofun, rfl⟩
      next => exact .inl rfl
  | failed =>
    cases moved with
    | ensured | unreserved | released | repaired | closed | unheld => exact fewer (.inl rfl)
    | refused => exact fewer (.inr rfl)
  | @sent command room =>
    refine tally.forgets fun due member => ?_
    rcases mem_duesOf_sent.mp member with own | before
    · obtain ⟨order, placed, rfl⟩ := Option.map_eq_some_iff.mp own
      refine mem_duesOf_stage.mpr (.inl ?_)
      cases ready : sends.ready with
      | @place values =>
        cases placed
        rw [← sends.amount values _ _ rfl rfl rfl]
        rfl
      | cancel => cases placed
    · rcases mem_duesOf_stage.mp before with own | other
      · cases moved <;> cases own
      · exact mem_duesOf_stage.mpr (.inr other)
  | refused full => cases moved <;> exact fewer (.inl rfl)
  | published => cases moved

def AllWithin (books : Books) : Prop := ∀ position, ∀ order ∈ restingAt books position, order.filled ≤ order.amount

private theorem incoming_remaining_le (book : OrderBook) (order : RestingOrder) :
    (book.incoming order).remaining ≤ order.amount := by
  have total : filledBy (book.incoming order).fills + (book.incoming order).remaining.toNat = order.amount.toNat :=
    matchLevels_total ..
  exact UInt64.le_iff_toNat_le.mpr (by omega)

theorem AllWithin.processed {books : Books} (within : AllWithin books) (command : MatchCommand) :
    AllWithin (process books command).1 := by
  intro position rested member
  cases places : command.order with
  | none => exact within position rested ((process_withdraws places).2 position |>.subset member)
  | some order =>
    have placing := @process_places books command order places
    by_cases here : position = command.position
    · subst here
      have matched : ∀ rested ∈ (((books command.position).getD .new).matchOrder order).2.2.resting,
          rested.filled ≤ rested.amount := by
        intro rested left
        obtain ⟨before, inside, survives⟩ := (matchOrder_remains _ order).survives rested left
        exact survives.within (within _ before inside)
      rcases placing.here with ⟨-, same⟩ | ⟨-, seq, same⟩
      · exact matched rested (same ▸ member)
      · rcases List.mem_cons.mp (same.mem_iff.mp member) with rfl | before
        · exact incoming_remaining_le _ order
        · exact matched rested before
    · rw [placing.others position here] at member
      exact within position rested member

structure System.Tallied (system : System) (stages : List Stage) (pending : List Operation) : Prop where
  requests : List.Forall₂ (fun stage (request : Effect Response) =>
    request.Follows Stage.Sends Stage.Moves (fun _ stage => stage = .idle) stage) stages system.requests
  processing : system.processing.Performs pending
  persists : system.processing.Only Operation.Persists
  backed : ∀ id position, system.Backed id position stages
  tally : Tally system.db.orders (pending ++ system.results.flatMap MatchResult.operations)
    (duesOf stages system.commands)
  within : AllWithin system.books

variable {crypto : Crypto} {config : AppConfig} {numbers : NumberColumn} {system after : System} {event : Event}
  {stages : List Stage} {pending : List Operation} {trace : List (System × Option Event)}

theorem restingCount_pos {books : Books} {position : Uint256} {order : RestingOrder}
    (rests : order ∈ restingAt books position) :
    0 < restingCount order.orderId position books := List.countP_pos_iff.mpr ⟨order, rests, decide_eq_true rfl⟩

theorem rowCount_pos {id : OrderId} {position : Uint256} {db : Database} (some : 0 < rowCount id position db) :
    ∃ row ∈ db.orders, row.orderId = id ∧ row.positionId = position := by
  obtain ⟨row, inside, both⟩ := List.countP_pos_iff.mp some
  exact ⟨row, inside, of_decide_eq_true both⟩

theorem System.Tallied.counted (tallied : system.Tallied stages pending) (id : OrderId) (position : Uint256) :
    (stages.map (Stage.owes id position)).sum + system.commands.countP (·.places id position) +
      restingCount id position system.books ≤ rowCount id position system.db := by
  have backed := tallied.backed id position
  unfold System.Backed load at backed
  omega

/-- A row is one placement at most, so an order still to be placed is not at rest. -/
theorem System.Tallied.apart (tallied : system.Tallied stages pending) {due : Due}
    (owed : due ∈ duesOf stages system.commands)
    {position : Uint256} {order : RestingOrder} (rests : order ∈ restingAt system.books position) :
    order.orderId ≠ due.orderId := by
  intro same
  have resting := restingCount_pos rests
  rw [same] at resting
  have placements := tallied.counted due.orderId position
  obtain ⟨row, member, stands⟩ := tallied.tally.standing due owed
  obtain ⟨other, inside, id, place⟩ := @rowCount_pos due.orderId position system.db (by omega)
  obtain rfl : other = row := tallied.tally.same_row inside member (id.trans stands.orderId.symm)
  have owes := dues_counted owed
  have one := Keyed.rows tallied.tally.keyed due.orderId position
  rw [← stands.positionId, place] at owes
  omega

theorem System.Tallied.known (tallied : system.Tallied stages pending) {position : Uint256} {order : RestingOrder}
    (rests : order ∈ restingAt system.books position) : ∃ row ∈ system.db.orders, row.orderId = order.orderId := by
  have resting := restingCount_pos rests
  have placements := tallied.counted order.orderId position
  obtain ⟨row, inside, id, -⟩ := @rowCount_pos order.orderId position system.db (by omega)
  exact ⟨row, inside, id⟩

/-- The command that is taken places an order that nothing else still places. -/
theorem System.Tallied.once (tallied : system.Tallied stages pending) {command : MatchCommand}
    {commands : List MatchCommand}
    (queued : system.commands = command :: commands) {due other : Due} (placed : command.due = some due)
    (owed : other ∈ duesOf stages commands) : other.orderId ≠ due.orderId := by
  intro same
  have placements := tallied.counted due.orderId due.positionId
  have standing := tallied.tally.standing
  rw [queued] at placements standing
  obtain ⟨row, inside, stands⟩ := standing due (mem_duesOf_taken.mpr (.inl placed))
  obtain ⟨row', inside', stands'⟩ := standing other (mem_duesOf_taken.mpr (.inr owed))
  obtain rfl : row' = row :=
    tallied.tally.same_row inside' inside ((stands'.orderId.trans same).trans stands.orderId.symm)
  have one := Keyed.rows tallied.tally.keyed due.orderId due.positionId
  have owes := dues_counted owed
  rw [same, ← stands'.positionId, stands.positionId] at owes
  rw [List.countP_cons, if_pos (due_places placed)] at placements
  omega

private theorem arriving_sends {request : Effect Response}
    (arriving : system.arriving crypto config event = some request) :
    request.Follows Stage.Sends Stage.Moves (fun _ stage => stage = .idle) .idle := by
  cases event with
  | postOrder orderId signed marketId =>
    cases arriving
    apply Program.follows_bind
    apply acceptOrder_sends.weaken
    intro result stage reached
    cases result with
    | ok value => exact reached
    | error error => exact reached
  | postCancel orderId positionId =>
    cases arriving
    apply Program.follows_bind
    apply cancelOrder_sends.weaken
    intro result stage reached
    cases result with
    | ok value => exact reached
    | error error => exact reached
  | _ => cases arriving

private theorem process_operations (books : Books) (command : MatchCommand) :
    ∃ marketId, (process books command).2.toList.flatMap MatchResult.operations =
      (resultFills (process books command).2).flatMap (Fill.operations marketId) := by
  cases (process books command).2 with
  | none => exact ⟨0, rfl⟩
  | some result => exact ⟨result.marketId, by simp [resultFills, MatchResult.operations]⟩

theorem System.Tallied.processed (tallied : system.Tallied stages pending) {command : MatchCommand}
    {commands : List MatchCommand} (queued : system.commands = command :: commands) {operations : List Operation}
    (tally : Tally system.db.orders operations (duesOf stages system.commands)) :
    Tally system.db.orders (operations ++ (process system.books command).2.toList.flatMap MatchResult.operations)
      (duesOf stages commands) := by
  obtain ⟨marketId, same⟩ := process_operations system.books command
  rw [same]
  have later (due : Due) (member : due ∈ duesOf stages commands) : due ∈ duesOf stages system.commands :=
    queued ▸ mem_duesOf_taken.mpr (.inr member)
  cases places : command.order with
  | none =>
    rw [(process_withdraws places).1]
    simpa using tally.forgets later
  | some order =>
    let due : Due := ⟨order.orderId, command.position, i64OrZero order.amount⟩
    have placed : command.due = some due := by simp [MatchCommand.due, places, due]
    have listed : due ∈ duesOf stages system.commands := queued ▸ mem_duesOf_taken.mpr (.inl placed)
    have placing := @process_places system.books command order places
    have pairs (fill : Fill) (member : fill ∈ resultFills (process system.books command).2) :
        fill.Pairs (restingAt system.books command.position) order.taker := by
      rw [placing.fills] at member
      exact incoming_pairs _ order fill member
    have both : Tally system.db.orders operations (due :: duesOf stages commands) :=
      tally.forgets fun other member => (List.mem_cons.mp member).elim (fun own => own ▸ listed) (later other)
    refine both.matches ?_ ?_ ?_ ?_ ?_
    · intro fill member
      obtain ⟨maker, -, -, amount, rfl⟩ := pairs fill member
      rfl
    · intro fill member
      obtain ⟨maker, rests, -, amount, rfl⟩ := pairs fill member
      exact tallied.apart listed rests
    · obtain ⟨row, -, stands⟩ := tallied.tally.standing due listed
      have positive : 0 < due.amount := stands.amount ▸ stands.positive
      have within := incoming_within ((system.books command.position).getD .new) order
      rw [placing.fills]
      show _ ≤ i64OrZero order.amount
      rw [i64OrZero_pos positive]
      exact Int.ofNat_le.mpr within
    · intro fill member
      obtain ⟨maker, rests, -, amount, rfl⟩ := pairs fill member
      exact tallied.known rests
    · intro other member
      refine ⟨tallied.once queued placed member, fun fill listed => ?_⟩
      obtain ⟨maker, rests, -, amount, rfl⟩ := pairs fill listed
      exact tallied.apart (later other member) rests

theorem Performed.tally {operation : Operation} {answer : operation.Answer} {operations : List Operation}
    {dues : List Due}
    (performed : Performed system operation answer after) (persists : operation.Persists)
    (tally : Tally system.db.orders (operation :: operations) dues) : Tally after.db.orders operations dues := by
  cases performed with
  | @ran statement affected db ran =>
    cases statement with
    | updateOrderFilled id filledDelta status =>
      cases ran
      have written := tally.writes
      simpa [updateOrders, updated] using written
    | _ => exact persists.elim
  | @failed statement error failed =>
    cases statement with
    | updateOrderFilled id filledDelta status => cases failed
    | _ => exact persists.elim
  | sent => exact persists.elim
  | refused => exact persists.elim
  | published event => exact tally.passes fun _ => rfl

theorem System.Tallied.step (tallied : system.Tallied stages pending)
    (stepped : Stepped crypto config system event after) :
    ∃ stages pending, after.Tallied stages pending := by
  obtain ⟨requests, processing, persists, backed, tally, within⟩ := tallied
  have backs {after : System} {later : List Stage} (step : StagedStep system stages event after later)
      (id : OrderId) (position : Uint256) : after.Backed id position later := step.backed (backed id position)
  cases stepped with
  | arrives arriving =>
    refine ⟨stages ++ [.idle], pending, ?_, processing, persists, backs ?_, ?_, within⟩
    · exact List.rel_append requests (.cons (arriving_sends arriving) .nil)
    · exact .arrived ⟨rfl, rfl, rfl⟩
    · exact tally.forgets fun due member => (mem_duesOf_stage.mp member).elim (fun idle => nomatch idle) (by simp)
  | @request index operation next answer middle found performed =>
    obtain ⟨front, stage, back, rfl, follows, replaced, -⟩ := related_at requests found
    obtain ⟨later, moved⟩ := performed.moves follows.1.ready
    obtain ⟨-, sameProcessing, sameBooks, sameResults⟩ := performed.frame
    refine ⟨front ++ later :: back, pending, replaced _ _ (follows.2 answer later moved), sameProcessing ▸ processing,
      sameProcessing ▸ persists, backs ?_, ?_, sameBooks ▸ within⟩
    · exact .performed (operation_request found) rfl follows.1.ready moved performed ⟨rfl, rfl, rfl⟩
    · show Tally middle.db.orders (pending ++ middle.results.flatMap MatchResult.operations) _
      rw [sameResults]
      exact follows.1.tally moved performed tally
  | respond found =>
    obtain ⟨front, stage, back, rfl, rfl, -, removed⟩ := related_at requests found
    refine ⟨front ++ back, pending, removed, processing, persists, backs (.responded rfl ⟨rfl, rfl, rfl⟩), ?_, within⟩
    exact tally.forgets fun due member => mem_duesOf_stage.mpr (.inr member)
  | @matching command commands queued =>
    have whole : system.Tallied stages pending := ⟨requests, processing, persists, backed, tally, within⟩
    refine ⟨stages, pending, requests, processing, persists, backs (.matched queued rfl rfl), ?_,
      within.processed command⟩
    have processed := whole.processed queued tally
    rw [List.append_assoc, ← List.flatMap_append] at processed
    exact processed
  | @receive result results idle queued =>
    obtain rfl : pending = [] := (idle ▸ processing : (Program.done ()).Performs pending)
    refine ⟨stages, result.operations, requests, processMatchResult_performs result, processMatchResult_persists result,
      backed, ?_, within⟩
    rw [queued] at tally
    exact tally
  | @persist operation next answer middle busy performed =>
    obtain ⟨rest, rfl, performs⟩ := (busy ▸ processing : (Program.perform operation next).Performs pending)
    have only : (Program.perform operation next).Only Operation.Persists := busy ▸ persists
    obtain ⟨sameRequests, -, sameBooks, sameResults⟩ := performed.frame
    have commands := (performed.persists only.1).1
    refine ⟨stages, rest, sameRequests ▸ requests, performs answer, only.2 answer, backs ?_, ?_, sameBooks ▸ within⟩
    · exact .persisted (operation_persist busy) only.1 performed ⟨rfl, rfl, rfl⟩
    · show Tally middle.db.orders (rest ++ middle.results.flatMap MatchResult.operations)
        (duesOf stages middle.commands)
      rw [sameResults, commands]
      exact performed.tally only.1 tally
  | clocks => exact ⟨stages, pending, requests, processing, persists, backed, tally, within⟩
  | ledger => exact ⟨stages, pending, requests, processing, persists, backed, tally, within⟩
  | invalidateNonce user nonce =>
    refine ⟨stages, pending, requests, processing, persists, backs ?_, tally.closes fun row => ?_, within⟩
    · exact .outside (.inr (.inr ⟨user, nonce, _, rfl, rfl⟩)) rfl rfl
    · split
      next cancels =>
        have opened := (of_decide_eq_true cancels).2.2
        exact .inr ⟨by rw [opened]; nofun, rfl⟩
      next => exact .inl rfl

theorem Tally.recovers {rows : List OrderRow} {operations : List Operation} {dues : List Due}
    (tally : Tally rows operations dues) : Tally rows [] [] := by
  refine ⟨tally.keyed, fun row member => ?_, fun _ some => absurd rfl some, nofun, nofun⟩
  refine ⟨[], [], rfl, nofun, fun _ => rfl, fun live => ?_⟩
  obtain ⟨low, high⟩ := (tally.sane row member).within live
  exact ⟨low, by simpa using high⟩

theorem toNat_ofInt {value : Int} (nonneg : 0 ≤ value) (fits : FitsI64 value) :
    ((UInt64.ofInt value).toNat : Int) = value := by
  have lt := fits.2
  simp only [UInt64.ofInt, UInt64.toNat_ofNat']
  omega

theorem readRow_within {row : OrderRow} (readable : Readable row) (low : 0 ≤ row.filledAmount)
    (high : row.filledAmount ≤ row.amount) : (readRow row).resting.filled ≤ (readRow row).resting.amount ∧
      ((readRow row).resting.remaining.toNat : Int) = row.amount - row.filledAmount := by
  have filled := toNat_ofInt low readable.filled
  have amount := toNat_ofInt (low.trans high) readable.amount
  have within : UInt64.ofInt row.filledAmount ≤ .ofInt row.amount := UInt64.le_iff_toNat_le.mpr (by omega)
  refine ⟨within, ?_⟩
  show ((UInt64.ofInt row.amount - .ofInt row.filledAmount).toNat : Int) = _
  rw [UInt64.toNat_sub_of_le _ _ within]
  omega

def RowsWithin (rows : List OrderRow) : Prop :=
  ∀ row ∈ rows, row.status ≠ .filled → 0 ≤ row.filledAmount ∧ row.filledAmount ≤ row.amount

theorem Tally.rowsWithin {rows : List OrderRow} {operations : List Operation} {dues : List Due}
    (tally : Tally rows operations dues) : RowsWithin rows :=
  fun row member live => (tally.sane row member).within live

theorem RowsWithin.open {db : Database} (rows : RowsWithin db.orders) {row : OrderRow} (member : row ∈ openOrders db) :
    0 ≤ row.filledAmount ∧ row.filledAmount ≤ row.amount := by
  obtain ⟨inside, opened⟩ := List.mem_filter.mp member
  exact rows row inside fun filled => by simp [filled] at opened

private theorem restart_tallied {db : Database} {operations : List Operation} {dues : List Due}
    (tally : Tally db.orders operations dues) {clock : UInt64} {dbClock : Nat}
    (restarted : System.restart db clock dbClock = some after) : after.Tallied [] [] := by
  have backed := (restart_backed restarted).2
  obtain ⟨books, rebuilt, rfl⟩ := restart_some restarted
  refine ⟨.nil, rfl, trivial, backed, tally.recovers, fun position order rests => ?_⟩
  obtain ⟨row, opened, -, same⟩ := (rebuilt_iff rebuilt).mp (List.mem_map_of_mem (f := (·.numbered 0)) rests)
  obtain ⟨low, high⟩ := tally.rowsWithin.open opened
  have readable := (rebuilds_iff.mp ⟨books, rebuilt⟩ row opened).2
  have within := (readRow_within readable low high).1
  rw [same] at within
  exact within

private theorem start_tallied (numbers : NumberColumn) : (System.start numbers).Tallied [] [] := by
  refine ⟨.nil, rfl, trivial, fun id position => Nat.zero_le _, ⟨List.nodup_nil, nofun, ?_, nofun, nofun⟩, ?_⟩
  · exact fun _ some => absurd rfl some
  · intro position order rests
    rw [show restingAt (System.start numbers).books position = [] from resting_new] at rests
    cases rests

private theorem lives_tallied (run : Run (System.Lives crypto config) (.start numbers) trace system) :
    ∃ stages pending, system.Tallied stages pending := by
  refine run.keeps (fun system => ∃ stages pending, system.Tallied stages pending) ?_ ⟨[], [], start_tallied numbers⟩
  rintro system ⟨_, event⟩ after ⟨rfl, moved⟩ ⟨stages, pending, tallied⟩
  cases event with
  | some event => exact tallied.step (System.Moves.stepped moved)
  | none =>
    obtain ⟨clock, dbClock, restarted⟩ := moved
    exact ⟨[], [], restart_tallied tallied.tally restarted⟩

/-- A row that was written for an accepted order can be read while it is within its amount. -/
theorem Written.readable {accepted : OrderId → SignedOrder → MarketId → Prop} {row : OrderRow}
    (written : Written accepted row)
    (low : 0 ≤ row.filledAmount) (high : row.filledAmount ≤ row.amount) : Readable row := by
  obtain ⟨signed, marketId, now, -, same, -, -⟩ := written
  have kept {α : Type} (field : OrderRow → α) : field (OrderRow.fixed row) = field _ := congrArg field same
  have readable := values_readable signed marketId row.orderId now
  have amount : FitsI64 row.amount := (kept OrderRow.amount).symm ▸ readable.amount
  refine ⟨(kept OrderRow.price).symm ▸ readable.price, amount, ⟨by omega, high.trans_lt amount.2⟩,
    (kept OrderRow.nonce).symm ▸ readable.nonce, (kept OrderRow.deadline).symm ▸ readable.deadline⟩

private theorem lives_numbers (run : Run (System.Lives crypto config) (.start numbers) trace system) :
    system.db.orderNumbers = numbers := by
  refine run.keeps (fun system => system.db.orderNumbers = numbers) ?_ rfl
  intro before step after moved same
  obtain ⟨rfl, moved⟩ := moved
  obtain ⟨before, event⟩ := step
  cases event with
  | some event => exact (System.Moves.stepped moved).stored.numbers.trans same
  | none =>
    obtain ⟨clock, dbClock, restarted⟩ := moved
    obtain ⟨books, -, rfl⟩ := restart_some restarted
    exact same

/-- In every life of the gateway, no open row and no order at rest is filled beyond its
amount. It can be restarted exactly while no row is open, or where the numbers of the orders
are BIGINT, and then to what its open rows still lack. -/
theorem open_orders_within (run : Run (System.Lives crypto config) (.start numbers) trace system) :
    (∀ row ∈ system.db.orders, row.status ≠ .filled → 0 ≤ row.filledAmount ∧ row.filledAmount ≤ row.amount) ∧
    (∀ position, ∀ order ∈ restingAt system.books position, order.filled ≤ order.amount) ∧
    (∀ clock dbClock, (∃ next, System.restart system.db clock dbClock = some next) ↔
      openOrders system.db = [] ∨ numbers = .bigint) ∧
    ∀ clock dbClock next, System.restart system.db clock dbClock = some next →
      ∀ position id left, (∃ order ∈ restingAt next.books position, order.orderId = id ∧ order.remaining.toNat = left) ↔
        ∃ row ∈ openOrders system.db, row.positionId = position ∧ row.orderId = id ∧
          row.amount - row.filledAmount = left := by
  obtain ⟨stages, pending, tallied⟩ := lives_tallied run
  have rows := tallied.tally.rowsWithin
  have readable (row : OrderRow) (opened : row ∈ openOrders system.db) : Readable row := by
    obtain ⟨low, high⟩ := rows.open opened
    exact ((lives_genuine run).written row (List.mem_filter.mp opened).1).readable low high
  refine ⟨rows, tallied.within, fun clock dbClock => ?_, fun clock dbClock next restarted position id left => ?_⟩
  · rw [restarts_iff, lives_numbers run]
    constructor
    · intro decodes
      by_cases empty : openOrders system.db = []
      · exact .inl empty
      · obtain ⟨row, opened⟩ := List.exists_mem_of_ne_nil _ empty
        exact .inr (decodes row opened).1
    · intro decodes row opened
      rcases decodes with empty | bigint
      · rw [empty] at opened
        cases opened
      · exact ⟨bigint, readable row opened⟩
  · obtain ⟨books, rebuilt, rfl⟩ := restart_some restarted
    have lacks {row : OrderRow} (opened : row ∈ openOrders system.db) :=
      (readRow_within (readable row opened) (rows.open opened).1 (rows.open opened).2).2
    constructor
    · intro held
      obtain ⟨order, rests, rfl, rfl⟩ := held
      obtain ⟨row, opened, here, same⟩ := (rebuilt_iff rebuilt).mp (List.mem_map_of_mem (f := (·.numbered 0)) rests)
      have lack := lacks opened
      rw [same] at lack
      exact ⟨row, opened, here, congrArg RestingOrder.orderId same, lack.symm⟩
    · intro stored
      obtain ⟨row, opened, here, rfl, lack⟩ := stored
      have rests := (rebuilt_iff rebuilt).mpr ⟨row, opened, here, rfl⟩
      obtain ⟨order, inside, same⟩ := List.mem_map.mp rests
      refine ⟨order, inside, congrArg RestingOrder.orderId same, ?_⟩
      have known := lacks opened
      rw [← same] at known
      show order.remaining.toNat = left
      exact Int.ofNat_inj.mp (known.trans lack)

namespace Sample

def outbid : List (Option Event) :=
  some (.ledger listed.users listed.markets listed.balances) ::
    (placing 101 signedSaleOf5).map some ++ none :: (placing 102 (signedBy 6 .buy 510000 150 0)).map some ++
    [some .receive, some .persist, some .persist, some .persist]

def sold : List (Option Event) :=
  some (.ledger listed.users listed.markets listed.balances) :: (placing 101 signedSaleOf5).map some ++ [some .receive]

end Sample

/-- From BIGINT columns the restart succeeds; from the schema's NUMERIC it fails. -/
theorem open_orders_within_sample :
    (∃ trace system next, Run (System.Lives Sample.signers Sample.deployment) (.start .bigint) trace system ∧
      System.restart system.db 0 0 = some next ∧
      ∃ order ∈ restingAt next.books 3, order.orderId = 102 ∧ order.remaining.toNat = 50) ∧
    ∃ trace system, Run (System.Lives Sample.signers Sample.deployment) (.start .numeric) trace system ∧
      system.drained ∧ System.restart system.db 0 0 = none := by
  constructor
  · obtain ⟨trace, system, run, -, checked⟩ := @Sample.relive_lives Sample.signers Sample.deployment (.start .bigint)
      Sample.outbid (fun system => decide (∃ row ∈ openOrders system.db, row.positionId = 3 ∧ row.orderId = 102 ∧
        row.amount - row.filledAmount = 50)) (by decide +kernel)
    obtain ⟨-, -, restarts, rests⟩ := open_orders_within run
    obtain ⟨next, restarted⟩ := (restarts 0 0).mpr (.inr rfl)
    exact ⟨trace, system, next, run, restarted, (rests 0 0 next restarted 3 102 50).mpr (of_decide_eq_true checked)⟩
  · obtain ⟨trace, system, run, -, checked⟩ := @Sample.relive_lives Sample.signers Sample.deployment (.start .numeric)
      Sample.sold (fun system => Sample.idle system && decide (openOrders system.db ≠ [])) (by decide +kernel)
    obtain ⟨still, opened⟩ := Bool.and_eq_true_iff.mp checked
    refine ⟨trace, system, run, Sample.idle_drained still, Option.eq_none_iff_forall_ne_some.mpr fun next restarted => ?_⟩
    rcases ((open_orders_within run).2.2.1 0 0).mp ⟨next, restarted⟩ with empty | bigint
    · exact of_decide_eq_true opened empty
    · cases bigint

end Omniscient.Gateway

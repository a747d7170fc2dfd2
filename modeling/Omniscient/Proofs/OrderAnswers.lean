import Omniscient.Api
import Omniscient.Proofs.GatewaySteps

/-! What the answer to an order or to a cancellation tells about what has been done.
An error is blamed on the client by a word in its message, which is put together from
labels and the error of the step that failed. -/

namespace Omniscient.Gateway
open Outcome

def Plain (message : String) : Prop := Api.AppError.fromOrderError message = .internal message

def blamingWords : List String := ["insufficient", "expired", "invalid"]

theorem plain_iff {message : String} : Plain message ↔ ∀ word ∈ blamingWords, ¬ word.toList <:+: message.toList := by
  unfold Plain Api.AppError.fromOrderError
  split
  next blamed =>
    refine ⟨fun same => (by cases same), fun plain => ?_⟩
    rcases blamed with inside | inside | inside
    · exact absurd inside (plain "insufficient" (by decide))
    · exact absurd inside (plain "expired" (by decide))
    · exact absurd inside (plain "invalid" (by decide))
  next plain => simpa [blamingWords, not_or] using plain

instance (message : String) : Decidable (Plain message) := decidable_of_iff _ plain_iff.symm

theorem plain_append {label message : String} {front : List Char} (spaced : label.toList = front ++ [' '])
    (plainLabel : Plain label) (plain : Plain message) : Plain (label ++ message) := by
  refine plain_iff.mpr fun word member inside => ?_
  have unspaced : ∀ word ∈ blamingWords, ' ' ∉ word.toList := by decide
  rw [String.toList_append, spaced, List.append_assoc, List.singleton_append] at inside
  rcases Text.infix_split inside (unspaced word member) with before | behind
  · exact plain_iff.mp plainLabel word member (spaced ▸ before.trans List.infix_append_left)
  · exact plain_iff.mp plain word member behind

private theorem run_plain {now : Nat} {db : Database} {statement : Statement} : Raises Plain
    (statement.run now db) := by
  cases statement with
  | insertOrder values =>
    refine raises_bind (raises_revertIf (by decide +kernel)) fun _ => ?_
    refine raises_bind (raises_revertIf (by decide +kernel)) fun _ => ?_
    refine raises_bind (raises_revertIf (by decide +kernel)) fun _ => ?_
    refine raises_bind (raises_revertIf (by decide +kernel)) fun _ => ?_
    refine raises_bind (raises_revertIf (by decide +kernel)) fun _ => ?_
    exact raises_bind (raises_revertIf (by decide +kernel)) fun _ => raises_pure _
  | insertHold orderId key amount =>
    refine raises_bind (raises_revertIf (by decide +kernel)) fun _ => ?_
    refine raises_bind (raises_revertIf (by decide +kernel)) fun _ => ?_
    exact raises_bind (raises_revertIf (by decide +kernel)) fun _ => raises_pure _
  | updateOrderFilled orderId filledDelta status => exact raises_pure _
  | cancelOrderDb orderId => exact raises_pure _
  | _ =>
    simp only [Statement.run]
    split
    all_goals first | exact raises_pure _ | (split <;> exact raises_pure _)

inductive Deed where
  | ensured
  | reserved
  | recorded
  | held
  | released
  | queued
  | closed
  deriving DecidableEq

def Operation.deed : Operation → Option Deed
  | .execute (.ensureUser _) => some .ensured
  | .execute (.reserveCollateral ..) => some .reserved
  | .execute (.insertOrder _) => some .recorded
  | .execute (.insertHold ..) => some .held
  | .execute (.releaseCollateral ..) => some .released
  | .execute (.cancelOrderDb _) => some .closed
  | .trySend _ => some .queued
  | _ => none

/-- Whether an operation was done, by its answer. A statement that has failed may have
been, for its answer can be lost; its error is not blamed on the client. -/
def Operation.Done : (operation : Operation) → operation.Answer → Bool → Prop
  | .execute (.insertOrder _), .ok _, done => done = true
  | .execute (.insertHold ..), .ok _, done => done = true
  | .execute _, .ok affected, done => done = decide (affected ≠ 0)
  | .execute _, .error text, _ => Plain text
  | .trySend _, sent, done => done = sent
  | .publish _, _, _ => True

def Deed.Moves (deeds : List Deed) (operation : Operation) (answer : operation.Answer) (later : List Deed) : Prop :=
  ∃ done, operation.Done answer done ∧ later = if done then deeds ++ operation.deed.toList else deeds

theorem perform_done (system : System) (operation : Operation) : ∃ done, operation.Done (system.perform operation).1 done := by
  cases operation with
  | execute statement =>
    simp only [System.perform]
    split
    next affected db ran => cases statement <;> exact ⟨_, rfl⟩
    next error failed => cases statement <;> exact ⟨false, run_plain error failed⟩
  | trySend command => exact ⟨_, rfl⟩
  | publish event => exact ⟨false, trivial⟩

abbrev Does {α : Type} (deeds : List Deed) (attempt : ExceptT String Effect α) (returned : List Deed → Prop)
    (failed : String → List Deed → Prop) : Prop :=
  attempt.run.Follows (fun _ _ => True) Deed.Moves (Program.either (fun _ => returned) failed) deeds

section
variable {deeds later : List Deed} {statement : Statement} {label text : String}
  {attempt compensation : ExceptT String Effect Unit} {returned : List Deed → Prop} {failed : String → List Deed → Prop}

private theorem database_plain (plain : Plain text) : Plain ("database error: " ++ text) :=
  plain_append (show "database error: ".toList = "database error:".toList ++ [' '] by decide) (by decide +kernel) plain

private theorem failed_moves (moved : Deed.Moves deeds (.execute statement) (.error text) later) :
    Plain text ∧ (later = deeds ∨ later = deeds ++ (Operation.execute statement).deed.toList) := by
  obtain ⟨done, admitted, rfl⟩ := moved
  refine ⟨by cases statement <;> exact admitted, ?_⟩
  cases done with
  | true => exact .inr rfl
  | false => exact .inl rfl

theorem execute_does {answered : Nat → List Deed → Prop}
    (ok : ∀ affected later, Deed.Moves deeds (.execute statement) (.ok affected) later → answered affected later)
    (error : ∀ text later, Plain ("database error: " ++ text) →
      later = deeds ∨ later = deeds ++ (Operation.execute statement).deed.toList → failed ("database error: " ++ text) later) :
    (execute statement).run.Follows (fun _ _ => True) Deed.Moves (Program.either answered failed) deeds := by
  apply Program.follows_bind
  apply Program.follows_request trivial
  intro answer later moved
  cases answer with
  | ok affected => exact ok affected later moved
  | error text =>
    obtain ⟨plain, places⟩ := failed_moves moved
    exact error text later (database_plain plain) places

theorem statement_does
    (ok : ∀ affected later, Deed.Moves deeds (.execute statement) (.ok affected) later → returned later)
    (error : ∀ text later, Plain ("database error: " ++ text) →
      later = deeds ∨ later = deeds ++ (Operation.execute statement).deed.toList → failed ("database error: " ++ text) later) :
    Does deeds (execute statement >>= fun _ => pure ()) returned failed :=
  Program.follows_seq (execute_does ok error) fun _ _ reached => reached

theorem labelled_does (does : Does deeds attempt returned fun error => failed (label ++ error)) :
    Does deeds (labelled label attempt) returned failed := by
  apply Program.follows_bind
  apply does.weaken
  intro result later reached
  cases result with
  | ok value => exact reached
  | error error => exact reached

private theorem compensated_does
    (does : Does deeds attempt returned fun error later =>
      Does later compensation (failed (label ++ error)) fun _ => failed (label ++ error)) :
    Does deeds (compensated label attempt compensation) returned failed := by
  apply Program.follows_bind
  apply does.weaken
  intro result later reached
  cases result with
  | ok value => exact reached
  | error error =>
    apply Program.follows_bind
    apply reached.weaken
    intro result last reached
    cases result with
    | ok value => exact reached
    | error error => exact reached

theorem enqueue_does {command : MatchCommand} (room : returned (deeds ++ [.queued]))
    (full : failed "matcher queue full: sending on a full channel" deeds) : Does deeds (enqueue command) returned failed := by
  apply Program.follows_bind
  apply Program.follows_request trivial
  intro _ later holds
  obtain ⟨sent, rfl, rfl⟩ := holds
  cases sent with
  | true => exact room
  | false => exact full

end

def ensuring (places : List (List Deed)) : List (List Deed) := places ++ places.map (.ensured :: ·)

/-- What an order leaves that is not accepted and may not be the client's fault. The
last operation may have been done with its answer lost. -/
def strandedDeeds : List (List Deed) := ensuring
  [[], [.reserved], [.reserved, .released], [.reserved, .recorded], [.reserved, .recorded, .released],
    [.reserved, .recorded, .held], [.reserved, .recorded, .held, .released]]

def Strands (harmless places : List (List Deed)) (error : String) (deeds : List Deed) : Prop :=
  deeds ∈ harmless ∨ Plain error ∧ deeds ∈ places

abbrev StrandsOrder : String → List Deed → Prop := Strands (ensuring [[]]) strandedDeeds

private theorem release_does {deeds : List Deed} {error : String} {maker : Address} {assetType : AssetType}
    {positionId : Option Uint256} {amount : UInt64} (plain : Plain error)
    (places : deeds ∈ strandedDeeds ∧ deeds ++ [.released] ∈ strandedDeeds) :
    Does deeds (releaseCollateral maker assetType positionId amount) (StrandsOrder error)
      fun _ => StrandsOrder error := by
  have either {later : List Deed} (moved : later = deeds ∨ later = deeds ++ [.released]) : StrandsOrder error later := by
    rcases moved with rfl | rfl
    · exact .inr ⟨plain, places.1⟩
    · exact .inr ⟨plain, places.2⟩
  apply statement_does
  · intro affected later holds
    obtain ⟨done, -, rfl⟩ := holds
    cases done with
    | true => exact either (.inr rfl)
    | false => exact either (.inl rfl)
  · exact fun text later _ moved => either moved

private theorem reserve_does {first : List Deed} (started : first ∈ ensuring [[]]) {maker : Address}
    {assetType : AssetType}
    {positionId : Option Uint256} {amount : UInt64} :
    Does first (reserveCollateral maker assetType positionId amount) (· = first ++ [.reserved])
      fun error => StrandsOrder ("collateral: " ++ error) := by
  have labelled {message : String} (plain : Plain message) : Plain ("collateral: " ++ message) :=
    plain_append (show "collateral: ".toList = "collateral:".toList ++ [' '] by decide) (by decide +kernel) plain
  have start : (execute (.reserveCollateral ⟨maker, assetType, positionId⟩ (i64OrZero amount))).run.Follows
      (fun _ _ => True) Deed.Moves (Program.either
        (fun affected later => later = if affected = 0 then first else first ++ [.reserved])
        fun error => StrandsOrder ("collateral: " ++ error)) first := by
    apply execute_does
    · intro affected later holds
      obtain ⟨done, answered, rfl⟩ := holds
      cases affected with
      | zero =>
        cases answered
        rfl
      | succ affected =>
        cases answered
        rfl
    · intro text later plain moved
      rcases moved with rfl | rfl
      · exact .inl started
      · have reserved : ∀ first ∈ ensuring [[]], first ++ [Deed.reserved] ∈ strandedDeeds := by decide
        exact .inr ⟨labelled plain, reserved first started⟩
  refine Program.follows_seq start fun affected later reached => ?_
  split
  next none => exact .inl (reached.trans (if_pos none) ▸ started)
  next some => exact reached.trans (if_neg some)

section
variable {crypto : Crypto} {config : AppConfig} {now : UInt64} {orderId : OrderId} {signed : SignedOrder}
  {marketId : MarketId}

private theorem acceptOrder_does : Does [] (acceptOrder crypto config now orderId signed marketId)
    (· ∈ ensuring [[.reserved, .recorded, .held, .queued]]) StrandsOrder := by
  have inserting {label : String} {front : List Char} (spaced : label.toList = front ++ [' ']) (plain : Plain label)
      {statement : Statement} {deeds : List Deed} {deed : Deed} (does : (Operation.execute statement).deed = some deed)
      (inserts : ∀ affected done, Operation.Done (.execute statement) (.ok affected) done → done = true)
      (places : ∀ later, later = deeds ∨ later = deeds ++ [deed] →
        later ∈ strandedDeeds ∧ later ++ [.released] ∈ strandedDeeds)
      {maker : Address} {assetType : AssetType} {positionId : Option Uint256} {amount : UInt64} :
      Does deeds (compensated label (execute statement >>= fun _ => pure ())
        (releaseCollateral maker assetType positionId amount)) (· = deeds ++ [deed]) StrandsOrder := by
    apply compensated_does
    apply statement_does
    · intro affected later holds
      obtain ⟨done, answered, rfl⟩ := holds
      rw [inserts affected done answered, does]
      rfl
    · intro text later unblamed moved
      rw [does] at moved
      exact release_does (plain_append spaced plain unblamed) (places later moved)
  unfold acceptOrder
  cases validateSignedOrder crypto config now signed with
  | error error => exact .inl List.mem_cons_self
  | ok maker =>
    apply Program.follows_ok.mpr
    have ensured : Does [] (labelled "ensure_user: " (ensureUser maker)) (· ∈ ensuring [[]]) StrandsOrder := by
      apply labelled_does
      apply statement_does
      · intro affected later moved
        obtain ⟨done, -, rfl⟩ := moved
        cases done with
        | true => exact List.mem_cons_of_mem _ List.mem_cons_self
        | false => exact List.mem_cons_self
      · intro text later _ moved
        rcases moved with rfl | rfl
        · exact .inl List.mem_cons_self
        · exact .inl (List.mem_cons_of_mem _ List.mem_cons_self)
    refine Program.follows_seq ensured fun _ first started => ?_
    refine Program.follows_seq (labelled_does (reserve_does started)) fun _ later reached => ?_
    subst reached
    have recorded : ∀ first ∈ ensuring [[]], ∀ later, later = first ++ [.reserved] ∨ later = first ++ [.reserved] ++ [.recorded] →
        later ∈ strandedDeeds ∧ later ++ [.released] ∈ strandedDeeds := by
      intro first started later moved
      rcases moved with rfl | rfl <;> revert first <;> decide
    have held : ∀ first ∈ ensuring [[]], ∀ later, later = first ++ [.reserved] ++ [.recorded] ∨
        later = first ++ [.reserved] ++ [.recorded] ++ [.held] →
        later ∈ strandedDeeds ∧ later ++ [.released] ∈ strandedDeeds := by
      intro first started later moved
      rcases moved with rfl | rfl <;> revert first <;> decide
    refine Program.follows_seq (inserting (show "insert_order: ".toList = "insert_order:".toList ++ [' '] by decide)
      (by decide +kernel) rfl (by intro _ _ done; exact done) (recorded first started)) fun _ later reached => ?_
    subst reached
    refine Program.follows_seq (inserting (show "insert_hold: ".toList = "insert_hold:".toList ++ [' '] by decide)
      (by decide +kernel) rfl (by intro _ _ done; exact done) (held first started)) fun _ later reached => ?_
    subst reached
    have queued : ∀ first ∈ ensuring [[]], first ++ [.reserved] ++ [.recorded] ++ [.held] ++ [.queued] ∈
        ensuring [[.reserved, .recorded, .held, .queued]] := by decide
    refine Program.follows_seq (enqueue_does (queued first started) (.inr ⟨by decide +kernel, ?_⟩)) fun _ _ reached => reached
    exact (held first started _ (.inr rfl)).1

def unclosedDeeds : List (List Deed) := [[], [.queued], [.queued, .closed]]

private theorem cancelOrder_does {positionId : Uint256} : Does [] (cancelOrder orderId positionId)
    (fun deeds => deeds = [.queued] ∨ deeds = [.queued, .closed]) (Strands [[]] unclosedDeeds) := by
  refine Program.follows_seq (enqueue_does rfl (.inl List.mem_cons_self)) fun _ later reached => ?_
  subst reached
  apply labelled_does
  apply statement_does
  · intro affected later holds
    obtain ⟨done, -, rfl⟩ := holds
    cases done with
    | true => exact .inr rfl
    | false => exact .inl rfl
  · intro text later plain moved
    refine .inr ⟨plain_append (show "cancel_order_db: ".toList = "cancel_order_db:".toList ++ [' '] by decide)
      (by decide +kernel) plain, ?_⟩
    rcases moved with rfl | rfl
    · exact List.mem_cons_of_mem _ List.mem_cons_self
    · exact List.mem_cons_of_mem _ (List.mem_cons_of_mem _ List.mem_cons_self)

end

/-- What may have been done when an order is answered with a status. -/
def orderDeeds : Nat → List (List Deed)
  | 202 => ensuring [[.reserved, .recorded, .held, .queued]]
  | 400 => ensuring [[]]
  | 422 => [[]]
  | 500 => strandedDeeds
  | _ => []

/-- What may have been done when a cancellation is answered with a status. -/
def cancelDeeds : Nat → List (List Deed)
  | 200 => [[.queued], [.queued, .closed]]
  | 400 | 422 => [[]]
  | 500 => unclosedDeeds
  | _ => []

section
variable {deeds : List Deed} {tells : Nat → List (List Deed)}

/-- A request from some deeds on, up to an answer that tells what it has done. -/
abbrev Tells (tells : Nat → List (List Deed)) (deeds : List Deed) (request : Effect Api.Response) : Prop :=
  request.Follows (fun _ _ => True) Deed.Moves (fun response deeds => deeds ∈ tells response.status) deeds

theorem respond_tells {handler : ExceptT Api.AppError Effect Api.Response}
    (follows : handler.run.Follows (fun _ _ => True) Deed.Moves (Program.either
      (fun response deeds => deeds ∈ tells response.status)
      fun error deeds => deeds ∈ tells error.intoResponse.status) deeds) : Tells tells deeds (Api.respond handler) := by
  apply Program.follows_bind
  apply follows.weaken
  intro result later reached
  cases result with
  | ok response => exact reached
  | error error => exact reached

theorem service_does {α : Type} {call : ExceptT String Effect α} {returned : List Deed → Prop}
    {harmless places : List (List Deed)} (does : Does deeds call returned (Strands harmless places))
    (blamed : ∀ later ∈ harmless, later ∈ tells 400) (idle : ∀ later ∈ harmless, later ∈ tells 500)
    (stranded : ∀ later ∈ places, later ∈ tells 500) :
    (Api.service call).run.Follows (fun _ _ => True) Deed.Moves (Program.either (fun _ => returned)
      fun error later => later ∈ tells error.intoResponse.status) deeds := by
  apply Program.follows_bind
  apply does.weaken
  intro result later reached
  cases result with
  | ok value => exact reached
  | error error =>
    show later ∈ tells (Api.AppError.fromOrderError error).intoResponse.status
    rcases reached with nothing | ⟨plain, member⟩
    · unfold Api.AppError.fromOrderError
      split
      next => exact blamed later nothing
      next => exact idle later nothing
    · rw [plain]
      exact stranded later member

theorem parsed_tells {α : Type} {label : String} {result : Except String α}
    {rest : α → ExceptT Api.AppError Effect Api.Response} (unparsed : deeds ∈ tells 400)
    (follows : ∀ value, (rest value).run.Follows (fun _ _ => True) Deed.Moves (Program.either
      (fun response deeds => deeds ∈ tells response.status)
      fun error deeds => deeds ∈ tells error.intoResponse.status) deeds) :
    (Api.parsed label result >>= rest).run.Follows (fun _ _ => True) Deed.Moves (Program.either
      (fun response deeds => deeds ∈ tells response.status)
      fun error deeds => deeds ∈ tells error.intoResponse.status) deeds := by
  cases result with
  | ok value => exact follows value
  | error error => exact unparsed

end

/-- The answer to an order or to a cancellation tells what has been done, whatever the
state of the gateway at each of its operations and whichever of them fail: a request that
is blamed has done nothing but insert the maker into `users`, an accepted order has done
everything, and what else is left over is left by requests that are answered 500. -/
theorem answers_tell (crates : Crates) (uuid : Api.UuidCrate) (crypto : Crypto) (config : AppConfig) (now : UInt64)
    (orderId : OrderId) (path : String) (body : Json) :
    Tells orderDeeds [] (Api.postOrders crates uuid crypto config now orderId body) ∧
    Tells cancelDeeds [] (Api.postCancelOrder crates uuid path body) := by
  constructor
  · unfold Api.postOrders
    split
    next error => exact List.mem_cons_self
    next body =>
      apply respond_tells
      refine parsed_tells List.mem_cons_self fun marketId => ?_
      refine Program.follows_seq (service_does acceptOrder_does (by decide) (by decide) fun _ member => member)
        fun _ later reached => ?_
      exact reached
  · unfold Api.postCancelOrder
    split
    next error => exact List.mem_cons_self
    next body =>
      apply respond_tells
      refine parsed_tells List.mem_cons_self fun orderId => ?_
      refine parsed_tells List.mem_cons_self fun positionId => ?_
      refine Program.follows_seq (service_does cancelOrder_does (by decide) (by decide) fun _ member => member)
        fun _ later reached => ?_
      rcases reached with rfl | rfl
      · exact List.mem_cons_self
      · exact List.mem_cons_of_mem _ List.mem_cons_self

end Omniscient.Gateway

import Mathlib.Algebra.Order.BigOperators.Group.List
import Omniscient.Failures
import Omniscient.Proofs.Acceptance

/-! Concurrent calls never spend the same collateral twice. What a call has reserved and
not given back is a stage of its own; the hold of a row covers the stages of all
calls, so that a release never takes more than is held. -/

namespace Omniscient.Gateway
open Outcome

abbrev Reservation := Option (BalanceKey × Int)

/-- A call reserves once, and gives back only what it has reserved. -/
def Reservation.Ready (reservation : Reservation) : Operation → Prop
  | .execute (.reserveCollateral _ amount) => reservation = none ∧ 0 ≤ amount
  | .execute (.releaseCollateral key amount) => reservation = some (key, amount)
  | _ => True

def affectsRows : Except String Nat → Bool
  | .ok affected => affected ≠ 0
  | .error _ => false

def Reservation.after (reservation : Reservation) : (operation : Operation) → operation.Answer → Reservation
  | .execute (.reserveCollateral key amount), answer => if affectsRows answer then some (key, amount) else none
  | .execute (.releaseCollateral ..), _ => none
  | _, _ => reservation

def Reservation.Moves (reservation : Reservation) (operation : Operation) (answer : operation.Answer)
    (later : Reservation) : Prop :=
  later = reservation.after operation answer

def Reservation.on (key : BalanceKey) : Reservation → Int
  | some (place, amount) => if place = key then amount else 0
  | none => 0

section
variable {crypto : Crypto} {config : AppConfig} {now : UInt64} {orderId : OrderId} {signed : SignedOrder}
  {marketId : MarketId} {reservation : Reservation}

abbrev Reserves {α : Type} (reservation : Reservation) (attempt : ExceptT String Effect α)
    (returned failed : Reservation → Prop) : Prop :=
  attempt.run.Follows Reservation.Ready Reservation.Moves (Program.either (fun _ => returned) fun _ => failed) reservation

theorem elsewhere_reserves {statement : Statement} {failed : Reservation → Prop}
    (ready : reservation.Ready (.execute statement))
    (same : ∀ answer, reservation.after (.execute statement) answer = reservation) (fails : failed reservation) :
    Reserves reservation (execute statement >>= fun _ => pure ()) (· = reservation) failed := by
  apply statement_follows
  apply execute_follows ready
  · intro affected later moved
    exact moved.trans (same _)
  · intro error later moved
    exact (moved.trans (same _)) ▸ fails

private theorem reserve_reserves {maker : Address} {assetType : AssetType} {positionId : Option Uint256}
    {amount : UInt64} :
    Reserves none (reserveCollateral maker assetType positionId amount)
      (· = some (⟨maker, assetType, positionId⟩, i64OrZero amount)) fun _ => True := by
  have start : (execute (.reserveCollateral ⟨maker, assetType, positionId⟩ (i64OrZero amount))).run.Follows
      Reservation.Ready Reservation.Moves (Program.either
        (fun affected later => affected ≠ 0 → later = some (⟨maker, assetType, positionId⟩, i64OrZero amount))
        fun _ _ => True) none := by
    apply Program.follows_bind
    apply Program.follows_request ⟨rfl, i64OrZero_nonneg _⟩
    intro answer later moved
    cases answer with
    | ok affected =>
      intro affects
      exact moved.trans (if_pos (decide_eq_true affects))
    | error text => exact trivial
  refine Program.follows_seq start fun affected later reached => ?_
  split
  next => exact trivial
  next affects => exact reached affects

theorem release_reserves {maker : Address} {assetType : AssetType} {positionId : Option Uint256} {amount : UInt64} :
    Reserves (some (⟨maker, assetType, positionId⟩, i64OrZero amount))
      (releaseCollateral maker assetType positionId amount) (fun _ => True) fun _ => True :=
  statement_follows (execute_follows rfl (fun _ _ _ => trivial) fun _ _ _ => trivial)

private theorem enqueue_reserves {command : MatchCommand} :
    Reserves reservation (enqueue command) (fun _ => True) fun _ => True := by
  apply Program.follows_bind
  apply Program.follows_request (show reservation.Ready (.trySend command) from trivial)
  intro sent later _
  cases sent <;> exact trivial

private theorem acceptOrder_reserves : Reserves none (acceptOrder crypto config now orderId signed marketId)
    (fun _ => True) fun _ => True := by
  unfold acceptOrder
  cases validateSignedOrder crypto config now signed with
  | error error => exact trivial
  | ok maker =>
    apply Program.follows_ok.mpr
    refine Program.follows_seq (labelled_follows (elsewhere_reserves trivial (fun _ => rfl) trivial)) fun _ later reached => ?_
    subst reached
    refine Program.follows_seq (labelled_follows reserve_reserves) fun _ later reached => ?_
    subst reached
    refine Program.follows_seq (compensated_follows (elsewhere_reserves trivial (fun _ => rfl) rfl)
      fun later reached => reached ▸ release_reserves) fun _ later reached => ?_
    subst reached
    refine Program.follows_seq (compensated_follows (elsewhere_reserves trivial (fun _ => rfl) rfl)
      fun later reached => reached ▸ release_reserves) fun _ later reached => ?_
    exact Program.follows_seq enqueue_reserves fun _ _ _ => trivial

end

def BalanceRow.funds (row : BalanceRow) : Int := row.availableAmount + row.holdAmount

def BalanceRow.hold (row : BalanceRow) (amount : Int) : BalanceRow :=
  { row with holdAmount := row.holdAmount + amount, availableAmount := row.availableAmount - amount }

section
variable {now affected : Nat} {db after : Database} {statement : Statement} {reservation : Reservation}
  {answer : Except String Nat} {key : BalanceKey}

theorem hold_none (row : BalanceRow) : BalanceRow.hold row 0 = row := by
  simp [BalanceRow.hold]

private theorem on_after_nonneg {operation : Operation} {answer : operation.Answer}
    (ready : reservation.Ready operation)
    (positive : 0 ≤ reservation.on key) : 0 ≤ (reservation.after operation answer).on key := by
  unfold Reservation.after
  split
  next place amount answer =>
    have enough : 0 ≤ amount := ready.2
    split
    next =>
      simp only [Reservation.on]
      split <;> omega
    next => exact le_refl _
  next => exact le_refl _
  next => exact positive

private theorem on_failure_le {error : String} (ready : reservation.Ready (.execute statement))
    (positive : 0 ≤ reservation.on key) :
    (reservation.after (.execute statement) (.error error)).on key ≤ reservation.on key := by
  cases statement with
  | reserveCollateral place amount => exact ready.1 ▸ le_refl _
  | releaseCollateral place amount => exact positive
  | _ => exact le_refl _

private theorem run_keepsBalances (ran : statement.run now db = .ok (affected, after))
    (reserves : ∀ key amount, statement ≠ .reserveCollateral key amount)
    (releases : ∀ key amount, statement ≠ .releaseCollateral key amount) : after.balances = db.balances := by
  cases statement with
  | ensureUser maker =>
    simp only [Statement.run] at ran
    split at ran <;> cases ran <;> rfl
  | reserveCollateral key amount => exact absurd rfl (reserves key amount)
  | releaseCollateral key amount => exact absurd rfl (releases key amount)
  | insertOrder values =>
    obtain ⟨-, -, -, -, rfl⟩ := insertOrder_ok ran
    rfl
  | insertHold orderId key amount =>
    simp only [Statement.run, bind_ok, revertIf_ok, pure_ok, Prod.mk.injEq] at ran
    obtain ⟨-, -, -, -, -, -, -, rfl⟩ := ran
    rfl
  | updateOrderFilled orderId filledDelta status =>
    cases ran
    rfl
  | cancelOrderDb orderId =>
    cases ran
    rfl

def Holds (key : BalanceKey) (db after : Database) (reservation later : Reservation) : Prop :=
  ∃ amount, after.balances key = (db.balances key).map (BalanceRow.hold · amount) ∧
    later.on key ≤ reservation.on key + amount ∧ ∀ row, db.balances key = some row → amount ≤ row.availableAmount

theorem Holds.funds {later : Reservation} (holds : Holds key db after reservation later) :
    (after.balances key).map BalanceRow.funds = (db.balances key).map BalanceRow.funds := by
  obtain ⟨amount, moved, -⟩ := holds
  rw [moved, Option.map_map]
  congr 1
  funext row
  simp only [Function.comp_apply, BalanceRow.funds, BalanceRow.hold]
  omega

theorem unmoved_holds {later : Reservation} (same : after.balances key = db.balances key)
    (no_more : later.on key ≤ reservation.on key) (available : ∀ row, db.balances key = some row → 0 ≤ row.availableAmount) :
    Holds key db after reservation later := by
  refine ⟨0, ?_, by omega, available⟩
  simp [same, hold_none]

private theorem reserve_holds {place : BalanceKey} {amount : Int}
    (ran : (Statement.reserveCollateral place amount).run now db = .ok (affected, after)) (enough : 0 ≤ amount)
    (honest : ∀ rows, answer = .ok rows → rows = affected)
    (available : ∀ row, db.balances key = some row → 0 ≤ row.availableAmount) :
    Holds key db after none (Reservation.after none (.execute (.reserveCollateral place amount)) answer) := by
  have later : (Reservation.after none (.execute (.reserveCollateral place amount)) answer).on key ≤
      if place = key then amount else 0 := by
    simp only [Reservation.after]
    split
    next => exact le_refl _
    next =>
      simp only [Reservation.on]
      split <;> omega
  have refused (nothing : affected = 0) :
      (Reservation.after none (.execute (.reserveCollateral place amount)) answer).on key ≤ Reservation.on key none := by
    have fails : affectsRows answer = false := by
      cases answer with
      | ok rows => simp [affectsRows, honest rows rfl, nothing]
      | error text => rfl
    simp [Reservation.after, fails]
  simp only [Statement.run] at ran
  split at ran
  next row found =>
    split at ran
    next covers =>
      cases ran
      by_cases here : place = key
      · subst here
        refine ⟨amount, ?_, ?_, fun other same => ?_⟩
        · simp [found, BalanceRow.hold]
        · rw [if_pos rfl] at later
          simp only [Reservation.on] at later ⊢
          omega
        · cases found.symm.trans same
          exact covers
      · rw [if_neg here] at later
        exact unmoved_holds (Function.update_of_ne (Ne.symm here) _ _) later available
    next =>
      cases ran
      exact unmoved_holds rfl (refused rfl) available
  next =>
    cases ran
    exact unmoved_holds rfl (refused rfl) available

private theorem release_holds {place : BalanceKey} {amount : Int}
    (ran : (Statement.releaseCollateral place amount).run now db = .ok (affected, after))
    (positive : 0 ≤ Reservation.on key (some (place, amount)))
    (covered : ∀ row, db.balances key = some row →
      0 ≤ row.availableAmount ∧ Reservation.on key (some (place, amount)) ≤ row.holdAmount) :
    Holds key db after (some (place, amount))
      (Reservation.after (some (place, amount)) (.execute (.releaseCollateral place amount)) answer) := by
  simp only [Statement.run] at ran
  split at ran
  next row found =>
    cases ran
    by_cases here : place = key
    · subst here
      obtain ⟨available, held⟩ := covered row found
      simp only [Reservation.on, if_true] at held positive
      refine ⟨-amount, ?_, ?_, fun other same => ?_⟩
      · have exact_hold : max (row.holdAmount - amount) 0 = row.holdAmount + -amount := by omega
        simp [found, BalanceRow.hold, exact_hold]
      · simp [Reservation.after, Reservation.on]
      · cases found.symm.trans same
        omega
    · exact unmoved_holds (Function.update_of_ne (Ne.symm here) _ _) positive fun row found => (covered row found).1
  next =>
    cases ran
    exact unmoved_holds rfl positive fun row found => (covered row found).1

private theorem run_holds (ran : statement.run now db = .ok (affected, after))
    (ready : reservation.Ready (.execute statement))
    (honest : ∀ rows, answer = .ok rows → rows = affected) (positive : 0 ≤ reservation.on key)
    (covered : ∀ row, db.balances key = some row → 0 ≤ row.availableAmount ∧ reservation.on key ≤ row.holdAmount) :
    Holds key db after reservation (reservation.after (.execute statement) answer) := by
  cases statement with
  | reserveCollateral place amount =>
    obtain ⟨rfl, enough⟩ := ready
    exact reserve_holds ran enough honest fun row found => (covered row found).1
  | releaseCollateral place amount =>
    cases (ready : reservation = some (place, amount))
    exact release_holds ran positive covered
  | _ =>
    have same := run_keepsBalances ran (by simp) (by simp)
    exact unmoved_holds (congrFun same key) (le_refl _) fun row found => (covered row found).1

private theorem execute_cases (delivery : Delivery) :
    (∃ error, delivery.execute now statement db = (.error error, db)) ∨
      ∃ affected after, statement.run now db = .ok (affected, after) ∧
        (delivery.execute now statement db).2 = after ∧
        ∀ rows, (delivery.execute now statement db).1 = .ok rows → rows = affected := by
  cases ran : statement.run now db with
  | error error =>
    left
    cases delivery with
    | answered => exact ⟨error, by simp only [Delivery.execute, ran]⟩
    | failed text => exact ⟨text, rfl⟩
    | lost text => exact ⟨text, by simp only [Delivery.execute, ran]⟩
  | ok result =>
    cases delivery with
    | answered =>
      refine .inr ⟨result.1, result.2, rfl, ?_, ?_⟩
      · simp only [Delivery.execute, ran]
      · intro rows same
        simp only [Delivery.execute, ran, Except.ok.injEq] at same
        exact same.symm
    | failed error => exact .inl ⟨error, rfl⟩
    | lost error =>
      refine .inr ⟨result.1, result.2, rfl, ?_, ?_⟩
      · simp only [Delivery.execute, ran]
      · intro rows same
        simp only [Delivery.execute, ran, reduceCtorEq] at same

/-- However a statement goes, the hold of a row grows by at least as much as the
reservation on it. -/
private theorem execute_holds {delivery : Delivery} (executed : delivery.execute now statement db = (answer, after))
    (ready : reservation.Ready (.execute statement)) (positive : 0 ≤ reservation.on key)
    (covered : ∀ row, db.balances key = some row → 0 ≤ row.availableAmount ∧ reservation.on key ≤ row.holdAmount) :
    Holds key db after reservation (reservation.after (.execute statement) answer) := by
  rcases execute_cases delivery with ⟨error, failed⟩ | ⟨affected, later, ran, same, honest⟩
  · cases failed.symm.trans executed
    refine ⟨0, by simp [hold_none], ?_, fun row found => (covered row found).1⟩
    rw [Int.add_zero]
    exact on_failure_le ready positive
  · rw [executed] at same honest
    subst same
    exact run_holds ran ready honest positive covered

end

variable {crypto : Crypto} {config : AppConfig} {start : Database} {state after : Calls} {reservations : List Reservation}

structure Calls.Backed (start : Database) (reservations : List Reservation) (state : Calls) : Prop where
  calls : List.Forall₂ (fun reservation (call : Effect (Except String OrderId)) =>
    call.Follows Reservation.Ready Reservation.Moves (fun _ _ => True) reservation) reservations state.calls
  positive : ∀ reservation ∈ reservations, ∀ key, 0 ≤ reservation.on key
  rows : ∀ key, (state.db.balances key).map BalanceRow.funds = (start.balances key).map BalanceRow.funds
  covered : ∀ key row, state.db.balances key = some row →
    0 ≤ row.availableAmount ∧ (reservations.map (Reservation.on key)).sum ≤ row.holdAmount

theorem sum_on_nonneg {key : BalanceKey} (positive : ∀ reservation ∈ reservations, 0 ≤ reservation.on key) :
    0 ≤ (reservations.map (Reservation.on key)).sum := by
  apply List.sum_nonneg
  intro value member
  obtain ⟨reservation, inside, rfl⟩ := List.mem_map.mp member
  exact positive reservation inside

theorem Calls.Backed.covers {front back : List Reservation} {reservation : Reservation}
    (backed : state.Backed start (front ++ reservation :: back)) {key : BalanceKey} {row : BalanceRow}
    (found : state.db.balances key = some row) :
    (front.map (Reservation.on key)).sum + reservation.on key + (back.map (Reservation.on key)).sum ≤ row.holdAmount ∧
      reservation.on key ≤ row.holdAmount := by
  have held := (backed.covered key row found).2
  have first := @sum_on_nonneg front key fun other member => backed.positive other (List.mem_append_left _ member) key
  have last := @sum_on_nonneg back key fun other member =>
    backed.positive other (List.mem_append_right _ (List.mem_cons_of_mem _ member)) key
  simp only [List.map_append, List.map_cons, List.sum_append, List.sum_cons] at held
  constructor <;> omega

theorem Calls.Moves.backed {event : Calls.Event} (moved : state.Moves crypto config event after)
    (backed : state.Backed start reservations) : ∃ later, after.Backed start later := by
  unfold Calls.Moves at moved
  cases event with
  | call now orderId signed marketId =>
    cases moved
    refine ⟨reservations ++ [none], ?_, ?_, backed.rows, fun key row found => ?_⟩
    · apply List.rel_append backed.calls
      exact .cons (acceptOrder_reserves.weaken fun _ _ _ => trivial) .nil
    · intro reservation member key
      rcases List.mem_append.mp member with before | new
      · exact backed.positive reservation before key
      · rw [List.mem_singleton.mp new]
        exact le_refl _
    · simpa [Reservation.on] using backed.covered key row found
  | send index sent =>
    simp only [Calls.step] at moved
    split at moved
    next command next found =>
      cases moved
      obtain ⟨front, reservation, back, rfl, follows, replaced, -⟩ := related_at backed.calls found
      have on_with := replaced reservation (next sent) (follows.2 sent reservation rfl)
      exact ⟨_, on_with, backed.positive, backed.rows, backed.covered⟩
    next => cases moved
  | execute index now delivery =>
    simp only [Calls.step] at moved
    split at moved
    next statement next found =>
      obtain ⟨front, reservation, back, rfl, ⟨ready, resume⟩, replaced, -⟩ := related_at backed.calls found
      have member : reservation ∈ front ++ reservation :: back := List.mem_append_right _ List.mem_cons_self
      generalize executed : delivery.execute now statement state.db = result at moved
      obtain ⟨answer, db⟩ := result
      cases moved
      have on_with := replaced _ (next answer) (resume answer _ rfl)
      have own (key : BalanceKey) := @execute_holds _ _ _ _ _ _ key _ executed ready (backed.positive _ member key)
        fun row found => ⟨(backed.covered key row found).1, (backed.covers found).2⟩
      refine ⟨_, on_with, fun other inside key => ?_, fun key => ?_, fun key row found => ?_⟩
      · rcases List.mem_append.mp inside with before | inside
        · exact backed.positive other (List.mem_append_left _ before) key
        · rcases List.mem_cons.mp inside with rfl | behind
          · exact on_after_nonneg ready (backed.positive _ member key)
          · exact backed.positive other (List.mem_append_right _ (List.mem_cons_of_mem _ behind)) key
      · exact (own key).funds.trans (backed.rows key)
      · obtain ⟨amount, moved, reserved, short⟩ := own key
        rw [moved] at found
        obtain ⟨before, was, rfl⟩ := Option.map_eq_some_iff.mp found
        have held := (backed.covers was).1
        have available := short before was
        simp only [BalanceRow.hold, List.map_append, List.map_cons, List.sum_append, List.sum_cons]
        constructor <;> omega
    next => cases moved

/-- Collateral is never spent twice: under every interleaving of any number of calls and
every pattern of failures, no row loses funds or goes below zero, and a release never
meets its clamp. -/
theorem spends_once {start : Calls} {events : List Calls.Event} (idle : start.calls = [])
    (nonneg : ∀ key row, start.db.balances key = some row → 0 ≤ row.availableAmount ∧ 0 ≤ row.holdAmount)
    (run : Run (Calls.Moves crypto config) start events state) (key : BalanceKey) :
    (state.db.balances key).map BalanceRow.funds = (start.db.balances key).map BalanceRow.funds ∧
      ∀ row, state.db.balances key = some row → 0 ≤ row.availableAmount ∧ 0 ≤ row.holdAmount ∧
        ∀ call ∈ state.calls, ∀ amount, call.pending = some (.execute (.releaseCollateral key amount)) →
          max (row.holdAmount - amount) 0 = row.holdAmount - amount := by
  have initial : ∃ reservations, start.Backed start.db reservations := by
    refine ⟨[], idle ▸ .nil, fun _ none => (nomatch none), fun _ => rfl, fun key row found => ?_⟩
    exact nonneg key row found
  obtain ⟨reservations, backed⟩ := run.keeps (fun state : Calls => ∃ reservations, state.Backed start.db reservations)
    (fun state event after moved ⟨reservations, backed⟩ => moved.backed backed) initial
  refine ⟨backed.rows key, fun row found => ?_⟩
  obtain ⟨available, held⟩ := backed.covered key row found
  have reserved := sum_on_nonneg fun reservation member => backed.positive reservation member key
  refine ⟨available, reserved.trans held, fun call member amount next => ?_⟩
  obtain ⟨index, at_index⟩ := List.getElem?_of_mem member
  obtain ⟨front, reservation, back, rfl, follows, -⟩ := related_at backed.calls at_index
  have covers := (backed.covers found).2
  unfold Program.pending at next
  split at next
  next => cases next
  next =>
    cases next
    cases (follows.1 : reservation = some (key, amount))
    simp only [Reservation.on, if_true] at covers
    exact max_eq_left (by omega)

namespace Sample

def twoBids : List Calls.Event :=
  [.call 0 103 (signedBy 6 .buy 500000 100 0) 1, .call 0 104 (signedBy 6 .buy 500000 200 1) 1,
    .execute 0 1 .answered, .execute 0 1 .answered, .execute 1 1 .answered, .execute 1 1 .answered,
    .execute 0 1 (.failed "deadlock detected"), .execute 1 1 .answered, .execute 0 1 .answered]

end Sample

theorem spends_once_sample : ∃ state : Calls, state.db.balances ⟨6, .usdc, none⟩ = some ⟨900, 100, 1⟩ ∧
    ((state.db.balances ⟨6, .usdc, none⟩).map BalanceRow.funds =
        (Sample.unlisted.balances ⟨6, .usdc, none⟩).map BalanceRow.funds ∧
      ∀ row, state.db.balances ⟨6, .usdc, none⟩ = some row → 0 ≤ row.availableAmount ∧ 0 ≤ row.holdAmount ∧
        ∀ call ∈ state.calls, ∀ amount, call.pending = some (.execute (.releaseCollateral ⟨6, .usdc, none⟩ amount)) →
          max (row.holdAmount - amount) 0 = row.holdAmount - amount) := by
  obtain ⟨state, run, reached⟩ := @Run.of_check _ _ (Calls.step Sample.signers Sample.deployment) ⟨Sample.unlisted, []⟩
    Sample.twoBids (fun state => decide (state.db.balances ⟨6, .usdc, none⟩ = some ⟨900, 100, 1⟩)) (by decide +kernel)
  refine ⟨state, of_decide_eq_true reached, spends_once rfl ?_ run _⟩
  intro key row found
  simp only [Sample.unlisted] at found
  split at found <;> cases found
  exact ⟨by decide, le_refl _⟩

end Omniscient.Gateway

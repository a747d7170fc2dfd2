import Omniscient.SettlementExchange

/-! Which errors an iteration of `settleBatch` can revert with. Writing behind the
delta array is one of them only when every cell is in use. -/

namespace Omniscient.SettlementExchange
open Outcome

variable {σ κ : Type} {env : Env σ κ} {msg : Message} {storage : Storage} {acc : Accrual} {errors : Error → Prop}

def Error.inLoop : Error → Prop
  | .orderExpired | .invalidNonce | .ecdsaInvalidSignature | .invalidSignature | .overfill _ _ => True
  | .panic code => code = .arithmetic
  | _ => False

private theorem checkFill_raises (loop : ∀ error, error.inLoop → errors error) {filled total amount : Uint256} :
    Raises errors (checkFill filled total amount) := by
  unfold checkFill
  split
  next => exact raises_bind (raises_orRevert (loop _ rfl)) fun _ => raises_error (loop _ trivial)
  next => exact raises_pure ()

theorem accrueCell_raises {κ : Type} [DecidableEq κ] {account : κ} {amount : Uint256} {cells : List (Posting κ 256)}
    {count : Nat} (overflow : errors (.panic .arithmetic)) (room : count < cells.length ∨ errors (.panic .outOfBounds)) :
    Raises errors (Postings.accrue (.panic .arithmetic) (.panic .outOfBounds) account amount cells count) := by
  induction cells generalizing count with
  | nil =>
    have bounds := room.resolve_left (Nat.not_lt_zero _)
    cases count <;> exact raises_error bounds
  | cons cell cells ih =>
    cases count with
    | zero => exact raises_pure _
    | succ count =>
      simp only [Postings.accrue]
      split
      next => exact raises_bind (raises_orRevert overflow) fun _ => raises_pure _
      next => exact raises_bind (ih (room.imp_left Nat.lt_of_succ_lt_succ)) fun _ => raises_pure _

private theorem usdcLeg_raises (loop : ∀ error, error.inLoop → errors error) {entry : Entry} :
    Raises errors (usdcLeg storage entry) := by
  have overflow : errors (.panic .arithmetic) := loop _ rfl
  refine raises_bind (raises_bind (raises_orRevert overflow) fun product => ?_) fun volume =>
    raises_bind ?_ fun fee => ?_
  · split
    next => exact raises_bind (raises_orRevert overflow) fun _ => raises_pure _
    next => exact raises_pure _
  · unfold fee
    split
    next => exact raises_bind (raises_orRevert overflow) fun _ => raises_orRevert overflow
    next => exact raises_bind (raises_orRevert overflow) fun _ => raises_bind (raises_orRevert overflow) fun _ => raises_pure _
  · split
    next => exact raises_bind (raises_orRevert overflow) fun _ => raises_pure _
    next => exact raises_bind (raises_orRevert overflow) fun _ => raises_pure _

private theorem bookLeg_raises (loop : ∀ error, error.inLoop → errors error) {maker : Address} {leg : Leg}
    (room : acc.deltaCount < acc.deltas.length ∨ errors (.panic .outOfBounds)) :
    Raises errors (bookLeg maker leg acc) := by
  have overflow : errors (.panic .arithmetic) := loop _ rfl
  have accrued (amount : Int256) : Raises errors (accrue maker amount acc) :=
    raises_bind (accrueCell_raises overflow room) fun _ => raises_pure _
  cases leg with
  | buy charge =>
    refine raises_bind (raises_orRevert overflow) fun amount => raises_bind (accrued amount) fun _ => ?_
    exact raises_bind (raises_orRevert overflow) fun _ => raises_pure _
  | sell credit =>
    refine raises_bind (accrued credit) fun _ => ?_
    exact raises_bind (raises_orRevert overflow) fun _ => raises_pure _

theorem settleEntry_raises (loop : ∀ error, error.inLoop → errors error) {entry : Entry}
    (room : acc.deltaCount < acc.deltas.length ∨ errors (.panic .outOfBounds)) :
    Raises errors (settleEntry env msg storage acc entry) := by
  unfold settleEntry
  split
  next => exact raises_pure _
  next =>
    refine raises_bind (raises_revertIf (loop _ trivial)) fun _ => raises_bind (raises_revertIf (loop _ trivial)) fun _ => ?_
    refine raises_bind (raises_orRevert (loop _ trivial)) fun _ => raises_bind (raises_revertIf (loop _ trivial)) fun _ => ?_
    refine raises_bind (raises_orRevert (loop _ rfl)) fun _ => raises_bind (checkFill_raises loop) fun _ => ?_
    exact raises_bind (usdcLeg_raises loop) fun _ => bookLeg_raises loop room

end Omniscient.SettlementExchange

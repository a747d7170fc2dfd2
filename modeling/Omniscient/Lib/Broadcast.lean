import Mathlib.Data.List.Basic
import Mathlib.Tactic.TypeStar

/-! A broadcast channel of bounded capacity. It keeps the last values that were sent; a
receiver that has fallen further behind goes on with the oldest value kept, and is told
how many it has missed. -/

namespace Broadcast

variable {α : Type*}

inductive Received (α : Type*) where
  | value (item : α)
  | lagged (missed : Nat)

/-- What a receiver is given at a position of all that was sent, and where it is then.
At the end it waits. -/
def recv (capacity : Nat) (sent : List α) (position : Nat) : Option (Received α × Nat) :=
  if position + capacity < sent.length then
    some (.lagged (sent.length - capacity - position), sent.length - capacity)
  else
    sent[position]?.map fun item => (.value item, position + 1)

/-- What a receiver has been given since `start`, up to its position: a part of what was
sent in between, in order, short of exactly what it was told that it missed. -/
structure Account (sent : List α) (start position missed : Nat) (items : List α) : Prop where
  started : start ≤ position
  position_le : position ≤ sent.length
  ordered : items.Sublist ((sent.take position).drop start)
  counted : items.length + missed = position - start

variable {capacity start position missed : Nat} {sent items : List α}

theorem Account.subscribe : Account sent sent.length sent.length 0 [] where
  started := Nat.le_refl _
  position_le := Nat.le_refl _
  ordered := List.nil_sublist _
  counted := (Nat.sub_self _).symm

theorem Account.send (account : Account sent start position missed items) (value : α) :
    Account (sent ++ [value]) start position missed items where
  started := account.started
  position_le := by
    have bound := account.position_le
    rw [List.length_append]
    omega
  ordered := by
    rw [List.take_append_of_le_length account.position_le]
    exact account.ordered
  counted := account.counted

theorem window_succ (started : start ≤ position) {item : α} (found : sent[position]? = some item) :
    (sent.take (position + 1)).drop start = (sent.take position).drop start ++ [item] := by
  obtain ⟨inside, rfl⟩ := List.getElem?_eq_some_iff.mp found
  rw [List.take_add_one, found, List.drop_append_of_le_length (by rw [List.length_take]; omega)]
  rfl

theorem Account.value (account : Account sent start position missed items) {item : α} {next : Nat}
    (given : recv capacity sent position = some (.value item, next)) :
    Account sent start next missed (items ++ [item]) := by
  unfold recv at given
  split at given
  next => cases given
  next =>
    obtain ⟨next, found, same⟩ := Option.map_eq_some_iff.mp given
    cases same
    refine ⟨Nat.le_succ_of_le account.started, (List.getElem?_eq_some_iff.mp found).1, ?_, ?_⟩
    · rw [window_succ account.started found]
      exact account.ordered.append (List.Sublist.refl _)
    · have counted := account.counted
      have started := account.started
      rw [List.length_append, List.length_singleton]
      omega

theorem Account.lagged (account : Account sent start position missed items) {skipped next : Nat}
    (told : recv capacity sent position = some (.lagged skipped, next)) :
    Account sent start next (missed + skipped) items := by
  unfold recv at told
  split at told
  next behind =>
    cases told
    have counted := account.counted
    have started := account.started
    refine ⟨by omega, Nat.sub_le _ _, ?_, by omega⟩
    have longer : ((sent.take position).drop start).Sublist ((sent.take (sent.length - capacity)).drop start) :=
      (List.take_prefix_take_left (by omega)).sublist.drop start
    exact account.ordered.trans longer
  next =>
    obtain ⟨_, _, same⟩ := Option.map_eq_some_iff.mp told
    cases same

theorem Account.complete (account : Account sent start position 0 items) : items = (sent.take position).drop start := by
  apply account.ordered.eq_of_length
  rw [List.length_drop, List.length_take, Nat.min_eq_left account.position_le]
  exact account.counted

/-- A receiver is only told so when it is further behind than what is kept. -/
theorem recv_kept (close : sent.length ≤ position + capacity) {skipped next : Nat} :
    recv capacity sent position ≠ some (.lagged skipped, next) := by
  intro told
  rw [recv, if_neg (by omega)] at told
  obtain ⟨_, _, same⟩ := Option.map_eq_some_iff.mp told
  cases same

end Broadcast

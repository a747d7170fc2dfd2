import Mathlib.Algebra.BigOperators.Group.Finset.Piecewise
import Omniscient.Lib.Outcome
import Omniscient.Lib.Word

/-! A fixed-length array of postings whose first cells are in use. Accruing an
amount adds it to the cell of its account, or claims the next free cell. The
abstract view of the array is the exact net amount of every account. -/

structure Posting (κ : Type) (w : Nat) where
  account : κ
  amount : BitVec w
  deriving DecidableEq, Repr

namespace Postings
open Outcome

variable {κ ε : Type} {w : Nat}

def sum (postings : List (Posting κ w)) : Int := (postings.map fun posting => posting.amount.toInt).sum

@[simp] theorem sum_nil : sum ([] : List (Posting κ w)) = 0 := rfl

@[simp] theorem sum_cons (posting : Posting κ w) (postings : List (Posting κ w)) :
    sum (posting :: postings) = posting.amount.toInt + sum postings := by
  simp [sum]

variable [DecidableEq κ]

/-- Add `amount` to the cell of `account` among the first `count` cells, or write a
new cell behind them. Returns the array and the number of cells then in use. -/
def accrue (overflow bounds : ε) (account : κ) (amount : BitVec w) :
    List (Posting κ w) → Nat → Except ε (List (Posting κ w) × Nat)
  | cell :: cells, count + 1 =>
    if cell.account = account then do
      let sum ← orRevert overflow (Word.addSigned cell.amount amount)
      return ({ cell with amount := sum } :: cells, count + 1)
    else do
      let (cells, count) ← accrue overflow bounds account amount cells count
      return (cell :: cells, count + 1)
  | _ :: cells, 0 => return (⟨account, amount⟩ :: cells, 1)
  | [], _ => .error bounds

def net (postings : List (Posting κ w)) (account : κ) : Int :=
  (postings.map fun posting => if posting.account = account then posting.amount.toInt else 0).sum

@[simp] theorem net_nil (account : κ) : net ([] : List (Posting κ w)) account = 0 := rfl

@[simp] theorem net_cons (posting : Posting κ w) (postings : List (Posting κ w)) (account : κ) :
    net (posting :: postings) account =
      (if posting.account = account then posting.amount.toInt else 0) + net postings account := by
  simp [net]

theorem net_append (first second : List (Posting κ w)) (account : κ) :
    net (first ++ second) account = net first account + net second account := by
  simp [net]

theorem sum_net [Fintype κ] (postings : List (Posting κ w)) : ∑ account, net postings account = sum postings := by
  induction postings with
  | nil => simp
  | cons posting postings ih =>
    simp only [net_cons, Finset.sum_add_distrib, ih, sum_cons]
    rw [Finset.sum_ite_eq Finset.univ posting.account, if_pos (Finset.mem_univ _)]

/-- What one accrual does to the array, seen through the cells in use. -/
structure Accrued (account : κ) (amount : BitVec w) (cells cells' : List (Posting κ w)) (count count' : Nat) : Prop where
  length : cells'.length = cells.length
  used : count ≤ cells.length → count' ≤ cells'.length
  grown : count' ≤ count + 1
  accounts : (cells'.take count').map Posting.account =
    if account ∈ (cells.take count).map Posting.account then (cells.take count).map Posting.account
    else (cells.take count).map Posting.account ++ [account]
  net : ∀ other, net (cells'.take count') other =
    net (cells.take count) other + if account = other then amount.toInt else 0
  sum : sum (cells'.take count') = sum (cells.take count) + amount.toInt

theorem accrue_ok {overflow bounds : ε} {account : κ} {amount : BitVec w} {cells cells' : List (Posting κ w)}
    {count count' : Nat} (ran : accrue overflow bounds account amount cells count = .ok (cells', count')) :
    Accrued account amount cells cells' count count' := by
  induction cells generalizing cells' count count' with
  | nil => cases count <;> cases ran
  | cons cell cells ih =>
    cases count with
    | zero =>
      cases ran
      constructor <;> simp
    | succ count =>
      simp only [accrue] at ran
      split at ran
      next same =>
        obtain ⟨total, added, written⟩ := bind_ok.mp ran
        cases written
        rw [orRevert_ok, Word.addSigned_some] at added
        subst same
        constructor
        · simp
        · simp
        · simp
        · simp
        · intro other
          simp only [List.take_succ_cons, net_cons]
          split <;> omega
        · simp only [List.take_succ_cons, sum_cons]
          omega
      next different =>
        obtain ⟨⟨rest, used⟩, inner, written⟩ := bind_ok.mp ran
        cases written
        obtain ⟨length, bound, grown, accounts, net, sum⟩ := ih inner
        constructor
        · simp [length]
        · simpa using bound
        · exact Nat.succ_le_succ grown
        · simp only [List.take_succ_cons, List.map_cons, accounts, List.mem_cons, Ne.symm different, false_or]
          split <;> simp
        · intro other
          simp only [List.take_succ_cons, net_cons, net, add_assoc]
        · simp only [List.take_succ_cons, sum_cons, sum, add_assoc]

/-- Cells of pairwise different accounts, no amount of which exceeds a bound. -/
structure Bounded (bound : Nat) (cells : List (Posting κ w)) : Prop where
  accounts : (cells.map Posting.account).Nodup
  amounts : ∀ cell ∈ cells, cell.amount.toInt.natAbs ≤ bound

theorem net_of_mem {cells : List (Posting κ w)} {cell : Posting κ w} (accounts : (cells.map Posting.account).Nodup)
    (member : cell ∈ cells) : net cells cell.account = cell.amount.toInt := by
  have absent (cells : List (Posting κ w)) (account : κ) (fresh : account ∉ cells.map Posting.account) :
      net cells account = 0 := by
    apply List.sum_eq_zero
    intro amount counted
    obtain ⟨other, among, rfl⟩ := List.mem_map.mp counted
    refine if_neg ?_
    intro same
    subst same
    exact fresh (List.mem_map_of_mem among)
  induction cells with
  | nil => cases member
  | cons first cells ih =>
    obtain ⟨fresh, rest⟩ := List.nodup_cons.mp accounts
    rw [net_cons]
    rcases List.mem_cons.mp member with rfl | later
    · rw [if_pos rfl, absent cells _ fresh, add_zero]
    · have different : first.account ≠ cell.account := fun same => fresh (same ▸ List.mem_map_of_mem later)
      rw [if_neg different, ih rest later, zero_add]

/-- An accrual returns while there is a free cell and the bound leaves room for the amount. -/
theorem accrue_returns {overflow bounds : ε} {account : κ} {amount : BitVec w} {cells : List (Posting κ w)}
    {count bound : Nat} (room : count < cells.length) (bounded : Bounded bound (cells.take count))
    (fits : bound + amount.toInt.natAbs < 2 ^ (w - 1)) (positive : 0 < w) :
    ∃ cells' count', accrue overflow bounds account amount cells count = .ok (cells', count') ∧
      Bounded (bound + amount.toInt.natAbs) (cells'.take count') := by
  have returned : ∃ cells' count', accrue overflow bounds account amount cells count = .ok (cells', count') ∧
      ∀ cell ∈ cells'.take count', cell.amount.toInt.natAbs ≤ bound + amount.toInt.natAbs := by
    have amounts := bounded.amounts
    clear bounded
    induction cells generalizing count with
    | nil => simp at room
    | cons cell cells ih =>
      cases count with
      | zero => exact ⟨_, _, rfl, by simp⟩
      | succ count =>
        simp only [List.take_succ_cons, List.mem_cons, forall_eq_or_imp] at amounts
        obtain ⟨first, rest⟩ := amounts
        simp only [accrue]
        split
        next same =>
          obtain ⟨total, added⟩ := @Word.addSigned_fits w cell.amount amount (by omega) positive
          refine ⟨_, _, bind_ok.mpr ⟨total, orRevert_ok.mpr added, rfl⟩, ?_⟩
          have sum := Word.addSigned_some.mp added
          simp only [List.take_succ_cons, List.mem_cons, forall_eq_or_imp]
          exact ⟨by omega, fun other member => (rest other member).trans (Nat.le_add_right _ _)⟩
        next different =>
          obtain ⟨cells', count', ran, kept⟩ := ih (Nat.lt_of_succ_lt_succ room) rest
          refine ⟨_, _, bind_ok.mpr ⟨_, ran, rfl⟩, ?_⟩
          simp only [List.take_succ_cons, List.mem_cons, forall_eq_or_imp]
          exact ⟨by omega, kept⟩
  obtain ⟨cells', count', ran, amounts⟩ := returned
  refine ⟨cells', count', ran, ?_, amounts⟩
  rw [(accrue_ok ran).accounts]
  split
  next => exact bounded.accounts
  next fresh => exact List.nodup_append.mpr ⟨bounded.accounts, by simp, by
    rintro used known _ (⟨⟩ | ⟨_, ⟨⟩⟩) rfl
    exact fresh known⟩

end Postings

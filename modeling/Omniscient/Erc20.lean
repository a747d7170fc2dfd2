import Omniscient.Evm
import Omniscient.Lib.Word

/-! A plain ERC-20 ledger without transfer fees, the standard instance of the
token interface. -/

namespace Omniscient.Erc20

structure State where
  balances : Address → Uint256
  allowance : Address → Address → Uint256

/-- Move an amount between two accounts. The debit is written before the credit
is read, so a transfer to oneself changes nothing. -/
def move (state : State) (holder recipient : Address) (amount : Uint256) : Option State := do
  let rest ← Word.sub (state.balances holder) amount
  let debited := Function.update state.balances holder rest
  let credited ← Word.add (debited recipient) amount
  return { state with balances := Function.update debited recipient credited }

def transfer (state : State) (caller recipient : Address) (amount : Uint256) : Option State :=
  if recipient = 0 then none else move state caller recipient amount

def transferFrom (state : State) (caller holder recipient : Address) (amount : Uint256) : Option State :=
  if recipient = 0 then none else do
    let left ← Word.sub (state.allowance holder caller) amount
    move { state with
      allowance := Function.update state.allowance holder (Function.update (state.allowance holder) caller left) }
      holder recipient amount

def token : Token State where
  balanceOf := State.balances
  safeTransfer := transfer
  safeTransferFrom := transferFrom

theorem move_self {state after : State} {holder : Address} {amount : Uint256}
    (moved : move state holder holder amount = some after) : after.balances holder = state.balances holder := by
  simp only [move, Option.bind_eq_bind, Option.bind_eq_some_iff, Option.pure_def, Option.some.injEq] at moved
  obtain ⟨rest, debit, credited, credit, rfl⟩ := moved
  rw [Word.sub_some] at debit
  rw [Function.update_self, Word.add_some] at credit
  simp only [Function.update_self]
  exact BitVec.eq_of_toNat_eq (by omega)

theorem move_other {state after : State} {holder recipient : Address} {amount : Uint256}
    (moved : move state holder recipient amount = some after) (different : holder ≠ recipient) :
    (after.balances holder).toNat + amount.toNat = (state.balances holder).toNat ∧
      (after.balances recipient).toNat = (state.balances recipient).toNat + amount.toNat ∧
      ∀ other, other ≠ holder → other ≠ recipient → after.balances other = state.balances other := by
  simp only [move, Option.bind_eq_bind, Option.bind_eq_some_iff, Option.pure_def, Option.some.injEq] at moved
  obtain ⟨rest, debit, credited, credit, rfl⟩ := moved
  rw [Word.sub_some] at debit
  rw [Function.update_of_ne different.symm, Word.add_some] at credit
  refine ⟨?_, ?_, ?_⟩
  · simpa [Function.update_of_ne different] using debit
  · simpa using credit
  · intro other notHolder notRecipient
    simp [Function.update_of_ne notRecipient, Function.update_of_ne notHolder]

/-- A covered transfer succeeds, unless the recipient's balance would overflow. -/
theorem transfer_succeeds {state : State} {holder recipient : Address} {amount : Uint256} (named : recipient ≠ 0)
    (covered : amount ≤ state.balances holder)
    (room : (state.balances recipient).toNat + amount.toNat < 2 ^ 256) :
    (transfer state holder recipient amount).isSome := by
  have debit : Word.sub (state.balances holder) amount = some (state.balances holder - amount) := by
    rw [Word.sub_some, BitVec.toNat_sub_of_le covered]
    exact Nat.sub_add_cancel (BitVec.le_def.mp covered)
  have lower : (Function.update state.balances holder (state.balances holder - amount) recipient).toNat ≤
      (state.balances recipient).toNat := by
    by_cases same : recipient = holder
    · subst same
      rw [Function.update_self, BitVec.toNat_sub_of_le covered]
      exact Nat.sub_le _ _
    · rw [Function.update_of_ne same]
  have credit : Word.add (Function.update state.balances holder (state.balances holder - amount) recipient) amount =
      some (Function.update state.balances holder (state.balances holder - amount) recipient + amount) := by
    rw [Word.add_some]
    exact BitVec.toNat_add_of_lt (by omega)
  rw [transfer, if_neg named]
  simp [move, debit, credit]

end Omniscient.Erc20

import Omniscient.Evm
import Omniscient.Lib.Word

/-! A plain ERC-1155 ledger, the standard instance of the conditional tokens, and
what the exchange assumes of them. -/

namespace Omniscient

/-- A transfer of shares moves exactly its amount or does not happen. Reading the
debit and the credit in one equation covers a transfer to oneself. -/
def MultiToken.Exact {κ : Type} (ctf : MultiToken κ) : Prop :=
  ∀ state after caller holder recipient id amount,
    ctf.safeTransferFrom state caller holder recipient id amount = some after → ∀ account position,
      (ctf.balanceOf after account position).toNat +
          (if holder = account ∧ id = position then amount.toNat else 0) =
        (ctf.balanceOf state account position).toNat +
          (if recipient = account ∧ id = position then amount.toNat else 0)

/-- Transfers that depend on balances and permissions alone: between two accounts one
happens exactly when it is permitted, covered by the holder and fits the recipient,
and it leaves every permission as it was. -/
structure MultiToken.Lawful {κ : Type} (ctf : MultiToken κ)
    (permitted : κ → (caller holder recipient : Address) → Prop) : Prop where
  exact : ctf.Exact
  moves : ∀ state caller holder recipient id amount, holder ≠ recipient →
    ((∃ after, ctf.safeTransferFrom state caller holder recipient id amount = some after) ↔
      permitted state caller holder recipient ∧ amount ≤ ctf.balanceOf state holder id ∧
        (ctf.balanceOf state recipient id).toNat + amount.toNat < 2 ^ 256)
  kept : ∀ state after caller holder recipient id amount,
    ctf.safeTransferFrom state caller holder recipient id amount = some after → permitted after = permitted state

namespace Erc1155

structure State where
  balances : Address → Uint256 → Uint256
  approved : Address → Address → Bool

def write (state : State) (account : Address) (id value : Uint256) : State :=
  { state with balances := Function.update state.balances account (Function.update (state.balances account) id value) }

def safeTransferFrom (state : State) (caller holder recipient : Address) (id amount : Uint256) : Option State :=
  if recipient = 0 ∨ ¬ (holder = caller ∨ state.approved holder caller = true) then none else do
    let rest ← Word.sub (state.balances holder id) amount
    let debited := write state holder id rest
    let credited ← Word.add (debited.balances recipient id) amount
    return write debited recipient id credited

def token : MultiToken State where
  balanceOf := State.balances
  safeTransferFrom := safeTransferFrom

theorem write_balances (state : State) (account other : Address) (id position value : Uint256) :
    (write state account id value).balances other position =
      if account = other ∧ id = position then value else state.balances other position := by
  simp only [write]
  by_cases owner : account = other
  · subst owner
    by_cases same : id = position
    · simp [same]
    · simp [same, Function.update_of_ne (Ne.symm same)]
  · simp [owner, Function.update_of_ne (Ne.symm owner)]

theorem exact : token.Exact := by
  intro state after caller holder recipient id amount moved account position
  simp only [token, safeTransferFrom] at moved ⊢
  split at moved
  next => cases moved
  next =>
    simp only [Option.bind_eq_bind, Option.bind_eq_some_iff, Option.pure_def, Option.some.injEq, Word.sub_some,
      Word.add_some, write_balances] at moved
    obtain ⟨rest, debited, credited, added, rfl⟩ := moved
    simp only [write_balances]
    by_cases same : id = position
    · subst same
      simp only [and_true] at added ⊢
      by_cases own : holder = account <;> by_cases receives : recipient = account <;>
        simp_all
    · simp [same]

/-- Nothing goes to the zero address, and nobody moves another's shares unapproved. -/
def Permitted (state : State) (caller holder recipient : Address) : Prop :=
  recipient ≠ 0 ∧ (holder = caller ∨ state.approved holder caller = true)

theorem lawful : token.Lawful Permitted := by
  refine ⟨exact, ?_, ?_⟩
  · intro state caller holder recipient id amount different
    have untouched (rest : Uint256) : (write state holder id rest).balances recipient id = state.balances recipient id := by
      rw [write_balances, if_neg fun same => different same.1]
    simp only [token, safeTransferFrom, Permitted]
    constructor
    · intro holds
      obtain ⟨after, moved⟩ := holds
      split at moved
      next => cases moved
      next permitted =>
        simp only [Option.bind_eq_bind, Option.bind_eq_some_iff, Word.sub_some, Word.add_some, untouched] at moved
        obtain ⟨rest, debited, credited, added, -⟩ := moved
        have bound := credited.isLt
        have covered : amount.toNat ≤ (state.balances holder id).toNat := by omega
        exact ⟨by tauto, covered, by omega⟩
    · intro holds
      obtain ⟨permitted, covered, fits⟩ := holds
      obtain ⟨rest, debited⟩ := Word.sub_fits (BitVec.le_def.mp covered)
      obtain ⟨credited, added⟩ := Word.add_fits fits
      rw [if_neg (by tauto)]
      simp [debited, untouched, added]
  · intro state after caller holder recipient id amount moved
    simp only [token, safeTransferFrom] at moved
    split at moved
    next => cases moved
    next =>
      simp only [Option.bind_eq_bind, Option.bind_eq_some_iff, Option.pure_def, Option.some.injEq] at moved
      obtain ⟨rest, -, credited, -, rfl⟩ := moved
      rfl

end Erc1155

end Omniscient

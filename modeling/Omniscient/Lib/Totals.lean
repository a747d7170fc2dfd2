import Mathlib.Algebra.BigOperators.Ring.Finset
import Mathlib.Algebra.BigOperators.Group.Finset.Piecewise
import Mathlib.Algebra.Order.BigOperators.Group.Finset

/-! The sum of a mapping from a finite set of keys to words, and how a write to
one key moves it. -/

namespace Totals

variable {κ : Type*} [Fintype κ] {w : Nat}

/-- The exact sum of all entries: it is not bounded by the word size. -/
def total (entries : κ → BitVec w) : Nat := ∑ key, (entries key).toNat

@[simp] theorem total_zero : total (fun _ : κ => (0 : BitVec w)) = 0 := by simp [total]

theorem sum_moved [DecidableEq κ] {entries after : κ → Nat} (key : κ)
    (others : ∀ other, other ≠ key → after other = entries other) :
    ∑ other, after other + entries key = ∑ other, entries other + after key := by
  have rest : ∑ other ∈ Finset.univ.erase key, after other = ∑ other ∈ Finset.univ.erase key, entries other :=
    Finset.sum_congr rfl fun other member => others other (Finset.ne_of_mem_erase member)
  have before := Finset.add_sum_erase Finset.univ entries (Finset.mem_univ key)
  have now := Finset.add_sum_erase Finset.univ after (Finset.mem_univ key)
  omega

theorem total_update [DecidableEq κ] (entries : κ → BitVec w) (key : κ) (value : BitVec w) :
    total (Function.update entries key value) + (entries key).toNat = total entries + value.toNat := by
  have moved := @sum_moved κ _ _ (fun other => (entries other).toNat)
    (fun other => (Function.update entries key value other).toNat) key fun other different => by
      rw [Function.update_of_ne different]
  simpa only [total, Function.update_self] using moved

/-- Where one entry gives what is used, and the others no more, sums that are bounded
stay so. -/
theorem sum_bounded {ι : Type*} [DecidableEq ι] {entries after : ι → Nat} {key : ι} {used room count : Nat}
    (bound : ∀ keys : Finset ι, ∑ other ∈ keys, entries other ≤ count)
    (others : ∀ other, other ≠ key → after other ≤ entries other) (here : used + after key ≤ entries key + room)
    (keys : Finset ι) : used + ∑ other ∈ keys, after other ≤ count + room := by
  have less : ∑ other ∈ keys.erase key, after other ≤ ∑ other ∈ keys.erase key, entries other :=
    Finset.sum_le_sum fun other member => others other (Finset.ne_of_mem_erase member)
  have total := bound (insert key (keys.erase key))
  have grown : ∑ other ∈ keys, after other ≤ ∑ other ∈ insert key (keys.erase key), after other :=
    Finset.sum_le_sum_of_subset (Finset.insert_erase_subset key keys)
  rw [Finset.sum_insert (Finset.notMem_erase key keys)] at total grown
  omega

theorem sum_filter_le {α ι : Type*} [DecidableEq ι] (key : α → ι) (items : List α) (keys : Finset ι) :
    ∑ one ∈ keys, (items.filter (key · = one)).length ≤ items.length := by
  induction items with
  | nil => simp
  | cons item items ih =>
    have split (one : ι) : ((item :: items).filter (key · = one)).length =
        (items.filter (key · = one)).length + if key item = one then 1 else 0 := by
      rw [List.filter_cons]
      split <;> simp_all
    simp only [split, Finset.sum_add_distrib, Finset.sum_ite_eq, List.length_cons]
    split <;> omega

end Totals

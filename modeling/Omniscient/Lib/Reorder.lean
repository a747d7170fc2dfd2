import Mathlib.Data.List.Nodup

/-! Folding the same items in two orders. The results agree when every two items that
the orders put differently commute. -/

namespace Reorder

variable {σ ε : Type} {step : σ → ε → σ}

def Commutes (step : σ → ε → σ) (first second : ε) : Prop :=
  ∀ state, step (step state first) second = step (step state second) first

theorem foldl_first {first : ε} {items : List ε} (all : ∀ item ∈ items, Commutes step first item) (start : σ) :
    (items ++ [first]).foldl step start = items.foldl step (step start first) := by
  induction items generalizing start with
  | nil => rfl
  | cons item items ih =>
    rw [List.cons_append, List.foldl_cons, List.foldl_cons, all item List.mem_cons_self start]
    exact ih (fun other member => all other (List.mem_cons_of_mem _ member)) _

theorem foldl_eq {ordered taken : List ε} (same : taken.Perm ordered) (nodup : ordered.Nodup)
    (safe : ∀ older newer, [older, newer].Sublist ordered → [newer, older].Sublist taken → Commutes step older newer)
    (start : σ) : taken.foldl step start = ordered.foldl step start := by
  induction ordered generalizing taken start with
  | nil => rw [same.eq_nil]
  | cons first ordered ih =>
    obtain ⟨fresh, nodup⟩ := List.nodup_cons.mp nodup
    obtain ⟨before, after, rfl⟩ := List.append_of_mem (same.mem_iff.mpr List.mem_cons_self)
    have rest : (before ++ after).Perm ordered := (List.perm_middle.symm.trans same).cons_inv
    have skipped : (before ++ after).Sublist (before ++ first :: after) :=
      List.Sublist.append_left (List.sublist_cons_self ..) before
    -- The items taken before the first one are all newer than it.
    have overtakes : ∀ item ∈ before, Commutes step first item := by
      intro item member
      apply safe
      · exact (List.singleton_sublist.mpr (rest.subset (List.mem_append_left _ member))).cons_cons first
      · exact (List.singleton_sublist.mpr member).append (List.singleton_sublist.mpr List.mem_cons_self)
    rw [← List.singleton_append, ← List.append_assoc, List.foldl_append, foldl_first overtakes, ← List.foldl_append,
      List.foldl_cons]
    exact ih rest nodup (fun older newer inOrder taken => safe older newer (inOrder.cons first) (taken.trans skipped)) _

end Reorder

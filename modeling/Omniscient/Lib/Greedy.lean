import Mathlib.Algebra.GroupWithZero.Nat
import Mathlib.Data.List.Basic

/-! Greedy allocation. A demand goes along a list: an item is passed over, or gives
what it has up to the demand still open, until nothing is open. -/

namespace Greedy

inductive Verdict where
  | passed
  | given (amount : Nat)
  deriving DecidableEq

variable {α : Type}

/-- The items that the demand reaches, each with what happens to it. -/
def allocate (passes : α → Bool) (supply : α → Nat) : List α → Nat → List (α × Verdict)
  | [], _ => []
  | item :: items, demand =>
    if demand = 0 then []
    else if passes item then (item, .passed) :: allocate passes supply items demand
    else (item, .given (min demand (supply item))) :: allocate passes supply items (demand - supply item)

def Verdict.amount? : Verdict → Option Nat
  | .passed => none
  | .given amount => some amount

def grants (walk : List (α × Verdict)) : List (α × Nat) :=
  walk.filterMap fun visit => visit.2.amount?.map (visit.1, ·)

def granted (walk : List (α × Verdict)) : Nat := ((grants walk).map Prod.snd).sum

/-- What a walk leaves of an item, where `rest` says what is left of one that gave. -/
def settle [DecidableEq α] (rest : α → Nat → Option α) (walk : List (α × Verdict)) (item : α) : Option α :=
  match walk.lookup item with
  | none => some item
  | some .passed => none
  | some (.given amount) => rest item amount

variable {passes : α → Bool} {supply : α → Nat}

@[simp] theorem grants_nil : grants ([] : List (α × Verdict)) = [] := rfl

@[simp] theorem grants_passed (item : α) (walk : List (α × Verdict)) :
    grants ((item, .passed) :: walk) = grants walk := rfl

@[simp] theorem grants_given (item : α) (amount : Nat) (walk : List (α × Verdict)) :
    grants ((item, .given amount) :: walk) = (item, amount) :: grants walk := rfl

@[simp] theorem grants_append (first second : List (α × Verdict)) :
    grants (first ++ second) = grants first ++ grants second := List.filterMap_append ..

@[simp] theorem granted_nil : granted ([] : List (α × Verdict)) = 0 := rfl

@[simp] theorem granted_passed (item : α) (walk : List (α × Verdict)) :
    granted ((item, .passed) :: walk) = granted walk := rfl

@[simp] theorem granted_given (item : α) (amount : Nat) (walk : List (α × Verdict)) :
    granted ((item, .given amount) :: walk) = amount + granted walk := by
  simp [granted]

@[simp] theorem granted_append (first second : List (α × Verdict)) : granted (first ++ second) = granted first + granted second := by
  simp [granted]

@[simp] theorem allocate_nil (demand : Nat) : allocate passes supply [] demand = [] := rfl

@[simp] theorem allocate_zero (items : List α) : allocate passes supply items 0 = [] := by
  cases items <;> simp [allocate]

theorem allocate_passed {item : α} (passed : passes item = true) (items : List α) {demand : Nat} (positive : demand ≠ 0) :
    allocate passes supply (item :: items) demand = (item, .passed) :: allocate passes supply items demand := by
  simp [allocate, positive, passed]

theorem allocate_given {item : α} (giving : passes item = false) (items : List α) {demand : Nat} (positive : demand ≠ 0) :
    allocate passes supply (item :: items) demand =
      (item, .given (min demand (supply item))) :: allocate passes supply items (demand - supply item) := by
  simp [allocate, positive, giving]

/-- A list is walked in parts, each with the demand that the parts before it left. -/
theorem allocate_append (first second : List α) (demand : Nat) :
    allocate passes supply (first ++ second) demand =
      allocate passes supply first demand ++
        allocate passes supply second (demand - granted (allocate passes supply first demand)) := by
  induction first generalizing demand with
  | nil => simp
  | cons item first ih =>
    by_cases zero : demand = 0
    · subst zero
      simp
    · cases verdict : passes item with
      | true =>
        rw [List.cons_append, allocate_passed verdict _ zero, allocate_passed verdict _ zero, ih]
        rfl
      | false =>
        rw [List.cons_append, allocate_given verdict _ zero, allocate_given verdict _ zero, ih]
        have left : demand - (min demand (supply item) + granted (allocate passes supply first (demand - supply item))) =
            demand - supply item - granted (allocate passes supply first (demand - supply item)) := by omega
        rw [granted_given, left]
        rfl

theorem visited_started (items : List α) (demand : Nat) :
    (allocate passes supply items demand).map Prod.fst <+: items := by
  induction items generalizing demand with
  | nil => simp
  | cons item items ih =>
    simp only [allocate]
    split
    · exact List.nil_prefix
    · split
      · exact List.prefix_cons_inj item |>.mpr (ih _)
      · exact List.prefix_cons_inj item |>.mpr (ih _)

variable [DecidableEq α] {rest : α → Nat → Option α} {walk first second : List (α × Verdict)} {item : α}

theorem lookup_unvisited (outside : item ∉ walk.map Prod.fst) : walk.lookup item = none := by
  refine List.lookup_eq_none_iff.mpr fun visit member => ?_
  have different : item ≠ visit.1 := fun same => outside (same ▸ List.mem_map_of_mem member)
  simpa using different

theorem settle_unvisited (outside : item ∉ walk.map Prod.fst) : settle rest walk item = some item := by
  simp only [settle, lookup_unvisited outside]

theorem settle_first (outside : item ∉ second.map Prod.fst) : settle rest (first ++ second) item = settle rest first item := by
  simp only [settle, List.lookup_append, lookup_unvisited outside, Option.or_none]

theorem settle_second (outside : item ∉ first.map Prod.fst) : settle rest (first ++ second) item = settle rest second item := by
  simp only [settle, List.lookup_append, lookup_unvisited outside, Option.none_or]

theorem settle_passed : settle rest ((item, .passed) :: walk) item = none := by
  simp [settle]

theorem settle_given (amount : Nat) : settle rest ((item, .given amount) :: walk) item = rest item amount := by
  simp [settle]

theorem settle_other {other : α} (different : item ≠ other) (verdict : Verdict) :
    settle rest ((other, verdict) :: walk) item = settle rest walk item :=
  @settle_second _ _ _ [(other, verdict)] _ _ (by simpa using different)

end Greedy

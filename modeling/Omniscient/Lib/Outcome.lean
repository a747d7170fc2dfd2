import Mathlib.Algebra.BigOperators.Group.List.Basic

/-! Calls that either return or revert. A body of guards and checked operations
is inverted into the list of facts its success implies, so that a proof about a
call never unfolds the monad. -/

namespace Outcome

variable {ε α β : Type}

def revertIf (condition : Prop) [Decidable condition] (error : ε) : Except ε Unit :=
  if condition then .error error else .ok ()

def orRevert (error : ε) : Option α → Except ε α
  | some value => .ok value
  | none => .error error

@[simp] theorem revertIf_ok {condition : Prop} [Decidable condition] {error : ε} {value : Unit} :
    revertIf condition error = .ok value ↔ ¬ condition := by
  unfold revertIf
  split <;> simp_all

@[simp] theorem orRevert_ok {error : ε} {found : Option α} {value : α} :
    orRevert error found = .ok value ↔ found = some value := by
  cases found <;> simp [orRevert]

@[simp] theorem bind_ok {first : Except ε α} {next : α → Except ε β} {result : β} :
    (first >>= next) = .ok result ↔ ∃ value, first = .ok value ∧ next value = .ok result := by
  cases first <;> simp [bind, Except.bind]

@[simp] theorem pure_ok {value result : α} : (pure value : Except ε α) = .ok result ↔ value = result :=
  ⟨Except.ok.inj, congrArg _⟩

@[simp] theorem mapError_ok {δ : Type} {convert : ε → δ} {first : Except ε α} {result : α} :
    first.mapError convert = .ok result ↔ first = .ok result := by
  cases first <;> simp [Except.mapError]

def returns (result : Except ε α) (check : α → Bool) : Bool :=
  match result with
  | .ok value => check value
  | .error _ => false

theorem returns_iff {result : Except ε α} {check : α → Bool} :
    returns result check = true ↔ ∃ value, result = .ok value ∧ check value = true := by
  cases result <;> simp [returns]

def each (body : β → α → Except ε β) : β → List α → Except ε β
  | state, [] => .ok state
  | state, item :: items => body state item >>= fun next => each body next items

@[simp] theorem each_nil {body : β → α → Except ε β} {state : β} : each body state [] = .ok state := rfl

@[simp] theorem each_cons {body : β → α → Except ε β} {state : β} {item : α} {items : List α} :
    each body state (item :: items) = (body state item >>= fun next => each body next items) := rfl

theorem each_keeps {body : β → α → Except ε β} {items : List α} {state final : β} (kept : β → Prop)
    (ran : each body state items = .ok final)
    (step : ∀ state item next, item ∈ items → body state item = .ok next → kept state → kept next)
    (holds : kept state) : kept final := by
  induction items generalizing state with
  | nil =>
    cases ran
    exact holds
  | cons item items ih =>
    obtain ⟨next, once, rest⟩ := bind_ok.mp ran
    exact ih rest (fun state item next member => step state item next (List.mem_cons_of_mem _ member))
      (step state item next List.mem_cons_self once holds)

/-- Prefix rule: what holds of the items handled so far, and is carried over by each
iteration, holds of all items behind the loop. -/
theorem each_started {body : β → α → Except ε β} {items : List α} {state final : β} (kept : List α → β → Prop)
    (ran : each body state items = .ok final)
    (step : ∀ done state item next, body state item = .ok next → kept done state → kept (done ++ [item]) next)
    (start : kept [] state) : kept items final := by
  have from_ : ∀ done, kept done state → kept (done ++ items) final := by
    clear start
    induction items generalizing state with
    | nil =>
      intro done holds
      cases ran
      rwa [List.append_nil]
    | cons item items ih =>
      intro done holds
      obtain ⟨next, once, rest⟩ := bind_ok.mp ran
      have later := ih rest (done ++ [item]) (step done state item next once holds)
      rwa [List.append_assoc] at later
  exact from_ [] start

/-- Progress rule: a loop returns when what is known of the items still to come lets
an iteration return and is known behind it again. -/
theorem each_returns {body : β → α → Except ε β} {items : List α} {state : β} (ready : List α → β → Prop)
    (step : ∀ item items state, ready (item :: items) state → ∃ next, body state item = .ok next ∧ ready items next)
    (start : ready items state) : ∃ final, each body state items = .ok final ∧ ready [] final := by
  induction items generalizing state with
  | nil => exact ⟨state, rfl, start⟩
  | cons item items ih =>
    obtain ⟨next, once, rest⟩ := step item items state start
    obtain ⟨final, ran, done⟩ := ih rest
    exact ⟨final, bind_ok.mpr ⟨next, once, ran⟩, done⟩

/-- Accumulation rule: a quantity that each iteration moves by its item's own
amount is moved by the sum of the amounts. -/
theorem each_sum {γ : Type} [AddMonoid γ] {body : β → α → Except ε β} {items : List α} {state final : β}
    (measure : β → γ) (amount : α → γ) (ran : each body state items = .ok final)
    (step : ∀ state item next, item ∈ items → body state item = .ok next →
      measure next = measure state + amount item) :
    measure final = measure state + (items.map amount).sum := by
  induction items generalizing state with
  | nil =>
    cases ran
    simp
  | cons item items ih =>
    obtain ⟨next, once, rest⟩ := bind_ok.mp ran
    have later := ih rest (fun state item next member => step state item next (List.mem_cons_of_mem _ member))
    rw [later, step state item next List.mem_cons_self once, List.map_cons, List.sum_cons, add_assoc]

theorem mapM_returns {body : α → Except ε β} {items : List α} (related : α → β → Prop)
    (step : ∀ item ∈ items, ∃ value, body item = .ok value ∧ related item value) :
    ∃ values, items.mapM body = .ok values ∧ List.Forall₂ related items values := by
  induction items with
  | nil => exact ⟨[], rfl, .nil⟩
  | cons item items ih =>
    obtain ⟨value, once, one⟩ := step item List.mem_cons_self
    obtain ⟨values, later, all⟩ := ih fun other member => step other (List.mem_cons_of_mem _ member)
    refine ⟨value :: values, ?_, .cons one all⟩
    rw [List.mapM_cons, once, later]
    rfl

def Raises (errors : ε → Prop) (result : Except ε α) : Prop := ∀ error, result = .error error → errors error

variable {errors : ε → Prop}

theorem raises_pure (value : α) : Raises errors (pure value) := fun _ none => nomatch none

theorem raises_error {error : ε} (allowed : errors error) : Raises errors (.error error : Except ε α) := by
  intro _ impossible
  cases impossible
  exact allowed

theorem raises_revertIf {condition : Prop} [Decidable condition] {error : ε} (allowed : errors error) :
    Raises errors (revertIf condition error) := by
  unfold revertIf
  split
  next => exact raises_error allowed
  next => exact raises_pure ()

theorem raises_revertIf_not {condition : Prop} [Decidable condition] {error : ε} (holds : ¬ condition) :
    Raises errors (revertIf condition error) := by
  rw [revertIf, if_neg holds]
  exact raises_pure ()

theorem raises_orRevert {error : ε} {found : Option α} (allowed : errors error) : Raises errors (orRevert error found) := by
  cases found with
  | some value => exact raises_pure value
  | none => exact raises_error allowed

/-- The rule of sequencing, where the rest may depend on what the first call returns. -/
theorem raises_bind_ok {first : Except ε α} {next : α → Except ε β} (start : Raises errors first)
    (rest : ∀ value, first = .ok value → Raises errors (next value)) : Raises errors (first >>= next) := by
  cases first with
  | ok value => exact rest value rfl
  | error error => exact raises_error (start error rfl)

theorem raises_bind {first : Except ε α} {next : α → Except ε β} (start : Raises errors first)
    (rest : ∀ value, Raises errors (next value)) : Raises errors (first >>= next) :=
  raises_bind_ok start fun value _ => rest value

theorem raises_mapError {δ : Type} {convert : ε → δ} {allowed : δ → Prop} {first : Except ε α}
    (all : ∀ error, allowed (convert error)) : Raises allowed (first.mapError convert) := by
  cases first with
  | ok value => exact raises_pure value
  | error error => exact raises_error (all error)

theorem raises_mapError_of {δ : Type} {convert : ε → δ} {allowed : δ → Prop} {first : Except ε α}
    (raised : Raises errors first) (all : ∀ error, errors error → allowed (convert error)) :
    Raises allowed (first.mapError convert) := by
  cases first with
  | ok value => exact raises_pure value
  | error error => exact raises_error (all error (raised error rfl))

theorem raises_each {body : β → α → Except ε β} {items : List α} {state : β}
    (step : ∀ state item, Raises errors (body state item)) : Raises errors (each body state items) := by
  induction items generalizing state with
  | nil => exact raises_pure state
  | cons item items ih => exact raises_bind (step state item) fun _ => ih

/-- The errors of an iteration may depend on what is known of the items before it. -/
theorem raises_each_started {body : β → α → Except ε β} {items : List α} {state : β} (kept : List α → β → Prop)
    (safe : ∀ done item rest state, done ++ item :: rest = items → kept done state → Raises errors (body state item))
    (step : ∀ done state item next, body state item = .ok next → kept done state → kept (done ++ [item]) next)
    (start : kept [] state) : Raises errors (each body state items) := by
  have from_ : ∀ done rest, done ++ rest = items → ∀ state, kept done state → Raises errors (each body state rest) := by
    intro done rest
    induction rest generalizing done with
    | nil => exact fun _ state _ => raises_pure state
    | cons item rest ih =>
      intro whole state holds
      refine raises_bind_ok (safe done item rest state whole holds) fun next once => ?_
      exact ih (done ++ [item]) (by simpa using whole) next (step done state item next once holds)
  exact from_ [] items rfl state start

end Outcome

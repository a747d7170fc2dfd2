import Omniscient.Lib.Outcome

/-! Runs of a labelled transition system. A run records the labels of its steps,
so that a law about the whole history can be stated over the trace and proved
from what one step does. -/

variable {σ ℓ : Type*}

/-- The runs from one start state, with the labels of their steps in order. -/
inductive Run (step : σ → ℓ → σ → Prop) (start : σ) : List ℓ → σ → Prop where
  | start : Run step start [] start
  | next {trace state label after} : Run step start trace state → step state label after →
      Run step start (trace ++ [label]) after

namespace Run

variable {step : σ → ℓ → σ → Prop} {start : σ} {trace : List ℓ} {state : σ}

/-- Induction over a run, for a property of the state and the history so far. -/
theorem invariant (holds : List ℓ → σ → Prop) (initial : holds [] start)
    (kept : ∀ trace state label after, Run step start trace state → holds trace state →
      step state label after → holds (trace ++ [label]) after)
    (run : Run step start trace state) : holds trace state := by
  induction run with
  | start => exact initial
  | next before moved ih => exact kept _ _ _ _ before ih moved

/-- A property of states that every step keeps holds wherever a run leads. -/
theorem keeps (holds : σ → Prop)
    (kept : ∀ state label after, step state label after → holds state → holds after)
    (run : Run step start trace state) (initial : holds start) : holds state :=
  run.invariant (fun _ => holds) initial fun _ _ _ _ _ before moved => kept _ _ _ moved before

/-- A quantity that each step moves by its label's amount has moved by the sum
of the amounts in the trace. -/
theorem accounts {γ : Type*} [AddMonoid γ] (measure : σ → γ) (amount : ℓ → γ)
    (moves : ∀ trace state label after, Run step start trace state → step state label after →
      measure after = measure state + amount label)
    (run : Run step start trace state) : measure state = measure start + (trace.map amount).sum := by
  apply run.invariant fun trace state => measure state = measure start + (trace.map amount).sum
  · simp
  · intro trace state label after before same moved
    rw [moves trace state label after before moved, same]
    simp [add_assoc]

/-- A counter from zero that hands out its value whenever it moves, one at a time,
hands out 0, 1, 2 and so on. -/
theorem numbered (counter : σ → Nat) (handed : ℓ → List Nat) (zero : counter start = 0)
    (moves : ∀ state label after, step state label after → handed label = [] ∧ counter after = counter state ∨
      handed label = [counter state] ∧ counter after = counter state + 1)
    (run : Run step start trace state) : trace.flatMap handed = List.range (counter state) := by
  apply run.invariant fun trace state => trace.flatMap handed = List.range (counter state)
  · rw [zero]
    rfl
  · intro trace state label after _ before moved
    rw [List.flatMap_append, before, List.flatMap_singleton]
    rcases moves state label after moved with ⟨none, same⟩ | ⟨one, next⟩
    · rw [none, same, List.append_nil]
    · rw [one, next, List.range_succ]

theorem mono {weaker : σ → ℓ → σ → Prop} (weaken : ∀ state label after, step state label after → weaker state label after)
    (run : Run step start trace state) : Run weaker start trace state := by
  induction run with
  | start => exact .start
  | next before moved ih => exact ih.next (weaken _ _ _ moved)

/-- A run whose labels are all allowed is a run of the system that allows no others. -/
theorem within {allowed : σ → ℓ → Prop} (run : Run step start trace state)
    (all : ∀ label ∈ trace, ∀ state, allowed state label) :
    Run (fun state label after => step state label after ∧ allowed state label) start trace state := by
  induction run with
  | start => exact .start
  | next before moved ih =>
    apply (ih fun label member => all label (List.mem_append_left _ member)).next
    exact ⟨moved, all _ (List.mem_append_right _ (List.mem_singleton.mpr rfl)) _⟩

theorem append {middle : σ} {later : List ℓ} (first : Run step start trace middle)
    (second : Run step middle later state) : Run step start (trace ++ later) state := by
  apply second.invariant fun later state => Run step start (trace ++ later) state
  · simpa using first
  · intro later state label after _ before moved
    simpa using before.next moved

/-- A loop that takes the labels one by one runs the system, where each
iteration is a step. -/
theorem of_each {ε σ ℓ : Type} {step : σ → ℓ → σ → Prop} {body : σ → ℓ → Except ε σ} {start final : σ}
    {labels : List ℓ} (ran : Outcome.each body start labels = .ok final)
    (sound : ∀ state label after, label ∈ labels → body state label = .ok after → step state label after) :
    Run step start labels final := by
  induction labels generalizing start with
  | nil =>
    cases ran
    exact .start
  | cons label labels ih =>
    obtain ⟨next, once, rest⟩ := Outcome.bind_ok.mp ran
    have moved := sound start label next List.mem_cons_self once
    have later := ih rest fun state other after member => sound state other after (List.mem_cons_of_mem _ member)
    exact (Run.start.next moved).append later

theorem of_foldlM {σ ℓ : Type} {step : σ → ℓ → Option σ} {start final : σ} {labels : List ℓ}
    (took : labels.foldlM step start = some final) : Run (fun state label after => step state label = some after) start labels final := by
  induction labels generalizing start with
  | nil =>
    cases took
    exact .start
  | cons label labels ih =>
    rw [List.foldlM_cons] at took
    obtain ⟨next, once, rest⟩ := Option.bind_eq_some_iff.mp took
    exact (@Run.start _ _ (fun state label after => step state label = some after) start).next once |>.append (ih rest)

theorem of_check {σ ℓ : Type} {step : σ → ℓ → Option σ} {start : σ} {labels : List ℓ} {check : σ → Bool}
    (passes : (labels.foldlM step start).any check = true) :
    ∃ final, Run (fun state label after => step state label = some after) start labels final ∧ check final = true := by
  obtain ⟨final, took, checked⟩ := (Option.any_eq_true _ _).mp passes
  exact ⟨final, of_foldlM took, checked⟩

end Run

import Mathlib.Logic.Function.Basic

/-! A store of cells. Each command reads and writes the cell of its own key, and may
answer, so a run on the whole store is one run on each cell. -/

namespace Cells

variable {κ σ γ ρ : Type} [DecidableEq κ] (key : γ → κ) (step : σ → γ → σ × Option ρ)

/-- The run of commands on the whole store: what it leaves, and every command with its answer. -/
def run : (κ → σ) → List γ → (κ → σ) × List (γ × Option ρ)
  | cells, [] => (cells, [])
  | cells, command :: commands =>
    let (cell, answer) := step (cells (key command)) command
    let (cells, answers) := run (Function.update cells (key command) cell) commands
    (cells, (command, answer) :: answers)

def runCell : σ → List γ → σ × List (γ × Option ρ)
  | cell, [] => (cell, [])
  | cell, command :: commands =>
    let (cell, answer) := step cell command
    let (cell, answers) := runCell cell commands
    (cell, (command, answer) :: answers)

def commandsAt (place : κ) (commands : List γ) : List γ := commands.filter fun command => key command = place

def answersAt (place : κ) (answers : List (γ × Option ρ)) : List (γ × Option ρ) :=
  answers.filter fun answer => key answer.1 = place

variable {key step}

theorem run_at (place : κ) (cells : κ → σ) (commands : List γ) :
    (run key step cells commands).1 place = (runCell step (cells place) (commandsAt key place commands)).1 ∧
    answersAt key place (run key step cells commands).2 =
      (runCell step (cells place) (commandsAt key place commands)).2 := by
  induction commands generalizing cells with
  | nil => exact ⟨rfl, rfl⟩
  | cons command commands ih =>
    obtain ⟨cell, answers⟩ := ih (Function.update cells (key command) (step (cells (key command)) command).1)
    by_cases here : key command = place
    · subst here
      rw [Function.update_self] at cell answers
      simp only [run, runCell, commandsAt, answersAt, List.filter_cons, decide_true, if_true] at cell answers ⊢
      exact ⟨cell, congrArg _ answers⟩
    · rw [Function.update_of_ne (Ne.symm here)] at cell answers
      simp only [run, commandsAt, answersAt, List.filter_cons, here, decide_false, Bool.false_eq_true,
        if_false] at cell answers ⊢
      exact ⟨cell, answers⟩

theorem answers_commands (cells : κ → σ) (commands : List γ) :
    (run key step cells commands).2.map Prod.fst = commands := by
  induction commands generalizing cells with
  | nil => rfl
  | cons command commands ih => exact congrArg (command :: ·) (ih _)

theorem run_alone (place : κ) {cells others : κ → σ} (same : others place = cells place) (commands : List γ) :
    (run key step cells commands).1 place = (run key step others (commandsAt key place commands)).1 place ∧
    answersAt key place (run key step cells commands).2 = (run key step others (commandsAt key place commands)).2 := by
  have whole := @run_at _ _ _ _ _ key step place cells commands
  have alone := @run_at _ _ _ _ _ key step place others (commandsAt key place commands)
  have again : commandsAt key place (commandsAt key place commands) = commandsAt key place commands := by
    simp [commandsAt]
  have all : answersAt key place (run key step others (commandsAt key place commands)).2 =
      (run key step others (commandsAt key place commands)).2 := by
    refine List.filter_eq_self.mpr fun answer member => ?_
    have listed := @List.mem_map_of_mem _ _ _ _ Prod.fst member
    rw [answers_commands] at listed
    exact (List.mem_filter.mp listed).2
  rw [again, same, all] at alone
  exact ⟨whole.1.trans alone.1.symm, whole.2.trans alone.2.symm⟩

theorem run_congr {commands others : List γ} (same : ∀ place, commandsAt key place commands = commandsAt key place others)
    (cells : κ → σ) : (run key step cells commands).1 = (run key step cells others).1 ∧
    ∀ place, answersAt key place (run key step cells commands).2 = answersAt key place (run key step cells others).2 := by
  have here (place : κ) := @run_at _ _ _ _ _ key step place cells commands
  have there (place : κ) := @run_at _ _ _ _ _ key step place cells others
  refine ⟨funext fun place => ?_, fun place => ?_⟩
  · rw [(here place).1, (there place).1, same]
  · rw [(here place).2, (there place).2, same]

theorem commandsAt_swap {first second : γ} (different : key first ≠ key second) (before after : List γ) (place : κ) :
    commandsAt key place (before ++ first :: second :: after) = commandsAt key place (before ++ second :: first :: after) := by
  simp only [commandsAt, List.filter_append, List.filter_cons]
  by_cases mine : key first = place
  · have other : key second ≠ place := fun same => different (mine.trans same.symm)
    simp [mine, other]
  · simp [mine]

end Cells

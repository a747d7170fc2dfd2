import Omniscient.Lib.Cells
import Omniscient.Proofs.FillAccounting

/-! Positions are independent: the matcher keeps a map of books, and every command
reads and writes the book of its own position. A run is one run for each position. -/

namespace Omniscient.Gateway

def processBook (book : Option OrderBook) (command : MatchCommand) : Option OrderBook × Option MatchResult :=
  match command with
  | .placeOrder marketId _ orderId maker price amount side nonce deadline =>
    let (book, result) := (book.getD .new).place marketId
      { orderId, maker, price, amount, filled := 0, side, seq := 0, nonce, deadline }
    (some book, some result)
  | .cancelOrder _ orderId => (book.map fun book => (book.cancel orderId).2.prune, none)
  | .cancelAll _ _ maker => (book.map fun book => (book.cancelAll maker).2.prune, none)
  | .shutdown => (book, none)

private theorem process_book (books : Books) (command : MatchCommand) :
    process books command =
      (Function.update books command.position (processBook (books command.position) command).1,
        (processBook (books command.position) command).2) := by
  have idle {position : Uint256} (nothing : books position = none) : books = Function.update books position none := by
    rw [← nothing, Function.update_eq_self]
  cases command with
  | placeOrder => rfl
  | cancelOrder positionId orderId =>
    simp only [process, processBook, MatchCommand.position]
    split
    next book found => rw [found]; rfl
    next nothing => rw [nothing, Option.map_none, ← idle nothing]
  | cancelAll marketId positionId maker =>
    simp only [process, processBook, MatchCommand.position]
    split
    next book found => rw [found]; rfl
    next nothing => rw [nothing, Option.map_none, ← idle nothing]
  | shutdown => simp only [process, processBook, Function.update_eq_self]

private theorem processBook_answers (book : Option OrderBook) (command : MatchCommand) :
    (processBook book command).2.isSome = command.order.isSome := by
  cases command <;> rfl

abbrev commandsFor (position : Uint256) (commands : List MatchCommand) : List MatchCommand :=
  Cells.commandsAt MatchCommand.position position commands

/-- The results for one position. The engine sends them in the order of the commands
that place, so the first result is of the first of these. -/
def resultsFor (position : Uint256) (commands : List MatchCommand) (results : List MatchResult) : List MatchResult :=
  (((commands.filter (·.order.isSome)).zip results).filter (·.1.position = position)).map Prod.snd

def onlyAt (books : Books) (position : Uint256) : Books := Function.update (fun _ => none) position (books position)

abbrev matcherCells (books : Books) (commands : List MatchCommand) : Books × List (MatchCommand × Option MatchResult) :=
  Cells.run MatchCommand.position processBook books commands

private theorem matcherCells_cons (books : Books) (command : MatchCommand) (commands : List MatchCommand) :
    matcherCells books (command :: commands) =
      let (book, result) := processBook (books command.position) command
      let later := matcherCells (Function.update books command.position book) commands
      (later.1, (command, result) :: later.2) := rfl

theorem runMatcher_cons {command : MatchCommand} (running : command ≠ .shutdown) (books : Books)
    (commands : List MatchCommand) : runMatcher books (command :: commands) =
      ((runMatcher (process books command).1 commands).1,
        (process books command).2.toList ++ (runMatcher (process books command).1 commands).2) := by
  cases command with
  | shutdown => exact absurd rfl running
  | _ => rfl

theorem runMatcher_cells {commands : List MatchCommand} (running : .shutdown ∉ commands) (books : Books) :
    runMatcher books commands =
      ((matcherCells books commands).1, (matcherCells books commands).2.filterMap Prod.snd) := by
  induction commands generalizing books with
  | nil => rfl
  | cons command commands ih =>
    obtain ⟨first, running⟩ := not_or.mp (fun inside => running (List.mem_cons.mpr inside))
    rw [runMatcher_cons (Ne.symm first), ih running, process_book, matcherCells_cons]
    cases result : (processBook (books command.position) command).2 with
    | none => simp only [result, List.filterMap_cons, Option.toList_none, List.nil_append]
    | some result => simp only [result, List.filterMap_cons, Option.toList_some, List.singleton_append]

private theorem matcherCells_answered (books : Books) (commands : List MatchCommand) :
    ∀ answer ∈ (matcherCells books commands).2, answer.2.isSome = answer.1.order.isSome := by
  induction commands generalizing books with
  | nil => simp [Cells.run]
  | cons command commands ih =>
    intro answer member
    rcases List.mem_cons.mp member with rfl | later
    · exact processBook_answers _ command
    · exact ih _ answer later

theorem resultsFor_cells {commands : List MatchCommand} (running : .shutdown ∉ commands) (books : Books)
    (position : Uint256) : resultsFor position commands (runMatcher books commands).2 =
      (Cells.answersAt MatchCommand.position position (matcherCells books commands).2).filterMap Prod.snd := by
  have answered := matcherCells_answered books commands
  have listed : (matcherCells books commands).2.map Prod.fst = commands := Cells.answers_commands books commands
  rw [runMatcher_cells running]
  generalize (matcherCells books commands).2 = answers at answered listed
  subst listed
  induction answers with
  | nil => rfl
  | cons answer answers ih =>
    obtain ⟨command, result⟩ := answer
    have first := answered _ List.mem_cons_self
    have rest := ih fun other member => answered other (List.mem_cons_of_mem _ member)
    by_cases here : command.position = position <;> cases result <;>
      simp_all [resultsFor, Cells.answersAt]

theorem commandsFor_running {commands : List MatchCommand} (running : .shutdown ∉ commands) (position : Uint256) :
    .shutdown ∉ commandsFor position commands := fun inside => running (List.mem_of_mem_filter inside)

/-- Positions are independent: the book of a position and the results of its orders are
those of its own commands run on its own book, and so commands of different positions
may be exchanged. -/
theorem positions_independent {commands : List MatchCommand} (running : .shutdown ∉ commands) (books : Books)
    (position : Uint256) :
    (runMatcher books commands).1 position =
      (runMatcher (onlyAt books position) (commandsFor position commands)).1 position ∧
    resultsFor position commands (runMatcher books commands).2 =
      (runMatcher (onlyAt books position) (commandsFor position commands)).2 ∧
    ∀ before first second after, commands = before ++ first :: second :: after → first.position ≠ second.position →
      (runMatcher books (before ++ second :: first :: after)).1 = (runMatcher books commands).1 ∧
      resultsFor position (before ++ second :: first :: after)
          (runMatcher books (before ++ second :: first :: after)).2 =
        resultsFor position commands (runMatcher books commands).2 := by
  have same : onlyAt books position position = books position := Function.update_self ..
  obtain ⟨book, answers⟩ :=
    @Cells.run_alone _ _ _ _ _ MatchCommand.position processBook position books (onlyAt books position) same commands
  refine ⟨?_, ?_, fun before first second after whole different => ?_⟩
  · rw [runMatcher_cells running, runMatcher_cells (commandsFor_running running position)]
    exact book
  · rw [resultsFor_cells running, runMatcher_cells (commandsFor_running running position)]
    exact congrArg (List.filterMap Prod.snd) answers
  · subst whole
    have swapped : .shutdown ∉ before ++ second :: first :: after := by
      simp only [List.mem_append, List.mem_cons] at running ⊢
      tauto
    obtain ⟨left, kept⟩ := @Cells.run_congr _ _ _ _ _ MatchCommand.position processBook
      (before ++ second :: first :: after) (before ++ first :: second :: after)
      (Cells.commandsAt_swap (Ne.symm different) before after) books
    refine ⟨?_, ?_⟩
    · rw [runMatcher_cells running, runMatcher_cells swapped]
      exact left
    · rw [resultsFor_cells running, resultsFor_cells swapped]
      exact congrArg (List.filterMap Prod.snd) (kept position)

def Sample.mixed : List MatchCommand :=
  [Sample.sale, .placeOrder 1 4 103 5 500000 10 .sell 0 5000, Sample.purchase]

/-- The hypothesis meets: position 3 gets the two results it has alone. -/
theorem positions_independent_sample : resultsFor 3 Sample.mixed (runMatcher (fun _ => none) Sample.mixed).2 =
    (runMatcher (onlyAt (fun _ => none) 3) [Sample.sale, Sample.purchase]).2 ∧
    (runMatcher (onlyAt (fun _ => none) 3) [Sample.sale, Sample.purchase]).2.length = 2 :=
  ⟨(positions_independent (show MatchCommand.shutdown ∉ Sample.mixed by decide) (fun _ => none) 3).2.1, by decide⟩

end Omniscient.Gateway

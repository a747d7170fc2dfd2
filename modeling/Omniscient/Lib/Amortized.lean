import Mathlib.Algebra.Order.BigOperators.Group.List
import Mathlib.Algebra.Order.Ring.Nat
import Mathlib.Data.List.Forall2
import Omniscient.Lib.Program
import Omniscient.Lib.Run

/-! Amortized bounds. A program affords its operations out of a budget, whatever they
are answered. A system saves up: each of its steps is paid for by what it had saved and
by what the step brings in, and so is a whole run. -/

namespace Program

variable {Op : Type} {Answer : Op → Type} {α β ε : Type} (cost : Op → Nat)

/-- The budget pays for the operations of the program, and leaves what its value asks for. -/
def Affords : Program Op Answer α → (α → Nat) → Nat → Prop
  | .done value, asks, budget => asks value ≤ budget
  | .perform op next, asks, budget =>
    ∃ rest, cost op + rest ≤ budget ∧ ∀ answer, (next answer).Affords asks rest

variable {cost}

theorem Affords.mono {program : Program Op Answer α} {asks : α → Nat} {budget more : Nat}
    (affords : program.Affords cost asks budget) (within : budget ≤ more) : program.Affords cost asks more := by
  cases program with
  | done value => exact Nat.le_trans affords within
  | perform op next =>
    obtain ⟨rest, enough, affords⟩ := affords
    exact ⟨rest, enough.trans within, affords⟩

theorem affords_pure {value : α} {asks : α → Nat} {budget : Nat} (enough : asks value ≤ budget) :
    (pure value : Program Op Answer α).Affords cost asks budget := enough

theorem affords_request (op : Op) (left : Nat) :
    (request op : Program Op Answer (Answer op)).Affords cost (fun _ => left) (cost op + left) :=
  ⟨left, Nat.le_refl _, fun _ => Nat.le_refl _⟩

theorem affords_bind {first : Program Op Answer α} {after : α → Program Op Answer β} {middle : α → Nat}
    {asks : β → Nat} {budget : Nat} (start : first.Affords cost middle budget)
    (rest : ∀ value, (after value).Affords cost asks (middle value)) : (first >>= after).Affords cost asks budget := by
  induction first generalizing budget with
  | done value => exact (rest value).mono start
  | perform op next ih =>
    obtain ⟨left, enough, affords⟩ := start
    exact ⟨left, enough, fun answer => ih answer (affords answer)⟩

def leaving (returned failed : Nat) : Except ε α → Nat
  | .ok _ => returned
  | .error _ => failed

theorem leaving_same (left : Nat) (result : Except ε α) : leaving left left result = left := by cases result <;> rfl

theorem affords_ok {value : α} {returned failed budget : Nat} (enough : returned ≤ budget) :
    (pure value : ExceptT ε (Program Op Answer) α).run.Affords cost (leaving returned failed) budget := enough

theorem affords_error {error : ε} {returned failed budget : Nat} (enough : failed ≤ budget) :
    (throw error : ExceptT ε (Program Op Answer) α).run.Affords cost (leaving returned failed) budget := enough

theorem affords_seq {first : ExceptT ε (Program Op Answer) α} {after : α → ExceptT ε (Program Op Answer) β}
    {middle returned failed budget : Nat} (start : first.run.Affords cost (leaving middle failed) budget)
    (rest : ∀ value, (after value).run.Affords cost (leaving returned failed) middle) :
    (first >>= after).run.Affords cost (leaving returned failed) budget := by
  apply affords_bind start
  intro result
  cases result with
  | ok value => exact rest value
  | error error => exact Nat.le_refl _

theorem affords_forM {items : List β} {body : β → Program Op Answer Unit} {each : Nat}
    (affords : ∀ item ∈ items, ∀ left, (body item).Affords cost (fun _ => left) (left + each)) :
    (items.forM body).Affords cost (fun _ => 0) (each * items.length) := by
  induction items with
  | nil => exact Nat.zero_le _
  | cons item items ih =>
    apply affords_bind (affords item List.mem_cons_self (each * items.length))
    intro _
    exact ih fun other member => affords other (List.mem_cons_of_mem _ member)

variable (cost) in
def AffordAll (asks : α → Nat) : List (Program Op Answer α) → Nat → Prop
  | [], _ => True
  | program :: programs, budget =>
    ∃ own others, own + others ≤ budget ∧ program.Affords cost asks own ∧ AffordAll asks programs others

variable {asks : α → Nat} {programs : List (Program Op Answer α)} {budget : Nat}

theorem affordAll_append (all : AffordAll cost asks programs budget) {program : Program Op Answer α} {own : Nat}
    (affords : program.Affords cost asks own) : AffordAll cost asks (programs ++ [program]) (budget + own) := by
  induction programs generalizing budget with
  | nil => exact ⟨own, budget, by omega, affords, trivial⟩
  | cons first programs ih =>
    obtain ⟨mine, others, enough, now, rest⟩ := all
    exact ⟨mine, others + own, by omega, now, ih rest⟩

theorem affordAll_perform (all : AffordAll cost asks programs budget) {index : Nat} {op : Op}
    {next : Answer op → Program Op Answer α} (found : programs[index]? = some (.perform op next)) :
    ∃ left, cost op + left ≤ budget ∧ ∀ answer, AffordAll cost asks (programs.set index (next answer)) left := by
  induction programs generalizing budget index with
  | nil => cases found
  | cons first programs ih =>
    obtain ⟨own, others, enough, now, later⟩ := all
    cases index with
    | zero =>
      obtain rfl : first = .perform op next := Option.some.inj found
      obtain ⟨left, within, affords⟩ := now
      exact ⟨left + others, by omega, fun answer => ⟨left, others, le_refl _, affords answer, later⟩⟩
    | succ index =>
      obtain ⟨left, within, affords⟩ := ih later found
      exact ⟨own + left, by omega, fun answer => ⟨own, left, le_refl _, now, affords answer⟩⟩

theorem affordAll_done (all : AffordAll cost asks programs budget) {index : Nat} {value : α}
    (found : programs[index]? = some (.done value)) :
    ∃ left, asks value + left ≤ budget ∧ AffordAll cost asks (programs.eraseIdx index) left := by
  induction programs generalizing budget index with
  | nil => cases found
  | cons first programs ih =>
    obtain ⟨own, others, enough, now, later⟩ := all
    cases index with
    | zero =>
      obtain rfl : first = .done value := Option.some.inj found
      have asked : asks value ≤ own := now
      exact ⟨others, by omega, later⟩
    | succ index =>
      obtain ⟨left, within, affords⟩ := ih later found
      exact ⟨own + left, by omega, own, left, le_refl _, now, affords⟩

end Program

namespace Run

variable {σ ℓ : Type*} {step : σ → ℓ → σ → Prop} {start state : σ} {trace : List ℓ}
  {saved : σ → Nat → Prop} {cost income : ℓ → Nat}

theorem paid (pays : ∀ state label after savings, step state label after → saved state savings →
      ∃ left, saved after left ∧ left + cost label ≤ savings + income label)
    (run : Run step start trace state) {savings : Nat} (initial : saved start savings) :
    ∃ left, saved state left ∧ left + (trace.map cost).sum ≤ savings + (trace.map income).sum := by
  refine run.invariant (fun trace state =>
    ∃ left, saved state left ∧ left + (trace.map cost).sum ≤ savings + (trace.map income).sum) ⟨savings, initial, by simp⟩ ?_
  intro trace state label after _ before moved
  obtain ⟨left, now, enough⟩ := before
  obtain ⟨rest, later, pays⟩ := pays state label after left moved now
  refine ⟨rest, later, ?_⟩
  simp only [List.map_append, List.map_singleton, List.sum_append, List.sum_singleton]
  omega

/-- Steps that cost and bring nothing in come to an end, which is where none is left. -/
theorem finishes {working : ℓ → Prop} {finished : σ → Prop}
    (pays : ∀ state label after savings, step state label after → working label → saved state savings →
      ∃ left, saved after left ∧ left < savings)
    (goes : ∀ state, ¬ finished state → ∃ label after, working label ∧ step state label after) {savings : Nat}
    (initial : saved start savings) :
    ∃ trace last, Run step start trace last ∧ (∀ label ∈ trace, working label) ∧ finished last := by
  induction savings using Nat.strong_induction_on generalizing start with
  | _ savings ih =>
    by_cases done : finished start
    · exact ⟨[], start, .start, nofun, done⟩
    · obtain ⟨label, after, works, moved⟩ := goes start done
      obtain ⟨left, saves, less⟩ := pays start label after savings moved works initial
      obtain ⟨trace, last, run, all, finished⟩ := ih left less saves
      refine ⟨label :: trace, last, (Run.start.next moved).append run, ?_, finished⟩
      exact List.forall_mem_cons.mpr ⟨works, all⟩

end Run

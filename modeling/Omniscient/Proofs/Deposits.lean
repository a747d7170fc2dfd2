import Mathlib.Algebra.BigOperators.Ring.Finset
import Mathlib.Algebra.Order.BigOperators.Group.List
import Mathlib.Algebra.Order.Ring.Nat
import Omniscient.Proofs.Columns

/-! Whether deposits are credited once. What a balance is off by is the sum, over the
run, of what was posted to the gateway and of the withdrawals that have inserted a row.
No such step ever takes anything off, so the errors of two steps never make up for
each other. -/

namespace Omniscient.Indexer
open Outcome

/-- The amount of an account; one without a row has nothing. -/
def Columns.balance (columns : Columns) (user : Address) : Int := (columns.available user).getD 0

/-- What a change moves by its log: deposits in, withdrawals out. -/
def Change.amount (user : Address) : Change → Int
  | .moved other enters amount => if other = user then (if enters then amount else -amount) else 0
  | _ => 0

def Change.misread (columns : Columns) (user : Address) : Change → Nat
  | .moved other false amount => if other = user ∧ columns.available user = none then 2 * amount else 0
  | _ => 0

theorem Change.apply_balance (columns : Columns) (change : Change) (user : Address) :
    (Change.apply columns change).balance user =
      columns.balance user + change.amount user + change.misread columns user := by
  cases change with
  | moved other enters amount =>
    by_cases here : other = user
    · subst here
      cases found : columns.available other <;> cases enters <;>
        simp [Change.apply, Change.amount, Change.misread, Columns.balance, movedAmount, found] <;> omega
    · cases enters <;>
        simp [Change.apply, Change.amount, Change.misread, Columns.balance, here, Function.update_of_ne (Ne.symm here)]
  | _ => simp [Change.apply, Change.amount, Change.misread, Columns.balance]

def Delivery.deposit (delivery : Delivery) : Nat :=
  delivery.payload.elim 0 fun payload => if payload.deposit < I64_END then payload.deposit else I64_END - 1

def Delivery.credit (user : Address) (delivery : Delivery) : Nat :=
  if delivery.key.userAddress = user then delivery.posts * delivery.deposit else 0

theorem Delivery.run_balance {delivery : Delivery} {db posted : Database} (done : delivery.run db = .ok posted)
    (user : Address) : (Columns.of posted).balance user = (Columns.of db).balance user + delivery.credit user := by
  unfold Delivery.run at done
  split at done
  next payload delivered =>
    have posts := each_sum (fun db => (Columns.of db).balance user)
      (fun _ => ((if delivery.key.userAddress = user then delivery.deposit else 0 : Nat) : Int)) done
      (fun db _ next _ once => by
        have owner : payload.user = delivery.key.userAddress := by
          unfold Delivery.payload at delivered
          split at delivered
          next => cases delivered; rfl
          next => cases delivered
        have amount : delivery.deposit = if payload.deposit < I64_END then payload.deposit else I64_END - 1 := by
          rw [Delivery.deposit, delivered]
          rfl
        rw [(postReconcile_ok once).2, Change.apply_balance, owner, ← amount]
        simp only [Change.amount, Change.misread]
        split <;> simp)
    rw [posts, List.map_replicate, List.sum_replicate, Delivery.credit]
    split <;> simp
  next undelivered =>
    cases done
    simp [Delivery.credit, Delivery.deposit, undelivered]

theorem sum_cast {α : Type} (count : α → Nat) (items : List α) :
    (((items.map count).sum : Nat) : Int) = (items.map fun item => (count item : Int)).sum := by
  rw [Nat.cast_list_sum, List.map_map]
  rfl

section
variable {outside : Surroundings} {config : AppConfig} {blocks : Bytes32 → List RawLog} {state after : State}
  {record : Service} {trace : List Service}

def Service.amount (outside : Surroundings) (user : Address) (record : Service) : Int :=
  (Label.commits record.label).elim 0 fun log => (change outside log).amount user

def Service.excess (outside : Surroundings) (user : Address) (record : Service) : Nat :=
  ((Label.commits record.label).elim 0 fun log => (change outside log).misread (Columns.of record.before) user) +
    (record.deliveries.map (Delivery.credit user)).sum

/-- No post of an amount is delivered, and no withdrawal of an amount inserts a row. -/
structure Service.CreditsOnce (outside : Surroundings) (record : Service) : Prop where
  delivered : ∀ delivery ∈ record.deliveries, delivery.posts ≠ 0 → delivery.deposit = 0
  inserted : ∀ log, Label.commits record.label = some log → ∀ user amount,
    change outside log = .moved user false amount → record.before.balances (usdc user) = none → amount = 0

theorem Serves.balance (moved : Serves outside config blocks state record after)
    (forward : ∀ block, record.label.1 ≠ .transact (.rollbackUnfinalized block)) (user : Address) :
    (Columns.of after.world.db).balance user =
      (Columns.of state.world.db).balance user + (record.amount outside user + record.excess outside user) := by
  obtain ⟨before, ⟨nothing, columns⟩ | ⟨query, block, reconciles⟩⟩ := moved.effect forward
  · rw [columns, Service.amount, Service.excess, nothing, before]
    cases Label.commits record.label with
    | none => simp [applied]
    | some log =>
      have changed := Change.apply_balance (Columns.of state.world.db) (change outside log) user
      simpa [applied, add_assoc] using changed
  · have posts := each_sum (fun db => (Columns.of db).balance user) (fun delivery => (delivery.credit user : Int))
      reconciles.posted fun db delivery next _ once => Delivery.run_balance once user
    rw [posts, before, Service.amount, Service.excess, query, Option.elim_none, Option.elim_none, zero_add, zero_add, sum_cast]

private theorem amounts_committed (user : Address) : (trace.map (Service.amount outside user)).sum =
    ((committed (trace.map Service.label)).map fun log => (change outside log).amount user).sum := by
  induction trace with
  | nil => rfl
  | cons record trace ih =>
    rw [List.map_cons, List.sum_cons, ih, committed, committed, List.map_cons, List.filterMap_cons, Service.amount]
    cases Label.commits record.label with
    | none => simp
    | some log => simp

private theorem credits_zero {deliveries : List Delivery} : (∀ user, (deliveries.map (Delivery.credit user)).sum = 0) ↔
    ∀ delivery ∈ deliveries, delivery.posts ≠ 0 → delivery.deposit = 0 := by
  simp only [List.sum_eq_zero_iff, List.forall_mem_map]
  constructor
  · intro none delivery member posted
    have credit := none delivery.key.userAddress delivery member
    rw [Delivery.credit, if_pos rfl] at credit
    exact (Nat.mul_eq_zero.mp credit).resolve_left posted
  · intro delivered user delivery member
    unfold Delivery.credit
    split
    next =>
      by_cases posted : delivery.posts = 0
      · rw [posted, Nat.zero_mul]
      · rw [delivered delivery member posted, Nat.mul_zero]
    next => rfl

private theorem misread_zero {change : Change} {columns : Columns} : (∀ user, change.misread columns user = 0) ↔
    ∀ user amount, change = .moved user false amount → columns.available user = none → amount = 0 := by
  constructor
  · rintro exact user amount rfl absent
    have zero := exact user
    rw [Change.misread, if_pos ⟨rfl, absent⟩] at zero
    omega
  · intro inserted user
    unfold Change.misread
    split
    next other amount =>
      split
      next here =>
        obtain ⟨rfl, absent⟩ := here
        rw [inserted other amount rfl absent]
      next => rfl
    next => rfl

theorem excess_zero : (∀ user, record.excess outside user = 0) ↔ record.CreditsOnce outside := by
  have misread : (∀ user, (Label.commits record.label).elim 0
      (fun log => (change outside log).misread (Columns.of record.before) user) = 0) ↔
      ∀ log, Label.commits record.label = some log → ∀ user amount, change outside log = .moved user false amount →
        record.before.balances (usdc user) = none → amount = 0 := by
    cases Label.commits record.label with
    | none => simp
    | some log =>
      have absent (user : Address) :
          (Columns.of record.before).available user = none ↔ record.before.balances (usdc user) = none :=
        Option.map_eq_none_iff
      simp only [Option.elim_some, Option.some.injEq, forall_eq', misread_zero, absent]
  simp only [Service.excess, Nat.add_eq_zero_iff, forall_and, misread, credits_zero]
  exact ⟨fun zero => ⟨zero.2, zero.1⟩, fun once => ⟨once.inserted, once.delivered⟩⟩

theorem balances_run {start : World}
    (canonical : ∀ number row, start.db.reorgCheckpoints number = some row → row.blockHash = start.chain.hashAt number)
    (run : Run (Serves outside config blocks) ⟨start, .done ()⟩ trace state) (user : Address) :
    (Columns.of state.world.db).balance user = (Columns.of start.db).balance user +
      ((committed (trace.map Service.label)).map fun log => (change outside log).amount user).sum +
      (trace.map (Service.excess outside user)).sum := by
  have total := run.accounts (fun state : State => (Columns.of state.world.db).balance user)
    (fun record => record.amount outside user + record.excess outside user)
    (fun trace state record after before moved => by
      have once := @once_run outside config blocks start canonical _ _ (Serves.labels (before.next moved))
      rw [List.map_append] at once
      exact moved.balance (once.forward record.label (by simp)) user)
  rw [total, List.sum_map_add, amounts_committed, sum_cast, add_assoc]

/-- Deposits are credited once, across indexer and gateway: over every run on a fixed
chain from an index without balances, in which nothing is committed twice, every
balance is what the committed logs deposit less what they withdraw exactly when no
step has posted an amount or inserted a withdrawal. -/
theorem credited_once {start : World}
    (canonical : ∀ number row, start.db.reorgCheckpoints number = some row → row.blockHash = start.chain.hashAt number)
    (empty : ∀ user, start.db.balances (usdc user) = none)
    (run : Run (Serves outside config blocks) ⟨start, .done ()⟩ trace state) :
    (committed (trace.map Service.label)).Pairwise (fun first second => Handled outside first → first.key ≠ second.key) ∧
    ((∀ user, (Columns.of state.world.db).balance user =
        ((committed (trace.map Service.label)).map fun log => (change outside log).amount user).sum) ↔
      ∀ record ∈ trace, record.CreditsOnce outside) := by
  refine ⟨(once_run canonical (Serves.labels run)).distinct, ?_⟩
  have balance (user : Address) := balances_run canonical run user
  have nothing (user : Address) : (Columns.of start.db).balance user = 0 := by simp [Columns.balance, Columns.of, empty]
  constructor
  · intro credited record member
    apply excess_zero.mp
    intro user
    have total := balance user
    rw [nothing user, credited user] at total
    have zero : (trace.map (Service.excess outside user)).sum = 0 := by omega
    exact List.sum_eq_zero_iff.mp zero _ (List.mem_map_of_mem member)
  · intro once user
    have zero : (trace.map (Service.excess outside user)).sum = 0 := by
      apply List.sum_eq_zero
      intro excess counted
      obtain ⟨record, member, rfl⟩ := List.mem_map.mp counted
      exact excess_zero.mpr (once record member) user
    rw [balance user, nothing user, zero]
    simp

end

namespace Sample

/-- A turn that indexes and finalizes the deposit; the gateway is posted `posts` times. -/
def finalizing (posts : Nat) : List (Ending × List Delivery) :=
  (List.replicate 8 (.succeeds, [])) ++ [(.succeeds, [⟨usdc 5, ⟨100, 0, 1⟩, posts⟩])]

def finalized (posts : Nat) : Option (List Service × State) :=
  serving outside config blocks ⟨indexed, .done ()⟩ (finalizing posts)

end Sample

/-- The first post of a finalized deposit credits it again. -/
theorem credited_once_fails : ∃ trace state,
    Run (Serves Sample.outside Sample.config Sample.blocks) ⟨Sample.indexed, .done ()⟩ trace state ∧
    ¬ ∀ user, (Columns.of state.world.db).balance user =
      ((committed (trace.map Service.label)).map fun log => (change Sample.outside log).amount user).sum := by
  have served : ((Sample.finalized 1).any fun result => decide ((Columns.of result.2.world.db).balance 5 = 200 ∧
      ((committed (result.1.map Service.label)).map fun log => (change Sample.outside log).amount 5).sum = 100)) = true := by
    decide +kernel
  obtain ⟨⟨trace, state⟩, ran, seen⟩ := (Option.any_eq_true _ _).mp served
  obtain ⟨doubled, deposited⟩ := of_decide_eq_true seen
  refine ⟨trace, state, serving_runs ran, fun credited => ?_⟩
  have amount := credited 5
  rw [doubled, deposited] at amount
  cases amount

/-- The hypotheses meet, and so does the condition: no post gets through. -/
theorem credited_once_sample : ∃ trace state,
    Run (Serves Sample.outside Sample.config Sample.blocks) ⟨Sample.indexed, .done ()⟩ trace state ∧
    (Columns.of state.world.db).balance 5 = 100 ∧ ∀ user, (Columns.of state.world.db).balance user =
      ((committed (trace.map Service.label)).map fun log => (change Sample.outside log).amount user).sum := by
  have served : ((Sample.finalized 0).any fun result => decide ((Columns.of result.2.world.db).balance 5 = 100 ∧
      ∀ record ∈ result.1, (∀ delivery ∈ record.deliveries, delivery.posts = 0) ∧
        ∀ log ∈ (Label.commits record.label).toList, change Sample.outside log = .moved 5 true 100)) = true := by
    decide +kernel
  obtain ⟨⟨trace, state⟩, ran, seen⟩ := (Option.any_eq_true _ _).mp served
  obtain ⟨amount, quiet⟩ := of_decide_eq_true seen
  have run := serving_runs ran
  refine ⟨trace, state, run, amount, (credited_once ?_ (fun _ => rfl) run).2.mpr fun record member => ?_⟩
  · intro number row found
    cases found
  · obtain ⟨unposted, deposited⟩ := quiet record member
    refine ⟨fun delivery listed posted => absurd (unposted delivery listed) posted, fun log commits user amount debited => ?_⟩
    rw [deposited log (by simp [commits])] at debited
    cases debited

end Omniscient.Indexer

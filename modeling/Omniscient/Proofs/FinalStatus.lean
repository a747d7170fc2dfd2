import Omniscient.Proofs.Restart

/-! Whether a cancelled or filled order stays so. The result processor updates the
orders of a fill without looking at their status, so a taker's update opens again
what was closed since its match. -/

namespace Omniscient.Gateway
open Outcome

/-- The table has the order, and no row of it is open. -/
structure Closed (id : OrderId) (db : Database) : Prop where
  known : ∃ row ∈ db.orders, row.orderId = id
  final : ∀ row ∈ db.orders, row.orderId = id → row.status ≠ .open

/-- An update that sets a closed order to open. -/
def Statement.Reopens (db : Database) : Statement → Prop
  | .updateOrderFilled orderId _ .open => Closed orderId db
  | _ => False

def System.Reopens (system : System) (event : Event) : Prop :=
  ∃ statement, system.operation event = some (.execute statement) ∧ statement.Reopens system.db

instance decidableClosed (id : OrderId) (db : Database) : Decidable (Closed id db) :=
  decidable_of_iff ((∃ row ∈ db.orders, row.orderId = id) ∧ ∀ row ∈ db.orders, row.orderId = id → row.status ≠ .open)
    ⟨fun holds => ⟨holds.1, holds.2⟩, fun closed => ⟨closed.known, closed.final⟩⟩

instance decidableStatementReopens (db : Database) : (statement : Statement) → Decidable (statement.Reopens db)
  | .updateOrderFilled orderId _ .open => decidableClosed orderId db
  | .updateOrderFilled _ _ .filled | .updateOrderFilled _ _ .cancelled | .updateOrderFilled _ _ .expired
  | .ensureUser _ | .reserveCollateral .. | .releaseCollateral .. | .insertOrder _ | .insertHold .. | .cancelOrderDb _ =>
    .isFalse not_false

instance decidableReopens (system : System) (event : Event) : Decidable (system.Reopens event) :=
  match performs : system.operation event with
  | some (.execute statement) => decidable_of_iff (statement.Reopens system.db) (by simp [System.Reopens, performs])
  | some (.trySend _) | some (.publish _) | none => .isFalse (by simp [System.Reopens, performs])

variable {id : OrderId} {db after : Database}

theorem Closed.kept (closed : Closed id db) (same : after.orders = db.orders) : Closed id after := by
  obtain ⟨known, final⟩ := closed
  rw [← same] at known final
  exact ⟨known, final⟩

theorem Closed.updated (closed : Closed id db) {affects : OrderRow → Bool} {set : OrderRow → OrderRow}
    (ids : ∀ row, (set row).orderId = row.orderId)
    (stays : ∀ row, affects row = true → row.orderId = id → (set row).status ≠ .open) :
    Closed id (updateOrders affects set db).2 := by
  constructor
  · obtain ⟨row, member, own⟩ := closed.known
    refine ⟨_, mem_updateOrders.mpr ⟨row, member, rfl⟩, ?_⟩
    split
    next => rw [ids, own]
    next => exact own
  · intro row member own
    obtain ⟨old, before, rfl⟩ := mem_updateOrders.mp member
    by_cases affected : affects old = true
    · rw [if_pos affected] at own ⊢
      exact stays old affected (ids old ▸ own)
    · rw [if_neg affected] at own ⊢
      exact closed.final old before own

private theorem run_closed_iff {now affected : Nat} {statement : Statement}
    (ran : statement.run now db = .ok (affected, after)) :
    (∀ id, Closed id db → Closed id after) ↔ ¬ statement.Reopens db := by
  cases statement with
  | insertOrder values =>
    refine iff_of_true (fun id closed => ?_) not_false
    obtain ⟨-, -, fresh, -, rfl⟩ := insertOrder_ok ran
    obtain ⟨row, member, own⟩ := closed.known
    refine ⟨⟨row, List.mem_append_left _ member, own⟩, fun other inside same => ?_⟩
    rcases List.mem_append.mp inside with before | new
    · exact closed.final other before same
    · -- the primary key refuses a second row of the order
      rw [List.mem_singleton.mp new] at same
      exact absurd (own.trans same.symm) (fresh row member)
  | cancelOrderDb orderId =>
    cases ran
    exact iff_of_true (fun id closed => closed.updated (fun _ => rfl) fun _ _ _ => nofun) not_false
  | updateOrderFilled orderId filledDelta status =>
    cases ran
    cases status with
    | «open» =>
      constructor
      · intro keeps closed
        obtain ⟨known, final⟩ := keeps orderId closed
        obtain ⟨row, member, own⟩ := known
        apply final row member own
        obtain ⟨old, before, rfl⟩ := mem_updateOrders.mp member
        by_cases affected : old.orderId = orderId
        · simp [affected]
        · simp [affected] at own
      · intro keeps id closed
        have distinct : orderId ≠ id := fun same => keeps (same ▸ closed)
        exact closed.updated (fun _ => rfl) fun row affected own =>
          absurd ((of_decide_eq_true affected).symm.trans own) distinct
    | filled => exact iff_of_true (fun id closed => closed.updated (fun _ => rfl) fun _ _ _ => nofun) not_false
    | cancelled => exact iff_of_true (fun id closed => closed.updated (fun _ => rfl) fun _ _ _ => nofun) not_false
    | expired => exact iff_of_true (fun id closed => closed.updated (fun _ => rfl) fun _ _ _ => nofun) not_false
  | _ => exact iff_of_true (fun id closed => closed.kept (run_keepsOrders ran rfl)) not_false

theorem Stored.closed {system : System} {event : Event} (stored : Stored system event after)
    (keeps : ¬ system.Reopens event) (closed : Closed id system.db) : Closed id after := by
  cases stored with
  | kept => exact closed
  | ran performed ran =>
    exact (run_closed_iff ran).mpr (fun reopens => keeps ⟨_, performed, reopens⟩) id closed
  | ledger => exact closed.kept rfl
  | invalidated user nonce => exact closed.updated (fun _ => rfl) fun _ _ _ => nofun

private theorem Closed.not_loaded (closed : Closed id db) {rows : List OpenOrderRow}
    (loaded : loadOpenOrders db = some rows) :
    ∀ row ∈ rows, row.orderId ≠ id := by
  intro row member own
  obtain ⟨stored, selected, rfl⟩ := List.mem_map.mp ((loaded_perm loaded).mem_iff.mp member)
  obtain ⟨inside, live⟩ := List.mem_filter.mp selected
  exact closed.final stored inside own (of_decide_eq_true live)

/-- In every run whose taker updates meet no closed order, an order that is
cancelled or filled is never open again, and never loaded by a restart. -/
theorem final_status {crypto : Crypto} {config : AppConfig} {system later : System} {events : List Event}
    (run : Run (fun system event after => System.Moves crypto config system event after ∧ ¬ system.Reopens event)
      system events later) {id : OrderId} (closed : Closed id system.db) :
    Closed id later.db ∧ ∀ rows, loadOpenOrders later.db = some rows → ∀ row ∈ rows, row.orderId ≠ id := by
  have stays : Closed id later.db := by
    apply run.keeps fun system => Closed id system.db
    · intro system event after moved closed
      exact moved.1.stepped.stored.closed moved.2 closed
    · exact closed
  exact ⟨stays, fun rows loaded => stays.not_loaded loaded⟩

namespace Sample

/-- Account 6 buys forty, and cancels its order before the match is persisted. -/
def cancelledPurchase : List Event :=
  [ .postOrder 102 (signedBy 6 .buy 510000 40 0) 1, .request 0, .request 0, .request 0, .request 0, .request 0,
    .respond 0, .matching, .receive, .postCancel 102 3, .request 0, .request 0, .respond 0 ]

def persisted : List Event := [.persist, .persist, .persist]

def cancelledBid : List Event :=
  [ .postOrder 103 (signedBy 6 .buy 100000 40 0) 1, .request 0, .request 0, .request 0, .request 0, .request 0,
    .respond 0, .matching, .receive, .postCancel 103 3, .request 0, .request 0, .respond 0, .matching ]

/-- Then its purchase is matched with the sale and persisted. -/
def laterPurchase : List Event :=
  [ .postOrder 102 (signedBy 6 .buy 510000 40 0) 1, .request 0, .request 0, .request 0, .request 0, .request 0,
    .respond 0, .matching, .receive ] ++ persisted

theorem reopens {start : System} {events : List Event} {check : System → Bool}
    (passes : (steps (fun _ _ => true) start events).any fun system => decide (Closed 102 system.db) &&
      (steps (fun _ _ => true) system persisted).any fun later => decide (¬ Closed 102 later.db) && check later) :
    ∃ system later, Run (System.Moves signers deployment) start events system ∧ Closed 102 system.db ∧
      Run (System.Moves signers deployment) system persisted later ∧ ¬ Closed 102 later.db ∧ check later = true := by
  obtain ⟨system, run, checked⟩ := runs_from passes
  obtain ⟨closed, reopens⟩ := Bool.and_eq_true_iff.mp checked
  obtain ⟨later, rest, checked⟩ := runs_from reopens
  obtain ⟨opened, checked⟩ := Bool.and_eq_true_iff.mp checked
  exact ⟨system, later, run, of_decide_eq_true closed, rest, of_decide_eq_true opened, checked⟩

end Sample

/-- The update of the match opens the cancelled order again; were the columns BIGINT, a
restart would load it. -/
theorem final_status_fails :
    (∃ system later, Run (System.Moves Sample.signers Sample.deployment) Sample.opened
      (Sample.selling ++ Sample.cancelledPurchase) system ∧ Closed 102 system.db ∧
      Run (System.Moves Sample.signers Sample.deployment) system Sample.persisted later ∧ ¬ Closed 102 later.db) ∧
    ∃ system later, Run (System.Moves Sample.signers Sample.deployment) Sample.restarted
      Sample.cancelledPurchase system ∧ Closed 102 system.db ∧
      Run (System.Moves Sample.signers Sample.deployment) system Sample.persisted later ∧ ¬ Closed 102 later.db ∧
      ∃ rows, loadOpenOrders later.db = some rows ∧ ∃ row ∈ rows, row.orderId = 102 := by
  constructor
  · obtain ⟨system, later, run, closed, rest, opened, -⟩ := @Sample.reopens Sample.opened
      (Sample.selling ++ Sample.cancelledPurchase) (fun _ => true) (by decide +kernel)
    exact ⟨system, later, run, closed, rest, opened⟩
  · obtain ⟨system, later, run, closed, rest, opened, loaded⟩ := @Sample.reopens Sample.restarted
      Sample.cancelledPurchase (fun later => (loadOpenOrders later.db).any fun rows : List OpenOrderRow =>
        decide (∃ row ∈ rows, row.orderId = 102)) (by decide +kernel)
    obtain ⟨rows, same, listed⟩ := (Option.any_eq_true _ _).mp loaded
    exact ⟨system, later, run, closed, rest, opened, rows, same, of_decide_eq_true listed⟩

/-- A cancelled bid stays closed while a match of other orders is persisted. -/
theorem final_status_sample : ∃ system later, Closed 103 system.db ∧
    Run (fun system event after => System.Moves Sample.signers Sample.deployment system event after ∧ ¬ system.Reopens event)
      system Sample.laterPurchase later ∧ Closed 103 later.db := by
  obtain ⟨system, -, checked⟩ := @Sample.runs_from Sample.restarted Sample.cancelledBid
    (fun system => decide (Closed 103 system.db) &&
      (Sample.steps (fun system event => decide (¬ system.Reopens event)) system Sample.laterPurchase).any
        fun _ => true) (by decide +kernel)
  obtain ⟨closed, continues⟩ := Bool.and_eq_true_iff.mp checked
  obtain ⟨later, within, -⟩ := Sample.runs_within continues
  have run := within.mono fun _ _ _ moved => And.intro moved.1 (of_decide_eq_true moved.2)
  exact ⟨system, later, of_decide_eq_true closed, run, (final_status run (of_decide_eq_true closed)).1⟩

end Omniscient.Gateway

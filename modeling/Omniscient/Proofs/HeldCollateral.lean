import Mathlib.Algebra.Order.BigOperators.Group.List
import Omniscient.Proofs.Acceptance

/-! Whether what is held backs the orders that are open. Accepting an order reserves
its collateral; but neither a cancellation nor a fill gives any of it back, so each
step that leaves an order with less to back breaks the balance. -/

namespace Omniscient.Gateway
open Outcome

def heldOf (db : Database) (key : BalanceKey) : Int := ((db.balances key).map BalanceRow.holdAmount).getD 0

def fundsOf (db : Database) (key : BalanceKey) : Int :=
  ((db.balances key).map fun row => row.availableAmount + row.holdAmount).getD 0

def OrderRow.key (row : OrderRow) : BalanceKey := balanceKey row.userAddress row.side row.positionId

def OrderRow.full (row : OrderRow) : Int := collateral row.side row.price row.amount

/-- The collateral of a row's unfilled part, were so much of it filled. -/
def OrderRow.unfilled (row : OrderRow) (filled : Int) : Int := collateral row.side row.price (max (row.amount - filled) 0)

def OrderRow.backing (row : OrderRow) : Int := OrderRow.unfilled row row.filledAmount

def OrderRow.live (row : OrderRow) : Int := if row.status = .open then OrderRow.backing row else 0

def OrderRow.consumed (row : OrderRow) : Int := OrderRow.full row - OrderRow.backing row

def sumOf (amount : OrderRow → Int) (key : BalanceKey) (rows : List OrderRow) : Int :=
  ((rows.filter (OrderRow.key · = key)).map amount).sum

/-- What is on hold backs what is open, and what is gone was consumed by fills. -/
structure HeldLaw (start db : Database) (key : BalanceKey) : Prop where
  held : heldOf db key = sumOf OrderRow.live key db.orders
  funds : fundsOf db key = fundsOf start key -
    (sumOf OrderRow.consumed key db.orders - sumOf OrderRow.consumed key start.orders)

/-- A statement that changes what backs an order: it closes one that is not filled,
or adds a fill that consumes collateral. -/
def Statement.Unbacks (db : Database) : Statement → Prop
  | .cancelOrderDb orderId =>
    ∃ row ∈ db.orders, row.orderId = orderId ∧ row.status = .open ∧ OrderRow.backing row ≠ 0
  | .updateOrderFilled orderId filledDelta status =>
    ∃ row ∈ db.orders, row.orderId = orderId ∧
      (OrderRow.unfilled row (row.filledAmount + filledDelta) ≠ OrderRow.backing row ∨
        OrderRow.backing row ≠ 0 ∧ ¬ (status = .open ↔ row.status = .open))
  | _ => False

def System.Unbacks (system : System) (event : Event) : Prop :=
  ∃ statement, system.operation event = some (.execute statement) ∧ statement.Unbacks system.db

def Event.isService : Event → Bool
  | .ledger .. | .invalidateNonce .. => false
  | _ => true

instance decidableStatementUnbacks (db : Database) : (statement : Statement) → Decidable (statement.Unbacks db)
  | .cancelOrderDb orderId => inferInstanceAs (Decidable (∃ row ∈ db.orders, row.orderId = orderId ∧ _))
  | .updateOrderFilled orderId _ _ => inferInstanceAs (Decidable (∃ row ∈ db.orders, row.orderId = orderId ∧ _))
  | .ensureUser _ | .reserveCollateral .. | .releaseCollateral .. | .insertOrder _ | .insertHold .. => .isFalse not_false

instance decidableUnbacks (system : System) (event : Event) : Decidable (system.Unbacks event) :=
  match performs : system.operation event with
  | some (.execute statement) => decidable_of_iff (statement.Unbacks system.db) (by simp [System.Unbacks, performs])
  | some (.trySend _) | some (.publish _) | none => .isFalse (by simp [System.Unbacks, performs])

def OrderRow.standing (row : OrderRow) : OrderRow × Int × Int := (OrderRow.fixed row, OrderRow.backing row, OrderRow.live row)

variable {now affected : Nat} {db after : Database} {statement : Statement} {key : BalanceKey}

theorem updateOrders_standing_iff {affects : OrderRow → Bool} {set : OrderRow → OrderRow} :
    (updateOrders affects set db).2.orders.map OrderRow.standing = db.orders.map OrderRow.standing ↔
      ∀ row ∈ db.orders, affects row = true → OrderRow.standing (set row) = OrderRow.standing row := by
  simp only [updateOrders, List.map_map, List.map_inj_left, Function.comp_apply]
  refine forall₂_congr fun row _ => ?_
  by_cases affected : affects row = true
  · simp [affected]
  · simp [affected]

private theorem standing_cancelled {row : OrderRow} (opened : row.status = .open) :
    OrderRow.standing { row with status := .cancelled } = OrderRow.standing row ↔ OrderRow.backing row = 0 := by
  have fixed : OrderRow.fixed { row with status := .cancelled } = OrderRow.fixed row := rfl
  have backing : OrderRow.backing { row with status := .cancelled } = OrderRow.backing row := rfl
  simp only [OrderRow.standing, fixed, backing, OrderRow.live, opened, Prod.mk.injEq, true_and, reduceCtorEq, if_false, if_true]
  exact eq_comm

private theorem standing_filled {row : OrderRow} {filledDelta : Int} {status : OrderStatus} :
    OrderRow.standing { row with filledAmount := row.filledAmount + filledDelta, status } = OrderRow.standing row ↔
      OrderRow.unfilled row (row.filledAmount + filledDelta) = OrderRow.backing row ∧
        (OrderRow.backing row ≠ 0 → (status = .open ↔ row.status = .open)) := by
  have fixed : OrderRow.fixed { row with filledAmount := row.filledAmount + filledDelta, status } = OrderRow.fixed row := rfl
  have backing : OrderRow.backing { row with filledAmount := row.filledAmount + filledDelta, status } =
      OrderRow.unfilled row (row.filledAmount + filledDelta) := rfl
  simp only [OrderRow.standing, fixed, backing, OrderRow.live, Prod.mk.injEq, true_and]
  refine and_congr_right fun same => ?_
  rw [same]
  by_cases opened : row.status = .open <;> by_cases opens : status = .open <;> simp [opened, opens, eq_comm]

private theorem run_standing_iff (ran : statement.run now db = .ok (affected, after)) :
    after.orders.map OrderRow.standing = (db.orders ++ statement.inserts now).map OrderRow.standing ↔
      ¬ statement.Unbacks db := by
  cases statement with
  | insertOrder values =>
    obtain ⟨-, -, -, -, rfl⟩ := insertOrder_ok ran
    exact iff_of_true rfl not_false
  | cancelOrderDb orderId =>
    cases ran
    have none : (Statement.cancelOrderDb orderId).inserts now = [] := rfl
    rw [none, List.append_nil]
    apply updateOrders_standing_iff.trans
    simp only [Statement.Unbacks, not_exists, not_and, not_not]
    refine forall₂_congr fun row _ => ?_
    simp only [decide_eq_true_eq, and_imp]
    exact forall₂_congr fun _ opened => standing_cancelled opened
  | updateOrderFilled orderId filledDelta status =>
    cases ran
    have none : (Statement.updateOrderFilled orderId filledDelta status).inserts now = [] := rfl
    rw [none, List.append_nil]
    apply updateOrders_standing_iff.trans
    simp only [Statement.Unbacks, not_exists, not_and, not_or, not_not]
    refine forall₂_congr fun row _ => ?_
    simp only [decide_eq_true_eq]
    exact forall_congr' fun _ => standing_filled
  | _ =>
    refine iff_of_true ?_ not_false
    simp [run_keepsOrders ran rfl, Statement.inserts]

theorem sumOf_append {amount : OrderRow → Int} (first second : List OrderRow) :
    sumOf amount key (first ++ second) = sumOf amount key first + sumOf amount key second := by
  simp [sumOf]

private theorem sumOf_single {amount : OrderRow → Int} (row : OrderRow) :
    sumOf amount key [row] = if OrderRow.key row = key then amount row else 0 := by
  by_cases own : OrderRow.key row = key <;> simp [sumOf, own]

private theorem sumOf_nonneg {amount : OrderRow → Int} {rows : List OrderRow} (all : ∀ row ∈ rows, 0 ≤ amount row) :
    0 ≤ sumOf amount key rows := by
  apply List.sum_nonneg
  intro value member
  obtain ⟨row, inside, rfl⟩ := List.mem_map.mp member
  exact all row (List.mem_of_mem_filter inside)

theorem sumOf_zero {amount : OrderRow → Int} {rows : List OrderRow} (all : ∀ row ∈ rows, amount row = 0) :
    sumOf amount key rows = 0 := by
  apply List.sum_eq_zero
  intro value member
  obtain ⟨row, inside, rfl⟩ := List.mem_map.mp member
  exact all row (List.mem_of_mem_filter inside)

theorem sumOf_same {amount : OrderRow → Int} {rows others : List OrderRow} (reads : OrderRow × Int × Int → Int)
    (read : ∀ row, amount row = reads (OrderRow.standing row))
    (same : rows.map OrderRow.standing = others.map OrderRow.standing) : sumOf amount key rows = sumOf amount key others := by
  have summed (rows : List OrderRow) : sumOf amount key rows =
      (((rows.map OrderRow.standing).filter fun standing => OrderRow.key standing.1 = key).map reads).sum := by
    rw [List.filter_map, List.map_map, funext read]
    rfl
  rw [summed, summed, same]

private theorem live_same {rows others : List OrderRow}
    (same : rows.map OrderRow.standing = others.map OrderRow.standing) :
    sumOf OrderRow.live key rows = sumOf OrderRow.live key others := sumOf_same (·.2.2) (fun _ => rfl) same

private theorem consumed_same {rows others : List OrderRow}
    (same : rows.map OrderRow.standing = others.map OrderRow.standing) :
    sumOf OrderRow.consumed key rows = sumOf OrderRow.consumed key others :=
  sumOf_same (fun standing => OrderRow.full standing.1 - standing.2.1) (fun _ => rfl) same

/-- A change of the tables under which holds and live orders move together, up to what
the requests in flight have reserved. -/
structure Shift (db after : Database) (owed : BalanceKey → Int) : Prop where
  users : ∀ user, db.users user ≠ none → after.users user ≠ none
  rows : ∃ added, after.orders.map OrderRow.standing = (db.orders ++ added).map OrderRow.standing ∧
    ∀ row ∈ added, 0 ≤ OrderRow.live row ∧ OrderRow.consumed row = 0
  held : ∀ key, heldOf after key + sumOf OrderRow.live key db.orders =
    heldOf db key + sumOf OrderRow.live key after.orders + owed key
  funds : ∀ key, fundsOf after key = fundsOf db key

theorem Shift.refl : Shift db db fun _ => 0 where
  users _ known := known
  rows := ⟨[], by rw [List.append_nil], fun _ none => nomatch none⟩
  held _ := (Int.add_zero _).symm
  funds _ := rfl

theorem Shift.apart (users : ∀ user, db.users user ≠ none → after.users user ≠ none)
    (rows : after.orders.map OrderRow.standing = db.orders.map OrderRow.standing) (balances : after.balances = db.balances) :
    Shift db after fun _ => 0 where
  users
  rows := ⟨[], by rw [List.append_nil, rows], fun _ none => nomatch none⟩
  held key := by
    rw [live_same rows, heldOf, balances]
    exact (Int.add_zero _).symm
  funds key := by rw [fundsOf, balances]; rfl

theorem Shift.moved {place : BalanceKey} {row : BalanceRow} (found : db.balances place = some row) (amount : Int) :
    Shift db { db with balances := Function.update db.balances place (some { row with
      holdAmount := row.holdAmount + amount
      availableAmount := row.availableAmount - amount }) } fun key => if place = key then amount else 0 where
  users _ known := known
  rows := ⟨[], by rw [List.append_nil], fun _ none => nomatch none⟩
  held key := by
    unfold heldOf
    by_cases here : key = place
    · subst here
      simp only [Function.update_self, found, Option.map_some, Option.getD_some, if_true]
      omega
    · rw [if_neg (Ne.symm here)]
      simp only [Function.update_of_ne here]
      omega
  funds key := by
    unfold fundsOf
    by_cases here : key = place
    · subst here
      simp only [Function.update_self, found, Option.map_some, Option.getD_some]
      omega
    · simp only [Function.update_of_ne here]

theorem reserve_shift {place : BalanceKey} {amount : Int}
    (ran : (Statement.reserveCollateral place amount).run now db = .ok (affected, after)) :
    affected = 0 ∧ after = db ∨ affected = 1 ∧ Shift db after fun key => if place = key then amount else 0 := by
  simp only [Statement.run] at ran
  split at ran
  next row found =>
    split at ran
    next =>
      cases ran
      exact .inr ⟨rfl, .moved found amount⟩
    next =>
      cases ran
      exact .inl ⟨rfl, rfl⟩
  next =>
    cases ran
    exact .inl ⟨rfl, rfl⟩

private theorem release_shift {place : BalanceKey} {amount : Int} (positive : 0 ≤ amount)
    (enough : amount ≤ heldOf db place)
    (ran : (Statement.releaseCollateral place amount).run now db = .ok (affected, after)) :
    Shift db after fun key => - if place = key then amount else 0 := by
  unfold heldOf at enough
  simp only [Statement.run] at ran
  split at ran
  next row found =>
    cases ran
    rw [found, Option.map_some, Option.getD_some] at enough
    have rest : max (row.holdAmount - amount) 0 = row.holdAmount + -amount := by omega
    have back : row.availableAmount + amount = row.availableAmount - -amount := by omega
    have moved := Shift.moved found (-amount)
    rw [rest, back]
    refine ⟨moved.users, moved.rows, fun key => (moved.held key).trans ?_, moved.funds⟩
    split <;> rfl
  next missing =>
    cases ran
    rw [missing, Option.map_none, Option.getD_none] at enough
    have nothing : amount = 0 := by omega
    subst nothing
    simpa using Shift.refl

private theorem release_ok {place : BalanceKey} {amount : Int} {error : String}
    (failed : (Statement.releaseCollateral place amount).run now db = .error error) : False := by
  simp only [Statement.run] at failed
  split at failed <;> cases failed

private theorem insert_shift {values : OrderValues}
    (ran : (Statement.insertOrder values).run now db = .ok (affected, after)) :
    Shift db after fun key => - if values.key = key then values.collateral else 0 := by
  obtain ⟨priced, positive, -, -, rfl⟩ := insertOrder_ok ran
  have unfilled : OrderRow.unfilled (values.row now) 0 = values.collateral := by
    have all : max (values.amount - 0) 0 = values.amount := by omega
    exact congrArg (collateral values.side values.price) all
  have live : OrderRow.live (values.row now) = values.collateral := unfilled
  have held : 0 < values.collateral := collateral_pos priced positive
  refine ⟨fun _ known => known, ⟨[values.row now], rfl, fun row member => ?_⟩, fun key => ?_, fun _ => rfl⟩
  · rw [List.mem_singleton.mp member, live]
    exact ⟨held.le, sub_eq_zero.mpr unfilled.symm⟩
  · have same : OrderRow.key (values.row now) = values.key := rfl
    rw [sumOf_append, sumOf_single, live, same]
    show heldOf db key + _ = heldOf db key + _ + _
    omega

private theorem hold_shift {orderId : OrderId} {place : BalanceKey} {amount : Int}
    (ran : (Statement.insertHold orderId place amount).run now db = .ok (affected, after)) : Shift db after fun _ => 0 := by
  simp only [Statement.run, bind_ok, revertIf_ok, pure_ok, Prod.mk.injEq] at ran
  obtain ⟨-, -, -, -, -, -, -, rfl⟩ := ran
  exact .apart (fun _ known => known) rfl rfl

private theorem hold_ok {orderId : OrderId} {place : BalanceKey} {amount : Int} {error : String} (positive : 0 < amount)
    (known : db.users place.userAddress ≠ none) (listed : ∃ row ∈ db.orders, row.orderId = orderId)
    (failed : (Statement.insertHold orderId place amount).run now db = .error error) : False := by
  have found : db.orders.any (·.orderId = orderId) = true := by
    obtain ⟨row, member, own⟩ := listed
    exact List.any_eq_true.mpr ⟨row, member, decide_eq_true own⟩
  simp only [Statement.run, revertIf, if_neg (not_le.mpr positive), if_neg known, found, Bool.true_eq_false, if_false] at failed
  cases failed

private theorem ensure_shift {maker : Address} (ran : (Statement.ensureUser maker).run now db = .ok (affected, after)) :
    Shift db after fun _ => 0 := by
  simp only [Statement.run] at ran
  split at ran
  next =>
    cases ran
    exact .refl
  next =>
    cases ran
    refine .apart (fun user known => ?_) rfl rfl
    by_cases own : user = maker
    · simp [own]
    · simpa [own] using known

theorem update_shift (ran : statement.run now db = .ok (affected, after)) (spares : ¬ statement.Unbacks db)
    (adds : statement.inserts now = []) (users : after.users = db.users) (balances : after.balances = db.balances) :
    Shift db after fun _ => 0 := by
  have rows := (run_standing_iff ran).mpr spares
  rw [adds, List.append_nil] at rows
  exact .apart (fun user known => users ▸ known) rows balances

def Stage.owed (key : BalanceKey) : Stage → Int
  | .reserved place amount | .abandoned place amount => if place = key then amount else 0
  | _ => 0

/-- What the tables say about a stage. An accepted order never has to be abandoned. -/
def Stage.Sound (db : Database) : Stage → Prop
  | .idle => True
  | .reserved _ amount => 0 ≤ amount
  | .inserted values => (∃ row ∈ db.orders, row.orderId = values.orderId) ∧ db.users values.maker ≠ none
  | .abandoned _ _ => False

private theorem Stage.Sound.owed_nonneg {stage : Stage} (sound : stage.Sound db) : 0 ≤ stage.owed key := by
  cases stage with
  | reserved place amount =>
    simp only [Stage.owed]
    split
    next => exact sound
    next => exact le_refl _
  | abandoned => exact sound.elim
  | _ => exact le_refl _

theorem Shift.ids {owed : BalanceKey → Int} (shift : Shift db after owed) {row : OrderRow} (member : row ∈ db.orders) :
    ∃ other ∈ after.orders, other.orderId = row.orderId := by
  obtain ⟨added, same, -⟩ := shift.rows
  have said : OrderRow.standing row ∈ after.orders.map OrderRow.standing := by
    rw [same]
    exact List.mem_map_of_mem (List.mem_append_left _ member)
  obtain ⟨other, inside, equal⟩ := List.mem_map.mp said
  have id : (OrderRow.fixed other).orderId = (OrderRow.fixed row).orderId := by
    rw [show OrderRow.fixed other = OrderRow.fixed row from congrArg Prod.fst equal]
  exact ⟨other, inside, id⟩

theorem Shift.sound {owed : BalanceKey → Int} (shift : Shift db after owed) {stage : Stage} (sound : stage.Sound db) :
    stage.Sound after := by
  cases stage with
  | inserted values =>
    obtain ⟨⟨row, member, own⟩, known⟩ := sound
    obtain ⟨other, inside, same⟩ := shift.ids member
    exact ⟨⟨other, inside, same.trans own⟩, shift.users _ known⟩
  | _ => exact sound

theorem Shift.congr {owed other : BalanceKey → Int} (shift : Shift db after owed) (same : ∀ key, owed key = other key) :
    Shift db after other := funext same ▸ shift

theorem Stage.Moves.shift {system middle : System} {stage next : Stage} {operation : Operation}
    {answer : operation.Answer} (moved : stage.Moves operation answer next) (ready : stage.Ready operation)
    (performed : Performed system operation answer middle) (sound : stage.Sound system.db)
    (enough : ∀ key, stage.owed key ≤ heldOf system.db key)
    (spares : ∀ statement, operation = .execute statement → ¬ statement.Unbacks system.db) :
    Shift system.db middle.db (fun key => next.owed key - stage.owed key) ∧ next.Sound middle.db := by
  have unmoved (other : Stage) : Shift system.db system.db (fun key => other.owed key - other.owed key) :=
    Shift.refl.congr fun _ => (sub_self _).symm
  cases performed with
  | @ran statement affected db ran =>
    cases moved with
    | ensured => exact ⟨(ensure_shift ran).congr fun _ => rfl, trivial⟩
    | @reserved place amount _ affects =>
      rcases reserve_shift ran with ⟨none, -⟩ | ⟨-, shift⟩
      · exact absurd none affects
      · cases ready with
        | reserve positive => exact ⟨shift.congr fun _ => (Int.sub_zero _).symm, positive⟩
    | short =>
      rcases reserve_shift ran with ⟨-, rfl⟩ | ⟨one, -⟩
      · exact ⟨unmoved .idle, trivial⟩
      · cases one
    | @inserted place amount values _ priced positive =>
      cases ready with
      | insert backed =>
        obtain ⟨rfl, rfl⟩ := backed positive
        obtain ⟨-, -, -, known, rfl⟩ := insertOrder_ok ran
        refine ⟨(insert_shift ran).congr fun _ => (Int.zero_sub _).symm, ⟨values.row system.dbClock, ?_, rfl⟩, known⟩
        exact List.mem_append_right _ (List.mem_singleton.mpr rfl)
    | @released place amount =>
      have covered := enough place
      simp only [Stage.owed, if_true] at covered
      exact ⟨(release_shift sound covered ran).congr fun _ => (Int.zero_sub _).symm, trivial⟩
    | held =>
      have shift := hold_shift ran
      exact ⟨shift.congr fun _ => rfl, shift.sound sound⟩
    | repaired => exact sound.elim
    | @closed orderId =>
      have users : db.users = system.db.users := by cases ran; rfl
      have balances : db.balances = system.db.balances := by cases ran; rfl
      exact ⟨(update_shift ran (spares _ rfl) rfl users balances).congr fun _ => rfl, trivial⟩
  | @failed statement error failed =>
    cases moved with
    | ensured => exact ⟨unmoved .idle, trivial⟩
    | unreserved => exact ⟨unmoved .idle, trivial⟩
    | refused => exact ⟨unmoved _, sound⟩
    | released => exact (release_ok failed).elim
    | unheld =>
      -- the order is in its table and its user is known, so its hold is inserted
      cases ready with
      | hold own positive => exact (hold_ok positive (own ▸ sound.2) sound.1 failed).elim
    | repaired => exact sound.elim
    | closed => exact ⟨unmoved .idle, trivial⟩
  | sent => cases moved <;> exact ⟨unmoved .idle, trivial⟩
  | refused => cases moved <;> exact ⟨unmoved .idle, trivial⟩
  | published => cases moved

/-- What is on hold is what the rows have live and the stages owe, and nothing has gone. -/
structure System.Accounted (start : Database) (stages : List Stage) (system : System) : Prop where
  sound : ∀ stage ∈ stages, stage.Sound system.db
  backed : ∀ row ∈ system.db.orders, 0 ≤ OrderRow.live row
  held : ∀ key, heldOf system.db key = sumOf OrderRow.live key system.db.orders + (stages.map (Stage.owed key)).sum
  funds : ∀ key, fundsOf system.db key = fundsOf start key
  consumed : ∀ key, sumOf OrderRow.consumed key system.db.orders = sumOf OrderRow.consumed key start.orders

variable {start : Database} {stages later : List Stage} {system final : System}

theorem System.Accounted.shift {owed : BalanceKey → Int} (accounted : system.Accounted start stages)
    (shift : Shift system.db final.db owed) (sound : ∀ stage ∈ later, stage.Sound final.db)
    (owes : ∀ key, (later.map (Stage.owed key)).sum = (stages.map (Stage.owed key)).sum + owed key) :
    final.Accounted start later := by
  obtain ⟨added, same, fresh⟩ := shift.rows
  refine ⟨sound, fun row member => ?_, fun key => ?_, fun key => ?_, fun key => ?_⟩
  · have said := List.mem_map_of_mem (f := OrderRow.standing) member
    rw [same] at said
    obtain ⟨other, inside, equal⟩ := List.mem_map.mp said
    have live : OrderRow.live other = OrderRow.live row := congrArg (fun standing => standing.2.2) equal
    rw [← live]
    rcases List.mem_append.mp inside with before | new
    · exact accounted.backed other before
    · exact (fresh other new).1
  · have held := accounted.held key
    have moved := shift.held key
    rw [owes]
    omega
  · exact (shift.funds key).trans (accounted.funds key)
  · have none : sumOf OrderRow.consumed key added = 0 := sumOf_zero fun row member => (fresh row member).2
    rw [consumed_same same, sumOf_append, none, Int.add_zero]
    exact accounted.consumed key

theorem System.Accounted.same (accounted : system.Accounted start stages) (db : final.db = system.db)
    (sound : ∀ stage ∈ later, stage ∈ stages ∨ stage = .idle)
    (owes : ∀ key, (later.map (Stage.owed key)).sum = (stages.map (Stage.owed key)).sum) : final.Accounted start later := by
  have unmoved : Shift system.db final.db fun _ => 0 := db ▸ .refl
  refine accounted.shift unmoved (fun stage member => ?_) fun key => (owes key).trans (Int.add_zero _).symm
  rcases sound stage member with before | rfl
  · exact unmoved.sound (accounted.sound stage before)
  · exact trivial

theorem System.Accounted.covers {front back : List Stage} {stage : Stage}
    (accounted : system.Accounted start (front ++ stage :: back)) (key : BalanceKey) :
    stage.owed key ≤ heldOf system.db key := by
  have live := @sumOf_nonneg key OrderRow.live _ accounted.backed
  have others (stages : List Stage) (within : ∀ stage ∈ stages, stage.Sound system.db) :
      0 ≤ (stages.map (Stage.owed key)).sum := by
    apply List.sum_nonneg
    intro value member
    obtain ⟨stage, inside, rfl⟩ := List.mem_map.mp member
    exact (within stage inside).owed_nonneg
  have first := others front fun stage member => accounted.sound stage (List.mem_append_left _ member)
  have last := others back fun stage member =>
    accounted.sound stage (List.mem_append_right _ (List.mem_cons_of_mem _ member))
  have held := accounted.held key
  simp only [List.map_append, List.map_cons, List.sum_append, List.sum_cons] at held
  omega

private theorem Performed.persist_shift {operation : Operation} {answer : operation.Answer} {middle : System}
    (performed : Performed system operation answer middle) (persists : operation.Persists)
    (spares : ∀ statement, operation = .execute statement → ¬ statement.Unbacks system.db) :
    Shift system.db middle.db fun _ => 0 := by
  obtain ⟨-, -, users, balances⟩ := performed.persists persists
  cases performed with
  | @ran statement affected db ran =>
    cases statement with
    | updateOrderFilled => exact update_shift ran (spares _ rfl) rfl users balances
    | _ => exact persists.elim
  | failed => exact .refl
  | sent => exact persists.elim
  | refused => exact persists.elim
  | published => exact .refl

theorem StagedStep.accounted {event : Event} (step : StagedStep system stages event final later)
    (own : event.isService = true) (spares : ¬ system.Unbacks event) (accounted : system.Accounted start stages) :
    final.Accounted start later := by
  have untouched {operation : Operation} (now : system.operation event = some operation) (statement : Statement)
      (executes : operation = .execute statement) : ¬ statement.Unbacks system.db := fun unbacks =>
    spares ⟨statement, executes ▸ now, unbacks⟩
  cases step with
  | arrived same =>
    refine accounted.same same.db (fun stage member => ?_) fun key => ?_
    · exact (List.mem_append.mp member).imp_right List.mem_singleton.mp
    · simp [Stage.owed]
  | @performed operation answer middle front back stage next now split ready moved performed same =>
    subst split
    have sound := accounted.sound stage (List.mem_append_right _ List.mem_cons_self)
    obtain ⟨shift, reached⟩ := moved.shift ready performed sound accounted.covers (untouched now)
    rw [← same.db] at shift reached
    refine accounted.shift shift (fun other member => ?_) fun key => ?_
    · rcases List.mem_append.mp member with before | rest
      · exact shift.sound (accounted.sound other (List.mem_append_left _ before))
      · rcases List.mem_cons.mp rest with rfl | after
        · exact reached
        · exact shift.sound (accounted.sound other (List.mem_append_right _ (List.mem_cons_of_mem _ after)))
    · simp only [List.map_append, List.map_cons, List.sum_append, List.sum_cons]
      omega
  | responded split same =>
    subst split
    refine accounted.same same.db (fun stage member => .inl ?_) fun key => ?_
    · exact ((List.sublist_cons_self ..).append_left _).subset member
    · simp [Stage.owed]
  | persisted now persists performed same =>
    have shift := same.db ▸ performed.persist_shift persists (untouched now)
    exact accounted.shift shift (fun stage member => shift.sound (accounted.sound stage member)) fun key => (Int.add_zero _).symm
  | matched queued books db => exact accounted.same db (fun _ => .inl) fun _ => rfl
  | outside db commands books =>
    rcases db with same | ⟨users, markets, balances, rfl, -⟩ | ⟨user, nonce, affects, rfl, -⟩
    · exact accounted.same same (fun _ => .inl) fun _ => rfl
    · cases own
    · cases own

section
variable {crypto : Crypto} {config : AppConfig}

/-- In a run of the gateway from tables without holds and without anything to hold,
whose steps change what backs no order, the holds back the open orders as soon as no
request is in flight. -/
theorem held_collateral {db : Database} {books : Books} {clock : UInt64} {dbClock : Nat} {events : List Event}
    (free : ∀ key, heldOf db key = 0) (idle : ∀ row ∈ db.orders, OrderRow.live row = 0)
    (run : Run (fun system event after => system.Moves crypto config event after ∧ event.isService = true ∧
      ¬ system.Unbacks event) (.starting db books clock dbClock) events system)
    (quiet : system.requests = []) (key : BalanceKey) : HeldLaw db system.db key := by
  have accounted : ∃ stages, system.Staged stages ∧ system.Accounted db stages := by
    apply run.keeps fun system => ∃ stages, system.Staged stages ∧ system.Accounted db stages
    · rintro system event after ⟨moved, own, spares⟩ ⟨stages, staged, accounted⟩
      obtain ⟨later, stagedLater, step⟩ := moved.stepped.staged staged
      exact ⟨later, stagedLater, step.accounted own spares accounted⟩
    · refine ⟨[], ⟨.nil, trivial⟩, fun _ none => (nomatch none), fun row member => (idle row member).ge, fun key => ?_,
        fun _ => rfl, fun _ => rfl⟩
      exact (free key).trans ((Int.add_zero _).trans (sumOf_zero idle)).symm
  obtain ⟨stages, staged, accounted⟩ := accounted
  have none : stages = [] := by
    have requests := staged.requests
    rw [quiet] at requests
    cases requests
    rfl
  subst none
  have held := accounted.held key
  refine ⟨held.trans (Int.add_zero _), ?_⟩
  rw [accounted.funds, accounted.consumed]
  omega

end

namespace Sample

theorem unlisted_free (key : BalanceKey) : heldOf unlisted key = 0 := by
  simp only [heldOf, unlisted]
  split <;> rfl

/-- Account 6 posts a bid of forty at a tenth, which comes to rest. -/
def resting : List Event :=
  [ .postOrder 103 (signedBy 6 .buy 100000 40 0) 1, .request 0, .request 0, .request 0, .request 0, .request 0,
    .respond 0, .matching, .receive ]

def withdrawn : List Event := [ .postCancel 103 3, .request 0, .request 0, .respond 0, .matching ]

end Sample

/-- A bid is cancelled, and its four units stay on hold. -/
theorem held_collateral_fails : ∃ system, Run (fun system event after =>
      System.Moves Sample.signers Sample.deployment system event after ∧ event.isService = true)
      (.starting Sample.unlisted (fun _ => none) 0 0) (Sample.resting ++ Sample.withdrawn) system ∧
    (∀ key, heldOf Sample.unlisted key = 0) ∧ system.requests = [] ∧ system.drained ∧
    heldOf system.db ⟨6, .usdc, none⟩ = 4 ∧ ¬ HeldLaw Sample.unlisted system.db ⟨6, .usdc, none⟩ := by
  obtain ⟨system, run, checked⟩ := @Sample.runs_within (fun _ event => event.isService) Sample.opened
    (Sample.resting ++ Sample.withdrawn) (fun system => (Sample.idle system && system.requests.isEmpty) &&
      decide (heldOf system.db ⟨6, .usdc, none⟩ = 4 ∧ sumOf OrderRow.live ⟨6, .usdc, none⟩ system.db.orders = 0))
    (by decide +kernel)
  obtain ⟨still, amounts⟩ := Bool.and_eq_true_iff.mp checked
  obtain ⟨drained, requests⟩ := Bool.and_eq_true_iff.mp still
  obtain ⟨held, live⟩ := of_decide_eq_true amounts
  refine ⟨system, run, Sample.unlisted_free, List.isEmpty_iff.mp requests, Sample.idle_drained drained, held, fun law => ?_⟩
  have same := law.held
  rw [held, live] at same
  cases same

/-- While it rests, what is on hold is what it needs. -/
theorem held_collateral_sample : ∃ system : System, system.requests = [] ∧
    HeldLaw Sample.unlisted system.db ⟨6, .usdc, none⟩ ∧ heldOf system.db ⟨6, .usdc, none⟩ = 4 := by
  obtain ⟨system, run, checked⟩ := @Sample.runs_within
    (fun system event => event.isService && decide (¬ system.Unbacks event)) Sample.opened Sample.resting
    (fun system => system.requests.isEmpty && decide (heldOf system.db ⟨6, .usdc, none⟩ = 4)) (by decide +kernel)
  obtain ⟨quiet, held⟩ := Bool.and_eq_true_iff.mp checked
  have requests := List.isEmpty_iff.mp quiet
  have spares := run.mono fun _ _ _ moved => by
    obtain ⟨own, spares⟩ := Bool.and_eq_true_iff.mp moved.2
    exact And.intro moved.1 (And.intro own (of_decide_eq_true spares))
  have law := held_collateral Sample.unlisted_free (fun _ none => nomatch none) spares requests ⟨6, .usdc, none⟩
  exact ⟨system, requests, law, of_decide_eq_true held⟩

end Omniscient.Gateway

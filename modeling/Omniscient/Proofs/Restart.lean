import Omniscient.Proofs.GatewaySteps

/-! What a restart makes of the orders table: every open row is read, and the books
hold exactly the rows that were read, each under its own position. -/

namespace Omniscient.Gateway

/-- The orders that a restart would load. -/
def openOrders (db : Database) : List OrderRow := db.orders.filter (·.status = .open)

def FitsI64 (value : Int) : Prop := -2 ^ 63 ≤ value ∧ value < 2 ^ 63

structure Readable (row : OrderRow) : Prop where
  price : FitsI64 row.price
  amount : FitsI64 row.amount
  filled : FitsI64 row.filledAmount
  nonce : FitsI64 row.nonce
  deadline : FitsI64 row.deadline

def readRow (row : OrderRow) : OpenOrderRow where
  orderId := row.orderId
  userAddress := row.userAddress
  marketId := row.marketId
  side := row.side
  price := .ofInt row.price
  amount := .ofInt row.amount
  filledAmount := .ofInt row.filledAmount
  nonce := .ofInt row.nonce
  deadline := row.deadline
  positionId := row.positionId

def OpenOrderRow.resting (row : OpenOrderRow) : RestingOrder where
  orderId := row.orderId
  maker := row.userAddress
  price := row.price
  amount := row.amount
  filled := row.filledAmount
  side := row.side
  seq := 0
  nonce := row.nonce
  deadline := .ofInt row.deadline

section
variable {α β : Type} {read : α → Option β} {items : List α} {results : List β}

theorem mapM_forall₂ (all : items.mapM read = some results) :
    List.Forall₂ (fun item result => read item = some result) items results := by
  induction items generalizing results with
  | nil =>
    cases all
    exact .nil
  | cons item items ih =>
    rw [List.mapM_cons] at all
    simp only [Option.bind_eq_bind, Option.bind_eq_some_iff, Option.pure_def, Option.some.injEq] at all
    obtain ⟨first, one, rest, others, rfl⟩ := all
    exact .cons one (ih others)

private theorem mapM_some (all : ∀ item ∈ items, ∃ result, read item = some result) :
    ∃ results, items.mapM read = some results := by
  induction items with
  | nil => exact ⟨[], rfl⟩
  | cons item items ih =>
    obtain ⟨result, one⟩ := all item List.mem_cons_self
    obtain ⟨results, others⟩ := ih fun other member => all other (List.mem_cons_of_mem _ member)
    exact ⟨result :: results, by simp [one, others]⟩

private theorem related_mem {related : α → β → Prop} (all : List.Forall₂ related items results) {item : α}
    (member : item ∈ items) : ∃ result ∈ results, related item result := by
  induction all with
  | nil => cases member
  | cons one others ih =>
    rcases List.mem_cons.mp member with rfl | later
    · exact ⟨_, List.mem_cons_self, one⟩
    · obtain ⟨result, listed, holds⟩ := ih later
      exact ⟨result, List.mem_cons_of_mem _ listed, holds⟩

end

section
variable {db : Database} {row : OrderRow} {rows : List OpenOrderRow} {books : Books} {position : Uint256}

private theorem readI64_iff {numbers : NumberColumn} {value read : Int} :
    readI64 numbers value = some read ↔ numbers = .bigint ∧ FitsI64 value ∧ value = read := by
  cases numbers with
  | bigint => simp [readI64, FitsI64]
  | numeric => simp [readI64]

theorem load_iff {numbers : NumberColumn} {loaded : OpenOrderRow} :
    OrderRow.load numbers row = some loaded ↔ numbers = .bigint ∧ Readable row ∧ loaded = readRow row := by
  simp only [OrderRow.load, Option.bind_eq_bind, Option.bind_eq_some_iff, Option.pure_def, Option.some.injEq, readI64_iff]
  constructor
  · intro holds
    obtain ⟨_, ⟨rfl, price, rfl⟩, _, ⟨-, amount, rfl⟩, _, ⟨-, filled, rfl⟩, _, ⟨-, nonce, rfl⟩,
      _, ⟨-, deadline, rfl⟩, rfl⟩ := holds
    exact ⟨rfl, ⟨price, amount, filled, nonce, deadline⟩, rfl⟩
  · intro holds
    obtain ⟨rfl, readable, rfl⟩ := holds
    exact ⟨_, ⟨rfl, readable.price, rfl⟩, _, ⟨rfl, readable.amount, rfl⟩, _, ⟨rfl, readable.filled, rfl⟩,
      _, ⟨rfl, readable.nonce, rfl⟩, _, ⟨trivial, readable.deadline, rfl⟩, rfl⟩

private theorem loads_iff : (∃ rows, loadOpenOrders db = some rows) ↔
    ∀ row ∈ openOrders db, db.orderNumbers = .bigint ∧ Readable row := by
  have listed (row : OrderRow) : row ∈ (openOrders db).insertionSort (·.createdAt ≤ ·.createdAt) ↔ row ∈ openOrders db :=
    List.mem_insertionSort _
  constructor
  · intro loads row member
    obtain ⟨rows, loaded⟩ := loads
    obtain ⟨loadedRow, -, read⟩ := related_mem (mapM_forall₂ loaded) ((listed row).mpr member)
    obtain ⟨decodes, readable, -⟩ := load_iff.mp read
    exact ⟨decodes, readable⟩
  · intro readable
    refine mapM_some fun row member => ?_
    obtain ⟨decodes, fits⟩ := readable row ((listed row).mp member)
    exact ⟨_, load_iff.mpr ⟨decodes, fits, rfl⟩⟩

theorem loaded_perm (loaded : loadOpenOrders db = some rows) : rows.Perm ((openOrders db).map readRow) := by
  have sorted := (openOrders db).perm_insertionSort (·.createdAt ≤ ·.createdAt)
  refine .trans (.of_eq ?_) (sorted.map readRow)
  rw [← List.forall₂_eq_eq_eq, List.forall₂_map_right_iff]
  exact ((mapM_forall₂ loaded).imp fun row loadedRow read => (load_iff.mp read).2.2).flip

theorem mem_restingAt {order : RestingOrder} :
    order ∈ restingAt books position ↔ ∃ book, books position = some book ∧ order ∈ book.resting := by
  unfold restingAt
  cases found : books position with
  | none => simp [resting_new]
  | some book => simp

def unnumbered (books : Books) (position : Uint256) : List RestingOrder := (restingAt books position).map (·.numbered 0)

theorem restore_eq (books : Books) (row : OpenOrderRow) : restore books row =
    Function.update books row.positionId (some (((books row.positionId).getD .new).insert row.resting).2) := rfl

private theorem restore_perm (books : Books) (row : OpenOrderRow) (position : Uint256) :
    (unnumbered (restore books row) position).Perm
      (([row].filter (·.positionId = position)).map OpenOrderRow.resting ++ unnumbered books position) := by
  by_cases here : row.positionId = position
  · subst here
    have placed := (resting_insert ((books row.positionId).getD .new) row.resting).map (RestingOrder.numbered · 0)
    have unnumber (seq : UInt64) : (row.resting.numbered seq).numbered 0 = row.resting := rfl
    simpa [unnumbered, restingAt, restore_eq, unnumber] using placed
  · simp [unnumbered, restingAt, restore_eq, here, Function.update_of_ne (Ne.symm here)]

private theorem restored_perm (rows : List OpenOrderRow) (books : Books) (position : Uint256) :
    (unnumbered (rows.foldl restore books) position).Perm
      ((rows.filter (·.positionId = position)).map OpenOrderRow.resting ++ unnumbered books position) := by
  induction rows generalizing books with
  | nil => exact .refl _
  | cons row rows ih =>
    have later := (ih (restore books row)).trans ((restore_perm books row position).append_left _)
    rw [← List.singleton_append, List.filter_append, List.map_append, List.append_assoc]
    exact later.trans (List.perm_append_comm_assoc ..)

private theorem restingAt_pruned (books : Books) (position : Uint256) :
    restingAt (fun position => (books position).map OrderBook.prune) position = restingAt books position := by
  unfold restingAt
  show ((Option.map OrderBook.prune (books position)).getD .new).resting = _
  cases books position with
  | none => rfl
  | some book => exact resting_prune book

theorem rebuilds_iff : (∃ books, rebuildBooks db = some books) ↔
    ∀ row ∈ openOrders db, db.orderNumbers = .bigint ∧ Readable row := by
  rw [← loads_iff]
  simp [rebuildBooks, Option.bind_eq_some_iff]

theorem restart_some {clock : UInt64} {dbClock : Nat} {system : System}
    (restarted : System.restart db clock dbClock = some system) :
    ∃ books, rebuildBooks db = some books ∧ system = .starting db books clock dbClock := by
  simp only [System.restart, Option.bind_eq_bind, Option.bind_eq_some_iff, Option.pure_def,
    Option.some.injEq] at restarted
  obtain ⟨books, rebuilt, same⟩ := restarted
  exact ⟨books, rebuilt, same.symm⟩

theorem restarts_iff {clock : UInt64} {dbClock : Nat} : (∃ system, System.restart db clock dbClock = some system) ↔
    ∀ row ∈ openOrders db, db.orderNumbers = .bigint ∧ Readable row := by
  rw [← rebuilds_iff]
  simp [System.restart, Option.bind_eq_some_iff]

theorem rebuilt_perm (rebuilt : rebuildBooks db = some books) (position : Uint256) :
    (unnumbered books position).Perm
      (((openOrders db).filter (·.positionId = position)).map fun row => (readRow row).resting) := by
  simp only [rebuildBooks, Option.bind_eq_bind, Option.bind_eq_some_iff, Option.pure_def, Option.some.injEq] at rebuilt
  obtain ⟨rows, loaded, rfl⟩ := rebuilt
  have restored := restored_perm rows (fun _ => none) position
  have read := ((loaded_perm loaded).filter (·.positionId = position)).map OpenOrderRow.resting
  rw [List.filter_map, List.map_map] at read
  rw [unnumbered, restingAt_pruned]
  exact (restored.trans (.of_eq (List.append_nil _))).trans read

theorem rebuilt_iff (rebuilt : rebuildBooks db = some books) {order : RestingOrder} :
    order ∈ unnumbered books position ↔
      ∃ row ∈ openOrders db, row.positionId = position ∧ (readRow row).resting = order := by
  rw [(rebuilt_perm rebuilt position).mem_iff, List.mem_map]
  simp only [List.mem_filter, decide_eq_true_eq, and_assoc]

end

end Omniscient.Gateway

import Omniscient.Proofs.GatewaySteps

/-! The fills as the result processor persists them. Each fill updates the row of its
maker and then that of its taker, and the role alone decides the status it writes. -/

namespace Omniscient.Gateway

structure Part where
  isMaker : Bool
  amount : UInt64
  deriving DecidableEq

def Fill.parts (id : OrderId) (fill : Fill) : List Part :=
  (if fill.makerOrderId = id then [⟨true, fill.amount⟩] else []) ++
    if fill.takerOrderId = id then [⟨false, fill.amount⟩] else []

/-- All parts of an order, in the order of the updates. -/
def partsOf (id : OrderId) (results : List MatchResult) : List Part :=
  results.flatMap fun result => result.fills.flatMap (Fill.parts id)

def totalOf (parts : List Part) : Nat := (parts.map fun part => part.amount.toNat).sum

/-- Process results one after another, with nothing in between. -/
def System.processResults (system : System) (results : List MatchResult) : System :=
  results.foldl (fun system result => ((processMatchResult result).exec System.perform system).2) system

def persistPart (row : OrderRow) (part : Part) : OrderRow :=
  { row with
    filledAmount := row.filledAmount + i64OrZero part.amount
    status := if part.isMaker then .filled else .open }

@[simp] theorem persistPart_orderId (row : OrderRow) (part : Part) : (persistPart row part).orderId = row.orderId := rfl

def persistFill (marketId : MarketId) (fill : Fill) : Effect Unit := do
  publishMatch marketId fill
  let _ ← (updateOrderFilled fill.makerOrderId fill.amount true).run
  let _ ← (updateOrderFilled fill.takerOrderId fill.amount false).run

def rowsTake (id : OrderId) (part : Part) (rows : List OrderRow) : List OrderRow :=
  rows.map fun row => if row.orderId = id then persistPart row part else row

private theorem persistFill_orders (marketId : MarketId) (fill : Fill) (system : System) :
    ((persistFill marketId fill).exec System.perform system).2.db.orders =
      rowsTake fill.takerOrderId ⟨false, fill.amount⟩ (rowsTake fill.makerOrderId ⟨true, fill.amount⟩ system.db.orders) := by
  have executed : ((persistFill marketId fill).exec System.perform system).2.db =
      (updateOrders (·.orderId = fill.takerOrderId) (persistPart · ⟨false, fill.amount⟩)
        (updateOrders (·.orderId = fill.makerOrderId) (persistPart · ⟨true, fill.amount⟩) system.db).2).2 := rfl
  rw [executed]
  simp only [updateOrders, rowsTake, decide_eq_true_eq]

private theorem rowsTake_parts (fill : Fill) (rows : List OrderRow) :
    rowsTake fill.takerOrderId ⟨false, fill.amount⟩ (rowsTake fill.makerOrderId ⟨true, fill.amount⟩ rows) =
      rows.map fun row => (fill.parts row.orderId).foldl persistPart row := by
  simp only [rowsTake, List.map_map]
  refine List.map_congr_left fun row _ => ?_
  simp only [Function.comp_apply, Fill.parts]
  by_cases maker : row.orderId = fill.makerOrderId
  · by_cases taker : row.orderId = fill.takerOrderId
    · simp [← maker, ← taker]
    · simp [← maker, taker, Ne.symm taker]
  · by_cases taker : row.orderId = fill.takerOrderId
    · simp [maker, Ne.symm maker, ← taker]
    · simp [maker, Ne.symm maker, taker, Ne.symm taker]

private theorem foldl_persistPart_orderId (row : OrderRow) (parts : List Part) :
    (parts.foldl persistPart row).orderId = row.orderId := by
  induction parts generalizing row with
  | nil => rfl
  | cons part parts ih => exact ih _

theorem map_parts (first second : OrderId → List Part) (rows : List OrderRow) :
    (rows.map fun row => (first row.orderId).foldl persistPart row).map
        (fun row => (second row.orderId).foldl persistPart row) =
      rows.map fun row => (first row.orderId ++ second row.orderId).foldl persistPart row := by
  rw [List.map_map]
  refine List.map_congr_left fun row _ => ?_
  rw [Function.comp_apply, foldl_persistPart_orderId, List.foldl_append]

private theorem persistFills_orders (marketId : MarketId) (fills : List Fill) (system : System) :
    ((fills.forM (persistFill marketId)).exec System.perform system).2.db.orders =
      system.db.orders.map fun row => (fills.flatMap (Fill.parts row.orderId)).foldl persistPart row := by
  induction fills generalizing system with
  | nil => exact (List.map_id' _).symm
  | cons fill fills ih =>
    have loop : (fill :: fills).forM (persistFill marketId) =
        persistFill marketId fill >>= fun _ => fills.forM (persistFill marketId) := rfl
    rw [loop, Program.exec_bind, ih, persistFill_orders, rowsTake_parts]
    exact map_parts (fun id => fill.parts id) (fun id => fills.flatMap (Fill.parts id)) system.db.orders

theorem processResults_orders (system : System) (results : List MatchResult) :
    (system.processResults results).db.orders =
      system.db.orders.map fun row => (partsOf row.orderId results).foldl persistPart row := by
  induction results generalizing system with
  | nil => exact (List.map_id' _).symm
  | cons result results ih =>
    have first : ((processMatchResult result).exec System.perform system).2.db.orders =
        system.db.orders.map fun row => (result.fills.flatMap (Fill.parts row.orderId)).foldl persistPart row :=
      persistFills_orders result.marketId result.fills system
    rw [System.processResults, List.foldl_cons, ← System.processResults, ih, first]
    exact map_parts (fun id => result.fills.flatMap (Fill.parts id)) (fun id => partsOf id results) system.db.orders

def EndsAsMaker (parts : List Part) : Prop := ∃ part, parts.getLast? = some part ∧ part.isMaker = true

instance (parts : List Part) : Decidable (EndsAsMaker parts) :=
  decidable_of_iff (parts.getLast?.any Part.isMaker = true) (Option.any_eq_true _ _)

/-- The row of an open order after its parts: amounts that i64 cannot hold count as zero,
and the status is that of the last part. -/
private theorem foldl_persistPart (row : OrderRow) (parts : List Part) (started : row.status = .open) :
    parts.foldl persistPart row = { row with
      filledAmount := row.filledAmount + (parts.map fun part => i64OrZero part.amount).sum
      status := if EndsAsMaker parts then .filled else .open } := by
  induction parts using List.reverseRecOn with
  | nil => simp [EndsAsMaker, ← started]
  | append_singleton parts part ih =>
    rw [List.foldl_append, ih]
    simp [persistPart, EndsAsMaker, add_assoc]

theorem i64OrZero_le (value : UInt64) : i64OrZero value ≤ value.toNat := by
  unfold i64OrZero
  split <;> omega

private theorem i64OrZero_eq {value : UInt64} : i64OrZero value = value.toNat ↔ value.toNat < 2 ^ 63 := by
  unfold i64OrZero
  split <;> omega

private theorem persisted_total (parts : List Part) :
    (parts.map fun part => i64OrZero part.amount).sum ≤ totalOf parts ∧
    ((parts.map fun part => i64OrZero part.amount).sum = totalOf parts ↔ ∀ part ∈ parts, part.amount.toNat < 2 ^ 63) := by
  induction parts with
  | nil => simp [totalOf]
  | cons part parts ih =>
    obtain ⟨below, exact⟩ := ih
    have le := i64OrZero_le part.amount
    have total : totalOf (part :: parts) = part.amount.toNat + totalOf parts := rfl
    rw [List.map_cons, List.sum_cons, List.forall_mem_cons, ← exact, ← i64OrZero_eq, total]
    omega

/-- A row is right when it has the total of its order's fills, and is filled exactly when
that is the order's amount. -/
structure RightlyFilled (results : List MatchResult) (row : OrderRow) : Prop where
  filledAmount : row.filledAmount = totalOf (partsOf row.orderId results)
  status : row.status = if (totalOf (partsOf row.orderId results) : Int) = row.amount then .filled else .open

/-- i64 holds the amounts of all fills of an order, and it is the maker of the last one exactly
when they come to its amount. -/
structure FilledLast (results : List MatchResult) (row : OrderRow) : Prop where
  small : ∀ part ∈ partsOf row.orderId results, part.amount.toNat < 2 ^ 63
  last : EndsAsMaker (partsOf row.orderId results) ↔ (totalOf (partsOf row.orderId results) : Int) = row.amount

/-- The rows are right exactly when every order is the maker of its last fill if that one
completes it, and the taker if not. -/
theorem persisted_fills {system : System} (fresh : ∀ row ∈ system.db.orders, row.status = .open ∧ row.filledAmount = 0)
    (results : List MatchResult) :
    (∀ row ∈ (system.processResults results).db.orders, RightlyFilled results row) ↔
      ∀ row ∈ system.db.orders, FilledLast results row := by
  rw [processResults_orders, List.forall_mem_map]
  refine forall₂_congr fun row member => ?_
  obtain ⟨started, unfilled⟩ := fresh row member
  rw [foldl_persistPart row _ started, unfilled, zero_add]
  have exact := (persisted_total (partsOf row.orderId results)).2
  constructor
  · intro right
    refine ⟨exact.mp right.filledAmount, ?_⟩
    have status := right.status
    dsimp only at status
    split at status <;> split at status <;> simp_all
  · intro filled
    refine ⟨exact.mpr filled.small, ?_⟩
    simp only [filled.last]

namespace Sample

def openRow (orderId : OrderId) (side : OrderSide) (amount : Int) : OrderRow where
  orderId
  userAddress := if side = .sell then 5 else 6
  marketId := 1
  side
  price := 500000
  amount
  filledAmount := 0
  status := .open
  nonce := 0
  salt := 0
  positionId := 3
  signature := []
  deadline := 5000
  createdAt := 0

def standing (wanted : Int) : System :=
  { System.start .numeric with db := { Database.empty with orders := [openRow 101 .sell 100, openRow 102 .buy wanted] } }

def taken (amount : UInt64) : List MatchResult := [⟨1, [⟨101, 102, 5, 6, 500000, amount, .buy⟩], none, true⟩]

private theorem standing_fresh (wanted : Int) : ∀ row ∈
    (standing wanted).db.orders, row.status = .open ∧ row.filledAmount = 0 := by
  intro row member
  rcases List.mem_pair.mp member with rfl | rfl
  · exact ⟨rfl, rfl⟩
  · exact ⟨rfl, rfl⟩

end Sample

/-- A sale of a hundred is filled once forty of it are taken, and the purchase of those
forty stays open. -/
theorem persisted_fills_fails :
    (∀ row ∈ (Sample.standing 40).db.orders, row.status = .open ∧ row.filledAmount = 0 ∧
      (totalOf (partsOf row.orderId (Sample.taken 40)) : Int) ≤ row.amount) ∧
    ¬ ∀ row ∈ ((Sample.standing 40).processResults (Sample.taken 40)).db.orders, RightlyFilled (Sample.taken 40) row := by
  refine ⟨by decide, fun right => ?_⟩
  have early : ∃ row ∈ ((Sample.standing 40).processResults (Sample.taken 40)).db.orders, row.orderId = 101 ∧
      row.amount = 100 ∧ row.status = .filled := by
    rw [processResults_orders]
    decide
  obtain ⟨row, member, sale, amount, filled⟩ := early
  have status := (right row member).status
  rw [sale, amount, filled] at status
  exact absurd status (by decide)

/-- A purchase of more takes all of the sale, whose row is then rightly filled. -/
theorem persisted_fills_sample : ∃ row ∈ ((Sample.standing 150).processResults (Sample.taken 100)).db.orders,
    row.orderId = 101 ∧ row.status = .filled ∧ RightlyFilled (Sample.taken 100) row := by
  have met : ∀ row ∈ (Sample.standing 150).db.orders, FilledLast (Sample.taken 100) row := by
    intro row member
    rcases List.mem_pair.mp member with rfl | rfl
    · exact ⟨by decide, by decide⟩
    · exact ⟨by decide, by decide⟩
  have right := (persisted_fills (Sample.standing_fresh 150) (Sample.taken 100)).mpr met
  obtain ⟨row, member, sale, filled⟩ : ∃ row ∈ ((Sample.standing 150).processResults (Sample.taken 100)).db.orders,
      row.orderId = 101 ∧ row.status = .filled := by
    rw [processResults_orders]
    decide
  exact ⟨row, member, sale, filled, right row member⟩

end Omniscient.Gateway

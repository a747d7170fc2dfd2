import Omniscient.Failures
import Omniscient.Proofs.DoubleSpend
import Omniscient.Proofs.HeldCollateral
import Omniscient.Proofs.Restart

/-! What a rejected order leaves behind. A release undoes the reservation, but nothing
undoes an inserted order: it stays open when its hold or its place in the queue fails. -/

namespace Omniscient.Gateway
open Outcome

/-- The balances, the holds and the open orders are as before. -/
structure LeavesNothing (before after : Database) : Prop where
  balances : after.balances = before.balances
  holds : after.holds = before.holds
  orders : openOrders after = openOrders before

/-- The balance that a signed order reserves from, and how much. -/
def SignedOrder.key (signed : SignedOrder) : BalanceKey :=
  ⟨signed.order.maker, signed.order.assetType,
    if signed.order.assetType = .ctf then some signed.order.positionId else none⟩

def SignedOrder.reserved (signed : SignedOrder) : Int := i64OrZero (.ofNat signed.order.requiredCollateral)

def Affords (db : Database) (key : BalanceKey) (amount : Int) : Prop :=
  ∃ row, db.balances key = some row ∧ amount ≤ row.availableAmount

structure Insertable (db : Database) (values : OrderValues) : Prop where
  deadline : values.deadline < TIMESTAMP_END
  positive : 0 < values.amount
  fresh : ∀ row ∈ db.orders, row.orderId ≠ values.orderId
  market : db.markets values.marketId ≠ none

/-- A call gets as far as its insert: the order is valid, and its collateral is reserved. -/
structure Funded (crypto : Crypto) (config : AppConfig) (fails : AcceptStep → Bool) (system : System)
    (signed : SignedOrder) : Prop where
  valid : ∃ maker, validateSignedOrder crypto config system.clock signed = .ok maker
  user : fails .ensureUser = false
  reserves : fails .reserveCollateral = false
  covered : Affords system.db signed.key signed.reserved

def Inserts (fails : AcceptStep → Bool) (db : Database) (values : OrderValues) : Prop :=
  fails .insertOrder = false ∧ Insertable db values

/-- Nothing fails behind the insert, and where the insert itself fails the hold was not negative. -/
def Undoes (crypto : Crypto) (config : AppConfig) (fails : AcceptStep → Bool) (system : System) (orderId : OrderId)
    (signed : SignedOrder) (marketId : MarketId) : Prop :=
  Funded crypto config fails system signed →
    (Inserts fails system.db (signed.values marketId orderId) →
      fails .insertHold = false ∧ fails .enqueue = false ∧ system.commands.length < QUEUE_CAPACITY) ∧
    (¬ Inserts fails system.db (signed.values marketId orderId) →
      ∀ row, system.db.balances signed.key = some row → 0 ≤ row.holdAmount)

section
variable {fails : AcceptStep → Bool} {system after : System} {statement : Statement} {affected : Nat} {db : Database}
  {error label : String} {attempt compensation : ExceptT String Effect Unit}

def System.Refuses (fails : AcceptStep → Bool) (system : System) (statement : Statement) : Prop :=
  (Operation.execute statement).acceptStep.any fails = true ∨
    ∃ error, statement.run system.dbClock system.db = .error error

theorem execute_ok (ran : statement.run system.dbClock system.db = .ok (affected, db))
    (spared : (Operation.execute statement).acceptStep.any fails = false) :
    (execute statement).run.exec (System.attempt fails) system = (.ok affected, { system with db }) := by
  have attempted : System.attempt fails system (.execute statement) = (.ok affected, { system with db }) := by
    simp only [System.attempt, spared, System.perform, ran, Bool.false_eq_true, if_false]
  apply (Program.exec_bind ..).trans
  rw [Program.exec_request, attempted]
  rfl

theorem execute_refused (refuses : system.Refuses fails statement) :
    ∃ text, (execute statement).run.exec (System.attempt fails) system = (.error text, system) := by
  obtain ⟨text, attempted⟩ : ∃ text, System.attempt fails system (.execute statement) = (.error text, system) := by
    by_cases chosen : (Operation.execute statement).acceptStep.any fails = true
    · exact ⟨_, if_pos chosen⟩
    · obtain ⟨error, failed⟩ := refuses.resolve_left chosen
      refine ⟨error, (if_neg chosen).trans ?_⟩
      simp only [System.perform, failed]
  refine ⟨"database error: " ++ text, ?_⟩
  apply (Program.exec_bind ..).trans
  rw [Program.exec_request, attempted]
  rfl

theorem statement_ok (ran : statement.run system.dbClock system.db = .ok (affected, db))
    (spared : (Operation.execute statement).acceptStep.any fails = false) :
    (execute statement >>= fun _ => pure ()).run.exec (System.attempt fails) system = (.ok (), { system with db }) :=
  Program.exec_returned (execute_ok ran spared)

theorem statement_refused (refuses : system.Refuses fails statement) :
    ∃ text, (execute statement >>= fun _ => pure ()).run.exec (System.attempt fails) system = (.error text, system) := by
  obtain ⟨text, failed⟩ := execute_refused refuses
  exact ⟨text, Program.exec_failed failed⟩

theorem labelled_ok (did : attempt.run.exec (System.attempt fails) system = (.ok (), after)) :
    (labelled label attempt).run.exec (System.attempt fails) system = (.ok (), after) := by
  apply (Program.exec_bind ..).trans
  rw [did]
  rfl

theorem labelled_refused (did : attempt.run.exec (System.attempt fails) system = (.error error, after)) :
    (labelled label attempt).run.exec (System.attempt fails) system = (.error (label ++ error), after) := by
  apply (Program.exec_bind ..).trans
  rw [did]
  rfl

theorem compensated_ok (did : attempt.run.exec (System.attempt fails) system = (.ok (), after)) :
    (compensated label attempt compensation).run.exec (System.attempt fails) system = (.ok (), after) := by
  apply (Program.exec_bind ..).trans
  rw [did]
  rfl

theorem compensated_refused (did : attempt.run.exec (System.attempt fails) system = (.error error, system))
    (repaired : (compensation.run.exec (System.attempt fails) system).2 = after) :
    (compensated label attempt compensation).run.exec (System.attempt fails) system = (.error (label ++ error), after) := by
  apply (Program.exec_bind ..).trans
  rw [did]
  apply (Program.exec_bind compensation.run _ system).trans
  rw [repaired]
  rfl

end

section
variable {fails : AcceptStep → Bool} {system : System} {maker : Address} {assetType : AssetType}
  {positionId : Option Uint256} {amount : UInt64}

def withBalance (db : Database) (key : BalanceKey) (row : BalanceRow) : Database :=
  { db with balances := Function.update db.balances key (some row) }

private theorem withBalance_again (db : Database) (key : BalanceKey) (row other : BalanceRow) :
    withBalance (withBalance db key row) key other = withBalance db key other := by
  simp [withBalance]

theorem ensureUser_ran (now : Nat) (db : Database) (maker : Address) : ∃ affected users,
    (Statement.ensureUser maker).run now db = .ok (affected, { db with users }) ∧ users maker ≠ none := by
  simp only [Statement.run]
  split
  next row found => exact ⟨0, db.users, rfl, by simp [found]⟩
  next => exact ⟨1, Function.update db.users maker (some ⟨0⟩), rfl, by simp⟩

private theorem reserve_exec_short (spared : fails .reserveCollateral = false)
    (short : ¬ Affords system.db ⟨maker, assetType, positionId⟩ (i64OrZero amount)) :
    ∃ text, (reserveCollateral maker assetType positionId amount).run.exec (System.attempt fails) system =
      (.error text, system) := by
  have ran : (Statement.reserveCollateral ⟨maker, assetType, positionId⟩ (i64OrZero amount)).run system.dbClock system.db =
      .ok (0, system.db) := by
    simp only [Statement.run]
    split
    next row found => exact if_neg fun enough => short ⟨row, found, enough⟩
    next => rfl
  exact ⟨_, Program.exec_returned (execute_ok ran spared)⟩

private theorem reserve_exec {row : BalanceRow} (spared : fails .reserveCollateral = false)
    (found : system.db.balances ⟨maker, assetType, positionId⟩ = some row)
    (enough : i64OrZero amount ≤ row.availableAmount) :
    (reserveCollateral maker assetType positionId amount).run.exec (System.attempt fails) system =
      (.ok (), { system with
        db := withBalance system.db ⟨maker, assetType, positionId⟩ (BalanceRow.hold row (i64OrZero amount)) }) := by
  have ran : (Statement.reserveCollateral ⟨maker, assetType, positionId⟩ (i64OrZero amount)).run system.dbClock system.db =
      .ok (1, withBalance system.db ⟨maker, assetType, positionId⟩ (BalanceRow.hold row (i64OrZero amount))) := by
    simp only [Statement.run, found, if_pos enough]
    rfl
  exact Program.exec_returned (execute_ok ran spared)

theorem release_exec {row : BalanceRow}
    (found : system.db.balances ⟨maker, assetType, positionId⟩ = some (BalanceRow.hold row (i64OrZero amount))) :
    ((releaseCollateral maker assetType positionId amount).run.exec (System.attempt fails) system).2 =
      { system with
        db := withBalance system.db ⟨maker, assetType, positionId⟩ { row with holdAmount := max row.holdAmount 0 } } := by
  have ran : (Statement.releaseCollateral ⟨maker, assetType, positionId⟩ (i64OrZero amount)).run system.dbClock system.db =
      .ok (1, withBalance system.db ⟨maker, assetType, positionId⟩ { row with holdAmount := max row.holdAmount 0 }) := by
    simp only [Statement.run, found]
    simp [BalanceRow.hold, withBalance]
  exact congrArg Prod.snd (statement_ok ran rfl)

theorem price_read {price : UInt64} (priced : 0 < price) (bounded : price ≤ PRICE_SCALE) :
    0 < i64OrZero price ∧ i64OrZero price ≤ 1000000 := by
  have low : 0 < price.toNat := UInt64.lt_iff_toNat_lt.mp priced
  have high : price.toNat ≤ 1000000 := UInt64.le_iff_toNat_le.mp bounded
  have read : i64OrZero price = price.toNat := if_pos (by omega)
  rw [read]
  omega

private theorem insertOrder_runs {now : Nat} {db : Database} {values : OrderValues} (insertable : Insertable db values)
    (priced : 0 < values.price ∧ values.price ≤ 1000000) (known : db.users values.maker ≠ none) :
    (Statement.insertOrder values).run now db = .ok (1, { db with orders := db.orders ++ [values.row now] }) := by
  have fresh : db.orders.any (·.orderId = values.orderId) = false := by
    simpa using insertable.fresh
  simp only [Statement.run, revertIf, if_neg insertable.deadline.not_ge, if_neg insertable.positive.not_ge, priced, fresh,
    if_neg known, if_neg insertable.market, and_self, not_true, if_false, Bool.false_eq_true]
  rfl

private theorem insertOrder_refused {now : Nat} {db : Database} {values : OrderValues}
    (refused : ¬ Insertable db values) :
    ∃ error, (Statement.insertOrder values).run now db = .error error := by
  cases ran : (Statement.insertOrder values).run now db with
  | error error => exact ⟨error, rfl⟩
  | ok result =>
    refine absurd ?_ refused
    simp only [Statement.run, bind_ok, revertIf_ok, pure_ok, not_not] at ran
    obtain ⟨-, dated, -, positive, -, -, -, fresh, -, -, -, market, -⟩ := ran
    exact ⟨not_le.mp dated, not_le.mp positive, by simpa using fresh, market⟩

def SignedOrder.hold (signed : SignedOrder) (orderId : OrderId) : HoldRow where
  userAddress := signed.order.maker
  orderId
  assetType := signed.order.assetType
  positionId := signed.key.positionId
  amount := signed.reserved
  status := .held

private theorem insertHold_runs {now : Nat} {db : Database} {signed : SignedOrder} {orderId : OrderId}
    (positive : 0 < signed.reserved) (known : db.users signed.order.maker ≠ none)
    (listed : ∃ row ∈ db.orders, row.orderId = orderId) :
    (Statement.insertHold orderId signed.key signed.reserved).run now db =
      .ok (1, { db with holds := db.holds ++ [signed.hold orderId] }) := by
  have found : db.orders.any (·.orderId = orderId) = true := by
    simpa using listed
  have user : db.users signed.key.userAddress ≠ none := known
  simp only [Statement.run, revertIf, if_neg positive.not_ge, if_neg user, found, Bool.true_eq_false, if_false]
  rfl

private theorem enqueue_full {command : MatchCommand}
    (full : ¬ (fails .enqueue = false ∧ system.commands.length < QUEUE_CAPACITY)) :
    (enqueue command).run.exec (System.attempt fails) system =
      (.error "matcher queue full: sending on a full channel", system) := by
  have refused : System.attempt fails system (.trySend command) = (false, system) := by
    cases chosen : fails .enqueue with
    | true => exact if_pos chosen
    | false =>
      have room : ¬ system.commands.length < QUEUE_CAPACITY := fun room => full ⟨chosen, room⟩
      simp [System.attempt, Operation.acceptStep, chosen, System.perform, room]
  apply (Program.exec_bind ..).trans
  rw [Program.exec_request, refused]
  rfl

private theorem enqueue_room {command : MatchCommand} (sends : fails .enqueue = false)
    (room : system.commands.length < QUEUE_CAPACITY) : (enqueue command).run.exec (System.attempt fails) system =
      (.ok (), { system with commands := system.commands ++ [command] }) := by
  have sent : System.attempt fails system (.trySend command) =
      (true, { system with commands := system.commands ++ [command] }) := by
    simp [System.attempt, Operation.acceptStep, sends, System.perform, room]
  apply (Program.exec_bind ..).trans
  rw [Program.exec_request, sent]
  rfl

end

section
variable {crypto : Crypto} {config : AppConfig} {fails : AcceptStep → Bool} {system : System} {orderId : OrderId}
  {signed : SignedOrder} {marketId : MarketId} {row : BalanceRow}

def acceptReserved (orderId : OrderId) (signed : SignedOrder) (marketId : MarketId) : ExceptT String Effect OrderId := do
  let release := releaseCollateral signed.order.maker signed.order.assetType signed.key.positionId
    (.ofNat signed.order.requiredCollateral)
  compensated "insert_order: " (execute (.insertOrder (signed.values marketId orderId)) >>= fun _ => pure ()) release
  compensated "insert_hold: " (insertHold orderId signed.order.maker signed.order.assetType signed.key.positionId
    (.ofNat signed.order.requiredCollateral)) release
  enqueue (signed.command marketId orderId)
  return orderId

def acceptInserted (orderId : OrderId) (signed : SignedOrder) (marketId : MarketId) : ExceptT String Effect OrderId := do
  compensated "insert_hold: " (insertHold orderId signed.order.maker signed.order.assetType signed.key.positionId
    (.ofNat signed.order.requiredCollateral)) (releaseCollateral signed.order.maker signed.order.assetType
      signed.key.positionId (.ofNat signed.order.requiredCollateral))
  enqueue (signed.command marketId orderId)
  return orderId

theorem accept_unfunded (unfunded : ¬ Funded crypto config fails system signed) :
    ∃ error after, system.accept crypto config fails orderId signed marketId = (.error error, after) ∧
      LeavesNothing system.db after.db := by
  unfold System.accept acceptOrder
  cases valid : validateSignedOrder crypto config system.clock signed with
  | error error => exact ⟨error, system, rfl, rfl, rfl, rfl⟩
  | ok maker =>
    obtain ⟨rfl, -⟩ := validateSignedOrder_ok valid
    rw [Program.exec_ok]
    cases user : fails .ensureUser with
    | true =>
      obtain ⟨text, refused⟩ := @statement_refused fails system (.ensureUser signed.order.maker) (.inl user)
      exact ⟨_, system, Program.exec_failed (labelled_refused refused), rfl, rfl, rfl⟩
    | false =>
      obtain ⟨affected, users, ran, -⟩ := ensureUser_ran system.dbClock system.db signed.order.maker
      obtain ⟨text, refused⟩ : ∃ text, (reserveCollateral signed.order.maker signed.order.assetType signed.key.positionId
          (.ofNat signed.order.requiredCollateral)).run.exec (System.attempt fails)
            { system with db := { system.db with users } } =
          (.error text, { system with db := { system.db with users } }) := by
        cases reserves : fails .reserveCollateral with
        | true =>
          obtain ⟨text, refused⟩ := @execute_refused fails { system with db := { system.db with users } }
            (.reserveCollateral signed.key signed.reserved) (.inl reserves)
          exact ⟨text, Program.exec_failed refused⟩
        | false =>
          apply reserve_exec_short reserves
          exact fun enough => unfunded ⟨⟨_, valid⟩, user, reserves, enough⟩
      refine ⟨"collateral: " ++ text, { system with db := { system.db with users } }, ?_, rfl, rfl, rfl⟩
      apply (Program.exec_returned (labelled_ok (statement_ok ran user))).trans
      exact Program.exec_failed (labelled_refused refused)

theorem accept_funded (funded : Funded crypto config fails system signed)
    (found : system.db.balances signed.key = some row) : ∃ users, users signed.order.maker ≠ none ∧
      system.accept crypto config fails orderId signed marketId =
        (acceptReserved orderId signed marketId).run.exec (System.attempt fails) { system with
          db := withBalance { system.db with users } signed.key (BalanceRow.hold row signed.reserved) } := by
  obtain ⟨⟨maker, valid⟩, user, reserves, other, same, enough⟩ := funded
  cases found.symm.trans same
  obtain ⟨rfl, -⟩ := validateSignedOrder_ok valid
  obtain ⟨affected, users, ran, known⟩ := ensureUser_ran system.dbClock system.db signed.order.maker
  refine ⟨users, known, ?_⟩
  unfold System.accept acceptOrder
  rw [valid]
  refine (Program.exec_returned (labelled_ok (statement_ok ran user))).trans ?_
  exact Program.exec_returned (labelled_ok (reserve_exec reserves found enough))

theorem accept_uninserted (funded : Funded crypto config fails system signed)
    (refused : ¬ Inserts fails system.db (signed.values marketId orderId)) (found : system.db.balances signed.key = some row) :
    ∃ users error after, system.accept crypto config fails orderId signed marketId = (.error error, after) ∧
      after.db = withBalance { system.db with users } signed.key { row with holdAmount := max row.holdAmount 0 } := by
  obtain ⟨users, -, accepted⟩ := @accept_funded _ _ _ _ orderId _ marketId _ funded found
  let reserved : System := { system with
    db := withBalance { system.db with users } signed.key (BalanceRow.hold row signed.reserved) }
  have refuses : reserved.Refuses fails (.insertOrder (signed.values marketId orderId)) := by
    cases inserts : fails .insertOrder with
    | true => exact .inl inserts
    | false =>
      refine .inr (insertOrder_refused fun insertable => refused ⟨inserts, ?_⟩)
      exact ⟨insertable.deadline, insertable.positive, insertable.fresh, insertable.market⟩
  obtain ⟨text, failed⟩ := statement_refused refuses
  have released := @release_exec fails reserved signed.order.maker signed.order.assetType signed.key.positionId
    (.ofNat signed.order.requiredCollateral) row (Function.update_self ..)
  refine ⟨users, _, _, accepted.trans (Program.exec_failed (compensated_refused failed released)), ?_⟩
  exact withBalance_again ..

structure Inserted (system : System) (orderId : OrderId) (signed : SignedOrder) (marketId : MarketId) (row : BalanceRow)
    (db : Database) : Prop where
  users : db.users signed.order.maker ≠ none
  balances : db.balances = Function.update system.db.balances signed.key (some (BalanceRow.hold row signed.reserved))
  holds : db.holds = system.db.holds
  orders : db.orders = system.db.orders ++ [(signed.values marketId orderId).row system.dbClock]
  orderNumbers : db.orderNumbers = system.db.orderNumbers

theorem Inserted.found {db : Database} (inserted : Inserted system orderId signed marketId row db) :
    db.balances signed.key = some (BalanceRow.hold row signed.reserved) := by
  rw [inserted.balances, Function.update_self]

theorem accept_inserted (funded : Funded crypto config fails system signed)
    (inserts : Inserts fails system.db (signed.values marketId orderId)) (found : system.db.balances signed.key = some row) :
    ∃ db, Inserted system orderId signed marketId row db ∧ system.accept crypto config fails orderId signed marketId =
      (acceptInserted orderId signed marketId).run.exec (System.attempt fails) { system with db } := by
  obtain ⟨users, known, accepted⟩ := @accept_funded _ _ _ _ orderId _ marketId _ funded found
  obtain ⟨maker, valid⟩ := funded.valid
  obtain ⟨-, priced, bounded, -⟩ := validateSignedOrder_ok valid
  obtain ⟨spared, insertable⟩ := inserts
  let reserved : System := { system with
    db := withBalance { system.db with users } signed.key (BalanceRow.hold row signed.reserved) }
  have ran := @insertOrder_runs system.dbClock reserved.db (signed.values marketId orderId)
    ⟨insertable.deadline, insertable.positive, insertable.fresh, insertable.market⟩ (price_read priced bounded) known
  have placed := @statement_ok _ reserved _ _ _ ran spared
  refine ⟨_, ?_, accepted.trans (Program.exec_returned (compensated_ok placed))⟩
  exact ⟨known, rfl, rfl, rfl, rfl⟩

/-- A valid order whose amount fits its column reserves exactly what it requires. -/
theorem reserved_exact (valid : ∃ maker, validateSignedOrder crypto config system.clock signed = .ok maker)
    (positive : 0 < (signed.values marketId orderId).amount) :
    0 < signed.reserved ∧ signed.reserved = signed.order.requiredCollateral := by
  obtain ⟨maker, valid⟩ := valid
  obtain ⟨-, priced, bounded, -⟩ := validateSignedOrder_ok valid
  have reserved : 0 < signed.reserved := by
    rw [SignedOrder.reserved, backed_collateral bounded positive]
    exact collateral_pos (price_read priced bounded).1 positive
  have fits : signed.order.requiredCollateral < 2 ^ 64 := by
    have le := requiredCollateral_le bounded
    have lt := signed.order.amount.toNat_lt
    omega
  refine ⟨reserved, (i64OrZero_pos reserved).trans ?_⟩
  rw [UInt64.toNat_ofNat_of_lt' fits]

theorem Inserted.held {db : Database} (inserted : Inserted system orderId signed marketId row db)
    (positive : 0 < signed.reserved) :
    (Statement.insertHold orderId signed.key signed.reserved).run system.dbClock db =
      .ok (1, { db with holds := db.holds ++ [signed.hold orderId] }) := by
  apply insertHold_runs positive inserted.users
  rw [inserted.orders]
  exact ⟨_, List.mem_append_right _ List.mem_cons_self, rfl⟩

/-- A row of an open order stands where the hold or the queue fails behind the insert. -/
theorem accept_stranded (funded : Funded crypto config fails system signed)
    (inserts : Inserts fails system.db (signed.values marketId orderId)) (found : system.db.balances signed.key = some row)
    (fault : ¬ (fails .insertHold = false ∧ fails .enqueue = false ∧ system.commands.length < QUEUE_CAPACITY)) :
    ∃ error after, system.accept crypto config fails orderId signed marketId = (.error error, after) ∧
      after.db.orders = system.db.orders ++ [(signed.values marketId orderId).row system.dbClock] := by
  obtain ⟨db, inserted, accepted⟩ := accept_inserted funded inserts found
  cases holds : fails .insertHold with
  | true =>
    obtain ⟨text, refused⟩ := @statement_refused fails { system with db }
      (.insertHold orderId signed.key signed.reserved) (.inl holds)
    have released := @release_exec fails { system with db } signed.order.maker signed.order.assetType
      signed.key.positionId (.ofNat signed.order.requiredCollateral) row inserted.found
    exact ⟨_, _, accepted.trans (Program.exec_failed (compensated_refused refused released)), inserted.orders⟩
  | false =>
    have ran := inserted.held (reserved_exact funded.valid inserts.2.positive).1
    have inserts_hold := @statement_ok fails { system with db } _ _ _ ran holds
    have full := @enqueue_full fails { system with db := { db with holds := db.holds ++ [signed.hold orderId] } }
      (signed.command marketId orderId) fun room => fault ⟨holds, room⟩
    have onward := accepted.trans (Program.exec_returned (compensated_ok inserts_hold))
    exact ⟨_, _, onward.trans (Program.exec_failed full), inserted.orders⟩

/-- A call that nothing stops reserves, inserts the order and its hold, and sends the order to the matcher. -/
theorem accept_placed (funded : Funded crypto config fails system signed)
    (inserts : Inserts fails system.db (signed.values marketId orderId)) (found : system.db.balances signed.key = some row)
    (holds : fails .insertHold = false) (sends : fails .enqueue = false) (room : system.commands.length < QUEUE_CAPACITY) :
    ∃ db, Inserted system orderId signed marketId row db ∧
      system.accept crypto config fails orderId signed marketId = (.ok orderId, { system with
        db := { db with holds := db.holds ++ [signed.hold orderId] }
        commands := system.commands ++ [signed.command marketId orderId] }) := by
  obtain ⟨db, inserted, accepted⟩ := accept_inserted funded inserts found
  have ran := inserted.held (reserved_exact funded.valid inserts.2.positive).1
  have inserts_hold := @statement_ok fails { system with db } _ _ _ ran holds
  have placed := @enqueue_room fails { system with db := { db with holds := db.holds ++ [signed.hold orderId] } }
    (signed.command marketId orderId) sends room
  have onward := accepted.trans (Program.exec_returned (compensated_ok inserts_hold))
  exact ⟨db, inserted, onward.trans (Program.exec_returned placed)⟩

private theorem withBalance_same (db : Database) (key : BalanceKey) {row other : BalanceRow}
    (found : db.balances key = some row) :
    (withBalance db key other).balances = db.balances ↔ other = row := by
  rw [withBalance, Function.update_eq_self_iff, found, Option.some.injEq]

theorem openOrders_append {before after : Database} {values : OrderValues} {now : Nat}
    (grown : after.orders = before.orders ++ [values.row now]) : openOrders after = openOrders before ++ [values.row now] := by
  rw [openOrders, grown, List.filter_append]
  rfl

private theorem openOrders_grown {before after : Database} {values : OrderValues} {now : Nat}
    (grown : after.orders = before.orders ++ [values.row now]) : openOrders after ≠ openOrders before := by
  rw [openOrders_append grown]
  exact fun same => List.cons_ne_nil _ _ (List.append_right_eq_self.mp same)

/-- A rejected order leaves nothing behind exactly where nothing fails behind its insert,
and no negative hold is clamped: for every order, every state and every choice of failures. -/
theorem rejected_leaves_nothing :
    ((∃ error, (system.accept crypto config fails orderId signed marketId).1 = .error error) →
      LeavesNothing system.db (system.accept crypto config fails orderId signed marketId).2.db) ↔
    Undoes crypto config fails system orderId signed marketId := by
  by_cases funded : Funded crypto config fails system signed
  · obtain ⟨row, found, -⟩ := funded.covered
    by_cases inserts : Inserts fails system.db (signed.values marketId orderId)
    · by_cases fine : fails .insertHold = false ∧ fails .enqueue = false ∧ system.commands.length < QUEUE_CAPACITY
      · obtain ⟨db, -, placed⟩ := accept_placed funded inserts found fine.1 fine.2.1 fine.2.2
        rw [placed]
        apply iff_of_true
        · intro holds
          obtain ⟨error, failed⟩ := holds
          cases failed
        · exact fun _ => ⟨fun _ => fine, fun refused => absurd inserts refused⟩
      · obtain ⟨error, after, stranded, grown⟩ := accept_stranded funded inserts found fine
        rw [stranded]
        apply iff_of_false
        · exact fun nothing => openOrders_grown grown (nothing ⟨error, rfl⟩).orders
        · exact fun undoes => fine ((undoes funded).1 inserts)
    · obtain ⟨users, error, after, refused, rows⟩ := @accept_uninserted _ _ _ _ orderId _ marketId _ funded inserts found
      have others : after.db.holds = system.db.holds ∧ openOrders after.db = openOrders system.db := by
        rw [rows]
        exact ⟨rfl, rfl⟩
      have balances : after.db.balances = system.db.balances ↔ 0 ≤ row.holdAmount := by
        rw [rows]
        apply (withBalance_same _ _ found).trans
        rw [BalanceRow.mk.injEq]
        simp
      rw [refused]
      constructor
      · intro nothing _
        refine ⟨fun inserted => absurd inserted inserts, fun _ other same => ?_⟩
        cases found.symm.trans same
        exact balances.mp (nothing ⟨error, rfl⟩).balances
      · intro undoes _
        exact ⟨balances.mpr ((undoes funded).2 inserts row found), others.1, others.2⟩
  · apply iff_of_true
    · obtain ⟨error, after, unfunded, nothing⟩ := @accept_unfunded _ _ _ _ orderId _ marketId funded
      rw [unfunded]
      exact fun _ => nothing
    · exact fun reached => absurd reached funded

end

namespace Sample

def refusal : Except String OrderId × System :=
  opened.accept signers deployment (· = .enqueue) 103 (signedBy 6 .buy 500000 100 0) 1

end Sample

/-- The bid is rejected, and its row is open. -/
theorem rejected_leaves_nothing_fails : ¬ ((∃ error, Sample.refusal.1 = .error error) →
    LeavesNothing Sample.opened.db Sample.refusal.2.db) := by
  intro nothing
  have failed : Sample.refusal.1 = .error "matcher queue full: sending on a full channel" := by decide +kernel
  have more : (openOrders Sample.refusal.2.db).length = (openOrders Sample.opened.db).length + 1 := by decide +kernel
  rw [(nothing ⟨_, failed⟩).orders] at more
  omega

end Omniscient.Gateway

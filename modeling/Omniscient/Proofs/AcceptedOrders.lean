import Omniscient.Proofs.CrashRecovery
import Omniscient.Proofs.RejectedOrders

/-! What an accepted order leaves: a reservation and a hold of exactly what it requires, and
a row that no restart can read while its numbers are NUMERIC. From BIGINT columns it would
come back, but for a nonce or a deadline beyond i64, which are written as zero. -/

namespace Omniscient.Gateway
open Outcome

section
variable {crypto : Crypto} {config : AppConfig} {fails : AcceptStep → Bool} {system after : System} {orderId id : OrderId}
  {signed : SignedOrder} {marketId : MarketId}

theorem accept_ok (accepted : system.accept crypto config fails orderId signed marketId = (.ok id, after)) :
    id = orderId ∧ Funded crypto config fails system signed ∧
      Inserts fails system.db (signed.values marketId orderId) ∧
      ∃ row db, system.db.balances signed.key = some row ∧ Inserted system orderId signed marketId row db ∧
        after.db = { db with holds := db.holds ++ [signed.hold orderId] } := by
  have failed {error : String} {other : System}
      (refused : system.accept crypto config fails orderId signed marketId = (.error error, other)) : False :=
    nomatch accepted.symm.trans refused
  by_cases funded : Funded crypto config fails system signed
  · obtain ⟨row, found, -⟩ := funded.covered
    by_cases inserts : Inserts fails system.db (signed.values marketId orderId)
    · by_cases fine : fails .insertHold = false ∧ fails .enqueue = false ∧ system.commands.length < QUEUE_CAPACITY
      · obtain ⟨db, inserted, placed⟩ := accept_placed funded inserts found fine.1 fine.2.1 fine.2.2
        cases accepted.symm.trans placed
        exact ⟨rfl, funded, inserts, row, db, found, inserted, rfl⟩
      · obtain ⟨error, other, stranded, -⟩ := accept_stranded funded inserts found fine
        exact (failed stranded).elim
    · obtain ⟨users, error, other, refused, -⟩ := accept_uninserted funded inserts found
      exact (failed refused).elim
  · obtain ⟨error, other, unfunded, -⟩ := accept_unfunded funded
    exact (failed unfunded).elim

theorem terms_written (funded : Funded crypto config fails system signed)
    (inserts : Inserts fails system.db (signed.values marketId orderId)) :
    (signed.values marketId orderId).price = signed.order.price.toNat ∧
      (signed.values marketId orderId).amount = signed.order.amount.toNat := by
  obtain ⟨maker, valid⟩ := funded.valid
  obtain ⟨-, priced, bounded, -⟩ := validateSignedOrder_ok valid
  exact ⟨i64OrZero_pos (price_read priced bounded).1, i64OrZero_pos inserts.2.positive⟩

/-- Where a call succeeds, one positive number is what the order requires, what leaves the
available balance and what is held, and the row of the order has the signed price and amount. -/
theorem reservation_exact (accepted : system.accept crypto config fails orderId signed marketId = (.ok id, after)) :
    0 < signed.order.requiredCollateral ∧
    (∃ row, system.db.balances signed.key = some row ∧
      after.db.balances = Function.update system.db.balances signed.key (some { row with
        availableAmount := row.availableAmount - signed.order.requiredCollateral
        holdAmount := row.holdAmount + signed.order.requiredCollateral })) ∧
    (∃ hold : HoldRow, after.db.holds = system.db.holds ++ [hold] ∧ hold.orderId = id ∧
      hold.amount = signed.order.requiredCollateral) ∧
    ∃ row : OrderRow, after.db.orders = system.db.orders ++ [row] ∧ row.orderId = id ∧
      row.price = signed.order.price.toNat ∧ row.amount = signed.order.amount.toNat := by
  obtain ⟨rfl, funded, inserts, row, db, found, inserted, tables⟩ := accept_ok accepted
  obtain ⟨positive, reserves⟩ := reserved_exact funded.valid inserts.2.positive
  obtain ⟨price, amount⟩ := terms_written funded inserts
  rw [tables]
  refine ⟨by omega, ⟨row, found, ?_⟩, ⟨signed.hold id, ?_, rfl, reserves⟩, ?_⟩
  · refine inserted.balances.trans ?_
    rw [reserves]
    rfl
  · rw [← inserted.holds]
  · exact ⟨_, inserted.orders, rfl, price, amount⟩

def positionText (position : Uint256) : List Char := Nat.toDigits 10 position.toNat

def parsePosition (text : List Char) : Uint256 :=
  let value := Nat.ofDigitChars 10 text 0
  if text ≠ [] ∧ text.all Char.isDigit ∧ value < 2 ^ 256 then .ofNat 256 value else 0

private theorem position_kept (position : Uint256) : parsePosition (positionText position) = position := by
  have value : Nat.ofDigitChars 10 (positionText position) 0 = position.toNat :=
    Nat.ofDigitChars_toDigits (by decide) (by decide)
  have digits : (positionText position).all Char.isDigit := by
    rw [List.all_eq_true]
    exact fun digit member => Nat.isDigit_of_mem_toDigits (by decide) (by decide) member
  have fits : Nat.ofDigitChars 10 (positionText position) 0 < 2 ^ 256 := value ▸ position.isLt
  rw [parsePosition, if_pos ⟨Nat.toDigits_ne_nil, digits, fits⟩, value, BitVec.ofNat_toNat, BitVec.setWidth_eq]

/-- A restart has the signed order at rest, under the same position. -/
structure ComesBack (db : Database) (orderId : OrderId) (order : Order) : Prop where
  position : parsePosition (positionText order.positionId) = order.positionId
  rests : ∃ books, rebuildBooks db = some books ∧ ∃ book, books order.positionId = some book ∧
    ∃ resting ∈ book.resting, resting.orderId = orderId ∧ resting.maker = order.maker ∧ resting.side = order.side ∧
      resting.price = order.price ∧ resting.amount = order.amount ∧ resting.nonce = order.nonce ∧
      resting.deadline = order.deadline

theorem ofInt_toNat (value : UInt64) : UInt64.ofInt value.toNat = value := by
  apply UInt64.toNat_inj.mp
  have lt := value.toNat_lt
  simp only [UInt64.ofInt, UInt64.toNat_ofNat']
  omega

theorem ofInt_i64OrZero (value : UInt64) : UInt64.ofInt (i64OrZero value) = value ↔ value.toNat < 2 ^ 63 := by
  by_cases small : value.toNat < 2 ^ 63
  · rw [i64OrZero, if_pos small]
    exact iff_of_true (ofInt_toNat value) small
  · rw [i64OrZero, if_neg small]
    refine iff_of_false (fun zero => small ?_) small
    rw [← zero]
    decide

theorem i64OrZero_fits (value : UInt64) : FitsI64 (i64OrZero value) := by
  have nonneg := i64OrZero_nonneg value
  have lt := i64OrZero_lt value
  exact ⟨by omega, lt⟩

theorem values_readable (signed : SignedOrder) (marketId : MarketId) (orderId : OrderId) (now : Nat) :
    Readable ((signed.values marketId orderId).row now) where
  price := i64OrZero_fits _
  amount := i64OrZero_fits _
  filled := i64OrZero_fits 0
  nonce := i64OrZero_fits _
  deadline := i64OrZero_fits _

theorem accepted_opens (accepted : system.accept crypto config fails orderId signed marketId = (.ok id, after)) :
    openOrders after.db = openOrders system.db ++ [(signed.values marketId id).row system.dbClock] ∧
      ∀ row ∈ openOrders system.db, row.orderId ≠ id := by
  obtain ⟨rfl, -, inserts, row, db, -, inserted, tables⟩ := accept_ok accepted
  rw [tables]
  exact ⟨openOrders_append inserted.orders, fun row member => inserts.2.fresh row (List.mem_of_mem_filter member)⟩

private theorem accepted_numbers
    (accepted : system.accept crypto config fails orderId signed marketId = (.ok id, after)) :
    after.db.orderNumbers = system.db.orderNumbers := by
  obtain ⟨-, -, -, row, db, -, inserted, tables⟩ := accept_ok accepted
  rw [tables, ← inserted.orderNumbers]

theorem accepted_rests (accepted : system.accept crypto config fails orderId signed marketId = (.ok id, after))
    {books : Books} (rebuilt : rebuildBooks after.db = some books) {position : Uint256} {order : RestingOrder}
    (own : order.orderId = id) : order ∈ unnumbered books position ↔
      signed.order.positionId = position ∧ (readRow ((signed.values marketId id).row system.dbClock)).resting = order := by
  obtain ⟨opened, fresh⟩ := accepted_opens accepted
  rw [rebuilt_iff rebuilt, opened]
  constructor
  · intro holds
    obtain ⟨row, member, here, rfl⟩ := holds
    rcases List.mem_append.mp member with before | new
    · exact absurd own (fresh row before)
    · rw [List.mem_singleton.mp new] at here ⊢
      exact ⟨here, rfl⟩
  · intro holds
    obtain ⟨here, rfl⟩ := holds
    exact ⟨_, List.mem_append_right _ List.mem_cons_self, here, rfl⟩

theorem ComesBack.same (back : ComesBack after.db id signed.order)
    (accepted : system.accept crypto config fails orderId signed marketId = (.ok id, after)) :
    (∃ books, rebuildBooks after.db = some books) ∧ UInt64.ofInt (i64OrZero signed.order.nonce) = signed.order.nonce ∧
      UInt64.ofInt (i64OrZero signed.order.deadline) = signed.order.deadline := by
  obtain ⟨books, rebuilt, book, found, resting, listed, own, -, -, -, -, nonce, deadline⟩ := back.rests
  have inside : resting.numbered 0 ∈ unnumbered books signed.order.positionId :=
    List.mem_map_of_mem (mem_restingAt.mpr ⟨book, found, listed⟩)
  have named : (resting.numbered 0).orderId = id := own
  obtain ⟨-, same⟩ := (accepted_rests accepted rebuilt named).mp inside
  refine ⟨⟨books, rebuilt⟩, ?_, ?_⟩
  · exact (congrArg RestingOrder.nonce same).trans nonce
  · exact (congrArg RestingOrder.deadline same).trans deadline

theorem accepted_rebuilds (accepted : system.accept crypto config fails orderId signed marketId = (.ok id, after)) :
    (∃ books, rebuildBooks after.db = some books) ↔
      system.db.orderNumbers = .bigint ∧ ∀ row ∈ openOrders system.db, Readable row := by
  rw [rebuilds_iff, (accepted_opens accepted).1, List.forall_mem_append, List.forall_mem_singleton,
    accepted_numbers accepted]
  constructor
  · intro decodes
    obtain ⟨others, numbers, -⟩ := decodes
    exact ⟨numbers, fun row member => (others row member).2⟩
  · intro decodes
    obtain ⟨numbers, readable⟩ := decodes
    exact ⟨fun row member => ⟨numbers, readable row member⟩, numbers, values_readable ..⟩

/-- An accepted order comes back from a restart exactly where the numbers of the orders are
BIGINT, not the NUMERIC of the schema, the other open rows can be read, and its nonce and its
deadline fit i64: for every order and every state of the tables. -/
theorem order_comes_back (accepted : system.accept crypto config fails orderId signed marketId = (.ok id, after)) :
    ComesBack after.db id signed.order ↔
      system.db.orderNumbers = .bigint ∧ (∀ row ∈ openOrders system.db, Readable row) ∧
        signed.order.nonce.toNat < 2 ^ 63 ∧ signed.order.deadline.toNat < 2 ^ 63 := by
  constructor
  · intro back
    obtain ⟨rebuilt, nonce, deadline⟩ := back.same accepted
    obtain ⟨numbers, readable⟩ := (accepted_rebuilds accepted).mp rebuilt
    exact ⟨numbers, readable, (ofInt_i64OrZero _).mp nonce, (ofInt_i64OrZero _).mp deadline⟩
  · intro condition
    obtain ⟨numbers, readable, nonce, deadline⟩ := condition
    obtain ⟨-, funded, inserts, -⟩ := accept_ok accepted
    obtain ⟨price, amount⟩ := terms_written funded inserts
    obtain ⟨books, rebuilt⟩ := (accepted_rebuilds accepted).mpr ⟨numbers, readable⟩
    obtain ⟨resting, listed, same⟩ := List.mem_map.mp ((accepted_rests accepted rebuilt rfl).mpr ⟨rfl, rfl⟩)
    obtain ⟨book, found, inside⟩ := mem_restingAt.mp listed
    refine ⟨position_kept _, books, rebuilt, book, found, resting, inside, ?_, ?_, ?_, ?_, ?_, ?_, ?_⟩
    · exact congrArg RestingOrder.orderId same
    · exact congrArg RestingOrder.maker same
    · exact congrArg RestingOrder.side same
    · exact (congrArg RestingOrder.price same).trans ((congrArg UInt64.ofInt price).trans (ofInt_toNat _))
    · exact (congrArg RestingOrder.amount same).trans ((congrArg UInt64.ofInt amount).trans (ofInt_toNat _))
    · exact (congrArg RestingOrder.nonce same).trans ((ofInt_i64OrZero _).mpr nonce)
    · exact (congrArg RestingOrder.deadline same).trans ((ofInt_i64OrZero _).mpr deadline)

end

namespace Sample

/-- Account 6 bids a half for a hundred shares, and nothing fails. -/
def fundedBid : Except String OrderId × System :=
  restarted.accept signers deployment (fun _ => false) 103 (signedBy 6 .buy 500000 100 0) 1

def hugeNonce : SignedOrder := signedBy 6 .buy 500000 100 (2 ^ 63)

def hugeBid : Except String OrderId × System := restarted.accept signers deployment (fun _ => false) 103 hugeNonce 1

/-- The same bid on the tables as the schema has them, without an order. -/
def firstBid : Except String OrderId × System :=
  opened.accept signers deployment (fun _ => false) 103 (signedBy 6 .buy 500000 100 0) 1

private theorem listed_readable : ∀ row ∈ openOrders restarted.db, Readable row := by
  intro row member
  have one : openOrders restarted.db = [openSale] := by decide +kernel
  rw [one] at member
  rw [List.mem_singleton.mp member]
  constructor <;> exact ⟨by decide, by decide⟩

end Sample

theorem reservation_exact_sample : ∃ hold : HoldRow,
    Sample.fundedBid.2.db.holds = Sample.restarted.db.holds ++ [hold] ∧ hold.orderId = 103 ∧ hold.amount = 50 := by
  have accepted : Sample.fundedBid.1 = .ok 103 := by decide +kernel
  exact (reservation_exact (Prod.ext accepted rfl)).2.2.1

/-- Two bids are accepted. The first cannot be read back from the schema's columns; the other,
from BIGINT columns, comes back with nonce 0. -/
theorem order_comes_back_fails :
    (Sample.firstBid.1 = .ok 103 ∧ ¬ ComesBack Sample.firstBid.2.db 103 (Sample.signedBy 6 .buy 500000 100 0).order) ∧
    Sample.hugeBid.1 = .ok 103 ∧ ¬ ComesBack Sample.hugeBid.2.db 103 Sample.hugeNonce.order := by
  have first : Sample.firstBid.1 = .ok 103 := by decide +kernel
  have huge : Sample.hugeBid.1 = .ok 103 := by decide +kernel
  refine ⟨⟨first, fun back => ?_⟩, huge, fun back => ?_⟩
  · obtain ⟨books, rebuilt, -⟩ := back.rests
    have numbers := ((accepted_rebuilds (Prod.ext first rfl)).mp ⟨books, rebuilt⟩).1
    cases numbers
  · have same := (back.same (Prod.ext huge rfl)).2.1
    exact absurd same (by decide +kernel)

theorem order_comes_back_sample :
    ¬ ComesBack Sample.firstBid.2.db 103 (Sample.signedBy 6 .buy 500000 100 0).order ∧
    ComesBack Sample.fundedBid.2.db 103 (Sample.signedBy 6 .buy 500000 100 0).order := by
  have first : Sample.firstBid.1 = .ok 103 := by decide +kernel
  have funded : Sample.fundedBid.1 = .ok 103 := by decide +kernel
  constructor
  · intro back
    have numbers := ((order_comes_back (Prod.ext first rfl)).mp back).1
    cases numbers
  · apply (order_comes_back (Prod.ext funded rfl)).mpr
    exact ⟨rfl, Sample.listed_readable, by decide +kernel, by decide +kernel⟩

end Omniscient.Gateway

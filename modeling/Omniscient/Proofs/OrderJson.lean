import Omniscient.Lib.Outcome
import Omniscient.OrderJson
import Omniscient.Proofs.IdentifierGrammar

/-! Whether an order survives JSON. The fields are read back one by one; a position id is
written without leading zeros and read as whole bytes, and a signature is written as an
array and read as a string. -/

namespace Omniscient
open Outcome

variable {crates : Crates}

private theorem u64_kept (value : UInt64) : deserializeU64 (serializeU64 value) = .ok value := by
  rw [deserializeU64, serializeU64, Json.readUnsigned_fits value.toNat_lt]
  exact congrArg Except.ok (UInt64.toNat_inj.mp (by simp))

private theorem side_kept (side : OrderSide) : OrderSide.deserialize side.serialize = .ok side := by
  cases side <;> rfl

private theorem address_kept (lawful : crates.hex.Lawful) (address : Address) :
    Address.deserialize crates (Address.serialize address) = .ok address := by
  have parsed : Address.fromHex crates.hex address.display = .ok address := parseHex_display lawful _
  exact bind_ok.mpr ⟨address.display, rfl, mapError_ok.mpr parsed⟩

private theorem bytes32_kept (lawful : crates.hex.Lawful) (bytes : Bytes32) :
    Bytes32.deserialize crates (Bytes32.serialize bytes) = .ok bytes := by
  have parsed : Bytes32.fromHex crates.hex bytes.display = .ok bytes := parseHex_display lawful _
  exact bind_ok.mpr ⟨bytes.display, rfl, mapError_ok.mpr parsed⟩

def EvenHex (value : Uint256) : Prop := (Nat.toDigits 16 value.toNat).length % 2 = 0

theorem u256_decoded (lawful : crates.hex.Lawful) {value : Uint256} {bytes : Bytes}
    (decoded : crates.hex.decode (Nat.toDigits 16 value.toNat) = .ok bytes) :
    EvenHex value ∧ bytes.length ≤ 32 ∧ ofBytes 32 bytes = value := by
  have denotes := (lawful.decode _ _).mp decoded
  obtain ⟨length, -⟩ := Text.hexBytes_digits denotes
  have short : (Nat.toDigits 16 value.toNat).length ≤ 64 :=
    (Nat.length_toDigits_le_iff (by decide) (by decide)).mpr (value.isLt.trans_eq (by norm_num))
  refine ⟨?_, by omega, ?_⟩
  · unfold EvenHex
    omega
  · rw [ofBytes, Text.hexBytes_value denotes, Text.toDigits_value, BitVec.ofNat_toNat]
    exact BitVec.setWidth_eq value

private theorem deserializeU256_digits (value : Uint256) : deserializeU256 crates (serializeU256 value) = (do
    let bytes ← (crates.hex.decode (Nat.toDigits 16 value.toNat)).mapError .custom
    if 32 < bytes.length then
      .error (.custom "u256 exceeds 32 bytes")
    else
      return ofBytes 32 bytes) := by
  have found : ("0x" ++ String.ofList (Nat.toDigits 16 value.toNat)).toList.dropPrefix? "0x".toList =
      some (Nat.toDigits 16 value.toNat) := by
    rw [String.toList_append, List.dropPrefix?_append_of_beq _ BEq.rfl, String.toList_ofList]
  have read : (serializeU256 value).readString = pure ("0x" ++ String.ofList (Nat.toDigits 16 value.toNat)) := rfl
  rw [deserializeU256, read, pure_bind, found]
  rfl

private theorem u256_kept_iff (lawful : crates.hex.Lawful) (value : Uint256) :
    deserializeU256 crates (serializeU256 value) = .ok value ↔ EvenHex value := by
  rw [deserializeU256_digits, bind_ok]
  constructor
  · intro read
    obtain ⟨bytes, decoded, -⟩ := read
    exact (u256_decoded lawful (mapError_ok.mp decoded)).1
  · intro even
    obtain ⟨bytes, denotes, -⟩ := (@Text.hexBytes_iff (Nat.toDigits 16 value.toNat)
      ((Nat.toDigits 16 value.toNat).length / 2)).mpr ⟨by unfold EvenHex at even; omega, Text.toDigits_digits _⟩
    have decoded := (lawful.decode _ _).mpr denotes
    obtain ⟨-, short, same⟩ := u256_decoded lawful decoded
    refine ⟨bytes, mapError_ok.mpr decoded, ?_⟩
    rw [if_neg (by omega), same]
    rfl

private theorem hex_bytes_kept (lawful : crates.hex.Lawful) (bytes : Bytes) :
    deserializeHexBytes crates (.string ("0x" ++ hexEncode bytes)) = .ok bytes := by
  have found : ("0x" ++ hexEncode bytes).toList.dropPrefix? "0x".toList = some (hexEncode bytes).toList := by
    rw [String.toList_append, List.dropPrefix?_append_of_beq _ BEq.rfl]
  refine bind_ok.mpr ⟨_, rfl, mapError_ok.mpr ?_⟩
  rw [found, Option.getD_some]
  exact (lawful.decode _ _).mpr (hexEncode_denotes bytes)

theorem bytes_lost (bytes : Bytes) : deserializeHexBytes crates (serializeBytes bytes) = .error (.invalidType "a string") := rfl

namespace Gateway

private theorem order_members (order : Order) :
    order.serialize.members ["salt", "maker", "position_id", "price", "amount", "side", "nonce", "deadline"] =
      .ok [Bytes32.serialize order.salt, Address.serialize order.maker, serializeU256 order.positionId,
        serializeU64 order.price, serializeU64 order.amount, order.side.serialize, serializeU64 order.nonce,
        serializeU64 order.deadline] :=
  Json.members_object (by simp)

theorem order_survives_iff (lawful : crates.hex.Lawful) (order : Order) :
    Order.deserialize crates order.serialize = .ok order ↔ EvenHex order.positionId := by
  rw [← u256_kept_iff lawful]
  simp only [Order.deserialize, order_members, bind_ok, Except.ok.injEq, exists_eq_left', bytes32_kept lawful,
    address_kept lawful, u64_kept, side_kept, pure_ok]
  constructor
  · intro survives
    obtain ⟨position, read, same⟩ := survives
    rw [read, ← congrArg Order.positionId same]
  · intro read
    exact ⟨order.positionId, read, rfl⟩

theorem signed_members (signed : SignedOrder) :
    signed.serialize.members ["order", "signature"] = .ok [signed.order.serialize, serializeBytes signed.signature] :=
  Json.members_object (by simp)

/-- No signed order survives JSON: its own serialization is an error to read. -/
theorem signed_order_lost (crates : Crates) (signed : SignedOrder) :
    ¬ SignedOrder.deserialize crates signed.serialize = .ok signed := by
  intro read
  simp only [SignedOrder.deserialize, signed_members, bind_ok, Except.ok.injEq, exists_eq_left', bytes_lost] at read
  obtain ⟨order, -, signature, failed, -⟩ := read
  cases failed

/-- With its signature sent as hex a signed order is read, if its position id has an
even number of digits. -/
theorem signed_order_read (lawful : crates.hex.Lawful) (signed : SignedOrder) (even : EvenHex signed.order.positionId) :
    SignedOrder.deserialize crates (.object [("order", signed.order.serialize),
      ("signature", .string ("0x" ++ hexEncode signed.signature))]) = .ok signed := by
  have members : Json.members ["order", "signature"] (.object [("order", signed.order.serialize),
      ("signature", .string ("0x" ++ hexEncode signed.signature))]) =
      .ok [signed.order.serialize, .string ("0x" ++ hexEncode signed.signature)] := Json.members_object (by simp)
  refine bind_ok.mpr ⟨_, members, bind_ok.mpr ⟨signed.order, (order_survives_iff lawful signed.order).mpr even, ?_⟩⟩
  exact bind_ok.mpr ⟨signed.signature, hex_bytes_kept lawful _, rfl⟩

namespace Sample

/-- An order for position 16, which has an even number of digits, and an empty signature. -/
def written : SignedOrder where
  order := { salt := 0, maker := 5, positionId := 16, price := 500000, amount := 10, side := .buy, nonce := 0, deadline := 5000 }
  signature := []

end Sample

/-- The order comes back from its own JSON, and the signed order does not. -/
theorem signed_order_survives_fails : Order.deserialize ⟨Omniscient.Sample.crate, fun _ => .ok 0⟩ Sample.written.order.serialize =
      .ok Sample.written.order ∧
    SignedOrder.deserialize ⟨Omniscient.Sample.crate, fun _ => .ok 0⟩ Sample.written.serialize =
      .error (.invalidType "a string") ∧
    ¬ ∀ crates signed, SignedOrder.deserialize crates signed.serialize = .ok signed := by
  have alone : Order.deserialize ⟨Omniscient.Sample.crate, fun _ => .ok 0⟩ Sample.written.order.serialize =
      .ok Sample.written.order := (order_survives_iff Omniscient.Sample.crate_lawful _).mpr (by unfold EvenHex; decide +kernel)
  have failed : SignedOrder.deserialize ⟨Omniscient.Sample.crate, fun _ => .ok 0⟩ Sample.written.serialize =
      .error (.invalidType "a string") := by
    simp only [SignedOrder.deserialize, signed_members, alone, bytes_lost, bind, Except.bind]
  refine ⟨alone, failed, fun survives => ?_⟩
  have kept := survives ⟨Omniscient.Sample.crate, fun _ => .ok 0⟩ Sample.written
  rw [failed] at kept
  cases kept

end Gateway

end Omniscient

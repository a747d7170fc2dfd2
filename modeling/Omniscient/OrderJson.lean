import Omniscient.Identifiers
import Omniscient.Lib.Json

/-! Orders as JSON. They are serialized as derived, field by field, while two of the
fields have a deserialization of their own. Which of several errors is the first one
reported is left out. -/

namespace Omniscient

/-- The crates behind the two functions: hex, and the parser of U256. -/
structure Crates where
  hex : HexCrate
  parseU256 : String → Except String Uint256

def Address.serialize (address : Address) : Json := .string address.display

def Address.deserialize (crates : Crates) (json : Json) : Except Json.Error Address := do
  let s ← json.readString
  (Address.fromHex crates.hex s).mapError .custom

def Bytes32.serialize (bytes : Bytes32) : Json := .string bytes.display

def Bytes32.deserialize (crates : Crates) (json : Json) : Except Json.Error Bytes32 := do
  let s ← json.readString
  (Bytes32.fromHex crates.hex s).mapError .custom

def OrderSide.serialize (side : OrderSide) : Json := .number side.toByte

def OrderSide.deserialize (json : Json) : Except Json.Error OrderSide := do
  let v ← json.readUnsigned 8
  match v with
  | 0 => return .buy
  | 1 => return .sell
  | _ => .error (.custom "invalid side, expected 0 or 1")

def serializeU64 (value : UInt64) : Json := .number value.toNat

def deserializeU64 (json : Json) : Except Json.Error UInt64 := do
  let value ← json.readUnsigned 64
  return value.toUInt64

/-- How the crate serializes a U256: a prefix and no leading zeros. -/
def serializeU256 (value : Uint256) : Json := .string ("0x" ++ String.ofList (Nat.toDigits 16 value.toNat))

def deserializeU256 (crates : Crates) (json : Json) : Except Json.Error Uint256 := do
  let s ← json.readString
  match (s.toList.dropPrefix? "0x".toList).or (s.toList.dropPrefix? "0X".toList) with
  | some hex =>
    let bytes ← (crates.hex.decode hex).mapError .custom
    if 32 < bytes.length then
      .error (.custom "u256 exceeds 32 bytes")
    else
      return ofBytes 32 bytes
  | none => (crates.parseU256 s).mapError .custom

def serializeBytes (bytes : Bytes) : Json := .array (bytes.map fun byte => .number byte.toNat)

def deserializeHexBytes (crates : Crates) (json : Json) : Except Json.Error Bytes := do
  let s ← json.readString
  let hex := (s.toList.dropPrefix? "0x".toList).getD s.toList
  (crates.hex.decode hex).mapError .custom

namespace Gateway

def Order.serialize (order : Order) : Json :=
  .object [
    ("salt", Bytes32.serialize order.salt),
    ("maker", Address.serialize order.maker),
    ("position_id", serializeU256 order.positionId),
    ("price", serializeU64 order.price),
    ("amount", serializeU64 order.amount),
    ("side", order.side.serialize),
    ("nonce", serializeU64 order.nonce),
    ("deadline", serializeU64 order.deadline)]

def Order.deserialize (crates : Crates) (json : Json) : Except Json.Error Order := do
  let values ← json.members ["salt", "maker", "position_id", "price", "amount", "side", "nonce", "deadline"]
  match values with
  | [salt, maker, positionId, price, amount, side, nonce, deadline] =>
    let salt ← Bytes32.deserialize crates salt
    let maker ← Address.deserialize crates maker
    let positionId ← deserializeU256 crates positionId
    let price ← deserializeU64 price
    let amount ← deserializeU64 amount
    let side ← OrderSide.deserialize side
    let nonce ← deserializeU64 nonce
    let deadline ← deserializeU64 deadline
    return { salt, maker, positionId, price, amount, side, nonce, deadline }
  | _ => .error (.invalidLength values.length)

def SignedOrder.serialize (signed : SignedOrder) : Json :=
  .object [("order", signed.order.serialize), ("signature", serializeBytes signed.signature)]

def SignedOrder.deserialize (crates : Crates) (json : Json) : Except Json.Error SignedOrder := do
  let values ← json.members ["order", "signature"]
  match values with
  | [order, signature] =>
    let order ← Order.deserialize crates order
    let signature ← deserializeHexBytes crates signature
    return { order, signature }
  | _ => .error (.invalidLength values.length)

end Gateway

end Omniscient

import Omniscient.Domain
import Omniscient.Lib.Text

/-! The identifiers as texts: parsing and display. A text is a list of Unicode scalar
values; its length in the checks is that of its UTF-8 form. -/

namespace Omniscient

abbrev BatchId := Bytes32

/-- `char::is_whitespace`. -/
def isWhitespace (char : Char) : Bool :=
  let code := char.toNat
  0x09 ≤ code ∧ code ≤ 0x0D ∨ code = 0x20 ∨ code = 0x85 ∨ code = 0xA0 ∨ code = 0x1680 ∨
    0x2000 ≤ code ∧ code ≤ 0x200A ∨ code = 0x2028 ∨ code = 0x2029 ∨ code = 0x202F ∨ code = 0x205F ∨ code = 0x3000

def utf8Length (text : List Char) : Nat := (text.map Char.utf8Size).sum

/-- The two functions of the hex crate that decode a text, into a vector or into a
target of a fixed size; their errors as texts. -/
structure HexCrate where
  decode : List Char → Except String Bytes
  decodeToSlice : (size : Nat) → List Char → Except String Bytes

def ofBytes (size : Nat) (bytes : Bytes) : BitVec (8 * size) :=
  .ofNat _ (bytes.foldl (fun value byte => 256 * value + byte.toNat) 0)

/-- `s.trim().strip_prefix("0x").unwrap_or(s)`: without the prefix it is the untrimmed
text that is left. -/
def stripped (s : String) : List Char := ((Text.trim isWhitespace s.toList).dropPrefix? "0x".toList).getD s.toList

/-- `from_hex`, the same in each type but for its size and the message. -/
def parseHex (hex : HexCrate) (size : Nat) (message : String) (s : String) : Except String (BitVec (8 * size)) :=
  if utf8Length (stripped s) ≠ 2 * size then
    .error ("domain error: " ++ message ++ toString (utf8Length (stripped s)))
  else
    match hex.decodeToSlice size (stripped s) with
    | .ok bytes => .ok (ofBytes size bytes)
    | .error e => .error ("domain error: hex decode: " ++ e)

def Address.fromHex (hex : HexCrate) (s : String) : Except String Address :=
  parseHex hex 20 "address must be 40 hex chars, got " s

def MarketId.fromHex (hex : HexCrate) (s : String) : Except String MarketId :=
  parseHex hex 32 "market_id must be 64 hex chars, got " s

def Bytes32.fromHex (hex : HexCrate) (s : String) : Except String Bytes32 :=
  parseHex hex 32 "bytes32 must be 64 hex chars, got " s

def BatchId.fromHex (hex : HexCrate) (s : String) : Except String BatchId :=
  parseHex hex 32 "batch_id must be 64 hex chars, got " s

/-- `Display`, which is also how an identifier is serialized. -/
def displayHex (size : Nat) (value : BitVec (8 * size)) : String := "0x" ++ hexEncode (Abi.bytesOf size value.toNat)

def Address.display (address : Address) : String := displayHex 20 address
def MarketId.display (marketId : MarketId) : String := displayHex 32 marketId
def Bytes32.display (bytes : Bytes32) : String := displayHex 32 bytes
def BatchId.display (batchId : BatchId) : String := displayHex 32 batchId

end Omniscient

import Mathlib.Data.BitVec
import Mathlib.Data.FinEnum

/-! What the contracts take from their surroundings: machine words, the message
of a call, hashing and signature recovery, and the external token contracts.
External code appears as parameters; what is assumed of it is stated where it is
used. -/

namespace Omniscient

abbrev Uint256 := BitVec 256
abbrev Int256 := BitVec 256
abbrev Bytes32 := BitVec 256
abbrev Address := BitVec 160
abbrev Bytes := List UInt8

/-- `msg.sender` and `block.timestamp` of a call. -/
structure Message where
  sender : Address
  timestamp : Uint256

/-- The two panics of checked code: 0x11 and 0x32. -/
inductive Panic where
  | arithmetic
  | outOfBounds
  deriving DecidableEq, Repr

/-- `keccak256`, and `ECDSA.recover`, which reverts on a malformed signature. The gateway's
crate parses the 65 bytes first, and reports by itself what it cannot parse or recover. -/
structure Crypto where
  keccak256 : Bytes → Bytes32
  recover : Bytes32 → Bytes → Option Address
  parse : Bytes → Except String Unit := fun _ => .ok ()
  unrecovered : String := "signature error"

namespace Abi

/-- The low `count` bytes of a number, most significant first. -/
def bytesOf (count : Nat) (value : Nat) : Bytes :=
  (List.range count).map fun index => (value / 256 ^ (count - 1 - index)).toUInt8

/-- A static value takes one 32-byte word, padded on the left. -/
def word (value : Nat) : Bytes := bytesOf 32 value

def ascii (text : String) : Bytes := text.toList.map fun char => char.toNat.toUInt8

end Abi

namespace Eip712

def domainSeparator (crypto : Crypto) (name version : String) (chainId : Uint256) (self : Address) : Bytes32 :=
  crypto.keccak256 <|
    Abi.word (crypto.keccak256 (Abi.ascii
      "EIP712Domain(string name,string version,uint256 chainId,address verifyingContract)")).toNat ++
    Abi.word (crypto.keccak256 (Abi.ascii name)).toNat ++
    Abi.word (crypto.keccak256 (Abi.ascii version)).toNat ++
    Abi.word chainId.toNat ++ Abi.word self.toNat

/-- `_hashTypedDataV4`. -/
def hashTypedData (crypto : Crypto) (domain structHash : Bytes32) : Bytes32 :=
  crypto.keccak256 ([0x19, 0x01] ++ Abi.word domain.toNat ++ Abi.word structHash.toNat)

end Eip712

/-- An ERC-20 token reached through SafeERC20. `σ` is the state of the token; a
transfer that fails or returns false reverts the caller. -/
structure Token (σ : Type) where
  balanceOf : σ → Address → Uint256
  safeTransfer : σ → (caller recipient : Address) → Uint256 → Option σ
  safeTransferFrom : σ → (caller holder recipient : Address) → Uint256 → Option σ

/-- The conditional tokens, an ERC-1155 contract with state `κ`. -/
structure MultiToken (κ : Type) where
  balanceOf : κ → Address → Uint256 → Uint256
  safeTransferFrom : κ → (caller holder recipient : Address) → (id amount : Uint256) → Option κ

end Omniscient

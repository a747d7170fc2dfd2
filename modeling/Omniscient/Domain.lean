import Omniscient.Evm
import Omniscient.Lib.Outcome

/-! What the gateway and the indexer share: orders as their makers sign them,
identifiers and constants. Signature recovery is a parameter. -/

namespace Omniscient

abbrev OrderId := BitVec 128
abbrev MarketId := Bytes32

inductive OrderSide where
  | buy
  | sell
  deriving DecidableEq, Repr

def OrderSide.toByte : OrderSide → Nat
  | .buy => 0
  | .sell => 1

inductive AssetType where
  | usdc
  | ctf
  deriving DecidableEq, Repr

def AssetType.text : AssetType → String
  | .usdc => "usdc"
  | .ctf => "ctf"

def PRICE_SCALE : UInt64 := 1000000
def TAKER_FEE_BPS : Nat := 50
def MAKER_REBATE_BPS : Nat := 10
def FINALITY_BLOCKS : Nat := 12

structure AppConfig where
  chainId : UInt64
  custodyAddr : Address
  settlementExchangeAddr : Address
  oracleAddr : Address

def hexEncode (bytes : Bytes) : String :=
  let digit (value : Nat) : Char := ("0123456789abcdef".toList)[value]?.getD '0'
  String.ofList (bytes.flatMap fun byte => [digit (byte.toNat / 16), digit (byte.toNat % 16)])

def displayAddress (address : Address) : String := "0x" ++ hexEncode (Abi.bytesOf 20 address.toNat)

/-- `i64::try_from(value).unwrap_or(0)`, as an order's numbers are bound. -/
def i64OrZero (value : UInt64) : Int := if value.toNat < 2 ^ 63 then value.toNat else 0

namespace Gateway

/-- An order of the gateway, with the fields of the contract's order as u64. -/
structure Order where
  salt : Bytes32
  maker : Address
  positionId : Uint256
  price : UInt64
  amount : UInt64
  side : OrderSide
  nonce : UInt64
  deadline : UInt64
  deriving DecidableEq

structure SignedOrder where
  order : Order
  signature : Bytes
  deriving DecidableEq

/-- Worst-case USDC of a buy, rounded up; the shares of a sell. The product fits u128. -/
def Order.requiredCollateral (order : Order) : Nat :=
  let volume := (order.amount.toNat * order.price.toNat + 999999) / 1000000
  match order.side with
  | .buy => volume
  | .sell => order.amount.toNat

def Order.assetType (order : Order) : AssetType :=
  match order.side with
  | .buy => .usdc
  | .sell => .ctf

def addressWord (address : Address) : Bytes := List.replicate 12 0 ++ Abi.bytesOf 20 address.toNat

def computeDomainSeparator (crypto : Crypto) (chainId : UInt64) (verifyingContract : Address) : Bytes32 :=
  crypto.keccak256 <|
    Abi.word (crypto.keccak256 (Abi.ascii
      "EIP712Domain(string name,string version,uint256 chainId,address verifyingContract)")).toNat ++
    Abi.word (crypto.keccak256 (Abi.ascii "Omniscient Exchange")).toNat ++
    Abi.word (crypto.keccak256 (Abi.ascii "1")).toNat ++
    Abi.word chainId.toNat ++ addressWord verifyingContract

def hashOrder (crypto : Crypto) (order : Order) : Bytes32 :=
  crypto.keccak256 <|
    Abi.word (crypto.keccak256 (Abi.ascii
      "Order(bytes32 salt,address maker,uint256 positionId,uint256 price,uint256 amount,uint8 side,uint256 nonce,uint256 deadline)")).toNat ++
    Abi.word order.salt.toNat ++ addressWord order.maker ++ Abi.word order.positionId.toNat ++
    Abi.word order.price.toNat ++ Abi.word order.amount.toNat ++ Abi.word order.side.toByte ++
    Abi.word order.nonce.toNat ++ Abi.word order.deadline.toNat

def eip712SigningHash (crypto : Crypto) (domainSeparator structHash : Bytes32) : Bytes32 :=
  crypto.keccak256 ([0x19, 0x01] ++ Abi.word domainSeparator.toNat ++ Abi.word structHash.toNat)

open Outcome in
def verifyOrderSignature (crypto : Crypto) (order : Order) (signature : Bytes) (chainId : UInt64)
    (verifyingContract : Address) : Except String Address := do
  revertIf (signature.length ≠ 65) ("domain error: signature must be 65 bytes, got " ++ toString signature.length)
  let digest := eip712SigningHash crypto (computeDomainSeparator crypto chainId verifyingContract) (hashOrder crypto order)
  (crypto.parse signature).mapError ("domain error: invalid signature: " ++ ·)
  orRevert ("domain error: signature recovery failed: " ++ crypto.unrecovered) (crypto.recover digest signature)

end Gateway

end Omniscient

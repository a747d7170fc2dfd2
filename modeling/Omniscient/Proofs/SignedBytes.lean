import Omniscient.Proofs.AbiWords
import Omniscient.Proofs.ReservedCollateral

/-! That the gateway and the contract hash the same bytes for an order. Both encoders
are written by hand: the gateway appends byte slices, the contract calls `abi.encode`.
Each hash is taken of a preimage, and the preimages are compared. -/

namespace Omniscient

namespace Gateway

def structPreimage (crypto : Crypto) (order : Order) : Bytes :=
  Abi.word (crypto.keccak256 (Abi.ascii
    "Order(bytes32 salt,address maker,uint256 positionId,uint256 price,uint256 amount,uint8 side,uint256 nonce,uint256 deadline)")).toNat ++
  Abi.word order.salt.toNat ++ addressWord order.maker ++ Abi.word order.positionId.toNat ++
  Abi.word order.price.toNat ++ Abi.word order.amount.toNat ++ Abi.word order.side.toByte ++
  Abi.word order.nonce.toNat ++ Abi.word order.deadline.toNat

def domainPreimage (crypto : Crypto) (chainId : UInt64) (verifyingContract : Address) : Bytes :=
  Abi.word (crypto.keccak256 (Abi.ascii
    "EIP712Domain(string name,string version,uint256 chainId,address verifyingContract)")).toNat ++
  Abi.word (crypto.keccak256 (Abi.ascii "Omniscient Exchange")).toNat ++
  Abi.word (crypto.keccak256 (Abi.ascii "1")).toNat ++
  Abi.word chainId.toNat ++ addressWord verifyingContract

def signingPreimage (domainSeparator structHash : Bytes32) : Bytes :=
  [0x19, 0x01] ++ Abi.word domainSeparator.toNat ++ Abi.word structHash.toNat

end Gateway

namespace Eip712

def domainPreimage (crypto : Crypto) (name version : String) (chainId : Uint256) (self : Address) : Bytes :=
  Abi.word (crypto.keccak256 (Abi.ascii
    "EIP712Domain(string name,string version,uint256 chainId,address verifyingContract)")).toNat ++
  Abi.word (crypto.keccak256 (Abi.ascii name)).toNat ++
  Abi.word (crypto.keccak256 (Abi.ascii version)).toNat ++
  Abi.word chainId.toNat ++ Abi.word self.toNat

def typedDataPreimage (domain structHash : Bytes32) : Bytes :=
  [0x19, 0x01] ++ Abi.word domain.toNat ++ Abi.word structHash.toNat

end Eip712

/-- What `_hashOrder` hands to `keccak256`, and its hash to `_hashTypedDataV4`. -/
def SettlementExchange.structPreimage (crypto : Crypto) (order : SettlementExchange.Order) : Bytes :=
  Abi.word (crypto.keccak256 (Abi.ascii SettlementExchange.orderTypeString)).toNat ++ Abi.word order.salt.toNat ++
  Abi.word order.maker.toNat ++ Abi.word order.positionId.toNat ++ Abi.word order.price.toNat ++
  Abi.word order.amount.toNat ++ Abi.word order.side.toNat ++ Abi.word order.nonce.toNat ++
  Abi.word order.deadline.toNat

structure Gateway.Hashes (crypto : Crypto) (order : Gateway.Order) (chainId : UInt64) (exchange : Address) : Prop where
  struct : Gateway.hashOrder crypto order = crypto.keccak256 (Gateway.structPreimage crypto order)
  domain : Gateway.computeDomainSeparator crypto chainId exchange =
    crypto.keccak256 (Gateway.domainPreimage crypto chainId exchange)
  signing : ∀ separator structHash, Gateway.eip712SigningHash crypto separator structHash =
    crypto.keccak256 (Gateway.signingPreimage separator structHash)

namespace SettlementExchange

variable {σ κ : Type}

/-- `_hashOrder` hashes the struct, and with the domain's hash the typed data. -/
structure Hashes (env : Env σ κ) (order : Order) : Prop where
  typedData : hashOrder env order = env.custody.crypto.keccak256 (Eip712.typedDataPreimage
    (env.custody.crypto.keccak256 (Eip712.domainPreimage env.custody.crypto "Omniscient Exchange" "1"
      env.custody.chainId env.self))
    (env.custody.crypto.keccak256 (structPreimage env.custody.crypto order)))

def Env.deployed (env : Env σ κ) (chainId : UInt64) (exchange : Address) : Env σ κ :=
  { env with
    custody := { env.custody with chainId := BitVec.ofNat 256 chainId.toNat }
    self := exchange }

end SettlementExchange

/-- The preimages of the gateway are the contract's, and so is the digest. -/
structure SameBytes {σ κ : Type} (env : SettlementExchange.Env σ κ) (order : Gateway.Order) (chainId : UInt64)
    (exchange : Address) : Prop where
  struct : Gateway.structPreimage env.custody.crypto order =
    SettlementExchange.structPreimage env.custody.crypto order.onChain
  domain : Gateway.domainPreimage env.custody.crypto chainId exchange =
    Eip712.domainPreimage env.custody.crypto "Omniscient Exchange" "1" (BitVec.ofNat 256 chainId.toNat) exchange
  signing : ∀ separator structHash,
    Gateway.signingPreimage separator structHash = Eip712.typedDataPreimage separator structHash
  digest : Gateway.eip712SigningHash env.custody.crypto
      (Gateway.computeDomainSeparator env.custody.crypto chainId exchange) (Gateway.hashOrder env.custody.crypto order) =
    SettlementExchange.hashOrder (env.deployed chainId exchange) order.onChain

theorem addressWord_eq (address : Address) : Gateway.addressWord address = Abi.word address.toNat := by
  have fits : address.toNat < 256 ^ 20 := by
    have size : 256 ^ 20 = 2 ^ 160 := by norm_num
    exact size ▸ address.isLt
  exact (Abi.bytesOf_padded fits 12).symm

theorem toByte_onChain (order : Gateway.Order) : order.onChain.side.toNat = order.side.toByte := by
  rw [Gateway.Order.onChain]
  cases order.side <;> rfl

theorem structPreimage_eq (crypto : Crypto) (order : Gateway.Order) :
    Gateway.structPreimage crypto order = SettlementExchange.structPreimage crypto order.onChain := by
  have price : order.onChain.price.toNat = order.price.toNat := SettlementExchange.toNat_word order.price
  have amount : order.onChain.amount.toNat = order.amount.toNat := SettlementExchange.toNat_word order.amount
  have nonce : order.onChain.nonce.toNat = order.nonce.toNat := SettlementExchange.toNat_word order.nonce
  have deadline : order.onChain.deadline.toNat = order.deadline.toNat := SettlementExchange.toNat_word order.deadline
  rw [Gateway.structPreimage, SettlementExchange.structPreimage, price, amount, nonce, deadline, toByte_onChain,
    addressWord_eq]
  rfl

theorem domainPreimage_eq (crypto : Crypto) (chainId : UInt64) (exchange : Address) :
    Gateway.domainPreimage crypto chainId exchange =
      Eip712.domainPreimage crypto "Omniscient Exchange" "1" (BitVec.ofNat 256 chainId.toNat) exchange := by
  rw [Gateway.domainPreimage, Eip712.domainPreimage, addressWord_eq, SettlementExchange.toNat_word]

theorem structPreimage_injective (crypto : Crypto) : Function.Injective (SettlementExchange.structPreimage crypto) := by
  intro order other same
  rw [SettlementExchange.structPreimage, SettlementExchange.structPreimage] at same
  simp only [List.append_assoc] at same
  obtain ⟨-, same⟩ := Abi.word_append_inj (le_refl 256) same
  obtain ⟨salt, same⟩ := Abi.word_append_inj (le_refl 256) same
  obtain ⟨maker, same⟩ := Abi.word_append_inj (by decide) same
  obtain ⟨positionId, same⟩ := Abi.word_append_inj (le_refl 256) same
  obtain ⟨price, same⟩ := Abi.word_append_inj (le_refl 256) same
  obtain ⟨amount, same⟩ := Abi.word_append_inj (le_refl 256) same
  obtain ⟨side, same⟩ := @Abi.word_append_inj 8 order.side.toBitVec other.side.toBitVec _ _ (by decide) same
  obtain ⟨nonce, same⟩ := Abi.word_append_inj (le_refl 256) same
  have deadline := BitVec.eq_of_toNat_eq (Abi.word_injective order.deadline.isLt other.deadline.isLt same)
  cases order
  cases other
  simp_all [UInt8.toBitVec_inj]

private theorem onChain_injective : Function.Injective Gateway.Order.onChain := by
  have word_inj {value other : UInt64} (same : BitVec.ofNat 256 value.toNat = BitVec.ofNat 256 other.toNat) :
      value = other := by
    rw [← UInt64.toNat_inj, ← SettlementExchange.toNat_word value, same, SettlementExchange.toNat_word]
  intro order other same
  have side : order.side = other.side := by
    have bytes := congrArg (fun order => order.side.toNat) same
    simp only [toByte_onChain] at bytes
    revert bytes
    cases order.side <;> cases other.side <;> decide
  have price := word_inj (congrArg SettlementExchange.Order.price same)
  have amount := word_inj (congrArg SettlementExchange.Order.amount same)
  have nonce := word_inj (congrArg SettlementExchange.Order.nonce same)
  have deadline := word_inj (congrArg SettlementExchange.Order.deadline same)
  have salt := congrArg SettlementExchange.Order.salt same
  have maker := congrArg SettlementExchange.Order.maker same
  have positionId := congrArg SettlementExchange.Order.positionId same
  cases order
  cases other
  simp_all [Gateway.Order.onChain]

/-- The gateway and the contract sign the same bytes, for every order, chain and
contract, and no two orders have the same ones. -/
theorem signs_same_bytes {σ κ : Type} (env : SettlementExchange.Env σ κ) (order : Gateway.Order) (chainId : UInt64)
    (exchange : Address) :
    Gateway.Hashes env.custody.crypto order chainId exchange ∧
    SettlementExchange.Hashes (env.deployed chainId exchange) order.onChain ∧
    SameBytes env order chainId exchange ∧
    Function.Injective (Gateway.structPreimage env.custody.crypto) := by
  have struct := structPreimage_eq env.custody.crypto
  have domain := domainPreimage_eq env.custody.crypto chainId exchange
  have gateway : Gateway.Hashes env.custody.crypto order chainId exchange := ⟨rfl, rfl, fun _ _ => rfl⟩
  have contract : SettlementExchange.Hashes (env.deployed chainId exchange) order.onChain := ⟨rfl⟩
  refine ⟨gateway, contract, ⟨struct order, domain, fun _ _ => rfl, ?_⟩, ?_⟩
  · rw [gateway.signing, gateway.struct, gateway.domain, struct, domain, contract.typedData]
    rfl
  · intro first second same
    rw [struct, struct] at same
    exact onChain_injective (structPreimage_injective _ same)

end Omniscient

import Omniscient.Proofs.MatchedSettlement
import Omniscient.Proofs.Withdrawals

/-! A signature is for one thing. Orders and withdrawals are signed as EIP-712 typed
data, and a digest is of one chain, one contract and one order or withdrawal, but for
a collision of the hash; so nothing that was signed for elsewhere is accepted here. -/

namespace Omniscient

inductive Content where
  | order (order : SettlementExchange.Order)
  | withdrawal (authorization : Custody.Authorization)

structure TypedData where
  chainId : Uint256
  contract : Address
  content : Content

namespace Content

def domainName : Content → String
  | .order _ => "Omniscient Exchange"
  | .withdrawal _ => "Omniscient Custody"

def structPreimage (crypto : Crypto) : Content → Bytes
  | .order signed => SettlementExchange.structPreimage crypto signed
  | .withdrawal authorization =>
    Abi.word (crypto.keccak256
      (Abi.ascii "Withdrawal(address account,uint256 amount,uint256 nonce,uint256 deadline)")).toNat ++
      Abi.word authorization.account.toNat ++ Abi.word authorization.amount.toNat ++ Abi.word authorization.nonce.toNat ++
      Abi.word authorization.deadline.toNat

end Content

namespace TypedData

variable {crypto : Crypto} {data other : TypedData}

def domainPreimage (crypto : Crypto) (data : TypedData) : Bytes :=
  Eip712.domainPreimage crypto data.content.domainName "1" data.chainId data.contract

def typedDataPreimage (crypto : Crypto) (data : TypedData) : Bytes :=
  Eip712.typedDataPreimage (crypto.keccak256 (data.domainPreimage crypto))
    (crypto.keccak256 (data.content.structPreimage crypto))

def digest (crypto : Crypto) (data : TypedData) : Bytes32 := crypto.keccak256 (data.typedDataPreimage crypto)

/-- What tells typed data apart: the domain's name, the domain, the struct and the typed data. -/
def preimages (crypto : Crypto) (data : TypedData) : List Bytes :=
  [Abi.ascii data.content.domainName, data.domainPreimage crypto, data.content.structPreimage crypto,
    data.typedDataPreimage crypto]

def Collides (crypto : Crypto) (data other : TypedData) : Prop :=
  ∃ first ∈ data.preimages crypto, ∃ second ∈ other.preimages crypto,
    first ≠ second ∧ crypto.keccak256 first = crypto.keccak256 second

theorem hashOrder_digest {σ κ : Type} (env : SettlementExchange.Env σ κ) (order : SettlementExchange.Order) :
    SettlementExchange.hashOrder env order = digest env.custody.crypto ⟨env.custody.chainId, env.self, .order order⟩ := rfl

theorem withdrawalDigest_digest {σ : Type} (env : Custody.Env σ) (authorization : Custody.Authorization) :
    authorization.digest env = digest env.crypto ⟨env.chainId, env.self, .withdrawal authorization⟩ := rfl

private theorem typedData_read {domain struct otherDomain otherStruct : Bytes32}
    (same : Eip712.typedDataPreimage domain struct = Eip712.typedDataPreimage otherDomain otherStruct) :
    domain = otherDomain ∧ struct = otherStruct := by
  simp only [Eip712.typedDataPreimage, List.append_assoc] at same
  have words := List.append_cancel_left same
  obtain ⟨domains, structs⟩ := Abi.word_append_inj (le_refl 256) words
  exact ⟨domains, BitVec.eq_of_toNat_eq (Abi.word_injective struct.isLt otherStruct.isLt structs)⟩

private theorem domain_read {name otherName : String} {chainId otherChain : Uint256} {self otherSelf : Address}
    (same : Eip712.domainPreimage crypto name "1" chainId self = Eip712.domainPreimage crypto otherName "1" otherChain otherSelf) :
    crypto.keccak256 (Abi.ascii name) = crypto.keccak256 (Abi.ascii otherName) ∧ chainId = otherChain ∧ self = otherSelf := by
  simp only [Eip712.domainPreimage, List.append_assoc] at same
  obtain ⟨-, same⟩ := Abi.word_append_inj (le_refl 256) same
  obtain ⟨names, same⟩ := Abi.word_append_inj (le_refl 256) same
  obtain ⟨-, same⟩ := Abi.word_append_inj (le_refl 256) same
  obtain ⟨chains, same⟩ := Abi.word_append_inj (le_refl 256) same
  have small (address : Address) : address.toNat < 2 ^ 256 :=
    address.isLt.trans (Nat.pow_lt_pow_right (by decide) (by decide))
  exact ⟨names, chains, BitVec.eq_of_toNat_eq (Abi.word_injective (small self) (small otherSelf) same)⟩

private theorem withdrawal_read {authorization other : Custody.Authorization}
    (same : Content.structPreimage crypto (.withdrawal authorization) = Content.structPreimage crypto (.withdrawal other)) :
    authorization = other := by
  simp only [Content.structPreimage, List.append_assoc] at same
  obtain ⟨-, same⟩ := Abi.word_append_inj (le_refl 256) same
  obtain ⟨account, same⟩ := Abi.word_append_inj (by decide) same
  obtain ⟨amount, same⟩ := Abi.word_append_inj (le_refl 256) same
  obtain ⟨nonce, same⟩ := Abi.word_append_inj (le_refl 256) same
  have deadline := BitVec.eq_of_toNat_eq (Abi.word_injective authorization.deadline.isLt other.deadline.isLt same)
  cases authorization
  cases other
  simp_all

theorem names_apart (order : SettlementExchange.Order) (authorization : Custody.Authorization) :
    Abi.ascii (Content.order order).domainName ≠ Abi.ascii (Content.withdrawal authorization).domainName := by
  show Abi.ascii "Omniscient Exchange" ≠ Abi.ascii "Omniscient Custody"
  decide

private theorem digest_binds (same : data.digest crypto = other.digest crypto) :
    data = other ∨ Collides crypto data other := by
  refine or_iff_not_imp_right.mpr fun free => ?_
  have apart {first second : Bytes} (one : first ∈ data.preimages crypto) (two : second ∈ other.preimages crypto)
      (hashed : crypto.keccak256 first = crypto.keccak256 second) : first = second := by
    by_contra different
    exact free ⟨first, one, second, two, different, hashed⟩
  have typed : data.typedDataPreimage crypto = other.typedDataPreimage crypto :=
    apart (by simp [preimages]) (by simp [preimages]) same
  obtain ⟨domains, structs⟩ := typedData_read typed
  have domain : data.domainPreimage crypto = other.domainPreimage crypto :=
    apart (by simp [preimages]) (by simp [preimages]) domains
  obtain ⟨names, chains, contracts⟩ := domain_read domain
  have named : Abi.ascii data.content.domainName = Abi.ascii other.content.domainName :=
    apart (by simp [preimages]) (by simp [preimages]) names
  have struct : data.content.structPreimage crypto = other.content.structPreimage crypto :=
    apart (by simp [preimages]) (by simp [preimages]) structs
  obtain ⟨chainId, contract, content⟩ := data
  obtain ⟨otherChain, otherContract, otherContent⟩ := other
  dsimp only at chains contracts named struct
  subst chains contracts
  cases content with
  | order order =>
    cases otherContent with
    | order otherOrder => rw [structPreimage_injective crypto struct]
    | withdrawal authorization => exact absurd named (names_apart order authorization)
  | withdrawal authorization =>
    cases otherContent with
    | order order => exact absurd named.symm (names_apart order authorization)
    | withdrawal otherAuthorization => rw [withdrawal_read struct]

private theorem digest_hash {first second : Crypto} (same : first.keccak256 = second.keccak256) :
    data.digest first = data.digest second := by
  obtain ⟨hash, _⟩ := first
  obtain ⟨_, _⟩ := second
  cases same
  rfl

/-- Recovery names an account only for the digest of something it has signed. -/
def Unforgeable (crypto : Crypto) (signed : Address → TypedData → Prop) : Prop :=
  ∀ digest signature account, crypto.recover digest signature = some account →
    ∃ data, signed account data ∧ data.digest crypto = digest

/-- An account has signed this, or something that collides with it. -/
def Bound (crypto : Crypto) (signed : Address → TypedData → Prop) (account : Address) (data : TypedData) : Prop :=
  signed account data ∨ ∃ other, signed account other ∧ Collides crypto other data

theorem recovered_bound {signed : Address → TypedData → Prop} (unforgeable : Unforgeable crypto signed) {signature : Bytes}
    {account : Address} (recovered : crypto.recover (data.digest crypto) signature = some account) :
    Bound crypto signed account data := by
  obtain ⟨other, signs, same⟩ := unforgeable _ _ _ recovered
  rcases digest_binds same with rfl | collides
  · exact .inl signs
  · exact .inr ⟨other, signs, collides⟩

end TypedData

namespace SettlementExchange
open Outcome
open TypedData (Unforgeable Bound)

variable {σ κ : Type} {env : Env σ κ} {record : Record σ κ} {trace : List (Record σ κ)} {start world after state : World σ κ}
  {signed : Address → TypedData → Prop}

/-- Everything that a step relied on was signed for these contracts. -/
structure SignedHere (env : Env σ κ) (signed : Address → TypedData → Prop) (record : Record σ κ) : Prop where
  orders : ∀ entry ∈ record.action.entries, entry.fill ≠ 0 →
    Bound env.custody.crypto signed entry.order.maker ⟨env.custody.chainId, env.self, .order entry.order⟩
  withdrawals : ∀ withdrawal ∈ record.requested env, ∃ signer,
    record.world.custody.hasRole .withdrawalSigner signer = true ∧
    Bound env.custody.crypto signed signer
      ⟨env.custody.chainId, env.custody.self, .withdrawal withdrawal.authorization⟩

theorem withdraw_signed {custody : Custody.Env σ} {msg : Message} {amount deadline : Uint256} {operatorSig : Bytes}
    {before paid : Custody.State σ} (unforgeable : Unforgeable custody.crypto signed)
    (ran : Custody.withdraw custody msg amount deadline operatorSig before = .ok paid) : ∃ signer,
    before.hasRole .withdrawalSigner signer = true ∧ Bound custody.crypto signed signer
      ⟨custody.chainId, custody.self, .withdrawal (Custody.Withdrawal.of before msg amount deadline operatorSig).authorization⟩ := by
  obtain ⟨-, -, -, signer, next, usdc, rest, recovered, trusted, -⟩ := Custody.withdraw_ok ran
  exact ⟨signer, trusted, TypedData.recovered_bound unforgeable recovered⟩

private theorem Recorded.signedHere (moved : Recorded env world record after)
    (unforgeable : Unforgeable env.custody.crypto signed) :
    SignedHere env signed record := by
  obtain ⟨recordWorld, action⟩ := record
  obtain ⟨rfl, moved⟩ := moved
  have noOrders {action : Action} (none : action.entries = []) : ∀ entry ∈ action.entries, entry.fill ≠ 0 →
      Bound env.custody.crypto signed entry.order.maker ⟨env.custody.chainId, env.self, .order entry.order⟩ := by
    rw [none]
    nofun
  cases moved with
  | usdc => exact ⟨noOrders rfl, nofun⟩
  | ctf => exact ⟨noOrders rfl, nofun⟩
  | @custody msg call custody external ran =>
    refine ⟨noOrders rfl, fun withdrawal member => ?_⟩
    cases call with
    | withdraw amount deadline operatorSig =>
      rw [List.mem_singleton.mp member]
      exact withdraw_signed unforgeable ran
    | _ => cases member
  | @exchange msg call _ external ran =>
    cases call with
    | settleBatch batchId orders fills isMaker =>
      refine ⟨fun entry member filled => ?_, nofun⟩
      obtain ⟨leg, -, -, -, recovered⟩ := (settleBatch_ok ran).settled entry member filled
      exact TypedData.recovered_bound unforgeable recovered
    | withdrawFees amount recipient deadline sig =>
      refine ⟨noOrders rfl, fun withdrawal member => ?_⟩
      obtain ⟨-, custody, withdrawn, -⟩ := withdrawFees_ok ran
      rw [List.mem_singleton.mp member]
      exact withdraw_signed unforgeable withdrawn
    | _ => exact ⟨noOrders rfl, nofun⟩

private theorem accepted_bound {crypto : Crypto} {config : AppConfig} {now : UInt64} {maker : Address}
    {order : Gateway.SignedOrder}
    (deployed : Deployed env crypto config) (unforgeable : Unforgeable env.custody.crypto signed)
    (valid : Gateway.validateSignedOrder crypto config now order = .ok maker) :
    Bound env.custody.crypto signed order.order.maker ⟨env.custody.chainId, env.self, .order order.order.onChain⟩ :=
  TypedData.recovered_bound unforgeable (accepted_recovers deployed valid)

/-- Nothing is accepted that was not signed for here: over every run of the two contracts,
and by the gateway that is configured for them, unless hashes collide. -/
theorem signatures_bind (unforgeable : Unforgeable env.custody.crypto signed) :
    (∀ trace state, Run (Recorded env) start trace state → ∀ record ∈ trace, SignedHere env signed record) ∧
    ∀ crypto config now order maker, Deployed env crypto config →
      Gateway.validateSignedOrder crypto config now order = .ok maker →
      Bound env.custody.crypto signed order.order.maker ⟨env.custody.chainId, env.self, .order order.order.onChain⟩ := by
  refine ⟨fun trace state run => ?_, fun crypto config now order maker deployed valid =>
    accepted_bound deployed unforgeable valid⟩
  refine run.invariant (fun trace _ => ∀ record ∈ trace, SignedHere env signed record) nofun ?_
  intro trace world record after _ before moved each member
  rcases List.mem_append.mp member with earlier | last
  · exact before each earlier
  · rw [List.mem_singleton.mp last]
    exact moved.signedHere unforgeable

namespace Sample

/-- Accounts 5 and 6 have signed one order each. -/
def signings : List (Address × TypedData) :=
  [(5, ⟨market.custody.chainId, 9, .order bid.order⟩), (6, ⟨market.custody.chainId, 9, .order ask.order⟩)]

def registry : Crypto where
  keccak256 := crypto.keccak256
  recover digest signature := (signings.find? fun signing =>
    signing.2.digest crypto = digest ∧ signature = [signing.1.toNat.toUInt8]).map Prod.fst

def signedMarket : Env Erc20.State Erc1155.State := { market with custody := { market.custody with crypto := registry } }

private theorem registry_unforgeable : Unforgeable registry fun account data => (account, data) ∈ signings := by
  intro digest signature account recovered
  simp only [registry] at recovered
  obtain ⟨⟨account, data⟩, found, rfl⟩ := Option.map_eq_some_iff.mp recovered
  have signs := List.find?_some found
  simp only [decide_eq_true_eq] at signs
  have hashes : registry.keccak256 = crypto.keccak256 := rfl
  exact ⟨data, List.mem_of_find?_eq_some found, (TypedData.digest_hash hashes).trans signs.1⟩

end Sample

/-- The hypotheses meet: on a day with two signed orders, every step relies on what was signed. -/
theorem signatures_bind_sample : ∃ trace state, Run (Recorded Sample.signedMarket) Sample.opened trace state ∧
    trace.map Record.action = Sample.day ∧
    ∀ record ∈ trace, SignedHere Sample.signedMarket (fun account data => (account, data) ∈ Sample.signings) record := by
  obtain ⟨final, traded, -⟩ := returns_iff.mp (show returns
    (each (perform Sample.signedMarket) Sample.opened Sample.day) (fun _ => true) = true by decide +kernel)
  have external : Sample.day.all (Action.external Sample.signedMarket.self) = true := by decide
  have run : Run (Step Sample.signedMarket) Sample.opened Sample.day final := Run.of_each traded
    fun world action after member once => perform_step (List.all_eq_true.mp external action member) once
  obtain ⟨trace, recorded, named, -, -⟩ := Recorded.of_run (fun _ => True) run (fun _ _ _ _ _ _ => trivial) trivial
  have unforgeable : Unforgeable Sample.signedMarket.custody.crypto
      fun account data => (account, data) ∈ Sample.signings := Sample.registry_unforgeable
  exact ⟨trace, final, recorded, named, (signatures_bind unforgeable).1 trace final recorded⟩

end SettlementExchange

end Omniscient

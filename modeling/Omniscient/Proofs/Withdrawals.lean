import Omniscient.Proofs.SignedBalances

/-! A withdrawal authorization pays once, to its account: over every run of
transactions from anyone, among them replays, reverted calls and the fee
withdrawals of the exchange. -/

namespace Omniscient.Custody
open Outcome

variable {σ : Type} {env : Env σ} {msg : Message} {state after : State σ}

structure Authorization where
  account : Address
  amount : Uint256
  nonce : Uint256
  deadline : Uint256

def Authorization.digest (env : Env σ) (authorization : Authorization) : Bytes32 :=
  withdrawalDigest env authorization.account authorization.amount authorization.nonce authorization.deadline

/-- Recovery returns a withdrawal signer only for what that signer signed. -/
def Honest (env : Env σ) (signed : Address → Authorization → Prop) (state : State σ) : Prop :=
  ∀ authorization operatorSig signer, env.crypto.recover (authorization.digest env) operatorSig = some signer →
    state.hasRole .withdrawalSigner signer = true → signed signer authorization

/-- USDC takes no fee: what the vault sends to another account arrives whole. -/
def ArrivesWhole (env : Env σ) : Prop :=
  ∀ usdc usdc' recipient amount, env.usdc.safeTransfer usdc env.self recipient amount = some usdc' →
    recipient ≠ env.self →
    (env.usdc.balanceOf usdc' recipient).toNat = (env.usdc.balanceOf usdc recipient).toNat + amount.toNat

theorem erc20_arrivesWhole {env : Env Erc20.State} (plain : env.usdc = Erc20.token) : ArrivesWhole env := by
  intro usdc usdc' recipient amount paid other
  rw [plain] at paid ⊢
  simp only [Erc20.token, Erc20.transfer] at paid ⊢
  split at paid
  · cases paid
  · exact (Erc20.move_other paid other.symm).2.1

/-- A successful `withdraw`: what was authorized, and when and with which signature it was called. -/
structure Withdrawal where
  authorization : Authorization
  timestamp : Uint256
  operatorSig : Bytes

def Withdrawal.account (withdrawal : Withdrawal) : Address := withdrawal.authorization.account

/-- The call as the vault understands it: the nonce is read from its storage. -/
def Withdrawal.of (state : State σ) (msg : Message) (amount deadline : Uint256) (operatorSig : Bytes) : Withdrawal where
  authorization := ⟨msg.sender, amount, state.withdrawalNonce msg.sender, deadline⟩
  timestamp := msg.timestamp
  operatorSig

/-- What a withdrawal from one state of the vault to the next has to satisfy. -/
structure Paid (env : Env σ) (signed : Address → Authorization → Prop) (withdrawal : Withdrawal)
    (state after : State σ) : Prop where
  inTime : withdrawal.timestamp ≤ withdrawal.authorization.deadline
  nonce : withdrawal.authorization.nonce = state.withdrawalNonce withdrawal.account
  authorized : ∃ signer, env.crypto.recover (withdrawal.authorization.digest env) withdrawal.operatorSig = some signer ∧
    state.hasRole .withdrawalSigner signer = true ∧ signed signer withdrawal.authorization
  payment : env.usdc.safeTransfer state.usdc env.self withdrawal.account withdrawal.authorization.amount = some after.usdc
  arrived : ArrivesWhole env → withdrawal.account ≠ env.self →
    (env.usdc.balanceOf after.usdc withdrawal.account).toNat =
      (env.usdc.balanceOf state.usdc withdrawal.account).toNat + withdrawal.authorization.amount.toNat
  debited : (after.balances withdrawal.account).toNat + withdrawal.authorization.amount.toNat =
    (state.balances withdrawal.account).toNat
  others : ∀ account, account ≠ withdrawal.account → after.balances account = state.balances account

private theorem withdraw_paid {amount deadline : Uint256} {operatorSig : Bytes}
    {signed : Address → Authorization → Prop}
    (honest : Honest env signed state) (ran : withdraw env msg amount deadline operatorSig state = .ok after) :
    Paid env signed (.of state msg amount deadline operatorSig) state after := by
  obtain ⟨-, -, inTime, signer, next, usdc, rest, recovered, trusted, -, moved, debited, rfl⟩ := withdraw_ok ran
  refine ⟨inTime, rfl, ⟨signer, recovered, trusted, honest _ _ _ recovered trusted⟩, moved, fun whole other => ?_, ?_, ?_⟩
  · exact whole _ _ _ _ moved other
  · simpa [Withdrawal.of, Withdrawal.account] using debited
  · intro account other
    exact Function.update_of_ne other _ _

private theorem withdraw_nonces {amount deadline : Uint256} {operatorSig : Bytes}
    (ran : withdraw env msg amount deadline operatorSig state = .ok after) :
    (after.withdrawalNonce msg.sender).toNat = (state.withdrawalNonce msg.sender).toNat + 1 ∧
      ∀ account, account ≠ msg.sender → after.withdrawalNonce account = state.withdrawalNonce account := by
  obtain ⟨-, -, -, signer, next, usdc, rest, -, -, counted, -, -, rfl⟩ := withdraw_ok ran
  refine ⟨?_, fun account other => Function.update_of_ne other _ _⟩
  simpa [State.emit] using counted

def Call.withdraws : Call → Bool
  | .withdraw .. => true
  | _ => false

theorem exec_nonces {call : Call} (other : call.withdraws = false) (ran : exec env msg call state = .ok after) :
    after.withdrawalNonce = state.withdrawalNonce := by
  by_cases kind : call.administrative = true
  · rw [(administrative_frame kind ran).1]
  · cases call with
    | withdraw => cases other
    | deposit amount =>
      obtain ⟨-, -, usdc, received, newBalance, -, -, -, -, rfl⟩ := deposit_ok ran
      rfl
    | executeForcedWithdrawal recipient =>
      obtain ⟨-, -, -, usdc, -, rfl⟩ := executeForcedWithdrawal_ok ran
      rfl
    | applyNetDeltas batchId deltas =>
      obtain ⟨-, -, -, -, -, framed⟩ := applyNetDeltas_ok ran
      rw [framed]
    | _ => exact absurd rfl kind

private theorem deploy_nonces {token admin : Address} {threshold now : Uint256} {usdc : σ}
    (deployed : deploy token admin threshold now usdc = .ok state) : state.withdrawalNonce = fun _ => 0 := by
  simp only [deploy, bind_ok, pure_ok] at deployed
  obtain ⟨-, -, -, -, rfl⟩ := deployed
  rfl

end Omniscient.Custody

namespace Omniscient.SettlementExchange
open Outcome
open Custody (Withdrawal Paid)

variable {σ κ : Type} {env : Env σ κ} {record : Record σ κ} {trace : List (Record σ κ)} {start world after state : World σ κ}

/-- A transaction by anyone, which a revert undoes, or a change that others make
to a token contract. -/
inductive Transacts (env : Env σ κ) : World σ κ → Record σ κ → World σ κ → Prop where
  | settled {world action after} : perform env world action = .ok after → Transacts env world ⟨world, action⟩ after
  | reverted {world action error} : perform env world action = .error error → Transacts env world ⟨world, action⟩ world
  | usdc {world usdc} : Transacts env world ⟨world, .others⟩ { world with custody := { world.custody with usdc } }
  | ctf {world ctf} : Transacts env world ⟨world, .others⟩ { world with ctf }

/-- The withdrawal a transaction asks for: its sender's own, or the exchange's for the fees. -/
def Record.requested (env : Env σ κ) (record : Record σ κ) : List Withdrawal :=
  match record.action with
  | .custody msg (.withdraw amount deadline operatorSig) => [.of record.world.custody msg amount deadline operatorSig]
  | .exchange msg (.withdrawFees amount _ deadline sig) =>
    [.of record.world.custody ⟨env.self, msg.timestamp⟩ amount deadline sig]
  | _ => []

/-- The withdrawal a transaction makes, if it goes through. -/
def Record.withdrawals (env : Env σ κ) (record : Record σ κ) : List Withdrawal :=
  if returns (perform env record.world record.action) (fun _ => true) then record.requested env else []

def withdrawals (env : Env σ κ) (trace : List (Record σ κ)) : List Withdrawal := trace.flatMap (Record.withdrawals env)

theorem Record.withdrawals_settled {action : Action} (ran : perform env world action = .ok after) :
    Record.withdrawals env ⟨world, action⟩ = Record.requested env ⟨world, action⟩ := by
  rw [Record.withdrawals, if_pos (returns_iff.mpr ⟨after, ran, rfl⟩)]

theorem Record.withdrawals_reverted {action : Action} {error : Error} (ran : perform env world action = .error error) :
    Record.withdrawals env ⟨world, action⟩ = [] := by
  simp [Record.withdrawals, ran, returns]

theorem settleBatch_custody {msg : Message} {batchId : Bytes32} {orders : List SignedOrder} {fills : List Uint256}
    {isMaker : List Bool} (ran : settleBatch env msg batchId orders fills isMaker world = .ok after) :
    ∃ deltas, Custody.exec env.custody ⟨env.self, msg.timestamp⟩ (.applyNetDeltas batchId deltas) world.custody =
      .ok after.custody := by
  simp only [settleBatch, bind_ok, mapError_ok, pure_ok] at ran
  obtain ⟨-, -, -, -, -, -, -, -, acc, -, -, -, deltas, -, custody, applied, ctf, -, rfl⟩ := ran
  exact ⟨_, applied⟩

/-- A transaction that goes through either makes one withdrawal, behind which only
the token may have moved again, or leaves every nonce alone. -/
theorem perform_withdraws {action : Action} (ran : perform env world action = .ok after) :
    (Record.requested env ⟨world, action⟩ = [] ∧ after.custody.withdrawalNonce = world.custody.withdrawalNonce) ∨
    ∃ msg amount deadline operatorSig paid,
      Record.requested env ⟨world, action⟩ = [.of world.custody msg amount deadline operatorSig] ∧
      Custody.withdraw env.custody msg amount deadline operatorSig world.custody = .ok paid ∧
      after.custody = { paid with usdc := after.custody.usdc } := by
  cases action with
  | others =>
    cases ran
    exact .inl ⟨rfl, rfl⟩
  | custody msg call =>
    simp only [perform, bind_ok, mapError_ok, pure_ok] at ran
    obtain ⟨custody, called, rfl⟩ := ran
    cases kind : call.withdraws with
    | false =>
      refine .inl ⟨?_, Custody.exec_nonces kind called⟩
      cases call <;> first | rfl | cases kind
    | true =>
      cases call with
      | withdraw amount deadline operatorSig => exact .inr ⟨msg, amount, deadline, operatorSig, custody, rfl, called, rfl⟩
      | _ => cases kind
  | exchange msg call =>
    by_cases storage : call.storageOnly = true
    · obtain ⟨custody, -, -⟩ := storageOnly_ok storage ran
      refine .inl ⟨?_, by rw [custody]⟩
      cases call <;> first | rfl | cases storage
    · cases call with
      | settleBatch batchId orders fills isMaker =>
        obtain ⟨deltas, applied⟩ := settleBatch_custody ran
        exact .inl ⟨rfl, Custody.exec_nonces rfl applied⟩
      | withdrawFees amount recipient deadline sig =>
        obtain ⟨-, custody, withdrawn, forwarded, -, -⟩ := withdrawFees_ok ran
        exact .inr ⟨⟨env.self, msg.timestamp⟩, amount, deadline, sig, custody, rfl, withdrawn, forwarded⟩
      | _ => exact absurd rfl storage

def noncesOf (account : Address) (withdrawals : List Withdrawal) : List Nat :=
  (withdrawals.filter fun withdrawal => withdrawal.account = account).map fun withdrawal =>
    withdrawal.authorization.nonce.toNat

theorem Transacts.nonces (moved : Transacts env world record after) (account : Address) :
    (noncesOf account (record.withdrawals env) = [] ∧
      (after.custody.withdrawalNonce account).toNat = (world.custody.withdrawalNonce account).toNat) ∨
    (noncesOf account (record.withdrawals env) = [(world.custody.withdrawalNonce account).toNat] ∧
      (after.custody.withdrawalNonce account).toNat = (world.custody.withdrawalNonce account).toNat + 1) := by
  cases moved with
  | reverted failed =>
    rw [Record.withdrawals_reverted failed]
    exact .inl ⟨rfl, rfl⟩
  | usdc =>
    rw [@Record.withdrawals_settled _ _ env world world .others rfl]
    exact .inl ⟨rfl, rfl⟩
  | ctf =>
    rw [@Record.withdrawals_settled _ _ env world world .others rfl]
    exact .inl ⟨rfl, rfl⟩
  | settled ran =>
    rw [Record.withdrawals_settled ran]
    rcases perform_withdraws ran with ⟨none, same⟩ | ⟨msg, amount, deadline, operatorSig, paid, asked, called, left⟩
    · rw [none, same]
      exact .inl ⟨rfl, rfl⟩
    · obtain ⟨own, others⟩ := Custody.withdraw_nonces called
      rw [asked, left]
      by_cases same : msg.sender = account
      · subst same
        refine .inr ⟨?_, own⟩
        simp [noncesOf, Withdrawal.of, Withdrawal.account]
      · refine .inl ⟨?_, congrArg BitVec.toNat (others account (Ne.symm same))⟩
        simp [noncesOf, Withdrawal.of, Withdrawal.account, same]

private theorem nonces_run (fresh : start.custody.withdrawalNonce = fun _ => 0)
    (run : Run (Transacts env) start trace state)
    (account : Address) :
    noncesOf account (withdrawals env trace) = List.range (state.custody.withdrawalNonce account).toNat := by
  have handed := run.numbered (fun world => (world.custody.withdrawalNonce account).toNat)
    (fun record => noncesOf account (record.withdrawals env)) (by rw [fresh]; rfl) fun world record after moved =>
      moved.nonces account
  rw [← handed]
  simp only [noncesOf, withdrawals, List.filter_flatMap, List.map_flatMap]

theorem noncesOf_cons (account : Address) (withdrawal : Withdrawal) (rest : List Withdrawal) :
    noncesOf account (withdrawal :: rest) =
      if withdrawal.account = account then withdrawal.authorization.nonce.toNat :: noncesOf account rest
      else noncesOf account rest := by
  unfold noncesOf
  split <;> simp_all

private theorem pairs_nodup (list : List Withdrawal) (once : ∀ account, (noncesOf account list).Nodup) :
    (list.map fun withdrawal => (withdrawal.account, withdrawal.authorization.nonce)).Nodup := by
  induction list with
  | nil => exact List.nodup_nil
  | cons withdrawal rest ih =>
    refine List.nodup_cons.mpr ⟨fun again => ?_, ih fun account => ?_⟩
    · obtain ⟨other, member, same⟩ := List.mem_map.mp again
      obtain ⟨account, nonce⟩ := Prod.mk.inj same
      have own := once withdrawal.account
      rw [noncesOf_cons, if_pos rfl] at own
      refine (List.nodup_cons.mp own).1 (List.mem_map.mpr ⟨other, ?_, congrArg BitVec.toNat nonce⟩)
      exact List.mem_filter.mpr ⟨member, decide_eq_true account⟩
    · have all := once account
      rw [noncesOf_cons] at all
      split at all
      · exact (List.nodup_cons.mp all).2
      · exact all

/-- A withdrawal authorization pays once, to its account: whatever was sent to the
vault and the exchange, each successful withdrawal used the next nonce of its
account and a signature over it, and moved exactly the amount signed. -/
theorem withdrawals_pay_once {token admin : Address} {threshold now : Uint256} {usdc : σ}
    (deployed : Custody.deploy token admin threshold now usdc = .ok start.custody)
    (run : Run (Transacts env) start trace state) (signed : Address → Custody.Authorization → Prop)
    (honest : ∀ record ∈ trace, Custody.Honest env.custody signed record.world.custody) :
    (∀ account, ((withdrawals env trace).filter fun withdrawal => withdrawal.account = account).length =
      (state.custody.withdrawalNonce account).toNat) ∧
    (∀ account, noncesOf account (withdrawals env trace) = List.range (state.custody.withdrawalNonce account).toNat) ∧
    ((withdrawals env trace).map fun withdrawal => (withdrawal.account, withdrawal.authorization.nonce)).Nodup ∧
    ∀ record ∈ trace, ∀ withdrawal ∈ record.withdrawals env, ∃ paid after,
      Custody.withdraw env.custody ⟨withdrawal.account, withdrawal.timestamp⟩ withdrawal.authorization.amount
        withdrawal.authorization.deadline withdrawal.operatorSig record.world.custody = .ok paid ∧
      Paid env.custody signed withdrawal record.world.custody paid ∧
      perform env record.world record.action = .ok after ∧
      after.custody = { paid with usdc := after.custody.usdc } := by
  have ordered := nonces_run (Custody.deploy_nonces deployed) run
  refine ⟨fun account => ?_, ordered, pairs_nodup _ fun account => ?_, fun record member withdrawal made => ?_⟩
  · have count := congrArg List.length (ordered account)
    rwa [noncesOf, List.length_map, List.length_range] at count
  · rw [ordered]
    exact List.nodup_range
  · obtain ⟨world, action⟩ := record
    cases ran : perform env world action with
    | error error =>
      rw [Record.withdrawals_reverted ran] at made
      cases made
    | ok after =>
      rw [Record.withdrawals_settled ran] at made
      rcases perform_withdraws ran with ⟨none, -⟩ | ⟨msg, amount, deadline, operatorSig, paid, asked, called, left⟩
      · rw [none] at made
        cases made
      · rw [asked] at made
        cases List.mem_singleton.mp made
        exact ⟨paid, after, called, Custody.withdraw_paid (honest _ member) called, rfl, left⟩

namespace Sample

def transact (env : Env σ κ) (world : World σ κ) (action : Action) : World σ κ :=
  match perform env world action with
  | .ok after => after
  | .error _ => world

def records (env : Env σ κ) : World σ κ → List Action → List (Record σ κ)
  | _, [] => []
  | world, action :: actions => ⟨world, action⟩ :: records env (transact env world action) actions

private theorem transacted (actions : List Action) :
    Run (Transacts env) world (records env world actions) (actions.foldl (transact env) world) := by
  induction actions generalizing world with
  | nil => exact .start
  | cons action actions ih =>
    have once : Transacts env world ⟨world, action⟩ (transact env world action) := by
      unfold transact
      split
      next ran => exact .settled ran
      next failed => exact .reverted failed
    exact (Run.start.next once).append ih

def authorizations : List Custody.Authorization := [⟨5, 20, 0, 5000⟩, ⟨9, 1, 0, 5000⟩]

/-- The markets of the samples, where signature 8 is valid on these digests alone. -/
def signing : Env Erc20.State Erc1155.State :=
  { market with custody := { market.custody with crypto := { market.custody.crypto with
    recover := fun digest signature =>
      if signature = [8] ∧ digest ∈ authorizations.map (Custody.Authorization.digest market.custody) then some 8 else none } } }

def Signed (signer : Address) (authorization : Custody.Authorization) : Prop :=
  signer = 8 ∧ authorization.digest market.custody ∈ authorizations.map (Custody.Authorization.digest market.custody)

private theorem signing_honest (state : Custody.State Erc20.State) : Custody.Honest signing.custody Signed state := by
  intro authorization operatorSig signer recovered _
  have same : authorization.digest signing.custody = authorization.digest market.custody := by
    simp only [Custody.Authorization.digest, Custody.withdrawalDigest, Eip712.hashTypedData, Eip712.domainSeparator, signing]
  rw [same] at recovered
  simp only [signing, Option.ite_none_right_eq_some] at recovered
  obtain ⟨⟨-, listed⟩, eight⟩ := recovered
  exact ⟨(Option.some.inj eight).symm, listed⟩

def withdrawing : List Action := [
  .custody ⟨1, 2000⟩ (.grantRole .withdrawalSigner 8),
  .custody ⟨5, 2000⟩ (.deposit 50),
  .custody ⟨9, 2000⟩ (.deposit 10),
  .custody ⟨5, 2001⟩ (.withdraw 20 5000 [8]),
  .custody ⟨5, 2002⟩ (.withdraw 20 5000 [8]),
  .exchange ⟨1, 2003⟩ (.withdrawFees 1 3 5000 [8])]

end Sample

/-- The hypotheses meet: of the three calls the replay reverts, and each account is at nonce 1. -/
theorem withdrawals_pay_once_sample : ∃ trace state, Run (Transacts Sample.signing) Sample.opened trace state ∧
    (withdrawals Sample.signing trace).map Withdrawal.account = [5, 9] ∧
    state.custody.balances 5 = 30 ∧ state.custody.balances 9 = 9 ∧
    noncesOf 5 (withdrawals Sample.signing trace) = [0] ∧
    ((withdrawals Sample.signing trace).filter fun withdrawal => withdrawal.account = 5).length = 1 := by
  have run := @Sample.transacted _ _ Sample.signing Sample.opened Sample.withdrawing
  obtain ⟨paid, five, nine, nonce⟩ :
      (withdrawals Sample.signing (Sample.records Sample.signing Sample.opened Sample.withdrawing)).map
        Withdrawal.account = [5, 9] ∧
      (Sample.withdrawing.foldl (Sample.transact Sample.signing) Sample.opened).custody.balances 5 = 30 ∧
      (Sample.withdrawing.foldl (Sample.transact Sample.signing) Sample.opened).custody.balances 9 = 9 ∧
      (Sample.withdrawing.foldl (Sample.transact Sample.signing) Sample.opened).custody.withdrawalNonce 5 = 1 := by
    decide +kernel
  have deployed : Custody.deploy 3 1 86400 1000 Sample.opened.custody.usdc = .ok Sample.opened.custody := rfl
  obtain ⟨counts, ordered, -⟩ := withdrawals_pay_once deployed run Sample.Signed fun record _ =>
    Sample.signing_honest record.world.custody
  refine ⟨_, _, run, paid, five, nine, ?_, ?_⟩
  · rw [ordered 5, nonce]
    rfl
  · rw [counts 5, nonce]
    rfl

end Omniscient.SettlementExchange

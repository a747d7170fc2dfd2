import Omniscient.Proofs.SettlementLegs

/-! Every balance is justified by signatures. The balance of an account is what
it deposited and withdrew, plus the exact legs of the fills of orders it signed;
the exchange keeps what is left over. -/

namespace Omniscient.SettlementExchange
open Outcome

variable {σ κ : Type} {env : Env σ κ}

structure Record (σ κ : Type) where
  world : World σ κ
  action : Action

def Recorded (env : Env σ κ) (world : World σ κ) (record : Record σ κ) (after : World σ κ) : Prop :=
  record.world = world ∧ Step env world record.action after

variable {record : Record σ κ} {trace : List (Record σ κ)} {start world after state : World σ κ}

def Record.rates (record : Record σ κ) : Rates := record.world.exchange.rates

def signer (env : Env σ κ) (entry : Entry) : Option Address :=
  env.custody.crypto.recover (hashOrder env entry.order) entry.signed.signature

/-- The legs, at the rates of the moment, of the filled orders an account signed. -/
def Record.signedLegs (env : Env σ κ) (account : Address) (record : Record σ κ) : Int :=
  (record.action.entries.map fun entry =>
    if entry.fill ≠ 0 ∧ signer env entry = some account then exactLeg record.rates entry else 0).sum

def Record.batchNet (record : Record σ κ) : Int :=
  -(record.action.entries.map fun entry => if entry.fill ≠ 0 then exactLeg record.rates entry else 0).sum

def Record.feesWithdrawn (record : Record σ κ) : Int :=
  match record.action with
  | .exchange _ (.withdrawFees amount ..) => amount.toNat
  | _ => 0

/-- The exchange alone settles, and signs no order itself. -/
structure Regular (env : Env σ κ) (record : Record σ κ) : Prop where
  onlyExchange : ∀ account, record.world.custody.hasRole .settlement account = true → account = env.self
  makers : ∀ entry ∈ record.action.entries, entry.order.maker ≠ env.self

def Capped (world : World σ κ) : Prop :=
  world.exchange.takerFeeBps ≤ 1000 ∧ world.exchange.makerRebateBps ≤ 1000

structure Justified (env : Env σ κ) (record : Record σ κ) (world after : World σ κ) : Prop where
  others : ∀ account, account ≠ env.self →
    ((after.custody.balances account).toNat : Int) - Custody.flow after.custody.events account =
      (world.custody.balances account).toNat - Custody.flow world.custody.events account +
        record.signedLegs env account
  own : ((after.custody.balances env.self).toNat : Int) =
    (world.custody.balances env.self).toNat + record.batchNet - record.feesWithdrawn
  net : 0 ≤ record.batchNet
  capped : Capped after

theorem Justified.quiet (none : record.action.entries = []) (free : record.feesWithdrawn = 0)
    (ledger : ∀ account, ((after.custody.balances account).toNat : Int) - Custody.flow after.custody.events account =
      (world.custody.balances account).toNat - Custody.flow world.custody.events account)
    (own : Custody.flow after.custody.events env.self = Custody.flow world.custody.events env.self)
    (capped : Capped after) : Justified env record world after := by
  refine ⟨fun account _ => ?_, ?_, ?_, capped⟩
  · simp [Record.signedLegs, none, ledger account]
  · have same := ledger env.self
    simp only [Record.batchNet, none, free, List.map_nil, List.sum_nil]
    omega
  · simp [Record.batchNet, none]

private theorem custody_justified {msg : Message} {call : Custody.Call} {custody : Custody.State σ}
    (external : msg.sender ≠ env.self) (ran : Custody.exec env.custody msg call world.custody = .ok custody)
    (regular : Regular env ⟨world, .custody msg call⟩) (capped : Capped world) :
    Justified env ⟨world, .custody msg call⟩ world { world with custody } := by
  have none : call.deltas = [] := by
    cases call with
    | applyNetDeltas batchId deltas =>
      obtain ⟨-, trusted, -⟩ := Custody.applyNetDeltas_ok ran
      exact absurd (regular.onlyExchange _ trusted) external
    | _ => rfl
  refine .quiet rfl rfl (fun account => ?_) (Custody.exec_flow_other ran external) capped
  have ledger := Custody.exec_ledger ran account
  rwa [none, Postings.net_nil, add_zero] at ledger

private theorem withdrawFees_justified {msg : Message} {amount deadline : Uint256} {recipient : Address} {sig : Bytes}
    (ran : withdrawFees env msg amount recipient deadline sig world = .ok after) (capped : Capped world) :
    Justified env ⟨world, .exchange msg (.withdrawFees amount recipient deadline sig)⟩ world after := by
  obtain ⟨-, custody, withdrawn, paid, exchange, -⟩ := withdrawFees_ok ran
  have balances : after.custody.balances = custody.balances := by rw [paid]
  have events : after.custody.events = custody.events := by rw [paid]
  refine ⟨fun account other => ?_, ?_, by simp [Record.batchNet, Action.entries], by rwa [Capped, exchange]⟩
  · have ledger := Custody.exec_ledger withdrawn account
    rw [balances, events]
    simpa [Record.signedLegs, Action.entries, Custody.Call.deltas] using ledger
  · obtain ⟨-, -, -, _, next, usdc, rest, -, -, -, -, debited, rfl⟩ := Custody.withdraw_ok withdrawn
    rw [balances]
    dsimp only at debited
    simp only [Record.batchNet, Action.entries, Record.feesWithdrawn, Custody.emit_balances,
      Custody.setBalance_balances, Function.update_self, List.map_nil, List.sum_nil]
    omega

theorem settleBatch_justified {msg : Message} {batchId : Bytes32} {orders : List SignedOrder} {fills : List Uint256}
    {isMaker : List Bool} (ran : settleBatch env msg batchId orders fills isMaker world = .ok after)
    (makers : ∀ entry ∈ entriesOf orders fills isMaker, entry.order.maker ≠ env.self) (capped : Capped world) :
    Justified env ⟨world, .exchange msg (.settleBatch batchId orders fills isMaker)⟩ world after := by
  have batch := settleBatch_ok ran
  have booked (entry : Entry) (member : entry ∈ entriesOf orders fills isMaker) :
      entry.booked world.exchange = if entry.fill ≠ 0 then exactLeg world.exchange.rates entry else 0 := by
    by_cases empty : entry.fill = 0
    · simp [Entry.booked, empty]
    · obtain ⟨leg, owed, -⟩ := batch.settled entry member empty
      rw [Entry.booked, if_neg empty, owed, if_pos empty]
      exact leg_exact capped.1 capped.2 owed
  have net : ((entriesOf orders fills isMaker).map (Entry.booked world.exchange)).sum =
      -Record.batchNet ⟨world, .exchange msg (.settleBatch batchId orders fills isMaker)⟩ := by
    rw [Record.batchNet, neg_neg]
    exact congrArg List.sum (List.map_congr_left booked)
  have legs (account : Address) : ((entriesOf orders fills isMaker).map fun entry =>
      if entry.order.maker = account then entry.booked world.exchange else 0).sum =
      Record.signedLegs env account ⟨world, .exchange msg (.settleBatch batchId orders fills isMaker)⟩ := by
    refine congrArg List.sum (List.map_congr_left fun entry member => ?_)
    rw [booked entry member]
    by_cases empty : entry.fill = 0
    · simp [empty]
    · obtain ⟨-, -, -, -, signed⟩ := batch.settled entry member empty
      have who : signer env entry = some entry.order.maker := signed
      simp only [who, Option.some.injEq, if_pos empty]
      exact if_congr (and_iff_right empty).symm rfl rfl
  have ownNone : ((entriesOf orders fills isMaker).map fun entry =>
      if entry.order.maker = env.self then entry.booked world.exchange else 0).sum = 0 := by
    apply List.sum_eq_zero
    intro amount listed
    obtain ⟨entry, member, rfl⟩ := List.mem_map.mp listed
    exact if_neg (makers entry member)
  refine ⟨fun account other => ?_, ?_, ?_, ?_⟩
  · have moved := batch.balances account
    rw [if_neg (Ne.symm other), legs account] at moved
    rw [batch.flow account]
    omega
  · have moved := batch.balances env.self
    rw [if_pos rfl, ownNone, net] at moved
    simp only [Record.feesWithdrawn]
    omega
  · have positive := batch.net
    omega
  · rw [Capped, batch.exchange]
    exact capped

private theorem Recorded.justified (moved : Recorded env world record after) (regular : Regular env record)
    (capped : Capped world) : Justified env record world after := by
  obtain ⟨recordWorld, action⟩ := record
  obtain ⟨rfl, moved⟩ := moved
  cases moved with
  | custody external ran => exact custody_justified external ran regular capped
  | usdc => exact .quiet rfl rfl (fun _ => rfl) rfl capped
  | ctf => exact .quiet rfl rfl (fun _ => rfl) rfl capped
  | @exchange msg call _ external ran =>
    by_cases kind : call.storageOnly = true
    · obtain ⟨custody, -, kept⟩ := storageOnly_ok kind ran
      have free : Record.feesWithdrawn ⟨recordWorld, .exchange msg call⟩ = 0 := by
        cases call <;> first | rfl | cases kind
      refine .quiet (Action.entries_of_storageOnly kind) free (fun _ => by rw [custody]) (by rw [custody]) ?_
      exact ⟨kept.takerFee capped.1, kept.makerRebate capped.2⟩
    · cases call with
      | settleBatch => exact settleBatch_justified ran regular.makers capped
      | withdrawFees => exact withdrawFees_justified ran capped
      | _ => exact absurd rfl kind

structure Balanced (env : Env σ κ) (start : World σ κ) (trace : List (Record σ κ)) (state : World σ κ) : Prop where
  capped : Capped state
  others : ∀ account, account ≠ env.self →
    ((state.custody.balances account).toNat : Int) - Custody.flow state.custody.events account =
      (start.custody.balances account).toNat - Custody.flow start.custody.events account +
        (trace.map (Record.signedLegs env account)).sum
  own : ((state.custody.balances env.self).toNat : Int) = (start.custody.balances env.self).toNat +
    (trace.map Record.batchNet).sum - (trace.map Record.feesWithdrawn).sum
  nets : ∀ record ∈ trace, 0 ≤ record.batchNet

theorem Balanced.next (before : Balanced env start trace world) (step : Justified env record world after) :
    Balanced env start (trace ++ [record]) after := by
  refine ⟨step.capped, fun account other => ?_, ?_, fun each member => ?_⟩
  · rw [step.others account other, before.others account other]
    simp [add_assoc]
  · rw [step.own, before.own]
    simp only [List.map_append, List.sum_append, List.map_cons, List.map_nil, List.sum_cons, List.sum_nil]
    omega
  · rcases List.mem_append.mp member with earlier | last
    · exact before.nets each earlier
    · rw [List.mem_singleton.mp last]
      exact step.net

private theorem balanced_run (initial : Capped start) (run : Run (Recorded env) start trace state)
    (regular : ∀ record ∈ trace, Regular env record) : Balanced env start trace state := by
  refine run.invariant (fun trace state => (∀ record ∈ trace, Regular env record) → Balanced env start trace state)
    (fun _ => ?_) ?_ regular
  · exact ⟨initial, by simp, by simp, by simp⟩
  · intro trace world record after _ before moved regular
    have balanced := before fun record member => regular record (by simp [member])
    exact balanced.next (moved.justified (regular record (by simp)) balanced.capped)

/-- Every balance is justified by signatures: over every run from deployment in
which the exchange alone settles and is no order's maker. -/
theorem signed_balances {token admin deployer : Address} {threshold now : Uint256} {usdc : σ}
    (custody : Custody.deploy token admin threshold now usdc = .ok start.custody)
    (exchange : start.exchange = deploy deployer) (run : Run (Recorded env) start trace state)
    (regular : ∀ record ∈ trace, Regular env record) :
    (∀ account, account ≠ env.self → ((state.custody.balances account).toNat : Int) =
      Custody.flow state.custody.events account + (trace.map (Record.signedLegs env account)).sum) ∧
    ((state.custody.balances env.self).toNat : Int) =
      (trace.map Record.batchNet).sum - (trace.map Record.feesWithdrawn).sum ∧
    (∀ record ∈ trace, 0 ≤ record.batchNet) ∧
    ∀ msg batchId orders fills isMaker after,
      exec env msg (.settleBatch batchId orders fills isMaker) state = .ok after →
      (∀ entry ∈ entriesOf orders fills isMaker, entry.order.maker ≠ env.self) →
      state.custody.balances env.self ≤ after.custody.balances env.self := by
  have fresh : Capped start := by
    have zero : (0 : Uint256) ≤ 1000 := by decide
    rw [Capped, exchange]
    exact ⟨zero, zero⟩
  obtain ⟨-, events, empty⟩ := Custody.deploy_ok custody
  have balanced := balanced_run fresh run regular
  have nothing : ((0 : Uint256).toNat : Int) = 0 := by decide
  refine ⟨fun account other => ?_, ?_, balanced.nets, ?_⟩
  · have ledger := balanced.others account other
    rw [events, empty, Custody.flow_nil, nothing] at ledger
    omega
  · rw [balanced.own, empty, nothing, zero_add]
  · intro msg batchId orders fills isMaker after ran makers
    have settled := settleBatch_justified ran makers balanced.capped
    have own := settled.own
    have net := settled.net
    rw [BitVec.le_def]
    simp only [Record.feesWithdrawn] at own
    omega

theorem Recorded.of_run (kept : World σ κ → Prop) {actions : List Action} (run : Run (Step env) start actions state)
    (keeps : ∀ world action after, action ∈ actions → Step env world action after → kept world → kept after)
    (initial : kept start) :
    ∃ trace, Run (Recorded env) start trace state ∧ trace.map Record.action = actions ∧
      (∀ record ∈ trace, kept record.world) ∧ kept state := by
  refine run.invariant (fun actions state => (∀ world action after, action ∈ actions → Step env world action after →
    kept world → kept after) → ∃ trace, Run (Recorded env) start trace state ∧ trace.map Record.action = actions ∧
      (∀ record ∈ trace, kept record.world) ∧ kept state) (fun _ => ?_) ?_ keeps
  · exact ⟨[], .start, rfl, by simp, initial⟩
  · intro actions world action after _ before moved keeps
    obtain ⟨trace, run, named, all, now⟩ := before fun world action after member =>
      keeps world action after (by simp [member])
    refine ⟨trace ++ [⟨world, action⟩], run.next ⟨rfl, moved⟩, by simp [named], ?_,
      keeps world action after (by simp) moved now⟩
    intro record member
    rcases List.mem_append.mp member with earlier | last
    · exact all record earlier
    · rw [List.mem_singleton.mp last]
      exact now

namespace Sample

def Settlers (world : World Erc20.State Erc1155.State) : Prop :=
  ∀ account, world.custody.hasRole .settlement account = true → account = market.self

theorem settlers_kept (world : World Erc20.State Erc1155.State) (action : Action)
    (after : World Erc20.State Erc1155.State) (member : action ∈ day) (moved : Step market world action after)
    (alone : Settlers world) : Settlers after := by
  simp only [day, opening, List.mem_append, List.mem_cons, List.not_mem_nil, or_false] at member
  rcases member with (rfl | rfl | rfl | rfl) | rfl
  · cases moved with
    | custody _ ran =>
      simp only [Custody.exec, Custody.grantRole, bind_ok, pure_ok] at ran
      obtain ⟨-, -, rfl⟩ := ran
      intro account granted
      by_contra other
      simp only [Custody.State.setRole, Function.update_self] at granted
      rw [Function.update_of_ne (show account ≠ 9 from other)] at granted
      exact other (alone account granted)
  · cases moved with
    | custody _ ran =>
      obtain ⟨-, -, usdc, received, newBalance, -, -, -, -, rfl⟩ := Custody.deposit_ok ran
      exact alone
  · cases moved with
    | exchange _ ran =>
      rw [Settlers, (storageOnly_ok rfl ran).1]
      exact alone
  · cases moved with
    | exchange _ ran =>
      rw [Settlers, (storageOnly_ok rfl ran).1]
      exact alone
  · cases moved with
    | exchange _ ran =>
      rw [Settlers, (settleBatch_ok ran).roles]
      exact alone

end Sample

/-- The hypotheses meet: a day on which account 6 sells ten shares. -/
theorem signed_balances_sample : ∃ trace state, Run (Recorded Sample.market) Sample.opened trace state ∧
    trace.map Record.action = Sample.day ∧
    ((state.custody.balances 6).toNat : Int) =
      Custody.flow state.custody.events 6 + (trace.map (Record.signedLegs Sample.market 6)).sum := by
  obtain ⟨final, traded, -⟩ := returns_iff.mp (show returns
    (each (perform Sample.market) Sample.opened Sample.day) (fun _ => true) = true by decide +kernel)
  have run := Sample.performed traded (by decide)
  obtain ⟨trace, recorded, named, alone, -⟩ := Recorded.of_run Sample.Settlers run Sample.settlers_kept
    (fun account granted => by simp [Sample.opened, Custody.Sample.start] at granted)
  have regular (record : Record Erc20.State Erc1155.State) (member : record ∈ trace) :
      Regular Sample.market record := by
    refine ⟨alone record member, ?_⟩
    have listed : record.action ∈ Sample.day := named ▸ List.mem_map_of_mem member
    have makers : ∀ action ∈ Sample.day, ∀ entry ∈ action.entries, entry.order.maker ≠ Sample.market.self := by
      decide
    exact makers record.action listed
  have deployed : Custody.deploy 3 1 86400 1000 Sample.opened.custody.usdc = .ok Sample.opened.custody := rfl
  exact ⟨trace, final, recorded, named, (signed_balances deployed rfl recorded regular).1 6 (by decide)⟩

end Omniscient.SettlementExchange

import Omniscient.Proofs.Deposits
import Omniscient.Proofs.IdentifierGrammar
import Omniscient.Transport

/-! What becomes of the reconcile calls. The route reads its block number under another
name than the one it is sent under, so no call gets past its extractor. A call that did
would be one of the deliveries that the deposits are counted with. -/

namespace Omniscient.Indexer
open Outcome Gateway

private theorem reconcileBody_unread (decimal : Int → Json) (key : BalanceKey) (row : BalanceRow) :
    Api.ReconcilePayload.deserialize (reconcileBody decimal key row) = .error (.missingField "blockNumber") := by
  have missing : Json.field [("user", .string key.userAddress.display), ("deposit", decimal row.availableAmount),
      ("block_number", .number row.finalizedBlockNumber)] "blockNumber" = .error (.missingField "blockNumber") := rfl
  rw [Api.ReconcilePayload.deserialize, reconcileBody, Json.members, List.mapM_cons, List.mapM_cons, List.mapM_cons, missing]
  rfl

def Transmission.hears (response : Api.Response) : Transmission → Option Api.Response
  | .served _ true => some response
  | _ => none

theorem post_cons (server : Ending → Database → Api.Response × Database) (db : Database) (transmission : Transmission)
    (transmissions : List Transmission) : post server db (transmission :: transmissions) =
      if (transmission.run server db).1.any Api.Response.isSuccess then
        ([(transmission.run server db).1], (transmission.run server db).2)
      else
        ((transmission.run server db).1 :: (post server (transmission.run server db).2 transmissions).1,
          (post server (transmission.run server db).2 transmissions).2) := rfl

private theorem post_refused {server : Ending → Database → Api.Response × Database} {response : Api.Response}
    (refuses : ∀ ending db, server ending db = (response, db)) (failure : response.isSuccess = false) (db : Database)
    (transmissions : List Transmission) :
    post server db transmissions = (transmissions.map (Transmission.hears response), db) := by
  induction transmissions with
  | nil => rfl
  | cons transmission transmissions ih =>
    have once : transmission.run server db = (transmission.hears response, db) := by
      cases transmission with
      | lost => rfl
      | served ending heard => cases heard <;> simp [Transmission.run, Transmission.hears, refuses]
    have unsuccessful : (transmission.hears response).any Api.Response.isSuccess = false := by
      unfold Transmission.hears
      split
      next => exact failure
      next => rfl
    rw [post_cons, once, unsuccessful, if_neg Bool.false_ne_true, ih]
    rfl

/-- A call whose every transaction is that of one payload commits it some number of
times, at most once for each attempt. -/
private theorem post_delivers {server : Ending → Database → Api.Response × Database} {payload : ReconcilePayload}
    (commits : ∀ ending db, (server ending db).2 = db ∨ postReconcile payload db = .ok (server ending db).2)
    (db : Database) (transmissions : List Transmission) :
    ∃ posts ≤ transmissions.length, each (fun db _ => postReconcile payload db) db (List.replicate posts ()) =
      .ok (post server db transmissions).2 := by
  induction transmissions generalizing db with
  | nil => exact ⟨0, Nat.le_refl _, rfl⟩
  | cons transmission transmissions ih =>
    have once : (transmission.run server db).2 = db ∨ postReconcile payload db = .ok (transmission.run server db).2 := by
      cases transmission with
      | lost => exact .inl rfl
      | served ending heard => exact commits ending db
    have rest : ∃ posts ≤ transmissions.length,
        each (fun db _ => postReconcile payload db) (transmission.run server db).2 (List.replicate posts ()) =
          .ok (post server db (transmission :: transmissions)).2 := by
      rw [post_cons]
      split
      next => exact ⟨0, Nat.zero_le _, rfl⟩
      next => exact ih _
    obtain ⟨posts, bound, posted⟩ := rest
    rw [List.length_cons]
    rcases once with same | committed
    · rw [same] at posted
      exact ⟨posts, by omega, posted⟩
    · refine ⟨posts + 1, by omega, ?_⟩
      rw [List.replicate_succ, each_cons, committed]
      exact posted

private theorem postReconcile_commits {hex : HexCrate} {secret : String} {header : Option String} {body : Json}
    {request : Api.ReconcilePayload} {user : Address} (read : Api.ReconcilePayload.deserialize body = .ok request)
    (knows : header.getD "" = secret) (address : Address.fromHex hex request.user = .ok user) (ending : Ending)
    (db : Database) :
    (Api.postReconcile hex secret ending header body db).2 = db ∨
      postReconcile ⟨user, request.deposit, request.blockNumber⟩ db =
        .ok (Api.postReconcile hex secret ending header body db).2 := by
  simp only [Api.postReconcile, read, knows, address, ne_eq, not_true_eq_false, if_false]
  cases committed : postReconcile ⟨user, request.deposit, request.blockNumber⟩ db with
  | error error => exact .inl (by cases ending <;> rfl)
  | ok after => cases ending <;> simp

/-- The calls of a row, were they sent with a body that reads as the row's payload:
deliveries of it, three at most. -/
theorem readable_delivers {wire : Wire} {posting : Posting} {body : Json} {request : Api.ReconcilePayload}
    {payload : ReconcilePayload} (read : Api.ReconcilePayload.deserialize body = .ok request)
    (address : Address.fromHex wire.hex request.user = .ok payload.user)
    (numbers : payload.deposit = request.deposit ∧ payload.blockNumber = request.blockNumber)
    (payable : Delivery.payload ⟨posting.key, posting.row, 0⟩ = some payload) (knows : wire.header.getD "" = wire.secret)
    (db : Database) :
    ∃ posts ≤ posting.transmissions.length, Delivery.run db ⟨posting.key, posting.row, posts⟩ =
      .ok (post (fun ending db => Api.postReconcile wire.hex wire.secret ending wire.header body db) db
        posting.transmissions).2 := by
  obtain ⟨user, deposit, blockNumber⟩ := payload
  obtain ⟨rfl, rfl⟩ := numbers
  obtain ⟨posts, bound, posted⟩ := post_delivers (postReconcile_commits read knows address) db posting.transmissions
  refine ⟨posts, bound, ?_⟩
  have same : Delivery.payload ⟨posting.key, posting.row, posts⟩ = some ⟨user, request.deposit, request.blockNumber⟩ := payable
  rw [Delivery.run, same]
  exact posted

theorem Posting.run_refused (wire : Wire) (posting : Posting) (db : Database) : posting.run wire db =
    (posting.transmissions.map (Transmission.hears (Api.unprocessable (.missingField "blockNumber"))), db) := by
  refine post_refused (fun ending db => ?_) rfl db posting.transmissions
  rw [Api.postReconcile, reconcileBody_unread]

def Posting.undelivered (posting : Posting) : Delivery := ⟨posting.key, posting.row, 0⟩

def Exchange.service (record : Exchange) : Service :=
  ⟨record.label, record.before, record.postings.map Posting.undelivered⟩

theorem Delivery.run_none {deliveries : List Delivery} (none : ∀ delivery ∈ deliveries, delivery.posts = 0) (db : Database) :
    each Delivery.run db deliveries = .ok db := by
  induction deliveries with
  | nil => rfl
  | cons delivery deliveries ih =>
    have unposted : delivery.run db = .ok db := by
      rw [Delivery.run, none delivery List.mem_cons_self]
      cases delivery.payload <;> rfl
    rw [each_cons, unposted]
    exact ih fun other member => none other (List.mem_cons_of_mem _ member)

theorem posts_refused (wire : Wire) (db : Database) (postings : List Posting) :
    postings.foldl (fun db posting => (posting.run wire db).2) db = db := by
  induction postings with
  | nil => rfl
  | cons posting postings ih => rw [List.foldl_cons, Posting.run_refused, ih]

section
variable {wire : Wire} {outside : Surroundings} {config : AppConfig} {blocks : Bytes32 → List RawLog} {state after : State}
  {record : Exchange} {trace : List Exchange}

theorem Posts.reconciles {block : Nat} {db posted : Database} {postings : List Posting}
    (posts : Posts wire block db postings posted) : Reconciles block db (postings.map Posting.undelivered) posted where
  selected := by
    intro delivery member
    obtain ⟨posting, listed, rfl⟩ := List.mem_map.mp member
    exact posts.selected posting listed
  rows := by
    rw [List.map_map]
    exact posts.rows
  attempts := by
    intro delivery member
    obtain ⟨posting, listed, rfl⟩ := List.mem_map.mp member
    exact Nat.zero_le _
  posted := by
    have same : posted = db := posts.posted.symm.trans (posts_refused wire db postings)
    rw [same]
    apply Delivery.run_none
    intro delivery member
    obtain ⟨posting, listed, rfl⟩ := List.mem_map.mp member
    rfl

private theorem Exchanges.serves (moved : Exchanges wire outside config blocks state record after) :
    Serves outside config blocks state record.service after ∧
      ∀ posting ∈ record.postings, posting.transmissions.length = 3 := by
  cases moved with
  | @perform operation ending next chain found answer postings db pending evolves same performed sends =>
    cases operation with
    | reconcile block =>
      exact ⟨@Serves.perform outside config blocks state (.reconcile block) ending next chain found answer
        (postings.map Posting.undelivered) db pending evolves same performed sends.reconciles, sends.attempts⟩
    | _ =>
      obtain ⟨rfl, rfl⟩ := sends
      exact ⟨.perform pending evolves same performed ⟨rfl, rfl⟩, fun _ member => (by cases member)⟩

theorem Exchanges.run {start : State} (run : Run (Exchanges wire outside config blocks) start trace state) :
    Run (Serves outside config blocks) start (trace.map Exchange.service) state ∧
      ∀ record ∈ trace, ∀ posting ∈ record.postings, posting.transmissions.length = 3 := by
  induction run with
  | start => exact ⟨.start, fun _ member => (by cases member)⟩
  | next _ moved ih =>
    obtain ⟨served, attempts⟩ := moved.serves
    rw [List.map_append]
    refine ⟨ih.1.next served, fun record member => ?_⟩
    rcases List.mem_append.mp member with earlier | last
    · exact ih.2 record earlier
    · rw [List.mem_singleton.mp last]
      exact attempts

private theorem Serves.exchanges {record : Service} (moved : Serves outside config blocks state record after)
    (unposted : ∀ delivery ∈ record.deliveries, delivery.posts = 0) {transmissions : List Transmission}
    (attempts : transmissions.length = 3) :
    Exchanges wire outside config blocks state ⟨record.label, record.before,
      record.deliveries.map fun delivery => ⟨delivery.key, delivery.row, transmissions⟩⟩ after := by
  cases moved with
  | @perform operation ending next chain found answer deliveries db pending evolves same performed delivers =>
    cases operation with
    | reconcile block =>
      obtain ⟨selected, rows, -, posted⟩ := delivers
      rw [Delivery.run_none unposted] at posted
      cases posted
      refine @Exchanges.perform wire outside config blocks state (.reconcile block) ending next chain found answer
        _ found.db pending evolves same performed ⟨?_, ?_, ?_, posts_refused wire found.db _⟩
      · intro posting listed
        obtain ⟨delivery, member, rfl⟩ := List.mem_map.mp listed
        exact selected delivery member
      · rw [List.map_map]
        exact rows
      · intro posting listed
        obtain ⟨delivery, member, rfl⟩ := List.mem_map.mp listed
        exact attempts
    | _ =>
      obtain ⟨rfl, rfl⟩ := delivers
      exact .perform pending evolves same performed ⟨rfl, rfl⟩

private theorem Serves.exchanges_run {start : State} {trace : List Service} {transmissions : List Transmission}
    (run : Run (Serves outside config blocks) start trace state)
    (unposted : ∀ record ∈ trace, ∀ delivery ∈ record.deliveries, delivery.posts = 0) (attempts : transmissions.length = 3) :
    Run (Exchanges wire outside config blocks) start (trace.map fun record => ⟨record.label, record.before,
      record.deliveries.map fun delivery => ⟨delivery.key, delivery.row, transmissions⟩⟩) state := by
  induction run with
  | start => exact .start
  | next _ moved ih =>
    rw [List.map_append]
    apply (ih fun record member => unposted record (List.mem_append_left _ member)).next
    exact moved.exchanges (fun delivery => unposted _ (List.mem_append_right _ (List.mem_singleton.mpr rfl)) delivery) attempts

/-- A withdrawal of an amount finds the row of its account. -/
def Exchange.Debits (outside : Surroundings) (record : Exchange) : Prop :=
  ∀ log, Label.commits record.label = some log → ∀ user amount,
    change outside log = .moved user false amount → record.before.balances (usdc user) = none → amount = 0

theorem Exchange.creditsOnce : record.service.CreditsOnce outside ↔ record.Debits outside := by
  refine ⟨fun once => once.inserted, fun debits => ⟨fun delivery member posted => ?_, debits⟩⟩
  obtain ⟨posting, listed, rfl⟩ := List.mem_map.mp member
  exact absurd rfl posted

/-- Over every run on a fixed chain, each reconcile call uses up its attempts and hears
422 or nothing, and none changes the database. So the balances of an index that starts
without any are what the committed logs deposit less what they withdraw exactly when
no withdrawal of an amount has inserted its row. -/
theorem never_reconciled {start : World}
    (canonical : ∀ number row, start.db.reorgCheckpoints number = some row → row.blockHash = start.chain.hashAt number)
    (empty : ∀ user, start.db.balances (usdc user) = none)
    (run : Run (Exchanges wire outside config blocks) ⟨start, .done ()⟩ trace state) :
    (∀ record ∈ trace, ∀ posting ∈ record.postings, ∀ db,
      (posting.run wire db).2 = db ∧ (posting.run wire db).1.length = 3 ∧
      ∀ response, some response ∈ (posting.run wire db).1 → response.status = 422) ∧
    ((∀ user, (Columns.of state.world.db).balance user =
        ((committed (trace.map Exchange.label)).map fun log => (change outside log).amount user).sum) ↔
      ∀ record ∈ trace, record.Debits outside) := by
  obtain ⟨served, attempts⟩ := Exchanges.run run
  constructor
  · intro record member posting listed db
    rw [Posting.run_refused]
    refine ⟨rfl, (List.length_map _).trans (attempts record member posting listed), fun response heard => ?_⟩
    obtain ⟨transmission, -, hears⟩ := List.mem_map.mp heard
    unfold Transmission.hears at hears
    split at hears
    next => exact (congrArg Api.Response.status (Option.some.inj hears)).symm
    next => cases hears
  · have labels : (trace.map Exchange.service).map Service.label = trace.map Exchange.label := by
      rw [List.map_map]
      rfl
    have balance (user : Address) := balances_run canonical served user
    have nothing (user : Address) : (Columns.of start.db).balance user = 0 := by simp [Columns.balance, Columns.of, empty]
    simp only [labels, List.map_map, nothing, zero_add] at balance
    have exact (user : Address) : (Columns.of state.world.db).balance user =
        ((committed (trace.map Exchange.label)).map fun log => (change outside log).amount user).sum ↔
        (trace.map (Service.excess outside user ∘ Exchange.service)).sum = 0 := by
      rw [balance user]
      omega
    simp only [exact, List.sum_eq_zero_iff, List.forall_mem_map, Function.comp_apply]
    refine ⟨fun zero record member => ?_, fun debits user record member => ?_⟩
    · exact Exchange.creditsOnce.mp (excess_zero.mp fun user => zero user record member)
    · exact excess_zero.mpr (Exchange.creditsOnce.mpr (debits record member)) user

end

namespace Sample

def wire : Wire where
  hex := Omniscient.Sample.crate
  decimal amount := .string (toString amount)
  secret := "s"
  header := some "s"

/-- An answer that is heard, a request that is lost, and an answer that is lost. -/
def transmissions : List Transmission := [.served .succeeds true, .lost, .served .succeeds false]

end Sample

/-- The deposit that a delivery would credit again, with the calls on the wire. -/
theorem never_reconciled_sample : ∃ trace state,
    Run (Exchanges Sample.wire Sample.outside Sample.config Sample.blocks) ⟨Sample.indexed, .done ()⟩ trace state ∧
    (∃ record ∈ trace, ∃ posting ∈ record.postings, (posting.run Sample.wire state.world.db).2 = state.world.db) ∧
    (Columns.of state.world.db).balance 5 = 100 ∧ ∀ user, (Columns.of state.world.db).balance user =
      ((committed (trace.map Exchange.label)).map fun log => (change Sample.outside log).amount user).sum := by
  have served : ((Sample.finalized 0).any fun result => decide ((Columns.of result.2.world.db).balance 5 = 100 ∧
      (∃ record ∈ result.1, record.deliveries.length = 1) ∧
      ∀ record ∈ result.1, (∀ delivery ∈ record.deliveries, delivery.posts = 0) ∧
        ∀ log ∈ (Label.commits record.label).toList, change Sample.outside log = .moved 5 true 100)) = true := by
    decide +kernel
  obtain ⟨⟨trace, state⟩, ran, seen⟩ := (Option.any_eq_true _ _).mp served
  obtain ⟨amount, ⟨last, lastly, one⟩, quiet⟩ := of_decide_eq_true seen
  have run := @Serves.exchanges_run Sample.wire _ _ _ _ _ _ Sample.transmissions (serving_runs ran)
    (fun record member => (quiet record member).1) rfl
  obtain ⟨refused, balances⟩ := never_reconciled (fun _ _ found => (by cases found)) (fun _ => rfl) run
  refine ⟨_, state, run, ?_, amount, balances.mpr fun record member => ?_⟩
  · obtain ⟨delivery, only⟩ := List.length_eq_one_iff.mp one
    refine ⟨_, List.mem_map_of_mem lastly, ⟨delivery.key, delivery.row, Sample.transmissions⟩, ?_, ?_⟩
    · exact List.mem_map.mpr ⟨delivery, only ▸ List.mem_singleton.mpr rfl, rfl⟩
    · exact (refused _ (List.mem_map_of_mem lastly) _
        (List.mem_map.mpr ⟨delivery, only ▸ List.mem_singleton.mpr rfl, rfl⟩) _).1
  · obtain ⟨service, listed, rfl⟩ := List.mem_map.mp member
    intro log commits user amount debited
    rw [(quiet service listed).2 log (by simp only [commits, Option.toList_some, List.mem_singleton])] at debited
    cases debited

end Omniscient.Indexer

import Omniscient.Emissions
import Omniscient.Proofs.AbiWords
import Omniscient.Proofs.Columns

/-! What the handlers read from the logs of the contracts, and how a list of logs is
dispatched. -/

namespace Omniscient.Indexer

theorem wordAt_word {value : Nat} (fits : value < 2 ^ 256) (rest : Bytes) : wordAt (Abi.word value ++ rest) 0 = value := by
  have first : (Abi.word value ++ rest).take 32 = Abi.word value := by
    rw [List.take_append_of_le_length (by simp), List.take_of_length_le (by simp)]
  rw [wordAt, Nat.mul_zero, List.drop_zero, first, Abi.word_read fits]

theorem wordAt_skip (value : Nat) (rest : Bytes) (index : Nat) :
    wordAt (Abi.word value ++ rest) (index + 1) = wordAt rest index := by
  have skipped : (Abi.word value ++ rest).drop (32 * (index + 1)) = rest.drop (32 * index) := by
    rw [Nat.mul_succ, Nat.add_comm, ← List.drop_drop, List.drop_left' (Abi.word_length value)]
  rw [wordAt, skipped, wordAt]

theorem topicAddress_indexed (account : Address) : topicAddress (account.setWidth 256) = account := by
  rw [topicAddress, BitVec.setWidth_setWidth_of_le _ (by decide), BitVec.setWidth_eq]

section
variable {outside : Surroundings} {emission : Emission} {log : Log} {topic : Bytes32} {db : Database}

theorem withTopic_reads {size : Nat} {body : Bytes32 → Handler} (second : log.topics[1]? = some topic)
    (long : size ≤ log.data.length) : withTopic size body log db = body topic log db := by
  simp only [withTopic, second, if_neg (Nat.not_lt.mpr long)]

theorem withArgument_reads {size : Nat} {body : Bytes32 → Log → Event} (second : log.topics[1]? = some topic)
    (long : size ≤ log.data.length) : withArgument size body log = body topic log := by
  simp only [withArgument, second, if_neg (Nat.not_lt.mpr long)]

theorem Apart.handlers (apart : Apart outside) {entry other : String × Handler} (listed : entry ∈ handlers outside)
    (also : other ∈ Indexer.handlers outside) (same : topicHash outside entry.1 = topicHash outside other.1) :
    entry = other := by
  have nodup := apart
  rw [Apart, List.map_append, List.map_map] at nodup
  exact List.inj_on_of_nodup_map nodup.of_append_left listed also same

theorem Apart.unhandled (apart : Apart outside) :
    handlerOf outside (topicHash outside "NetDeltasApplied(bytes32,uint256)") = none := by
  rw [handlerOf, Option.map_eq_none_iff, List.find?_eq_none]
  intro entry listed same
  have nodup := apart
  rw [Apart, List.map_append, List.nodup_append] at nodup
  have signature : entry.1 ∈ (Indexer.handlers outside).map Prod.fst := List.mem_map_of_mem listed
  exact nodup.2.2 _ (List.mem_map_of_mem signature) _ (List.mem_singleton.mpr rfl) (of_decide_eq_true same).symm

private theorem handlerOf_mem (apart : Apart outside) {entry : String × Handler} (listed : entry ∈ handlers outside) :
    handlerOf outside (topicHash outside entry.1) = some entry.2 := by
  have found : ((handlers outside).find? fun other => topicHash outside entry.1 = topicHash outside other.1).isSome :=
    List.find?_isSome.mpr ⟨entry, listed, decide_eq_true rfl⟩
  obtain ⟨other, first⟩ := Option.isSome_iff_exists.mp found
  have same : topicHash outside entry.1 = topicHash outside other.1 := by simpa using List.find?_some first
  rw [handlerOf, first, Option.map_some, apart.handlers listed (List.mem_of_find?_eq_some first) same]

theorem Carries.dispatch (carries : Carries outside emission log) (apart : Apart outside) {handler : Handler}
    (handled : (emission.signature, handler) ∈ handlers outside) : dispatch outside log db = handler log db := by
  simp only [Indexer.dispatch, carries.topics, List.head?_cons, handlerOf_mem apart handled]

theorem dispatched_ok {flag : Bool} {after : Database} (done : dispatch outside log db = .ok (flag, after)) :
    dispatched outside db log = after := by
  rw [dispatched, done]

theorem dispatched_error {error : String} (refused : dispatch outside log db = .error error) :
    dispatched outside db log = db := by
  rw [dispatched, refused]

theorem dispatched_unknown (unknown : log.topics.head?.bind (handlerOf outside) = none) :
    dispatched outside db log = db := by
  apply @dispatched_ok _ _ _ false
  unfold Indexer.dispatch
  cases first : log.topics.head? with
  | none => rfl
  | some topic =>
    rw [first, Option.bind_some] at unknown
    simp only [unknown]
    rfl

@[simp] theorem dispatchAll_cons (logs : List Log) :
    dispatchAll outside db (log :: logs) = dispatchAll outside (dispatched outside db log) logs := rfl

theorem dispatchAll_append (first second : List Log) :
    dispatchAll outside db (first ++ second) = dispatchAll outside (dispatchAll outside db first) second :=
  List.foldl_append

theorem Emitted.append {emissions news : List Emission} {logs more : List Log} (first : Emitted outside emissions logs)
    (second : Emitted outside news more) : Emitted outside (emissions ++ news) (logs ++ more) := by
  induction first with
  | nothing => exact second
  | own carries _ ih => exact .own carries ih
  | inherited unknown _ ih => exact .inherited unknown ih

theorem Emitted.split {emissions news : List Emission} {logs : List Log} (emitted : Emitted outside (emissions ++ news) logs) :
    ∃ first second, logs = first ++ second ∧ Emitted outside emissions first ∧ Emitted outside news second := by
  generalize whole : emissions ++ news = all at emitted
  induction emitted generalizing emissions with
  | nothing =>
    obtain ⟨rfl, rfl⟩ := List.append_eq_nil_iff.mp whole
    exact ⟨[], [], rfl, .nothing, .nothing⟩
  | @own emission all log logs carries rest ih =>
    cases emissions with
    | nil =>
      obtain rfl : news = emission :: all := whole
      exact ⟨[], log :: logs, rfl, .nothing, .own carries rest⟩
    | cons own emissions =>
      obtain ⟨rfl, later⟩ := List.cons.inj whole
      obtain ⟨first, second, rfl, earlier, last⟩ := ih later
      exact ⟨log :: first, second, rfl, .own carries earlier, last⟩
  | @inherited all log logs unknown rest ih =>
    obtain ⟨first, second, rfl, earlier, last⟩ := ih whole
    exact ⟨log :: first, second, rfl, .inherited unknown earlier, last⟩

theorem Emitted.quiet {logs : List Log} (emitted : Emitted outside [] logs) (db : Database) :
    dispatchAll outside db logs = db := by
  generalize whole : ([] : List Emission) = emissions at emitted
  induction emitted with
  | nothing => rfl
  | own => cases whole
  | inherited unknown _ ih => rw [dispatchAll_cons, dispatched_unknown unknown, ih whole]

theorem Emitted.single {logs : List Log} (emitted : Emitted outside [emission] logs) (db : Database) :
    ∃ log, Carries outside emission log ∧ dispatchAll outside db logs = dispatched outside db log := by
  generalize whole : [emission] = emissions at emitted
  induction emitted with
  | nothing => cases whole
  | @own own emissions log logs carries rest =>
    obtain ⟨rfl, rfl⟩ := List.cons.inj whole
    exact ⟨log, carries, rest.quiet _⟩
  | inherited unknown _ ih =>
    obtain ⟨log, carries, same⟩ := ih whole
    exact ⟨log, carries, by rw [dispatchAll_cons, dispatched_unknown unknown, same]⟩

theorem Emitted.exists (emissions : List Emission) : ∃ logs, Emitted outside emissions logs := by
  induction emissions with
  | nil => exact ⟨[], .nothing⟩
  | cons emission emissions ih =>
    obtain ⟨logs, emitted⟩ := ih
    let log : Log := ⟨0, 0, 0, 0, 0, topicHash outside emission.signature :: emission.indexed, emission.data⟩
    have number : log.blockNumber < I64_END := Nat.two_pow_pos 63
    exact ⟨log :: logs, .own ⟨rfl, rfl, number⟩ emitted⟩

end

theorem Sample.apart : Apart outside := by
  unfold Apart
  decide +kernel

end Omniscient.Indexer

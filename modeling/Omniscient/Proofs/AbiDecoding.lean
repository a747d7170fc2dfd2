import Mathlib.Data.Rat.Defs
import Omniscient.AbiDecoding
import Omniscient.Emissions
import Omniscient.Proofs.AbiWords

/-! What the decoders do on any data, and on what the contracts emit. Two words of the
data are taken for sizes: the decoders fault where those or their sums leave the range
of a size, and nowhere else. -/

namespace Omniscient.Indexer
open Outcome

variable {data : Bytes} {α δ : Type} {fromStr : String → Option δ}

def headOffset (data : Bytes) : Nat := fromBeBytes (data.take 32)

def lengthWord (data : Bytes) : Nat := fromBeBytes ((data.drop (headOffset data)).take 32)

@[simp] theorem toUsize_ok {number result : Nat} : toUsize number = .ok result ↔ number < USIZE_END ∧ number = result := by
  simp only [toUsize, bind_ok, revertIf_ok, pure_ok, not_le, exists_const]

@[simp] theorem addUsize_ok {first second result : Nat} :
    addUsize first second = .ok result ↔ first + second < USIZE_END ∧ first + second = result := by
  simp only [addUsize, bind_ok, revertIf_ok, pure_ok, not_le, exists_const]

@[simp] theorem mulUsize_ok {first second result : Nat} :
    mulUsize first second = .ok result ↔ first * second < USIZE_END ∧ first * second = result := by
  simp only [mulUsize, bind_ok, revertIf_ok, pure_ok, not_le, exists_const]

@[simp] theorem sliceOf_ok {start stop : Nat} {bytes : Bytes} : sliceOf data start stop = .ok bytes ↔
    start ≤ stop ∧ stop ≤ data.length ∧ (data.drop start).take (stop - start) = bytes := by
  simp only [sliceOf, bind_ok, revertIf_ok, pure_ok, not_or, not_lt, exists_const, and_assoc]

theorem elemsEnd_ok {elemsStart len stop : Nat} :
    elemsEnd elemsStart len = .ok stop ↔ elemsStart + 32 * len < USIZE_END ∧ elemsStart + 32 * len = stop := by
  simp only [elemsEnd, bind_ok, mulUsize_ok, addUsize_ok]
  constructor
  · intro holds
    obtain ⟨size, ⟨-, rfl⟩, fits, rfl⟩ := holds
    omega
  · intro holds
    obtain ⟨fits, rfl⟩ := holds
    exact ⟨len * 32, by omega, by omega⟩

/-- What a decoder does on data that holds the head: it reads two words, and needs
their sums to be sizes. -/
theorem parseDynamic_ok {unit : Nat} {finish : Nat → Nat → Except Fault Nat}
    {content : Nat → Nat → Nat → Except Fault (Option α)} {result : Option α} (positive : 0 < unit)
    (ends : ∀ start len stop, finish start len = .ok stop ↔ start + unit * len < USIZE_END ∧ start + unit * len = stop)
    (long : 64 ≤ data.length) : parseDynamic data finish content = .ok result ↔
      headOffset data + 32 < USIZE_END ∧
        (data.length < headOffset data + 32 ∧ none = result ∨
        headOffset data + 32 ≤ data.length ∧ headOffset data + 32 + unit * lengthWord data < USIZE_END ∧
          (data.length < headOffset data + 32 + unit * lengthWord data ∧ none = result ∨
          headOffset data + 32 + unit * lengthWord data ≤ data.length ∧
            content (headOffset data + 32) (lengthWord data) (headOffset data + 32 + unit * lengthWord data) = .ok result)) := by
  have head : fromBeBytes ((data.drop 0).take (32 - 0)) = headOffset data := rfl
  have least : lengthWord data ≤ unit * lengthWord data := Nat.le_mul_of_pos_left _ positive
  rw [parseDynamic, if_neg (by omega)]
  simp only [bind_ok, sliceOf_ok, toUsize_ok, addUsize_ok]
  constructor
  · intro holds
    obtain ⟨off, ⟨-, -, rfl⟩, offset, ⟨-, rfl⟩, start, ⟨fits, rfl⟩, rest⟩ := holds
    rw [head] at fits rest
    refine ⟨fits, ?_⟩
    split at rest
    next outside => exact .inl ⟨outside, pure_ok.mp rest⟩
    next inside =>
      simp only [bind_ok, sliceOf_ok, toUsize_ok, ends, Nat.add_sub_cancel_left] at rest
      obtain ⟨lenBytes, ⟨-, -, rfl⟩, len, ⟨-, rfl⟩, stop, ⟨small, rfl⟩, last⟩ := rest
      refine .inr ⟨by omega, small, ?_⟩
      split at last
      next beyond => exact .inl ⟨beyond, pure_ok.mp last⟩
      next within => exact .inr ⟨not_lt.mp within, last⟩
  · intro reading
    obtain ⟨fits, rest⟩ := reading
    refine ⟨_, ⟨by omega, by omega, rfl⟩, headOffset data, ⟨by rw [head]; omega, head⟩, _, ⟨fits, rfl⟩, ?_⟩
    rcases rest with ⟨outside, rfl⟩ | ⟨inside, small, rest⟩
    · rw [if_pos outside]
      rfl
    · rw [if_neg (not_lt.mpr inside)]
      simp only [bind_ok, sliceOf_ok, toUsize_ok, ends, Nat.add_sub_cancel_left]
      refine ⟨_, ⟨by omega, inside, rfl⟩, lengthWord data, ⟨?_, rfl⟩, _, ⟨small, rfl⟩, ?_⟩
      · exact (show lengthWord data < USIZE_END by omega)
      · rcases rest with ⟨beyond, rfl⟩ | ⟨within, read⟩
        · rw [if_pos beyond]
          rfl
        · rwa [if_neg (not_lt.mpr within)]

theorem parseDynamic_short {finish : Nat → Nat → Except Fault Nat} {content : Nat → Nat → Nat → Except Fault (Option α)}
    (short : data.length < 64) : parseDynamic data finish content = .ok none := by
  rw [parseDynamic, if_pos short]
  rfl

/-- The sums of the two words are sizes, as far as the decoder gets to compute them. -/
def SizesFit (unit : Nat) (data : Bytes) : Prop :=
  data.length < 64 ∨ headOffset data + 32 < USIZE_END ∧
    (data.length < headOffset data + 32 ∨ headOffset data + 32 + unit * lengthWord data < USIZE_END)

def Outside (unit : Nat) (data : Bytes) : Prop :=
  data.length < headOffset data + 32 ∨ data.length < headOffset data + 32 + unit * lengthWord data

/-- The decoder returns, and none where a word points outside. -/
structure Total (unit : Nat) (data : Bytes) (decoded : Except Fault (Option α)) : Prop where
  returns : ∃ result, decoded = .ok result
  outside : Outside unit data → decoded = .ok none

theorem total_iff {unit : Nat} {finish : Nat → Nat → Except Fault Nat}
    {content : Nat → Nat → Nat → Except Fault (Option α)} (positive : 0 < unit)
    (ends : ∀ start len stop, finish start len = .ok stop ↔ start + unit * len < USIZE_END ∧ start + unit * len = stop)
    (reads : ∀ start len, start + unit * len < USIZE_END → start + unit * len ≤ data.length →
      ∃ result, content start len (start + unit * len) = .ok result) :
    Total unit data (parseDynamic data finish content) ↔ SizesFit unit data := by
  by_cases short : data.length < 64
  · exact iff_of_true ⟨⟨none, parseDynamic_short short⟩, fun _ => parseDynamic_short short⟩ (.inl short)
  · have long : 64 ≤ data.length := not_lt.mp short
    constructor
    · intro total
      obtain ⟨⟨result, ran⟩, -⟩ := total
      obtain ⟨fits, rest⟩ := (parseDynamic_ok positive ends long).mp ran
      exact .inr ⟨fits, rest.imp And.left fun inside => inside.2.1⟩
    · intro fit
      obtain ⟨fits, rest⟩ := fit.resolve_left short
      have none_ (outside : Outside unit data) : parseDynamic data finish content = .ok none := by
        refine (parseDynamic_ok positive ends long).mpr ⟨fits, ?_⟩
        unfold Outside at outside
        by_cases head : data.length < headOffset data + 32
        · exact .inl ⟨head, rfl⟩
        · exact .inr ⟨by omega, rest.resolve_left head, .inl ⟨outside.resolve_left head, rfl⟩⟩
      refine ⟨?_, none_⟩
      by_cases outside : Outside unit data
      · exact ⟨none, none_ outside⟩
      · unfold Outside at outside
        obtain ⟨result, read⟩ := reads (headOffset data + 32) (lengthWord data) (by omega) (by omega)
        exact ⟨result, (parseDynamic_ok positive ends long).mpr ⟨fits, .inr ⟨by omega, by omega, .inr ⟨by omega, read⟩⟩⟩⟩

/-- The crate parses the decimal text of every U256 to a number of the same value. -/
def KeepsValue (fromStr : String → Option δ) (value : δ → ℚ) : Prop :=
  ∀ number < 2 ^ 256, ∃ parsed, fromStr (String.ofList (Nat.toDigits 10 number)) = some parsed ∧ value parsed = number

private theorem fromBeBytes_lt {bytes : Bytes} (length : bytes.length ≤ 32) : fromBeBytes bytes < 2 ^ 256 := by
  calc fromBeBytes bytes
    _ < 256 ^ bytes.length := Abi.read_lt bytes
    _ ≤ 256 ^ 32 := Nat.pow_le_pow_right (by decide) length
    _ = 2 ^ 256 := by norm_num

variable {value : δ → ℚ}

private theorem parseElement_returns (keeps : KeepsValue fromStr value) {start len i : Nat}
    (size : start + 32 * len < USIZE_END)
    (within : start + 32 * len ≤ data.length) (below : i < len) :
    ∃ element, parseElement fromStr data start i = .ok element ∧
      value element = fromBeBytes ((data.drop (start + 32 * i)).take 32) := by
  obtain ⟨parsed, found, same⟩ := keeps _ (fromBeBytes_lt (List.length_take_le 32 (data.drop (start + 32 * i))))
  refine ⟨parsed, ?_, same⟩
  simp only [parseElement, bind_ok, mulUsize_ok, addUsize_ok, sliceOf_ok]
  refine ⟨32 * i, ⟨by omega, by omega⟩, _, ⟨by omega, rfl⟩, _, ⟨by omega, rfl⟩, _, ⟨by omega, by omega, rfl⟩, ?_⟩
  rw [Nat.add_sub_cancel_left, u256ToBigDecimal, orRevert_ok]
  exact found

theorem elements_return (keeps : KeepsValue fromStr value) {start len : Nat} (size : start + 32 * len < USIZE_END)
    (within : start + 32 * len ≤ data.length) :
    ∃ out, (List.range len).mapM (parseElement fromStr data start) = .ok out ∧
      out.map value = (List.range len).map fun i => (fromBeBytes ((data.drop (start + 32 * i)).take 32) : ℚ) := by
  obtain ⟨out, ran, related⟩ := mapM_returns
    (fun i element => value element = fromBeBytes ((data.drop (start + 32 * i)).take 32))
    fun i member => parseElement_returns keeps size within (List.mem_range.mp member)
  refine ⟨out, ran, ?_⟩
  clear ran
  generalize List.range len = items at related ⊢
  induction related with
  | nil => rfl
  | cons same _ ih => rw [List.map_cons, List.map_cons, same, ih]

theorem addUsize_ends (start len stop : Nat) :
    addUsize start len = .ok stop ↔ start + 1 * len < USIZE_END ∧ start + 1 * len = stop := by
  rw [addUsize_ok, Nat.one_mul]

/-- The decoders return on exactly the data whose words make sizes, and none where one
of them points outside. -/
theorem decoders_total (keeps : KeepsValue fromStr value) (data : Bytes) :
    (Total 32 data (parseU256Array fromStr data) ↔ SizesFit 32 data) ∧
    (Total 1 data (parseString data) ↔ SizesFit 1 data) := by
  constructor
  · refine total_iff (by decide) (fun _ _ _ => elemsEnd_ok) fun start len size within => ?_
    obtain ⟨out, ran, -⟩ := elements_return keeps size within
    exact ⟨some out, bind_ok.mpr ⟨out, ran, rfl⟩⟩
  · refine total_iff (by decide) addUsize_ends fun start len _ within => ?_
    exact ⟨_, bind_ok.mpr ⟨_, sliceOf_ok.mpr ⟨by omega, within, rfl⟩, rfl⟩⟩

namespace Sample

/-- The decimal reading, which is that of the crate on the texts of the decoder. -/
def parseDecimal (text : String) : Option Nat := some (Nat.ofDigitChars 10 text.toList 0)

theorem parseDecimal_keeps : KeepsValue parseDecimal fun number : Nat => (number : ℚ) := by
  intro number _
  refine ⟨number, ?_, rfl⟩
  rw [parseDecimal, String.toList_ofList, Nat.ofDigitChars_toDigits (by decide) (by decide)]

def farAway : Bytes := Abi.word (2 ^ 64) ++ Abi.word 0

end Sample

/-- The offset points outside the data, and its conversion panics. -/
theorem decoders_total_fails : Outside 32 Sample.farAway ∧
    parseU256Array Sample.parseDecimal Sample.farAway = .error .conversion ∧ parseString Sample.farAway = .error .conversion ∧
    ¬ Total 32 Sample.farAway (parseU256Array Sample.parseDecimal Sample.farAway) ∧
    ¬ Total 1 Sample.farAway (parseString Sample.farAway) := by
  have outside : Outside 32 Sample.farAway := .inl (by decide +kernel)
  have array : parseU256Array Sample.parseDecimal Sample.farAway = .error .conversion := by decide +kernel
  have text : parseString Sample.farAway = .error .conversion := by decide +kernel
  refine ⟨outside, array, text, fun total => ?_, fun total => ?_⟩
  · obtain ⟨result, returned⟩ := total.returns
    rw [array] at returned
    cases returned
  · obtain ⟨result, returned⟩ := total.returns
    rw [text] at returned
    cases returned

/-- The hypothesis is met: two zero words are a text at offset 0 of no length. -/
theorem decoders_total_sample : Total 32 (Abi.word 0 ++ Abi.word 0) (parseU256Array Sample.parseDecimal (Abi.word 0 ++ Abi.word 0)) ∧
    Total 1 (Abi.word 0 ++ Abi.word 0) (parseString (Abi.word 0 ++ Abi.word 0)) := by
  obtain ⟨array, text⟩ := decoders_total Sample.parseDecimal_keeps (Abi.word 0 ++ Abi.word 0)
  exact ⟨array.mpr (.inr (by decide +kernel)), text.mpr (.inr (by decide +kernel))⟩

theorem fromBeBytes_word {number : Nat} (fits : number < 2 ^ 256) : fromBeBytes (Abi.word number) = number :=
  Abi.word_read fits

theorem encoded_words {len : Nat} (fits : len < USIZE_END) (content : Bytes) :
    headOffset (Abi.word 32 ++ (Abi.word len ++ content)) = 32 ∧
      lengthWord (Abi.word 32 ++ (Abi.word len ++ content)) = len ∧
      (Abi.word 32 ++ (Abi.word len ++ content)).drop 64 = content := by
  have head : headOffset (Abi.word 32 ++ (Abi.word len ++ content)) = 32 := by
    rw [headOffset, List.take_left' (Abi.word_length 32), fromBeBytes_word (by norm_num)]
  have small : len < 2 ^ 256 := fits.trans_le (Nat.pow_le_pow_right (by decide) (by decide))
  refine ⟨head, ?_, ?_⟩
  · rw [lengthWord, head, List.drop_left' (Abi.word_length 32), List.take_left' (Abi.word_length len),
      fromBeBytes_word small]
  · rw [← List.append_assoc]
    exact List.drop_left' (by simp)

private theorem flatMap_word (values : List Uint256) {i : Nat} (below : i < values.length) :
    ((values.flatMap fun value => Abi.word value.toNat).drop (32 * i)).take 32 = Abi.word values[i].toNat := by
  induction values generalizing i with
  | nil => cases below
  | cons first rest ih =>
    rw [List.flatMap_cons]
    cases i with
    | zero => exact List.take_left' (Abi.word_length _)
    | succ i =>
      have shift : 32 * (i + 1) = (Abi.word first.toNat).length + 32 * i := by
        rw [Abi.word_length]
        ring
      rw [shift, List.drop_length_add_append, ih (Nat.lt_of_succ_lt_succ below), List.getElem_cons_succ]

private theorem array_length (values : List Uint256) :
    (values.flatMap fun value => Abi.word value.toNat).length = 32 * values.length := by
  simp [List.length_flatMap, Nat.mul_comm]

private theorem array_decoded (keeps : KeepsValue fromStr value) (values : List Uint256)
    (size : (Abi.word 32 ++ Abi.array values).length < USIZE_END) :
    ∃ out, parseU256Array fromStr (Abi.word 32 ++ Abi.array values) = .ok (some out) ∧
      out.map value = values.map fun number => (number.toNat : ℚ) := by
  have length : (Abi.word 32 ++ Abi.array values).length = 64 + 32 * values.length := by
    rw [Abi.array, List.length_append, List.length_append, Abi.word_length, Abi.word_length, array_length]
    ring
  obtain ⟨head, count, content⟩ := @encoded_words values.length (by omega) (values.flatMap fun value => Abi.word value.toNat)
  rw [← Abi.array] at head count content
  obtain ⟨out, ran, same⟩ := elements_return keeps (show 32 + 32 + 32 * values.length < USIZE_END by omega)
    (show 32 + 32 + 32 * values.length ≤ (Abi.word 32 ++ Abi.array values).length by omega)
  refine ⟨out, ?_, ?_⟩
  · refine (parseDynamic_ok (by decide) (fun _ _ _ => elemsEnd_ok) (by omega)).mpr ?_
    rw [head, count]
    exact ⟨by omega, .inr ⟨by omega, by omega, .inr ⟨by omega, bind_ok.mpr ⟨out, ran, rfl⟩⟩⟩⟩
  · rw [same]
    apply List.ext_getElem (by simp)
    intro i below _
    have inside : i < values.length := by simpa using below
    rw [List.getElem_map, List.getElem_map, List.getElem_range, ← List.drop_drop, content, flatMap_word values inside,
      fromBeBytes_word values[i].isLt]

private theorem fromUTF8_bytes (text : String) : String.fromUTF8? text.toUTF8.data.toList.toByteArray = some text := by
  have bytes : text.toUTF8.data.toList.toByteArray = text.toUTF8 := by
    apply ByteArray.ext
    rw [List.data_toByteArray, Array.toArray_toList]
  rw [bytes]
  exact dif_pos text.isValidUTF8

private theorem string_decoded (text : String)
    (size : (Abi.word 32 ++ Abi.text text.toUTF8.data.toList).length < USIZE_END) :
    parseString (Abi.word 32 ++ Abi.text text.toUTF8.data.toList) = .ok (some text) := by
  generalize same : text.toUTF8.data.toList = bytes at size ⊢
  generalize padding : List.replicate ((32 - bytes.length % 32) % 32) (0 : UInt8) = zeros
  have whole : Abi.text bytes = Abi.word bytes.length ++ (bytes ++ zeros) := by
    rw [Abi.text, padding, List.append_assoc]
  rw [whole] at size ⊢
  have length : (Abi.word 32 ++ (Abi.word bytes.length ++ (bytes ++ zeros))).length = 64 + bytes.length + zeros.length := by
    simp only [List.length_append, Abi.word_length]
    ring
  obtain ⟨head, count, content⟩ := @encoded_words bytes.length (by omega) (bytes ++ zeros)
  refine (parseDynamic_ok (by decide) addUsize_ends (by omega)).mpr ?_
  rw [head, count]
  refine ⟨by omega, .inr ⟨by omega, by omega, .inr ⟨by omega, bind_ok.mpr ⟨bytes, sliceOf_ok.mpr ⟨by omega, by omega, ?_⟩, ?_⟩⟩⟩⟩
  · rw [content]
    exact List.take_left' (by omega)
  · rw [← same, fromUTF8_bytes]
    rfl

/-- Decoding undoes encoding: a `uint256[]` as the only argument, as the oracle emits
its outcomes, and a `string`, of every length whose encoding is a size. -/
theorem decodes_encoded (keeps : KeepsValue fromStr value) :
    (∀ values : List Uint256, (Abi.word 32 ++ Abi.array values).length < USIZE_END →
      ∃ out, parseU256Array fromStr (Abi.word 32 ++ Abi.array values) = .ok (some out) ∧
        out.map value = values.map fun number => (number.toNat : ℚ)) ∧
    (∀ marketId values, (Oracle.Event.outcomeResolved marketId values).emission.data = Abi.word 32 ++ Abi.array values ∧
      (Oracle.Event.disputeResolved marketId values).emission.data = Abi.word 32 ++ Abi.array values) ∧
    ∀ text : String, (Abi.word 32 ++ Abi.text text.toUTF8.data.toList).length < USIZE_END →
      parseString (Abi.word 32 ++ Abi.text text.toUTF8.data.toList) = .ok (some text) :=
  ⟨array_decoded keeps, fun _ _ => ⟨rfl, rfl⟩, string_decoded⟩

/-- The hypothesis is met: the payouts of a resolved market, and the empty text. -/
theorem decodes_encoded_sample :
    (∃ out, parseU256Array Sample.parseDecimal (Oracle.Event.outcomeResolved 7 [0, 1]).emission.data = .ok (some out) ∧
      out.map (fun number : Nat => (number : ℚ)) = [0, 1]) ∧
    parseString (Abi.word 32 ++ Abi.text "".toUTF8.data.toList) = .ok (some "") := by
  obtain ⟨arrays, -, texts⟩ := decodes_encoded Sample.parseDecimal_keeps
  obtain ⟨out, decoded, same⟩ := arrays [0, 1] (by decide +kernel)
  exact ⟨⟨out, decoded, by simpa using same⟩, texts "" (by decide +kernel)⟩

end Omniscient.Indexer

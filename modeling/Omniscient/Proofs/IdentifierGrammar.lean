import Omniscient.Identifiers
import Omniscient.Proofs.AbiWords

/-! The grammar of identifiers. A text that has the prefix is parsed trimmed; one
without it is parsed as it stands, so that whitespace around bare digits is an error. -/

namespace Omniscient

/-- What is relied on of the hex crate: it decodes exactly the texts of two digits to a
byte, into a target of their length. -/
structure HexCrate.Lawful (hex : HexCrate) : Prop where
  decode : ∀ text bytes, hex.decode text = .ok bytes ↔ Text.hexBytes text = some bytes
  decodeToSlice : ∀ size text bytes, hex.decodeToSlice size text = .ok bytes ↔
    Text.hexBytes text = some bytes ∧ bytes.length = size

/-- An optional prefix and two hex digits for each byte of the value. -/
def Denotes (size : Nat) (text : List Char) (value : BitVec (8 * size)) : Prop :=
  ∃ digits, (text = digits ∨ text = "0x".toList ++ digits) ∧ digits.length = 2 * size ∧
    Text.hexBytes digits = some (Abi.bytesOf size value.toNat)

/-- On this text the parser accepts exactly its grammar, whatever whitespace is around. -/
def Grammatical {size : Nat} (fromHex : String → Except String (BitVec (8 * size))) (s : String) : Prop :=
  ∀ value, fromHex s = .ok value ↔ Denotes size (Text.trim isWhitespace s.toList) value

def Bare (size : Nat) (text : List Char) : Prop :=
  text.length = 2 * size ∧ ∀ char ∈ text, Text.isHexDigit char = true

def PaddedDigits (size : Nat) (s : String) : Prop :=
  Text.Padded isWhitespace s.toList ∧ Bare size (Text.trim isWhitespace s.toList)

theorem bytesOf_ofBytes {size : Nat} {bytes : Bytes} (length : bytes.length = size) :
    Abi.bytesOf size (ofBytes size bytes).toNat = bytes := by
  subst length
  have range : 2 ^ (8 * bytes.length) = 256 ^ bytes.length := by rw [pow_mul]; norm_num
  rw [ofBytes, BitVec.toNat_ofNat, range, Nat.mod_eq_of_lt (Abi.read_lt bytes), Abi.bytesOf_of_read]

theorem ofBytes_bytesOf {size : Nat} (value : BitVec (8 * size)) : ofBytes size (Abi.bytesOf size value.toNat) = value := by
  have range : 2 ^ (8 * size) = 256 ^ size := by rw [pow_mul]; norm_num
  apply BitVec.eq_of_toNat_eq
  rw [ofBytes, BitVec.toNat_ofNat, Abi.bytesOf_read, Nat.mul_zero, Nat.zero_add, range, Nat.mod_mod, ← range,
    Nat.mod_eq_of_lt value.isLt]

private theorem ofBytes_eq {size : Nat} {bytes : Bytes} {value : BitVec (8 * size)} (length : bytes.length = size) :
    ofBytes size bytes = value ↔ bytes = Abi.bytesOf size value.toNat := by
  constructor
  · intro same
    subst same
    exact (bytesOf_ofBytes length).symm
  · intro same
    subst same
    exact ofBytes_bytesOf value

private theorem bare_iff {size : Nat} {text : List Char} :
    Bare size text ↔ ∃ value : BitVec (8 * size), Text.hexBytes text = some (Abi.bytesOf size value.toNat) := by
  rw [Bare, ← Text.hexBytes_iff]
  constructor
  · intro decoded
    obtain ⟨bytes, denotes, length⟩ := decoded
    exact ⟨ofBytes size bytes, by rw [denotes, bytesOf_ofBytes length]⟩
  · intro decoded
    obtain ⟨value, denotes⟩ := decoded
    exact ⟨_, denotes, Abi.bytesOf_length ..⟩

private theorem digit_utf8 {char : Char} (digit : Text.isHexDigit char = true) : char.utf8Size = 1 := by
  have range := Text.isHexDigit_iff.mp digit
  rw [Char.utf8Size_eq_one_iff, UInt32.le_iff_toNat_le]
  have code : char.toNat ≤ 127 := by omega
  exact code

theorem digit_not_blank {char : Char} (digit : Text.isHexDigit char = true) : isWhitespace char = false := by
  have range := Text.isHexDigit_iff.mp digit
  simp only [isWhitespace, decide_eq_false_iff_not]
  omega

private theorem digits_length {text : List Char} (digits : ∀ char ∈ text, Text.isHexDigit char = true) :
    utf8Length text = text.length := by
  rw [utf8Length, List.map_congr_left fun char member => digit_utf8 (digits char member)]
  simp

private theorem digits_trim {text : List Char} (digits : ∀ char ∈ text, Text.isHexDigit char = true) :
    Text.trim isWhitespace text = text :=
  Text.trim_of_none fun char member => digit_not_blank (digits char member)

variable {hex : HexCrate} {size : Nat} {message : String} {s : String} {value : BitVec (8 * size)}

theorem parseHex_ok (lawful : hex.Lawful) : parseHex hex size message s = .ok value ↔
    Text.hexBytes (stripped s) = some (Abi.bytesOf size value.toNat) := by
  constructor
  · intro ran
    unfold parseHex at ran
    split at ran
    · cases ran
    · split at ran
      next bytes decoded =>
        obtain ⟨denotes, length⟩ := (lawful.decodeToSlice _ _ _).mp decoded
        rw [denotes, (ofBytes_eq length).mp (Except.ok.inj ran)]
      next => cases ran
  · intro denotes
    obtain ⟨length, digits⟩ := Text.hexBytes_digits denotes
    have decoded := (lawful.decodeToSlice size (stripped s) _).mpr ⟨denotes, Abi.bytesOf_length ..⟩
    rw [Abi.bytesOf_length] at length
    rw [parseHex, if_neg (by rw [digits_length digits, length]; exact fun other => other rfl), decoded]
    dsimp only
    rw [ofBytes_bytesOf]

private theorem denotes_prefixed {rest : List Char} :
    Denotes size ("0x".toList ++ rest) value ↔ Text.hexBytes rest = some (Abi.bytesOf size value.toNat) := by
  constructor
  · intro holds
    obtain ⟨digits, rfl | same, -, denotes⟩ := holds
    · obtain ⟨-, all⟩ := Text.hexBytes_digits denotes
      exact absurd (all 'x' (by simp)) (by decide)
    · rwa [List.append_cancel_left same]
  · intro denotes
    obtain ⟨length, -⟩ := Text.hexBytes_digits denotes
    exact ⟨rest, .inr rfl, by rw [length, Abi.bytesOf_length], denotes⟩

private theorem denotes_bare {text : List Char} (bare : text.dropPrefix? "0x".toList = none) :
    Denotes size text value ↔ Text.hexBytes text = some (Abi.bytesOf size value.toNat) := by
  constructor
  · intro holds
    obtain ⟨digits, rfl | rfl, -, denotes⟩ := holds
    · exact denotes
    · rw [List.dropPrefix?_append_of_beq digits BEq.rfl] at bare
      cases bare
  · intro denotes
    obtain ⟨length, -⟩ := Text.hexBytes_digits denotes
    exact ⟨text, .inl rfl, by rw [length, Abi.bytesOf_length], denotes⟩

theorem parseHex_grammatical (lawful : hex.Lawful) :
    Grammatical (parseHex hex size message) s ↔ ¬ PaddedDigits size s := by
  simp only [Grammatical, parseHex_ok lawful]
  cases found : (Text.trim isWhitespace s.toList).dropPrefix? "0x".toList with
  | some rest =>
    obtain ⟨start, whole, same⟩ := List.dropPrefix?_eq_some_iff.mp found
    rw [eq_of_beq same] at whole
    have left : stripped s = rest := by rw [stripped, found]; rfl
    rw [left, PaddedDigits, whole]
    refine iff_of_true (fun value => denotes_prefixed.symm) ?_
    intro padded
    obtain ⟨-, -, digits⟩ := padded
    exact absurd (digits 'x' (by simp)) (by decide)
  | none =>
    have left : stripped s = s.toList := by rw [stripped, found]; rfl
    rw [left]
    simp only [denotes_bare found]
    by_cases padded : Text.Padded isWhitespace s.toList
    · have differs := mt Text.trim_eq_self_iff.mp (not_not.mpr padded)
      have never (value : BitVec (8 * size)) : Text.hexBytes s.toList ≠ some (Abi.bytesOf size value.toNat) :=
        fun denotes => differs (digits_trim (Text.hexBytes_digits denotes).2)
      simp only [PaddedDigits, padded, true_and, bare_iff, not_exists]
      exact forall_congr' fun value => ⟨fun same denotes => never value (same.mpr denotes),
        fun none => iff_of_false (never value) none⟩
    · rw [Text.trim_eq_self_iff.mpr padded]
      exact iff_of_true (fun _ => Iff.rfl) fun both => padded both.1

theorem hexEncode_denotes (bytes : Bytes) : Text.hexBytes (hexEncode bytes).toList = some bytes := by
  have digit : ∀ value < 16, Text.hexDigit (("0123456789abcdef".toList)[value]?.getD '0') = some value := by decide
  simp only [hexEncode, String.toList_ofList]
  induction bytes with
  | nil => rfl
  | cons byte bytes ih =>
    refine Text.hexBytes_pair.mpr ⟨_, _, bytes, digit _ ?_, digit _ ?_, ih, ?_⟩
    · have range := byte.toNat_lt
      omega
    · exact Nat.mod_lt _ (by decide)
    · rw [Nat.div_add_mod]
      simp

theorem parseHex_display (lawful : hex.Lawful) (value : BitVec (8 * size)) :
    parseHex hex size message (displayHex size value) = .ok value := by
  have denotes := hexEncode_denotes (Abi.bytesOf size value.toNat)
  have whole : (displayHex size value).toList = "0x".toList ++ (hexEncode (Abi.bytesOf size value.toNat)).toList := by
    rw [displayHex, String.toList_append]
  have trimmed : Text.trim isWhitespace (displayHex size value).toList = (displayHex size value).toList := by
    refine Text.trim_of_none fun char member => ?_
    rw [whole] at member
    rcases List.mem_append.mp member with start | digit
    · have first : char = '0' ∨ char = 'x' := by simpa using start
      rcases first with rfl | rfl <;> decide
    · exact digit_not_blank ((Text.hexBytes_digits denotes).2 char digit)
  rw [parseHex_ok lawful, stripped, trimmed, whole, List.dropPrefix?_append_of_beq _ BEq.rfl]
  exact denotes

/-- Identifier parsing accepts exactly its grammar, on exactly the texts that are not
bare digits with whitespace around; and what is displayed is always parsed back. -/
theorem from_hex_grammar (lawful : hex.Lawful) :
    (∀ s, (@Grammatical 20 (Address.fromHex hex) s ↔ ¬ PaddedDigits 20 s) ∧
      (@Grammatical 32 (MarketId.fromHex hex) s ↔ ¬ PaddedDigits 32 s) ∧
      (@Grammatical 32 (Bytes32.fromHex hex) s ↔ ¬ PaddedDigits 32 s) ∧
      (@Grammatical 32 (BatchId.fromHex hex) s ↔ ¬ PaddedDigits 32 s)) ∧
    (∀ address : Address, Address.fromHex hex address.display = .ok address) ∧
    (∀ marketId : MarketId, MarketId.fromHex hex marketId.display = .ok marketId) ∧
    (∀ bytes : Bytes32, Bytes32.fromHex hex bytes.display = .ok bytes) ∧
    ∀ batchId : BatchId, BatchId.fromHex hex batchId.display = .ok batchId :=
  ⟨fun _ => ⟨parseHex_grammatical lawful, parseHex_grammatical lawful, parseHex_grammatical lawful,
    parseHex_grammatical lawful⟩, fun _ => parseHex_display lawful _, fun _ => parseHex_display lawful _,
    fun _ => parseHex_display lawful _, fun _ => parseHex_display lawful _⟩

namespace Sample

def crate : HexCrate where
  decode text := match Text.hexBytes text with
    | some bytes => .ok bytes
    | none => .error "Invalid character"
  decodeToSlice size text := match Text.hexBytes text with
    | some bytes => if bytes.length = size then .ok bytes else .error "Invalid string length"
    | none => .error "Invalid character"

theorem crate_lawful : crate.Lawful where
  decode text bytes := by
    simp only [crate]
    split <;> simp_all
  decodeToSlice size text bytes := by
    simp only [crate]
    split
    next decoded found =>
      rw [found, Option.some.injEq]
      split
      next length => exact ⟨fun same => Except.ok.inj same ▸ ⟨rfl, length⟩, fun both => by rw [both.1]⟩
      next differs => exact ⟨fun same => (by cases same), fun both => absurd (both.1 ▸ both.2) differs⟩
    next none => simp [none]

def padded : String := String.ofList (' ' :: List.replicate 40 '0')

end Sample

/-- The grammar has the zero address here, and the parser an error. -/
theorem from_hex_grammar_fails : Denotes 20 (Text.trim isWhitespace Sample.padded.toList) 0 ∧
    Address.fromHex Sample.crate Sample.padded = .error "domain error: address must be 40 hex chars, got 41" ∧
    ¬ @Grammatical 20 (Address.fromHex Sample.crate) Sample.padded := by
  have denotes : Denotes 20 (Text.trim isWhitespace Sample.padded.toList) 0 :=
    ⟨List.replicate 40 '0', .inl (by decide +kernel), by decide, by decide +kernel⟩
  have failed : Address.fromHex Sample.crate Sample.padded = .error "domain error: address must be 40 hex chars, got 41" := by
    decide +kernel
  refine ⟨denotes, failed, fun grammatical => ?_⟩
  have parsed := (grammatical 0).mpr denotes
  rw [failed] at parsed
  cases parsed

/-- The hypothesis is met, and the grammar kept behind the prefix, whitespace or not. -/
theorem from_hex_grammar_sample : @Grammatical 20 (Address.fromHex Sample.crate)
      (String.ofList (' ' :: '0' :: 'x' :: List.replicate 40 'A')) ∧
    Address.fromHex Sample.crate (Address.display 0xABCD) = .ok 0xABCD := by
  obtain ⟨grammar, displayed, -⟩ := from_hex_grammar Sample.crate_lawful
  refine ⟨(grammar _).1.mpr ?_, displayed _⟩
  intro padded
  obtain ⟨-, length, -⟩ := padded
  exact absurd length (by decide +kernel)

end Omniscient

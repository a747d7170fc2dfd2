import Mathlib.Data.List.DropRight
import Mathlib.Tactic.Ring

/-! Texts as lists of characters: trimming at both ends, and bytes written as pairs of
hex digits. -/

namespace Text

section

variable {α : Type} {blank : α → Bool} {text : List α}

def trim (blank : α → Bool) (text : List α) : List α := (text.dropWhile blank).rdropWhile blank

def Padded (blank : α → Bool) (text : List α) : Prop :=
  (∃ item, text.head? = some item ∧ blank item = true) ∨ ∃ item, text.getLast? = some item ∧ blank item = true

theorem infix_split {word front back : List α} {separator : α} (inside : word <:+: front ++ separator :: back)
    (absent : separator ∉ word) : word <:+: front ∨ word <:+: back := by
  obtain ⟨before, behind, split⟩ := inside
  rcases List.append_eq_append_iff.mp split with ⟨rest, left, -⟩ | ⟨middle, left, right⟩
  · exact .inl ⟨before, rest, left.symm⟩
  cases middle with
  | nil => exact .inl ⟨before, [], by simpa using left⟩
  | cons first middle =>
    obtain ⟨rfl, rfl⟩ := List.cons.inj right
    rcases List.append_eq_append_iff.mp left with ⟨rest, -, crossing⟩ | ⟨rest, -, crossing⟩
    · exact absurd (crossing ▸ List.mem_append_right _ List.mem_cons_self) absent
    · cases rest with
      | nil =>
        rw [List.nil_append] at crossing
        exact absurd (crossing ▸ List.mem_cons_self) absent
      | cons _ rest =>
        rw [(List.cons.inj crossing).2]
        exact .inr ⟨rest, behind, rfl⟩

theorem trim_eq_self_iff : trim blank text = text ↔ ¬ Padded blank text := by
  have ends : trim blank text = text ↔ text.dropWhile blank = text ∧ text.rdropWhile blank = text := by
    constructor
    · intro same
      have start : text.dropWhile blank = text := by
        refine (List.dropWhile_suffix blank).eq_of_length (Nat.le_antisymm (List.dropWhile_suffix blank).length_le ?_)
        calc text.length = (trim blank text).length := by rw [same]
          _ ≤ (text.dropWhile blank).length := (List.rdropWhile_prefix blank _).length_le
      exact ⟨start, by rwa [trim, start] at same⟩
    · intro both
      obtain ⟨start, stop⟩ := both
      rw [trim, start, stop]
  rw [ends]
  cases text with
  | nil => simp [Padded]
  | cons first rest =>
    rw [List.rdropWhile_eq_self_iff, Padded, not_or]
    simp [List.dropWhile_eq_self_iff, List.getLast?_eq_some_getLast]

theorem trim_of_none (none : ∀ item ∈ text, blank item = false) : trim blank text = text := by
  refine trim_eq_self_iff.mpr ?_
  intro either
  rcases either with ⟨item, first, isBlank⟩ | ⟨item, last, isBlank⟩
  · rw [none item (List.mem_of_head? first)] at isBlank
    cases isBlank
  · rw [none item (List.mem_of_getLast? last)] at isBlank
    cases isBlank

end

def hexDigit (char : Char) : Option Nat :=
  if '0'.toNat ≤ char.toNat ∧ char.toNat ≤ '9'.toNat then some (char.toNat - '0'.toNat)
  else if 'a'.toNat ≤ char.toNat ∧ char.toNat ≤ 'f'.toNat then some (char.toNat - 'a'.toNat + 10)
  else if 'A'.toNat ≤ char.toNat ∧ char.toNat ≤ 'F'.toNat then some (char.toNat - 'A'.toNat + 10)
  else none

def isHexDigit (char : Char) : Bool := (hexDigit char).isSome

/-- The bytes that a text of hex digits denotes, two digits to a byte. -/
def hexBytes : List Char → Option (List UInt8)
  | [] => some []
  | [_] => none
  | high :: low :: rest => do
    let high ← hexDigit high
    let low ← hexDigit low
    let bytes ← hexBytes rest
    return (16 * high + low).toUInt8 :: bytes

theorem hexDigit_some {char : Char} {value : Nat} : hexDigit char = some value ↔
    48 ≤ char.toNat ∧ char.toNat ≤ 57 ∧ value + 48 = char.toNat ∨
    97 ≤ char.toNat ∧ char.toNat ≤ 102 ∧ value + 87 = char.toNat ∨
    65 ≤ char.toNat ∧ char.toNat ≤ 70 ∧ value + 55 = char.toNat := by
  have codes : '0'.toNat = 48 ∧ '9'.toNat = 57 ∧ 'a'.toNat = 97 ∧ 'f'.toNat = 102 ∧ 'A'.toNat = 65 ∧ 'F'.toNat = 70 := by
    decide
  simp only [hexDigit, codes]
  split
  next decimal =>
    rw [Option.some.injEq]
    omega
  next =>
    split
    next lower =>
      rw [Option.some.injEq]
      omega
    next =>
      split
      next upper =>
        rw [Option.some.injEq]
        omega
      next =>
        simp only [reduceCtorEq, false_iff]
        omega

theorem hexDigit_lt {char : Char} {value : Nat} (digit : hexDigit char = some value) : value < 16 := by
  have code := hexDigit_some.mp digit
  omega

theorem isHexDigit_iff {char : Char} : isHexDigit char = true ↔ 48 ≤ char.toNat ∧ char.toNat ≤ 57 ∨
    97 ≤ char.toNat ∧ char.toNat ≤ 102 ∨ 65 ≤ char.toNat ∧ char.toNat ≤ 70 := by
  simp only [isHexDigit, Option.isSome_iff_exists, hexDigit_some]
  constructor
  · intro digit
    obtain ⟨value, code⟩ := digit
    omega
  · intro range
    rcases range with decimal | lower | upper
    · exact ⟨char.toNat - 48, by omega⟩
    · exact ⟨char.toNat - 87, by omega⟩
    · exact ⟨char.toNat - 55, by omega⟩

theorem hexBytes_pair {high low : Char} {rest : List Char} {bytes : List UInt8} :
    hexBytes (high :: low :: rest) = some bytes ↔ ∃ h l tail, hexDigit high = some h ∧ hexDigit low = some l ∧
      hexBytes rest = some tail ∧ bytes = (16 * h + l).toUInt8 :: tail := by
  simp only [hexBytes, Option.bind_eq_bind, Option.bind_eq_some_iff, Option.pure_def, Option.some.injEq]
  constructor
  · intro holds
    obtain ⟨h, first, l, second, tail, later, rfl⟩ := holds
    exact ⟨h, l, tail, first, second, later, rfl⟩
  · intro holds
    obtain ⟨h, l, tail, first, second, later, rfl⟩ := holds
    exact ⟨h, first, l, second, tail, later, rfl⟩

theorem hexBytes_digits {text : List Char} {bytes : List UInt8} (denotes : hexBytes text = some bytes) :
    text.length = 2 * bytes.length ∧ ∀ char ∈ text, isHexDigit char = true := by
  induction text using hexBytes.induct generalizing bytes with
  | case1 =>
    cases denotes
    simp
  | case2 => cases denotes
  | case3 high low rest ih =>
    obtain ⟨h, l, tail, first, second, later, rfl⟩ := hexBytes_pair.mp denotes
    obtain ⟨length, digits⟩ := ih later
    refine ⟨?_, ?_⟩
    · rw [List.length_cons, List.length_cons, List.length_cons, length]
      omega
    · simp only [List.forall_mem_cons]
      exact ⟨by simp [isHexDigit, first], by simp [isHexDigit, second], digits⟩

theorem hexBytes_iff {text : List Char} {count : Nat} : (∃ bytes, hexBytes text = some bytes ∧ bytes.length = count) ↔
    text.length = 2 * count ∧ ∀ char ∈ text, isHexDigit char = true := by
  constructor
  · intro holds
    obtain ⟨bytes, denotes, rfl⟩ := holds
    exact hexBytes_digits denotes
  · intro spelled
    obtain ⟨length, digits⟩ := spelled
    induction text using hexBytes.induct generalizing count with
    | case1 =>
      simp only [List.length_nil] at length
      exact ⟨[], rfl, by simp only [List.length_nil]; omega⟩
    | case2 => simp at length; omega
    | case3 high low rest ih =>
      simp only [List.forall_mem_cons] at digits
      obtain ⟨first, second, later⟩ := digits
      simp only [List.length_cons] at length
      obtain ⟨tail, denotes, size⟩ := @ih (count - 1) (by omega) later
      obtain ⟨h, high_⟩ := Option.isSome_iff_exists.mp first
      obtain ⟨l, low_⟩ := Option.isSome_iff_exists.mp second
      exact ⟨_, hexBytes_pair.mpr ⟨h, l, tail, high_, low_, denotes, rfl⟩, by rw [List.length_cons, size]; omega⟩

def hexValue (text : List Char) (start : Nat) : Nat :=
  text.foldl (fun value char => 16 * value + (hexDigit char).getD 0) start

theorem hexBytes_value {text : List Char} {bytes : List UInt8} (denotes : hexBytes text = some bytes) (start : Nat) :
    bytes.foldl (fun value byte => 256 * value + byte.toNat) start = hexValue text start := by
  induction text using hexBytes.induct generalizing bytes start with
  | case1 =>
    cases denotes
    rfl
  | case2 => cases denotes
  | case3 high low rest ih =>
    obtain ⟨h, l, tail, first, second, later, rfl⟩ := hexBytes_pair.mp denotes
    have one := hexDigit_lt first
    have two := hexDigit_lt second
    have byte : ((16 * h + l).toUInt8).toNat = 16 * h + l := by
      rw [UInt8.toNat_ofNat', Nat.mod_eq_of_lt (by omega)]
    have step : 256 * start + (16 * h + l) = 16 * (16 * start + h) + l := by ring
    rw [List.foldl_cons, byte, ih later, step]
    simp [hexValue, first, second]

private theorem digitChar_value : ∀ value < 16, hexDigit value.digitChar = some value := by decide

theorem toDigits_digits (number : Nat) : ∀ char ∈ Nat.toDigits 16 number, isHexDigit char = true := by
  induction number using Nat.strongRecOn with
  | ind number ih =>
    rw [Nat.toDigits_eq_if (by decide)]
    split
    next small => simp [isHexDigit, digitChar_value number small]
    next large =>
      intro char member
      rcases List.mem_append.mp member with earlier | last
      · exact ih (number / 16) (by omega) char earlier
      · rw [List.mem_singleton.mp last, isHexDigit, digitChar_value _ (Nat.mod_lt _ (by decide)), Option.isSome_some]

theorem toDigits_value (number : Nat) : hexValue (Nat.toDigits 16 number) 0 = number := by
  induction number using Nat.strongRecOn with
  | ind number ih =>
    rw [Nat.toDigits_eq_if (by decide)]
    split
    next small => simp [hexValue, digitChar_value number small]
    next large =>
      have earlier := ih (number / 16) (by omega)
      unfold hexValue at earlier ⊢
      rw [List.foldl_append, earlier, List.foldl_cons, List.foldl_nil, digitChar_value _ (Nat.mod_lt _ (by decide)),
        Option.getD_some, Nat.div_add_mod]

end Text

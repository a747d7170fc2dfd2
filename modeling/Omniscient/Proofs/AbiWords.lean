import Mathlib.Tactic.Linarith
import Mathlib.Tactic.Positivity
import Mathlib.Tactic.Ring
import Omniscient.Evm

/-! The bytes of a number, and what can be told from them: a fixed count of bytes
holds any number below its range, so words side by side are read back one by one. -/

namespace Omniscient.Abi

theorem bytesOf_succ (count value : Nat) :
    bytesOf (count + 1) value = (value / 256 ^ count).toUInt8 :: bytesOf count value := by
  simp only [bytesOf, List.range_succ_eq_map, List.map_cons, List.map_map, Nat.add_sub_cancel, Nat.sub_zero]
  congr 1
  apply List.map_congr_left
  intro index _
  rw [Function.comp_apply, Nat.sub_sub, Nat.add_comm 1]

@[simp] theorem bytesOf_length (count value : Nat) : (bytesOf count value).length = count := by simp [bytesOf]

@[simp] theorem word_length (value : Nat) : (word value).length = 32 := bytesOf_length 32 value

theorem bytesOf_read (count value start : Nat) :
    (bytesOf count value).foldl (fun value byte => 256 * value + byte.toNat) start =
      256 ^ count * start + value % 256 ^ count := by
  induction count generalizing start with
  | zero => simp [bytesOf, Nat.mod_one]
  | succ count ih =>
    rw [bytesOf_succ, List.foldl_cons, ih, Nat.mod_pow_succ]
    have byte : (value / 256 ^ count).toUInt8.toNat = value / 256 ^ count % 256 := by simp
    rw [byte]
    ring

theorem word_read {value : Nat} (fits : value < 2 ^ 256) :
    (word value).foldl (fun value byte => 256 * value + byte.toNat) 0 = value := by
  have size : 256 ^ 32 = 2 ^ 256 := by norm_num
  rw [word, bytesOf_read, Nat.mul_zero, Nat.zero_add, size, Nat.mod_eq_of_lt fits]

theorem word_injective {value other : Nat} (fits : value < 2 ^ 256) (small : other < 2 ^ 256)
    (same : word value = word other) : value = other := by
  rw [← word_read fits, same, word_read small]

theorem word_append_inj {w : Nat} {value other : BitVec w} {rest rest' : Bytes} (width : w ≤ 256)
    (same : word value.toNat ++ rest = word other.toNat ++ rest') : value = other ∧ rest = rest' := by
  obtain ⟨first, later⟩ := List.append_inj same (by simp)
  have fits (value : BitVec w) : value.toNat < 2 ^ 256 := value.isLt.trans_le (Nat.pow_le_pow_right (by decide) width)
  exact ⟨BitVec.eq_of_toNat_eq (word_injective (fits value) (fits other) first), later⟩

theorem bytesOf_padded {count value : Nat} (fits : value < 256 ^ count) (extra : Nat) :
    bytesOf (extra + count) value = List.replicate extra 0 ++ bytesOf count value := by
  induction extra with
  | zero => simp
  | succ extra ih =>
    have below : value < 256 ^ (extra + count) := fits.trans_le (Nat.pow_le_pow_right (by decide) (Nat.le_add_left ..))
    rw [Nat.add_right_comm, bytesOf_succ, Nat.div_eq_of_lt below, ih]
    rfl

theorem read_start (bytes : Bytes) (start : Nat) :
    bytes.foldl (fun value byte => 256 * value + byte.toNat) start =
      256 ^ bytes.length * start + bytes.foldl (fun value byte => 256 * value + byte.toNat) 0 := by
  induction bytes generalizing start with
  | nil => simp
  | cons byte bytes ih =>
    rw [List.foldl_cons, List.foldl_cons, ih, ih (256 * 0 + byte.toNat), List.length_cons]
    ring

theorem read_lt (bytes : Bytes) :
    bytes.foldl (fun value byte => 256 * value + byte.toNat) 0 < 256 ^ bytes.length := by
  induction bytes with
  | nil => simp
  | cons byte bytes ih =>
    have small : byte.toNat + 1 ≤ 256 := byte.toNat_lt
    rw [List.foldl_cons, read_start, List.length_cons]
    calc 256 ^ bytes.length * (256 * 0 + byte.toNat) + bytes.foldl (fun value byte => 256 * value + byte.toNat) 0
      _ < 256 ^ bytes.length * (byte.toNat + 1) := by linarith
      _ ≤ 256 ^ bytes.length * 256 := Nat.mul_le_mul_left _ small
      _ = 256 ^ (bytes.length + 1) := (pow_succ ..).symm

private theorem bytesOf_add (count upper value : Nat) : bytesOf count
    (256 ^ count * upper + value) = bytesOf count value := by
  induction count generalizing upper with
  | zero => rfl
  | succ count ih =>
    have split : 256 ^ (count + 1) * upper + value = 256 ^ count * (256 * upper) + value := by ring
    rw [bytesOf_succ, bytesOf_succ, split, ih, Nat.mul_add_div (by positivity)]
    congr 1
    apply UInt8.toNat_inj.mp
    simp

theorem bytesOf_of_read (bytes : Bytes) :
    bytesOf bytes.length (bytes.foldl (fun value byte => 256 * value + byte.toNat) 0) = bytes := by
  induction bytes with
  | nil => rfl
  | cons byte bytes ih =>
    rw [List.foldl_cons, read_start, List.length_cons, bytesOf_succ, bytesOf_add, ih,
      Nat.mul_add_div (by positivity), Nat.div_eq_of_lt (read_lt bytes)]
    congr 1
    apply UInt8.toNat_inj.mp
    simp

end Omniscient.Abi

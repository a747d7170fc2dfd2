import Mathlib.Data.BitVec

/-! Fixed-width words with checked arithmetic. An operation returns nothing when
its exact result leaves the range of the type; an explicit cast between the
signed and the unsigned reading keeps the bits. Each operation is described once
by the integer equation it stands for. -/

namespace Word

variable {w : Nat}

def add (x y : BitVec w) : Option (BitVec w) := if x.uaddOverflow y then none else some (x + y)

def sub (x y : BitVec w) : Option (BitVec w) := if x.usubOverflow y then none else some (x - y)

def mul (x y : BitVec w) : Option (BitVec w) := if x.umulOverflow y then none else some (x * y)

def addSigned (x y : BitVec w) : Option (BitVec w) := if x.saddOverflow y then none else some (x + y)

def subSigned (x y : BitVec w) : Option (BitVec w) := if x.ssubOverflow y then none else some (x - y)

def mulSigned (x y : BitVec w) : Option (BitVec w) := if x.smulOverflow y then none else some (x * y)

def negSigned (x : BitVec w) : Option (BitVec w) := if x.negOverflow then none else some (-x)

/-- Each checked operation is exact as soon as its wrapped result is right below
the overflow test and an exact result passes that test. -/
private theorem checked_some {overflow : Bool} {wrapped z : BitVec w} {exact : Prop}
    (sound : overflow = false → (wrapped = z ↔ exact)) (fits : exact → overflow = false) :
    (if overflow then none else some wrapped) = some z ↔ exact := by
  cases overflow with
  | true => simpa using fits
  | false => simpa using sound rfl

theorem signed_range (x : BitVec w) : -2 ^ (w - 1) ≤ x.toInt ∧ x.toInt < 2 ^ (w - 1) :=
  ⟨BitVec.le_toInt x, BitVec.toInt_lt⟩

theorem add_some {x y z : BitVec w} : add x y = some z ↔ z.toNat = x.toNat + y.toNat := by
  apply checked_some
  · intro fits
    have bound : x.toNat + y.toNat < 2 ^ w := by simpa [BitVec.uaddOverflow] using fits
    rw [← BitVec.toNat_inj, BitVec.toNat_add_of_lt bound, eq_comm]
  · intro sum
    have bound := z.isLt
    simp only [BitVec.uaddOverflow, decide_eq_false_iff_not]
    omega

theorem sub_some {x y z : BitVec w} : sub x y = some z ↔ z.toNat + y.toNat = x.toNat := by
  apply checked_some
  · intro fits
    have bound : y.toNat ≤ x.toNat := by simpa [BitVec.usubOverflow] using fits
    rw [← BitVec.toNat_inj, BitVec.toNat_sub_of_le (BitVec.le_def.mpr bound)]
    omega
  · intro difference
    simp only [BitVec.usubOverflow, decide_eq_false_iff_not]
    omega

theorem mul_some {x y z : BitVec w} : mul x y = some z ↔ z.toNat = x.toNat * y.toNat := by
  apply checked_some
  · intro fits
    have bound : x.toNat * y.toNat < 2 ^ w := by simpa [BitVec.umulOverflow] using fits
    rw [← BitVec.toNat_inj, BitVec.toNat_mul_of_lt bound, eq_comm]
  · intro product
    have bound := z.isLt
    simp only [BitVec.umulOverflow, decide_eq_false_iff_not]
    omega

theorem addSigned_some {x y z : BitVec w} : addSigned x y = some z ↔ z.toInt = x.toInt + y.toInt := by
  apply checked_some
  · intro fits
    rw [← BitVec.toInt_inj, BitVec.toInt_add_of_not_saddOverflow (by simp [fits]), eq_comm]
  · intro sum
    have := signed_range z
    simp only [BitVec.saddOverflow, Bool.or_eq_false_iff, decide_eq_false_iff_not]
    omega

theorem subSigned_some {x y z : BitVec w} : subSigned x y = some z ↔ z.toInt = x.toInt - y.toInt := by
  apply checked_some
  · intro fits
    rw [← BitVec.toInt_inj, BitVec.toInt_sub_of_not_ssubOverflow (by simp [fits]), eq_comm]
  · intro difference
    have := signed_range z
    simp only [BitVec.ssubOverflow, Bool.or_eq_false_iff, decide_eq_false_iff_not]
    omega

theorem mulSigned_some {x y z : BitVec w} : mulSigned x y = some z ↔ z.toInt = x.toInt * y.toInt := by
  apply checked_some
  · intro fits
    rw [← BitVec.toInt_inj, BitVec.toInt_mul_of_not_smulOverflow (by simp [fits]), eq_comm]
  · intro product
    have := signed_range z
    simp only [BitVec.smulOverflow, Bool.or_eq_false_iff, decide_eq_false_iff_not]
    omega

theorem negSigned_some {x z : BitVec w} : negSigned x = some z ↔ z.toInt = -x.toInt := by
  apply checked_some
  · intro fits
    rw [← BitVec.toInt_inj, BitVec.toInt_neg_of_not_negOverflow (by simp [fits]), eq_comm]
  · intro opposite
    have := signed_range z
    simp only [BitVec.negOverflow, beq_eq_false_iff_ne]
    omega

theorem add_fits {x y : BitVec w} (fits : x.toNat + y.toNat < 2 ^ w) : ∃ z, add x y = some z :=
  ⟨x + y, add_some.mpr (BitVec.toNat_add_of_lt fits)⟩

theorem sub_fits {x y : BitVec w} (fits : y.toNat ≤ x.toNat) : ∃ z, sub x y = some z := by
  refine ⟨x - y, sub_some.mpr ?_⟩
  rw [BitVec.toNat_sub_of_le (BitVec.le_def.mpr fits)]
  omega

theorem mul_fits {x y : BitVec w} (fits : x.toNat * y.toNat < 2 ^ w) : ∃ z, mul x y = some z :=
  ⟨x * y, mul_some.mpr (BitVec.toNat_mul_of_lt fits)⟩

theorem ofInt_fits {value : Int} (low : -2 ^ (w - 1) ≤ value) (high : value < 2 ^ (w - 1)) (positive : 0 < w) :
    (BitVec.ofInt w value).toInt = value := by
  have double : (2 ^ w : Nat) = 2 * 2 ^ (w - 1) := by
    rw [← Nat.pow_succ', Nat.succ_eq_add_one, Nat.sub_add_cancel positive]
  have cast : ((2 ^ (w - 1) : Nat) : Int) = 2 ^ (w - 1) := by simp
  rw [BitVec.toInt_ofInt, Int.bmod_eq_of_le] <;> omega

theorem addSigned_fits {x y : BitVec w} (fits : (x.toInt + y.toInt).natAbs < 2 ^ (w - 1)) (positive : 0 < w) :
    ∃ z, addSigned x y = some z := by
  have cast : ((2 ^ (w - 1) : Nat) : Int) = 2 ^ (w - 1) := by simp
  exact ⟨_, addSigned_some.mpr (ofInt_fits (by omega) (by omega) positive)⟩

theorem subSigned_fits {x y : BitVec w} (fits : (x.toInt - y.toInt).natAbs < 2 ^ (w - 1)) (positive : 0 < w) :
    ∃ z, subSigned x y = some z := by
  have cast : ((2 ^ (w - 1) : Nat) : Int) = 2 ^ (w - 1) := by simp
  exact ⟨_, subSigned_some.mpr (ofInt_fits (by omega) (by omega) positive)⟩

theorem mulSigned_fits {x y : BitVec w} (fits : (x.toInt * y.toInt).natAbs < 2 ^ (w - 1)) (positive : 0 < w) :
    ∃ z, mulSigned x y = some z := by
  have cast : ((2 ^ (w - 1) : Nat) : Int) = 2 ^ (w - 1) := by simp
  exact ⟨_, mulSigned_some.mpr (ofInt_fits (by omega) (by omega) positive)⟩

theorem negSigned_fits {x : BitVec w} (fits : x.toInt.natAbs < 2 ^ (w - 1)) (positive : 0 < w) :
    ∃ z, negSigned x = some z := by
  have cast : ((2 ^ (w - 1) : Nat) : Int) = 2 ^ (w - 1) := by simp
  exact ⟨_, negSigned_some.mpr (ofInt_fits (by omega) (by omega) positive)⟩

end Word

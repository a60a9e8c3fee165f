import Mathlib.Algebra.Group.Int.Defs
import Mathlib.Algebra.Group.Nat.Defs
import Mathlib.Tactic.Common

/-!
# 64-bit signed arithmetic as arithmetic on integers

Addition, subtraction and multiplication of `Int64` wrap around. Where
the exact result is in range they agree with the operations on `Int`;
the lemmas here move a goal to `Int`, where `omega` closes it.
-/

namespace MachineInt

open UInt64

/-- The integers an `Int64` can hold. -/
def InRange (x : Int) : Prop := -2 ^ 63 ≤ x ∧ x < 2 ^ 63

instance (x : Int) : Decidable (InRange x) := inferInstanceAs (Decidable (_ ∧ _))

theorem inRange_toInt (a : Int64) : InRange a.toInt := ⟨a.le_toInt, a.toInt_lt⟩

theorem bmod_of_inRange {x : Int} (h : InRange x) : x.bmod (2 ^ 64) = x :=
  Int.bmod_eq_of_le (by have := h.1; omega) (by have := h.2; omega)

variable {a b : Int64} {v : UInt64}

theorem toInt_add (h : InRange (a.toInt + b.toInt)) : (a + b).toInt = a.toInt + b.toInt := by
  rw [Int64.toInt_add, bmod_of_inRange h]

/-- The next number, short of the largest one. -/
theorem toInt_succ (h : a ≠ Int64.maxValue) : (a + 1).toInt = a.toInt + 1 := by
  have hne : a.toInt ≠ Int64.maxValue.toInt := fun heq => h (Int64.toInt_inj.mp heq)
  have hmax := Int64.toInt_maxValue
  have hone := Int64.toInt_one
  have hlt := a.toInt_lt
  have hge := a.le_toInt
  rw [toInt_add ⟨by omega, by omega⟩, hone]

theorem toInt_sub (h : InRange (a.toInt - b.toInt)) : (a - b).toInt = a.toInt - b.toInt := by
  rw [Int64.toInt_sub, bmod_of_inRange h]

theorem toInt_sub_of_nonneg (ha : 0 ≤ a.toInt) (hb : 0 ≤ b.toInt) :
    (a - b).toInt = a.toInt - b.toInt := by
  have hlt := a.toInt_lt
  have hlt' := b.toInt_lt
  exact toInt_sub ⟨by omega, by omega⟩

theorem toInt_mul (h : InRange (a.toInt * b.toInt)) : (a * b).toInt = a.toInt * b.toInt := by
  rw [Int64.toInt_mul, bmod_of_inRange h]

theorem toInt_neg (h : InRange (-a.toInt)) : (-a).toInt = -a.toInt := by
  rw [Int64.toInt_neg, bmod_of_inRange h]

theorem toInt_max (a b : Int64) : (max a b).toInt = max a.toInt b.toInt := by
  show (if a ≤ b then b else a).toInt = _
  split <;> rename_i h <;> rw [Int64.le_iff_toInt_le] at h <;> omega

theorem toInt_min (a b : Int64) : (min a b).toInt = min a.toInt b.toInt := by
  show (if a ≤ b then a else b).toInt = _
  split <;> rename_i h <;> rw [Int64.le_iff_toInt_le] at h <;> omega

/-- A 32-bit number keeps its value. -/
theorem toInt_ofUInt32 (v : UInt32) : v.toUInt64.toInt64.toInt = v.toNat := by
  have hlt := v.toNat_lt
  rw [Int64.toInt, toBitVec_toInt64, BitVec.toInt_eq_toNat_bmod, toNat_toBitVec,
    UInt32.toNat_toUInt64]
  exact bmod_of_inRange ⟨by omega, by omega⟩

theorem ofUInt32_nonneg (v : UInt32) : 0 ≤ v.toUInt64.toInt64 := by
  rw [Int64.le_iff_toInt_le, toInt_ofUInt32]
  exact Int.natCast_nonneg _

/-- So does a 64-bit number in the lower half of its range. -/
theorem toInt_ofUInt64 (h : v.toNat < 0x8000000000000000) : v.toInt64.toInt = v.toNat := by
  rw [Int64.toInt, toBitVec_toInt64, BitVec.toInt_eq_toNat_bmod, toNat_toBitVec]
  exact bmod_of_inRange ⟨by omega, by omega⟩

/-- One in the upper half becomes negative. -/
theorem toInt_ofUInt64_upper (h : 0x8000000000000000 ≤ v.toNat) :
    v.toInt64.toInt = v.toNat - 2 ^ 64 := by
  have hlt := v.toNat_lt
  rw [Int64.toInt, toBitVec_toInt64, BitVec.toInt_eq_toNat_bmod, toNat_toBitVec]
  rw [Int.bmod_def]
  split <;> omega

/-! ## Doubles

A double is a `Float`, whose operations round to nearest, ties to even. -/

def toDouble (x : Int64) : Float :=
  if x < 0 then -(0 - x).toUInt64.toFloat else x.toUInt64.toFloat

/-- A cast to a 64-bit integer cuts off the fraction. Out of range, where the
language leaves the result open, it is the processor's answer: the
smallest integer. -/
def ofDouble (d : Float) : Int64 :=
  if d < 0 then
    let t := (-d).toUInt64
    if t ≤ 0x8000000000000000 then 0 - t.toInt64 else Int64.minValue
  else
    let t := d.toUInt64
    if t < 0x8000000000000000 then t.toInt64 else Int64.minValue

end MachineInt

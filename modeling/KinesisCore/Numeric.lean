import Mathlib.Algebra.Order.Floor.Div
import Mathlib.Data.Nat.Size
import Mathlib.GroupTheory.GroupAction.Ring
import Mathlib.Tactic.Linarith
import KinesisCore.MachineInt

/-!
# Wide products and quotients (`util/numeric.cpp`)

A product of two 64-bit numbers needs 128 bits. The divisions and the square root are
written as the code has them, on words of 128 bits whose sums and products wrap around;
`fits64` and `fits63` say when a quotient is handed out. `bigDivideUnsigned_eq`,
`bigDivideUnsigned128_eq` and `toNat_mean` then show that nothing wraps around, so that each
of them is the arithmetic on natural numbers, and everything that uses them is about
natural numbers: the 128-bit value that `bigMultiply` returns, and that `bigDivide128` and
`hugeDivide` take, is a natural number there. `Uint128.bigDivide128_eq` says that the
division of a word is the division of its value.

A failed `releaseAssertOrThrow` throws.
-/

namespace KinesisCore

open Int64

variable {a : Int64}

inductive Rounding where
  | ROUND_DOWN
  | ROUND_UP
  deriving Repr, DecidableEq

/-- What `result` is set to, if it is the quotient. -/
def fits64 (x : Nat) : Option UInt64 := if x ≤ 2 ^ 64 - 1 then some (UInt64.ofNat x) else none

/-- A 64-bit number in a word of 128 bits. -/
def uint128 (A : UInt64) : BitVec 128 := BitVec.ofNat 128 A.toNat

/-- The quotient in a word; the sum wraps around. -/
def quotient (a b : BitVec 128) : Rounding → BitVec 128
  | .ROUND_DOWN => a / b
  | .ROUND_UP => (a + b - 1#128) / b

/-- `A * B / C`, or `none` when the quotient does not fit 64 bits. -/
def bigDivideUnsigned (A B C : UInt64) (rounding : Rounding) : Except String (Option UInt64) :=
  if ¬0 < C then throw "C > 0"
  else return fits64 (quotient (uint128 A * uint128 B) (uint128 C) rounding).toNat

def bigDivideUnsigned128 (a : BitVec 128) (B : UInt64) (rounding : Rounding) :
    Except String (Option UInt64) :=
  if ¬B ≠ 0 then throw "B != 0"
  else if rounding = .ROUND_UP ∧ a > BitVec.allOnes 128 - (uint128 B - 1#128) then return none
  else return fits64 (quotient a (uint128 B) rounding).toNat

/-- The end of both signed divisions. -/
def signed (r : Option UInt64) : Option Int64 :=
  r.bind fun r2 => if r2 ≤ 0x7fffffffffffffff then some r2.toInt64 else none

def bigDivide (A B C : Int64) (rounding : Rounding) : Except String (Option Int64) :=
  if ¬(0 ≤ A ∧ 0 ≤ B ∧ 0 < C) then throw "(A >= 0) && (B >= 0) && (C > 0)"
  else return signed (← bigDivideUnsigned A.toUInt64 B.toUInt64 C.toUInt64 rounding)

def bigDivideOrThrow (A B C : Int64) (rounding : Rounding) : Except String Int64 := do
  match ← bigDivide A B C rounding with
  | none => throw "overflow while performing bigDivide"
  | some res => return res

def bigMultiplyUnsigned (a b : UInt64) : BitVec 128 := uint128 a * uint128 b

def bigMultiply (a b : Int64) : Except String Nat :=
  if ¬(0 ≤ a ∧ 0 ≤ b) then throw "(a >= 0) && (b >= 0)"
  else return (bigMultiplyUnsigned a.toUInt64 b.toUInt64).toNat

def Uint128.bigDivide128 (a : BitVec 128) (B : Int64) (rounding : Rounding) :
    Except String (Option Int64) :=
  if ¬0 < B then throw "B > 0"
  else return signed (← bigDivideUnsigned128 a B.toUInt64 rounding)

/-- `a / B` for the value `a` of a word, or `none` when the quotient is above the largest
64-bit signed integer. -/
def bigDivide128 (a : Nat) (B : Int64) (rounding : Rounding) : Except String (Option Int64) :=
  if ¬0 < B then throw "B > 0"
  else
    let b := B.toUInt64.toNat
    let x := match rounding with
      | .ROUND_DOWN => a / b
      | .ROUND_UP => (a + b - 1) / b
    return if x < 2 ^ 63 then some (Int64.ofNat x) else none

def bigDivideOrThrow128 (a : Nat) (B : Int64) (rounding : Rounding) : Except String Int64 := do
  match ← bigDivide128 a B rounding with
  | none => throw "overflow while performing bigDivide"
  | some res => return res

/-- `a * B / C`, or `none` when the quotient is above the largest 64-bit signed
integer. The product has up to 159 bits, so it is divided in two parts, and every
operation of the source is written with the wrap-around of its 128 bits. -/
def hugeDivide (a : Int32) (B C : Nat) (rounding : Rounding) : Except String (Option Int64) := do
  if ¬0 ≤ a then throw "a >= 0"
  if C = 0 then throw "C != 0ul"
  if ¬C ≤ (2 ^ 31 - 1) * (2 ^ 63 - 1) then throw "C <= i32_max * i64_max"
  let Q := B / C
  let R := B % C
  if Q > 2 ^ 63 - 1 then return none
  let A := a.toInt.toNat
  let AQ := A * Q % 2 ^ 128
  let AR := A * R % 2 ^ 128
  let res := match rounding with
    | .ROUND_DOWN => (AQ + AR / C) % 2 ^ 128
    | .ROUND_UP => (AQ + ((AR + C) % 2 ^ 128 + (2 ^ 128 - 1)) % 2 ^ 128 / C) % 2 ^ 128
  return if res ≤ 2 ^ 63 - 1 then some (Int64.ofNat res) else none

/-- `(x + y + 1) / 2`, computed in 128 bits where the sum does not fit 64. -/
def mean (x y : UInt64) : UInt64 :=
  if 0xffffffffffffffff - x ≤ y then
    let temp := 1#128 + uint128 x + uint128 y
    UInt64.ofNat (temp / 2#128).toNat
  else (x + y + 1) / 2

/-- The modified Babylonian method. -/
def bigSquareRootLoop (R : BitVec 128) : Nat → UInt64 → UInt64 → Except String UInt64
  | 0, _, _ => throw "no fixed point"
  | fuel + 1, x, prev =>
    if x = prev then return x
    else do
      match ← bigDivideUnsigned128 R x .ROUND_UP with
      | none => throw "Overflow during bigSquareRoot"
      | some y => bigSquareRootLoop R fuel (mean x y) x

def uint128_bits (x : BitVec 128) : Nat := x.toNat.size

/-- The loop of the source has no bound; each round but the last lowers `x`. -/
def bigSquareRootCeil (a b : UInt64) : Except String UInt64 :=
  if a = 0 ∨ b = 0 then return 0
  else
    let R := bigMultiplyUnsigned a b - 1#128
    let numBits := uint128_bits R / 2 + 1
    let x : UInt64 := if numBits ≥ 64 then 0xffffffffffffffff else 1 <<< UInt64.ofNat numBits
    bigSquareRootLoop R (2 ^ 64 + 1) x 0

def bigSquareRoot (a b : UInt64) : Except String UInt64 := do
  let sqrtCeil ← bigSquareRootCeil a b
  return if bigMultiplyUnsigned sqrtCeil sqrtCeil ≤ bigMultiplyUnsigned a b then sqrtCeil
    else sqrtCeil - 1

/-! ## What they compute -/

theorem toNat_toUInt64 (h : 0 ≤ a.toInt) : (a.toUInt64.toNat : Int) = a.toInt := by
  have hbmod : a.toInt = (a.toUInt64.toNat : Int).bmod (2 ^ 64) := by
    rw [Int64.toInt, BitVec.toInt_eq_toNat_bmod]
    rfl
  have hnat : a.toUInt64.toNat < 2 ^ 64 := a.toUInt64.toNat_lt
  rw [Int.bmod] at hbmod
  split at hbmod <;> omega

variable {b : Int64} {rounding : Rounding} {x C : Nat}

theorem toUInt64_toNat (h : 0 ≤ a) : a.toUInt64.toNat = a.toInt.toNat := by
  have := toNat_toUInt64 (by simpa [le_iff_toInt_le] using h : 0 ≤ a.toInt)
  omega

theorem toUInt64_pos (h : 0 < a) : 0 < a.toUInt64 := by
  rw [UInt64.lt_iff_toNat_lt, toUInt64_toNat (Int64.le_of_lt h), UInt64.toNat_zero]
  rw [lt_iff_toInt_lt, toInt_zero] at h
  omega

theorem toNat_ofNat_of_le {x : Nat} (h : x ≤ 2 ^ 64 - 1) : (UInt64.ofNat x).toNat = x :=
  UInt64.toNat_ofNat_of_lt' (Nat.lt_succ_of_le h)

theorem fits64_of_le {x : Nat} (h : x ≤ 2 ^ 64 - 1) : ∃ y, fits64 x = some y ∧ y.toNat = x :=
  ⟨_, if_pos h, toNat_ofNat_of_le h⟩

theorem toNat_uint128 (A : UInt64) : (uint128 A).toNat = A.toNat := by
  have := A.toNat_lt
  rw [uint128, BitVec.toNat_ofNat, Nat.mod_eq_of_lt (by omega)]

theorem toNat_mul_le (A B : UInt64) : A.toNat * B.toNat ≤ (2 ^ 64 - 1) * (2 ^ 64 - 1) :=
  Nat.mul_le_mul (Nat.le_pred_of_lt A.toNat_lt) (Nat.le_pred_of_lt B.toNat_lt)

theorem toNat_bigMultiplyUnsigned (A B : UInt64) :
    (bigMultiplyUnsigned A B).toNat = A.toNat * B.toNat := by
  have hle := toNat_mul_le A B
  rw [bigMultiplyUnsigned, BitVec.toNat_mul, toNat_uint128, toNat_uint128,
    Nat.mod_eq_of_lt (by omega)]

theorem bigMultiply_toNat (ha : 0 ≤ a) (hb : 0 ≤ b) :
    bigMultiply a b = .ok (a.toInt.toNat * b.toInt.toNat) := by
  rw [bigMultiply, if_neg (not_not.mpr ⟨ha, hb⟩), toNat_bigMultiplyUnsigned, toUInt64_toNat ha,
    toUInt64_toNat hb]
  rfl

theorem bigMultiply_eq (ha : 0 ≤ a) (hb : 0 ≤ b) :
    bigMultiply a b = .ok (a.toInt * b.toInt).toNat := by
  rw [bigMultiply_toNat ha hb,
    Int.toNat_mul (le_iff_toInt_le.mp ha) (le_iff_toInt_le.mp hb)]

theorem bigMultiply_ok_iff : (∃ n, bigMultiply a b = .ok n) ↔ 0 ≤ a ∧ 0 ≤ b := by
  constructor
  · rintro ⟨n, h⟩
    by_contra hneg
    rw [bigMultiply, if_pos hneg] at h
    cases h
  · rintro ⟨ha, hb⟩
    exact ⟨_, bigMultiply_eq ha hb⟩

theorem bigMultiply_of_neg (h : ¬(0 ≤ a ∧ 0 ≤ b)) :
    bigMultiply a b = .error "(a >= 0) && (b >= 0)" := by
  rw [bigMultiply, if_pos h]
  rfl

/-- The quotient of two naturals under a rounding. -/
def Rounding.quot : Rounding → Nat → Nat → Nat
  | .ROUND_DOWN, a, b => a / b
  | .ROUND_UP, a, b => (a + b - 1) / b

/-- A number that fits 64 bits signed. -/
def fits63 (x : Nat) : Option Int64 := if x < 2 ^ 63 then some (Int64.ofNat x) else none

theorem fits63_eq (x : Nat) :
    fits63 x = if x ≤ 2 ^ 63 - 1 then some (Int64.ofNat x) else none :=
  if_congr (Nat.lt_iff_le_pred (by decide)) rfl rfl

variable {B A : Int64}

/-- The smaller of the two overflows decides: a quotient that fits 64 bits
signed fits 64 bits unsigned. -/
theorem signed_fits64 (q : Nat) : signed (fits64 q) = fits63 q := by
  by_cases h64 : q ≤ 2 ^ 64 - 1
  · have hr2 : UInt64.ofNat q ≤ 0x7fffffffffffffff ↔ q < 2 ^ 63 := by
      rw [UInt64.le_iff_toNat_le, toNat_ofNat_of_le h64]
      exact Nat.lt_succ_iff.symm
    simp only [fits64, h64, if_true, signed, Option.bind_some, hr2, fits63]
    rfl
  · rw [fits64, if_neg h64, fits63, if_neg (by omega)]
    rfl

theorem toNat_quotient {a b : BitVec 128} {rounding : Rounding} (hb : 0 < b.toNat)
    (h : rounding = .ROUND_UP → a.toNat + b.toNat ≤ 2 ^ 128) :
    (quotient a b rounding).toNat = rounding.quot a.toNat b.toNat := by
  cases rounding with
  | ROUND_DOWN => exact BitVec.toNat_udiv
  | ROUND_UP =>
    have hsum : (a + b - 1#128).toNat = a.toNat + b.toNat - 1 := by
      have := h rfl
      have := a.isLt
      rw [BitVec.toNat_sub, BitVec.toNat_add, BitVec.toNat_ofNat]
      omega
    rw [quotient, BitVec.toNat_udiv, hsum]
    rfl

/-- The product and the sum are within 128 bits. -/
theorem bigDivideUnsigned_eq (A B : UInt64) {C : UInt64} (hC : 0 < C) (rounding : Rounding) :
    bigDivideUnsigned A B C rounding
      = .ok (fits64 (rounding.quot (A.toNat * B.toNat) C.toNat)) := by
  have hle := toNat_mul_le A B
  have hlt := C.toNat_lt
  have hab : (uint128 A * uint128 B).toNat = _ := toNat_bigMultiplyUnsigned A B
  have hc := toNat_uint128 C
  rw [bigDivideUnsigned, if_neg (not_not_intro hC), toNat_quotient, hab, hc]
  · rfl
  · rw [hc]
    exact UInt64.lt_iff_toNat_lt.mp hC
  · intro _
    omega

/-- A number that is refused because the sum would not fit is too large for the result. -/
theorem bigDivideUnsigned128_eq (a : BitVec 128) {B : UInt64} (hB : 0 < B)
    (rounding : Rounding) :
    bigDivideUnsigned128 a B rounding = .ok (fits64 (rounding.quot a.toNat B.toNat)) := by
  have hpos : 0 < B.toNat := UInt64.lt_iff_toNat_lt.mp hB
  have hlt := B.toNat_lt
  have hb := toNat_uint128 B
  have hover : a > BitVec.allOnes 128 - (uint128 B - 1#128)
      ↔ 2 ^ 128 < a.toNat + B.toNat := by
    rw [gt_iff_lt, BitVec.lt_def, BitVec.toNat_sub, BitVec.toNat_sub, BitVec.toNat_allOnes, hb,
      BitVec.toNat_ofNat]
    omega
  have hne : B ≠ 0 := by
    rintro rfl
    exact absurd hpos (by decide)
  rw [bigDivideUnsigned128, if_neg (not_not_intro hne)]
  simp only [hover]
  split_ifs with h
  · obtain ⟨rfl, hsum⟩ := h
    have hq : 2 ^ 64 ≤ (a.toNat + B.toNat - 1) / B.toNat := by
      rw [Nat.le_div_iff_mul_le hpos]
      omega
    rw [fits64, Rounding.quot, if_neg (by omega)]
    rfl
  · rw [toNat_quotient, hb]
    · rfl
    · rwa [hb]
    · intro hup
      rw [hb]
      exact Nat.le_of_not_lt fun hsum => h ⟨hup, hsum⟩

theorem bigDivide_eq {C : Int64} (hA : 0 ≤ A) (hB : 0 ≤ B) (hC : 0 < C) (rounding : Rounding) :
    bigDivide A B C rounding
      = .ok (fits63 (rounding.quot (A.toInt.toNat * B.toInt.toNat) C.toInt.toNat)) := by
  rw [bigDivide, if_neg (by simp [hA, hB, hC]), bigDivideUnsigned_eq _ _ (toUInt64_pos hC),
    toUInt64_toNat hA, toUInt64_toNat hB, toUInt64_toNat (Int64.le_of_lt hC)]
  exact congrArg Except.ok (signed_fits64 _)

theorem bigDivide128_eq (a : Nat) (hB : 0 < B) (rounding : Rounding) :
    bigDivide128 a B rounding = .ok (fits63 (rounding.quot a B.toInt.toNat)) := by
  cases rounding <;>
  · simp only [bigDivide128, Rounding.quot, fits63, hB, toUInt64_toNat (Int64.le_of_lt hB),
      not_true_eq_false, if_false]
    rfl

theorem bigDivide128_of_nonpos {a : Nat} (h : ¬0 < B) (rounding : Rounding) :
    bigDivide128 a B rounding = .error "B > 0" := by
  rw [bigDivide128, if_pos h]
  rfl

/-- The division of a word is the division of its value. -/
theorem Uint128.bigDivide128_eq (a : BitVec 128) (B : Int64) (rounding : Rounding) :
    Uint128.bigDivide128 a B rounding = KinesisCore.bigDivide128 a.toNat B rounding := by
  by_cases hB : 0 < B
  · rw [Uint128.bigDivide128, if_neg (not_not_intro hB), KinesisCore.bigDivide128_eq _ hB,
      bigDivideUnsigned128_eq _ (toUInt64_pos hB), toUInt64_toNat (Int64.le_of_lt hB)]
    exact congrArg Except.ok (signed_fits64 _)
  · rw [Uint128.bigDivide128, if_pos hB, bigDivide128_of_nonpos hB]
    rfl

theorem bigDivideOrThrow_eq {C : Int64} (hA : 0 ≤ A) (hB : 0 ≤ B) (hC : 0 < C)
    (hx : rounding.quot (A.toInt.toNat * B.toInt.toNat) C.toInt.toNat = x)
    (hlt : x < 2 ^ 63) : bigDivideOrThrow A B C rounding = .ok (Int64.ofNat x) := by
  rw [bigDivideOrThrow, bigDivide_eq hA hB hC, hx, fits63, if_pos hlt]
  rfl

theorem bigDivideOrThrow128_eq {a : Nat} (hB : 0 < B)
    (hx : rounding.quot a B.toInt.toNat = x) (hlt : x < 2 ^ 63) :
    bigDivideOrThrow128 a B rounding = .ok (Int64.ofNat x) := by
  rw [bigDivideOrThrow128, bigDivide128_eq a hB, hx, fits63, if_pos hlt]
  rfl

/-- Splitting `B` into a multiple of the divisor and a remainder. -/
theorem Rounding.quot_split (rounding : Rounding) (A B : Nat) (hC : 0 < C) :
    A * (B / C) + rounding.quot (A * (B % C)) C = rounding.quot (A * B) C := by
  have hB : A * B = C * (A * (B / C)) + A * (B % C) := by
    calc A * B = A * (C * (B / C) + B % C) := by rw [Nat.div_add_mod]
      _ = C * (A * (B / C)) + A * (B % C) := by rw [Nat.mul_add, Nat.mul_left_comm]
  cases rounding with
  | ROUND_DOWN => rw [Rounding.quot, Rounding.quot, hB, Nat.mul_add_div hC]
  | ROUND_UP =>
    rw [Rounding.quot, Rounding.quot, hB, Nat.add_sub_assoc hC, Nat.add_sub_assoc hC,
      Nat.add_assoc, Nat.mul_add_div hC]

theorem Rounding.quot_le_of_le_mul (rounding : Rounding) {a b q : Nat} (h : a ≤ q * b)
    (hb : 0 < b) : rounding.quot a b ≤ q := by
  cases rounding with
  | ROUND_DOWN => exact Nat.div_le_of_le_mul (by rwa [Nat.mul_comm])
  | ROUND_UP =>
    rw [Rounding.quot, ← Nat.lt_succ_iff, Nat.div_lt_iff_lt_mul hb, Nat.succ_mul]
    omega

theorem Rounding.div_le_quot (rounding : Rounding) {A : Nat} (hA : 0 < A) (B C : Nat) :
    B / C ≤ rounding.quot (A * B) C := by
  have hAB : B ≤ A * B := Nat.le_mul_of_pos_left B hA
  cases rounding with
  | ROUND_DOWN => exact Nat.div_le_div_right hAB
  | ROUND_UP =>
    rcases Nat.eq_zero_or_pos C with rfl | hC
    · simp
    · exact Nat.div_le_div_right (by omega)

/-- The parts that `hugeDivide` adds up. -/
theorem hugeDivide_parts {A B : Nat} (hA : A < 2 ^ 31) (hC : 0 < C)
    (hCmax : C ≤ (2 ^ 31 - 1) * (2 ^ 63 - 1)) (hQ : B / C ≤ 2 ^ 63 - 1) :
    A * (B / C) ≤ (2 ^ 31 - 1) * (2 ^ 63 - 1)
      ∧ A * (B % C) ≤ (2 ^ 31 - 1) * ((2 ^ 31 - 1) * (2 ^ 63 - 1))
      ∧ ∀ rounding : Rounding, rounding.quot (A * (B % C)) C ≤ A := by
  have hR : B % C < C := Nat.mod_lt B hC
  exact ⟨Nat.mul_le_mul (by omega) hQ, Nat.mul_le_mul (by omega) (by omega), fun rounding =>
    rounding.quot_le_of_le_mul (Nat.mul_le_mul_left A (hR.le)) hC⟩

/-- No operation of `hugeDivide` wraps around within the bounds it asserts. -/
theorem hugeDivide_eq {a : Int32} (ha : 0 < a.toInt) (B : Nat) (hC : 0 < C)
    (hCmax : C ≤ (2 ^ 31 - 1) * (2 ^ 63 - 1)) (rounding : Rounding) :
    hugeDivide a B C rounding = .ok (fits63 (rounding.quot (a.toInt.toNat * B) C)) := by
  have halt := a.toInt_lt
  generalize hA : a.toInt.toNat = A
  have hApos : 0 < A := by omega
  have ha' : 0 ≤ a := by
    rw [Int32.le_iff_toInt_le]
    exact Int.le_of_lt ha
  simp only [hugeDivide, ha', Nat.ne_of_gt hC, hCmax, not_true_eq_false, if_false, bind,
    Except.bind, pure, Except.pure, hA]
  by_cases hQ : B / C > 2 ^ 63 - 1
  · -- the quotient is no less than `B / C`
    have hle := rounding.div_le_quot hApos B C
    rw [if_pos hQ, fits63, if_neg (by omega)]
  · obtain ⟨hAQ, hAR, hparts⟩ := hugeDivide_parts (A := A) (by omega) hC hCmax
      (by omega : B / C ≤ _)
    have hpart := hparts rounding
    have hmodAQ := Nat.mod_eq_of_lt (show A * (B / C) < 2 ^ 128 by omega)
    rw [if_neg hQ, ← rounding.quot_split A B hC]
    cases rounding with
    | ROUND_DOWN =>
      rw [Rounding.quot] at hpart ⊢
      have hmodAR := Nat.mod_eq_of_lt (show A * (B % C) < 2 ^ 128 by omega)
      simp only [hmodAQ, hmodAR]
      rw [Nat.mod_eq_of_lt (by omega), fits63_eq]
    | ROUND_UP =>
      rw [Rounding.quot] at hpart ⊢
      have hsum : ((A * (B % C) % 2 ^ 128 + C) % 2 ^ 128 + (2 ^ 128 - 1)) % 2 ^ 128
          = A * (B % C) + C - 1 := by omega
      simp only [hmodAQ, hsum]
      rw [Nat.mod_eq_of_lt (by omega), fits63_eq]

/-- The division returns true iff `q` is at most `max`, and then returns `q`. -/
def Exact {α : Type} (value : α → Int) (max q : Nat) (r : Option α) : Prop :=
  (r.isSome ↔ q ≤ max) ∧ ∀ result ∈ r, value result = q

theorem Exact.ite {α : Type} {value : α → Int} {max q : Nat} {result : α}
    (h : q ≤ max → value result = q) :
    Exact value max q (if q ≤ max then some result else none) := by
  split_ifs with hle
  · refine ⟨iff_of_true rfl hle, ?_⟩
    rintro _ ⟨⟩
    exact h hle
  · exact ⟨iff_of_false (by simp) hle, by simp⟩

theorem fits63_exact (q : Nat) : Exact toInt (2 ^ 63 - 1) q (fits63 q) := by
  rw [fits63_eq]
  exact .ite fun hle => toInt_ofNat_of_lt (Nat.lt_succ_of_le hle)

theorem Rounding.quot_eq (rounding : Rounding) (a b : Nat) : rounding.quot a b
    = match rounding with | .ROUND_DOWN => a / b | .ROUND_UP => a ⌈/⌉ b := by
  cases rounding with
  | ROUND_DOWN => rfl
  | ROUND_UP => exact (Nat.ceilDiv_eq_add_pred_div _ _).symm

/-- `hugeDivide` gives the quotient of the unbounded product wherever that fits 64 bits
signed; and where it goes on to compute it, none of its 128-bit operations overflows. -/
theorem hugeDivide_exact (a : Int32) (ha : 1 ≤ a) (B C : Nat) (hC : 0 < C)
    (hCmax : C < (2 ^ 31 - 1) * (2 ^ 63 - 1)) (rounding : Rounding) :
    let A := a.toInt.toNat
    let q : Nat := match rounding with
      | .ROUND_DOWN => A * B / C
      | .ROUND_UP => A * B ⌈/⌉ C
    (∃ r, hugeDivide a B C rounding = .ok r ∧ (r.isSome ↔ q ≤ 2 ^ 63 - 1)
        ∧ ∀ result ∈ r, result.toInt = q)
      ∧ (B / C ≤ 2 ^ 63 - 1 → A * (B / C) < 2 ^ 128 ∧ A * (B % C) + C < 2 ^ 128
        ∧ A * (B / C) + A * (B % C) / C < 2 ^ 128
        ∧ A * (B / C) + (A * (B % C) + C - 1) / C < 2 ^ 128) := by
  intro A q
  have hone : (1 : Int32).toInt = 1 := by decide
  have hpos : 0 < a.toInt := by
    rw [Int32.le_iff_toInt_le, hone] at ha
    omega
  have hq : rounding.quot (A * B) C = q := rounding.quot_eq _ _
  constructor
  · rw [← hq]
    exact ⟨_, hugeDivide_eq hpos B hC hCmax.le rounding, fits63_exact _⟩
  · intro hQ
    have halt := a.toInt_lt
    obtain ⟨hAQ, hAR, hparts⟩ := hugeDivide_parts (A := A) (by omega) hC hCmax.le hQ
    have hdown : A * (B % C) / C ≤ A := hparts .ROUND_DOWN
    have hup : (A * (B % C) + C - 1) / C ≤ A := hparts .ROUND_UP
    exact ⟨by omega, by omega, by omega, by omega⟩

/-- Four thirds, rounded up. -/
theorem hugeDivide_exact_thirds : ∃ r, hugeDivide 2 2 3 .ROUND_UP = .ok r
    ∧ (r.isSome ↔ 2 * 2 ⌈/⌉ 3 ≤ 2 ^ 63 - 1) ∧ ∀ result ∈ r, result.toInt = (2 * 2 ⌈/⌉ 3 : Nat) :=
  (hugeDivide_exact 2 (by decide) 2 3 (by decide) (by decide) .ROUND_UP).1

theorem fits64_exact (q : Nat) : Exact (fun x => x.toNat) (2 ^ 64 - 1) q (fits64 q) :=
  .ite fun hle => congrArg Nat.cast (toNat_ofNat_of_le hle)

/-- All four divisions return true iff the unbounded quotient fits the result, and then
return it. -/
theorem Uint128.bigDivide_exact (rounding : Rounding) :
    let q (a b : Nat) : Nat := match rounding with
      | .ROUND_DOWN => a / b
      | .ROUND_UP => a ⌈/⌉ b
    (∀ A B C : Int64, 0 ≤ A → 0 ≤ B → 0 < C → ∃ r, bigDivide A B C rounding = .ok r
        ∧ Exact toInt (2 ^ 63 - 1) (q (A.toInt.toNat * B.toInt.toNat) C.toInt.toNat) r)
      ∧ (∀ A B C : UInt64, 0 < C → ∃ r, bigDivideUnsigned A B C rounding = .ok r
        ∧ Exact (fun x => x.toNat) (2 ^ 64 - 1) (q (A.toNat * B.toNat) C.toNat) r)
      ∧ (∀ (a : BitVec 128) (B : Int64), 0 < B → ∃ r, Uint128.bigDivide128 a B rounding = .ok r
        ∧ Exact toInt (2 ^ 63 - 1) (q a.toNat B.toInt.toNat) r)
      ∧ ∀ (a : BitVec 128) (B : UInt64), 0 < B → ∃ r, bigDivideUnsigned128 a B rounding = .ok r
        ∧ Exact (fun x => x.toNat) (2 ^ 64 - 1) (q a.toNat B.toNat) r := by
  intro q
  have hq : rounding.quot = q := funext₂ rounding.quot_eq
  refine ⟨fun A B C hA hB hC => ⟨_, ?_, fits63_exact _⟩, fun A B C hC => ⟨_, ?_, fits64_exact _⟩,
    fun a B hB => ⟨_, ?_, fits63_exact _⟩, fun a B hB => ⟨_, ?_, fits64_exact _⟩⟩
  · rw [bigDivide_eq hA hB hC, hq]
  · rw [bigDivideUnsigned_eq _ _ hC, hq]
  · rw [Uint128.bigDivide128_eq, KinesisCore.bigDivide128_eq _ hB, hq]
  · rw [bigDivideUnsigned128_eq _ hB, hq]

/-! ## The square root

A round replaces `x` by the mean of `x` and `R / x`, both rounded up. `babylonian_round` is
the argument on natural numbers: from above the root of `R` a round stays above it, and
stands still at the lowest such number only. `toNat_mean` and `bigDivideUnsigned128_eq` carry
it to the words (`bigSquareRootLoop_ok`), from the seed on (`lt_seed_sq`). -/

section

variable {R x : Nat} {y next : Nat}

/-- The arithmetic mean is above the geometric one, and equal to it only if `y = x`. -/
theorem lt_mean_sq (hx : R < x * x) (hlow : R ≤ x * y) (hyx : y ≤ x)
    (hmean : x + y ≤ 2 * next) : R < next * next := by
  obtain ⟨d, rfl⟩ := Nat.exists_eq_add_of_le hyx
  rcases Nat.eq_zero_or_pos d with rfl | hd
  · nlinarith
  · nlinarith

/-- One round, from a number above the root of `R`: it stays above, does not go up, and stands
still at the lowest such number only. -/
theorem babylonian_round (hx : R < x * x) (hy : (R + x - 1) / x = y)
    (hnext : (x + y + 1) / 2 = next) :
    y ≤ x ∧ R < next * next ∧ next ≤ x ∧ (next = x → (x - 1) * (x - 1) ≤ R) := by
  have hpos : 0 < x := Nat.pos_of_mul_pos_left (Nat.zero_lt_of_lt hx)
  have hlow := Nat.lt_mul_div_succ (R + x - 1) hpos
  have hhigh := Nat.mul_div_le (R + x - 1) x
  have hyx : y ≤ x := by
    rw [← hy, ← Nat.lt_succ_iff, Nat.div_lt_iff_lt_mul hpos, Nat.succ_mul]
    omega
  rw [hy] at hlow hhigh
  rw [Nat.mul_succ] at hlow
  refine ⟨hyx, lt_mean_sq hx (by omega) hyx (by omega), by omega, fun hstill => ?_⟩
  obtain ⟨z, rfl⟩ := Nat.exists_eq_succ_of_ne_zero hpos.ne'
  have hz : z.succ * z ≤ z.succ * y := Nat.mul_le_mul_left _ (by omega)
  rw [Nat.succ_mul] at hz
  rw [Nat.succ_sub_one]
  omega

/-- The guard tells whether the sum fits 64 bits. -/
theorem toNat_mean (x y : UInt64) : (mean x y).toNat = (x.toNat + y.toNat + 1) / 2 := by
  have hx := x.toNat_lt
  have hy := y.toNat_lt
  have hmax : (0xffffffffffffffff : UInt64).toNat = 2 ^ 64 - 1 := rfl
  have hsub : (0xffffffffffffffff - x).toNat = 2 ^ 64 - 1 - x.toNat :=
    UInt64.toNat_sub_of_le _ _ (UInt64.le_iff_toNat_le.mpr (by omega))
  unfold mean
  split_ifs with hwide <;> rw [UInt64.le_iff_toNat_le, hsub] at hwide
  · have htemp : (1#128 + uint128 x + uint128 y).toNat = x.toNat + y.toNat + 1 := by
      rw [BitVec.toNat_add, BitVec.toNat_add, toNat_uint128, toNat_uint128, BitVec.toNat_ofNat]
      omega
    have hquot : ((1#128 + uint128 x + uint128 y) / 2#128).toNat = (x.toNat + y.toNat + 1) / 2 := by
      rw [BitVec.toNat_udiv, htemp]
      rfl
    simp only [hquot]
    exact toNat_ofNat_of_le (by omega)
  · have hsum : (x + y + 1).toNat = x.toNat + y.toNat + 1 := by
      rw [UInt64.toNat_add, UInt64.toNat_add, UInt64.toNat_one]
      omega
    rw [UInt64.toNat_div, hsum]
    rfl

/-- By induction on the rounds: enough of them for the values that are left end at the lowest
number above the root, and no division overflows on the way. -/
theorem bigSquareRootLoop_ok (R : BitVec 128) (fuel : Nat) :
    ∀ {x prev : UInt64}, R.toNat < x.toNat * x.toNat →
      (x = prev → (x.toNat - 1) * (x.toNat - 1) ≤ R.toNat) →
      x.toNat < fuel ∨ x = prev ∧ 0 < fuel →
      ∃ c, bigSquareRootLoop R fuel x prev = .ok c ∧ R.toNat < c.toNat * c.toNat
        ∧ (c.toNat - 1) * (c.toNat - 1) ≤ R.toNat := by
  induction fuel with
  | zero =>
    intro x prev _ _ hfuel
    omega
  | succ fuel ih =>
    intro x prev hx hstill hfuel
    unfold bigSquareRootLoop
    by_cases heq : x = prev
    · rw [if_pos heq]
      exact ⟨x, rfl, hx, hstill heq⟩
    · have hpos : 0 < x.toNat := Nat.pos_of_mul_pos_left (Nat.zero_lt_of_lt hx)
      obtain ⟨hy, habove, hle, hlowest⟩ := babylonian_round hx rfl rfl
      have hlt := x.toNat_lt
      obtain ⟨y, hfits, hquot⟩ :=
        fits64_of_le (show (R.toNat + x.toNat - 1) / x.toNat ≤ 2 ^ 64 - 1 by omega)
      rw [if_neg heq, bigDivideUnsigned128_eq R (UInt64.lt_iff_toNat_lt.mpr hpos), Rounding.quot,
        hfits]
      rw [← hquot, ← toNat_mean] at habove hle hlowest
      refine ih habove (fun hsame => ?_) ?_
      · rw [hsame]
        exact hlowest (congrArg UInt64.toNat hsame)
      · have hleft : x.toNat < fuel + 1 := hfuel.resolve_right fun h => heq h.1
        by_cases hsame : mean x y = x
        · exact .inr ⟨hsame, by omega⟩
        · have hne : (mean x y).toNat ≠ x.toNat := fun h => hsame (UInt64.toNat_inj.mp h)
          exact .inl (by omega)

/-- The seed is above the root. -/
theorem lt_seed_sq {R : BitVec 128} (hR : R.toNat < (2 ^ 64 - 1) * (2 ^ 64 - 1)) :
    let numBits := uint128_bits R / 2 + 1
    let x : UInt64 := if numBits ≥ 64 then 0xffffffffffffffff else 1 <<< UInt64.ofNat numBits
    R.toNat < x.toNat * x.toNat := by
  intro numBits x
  by_cases hbits : numBits ≥ 64
  · have hx : x = 0xffffffffffffffff := if_pos hbits
    rw [hx]
    exact hR
  · have hx : x.toNat = 2 ^ numBits := by
      have hshift : x = 1 <<< UInt64.ofNat numBits := if_neg hbits
      have hpow : 2 ^ numBits < 2 ^ 64 := Nat.pow_lt_pow_right (by decide) (by omega)
      rw [hshift, UInt64.toNat_shiftLeft, UInt64.toNat_one,
        toNat_ofNat_of_le (by omega : numBits ≤ 2 ^ 64 - 1),
        Nat.mod_eq_of_lt (by omega : numBits < 64), Nat.one_shiftLeft, Nat.mod_eq_of_lt hpow]
    rw [hx, ← Nat.pow_add]
    refine (Nat.lt_size_self R.toNat).trans_le (Nat.pow_le_pow_right (by decide) ?_)
    have hsize : numBits = R.toNat.size / 2 + 1 := rfl
    omega

end

theorem ne_zero_of_lt_sq {R : Nat} {x : UInt64} (h : R < x.toNat * x.toNat) : x ≠ 0 := by
  rintro rfl
  exact Nat.not_lt_zero R h

theorem bigSquareRootCeil_ok {a b : UInt64} (ha : a ≠ 0) (hb : b ≠ 0) :
    ∃ c, bigSquareRootCeil a b = .ok c ∧ a.toNat * b.toNat ≤ c.toNat * c.toNat
      ∧ (c.toNat - 1) * (c.toNat - 1) < a.toNat * b.toNat := by
  have hprod : 0 < a.toNat * b.toNat :=
    Nat.mul_pos (UInt64.lt_iff_toNat_lt.mp (UInt64.pos_iff_ne_zero.mpr ha))
      (UInt64.lt_iff_toNat_lt.mp (UInt64.pos_iff_ne_zero.mpr hb))
  have hle := toNat_mul_le a b
  have hR : (bigMultiplyUnsigned a b - 1#128).toNat = a.toNat * b.toNat - 1 := by
    rw [BitVec.toNat_sub, toNat_bigMultiplyUnsigned, BitVec.toNat_ofNat]
    omega
  have hseed := lt_seed_sq (R := bigMultiplyUnsigned a b - 1#128) (by omega)
  rw [bigSquareRootCeil, if_neg (by simp [ha, hb])]
  obtain ⟨c, hc, habove, hbelow⟩ := bigSquareRootLoop_ok _ (2 ^ 64 + 1) hseed
    (fun hzero => absurd hzero (ne_zero_of_lt_sq hseed))
    (.inl (Nat.lt_succ_of_lt (UInt64.toNat_lt _)))
  exact ⟨c, hc, by omega, by omega⟩

theorem bigSquareRoot_ok (a b : UInt64) : ∃ x, bigSquareRoot a b = .ok x
    ∧ x.toNat ^ 2 ≤ a.toNat * b.toNat ∧ a.toNat * b.toNat < (x.toNat + 1) ^ 2 := by
  unfold bigSquareRoot
  by_cases hzero : a = 0 ∨ b = 0
  · have hprod : a.toNat * b.toNat = 0 := by
      rcases hzero with rfl | rfl <;> simp
    have hle : bigMultiplyUnsigned 0 0 ≤ bigMultiplyUnsigned a b := by
      rw [BitVec.le_def]
      exact Nat.zero_le _
    rw [bigSquareRootCeil, if_pos hzero, hprod]
    exact ⟨0, congrArg Except.ok (if_pos hle), by decide, by decide⟩
  · rw [not_or] at hzero
    obtain ⟨c, hc, habove, hbelow⟩ := bigSquareRootCeil_ok hzero.1 hzero.2
    simp only [hc, bind, Except.bind, pow_two, BitVec.le_def, toNat_bigMultiplyUnsigned]
    split_ifs with hsquare
    · exact ⟨c, rfl, hsquare, by nlinarith⟩
    · have hpos : 0 < c.toNat := by nlinarith
      have hpred : (c - 1).toNat = c.toNat - 1 :=
        UInt64.toNat_sub_of_le _ _ (UInt64.le_iff_toNat_le.mpr hpos)
      refine ⟨c - 1, rfl, ?_, ?_⟩
      · rw [hpred]
        omega
      · rw [hpred, Nat.sub_add_cancel hpos]
        omega

/-- The root of a product of two 64-bit numbers, rounded down: the method ends without an
overflow of the division, and neither the product nor the mean leaves the words it is
computed in. -/
theorem bigSquareRoot_exact (a b : UInt64) :
    (∃ x : UInt64, bigSquareRoot a b = .ok x
      ∧ x.toNat ^ 2 ≤ a.toNat * b.toNat ∧ a.toNat * b.toNat < (x.toNat + 1) ^ 2
      ∧ ∀ y : Nat, y ^ 2 ≤ a.toNat * b.toNat → a.toNat * b.toNat < (y + 1) ^ 2 → y = x.toNat)
    ∧ (bigMultiplyUnsigned a b).toNat = a.toNat * b.toNat
    ∧ ∀ x y : UInt64, (mean x y).toNat = (x.toNat + y.toNat + 1) / 2 := by
  refine ⟨?_, toNat_bigMultiplyUnsigned a b, toNat_mean⟩
  obtain ⟨x, hx, hle, hlt⟩ := bigSquareRoot_ok a b
  refine ⟨x, hx, hle, hlt, fun y hy hy' => ?_⟩
  rw [Nat.eq_sqrt'.mpr ⟨hy, hy'⟩, Nat.eq_sqrt'.mpr ⟨hle, hlt⟩]

/-- `A / C` rounded up, for nonnegative numbers. -/
def ceilDiv (A C : Int64) : Int64 :=
  Int64.ofNat ((A.toInt.toNat + C.toInt.toNat - 1) / C.toInt.toNat)

theorem ceil_le_self (a : Nat) {c : Nat} (hc : 0 < c) : (a + c - 1) / c ≤ a := by
  rw [← Nat.lt_succ_iff, Nat.div_lt_iff_lt_mul hc, Nat.succ_mul]
  have : a * 1 ≤ a * c := Nat.mul_le_mul_left a hc
  omega

theorem bigDivideOrThrow_one {C : Int64} (hA : 0 ≤ A) (hC : 0 < C) :
    bigDivideOrThrow A 1 C .ROUND_UP = .ok (ceilDiv A C) := by
  have hC' : 0 < C.toInt := by simpa [lt_iff_toInt_lt] using hC
  have hceil := ceil_le_self A.toInt.toNat (c := C.toInt.toNat) (by omega)
  have hAlt := A.toInt_lt
  refine bigDivideOrThrow_eq hA (by decide) hC ?_ (x := _) (by omega)
  rw [Rounding.quot, show (1 : Int64).toInt.toNat = 1 from rfl, Nat.mul_one]

theorem bigDivideOrThrow_of_neg (hA : ¬0 ≤ A) (B C : Int64) (rounding : Rounding) :
    bigDivideOrThrow A B C rounding = .error "(A >= 0) && (B >= 0) && (C > 0)" := by
  simp [bigDivideOrThrow, bigDivide, hA, bind, Except.bind, throw, throwThe, MonadExceptOf.throw]

end KinesisCore

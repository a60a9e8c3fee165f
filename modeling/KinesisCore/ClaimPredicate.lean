import KinesisCore.Fallible
import KinesisCore.Numeric

/-!
# Claim predicates

A claimable balance says for each claimant when it can be claimed. The creating
operation validates the predicate and turns times relative to the closing of its own
ledger into absolute ones; the claiming operation evaluates the result. The conversion
saturates at `INT64_MAX`, also under a negation.

`holds` is the predicate's meaning over the integers. `validatePredicate` rules out
the trees that the other two functions cannot walk.
-/

namespace KinesisCore

open MachineInt

inductive ClaimPredicate where
  | unconditional
  | and (andPredicates : List ClaimPredicate)
  | or (orPredicates : List ClaimPredicate)
  | not (notPredicate : Option ClaimPredicate)
  | beforeAbsoluteTime (absBefore : Int64)
  | beforeRelativeTime (relBefore : Int64)
  deriving Repr

abbrev TimePoint := UInt64

namespace CreateClaimableBalanceOpFrame

/-- `relativeToAbsolute`: the comparison and the sum are made on 64-bit unsigned
numbers. -/
def relativeToAbsolute (closeTime : TimePoint) (relative : Int64) : Int64 :=
  if closeTime > (Int64.maxValue - relative).toUInt64 then Int64.maxValue
  else (closeTime + relative.toUInt64).toInt64

def validatePredicate : ClaimPredicate → Nat → Bool
  | .unconditional, depth => depth ≤ 4
  | .and [p, q], depth =>
    depth ≤ 4 && (validatePredicate p (depth + 1) && validatePredicate q (depth + 1))
  | .and _, _ => false
  | .or [p, q], depth =>
    depth ≤ 4 && (validatePredicate p (depth + 1) && validatePredicate q (depth + 1))
  | .or _, _ => false
  | .not (some p), depth => depth ≤ 4 && validatePredicate p (depth + 1)
  | .not none, _ => false
  | .beforeAbsoluteTime absBefore, depth => depth ≤ 4 && 0 ≤ absBefore
  | .beforeRelativeTime relBefore, depth => depth ≤ 4 && 0 ≤ relBefore

/-- `updatePredicatesForApply`: the first two predicates of a list are updated;
`at` throws when there are fewer. -/
def updatePredicatesForApply (closeTime : TimePoint) :
    ClaimPredicate → Except String ClaimPredicate
  | .and (p :: q :: rest) => do
    return .and ((← updatePredicatesForApply closeTime p)
      :: (← updatePredicatesForApply closeTime q) :: rest)
  | .and _ => throw "vector::_M_range_check"
  | .or (p :: q :: rest) => do
    return .or ((← updatePredicatesForApply closeTime p)
      :: (← updatePredicatesForApply closeTime q) :: rest)
  | .or _ => throw "vector::_M_range_check"
  | .not (some p) => do return .not (some (← updatePredicatesForApply closeTime p))
  | .not none => throw "dereferencing null pointer"
  | .beforeRelativeTime relBefore =>
    return .beforeAbsoluteTime (relativeToAbsolute closeTime relBefore)
  | .beforeAbsoluteTime absBefore => return .beforeAbsoluteTime absBefore
  | .unconditional => return .unconditional

end CreateClaimableBalanceOpFrame

namespace ClaimClaimableBalanceOpFrame

/-- `validatePredicate`, as the claiming operation evaluates it; `&&` and `||` do not
look at their second operand when the first one decides. -/
def validatePredicate (closeTime : TimePoint) : ClaimPredicate → Except String Bool
  | .unconditional => return true
  | .and (p :: q :: _) => do
    if ← validatePredicate closeTime p then validatePredicate closeTime q else return false
  | .and _ => throw "vector::_M_range_check"
  | .or (p :: q :: _) => do
    if ← validatePredicate closeTime p then return true else validatePredicate closeTime q
  | .or _ => throw "vector::_M_range_check"
  | .not (some p) => do return !(← validatePredicate closeTime p)
  | .not none => throw "dereferencing null pointer"
  | .beforeAbsoluteTime absBefore => return absBefore.toUInt64 > closeTime
  | .beforeRelativeTime _ => throw "Invalid ClaimPredicate"

end ClaimClaimableBalanceOpFrame

/-! ## Meaning -/

/-- The meaning of a predicate of a balance that was created at `t0`, at time `t`. -/
def ClaimPredicate.holds (t0 t : Int) : ClaimPredicate → Bool
  | .unconditional => true
  | .and [p, q] => p.holds t0 t && q.holds t0 t
  | .and _ => false
  | .or [p, q] => p.holds t0 t || q.holds t0 t
  | .or _ => false
  | .not (some p) => !p.holds t0 t
  | .not none => false
  | .beforeAbsoluteTime absBefore => t < absBefore.toInt
  | .beforeRelativeTime relBefore => t < t0 + relBefore.toInt

namespace CreateClaimableBalanceOpFrame

/-- What is subtracted and added stays in range, and the sum is cut off at the largest
time. -/
theorem relativeToAbsolute_eq (t0 : TimePoint) {r : Int64} (hr : 0 ≤ r.toInt) :
    (Int64.maxValue - r).toInt = 2 ^ 63 - 1 - r.toInt
      ∧ (relativeToAbsolute t0 r).toInt = min (t0.toNat + r.toInt) (2 ^ 63 - 1) := by
  have hmax := Int64.toInt_maxValue
  have hlt := r.toInt_lt
  have hsub : (Int64.maxValue - r).toInt = 2 ^ 63 - 1 - r.toInt := by
    rw [toInt_sub ⟨by omega, by omega⟩, hmax]
  refine ⟨hsub, ?_⟩
  have hroom : ((Int64.maxValue - r).toUInt64.toNat : Int) = 2 ^ 63 - 1 - r.toInt := by
    rw [toNat_toUInt64 (by omega), hsub]
  have hrel : (r.toUInt64.toNat : Int) = r.toInt := toNat_toUInt64 hr
  unfold relativeToAbsolute
  split
  · rename_i hlate
    rw [gt_iff_lt, UInt64.lt_iff_toNat_lt] at hlate
    omega
  · rename_i hearly
    rw [gt_iff_lt, UInt64.lt_iff_toNat_lt] at hearly
    have hsum : (t0 + r.toUInt64).toNat = t0.toNat + r.toUInt64.toNat := by
      rw [UInt64.toNat_add]
      exact Nat.mod_eq_of_lt (by omega)
    rw [toInt_ofUInt64 (by omega)]
    omega

end CreateClaimableBalanceOpFrame

/-- Comparing an absolute time with the close time, on unsigned numbers. -/
theorem absBefore_lt {a : Int64} (ha : 0 ≤ a.toInt) (t : TimePoint) :
    decide (a.toUInt64 > t) = decide ((t.toNat : Int) < a.toInt) := by
  have habs := toNat_toUInt64 ha
  rw [decide_eq_decide, gt_iff_lt, UInt64.lt_iff_toNat_lt]
  omega

/-- An accepted predicate is updated without an exception, and evaluating the update
gives its meaning. -/
theorem updated_predicate (t0 t : TimePoint) (ht : t.toNat < 2 ^ 63 - 1) (pred : ClaimPredicate)
    (depth : Nat) (h : CreateClaimableBalanceOpFrame.validatePredicate pred depth = true) :
    ∃ pred', CreateClaimableBalanceOpFrame.updatePredicatesForApply t0 pred = .ok pred'
      ∧ ClaimClaimableBalanceOpFrame.validatePredicate t pred'
        = .ok (pred.holds t0.toNat t.toNat) := by
  -- the cases of validation: the trees it refuses are closed by `h`
  fun_induction CreateClaimableBalanceOpFrame.validatePredicate pred depth with
  | case1 depth => exact ⟨_, rfl, rfl⟩
  | case2 p q depth ihp ihq | case4 p q depth ihp ihq =>
    rw [Bool.and_eq_true, Bool.and_eq_true] at h
    obtain ⟨p', hp, hpt⟩ := ihp h.2.1
    obtain ⟨q', hq, hqt⟩ := ihq h.2.2
    unfold CreateClaimableBalanceOpFrame.updatePredicatesForApply
    rw [hp, hq]
    refine ⟨_, rfl, ?_⟩
    unfold ClaimClaimableBalanceOpFrame.validatePredicate ClaimPredicate.holds
    rw [hpt, hqt]
    cases p.holds t0.toNat t.toNat <;> rfl
  | case6 p depth ih =>
    rw [Bool.and_eq_true] at h
    obtain ⟨p', hp, hpt⟩ := ih h.2
    refine ⟨.not (some p'), ?_, ?_⟩
    · unfold CreateClaimableBalanceOpFrame.updatePredicatesForApply
      rw [hp]
      rfl
    · unfold ClaimClaimableBalanceOpFrame.validatePredicate ClaimPredicate.holds
      rw [hpt]
      rfl
  | case3 | case5 | case7 => cases h
  | case8 absBefore depth =>
    rw [Bool.and_eq_true] at h
    have habs := Int64.le_iff_toInt_le.mp (of_decide_eq_true h.2)
    exact ⟨_, rfl, congrArg _ (absBefore_lt habs t)⟩
  | case9 relBefore depth =>
    rw [Bool.and_eq_true] at h
    have hrel : 0 ≤ relBefore.toInt := Int64.le_iff_toInt_le.mp (of_decide_eq_true h.2)
    obtain ⟨-, habs⟩ := CreateClaimableBalanceOpFrame.relativeToAbsolute_eq t0 hrel
    have hnonneg : 0 ≤ (CreateClaimableBalanceOpFrame.relativeToAbsolute t0 relBefore).toInt := by
      omega
    refine ⟨_, rfl, congrArg _ ((absBefore_lt hnonneg t).trans ?_)⟩
    -- a time that was cut off lies after `t` all the same
    rw [ClaimPredicate.holds, decide_eq_decide]
    omega

/-- An accepted predicate keeps its meaning when its relative times are made absolute:
neither function throws, and no sum overflows. -/
theorem accepted_predicate_keeps_meaning {pred : ClaimPredicate} {depth : Nat}
    (h : CreateClaimableBalanceOpFrame.validatePredicate pred depth = true) (t0 t : TimePoint)
    (ht : t.toNat < 2 ^ 63 - 1) :
    (∃ pred', CreateClaimableBalanceOpFrame.updatePredicatesForApply t0 pred = .ok pred'
      ∧ ClaimClaimableBalanceOpFrame.validatePredicate t pred'
        = .ok (pred.holds t0.toNat t.toNat))
      ∧ ∀ r : Int64, 0 ≤ r → (Int64.maxValue - r).toInt = 2 ^ 63 - 1 - r.toInt
        ∧ (CreateClaimableBalanceOpFrame.relativeToAbsolute t0 r).toInt
          = min (t0.toNat + r.toInt) (2 ^ 63 - 1) := by
  refine ⟨updated_predicate t0 t ht pred depth h, fun r hr => ?_⟩
  rw [Int64.le_iff_toInt_le] at hr
  exact CreateClaimableBalanceOpFrame.relativeToAbsolute_eq t0 hr

/-- A relative time that is cut off, under a negation. -/
theorem accepted_predicate_keeps_meaning_late :
    ∃ pred', CreateClaimableBalanceOpFrame.updatePredicatesForApply 1000
        (.not (some (.beforeRelativeTime Int64.maxValue))) = .ok pred'
      ∧ ClaimClaimableBalanceOpFrame.validatePredicate 9223372036854775806 pred' = .ok false :=
  (accepted_predicate_keeps_meaning (by decide : CreateClaimableBalanceOpFrame.validatePredicate
    (.not (some (.beforeRelativeTime Int64.maxValue))) 1 = true) 1000 9223372036854775806
    (by decide)).1

end KinesisCore

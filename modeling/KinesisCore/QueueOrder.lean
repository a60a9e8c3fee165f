import Mathlib.Data.Prod.Lex
import KinesisCore.ReportedFees

/-!
# The order of the limiter's set

On transactions that bid something the comparator of the set orders by fee rate,
a rational number, and then by masked address. The four operations of the set
that the queue uses are specified here once, for a limiter whose set is
`Ordered`.
-/

namespace KinesisCore

open TransactionFrameBase QueueFrame MachineInt Finset

variable {T E : Type} [QueueFrame T]

/-! ## The key -/

/-- A transaction with operations and a bid that is not negative. -/
structure Payable (tx : T) : Prop where
  nonneg : 0 ≤ (getFeeBid tx).toInt
  operations : 1 ≤ (getNumOperations tx).toNat

/-- The number of operations. -/
def opsOf (tx : T) : Nat := (getNumOperations tx).toNat

/-- The fee rate: the bid per operation. -/
def feeRate (tx : T) : ℚ := (getFeeBid tx).toInt / opsOf tx

/-- What the set orders by. -/
def priority (seed : UInt64) (tx : T) : ℚ ×ₗ ℕ :=
  toLex (feeRate tx, (address tx ^^^ seed).toNat)

variable {l r : T}

theorem feeRate_lt_iff (hl : Payable l) (hr : Payable r) :
    feeRate l < feeRate r
      ↔ (getFeeBid l).toInt.toNat * opsOf r < (getFeeBid r).toInt.toNat * opsOf l := by
  have hlops : (0 : ℚ) < opsOf l := by exact_mod_cast hl.operations
  have hrops : (0 : ℚ) < opsOf r := by exact_mod_cast hr.operations
  obtain ⟨a, ha⟩ := Int.eq_ofNat_of_zero_le hl.nonneg
  obtain ⟨b, hb⟩ := Int.eq_ofNat_of_zero_le hr.nonneg
  rw [feeRate, feeRate, div_lt_div_iff₀ hlops hrops, ha, hb, Int.toNat_natCast, Int.toNat_natCast]
  exact_mod_cast Iff.rfl

theorem feeRate_eq_iff (hl : Payable l) (hr : Payable r) :
    feeRate l = feeRate r
      ↔ (getFeeBid l).toInt.toNat * opsOf r = (getFeeBid r).toInt.toNat * opsOf l := by
  have hlt := feeRate_lt_iff hl hr
  have hgt := feeRate_lt_iff hr hl
  constructor
  · intro h
    have h1 := mt hlt.mpr (not_lt_of_ge h.ge)
    have h2 := mt hgt.mpr (not_lt_of_ge h.le)
    omega
  · intro h
    have h1 := mt hlt.mp (by omega)
    have h2 := mt hgt.mp (by omega)
    exact le_antisymm (not_lt.mp h2) (not_lt.mp h1)

/-- The comparison of two rates that bid. -/
theorem feeRate3WayCompare_payable (hl : Payable l) (hr : Payable r) :
    feeRate3WayCompare l r = .ok (compare (feeRate l) (feeRate r)) := by
  rw [feeRate3WayCompare_eq, feeRate3WayCompareBids_eq hl.nonneg hr.nonneg]
  congr 1
  rcases lt_trichotomy (feeRate l) (feeRate r) with hlt | heq | hgt
  · rw [compare_lt_iff_lt.mpr hlt]
    exact compare_lt_iff_lt.mpr ((feeRate_lt_iff hl hr).mp hlt)
  · rw [compare_eq_iff_eq.mpr heq]
    exact compare_eq_iff_eq.mpr ((feeRate_eq_iff hl hr).mp heq)
  · rw [compare_gt_iff_gt.mpr hgt]
    exact compare_gt_iff_gt.mpr ((feeRate_lt_iff hr hl).mp hgt)

theorem less_compares (lim : TxQueueLimiter T) :
    Stl.CheckedSet.Compares lim.less (priority lim.mSeed) Payable := by
  intro l r hl hr
  simp only [TxQueueLimiter.less, lessThanXoredTx, feeRate3WayCompare_payable hl hr, priority,
    Prod.Lex.toLex_lt_toLex, Except.ok_bind]
  rcases lt_trichotomy (feeRate l) (feeRate r) with hlt | heq | hgt
  · rw [compare_lt_iff_lt.mpr hlt]
    simp [hlt]
  · simp [heq, UInt64.lt_iff_toNat_lt]
  · rw [compare_gt_iff_gt.mpr hgt]
    simp [not_lt_of_gt hgt, hgt.ne']

/-- Two objects at different places have different priorities. -/
theorem priority_ne {seed : UInt64} (h : address l ≠ address r) :
    priority seed l ≠ priority seed r := by
  intro heq
  have hxor : address l ^^^ seed = address r ^^^ seed :=
    UInt64.toNat_inj.mp (congrArg (fun k => (ofLex k).2) heq)
  exact h (by simpa using hxor)

/-! ## The set and the counter -/

/-- A limiter that holds exactly the transactions of `s`. -/
structure TxQueueLimiter.Holds (lim : TxQueueLimiter T) (s : Finset T) : Prop where
  payable : ∀ t ∈ s, Payable t
  sorted : Stl.CheckedSet.Sorted (priority lim.mSeed) lim.mTxs
  mem : ∀ t, t ∈ lim.mTxs ↔ t ∈ s
  size : lim.mQueueSizeOps = ∑ t ∈ s, opsOf t

namespace TxQueueLimiter.Holds

variable {lim : TxQueueLimiter T} {s : Finset T} (h : lim.Holds s)
include h

theorem payable_mem : ∀ t ∈ lim.mTxs, Payable t :=
  fun t ht => h.payable t ((h.mem t).mp ht)

theorem toFinset [DecidableEq T] : lim.mTxs.toFinset = s :=
  Finset.ext fun t => by rw [List.mem_toFinset, h.mem]

/-- What is held does not depend on the minimum fee. -/
theorem setMinFee (mMinFeeNeeded : Int64 × UInt32) :
    TxQueueLimiter.Holds { lim with mMinFeeNeeded } s :=
  ⟨h.payable, h.sorted, h.mem, h.size⟩

omit h in
theorem reset (lim : TxQueueLimiter T) (seed : UInt64) : (lim.reset seed).Holds ∅ where
  payable := by simp
  sorted := List.Pairwise.nil
  mem := by simp [TxQueueLimiter.reset]
  size := rfl

variable [DecidableEq T]

theorem addTransaction {tx : T} (hpay : Payable tx) (hnew : tx ∉ s)
    (haddr : ∀ t ∈ s, address t ≠ address tx) {lcl : LastClosedLedger E}
    (hroom : lim.mQueueSizeOps + opsOf tx ≤ lim.maxQueueSizeOps lcl) :
    ∃ mTxs, lim.addTransaction lcl tx
        = .ok { lim with mTxs, mQueueSizeOps := lim.mQueueSizeOps + opsOf tx }
      ∧ TxQueueLimiter.Holds { lim with mTxs, mQueueSizeOps := lim.mQueueSizeOps + opsOf tx }
          (insert tx s) := by
  obtain ⟨mTxs, hemplace, hsorted, hperm⟩ := Stl.CheckedSet.emplace_new (less_compares lim)
    h.payable_mem hpay h.sorted fun t ht => priority_ne (haddr t ((h.mem t).mp ht))
  refine ⟨mTxs, ?_, ⟨?_, hsorted, ?_, ?_⟩⟩
  · have hle : ¬lim.mQueueSizeOps + (getNumOperations tx).toNat > lim.maxQueueSizeOps lcl :=
      Nat.not_lt.mpr hroom
    rw [TxQueueLimiter.addTransaction]
    rw [if_neg hle, hemplace]
    rfl
  · intro t ht
    rcases mem_insert.mp ht with rfl | ht
    · exact hpay
    · exact h.payable t ht
  · intro t
    rw [hperm.mem_iff, List.mem_cons, mem_insert, h.mem]
  · rw [sum_insert hnew, ← h.size, Nat.add_comm]

theorem removeTransaction {tx : T} (htx : tx ∈ s) : ∃ mTxs, lim.removeTransaction tx
        = .ok { lim with mTxs, mQueueSizeOps := lim.mQueueSizeOps - opsOf tx }
      ∧ mTxs.Sublist lim.mTxs
      ∧ TxQueueLimiter.Holds { lim with mTxs, mQueueSizeOps := lim.mQueueSizeOps - opsOf tx }
          (s.erase tx) := by
  obtain ⟨mTxs, herase, hsub, hperm⟩ := Stl.CheckedSet.erase_mem (less_compares lim)
    h.payable_mem h.sorted ((h.mem tx).mpr htx)
  have hsize : lim.mQueueSizeOps = opsOf tx + ∑ t ∈ s.erase tx, opsOf t := by
    rw [h.size, add_sum_erase s _ htx]
  refine ⟨mTxs, ?_, hsub, ⟨?_, h.sorted.sublist hsub, ?_, ?_⟩⟩
  · have hle : ¬lim.mQueueSizeOps < (getNumOperations tx).toNat := by
      rw [hsize]
      exact Nat.not_lt.mpr (Nat.le_add_right _ _)
    rw [TxQueueLimiter.removeTransaction]
    rw [if_neg hle, herase]
    rfl
  · exact fun t ht => h.payable t (mem_of_mem_erase ht)
  · intro t
    have hnodup : (tx :: mTxs).Nodup := hperm.nodup_iff.mp h.sorted.nodup
    have hmem : t ∈ lim.mTxs ↔ t = tx ∨ t ∈ mTxs := by rw [hperm.mem_iff, List.mem_cons]
    rw [mem_erase, ← h.mem, hmem]
    constructor
    · intro ht
      exact ⟨fun heq => (List.nodup_cons.mp hnodup).1 (heq ▸ ht), .inr ht⟩
    · rintro ⟨hne, heq | ht⟩
      · exact absurd heq hne
      · exact ht
  · show lim.mQueueSizeOps - opsOf tx = _
    omega

end TxQueueLimiter.Holds

end KinesisCore

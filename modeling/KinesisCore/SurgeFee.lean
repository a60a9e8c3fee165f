import KinesisCore.FeeCollection

/-!
# The base fee of a surging set

When a set is nearly full, every transaction in it is charged by the lowest
bid per operation, rounded up (`lowestRate`). The rounding makes this rate
times a transaction's operations exceed its bid by less than one stroop per
operation, so the product stays in range and `getFee`, which takes the
smaller of the two, never charges more than the bid. The transaction the
rate is taken from pays its bid in full.
-/

namespace KinesisCore

open TransactionFrameBase MachineInt TxSetFrame

/-! ## The lowest rate -/

theorem toInt_ceilDiv {A C : Int64} (hC : 0 < C) :
    (ceilDiv A C).toInt = ((A.toInt.toNat + C.toInt.toNat - 1) / C.toInt.toNat : Nat) := by
  have hC' : 0 < C.toInt := by simpa [Int64.lt_iff_toInt_lt] using hC
  have hceil := ceil_le_self A.toInt.toNat (c := C.toInt.toNat) (by omega)
  have hAlt := A.toInt_lt
  exact Int64.toInt_ofNat_of_lt (by omega)

/-- A quotient rounded up, times the divisor. -/
theorem ceilDiv_mul_bounds {A C : Int64} (hA : 0 ≤ A) (hC : 0 < C) :
    A.toInt ≤ (ceilDiv A C).toInt * C.toInt
      ∧ (ceilDiv A C).toInt * C.toInt ≤ A.toInt + C.toInt - 1 := by
  have hA' : 0 ≤ A.toInt := by simpa [Int64.le_iff_toInt_le] using hA
  have hC' : 0 < C.toInt := by simpa [Int64.lt_iff_toInt_lt] using hC
  rw [toInt_ceilDiv hC]
  obtain ⟨a, ha⟩ := Int.eq_ofNat_of_zero_le hA'
  obtain ⟨c, hc⟩ := Int.eq_ofNat_of_zero_le hC'.le
  rw [ha, hc, Int.toNat_natCast, Int.toNat_natCast]
  have hdiv := Nat.div_add_mod (a + c - 1) c
  have hmod := Nat.mod_lt (a + c - 1) (show 0 < c by omega)
  rw [Nat.mul_comm] at hdiv
  omega

section LowestRate

variable {T : Type} [TransactionFrameBase T]

variable (tx : T) (txs : List T) (bound : Int64)

/-- A transaction's bid per operation. -/
def bidRate : Int64 := ceilDiv (getFeeBid tx) (getNumOperations tx).toUInt64.toInt64

theorem lowestRate_cons :
    lowestRate (tx :: txs) bound = lowestRate txs (min bound (bidRate tx)) := rfl

theorem lowestRate_le_bound : (lowestRate txs bound).toInt ≤ bound.toInt := by
  induction txs generalizing bound with
  | nil => exact le_refl _
  | cons tx txs ih =>
    have hrest := ih (min bound (bidRate tx))
    rw [toInt_min] at hrest
    rw [lowestRate_cons]
    omega

theorem lowestRate_le {txs : List T} {tx : T} (htx : tx ∈ txs) (bound : Int64) :
    (lowestRate txs bound).toInt ≤ (bidRate tx).toInt := by
  induction txs generalizing bound with
  | nil => cases htx
  | cons u txs ih =>
    rw [lowestRate_cons]
    rcases List.mem_cons.mp htx with rfl | htx
    · have hrest := lowestRate_le_bound txs (min bound (bidRate tx))
      rw [toInt_min] at hrest
      omega
    · exact ih htx _

/-- The lowest rate is the bound or some transaction's. -/
theorem lowestRate_mem :
    lowestRate txs bound = bound ∨ ∃ tx ∈ txs, lowestRate txs bound = bidRate tx := by
  induction txs generalizing bound with
  | nil => exact .inl rfl
  | cons tx txs ih =>
    rcases ih (min bound (bidRate tx)) with hbound | ⟨u, hu, hrate⟩
    · have hmin := toInt_min bound (bidRate tx)
      by_cases hle : bound.toInt ≤ (bidRate tx).toInt
      · exact .inl (hbound.trans (Int64.toInt_inj.mp (by omega)))
      · exact .inr ⟨tx, List.mem_cons_self, hbound.trans (Int64.toInt_inj.mp (by omega))⟩
    · exact .inr ⟨u, List.mem_cons_of_mem _ hu, hrate⟩

end LowestRate

/-! ## What a surging set pays -/

section

variable [HashFunction]

/-- An envelope on the wire has at most a hundred operations, and a fee bump
counts for one more. -/
theorem numOperations_le (tx : Tx) : (getNumOperations tx).toNat ≤ MAX_OPS_PER_TX + 1 := by
  have hlen : tx.inner.getNumOperations.toNat ≤ MAX_OPS_PER_TX := by
    have hle := tx.inner.operations_le
    rw [TransactionFrame.getNumOperations, UInt32.toNat_ofNat_of_lt' (by
      exact hle.trans_lt (by decide))]
    exact hle
  cases tx with
  | plain tx => exact hlen.trans (Nat.le_succ _)
  | feeBump tx =>
    show (tx.innerTx.getNumOperations + 1).toNat ≤ _
    rw [UInt32.toNat_add, UInt32.toNat_one]
    simp only [Tx.inner] at hlen
    omega

theorem toInt_chargedOperations_eq {tx : Tx} (hops : 1 ≤ (getNumOperations tx).toNat) :
    tx.chargedOperations.toInt = (getNumOperations tx).toNat := by
  have hcharged : tx.chargedOperations = max 1 (getNumOperations tx).toUInt64.toInt64 := by
    cases tx <;> rfl
  rw [hcharged, toInt_max, toInt_ofUInt32, Int64.toInt_one]
  omega

variable {lh : LedgerHeader}

/-- The fee, when the product of rate and operations is in range. -/
theorem toInt_getFee {tx : Tx} {baseFee : Int64} (hv : lh.StartsFrom 11)
    (hops : 1 ≤ (getNumOperations tx).toNat) (hbaseFee : 0 ≤ baseFee.toInt)
    (hrange : baseFee.toInt * (getNumOperations tx).toNat < 2 ^ 63) :
    (getFee tx lh baseFee true).toInt
      = min (getFeeBid tx).toInt (baseFee.toInt * (getNumOperations tx).toNat) := by
  have hmul : (baseFee * tx.chargedOperations).toInt
      = baseFee.toInt * (getNumOperations tx).toNat := by
    rw [toInt_mul, toInt_chargedOperations_eq hops]
    rw [toInt_chargedOperations_eq hops]
    exact ⟨le_trans (by decide) (Int.mul_nonneg hbaseFee (Int.natCast_nonneg _)), hrange⟩
  rw [getFee_eq_min hv, toInt_min, hmul]

/-- A bid the base fee of a set is computed from: it has operations, and some
room above it. -/
structure Biddable (tx : Tx) : Prop where
  operations : 1 ≤ (getNumOperations tx).toNat
  nonneg : 0 ≤ (getFeeBid tx).toInt
  room : (getFeeBid tx).toInt ≤ INT64_MAX.toInt - 101

namespace Biddable

variable {tx : Tx} (h : Biddable tx)

include h

theorem rate_bounds :
    (getFeeBid tx).toInt ≤ (bidRate tx).toInt * (getNumOperations tx).toNat
      ∧ (bidRate tx).toInt * (getNumOperations tx).toNat
        ≤ (getFeeBid tx).toInt + (getNumOperations tx).toNat - 1 := by
  have hbid : 0 ≤ getFeeBid tx := Int64.le_iff_toInt_le.mpr h.nonneg
  have hbounds := ceilDiv_mul_bounds hbid (ops_pos h.operations)
  rwa [toInt_ofUInt32] at hbounds

theorem rate_nonneg : 0 ≤ (bidRate tx).toInt := by
  by_contra hneg
  have hmul : (bidRate tx).toInt * (getNumOperations tx).toNat < 0 :=
    Int.mul_neg_of_neg_of_pos (by omega) (Int.natCast_pos.mpr h.operations)
  have := h.rate_bounds.1
  have := h.nonneg
  omega

theorem rate_lt : (bidRate tx).toInt < INT64_MAX.toInt := by
  have hmul : (bidRate tx).toInt * 1 ≤ (bidRate tx).toInt * (getNumOperations tx).toNat :=
    Int.mul_le_mul_of_nonneg_left (Int.natCast_pos.mpr h.operations) h.rate_nonneg
  have hle : (getNumOperations tx).toNat ≤ 101 := numOperations_le tx
  have := h.rate_bounds.2
  have := h.room
  omega

/-- A lower rate, times the operations. -/
theorem mul_le {baseFee : Int64} (hle : baseFee.toInt ≤ (bidRate tx).toInt) :
    baseFee.toInt * (getNumOperations tx).toNat
      ≤ (getFeeBid tx).toInt + (getNumOperations tx).toNat - 1 :=
  (Int.mul_le_mul_of_nonneg_right hle (Int.natCast_nonneg _)).trans h.rate_bounds.2

theorem top_lt : (getFeeBid tx).toInt + (getNumOperations tx).toNat - 1 < 2 ^ 63 := by
  have hle : (getNumOperations tx).toNat ≤ 101 := numOperations_le tx
  have hroom := h.room
  rw [toInt_INT64_MAX] at hroom
  omega

end Biddable

variable {s : TxSetFrame Tx}

theorem TxSetFrame.exists_mem_of_surging (h : s.sizeOp > surgeOpsCutoff lh) :
    ∃ tx, tx ∈ s.mTransactions := by
  cases htxs : s.mTransactions with
  | nil => simp [TxSetFrame.sizeOp, htxs] at h
  | cons tx txs => exact ⟨tx, List.mem_cons_self⟩

/-- The rate of a surging set: below every bid's, and one bid's own. -/
theorem TxSetFrame.rate_of_surging (hbids : ∀ tx ∈ s.mTransactions, Biddable tx)
    (h : s.sizeOp > surgeOpsCutoff lh) :
    (∀ tx ∈ s.mTransactions, (s.rate lh).toInt ≤ (bidRate tx).toInt)
      ∧ ∃ tx ∈ s.mTransactions, s.rate lh = bidRate tx := by
  have hrate : s.rate lh = lowestRate s.mTransactions INT64_MAX := if_pos h
  rw [hrate]
  refine ⟨fun tx htx => lowestRate_le htx _, ?_⟩
  rcases lowestRate_mem s.mTransactions INT64_MAX with hmax | hmem
  · obtain ⟨tx, htx⟩ := exists_mem_of_surging h
    have hle := lowestRate_le htx INT64_MAX
    have hlt := (hbids tx htx).rate_lt
    rw [hmax] at hle
    omega
  · exact hmem

/-- From protocol 11 on the base fee of a set is computed without an exception
and no transaction is charged more than its bid. If the set is surging, the
base fee times a transaction's operations is less than one stroop per
operation above its bid, in range, and some transaction pays its bid. -/
theorem TxSetFrame.getBaseFee_affordable (s : TxSetFrame Tx) (lh : LedgerHeader)
    (hv : protocolVersionStartsFrom lh.ledgerVersion 11 = true)
    (hbids : ∀ tx ∈ s.mTransactions, Biddable tx) :
    ∃ baseFee, s.getBaseFee lh = .ok baseFee
      ∧ (∀ tx ∈ s.mTransactions, 0 ≤ (getFee tx lh baseFee true).toInt
          ∧ (getFee tx lh baseFee true).toInt ≤ (getFeeBid tx).toInt)
      ∧ (s.sizeOp > surgeOpsCutoff lh →
          (∀ tx ∈ s.mTransactions,
            baseFee.toInt * (getNumOperations tx).toNat
              ≤ (getFeeBid tx).toInt + (getNumOperations tx).toNat - 1
            ∧ InRange (baseFee.toInt * (getNumOperations tx).toNat))
          ∧ ∃ tx ∈ s.mTransactions, getFee tx lh baseFee true = getFeeBid tx) := by
  have hok : s.getBaseFee lh = .ok (s.rate lh) := by
    refine getBaseFee_eq hv (fun tx htx hzero => ?_)
      fun tx htx => Int64.le_iff_toInt_le.mpr (hbids tx htx).nonneg
    have := (hbids tx htx).operations
    rw [hzero] at this
    exact absurd this (by decide)
  refine ⟨s.rate lh, hok, ?_⟩
  by_cases hsurge : s.sizeOp > surgeOpsCutoff lh
  · obtain ⟨hle, payer, hpayer, hrate⟩ := rate_of_surging hbids hsurge
    have hnonneg : 0 ≤ (s.rate lh).toInt := hrate ▸ (hbids payer hpayer).rate_nonneg
    have hproduct : ∀ tx ∈ s.mTransactions,
        0 ≤ (s.rate lh).toInt * (getNumOperations tx).toNat
          ∧ (s.rate lh).toInt * (getNumOperations tx).toNat
            ≤ (getFeeBid tx).toInt + (getNumOperations tx).toNat - 1
          ∧ (s.rate lh).toInt * (getNumOperations tx).toNat < 2 ^ 63 := by
      intro tx htx
      have hmul := (hbids tx htx).mul_le (hle tx htx)
      exact ⟨Int.mul_nonneg hnonneg (Int.natCast_nonneg _), hmul,
        hmul.trans_lt (hbids tx htx).top_lt⟩
    have hfee : ∀ tx ∈ s.mTransactions, (getFee tx lh (s.rate lh) true).toInt
        = min (getFeeBid tx).toInt ((s.rate lh).toInt * (getNumOperations tx).toNat) :=
      fun tx htx => toInt_getFee hv (hbids tx htx).operations hnonneg (hproduct tx htx).2.2
    refine ⟨fun tx htx => ?_, fun _ => ⟨fun tx htx => ?_, payer, hpayer, ?_⟩⟩
    · have := (hproduct tx htx).1
      have := (hbids tx htx).nonneg
      rw [hfee tx htx]
      omega
    · obtain ⟨h0, hmul, hlt⟩ := hproduct tx htx
      exact ⟨hmul, le_trans (by decide) h0, hlt⟩
    · apply Int64.toInt_inj.mp
      rw [hfee payer hpayer, hrate]
      exact min_eq_left (hbids payer hpayer).rate_bounds.1
  · refine ⟨fun tx htx => ?_, hsurge.elim⟩
    have hrate : (s.rate lh).toInt = lh.baseFee.toNat := by
      rw [TxSetFrame.rate, if_neg hsurge, toInt_ofUInt32]
    have hops : (getNumOperations tx).toNat ≤ 101 := numOperations_le tx
    have hlt := lh.baseFee.toNat_lt
    have hmul : lh.baseFee.toNat * (getNumOperations tx).toNat ≤ lh.baseFee.toNat * 101 :=
      Nat.mul_le_mul_left _ hops
    have hnonneg := (hbids tx htx).nonneg
    rw [toInt_getFee hv (hbids tx htx).operations (by omega) (by
      rw [hrate]
      omega), hrate]
    omega

end

/-- A payment of 1000 stroops in a fee bump that bids 301 for two operations. -/
def bumpedPayment : Tx :=
  .feeBump { feeSource := 2, fee := 301,
             innerTx := { sourceAccount := 1, fee := 100, seqNum := 8,
                          operations := [{ body := .payment 9 true 1000 }],
                          operations_le := one_le_maxOpsPerTx } }

open Evaluation

/-- A set of three operations in a ledger with room for three. -/
theorem getBaseFee_affordable_two_bids :
    let s := TxSetFrame.fresh 5 [signedPayment 2000, bumpedPayment]
    let lh := { oneAccount.header with maxTxSetSize := 3 }
    ∃ baseFee, s.getBaseFee lh = .ok baseFee
      ∧ (∀ tx ∈ s.mTransactions,
          baseFee.toInt * (getNumOperations tx).toNat
            ≤ (getFeeBid tx).toInt + (getNumOperations tx).toNat - 1)
      ∧ ∃ tx ∈ s.mTransactions, getFee tx lh baseFee true = getFeeBid tx := by
  have hbids : ∀ tx ∈ [signedPayment 2000, bumpedPayment], Biddable tx := by
    intro tx htx
    simp only [List.mem_cons, List.not_mem_nil, or_false] at htx
    rcases htx with rfl | rfl
    · exact ⟨by decide, by decide, by decide⟩
    · exact ⟨by decide, by decide, by decide⟩
  obtain ⟨baseFee, hok, -, hsurge⟩ := getBaseFee_affordable
    (TxSetFrame.fresh 5 [signedPayment 2000, bumpedPayment])
    { oneAccount.header with maxTxSetSize := 3 } (by decide) hbids
  obtain ⟨hle, hpayer⟩ := hsurge (by decide)
  exact ⟨baseFee, hok, fun tx htx => (hle tx htx).1, hpayer⟩

end KinesisCore

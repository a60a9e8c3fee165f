import KinesisCore.FeeCollection

/-!
# When a fee bump is validated without an exception

`FeeBumpTransactionFrame::commonValidPreSeqNum` compares two fee rates by
cross multiplication before it has looked into the wrapped transaction.
`bigMultiply` and `bigDivide128` throw on a negative factor and on a divisor
that is not positive. The wrapped bid is a 64-bit unsigned field read as a
signed number, and both minimum fees depend on amounts nobody has checked, so
either can happen. `FeesComparable` says when neither does.
-/

namespace KinesisCore

open Int64 (lt_iff_toInt_lt toInt_zero le_iff_toInt_le toInt_inj)

open MachineInt TransactionResultCode Except

variable {tx : FeeBumpTransactionFrame}

/-- The assertions of the two functions. -/
def feeAssertions : List String := ["(a >= 0) && (b >= 0)", "B > 0"]

namespace FeeBumpTransactionFrame

variable {E : Type}

/-- The bump is refused before the rates are compared, or they can be compared:
no bid and no minimum fee is negative, and the wrapped transaction's
minimum fee is not zero unless its bid is too. -/
def FeesComparable (tx : FeeBumpTransactionFrame) (lh : LedgerHeader) : Prop :=
  protocolVersionIsBefore lh.ledgerVersion 13 = true
    ∨ tx.getFeeBid < tx.getMinFee lh
    ∨ (0 ≤ tx.getMinFee lh ∧ 0 ≤ tx.innerTx.getFeeBid
        ∧ (0 < tx.innerTx.getMinFee lh
          ∨ (tx.innerTx.getMinFee lh = 0 ∧ tx.innerTx.getFeeBid = 0)))

instance (tx : FeeBumpTransactionFrame) (lh : LedgerHeader) : Decidable (tx.FeesComparable lh) :=
  inferInstanceAs (Decidable (_ ∨ _ ∨ _))

/-- A wrapped transaction that costs nothing leaves the base fee. -/
theorem minFee_of_inner_zero {lh : LedgerHeader} (hbase : 1 ≤ lh.baseFee)
    (h : tx.innerTx.getMinFee lh = 0) : 0 < tx.getMinFee lh := by
  rw [UInt32.le_iff_toNat_le, UInt32.toNat_one] at hbase
  rw [getMinFee, h, Int64.add_zero, lt_iff_toInt_lt, toInt_ofUInt32, toInt_zero]
  omega

section

variable {tx : FeeBumpTransactionFrame} {ltx : LedgerTxn E}

theorem preSeqNum_ok (h : tx.FeesComparable ltx.header) (result : TransactionResult) :
    ∃ r, tx.commonValidPreSeqNum ltx result = .ok r := by
  unfold commonValidPreSeqNum
  by_cases hv : protocolVersionIsBefore ltx.header.ledgerVersion 13 = true
  · exact ⟨_, by rw [if_pos hv]; rfl⟩
  rw [if_neg hv]
  by_cases hfee : tx.getFeeBid < tx.getMinFee ltx.header
  · exact ⟨_, by rw [if_pos hfee]; rfl⟩
  rw [if_neg hfee]
  obtain ⟨hmin, hinner, hcase⟩ := (h.resolve_left hv).resolve_left hfee
  have hbid : 0 ≤ tx.getFeeBid := by
    rw [le_iff_toInt_le] at hmin ⊢
    rw [lt_iff_toInt_lt] at hfee
    omega
  have hinnerMin : 0 ≤ tx.innerTx.getMinFee ltx.header := by
    rcases hcase with hpos | ⟨hzero, -⟩
    · exact Int64.le_of_lt hpos
    · rw [hzero]
      decide
  refine exists_ok_bind (bigMultiply_eq hbid hinnerMin)
    (exists_ok_bind (bigMultiply_eq hinner hmin) ?_)
  split
  · rename_i hlt
    rcases hcase with hpos | ⟨-, hzero⟩
    · exact exists_ok_bind (bigDivide128_eq _ hpos .ROUND_UP) ⟨_, rfl⟩
    · -- a wrapped bid of nothing is not the higher rate
      rw [hzero, toInt_zero, Int.zero_mul] at hlt
      exact absurd hlt (Nat.not_lt_zero _)
  · split
    · exact ⟨_, rfl⟩
    · exact ⟨_, rfl⟩

theorem preSeqNum_throws (hbase : 1 ≤ ltx.header.baseFee) (h : ¬tx.FeesComparable ltx.header)
    (result : TransactionResult) :
    ∃ e ∈ feeAssertions, tx.commonValidPreSeqNum ltx result = .error e := by
  obtain ⟨hv, hfee, hrates⟩ : ¬protocolVersionIsBefore ltx.header.ledgerVersion 13 = true
      ∧ ¬tx.getFeeBid < tx.getMinFee ltx.header
      ∧ ¬(0 ≤ tx.getMinFee ltx.header ∧ 0 ≤ tx.innerTx.getFeeBid
        ∧ (0 < tx.innerTx.getMinFee ltx.header
          ∨ (tx.innerTx.getMinFee ltx.header = 0 ∧ tx.innerTx.getFeeBid = 0))) := by
    simpa only [FeesComparable, not_or] using h
  unfold commonValidPreSeqNum
  rw [if_neg hv, if_neg hfee]
  by_cases hfirst : 0 ≤ tx.getFeeBid ∧ 0 ≤ tx.innerTx.getMinFee ltx.header
  · rw [bigMultiply_eq hfirst.1 hfirst.2]
    by_cases hsecond : 0 ≤ tx.innerTx.getFeeBid ∧ 0 ≤ tx.getMinFee ltx.header
    · -- the wrapped transaction costs nothing and yet bids
      have hpos : ¬0 < tx.innerTx.getMinFee ltx.header := fun hpos =>
        hrates ⟨hsecond.2, hsecond.1, .inl hpos⟩
      have hzero : tx.innerTx.getMinFee ltx.header = 0 := by
        have hle := hfirst.2
        rw [lt_iff_toInt_lt, toInt_zero] at hpos
        rw [le_iff_toInt_le, toInt_zero] at hle
        exact toInt_inj.mp (by rw [toInt_zero]; omega)
      have hinner : 0 < tx.innerTx.getFeeBid.toInt := by
        have hne : tx.innerTx.getFeeBid ≠ 0 := fun hbid =>
          hrates ⟨hsecond.2, hsecond.1, .inr ⟨hzero, hbid⟩⟩
        have hle := hsecond.1
        rw [le_iff_toInt_le, toInt_zero] at hle
        rw [Ne, ← toInt_inj, toInt_zero] at hne
        omega
      have hmin : 0 < (tx.getMinFee ltx.header).toInt := by
        simpa [lt_iff_toInt_lt] using minFee_of_inner_zero hbase hzero
      have hlt : (tx.getFeeBid.toInt * (tx.innerTx.getMinFee ltx.header).toInt).toNat
          < (tx.innerTx.getFeeBid.toInt * (tx.getMinFee ltx.header).toInt).toNat := by
        have := Int.mul_pos hinner hmin
        rw [hzero, toInt_zero]
        omega
      refine ⟨"B > 0", by decide, ?_⟩
      rw [bigMultiply_eq hsecond.1 hsecond.2]
      simp only [bind, Except.bind, hlt, if_true, bigDivide128_of_nonpos hpos]
    · refine ⟨"(a >= 0) && (b >= 0)", by decide, ?_⟩
      rw [bigMultiply_of_neg hsecond]
      rfl
  · refine ⟨"(a >= 0) && (b >= 0)", by decide, ?_⟩
    rw [bigMultiply_of_neg hfirst]
    rfl

end

end FeeBumpTransactionFrame

/-! ## The rest of validation -/

section Total

variable {E : Type}

/-- What validation relies on besides the fees: the ledger has a starting
sequence number, every account has a minimum balance, and the operations
can say whether they are valid. -/
structure Checkable [OperationFrame E] (ltx : LedgerTxn E) : Prop where
  starting : ∃ start, getStartingSequenceNumber ltx.header.ledgerSeq = .ok start
  available : ∀ id acc, ltx.accounts id = some acc →
    ∃ avail, getAvailableBalance ltx.header acc = .ok avail
  operations : ∀ tx index op ledgerVersion,
    ∃ ok, OperationFrame.doCheckValid E tx index op ledgerVersion = .ok ok

variable [OperationFrame E] {ltx : LedgerTxn E} (h : Checkable ltx)

include h

theorem Checkable.isBadSeq (tx : TransactionFrame) (seqNum : Int64) :
    ∃ bad, tx.isBadSeq ltx.header seqNum = .ok bad := by
  unfold TransactionFrame.isBadSeq
  split
  · exact ⟨_, rfl⟩
  · obtain ⟨start, hstart⟩ := h.starting
    exact exists_ok_bind hstart ⟨_, rfl⟩

theorem Checkable.hasBadSeq (tx : TransactionFrame) (acc : AccountEntry) (current : SequenceNumber)
    (applying : Bool) : ∃ bad, tx.hasBadSeq ltx acc current applying = .ok bad := by
  unfold TransactionFrame.hasBadSeq
  split
  · exact h.isBadSeq tx _
  · exact ⟨_, rfl⟩

theorem Checkable.cannotPay {tx : TransactionFrame} {acc : AccountEntry}
    (hacc : ltx.accounts tx.sourceAccount = some acc) (applying chargeFee : Bool) :
    ∃ short, tx.cannotPay ltx acc applying chargeFee = .ok short := by
  unfold TransactionFrame.cannotPay
  split
  · obtain ⟨avail, havail⟩ := h.available _ _ hacc
    exact exists_ok_bind havail ⟨_, rfl⟩
  · exact ⟨_, rfl⟩

variable [HashFunction] [PubKeyUtils]

theorem Checkable.commonValid (tx : TransactionFrame) (c : SignatureChecker)
    (current : SequenceNumber) (chargeFee : Bool) (lo hi : UInt64) :
    ∃ r, tx.commonValid c ltx current false chargeFee lo hi = .ok r := by
  unfold TransactionFrame.commonValid
  split
  · exact ⟨_, rfl⟩
  · exact ⟨_, rfl⟩
  · rename_i acc _ hacc
    obtain ⟨bad, hbad⟩ := h.hasBadSeq tx acc current false
    obtain ⟨short, hshort⟩ := h.cannotPay hacc false chargeFee
    refine exists_ok_bind hbad (exists_ok_unless fun _ => ?_)
    refine exists_ok_unless fun _ => ?_
    exact exists_ok_bind hshort (exists_ok_unless fun _ => ⟨_, rfl⟩)

theorem Checkable.checkOperation (tx : TransactionFrame) (index : Nat) (op : Operation)
    (c : SignatureChecker) :
    ∃ r, OperationFrame.checkValid tx index op c ltx false = .ok r := by
  obtain ⟨ok, hok⟩ := h.operations tx index op ltx.header.ledgerVersion
  refine exists_ok_unless fun _ => ?_
  exact exists_ok_unless fun _ => exists_ok_bind hok ⟨_, rfl⟩

theorem Checkable.operationsValid (tx : TransactionFrame) (ops : List Operation) (index : Nat)
    (c : SignatureChecker) : ∃ r, tx.operationsValid ltx ops index c = .ok r := by
  induction ops generalizing index c with
  | nil => exact ⟨_, rfl⟩
  | cons op ops ih =>
    obtain ⟨⟨valid, c'⟩, hop⟩ := h.checkOperation tx index op c
    exact exists_ok_bind hop (exists_ok_ite (fun _ => ih _ _) fun _ => ⟨_, rfl⟩)

theorem Checkable.checkValid (tx : TransactionFrame) (current : SequenceNumber) (chargeFee : Bool)
    (lo hi : UInt64) : ∃ r, tx.checkValid ltx current chargeFee lo hi = .ok r := by
  obtain ⟨⟨cv, code, c⟩, hcv⟩ := h.commonValid tx
    (SignatureChecker.make ltx.header.ledgerVersion tx.getContentsHash tx.signatures) current
    chargeFee lo hi
  obtain ⟨⟨valid, c'⟩, hops⟩ := h.operationsValid tx tx.operations 0 c
  refine exists_ok_bind hcv (exists_ok_unless fun _ => ?_)
  refine exists_ok_bind hops (exists_ok_unless fun _ => ?_)
  exact exists_ok_unless fun _ => ⟨_, rfl⟩

namespace FeeBumpTransactionFrame

theorem commonValid_ok {result : TransactionResult}
    (hpre : ∃ r, tx.commonValidPreSeqNum ltx result = .ok r) (c : SignatureChecker) :
    ∃ r, tx.commonValid c ltx false result = .ok r := by
  obtain ⟨⟨ok, result'⟩, hpre⟩ := hpre
  refine exists_ok_bind hpre ?_
  cases ok with
  | false => exact ⟨_, rfl⟩
  | true =>
    cases hacc : ltx.accounts tx.feeSource with
    | none => exact ⟨_, rfl⟩
    | some feeSource =>
      obtain ⟨avail, havail⟩ := h.available _ _ hacc
      refine exists_ok_unless fun _ => ?_
      exact exists_ok_bind havail (exists_ok_unless fun _ => ⟨_, rfl⟩)

theorem checkValid_ok (hfees : tx.FeesComparable ltx.header) (current : SequenceNumber)
    (lo hi : UInt64) :
    ∃ r, tx.checkValid ltx current lo hi = .ok r := by
  obtain ⟨⟨cv, result, c⟩, hcv⟩ := commonValid_ok h (preSeqNum_ok hfees
    (tx.resetResults ltx.header ltx.header.baseFee.toUInt64.toInt64 false))
    (SignatureChecker.make ltx.header.ledgerVersion tx.getContentsHash tx.signatures)
  obtain ⟨⟨res, inner⟩, hinner⟩ := h.checkValid tx.innerTx current false lo hi
  refine exists_ok_bind hcv (exists_ok_unless fun _ => ?_)
  refine exists_ok_unless fun _ => ?_
  exact exists_ok_bind hinner ⟨_, rfl⟩

omit h in
theorem checkValid_throws (hbase : 1 ≤ ltx.header.baseFee) (hfees : ¬tx.FeesComparable ltx.header)
    (current : SequenceNumber) (lo hi : UInt64) :
    ∃ e ∈ feeAssertions, tx.checkValid ltx current lo hi = .error e := by
  obtain ⟨e, he, hpre⟩ := preSeqNum_throws hbase hfees
    (tx.resetResults ltx.header ltx.header.baseFee.toUInt64.toInt64 false)
  refine ⟨e, he, ?_⟩
  simp only [checkValid, commonValid, hpre, bind, Except.bind]

/-- Validation of a fee bump returns a verdict exactly when its fees can be
compared; when they cannot, it ends in one of the two assertions. -/
theorem checkValid_ok_iff (hbase : 1 ≤ ltx.header.baseFee) (tx : FeeBumpTransactionFrame)
    (current : SequenceNumber) (lo hi : UInt64) :
    ((∃ valid result, tx.checkValid ltx current lo hi = .ok (valid, result))
        ↔ tx.FeesComparable ltx.header)
      ∧ (¬tx.FeesComparable ltx.header →
          ∃ e ∈ feeAssertions, tx.checkValid ltx current lo hi = .error e) := by
  refine ⟨⟨?_, fun hfees => ?_⟩, fun hfees => checkValid_throws hbase hfees current lo hi⟩
  · rintro ⟨valid, result, hok⟩
    by_contra hfees
    obtain ⟨e, -, herror⟩ := checkValid_throws hbase hfees current lo hi
    rw [hok] at herror
    cases herror
  · obtain ⟨⟨valid, result⟩, hok⟩ := checkValid_ok h hfees current lo hi
    exact ⟨valid, result, hok⟩

end FeeBumpTransactionFrame

end Total

/-- A fee bump of account 1 that offers a million stroops for a payment whose own
fee field is `innerFee`. -/
def bumpOf (innerFee : UInt64) : FeeBumpTransactionFrame where
  feeSource := 1
  fee := 1000000
  innerTx := { sourceAccount := 1, fee := innerFee, seqNum := 8,
               operations := [{ body := .payment 9 true 1000 }],
               signatures := [{ hint := 1, signature := [] }] }
  signatures := [{ hint := 1, signature := [] }]

open Evaluation

/-- The largest fee field, in a wrapped transaction, ends validation in an
assertion; the wrapped transaction's own check, which refuses a negative
bid with `txINSUFFICIENT_FEE`, is not reached. -/
theorem wide_inner_fee_throws :
    ((bumpOf 18446744073709551615).checkValid oneAccount 0 0 0).thrown
        = some "(a >= 0) && (b >= 0)"
      ∧ ((bumpOf 18446744073709551615).innerTx.checkValid oneAccount 0 false 0 0).map
          (fun r => (r.1, r.2.code)) = .ok (false, txINSUFFICIENT_FEE) :=
  ⟨by decide +kernel, by decide +kernel⟩

/-- A fee field of 100 can be compared. -/
theorem checkValid_ok_iff_narrow :
    ∃ valid result, (bumpOf 100).checkValid oneAccount 0 0 0 = .ok (valid, result) := by
  have hcheckable : Checkable oneAccount := by
    refine ⟨⟨_, rfl⟩, ?_, fun _ _ _ _ => ⟨_, rfl⟩⟩
    intro id acc hacc
    simp only [oneAccount] at hacc
    split at hacc
    · cases hacc
      exact ⟨_, rfl⟩
    · cases hacc
  exact (FeeBumpTransactionFrame.checkValid_ok_iff hcheckable (by decide) (bumpOf 100) 0 0 0).1.mpr
    (by decide +kernel)

end KinesisCore

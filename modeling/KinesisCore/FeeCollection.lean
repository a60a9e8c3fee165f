import KinesisCore.TxSetValid

/-!
# Is the minimum fee collected?

A transaction enters a set by bidding its minimum fee, which has a
percentage of the native amounts in it. What it is charged when the set is
closed is another formula: a base fee of the whole set, for each of its
operations. From protocol 11 on nothing connects the two. The percentage is
collected only if the base fee per operation happens to make up for it
(`FeeCovered`), and a set with a negative bid cannot be closed at all.
-/

namespace KinesisCore

open TxSetFrame

open Int64 (lt_iff_toInt_lt toInt_zero le_iff_toInt_le toInt_inj)

open TransactionFrameBase MachineInt Except

variable {lh : LedgerHeader}

/-- The number of operations a fee is charged for. -/
def Tx.chargedOperations : Tx → Int64
  | .plain tx => tx.chargedOperations
  | .feeBump tx => tx.chargedOperations

/-- Two headers that ask for the same fees: the one a set was checked
against and the one it is closed with. -/
structure SameFees (lh lh' : LedgerHeader) : Prop where
  ledgerVersion : lh.ledgerVersion = lh'.ledgerVersion
  baseFee : lh.baseFee = lh'.baseFee
  basePercentageFee : lh.basePercentageFee = lh'.basePercentageFee
  maxFee : lh.maxFee = lh'.maxFee
  maxTxSetSize : lh.maxTxSetSize = lh'.maxTxSetSize

/-! ## The base fee of a set -/

section BaseFee

variable {T : Type} [TransactionFrameBase T]

/-- The lowest bid per operation. -/
def lowestRate (txs : List T) (bound : Int64) : Int64 :=
  txs.foldl (fun low tx =>
    min low (ceilDiv (getFeeBid tx) (getNumOperations tx).toUInt64.toInt64)) bound

/-- A number of operations as a divisor. -/
theorem ops_pos {ops : UInt32} (h : 1 ≤ ops.toNat) : 0 < ops.toUInt64.toInt64 := by
  rw [lt_iff_toInt_lt, toInt_ofUInt32]
  exact Int.natCast_pos.mpr h

theorem operations_pos {tx : T} (h : getNumOperations tx ≠ 0) :
    0 < (getNumOperations tx).toUInt64.toInt64 :=
  ops_pos (Nat.one_le_iff_ne_zero.mpr fun hzero => h (UInt32.toNat_inj.mp hzero))

variable {txs : List T}

theorem lowestBaseFee_eq (hops : ∀ tx ∈ txs, getNumOperations tx ≠ 0)
    (hbids : ∀ tx ∈ txs, 0 ≤ getFeeBid tx) (bound : Int64) :
    lowestBaseFee txs bound = .ok (lowestRate txs bound) := by
  induction txs generalizing bound with
  | nil => rfl
  | cons tx txs ih =>
    simp only [List.forall_mem_cons] at hops hbids
    rw [lowestBaseFee, bigDivideOrThrow_one hbids.1 (operations_pos hops.1)]
    exact ih hops.2 hbids.2 _

theorem bids_of_lowestBaseFee {bound r : Int64}
    (h : lowestBaseFee txs bound = .ok r) : ∀ tx ∈ txs, 0 ≤ getFeeBid tx := by
  induction txs generalizing bound with
  | nil => intro tx htx; cases htx
  | cons tx txs ih =>
    obtain ⟨rate, hrate, h⟩ := bind_eq_ok.mp h
    intro u hu
    rcases List.mem_cons.mp hu with rfl | hu
    · by_contra hneg
      rw [bigDivideOrThrow_of_neg hneg] at hrate
      cases hrate
    · exact ih h u hu

variable [HashFunction]

/-- What the set is charged per operation, from protocol 11 on. -/
def TxSetFrame.rate (s : TxSetFrame T) (lh : LedgerHeader) : Int64 :=
  if s.sizeOp > surgeOpsCutoff lh then lowestRate s.mTransactions INT64_MAX
  else lh.baseFee.toUInt64.toInt64

theorem TxSetFrame.getBaseFee_eq {s : TxSetFrame T} (hv : lh.StartsFrom 11)
    (hops : ∀ tx ∈ s.mTransactions, getNumOperations tx ≠ 0)
    (hbids : ∀ tx ∈ s.mTransactions, 0 ≤ getFeeBid tx) : s.getBaseFee lh = .ok (s.rate lh) := by
  simp only [getBaseFee, hv, if_true, lowestBaseFee_eq hops hbids, TxSetFrame.rate, ok_bind]
  split <;> rfl

theorem TxSetFrame.bids_of_getBaseFee {s : TxSetFrame T} {baseFee : Int64} (hv : lh.StartsFrom 11)
    (h : s.getBaseFee lh = .ok baseFee) : ∀ tx ∈ s.mTransactions, 0 ≤ getFeeBid tx := by
  simp only [getBaseFee, hv, if_true] at h
  obtain ⟨low, hlow, -⟩ := bind_eq_ok.mp h
  exact bids_of_lowestBaseFee hlow

end BaseFee

/-! ## Charging one transaction -/

section Charge

variable {E : Type}

/-- What it means that a transaction paid its minimum fee: the result records
at least that, and what it records has moved from the fee source to the
pool. -/
structure FeeCollected [HashFunction] (lh : LedgerHeader) (tx : Tx) (ltx ltx' : LedgerTxn E)
    (result : TransactionResult) : Prop where
  minFee_le : getMinFee tx lh ≤ result.feeCharged
  debited : ∃ acc acc', ltx.accounts (getFeeSourceID tx) = some acc
    ∧ ltx'.accounts (getFeeSourceID tx) = some acc'
    ∧ acc'.balance.toInt = acc.balance.toInt - max 0 result.feeCharged.toInt
  pooled : ltx'.header.feePool = ltx.header.feePool + max 0 result.feeCharged

variable {acc : AccountEntry} {fee : Int64}

/-- A positive fee is taken as far as the balance goes. -/
theorem takeFee_of_pos (header : LedgerHeader) {charged : Int64} (hbal : 0 ≤ acc.balance.toInt)
    (hpos : 0 < fee.toInt) (hcharged : min acc.balance fee = charged) :
    ∃ balance, takeFee header acc fee = .ok (charged, { acc with balance },
        { header with feePool := header.feePool + max 0 charged })
      ∧ balance.toInt = acc.balance.toInt - max 0 charged.toInt := by
  have hmin : charged.toInt = min acc.balance.toInt fee.toInt := by rw [← hcharged, toInt_min]
  have hmax : max 0 charged = charged := toInt_inj.mp (by
    rw [toInt_max, toInt_zero]
    omega)
  have hlt : acc.balance.toInt < 2 ^ 63 := acc.balance.toInt_lt
  have hneg : (-charged).toInt = -charged.toInt := toInt_neg ⟨by omega, by omega⟩
  have hpos' : fee > 0 := by simpa [lt_iff_toInt_lt] using hpos
  have hle : -charged ≠ 0 ∨ acc.balance.toInt ≤ INT64_MAX.toInt := .inr acc.balance.toInt_le
  rcases addBalanceTo_spec hbal (by decide) hle with ⟨-, -, hr, hsum⟩ | ⟨hrange, -⟩
  · refine ⟨acc.balance + -charged, ?_, ?_⟩
    · simp [takeFee, hpos', hcharged, hr, hmax]
    · omega
  · have hmax := toInt_INT64_MAX
    omega

variable (tx : Tx) (header : LedgerHeader)

/-- An account that has the fee is debited by it. -/
theorem takeFee_eq (h : fee ≤ acc.balance) : ∃ balance, takeFee header acc fee
        = .ok (fee, { acc with balance }, { header with feePool := header.feePool + max 0 fee })
      ∧ balance.toInt = acc.balance.toInt - max 0 fee.toInt := by
  rw [le_iff_toInt_le] at h
  by_cases hpos : fee > 0
  · have hpos' : 0 < fee.toInt := by simpa [lt_iff_toInt_lt] using hpos
    refine takeFee_of_pos header (by omega) hpos' (toInt_inj.mp ?_)
    rw [toInt_min]
    omega
  · have hnonpos : fee.toInt ≤ 0 := by simpa [lt_iff_toInt_lt] using hpos
    have hmax : max 0 fee = 0 := toInt_inj.mp (by
      rw [toInt_max, toInt_zero]
      omega)
    refine ⟨acc.balance, ?_, by omega⟩
    simp [takeFee, hpos, hmax]

/-- What is left of the account after the fee step. -/
def Tx.charged (acc : AccountEntry) : AccountEntry :=
  match tx with
  | .plain tx =>
    if protocolVersionIsBefore header.ledgerVersion 10 then { acc with seqNum := tx.seqNum }
    else acc
  | .feeBump _ => acc

theorem Tx.charged_balance (acc : AccountEntry) :
    (tx.charged header acc).balance = acc.balance := by
  cases tx with
  | plain tx =>
    simp only [Tx.charged]
    split <;> rfl
  | feeBump tx => rfl

variable [HashFunction]

theorem getFee_le_bid (tx : Tx) (lh : LedgerHeader) (baseFee : Int64) :
    getFee tx lh baseFee true ≤ getFeeBid tx := by
  have hmin : ∀ a b : Int64, min a b ≤ a := fun a b => by
    rw [le_iff_toInt_le, toInt_min]
    omega
  cases tx with
  | plain tx =>
    show tx.getFee lh baseFee true ≤ tx.getFeeBid
    unfold TransactionFrame.getFee
    split
    · exact hmin _ _
    · exact Int64.le_refl _
  | feeBump tx => exact hmin _ _

variable {tx : Tx}

theorem getFee_eq_min (hv : lh.StartsFrom 11) (baseFee : Int64) :
    getFee tx lh baseFee true = min (getFeeBid tx) (baseFee * tx.chargedOperations) := by
  cases tx with
  | plain tx =>
    show tx.getFee lh baseFee true = _
    simp only [TransactionFrame.getFee, hv, Bool.true_or, if_true]
    rfl
  | feeBump tx => rfl

variable {ltx : LedgerTxn E}

variable (hacc : ltx.accounts (getFeeSourceID tx) = some acc)
include hacc

theorem Tx.processFeeSeqNum_of_takeFee {acc' : AccountEntry}
    {header : LedgerHeader} {baseFee : Int64}
    (htake : takeFee ltx.header acc (getFee tx ltx.header baseFee true) = .ok (fee, acc', header))
    (hversion : header.ledgerVersion = ltx.header.ledgerVersion)
    (hseq : protocolVersionIsBefore ltx.header.ledgerVersion 10 = true →
      acc'.seqNum + 1 = getSeqNum tx) :
    ∃ result, tx.processFeeSeqNum ltx baseFee
        = .ok (result, { ltx with header }.putAccount (getFeeSourceID tx)
            (tx.charged ltx.header acc'))
      ∧ result.feeCharged = fee := by
  cases tx with
  | plain tx =>
    have hsource : ltx.accounts tx.sourceAccount = some acc := hacc
    have htake : takeFee ltx.header acc (tx.resetResults ltx.header baseFee true).feeCharged = _ :=
      htake
    refine ⟨{ tx.resetResults ltx.header baseFee true with feeCharged := fee }, ?_, rfl⟩
    show tx.processFeeSeqNum ltx baseFee = _
    by_cases hv : protocolVersionIsBefore ltx.header.ledgerVersion 10 = true
    · have hnext : ¬acc'.seqNum + 1 ≠ tx.seqNum := not_not.mpr (hseq hv)
      simp only [TransactionFrame.processFeeSeqNum, hsource, htake, hversion, hv, hnext, if_true,
        if_false, Tx.charged, ok_bind]
      rfl
    · simp only [TransactionFrame.processFeeSeqNum, hsource, htake, hversion, hv, Tx.charged,
        ok_bind]
      rfl
  | feeBump tx =>
    have hsource : ltx.accounts tx.feeSource = some acc := hacc
    have htake : takeFee ltx.header acc (tx.resetResults ltx.header baseFee true).feeCharged = _ :=
      htake
    refine ⟨{ tx.resetResults ltx.header baseFee true with feeCharged := fee }, ?_, rfl⟩
    show tx.processFeeSeqNum ltx baseFee = _
    simp only [FeeBumpTransactionFrame.processFeeSeqNum, hsource, htake, Tx.charged, ok_bind]
    rfl

/-- With a fee source that has the bid, the fee step charges `getFee`. -/
theorem Tx.processFeeSeqNum_eq (hbid : getFeeBid tx ≤ acc.balance)
    (hseq : protocolVersionIsBefore ltx.header.ledgerVersion 10 = true →
      acc.seqNum + 1 = getSeqNum tx) (baseFee : Int64) :
    ∃ result ltx', tx.processFeeSeqNum ltx baseFee = .ok (result, ltx')
      ∧ result.feeCharged = getFee tx ltx.header baseFee true
      ∧ (∃ acc', ltx'.accounts (getFeeSourceID tx) = some acc'
        ∧ acc'.balance.toInt = acc.balance.toInt - max 0 result.feeCharged.toInt)
      ∧ ltx'.header.feePool = ltx.header.feePool + max 0 result.feeCharged := by
  have hle : getFee tx ltx.header baseFee true ≤ acc.balance :=
    Int64.le_trans (getFee_le_bid tx ltx.header baseFee) hbid
  obtain ⟨balance, htake, hbalance⟩ := takeFee_eq ltx.header hle
  obtain ⟨result, hrun, hfee⟩ := Tx.processFeeSeqNum_of_takeFee hacc htake rfl hseq
  refine ⟨result, _, hrun, hfee, ⟨_, Function.update_self .., ?_⟩, ?_⟩
  · rw [Tx.charged_balance, hbalance, hfee]
  · rw [hfee, LedgerTxn.putAccount_header]

end Charge

/-! ## The minimum fee -/

section

variable {E : Type} [HashFunction]

/-- The charge makes up for the minimum fee: before protocol 11 it is the bid
itself; later no bid of the set is negative, and the set's base fee times
the number of operations is enough. -/
def FeeCovered (s : TxSetFrame Tx) (lh : LedgerHeader) (tx : Tx) : Prop :=
  protocolVersionStartsFrom lh.ledgerVersion 11 = false
    ∨ (∀ u ∈ s.mTransactions, 0 ≤ getFeeBid u)
      ∧ getMinFee tx lh ≤ s.rate lh * tx.chargedOperations

theorem SameFees.rate_eq {lh' : LedgerHeader} (h : SameFees lh lh') (s : TxSetFrame Tx) :
    s.rate lh = s.rate lh' := by
  have hcutoff : surgeOpsCutoff lh = surgeOpsCutoff lh' := by
    rw [surgeOpsCutoff, surgeOpsCutoff, h.maxTxSetSize]
  rw [TxSetFrame.rate, TxSetFrame.rate, hcutoff, h.baseFee]

variable [PubKeyUtils] [OperationFrame E]

theorem admitted_of_mem {I : Stl.Impl} {s : TxSetFrame Tx} {lcl : LastClosedLedger E}
    {lo hi : UInt64} (hcache : s.CacheSound I lcl)
    (hvalid : (s.checkValid I lcl lo hi).map Prod.fst = .ok true) (htx : tx ∈ s.mTransactions) :
    ∃ current, tx.Admitted lcl.ledger current := by
  obtain ⟨⟨valid, s'⟩, hcheck, rfl⟩ := map_eq_ok.mp hvalid
  obtain ⟨lo', hi', hnow⟩ := checkNow_of_checkValid hcache hcheck
  obtain ⟨lastSeq, hcheck⟩ := checkNow_passed hnow tx htx
  obtain ⟨⟨valid, r⟩, hr, h⟩ := bind_eq_ok.mp hcheck
  obtain rfl : valid = true := by simpa using h
  exact ⟨lastSeq, Tx.admitted_of_checkValid hr⟩

/-- In a set that passes its check, a transaction whose fee source has its bid
pays its minimum fee exactly when the charge makes up for it. -/
theorem feeCollected_iff (I : Stl.Impl) (s : TxSetFrame Tx) (lcl : LastClosedLedger E)
    (lo hi : UInt64) (hcache : s.CacheSound I lcl)
    (hvalid : (s.checkValid I lcl lo hi).map Prod.fst = .ok true) (tx : Tx)
    (htx : tx ∈ s.mTransactions) (ltx : LedgerTxn E) (hfees : SameFees ltx.header lcl.header)
    (acc : AccountEntry) (hacc : ltx.accounts (getFeeSourceID tx) = some acc)
    (hbid : getFeeBid tx ≤ acc.balance)
    (hseq : protocolVersionIsBefore ltx.header.ledgerVersion 10 = true →
      acc.seqNum + 1 = getSeqNum tx) :
    (∃ baseFee result ltx', s.getBaseFee ltx.header = .ok baseFee
        ∧ tx.processFeeSeqNum ltx baseFee = .ok (result, ltx')
        ∧ FeeCollected lcl.header tx ltx ltx' result)
      ↔ FeeCovered s lcl.header tx := by
  obtain ⟨current, hadm⟩ := admitted_of_mem hcache hvalid htx
  have hmin : getMinFee tx lcl.header ≤ getFeeBid tx := by
    have := hadm.bid_ge
    rw [lt_iff_toInt_lt] at this
    rw [le_iff_toInt_le]
    show (getMinFee tx lcl.ledger.header).toInt ≤ _
    omega
  have hops : ∀ u ∈ s.mTransactions, getNumOperations u ≠ 0 := by
    intro u hu
    obtain ⟨current', hadm'⟩ := admitted_of_mem hcache hvalid hu
    exact hadm'.operations_ne
  by_cases hv : protocolVersionStartsFrom ltx.header.ledgerVersion 11 = true
  · have hrun := Tx.processFeeSeqNum_eq hacc hbid hseq (s.rate ltx.header)
    obtain ⟨result, ltx', hrun, hfee, ⟨acc', hacc', hdebit⟩, hpool⟩ := hrun
    rw [getFee_eq_min hv, hfees.rate_eq] at hfee
    constructor
    · rintro ⟨baseFee, result', ltx'', hbase, hrun', hcollected⟩
      have hbids := bids_of_getBaseFee hv hbase
      refine .inr ⟨hbids, ?_⟩
      rw [getBaseFee_eq hv hops hbids] at hbase
      cases hbase
      rw [hrun] at hrun'
      cases hrun'
      have hle := hcollected.minFee_le
      rw [hfee, le_iff_toInt_le, toInt_min] at hle
      rw [le_iff_toInt_le]
      omega
    · rintro (hold | ⟨hbids, hcovered⟩)
      · rw [← hfees.ledgerVersion, hv] at hold
        cases hold
      · refine ⟨_, result, ltx', getBaseFee_eq hv hops hbids, hrun, ?_,
          ⟨acc, acc', hacc, hacc', hdebit⟩, hpool⟩
        rw [hfee, le_iff_toInt_le, toInt_min]
        rw [le_iff_toInt_le] at hmin hcovered
        omega
  · -- a fee bump is not valid yet, and a plain transaction pays its bid
    have hv' : protocolVersionStartsFrom lcl.header.ledgerVersion 11 = false := by
      rw [← hfees.ledgerVersion]
      simpa using hv
    refine iff_of_true ?_ (.inl hv')
    have hrun := Tx.processFeeSeqNum_eq hacc hbid hseq ltx.header.baseFee.toUInt64.toInt64
    obtain ⟨result, ltx', hrun, hfee, ⟨acc', hacc', hdebit⟩, hpool⟩ := hrun
    refine ⟨_, result, ltx', by simp [getBaseFee, hv], hrun, ?_,
      ⟨acc, acc', hacc, hacc', hdebit⟩, hpool⟩
    rw [hfee]
    cases tx with
    | plain tx =>
      have hpays : getFee (Tx.plain tx) ltx.header ltx.header.baseFee.toUInt64.toInt64 true
          = getFeeBid (Tx.plain tx) := by
        show tx.getFee _ _ true = tx.getFeeBid
        simp [TransactionFrame.getFee, hv]
      rw [hpays]
      exact hmin
    | feeBump tx =>
      have hversion := hadm.version tx rfl
      simp only [protocolVersionIsBefore, decide_eq_false_iff_not] at hversion
      simp only [protocolVersionStartsFrom, decide_eq_false_iff_not] at hv'
      exact absurd hversion (by
        show ¬¬lcl.header.ledgerVersion.toNat < 13
        omega)

end

/-- A ledger of protocol 14 with one account, a percentage fee of 45 basis
points and room for 200 operations. -/
def oneAccount : LedgerTxn Unit where
  header := header45
  accounts id := if id = 1 then some { balance := 20000000000, seqNum := 7 } else none
  others := ()

/-- A payment of account 1 that bids what it is asked for: 100 stroops and
45 basis points of `amount`, when that is a multiple of 2000. -/
def signedPayment (amount : UInt64) : Tx :=
  .plain { sourceAccount := 1, fee := 100 + amount * 45 / 10000, seqNum := 8,
           operations := [{ body := .payment 9 true amount.toInt64 }],
           signatures := [{ hint := 1, signature := [] }] }

open Evaluation

/-- The next payment of account 1, of twice the amount, bids twice the percentage. -/
def secondPayment : Tx :=
  .plain { sourceAccount := 1, fee := 9000100, seqNum := 9,
           operations := [{ body := .payment 9 true 2000000000 }],
           signatures := [{ hint := 1, signature := [] }] }

/-- No operation fits without surge pricing. -/
def crowded : LedgerTxn Unit :=
  { oneAccount with header := { oneAccount.header with maxTxSetSize := 100 } }

/-- With two payments in a crowded ledger, the first sets the rate and pays all of its
percentage. -/
theorem feeCollected_iff_crowded :
    let tx := signedPayment 1000000000
    let s := TxSetFrame.fresh 5 [tx, secondPayment]
    ((s.checkValid Stl.insertion (⟨5, crowded⟩ : LastClosedLedger Unit) 0 0).map Prod.fst
        = .ok true)
      ∧ getMinFee tx crowded.header = 4500100
      ∧ ∃ baseFee result ltx', s.getBaseFee crowded.header = .ok baseFee
        ∧ tx.processFeeSeqNum crowded baseFee = .ok (result, ltx')
        ∧ FeeCollected crowded.header tx crowded ltx' result := by
  have hvalid : ((TxSetFrame.fresh 5 [signedPayment 1000000000, secondPayment]).checkValid
      Stl.insertion (⟨5, crowded⟩ : LastClosedLedger Unit) 0 0).map Prod.fst = .ok true := by
    decide +kernel
  refine ⟨hvalid, by decide, (feeCollected_iff Stl.insertion
    (TxSetFrame.fresh 5 [signedPayment 1000000000, secondPayment]) ⟨5, crowded⟩ 0 0 nofun hvalid
    (signedPayment 1000000000) List.mem_cons_self crowded ⟨rfl, rfl, rfl, rfl, rfl⟩ _ rfl
    (by decide) (by decide)).mpr ?_⟩
  exact .inr ⟨by decide, by decide⟩

/-- A payment of a thousand million stroops bids 4500100 stroops, as it must,
and is charged 100. -/
theorem percentage_not_collected :
    let tx := signedPayment 1000000000
    let s := TxSetFrame.fresh 5 [tx]
    ((s.checkValid Stl.insertion (⟨5, oneAccount⟩ : LastClosedLedger Unit) 0 0).map Prod.fst
        = .ok true)
      ∧ getMinFee tx oneAccount.header = 4500100
      ∧ s.getBaseFee oneAccount.header = .ok 100
      ∧ (tx.processFeeSeqNum oneAccount 100).map (·.1.feeCharged) = .ok 100 :=
  ⟨by decide +kernel, by decide, rfl, rfl⟩

end KinesisCore

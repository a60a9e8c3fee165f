import Mathlib.Algebra.Order.BigOperators.Group.Finset
import KinesisCore.FeeCollection
import KinesisCore.LedgerClose

/-!
# The fee step conserves coins

`processFeesSeqNums` moves coins from fee sources to the fee pool, never more than a
source has. What it moves is the positive part of what it records as charged: a
recorded fee that is negative moves nothing. So the records add up to what moved
exactly when no fee is negative.
-/

namespace KinesisCore

open TransactionFrameBase MachineInt LedgerTxn

section FeeStep

variable {E : Type}

/-- The ledger `ltx'` is `ltx` after `amount` coins went from accounts to the fee
pool: only balances and the pool differ, and no balance is negative. -/
structure FeesTaken (ltx ltx' : LedgerTxn E) (amount : Int) : Prop where
  pool : ltx'.header.feePool.toInt = ltx.header.feePool.toInt + amount
  balances : ltx.accountBalances = ltx'.accountBalances + amount
  nonneg : ∀ id acc, ltx'.accounts id = some acc → 0 ≤ acc.balance.toInt
  accounts : ∃ balance : AccountID → Int64, ∀ id,
    ltx'.accounts id = (ltx.accounts id).map fun acc => { acc with balance := balance id }
  header : ltx'.header = { ltx.header with feePool := ltx'.header.feePool }
  others : ltx'.others = ltx.others

variable {ltx : LedgerTxn E}

theorem FeesTaken.refl (hnonneg : ∀ id acc, ltx.accounts id = some acc → 0 ≤ acc.balance.toInt) :
    FeesTaken ltx ltx 0 where
  pool := (add_zero _).symm
  balances := (add_zero _).symm
  nonneg := hnonneg
  accounts := by
    refine ⟨fun id => ((ltx.accounts id).map (·.balance)).getD 0, fun id => ?_⟩
    cases hid : ltx.accounts id with
    | none => rfl
    | some acc => simp [hid]
  header := rfl
  others := rfl

theorem FeesTaken.trans {ltx' ltx'' : LedgerTxn E} {a b : Int} (h : FeesTaken ltx ltx' a)
    (h' : FeesTaken ltx' ltx'' b) : FeesTaken ltx ltx'' (a + b) where
  pool := by
    rw [h'.pool, h.pool]
    ring
  balances := by
    rw [h.balances, h'.balances]
    ring
  nonneg := h'.nonneg
  accounts := by
    obtain ⟨balance, hacc⟩ := h.accounts
    obtain ⟨balance', hacc'⟩ := h'.accounts
    refine ⟨balance', fun id => ?_⟩
    rw [hacc', hacc, Option.map_map]
    rfl
  header := by rw [h'.header, h.header]
  others := h'.others.trans h.others

/-! ## One transaction -/

variable {acc : AccountEntry}

/-- What is charged is at most what the account has, and negative only if the fee
is. -/
theorem takeFee_spec (header : LedgerHeader) (hbal : 0 ≤ acc.balance.toInt) (fee : Int64) :
    ∃ charged balance, takeFee header acc fee
        = .ok (charged, { acc with balance },
          { header with feePool := header.feePool + max 0 charged })
      ∧ balance.toInt = acc.balance.toInt - max 0 charged.toInt
      ∧ max 0 charged.toInt ≤ acc.balance.toInt ∧ (charged.toInt < 0 ↔ fee.toInt < 0) := by
  by_cases hle : fee ≤ acc.balance
  · obtain ⟨balance, htake, hbalance⟩ := takeFee_eq header hle
    rw [Int64.le_iff_toInt_le] at hle
    exact ⟨fee, balance, htake, hbalance, by omega, Iff.rfl⟩
  · -- the whole balance goes
    have hmin : min acc.balance fee = acc.balance :=
      if_pos (Int64.le_of_lt (Int64.not_le.mp hle))
    rw [Int64.le_iff_toInt_le] at hle
    obtain ⟨balance, htake, hbalance⟩ := takeFee_of_pos header hbal (by omega) hmin
    exact ⟨acc.balance, balance, htake, hbalance, by omega, by omega⟩

section

variable (hnonneg : ∀ id acc, ltx.accounts id = some acc → 0 ≤ acc.balance.toInt)
include hnonneg

theorem balance_le_accountBalances {id : AccountID} (hacc : ltx.accounts id = some acc) :
    acc.balance.toInt ≤ ltx.accountBalances := by
  have hat : ltx.balanceAt id = acc.balance.toInt := by simp [balanceAt, hacc]
  rw [← hat]
  refine Finset.single_le_sum (fun k _ => ?_) (Finset.mem_univ id)
  unfold balanceAt
  cases hk : ltx.accounts k with
  | none => exact le_rfl
  | some acc' => exact hnonneg k acc' hk

variable (htotal : ltx.accountBalances + ltx.header.feePool.toInt ≤ INT64_MAX.toInt)
include htotal

/-- The fee of one account. -/
theorem feesTaken_putAccount {id : AccountID} {charged balance : Int64}
    (hacc : ltx.accounts id = some acc)
    (hbalance : balance.toInt = acc.balance.toInt - max 0 charged.toInt)
    (hle : max 0 charged.toInt ≤ acc.balance.toInt) :
    FeesTaken ltx
      (({ ltx with
            header := { ltx.header with feePool := ltx.header.feePool + max 0 charged }
              }).putAccount
        id { acc with balance }) (max 0 charged.toInt) where
  pool := by
    have hone := balance_le_accountBalances hnonneg hacc
    have hmax := toInt_INT64_MAX
    have hlow : -2 ^ 63 ≤ ltx.header.feePool.toInt := ltx.header.feePool.le_toInt
    have hpart : (max 0 charged).toInt = max 0 charged.toInt := by
      rw [toInt_max, Int64.toInt_zero]
    show (ltx.header.feePool + max 0 charged).toInt = _
    rw [toInt_add ⟨by omega, by omega⟩, hpart]
  balances := by
    have hput := accountBalances_putAccount
      { ltx with header := { ltx.header with feePool := ltx.header.feePool + max 0 charged } }
      hacc { acc with balance }
    rw [hput]
    show ltx.accountBalances = ltx.accountBalances + (balance.toInt - acc.balance.toInt) + _
    omega
  nonneg := forall_putAccount hnonneg (show 0 ≤ balance.toInt by omega)
  accounts := by
    refine ⟨fun k => if k = id then balance else ((ltx.accounts k).map (·.balance)).getD 0,
      fun k => ?_⟩
    by_cases hid : k = id
    · subst hid
      simp [putAccount, hacc]
    · simp only [putAccount, Function.update_of_ne hid, if_neg hid]
      cases hk : ltx.accounts k with
      | none => rfl
      | some acc' => simp
  header := rfl
  others := rfl

/-- From protocol 10 on the fee step only moves coins. -/
theorem Tx.processFeeSeqNum_feesTaken [HashFunction] (tx : Tx) (baseFee : Int64)
    (hv : protocolVersionIsBefore ltx.header.ledgerVersion 10 = false)
    (hsource : (ltx.accounts (getFeeSourceID tx)).isSome) :
    ∃ result ltx', tx.processFeeSeqNum ltx baseFee = .ok (result, ltx')
      ∧ FeesTaken ltx ltx' (max 0 result.feeCharged.toInt)
      ∧ (result.feeCharged.toInt < 0 ↔ (getFee tx ltx.header baseFee true).toInt < 0) := by
  obtain ⟨acc, hacc⟩ := Option.isSome_iff_exists.mp hsource
  obtain ⟨charged, balance, htake, hbalance, hle, hsign⟩ :=
    takeFee_spec ltx.header (hnonneg _ acc hacc) (getFee tx ltx.header baseFee true)
  obtain ⟨result, hrun, rfl⟩ := Tx.processFeeSeqNum_of_takeFee hacc htake rfl
    (fun hold => absurd hold (by rw [hv]; decide))
  have hsame : tx.charged ltx.header { acc with balance } = { acc with balance } := by
    cases tx with
    | plain tx => simp [Tx.charged, hv]
    | feeBump tx => rfl
  rw [hsame] at hrun
  exact ⟨result, _, hrun, feesTaken_putAccount hnonneg htotal hacc hbalance hle, hsign⟩

end

/-! ## A whole set -/

variable [HashFunction]

theorem getFee_feePool (tx : Tx) (header : LedgerHeader) (feePool baseFee : Int64) :
    getFee tx { header with feePool } baseFee true = getFee tx header baseFee true := by
  cases tx with
  | plain tx => rfl
  | feeBump tx => rfl

/-- The sum of what the results record as charged. -/
def totalCharged (charged : List ChargedTx) : Int :=
  (charged.map fun t => t.result.feeCharged.toInt).sum

/-- The fee step of a list of transactions whose fee sources exist: what moves
is the sum of the positive records, and the negative ones are those of the
transactions with a negative fee. -/
theorem processFeesSeqNums_feesTaken (baseFee : Int64) (txs : List Tx) (ltx : LedgerTxn E)
    (hv : protocolVersionIsBefore ltx.header.ledgerVersion 10 = false)
    (hnonneg : ∀ id acc, ltx.accounts id = some acc → 0 ≤ acc.balance.toInt)
    (htotal : ltx.accountBalances + ltx.header.feePool.toInt ≤ INT64_MAX.toInt)
    (hsources : ∀ tx ∈ txs, (ltx.accounts (getFeeSourceID tx)).isSome) :
    ∃ charged ltx' moved, processFeesSeqNums baseFee txs ltx = .ok (charged, ltx')
      ∧ FeesTaken ltx ltx' moved ∧ totalCharged charged ≤ moved
      ∧ (totalCharged charged = moved
        ↔ ∀ tx ∈ txs, 0 ≤ (getFee tx ltx.header baseFee true).toInt) := by
  induction txs generalizing ltx with
  | nil => exact ⟨[], ltx, 0, rfl, .refl hnonneg, le_rfl, by simp [totalCharged]⟩
  | cons tx txs ih =>
    rw [List.forall_mem_cons] at hsources
    obtain ⟨result, ltx₁, hrun, htaken, hsign⟩ :=
      tx.processFeeSeqNum_feesTaken hnonneg htotal baseFee hv hsources.1
    have hfees : ∀ u : Tx,
        getFee u ltx₁.header baseFee true = getFee u ltx.header baseFee true := fun u => by
      rw [htaken.header, getFee_feePool]
    obtain ⟨charged, ltx₂, moved, hrest, htaken', hle, hiff⟩ := ih ltx₁
      (by rw [htaken.header]; exact hv) htaken.nonneg
      (by rw [htaken.pool]; have := htaken.balances; omega)
      (fun u hu => by
        obtain ⟨balance, haccounts⟩ := htaken.accounts
        rw [haccounts, Option.isSome_map]
        exact hsources.2 u hu)
    simp only [hfees] at hiff
    have hsum : totalCharged (⟨tx, result, tx.innerResult ltx.header baseFee⟩ :: charged)
        = result.feeCharged.toInt + totalCharged charged := by
      simp [totalCharged]
    refine ⟨⟨tx, result, tx.innerResult ltx.header baseFee⟩ :: charged, ltx₂, _, ?_,
      htaken.trans htaken', ?_, ?_⟩
    · simp only [processFeesSeqNums, hrun, hrest, Except.ok_bind, Except.pure_eq]
    · omega
    · -- both parts fall short of what moved, so the sum agrees only if both do
      rw [List.forall_mem_cons, ← hiff]
      omega

/-- The fee step of a set from protocol 10 on conserves coins and records what
it moved: the pool gains the sum of the recorded fees, which is what the
accounts lost. -/
def FeesConserved (baseFee : Int64) (txs : List Tx) (ltx : LedgerTxn E) : Prop :=
  ∃ charged ltx', processFeesSeqNums baseFee txs ltx = .ok (charged, ltx')
    ∧ FeesTaken ltx ltx' (totalCharged charged)

variable [PubKeyUtils] [OperationFrame E]

/-- A set that passes its check is charged without an exception, in any order,
and coins are conserved with what the results record exactly when no
transaction has a negative fee. -/
theorem feesConserved_iff (I : Stl.Impl) (s : TxSetFrame Tx) (lcl : LastClosedLedger E)
    (lo hi : UInt64) (hcache : s.CacheSound I lcl)
    (hvalid : (s.checkValid I lcl lo hi).map Prod.fst = .ok true)
    (ltx : LedgerTxn E) (haccounts : ltx.accounts = lcl.ledger.accounts)
    (hv : protocolVersionIsBefore ltx.header.ledgerVersion 10 = false)
    (hnonneg : ∀ id acc, ltx.accounts id = some acc → 0 ≤ acc.balance.toInt)
    (htotal : ltx.nativeCoins ≤ INT64_MAX.toInt) (txs : List Tx)
    (hperm : txs.Perm s.mTransactions) (baseFee : Int64) :
    FeesConserved baseFee txs ltx
      ↔ ∀ tx ∈ txs, 0 ≤ (getFee tx ltx.header baseFee true).toInt := by
  have hsources : ∀ tx ∈ txs, (ltx.accounts (getFeeSourceID tx)).isSome := fun tx htx => by
    obtain ⟨current, hadm⟩ := admitted_of_mem hcache hvalid (hperm.mem_iff.mp htx)
    obtain ⟨acc, avail, hacc, -⟩ := hadm.feeSource
    rw [haccounts, hacc]
    rfl
  obtain ⟨charged, ltx', moved, hrun, htaken, -, hiff⟩ :=
    processFeesSeqNums_feesTaken baseFee txs ltx hv hnonneg htotal hsources
  rw [← hiff]
  constructor
  · rintro ⟨charged', ltx'', hrun', htaken'⟩
    rw [hrun] at hrun'
    cases hrun'
    have hpool := htaken.pool
    have hpool' := htaken'.pool
    omega
  · intro heq
    exact ⟨charged, ltx', hrun, heq ▸ htaken⟩

end FeeStep

/-- The ledger of one account at protocol 10, with the cap on fees lifted. -/
def uncappedTen : LedgerTxn Unit :=
  { oneAccount with
    header := { oneAccount.header with ledgerVersion := 10, maxFee := 18446744073709551615 } }

/-- A payment of account 1 with a fee of its choice. -/
def paymentBidding (fee : UInt64) (seqNum : Int64) : Tx :=
  .plain { type := .txV0, sourceAccount := 1, fee, seqNum,
           operations := [{ body := .payment 9 true 1000 }],
           operations_le := one_le_maxOpsPerTx,
           signatures := [{ hint := 1, signature := [] }] }

theorem uncappedTen_accountBalances : uncappedTen.accountBalances = 20000000000 := by
  have hat : ∀ id, uncappedTen.balanceAt id = if id = 1 then 20000000000 else 0 := fun id => by
    show ((if id = 1 then some _ else none : Option AccountEntry).map (·.balance.toInt)).getD 0 = _
    by_cases hid : id = 1
    · rw [if_pos hid, if_pos hid]
      rfl
    · rw [if_neg hid, if_neg hid]
      rfl
  rw [accountBalances, Finset.sum_congr rfl fun id _ => hat id, Finset.sum_ite_eq',
    if_pos (Finset.mem_univ _)]

open Evaluation

/-- Two payments of one account, charged against their order. -/
theorem feesConserved_iff_two_payments :
    FeesConserved 100 [paymentBidding 300 9, paymentBidding 200 8] uncappedTen := by
  have hvalid : ((TxSetFrame.fresh 5 [paymentBidding 200 8, paymentBidding 300 9]).checkValid
      Stl.insertion (⟨5, uncappedTen⟩ : LastClosedLedger Unit) 0 0).map Prod.fst = .ok true := by
    decide +kernel
  have hnonneg : ∀ id acc, uncappedTen.accounts id = some acc → 0 ≤ acc.balance.toInt := by
    intro id acc h
    replace h : (if id = 1 then some _ else none : Option AccountEntry) = some acc := h
    split_ifs at h
    cases h
    decide
  have htotal : uncappedTen.nativeCoins ≤ INT64_MAX.toInt := by
    rw [nativeCoins, uncappedTen_accountBalances]
    decide
  exact (feesConserved_iff Stl.insertion
    (TxSetFrame.fresh 5 [paymentBidding 200 8, paymentBidding 300 9]) ⟨5, uncappedTen⟩ 0 0 nofun
    hvalid uncappedTen rfl (by decide) hnonneg htotal _ (List.Perm.swap _ _ []) 100).mpr
    (by decide)

/-- A payment with the fee field at its largest, which is a bid of -1, is
valid. The result records a fee of -1; the pool stays as it is. -/
theorem negative_fee_recorded :
    let tx := paymentBidding 18446744073709551615 8
    let s := TxSetFrame.fresh 5 [tx]
    ((s.checkValid Stl.insertion (⟨5, uncappedTen⟩ : LastClosedLedger Unit) 0 0).map Prod.fst
        = .ok true)
      ∧ s.getBaseFee uncappedTen.header = .ok 100
      ∧ (processFeesSeqNums 100 [tx] uncappedTen).map
          (fun (charged, ltx) => (totalCharged charged, ltx.header.feePool)) = .ok (-1, 0)
      ∧ uncappedTen.header.feePool = 0 :=
  ⟨by decide +kernel, rfl, by decide +kernel, rfl⟩

end KinesisCore

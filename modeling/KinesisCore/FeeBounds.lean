import Mathlib.Algebra.Order.BigOperators.Group.List
import KinesisCore.FeeCollection

/-!
# What a bid and a minimum fee can be

The fee field of an envelope has 64 bits in this fork. Validation compares the
balance of the source with the bid cut to 32 bits, so a bid that does not fit is
not covered; a fee bump compares the whole bid.

The minimum fee is computed in 64-bit arithmetic that nothing keeps from wrapping around.
`getMinFeeWith` is the computation with any function in place of the multiplication of
doubles (`getMinFee_eq`), and `toInt_getMinFeeWith` says what comes out of it, wrapped or
not. `feesBounded_of_fits` and `not_feesBounded` are the two halves of `minFee_bounded_iff`:
as long as the amounts and the fees fit 64 bits, the fee is bounded and no operation lowers
it; the first operation that leads out of the range makes it negative.
-/

namespace KinesisCore

open MachineInt TransactionFrame Except
open Int64 (lt_iff_toInt_lt le_iff_toInt_le toInt_zero ofInt_toInt ofInt_add toInt_ofInt_of_le)

/-! ## The balance check -/

variable {header : LedgerHeader} (percentage : Int64 → Int64) (tx : TransactionFrame)

/-- The source account can pay the whole bid, and the bid is no debt. -/
def TransactionFrame.BidCovered {E : Type} (tx : TransactionFrame) (ltx : LedgerTxn E) : Prop :=
  ∃ acc avail, ltx.accounts tx.sourceAccount = some acc ∧
    getAvailableBalance ltx.header acc = .ok avail ∧ tx.getFeeBid ≤ avail ∧ 0 ≤ tx.getFeeBid

/-- A ledger of protocol 14 whose account 1 can spend 2^32 - 1 stroops; the cap on
fees is `maxFee`. -/
def cappedLedger (maxFee : UInt64) : LedgerTxn Unit :=
  { oneAccount with
    header := { oneAccount.header with maxFee := maxFee }
    accounts := fun id =>
      if id = 1 then some { balance := 4304967295, seqNum := 7 } else none }

/-- A transaction of account 1 that moves no coins. -/
def feeOnly (fee : UInt64) : TransactionFrame where
  sourceAccount := 1
  fee := fee
  seqNum := 8
  operations := [{ body := .bumpSequence 0 }]
  signatures := [{ hint := 1, signature := [] }]

/-- Under a cap equal to its fee, every such transaction bids the minimum. -/
theorem minFee_feeOnly (fee : UInt64) :
    ¬(feeOnly fee).getFeeBid < (feeOnly fee).getMinFee (cappedLedger fee).header := by
  unfold getMinFee
  dsimp only
  split_ifs with h
  · exact Int64.lt_irrefl
  · exact h

/-- A transaction that passes every check is valid. -/
theorem TransactionFrame.checkValid_of_checks {E : Type} [HashFunction] [PubKeyUtils]
    [OperationFrame E] {tx : TransactionFrame} {ltx : LedgerTxn E} {current : SequenceNumber}
    {chargeFee : Bool} {lo hi : UInt64} {acc : AccountEntry} {c c' : SignatureChecker}
    (hpre : tx.commonValidPreSeqNum ltx chargeFee lo hi = none)
    (hacc : ltx.accounts tx.sourceAccount = some acc)
    (hseq : tx.hasBadSeq ltx acc current false = .ok false)
    (hsigned : checkSignature (.make ltx.header.ledgerVersion tx.getContentsHash tx.signatures)
      tx.sourceAccount acc (getNeededThreshold acc .LOW) = (true, c))
    (hpay : tx.cannotPay ltx acc false chargeFee = .ok false)
    (hops : tx.operationsValid ltx tx.operations 0 c = .ok (true, c'))
    (hused : c'.checkAllSignaturesUsed = true) :
    ∃ r, tx.checkValid ltx current chargeFee lo hi = .ok (true, r) := by
  have hcv : tx.commonValid (.make ltx.header.ledgerVersion tx.getContentsHash tx.signatures) ltx
      current false chargeFee lo hi = .ok (.kMaybeValid, none, c) := by
    unfold commonValid
    simp only [Bool.false_and, Bool.false_eq_true, if_false, hpre, hacc, hseq, hsigned, hpay]
    rfl
  refine ⟨tx.resetResults ltx.header
    (if chargeFee then ltx.header.baseFee.toUInt64.toInt64 else 0) false, ?_⟩
  unfold TransactionFrame.checkValid
  simp only [hcv]
  refine bind_eq_ok.mpr ⟨_, rfl, ?_⟩
  refine bind_eq_ok.mpr ⟨_, hops, ?_⟩
  simp only [hused, not_true_eq_false, if_false]
  rfl

theorem available_capped :
    getAvailableBalance oneAccount.header { balance := 4304967295, seqNum := 7 }
      = .ok 4294967295 := by
  decide

open Evaluation

theorem checkValid_feeOnly (fee : UInt64) :
    ∃ r, (feeOnly fee).checkValid (cappedLedger fee) 0 true 0 0 = .ok (true, r) := by
  have hpre : (feeOnly fee).commonValidPreSeqNum (cappedLedger fee) true 0 0 = none := by
    have hbid : ¬(true && decide ((feeOnly fee).getFeeBid <
        (feeOnly fee).getMinFee (cappedLedger fee).header)) = true := by
      rw [Bool.true_and, decide_eq_true_eq]
      exact minFee_feeOnly fee
    simp only [commonValidPreSeqNum, if_neg hbid]
    rfl
  have hpay : (feeOnly fee).cannotPay (cappedLedger fee) { balance := 4304967295, seqNum := 7 }
      false true = .ok false := by
    refine bind_eq_ok.mpr ⟨4294967295, available_capped, ?_⟩
    rw [pure_eq_ok, decide_eq_false_iff_not, lt_iff_toInt_lt, toInt_feeToPay]
    have hlit : (4294967295 : Int64).toInt = 4294967295 := by decide
    omega
  have hseq : (feeOnly 0).hasBadSeq (cappedLedger 0) { balance := 4304967295, seqNum := 7 } 0
      false = .ok false := by decide
  exact checkValid_of_checks hpre rfl hseq rfl hpay rfl rfl

/-- The balance check covers every bid of a fee exactly if the fee has 32 bits. -/
theorem bid_covered_iff (fee : UInt64) :
    (∀ (E : Type) [HashFunction] [PubKeyUtils] [OperationFrame E] (tx : TransactionFrame)
      (ltx : LedgerTxn E) (current : SequenceNumber) (lo hi : UInt64) (r : TransactionResult),
      tx.fee = fee → protocolVersionStartsFrom ltx.header.ledgerVersion 10 = true →
      tx.checkValid ltx current true lo hi = .ok (true, r) → tx.BidCovered ltx) ↔
    fee.toNat < 2 ^ 32 := by
  constructor
  · intro h
    by_contra hfee
    obtain ⟨r, hr⟩ := checkValid_feeOnly fee
    obtain ⟨acc, avail, hacc, havail, hle, hbid⟩ :=
      @h Unit bytesAsNumber acceptAll (idleOperations Unit) (feeOnly fee) (cappedLedger fee) 0 0 0 r
        rfl rfl hr
    cases hacc
    cases ok.inj (available_capped.symm.trans havail)
    -- a bid that is no debt is the fee itself, and the account has less
    rw [le_iff_toInt_le] at hle hbid
    have hlit : (4294967295 : Int64).toInt = 4294967295 := by decide
    have hvalue : (feeOnly fee).getFeeBid.toInt = fee.toNat := by
      refine toInt_ofUInt64 (not_le.mp fun hbig => ?_)
      have hneg : fee.toInt64.toInt = fee.toNat - 2 ^ 64 := toInt_ofUInt64_upper hbig
      rw [show (feeOnly fee).getFeeBid = fee.toInt64 from rfl, toInt_zero] at hbid
      have := fee.toNat_lt
      omega
    omega
  · intro hfee E _ _ _ tx ltx current lo hi r htx _ hr
    obtain ⟨acc, avail, hacc, havail, hle⟩ := available_of_checkValid hr
    rw [htx] at hle
    have hvalue : tx.getFeeBid.toInt = fee.toNat := by
      rw [show tx.getFeeBid = fee.toInt64 from congrArg _ htx]
      exact toInt_ofUInt64 (by omega)
    refine ⟨acc, avail, hacc, havail, ?_, ?_⟩
    · rw [le_iff_toInt_le]
      omega
    · rw [le_iff_toInt_le, toInt_zero]
      omega

/-- An account that can spend a hundred stroops, and a bid of 2^32 + 100. -/
theorem wide_bid_not_covered :
    let tx := feeOnly 4294967396
    let acc : AccountEntry := { balance := 10000100, seqNum := 7 }
    let ltx : LedgerTxn Unit :=
      { oneAccount with accounts := fun id => if id = 1 then some acc else none }
    (tx.checkValid ltx 0 true 0 0).map Prod.fst = .ok true
      ∧ getAvailableBalance ltx.header acc = .ok 100 ∧ tx.getFeeBid = 4294967396 :=
  ⟨by decide +kernel, by decide, rfl⟩

/-! ## The minimum fee -/

/-- `getMinFee` with the percentage of an amount as a function. -/
def TransactionFrame.getMinFeeWith (header : LedgerHeader) : Int64 :=
  let baseFee := header.baseFee.toUInt64.toInt64 * tx.chargedOperations
  let totalAmount := tx.operations.foldl (fun total op => total + nativeAmount op) 0
  let totalFee := baseFee + percentage totalAmount
  let headerMaxFee := header.maxFee.toInt64
  if totalFee > headerMaxFee then headerMaxFee else totalFee

theorem TransactionFrame.getMinFee_eq (tx : TransactionFrame) (header : LedgerHeader) :
    tx.getMinFee header
      = tx.getMinFeeWith (percentageFee · header.basePercentageFee) header := rfl

/-- The native coins the operations move. -/
def totalNative (ops : List Operation) : Int := (ops.map fun op => (nativeAmount op).toInt).sum

/-- The base fee of a number of operations. -/
def totalBaseFee (header : LedgerHeader) (ops : List Operation) : Int :=
  header.baseFee.toNat * max 1 (ops.length : Int)

/-- What the sum of both fees comes to in the integers. The amount the percentage is
taken of has gone through 64 bits. -/
def exactFee (header : LedgerHeader) (ops : List Operation) : Int :=
  totalBaseFee header ops + (percentage (Int64.ofInt (totalNative ops))).toInt

theorem foldl_nativeAmount (ops : List Operation) (total : Int64) :
    ops.foldl (fun total op => total + nativeAmount op) total =
      Int64.ofInt (total.toInt + totalNative ops) := by
  induction ops generalizing total with
  | nil =>
    show total = Int64.ofInt (total.toInt + 0)
    rw [Int.add_zero, ofInt_toInt]
  | cons op ops ih =>
    rw [List.foldl_cons, ih]
    have hsum : totalNative (op :: ops) = (nativeAmount op).toInt + totalNative ops := rfl
    rw [hsum, ← Int.add_assoc, ofInt_add, ofInt_add _ (totalNative ops),
      ofInt_add total.toInt, ofInt_toInt, ofInt_toInt, ofInt_toInt]

theorem toInt_chargedOperations (tx : TransactionFrame) :
    tx.chargedOperations.toInt = max 1 (tx.operations.length : Int) := by
  have hlen := tx.operations_le
  unfold MAX_OPS_PER_TX at hlen
  have hnum : tx.getNumOperations.toNat = tx.operations.length :=
    UInt32.toNat_ofNat_of_lt' (by show _ < 4294967296; omega)
  unfold chargedOperations
  rw [toInt_max, toInt_ofUInt32, hnum]
  rfl

theorem totalBaseFee_bounds (tx : TransactionFrame) (header : LedgerHeader) :
    0 ≤ totalBaseFee header tx.operations ∧
      totalBaseFee header tx.operations ≤ 4294967295 * 100 := by
  have hlen := tx.operations_le
  have hfee := header.baseFee.toNat_lt
  unfold MAX_OPS_PER_TX at hlen
  exact ⟨Int.mul_nonneg (by omega) (by omega),
    Int.mul_le_mul (by omega) (by omega) (by omega) (by omega)⟩

theorem toInt_baseFee (tx : TransactionFrame) (header : LedgerHeader) :
    (header.baseFee.toUInt64.toInt64 * tx.chargedOperations).toInt =
      totalBaseFee header tx.operations := by
  obtain ⟨hlow, hhigh⟩ := totalBaseFee_bounds tx header
  have hexact : header.baseFee.toUInt64.toInt64.toInt * tx.chargedOperations.toInt =
      totalBaseFee header tx.operations := by
    rw [toInt_ofUInt32, toInt_chargedOperations]
    rfl
  rw [toInt_mul, hexact]
  exact ⟨by omega, by omega⟩

theorem exactFee_bounds (percentage : Int64 → Int64) (tx : TransactionFrame)
    (header : LedgerHeader) :
    totalBaseFee header tx.operations - 2 ^ 63 ≤ exactFee percentage header tx.operations
      ∧ exactFee percentage header tx.operations < totalBaseFee header tx.operations + 2 ^ 63 := by
  obtain ⟨hlow, hhigh⟩ := inRange_toInt (percentage (Int64.ofInt (totalNative tx.operations)))
  unfold exactFee
  omega

/-- The minimum fee, when the cap is a number of 64 bits with a sign. -/
theorem toInt_getMinFeeWith (percentage : Int64 → Int64) (tx : TransactionFrame)
    (hcap : header.maxFee.toNat < 2 ^ 63) :
    (tx.getMinFeeWith percentage header).toInt =
      if exactFee percentage header tx.operations < 2 ^ 63 then
        min (exactFee percentage header tx.operations) header.maxFee.toNat
      else exactFee percentage header tx.operations - 2 ^ 64 := by
  have htotal : tx.operations.foldl (fun total op => total + nativeAmount op) 0 =
      Int64.ofInt (totalNative tx.operations) := by
    rw [foldl_nativeAmount, toInt_zero, Int.zero_add]
  obtain ⟨hlow, hhigh⟩ := exactFee_bounds percentage tx header
  obtain ⟨hnonneg, hbase⟩ := totalBaseFee_bounds tx header
  unfold getMinFeeWith
  rw [htotal]
  dsimp only
  generalize hfee : header.baseFee.toUInt64.toInt64 * tx.chargedOperations +
    percentage (Int64.ofInt (totalNative tx.operations)) = fee
  have hcapped : (if fee > header.maxFee.toInt64 then header.maxFee.toInt64 else fee).toInt =
      min fee.toInt header.maxFee.toNat := by
    split_ifs with h
    · rw [gt_iff_lt, lt_iff_toInt_lt, toInt_ofUInt64 hcap] at h
      rw [toInt_ofUInt64 hcap]
      omega
    · rw [gt_iff_lt, lt_iff_toInt_lt, toInt_ofUInt64 hcap] at h
      omega
  have hsum : fee.toInt = (exactFee percentage header tx.operations).bmod (2 ^ 64) := by
    rw [← hfee, Int64.toInt_add, toInt_baseFee]
    rfl
  rw [hcapped, hsum, Int.bmod_def]
  split_ifs <;> omega

/-- Over a cap of the upper half no minimum fee is bounded: the cap is read as a
negative number. -/
theorem minFee_negative (percentage : Int64 → Int64) (tx : TransactionFrame)
    (hcap : 2 ^ 63 ≤ header.maxFee.toNat) :
    (tx.getMinFeeWith percentage header).toInt < 0 := by
  have hlt := header.maxFee.toNat_lt
  have hneg := toInt_ofUInt64_upper hcap
  unfold getMinFeeWith
  dsimp only
  split_ifs with h
  · omega
  · rw [gt_iff_lt, lt_iff_toInt_lt] at h
    omega

/-! ### One operation after the other -/

/-- The transaction with the first `k` of its operations. -/
def TransactionFrame.firstOperations (k : Nat) : TransactionFrame :=
  { tx with
    operations := tx.operations.take k
    operations_le := (List.length_take_le' k tx.operations).trans tx.operations_le }

/-- As the operations are added one by one, the minimum fee is at least the base fee or the
cap and at most the cap, and none of the operations lowers it. -/
def TransactionFrame.FeesBounded (minFee : TransactionFrame → Int64) (header : LedgerHeader)
    (tx : TransactionFrame) : Prop :=
  ∀ k, min (totalBaseFee header (tx.operations.take k)) header.maxFee.toNat
        ≤ (minFee (tx.firstOperations k)).toInt
      ∧ (minFee (tx.firstOperations k)).toInt ≤ header.maxFee.toNat
      ∧ minFee (tx.firstOperations k) ≤ minFee (tx.firstOperations (k + 1))

/-- A function that can stand for the multiplication: it is monotone, keeps zero, and takes
at most `most` of an amount. -/
structure Percentage (most percentage : Int64 → Int64) : Prop where
  zero : percentage 0 = 0
  mono : ∀ x y, x ≤ y → percentage x ≤ percentage y
  le : ∀ x, 0 ≤ x → percentage x ≤ most x

/-- The amounts add up to a 64-bit number, and the fee for them is one. -/
def FeesFit (most : Int64 → Int64) (header : LedgerHeader) (ops : List Operation) : Prop :=
  ∃ total : Int64, total.toInt = totalNative ops
    ∧ totalBaseFee header ops + (most total).toInt < 2 ^ 63

section

variable {most : Int64 → Int64} {ops : List Operation} {tx : TransactionFrame}

theorem totalNative_append (ops ops' : List Operation) :
    totalNative (ops ++ ops') = totalNative ops + totalNative ops' := by
  simp [totalNative]

theorem totalNative_nonneg (h : ∀ op ∈ ops, 0 ≤ nativeAmount op) : 0 ≤ totalNative ops := by
  refine List.sum_nonneg fun x hx => ?_
  obtain ⟨op, hop, rfl⟩ := List.mem_map.mp hx
  exact Int64.le_iff_toInt_le.mp (h op hop)

/-- One more operation adds its amount. -/
theorem totalNative_take_succ (h : ∀ op ∈ ops, 0 ≤ nativeAmount op) (k : Nat) :
    totalNative (ops.take k) ≤ totalNative (ops.take (k + 1))
      ∧ totalNative (ops.take (k + 1)) < totalNative (ops.take k) + 2 ^ 63 := by
  rw [List.take_add_one, totalNative_append]
  cases hget : ops[k]? with
  | none => simp [totalNative]
  | some op =>
    have hnonneg := Int64.le_iff_toInt_le.mp (h op (List.mem_of_getElem? hget))
    have hlt := (nativeAmount op).toInt_lt
    have hone : totalNative [op] = (nativeAmount op).toInt := Int.add_zero _
    rw [Option.toList_some, hone]
    rw [toInt_zero] at hnonneg
    omega

theorem totalBaseFee_take_succ (header : LedgerHeader) (ops : List Operation) (k : Nat) :
    totalBaseFee header (ops.take k) ≤ totalBaseFee header (ops.take (k + 1)) := by
  refine Int.mul_le_mul_of_nonneg_left ?_ (by omega)
  rw [List.length_take, List.length_take]
  omega

/-- What fits with one more operation fits without it. -/
theorem FeesFit.pred (hmono : ∀ x y, x ≤ y → most x ≤ most y)
    (h : ∀ op ∈ ops, 0 ≤ nativeAmount op) {k : Nat}
    (hfit : FeesFit most header (ops.take (k + 1))) :
    FeesFit most header (ops.take k) := by
  obtain ⟨total, htotal, hfee⟩ := hfit
  obtain ⟨hle, -⟩ := totalNative_take_succ h k
  have hnonneg : 0 ≤ totalNative (ops.take k) :=
    totalNative_nonneg fun op hop => h op (List.mem_of_mem_take hop)
  have hlt := total.toInt_lt
  have hvalue : (Int64.ofInt (totalNative (ops.take k))).toInt = totalNative (ops.take k) :=
    toInt_ofInt_of_le (by omega) (by omega)
  have hbase := totalBaseFee_take_succ header ops k
  have hmost := hmono (Int64.ofInt (totalNative (ops.take k))) total
    (Int64.le_iff_toInt_le.mpr (by omega))
  rw [le_iff_toInt_le] at hmost
  exact ⟨_, hvalue, by omega⟩

/-- What fits for all operations fits for the first ones, by induction down from their
number. -/
theorem FeesFit.take (hmono : ∀ x y, x ≤ y → most x ≤ most y)
    (h : ∀ op ∈ ops, 0 ≤ nativeAmount op) (hfit : FeesFit most header ops) (k : Nat) :
    FeesFit most header (ops.take k) := by
  rcases Nat.le_total ops.length k with hk | hk
  · rwa [List.take_of_length_le hk]
  · induction hk using Nat.decreasingInduction with
    | self => rwa [List.take_length]
    | of_succ k hk ih => exact ih.pred hmono h

/-- The exact fee of amounts that fit: the percentage is not negative. -/
theorem exactFee_of_fits {percentage : Int64 → Int64} (hp : Percentage most percentage)
    (h : ∀ op ∈ ops, 0 ≤ nativeAmount op) (hfit : FeesFit most header ops) :
    ∃ total : Int64, total.toInt = totalNative ops
      ∧ exactFee percentage header ops = totalBaseFee header ops + (percentage total).toInt
      ∧ 0 ≤ (percentage total).toInt ∧ exactFee percentage header ops < 2 ^ 63 := by
  obtain ⟨total, htotal, hfee⟩ := hfit
  have hnonneg : 0 ≤ total := by
    rw [le_iff_toInt_le, htotal]
    exact totalNative_nonneg h
  have hexact : exactFee percentage header ops
      = totalBaseFee header ops + (percentage total).toInt := by
    rw [exactFee, ← htotal, ofInt_toInt]
  have hlow := hp.mono 0 total hnonneg
  have hhigh := hp.le total hnonneg
  rw [hp.zero, le_iff_toInt_le, toInt_zero] at hlow
  rw [le_iff_toInt_le] at hhigh
  exact ⟨total, htotal, hexact, hlow, by omega⟩

theorem feesBounded_of_fits {percentage : Int64 → Int64} (hp : Percentage most percentage)
    (h : ∀ op ∈ tx.operations, 0 ≤ nativeAmount op) (hcap : header.maxFee.toNat < 2 ^ 63)
    (hfits : ∀ k, FeesFit most header (tx.operations.take k)) :
    tx.FeesBounded (·.getMinFeeWith percentage header) header := by
  intro k
  have hfirst : ∀ k, ∀ op ∈ tx.operations.take k, 0 ≤ nativeAmount op :=
    fun k op hop => h op (List.mem_of_mem_take hop)
  obtain ⟨total, htotal, hexact, hlow, hlt⟩ := exactFee_of_fits hp (hfirst k) (hfits k)
  obtain ⟨total', htotal', hexact', hlow', hlt'⟩ :=
    exactFee_of_fits hp (hfirst (k + 1)) (hfits (k + 1))
  have hbase := totalBaseFee_take_succ header tx.operations k
  have hmono := hp.mono total total' (by
    rw [le_iff_toInt_le, htotal, htotal']
    exact (totalNative_take_succ h k).1)
  rw [le_iff_toInt_le] at hmono
  have hfee := toInt_getMinFeeWith percentage (tx.firstOperations k) hcap
  have hfee' := toInt_getMinFeeWith percentage (tx.firstOperations (k + 1)) hcap
  rw [show (tx.firstOperations k).operations = tx.operations.take k from rfl, if_pos hlt] at hfee
  rw [show (tx.firstOperations (k + 1)).operations = tx.operations.take (k + 1) from rfl,
    if_pos hlt'] at hfee'
  rw [le_iff_toInt_le, hfee, hfee']
  omega

/-- The minimum fee of the code, if its multiplication of doubles keeps zero and the order. -/
theorem getMinFee_feesBounded
    (hp : Percentage (percentageFee · header.basePercentageFee)
      (percentageFee · header.basePercentageFee))
    (h : ∀ op ∈ tx.operations, 0 ≤ nativeAmount op) (hcap : header.maxFee.toNat < 2 ^ 63)
    (hfit : FeesFit (percentageFee · header.basePercentageFee) header tx.operations) :
    tx.FeesBounded (·.getMinFee header) header := by
  simp only [getMinFee_eq]
  exact feesBounded_of_fits hp h hcap (hfit.take hp.mono h)

/-- The function that takes the most of an amount, and of a sum that has wrapped around. -/
def worstPercentage (most : Int64 → Int64) (x : Int64) : Int64 :=
  if x < 0 then Int64.minValue else most x

theorem percentage_worst (hzero : most 0 = 0) (hmono : ∀ x y, x ≤ y → most x ≤ most y) :
    Percentage most (worstPercentage most) where
  zero := hzero
  mono x y hxy := by
    unfold worstPercentage
    split_ifs with hx hy hy
    · exact Int64.le_refl _
    · exact Int64.minValue_le _
    · exact absurd (Int64.lt_of_le_of_lt hxy hy) hx
    · exact hmono x y hxy
  le x hx := by
    rw [worstPercentage, if_neg (Int64.not_lt.mpr hx)]
    exact Int64.le_refl _

/-- The operation with which the fee no longer fits makes it negative. -/
theorem not_feesBounded (hcap : header.maxFee.toNat < 2 ^ 63)
    (h : ∀ op ∈ tx.operations, 0 ≤ nativeAmount op) {k : Nat}
    (hfit : FeesFit most header (tx.operations.take k))
    (hnot : ¬FeesFit most header (tx.operations.take (k + 1))) :
    ¬tx.FeesBounded (·.getMinFeeWith (worstPercentage most) header) header := by
  intro hbounded
  obtain ⟨hlow, -⟩ := hbounded (k + 1)
  obtain ⟨total, htotal, -⟩ := hfit
  obtain ⟨hle, hlt⟩ := totalNative_take_succ h k
  have htop := total.toInt_lt
  have hnonneg := totalNative_nonneg fun op hop => h op (List.mem_of_mem_take (i := k) hop)
  obtain ⟨hbase, hbase'⟩ := totalBaseFee_bounds (tx.firstOperations (k + 1)) header
  have hexact := exactFee_bounds (worstPercentage most) (tx.firstOperations (k + 1)) header
  have hfee := toInt_getMinFeeWith (worstPercentage most) (tx.firstOperations (k + 1)) hcap
  rw [show (tx.firstOperations (k + 1)).operations = tx.operations.take (k + 1) from rfl]
    at hfee hbase hbase' hexact
  rw [hfee] at hlow
  by_cases hrange : totalNative (tx.operations.take (k + 1)) < 2 ^ 63
  · -- the fee of the whole amount is above the range
    have hvalue := toInt_ofInt_of_le
      (by omega : -2 ^ 63 ≤ totalNative (tx.operations.take (k + 1))) hrange
    have hpos : ¬Int64.ofInt (totalNative (tx.operations.take (k + 1))) < 0 := by
      rw [lt_iff_toInt_lt, hvalue, toInt_zero]
      omega
    have hover : ¬exactFee (worstPercentage most) header (tx.operations.take (k + 1)) < 2 ^ 63 := by
      rw [exactFee, worstPercentage, if_neg hpos]
      exact fun hfits => hnot ⟨_, hvalue, hfits⟩
    rw [if_neg hover] at hlow
    omega
  · -- the amount has wrapped around
    have hneg : Int64.ofInt (totalNative (tx.operations.take (k + 1))) < 0 := by
      have hsize : ((Int64.size : Nat) : Int) = 2 ^ 64 := rfl
      rw [lt_iff_toInt_lt, Int64.toInt_ofInt, Int.bmod_def, toInt_zero, hsize]
      omega
    have hmin : exactFee (worstPercentage most) header (tx.operations.take (k + 1))
        = totalBaseFee header (tx.operations.take (k + 1)) - 2 ^ 63 := by
      rw [exactFee, worstPercentage, if_pos hneg]
      rfl
    rw [hmin, if_pos (by omega)] at hlow
    omega

end

/-- Whatever the multiplication of doubles does within its bounds, the minimum fee is bounded
and no operation lowers it, exactly if the cap is a number of 64 bits with a sign, the amounts
add up to one, and the base fee with the largest percentage of their sum is one. -/
theorem minFee_bounded_iff (most : Int64 → Int64) (hzero : most 0 = 0)
    (hmono : ∀ x y, x ≤ y → most x ≤ most y) (header : LedgerHeader) (tx : TransactionFrame)
    (hamounts : ∀ op ∈ tx.operations, 0 ≤ nativeAmount op) :
    (∀ percentage, Percentage most percentage →
      tx.FeesBounded (·.getMinFeeWith percentage header) header) ↔
    header.maxFee.toNat < 2 ^ 63
      ∧ ∃ total : Int64, total.toInt = totalNative tx.operations
        ∧ totalBaseFee header tx.operations + (most total).toInt < 2 ^ 63 := by
  have hall : tx.operations.take tx.operations.length = tx.operations := List.take_length
  constructor
  · intro hbounded
    have hworst := hbounded _ (percentage_worst hzero hmono)
    have hcap : header.maxFee.toNat < 2 ^ 63 := by
      by_contra hcap
      have hneg := minFee_negative (worstPercentage most) (tx.firstOperations 0) (not_lt.mp hcap)
      have hnonneg := (totalBaseFee_bounds (tx.firstOperations 0) header).1
      have hlow := (hworst 0).1
      dsimp only at hlow
      rw [show (tx.firstOperations 0).operations = tx.operations.take 0 from rfl] at hnonneg
      omega
    have hfit : ∀ k, FeesFit most header (tx.operations.take k) := by
      intro k
      induction k with
      | zero =>
        have hbase := (totalBaseFee_bounds (tx.firstOperations 0) header).2
        rw [show (tx.firstOperations 0).operations = tx.operations.take 0 from rfl] at hbase
        refine ⟨0, rfl, ?_⟩
        rw [hzero, toInt_zero]
        omega
      | succ k ih =>
        by_contra hnot
        exact not_feesBounded hcap hamounts ih hnot hworst
    exact ⟨hcap, hall ▸ hfit tx.operations.length⟩
  · rintro ⟨hcap, hfits⟩ percentage hp
    exact feesBounded_of_fits hp hamounts hcap (FeesFit.take hmono hamounts hfits)

/-- A payment of a hundred stroops after another. -/
theorem minFee_bounded_iff_small_payments :
    let pay : Operation := { body := .payment 9 true 100 }
    let tx : TransactionFrame :=
      { sourceAccount := 1, fee := 100, seqNum := 8, operations := [pay, pay] }
    tx.FeesBounded (·.getMinFeeWith id oneAccount.header) oneAccount.header := by
  intro pay tx
  refine (minFee_bounded_iff id rfl (fun _ _ h => h) oneAccount.header tx (by decide)).mpr
    ⟨by decide, 200, by decide, by decide⟩ id ⟨rfl, fun _ _ h => h, fun x _ => Int64.le_refl x⟩

/-- With the real percentage: a second payment of 2^63 - 1 stroops lowers the
minimum fee from the cap to the base fee. -/
theorem second_payment_lowers_minFee :
    let pay : Operation := { body := .payment 9 true INT64_MAX }
    let tx : TransactionFrame :=
      { sourceAccount := 1, fee := 100, seqNum := 8, operations := [pay, pay] }
    (tx.firstOperations 1).getMinFee oneAccount.header = 10000000000
      ∧ (tx.firstOperations 2).getMinFee oneAccount.header = 200 :=
  ⟨by decide, by decide⟩

end KinesisCore

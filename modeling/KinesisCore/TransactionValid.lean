import KinesisCore.Fallible
import KinesisCore.Numeric
import KinesisCore.SignatureChecker

/-!
# Validity of a transaction

`TransactionFrame::checkValid` and `FeeBumpTransactionFrame::checkValid`
decide whether a transaction may enter a set that is built on a ledger.
They load from a nested ledger that is rolled back, so they only read.
`commonValid` is also the first step of applying a transaction, with other
arguments: then the fee is taken already.

The old cache of the source account (before protocol 8) holds what the
ledger holds as long as nothing is written, which is the case here.

What an operation itself asks for and does is the class `OperationFrame`.
Its results are left out, except for whether it succeeded.
-/

namespace KinesisCore

open Xdr HashFunction TransactionFrameBase TransactionFrame FeeBumpTransactionFrame
open Except (bind_eq_ok pure_eq_ok)

inductive TransactionResultCode where
  | txFEE_BUMP_INNER_SUCCESS
  | txSUCCESS
  | txFAILED
  | txTOO_EARLY
  | txTOO_LATE
  | txMISSING_OPERATION
  | txBAD_SEQ
  | txBAD_AUTH
  | txINSUFFICIENT_BALANCE
  | txNO_ACCOUNT
  | txINSUFFICIENT_FEE
  | txBAD_AUTH_EXTRA
  | txINTERNAL_ERROR
  | txNOT_SUPPORTED
  | txFEE_BUMP_INNER_FAILED
  | txBAD_SPONSORSHIP
  deriving Repr, DecidableEq

open TransactionResultCode

structure InnerTransactionResult where
  feeCharged : Int64
  code : TransactionResultCode
  deriving Repr, DecidableEq

/-- The result of a transaction. A fee bump also reports the result of the
transaction it wraps. -/
structure TransactionResult where
  feeCharged : Int64
  code : TransactionResultCode
  innerResult : Option InnerTransactionResult := none
  deriving Repr, DecidableEq

/-- The first sequence number an account created in a ledger can have. -/
def getStartingSequenceNumber (ledgerSeq : UInt32) : Except String SequenceNumber :=
  if ledgerSeq > 0x7fffffff then throw "overflowed getStartingSequenceNumber"
  else return (ledgerSeq.toUInt64 <<< 32).toInt64

/-! ## Operations -/

inductive ThresholdLevel where
  | LOW
  | MEDIUM
  | HIGH
  deriving Repr, DecidableEq

/-- What depends on the kind of an operation. An operation is given as its
transaction and its index there. -/
class OperationFrame (E : Type) where
  isOpSupported : Operation → LedgerHeader → Bool
  getThresholdLevel : Operation → ThresholdLevel
  doCheckValid : TransactionFrame → Nat → Operation → UInt32 → Except String Bool
  doApply : TransactionFrame → Nat → Operation → LedgerTxn E → Except String (Bool × LedgerTxn E)

/-- Operations to evaluate with: they ask for nothing and do nothing. -/
@[reducible] def idleOperations (E : Type) : OperationFrame E where
  isOpSupported _ _ := true
  getThresholdLevel _ := .LOW
  doCheckValid _ _ _ _ := return true
  doApply _ _ _ ltx := return (true, ltx)

namespace Evaluation

attribute [scoped instance] idleOperations

end Evaluation

def getNeededThreshold (acc : AccountEntry) : ThresholdLevel → Int32
  | .LOW => acc.thresholds.low.toUInt32.toInt32
  | .MEDIUM => acc.thresholds.medium.toUInt32.toInt32
  | .HIGH => acc.thresholds.high.toUInt32.toInt32

namespace TransactionFrame

variable [HashFunction]

def getContentsHash (tx : TransactionFrame) : Hash := sha256 tx.payload

/-- The signers of an account: its master key, unless that has no weight,
and the others. -/
def accountSigners (id : AccountID) (acc : AccountEntry) : List Signer :=
  if acc.thresholds.masterWeight ≠ 0 then
    { key := .ed25519 id, weight := acc.thresholds.masterWeight.toUInt32 } :: acc.signers
  else acc.signers

variable [PubKeyUtils]

variable (c : SignatureChecker) (id : AccountID)

def checkSignature (acc : AccountEntry) (neededWeight : Int32) : Bool × SignatureChecker :=
  c.checkSignature (accountSigners id acc) neededWeight

def checkSignatureNoAccount : Bool × SignatureChecker :=
  c.checkSignature [{ key := .ed25519 id, weight := 1 }] 0

end TransactionFrame

namespace OperationFrame

variable {E : Type} [HashFunction] [PubKeyUtils] [OperationFrame E] (tx : TransactionFrame)
  (op : Operation)

def getSourceID : AccountID :=
  op.sourceAccount.getD tx.sourceAccount

def checkSignature (c : SignatureChecker)
    (ltx : LedgerTxn E) (forApply : Bool) : Bool × SignatureChecker :=
  match ltx.accounts (getSourceID tx op) with
  | some acc =>
    TransactionFrame.checkSignature c (getSourceID tx op) acc
      (getNeededThreshold acc (getThresholdLevel E op))
  | none =>
    match op.sourceAccount with
    | some id => if forApply then (false, c) else TransactionFrame.checkSignatureNoAccount c id
    | none => (false, c)

def checkValid (index : Nat) (op : Operation) (c : SignatureChecker)
    (ltx : LedgerTxn E) (forApply : Bool) : Except String (Bool × SignatureChecker) := do
  if ¬isOpSupported E op ltx.header then return (false, c)
  let ledgerVersion := ltx.header.ledgerVersion
  let (ok, c) :=
    if !forApply || protocolVersionIsBefore ledgerVersion 10 then
      checkSignature tx op c ltx forApply
    else ((ltx.accounts (getSourceID tx op)).isSome, c)
  if ¬ok then return (false, c)
  return (← doCheckValid E tx index op ledgerVersion, c)

end OperationFrame

/-! ## Plain transactions -/

/-- How far validation came. -/
inductive ValidationType where
  | kInvalid
  | kInvalidUpdateSeqNum
  | kInvalidPostAuth
  | kMaybeValid
  deriving Repr, DecidableEq

open ValidationType

namespace TransactionFrame

variable {E : Type} (tx : TransactionFrame) (ltx : LedgerTxn E) (acc : AccountEntry)
  (header : LedgerHeader)

/-- The result `resetResults` starts from. -/
def resetResults (baseFee : Int64) (applying : Bool) : TransactionResult where
  feeCharged := tx.getFee header baseFee applying
  code := txSUCCESS

def isTooEarly (lowerBoundCloseTimeOffset : UInt64) : Bool :=
  match tx.timeBounds with
  | some tb => tb.minTime ≠ 0 ∧ tb.minTime > header.scpValue.closeTime + lowerBoundCloseTimeOffset
  | none => false

def isTooLate (upperBoundCloseTimeOffset : UInt64) : Bool :=
  match tx.timeBounds with
  | some tb => tb.maxTime ≠ 0 ∧ tb.maxTime < header.scpValue.closeTime + upperBoundCloseTimeOffset
  | none => false

/-- The checks that do not depend on the account: the code of the first one
that fails. -/
def commonValidPreSeqNum (chargeFee : Bool)
    (lowerBoundCloseTimeOffset upperBoundCloseTimeOffset : UInt64) :
    Option TransactionResultCode :=
  let ledgerVersion := ltx.header.ledgerVersion
  if (protocolVersionIsBefore ledgerVersion 13 && (tx.type = .tx || tx.hasMuxedAccount))
      || (protocolVersionStartsFrom ledgerVersion 13 && tx.type = .txV0) then
    some txNOT_SUPPORTED
  else if tx.getNumOperations = 0 then some txMISSING_OPERATION
  else if tx.isTooEarly ltx.header lowerBoundCloseTimeOffset then some txTOO_EARLY
  else if tx.isTooLate ltx.header upperBoundCloseTimeOffset then some txTOO_LATE
  else if chargeFee && tx.getFeeBid < tx.getMinFee ltx.header then some txINSUFFICIENT_FEE
  else if !chargeFee && tx.getFeeBid < 0 then some txINSUFFICIENT_FEE
  else if (ltx.accounts tx.sourceAccount).isNone then some txNO_ACCOUNT
  else none

def isBadSeq (seqNum : Int64) : Except String Bool := do
  if seqNum = INT64_MAX ∨ seqNum + 1 ≠ tx.seqNum then return true
  return tx.seqNum = (← getStartingSequenceNumber header.ledgerSeq)

/-- The sequence check of `commonValid`. Before protocol 10 it is not made when
applying: there the number was taken with the fee. -/
def hasBadSeq (current : SequenceNumber) (applying : Bool) : Except String Bool :=
  if protocolVersionStartsFrom ltx.header.ledgerVersion 10 || !applying then
    tx.isBadSeq ltx.header (if current = 0 then acc.seqNum else current)
  else return false

/-- What `commonValid` asks the account to have: the bid, cut to 32 bits, or
nothing when the fee has been taken. -/
def feeToPay (applying : Bool) : UInt32 :=
  if applying && protocolVersionStartsFrom header.ledgerVersion 9 then 0
  else tx.getFeeBid.toUInt64.toUInt32

/-- The balance check of `commonValid`. -/
def cannotPay (applying chargeFee : Bool) : Except String Bool := do
  if chargeFee then
    return (← getAvailableBalance ltx.header acc)
      < (tx.feeToPay ltx.header applying).toUInt64.toInt64
  else return false

variable [HashFunction] [PubKeyUtils]

/-- Common validation: how far it came, the code if it failed, and the
checker after it. -/
def commonValid (tx : TransactionFrame) (c : SignatureChecker) (ltx : LedgerTxn E)
    (current : SequenceNumber) (applying chargeFee : Bool)
    (lowerBoundCloseTimeOffset upperBoundCloseTimeOffset : UInt64) :
    Except String (ValidationType × Option TransactionResultCode × SignatureChecker) := do
  if applying && (lowerBoundCloseTimeOffset ≠ 0 || upperBoundCloseTimeOffset ≠ 0) then
    throw "Applying transaction with non-current closeTime"
  match tx.commonValidPreSeqNum ltx chargeFee lowerBoundCloseTimeOffset
      upperBoundCloseTimeOffset, ltx.accounts tx.sourceAccount with
  | some code, _ => return (kInvalid, some code, c)
  | none, none => return (kInvalid, some txNO_ACCOUNT, c)
  | none, some acc =>
    if ← tx.hasBadSeq ltx acc current applying then return (kInvalid, some txBAD_SEQ, c)
    let (signed, c) := checkSignature c tx.sourceAccount acc (getNeededThreshold acc .LOW)
    if ¬signed then return (kInvalidUpdateSeqNum, some txBAD_AUTH, c)
    if ← tx.cannotPay ltx acc applying chargeFee then
      return (kInvalidPostAuth, some txINSUFFICIENT_BALANCE, c)
    return (kMaybeValid, none, c)

variable [OperationFrame E]

/-- The loop over the operations: whether all of them are valid. -/
def operationsValid (tx : TransactionFrame) (ltx : LedgerTxn E) :
    List Operation → Nat → SignatureChecker → Except String (Bool × SignatureChecker)
  | [], _, c => return (true, c)
  | op :: ops, index, c => do
    let (valid, c) ← OperationFrame.checkValid tx index op c ltx false
    if valid then operationsValid tx ltx ops (index + 1) c else return (false, c)

def checkValid (tx : TransactionFrame) (ltx : LedgerTxn E) (current : SequenceNumber)
    (chargeFee : Bool) (lowerBoundCloseTimeOffset upperBoundCloseTimeOffset : UInt64) :
    Except String (Bool × TransactionResult) := do
  let minBaseFee := if chargeFee then ltx.header.baseFee.toUInt64.toInt64 else 0
  let result := tx.resetResults ltx.header minBaseFee false
  let c := SignatureChecker.make ltx.header.ledgerVersion tx.getContentsHash tx.signatures
  let (cv, code, c) ← tx.commonValid c ltx current false chargeFee lowerBoundCloseTimeOffset
    upperBoundCloseTimeOffset
  if cv ≠ kMaybeValid then return (false, { result with code := code.getD result.code })
  let (valid, c) ← tx.operationsValid ltx tx.operations 0 c
  if ¬valid then return (false, { result with code := txFAILED })
  if ¬c.checkAllSignaturesUsed then return (false, { result with code := txBAD_AUTH_EXTRA })
  return (true, result)

end TransactionFrame

/-! ## Fee bumps -/

namespace FeeBumpTransactionFrame

inductive ValidationType where
  | kInvalid
  | kInvalidPostAuth
  | kFullyValid
  deriving Repr, DecidableEq

variable {E : Type} (tx : FeeBumpTransactionFrame)

def resetResults (header : LedgerHeader) (baseFee : Int64)
    (applying : Bool) : TransactionResult where
  feeCharged := tx.getFee header baseFee applying
  code := txFEE_BUMP_INNER_SUCCESS

/-- The checks that do not depend on the account. A fee rate below that of
the wrapped transaction is refused with the fee that would have been
enough. -/
def commonValidPreSeqNum (ltx : LedgerTxn E)
    (result : TransactionResult) : Except String (Bool × TransactionResult) := do
  if protocolVersionIsBefore ltx.header.ledgerVersion 13 then
    return (false, { result with code := txNOT_SUPPORTED })
  if tx.getFeeBid < tx.getMinFee ltx.header then
    return (false, { result with code := txINSUFFICIENT_FEE })
  let v1 ← bigMultiply tx.getFeeBid (tx.innerTx.getMinFee ltx.header)
  let v2 ← bigMultiply tx.innerTx.getFeeBid (tx.getMinFee ltx.header)
  if v1 < v2 then
    let feeCharged ← bigDivide128 v2 (tx.innerTx.getMinFee ltx.header) .ROUND_UP
    return (false, { result with feeCharged := feeCharged.getD INT64_MAX,
                                 code := txINSUFFICIENT_FEE })
  if (ltx.accounts tx.feeSource).isNone then
    return (false, { result with code := txNO_ACCOUNT })
  return (true, result)

/-- What the fee source has to have: the bid, unless the fee has been taken. -/
def feeToPay (applying : Bool) : Int64 :=
  if applying then 0 else tx.getFeeBid

section

variable [HashFunction] [PubKeyUtils]

def getContentsHash (tx : FeeBumpTransactionFrame) : Hash := sha256 tx.payload

def commonValid (tx : FeeBumpTransactionFrame) (c : SignatureChecker) (ltx : LedgerTxn E)
    (applying : Bool) (result : TransactionResult) :
    Except String (ValidationType × TransactionResult × SignatureChecker) := do
  let (ok, result) ← tx.commonValidPreSeqNum ltx result
  match ok, ltx.accounts tx.feeSource with
  | false, _ => return (.kInvalid, result, c)
  | true, none => return (.kInvalid, { result with code := txNO_ACCOUNT }, c)
  | true, some feeSource =>
    let (signed, c) := TransactionFrame.checkSignature c tx.feeSource feeSource
      (getNeededThreshold feeSource .LOW)
    if ¬signed then return (.kInvalid, { result with code := txBAD_AUTH }, c)
    if (← getAvailableBalance ltx.header feeSource) < tx.feeToPay applying then
      return (.kInvalidPostAuth, { result with code := txINSUFFICIENT_BALANCE }, c)
    return (.kFullyValid, result, c)

variable [OperationFrame E]

/-- `updateResult`: report the wrapped transaction's result. -/
def updateResult (result inner : TransactionResult) : TransactionResult :=
  { result with
    code := if inner.code = txSUCCESS then txFEE_BUMP_INNER_SUCCESS else txFEE_BUMP_INNER_FAILED
    innerResult := some ⟨inner.feeCharged, inner.code⟩ }

def checkValid (tx : FeeBumpTransactionFrame) (ltx : LedgerTxn E) (current : SequenceNumber)
    (lowerBoundCloseTimeOffset upperBoundCloseTimeOffset : UInt64) :
    Except String (Bool × TransactionResult) := do
  let minBaseFee := ltx.header.baseFee.toUInt64.toInt64
  let result := tx.resetResults ltx.header minBaseFee false
  let c := SignatureChecker.make ltx.header.ledgerVersion tx.getContentsHash tx.signatures
  let (cv, result, c) ← tx.commonValid c ltx false result
  if cv ≠ .kFullyValid then return (false, result)
  if ¬c.checkAllSignaturesUsed then return (false, { result with code := txBAD_AUTH_EXTRA })
  let (res, inner) ← tx.innerTx.checkValid ltx current false lowerBoundCloseTimeOffset
    upperBoundCloseTimeOffset
  return (res, updateResult result inner)

end

end FeeBumpTransactionFrame

/-! ## Taking the fee -/

/-- Debit an account by a fee: what is charged is what the account has, at
most. A fee of zero or less is left as it is. -/
def takeFee (header : LedgerHeader) (acc : AccountEntry) (fee : Int64) :
    Except String (Int64 × AccountEntry × LedgerHeader) := do
  if fee > 0 then
    let fee := min acc.balance fee
    -- the result of `addBalance` is not looked at: a refused debit changes nothing
    let balance := (← addBalanceTo acc.balance (-fee) INT64_MAX).getD acc.balance
    return (fee, { acc with balance }, { header with feePool := header.feePool + fee })
  else return (fee, acc, header)

/-- The fee step of a plain transaction: the result with the fee charged, and
the ledger after it. Before protocol 10 it also takes the sequence number. -/
def TransactionFrame.processFeeSeqNum {E : Type} (tx : TransactionFrame) (ltx : LedgerTxn E)
    (baseFee : Int64) : Except String (TransactionResult × LedgerTxn E) := do
  let result := tx.resetResults ltx.header baseFee true
  match ltx.accounts tx.sourceAccount with
  | none => throw "Unexpected database state"
  | some acc =>
    let (fee, acc, header) ← takeFee ltx.header acc result.feeCharged
    let acc ←
      if protocolVersionIsBefore header.ledgerVersion 10 then
        if acc.seqNum + 1 ≠ tx.seqNum then throw "Unexpected account state"
        else pure { acc with seqNum := tx.seqNum }
      else pure acc
    return ({ result with feeCharged := fee }, { ltx with header }.putAccount tx.sourceAccount acc)

def FeeBumpTransactionFrame.processFeeSeqNum {E : Type} (tx : FeeBumpTransactionFrame)
    (ltx : LedgerTxn E) (baseFee : Int64) : Except String (TransactionResult × LedgerTxn E) := do
  let result := tx.resetResults ltx.header baseFee true
  match ltx.accounts tx.feeSource with
  | none => throw "Unexpected database state"
  | some acc =>
    let (fee, acc, header) ← takeFee ltx.header acc result.feeCharged
    return ({ result with feeCharged := fee }, { ltx with header }.putAccount tx.feeSource acc)

namespace Tx

variable {E : Type}

def checkValid [HashFunction] [PubKeyUtils] [OperationFrame E] (tx : Tx) (ltx : LedgerTxn E)
    (current : SequenceNumber) (lowerBoundCloseTimeOffset upperBoundCloseTimeOffset : UInt64) :
    Except String (Bool × TransactionResult) :=
  match tx with
  | .plain tx => tx.checkValid ltx current true lowerBoundCloseTimeOffset upperBoundCloseTimeOffset
  | .feeBump tx => tx.checkValid ltx current lowerBoundCloseTimeOffset upperBoundCloseTimeOffset

def processFeeSeqNum (tx : Tx) (ltx : LedgerTxn E) (baseFee : Int64) :
    Except String (TransactionResult × LedgerTxn E) :=
  match tx with
  | .plain tx => tx.processFeeSeqNum ltx baseFee
  | .feeBump tx => tx.processFeeSeqNum ltx baseFee

end Tx

/-! ## What validity says -/

section

variable {E : Type} {ltx : LedgerTxn E} {r : TransactionResult} {current : SequenceNumber}
  {tx : TransactionFrame} {lo hi : UInt64} {chargeFee : Bool}

theorem TransactionFrame.bid_of_preSeqNum (h : tx.commonValidPreSeqNum ltx chargeFee lo hi = none) :
    tx.getNumOperations ≠ 0
      ∧ (chargeFee = true → ¬tx.getFeeBid < tx.getMinFee ltx.header) := by
  unfold commonValidPreSeqNum at h
  grind

theorem TransactionFrame.isBadSeq_eq_false {header : LedgerHeader} {seqNum : Int64}
    (h : tx.isBadSeq header seqNum = .ok false) :
    seqNum ≠ INT64_MAX ∧ seqNum + 1 = tx.seqNum
      ∧ ∃ start, getStartingSequenceNumber header.ledgerSeq = .ok start ∧ tx.seqNum ≠ start := by
  unfold isBadSeq at h
  split at h
  · simp at h
  · rename_i hseq
    simp only [bind_eq_ok, pure_eq_ok, decide_eq_false_iff_not] at h
    obtain ⟨start, hstart, hne⟩ := h
    exact ⟨fun hmax => hseq (.inl hmax), not_not.mp fun hsucc => hseq (.inr hsucc), start, hstart,
      hne⟩

variable {r' : TransactionResult} {c c' : SignatureChecker}

theorem FeeBumpTransactionFrame.preSeqNum_eq_true {tx : FeeBumpTransactionFrame}
    (h : tx.commonValidPreSeqNum ltx r = .ok (true, r')) :
    protocolVersionIsBefore ltx.header.ledgerVersion 13 = false
      ∧ ¬tx.getFeeBid < tx.getMinFee ltx.header := by
  unfold commonValidPreSeqNum at h
  split at h
  · simp at h
  split at h
  · simp at h
  · rename_i hv hfee
    exact ⟨by simpa using hv, hfee⟩

variable [HashFunction] [PubKeyUtils]

/-- What full validity says about the account. -/
theorem TransactionFrame.commonValid_kMaybeValid {applying : Bool}
    {code : Option TransactionResultCode}
    (h : tx.commonValid c ltx current applying chargeFee lo hi = .ok (kMaybeValid, code, c')) :
    tx.commonValidPreSeqNum ltx chargeFee lo hi = none
      ∧ ∃ acc, ltx.accounts tx.sourceAccount = some acc
        ∧ tx.hasBadSeq ltx acc current applying = .ok false
        ∧ tx.cannotPay ltx acc applying chargeFee = .ok false := by
  unfold commonValid at h
  simp only [] at h
  split at h
  · simp at h
  split at h
  · simp at h
  · simp at h
  · rename_i acc hpre hacc
    simp only [bind_eq_ok] at h
    obtain ⟨bad, hbad, h⟩ := h
    split at h
    · simp at h
    split at h
    · simp at h
    obtain ⟨poor, hpoor, h⟩ := bind_eq_ok.mp h
    split at h
    · simp at h
    refine ⟨hpre, acc, hacc, ?_, ?_⟩
    · simp_all
    · simp_all

theorem FeeBumpTransactionFrame.commonValid_kFullyValid {tx : FeeBumpTransactionFrame}
    (h : tx.commonValid c ltx false r = .ok (.kFullyValid, r', c')) :
    protocolVersionIsBefore ltx.header.ledgerVersion 13 = false
      ∧ ¬tx.getFeeBid < tx.getMinFee ltx.header
      ∧ ∃ acc avail, ltx.accounts tx.feeSource = some acc
        ∧ getAvailableBalance ltx.header acc = .ok avail ∧ ¬avail < tx.getFeeBid := by
  obtain ⟨⟨ok, r''⟩, hpre, h⟩ := bind_eq_ok.mp h
  simp only [] at h
  split at h
  · simp at h
  · simp at h
  · rename_i acc hacc
    obtain ⟨hv, hfee⟩ := preSeqNum_eq_true hpre
    refine ⟨hv, hfee, acc, ?_⟩
    split at h
    · simp at h
    obtain ⟨avail, havail, h⟩ := bind_eq_ok.mp h
    split at h
    · simp at h
    · rename_i hpays
      exact ⟨avail, hacc, havail, hpays⟩

variable [OperationFrame E]

section

variable (h : tx.checkValid ltx current chargeFee lo hi = .ok (true, r))
include h

theorem TransactionFrame.commonValid_of_checkValid :
    ∃ c c' code, tx.commonValid c ltx current false chargeFee lo hi
      = .ok (kMaybeValid, code, c') := by
  obtain ⟨⟨cv, code, c'⟩, hcv, h⟩ := bind_eq_ok.mp h
  by_cases hmaybe : cv = kMaybeValid
  · subst hmaybe
    exact ⟨_, _, _, hcv⟩
  · simp [hmaybe] at h

omit h in
theorem FeeBumpTransactionFrame.commonValid_of_checkValid {tx : FeeBumpTransactionFrame}
    (h : tx.checkValid ltx current lo hi = .ok (true, r)) :
    (∃ c c' r' r'', tx.commonValid c ltx false r' = .ok (.kFullyValid, r'', c'))
      ∧ ∃ r', tx.innerTx.checkValid ltx current false lo hi = .ok (true, r') := by
  obtain ⟨⟨cv, r', c'⟩, hcv, h⟩ := bind_eq_ok.mp h
  by_cases hfully : cv = .kFullyValid
  · subst hfully
    refine ⟨⟨_, _, _, _, hcv⟩, ?_⟩
    simp only [ne_eq, not_true_eq_false, if_false] at h
    split at h
    · simp at h
    obtain ⟨⟨res, inner⟩, hinner, h⟩ := bind_eq_ok.mp h
    cases h
    exact ⟨inner, hinner⟩
  · simp [hfully] at h

/-- What a valid transaction is known to satisfy: a fee bump is not before its
time, the minimum fee is bid, there are operations, the fee source can be
read, and the sequence number follows the given one, or that of the source
account. -/
structure Tx.Admitted (tx : Tx) (ltx : LedgerTxn E) (current : SequenceNumber) : Prop where
  version : ∀ fb, tx = .feeBump fb → protocolVersionIsBefore ltx.header.ledgerVersion 13 = false
  bid_ge : ¬getFeeBid tx < getMinFee tx ltx.header
  operations_ne : getNumOperations tx ≠ 0
  feeSource : ∃ acc avail, ltx.accounts (getFeeSourceID tx) = some acc
    ∧ getAvailableBalance ltx.header acc = .ok avail
  seq : ∃ acc, ltx.accounts (getSourceID tx) = some acc
    ∧ (if current = 0 then acc.seqNum else current) ≠ INT64_MAX
    ∧ (if current = 0 then acc.seqNum else current) + 1 = getSeqNum tx

theorem TransactionFrame.seq_of_checkValid : ∃ acc, ltx.accounts tx.sourceAccount = some acc
      ∧ (if current = 0 then acc.seqNum else current) ≠ INT64_MAX
      ∧ (if current = 0 then acc.seqNum else current) + 1 = tx.seqNum := by
  obtain ⟨c, c', code, hcv⟩ := commonValid_of_checkValid h
  obtain ⟨-, acc, hacc, hseq, -⟩ := commonValid_kMaybeValid hcv
  have hbad : tx.isBadSeq ltx.header (if current = 0 then acc.seqNum else current) = .ok false := by
    simpa [hasBadSeq] using hseq
  obtain ⟨hmax, hsucc, -⟩ := isBadSeq_eq_false hbad
  exact ⟨acc, hacc, hmax, hsucc⟩

end

omit [HashFunction] [PubKeyUtils] in
theorem toInt_feeToPay (tx : TransactionFrame) (header : LedgerHeader) :
    (tx.feeToPay header false).toUInt64.toInt64.toInt = tx.fee.toNat % 2 ^ 32 := by
  rw [MachineInt.toInt_ofUInt32]
  show ((tx.fee.toInt64.toUInt64.toUInt32.toNat : Nat) : Int) = _
  rfl

/-- A valid transaction has the low 32 bits of its bid covered. -/
theorem TransactionFrame.available_of_checkValid
    (h : tx.checkValid ltx current true lo hi = .ok (true, r)) :
    ∃ acc avail, ltx.accounts tx.sourceAccount = some acc
      ∧ getAvailableBalance ltx.header acc = .ok avail
      ∧ (tx.fee.toNat % 2 ^ 32 : Int) ≤ avail.toInt := by
  obtain ⟨c, c', code, hcv⟩ := commonValid_of_checkValid h
  obtain ⟨-, acc, hacc, -, hpay⟩ := commonValid_kMaybeValid hcv
  obtain ⟨avail, havail, hpays⟩ := bind_eq_ok.mp hpay
  have hle := of_decide_eq_false (pure_eq_ok.mp hpays)
  rw [Int64.lt_iff_toInt_lt, toInt_feeToPay, not_lt] at hle
  exact ⟨acc, avail, hacc, havail, hle⟩

theorem Tx.admitted_of_checkValid {tx : Tx} (h : tx.checkValid ltx current lo hi = .ok (true, r)) :
    tx.Admitted ltx current := by
  cases tx with
  | plain tx =>
    obtain ⟨c, c', code, hcv⟩ := commonValid_of_checkValid h
    obtain ⟨hpre, -⟩ := commonValid_kMaybeValid hcv
    obtain ⟨hops, hbid⟩ := bid_of_preSeqNum hpre
    obtain ⟨acc, avail, hacc, havail, -⟩ := available_of_checkValid h
    exact ⟨nofun, hbid rfl, hops, ⟨acc, avail, hacc, havail⟩, seq_of_checkValid h⟩
  | feeBump tx =>
    obtain ⟨⟨c, c', r', r'', hcv⟩, rinner, hinner⟩ :=
      commonValid_of_checkValid h
    obtain ⟨hv, hbid, acc, avail, hacc, havail, -⟩ :=
      commonValid_kFullyValid hcv
    refine ⟨fun _ _ => hv, hbid, ?_, ⟨acc, avail, hacc, havail⟩,
      seq_of_checkValid hinner⟩
    -- the wrapped transaction has at most a hundred operations, so one more does not wrap
    have hle := tx.innerTx.operations_le
    intro hzero
    have hnat : (UInt32.ofNat tx.innerTx.operations.length + 1).toNat = (0 : UInt32).toNat :=
      congrArg UInt32.toNat hzero
    rw [UInt32.toNat_add, UInt32.toNat_ofNat', UInt32.toNat_one, UInt32.toNat_zero] at hnat
    simp only [MAX_OPS_PER_TX] at hle
    omega

end

end KinesisCore

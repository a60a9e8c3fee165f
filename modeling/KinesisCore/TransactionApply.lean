import KinesisCore.SponsorshipUtils
import KinesisCore.TransactionValid

/-!
# Applying a transaction (`TransactionFrame.cpp`, `FeeBumpTransactionFrame.cpp`)

`apply` works in nested ledgers. The first one takes the sequence number and the
one-time signers, and is always committed. The operations run in a second one,
each in a ledger of its own, and that one is committed only if all of them
succeed. A nested ledger is a copy; committing it is going on with the copy,
rolling it back is going on with the original.

Errors come in two kinds. An exception inside an operation is caught and fails
the transaction. Any other one stops the process: that is `Except String` here,
with the text that is printed, so `apply` returns exactly if it has a result.

The cache of the source account before protocol 8 is left out.
-/

namespace KinesisCore

open Xdr HashFunction TransactionFrameBase TransactionResultCode ValidationType

/-- What `apply` uses of the application: a setting, the invariants that are
checked after each operation, and the record of the changes between two
ledgers. -/
structure ApplyContext (E C : Type) where
  HALT_ON_INTERNAL_TRANSACTION_ERROR : Bool
  checkOnOperationApply : Operation → LedgerTxn E → LedgerTxn E → Bool
  getChanges : LedgerTxn E → LedgerTxn E → List C

structure TransactionMeta (C : Type) where
  txChangesBefore : List C := []
  operations : List (List C) := []
  txChangesAfter : List C := []
  deriving Repr, DecidableEq

/-- Run a block whose exceptions stop the process with a message. -/
def orAbort {α : Type} (message : String) (x : Except String α) : Except String α :=
  x.mapError (message ++ ·)

/-! ## One-time signers -/

variable {E C : Type}

/-- Remove a signer from an account that has it. -/
def removeAccountSigner (ltx : LedgerTxn E) (accountID : AccountID) (signerKey : SignerKey) :
    Except String (LedgerTxn E) :=
  match ltx.accounts accountID with
  | none => return ltx
  | some acc =>
    let (n, found) := findSignerByKey acc.signers signerKey
    if found then removeSignerWithPossibleSponsorship ltx [accountID] accountID acc n
    else return ltx

namespace TransactionFrame

/-- The accounts the transaction acts for, each once. -/
def sourceAccounts (tx : TransactionFrame) : List AccountID :=
  (tx.sourceAccount :: tx.operations.map (OperationFrame.getSourceID tx)).dedup

variable [HashFunction] (tx : TransactionFrame)

/-- The key of a signer that stands for this transaction. -/
def preAuthTxKey : SignerKey := .preAuthTx tx.getContentsHash

def removeOneTimeSignerFromAllSourceAccounts (I : Stl.Impl) (tx : TransactionFrame)
    (ltx : LedgerTxn E) : Except String (LedgerTxn E) :=
  if ltx.header.ledgerVersion = 7 then return ltx
  else (I.arrange tx.sourceAccounts).foldlM
    (fun ltx accountID => removeAccountSigner ltx accountID tx.preAuthTxKey) ltx

/-! ## Sequence number and signatures -/

def processSeqNum (ltx : LedgerTxn E) : Except String (LedgerTxn E) :=
  if protocolVersionStartsFrom ltx.header.ledgerVersion 10 then
    match ltx.accounts tx.sourceAccount with
    | none => throw "LedgerTxnEntry not active"
    | some acc =>
      if acc.seqNum > tx.seqNum then throw "unexpected sequence number"
      else return ltx.putAccount tx.sourceAccount { acc with seqNum := tx.seqNum }
  else return ltx

/-- A transaction takes its sequence number once the number was found right. -/
def maybeProcessSeqNum (cv : ValidationType) (ltx : LedgerTxn E) : Except String (LedgerTxn E) :=
  if cv = kInvalid then return ltx else tx.processSeqNum ltx

variable [PubKeyUtils] [OperationFrame E]

/-- The loop over the operations' signatures: all are checked, whatever the
outcome of one. -/
def allOpsSigned (tx : TransactionFrame) (ltx : LedgerTxn E) :
    List Operation → SignatureChecker → Bool × SignatureChecker
  | [], c => (true, c)
  | op :: ops, c =>
    let (signed, c) := OperationFrame.checkSignature tx op c ltx false
    let (rest, c) := allOpsSigned tx ltx ops c
    (signed && rest, c)

/-- Whether the signatures are fine, the code if they are not, and the ledger
and the checker after it. -/
def processSignatures (I : Stl.Impl) (tx : TransactionFrame) (cv : ValidationType)
    (c : SignatureChecker) (ltx : LedgerTxn E) :
    Except String (Bool × Option TransactionResultCode × LedgerTxn E × SignatureChecker) := do
  let maybeValid := cv = kMaybeValid
  let ledgerVersion := ltx.header.ledgerVersion
  if protocolVersionIsBefore ledgerVersion 10 then return (maybeValid, none, ltx, c)
  else if protocolVersionStartsFrom ledgerVersion 13 ∧ ¬maybeValid then
    return (false, none, ← tx.removeOneTimeSignerFromAllSourceAccounts I ltx, c)
  else if protocolVersionIsBefore ledgerVersion 13
    ∧ (cv = kInvalid ∨ cv = kInvalidUpdateSeqNum) then
    return (false, none, ltx, c)
  else
    let (allOpsValid, c) := tx.allOpsSigned ltx tx.operations c
    let ltx ← tx.removeOneTimeSignerFromAllSourceAccounts I ltx
    if ¬allOpsValid then return (false, some txFAILED, ltx, c)
    else if ¬c.checkAllSignaturesUsed then return (false, some txBAD_AUTH_EXTRA, ltx, c)
    else return (maybeValid, none, ltx, c)

end TransactionFrame

/-! ## Operations -/

/-- What can be thrown while operations are applied. -/
inductive OperationException where
  | exception (what : String)
  | invariantDoesNotHold

/-- The loop variables of `applyOperations`. -/
structure ApplyState (E C : Type) where
  success : Bool
  ltxTx : LedgerTxn E
  operations : List (List C)
  signatureChecker : SignatureChecker

variable [HashFunction] [PubKeyUtils] [OperationFrame E]

def OperationFrame.apply (tx : TransactionFrame) (index : Nat) (op : Operation)
    (c : SignatureChecker) (ltx : LedgerTxn E) :
    Except String (Bool × LedgerTxn E × SignatureChecker) := do
  let (res, c) ← OperationFrame.checkValid tx index op c ltx true
  if res then
    let (res, ltx) ← OperationFrame.doApply tx index op ltx
    return (res, ltx, c)
  else return (false, ltx, c)

namespace TransactionFrame

/-- The loop body: the operation works on a copy, which is kept if it
succeeds. Before protocol 14 it is kept in any case. -/
def applyOperation (app : ApplyContext E C) (tx : TransactionFrame) (ledgerVersion : UInt32)
    (index : Nat) (op : Operation) (st : ApplyState E C) :
    Except OperationException (ApplyState E C) := do
  let (txRes, ltxOp, c) ←
    (OperationFrame.apply tx index op st.signatureChecker st.ltxTx).mapError .exception
  let success := st.success && txRes
  if success && !app.checkOnOperationApply op st.ltxTx ltxOp then throw .invariantDoesNotHold
  else
    return {
      success
      ltxTx := if txRes || protocolVersionIsBefore ledgerVersion 14 then ltxOp else st.ltxTx
      operations :=
        if success then st.operations ++ [app.getChanges st.ltxTx ltxOp] else st.operations
      signatureChecker := c }

def applyLoop (app : ApplyContext E C) (tx : TransactionFrame) (ledgerVersion : UInt32) :
    List Operation → Nat → ApplyState E C → Except OperationException (ApplyState E C)
  | [], _, st => return st
  | op :: ops, index, st => do
    applyLoop app tx ledgerVersion ops (index + 1)
      (← tx.applyOperation app ledgerVersion index op st)

variable [SponsorshipEntries E] (I : Stl.Impl) (app : ApplyContext E C) (tx : TransactionFrame)
  (ltx : LedgerTxn E)

/-- The end of `applyOperations`, when every operation succeeded: the ledger to
go on with, the changes after the operations, or the code of the failure. -/
def finishOperations (ledgerVersion : UInt32) (st : ApplyState E C) :
    Except String (Except TransactionResultCode (LedgerTxn E × List C)) :=
  if protocolVersionIsBefore ledgerVersion 10 then
    if ¬st.signatureChecker.checkAllSignaturesUsed then return .error txBAD_AUTH_EXTRA
    else do
      let ltxAfter ← tx.removeOneTimeSignerFromAllSourceAccounts I st.ltxTx
      return .ok (ltxAfter, app.getChanges st.ltxTx ltxAfter)
  else if protocolVersionStartsFrom ledgerVersion 14
      ∧ SponsorshipEntries.hasSponsorshipEntry st.ltxTx.others then
    return .error txBAD_SPONSORSHIP
  else return .ok (st.ltxTx, [])

/-- What is left after an exception: nothing is committed. -/
def afterException (app : ApplyContext E C) (ltx : LedgerTxn E) (outerMeta : TransactionMeta C) :
    Except String (Bool × Option TransactionResultCode × LedgerTxn E × TransactionMeta C) :=
  if app.HALT_ON_INTERNAL_TRANSACTION_ERROR then
    throw "Encountered an exception while applying operations, see logs for details."
  else
    return (false, some txINTERNAL_ERROR, ltx,
      { outerMeta with operations := [], txChangesAfter := [] })

/-- Whether all operations succeeded, the code if they did not, and the ledger
and the meta after it. -/
def applyOperations (c : SignatureChecker) (ltx : LedgerTxn E) (outerMeta : TransactionMeta C) :
    Except String (Bool × Option TransactionResultCode × LedgerTxn E × TransactionMeta C) :=
  match tx.applyLoop app ltx.header.ledgerVersion tx.operations 0 ⟨true, ltx, [], c⟩ with
  | .error .invariantDoesNotHold => throw "Invariant failure while applying operations"
  | .error (.exception _) => afterException app ltx outerMeta
  | .ok st =>
    if st.success then
      match tx.finishOperations I app ltx.header.ledgerVersion st with
      | .error _ => afterException app ltx outerMeta
      | .ok (.error code) => return (false, some code, ltx, outerMeta)
      | .ok (.ok (ltxTx, txChangesAfter)) =>
        return (true, none, ltxTx, { outerMeta with operations := st.operations, txChangesAfter })
    else return (false, some txFAILED, ltx, outerMeta)

/-! ## The transaction -/

/-- The part of `apply` before the operations: how far validation came, whether
the signatures are fine, the code so far, and the ledger and the checker after
it. -/
def applyBefore (chargeFee : Bool) :
    Except String (ValidationType × Bool × Option TransactionResultCode × LedgerTxn E
      × SignatureChecker) := do
  let c := SignatureChecker.make ltx.header.ledgerVersion tx.getContentsHash tx.signatures
  let (cv, code, c) ← tx.commonValid c ltx 0 true chargeFee 0 0
  let ltxTx ← tx.maybeProcessSeqNum cv ltx
  let (signaturesValid, code', ltxTx, c) ← tx.processSignatures I cv c ltxTx
  return (cv, signaturesValid, code'.or code, ltxTx, c)

def apply (result : TransactionResult) (outerMeta : TransactionMeta C) (chargeFee : Bool) :
    Except String (Bool × TransactionResult × LedgerTxn E × TransactionMeta C) := do
  let (cv, signaturesValid, code, ltxTx, c) ← orAbort
    "Exception after processing fees but before processing sequence number: "
    (tx.applyBefore I ltx chargeFee)
  let outerMeta := { outerMeta with
    txChangesBefore := outerMeta.txChangesBefore ++ app.getChanges ltx ltxTx }
  if signaturesValid && cv = kMaybeValid then
    let (success, code, ltx, outerMeta) ← tx.applyOperations I app c ltxTx outerMeta
    return (success, { result with code := code.getD result.code }, ltx, outerMeta)
  else return (false, { result with code := code.getD result.code }, ltxTx, outerMeta)

end TransactionFrame

/-! ## Fee bumps -/

namespace FeeBumpTransactionFrame

variable [SponsorshipEntries E]

def preAuthTxKey (tx : FeeBumpTransactionFrame) : SignerKey := .preAuthTx tx.getContentsHash

def removeOneTimeSignerKeyFromFeeSource (tx : FeeBumpTransactionFrame) (ltx : LedgerTxn E) :
    Except String (LedgerTxn E) :=
  removeAccountSigner ltx tx.feeSource tx.preAuthTxKey

/-- `inner` is the result of the wrapped transaction, as the fee step left
it. -/
def apply (I : Stl.Impl) (app : ApplyContext E C) (tx : FeeBumpTransactionFrame)
    (ltx : LedgerTxn E) (result inner : TransactionResult) (outerMeta : TransactionMeta C) :
    Except String (Bool × TransactionResult × LedgerTxn E × TransactionMeta C) := do
  let ltxTx ← orAbort "Exception after processing fees but before processing sequence number: "
    (tx.removeOneTimeSignerKeyFromFeeSource ltx)
  let outerMeta := { outerMeta with txChangesBefore := app.getChanges ltx ltxTx }
  let (res, inner, ltx, outerMeta) ← tx.innerTx.apply I app ltxTx inner outerMeta false
  return (res, updateResult result inner, ltx, outerMeta)

end FeeBumpTransactionFrame

end KinesisCore

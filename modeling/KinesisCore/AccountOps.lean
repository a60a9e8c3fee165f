import KinesisCore.TransactionApply

/-!
# Operations on whole accounts

Three operations decide which accounts exist and what their sequence numbers
are: `CreateAccountOpFrame`, `MergeOpFrame` and `BumpSequenceOpFrame`. Every
other one works on accounts that are there and leaves their sequence numbers
alone; those are the class `OtherOperations`, together with what upgrades do
to the entries.
-/

namespace KinesisCore

variable {E : Type}

/-! ## Ledgers with the same sequence numbers -/

/-- The accounts that exist, and their sequence numbers. -/
def LedgerTxn.seqNums (ltx : LedgerTxn E) (id : AccountID) : Option SequenceNumber :=
  (ltx.accounts id).map (·.seqNum)

structure SameSeqNums (ltx ltx' : LedgerTxn E) : Prop where
  seqNums : ltx'.seqNums = ltx.seqNums
  ledgerSeq : ltx'.header.ledgerSeq = ltx.header.ledgerSeq
  ledgerVersion : ltx'.header.ledgerVersion = ltx.header.ledgerVersion

/-- All that is not modelled further, and its one property: it writes no
sequence number and creates and erases no account. -/
class OtherOperations (E : Type) where
  isOpSupported : Operation → LedgerHeader → Bool
  getThresholdLevel : Operation → ThresholdLevel
  doCheckValid : TransactionFrame → Nat → Operation → UInt32 → Except String Bool
  doApply : TransactionFrame → Nat → Operation → LedgerTxn E → Except String (Bool × LedgerTxn E)
  sameSeqNums_of_doApply : ∀ {tx index op ltx ok ltx'},
    doApply tx index op ltx = .ok (ok, ltx') → SameSeqNums ltx ltx'
  prepareLiabilities : LedgerTxn E → Except String (LedgerTxn E)
  sameSeqNums_of_prepareLiabilities : ∀ {ltx ltx'},
    prepareLiabilities ltx = .ok ltx' → SameSeqNums ltx ltx'
  upgradeFromProtocol15To16 : LedgerTxn E → Except String (LedgerTxn E)
  sameSeqNums_of_upgradeFromProtocol15To16 : ∀ {ltx ltx'},
    upgradeFromProtocol15To16 ltx = .ok ltx' → SameSeqNums ltx ltx'

/-! ## BumpSequence -/

namespace BumpSequenceOpFrame

def isOpSupported (header : LedgerHeader) : Bool :=
  protocolVersionStartsFrom header.ledgerVersion 10

def doCheckValid (bumpTo : SequenceNumber) : Bool := !(bumpTo < 0)

def doApply (ltx : LedgerTxn E) (source : AccountID) (bumpTo : SequenceNumber) :
    Except String (Bool × LedgerTxn E) := do
  let sourceAccount ← ltx.currentAccount [] source
  -- a bump to a smaller number succeeds silently
  if bumpTo > sourceAccount.seqNum then
    return (true, ltx.putAccount source { sourceAccount with seqNum := bumpTo })
  else return (true, ltx)

end BumpSequenceOpFrame

/-! ## CreateAccount -/

namespace CreateAccountOpFrame

variable (ltx : LedgerTxn E) (source destination : AccountID) (startingBalance : Int64)

def doCheckValid (ledgerVersion : UInt32) : Bool :=
  let minStartingBalance := if protocolVersionStartsFrom ledgerVersion 14 then 0 else 1
  !(startingBalance < minStartingBalance) && destination ≠ source

/-- The debit of the source account: `none` if it is underfunded. -/
def debitSource (source : AccountID) (startingBalance : Int64) :
    Except String (Option (LedgerTxn E)) := do
  let sourceAccount ← ltx.currentAccount [] source
  if (← getAvailableBalance ltx.header sourceAccount) < startingBalance then return none
  else
    match ← addBalance ltx.header sourceAccount (-startingBalance) with
    | none => throw "releaseAssertOrThrow"
    | some sourceAccount => return some (ltx.putAccount source sourceAccount)

def doApplyBeforeV14 : Except String (Bool × LedgerTxn E) := do
  if startingBalance < (← getMinBalanceOf ltx.header 0 0 0) then return (false, ltx)
  else
    match ← debitSource ltx source startingBalance with
    | none => return (false, ltx)
    | some ltx =>
      let seqNum ← getStartingSequenceNumber ltx.header.ledgerSeq
      return (true, ltx.putAccount destination { balance := startingBalance, seqNum })

def doApplyFromV14 [SponsorshipEntries E] (ltxOuter : LedgerTxn E)
    (source destination : AccountID) (startingBalance : Int64) :
    Except String (Bool × LedgerTxn E) := do
  let seqNum ← getStartingSequenceNumber ltxOuter.header.ledgerSeq
  let (res, ltx, newAccount) ← createAccountWithPossibleSponsorship ltxOuter destination
    { balance := startingBalance, seqNum }
  match res with
  | .TOO_MANY_SPONSORED => throw "Unexpected result from createEntryWithPossibleSponsorship"
  | .SUCCESS =>
    match ← debitSource ltx source startingBalance with
    | none => return (false, ltxOuter)
    | some ltx => return (true, ltx.putAccount destination newAccount)
  | _ => return (false, ltxOuter)

def doApply [SponsorshipEntries E] (ltx : LedgerTxn E) (source destination : AccountID)
    (startingBalance : Int64) : Except String (Bool × LedgerTxn E) :=
  if (ltx.accounts destination).isSome then return (false, ltx)
  else if protocolVersionIsBefore ltx.header.ledgerVersion 14 then
    doApplyBeforeV14 ltx source destination startingBalance
  else doApplyFromV14 ltx source destination startingBalance

end CreateAccountOpFrame

/-! ## AccountMerge -/

/-- `AUTH_IMMUTABLE_FLAG` of the wire format. -/
def isImmutableAuth (acc : AccountEntry) : Bool := acc.flags &&& 4 ≠ 0

namespace MergeOpFrame

def doCheckValid (source destination : AccountID) : Bool := source ≠ destination

def isSeqnumTooFar (header : LedgerHeader) (sourceAccount : AccountEntry) : Except String Bool := do
  return sourceAccount.seqNum ≥ (← getStartingSequenceNumber header.ledgerSeq)

/-- The check is there from protocol 10 on. -/
def isSeqnumTooFarFromV10 (header : LedgerHeader) (sourceAccount : AccountEntry) :
    Except String Bool :=
  if protocolVersionStartsFrom header.ledgerVersion 10 then isSeqnumTooFar header sourceAccount
  else return false

/-- The loop that removes the last signer until there is none. -/
def removeSigners (active : List AccountID) (source : AccountID) :
    Nat → LedgerTxn E → Except String (LedgerTxn E)
  | 0, ltx => return ltx
  | n + 1, ltx => do
    let sourceAccount ← ltx.currentAccount [] source
    removeSigners active source n
      (← removeSignerWithPossibleSponsorship ltx active source sourceAccount n)

/-- The success path: the balance moves and the account goes. `active` are the
accounts in use while the sponsor of the account is loaded. -/
def mergeInto (ltx : LedgerTxn E) (active : List AccountID) (source destination : AccountID) :
    Except String (Bool × LedgerTxn E) := do
  let sourceAccount ← ltx.currentAccount [] source
  let otherAccount ← ltx.currentAccount [source] destination
  match ← addBalance ltx.header otherAccount sourceAccount.balance with
  | none => return (false, ltx)
  | some otherAccount =>
    let ltx := ltx.putAccount destination otherAccount
    let ltx ← removeAccountWithPossibleSponsorship ltx active source sourceAccount
    return (true, ltx.eraseAccount source)

variable [SponsorshipEntries E]

/-- Whether the account sponsors anything, or is about to. -/
def isSponsor (ltx : LedgerTxn E) (source : AccountID) (sourceAccount : AccountEntry) : Bool :=
  (SponsorshipEntries.loadSponsorshipCounter ltx.others source).isSome
    || sourceAccount.getNumSponsoring > 0

variable (ltx : LedgerTxn E) (source destination : AccountID)

/-- The destination is in use all along, so a sponsor must be a third account. -/
def doApplyBeforeV16 : Except String (Bool × LedgerTxn E) := do
  match ltx.accounts destination with
  | none => return (false, ltx)
  | some _ =>
    let sourceAccount ← ltx.currentAccount [destination] source
    if isImmutableAuth sourceAccount then return (false, ltx)
    else if sourceAccount.numSubEntries.toNat ≠ sourceAccount.signers.length then
      return (false, ltx)
    else
      if ← isSeqnumTooFarFromV10 ltx.header sourceAccount then return (false, ltx)
      else if protocolVersionStartsFrom ltx.header.ledgerVersion 14 then
        if isSponsor ltx source sourceAccount then return (false, ltx)
        else
          let ltx ← removeSigners [source, destination] source sourceAccount.signers.length ltx
          mergeInto ltx [source, destination] source destination
      else mergeInto ltx [source, destination] source destination

def doApplyFromV16 : Except String (Bool × LedgerTxn E) := do
  match ltx.accounts destination with
  | none => return (false, ltx)
  | some _ =>
    let sourceAccount ← ltx.currentAccount [] source
    if isImmutableAuth sourceAccount then return (false, ltx)
    else if sourceAccount.numSubEntries.toNat ≠ sourceAccount.signers.length then
      return (false, ltx)
    else
      if ← isSeqnumTooFar ltx.header sourceAccount then return (false, ltx)
      else if isSponsor ltx source sourceAccount then return (false, ltx)
      else
        let ltx ← removeSigners [source] source sourceAccount.signers.length ltx
        mergeInto ltx [source] source destination

def doApply : Except String (Bool × LedgerTxn E) :=
  if protocolVersionIsBefore ltx.header.ledgerVersion 16 then
    doApplyBeforeV16 ltx source destination
  else doApplyFromV16 ltx source destination

end MergeOpFrame

/-! ## All operations -/

/-- `OperationFrame::makeHelper`. -/
@[reducible] def operationFrame (E : Type) [OtherOperations E] [SponsorshipEntries E] :
    OperationFrame E where
  isOpSupported op header := match op.body with
    | .bumpSequence _ => BumpSequenceOpFrame.isOpSupported header
    | .createAccount _ _ | .accountMerge _ => true
    | _ => OtherOperations.isOpSupported E op header
  getThresholdLevel op := match op.body with
    | .bumpSequence _ => .LOW
    | .createAccount _ _ => .MEDIUM
    | .accountMerge _ => .HIGH
    | _ => OtherOperations.getThresholdLevel E op
  doCheckValid tx index op ledgerVersion := match op.body with
    | .bumpSequence bumpTo => return BumpSequenceOpFrame.doCheckValid bumpTo
    | .createAccount destination startingBalance =>
      return CreateAccountOpFrame.doCheckValid (OperationFrame.getSourceID tx op) destination
        startingBalance ledgerVersion
    | .accountMerge destination =>
      return MergeOpFrame.doCheckValid (OperationFrame.getSourceID tx op) destination
    | _ => OtherOperations.doCheckValid E tx index op ledgerVersion
  doApply tx index op ltx := match op.body with
    | .bumpSequence bumpTo =>
      BumpSequenceOpFrame.doApply ltx (OperationFrame.getSourceID tx op) bumpTo
    | .createAccount destination startingBalance =>
      CreateAccountOpFrame.doApply ltx (OperationFrame.getSourceID tx op) destination
        startingBalance
    | .accountMerge destination =>
      MergeOpFrame.doApply ltx (OperationFrame.getSourceID tx op) destination
    | _ => OtherOperations.doApply tx index op ltx

end KinesisCore

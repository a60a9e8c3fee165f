import Mathlib.Data.List.Chain
import KinesisCore.Fallible
import KinesisCore.LedgerHeader

/-!
# Verifying a chain of ledger headers (`VerifyLedgerChainWork.cpp`)

Catchup downloads one file of ledger headers for each checkpoint of a range and
verifies the files from the newest to the oldest. Within a file the headers have to
follow one another by number and by hash; from one file to the next only a number and
a hash are carried along, those of the ledger just before the file's first header.
The chain hangs on a trusted hash at its upper end.

An archive may put anything in its files, so nothing is assumed about them.
-/

namespace KinesisCore

structure LedgerHeaderHistoryEntry where
  hash : Hash
  header : LedgerHeader
  deriving Repr, DecidableEq

/-- A value-initialised entry: what the loop's variables hold before it runs. -/
def LedgerHeaderHistoryEntry.zero : LedgerHeaderHistoryEntry where
  hash := 0
  header :=
    { ledgerVersion := 0, previousLedgerHash := 0, scpValue := { txSetHash := 0, closeTime := 0 },
      ledgerSeq := 0, totalCoins := 0, feePool := 0, inflationSeq := 0, baseFee := 0,
      basePercentageFee := 0, maxFee := 0, baseReserve := 0, maxTxSetSize := 0 }

abbrev LedgerNumHashPair := UInt32 × Option Hash

/-- `mFirst` up to but excluding `mFirst + mCount`. The constructor refuses a
nonempty range from zero. -/
structure LedgerRange where
  mFirst : UInt32
  mCount : UInt32
  first_pos : mCount = 0 ∨ 0 < mFirst

namespace LedgerRange

def inclusive (first last : UInt32) (hfirst : 0 < first) : LedgerRange :=
  ⟨first, last - first + 1, .inr hfirst⟩

def limit (r : LedgerRange) : UInt32 := r.mFirst + r.mCount

/-- Of a nonempty range only. -/
def last (r : LedgerRange) : UInt32 := r.limit - 1

end LedgerRange

namespace HistoryManager

inductive LedgerVerificationStatus where
  | ok
  | errBadHash
  | errBadLedgerVersion
  | errOvershot
  | errUndershot
  | errMissingEntries
  deriving Repr, DecidableEq

def getCheckpointFrequency (ARTIFICIALLY_ACCELERATE_TIME_FOR_TESTING : Bool) : UInt32 :=
  if ARTIFICIALLY_ACCELERATE_TIME_FOR_TESTING then 8 else 64

def checkpointContainingLedger (freq ledger : UInt32) : UInt32 := (ledger / freq + 1) * freq - 1

end HistoryManager

open HistoryManager (LedgerVerificationStatus getCheckpointFrequency checkpointContainingLedger)

/-- What reading the next record of a header file comes to. -/
inductive HeaderRecord where
  | entry (e : LedgerHeaderHistoryEntry)
  /-- `xdr_bad_message_size`, which the loop takes for a version too new. -/
  | badMessageSize
  /-- Any other XDR exception. -/
  | malformed
  deriving Repr, DecidableEq

namespace VerifyLedgerChainWork

/-- What leaves a function other than by returning. -/
inductive Exception where
  | fileSystemException
  | thrown (what : String)
  deriving Repr, DecidableEq

/-- What the work is given. The files are those of the download directory, by
checkpoint; one that cannot be opened is missing. -/
structure Input where
  /-- The hash of a header on the wire. -/
  sha256 : LedgerHeader → Hash
  LEDGER_PROTOCOL_VERSION : UInt32
  ARTIFICIALLY_ACCELERATE_TIME_FOR_TESTING : Bool
  files : UInt32 → Option (List HeaderRecord)
  mRange : LedgerRange
  mLastClosed : UInt32 × Hash
  mTrustedMaxLedger : LedgerNumHashPair

namespace Input

def freq (i : Input) : UInt32 := getCheckpointFrequency i.ARTIFICIALLY_ACCELERATE_TIME_FOR_TESTING

def checkpointContaining (i : Input) (ledger : UInt32) : UInt32 :=
  checkpointContainingLedger i.freq ledger

end Input

end VerifyLedgerChainWork

open Except (releaseAssert)
open VerifyLedgerChainWork (Input Exception)

structure VerifyLedgerChainWork where
  mCurrCheckpoint : UInt32
  mVerifiedAhead : LedgerNumHashPair := (0, none)
  mVerifiedMinLedgerPrev : Option LedgerNumHashPair := none
  mMaxVerifiedLedgerOfMinCheckpoint : LedgerHeaderHistoryEntry := .zero
  mVerifiedLedgers : List LedgerNumHashPair := []
  /-- The headers reported to the catchup manager (`ledgersVerified`), by file from
  the oldest on. -/
  accepted : List LedgerHeaderHistoryEntry := []
  deriving Repr, DecidableEq

namespace VerifyLedgerChainWork

inductive State where
  | workRunning
  | workSuccess
  | workFailure
  deriving Repr, DecidableEq

section

variable (i : Input)

def verifyLedgerHistoryEntry (hhe : LedgerHeaderHistoryEntry) : LedgerVerificationStatus :=
  if i.sha256 hhe.header ≠ hhe.hash then .errBadHash else .ok

def verifyLedgerHistoryLink (prev : Hash) (curr : LedgerHeaderHistoryEntry) :
    LedgerVerificationStatus :=
  let entryResult := verifyLedgerHistoryEntry i curr
  if entryResult ≠ .ok then entryResult
  else if prev ≠ curr.header.previousLedgerHash then .errBadHash
  else .ok

def verifyLastLedgerInCheckpoint (ledger : LedgerHeaderHistoryEntry)
    (verifiedAhead : LedgerNumHashPair) : Except Exception LedgerVerificationStatus :=
  if ledger.header.ledgerSeq ≠ verifiedAhead.1 then
    .error (.thrown "ledger.header.ledgerSeq == verifiedAhead.first")
  else
    match verifiedAhead.2 with
    | none => .ok .ok
    | some trustedHash => .ok (if ledger.hash ≠ trustedHash then .errBadHash else .ok)

/-- The comparison with the last closed ledger. -/
def verifyAgainstLastClosed (curr : LedgerHeaderHistoryEntry) : LedgerVerificationStatus :=
  if curr.header.ledgerSeq = i.mLastClosed.1 then
    if i.sha256 curr.header ≠ i.mLastClosed.2 then .errBadHash else .ok
  else if curr.header.ledgerSeq = i.mLastClosed.1 + 1 then
    verifyLedgerHistoryLink i i.mLastClosed.2 curr
  else .ok

/-- The comparison with the header before in the same file. -/
def verifyAgainstPrevious (prev : Option LedgerHeaderHistoryEntry)
    (curr : LedgerHeaderHistoryEntry) : LedgerVerificationStatus :=
  match prev with
  | none => verifyLedgerHistoryEntry i curr
  | some prev =>
    let expectedSeq := prev.header.ledgerSeq + 1
    if curr.header.ledgerSeq < expectedSeq then .errUndershot
    else if curr.header.ledgerSeq > expectedSeq then .errOvershot
    else verifyLedgerHistoryLink i prev.hash curr

/-- The checks on one header, in the order of the loop. -/
def verifyHeader (prev : Option LedgerHeaderHistoryEntry) (curr : LedgerHeaderHistoryEntry) :
    LedgerVerificationStatus :=
  if curr.header.ledgerVersion > i.LEDGER_PROTOCOL_VERSION then .errBadLedgerVersion
  else
    let lclResult := verifyAgainstLastClosed i curr
    if lclResult ≠ .ok then lclResult else verifyAgainstPrevious i prev curr

/-- The loop over a file: the status it ends with, and the headers it accepted. -/
def readHeaders : Option LedgerHeaderHistoryEntry → List HeaderRecord →
    Except Exception (LedgerVerificationStatus × List LedgerHeaderHistoryEntry)
  | _, [] => .ok (.ok, [])
  | _, .badMessageSize :: _ => .ok (.errBadLedgerVersion, [])
  | _, .malformed :: _ => .error (.thrown "malformed XDR file")
  | prev, .entry curr :: records =>
    let status := verifyHeader i prev curr
    if status ≠ .ok then .ok (status, [])
    else if curr.header.ledgerSeq = i.mRange.last then .ok (.ok, [curr])
    else
      (readHeaders (some curr) records).map fun (status, accepted) => (status, curr :: accepted)

variable (w : VerifyLedgerChainWork)

/-- The hash the file's last header has to agree with: the trusted one for the end of
the range, the one carried from the file above for any other. -/
def incomingLink (curr : LedgerHeaderHistoryEntry) : Except Exception LedgerNumHashPair := do
  let incoming := w.mVerifiedAhead
  if curr.header.ledgerSeq = i.mRange.last then
    releaseAssert (incoming.1 = 0) (.thrown "incoming.first == 0")
    releaseAssert incoming.2.isNone (.thrown "!incoming.second.has_value()")
    let incoming := i.mTrustedMaxLedger
    releaseAssert (incoming.1 = curr.header.ledgerSeq)
      (.thrown "incoming.first == curr.header.ledgerSeq")
    return incoming
  else
    releaseAssert incoming.2.isSome (.thrown "incoming.second")
    releaseAssert (incoming.1 ≠ 0) (.thrown "incoming.first != 0")
    return incoming

/-- What is written down of a verified checkpoint; of the oldest one, also the link
and the header that the rest of catchup goes on with. -/
def noteVerified (outgoing : LedgerNumHashPair)
    (curr : LedgerHeaderHistoryEntry) : VerifyLedgerChainWork :=
  let w :=
    if w.mCurrCheckpoint = i.checkpointContaining i.mRange.mFirst then
      -- a promise keeps the value it was given first
      { w with
        mVerifiedMinLedgerPrev := some (w.mVerifiedMinLedgerPrev.getD outgoing)
        mMaxVerifiedLedgerOfMinCheckpoint := curr }
    else w
  { w with mVerifiedLedgers := w.mVerifiedLedgers ++ [(curr.header.ledgerSeq, some curr.hash)] }

def verifyHistoryOfSingleCheckpoint :
    Except Exception (LedgerVerificationStatus × VerifyLedgerChainWork) := do
  match i.files w.mCurrCheckpoint with
  | none => throw .fileSystemException
  | some file =>
    let (status, accepted) ← readHeaders i none file
    let w := { w with accepted := accepted ++ w.accepted }
    if status ≠ .ok then return (status, w)
    let first := accepted.head?.getD .zero
    let curr := accepted.getLast?.getD .zero
    if curr.header.ledgerSeq ≠ w.mCurrCheckpoint && curr.header.ledgerSeq ≠ i.mRange.last then
      return (.errMissingEntries, w)
    let outgoing : LedgerNumHashPair :=
      (first.header.ledgerSeq - 1, some first.header.previousLedgerHash)
    let incoming ← incomingLink i w curr
    let w := { w with mVerifiedAhead := outgoing }
    let verifyTrustedHash ← verifyLastLedgerInCheckpoint curr incoming
    if verifyTrustedHash ≠ .ok then
      releaseAssert incoming.2.isSome (.thrown "incoming.second")
      return (verifyTrustedHash, w)
    return (.ok, noteVerified i w outgoing curr)

def onRun (w : VerifyLedgerChainWork) : Except Exception (State × VerifyLedgerChainWork) :=
  if i.mRange.mCount = 0 then .ok (.workSuccess, w)
  else if w.mCurrCheckpoint < i.checkpointContaining i.mRange.mFirst then
    .error (.thrown "Verification undershot first ledger in the range.")
  else
    match verifyHistoryOfSingleCheckpoint i w with
    | .error .fileSystemException => .ok (.workFailure, w)
    | .error (.thrown what) => .error (.thrown what)
    | .ok (.ok, w) =>
      if w.mCurrCheckpoint = i.checkpointContaining i.mRange.mFirst then .ok (.workSuccess, w)
      else .ok (.workRunning, { w with mCurrCheckpoint := w.mCurrCheckpoint - i.freq })
    | .ok (_, w) => .ok (.workFailure, w)

/-- The work as the constructor and `onReset` leave it. -/
def start : VerifyLedgerChainWork where
  mCurrCheckpoint := if i.mRange.mCount = 0 then 0 else i.checkpointContaining i.mRange.last

/-- The scheduler runs the work as long as it says so, here for a number of turns. -/
def run : Nat → VerifyLedgerChainWork → Except Exception (State × VerifyLedgerChainWork)
  | 0, w => .ok (.workRunning, w)
  | n + 1, w => do
    let (state, w) ← onRun i w
    match state with
    | .workRunning => run n w
    | state => return (state, w)

end

end VerifyLedgerChainWork

end KinesisCore

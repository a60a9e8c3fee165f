import KinesisCore.ScpStatement
import KinesisCore.TxSetValid
import KinesisCore.Upgrades

/-!
# Consensus values (`HerderSCPDriver.cpp`)

What consensus runs on is opaque to it; the herder reads a value as a
`StellarValue`: the hash of a transaction set, a close time, upgrade steps,
and a signature of the first two. `validateValue` judges one value, and
`combineCandidates` makes one value of all that were nominated: the best
transaction set, and every upgrade step that was proposed, the larger value
where two propose one.
-/

namespace KinesisCore

open Xdr HashFunction TransactionFrameBase

open ValidationLevel

/-- What the driver reads of the application around it. -/
structure HerderSCPDriver (E : Type) [HashFunction] where
  lcl : LastClosedLedger E
  cfg : Config
  mUpgrades : Upgrades
  networkID : Hash
  timeNow : UInt64
  isTracking : Bool
  nextConsensusLedgerIndex : UInt32
  trackingConsensusCloseTime : UInt64
  /-- `mPendingEnvelopes.getTxSet`. -/
  getTxSet : Hash → Option (TxSetFrame Tx)

namespace HerderSCPDriver

variable {E : Type} [HashFunction]

/-! ## Validation -/

def MAX_TIME_SLIP_SECONDS : UInt64 := 60

def checkCloseTime (d : HerderSCPDriver E) (lastCloseTime : UInt64) (b : StellarValue) : Bool :=
  lastCloseTime < b.closeTime && b.closeTime ≤ d.timeNow + MAX_TIME_SLIP_SECONDS

/-- What the signature of a value is over: the network, the kind of message,
the hash of the transaction set and the close time. -/
def signedBytes (d : HerderSCPDriver E) (sv : StellarValue) : Bytes :=
  (Codec.opaqueFixed 32).put d.networkID ++ Codec.uint32.put 4
    ++ (Codec.opaqueFixed 32).put sv.txSetHash ++ Codec.uint64.put sv.closeTime

variable [PubKeyUtils] [OperationFrame E] (I : Stl.Impl) (d : HerderSCPDriver E)
  (slotIndex : UInt64) (b : StellarValue)

def verifyStellarValueSignature (sv : StellarValue)
    (lcValueSignature : LedgerCloseValueSignature) : Bool :=
  PubKeyUtils.verifySig lcValueSignature.nodeID lcValueSignature.signature (d.signedBytes sv)

/-- The checks on a value for another slot than the next one. -/
def validateOtherSlot : ValidationLevel :=
  let lastCloseTime := d.lcl.header.scpValue.closeTime
  let ledgerSeq := d.lcl.header.ledgerSeq.toUInt64
  if slotIndex = ledgerSeq ∧ b.closeTime ≠ lastCloseTime then kInvalidValue
  else if slotIndex < ledgerSeq ∧ lastCloseTime ≤ b.closeTime then kInvalidValue
  else if ledgerSeq < slotIndex ∧ ¬d.checkCloseTime lastCloseTime b then kInvalidValue
  else if ¬d.isTracking then kMaybeValidValue
  else if slotIndex < d.nextConsensusLedgerIndex.toUInt64 then kMaybeValidValue
  else if d.nextConsensusLedgerIndex.toUInt64 < slotIndex then kInvalidValue
  else if ¬d.checkCloseTime d.trackingConsensusCloseTime b then kInvalidValue
  else kMaybeValidValue

def validateValueHelper : Except String ValidationLevel := do
  match b.ext with
  | .basic => return kInvalidValue
  | .signed lcValueSignature =>
    if ¬d.verifyStellarValueSignature b lcValueSignature then return kInvalidValue
    if slotIndex ≠ (d.lcl.header.ledgerSeq + 1).toUInt64 then
      return d.validateOtherSlot slotIndex b
    let lastCloseTime := d.lcl.header.scpValue.closeTime
    if ¬d.checkCloseTime lastCloseTime b then return kInvalidValue
    let closeTimeOffset := b.closeTime - lastCloseTime
    match d.getTxSet b.txSetHash with
    | none => return kInvalidValue
    | some txSet =>
      let (valid, _) ← txSet.checkValid I d.lcl closeTimeOffset closeTimeOffset
      return if valid then kFullyValidatedValue else kInvalidValue

def validateValue (value : Value) (nomination : Bool) : Except String ValidationLevel := do
  match StellarValue.codec.fromOpaque value with
  | none => return kInvalidValue
  | some b =>
    let res ← d.validateValueHelper I slotIndex b
    if res ≠ kInvalidValue
        ∧ ¬upgradesValid d.mUpgrades nomination d.cfg d.lcl.header b.upgrades then
      return kInvalidValue
    return res

end HerderSCPDriver

/-! ## Combining upgrade steps -/

/-- The steps collected so far, by their type. -/
abbrev UpgradeMap := LedgerUpgradeType → Option LedgerUpgrade

namespace LedgerUpgradeType

/-- All types, in ascending order. -/
def all : List LedgerUpgradeType :=
  [version, baseFee, maxTxSetSize, baseReserve, basePercentageFee, maxFee, flags]

end LedgerUpgradeType

/-- The `switch` on a second step of one type: four types know how to take the
larger value. -/
def mergeUpgrade (clUpgrade lupgrade : LedgerUpgrade) : Except String LedgerUpgrade :=
  match clUpgrade, lupgrade with
  | .newLedgerVersion v, .newLedgerVersion w => return .newLedgerVersion (max v w)
  | .newBaseFee v, .newBaseFee w => return .newBaseFee (max v w)
  | .newMaxTxSetSize v, .newMaxTxSetSize w => return .newMaxTxSetSize (max v w)
  | .newBaseReserve v, .newBaseReserve w => return .newBaseReserve (max v w)
  | _, _ => throw "invalid upgrade step"

def addUpgrade (upgrades : UpgradeMap) (lupgrade : LedgerUpgrade) : Except String UpgradeMap := do
  match upgrades lupgrade.type with
  | none => return Function.update upgrades lupgrade.type (some lupgrade)
  | some clUpgrade =>
    let merged ← mergeUpgrade clUpgrade lupgrade
    return Function.update upgrades lupgrade.type (some merged)

/-- The loop over the steps of one candidate. -/
def addUpgrades : List UpgradeType → UpgradeMap → Except String UpgradeMap
  | [], upgrades => return upgrades
  | upgrade :: steps, upgrades =>
    match LedgerUpgrade.codec.fromOpaque upgrade with
    | none => throw "xdr_runtime_error"
    | some lupgrade => do addUpgrades steps (← addUpgrade upgrades lupgrade)

/-! ## Combining candidates -/

namespace HerderSCPDriver

variable {E : Type} [HashFunction]

/-- The loop over the candidates: the values they stand for, their hash, and
the steps. -/
def readCandidates : List Value → Hash → UpgradeMap →
    Except String (List StellarValue × Hash × UpgradeMap)
  | [], candidatesHash, upgrades => return ([], candidatesHash, upgrades)
  | c :: candidates, candidatesHash, upgrades =>
    match StellarValue.codec.fromOpaque c with
    | none => throw "xdr_runtime_error"
    | some sv => do
      let upgrades ← addUpgrades sv.upgrades upgrades
      let (values, candidatesHash, upgrades) ←
        readCandidates candidates (candidatesHash ^^^ sha256 c) upgrades
      return (sv :: values, candidatesHash, upgrades)

/-- Whether `l` is worse than `r`: it is smaller, or pays less, or loses by its
hash. -/
def compareTxSets (l r : TxSetFrame Tx) (lh rh : Hash) (header : LedgerHeader) (s : Hash) :
    Except String Bool := do
  if l.size header < r.size header then return true
  if r.size header < l.size header then return false
  if protocolVersionStartsFrom header.ledgerVersion 11 then
    let lFee ← l.getTotalFees header
    let rFee ← r.getTotalFees header
    if lFee < rFee then return true
    if rFee < lFee then return false
  return lessThanXored lh rh s

variable (d : HerderSCPDriver E)

/-- Whether a candidate replaces the best one so far. -/
def isBetter (candidatesHash : Hash) (sv : StellarValue)
    (cTxSet : TxSetFrame Tx) (highest : Option (StellarValue × TxSetFrame Tx)) :
    Except String Bool :=
  if cTxSet.mPreviousLedgerHash = d.lcl.hash then
    match highest with
    | none => return true
    | some (highest, highestTxSet) =>
      compareTxSets highestTxSet cTxSet highest.txSetHash sv.txSetHash d.lcl.header candidatesHash
  else return false

/-- The loop that looks for the best transaction set. -/
def pickHighest (d : HerderSCPDriver E) (candidatesHash : Hash) :
    List StellarValue → Option (StellarValue × TxSetFrame Tx) →
      Except String (Option (StellarValue × TxSetFrame Tx))
  | [], highest => return highest
  | sv :: values, highest =>
    match d.getTxSet sv.txSetHash with
    | none => pickHighest d candidatesHash values highest
    | some cTxSet => do
      if ← d.isBetter candidatesHash sv cTxSet highest then
        pickHighest d candidatesHash values (some (sv, cTxSet))
      else pickHighest d candidatesHash values highest

/-- `wrapStellarValue`: the value on the wire. Its transaction set must be
known. -/
def wrapStellarValue (sv : StellarValue) : Except String Value :=
  match d.getTxSet sv.txSetHash with
  | none => throw "SCPHerderValueWrapper tried to bind an unknown tx set"
  | some _ => return StellarValue.codec.toOpaque sv

def combineCandidates (candidates : List Value) : Except String Value := do
  let (candidateValues, candidatesHash, upgrades) ← readCandidates candidates 0 fun _ => none
  match ← d.pickHighest candidatesHash candidateValues none with
  | none => throw "No highest candidate transaction set found"
  | some (highest, _) =>
    let steps := LedgerUpgradeType.all.filterMap upgrades
    d.wrapStellarValue { highest with upgrades := steps.map LedgerUpgrade.codec.toOpaque }

end HerderSCPDriver

end KinesisCore

import KinesisCore.StlCheckedSet
import KinesisCore.TxSetValid

/-!
# The limit on the transaction queue (`TxQueueLimiter.cpp`)

The limiter keeps every queued transaction in a set that is ordered by fee
rate, and the number of their operations. `canAddTx` says whether a
transaction can be added, if need be by pushing out cheaper ones, and if not,
what it would have to bid. It walks the set from the cheapest transaction on
and only looks; the queue does the pushing out afterwards.

Fee rates are compared by cross multiplication, which throws on a negative bid
(`SurgePricingUtils.cpp`). Equal rates are told apart by the addresses of the
two objects, under a random mask.
-/

namespace KinesisCore

open TransactionFrameBase

inductive TxEnvelopeType where
  | txV0
  | tx
  | feeBump
  deriving Repr, DecidableEq

/-- The discriminant of an operation's type. -/
abbrev OperationType := UInt32

/-- What the queue reads of a transaction. The elements of `T` are pointers:
`address` is the pointer as a number. -/
class QueueFrame (T : Type) extends TransactionFrameBase T where
  envelopeType : T → TxEnvelopeType
  /-- The full hash of the transaction that a fee bump wraps. -/
  getInnerFullHash : T → Hash
  operationTypes : T → List OperationType
  address : T → UInt64

open QueueFrame

/-- A transaction object: where it is, and what it holds. -/
structure Frame where
  addr : UInt64
  tx : Tx
  deriving Repr, DecidableEq

/-- The discriminant of an operation; a body given as bytes starts with it. -/
def OperationBody.type : OperationBody → OperationType
  | .createAccount _ _ => 0
  | .payment _ _ _ => 1
  | .accountMerge _ => 8
  | .bumpSequence _ => 11
  | .other body => (body.take 4).foldl (fun n b => n * 256 + b.toUInt32) 0

instance [HashFunction] : QueueFrame Frame where
  getSourceID f := getSourceID f.tx
  getFeeSourceID f := getFeeSourceID f.tx
  getSeqNum f := getSeqNum f.tx
  getFeeBid f := getFeeBid f.tx
  getNumOperations f := getNumOperations f.tx
  getFullHash f := getFullHash f.tx
  getEnvelope f := getEnvelope f.tx
  getMinFee f := getMinFee f.tx
  getFee f := getFee f.tx
  envelopeType f := match f.tx with
    | .plain tx =>
      match tx.type with
      | .txV0 => .txV0
      | .tx => .tx
    | .feeBump _ => .feeBump
  getInnerFullHash f := HashFunction.sha256 f.tx.inner.envelope
  operationTypes f := f.tx.inner.operations.map fun op => op.body.type
  address := Frame.addr

instance {E : Type} [HashFunction] [PubKeyUtils] [OperationFrame E] : CheckValid Frame E where
  checkValid f := CheckValid.checkValid f.tx

/-! ## Fee rates -/

/-- `feeRate3WayCompare` of two bids. -/
def feeRate3WayCompareBids (lFeeBid : Int64) (lNbOps : UInt32) (rFeeBid : Int64) (rNbOps : UInt32) :
    Except String Ordering := do
  let v1 ← bigMultiply lFeeBid rNbOps.toUInt64.toInt64
  let v2 ← bigMultiply rFeeBid lNbOps.toUInt64.toInt64
  return compare v1 v2

variable {T E : Type} [QueueFrame T]

theorem feeRate3WayCompare_eq (l r : T) :
    feeRate3WayCompare l r
      = feeRate3WayCompareBids (getFeeBid l) (getNumOperations l) (getFeeBid r)
          (getNumOperations r) := rfl

/-- `lessThanXored` on transactions: by fee rate, ties by address. -/
def lessThanXoredTx (l r : T) (seed : UInt64) : Except String Bool := do
  match ← feeRate3WayCompare l r with
  | .lt => return true
  | .gt => return false
  | .eq => return address l ^^^ seed < address r ^^^ seed

/-- The fee bid that `tx` should have in order to beat a reference. -/
def computeBetterFee (tx : T) (refFeeBid : Int64) (refNbOps : UInt32) : Except String Int64 := do
  match ← bigDivide refFeeBid (getNumOperations tx).toUInt64.toInt64 refNbOps.toUInt64.toInt64
      .ROUND_DOWN with
  | some v => return if v < INT64_MAX then v + 1 else INT64_MAX
  | none => return INT64_MAX

/-! ## The limiter

`std::set` searches a tree, the model of it from the front. A set with two
elements or more has had them compared, so none of them has a negative bid, and
then whether a search throws depends on the searched transaction alone. -/

structure TxQueueLimiter (T : Type) where
  mPoolLedgerMultiplier : UInt32
  /-- The seed of the set's comparator. -/
  mSeed : UInt64
  /-- All known transactions, the cheapest first. -/
  mTxs : List T := []
  mQueueSizeOps : Nat := 0
  /-- A fee bid and a number of operations. -/
  mMinFeeNeeded : Int64 × UInt32 := (0, 0)

namespace TxQueueLimiter

variable (lim : TxQueueLimiter T) (lcl : LastClosedLedger E) (tx : T) (newTx : T) (oldTx : Option T)

omit [QueueFrame T] in
def maxQueueSizeOps : Nat :=
  lcl.getLastMaxTxSetSizeOps.toNat * lim.mPoolLedgerMultiplier.toNat

/-- The comparator of the set. -/
def less (l r : T) : Except String Bool := lessThanXoredTx l r lim.mSeed

def addTransaction : Except String (TxQueueLimiter T) := do
  let newTotOps := lim.mQueueSizeOps + (getNumOperations tx).toNat
  if newTotOps > lim.maxQueueSizeOps lcl then throw "invalid state adding tx in TxQueueLimiter"
  let mTxs ← Stl.CheckedSet.emplace lim.less tx lim.mTxs
  return { lim with mTxs, mQueueSizeOps := newTotOps }

def removeTransaction : Except String (TxQueueLimiter T) := do
  let txOps := (getNumOperations tx).toNat
  if lim.mQueueSizeOps < txOps then
    throw "invalid state (queue size) removing tx in TxQueueLimiter"
  match ← Stl.CheckedSet.erase lim.less tx lim.mTxs with
  | none => throw "invalid state (missing tx) removing tx in TxQueueLimiter"
  | some mTxs => return { lim with mTxs, mQueueSizeOps := lim.mQueueSizeOps - txOps }

/-- The walk of `canAddTx` over the set, the cheapest transaction first, while
`neededOps` operations have to go. -/
def canEvict (newTx : T) : List T → Nat → Except String (Bool × Int64)
  | [], _ => return (false, 0)
  | it :: rest, neededOps => do
    if (← feeRate3WayCompare it newTx) ≠ .lt then
      return (false, ← computeBetterFee newTx (getFeeBid it) (getNumOperations it))
    if getSourceID it = getSourceID newTx then return (false, 0)
    let curOps := (getNumOperations it).toNat
    if neededOps ≤ curOps then return (true, 0)
    canEvict newTx rest (neededOps - curOps)

/-- How many operations there would be with `newTx` in the place of `oldTx`. -/
def opsWith : Nat :=
  lim.mQueueSizeOps - (oldTx.map fun tx => (getNumOperations tx).toNat).getD 0
    + (getNumOperations newTx).toNat

/-- The part of `canAddTx` about room. -/
def canFit : Except String (Bool × Int64) :=
  if lim.mQueueSizeOps < (oldTx.map fun tx => (getNumOperations tx).toNat).getD 0 then
    throw "oldTx->getNumOperations() <= newOps"
  else if lim.opsWith newTx oldTx ≤ lim.maxQueueSizeOps lcl then return (true, 0)
  else canEvict newTx lim.mTxs (lim.opsWith newTx oldTx - lim.maxQueueSizeOps lcl)

/-- Whether `newTx` can be added, in the place of `oldTx` if there is one. If not,
the second part is the fee it needs, or zero if it has to wait. -/
def canAddTx : Except String (Bool × Int64) := do
  if lim.mMinFeeNeeded.2 ≠ 0 then
    if (← feeRate3WayCompareBids (getFeeBid newTx) (getNumOperations newTx) lim.mMinFeeNeeded.1
        lim.mMinFeeNeeded.2) ≠ .gt then
      return (false, ← computeBetterFee newTx lim.mMinFeeNeeded.1 lim.mMinFeeNeeded.2)
  lim.canFit lcl newTx oldTx

def getWorstTransaction : Except String T :=
  match lim.mTxs with
  | [] => throw "invalid state getting worst tx in TxQueueLimiter"
  | tx :: _ => return tx

/-- `reset` makes a new set, with a new seed. -/
def reset (seed : UInt64) : TxQueueLimiter T :=
  { lim with mSeed := seed, mTxs := [], mQueueSizeOps := 0, mMinFeeNeeded := (0, 0) }

def resetMinFeeNeeded : TxQueueLimiter T :=
  { lim with mMinFeeNeeded := (0, 0) }

end TxQueueLimiter

end KinesisCore

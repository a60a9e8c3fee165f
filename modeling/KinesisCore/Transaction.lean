import KinesisCore.TxSetFrame

/-!
# Transactions and their fees

A transaction is its envelope: the fields the code reads, and the encoded
bytes, which are only ever hashed. There are two kinds behind
`TransactionFrameBase`: plain transactions, and fee bumps that wrap one and
pay for it from another account.

Three amounts are called a fee. The *bid* is what the envelope offers
(`getFeeBid`); the *minimum fee* is what admission asks for (`getMinFee`:
a base fee per operation and a percentage of the native amounts moved,
under a cap); the *fee* is what is charged (`getFee`: the bid, or the base
fee of the set per operation if that is less).
-/

namespace KinesisCore

open Xdr MachineInt HashFunction

/-! ## Envelopes -/

inductive OperationBody where
  | createAccount (destination : AccountID) (startingBalance : Int64)
  | payment (destination : AccountID) (native : Bool) (amount : Int64)
  | accountMerge (destination : AccountID)
  | bumpSequence (bumpTo : SequenceNumber)
  /-- Any other operation, as its bytes. -/
  | other (body : Bytes)
  deriving Repr, DecidableEq

structure Operation where
  sourceAccount : Option AccountID := none
  body : OperationBody
  deriving Repr, DecidableEq

structure TimeBounds where
  minTime : UInt64
  maxTime : UInt64
  deriving Repr, DecidableEq

structure DecoratedSignature where
  hint : BitVec 32
  signature : Bytes
  deriving Repr, DecidableEq

inductive EnvelopeType where
  | txV0
  | tx
  deriving Repr, DecidableEq

/-- A plain transaction. The wire format allows at most a hundred
operations. -/
structure TransactionFrame where
  type : EnvelopeType := .tx
  sourceAccount : AccountID
  /-- Whether any account in the envelope is a multiplexed one. -/
  hasMuxedAccount : Bool := false
  fee : UInt64
  seqNum : SequenceNumber
  timeBounds : Option TimeBounds := none
  operations : List Operation
  signatures : List DecoratedSignature := []
  /-- The whole envelope on the wire. -/
  envelope : Bytes := []
  /-- What is signed: the network and the transaction, on the wire. -/
  payload : Bytes := []
  operations_le : operations.length ≤ MAX_OPS_PER_TX := by simp [MAX_OPS_PER_TX]
  deriving Repr, DecidableEq

theorem one_le_maxOpsPerTx : 1 ≤ MAX_OPS_PER_TX := by decide

structure FeeBumpTransactionFrame where
  feeSource : AccountID
  fee : Int64
  innerTx : TransactionFrame
  signatures : List DecoratedSignature := []
  envelope : Bytes := []
  payload : Bytes := []
  deriving Repr, DecidableEq

/-- Either kind of transaction. -/
inductive Tx where
  | plain (tx : TransactionFrame)
  | feeBump (tx : FeeBumpTransactionFrame)
  deriving Repr, DecidableEq

/-! ## Plain transactions -/

namespace TransactionFrame

variable (tx : TransactionFrame) (header : LedgerHeader)

def getNumOperations : UInt32 := UInt32.ofNat tx.operations.length

def getFeeBid : Int64 := tx.fee.toInt64

/-- `std::max<int64_t>(1, getNumOperations())`. -/
def chargedOperations : Int64 :=
  max 1 tx.getNumOperations.toUInt64.toInt64

def BASIS_POINTS_TO_PERCENT : Int64 := 10000

/-- What an operation adds to the amount the percentage fee is taken of: the
native coins it moves. -/
def nativeAmount (op : Operation) : Int64 :=
  match op.body with
  | .createAccount _ startingBalance => startingBalance
  | .payment _ native amount => if native then amount else 0
  | _ => 0

/-- The percentage of an amount, in doubles, cut to an integer. -/
def percentageFee (totalAmount : Int64) (basePercentageFee : UInt32) : Int64 :=
  let basePercentageFeeRate := basePercentageFee.toFloat / toDouble BASIS_POINTS_TO_PERCENT
  ofDouble (toDouble totalAmount * basePercentageFeeRate)

/-- The minimum fee. The source sums over the operation frames, which
`resetResults` has made of the envelope's operations by the time the
function is called. -/
def getMinFee : Int64 :=
  let baseFee := header.baseFee.toUInt64.toInt64 * tx.chargedOperations
  let totalAmount := tx.operations.foldl (fun total op => total + nativeAmount op) 0
  let totalFee := baseFee + percentageFee totalAmount header.basePercentageFee
  let headerMaxFee := header.maxFee.toInt64
  if totalFee > headerMaxFee then headerMaxFee else totalFee

def getFee (baseFee : Int64) (applying : Bool) : Int64 :=
  if protocolVersionStartsFrom header.ledgerVersion 11 || !applying then
    let adjustedFee := baseFee * tx.chargedOperations
    if applying then min tx.getFeeBid adjustedFee else adjustedFee
  else tx.getFeeBid

end TransactionFrame

/-! ## Fee bumps -/

namespace FeeBumpTransactionFrame

variable (tx : FeeBumpTransactionFrame)

def getNumOperations : UInt32 := tx.innerTx.getNumOperations + 1

def getFeeBid : Int64 := tx.fee

def chargedOperations : Int64 :=
  max 1 tx.getNumOperations.toUInt64.toInt64

def getMinFee (header : LedgerHeader) : Int64 :=
  header.baseFee.toUInt64.toInt64 + tx.innerTx.getMinFee header

/-- Unlike the plain transaction's, the same at every protocol version. -/
def getFee (_header : LedgerHeader) (baseFee : Int64) (applying : Bool) : Int64 :=
  let adjustedFee := baseFee * tx.chargedOperations
  if applying then min tx.getFeeBid adjustedFee else adjustedFee

end FeeBumpTransactionFrame

namespace Tx

/-- The transaction whose operations run. -/
def inner : Tx → TransactionFrame
  | plain tx => tx
  | feeBump tx => tx.innerTx

def envelope : Tx → Bytes
  | plain tx => tx.envelope
  | feeBump tx => tx.envelope

end Tx

instance [HashFunction] : TransactionFrameBase Tx where
  getSourceID tx := tx.inner.sourceAccount
  getFeeSourceID
    | .plain tx => tx.sourceAccount
    | .feeBump tx => tx.feeSource
  getSeqNum tx := tx.inner.seqNum
  getFeeBid
    | .plain tx => tx.getFeeBid
    | .feeBump tx => tx.getFeeBid
  getNumOperations
    | .plain tx => tx.getNumOperations
    | .feeBump tx => tx.getNumOperations
  getFullHash tx := sha256 tx.envelope
  getEnvelope := Tx.envelope
  getMinFee
    | .plain tx => tx.getMinFee
    | .feeBump tx => tx.getMinFee
  getFee
    | .plain tx => tx.getFee
    | .feeBump tx => tx.getFee

end KinesisCore

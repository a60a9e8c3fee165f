import KinesisCore.AccountOps
import KinesisCore.TxSetApply
import KinesisCore.TxSetValid
import KinesisCore.Upgrades

/-!
# Closing a ledger (`LedgerManagerImpl.cpp`)

A ledger closes by raising its number, taking the fees of all transactions of
the set, applying the transactions one after the other, and applying the
upgrades. Beside the ledger, `closeLedger` returns the transactions that passed
their sequence check when they were applied, in that order: those are the ones
that took a sequence number.

Results, meta and the history tables are not kept beyond a transaction.
-/

namespace KinesisCore

open TransactionFrameBase ValidationType

variable {E C : Type} [HashFunction] [PubKeyUtils]

/-! ## Transactions -/

/-- A transaction after the fee step: its result so far, and that of the
transaction it wraps. -/
structure ChargedTx where
  tx : Tx
  result : TransactionResult
  inner : TransactionResult

/-- The result the wrapped transaction starts from. -/
def Tx.innerResult (tx : Tx) (header : LedgerHeader) (baseFee : Int64) : TransactionResult :=
  tx.inner.resetResults header baseFee true

def processFeesSeqNums (baseFee : Int64) :
    List Tx → LedgerTxn E → Except String (List ChargedTx × LedgerTxn E)
  | [], ltx => return ([], ltx)
  | tx :: txs, ltx => do
    let inner := tx.innerResult ltx.header baseFee
    let (result, ltx) ← tx.processFeeSeqNum ltx baseFee
    let (charged, ltx) ← processFeesSeqNums baseFee txs ltx
    return (⟨tx, result, inner⟩ :: charged, ltx)

/-- Whether `commonValid`, as `apply` calls it, gets past the sequence check. -/
def TransactionFrame.passesSeqCheck (tx : TransactionFrame) (ltx : LedgerTxn E)
    (chargeFee : Bool) : Bool :=
  let c := SignatureChecker.make ltx.header.ledgerVersion tx.getContentsHash tx.signatures
  match tx.commonValid c ltx 0 true chargeFee 0 0 with
  | .ok (cv, _) => cv ≠ kInvalid
  | .error _ => false

/-- The transaction that takes a sequence number when `tx` is applied. -/
def Tx.consumed (tx : Tx) (ltx : LedgerTxn E) : List TransactionFrame :=
  match tx with
  | .plain tx => if tx.passesSeqCheck ltx true then [tx] else []
  | .feeBump tx =>
    match tx.removeOneTimeSignerKeyFromFeeSource ltx with
    | .ok ltxTx => if tx.innerTx.passesSeqCheck ltxTx false then [tx.innerTx] else []
    | .error _ => []

section

variable [OperationFrame E] [SponsorshipEntries E]

def ChargedTx.apply (I : Stl.Impl) (app : ApplyContext E C) (t : ChargedTx) (ltx : LedgerTxn E) :
    Except String (Bool × TransactionResult × LedgerTxn E × TransactionMeta C) :=
  match t.tx with
  | .plain tx => tx.apply I app ltx t.result {} true
  | .feeBump tx => tx.apply I app ltx t.result t.inner {}

/-- The loop over the transactions: those that took a sequence number, and the
ledger after it. -/
def applyTransactions (I : Stl.Impl) (app : ApplyContext E C) :
    List ChargedTx → LedgerTxn E → Except String (List TransactionFrame × LedgerTxn E)
  | [], ltx => return ([], ltx)
  | t :: ts, ltx => do
    let (_, _, ltx', _) ← t.apply I app ltx
    let (taken, ltx'') ← applyTransactions I app ts ltx'
    return (t.tx.consumed ltx ++ taken, ltx'')

end

/-! ## Upgrades -/

namespace Upgrades

variable [OtherOperations E]

def applyVersionUpgrade (ltx : LedgerTxn E) (newVersion : UInt32) : Except String (LedgerTxn E) :=
  let prevVersion := ltx.header.ledgerVersion
  let ltx := { ltx with header := { ltx.header with ledgerVersion := newVersion } }
  if protocolVersionStartsFrom newVersion 10 && protocolVersionIsBefore prevVersion 10 then
    OtherOperations.prepareLiabilities ltx
  else if newVersion = 16 ∧ prevVersion = 15 then OtherOperations.upgradeFromProtocol15To16 ltx
  else return ltx

def applyReserveUpgrade (ltx : LedgerTxn E) (newReserve : UInt32) : Except String (LedgerTxn E) :=
  let didReserveIncrease := newReserve > ltx.header.baseReserve
  let ltx := { ltx with header := { ltx.header with baseReserve := newReserve } }
  if protocolVersionStartsFrom ltx.header.ledgerVersion 10 ∧ didReserveIncrease then
    OtherOperations.prepareLiabilities ltx
  else return ltx

def applyTo (upgrade : LedgerUpgrade) (ltx : LedgerTxn E) : Except String (LedgerTxn E) :=
  match upgrade with
  | .newLedgerVersion v => applyVersionUpgrade ltx v
  | .newBaseFee v => return { ltx with header := { ltx.header with baseFee := v } }
  | .newMaxTxSetSize v => return { ltx with header := { ltx.header with maxTxSetSize := v } }
  | .newBaseReserve v => applyReserveUpgrade ltx v
  | .newBasePercentageFee v =>
    return { ltx with header := { ltx.header with basePercentageFee := v } }
  | .newMaxFee v => return { ltx with header := { ltx.header with maxFee := v } }
  | .newFlags v => return { ltx with header := { ltx.header with ext := some v } }

end Upgrades

section

variable [OtherOperations E]

/-- The loop over the upgrades. An invalid one stops the process; an exception
while one is applied is logged, and that upgrade is rolled back. -/
def applyUpgrades (cfg : Config) :
    List UpgradeType → LedgerTxn E → Except String (LedgerTxn E)
  | [], ltx => return ltx
  | op :: ops, ltx =>
    match Upgrades.isValidForApply op ltx.header cfg.LEDGER_PROTOCOL_VERSION with
    | (.valid, some upgrade) =>
      match Upgrades.applyTo upgrade ltx with
      | .ok ltx => applyUpgrades cfg ops ltx
      | .error _ => applyUpgrades cfg ops ltx
    | (.invalid, _) => throw "Invalid upgrade"
    | _ => throw "Unknown upgrade"

end

/-! ## The ledger -/

structure LedgerCloseData [HashFunction] where
  txSet : TxSetFrame Tx
  value : StellarValue

variable [OtherOperations E] [SponsorshipEntries E]

/-- The ledger that transactions are applied to. -/
def openLedger (lcl : LastClosedLedger E) (value : StellarValue) : LedgerTxn E :=
  { lcl.ledger with
    header := { lcl.header with
      ledgerSeq := lcl.header.ledgerSeq + 1
      previousLedgerHash := lcl.hash
      scpValue := value } }

/-- `ledgerHash` is the hash of a header on the wire. -/
def closeLedger (I : Stl.Impl) (app : ApplyContext E C) (cfg : Config)
    (ledgerHash : LedgerHeader → Hash) (lcl : LastClosedLedger E) (data : LedgerCloseData) :
    Except String (List TransactionFrame × LastClosedLedger E) :=
  letI := operationFrame E
  if lcl.header.ledgerVersion > cfg.LEDGER_PROTOCOL_VERSION then
    throw "cannot apply ledger with not supported version"
  else if data.txSet.mPreviousLedgerHash ≠ lcl.hash then throw "txset mismatch"
  else if (data.txSet.getContentsHash I).1 ≠ data.value.txSetHash then
    throw "corrupt transaction set"
  else do
    let ltx := openLedger lcl data.value
    let txs := (data.txSet.sortForApply I).1
    let curBaseFee ← data.txSet.getBaseFee ltx.header
    let (charged, ltx) ← processFeesSeqNums curBaseFee txs ltx
    let (taken, ltx) ← applyTransactions I app charged ltx
    let ltx ← applyUpgrades cfg data.value.upgrades ltx
    return (taken, ⟨ledgerHash ltx.header, ltx⟩)

/-- A run of closed ledgers: all transactions that took a sequence number, and
the last closed ledger. -/
def closeLedgers (I : Stl.Impl) (app : ApplyContext E C) (cfg : Config)
    (ledgerHash : LedgerHeader → Hash) :
    List LedgerCloseData → LastClosedLedger E →
      Except String (List TransactionFrame × LastClosedLedger E)
  | [], lcl => return ([], lcl)
  | data :: run, lcl => do
    let (taken, lcl) ← closeLedger I app cfg ledgerHash lcl data
    let (rest, lcl) ← closeLedgers I app cfg ledgerHash run lcl
    return (taken ++ rest, lcl)

end KinesisCore

import KinesisCore.Attempt
import KinesisCore.Liabilities

/-!
# Depositing into and withdrawing from a liquidity pool

`LiquidityPoolDepositOpFrame` and `LiquidityPoolWithdrawOpFrame`. A deposit into a pool that
has shares takes both assets in the ratio of its reserves, rounded up; a withdrawal pays the
part of the reserves that the shares stand for, rounded down. An operation that fails leaves
the ledger of its caller as it was.
-/

namespace KinesisCore

open Attempt

/-- `TrustLineWrapper::isAuthorized`; the native asset needs no authorization. -/
def Holding.isAuthorized : Holding → Bool
  | trustLine tl => tl.isAuthorized
  | _ => true

def LedgerTxn.putPool (ltx : LedgerTxn Entries) (id : PoolID) (pool : LiquidityPoolEntry) :
    LedgerTxn Entries :=
  { ltx with others := ltx.others.putPool id pool }

/-- `addBalance` where a refusal is an exception. -/
def addBalanceOrThrow {C : Type} (balance delta : Int64) (text : String) : Attempt C Int64 := do
  orThrow (← addBalanceTo balance delta INT64_MAX) text

/-! ## Depositing -/

inductive LiquidityPoolDepositResultCode where
  | NO_TRUST
  | NOT_AUTHORIZED
  | UNDERFUNDED
  | LINE_FULL
  | BAD_PRICE
  | POOL_FULL
  deriving Repr, DecidableEq

structure LiquidityPoolDepositOp where
  liquidityPoolID : PoolID
  maxAmountA : Int64
  maxAmountB : Int64
  minPrice : Price
  maxPrice : Price
  deriving Repr, DecidableEq

/-- The amounts of a deposit. -/
structure PoolAmounts where
  amountA : Int64
  amountB : Int64
  amountPoolShares : Int64
  deriving Repr, DecidableEq

def isBadPrice (amountA amountB : Int64) (minPrice maxPrice : Price) : Except String Bool := do
  if amountA = 0 ∨ amountB = 0 then return true
  if (← bigMultiply amountA minPrice.d.toInt64) < (← bigMultiply amountB minPrice.n.toInt64) then
    return true
  return (← bigMultiply amountA maxPrice.d.toInt64) > (← bigMultiply amountB maxPrice.n.toInt64)

/-- The smaller of two results, or the one there is. -/
def minAmongValid : Option Int64 → Option Int64 → Option Int64
  | some x, some y => some (min x y)
  | x, y => x.or y

namespace LiquidityPoolDepositOp

variable (op : LiquidityPoolDepositOp) (availableA availableB availableLimitPoolShares : Int64)

/-- The checks on the amounts of both assets. -/
def checkAmounts (amountA amountB : Int64) : Attempt LiquidityPoolDepositResultCode Unit := do
  refuseIf (availableA < amountA ∨ availableB < amountB) .UNDERFUNDED
  refuseIf (← isBadPrice amountA amountB op.minPrice op.maxPrice) .BAD_PRICE

def depositIntoEmptyPool : Attempt LiquidityPoolDepositResultCode PoolAmounts := do
  let amountA := op.maxAmountA
  let amountB := op.maxAmountB
  op.checkAmounts availableA availableB amountA amountB
  let root ← bigSquareRoot amountA.toUInt64 amountB.toUInt64
  let amountPoolShares := root.toInt64
  refuseIf (availableLimitPoolShares < amountPoolShares) .LINE_FULL
  return { amountA, amountB, amountPoolShares }

def depositIntoNonEmptyPool (cp : LiquidityPoolEntry) :
    Attempt LiquidityPoolDepositResultCode PoolAmounts := do
  let sharesA ← bigDivide cp.totalPoolShares op.maxAmountA cp.reserveA .ROUND_DOWN
  let sharesB ← bigDivide cp.totalPoolShares op.maxAmountB cp.reserveB .ROUND_DOWN
  let amountPoolShares ←
    orThrow (minAmongValid sharesA sharesB) "both shares calculations overflowed"
  let resA ← bigDivide amountPoolShares cp.reserveA cp.totalPoolShares .ROUND_UP
  let resB ← bigDivide amountPoolShares cp.reserveB cp.totalPoolShares .ROUND_UP
  let amountA ← orThrow resA "amount overflowed"
  let amountB ← orThrow resB "amount overflowed"
  op.checkAmounts availableA availableB amountA amountB
  refuseIf (availableLimitPoolShares < amountPoolShares) .LINE_FULL
  return { amountA, amountB, amountPoolShares }

variable (ltx : LedgerTxn Entries) (sourceID : AccountID)

/-- What the source holds of an asset of the pool. -/
def loadHolding (asset : Asset) : Attempt LiquidityPoolDepositResultCode Holding :=
  orThrow (ltx.holding sourceID asset)
    (if asset = .native then "LedgerTxnEntry not active" else "Invalid ledger state")

def updateBalance (lh : LedgerHeader) (h : Holding) (delta : Int64) :
    Attempt LiquidityPoolDepositResultCode Holding := do
  orThrow (← h.addBalance lh delta) "insufficient balance"

def doApply : Attempt LiquidityPoolDepositResultCode (LedgerTxn Entries) := do
  let tlPool ← orRefuse (ltx.others.trustLines sourceID (.poolShare op.liquidityPoolID)) .NO_TRUST
  let cp ← orThrow (ltx.others.pools op.liquidityPoolID) "LedgerTxnEntry not active"
  throwIf (cp.params.assetA = cp.params.assetB) "Depositing to invalid liquidity pool"
  let tlA ← loadHolding ltx sourceID cp.params.assetA
  let tlB ← loadHolding ltx sourceID cp.params.assetB
  refuseIf (¬tlA.isAuthorized ∨ ¬tlB.isAuthorized) .NOT_AUTHORIZED
  let availableA ← tlA.getAvailableBalance ltx.header
  let availableB ← tlB.getAvailableBalance ltx.header
  let availableLimitPoolShares ← tlPool.getMaxAmountReceive ltx.header
  let amounts ←
    if cp.totalPoolShares ≠ 0 then
      op.depositIntoNonEmptyPool availableA availableB availableLimitPoolShares cp
    else op.depositIntoEmptyPool availableA availableB availableLimitPoolShares
  refuseIf (INT64_MAX - amounts.amountA < cp.reserveA ∨ INT64_MAX - amounts.amountB < cp.reserveB
    ∨ INT64_MAX - amounts.amountPoolShares < cp.totalPoolShares) .POOL_FULL
  throwIf (amounts.amountA ≤ 0 ∨ amounts.amountB ≤ 0 ∨ amounts.amountPoolShares ≤ 0)
    "must deposit positive amounts and receive a positive amount of pool shares"
  let tlA ← updateBalance ltx.header tlA (-amounts.amountA)
  let reserveA ← addBalanceOrThrow cp.reserveA amounts.amountA "insufficient liquidity pool limit"
  let tlB ← updateBalance ltx.header tlB (-amounts.amountB)
  let reserveB ← addBalanceOrThrow cp.reserveB amounts.amountB "insufficient liquidity pool limit"
  let tlPool ←
    orThrow (← tlPool.addBalance ltx.header amounts.amountPoolShares)
      "insufficient pool share limit"
  let totalPoolShares ← addBalanceOrThrow cp.totalPoolShares amounts.amountPoolShares
    "insufficient liquidity pool limit"
  let ltx := (ltx.putHolding sourceID tlA).putHolding sourceID tlB
  return (ltx.putTrustLine sourceID tlPool).putPool op.liquidityPoolID
    { cp with reserveA, reserveB, totalPoolShares }

end LiquidityPoolDepositOp

/-! ## Withdrawing -/

inductive LiquidityPoolWithdrawResultCode where
  | NO_TRUST
  | UNDERFUNDED
  | LINE_FULL
  | UNDER_MINIMUM
  deriving Repr, DecidableEq

structure LiquidityPoolWithdrawOp where
  liquidityPoolID : PoolID
  amount : Int64
  minAmountA : Int64
  minAmountB : Int64
  deriving Repr, DecidableEq

def getPoolWithdrawalAmount (amountPoolShares totalPoolShares reserve : Int64) :
    Except String Int64 :=
  if amountPoolShares > totalPoolShares then throw "Invalid amountPoolShares"
  else bigDivideOrThrow amountPoolShares reserve totalPoolShares .ROUND_DOWN

namespace LiquidityPoolWithdrawOp

def tryAddAssetBalance (ltx : LedgerTxn Entries) (sourceID : AccountID) (asset : Asset)
    (minAmount amount : Int64) : Attempt LiquidityPoolWithdrawResultCode (LedgerTxn Entries) := do
  refuseIf (amount < minAmount) .UNDER_MINIMUM
  let holding ← orThrow (ltx.holding sourceID asset) "LedgerTxnEntry not active"
  let holding ← orRefuse (← holding.addBalance ltx.header amount) .LINE_FULL
  return ltx.putHolding sourceID holding

def doApply (op : LiquidityPoolWithdrawOp) (ltx : LedgerTxn Entries) (sourceID : AccountID) :
    Attempt LiquidityPoolWithdrawResultCode (LedgerTxn Entries) := do
  let tlPool ← orRefuse (ltx.others.trustLines sourceID (.poolShare op.liquidityPoolID)) .NO_TRUST
  refuseIf ((← tlPool.getAvailableBalance ltx.header) < op.amount) .UNDERFUNDED
  let cp ← orThrow (ltx.others.pools op.liquidityPoolID) "LedgerTxnEntry not active"
  let amountA ← getPoolWithdrawalAmount op.amount cp.totalPoolShares cp.reserveA
  let ltx ← tryAddAssetBalance ltx sourceID cp.params.assetA op.minAmountA amountA
  let amountB ← getPoolWithdrawalAmount op.amount cp.totalPoolShares cp.reserveB
  let ltx ← tryAddAssetBalance ltx sourceID cp.params.assetB op.minAmountB amountB
  let tlPool ← orThrow (← tlPool.addBalance ltx.header (-op.amount)) "pool withdrawal invalid"
  let totalPoolShares ←
    addBalanceOrThrow cp.totalPoolShares (-op.amount) "insufficient totalPoolShares"
  let reserveA ← addBalanceOrThrow cp.reserveA (-amountA) "insufficient reserveA"
  let reserveB ← addBalanceOrThrow cp.reserveB (-amountB) "insufficient reserveB"
  return (ltx.putTrustLine sourceID tlPool).putPool op.liquidityPoolID
    { cp with reserveA, reserveB, totalPoolShares }

end LiquidityPoolWithdrawOp

end KinesisCore

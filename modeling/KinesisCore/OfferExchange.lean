import KinesisCore.Fallible
import KinesisCore.LedgerEntries
import KinesisCore.Numeric

/-!
# The arithmetic of an exchange (`OfferExchange.cpp`)

An offer in the book sells wheat for sheep. `exchangeV10` says how much of both
changes hands when it is crossed, given what each side can send and receive.
The side that is worth less is used up; rounding favours the other one.
-/

namespace KinesisCore

open Except

inductive RoundingType where
  | NORMAL
  | PATH_PAYMENT_STRICT_SEND
  | PATH_PAYMENT_STRICT_RECEIVE
  deriving Repr, DecidableEq

structure ExchangeResultV10 where
  numWheatReceived : Int64
  numSheepSend : Int64
  wheatStays : Bool
  deriving Repr, DecidableEq

/-- The size of an offer after all limits, in units of the other side's asset
and scaled by the denominator of the price. -/
def calculateOfferValue (priceN priceD : Int32) (maxSend maxReceive : Int64) :
    Except String Nat := do
  let sendValue ← bigMultiply maxSend priceN.toInt64
  let receiveValue ← bigMultiply maxReceive priceD.toInt64
  return min sendValue receiveValue

variable (lh : LedgerHeader) (oe : OfferEntry) (price : Price) (wheatReceive sheepSend : Int64)
  (wheatStays : Bool) (round : RoundingType)

/-- The amounts of wheat and sheep when the wheat offer is the larger one. -/
def amountsWheatStays (sheepValue : Nat) (maxSheepSend maxSheepReceive : Int64)
    (round : RoundingType) : Except String (Int64 × Int64) :=
  if round = .PATH_PAYMENT_STRICT_SEND then do
    let wheatReceive ← bigDivideOrThrow128 sheepValue price.n.toInt64 .ROUND_DOWN
    return (wheatReceive, min maxSheepSend maxSheepReceive)
  else if price.n > price.d ∨ round = .PATH_PAYMENT_STRICT_RECEIVE then do
    -- wheat is more valuable
    let wheatReceive ← bigDivideOrThrow128 sheepValue price.n.toInt64 .ROUND_DOWN
    let sheepSend ← bigDivideOrThrow wheatReceive price.n.toInt64 price.d.toInt64 .ROUND_UP
    return (wheatReceive, sheepSend)
  else do
    let sheepSend ← bigDivideOrThrow128 sheepValue price.d.toInt64 .ROUND_DOWN
    let wheatReceive ← bigDivideOrThrow sheepSend price.d.toInt64 price.n.toInt64 .ROUND_DOWN
    return (wheatReceive, sheepSend)

/-- The amounts of wheat and sheep when the sheep offer is the larger one. -/
def amountsSheepStays (wheatValue : Nat) : Except String (Int64 × Int64) :=
  if price.n > price.d then do
    let wheatReceive ← bigDivideOrThrow128 wheatValue price.n.toInt64 .ROUND_DOWN
    let sheepSend ← bigDivideOrThrow wheatReceive price.n.toInt64 price.d.toInt64 .ROUND_DOWN
    return (wheatReceive, sheepSend)
  else do
    let sheepSend ← bigDivideOrThrow128 wheatValue price.d.toInt64 .ROUND_DOWN
    let wheatReceive ← bigDivideOrThrow sheepSend price.d.toInt64 price.n.toInt64 .ROUND_UP
    return (wheatReceive, sheepSend)

/-- The amounts as a result, unless they exceed a limit, which never happens. -/
def checkLimits (maxWheatSend maxWheatReceive maxSheepSend maxSheepReceive : Int64)
    (wheatStays : Bool) (wheatReceive sheepSend : Int64) : Except String ExchangeResultV10 :=
  if wheatReceive < 0 ∨ wheatReceive > min maxWheatReceive maxWheatSend then
    throw "wheatReceive out of bounds"
  else if sheepSend < 0 ∨ sheepSend > min maxSheepReceive maxSheepSend then
    throw "sheepSend out of bounds"
  else return { numWheatReceived := wheatReceive, numSheepSend := sheepSend, wheatStays }

def exchangeV10WithoutPriceErrorThresholds
    (maxWheatSend maxWheatReceive maxSheepSend maxSheepReceive : Int64) (round : RoundingType) :
    Except String ExchangeResultV10 := do
  let wheatValue ← calculateOfferValue price.n price.d maxWheatSend maxSheepReceive
  let sheepValue ← calculateOfferValue price.d price.n maxSheepSend maxWheatReceive
  if wheatValue > sheepValue then
    let (wheatReceive, sheepSend) ←
      amountsWheatStays price sheepValue maxSheepSend maxSheepReceive round
    checkLimits maxWheatSend maxWheatReceive maxSheepSend maxSheepReceive true wheatReceive
      sheepSend
  else
    let (wheatReceive, sheepSend) ← amountsSheepStays price wheatValue
    checkLimits maxWheatSend maxWheatReceive maxSheepSend maxSheepReceive false wheatReceive
      sheepSend

/-- Whether the effective price is within one per cent of the price, or with
`canFavorWheat` above it. -/
def checkPriceErrorBound (price : Price) (wheatReceive sheepSend : Int64) (canFavorWheat : Bool) :
    Except String Bool := do
  let errN := 100 * price.n.toInt64
  let errD := 100 * price.d.toInt64
  let lhs ← bigMultiply errN wheatReceive
  let rhs ← bigMultiply errD sheepSend
  if canFavorWheat ∧ rhs > lhs then return true
  let absDiff := if lhs > rhs then lhs - rhs else rhs - lhs
  let cap ← bigMultiply price.n.toInt64 wheatReceive
  return absDiff ≤ cap

/-- A trade in which both sides get something. -/
def thresholdsOnTrade : Except String ExchangeResultV10 := do
  let wheatReceiveValue ← bigMultiply wheatReceive price.n.toInt64
  let sheepSendValue ← bigMultiply sheepSend price.d.toInt64
  if wheatStays ∧ sheepSendValue < wheatReceiveValue then throw "favored sheep when wheat stays"
  if ¬wheatStays ∧ sheepSendValue > wheatReceiveValue then throw "favored wheat when sheep stays"
  match round with
  | .NORMAL =>
    if ← checkPriceErrorBound price wheatReceive sheepSend false then
      return ⟨wheatReceive, sheepSend, wheatStays⟩
    else return ⟨0, 0, wheatStays⟩
  | _ =>
    if ← checkPriceErrorBound price wheatReceive sheepSend true then
      return ⟨wheatReceive, sheepSend, wheatStays⟩
    else throw "exceeded price error bound"

def applyPriceErrorThresholds : Except String ExchangeResultV10 :=
  if wheatReceive > 0 ∧ sheepSend > 0 then
    thresholdsOnTrade price wheatReceive sheepSend wheatStays round
  else
    match round with
    | .PATH_PAYMENT_STRICT_SEND =>
      if sheepSend = 0 then throw "invalid amount of sheep sent"
      else return ⟨wheatReceive, sheepSend, wheatStays⟩
    | _ => return ⟨0, 0, wheatStays⟩

def exchangeV10 (price : Price) (maxWheatSend maxWheatReceive maxSheepSend maxSheepReceive : Int64)
    (round : RoundingType) : Except String ExchangeResultV10 := do
  let beforeThresholds ← exchangeV10WithoutPriceErrorThresholds price maxWheatSend maxWheatReceive
    maxSheepSend maxSheepReceive round
  applyPriceErrorThresholds price beforeThresholds.numWheatReceived beforeThresholds.numSheepSend
    beforeThresholds.wheatStays round

/-- `adjustOffer` on numbers: what of an offer a buyer without limits would
take. -/
def adjustOfferAmount (maxWheatSend maxSheepReceive : Int64) : Except String Int64 := do
  let res ← exchangeV10 price maxWheatSend INT64_MAX INT64_MAX maxSheepReceive .NORMAL
  return res.numWheatReceived

/-! ## The liabilities of an offer (`TransactionUtils.cpp`) -/

/-- The whole offer, taken by a buyer without limits. -/
def offerLiabilities : Except String ExchangeResultV10 :=
  if protocolVersionIsBefore lh.ledgerVersion 10 then
    throw "Offer liabilities calculated before version 10"
  else
    exchangeV10WithoutPriceErrorThresholds oe.price oe.amount INT64_MAX INT64_MAX INT64_MAX .NORMAL

def getOfferBuyingLiabilities : Except String Int64 :=
  return (← offerLiabilities lh oe).numSheepSend

def getOfferSellingLiabilities : Except String Int64 :=
  return (← offerLiabilities lh oe).numWheatReceived

/-! ## Limits -/

variable {maxWheatReceive maxSheepReceive maxWheatSend maxSheepSend : Int64}
  {res : ExchangeResultV10}

theorem checkLimits_eq_ok {wheatStays : Bool} {wheatReceive sheepSend : Int64} :
    checkLimits maxWheatSend maxWheatReceive maxSheepSend maxSheepReceive wheatStays wheatReceive
        sheepSend = .ok res
      ↔ (0 ≤ wheatReceive.toInt
          ∧ wheatReceive.toInt ≤ min maxWheatReceive.toInt maxWheatSend.toInt)
        ∧ (0 ≤ sheepSend.toInt ∧ sheepSend.toInt ≤ min maxSheepReceive.toInt maxSheepSend.toInt)
        ∧ res = ⟨wheatReceive, sheepSend, wheatStays⟩ := by
  unfold checkLimits
  simp only [gt_iff_lt, Int64.lt_iff_toInt_lt, Int64.toInt_zero, MachineInt.toInt_min]
  constructor
  · intro h
    split_ifs at h with hwheat hsheep
    exact ⟨by omega, by omega, (pure_eq_ok.mp h).symm⟩
  · rintro ⟨hwheat, hsheep, rfl⟩
    rw [if_neg (by omega), if_neg (by omega)]
    rfl

/-- Nothing is exchanged beyond a limit. -/
theorem exchangeV10WithoutPriceErrorThresholds_bounds {price : Price} {round : RoundingType}
    (h : exchangeV10WithoutPriceErrorThresholds price maxWheatSend maxWheatReceive maxSheepSend
      maxSheepReceive round = .ok res) :
    (0 ≤ res.numWheatReceived.toInt
        ∧ res.numWheatReceived.toInt ≤ min maxWheatReceive.toInt maxWheatSend.toInt)
      ∧ 0 ≤ res.numSheepSend.toInt
        ∧ res.numSheepSend.toInt ≤ min maxSheepReceive.toInt maxSheepSend.toInt := by
  obtain ⟨wheatValue, -, h⟩ := bind_eq_ok.mp h
  obtain ⟨sheepValue, -, h⟩ := bind_eq_ok.mp h
  split_ifs at h with hstays
  all_goals
    obtain ⟨⟨wheatReceive, sheepSend⟩, -, h⟩ := bind_eq_ok.mp h
    obtain ⟨hwheat, hsheep, rfl⟩ := checkLimits_eq_ok.mp h
    exact ⟨hwheat, hsheep⟩

end KinesisCore

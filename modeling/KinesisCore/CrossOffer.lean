import KinesisCore.EntrySponsorship
import KinesisCore.Liabilities

/-!
# Crossing an offer of the book (`OfferExchange.cpp`)

`crossOfferV10` exchanges sheep for the wheat of one offer. It gives the
liabilities of the offer back to its seller, cuts the offer down to what the
seller can still honour, moves both amounts and then either takes the offer
off the book or puts the liabilities of what is left of it on the seller again.
-/

namespace KinesisCore

/-! ## Limits of the seller -/

/-- The account itself is loaded only for the native asset; a trust line that is
not there counts as nothing. -/
def canSellAtMost (lh : LedgerHeader) (asset : Asset) : Option Holding → Except String Int64
  | none => if asset = .native then throw "LedgerTxnEntry not active" else return 0
  | some (.account acc) => return max (← getAvailableBalance lh acc) 0
  | some (.trustLine tl) =>
    if tl.isAuthorizedToMaintainLiabilities then do
      return max (← tl.getAvailableBalance lh) 0
    else return 0
  | some .issuer => return max INT64_MAX 0

def canBuyAtMost (lh : LedgerHeader) (asset : Asset) : Option Holding → Except String Int64
  | none => if asset = .native then throw "LedgerTxnEntry not active" else return 0
  | some (.account acc) => return max (← getMaxAmountReceive lh acc) 0
  | some (.trustLine tl) => return max (← tl.getMaxAmountReceive lh) 0
  | some .issuer => return max INT64_MAX 0

/-- `canSellAtMost` and `canBuyAtMost` of the seller of an offer. -/
def offerLimits (ltx : LedgerTxn Entries) (oe : OfferEntry) : Except String (Int64 × Int64) := do
  let canSell ← canSellAtMost ltx.header oe.selling (ltx.holding oe.sellerID oe.selling)
  let canBuy ← canBuyAtMost ltx.header oe.buying (ltx.holding oe.sellerID oe.buying)
  return (canSell, canBuy)

/-- `adjustOffer` on an entry of the ledger. -/
def adjustOffer (ltx : LedgerTxn Entries) (oe : OfferEntry) : Except String OfferEntry := do
  let (canSell, canBuy) ← offerLimits ltx oe
  return { oe with amount := ← adjustOfferAmount oe.price (min oe.amount canSell) canBuy }

/-! ## Taking an offer off the book -/

namespace LedgerTxn

variable (ltx : LedgerTxn Entries) (key : AccountID × Int64) (id : AccountID)

def loadOffer : Option OfferEntry :=
  ltx.others.offers.find? (·.key = key)

/-- The accounts and the offers, as the functions on sponsorships see them. -/
def sponsorshipView : Sponsorship.Ledger (AccountID × Int64) where
  header := ltx.header
  accounts := ltx.accounts
  others key := (ltx.loadOffer key).map fun oe => ⟨.offer, oe.sellerID, oe.sponsoringID⟩

/-- `removeEntryWithPossibleSponsorship` and `erase` of an offer of `id`. -/
def removeOffer : Except String (LedgerTxn Entries) := do
  let ledger ← ltx.sponsorshipView.removeEntryWithPossibleSponsorship key id
  return { ltx with accounts := ledger.accounts, others := ltx.others.eraseOffer key }

def putOffer (oe : OfferEntry) : LedgerTxn Entries :=
  { ltx with others := ltx.others.putOffer oe }

/-- Add to what an account holds of an asset; a refusal is an exception. -/
def moveBalance (asset : Asset) (delta : Int64)
    (refusal : String) : Except String (LedgerTxn Entries) :=
  if delta = 0 then return ltx
  else
    match ltx.holding id asset with
    | none => throw "LedgerTxnEntry not active"
    | some h => do
      match ← h.addBalance ltx.header delta with
      | none => throw refusal
      | some h => return ltx.putHolding id h

end LedgerTxn

/-! ## Crossing -/

inductive CrossOfferResult where
  | eOfferPartial
  | eOfferTaken
  | eOfferCantConvert
  deriving Repr, DecidableEq

structure ClaimOfferAtom where
  sellerID : AccountID
  offerID : Int64
  assetSold : Asset
  amountSold : Int64
  assetBought : Asset
  amountBought : Int64
  deriving Repr, DecidableEq

inductive ClaimAtom where
  | v0 (atom : ClaimOfferAtom)
  | orderBook (atom : ClaimOfferAtom)
  deriving Repr, DecidableEq

def makeClaimAtom (ledgerVersion : UInt32) (accountID : AccountID) (offerID : Int64)
    (wheat : Asset) (numWheatReceived : Int64) (sheep : Asset) (numSheepSend : Int64) : ClaimAtom :=
  let atom : ClaimOfferAtom :=
    { sellerID := accountID, offerID, assetSold := wheat, amountSold := numWheatReceived,
      assetBought := sheep, amountBought := numSheepSend }
  if protocolVersionIsBefore ledgerVersion 18 then .v0 atom else .orderBook atom

/-- What a crossing returns beside the ledger. -/
structure Crossing where
  res : CrossOfferResult
  exchange : ExchangeResultV10
  claim : ClaimAtom
  deriving Repr, DecidableEq

variable (ltx : LedgerTxn Entries) (oe : OfferEntry)

/-- The exchange with an offer whose liabilities have been given back. -/
def exchangeWithOffer (maxWheatReceived maxSheepSend : Int64) (round : RoundingType) :
    Except String ExchangeResultV10 := do
  let (canSell, maxSheepReceive) ← offerLimits ltx oe
  exchangeV10 oe.price (min oe.amount canSell) maxWheatReceived maxSheepSend maxSheepReceive round

/-- The last part of `crossOfferV10`: the offer goes or gets its liabilities back. -/
def settleOffer (ltx : LedgerTxn Entries) (oe : OfferEntry) :
    Except String (CrossOfferResult × LedgerTxn Entries) :=
  if oe.amount = 0 then do
    return (.eOfferTaken, ← (ltx.putOffer oe).removeOffer oe.key oe.sellerID)
  else do
    return (.eOfferPartial, ← acquireLiabilities (ltx.putOffer oe) oe)

/-- Both amounts move, and what is left of the offer is settled. -/
def applyExchange (exchange : ExchangeResultV10) :
    Except String (CrossOfferResult × LedgerTxn Entries) := do
  let ltx ← ltx.moveBalance oe.sellerID oe.buying exchange.numSheepSend "overflowed sheep balance"
  let ltx ← ltx.moveBalance oe.sellerID oe.selling (-exchange.numWheatReceived)
    "overflowed wheat balance"
  let oe ← (if exchange.wheatStays then
      adjustOffer ltx { oe with amount := oe.amount - exchange.numWheatReceived }
    else return { oe with amount := 0 })
  settleOffer ltx oe

def crossOfferV10 (sellingWheatOffer : OfferEntry)
    (maxWheatReceived maxSheepSend : Int64) (round : RoundingType) :
    Except String (Crossing × LedgerTxn Entries) := do
  if ¬maxWheatReceived > 0 then throw "maxWheatReceived > 0"
  if ¬maxSheepSend > 0 then throw "maxSheepSend > 0"
  if (ltx.accounts sellingWheatOffer.sellerID).isNone then
    throw "invalid database state: offer must have matching account"
  let ltx ← releaseLiabilities ltx sellingWheatOffer
  let offer ← adjustOffer ltx sellingWheatOffer
  let exchange ← exchangeWithOffer ltx offer maxWheatReceived maxSheepSend round
  let (res, ltx) ← applyExchange ltx offer exchange
  let claim := makeClaimAtom ltx.header.ledgerVersion offer.sellerID offer.offerID offer.selling
    exchange.numWheatReceived offer.buying exchange.numSheepSend
  return ({ res, exchange, claim }, ltx)

end KinesisCore

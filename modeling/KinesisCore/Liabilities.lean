import KinesisCore.OfferExchange

/-!
# Balances and liabilities (`TransactionUtils.cpp`, `TrustLineWrapper.cpp`)

An offer puts liabilities on what its seller holds: selling liabilities on the
asset it sells, buying liabilities on the one it buys. An account holds the
native asset in its own entry and any other asset in a trust line; the issuer
of an asset holds none and needs none. The functions below change a balance
or a liability by `delta`, and answer `none` when they refuse; then nothing
has changed.
-/

namespace KinesisCore

open MachineInt

/-! ## Accounts -/

variable (lh : LedgerHeader) (acc : AccountEntry) (delta : Int64)

/-- `prepareAccountEntryExtensionV1`. -/
def AccountEntry.extV1 : AccountEntryExtensionV1 :=
  acc.ext.getD { liabilities := ⟨0, 0⟩ }

def addBuyingLiabilities : Except String (Option AccountEntry) := do
  let buyingLiab ← getBuyingLiabilities lh acc
  if delta = 0 then return some acc
  let res ← addBalanceTo buyingLiab delta (INT64_MAX - acc.balance)
  return res.map fun buying =>
    { acc with ext := some { acc.extV1 with
      liabilities := { acc.extV1.liabilities with buying } } }

def addSellingLiabilities : Except String (Option AccountEntry) := do
  let sellingLiab ← getSellingLiabilities lh acc
  if delta = 0 then return some acc
  let maxLiabilities := acc.balance - (← getMinBalance lh acc)
  if maxLiabilities < 0 then return none
  let res ← addBalanceTo sellingLiab delta maxLiabilities
  return res.map fun selling =>
    { acc with ext := some { acc.extV1 with
      liabilities := { acc.extV1.liabilities with selling } } }

def getMaxAmountReceive : Except String Int64 :=
  if protocolVersionStartsFrom lh.ledgerVersion 10 then do
    return INT64_MAX - (acc.balance + (← getBuyingLiabilities lh acc))
  else return INT64_MAX

/-! ## Trust lines -/

namespace TrustLineEntry

def AUTHORIZED_FLAG : UInt32 := 1

/-- The flags of full and of limited authorization. -/
def TRUSTLINE_AUTH_FLAGS : UInt32 := 3

variable (lh : LedgerHeader) (tl : TrustLineEntry) (delta : Int64)

/-- `prepareTrustLineEntryExtensionV1`. -/
def extV1 : TrustLineEntryExtensionV1 :=
  tl.ext.getD { liabilities := ⟨0, 0⟩ }

def isAuthorized : Bool := tl.flags &&& AUTHORIZED_FLAG ≠ 0

def isAuthorizedToMaintainLiabilities : Bool :=
  match tl.asset with
  | .poolShare _ => true
  | .asset _ => tl.flags &&& TRUSTLINE_AUTH_FLAGS ≠ 0

def checkAuthorization : Except String Bool :=
  if protocolVersionIsBefore lh.ledgerVersion 10 then return tl.isAuthorized
  else if ¬tl.isAuthorizedToMaintainLiabilities then throw "Invalid authorization"
  else return true

def getBuyingLiabilities : Except String Int64 :=
  if protocolVersionIsBefore lh.ledgerVersion 10 then
    throw "Liabilities accessed before version 10"
  else return (tl.ext.map (·.liabilities.buying)).getD 0

def getSellingLiabilities : Except String Int64 :=
  if protocolVersionIsBefore lh.ledgerVersion 10 then
    throw "Liabilities accessed before version 10"
  else return (tl.ext.map (·.liabilities.selling)).getD 0

def addBalanceSkipAuthorization (amount : Int64) : Except String (Option TrustLineEntry) := do
  match ← addBalanceTo tl.balance amount tl.limit with
  | none => return none
  | some newBalance =>
    if protocolVersionStartsFrom lh.ledgerVersion 10 then
      if newBalance < (← getSellingLiabilities lh tl) then return none
      if tl.limit - (← getBuyingLiabilities lh tl) < newBalance then return none
    return some { tl with balance := newBalance }

def addBalance : Except String (Option TrustLineEntry) := do
  if delta = 0 then return some tl
  if ¬(← checkAuthorization lh tl) then return none
  addBalanceSkipAuthorization lh tl delta

def addBuyingLiabilities : Except String (Option TrustLineEntry) := do
  let buyingLiab ← getBuyingLiabilities lh tl
  if delta = 0 then return some tl
  if ¬(← checkAuthorization lh tl) then return none
  let res ← addBalanceTo buyingLiab delta (tl.limit - tl.balance)
  return res.map fun buying =>
    { tl with ext := some { tl.extV1 with liabilities := { tl.extV1.liabilities with buying } } }

def addSellingLiabilities : Except String (Option TrustLineEntry) := do
  let sellingLiab ← getSellingLiabilities lh tl
  if delta = 0 then return some tl
  if ¬(← checkAuthorization lh tl) then return none
  let res ← addBalanceTo sellingLiab delta tl.balance
  return res.map fun selling =>
    { tl with ext := some { tl.extV1 with liabilities := { tl.extV1.liabilities with selling } } }

def getAvailableBalance : Except String Int64 := do
  -- throws when the line is not authorized
  let _ ← checkAuthorization lh tl
  if protocolVersionStartsFrom lh.ledgerVersion 10 then
    return tl.balance - (← getSellingLiabilities lh tl)
  else return tl.balance

def getMaxAmountReceive : Except String Int64 := do
  if ¬(← checkAuthorization lh tl) then return 0
  if protocolVersionStartsFrom lh.ledgerVersion 10 then
    return tl.limit - tl.balance - (← getBuyingLiabilities lh tl)
  else return tl.limit - tl.balance

end TrustLineEntry

/-! ## Where an asset is held -/

/-- Where an account holds an asset: in its own entry, in a trust line, or, for
the issuer, nowhere. -/
inductive Holding where
  | account (acc : AccountEntry)
  | trustLine (tl : TrustLineEntry)
  | issuer
  deriving Repr, DecidableEq

namespace Holding

variable (lh : LedgerHeader) (h : Holding) (delta : Int64)

/-- A change of an account or of a trust line; the issuer has nothing to change. -/
def change (onAccount : AccountEntry → Except String (Option AccountEntry))
    (onTrustLine : TrustLineEntry → Except String (Option TrustLineEntry)) :
    Except String (Option Holding) :=
  match h with
  | account acc => return (← onAccount acc).map account
  | trustLine tl => return (← onTrustLine tl).map trustLine
  | issuer => return some issuer

def addBalance : Except String (Option Holding) :=
  h.change (KinesisCore.addBalance lh · delta) (·.addBalance lh delta)

def addBuyingLiabilities : Except String (Option Holding) :=
  h.change (KinesisCore.addBuyingLiabilities lh · delta) (·.addBuyingLiabilities lh delta)

def addSellingLiabilities : Except String (Option Holding) :=
  h.change (KinesisCore.addSellingLiabilities lh · delta) (·.addSellingLiabilities lh delta)

def getAvailableBalance : Holding → Except String Int64
  | account acc => KinesisCore.getAvailableBalance lh acc
  | trustLine tl => tl.getAvailableBalance lh
  | issuer => return INT64_MAX

def getMaxAmountReceive : Holding → Except String Int64
  | account acc => KinesisCore.getMaxAmountReceive lh acc
  | trustLine tl => tl.getMaxAmountReceive lh
  | issuer => return INT64_MAX

end Holding

namespace LedgerTxn

variable (ltx : LedgerTxn Entries) (id : AccountID)

/-- The account or the `TrustLineWrapper` for an asset. -/
def holding (asset : Asset) : Option Holding :=
  if asset = .native then (ltx.accounts id).map .account
  else if asset.issuer = some id then some .issuer
  else (ltx.trustLine id asset).map .trustLine

def putHolding : Holding → LedgerTxn Entries
  | .account acc => ltx.putAccount id acc
  | .trustLine tl => ltx.putTrustLine id tl
  | .issuer => ltx

end LedgerTxn

/-- What an account can hold an asset in. -/
def Holding.For (id : AccountID) (asset : Asset) : Holding → Prop
  | account _ => asset = .native
  | trustLine tl => asset ≠ .native ∧ asset.issuer ≠ some id ∧ tl.asset = .asset asset
  | issuer => asset ≠ .native ∧ asset.issuer = some id

namespace LedgerTxn

variable {ltx : LedgerTxn Entries} {id : AccountID} {asset : Asset} {h : Holding}

theorem holding_for (hh : ltx.holding id asset = some h) : h.For id asset := by
  unfold holding at hh
  split_ifs at hh with hnative hissuer
  · obtain ⟨acc, -, rfl⟩ := Option.map_eq_some_iff.mp hh
    exact hnative
  · cases hh
    exact ⟨hnative, hissuer⟩
  · obtain ⟨tl, htl, rfl⟩ := Option.map_eq_some_iff.mp hh
    exact ⟨hnative, hissuer, ltx.others.trustLine_asset id _ tl htl⟩

theorem holding_putHolding_self (ltx : LedgerTxn Entries) (hfor : h.For id asset) :
    (ltx.putHolding id h).holding id asset = some h := by
  cases h with
  | account acc =>
    obtain rfl := hfor
    simp [holding, putHolding, putAccount]
  | trustLine tl =>
    obtain ⟨hnative, hissuer, htl⟩ := hfor
    simp [holding, putHolding, trustLine, putTrustLine, Entries.putTrustLine, hnative, hissuer, htl]
  | issuer => simp [holding, hfor.1, hfor.2]

/-- Writing one holding leaves every other one alone. -/
theorem holding_putHolding_of_ne (ltx : LedgerTxn Entries) (hfor : h.For id asset)
    {id' : AccountID} {asset' : Asset} (hne : id' ≠ id ∨ asset' ≠ asset) :
    (ltx.putHolding id h).holding id' asset' = ltx.holding id' asset' := by
  cases h with
  | account acc =>
    obtain rfl := hfor
    by_cases hid : id' = id
    · have hasset : asset' ≠ .native := hne.resolve_left (not_not.mpr hid)
      simp [holding, putHolding, putAccount, trustLine, hasset]
    · simp [holding, putHolding, putAccount, trustLine, hid]
  | trustLine tl =>
    obtain ⟨-, -, htl⟩ := hfor
    have hkeep : (ltx.putTrustLine id tl).trustLine id' asset' = ltx.trustLine id' asset' := by
      unfold trustLine putTrustLine Entries.putTrustLine
      by_cases hid : id' = id
      · subst hid
        have hasset : asset' ≠ asset := hne.resolve_left (not_not.mpr rfl)
        simp [htl, hasset]
      · simp [hid]
    unfold holding putHolding
    rw [hkeep]
    rfl
  | issuer => rfl

@[simp] theorem putHolding_header (ltx : LedgerTxn Entries) (id : AccountID) (h : Holding) :
    (ltx.putHolding id h).header = ltx.header := by
  cases h <;> rfl

end LedgerTxn

/-! ## The liabilities of an offer -/

/-- One side of an offer: change what the seller holds of `asset`. -/
def changeLiabilities
    (change : LedgerHeader → Holding → Int64 → Except String (Option Holding)) (refusal : String)
    (ltx : LedgerTxn Entries) (sellerID : AccountID) (asset : Asset) (delta : Int64) :
    Except String (LedgerTxn Entries) :=
  match ltx.holding sellerID asset with
  | none => throw (if asset = .native then "account does not exist" else "trustline does not exist")
  | some h => do
    match ← change ltx.header h delta with
    | none => throw refusal
    | some h => return ltx.putHolding sellerID h

variable (ltx : LedgerTxn Entries) (offer : OfferEntry)

def acquireOrReleaseLiabilities (isAcquire : Bool) : Except String (LedgerTxn Entries) := do
  if offer.buying = offer.selling then throw "buying and selling same asset"
  let buying ← getOfferBuyingLiabilities ltx.header offer
  let ltx ← changeLiabilities Holding.addBuyingLiabilities "could not add buying liabilities" ltx
    offer.sellerID offer.buying (if isAcquire then buying else -buying)
  let selling ← getOfferSellingLiabilities ltx.header offer
  changeLiabilities Holding.addSellingLiabilities "could not add selling liabilities" ltx
    offer.sellerID offer.selling (if isAcquire then selling else -selling)

def acquireLiabilities : Except String (LedgerTxn Entries) :=
  acquireOrReleaseLiabilities ltx offer true

def releaseLiabilities : Except String (LedgerTxn Entries) :=
  acquireOrReleaseLiabilities ltx offer false

end KinesisCore

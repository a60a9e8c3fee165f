import KinesisCore.Ledger

/-!
# Trust lines, offers and pools

The entries an exchange of assets works on, as one value of a `LedgerTxn`. Trust
lines and pools are maps like accounts. The offers are a list, since the
best one is looked for.
-/

namespace KinesisCore

open Function

abbrev PoolID := Hash

inductive Asset where
  | native
  | alphaNum4 (assetCode : BitVec 32) (issuer : AccountID)
  | alphaNum12 (assetCode : BitVec 96) (issuer : AccountID)
  deriving Repr, DecidableEq

/-- `getIssuer`; the native asset has none. -/
def Asset.issuer : Asset → Option AccountID
  | native => none
  | alphaNum4 _ issuer => some issuer
  | alphaNum12 _ issuer => some issuer

/-- What a trust line can hold: an asset or the shares of a pool. -/
inductive TrustLineAsset where
  | asset (asset : Asset)
  | poolShare (liquidityPoolID : PoolID)
  deriving Repr, DecidableEq

structure TrustLineEntryExtensionV1 where
  liabilities : Liabilities
  /-- The only field of the extension after this one. -/
  liquidityPoolUseCount : Option Int32 := none
  deriving Repr, DecidableEq

/-- A trust line. The account it belongs to is part of the key it is stored
under. -/
structure TrustLineEntry where
  asset : TrustLineAsset
  balance : Int64
  limit : Int64
  flags : UInt32
  ext : Option TrustLineEntryExtensionV1 := none
  sponsoringID : Option AccountID := none
  deriving Repr, DecidableEq

/-- A price as a fraction. -/
structure Price where
  n : Int32
  d : Int32
  deriving Repr, DecidableEq

structure OfferEntry where
  sellerID : AccountID
  offerID : Int64
  selling : Asset
  buying : Asset
  amount : Int64
  price : Price
  flags : UInt32 := 0
  sponsoringID : Option AccountID := none
  deriving Repr, DecidableEq

structure LiquidityPoolParameters where
  assetA : Asset
  assetB : Asset
  fee : Int32
  deriving Repr, DecidableEq

structure LiquidityPoolEntry where
  params : LiquidityPoolParameters
  reserveA : Int64
  reserveB : Int64
  totalPoolShares : Int64
  poolSharesTrustLineCount : Int64
  deriving Repr, DecidableEq

/-- What an offer is stored under. -/
def OfferEntry.key (oe : OfferEntry) : AccountID × Int64 := (oe.sellerID, oe.offerID)

/-- The entries beside the accounts. Every one is under its own key, once. -/
structure Entries where
  trustLines : AccountID → TrustLineAsset → Option TrustLineEntry
  offers : List OfferEntry
  pools : PoolID → Option LiquidityPoolEntry
  trustLine_asset : ∀ id asset tl, trustLines id asset = some tl → tl.asset = asset
  offers_unique : offers.Pairwise fun a b => a.key ≠ b.key

namespace Entries

theorem no_offers_unique : ([] : List OfferEntry).Pairwise fun a b => a.key ≠ b.key := .nil

variable (e : Entries)

def putTrustLine (id : AccountID) (tl : TrustLineEntry) : Entries :=
  { e with
    trustLines := update e.trustLines id (update (e.trustLines id) tl.asset (some tl))
    trustLine_asset := by
      intro k asset tl' h
      by_cases hk : k = id
      · subst hk
        rw [update_self] at h
        by_cases hasset : asset = tl.asset
        · subst hasset
          rw [update_self] at h
          rw [← Option.some.inj h]
        · rw [update_of_ne hasset] at h
          exact e.trustLine_asset k asset tl' h
      · rw [update_of_ne hk] at h
        exact e.trustLine_asset k asset tl' h }

def eraseOffer (key : AccountID × Int64) : Entries :=
  { e with
    offers := e.offers.filter (·.key ≠ key)
    offers_unique := e.offers_unique.filter _ }

/-- Write an offer, in place of the one that has its key. -/
def putOffer (oe : OfferEntry) : Entries :=
  { e with
    offers := oe :: e.offers.filter (·.key ≠ oe.key)
    offers_unique := by
      refine List.pairwise_cons.mpr ⟨fun o ho heq => ?_, e.offers_unique.filter _⟩
      rw [List.mem_filter, decide_eq_true_eq] at ho
      exact ho.2 heq.symm }

def putPool (id : PoolID) (pool : LiquidityPoolEntry) : Entries :=
  { e with pools := update e.pools id (some pool) }

end Entries

namespace LedgerTxn

variable (ltx : LedgerTxn Entries) (id : AccountID)

def trustLine (asset : Asset) : Option TrustLineEntry :=
  ltx.others.trustLines id (.asset asset)

/-- Write a trust line back under its key. -/
def putTrustLine (tl : TrustLineEntry) : LedgerTxn Entries :=
  { ltx with others := ltx.others.putTrustLine id tl }

end LedgerTxn

end KinesisCore

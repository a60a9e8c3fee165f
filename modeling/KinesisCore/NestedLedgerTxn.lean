import KinesisCore.KeyedFold
import KinesisCore.LedgerEntries
import KinesisCore.StlMap

/-!
# Nested `LedgerTxn`s (`LedgerTxn.cpp`)

A `LedgerTxn` records what it changes and asks its parent for the rest. Each
recorded entry says whether the key is new to the parent (`init`), a new version
of what the parent has (`live`), or gone (`deleted`). At the bottom stands the
`LedgerTxnRoot`, whose content is the database.

A `Stack` is a root with the open `LedgerTxn`s, the innermost first. Only the
innermost one can be worked on: opening a child deactivates every entry of the
parent, and the parent's operations throw while the child is there.

Accounts, data entries and claimable balances behave alike here, so their keys
and contents are type variables.
-/

namespace KinesisCore.Nested

variable {κ δ : Type}

inductive LedgerKey (κ : Type) where
  | offer (sellerID : AccountID) (offerID : Int64)
  | trustLine (accountID : AccountID) (asset : TrustLineAsset)
  | liquidityPool (liquidityPoolID : PoolID)
  | other (key : κ)
  deriving DecidableEq

inductive InternalLedgerKey (κ : Type) where
  | ledgerKey (key : LedgerKey κ)
  | sponsorship (sponsoredID : AccountID)
  | sponsorshipCounter (sponsoringID : AccountID)
  deriving DecidableEq

instance {κ : Type} [DecidableEq κ] : LawfulBEq (InternalLedgerKey κ) := inferInstance

inductive LedgerEntryData (κ δ : Type) where
  | offer (oe : OfferEntry)
  | trustLine (accountID : AccountID) (tl : TrustLineEntry)
  | liquidityPool (liquidityPoolID : PoolID) (pool : LiquidityPoolEntry)
  | other (key : κ) (data : δ)
  deriving DecidableEq

structure LedgerEntry (κ δ : Type) where
  lastModifiedLedgerSeq : UInt32
  data : LedgerEntryData κ δ
  deriving DecidableEq

inductive InternalLedgerEntry (κ δ : Type) where
  | ledgerEntry (le : LedgerEntry κ δ)
  | sponsorship (sponsoredID sponsoringID : AccountID)
  | sponsorshipCounter (sponsoringID : AccountID) (numSponsoring : Int64)
  deriving DecidableEq

/-- `LedgerEntryKey`. -/
def LedgerEntryData.key : LedgerEntryData κ δ → LedgerKey κ
  | offer oe => .offer oe.sellerID oe.offerID
  | trustLine accountID tl => .trustLine accountID tl.asset
  | liquidityPool id _ => .liquidityPool id
  | other key _ => .other key

def InternalLedgerEntry.toKey : InternalLedgerEntry κ δ → InternalLedgerKey κ
  | ledgerEntry le => .ledgerKey le.data.key
  | sponsorship sponsoredID _ => .sponsorship sponsoredID
  | sponsorshipCounter sponsoringID _ => .sponsorshipCounter sponsoringID

/-- Only these are stored in the database. -/
def InternalLedgerKey.isLedgerEntry : InternalLedgerKey κ → Bool
  | ledgerKey _ => true
  | _ => false

def InternalLedgerKey.isOffer : InternalLedgerKey κ → Bool
  | ledgerKey (.offer _ _) => true
  | _ => false

/-- A `LedgerEntry` whose data is an offer. -/
structure OfferLedgerEntry where
  lastModifiedLedgerSeq : UInt32
  offer : OfferEntry
  deriving DecidableEq

/-- `ledgerEntry()` of an entry that is an offer. -/
def InternalLedgerEntry.offer : InternalLedgerEntry κ δ → Option OfferLedgerEntry
  | ledgerEntry ⟨seq, .offer oe⟩ => some ⟨seq, oe⟩
  | _ => none

/-- `lastModifiedLedgerSeq = ledgerSeq`; the other entries have no such field. -/
def InternalLedgerEntry.stamp (ledgerSeq : UInt32) :
    InternalLedgerEntry κ δ → InternalLedgerEntry κ δ
  | ledgerEntry le => ledgerEntry { le with lastModifiedLedgerSeq := ledgerSeq }
  | e => e

inductive LedgerEntryPtr (κ δ : Type) where
  | init (entry : InternalLedgerEntry κ δ)
  | live (entry : InternalLedgerEntry κ δ)
  | deleted
  deriving DecidableEq

namespace LedgerEntryPtr

def isInit : LedgerEntryPtr κ δ → Bool
  | init _ => true
  | _ => false

def isDeleted : LedgerEntryPtr κ δ → Bool
  | deleted => true
  | _ => false

/-- The entry pointed to; null when it is deleted. -/
def get : LedgerEntryPtr κ δ → Option (InternalLedgerEntry κ δ)
  | init e => some e
  | live e => some e
  | deleted => none

def map (f : InternalLedgerEntry κ δ → InternalLedgerEntry κ δ) :
    LedgerEntryPtr κ δ → LedgerEntryPtr κ δ
  | init e => init (f e)
  | live e => live (f e)
  | deleted => deleted

/-- What `old` becomes when `entryPtr` is recorded over it. -/
def mergeFrom (old entryPtr : LedgerEntryPtr κ δ) : Except String (LedgerEntryPtr κ δ) :=
  match old, entryPtr with
  | init _, deleted => throw "cannot delete non-live entry"
  | init _, init e => pure (init e)
  | init _, live e => pure (init e)
  | live _, init _ => throw "cannot commit a child init entry into a parent live entry"
  | live _, live e => pure (live e)
  | live _, deleted => pure deleted
  | deleted, init e => pure (live e)
  | deleted, live _ => throw "cannot set deleted entry to live"
  | deleted, deleted => throw "cannot delete deleted entry"

end LedgerEntryPtr

abbrev EntryMap (κ δ : Type) := AList fun _ : InternalLedgerKey κ => LedgerEntryPtr κ δ

structure OfferDescriptor where
  price : Price
  offerID : Int64
  deriving DecidableEq

def descriptor (oe : OfferEntry) : OfferDescriptor := ⟨oe.price, oe.offerID⟩

/-- How prices compare. The code compares them as floating-point quotients. -/
class PriceOrder where
  less : Price → Price → Bool
  strictWeak : Stl.StrictWeak less

/-- The prices as fractions, compared exactly. -/
@[reducible] def PriceOrder.exact : PriceOrder where
  less a b := decide ((a.n.toInt / a.d.toInt : ℚ) < b.n.toInt / b.d.toInt)
  strictWeak := {
    asymm := fun a b h => by
      rw [decide_eq_true_eq] at h
      exact decide_eq_false (not_lt_of_gt h)
    split := fun a b c h => by
      rw [decide_eq_true_eq] at h
      rcases lt_or_ge (a.n.toInt / a.d.toInt : ℚ) (b.n.toInt / b.d.toInt) with hab | hab
      · exact .inl (decide_eq_true hab)
      · exact .inr (decide_eq_true (lt_of_le_of_lt hab h)) }

/-- `isBetterOffer`: the lower price, and among equal prices the older offer. -/
def isBetterOffer [PriceOrder] (lhs rhs : OfferDescriptor) : Bool :=
  if PriceOrder.less lhs.price rhs.price then true
  else if PriceOrder.less rhs.price lhs.price then false
  else lhs.offerID < rhs.offerID

/-- The recorded offers of one asset pair that nobody is working on. -/
abbrev OrderBook (κ : Type) := List (OfferDescriptor × LedgerKey κ)

/-- One `LedgerTxn`. An asset pair that is missing from `mMultiOrderBook` has the
empty book. -/
structure Level (κ δ : Type) where
  mEntry : EntryMap κ δ
  /-- The keys handed out by `load` or `create` and not given back yet. -/
  mActive : List (InternalLedgerKey κ)
  mMultiOrderBook : Asset → Asset → OrderBook κ
  /-- How far down the parent's book `loadBestOffer` got; a null descriptor
  means to its end. -/
  mWorstBestOffer : Asset → Asset → Option (Option OfferDescriptor)
  ledgerSeq : UInt32
  shouldUpdateLastModified : Bool

structure BestOffersEntry where
  bestOffers : List OfferLedgerEntry
  allLoaded : Bool

/-- The `LedgerTxnRoot`: the rows of the database and the best offers read from
it so far. -/
structure Root (κ δ : Type) where
  entries : AList fun _ : InternalLedgerKey κ => InternalLedgerEntry κ δ
  mBestOffers : Asset → Asset → Option BestOffersEntry
  ledgerSeq : UInt32

structure Stack (κ δ : Type) where
  root : Root κ δ
  levels : List (Level κ δ)

/-! ## Recording an entry -/

section

variable [DecidableEq κ]

/-- The entry recorded last wins, except that an entry that is new here
vanishes when it is deleted. -/
def recordEntry (m : EntryMap κ δ) (key : InternalLedgerKey κ) (lePtr : LedgerEntryPtr κ δ) :
    Except String (EntryMap κ δ) :=
  match m.lookup key with
  | none => pure (m.insert key lePtr)
  | some old =>
    if lePtr.isDeleted && old.isInit then pure (m.erase key)
    else do
      let merged ← old.mergeFrom lePtr
      return m.insert key merged

variable [PriceOrder] (lvl : Level κ δ) (oe : OfferEntry) (key : InternalLedgerKey κ)
  (lePtr : LedgerEntryPtr κ δ) (effectiveActive : Bool)

/-- `mMultiOrderBook[buying][selling]` replaced. -/
def Level.putOrderBook (buying selling : Asset) (ob : OrderBook κ) : Level κ δ :=
  { lvl with
    mMultiOrderBook := Function.update lvl.mMultiOrderBook buying
      (Function.update (lvl.mMultiOrderBook buying) selling ob) }

def Level.removeFromOrderBookIfExists : Level κ δ :=
  lvl.putOrderBook oe.buying oe.selling
    (Stl.Map.erase isBetterOffer (descriptor oe) (lvl.mMultiOrderBook oe.buying oe.selling))

def Level.addToOrderBook (key : LedgerKey κ) : Level κ δ :=
  lvl.putOrderBook oe.buying oe.selling
    (Stl.Map.emplace isBetterOffer (descriptor oe) key (lvl.mMultiOrderBook oe.buying oe.selling))

/-- The offer that is recorded under `key` at this level. -/
def Level.recordedOffer : Option OfferEntry :=
  ((lvl.mEntry.lookup key).bind LedgerEntryPtr.get).bind fun e => e.offer.map (·.offer)

/-- The order book half of `updateEntry`. The assets of an offer can change, so
the version recorded before goes first. -/
def Level.updateOrderBook (key : LedgerKey κ) (lePtr : LedgerEntryPtr κ δ)
    (effectiveActive : Bool) : Level κ δ :=
  let removed := match lvl.recordedOffer (.ledgerKey key) with
    | some oe => lvl.removeFromOrderBookIfExists oe
    | none => lvl
  if effectiveActive then removed
  else
    match lePtr.get.bind (·.offer) with
    | some le => removed.addToOrderBook le.offer key
    | none => removed

def Level.updateEntry : Except String (Level κ δ) := do
  let mEntry ← recordEntry lvl.mEntry key lePtr
  match key with
  | .ledgerKey (.offer sellerID offerID) =>
    return { lvl.updateOrderBook (.offer sellerID offerID) lePtr effectiveActive with
      mEntry := mEntry }
  | _ => return { lvl with mEntry := mEntry }

def Level.updateEntryIfRecorded : Except String (Level κ δ) :=
  if key.isOffer then
    match lvl.mEntry.lookup key with
    | some lePtr => lvl.updateEntry key lePtr effectiveActive
    | none => pure lvl
  else pure lvl

end

/-! ## Reading -/

section

variable [DecidableEq κ]

/-- `getNewestVersion` at the innermost of `levels`. -/
def newestVersion (root : Root κ δ) :
    List (Level κ δ) → InternalLedgerKey κ → Option (InternalLedgerEntry κ δ)
  | [], key => if key.isLedgerEntry then root.entries.lookup key else none
  | lvl :: rest, key =>
    match lvl.mEntry.lookup key with
    | some lePtr => lePtr.get
    | none => newestVersion root rest key

variable (s : Stack κ δ) (account : AccountID) (asset : Asset)

def Stack.getNewestVersion (key : InternalLedgerKey κ) : Option (InternalLedgerEntry κ δ) :=
  newestVersion s.root s.levels key

/-- The answer to a query: the entries it selects, under their keys. -/
abbrev QueryResult (κ δ : Type) := InternalLedgerKey κ → Option (InternalLedgerEntry κ δ)

/-- The loop of a query over the recorded entries. `visit` says what becomes of
the parent's answer at a recorded key. -/
def Level.overlay (lvl : Level κ δ)
    (visit : InternalLedgerKey κ → LedgerEntryPtr κ δ → Option (InternalLedgerEntry κ δ) →
      Except String (Option (InternalLedgerEntry κ δ)))
    (parents : QueryResult κ δ) : Except String (QueryResult κ δ) :=
  lvl.mEntry.entries.foldlM (fun res kv => do
    let r ← visit kv.1 kv.2 (res kv.1)
    return Function.update res kv.1 r) parents

def allOffers (root : Root κ δ) : List (Level κ δ) → Except String (QueryResult κ δ)
  | [] => pure fun key => if key.isOffer then root.entries.lookup key else none
  | lvl :: rest => do
    let offers ← allOffers root rest
    lvl.overlay (fun key entry old => pure (if key.isOffer then entry.get else old)) offers

def Stack.getAllOffers : Except String (QueryResult κ δ) :=
  allOffers s.root s.levels

/-- An offer of `account` that sells or buys `asset`. -/
def InternalLedgerEntry.isOfferBy (e : InternalLedgerEntry κ δ) : Bool :=
  match e.offer with
  | some le =>
    le.offer.sellerID = account && (le.offer.selling = asset || le.offer.buying = asset)
  | none => false

/-- The root aborts when the asset is the native one. -/
def offersByAccountAndAsset (root : Root κ δ) (account : AccountID) (asset : Asset) :
    List (Level κ δ) → Except String (QueryResult κ δ)
  | [] =>
    if asset = .native then throw "Invalid asset type"
    else pure fun key =>
      if key.isOffer then (root.entries.lookup key).filter (·.isOfferBy account asset) else none
  | lvl :: rest => do
    let offers ← offersByAccountAndAsset root account asset rest
    lvl.overlay (fun key entry old =>
      pure (if key.isOffer then entry.get.filter (·.isOfferBy account asset) else old)) offers

def Stack.getOffersByAccountAndAsset : Except String (QueryResult κ δ) :=
  offersByAccountAndAsset s.root account asset s.levels

/-- The pool whose shares `account` holds under this key. -/
def InternalLedgerKey.poolShareOf : InternalLedgerKey κ → Option PoolID
  | ledgerKey (.trustLine accountID (.poolShare id)) =>
    if accountID = account then some id else none
  | _ => none

/-- Whether `newest` is a pool of which `asset` is one half. -/
def InternalLedgerEntry.isPoolOf : InternalLedgerEntry κ δ → Bool
  | ledgerEntry ⟨_, .liquidityPool _ pool⟩ =>
    pool.params.assetA = asset || pool.params.assetB = asset
  | _ => false

/-- A trust line the parent did not list is looked up by its pool. -/
def visitPoolShare (newest : InternalLedgerKey κ → Option (InternalLedgerEntry κ δ))
    (account : AccountID) (asset : Asset) (key : InternalLedgerKey κ) (entry : LedgerEntryPtr κ δ)
    (old : Option (InternalLedgerEntry κ δ)) : Except String (Option (InternalLedgerEntry κ δ)) :=
  match key.poolShareOf account with
  | none => pure old
  | some id =>
    if entry.isDeleted || old.isSome then pure entry.get
    else
      match newest (.ledgerKey (.liquidityPool id)) with
      | none => throw "Invalid ledger state"
      | some pool => pure (if pool.isPoolOf asset then entry.get else none)

def poolShareTrustLines (root : Root κ δ) (account : AccountID) (asset : Asset) :
    List (Level κ δ) → Except String (QueryResult κ δ)
  | [] => pure fun key =>
    match key.poolShareOf account with
    | none => none
    | some id =>
      -- the rows are joined with those of the pools
      if (root.entries.lookup (.ledgerKey (.liquidityPool id))).any (·.isPoolOf asset) then
        root.entries.lookup key
      else none
  | lvl :: rest => do
    let trustLines ← poolShareTrustLines root account asset rest
    lvl.overlay (visitPoolShare (newestVersion root (lvl :: rest)) account asset) trustLines

def Stack.getPoolShareTrustLinesByAccountAndAsset : Except String (QueryResult κ δ) :=
  poolShareTrustLines s.root account asset s.levels

end

/-! ## Changing -/

section

variable [DecidableEq κ] [PriceOrder] (root : Root κ δ) (lvl : Level κ δ)
  (newest : Option (InternalLedgerEntry κ δ)) (entry : InternalLedgerEntry κ δ)
  (key : InternalLedgerKey κ)

/-- `create` at a level whose parent is seen through `newest`. -/
def Level.create : Except String (Level κ δ) :=
  if newest.isSome then throw "Key already exists"
  else
    ({ lvl with mActive := lvl.mActive.insert entry.toKey }).updateEntry entry.toKey (.init entry)
      true

/-- `load` of a key; `newest` is its newest version. An entry of the parent is
recorded as it is. -/
def Level.load : Except String (Option (InternalLedgerEntry κ δ) × Level κ δ) :=
  if key ∈ lvl.mActive then throw "Key is active"
  else
    match newest with
    | none => pure (none, lvl)
    | some entry => do
      let currentEntryPtr := (lvl.mEntry.lookup key).getD (.live entry)
      let lvl' ← ({ lvl with mActive := lvl.mActive.insert key }).updateEntry key currentEntryPtr
        true
      return (some entry, lvl')

/-- Assigning to `current()` of an active entry writes through its pointer. -/
def Level.modify : Except String (Level κ δ) :=
  if entry.toKey ∈ lvl.mActive then
    match lvl.mEntry.lookup entry.toKey with
    | some (.init _) => pure { lvl with mEntry := lvl.mEntry.insert entry.toKey (.init entry) }
    | some (.live _) => pure { lvl with mEntry := lvl.mEntry.insert entry.toKey (.live entry) }
    | _ => throw "cannot dereference null mEntryPtr"
  else throw "Key is not active"

def Level.deactivate : Except String (Level κ δ) :=
  if key ∈ lvl.mActive then do
    let lvl' ← lvl.updateEntryIfRecorded key false
    return { lvl' with mActive := lvl'.mActive.filter (· ≠ key) }
  else throw "Key is not active"

def Level.erase : Except String (Level κ δ) :=
  if newest.isSome then do
    let lvl' ← lvl.updateEntry key .deleted false
    return { lvl' with mActive := lvl'.mActive.filter (· ≠ key) }
  else throw "Key does not exist"

/-- What `addChild` does to the parent. -/
def Level.addChild : Except String (Level κ δ) := do
  let lvl' ← lvl.mActive.foldlM (fun l key => l.updateEntryIfRecorded key false) lvl
  return { lvl' with mActive := [] }

/-- A `LedgerTxn` just opened. -/
def Level.opened (ledgerSeq : UInt32) (shouldUpdateLastModified : Bool) : Level κ δ where
  mEntry := ∅
  mActive := []
  mMultiOrderBook := fun _ _ => []
  mWorstBestOffer := fun _ _ => none
  ledgerSeq := ledgerSeq
  shouldUpdateLastModified := shouldUpdateLastModified

/-- `maybeUpdateLastModified`, as the entries a commit hands to the parent. -/
def Level.stampedEntries : List (Sigma fun _ : InternalLedgerKey κ => LedgerEntryPtr κ δ) :=
  if lvl.shouldUpdateLastModified then
    lvl.mEntry.entries.map fun kv => ⟨kv.1, kv.2.map (·.stamp lvl.ledgerSeq)⟩
  else lvl.mEntry.entries

/-- `isWorseThan(lhs, rhs)`; a null descriptor is worse than every offer. -/
def isWorseThan (lhs rhs : Option OfferDescriptor) : Bool :=
  match lhs, rhs with
  | _, none => false
  | none, some _ => true
  | some lhs, some rhs => isBetterOffer rhs lhs

/-- The bookmark of an asset pair after `updateWorstBestOffer`. -/
def worseBookmark (old : Option (Option OfferDescriptor)) (offerDesc : Option OfferDescriptor) :
    Option (Option OfferDescriptor) :=
  match old with
  | none => some offerDesc
  | some desc => if isWorseThan offerDesc desc then some offerDesc else some desc

/-- `commitChild` of a `LedgerTxn`. -/
def Level.commitChild (lvl child : Level κ δ) : Except String (Level κ δ) :=
  if lvl.mActive = [] then do
    let lvl' ← child.stampedEntries.foldlM (fun l kv => l.updateEntry kv.1 kv.2 false) lvl
    return { lvl' with
      mWorstBestOffer := fun buying selling =>
        match child.mWorstBestOffer buying selling with
        | none => lvl'.mWorstBestOffer buying selling
        | some desc => worseBookmark (lvl'.mWorstBestOffer buying selling) desc
      ledgerSeq := child.ledgerSeq }
  else throw "Attempting to commit a child while parent has active entries"

omit [PriceOrder] in
/-- One entry written to the database; entries of the sponsorship machinery are
not stored. -/
def Root.applyEntry (lePtr : LedgerEntryPtr κ δ) : Except String (Root κ δ) :=
  if key.isLedgerEntry then
    match lePtr.get with
    | some entry => pure { root with entries := root.entries.insert key entry }
    | none =>
      if (root.entries.lookup key).isSome then pure { root with entries := root.entries.erase key }
      else throw "Could not update data in SQL"
  else pure root

/-- `commitChild` of the root, which forgets the best offers read before. -/
def Root.commitChild (child : Level κ δ) : Except String (Root κ δ) := do
  let root' ← child.stampedEntries.foldlM (fun r kv => r.applyEntry kv.1 kv.2) root
  return { root' with mBestOffers := fun _ _ => none, ledgerSeq := child.ledgerSeq }

end

/-- What can be done with the innermost `LedgerTxn`. -/
inductive Command (κ δ : Type) where
  | openChild (shouldUpdateLastModified : Bool)
  | setLedgerSeq (ledgerSeq : UInt32)
  | create (entry : InternalLedgerEntry κ δ)
  | load (key : InternalLedgerKey κ)
  | modify (entry : InternalLedgerEntry κ δ)
  | deactivate (key : InternalLedgerKey κ)
  | erase (key : InternalLedgerKey κ)
  | commit
  | rollback

section

variable [DecidableEq κ] [PriceOrder] (s : Stack κ δ)

/-- `load` at the innermost `LedgerTxn`. -/
def Stack.load (key : InternalLedgerKey κ) :
    Except String (Option (InternalLedgerEntry κ δ) × Stack κ δ) :=
  match s.levels with
  | [] => throw "no LedgerTxn"
  | lvl :: rest => do
    let (res, lvl') ← lvl.load (s.getNewestVersion key) key
    return (res, { s with levels := lvl' :: rest })

def Stack.openChild (shouldUpdateLastModified : Bool) : Except String (Stack κ δ) :=
  match s.levels with
  | [] => pure { s with levels := [.opened s.root.ledgerSeq shouldUpdateLastModified] }
  | lvl :: rest => do
    let lvl' ← lvl.addChild
    return { s with levels := .opened lvl'.ledgerSeq shouldUpdateLastModified :: lvl' :: rest }

def Stack.commit : Except String (Stack κ δ) :=
  match s.levels with
  | [] => throw "no LedgerTxn"
  | [child] => do
    let root' ← s.root.commitChild child
    return ⟨root', []⟩
  | child :: lvl :: rest => do
    let lvl' ← lvl.commitChild child
    return { s with levels := lvl' :: rest }

/-- Change the innermost level. -/
def Stack.onLevel (f : Level κ δ → Except String (Level κ δ)) : Except String (Stack κ δ) :=
  match s.levels with
  | [] => throw "no LedgerTxn"
  | lvl :: rest => do
    let lvl' ← f lvl
    return { s with levels := lvl' :: rest }

def Stack.step : Command κ δ → Except String (Stack κ δ)
  | .openChild shouldUpdateLastModified => s.openChild shouldUpdateLastModified
  | .setLedgerSeq seq => s.onLevel fun lvl => pure { lvl with ledgerSeq := seq }
  | .create entry => s.onLevel fun lvl => lvl.create (s.getNewestVersion entry.toKey) entry
  | .load key => do
    let (_, s') ← s.load key
    return s'
  | .modify entry => s.onLevel fun lvl => lvl.modify entry
  | .deactivate key => s.onLevel fun lvl => lvl.deactivate key
  | .erase key => s.onLevel fun lvl => lvl.erase (s.getNewestVersion key) key
  | .commit => s.commit
  | .rollback =>
    match s.levels with
    | [] => throw "no LedgerTxn"
    | _ :: rest => pure { s with levels := rest }

def Stack.run (cmds : List (Command κ δ)) : Except String (Stack κ δ) :=
  cmds.foldlM Stack.step s

end

end KinesisCore.Nested

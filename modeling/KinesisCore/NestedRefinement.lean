import KinesisCore.NestedLedgerTxn

/-!
# Nested `LedgerTxn`s are copies of a map

The plain reading of nested transactions: opening a child copies the map, a
commit puts the child's copy in the place of the parent's, a rollback drops it.
The levels of a `Stack` hold differences instead. A level fits what is below it
if an `init` is recorded only for a key that is missing there and the other two
tags only for a key that is present (`LedgerEntryPtr.Fits`); recording an entry
then never throws and keeps the tags right (`recordAt_fits`).

A commit stamps every entry it hands on with the sequence number of the ledger,
so the two readings agree on everything but that field.

The argument goes up in three steps. For one key, `overlaid` says what is seen
through a record. For one level, `Level.Shows` ties it to its copy, and each
operation on levels keeps the two tied or throws on both sides. For a stack,
`Stack.Shows.step` puts the levels together, where only opening and committing
concern two of them, and `Stack.Shows.run` is the induction over commands.
-/

namespace KinesisCore.Nested

open Function LedgerEntryPtr List Level AList

variable {κ δ : Type}

/-! ## One key -/

/-- What is seen at a key where `below` is seen underneath and `recorded` is
recorded. -/
def overlaid (below : Option (InternalLedgerEntry κ δ)) :
    Option (LedgerEntryPtr κ δ) → Option (InternalLedgerEntry κ δ)
  | none => below
  | some lePtr => lePtr.get

variable {lePtr : LedgerEntryPtr κ δ} {below : Option (InternalLedgerEntry κ δ)}

namespace LedgerEntryPtr

/-- The tag says whether the key exists underneath. -/
def Fits (lePtr : LedgerEntryPtr κ δ) (below : Option (InternalLedgerEntry κ δ)) : Prop :=
  lePtr.isInit = below.isNone

variable {e : InternalLedgerEntry κ δ}

@[simp] theorem fits_init : (init e).Fits below ↔ below = none := by
  cases below <;> simp [Fits, isInit]

@[simp] theorem fits_live : (live e).Fits below ↔ below.isSome := by
  cases below <;> simp [Fits, isInit]

@[simp] theorem fits_deleted :
    (deleted : LedgerEntryPtr κ δ).Fits below ↔ below.isSome := by
  cases below <;> simp [Fits, isInit]

theorem fits_map {f : InternalLedgerEntry κ δ → InternalLedgerEntry κ δ} :
    (lePtr.map f).Fits below ↔ lePtr.Fits below := by
  cases lePtr <;> rfl

theorem get_map (f : InternalLedgerEntry κ δ → InternalLedgerEntry κ δ)
    (lePtr : LedgerEntryPtr κ δ) : (lePtr.map f).get = lePtr.get.map f := by
  cases lePtr <;> rfl

theorem isDeleted_eq_isNone (lePtr : LedgerEntryPtr κ δ) :
    lePtr.isDeleted = lePtr.get.isNone := by
  cases lePtr <;> rfl

theorem not_isDeleted_of_get (h : lePtr.get = some e) : lePtr.isDeleted = false := by
  rw [isDeleted_eq_isNone, h]
  rfl

end LedgerEntryPtr

/-- What `recordEntry` leaves at the key. -/
def recordAt (old : Option (LedgerEntryPtr κ δ)) (lePtr : LedgerEntryPtr κ δ) :
    Except String (Option (LedgerEntryPtr κ δ)) :=
  match old with
  | none => pure (some lePtr)
  | some old =>
    if lePtr.isDeleted && old.isInit then pure none
    else (old.mergeFrom lePtr).map some

/-- Recorded entries fit what is below them. -/
def RecordFits (below : Option (InternalLedgerEntry κ δ)) (old : Option (LedgerEntryPtr κ δ)) :
    Prop :=
  ∀ lePtr, old = some lePtr → lePtr.Fits below

@[simp] theorem recordFits_some : RecordFits below (some lePtr) ↔ lePtr.Fits below := by
  simp [RecordFits]

variable {old : Option (LedgerEntryPtr κ δ)}

/-- What fits what is seen can be recorded: it is then seen, and the result fits
what is below. -/
theorem recordAt_fits (hold : RecordFits below old) (hnew : lePtr.Fits (overlaid below old)) :
    ∃ r, recordAt old lePtr = .ok r ∧ RecordFits below r ∧ overlaid below r = lePtr.get := by
  cases old with
  | none => exact ⟨some lePtr, rfl, recordFits_some.mpr hnew, rfl⟩
  | some p =>
    have hp := hold p rfl
    cases p with
    | init e =>
      have hbelow := fits_init.mp hp
      cases lePtr with
      | init e' => cases fits_init.mp hnew
      | live e' => exact ⟨some (.init e'), rfl, by simpa using hbelow, rfl⟩
      | deleted => exact ⟨none, rfl, nofun, hbelow⟩
    | live e =>
      have hbelow := fits_live.mp hp
      cases lePtr with
      | init e' => cases fits_init.mp hnew
      | live e' => exact ⟨some (.live e'), rfl, by simpa using hbelow, rfl⟩
      | deleted => exact ⟨some .deleted, rfl, by simpa using hbelow, rfl⟩
    | deleted =>
      have hbelow := fits_deleted.mp hp
      cases lePtr with
      | init e' => exact ⟨some (.live e'), rfl, by simpa using hbelow, rfl⟩
      | live e' => cases fits_live.mp hnew
      | deleted => cases fits_deleted.mp hnew

/-- Recording an entry over itself, as `load` and `deactivate` do. -/
theorem recordAt_self (h : lePtr.isDeleted = false) :
    recordAt (some lePtr) lePtr = .ok (some lePtr) := by
  cases lePtr with
  | init e => rfl
  | live e => rfl
  | deleted => cases h

/-- An entry that is recorded and not deleted is there afterwards. -/
theorem recordAt_present {r : Option (LedgerEntryPtr κ δ)}
    (hnew : lePtr.isDeleted = false) (h : recordAt old lePtr = .ok r) :
    ∃ p, r = some p ∧ p.isDeleted = false := by
  cases old with
  | none =>
    cases h
    exact ⟨lePtr, rfl, hnew⟩
  | some old =>
    cases old <;> cases lePtr <;> cases h <;> first | exact ⟨_, rfl, rfl⟩ | cases hnew

/-! ## One level -/

section

variable [DecidableEq κ]

theorem recordEntry_eq (m : EntryMap κ δ) (key : InternalLedgerKey κ) (lePtr : LedgerEntryPtr κ δ) :
    recordEntry m key lePtr = (recordAt (m.lookup key) lePtr).map fun
      | some p => m.insert key p
      | none => m.erase key := by
  unfold recordEntry recordAt
  cases m.lookup key with
  | none => rfl
  | some old =>
    dsimp only
    split_ifs with h
    · rfl
    · cases old.mergeFrom lePtr with
      | error e => rfl
      | ok p => rfl

/-- `lvl'` is `lvl` with `r` recorded at `key`, whatever became of the order book. -/
structure Level.Writes (lvl lvl' : Level κ δ) (key : InternalLedgerKey κ)
    (r : Option (LedgerEntryPtr κ δ)) : Prop where
  lookup : ∀ k, lvl'.mEntry.lookup k = if k = key then r else lvl.mEntry.lookup k
  active : lvl'.mActive = lvl.mActive
  bookmarks : lvl'.mWorstBestOffer = lvl.mWorstBestOffer
  ledgerSeq : lvl'.ledgerSeq = lvl.ledgerSeq
  stamps : lvl'.shouldUpdateLastModified = lvl.shouldUpdateLastModified

variable [PriceOrder]

variable (lvl : Level κ δ)

/-- Only the order book changes. -/
theorem Level.updateOrderBook_eq (key : LedgerKey κ) (lePtr : LedgerEntryPtr κ δ)
    (effectiveActive : Bool) :
    ∃ book, lvl.updateOrderBook key lePtr effectiveActive =
      { lvl with mMultiOrderBook := book } := by
  unfold updateOrderBook
  cases lvl.recordedOffer (.ledgerKey key) <;> cases effectiveActive <;>
    cases lePtr.get.bind (·.offer) <;> exact ⟨_, rfl⟩

theorem Level.updateEntry_eq (key : InternalLedgerKey κ)
    (lePtr : LedgerEntryPtr κ δ) (effectiveActive : Bool) :
    ∃ book, lvl.updateEntry key lePtr effectiveActive = (recordEntry lvl.mEntry key lePtr).map
      fun m => { lvl with mEntry := m, mMultiOrderBook := book } := by
  unfold updateEntry
  split
  · rename_i sellerID offerID
    obtain ⟨book, hbook⟩ := lvl.updateOrderBook_eq (.offer sellerID offerID) lePtr effectiveActive
    refine ⟨book, ?_⟩
    rw [hbook]
    cases recordEntry lvl.mEntry _ lePtr with
    | error e => rfl
    | ok m => rfl
  · refine ⟨lvl.mMultiOrderBook, ?_⟩
    cases recordEntry lvl.mEntry _ lePtr with
    | error e => rfl
    | ok m => rfl

/-- What can be recorded at the key is recorded. -/
theorem Level.updateEntry_writes {key : InternalLedgerKey κ}
    {r : Option (LedgerEntryPtr κ δ)} (effectiveActive : Bool)
    (h : recordAt (lvl.mEntry.lookup key) lePtr = .ok r) :
    ∃ lvl', lvl.updateEntry key lePtr effectiveActive = .ok lvl' ∧ lvl.Writes lvl' key r := by
  obtain ⟨book, hbook⟩ := lvl.updateEntry_eq key lePtr effectiveActive
  rw [recordEntry_eq, h] at hbook
  refine ⟨_, hbook, ?_, rfl, rfl, rfl, rfl⟩
  cases r with
  | none => exact lookup_erase_ite
  | some p => exact lookup_insert_ite

end

/-! ## The plain reading -/

/-- An entry without the mark of the ledger that wrote it last. -/
def InternalLedgerEntry.unstamped (e : InternalLedgerEntry κ δ) : InternalLedgerEntry κ δ :=
  e.stamp 0

@[simp] theorem InternalLedgerEntry.unstamped_stamp (e : InternalLedgerEntry κ δ) (seq : UInt32) :
    (e.stamp seq).unstamped = e.unstamped := by
  cases e <;> rfl

/-- A copy of the whole map, and the keys handed out. -/
structure PlainLevel (κ δ : Type) where
  map : QueryResult κ δ
  active : List (InternalLedgerKey κ)

structure PlainStack (κ δ : Type) where
  root : QueryResult κ δ
  levels : List (PlainLevel κ δ)

section

variable [DecidableEq κ]

namespace PlainLevel

variable (p : PlainLevel κ δ) (entry : InternalLedgerEntry κ δ) (key : InternalLedgerKey κ)

def create : Except String (PlainLevel κ δ) :=
  if (p.map entry.toKey).isSome then throw "Key already exists"
  else pure ⟨update p.map entry.toKey (some entry.unstamped), p.active.insert entry.toKey⟩

def load : Except String (Option (InternalLedgerEntry κ δ) × PlainLevel κ δ) :=
  if key ∈ p.active then throw "Key is active"
  else if (p.map key).isSome then pure (p.map key, { p with active := p.active.insert key })
  else pure (none, p)

def modify : Except String (PlainLevel κ δ) :=
  if entry.toKey ∈ p.active then
    pure { p with map := update p.map entry.toKey (some entry.unstamped) }
  else throw "Key is not active"

def deactivate : Except String (PlainLevel κ δ) :=
  if key ∈ p.active then pure { p with active := p.active.filter (· ≠ key) }
  else throw "Key is not active"

def erase : Except String (PlainLevel κ δ) :=
  if (p.map key).isSome then
    pure ⟨update p.map key none, p.active.filter (· ≠ key)⟩
  else throw "Key does not exist"

end PlainLevel

namespace PlainStack

variable (a : PlainStack κ δ)

/-- The map of the innermost level. -/
def current : QueryResult κ δ :=
  match a.levels with
  | [] => a.root
  | p :: _ => p.map

def load (key : InternalLedgerKey κ) :
    Except String (Option (InternalLedgerEntry κ δ) × PlainStack κ δ) :=
  match a.levels with
  | [] => throw "no LedgerTxn"
  | p :: rest => do
    let (res, p') ← p.load key
    return (res, { a with levels := p' :: rest })

/-- Opening a child copies the map and takes back what the parent handed out. -/
def openChild : PlainStack κ δ :=
  match a.levels with
  | [] => { a with levels := [⟨a.root, []⟩] }
  | p :: rest => { a with levels := ⟨p.map, []⟩ :: { p with active := [] } :: rest }

/-- A commit replaces the parent's copy. The root keeps ledger entries alone. -/
def commit : Except String (PlainStack κ δ) :=
  match a.levels with
  | [] => throw "no LedgerTxn"
  | [child] => pure ⟨fun key => if key.isLedgerEntry then child.map key else none, []⟩
  | child :: p :: rest => pure { a with levels := { p with map := child.map } :: rest }

def onLevel (f : PlainLevel κ δ → Except String (PlainLevel κ δ)) :
    Except String (PlainStack κ δ) :=
  match a.levels with
  | [] => throw "no LedgerTxn"
  | p :: rest => do
    let p' ← f p
    return { a with levels := p' :: rest }

def step : Command κ δ → Except String (PlainStack κ δ)
  | .openChild _ => pure a.openChild
  | .setLedgerSeq _ => a.onLevel pure
  | .create entry => a.onLevel (·.create entry)
  | .load key => do
    let (_, a') ← a.load key
    return a'
  | .modify entry => a.onLevel (·.modify entry)
  | .deactivate key => a.onLevel (·.deactivate key)
  | .erase key => a.onLevel (·.erase key)
  | .commit => a.commit
  | .rollback =>
    match a.levels with
    | [] => throw "no LedgerTxn"
    | _ :: rest => pure { a with levels := rest }

def run (cmds : List (Command κ δ)) : Except String (PlainStack κ δ) :=
  cmds.foldlM step a

end PlainStack

/-- The plain reading of the content of a root. -/
def Root.plain (root : Root κ δ) : QueryResult κ δ :=
  fun key => (newestVersion root [] key).map (·.unstamped)

end

/-! ## A level and its copy -/

section

variable [DecidableEq κ]

/-- A level over `below` shows what the copy `p` holds. -/
structure Level.Shows (lvl : Level κ δ) (below : QueryResult κ δ) (p : PlainLevel κ δ) : Prop where
  fits : ∀ key, RecordFits (below key) (lvl.mEntry.lookup key)
  map : ∀ key, p.map key = (overlaid (below key) (lvl.mEntry.lookup key)).map (·.unstamped)
  active : p.active = lvl.mActive
  /-- What is handed out is recorded. -/
  recorded : ∀ key ∈ lvl.mActive, ∃ lePtr, lvl.mEntry.lookup key = some lePtr ∧
    lePtr.isDeleted = false

variable {lvl lvl' : Level κ δ} {below : QueryResult κ δ} {p : PlainLevel κ δ}
  {key : InternalLedgerKey κ} {r : Option (LedgerEntryPtr κ δ)}

section Level

variable (h : lvl.Shows below p)
include h

theorem Level.Shows.isSome_map (key : InternalLedgerKey κ) :
    (p.map key).isSome = (overlaid (below key) (lvl.mEntry.lookup key)).isSome := by
  rw [h.map, Option.isSome_map]

/-- Recording at one key is an update of the copy at that key. -/
theorem Level.Shows.write
    (hlookup : ∀ k, lvl'.mEntry.lookup k = if k = key then r else lvl.mEntry.lookup k)
    (hr : RecordFits (below key) r) (hactive : ∀ k ∈ lvl'.mActive,
      (k = key ∧ ∃ lePtr, r = some lePtr ∧ lePtr.isDeleted = false) ∨ (k ≠ key ∧ k ∈ lvl.mActive)) :
    lvl'.Shows below
      ⟨update p.map key ((overlaid (below key) r).map (·.unstamped)), lvl'.mActive⟩ where
  fits k := by
    rw [hlookup]
    split_ifs with hk
    · rw [hk]
      exact hr
    · exact h.fits k
  map k := by
    show update p.map key _ k = _
    rw [hlookup]
    by_cases hk : k = key
    · subst hk
      rw [update_self, if_pos rfl]
    · rw [update_of_ne hk, if_neg hk]
      exact h.map k
  active := rfl
  recorded k hk := by
    rw [hlookup]
    rcases hactive k hk with ⟨rfl, hrec⟩ | ⟨hne, hmem⟩
    · rw [if_pos rfl]
      exact hrec
    · rw [if_neg hne]
      exact h.recorded k hmem

/-- The same entries, handed out or not, are the same map. -/
theorem Level.Shows.keep (hlookup : ∀ k, lvl'.mEntry.lookup k = lvl.mEntry.lookup k)
    (hactive : ∀ k ∈ lvl'.mActive, ∃ lePtr, lvl.mEntry.lookup k = some lePtr ∧
      lePtr.isDeleted = false) : lvl'.Shows below { p with active := lvl'.mActive } where
  fits k := by
    rw [hlookup]
    exact h.fits k
  map k := by
    rw [hlookup]
    exact h.map k
  active := rfl
  recorded k hk := by
    rw [hlookup]
    exact hactive k hk

variable [PriceOrder]

variable (entry : InternalLedgerEntry κ δ)

theorem Level.Shows.create : Except.Rel (·.Shows below ·)
      (lvl.create (overlaid (below entry.toKey) (lvl.mEntry.lookup entry.toKey)) entry)
      (p.create entry) := by
  unfold Level.create PlainLevel.create
  rw [h.isSome_map]
  cases hnew : overlaid (below entry.toKey) (lvl.mEntry.lookup entry.toKey) with
  | some e => exact .error _
  | none =>
    obtain ⟨r, hr, hfits, hover⟩ := recordAt_fits (h.fits entry.toKey)
      (fits_init.mpr hnew : (LedgerEntryPtr.init entry).Fits _)
    obtain ⟨lvl', hlvl', hw⟩ :=
      ({ lvl with mActive := lvl.mActive.insert entry.toKey } : Level κ δ).updateEntry_writes
        true hr
    simp only [Option.isSome_none, Bool.false_eq_true, if_false, hlvl']
    refine .ok ?_
    have hshow := h.write hw.lookup hfits fun k hk => ?_
    · rw [hover, hw.active] at hshow
      rw [h.active]
      exact hshow
    · rw [hw.active] at hk
      by_cases hkey : k = entry.toKey
      · exact .inl ⟨hkey, recordAt_present rfl hr⟩
      · exact .inr ⟨hkey, (mem_insert_iff.mp hk).resolve_left hkey⟩

/-- What a `load` answers, up to the stamp, and what it leaves. -/
def LoadShows (below : QueryResult κ δ) (x : Option (InternalLedgerEntry κ δ) × Level κ δ)
    (y : Option (InternalLedgerEntry κ δ) × PlainLevel κ δ) : Prop :=
  x.1.map (·.unstamped) = y.1 ∧ x.2.Shows below y.2

theorem Level.Shows.load (key : InternalLedgerKey κ) :
    Except.Rel (LoadShows below)
      (lvl.load (overlaid (below key) (lvl.mEntry.lookup key)) key) (p.load key) := by
  unfold Level.load PlainLevel.load
  rw [h.active, h.isSome_map]
  by_cases hact : key ∈ lvl.mActive
  · rw [if_pos hact, if_pos hact]
    exact .error _
  rw [if_neg hact, if_neg hact]
  cases hnew : overlaid (below key) (lvl.mEntry.lookup key) with
  | none => exact .ok ⟨rfl, h⟩
  | some entry =>
    -- what is recorded stays; what is not is recorded as it is seen
    have hptr : ∃ lePtr, (lvl.mEntry.lookup key).getD (.live entry) = lePtr ∧
        recordAt (lvl.mEntry.lookup key) lePtr = .ok (some lePtr) ∧
        RecordFits (below key) (some lePtr) ∧ lePtr.get = some entry := by
      cases hlook : lvl.mEntry.lookup key with
      | none =>
        rw [hlook] at hnew
        refine ⟨.live entry, rfl, rfl, ?_, rfl⟩
        simp [show below key = some entry from hnew]
      | some lePtr =>
        rw [hlook] at hnew
        have hget : lePtr.get = some entry := hnew
        refine ⟨lePtr, rfl, recordAt_self (not_isDeleted_of_get hget), ?_, hget⟩
        exact hlook ▸ h.fits key
    obtain ⟨lePtr, hgetD, hrec, hfits, hget⟩ := hptr
    obtain ⟨lvl', hlvl', hw⟩ :=
      ({ lvl with mActive := lvl.mActive.insert key } : Level κ δ).updateEntry_writes true hrec
    simp only [hgetD, hlvl', Option.isSome_some, if_true]
    refine .ok ⟨?_, ?_⟩
    · rw [h.map, hnew]
    · have hshow := h.write hw.lookup hfits fun k hk => ?_
      · have hsame : (overlaid (below key) (some lePtr)).map (·.unstamped) = p.map key := by
          rw [h.map, hnew, show overlaid (below key) (some lePtr) = some entry from hget]
        rw [hsame, update_eq_self, hw.active] at hshow
        exact hshow
      · rw [hw.active] at hk
        by_cases hkey : k = key
        · exact .inl ⟨hkey, lePtr, rfl, not_isDeleted_of_get hget⟩
        · exact .inr ⟨hkey, (mem_insert_iff.mp hk).resolve_left hkey⟩

omit [PriceOrder] in
theorem Level.Shows.modify : Except.Rel (·.Shows below ·) (lvl.modify entry) (p.modify entry) := by
  unfold Level.modify PlainLevel.modify
  rw [h.active]
  by_cases hact : entry.toKey ∈ lvl.mActive
  swap
  · rw [if_neg hact, if_neg hact]
    exact .error _
  rw [if_pos hact, if_pos hact]
  obtain ⟨lePtr, hlook, hlive⟩ := h.recorded _ hact
  -- writing through the pointer keeps its tag
  have hwrite : ∀ new : LedgerEntryPtr κ δ, new.get = some entry → new.isInit = lePtr.isInit →
      ({ lvl with mEntry := lvl.mEntry.insert entry.toKey new } : Level κ δ).Shows below
        ⟨update p.map entry.toKey (some entry.unstamped), lvl.mActive⟩ := by
    intro new hget htag
    have hfits : RecordFits (below entry.toKey) (some new) := by
      rw [recordFits_some, LedgerEntryPtr.Fits, htag]
      exact h.fits _ lePtr hlook
    have hseen : some entry.unstamped =
        (overlaid (below entry.toKey) (some new)).map (·.unstamped) := by
      rw [show overlaid (below entry.toKey) (some new) = some entry from hget]
      rfl
    rw [hseen]
    refine h.write lookup_insert_ite hfits fun k hk => ?_
    by_cases hkey : k = entry.toKey
    · exact .inl ⟨hkey, new, rfl, not_isDeleted_of_get hget⟩
    · exact .inr ⟨hkey, hk⟩
  rw [hlook]
  cases lePtr with
  | init e => exact .ok (hwrite (.init entry) rfl rfl)
  | live e => exact .ok (hwrite (.live entry) rfl rfl)
  | deleted => cases hlive

omit h in
/-- Refreshing the order book changes no entry. -/
theorem Level.updateEntryIfRecorded_keeps (hlook : lvl.mEntry.lookup key = some lePtr)
    (hlive : lePtr.isDeleted = false) :
    ∃ lvl', lvl.updateEntryIfRecorded key false = .ok lvl' ∧
      lvl.Writes lvl' key (lvl.mEntry.lookup key) := by
  unfold updateEntryIfRecorded
  by_cases hoffer : key.isOffer
  · have hrec : recordAt (lvl.mEntry.lookup key) lePtr = .ok (some lePtr) := by
      rw [hlook]
      exact recordAt_self hlive
    rw [if_pos hoffer, hlook]
    exact lvl.updateEntry_writes false hrec
  · rw [if_neg hoffer]
    exact ⟨lvl, rfl, lookup_self_ite, rfl, rfl, rfl, rfl⟩

omit h [PriceOrder] in
theorem Level.Writes.lookup_same (h : lvl.Writes lvl' key (lvl.mEntry.lookup key))
    (k : InternalLedgerKey κ) : lvl'.mEntry.lookup k = lvl.mEntry.lookup k := by
  rw [h.lookup]
  exact (lookup_self_ite k).symm

theorem Level.Shows.deactivate (key : InternalLedgerKey κ) :
    Except.Rel (·.Shows below ·) (lvl.deactivate key) (p.deactivate key) := by
  unfold Level.deactivate PlainLevel.deactivate
  rw [h.active]
  by_cases hact : key ∈ lvl.mActive
  swap
  · rw [if_neg hact, if_neg hact]
    exact .error _
  rw [if_pos hact, if_pos hact]
  obtain ⟨lePtr, hlook, hlive⟩ := h.recorded _ hact
  obtain ⟨lvl₁, hlvl₁, hw⟩ := updateEntryIfRecorded_keeps hlook hlive
  rw [hlvl₁]
  refine .ok ?_
  rw [← hw.active]
  refine h.keep hw.lookup_same fun k hk => ?_
  rw [hw.active] at hk
  exact h.recorded k (mem_filter.mp hk).1

theorem Level.Shows.erase (key : InternalLedgerKey κ) :
    Except.Rel (·.Shows below ·)
      (lvl.erase (overlaid (below key) (lvl.mEntry.lookup key)) key) (p.erase key) := by
  unfold Level.erase PlainLevel.erase
  rw [h.isSome_map]
  by_cases hnew : (overlaid (below key) (lvl.mEntry.lookup key)).isSome
  swap
  · rw [if_neg hnew, if_neg hnew]
    exact .error _
  rw [if_pos hnew, if_pos hnew]
  obtain ⟨r, hr, hfits, hover⟩ := recordAt_fits (h.fits key)
    (fits_deleted.mpr hnew : (LedgerEntryPtr.deleted : LedgerEntryPtr κ δ).Fits _)
  obtain ⟨lvl₁, hlvl₁, hw⟩ := lvl.updateEntry_writes false hr
  rw [hlvl₁]
  have hseen : none = (overlaid (below key) r).map (·.unstamped) := by
    rw [hover]
    rfl
  refine .ok ?_
  rw [h.active, ← hw.active, hseen]
  refine h.write hw.lookup hfits fun k hk => ?_
  rw [hw.active] at hk
  obtain ⟨hmem, hne⟩ := mem_filter.mp hk
  exact .inr ⟨of_decide_eq_true hne, hmem⟩

/-! ## Children

A commit is a loop over the child's records, each written into the parent. Keys do not
interfere (`foldlM_keyed`), so the loop is read off key by key. -/

theorem Level.Shows.addChild :
    ∃ lvl', lvl.addChild = .ok lvl' ∧ (∀ k, lvl'.mEntry.lookup k = lvl.mEntry.lookup k) ∧
      lvl'.mActive = [] ∧ lvl'.Shows below { p with active := [] } := by
  obtain ⟨lvl₁, hlvl₁, hsame⟩ := foldlM_succeeds
    (I := fun l : Level κ δ => ∀ k, l.mEntry.lookup k = lvl.mEntry.lookup k)
    (f := fun l key => l.updateEntryIfRecorded key false) (l := lvl.mActive)
    (fun l hl key hkey => by
      obtain ⟨lePtr, hlook, hlive⟩ := h.recorded key hkey
      rw [← hl] at hlook
      obtain ⟨l', hl', hw⟩ := updateEntryIfRecorded_keeps hlook hlive
      exact ⟨l', hl', fun k => (hw.lookup_same k).trans (hl k)⟩) fun _ => rfl
  refine ⟨{ lvl₁ with mActive := [] }, ?_, hsame, rfl, h.keep hsame fun k hk => ?_⟩
  · unfold Level.addChild
    rw [hlvl₁]
    rfl
  · cases hk

end Level

/-- What a commit does to a recorded entry before it hands it on. -/
def Level.stamped (lvl : Level κ δ) (lePtr : LedgerEntryPtr κ δ) : LedgerEntryPtr κ δ :=
  if lvl.shouldUpdateLastModified then lePtr.map (·.stamp lvl.ledgerSeq) else lePtr

omit [DecidableEq κ] in
theorem Level.stamped_fits (lvl : Level κ δ) {below : Option (InternalLedgerEntry κ δ)} :
    (lvl.stamped lePtr).Fits below ↔ lePtr.Fits below := by
  unfold Level.stamped
  split_ifs
  · exact fits_map
  · rfl

omit [DecidableEq κ] in
theorem Level.stamped_get (lvl : Level κ δ) (lePtr : LedgerEntryPtr κ δ) :
    (lvl.stamped lePtr).get.map (·.unstamped) = lePtr.get.map (·.unstamped) := by
  unfold Level.stamped
  split_ifs
  · rw [get_map, Option.map_map]
    congr 1
    funext e
    exact e.unstamped_stamp _
  · rfl

omit [DecidableEq κ] in
theorem Level.stampedEntries_eq (lvl : Level κ δ) :
    lvl.stampedEntries = lvl.mEntry.entries.map (.map id fun _ => lvl.stamped) := by
  unfold stampedEntries Level.stamped
  split_ifs with h
  · rfl
  · exact (map_id _).symm

omit [DecidableEq κ] in
theorem Level.nodupKeys_stampedEntries (lvl : Level κ δ) : lvl.stampedEntries.NodupKeys := by
  rw [lvl.stampedEntries_eq, List.NodupKeys, map₂_keys]
  exact lvl.mEntry.nodupKeys

theorem Level.dlookup_stampedEntries (lvl : Level κ δ) (key : InternalLedgerKey κ) :
    lvl.stampedEntries.dlookup key = (lvl.mEntry.lookup key).map lvl.stamped := by
  rw [lvl.stampedEntries_eq]
  exact dlookup_map₂ key

/-- Every entry a commit hands on fits what the parent shows. -/
theorem Level.Shows.stampedEntries_fit (h : lvl.Shows below p)
    {kv : Sigma fun _ : InternalLedgerKey κ => LedgerEntryPtr κ δ}
    (hkv : kv ∈ lvl.stampedEntries) : kv.2.Fits (below kv.1) := by
  have hlook := mem_dlookup lvl.nodupKeys_stampedEntries hkv
  rw [lvl.dlookup_stampedEntries, Option.mem_def, Option.map_eq_some_iff] at hlook
  obtain ⟨lePtr, hlook, hst⟩ := hlook
  rw [← hst, lvl.stamped_fits]
  exact h.fits kv.1 lePtr hlook

variable [PriceOrder]

theorem Level.updateEntry_frame {effectiveActive : Bool}
    (h : lvl.updateEntry key lePtr effectiveActive = .ok lvl') :
    lvl'.mActive = lvl.mActive ∧ lvl'.mWorstBestOffer = lvl.mWorstBestOffer := by
  obtain ⟨book, hbook⟩ := lvl.updateEntry_eq key lePtr effectiveActive
  rw [hbook, Except.map_eq_ok] at h
  obtain ⟨m, -, rfl⟩ := h
  exact ⟨rfl, rfl⟩

variable {c : PlainLevel κ δ} {child : Level κ δ}

/-- The loop of a commit, key by key. -/
theorem Level.Shows.commit_loop (h : lvl.Shows below p)
    (hc : child.Shows (fun k => overlaid (below k) (lvl.mEntry.lookup k)) c) :
    ∃ lvl', child.stampedEntries.foldlM (fun l kv => l.updateEntry kv.1 kv.2 false) lvl = .ok lvl' ∧
      (lvl'.mActive = lvl.mActive ∧ lvl'.mWorstBestOffer = lvl.mWorstBestOffer) ∧
      ∀ k, RecordFits (below k) (lvl'.mEntry.lookup k) ∧
        (overlaid (below k) (lvl'.mEntry.lookup k)).map (·.unstamped) = c.map k := by
  -- a step records what fits, and leaves the other keys alone
  obtain ⟨lvl', hlvl', hlook⟩ := foldlM_keyed
    (fun (l : Level κ δ) k => l.mEntry.lookup k) (fun l k v => l.updateEntry k v false)
    (fun _ v old => (recordAt old v).toOption.join)
    (fun k v old => RecordFits (below k) old ∧ v.Fits (overlaid (below k) old))
    (fun l k v ⟨hold, hv⟩ => by
      obtain ⟨r, hr, -⟩ := recordAt_fits hold hv
      obtain ⟨l', hl', hw⟩ := l.updateEntry_writes false hr
      refine ⟨l', hl', fun k' => ?_⟩
      rw [hr]
      exact hw.lookup k')
    child.stampedEntries lvl child.nodupKeys_stampedEntries
    (fun kv hkv => ⟨h.fits kv.1, hc.stampedEntries_fit hkv⟩)
  have hframe := foldlM_keeps
    (I := fun l : Level κ δ => l.mActive = lvl.mActive ∧ l.mWorstBestOffer = lvl.mWorstBestOffer)
    (fun l hl kv _ l' hl' => by
      obtain ⟨hact, hbook⟩ := updateEntry_frame hl'
      exact ⟨hact.trans hl.1, hbook.trans hl.2⟩) ⟨rfl, rfl⟩ hlvl'
  refine ⟨lvl', hlvl', hframe, fun k => ?_⟩
  rw [hlook, child.dlookup_stampedEntries, hc.map]
  cases hk : child.mEntry.lookup k with
  | none => exact ⟨h.fits k, rfl⟩
  | some lePtr =>
    have hfit := child.stamped_fits.mpr (hc.fits k lePtr hk)
    obtain ⟨r, hr, hfits, hover⟩ := recordAt_fits (h.fits k) hfit
    rw [Option.map_some, Option.elim_some, hr]
    refine ⟨hfits, ?_⟩
    show (overlaid (below k) r).map _ = _
    rw [hover]
    exact child.stamped_get lePtr

theorem Level.Shows.commitChild (h : lvl.Shows below p) (hactive : lvl.mActive = [])
    (hc : child.Shows (fun k => overlaid (below k) (lvl.mEntry.lookup k)) c) :
    ∃ lvl', lvl.commitChild child = .ok lvl' ∧ lvl'.mActive = [] ∧
      lvl'.Shows below { p with map := c.map } := by
  obtain ⟨lvl₁, hlvl₁, ⟨hact, -⟩, hkeys⟩ := h.commit_loop hc
  unfold Level.commitChild
  rw [if_pos hactive, hlvl₁]
  refine ⟨_, rfl, hact.trans hactive, ?_⟩
  exact {
    fits := fun k => (hkeys k).1
    map := fun k => (hkeys k).2.symm
    active := by
      show p.active = lvl₁.mActive
      rw [h.active, hact]
    recorded := fun k hk => by
      rw [show lvl₁.mActive = [] from hact.trans hactive] at hk
      cases hk }

variable (root : Root κ δ)

omit [PriceOrder] in
/-- A row is written where the entry is one of the ledger, and nothing elsewhere. -/
theorem Root.applyEntry_spec
    (h : lePtr.Fits (if key.isLedgerEntry then root.entries.lookup key else none)) :
    ∃ root', root.applyEntry key lePtr = .ok root' ∧ ∀ k, root'.entries.lookup k =
      if k = key then (if key.isLedgerEntry then lePtr.get else root.entries.lookup key)
      else root.entries.lookup k := by
  unfold Root.applyEntry
  by_cases hkey : key.isLedgerEntry
  swap
  · simp only [if_neg hkey]
    exact ⟨root, rfl, lookup_self_ite⟩
  rw [if_pos hkey] at h ⊢
  cases hget : lePtr.get with
  | some entry =>
    rw [if_pos hkey]
    exact ⟨_, rfl, lookup_insert_ite⟩
  | none =>
    have hdeleted : lePtr = .deleted := by
      cases lePtr with
      | init e | live e => cases hget
      | deleted => rfl
    subst hdeleted
    rw [if_pos hkey]
    exact ⟨_, if_pos (fits_deleted.mp h), lookup_erase_ite⟩

omit [PriceOrder] in
/-- What a commit writes to the database is what the child shows. -/
theorem Root.commitChild_shows (hc : child.Shows (newestVersion root []) c) :
    ∃ root', root.commitChild child = .ok root' ∧
      ∀ key, (newestVersion root' [] key).map (·.unstamped) =
        if key.isLedgerEntry then c.map key else none := by
  obtain ⟨root₁, hroot₁, hlook⟩ := foldlM_keyed
    (fun (r : Root κ δ) k => r.entries.lookup k) Root.applyEntry
    (fun k v old => if k.isLedgerEntry then v.get else old)
    (fun k v old => v.Fits (if k.isLedgerEntry then old else none))
    (fun r _ _ => r.applyEntry_spec)
    child.stampedEntries root child.nodupKeys_stampedEntries
    (fun _ => hc.stampedEntries_fit)
  unfold Root.commitChild
  rw [hroot₁]
  refine ⟨_, rfl, fun key => ?_⟩
  show (if key.isLedgerEntry then root₁.entries.lookup key else none).map _ = _
  by_cases hk : key.isLedgerEntry
  swap
  · rw [if_neg hk, if_neg hk]
    rfl
  rw [if_pos hk, if_pos hk, hlook, child.dlookup_stampedEntries, hc.map]
  cases child.mEntry.lookup key with
  | none =>
    show Option.map _ (root.entries.lookup key) = Option.map _ (newestVersion root [] key)
    rw [newestVersion, if_pos hk]
  | some lePtr =>
    rw [Option.map_some, Option.elim_some, if_pos hk]
    exact child.stamped_get lePtr

/-! ## Whole stacks -/

omit [PriceOrder] in
theorem newestVersion_cons (lvl : Level κ δ) (rest : List (Level κ δ)) :
    newestVersion root (lvl :: rest) =
      fun key => overlaid (newestVersion root rest key) (lvl.mEntry.lookup key) := by
  funext key
  rw [newestVersion]
  cases lvl.mEntry.lookup key <;> rfl

/-- Every level shows its copy, and only the innermost one has entries handed out. -/
def LevelsShow (root : Root κ δ) : List (Level κ δ) → List (PlainLevel κ δ) → Prop
  | [], [] => True
  | lvl :: rest, p :: ps =>
    lvl.Shows (newestVersion root rest) p ∧ (∀ l ∈ rest, l.mActive = []) ∧ LevelsShow root rest ps
  | _, _ => False

structure Stack.Shows (s : Stack κ δ) (a : PlainStack κ δ) : Prop where
  root : a.root = s.root.plain
  levels : LevelsShow s.root s.levels a.levels

variable {s : Stack κ δ} {a : PlainStack κ δ} (h : s.Shows a)
include h

omit [PriceOrder] in
/-- What is seen at the innermost level. -/
theorem Stack.Shows.current (key : InternalLedgerKey κ) :
    (s.getNewestVersion key).map (·.unstamped) = a.current key := by
  obtain ⟨root, levels⟩ := s
  obtain ⟨aroot, alevels⟩ := a
  match levels, alevels, h.levels with
  | [], [], _ => exact (congrFun h.root key).symm
  | lvl :: rest, p :: ps, hlevels =>
    show (newestVersion root (lvl :: rest) key).map _ = p.map key
    rw [hlevels.1.map, newestVersion_cons]

omit [PriceOrder] in
/-- An operation on the innermost level that shows the same change shows it on
the stack. -/
theorem Stack.Shows.onLevel {f : Level κ δ → Except String (Level κ δ)}
    {g : PlainLevel κ δ → Except String (PlainLevel κ δ)}
    (hfg : ∀ lvl rest p, s.levels = lvl :: rest → lvl.Shows (newestVersion s.root rest) p →
      Except.Rel (·.Shows (newestVersion s.root rest) ·) (f lvl) (g p)) :
    Except.Rel Stack.Shows (s.onLevel f) (a.onLevel g) := by
  obtain ⟨root, levels⟩ := s
  obtain ⟨aroot, alevels⟩ := a
  match levels, alevels, h.levels with
  | [], [], _ => exact .error _
  | lvl :: rest, p :: ps, ⟨hlvl, hactive, hrest⟩ =>
    exact (hfg lvl rest p rfl hlvl).bind fun lvl' p' hlvl' => .ok ⟨h.root, hlvl', hactive, hrest⟩

theorem Stack.Shows.load (key : InternalLedgerKey κ) :
    Except.Rel (fun x y => x.1.map (·.unstamped) = y.1 ∧ x.2.Shows y.2) (s.load key)
      (a.load key) := by
  obtain ⟨root, levels⟩ := s
  obtain ⟨aroot, alevels⟩ := a
  match levels, alevels, h.levels with
  | [], [], _ => exact .error _
  | lvl :: rest, p :: ps, ⟨hlvl, hactive, hrest⟩ =>
    have hload := hlvl.load key
    unfold Stack.load PlainStack.load Stack.getNewestVersion
    rw [newestVersion_cons]
    exact hload.bind fun x y hxy => .ok ⟨hxy.1, h.root, hxy.2, hactive, hrest⟩

omit h in
omit [PriceOrder] in
/-- A `LedgerTxn` just opened shows a copy of what its parent shows. -/
theorem Level.shows_opened {ledgerSeq : UInt32} {shouldUpdateLastModified : Bool}
    (below : QueryResult κ δ) :
    (Level.opened ledgerSeq shouldUpdateLastModified : Level κ δ).Shows below
      ⟨fun key => (below key).map (·.unstamped), []⟩ where
  fits _ _ hptr := by cases hptr
  map _ := rfl
  active := rfl
  recorded _ hk := by cases hk

theorem Stack.Shows.openChild (shouldUpdateLastModified : Bool) :
    Except.Rel Stack.Shows (s.openChild shouldUpdateLastModified) (.ok a.openChild) := by
  obtain ⟨root, levels⟩ := s
  obtain ⟨aroot, alevels⟩ := a
  match levels, alevels, h.levels with
  | [], [], _ =>
    refine .ok ⟨h.root, ?_, forall_mem_nil _, trivial⟩
    rw [show aroot = root.plain from h.root]
    exact shows_opened _
  | lvl :: rest, p :: ps, ⟨hlvl, hactive, hrest⟩ =>
    obtain ⟨lvl', hlvl', hsame, hnone, hshow⟩ := hlvl.addChild
    unfold Stack.openChild
    dsimp only
    rw [hlvl']
    refine .ok ⟨h.root, ?_, forall_mem_cons.mpr ⟨hnone, hactive⟩, hshow, hactive, hrest⟩
    have hmap : p.map = fun key => (newestVersion root (lvl' :: rest) key).map (·.unstamped) := by
      funext key
      rw [hlvl.map, newestVersion_cons, ← hsame]
    rw [hmap]
    exact shows_opened _

theorem Stack.Shows.commit : Except.Rel Stack.Shows s.commit a.commit := by
  obtain ⟨root, levels⟩ := s
  obtain ⟨aroot, alevels⟩ := a
  match levels, alevels, h.levels with
  | [], [], _ => exact .error _
  | [child], [c], ⟨hchild, _, _⟩ =>
    obtain ⟨root', hroot', hnewest⟩ := root.commitChild_shows hchild
    unfold Stack.commit
    dsimp only
    rw [hroot']
    exact .ok ⟨funext fun key => (hnewest key).symm, trivial⟩
  | child :: lvl :: rest, c :: p :: ps, ⟨hchild, hnone, hlvl, hactive, hrest⟩ =>
    rw [newestVersion_cons] at hchild
    obtain ⟨lvl', hlvl', -, hshow⟩ := hlvl.commitChild (hnone lvl mem_cons_self) hchild
    unfold Stack.commit
    dsimp only
    rw [hlvl']
    exact .ok ⟨h.root, hshow, hactive, hrest⟩

theorem Stack.Shows.step (cmd : Command κ δ) :
    Except.Rel Stack.Shows (s.step cmd) (a.step cmd) := by
  -- what the innermost level shows is the newest version
  have hnewest : ∀ lvl rest, s.levels = lvl :: rest → ∀ key, s.getNewestVersion key =
      overlaid (newestVersion s.root rest key) (lvl.mEntry.lookup key) := by
    intro lvl rest hlevels key
    unfold Stack.getNewestVersion
    rw [hlevels, newestVersion_cons]
  cases cmd with
  | openChild shouldUpdateLastModified => exact h.openChild shouldUpdateLastModified
  | setLedgerSeq seq =>
    refine h.onLevel fun lvl rest p _ hlvl => .ok ?_
    exact ⟨hlvl.fits, hlvl.map, hlvl.active, hlvl.recorded⟩
  | create entry =>
    refine h.onLevel fun lvl rest p hlevels hlvl => ?_
    rw [hnewest lvl rest hlevels]
    exact hlvl.create entry
  | load key => exact (h.load key).bind fun x y hxy => .ok hxy.2
  | modify entry => exact h.onLevel fun lvl rest p _ hlvl => hlvl.modify entry
  | deactivate key => exact h.onLevel fun lvl rest p _ hlvl => hlvl.deactivate key
  | erase key =>
    refine h.onLevel fun lvl rest p hlevels hlvl => ?_
    rw [hnewest lvl rest hlevels]
    exact hlvl.erase key
  | commit => exact h.commit
  | rollback =>
    obtain ⟨root, levels⟩ := s
    obtain ⟨aroot, alevels⟩ := a
    match levels, alevels, h.levels with
    | [], [], _ => exact .error _
    | lvl :: rest, p :: ps, ⟨_, _, hrest⟩ => exact .ok ⟨h.root, hrest⟩

theorem Stack.Shows.run (cmds : List (Command κ δ)) :
    Except.Rel Stack.Shows (s.run cmds) (a.run cmds) :=
  Except.Rel.foldlM (fun _ _ cmd h => h.step cmd) cmds h

end

end KinesisCore.Nested

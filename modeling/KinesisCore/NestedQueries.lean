import KinesisCore.NestedRefinement

/-!
# Queries over nested `LedgerTxn`s

A query asks the parent and then visits what is recorded. It comes to the same
as one look at the map of the innermost level. For the pool-share trust lines
this needs the pool of every such trust line to be there, on every level, with
the assets its id stands for: a level looks a pool up only for trust lines its
parent did not list.
-/

namespace KinesisCore.Nested

open List Except

variable {κ δ : Type} [DecidableEq κ]

/-! ## The loop of a query -/

variable {params : PoolID → LiquidityPoolParameters}

/-- The answer at a recorded key is what the visit makes of the parent's. -/
theorem Level.overlay_eq (lvl : Level κ δ)
    {visit : InternalLedgerKey κ → LedgerEntryPtr κ δ → Option (InternalLedgerEntry κ δ) →
      Except String (Option (InternalLedgerEntry κ δ))}
    {parents res : QueryResult κ δ}
    (hrecorded : ∀ key lePtr, lvl.mEntry.lookup key = some lePtr →
      visit key lePtr (parents key) = .ok (res key))
    (hother : ∀ key, lvl.mEntry.lookup key = none → parents key = res key) :
    lvl.overlay visit parents = .ok res := by
  have hmem : ∀ kv ∈ lvl.mEntry.entries, lvl.mEntry.lookup kv.1 = some kv.2 :=
    fun _ => mem_dlookup lvl.mEntry.nodupKeys
  obtain ⟨out, hout, hget⟩ := foldlM_keyed (fun (out : QueryResult κ δ) key => out key)
    (fun out key lePtr => do
      let r ← visit key lePtr (out key)
      return Function.update out key r)
    (fun key _ _ => res key) (fun key lePtr old => visit key lePtr old = .ok (res key))
    (fun out key lePtr h => by
      refine ⟨Function.update out key (res key), ?_, fun k => Function.update_apply ..⟩
      rw [h]
      rfl)
    lvl.mEntry.entries parents lvl.mEntry.nodupKeys
    (fun kv hkv => hrecorded kv.1 kv.2 (hmem kv hkv))
  refine hout.trans (congrArg Except.ok (funext fun key => ?_))
  rw [hget]
  cases hlook : lvl.mEntry.entries.dlookup key with
  | none => exact hother key hlook
  | some lePtr => rfl

variable {key : InternalLedgerKey κ} {root : Root κ δ} {lvl : Level κ δ} {rest : List (Level κ δ)}
  {account : AccountID} {id : PoolID}

theorem newestVersion_recorded
    {lePtr : LedgerEntryPtr κ δ} (h : lvl.mEntry.lookup key = some lePtr) :
    newestVersion root (lvl :: rest) key = lePtr.get := by
  rw [newestVersion, h]

theorem newestVersion_unrecorded (h : lvl.mEntry.lookup key = none) :
    newestVersion root (lvl :: rest) key = newestVersion root rest key := by
  rw [newestVersion, h]

/-! ## Offers -/

theorem allOffers_eq (root : Root κ δ) (levels : List (Level κ δ)) :
    allOffers root levels =
      .ok fun key => if key.isOffer then newestVersion root levels key else none := by
  induction levels with
  | nil =>
    refine congrArg Except.ok (funext fun key => ?_)
    rcases key with (_ | _ | _ | _) | _ | _ <;> rfl
  | cons lvl rest ih =>
    refine bind_eq_ok.mpr
      ⟨_, ih, lvl.overlay_eq (fun key lePtr hlook => ?_) fun key hlook => ?_⟩
    · rw [newestVersion_recorded hlook]
      split_ifs <;> rfl
    · rw [newestVersion_unrecorded hlook]

theorem offersByAccountAndAsset_eq (root : Root κ δ) (account : AccountID) {asset : Asset}
    (hasset : asset ≠ .native) (levels : List (Level κ δ)) :
    offersByAccountAndAsset root account asset levels = .ok fun key =>
      if key.isOffer then (newestVersion root levels key).filter (·.isOfferBy account asset)
      else none := by
  induction levels with
  | nil =>
    rw [offersByAccountAndAsset, if_neg hasset]
    refine congrArg Except.ok (funext fun key => ?_)
    rcases key with (_ | _ | _ | _) | _ | _ <;> rfl
  | cons lvl rest ih =>
    refine bind_eq_ok.mpr
      ⟨_, ih, lvl.overlay_eq (fun key lePtr hlook => ?_) fun key hlook => ?_⟩
    · rw [newestVersion_recorded hlook]
      split_ifs <;> rfl
    · rw [newestVersion_unrecorded hlook]

/-! ## Pool shares -/

/-- Every trust line for pool shares has its pool beside it, and the pool is of the
assets its id stands for. -/
def PoolsPresent (params : PoolID → LiquidityPoolParameters) (m : QueryResult κ δ) : Prop :=
  ∀ account id, (m (.ledgerKey (.trustLine account (.poolShare id)))).isSome →
    ∃ seq poolID pool, m (.ledgerKey (.liquidityPool id)) =
      some (.ledgerEntry ⟨seq, .liquidityPool poolID pool⟩) ∧ pool.params = params id

/-- Whether the shares of a pool stand for some of `asset`. -/
def holdsAsset (params : PoolID → LiquidityPoolParameters) (asset : Asset) (id : PoolID) : Bool :=
  (params id).assetA = asset || (params id).assetB = asset

omit [DecidableEq κ] in
theorem poolShareOf_eq_some :
    key.poolShareOf account = some id ↔ key = .ledgerKey (.trustLine account (.poolShare id)) := by
  rcases key with (_ | ⟨accountID, asset | poolID⟩ | _ | _) | _ | _
  case ledgerKey.trustLine.poolShare =>
    show (if accountID = account then some poolID else none) = some id ↔ _
    split_ifs with h
    · subst h
      simp
    · simp [h]
  all_goals simp [InternalLedgerKey.poolShareOf]

omit [DecidableEq κ] in
/-- A pool-share trust line that is there has its pool found. -/
theorem PoolsPresent.pool_found {m : QueryResult κ δ} (h : PoolsPresent params m) (asset : Asset)
    (htl : (m (.ledgerKey (.trustLine account (.poolShare id)))).isSome) :
    ∃ pool, m (.ledgerKey (.liquidityPool id)) = some pool ∧
      pool.isPoolOf asset = holdsAsset params asset id := by
  obtain ⟨seq, poolID, pool, hpool, hparams⟩ := h account id htl
  refine ⟨_, hpool, ?_⟩
  rw [holdsAsset, ← hparams]
  rfl

/-- The answer over a map whose pools are present. -/
def poolSharesIn (params : PoolID → LiquidityPoolParameters) (m : QueryResult κ δ)
    (account : AccountID) (asset : Asset) : QueryResult κ δ :=
  fun key =>
    match key.poolShareOf account with
    | none => none
    | some id => if holdsAsset params asset id then m key else none

theorem poolShareTrustLines_eq (params : PoolID → LiquidityPoolParameters) (root : Root κ δ)
    (account : AccountID) (asset : Asset) (levels : List (Level κ δ))
    (h : ∀ below, below <:+ levels → PoolsPresent params (newestVersion root below)) :
    poolShareTrustLines root account asset levels =
      .ok (poolSharesIn params (newestVersion root levels) account asset) := by
  induction levels with
  | nil =>
    refine congrArg Except.ok (funext fun key => ?_)
    unfold poolSharesIn
    cases hkey : key.poolShareOf account with
    | none => rfl
    | some id =>
      obtain rfl := poolShareOf_eq_some.mp hkey
      show (if _ then root.entries.lookup _ else none) = _
      cases htl : root.entries.lookup (.ledgerKey (.trustLine account (.poolShare id))) with
      | none => simp [newestVersion, htl]
      | some e =>
        have hsome : (newestVersion root []
            (.ledgerKey (.trustLine account (.poolShare id)))).isSome := by
          show (root.entries.lookup _).isSome
          rw [htl]
          rfl
        obtain ⟨pool, hpool, hassets⟩ := (h [] (suffix_refl _)).pool_found asset hsome
        have hrow : root.entries.lookup (.ledgerKey (.liquidityPool id)) = some pool := hpool
        rw [hrow]
        show (if pool.isPoolOf asset then _ else none) = _
        rw [hassets, ← htl]
        rfl
  | cons lvl rest ih =>
    have hrest := ih fun below hb => h below (hb.trans (suffix_cons _ _))
    refine bind_eq_ok.mpr
      ⟨_, hrest, lvl.overlay_eq (fun key lePtr hlook => ?_) fun key hlook => ?_⟩
    · unfold visitPoolShare poolSharesIn
      cases hkey : key.poolShareOf account with
      | none => rfl
      | some id =>
        obtain rfl := poolShareOf_eq_some.mp hkey
        rw [newestVersion_recorded hlook, lePtr.isDeleted_eq_isNone]
        cases hget : lePtr.get with
        | none => simp
        | some e =>
          have hsome : (newestVersion root (lvl :: rest)
              (.ledgerKey (.trustLine account (.poolShare id)))).isSome := by
            rw [newestVersion_recorded hlook, hget]
            rfl
          obtain ⟨pool, hpool, hassets⟩ := (h _ (suffix_refl _)).pool_found asset hsome
          simp only [hpool, hassets]
          -- the parent listed the trust line only if the pool holds the asset
          by_cases hhas : holdsAsset params asset id = true
          · simp [hhas]
          · simp [hhas]
    · unfold poolSharesIn
      rw [newestVersion_unrecorded hlook]

/-! ## What can be observed -/

namespace PlainStack

variable (a : PlainStack κ δ) (account : AccountID) (asset : Asset)

omit [DecidableEq κ] in
def allOffers : QueryResult κ δ :=
  fun key => if key.isOffer then a.current key else none

omit [DecidableEq κ] in
def offersByAccountAndAsset : QueryResult κ δ :=
  fun key => if key.isOffer then (a.current key).filter (·.isOfferBy account asset) else none

omit [DecidableEq κ] in
/-- The trust lines of `account` for shares of a pool that holds `asset`. -/
def poolShareTrustLines : QueryResult κ δ :=
  fun key =>
    match key.poolShareOf account with
    | none => none
    | some id =>
      if (a.current (.ledgerKey (.liquidityPool id))).any (·.isPoolOf asset) then a.current key
      else none

omit [DecidableEq κ] in
/-- On every level, the pools are present. -/
def AllPoolsPresent (params : PoolID → LiquidityPoolParameters) (a : PlainStack κ δ) : Prop :=
  PoolsPresent params a.root ∧ ∀ p ∈ a.levels, PoolsPresent params p.map

end PlainStack

/-- An answer without the stamps. -/
def unstampedResult (res : QueryResult κ δ) : QueryResult κ δ :=
  fun key => (res key).map (·.unstamped)

/-- Every observation at the innermost `LedgerTxn` gives what the copies say. -/
structure Stack.ObservedAs [PriceOrder] (s : Stack κ δ) (a : PlainStack κ δ) : Prop where
  load : ∀ key, (s.load key).map (fun x => x.1.map (·.unstamped)) = (a.load key).map (·.1)
  getNewestVersion : ∀ key, (s.getNewestVersion key).map (·.unstamped) = a.current key
  getAllOffers : s.getAllOffers.map unstampedResult = .ok a.allOffers
  getOffersByAccountAndAsset : ∀ account asset, asset ≠ .native →
    (s.getOffersByAccountAndAsset account asset).map unstampedResult =
      .ok (a.offersByAccountAndAsset account asset)
  getPoolShareTrustLinesByAccountAndAsset : ∀ params, a.AllPoolsPresent params →
    ∀ account asset, (s.getPoolShareTrustLinesByAccountAndAsset account asset).map unstampedResult =
      .ok (a.poolShareTrustLines account asset)

omit [DecidableEq κ] in
theorem isOfferBy_unstamped (account : AccountID) (asset : Asset) (e : InternalLedgerEntry κ δ) :
    e.unstamped.isOfferBy account asset = e.isOfferBy account asset := by
  rcases e with ⟨_, _ | _ | _ | _⟩ | _ | _ <;> rfl

omit [DecidableEq κ] in
theorem filter_isOfferBy_unstamped (account : AccountID) (asset : Asset)
    (e : Option (InternalLedgerEntry κ δ)) :
    (e.filter (·.isOfferBy account asset)).map (·.unstamped) =
      (e.map (·.unstamped)).filter (·.isOfferBy account asset) := by
  cases e with
  | none => rfl
  | some e =>
    simp only [Option.map_some, Option.filter_some, isOfferBy_unstamped]
    split_ifs <;> rfl

omit [DecidableEq κ] in
theorem PoolsPresent.of_unstamped {m : QueryResult κ δ}
    (h : PoolsPresent params (unstampedResult m)) :
    PoolsPresent params m := by
  intro account id htl
  have htl' : (unstampedResult m (.ledgerKey (.trustLine account (.poolShare id)))).isSome := by
    rw [unstampedResult, Option.isSome_map]
    exact htl
  obtain ⟨seq, poolID, pool, hpool, hparams⟩ := h account id htl'
  obtain ⟨e, he, hun⟩ := Option.map_eq_some_iff.mp hpool
  rw [he]
  rcases e with ⟨⟨seq', data⟩⟩ | _ | _
  · cases hun
    exact ⟨seq', poolID, pool, rfl, hparams⟩
  · cases hun
  · cases hun

section

variable {s : Stack κ δ} {a : PlainStack κ δ}

/-- Each level of the stack shows one of the copies. -/
theorem Stack.Shows.poolsPresent (h : s.Shows a) (ha : a.AllPoolsPresent params) :
    ∀ below, below <:+ s.levels → PoolsPresent params (newestVersion s.root below) := by
  have hlevels : ∀ levels ps, LevelsShow s.root levels ps →
      (∀ p ∈ ps, PoolsPresent params p.map) →
      ∀ below, below <:+ levels → PoolsPresent params (newestVersion s.root below) := by
    intro levels
    induction levels with
    | nil =>
      intro ps _ _ below hbelow
      rw [suffix_nil.mp hbelow]
      refine PoolsPresent.of_unstamped ?_
      rw [show unstampedResult (newestVersion s.root []) = a.root from h.root.symm]
      exact ha.1
    | cons lvl rest ih =>
      intro ps hshow hps below hbelow
      match ps, hshow with
      | p :: ps, ⟨hlvl, _, hrest⟩ =>
        rcases suffix_cons_iff.mp hbelow with rfl | hbelow
        · refine PoolsPresent.of_unstamped ?_
          have hmap : unstampedResult (newestVersion s.root (lvl :: rest)) = p.map := by
            funext key
            rw [hlvl.map, newestVersion_cons]
            rfl
          rw [hmap]
          exact hps p mem_cons_self
        · exact ih ps hrest (fun q hq => hps q (mem_cons_of_mem _ hq)) below hbelow
  exact hlevels s.levels a.levels h.levels ha.2

omit [DecidableEq κ] in
/-- The copy at the innermost level has its pools. -/
theorem PlainStack.AllPoolsPresent.current (ha : a.AllPoolsPresent params) :
    PoolsPresent params a.current := by
  unfold PlainStack.current
  split
  · exact ha.1
  · rename_i p ps hlevels
    exact ha.2 p (by rw [hlevels]; exact mem_cons_self)

theorem Stack.Shows.observedAs [PriceOrder] (h : s.Shows a) : s.ObservedAs a where
  load key := by
    have hload := h.load key
    revert hload
    cases s.load key <;> cases a.load key <;> rintro ⟨⟩
    · rfl
    · rename_i hxy
      exact congrArg Except.ok hxy.1
  getNewestVersion := h.current
  getAllOffers := by
    rw [Stack.getAllOffers, allOffers_eq]
    refine congrArg Except.ok (funext fun key => ?_)
    unfold unstampedResult PlainStack.allOffers
    dsimp only
    rw [← h.current]
    split_ifs <;> rfl
  getOffersByAccountAndAsset account asset hasset := by
    rw [Stack.getOffersByAccountAndAsset, offersByAccountAndAsset_eq _ _ hasset]
    refine congrArg Except.ok (funext fun key => ?_)
    unfold unstampedResult PlainStack.offersByAccountAndAsset
    dsimp only
    rw [← h.current]
    split_ifs
    · exact filter_isOfferBy_unstamped _ _ _
    · rfl
  getPoolShareTrustLinesByAccountAndAsset params ha account asset := by
    rw [Stack.getPoolShareTrustLinesByAccountAndAsset,
      poolShareTrustLines_eq params _ _ _ _ (h.poolsPresent ha)]
    refine congrArg Except.ok (funext fun key => ?_)
    unfold unstampedResult poolSharesIn PlainStack.poolShareTrustLines
    cases hkey : key.poolShareOf account with
    | none => rfl
    | some id =>
      obtain rfl := poolShareOf_eq_some.mp hkey
      dsimp only
      cases htl : a.current (.ledgerKey (.trustLine account (.poolShare id))) with
      | none =>
        rw [ite_self]
        split_ifs
        · exact (h.current _).trans htl
        · rfl
      | some e =>
        obtain ⟨pool, hpool, hassets⟩ := ha.current.pool_found asset
          (Option.isSome_iff_exists.mpr ⟨e, htl⟩)
        rw [hpool, Option.any_some, hassets, ← htl, ← h.current]
        split_ifs <;> rfl

end

/-- Nested `LedgerTxn`s refine copies of a map, in every run of commands: the run
fails with the same error in both, or all observations agree. -/
theorem nested_ledgerTxns_refine_map [PriceOrder] (root : Root κ δ) (cmds : List (Command κ δ)) :
    Except.Rel Stack.ObservedAs ((⟨root, []⟩ : Stack κ δ).run cmds)
      ((⟨root.plain, []⟩ : PlainStack κ δ).run cmds) := by
  have hinit : (⟨root, []⟩ : Stack κ δ).Shows ⟨root.plain, []⟩ := ⟨rfl, trivial⟩
  have hrun := hinit.run cmds
  revert hrun
  cases (⟨root, []⟩ : Stack κ δ).run cmds <;>
    cases (⟨root.plain, []⟩ : PlainStack κ δ).run cmds <;> rintro ⟨⟩
  · exact .error _
  · rename_i hshow
    exact .ok hshow.observedAs

/-- An entry that was only loaded comes out of the commit with a new stamp. -/
theorem loaded_entry_restamped :
    let old : InternalLedgerEntry Nat Unit := .ledgerEntry ⟨1, .other 7 ()⟩
    let s : Stack Nat Unit := ⟨⟨AList.singleton old.toKey old, fun _ _ => none, 2⟩, []⟩
    s.getNewestVersion old.toKey = some old ∧
      (@Stack.run _ _ _ PriceOrder.exact s [.openChild true, .load old.toKey, .commit]).map
        (·.getNewestVersion old.toKey) = .ok (some (.ledgerEntry ⟨2, .other 7 ()⟩)) :=
  ⟨rfl, rfl⟩

/-! ## The states of recorded entries -/

theorem LevelsShow.level {levels : List (Level κ δ)} {ps : List (PlainLevel κ δ)}
    (h : LevelsShow root levels ps) (hsuffix : lvl :: rest <:+ levels) :
    ∃ p, lvl.Shows (newestVersion root rest) p := by
  induction levels generalizing ps with
  | nil => cases suffix_nil.mp hsuffix
  | cons l levels ih =>
    cases ps with
    | nil => exact h.elim
    | cons p ps =>
      rcases suffix_cons_iff.mp hsuffix with heq | hsuffix
      · cases heq
        exact ⟨p, h.1⟩
      · exact ih h.2.2 hsuffix

/-- Entry states classify changes, in every run and at every depth: what a `LedgerTxn` has
recorded under a key is INIT exactly if the key is absent underneath and DELETED exactly if
it is absent here. -/
theorem recorded_states_classify [PriceOrder] (root : Root κ δ) (cmds : List (Command κ δ)) :
    match (⟨root, []⟩ : Stack κ δ).run cmds with
    | .error _ => True
    | .ok s => ∀ lvl rest, lvl :: rest <:+ s.levels → ∀ key lePtr,
        lvl.mEntry.lookup key = some lePtr →
          (lePtr.isInit = true ↔ newestVersion s.root rest key = none)
            ∧ (lePtr.isDeleted = true ↔ newestVersion s.root (lvl :: rest) key = none) := by
  have hinit : (⟨root, []⟩ : Stack κ δ).Shows ⟨root.plain, []⟩ := ⟨rfl, trivial⟩
  have hrun := hinit.run cmds
  split
  · trivial
  · rename_i s hs
    intro lvl rest hsuffix key lePtr hlookup
    rw [hs] at hrun
    generalize (⟨root.plain, []⟩ : PlainStack κ δ).run cmds = r at hrun
    cases hrun with | ok hshows
    obtain ⟨p, hlvl⟩ := LevelsShow.level hshows.levels hsuffix
    have hfits : lePtr.isInit = _ := hlvl.fits key lePtr hlookup
    rw [hfits, newestVersion, hlookup]
    refine ⟨Option.isNone_iff_eq_none, ?_⟩
    cases lePtr <;> simp [LedgerEntryPtr.isDeleted, LedgerEntryPtr.get]

end KinesisCore.Nested

import KinesisCore.HerderSCPDriver
import KinesisCore.FeeCollection

/-!
# The combined value

What `combineCandidates` makes of candidates that were each validated: when it
throws, when its result is a value that the wire format takes, and that the
result is as valid as the candidates were.
-/

namespace KinesisCore

open Xdr HashFunction TransactionFrameBase ValidationLevel Except Function List StellarValue
  Upgrades LedgerUpgrade TxSetFrame

/-! ## Merging steps -/

variable {proposed steps : List LedgerUpgrade} {upgrades : UpgradeMap} {nomination : Bool}

/-- The four types that `combineCandidates` can merge. -/
def LedgerUpgradeType.Merges : LedgerUpgradeType → Prop
  | .version | .baseFee | .maxTxSetSize | .baseReserve => True
  | .basePercentageFee | .maxFee | .flags => False

/-- A list of steps is the union of the proposed ones: one step of each type
that was proposed, the largest of them, in the order of the types. -/
structure IsUnion (proposed steps : List LedgerUpgrade) : Prop where
  ascending : (steps.map (·.type)).Pairwise (· < ·)
  mem : ∀ s ∈ steps, s ∈ proposed
  largest : ∀ s ∈ steps, ∀ p ∈ proposed, p.type = s.type → p.value ≤ s.value
  complete : ∀ p ∈ proposed, ∃ s ∈ steps, s.type = p.type

theorem mergeUpgrade_ok_iff {a b : LedgerUpgrade} (htype : a.type = b.type) :
    (∃ c, mergeUpgrade a b = .ok c) ↔ a.type.Merges := by
  cases a <;> cases b <;>
    first
      | (cases htype; done)
      | simp [mergeUpgrade, LedgerUpgrade.type, LedgerUpgradeType.Merges]

/-- The merged step is one of the two, the larger one. -/
theorem mergeUpgrade_spec {a b c : LedgerUpgrade} (h : mergeUpgrade a b = .ok c) :
    (c = a ∨ c = b) ∧ c.type = b.type ∧ a.value ≤ c.value ∧ b.value ≤ c.value := by
  have hmax : ∀ v w : UInt32, (max v w = v ∨ max v w = w)
      ∧ v.toUInt64 ≤ (max v w).toUInt64 ∧ w.toUInt64 ≤ (max v w).toUInt64 := by
    intro v w
    rw [show max v w = if v ≤ w then w else v from rfl]
    simp only [UInt64.le_iff_toNat_le, UInt32.toNat_toUInt64]
    split
    · exact ⟨.inr rfl, UInt32.le_iff_toNat_le.mp ‹_›, Nat.le_refl _⟩
    · rename_i hlt
      rw [UInt32.le_iff_toNat_le] at hlt
      exact ⟨.inl rfl, Nat.le_refl _, by omega⟩
  unfold mergeUpgrade at h
  split at h <;> simp only [pure_eq_ok, throw_ne_ok] at h
  all_goals
    subst h
    rename_i v w
    obtain ⟨hcases, hv, hw⟩ := hmax v w
    refine ⟨?_, rfl, hv, hw⟩
    rcases hcases with h | h <;> simp [h]

/-! ## Collecting steps -/

/-- The map holds, for each type, the largest step that was proposed. -/
structure Collects (upgrades : UpgradeMap) (proposed : List LedgerUpgrade) : Prop where
  mem : ∀ {t s}, upgrades t = some s → s ∈ proposed ∧ s.type = t
  largest : ∀ {t s}, upgrades t = some s → ∀ p ∈ proposed, p.type = t → p.value ≤ s.value
  complete : ∀ p ∈ proposed, (upgrades p.type).isSome

theorem collects_nil : Collects (fun _ => none) [] := ⟨nofun, nofun, nofun⟩

section Union

variable (h : Collects upgrades proposed)
include h

variable {p : LedgerUpgrade}

/-- Setting the entry of a type to the larger of what it had and the new
step. -/
theorem Collects.update {s : LedgerUpgrade} (htype : s.type = p.type) (hmem : s ∈ proposed ++ [p])
    (hp : p.value ≤ s.value) (hold : ∀ q ∈ proposed, q.type = p.type → q.value ≤ s.value) :
    Collects (update upgrades p.type (some s)) (proposed ++ [p]) := by
  refine ⟨fun {t s'} hs' => ?_, fun {t s'} hs' q hq hqt => ?_, fun q hq => ?_⟩
  · by_cases ht : t = p.type
    · subst ht
      obtain rfl : s = s' := by simpa using hs'
      exact ⟨hmem, htype⟩
    · rw [update_of_ne ht] at hs'
      exact ⟨mem_append_left _ (h.mem hs').1, (h.mem hs').2⟩
  · rcases mem_append.mp hq with hq | hq
    · by_cases ht : t = p.type
      · subst ht
        obtain rfl : s = s' := by simpa using hs'
        exact hold q hq hqt
      · rw [update_of_ne ht] at hs'
        exact h.largest hs' q hq hqt
    · obtain rfl := mem_singleton.mp hq
      subst hqt
      obtain rfl : s = s' := by simpa using hs'
      exact hp
  · rcases mem_append.mp hq with hq | hq
    · by_cases ht : q.type = p.type
      · simp [ht]
      · rw [update_of_ne ht]
        exact h.complete q hq
    · obtain rfl := mem_singleton.mp hq
      simp

variable {upgrades' : UpgradeMap}

theorem addUpgrade_spec (hadd : addUpgrade upgrades p = .ok upgrades') :
    Collects upgrades' (proposed ++ [p]) := by
  unfold addUpgrade at hadd
  split at hadd
  · rename_i hnone
    cases hadd
    refine h.update rfl (by simp) (UInt64.le_refl _) fun q hq hqt => ?_
    have := h.complete q hq
    rw [hqt, hnone] at this
    cases this
  · rename_i s hs
    obtain ⟨m, hm, hadd⟩ := bind_eq_ok.mp hadd
    cases hadd
    obtain ⟨hcases, htype, hsm, hpm⟩ := mergeUpgrade_spec hm
    refine h.update htype ?_ hpm fun q hq hqt => UInt64.le_trans (h.largest hs q hq hqt) hsm
    rcases hcases with rfl | rfl
    · exact mem_append_left _ (h.mem hs).1
    · simp

theorem addUpgrade_ok_iff :
    (∃ upgrades', addUpgrade upgrades p = .ok upgrades')
      ↔ ∀ q ∈ proposed, q.type = p.type → p.type.Merges := by
  unfold addUpgrade
  split
  · rename_i hnone
    refine ⟨fun _ q hq hqt => ?_, fun _ => ⟨_, rfl⟩⟩
    have := h.complete q hq
    rw [hqt, hnone] at this
    cases this
  · rename_i s hs
    obtain ⟨hmem, htype⟩ := h.mem hs
    rw [← htype, ← mergeUpgrade_ok_iff htype]
    constructor
    · rintro ⟨upgrades', hok⟩ q hq hqt
      obtain ⟨c, hc, -⟩ := bind_eq_ok.mp hok
      exact ⟨c, hc⟩
    · intro hall
      obtain ⟨c, hc⟩ := hall s hmem rfl
      exact ⟨_, bind_eq_ok.mpr ⟨c, hc, rfl⟩⟩

/-- Two steps that the map can take one after the other. -/
def Compatible (p q : LedgerUpgrade) : Prop := p.type = q.type → q.type.Merges

theorem foldlM_addUpgrade_spec (hadd : steps.foldlM addUpgrade upgrades = .ok upgrades') :
    Collects upgrades' (proposed ++ steps) := by
  induction steps generalizing upgrades proposed with
  | nil =>
    cases hadd
    simpa using h
  | cons p steps ih =>
    obtain ⟨m, hm, hadd⟩ := bind_eq_ok.mp hadd
    simpa using ih (addUpgrade_spec h hm) hadd

/-- No step is refused exactly if no two of them clash, nor one with what is
there already. -/
theorem foldlM_addUpgrade_ok_iff :
    (∃ upgrades', steps.foldlM addUpgrade upgrades = .ok upgrades')
      ↔ steps.Pairwise Compatible ∧ ∀ p ∈ proposed, ∀ q ∈ steps, Compatible p q := by
  induction steps generalizing upgrades proposed with
  | nil => simp
  | cons p steps ih =>
    simp only [foldlM_cons, bind_eq_ok, pairwise_cons, forall_mem_cons]
    constructor
    · rintro ⟨upgrades', m, hm, hrest⟩
      obtain ⟨hpair, hcross⟩ := (ih (addUpgrade_spec h hm)).mp ⟨upgrades', hrest⟩
      refine ⟨⟨hcross p (by simp), hpair⟩, fun q hq => ⟨?_, fun r hr =>
        hcross q (mem_append_left _ hq) r hr⟩⟩
      exact (addUpgrade_ok_iff h).mp ⟨m, hm⟩ q hq
    · rintro ⟨⟨hp, hpair⟩, hcross⟩
      obtain ⟨m, hm⟩ := (addUpgrade_ok_iff h).mpr fun q hq => (hcross q hq).1
      obtain ⟨upgrades', hrest⟩ := (ih (addUpgrade_spec h hm)).mpr ⟨hpair, fun q hq r hr => by
        rcases mem_append.mp hq with hq | hq
        · exact (hcross q hq).2 r hr
        · obtain rfl := mem_singleton.mp hq
          exact hp r hr⟩
      exact ⟨upgrades', m, hm, hrest⟩

/-- The entries of the map in the order of the types. -/
theorem Collects.isUnion : IsUnion proposed (LedgerUpgradeType.all.filterMap upgrades) := by
  have hall : LedgerUpgradeType.all.Pairwise (· < ·) := by decide
  have hmem : ∀ s, s ∈ LedgerUpgradeType.all.filterMap upgrades ↔ upgrades s.type = some s := by
    intro s
    rw [mem_filterMap]
    refine ⟨fun ⟨t, _, ht⟩ => ?_, fun hs => ⟨s.type, ?_, hs⟩⟩
    · rw [(h.mem ht).2]
      exact ht
    · cases s.type <;> decide
  refine ⟨?_, fun s hs => ?_, fun s hs p hp htype => ?_, fun p hp => ?_⟩
  · rw [pairwise_map, pairwise_filterMap]
    refine hall.imp fun {t t'} hlt s hs s' hs' => ?_
    rw [(h.mem hs).2, (h.mem hs').2]
    exact hlt
  · exact (h.mem ((hmem s).mp hs)).1
  · exact h.largest ((hmem s).mp hs) p hp htype
  · obtain ⟨s, hs⟩ := Option.isSome_iff_exists.mp (h.complete p hp)
    have htype := (h.mem hs).2
    exact ⟨s, (hmem s).mpr (htype ▸ hs), htype⟩

end Union

/-- A step of each of the seven types is one more than the wire format has
room for. -/
theorem IsUnion.length_le_iff (h : IsUnion proposed steps) :
    steps.length ≤ maxUpgrades ↔ ∃ t, ∀ p ∈ proposed, p.type ≠ t := by
  have hcov : ∀ t, t ∈ LedgerUpgradeType.all := by intro t; cases t <;> decide
  have hseven : LedgerUpgradeType.all.length = maxUpgrades + 1 := rfl
  rw [← length_map (·.type)]
  constructor
  · intro hlen
    by_contra hall
    push Not at hall
    have hsub : LedgerUpgradeType.all ⊆ steps.map (·.type) := by
      intro t _
      obtain ⟨p, hp, rfl⟩ := hall t
      obtain ⟨s, hs, htype⟩ := h.complete p hp
      exact mem_map.mpr ⟨s, hs, htype⟩
    have := ((by decide : LedgerUpgradeType.all.Nodup).subperm hsub).length_le
    omega
  · rintro ⟨t, ht⟩
    have hsub : steps.map (·.type) ⊆ LedgerUpgradeType.all.erase t := by
      intro t' ht'
      obtain ⟨s, hs, rfl⟩ := mem_map.mp ht'
      exact (mem_erase_of_ne (ht s (h.mem s hs))).mpr (hcov _)
    have hnodup : (steps.map (·.type)).Nodup :=
      h.ascending.imp fun {t t'} hlt heq => by
        rw [heq] at hlt
        exact absurd hlt (Nat.lt_irrefl _)
    have := (hnodup.subperm hsub).length_le
    rw [length_erase_of_mem (hcov t)] at this
    omega

/-! ## What a validated candidate is -/

/-- The steps of a value that decode. -/
def StellarValue.proposals (sv : StellarValue) : List LedgerUpgrade :=
  sv.upgrades.filterMap LedgerUpgrade.codec.fromOpaque

theorem StellarValue.proposals_encode (sv : StellarValue) (steps : List LedgerUpgrade) :
    proposals { sv with upgrades := steps.map LedgerUpgrade.codec.toOpaque }
      = steps :=
  LedgerUpgrade.codec.filterMap_fromOpaque codec_fits steps

variable {sv : StellarValue}

/-- The room the wire format has is room for the steps: what else it bounds is
taken over from a value that was read. -/
theorem StellarValue.WellFormed.setUpgrades (hsv : sv.WellFormed)
    (hlen : steps.length ≤ maxUpgrades) :
    StellarValue.WellFormed { sv with upgrades := steps.map LedgerUpgrade.codec.toOpaque } := by
  refine ⟨?_, fun u hu => ?_, hsv.signature_size⟩
  · rw [length_map]
    exact hlen
  · obtain ⟨s, -, rfl⟩ := mem_map.mp hu
    exact (codec_put_length s).trans (by decide)

theorem Upgrades.decode_of_isValid {u : Upgrades} {op : UpgradeType} {cfg : Config}
    {header : LedgerHeader} {t : LedgerUpgradeType}
    (h : u.isValid op nomination cfg header = some t) :
    ∃ s, LedgerUpgrade.codec.fromOpaque op = some s
      ∧ validStep s header cfg.LEDGER_PROTOCOL_VERSION = true ∧ s.type = t := by
  unfold isValid at h
  split at h
  · rename_i s happly
    split at h
    · cases h
    · unfold isValidForApply at happly
      split at happly
      · cases happly
      · rename_i s' hdec
        split at happly
        · rename_i hvalid
          obtain rfl : s' = s := by simpa using happly
          exact ⟨s', hdec, hvalid, by simpa using h⟩
        · cases happly
  · cases h

namespace HerderSCPDriver

/-- What the loop accepts decodes, is valid and ascends. -/
theorem upgradeLoop_decode {u : Upgrades} {cfg : Config} {header : LedgerHeader} :
    ∀ {steps : List UpgradeType} {i : Nat} {last : LedgerUpgradeType},
      upgradeLoop u nomination cfg header i last steps = true →
      (∀ op ∈ steps, ∃ s, LedgerUpgrade.codec.fromOpaque op = some s
        ∧ validStep s header cfg.LEDGER_PROTOCOL_VERSION = true)
      ∧ ((steps.filterMap LedgerUpgrade.codec.fromOpaque).map (·.type)).IsChain (· < ·)
      ∧ (i ≠ 0 → (last :: (steps.filterMap LedgerUpgrade.codec.fromOpaque).map
          (·.type)).IsChain (· < ·))
  | [], _, _, _ => by simp
  | op :: steps, i, last, h => by
    rw [upgradeLoop] at h
    split at h
    · cases h
    · rename_i t ht
      obtain ⟨s, hdec, hvalid, rfl⟩ := decode_of_isValid ht
      split at h
      · cases h
      · rename_i hasc
        obtain ⟨hsteps, -, hchain⟩ := upgradeLoop_decode h
        have hchain := hchain (Nat.succ_ne_zero i)
        simp only [filterMap_cons, hdec, map_cons]
        refine ⟨forall_mem_cons.mpr ⟨⟨s, hdec, hvalid⟩, hsteps⟩, hchain, fun hi => ?_⟩
        rw [isChain_cons_cons]
        exact ⟨by_contra fun hlt => hasc ⟨hi, hlt⟩, hchain⟩

variable {E : Type} [HashFunction]

/-- A candidate as the herder reads it: the value and its transaction set. -/
def read (d : HerderSCPDriver E) (candidate : Value) : Option (StellarValue × TxSetFrame Tx) := do
  let sv ← StellarValue.codec.fromOpaque candidate
  let txSet ← d.getTxSet sv.txSetHash
  return (sv, txSet)

theorem read_eq_some {d : HerderSCPDriver E} {candidate : Value}
    {c : StellarValue × TxSetFrame Tx} :
    d.read candidate = some c
      ↔ StellarValue.codec.fromOpaque candidate = some c.1
        ∧ d.getTxSet c.1.txSetHash = some c.2 := by
  simp only [read, Option.bind_eq_bind, Option.bind_eq_some_iff, Option.pure_def, Option.some.injEq]
  constructor
  · rintro ⟨sv, hsv, txSet, hset, rfl⟩
    exact ⟨hsv, hset⟩
  · rintro ⟨hsv, hset⟩
    exact ⟨c.1, hsv, c.2, hset, rfl⟩

/-- What validation establishes of a candidate for the next ledger. -/
structure Usable (d : HerderSCPDriver E) (c : StellarValue × TxSetFrame Tx) : Prop where
  known : d.getTxSet c.1.txSetHash = some c.2
  follows : c.2.mPreviousLedgerHash = d.lcl.hash
  operations_ne : ∀ tx ∈ c.2.mTransactions, getNumOperations tx ≠ 0
  decodes : ∀ op ∈ c.1.upgrades, ∃ s, LedgerUpgrade.codec.fromOpaque op = some s
    ∧ Upgrades.validStep s d.lcl.header d.cfg.LEDGER_PROTOCOL_VERSION = true
  ascending : (c.1.proposals.map (·.type)).Pairwise (· < ·)

variable [PubKeyUtils] [OperationFrame E] {I : Stl.Impl} {d : HerderSCPDriver E}
  {slotIndex : UInt64}

theorem validateValue_eq_full {value : Value} :
    d.validateValue I slotIndex value nomination = .ok kFullyValidatedValue
      ↔ ∃ sv, StellarValue.codec.fromOpaque value = some sv
        ∧ d.validateValueHelper I slotIndex sv = .ok kFullyValidatedValue
        ∧ upgradesValid d.mUpgrades nomination d.cfg d.lcl.header sv.upgrades = true := by
  unfold validateValue
  split
  · simp [*]
  · rename_i sv hsv
    simp only [hsv, Option.some.injEq, exists_eq_left', bind_eq_ok]
    constructor
    · rintro ⟨res, hres, h⟩
      split at h
      · cases h
      · rename_i hup
        cases h
        exact ⟨hres, by simpa using hup⟩
    · rintro ⟨hres, hup⟩
      exact ⟨_, hres, by simp [hup]⟩

omit [PubKeyUtils] [OperationFrame E] in
theorem validateOtherSlot_ne_full (d : HerderSCPDriver E) (slotIndex : UInt64) (b : StellarValue) :
    d.validateOtherSlot slotIndex b ≠ kFullyValidatedValue := by
  unfold validateOtherSlot
  grind

theorem txSet_of_validateValueHelper
    (h : d.validateValueHelper I slotIndex sv = .ok kFullyValidatedValue) :
    ∃ txSet lo hi, d.getTxSet sv.txSetHash = some txSet
      ∧ (txSet.checkValid I d.lcl lo hi).map Prod.fst = .ok true := by
  unfold validateValueHelper at h
  split at h
  · cases h
  · rename_i sig _
    by_cases hsig : d.verifyStellarValueSignature sv sig = true
    · rw [if_neg (not_not.mpr hsig)] at h
      by_cases hslot : slotIndex = (d.lcl.header.ledgerSeq + 1).toUInt64
      · rw [if_neg (not_not.mpr hslot)] at h
        by_cases htime : d.checkCloseTime d.lcl.header.scpValue.closeTime sv = true
        · rw [if_neg (not_not.mpr htime)] at h
          split at h
          · cases h
          · rename_i txSet hset
            obtain ⟨⟨valid, txSet'⟩, hcheck, h⟩ := bind_eq_ok.mp h
            cases valid with
            | false => cases h
            | true => exact ⟨txSet, _, _, hset, by rw [hcheck]; rfl⟩
        · rw [if_pos htime] at h
          cases h
      · rw [if_pos hslot] at h
        exact absurd (pure_eq_ok.mp h) (validateOtherSlot_ne_full d _ _)
    · rw [if_pos hsig] at h
      cases h

/-- A candidate that was fully validated is one the loops below can work
with. -/
theorem usable_of_validateValue {value : Value}
    (hcache : ∀ h txSet, d.getTxSet h = some txSet → txSet.CacheSound I d.lcl)
    (h : d.validateValue I slotIndex value nomination = .ok kFullyValidatedValue) :
    ∃ c, d.read value = some c ∧ d.Usable c
      ∧ d.validateValueHelper I slotIndex c.1 = .ok kFullyValidatedValue := by
  obtain ⟨sv, hsv, hhelper, hup⟩ := validateValue_eq_full.mp h
  obtain ⟨txSet, lo, hi, hset, hvalid⟩ := txSet_of_validateValueHelper hhelper
  obtain ⟨hdec, hasc, -⟩ := upgradeLoop_decode hup
  refine ⟨(sv, txSet), read_eq_some.mpr ⟨hsv, hset⟩, ⟨hset, ?_, fun tx htx => ?_, hdec,
    isChain_iff_pairwise.mp hasc⟩, hhelper⟩
  · obtain ⟨⟨valid, txSet'⟩, hcheck, rfl⟩ := map_eq_ok.mp hvalid
    obtain ⟨_, _, hnow⟩ := checkNow_of_checkValid (hcache _ _ hset) hcheck
    exact follows_of_checkNow hnow
  · obtain ⟨_, hadm⟩ := admitted_of_mem (hcache _ _ hset) hvalid htx
    exact hadm.operations_ne

end HerderSCPDriver

/-! ## Reading the candidates -/

theorem addUpgrades_eq {steps : List UpgradeType}
    (hdec : ∀ op ∈ steps, ∃ s, LedgerUpgrade.codec.fromOpaque op = some s)
    (upgrades : UpgradeMap) :
    addUpgrades steps upgrades
      = (steps.filterMap LedgerUpgrade.codec.fromOpaque).foldlM addUpgrade upgrades := by
  induction steps generalizing upgrades with
  | nil => rfl
  | cons op steps ih =>
    obtain ⟨⟨s, hs⟩, hdec⟩ := forall_mem_cons.mp hdec
    simp only [addUpgrades, hs, filterMap_cons, foldlM_cons]
    exact bind_congr (ih hdec)

namespace HerderSCPDriver

section

variable {E : Type} [HashFunction] {d : HerderSCPDriver E}
  {cs : List (StellarValue × TxSetFrame Tx)} {candidatesHash : Hash}

/-- Whatever the hash comes to, reading the candidates adds all their steps. -/
theorem readCandidates_eq {candidates : List Value}
    (hread : ∀ v ∈ candidates, ∃ c, d.read v = some c ∧ d.Usable c) (hash : Hash)
    (upgrades : UpgradeMap) :
    readCandidates candidates hash upgrades
      = (((candidates.filterMap d.read).flatMap (·.1.proposals)).foldlM addUpgrade upgrades).map
        fun m => ((candidates.filterMap d.read).map (·.1),
          candidates.foldl (fun h v => h ^^^ sha256 v) hash, m) := by
  induction candidates generalizing hash upgrades with
  | nil => rfl
  | cons v candidates ih =>
    obtain ⟨⟨c, hc, husable⟩, hread⟩ := forall_mem_cons.mp hread
    have hadd : addUpgrades c.1.upgrades upgrades = c.1.proposals.foldlM addUpgrade upgrades :=
      addUpgrades_eq (fun op hop => (husable.decodes op hop).imp fun _ h => h.1) upgrades
    simp only [readCandidates, (read_eq_some.mp hc).1, filterMap_cons, hc,
      flatMap_cons, foldlM_append, map_cons, foldl_cons, hadd]
    cases c.1.proposals.foldlM addUpgrade upgrades with
    | error e => rfl
    | ok m =>
      simp only [ih hread, ok_bind]
      cases ((candidates.filterMap d.read).flatMap (·.1.proposals)).foldlM addUpgrade m <;> rfl

/-! ## The best transaction set -/

/-- No transaction of the set bids below zero. -/
def NoDebt (txSet : TxSetFrame Tx) : Prop := ∀ tx ∈ txSet.mTransactions, 0 ≤ getFeeBid tx

/-- Whether a candidate can be compared with those before it: if it ties with
the largest of them, the fees of both are added up. -/
def Comparable (header : LedgerHeader) (seen : List (StellarValue × TxSetFrame Tx))
    (c : StellarValue × TxSetFrame Tx) : Prop :=
  ∀ b ∈ seen, b.2.size header = c.2.size header →
    (∀ x ∈ seen, x.2.size header ≤ c.2.size header) → NoDebt b.2 ∧ NoDebt c.2

theorem getTotalFees_ok_iff {header : LedgerHeader} {txSet : TxSetFrame Tx}
    (hv : header.StartsFrom 11)
    (hops : ∀ tx ∈ txSet.mTransactions, getNumOperations tx ≠ 0) :
    (∃ fee, txSet.getTotalFees header = .ok fee) ↔ NoDebt txSet := by
  constructor
  · rintro ⟨fee, h⟩
    obtain ⟨baseFee, hbase, -⟩ := bind_eq_ok.mp h
    exact bids_of_getBaseFee hv hbase
  · intro hbids
    exact ⟨_, bind_eq_ok.mpr ⟨_, getBaseFee_eq hv hops hbids, rfl⟩⟩

variable {l r : TxSetFrame Tx} {lh rh s : Hash} {b : Bool} {v : Value}

theorem compareTxSets_ok_iff (header : LedgerHeader) (lh rh s : Hash)
    (hl : ∀ tx ∈ l.mTransactions, getNumOperations tx ≠ 0)
    (hr : ∀ tx ∈ r.mTransactions, getNumOperations tx ≠ 0) :
    (∃ b, compareTxSets l r lh rh header s = .ok b)
      ↔ (protocolVersionStartsFrom header.ledgerVersion 11 = true →
          l.size header = r.size header → NoDebt l ∧ NoDebt r) := by
  unfold compareTxSets
  split
  · exact ⟨fun _ _ heq => by omega, fun _ => ⟨_, rfl⟩⟩
  split
  · exact ⟨fun _ _ heq => by omega, fun _ => ⟨_, rfl⟩⟩
  have heq : l.size header = r.size header := by omega
  split
  · rename_i hv
    simp only [hv, heq, forall_const]
    constructor
    · rintro ⟨b, h⟩
      obtain ⟨lFee, hlFee, h⟩ := bind_eq_ok.mp h
      obtain ⟨rFee, hrFee, -⟩ := bind_eq_ok.mp h
      exact ⟨(getTotalFees_ok_iff hv hl).mp ⟨_, hlFee⟩, (getTotalFees_ok_iff hv hr).mp ⟨_, hrFee⟩⟩
    · rintro ⟨hdl, hdr⟩
      obtain ⟨lFee, hlFee⟩ := (getTotalFees_ok_iff hv hl).mpr hdl
      obtain ⟨rFee, hrFee⟩ := (getTotalFees_ok_iff hv hr).mpr hdr
      simp only [hlFee, hrFee, ok_bind]
      split_ifs
      all_goals exact ⟨_, rfl⟩
  · rename_i hv
    exact ⟨fun _ hv' => absurd hv' hv, fun _ => ⟨_, rfl⟩⟩

/-- Size comes first. -/
theorem size_of_compareTxSets {header : LedgerHeader}
    (h : compareTxSets l r lh rh header s = .ok b) :
    if b then l.size header ≤ r.size header else r.size header ≤ l.size header := by
  unfold compareTxSets at h
  split at h
  · cases h
    simp only [if_true]
    omega
  split at h
  · cases h
    simp only [Bool.false_eq_true, if_false]
    omega
  · split <;> omega

/-- The best of the candidates seen so far: a largest one. If it is free of
debt then so is every other of its size, since it was compared with it. -/
structure Best (header : LedgerHeader) (seen : List (StellarValue × TxSetFrame Tx))
    (best : StellarValue × TxSetFrame Tx) : Prop where
  mem : best ∈ seen
  largest : ∀ x ∈ seen, x.2.size header ≤ best.2.size header
  ties : protocolVersionStartsFrom header.ledgerVersion 11 = true →
    ∀ x ∈ seen, x.2.size header = best.2.size header → NoDebt best.2 → NoDebt x.2

variable {header : LedgerHeader} {seen : List (StellarValue × TxSetFrame Tx)}
  {best c : StellarValue × TxSetFrame Tx}

theorem best_singleton (c : StellarValue × TxSetFrame Tx) : Best header [c] c :=
  ⟨by simp, by simp, fun _ x hx _ hd => by rwa [mem_singleton.mp hx]⟩

theorem Best.comparable_iff (h : Best header seen best) (hv : header.StartsFrom 11) :
    Comparable header seen c
      ↔ (best.2.size header = c.2.size header → NoDebt best.2 ∧ NoDebt c.2) := by
  constructor
  · intro hc heq
    exact hc best h.mem heq fun x hx => heq ▸ h.largest x hx
  · intro hc b hb heq hlargest
    have hbest : best.2.size header = c.2.size header :=
      Nat.le_antisymm (hlargest best h.mem) (heq ▸ h.largest b hb)
    obtain ⟨hdbest, hdc⟩ := hc hbest
    exact ⟨h.ties hv b hb (heq.trans hbest.symm) hdbest, hdc⟩

theorem Best.next (h : Best header seen best)
    (hbest : ∀ tx ∈ best.2.mTransactions, getNumOperations tx ≠ 0)
    (hc : ∀ tx ∈ c.2.mTransactions, getNumOperations tx ≠ 0)
    (hb : compareTxSets best.2 c.2 lh rh header s = .ok b) :
    Best header (seen ++ [c]) (if b then c else best) := by
  have hsize := size_of_compareTxSets hb
  have hdebt := (compareTxSets_ok_iff header lh rh s hbest hc).mp ⟨b, hb⟩
  cases b with
  | true =>
    simp only [if_true] at hsize ⊢
    refine ⟨by simp, fun x hx => ?_, fun hv x hx heq hd => ?_⟩
    · rcases mem_append.mp hx with hx | hx
      · exact (h.largest x hx).trans hsize
      · rw [mem_singleton.mp hx]
    · rcases mem_append.mp hx with hx | hx
      · have hle := h.largest x hx
        have hties : best.2.size header = c.2.size header := by omega
        exact h.ties hv x hx (by omega) (hdebt hv hties).1
      · rwa [mem_singleton.mp hx]
  | false =>
    refine ⟨mem_append_left _ h.mem, fun x hx => ?_, fun hv x hx heq hd => ?_⟩
    · rcases mem_append.mp hx with hx | hx
      · exact h.largest x hx
      · rw [mem_singleton.mp hx]
        exact hsize
    · rcases mem_append.mp hx with hx | hx
      · exact h.ties hv x hx heq hd
      · obtain rfl := mem_singleton.mp hx
        exact (hdebt hv heq.symm).2

/-- Each candidate can be compared with those before it. -/
def AllComparable (header : LedgerHeader) (seen : List (StellarValue × TxSetFrame Tx)) :
    List (StellarValue × TxSetFrame Tx) → Prop
  | [] => True
  | c :: cs => Comparable header seen c ∧ AllComparable header (seen ++ [c]) cs

/-- One turn of the loop, once there is a best candidate. -/
theorem pickHighest_cons (hc : d.Usable c) (cs : List (StellarValue × TxSetFrame Tx))
    (best : StellarValue × TxSetFrame Tx) :
    d.pickHighest candidatesHash ((c :: cs).map (·.1)) (some best)
      = (compareTxSets best.2 c.2 best.1.txSetHash c.1.txSetHash d.lcl.header candidatesHash
          >>= fun b => d.pickHighest candidatesHash (cs.map (·.1))
            (some (if b then c else best))) := by
  simp only [map_cons, pickHighest, hc.known, isBetter, hc.follows, if_true]
  refine bind_congr fun b => ?_
  cases b <;> rfl

theorem pickHighest_spec {r : Option (StellarValue × TxSetFrame Tx)}
    (hbest : Best d.lcl.header seen best) (hu : ∀ c ∈ seen ++ cs, d.Usable c)
    (h : d.pickHighest candidatesHash (cs.map (·.1)) (some best) = .ok r) :
    ∃ c ∈ seen ++ cs, r = some c := by
  induction cs generalizing seen best with
  | nil =>
    cases h
    exact ⟨best, by simpa using hbest.mem, rfl⟩
  | cons c cs ih =>
    have hc := hu c (by simp)
    rw [pickHighest_cons hc] at h
    obtain ⟨b, hb, h⟩ := bind_eq_ok.mp h
    have husable := hu best (mem_append_left _ hbest.mem)
    have hnext := hbest.next husable.operations_ne hc.operations_ne hb
    rw [append_cons] at hu ⊢
    exact ih hnext hu h

theorem pickHighest_ok_iff (hbest : Best d.lcl.header seen best)
    (hu : ∀ c ∈ seen ++ cs, d.Usable c) :
    (∃ r, d.pickHighest candidatesHash (cs.map (·.1)) (some best) = .ok r)
      ↔ (protocolVersionStartsFrom d.lcl.header.ledgerVersion 11 = true →
          AllComparable d.lcl.header seen cs) := by
  induction cs generalizing seen best with
  | nil => exact ⟨fun _ _ => trivial, fun _ => ⟨_, rfl⟩⟩
  | cons c cs ih =>
    have hc := hu c (by simp)
    have husable := hu best (mem_append_left _ hbest.mem)
    have hok := compareTxSets_ok_iff d.lcl.header best.1.txSetHash c.1.txSetHash
      candidatesHash husable.operations_ne hc.operations_ne
    rw [append_cons] at hu
    rw [pickHighest_cons hc]
    simp only [bind_eq_ok]
    constructor
    · rintro ⟨r, b, hb, hr⟩ hv
      refine ⟨(hbest.comparable_iff hv).mpr (hok.mp ⟨b, hb⟩ hv), ?_⟩
      have hnext := hbest.next husable.operations_ne hc.operations_ne hb
      exact (ih hnext hu).mp ⟨r, hr⟩ hv
    · intro hall
      obtain ⟨b, hb⟩ := hok.mpr fun hv => (hbest.comparable_iff hv).mp (hall hv).1
      have hnext := hbest.next husable.operations_ne hc.operations_ne hb
      obtain ⟨r, hr⟩ := (ih hnext hu).mpr fun hv => (hall hv).2
      exact ⟨r, b, hb, hr⟩

/-! ## The combined value -/

/-- When candidates can be combined: no two of them propose a step of one type
that cannot be merged, some type is proposed by none, and no fees of a set with
a negative bid have to be added up. -/
structure Combinable (header : LedgerHeader) (cs : List (StellarValue × TxSetFrame Tx)) :
    Prop where
  merges : cs.Pairwise fun c c' => ∀ p ∈ c.1.proposals, ∀ q ∈ c'.1.proposals, Compatible p q
  room : ∃ t, ∀ c ∈ cs, ∀ p ∈ c.1.proposals, p.type ≠ t
  bids : protocolVersionStartsFrom header.ledgerVersion 11 = true → AllComparable header [] cs

/-- What the combined value of candidates is to be: the transaction set and
close time of one of them, and the union of their steps. -/
structure IsCombination (cs : List (StellarValue × TxSetFrame Tx)) (comp : StellarValue) :
    Prop where
  candidate : ∃ c ∈ cs, comp.txSetHash = c.1.txSetHash ∧ comp.closeTime = c.1.closeTime
  upgrades : ∃ steps, comp.upgrades = steps.map LedgerUpgrade.codec.toOpaque
    ∧ IsUnion (cs.flatMap (·.1.proposals)) steps

/-- Steps of one value never clash: their types ascend. -/
theorem Usable.compatible (h : d.Usable c) : c.1.proposals.Pairwise Compatible := by
  have hasc := pairwise_map.mp h.ascending
  refine hasc.imp fun {p q} hlt heq => ?_
  rw [heq] at hlt
  exact absurd hlt (Nat.lt_irrefl _)

/-- The first candidate is the best one until another is compared with it. -/
theorem pickHighest_first (hc : d.Usable c) (cs : List (StellarValue × TxSetFrame Tx)) :
    d.pickHighest candidatesHash ((c :: cs).map (·.1)) none
      = d.pickHighest candidatesHash (cs.map (·.1)) (some c) := by
  simp only [map_cons, pickHighest, hc.known, isBetter, hc.follows, if_true]
  rfl

theorem choice_mem {r : Option (StellarValue × TxSetFrame Tx)} (hu : ∀ c ∈ cs, d.Usable c)
    (hne : cs ≠ []) (h : d.pickHighest candidatesHash (cs.map (·.1)) none = .ok r) :
    ∃ c ∈ cs, r = some c := by
  cases cs with
  | nil => exact absurd rfl hne
  | cons c cs =>
    rw [pickHighest_first (hu c mem_cons_self)] at h
    exact pickHighest_spec (best_singleton c) hu h

/-- Choosing throws only when a comparison does. -/
theorem choice_ok_iff (candidatesHash : Hash) (hu : ∀ c ∈ cs, d.Usable c) (hne : cs ≠ []) :
    (∃ r, d.pickHighest candidatesHash (cs.map (·.1)) none = .ok r)
      ↔ (protocolVersionStartsFrom d.lcl.header.ledgerVersion 11 = true →
          AllComparable d.lcl.header [] cs) := by
  cases cs with
  | nil => exact absurd rfl hne
  | cons c cs =>
    rw [pickHighest_first (hu c mem_cons_self), pickHighest_ok_iff (best_singleton c) hu]
    exact forall_congr' fun _ => ⟨fun h => ⟨nofun, h⟩, fun h => h.2⟩

variable {candidates : List Value}

theorem filterMap_read_ne_nil (hread : ∀ v ∈ candidates, ∃ c, d.read v = some c ∧ d.Usable c)
    (hne : candidates ≠ []) : candidates.filterMap d.read ≠ [] := by
  obtain ⟨v, hv⟩ := exists_mem_of_ne_nil _ hne
  obtain ⟨c, hc, -⟩ := hread v hv
  exact ne_nil_of_mem (mem_filterMap.mpr ⟨v, hv, hc⟩)

theorem usable_of_mem (hread : ∀ v ∈ candidates, ∃ c, d.read v = some c ∧ d.Usable c)
    {c : StellarValue × TxSetFrame Tx} (hc : c ∈ candidates.filterMap d.read) : d.Usable c := by
  obtain ⟨v, hv, hread'⟩ := mem_filterMap.mp hc
  obtain ⟨c', hc', husable⟩ := hread v hv
  obtain rfl : c' = c := by simpa [hc'] using hread'
  exact husable

/-- A candidate that was chosen has a known transaction set, so its value can
be wrapped. -/
theorem wrapStellarValue_eq (hc : d.Usable c) (upgrades : List UpgradeType) :
    d.wrapStellarValue { c.1 with upgrades := upgrades }
      = .ok (StellarValue.codec.toOpaque { c.1 with upgrades := upgrades }) := by
  simp only [wrapStellarValue, hc.known]
  rfl

/-- `combineCandidates` on candidates that can be used: the steps are
collected, a best one is chosen, and its steps are replaced. -/
theorem combineCandidates_ok_iff (hread : ∀ v ∈ candidates, ∃ c, d.read v = some c ∧ d.Usable c)
    (hne : candidates ≠ []) :
    d.combineCandidates candidates = .ok v
      ↔ ∃ upgrades, ((candidates.filterMap d.read).flatMap (·.1.proposals)).foldlM addUpgrade
          (fun _ => none) = .ok upgrades
        ∧ ∃ c ∈ candidates.filterMap d.read,
          d.pickHighest (candidates.foldl (fun h v => h ^^^ sha256 v) 0)
            ((candidates.filterMap d.read).map (·.1)) none = .ok (some c)
          ∧ v = StellarValue.codec.toOpaque { c.1 with
              upgrades := (LedgerUpgradeType.all.filterMap upgrades).map
                LedgerUpgrade.codec.toOpaque } := by
  have hu : ∀ c ∈ candidates.filterMap d.read, d.Usable c := fun _ => usable_of_mem hread
  unfold combineCandidates
  rw [readCandidates_eq hread]
  simp only [bind_eq_ok, map_eq_ok]
  constructor
  · rintro ⟨_, ⟨upgrades, hcollect, rfl⟩, r, hr, h⟩
    obtain ⟨c, hc, rfl⟩ := choice_mem hu (filterMap_read_ne_nil hread hne) hr
    refine ⟨upgrades, hcollect, c, hc, hr, ?_⟩
    simp only [wrapStellarValue_eq (hu c hc)] at h
    exact (ok.inj h).symm
  · rintro ⟨upgrades, hcollect, c, hc, hr, rfl⟩
    exact ⟨_, ⟨upgrades, hcollect, rfl⟩, some c, hr, wrapStellarValue_eq (hu c hc) _⟩

variable [PubKeyUtils] [OperationFrame E] {I : Stl.Impl} {slotIndex : UInt64}

/-- The collected steps are steps of the candidates, so they are as valid. -/
theorem validateValue_combined (hcollect : Collects upgrades proposed) (hvalid : ∀ p ∈ proposed,
      validStep p d.lcl.header d.cfg.LEDGER_PROTOCOL_VERSION = true) {comp : StellarValue}
    (hsv : d.validateValueHelper I slotIndex sv = .ok kFullyValidatedValue)
    (hcomp : comp = { sv with upgrades :=
      (LedgerUpgradeType.all.filterMap upgrades).map LedgerUpgrade.codec.toOpaque })
    (hdec : StellarValue.codec.fromOpaque v = some comp) :
    d.validateValue I slotIndex v false = .ok kFullyValidatedValue := by
  refine validateValue_eq_full.mpr ⟨comp, hdec, ?_, ?_⟩
  · rw [hcomp]
    exact hsv
  · have hunion := hcollect.isUnion
    rw [hcomp]
    refine (upgradesValid_iff fun s hs => ?_).mpr hunion.ascending
    have hround := LedgerUpgrade.codec.fromOpaque_toOpaque (codec_fits s)
    refine isValid_of_decode hround ?_ nofun
    rw [isValidForApply_of_decode hround, if_pos (hvalid s (hunion.mem s hs))]

/-- Candidates that were fully validated combine into a value that has the
transaction set and close time of one of them and the union of their steps,
and is fully valid itself, exactly when they are combinable. -/
theorem combineCandidates_valid_iff (I : Stl.Impl) (d : HerderSCPDriver E) (slotIndex : UInt64)
    (candidates : List Value) (hne : candidates ≠ [])
    (hcache : ∀ h txSet, d.getTxSet h = some txSet → txSet.CacheSound I d.lcl)
    (hvalid : ∀ c ∈ candidates, d.validateValue I slotIndex c false = .ok kFullyValidatedValue) :
    (∃ v comp, d.combineCandidates candidates = .ok v
        ∧ StellarValue.codec.fromOpaque v = some comp
        ∧ IsCombination (candidates.filterMap d.read) comp
        ∧ d.validateValue I slotIndex v false = .ok kFullyValidatedValue)
      ↔ Combinable d.lcl.header (candidates.filterMap d.read) := by
  have hfull := fun v hv => usable_of_validateValue hcache (hvalid v hv)
  have hread : ∀ v ∈ candidates, ∃ c, d.read v = some c ∧ d.Usable c := fun v hv =>
    (hfull v hv).imp fun _ h => ⟨h.1, h.2.1⟩
  have hu : ∀ c ∈ candidates.filterMap d.read, d.Usable c := fun _ => usable_of_mem hread
  have hcs := filterMap_read_ne_nil hread hne
  constructor
  · rintro ⟨v, comp, hok, hdec, ⟨-, steps, hsteps, hunion⟩, -⟩
    obtain ⟨upgrades, hm, c, hc, hr, rfl⟩ := (combineCandidates_ok_iff hread hne).mp hok
    have hpair := ((foldlM_addUpgrade_ok_iff collects_nil).mp ⟨upgrades, hm⟩).1
    refine ⟨(pairwise_flatMap.mp hpair).2, ?_, (choice_ok_iff _ hu hcs).mp ⟨_, hr⟩⟩
    have hlen := ((codec_fits_iff comp).mp
      (StellarValue.codec.fits_of_fromOpaque hdec)).upgrades_length
    rw [hsteps, length_map] at hlen
    obtain ⟨t, ht⟩ := hunion.length_le_iff.mp hlen
    exact ⟨t, fun c hc p hp => ht p (mem_flatMap.mpr ⟨c, hc, hp⟩)⟩
  · rintro ⟨hmerges, ⟨t, ht⟩, hbids⟩
    obtain ⟨upgrades, hm⟩ := (foldlM_addUpgrade_ok_iff collects_nil).mpr
      ⟨pairwise_flatMap.mpr ⟨fun c hc => (hu c hc).compatible, hmerges⟩, nofun⟩
    have hcollect : Collects upgrades ((candidates.filterMap d.read).flatMap (·.1.proposals)) :=
      foldlM_addUpgrade_spec collects_nil hm
    obtain ⟨r, hr⟩ := (choice_ok_iff (candidates.foldl (fun h v => h ^^^ sha256 v) 0) hu hcs).mpr
      hbids
    obtain ⟨c, hc, rfl⟩ := choice_mem hu hcs hr
    obtain ⟨w, hw, hwc⟩ := mem_filterMap.mp hc
    obtain ⟨c', hc', -, hhelper⟩ := hfull w hw
    obtain rfl : c' = c := by simpa [hc'] using hwc
    have hwf := (codec_fits_iff c'.1).mp
      (StellarValue.codec.fits_of_fromOpaque (read_eq_some.mp hwc).1)
    have hlen := hcollect.isUnion.length_le_iff.mpr ⟨t, fun p hp => by
      obtain ⟨c, hc, hp⟩ := mem_flatMap.mp hp
      exact ht c hc p hp⟩
    have hdec := StellarValue.codec.fromOpaque_toOpaque
      ((codec_fits_iff _).mpr (hwf.setUpgrades hlen))
    refine ⟨_, _, (combineCandidates_ok_iff hread hne).mpr ⟨upgrades, hm, c', hc, hr, rfl⟩, hdec,
      ⟨⟨c', hc, rfl, rfl⟩, _, rfl, hcollect.isUnion⟩, ?_⟩
    refine validateValue_combined hcollect (fun p hp => ?_) hhelper rfl hdec
    obtain ⟨c, hc, hp⟩ := mem_flatMap.mp hp
    obtain ⟨op, hop, hpdec⟩ := mem_filterMap.mp hp
    obtain ⟨s, hs, hstep⟩ := (hu c hc).decodes op hop
    obtain rfl : s = p := by simpa [hs] using hpdec
    exact hstep

end

/-! ## Two candidates -/

open Evaluation

/-- A driver after ledger 2 that knows one transaction set. -/
def afterLedgerTwo : letI := bytesAsNumber; HerderSCPDriver Unit :=
  { lcl := ⟨5, oneAccount⟩
    cfg := { LEDGER_PROTOCOL_VERSION := 18 }
    mUpgrades := ⟨{ mUpgradeTime := 0 }⟩
    networkID := 0
    timeNow := 100
    isTracking := true
    nextConsensusLedgerIndex := 3
    trackingConsensusCloseTime := 0
    getTxSet := fun h => if h = 7 then some (TxSetFrame.fresh 5 [signedPayment 2000]) else none }

variable (closeTime : UInt64) (step : LedgerUpgrade)

/-- A signed value with one step. -/
def oneStep : StellarValue where
  txSetHash := 7
  closeTime := closeTime
  upgrades := [LedgerUpgrade.codec.toOpaque step]
  ext := .signed ⟨1, []⟩

theorem oneStep_decodes :
    StellarValue.codec.fromOpaque (StellarValue.codec.toOpaque (oneStep closeTime step))
      = some (oneStep closeTime step) := by
  refine StellarValue.codec.fromOpaque_toOpaque ((codec_fits_iff _).mpr ?_)
  have hwf : StellarValue.WellFormed { oneStep closeTime step with upgrades := [] } :=
    ⟨by simp, by simp, by rintro s ⟨⟩; simp⟩
  have hlen : [step].length ≤ maxUpgrades := by simp [maxUpgrades]
  exact hwf.setUpgrades hlen

theorem oneStep_proposals : (oneStep closeTime step).proposals = [step] :=
  proposals_encode (oneStep closeTime step) [step]

theorem oneStep_validated {closeTime : UInt64} {step : LedgerUpgrade} :
    validStep step oneAccount.header 18 = true →
    afterLedgerTwo.validateValueHelper Stl.insertion 3
      { oneStep closeTime step with upgrades := [] }
      = .ok kFullyValidatedValue →
    afterLedgerTwo.validateValue Stl.insertion 3
        (StellarValue.codec.toOpaque (oneStep closeTime step)) false
      = .ok kFullyValidatedValue := by
  intro hstep hhelper
  refine validateValue_eq_full.mpr ⟨_, oneStep_decodes closeTime step, hhelper, ?_⟩
  have hround := LedgerUpgrade.codec.fromOpaque_toOpaque (codec_fits step)
  have hvalid : ∀ s ∈ [step], afterLedgerTwo.mUpgrades.isValid (LedgerUpgrade.codec.toOpaque s)
      false afterLedgerTwo.cfg afterLedgerTwo.lcl.header = some s.type := by
    intro s hs
    obtain rfl := mem_singleton.mp hs
    refine isValid_of_decode hround ?_ nofun
    rw [isValidForApply_of_decode hround]
    exact if_pos hstep
  exact (upgradesValid_iff hvalid).mpr (by simp)

/-- Two candidates propose a new base fee: their combination has the larger
one. -/
theorem combineCandidates_valid_iff_base_fee :
    let candidates := [oneStep 1 (.newBaseFee 200), oneStep 2 (.newBaseFee 300)].map
      StellarValue.codec.toOpaque
    (∀ c ∈ candidates, afterLedgerTwo.validateValue Stl.insertion 3 c false
        = .ok kFullyValidatedValue)
      ∧ ∃ v comp, afterLedgerTwo.combineCandidates candidates = .ok v
        ∧ StellarValue.codec.fromOpaque v = some comp
        ∧ IsCombination (candidates.filterMap afterLedgerTwo.read) comp
        ∧ afterLedgerTwo.validateValue Stl.insertion 3 v false = .ok kFullyValidatedValue := by
  have hvalid : ∀ c ∈ [oneStep 1 (.newBaseFee 200), oneStep 2 (.newBaseFee 300)].map
      StellarValue.codec.toOpaque, afterLedgerTwo.validateValue Stl.insertion 3 c false
        = .ok kFullyValidatedValue := by
    simp only [map_cons, map_nil, forall_mem_cons]
    exact ⟨oneStep_validated (by decide) (by decide +kernel),
      oneStep_validated (by decide) (by decide +kernel), nofun⟩
  have hcache : ∀ h txSet, afterLedgerTwo.getTxSet h = some txSet →
      txSet.CacheSound Stl.insertion afterLedgerTwo.lcl := by
    intro h txSet hset
    simp only [afterLedgerTwo] at hset
    split at hset
    · cases hset
      exact nofun
    · cases hset
  refine ⟨hvalid, (combineCandidates_valid_iff Stl.insertion afterLedgerTwo 3 _ (by simp) hcache
    hvalid).mpr ?_⟩
  have hread : ∀ closeTime step, afterLedgerTwo.read
      (StellarValue.codec.toOpaque (oneStep closeTime step))
        = some (oneStep closeTime step, TxSetFrame.fresh 5 [signedPayment 2000]) := fun _ _ =>
    read_eq_some.mpr ⟨oneStep_decodes _ _, rfl⟩
  simp only [map_cons, map_nil, filterMap_cons, hread, filterMap_nil]
  have hdebt : NoDebt (TxSetFrame.fresh 5 [signedPayment 2000]) := by
    intro tx htx
    obtain rfl := mem_singleton.mp htx
    decide
  refine ⟨?_, ⟨.flags, ?_⟩, fun _ => ⟨nofun, ⟨?_, trivial⟩⟩⟩
  · simp [oneStep_proposals, Compatible, LedgerUpgrade.type, LedgerUpgradeType.Merges]
  · simp [oneStep_proposals, LedgerUpgrade.type]
  · intro b hb _ _
    obtain rfl := mem_singleton.mp hb
    exact ⟨hdebt, hdebt⟩

/-- Two candidates propose one new percentage fee. Each is fully valid, and
combining them throws. -/
theorem percentage_fee_twice_throws :
    let candidates :=
      [oneStep 1 (.newBasePercentageFee 50), oneStep 2 (.newBasePercentageFee 50)].map
      StellarValue.codec.toOpaque
    (∀ c ∈ candidates, afterLedgerTwo.validateValue Stl.insertion 3 c false
        = .ok kFullyValidatedValue)
      ∧ afterLedgerTwo.combineCandidates candidates = .error "invalid upgrade step" := by
  refine ⟨?_, ?_⟩
  · simp only [map_cons, map_nil, forall_mem_cons]
    exact ⟨oneStep_validated (by decide) (by decide +kernel),
      oneStep_validated (by decide) (by decide +kernel), nofun⟩
  · have hround := LedgerUpgrade.codec.fromOpaque_toOpaque
      (codec_fits (.newBasePercentageFee 50))
    have hsteps : ∀ t, (oneStep t (.newBasePercentageFee 50)).upgrades
        = [LedgerUpgrade.codec.toOpaque (.newBasePercentageFee 50)] := fun _ => rfl
    simp only [map_cons, map_nil, combineCandidates, readCandidates, oneStep_decodes, hsteps,
      addUpgrades, hround, addUpgrade, LedgerUpgrade.type, update_self, mergeUpgrade, ok_bind,
      pure_eq]
    rfl

end HerderSCPDriver

end KinesisCore

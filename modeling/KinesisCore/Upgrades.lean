import Mathlib.Data.List.Chain
import KinesisCore.LedgerHeader

/-!
# Upgrade steps: proposing them and judging them

`Upgrades::createUpgradesFor` builds the steps a node proposes from the
parameters its operator armed; `Upgrades::isValid` judges a step, and the
loop of `HerderSCPDriver::validateValue` judges a whole list of them: each
step valid, types strictly ascending.

The two sides meet in `upgradesValid_iff`: on steps that are valid one by
one the loop accepts exactly the lists of strictly ascending type. What
remains is the order in which `createUpgradesFor` pushes. The flags come
before the percentage fee and the maximum fee, whose discriminants are
smaller, and those two blocks occur twice, so a proposal survives the
node's own loop exactly when neither of them is pushed.
-/

namespace KinesisCore

open Xdr List LedgerUpgrade

/-- A point in time as the standard library's system clock counts it: in
nanoseconds since the epoch, in 64 bits. -/
abbrev SystemTimePoint := Int64

namespace VirtualClock

def fromTimeT (timet : UInt64) : SystemTimePoint := timet.toInt64 * 1000000000

end VirtualClock

structure Config where
  LEDGER_PROTOCOL_VERSION : UInt32
  deriving Repr, DecidableEq

structure UpgradeParameters where
  mUpgradeTime : SystemTimePoint
  mProtocolVersion : Option UInt32 := none
  mBaseFee : Option UInt32 := none
  mMaxTxSetSize : Option UInt32 := none
  mBasePercentageFee : Option UInt32 := none
  mMaxFee : Option UInt64 := none
  mBaseReserve : Option UInt32 := none
  mFlags : Option UInt32 := none
  deriving Repr, DecidableEq

structure Upgrades where
  mParams : UpgradeParameters
  deriving Repr, DecidableEq

inductive UpgradeValidity where
  | valid
  | xdrInvalid
  | invalid
  deriving Repr, DecidableEq

def MASK_LEDGER_HEADER_FLAGS : UInt32 := 0x7

namespace Upgrades

/-! ## Proposing -/

variable (u : Upgrades)

def timeForUpgrade (time : UInt64) : Bool :=
  u.mParams.mUpgradeTime ≤ VirtualClock.fromTimeT time

/-- One block of `createUpgradesFor`: push the step if the parameter is
armed and the header does not have its value yet. -/
def stepFor {α : Type} [DecidableEq α] (armed : Option α) (current : α)
    (step : α → LedgerUpgrade) : List LedgerUpgrade :=
  match armed with
  | some v => if current ≠ v then [step v] else []
  | none => []

/-- The steps in the order of the source's blocks: flags before the two
fees, and the two fees pushed once more at the end. -/
def createUpgradesFor (header : LedgerHeader) : List LedgerUpgrade :=
  if !u.timeForUpgrade header.scpValue.closeTime then []
  else
    stepFor u.mParams.mProtocolVersion header.ledgerVersion .newLedgerVersion
      ++ stepFor u.mParams.mBaseFee header.baseFee .newBaseFee
      ++ stepFor u.mParams.mMaxTxSetSize header.maxTxSetSize .newMaxTxSetSize
      ++ stepFor u.mParams.mBaseReserve header.baseReserve .newBaseReserve
      ++ stepFor u.mParams.mFlags header.getFlags .newFlags
      ++ stepFor u.mParams.mBasePercentageFee header.basePercentageFee .newBasePercentageFee
      ++ stepFor u.mParams.mMaxFee header.maxFee .newMaxFee
      ++ stepFor u.mParams.mBasePercentageFee header.basePercentageFee .newBasePercentageFee
      ++ stepFor u.mParams.mMaxFee header.maxFee .newMaxFee

/-- Every step the parameters arm, whatever the header. -/
def armed : List LedgerUpgrade :=
  (u.mParams.mProtocolVersion.map .newLedgerVersion).toList
    ++ (u.mParams.mBaseFee.map .newBaseFee).toList
    ++ (u.mParams.mMaxTxSetSize.map .newMaxTxSetSize).toList
    ++ (u.mParams.mBaseReserve.map .newBaseReserve).toList
    ++ (u.mParams.mBasePercentageFee.map .newBasePercentageFee).toList
    ++ (u.mParams.mMaxFee.map .newMaxFee).toList
    ++ (u.mParams.mFlags.map .newFlags).toList

/-! ## Judging one step -/

/-- The `switch` of `isValidForApply` on a decoded step. -/
def validStep (upgrade : LedgerUpgrade) (header : LedgerHeader) (maxLedgerVersion : UInt32) :
    Bool :=
  match upgrade with
  | .newLedgerVersion v => v ≤ maxLedgerVersion && v > header.ledgerVersion
  | .newBaseFee v => v ≠ 0
  | .newMaxTxSetSize _ => true
  | .newBaseReserve v => v ≠ 0
  | .newBasePercentageFee v => v ≠ 0
  | .newMaxFee v => v ≠ 0
  | .newFlags v =>
    protocolVersionStartsFrom header.ledgerVersion 18 && v &&& ~~~MASK_LEDGER_HEADER_FLAGS == 0

/-- The validity of an encoded step, and the step itself when it decodes. -/
def isValidForApply (opaqueUpgrade : UpgradeType) (header : LedgerHeader)
    (maxLedgerVersion : UInt32) : UpgradeValidity × Option LedgerUpgrade :=
  match LedgerUpgrade.codec.fromOpaque opaqueUpgrade with
  | none => (.xdrInvalid, none)
  | some upgrade =>
    (if validStep upgrade header maxLedgerVersion then .valid else .invalid, some upgrade)

def isValidForNomination (upgrade : LedgerUpgrade) (header : LedgerHeader) : Bool :=
  u.timeForUpgrade header.scpValue.closeTime
    && match upgrade with
      | .newLedgerVersion v => u.mParams.mProtocolVersion == some v
      | .newBaseFee v => u.mParams.mBaseFee == some v
      | .newMaxTxSetSize v => u.mParams.mMaxTxSetSize == some v
      | .newBaseReserve v => u.mParams.mBaseReserve == some v
      | .newBasePercentageFee v => u.mParams.mBasePercentageFee == some v
      | .newMaxFee v => u.mParams.mMaxFee == some v
      | .newFlags v => u.mParams.mFlags == some v

/-- `isValid` with its output parameter: the type of a valid step. -/
def isValid (upgrade : UpgradeType) (nomination : Bool) (cfg : Config)
    (header : LedgerHeader) : Option LedgerUpgradeType :=
  match isValidForApply upgrade header cfg.LEDGER_PROTOCOL_VERSION with
  | (.valid, some lupgrade) =>
    if nomination && !u.isValidForNomination lupgrade header then none
    else some lupgrade.type
  | _ => none

end Upgrades

/-! ## Judging a list -/

namespace HerderSCPDriver

/-- The upgrade loop of `validateValue`: the `i`-th step must be valid and,
unless it is the first, of a larger type than the one before. -/
def upgradeLoop (u : Upgrades) (nomination : Bool) (cfg : Config) (header : LedgerHeader) :
    Nat → LedgerUpgradeType → List UpgradeType → Bool
  | _, _, [] => true
  | i, lastUpgradeType, step :: steps =>
    match u.isValid step nomination cfg header with
    | none => false
    | some thisUpgradeType =>
      if i ≠ 0 ∧ ¬lastUpgradeType < thisUpgradeType then false
      else upgradeLoop u nomination cfg header (i + 1) thisUpgradeType steps

def upgradesValid (u : Upgrades) (nomination : Bool) (cfg : Config) (header : LedgerHeader)
    (steps : List UpgradeType) : Bool :=
  upgradeLoop u nomination cfg header 0 .version steps

end HerderSCPDriver

/-- The loop of `HerderImpl::triggerNextLedger` that turns the proposed
steps into the entries of a `StellarValue`, leaving out oversized ones. -/
def HerderImpl.newUpgrades (u : Upgrades) (header : LedgerHeader) : List UpgradeType :=
  (u.createUpgradesFor header).filterMap fun upgrade =>
    let v := LedgerUpgrade.codec.toOpaque upgrade
    if UpgradeType.maxSize ≤ v.length then none else some v

/-! ## The loop accepts the ascending lists of valid steps -/

namespace HerderSCPDriver

variable {u : Upgrades} {nomination : Bool} {cfg : Config} {header : LedgerHeader} {α : Type}
  {encode : α → UpgradeType} {type : α → LedgerUpgradeType}

/-- From the second entry on the loop checks a chain that starts at the
last type seen. -/
theorem upgradeLoop_chain :
    ∀ {steps : List α} {i : Nat} {last : LedgerUpgradeType},
      (∀ s ∈ steps, u.isValid (encode s) nomination cfg header = some (type s)) →
      (upgradeLoop u nomination cfg header (i + 1) last (steps.map encode) = true
        ↔ (last :: steps.map type).IsChain (· < ·))
  | [], _, _, _ => by simp [upgradeLoop]
  | s :: steps, i, last, h => by
    have hs := h s mem_cons_self
    simp only [map_cons, upgradeLoop, hs, isChain_cons_cons]
    by_cases hlt : last < type s
    · simp only [hlt, not_true_eq_false, and_false, if_false, true_and]
      exact upgradeLoop_chain fun t ht => h t (mem_cons_of_mem s ht)
    · simp [hlt]

/-- On steps that are valid one by one, the loop accepts exactly the lists
of strictly ascending type. -/
theorem upgradesValid_iff :
    ∀ {steps : List α}, (∀ s ∈ steps, u.isValid (encode s) nomination cfg header = some (type s)) →
      (upgradesValid u nomination cfg header (steps.map encode) = true
        ↔ (steps.map type).Pairwise (· < ·))
  | [], _ => by simp [upgradesValid, upgradeLoop]
  | s :: steps, h => by
    have hs := h s mem_cons_self
    have hloop : upgradesValid u nomination cfg header ((s :: steps).map encode)
        = upgradeLoop u nomination cfg header (0 + 1) (type s) (steps.map encode) := by
      simp only [upgradesValid, map_cons, upgradeLoop, hs, ne_eq, not_true_eq_false,
        false_and, if_false]
    rw [hloop, upgradeLoop_chain fun t ht => h t (mem_cons_of_mem s ht),
      isChain_iff_pairwise, map_cons]

end HerderSCPDriver

/-! ## What a node proposes -/

namespace Upgrades

variable {u : Upgrades} {cfg : Config} {header : LedgerHeader} {s : LedgerUpgrade}
  {op : UpgradeType}

section

variable (h : LedgerUpgrade.codec.fromOpaque op = some s)
include h

theorem isValidForApply_of_decode (maxLedgerVersion : UInt32) :
    isValidForApply op header maxLedgerVersion
      = (if validStep s header maxLedgerVersion then .valid else .invalid, some s) := by
  simp only [isValidForApply, h]

theorem isValid_of_decode {nomination : Bool}
    (happly : (isValidForApply op header cfg.LEDGER_PROTOCOL_VERSION).1 = .valid)
    (hnom : nomination = true → u.isValidForNomination s header = true) :
    u.isValid op nomination cfg header = some s.type := by
  have heq : isValidForApply op header cfg.LEDGER_PROTOCOL_VERSION = _ :=
    isValidForApply_of_decode h _
  have hvalid : validStep s header cfg.LEDGER_PROTOCOL_VERSION = true := by
    rw [heq] at happly
    by_contra hinv
    rw [if_neg hinv] at happly
    cases happly
  rw [if_pos hvalid] at heq
  unfold isValid
  rw [heq]
  cases nomination with
  | false => rfl
  | true => simp [hnom rfl]

end

section

variable (htime : u.timeForUpgrade header.scpValue.closeTime = true)
include htime

/-- The node's own armed values are the ones it votes for. -/
theorem isValidForNomination_of_armed (hs : s ∈ u.armed) :
    u.isValidForNomination s header = true := by
  unfold isValidForNomination
  rw [htime]
  cases s <;> simpa [armed] using hs

variable {α : Type} {armed : Option α} {current : α} {step : α → LedgerUpgrade}

omit htime in
theorem stepFor_subset [DecidableEq α] (h : s ∈ stepFor armed current step) :
    s ∈ (armed.map step).toList := by
  cases armed with
  | none => exact h
  | some v =>
    simp only [stepFor] at h
    split at h
    · exact h
    · cases h

omit htime in
theorem createUpgradesFor_subset_armed (h : s ∈ u.createUpgradesFor header) : s ∈ u.armed := by
  unfold createUpgradesFor at h
  split at h
  · cases h
  · simp only [armed, mem_append]
    grind [stepFor_subset]

omit htime in
/-- A block pushes its own type, at most once. -/
theorem stepFor_types_sublist [DecidableEq α] (armed : Option α) (current : α)
    {t : LedgerUpgradeType} (ht : ∀ v, (step v).type = t) :
    ((stepFor armed current step).map (·.type)).Sublist [t] := by
  unfold stepFor
  split
  · split
    · simp [ht]
    · exact nil_sublist _
  · exact nil_sublist _

omit htime in
theorem stepFor_eq_nil_iff [DecidableEq α] :
    stepFor armed current step = [] ↔ ∀ v, armed = some v → current = v := by
  cases armed with
  | none | some v => simp [stepFor]

theorem createUpgradesFor_of_time : (u.createUpgradesFor header).map (·.type)
      = (stepFor u.mParams.mProtocolVersion header.ledgerVersion .newLedgerVersion
          ++ stepFor u.mParams.mBaseFee header.baseFee .newBaseFee
          ++ stepFor u.mParams.mMaxTxSetSize header.maxTxSetSize .newMaxTxSetSize
          ++ stepFor u.mParams.mBaseReserve header.baseReserve .newBaseReserve
          ++ stepFor u.mParams.mFlags header.getFlags .newFlags).map (·.type)
        ++ ((stepFor u.mParams.mBasePercentageFee header.basePercentageFee .newBasePercentageFee
            ++ stepFor u.mParams.mMaxFee header.maxFee .newMaxFee).map (·.type)
          ++ (stepFor u.mParams.mBasePercentageFee header.basePercentageFee .newBasePercentageFee
            ++ stepFor u.mParams.mMaxFee header.maxFee .newMaxFee).map (·.type)) := by
  simp [createUpgradesFor, htime]

/-- Without the two fees, the blocks push an ascending selection of the
other five types. -/
theorem createUpgradesFor_types_sublist
    (hpct : ∀ v, u.mParams.mBasePercentageFee = some v → header.basePercentageFee = v)
    (hmax : ∀ v, u.mParams.mMaxFee = some v → header.maxFee = v) :
    ((u.createUpgradesFor header).map (·.type)).Sublist
      [.version, .baseFee, .maxTxSetSize, .baseReserve, .flags] := by
  rw [createUpgradesFor_of_time htime, stepFor_eq_nil_iff.mpr hpct, stepFor_eq_nil_iff.mpr hmax]
  simp only [map_append, append_nil, map_nil]
  show List.Sublist (α := LedgerUpgradeType) _
    ([.version] ++ [.baseFee] ++ [.maxTxSetSize] ++ [.baseReserve] ++ [.flags])
  refine .append (.append (.append (.append ?_ ?_) ?_) ?_) ?_ <;>
    exact stepFor_types_sublist _ _ fun _ => rfl

/-- The order of the proposed types: ascending exactly when neither of the
two doubly pushed fees is pushed. -/
theorem createUpgradesFor_ascending_iff :
    ((u.createUpgradesFor header).map (·.type)).Pairwise (· < ·)
      ↔ (∀ v, u.mParams.mBasePercentageFee = some v → header.basePercentageFee = v)
        ∧ ∀ v, u.mParams.mMaxFee = some v → header.maxFee = v := by
  constructor
  · intro hasc
    rw [createUpgradesFor_of_time htime, pairwise_append, pairwise_append] at hasc
    -- both halves of the tail are the same list, so it must be empty
    obtain ⟨-, ⟨-, -, hcross⟩, -⟩ := hasc
    have hnil : stepFor u.mParams.mBasePercentageFee header.basePercentageFee
          newBasePercentageFee
        ++ stepFor u.mParams.mMaxFee header.maxFee newMaxFee = [] := by
      refine eq_nil_iff_forall_not_mem.mpr fun s hs => ?_
      have hmem := mem_map_of_mem (f := (·.type)) hs
      exact Nat.lt_irrefl _ (hcross _ hmem _ hmem)
    rw [append_eq_nil_iff, stepFor_eq_nil_iff, stepFor_eq_nil_iff] at hnil
    exact hnil
  · rintro ⟨hpct, hmax⟩
    exact List.Pairwise.sublist (createUpgradesFor_types_sublist htime hpct hmax) (by decide)

end

theorem newUpgrades_eq :
    HerderImpl.newUpgrades u header
      = (u.createUpgradesFor header).map LedgerUpgrade.codec.toOpaque := by
  rw [← filterMap_eq_map]
  refine filterMap_congr fun s _ => ?_
  have hlen := codec_put_length s
  rw [if_neg]
  · rfl
  · rw [Codec.toOpaque, UpgradeType.maxSize]
    omega

/-- A proposal the node itself would accept: within the wire format's
bound, in ascending order, and past the loop of `validateValue`. -/
structure SelfAccepted (u : Upgrades) (cfg : Config) (header : LedgerHeader) : Prop where
  length_le : (u.createUpgradesFor header).length ≤ StellarValue.maxUpgrades
  ascending : ((u.createUpgradesFor header).map (·.type)).Pairwise (· < ·)
  loop : HerderSCPDriver.upgradesValid u true cfg header (HerderImpl.newUpgrades u header)
    = true

/-- A node whose armed values are valid one by one accepts its own
proposal exactly when it arms no percentage fee and no maximum fee that
the header does not have already. -/
theorem selfAccepted_iff (u : Upgrades) (cfg : Config) (header : LedgerHeader)
    (htime : u.timeForUpgrade header.scpValue.closeTime = true)
    (hvalid : ∀ s ∈ u.armed,
      (isValidForApply (LedgerUpgrade.codec.toOpaque s) header
        cfg.LEDGER_PROTOCOL_VERSION).1 = .valid) :
    SelfAccepted u cfg header
      ↔ (∀ v, u.mParams.mBasePercentageFee = some v → header.basePercentageFee = v)
        ∧ ∀ v, u.mParams.mMaxFee = some v → header.maxFee = v := by
  constructor
  · intro h
    exact (createUpgradesFor_ascending_iff htime).mp h.ascending
  · rintro ⟨hpct, hmax⟩
    have hasc := (createUpgradesFor_ascending_iff htime).mpr ⟨hpct, hmax⟩
    have hsub := createUpgradesFor_types_sublist htime hpct hmax
    refine ⟨?_, hasc, ?_⟩
    · have hle := hsub.length_le
      rw [length_map] at hle
      exact hle.trans (by decide)
    · rw [newUpgrades_eq, HerderSCPDriver.upgradesValid_iff]
      · exact hasc
      · intro s hs
        have harmed := createUpgradesFor_subset_armed hs
        exact isValid_of_decode
          (LedgerUpgrade.codec.fromOpaque_toOpaque (codec_fits s))
          (hvalid s harmed) fun _ => isValidForNomination_of_armed htime harmed

theorem selfAccepted_iff_header45 :
    let u : Upgrades := ⟨{ mUpgradeTime := 0, mBaseFee := some 200, mMaxTxSetSize := some 500 }⟩
    SelfAccepted u ⟨14⟩ header45 := by
  intro u
  refine (selfAccepted_iff u ⟨14⟩ header45 (by decide) ?_).mpr ⟨?_, ?_⟩
  · intro s hs
    rw [isValidForApply_of_decode
      (LedgerUpgrade.codec.fromOpaque_toOpaque (codec_fits s))]
    have hstep : ∀ s ∈ u.armed, validStep s header45 14 = true := by decide
    rw [if_pos (hstep s hs)]
  · simp [u]
  · simp [u]

/-- Arming a percentage fee of 50 basis points over that header: every
armed value is valid, but the step is pushed twice. -/
theorem not_selfAccepted_percentageFee :
    let u : Upgrades := ⟨{ mUpgradeTime := 0, mBasePercentageFee := some 50 }⟩
    u.timeForUpgrade header45.scpValue.closeTime = true
      ∧ (∀ s ∈ u.armed, (isValidForApply (LedgerUpgrade.codec.toOpaque s) header45 14).1 = .valid)
      ∧ u.createUpgradesFor header45 = [.newBasePercentageFee 50, .newBasePercentageFee 50]
      ∧ ¬SelfAccepted u ⟨14⟩ header45 := by
  intro u
  have htime : u.timeForUpgrade header45.scpValue.closeTime = true := by decide
  refine ⟨htime, fun s hs => ?_, by decide, fun h => ?_⟩
  · have hstep : ∀ s ∈ u.armed, validStep s header45 14 = true := by decide
    rw [isValidForApply_of_decode
      (LedgerUpgrade.codec.fromOpaque_toOpaque (codec_fits s)), if_pos (hstep s hs)]
  · have hpct := ((createUpgradesFor_ascending_iff htime).mp h.ascending).1 50 rfl
    exact absurd hpct (by decide)

end Upgrades

end KinesisCore

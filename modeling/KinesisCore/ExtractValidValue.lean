import KinesisCore.CombineCandidates

/-!
# Extracting a valid value (`HerderSCPDriver::extractValidValue`)

When a node in nomination meets a value it would not vote for as it is, it
asks the driver for one it would: the same value without the upgrade steps it
does not agree with. The steps are looked at one by one and stay in the order
in which the peer put them, while `validateValue` wants them in ascending
order of type, each type once. So what is extracted is valid exactly when the
steps that stay happen to be ascending (`keptTypes`).
-/

namespace KinesisCore

open ValidationLevel

namespace HerderSCPDriver

section

variable {E : Type} [HashFunction]

/-- The loop that erases the steps the node does not like. -/
def removeInvalid (d : HerderSCPDriver E) (upgrades : List UpgradeType) : List UpgradeType :=
  upgrades.filter fun step => (d.mUpgrades.isValid step true d.cfg d.lcl.header).isSome

def extractValidValue [PubKeyUtils] [OperationFrame E] (I : Stl.Impl) (d : HerderSCPDriver E)
    (slotIndex : UInt64) (value : Value) :
    Except String (Option Value) := do
  match StellarValue.codec.fromOpaque value with
  | none => return none
  | some b =>
    if (← d.validateValueHelper I slotIndex b) = kFullyValidatedValue then
      let res ← d.wrapStellarValue { b with upgrades := d.removeInvalid b.upgrades }
      return some res
    return none

/-- The types of the steps of a value that the node agrees with, in the value's
order. -/
def keptTypes (d : HerderSCPDriver E) (value : Value) : List LedgerUpgradeType :=
  match StellarValue.codec.fromOpaque value with
  | none => []
  | some b => b.upgrades.filterMap fun step => d.mUpgrades.isValid step true d.cfg d.lcl.header

theorem upgradesValid_removeInvalid (d : HerderSCPDriver E) (upgrades : List UpgradeType) :
    upgradesValid d.mUpgrades true d.cfg d.lcl.header (d.removeInvalid upgrades) = true
      ↔ (upgrades.filterMap fun step => d.mUpgrades.isValid step true d.cfg d.lcl.header).Pairwise
          (· < ·) := by
  let type := fun step => (d.mUpgrades.isValid step true d.cfg d.lcl.header).getD .version
  have htypes : (upgrades.filterMap fun step => d.mUpgrades.isValid step true d.cfg d.lcl.header)
      = (d.removeInvalid upgrades).map type := by
    induction upgrades with
    | nil => rfl
    | cons step upgrades ih =>
      rw [removeInvalid] at ih ⊢
      cases hstep : d.mUpgrades.isValid step true d.cfg d.lcl.header with
      | none => simpa [hstep] using ih
      | some t => simpa [hstep, type] using ih
  have hvalid : ∀ step ∈ d.removeInvalid upgrades,
      d.mUpgrades.isValid (id step) true d.cfg d.lcl.header = some (type step) := by
    intro step hstep
    obtain ⟨t, ht⟩ := Option.isSome_iff_exists.mp (List.mem_filter.mp hstep).2
    simp [type, ht]
  rw [htypes]
  simpa using upgradesValid_iff hvalid

/-- What is read off the wire fits the wire without some of its steps. -/
theorem wellFormed_removeInvalid {d : HerderSCPDriver E} {b : StellarValue} (h : b.WellFormed) :
    StellarValue.WellFormed { b with upgrades := d.removeInvalid b.upgrades } :=
  ⟨(List.length_filter_le _ _).trans h.upgrades_length,
    fun u hu => h.upgrade_size u (List.mem_filter.mp hu).1, h.signature_size⟩

variable [PubKeyUtils] [OperationFrame E] {I : Stl.Impl} {d : HerderSCPDriver E}
  {slotIndex : UInt64} {value v : Value}

theorem extractValidValue_eq_some :
    d.extractValidValue I slotIndex value = .ok (some v)
      ↔ ∃ b, StellarValue.codec.fromOpaque value = some b
        ∧ d.validateValueHelper I slotIndex b = .ok kFullyValidatedValue
        ∧ d.wrapStellarValue { b with upgrades := d.removeInvalid b.upgrades } = .ok v := by
  unfold extractValidValue
  split
  · simp [*]
  · rename_i b hb
    simp only [hb, Option.some.injEq, exists_eq_left', Except.bind_eq_ok]
    constructor
    · rintro ⟨res, hres, h⟩
      split at h
      · rename_i hfull
        obtain ⟨w, hw, h⟩ := Except.bind_eq_ok.mp h
        cases h
        exact ⟨hfull ▸ hres, hw⟩
      · cases h
    · rintro ⟨hres, hw⟩
      exact ⟨_, hres, by simp [hw]⟩

/-- A value that was extracted passes the node's own validation exactly when the
steps the node agrees with stand in ascending order of type in the value it
was extracted from. -/
theorem extracted_valid_iff (I : Stl.Impl) (d : HerderSCPDriver E) (slotIndex : UInt64)
    (value v : Value) (h : d.extractValidValue I slotIndex value = .ok (some v)) :
    d.validateValue I slotIndex v true = .ok kFullyValidatedValue
      ↔ (d.keptTypes value).Pairwise (· < ·) := by
  obtain ⟨b, hb, hhelper, hwrap⟩ := extractValidValue_eq_some.mp h
  have hv : StellarValue.codec.toOpaque { b with upgrades := d.removeInvalid b.upgrades } = v := by
    unfold wrapStellarValue at hwrap
    split at hwrap
    · cases hwrap
    · exact Except.pure_eq_ok.mp hwrap
  have hwf := (StellarValue.codec_fits_iff b).mp (StellarValue.codec.fits_of_fromOpaque hb)
  have hdec := StellarValue.codec.fromOpaque_toOpaque
    ((StellarValue.codec_fits_iff _).mpr (wellFormed_removeInvalid (d := d) hwf))
  rw [hv] at hdec
  have hkept : d.keptTypes value
      = b.upgrades.filterMap fun step => d.mUpgrades.isValid step true d.cfg d.lcl.header := by
    rw [keptTypes, hb]
  rw [validateValue_eq_full, hkept, ← upgradesValid_removeInvalid]
  constructor
  · rintro ⟨sv, hsv, -, hup⟩
    obtain rfl := Option.mem_unique hdec hsv
    exact hup
  · intro hup
    exact ⟨_, hdec, hhelper, hup⟩

end

/-! ## Two steps in either order -/

open Evaluation

/-- A node that is set to vote for protocol 15 and a base fee of 200. -/
def votesForTwo : letI := bytesAsNumber; HerderSCPDriver Unit :=
  { afterLedgerTwo with
    mUpgrades := ⟨{ mUpgradeTime := 0, mProtocolVersion := some 15, mBaseFee := some 200 }⟩ }

/-- A signed value with given steps. -/
def withSteps (steps : List LedgerUpgrade) : Value :=
  StellarValue.codec.toOpaque
    { txSetHash := 7
      closeTime := 1
      upgrades := steps.map LedgerUpgrade.codec.toOpaque
      ext := .signed ⟨1, []⟩ }

/-- A peer sends the two steps in the wrong order. The node agrees with both, so
extraction returns the value as it is, and validation refuses it. -/
theorem swapped_steps_extracted :
    let value := withSteps [.newBaseFee 200, .newLedgerVersion 15]
    votesForTwo.extractValidValue Stl.insertion 3 value = .ok (some value)
      ∧ votesForTwo.validateValue Stl.insertion 3 value true = .ok kInvalidValue :=
  ⟨by decide +kernel, by decide +kernel⟩

/-- In ascending order, and with a step the node does not want. -/
theorem extracted_valid_iff_ascending :
    let value := withSteps [.newLedgerVersion 15, .newBaseFee 200, .newMaxTxSetSize 7]
    let v := withSteps [.newLedgerVersion 15, .newBaseFee 200]
    votesForTwo.extractValidValue Stl.insertion 3 value = .ok (some v)
      ∧ votesForTwo.validateValue Stl.insertion 3 v true = .ok kFullyValidatedValue := by
  have hextract : votesForTwo.extractValidValue Stl.insertion 3
      (withSteps [.newLedgerVersion 15, .newBaseFee 200, .newMaxTxSetSize 7])
        = .ok (some (withSteps [.newLedgerVersion 15, .newBaseFee 200])) := by decide +kernel
  exact ⟨hextract, (extracted_valid_iff Stl.insertion votesForTwo 3 _ _ hextract).mpr
    (by decide +kernel)⟩

end HerderSCPDriver

end KinesisCore

import Mathlib.Algebra.Group.Nat.Defs
import KinesisCore.VerifyLedgerChain

/-!
# The range of a catchup (`CatchupRange.cpp`)

A catchup applies the buckets of a ledger, or replays ledgers, or does the one and then the
other. History archives hold the buckets of the last ledger of each checkpoint only; when a
node rebuilds its state from its own disk, there are buckets for the ledger it wants.
-/

namespace KinesisCore

open UInt32 (le_iff_toNat_le lt_iff_toNat_lt not_lt toNat_zero pos_iff_ne_zero toNat_inj
  toNat_sub_of_le toNat_add toNat_one not_le toNat_div)

namespace HistoryManager

variable (freq ledger : UInt32)

def isLastLedgerInCheckpoint : Bool :=
  checkpointContainingLedger freq ledger == ledger

def sizeOfCheckpointContaining : UInt32 :=
  if ledger < freq then freq - 1 else freq

def firstLedgerInCheckpointContaining : UInt32 :=
  checkpointContainingLedger freq ledger - (sizeOfCheckpointContaining freq ledger - 1)

def lastLedgerBeforeCheckpointContaining : Except String UInt32 := do
  let last := checkpointContainingLedger freq ledger
  let size := sizeOfCheckpointContaining freq ledger
  if last < size then throw "last >= size"
  return last - size

end HistoryManager

open HistoryManager
open Except (releaseAssert)

inductive CatchupMode where
  | OFFLINE_BASIC
  | OFFLINE_COMPLETE
  | ONLINE
  | LOCAL_BUCKETS_ONLY
  deriving DecidableEq

structure CatchupConfiguration where
  toLedger : UInt32
  count : UInt32
  mode : CatchupMode
  invariants : mode = .LOCAL_BUCKETS_ONLY → toLedger ≠ 0 ∧ count = 0

namespace CatchupConfiguration

def CURRENT : UInt32 := 0

def localBucketsOnly (cfg : CatchupConfiguration) : Bool := cfg.mode = .LOCAL_BUCKETS_ONLY

end CatchupConfiguration

def GENESIS_LEDGER_SEQ : UInt32 := 1

/-- The constructor of `LedgerRange`. -/
def LedgerRange.create (first count : UInt32) : Except String LedgerRange :=
  if h : count = 0 ∨ 0 < first then pure ⟨first, count, h⟩
  else throw "count == 0 || mFirst > 0"

structure CatchupRange where
  mApplyBuckets : Bool
  mApplyBucketsAtLedger : UInt32
  mReplayRange : LedgerRange

namespace CatchupRange

variable (lastClosedLedger : UInt32) (configuration : CatchupConfiguration) (r : CatchupRange)

def replayLedgers : Bool := r.mReplayRange.mCount > 0

def last : Except String UInt32 := do
  if r.mReplayRange.mCount ≠ 0 then return r.mReplayRange.last
  releaseAssert r.mApplyBuckets "mApplyBuckets"
  return r.mApplyBucketsAtLedger

def checkInvariants : Except String Unit := do
  let ⟨applyBuckets, applyAt, replay⟩ := r
  releaseAssert (applyBuckets || r.replayLedgers) "applyBuckets() || replayLedgers()"
  if !applyBuckets && r.replayLedgers then
    releaseAssert (applyAt = 0) "mApplyBucketsAtLedger == 0"
    releaseAssert (replay.mFirst ≠ 0) "mReplayRange.mFirst != 0"
  else if applyBuckets && r.replayLedgers then
    releaseAssert (applyAt ≠ 0) "mApplyBucketsAtLedger != 0"
    releaseAssert (replay.mFirst ≠ 0) "mReplayRange.mFirst != 0"
    releaseAssert (applyAt + 1 = replay.mFirst) "mApplyBucketsAtLedger + 1 == mReplayRange.mFirst"
  else
    releaseAssert (applyBuckets && !r.replayLedgers) "applyBuckets() && !replayLedgers()"
    releaseAssert (replay.mFirst = 0) "mReplayRange.mFirst == 0"

/-- What each constructor ends with. -/
def checked : Except String CatchupRange := do
  r.checkInvariants
  return r

def checkCatchupPreconditions : Except String Unit := do
  if lastClosedLedger < GENESIS_LEDGER_SEQ ∧ !configuration.localBucketsOnly then
    throw "lastClosedLedger == 0"
  if configuration.toLedger ≤ lastClosedLedger then
    throw "configuration.toLedger() <= lastClosedLedger"
  if configuration.toLedger ≤ GENESIS_LEDGER_SEQ then
    throw "configuration.toLedger() <= LedgerManager::GENESIS_LEDGER_SEQ"
  if configuration.toLedger = CatchupConfiguration.CURRENT then
    throw "configuration.toLedger() == CatchupConfiguration::CURRENT"

def calculateCatchupRange (lcl : UInt32) (cfg : CatchupConfiguration) (freq : UInt32) :
    Except String CatchupRange := do
  checkCatchupPreconditions lcl cfg
  let init := GENESIS_LEDGER_SEQ
  let fullReplayCount := cfg.toLedger - lcl
  if lcl > init then
    let replay ← LedgerRange.create (lcl + 1) fullReplayCount
    return ← checked ⟨false, 0, replay⟩
  releaseAssert (lcl = init || cfg.localBucketsOnly) "lcl == init || cfg.localBucketsOnly()"
  let fullReplay ← LedgerRange.create (init + 1) fullReplayCount
  if cfg.count ≥ fullReplayCount then return ← checked ⟨false, 0, fullReplay⟩
  if cfg.count = 0 ∧ (isLastLedgerInCheckpoint freq cfg.toLedger || cfg.localBucketsOnly) then
    return ← checked ⟨true, cfg.toLedger, 0, 0, .inl rfl⟩
  let targetStart := cfg.toLedger - cfg.count + 1
  let firstInCheckpoint := firstLedgerInCheckpointContaining freq targetStart
  if firstInCheckpoint = init then return ← checked ⟨false, 0, fullReplay⟩
  let applyBucketsAt ← lastLedgerBeforeCheckpointContaining freq targetStart
  let replay ← LedgerRange.create firstInCheckpoint (cfg.toLedger - applyBucketsAt)
  checked ⟨true, applyBucketsAt, replay⟩

/-- The constructor that a catchup calls. -/
def ofConfiguration (freq : UInt32) : Except String CatchupRange := do
  let r ← calculateCatchupRange lastClosedLedger configuration freq
  if configuration.localBucketsOnly then releaseAssert r.mApplyBuckets "applyBuckets()"
  checked r

/-! ## What a range covers -/

/-- The range ends at the target, it hangs on the last closed ledger or on buckets that exist,
and it replays enough. -/
structure Covers (lcl freq : UInt32) (cfg : CatchupConfiguration) (r : CatchupRange) : Prop where
  last : r.last = .ok cfg.toLedger
  replay : r.mApplyBuckets = false → r.mReplayRange.mFirst = lcl + 1
  buckets : r.mApplyBuckets = true → isLastLedgerInCheckpoint freq r.mApplyBucketsAtLedger = true
    ∨ cfg.localBucketsOnly = true ∧ r.mApplyBucketsAtLedger = cfg.toLedger
  follows : r.mApplyBuckets = true → r.mReplayRange.mCount = 0
    ∨ r.mReplayRange.mFirst = r.mApplyBucketsAtLedger + 1
  enough : min cfg.count.toNat (cfg.toLedger.toNat - lcl.toNat) ≤ r.mReplayRange.mCount.toNat

section

variable {lcl freq ledger first count : UInt32} {cfg : CatchupConfiguration}

theorem toNat_checkpointContainingLedger (hfreq : 2 ≤ freq.toNat)
    (hroom : (ledger.toNat / freq.toNat + 1) * freq.toNat < 2 ^ 32) :
    (checkpointContainingLedger freq ledger).toNat
      = (ledger.toNat / freq.toNat + 1) * freq.toNat - 1 := by
  have hquot := Nat.le_mul_of_pos_right (ledger.toNat / freq.toNat + 1) (by omega : 0 < freq.toNat)
  have hmul : ((ledger / freq + 1) * freq).toNat
      = (ledger.toNat / freq.toNat + 1) * freq.toNat := by
    rw [UInt32.toNat_mul, toNat_add, toNat_div, toNat_one,
      Nat.mod_eq_of_lt (hquot.trans_lt hroom), Nat.mod_eq_of_lt hroom]
  rw [checkpointContainingLedger, toNat_sub_of_le, hmul, toNat_one]
  rw [le_iff_toNat_le, hmul]
  exact (Nat.le_add_left 1 _).trans hquot

theorem isLast_of_dvd (hfreq : 2 ≤ freq.toNat) (hdvd : freq.toNat ∣ ledger.toNat + 1)
    (hlt : ledger.toNat + 1 < 2 ^ 32) : isLastLedgerInCheckpoint freq ledger = true := by
  have hend : (ledger.toNat / freq.toNat + 1) * freq.toNat = ledger.toNat + 1 := by
    rw [← Nat.succ_div_of_dvd hdvd, Nat.div_mul_cancel hdvd]
  rw [isLastLedgerInCheckpoint, beq_iff_eq, ← toNat_inj,
    toNat_checkpointContainingLedger hfreq (hend ▸ hlt), hend, Nat.add_sub_cancel]

theorem firstLedger_of_lt (h : ledger < freq) :
    firstLedgerInCheckpointContaining freq ledger = GENESIS_LEDGER_SEQ := by
  have hdiv : ledger / freq = 0 := by
    rw [← toNat_inj, toNat_div]
    exact Nat.div_eq_of_lt (lt_iff_toNat_lt.mp h)
  rw [firstLedgerInCheckpointContaining, checkpointContainingLedger, sizeOfCheckpointContaining,
    if_pos h, hdiv, GENESIS_LEDGER_SEQ]
  grind

/-- The ledger before any later checkpoint ends a checkpoint too. -/
theorem lastLedgerBefore_eq (hfreq : 2 ≤ freq.toNat) (hge : freq ≤ ledger)
    (hroom : (ledger.toNat / freq.toNat + 1) * freq.toNat < 2 ^ 32) :
    ∃ base, lastLedgerBeforeCheckpointContaining freq ledger = .ok base
      ∧ firstLedgerInCheckpointContaining freq ledger = base + 1 ∧ base ≠ 0
      ∧ base.toNat < ledger.toNat ∧ freq.toNat ∣ base.toNat + 1 := by
  have hend := toNat_checkpointContainingLedger hfreq hroom
  have hsize : sizeOfCheckpointContaining freq ledger = freq := if_neg (not_lt.mpr hge)
  rw [le_iff_toNat_le] at hge
  have hle := Nat.div_mul_le_self ledger.toNat freq.toNat
  have hpos := Nat.le_mul_of_pos_left freq.toNat (Nat.div_pos hge (by omega))
  rw [Nat.succ_mul] at hend
  have hnot : ¬checkpointContainingLedger freq ledger < freq := by
    rw [lt_iff_toNat_lt]
    omega
  have hbase := toNat_sub_of_le _ _ (not_lt.mp hnot)
  refine ⟨checkpointContainingLedger freq ledger - freq, ?_, ?_, ?_, by omega, ?_⟩
  · simp [lastLedgerBeforeCheckpointContaining, hsize, hnot]
  · rw [firstLedgerInCheckpointContaining, hsize]
    grind
  · intro h0
    rw [h0, toNat_zero] at hbase
    omega
  · rw [hbase, hend, show _ + 1 = ledger.toNat / freq.toNat * freq.toNat by omega]
    exact Nat.dvd_mul_left ..

theorem create_eq (h : count = 0 ∨ 0 < first) :
    LedgerRange.create first count = .ok ⟨first, count, h⟩ :=
  dif_pos h

/-- Replaying everything after `base`, where buckets are applied or where the node is. -/
theorem replay_after {base : UInt32} (applyBuckets : Bool)
    (hbase : applyBuckets = true → base ≠ 0) (hto : base.toNat < cfg.toLedger.toNat) :
    ∃ h, let r : CatchupRange :=
        ⟨applyBuckets, if applyBuckets then base else 0, base + 1, cfg.toLedger - base, h⟩
      r.checkInvariants = .ok () ∧ r.last = .ok cfg.toLedger
        ∧ r.mReplayRange.mCount.toNat = cfg.toLedger.toNat - base.toNat := by
  have hlt := cfg.toLedger.toNat_lt
  have hsub := toNat_sub_of_le _ _ (le_iff_toNat_le.mpr hto.le)
  have hcount : 0 < cfg.toLedger - base := by
    rw [lt_iff_toNat_lt, hsub, toNat_zero]
    omega
  have hpos : 0 < base + 1 := by
    rw [lt_iff_toNat_lt, toNat_add, toNat_one, toNat_zero]
    omega
  have hlast : base + 1 + (cfg.toLedger - base) - 1 = cfg.toLedger := by grind
  refine ⟨.inr hpos, ?_, ?_, hsub⟩
  · cases applyBuckets with
    | false =>
      simp [checkInvariants, replayLedgers, releaseAssert, hcount, pos_iff_ne_zero.mp hpos]
    | true =>
      simp [checkInvariants, replayLedgers, releaseAssert, hcount, pos_iff_ne_zero.mp hpos,
        hbase]
  · simp [CatchupRange.last, LedgerRange.last, LedgerRange.limit, hlast,
      pos_iff_ne_zero.mp hcount]

/-- Only the catchup of a node that rebuilds its state from its own buckets may apply them at a
ledger that ends no checkpoint. -/
theorem ofConfiguration_covers (hlcl : 1 ≤ lcl) (hto : lcl < cfg.toLedger) (hfreq : 2 ≤ freq)
    (hlocal : cfg.localBucketsOnly = true → lcl = 1)
    (hroom : lcl = 1 → ((cfg.toLedger.toNat - cfg.count.toNat + 1) / freq.toNat + 1) * freq.toNat
      < 2 ^ 32) :
    ∃ r, ofConfiguration lcl cfg freq = .ok r ∧ Covers lcl freq cfg r := by
  have hchecked {r : CatchupRange} (h : r.checkInvariants = .ok ()) : checked r = .ok r := by
    rw [checked, h]
    rfl
  suffices hcalc : ∃ r, calculateCatchupRange lcl cfg freq = .ok r ∧ r.checkInvariants = .ok ()
      ∧ Covers lcl freq cfg r ∧ (cfg.localBucketsOnly = true → r.mApplyBuckets = true) by
    obtain ⟨r, hcalc, hinv, hcovers, happly⟩ := hcalc
    refine ⟨r, ?_, hcovers⟩
    rw [ofConfiguration, hcalc]
    by_cases hl : cfg.localBucketsOnly = true
    · simp [hl, happly hl, releaseAssert, hchecked hinv]
    · simp [hl, hchecked hinv]
  have hpre : checkCatchupPreconditions lcl cfg = .ok () := by
    have hone : 1 < cfg.toLedger := UInt32.lt_of_le_of_lt hlcl hto
    simp [checkCatchupPreconditions, GENESIS_LEDGER_SEQ, CatchupConfiguration.CURRENT,
      not_lt.mpr hlcl, not_le.mpr hto, not_le.mpr hone,
      pos_iff_ne_zero.mp (UInt32.lt_of_le_of_lt UInt32.zero_le hto)]
  have hcount (hl : cfg.localBucketsOnly = true) : cfg.count = 0 :=
    (cfg.invariants (of_decide_eq_true hl)).2
  rw [lt_iff_toNat_lt] at hto
  obtain ⟨h, hinv, hlast, hreplay⟩ := replay_after false nofun hto
  have hcovers : Covers lcl freq cfg ⟨false, 0, lcl + 1, cfg.toLedger - lcl, h⟩ :=
    ⟨hlast, fun _ => rfl, nofun, nofun, hreplay ▸ min_le_right _ _⟩
  by_cases hgt : lcl > GENESIS_LEDGER_SEQ
  · refine ⟨_, ?_, hinv, hcovers, fun hl => ?_⟩
    · simp [calculateCatchupRange, hpre, hgt, create_eq h]
      exact hchecked hinv
    · rw [hlocal hl] at hgt
      exact absurd hgt (by decide)
  -- from here on the last closed ledger is the first one
  obtain rfl : lcl = GENESIS_LEDGER_SEQ := UInt32.le_antisymm (not_lt.mp hgt) hlcl
  simp only [calculateCatchupRange, hpre, create_eq h, releaseAssert, bind, Except.bind, if_neg hgt,
    decide_true, Bool.true_or, if_true, Bool.or_eq_true]
  split_ifs with hfull hbuckets hfirst
  · refine ⟨_, hchecked hinv, hinv, hcovers, fun hl => ?_⟩
    rw [hcount hl, ge_iff_le, le_iff_toNat_le, hreplay, toNat_zero] at hfull
    omega
  · refine ⟨_, hchecked rfl, rfl, ⟨rfl, nofun, fun _ => hbuckets.2.imp id (⟨·, rfl⟩),
      fun _ => .inl rfl, ?_⟩, fun _ => rfl⟩
    rw [hbuckets.1]
    exact min_le_left _ _
  · exact ⟨_, hchecked hinv, hinv, hcovers, fun hl => absurd ⟨hcount hl, .inr hl⟩ hbuckets⟩
  · have hroom := hroom rfl
    have hf : 2 ≤ freq.toNat := le_iff_toNat_le.mp hfreq
    rw [ge_iff_le, le_iff_toNat_le, hreplay] at hfull
    have hstart : (cfg.toLedger - cfg.count + 1).toNat
        = cfg.toLedger.toNat - cfg.count.toNat + 1 := by
      have hlt := Nat.lt_mul_div_succ (cfg.toLedger.toNat - cfg.count.toNat + 1)
        (by omega : 0 < freq.toNat)
      rw [toNat_add, toNat_sub_of_le _ _ (le_iff_toNat_le.mpr (by omega))]
      exact Nat.mod_eq_of_lt (hlt.trans (Nat.mul_comm .. ▸ hroom))
    rw [← hstart] at hroom
    obtain ⟨base, hbefore, hnext, hne, hlt, hdvd⟩ := lastLedgerBefore_eq hf
      (not_lt.mp fun h => hfirst (firstLedger_of_lt h)) hroom
    have hlast := isLast_of_dvd hf hdvd (by have := (cfg.toLedger - cfg.count + 1).toNat_lt; omega)
    -- with nothing to replay the target would end a checkpoint
    have htarget : base ≠ cfg.toLedger := by
      rintro rfl
      exact hbuckets ⟨toNat_inj.mp (by rw [toNat_zero]; omega), .inl hlast⟩
    rw [ne_eq, ← toNat_inj] at htarget
    obtain ⟨h', hinv', hend, hreplay'⟩ := replay_after true (fun _ => hne)
      (show base.toNat < cfg.toLedger.toNat by omega)
    refine ⟨⟨true, base, base + 1, cfg.toLedger - base, h'⟩, ?_, hinv',
      ⟨hend, nofun, fun _ => .inl hlast, fun _ => .inr rfl, ?_⟩, fun _ => rfl⟩
    · simp only [hbefore, hnext, create_eq h']
      exact hchecked hinv'
    · rw [hreplay']
      omega

end

/-- Applied where the disk has them, the buckets need not be those of a checkpoint. -/
theorem ofConfiguration_local :
    let cfg : CatchupConfiguration := ⟨100, 0, .LOCAL_BUCKETS_ONLY, by decide⟩
    (1 : UInt32) < cfg.toLedger ∧ ofConfiguration 1 cfg 64 = .ok ⟨true, 100, 0, 0, .inl rfl⟩
      ∧ isLastLedgerInCheckpoint 64 100 = false ∧ ∃ what, ofConfiguration 2 cfg 64 = .error what :=
  ⟨by decide, rfl, by decide, _, rfl⟩

theorem ofConfiguration_covers_online :
    ∃ r, ofConfiguration 1 ⟨200, 10, .ONLINE, nofun⟩ 64 = .ok r
      ∧ Covers 1 64 ⟨200, 10, .ONLINE, nofun⟩ r :=
  ofConfiguration_covers (by decide) (by decide) (by decide) nofun fun _ => by decide

end CatchupRange

end KinesisCore

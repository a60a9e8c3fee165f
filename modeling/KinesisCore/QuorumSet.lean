import KinesisCore.Fallible
import KinesisCore.Fbas
import KinesisCore.LedgerHeader
import Mathlib.Data.List.AList

/-!
# Quorum sets (`LocalNode.cpp`, `QuorumSetUtils.cpp`)

A quorum set names validators and inner quorum sets and how many of these
entries it takes. `isQuorumSlice` and `isVBlocking` count entries; that a node
set passes `isQuorumSlice` means that it holds a slice in the sense of the
abstract system. `isQuorum` drops nodes without a slice until none is left to
drop.
-/

namespace KinesisCore

open List Except

structure SCPQuorumSet where
  threshold : UInt32
  validators : List NodeID
  innerSets : List SCPQuorumSet
  deriving Repr

/-! ## Slices and blocking sets -/

namespace LocalNode

/-- The loops over the entries: `thresholdLeft` goes down at every entry that is
satisfied. -/
def countDown : UInt32 → List Bool → Bool
  | _, [] => false
  | thresholdLeft, true :: hits =>
    if thresholdLeft - 1 = 0 then true else countDown (thresholdLeft - 1) hits
  | thresholdLeft, false :: hits => countDown thresholdLeft hits

mutual

def isQuorumSliceInternal (nodeSet : List NodeID) : SCPQuorumSet → Bool
  | ⟨threshold, validators, innerSets⟩ =>
    countDown threshold (validators.map (nodeSet.contains ·) ++ innerSlices nodeSet innerSets)

def innerSlices (nodeSet : List NodeID) : List SCPQuorumSet → List Bool
  | [] => []
  | q :: qs => isQuorumSliceInternal nodeSet q :: innerSlices nodeSet qs

end

def isQuorumSlice (qSet : SCPQuorumSet) (nodeSet : List NodeID) : Bool :=
  isQuorumSliceInternal nodeSet qSet

def blockDown : Int → List Bool → Bool
  | _, [] => false
  | leftTillBlock, true :: hits =>
    if leftTillBlock - 1 ≤ 0 then true else blockDown (leftTillBlock - 1) hits
  | leftTillBlock, false :: hits => blockDown leftTillBlock hits

mutual

/-- `leftTillBlock` is an `int` made of a difference of unsigned numbers. -/
def isVBlockingInternal (nodeSet : List NodeID) : SCPQuorumSet → Bool
  | ⟨threshold, validators, innerSets⟩ =>
    if threshold = 0 then false
    else
      blockDown (((1 + validators.length + innerSets.length : Int) - threshold.toNat).bmod (2 ^ 32))
        (validators.map (nodeSet.contains ·) ++ innerBlocking nodeSet innerSets)

def innerBlocking (nodeSet : List NodeID) : List SCPQuorumSet → List Bool
  | [] => []
  | q :: qs => isVBlockingInternal nodeSet q :: innerBlocking nodeSet qs

end

def isVBlocking (qSet : SCPQuorumSet) (nodeSet : List NodeID) : Bool :=
  isVBlockingInternal nodeSet qSet

def buildSingletonQSet (nodeID : NodeID) : SCPQuorumSet := ⟨1, [nodeID], []⟩

end LocalNode

/-! ## Sane quorum sets -/

def MAXIMUM_QUORUM_NESTING_LEVEL : Nat := 4

namespace QuorumSetSanityChecker

/-- `mKnownNodes.insert` for one validator after the other. -/
def insertAll (known : List NodeID) : List NodeID → Except String (List NodeID)
  | [] => return known
  | n :: ns =>
    if n ∈ known then throw "Duplicate node found in quorum configuration"
    else insertAll (n :: known) ns

mutual

/-- `known` and `count` are `mKnownNodes` and `mCount`. -/
def checkSanity (extraChecks : Bool) (depth : Nat) (known : List NodeID) (count : Nat) :
    SCPQuorumSet → Except String (List NodeID × Nat)
  | ⟨threshold, v, i⟩ =>
    let totEntries := v.length + i.length
    if depth > MAXIMUM_QUORUM_NESTING_LEVEL then throw "Maximum quorum nesting level exceeded"
    else if threshold < 1 then throw "Threshold must be greater than 0"
    else if threshold.toNat > totEntries then throw "Threshold exceeds total number of entries"
    else if extraChecks ∧ threshold.toNat < totEntries - threshold.toNat + 1 then
      throw "Threshold is lower than the v-blocking size (< 51%)."
    else do
      let known ← insertAll known v
      checkInner extraChecks (depth + 1) known (count + v.length) i

def checkInner (extraChecks : Bool) (depth : Nat) (known : List NodeID) (count : Nat) :
    List SCPQuorumSet → Except String (List NodeID × Nat)
  | [] => return (known, count)
  | q :: qs => do
    let (known, count) ← checkSanity extraChecks depth known count q
    checkInner extraChecks depth known count qs

end

end QuorumSetSanityChecker

/-- The error is what goes to `errString`. -/
def isQuorumSetSane (qSet : SCPQuorumSet) (extraChecks : Bool) : Except String Unit := do
  let (_, count) ← QuorumSetSanityChecker.checkSanity extraChecks 0 [] 0 qSet
  if count < 1 ∨ count > 1000 then
    throw "Total number of nodes in a quorum must be within 1 and 1000"
  else return ()

/-! ## Quorums -/

namespace LocalNode

section

variable {T : Type} (map : AList fun _ : NodeID => T) (qfun : T → Option SCPQuorumSet)

def quorumFilter (pNodes : List NodeID) (nodeID : NodeID) : Bool :=
  match (map.lookup nodeID).bind qfun with
  | some qSet => isQuorumSlice qSet pNodes
  | none => false

/-- The loop that drops nodes: each round but the last makes the list shorter, so
its length bounds the rounds. -/
def dropNodes : Nat → List NodeID → List NodeID
  | 0, pNodes => pNodes
  | rounds + 1, pNodes =>
    let fNodes := pNodes.filter (quorumFilter map qfun pNodes)
    if fNodes.length = pNodes.length then fNodes else dropNodes rounds fNodes

/-- The nodes of a map whose value passes the filter. -/
def nodesOf (filter : T → Bool) : List NodeID := (map.entries.filter (filter ·.2)).map (·.1)

def quorumNodes (filter : T → Bool) : List NodeID :=
  dropNodes map qfun (nodesOf map filter).length (nodesOf map filter)

def isQuorum (qSet : SCPQuorumSet) (filter : T → Bool) : Bool :=
  isQuorumSlice qSet (quorumNodes map qfun filter)

end

end LocalNode

/-! ## Slices in the abstract system -/

namespace SCPQuorumSet

mutual

/-- A slice takes as many entries as the threshold says: a validator by itself,
an inner set by one of its slices. -/
def slices : SCPQuorumSet → Set (Set NodeID)
  | ⟨threshold, validators, innerSets⟩ =>
    Fbas.threshold threshold.toNat ((validators.map fun v => {{v}}) ++ innerFamilies innerSets)

def innerFamilies : List SCPQuorumSet → List (Set (Set NodeID))
  | [] => []
  | q :: qs => slices q :: innerFamilies qs

end

mutual

/-- No threshold is zero, at any level. -/
def Positive : SCPQuorumSet → Prop
  | ⟨threshold, _, innerSets⟩ => threshold ≠ 0 ∧ AllPositive innerSets

def AllPositive : List SCPQuorumSet → Prop
  | [] => True
  | q :: qs => Positive q ∧ AllPositive qs

end

mutual

/-- The validators at all levels. -/
def allValidators : SCPQuorumSet → List NodeID
  | ⟨_, validators, innerSets⟩ => validators ++ innerValidators innerSets

def innerValidators : List SCPQuorumSet → List NodeID
  | [] => []
  | q :: qs => allValidators q ++ innerValidators qs

end

/-- Induction on the nesting. -/
@[induction_eliminator]
theorem nested {P : SCPQuorumSet → Prop}
    (mk : ∀ threshold validators innerSets, (∀ q ∈ innerSets, P q) →
      P ⟨threshold, validators, innerSets⟩) : ∀ q, P q
  | ⟨_, _, innerSets⟩ => mk _ _ innerSets fun q _ => nested mk q

theorem innerFamilies_eq (qs : List SCPQuorumSet) : innerFamilies qs = qs.map slices := by
  induction qs with
  | nil => rfl
  | cons q qs ih => rw [innerFamilies, ih, map_cons]

theorem allPositive_iff {qs : List SCPQuorumSet} : AllPositive qs ↔ ∀ q ∈ qs, q.Positive := by
  induction qs with
  | nil => simp [AllPositive]
  | cons q qs ih => simp [AllPositive, ih]

theorem innerValidators_eq (qs : List SCPQuorumSet) :
    innerValidators qs = qs.flatMap allValidators := by
  induction qs with
  | nil => rfl
  | cons q qs ih => rw [innerValidators, ih, flatMap_cons]

end SCPQuorumSet

namespace LocalNode

open SCPQuorumSet

variable (nodeSet : List NodeID) (qs : List SCPQuorumSet)

theorem innerSlices_eq : innerSlices nodeSet qs = qs.map (isQuorumSliceInternal nodeSet) := by
  induction qs with
  | nil => rfl
  | cons q qs ih => rw [innerSlices, ih, map_cons]

theorem innerBlocking_eq : innerBlocking nodeSet qs = qs.map (isVBlockingInternal nodeSet) := by
  induction qs with
  | nil => rfl
  | cons q qs ih => rw [innerBlocking, ih, map_cons]

variable {hits : List Bool} {thresholdLeft : UInt32}

/-- With a threshold of zero the count starts below zero, at the largest number. -/
theorem countDown_iff_count :
    countDown thresholdLeft hits = true ↔ (thresholdLeft - 1).toNat + 1 ≤ hits.count true := by
  induction hits generalizing thresholdLeft with
  | nil => simp [countDown]
  | cons hit hits ih =>
    cases hit with
    | false => simpa [countDown] using ih
    | true =>
      simp only [countDown, count_cons_self]
      split
      · rename_i hzero
        rw [hzero, UInt32.toNat_zero]
        simp only [true_iff]
        omega
      · rename_i hnz
        have hne : (thresholdLeft - 1).toNat ≠ 0 := fun h => hnz (UInt32.toNat_inj.mp h)
        have hone : (1 : UInt32).toNat = 1 := rfl
        have hpred : (thresholdLeft - 1 - 1).toNat = (thresholdLeft - 1).toNat - 1 :=
          UInt32.toNat_sub_of_le _ _ (by rw [UInt32.le_iff_toNat_le]; omega)
        rw [ih]
        omega

theorem toNat_sub_one_add_one {n : UInt32} (hpos : n ≠ 0) : (n - 1).toNat + 1 = n.toNat := by
  have hne : n.toNat ≠ 0 := fun h => hpos (UInt32.toNat_inj.mp h)
  have hone : (1 : UInt32).toNat = 1 := rfl
  rw [UInt32.toNat_sub_of_le _ _ (by rw [UInt32.le_iff_toNat_le]; omega)]
  omega

theorem countDown_iff (hpos : thresholdLeft ≠ 0) :
    countDown thresholdLeft hits = true ↔ thresholdLeft.toNat ≤ hits.count true := by
  rw [countDown_iff_count, toNat_sub_one_add_one hpos]

theorem count_true_map {α : Type*} (p : α → Bool) (l : List α) :
    (l.map p).count true = l.countP p := by
  rw [count_eq_countP, countP_map]
  exact countP_congr fun a _ => by rw [Function.comp_apply, beq_true]

/-- It takes one hit at least. -/
theorem blockDown_iff {leftTillBlock : Int} :
    blockDown leftTillBlock hits = true ↔
      1 ≤ hits.count true ∧ leftTillBlock ≤ hits.count true := by
  induction hits generalizing leftTillBlock with
  | nil => simp [blockDown]
  | cons hit hits ih =>
    cases hit with
    | false => simpa [blockDown] using ih
    | true =>
      simp only [blockDown, count_cons_self]
      split
      · simp only [true_iff]
        omega
      · rw [ih]
        omega

section

variable {nodeSet : List NodeID} {threshold : UInt32} {validators : List NodeID}
  {innerSets : List SCPQuorumSet}

/-- A slice is a matter of how many entries are satisfied. -/
theorem isQuorumSliceInternal_count :
    isQuorumSliceInternal nodeSet ⟨threshold, validators, innerSets⟩ = true ↔
      (threshold - 1).toNat + 1 ≤ validators.countP (nodeSet.contains ·)
        + innerSets.countP (isQuorumSliceInternal nodeSet) := by
  rw [isQuorumSliceInternal, countDown_iff_count, innerSlices_eq, count_append,
    count_true_map, count_true_map]

theorem isVBlockingInternal_count :
    isVBlockingInternal nodeSet ⟨threshold, validators, innerSets⟩ = true ↔ threshold ≠ 0
      ∧ 1 ≤ validators.countP (nodeSet.contains ·) + innerSets.countP (isVBlockingInternal nodeSet)
      ∧ ((1 + validators.length + innerSets.length : Int) - threshold.toNat).bmod (2 ^ 32)
        ≤ (validators.countP (nodeSet.contains ·)
          + innerSets.countP (isVBlockingInternal nodeSet) : Nat) := by
  rw [isVBlockingInternal, innerBlocking_eq]
  split
  · simp [*]
  · rw [blockDown_iff, count_append, count_true_map, count_true_map]
    simp [*]

end

open Classical in
/-- Counting entries is the same as finding a slice. -/
theorem isQuorumSliceInternal_iff (nodeSet : List NodeID) (q : SCPQuorumSet) (hpos : q.Positive) :
    isQuorumSliceInternal nodeSet q = true ↔ ∃ s ∈ q.slices, s ⊆ { n | n ∈ nodeSet } := by
  induction q with
  | mk threshold validators innerSets ih =>
    have hentries : validators.map (nodeSet.contains ·) ++ innerSlices nodeSet innerSets
        = ((validators.map fun v => {{v}}) ++ innerFamilies innerSets).map
            fun e => decide (∃ s ∈ e, s ⊆ { n | n ∈ nodeSet }) := by
      rw [map_append, innerSlices_eq, innerFamilies_eq, map_map, map_map]
      refine congrArg₂ (· ++ ·) (map_congr_left fun v _ => ?_)
        (map_congr_left fun q hq => ?_)
      · rw [Bool.eq_iff_iff, contains_iff_mem, Function.comp_apply, decide_eq_true_eq]
        constructor
        · intro hv
          exact ⟨{v}, rfl, Set.singleton_subset_iff.mpr hv⟩
        · rintro ⟨_, rfl, hv⟩
          exact hv rfl
      · rw [Bool.eq_iff_iff, ih q hq (allPositive_iff.mp hpos.2 q hq), Function.comp_apply,
          decide_eq_true_eq]
    rw [isQuorumSliceInternal, countDown_iff hpos.1, hentries, slices,
      Fbas.exists_threshold_subset_iff, count_true_map]

section Mono

variable {P Q : List NodeID} (hPQ : P ⊆ Q)
include hPQ

theorem countP_contains_mono (validators : List NodeID) :
    validators.countP (P.contains ·) ≤ validators.countP (Q.contains ·) := by
  refine countP_mono_left fun v _ hv => ?_
  rw [contains_iff_mem] at hv ⊢
  exact hPQ hv

variable {q : SCPQuorumSet} {extraChecks : Bool}

/-- More nodes hold more slices. -/
theorem isQuorumSlice_mono (h : isQuorumSlice q P = true) : isQuorumSlice q Q = true := by
  unfold isQuorumSlice at h ⊢
  induction q with
  | mk threshold validators innerSets ih =>
    rw [isQuorumSliceInternal_count] at h ⊢
    exact h.trans (Nat.add_le_add (countP_contains_mono hPQ _) (countP_mono_left ih))

/-- And more nodes block more. -/
theorem isVBlocking_mono (h : isVBlocking q P = true) : isVBlocking q Q = true := by
  unfold isVBlocking at h ⊢
  induction q with
  | mk threshold validators innerSets ih =>
    rw [isVBlockingInternal_count] at h ⊢
    have hvalidators := countP_contains_mono hPQ validators
    have hinner := countP_mono_left ih
    exact ⟨h.1, by omega, by omega⟩

end Mono

/-- Without nodes nothing is blocked. -/
theorem isVBlockingInternal_nil (q : SCPQuorumSet) : isVBlockingInternal [] q = false := by
  induction q with
  | mk threshold validators innerSets ih =>
    have hinner : innerSets.countP (isVBlockingInternal []) = 0 :=
      countP_eq_zero.mpr fun q hq => by rw [ih q hq]; nofun
    rw [Bool.eq_false_iff, ne_eq, isVBlockingInternal_count, hinner]
    simp

/-- Without nodes there is no slice. -/
theorem isQuorumSliceInternal_nil (q : SCPQuorumSet) : isQuorumSliceInternal [] q = false := by
  induction q with
  | mk threshold validators innerSets ih =>
    have hinner : innerSets.countP (isQuorumSliceInternal []) = 0 :=
      countP_eq_zero.mpr fun q hq => by rw [ih q hq]; nofun
    rw [Bool.eq_false_iff, ne_eq, isQuorumSliceInternal_count, hinner]
    simp

/-! ## What the quorum loop leaves -/

section

variable {T : Type} {map : AList fun _ : NodeID => T} {qfun : T → Option SCPQuorumSet}
  {filter : T → Bool} {pNodes : List NodeID} {n : NodeID} {rounds : Nat}

theorem dropNodes_subset : dropNodes map qfun rounds pNodes ⊆ pNodes := by
  induction rounds generalizing pNodes with
  | zero => exact List.Subset.refl _
  | succ rounds ih =>
    unfold dropNodes
    dsimp only
    split
    · exact filter_subset_self _
    · exact List.Subset.trans ih (filter_subset_self _)

/-- The loop ends with nodes that all have a slice among them. -/
theorem quorumFilter_of_mem_dropNodes (hrounds : pNodes.length ≤ rounds)
    (hn : n ∈ dropNodes map qfun rounds pNodes) :
    quorumFilter map qfun (dropNodes map qfun rounds pNodes) n = true := by
  induction rounds generalizing pNodes with
  | zero =>
    obtain rfl := eq_nil_of_length_eq_zero (Nat.le_zero.mp hrounds)
    cases hn
  | succ rounds ih =>
    have hle := length_filter_le (quorumFilter map qfun pNodes) pNodes
    unfold dropNodes at hn ⊢
    dsimp only at hn ⊢
    split at hn
    · rename_i hlen
      -- nothing was dropped in this round
      rw [if_pos hlen]
      have hsame := filter_sublist.eq_of_length hlen
      rw [hsame]
      exact (mem_filter.mp hn).2
    · rename_i hlen
      rw [if_neg hlen]
      exact ih (by omega) hn

theorem mem_nodesOf (h : n ∈ nodesOf map filter) :
    ∃ st, map.lookup n = some st ∧ filter st = true := by
  obtain ⟨⟨n, st⟩, hmem, rfl⟩ := mem_map.mp h
  obtain ⟨hentry, hfilter⟩ := mem_filter.mp hmem
  exact ⟨st, AList.mem_lookup_iff.mpr hentry, hfilter⟩

/-- Every node of a quorum passes the filter, and its quorum set has a slice in
the quorum. -/
theorem mem_quorumNodes (h : n ∈ quorumNodes map qfun filter) :
    ∃ st q, map.lookup n = some st ∧ filter st = true ∧ qfun st = some q
      ∧ isQuorumSlice q (quorumNodes map qfun filter) = true := by
  obtain ⟨st, hst, hfilter⟩ := mem_nodesOf (dropNodes_subset h)
  have hslice := quorumFilter_of_mem_dropNodes le_rfl h
  unfold quorumFilter at hslice
  rw [hst] at hslice
  split at hslice
  · rename_i q hq
    exact ⟨st, q, hst, hfilter, hq, hslice⟩
  · cases hslice

variable {Q : List NodeID} {qSet : SCPQuorumSet}

/-- The loop drops no node of a set in which every node has a slice. -/
theorem subset_dropNodes
    (hQ : ∀ n ∈ Q, ∃ st q, map.lookup n = some st ∧ qfun st = some q ∧ isQuorumSlice q Q = true)
    (hsub : Q ⊆ pNodes) : Q ⊆ dropNodes map qfun rounds pNodes := by
  induction rounds generalizing pNodes with
  | zero => exact hsub
  | succ rounds ih =>
    have hkept : Q ⊆ pNodes.filter (quorumFilter map qfun pNodes) := by
      intro n hn
      obtain ⟨st, q, hst, hq, hslice⟩ := hQ n hn
      refine mem_filter.mpr ⟨hsub hn, ?_⟩
      unfold quorumFilter
      rw [hst, Option.bind_some, hq]
      exact isQuorumSlice_mono hsub hslice
    unfold dropNodes
    dsimp only
    split
    · exact hkept
    · exact ih hkept

theorem mem_nodesOf_of {st : T} (hst : map.lookup n = some st) (hfilter : filter st = true) :
    n ∈ nodesOf map filter :=
  mem_map.mpr ⟨⟨n, st⟩, mem_filter.mpr ⟨AList.mem_lookup_iff.mp hst, hfilter⟩, rfl⟩

/-- A slice whose nodes all have a slice in it makes a quorum. -/
theorem isQuorum_of_slice (hslice : isQuorumSlice qSet Q = true)
    (hQ : ∀ n ∈ Q, ∃ st q, map.lookup n = some st ∧ filter st = true ∧ qfun st = some q
      ∧ isQuorumSlice q Q = true) : isQuorum map qfun qSet filter = true := by
  refine isQuorumSlice_mono (subset_dropNodes (fun n hn => ?_) fun n hn => ?_) hslice
  · obtain ⟨st, q, hst, -, hq, hslice⟩ := hQ n hn
    exact ⟨st, q, hst, hq, hslice⟩
  · obtain ⟨st, q, hst, hfilter, -⟩ := hQ n hn
    exact mem_nodesOf_of hst hfilter

/-- In a quorum there is a node. -/
theorem exists_of_isQuorum (h : isQuorum map qfun qSet filter = true) :
    ∃ n st, map.lookup n = some st ∧ filter st = true := by
  unfold isQuorum at h
  cases hnodes : quorumNodes map qfun filter with
  | nil =>
    rw [hnodes, isQuorumSlice, isQuorumSliceInternal_nil qSet] at h
    cases h
  | cons n ns =>
    obtain ⟨st, -, hst, hfilter, -⟩ :=
      mem_quorumNodes (show n ∈ quorumNodes map qfun filter by simp [hnodes])
    exact ⟨n, st, hst, hfilter⟩

end

end LocalNode

/-! ## What a sane quorum set is -/

namespace QuorumSetSanityChecker

open SCPQuorumSet

/-- What is asked of each level, but for nodes that are named twice. -/
inductive SaneAt (extraChecks : Bool) : Nat → SCPQuorumSet → Prop
  | mk {depth : Nat} {threshold : UInt32} {v : List NodeID} {i : List SCPQuorumSet}
      (hdepth : depth ≤ MAXIMUM_QUORUM_NESTING_LEVEL) (hpos : threshold ≠ 0)
      (hle : threshold.toNat ≤ v.length + i.length)
      (hextra : extraChecks = true → v.length + i.length < 2 * threshold.toNat)
      (hinner : ∀ q ∈ i, SaneAt extraChecks (depth + 1) q) :
      SaneAt extraChecks depth ⟨threshold, v, i⟩

/-- The nodes `ns` are new and are counted. -/
def Adds (known : List NodeID) (count : Nat) (ns : List NodeID) (r : List NodeID × Nat) : Prop :=
  (ns.Nodup ∧ ns.Disjoint known) ∧ r = (ns.reverse ++ known, count + ns.length)

theorem adds_append {known ns ms : List NodeID} {count : Nat} {r : List NodeID × Nat} :
    (∃ r', Adds known count ns r' ∧ Adds r'.1 r'.2 ms r) ↔ Adds known count (ns ++ ms) r := by
  unfold Adds
  rw [nodup_append', disjoint_append_left, reverse_append, append_assoc,
    length_append, ← Nat.add_assoc]
  constructor
  · rintro ⟨_, ⟨⟨hns, hknown⟩, rfl⟩, ⟨hms, hdisj⟩, rfl⟩
    rw [disjoint_append_right, disjoint_reverse_right] at hdisj
    exact ⟨⟨⟨hns, hms, hdisj.1.symm⟩, hknown, hdisj.2⟩, rfl⟩
  · rintro ⟨⟨⟨hns, hms, hdisj⟩, hknown, hknown'⟩, rfl⟩
    refine ⟨_, ⟨⟨hns, hknown⟩, rfl⟩, ⟨hms, ?_⟩, rfl⟩
    rw [disjoint_append_right, disjoint_reverse_right]
    exact ⟨hdisj.symm, hknown'⟩

theorem insertAll_eq_ok {ns known known' : List NodeID} (count : Nat) :
    insertAll known ns = .ok known' ↔ Adds known count ns (known', count + ns.length) := by
  induction ns generalizing known with
  | nil => simp [Adds, insertAll, eq_comm (b := known')]
  | cons n ns ih =>
    unfold insertAll
    split
    · simp [Adds, *]
    · rename_i hn
      simp only [ih, Adds, nodup_cons, disjoint_cons_right, disjoint_cons_left,
        reverse_cons, append_assoc, singleton_append, Prod.mk.injEq, and_true]
      tauto

section

variable {extraChecks : Bool} {depth count : Nat} {known : List NodeID} {r : List NodeID × Nat}

theorem checkInner_eq_ok {qs : List SCPQuorumSet}
    (ih : ∀ q ∈ qs, ∀ {known count r}, checkSanity extraChecks depth known count q = .ok r ↔
      SaneAt extraChecks depth q ∧ Adds known count q.allValidators r) :
    checkInner extraChecks depth known count qs = .ok r ↔
      (∀ q ∈ qs, SaneAt extraChecks depth q) ∧ Adds known count (innerValidators qs) r := by
  induction qs generalizing known count with
  | nil => simp [checkInner, innerValidators, Adds, eq_comm (b := r)]
  | cons q qs ihqs =>
    rw [forall_mem_cons] at ih ⊢
    rw [innerValidators, ← adds_append]
    simp only [checkInner, bind_eq_ok, ih.1, ihqs ih.2]
    tauto

/-- The checker says yes to sane levels whose nodes are new. -/
theorem checkSanity_eq_ok :
    checkSanity extraChecks depth known count q = .ok r ↔
      SaneAt extraChecks depth q ∧ Adds known count q.allValidators r := by
  induction q generalizing depth known count r with
  | mk threshold v i ih =>
    have hzero : threshold < 1 ↔ threshold = 0 := by
      rw [← UInt32.toNat_inj]
      exact Nat.lt_one_iff
    rw [allValidators, ← adds_append]
    unfold checkSanity
    dsimp only
    constructor
    · intro h
      split_ifs at h with hdepth hpos hle hextra
      obtain ⟨known', hinsert, h⟩ := bind_eq_ok.mp h
      obtain ⟨hinner, hadds⟩ := (checkInner_eq_ok fun q hq => ih q hq).mp h
      refine ⟨.mk (by omega) (mt hzero.mpr hpos) (by omega) (fun hex => ?_) hinner,
        _, (insertAll_eq_ok count).mp hinsert, hadds⟩
      rw [not_and] at hextra
      have := hextra hex
      omega
    · rintro ⟨hsane, ⟨known', count'⟩, hadds, hrest⟩
      cases hsane with
      | mk hdepth hpos hle hextra hinner =>
        obtain rfl : count' = count + v.length := congrArg Prod.snd hadds.2
        rw [if_neg (by omega), if_neg (mt hzero.mp hpos), if_neg (by omega), if_neg (by
          rintro ⟨hex, hlt⟩
          have := hextra hex
          omega)]
        exact bind_eq_ok.mpr ⟨known', (insertAll_eq_ok count).mpr hadds,
          (checkInner_eq_ok fun q hq => ih q hq).mpr ⟨hinner, hrest⟩⟩

end

theorem SaneAt.positive {depth : Nat} (h : SaneAt extraChecks depth q) : q.Positive := by
  induction h with
  | mk hdepth hpos hle hextra hinner ih => exact ⟨hpos, allPositive_iff.mpr ih⟩

end QuorumSetSanityChecker

open QuorumSetSanityChecker

/-- A sane quorum set has sane levels and names between 1 and 1000 nodes, none
twice. -/
theorem isQuorumSetSane_iff :
    isQuorumSetSane q extraChecks = .ok () ↔ SaneAt extraChecks 0 q ∧ q.allValidators.Nodup
      ∧ 1 ≤ q.allValidators.length ∧ q.allValidators.length ≤ 1000 := by
  unfold isQuorumSetSane
  rw [bind_eq_ok]
  constructor
  · rintro ⟨r, hcheck, h⟩
    obtain ⟨hsane, ⟨hnodup, -⟩, rfl⟩ := checkSanity_eq_ok.mp hcheck
    dsimp only at h
    split_ifs at h with hcount
    exact ⟨hsane, hnodup, by omega, by omega⟩
  · rintro ⟨hsane, hnodup, hle, hge⟩
    refine ⟨_, checkSanity_eq_ok.mpr ⟨hsane, ⟨hnodup, disjoint_nil_right _⟩, rfl⟩, ?_⟩
    exact if_neg (by omega)

variable (h : isQuorumSetSane q extraChecks = .ok ())
include h

theorem nodup_of_isQuorumSetSane : q.allValidators.Nodup :=
  (isQuorumSetSane_iff.mp h).2.1

theorem positive_of_isQuorumSetSane : q.Positive :=
  (isQuorumSetSane_iff.mp h).1.positive

end KinesisCore

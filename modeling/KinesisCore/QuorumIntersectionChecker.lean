import KinesisCore.QuorumSet
import KinesisCore.TarjanSCC

/-!
# The compiled quorum sets of the quorum intersection checker

`QuorumIntersectionCheckerImpl.cpp` gives numbers to the nodes of a quorum map whose
quorum set is known and compiles each quorum set to a `QBitSet` over these numbers. The
test `containsQuorumSlice` on a compiled quorum set takes two early exits by counting
bits and leaves the loop over the inner sets as soon as its result is certain.
`containsQuorumSlice_iff` says what is left of that in terms of counts alone;
`card_inter_bits` turns a count of bits into a count of validators, and by
`pos_of_isQuorumSliceInternal` a satisfied inner set has a validator of its own among
them. So for a quorum set that names no node twice the exits change nothing, and the
test is the one of `LocalNode` on the nodes themselves (`containsQuorumSlice_convert`).
The search of the checker, and the cache it keeps of sets of nodes, are not modelled.
-/

namespace KinesisCore

open List

/-! ## The graph -/

structure QBitSet where
  mThreshold : UInt32
  mNodes : BitSet
  mInnerSets : List QBitSet

namespace QBitSet

mutual

def getSuccessors (out : BitSet) : List QBitSet → BitSet
  | [] => out
  | i :: inner => getSuccessors (out ∪ mAllSuccessors i) inner

def mAllSuccessors : QBitSet → BitSet
  | ⟨_, nodes, inner⟩ => getSuccessors nodes inner

end

end QBitSet

/-- A quorum map; the source goes through it in no particular order. -/
abbrev QuorumMap := AList fun _ : NodeID => Option SCPQuorumSet

namespace QuorumIntersectionCheckerImpl

open SCPQuorumSet LocalNode QBitSet

/-- `mPubKeyBitNums` is the inverse of `mBitNumPubKeys`. -/
def bitNum (mBitNumPubKeys : List NodeID) (v : NodeID) : Option Nat := mBitNumPubKeys.idxOf? v

mutual

/-- A validator without a number is left out, but the threshold stays. -/
def convertSCPQuorumSet (mBitNumPubKeys : List NodeID) : SCPQuorumSet → QBitSet
  | ⟨threshold, validators, innerSets⟩ =>
    ⟨threshold, (validators.filterMap (bitNum mBitNumPubKeys)).toFinset,
      convertInner mBitNumPubKeys innerSets⟩

def convertInner (mBitNumPubKeys : List NodeID) : List SCPQuorumSet → List QBitSet
  | [] => []
  | i :: innerSets => convertSCPQuorumSet mBitNumPubKeys i :: convertInner mBitNumPubKeys innerSets

end

def pubKeys (qmap : QuorumMap) : List NodeID :=
  qmap.entries.filterMap fun pair => pair.2.map fun _ => pair.1

/-- Both loops over the map meet the nodes in the same order, so a node's number is its
place in the graph. -/
def buildGraph (qmap : QuorumMap) : List QBitSet :=
  qmap.entries.filterMap fun pair => pair.2.map (convertSCPQuorumSet (pubKeys qmap))

/-! ## Slices -/

/-- The loop over the inner sets, with its two limits. -/
def testInner : Nat → Nat → List Bool → Bool
  | _, _, [] => false
  | innerThreshold, innerFailLimit, true :: hits =>
    if innerThreshold - 1 = 0 then true else testInner (innerThreshold - 1) innerFailLimit hits
  | innerThreshold, innerFailLimit, false :: hits =>
    if innerFailLimit - 1 = 0 then false else testInner innerThreshold (innerFailLimit - 1) hits

mutual

def containsQuorumSlice (bs : BitSet) : QBitSet → Bool
  | ⟨threshold, nodes, innerSets⟩ =>
    let intersecting := (bs ∩ nodes).card
    if intersecting ≥ threshold.toNat then true
    else
      let innerThreshold := threshold.toNat - intersecting
      if innerThreshold > innerSets.length then false
      else if (bs ∩ QBitSet.mAllSuccessors ⟨threshold, nodes, innerSets⟩).card
          < threshold.toNat then false
      else
        testInner innerThreshold (innerSets.length - innerThreshold + 1) (innerSlices bs innerSets)

def innerSlices (bs : BitSet) : List QBitSet → List Bool
  | [] => []
  | inner :: innerSets => containsQuorumSlice bs inner :: innerSlices bs innerSets

end

theorem testInner_iff {hits : List Bool} : ∀ {innerThreshold innerFailLimit : Nat},
    innerThreshold ≠ 0 → innerFailLimit ≠ 0 → innerThreshold + innerFailLimit = hits.length + 1 →
      (testInner innerThreshold innerFailLimit hits = true ↔ innerThreshold ≤ hits.count true) := by
  induction hits with
  | nil =>
    intro t f ht hf hsum
    rw [List.length_nil] at hsum
    omega
  | cons hit hits ih =>
    intro t f ht hf hsum
    rw [List.length_cons] at hsum
    have hlen : hits.count true ≤ hits.length := List.count_le_length
    cases hit with
    | true =>
      rw [testInner, List.count_cons_self]
      split
      · simp only [true_iff]
        omega
      · rw [ih (by omega) hf (by omega)]
        omega
    | false =>
      rw [testInner, List.count_cons_of_ne (by decide)]
      split
      · simp only [Bool.false_eq_true, false_iff]
        omega
      · exact ih ht (by omega) (by omega)

theorem innerSlices_eq (bs : BitSet) (qs : List QBitSet) :
    innerSlices bs qs = qs.map (containsQuorumSlice bs) := by
  induction qs with
  | nil => rfl
  | cons q qs ih => rw [innerSlices, ih, List.map_cons]

/-- What is left of the early exits: the count of all successors may stand in the way of
the inner sets. -/
theorem containsQuorumSlice_iff {bs : BitSet} {threshold : UInt32} {nodes : BitSet}
    {innerSets : List QBitSet} :
    containsQuorumSlice bs ⟨threshold, nodes, innerSets⟩ = true ↔
      threshold.toNat ≤ (bs ∩ nodes).card
      ∨ threshold.toNat ≤ (bs ∩ nodes).card + innerSets.countP (containsQuorumSlice bs)
        ∧ threshold.toNat ≤ (bs ∩ mAllSuccessors ⟨threshold, nodes, innerSets⟩).card := by
  have hcount : innerSets.countP (containsQuorumSlice bs) ≤ innerSets.length :=
    List.countP_le_length
  rw [containsQuorumSlice, innerSlices_eq]
  dsimp only
  split
  · rename_i hge
    exact iff_of_true rfl (.inl hge)
  · rename_i hlt
    split
    · simp only [Bool.false_eq_true, false_iff]
      omega
    · split
      · simp only [Bool.false_eq_true, false_iff]
        omega
      · rw [testInner_iff (by omega) (by omega) (by rw [List.length_map]; omega),
          LocalNode.count_true_map]
        omega

theorem mem_getSuccessors {i : Nat} (out : BitSet) (inner : List QBitSet) :
    i ∈ getSuccessors out inner ↔ i ∈ out ∨ ∃ q ∈ inner, i ∈ q.mAllSuccessors := by
  induction inner generalizing out with
  | nil => simp [getSuccessors]
  | cons q inner ih => simp [getSuccessors, ih, or_assoc]

/-! ## Numbers and names -/

section

variable {keys : List NodeID} {bs : BitSet} {v : NodeID}

/-- The nodes with a number in `bs`. -/
def named (keys : List NodeID) (bs : BitSet) : List NodeID := bs.sort.filterMap (keys[·]?)

theorem mem_named : v ∈ named keys bs ↔ ∃ i ∈ bs, keys[i]? = some v := by
  unfold named
  simp only [mem_filterMap, Finset.mem_sort]

theorem bitNum_eq_some (hkeys : keys.Nodup) {i : Nat} :
    bitNum keys v = some i ↔ keys[i]? = some v := by
  unfold bitNum
  rw [idxOf?_eq_some_iff]
  constructor
  · rintro ⟨hlt, heq, -⟩
    exact List.getElem?_eq_some_iff.mpr ⟨hlt, heq⟩
  · intro h
    obtain ⟨hlt, heq⟩ := List.getElem?_eq_some_iff.mp h
    refine ⟨hlt, heq, fun j hj => ?_⟩
    rw [← heq]
    exact fun hji => hj.ne ((hkeys.getElem_inj_iff).mp hji)

/-- Distinct validators have distinct numbers. -/
theorem card_inter_bits (bs : BitSet) (hkeys : keys.Nodup) {vs : List NodeID} (hvs : vs.Nodup) :
    (bs ∩ (vs.filterMap (bitNum keys)).toFinset).card
      = vs.countP ((named keys bs).contains ·) := by
  induction vs with
  | nil => simp
  | cons v vs ih =>
    obtain ⟨hv, hvs⟩ := nodup_cons.mp hvs
    have hcontains : (named keys bs).contains v = true ↔ ∃ i ∈ bs, keys[i]? = some v := by
      rw [contains_iff_mem, mem_named]
    rw [countP_cons, ← ih hvs]
    cases hbit : bitNum keys v with
    | none =>
      rw [filterMap_cons_none hbit, if_neg]
      · rfl
      · rw [hcontains]
        rintro ⟨i, -, hi⟩
        rw [(bitNum_eq_some hkeys).mpr hi] at hbit
        cases hbit
    | some i =>
      have hi := (bitNum_eq_some hkeys).mp hbit
      rw [filterMap_cons_some hbit, toFinset_cons]
      by_cases hmem : i ∈ bs
      · have hnew : i ∉ bs ∩ (vs.filterMap (bitNum keys)).toFinset := by
          simp only [Finset.mem_inter, mem_toFinset, mem_filterMap, not_and, not_exists]
          intro _ w hw hwi
          rw [bitNum_eq_some hkeys, hi] at hwi
          exact hv (Option.some.inj hwi ▸ hw)
        rw [Finset.inter_insert_of_mem hmem, Finset.card_insert_of_notMem hnew,
          if_pos (hcontains.mpr ⟨i, hmem, hi⟩)]
      · rw [Finset.inter_insert_of_notMem hmem, if_neg]
        · rfl
        · rw [hcontains]
          rintro ⟨j, hj, hjv⟩
          rw [← bitNum_eq_some hkeys, hbit] at hjv
          exact hmem (Option.some.inj hjv ▸ hj)

theorem convertInner_eq (keys : List NodeID) (qs : List SCPQuorumSet) :
    convertInner keys qs = qs.map (convertSCPQuorumSet keys) := by
  induction qs with
  | nil => rfl
  | cons q qs ih => rw [convertInner, ih, map_cons]

theorem mAllSuccessors_convert (keys : List NodeID) (q : SCPQuorumSet) :
    (convertSCPQuorumSet keys q).mAllSuccessors
      = (q.allValidators.filterMap (bitNum keys)).toFinset := by
  induction q with
  | mk threshold validators innerSets ih =>
    ext i
    rw [convertSCPQuorumSet, QBitSet.mAllSuccessors, mem_getSuccessors, convertInner_eq,
      allValidators, innerValidators_eq, filterMap_append, toFinset_append,
      Finset.mem_union, filterMap_flatMap]
    simp only [mem_map, exists_exists_and_eq_and, mem_toFinset, mem_flatMap]
    refine or_congr_right (exists_congr fun q => and_congr_right fun hq => ?_)
    rw [ih q hq, mem_toFinset]

/-! ## Slices under their names -/

theorem countP_le_countP_flatMap {α β : Type} {p : α → Bool} {r : β → Bool} {f : α → List β}
    {l : List α} (h : ∀ a ∈ l, p a = true → 0 < (f a).countP r) :
    l.countP p ≤ (l.flatMap f).countP r := by
  induction l with
  | nil => exact le_rfl
  | cons a l ih =>
    have ha := h a mem_cons_self
    have hl := ih fun a' ha' => h a' (mem_cons_of_mem _ ha')
    rw [countP_cons, flatMap_cons, countP_append]
    split
    · rename_i hp
      have := ha hp
      omega
    · omega

/-- A quorum set that is satisfied has one of its validators among the nodes at least. -/
theorem pos_of_isQuorumSliceInternal (nodeSet : List NodeID) (q : SCPQuorumSet)
    (h : isQuorumSliceInternal nodeSet q = true) :
    0 < q.allValidators.countP (nodeSet.contains ·) := by
  induction q with
  | mk threshold validators innerSets ih =>
    have hinner := countP_le_countP_flatMap ih
    rw [isQuorumSliceInternal_count] at h
    rw [allValidators, innerValidators_eq, countP_append]
    omega

/-- For a quorum set without duplicates the early exits change nothing. -/
theorem containsQuorumSlice_convert (hkeys : keys.Nodup) (bs : BitSet) (q : SCPQuorumSet)
    (hpos : q.Positive) (hnodup : q.allValidators.Nodup) :
    containsQuorumSlice bs (convertSCPQuorumSet keys q)
      = isQuorumSliceInternal (named keys bs) q := by
  induction q with
  | mk threshold validators innerSets ih =>
    have hall := card_inter_bits bs hkeys hnodup
    rw [← mAllSuccessors_convert, convertSCPQuorumSet, allValidators, innerValidators_eq,
      countP_append] at hall
    rw [allValidators, innerValidators_eq] at hnodup
    have hvalidators := card_inter_bits bs hkeys hnodup.of_append_left
    have hinner : (convertInner keys innerSets).countP (containsQuorumSlice bs)
        = innerSets.countP (isQuorumSliceInternal (named keys bs)) := by
      rw [convertInner_eq, countP_map]
      refine countP_congr fun q hq => ?_
      rw [Function.comp_apply, ih q hq (allPositive_iff.mp hpos.2 q hq)
        ((nodup_flatMap.mp hnodup.of_append_right).1 q hq)]
    have hle := countP_le_countP_flatMap fun q (_ : q ∈ innerSets) =>
      pos_of_isQuorumSliceInternal (named keys bs) q
    rw [Bool.eq_iff_iff, convertSCPQuorumSet, containsQuorumSlice_iff,
      isQuorumSliceInternal_count, toNat_sub_one_add_one hpos.1]
    omega

end

/-! ## The graph of a quorum map -/

section

variable {qmap : QuorumMap} {n : NodeID} {q : SCPQuorumSet} {i : Nat}
  {extraChecks : Bool}

/-- The nodes with a known quorum set, in the order of their numbers. -/
def known (qmap : QuorumMap) : List (NodeID × SCPQuorumSet) :=
  qmap.entries.filterMap fun pair => pair.2.map fun q => (pair.1, q)

theorem pubKeys_eq : pubKeys qmap = (known qmap).map (·.1) := by
  unfold pubKeys known
  rw [map_filterMap]
  refine filterMap_congr fun pair _ => ?_
  cases pair.2 <;> rfl

theorem buildGraph_eq :
    buildGraph qmap = (known qmap).map fun p => convertSCPQuorumSet (pubKeys qmap) p.2 := by
  unfold buildGraph known
  rw [map_filterMap]
  refine filterMap_congr fun pair _ => ?_
  cases pair.2 <;> rfl

theorem mem_known : (n, q) ∈ known qmap ↔ qmap.lookup n = some (some q) := by
  rw [← Option.mem_def, AList.mem_lookup_iff]
  unfold known
  rw [mem_filterMap]
  constructor
  · rintro ⟨⟨n', q'⟩, hmem, heq⟩
    obtain ⟨q'', hq, hpair⟩ := Option.map_eq_some_iff.mp heq
    cases hpair
    dsimp only at hq
    rwa [hq] at hmem
  · exact fun hmem => ⟨_, hmem, rfl⟩

theorem nodup_pubKeys (qmap : QuorumMap) : (pubKeys qmap).Nodup := by
  refine pairwise_filterMap.mpr (qmap.nodupKeys.pairwise_ne.imp fun {a b} hab k hk k' hk' => ?_)
  obtain ⟨-, -, rfl⟩ := Option.map_eq_some_iff.mp hk
  obtain ⟨-, -, rfl⟩ := Option.map_eq_some_iff.mp hk'
  exact hab

theorem containsQuorumSlice_iff_slices (bs : BitSet)
    (hsane : isQuorumSetSane q extraChecks = .ok ()) :
    containsQuorumSlice bs (convertSCPQuorumSet (pubKeys qmap) q) = true
      ↔ ∃ s ∈ q.slices, s ⊆ {v | v ∈ named (pubKeys qmap) bs} := by
  have hpos := positive_of_isQuorumSetSane hsane
  rw [← isQuorumSliceInternal_iff _ q hpos, containsQuorumSlice_convert (nodup_pubKeys qmap) bs q
    hpos (nodup_of_isQuorumSetSane hsane)]

/-- A node's number is its place in the graph. -/
theorem graph_and_key (h : (known qmap)[i]? = some (n, q)) :
    (pubKeys qmap)[i]? = some n
      ∧ (buildGraph qmap)[i]? = some (convertSCPQuorumSet (pubKeys qmap) q) := by
  rw [pubKeys_eq, getElem?_map, buildGraph_eq, getElem?_map, h, ← pubKeys_eq]
  exact ⟨rfl, rfl⟩

/-- Every node with a known quorum set has its number in the graph, and the fast test of the
compiled quorum set there decides whether the quorum set itself has a slice among the nodes
with a number in `bs`. -/
theorem containsQuorumSlice_correct (bs : BitSet) (hlookup : qmap.lookup n = some (some q))
    (hsane : ∃ extraChecks, isQuorumSetSane q extraChecks = .ok ()) :
    ∃ (i : Nat) (qbs : QBitSet), (pubKeys qmap)[i]? = some n ∧ (buildGraph qmap)[i]? = some qbs
      ∧ (containsQuorumSlice bs qbs = true
        ↔ ∃ s ∈ q.slices, ∀ v ∈ s, ∃ j ∈ bs, (pubKeys qmap)[j]? = some v) := by
  obtain ⟨i, hi⟩ := mem_iff_getElem?.mp (mem_known.mpr hlookup)
  obtain ⟨hkey, hq⟩ := graph_and_key hi
  obtain ⟨extraChecks, hsane⟩ := hsane
  refine ⟨i, _, hkey, hq, (containsQuorumSlice_iff_slices bs hsane).trans ?_⟩
  simp only [Set.subset_def, Set.mem_ofPred_eq, mem_named]

end

/-- A node that follows itself alone, one that follows it and a third, and the third, whose
quorum set is not known. -/
def strangers : QuorumMap where
  entries := [⟨1, some ⟨1, [1], []⟩⟩, ⟨2, some ⟨1, [1], [⟨1, [2, 3], []⟩]⟩⟩, ⟨3, none⟩]
  nodupKeys := by simp [List.NodupKeys, List.keys]

theorem containsQuorumSlice_correct_strangers :
    ∃ (i : Nat) (qbs : QBitSet), (pubKeys strangers)[i]? = some 2
      ∧ (buildGraph strangers)[i]? = some qbs
      ∧ (containsQuorumSlice {1} qbs = true
        ↔ ∃ s ∈ (SCPQuorumSet.mk 1 [1] [⟨1, [2, 3], []⟩]).slices,
          ∀ v ∈ s, ∃ j ∈ ({1} : BitSet), (pubKeys strangers)[j]? = some v) :=
  containsQuorumSlice_correct {1} rfl ⟨false, rfl⟩

end QuorumIntersectionCheckerImpl

end KinesisCore

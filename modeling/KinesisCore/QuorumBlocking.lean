import Mathlib.Algebra.Order.BigOperators.Group.List
import KinesisCore.QuorumSet

/-!
# What slices, blocking sets and quorums have to do with each other

`isVBlocking` and `isQuorumSlice` count down from different thresholds. In a sane
quorum set the two counts are complementary at every level, so a set blocks exactly
when what is left of the quorum set holds no slice. `isQuorum` drops nodes until
each one left has a slice among the others; what stays is the greatest such set.
-/

namespace KinesisCore

open SCPQuorumSet List

namespace QuorumSetSanityChecker

/-- Every level counts as a node at least. -/
theorem SaneAt.entries_le {extraChecks : Bool} {depth : Nat} {q : SCPQuorumSet}
    (h : SaneAt extraChecks depth q) :
    1 ≤ q.validators.length + q.innerSets.length
      ∧ q.validators.length + q.innerSets.length ≤ q.allValidators.length := by
  induction h with
  | @mk depth threshold v i hdepth hpos hle hextra hinner ih =>
    have hthreshold : threshold.toNat ≠ 0 := fun h => hpos (UInt32.toNat_inj.mp h)
    have hsum : i.length ≤ (innerValidators i).length := by
      rw [innerValidators_eq, length_flatMap]
      refine le_of_eq_of_le (length_map _).symm (length_le_sum_of_one_le _ fun k hk => ?_)
      obtain ⟨q, hq, rfl⟩ := mem_map.mp hk
      exact (ih q hq).1.trans (ih q hq).2
    rw [allValidators, length_append]
    exact ⟨by dsimp only; omega, by dsimp only; omega⟩

end QuorumSetSanityChecker

namespace LocalNode

open QuorumSetSanityChecker

/-! ## Blocking sets -/

theorem countP_add_countP {α : Type} {p p' : α → Bool} {l : List α} (h : ∀ a ∈ l, p a = !p' a) :
    l.countP p + l.countP p' = l.length := by
  rw [countP_congr fun a ha => by rw [h a ha], add_comm]
  simpa using (length_eq_countP_add_countP p').symm

/-- The nodes `S` block where the others, `C`, hold no slice. -/
theorem isVBlockingInternal_eq_not {extraChecks : Bool} {depth : Nat} {q : SCPQuorumSet}
    {S C : List NodeID} (hsane : SaneAt extraChecks depth q)
    (hsmall : q.allValidators.length < 2 ^ 31) (hC : ∀ n ∈ q.allValidators, n ∈ C ↔ n ∉ S) :
    isVBlockingInternal S q = !isQuorumSliceInternal C q := by
  induction hsane with
  | @mk depth threshold v i hdepth hpos hle hextra hinner ih =>
    have hentries : v.length + i.length ≤ _ :=
      (SaneAt.mk hdepth hpos hle hextra hinner).entries_le.2
    have hthreshold : threshold.toNat ≠ 0 := fun h => hpos (UInt32.toNat_inj.mp h)
    rw [allValidators, innerValidators_eq] at hC hsmall hentries
    rw [length_append] at hsmall hentries
    have hvalidators : v.countP (S.contains ·) + v.countP (C.contains ·) = v.length :=
      countP_add_countP fun n hn => by
        rw [Bool.eq_iff_iff, Bool.not_eq_true', contains_iff_mem, Bool.eq_false_iff, ne_eq,
          contains_iff_mem, hC n (mem_append_left _ hn), not_not]
    have hinners : i.countP (isVBlockingInternal S) + i.countP (isQuorumSliceInternal C)
        = i.length := by
      refine countP_add_countP fun q hq => ih q hq ?_ fun n hn => hC n ?_
      · have hsub : q.allValidators.Sublist (i.flatMap allValidators) :=
          sublist_flatten_of_mem (mem_map_of_mem hq)
        have := hsub.length_le
        omega
      · exact mem_append_right _ (mem_flatMap.mpr ⟨q, hq, hn⟩)
    have hmod : ((1 + v.length + i.length : Int) - threshold.toNat).bmod (2 ^ 32)
        = 1 + v.length + i.length - threshold.toNat := by
      rw [Int.bmod_eq_of_le (by omega) (by omega)]
    rw [Bool.eq_iff_iff, Bool.not_eq_true', Bool.eq_false_iff, ne_eq, isVBlockingInternal_count,
      isQuorumSliceInternal_count, toNat_sub_one_add_one hpos]
    constructor
    · rintro ⟨-, -, h⟩
      omega
    · intro h
      exact ⟨hpos, by omega, by omega⟩

theorem isVBlocking_eq_not {q : SCPQuorumSet} {extraChecks : Bool}
    (hsane : isQuorumSetSane q extraChecks = .ok ()) {S C : List NodeID}
    (hC : ∀ n ∈ q.allValidators, n ∈ C ↔ n ∉ S) : isVBlocking q S = !isQuorumSlice q C := by
  obtain ⟨hat, -, -, hle⟩ := isQuorumSetSane_iff.mp hsane
  exact isVBlockingInternal_eq_not hat (by omega) hC

/-- A set blocks exactly when it meets every set of nodes that holds a slice. -/
theorem isVBlocking_iff_meets {q : SCPQuorumSet} {extraChecks : Bool}
    (hsane : isQuorumSetSane q extraChecks = .ok ()) {S : List NodeID} :
    isVBlocking q S = true ↔ ∀ P, isQuorumSlice q P = true → ∃ n ∈ P, n ∈ S := by
  constructor
  · intro hblocks P hslice
    by_contra hnone
    push Not at hnone
    -- with the nodes of the slice, the rest is still what lies outside of S
    have hrest := isVBlocking_eq_not hsane (S := S) (C := P ++ q.allValidators.filter (· ∉ S))
      fun n hn => by
        rw [mem_append, mem_filter, decide_eq_true_eq]
        exact ⟨fun h => h.elim (hnone n) And.right, fun h => .inr ⟨hn, h⟩⟩
    have hmore := isQuorumSlice_mono (subset_append_left P (q.allValidators.filter (· ∉ S))) hslice
    rw [hrest, hmore] at hblocks
    cases hblocks
  · intro hmeets
    rw [isVBlocking_eq_not hsane (C := q.allValidators.filter (· ∉ S)) fun n hn => by simp [hn],
      Bool.not_eq_true', Bool.eq_false_iff]
    intro hslice
    obtain ⟨n, hn, hS⟩ := hmeets _ hslice
    exact absurd hS (by simpa using (mem_filter.mp hn).2)

/-- A set blocks a sane quorum set exactly when the nodes outside of it hold no slice; so
it meets every slice. -/
theorem isVBlocking_iff_not_isQuorumSlice (q : SCPQuorumSet) (extraChecks : Bool)
    (hsane : isQuorumSetSane q extraChecks = .ok ()) (S : List NodeID) :
    (isVBlocking q S = true ↔ isQuorumSlice q (q.allValidators.filter (· ∉ S)) = false)
      ∧ (isVBlocking q S = true → ∀ P, isQuorumSlice q P = true → ∃ n ∈ P, n ∈ S) := by
  refine ⟨?_, (isVBlocking_iff_meets hsane).mp⟩
  rw [isVBlocking_eq_not hsane (C := q.allValidators.filter (· ∉ S)) fun n hn => by simp [hn],
    Bool.not_eq_true']

/-- Three of four entries: a node and both nodes of an inner set block. -/
theorem isVBlocking_iff_not_isQuorumSlice_nested :
    let q : SCPQuorumSet := ⟨3, [1, 2], [⟨1, [3, 4], []⟩, ⟨2, [5, 6], []⟩]⟩
    isQuorumSetSane q false = .ok () ∧ isVBlocking q [1, 3, 4] = true
      ∧ isQuorumSlice q [2, 5, 6] = false ∧ ∀ P, isQuorumSlice q P = true →
        ∃ n ∈ P, n ∈ [1, 3, 4] := by
  intro q
  have hblocks : isVBlocking q [1, 3, 4] = true := rfl
  have hdual := isVBlocking_iff_not_isQuorumSlice q false rfl [1, 3, 4]
  exact ⟨rfl, hblocks, hdual.1.mp hblocks, hdual.2 hblocks⟩

/-! ## Quorums -/

section

variable {T : Type} (map : AList fun _ : NodeID => T) (qfun : T → Option SCPQuorumSet)

/-- The loop without a bound on its rounds. -/
inductive DropLoop : List NodeID → List NodeID → Prop
  | stop {pNodes : List NodeID}
      (h : (pNodes.filter (quorumFilter map qfun pNodes)).length = pNodes.length) :
      DropLoop pNodes (pNodes.filter (quorumFilter map qfun pNodes))
  | again {pNodes r : List NodeID}
      (h : (pNodes.filter (quorumFilter map qfun pNodes)).length ≠ pNodes.length)
      (hrest : DropLoop (pNodes.filter (quorumFilter map qfun pNodes)) r) : DropLoop pNodes r

theorem dropLoop_dropNodes {rounds : Nat} {pNodes : List NodeID} (h : pNodes.length ≤ rounds) :
    DropLoop map qfun pNodes (dropNodes map qfun rounds pNodes) := by
  induction rounds generalizing pNodes with
  | zero =>
    obtain rfl := eq_nil_of_length_eq_zero (Nat.le_zero.mp h)
    exact .stop rfl
  | succ rounds ih =>
    have hle := length_filter_le (quorumFilter map qfun pNodes) pNodes
    unfold dropNodes
    dsimp only
    split_ifs with hlen
    · exact .stop hlen
    · exact .again hlen (ih (by omega))

open Classical in
/-- The loop ends, and there is a quorum exactly when there are nodes that pass the filter
and have slices among them, with a slice of the local node. -/
theorem isQuorum_iff_exists_slices (qSet : SCPQuorumSet) (filter : T → Bool) (hqSet : qSet.Positive)
    (hqfun : ∀ n st q, map.lookup n = some st → qfun st = some q → q.Positive) :
    (∃ pNodes, DropLoop map qfun (nodesOf map filter) pNodes
      ∧ isQuorum map qfun qSet filter = isQuorumSlice qSet pNodes)
    ∧ (isQuorum map qfun qSet filter = true ↔ ∃ Q : Set NodeID,
      (∀ n ∈ Q, ∃ st q, map.lookup n = some st ∧ filter st = true ∧ qfun st = some q
        ∧ ∃ s ∈ q.slices, s ⊆ Q) ∧ ∃ s ∈ qSet.slices, s ⊆ Q) := by
  refine ⟨⟨_, dropLoop_dropNodes map qfun le_rfl, rfl⟩, ⟨fun h => ?_, ?_⟩⟩
  · refine ⟨{n | n ∈ quorumNodes map qfun filter}, fun n hn => ?_,
      (isQuorumSliceInternal_iff _ _ hqSet).mp h⟩
    obtain ⟨st, q, hst, hfilter, hq, hslice⟩ := mem_quorumNodes hn
    exact ⟨st, q, hst, hfilter, hq, (isQuorumSliceInternal_iff _ _ (hqfun n st q hst hq)).mp hslice⟩
  · rintro ⟨Q, hQ, hlocal⟩
    obtain ⟨nodes, rfl⟩ : ∃ nodes : List NodeID, {n | n ∈ nodes} = Q := by
      refine ⟨(nodesOf map filter).filter (· ∈ Q), Set.ext fun n => ?_⟩
      rw [Set.mem_ofPred_eq, mem_filter, decide_eq_true_eq]
      refine and_iff_right_of_imp fun hn => ?_
      obtain ⟨st, q, hst, hfilter, -⟩ := hQ n hn
      exact mem_nodesOf_of hst hfilter
    refine isQuorum_of_slice ((isQuorumSliceInternal_iff _ _ hqSet).mpr hlocal) fun n hn => ?_
    obtain ⟨st, q, hst, hfilter, hq, hslice⟩ := hQ n hn
    exact ⟨st, q, hst, hfilter, hq, (isQuorumSliceInternal_iff _ _ (hqfun n st q hst hq)).mpr
      hslice⟩

end

/-- Two nodes trust each other; the quorum set of the third is not known. -/
theorem isQuorum_iff_exists_slices_pair :
    let map : AList fun _ : NodeID => Bool := ((AList.insert 3 false ∅).insert 2 true).insert 1 true
    let qfun (known : Bool) : Option SCPQuorumSet := if known then some ⟨2, [1, 2], []⟩ else none
    ∃ Q : Set NodeID, (∀ n ∈ Q, ∃ st q, map.lookup n = some st ∧ true = true ∧ qfun st = some q
      ∧ ∃ s ∈ q.slices, s ⊆ Q) ∧ ∃ s ∈ (SCPQuorumSet.mk 1 [2, 3] []).slices, s ⊆ Q := by
  intro map qfun
  refine (isQuorum_iff_exists_slices map qfun ⟨1, [2, 3], []⟩ (fun _ => true)
    ⟨by decide, trivial⟩ ?_).2.mp (by decide)
  rintro n (_ | _) q - hq
  · cases hq
  · cases hq
    exact ⟨by decide, trivial⟩

end LocalNode

end KinesisCore

import KinesisCore.OwnStatements
import KinesisCore.QuorumBlocking

/-!
# Ballot counters

Step 9 of the protocol lets a node catch up with a blocking set that is ahead of it. The
loop goes through the counters of the statements only, and still stops at the least of all
counters that no blocking set is ahead of (`attemptBump_isLeast`): fewer nodes are ahead of
a higher counter (`hasVBlockingSubsetStrictlyAheadOf_mono`), so the least one that is enough
is the counter of a statement (`mem_countersAhead_of_isLeast`).

The counter of the current ballot goes back in one place: a node in phase PREPARE that
accepts the commit of another value than it is working on moves to that ballot, however low
(`Move.falls`). Every other move and every bump keeps the counter or raises it; `kept_raised`
carries that through whole calls.
-/

namespace KinesisCore

open LocalNode UInt32

namespace BallotProtocol

open EStateM

/-! ## Catching up -/

section

theorem mem_countersAhead {s : BallotProtocol} {localCounter n : UInt32} :
    n ∈ countersAhead s localCounter ↔
      (∃ e ∈ s.mLatestEnvelopes.entries, statementBallotCounter e.2 = n) ∧ localCounter < n := by
  rw [countersAhead, List.mem_reverse, descendingCounters, List.mem_insertionSort, List.mem_dedup,
    List.mem_filter, List.mem_map, decide_eq_true_eq]

theorem pairwise_countersAhead (s : BallotProtocol) (localCounter : UInt32) :
    (countersAhead s localCounter).Pairwise (· ≤ ·) := by
  rw [countersAhead, List.pairwise_reverse]
  exact List.pairwise_insertionSort _ _

variable (slot : Slot) {s : BallotProtocol} {m n : UInt32}

/-- Fewer nodes are ahead of a higher counter. -/
theorem hasVBlockingSubsetStrictlyAheadOf_mono
    (hsub : ∀ v st, s.mLatestEnvelopes.lookup v = some st →
      m < statementBallotCounter st → n < statementBallotCounter st)
    (h : hasVBlockingSubsetStrictlyAheadOf slot s m = true) :
    hasVBlockingSubsetStrictlyAheadOf slot s n = true := by
  refine isVBlocking_mono (fun v hv => ?_) h
  obtain ⟨st, hst, hm⟩ := mem_nodesOf hv
  exact mem_nodesOf_of hst (decide_eq_true (hsub v st hst (of_decide_eq_true hm)))

/-- The least counter that no blocking set is ahead of. -/
theorem exists_isLeast (s : BallotProtocol) :
    ∃ n, IsLeast {n | hasVBlockingSubsetStrictlyAheadOf slot s n = false} n := by
  have hmax : hasVBlockingSubsetStrictlyAheadOf slot s UINT32_MAX = false := by
    have hnone : LocalNode.nodesOf s.mLatestEnvelopes
        (fun st => statementBallotCounter st > UINT32_MAX) = [] := by
      refine List.eq_nil_iff_forall_not_mem.mpr fun v hv => ?_
      obtain ⟨st, -, hst⟩ := mem_nodesOf hv
      have hle := (statementBallotCounter st).toNat_lt
      have hlt := lt_iff_toNat_lt.mp (of_decide_eq_true hst)
      have : UINT32_MAX.toNat = 2 ^ 32 - 1 := rfl
      omega
    rw [hasVBlockingSubsetStrictlyAheadOf, Slot.isVBlocking, hnone]
    exact isVBlockingInternal_nil _
  obtain ⟨n, hn, hleast⟩ := (measure UInt32.toNat).wf.has_min
    {n | hasVBlockingSubsetStrictlyAheadOf slot s n = false} ⟨_, hmax⟩
  exact ⟨n, hn, fun m hm => le_iff_toNat_le.mpr (Nat.le_of_not_lt (hleast m hm))⟩

/-- It is the counter of a statement: below it fewer nodes would be ahead. -/
theorem mem_countersAhead_of_isLeast {localCounter : UInt32}
    (hahead : hasVBlockingSubsetStrictlyAheadOf slot s localCounter = true)
    (hn : IsLeast {n | hasVBlockingSubsetStrictlyAheadOf slot s n = false} n) :
    n ∈ countersAhead s localCounter := by
  have hnot {m : UInt32} (hsub : ∀ v st, s.mLatestEnvelopes.lookup v = some st →
      m < statementBallotCounter st → n < statementBallotCounter st) :
      hasVBlockingSubsetStrictlyAheadOf slot s m ≠ true := fun h =>
    absurd (hasVBlockingSubsetStrictlyAheadOf_mono slot hsub h) (ne_true_of_eq_false hn.1)
  have hlt : localCounter < n := by
    by_contra hle
    refine hnot (fun _ st _ h => ?_) hahead
    simp only [lt_iff_toNat_lt] at hle h ⊢
    omega
  rw [mem_countersAhead]
  refine ⟨?_, hlt⟩
  by_contra hnone
  have hpos : n ≠ 0 := by
    rintro rfl
    exact UInt32.not_lt_zero hlt
  have hpred := toNat_sub_one_add_one hpos
  have hle := mt (@hn.2 (n - 1)) (by rw [le_iff_toNat_le]; omega)
  refine hnot (fun v st hst h => ?_) (eq_true_of_ne_false hle)
  have hne : statementBallotCounter st ≠ n := fun h =>
    hnone ⟨⟨v, st⟩, AList.mem_lookup_iff.mp hst, h⟩
  rw [ne_eq, ← UInt32.toNat_inj] at hne
  rw [lt_iff_toNat_lt] at h ⊢
  omega

/-- The latest statement of the node has a counter above `n`. An externalized statement has
the highest counter of all. -/
def AheadOf (s : BallotProtocol) (n : UInt32) (v : NodeID) : Prop :=
  ∃ st, s.mLatestEnvelopes.lookup v = some st ∧
    match st.pledges with
    | .prepare p => n < p.ballot.counter
    | .confirm c => n < c.ballot.counter
    | .externalize _ => n < UINT32_MAX

/-- The nodes ahead of `n` are blocking: one of them is in every slice of the local node. -/
def BlockedAhead (s : BallotProtocol) (n : UInt32) : Prop :=
  ∀ P, isQuorumSlice slot.localNode.mQSet P = true → ∃ v ∈ P, s.AheadOf n v

theorem hasVBlockingSubsetStrictlyAheadOf_iff {extraChecks : Bool}
    (hsane : isQuorumSetSane slot.localNode.mQSet extraChecks = .ok ()) :
    hasVBlockingSubsetStrictlyAheadOf slot s n = true ↔ BlockedAhead slot s n := by
  have hahead : ∀ v, v ∈ nodesOf s.mLatestEnvelopes (fun st => statementBallotCounter st > n)
      ↔ s.AheadOf n v := by
    have hcounter : ∀ st : SCPStatement, statementBallotCounter st > n ↔
        match st.pledges with
        | .prepare p => n < p.ballot.counter
        | .confirm c => n < c.ballot.counter
        | .externalize _ => n < UINT32_MAX := by
      rintro ⟨_, _, pledges⟩
      cases pledges <;> rfl
    intro v
    constructor
    · intro hv
      obtain ⟨st, hst, hn⟩ := mem_nodesOf hv
      exact ⟨st, hst, (hcounter st).mp (of_decide_eq_true hn)⟩
    · rintro ⟨st, hst, hn⟩
      exact mem_nodesOf_of hst (decide_eq_true ((hcounter st).mpr hn))
  rw [hasVBlockingSubsetStrictlyAheadOf, Slot.isVBlocking, isVBlocking_iff_meets hsane]
  simp only [hahead]
  rfl

/-- Unless it has externalized, a node with a blocking set ahead of it moves to the least
counter that no blocking set is ahead of; else it does nothing. -/
theorem attemptBump_isLeast (emit : BallotM Unit) (s : BallotProtocol)
    (hsane : ∃ extraChecks, isQuorumSetSane slot.localNode.mQSet extraChecks = .ok ())
    (hphase : s.mPhase ≠ .EXTERNALIZE) :
    let localCounter := (s.mCurrentBallot.map (·.counter)).getD 0
    (BlockedAhead slot s localCounter →
      ∃ n, IsLeast {n : UInt32 | ¬BlockedAhead slot s n} n
        ∧ attemptBump slot emit s = abandonBallot slot emit n s)
    ∧ (¬BlockedAhead slot s localCounter → attemptBump slot emit s = .ok false s) := by
  intro localCounter
  obtain ⟨extraChecks, hsane⟩ := hsane
  simp only [← hasVBlockingSubsetStrictlyAheadOf_iff slot hsane, Bool.not_eq_true]
  constructor
  · intro hahead
    obtain ⟨n, hn⟩ := exists_isLeast slot s
    refine ⟨n, hn, ?_⟩
    have hfind : (countersAhead s localCounter).find?
        (!hasVBlockingSubsetStrictlyAheadOf slot s ·) = some n := by
      obtain ⟨below, above, hsplit, hnot⟩ :=
        List.eq_append_cons_of_mem (mem_countersAhead_of_isLeast slot hahead hn)
      have hsorted := pairwise_countersAhead s localCounter
      rw [hsplit, List.pairwise_append] at hsorted
      refine List.find?_eq_some_iff_append.mpr ⟨by simpa using hn.1, below, above, hsplit, ?_⟩
      intro m hm
      have hle := hsorted.2.2 m hm n List.mem_cons_self
      have hne : m ≠ n := fun h => hnot (h ▸ hm)
      rw [Bool.not_not]
      refine eq_true_of_ne_false fun h => hne (UInt32.le_antisymm hle (hn.2 h))
    unfold attemptBump
    show (if _ then _ else _ : BallotM Bool) s = _
    rw [if_neg hphase, hahead, hfind]
    rfl
  · intro hnot
    unfold attemptBump
    show (if _ then _ else _ : BallotM Bool) s = _
    rw [if_neg hphase, hnot]
    rfl

/-- Two of the three nodes in the quorum set block. All three are ahead of the first ballot,
and only the one that has externalized is ahead of counter 5. -/
theorem attemptBump_isLeast_five :
    let slot : Slot := ⟨5, ⟨2, ⟨2, [1, 3, 4], []⟩, 9⟩, carefulDriver⟩
    let s : BallotProtocol :=
      { mFullyValidated := true
        mCurrentBallot := some ⟨1, [7]⟩
        mLatestEnvelopes :=
          ((AList.insert 1 ⟨1, 5, .prepare ⟨9, ⟨3, [7]⟩, none, none, 0, 0⟩⟩ ∅).insert 3
            ⟨3, 5, .confirm ⟨⟨5, [7]⟩, 4, 3, 4, 9⟩⟩).insert 4
            ⟨4, 5, .externalize ⟨⟨2, [7]⟩, 2, 9⟩⟩ }
    ∃ n, IsLeast {n : UInt32 | ¬BlockedAhead slot s n} n ∧ n = 5
      ∧ attemptBump slot (pure ()) s = abandonBallot slot (pure ()) n s := by
  intro slot s
  have hsane : isQuorumSetSane slot.localNode.mQSet false = .ok () := rfl
  have hiff n := hasVBlockingSubsetStrictlyAheadOf_iff slot (s := s) (n := n) hsane
  obtain ⟨n, hn, hbump⟩ := (attemptBump_isLeast slot (pure ()) s ⟨false, hsane⟩ (by decide)).1
    ((hiff 1).mp (by decide))
  refine ⟨n, hn, UInt32.le_antisymm (hn.2 fun h => absurd ((hiff 5).mpr h) (by decide)) ?_, hbump⟩
  by_contra hlt
  refine hn.1 ((hiff n).mp ?_)
  refine hasVBlockingSubsetStrictlyAheadOf_mono slot (m := 4) (fun v st _ hst => ?_) (by decide)
  simp only [le_iff_toNat_le, lt_iff_toNat_lt] at hlt hst ⊢
  have hfive : UInt32.toNat 5 = UInt32.toNat 4 + 1 := rfl
  omega

end

/-! ## Counters do not go back -/

/-- The counter of the current ballot. -/
def counter (s : BallotProtocol) : Nat := (s.mCurrentBallot.map (·.counter.toNat)).getD 0

/-- Unless the node has gone on from phase PREPARE, the counter of its current ballot is at
least `low`. -/
def CounterFrom (start : SCPPhase) (low : Nat) (s : BallotProtocol) : Prop :=
  (start = .PREPARE → s.mPhase = .PREPARE) → low ≤ s.counter

section

variable {slot : Slot} {hint : SCPStatement} {s s' : BallotProtocol} {ballot : SCPBallot}
  {strict : Prop} {start : SCPPhase} {low : Nat}

theorem CounterFrom.step (h : CounterFrom start low s) (hs : Ordered start s)
    (hs' : Ordered s.mPhase s') (hstep : CounterFrom s.mPhase s.counter s') :
    CounterFrom start low s' := by
  have hrank : ∀ p : SCPPhase, p = .PREPARE ↔ p.rank = 0 := by
    intro p
    cases p <;> decide
  have hphase := hs.phase
  have hphase' := hs'.phase
  unfold CounterFrom at h hstep ⊢
  simp only [hrank] at h hstep ⊢
  omega

end

end BallotProtocol

open EStateM BallotProtocol

end KinesisCore

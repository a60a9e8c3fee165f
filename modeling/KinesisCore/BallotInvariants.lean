import KinesisCore.BallotAgreement

/-!
# The order of a node's ballots

Whatever the statements, bumps and timers, a node's ballots keep their places:
`p'` below and against `p`, `c` below and with `h`, `h` below and with `b`, and out of
phase PREPARE there is a `c`. That is all that `checkInvariants` asks but one thing,
that the counter of `b` is not zero. For that no statement may claim to have prepared a
ballot with counter zero.
-/

namespace KinesisCore

open List
open Option (mem_def bind_eq_bind bind_eq_some_iff mem_toList)

variable {slot : Slot} {st : SCPStatement}

def SCPPhase.rank : SCPPhase → Nat
  | PREPARE => 0
  | CONFIRM => 1
  | EXTERNALIZE => 2

namespace BallotProtocol

open EStateM

/-! ## Ballots in order -/

/-- The ballots are in order, and the phase is `start` or later. -/
structure Ordered (start : SCPPhase) (s : BallotProtocol) : Prop where
  prime : ∀ p' ∈ s.mPreparedPrime, ∃ p ∈ s.mPrepared, p' < p ∧ p'.value ≠ p.value
  high : ∀ h ∈ s.mHighBallot, ∃ b ∈ s.mCurrentBallot, h ≤ b ∧ h.value = b.value
  commit : ∀ c ∈ s.mCommit, ∃ h ∈ s.mHighBallot, c ≤ h ∧ c.value = h.value
  confirmed : s.mPhase ≠ .PREPARE → ∃ c, s.mCommit = some c
  phase : start.rank ≤ s.mPhase.rank

section

variable {start : SCPPhase} {s s' : BallotProtocol} {hint : SCPStatement} {ballot : SCPBallot}

section

variable (h : Ordered start s)
include h

theorem Ordered.congr (hfields : s'.ballotFields = s.ballotFields) : Ordered start s' := by
  simp only [ballotFields, Prod.mk.injEq] at hfields
  obtain ⟨hphase, hcurrent, hprepared, hprime, hhigh, hcommit⟩ := hfields
  exact ⟨by rw [hprime, hprepared]; exact h.prime, by rw [hhigh, hcurrent]; exact h.high,
    by rw [hcommit, hhigh]; exact h.commit, by rw [hphase, hcommit]; exact h.confirmed,
    by rw [hphase]; exact h.phase⟩

/-- Of the assertions only the one on the counter is left. -/
theorem Ordered.invariantsHold_iff :
    s.invariantsHold = true ↔ ∀ b ∈ s.mCurrentBallot, b.counter ≠ 0 := by
  have hprime : (s.mPrepared.all fun p =>
      s.mPreparedPrime.all (areBallotsLessAndIncompatible · p)) = true := by
    simp only [all_iff, lessAndIncompatible_iff]
    intro p hp p' hp'
    obtain ⟨q, hq, hlt⟩ := h.prime p' hp'
    rw [mem_def.mp hq] at hp
    rwa [← Option.some.inj hp]
  have hhigh : ∀ hb ∈ s.mHighBallot,
      s.mCurrentBallot.any (areBallotsLessAndCompatible hb ·) = true := by
    intro hb hhb
    obtain ⟨b, hb', hle⟩ := h.high hb hhb
    rw [mem_def.mp hb']
    exact lessAndCompatible_iff.mpr hle
  have hcommit : (s.mCommit.all fun c => s.mHighBallot.any fun h =>
      areBallotsLessAndCompatible c h
        && s.mCurrentBallot.any (areBallotsLessAndCompatible h ·)) = true := by
    rw [all_iff]
    intro c hc
    obtain ⟨hb, hhb, hle⟩ := h.commit c hc
    have hany := hhigh hb hhb
    rw [mem_def.mp hhb, Option.any_some, hany, Bool.and_true]
    exact lessAndCompatible_iff.mpr hle
  unfold invariantsHold
  rw [hprime, hcommit, all_iff.mpr hhigh]
  cases hphase : s.mPhase with
  | PREPARE => simp [all_iff]
  | CONFIRM =>
    obtain ⟨c, hc⟩ := h.confirmed (by rw [hphase]; nofun)
    simp [all_iff, hc]
  | EXTERNALIZE =>
    obtain ⟨c, hc⟩ := h.confirmed (by rw [hphase]; nofun)
    obtain ⟨hb, hhb, -⟩ := h.commit c hc
    simp [all_iff, hc, mem_def.mp hhb]

/-- Out of phase PREPARE the ballots `c`, `h` and `b` are all there, with one value. -/
theorem Ordered.values (hphase : s.mPhase ≠ .PREPARE) :
    ∃ c hb b, s.mCommit = some c ∧ s.mHighBallot = some hb ∧ s.mCurrentBallot = some b
      ∧ c.value = hb.value ∧ hb.value = b.value := by
  obtain ⟨c, hc⟩ := h.confirmed hphase
  obtain ⟨hb, hhb, -, hvalue⟩ := h.commit c hc
  obtain ⟨b, hb', -, hvalue'⟩ := h.high hb hhb
  exact ⟨c, hb, b, hc, hhb, hb', hvalue, hvalue'⟩

theorem Ordered.commit_eq_none (hhigh : s.mHighBallot = none) : s.mCommit = none := by
  rw [Option.eq_none_iff_forall_not_mem]
  intro c hc
  obtain ⟨hb, hhb, -⟩ := h.commit c hc
  rw [hhigh] at hhb
  cases hhb

/-- A move up, in phase CONFIRM to a ballot that `c` is compatible with. -/
theorem Ordered.bumpedTo (hle : ∀ b ∈ s.mCurrentBallot, b ≤ ballot)
    (hc : s.mPhase ≠ .PREPARE → ∀ c ∈ s.mCommit, c.value = ballot.value) :
    Ordered start (s.bumpedTo ballot) := by
  unfold BallotProtocol.bumpedTo
  cases hhigh : s.mHighBallot with
  | none =>
    have hcommit := h.commit_eq_none hhigh
    refine ⟨h.prime, fun _ hhb => (by cases hhb), fun c hc => ?_, h.confirmed, h.phase⟩
    simp [hcommit] at hc
  | some hb =>
    obtain ⟨b, hb', hle', hvalue⟩ := h.high hb hhigh
    by_cases hcompat : ballot.value = hb.value
    · have hall : (some hb).all (areBallotsCompatible ballot ·) = true := compatible_iff.mpr hcompat
      simp only [hall, if_true]
      refine ⟨h.prime, fun hb'' hhb'' => ⟨ballot, rfl, ?_⟩, ?_, h.confirmed, h.phase⟩
      · cases hhb''
        exact ⟨hle'.trans (hle b hb'), hcompat.symm⟩
      · intro c hc
        have := h.commit c hc
        rwa [hhigh] at this
    · have hall : ¬(some hb).all (areBallotsCompatible ballot ·) = true :=
        fun h => hcompat (compatible_iff.mp h)
      simp only [if_neg hall]
      refine ⟨h.prime, nofun, nofun, fun hphase => ?_, h.phase⟩
      -- a commit would have kept the two compatible
      obtain ⟨c, hc'⟩ := h.confirmed hphase
      obtain ⟨hb'', hhb'', -, hvalue'⟩ := h.commit c hc'
      rw [hhigh] at hhb''
      cases hhb''
      exact absurd ((hc hphase c hc').symm.trans hvalue') hcompat

theorem Ordered.setsPrepared (hset : SetsPrepared s ballot s') : Ordered start s' := by
  cases hset with
  | first hp =>
    refine ⟨fun p' hp' => ?_, h.high, h.commit, h.confirmed, h.phase⟩
    obtain ⟨p, hmem, -⟩ := h.prime p' hp'
    rw [hp] at hmem
    cases hmem
  | raise p hp hlt =>
    refine ⟨fun p' hmem => ⟨ballot, rfl, ?_⟩, h.high, h.commit, h.confirmed, h.phase⟩
    split_ifs at hmem with hcompat
    · obtain ⟨q, hq, hlt', hne⟩ := h.prime p' hmem
      rw [hp] at hq
      cases hq
      exact ⟨hlt'.trans hlt, compatible_iff.mp hcompat ▸ hne⟩
    · cases hmem
      exact ⟨hlt, fun heq => hcompat (compatible_iff.mpr heq)⟩
  | prime p hp hlt hvalue hgt =>
    refine ⟨fun p' hmem => ⟨p, hp, ?_⟩, h.high, h.commit, h.confirmed, h.phase⟩
    cases hmem
    exact ⟨hlt, hvalue⟩

end

variable {hb : SCPBallot}

/-- With `h` in place, the current ballot is moved up to it. -/
theorem ordered_movedUp
    (hprime : ∀ p' ∈ s.mPreparedPrime, ∃ p ∈ s.mPrepared, p' < p ∧ p'.value ≠ p.value)
    (hhigh : s.mHighBallot = some hb)
    (hcurrent : ∀ b ∈ s.mCurrentBallot, hb ≤ b → hb.value = b.value)
    (hcommit : ∀ c ∈ s.mCommit, c ≤ hb ∧ c.value = hb.value)
    (hconfirmed : s.mPhase ≠ .PREPARE → ∃ c, s.mCommit = some c)
    (hphase : start.rank ≤ s.mPhase.rank) : Ordered start (s.movedUp hb) := by
  rcases movedUp_cases s hb with ⟨-, hmoved⟩ | ⟨⟨b, hb', hnot⟩, hmoved⟩
  · have hall : s.mHighBallot.all (areBallotsCompatible hb ·) = true := by
      rw [hhigh]
      exact compatible_iff.mpr rfl
    rw [hmoved]
    unfold BallotProtocol.bumpedTo
    simp only [hall, if_true]
    refine ⟨hprime, fun h' hh' => ⟨hb, rfl, ?_⟩, fun c hc => ⟨hb, hhigh, hcommit c hc⟩, hconfirmed,
      hphase⟩
    rw [hhigh] at hh'
    rw [Option.some.inj hh']
    exact ⟨le_rfl, rfl⟩
  · rw [hmoved]
    refine ⟨hprime, fun h' hh' => ⟨b, hb', ?_⟩, fun c hc => ⟨hb, hhigh, hcommit c hc⟩, hconfirmed,
      hphase⟩
    rw [hhigh] at hh'
    rw [← Option.some.inj hh']
    exact ⟨hnot, hcurrent b hb' hnot⟩

variable {c h : SCPBallot}

/-- On the way into phase CONFIRM the current ballot is put in line with `h`. -/
theorem acceptedCommit_current :
    ∀ b ∈ (s.acceptedCommit c h).mCurrentBallot, s.mPhase ≠ .PREPARE ∧ s.mCurrentBallot = some b
      ∨ h ≤ b ∧ h.value = b.value := by
  intro b hb
  unfold acceptedCommit at hb
  dsimp only at hb
  split_ifs at hb with hphase hany
  · obtain rfl : h = b := Option.some.inj hb
    exact .inr ⟨le_rfl, rfl⟩
  · rw [any_iff] at hany
    push Not at hany
    have hle := hany b hb
    rw [ne_eq, Bool.not_eq_true', Bool.not_eq_false, lessAndCompatible_iff] at hle
    exact .inr hle
  · exact .inl ⟨hphase, hb⟩

section

variable (hs : Ordered start s)
include hs

theorem acceptedCommit_prime : ∀ p' ∈ (s.acceptedCommit c h).mPreparedPrime,
      ∃ p ∈ (s.acceptedCommit c h).mPrepared, p' < p ∧ p'.value ≠ p.value := by
  obtain ⟨hprepared, hprime, -⟩ := acceptedCommit_fields s c h
  rw [hprepared]
  exact fun p' hp' => hs.prime p' (hprime p' hp')

theorem Ordered.acceptCommit (hc : CommitAcceptable hint s c h) :
    Ordered start ((s.acceptedCommit c h).movedUp h) := by
  have hphase := acceptedCommit_phase s c h hc.phase
  refine ordered_movedUp (acceptedCommit_prime hs) (acceptedCommit_high s c h) ?_ ?_
    (fun _ => ⟨c, acceptedCommit_commit s c h⟩) ?_
  · intro b hb _
    rcases acceptedCommit_current b hb with ⟨hprepare, hb⟩ | ⟨-, hvalue⟩
    · -- in phase CONFIRM all ballots are of one value
      obtain ⟨-, hh, b', -, hhigh, hb', -, hvalue⟩ := hs.values hprepare
      obtain ⟨h', hh', hvalue', -⟩ := hc.confirm (confirm_of_ne hprepare hc.phase)
      rw [hhigh] at hh'
      rw [hb] at hb'
      rw [← hvalue', ← Option.some.inj hh', hvalue, Option.some.inj hb']
    · exact hvalue
  · intro c' hc'
    rw [acceptedCommit_commit] at hc'
    rw [← Option.some.inj hc']
    exact ⟨hc.le, hc.value⟩
  · rw [hphase]
    refine hs.phase.trans ?_
    cases hp : s.mPhase with
    | PREPARE => decide
    | CONFIRM => decide
    | EXTERNALIZE => exact absurd hp hc.phase

theorem Ordered.confirmCommit (hc : CommitConfirmable hint s c h) :
    Ordered start (s.confirmedCommit c h) := by
  obtain ⟨c₀, hb, b, hcommit, -, hcurrent, hvalue, hvalue'⟩ := hs.values (by rw [hc.phase]; nofun)
  have hmoved : Ordered start
      (({ s with mCommit := some c, mHighBallot := some h } : BallotProtocol).movedUp h) := by
    refine ordered_movedUp hs.prime rfl ?_ ?_ (fun _ => ⟨c, rfl⟩) hs.phase
    · intro b' hb' _
      obtain ⟨c₁, hc₁, hvalue₁⟩ := hc.commit
      rw [hcommit] at hc₁
      rw [hcurrent] at hb'
      rw [← hc.value, ← hvalue₁, ← Option.some.inj hc₁, hvalue, hvalue', Option.some.inj hb']
    · intro c' hc'
      rw [← Option.some.inj hc']
      exact ⟨hc.le, hc.value⟩
  have hphase : (({ s with mCommit := some c, mHighBallot := some h } : BallotProtocol).movedUp
      h).mPhase = .CONFIRM := by
    unfold movedUp
    split <;> exact hc.phase
  refine ⟨hmoved.prime, hmoved.high, hmoved.commit, fun _ => hmoved.confirmed ?_, ?_⟩
  · rw [hphase]
    nofun
  · show start.rank ≤ SCPPhase.EXTERNALIZE.rank
    cases start <;> decide

theorem Ordered.confirmPrepared {newC newH : SCPBallot} (hc : Confirmable slot hint s newC newH) :
    Ordered start ((s.confirmedPrepared newC newH).movedUp newH) := by
  have hprepare : (s.confirmedPrepared newC newH).mPhase = .PREPARE := hc.phase
  by_cases hcompat : s.mCurrentBallot.all (areBallotsCompatible · newH) = true
  · refine ordered_movedUp hs.prime ?_ ?_ ?_ (absurd hprepare) hs.phase
    · exact if_pos hcompat
    · intro b hb _
      exact (compatible_iff.mp (all_iff.mp hcompat b hb)).symm
    · intro c hcommit
      simp only [confirmedPrepared, hcompat, Bool.true_and] at hcommit
      split_ifs at hcommit with hcounter
      · cases hcommit
        exact (hc.commit (of_decide_eq_true hcounter)).2
      · obtain ⟨h, hh, hle, hvalue⟩ := hs.commit c hcommit
        obtain ⟨b, hb, -, hvalue'⟩ := hs.high h hh
        refine ⟨hle.trans (hc.raises h hh).le, ?_⟩
        rw [hvalue, hvalue']
        exact compatible_iff.mp (all_iff.mp hcompat b hb)
  · -- the ballot moves on without `h` and `c`
    have hsame : Ordered start (s.confirmedPrepared newC newH) := by
      rw [confirmedPrepared, Bool.eq_false_iff.mpr hcompat]
      exact hs.congr rfl
    rcases movedUp_cases (s.confirmedPrepared newC newH) newH with ⟨hlt, hmoved⟩ | ⟨-, hmoved⟩
    · rw [hmoved]
      exact hsame.bumpedTo (fun b hb => (hlt b hb).le) (absurd hprepare)
    · rw [hmoved]
      exact hsame

end

theorem Ordered.prepares (h : Ordered start s) (hset : Prepares s ballot s') :
    Ordered start s' := by
  cases hset with
  | keeping hset => exact h.setsPrepared hset
  | clearing hset hphase =>
    have h' := h.setsPrepared hset
    exact ⟨h'.prime, h'.high, nofun, absurd (hset.phase.trans hphase), h'.phase⟩

theorem Ordered.move (h : Ordered start s) (hmove : Move slot hint s s') :
    Ordered start s' := by
  cases hmove with
  | prepared _ hset => exact h.prepares hset
  | confirmPrepared hc _ => exact h.confirmPrepared hc
  | acceptCommit hc => exact h.acceptCommit hc
  | confirmCommit hc => exact h.confirmCommit hc

variable {offered : Value → Prop}

theorem Ordered.bump (h : Ordered start s) (hbump : Bumpable offered s ballot) :
    Ordered start (s.bumpedTo ballot) := by
  refine h.bumpedTo (fun b hb => (hbump.lt b hb).le) fun hphase => hbump.commit ?_
  obtain ⟨-, -, b, -, -, hb, -⟩ := h.values hphase
  rw [hb]
  nofun

end

/-! ## Counters -/

/-- The statement claims no prepared ballot with counter zero. -/
def PreparesCounted (st : SCPStatement) : Prop :=
  match st.pledges with
  | .prepare p => (∀ q ∈ p.prepared, q.counter ≠ 0) ∧ ∀ q ∈ p.preparedPrime, q.counter ≠ 0
  | .confirm c => c.nPrepared ≠ 0
  | .externalize _ => True

/-- A statement by which no ballot of counter zero gets prepared. Only a node without a
current ballot names one, the empty ballot in its place. -/
def Solid (st : SCPStatement) : Prop :=
  PreparesCounted st ∧
    match st.pledges with
    | .prepare p => (p.ballot.counter = 0 → p.ballot = {}) ∧ (∀ q ∈ p.prepared, q.value ≠ [])
        ∧ ∀ q ∈ p.preparedPrime, q.value ≠ []
    | .confirm c => c.ballot.value ≠ []
    | .externalize e => e.commit.value ≠ []

/-- A statement of a node without a current ballot. -/
def Blank (st : SCPStatement) : Prop :=
  ∃ p, st.pledges = .prepare p ∧ p.ballot.counter = 0

structure Counted (s : BallotProtocol) : Prop where
  current : ∀ b ∈ s.mCurrentBallot, b.counter ≠ 0
  prepared : ∀ p ∈ s.mPrepared, p.counter ≠ 0
  prime : ∀ p' ∈ s.mPreparedPrime, p'.counter = 0 → p'.value = []
  solid : ∀ n st, s.mLatestEnvelopes.lookup n = some st → Solid st
  blank : ∀ n st, s.mLatestEnvelopes.lookup n = some st → Blank st → s.mPrepared ≠ none

section

variable {slot : Slot} {hint st : SCPStatement} {s s' : BallotProtocol} {ballot : SCPBallot}

/-- `p` goes up. -/
theorem SetsPrepared.mono (hset : SetsPrepared s ballot s') :
    (∀ p ∈ s.mPrepared, ∃ q ∈ s'.mPrepared, p ≤ q) ∧ ∃ q ∈ s'.mPrepared, ballot ≤ q := by
  cases hset with
  | first hp =>
    refine ⟨fun p hp' => ?_, ballot, rfl, le_rfl⟩
    rw [hp] at hp'
    cases hp'
  | raise p hp hlt =>
    refine ⟨fun p' hp' => ⟨ballot, rfl, ?_⟩, ballot, rfl, le_rfl⟩
    rw [hp] at hp'
    rw [← Option.some.inj hp']
    exact hlt.le
  | prime p hp hlt hvalue hgt => exact ⟨fun p' hp' => ⟨p', hp', le_rfl⟩, p, hp, hlt.le⟩

theorem Prepares.mono (hset : Prepares s ballot s') :
    (∀ p ∈ s.mPrepared, ∃ q ∈ s'.mPrepared, p ≤ q) ∧ ∃ q ∈ s'.mPrepared, ballot ≤ q := by
  cases hset with
  | keeping hset | clearing hset _ => exact hset.mono

/-- The node has something to say. -/
def Telling (s : BallotProtocol) : Prop := s.mCurrentBallot ≠ none ∨ s.mPrepared ≠ none

theorem Move.telling (hmove : Move slot hint s s') : Telling s' := by
  cases hmove with
  | prepared _ hset =>
    obtain ⟨-, q, hq, -⟩ := hset.mono
    refine .inr ?_
    rw [mem_def.mp hq]
    exact nofun
  | confirmPrepared hc _ | acceptCommit hc | confirmCommit hc => exact .inl (movedUp_ne_none _ _)

theorem mem_getPrepareCandidates (h : ballot ∈ getPrepareCandidates s hint) :
    ∃ topVote ∈ getHintBallots hint, ∃ n st, s.mLatestEnvelopes.lookup n = some st
      ∧ ballot ∈ candidatesBelow topVote st := by
  unfold getPrepareCandidates descendingBallots at h
  rw [mem_insertionSort, mem_dedup, mem_flatMap] at h
  obtain ⟨topVote, htop, h⟩ := h
  obtain ⟨e, he, h⟩ := mem_flatMap.mp h
  exact ⟨topVote, htop, e.1, e.2, AList.mem_lookup_iff.mpr he, h⟩

variable {topVote : SCPBallot}

theorem mem_getPrepareCandidates_of {n : NodeID}
    (htop : topVote ∈ getHintBallots hint) (hst : s.mLatestEnvelopes.lookup n = some st)
    (h : ballot ∈ candidatesBelow topVote st) : ballot ∈ getPrepareCandidates s hint := by
  unfold getPrepareCandidates descendingBallots
  rw [mem_insertionSort, mem_dedup]
  exact mem_flatMap.mpr ⟨topVote, htop, mem_flatMap.mpr
    ⟨⟨n, st⟩, AList.mem_lookup_iff.mp hst, h⟩⟩

theorem Solid.hintBallots (h : Solid hint) (hmem : ballot ∈ getHintBallots hint)
    (hzero : ballot.counter = 0) : ballot = {} := by
  obtain ⟨hcounted, hsolid⟩ := h
  unfold PreparesCounted at hcounted
  unfold getHintBallots at hmem
  cases hp : hint.pledges with
  | prepare p =>
    simp only [hp, cons_append, mem_cons, mem_append, mem_toList] at *
    rcases hmem with rfl | hmem | hmem
    · exact hsolid.1 hzero
    · exact absurd hzero (hcounted.1 ballot hmem)
    · exact absurd hzero (hcounted.2 ballot hmem)
  | confirm c =>
    simp only [hp, mem_cons, not_mem_nil, or_false] at *
    rcases hmem with rfl | rfl
    · exact absurd hzero hcounted
    · exact absurd hzero (show UINT32_MAX ≠ 0 by decide)
  | externalize e =>
    simp only [hp, mem_cons, not_mem_nil, or_false] at *
    subst hmem
    exact absurd hzero (show UINT32_MAX ≠ 0 by decide)

/-- A candidate with counter zero is the ballot in the place of none. -/
theorem Solid.candidatesBelow (h : Solid st)
    (htop : topVote.counter = 0 → topVote = {}) (hmem : ballot ∈ candidatesBelow topVote st)
    (hzero : ballot.counter = 0) : ballot = {} ∧ Blank st := by
  obtain ⟨hcounted, hsolid⟩ := h
  unfold PreparesCounted at hcounted
  unfold BallotProtocol.candidatesBelow at hmem
  unfold Blank
  cases hp : st.pledges with
  | prepare p =>
    simp only [hp, cons_append, mem_filter, mem_cons, mem_append,
      mem_toList] at *
    rcases hmem.1 with rfl | hq | hq
    · exact ⟨hsolid.1 hzero, p, rfl, hzero⟩
    · exact absurd hzero (hcounted.1 ballot hq)
    · exact absurd hzero (hcounted.2 ballot hq)
  | confirm c =>
    simp only [hp] at hmem hcounted hsolid
    split_ifs at hmem with hcompat hlt
    · rw [mem_cons, mem_singleton] at hmem
      rcases hmem with rfl | rfl
      · rw [htop hzero] at hcompat
        exact absurd (compatible_iff.mp hcompat).symm hsolid
      · exact absurd hzero hcounted
    · rw [mem_singleton] at hmem
      subst hmem
      rw [htop hzero] at hcompat
      exact absurd (compatible_iff.mp hcompat).symm hsolid
    · cases hmem
  | externalize e =>
    simp only [hp] at hmem hsolid
    split_ifs at hmem with hcompat
    · rw [mem_singleton] at hmem
      subst hmem
      rw [htop hzero] at hcompat
      exact absurd (compatible_iff.mp hcompat).symm hsolid
    · cases hmem

variable (h : Counted s)
include h

theorem Counted.candidate (hhint : Solid hint)
    (hmem : ballot ∈ getPrepareCandidates s hint) (hzero : ballot.counter = 0) :
    ballot = {} ∧ s.mPrepared ≠ none := by
  obtain ⟨topVote, htop, n, st, hst, hmem⟩ := mem_getPrepareCandidates hmem
  obtain ⟨hempty, hblank⟩ := (h.solid n st hst).candidatesBelow (hhint.hintBallots htop) hmem hzero
  exact ⟨hempty, h.blank n st hst hblank⟩

omit h in
/-- Nobody has prepared the empty value. -/
theorem Solid.hasPreparedBallot (h : Solid st) : hasPreparedBallot {} st = false := by
  obtain ⟨-, hsolid⟩ := h
  unfold BallotProtocol.hasPreparedBallot
  rw [Bool.eq_false_iff]
  intro hprepared
  cases hp : st.pledges with
  | prepare p =>
    simp only [hp, Bool.or_eq_true, any_iff, lessAndCompatible_iff] at hprepared hsolid
    rcases hprepared with ⟨q, hq, -, hvalue⟩ | ⟨q, hq, -, hvalue⟩
    · exact hsolid.2.1 q hq hvalue.symm
    · exact hsolid.2.2 q hq hvalue.symm
  | confirm c =>
    simp only [hp, lessAndCompatible_iff] at hprepared hsolid
    exact hsolid hprepared.2.symm
  | externalize e =>
    simp only [hp, compatible_iff] at hprepared hsolid
    exact hsolid hprepared.symm

/-- A ballot that is confirmed has a counter. -/
theorem Counted.ratified (hhint : Solid hint) (hmem : ballot ∈ getPrepareCandidates s hint)
    (hratified : ratifiesPrepared slot s ballot = true) : ballot.counter ≠ 0 := by
  intro hzero
  obtain ⟨rfl, -⟩ := h.candidate hhint hmem hzero
  obtain ⟨n, st, hst, hprepared⟩ := LocalNode.exists_of_isQuorum hratified
  rw [(h.solid n st hst).hasPreparedBallot] at hprepared
  cases hprepared

/-- The statements stay and `p` is not taken back. -/
theorem Counted.step (hlatest : s'.mLatestEnvelopes = s.mLatestEnvelopes)
    (hcurrent : ∀ b ∈ s'.mCurrentBallot, b.counter ≠ 0)
    (hprepared : ∀ p ∈ s'.mPrepared, p.counter ≠ 0)
    (hsome : s.mPrepared ≠ none → s'.mPrepared ≠ none)
    (hprime : ∀ p' ∈ s'.mPreparedPrime, p'.counter = 0 → p'.value = []) : Counted s' := by
  refine ⟨hcurrent, hprepared, hprime, ?_, ?_⟩
  · rw [hlatest]
    exact h.solid
  · rw [hlatest]
    exact fun n st hst hblank => hsome (h.blank n st hst hblank)

theorem Counted.setsPrepared (hhint : Solid hint)
    (hmem : ballot ∈ getPrepareCandidates s hint) (hset : SetsPrepared s ballot s') :
    Counted s' := by
  have hcandidate := h.candidate hhint hmem
  cases hset with
  | first hp =>
    refine h.step rfl h.current ?_ (fun _ => nofun) h.prime
    intro p hp' hzero
    cases hp'
    exact (hcandidate hzero).2 hp
  | raise p hp hlt =>
    refine h.step rfl h.current ?_ (fun _ => nofun) ?_
    · intro q hq hzero
      cases hq
      rw [(hcandidate hzero).1] at hlt
      exact absurd hlt (not_lt.mpr (zero_le_ballot p))
    · intro p' hp' hzero
      split_ifs at hp'
      · exact h.prime p' hp' hzero
      · cases hp'
        exact absurd hzero (h.prepared p hp)
  | prime p hp hlt hvalue hgt =>
    refine h.step rfl h.current h.prepared (fun h => h) ?_
    intro p' hp' hzero
    cases hp'
    rw [(hcandidate hzero).1]

/-- Moving the current ballot up to one with a counter. -/
theorem Counted.movedUp (hcounter : hb.counter ≠ 0) : Counted (s.movedUp hb) := by
  rcases movedUp_cases s hb with ⟨-, hmoved⟩ | ⟨-, hmoved⟩
  · rw [hmoved]
    refine h.step rfl (fun b hb' => ?_) h.prepared (fun h => h) h.prime
    rwa [← Option.some.inj hb']
  · rw [hmoved]
    exact h

theorem Counted.acceptedCommit (c : SCPBallot) (hcounter : hb.counter ≠ 0) :
    Counted (s.acceptedCommit c hb) := by
  unfold BallotProtocol.acceptedCommit
  dsimp only
  split_ifs
  · refine h.step rfl (fun b hb' => ?_) h.prepared (fun h => h) nofun
    obtain rfl : hb = b := Option.some.inj hb'
    exact hcounter
  · exact h.step rfl h.current h.prepared (fun h => h) nofun
  · exact h.step rfl h.current h.prepared (fun h => h) h.prime

omit h in
theorem counter_ne_zero_of_le {a b : SCPBallot} (hle : a ≤ b) (ha : a.counter ≠ 0) :
    b.counter ≠ 0 := by
  intro hzero
  have hle := counter_le_of_le hle
  rw [hzero] at hle
  exact ha (UInt32.toNat_inj.mp (Nat.le_zero.mp hle))

theorem Counted.move (hhint : Solid hint) (hmove : Move slot hint s s') : Counted s' := by
  cases hmove with
  | prepared hp hset =>
    cases hset with
    | keeping hset => exact h.setsPrepared hhint hp.mem hset
    | clearing hset _ =>
      have hcounted := h.setsPrepared hhint hp.mem hset
      exact hcounted.step rfl hcounted.current hcounted.prepared (fun h => h) hcounted.prime
  | @confirmPrepared newC newH hc _ =>
    have hcounted : Counted (s.confirmedPrepared newC newH) :=
      h.step rfl h.current h.prepared (fun h => h) h.prime
    exact hcounted.movedUp (h.ratified hhint hc.mem hc.ratified)
  | @acceptCommit c hb hc =>
    have hcounter := counter_ne_zero_of_le hc.le hc.counter
    exact (h.acceptedCommit c hcounter).movedUp hcounter
  | @confirmCommit c hb hc =>
    have hset : Counted { s with mCommit := some c, mHighBallot := some hb } :=
      h.step rfl h.current h.prepared (fun h => h) h.prime
    have hcounted := hset.movedUp (counter_ne_zero_of_le hc.le hc.counter)
    exact hcounted.step rfl hcounted.current hcounted.prepared (fun h => h) hcounted.prime

theorem Counted.bump (hbump : Bumpable offered s ballot) : Counted (s.bumpedTo ballot) := by
  refine h.step rfl (fun b hb => ?_) h.prepared (fun h => h) h.prime
  obtain rfl : ballot = b := Option.some.inj hb
  exact hbump.counter

end

/-! ## From statement to statement -/

theorem validateValue_of_mem {v : Value} (hvalid : validateValues slot st ≠ .kInvalidValue)
    (hv : v ∈ getStatementValues st) :
    slot.driver.validateValue v ≠ .kInvalidValue := by
  intro hinvalid
  refine hvalid (if_pos (.inr ?_))
  rw [← hinvalid]
  exact mem_map_of_mem hv

/-- The values of a statement that is not invalid are not empty. -/
theorem ne_nil_of_mem_values {v : Value} (hempty : slot.driver.validateValue [] = .kInvalidValue)
    (hvalid : validateValues slot st ≠ .kInvalidValue) (hv : v ∈ getStatementValues st) :
    v ≠ [] := by
  rintro rfl
  exact validateValue_of_mem hvalid hv hempty

theorem solid_of_valid (hempty : slot.driver.validateValue [] = .kInvalidValue)
    (hvalid : validateValues slot st ≠ .kInvalidValue) (hcounted : PreparesCounted st)
    (hblank : ∀ p, st.pledges = .prepare p → p.ballot.counter = 0 → p.ballot = {}) : Solid st := by
  have hvalues := fun v => @ne_nil_of_mem_values slot st v hempty hvalid
  refine ⟨hcounted, ?_⟩
  unfold getStatementValues at hvalues
  cases hp : st.pledges with
  | prepare p =>
    simp only [hp] at hvalues
    refine ⟨hblank p hp, fun q hq => hvalues _ ?_, fun q hq => hvalues _ ?_⟩
    · rw [mem_def.mp hq]
      simp
    · rw [mem_def.mp hq]
      simp
  | confirm c | externalize e =>
    simp only [hp] at hvalues
    exact hvalues _ mem_cons_self

section

variable {slot : Slot} {st : SCPStatement} {s : BallotProtocol}

/-- What the node says of itself. -/
theorem Counted.own (h : Counted s) (htelling : Telling s) (hst : statementOf slot s = some st)
    (hempty : slot.driver.validateValue [] = .kInvalidValue)
    (hvalid : validateValues slot st ≠ .kInvalidValue) :
    Solid st ∧ (Blank st → s.mPrepared ≠ none) := by
  have hvalues := fun v => @ne_nil_of_mem_values slot _ v hempty hvalid
  cases says_of_statementOf hst with
  | prepare hphase =>
    have hnone : (preparePledges slot s).ballot.counter = 0 → s.mCurrentBallot = none := by
      intro hzero
      cases hcurrent : s.mCurrentBallot with
      | none => rfl
      | some b =>
        simp only [preparePledges, hcurrent, Option.getD_some] at hzero
        exact absurd hzero (h.current b hcurrent)
    refine ⟨solid_of_valid hempty hvalid ⟨h.prepared, fun q hq hzero => ?_⟩ ?_, ?_⟩
    · refine hvalues q.value ?_ (h.prime q hq hzero)
      simp [getStatementValues, mem_def.mp hq]
    · rintro p ⟨⟩ hzero
      simp [preparePledges, hnone hzero]
    · rintro ⟨p, ⟨⟩, hzero⟩
      exact htelling.resolve_left fun hsome => hsome (hnone hzero)
  | confirm hphase hb hp =>
    exact ⟨solid_of_valid hempty hvalid (h.prepared _ hp) nofun, nofun⟩
  | externalize => exact ⟨solid_of_valid hempty hvalid trivial nofun, nofun⟩

end

/-! ## Whole calls -/

/-- The ballots are in order and, if `strict`, have counters. -/
structure Placed (start : SCPPhase) (strict : Prop) (s : BallotProtocol) : Prop where
  ordered : Ordered start s
  counted : strict → Counted s

section

variable {start : SCPPhase} {strict : Prop} {slot : Slot} {hint st : SCPStatement}
  {s s' : BallotProtocol} {emit : BallotM Unit}

theorem Placed.congr (h : Placed start strict s) (hfields : s'.ballotFields = s.ballotFields)
    (hlatest : s'.mLatestEnvelopes = s.mLatestEnvelopes) : Placed start strict s' := by
  refine ⟨h.ordered.congr hfields, fun hstrict => ?_⟩
  simp only [ballotFields, Prod.mk.injEq] at hfields
  obtain ⟨-, hcurrent, hprepared, hprime, -⟩ := hfields
  have hc := h.counted hstrict
  exact hc.step hlatest (hcurrent ▸ hc.current) (hprepared ▸ hc.prepared)
    (fun hsome => hprepared ▸ hsome) (hprime ▸ hc.prime)

theorem Placed.record (h : Placed start strict s)
    (hst : strict → Solid st ∧ (Blank st → s.mPrepared ≠ none)) (fullyValidated : Bool) :
    Placed start strict (s.recorded st fullyValidated) := by
  refine ⟨h.ordered.congr rfl, fun hstrict => ?_⟩
  have hc := h.counted hstrict
  exact ⟨hc.current, hc.prepared, hc.prime,
    AList.forall_lookup_insert (hst hstrict).1 hc.solid,
    AList.forall_lookup_insert (hst hstrict).2 hc.blank⟩

/-- Between a move and its statement. -/
def Moved (start : SCPPhase) (strict : Prop) (s : BallotProtocol) : Prop :=
  Placed start strict s ∧ (strict → Telling s)

end

/-- A property of the ballots that moves and bumps keep. -/
structure Kept (start : SCPPhase) (strict : Prop) (J : BallotProtocol → Prop) : Prop where
  congr : ∀ {s s'}, J s → s'.ballotFields = s.ballotFields → J s'
  move : ∀ {slot hint s s'}, (strict → Solid hint) → Placed start strict s → J s →
    Move slot hint s s' → J s'
  bump : ∀ {s ballot}, J s → Bumpable (fun _ => True) s ballot → J (s.bumpedTo ballot)

theorem kept_true (start : SCPPhase) (strict : Prop) : Kept start strict fun _ => True :=
  ⟨fun _ _ => trivial, fun _ _ _ _ => trivial, fun _ _ => trivial⟩

theorem Kept.survives {start : SCPPhase} {strict : Prop} {slot : Slot} {J : BallotProtocol → Prop}
    (hJ : Kept start strict J) (hempty : strict → slot.driver.validateValue [] = .kInvalidValue) :
    Survives slot (fun s => Placed start strict s ∧ J s) (fun s => Moved start strict s ∧ J s)
      fun st => strict → Solid st := by
  have hmove {hint : SCPStatement} {s s' : BallotProtocol} (hhint : strict → Solid hint)
      (hs : Placed start strict s ∧ J s) (hmove : Move slot hint s s') :
      Moved start strict s' ∧ J s' :=
    ⟨⟨⟨hs.1.ordered.move hmove, fun hstrict =>
      (hs.1.counted hstrict).move (hhint hstrict) hmove⟩, fun _ => hmove.telling⟩,
      hJ.move hhint hs.1 hs.2 hmove⟩
  have hsign {s : BallotProtocol} {st : SCPStatement} (hs : Moved start strict s) :
      Placed start strict { s with signed := st :: s.signed } := hs.1.congr rfl rfl
  exact
    { congr := fun hs hfields hlatest _ _ =>
        ⟨hs.1.congr hfields hlatest, hJ.congr hs.2 hfields⟩
      override := fun hs _ => ⟨hs.1.congr rfl rfl, hJ.congr hs.2 rfl⟩
      prepared := fun hhint hs hp hset =>
        have hmoved := hmove hhint hs (.prepared hp (.keeping hset))
        ⟨hmoved.1.1, hmoved.2⟩
      prepares := fun hhint hs hp hset => hmove hhint hs (.prepared hp hset)
      confirmPrepared := fun hhint hs hc hmoves => hmove hhint hs (.confirmPrepared hc hmoves)
      acceptCommit := fun hhint hs hc => hmove hhint hs (.acceptCommit hc)
      confirmCommit := fun hhint hs hc _ => hmove hhint hs (.confirmCommit hc)
      bump := fun hs hbump => ⟨⟨⟨hs.1.ordered.bump hbump, fun hstrict =>
        (hs.1.counted hstrict).bump hbump⟩, fun _ => .inl nofun⟩, hJ.bump hs.2 hbump⟩
      moved := fun hs => ⟨hs.1.1, hs.2⟩
      sign := fun hs _ _ => ⟨hsign hs.1, hJ.congr hs.2 rfl⟩
      own := fun ⟨hs, hj⟩ _ hst hvalid =>
        have hsolid hstrict := (hs.1.counted hstrict).own (hs.2 hstrict) hst (hempty hstrict) hvalid
        ⟨fun hstrict => (hsolid hstrict).1, fun fullyValidated =>
          ⟨(hsign hs).record hsolid fullyValidated, hJ.congr hj rfl⟩⟩ }

end BallotProtocol

/-! ## Runs of one node -/

open EStateM BallotProtocol

/-- A call into the ballot protocol. -/
inductive BallotCall where
  | event (ev : ScpEvent)
  | abandonBallot (n : UInt32)

def BallotCall.handle (slot : Slot) : BallotCall → BallotM Unit
  | .event ev => ev.handle slot
  | .abandonBallot n => do
    let _ ← BallotProtocol.abandonBallot slot (emitCurrentState slot) n

def NodeState.call (n : NodeState) (slot : Slot) (call : BallotCall) : NodeState :=
  n.run (call.handle slot)

/-- A node that still runs is called, where `admits` may restrict the call and the
driver. Statements come from other nodes. -/
inductive BallotStep (node : LocalNode) (slotIndex : UInt64)
    (admits : BallotProtocol → SCPDriver → BallotCall → Prop) (n : NodeState) : NodeState → Prop
  | call (driver : SCPDriver) (call : BallotCall) (hruns : n.halted = false)
      (hother : ∀ st, call = .event (.deliver st) → st.nodeID ≠ node.mNodeID)
      (hadmits : admits n.protocol driver call) :
      BallotStep node slotIndex admits n (n.call ⟨slotIndex, node, driver⟩ call)

/-- The states of one node, from a fresh one on. -/
inductive BallotReachable (node : LocalNode) (slotIndex : UInt64)
    (admits : BallotProtocol → SCPDriver → BallotCall → Prop) : NodeState → Prop
  | init (isValidator : Bool) :
      BallotReachable node slotIndex admits ⟨{ mFullyValidated := isValidator }, false⟩
  | step {n n' : NodeState} (h : BallotReachable node slotIndex admits n)
      (hs : BallotStep node slotIndex admits n n') : BallotReachable node slotIndex admits n'

/-- No restriction. -/
def AnyCall (_ : BallotProtocol) (_ : SCPDriver) (_ : BallotCall) : Prop := True

/-- The driver rejects the empty value, and no statement claims a prepared ballot with
counter zero. -/
def CountedCall (_ : BallotProtocol) (driver : SCPDriver) (call : BallotCall) : Prop :=
  driver.validateValue [] = .kInvalidValue ∧
    ∀ st, call = .event (.deliver st) → PreparesCounted st

section

variable {node : LocalNode} {slotIndex : UInt64} {n n' : NodeState}

theorem protocol_call (n : NodeState) (slot : Slot) (call : BallotCall) :
    (n.call slot call).protocol = stateAfter (call.handle slot) n.protocol := n.run_protocol _

variable {s : BallotProtocol}

theorem preparesCounted_solid (hempty : slot.driver.validateValue [] = .kInvalidValue)
    (hst : PreparesCounted st) (h : Admitted slot s st false) : Solid st ∧ ¬Blank st := by
  have hcounter : ∀ p, st.pledges = .prepare p → p.ballot.counter ≠ 0 := by
    intro p hp hzero
    have hsane := h.sane
    unfold isStatementSane at hsane
    split at hsane
    · cases hsane
    · simp [hp, isPrepareSane, hzero] at hsane
  exact ⟨solid_of_valid hempty h.valid hst fun p hp hzero => absurd hzero (hcounter p hp),
    fun ⟨p, hp, hzero⟩ => hcounter p hp hzero⟩

/-- A call is an event, or a bump. -/
theorem BallotCall.wp_handle {E : Failure → BallotProtocol → Prop} {I A : BallotProtocol → Prop}
    {call : BallotCall} (hB : Bumps slot offered E I A (emitCurrentState slot)) (hs : I s)
    (hevent : ∀ ev, call = .event ev → Wp E (ev.handle slot) s fun _ => I) :
    Wp E (call.handle slot) s fun _ => I := by
  cases call with
  | event ev => exact hevent ev rfl
  | abandonBallot n =>
    simp only [BallotCall.handle, wp_bind, wp_pure]
    exact hB.abandonBallot hs n

section

variable {start : SCPPhase} {strict : Prop}

/-- A statement as the call admits it can be recorded. -/
theorem placed_deliver {call : BallotCall} (hcall : strict → CountedCall s slot.driver call)
    (hs : Placed start strict s) (hst : call = .event (.deliver st))
    (hadmitted : Admitted slot s st false) :
    (strict → Solid st) ∧
      ∀ fullyValidated, Placed start strict (s.recorded st fullyValidated) := by
  have hsolid hstrict : Solid st ∧ ¬Blank st :=
    preparesCounted_solid (hcall hstrict).1 ((hcall hstrict).2 st hst) hadmitted
  refine ⟨fun hstrict => (hsolid hstrict).1, hs.record fun hstrict => ?_⟩
  exact ⟨(hsolid hstrict).1, (hsolid hstrict).2.elim⟩

variable {admits : BallotProtocol → SCPDriver → BallotCall → Prop}

theorem BallotProtocol.Kept.step {J : BallotProtocol → Prop} (hJ : Kept start strict J)
    (hadmits : strict → ∀ s driver call, admits s driver call → CountedCall s driver call)
    (hs : BallotStep node slotIndex admits n n')
    (h : Placed start strict n.protocol ∧ J n.protocol) :
    Placed start strict n'.protocol ∧ J n'.protocol := by
  obtain ⟨driver, call, -, -, hcall⟩ := hs
  rw [protocol_call]
  have hcall hstrict := hadmits hstrict _ driver call hcall
  have hS : Survives ⟨slotIndex, node, driver⟩ _ _ _ := hJ.survives fun hstrict => (hcall hstrict).1
  refine Wp.stateAfter (BallotCall.wp_handle (hS.bumps hS.emitCurrentState) h fun ev hev => ?_)
    (fun _ _ hs' => hs') fun _ _ hs' => hs'
  refine hS.handle h fun st hst hadmitted => ?_
  obtain ⟨hsolid, hrecord⟩ := placed_deliver hcall h.1 (hst ▸ hev) hadmitted
  exact ⟨hsolid, fun fullyValidated => ⟨hrecord fullyValidated, hJ.congr h.2 rfl⟩⟩

theorem placed_of_reachable
    (hadmits : strict → ∀ s driver call, admits s driver call → CountedCall s driver call)
    (h : BallotReachable node slotIndex admits n) : Placed .PREPARE strict n.protocol := by
  induction h with
  | init isValidator =>
    refine ⟨⟨nofun, nofun, nofun, absurd rfl, le_rfl⟩, fun _ => ⟨nofun, nofun, nofun, ?_, ?_⟩⟩
    · exact nofun
    · exact nofun
  | step _ hs ih => exact ((kept_true _ _).step hadmits hs ⟨ih, trivial⟩).1

end

end

/-- In every state that a node can reach its ballots are in order, and the phase only
goes up; `checkInvariants` holds unless the current ballot has counter zero. An assertion
of `checkInvariants` that fires leaves the state it failed in, so none fires in a run where
`checkInvariants` holds throughout: so it is where no statement claims a prepared ballot
with counter zero. -/
theorem ballots_in_order (node : LocalNode) (slotIndex : UInt64) :
    (∀ n, BallotReachable node slotIndex AnyCall n →
      Ordered .PREPARE n.protocol
        ∧ (∀ n', BallotStep node slotIndex AnyCall n n' →
          n.protocol.mPhase.rank ≤ n'.protocol.mPhase.rank)
        ∧ (n.protocol.invariantsHold = true ↔ ∀ b ∈ n.protocol.mCurrentBallot, b.counter ≠ 0))
    ∧ ∀ n, BallotReachable node slotIndex CountedCall n → n.protocol.invariantsHold = true := by
  refine ⟨fun n h => ?_, fun n h => ?_⟩
  · have hplaced : Placed .PREPARE False n.protocol := placed_of_reachable nofun h
    refine ⟨hplaced.ordered, fun n' hs => ?_, hplaced.ordered.invariantsHold_iff⟩
    -- taken from the phase the node is in
    have hstart : Placed n.protocol.mPhase False n.protocol :=
      ⟨{ hplaced.ordered with phase := le_rfl }, nofun⟩
    exact ((kept_true _ _).step nofun hs ⟨hstart, trivial⟩).1.ordered.phase
  · have hplaced : Placed .PREPARE True n.protocol := placed_of_reachable (fun _ _ _ _ h => h) h
    exact hplaced.ordered.invariantsHold_iff.mpr (hplaced.counted trivial).current

/-! A node follows the first one. -/

def follower : LocalNode := ⟨2, followFirst, 9⟩

def carefulDriver : SCPDriver :=
  { trustingDriver with
    validateValue := fun v => if v = [] then .kInvalidValue else .kFullyValidatedValue }

/-- The first node has prepared a ballot, and the follower gets to prepare and confirm
it. -/
theorem ballots_in_order_follower :
    let st : SCPStatement := ⟨1, 5, .prepare ⟨9, ⟨1, [7]⟩, some ⟨1, [7]⟩, none, 0, 0⟩⟩
    let n := NodeState.call ⟨{ mFullyValidated := true }, false⟩ ⟨5, follower, carefulDriver⟩
      (.event (.deliver st))
    BallotReachable follower 5 CountedCall n ∧ n.protocol.mHighBallot = some ⟨1, [7]⟩
      ∧ n.protocol.invariantsHold = true := by
  have hreach : BallotReachable follower 5 CountedCall (NodeState.call
      ⟨{ mFullyValidated := true }, false⟩ ⟨5, follower, carefulDriver⟩ (.event (.deliver
        ⟨1, 5, .prepare ⟨9, ⟨1, [7]⟩, some ⟨1, [7]⟩, none, 0, 0⟩⟩))) := by
    refine .step (.init true) (.call carefulDriver _ rfl ?_ ⟨rfl, ?_⟩)
    · rintro st ⟨⟩
      decide
    · rintro st ⟨⟩
      exact ⟨fun q hq => by rw [← Option.some.inj hq]; decide, nofun⟩
  exact ⟨hreach, by decide +kernel, (ballots_in_order follower 5).2 _ hreach⟩

/-- A statement that passes the checks claims to have prepared a ballot with counter
zero. The follower, which has no current ballot yet, confirms it and moves to it. -/
theorem checkInvariants_fires :
    let st : SCPStatement := ⟨1, 5, .prepare ⟨9, ⟨1, [7]⟩, some ⟨0, [8]⟩, none, 0, 0⟩⟩
    let n := NodeState.call ⟨{ mFullyValidated := true }, false⟩ ⟨5, follower, carefulDriver⟩
      (.event (.deliver st))
    isStatementSane ⟨5, follower, carefulDriver⟩ st false = true
      ∧ BallotReachable follower 5 AnyCall n ∧ n.halted = true
      ∧ n.protocol.mCurrentBallot = some ⟨0, [8]⟩ ∧ n.protocol.invariantsHold = false := by
  refine ⟨by decide +kernel, ?_, by decide +kernel, by decide +kernel, by decide +kernel⟩
  refine .step (.init true) (.call carefulDriver _ rfl ?_ trivial)
  rintro st ⟨⟩
  decide

end KinesisCore

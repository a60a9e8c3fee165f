import Mathlib.Data.List.Chain
import KinesisCore.OwnStatements

/-!
# A node follows up on its own statements

Each statement that a node makes passes the checks that `processEnvelope` makes on it and
is newer than the one before, or the same. The one check that needs an argument about the
votes of others is that `h` is not above `p` in phase PREPARE: a ballot that is confirmed
as prepared was a candidate to be accepted just before.

There is one exception. A node without a current ballot puts the empty ballot in its
place, and that counts as a vote to prepare the empty ballot. Where the node is a quorum
by itself it accepts it, and then its own statement has an invalid value in it.

Between two statements the node is `Settled`: its state is sound and its last statement
stands for it. A move leaves it `Pending`, with a statement due, and emitting that
(`Pending.emit`) settles it again. `Progress` is what moves may change meanwhile.
`Settled.advanceSlot` is the induction over the messages a node sends itself, and
`settled_of_reachable` the one over calls.
-/

namespace KinesisCore.BallotProtocol

open EStateM LocalNode List

section

variable {valid : Value → Prop} {slot : Slot} {s s' : BallotProtocol} {hint st : SCPStatement}
  {ballot : SCPBallot}

/-! ## Between the statements -/

variable {s₁ : BallotProtocol} {n : NodeID}

/-- What is known of the latest statement of node `n`. The empty ballot in the place of
one comes from the node itself only. -/
def Vetted (slot : Slot) (valid : Value → Prop) (n : NodeID) (st : SCPStatement) : Prop :=
  (∀ v ∈ getStatementValues st, valid v) ∧
    ∀ p, st.pledges = .prepare p → p.ballot.counter = 0 →
      n = slot.localNode.mNodeID ∧ p.ballot = {} ∧ p.nC = 0

theorem Sound.vetted (h : Sound valid s) (hcounter : ∀ b ∈ s.mCurrentBallot, b.counter ≠ 0)
    (hst : statementOf slot s = some st) : Vetted slot valid slot.localNode.mNodeID st := by
  refine ⟨h.values hst, fun p hp hzero => ⟨rfl, ?_⟩⟩
  obtain ⟨-, rfl⟩ := statementOf_eq_prepare hst hp
  have hcurrent : s.mCurrentBallot = none := by
    cases hcurrent : s.mCurrentBallot with
    | none => rfl
    | some b =>
      simp only [preparePledges, hcurrent, Option.getD_some] at hzero
      exact absurd hzero (hcounter b hcurrent)
  have hcommit : s.mCommit = none := by
    rw [Option.eq_none_iff_forall_not_mem]
    intro c hc
    obtain ⟨hb, hhb, -⟩ := h.ordered.commit c hc
    obtain ⟨b, hb', -⟩ := h.ordered.high hb hhb
    rw [hcurrent] at hb'
    cases hb'
  simp [preparePledges, hcurrent, hcommit]

/-- The statements that were signed, the last first, each newer than the one before or the
same, and sane. -/
structure SignedInOrder (slot : Slot) (s : BallotProtocol) : Prop where
  chain : s.signed.IsChain fun new old => Follows old new
  sane : ∀ st ∈ s.signed, SaneOwn slot st

structure Grounded (slot : Slot) (valid : Value → Prop) (s : BallotProtocol) : Prop where
  sound : Sound valid s
  vetted : ∀ n st, s.mLatestEnvelopes.lookup n = some st → Vetted slot valid n st
  last : s.signed.head? = s.mLatestEnvelopes.lookup slot.localNode.mNodeID
  signed : SignedInOrder slot s

/-- Nothing is left to say: the latest statement of the node is the one of its state. -/
structure Settled (slot : Slot) (valid : Value → Prop) (s : BallotProtocol) : Prop
    extends Grounded slot valid s where
  counter : ∀ b ∈ s.mCurrentBallot, b.counter ≠ 0
  own : (∃ st, statementOf slot s = some st
      ∧ s.mLatestEnvelopes.lookup slot.localNode.mNodeID = some st)
    ∨ (s.mLatestEnvelopes.lookup slot.localNode.mNodeID = none ∧ ¬Telling s)

/-- A move was made and its statement is to come. -/
structure Pending (slot : Slot) (valid : Value → Prop) (s : BallotProtocol) : Prop
    extends Grounded slot valid s where
  telling : Telling s
  follows : s.invariantsHold = true → ∀ old new,
    s.mLatestEnvelopes.lookup slot.localNode.mNodeID = some old → statementOf slot s = some new →
    Follows old new

/-! ## Values come from valid statements -/

variable {topVote : SCPBallot}

section

variable (h : Vetted slot valid n st)
include h

theorem Vetted.candidate
    (hmem : ballot ∈ candidatesBelow topVote st) : valid ballot.value ∨ ballot = {} := by
  obtain ⟨hvalues, hblank⟩ := h
  unfold candidatesBelow at hmem
  unfold getStatementValues at hvalues
  cases hp : st.pledges with
  | prepare p =>
    simp only [hp, cons_append, mem_filter, mem_cons, mem_append,
      Option.mem_toList] at hmem hvalues
    rcases hmem.1 with rfl | hq | hq
    · by_cases hzero : p.ballot.counter = 0
      · exact .inr (hblank p hp hzero).2.1
      · exact .inl (hvalues _ (by simp [hzero]))
    · exact .inl (hvalues _ (.inl (.inr (mem_map_of_mem (Option.mem_toList.mpr hq)))))
    · exact .inl (hvalues _ (.inr (mem_map_of_mem (Option.mem_toList.mpr hq))))
  | confirm c =>
    simp only [hp, mem_singleton, forall_eq] at hmem hvalues
    split_ifs at hmem with hcompat hlt
    · rw [mem_cons, mem_singleton] at hmem
      have hvalue := compatible_iff.mp hcompat
      rcases hmem with rfl | rfl
      · exact .inl (hvalue ▸ hvalues)
      · exact .inl (show valid topVote.value from hvalue ▸ hvalues)
    · rw [mem_singleton] at hmem
      subst hmem
      exact .inl (compatible_iff.mp hcompat ▸ hvalues)
    · cases hmem
  | externalize e =>
    simp only [hp, mem_singleton, forall_eq] at hmem hvalues
    split_ifs at hmem with hcompat
    · rw [mem_singleton] at hmem
      subst hmem
      exact .inl (compatible_iff.mp hcompat ▸ hvalues)
    · cases hmem

theorem Vetted.hasPreparedBallot
    (hprepared : hasPreparedBallot ballot st = true) : valid ballot.value := by
  obtain ⟨hvalues, -⟩ := h
  unfold BallotProtocol.hasPreparedBallot at hprepared
  unfold getStatementValues at hvalues
  cases hp : st.pledges with
  | prepare p =>
    simp only [hp, Bool.or_eq_true, any_iff, lessAndCompatible_iff] at hprepared
    simp only [hp, mem_append] at hvalues
    rcases hprepared with ⟨q, hq, -, hvalue⟩ | ⟨q, hq, -, hvalue⟩
    · rw [hvalue]
      exact hvalues _ (.inl (.inr (mem_map_of_mem (Option.mem_toList.mpr hq))))
    · rw [hvalue]
      exact hvalues _ (.inr (mem_map_of_mem (Option.mem_toList.mpr hq)))
  | confirm c =>
    simp only [hp, lessAndCompatible_iff] at hprepared
    simp only [hp, mem_singleton, forall_eq] at hvalues
    rw [hprepared.2]
    exact hvalues
  | externalize e =>
    simp only [hp, compatible_iff] at hprepared
    simp only [hp, mem_singleton, forall_eq] at hvalues
    rw [hprepared]
    exact hvalues

/-- A vote for the empty value is a valid one, or comes from a node that has no current
ballot. -/
theorem Vetted.votesPrepare (hvotes : votesPrepare {} st = true) :
    valid [] ∨ n = slot.localNode.mNodeID ∧ Blank st := by
  obtain ⟨hvalues, hblank⟩ := h
  unfold BallotProtocol.votesPrepare at hvotes
  unfold getStatementValues at hvalues
  cases hp : st.pledges with
  | prepare p =>
    simp only [hp, lessAndCompatible_iff] at hvotes hvalues
    by_cases hzero : p.ballot.counter = 0
    · exact .inr ⟨(hblank p hp hzero).1, p, hp, hzero⟩
    · refine .inl (hvalues _ ?_)
      rw [show ([] : Value) = p.ballot.value from hvotes.2]
      simp [hzero]
  | confirm c | externalize e =>
    simp only [hp, compatible_iff] at hvotes
    simp only [hp, mem_singleton, forall_eq] at hvalues
    exact .inl (hvotes.symm ▸ hvalues)

end

theorem Vetted.commitHint (h : Vetted slot valid n hint) (hballot : commitHint hint = some ballot) :
    valid ballot.value := by
  obtain ⟨hvalues, hblank⟩ := h
  unfold BallotProtocol.commitHint at hballot
  unfold getStatementValues at hvalues
  cases hp : hint.pledges with
  | prepare p =>
    simp only [hp] at hballot hvalues
    split_ifs at hballot with hnC
    cases hballot
    have hcounter : p.ballot.counter ≠ 0 := fun hzero => hnC (hblank p hp hzero).2.2
    exact hvalues _ (by simp [hcounter])
  | confirm c | externalize e =>
    simp only [hp, mem_singleton, forall_eq] at hballot hvalues
    cases hballot
    exact hvalues

/-- The empty value is valid, or the node is not a quorum by itself. -/
def NotAlone (slot : Slot) (valid : Value → Prop) : Prop :=
  valid [] ∨ LocalNode.isQuorumSlice slot.localNode.mQSet [slot.localNode.mNodeID] = false

/-- A node without a current ballot is not alone. -/
def Guarded (slot : Slot) (valid : Value → Prop) (s : BallotProtocol) : Prop :=
  s.mCurrentBallot = none → NotAlone slot valid

/-- The latest statement of the node is the one of its state. -/
theorem Settled.latest (h : Settled slot valid s)
    (hst : s.mLatestEnvelopes.lookup slot.localNode.mNodeID = some st) :
    statementOf slot s = some st := by
  rcases h.own with ⟨st', hst', hlookup⟩ | ⟨hnone, -⟩
  · rwa [← hst, hlookup]
  · rw [hnone] at hst
    cases hst

/-- A node that has a current ballot votes for it. -/
theorem Settled.not_blank (h : Settled slot valid s) (hcurrent : s.mCurrentBallot ≠ none)
    (hst : s.mLatestEnvelopes.lookup slot.localNode.mNodeID = some st) : ¬Blank st := by
  rintro ⟨p, hp, hzero⟩
  obtain ⟨-, rfl⟩ := statementOf_eq_prepare (h.latest hst) hp
  obtain ⟨b, hb⟩ := Option.ne_none_iff_exists'.mp hcurrent
  simp only [preparePledges, hb, Option.getD_some] at hzero
  exact h.counter b hb hzero

theorem Settled.accepts (h : Settled slot valid s) (hblank : Guarded slot valid s)
    (hp : Preparable slot hint s ballot) :
    valid ballot.value := by
  obtain ⟨topVote, -, n, st, hst, hmem⟩ := mem_getPrepareCandidates hp.mem
  rcases (h.vetted n st hst).candidate hmem with hvalid | rfl
  · exact hvalid
  by_contra hinvalid
  have haccepts := hp.accepts
  unfold acceptsPrepared at haccepts
  rw [Bool.and_eq_true] at haccepts
  have hfederated := haccepts.2
  unfold Slot.federatedAccept at hfederated
  rw [Bool.or_eq_true] at hfederated
  rcases hfederated with hblocking | hquorum
  · -- nobody has accepted the empty ballot
    have hnodes : LocalNode.nodesOf s.mLatestEnvelopes (hasPreparedBallot {}) = [] := by
      rw [eq_nil_iff_forall_not_mem]
      intro n hn
      obtain ⟨st, hst, hprepared⟩ := mem_nodesOf hn
      exact hinvalid ((h.vetted n st hst).hasPreparedBallot hprepared)
    rw [Slot.isVBlocking, hnodes, isVBlocking, isVBlockingInternal_nil]
      at hblocking
    cases hblocking
  · -- only the node itself votes for it
    have hself : ∀ n ∈ quorumNodes s.mLatestEnvelopes slot.getQuorumSetFromStatement
        (fun st => hasPreparedBallot {} st || votesPrepare {} st),
        n = slot.localNode.mNodeID ∧ s.mCurrentBallot = none := by
      intro n hn
      obtain ⟨st, -, hst, hfilter, -⟩ := mem_quorumNodes hn
      rw [Bool.or_eq_true] at hfilter
      rcases hfilter with hprepared | hvotes
      · exact absurd ((h.vetted n st hst).hasPreparedBallot hprepared) hinvalid
      · obtain ⟨rfl, hb⟩ := ((h.vetted n st hst).votesPrepare hvotes).resolve_left hinvalid
        refine ⟨rfl, ?_⟩
        by_contra hcurrent
        exact h.not_blank hcurrent hst hb
    have hslice := hquorum
    unfold Slot.isQuorum isQuorum at hslice
    have halone := isQuorumSlice_mono (Q := [slot.localNode.mNodeID])
      (fun n hn => by rw [(hself n hn).1]; exact mem_cons_self) hslice
    obtain ⟨n, hn⟩ : ∃ n, n ∈ quorumNodes s.mLatestEnvelopes
        slot.getQuorumSetFromStatement
          (fun st => hasPreparedBallot {} st || votesPrepare {} st) := by
      by_contra hnone
      rw [eq_nil_iff_forall_not_mem.mpr fun n hn => hnone ⟨n, hn⟩, isQuorumSlice,
        isQuorumSliceInternal_nil] at hslice
      cases hslice
    rcases hblank (hself n hn).2 with hvalid | hnot
    · exact hinvalid hvalid
    · rw [halone] at hnot
      cases hnot

theorem Grounded.ratified (h : Grounded slot valid s)
    (hratified : ratifiesPrepared slot s ballot = true) : valid ballot.value := by
  obtain ⟨n, st, hst, hprepared⟩ := exists_of_isQuorum hratified
  exact (h.vetted n st hst).hasPreparedBallot hprepared

/-! ## Progress -/

/-- What the ballots move in. -/
def surroundings (s : BallotProtocol) := (s.mLatestEnvelopes, s.signed, s.mCurrentMessageLevel)

theorem movedUp_surroundings (s : BallotProtocol) (h : SCPBallot) :
    (s.movedUp h).surroundings = s.surroundings := by
  rcases movedUp_cases s h with ⟨-, hmoved⟩ | ⟨-, hmoved⟩
  · rw [hmoved]
    rfl
  · rw [hmoved]

theorem Move.surroundings (hmove : Move slot hint s s') : s'.surroundings = s.surroundings := by
  cases hmove with
  | prepared _ hset =>
    cases hset with
    | keeping hset | clearing hset _ => cases hset <;> rfl
  | confirmPrepared hc _ | confirmCommit hc => exact movedUp_surroundings _ _
  | @acceptCommit c h hc =>
    rw [movedUp_surroundings]
    unfold acceptedCommit
    dsimp only
    split_ifs <;> rfl

/-- How a node gets on while it handles its own statements: the statements of others stay,
`p` goes up, and in phase PREPARE the current ballot moves only up to a prepared one. -/
structure Progress (slot : Slot) (s s' : BallotProtocol) : Prop where
  others : ∀ n, n ≠ slot.localNode.mNodeID →
    s'.mLatestEnvelopes.lookup n = s.mLatestEnvelopes.lookup n
  prepared : ∀ p ∈ s.mPrepared, ∃ q ∈ s'.mPrepared, p ≤ q
  phase : s'.mPhase = .PREPARE → s.mPhase = .PREPARE
  current : s'.mPhase = .PREPARE → s'.mCurrentBallot = s.mCurrentBallot
    ∨ ∃ b ∈ s'.mCurrentBallot, ∃ p ∈ s'.mPrepared, b ≤ p
  none : s'.mCurrentBallot = none → s.mCurrentBallot = none
  level : s'.mCurrentMessageLevel = s.mCurrentMessageLevel

theorem Progress.of_fields (hlatest : s'.mLatestEnvelopes = s.mLatestEnvelopes)
    (hfields : s'.ballotFields = s.ballotFields)
    (hlevel : s'.mCurrentMessageLevel = s.mCurrentMessageLevel) : Progress slot s s' := by
  simp only [ballotFields, Prod.mk.injEq] at hfields
  obtain ⟨hphase, hcurrent, hprepared, -⟩ := hfields
  refine ⟨fun n _ => by rw [hlatest], fun p hp => ⟨p, hprepared ▸ hp, le_rfl⟩, fun h => hphase ▸ h,
    fun _ => .inl hcurrent, fun h => hcurrent ▸ h, hlevel⟩

theorem Progress.refl (s : BallotProtocol) : Progress slot s s := .of_fields rfl rfl rfl

theorem Progress.trans {s'' : BallotProtocol} (h : Progress slot s s') (h' : Progress slot s' s'') :
    Progress slot s s'' where
  others n hn := (h'.others n hn).trans (h.others n hn)
  prepared p hp := by
    obtain ⟨q, hq, hle⟩ := h.prepared p hp
    obtain ⟨r, hr, hle'⟩ := h'.prepared q hq
    exact ⟨r, hr, hle.trans hle'⟩
  phase hphase := h.phase (h'.phase hphase)
  current hphase := by
    rcases h'.current hphase with hsame | hbelow
    · rcases h.current (h'.phase hphase) with hsame' | ⟨b, hb, p, hp, hle⟩
      · exact .inl (hsame.trans hsame')
      · obtain ⟨q, hq, hle'⟩ := h'.prepared p hp
        exact .inr ⟨b, hsame ▸ hb, q, hq, hle.trans hle'⟩
    · exact .inr hbelow
  none hnone := h.none (h'.none hnone)
  level := h'.level.trans h.level

theorem Prepares.progress (hset : Prepares s ballot s') : Progress slot s s' := by
  have hmono := hset.mono.1
  have hfields : s'.mLatestEnvelopes = s.mLatestEnvelopes ∧ s'.mPhase = s.mPhase
      ∧ s'.mCurrentBallot = s.mCurrentBallot
      ∧ s'.mCurrentMessageLevel = s.mCurrentMessageLevel := by
    cases hset with
    | keeping hset | clearing hset _ => cases hset <;> exact ⟨rfl, rfl, rfl, rfl⟩
  obtain ⟨hlatest, hphase, hcurrent, hlevel⟩ := hfields
  exact ⟨fun n _ => by rw [hlatest], hmono, fun h => hphase ▸ h, fun _ => .inl hcurrent,
    fun h => hcurrent ▸ h, hlevel⟩

theorem Move.progress (hmove : Move slot hint s s') (hbacked : Backed slot valid hint s) :
    Progress slot s s' := by
  have hsurroundings := hmove.surroundings
  simp only [BallotProtocol.surroundings, Prod.mk.injEq] at hsurroundings
  obtain ⟨hlatest, -, hlevel⟩ := hsurroundings
  have hothers : ∀ n, n ≠ slot.localNode.mNodeID →
      s'.mLatestEnvelopes.lookup n = s.mLatestEnvelopes.lookup n := fun n _ => by rw [hlatest]
  cases hmove with
  | prepared _ hset => exact hset.progress
  | @confirmPrepared newC newH hc _ =>
    obtain ⟨hprepared, -⟩ := movedUp_fields (s.confirmedPrepared newC newH) newH
    obtain ⟨-, p, hp, hle⟩ := hbacked.confirm newC newH hc
    refine ⟨hothers, fun p hp => ⟨p, by rw [hprepared]; exact hp, le_rfl⟩, fun _ => hc.phase, ?_,
      (movedUp_ne_none _ _).elim, hlevel⟩
    intro _
    rcases movedUp_cases (s.confirmedPrepared newC newH) newH with ⟨-, hmoved⟩ | ⟨-, hmoved⟩
    · rw [hmoved]
      exact .inr ⟨newH, rfl, p, hp, hle⟩
    · rw [hmoved]
      exact .inl rfl
  | @acceptCommit c h hc =>
    obtain ⟨hprepared, -⟩ := movedUp_fields (s.acceptedCommit c h) h
    have hphase : ((s.acceptedCommit c h).movedUp h).mPhase ≠ .PREPARE := by
      rw [movedUp_phase, acceptedCommit_phase s c h hc.phase]
      nofun
    refine ⟨hothers, fun p hp => ⟨p, ?_, le_rfl⟩, hphase.elim,
      hphase.elim, (movedUp_ne_none _ _).elim, hlevel⟩
    rw [hprepared, (acceptedCommit_fields s c h).1]
    exact hp
  | @confirmCommit c h hc =>
    obtain ⟨hprepared, -⟩ :=
      movedUp_fields { s with mCommit := some c, mHighBallot := some h } h
    exact ⟨hothers, fun p hp => ⟨p, hprepared.symm ▸ hp, le_rfl⟩, nofun, nofun,
      (movedUp_ne_none _ _).elim, hlevel⟩

theorem Grounded.of_surroundings (h : Grounded slot valid s) (hsound : Sound valid s')
    (heq : s'.surroundings = s.surroundings) : Grounded slot valid s' := by
  simp only [surroundings, Prod.mk.injEq] at heq
  obtain ⟨hlatest, hsigned, -⟩ := heq
  refine ⟨hsound, ?_, ?_, ?_, ?_⟩
  · rw [hlatest]
    exact h.vetted
  · rw [hlatest, hsigned]
    exact h.last
  · rw [hsigned]
    exact h.signed.chain
  · rw [hsigned]
    exact h.signed.sane

section

variable (h : Settled slot valid s)
include h

/-- After a move from a settled state the next statement follows the last one. -/
theorem Settled.pending (hsound : Sound valid s')
    (heq : s'.surroundings = s.surroundings) (htelling : Telling s')
    (hfollows : s'.invariantsHold = true → ∀ old new, statementOf slot s = some old →
      statementOf slot s' = some new → Follows old new) : Pending slot valid s' := by
  refine ⟨h.toGrounded.of_surroundings hsound heq, htelling, fun hinv old new hlookup hnew => ?_⟩
  simp only [surroundings, Prod.mk.injEq] at heq
  rw [heq.1] at hlookup
  exact hfollows hinv old new (h.latest hlookup) hnew

theorem Settled.move (hbacked : Backed slot valid hint s)
    (hmove : Move slot hint s s') : Pending slot valid s' :=
  h.pending (h.sound.move hbacked hmove) hmove.surroundings hmove.telling
    fun hinv _ _ hold => follows_of_move hold h.sound.ordered hmove hinv

theorem Settled.bump (hbump : Bumpable valid s ballot) : Pending slot valid (s.bumpedTo ballot) :=
  h.pending (h.sound.bump hbump) rfl (.inl nofun)
    fun _ _ _ hold hnew => .inr (newer_of_bump hold hbump hnew)

/-! ## What is confirmed was accepted

`advanceSlot` tries to accept before it tries to confirm, on the same statements. A
confirmed ballot is a candidate to be accepted (`Settled.candidate_of_own`), so the
first attempt has prepared it or a later one. -/

/-- The ballots that could be accepted in `s₁` are prepared in `s`. -/
def Covered (slot : Slot) (hint : SCPStatement) (s₁ s : BallotProtocol) : Prop :=
  s.mPhase = .PREPARE → ∀ ballot ∈ getPrepareCandidates s₁ hint,
    slot.federatedAccept (votesPrepare ballot) (hasPreparedBallot ballot) s₁.mLatestEnvelopes
      = true →
    ∃ p ∈ s.mPrepared, ballot ≤ p

omit h in
theorem Covered.mono (h : Covered slot hint s₁ s) (hprogress : Progress slot s s') :
    Covered slot hint s₁ s' := by
  intro hphase ballot hmem haccepts
  obtain ⟨p, hp, hle⟩ := h (hprogress.phase hphase) ballot hmem haccepts
  obtain ⟨q, hq, hle'⟩ := hprogress.prepared p hp
  exact ⟨q, hq, hle.trans hle'⟩

omit h in
/-- What is not accepted although it could be is below `p` already. -/
theorem below_of_not_accepts (h : Ordered .PREPARE s)
    (haccepts : slot.federatedAccept (votesPrepare ballot) (hasPreparedBallot ballot)
      s.mLatestEnvelopes = true)
    (hnot : acceptsPrepared slot s ballot = false) : ∃ p ∈ s.mPrepared, ballot ≤ p := by
  unfold acceptsPrepared at hnot
  rw [haccepts, Bool.and_true, Bool.and_eq_false_iff, Bool.not_eq_false', Bool.not_eq_false',
    any_iff, any_iff] at hnot
  rcases hnot with ⟨p', hp', hle⟩ | ⟨p, hp, hle⟩
  · obtain ⟨p, hp, hlt, -⟩ := h.prime p' hp'
    exact ⟨p, hp, (isLE_compareBallots.mp hle).trans hlt.le⟩
  · exact ⟨p, hp, (lessAndCompatible_iff.mp hle).1⟩

/-- What the node itself has prepared is not above `p`. -/
theorem Settled.below_of_own (hphase : s.mPhase = .PREPARE)
    (hst : s.mLatestEnvelopes.lookup slot.localNode.mNodeID = some st)
    (hprepared : hasPreparedBallot ballot st = true) : ∃ p ∈ s.mPrepared, ballot ≤ p := by
  have hst' := h.latest hst
  rw [statementOf_prepare hphase] at hst'
  cases hst'
  simp only [hasPreparedBallot, preparePledges, Bool.or_eq_true, any_iff,
    lessAndCompatible_iff] at hprepared
  rcases hprepared with ⟨p, hp, hle, -⟩ | ⟨p', hp', hle, -⟩
  · exact ⟨p, hp, hle⟩
  · obtain ⟨p, hp, hlt, -⟩ := h.sound.ordered.prime p' hp'
    exact ⟨p, hp, hle.trans hlt.le⟩

end

/-- A quorum without the node itself was there before. -/
theorem accepts_of_ratified (hprogress : Progress slot s₁ s)
    (hratified : ratifiesPrepared slot s ballot = true)
    (hself : slot.localNode.mNodeID ∉ quorumNodes s.mLatestEnvelopes
      slot.getQuorumSetFromStatement (hasPreparedBallot ballot)) :
    slot.federatedAccept (votesPrepare ballot) (hasPreparedBallot ballot) s₁.mLatestEnvelopes
      = true := by
  unfold Slot.federatedAccept
  rw [Bool.or_eq_true]
  refine .inr (isQuorum_of_slice hratified fun n hn => ?_)
  obtain ⟨st, q, hst, hprepared, hq, hslice⟩ := mem_quorumNodes hn
  have hne : n ≠ slot.localNode.mNodeID := fun heq => hself (heq ▸ hn)
  exact ⟨st, q, (hprogress.others n hne).symm.trans hst, by rw [hprepared, Bool.true_or], hq,
    hslice⟩

/-- A ballot that is a candidate by the node's own statement is below `p`, or it was a
candidate before. -/
theorem Settled.candidate_of_own (h₁ : Settled slot valid s₁)
    (h : Settled slot valid s) (hprogress : Progress slot s₁ s) (hphase : s.mPhase = .PREPARE)
    (hsome : s.mPrepared ≠ none) (hst : s.mLatestEnvelopes.lookup slot.localNode.mNodeID = some st)
    (htop : topVote ∈ getHintBallots hint) (hmem : ballot ∈ candidatesBelow topVote st) :
    (∃ p ∈ s.mPrepared, ballot ≤ p) ∨ ballot ∈ getPrepareCandidates s₁ hint := by
  obtain ⟨p, hp⟩ := Option.ne_none_iff_exists'.mp hsome
  have hst' := h.latest hst
  rw [statementOf_prepare hphase] at hst'
  cases hst'
  simp only [candidatesBelow, preparePledges, cons_append, mem_filter, mem_cons,
    mem_append, Option.mem_toList] at hmem
  obtain ⟨rfl | hq | hq, hbelow⟩ := hmem
  · cases hcurrent : s.mCurrentBallot with
    | none =>
      exact .inl ⟨p, hp, zero_le_ballot p⟩
    | some b =>
      rw [hcurrent] at hbelow
      rcases hprogress.current hphase with hsame | ⟨b', hb', hle⟩
      · -- the node was on this ballot before
        rw [hcurrent] at hsame
        have hphase₁ := hprogress.phase hphase
        rcases h₁.own with ⟨st₁, hst₁, hlookup₁⟩ | ⟨-, hsilent⟩
        · rw [statementOf_prepare hphase₁] at hst₁
          cases hst₁
          refine .inr (mem_getPrepareCandidates_of htop hlookup₁ ?_)
          simp only [candidatesBelow, preparePledges, cons_append, mem_filter,
            mem_cons]
          exact ⟨.inl (by rw [← hsame]), hbelow⟩
        · exact absurd (.inl (by simp [← hsame])) hsilent
      · obtain rfl : b = b' := Option.mem_unique hcurrent hb'
        exact .inl hle
  · exact .inl ⟨ballot, hq, le_rfl⟩
  · obtain ⟨q, hq', hlt, -⟩ := h.sound.ordered.prime ballot hq
    exact .inl ⟨q, hq', hlt.le⟩

/-- A ballot that is confirmed as prepared is not above `p`: it was accepted in the step
before. -/
theorem Settled.confirm_below {newC newH : SCPBallot} (h₁ : Settled slot valid s₁)
    (h : Settled slot valid s) (hprogress : Progress slot s₁ s) (hcovered : Covered slot hint s₁ s)
    (hc : Confirmable slot hint s newC newH) :
    ∃ p ∈ s.mPrepared, newH ≤ p := by
  by_cases hself : slot.localNode.mNodeID ∈ quorumNodes s.mLatestEnvelopes
      slot.getQuorumSetFromStatement (hasPreparedBallot newH)
  · obtain ⟨st, -, hst, hprepared, -⟩ := mem_quorumNodes hself
    exact h.below_of_own hc.phase hst hprepared
  · have haccepts := accepts_of_ratified hprogress hc.ratified hself
    obtain ⟨topVote, htop, n, st, hst, hmem⟩ := mem_getPrepareCandidates hc.mem
    by_cases hn : n = slot.localNode.mNodeID
    · subst hn
      rcases h₁.candidate_of_own h hprogress hc.phase hc.prepared hst htop hmem with hle | hmem
      · exact hle
      · exact hcovered hc.phase newH hmem haccepts
    · have hst₁ := (hprogress.others n hn).symm.trans hst
      exact hcovered hc.phase newH (mem_getPrepareCandidates_of htop hst₁ hmem) haccepts

/-- Between the first step and the last a node moves on good grounds. -/
theorem Settled.backed (hhint : Vetted slot valid n hint)
    (h₁ : Settled slot valid s₁) (hblank : Guarded slot valid s₁)
    (h : Settled slot valid s) (hprogress : Progress slot s₁ s)
    (hcovered : Covered slot hint s₁ s) :
    Backed slot valid hint s where
  prepare _ hp := h.accepts (fun hnone => hblank (hprogress.none hnone)) hp
  confirm _ _ hc := ⟨h.toGrounded.ratified hc.ratified, h₁.confirm_below h hprogress hcovered hc⟩
  commit _ hballot := hhint.commitHint hballot

/-! ## From statement to statement -/

theorem statementOf_congr (hfields : s'.ballotFields = s.ballotFields) :
    statementOf slot s' = statementOf slot s := by
  simp only [ballotFields, Prod.mk.injEq] at hfields
  obtain ⟨hphase, hcurrent, hprepared, hprime, hhigh, hcommit⟩ := hfields
  simp only [statementOf, createPledges, preparePledges, hphase, hcurrent, hprepared, hprime, hhigh,
    hcommit]

theorem Sound.congr (h : Sound valid s) (hfields : s'.ballotFields = s.ballotFields)
    (hoverride : ∀ v ∈ s'.mValueOverride, valid v) : Sound valid s' := by
  have hordered := h.ordered.congr hfields
  simp only [ballotFields, Prod.mk.injEq] at hfields
  obtain ⟨hphase, hcurrent, hprepared, hprime, hhigh, hcommit⟩ := hfields
  refine ⟨hordered, ?_, hcommit ▸ h.commit, hcurrent ▸ h.current, hprepared ▸ h.prepared,
    hprime ▸ h.prime, hoverride⟩
  rw [hphase, hhigh, hprepared]
  exact h.high

theorem Settled.congr (h : Settled slot valid s) (hfields : s'.ballotFields = s.ballotFields)
    (hoverride : ∀ v ∈ s'.mValueOverride, valid v)
    (hlatest : s'.mLatestEnvelopes = s.mLatestEnvelopes) (hsigned : s'.signed = s.signed) :
    Settled slot valid s' := by
  have hcurrent : s'.mCurrentBallot = s.mCurrentBallot := congrArg (·.2.1) hfields
  have hprepared : s'.mPrepared = s.mPrepared := congrArg (·.2.2.1) hfields
  refine ⟨⟨h.sound.congr hfields hoverride, hlatest ▸ h.vetted, ?_, ⟨hsigned ▸ h.signed.chain,
    hsigned ▸ h.signed.sane⟩⟩, hcurrent ▸ h.counter, ?_⟩
  · rw [hlatest, hsigned]
    exact h.last
  · rw [hlatest, statementOf_congr hfields]
    unfold Telling
    rw [hcurrent, hprepared]
    exact h.own

/-- The node signs the statement of its state. -/
theorem Pending.sign (h : Pending slot valid s)
    (hqSet : isQuorumSetSane slot.localNode.mQSet false = .ok ()) (hinv : s.invariantsHold = true)
    (hst : statementOf slot s = some st) :
    SignedInOrder slot { s with signed := st :: s.signed } := by
  refine ⟨?_, fun st' hst' => ?_⟩
  · refine isChain_cons.mpr ⟨fun old hold => ?_, h.signed.chain⟩
    rw [h.last] at hold
    exact h.follows hinv old st hold hst
  · rcases mem_cons.mp hst' with rfl | hst'
    · exact h.sound.sane hqSet hst
    · exact h.signed.sane st' hst'

/-- The node records the statement of its state. -/
theorem Pending.record (h : Pending slot valid s)
    (hqSet : isQuorumSetSane slot.localNode.mQSet false = .ok ()) (hinv : s.invariantsHold = true)
    (hst : statementOf slot s = some st) (fullyValidated : Bool) :
    Settled slot valid { s with
      signed := st :: s.signed
      mFullyValidated := fullyValidated
      mLatestEnvelopes := s.mLatestEnvelopes.insert slot.localNode.mNodeID st } := by
  have hcounter := counter_of_invariantsHold hinv
  refine ⟨⟨h.sound.congr rfl h.sound.override,
    AList.forall_lookup_insert (h.sound.vetted hcounter hst) h.vetted, ?_, ?_⟩, hcounter,
    .inl ⟨st, hst, AList.lookup_insert _⟩⟩
  · rw [AList.lookup_insert]
    rfl
  · have hsigned := h.sign hqSet hinv hst
    exact ⟨hsigned.chain, hsigned.sane⟩

theorem progress_record (s : BallotProtocol) (st : SCPStatement) (fullyValidated : Bool) :
    Progress slot s { s with
      signed := st :: s.signed
      mFullyValidated := fullyValidated
      mLatestEnvelopes := s.mLatestEnvelopes.insert slot.localNode.mNodeID st } where
  others _ hn := AList.lookup_insert_ne hn
  prepared p hp := ⟨p, hp, le_rfl⟩
  phase h := h
  current _ := .inl rfl
  none h := h
  level := rfl

/-- How a call may fail: not with its own statement rejected. -/
def Fails (slot : Slot) (valid : Value → Prop) : Failure → BallotProtocol → Prop
  | .exception what, s => what ≠ "moved to a bad state (ballot protocol)" ∧ Settled slot valid s
  | _, s => SignedInOrder slot s

/-- The node has settled, and while it handles a statement it made progress. -/
def Follow (slot : Slot) (valid : Value → Prop) (s s' : BallotProtocol) : Prop :=
  Settled slot valid s' ∧ (1 ≤ s.mCurrentMessageLevel → Progress slot s s')

/-- The driver knows the quorum set of the node, and takes the valid values. -/
structure Driven (slot : Slot) (valid : Value → Prop) : Prop where
  sane : isQuorumSetSane slot.localNode.mQSet false = .ok ()
  getQSet : slot.driver.getQSet slot.localNode.mQSetHash = some slot.localNode.mQSet
  validates : ∀ v, slot.driver.validateValue v ≠ .kInvalidValue ↔ valid v

theorem Pending.admitted (h : Pending slot valid s) (hdriven : Driven slot valid)
    (hinv : s.invariantsHold = true) (hst : statementOf slot s = some st)
    (hlookup : s.mLatestEnvelopes.lookup slot.localNode.mNodeID ≠ some st) :
    Admitted slot { s with signed := st :: s.signed } st true := by
  have hnode : st.nodeID = slot.localNode.mNodeID := by
    cases says_of_statementOf hst <;> rfl
  refine ⟨h.sound.sane hdriven.sane hst slot.driver hdriven.getQSet, ?_, ?_⟩
  · unfold isNewerThanLatest
    rw [hnode]
    split
    · rfl
    · rename_i old hold
      rcases h.follows hinv old st hold hst with rfl | hnewer
      · exact absurd hold hlookup
      · exact hnewer
  · refine validateValues_ne (fun v hv => (hdriven.validates v).mpr (h.sound.values hst v hv)) ?_
    exact values_ne_nil h.telling (counter_of_invariantsHold hinv) hst

/-- The node hands its own statement to itself, and it is not rejected. -/
theorem Pending.emit {advance : SCPStatement → BallotM Unit} (hdriven : Driven slot valid)
    (hadvance : ∀ st s, Vetted slot valid slot.localNode.mNodeID st → Settled slot valid s →
      Guarded slot valid s →
      Wp (Fails slot valid) (advance st) s fun _ => Follow slot valid s) (h : Pending slot valid s)
    (hblank : Guarded slot valid s) :
    Wp (Fails slot valid)
      (emitCurrentStateStatement slot (processEnvelopeWith slot advance · true)) s
      fun _ => Follow slot valid s := by
  refine wp_emitCurrentStateStatement h.signed (fun hinv st hst hlookup => ?_)
    fun hinv st hst hlookup => ?_
  · have hsigned := h.sign hdriven.sane hinv hst
    refine ⟨⟨⟨h.sound.congr rfl h.sound.override, h.vetted, hlookup.symm, hsigned⟩,
      counter_of_invariantsHold hinv, .inl ⟨st, hst, hlookup⟩⟩, fun _ => .of_fields rfl rfl rfl⟩
  · have hsigned := h.sign hdriven.sane hinv hst
    have hrecord := h.record hdriven.sane hinv hst
    have hnode : st.nodeID = slot.localNode.mNodeID := by
      cases says_of_statementOf hst <;> rfl
    have hadmitted := h.admitted hdriven hinv hst hlookup
    refine wp_processEnvelopeWith hsigned (absurd hadmitted) ?_ ?_ ?_
    · intro _ _ fullyValidated
      rw [hnode]
      refine (hadvance st _ (h.sound.vetted (counter_of_invariantsHold hinv) hst)
        (hrecord fullyValidated) hblank).mono fun _ s' hs' => ?_
      intro last lastEmit emitted
      refine ⟨hs'.1.congr rfl hs'.1.sound.override rfl rfl, fun hlevel => ?_⟩
      exact ((progress_record s st fullyValidated).trans (hs'.2 hlevel)).trans
        (.of_fields rfl rfl rfl)
    · intro _ c _ _ _ last lastEmit emitted
      rw [hnode]
      exact ⟨(hrecord s.mFullyValidated).congr rfl h.sound.override rfl rfl, fun _ =>
        (progress_record s st s.mFullyValidated).trans (.of_fields rfl rfl rfl)⟩
    · intro c hc hphase hvalue
      cases says_of_statementOf hst with
      | prepare h | confirm h => cases hphase.symm.trans h
      | externalize _ hcommit => exact absurd (Option.mem_unique hc hcommit ▸ rfl) hvalue

section

variable {emit : BallotM Unit}

theorem SetsPrepared.signed (hset : SetsPrepared s ballot s') : s'.signed = s.signed := by
  cases hset <;> rfl

theorem SignedInOrder.congr (h : SignedInOrder slot s) (hsigned : s'.signed = s.signed) :
    SignedInOrder slot s' :=
  ⟨hsigned ▸ h.chain, hsigned ▸ h.sane⟩

section Emitting

variable (hemit : ∀ s, Pending slot valid s → Guarded slot valid s →
    Wp (Fails slot valid) emit s fun _ => Follow slot valid s)
include hemit

/-- From the first step on, for a statement that the node handles in `s₁`. -/
def Underway (slot : Slot) (valid : Value → Prop) (hint : SCPStatement) (s₁ s : BallotProtocol) :
    Prop :=
  Settled slot valid s ∧ Progress slot s₁ s ∧ Covered slot hint s₁ s

/-- The first step: after it, what could be accepted is prepared. -/
theorem Settled.acceptPrepared (h : Settled slot valid s)
    (hblank : Guarded slot valid s) (hlevel : 1 ≤ s.mCurrentMessageLevel) :
    Wp (Fails slot valid) (attemptAcceptPrepared slot emit hint) s fun _ =>
      Underway slot valid hint s := by
  refine wp_attemptAcceptPrepared h.signed (fun hext => ?_) (fun hnone => ?_)
    fun ballot hp hfirst => ?_
  · refine ⟨h, .refl s, fun hphase => ?_⟩
    rw [hext] at hphase
    cases hphase
  · exact ⟨h, .refl s, fun hphase b hb haccepts =>
      below_of_not_accepts h.sound.ordered haccepts (hnone hphase b hb)⟩
  · refine ⟨fun s' hset => h.signed.congr hset.signed, fun s' hset => ?_⟩
    have hmove : Move slot hint s s' := .prepared hp hset
    have hprogress : Progress slot s s' := hset.progress
    have hpending : Pending slot valid s' :=
      h.pending (h.sound.prepares (h.accepts hblank hp) hset) hmove.surroundings hmove.telling
        fun hinv _ _ hold => follows_of_move hold h.sound.ordered hmove hinv
    have hcovered : Covered slot hint s s' := by
      intro hphase b hb haccepts
      rcases hfirst (hprogress.phase hphase) b hb with hnot | hle
      · obtain ⟨p, hp, hle⟩ := below_of_not_accepts h.sound.ordered haccepts hnot
        obtain ⟨q, hq, hle'⟩ := hprogress.prepared p hp
        exact ⟨q, hq, hle.trans hle'⟩
      · obtain ⟨-, q, hq, hle'⟩ := hset.mono
        exact ⟨q, hq, hle.trans hle'⟩
    refine (hemit s' hpending fun hnone => hblank (hprogress.none hnone)).mono fun _ s'' hs'' => ?_
    have hprogress' := hs''.2 (hprogress.level ▸ hlevel)
    exact ⟨hs''.1, hprogress.trans hprogress', hcovered.mono hprogress'⟩

omit hemit in
theorem Underway.override {newC newH : SCPBallot} (h : Underway slot valid hint s₁ s)
    (hc : Confirmable slot hint s newC newH) :
    Underway slot valid hint s₁ { s with mValueOverride := some newH.value } := by
  refine ⟨h.1.congr rfl (fun v hv => ?_) rfl rfl, h.2.1.trans (.of_fields rfl rfl rfl), h.2.2⟩
  rw [← Option.some.inj hv]
  exact h.1.toGrounded.ratified hc.ratified

/-- A move of a step after the first, and its statement. -/
theorem Settled.step (hhint : Vetted slot valid n hint) (h₁ : Settled slot valid s₁)
    (hblank : Guarded slot valid s₁) (hlevel : 1 ≤ s₁.mCurrentMessageLevel)
    (h : Underway slot valid hint s₁ s) (hmove : Move slot hint s s') :
    Wp (Fails slot valid) emit s' fun _ => Underway slot valid hint s₁ := by
  obtain ⟨h, hprogress, hcovered⟩ := h
  have hbacked := Settled.backed hhint h₁ hblank h hprogress hcovered
  have hprogress' := hprogress.trans (hmove.progress hbacked)
  refine (hemit s' (h.move hbacked hmove) fun hnone => hblank (hprogress'.none hnone)).mono
    fun _ s'' hs'' => ?_
  have hprogress'' := hs''.2 (hprogress'.level ▸ hlevel)
  exact ⟨hs''.1, hprogress'.trans hprogress'',
    (hcovered.mono (hmove.progress hbacked)).mono hprogress''⟩

variable (hcandidate : ∀ v, slot.driver.getLatestCompositeCandidate = some v → v ≠ [] → valid v)
include hcandidate

/-- Bumps, as long as there is a way to emit. -/
theorem Settled.bumps :
    Bumps slot valid (Fails slot valid) (Settled slot valid)
      (fun s => Pending slot valid s ∧ s.mCurrentBallot ≠ none) emit where
  candidate := hcandidate
  abort _ h := h.signed
  diverges _ h := h.signed
  abortBump _ _ h _ := h.signed.congr rfl
  bump _ _ h hbump := ⟨h.bump hbump, nofun⟩
  emit s h := (hemit s h.1 h.2.elim).mono fun _ _ hs' => hs'.1
  heard _ _ h := h.congr rfl h.sound.override rfl rfl

/-- Only the outermost call catches up. -/
theorem Settled.catchUp (h : Settled slot valid s) :
    Wp (Fails slot valid) (catchUp slot emit) s fun _ s' =>
      Settled slot valid s' ∧ (s.mCurrentMessageLevel ≠ 1 → s' = s) := by
  by_cases hlevel : s.mCurrentMessageLevel = 1
  · exact ((Settled.bumps hemit hcandidate).catchUp h).mono
      fun _ s' hs' => ⟨hs', absurd hlevel⟩
  · unfold BallotProtocol.catchUp
    simp only [wp_bind, wp_get]
    rw [if_neg hlevel]
    exact ⟨h, fun _ => rfl⟩

/-- The level goes down when the steps are done. -/
def lowered (s : BallotProtocol) : BallotProtocol :=
  { s with mCurrentMessageLevel := s.mCurrentMessageLevel - 1 }

omit hemit hcandidate in
theorem Progress.lowered (h : Progress slot s s') : Progress slot s.lowered s'.lowered :=
  ⟨h.others, h.prepared, h.phase, h.current, h.none, congrArg (· - 1) h.level⟩

theorem Settled.advanceSteps (hhint : Vetted slot valid n hint) (h : Settled slot valid s)
    (hblank : Guarded slot valid s) (hlevel : 1 ≤ s.mCurrentMessageLevel) :
    Wp (Fails slot valid) (advanceSteps slot emit hint) s fun _ => Follow slot valid s.lowered := by
  have hstep {s' s'' : BallotProtocol} (h' : Underway slot valid hint s s')
      (hmove : Move slot hint s' s'') := Settled.step hemit hhint h hblank hlevel h' hmove
  unfold BallotProtocol.advanceSteps
  simp only [wp_bind, wp_modify]
  refine (h.acceptPrepared hemit hblank hlevel).mono fun _ s₁ h₁ => ?_
  refine Wp.mono (Q := fun _ => Underway slot valid hint s) (wp_attemptConfirmPrepared h₁
    fun _ _ hc => ⟨h₁.override hc, fun hmoves => hstep h₁ (.confirmPrepared hc hmoves)⟩)
    fun _ s₂ h₂ => ?_
  refine Wp.mono (Q := fun _ => Underway slot valid hint s) (wp_attemptAcceptCommit h₂.1.signed h₂
    fun _ _ hc => hstep h₂ (.acceptCommit hc)) fun _ s₃ h₃ => ?_
  refine Wp.mono (Q := fun _ => Underway slot valid hint s) (wp_attemptConfirmCommit h₃
    fun _ _ _ hc _ => hstep h₃ (.confirmCommit hc)) fun _ s₄ h₄ => ?_
  obtain ⟨hsettled, hprogress, -⟩ := h₄
  refine (hsettled.catchUp hemit hcandidate).mono fun _ s₅ h₅ => ?_
  have hend : Follow slot valid s.lowered s₅.lowered := by
    refine ⟨h₅.1.congr rfl h₅.1.sound.override rfl rfl, fun hlow => ?_⟩
    have hne : s₄.mCurrentMessageLevel ≠ 1 := by
      rw [hprogress.level]
      have : 1 ≤ s.mCurrentMessageLevel - 1 := hlow
      omega
    rw [h₅.2 hne]
    exact hprogress.lowered
  split
  · refine wp_sendLatestEnvelope fun last emitted => ?_
    exact ⟨hend.1.congr rfl hend.1.sound.override rfl rfl, fun hlow =>
      (hend.2 hlow).trans (.of_fields rfl rfl rfl)⟩
  · exact hend

end Emitting

end

section

variable (hdriven : Driven slot valid)
  (hcandidate : ∀ v, slot.driver.getLatestCompositeCandidate = some v → v ≠ [] → valid v)
include hdriven hcandidate

/-- The recursion: each nested call is one level deeper. -/
theorem Settled.advanceSlot (depth : Nat) :
    ∀ n hint s, Vetted slot valid n hint → Settled slot valid s →
      Guarded slot valid s →
      Wp (Fails slot valid) (advanceSlot slot depth hint) s fun _ => Follow slot valid s := by
  have hmax : "maximum number of transitions reached in advanceSlot"
      ≠ "moved to a bad state (ballot protocol)" := by decide
  induction depth with
  | zero => exact fun _ _ _ _ h _ => ⟨hmax, h⟩
  | succ depth ih =>
    intro n hint s hhint h hblank
    unfold BallotProtocol.advanceSlot
    simp only [wp_bind, wp_get, wp_set]
    have hraised : Settled slot valid
        { s with mCurrentMessageLevel := s.mCurrentMessageLevel + 1 } :=
      h.congr rfl h.sound.override rfl rfl
    split
    · exact ⟨hmax, hraised⟩
    · exact hraised.advanceSteps (fun s hs => hs.emit hdriven (fun st s => ih _ st s))
        hcandidate hhint hblank (Nat.le_add_left 1 _)

theorem Settled.emitCurrentState :
    ∀ s, Pending slot valid s → Guarded slot valid s →
      Wp (Fails slot valid) (emitCurrentState slot) s fun _ => Follow slot valid s :=
  fun _ hs hblank => hs.emit hdriven
    (Settled.advanceSlot hdriven hcandidate _ _) hblank

end

/-- A statement from another node. -/
theorem Admitted.vetted (h : Admitted slot s st false) (hdriven : Driven slot valid) :
    Vetted slot valid st.nodeID st := by
  refine ⟨fun v hv => (hdriven.validates v).mp (validateValue_of_mem h.valid hv),
    fun p hp hzero => ?_⟩
  have hsane := h.sane
  unfold isStatementSane at hsane
  split at hsane
  · cases hsane
  · simp [hp, isPrepareSane, hzero] at hsane

theorem Settled.record (h : Settled slot valid s) (hst : Vetted slot valid st.nodeID st)
    (hne : st.nodeID ≠ slot.localNode.mNodeID) (fullyValidated : Bool) :
    Settled slot valid { s with
      mFullyValidated := fullyValidated
      mLatestEnvelopes := s.mLatestEnvelopes.insert st.nodeID st } := by
  have hlookup : (s.mLatestEnvelopes.insert st.nodeID st).lookup slot.localNode.mNodeID
      = s.mLatestEnvelopes.lookup slot.localNode.mNodeID := AList.lookup_insert_ne hne.symm
  refine ⟨⟨h.sound.congr rfl h.sound.override, AList.forall_lookup_insert hst h.vetted, ?_,
    ⟨h.signed.chain, h.signed.sane⟩⟩, h.counter, ?_⟩
  · rw [hlookup]
    exact h.last
  · rw [hlookup]
    exact h.own

end

end KinesisCore.BallotProtocol

namespace KinesisCore

open EStateM BallotProtocol

/-! ## Runs -/

/-- What a call has to meet: the driver knows the quorum set of the node and takes the
values that are valid, those the node is to bump to among them; and a node that is a
quorum by itself does not hear from others before it has a ballot of its own, unless the
empty value is valid. -/
structure WellFoundedCall (node : LocalNode) (valid : Value → Prop) (s : BallotProtocol)
    (driver : SCPDriver) (call : BallotCall) : Prop where
  getQSet : driver.getQSet node.mQSetHash = some node.mQSet
  validates : ∀ v, driver.validateValue v ≠ .kInvalidValue ↔ valid v
  candidate : ∀ v, driver.getLatestCompositeCandidate = some v → v ≠ [] → valid v
  bumps : ∀ v force, call = .event (.bumpState v force) → valid v
  alone : ∀ st, call = .event (.deliver st) → s.mCurrentBallot = none →
    valid [] ∨ LocalNode.isQuorumSlice node.mQSet [node.mNodeID] = false

section

variable {node : LocalNode} {slotIndex : UInt64} {valid : Value → Prop} {driver driver' : SCPDriver}
  {s : BallotProtocol} {call : BallotCall} {n : NodeState}

/-- The driver does not matter between the calls. -/
theorem settled_driver (h : Settled ⟨slotIndex, node, driver⟩ valid s) :
    Settled ⟨slotIndex, node, driver'⟩ valid s :=
  ⟨⟨h.sound, h.vetted, h.last, h.signed.chain, h.signed.sane⟩, h.counter, h.own⟩

variable (hsane : isQuorumSetSane node.mQSet false = .ok ())
include hsane

theorem settled_handle (hother : ∀ st, call = .event (.deliver st) → st.nodeID ≠ node.mNodeID)
    (hcall : WellFoundedCall node valid s driver call)
    (h : Settled ⟨slotIndex, node, driver⟩ valid s) :
    Wp (Fails ⟨slotIndex, node, driver⟩ valid) (call.handle ⟨slotIndex, node, driver⟩) s
      fun _ => Settled ⟨slotIndex, node, driver⟩ valid := by
  have hdriven : Driven ⟨slotIndex, node, driver⟩ valid := ⟨hsane, hcall.getQSet, hcall.validates⟩
  have hB := Settled.bumps (Settled.emitCurrentState hdriven hcall.candidate) hcall.candidate
  refine BallotCall.wp_handle hB h ?_
  rintro ev rfl
  refine hB.handle h (fun v force hv => hcall.bumps v force (hv ▸ rfl)) ?_ ?_
  · rintro st rfl hadmitted fullyValidated
    have hst := hadmitted.vetted hdriven
    exact (Settled.advanceSlot hdriven hcall.candidate _ _ st _ hst
      (h.record hst (hother st rfl) fullyValidated) (hcall.alone st rfl)).mono fun _ _ hs' => hs'.1
  · rintro st rfl hadmitted
    exact h.record (hadmitted.vetted hdriven) (hother st rfl) s.mFullyValidated

/-- What holds of a node in a run: the statements it signed are in order, and as long as
it runs it has settled. -/
theorem settled_of_reachable
    (h : BallotReachable node slotIndex (WellFoundedCall node valid) n) (driver : SCPDriver) :
    SignedInOrder ⟨slotIndex, node, driver⟩ n.protocol
      ∧ (n.halted = false → Settled ⟨slotIndex, node, driver⟩ valid n.protocol) := by
  induction h with
  | init isValidator =>
    refine ⟨⟨.nil, nofun⟩, fun _ => ⟨⟨⟨⟨nofun, nofun, nofun, absurd rfl, le_rfl⟩, nofun,
      nofun, nofun, nofun, nofun, nofun⟩, fun n st h => (by cases h), rfl, .nil, nofun⟩, nofun,
      .inr ⟨rfl, fun h => h.elim (fun h => h rfl) fun h => h rfl⟩⟩⟩
  | step _ hs ih =>
    obtain ⟨driver', call, hruns, hother, hcall⟩ := hs
    have hhandle := settled_handle hsane hother hcall (settled_driver (ih.2 hruns))
    unfold Wp at hhandle
    unfold NodeState.call NodeState.run
    split at hhandle
    · rename_i hok
      rw [hok]
      exact ⟨⟨hhandle.signed.chain, hhandle.signed.sane⟩, fun _ => settled_driver hhandle⟩
    · rename_i e s' herror
      rw [herror]
      cases e with
      | exception what =>
        exact ⟨⟨hhandle.2.signed.chain, hhandle.2.signed.sane⟩, fun _ => settled_driver hhandle.2⟩
      | abort | diverges => exact ⟨⟨hhandle.chain, hhandle.sane⟩, nofun⟩

end

/-- `isNewerStatement` is a strict partial order. Along every run whose calls are all well
founded, each statement that the node makes is sane and newer than the one before, or the
same, and it is never rejected as a bad state. -/
theorem own_statements_follow (node : LocalNode) (slotIndex : UInt64) (valid : Value → Prop)
    (hsane : isQuorumSetSane node.mQSet false = .ok ()) :
    (∀ st, isNewerStatement st st = false)
    ∧ (∀ a b c, isNewerStatement a b = true → isNewerStatement b c = true →
      isNewerStatement a c = true)
    ∧ ∀ n, BallotReachable node slotIndex (WellFoundedCall node valid) n →
      (n.protocol.signed.IsChain fun new old => new = old ∨ isNewerStatement old new = true)
      ∧ (∀ st ∈ n.protocol.signed, ∀ driver : SCPDriver,
        driver.getQSet node.mQSetHash = some node.mQSet →
        isStatementSane ⟨slotIndex, node, driver⟩ st true = true)
      ∧ (n.halted = false → ∀ driver call s',
        (∀ st, call = .event (.deliver st) → st.nodeID ≠ node.mNodeID) →
        WellFoundedCall node valid n.protocol driver call →
        call.handle ⟨slotIndex, node, driver⟩ n.protocol
          ≠ .error (.exception "moved to a bad state (ballot protocol)") s') := by
  refine ⟨isNewerStatement_irrefl, fun a b c => isNewerStatement_trans, fun n h => ?_⟩
  refine ⟨(settled_of_reachable hsane h ⟨fun _ => none, fun _ => .kInvalidValue, none⟩).1.chain,
    fun st hst driver hdriver => ?_, fun hruns driver call s' hother hcall hbad => ?_⟩
  · exact (settled_of_reachable hsane h driver).1.sane st hst driver hdriver
  · have hhandle := settled_handle hsane hother hcall
      ((settled_of_reachable hsane h driver).2 hruns)
    unfold Wp at hhandle
    rw [hbad] at hhandle
    exact hhandle.1 rfl

/-- The follower has bumped to a value. -/
def followerBumped : NodeState :=
  NodeState.call ⟨{ mFullyValidated := true }, false⟩ ⟨5, follower, carefulDriver⟩
    (.event (.bumpState [7] false))

theorem careful_wellFounded (s : BallotProtocol) {call : BallotCall}
    (hbumps : ∀ v force, call = .event (.bumpState v force) → v ≠ []) :
    WellFoundedCall follower (· ≠ []) s carefulDriver call := by
  refine ⟨rfl, fun v => ?_, nofun, hbumps, fun _ _ _ => .inr rfl⟩
  unfold carefulDriver
  dsimp only
  split_ifs with hv
  · exact ⟨absurd rfl, absurd hv⟩
  · exact ⟨fun _ => hv, fun _ => nofun⟩

theorem followerBumped_reachable :
    BallotReachable follower 5 (WellFoundedCall follower (· ≠ [])) followerBumped := by
  refine .step (.init true) (.call carefulDriver _ rfl nofun (careful_wellFounded _ ?_))
  rintro v force ⟨⟩
  decide

/-- It has signed a statement, and then hears from the first node. -/
theorem own_statements_follow_follower :
    followerBumped.protocol.signed.length = 1
      ∧ (followerBumped.protocol.signed.IsChain
        fun new old => new = old ∨ isNewerStatement old new = true)
      ∧ ∀ s', (BallotCall.event (.deliver ⟨1, 5, .prepare ⟨9, ⟨1, [7]⟩, none, none, 0, 0⟩⟩)).handle
        ⟨5, follower, carefulDriver⟩ followerBumped.protocol
          ≠ .error (.exception "moved to a bad state (ballot protocol)") s' := by
  obtain ⟨hchain, -, hnever⟩ :=
    (own_statements_follow follower 5 (· ≠ []) rfl).2.2 _ followerBumped_reachable
  refine ⟨by decide +kernel, hchain, fun s' => hnever (by decide +kernel) _ _ _ ?_ ?_⟩
  · rintro st ⟨⟩
    decide
  · exact careful_wellFounded _ nofun

/-! Two nodes, each of which is a quorum by itself. -/

def eitherNode : SCPQuorumSet := ⟨1, [1, 2], []⟩

def eitherDriver : SCPDriver :=
  { carefulDriver with getQSet := fun h => if h = 9 then some eitherNode else none }

/-- The exception that a call ends with. -/
def exceptionOf : EStateM.Result Failure BallotProtocol Unit → Option String
  | .error (.exception what) _ => some what
  | _ => none

theorem exceptionOf_eq_some {r : EStateM.Result Failure BallotProtocol Unit} {what : String} :
    exceptionOf r = some what ↔ ∃ s, r = .error (.exception what) s := by
  unfold exceptionOf
  split
  · simp
  · rename_i hother
    exact ⟨nofun, fun ⟨s, hs⟩ => absurd hs (hother what s)⟩

/-- Node 1 has no ballot yet and hears a vote of node 2. It accepts that ballot as prepared,
and then, with the empty ballot as its own vote, it accepts the empty ballot. Its next
statement names the empty value, which is not valid. -/
theorem moved_to_bad_state :
    let slot : Slot := ⟨5, ⟨1, eitherNode, 9⟩, eitherDriver⟩
    let st : SCPStatement := ⟨2, 5, .prepare ⟨9, ⟨1, [7]⟩, none, none, 0, 0⟩⟩
    let s : BallotProtocol := { mFullyValidated := true }
    isQuorumSetSane eitherNode false = .ok () ∧ isStatementSane slot st false = true
      ∧ ∃ s', (BallotCall.event (.deliver st)).handle slot s
          = .error (.exception "moved to a bad state (ballot protocol)") s'
        ∧ s'.mPrepared = some ⟨1, [7]⟩ ∧ s'.mPreparedPrime = some ⟨0, []⟩ := by
  intro slot st s
  refine ⟨rfl, by decide +kernel, ?_⟩
  have hthrown : exceptionOf ((BallotCall.event (.deliver st)).handle slot s)
      = some "moved to a bad state (ballot protocol)" := by decide +kernel
  have hafter : (stateAfter ((BallotCall.event (.deliver st)).handle slot) s).mPrepared
        = some ⟨1, [7]⟩
      ∧ (stateAfter ((BallotCall.event (.deliver st)).handle slot) s).mPreparedPrime
        = some ⟨0, []⟩ := by decide +kernel
  obtain ⟨s', hs'⟩ := exceptionOf_eq_some.mp hthrown
  refine ⟨s', hs', ?_⟩
  unfold stateAfter at hafter
  rwa [hs'] at hafter

/-! ## The last statement -/

variable (node : LocalNode) (slotIndex : UInt64) (valid : Value → Prop)

/-- The node is in a run of well founded calls and has not been stopped. -/
def Running (n : NodeState) : Prop :=
  isQuorumSetSane node.mQSet false = .ok ()
    ∧ BallotReachable node slotIndex (WellFoundedCall node valid) n ∧ n.halted = false

/-- Between its calls a running node has told its whole state: the last statement it signed
is the one of the state, with valid values only, and one that signed none has nothing to say. -/
theorem last_statement_of_state (driver : SCPDriver) :
    (∀ n, Running node slotIndex valid n → ∀ st ∈ n.protocol.signed.head?,
      statementOf ⟨slotIndex, node, driver⟩ n.protocol = some st
        ∧ ∀ v ∈ getStatementValues st, valid v)
    ∧ ∀ n, Running node slotIndex valid n → n.protocol.signed = [] → ¬Telling n.protocol := by
  constructor
  · rintro n ⟨hsane, h, hruns⟩ st hst
    have hsettled := (settled_of_reachable hsane h driver).2 hruns
    have hown := hsettled.latest (hsettled.last.symm.trans hst)
    exact ⟨hown, hsettled.sound.values hown⟩
  · rintro n ⟨hsane, h, hruns⟩ hnone
    have hsettled := (settled_of_reachable hsane h driver).2 hruns
    refine (hsettled.own.resolve_left ?_).2
    rintro ⟨st, -, hst⟩
    rw [← hsettled.last, hnone] at hst
    cases hst

theorem last_statement_of_state_follower :
    ∃ st ∈ followerBumped.protocol.signed.head?,
      statementOf ⟨5, follower, carefulDriver⟩ followerBumped.protocol = some st
        ∧ ∀ v ∈ getStatementValues st, v ≠ [] := by
  have hruns : Running follower 5 (· ≠ []) followerBumped :=
    ⟨rfl, followerBumped_reachable, by decide +kernel⟩
  have hsome : followerBumped.protocol.signed.head?.isSome := by decide +kernel
  obtain ⟨st, hst⟩ := Option.isSome_iff_exists.mp hsome
  exact ⟨st, hst, (last_statement_of_state follower 5 (· ≠ []) carefulDriver).1 _ hruns st hst⟩

end KinesisCore

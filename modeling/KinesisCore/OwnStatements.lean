import KinesisCore.BallotInvariants

/-!
# What a node says of itself

A node's statements go up in the order of `isNewerStatement`, move after move. If its
ballots are in order, `h` is not above `p` in phase PREPARE and all values are valid, the
statement passes the checks that `processEnvelope` makes on it.
-/

namespace KinesisCore.BallotProtocol

open EStateM Prod.Lex UInt32
open Option (getD_some mem_unique)

/-! ## What a node says -/

section

variable {slot : Slot} {s s' : BallotProtocol} {st old new hint : SCPStatement} {ballot : SCPBallot}

theorem statementOf_prepare (hphase : s.mPhase = .PREPARE) :
    statementOf slot s =
      some ⟨slot.localNode.mNodeID, slot.mSlotIndex, .prepare (preparePledges slot s)⟩ := by
  unfold statementOf createPledges
  rw [hphase]
  rfl

section Confirm

variable (hst : statementOf slot s = some st)
include hst

theorem statementOf_confirm (hphase : s.mPhase = .CONFIRM) :
    ∃ b p c h, s.mCurrentBallot = some b ∧ s.mPrepared = some p ∧ s.mCommit = some c
      ∧ s.mHighBallot = some h ∧ st = ⟨slot.localNode.mNodeID, slot.mSlotIndex,
        .confirm ⟨b, p.counter, c.counter, h.counter, slot.localNode.mQSetHash⟩⟩ := by
  cases says_of_statementOf hst with
  | prepare h | externalize h => cases hphase.symm.trans h
  | confirm _ hb hp hc hh => exact ⟨_, _, _, _, hb, hp, hc, hh, rfl⟩

theorem statementOf_eq_prepare {p : PreparePledges} (hp : st.pledges = .prepare p) :
    s.mPhase = .PREPARE ∧ p = preparePledges slot s := by
  cases says_of_statementOf hst with
  | prepare hphase => exact ⟨hphase, (Pledges.prepare.inj hp).symm⟩
  | confirm | externalize => cases hp

theorem type_statementOf : st.pledges.type = s.mPhase.rank := by
  cases says_of_statementOf hst with
  | prepare hphase | confirm hphase | externalize hphase => exact hphase ▸ rfl

end Confirm

/-! ## Newer statements -/

/-- One statement after the other. -/
def Follows (old new : SCPStatement) : Prop := new = old ∨ isNewerStatement old new = true

section Newer

variable (hold : statementOf slot s = some old)
include hold

theorem newer_of_phase (hnew : statementOf slot s' = some new)
    (hlt : s.mPhase.rank < s'.mPhase.rank) : isNewerStatement old new = true := by
  rw [← type_statementOf hold, ← type_statementOf hnew] at hlt
  exact (isNewerStatement_of_type hlt.ne).mpr hlt

theorem newer_of_prepare (hphase : s.mPhase = .PREPARE) (hphase' : s'.mPhase = .PREPARE)
    (hnew : statementOf slot s' = some new)
    (hlt : prepareKey (preparePledges slot s) < prepareKey (preparePledges slot s')) :
    isNewerStatement old new = true := by
  rw [statementOf_prepare hphase] at hold
  rw [statementOf_prepare hphase'] at hnew
  rw [← Option.some.inj hold, ← Option.some.inj hnew]
  exact isNewerPrepare_iff.mpr hlt

/-- The current ballot went up. -/
theorem newer_of_current (hphase : s'.mPhase = s.mPhase) (hext : s.mPhase ≠ .EXTERNALIZE)
    (hcurrent : s'.mCurrentBallot = some ballot) (hcounter : ballot.counter ≠ 0)
    (hlt : ∀ b ∈ s.mCurrentBallot, b < ballot) (hnew : statementOf slot s' = some new) :
    isNewerStatement old new = true := by
  cases hp : s.mPhase with
  | PREPARE =>
    refine newer_of_prepare hold hp (hphase.trans hp) hnew ?_
    refine toLex_lt_toLex.mpr (.inl ?_)
    show s.mCurrentBallot.getD {} < s'.mCurrentBallot.getD {}
    rw [hcurrent, getD_some]
    cases hb : s.mCurrentBallot with
    | none =>
      refine lt_of_le_of_ne (zero_le_ballot ballot) fun heq => hcounter ?_
      rw [← heq]
      rfl
    | some b => exact hlt b hb
  | CONFIRM =>
    obtain ⟨b, p, c, h, hb, -, -, -, rfl⟩ := statementOf_confirm hold hp
    obtain ⟨b', p', c', h', hb', -, -, -, rfl⟩ := statementOf_confirm hnew (hphase.trans hp)
    rw [hcurrent] at hb'
    cases hb'
    exact isNewerConfirm_iff.mpr (toLex_lt_toLex.mpr (.inl (hlt b hb)))
  | EXTERNALIZE => exact absurd hp hext

theorem newer_of_setsPrepared (hp : Preparable slot hint s ballot) (hset : SetsPrepared s ballot s')
    (hnew : statementOf slot s' = some new) : isNewerStatement old new = true := by
  have hphase := hset.phase
  cases hprepare : s.mPhase with
  | PREPARE =>
    refine newer_of_prepare hold hprepare (hphase.trans hprepare) hnew ?_
    cases hset with
    | first hnone =>
      refine toLex_lt_toLex.mpr (.inr ⟨rfl, toLex_lt_toLex.mpr (.inl ?_)⟩)
      show optional s.mPrepared < optional (some ballot)
      rw [hnone]
      exact WithBot.bot_lt_coe ballot
    | raise p hsome hlt =>
      refine toLex_lt_toLex.mpr (.inr ⟨rfl, toLex_lt_toLex.mpr (.inl ?_)⟩)
      show optional s.mPrepared < optional (some ballot)
      rw [hsome]
      exact WithBot.coe_lt_coe.mpr hlt
    | prime p hsome hlt hvalue hgt =>
      refine toLex_lt_toLex.mpr (.inr ⟨rfl, toLex_lt_toLex.mpr
        (.inr ⟨rfl, toLex_lt_toLex.mpr (.inl ?_)⟩)⟩)
      show optional s.mPreparedPrime < optional (some ballot)
      cases hprime : s.mPreparedPrime with
      | none => exact WithBot.bot_lt_coe ballot
      | some p' => exact WithBot.coe_lt_coe.mpr (hgt p' hprime)
  | CONFIRM =>
    -- only a ballot that raises `p` is accepted, with the value that `p` has
    obtain ⟨p₀, hp₀, hle, hvalue⟩ := hp.confirm hprepare
    obtain ⟨b, p, c, h, hb, hpold, -, -, rfl⟩ := statementOf_confirm hold hprepare
    obtain ⟨b', p', c', h', hb', hpnew, -, -, rfl⟩ :=
      statementOf_confirm hnew (hphase.trans hprepare)
    rw [hpold] at hp₀
    obtain rfl := Option.some.inj hp₀
    have hraise : b' = b ∧ p' = ballot ∧ p < ballot := by
      cases hset with
      | first hnone => rw [hpold] at hnone; cases hnone
      | raise q hsome hlt =>
        rw [hpold] at hsome
        rw [← Option.some.inj hsome] at hlt
        exact ⟨mem_unique hb' hb, (Option.some.inj hpnew).symm, hlt⟩
      | prime q hsome hlt _ _ =>
        rw [hpold] at hsome
        rw [← Option.some.inj hsome] at hlt
        exact absurd hlt (not_lt.mpr hle)
    obtain ⟨rfl, rfl, hlt⟩ := hraise
    refine isNewerConfirm_iff.mpr (toLex_lt_toLex.mpr (.inr ⟨rfl, ?_⟩))
    exact toLex_lt_toLex.mpr (.inl (counter_lt_of_lt hlt hvalue))
  | EXTERNALIZE => exact absurd hprepare hp.phase

theorem newer_of_prepares (hp : Preparable slot hint s ballot) (hset : Prepares s ballot s')
    (hnew : statementOf slot s' = some new) : isNewerStatement old new = true := by
  cases hset with
  | keeping hset => exact newer_of_setsPrepared hold hp hset hnew
  | @clearing s' hset hphase =>
    have hphase' : s'.mPhase = .PREPARE := hset.phase.trans hphase
    -- `c` is not compared
    have hnewer := newer_of_setsPrepared hold hp hset (statementOf_prepare hphase')
    rw [statementOf_prepare hphase] at hold
    cases hold
    rw [statementOf_prepare (show ({ s' with mCommit := none } : BallotProtocol).mPhase = _ from
      hphase')] at hnew
    rw [← Option.some.inj hnew]
    exact hnewer

omit hold in
theorem counter_of_invariantsHold (h : s.invariantsHold = true) :
    ∀ b ∈ s.mCurrentBallot, b.counter ≠ 0 := by
  unfold invariantsHold at h
  simp only [Bool.and_eq_true, all_iff] at h
  exact fun b hb => of_decide_eq_true (h.1.1.1.1 b hb)

theorem follows_of_confirmPrepared {start : SCPPhase} {newC newH : SCPBallot} (hs : Ordered start s)
    (hc : Confirmable slot hint s newC newH)
    (hmoves : (∀ b ∈ s.mCurrentBallot, b.value = newH.value) ∨ ∀ b ∈ s.mCurrentBallot, b < newH)
    (hinv : ((s.confirmedPrepared newC newH).movedUp newH).invariantsHold = true)
    (hnew : statementOf slot ((s.confirmedPrepared newC newH).movedUp newH) = some new) :
    Follows old new := by
  have hprepare : (s.confirmedPrepared newC newH).mPhase = .PREPARE := hc.phase
  have hcounter := counter_of_invariantsHold hinv
  rcases movedUp_cases (s.confirmedPrepared newC newH) newH with
    ⟨hlt, hmoved⟩ | ⟨⟨b, hb, hle⟩, hmoved⟩
  · rw [hmoved] at hcounter hnew
    have hext : s.mPhase ≠ .EXTERNALIZE := by
      rw [hc.phase]
      nofun
    have hphase : ((s.confirmedPrepared newC newH).bumpedTo newH).mPhase = s.mPhase := rfl
    exact .inr (newer_of_current hold hphase hext rfl (hcounter newH rfl) hlt hnew)
  · rw [hmoved] at hnew
    have hvalue : ∀ b ∈ s.mCurrentBallot, b.value = newH.value :=
      hmoves.resolve_right fun hlt => absurd (hlt b hb) (not_lt.mpr hle)
    have hcompat : s.mCurrentBallot.all (areBallotsCompatible · newH) = true :=
      all_iff.mpr fun b hb => compatible_iff.mpr (hvalue b hb)
    have hhigh : (s.confirmedPrepared newC newH).mHighBallot = some newH := if_pos hcompat
    have hnewer : (preparePledges slot s).nH.toNat < newH.counter.toNat →
        isNewerStatement old new = true := by
      intro hlt
      refine newer_of_prepare hold hc.phase hprepare hnew ?_
      refine toLex_lt_toLex.mpr (.inr ⟨rfl, toLex_lt_toLex.mpr
        (.inr ⟨rfl, toLex_lt_toLex.mpr (.inr ⟨rfl, ?_⟩)⟩)⟩)
      have hnH : (preparePledges slot (s.confirmedPrepared newC newH)).nH = newH.counter := by
        simp [preparePledges, hhigh]
      show _ < (preparePledges slot (s.confirmedPrepared newC newH)).nH.toNat
      rw [hnH]
      exact hlt
    cases hh : s.mHighBallot with
    | some h =>
      obtain ⟨b', hb', -, hvalue'⟩ := hs.high h hh
      refine .inr (hnewer ?_)
      simp only [preparePledges, hh]
      exact counter_lt_of_lt (hc.raises h hh) (hvalue'.trans (hvalue b' hb'))
    | none =>
      by_cases hzero : newH.counter = 0
      · -- an `h` with counter zero makes no difference
        refine .inl ?_
        have hcommit := hs.commit_eq_none hh
        have hnewC : newC.counter = 0 := by
          by_contra hne
          exact counter_ne_zero_of_le (hc.commit hne).2.1 hne hzero
        have hcommit' : (s.confirmedPrepared newC newH).mCommit = none := by
          simp [confirmedPrepared, hnewC, hcommit]
        rw [statementOf_prepare hc.phase] at hold
        rw [statementOf_prepare hprepare] at hnew
        rw [← Option.some.inj hold, ← Option.some.inj hnew, SCPStatement.mk.injEq]
        refine ⟨rfl, rfl, congrArg Pledges.prepare ?_⟩
        simp only [preparePledges, hhigh, hcommit', hh, hcommit, Option.map_some, getD_some,
          hzero]
        rfl
      · refine .inr (hnewer ?_)
        simp only [preparePledges, hh]
        exact Nat.pos_of_ne_zero fun h => hzero (UInt32.toNat_inj.mp h)

omit hold in
theorem movedUp_phase (s : BallotProtocol) (h : SCPBallot) : (s.movedUp h).mPhase = s.mPhase := by
  rcases movedUp_cases s h with ⟨-, hmoved⟩ | ⟨-, hmoved⟩
  · rw [hmoved]
    rfl
  · rw [hmoved]

theorem newer_of_acceptCommit {c h : SCPBallot} (hc : CommitAcceptable hint s c h)
    (hnew : statementOf slot ((s.acceptedCommit c h).movedUp h) = some new) :
    isNewerStatement old new = true := by
  have hphase : ((s.acceptedCommit c h).movedUp h).mPhase = .CONFIRM := by
    rw [movedUp_phase, acceptedCommit_phase s c h hc.phase]
  cases hprepare : s.mPhase with
  | PREPARE =>
    refine newer_of_phase hold hnew ?_
    rw [hprepare, hphase]
    decide
  | CONFIRM =>
    have hstate : s.acceptedCommit c h =
        { s with mValueOverride := some h.value, mCommit := some c, mHighBallot := some h } :=
      if_neg (by rw [hprepare]; nofun)
    rcases movedUp_cases (s.acceptedCommit c h) h with ⟨hlt, hmoved⟩ | ⟨-, hmoved⟩
    · rw [hmoved] at hphase hnew
      rw [hstate] at hlt
      exact newer_of_current hold (hphase.trans hprepare.symm) hc.phase rfl
        (counter_ne_zero_of_le hc.le hc.counter) hlt hnew
    · -- the ballot stays and `h` goes up
      rw [hmoved] at hphase hnew
      obtain ⟨b, p, c₁, h₁, hb, hp, -, hh, rfl⟩ := statementOf_confirm hold hprepare
      obtain ⟨b', p', c', h', hb', hp', -, hh', rfl⟩ := statementOf_confirm hnew hphase
      rw [acceptedCommit_high] at hh'
      rw [hstate] at hb' hp'
      obtain rfl : b = b' := mem_unique hb hb'
      obtain rfl : p = p' := mem_unique hp hp'
      cases hh'
      obtain ⟨h₀, hh₀, -, hlt⟩ := hc.confirm hprepare
      obtain rfl : h₁ = h₀ := mem_unique hh hh₀
      exact isNewerConfirm_iff.mpr (toLex_lt_toLex.mpr (.inr ⟨rfl,
        toLex_lt_toLex.mpr (.inr ⟨rfl, hlt⟩)⟩))
  | EXTERNALIZE => exact absurd hprepare hc.phase

/-- Whatever the move, the next statement is newer, or the same. -/
theorem follows_of_move {start : SCPPhase} (hs : Ordered start s) (hmove : Move slot hint s s')
    (hinv : s'.invariantsHold = true) (hnew : statementOf slot s' = some new) :
    Follows old new := by
  cases hmove with
  | prepared hp hset => exact .inr (newer_of_prepares hold hp hset hnew)
  | confirmPrepared hc hmoves => exact follows_of_confirmPrepared hold hs hc hmoves hinv hnew
  | acceptCommit hc => exact .inr (newer_of_acceptCommit hold hc hnew)
  | confirmCommit hc =>
    refine .inr (newer_of_phase hold hnew ?_)
    rw [hc.phase]
    show SCPPhase.CONFIRM.rank < SCPPhase.EXTERNALIZE.rank
    decide

theorem newer_of_bump {offered : Value → Prop} (hbump : Bumpable offered s ballot)
    (hnew : statementOf slot (s.bumpedTo ballot) = some new) : isNewerStatement old new = true := by
  have hphase : (s.bumpedTo ballot).mPhase = s.mPhase := rfl
  exact newer_of_current hold hphase hbump.phase rfl hbump.counter hbump.lt hnew

end Newer

end

/-! ## Sound ballots -/

/-- The ballots are in order, those that can be told of are sane to tell, and their
values are valid. -/
structure Sound (valid : Value → Prop) (s : BallotProtocol) : Prop where
  ordered : Ordered .PREPARE s
  high : s.mPhase = .PREPARE → ∀ h ∈ s.mHighBallot, ∃ p ∈ s.mPrepared, h ≤ p
  commit : ∀ c ∈ s.mCommit, c.counter ≠ 0
  current : ∀ b ∈ s.mCurrentBallot, valid b.value
  prepared : ∀ p ∈ s.mPrepared, valid p.value
  prime : ∀ p' ∈ s.mPreparedPrime, valid p'.value
  override : ∀ v ∈ s.mValueOverride, valid v

section

variable {valid : Value → Prop} {slot : Slot} {s s' : BallotProtocol} {hint : SCPStatement}
  {ballot : SCPBallot}

/-- A bump may take `h` and `c` back. -/
theorem mem_of_bumpedTo : (∀ h ∈ (s.bumpedTo ballot).mHighBallot, h ∈ s.mHighBallot)
    ∧ ∀ c ∈ (s.bumpedTo ballot).mCommit, c ∈ s.mCommit := by
  unfold bumpedTo
  dsimp only
  split_ifs
  · exact ⟨fun _ h => h, fun _ h => h⟩
  · exact ⟨nofun, nofun⟩

/-- Nothing but the current ballot moves up. -/
theorem movedUp_current (s : BallotProtocol) (h : SCPBallot) :
    ∀ b ∈ (s.movedUp h).mCurrentBallot, b = h ∨ b ∈ s.mCurrentBallot := by
  intro b hb
  rcases movedUp_cases s h with ⟨-, hmoved⟩ | ⟨-, hmoved⟩
  · rw [hmoved] at hb
    exact .inl (Option.some.inj hb).symm
  · rw [hmoved] at hb
    exact .inr hb

theorem movedUp_fields (s : BallotProtocol) (h : SCPBallot) :
    (s.movedUp h).mPrepared = s.mPrepared ∧ (s.movedUp h).mPreparedPrime = s.mPreparedPrime
      ∧ (s.movedUp h).mValueOverride = s.mValueOverride
      ∧ (∀ hb ∈ (s.movedUp h).mHighBallot, hb ∈ s.mHighBallot)
      ∧ ∀ c ∈ (s.movedUp h).mCommit, c ∈ s.mCommit := by
  rcases movedUp_cases s h with ⟨-, hmoved⟩ | ⟨-, hmoved⟩
  · rw [hmoved]
    exact ⟨rfl, rfl, rfl, mem_of_bumpedTo⟩
  · rw [hmoved]
    exact ⟨rfl, rfl, rfl, fun _ h => h, fun _ h => h⟩

/-- No ballot with counter zero becomes `c`, and only one that was confirmed could
become `h`. -/
theorem Move.committed (hmove : Move slot hint s s') :
    (∀ b ∈ s'.mHighBallot, b ∈ s.mHighBallot ∨ b.counter ≠ 0
        ∨ ∃ newC, Confirmable slot hint s newC b)
      ∧ ∀ c ∈ s'.mCommit, c ∈ s.mCommit ∨ c.counter ≠ 0 := by
  cases hmove with
  | prepared _ hset =>
    cases hset with
    | keeping hset => cases hset <;> exact ⟨fun _ => Or.inl, fun _ => Or.inl⟩
    | clearing hset _ => cases hset <;> exact ⟨fun _ => Or.inl, nofun⟩
  | @confirmPrepared newC newH hc _ =>
    obtain ⟨-, -, -, hhigh, hcommit⟩ := movedUp_fields (s.confirmedPrepared newC newH) newH
    refine ⟨fun b hb => ?_, fun c hc' => ?_⟩
    · replace hb := hhigh b hb
      unfold confirmedPrepared at hb
      dsimp only at hb
      split_ifs at hb
      · exact .inr (.inr ⟨newC, Option.some.inj hb ▸ hc⟩)
      · exact .inl hb
    · replace hc' := hcommit c hc'
      unfold confirmedPrepared at hc'
      dsimp only at hc'
      split_ifs at hc' with hset
      · rw [← Option.some.inj hc']
        exact .inr (of_decide_eq_true (Bool.and_eq_true_iff.mp hset).2)
      · exact .inl hc'
  | @acceptCommit c h hc =>
    obtain ⟨-, -, -, hhigh, hcommit⟩ := movedUp_fields (s.acceptedCommit c h) h
    rw [acceptedCommit_high] at hhigh
    rw [acceptedCommit_commit] at hcommit
    refine ⟨fun b hb => .inr (.inl ?_), fun c' hc' => .inr ?_⟩
    · exact Option.some.inj (hhigh b hb) ▸ counter_ne_zero_of_le hc.le hc.counter
    · exact Option.some.inj (hcommit c' hc') ▸ hc.counter
  | @confirmCommit c h hc =>
    obtain ⟨-, -, -, hhigh, hcommit⟩ :=
      movedUp_fields { s with mCommit := some c, mHighBallot := some h } h
    refine ⟨fun b hb => .inr (.inl ?_), fun c' hc' => .inr ?_⟩
    · exact Option.some.inj (hhigh b hb) ▸ counter_ne_zero_of_le hc.le hc.counter
    · exact Option.some.inj (hcommit c' hc') ▸ hc.counter

section Sound

variable (h : Sound valid s)
include h

theorem Sound.setsPrepared (hvalid : valid ballot.value) (hset : SetsPrepared s ballot s') :
    Sound valid s' := by
  have hordered := h.ordered.setsPrepared hset
  have hmono := hset.mono.1
  have hphase := hset.phase
  have hhigh : s'.mHighBallot = s.mHighBallot := by cases hset <;> rfl
  have hsound : s'.mPhase = .PREPARE → ∀ hb ∈ s'.mHighBallot, ∃ p ∈ s'.mPrepared, hb ≤ p := by
    intro hprepare hb hhb
    obtain ⟨p, hp, hle⟩ := h.high (hphase ▸ hprepare) hb (hhigh ▸ hhb)
    obtain ⟨q, hq, hle'⟩ := hmono p hp
    exact ⟨q, hq, hle.trans hle'⟩
  cases hset with
  | first hp =>
    refine ⟨hordered, hsound, h.commit, h.current, fun q hq => ?_, h.prime, h.override⟩
    rwa [← Option.some.inj hq]
  | raise p hp hlt =>
    refine ⟨hordered, hsound, h.commit, h.current, fun q hq => ?_, fun q hq => ?_, h.override⟩
    · rwa [← Option.some.inj hq]
    · split_ifs at hq
      · exact h.prime q hq
      · rw [← Option.some.inj hq]
        exact h.prepared p hp
  | prime p hp hlt hvalue hgt =>
    refine ⟨hordered, hsound, h.commit, h.current, h.prepared, fun q hq => ?_, h.override⟩
    rwa [← Option.some.inj hq]

theorem Sound.prepares (hvalid : valid ballot.value) (hset : Prepares s ballot s') :
    Sound valid s' := by
  have hordered := h.ordered.prepares hset
  cases hset with
  | keeping hset => exact h.setsPrepared hvalid hset
  | clearing hset _ =>
    have h' := h.setsPrepared hvalid hset
    exact ⟨hordered, h'.high, nofun, h'.current, h'.prepared, h'.prime, h'.override⟩

/-- The commit after a move has a counter. -/
theorem Sound.committed (hmove : Move slot hint s s') : ∀ c ∈ s'.mCommit, c.counter ≠ 0 :=
  fun c hc => (hmove.committed.2 c hc).elim (h.commit c) fun hne => hne

theorem Sound.confirmPrepared {newC newH : SCPBallot} (hc : Confirmable slot hint s newC newH)
    (hmoves : (∀ b ∈ s.mCurrentBallot, b.value = newH.value) ∨ ∀ b ∈ s.mCurrentBallot, b < newH)
    (hvalid : valid newH.value) (hle : ∃ p ∈ s.mPrepared, newH ≤ p) :
    Sound valid ((s.confirmedPrepared newC newH).movedUp newH) := by
  obtain ⟨hprepared, hprime, hoverride, hhigh, -⟩ :=
    movedUp_fields (s.confirmedPrepared newC newH) newH
  refine ⟨h.ordered.confirmPrepared hc, fun _ hb hhb => ?_,
    h.committed (.confirmPrepared hc hmoves), fun b hb => ?_, ?_, ?_, ?_⟩
  · rw [hprepared]
    have hhb := hhigh hb hhb
    unfold confirmedPrepared at hhb
    dsimp only at hhb
    split_ifs at hhb
    · rw [← Option.some.inj hhb]
      exact hle
    · exact h.high hc.phase hb hhb
  · rcases movedUp_current _ _ b hb with rfl | hb
    · exact hvalid
    · exact h.current b hb
  · rw [hprepared]
    exact h.prepared
  · rw [hprime]
    exact h.prime
  · rw [hoverride]
    intro v hv
    rwa [← Option.some.inj hv]

theorem Sound.acceptCommit (slot : Slot) {c hb : SCPBallot} (hc : CommitAcceptable hint s c hb)
    (hvalid : valid hb.value) : Sound valid ((s.acceptedCommit c hb).movedUp hb) := by
  obtain ⟨hprepared, hprime, hoverride, -⟩ := movedUp_fields (s.acceptedCommit c hb) hb
  obtain ⟨hprepared', hprime', hoverride', -⟩ := acceptedCommit_fields s c hb
  refine ⟨h.ordered.acceptCommit hc, fun hphase => ?_,
    h.committed (.acceptCommit hc : Move slot hint s _), fun b hb' => ?_, ?_, ?_, ?_⟩
  · rw [movedUp_phase, acceptedCommit_phase s c hb hc.phase] at hphase
    cases hphase
  · rcases movedUp_current _ _ b hb' with rfl | hb'
    · exact hvalid
    · rcases acceptedCommit_current b hb' with ⟨-, hb'⟩ | ⟨-, hvalue⟩
      · exact h.current b hb'
      · rwa [← hvalue]
  · rw [hprepared, hprepared']
    exact h.prepared
  · rw [hprime]
    exact fun p' hp' => h.prime p' (hprime' p' hp')
  · rw [hoverride, hoverride']
    intro v hv
    rwa [← Option.some.inj hv]

theorem Sound.confirmCommit (slot : Slot) {c hb : SCPBallot} (hc : CommitConfirmable hint s c hb) :
    Sound valid (s.confirmedCommit c hb) := by
  obtain ⟨hprepared, hprime, hoverride, -⟩ :=
    movedUp_fields { s with mCommit := some c, mHighBallot := some hb } hb
  refine ⟨h.ordered.confirmCommit hc, nofun, h.committed (.confirmCommit hc : Move slot hint s _),
    fun b hb' => ?_, ?_, ?_, ?_⟩
  · rcases movedUp_current _ _ b hb' with rfl | hb'
    · -- the value of the commit that was accepted
      obtain ⟨c₀, hh, b₀, hc₀, -, hb₀, hvalue, hvalue'⟩ :=
        h.ordered.values (by rw [hc.phase]; nofun)
      obtain ⟨c₁, hc₁, hvalue₁⟩ := hc.commit
      obtain rfl : c₀ = c₁ := mem_unique hc₀ hc₁
      have hvalid := h.current b₀ hb₀
      rwa [← hvalue', ← hvalue, hvalue₁, hc.value] at hvalid
    · exact h.current b hb'
  · exact hprepared ▸ h.prepared
  · exact hprime ▸ h.prime
  · exact hoverride ▸ h.override

/-- What has to hold of the ballots in a move so that the ballots stay sound. -/
structure Backed (slot : Slot) (valid : Value → Prop) (hint : SCPStatement) (s : BallotProtocol) :
    Prop where
  prepare : ∀ ballot, Preparable slot hint s ballot → valid ballot.value
  confirm : ∀ newC newH, Confirmable slot hint s newC newH →
    valid newH.value ∧ ∃ p ∈ s.mPrepared, newH ≤ p
  commit : ∀ ballot, commitHint hint = some ballot → valid ballot.value

theorem Sound.move (hbacked : Backed slot valid hint s) (hmove : Move slot hint s s') :
    Sound valid s' := by
  cases hmove with
  | prepared hp hset => exact h.prepares (hbacked.prepare _ hp) hset
  | confirmPrepared hc hmoves =>
    obtain ⟨hvalid, hle⟩ := hbacked.confirm _ _ hc
    exact h.confirmPrepared hc hmoves hvalid hle
  | acceptCommit hc =>
    obtain ⟨ballot, hballot, hvalue⟩ := hc.hint
    exact h.acceptCommit slot hc (hvalue ▸ hbacked.commit ballot hballot)
  | confirmCommit hc => exact h.confirmCommit slot hc

theorem Sound.bump (hbump : Bumpable valid s ballot) : Sound valid (s.bumpedTo ballot) := by
  have hvalid : valid ballot.value := by
    rcases hbump.value with hoverride | ⟨b, hb, hvalue⟩ | hoffered
    · exact h.override _ hoverride
    · exact hvalue ▸ h.current b hb
    · exact hoffered
  refine ⟨h.ordered.bump hbump, fun hphase hb hhb => ?_, fun c hc => ?_, fun b hb => ?_, h.prepared,
    h.prime, h.override⟩
  · exact h.high hphase hb (mem_of_bumpedTo.1 hb hhb)
  · exact h.commit c (mem_of_bumpedTo.2 c hc)
  · rwa [← Option.some.inj hb]

/-! ## Sound ballots make good statements -/

/-- The statement is sane, as one of the node itself, if its quorum set is known. -/
def SaneOwn (slot : Slot) (st : SCPStatement) : Prop :=
  ∀ driver : SCPDriver, driver.getQSet slot.localNode.mQSetHash = some slot.localNode.mQSet →
    isStatementSane { slot with driver := driver } st true = true

variable {st : SCPStatement}

theorem Sound.isPrepareSane (hphase : s.mPhase = .PREPARE) :
    isPrepareSane true (preparePledges slot s) = true := by
  have hprime : (s.mPreparedPrime.all fun p' =>
      s.mPrepared.all (areBallotsLessAndIncompatible p' ·)) = true := by
    simp only [all_iff, lessAndIncompatible_iff]
    intro p' hp' p hp
    obtain ⟨q, hq, hlt⟩ := h.ordered.prime p' hp'
    rw [hq] at hp
    rwa [← Option.some.inj hp]
  unfold BallotProtocol.isPrepareSane preparePledges
  simp only [Bool.and_eq_true, Bool.or_eq_true, hprime, true_or, true_and, decide_eq_true_iff]
  constructor
  · cases hhigh : s.mHighBallot with
    | none => exact .inl rfl
    | some hb =>
      obtain ⟨p, hp, hle⟩ := h.high hphase hb hhigh
      refine .inr (any_iff.mpr ⟨p, hp, decide_eq_true ?_⟩)
      exact le_iff_toNat_le.mpr (counter_le_of_le hle)
  · cases hcommit : s.mCommit with
    | none => exact .inl rfl
    | some c =>
      obtain ⟨hb, hhb, hle, -⟩ := h.ordered.commit c hcommit
      obtain ⟨b, hb', hle', -⟩ := h.ordered.high hb hhb
      rw [Option.mem_def.mp hhb, Option.mem_def.mp hb']
      refine .inr ⟨⟨counter_ne_zero_of_le hle (h.commit c hcommit), ?_⟩, ?_⟩
      · exact le_iff_toNat_le.mpr (counter_le_of_le hle')
      · exact le_iff_toNat_le.mpr (counter_le_of_le hle)

theorem Sound.sane (hqSet : isQuorumSetSane slot.localNode.mQSet false = .ok ())
    (hst : statementOf slot s = some st) : SaneOwn slot st := by
  intro driver hdriver
  unfold isStatementSane Slot.getQuorumSetFromStatement
  cases says_of_statementOf hst with
  | prepare hphase =>
    simp only [preparePledges, hdriver, hqSet]
    exact h.isPrepareSane hphase
  | @confirm b p c hb _ hcurrent _ hcommit hhigh =>
    obtain ⟨hb', hhb, hle, -⟩ := h.ordered.commit c hcommit
    obtain rfl : hb = hb' := mem_unique hhigh hhb
    obtain ⟨b', hb', hle', -⟩ := h.ordered.high hb hhigh
    obtain rfl : b = b' := mem_unique hcurrent hb'
    have hcounter := counter_ne_zero_of_le (hle.trans hle') (h.commit c hcommit)
    simp only [hdriver, hqSet, Except.toBool, Bool.true_and, Bool.and_eq_true, decide_eq_true_iff]
    refine ⟨⟨UInt32.pos_iff_ne_zero.mpr hcounter, ?_⟩, ?_⟩
    · exact le_iff_toNat_le.mpr (counter_le_of_le hle')
    · exact le_iff_toNat_le.mpr (counter_le_of_le hle)
  | @externalize c hb _ hcommit hhigh =>
    obtain ⟨hb', hhb, hle, -⟩ := h.ordered.commit c hcommit
    obtain rfl : hb = hb' := mem_unique hhigh hhb
    have hsingleton : isQuorumSetSane (LocalNode.buildSingletonQSet slot.localNode.mNodeID) false
        = .ok () := rfl
    simp only [hsingleton, Except.toBool, Bool.true_and, Bool.and_eq_true, decide_eq_true_iff]
    exact ⟨UInt32.pos_iff_ne_zero.mpr (h.commit c hcommit),
      le_iff_toNat_le.mpr (counter_le_of_le hle)⟩

theorem Sound.values (hst : statementOf slot s = some st) :
    ∀ v ∈ getStatementValues st, valid v := by
  intro v hv
  unfold getStatementValues at hv
  cases says_of_statementOf hst with
  | prepare =>
    simp only [preparePledges, List.mem_append, List.mem_map, Option.mem_toList] at hv
    rcases hv with (hv | ⟨p, hp, rfl⟩) | ⟨p', hp', rfl⟩
    · cases hcurrent : s.mCurrentBallot with
      | none => simp [hcurrent] at hv
      | some b =>
        have hv : b.counter ≠ 0 ∧ v = b.value := by simpa [hcurrent] using hv
        exact hv.2 ▸ h.current b hcurrent
    · exact h.prepared p hp
    · exact h.prime p' hp'
  | confirm _ hcurrent => exact List.mem_singleton.mp hv ▸ h.current _ hcurrent
  | @externalize c _ hphase hcommit =>
    obtain ⟨c', hb', b, hc', -, hcurrent, hvalue, hvalue'⟩ :=
      h.ordered.values (by simp [hphase])
    obtain rfl : c = c' := mem_unique hcommit hc'
    rw [List.mem_singleton.mp hv, hvalue, hvalue']
    exact h.current b hcurrent

end Sound

theorem values_ne_nil (htelling : Telling s) (hcounter : ∀ b ∈ s.mCurrentBallot, b.counter ≠ 0)
    (hst : statementOf slot s = some st) : getStatementValues st ≠ [] := by
  unfold getStatementValues
  cases says_of_statementOf hst with
  | prepare =>
    cases hcurrent : s.mCurrentBallot with
    | some b => simp [preparePledges, hcurrent, hcounter b hcurrent]
    | none =>
      obtain ⟨p, hp⟩ := Option.ne_none_iff_exists'.mp (htelling.resolve_left fun h => h hcurrent)
      simp [preparePledges, hp]
  | confirm | externalize => exact List.cons_ne_nil _ _

theorem validateValues_ne (hvalid : ∀ v ∈ getStatementValues st,
    slot.driver.validateValue v ≠ .kInvalidValue) (hne : getStatementValues st ≠ []) :
    validateValues slot st ≠ .kInvalidValue := by
  unfold validateValues
  rw [if_neg]
  · split_ifs <;> nofun
  · rintro (hnil | hmem)
    · exact hne (List.map_eq_nil_iff.mp hnil)
    · obtain ⟨v, hv, hinvalid⟩ := List.mem_map.mp hmem
      exact hvalid v hv hinvalid

end

end KinesisCore.BallotProtocol

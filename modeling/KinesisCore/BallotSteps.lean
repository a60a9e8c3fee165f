import KinesisCore.BallotOrder
import KinesisCore.BallotProtocol
import KinesisCore.KeyedFold

/-!
# The moves of the ballot protocol

Every step of the protocol first moves the node's ballots and then emits a statement.
Here the moves are told apart from the emissions: `Move` lists them with what holds
whenever one is made, and a property that the moves and the emissions respect is
respected by whole steps. The assertions between a test and the move it allows never
fail. What is left to a user of this module is the recursion, from a move through the
statement it makes to the next move.
-/

namespace KinesisCore.BallotProtocol

open EStateM BallotProtocol List

variable {Q : Bool → BallotProtocol → Prop} {ballot : SCPBallot} {α : Type} {p : α → Bool}
  {x : Option α}

theorem all_iff : x.all p = true ↔ ∀ a ∈ x, p a = true := by
  cases x <;> simp

theorem any_iff : x.any p = true ↔ ∃ a ∈ x, p a = true := by
  cases x <;> simp

theorem confirm_of_ne {s : BallotProtocol} (hprepare : s.mPhase ≠ .PREPARE)
    (hext : s.mPhase ≠ .EXTERNALIZE) : s.mPhase = .CONFIRM := by
  cases h : s.mPhase with
  | PREPARE => exact absurd h hprepare
  | CONFIRM => rfl
  | EXTERNALIZE => exact absurd h hext

/-! ## What a step leaves before it emits -/

variable (s : BallotProtocol)

/-- `updateCurrentIfNeeded`: the current ballot, raised to `h` if it is below. -/
def movedUp (h : SCPBallot) : BallotProtocol :=
  if s.mCurrentBallot.all fun b => compareBallots b h = .lt then s.bumpedTo h else s

/-- `setPrepared` for a ballot that is accepted. -/
inductive SetsPrepared (s : BallotProtocol) (ballot : SCPBallot) : BallotProtocol → Prop
  | first (hp : s.mPrepared = none) : SetsPrepared s ballot { s with mPrepared := some ballot }
  | raise (p : SCPBallot) (hp : s.mPrepared = some p) (hlt : p < ballot) :
      SetsPrepared s ballot { s with
        mPrepared := some ballot
        mPreparedPrime := if areBallotsCompatible p ballot then s.mPreparedPrime else some p }
  | prime (p : SCPBallot) (hp : s.mPrepared = some p) (hlt : ballot < p)
      (hvalue : ballot.value ≠ p.value) (hgt : ∀ p' ∈ s.mPreparedPrime, p' < ballot) :
      SetsPrepared s ballot { s with mPreparedPrime := some ballot }

/-- `setAcceptPrepared` up to its statement. -/
inductive Prepares (s : BallotProtocol) (ballot : SCPBallot) : BallotProtocol → Prop
  | keeping {s' : BallotProtocol} (hset : SetsPrepared s ballot s') : Prepares s ballot s'
  | clearing {s' : BallotProtocol} (hset : SetsPrepared s ballot s')
    (hphase : s.mPhase = .PREPARE) :
      Prepares s ballot { s' with mCommit := none }

/-- `setConfirmPrepared` up to the current ballot. -/
def confirmedPrepared (newC newH : SCPBallot) : BallotProtocol :=
  let compatible := s.mCurrentBallot.all (areBallotsCompatible · newH)
  { s with
    mValueOverride := some newH.value
    mHighBallot := if compatible then some newH else s.mHighBallot
    mCommit := if compatible && newC.counter ≠ 0 then some newC else s.mCommit }

/-- `setAcceptCommit` up to the current ballot: in phase PREPARE the ballot may go
back. -/
def acceptedCommit (c h : SCPBallot) : BallotProtocol :=
  let s := { s with mValueOverride := some h.value, mCommit := some c, mHighBallot := some h }
  if s.mPhase = .PREPARE then
    let s := { s with mPhase := .CONFIRM }
    { (if s.mCurrentBallot.any fun b => !areBallotsLessAndCompatible h b then s.bumpedTo h else s)
      with mPreparedPrime := none }
  else s

/-- `setConfirmCommit`. -/
def confirmedCommit (c h : SCPBallot) : BallotProtocol :=
  { ({ s with mCommit := some c, mHighBallot := some h } : BallotProtocol).movedUp h
    with mPhase := .EXTERNALIZE }

theorem movedUp_cases (h : SCPBallot) :
    ((∀ b ∈ s.mCurrentBallot, b < h) ∧ s.movedUp h = s.bumpedTo h)
      ∨ ((∃ b ∈ s.mCurrentBallot, h ≤ b) ∧ s.movedUp h = s) := by
  by_cases hall : (s.mCurrentBallot.all fun b => compareBallots b h = .lt) = true
  · refine .inl ⟨fun b hb => ?_, if_pos hall⟩
    have hlt := all_iff.mp hall b hb
    rwa [decide_eq_true_iff] at hlt
  · refine .inr ⟨?_, if_neg hall⟩
    rw [all_iff] at hall
    push Not at hall
    obtain ⟨b, hb, hnot⟩ := hall
    rw [ne_eq, decide_eq_true_iff, compareBallots_eq_lt, not_lt] at hnot
    exact ⟨b, hb, hnot⟩

theorem movedUp_ne_none (hb : SCPBallot) : (s.movedUp hb).mCurrentBallot ≠ none := by
  rcases movedUp_cases s hb with ⟨-, hmoved⟩ | ⟨⟨b, hb', -⟩, hmoved⟩
  · rw [hmoved]
    nofun
  · rw [hmoved, Option.mem_def.mp hb']
    nofun

section

variable {E : Failure → BallotProtocol → Prop} {s : BallotProtocol} {expression : Bool}

theorem wp_dbgAssert {Q : Unit → BallotProtocol → Prop} (hs : E .abort s)
    (hQ : expression = true → Q () s) : Wp E (dbgAssert expression) s Q := by
  unfold dbgAssert
  split
  · rename_i h
    exact hQ h
  · exact hs

theorem wp_dbgAssert_of {Q : Unit → BallotProtocol → Prop}
    (h : expression = true) (hQ : Q () s) : Wp E (dbgAssert expression) s Q := by
  rw [h]
  exact hQ

theorem wp_deref {α : Type} {p : Option α} {Q : α → BallotProtocol → Prop} (hs : E .abort s)
    (hQ : ∀ a, p = some a → Q a s) : Wp E (deref p) s Q := by
  cases p with
  | none => exact hs
  | some a => exact hQ a rfl

theorem wp_checkInvariants {Q : Unit → BallotProtocol → Prop} (hs : E .abort s)
    (hQ : s.invariantsHold = true → Q () s) : Wp E checkInvariants s Q := by
  unfold checkInvariants
  exact wp_dbgAssert hs hQ

theorem wp_bumpToBallot {check : Bool} {Q : Unit → BallotProtocol → Prop}
    (hphase : s.mPhase ≠ .EXTERNALIZE) (hcheck : check = true → ∀ b ∈ s.mCurrentBallot, b ≤ ballot)
    (hQ : Q () (s.bumpedTo ballot)) :
    Wp E (bumpToBallot ballot check) s Q := by
  have hassert :
      (!check || s.mCurrentBallot.all fun b => (compareBallots ballot b).isGE) = true := by
    cases check with
    | false => rfl
    | true =>
      rw [Bool.not_true, Bool.false_or, all_iff]
      exact fun b hb => isGE_compareBallots.mpr (hcheck rfl b hb)
  unfold bumpToBallot
  simp only [wp_bind, wp_get]
  exact wp_dbgAssert_of (decide_eq_true hphase) (wp_dbgAssert_of hassert hQ)

theorem wp_updateCurrentIfNeeded {h : SCPBallot} (hphase : s.mPhase ≠ .EXTERNALIZE)
    (hmoved : ∀ moved, (if moved then ∀ b ∈ s.mCurrentBallot, b < h else s.movedUp h = s) →
      Q moved (s.movedUp h)) :
    Wp E (updateCurrentIfNeeded h) s Q := by
  unfold updateCurrentIfNeeded
  simp only [wp_bind, wp_get]
  split
  · rename_i hall
    have hstate : s.movedUp h = s.bumpedTo h := if_pos hall
    have hlt : ∀ b ∈ s.mCurrentBallot, b < h := by
      intro b hb
      have hlt := all_iff.mp hall b hb
      rwa [decide_eq_true_iff] at hlt
    simp only [wp_bind, wp_pure]
    exact wp_bumpToBallot hphase (fun _ b hb => (hlt b hb).le) (hstate ▸ hmoved true hlt)
  · rename_i hall
    have hstate : s.movedUp h = s := if_neg hall
    have hQ := hmoved false hstate
    rwa [hstate] at hQ

/-- The ballot moves up, to one that `c` is compatible with, or it stays. -/
theorem wp_updateCurrentValue (hs : E .abort s) (hstay : Q false s)
    (hbump : s.mPhase ≠ .EXTERNALIZE → (∀ b ∈ s.mCurrentBallot, b < ballot) →
      (s.mCurrentBallot ≠ none → ∀ c ∈ s.mCommit, c.value = ballot.value) →
      E .abort (s.bumpedTo ballot) ∧ Q true (s.bumpedTo ballot)) :
    Wp E (updateCurrentValue ballot) s Q := by
  unfold updateCurrentValue
  simp only [wp_bind, wp_get]
  by_cases hext : s.mPhase = .EXTERNALIZE
  · rw [if_pos hext]
    exact hstay
  rw [if_neg hext]
  cases hcurrent : s.mCurrentBallot with
  | none =>
    obtain ⟨hE, hQ⟩ := hbump hext (by simp [hcurrent]) (by simp [hcurrent])
    simp only [wp_bind, wp_pure]
    refine wp_bumpToBallot hext (fun _ b hb => (by simp [hcurrent] at hb)) ?_
    exact wp_checkInvariants hE fun _ => hQ
  | some b =>
    simp only [wp_bind]
    refine wp_dbgAssert hs fun _ => ?_
    split_ifs with hcommit
    · exact hstay
    have hc : ∀ c ∈ s.mCommit, c.value = ballot.value := by
      intro c hc
      rw [Option.mem_def.mp hc, Option.any_some, Bool.not_eq_true', ← Bool.not_eq_true,
        compatible_iff, not_not] at hcommit
      exact hcommit
    cases hcompare : compareBallots b ballot with
    | lt =>
      have hlt : ∀ b' ∈ s.mCurrentBallot, b' < ballot := by
        intro b' hb'
        rw [hcurrent] at hb'
        cases hb'
        exact hcompare
      obtain ⟨hE, hQ⟩ := hbump hext hlt fun _ => hc
      simp only [wp_bind, wp_pure]
      refine wp_bumpToBallot hext (fun _ b hb => (hlt b hb).le) ?_
      exact wp_checkInvariants hE fun _ => hQ
    | gt => exact hstay
    | eq =>
      simp only [wp_bind, wp_pure]
      exact wp_checkInvariants hs fun _ => hstay

end

/-! ## When a step moves -/

/-- A ballot that can be accepted as prepared. -/
structure Preparable (slot : Slot) (hint : SCPStatement) (s : BallotProtocol) (ballot : SCPBallot) :
    Prop where
  phase : s.mPhase ≠ .EXTERNALIZE
  mem : ballot ∈ getPrepareCandidates s hint
  accepts : acceptsPrepared slot s ballot = true
  confirm : s.mPhase = .CONFIRM → ∃ p ∈ s.mPrepared, p ≤ ballot ∧ p.value = ballot.value

/-- Ballots that can be confirmed as prepared; a `newC` of counter zero is none. -/
structure Confirmable (slot : Slot) (hint : SCPStatement) (s : BallotProtocol)
    (newC newH : SCPBallot) : Prop where
  phase : s.mPhase = .PREPARE
  prepared : s.mPrepared ≠ none
  mem : newH ∈ getPrepareCandidates s hint
  ratified : ratifiesPrepared slot s newH = true
  raises : ∀ h ∈ s.mHighBallot, h < newH
  commit : newC.counter ≠ 0 → s.mCommit = none ∧ newC ≤ newH ∧ newC.value = newH.value

/-- Ballots from `c` to `h` whose commit can be accepted. -/
structure CommitAcceptable (hint : SCPStatement) (s : BallotProtocol) (c h : SCPBallot) :
    Prop where
  phase : s.mPhase ≠ .EXTERNALIZE
  hint : ∃ ballot, commitHint hint = some ballot ∧ ballot.value = h.value
  counter : c.counter ≠ 0
  le : c ≤ h
  value : c.value = h.value
  confirm : s.mPhase = .CONFIRM →
    ∃ hb ∈ s.mHighBallot, hb.value = h.value ∧ hb.counter.toNat < h.counter.toNat

/-- Ballots from `c` to `h` whose commit can be confirmed. -/
structure CommitConfirmable (hint : SCPStatement) (s : BallotProtocol) (c h : SCPBallot) :
    Prop where
  phase : s.mPhase = .CONFIRM
  counter : c.counter ≠ 0
  le : c ≤ h
  value : c.value = h.value
  commit : ∃ c₀ ∈ s.mCommit, c₀.value = c.value

/-- What processing a statement can do to the node's ballots. -/
inductive Move (slot : Slot) (hint : SCPStatement) (s : BallotProtocol) : BallotProtocol → Prop
  | prepared {ballot : SCPBallot} {s' : BallotProtocol} (h : Preparable slot hint s ballot)
      (hset : Prepares s ballot s') : Move slot hint s s'
  | confirmPrepared {newC newH : SCPBallot} (h : Confirmable slot hint s newC newH)
      (hmoves : (∀ b ∈ s.mCurrentBallot, b.value = newH.value) ∨ ∀ b ∈ s.mCurrentBallot, b < newH) :
      Move slot hint s ((s.confirmedPrepared newC newH).movedUp newH)
  | acceptCommit {c h : SCPBallot} (hc : CommitAcceptable hint s c h) :
      Move slot hint s ((s.acceptedCommit c h).movedUp h)
  | confirmCommit {c h : SCPBallot} (hc : CommitConfirmable hint s c h) :
      Move slot hint s (s.confirmedCommit c h)

/-- A ballot to bump to. Its value is the one that stands, the one of the current
ballot, or one of those on offer. -/
structure Bumpable (offered : Value → Prop) (s : BallotProtocol) (ballot : SCPBallot) : Prop where
  phase : s.mPhase ≠ .EXTERNALIZE
  counter : ballot.counter ≠ 0
  lt : ∀ b ∈ s.mCurrentBallot, b < ballot
  commit : s.mCurrentBallot ≠ none → ∀ c ∈ s.mCommit, c.value = ballot.value
  value : s.mValueOverride = some ballot.value ∨ (∃ b ∈ s.mCurrentBallot, b.value = ballot.value)
    ∨ offered ballot.value

/-! ## Step 1 and 5 -/

section

variable {slot : Slot} {hint : SCPStatement} {E : Failure → BallotProtocol → Prop}
  {I A : BallotProtocol → Prop} {emit : BallotM Unit} {s : BallotProtocol}

theorem wp_setPrepared (haccepts : acceptsPrepared slot s ballot = true)
    (hQ : ∀ s', SetsPrepared s ballot s' → Q true s') : Wp E (setPrepared ballot) s Q := by
  unfold acceptsPrepared at haccepts
  rw [Bool.and_eq_true, Bool.and_eq_true, Bool.not_eq_true', Bool.not_eq_true'] at haccepts
  obtain ⟨⟨hnotPrime, hnotPrepared⟩, -⟩ := haccepts
  have hgt : ∀ p' ∈ s.mPreparedPrime, p' < ballot := by
    intro p' hp'
    rw [Option.mem_def.mp hp', Option.any_some, ← Bool.not_eq_true] at hnotPrime
    exact not_le.mp hnotPrime
  unfold setPrepared
  simp only [wp_bind, wp_get]
  split
  · rename_i hp
    exact hQ _ (.first hp)
  · rename_i p hp
    rw [hp, Option.any_some, ← Bool.not_eq_true, lessAndCompatible_iff, not_and] at hnotPrepared
    split
    · rename_i hcompare
      exact hQ _ (.raise p hp hcompare)
    · rename_i hcompare
      have hlt := compareBallots_eq_gt.mp hcompare
      have hvalue := hnotPrepared hlt.le
      have hall : (s.mPreparedPrime.all fun p' =>
          compareBallots p' ballot = .lt && !areBallotsCompatible p ballot) = true := by
        rw [all_iff]
        intro p' hp'
        rw [Bool.and_eq_true, decide_eq_true_iff, Bool.not_eq_true', ← Bool.not_eq_true,
          compatible_iff]
        exact ⟨hgt p' hp', fun heq => hvalue heq.symm⟩
      rw [if_pos hall]
      exact hQ _ (.prime p hp hlt hvalue hgt)
    · rename_i hcompare
      obtain rfl := eq_of_compareBallots hcompare
      exact absurd rfl (hnotPrepared le_rfl)

theorem SetsPrepared.phase {s' : BallotProtocol} (h : SetsPrepared s ballot s') :
    s'.mPhase = s.mPhase := by
  cases h <;> rfl

theorem wp_setAcceptPrepared (h : Preparable slot hint s ballot)
    (habort : ∀ s', SetsPrepared s ballot s' → E .abort s')
    (hQ : ∀ s', Prepares s ballot s' → Wp E emit s' fun _ => Q true) :
    Wp E (setAcceptPrepared emit ballot) s Q := by
  unfold setAcceptPrepared
  simp only [wp_bind]
  refine wp_setPrepared h.accepts fun s' hset => ?_
  unfold clearCommit
  simp only [wp_bind, wp_get]
  split
  · simp only [wp_bind]
    refine wp_dbgAssert (habort s' hset) fun hphase => ?_
    have hphase : s'.mPhase = .PREPARE := of_decide_eq_true hphase
    simp only [wp_set, wp_pure, Bool.true_or, if_true, wp_bind]
    exact hQ _ (.clearing hset (hset.phase ▸ hphase))
  · simp only [wp_pure, Bool.true_or, if_true, wp_bind]
    exact hQ s' (.keeping hset)

theorem wp_mayRaisePrepared (hs : E .abort s) (hno : s.mPhase = .CONFIRM → Q false s)
    (hyes : (s.mPhase = .CONFIRM → ∃ p ∈ s.mPrepared, p ≤ ballot ∧ p.value = ballot.value) →
      Q true s) :
    Wp E (mayRaisePrepared ballot) s Q := by
  unfold mayRaisePrepared
  simp only [wp_bind, wp_get]
  split
  · rename_i hphase
    rw [wp_bind]
    refine wp_deref hs fun p hp => ?_
    split
    · rename_i hcompat
      rw [wp_bind]
      refine wp_deref hs fun c _ => ?_
      rw [wp_bind]
      exact wp_dbgAssert hs fun _ => hyes fun _ => ⟨p, hp, lessAndCompatible_iff.mp hcompat⟩
    · exact hno hphase
  · rename_i hphase
    exact hyes hphase.elim

variable (ballots : List SCPBallot)

theorem descendingBallots_pairwise : (descendingBallots ballots).Pairwise fun b1 b2 => b2 ≤ b1 :=
  pairwise_insertionSort _ _

/-- The first ballot that can be accepted is accepted; no other candidate is above it. -/
theorem wp_acceptFirst (habort : E .abort s) (hphase : s.mPhase ≠ .EXTERNALIZE)
    (ballots : List SCPBallot) (hmem : ∀ ballot ∈ ballots, ballot ∈ getPrepareCandidates s hint)
    (hsorted : ballots.Pairwise fun b1 b2 => b2 ≤ b1)
    (hno : (s.mPhase = .PREPARE → ∀ ballot ∈ ballots, acceptsPrepared slot s ballot = false) →
      Q false s) (hyes : ∀ ballot, Preparable slot hint s ballot →
      (s.mPhase = .PREPARE → ∀ b ∈ ballots, acceptsPrepared slot s b = false ∨ b ≤ ballot) →
      (∀ s', SetsPrepared s ballot s' → E .abort s')
        ∧ ∀ s', Prepares s ballot s' → Wp E emit s' fun _ => Q true) :
    Wp E (acceptFirst slot emit ballots) s Q := by
  induction ballots with
  | nil => exact hno fun _ => nofun
  | cons ballot rest ih =>
    obtain ⟨hbelow, hrestSorted⟩ := pairwise_cons.mp hsorted
    have hrest : (s.mPhase = .PREPARE → acceptsPrepared slot s ballot = false) →
        Wp E (acceptFirst slot emit rest) s Q := by
      intro hskip
      refine ih (fun b hb => hmem b (mem_cons_of_mem _ hb)) hrestSorted (fun hnone => hno ?_)
        fun b hb hfirst => hyes b hb ?_
      · intro hprepare b hb
        rcases mem_cons.mp hb with rfl | hb
        · exact hskip hprepare
        · exact hnone hprepare b hb
      · intro hprepare b' hb'
        rcases mem_cons.mp hb' with rfl | hb'
        · exact .inl (hskip hprepare)
        · exact hfirst hprepare b' hb'
    unfold acceptFirst
    simp only [wp_bind, wp_get]
    refine wp_mayRaisePrepared habort ?_ ?_
    · exact fun hconfirm => hrest fun hprepare => by rw [hconfirm] at hprepare; cases hprepare
    · intro hconfirm
      simp only [if_true]
      split
      · rename_i haccepts
        have h : Preparable slot hint s ballot :=
          ⟨hphase, hmem ballot mem_cons_self, haccepts, hconfirm⟩
        obtain ⟨hE, hQ⟩ := hyes ballot h fun _ b hb => by
          rcases mem_cons.mp hb with rfl | hb
          · exact .inr le_rfl
          · exact .inr (hbelow b hb)
        exact wp_setAcceptPrepared h hE hQ
      · rename_i haccepts
        exact hrest fun _ => Bool.eq_false_iff.mpr haccepts

theorem wp_attemptAcceptPrepared (habort : E .abort s) (hext : s.mPhase = .EXTERNALIZE → Q false s)
    (hno : (s.mPhase = .PREPARE → ∀ ballot ∈ getPrepareCandidates s hint,
      acceptsPrepared slot s ballot = false) → Q false s)
    (hyes : ∀ ballot, Preparable slot hint s ballot →
      (s.mPhase = .PREPARE → ∀ b ∈ getPrepareCandidates s hint,
        acceptsPrepared slot s b = false ∨ b ≤ ballot) →
      (∀ s', SetsPrepared s ballot s' → E .abort s')
        ∧ ∀ s', Prepares s ballot s' → Wp E emit s' fun _ => Q true) :
    Wp E (attemptAcceptPrepared slot emit hint) s Q := by
  unfold attemptAcceptPrepared
  simp only [wp_bind, wp_get]
  split
  · rename_i h
    exact hext h
  · rename_i hphase
    exact wp_acceptFirst habort hphase _ (fun _ h => h) (descendingBallots_pairwise _) hno hyes

/-! ## Step 2, 3 and 8 -/

variable {newH c h : SCPBallot} {pred : Interval → Bool} {candidate : Interval}

theorem findNewH_eq_some {ballots rest : List SCPBallot}
    (h : findNewH slot s ballots = some (newH, rest)) :
    newH ∈ ballots ∧ ratifiesPrepared slot s newH = true ∧ ∀ hb ∈ s.mHighBallot, hb < newH := by
  induction ballots with
  | nil => cases h
  | cons ballot ballots ih =>
    unfold findNewH at h
    split_ifs at h with hhigh hratify
    · cases h
      refine ⟨mem_cons_self, hratify, fun hb hhb => ?_⟩
      by_contra hle
      exact hhigh (any_iff.mpr ⟨hb, hhb, isGE_compareBallots.mpr (not_lt.mp hle)⟩)
    · obtain ⟨hmem, hrest⟩ := ih h
      exact ⟨mem_cons_of_mem _ hmem, hrest⟩

theorem findNewC_spec {b : SCPBallot} :
    ∀ {newC : SCPBallot}, (newC.counter ≠ 0 → newC ≤ newH ∧ newC.value = newH.value) →
      (findNewC slot s b newH newC ballots).counter ≠ 0 →
      findNewC slot s b newH newC ballots ≤ newH
        ∧ (findNewC slot s b newH newC ballots).value = newH.value := by
  induction ballots with
  | nil => exact fun h => h
  | cons ballot ballots ih =>
    intro newC hnewC
    unfold findNewC
    split_ifs with hlt hcompat
    · exact hnewC
    · exact ih hnewC
    · rw [Bool.not_eq_true', ← Bool.not_eq_true, lessAndCompatible_iff, not_not] at hcompat
      exact ih fun _ => hcompat
    · exact hnewC

theorem wp_setConfirmPrepared {newC : SCPBallot} (h : Confirmable slot hint s newC newH)
    (hno : Q false { s with mValueOverride := some newH.value })
    (hQ : (∀ b ∈ s.mCurrentBallot, b.value = newH.value) ∨ (∀ b ∈ s.mCurrentBallot, b < newH) →
      Wp E emit ((s.confirmedPrepared newC newH).movedUp newH) fun _ => Q true) :
    Wp E (setConfirmPrepared emit newC newH) s Q := by
  have hraises : (s.mHighBallot.all fun hb => compareBallots newH hb = .gt) = true := by
    rw [all_iff]
    exact fun hb hhb => decide_eq_true (compareBallots_eq_gt.mpr (h.raises hb hhb))
  have hassert : (!(s.mCurrentBallot.all (areBallotsCompatible · newH) && decide (newC.counter ≠ 0))
      || s.mCommit.isNone) = true := by
    by_cases hcounter : newC.counter ≠ 0
    · rw [(h.commit hcounter).1]
      simp
    · simp [hcounter]
  unfold setConfirmPrepared
  simp only [wp_bind, wp_get, wp_set]
  refine wp_dbgAssert_of hassert ?_
  have hstate : ({ s with
      mValueOverride := some newH.value
      mHighBallot := if (s.mCurrentBallot.all (areBallotsCompatible · newH)
        && s.mHighBallot.all fun hb => compareBallots newH hb = .gt) = true then some newH
        else s.mHighBallot
      mCommit := if (s.mCurrentBallot.all (areBallotsCompatible · newH)
        && decide (newC.counter ≠ 0)) = true then some newC else s.mCommit } : BallotProtocol) =
      s.confirmedPrepared newC newH := by
    rw [hraises, Bool.and_true]
    rfl
  rw [hstate]
  refine wp_updateCurrentIfNeeded (by show s.mPhase ≠ _; simp [h.phase]) ?_
  intro updated hupdated
  split
  · rename_i hdidWork
    simp only [wp_bind, wp_pure]
    refine hQ ?_
    by_cases hcompat : s.mCurrentBallot.all (areBallotsCompatible · newH) = true
    · exact .inl fun b hb => compatible_iff.mp (all_iff.mp hcompat b hb)
    · rw [Bool.eq_false_iff.mpr hcompat] at hdidWork
      cases updated with
      | false => cases hdidWork
      | true => exact .inr hupdated
  · rename_i hnone
    rw [hraises, Bool.and_true, Bool.or_eq_true, Bool.or_eq_true, not_or, not_or,
      Bool.not_eq_true, Bool.not_eq_true] at hnone
    rw [hnone.1.1] at hupdated
    rw [hupdated, confirmedPrepared, hnone.1.2]
    exact hno

theorem wp_attemptConfirmPrepared (hno : Q false s)
    (hyes : ∀ newC newH, Confirmable slot hint s newC newH →
      Q false { s with mValueOverride := some newH.value }
        ∧ ((∀ b ∈ s.mCurrentBallot, b.value = newH.value) ∨ (∀ b ∈ s.mCurrentBallot, b < newH) →
          Wp E emit ((s.confirmedPrepared newC newH).movedUp newH) fun _ => Q true)) :
    Wp E (attemptConfirmPrepared slot emit hint) s Q := by
  unfold attemptConfirmPrepared
  simp only [wp_bind, wp_get]
  split
  · exact hno
  · rename_i hphase
    rw [not_or, not_not] at hphase
    split
    · exact hno
    · rename_i newH rest hfound
      obtain ⟨hmem, hratified, hraises⟩ := findNewH_eq_some hfound
      have hset : ∀ newC : SCPBallot, (newC.counter ≠ 0 →
          s.mCommit = none ∧ newC ≤ newH ∧ newC.value = newH.value) →
          Wp E (setConfirmPrepared emit newC newH) s Q := by
        intro newC hcommit
        have h : Confirmable slot hint s newC newH :=
          ⟨hphase.1, fun hnone => hphase.2 (by rw [hnone]; rfl), hmem, hratified, hraises, hcommit⟩
        exact wp_setConfirmPrepared h (hyes newC newH h).1 (hyes newC newH h).2
      refine hset _ fun hcounter => ?_
      split_ifs at hcounter ⊢ with hsearch
      · rw [Bool.and_eq_true, Bool.and_eq_true] at hsearch
        exact ⟨Option.isNone_iff_eq_none.mp hsearch.1.1,
          findNewC_spec rest (absurd rfl) hcounter⟩
      · exact absurd rfl hcounter

/-! ## Step 4, 6 and 8 -/

theorem le_of_findExtendedInterval (boundaries : List UInt32) :
    ∀ {candidate : Interval}, candidate.1 ≤ candidate.2 →
      (findExtendedInterval pred candidate boundaries).1 ≤
        (findExtendedInterval pred candidate boundaries).2 := by
  induction boundaries with
  | nil => exact fun h => h
  | cons b boundaries ih =>
    intro candidate h
    unfold findExtendedInterval
    split_ifs with hzero hpred hgt hpred
    · exact ih (UInt32.le_refl b)
    · exact ih h
    · exact ih h
    · exact ih (UInt32.not_lt.mp hgt)
    · exact h

/-- An interval that was found passes the test. -/
theorem pred_of_findExtendedInterval {boundaries : List UInt32}
    (hcandidate : candidate.1 ≠ 0 → pred candidate = true)
    (hfound : (findExtendedInterval pred candidate boundaries).1 ≠ 0) :
    pred (findExtendedInterval pred candidate boundaries) = true := by
  induction boundaries generalizing candidate with
  | nil => exact hcandidate hfound
  | cons b boundaries ih =>
    unfold findExtendedInterval at hfound ⊢
    split_ifs at hfound ⊢ with _ hpred _ hpred
    · exact ih (fun _ => hpred) hfound
    · exact ih hcandidate hfound
    · exact ih hcandidate hfound
    · exact ih (fun _ => hpred) hfound
    · exact hcandidate hfound

/-- From an interval that was found, the low end goes down as far as the test passes. -/
theorem findExtendedInterval_low {hi : UInt32} {boundaries : List UInt32} :
    ∀ {lo : UInt32}, lo ≠ 0 → lo ≤ hi → pred (lo, hi) = true → 0 ∉ boundaries →
      (lo :: boundaries).Pairwise (· > ·) →
      (∀ b ∈ boundaries, ∀ b' ∈ boundaries, b' ≤ b → pred (b', hi) = true → pred (b, hi) = true) →
      ∃ lo' ∈ lo :: boundaries, findExtendedInterval pred (lo, hi) boundaries = (lo', hi)
        ∧ ∀ b ∈ lo :: boundaries, pred (b, hi) = true ↔ lo' ≤ b := by
  induction boundaries with
  | nil =>
    intro lo _ _ hlo _ _ _
    exact ⟨lo, mem_cons_self, rfl, by simp [hlo]⟩
  | cons b boundaries ih =>
    intro lo hne hle hlo hzero hsorted hmono
    obtain ⟨hbelow, hsorted⟩ := pairwise_cons.mp hsorted
    have hlt : b < lo := hbelow b mem_cons_self
    have hb : b ≤ hi := UInt32.le_of_lt (UInt32.lt_of_lt_of_le hlt hle)
    rw [findExtendedInterval, if_neg hne, if_neg (UInt32.not_lt.mpr hb)]
    split_ifs with hpred
    · obtain ⟨lo', hmem, heq, hiff⟩ := ih (fun h0 => hzero (h0 ▸ mem_cons_self)) hb hpred
        (fun h0 => hzero (mem_cons_of_mem b h0)) hsorted
        fun b hb b' hb' => hmono b (.tail _ hb) b' (.tail _ hb')
      refine ⟨lo', .tail _ hmem, heq, forall_mem_cons.mpr ⟨iff_of_true hlo ?_, hiff⟩⟩
      exact UInt32.le_trans ((hiff b mem_cons_self).mp hpred) (UInt32.le_of_lt hlt)
    · -- no lower boundary passes where this one does not
      refine ⟨lo, mem_cons_self, rfl, forall_mem_cons.mpr
        ⟨iff_of_true hlo (UInt32.le_refl lo), fun x hx => iff_of_false (fun hpass => hpred ?_)
          (UInt32.not_le.mpr (hbelow x hx))⟩⟩
      refine hmono b mem_cons_self x hx ?_ hpass
      rcases mem_cons.mp hx with rfl | hx
      · exact UInt32.le_refl x
      · exact UInt32.le_of_lt ((pairwise_cons.mp hsorted).1 x hx)

/-- Without a candidate, the first boundary that passes becomes the high end. -/
theorem findExtendedInterval_high {boundaries : List UInt32} (hzero : 0 ∉ boundaries)
    (hsorted : boundaries.Pairwise (· > ·))
    (hmono : ∀ lo ∈ boundaries, ∀ hi ∈ boundaries, ∀ b ∈ boundaries, b ≤ lo → lo ≤ hi →
      pred (b, hi) = true → pred (lo, hi) = true) :
    findExtendedInterval pred (0, 0) boundaries = (0, 0) ∧ (∀ b ∈ boundaries, pred (b, b) = false)
      ∨ ∃ lo ∈ boundaries, ∃ hi ∈ boundaries,
        findExtendedInterval pred (0, 0) boundaries = (lo, hi) ∧ pred (hi, hi) = true
        ∧ (∀ b ∈ boundaries, pred (b, b) = true → b ≤ hi)
        ∧ ∀ b ∈ boundaries, b ≤ hi → (pred (b, hi) = true ↔ lo ≤ b) := by
  induction boundaries with
  | nil => exact .inl ⟨rfl, by simp⟩
  | cons b boundaries ih =>
    rw [mem_cons, not_or] at hzero
    obtain ⟨hbelow, hrest⟩ := pairwise_cons.mp hsorted
    have hle : ∀ x ∈ b :: boundaries, x ≤ b :=
      forall_mem_cons.mpr ⟨UInt32.le_refl b, fun x hx => UInt32.le_of_lt (hbelow x hx)⟩
    rw [findExtendedInterval, if_pos rfl]
    split_ifs with hpred
    · obtain ⟨lo, hmem, heq, hiff⟩ := findExtendedInterval_low (Ne.symm hzero.1)
        (UInt32.le_refl b) hpred hzero.2 hsorted fun lo hlo b' hb' hb'lo =>
          hmono lo (.tail _ hlo) b mem_cons_self b' (.tail _ hb') hb'lo (hle lo (.tail _ hlo))
      exact .inr ⟨lo, hmem, b, mem_cons_self, heq, hpred, fun x hx _ => hle x hx,
        fun x hx _ => hiff x hx⟩
    · rw [Bool.not_eq_true] at hpred
      obtain ⟨hnone, hall⟩ | ⟨lo, hlo, hi, hhi, heq, hpass, hmax, hiff⟩ :=
        ih hzero.2 hrest fun lo hlo hi hhi b' hb' =>
          hmono lo (.tail _ hlo) hi (.tail b hhi) b' (.tail _ hb')
      · exact .inl ⟨hnone, forall_mem_cons.mpr ⟨hpred, hall⟩⟩
      · refine .inr ⟨lo, .tail _ hlo, hi, .tail _ hhi, heq, hpass,
          forall_mem_cons.mpr ⟨by simp [hpred], hmax⟩,
          forall_mem_cons.mpr ⟨fun hle => ?_, hiff⟩⟩
        exact absurd (hbelow hi hhi) (UInt32.not_lt.mpr hle)

/-- The interval that is found is none iff no boundary passes by itself. Otherwise it passes,
its high end is the greatest boundary that passes, and it reaches down as far as the test
passes. -/
theorem findExtendedInterval_maximal {pred : Interval → Bool} {boundaries : List UInt32}
    (hpos : 0 ∉ boundaries)
    (hmono : ∀ lo ∈ boundaries, ∀ hi ∈ boundaries, ∀ lo' ∈ boundaries, ∀ hi' ∈ boundaries,
      lo ≤ lo' → lo' ≤ hi' → hi' ≤ hi → pred (lo, hi) = true → pred (lo', hi') = true) :
    let i := findExtendedInterval pred (0, 0) (descendingCounters boundaries)
    (i = (0, 0) ↔ ∀ b ∈ boundaries, pred (b, b) = false)
      ∧ (i ≠ (0, 0) → pred i = true ∧ i.2 ∈ boundaries ∧ pred (i.2, i.2) = true
        ∧ (∀ b ∈ boundaries, pred (b, b) = true → b ≤ i.2) ∧ i.1 ∈ boundaries ∧ i.1 ≤ i.2
        ∧ ∀ b ∈ boundaries, b ≤ i.2 → (pred (b, i.2) = true ↔ i.1 ≤ b)) := by
  intro i
  have hsorted : (descendingCounters boundaries).Pairwise (· > ·) :=
    ((pairwise_insertionSort _ _).and ((perm_insertionSort _ _).nodup_iff.mpr (nodup_dedup _))).imp
      fun h => UInt32.lt_of_le_of_ne h.1 h.2.symm
  have hmem : ∀ b, b ∈ descendingCounters boundaries ↔ b ∈ boundaries := by
    simp [descendingCounters]
  have hspec := @findExtendedInterval_high pred _ (by rwa [hmem]) hsorted
  simp only [hmem] at hspec
  obtain ⟨hnone, hall⟩ | ⟨lo, hlo, hi, hhi, heq, hpass, hmax, hiff⟩ :=
    hspec fun lo hlo hi hhi b hb hle hle' =>
      hmono b hb hi hhi lo hlo hi hhi hle hle' (UInt32.le_refl hi)
  · exact ⟨iff_of_true hnone hall, fun hne => absurd hnone hne⟩
  · have hi_eq : i = (lo, hi) := heq
    have hle : lo ≤ hi := (hiff hi hhi (UInt32.le_refl hi)).mp hpass
    rw [hi_eq]
    refine ⟨iff_of_false ?_ ?_, fun _ =>
      ⟨(hiff lo hlo hle).mpr (UInt32.le_refl lo), hhi, hpass, hmax, hlo, hle, hiff⟩⟩
    · rintro ⟨⟩
      exact hpos hlo
    · intro hall
      simp [hall hi hhi] at hpass

/-- Counters from 2 on pass. -/
theorem findExtendedInterval_maximal_two :
    let i := findExtendedInterval (fun i => 2 ≤ i.1) (0, 0) (descendingCounters [1, 3, 2])
    i = (2, 3) ∧ ∀ b ∈ [1, 3, 2], b ≤ i.2 → (decide (2 ≤ b) = true ↔ i.1 ≤ b) :=
  ⟨by decide, ((findExtendedInterval_maximal (by decide) fun _ _ _ _ _ _ _ _ hle _ _ h =>
    decide_eq_true (UInt32.le_trans (of_decide_eq_true h) hle)).2 (by decide)).2.2.2.2.2.2⟩

/-- The ends of an interval as ballots. -/
theorem ballots_le {n m : UInt32} (h : n ≤ m) (value : Value) :
    (⟨n, value⟩ : SCPBallot) ≤ ⟨m, value⟩ :=
  le_of_counter_le (UInt32.le_iff_toNat_le.mp h) rfl

theorem acceptedCommit_high (s : BallotProtocol) (c h : SCPBallot) :
    (s.acceptedCommit c h).mHighBallot = some h := by
  unfold acceptedCommit
  dsimp only
  split_ifs
  · show (if (some h).all (areBallotsCompatible h ·) then some h else none) = some h
    rw [Option.all_some, if_pos (compatible_iff.mpr rfl)]
  · rfl
  · rfl

theorem acceptedCommit_commit (s : BallotProtocol) (c h : SCPBallot) :
    (s.acceptedCommit c h).mCommit = some c := by
  unfold acceptedCommit
  dsimp only
  split_ifs
  · show (if (some h).all (areBallotsCompatible h ·) then some c else none) = some c
    rw [Option.all_some, if_pos (compatible_iff.mpr rfl)]
  · rfl
  · rfl

theorem acceptedCommit_phase (s : BallotProtocol) (c h : SCPBallot)
    (hphase : s.mPhase ≠ .EXTERNALIZE) : (s.acceptedCommit c h).mPhase = .CONFIRM := by
  unfold acceptedCommit
  dsimp only
  split_ifs with hprepare
  · rfl
  · rfl
  · exact confirm_of_ne hprepare hphase

theorem acceptedCommit_fields (s : BallotProtocol) (c h : SCPBallot) :
    (s.acceptedCommit c h).mPrepared = s.mPrepared
      ∧ (∀ p' ∈ (s.acceptedCommit c h).mPreparedPrime, p' ∈ s.mPreparedPrime)
      ∧ (s.acceptedCommit c h).mValueOverride = some h.value
      ∧ (s.acceptedCommit c h).mLatestEnvelopes = s.mLatestEnvelopes
      ∧ (s.acceptedCommit c h).signed = s.signed := by
  unfold acceptedCommit
  dsimp only
  split_ifs <;> simp [BallotProtocol.bumpedTo]

theorem wp_enterConfirm (hQ : Q (decide (s.mPhase = .PREPARE)) (s.acceptedCommit c h)) :
    Wp E (enterConfirm h)
      { s with mValueOverride := some h.value, mCommit := some c, mHighBallot := some h } Q := by
  unfold enterConfirm
  simp only [wp_bind, wp_get]
  unfold acceptedCommit at hQ
  dsimp only at hQ
  by_cases hprepare : s.mPhase = .PREPARE
  · rw [if_pos hprepare] at hQ
    rw [if_pos hprepare]
    rw [decide_eq_true hprepare] at hQ
    simp only [wp_bind, wp_set]
    split
    · rename_i hbump
      rw [if_pos hbump] at hQ
      simp only [wp_bind, wp_modify, wp_pure]
      exact wp_bumpToBallot (by simp) (by simp) hQ
    · rename_i hbump
      rw [if_neg hbump] at hQ
      exact hQ
  · rw [if_neg hprepare] at hQ
    rw [if_neg hprepare]
    rwa [decide_eq_false hprepare] at hQ

theorem wp_setAcceptCommit (hc : CommitAcceptable hint s c h)
    (hQ : Wp E emit ((s.acceptedCommit c h).movedUp h) fun _ => Q true) :
    Wp E (setAcceptCommit emit c h) s Q := by
  unfold setAcceptCommit
  simp only [wp_bind, wp_get, wp_set]
  set moves := s.mHighBallot.all (compareBallots · h ≠ .eq)
    || s.mCommit.all (compareBallots · c ≠ .eq) with hmoves
  -- whether they are set now or were there already, `c` and `h` are in place
  have hstate : ({ s with
      mValueOverride := some h.value
      mCommit := if moves then some c else s.mCommit
      mHighBallot := if moves then some h else s.mHighBallot } : BallotProtocol) =
      { s with mValueOverride := some h.value, mCommit := some c, mHighBallot := some h } := by
    cases hm : moves with
    | true => rfl
    | false =>
      rw [hm, eq_comm, Bool.or_eq_false_iff] at hmoves
      obtain ⟨hhigh, hcommit⟩ := hmoves
      simp only [Option.all_eq_false, decide_eq_false_iff_not, not_not] at hhigh hcommit
      obtain ⟨b, hb, hbh⟩ := hhigh
      obtain ⟨b', hb', hbc⟩ := hcommit
      simp [hb, hb', eq_of_compareBallots hbh, eq_of_compareBallots hbc]
  -- in phase CONFIRM `h` is raised
  have hdidWork : (moves || decide (s.mPhase = .PREPARE)) = true := by
    by_cases hprepare : s.mPhase = .PREPARE
    · rw [decide_eq_true hprepare, Bool.or_true]
    · obtain ⟨hb, hhb, -, hlt⟩ := hc.confirm (confirm_of_ne hprepare hc.phase)
      have hne : hb ≠ h := fun heq => by rw [heq] at hlt; exact absurd hlt (lt_irrefl _)
      have hall : (s.mHighBallot.all (compareBallots · h ≠ .eq)) = true := by
        rw [Option.mem_def.mp hhb]
        exact decide_eq_true fun heq => hne (compareBallots_eq_eq.mp heq)
      rw [hmoves, hall, Bool.true_or, Bool.true_or]
  rw [hstate]
  refine wp_enterConfirm ?_
  rw [if_pos hdidWork]
  simp only [wp_bind, wp_get, wp_pure]
  rw [acceptedCommit_high]
  show Wp E (updateCurrentIfNeeded h) _ _
  refine wp_updateCurrentIfNeeded ?_ fun _ _ => hQ
  rw [acceptedCommit_phase s c h hc.phase]
  exact SCPPhase.noConfusion

theorem wp_mayAcceptCommit (hs : E .abort s) (hno : Q false s)
    (hyes : (s.mPhase = .CONFIRM → ∃ h ∈ s.mHighBallot, h.value = ballot.value) → Q true s) :
    Wp E (mayAcceptCommit ballot) s Q := by
  unfold mayAcceptCommit
  simp only [wp_bind, wp_get]
  split
  · simp only [wp_bind, wp_pure]
    refine wp_deref hs fun h hh => ?_
    cases hcompat : areBallotsCompatible ballot h with
    | false => exact hno
    | true => exact hyes fun _ => ⟨h, hh, (compatible_iff.mp hcompat).symm⟩
  · rename_i hphase
    exact hyes hphase.elim

theorem wp_raisesHigh (hs : E .abort s) (hno : Q false s)
    (hyes : (s.mPhase = .CONFIRM → ∀ h ∈ s.mHighBallot, h.counter < candidate.2) → Q true s) :
    Wp E (raisesHigh candidate) s Q := by
  unfold raisesHigh
  simp only [wp_bind, wp_get]
  split
  · simp only [wp_bind, wp_pure]
    refine wp_deref hs fun h hh => ?_
    by_cases hlt : candidate.2 > h.counter
    · rw [decide_eq_true hlt]
      refine hyes fun _ h' hh' => ?_
      rw [hh] at hh'
      rwa [← Option.some.inj hh']
    · rw [decide_eq_false hlt]
      exact hno
  · rename_i hphase
    exact hyes hphase.elim

theorem wp_attemptAcceptCommit (hs : E .abort s) (hno : Q false s)
    (hyes : ∀ c h, CommitAcceptable hint s c h →
      Wp E emit ((s.acceptedCommit c h).movedUp h) fun _ => Q true) :
    Wp E (attemptAcceptCommit slot emit hint) s Q := by
  unfold attemptAcceptCommit
  simp only [wp_bind, wp_get]
  split
  · exact hno
  · rename_i hext
    split
    · exact hno
    · rename_i ballot hhint
      rw [wp_bind]
      refine wp_mayAcceptCommit hs hno fun hvalue => ?_
      simp only [if_true]
      split
      · rename_i hcounter
        rw [wp_bind]
        refine wp_raisesHigh hs hno fun hraises => ?_
        have hle := @le_of_findExtendedInterval (acceptsCommit slot s ballot)
          (getCommitBoundariesFromStatements s ballot) (0, 0) (UInt32.le_refl 0)
        refine wp_setAcceptCommit ?hc (hyes _ _ ?hc)
        refine ⟨hext, ⟨ballot, hhint, rfl⟩, hcounter, ballots_le hle _, rfl, fun hconfirm => ?_⟩
        obtain ⟨h, hh, hvalue⟩ := hvalue hconfirm
        exact ⟨h, hh, hvalue, UInt32.lt_iff_toNat_lt.mp (hraises hconfirm h hh)⟩
      · exact hno

/-! ## Step 7 and 8 -/

theorem wp_setConfirmCommit (hphase : s.mPhase = .CONFIRM)
    (hQ : Wp E emit (s.confirmedCommit c h) fun _ => Q true) :
    Wp E (setConfirmCommit emit c h) s Q := by
  unfold setConfirmCommit
  simp only [wp_bind, wp_modify, wp_pure]
  refine wp_updateCurrentIfNeeded ?_ fun _ _ => hQ
  show s.mPhase ≠ _
  rw [hphase]
  exact SCPPhase.noConfusion

/-- A commit is confirmed that a quorum has accepted. -/
theorem wp_attemptConfirmCommit (hno : Q false s)
    (hyes : ∀ ballot cur h, CommitConfirmable hint s ⟨cur, ballot.value⟩ h →
      (∃ m, ratifiesCommit slot s ballot m = true) →
      Wp E emit (s.confirmedCommit ⟨cur, ballot.value⟩ h) fun _ => Q true) :
    Wp E (attemptConfirmCommit slot emit hint) s Q := by
  unfold attemptConfirmCommit
  simp only [wp_bind, wp_get]
  split
  · exact hno
  · rename_i hb commit hphase hhigh hcommit _
    split
    · exact hno
    · rename_i ballot _
      split
      · rename_i hcompat
        split
        · rename_i hcounter
          have hle := @le_of_findExtendedInterval (ratifiesCommit slot s ballot)
            (getCommitBoundariesFromStatements s ballot) (0, 0) (UInt32.le_refl 0)
          refine wp_setConfirmCommit hphase (hyes ballot _ _ ?_
            ⟨_, pred_of_findExtendedInterval (absurd rfl) hcounter⟩)
          exact ⟨hphase, hcounter, ballots_le hle _, rfl,
            ⟨commit, hcommit, (compatible_iff.mp hcompat).symm⟩⟩
        · exact hno
      · exact hno
  · exact hno

/-! ## Bumping and step 9 -/

theorem wp_checkHeardFromQuorum {Q : Unit → BallotProtocol → Prop}
    (hQ : ∀ heard, Q () { s with mHeardFromQuorum := heard }) :
    Wp E (checkHeardFromQuorum slot) s Q := by
  unfold checkHeardFromQuorum
  rw [wp_modify]
  split
  · exact hQ s.mHeardFromQuorum
  · exact hQ _

/-- What a property has to respect so that bumps keep it. -/
structure Bumps (slot : Slot) (offered : Value → Prop) (E : Failure → BallotProtocol → Prop)
    (I A : BallotProtocol → Prop) (emit : BallotM Unit) : Prop where
  candidate : ∀ v, slot.driver.getLatestCompositeCandidate = some v → v ≠ [] → offered v
  abort : ∀ s, I s → E .abort s
  diverges : ∀ s, I s → E .diverges s
  abortBump : ∀ s ballot, I s → Bumpable offered s ballot → E .abort (s.bumpedTo ballot)
  bump : ∀ s ballot, I s → Bumpable offered s ballot → A (s.bumpedTo ballot)
  emit : ∀ s, A s → Wp E emit s fun _ => I
  heard : ∀ s heard, I s → I { s with mHeardFromQuorum := heard }

variable {offered : Value → Prop}

theorem abandonValue_spec {v : Value} (h : abandonValue slot s = some v) :
    (∃ b ∈ s.mCurrentBallot, b.value = v)
      ∨ slot.driver.getLatestCompositeCandidate = some v ∧ v ≠ [] := by
  unfold abandonValue at h
  split at h
  · rename_i v' hv'
    obtain ⟨hcandidate, hne⟩ := Option.filter_eq_some_iff.mp hv'
    cases h
    exact .inr ⟨hcandidate, of_decide_eq_true hne⟩
  · obtain ⟨hmap, -⟩ := Option.filter_eq_some_iff.mp h
    obtain ⟨b, hb, rfl⟩ := Option.map_eq_some_iff.mp hmap
    exact .inl ⟨b, hb, rfl⟩

/-- Where a bump takes effect it goes on from the new ballot. -/
def AfterBump (E : Failure → BallotProtocol → Prop) (emit : BallotM Unit)
    (Q : Bool → BallotProtocol → Prop) (s : BallotProtocol) (ballot : SCPBallot) : Prop :=
  E .abort (s.bumpedTo ballot) ∧ Wp E emit (s.bumpedTo ballot) fun _ s' =>
    ∀ heard, Q true { s' with mHeardFromQuorum := heard }

section

variable {value : Value} {n : UInt32} (hs : E .abort s) (hno : Q false s)
include hs hno

section

variable (hvalue : (∃ b ∈ s.mCurrentBallot, b.value = value) ∨ offered value)
include hvalue

theorem wp_bumpStateTo (hn : n ≠ 0 ∨ ∃ b ∈ s.mCurrentBallot, n = b.counter + 1)
    (hyes : ∀ ballot, Bumpable offered s ballot → ballot.counter = n →
      AfterBump E emit Q s ballot) :
    Wp E (bumpStateTo slot emit value n) s Q := by
  unfold bumpStateTo
  simp only [wp_bind, wp_get]
  split
  · exact hno
  · rw [wp_bind]
    refine wp_updateCurrentValue hs hno fun hphase hlt hcommit => ?_
    have h : Bumpable offered s ⟨n, s.mValueOverride.getD value⟩ := by
      refine ⟨hphase, ?_, hlt, hcommit, ?_⟩
      · rcases hn with hn | ⟨b, hb, rfl⟩
        · exact hn
        · -- a counter at its maximum would not go up
          intro hzero
          have hle := counter_le_of_le (hlt b hb).le
          have hzero : b.counter + 1 = 0 := hzero
          simp only [hzero] at hle
          have hb0 : b.counter = 0 := UInt32.toNat_inj.mp (Nat.le_zero.mp hle)
          rw [hb0] at hzero
          exact absurd hzero (by decide)
      · cases hoverride : s.mValueOverride with
        | none => exact .inr hvalue
        | some v => exact .inl rfl
    obtain ⟨habort, hemit⟩ := hyes _ h rfl
    refine ⟨habort, ?_⟩
    simp only [if_true, wp_bind, wp_pure]
    exact hemit.mono fun _ _ hs' => wp_checkHeardFromQuorum hs'

theorem wp_bumpState {force : Bool} (hyes : ∀ ballot, Bumpable offered s ballot →
      (∀ b ∈ s.mCurrentBallot, ballot.counter = b.counter + 1) →
      AfterBump E emit Q s ballot) :
    Wp E (bumpState slot emit value force) s Q := by
  unfold bumpState
  simp only [wp_bind, wp_get]
  split
  · rename_i hnone
    exact wp_bumpStateTo hs hno hvalue (.inl (by decide)) fun ballot h _ =>
      hyes ballot h (by simp [hnone])
  · rename_i b hb
    split
    · exact wp_bumpStateTo hs hno hvalue (.inr ⟨b, hb, rfl⟩) fun ballot h hn =>
        hyes ballot h (by simp [hb, hn])
    · exact hno

end

theorem wp_abandonBallot
    (hcandidate : ∀ v, slot.driver.getLatestCompositeCandidate = some v → v ≠ [] → offered v)
    (hyes : ∀ ballot, Bumpable offered s ballot →
      (if n = 0 then ∀ b ∈ s.mCurrentBallot, ballot.counter = b.counter + 1
        else ballot.counter = n) →
      AfterBump E emit Q s ballot) :
    Wp E (abandonBallot slot emit n) s Q := by
  unfold abandonBallot
  simp only [wp_bind, wp_get]
  split
  · exact hno
  · rename_i v hv
    have hvalue := (abandonValue_spec hv).imp_right fun h => hcandidate v h.1 h.2
    split_ifs at hyes ⊢ with hn
    · exact wp_bumpState hs hno hvalue hyes
    · exact wp_bumpStateTo hs hno hvalue (.inl hn) hyes

end

section Bumps

variable (hB : Bumps slot offered E I A emit)
include hB

theorem Bumps.bumped (hs : I s) (h : Bumpable offered s ballot) :
    AfterBump E emit (fun _ => I) s ballot :=
  ⟨hB.abortBump s _ hs h,
    (hB.emit _ (hB.bump s _ hs h)).mono fun _ s' hs' heard => hB.heard s' heard hs'⟩

theorem Bumps.bumpState (hs : I s) {value : Value} {force : Bool}
    (hvalue : (∃ b ∈ s.mCurrentBallot, b.value = value) ∨ offered value) :
    Wp E (bumpState slot emit value force) s fun _ => I :=
  wp_bumpState (hB.abort s hs) hs hvalue fun _ h _ => hB.bumped hs h

theorem Bumps.abandonBallot (hs : I s) (n : UInt32) :
    Wp E (abandonBallot slot emit n) s fun _ => I :=
  wp_abandonBallot (hB.abort s hs) hs hB.candidate fun _ h _ => hB.bumped hs h

theorem Bumps.attemptBump (hs : I s) : Wp E (attemptBump slot emit) s fun _ => I := by
  unfold BallotProtocol.attemptBump
  simp only [wp_bind, wp_get]
  split_ifs
  · exact hs
  · exact hs
  · split
    · exact hs
    · exact hB.abandonBallot hs _

theorem Bumps.bumpLoop (bumps : Nat) : ∀ s, I s → Wp E (bumpLoop slot emit bumps) s fun _ => I := by
  induction bumps with
  | zero => exact hB.diverges
  | succ bumps ih =>
    intro s hs
    unfold BallotProtocol.bumpLoop
    rw [wp_bind]
    refine (hB.attemptBump hs).mono fun bumped s' hs' => ?_
    split
    · simp only [wp_bind, wp_pure]
      exact ih s' hs'
    · exact hs'

theorem Bumps.catchUp (hs : I s) : Wp E (catchUp slot emit) s fun _ => I := by
  unfold BallotProtocol.catchUp
  simp only [wp_bind, wp_get]
  split
  · simp only [wp_bind, wp_pure]
    exact (hB.bumpLoop MAX_BUMPS s hs).mono fun _ s' hs' =>
      wp_checkHeardFromQuorum fun heard => hB.heard s' heard hs'
  · exact hs

end Bumps

/-! ## Statements -/

/-- What the node would say now. -/
def statementOf (slot : Slot) (s : BallotProtocol) : Option SCPStatement :=
  (createPledges slot s).map fun pledges => ⟨slot.localNode.mNodeID, slot.mSlotIndex, pledges⟩

/-- What is said in each phase. -/
inductive Says (slot : Slot) (s : BallotProtocol) : SCPStatement → Prop
  | prepare (hphase : s.mPhase = .PREPARE) :
    Says slot s ⟨slot.localNode.mNodeID, slot.mSlotIndex, .prepare (preparePledges slot s)⟩
  | confirm {b p c h : SCPBallot} (hphase : s.mPhase = .CONFIRM) (hb : s.mCurrentBallot = some b)
    (hp : s.mPrepared = some p) (hc : s.mCommit = some c) (hh : s.mHighBallot = some h) :
    Says slot s ⟨slot.localNode.mNodeID, slot.mSlotIndex,
      .confirm ⟨b, p.counter, c.counter, h.counter, slot.localNode.mQSetHash⟩⟩
  | externalize {c h : SCPBallot} (hphase : s.mPhase = .EXTERNALIZE) (hc : s.mCommit = some c)
    (hh : s.mHighBallot = some h) :
    Says slot s ⟨slot.localNode.mNodeID, slot.mSlotIndex,
      .externalize ⟨c, h.counter, slot.localNode.mQSetHash⟩⟩

theorem says_of_statementOf {st : SCPStatement} (hst : statementOf slot s = some st) :
    Says slot s st := by
  obtain ⟨pledges, hpledges, rfl⟩ := Option.map_eq_some_iff.mp hst
  unfold createPledges at hpledges
  split at hpledges
  · rename_i hphase
    cases hpledges
    exact .prepare hphase
  · rename_i hphase
    simp only [Option.bind_eq_bind, Option.bind_eq_some_iff, Option.pure_def,
      Option.some.injEq] at hpledges
    obtain ⟨b, hb, p, hp, c, hc, h, hh, rfl⟩ := hpledges
    exact .confirm hphase hb hp hc hh
  · rename_i hphase
    simp only [Option.bind_eq_bind, Option.bind_eq_some_iff, Option.pure_def,
      Option.some.injEq] at hpledges
    obtain ⟨c, hc, h, hh, rfl⟩ := hpledges
    exact .externalize hphase hc hh

theorem wp_createStatement {Q : SCPStatement → BallotProtocol → Prop} (hs : E .abort s)
    (hQ : s.invariantsHold = true → ∀ st, statementOf slot s = some st → Q st s) :
    Wp E (createStatement slot) s Q := by
  unfold createStatement
  simp only [wp_bind, wp_get, wp_pure]
  refine wp_checkInvariants hs fun hinv => wp_deref hs fun pledges hpledges => hQ hinv _ ?_
  rw [statementOf, hpledges, Option.map_some]

theorem wp_sendLatestEnvelope {Q : Unit → BallotProtocol → Prop}
    (hQ : ∀ last emitted, Q () { s with mLastEnvelopeEmit := last, emitted := emitted }) :
    Wp E sendLatestEnvelope s Q := by
  unfold sendLatestEnvelope
  rw [wp_modify]
  split
  · exact hQ s.mLastEnvelopeEmit s.emitted
  · split
    · exact hQ _ _
    · exact hQ s.mLastEnvelopeEmit s.emitted

theorem wp_recordLastEnvelope {canEmit : Bool} {statement : SCPStatement}
    {Q : Unit → BallotProtocol → Prop}
    (hQ : ∀ last lastEmit emitted, Q () { s with
      mLastEnvelope := last, mLastEnvelopeEmit := lastEmit, emitted := emitted }) :
    Wp E (recordLastEnvelope canEmit statement) s Q := by
  unfold recordLastEnvelope
  simp only [wp_bind, wp_get]
  split
  · simp only [wp_bind, wp_set]
    exact wp_sendLatestEnvelope fun _ _ => hQ _ _ _
  · exact hQ s.mLastEnvelope s.mLastEnvelopeEmit s.emitted

/-- The node signs the statement of its state and hands it to itself, unless that is the
one it handled last. -/
theorem wp_emitCurrentStateStatement {processSelf : SCPStatement → BallotM EnvelopeState}
    {Q : Unit → BallotProtocol → Prop} (hs : E .abort s)
    (hsame : s.invariantsHold = true → ∀ st, statementOf slot s = some st →
      s.mLatestEnvelopes.lookup slot.localNode.mNodeID = some st →
      Q () { s with signed := st :: s.signed })
    (hnew : s.invariantsHold = true → ∀ st, statementOf slot s = some st →
      s.mLatestEnvelopes.lookup slot.localNode.mNodeID ≠ some st →
      Wp E (processSelf st) { s with signed := st :: s.signed } fun state s' =>
        match state with
        | .VALID => ∀ last lastEmit emitted, Q () { s' with
            mLastEnvelope := last, mLastEnvelopeEmit := lastEmit, emitted := emitted }
        | .INVALID => E (.exception "moved to a bad state (ballot protocol)") s') :
    Wp E (emitCurrentStateStatement slot processSelf) s Q := by
  unfold emitCurrentStateStatement
  simp only [wp_bind]
  refine wp_createStatement hs fun hinv st hst => ?_
  unfold signEnvelope
  simp only [wp_modify, wp_get]
  split
  · rename_i hlookup
    exact hsame hinv st hst hlookup
  · rename_i hlookup
    rw [wp_bind]
    refine (hnew hinv st hst hlookup).mono fun state s' hs' => ?_
    cases state with
    | VALID => exact wp_recordLastEnvelope hs'
    | INVALID => exact hs'

/-- A statement that passes the checks of `processEnvelope`. -/
structure Admitted (slot : Slot) (s : BallotProtocol) (st : SCPStatement) (own : Bool) : Prop where
  sane : isStatementSane slot st own = true
  newer : isNewerThanLatest s st = true
  valid : validateValues slot st ≠ .kInvalidValue

theorem wp_processEnvelopeWith {advance : SCPStatement → BallotM Unit} {st : SCPStatement}
    {self : Bool} {Q : EnvelopeState → BallotProtocol → Prop} (hs : E .abort s)
    (hreject : ¬Admitted slot s st self → Q .INVALID s)
    (hadvance : Admitted slot s st self → s.mPhase ≠ .EXTERNALIZE → ∀ fullyValidated,
      Wp E (advance st) { s with
        mFullyValidated := fullyValidated
        mLatestEnvelopes := s.mLatestEnvelopes.insert st.nodeID st } fun _ => Q .VALID)
    (hrecord : Admitted slot s st self → ∀ c ∈ s.mCommit, s.mPhase = .EXTERNALIZE →
      c.value = (getWorkingBallot st).value →
      Q .VALID { s with mLatestEnvelopes := s.mLatestEnvelopes.insert st.nodeID st })
    (hother : ∀ c ∈ s.mCommit, s.mPhase = .EXTERNALIZE → c.value ≠ (getWorkingBallot st).value →
      Q .INVALID s) :
    Wp E (processEnvelopeWith slot advance st self) s Q := by
  unfold processEnvelopeWith
  simp only [wp_bind, wp_get]
  refine wp_dbgAssert hs fun _ => ?_
  split_ifs with hsane hnewer hvalid
  · exact hreject fun h => by rw [h.sane] at hsane; cases hsane
  · exact hreject fun h => by rw [h.newer] at hnewer; cases hnewer
  · exact hreject fun h => h.valid hvalid
  · rw [Bool.not_eq_true', Bool.not_eq_false] at hsane hnewer
    have h : Admitted slot s st self := ⟨hsane, hnewer, hvalid⟩
    unfold processValid recordEnvelope
    simp only [wp_bind, wp_get]
    split
    · rename_i hphase
      simp only [wp_bind, wp_set, wp_modify, wp_pure]
      exact hadvance h hphase _
    · rename_i hphase
      rw [not_not] at hphase
      simp only [wp_bind]
      refine wp_deref hs fun c hc => ?_
      split
      · rename_i hvalue
        exact hrecord h c hc hphase hvalue
      · rename_i hvalue
        exact hother c hc hphase hvalue

end

/-! ## Whole calls -/

/-- The fields the order is about. -/
def ballotFields (s : BallotProtocol) :=
  (s.mPhase, s.mCurrentBallot, s.mPrepared, s.mPreparedPrime, s.mHighBallot, s.mCommit)

/-- The state with a statement on record. -/
abbrev recorded (s : BallotProtocol) (st : SCPStatement) (fullyValidated : Bool) : BallotProtocol :=
  { s with
    mFullyValidated := fullyValidated
    mLatestEnvelopes := s.mLatestEnvelopes.insert st.nodeID st }

/-- What a property has to survive so that whole calls keep it: `I` holds between steps,
`A` between a move and its statement, and `G` of the statements that are processed. -/
structure Survives (slot : Slot) (I A : BallotProtocol → Prop) (G : SCPStatement → Prop) :
    Prop where
  congr : ∀ {s s' : BallotProtocol}, I s → s'.ballotFields = s.ballotFields →
    s'.mLatestEnvelopes = s.mLatestEnvelopes → s'.signed = s.signed →
    s'.mValueOverride = s.mValueOverride → I s'
  override : ∀ {hint s newC newH}, I s → Confirmable slot hint s newC newH →
    I { s with mValueOverride := some newH.value }
  prepared : ∀ {hint s ballot s'}, G hint → I s → Preparable slot hint s ballot →
    SetsPrepared s ballot s' → I s'
  prepares : ∀ {hint s ballot s'}, G hint → I s → Preparable slot hint s ballot →
    Prepares s ballot s' → A s'
  confirmPrepared : ∀ {hint s newC newH}, G hint → I s → Confirmable slot hint s newC newH →
    (∀ b ∈ s.mCurrentBallot, b.value = newH.value) ∨ (∀ b ∈ s.mCurrentBallot, b < newH) →
    A ((s.confirmedPrepared newC newH).movedUp newH)
  acceptCommit : ∀ {hint s c h}, G hint → I s → CommitAcceptable hint s c h →
    A ((s.acceptedCommit c h).movedUp h)
  confirmCommit : ∀ {hint s ballot cur h m}, G hint → I s →
    CommitConfirmable hint s ⟨cur, ballot.value⟩ h → ratifiesCommit slot s ballot m = true →
    A (s.confirmedCommit ⟨cur, ballot.value⟩ h)
  bump : ∀ {s ballot}, I s → Bumpable (fun _ => True) s ballot → A (s.bumpedTo ballot)
  moved : ∀ {s}, A s → I s
  sign : ∀ {s st}, A s → s.invariantsHold = true → statementOf slot s = some st →
    I { s with signed := st :: s.signed }
  own : ∀ {s st}, A s → s.invariantsHold = true → statementOf slot s = some st →
    validateValues slot st ≠ .kInvalidValue →
    G st ∧ ∀ fullyValidated, I (recorded { s with signed := st :: s.signed } st fullyValidated)

section

variable {slot : Slot} {I A : BallotProtocol → Prop} {G : SCPStatement → Prop}
  {hint : SCPStatement} {s : BallotProtocol} (h : Survives slot I A G)
include h

section Emitting

variable {emit : BallotM Unit} (hemit : ∀ s, A s → Wp (fun _ => I) emit s fun _ => I)
include hemit

theorem Survives.bumps : Bumps slot (fun _ => True) (fun _ => I) I A emit where
  candidate _ _ _ := trivial
  abort _ hs := hs
  diverges _ hs := hs
  abortBump _ _ hs hbump := h.moved (h.bump hs hbump)
  bump _ _ hs hbump := h.bump hs hbump
  emit := hemit
  heard _ _ hs := h.congr hs rfl rfl rfl rfl

theorem Survives.advanceSteps (hhint : G hint) (hs : I s) :
    Wp (fun _ => I) (advanceSteps slot emit hint) s fun _ => I := by
  unfold BallotProtocol.advanceSteps
  simp only [wp_bind, wp_modify]
  refine Wp.mono (Q := fun _ => I) (wp_attemptAcceptPrepared hs (fun _ => hs) (fun _ => hs)
    fun ballot hp _ => ⟨fun s' => h.prepared hhint hs hp, fun s' hset =>
      hemit s' (h.prepares hhint hs hp hset)⟩) fun _ s hs => ?_
  refine Wp.mono (Q := fun _ => I) (wp_attemptConfirmPrepared hs fun newC newH hc =>
    ⟨h.override hs hc, fun hmoves => hemit _ (h.confirmPrepared hhint hs hc hmoves)⟩)
    fun _ s hs => ?_
  refine Wp.mono (Q := fun _ => I) (wp_attemptAcceptCommit hs hs fun _ _ hc =>
    hemit _ (h.acceptCommit hhint hs hc)) fun _ s hs => ?_
  refine Wp.mono (Q := fun _ => I) (wp_attemptConfirmCommit hs fun _ _ _ hc hratified =>
    hratified.elim fun _ hratified => hemit _ (h.confirmCommit hhint hs hc hratified))
    fun _ s hs => ?_
  refine ((h.bumps hemit).catchUp hs).mono fun _ s hs => ?_
  split
  · exact wp_sendLatestEnvelope fun _ _ => h.congr hs rfl rfl rfl rfl
  · exact h.congr hs rfl rfl rfl rfl

end Emitting

/-- The node hands its own statement to itself. -/
theorem Survives.emit {advance : SCPStatement → BallotM Unit}
    (hadvance : ∀ st s, G st → I s → Wp (fun _ => I) (advance st) s fun _ => I) :
    ∀ s, A s → Wp (fun _ => I)
      (emitCurrentStateStatement slot (processEnvelopeWith slot advance · true)) s fun _ => I := by
  intro s hA
  refine wp_emitCurrentStateStatement (h.moved hA) (fun hinv st hst _ => h.sign hA hinv hst)
    fun hinv st hst _ => ?_
  have hsigned := h.sign hA hinv hst
  refine wp_processEnvelopeWith hsigned (fun _ => hsigned) ?_ ?_ fun _ _ _ _ => hsigned
  · intro hadmitted _ fullyValidated
    obtain ⟨hG, hrecord⟩ := h.own hA hinv hst hadmitted.valid
    exact Wp.mono (hadvance st _ hG (hrecord fullyValidated)) fun _ s' hs' _ _ _ =>
      h.congr hs' rfl rfl rfl rfl
  · intro hadmitted _ _ _ _ _ _ _
    exact h.congr ((h.own hA hinv hst hadmitted.valid).2 s.mFullyValidated) rfl rfl rfl rfl

/-- The recursion: each nested call is one level deeper. -/
theorem Survives.advanceSlot (depth : Nat) :
    ∀ hint s, G hint → I s → Wp (fun _ => I) (advanceSlot slot depth hint) s fun _ => I := by
  induction depth with
  | zero => exact fun _ _ _ hs => hs
  | succ depth ih =>
    intro hint s hhint hs
    unfold BallotProtocol.advanceSlot
    simp only [wp_bind, wp_get, wp_set]
    split
    · exact h.congr hs rfl rfl rfl rfl
    · exact h.advanceSteps (h.emit ih) hhint (h.congr hs rfl rfl rfl rfl)

theorem Survives.emitCurrentState (s : BallotProtocol) (hA : A s) :
    Wp (fun _ => I) (emitCurrentState slot) s fun _ => I :=
  h.emit (h.advanceSlot MAX_ADVANCE_SLOT_RECURSION) s hA

end

end KinesisCore.BallotProtocol

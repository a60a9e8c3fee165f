import KinesisCore.BallotSteps

/-!
# A node stands by what it accepted to commit

Out of phase PREPARE a node holds a ballot it accepted to commit, and every ballot
it moves to from then on has the same value: `mValueOverride` carries the value
into every bump, and a commit with another value is never looked at. So what a node
has signed stays true of it. When it confirms a commit, it has seen a quorum whose
statements commit that value.
-/

namespace KinesisCore

namespace BallotProtocol

open EStateM

/-! ## What a node stands by -/

variable {ballot : SCPBallot} {st : SCPStatement}

/-- The node accepted to commit `x`. -/
def StandsBy (s : BallotProtocol) (x : Value) : Prop :=
  s.mPhase ≠ .PREPARE ∧ ∃ c, s.mCommit = some c ∧ c.value = x

/-- The statement commits `x`. -/
def CommitsTo (st : SCPStatement) (x : Value) : Prop :=
  match st.pledges with
  | .prepare _ => False
  | .confirm c => c.ballot.value = x
  | .externalize e => e.commit.value = x

/-- A statement of the node is true of its state. -/
def Truthful (node : LocalNode) (s : BallotProtocol) (st : SCPStatement) : Prop :=
  st.nodeID = node.mNodeID ∧
    match st.pledges with
    | .prepare _ => True
    | .confirm c => c.quorumSetHash = node.mQSetHash ∧ s.StandsBy c.ballot.value
    | .externalize e => s.mPhase = .EXTERNALIZE ∧ s.StandsBy e.commit.value

/-- Where the statement of a node in `P` points: to a quorum set with a slice in
`P`, or to the node having externalized. `named` are the quorum sets by their
hash. -/
def PointsInto (named : Hash → Option SCPQuorumSet) (st : SCPStatement) (P : List NodeID) : Prop :=
  match st.pledges with
  | .prepare p => ∃ q, named p.quorumSetHash = some q ∧ LocalNode.isQuorumSlice q P = true
  | .confirm c => ∃ q, named c.quorumSetHash = some q ∧ LocalNode.isQuorumSlice q P = true
  | .externalize _ => True

/-- The node has heard of a quorum for itself whose statements commit `x`. -/
def Supported (named : Hash → Option SCPQuorumSet) (node : LocalNode) (heard : SCPStatement → Prop)
    (x : Value) : Prop :=
  ∃ P : List NodeID, LocalNode.isQuorumSlice node.mQSet P = true ∧
    ∀ p ∈ P, ∃ st, heard st ∧ st.nodeID = p ∧ CommitsTo st x ∧ PointsInto named st P

theorem Supported.mono {named : Hash → Option SCPQuorumSet} {node : LocalNode}
    {heard heard' : SCPStatement → Prop} {x : Value} (h : Supported named node heard x)
    (hle : ∀ st, heard st → heard' st) : Supported named node heard' x := by
  obtain ⟨P, hslice, hP⟩ := h
  refine ⟨P, hslice, fun p hp => ?_⟩
  obtain ⟨st, hst, hrest⟩ := hP p hp
  exact ⟨st, hle st hst, hrest⟩

/-! ## The invariant -/

section

variable (named : Hash → Option SCPQuorumSet) (node : LocalNode) (auth : SCPStatement → Prop)
  (base : List SCPStatement)

/-- `auth` holds of the statements that can have come from the network, and
`base` are statements signed before. -/
structure Steadfast (s : BallotProtocol) : Prop where
  heard : ∀ n st, s.mLatestEnvelopes.lookup n = some st →
    st.nodeID = n ∧ (auth st ∨ st ∈ s.signed)
  truthful : ∀ st ∈ s.signed, Truthful node s st
  committed : s.mPhase ≠ .PREPARE → ∃ c h, s.mCommit = some c ∧ s.mHighBallot = some h
    ∧ h.value = c.value ∧ s.mValueOverride = some c.value
  supported : s.mPhase = .EXTERNALIZE → ∀ x, s.StandsBy x →
    Supported named node (fun st => auth st ∨ st ∈ s.signed) x
  grows : ∀ st ∈ base, st ∈ s.signed

variable {named node auth base} {s s' : BallotProtocol}

theorem Truthful.step (h : Truthful node s st) (hstands : ∀ x, s.StandsBy x → s'.StandsBy x)
    (hext : s.mPhase = .EXTERNALIZE → s'.mPhase = .EXTERNALIZE) : Truthful node s' st := by
  obtain ⟨hnode, hpledges⟩ := h
  refine ⟨hnode, ?_⟩
  cases hp : st.pledges with
  | prepare p => trivial
  | confirm c =>
    simp only [hp] at hpledges
    exact ⟨hpledges.1, hstands _ hpledges.2⟩
  | externalize e =>
    simp only [hp] at hpledges
    exact ⟨hext hpledges.1, hstands _ hpledges.2⟩

section Steadfast

variable (h : Steadfast named node auth base s)
include h

/-- What a move of the ballots has to keep. -/
theorem Steadfast.step (hlatest : s'.mLatestEnvelopes = s.mLatestEnvelopes)
    (hsigned : s'.signed = s.signed) (hstands : ∀ x, s.StandsBy x → s'.StandsBy x)
    (hext : s.mPhase = .EXTERNALIZE → s'.mPhase = .EXTERNALIZE)
    (hcommitted : s'.mPhase ≠ .PREPARE → ∃ c h, s'.mCommit = some c ∧ s'.mHighBallot = some h
      ∧ h.value = c.value ∧ s'.mValueOverride = some c.value)
    (hsupported : s'.mPhase = .EXTERNALIZE → ∀ x, s'.StandsBy x →
      Supported named node (fun st => auth st ∨ st ∈ s.signed) x) :
    Steadfast named node auth base s' := by
  refine ⟨?_, ?_, hcommitted, ?_, ?_⟩
  · rw [hlatest, hsigned]
    exact h.heard
  · rw [hsigned]
    exact fun st hst => (h.truthful st hst).step hstands hext
  · rw [hsigned]
    exact hsupported
  · rw [hsigned]
    exact h.grows

/-- The fields the invariant reads. -/
def commitFields (s : BallotProtocol) :=
  (s.mLatestEnvelopes, s.signed, s.mPhase, s.mCommit, s.mHighBallot, s.mValueOverride)

theorem Steadfast.congr (hfields : s'.commitFields = s.commitFields) :
    Steadfast named node auth base s' := by
  simp only [commitFields, Prod.mk.injEq] at hfields
  obtain ⟨hlatest, hsigned, hphase, hcommit, hhigh, hoverride⟩ := hfields
  have hstands : ∀ x, s'.StandsBy x ↔ s.StandsBy x := fun x => by
    simp only [StandsBy, hphase, hcommit]
  refine h.step hlatest hsigned (fun x => (hstands x).mpr) (hphase.trans) ?_ ?_
  · rw [hphase, hcommit, hhigh, hoverride]
    exact h.committed
  · rw [hphase]
    exact fun hp x hx => h.supported hp x ((hstands x).mp hx)

/-- Before it accepted anything a node may move freely. -/
theorem Steadfast.of_prepare (hphase : s.mPhase = .PREPARE)
    (hlatest : s'.mLatestEnvelopes = s.mLatestEnvelopes) (hsigned : s'.signed = s.signed)
    (hphase' : s'.mPhase = .PREPARE) : Steadfast named node auth base s' := by
  refine h.step hlatest hsigned (fun x hx => absurd hphase hx.1) ?_ ?_ ?_
  · simp [hphase]
  · simp [hphase']
  · simp [hphase']

/-- Values that stand are those of `c`, `h` and the override. -/
theorem Steadfast.values (hphase : s.mPhase ≠ .PREPARE) :
    ∃ c hb, s.mCommit = some c ∧ s.mHighBallot = some hb ∧ hb.value = c.value
      ∧ s.mValueOverride = some c.value ∧ ∀ x, s.StandsBy x → x = c.value := by
  obtain ⟨c, hb, hc, hh, hval, hoverride⟩ := h.committed hphase
  refine ⟨c, hb, hc, hh, hval, hoverride, ?_⟩
  rintro x ⟨-, c', hc', rfl⟩
  rw [hc] at hc'
  rw [Option.some.inj hc']

end Steadfast

end

/-! ## Moves -/

section

variable {named : Hash → Option SCPQuorumSet} {node : LocalNode} {auth : SCPStatement → Prop}
  {base : List SCPStatement} {slot : Slot} {hint : SCPStatement} {s s' : BallotProtocol}

section Moves

variable (h : Steadfast named node auth base s)
include h

/-- A bump to the value that stands keeps `c` and `h`. -/
theorem Steadfast.bumpedTo (hvalue : ∀ x, s.StandsBy x → ballot.value = x) :
    Steadfast named node auth base (s.bumpedTo ballot) := by
  by_cases hprepare : s.mPhase = .PREPARE
  · exact h.of_prepare hprepare rfl rfl hprepare
  · obtain ⟨c, hb, hc, hhigh, hval, hoverride, -⟩ := h.values hprepare
    have hballot : ballot.value = c.value := hvalue _ ⟨hprepare, c, hc, rfl⟩
    refine h.congr ?_
    simp [commitFields, BallotProtocol.bumpedTo, hhigh, areBallotsCompatible, hballot, hval]

theorem Steadfast.movedUp {hb : SCPBallot} (hvalue : ∀ x, s.StandsBy x → hb.value = x) :
    Steadfast named node auth base (s.movedUp hb) := by
  rcases movedUp_cases s hb with ⟨-, hmoved⟩ | ⟨-, hmoved⟩
  · rw [hmoved]
    exact h.bumpedTo hvalue
  · rw [hmoved]
    exact h

theorem Steadfast.setsPrepared (hset : SetsPrepared s ballot s') :
    Steadfast named node auth base s' := by
  cases hset <;> exact h.congr rfl

theorem Steadfast.prepares (hset : Prepares s ballot s') : Steadfast named node auth base s' := by
  cases hset with
  | keeping hset => exact h.setsPrepared hset
  | clearing hset hphase =>
    have hphase' := hset.phase.trans hphase
    exact (h.setsPrepared hset).of_prepare hphase' rfl rfl hphase'

theorem Steadfast.confirmPrepared {newC newH : SCPBallot} (hphase : s.mPhase = .PREPARE) :
    Steadfast named node auth base ((s.confirmedPrepared newC newH).movedUp newH) := by
  have hset : Steadfast named node auth base (s.confirmedPrepared newC newH) :=
    h.of_prepare hphase rfl rfl hphase
  exact hset.movedUp fun x hx => absurd hphase hx.1

end Moves

variable {c h : SCPBallot} {cur : Interval}

theorem Steadfast.acceptCommit (hs : Steadfast named node auth base s)
    (hc : CommitAcceptable hint s c h) :
    Steadfast named node auth base ((s.acceptedCommit c h).movedUp h) := by
  have hcommit := acceptedCommit_commit s c h
  have hphase := acceptedCommit_phase s c h hc.phase
  have hne : (s.acceptedCommit c h).mPhase ≠ .PREPARE := by simp [hphase]
  obtain ⟨-, -, hoverride, hlatest, hsigned⟩ := acceptedCommit_fields s c h
  have hset : Steadfast named node auth base (s.acceptedCommit c h) := by
    refine hs.step hlatest hsigned (fun x hx => ⟨hne, c, hcommit, ?_⟩)
      (hc.phase.elim) (fun _ => ⟨c, h, hcommit, acceptedCommit_high s c h,
        hc.value.symm, hc.value ▸ hoverride⟩) (by simp [hphase])
    -- once a value stands, no commit of another one is looked at
    obtain ⟨c₀, hb₀, -, hhigh, hval, -, hstands⟩ := hs.values hx.1
    obtain ⟨hb, hhb, hvalue, -⟩ := hc.confirm (confirm_of_ne hx.1 hc.phase)
    obtain rfl := Option.mem_unique hhigh hhb
    rw [hstands x hx, ← hval, hvalue, hc.value]
  refine hset.movedUp ?_
  rintro x ⟨-, c', hc', rfl⟩
  rw [← Option.mem_unique hcommit hc', hc.value]

/-- The last step of the phase. -/
theorem Steadfast.confirmCommit (hs : Steadfast named node auth base s)
    (hc : CommitConfirmable hint s c h)
    (hsupported : Supported named node (fun st => auth st ∨ st ∈ s.signed) c.value) :
    Steadfast named node auth base (s.confirmedCommit c h) := by
  have hne : s.mPhase ≠ .PREPARE := by simp [hc.phase]
  obtain ⟨c₀, -, hc₀, -, -, hoverride, hstands⟩ := hs.values hne
  have hvalue : c₀.value = c.value := by
    obtain ⟨c₁, hc₁, heq⟩ := hc.commit
    rw [Option.mem_unique hc₀ hc₁, heq]
  have hset : Steadfast named node auth base
      { s with mCommit := some c, mHighBallot := some h, mPhase := .EXTERNALIZE } := by
    refine hs.step rfl rfl (fun x hx => ⟨nofun, c, rfl, ((hstands x hx).trans hvalue).symm⟩)
      (fun _ => rfl) (fun _ => ⟨c, h, rfl, rfl, hc.value.symm, hvalue ▸ hoverride⟩) ?_
    rintro - x ⟨-, c', hc', rfl⟩
    rwa [← Option.some.inj hc']
  have hsame : s.confirmedCommit c h = ({ s with
      mCommit := some c, mHighBallot := some h, mPhase := .EXTERNALIZE } : BallotProtocol).movedUp
        h := by
    unfold confirmedCommit BallotProtocol.movedUp
    split_ifs <;> rfl
  rw [hsame]
  refine hset.movedUp ?_
  rintro x ⟨-, c', hc', rfl⟩
  rw [← Option.some.inj hc', hc.value]

/-! ## Own statements are true -/

/-- In phase CONFIRM the assertions tie the current ballot to `c`. -/
theorem value_of_invariantsHold (h : s.invariantsHold = true) {b hb : SCPBallot}
    (hcurrent : s.mCurrentBallot = some b) (hcommit : s.mCommit = some c)
    (hhigh : s.mHighBallot = some hb) : b.value = c.value := by
  simp only [invariantsHold, hcurrent, hcommit, hhigh, Option.all_some, Option.any_some,
    areBallotsLessAndCompatible, areBallotsCompatible, Bool.and_eq_true, decide_eq_true_eq] at h
  rw [← h.1.2.2.2, ← h.1.2.1.2]

theorem truthful_of_statementOf (hinv : s.invariantsHold = true)
    (hst : statementOf slot s = some st) : Truthful slot.localNode s st := by
  cases says_of_statementOf hst with
  | prepare => exact ⟨rfl, trivial⟩
  | confirm hphase hb hp hc hh =>
    exact ⟨rfl, rfl, by simp [hphase], _, hc, (value_of_invariantsHold hinv hb hc hh).symm⟩
  | externalize hphase hc hh => exact ⟨rfl, hphase, by simp [hphase], _, hc, rfl⟩

theorem Steadfast.sign (h : Steadfast named node auth base s) (hst : Truthful node s st) :
    Steadfast named node auth base { s with signed := st :: s.signed } := by
  have hmore : ∀ st', auth st' ∨ st' ∈ s.signed → auth st' ∨ st' ∈ st :: s.signed :=
    fun st' h' => h'.imp_right (List.mem_cons_of_mem _)
  refine ⟨fun n st' hst' => ⟨(h.heard n st' hst').1, hmore _ (h.heard n st' hst').2⟩, ?_,
    h.committed, fun hp x hx => (h.supported hp x hx).mono hmore,
    fun st' hst' => List.mem_cons_of_mem _ (h.grows st' hst')⟩
  intro st' hst'
  rcases List.mem_cons.mp hst' with rfl | hst'
  · exact hst.step (fun _ hx => hx) id
  · exact (h.truthful st' hst').step (fun _ hx => hx) id

theorem Steadfast.recordEnvelope (h : Steadfast named node auth base s)
    (hst : auth st ∨ st ∈ s.signed) :
    Steadfast named node auth base
      { s with mLatestEnvelopes := s.mLatestEnvelopes.insert st.nodeID st } :=
  ⟨AList.forall_lookup_insert ⟨rfl, hst⟩ h.heard, h.truthful, h.committed, h.supported,
    h.grows⟩

/-! ## What a quorum for a commit shows -/

theorem commitsTo_of_commitPredicate (h : commitPredicate ballot cur st = true) :
    CommitsTo st ballot.value := by
  cases hp : st.pledges with
  | prepare p => simp [commitPredicate, hp] at h
  | confirm c =>
    simp only [commitPredicate, hp, areBallotsCompatible, Bool.and_eq_true, decide_eq_true_eq] at h
    simp only [CommitsTo, hp]
    exact h.1.1.symm
  | externalize e =>
    simp only [commitPredicate, hp, areBallotsCompatible, Bool.and_eq_true, decide_eq_true_eq] at h
    simp only [CommitsTo, hp]
    exact h.1.symm

variable (hlaw : ∀ h q, slot.driver.getQSet h = some q → named h = some q)

include hlaw

theorem pointsInto_of_getQuorumSet {q : SCPQuorumSet} {P : List NodeID}
    (hq : slot.getQuorumSetFromStatement st = some q)
    (hslice : LocalNode.isQuorumSlice q P = true) : PointsInto named st P := by
  cases hp : st.pledges with
  | prepare p | confirm c =>
    simp only [Slot.getQuorumSetFromStatement, hp] at hq
    simp only [PointsInto, hp]
    exact ⟨q, hlaw _ _ hq, hslice⟩
  | externalize e => simp only [PointsInto, hp]

theorem Steadfast.supported_of_ratifiesCommit (h : Steadfast named slot.localNode auth base s)
    (hratify : ratifiesCommit slot s ballot cur = true) :
    Supported named slot.localNode (fun st => auth st ∨ st ∈ s.signed) ballot.value := by
  refine ⟨LocalNode.quorumNodes s.mLatestEnvelopes slot.getQuorumSetFromStatement
    (commitPredicate ballot cur), hratify, fun p hp => ?_⟩
  obtain ⟨st, q, hlookup, hfilter, hq, hslice⟩ := LocalNode.mem_quorumNodes hp
  obtain ⟨hnode, hheard⟩ := h.heard p st hlookup
  exact ⟨st, hheard, hnode, commitsTo_of_commitPredicate hfilter,
    pointsInto_of_getQuorumSet hlaw hq hslice⟩

end

/-! ## Whole calls -/

/-- A steadfast node that has a ballot out of phase PREPARE. -/
structure Standing (named : Hash → Option SCPQuorumSet) (node : LocalNode)
    (auth : SCPStatement → Prop) (base : List SCPStatement) (s : BallotProtocol) : Prop where
  steadfast : Steadfast named node auth base s
  current : s.mPhase ≠ .PREPARE → s.mCurrentBallot ≠ none

section

variable {named : Hash → Option SCPQuorumSet} {auth : SCPStatement → Prop}
  {base : List SCPStatement}
  {slot : Slot} {s s' : BallotProtocol} {node : LocalNode}

section Standing

variable (h : Standing named node auth base s)
include h

theorem Standing.congr (hfields : s'.commitFields = s.commitFields)
    (hcurrent : s'.mCurrentBallot = s.mCurrentBallot) : Standing named node auth base s' := by
  refine ⟨h.steadfast.congr hfields, ?_⟩
  simp only [commitFields, Prod.mk.injEq] at hfields
  rw [hcurrent, hfields.2.2.1]
  exact h.current

theorem Standing.prepares (hset : Prepares s ballot s') : Standing named node auth base s' := by
  refine ⟨h.steadfast.prepares hset, ?_⟩
  cases hset with
  | keeping hset | clearing hset _ => cases hset <;> exact h.current

theorem Standing.bump {offered : Value → Prop} (hbump : Bumpable offered s ballot) :
    Standing named node auth base (s.bumpedTo ballot) := by
  refine ⟨h.steadfast.bumpedTo ?_, fun _ => nofun⟩
  rintro x ⟨hphase, c, hc, rfl⟩
  exact (hbump.commit (h.current hphase) c hc).symm

theorem Standing.record (hst : auth st ∨ st ∈ s.signed) (fullyValidated : Bool) :
    Standing named node auth base (s.recorded st fullyValidated) :=
  ⟨(h.steadfast.recordEnvelope hst).congr rfl, h.current⟩

end Standing

/-- A node hands itself only what it has signed. -/
theorem standing_survives (hlaw : ∀ h q, slot.driver.getQSet h = some q → named h = some q) :
    Survives slot (Standing named slot.localNode auth base)
      (Standing named slot.localNode auth base) fun _ => True where
  congr h hfields hlatest hsigned hoverride := by
    simp only [ballotFields, Prod.mk.injEq] at hfields
    obtain ⟨hphase, hcurrent, -, -, hhigh, hcommit⟩ := hfields
    refine h.congr ?_ hcurrent
    simp only [commitFields, hlatest, hsigned, hphase, hcommit, hhigh, hoverride]
  override h hc := ⟨h.steadfast.of_prepare hc.phase rfl rfl hc.phase, h.current⟩
  prepared _ h _ hset := h.prepares (.keeping hset)
  prepares _ h _ hset := h.prepares hset
  confirmPrepared _ h hc _ := ⟨h.steadfast.confirmPrepared hc.phase, fun _ => movedUp_ne_none _ _⟩
  acceptCommit _ h hc := ⟨h.steadfast.acceptCommit hc, fun _ => movedUp_ne_none _ _⟩
  confirmCommit _ h hc hratified :=
    ⟨h.steadfast.confirmCommit hc (h.steadfast.supported_of_ratifiesCommit hlaw hratified),
      fun _ => movedUp_ne_none _ _⟩
  bump h hbump := h.bump hbump
  moved h := h
  sign h hinv hst := ⟨h.steadfast.sign (truthful_of_statementOf hinv hst), h.current⟩
  own h hinv hst _ :=
    have hsigned : Standing named slot.localNode auth base _ :=
      ⟨h.steadfast.sign (truthful_of_statementOf hinv hst), h.current⟩
    ⟨trivial, hsigned.record (.inr List.mem_cons_self)⟩

end

end BallotProtocol

end KinesisCore

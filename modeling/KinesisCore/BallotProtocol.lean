import KinesisCore.Wp
import KinesisCore.QuorumSet
import KinesisCore.ScpStatement

/-!
# The ballot protocol (`BallotProtocol.cpp`, `Slot.cpp`)

One node's part of the ballot protocol for one slot. A statement that arrives is
recorded and may move the node's own ballots; every move makes a statement of its
own, which the node hands to itself like any other. `emit` stands for that in the
functions below, up to `advanceSlot`, which ties the knot: nested deliveries are
at most `MAX_ADVANCE_SLOT_RECURSION` deep.

Timers and the notifications to the driver are left out, but for the statements
that are signed and those that are sent.
-/

namespace KinesisCore

inductive SCPPhase where
  | PREPARE
  | CONFIRM
  | EXTERNALIZE
  deriving Repr, DecidableEq

inductive EnvelopeState where
  | INVALID
  | VALID
  deriving Repr, DecidableEq

/-- How a call can end other than by returning: the process is aborted, by an
assertion or a null pointer; an exception; or it goes on forever. -/
inductive Failure where
  | abort
  | exception (what : String)
  | diverges
  deriving Repr, DecidableEq

structure LocalNode where
  mNodeID : NodeID
  mQSet : SCPQuorumSet
  mQSetHash : Hash

/-- What the protocol asks of its driver. -/
structure SCPDriver where
  getQSet : Hash → Option SCPQuorumSet
  /-- For the slot, outside of nomination. -/
  validateValue : Value → ValidationLevel
  /-- From the nomination protocol. -/
  getLatestCompositeCandidate : Option Value

structure Slot where
  mSlotIndex : UInt64
  localNode : LocalNode
  driver : SCPDriver

/-- The latest statement of each node. -/
abbrev Envelopes := AList fun _ : NodeID => SCPStatement

structure BallotProtocol where
  mHeardFromQuorum : Bool := false
  mCurrentBallot : Option SCPBallot := none
  mPrepared : Option SCPBallot := none
  mPreparedPrime : Option SCPBallot := none
  mHighBallot : Option SCPBallot := none
  mCommit : Option SCPBallot := none
  mLatestEnvelopes : Envelopes := ∅
  mPhase : SCPPhase := .PREPARE
  mValueOverride : Option Value := none
  mCurrentMessageLevel : Nat := 0
  mLastEnvelope : Option SCPStatement := none
  mLastEnvelopeEmit : Option SCPStatement := none
  /-- Of the slot. -/
  mFullyValidated : Bool
  /-- All that went through `signEnvelope`, the last first. -/
  signed : List SCPStatement := []
  /-- All that went through `emitEnvelope`, the last first. -/
  emitted : List SCPStatement := []

abbrev BallotM := EStateM Failure BallotProtocol

def dbgAssert (expression : Bool) : BallotM Unit :=
  if expression then pure () else throw .abort

/-- Following a pointer. -/
def deref {α : Type} : Option α → BallotM α
  | some a => pure a
  | none => throw .abort

/-! ## The slot -/

namespace Slot

variable (slot : Slot) (envs : Envelopes) (filter : SCPStatement → Bool)

def getQuorumSetFromStatement (st : SCPStatement) : Option SCPQuorumSet :=
  match st.pledges with
  | .prepare p => slot.driver.getQSet p.quorumSetHash
  | .confirm c => slot.driver.getQSet c.quorumSetHash
  | .externalize _ => some (LocalNode.buildSingletonQSet st.nodeID)

/-- `LocalNode::isVBlocking` on a map. -/
def isVBlocking : Bool :=
  LocalNode.isVBlocking slot.localNode.mQSet (LocalNode.nodesOf envs filter)

def isQuorum : Bool :=
  LocalNode.isQuorum envs slot.getQuorumSetFromStatement slot.localNode.mQSet filter

def federatedAccept (voted accepted : SCPStatement → Bool) (envs : Envelopes) : Bool :=
  slot.isVBlocking envs accepted || slot.isQuorum envs fun st => accepted st || voted st

def federatedRatify (voted : SCPStatement → Bool) (envs : Envelopes) : Bool :=
  slot.isQuorum envs voted

end Slot

namespace BallotProtocol

variable (slot : Slot)

/-! ## Checks on statements -/

variable (st : SCPStatement) (self : Bool) (s : BallotProtocol) (ballot : SCPBallot)

def isPrepareSane (p : PreparePledges) : Bool :=
  -- self is allowed to have b = 0 (as long as it never gets emitted)
  (self || p.ballot.counter > 0)
    && (p.preparedPrime.all fun p' => p.prepared.all (areBallotsLessAndIncompatible p' ·))
    && (p.nH = 0 || p.prepared.any (p.nH ≤ ·.counter))
    && (p.nC = 0 || (p.nH ≠ 0 && p.ballot.counter ≥ p.nH && p.nH ≥ p.nC))

def isStatementSane : Bool :=
  match slot.getQuorumSetFromStatement st with
  | none => false
  | some qSet =>
    (isQuorumSetSane qSet false).toBool
      && match st.pledges with
        | .prepare p => isPrepareSane self p
        | .confirm c => c.ballot.counter > 0 && c.nH ≤ c.ballot.counter && c.nCommit ≤ c.nH
        | .externalize e => e.commit.counter > 0 && e.nH ≥ e.commit.counter

/-- The least level of the values of a statement; without values it is
invalid. -/
def validateValues : ValidationLevel :=
  let levels := (getStatementValues st).map slot.driver.validateValue
  if levels = [] ∨ .kInvalidValue ∈ levels then .kInvalidValue
  else if .kMaybeValidValue ∈ levels then .kMaybeValidValue
  else .kFullyValidatedValue

/-! ## The current ballot -/

def bumpedTo : BallotProtocol :=
  let gotBumped := s.mCurrentBallot.all fun b => b.counter ≠ ballot.counter
  let compatible := s.mHighBallot.all (areBallotsCompatible ballot ·)
  { s with
    mCurrentBallot := some ballot
    -- invariant: h.value = b.value, and c set only when h is set
    mHighBallot := if compatible then s.mHighBallot else none
    mCommit := if compatible then s.mCommit else none
    mHeardFromQuorum := !gotBumped && s.mHeardFromQuorum }

def bumpToBallot (check : Bool) : BallotM Unit := do
  let s ← get
  dbgAssert (s.mPhase ≠ .EXTERNALIZE)
  dbgAssert (!check || s.mCurrentBallot.all fun b => (compareBallots ballot b).isGE)
  set (s.bumpedTo ballot)

def invariantsHold : Bool :=
  (s.mCurrentBallot.all fun b => b.counter ≠ 0)
    && (s.mPrepared.all fun p => s.mPreparedPrime.all (areBallotsLessAndIncompatible · p))
    && (s.mHighBallot.all fun h => s.mCurrentBallot.any (areBallotsLessAndCompatible h ·))
    && (s.mCommit.all fun c =>
      s.mHighBallot.any fun h =>
        areBallotsLessAndCompatible c h && s.mCurrentBallot.any (areBallotsLessAndCompatible h ·))
    && match s.mPhase with
      | .PREPARE => true
      | .CONFIRM => s.mCommit.isSome
      | .EXTERNALIZE => s.mCommit.isSome && s.mHighBallot.isSome

def checkInvariants : BallotM Unit := do
  let s ← get
  dbgAssert s.invariantsHold

def updateCurrentValue : BallotM Bool := do
  let s ← get
  if s.mPhase = .EXTERNALIZE then return false
  else
    match s.mCurrentBallot with
    | none => do
      bumpToBallot ballot true
      checkInvariants
      return true
    | some b => do
      dbgAssert (compareBallots b ballot).isLE
      if s.mCommit.any fun c => !areBallotsCompatible c ballot then return false
      else
        match compareBallots b ballot with
        | .lt => do
          bumpToBallot ballot true
          checkInvariants
          return true
        | .gt => return false
        | .eq => do
          checkInvariants
          return false

def updateCurrentIfNeeded (h : SCPBallot) : BallotM Bool := do
  let s ← get
  if s.mCurrentBallot.all fun b => compareBallots b h = .lt then do
    bumpToBallot h true
    return true
  else return false

/-- Without the timer that is started or stopped. -/
def checkHeardFromQuorum : BallotM Unit :=
  modify fun s =>
    match s.mCurrentBallot with
    | none => s
    | some b =>
      { s with
        mHeardFromQuorum := slot.isQuorum s.mLatestEnvelopes fun st =>
          match st.pledges with
          | .prepare p => b.counter ≤ p.ballot.counter
          | _ => true }

/-! ## Own statements -/

/-- The pledges of a node in phase PREPARE. -/
def preparePledges (s : BallotProtocol) : PreparePledges where
  quorumSetHash := slot.localNode.mQSetHash
  ballot := s.mCurrentBallot.getD {}
  nC := (s.mCommit.map (·.counter)).getD 0
  prepared := s.mPrepared
  preparedPrime := s.mPreparedPrime
  nH := (s.mHighBallot.map (·.counter)).getD 0

/-- What the node says in its phase; none where a null pointer is followed. -/
def createPledges (s : BallotProtocol) : Option Pledges :=
  match s.mPhase with
  | .PREPARE => return .prepare (preparePledges slot s)
  | .CONFIRM => do
    let ballot ← s.mCurrentBallot
    let prepared ← s.mPrepared
    let commit ← s.mCommit
    let high ← s.mHighBallot
    return .confirm
      { quorumSetHash := slot.localNode.mQSetHash
        ballot := ballot
        nPrepared := prepared.counter
        nCommit := commit.counter
        nH := high.counter }
  | .EXTERNALIZE => do
    let commit ← s.mCommit
    let high ← s.mHighBallot
    return .externalize
      { commit := commit
        nH := high.counter
        commitQuorumSetHash := slot.localNode.mQSetHash }

/-- With the node and the slot, which `Slot::createEnvelope` fills in before it
signs. -/
def createStatement : BallotM SCPStatement := do
  checkInvariants
  let s ← get
  let pledges ← deref (createPledges slot s)
  return ⟨slot.localNode.mNodeID, slot.mSlotIndex, pledges⟩

def signEnvelope (statement : SCPStatement) : BallotM Unit :=
  modify fun s => { s with signed := statement :: s.signed }

/-- Two envelopes that were set one after the other are never equal, the later
one is newer. -/
def sendLatestEnvelope : BallotM Unit :=
  modify fun s =>
    match s.mLastEnvelope with
    | none => s
    | some last =>
      if s.mCurrentMessageLevel = 0 ∧ s.mFullyValidated ∧ s.mLastEnvelopeEmit ≠ some last then
        { s with mLastEnvelopeEmit := some last, emitted := last :: s.emitted }
      else s

/-- The end of `emitCurrentStateStatement`. -/
def recordLastEnvelope (canEmit : Bool) (statement : SCPStatement) : BallotM Unit := do
  let s ← get
  if canEmit && s.mLastEnvelope.all (isNewerStatement · statement) then do
    set { s with mLastEnvelope := some statement }
    -- this will no-op if invoked from advanceSlot
    sendLatestEnvelope
  else return ()

/-- `processSelf` is `processEnvelope` for the node's own statements. -/
def emitCurrentStateStatement (processSelf : SCPStatement → BallotM EnvelopeState) :
    BallotM Unit := do
  let statement ← createStatement slot
  signEnvelope statement
  let s ← get
  if s.mLatestEnvelopes.lookup slot.localNode.mNodeID = some statement then return ()
  else do
    match ← processSelf statement with
    | .VALID => recordLastEnvelope s.mCurrentBallot.isSome statement
    | .INVALID => throw (.exception "moved to a bad state (ballot protocol)")

/-! ## Bumping the ballot -/

section

variable (emit : BallotM Unit) (value : Value) (c h : SCPBallot) (s : BallotProtocol) (n : UInt32)
  (hint : SCPStatement) (ballot : SCPBallot) (cur : Interval)

/-- `bumpState` with a counter. -/
def bumpStateTo : BallotM Bool := do
  let s ← get
  if s.mPhase = .EXTERNALIZE then return false
  else do
    let updated ← updateCurrentValue ⟨n, s.mValueOverride.getD value⟩
    if updated then do
      emit
      checkHeardFromQuorum slot
      return true
    else return false

def bumpState (force : Bool) : BallotM Bool := do
  let s ← get
  match s.mCurrentBallot with
  | none => bumpStateTo slot emit value 1
  | some b => if force then bumpStateTo slot emit value (b.counter + 1) else return false

/-- The candidate of the nomination protocol, else the value of the current
ballot; an empty one is none. -/
def abandonValue : Option Value :=
  match slot.driver.getLatestCompositeCandidate.filter (· ≠ []) with
  | some v => some v
  | none => (s.mCurrentBallot.map (·.value)).filter (· ≠ [])

def abandonBallot : BallotM Bool := do
  let s ← get
  match abandonValue slot s with
  | none => return false
  | some v => if n = 0 then bumpState slot emit v true else bumpStateTo slot emit v n

/-! ## Step 1 and 5: accepting a ballot as prepared -/

/-- The ballots a hint may help to prepare. -/
def getHintBallots (hint : SCPStatement) : List SCPBallot :=
  match hint.pledges with
  | .prepare prep => prep.ballot :: prep.prepared.toList ++ prep.preparedPrime.toList
  | .confirm con => [⟨con.nPrepared, con.ballot.value⟩, ⟨UINT32_MAX, con.ballot.value⟩]
  | .externalize ext => [⟨UINT32_MAX, ext.commit.value⟩]

/-- The ballots of a statement at or below `topVote`. -/
def candidatesBelow (topVote : SCPBallot) (st : SCPStatement) : List SCPBallot :=
  match st.pledges with
  | .prepare prep =>
    (prep.ballot :: prep.prepared.toList ++ prep.preparedPrime.toList).filter
      (areBallotsLessAndCompatible · topVote)
  | .confirm con =>
    if areBallotsCompatible topVote con.ballot then
      topVote :: (if con.nPrepared < topVote.counter then [⟨con.nPrepared, topVote.value⟩] else [])
    else []
  | .externalize ext => if areBallotsCompatible topVote ext.commit then [topVote] else []

/-- From the highest down. -/
def getPrepareCandidates : List SCPBallot :=
  descendingBallots <| (getHintBallots hint).flatMap fun topVote =>
    s.mLatestEnvelopes.entries.flatMap fun e => candidatesBelow topVote e.2

def setPrepared : BallotM Bool := do
  let s ← get
  match s.mPrepared with
  | none => do
    set { s with mPrepared := some ballot }
    return true
  | some p =>
    match compareBallots p ballot with
    | .lt => do
      -- as we're replacing p, we see if we should also replace p'
      set { s with
        mPrepared := some ballot
        mPreparedPrime := if areBallotsCompatible p ballot then s.mPreparedPrime else some p }
      return true
    | .gt =>
      if s.mPreparedPrime.all fun p' =>
          compareBallots p' ballot = .lt && !areBallotsCompatible p ballot then do
        set { s with mPreparedPrime := some ballot }
        return true
      else return false
    | .eq => return false

/-- Clears `c` if a ballot above `h` with another value is prepared. -/
def clearCommit : BallotM Bool := do
  let s ← get
  if s.mCommit.isSome && s.mHighBallot.any fun h =>
      s.mPrepared.any (areBallotsLessAndIncompatible h ·)
        || s.mPreparedPrime.any (areBallotsLessAndIncompatible h ·) then do
    dbgAssert (s.mPhase = .PREPARE)
    set { s with mCommit := none }
    return true
  else return false

def setAcceptPrepared : BallotM Bool := do
  let prepared ← setPrepared ballot
  let cleared ← clearCommit
  if prepared || cleared then do
    emit
    return true
  else return false

/-- In phase CONFIRM only a ballot that raises `p` is of interest. -/
def mayRaisePrepared : BallotM Bool := do
  let s ← get
  if s.mPhase = .CONFIRM then do
    let p ← deref s.mPrepared
    if areBallotsLessAndCompatible p ballot then do
      let c ← deref s.mCommit
      dbgAssert (areBallotsCompatible c ballot)
      return true
    else return false
  else return true

def acceptsPrepared : Bool :=
  !s.mPreparedPrime.any (fun p' => (compareBallots ballot p').isLE)
    && !s.mPrepared.any (areBallotsLessAndCompatible ballot ·)
    && slot.federatedAccept (votesPrepare ballot) (hasPreparedBallot ballot) s.mLatestEnvelopes

def acceptFirst : List SCPBallot → BallotM Bool
  | [] => return false
  | ballot :: rest => do
    let s ← get
    if ← mayRaisePrepared ballot then
      if acceptsPrepared slot s ballot then setAcceptPrepared emit ballot
      else acceptFirst rest
    else acceptFirst rest

def attemptAcceptPrepared : BallotM Bool := do
  let s ← get
  if s.mPhase = .EXTERNALIZE then return false
  else acceptFirst slot emit (getPrepareCandidates s hint)

/-! ## Step 2, 3 and 8: confirming a ballot as prepared -/

def setConfirmPrepared (newC newH : SCPBallot) : BallotM Bool := do
  let s ← get
  -- we don't set c/h if we're not on a compatible ballot
  let compatible := s.mCurrentBallot.all (areBallotsCompatible · newH)
  let raises := compatible && s.mHighBallot.all fun h => compareBallots newH h = .gt
  let commits := compatible && newC.counter ≠ 0
  dbgAssert (!commits || s.mCommit.isNone)
  set { s with
    mValueOverride := some newH.value
    mHighBallot := if raises then some newH else s.mHighBallot
    mCommit := if commits then some newC else s.mCommit }
  let updated ← updateCurrentIfNeeded newH
  if updated || raises || commits then do
    emit
    return true
  else return false

def ratifiesPrepared (s : BallotProtocol) (ballot : SCPBallot) : Bool :=
  slot.federatedRatify (hasPreparedBallot ballot) s.mLatestEnvelopes

/-- The new `h`, and the candidates from it on. -/
def findNewH (s : BallotProtocol) : List SCPBallot → Option (SCPBallot × List SCPBallot)
  | [] => none
  | ballot :: rest =>
    if s.mHighBallot.any fun h => (compareBallots h ballot).isGE then none
    else if ratifiesPrepared slot s ballot then some (ballot, ballot :: rest)
    else findNewH s rest

/-- The new `c`; the ballot 0 stands for no update. -/
def findNewC (s : BallotProtocol) (b newH newC : SCPBallot) : List SCPBallot → SCPBallot
  | [] => newC
  | ballot :: rest =>
    if compareBallots ballot b = .lt then newC
    -- c and h must be compatible
    else if !areBallotsLessAndCompatible ballot newH then findNewC s b newH newC rest
    else if ratifiesPrepared slot s ballot then findNewC s b newH ballot rest
    else newC

def attemptConfirmPrepared : BallotM Bool := do
  let s ← get
  if s.mPhase ≠ .PREPARE ∨ s.mPrepared.isNone then return false
  else
    match findNewH slot s (getPrepareCandidates s hint) with
    | none => return false
    | some (newH, rest) =>
      let newC :=
        if s.mCommit.isNone && !s.mPrepared.any (areBallotsLessAndIncompatible newH ·)
            && !s.mPreparedPrime.any (areBallotsLessAndIncompatible newH ·) then
          findNewC slot s (s.mCurrentBallot.getD {}) newH {} rest
        else {}
      setConfirmPrepared emit newC newH

/-! ## Step 4, 6 and 8: accepting a commit -/

/-- The boundaries come from the highest down; an interval that starts at 0 is
none. -/
def findExtendedInterval (pred : Interval → Bool) (candidate : Interval) :
    List UInt32 → Interval
  | [] => candidate
  | b :: boundaries =>
    if candidate.1 = 0 then
      -- first, find the high bound
      if pred (b, b) then findExtendedInterval pred (b, b) boundaries
      else findExtendedInterval pred candidate boundaries
    else if b > candidate.2 then findExtendedInterval pred candidate boundaries
    else if pred (b, candidate.2) then findExtendedInterval pred (b, candidate.2) boundaries
    -- could not extend further
    else candidate

def commitBoundaries (st : SCPStatement) : List UInt32 :=
  match st.pledges with
  | .prepare p => if areBallotsCompatible ballot p.ballot ∧ p.nC ≠ 0 then [p.nC, p.nH] else []
  | .confirm c => if areBallotsCompatible ballot c.ballot then [c.nCommit, c.nH] else []
  | .externalize e =>
    if areBallotsCompatible ballot e.commit then [e.commit.counter, e.nH, UINT32_MAX] else []

def getCommitBoundariesFromStatements : List UInt32 :=
  descendingCounters <| s.mLatestEnvelopes.entries.flatMap fun e => commitBoundaries ballot e.2

/-- The ballot a hint votes to commit. -/
def commitHint : Option SCPBallot :=
  match hint.pledges with
  | .prepare prep => if prep.nC ≠ 0 then some ⟨prep.nH, prep.ballot.value⟩ else none
  | .confirm con => some ⟨con.nH, con.ballot.value⟩
  | .externalize ext => some ⟨ext.nH, ext.commit.value⟩

def acceptsCommit : Bool :=
  slot.federatedAccept (votesCommit ballot cur) (commitPredicate ballot cur) s.mLatestEnvelopes

/-- The step into phase CONFIRM. -/
def enterConfirm (h : SCPBallot) : BallotM Bool := do
  let s ← get
  if s.mPhase = .PREPARE then do
    set { s with mPhase := .CONFIRM }
    if s.mCurrentBallot.any fun b => !areBallotsLessAndCompatible h b then
      bumpToBallot h false
      modify fun s => { s with mPreparedPrime := none }
      return true
    else
      modify fun s => { s with mPreparedPrime := none }
      return true
  else return false

def setAcceptCommit : BallotM Bool := do
  let s ← get
  let moves :=
    s.mHighBallot.all (compareBallots · h ≠ .eq) || s.mCommit.all (compareBallots · c ≠ .eq)
  set { s with
    mValueOverride := some h.value
    mCommit := if moves then some c else s.mCommit
    mHighBallot := if moves then some h else s.mHighBallot }
  let entered ← enterConfirm h
  if moves || entered then do
    let s ← get
    let high ← deref s.mHighBallot
    let _ ← updateCurrentIfNeeded high
    emit
    return true
  else return false

/-- In phase CONFIRM only the value of `h` is of interest. -/
def mayAcceptCommit : BallotM Bool := do
  let s ← get
  if s.mPhase = .CONFIRM then do
    let h ← deref s.mHighBallot
    return areBallotsCompatible ballot h
  else return true

/-- In phase CONFIRM only a higher `h` is of interest. -/
def raisesHigh (candidate : Interval) : BallotM Bool := do
  let s ← get
  if s.mPhase = .CONFIRM then do
    let h ← deref s.mHighBallot
    return candidate.2 > h.counter
  else return true

def attemptAcceptCommit : BallotM Bool := do
  let s ← get
  if s.mPhase = .EXTERNALIZE then return false
  else
    match commitHint hint with
    | none => return false
    | some ballot => do
      if ← mayAcceptCommit ballot then
        let candidate := findExtendedInterval (acceptsCommit slot s ballot) (0, 0)
          (getCommitBoundariesFromStatements s ballot)
        if candidate.1 ≠ 0 then
          if ← raisesHigh candidate then
            setAcceptCommit emit ⟨candidate.1, ballot.value⟩ ⟨candidate.2, ballot.value⟩
          else return false
        else return false
      else return false

/-! ## Step 7 and 8: confirming a commit -/

def setConfirmCommit : BallotM Bool := do
  modify fun s => { s with mCommit := some c, mHighBallot := some h }
  let _ ← updateCurrentIfNeeded h
  modify fun s => { s with mPhase := .EXTERNALIZE }
  emit
  return true

def ratifiesCommit : Bool :=
  slot.federatedRatify (commitPredicate ballot cur) s.mLatestEnvelopes

def attemptConfirmCommit : BallotM Bool := do
  let s ← get
  match s.mPhase, s.mHighBallot, s.mCommit, hint.pledges with
  | .CONFIRM, some _, some _, .prepare _ => return false
  | .CONFIRM, some _, some commit, _ =>
    match commitHint hint with
    | none => return false
    | some ballot =>
      if areBallotsCompatible ballot commit then
        let candidate := findExtendedInterval (ratifiesCommit slot s ballot) (0, 0)
          (getCommitBoundariesFromStatements s ballot)
        if candidate.1 ≠ 0 then
          setConfirmCommit emit ⟨candidate.1, ballot.value⟩ ⟨candidate.2, ballot.value⟩
        else return false
      else return false
  | _, _, _, _ => return false

/-! ## Step 9: catching up -/

def hasVBlockingSubsetStrictlyAheadOf : Bool :=
  slot.isVBlocking s.mLatestEnvelopes fun st => statementBallotCounter st > n

/-- The counters above the local one, from the lowest up. -/
def countersAhead (localCounter : UInt32) : List UInt32 :=
  (descendingCounters <| (s.mLatestEnvelopes.entries.map fun e =>
    statementBallotCounter e.2).filter (· > localCounter)).reverse

def attemptBump : BallotM Bool := do
  let s ← get
  let localCounter := (s.mCurrentBallot.map (·.counter)).getD 0
  if s.mPhase = .EXTERNALIZE then return false
  else if !hasVBlockingSubsetStrictlyAheadOf slot s localCounter then return false
  else
    match (countersAhead s localCounter).find? (!hasVBlockingSubsetStrictlyAheadOf slot s ·) with
    | none => return false
    | some n => abandonBallot slot emit n

end

/-! ## Advancing the slot -/

/-- Max number of transitions that can occur from processing one message. -/
def MAX_ADVANCE_SLOT_RECURSION : Nat := 50

/-- More bumps than there can be: each one raises the counter of the current
ballot, which falls back at most once, on the way into phase CONFIRM. -/
def MAX_BUMPS : Nat := 2 * 2 ^ 32

section

variable (emit : BallotM Unit)

/-- The loop around `attemptBump`. -/
def bumpLoop : Nat → BallotM Bool
  | 0 => throw .diverges
  | bumps + 1 => do
    if ← attemptBump slot emit then do
      let _ ← bumpLoop bumps
      return true
    else return false

/-- Only bump after we're done with everything else. -/
def catchUp : BallotM Bool := do
  let s ← get
  if s.mCurrentMessageLevel = 1 then do
    let didBump ← bumpLoop slot emit MAX_BUMPS
    checkHeardFromQuorum slot
    return didBump
  else return false

/-- The steps of the white paper, in order. -/
def advanceSteps (hint : SCPStatement) : BallotM Unit := do
  let w1 ← attemptAcceptPrepared slot emit hint
  let w2 ← attemptConfirmPrepared slot emit hint
  let w3 ← attemptAcceptCommit slot emit hint
  let w4 ← attemptConfirmCommit slot emit hint
  let w5 ← catchUp slot emit
  modify fun s => { s with mCurrentMessageLevel := s.mCurrentMessageLevel - 1 }
  if w1 || w2 || w3 || w4 || w5 then sendLatestEnvelope else return ()

end

def isNewerThanLatest (s : BallotProtocol) (st : SCPStatement) : Bool :=
  match s.mLatestEnvelopes.lookup st.nodeID with
  | none => true
  | some oldst => isNewerStatement oldst st

def recordEnvelope (st : SCPStatement) : BallotM Unit :=
  modify fun s => { s with mLatestEnvelopes := s.mLatestEnvelopes.insert st.nodeID st }

/-- The part of `processEnvelope` after the checks. -/
def processValid (advance : SCPStatement → BallotM Unit) (statement : SCPStatement)
    (level : ValidationLevel) : BallotM EnvelopeState := do
  let s ← get
  if s.mPhase ≠ .EXTERNALIZE then do
    set { s with
      mFullyValidated :=
        s.mFullyValidated && decide (level ≠ ValidationLevel.kMaybeValidValue) }
    recordEnvelope statement
    advance statement
    return .VALID
  else do
    let commit ← deref s.mCommit
    if commit.value = (getWorkingBallot statement).value then do
      recordEnvelope statement
      return .VALID
    else return .INVALID

def processEnvelopeWith (advance : SCPStatement → BallotM Unit) (statement : SCPStatement)
    (self : Bool) : BallotM EnvelopeState := do
  let s ← get
  dbgAssert (statement.slotIndex = slot.mSlotIndex)
  if !isStatementSane slot statement self then return .INVALID
  else if !isNewerThanLatest s statement then return .INVALID
  else if validateValues slot statement = .kInvalidValue then return .INVALID
  else processValid advance statement (validateValues slot statement)

/-- `depth` is how many more nested calls the limit on
`mCurrentMessageLevel` can allow. -/
def advanceSlot : Nat → SCPStatement → BallotM Unit
  | 0, _ => throw (.exception "maximum number of transitions reached in advanceSlot")
  | depth + 1, hint => do
    let s ← get
    set { s with mCurrentMessageLevel := s.mCurrentMessageLevel + 1 }
    if s.mCurrentMessageLevel + 1 ≥ MAX_ADVANCE_SLOT_RECURSION then
      throw (.exception "maximum number of transitions reached in advanceSlot")
    else
      advanceSteps slot
        (emitCurrentStateStatement slot (processEnvelopeWith slot (advanceSlot depth) · true)) hint

/-! ## Entry points -/

def processEnvelope (statement : SCPStatement) (self : Bool) : BallotM EnvelopeState :=
  processEnvelopeWith slot (advanceSlot slot MAX_ADVANCE_SLOT_RECURSION) statement self

def emitCurrentState : BallotM Unit :=
  emitCurrentStateStatement slot (processEnvelope slot · true)

def ballotProtocolTimerExpired : BallotM Bool := abandonBallot slot (emitCurrentState slot) 0

end BallotProtocol

end KinesisCore

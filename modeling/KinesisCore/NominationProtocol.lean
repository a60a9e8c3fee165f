import KinesisCore.BallotProtocol
import KinesisCore.StlSet

/-!
# The nomination protocol (`NominationProtocol.cpp`)

One node's part of nomination for one slot: it votes for values, accepts values that
enough others voted for or accepted, and takes accepted values that a quorum accepted as
candidates. Each change of votes or accepted values makes a nomination of the node's own,
which it hands to itself like any other; `depth` bounds how deep these deliveries nest.

The leaders of a round are taken as given. Timers and notifications of the driver are
left out, but for the nominations that are sent.
-/

namespace KinesisCore

abbrev ValueWrapperPtrSet := Stl.OrderedSet Value

structure SCPNomination where
  quorumSetHash : Hash
  votes : List Value
  accepted : List Value
  deriving Repr, DecidableEq

/-- How a call can end other than by returning: an exception of the protocol, or a failure
of the driver or of the ballot protocol. -/
inductive NominationFailure where
  | exception (what : String)
  | elsewhere (failure : Failure)
  | diverges
  deriving Repr, DecidableEq

/-- What `Slot::bumpState` may change here. -/
structure Bumped where
  stopped : Bool
  fullyValidated : Bool

/-- What the protocol asks of the driver and of the slot. -/
structure NominationDriver where
  getQSet : Hash → Option SCPQuorumSet
  /-- For the slot, in nomination. -/
  validateValue : Value → ValidationLevel
  extractValidValue : Value → Option Value
  /-- For the previous value, the round and the value. -/
  computeValueHash : Value → Nat → Value → UInt64
  combineCandidates : List Value → Except Failure Value
  /-- The nth bump, with its value. -/
  bumpState : Nat → Value → Except Failure Bumped

/-- The number of a round and its leaders. -/
structure Round where
  number : Nat
  leaders : List NodeID

structure NominationProtocol where
  mRoundNumber : Nat := 0
  mVotes : ValueWrapperPtrSet := ∅
  mAccepted : ValueWrapperPtrSet := ∅
  mCandidates : ValueWrapperPtrSet := ∅
  mLatestNominations : AList (fun _ : NodeID => SCPNomination) := ∅
  mLastEnvelope : Option SCPNomination := none
  mRoundLeaders : List NodeID := []
  mNominationStarted : Bool := false
  mLatestCompositeCandidate : Option Value := none
  mPreviousValue : Value := []
  /-- Of the slot. -/
  mFullyValidated : Bool
  /-- How often `Slot::bumpState` was called. -/
  bumps : Nat := 0
  /-- All that went through `emitEnvelope`, the last first. -/
  emitted : List SCPNomination := []

abbrev NominationM := EStateM NominationFailure NominationProtocol

namespace NominationProtocol

/-! ## Nominations -/

/-- Whether `p` is a subset of `v`, and `notEqual`. -/
def isSubsetHelper (p v : List Value) : Bool × Bool :=
  if p.length ≤ v.length then
    if Stl.includes v p then (true, p.length ≠ v.length) else (false, true)
  else (false, true)

def isNewerStatement (oldst st : SCPNomination) : Bool :=
  let votes := isSubsetHelper oldst.votes st.votes
  if votes.1 then
    let accepted := isSubsetHelper oldst.accepted st.accepted
    if accepted.1 then votes.2 || accepted.2 else false
  else false

def isSane (nom : SCPNomination) : Bool :=
  nom.votes.length + nom.accepted.length ≠ 0 && decide (nom.votes.IsChain (· < ·))
    && decide (nom.accepted.IsChain (· < ·))

def acceptPredicate (v : Value) (nom : SCPNomination) : Bool := nom.accepted.contains v

/-- The values that `applyAll` goes through. -/
def allValues (nom : SCPNomination) : List Value :=
  nom.votes ++ nom.accepted.filter fun a => !nom.votes.contains a

variable (node : LocalNode) (driver : NominationDriver) (value : Value) (modified : Bool)
  (emit : NominationM Unit) (s : NominationProtocol) (nodeID : NodeID) (nom : SCPNomination)

def federatedAccept (voted accepted : SCPNomination → Bool) : Bool :=
  LocalNode.isVBlocking node.mQSet (LocalNode.nodesOf s.mLatestNominations accepted)
    || LocalNode.isQuorum s.mLatestNominations (driver.getQSet ·.quorumSetHash) node.mQSet
      fun nom => accepted nom || voted nom

def federatedRatify (voted : SCPNomination → Bool) : Bool :=
  LocalNode.isQuorum s.mLatestNominations (driver.getQSet ·.quorumSetHash) node.mQSet voted

/-! ## Values to vote for -/

def hashValue (value : Value) : NominationM UInt64 := do
  let s ← get
  if s.mPreviousValue = [] then throw (.elsewhere .abort)
  else return driver.computeValueHash s.mPreviousValue s.mRoundNumber value

/-- The value itself if it is valid, or one made of it. -/
def valueToNominate (value : Value) : Option Value :=
  if driver.validateValue value = .kFullyValidatedValue then some value
  else driver.extractValidValue value

/-- The body of the loop in `getNewValueFromNomination`: the new vote and its hash. -/
def higherValue (best : Option Value × UInt64) (value : Value) :
    NominationM (Option Value × UInt64) := do
  match valueToNominate driver value with
  | none => return best
  | some v => do
    let s ← get
    if v ∈ s.mVotes then return best
    else do
      let curHash ← hashValue driver v
      if curHash ≥ best.2 then return (some v, curHash) else return best

def getNewValueFromNomination (nom : SCPNomination) : NominationM (Option Value) := do
  let best ← (allValues nom).foldlM (higherValue driver) (none, 0)
  return best.1

/-- Votes for the value, if it is new; returns whether there was a change. -/
def voteFor : NominationM Bool := do
  let s ← get
  if value ∈ s.mVotes then return false
  else do
    set { s with mVotes := s.mVotes.emplace value }
    return true

/-- Votes for the highest new value of a leader. -/
def voteWithLeader (updated : Bool) (nom : SCPNomination) : NominationM Bool := do
  match ← getNewValueFromNomination driver nom with
  | none => return updated
  | some newVote => do
    modify fun s => { s with mVotes := s.mVotes.emplace newVote }
    return true

/-! ## Own nominations -/

def ownNomination : SCPNomination :=
  ⟨node.mQSetHash, s.mVotes.elems, s.mAccepted.elems⟩

def emitNominationWith (process : NodeID → SCPNomination → NominationM EnvelopeState) :
    NominationM Unit := do
  let st := ownNomination node (← get)
  match ← process node.mNodeID st with
  | .VALID => do
    let s ← get
    if s.mLastEnvelope.all (isNewerStatement · st) then
      set { s with
        mLastEnvelope := some st
        emitted := if s.mFullyValidated then st :: s.emitted else s.emitted }
    else return ()
  | .INVALID => throw (.exception "moved to a bad state (nomination)")

/-! ## Processing a nomination -/

def isNewerThanLatest : Bool :=
  match s.mLatestNominations.lookup nodeID with
  | none => true
  | some oldst => isNewerStatement oldst nom

def recordEnvelope : NominationM Unit :=
  modify fun s => { s with mLatestNominations := s.mLatestNominations.insert nodeID nom }

/-- The body of the loop that promotes votes to accepted. -/
def acceptVote (v : Value) : NominationM Bool := do
  let s ← get
  if v ∈ s.mAccepted then return modified
  else if federatedAccept node driver s (·.votes.contains v) (acceptPredicate v) then
    if driver.validateValue v = .kFullyValidatedValue then do
      set { s with mAccepted := s.mAccepted.emplace v, mVotes := s.mVotes.emplace v }
      return true
    else
      match driver.extractValidValue v with
      | none => return modified
      | some toVote => do
        let inserted ← voteFor toVote
        return modified || inserted
  else return modified

/-- The body of the loop that promotes accepted values to candidates. -/
def ratifyAccepted (newCandidates : Bool) (a : Value) : NominationM Bool := do
  let s ← get
  if a ∈ s.mCandidates then return newCandidates
  else if federatedRatify node driver s (acceptPredicate a) then do
    set { s with mCandidates := s.mCandidates.emplace a }
    return true
  else return newCandidates

/-- Round leaders are followed while there is no candidate. -/
def followLeader : NominationM Bool := do
  let s ← get
  if s.mCandidates.elems = [] ∧ nodeID ∈ s.mRoundLeaders then voteWithLeader driver modified nom
  else return modified

def bumpState : NominationM Unit := do
  let s ← get
  set { s with bumps := s.bumps + 1 }
  match driver.bumpState s.bumps value with
  | .error e => throw (.elsewhere e)
  | .ok bumped =>
    modify fun s => { s with
      mNominationStarted := s.mNominationStarted && !bumped.stopped
      mFullyValidated := bumped.fullyValidated }

def updateComposite : NominationM Unit := do
  let s ← get
  match driver.combineCandidates s.mCandidates.elems with
  | .error e => throw (.elsewhere e)
  | .ok composite => do
    set { s with mLatestCompositeCandidate := some composite }
    bumpState driver composite

/-- The part of `processEnvelope` after the envelope was recorded. -/
def advance : NominationM Unit := do
  let modified ← nom.votes.foldlM (acceptVote node driver) false
  let s ← get
  let newCandidates ← s.mAccepted.elems.foldlM (ratifyAccepted node driver) false
  let modified ← followLeader driver modified nodeID nom
  (if modified then emit else pure ())
  (if newCandidates then updateComposite driver else pure ())

def processEnvelopeWith : NominationM EnvelopeState := do
  let s ← get
  if !isNewerThanLatest s nodeID nom then return .INVALID
  else if !isSane nom then return .INVALID
  else do
    recordEnvelope nodeID nom
    (if s.mNominationStarted then advance node driver emit nodeID nom else pure ())
    return .VALID

def processEnvelope : Nat → NodeID → SCPNomination → NominationM EnvelopeState
  | 0, _, _ => throw .diverges
  | depth + 1, nodeID, nom =>
    processEnvelopeWith node driver (emitNominationWith node (processEnvelope depth)) nodeID nom

def emitNomination (depth : Nat) : NominationM Unit :=
  emitNominationWith node (processEnvelope node driver depth)

/-! ## Nominating -/

/-- The body of the loop over the leaders. -/
def echoLeader (updated : Bool) (leader : NodeID) : NominationM Bool := do
  let s ← get
  match s.mLatestNominations.lookup leader with
  | none => return updated
  | some nom => voteWithLeader driver updated nom

/-- `round` is what `updateRoundLeaders` leaves. -/
def nominate (depth : Nat) (round : Round) (value previousValue : Value) (timedout : Bool) :
    NominationM Bool := do
  let s ← get
  if timedout && !s.mNominationStarted then return false
  else do
    set { s with
      mNominationStarted := true
      mPreviousValue := previousValue
      mRoundNumber := round.number
      mRoundLeaders := round.leaders }
    let updated ← (if node.mNodeID ∈ round.leaders then voteFor value else pure false)
    let updated ← round.leaders.foldlM (echoLeader driver) updated
    (if updated then emitNomination node driver depth else pure ())
    return updated

def stopNomination : NominationM Unit := modify fun s => { s with mNominationStarted := false }

end NominationProtocol

/-! ## Runs -/

inductive NominationCall where
  | nominate (round : Round) (value previousValue : Value) (timedout : Bool)
  | processEnvelope (nodeID : NodeID) (nom : SCPNomination)
  | stopNomination

/-- What the call does, with nested deliveries up to `depth`. -/
def NominationCall.run (node : LocalNode) (driver : NominationDriver) (depth : Nat) :
    NominationCall → NominationM Unit
  | .nominate round value previousValue timedout => do
    let _ ← NominationProtocol.nominate node driver depth round value previousValue timedout
  | .processEnvelope nodeID nom => do
    let _ ← NominationProtocol.processEnvelope node driver depth nodeID nom
  | .stopNomination => NominationProtocol.stopNomination

/-- The calls, the last one first, lead from the one state to the other; a call that fails
leaves the state as it was then. -/
inductive NominationRun (node : LocalNode) (s : NominationProtocol) :
    List (NominationDriver × NominationCall) → NominationProtocol → Prop
  | nil : NominationRun node s [] s
  | call {calls : List (NominationDriver × NominationCall)} {s' : NominationProtocol}
      (h : NominationRun node s calls s') (driver : NominationDriver) (depth : Nat)
      (c : NominationCall) :
      NominationRun node s ((driver, c) :: calls) (EStateM.stateAfter (c.run node driver depth) s')

end KinesisCore

import KinesisCore.LedgerHeader
import Mathlib.Data.List.Dedup
import Mathlib.Data.List.Sort

/-!
# Ballots and statements (`Stellar-SCP.x`, `BallotProtocol.cpp`)

What nodes tell each other in the ballot protocol: how far each has prepared,
accepted and confirmed ballots. Here are the statements, the order on them, and
the predicates by which a node reads the statements of others.
-/

namespace KinesisCore

open Xdr

/-- A consensus value on the wire. -/
abbrev Value := Bytes

inductive ValidationLevel where
  | kInvalidValue
  | kMaybeValidValue
  | kFullyValidatedValue
  deriving Repr, DecidableEq

structure SCPBallot where
  counter : UInt32 := 0
  value : Value := []
  deriving Repr, DecidableEq

/-- The pledges of a PREPARE statement. -/
structure PreparePledges where
  quorumSetHash : Hash
  ballot : SCPBallot
  prepared : Option SCPBallot := none
  preparedPrime : Option SCPBallot := none
  nC : UInt32 := 0
  nH : UInt32 := 0
  deriving Repr, DecidableEq

structure ConfirmPledges where
  ballot : SCPBallot
  nPrepared : UInt32
  nCommit : UInt32
  nH : UInt32
  quorumSetHash : Hash
  deriving Repr, DecidableEq

structure ExternalizePledges where
  commit : SCPBallot
  nH : UInt32
  commitQuorumSetHash : Hash
  deriving Repr, DecidableEq

inductive Pledges where
  | prepare (p : PreparePledges)
  | confirm (c : ConfirmPledges)
  | externalize (e : ExternalizePledges)
  deriving Repr, DecidableEq

/-- A statement of the ballot protocol; nominations are handled elsewhere. -/
structure SCPStatement where
  nodeID : NodeID
  slotIndex : UInt64
  pledges : Pledges
  deriving Repr, DecidableEq

def Pledges.type : Pledges → Nat
  | .prepare _ => 0
  | .confirm _ => 1
  | .externalize _ => 2

namespace BallotProtocol

/-! ## Ballots -/

variable (b1 b2 : SCPBallot) (ballot : SCPBallot) (st : SCPStatement)

def compareBallots : Ordering :=
  if b1.counter < b2.counter then .lt
  else if b2.counter < b1.counter then .gt
  else if b1.value < b2.value then .lt
  else if b2.value < b1.value then .gt
  else .eq

theorem eq_of_compareBallots {b1 b2 : SCPBallot} (h : compareBallots b1 b2 = .eq) : b1 = b2 := by
  unfold compareBallots at h
  split_ifs at h with h₁ h₂ h₃ h₄
  have hcounter : b1.counter = b2.counter := by
    rw [UInt32.lt_iff_toNat_lt] at h₁ h₂
    exact UInt32.toNat_inj.mp (by omega)
  have hvalue : b1.value = b2.value := List.le_antisymm h₄ h₃
  cases b1
  cases b2
  simp_all

/-- A missing ballot is below all others. -/
def compareOptionalBallots : Option SCPBallot → Option SCPBallot → Ordering
  | some b1, some b2 => compareBallots b1 b2
  | some _, none => .gt
  | none, some _ => .lt
  | none, none => .eq

def areBallotsCompatible : Bool := b1.value = b2.value

def areBallotsLessAndIncompatible : Bool :=
  (compareBallots b1 b2).isLE && !areBallotsCompatible b1 b2

def areBallotsLessAndCompatible : Bool :=
  (compareBallots b1 b2).isLE && areBallotsCompatible b1 b2

/-- A set of ballots from its highest element down. -/
def descendingBallots (ballots : List SCPBallot) : List SCPBallot :=
  ballots.dedup.insertionSort fun b1 b2 => (compareBallots b2 b1).isLE

/-- A set of counters from its highest element down. -/
def descendingCounters (counters : List UInt32) : List UInt32 :=
  counters.dedup.insertionSort fun n m => m ≤ n

/-! ## Newer statements -/

def isNewerPrepare (oldPrep prep : PreparePledges) : Bool :=
  match compareBallots oldPrep.ballot prep.ballot with
  | .lt => true
  | .gt => false
  | .eq =>
    match compareOptionalBallots oldPrep.prepared prep.prepared with
    | .lt => true
    | .gt => false
    | .eq =>
      match compareOptionalBallots oldPrep.preparedPrime prep.preparedPrime with
      | .lt => true
      | .gt => false
      | .eq => oldPrep.nH < prep.nH

def isNewerConfirm (oldC c : ConfirmPledges) : Bool :=
  match compareBallots oldC.ballot c.ballot with
  | .lt => true
  | .gt => false
  | .eq => if oldC.nPrepared = c.nPrepared then oldC.nH < c.nH else oldC.nPrepared < c.nPrepared

def isNewerStatement (oldst st : SCPStatement) : Bool :=
  match oldst.pledges, st.pledges with
  | .prepare oldPrep, .prepare prep => isNewerPrepare oldPrep prep
  | .confirm oldC, .confirm c => isNewerConfirm oldC c
  -- can't have duplicate EXTERNALIZE statements
  | .externalize _, .externalize _ => false
  | old, new => old.type < new.type

/-! ## Reading a statement -/

def getWorkingBallot : SCPBallot :=
  match st.pledges with
  | .prepare p => p.ballot
  | .confirm c => ⟨c.nCommit, c.ballot.value⟩
  | .externalize e => e.commit

def UINT32_MAX : UInt32 := 4294967295

def statementBallotCounter : UInt32 :=
  match st.pledges with
  | .prepare p => p.ballot.counter
  | .confirm c => c.ballot.counter
  | .externalize _ => UINT32_MAX

def getStatementValues : List Value :=
  match st.pledges with
  | .prepare p =>
    (if p.ballot.counter ≠ 0 then [p.ballot.value] else [])
      ++ p.prepared.toList.map (·.value) ++ p.preparedPrime.toList.map (·.value)
  | .confirm c => [c.ballot.value]
  | .externalize e => [e.commit.value]

/-- Whether a statement votes to prepare the ballot. -/
def votesPrepare : Bool :=
  match st.pledges with
  | .prepare p => areBallotsLessAndCompatible ballot p.ballot
  | .confirm c => areBallotsCompatible ballot c.ballot
  | .externalize e => areBallotsCompatible ballot e.commit

def hasPreparedBallot : Bool :=
  match st.pledges with
  | .prepare p =>
    p.prepared.any (areBallotsLessAndCompatible ballot ·)
      || p.preparedPrime.any (areBallotsLessAndCompatible ballot ·)
  | .confirm c => areBallotsLessAndCompatible ballot ⟨c.nPrepared, c.ballot.value⟩
  | .externalize e => areBallotsCompatible ballot e.commit

/-- An interval of counters, both ends included. -/
abbrev Interval := UInt32 × UInt32

/-- Whether a statement votes to commit the ballot's value at the counters in
`cur`. -/
def votesCommit (cur : Interval) (st : SCPStatement) : Bool :=
  match st.pledges with
  | .prepare p =>
    areBallotsCompatible ballot p.ballot && p.nC ≠ 0 && p.nC ≤ cur.1 && cur.2 ≤ p.nH
  | .confirm c => areBallotsCompatible ballot c.ballot && c.nCommit ≤ cur.1
  | .externalize e => areBallotsCompatible ballot e.commit && e.commit.counter ≤ cur.1

/-- Whether a statement commits the ballot's value at the counters in `check`. -/
def commitPredicate (check : Interval) (st : SCPStatement) : Bool :=
  match st.pledges with
  | .prepare _ => false
  | .confirm c => areBallotsCompatible ballot c.ballot && c.nCommit ≤ check.1 && check.2 ≤ c.nH
  | .externalize e => areBallotsCompatible ballot e.commit && e.commit.counter ≤ check.1

end BallotProtocol

end KinesisCore

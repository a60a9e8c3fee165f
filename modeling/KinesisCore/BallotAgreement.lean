import KinesisCore.BallotCommit

/-!
# Agreement of the ballot protocol

A network runs the ballot protocol for one slot: its well-behaved nodes handle
statements, bumps and timers one at a time, and the rest is up to the others.
A statement in the name of a well-behaved node has been signed by it; apart from
that any statement can arrive anywhere at any time, or never. If the network without
the ill-behaved nodes has quorum intersection, well-behaved nodes externalize one
value.
-/

namespace KinesisCore

open EStateM BallotProtocol Function

structure Network where
  nodes : Finset NodeID
  wellBehaved : Finset NodeID
  qSet : NodeID → SCPQuorumSet
  qSetHash : NodeID → Hash
  slotIndex : UInt64
  /-- The quorum sets in use, by their hash. -/
  named : Hash → Option SCPQuorumSet
  wellBehaved_subset : wellBehaved ⊆ nodes
  sane : ∀ v ∈ nodes, isQuorumSetSane (qSet v) false = .ok ()
  named_qSetHash : ∀ v ∈ wellBehaved, named (qSetHash v) = some (qSet v)

/-- A node, with whether its process was aborted or hangs. -/
structure NodeState where
  protocol : BallotProtocol
  halted : Bool := false

abbrev World := NodeID → NodeState

/-- What a node reacts to. -/
inductive ScpEvent where
  | deliver (st : SCPStatement)
  | bumpState (value : Value) (force : Bool)
  | timerExpired

def ScpEvent.handle (slot : Slot) : ScpEvent → BallotM Unit
  | .deliver st => do
    let _ ← processEnvelope slot st false
  | .bumpState value force => do
    let _ ← BallotProtocol.bumpState slot (emitCurrentState slot) value force
  | .timerExpired => do
    let _ ← ballotProtocolTimerExpired slot

namespace NodeState

variable (n : NodeState) (slot : Slot)

/-- How a call leaves a node: after an exception it goes on from where it was. -/
def run (handle : BallotM Unit) : NodeState :=
  match handle n.protocol with
  | .ok _ s => ⟨s, false⟩
  | .error (.exception _) s => ⟨s, false⟩
  | .error _ s => ⟨s, true⟩

theorem run_protocol (handle : BallotM Unit) :
    (n.run handle).protocol = stateAfter handle n.protocol := by
  unfold run stateAfter
  cases handle n.protocol with
  | ok a s => rfl
  | error e s => cases e <;> rfl

def react (ev : ScpEvent) : NodeState := n.run (ev.handle slot)

end NodeState

variable {I A : BallotProtocol → Prop} {ev : ScpEvent} {s : BallotProtocol}

/-- Events, where delivering a statement is left to show. -/
theorem BallotProtocol.Bumps.handle {E : Failure → BallotProtocol → Prop}
    {offered : Value → Prop} {slot : Slot}
    (hB : Bumps slot offered E I A (emitCurrentState slot)) (hs : I s)
    (hoffered : ∀ v force, ev = .bumpState v force → offered v)
    (hadvance : ∀ st, ev = .deliver st → Admitted slot s st false → ∀ fullyValidated,
      Wp E (advanceSlot slot MAX_ADVANCE_SLOT_RECURSION st) (s.recorded st fullyValidated)
        fun _ => I)
    (hrecord : ∀ st, ev = .deliver st → Admitted slot s st false →
      I (s.recorded st s.mFullyValidated)) :
    Wp E (ev.handle slot) s fun _ => I := by
  cases ev with
  | deliver st =>
    simp only [ScpEvent.handle, wp_bind, wp_pure]
    exact wp_processEnvelopeWith (hB.abort s hs) (fun _ => hs)
      (fun hadmitted _ => hadvance st rfl hadmitted)
      (fun hadmitted _ _ _ _ => hrecord st rfl hadmitted) fun _ _ _ _ => hs
  | bumpState value force =>
    simp only [ScpEvent.handle, wp_bind, wp_pure]
    exact hB.bumpState hs (.inr (hoffered value force rfl))
  | timerExpired =>
    simp only [ScpEvent.handle, wp_bind, wp_pure]
    exact hB.abandonBallot hs 0

/-- An event keeps what survives, where the statement that arrives is known. -/
theorem BallotProtocol.Survives.handle {G : SCPStatement → Prop}
    {slot : Slot} (h : Survives slot I A G) (hs : I s)
    (hdeliver : ∀ st, ev = .deliver st → Admitted slot s st false →
      G st ∧ ∀ fullyValidated, I (s.recorded st fullyValidated)) :
    Wp (fun _ => I) (ev.handle slot) s fun _ => I := by
  refine (h.bumps h.emitCurrentState).handle hs (fun _ _ _ => trivial) ?_ ?_
  · intro st hst hadmitted fullyValidated
    obtain ⟨hG, hrecord⟩ := hdeliver st hst hadmitted
    exact h.advanceSlot _ st _ hG (hrecord fullyValidated)
  · intro st hst hadmitted
    exact (hdeliver st hst hadmitted).2 s.mFullyValidated

namespace Network

variable (net : Network) (w : World) (v : NodeID)

def localNode : LocalNode := ⟨v, net.qSet v, net.qSetHash v⟩

def slot (driver : SCPDriver) : Slot := ⟨net.slotIndex, net.localNode v, driver⟩

/-- The nodes with their slices. -/
def fbas : Fbas NodeID := ⟨net.nodes, fun v => (net.qSet v).slices⟩

def illBehaved : Set NodeID := { v | v ∈ net.nodes ∧ v ∉ net.wellBehaved }

/-- Signatures cannot be forged. -/
def Authentic (st : SCPStatement) : Prop :=
  st.nodeID ∈ net.nodes ∧ (st.nodeID ∈ net.wellBehaved → st ∈ (w st.nodeID).protocol.signed)

def CanHappen : ScpEvent → Prop
  | .deliver st => net.Authentic w st
  | _ => True

/-- A well-behaved node that still runs reacts to an event. Its driver may have any
opinion on values and candidates and know any of the quorum sets. -/
inductive Step (w : World) : World → Prop
  | react (v : NodeID) (driver : SCPDriver) (ev : ScpEvent) (hv : v ∈ net.wellBehaved)
      (hruns : (w v).halted = false)
      (hdriver : ∀ h q, driver.getQSet h = some q → net.named h = some q)
      (hev : net.CanHappen w ev) :
      Step w (update w v ((w v).react (net.slot v driver) ev))

inductive Reachable : World → Prop
  | init (isValidator : NodeID → Bool) :
      Reachable fun v => ⟨{ mFullyValidated := isValidator v }, false⟩
  | step {w w' : World} (h : Reachable w) (hs : net.Step w w') : Reachable w'

/-! ## Every node stands by what it accepted -/

/-- What all well-behaved nodes keep. -/
def AllSteadfast : Prop :=
  ∀ v ∈ net.wellBehaved, Steadfast net.named (net.localNode v) (net.Authentic w) [] (w v).protocol

variable {net}

theorem standing_init (node : LocalNode) (auth : SCPStatement → Prop) (isValidator : Bool) :
    Standing net.named node auth [] { mFullyValidated := isValidator } where
  steadfast := by
    refine ⟨fun n st h => ?_, nofun, absurd rfl, nofun, nofun⟩
    cases h
  current h := absurd rfl h

variable {auth : SCPStatement → Prop} {base : List SCPStatement} {s : BallotProtocol}

/-- One event at one node. -/
theorem standing_handle {slot : Slot} {ev : ScpEvent}
    (hlaw : ∀ h q, slot.driver.getQSet h = some q → net.named h = some q)
    (hev : ∀ st, ev = .deliver st → auth st)
    (h : Standing net.named slot.localNode auth base s) :
    Standing net.named slot.localNode auth base (stateAfter (ev.handle slot) s) := by
  refine Wp.stateAfter ((standing_survives hlaw).handle h fun st hst _ => ?_) (fun _ _ hs' => hs')
    fun _ _ hs' => hs'
  exact ⟨trivial, h.record (.inl (hev st hst))⟩

/-- More statements can be heard when more are signed. -/
theorem standing_mono {node : LocalNode} {auth' : SCPStatement → Prop}
    (h : Standing net.named node auth base s) (hle : ∀ st, auth st → auth' st) :
    Standing net.named node auth' [] s where
  steadfast :=
    { heard := fun n st hst => (h.steadfast.heard n st hst).imp_right (Or.imp_left (hle st))
      truthful := h.steadfast.truthful
      committed := h.steadfast.committed
      supported := fun hp x hx =>
        (h.steadfast.supported hp x hx).mono fun st hst => hst.imp_left (hle st)
      grows := nofun }
  current := h.current

/-- What all well-behaved nodes keep, and that they have a ballot. -/
theorem standing_step {w w' : World} (h : ∀ v ∈ net.wellBehaved,
      Standing net.named (net.localNode v) (net.Authentic w) [] (w v).protocol)
    (hs : net.Step w w') : ∀ v ∈ net.wellBehaved,
      Standing net.named (net.localNode v) (net.Authentic w') [] (w' v).protocol := by
  obtain ⟨v, driver, ev, hv, -, hdriver, hev⟩ := hs
  have hstart : Standing net.named (net.localNode v) (net.Authentic w)
      (w v).protocol.signed (w v).protocol :=
    ⟨{ (h v hv).steadfast with grows := fun _ hst => hst }, (h v hv).current⟩
  have hend : Standing net.named (net.slot v driver).localNode (net.Authentic w)
      (w v).protocol.signed ((w v).react (net.slot v driver) ev).protocol := by
    rw [NodeState.react, NodeState.run_protocol]
    refine standing_handle hdriver ?_ hstart
    rintro st rfl
    exact hev
  -- what was authentic before is authentic after: nobody unsigns anything
  have hle : ∀ st, net.Authentic w st →
      net.Authentic (update w v ((w v).react (net.slot v driver) ev)) st := by
    rintro st ⟨hnode, hsigned⟩
    refine ⟨hnode, fun hgood => ?_⟩
    by_cases hst : st.nodeID = v
    · rw [hst, update_self]
      exact hend.steadfast.grows st (hst ▸ hsigned hgood)
    · rw [update_of_ne hst]
      exact hsigned hgood
  intro u hu
  by_cases huv : u = v
  · subst huv
    rw [update_self]
    exact standing_mono hend hle
  · rw [update_of_ne huv]
    exact standing_mono (h u hu) hle

theorem allSteadfast_of_reachable {w : World} (h : net.Reachable w) : net.AllSteadfast w := by
  have hstanding : ∀ v ∈ net.wellBehaved,
      Standing net.named (net.localNode v) (net.Authentic w) [] (w v).protocol := by
    induction h with
    | init isValidator => exact fun v _ => standing_init _ _ _
    | step _ hs ih => exact standing_step ih hs
  exact fun v hv => (hstanding v hv).steadfast

/-! ## One value -/

/-- The node has externalized `x`. -/
def Externalized (x : Value) : Prop :=
  (w v).protocol.mPhase = .EXTERNALIZE ∧ (w v).protocol.StandsBy x

theorem hasSlice_of_isQuorumSlice {v : NodeID} (hv : v ∈ net.nodes) {P : List NodeID}
    (h : LocalNode.isQuorumSlice (net.qSet v) P = true) : net.fbas.HasSlice v { n | n ∈ P } :=
  (LocalNode.isQuorumSliceInternal_iff P _ (positive_of_isQuorumSetSane (net.sane v hv))).mp h

/-- A well-behaved node whose statement was heard has signed it. -/
theorem truthful_of_heard {w : World} (h : net.AllSteadfast w) {v : NodeID}
    (hv : v ∈ net.wellBehaved) {st : SCPStatement}
    (hst : net.Authentic w st ∨ st ∈ (w v).protocol.signed) :
    st.nodeID ∈ net.nodes ∧ (st.nodeID ∈ net.wellBehaved →
      Truthful (net.localNode st.nodeID) (w st.nodeID).protocol st) := by
  rcases hst with ⟨hnode, hsigned⟩ | hsigned
  · exact ⟨hnode, fun hgood => (h _ hgood).truthful st (hsigned hgood)⟩
  · have htruth := (h v hv).truthful st hsigned
    have hnode : st.nodeID = v := htruth.1
    rw [hnode]
    exact ⟨net.wellBehaved_subset hv, fun _ => htruth⟩

theorem backed_of_externalized {w : World} (h : net.AllSteadfast w) {v : NodeID}
    (hv : v ∈ net.wellBehaved) {x : Value} (hx : Externalized w v x) :
    net.fbas.Backed net.illBehaved (Externalized w) (fun u x => (w u).protocol.StandsBy x) v x := by
  obtain ⟨P, hslice, hP⟩ := (h v hv).supported hx.1 x hx.2
  refine ⟨{ n | n ∈ P }, fun p hp => ?_,
    hasSlice_of_isQuorumSlice (net.wellBehaved_subset hv) hslice, ?_⟩
  · obtain ⟨st, hst, rfl, -⟩ := hP p hp
    exact (truthful_of_heard h hv hst).1
  · rintro p ⟨hp, hill⟩
    obtain ⟨st, hst, rfl, hcommits, hpoints⟩ := hP p hp
    obtain ⟨hnode, htruth⟩ := truthful_of_heard h hv hst
    have hgood : st.nodeID ∈ net.wellBehaved := by
      by_contra hbad
      exact hill ⟨hnode, hbad⟩
    obtain ⟨-, hpledges⟩ := htruth hgood
    unfold CommitsTo at hcommits
    unfold PointsInto at hpoints
    cases hpl : st.pledges with
    | prepare p => simp only [hpl] at hcommits
    | confirm c =>
      simp only [hpl] at hcommits hpoints hpledges
      obtain ⟨q, hq, hqslice⟩ := hpoints
      subst hcommits
      -- the hash in the statement is that of the node's own quorum set
      have hqSet : q = net.qSet st.nodeID := by
        have hnamed := net.named_qSetHash _ hgood
        rw [hpledges.1] at hq
        exact Option.mem_unique hq hnamed
      rw [hqSet] at hqslice
      exact ⟨hpledges.2, .inl (hasSlice_of_isQuorumSlice hnode hqslice)⟩
    | externalize e =>
      simp only [hpl] at hcommits hpledges
      subst hcommits
      exact ⟨hpledges.2, .inr hpledges⟩

theorem standsBy_unique {x y : Value} (hx : s.StandsBy x) (hy : s.StandsBy y) : x = y := by
  obtain ⟨-, c, hc, rfl⟩ := hx
  obtain ⟨-, c', hc', rfl⟩ := hy
  rw [Option.mem_unique hc hc']

/-- Well-behaved nodes externalize one value. -/
theorem externalized_unique (hinter : (net.fbas.delete net.illBehaved).QuorumIntersection)
    {w : World} (hw : net.Reachable w) {v u : NodeID} (hv : v ∈ net.wellBehaved)
    (hu : u ∈ net.wellBehaved) {x y : Value} (hx : Externalized w v x)
    (hy : Externalized w u y) : x = y := by
  have hgood : ∀ n ∈ net.wellBehaved, n ∈ net.fbas.nodes \ net.illBehaved :=
    fun n hn => ⟨net.wellBehaved_subset hn, fun hill => hill.2 hn⟩
  refine Fbas.settled_unique (Externalized w) (fun n => (w n).protocol.StandsBy) hinter
    (fun n _ x hx => hx.2) (fun n _ x y => standsBy_unique) ?_ (hgood v hv) (hgood u hu) hx hy
  rintro n ⟨hn, hill⟩ x hx
  exact backed_of_externalized (allSteadfast_of_reachable hw)
    (by_contra fun hbad => hill ⟨hn, hbad⟩) hx

end Network

/-- In every reachable world, any two well-behaved nodes that have externalized have
committed the same value. -/
theorem ballotProtocol_agreement (net : Network)
    (hinter : (net.fbas.delete net.illBehaved).QuorumIntersection) (w : World)
    (hw : net.Reachable w) (v u : NodeID) (hv : v ∈ net.wellBehaved) (hu : u ∈ net.wellBehaved)
    (hpv : (w v).protocol.mPhase = .EXTERNALIZE) (hpu : (w u).protocol.mPhase = .EXTERNALIZE) :
    ∃ a b, (w v).protocol.mCommit = some a ∧ (w u).protocol.mCommit = some b
      ∧ a.value = b.value := by
  have h := Network.allSteadfast_of_reachable hw
  obtain ⟨a, -, ha, -⟩ := (h v hv).committed (by simp [hpv])
  obtain ⟨b, -, hb, -⟩ := (h u hu).committed (by simp [hpu])
  refine ⟨a, b, ha, hb, Network.externalized_unique hinter hw hv hu ⟨hpv, ?_⟩ ⟨hpu, ?_⟩⟩
  · exact ⟨by simp [hpv], a, ha, rfl⟩
  · exact ⟨by simp [hpu], b, hb, rfl⟩

/-! A network of three: nodes 1 and 2 both follow node 1, and node 3 may do what it
likes. -/

def followFirst : SCPQuorumSet := ⟨1, [1], []⟩

def followers : Network where
  nodes := {1, 2, 3}
  wellBehaved := {1, 2}
  qSet _ := followFirst
  qSetHash _ := 9
  slotIndex := 5
  named h := if h = 9 then some followFirst else none
  wellBehaved_subset := by decide
  sane _ _ := rfl
  named_qSetHash _ _ := rfl

def trustingDriver : SCPDriver where
  getQSet h := if h = 9 then some followFirst else none
  validateValue _ := .kFullyValidatedValue
  getLatestCompositeCandidate := none

/-- Every quorum has the first node in it. -/
theorem followers_quorumIntersection :
    (followers.fbas.delete followers.illBehaved).QuorumIntersection := by
  have hfirst : ∀ U, (followers.fbas.delete followers.illBehaved).IsQuorum U → 1 ∈ U := by
    rintro U ⟨⟨v, hv⟩, -, hslices⟩
    obtain ⟨_, ⟨s, ⟨chosen, sub, hsub, hlen, hchosen, rfl⟩, rfl⟩, hU⟩ := hslices v hv
    obtain rfl : sub = [{{1}}] := hsub.eq_of_length hlen
    refine hU ⟨?_, fun hill => hill.2 (by decide)⟩
    obtain ⟨c, hc, rfl⟩ := Fbas.exists_chosen hchosen List.mem_cons_self
    exact Set.mem_iUnion₂.mpr ⟨_, hc, rfl⟩
  exact fun U W hU hW => ⟨1, hfirst U hU, hfirst W hW⟩

/-- Node 1 starts on a value and externalizes it on its own. -/
def firstAgreed : NodeState :=
  NodeState.react ⟨{ mFullyValidated := true }, false⟩ (followers.slot 1 trustingDriver)
    (.bumpState [7] false)

/-- What it says then; node 2 hears of it. -/
def lastOfFirst : SCPStatement := ⟨1, 5, .externalize ⟨⟨1, [7]⟩, 1, 9⟩⟩

def secondAgreed : NodeState :=
  NodeState.react ⟨{ mFullyValidated := true }, false⟩ (followers.slot 2 trustingDriver)
    (.deliver lastOfFirst)

def followersAgreed : World :=
  update (update (fun _ => ⟨{ mFullyValidated := true }, false⟩) 1 firstAgreed) 2 secondAgreed

theorem followersAgreed_reachable : followers.Reachable followersAgreed := by
  have hfirst : followers.Reachable
      (update (fun _ => ⟨{ mFullyValidated := true }, false⟩) 1 firstAgreed) :=
    .step (.init fun _ => true) (.react 1 trustingDriver (.bumpState [7] false) (by decide) rfl
      (fun _ _ h => h) trivial)
  exact .step hfirst (.react 2 trustingDriver (.deliver lastOfFirst) (by decide) rfl
    (fun _ _ h => h) ⟨by decide, fun _ => by decide +kernel⟩)

theorem ballotProtocol_agreement_followers :
    (followersAgreed 1).protocol.mPhase = .EXTERNALIZE
      ∧ (followersAgreed 2).protocol.mPhase = .EXTERNALIZE
      ∧ ∃ a b, (followersAgreed 1).protocol.mCommit = some a
        ∧ (followersAgreed 2).protocol.mCommit = some b ∧ a.value = b.value := by
  have hfirst : (followersAgreed 1).protocol.mPhase = .EXTERNALIZE := by decide +kernel
  have hsecond : (followersAgreed 2).protocol.mPhase = .EXTERNALIZE := by decide +kernel
  exact ⟨hfirst, hsecond, ballotProtocol_agreement followers followers_quorumIntersection _
    followersAgreed_reachable 1 2 (by decide) (by decide) hfirst hsecond⟩

/-! ## What was signed -/

open Network

theorem BallotProtocol.Truthful.standsBy {node : LocalNode} {st : SCPStatement} {x : Value}
    (h : Truthful node s st) (hx : CommitsTo st x) : s.StandsBy x := by
  obtain ⟨-, hpledges⟩ := h
  unfold CommitsTo at hx
  cases hp : st.pledges <;> simp only [hp] at hx hpledges <;> exact hx ▸ hpledges.2

/-- Whatever the ill-behaved nodes send, a well-behaved node never signs statements that
commit different values, and under quorum intersection the statements by which well-behaved
nodes externalize, whenever they were signed, name one value. -/
theorem signed_commits_agree (net : Network) :
    (∀ w, net.Reachable w → ∀ v ∈ net.wellBehaved, ∀ st ∈ (w v).protocol.signed,
      ∀ st' ∈ (w v).protocol.signed, ∀ x y, CommitsTo st x → CommitsTo st' y → x = y)
    ∧ ((net.fbas.delete net.illBehaved).QuorumIntersection → ∀ w, net.Reachable w →
      ∀ v ∈ net.wellBehaved, ∀ u ∈ net.wellBehaved, ∀ st ∈ (w v).protocol.signed,
      ∀ st' ∈ (w u).protocol.signed, ∀ e e', st.pledges = .externalize e →
        st'.pledges = .externalize e' → e.commit.value = e'.commit.value) := by
  refine ⟨fun w hw v hv st hst st' hst' x y hx hy => ?_,
    fun hinter w hw v hv u hu st hst st' hst' e e' he he' => ?_⟩
  · have htruth := (allSteadfast_of_reachable hw v hv).truthful
    exact standsBy_unique ((htruth st hst).standsBy hx) ((htruth st' hst').standsBy hy)
  · have hx := ((allSteadfast_of_reachable hw v hv).truthful st hst).2
    have hy := ((allSteadfast_of_reachable hw u hu).truthful st' hst').2
    rw [he] at hx
    rw [he'] at hy
    exact externalized_unique hinter hw hv hu hx hy

/-- Both followers have signed an EXTERNALIZE statement. -/
theorem signed_commits_agree_followers :
    ∃ st ∈ (followersAgreed 1).protocol.signed, ∃ st' ∈ (followersAgreed 2).protocol.signed,
      ∃ e e', st.pledges = .externalize e ∧ st'.pledges = .externalize e'
        ∧ e.commit.value = e'.commit.value := by
  have hfirst : lastOfFirst ∈ (followersAgreed 1).protocol.signed := by decide +kernel
  have hsecond : ⟨2, 5, .externalize ⟨⟨1, [7]⟩, UINT32_MAX, 9⟩⟩
      ∈ (followersAgreed 2).protocol.signed := by decide +kernel
  exact ⟨_, hfirst, _, hsecond, _, _, rfl, rfl,
    (signed_commits_agree followers).2 followers_quorumIntersection _ followersAgreed_reachable
      1 (by decide) 2 (by decide) _ hfirst _ hsecond _ _ rfl rfl⟩

end KinesisCore
import KinesisCore.NominationProtocol

/-!
# Nomination only grows

What the node votes for, accepts and takes as candidates only grows, each set inside the
one before, and so do the nominations it sends. A nomination that the node hands to
itself is newer than the one recorded for it as long as the recorded one is its own: then
the votes and accepted values that are recorded are still there, and something has been
added since.
-/

namespace KinesisCore

open EStateM Stl.OrderedSet List NominationCall

namespace NominationProtocol

/-! ## Newer nominations -/

variable {nom : SCPNomination} {p v : List Value}

theorem isSubsetHelper_fst (hp : p.Pairwise (· < ·)) (hv : v.Pairwise (· < ·)) :
    (isSubsetHelper p v).1 = true ↔ p ⊆ v := by
  unfold isSubsetHelper
  by_cases hlen : p.length ≤ v.length
  · rw [if_pos hlen, ← Stl.includes_iff hv hp]
    cases Stl.includes v p <;> simp
  · rw [if_neg hlen]
    simp only [Bool.false_eq_true, false_iff]
    exact fun hsub => hlen (Stl.length_le_of_subset hp hsub)

theorem isSubsetHelper_snd (hp : p.Pairwise (· < ·)) (hv : v.Pairwise (· < ·))
    (hsub : p ⊆ v) : (isSubsetHelper p v).2 = true ↔ ¬v ⊆ p := by
  unfold isSubsetHelper
  rw [if_pos (Stl.length_le_of_subset hp hsub), if_pos ((Stl.includes_iff hv hp).mpr hsub),
    ← Stl.length_eq_iff hp hv hsub]
  simp

/-- The lists of a nomination are ascending. -/
structure Sorted (nom : SCPNomination) : Prop where
  votes : nom.votes.Pairwise (· < ·)
  accepted : nom.accepted.Pairwise (· < ·)

theorem sorted_of_isSane (h : isSane nom = true) : Sorted nom := by
  unfold isSane at h
  simp only [Bool.and_eq_true, decide_eq_true_eq] at h
  exact ⟨isChain_iff_pairwise.mp h.1.2, isChain_iff_pairwise.mp h.2⟩

theorem isNewerStatement_iff {old : SCPNomination} (hold : Sorted old) (hnom : Sorted nom) :
    isNewerStatement old nom = true ↔ old.votes ⊆ nom.votes ∧ old.accepted ⊆ nom.accepted
      ∧ ¬(nom.votes ⊆ old.votes ∧ nom.accepted ⊆ old.accepted) := by
  unfold isNewerStatement
  have hvotes := isSubsetHelper_fst hold.votes hnom.votes
  have haccepted := isSubsetHelper_fst hold.accepted hnom.accepted
  by_cases hv : old.votes ⊆ nom.votes
  · rw [if_pos (hvotes.mpr hv)]
    by_cases ha : old.accepted ⊆ nom.accepted
    · rw [if_pos (haccepted.mpr ha), Bool.or_eq_true, isSubsetHelper_snd hold.votes hnom.votes hv,
        isSubsetHelper_snd hold.accepted hnom.accepted ha]
      tauto
    · rw [if_neg (mt haccepted.mp ha)]
      simp [ha]
  · rw [if_neg (mt hvotes.mp hv)]
    simp [hv]

theorem isNewerStatement_trans {a b c : SCPNomination} (ha : Sorted a) (hb : Sorted b)
    (hc : Sorted c) (hab : isNewerStatement a b = true) (hbc : isNewerStatement b c = true) :
    isNewerStatement a c = true := by
  rw [isNewerStatement_iff ha hb] at hab
  rw [isNewerStatement_iff hb hc] at hbc
  rw [isNewerStatement_iff ha hc]
  refine ⟨List.Subset.trans hab.1 hbc.1, List.Subset.trans hab.2.1 hbc.2.1, fun h => hab.2.2 ?_⟩
  exact ⟨List.Subset.trans hbc.1 h.1, List.Subset.trans hbc.2.1 h.2⟩

/-! ## What every call keeps -/

/-- The nominations that were sent. -/
structure Sent (s : NominationProtocol) : Prop where
  sane : ∀ nom ∈ s.emitted, isSane nom = true
  newer : s.emitted.Pairwise fun nom old => isNewerStatement old nom = true
  last : ∀ nom ∈ s.emitted, ∃ last, s.mLastEnvelope = some last
    ∧ (last = nom ∨ isNewerStatement nom last = true)
  last_sane : ∀ last, s.mLastEnvelope = some last → isSane last = true

/-- What is recorded for the node itself is what it has said. -/
structure Said (node : LocalNode) (s : NominationProtocol) : Prop where
  votes : ∀ old, s.mLatestNominations.lookup node.mNodeID = some old →
    ∀ v ∈ old.votes, v ∈ s.mVotes
  accepted : ∀ old, s.mLatestNominations.lookup node.mNodeID = some old →
    ∀ v ∈ old.accepted, v ∈ s.mAccepted
  sorted : ∀ old, s.mLatestNominations.lookup node.mNodeID = some old → Sorted old

/-- There is something to say that has not been said. -/
structure Unsaid (node : LocalNode) (s : NominationProtocol) : Prop where
  nonempty : ∃ v, v ∈ s.mVotes
  new : ∀ old, s.mLatestNominations.lookup node.mNodeID = some old →
    (∃ v ∈ s.mVotes, v ∉ old.votes) ∨ ∃ v ∈ s.mAccepted, v ∉ old.accepted

/-- Since `s₀` the sets have grown, inside each other, by values that are allowed. With
`own` nobody else has spoken for the node. -/
structure Grown (node : LocalNode) (own : Prop) (allowed : Value → Prop)
    (s₀ s : NominationProtocol) : Prop where
  candidates : ∀ v ∈ s.mCandidates, v ∈ s.mAccepted
  accepted : ∀ v ∈ s.mAccepted, v ∈ s.mVotes
  allowed : ∀ v ∈ s.mVotes, allowed v
  votes_grow : ∀ v ∈ s₀.mVotes, v ∈ s.mVotes
  accepted_grow : ∀ v ∈ s₀.mAccepted, v ∈ s.mAccepted
  candidates_grow : ∀ v ∈ s₀.mCandidates, v ∈ s.mCandidates
  sent : Sent s
  said : own → Said node s

/-- How a call may fail. -/
def Fails (node : LocalNode) (own : Prop) (allowed : Value → Prop) (s₀ : NominationProtocol)
    (e : NominationFailure) (s : NominationProtocol) : Prop :=
  Grown node own allowed s₀ s ∧ (own → e ≠ .exception "moved to a bad state (nomination)")

section

variable {node : LocalNode} {driver : NominationDriver} {own : Prop} {allowed : Value → Prop}
  {s₀ s s' : NominationProtocol} {v : Value}

section Votes

variable (h : Grown node own allowed s₀ s)
include h

/-- Only these fields matter. -/
theorem Grown.frame (hvotes : s'.mVotes = s.mVotes) (haccepted : s'.mAccepted = s.mAccepted)
    (hcandidates : s'.mCandidates = s.mCandidates)
    (hlatest : s'.mLatestNominations = s.mLatestNominations)
    (hlast : s'.mLastEnvelope = s.mLastEnvelope) (hemitted : s'.emitted = s.emitted) :
    Grown node own allowed s₀ s' := by
  cases s
  cases s'
  subst hvotes haccepted hcandidates hlatest hlast hemitted
  exact { h with sent := { h.sent with }, said := fun hown => { h.said hown with } }

/-- A flag that is set tells that there is something to say. -/
def Told (node : LocalNode) (own : Prop) (allowed : Value → Prop) (s₀ : NominationProtocol)
    (modified : Bool) (s : NominationProtocol) : Prop :=
  Grown node own allowed s₀ s ∧ (modified = true → own → Unsaid node s)

omit h in
/-- More votes and accepted values. -/
theorem Unsaid.mono (h : Unsaid node s) (hvotes : ∀ v ∈ s.mVotes, v ∈ s'.mVotes)
    (haccepted : ∀ v ∈ s.mAccepted, v ∈ s'.mAccepted)
    (hlatest : s'.mLatestNominations = s.mLatestNominations) : Unsaid node s' := by
  refine ⟨h.nonempty.imp hvotes, fun old hold => ?_⟩
  rw [hlatest] at hold
  rcases h.new old hold with ⟨v, hv, hnew⟩ | ⟨v, hv, hnew⟩
  · exact .inl ⟨v, hvotes v hv, hnew⟩
  · exact .inr ⟨v, haccepted v hv, hnew⟩

/-- A vote for a new value. -/
theorem Grown.vote (hv : allowed v) :
    Grown node own allowed s₀ { s with mVotes := s.mVotes.emplace v } where
  candidates := h.candidates
  accepted x hx := mem_emplace.mpr (.inr (h.accepted x hx))
  allowed x hx := by
    rcases mem_emplace.mp hx with rfl | hx
    · exact hv
    · exact h.allowed x hx
  votes_grow x hx := mem_emplace.mpr (.inr (h.votes_grow x hx))
  accepted_grow := h.accepted_grow
  candidates_grow := h.candidates_grow
  sent := { h.sent with }
  said hown :=
    { h.said hown with
      votes := fun old hold x hx =>
        mem_emplace.mpr (.inr ((h.said hown).votes old hold x hx)) }

theorem Grown.unsaid_vote (hv : v ∉ s.mVotes) (hown : own) :
    Unsaid node { s with mVotes := s.mVotes.emplace v } where
  nonempty := ⟨v, mem_emplace.mpr (.inl rfl)⟩
  new old hold :=
    .inl ⟨v, mem_emplace.mpr (.inl rfl),
      fun hmem => hv ((h.said hown).votes old hold v hmem)⟩

/-- A value that is accepted is voted for, too. -/
theorem Grown.accept (hv : allowed v) :
    Grown node own allowed s₀
      { s with mAccepted := s.mAccepted.emplace v, mVotes := s.mVotes.emplace v } where
  candidates x hx := mem_emplace.mpr (.inr (h.candidates x hx))
  accepted x hx := by
    refine mem_emplace.mpr ?_
    exact (mem_emplace.mp hx).imp_right (h.accepted x)
  allowed := (h.vote hv).allowed
  votes_grow := (h.vote hv).votes_grow
  accepted_grow x hx := mem_emplace.mpr (.inr (h.accepted_grow x hx))
  candidates_grow := h.candidates_grow
  sent := { h.sent with }
  said hown :=
    { (h.vote hv).said hown with
      accepted := fun old hold x hx =>
        mem_emplace.mpr (.inr ((h.said hown).accepted old hold x hx)) }

theorem Grown.unsaid_accept (hv : v ∉ s.mAccepted) (hown : own) :
    Unsaid node { s with mAccepted := s.mAccepted.emplace v, mVotes := s.mVotes.emplace v } where
  nonempty := ⟨v, mem_emplace.mpr (.inl rfl)⟩
  new old hold :=
    .inr ⟨v, mem_emplace.mpr (.inl rfl),
      fun hmem => hv ((h.said hown).accepted old hold v hmem)⟩

theorem Grown.ratify {a : Value} (ha : a ∈ s.mAccepted) :
    Grown node own allowed s₀ { s with mCandidates := s.mCandidates.emplace a } where
  candidates x hx := by
    rcases mem_emplace.mp hx with rfl | hx
    · exact ha
    · exact h.candidates x hx
  accepted := h.accepted
  allowed := h.allowed
  votes_grow := h.votes_grow
  accepted_grow := h.accepted_grow
  candidates_grow x hx := mem_emplace.mpr (.inr (h.candidates_grow x hx))
  sent := { h.sent with }
  said hown := { h.said hown with }

end Votes

/-! ## Votes -/

/-- What the driver lets the node vote for. -/
def Passes (driver : NominationDriver) (v : Value) : Prop :=
  driver.validateValue v = .kFullyValidatedValue ∨ ∃ w, driver.extractValidValue w = some v

theorem passes_valueToNominate {w : Value} (h : valueToNominate driver w = some v) :
    Passes driver v := by
  unfold valueToNominate at h
  split at h
  · rename_i hvalid
    cases h
    exact .inl hvalid
  · exact .inr ⟨w, h⟩

variable {modified : Bool}

theorem voteFor_wp (hv : allowed v) (h : Told node own allowed s₀ modified s) :
    EStateM.Wp (Fails node own allowed s₀) (voteFor v) s fun inserted s' =>
      Told node own allowed s₀ (modified || inserted) s' := by
  unfold voteFor
  rw [wp_bind, wp_get]
  split
  · rw [wp_pure, Bool.or_false]
    exact h
  · rename_i hnew
    exact ⟨h.1.vote hv, fun _ => h.1.unsaid_vote hnew⟩

theorem ratifyAccepted_wp {newCandidates : Bool} {accepted : ValueWrapperPtrSet}
    (h : Told node own allowed s₀ modified s ∧ s.mAccepted = accepted) {a : Value}
    (ha : a ∈ accepted) :
    EStateM.Wp (Fails node own allowed s₀) (ratifyAccepted node driver newCandidates a) s
      fun _ s' => Told node own allowed s₀ modified s' ∧ s'.mAccepted = accepted := by
  unfold ratifyAccepted
  rw [wp_bind, wp_get]
  split
  · exact h
  · split
    · obtain ⟨⟨hgrown, hunsaid⟩, rfl⟩ := h
      exact ⟨⟨hgrown.ratify ha, fun hmod hown =>
        (hunsaid hmod hown).mono (fun _ hv => hv) (fun _ hv => hv) rfl⟩, rfl⟩
    · exact h

theorem updateComposite_wp (h : Grown node own allowed s₀ s) :
    EStateM.Wp (Fails node own allowed s₀) (updateComposite driver) s fun _ =>
      Grown node own allowed s₀ := by
  unfold updateComposite
  rw [wp_bind, wp_get]
  split
  · exact ⟨h, fun _ => nofun⟩
  · unfold bumpState
    rw [wp_bind, wp_set, wp_bind, wp_get, wp_bind]
    split
    · exact ⟨h.frame rfl rfl rfl rfl rfl rfl, fun _ => nofun⟩
    · exact h.frame rfl rfl rfl rfl rfl rfl

/-! ## Own nominations -/

theorem sorted_ownNomination (node : LocalNode) (s : NominationProtocol) :
    Sorted (ownNomination node s) :=
  ⟨s.mVotes.sorted, s.mAccepted.sorted⟩

theorem Unsaid.isSane (h : Unsaid node s) : isSane (ownNomination node s) = true := by
  obtain ⟨v, hv⟩ := h.nonempty
  have hlen : s.mVotes.elems.length ≠ 0 := (length_pos_of_mem hv).ne'
  unfold NominationProtocol.isSane
  simp only [Bool.and_eq_true, decide_eq_true_eq]
  refine ⟨⟨?_, isChain_iff_pairwise.mpr s.mVotes.sorted⟩,
    isChain_iff_pairwise.mpr s.mAccepted.sorted⟩
  show s.mVotes.elems.length + s.mAccepted.elems.length ≠ 0
  omega

theorem Unsaid.isNewer (h : Unsaid node s) (hsaid : Said node s) :
    isNewerThanLatest s node.mNodeID (ownNomination node s) = true := by
  unfold isNewerThanLatest
  split
  · rfl
  · rename_i old hold
    rw [isNewerStatement_iff (hsaid.sorted old hold) (sorted_ownNomination node s)]
    refine ⟨hsaid.votes old hold, hsaid.accepted old hold, fun hsub => ?_⟩
    rcases h.new old hold with ⟨v, hv, hnew⟩ | ⟨v, hv, hnew⟩
    · exact hnew (hsub.1 hv)
    · exact hnew (hsub.2 hv)

/-- A nomination of the node itself is what the node has to say. -/
theorem Grown.record (h : Grown node own allowed s₀ s) {nodeID : NodeID}
    (hself : own → nodeID = node.mNodeID → nom = ownNomination node s) :
    Grown node own allowed s₀
      { s with mLatestNominations := s.mLatestNominations.insert nodeID nom } where
  candidates := h.candidates
  accepted := h.accepted
  allowed := h.allowed
  votes_grow := h.votes_grow
  accepted_grow := h.accepted_grow
  candidates_grow := h.candidates_grow
  sent := { h.sent with }
  said hown := by
    by_cases heq : nodeID = node.mNodeID
    · have hnom := hself hown heq
      have hlookup : ∀ old, (s.mLatestNominations.insert nodeID nom).lookup node.mNodeID
          = some old → old = ownNomination node s := by
        intro old hold
        rw [← heq, AList.lookup_insert, hnom] at hold
        exact (Option.some.inj hold).symm
      exact
        { votes := fun old hold v hv => by
            rw [hlookup old hold] at hv
            exact hv
          accepted := fun old hold v hv => by
            rw [hlookup old hold] at hv
            exact hv
          sorted := fun old hold => by
            rw [hlookup old hold]
            exact sorted_ownNomination node s }
    · have hlookup : (s.mLatestNominations.insert nodeID nom).lookup node.mNodeID
          = s.mLatestNominations.lookup node.mNodeID := AList.lookup_insert_ne (Ne.symm heq)
      exact
        { votes := fun old hold => (h.said hown).votes old (hlookup ▸ hold)
          accepted := fun old hold => (h.said hown).accepted old (hlookup ▸ hold)
          sorted := fun old hold => (h.said hown).sorted old (hlookup ▸ hold) }

theorem Sent.emit (h : Sent s) {st : SCPNomination} (hsane : isSane st = true)
    (hnewer : s.mLastEnvelope.all (isNewerStatement · st) = true) :
    Sent { s with
      mLastEnvelope := some st
      emitted := if s.mFullyValidated then st :: s.emitted else s.emitted } := by
  have hnew : ∀ nom ∈ s.emitted, isNewerStatement nom st = true := by
    intro nom hnom
    obtain ⟨last, hlast, hle⟩ := h.last nom hnom
    rw [hlast] at hnewer
    rcases hle with rfl | hle
    · exact hnewer
    · exact isNewerStatement_trans (sorted_of_isSane (h.sane nom hnom))
        (sorted_of_isSane (h.last_sane last hlast)) (sorted_of_isSane hsane) hle hnewer
  cases s.mFullyValidated with
  | true =>
    refine ⟨?_, pairwise_cons.mpr ⟨hnew, h.newer⟩, ?_, ?_⟩
    · exact forall_mem_cons.mpr ⟨hsane, h.sane⟩
    · exact forall_mem_cons.mpr
        ⟨⟨st, rfl, .inl rfl⟩, fun nom hnom => ⟨st, rfl, .inr (hnew nom hnom)⟩⟩
    · rintro _ ⟨⟩
      exact hsane
  | false =>
    refine ⟨h.sane, h.newer, fun nom hnom => ⟨st, rfl, .inr (hnew nom hnom)⟩, ?_⟩
    rintro _ ⟨⟩
    exact hsane

/-- What is asked of sending the node's own nomination. -/
def Emits (node : LocalNode) (own : Prop) (allowed : Value → Prop) (s₀ : NominationProtocol)
    (emit : NominationM Unit) : Prop :=
  ∀ s, Grown node own allowed s₀ s → (own → Unsaid node s) →
    EStateM.Wp (Fails node own allowed s₀) emit s fun _ => Grown node own allowed s₀

theorem emitNominationWith_wp {process : NodeID → SCPNomination → NominationM EnvelopeState}
    (hprocess : ∀ s, Grown node own allowed s₀ s → (own → Unsaid node s) →
      EStateM.Wp (Fails node own allowed s₀) (process node.mNodeID (ownNomination node s)) s
        fun r s' => Grown node own allowed s₀ s'
          ∧ (r = .VALID → NominationProtocol.isSane (ownNomination node s) = true)
          ∧ (own → r = .VALID)) :
    Emits node own allowed s₀ (emitNominationWith node process) := by
  intro s h hunsaid
  unfold emitNominationWith
  rw [wp_bind, wp_get, wp_bind]
  refine (hprocess s h hunsaid).mono fun r s₁ hr => ?_
  obtain ⟨h₁, hsane, hvalid⟩ := hr
  cases r with
  | VALID =>
    rw [wp_bind, wp_get]
    split
    · rename_i hnewer
      exact
        { h₁ with
          sent := h₁.sent.emit (hsane rfl) hnewer
          said := fun hown => { h₁.said hown with } }
    · exact h₁
  | INVALID => exact ⟨h₁, fun hown => nomatch hvalid hown⟩

/-! ## Processing a nomination -/

section Passes

variable (hpasses : ∀ v, Passes driver v → allowed v)
include hpasses

/-- Looking for a value leaves the state as it is; a value that is found is a new one. -/
theorem getNewValueFromNomination_wp (h : Grown node own allowed s₀ s)
    (nom : SCPNomination) :
    EStateM.Wp (Fails node own allowed s₀) (getNewValueFromNomination driver nom) s fun r s' =>
      s' = s ∧ ∀ v, r = some v → v ∉ s.mVotes ∧ allowed v := by
  unfold getNewValueFromNomination
  rw [wp_bind]
  refine EStateM.Wp.mono (Q := fun (best : Option Value × UInt64) s' =>
    s' = s ∧ ∀ v, best.1 = some v → v ∉ s.mVotes ∧ allowed v) ?_ fun best s' hbest => hbest
  refine EStateM.Wp.foldlM (fun value _ best s' hbest => ?_) ⟨rfl, nofun⟩
  obtain ⟨rfl, hbest⟩ := hbest
  unfold higherValue
  split
  · exact ⟨rfl, hbest⟩
  · rename_i v hv
    rw [wp_bind, wp_get]
    split
    · exact ⟨rfl, hbest⟩
    · rename_i hnew
      unfold hashValue
      rw [wp_bind, wp_bind, wp_get]
      split
      · exact ⟨h, fun _ => nofun⟩
      · rw [wp_pure]
        split
        · refine ⟨rfl, fun v' hv' => ?_⟩
          cases hv'
          exact ⟨hnew, hpasses v (passes_valueToNominate hv)⟩
        · exact ⟨rfl, hbest⟩

theorem voteWithLeader_wp {updated : Bool} (h : Told node own allowed s₀ updated s)
    (nom : SCPNomination) :
    EStateM.Wp (Fails node own allowed s₀) (voteWithLeader driver updated nom) s
      (Told node own allowed s₀) := by
  unfold voteWithLeader
  rw [wp_bind]
  refine (getNewValueFromNomination_wp hpasses h.1 nom).mono fun r s' hr => ?_
  obtain ⟨rfl, hr⟩ := hr
  cases r with
  | none => exact h
  | some v =>
    obtain ⟨hnew, hv⟩ := hr v rfl
    exact ⟨h.1.vote hv, fun _ => h.1.unsaid_vote hnew⟩

theorem acceptVote_wp (h : Told node own allowed s₀ modified s) (v : Value) :
    EStateM.Wp (Fails node own allowed s₀) (acceptVote node driver modified v) s
      (Told node own allowed s₀) := by
  unfold acceptVote
  rw [wp_bind, wp_get]
  split
  · exact h
  · rename_i hnew
    split
    · split
      · rename_i hvalid
        exact ⟨h.1.accept (hpasses v (.inl hvalid)), fun _ => h.1.unsaid_accept hnew⟩
      · split
        · exact h
        · rename_i toVote hextract
          rw [wp_bind]
          exact voteFor_wp (hpasses toVote (.inr ⟨v, hextract⟩)) h
    · exact h

variable {emit : NominationM Unit}

theorem advance_wp (hemit : Emits node own allowed s₀ emit)
    (h : Grown node own allowed s₀ s) (nodeID : NodeID) (nom : SCPNomination) :
    EStateM.Wp (Fails node own allowed s₀) (advance node driver emit nodeID nom) s fun _ =>
      Grown node own allowed s₀ := by
  unfold advance
  rw [wp_bind]
  refine EStateM.Wp.mono (Q := Told node own allowed s₀) ?_ fun modified s₁ h₁ => ?_
  · exact EStateM.Wp.foldlM (fun v _ modified s hs => acceptVote_wp hpasses hs v) ⟨h, nofun⟩
  rw [wp_bind, wp_get, wp_bind]
  refine EStateM.Wp.mono (Q := fun _ s' =>
    Told node own allowed s₀ modified s' ∧ s'.mAccepted = s₁.mAccepted) ?_
    fun newCandidates s₂ h₂ => ?_
  · exact EStateM.Wp.foldlM (fun a ha b s hs => ratifyAccepted_wp hs ha) ⟨h₁, rfl⟩
  rw [wp_bind]
  refine EStateM.Wp.mono (Q := Told node own allowed s₀) ?_ fun modified' s₃ h₃ => ?_
  · unfold followLeader
    rw [wp_bind, wp_get]
    split
    · exact voteWithLeader_wp hpasses h₂.1 nom
    · exact h₂.1
  rw [wp_bind]
  refine EStateM.Wp.mono (Q := fun _ => Grown node own allowed s₀) ?_ fun _ s₄ h₄ => ?_
  · split
    · rename_i hmodified
      exact hemit s₃ h₃.1 (h₃.2 hmodified)
    · exact h₃.1
  · split
    · exact updateComposite_wp h₄
    · exact h₄

theorem processEnvelopeWith_wp (hemit : Emits node own allowed s₀ emit)
    (h : Grown node own allowed s₀ s) {nodeID : NodeID}
    (hself : own → nodeID = node.mNodeID → nom = ownNomination node s ∧ Unsaid node s) :
    EStateM.Wp (Fails node own allowed s₀) (processEnvelopeWith node driver emit nodeID nom) s
      fun r s' => Grown node own allowed s₀ s' ∧ (r = .VALID → isSane nom = true)
        ∧ (own → nodeID = node.mNodeID → r = .VALID) := by
  unfold processEnvelopeWith
  rw [wp_bind, wp_get]
  split
  · rename_i hnewer
    refine ⟨h, nofun, fun hown heq => ?_⟩
    obtain ⟨rfl, hunsaid⟩ := hself hown heq
    rw [heq, hunsaid.isNewer (h.said hown)] at hnewer
    cases hnewer
  · split
    · rename_i hsane
      refine ⟨h, nofun, fun hown heq => ?_⟩
      obtain ⟨rfl, hunsaid⟩ := hself hown heq
      rw [hunsaid.isSane] at hsane
      cases hsane
    · rename_i hsane
      have hsane : isSane nom = true := by simpa using hsane
      have hrecord := h.record fun hown heq => (hself hown heq).1
      unfold recordEnvelope
      rw [wp_bind, wp_modify, wp_bind]
      refine EStateM.Wp.mono (Q := fun _ => Grown node own allowed s₀) ?_ fun _ s₁ h₁ => ?_
      · split
        · exact advance_wp hpasses hemit hrecord nodeID nom
        · exact hrecord
      · exact ⟨h₁, fun _ => hsane, fun _ _ => rfl⟩

variable {depth : Nat}

/-- By induction on how deep the node's own nominations nest. -/
theorem processEnvelope_wp :
    ∀ {s nodeID nom}, Grown node own allowed s₀ s →
      (own → nodeID = node.mNodeID → nom = ownNomination node s ∧ Unsaid node s) →
      EStateM.Wp (Fails node own allowed s₀) (processEnvelope node driver depth nodeID nom) s
        fun r s' => Grown node own allowed s₀ s' ∧ (r = .VALID → isSane nom = true)
          ∧ (own → nodeID = node.mNodeID → r = .VALID) := by
  induction depth with
  | zero => exact fun h _ => ⟨h, fun _ => nofun⟩
  | succ depth ih =>
    intro s nodeID nom h hself
    refine processEnvelopeWith_wp hpasses (fun s' h' hunsaid => ?_) h hself
    refine emitNominationWith_wp (fun s'' h'' hunsaid'' => ?_) s' h' hunsaid
    refine (ih h'' fun hown _ => ⟨rfl, hunsaid'' hown⟩).mono fun r s₃ hr => ?_
    exact ⟨hr.1, hr.2.1, fun hown => hr.2.2 hown rfl⟩

theorem emitNomination_wp : Emits node own allowed s₀ (emitNomination node driver depth) := by
  refine emitNominationWith_wp fun s' h' hunsaid' => ?_
  refine (processEnvelope_wp hpasses h' fun hown _ => ⟨rfl, hunsaid' hown⟩).mono fun r s₁ hr => ?_
  exact ⟨hr.1, hr.2.1, fun hown => hr.2.2 hown rfl⟩

/-! ## Nominating -/

theorem nominate_wp {round : Round} {value previousValue : Value} {timedout : Bool}
    (hvalue : allowed value) (h : Grown node own allowed s₀ s) :
    EStateM.Wp (Fails node own allowed s₀)
      (nominate node driver depth round value previousValue timedout) s fun _ s' =>
        Grown node own allowed s₀ s' := by
  unfold nominate
  rw [wp_bind, wp_get]
  split
  · exact h
  · rw [wp_bind, wp_set, wp_bind]
    refine EStateM.Wp.mono (Q := Told node own allowed s₀) ?_ fun updated s₁ h₁ => ?_
    · have hstart : Told node own allowed s₀ false { s with
          mNominationStarted := true
          mPreviousValue := previousValue
          mRoundNumber := round.number
          mRoundLeaders := round.leaders } := ⟨h.frame rfl rfl rfl rfl rfl rfl, nofun⟩
      split
      · refine (voteFor_wp hvalue hstart).mono fun inserted s₂ h₂ => ?_
        rwa [Bool.false_or] at h₂
      · exact hstart
    rw [wp_bind]
    refine EStateM.Wp.mono (Q := Told node own allowed s₀) ?_ fun updated' s₂ h₂ => ?_
    · refine EStateM.Wp.foldlM (fun leader _ b s' hs' => ?_) h₁
      unfold echoLeader
      rw [wp_bind, wp_get]
      split
      · exact hs'
      · exact voteWithLeader_wp hpasses hs' _
    rw [wp_bind]
    refine EStateM.Wp.mono (Q := fun _ => Grown node own allowed s₀) ?_ fun _ s₃ h₃ => h₃
    split
    · rename_i hupdated
      exact emitNomination_wp hpasses s₂ h₂.1 (h₂.2 hupdated)
    · exact h₂.1

end Passes

end

end NominationProtocol

/-! ## Runs -/

open NominationProtocol

/-- The call does not bring a nomination under the node's own name. -/
def NominationCall.FromOther (node : LocalNode) : NominationCall → Prop
  | .processEnvelope nodeID _ => nodeID ≠ node.mNodeID
  | _ => True

/-- In one of the calls the driver let the value pass, or it was proposed. -/
def Vouched (calls : List (NominationDriver × NominationCall)) (v : Value) : Prop :=
  ∃ c ∈ calls, Passes c.1 v ∨ ∃ round previousValue timedout,
    c.2 = .nominate round v previousValue timedout

section

variable {node : LocalNode} {driver : NominationDriver} {own : Prop} {allowed : Value → Prop}
  {s₀ s : NominationProtocol} {calls : List (NominationDriver × NominationCall)}

theorem NominationCall.run_wp (hpasses : ∀ v, Passes driver v → allowed v) {c : NominationCall}
    (hother : own → c.FromOther node) (hproposed : ∀ round v previousValue timedout,
      c = .nominate round v previousValue timedout → allowed v) (h : Grown node own allowed s₀ s) :
    EStateM.Wp (Fails node own allowed s₀) (c.run node driver depth) s fun _ =>
      Grown node own allowed s₀ := by
  cases c with
  | nominate round value previousValue timedout =>
    exact (wp_bind).mpr
      ((nominate_wp hpasses (hproposed _ _ _ _ rfl) h).mono fun _ _ h' => h')
  | processEnvelope nodeID nom =>
    refine (wp_bind).mpr ((processEnvelope_wp hpasses h fun hown heq => ?_).mono
      fun _ _ h' => h'.1)
    exact absurd heq (hother hown)
  | stopNomination => exact h.frame rfl rfl rfl rfl rfl rfl

theorem NominationProtocol.Grown.imp {allowed' : Value → Prop}
    (h : Grown node own allowed s₀ s) (himp : ∀ v, allowed v → allowed' v) :
    Grown node own allowed' s₀ s :=
  { h with allowed := fun v hv => himp v (h.allowed v hv) }

theorem grown_of_run (h₀ : Grown node own allowed s₀ s₀) (hrun : NominationRun node s₀ calls s)
    (hothers : own → ∀ c ∈ calls, c.2.FromOther node) :
    Grown node own (fun v => allowed v ∨ Vouched calls v) s₀ s := by
  induction hrun with
  | nil => exact h₀.imp fun _ => Or.inl
  | @call calls s' hrun driver depth c ih =>
    have h' := ih fun hown c hc => hothers hown c (mem_cons_of_mem _ hc)
    refine EStateM.Wp.stateAfter (run_wp (fun v hv => ?_)
      (fun hown => hothers hown _ mem_cons_self) ?_ (h'.imp fun v hv => ?_))
      (fun e s'' he => he.1) fun _ s'' hs'' => hs''
    · exact .inr ⟨_, mem_cons_self, .inl hv⟩
    · rintro round v previousValue timedout rfl
      exact .inr ⟨_, mem_cons_self, .inr ⟨_, _, _, rfl⟩⟩
    · refine hv.imp_right ?_
      rintro ⟨c', hc', hvouched⟩
      exact ⟨c', mem_cons_of_mem _ hc', hvouched⟩

theorem grown_init (node : LocalNode) (own : Prop) (allowed : Value → Prop)
    (fullyValidated : Bool) :
    Grown node own allowed { mFullyValidated := fullyValidated }
      { mFullyValidated := fullyValidated } where
  candidates := nofun
  accepted := nofun
  allowed := nofun
  votes_grow := nofun
  accepted_grow := nofun
  candidates_grow := nofun
  sent := ⟨nofun, .nil, nofun, nofun⟩
  said _ := ⟨nofun, nofun, nofun⟩

end

/-- In every run of calls: the sets stay inside each other and only grow, every vote was
vouched for, and what is sent is sane and newer than all that was sent before. If no
nomination came in under the node's own name, the exception is not thrown. -/
theorem nomination_grows (node : LocalNode) (fullyValidated : Bool)
    (calls : List (NominationDriver × NominationCall)) (s : NominationProtocol)
    (hrun : NominationRun node { mFullyValidated := fullyValidated } calls s) :
    (∀ v ∈ s.mCandidates, v ∈ s.mAccepted) ∧ (∀ v ∈ s.mAccepted, v ∈ s.mVotes)
      ∧ (∀ later s', NominationRun node s later s' →
          (∀ v ∈ s.mVotes, v ∈ s'.mVotes) ∧ (∀ v ∈ s.mAccepted, v ∈ s'.mAccepted)
            ∧ ∀ v ∈ s.mCandidates, v ∈ s'.mCandidates)
      ∧ (∀ v ∈ s.mVotes, Vouched calls v)
      ∧ (∀ nom ∈ s.emitted, isSane nom = true)
      ∧ (s.emitted.Pairwise fun nom old => isNewerStatement old nom = true)
      ∧ ((∀ c ∈ calls, c.2.FromOther node) →
          ∀ driver depth (c : NominationCall) s', c.FromOther node →
            c.run node driver depth s
              ≠ .error (.exception "moved to a bad state (nomination)") s') := by
  have h := grown_of_run (grown_init node False (fun _ => False) fullyValidated) hrun nofun
  refine ⟨h.candidates, h.accepted, fun later s' hlater => ?_,
    fun v hv => (h.allowed v hv).resolve_left id, h.sent.sane, h.sent.newer,
    fun hothers driver depth c s' hc hthrown => ?_⟩
  · have hstart : Grown node False (fun _ => True) s s :=
      { h with
        allowed := fun _ _ => trivial
        votes_grow := fun _ hv => hv
        accepted_grow := fun _ hv => hv
        candidates_grow := fun _ hv => hv
        said := nofun }
    have h' := grown_of_run hstart hlater nofun
    exact ⟨h'.votes_grow, h'.accepted_grow, h'.candidates_grow⟩
  · have hown := grown_of_run (grown_init node True (fun _ => True) fullyValidated) hrun
      fun _ => hothers
    have hwp : EStateM.Wp _ (c.run node driver depth) s _ :=
      run_wp (fun v _ => .inl trivial) (fun _ => hc) (fun _ _ _ _ _ => .inl trivial)
        hown
    unfold EStateM.Wp at hwp
    rw [hthrown] at hwp
    exact hwp.2 trivial rfl

/-! A node that is a quorum by itself, with a driver that takes every value. -/

def loneNode : LocalNode := ⟨1, ⟨1, [1], []⟩, 9⟩

def easyDriver : NominationDriver where
  getQSet h := if h = 9 then some loneNode.mQSet else none
  validateValue _ := .kFullyValidatedValue
  extractValidValue _ := none
  computeValueHash _ _ _ := 0
  combineCandidates candidates := candidates.head?.elim (.error .abort) .ok
  bumpState _ _ := .ok ⟨false, true⟩

/-- The node votes for its own value, accepts it and takes it as a candidate while its first
nomination is still on the way, and sends one nomination for all of it. -/
theorem nomination_grows_lone :
    let c := NominationCall.nominate ⟨1, [1]⟩ [7] [5] false
    let s := EStateM.stateAfter (c.run loneNode easyDriver 4) { mFullyValidated := true }
    NominationRun loneNode { mFullyValidated := true } [(easyDriver, c)] s
      ∧ s.mCandidates.elems = [[7]] ∧ s.emitted = [⟨9, [[7]], [[7]]⟩]
      ∧ (∀ v ∈ s.mVotes, Vouched [(easyDriver, c)] v)
      ∧ ∀ s', (NominationCall.nominate ⟨2, [1]⟩ [8] [5] true).run loneNode easyDriver 4 s
          ≠ .error (.exception "moved to a bad state (nomination)") s' := by
  intro c s
  have hrun : NominationRun loneNode { mFullyValidated := true } [(easyDriver, c)] s :=
    .call .nil easyDriver 4 c
  obtain ⟨-, -, -, hvouched, -, -, hthrown⟩ := nomination_grows loneNode true _ s hrun
  refine ⟨hrun, by decide +kernel, by decide +kernel, hvouched, fun s' => ?_⟩
  exact hthrown (forall_mem_singleton.mpr trivial) easyDriver 4 _ s' trivial

/-- The exception that a call ends with. -/
def nominationException : EStateM.Result NominationFailure NominationProtocol Unit → Option String
  | .error (.exception what) _ => some what
  | _ => none

/-- A sane nomination under the node's own name, with votes the node does not have, comes in
from outside. The next nomination of the node itself is not newer. -/
theorem moved_to_bad_state_nomination :
    let nom : SCPNomination := ⟨9, [[1], [2]], []⟩
    let c := NominationCall.processEnvelope loneNode.mNodeID nom
    let s := EStateM.stateAfter (c.run loneNode easyDriver 4) { mFullyValidated := true }
    isSane nom = true ∧ NominationRun loneNode { mFullyValidated := true } [(easyDriver, c)] s
      ∧ ∃ s', (NominationCall.nominate ⟨1, [1]⟩ [7] [5] false).run loneNode easyDriver 4 s
          = .error (.exception "moved to a bad state (nomination)") s' := by
  intro nom c s
  refine ⟨by decide +kernel, .call .nil easyDriver 4 c, ?_⟩
  have hthrown : nominationException
      ((nominate ⟨1, [1]⟩ [7] [5] false).run loneNode easyDriver 4 s)
        = some "moved to a bad state (nomination)" := by decide +kernel
  unfold nominationException at hthrown
  split at hthrown
  · rename_i what s' heq
    cases hthrown
    exact ⟨s', heq⟩
  · cases hthrown

end KinesisCore

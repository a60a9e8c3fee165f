import KinesisCore.TransactionApply

/-!
# All or nothing

A transaction whose `apply` returns false leaves the ledger as it was, except
for what its first nested ledger has written: the sequence number of its
source account, and the one-time signers that named it, with the counters of
sub-entries and sponsorships they were in.
-/

namespace KinesisCore

open HashFunction ValidationType Except LedgerTxn AccountEntry List

/-! ## Accounts without a signer -/

variable {acc : AccountEntry} {key : SignerKey} {removed : List AccountID}

namespace AccountEntry

/-- The place of a key among the signers. -/
def signerIndex (key : SignerKey) (acc : AccountEntry) : Nat :=
  acc.signers.findIdx (·.key = key)

/-- Who sponsors the signer with a key. -/
def sponsorOf (key : SignerKey) (acc : AccountEntry) : Option AccountID :=
  acc.extV2.bind fun v2 => (v2.signerSponsoringIDs[acc.signerIndex key]?).join

/-- The account without the signer with a key: a sub-entry less, and if the
signer was sponsored a sponsorship less. -/
def dropSigner (key : SignerKey) (acc : AccountEntry) : AccountEntry :=
  { acc with
    numSubEntries := acc.numSubEntries - 1
    signers := acc.signers.eraseIdx (acc.signerIndex key) }.modifyExtV2 fun v2 =>
      { v2 with
        signerSponsoringIDs := v2.signerSponsoringIDs.eraseIdx (acc.signerIndex key)
        numSponsored :=
          if (acc.sponsorOf key).isSome then v2.numSponsored - 1 else v2.numSponsored }

/-- The account that sponsors so many signers less. -/
def stopSponsoring (k : Nat) (acc : AccountEntry) : AccountEntry :=
  acc.modifyExtV2 fun v2 => { v2 with numSponsoring := v2.numSponsoring - UInt32.ofNat k }

/-- Only the value at the account's own extension matters. -/
theorem modifyExtV2_congr {f g : AccountEntryExtensionV2 → AccountEntryExtensionV2}
    (h : ∀ v2, acc.extV2 = some v2 → f v2 = g v2) :
    acc.modifyExtV2 f = acc.modifyExtV2 g := by
  simp only [modifyExtV2, AccountEntry.mk.injEq, true_and, and_true]
  cases hext : acc.ext with
  | none => rfl
  | some v1 =>
    simp only [Option.map_some, Option.some.injEq, AccountEntryExtensionV1.mk.injEq, true_and]
    cases hv2 : v1.ext with
    | none => rfl
    | some v2 =>
      have : acc.extV2 = some v2 := by simp [extV2, hext, hv2]
      simp [h v2 this]

@[simp] theorem signers_stopSponsoring (k : Nat) (acc : AccountEntry) :
    (acc.stopSponsoring k).signers = acc.signers := rfl

@[simp] theorem sponsorOf_stopSponsoring (key : SignerKey) (k : Nat) (acc : AccountEntry) :
    (acc.stopSponsoring k).sponsorOf key = acc.sponsorOf key := by
  simp only [sponsorOf, stopSponsoring, extV2_modifyExtV2]
  cases acc.extV2 <;> rfl

theorem stopSponsoring_zero (acc : AccountEntry) : acc.stopSponsoring 0 = acc := by
  have : acc.stopSponsoring 0 = acc.modifyExtV2 id := modifyExtV2_congr fun v2 _ => by simp
  rw [this]
  simp [modifyExtV2]

theorem stopSponsoring_succ (k : Nat) (acc : AccountEntry) :
    (acc.stopSponsoring k).stopSponsoring 1 = acc.stopSponsoring (k + 1) := by
  simp only [stopSponsoring, modifyExtV2_modifyExtV2]
  refine modifyExtV2_congr fun v2 _ => ?_
  simp only [AccountEntryExtensionV2.mk.injEq, true_and, and_true]
  rw [UInt32.ofNat_add]
  grind

/-- The two counters do not meet. -/
theorem dropSigner_stopSponsoring (key : SignerKey) (k : Nat) (acc : AccountEntry) :
    (acc.stopSponsoring k).dropSigner key = (acc.dropSigner key).stopSponsoring k := by
  have hleft : (acc.stopSponsoring k).dropSigner key
      = ({ acc with
          numSubEntries := acc.numSubEntries - 1
          signers := acc.signers.eraseIdx (acc.signerIndex key) }.modifyExtV2 fun v2 =>
        { v2 with numSponsoring := v2.numSponsoring - UInt32.ofNat k }).modifyExtV2 fun v2 =>
        { v2 with
          signerSponsoringIDs := v2.signerSponsoringIDs.eraseIdx (acc.signerIndex key)
          numSponsored :=
            if (acc.sponsorOf key).isSome then v2.numSponsored - 1 else v2.numSponsored } := by
    rw [dropSigner, sponsorOf_stopSponsoring]
    rfl
  rw [hleft, dropSigner, stopSponsoring, modifyExtV2_modifyExtV2, modifyExtV2_modifyExtV2]

end AccountEntry

/-! ## The position found -/

theorem SignerKey.less_irrefl (key : SignerKey) : key.less key = false := by
  simp [SignerKey.less]

/-- A key that is found is found where it stands first. -/
theorem findSignerByKey_found (h : (findSignerByKey acc.signers key).2 = true) :
    (findSignerByKey acc.signers key).1 = acc.signerIndex key
      ∧ ∃ s ∈ acc.signers, s.key = key := by
  obtain ⟨s, hs, hkey⟩ := (Option.any_eq_true _ _).mp h
  obtain ⟨hlt, hs⟩ := List.getElem?_eq_some_iff.mp hs
  have hkey : s.key = key := by simpa using hkey
  refine ⟨((findIdx_eq hlt).mpr ⟨?_, fun j hj => ?_⟩).symm, s, hs ▸ getElem_mem hlt, hkey⟩
  · simpa [hs] using hkey
  · -- what stands before is smaller, so it is another key
    have hless := not_of_lt_findIdx hj
    rw [decide_eq_false_iff_not]
    intro heq
    rw [heq, SignerKey.less_irrefl] at hless
    cases hless

/-! ## Removing the signers -/

variable {E : Type}

/-- An account after the signers of some accounts are removed: its own is gone
if it is one of them, and it no longer sponsors those it did. -/
def LedgerTxn.withoutSigners (before : LedgerTxn E) (key : SignerKey) (removed : List AccountID)
    (id : AccountID) (acc : AccountEntry) : AccountEntry :=
  (if id ∈ removed then acc.dropSigner key else acc).stopSponsoring
    (removed.countP fun r => (before.accounts r).bind (·.sponsorOf key) = some id)

/-- The ledger differs by the signers of some of the given accounts. -/
structure SignersRemoved (key : SignerKey) (candidates : List AccountID)
    (before after : LedgerTxn E) (removed : List AccountID) : Prop where
  header : after.header = before.header
  others : after.others = before.others
  nodup : removed.Nodup
  subset : removed ⊆ candidates
  present : ∀ r ∈ removed, ∃ acc, before.accounts r = some acc ∧ ∃ s ∈ acc.signers, s.key = key
  accounts : ∀ id, after.accounts id
    = (before.accounts id).map (before.withoutSigners key removed id)

theorem SignersRemoved.refl (key : SignerKey) (ltx : LedgerTxn E) :
    SignersRemoved key [] ltx ltx [] := by
  refine ⟨rfl, rfl, .nil, by simp, nofun, fun id => ?_⟩
  have hid : ltx.withoutSigners key [] id = (fun acc => acc) := by
    funext acc
    simp [withoutSigners, stopSponsoring_zero]
  rw [hid, Option.map_id']

theorem removeSignerWithoutSponsorship_eq (h : acc.sponsorOf key = none) :
    removeSignerWithoutSponsorship (acc.signerIndex key) acc = acc.dropSigner key := by
  simp [removeSignerWithoutSponsorship, dropSigner, h]

theorem removeSignerWithSponsorship_eq {sponsoringAcc : AccountEntry} {sponsor : AccountID}
    (h : acc.sponsorOf key = some sponsor) {r : AccountEntry × AccountEntry}
    (hr : removeSignerWithSponsorship (acc.signerIndex key) sponsor sponsoringAcc acc = .ok r) :
    r = (sponsoringAcc.stopSponsoring 1, acc.dropSigner key) := by
  obtain ⟨⟨sponsoring', acc'⟩, hremove, hr⟩ := bind_eq_ok.mp hr
  obtain ⟨-, -, -, -, -, heq⟩ := removeSignerSponsorship_eq_ok hremove
  cases heq
  cases hr
  refine Prod.ext rfl ?_
  show (modifyExtV2 _ { acc with
      numSubEntries := acc.numSubEntries - 1
      signers := acc.signers.eraseIdx (acc.signerIndex key) }).modifyExtV2 _ = _
  rw [modifyExtV2_modifyExtV2]
  refine modifyExtV2_congr fun v2 _ => ?_
  simp [h, eraseIdx_set_eq]

variable {ltx : LedgerTxn E} {id a : AccountID} {ltx' before : LedgerTxn E} {cands : List AccountID}

/-- What removing a found signer does to every account. -/
theorem removeSigner_accounts
    (h : removeSignerWithPossibleSponsorship ltx [a] a acc (acc.signerIndex key) = .ok ltx') :
    ltx'.header = ltx.header ∧ ltx'.others = ltx.others ∧ acc.sponsorOf key ≠ some a
      ∧ ∀ id, ltx'.accounts id = if id = a then some (acc.dropSigner key)
        else (ltx.accounts id).map fun x =>
          if acc.sponsorOf key = some id then x.stopSponsoring 1 else x := by
  obtain ⟨r, hr, h⟩ := bind_eq_ok.mp h
  have hsponsor : acc.sponsorOf key = r := signerSponsoringID_eq_ok hr
  cases r with
  | none =>
    obtain ⟨_, _, h⟩ := bind_eq_ok.mp h
    cases h
    refine ⟨rfl, rfl, by simp [hsponsor], fun id => ?_⟩
    rw [removeSignerWithoutSponsorship_eq hsponsor]
    by_cases hid : id = a
    · simp [putAccount, hid]
    · simp [putAccount, hid, hsponsor]
  | some sponsor =>
    obtain ⟨sponsoringAcc, hload, h⟩ := bind_eq_ok.mp h
    obtain ⟨_, _, h⟩ := bind_eq_ok.mp h
    obtain ⟨r, hr, h⟩ := bind_eq_ok.mp h
    obtain rfl := removeSignerWithSponsorship_eq hsponsor hr
    cases h
    obtain ⟨hne, hacc⟩ := currentAccount_ok.mp hload
    refine ⟨rfl, rfl, by simpa [hsponsor, eq_comm] using hne, fun id => ?_⟩
    by_cases hid : id = a
    · simp [putAccount, hid]
    · by_cases hs : id = sponsor
      · subst hs
        simp [putAccount, hid, hsponsor, hacc]
      · have hs' : sponsor ≠ id := fun h => hs h.symm
        simp [putAccount, hid, hs, hs', hsponsor]

theorem LedgerTxn.withoutSigners_cons (before : LedgerTxn E) (ha : a ∉ removed)
    (hself : acc.sponsorOf key ≠ some a) (hbefore : before.accounts a = some acc)
    (x : AccountEntry) :
    before.withoutSigners key (a :: removed) id x
      = if id = a then (before.withoutSigners key removed id x).dropSigner key
        else if acc.sponsorOf key = some id then
          (before.withoutSigners key removed id x).stopSponsoring 1
        else before.withoutSigners key removed id x := by
  simp only [withoutSigners, countP_cons, hbefore, Option.bind_some, mem_cons,
    decide_eq_true_eq]
  by_cases hid : id = a
  · subst hid
    simp [ha, hself, dropSigner_stopSponsoring]
  · by_cases hs : acc.sponsorOf key = some id
    · simp [hid, hs, stopSponsoring_succ]
    · simp [hid, hs]

section

variable (h : SignersRemoved key cands before ltx removed)
include h

/-- One turn of the loop: the account keeps its signers, or is one more of
those that lose theirs. -/
theorem SignersRemoved.next (ha : a ∉ cands) (hstep : removeAccountSigner ltx a key = .ok ltx') :
    ∃ removed', SignersRemoved key (cands ++ [a]) before ltx' removed' := by
  have hsame : SignersRemoved key (cands ++ [a]) before ltx removed :=
    { h with subset := fun r hr => mem_append_left _ (h.subset hr) }
  unfold removeAccountSigner at hstep
  split at hstep
  · cases hstep
    exact ⟨removed, hsame⟩
  · rename_i acc hacc
    dsimp only at hstep
    split at hstep
    · rename_i hfound
      obtain ⟨hindex, s, hs, hkey⟩ := findSignerByKey_found hfound
      rw [hindex] at hstep
      obtain ⟨hheader, hothers, hself, haccounts⟩ := removeSigner_accounts hstep
      have hnot : a ∉ removed := fun hr => ha (h.subset hr)
      -- the account as it was before: its signers are untouched so far
      obtain ⟨acc₀, hacc₀, rfl⟩ := Option.map_eq_some_iff.mp ((h.accounts a).symm.trans hacc)
      have hsponsor : (before.withoutSigners key removed a acc₀).sponsorOf key
          = acc₀.sponsorOf key := by
        simp [withoutSigners, hnot]
      rw [hsponsor] at hself haccounts
      refine ⟨a :: removed, hheader.trans h.header, hothers.trans h.others,
        nodup_cons.mpr ⟨hnot, h.nodup⟩, ?_, ?_, fun id => ?_⟩
      · intro r hr
        rcases mem_cons.mp hr with rfl | hr
        · simp
        · exact mem_append_left _ (h.subset hr)
      · intro r hr
        rcases mem_cons.mp hr with rfl | hr
        · refine ⟨acc₀, hacc₀, s, ?_, hkey⟩
          simpa [withoutSigners, hnot] using hs
        · exact h.present r hr
      · rw [haccounts, h.accounts id]
        by_cases hid : id = a
        · subst hid
          simp [hacc₀, withoutSigners_cons before hnot hself hacc₀]
        · rw [if_neg hid, Option.map_map]
          refine congrArg (fun f => Option.map f _) (funext fun x => ?_)
          rw [withoutSigners_cons before hnot hself hacc₀, if_neg hid]
          rfl
    · cases hstep
      exact ⟨removed, hsame⟩

/-- The loop. -/
theorem SignersRemoved.foldlM {accounts : List AccountID} (hnodup : (cands ++ accounts).Nodup)
    (hloop : accounts.foldlM (fun ltx a => removeAccountSigner ltx a key) ltx = .ok ltx') :
    ∃ removed', SignersRemoved key (cands ++ accounts) before ltx' removed' := by
  induction accounts generalizing cands removed ltx with
  | nil =>
    cases hloop
    exact ⟨removed, by simpa using h⟩
  | cons a accounts ih =>
    obtain ⟨ltx₁, hstep, hloop⟩ := bind_eq_ok.mp hloop
    have ha : a ∉ cands := fun hc =>
      (nodup_append.mp hnodup).2.2 a hc a mem_cons_self rfl
    obtain ⟨removed₁, h₁⟩ := h.next ha hstep
    rw [append_cons] at hnodup ⊢
    exact ih h₁ hnodup hloop

end

/-! ## What the first nested ledger writes -/

theorem orAbort_eq_ok {α : Type} {message : String} {x : Except String α} {a : α} :
    orAbort message x = .ok a ↔ x = .ok a := by
  cases x <;> simp [orAbort, Except.mapError]

/-- The ledger with another sequence number in one account. -/
def LedgerTxn.setSeqNum (ltx : LedgerTxn E) (id : AccountID) (seqNum : SequenceNumber) :
    LedgerTxn E :=
  { ltx with
    accounts := Function.update ltx.accounts id
      ((ltx.accounts id).map fun acc => { acc with seqNum }) }

section

variable {C : Type} [HashFunction]

/-- The ledger differs at most by the sequence number of the transaction's
source account, which is then the transaction's, and by its one-time signers. -/
def RolledBack (tx : TransactionFrame) (before after : LedgerTxn E) : Prop :=
  ∃ mid, (mid = before ∨ mid = before.setSeqNum tx.sourceAccount tx.seqNum)
    ∧ ∃ removed, SignersRemoved tx.preAuthTxKey tx.sourceAccounts mid after removed

namespace TransactionFrame

variable {tx : TransactionFrame} {ltx ltx' : LedgerTxn E} {I : Stl.Impl}
  {code : Option TransactionResultCode} {c : SignatureChecker} {cv : ValidationType}

section Version

variable (hv : ltx.header.StartsFrom 10)
include hv

omit [HashFunction] in
theorem processSeqNum_eq (h : tx.processSeqNum ltx = .ok ltx') :
    ltx' = ltx.setSeqNum tx.sourceAccount tx.seqNum := by
  simp only [processSeqNum, hv, if_true] at h
  split at h
  · cases h
  · rename_i acc hacc
    split at h
    · cases h
    · cases h
      simp [setSeqNum, putAccount, hacc]

omit hv [HashFunction] in
theorem header_of_maybeProcessSeqNum (h : tx.maybeProcessSeqNum cv ltx = .ok ltx') :
    ltx'.header = ltx.header := by
  unfold maybeProcessSeqNum processSeqNum at h
  split at h
  · rw [pure_eq_ok.mp h]
  · split at h
    · split at h
      · cases h
      · split at h
        · cases h
        · rw [← pure_eq_ok.mp h]
          rfl
    · rw [pure_eq_ok.mp h]

omit hv in
theorem signersRemoved_of_removeOneTimeSigner
    (h : tx.removeOneTimeSignerFromAllSourceAccounts I ltx = .ok ltx') :
    ∃ removed, SignersRemoved tx.preAuthTxKey tx.sourceAccounts ltx ltx' removed := by
  have hperm := I.arrange_perm tx.sourceAccounts
  unfold removeOneTimeSignerFromAllSourceAccounts at h
  split at h
  · cases h
    exact ⟨[], { SignersRemoved.refl tx.preAuthTxKey ltx with subset := by simp }⟩
  · have hnodup : (I.arrange tx.sourceAccounts).Nodup := hperm.nodup_iff.mpr (nodup_dedup _)
    obtain ⟨removed, hremoved⟩ := (SignersRemoved.refl tx.preAuthTxKey ltx).foldlM hnodup h
    exact ⟨removed, { hremoved with subset := fun r hr => hperm.subset (hremoved.subset hr) }⟩

variable [PubKeyUtils] [OperationFrame E] {valid chargeFee : Bool}

/-- Checking the signatures writes nothing but the signers. -/
theorem signersRemoved_of_processSignatures {c' : SignatureChecker}
    (h : tx.processSignatures I cv c ltx = .ok (valid, code, ltx', c')) :
    ∃ removed, SignersRemoved tx.preAuthTxKey tx.sourceAccounts ltx ltx' removed := by
  unfold processSignatures at h
  simp only [not_protocolVersionIsBefore le_rfl hv, Bool.false_eq_true, if_false] at h
  split at h
  · obtain ⟨ltx₁, hremove, h⟩ := bind_eq_ok.mp h
    cases h
    exact signersRemoved_of_removeOneTimeSigner hremove
  · split at h
    · cases h
      exact ⟨[], { SignersRemoved.refl tx.preAuthTxKey ltx with subset := by simp }⟩
    · obtain ⟨ltx₁, hremove, h⟩ := bind_eq_ok.mp h
      have hsame : ltx₁ = ltx' := by
        split at h
        · cases h
          rfl
        · split at h <;>
          · cases h
            rfl
      subst hsame
      exact signersRemoved_of_removeOneTimeSigner hremove

variable (h : tx.applyBefore I ltx chargeFee = .ok (cv, valid, code, ltx', c))
include h

/-- The part before the operations: validation only reads, then the sequence
number is taken if validation came far enough, then the signers go. -/
theorem applyBefore_spec :
    (∃ code c, tx.commonValid (SignatureChecker.make ltx.header.ledgerVersion tx.getContentsHash
        tx.signatures) ltx 0 true chargeFee 0 0 = .ok (cv, code, c))
      ∧ ∃ mid removed, tx.maybeProcessSeqNum cv ltx = .ok mid
        ∧ SignersRemoved tx.preAuthTxKey tx.sourceAccounts mid ltx' removed := by
  obtain ⟨⟨cv₁, code₁, c₁⟩, hcommon, h⟩ := bind_eq_ok.mp h
  obtain ⟨mid, hmid, h⟩ := bind_eq_ok.mp h
  obtain ⟨⟨valid₁, code₂, ltx₁, c₂⟩, hsig, h⟩ := bind_eq_ok.mp h
  cases h
  rw [← header_of_maybeProcessSeqNum hmid] at hv
  obtain ⟨removed, hremoved⟩ := signersRemoved_of_processSignatures hv hsig
  exact ⟨⟨code₁, c₁, hcommon⟩, mid, removed, hmid, hremoved⟩

theorem rolledBack_of_applyBefore : RolledBack tx ltx ltx' := by
  obtain ⟨-, mid, removed, hmid, hremoved⟩ := applyBefore_spec hv h
  refine ⟨mid, ?_, removed, hremoved⟩
  unfold maybeProcessSeqNum at hmid
  split at hmid
  · exact .inl (pure_eq_ok.mp hmid).symm
  · exact .inr (processSeqNum_eq hv hmid)

end Version

variable [PubKeyUtils] [OperationFrame E] [SponsorshipEntries E]

/-- Failed operations leave the ledger and no trace of theirs in the meta. -/
theorem applyOperations_false {app : ApplyContext E C} {outerMeta outerMeta' : TransactionMeta C}
    (h : tx.applyOperations I app c ltx outerMeta = .ok (false, code, ltx', outerMeta')) :
    ltx' = ltx ∧ (outerMeta'.operations = [] ∨ outerMeta' = outerMeta) := by
  have hexception : ∀ {r}, afterException app ltx outerMeta = .ok r →
      r.2.2.1 = ltx ∧ r.2.2.2.operations = [] := by
    intro r hr
    unfold afterException at hr
    split at hr
    · cases hr
    · cases hr
      exact ⟨rfl, rfl⟩
  unfold applyOperations at h
  split at h
  · cases h
  · exact ⟨(hexception h).1, .inl (hexception h).2⟩
  · split at h
    · split at h
      · exact ⟨(hexception h).1, .inl (hexception h).2⟩
      · simp only [pure_eq_ok, Prod.mk.injEq] at h
        exact ⟨h.2.2.1.symm, .inr h.2.2.2.symm⟩
      · simp at h
    · simp only [pure_eq_ok, Prod.mk.injEq] at h
      exact ⟨h.2.2.1.symm, .inr h.2.2.2.symm⟩

/-- A transaction that is applied without success is rolled back, and the meta
it is given for its operations stays empty. -/
theorem apply_false_rolledBack (I : Stl.Impl) (app : ApplyContext E C) (tx : TransactionFrame)
    (ltx ltx' : LedgerTxn E) (result result' : TransactionResult)
    (outerMeta outerMeta' : TransactionMeta C) (chargeFee : Bool)
    (hv : protocolVersionStartsFrom ltx.header.ledgerVersion 14 = true)
    (hmeta : outerMeta.operations = [])
    (h : tx.apply I app ltx result outerMeta chargeFee = .ok (false, result', ltx', outerMeta')) :
    RolledBack tx ltx ltx' ∧ outerMeta'.operations = [] := by
  obtain ⟨⟨cv, valid, code, ltxTx, c⟩, hbefore, h⟩ := bind_eq_ok.mp h
  have hrolled := rolledBack_of_applyBefore (protocolVersionStartsFrom_of_le (by decide) hv)
    (orAbort_eq_ok.mp hbefore)
  dsimp only at h
  split at h
  · obtain ⟨⟨success, code', ltx₁, outerMeta₁⟩, hops, h⟩ := bind_eq_ok.mp h
    cases h
    obtain ⟨rfl, hempty | rfl⟩ := applyOperations_false hops
    · exact ⟨hrolled, hempty⟩
    · exact ⟨hrolled, hmeta⟩
  · cases h
    exact ⟨hrolled, hmeta⟩

end TransactionFrame

end

/-- An operation that takes all of account 1's balance and then fails. -/
@[reducible] def spendAndFail : OperationFrame Unit where
  isOpSupported _ _ := true
  getThresholdLevel _ := .LOW
  doCheckValid _ _ _ _ := return true
  doApply _ _ _ ltx := return (false, ltx.putAccount 1 { balance := 0, seqNum := 8 })

/-- A ledger of protocol 14 whose only account is signed for by the transaction
with hash 7. -/
def preAuthorised : LedgerTxn Unit where
  header := { header45 with basePercentageFee := 0, maxFee := 0 }
  accounts id :=
    if id = 1 then
      some { balance := 20000000000, seqNum := 7, numSubEntries := 1
             signers := [{ key := .preAuthTx 7, weight := 1 }] }
    else none
  others := ()

/-- The transaction with hash 7: a payment that needs no signature. -/
def preAuthorisedPayment : TransactionFrame where
  sourceAccount := 1
  fee := 100
  seqNum := 8
  operations := [{ body := .payment 9 true 0 }]
  signatures := []
  payload := [7]

open Evaluation

/-- Its operation fails; the signer is gone and the balance is there. -/
theorem apply_false_rolledBack_failed_operation :
    letI := spendAndFail
    letI := noSponsorship Unit
    let app : ApplyContext Unit Unit := ⟨false, fun _ _ _ => true, fun _ _ => []⟩
    ∃ result' ltx' outerMeta', preAuthorisedPayment.apply Stl.insertion app preAuthorised
        ⟨100, .txSUCCESS, none⟩ {} true = .ok (false, result', ltx', outerMeta')
      ∧ result'.code = .txFAILED
      ∧ RolledBack preAuthorisedPayment preAuthorised ltx' ∧ outerMeta'.operations = [] := by
  let _ := spendAndFail
  let _ := noSponsorship Unit
  have hfails : (preAuthorisedPayment.apply Stl.insertion
      (⟨false, fun _ _ _ => true, fun _ _ => []⟩ : ApplyContext Unit Unit) preAuthorised
      ⟨100, .txSUCCESS, none⟩ {} true).map (fun r => (r.1, r.2.1.code))
        = .ok (false, .txFAILED) := by
    decide +kernel
  obtain ⟨⟨_, result', ltx', outerMeta'⟩, happly, heq⟩ := map_eq_ok.mp hfails
  obtain ⟨rfl, hcode⟩ := Prod.mk.inj heq
  exact ⟨result', ltx', outerMeta', happly, hcode, TransactionFrame.apply_false_rolledBack _ _ _ _ _
    _ _
    _ _ _ (by decide) rfl happly⟩

end KinesisCore

import Mathlib.Data.Int.ConditionallyCompleteOrder
import KinesisCore.LedgerClose
import KinesisCore.TransactionRollback
import KinesisCore.Watermark

/-!
# No replay

Every account has a mark: its sequence number while it exists, and while it
does not, the last number below those an account created in the current ledger
starts from. Nothing lowers a mark: a bump raises it, an account is merged only
if its number is below the numbers of the current ledger, and it comes back
with such a number. A transaction that passes its sequence check uses the number
right above the mark, and raises the mark to it.
-/

namespace KinesisCore

open TransactionFrameBase ValidationType Watermark Except LedgerTxn OtherOperations Upgrades
  TransactionFrame

variable {E C : Type}

/-! ## Marks -/

variable {acc acc' : AccountEntry} {source destination : AccountID} {ok : Bool}
  {result : TransactionResult} {active : List AccountID} {index : Nat}

/-- The number no transaction of the account may go below or use again. -/
def LedgerTxn.mark (ltx : LedgerTxn E) (id : AccountID) : Int :=
  match ltx.seqNums id with
  | some seqNum => seqNum.toInt
  | none => ltx.header.ledgerSeq.toNat * 2 ^ 32 - 1

theorem getStartingSequenceNumber_eq {ledgerSeq : UInt32} {n : SequenceNumber}
    (h : getStartingSequenceNumber ledgerSeq = .ok n) : n.toInt = ledgerSeq.toNat * 2 ^ 32 := by
  unfold getStartingSequenceNumber at h
  split at h
  · cases h
  · rename_i hle
    obtain rfl := pure_eq_ok.mp h
    have hle : ledgerSeq.toNat ≤ 2147483647 := by
      simpa [UInt32.lt_iff_toNat_lt] using hle
    have hnat : (ledgerSeq.toUInt64 <<< 32).toNat = ledgerSeq.toNat * 2 ^ 32 := by
      rw [UInt64.toNat_shiftLeft, UInt32.toNat_toUInt64,
        show (32 : UInt64).toNat % 64 = 32 from rfl]
      omega
    rw [MachineInt.toInt_ofUInt64 (by omega), hnat]
    rfl

/-- What can happen to a ledger while transactions are applied. -/
structure MarksRise (ltx ltx' : LedgerTxn E) : Prop where
  marks : ∀ id, ltx.mark id ≤ ltx'.mark id
  ledgerSeq : ltx'.header.ledgerSeq = ltx.header.ledgerSeq
  ledgerVersion : ltx'.header.ledgerVersion = ltx.header.ledgerVersion

variable {ltx ltx' : LedgerTxn E} {id : AccountID} {header : LedgerHeader} {ltx'' : LedgerTxn E}
  {op : Operation}

theorem MarksRise.trans (h : MarksRise ltx ltx') (h' : MarksRise ltx' ltx'') :
    MarksRise ltx ltx'' :=
  ⟨fun id => (h.marks id).trans (h'.marks id), h'.ledgerSeq.trans h.ledgerSeq,
    h'.ledgerVersion.trans h.ledgerVersion⟩

theorem SameSeqNums.mark_eq (h : SameSeqNums ltx ltx') (id : AccountID) :
    ltx'.mark id = ltx.mark id := by
  simp only [LedgerTxn.mark, h.seqNums, h.ledgerSeq]

theorem SameSeqNums.marksRise (h : SameSeqNums ltx ltx') :
    MarksRise ltx ltx' :=
  ⟨fun id => (h.mark_eq id).ge, h.ledgerSeq, h.ledgerVersion⟩

theorem SameSeqNums.refl (ltx : LedgerTxn E) : SameSeqNums ltx ltx := ⟨rfl, rfl, rfl⟩

/-- A result that hands the ledger on as it is. -/
theorem marksRise_of_unchanged {ok' : Bool}
    (h : (pure (ok, ltx) : Except String (Bool × LedgerTxn E)) = .ok (ok', ltx')) :
    MarksRise ltx ltx' := by
  cases h
  exact (SameSeqNums.refl ltx).marksRise

theorem SameSeqNums.trans (h : SameSeqNums ltx ltx') (h' : SameSeqNums ltx' ltx'') :
    SameSeqNums ltx ltx'' :=
  ⟨h'.seqNums.trans h.seqNums, h'.ledgerSeq.trans h.ledgerSeq,
    h'.ledgerVersion.trans h.ledgerVersion⟩

/-! ## Writing accounts -/

theorem seqNums_putAccount (ltx : LedgerTxn E) (id : AccountID) (acc : AccountEntry) :
    (ltx.putAccount id acc).seqNums = Function.update ltx.seqNums id (some acc.seqNum) := by
  funext k
  by_cases hk : k = id
  · subst hk
    simp [LedgerTxn.seqNums, putAccount]
  · simp [LedgerTxn.seqNums, putAccount, hk]

theorem seqNums_of_some (h : ltx.accounts id = some acc) : ltx.seqNums id = some acc.seqNum := by
  simp [LedgerTxn.seqNums, h]

theorem sameSeqNums_putAccount (h : ltx.seqNums id = some acc.seqNum) :
    SameSeqNums ltx (ltx.putAccount id acc) := by
  refine ⟨?_, rfl, rfl⟩
  rw [seqNums_putAccount]
  exact Function.update_eq_self_iff.mpr h.symm

/-- An account is written back with its number. -/
theorem sameSeqNums_update (hacc : ltx.accounts id = some acc) (hseq : acc'.seqNum = acc.seqNum) :
    SameSeqNums ltx (ltx.putAccount id acc') := by
  refine sameSeqNums_putAccount ?_
  rw [hseq]
  exact seqNums_of_some hacc

/-- An account may get a larger number, and a new one a number of this
ledger. -/
theorem marksRise_putAccount (h : ltx.mark id ≤ acc.seqNum.toInt) :
    MarksRise ltx (ltx.putAccount id acc) := by
  refine ⟨fun k => ?_, rfl, rfl⟩
  by_cases hk : k = id
  · subst hk
    simpa [LedgerTxn.mark, seqNums_putAccount] using h
  · simp [LedgerTxn.mark, seqNums_putAccount, hk]

theorem mark_of_some (h : ltx.accounts id = some acc) : ltx.mark id = acc.seqNum.toInt := by
  simp [LedgerTxn.mark, LedgerTxn.seqNums, h]

theorem mark_of_none (h : ltx.accounts id = none) :
    ltx.mark id = ltx.header.ledgerSeq.toNat * 2 ^ 32 - 1 := by
  simp [LedgerTxn.mark, LedgerTxn.seqNums, h]

/-! ## Signers -/

variable {key : SignerKey} {n : Nat}

theorem SignersRemoved.sameSeqNums {cands removed : List AccountID}
    (h : SignersRemoved key cands ltx ltx' removed) :
    SameSeqNums ltx ltx' := by
  refine ⟨funext fun id => ?_, by rw [h.header], by rw [h.header]⟩
  have hseq : ∀ acc, (ltx.withoutSigners key removed id acc).seqNum = acc.seqNum := by
    intro acc
    simp only [withoutSigners]
    split <;> rfl
  rw [LedgerTxn.seqNums, h.accounts id, Option.map_map]
  exact congrArg (fun f => Option.map f _) (funext hseq)

theorem sameSeqNums_of_removeAccountSigner
    (h : removeAccountSigner ltx id key = .ok ltx') : SameSeqNums ltx ltx' := by
  obtain ⟨removed, hremoved⟩ := (SignersRemoved.refl key ltx).next List.not_mem_nil h
  exact hremoved.sameSeqNums

theorem seqNum_of_removeSignerWithSponsorship {sponsor : AccountID}
    {sponsoringAcc sponsoring' : AccountEntry}
    (h : removeSignerWithSponsorship n sponsor sponsoringAcc acc = .ok (sponsoring', acc')) :
    sponsoring'.seqNum = sponsoringAcc.seqNum ∧ acc'.seqNum = acc.seqNum := by
  obtain ⟨⟨a, b⟩, hremove, h⟩ := bind_eq_ok.mp h
  cases h
  obtain ⟨-, -, -, -, -, heq⟩ := removeSignerSponsorship_eq_ok hremove
  cases heq
  exact ⟨rfl, rfl⟩

/-- Removing a signer at any position keeps the numbers. -/
theorem sameSeqNums_of_removeSigner (hacc : ltx.accounts id = some acc)
    (h : removeSignerWithPossibleSponsorship ltx active id acc n = .ok ltx') :
    SameSeqNums ltx ltx' := by
  obtain ⟨r, hr, h⟩ := bind_eq_ok.mp h
  cases r with
  | none =>
    obtain ⟨_, _, h⟩ := bind_eq_ok.mp h
    cases h
    exact sameSeqNums_update hacc rfl
  | some sponsor =>
    obtain ⟨sponsoringAcc, hload, h⟩ := bind_eq_ok.mp h
    obtain ⟨_, _, h⟩ := bind_eq_ok.mp h
    obtain ⟨⟨sponsoring', acc'⟩, hremove, h⟩ := bind_eq_ok.mp h
    cases h
    obtain ⟨hsponsoring, hsponsored⟩ := seqNum_of_removeSignerWithSponsorship hremove
    have hfirst := sameSeqNums_update (currentAccount_ok.mp hload).2 hsponsoring
    refine hfirst.trans (sameSeqNums_putAccount ?_)
    rw [hfirst.seqNums, hsponsored]
    exact seqNums_of_some hacc

/-! ## Operations -/

namespace BumpSequenceOpFrame

theorem marksRise_of_doApply {bumpTo : SequenceNumber}
    (h : doApply ltx source bumpTo = .ok (ok, ltx')) :
    MarksRise ltx ltx' := by
  obtain ⟨acc, hacc, h⟩ := bind_eq_ok.mp h
  split at h
  · rename_i hbump
    cases h
    refine marksRise_putAccount ?_
    rw [mark_of_some (currentAccount_ok.mp hacc).2]
    exact (Int64.lt_iff_toInt_lt.mp hbump).le
  · exact marksRise_of_unchanged h

end BumpSequenceOpFrame

theorem seqNum_of_addBalance {lh : LedgerHeader} {delta : Int64}
    (h : addBalance lh acc delta = .ok (some acc')) : acc'.seqNum = acc.seqNum := by
  rcases addBalance_cases h with ⟨heq, -⟩ | ⟨hnone, -⟩
  · rw [Option.some.inj heq]
  · cases hnone

namespace CreateAccountOpFrame

variable {startingBalance : Int64}

theorem sameSeqNums_of_debitSource (h : debitSource ltx source startingBalance = .ok (some ltx')) :
    SameSeqNums ltx ltx' := by
  obtain ⟨acc, hacc, h⟩ := bind_eq_ok.mp h
  obtain ⟨avail, -, h⟩ := bind_eq_ok.mp h
  split at h
  · cases h
  · obtain ⟨r, hr, h⟩ := bind_eq_ok.mp h
    cases r with
    | none => cases h
    | some acc' =>
      cases h
      exact sameSeqNums_update (currentAccount_ok.mp hacc).2 (seqNum_of_addBalance hr)

/-- The ledger keeps its numbers, and so does the new account. -/
theorem sameSeqNums_of_createAccount [SponsorshipEntries E] {le le' : AccountEntry}
    {res : SponsorshipResult}
    (h : createAccountWithPossibleSponsorship ltx destination le = .ok (res, ltx', le')) :
    SameSeqNums ltx ltx' ∧ le'.seqNum = le.seqNum := by
  unfold createAccountWithPossibleSponsorship at h
  split at h
  · obtain ⟨acc, hacc, h⟩ := bind_eq_ok.mp h
    obtain ⟨r, -, h⟩ := bind_eq_ok.mp h
    split at h
    · cases h
      exact ⟨sameSeqNums_update (currentAccount_ok.mp hacc).2 rfl, rfl⟩
    · cases h
      exact ⟨.refl ltx, rfl⟩
  · obtain ⟨_, -, h⟩ := bind_eq_ok.mp h
    split at h <;>
    · cases h
      exact ⟨.refl ltx, rfl⟩

/-- A new account starts right above its mark. -/
theorem marksRise_of_create (hsame : SameSeqNums ltx ltx') (hnone : ltx.accounts destination = none)
    (hseq : getStartingSequenceNumber ltx.header.ledgerSeq = .ok acc.seqNum) :
    MarksRise ltx (ltx'.putAccount destination acc) := by
  refine hsame.marksRise.trans (marksRise_putAccount ?_)
  rw [hsame.mark_eq, mark_of_none hnone, getStartingSequenceNumber_eq hseq]
  omega

theorem marksRise_of_doApply [SponsorshipEntries E]
    (h : doApply ltx source destination startingBalance = .ok (ok, ltx')) : MarksRise ltx ltx' := by
  unfold doApply at h
  split at h
  · exact marksRise_of_unchanged h
  · rename_i hnone
    have hnone : ltx.accounts destination = none := by simpa using hnone
    split at h
    · obtain ⟨_, -, h⟩ := bind_eq_ok.mp h
      split at h
      · exact marksRise_of_unchanged h
      · obtain ⟨r, hdebit, h⟩ := bind_eq_ok.mp h
        cases r with
        | none => exact marksRise_of_unchanged h
        | some ltx₁ =>
          obtain ⟨seqNum, hseq, h⟩ := bind_eq_ok.mp h
          cases h
          have hsame := sameSeqNums_of_debitSource hdebit
          rw [hsame.ledgerSeq] at hseq
          exact marksRise_of_create hsame hnone hseq
    · obtain ⟨seqNum, hseq, h⟩ := bind_eq_ok.mp h
      obtain ⟨⟨res, ltx₁, newAccount⟩, hcreate, h⟩ := bind_eq_ok.mp h
      obtain ⟨hsame, hnew⟩ := sameSeqNums_of_createAccount hcreate
      dsimp only at h
      split at h
      · cases h
      · obtain ⟨r, hdebit, h⟩ := bind_eq_ok.mp h
        cases r with
        | none => exact marksRise_of_unchanged h
        | some ltx₂ =>
          cases h
          refine marksRise_of_create (hsame.trans (sameSeqNums_of_debitSource hdebit)) hnone ?_
          rw [hnew]
          exact hseq
      · exact marksRise_of_unchanged h

end CreateAccountOpFrame

namespace MergeOpFrame

theorem sameSeqNums_of_removeSigners {n : Nat} (h : removeSigners active source n ltx = .ok ltx') :
    SameSeqNums ltx ltx' := by
  induction n generalizing ltx with
  | zero =>
    obtain rfl := pure_eq_ok.mp h
    exact .refl ltx
  | succ n ih =>
    obtain ⟨acc, hacc, h⟩ := bind_eq_ok.mp h
    obtain ⟨ltx₁, hremove, h⟩ := bind_eq_ok.mp h
    exact (sameSeqNums_of_removeSigner (currentAccount_ok.mp hacc).2 hremove).trans (ih h)

theorem sameSeqNums_of_removeAccount
    (h : removeAccountWithPossibleSponsorship ltx active id acc = .ok ltx') :
    SameSeqNums ltx ltx' := by
  unfold removeAccountWithPossibleSponsorship at h
  split at h
  · cases h
    exact .refl ltx
  · split at h
    · cases h
    · obtain ⟨sponsor, hload, h⟩ := bind_eq_ok.mp h
      obtain ⟨_, -, h⟩ := bind_eq_ok.mp h
      obtain ⟨_, -, h⟩ := bind_eq_ok.mp h
      obtain ⟨_, -, h⟩ := bind_eq_ok.mp h
      cases h
      exact sameSeqNums_update (currentAccount_ok.mp hload).2 rfl

/-- An account whose number is below those of this ledger may go. -/
theorem marksRise_eraseAccount (h : ltx.mark id ≤ ltx.header.ledgerSeq.toNat * 2 ^ 32 - 1) :
    MarksRise ltx (ltx.eraseAccount id) := by
  refine ⟨fun k => ?_, rfl, rfl⟩
  by_cases hk : k = id
  · subst hk
    have hgone : (ltx.eraseAccount k).accounts k = none := by simp [eraseAccount]
    rw [mark_of_none hgone]
    exact h
  · have hsame : (ltx.eraseAccount id).seqNums k = ltx.seqNums k := by
      simp [LedgerTxn.seqNums, eraseAccount, hk]
    simp only [LedgerTxn.mark, hsame]
    exact le_rfl

theorem marksRise_of_mergeInto (hmark : ltx.mark source ≤ ltx.header.ledgerSeq.toNat * 2 ^ 32 - 1)
    (h : mergeInto ltx active source destination = .ok (ok, ltx')) : MarksRise ltx ltx' := by
  obtain ⟨acc, -, h⟩ := bind_eq_ok.mp h
  obtain ⟨other, hother, h⟩ := bind_eq_ok.mp h
  obtain ⟨r, hadd, h⟩ := bind_eq_ok.mp h
  cases r with
  | none => exact marksRise_of_unchanged h
  | some other' =>
    obtain ⟨ltx₁, hremove, h⟩ := bind_eq_ok.mp h
    cases h
    have hput := sameSeqNums_update (currentAccount_ok.mp hother).2 (seqNum_of_addBalance hadd)
    have hsame := hput.trans (sameSeqNums_of_removeAccount hremove)
    refine hsame.marksRise.trans (marksRise_eraseAccount ?_)
    rw [hsame.mark_eq, hsame.ledgerSeq]
    exact hmark

/-- The guard of the merge, on the mark. -/
theorem mark_le_of_isSeqnumTooFar (hacc : ltx.currentAccount active source = .ok acc)
    {tooFar : Bool}
    (h : isSeqnumTooFar ltx.header acc = .ok tooFar) (hfar : ¬tooFar = true) :
    ltx.mark source ≤ ltx.header.ledgerSeq.toNat * 2 ^ 32 - 1 := by
  obtain ⟨start, hstart, h⟩ := bind_eq_ok.mp h
  cases h
  have hlt : ¬acc.seqNum ≥ start := by simpa using hfar
  have hstart := getStartingSequenceNumber_eq hstart
  rw [ge_iff_le, Int64.le_iff_toInt_le] at hlt
  rw [mark_of_some (currentAccount_ok.mp hacc).2]
  omega

/-- The source without its signers goes. -/
theorem marksRise_of_removed {n : Nat} (h : removeSigners active source n ltx = .ok ltx')
    (hmark : ltx.mark source ≤ ltx.header.ledgerSeq.toNat * 2 ^ 32 - 1)
    (hmerge : mergeInto ltx' active source destination = .ok (ok, ltx'')) :
    MarksRise ltx ltx'' := by
  have hkept := sameSeqNums_of_removeSigners h
  rw [← hkept.mark_eq, ← hkept.ledgerSeq] at hmark
  exact hkept.marksRise.trans (marksRise_of_mergeInto hmark hmerge)

variable [SponsorshipEntries E]

theorem marksRise_of_doApplyBeforeV16 (hv : ltx.header.StartsFrom 10)
    (h : doApplyBeforeV16 ltx source destination = .ok (ok, ltx')) : MarksRise ltx ltx' := by
  unfold doApplyBeforeV16 at h
  split at h
  · exact marksRise_of_unchanged h
  · obtain ⟨acc, hacc, h⟩ := bind_eq_ok.mp h
    split at h
    · exact marksRise_of_unchanged h
    split at h
    · exact marksRise_of_unchanged h
    obtain ⟨tooFar, htooFar, h⟩ := bind_eq_ok.mp h
    simp only [isSeqnumTooFarFromV10, hv, if_true] at htooFar
    split at h
    · exact marksRise_of_unchanged h
    rename_i hfar
    have hmark := mark_le_of_isSeqnumTooFar hacc htooFar hfar
    split at h
    · split at h
      · exact marksRise_of_unchanged h
      · obtain ⟨ltx₁, hremove, h⟩ := bind_eq_ok.mp h
        exact marksRise_of_removed hremove hmark h
    · exact marksRise_of_mergeInto hmark h

theorem marksRise_of_doApplyFromV16 (h : doApplyFromV16 ltx source destination = .ok (ok, ltx')) :
    MarksRise ltx ltx' := by
  unfold doApplyFromV16 at h
  split at h
  · exact marksRise_of_unchanged h
  · obtain ⟨acc, hacc, h⟩ := bind_eq_ok.mp h
    split at h
    · exact marksRise_of_unchanged h
    split at h
    · exact marksRise_of_unchanged h
    obtain ⟨tooFar, htooFar, h⟩ := bind_eq_ok.mp h
    split at h
    · exact marksRise_of_unchanged h
    rename_i hfar
    have hmark := mark_le_of_isSeqnumTooFar hacc htooFar hfar
    split at h
    · exact marksRise_of_unchanged h
    · obtain ⟨ltx₁, hremove, h⟩ := bind_eq_ok.mp h
      exact marksRise_of_removed hremove hmark h

theorem marksRise_of_doApply (hv : ltx.header.StartsFrom 10)
    (h : doApply ltx source destination = .ok (ok, ltx')) : MarksRise ltx ltx' := by
  unfold doApply at h
  split at h
  · exact marksRise_of_doApplyBeforeV16 hv h
  · exact marksRise_of_doApplyFromV16 h

end MergeOpFrame

/-- No operation lowers a mark. -/
theorem marksRise_of_operation [OtherOperations E] [SponsorshipEntries E] {tx : TransactionFrame}
    (hv : ltx.header.StartsFrom 10)
    (h : (operationFrame E).doApply tx index op ltx = .ok (ok, ltx')) : MarksRise ltx ltx' := by
  obtain ⟨sourceAccount, body⟩ := op
  cases body with
  | createAccount destination startingBalance =>
    exact CreateAccountOpFrame.marksRise_of_doApply h
  | payment destination native amount =>
    exact (sameSeqNums_of_doApply h).marksRise
  | accountMerge destination => exact MergeOpFrame.marksRise_of_doApply hv h
  | bumpSequence bumpTo => exact BumpSequenceOpFrame.marksRise_of_doApply h
  | other body => exact (sameSeqNums_of_doApply h).marksRise

/-! ## Transactions -/

/-- A part of closing a ledger in which the given transactions took their
sequence numbers. -/
structure TakesNumbers (ltx : LedgerTxn E) (taken : List TransactionFrame) (ltx' : LedgerTxn E) :
    Prop where
  consumes : Consumes TransactionFrame.sourceAccount (fun tx => tx.seqNum.toInt) ltx.mark taken
    ltx'.mark
  ledgerSeq : ltx'.header.ledgerSeq = ltx.header.ledgerSeq
  ledgerVersion : ltx'.header.ledgerVersion = ltx.header.ledgerVersion

theorem MarksRise.takesNumbers (h : MarksRise ltx ltx') :
    TakesNumbers ltx [] ltx' :=
  ⟨.of_le h.marks, h.ledgerSeq, h.ledgerVersion⟩

theorem TakesNumbers.trans {taken taken' : List TransactionFrame} (h : TakesNumbers ltx taken ltx')
    (h' : TakesNumbers ltx' taken' ltx'') : TakesNumbers ltx (taken ++ taken') ltx'' :=
  ⟨h.consumes.trans h'.consumes, h'.ledgerSeq.trans h.ledgerSeq,
    h'.ledgerVersion.trans h.ledgerVersion⟩

/-- No operation lowers a mark, from protocol 10 on. -/
def OperationsRaiseMarks (E : Type) [OperationFrame E] : Prop :=
  ∀ {tx : TransactionFrame} {index : Nat} {op : Operation} {ltx ltx' : LedgerTxn E} {ok : Bool},
    protocolVersionStartsFrom ltx.header.ledgerVersion 10 = true →
    OperationFrame.doApply tx index op ltx = .ok (ok, ltx') → MarksRise ltx ltx'

section

variable [HashFunction] [PubKeyUtils] [OperationFrame E] {tx : TransactionFrame}
  {ltx ltx' : LedgerTxn E} {I : Stl.Impl} {app : ApplyContext E C}
  {outerMeta outerMeta' : TransactionMeta C} {c : SignatureChecker}

theorem marksRise_of_apply_operation (hop : OperationsRaiseMarks E) {c' : SignatureChecker}
    (hv : ltx.header.StartsFrom 10)
    (h : OperationFrame.apply tx index op c ltx = .ok (ok, ltx', c')) : MarksRise ltx ltx' := by
  obtain ⟨⟨res, c₁⟩, -, h⟩ := bind_eq_ok.mp h
  cases res with
  | false =>
    cases h
    exact (SameSeqNums.refl ltx).marksRise
  | true =>
    obtain ⟨⟨res, ltx₁⟩, happly, h⟩ := bind_eq_ok.mp h
    cases h
    exact hop hv happly

namespace TransactionFrame

variable {st' st : ApplyState E C} {version : UInt32}

/-- What a turn of the loop that did not throw was. -/
theorem applyOperation_ok (h : tx.applyOperation app version index op st = .ok st') :
    ∃ txRes ltxOp c, OperationFrame.apply tx index op st.signatureChecker st.ltxTx
        = .ok (txRes, ltxOp, c)
      ∧ st'.success = (st.success && txRes) ∧ (txRes = true → st'.ltxTx = ltxOp) := by
  obtain ⟨⟨txRes, ltxOp, c⟩, happly, h⟩ := bind_eq_ok.mp h
  cases hop : OperationFrame.apply tx index op st.signatureChecker st.ltxTx with
  | error e => rw [hop] at happly; cases happly
  | ok r =>
    rw [hop] at happly
    obtain rfl : r = (txRes, ltxOp, c) := by simpa [Except.mapError] using happly
    dsimp only at h
    split at h
    · cases h
    · cases h
      exact ⟨txRes, ltxOp, c, rfl, rfl, fun htxRes => by simp [htxRes]⟩

variable {ops : List Operation}

/-- A failure is never forgotten. -/
theorem success_of_applyLoop
    (h : tx.applyLoop app version ops index st = .ok st') (hsuccess : st'.success = true) :
    st.success = true := by
  induction ops generalizing index st with
  | nil =>
    cases h
    exact hsuccess
  | cons op ops ih =>
    obtain ⟨st₁, hstep, h⟩ := bind_eq_ok.mp h
    obtain ⟨txRes, ltxOp, c, -, hst₁, -⟩ := applyOperation_ok hstep
    have := ih h
    rw [hst₁, Bool.and_eq_true] at this
    exact this.1

/-- Operations that all succeed raise the marks. -/
theorem marksRise_of_applyLoop (hop : OperationsRaiseMarks E)
    (hv : st.ltxTx.header.StartsFrom 10) (h : tx.applyLoop app version ops index st = .ok st')
    (hsuccess : st'.success = true) : MarksRise st.ltxTx st'.ltxTx := by
  induction ops generalizing index st with
  | nil =>
    cases h
    exact (SameSeqNums.refl _).marksRise
  | cons op ops ih =>
    obtain ⟨st₁, hstep, h⟩ := bind_eq_ok.mp h
    obtain ⟨txRes, ltxOp, c, happly, hst₁, hkept⟩ := applyOperation_ok hstep
    have hsuccess₁ := success_of_applyLoop h hsuccess
    rw [hst₁, Bool.and_eq_true] at hsuccess₁
    have hrise := marksRise_of_apply_operation hop hv happly
    rw [← hkept hsuccess₁.2] at hrise
    exact hrise.trans (ih (hv.congr hrise.ledgerVersion) h)

variable [SponsorshipEntries E]

section Version

variable (hv : ltx.header.StartsFrom 10)
include hv

variable {code : Option TransactionResultCode} {chargeFee : Bool}

theorem marksRise_of_applyOperations (hop : OperationsRaiseMarks E)
    (h : tx.applyOperations I app c ltx outerMeta = .ok (ok, code, ltx', outerMeta')) :
    MarksRise ltx ltx' := by
  cases ok with
  | false =>
    rw [(applyOperations_false h).1]
    exact (SameSeqNums.refl ltx).marksRise
  | true =>
    have hexception : ∀ {r}, afterException app ltx outerMeta = .ok r → r.1 = false := by
      intro r hr
      unfold afterException at hr
      split at hr
      · cases hr
      · rw [← pure_eq_ok.mp hr]
    unfold applyOperations at h
    split at h
    · cases h
    · cases hexception h
    · rename_i st hloop
      split at h
      · rename_i hsuccess
        have hrise := marksRise_of_applyLoop hop hv hloop hsuccess
        split at h
        · cases hexception h
        · cases h
        · rename_i ltxTx changes hfinish
          cases h
          -- from protocol 10 on nothing is written after the operations
          simp only [finishOperations, not_protocolVersionIsBefore le_rfl hv,
            Bool.false_eq_true, if_false] at hfinish
          split at hfinish
          · cases hfinish
          · obtain ⟨rfl, -⟩ := Prod.mk.inj (ok.inj (pure_eq_ok.mp hfinish))
            exact hrise
      · cases h

omit [OperationFrame E] [SponsorshipEntries E] in
/-- Past the sequence check the account is there, and its number is the one
before the transaction's. -/
theorem seq_of_commonValid {c' : SignatureChecker} {cv : ValidationType}
    (h : tx.commonValid c ltx 0 true chargeFee 0 0 = .ok (cv, code, c')) (hcv : cv ≠ kInvalid) :
    ∃ acc, ltx.accounts tx.sourceAccount = some acc ∧ acc.seqNum.toInt + 1 = tx.seqNum.toInt := by
  unfold commonValid at h
  simp only [] at h
  split at h
  · simp at h
  split at h
  · cases h
    exact absurd rfl hcv
  · cases h
    exact absurd rfl hcv
  · rename_i acc hpre hacc
    obtain ⟨bad, hbad, h⟩ := bind_eq_ok.mp h
    cases bad with
    | true =>
      cases h
      exact absurd rfl hcv
    | false =>
      simp only [hasBadSeq, hv, Bool.true_or, if_true] at hbad
      obtain ⟨hmax, hsucc, -⟩ := isBadSeq_eq_false hbad
      refine ⟨acc, hacc, ?_⟩
      rw [← hsucc, MachineInt.toInt_succ hmax]

omit hv in
omit [HashFunction] [PubKeyUtils] [OperationFrame E] [SponsorshipEntries E] in
/-- The number is taken: the mark of the source account goes up to it. -/
theorem consumes_setSeqNum (hacc : ltx.accounts tx.sourceAccount = some acc)
    (hseq : acc.seqNum.toInt + 1 = tx.seqNum.toInt) :
    Consumes sourceAccount (fun tx => tx.seqNum.toInt) ltx.mark [tx]
      (ltx.setSeqNum tx.sourceAccount tx.seqNum).mark := by
  have hput : ltx.setSeqNum tx.sourceAccount tx.seqNum
      = ltx.putAccount tx.sourceAccount { acc with seqNum := tx.seqNum } := by
    simp [setSeqNum, putAccount, hacc]
  have hmark := mark_of_some hacc
  rw [hput]
  refine Consumes.single (marksRise_putAccount ?_).marks ?_ ?_
  · show _ ≤ tx.seqNum.toInt
    omega
  · show _ < tx.seqNum.toInt
    omega
  · have hnew : (ltx.putAccount tx.sourceAccount { acc with seqNum := tx.seqNum }).accounts
        tx.sourceAccount = some { acc with seqNum := tx.seqNum } := by
      simp [putAccount]
    rw [mark_of_some hnew]

/-- Applying a transaction takes its number exactly if it passes the check, and
lowers no mark. -/
theorem takesNumbers_of_apply (hop : OperationsRaiseMarks E) {result' : TransactionResult}
    (h : tx.apply I app ltx result outerMeta chargeFee = .ok (ok, result', ltx', outerMeta')) :
    TakesNumbers ltx (if tx.passesSeqCheck ltx chargeFee then [tx] else []) ltx' := by
  obtain ⟨⟨cv, valid, code, ltxTx, c⟩, hbefore, h⟩ := bind_eq_ok.mp h
  obtain ⟨⟨code₁, c₁, hcommon⟩, mid, removed, hmid, hremoved⟩ :=
    applyBefore_spec hv (orAbort_eq_ok.mp hbefore)
  have hsame := hremoved.sameSeqNums
  have hheader := header_of_maybeProcessSeqNum hmid
  have hpasses : tx.passesSeqCheck ltx chargeFee = decide (cv ≠ kInvalid) := by
    simp only [passesSeqCheck, hcommon]
  have htaken : TakesNumbers ltx (if tx.passesSeqCheck ltx chargeFee then [tx] else []) mid := by
    refine ⟨?_, by rw [hheader], by rw [hheader]⟩
    unfold maybeProcessSeqNum at hmid
    split at hmid
    · rename_i hcv
      cases hmid
      simpa [hpasses, hcv] using Consumes.of_le fun _ => le_rfl
    · rename_i hcv
      obtain rfl := processSeqNum_eq hv hmid
      obtain ⟨acc, hacc, hseq⟩ := seq_of_commonValid hv hcommon hcv
      simpa [hpasses, hcv] using consumes_setSeqNum hacc hseq
  have hrest : MarksRise ltxTx ltx' := by
    dsimp only at h
    split at h
    · obtain ⟨⟨ok₁, code₂, ltx₁, outerMeta₁⟩, hops, h⟩ := bind_eq_ok.mp h
      cases h
      have hversion : ltxTx.header.ledgerVersion = ltx.header.ledgerVersion := by
        rw [hsame.ledgerVersion, hheader]
      exact marksRise_of_applyOperations (hv.congr hversion) hop hops
    · cases h
      exact (SameSeqNums.refl _).marksRise
  simpa using htaken.trans (hsame.marksRise.trans hrest).takesNumbers

end Version

end TransactionFrame

variable [SponsorshipEntries E]

theorem takesNumbers_of_applyCharged (hop : OperationsRaiseMarks E) {t : ChargedTx}
    (hv : ltx.header.StartsFrom 10)
    (h : t.apply I app ltx = .ok (ok, result, ltx', outerMeta)) :
    TakesNumbers ltx (t.tx.consumed ltx) ltx' := by
  obtain ⟨tx, result, inner⟩ := t
  cases tx with
  | plain tx => exact takesNumbers_of_apply hv hop h
  | feeBump tx =>
    obtain ⟨ltxTx, hremove, h⟩ := bind_eq_ok.mp h
    replace hremove := orAbort_eq_ok.mp hremove
    obtain ⟨⟨ok₁, inner₁, ltx₁, outerMeta₁⟩, hinner, h⟩ := bind_eq_ok.mp h
    cases h
    have hsame := sameSeqNums_of_removeAccountSigner hremove
    have hrest := takesNumbers_of_apply (hv.congr hsame.ledgerVersion) hop hinner
    simpa [Tx.consumed, hremove] using hsame.marksRise.takesNumbers.trans hrest

/-- The loop over the transactions. -/
theorem takesNumbers_of_applyTransactions (hop : OperationsRaiseMarks E) {ts : List ChargedTx}
    {taken : List TransactionFrame}
    (hv : ltx.header.StartsFrom 10)
    (h : applyTransactions I app ts ltx = .ok (taken, ltx')) :
    TakesNumbers ltx taken ltx' := by
  induction ts generalizing ltx taken with
  | nil =>
    obtain ⟨rfl, rfl⟩ := Prod.mk.inj (pure_eq_ok.mp h)
    exact (SameSeqNums.refl ltx).marksRise.takesNumbers
  | cons t ts ih =>
    obtain ⟨⟨ok, result, ltx₁, outerMeta⟩, happly, h⟩ := bind_eq_ok.mp h
    obtain ⟨⟨taken₁, ltx₂⟩, hrest, h⟩ := bind_eq_ok.mp h
    obtain ⟨rfl, rfl⟩ := Prod.mk.inj (pure_eq_ok.mp h)
    have hfirst := takesNumbers_of_applyCharged hop hv happly
    exact hfirst.trans (ih (hv.congr hfirst.ledgerVersion) hrest)

end

/-! ## Fees -/

variable {fee fee' baseFee : Int64}

theorem seqNum_of_takeFee {header' : LedgerHeader}
    (h : takeFee header acc fee = .ok (fee', acc', header')) :
    acc'.seqNum = acc.seqNum ∧ header'.ledgerSeq = header.ledgerSeq
      ∧ header'.ledgerVersion = header.ledgerVersion := by
  unfold takeFee at h
  split at h
  · obtain ⟨r, -, h⟩ := bind_eq_ok.mp h
    cases h
    exact ⟨rfl, rfl, rfl⟩
  · cases h
    exact ⟨rfl, rfl, rfl⟩

/-- A fee is taken from an account that is there. -/
theorem sameSeqNums_of_fee (hacc : ltx.accounts id = some acc)
    (h : takeFee ltx.header acc fee = .ok (fee', acc', header)) :
    SameSeqNums ltx ({ ltx with header }.putAccount id acc') := by
  obtain ⟨hseq, hledgerSeq, hversion⟩ := seqNum_of_takeFee h
  refine ⟨?_, hledgerSeq, hversion⟩
  rw [seqNums_putAccount, hseq]
  refine Function.update_eq_self_iff.mpr ?_
  exact (seqNums_of_some hacc).symm

theorem sameSeqNums_of_processFeeSeqNum {tx : Tx} (hv : ltx.header.StartsFrom 10)
    (h : tx.processFeeSeqNum ltx baseFee = .ok (result, ltx')) : SameSeqNums ltx ltx' := by
  cases tx with
  | plain tx =>
    unfold Tx.processFeeSeqNum processFeeSeqNum at h
    dsimp only at h
    split at h
    · cases h
    · rename_i acc hacc
      obtain ⟨⟨fee, acc', header⟩, hfee, h⟩ := bind_eq_ok.mp h
      have hbefore : protocolVersionIsBefore header.ledgerVersion 10 = false := by
        rw [(seqNum_of_takeFee hfee).2.2]
        exact not_protocolVersionIsBefore le_rfl hv
      simp only [hbefore, Bool.false_eq_true, if_false, pure_bind, pure_eq_ok, Prod.mk.injEq] at h
      obtain ⟨-, rfl⟩ := h
      exact sameSeqNums_of_fee hacc hfee
  | feeBump tx =>
    unfold Tx.processFeeSeqNum FeeBumpTransactionFrame.processFeeSeqNum at h
    dsimp only at h
    split at h
    · cases h
    · rename_i acc hacc
      obtain ⟨⟨fee, acc', header⟩, hfee, h⟩ := bind_eq_ok.mp h
      obtain ⟨-, rfl⟩ := h
      exact sameSeqNums_of_fee hacc hfee

theorem sameSeqNums_of_processFeesSeqNums {txs : List Tx}
    {charged : List ChargedTx} (hv : ltx.header.StartsFrom 10)
    (h : processFeesSeqNums baseFee txs ltx = .ok (charged, ltx')) : SameSeqNums ltx ltx' := by
  induction txs generalizing ltx charged with
  | nil =>
    obtain ⟨-, rfl⟩ := Prod.mk.inj (pure_eq_ok.mp h)
    exact .refl ltx
  | cons tx txs ih =>
    obtain ⟨⟨result, ltx₁⟩, hfee, h⟩ := bind_eq_ok.mp h
    obtain ⟨⟨charged₁, ltx₂⟩, hrest, h⟩ := bind_eq_ok.mp h
    obtain ⟨-, rfl⟩ := Prod.mk.inj (pure_eq_ok.mp h)
    have hfirst := sameSeqNums_of_processFeeSeqNum hv hfee
    exact hfirst.trans (ih (hv.congr hfirst.ledgerVersion) hrest)

/-! ## Upgrades -/

/-- An upgrade keeps the numbers, and the protocol does not fall below 10. -/
structure UpgradeKeeps (ltx ltx' : LedgerTxn E) : Prop where
  seqNums : ltx'.seqNums = ltx.seqNums
  ledgerSeq : ltx'.header.ledgerSeq = ltx.header.ledgerSeq
  version : protocolVersionStartsFrom ltx'.header.ledgerVersion 10 = true

theorem validStep_of_isValidForApply {op : UpgradeType} {maxVersion : UInt32}
    {upgrade : LedgerUpgrade}
    (h : isValidForApply op header maxVersion = (.valid, some upgrade)) :
    validStep upgrade header maxVersion = true := by
  unfold isValidForApply at h
  split at h
  · cases h
  · obtain ⟨hvalid, hupgrade⟩ := Prod.mk.inj h
    cases hupgrade
    by_contra hnot
    rw [if_neg hnot] at hvalid
    cases hvalid

section

variable [OtherOperations E] {ltx ltx' : LedgerTxn E}

theorem upgradeKeeps_of_applyTo {upgrade : LedgerUpgrade} {maxVersion : UInt32}
    (hv : ltx.header.StartsFrom 10)
    (hvalid : validStep upgrade ltx.header maxVersion = true)
    (h : Upgrades.applyTo upgrade ltx = .ok ltx') : UpgradeKeeps ltx ltx' := by
  cases upgrade with
  | newLedgerVersion v =>
    have hup : protocolVersionStartsFrom v 10 = true := by
      simp only [validStep, Bool.and_eq_true, decide_eq_true_eq,
        gt_iff_lt, UInt32.lt_iff_toNat_lt] at hvalid
      simp only [LedgerHeader.StartsFrom, protocolVersionStartsFrom, decide_eq_true_eq] at hv ⊢
      omega
    unfold Upgrades.applyTo applyVersionUpgrade at h
    dsimp only at h
    split at h
    · have hkept := sameSeqNums_of_prepareLiabilities h
      exact ⟨hkept.seqNums, hkept.ledgerSeq, hkept.ledgerVersion ▸ hup⟩
    · split at h
      · have hkept := sameSeqNums_of_upgradeFromProtocol15To16 h
        exact ⟨hkept.seqNums, hkept.ledgerSeq, hkept.ledgerVersion ▸ hup⟩
      · cases h
        exact ⟨rfl, rfl, hup⟩
  | newBaseReserve v =>
    unfold Upgrades.applyTo applyReserveUpgrade at h
    dsimp only at h
    split at h
    · have hkept := sameSeqNums_of_prepareLiabilities h
      exact ⟨hkept.seqNums, hkept.ledgerSeq, hkept.ledgerVersion ▸ hv⟩
    · cases h
      exact ⟨rfl, rfl, hv⟩
  | _ =>
    cases h
    exact ⟨rfl, rfl, hv⟩

theorem upgradeKeeps_of_applyUpgrades {cfg : Config} {ops : List UpgradeType}
    (hv : ltx.header.StartsFrom 10)
    (h : applyUpgrades cfg ops ltx = .ok ltx') : UpgradeKeeps ltx ltx' := by
  induction ops generalizing ltx with
  | nil =>
    cases h
    exact ⟨rfl, rfl, hv⟩
  | cons op ops ih =>
    unfold applyUpgrades at h
    split at h
    · rename_i upgrade hvalid
      split at h
      · rename_i ltx₁ happly
        have hstep := upgradeKeeps_of_applyTo hv (validStep_of_isValidForApply hvalid) happly
        have hrest := ih hstep.version h
        exact ⟨hrest.seqNums.trans hstep.seqNums, hrest.ledgerSeq.trans hstep.ledgerSeq,
          hrest.version⟩
      · exact ih hv h
    · cases h
    · cases h

end

/-! ## Closed ledgers -/

section

variable [HashFunction] [PubKeyUtils] [OtherOperations E] [SponsorshipEntries E]

omit [HashFunction] [PubKeyUtils] [OtherOperations E] [SponsorshipEntries E] in
theorem ledgerSeq_openLedger {lcl : LastClosedLedger E} (value : StellarValue)
    (hseq : lcl.header.ledgerSeq.toNat + 1 < 2 ^ 32) :
    (openLedger lcl value).header.ledgerSeq.toNat = lcl.header.ledgerSeq.toNat + 1 := by
  show (lcl.header.ledgerSeq + 1).toNat = _
  exact Nat.mod_eq_of_lt hseq

omit [HashFunction] [PubKeyUtils] [OtherOperations E] [SponsorshipEntries E] in
/-- The next ledger has larger starting numbers, so the marks of the accounts
that do not exist rise. -/
theorem mark_openLedger_le {lcl : LastClosedLedger E} (value : StellarValue)
    (hseq : lcl.header.ledgerSeq.toNat + 1 < 2 ^ 32) (id : AccountID) :
    lcl.ledger.mark id ≤ (openLedger lcl value).mark id := by
  have hnext := ledgerSeq_openLedger value hseq
  have hseqNums : (openLedger lcl value).seqNums = lcl.ledger.seqNums := rfl
  simp only [LedgerTxn.mark, hseqNums, hnext]
  split
  · exact le_rfl
  · show (lcl.header.ledgerSeq.toNat : Int) * 2 ^ 32 - 1 ≤ _
    omega

/-- What closing ledgers does to the marks. -/
structure ClosesTo (lcl : LastClosedLedger E) (closed : Nat) (taken : List TransactionFrame)
    (lcl' : LastClosedLedger E) : Prop where
  consumes : Consumes TransactionFrame.sourceAccount (fun tx => tx.seqNum.toInt) lcl.ledger.mark
    taken lcl'.ledger.mark
  ledgerSeq : lcl'.header.ledgerSeq.toNat = lcl.header.ledgerSeq.toNat + closed
  version : protocolVersionStartsFrom lcl'.header.ledgerVersion 10 = true

variable {I : Stl.Impl} {app : ApplyContext E C} {cfg : Config}
  {ledgerHash : LedgerHeader → Hash} {taken : List TransactionFrame}
  {lcl lcl' : LastClosedLedger E}

theorem closesTo_of_closeLedger {data : LedgerCloseData} (hv : lcl.header.StartsFrom 10)
    (hseq : lcl.header.ledgerSeq.toNat + 1 < 2 ^ 32)
    (h : closeLedger I app cfg ledgerHash lcl data = .ok (taken, lcl')) :
    ClosesTo lcl 1 taken lcl' := by
  unfold closeLedger at h
  split_ifs at h
  obtain ⟨baseFee, -, h⟩ := bind_eq_ok.mp h
  obtain ⟨⟨charged, ltx₁⟩, hfees, h⟩ := bind_eq_ok.mp h
  obtain ⟨⟨taken₁, ltx₂⟩, happly, h⟩ := bind_eq_ok.mp h
  obtain ⟨ltx₃, hupgrades, h⟩ := bind_eq_ok.mp h
  cases h
  have hv₀ : (openLedger lcl data.value).header.StartsFrom 10 := hv
  have hkept := sameSeqNums_of_processFeesSeqNums hv₀ hfees
  have hv₁ := hv₀.congr hkept.ledgerVersion
  have htakes := @takesNumbers_of_applyTransactions E C _ _ (operationFrame E) _ _ _ _ _
    (marksRise_of_operation) _ _ hv₁ happly
  have hup := upgradeKeeps_of_applyUpgrades (hv₁.congr htakes.ledgerVersion) hupgrades
  have hopen : ∀ id, lcl.ledger.mark id ≤ ltx₁.mark id := fun id => by
    rw [hkept.mark_eq]
    exact mark_openLedger_le data.value hseq id
  have hlast : ∀ id, ltx₂.mark id ≤ ltx₃.mark id := fun id => by
    simp only [LedgerTxn.mark, hup.seqNums, hup.ledgerSeq, le_refl]
  refine ⟨?_, ?_, hup.version⟩
  · simpa using ((Consumes.of_le hopen).trans htakes.consumes).trans (Consumes.of_le hlast)
  · show ltx₃.header.ledgerSeq.toNat = _
    rw [hup.ledgerSeq, htakes.ledgerSeq, hkept.ledgerSeq]
    exact ledgerSeq_openLedger data.value hseq

/-- The whole run. -/
theorem closesTo_of_closeLedgers {run : List LedgerCloseData} (hv : lcl.header.StartsFrom 10)
    (hseq : lcl.header.ledgerSeq.toNat + run.length < 2 ^ 32)
    (h : closeLedgers I app cfg ledgerHash run lcl = .ok (taken, lcl')) :
    ClosesTo lcl run.length taken lcl' := by
  induction run generalizing lcl taken with
  | nil =>
    cases h
    exact ⟨Consumes.of_le fun _ => le_rfl, rfl, hv⟩
  | cons data run ih =>
    obtain ⟨⟨taken₁, lcl₁⟩, hclose, h⟩ := bind_eq_ok.mp h
    obtain ⟨⟨taken₂, lcl₂⟩, hrest, h⟩ := bind_eq_ok.mp h
    cases h
    simp only [List.length_cons] at hseq ⊢
    have hfirst := closesTo_of_closeLedger hv (by omega) hclose
    have hlast := ih hfirst.version (by rw [hfirst.ledgerSeq]; omega) hrest
    refine ⟨hfirst.consumes.trans hlast.consumes, ?_, hlast.version⟩
    rw [hlast.ledgerSeq, hfirst.ledgerSeq]
    omega

/-- Along a run of closed ledgers the numbers taken from one account ascend, so
no two transactions take the same number of the same account. -/
theorem closeLedgers_no_replay (I : Stl.Impl) (app : ApplyContext E C) (cfg : Config)
    (ledgerHash : LedgerHeader → Hash) (run : List LedgerCloseData) (lcl : LastClosedLedger E)
    (taken : List TransactionFrame) (lcl' : LastClosedLedger E)
    (hv : protocolVersionStartsFrom lcl.header.ledgerVersion 10 = true)
    (hseq : lcl.header.ledgerSeq.toNat + run.length < 2 ^ 31)
    (h : closeLedgers I app cfg ledgerHash run lcl = .ok (taken, lcl')) :
    (∀ id, ((taken.filter (·.sourceAccount = id)).map (·.seqNum)).Pairwise (· < ·))
      ∧ (taken.map fun tx => (tx.sourceAccount, tx.seqNum)).Nodup := by
  have hcloses := (closesTo_of_closeLedgers hv (by omega) h).consumes
  constructor
  · intro id
    have hascending := hcloses.filter_ascending id
    rw [List.pairwise_map] at hascending ⊢
    exact hascending.imp Int64.lt_iff_toInt_lt.mpr
  · refine List.Nodup.of_map (fun p : AccountID × SequenceNumber => (p.1, p.2.toInt)) ?_
    rw [List.map_map]
    exact hcloses.nodup

end

/-- Operations that do nothing, beside those that touch sequence numbers. -/
@[reducible] def idleOtherOperations (E : Type) : OtherOperations E where
  isOpSupported _ _ := true
  getThresholdLevel _ := .LOW
  doCheckValid _ _ _ _ := return true
  doApply _ _ _ ltx := return (true, ltx)
  sameSeqNums_of_doApply h := by
    cases h
    exact ⟨rfl, rfl, rfl⟩
  prepareLiabilities ltx := return ltx
  sameSeqNums_of_prepareLiabilities h := by
    cases h
    exact ⟨rfl, rfl, rfl⟩
  upgradeFromProtocol15To16 ltx := return ltx
  sameSeqNums_of_upgradeFromProtocol15To16 h := by
    cases h
    exact ⟨rfl, rfl, rfl⟩

/-- Two accounts after ledger 2; the header's hash is its number. -/
def twoAccounts : LastClosedLedger Unit where
  hash := 2
  ledger := { preAuthorised with
    accounts := fun id =>
      if id = 1 then some { balance := 20000000000, seqNum := 7 }
      else if id = 2 then some { balance := 20000000000, seqNum := 0 }
      else none }

open Evaluation

/-- A ledger with a single signed transaction after the ledger with number
`prev`. -/
def singleClose (prev : Nat) (source : AccountID) (seqNum : SequenceNumber)
    (body : OperationBody) : letI := bytesAsNumber; LedgerCloseData :=
  let tx : Tx := .plain
    { sourceAccount := source, fee := 100, seqNum := seqNum, operations := [{ body := body }],
      signatures := [{ hint := source.setWidth 32, signature := [] }] }
  let txSet := TxSetFrame.fresh (BitVec.ofNat 256 prev) [tx]
  ⟨txSet, { txSetHash := (txSet.getContentsHash Stl.insertion).1, closeTime := 1 }⟩

/-- Account 1 is merged away, created again and tries its old number: it has to
go on from the numbers of the ledger it was created in. -/
theorem closeLedgers_no_replay_merge :
    letI := idleOtherOperations Unit
    letI := noSponsorship Unit
    let run := [singleClose 2 1 8 (.accountMerge 2),
      singleClose 3 2 1 (.createAccount 1 10000000000),
      singleClose 4 1 8 (.accountMerge 2), singleClose 5 1 17179869185 (.bumpSequence 17179869190)]
    ∃ taken lcl', closeLedgers Stl.insertion
        (⟨false, fun _ _ _ => true, fun _ _ => []⟩ : ApplyContext Unit Unit) ⟨18⟩
        (fun header => BitVec.ofNat 256 header.ledgerSeq.toNat) run twoAccounts = .ok (taken, lcl')
      ∧ (taken.map fun tx => (tx.sourceAccount, tx.seqNum)) = [(1, 8), (2, 1), (1, 17179869185)]
      ∧ ∀ id, ((taken.filter (·.sourceAccount = id)).map (·.seqNum)).Pairwise (· < ·) := by
  let _ := idleOtherOperations Unit
  let _ := noSponsorship Unit
  have hcloses : (closeLedgers Stl.insertion
      (⟨false, fun _ _ _ => true, fun _ _ => []⟩ : ApplyContext Unit Unit) ⟨18⟩
      (fun header => BitVec.ofNat 256 header.ledgerSeq.toNat)
      [singleClose 2 1 8 (.accountMerge 2), singleClose 3 2 1 (.createAccount 1 10000000000),
        singleClose 4 1 8 (.accountMerge 2),
        singleClose 5 1 17179869185 (.bumpSequence 17179869190)]
      twoAccounts).map (fun r => r.1.map fun tx => (tx.sourceAccount, tx.seqNum))
        = .ok [(1, 8), (2, 1), (1, 17179869185)] := by
    decide +kernel
  obtain ⟨⟨taken, lcl'⟩, hrun, htaken⟩ := map_eq_ok.mp hcloses
  exact ⟨taken, lcl', hrun, htaken,
    (closeLedgers_no_replay _ _ _ _ _ _ _ _ (by decide) (by decide) hrun).1⟩

end KinesisCore

import KinesisCore.TxSetValid

/-!
# The remembered validity of a transaction set (`TxSetFrame::mValid`)

A set answers `checkValid` from memory when it has been asked on the same
last closed ledger before. The memory holds that ledger's hash and the
answer, but not the close-time offsets the question was asked with, and the
answer depends on them: a transaction may expire between two close times.

`Memo.run` follows a set through the calls made on it and records which
question its memory answers (`Checked`). `Memo.run_sound` is what every run
keeps; the answer a set gives after any calls is then compared with that of a
fresh copy.
-/

namespace KinesisCore

open TransactionFrameBase TxSetFrame

/-- A call on a transaction set. -/
inductive TxSetCall (T E : Type) where
  | add (tx : T)
  | removeTx (tx : T)
  | sortForHash
  /-- The reference that the non-const `previousLedgerHash` hands out, written to. -/
  | previousLedgerHash (hash : Hash)
  | getContentsHash
  | checkValid (lcl : LastClosedLedger E) (lo hi : UInt64)

/-- A question that `checkValid` has answered. -/
structure Checked (E : Type) where
  lcl : LastClosedLedger E
  lo : UInt64
  hi : UInt64

section

variable {T E : Type} [TransactionFrameBase T] [HashFunction] [DecidableEq T] {s : TxSetFrame T}

namespace TxSetFrame

variable {lcl : LastClosedLedger E}

def add (s : TxSetFrame T) (tx : T) : TxSetFrame T :=
  fresh s.mPreviousLedgerHash (s.mTransactions ++ [tx])

def removeTx (s : TxSetFrame T) (tx : T) : TxSetFrame T :=
  fresh s.mPreviousLedgerHash (s.mTransactions.erase tx)

def setPreviousLedgerHash (s : TxSetFrame T) (hash : Hash) : TxSetFrame T :=
  fresh hash s.mTransactions

/-- The same set, with nothing remembered. -/
def freshCopy (s : TxSetFrame T) : TxSetFrame T := fresh s.mPreviousLedgerHash s.mTransactions

variable [CheckValid T E]

/-- The answer alone. -/
def validity (I : Stl.Impl) (s : TxSetFrame T) (lcl : LastClosedLedger E) (lo hi : UInt64) :
    Except String Bool :=
  (s.checkValid I lcl lo hi).map Prod.fst

/-- Whether a result is remembered for a ledger. -/
def Remembers (s : TxSetFrame T) (lcl : LastClosedLedger E) : Prop :=
  ∃ valid, s.mValid = some (lcl.hash, valid)

instance (s : TxSetFrame T) (lcl : LastClosedLedger E) : Decidable (s.Remembers lcl) :=
  inferInstanceAs (Decidable (∃ _ : Bool, _))

omit [DecidableEq T] [CheckValid T E] in
theorem filter_mValid_eq_none (h : ¬s.Remembers lcl) :
    s.mValid.filter (·.1 = lcl.hash) = none := by
  rw [Option.filter_eq_none_iff]
  rintro ⟨hash, valid⟩ hmem hhash
  obtain rfl : hash = lcl.hash := by simpa using hhash
  exact h ⟨valid, hmem⟩

/-- A remembered result is given again. -/
theorem checkValid_of_remembers {valid : Bool} (h : s.mValid = some (lcl.hash, valid))
    (I : Stl.Impl) (lo hi : UInt64) :
    s.checkValid I lcl lo hi = .ok (valid, s) := by
  have hfilter : s.mValid.filter (·.1 = lcl.hash) = some (lcl.hash, valid) := by simp [h]
  unfold checkValid
  rw [hfilter]
  rfl

theorem checkValid_of_not_remembers (h : ¬s.Remembers lcl) (I : Stl.Impl) (lo hi : UInt64) :
    s.checkValid I lcl lo hi = do
      let valid ← s.checkNow I lcl lo hi
      return (valid, { s with mValid := some (lcl.hash, valid) }) := by
  unfold checkValid
  rw [filter_mValid_eq_none h]

theorem validity_of_not_remembers (h : ¬s.Remembers lcl) (I : Stl.Impl) (lo hi : UInt64) :
    s.validity I lcl lo hi = s.checkNow I lcl lo hi := by
  rw [validity, checkValid_of_not_remembers h]
  cases s.checkNow I lcl lo hi <;> rfl

/-- A fresh copy makes the check. -/
theorem validity_freshCopy (I : Stl.Impl) (s : TxSetFrame T) (lcl : LastClosedLedger E)
    (lo hi : UInt64) : s.freshCopy.validity I lcl lo hi = s.checkNow I lcl lo hi := by
  have h : ¬s.freshCopy.Remembers lcl := by rintro ⟨valid, h⟩; cases h
  rw [validity_of_not_remembers h]
  rfl

end TxSetFrame

/-! ## Runs -/

/-- A set, with the question that its remembered result answers. -/
structure Memo (T E : Type) [TransactionFrameBase T] [HashFunction] where
  frame : TxSetFrame T
  checked : Option (Checked E)

namespace Memo

/-- A set that a call has left with nothing remembered. -/
def forget (s : TxSetFrame T) : Memo T E := ⟨s, none⟩

variable [CheckValid T E]

/-- One call. A check that throws leaves the set as it is. -/
def call (I : Stl.Impl) (m : Memo T E) : TxSetCall T E → Memo T E
  | .add tx => forget (m.frame.add tx)
  | .removeTx tx => forget (m.frame.removeTx tx)
  | .sortForHash => forget (m.frame.sortForHash I)
  | .previousLedgerHash hash => forget (m.frame.setPreviousLedgerHash hash)
  | .getContentsHash =>
    ⟨(m.frame.getContentsHash I).2, if m.frame.mHash.isSome then m.checked else none⟩
  | .checkValid lcl lo hi =>
    match m.frame.checkValid I lcl lo hi with
    | .error _ => m
    | .ok (_, frame) => ⟨frame, if m.frame.Remembers lcl then m.checked else some ⟨lcl, lo, hi⟩⟩

/-- A new set, and the calls made on it. -/
def run (I : Stl.Impl) (previousLedgerHash : Hash) (txs : List T)
    (calls : List (TxSetCall T E)) : Memo T E :=
  calls.foldl (call I) (forget (TxSetFrame.fresh previousLedgerHash txs))

/-- What is remembered is the uncached answer to the question on record. -/
def Sound (I : Stl.Impl) (m : Memo T E) : Prop :=
  match m.checked with
  | none => m.frame.mValid = none
  | some c => ∃ valid, m.frame.mValid = some (c.lcl.hash, valid)
      ∧ m.frame.checkNow I c.lcl c.lo c.hi = .ok valid

theorem sound_forget (I : Stl.Impl) (h : s.mValid = none) :
    (forget s : Memo T E).Sound I := h

theorem Sound.call {I : Stl.Impl} {m : Memo T E} (h : m.Sound I) (c : TxSetCall T E) :
    (m.call I c).Sound I := by
  cases c with
  | add tx | removeTx tx | sortForHash | previousLedgerHash hash => exact sound_forget I rfl
  | getContentsHash =>
    simp only [Memo.call, getContentsHash]
    cases hhash : m.frame.mHash with
    | some hash => exact h
    | none => exact sound_forget I rfl
  | checkValid lcl lo hi =>
    simp only [Memo.call]
    by_cases hrem : m.frame.Remembers lcl
    · obtain ⟨valid, hvalid⟩ := hrem
      rw [checkValid_of_remembers hvalid]
      rwa [if_pos ⟨valid, hvalid⟩]
    · rw [checkValid_of_not_remembers hrem]
      cases hnow : m.frame.checkNow I lcl lo hi with
      | error e => exact h
      | ok valid =>
        simp only [if_neg hrem]
        exact ⟨valid, rfl, hnow⟩

theorem run_sound (I : Stl.Impl) (previousLedgerHash : Hash) (txs : List T)
    (calls : List (TxSetCall T E)) : (run I previousLedgerHash txs calls).Sound I := by
  suffices ∀ m : Memo T E, m.Sound I → (calls.foldl (call I) m).Sound I from
    this _ (sound_forget I rfl)
  induction calls with
  | nil => exact fun m h => h
  | cons c calls ih => exact fun m h => ih _ (h.call c)

/-- The question on record was asked in a call of the run. -/
theorem checked_asked {I : Stl.Impl} {previousLedgerHash : Hash} {txs : List T}
    {calls : List (TxSetCall T E)} {c : Checked E}
    (h : (run I previousLedgerHash txs calls).checked = some c) :
    TxSetCall.checkValid c.lcl c.lo c.hi ∈ calls := by
  suffices ∀ m : Memo T E, (calls.foldl (call I) m).checked = some c →
      m.checked = some c ∨ TxSetCall.checkValid c.lcl c.lo c.hi ∈ calls by
    rcases this _ h with hnone | hmem
    · cases hnone
    · exact hmem
  clear h
  induction calls with
  | nil => exact fun _ => .inl
  | cons d calls ih =>
    intro m h
    rcases ih _ h with hcall | hmem
    · cases d with
      | add tx | removeTx tx | sortForHash | previousLedgerHash hash => cases hcall
      | getContentsHash =>
        simp only [call] at hcall
        split at hcall
        · exact .inl hcall
        · cases hcall
      | checkValid lcl lo hi =>
        simp only [call] at hcall
        split at hcall
        · exact .inl hcall
        · split at hcall
          · exact .inl hcall
          · cases hcall
            exact .inr List.mem_cons_self
    · exact .inr (List.mem_cons_of_mem _ hmem)

/-- After any calls, a set answers a question as a fresh copy of it would exactly
when the question its memory holds the answer to, if it was about this
ledger, has the same answer. A ledger is known by its hash. -/
theorem validity_eq_freshCopy_iff (I : Stl.Impl) (previousLedgerHash : Hash) (txs : List T)
    (calls : List (TxSetCall T E)) (lcl : LastClosedLedger E) (lo hi : UInt64)
    (hhash : ∀ lcl' lo' hi', TxSetCall.checkValid lcl' lo' hi' ∈ calls →
      lcl'.hash = lcl.hash → lcl' = lcl) :
    let m := run I previousLedgerHash txs calls
    m.frame.validity I lcl lo hi = m.frame.freshCopy.validity I lcl lo hi
      ↔ ∀ c ∈ m.checked, c.lcl.hash = lcl.hash →
          m.frame.freshCopy.validity I lcl c.lo c.hi
            = m.frame.freshCopy.validity I lcl lo hi := by
  intro m
  have hsound : m.Sound I := run_sound I previousLedgerHash txs calls
  have hasked : ∀ c ∈ m.checked, TxSetCall.checkValid c.lcl c.lo c.hi ∈ calls :=
    fun _ => checked_asked
  simp only [validity_freshCopy]
  cases hc : m.checked with
  | none =>
    have hrem : ¬m.frame.Remembers lcl := by
      rintro ⟨valid, hvalid⟩
      rw [Sound, hc] at hsound
      rw [hsound] at hvalid
      cases hvalid
    simp [validity_of_not_remembers hrem]
  | some c =>
    rw [Sound, hc] at hsound
    obtain ⟨valid, hmem, hnow⟩ := hsound
    by_cases hlcl : c.lcl.hash = lcl.hash
    · obtain rfl := hhash _ _ _ (hasked c hc) hlcl
      have hvalidity : m.frame.validity I c.lcl lo hi = .ok valid := by
        rw [validity, checkValid_of_remembers hmem]
        rfl
      rw [hvalidity, ← hnow]
      simp
    · have hrem : ¬m.frame.Remembers lcl := by
        rintro ⟨valid', hvalid'⟩
        rw [hmem] at hvalid'
        exact hlcl (Prod.mk.inj (Option.some.inj hvalid')).1
      simp [validity_of_not_remembers hrem, hlcl]

end Memo

end

namespace Memo

/-- A ledger of protocol 14, closed at 1000, with one account. -/
def closedAt1000 : LastClosedLedger Unit where
  hash := 5
  ledger :=
    { header :=
        { header45 with
          scpValue := { txSetHash := 0, closeTime := 1000 }
          maxFee := 1000000
          maxTxSetSize := 100 }
      accounts id := if id = 1 then some { balance := 20000000000, seqNum := 7 } else none
      others := () }

/-- A payment that may be in a ledger closed at 1010 or before. -/
def expiresAt1010 : Tx :=
  .plain { sourceAccount := 1, fee := 200, seqNum := 8, timeBounds := some ⟨0, 1010⟩,
           operations := [{ body := .payment 9 true 1000 }],
           operations_le := one_le_maxOpsPerTx,
           signatures := [{ hint := 1, signature := [] }] }

/-- The set is first checked for a close time of 1005. -/
def firstAsked : List (TxSetCall Tx Unit) := [.checkValid closedAt1000 5 5]

open Evaluation

/-- At a close time of 1005 the set is valid, and then also at 1020; the other
way round it is neither. A node's votes depend on which of two values with
this set it hears of first. -/
theorem remembered_validity_differs :
    let m := run Stl.insertion 5 [expiresAt1010] firstAsked
    m.frame.validity Stl.insertion closedAt1000 20 20 = .ok true
      ∧ m.frame.freshCopy.validity Stl.insertion closedAt1000 20 20 = .ok false :=
  ⟨by decide +kernel, by decide +kernel⟩

/-- Asked again at offsets at which the set is valid too. -/
theorem validity_eq_freshCopy_again :
    let m := run Stl.insertion 5 [expiresAt1010] firstAsked
    m.frame.validity Stl.insertion closedAt1000 6 6
      = m.frame.freshCopy.validity Stl.insertion closedAt1000 6 6 := by
  refine (validity_eq_freshCopy_iff Stl.insertion 5 [expiresAt1010] firstAsked closedAt1000 6 6
    ?_).mpr ?_
  · intro lcl' lo' hi' hmem _
    cases List.mem_singleton.mp hmem
    rfl
  · intro c hc _
    obtain ⟨-, hlo, hhi⟩ := TxSetCall.checkValid.inj (List.mem_singleton.mp (checked_asked hc))
    rw [hlo, hhi]
    decide +kernel

end Memo

end KinesisCore

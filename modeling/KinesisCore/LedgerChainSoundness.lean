import KinesisCore.VerifyLedgerChain

/-!
# What a verified chain of headers shows

When the work succeeds, the headers it accepted form one chain, across the
boundaries of the files too, from the trusted hash down. Each file has to end where
its checkpoint or the range ends, and by the number carried along it has to begin
where the file below ends. Nothing is said about where the oldest file begins: it may
begin after the first ledger of the range, and then the range is not covered.
-/

namespace KinesisCore.VerifyLedgerChainWork

open HistoryManager Except List
open UInt32 (toNat_inj lt_iff_toNat_lt toNat_add toNat_sub)

/-! ## Chains -/

variable {l : List LedgerHeaderHistoryEntry} {z : LedgerHeaderHistoryEntry}

/-- The next header of a chain: the next number, and the hash of the one before. -/
structure Link (a b : LedgerHeaderHistoryEntry) : Prop where
  seq : b.header.ledgerSeq = a.header.ledgerSeq + 1
  hash : b.header.previousLedgerHash = a.hash

/-- A chain counts through: from any of its numbers up to the number it ends with. -/
theorem counts_through (hchain : l.IsChain Link) (hz : l.getLast? = some z) (k : Nat) :
    ∀ e ∈ l, e.header.ledgerSeq.toNat + k ≤ z.header.ledgerSeq.toNat →
      ∃ e' ∈ l, e'.header.ledgerSeq.toNat = e.header.ledgerSeq.toNat + k := by
  induction k with
  | zero => exact fun e he _ => ⟨e, he, rfl⟩
  | succ k ih =>
    intro e he hle
    obtain ⟨e', he', hseq⟩ := ih e he (by omega)
    -- the header at that number is not the last one, so another follows it
    obtain ⟨l₁, l₂, rfl⟩ := append_of_mem he'
    cases l₂ with
    | nil =>
      rw [getLast?_concat, Option.some_inj] at hz
      subst hz
      omega
    | cons b l₂ =>
      have hlink : Link e' b := ((isChain_append.mp hchain).2.1.rel_head? rfl)
      refine ⟨b, mem_append_right _ (mem_cons_of_mem _ mem_cons_self), ?_⟩
      have hlt := z.header.ledgerSeq.toNat_lt
      rw [hlink.seq, toNat_add]
      have : (1 : UInt32).toNat = 1 := rfl
      omega

/-! ## One header and one file -/

section

variable {i : Input} {e a : LedgerHeaderHistoryEntry} {w w' : VerifyLedgerChainWork}

theorem verifyLedgerHistoryEntry_ok (h : verifyLedgerHistoryEntry i e = .ok) :
    i.sha256 e.header = e.hash := by
  by_contra hne
  rw [verifyLedgerHistoryEntry, if_pos hne] at h
  cases h

theorem verifyLedgerHistoryLink_ok {prev : Hash} (h : verifyLedgerHistoryLink i prev e = .ok) :
    i.sha256 e.header = e.hash ∧ e.header.previousLedgerHash = prev := by
  unfold verifyLedgerHistoryLink at h
  dsimp only at h
  split_ifs at h with hentry hprev
  · exact absurd h hentry
  · exact ⟨verifyLedgerHistoryEntry_ok (not_not.mp hentry), (not_not.mp hprev).symm⟩

/-- The header that follows the last closed ledger names its hash. -/
def AgreesWithLastClosed (i : Input) (e : LedgerHeaderHistoryEntry) : Prop :=
  e.header.ledgerSeq.toNat = i.mLastClosed.1.toNat + 1 →
    e.header.previousLedgerHash = i.mLastClosed.2

theorem verifyAgainstLastClosed_ok (h : verifyAgainstLastClosed i e = .ok) :
    AgreesWithLastClosed i e := by
  intro hnext
  have hseq : e.header.ledgerSeq = i.mLastClosed.1 + 1 := by
    apply toNat_inj.mp
    have hlt := e.header.ledgerSeq.toNat_lt
    have hone : (1 : UInt32).toNat = 1 := rfl
    rw [toNat_add]
    omega
  have hne : e.header.ledgerSeq ≠ i.mLastClosed.1 := by
    intro heq
    rw [heq] at hnext
    omega
  rw [verifyAgainstLastClosed, if_neg hne, if_pos hseq] at h
  exact (verifyLedgerHistoryLink_ok h).2

variable {prev : Option LedgerHeaderHistoryEntry} {link : LedgerNumHashPair}

theorem verifyAgainstPrevious_ok (h : verifyAgainstPrevious i prev e = .ok) :
    i.sha256 e.header = e.hash ∧ ∀ p ∈ prev, Link p e := by
  cases prev with
  | none => exact ⟨verifyLedgerHistoryEntry_ok h, nofun⟩
  | some p =>
    unfold verifyAgainstPrevious at h
    dsimp only at h
    split_ifs at h with hlow hhigh
    obtain ⟨hhash, hprev⟩ := verifyLedgerHistoryLink_ok h
    refine ⟨hhash, fun p' hp' => ?_⟩
    cases hp'
    refine ⟨?_, hprev⟩
    rw [lt_iff_toNat_lt] at hlow
    rw [gt_iff_lt, lt_iff_toNat_lt] at hhigh
    apply toNat_inj.mp
    omega

theorem verifyHeader_ok (h : verifyHeader i prev e = .ok) :
    i.sha256 e.header = e.hash ∧ AgreesWithLastClosed i e ∧ ∀ p ∈ prev, Link p e := by
  unfold verifyHeader at h
  dsimp only at h
  split_ifs at h with hversion hlcl
  · exact absurd h hlcl
  · obtain ⟨hhash, hlink⟩ := verifyAgainstPrevious_ok h
    exact ⟨hhash, verifyAgainstLastClosed_ok (not_not.mp hlcl), hlink⟩

/-- The headers of a file that are read: all up to the first one numbered `last`. -/
def headersUpTo (last : UInt32) : List HeaderRecord → List LedgerHeaderHistoryEntry
  | .entry e :: records =>
    e :: if e.header.ledgerSeq = last then [] else headersUpTo last records
  | _ => []

/-- The headers accepted from one file. -/
structure Verified (i : Input) (l : List LedgerHeaderHistoryEntry) : Prop where
  chain : l.IsChain Link
  hash : ∀ e ∈ l, i.sha256 e.header = e.hash
  lastClosed : ∀ e ∈ l, AgreesWithLastClosed i e

theorem Verified.nil : Verified i [] := ⟨.nil, by simp, by simp⟩

theorem Verified.append {l' : List LedgerHeaderHistoryEntry} (h : Verified i l) (h' : Verified i l')
    (hlink : ∀ a ∈ l.getLast?, ∀ b ∈ l'.head?, Link a b) :
    Verified i (l ++ l') where
  chain := h.chain.append h'.chain hlink
  hash e he := (mem_append.mp he).elim (h.hash e) (h'.hash e)
  lastClosed e he := (mem_append.mp he).elim (h.lastClosed e) (h'.lastClosed e)

theorem Verified.cons (hhash : i.sha256 e.header = e.hash) (hlcl : AgreesWithLastClosed i e)
    (h : Verified i l) (hlink : ∀ b ∈ l.head?, Link e b) :
    Verified i (e :: l) where
  chain := h.chain.cons hlink
  hash := forall_mem_cons.mpr ⟨hhash, h.hash⟩
  lastClosed := forall_mem_cons.mpr ⟨hlcl, h.lastClosed⟩

theorem readHeaders_ok (records : List HeaderRecord) :
    ∀ {prev : Option LedgerHeaderHistoryEntry} {l : List LedgerHeaderHistoryEntry},
      readHeaders i prev records = .ok (.ok, l) →
      l = headersUpTo i.mRange.last records ∧ Verified i l
        ∧ ∀ p ∈ prev, ∀ b ∈ l.head?, Link p b := by
  induction records with
  | nil =>
    intro prev l h
    cases h
    exact ⟨rfl, .nil, nofun⟩
  | cons record records ih =>
    intro prev l h
    cases record with
    | badMessageSize => cases h
    | malformed => cases h
    | entry e =>
      unfold readHeaders at h
      dsimp only at h
      split_ifs at h with hstatus hlast
      · exact absurd (congrArg Prod.fst (ok.inj h)) hstatus
      · obtain ⟨hhash, hlcl, hlink⟩ := verifyHeader_ok (not_not.mp hstatus)
        cases h
        refine ⟨by rw [headersUpTo, if_pos hlast], .cons hhash hlcl .nil (by simp), ?_⟩
        rintro p hp b ⟨⟩
        exact hlink p hp
      · obtain ⟨hhash, hlcl, hlink⟩ := verifyHeader_ok (not_not.mp hstatus)
        obtain ⟨⟨status, l'⟩, hread, heq⟩ := map_eq_ok.mp h
        cases heq
        obtain ⟨hl, hverified, hnext⟩ := ih hread
        refine ⟨by rw [headersUpTo, if_neg hlast, hl], .cons hhash hlcl hverified (hnext e rfl), ?_⟩
        rintro p hp b ⟨⟩
        exact hlink p hp

/-! ## One checkpoint -/

/-- What the last header of a file was compared with. -/
inductive Incoming (i : Input) (w : VerifyLedgerChainWork) (z : LedgerHeaderHistoryEntry) : Prop
  | top (hseq : z.header.ledgerSeq = i.mRange.last) (hfresh : w.mVerifiedAhead = (0, none))
      (htrusted : ∀ trusted ∈ i.mTrustedMaxLedger.2, z.hash = trusted)
  | below (hseq : z.header.ledgerSeq = w.mCurrCheckpoint)
      (hahead : w.mVerifiedAhead = (z.header.ledgerSeq, some z.hash))

theorem verifyLastLedgerInCheckpoint_ok (h : verifyLastLedgerInCheckpoint z link = .ok .ok) :
    z.header.ledgerSeq = link.1 ∧ ∀ trusted ∈ link.2, z.hash = trusted := by
  unfold verifyLastLedgerInCheckpoint at h
  split_ifs at h with hseq
  refine ⟨not_not.mp hseq, fun trusted htrusted => ?_⟩
  rw [Option.mem_def.mp htrusted] at h
  dsimp only at h
  by_contra hne
  rw [if_pos hne] at h
  cases h

theorem incoming_of_ok (hlink : incomingLink i w z = .ok link)
    (hlast : verifyLastLedgerInCheckpoint z link = .ok .ok)
    (hend : z.header.ledgerSeq = w.mCurrCheckpoint ∨ z.header.ledgerSeq = i.mRange.last) :
    Incoming i w z := by
  obtain ⟨hseq, htrusted⟩ := verifyLastLedgerInCheckpoint_ok hlast
  unfold incomingLink at hlink
  split_ifs at hlink with htop
  · obtain ⟨_, hzero, hlink⟩ := bind_eq_ok.mp hlink
    obtain ⟨_, hnone, hlink⟩ := bind_eq_ok.mp hlink
    obtain ⟨_, -, hlink⟩ := bind_eq_ok.mp hlink
    cases hlink
    refine .top htop ?_ htrusted
    exact Prod.ext (of_decide_eq_true (releaseAssert_ok hzero))
      (Option.isNone_iff_eq_none.mp (releaseAssert_ok hnone))
  · obtain ⟨_, hsome, hlink⟩ := bind_eq_ok.mp hlink
    obtain ⟨_, -, hlink⟩ := bind_eq_ok.mp hlink
    cases hlink
    obtain ⟨trusted, hahead⟩ := Option.isSome_iff_exists.mp (releaseAssert_ok hsome)
    refine .below (hend.resolve_right htop) (Prod.ext hseq.symm ?_)
    rw [hahead, htrusted trusted hahead]

theorem noteVerified_eq (w : VerifyLedgerChainWork) (outgoing : LedgerNumHashPair)
    (z : LedgerHeaderHistoryEntry) :
    (noteVerified i w outgoing z).mCurrCheckpoint = w.mCurrCheckpoint
      ∧ (noteVerified i w outgoing z).mVerifiedAhead = w.mVerifiedAhead
      ∧ (noteVerified i w outgoing z).accepted = w.accepted := by
  unfold noteVerified
  split_ifs <;> exact ⟨rfl, rfl, rfl⟩

/-- A checkpoint that was verified. -/
structure CheckpointVerified (i : Input) (w w' : VerifyLedgerChainWork)
    (l : List LedgerHeaderHistoryEntry) (a z : LedgerHeaderHistoryEntry) : Prop where
  file : ∃ file, i.files w.mCurrCheckpoint = some file ∧ l = headersUpTo i.mRange.last file
  verified : Verified i l
  head : l.head? = some a
  getLast : l.getLast? = some z
  incoming : Incoming i w z
  checkpoint : w'.mCurrCheckpoint = w.mCurrCheckpoint
  ahead : w'.mVerifiedAhead = (a.header.ledgerSeq - 1, some a.header.previousLedgerHash)
  accepted : w'.accepted = l ++ w.accepted

theorem verifyHistoryOfSingleCheckpoint_ok (hlast : i.mRange.last ≠ 0)
    (hcurr : w.mCurrCheckpoint ≠ 0) (h : verifyHistoryOfSingleCheckpoint i w = .ok (.ok, w')) :
    ∃ l a z, CheckpointVerified i w w' l a z := by
  unfold verifyHistoryOfSingleCheckpoint at h
  cases hfile : i.files w.mCurrCheckpoint with
  | none =>
    rw [hfile] at h
    cases h
  | some file =>
    rw [hfile] at h
    obtain ⟨⟨status, l⟩, hread, h⟩ := bind_eq_ok.mp h
    dsimp only at h
    split_ifs at h with hstatus hend
    · exact absurd (congrArg Prod.fst (ok.inj h)) hstatus
    · cases h
    obtain rfl : status = .ok := not_not.mp hstatus
    obtain ⟨hl, hverified, -⟩ := readHeaders_ok file hread
    obtain ⟨link, hlink, h⟩ := bind_eq_ok.mp h
    obtain ⟨trusted, htrusted, h⟩ := bind_eq_ok.mp h
    split_ifs at h with hbad
    · obtain ⟨_, -, h⟩ := bind_eq_ok.mp h
      exact absurd (congrArg Prod.fst (ok.inj h)) hbad
    obtain rfl : trusted = .ok := not_not.mp hbad
    have hend' : (l.getLast?.getD .zero).header.ledgerSeq = w.mCurrCheckpoint ∨
        (l.getLast?.getD .zero).header.ledgerSeq = i.mRange.last := by
      simpa [Bool.and_eq_true, ← or_iff_not_imp_left] using hend
    -- an empty file would have ended with ledger zero
    cases l with
    | nil => exact absurd hend' (not_or.mpr ⟨hcurr.symm, hlast.symm⟩)
    | cons a l =>
      obtain rfl := congrArg Prod.snd (ok.inj h)
      obtain ⟨hcheckpoint, hahead, haccepted⟩ := noteVerified_eq (i := i)
        { w with
          accepted := a :: l ++ w.accepted
          mVerifiedAhead := (a.header.ledgerSeq - 1, some a.header.previousLedgerHash) }
        (a.header.ledgerSeq - 1, some a.header.previousLedgerHash)
        ((a :: l).getLast?.getD .zero)
      refine ⟨a :: l, a, (a :: l).getLast?.getD .zero, ⟨file, hfile, hl⟩, hverified, rfl, ?_, ?_,
        hcheckpoint, hahead, haccepted⟩
      · rfl
      · obtain hin | hin := incoming_of_ok hlink htrusted hend'
        · exact .top ‹_› ‹_› ‹_›
        · exact .below ‹_› ‹_›

/-! ## Checkpoints -/

theorem freq_cases (i : Input) : i.freq.toNat = 8 ∨ i.freq.toNat = 64 := by
  unfold Input.freq getCheckpointFrequency
  split_ifs
  · exact .inl rfl
  · exact .inr rfl

/-- The frequency divides the number of ledger numbers, so the last checkpoint does
not wrap. -/
theorem toNat_checkpointContaining (i : Input) (n : UInt32) :
    (i.checkpointContaining n).toNat
      = n.toNat / i.freq.toNat * i.freq.toNat + (i.freq.toNat - 1) := by
  have hlt := n.toNat_lt
  have hone : (1 : UInt32).toNat = 1 := rfl
  unfold Input.checkpointContaining checkpointContainingLedger
  rw [toNat_sub, UInt32.toNat_mul, toNat_add, UInt32.toNat_div]
  rcases freq_cases i with hfreq | hfreq <;> rw [hfreq] <;> omega

/-- The number of a checkpoint: the last ledger before a multiple of the frequency. -/
def IsCheckpoint (i : Input) (c : UInt32) : Prop := i.checkpointContaining c = c

variable {c : UInt32}

theorem isCheckpoint_iff : IsCheckpoint i c ↔ c.toNat % i.freq.toNat = i.freq.toNat - 1 := by
  rw [IsCheckpoint, ← toNat_inj, toNat_checkpointContaining]
  rcases freq_cases i with hfreq | hfreq <;> rw [hfreq] <;> omega

theorem isCheckpoint_checkpointContaining (i : Input) (n : UInt32) :
    IsCheckpoint i (i.checkpointContaining n) := by
  rw [isCheckpoint_iff, toNat_checkpointContaining]
  rcases freq_cases i with hfreq | hfreq <;> rw [hfreq] <;> omega

theorem le_checkpointContaining (i : Input) (n : UInt32) :
    n.toNat ≤ (i.checkpointContaining n).toNat := by
  rw [toNat_checkpointContaining]
  rcases freq_cases i with hfreq | hfreq <;> rw [hfreq] <;> omega

theorem checkpointContaining_mono (i : Input) {m n : UInt32} (h : m.toNat ≤ n.toNat) :
    (i.checkpointContaining m).toNat ≤ (i.checkpointContaining n).toNat := by
  rw [toNat_checkpointContaining, toNat_checkpointContaining]
  exact Nat.add_le_add_right (Nat.mul_le_mul_right _ (Nat.div_le_div_right h)) _

/-- The checkpoint before another one. -/
theorem previous_checkpoint {d : UInt32} (hc : IsCheckpoint i c) (hd : IsCheckpoint i d)
    (hlt : d.toNat < c.toNat) :
    IsCheckpoint i (c - i.freq) ∧ d.toNat ≤ (c - i.freq).toNat
      ∧ (c - i.freq).toNat + i.freq.toNat = c.toNat := by
  rw [isCheckpoint_iff] at hc hd ⊢
  have hbound := c.toNat_lt
  rw [toNat_sub]
  rcases freq_cases i with hfreq | hfreq <;> rw [hfreq] at hc hd ⊢ <;> omega

/-! ## Whole runs -/

/-- The headers that are read of the file of a checkpoint. -/
def headersAt (i : Input) (c : UInt32) : List LedgerHeaderHistoryEntry :=
  headersUpTo i.mRange.last ((i.files c).getD [])

/-- A nonempty range that does not reach the largest number, as `inclusive` builds it. -/
structure Proper (r : LedgerRange) : Prop where
  first_pos : 0 < r.mFirst.toNat
  first_le : r.mFirst.toNat ≤ r.last.toNat
  nonempty : r.mCount ≠ 0

/-- A number of the range. -/
def InRange (r : LedgerRange) (n : UInt32) : Prop :=
  r.mFirst.toNat ≤ n.toNat ∧ n.toNat ≤ r.last.toNat

/-- The upper end of what was accepted, once there is something. -/
inductive Hanging (i : Input) (w : VerifyLedgerChainWork) : Prop
  | fresh (haccepted : w.accepted = []) (hahead : w.mVerifiedAhead = (0, none))
  | chain (a z : LedgerHeaderHistoryEntry) (hhead : w.accepted.head? = some a)
      (hlast : w.accepted.getLast? = some z) (hseq : z.header.ledgerSeq = i.mRange.last)
      (htrusted : ∀ trusted ∈ i.mTrustedMaxLedger.2, z.hash = trusted)
      (hahead : w.mVerifiedAhead = (a.header.ledgerSeq - 1, some a.header.previousLedgerHash))

/-- The run so far: what was accepted is one verified chain below the trusted hash, and
consists of what the files from `c` on hold. -/
structure VerifiedFrom (i : Input) (w : VerifyLedgerChainWork) (c : Nat) : Prop where
  verified : Verified i w.accepted
  hanging : Hanging i w
  isCheckpoint : IsCheckpoint i w.mCurrCheckpoint
  le_last : w.mCurrCheckpoint.toNat ≤ (i.checkpointContaining i.mRange.last).toNat
  read : ∀ n, InRange i.mRange n → c ≤ (i.checkpointContaining n).toNat →
    ∀ e ∈ headersAt i (i.checkpointContaining n), e ∈ w.accepted
  of_accepted : ∀ e ∈ w.accepted, ∃ n, InRange i.mRange n ∧
    e ∈ headersAt i (i.checkpointContaining n)

theorem Hanging.step (h : Hanging i w) (hv : CheckpointVerified i w w' l a z) :
    Hanging i w' ∧ ∀ x ∈ l.getLast?, ∀ y ∈ w.accepted.head?, Link x y := by
  have hhead : w'.accepted.head? = some a := by
    rw [hv.accepted, head?_append, hv.head]
    rfl
  have hz : ∀ x ∈ l.getLast?, x = z := by
    intro x hx
    rw [hv.getLast] at hx
    exact (Option.some.inj hx).symm
  cases hv.incoming with
  | top hseq hfresh htrusted =>
    cases h with
    | fresh hnil _ =>
      refine ⟨.chain a z hhead ?_ hseq htrusted hv.ahead, fun x _ y hy => ?_⟩
      · rw [hv.accepted, hnil, append_nil, hv.getLast]
      · rw [hnil] at hy
        cases hy
    | chain a' z' _ _ _ _ hahead =>
      rw [hfresh] at hahead
      exact absurd (congrArg Prod.snd hahead) (by simp)
  | below hseq hahead =>
    cases h with
    | fresh _ hnone =>
      rw [hahead] at hnone
      exact absurd (congrArg Prod.snd hnone) (by simp)
    | chain a' z' hhead' hlast' hseq' htrusted' hahead' =>
      refine ⟨.chain a z' hhead ?_ hseq' htrusted' hv.ahead, fun x hx y hy => ?_⟩
      · rw [hv.accepted, getLast?_append, hlast']
        rfl
      · obtain rfl := hz x hx
        rw [hhead'] at hy
        cases hy
        rw [hahead] at hahead'
        obtain ⟨hnum, hhash⟩ := Prod.mk.inj hahead'
        refine ⟨?_, (Option.some.inj hhash).symm⟩
        rw [hnum, UInt32.sub_add_cancel]

theorem headersAt_eq (hv : CheckpointVerified i w w' l a z) :
    headersAt i w.mCurrCheckpoint = l := by
  obtain ⟨file, hfile, hl⟩ := hv.file
  rw [headersAt, hfile, hl]
  rfl

/-- A checkpoint between those of the ends of the range is that of a number in it. -/
theorem exists_inRange (hr : Proper i.mRange) (hc : IsCheckpoint i c)
    (hfirst : (i.checkpointContaining i.mRange.mFirst).toNat ≤ c.toNat)
    (hlast : c.toNat ≤ (i.checkpointContaining i.mRange.last).toNat) :
    ∃ n, InRange i.mRange n ∧ i.checkpointContaining n = c := by
  have hle := le_checkpointContaining i i.mRange.mFirst
  by_cases h : c.toNat ≤ i.mRange.last.toNat
  · exact ⟨c, ⟨by omega, h⟩, hc⟩
  · refine ⟨i.mRange.last, ⟨hr.first_le, le_rfl⟩, toNat_inj.mp ?_⟩
    have hmono := checkpointContaining_mono i (m := i.mRange.last) (n := c) (by omega)
    rw [hc] at hmono
    omega

theorem VerifiedFrom.step (hr : Proper i.mRange)
    (h : VerifiedFrom i w (w.mCurrCheckpoint.toNat + 1))
    (hfirst : (i.checkpointContaining i.mRange.mFirst).toNat ≤ w.mCurrCheckpoint.toNat)
    (hv : CheckpointVerified i w w' l a z) : VerifiedFrom i w' w.mCurrCheckpoint.toNat := by
  obtain ⟨hhanging, hlink⟩ := h.hanging.step hv
  refine ⟨?_, hhanging, ?_, ?_, fun n hn hle e he => ?_, fun e he => ?_⟩
  · rw [hv.accepted]
    exact hv.verified.append h.verified hlink
  · rw [hv.checkpoint]
    exact h.isCheckpoint
  · rw [hv.checkpoint]
    exact h.le_last
  · rw [hv.accepted]
    rcases Nat.eq_or_lt_of_le hle with heq | hlt
    · rw [← toNat_inj.mp heq, headersAt_eq hv] at he
      exact mem_append_left _ he
    · exact mem_append_right _ (h.read n hn hlt e he)
  · rw [hv.accepted] at he
    rcases mem_append.mp he with he | he
    · obtain ⟨n, hn, heq⟩ := exists_inRange hr h.isCheckpoint hfirst h.le_last
      exact ⟨n, hn, by rwa [heq, headersAt_eq hv]⟩
    · exact h.of_accepted e he

/-- The work after a checkpoint that was not the oldest goes on with the one before. -/
theorem VerifiedFrom.next (h : VerifiedFrom i w w.mCurrCheckpoint.toNat)
    (hfirst : (i.checkpointContaining i.mRange.mFirst).toNat < w.mCurrCheckpoint.toNat) :
    VerifiedFrom i { w with mCurrCheckpoint := w.mCurrCheckpoint - i.freq }
        ((w.mCurrCheckpoint - i.freq).toNat + 1)
      ∧ (i.checkpointContaining i.mRange.mFirst).toNat ≤ (w.mCurrCheckpoint - i.freq).toNat
      ∧ (w.mCurrCheckpoint - i.freq).toNat < w.mCurrCheckpoint.toNat := by
  obtain ⟨hcheckpoint, hle, hsum⟩ := previous_checkpoint h.isCheckpoint
    (isCheckpoint_checkpointContaining i i.mRange.mFirst) hfirst
  have hle_last := h.le_last
  have hlt : (w.mCurrCheckpoint - i.freq).toNat < w.mCurrCheckpoint.toNat := by
    rcases freq_cases i with hfreq | hfreq <;> omega
  refine ⟨⟨h.verified, ?_, hcheckpoint, ?_, fun n hn hn' => h.read n hn ?_, h.of_accepted⟩, hle,
    hlt⟩
  · cases h.hanging with
    | fresh haccepted hahead => exact .fresh haccepted hahead
    | chain a z hhead hlast hseq htrusted hahead =>
      exact .chain a z hhead hlast hseq htrusted hahead
  · dsimp only
    omega
  · -- between two checkpoints there is no third
    have hn'' := isCheckpoint_iff.mp (isCheckpoint_checkpointContaining i n)
    have hw := isCheckpoint_iff.mp h.isCheckpoint
    by_contra hlt
    rcases freq_cases i with hfreq | hfreq <;> rw [hfreq] at hn'' hw hsum <;> omega

theorem Proper.last_ne_zero {r : LedgerRange} (hr : Proper r) : r.last ≠ 0 := by
  intro hzero
  have hfirst := hr.first_pos
  have hle := hr.first_le
  rw [hzero] at hle
  exact absurd hle (Nat.not_le.mpr hfirst)

theorem IsCheckpoint.ne_zero (hc : IsCheckpoint i c) : c ≠ 0 := by
  rintro rfl
  have hmod := isCheckpoint_iff.mp hc
  rcases freq_cases i with hfreq | hfreq <;> rw [hfreq] at hmod <;> exact absurd hmod (by decide)

/-- The work before a turn. -/
structure Ongoing (i : Input) (w : VerifyLedgerChainWork) : Prop where
  verified : VerifiedFrom i w (w.mCurrCheckpoint.toNat + 1)
  first_le : (i.checkpointContaining i.mRange.mFirst).toNat ≤ w.mCurrCheckpoint.toNat

theorem Ongoing.not_undershot (h : Ongoing i w) :
    ¬w.mCurrCheckpoint < i.checkpointContaining i.mRange.mFirst := by
  rw [lt_iff_toNat_lt]
  exact Nat.not_lt.mpr h.first_le

/-- A turn that goes on has one checkpoint less before it, and one that succeeds has
read them all. -/
theorem Ongoing.turn (h : Ongoing i w) (hr : Proper i.mRange) {state : State}
    (hturn : onRun i w = .ok (state, w')) :
    (state = .workRunning → Ongoing i w' ∧ w'.mCurrCheckpoint.toNat < w.mCurrCheckpoint.toNat)
      ∧ (state = .workSuccess →
        VerifiedFrom i w' (i.checkpointContaining i.mRange.mFirst).toNat ∧ w'.accepted ≠ []) := by
  rw [onRun, if_neg hr.nonempty, if_neg h.not_undershot] at hturn
  split at hturn
  · cases hturn
    exact ⟨nofun, nofun⟩
  · cases hturn
  · rename_i w₂ hverify
    obtain ⟨l, a, z, hv⟩ := verifyHistoryOfSingleCheckpoint_ok hr.last_ne_zero
      h.verified.isCheckpoint.ne_zero hverify
    have hstep := h.verified.step hr h.first_le hv
    have hfirst := h.first_le
    rw [← hv.checkpoint] at hstep hfirst ⊢
    split_ifs at hturn with hdone
    · cases hturn
      refine ⟨nofun, fun _ => ⟨hdone ▸ hstep, ?_⟩⟩
      rw [hv.accepted]
      intro hnil
      have hhead := hv.head
      rw [(append_eq_nil_iff.mp hnil).1] at hhead
      cases hhead
    · cases hturn
      have hne : (i.checkpointContaining i.mRange.mFirst).toNat ≠ w₂.mCurrCheckpoint.toNat :=
        fun heq => hdone (toNat_inj.mp heq).symm
      obtain ⟨hnext, hfirst', hlt⟩ := hstep.next (by omega)
      exact ⟨fun _ => ⟨⟨hnext, hfirst'⟩, hlt⟩, nofun⟩
  · cases hturn
    exact ⟨nofun, nofun⟩

theorem run_verified (hr : Proper i.mRange) (turns : Nat) :
    ∀ {w w' : VerifyLedgerChainWork}, Ongoing i w → run i turns w = .ok (.workSuccess, w') →
      VerifiedFrom i w' (i.checkpointContaining i.mRange.mFirst).toNat ∧ w'.accepted ≠ [] := by
  induction turns with
  | zero =>
    intro w w' _ hrun
    cases hrun
  | succ turns ih =>
    intro w w' h hrun
    obtain ⟨⟨state, w₁⟩, hturn, hrest⟩ := bind_eq_ok.mp hrun
    obtain ⟨hgoes, hdone⟩ := h.turn hr hturn
    cases state with
    | workRunning => exact ih (hgoes rfl).1 hrest
    | workSuccess =>
      cases hrest
      exact hdone rfl
    | workFailure => cases hrest

theorem start_ongoing (hr : Proper i.mRange) : Ongoing i (start i) := by
  have hcurr : (start i).mCurrCheckpoint = i.checkpointContaining i.mRange.last := by
    rw [start, if_neg hr.nonempty]
  refine ⟨⟨.nil, .fresh rfl rfl, ?_, ?_, fun n hn hlt => ?_, nofun⟩, ?_⟩
  · rw [hcurr]
    exact isCheckpoint_checkpointContaining i _
  · rw [hcurr]
  · have hmono := checkpointContaining_mono i hn.2
    rw [hcurr] at hlt
    omega
  · rw [hcurr]
    exact checkpointContaining_mono i hr.first_le

/-! ## What success means -/

/-- What a verified range is taken for: every ledger of it has its header, the headers
hang together, the last one has the trusted hash, and the ledger after the last closed
one builds on it. -/
structure Sound (i : Input) (accepted : List LedgerHeaderHistoryEntry) : Prop where
  covers : ∀ n, InRange i.mRange n → ∃ e ∈ accepted, e.header.ledgerSeq = n
  linked : accepted.IsChain fun a b => b.header.previousLedgerHash = i.sha256 a.header
  trusted : ∃ z, accepted.getLast? = some z ∧ z.header.ledgerSeq = i.mRange.last ∧
    ∀ trusted ∈ i.mTrustedMaxLedger.2, i.sha256 z.header = trusted
  lastClosed : ∀ n, InRange i.mRange n → n.toNat = i.mLastClosed.1.toNat + 1 →
    (∃ e ∈ accepted, e.header.ledgerSeq = n) ∧ ∀ e ∈ accepted, e.header.ledgerSeq = n →
      e.header.previousLedgerHash = i.mLastClosed.2

/-- One of the files of the range has a header with the first number of the range,
before the one that ends the range. -/
def FirstHeaderPresent (i : Input) : Prop :=
  ∃ n, InRange i.mRange n ∧
    ∃ e ∈ headersAt i (i.checkpointContaining n), e.header.ledgerSeq = i.mRange.mFirst

/-- Success shows all that but one thing: the headers may begin after the first
ledger of the range. -/
theorem success_sound_iff (hr : Proper i.mRange) {turns : Nat} {w : VerifyLedgerChainWork}
    (h : run i turns (start i) = .ok (.workSuccess, w)) :
    Sound i w.accepted ↔ FirstHeaderPresent i := by
  obtain ⟨hw, hne⟩ := run_verified hr turns (start_ongoing hr) h
  constructor
  · intro hsound
    obtain ⟨e, he, hseq⟩ := hsound.covers _ ⟨le_rfl, hr.first_le⟩
    obtain ⟨n, hn, hen⟩ := hw.of_accepted e he
    exact ⟨n, hn, e, hen, hseq⟩
  · rintro ⟨n, hn, e, he, hseq⟩
    have hmem := hw.read n hn (checkpointContaining_mono i hn.1) e he
    cases hw.hanging with
    | fresh hnil _ => exact absurd hnil hne
    | chain a z hhead hlast hlastSeq htrusted _ =>
      have hcovers : ∀ n, InRange i.mRange n → ∃ e ∈ w.accepted, e.header.ledgerSeq = n := by
        intro n hn'
        obtain ⟨e', he', hseq'⟩ := counts_through hw.verified.chain hlast
          (n.toNat - i.mRange.mFirst.toNat) e hmem (by
            have hle := hn'.1
            have hle' := hn'.2
            rw [hseq, hlastSeq]
            omega)
        refine ⟨e', he', toNat_inj.mp ?_⟩
        have hle := hn'.1
        rw [hseq', hseq]
        omega
      refine ⟨hcovers, ?_, ⟨z, hlast, hlastSeq, fun trusted ht => ?_⟩, fun n hn' hlcl => ?_⟩
      · refine hw.verified.chain.imp_of_mem_imp fun a b ha _ hlink => ?_
        rw [hw.verified.hash a ha]
        exact hlink.hash
      · rw [hw.verified.hash z (mem_of_getLast? hlast)]
        exact htrusted trusted ht
      · refine ⟨hcovers n hn', fun e he hn => ?_⟩
        exact hw.verified.lastClosed e he (hn ▸ hlcl)

/-! ## When the work finishes -/

/-- The number that the last header of a file is due to have: the end of the range in
the first file that is read, the number below the file above in any other. -/
def IsDue (i : Input) (w : VerifyLedgerChainWork) (seq : UInt32) : Prop :=
  if w.mVerifiedAhead.2.isNone then seq = i.mRange.last
  else seq = w.mVerifiedAhead.1 ∧ seq ≠ i.mRange.last

/-- If the next file passes its own checks and ends with its checkpoint or with the
range, then it ends with the number that is due. -/
def Joins (i : Input) (w : VerifyLedgerChainWork) : Prop :=
  ∀ file l, i.files w.mCurrCheckpoint = some file → readHeaders i none file = .ok (.ok, l) →
    ∀ z ∈ l.getLast?, z.header.ledgerSeq = w.mCurrCheckpoint ∨ z.header.ledgerSeq = i.mRange.last →
      IsDue i w z.header.ledgerSeq

theorem readHeaders_returns {records : List HeaderRecord} (hdec : .malformed ∉ records) :
    ∀ prev, ∃ r, readHeaders i prev records = .ok r := by
  induction records with
  | nil => exact fun _ => ⟨_, rfl⟩
  | cons record records ih =>
    intro prev
    rw [mem_cons, not_or] at hdec
    cases record with
    | badMessageSize => exact ⟨_, rfl⟩
    | malformed => exact absurd rfl hdec.1
    | entry e =>
      obtain ⟨r, hr⟩ := ih hdec.2 (some e)
      unfold readHeaders
      refine exists_ok_unless fun _ => exists_ok_unless fun _ => ?_
      exact ⟨_, map_eq_ok.mpr ⟨r, hr, rfl⟩⟩

/-- The comparison with the link above goes through if the number is the one that is
due; any other violates an assertion. -/
theorem comparison_cases (htrusted : i.mTrustedMaxLedger.1 = i.mRange.last)
    (hahead : w.mVerifiedAhead = (0, none) ∨ w.mVerifiedAhead.2.isSome)
    (hz : z.header.ledgerSeq ≠ 0) :
    (IsDue i w z.header.ledgerSeq
        ∧ ∃ link, incomingLink i w z = .ok link ∧ z.header.ledgerSeq = link.1)
      ∨ ¬IsDue i w z.header.ledgerSeq ∧ ∃ what,
        (incomingLink i w z >>= verifyLastLedgerInCheckpoint z) = .error (.thrown what) := by
  rcases hahead with hnone | hsome
  · by_cases hlast : z.header.ledgerSeq = i.mRange.last
    · simp [IsDue, incomingLink, releaseAssert, hnone, hlast, htrusted]
    · simp [IsDue, incomingLink, releaseAssert, hnone, hlast]
  obtain ⟨hash, hhash⟩ := Option.isSome_iff_exists.mp hsome
  by_cases hlast : z.header.ledgerSeq = i.mRange.last
  · by_cases hzero : w.mVerifiedAhead.1 = 0 <;>
      simp [IsDue, incomingLink, releaseAssert, hhash, hlast, hzero]
  by_cases hzero : w.mVerifiedAhead.1 = 0
  · simp [IsDue, incomingLink, releaseAssert, hhash, hlast, hzero, hz]
  by_cases hdue : z.header.ledgerSeq = w.mVerifiedAhead.1
  · rw [hdue] at hlast
    simp [IsDue, incomingLink, releaseAssert, hhash, hlast, hzero, hdue]
  · simp [IsDue, incomingLink, releaseAssert, verifyLastLedgerInCheckpoint, hhash, hlast, hzero,
      hdue]

theorem verifyLastLedgerInCheckpoint_of_eq (hseq : z.header.ledgerSeq = link.1) :
    ∃ status, verifyLastLedgerInCheckpoint z link = .ok status
      ∧ (status ≠ .ok → link.2.isSome = true) := by
  unfold verifyLastLedgerInCheckpoint
  rw [if_neg (not_not.mpr hseq)]
  cases link.2 with
  | none => exact ⟨_, rfl, absurd rfl⟩
  | some hash => exact ⟨_, rfl, fun _ => rfl⟩

theorem verifyHistoryOfSingleCheckpoint_cases {file : List HeaderRecord}
    (hfile : i.files w.mCurrCheckpoint = some file) (hdec : .malformed ∉ file)
    (hlast : i.mRange.last ≠ 0) (hcurr : w.mCurrCheckpoint ≠ 0)
    (htrusted : i.mTrustedMaxLedger.1 = i.mRange.last)
    (hahead : w.mVerifiedAhead = (0, none) ∨ w.mVerifiedAhead.2.isSome) :
    (Joins i w ∧ ∃ r, verifyHistoryOfSingleCheckpoint i w = .ok r)
      ∨ ¬Joins i w ∧ ∃ what, verifyHistoryOfSingleCheckpoint i w = .error (.thrown what) := by
  obtain ⟨⟨status, l⟩, hread⟩ := readHeaders_returns (i := i) hdec none
  have hjoins : (∀ z ∈ l.getLast?, status = .ok → z.header.ledgerSeq = w.mCurrCheckpoint
      ∨ z.header.ledgerSeq = i.mRange.last → IsDue i w z.header.ledgerSeq) → Joins i w := by
    intro h file' l' hfile' hread' z hz
    obtain rfl := Option.mem_unique hfile hfile'
    obtain ⟨rfl, rfl⟩ := Prod.mk.inj (ok.inj (hread.symm.trans hread'))
    exact h z hz rfl
  unfold verifyHistoryOfSingleCheckpoint
  simp only [hfile, hread, bind, Except.bind]
  by_cases hstatus : status = .ok
  swap
  · exact .inl ⟨hjoins fun _ _ h => absurd h hstatus, by rw [if_pos hstatus]; exact ⟨_, rfl⟩⟩
  rw [if_neg (not_not.mpr hstatus)]
  by_cases hend : (l.getLast?.getD .zero).header.ledgerSeq = w.mCurrCheckpoint
      ∨ (l.getLast?.getD .zero).header.ledgerSeq = i.mRange.last
  swap
  · refine .inl ⟨hjoins fun z hz _ h => absurd h (by rwa [hz] at hend), ?_⟩
    rw [if_pos (by simpa using hend)]
    exact ⟨_, rfl⟩
  rw [if_neg (by simpa [← or_iff_not_imp_left] using hend)]
  have hz : (l.getLast?.getD .zero).header.ledgerSeq ≠ 0 := by
    rcases hend with h | h <;> rwa [h]
  rcases comparison_cases (w := { w with accepted := l ++ w.accepted }) htrusted hahead hz with
    ⟨hdue, link, hlink, hseq⟩ | ⟨hdue, what, hwhat⟩
  · refine .inl ⟨hjoins fun z hz _ _ => by rwa [hz] at hdue, ?_⟩
    obtain ⟨found, hfound, hsome⟩ := verifyLastLedgerInCheckpoint_of_eq hseq
    simp only [hlink, hfound]
    refine exists_ok_ite (fun hne => ?_) fun _ => ⟨_, rfl⟩
    rw [releaseAssert, if_pos (hsome hne)]
    exact ⟨_, rfl⟩
  · refine .inr ⟨fun h => hdue ?_, what, ?_⟩
    · cases hl : l.getLast? with
      | none =>
        rw [hl] at hz
        exact absurd rfl hz
      | some z =>
        rw [hl] at hend
        exact h file l hfile (hstatus ▸ hread) z hl hend
    · cases hlink : incomingLink i { w with accepted := l ++ w.accepted }
          (l.getLast?.getD .zero) with
      | error e =>
        rw [hlink] at hwhat
        obtain rfl := Except.error.inj hwhat
        rfl
      | ok link =>
        have hwhat : verifyLastLedgerInCheckpoint _ link = _ := hlink ▸ hwhat
        simp only [hwhat]

variable (hr : Proper i.mRange) (htrusted : i.mTrustedMaxLedger.1 = i.mRange.last)
  (hdec : ∀ c, ∀ file ∈ i.files c, .malformed ∉ file)
include hr htrusted hdec

theorem Ongoing.onRun_returns_iff (h : Ongoing i w) : (∃ r, onRun i w = .ok r) ↔ Joins i w := by
  rw [onRun, if_neg hr.nonempty, if_neg h.not_undershot]
  have hahead : w.mVerifiedAhead = (0, none) ∨ w.mVerifiedAhead.2.isSome := by
    cases h.verified.hanging with
    | fresh _ hahead => exact .inl hahead
    | chain _ _ _ _ _ _ hahead => exact .inr (by rw [hahead]; rfl)
  cases hfile : i.files w.mCurrCheckpoint with
  | none =>
    have hmissing : verifyHistoryOfSingleCheckpoint i w = .error .fileSystemException := by
      simp only [verifyHistoryOfSingleCheckpoint, hfile]
      rfl
    rw [hmissing]
    exact ⟨fun _ _ _ hsome => (nomatch hfile.symm.trans hsome), fun _ => ⟨_, rfl⟩⟩
  | some file =>
    rcases verifyHistoryOfSingleCheckpoint_cases hfile (hdec _ _ hfile) hr.last_ne_zero
      h.verified.isCheckpoint.ne_zero htrusted hahead with
      ⟨hjoins, ⟨status, w'⟩, hok⟩ | ⟨hjoins, what, herror⟩
    · rw [hok]
      refine ⟨fun _ => hjoins, fun _ => ?_⟩
      cases status with
      | ok => exact exists_ok_unless fun _ => ⟨_, rfl⟩
      | _ => exact ⟨_, rfl⟩
    · rw [herror]
      exact ⟨nofun, hjoins.elim⟩

/-- Each turn has one checkpoint less before it. -/
theorem Ongoing.finishes_iff (h : Ongoing i w) :
    (∃ n state w', run i n w = .ok (state, w') ∧ state ≠ .workRunning)
      ↔ ∀ n w', run i n w = .ok (.workRunning, w') → Joins i w' := by
  induction hk : w.mCurrCheckpoint.toNat using Nat.strong_induction_on generalizing w with
  | _ k ih =>
    subst hk
    have hreturns := h.onRun_returns_iff hr htrusted hdec
    have hzero : ¬∃ state w', run i 0 w = .ok (state, w') ∧ state ≠ .workRunning := by
      rintro ⟨_, _, ⟨⟩, hne⟩
      exact hne rfl
    have hnow : (∀ w', run i 0 w = .ok (.workRunning, w') → Joins i w') ↔ Joins i w := by
      refine ⟨fun h => h w rfl, ?_⟩
      rintro hjoins _ ⟨⟩
      exact hjoins
    rw [← Nat.or_exists_add_one, or_iff_right hzero, ← Nat.and_forall_add_one, hnow]
    cases hturn : onRun i w with
    | error e =>
      have hstop : ∀ n, run i (n + 1) w = .error e := fun n => by
        rw [run, hturn]
        rfl
      refine iff_of_false (by simp [hstop]) fun hall => ?_
      obtain ⟨r, hok⟩ := hreturns.mpr hall.1
      rw [hturn] at hok
      cases hok
    | ok r =>
      rw [and_iff_right (hreturns.mp ⟨r, hturn⟩)]
      obtain ⟨state, w₁⟩ := r
      by_cases hstate : state = .workRunning
      · subst hstate
        have hnext : ∀ n, run i (n + 1) w = run i n w₁ := fun n => by
          rw [run, hturn]
          rfl
        obtain ⟨hgoes, hlt⟩ := (h.turn hr hturn).1 rfl
        simp only [hnext]
        exact ih _ hlt hgoes rfl
      · have hdone : ∀ n, run i (n + 1) w = .ok (state, w₁) := fun n => by
          rw [run, hturn]
          cases state with
          | workRunning => exact absurd rfl hstate
          | _ => rfl
        simp only [hdone]
        refine iff_of_true ⟨0, state, w₁, rfl, hstate⟩ fun _ _ heq => ?_
        exact absurd (Prod.mk.inj (ok.inj heq)).1 hstate

/-- The work ends with success or failure, and no assertion fails, exactly if each file
that is reached joins on to the one above. -/
theorem finishes_iff_joins :
    (∃ n state w, run i n (start i) = .ok (state, w) ∧ state ≠ .workRunning)
      ↔ ∀ n w, run i n (start i) = .ok (.workRunning, w) → Joins i w :=
  (start_ongoing hr).finishes_iff hr htrusted hdec

end

/-- A header with a number and a link. -/
def headerAt (seq : UInt32) (prev : Hash) : LedgerHeader :=
  { LedgerHeaderHistoryEntry.zero.header with ledgerSeq := seq, previousLedgerHash := prev }

/-- A hash to evaluate with: the link and the number, one after the other. -/
def linkAndNumber (header : LedgerHeader) : Hash :=
  header.previousLedgerHash <<< 32 ||| header.ledgerSeq.toBitVec.setWidth 256

/-- The entry of a header in a history file. -/
def entryAt (seq : UInt32) (prev : Hash) : LedgerHeaderHistoryEntry :=
  ⟨linkAndNumber (headerAt seq prev), headerAt seq prev⟩

/-- Ledgers 63 and 64 after the last closed ledger 62, in two files. -/
def twoFiles : Input where
  sha256 := linkAndNumber
  LEDGER_PROTOCOL_VERSION := 20
  ARTIFICIALLY_ACCELERATE_TIME_FOR_TESTING := false
  files c := if c = 63 then some [.entry (entryAt 63 9)]
    else if c = 127 then some [.entry (entryAt 64 (entryAt 63 9).hash)]
    else none
  mRange := .inclusive 63 64 (by decide)
  mLastClosed := (62, 9)
  mTrustedMaxLedger := (64, some (entryAt 64 (entryAt 63 9).hash).hash)

theorem proper_twoFiles : Proper twoFiles.mRange := ⟨by decide, by decide, by decide⟩

theorem run_twoFiles : ∃ w, run twoFiles 2 (start twoFiles) = .ok (.workSuccess, w) :=
  ⟨⟨63, (62, some 9), some (62, some 9), entryAt 63 9,
    [(64, some (entryAt 64 (entryAt 63 9).hash).hash), (63, some (entryAt 63 9).hash)],
    [entryAt 63 9, entryAt 64 (entryAt 63 9).hash]⟩, by decide +kernel⟩

theorem two_files_sound : ∃ w, run twoFiles 2 (start twoFiles) = .ok (.workSuccess, w) ∧
    Sound twoFiles w.accepted := by
  have hpresent : FirstHeaderPresent twoFiles :=
    ⟨63, ⟨by decide, by decide⟩, entryAt 63 9, by decide, rfl⟩
  obtain ⟨w, hrun⟩ := run_twoFiles
  exact ⟨w, hrun, (success_sound_iff proper_twoFiles hrun).mpr hpresent⟩

theorem two_files_join : (∃ n state w, run twoFiles n (start twoFiles) = .ok (state, w)
      ∧ state ≠ .workRunning)
    ∧ ∀ n w, run twoFiles n (start twoFiles) = .ok (.workRunning, w) → Joins twoFiles w := by
  obtain ⟨w, hrun⟩ := run_twoFiles
  have hfinished : ∃ n state w, run twoFiles n (start twoFiles) = .ok (state, w)
      ∧ state ≠ .workRunning := ⟨2, .workSuccess, w, hrun, nofun⟩
  refine ⟨hfinished, (finishes_iff_joins proper_twoFiles rfl ?_).mp hfinished⟩
  intro c file hfile
  dsimp only [twoFiles] at hfile
  split_ifs at hfile
  · cases hfile
    simp
  · cases hfile
    simp
  · cases hfile

/-- Ledgers 64 to 127 after the last closed ledger 63, from an archive whose file has
only one header, that of ledger 127. -/
def truncatedFile : Input where
  sha256 := linkAndNumber
  LEDGER_PROTOCOL_VERSION := 20
  ARTIFICIALLY_ACCELERATE_TIME_FOR_TESTING := false
  files c := if c = 127 then some [.entry (entryAt 127 7)] else none
  mRange := .inclusive 64 127 (by decide)
  mLastClosed := (63, 9)
  mTrustedMaxLedger := (127, some (entryAt 127 7).hash)

theorem truncated_file_verified : ∃ w,
    run truncatedFile 1 (start truncatedFile) = .ok (.workSuccess, w) ∧
      w.accepted = [entryAt 127 7] ∧ ¬Sound truncatedFile w.accepted := by
  refine ⟨⟨127, (126, some 7), some (126, some 7), entryAt 127 7,
    [(127, some (entryAt 127 7).hash)], [entryAt 127 7]⟩, by decide +kernel, rfl, fun hsound => ?_⟩
  obtain ⟨e, he, hseq⟩ := hsound.covers 64 ⟨by decide, by decide⟩
  rw [mem_singleton] at he
  rw [he] at hseq
  exact absurd hseq (by decide)

/-- The same file where only the ledgers up to 100 are wanted. -/
def overrunFile : Input :=
  { truncatedFile with
    mRange := .inclusive 64 100 (by decide)
    mTrustedMaxLedger := (100, some 8) }

/-- Its first turn throws. -/
theorem overrun_file_aborts :
    run overrunFile 1 (start overrunFile) = .error (.thrown "incoming.second") := by
  decide +kernel

end KinesisCore.VerifyLedgerChainWork

import Mathlib.Data.Set.Card
import KinesisCore.Attempt
import KinesisCore.NestedRefinement
import KinesisCore.TransactionApply

/-!
# Sponsorship sandwiches

`BeginSponsoringFutureReserves` notes in an entry of the ledger that an account is being
sponsored, and in another how many an account sponsors; `EndSponsoringFutureReserves` takes
the note back. Both kinds of entries exist only in nested `LedgerTxn`s, and a transaction
that leaves one behind fails: `hasSponsorshipEntry` looks through what the `LedgerTxn` of
the transaction has recorded.

These operations exist from protocol 14 on; from then on an operation that fails is rolled
back.
-/

namespace KinesisCore.Nested

open Attempt TransactionResultCode Except Function List PlainStack Int64

variable {κ δ : Type}

/-! ## The operations -/

variable {sponsor : AccountID → Option AccountID}

inductive BeginSponsoringFutureReservesResultCode where
  | MALFORMED
  | ALREADY_SPONSORED
  | RECURSIVE
  deriving Repr, DecidableEq

inductive EndSponsoringFutureReservesResultCode where
  | NOT_SPONSORED
  deriving Repr, DecidableEq

section

variable [DecidableEq κ] [PriceOrder] (ltx : Stack κ δ)

/-- `create`, with the handle given back. -/
def Stack.createEntry (entry : InternalLedgerEntry κ δ) : Except String (Stack κ δ) := do
  let ltx ← ltx.step (.create entry)
  ltx.step (.deactivate entry.toKey)

/-- One more for the counter, which is made if there is none. -/
def Stack.incrementCounter (sourceID : AccountID) : Except String (Stack κ δ) := do
  match ← ltx.load (.sponsorshipCounter sourceID) with
  | (some (.sponsorshipCounter _ n), ltx) =>
    let ltx ← ltx.step (.modify (.sponsorshipCounter sourceID (n + 1)))
    ltx.step (.deactivate (.sponsorshipCounter sourceID))
  | (_, ltx) => ltx.createEntry (.sponsorshipCounter sourceID 1)

/-- `if (load(key)) return false` with a result code. -/
def Stack.refuseIfPresent {C : Type} (ltx : Stack κ δ) (key : InternalLedgerKey κ) (code : C) :
    Attempt C (Stack κ δ) := do
  let (entry, ltx) ← ltx.load key
  refuseIf entry.isSome code
  return ltx

/-- `doCheckValid` and `doApply`. -/
def beginSponsoring (sourceID sponsoredID : AccountID) (ltx : Stack κ δ) :
    Attempt BeginSponsoringFutureReservesResultCode (Stack κ δ) := do
  refuseIf (sponsoredID = sourceID) .MALFORMED
  let ltx ← ltx.refuseIfPresent (.sponsorship sponsoredID) .ALREADY_SPONSORED
  let ltx ← ltx.refuseIfPresent (.sponsorship sourceID) .RECURSIVE
  let ltx ← ltx.refuseIfPresent (.sponsorshipCounter sponsoredID) .RECURSIVE
  let ltx ← ltx.createEntry (.sponsorship sponsoredID sourceID)
  ltx.incrementCounter sourceID

/-- One less for the counter, which goes when it comes to zero. -/
def Stack.decrementCounter (sponsoringID : AccountID) : Except String (Stack κ δ) := do
  match ← ltx.load (.sponsorshipCounter sponsoringID) with
  | (some (.sponsorshipCounter _ n), ltx) =>
    if n = 0 then throw "bad sponsorship counter"
    let ltx ← ltx.step (.modify (.sponsorshipCounter sponsoringID (n - 1)))
    if n - 1 = 0 then ltx.step (.erase (.sponsorshipCounter sponsoringID))
    else ltx.step (.deactivate (.sponsorshipCounter sponsoringID))
  | _ => throw "no sponsorship counter"

def endSponsoring (sourceID : AccountID) (ltx : Stack κ δ) :
    Attempt EndSponsoringFutureReservesResultCode (Stack κ δ) := do
  match ← ltx.load (.sponsorship sourceID) with
  | (some (.sponsorship _ sponsoringID), ltx) =>
    let ltx ← ltx.decrementCounter sponsoringID
    ltx.step (.erase (.sponsorship sourceID))
  | _ => throw .NOT_SPONSORED

/-! ## The transaction -/

/-- An operation of a transaction. Any other kind is what it does to its `LedgerTxn`, and
whether it succeeds. -/
inductive TxOperation (κ δ : Type) where
  | beginSponsoring (sourceID sponsoredID : AccountID)
  | endSponsoring (sourceID : AccountID)
  | other (commands : List (Command κ δ)) (succeeds : Bool)

/-- Whether the operation succeeds, and its `LedgerTxn` then. -/
def TxOperation.apply (ltxOp : Stack κ δ) : TxOperation κ δ → Except String (Option (Stack κ δ))
  | .beginSponsoring sourceID sponsoredID =>
    return (← (Nested.beginSponsoring sourceID sponsoredID ltxOp).run).toOption
  | .endSponsoring sourceID => return (← (Nested.endSponsoring sourceID ltxOp).run).toOption
  | .other commands succeeds => do
    let ltxOp ← ltxOp.run commands
    return if succeeds then some ltxOp else none

/-- The loop body of `applyOperations`. -/
def applyOperation (st : Bool × Stack κ δ) (op : TxOperation κ δ) :
    Except String (Bool × Stack κ δ) := do
  let ltxOp ← st.2.step (.openChild true)
  match ← op.apply ltxOp with
  | some ltxOp => return (st.1, ← ltxOp.step .commit)
  | none => return (false, ← ltxOp.step .rollback)

def applyLoop (ops : List (TxOperation κ δ)) : Except String (Bool × Stack κ δ) := do
  let ltxTx ← ltx.step (.openChild true)
  ops.foldlM applyOperation (true, ltxTx)

omit [DecidableEq κ] [PriceOrder] in
/-- The scan of the entries that the innermost `LedgerTxn` has recorded. -/
def Stack.hasSponsorshipEntry : Bool :=
  match ltx.levels with
  | [] => false
  | lvl :: _ => lvl.mEntry.keys.any fun key => !key.isLedgerEntry

def applyOperations (ops : List (TxOperation κ δ)) :
    Except String (TransactionResultCode × Stack κ δ) := do
  let (success, ltxTx) ← applyLoop ltx ops
  if success then
    if ltxTx.hasSponsorshipEntry then return (txBAD_SPONSORSHIP, ← ltxTx.step .rollback)
    else return (txSUCCESS, ← ltxTx.step .commit)
  else return (txFAILED, ← ltxTx.step .rollback)

end

/-! ## The relation the entries stand for -/

/-- How many accounts `id` sponsors. -/
noncomputable def numSponsored (sponsor : AccountID → Option AccountID) (id : AccountID) : Nat :=
  {x | sponsor x = some id}.ncard

section

variable {sponsor : AccountID → Option AccountID} {x y : AccountID}

theorem numSponsored_update {o : Option AccountID} {z : AccountID} (hx : sponsor x ≠ some z)
    (ho : o ≠ some z) : numSponsored (update sponsor x o) z = numSponsored sponsor z := by
  unfold numSponsored
  congr 1
  ext w
  by_cases hw : w = x
  · simp [hw, hx, ho]
  · simp [hw]

theorem numSponsored_begin (hx : sponsor x = none) :
    numSponsored (update sponsor x (some y)) y = numSponsored sponsor y + 1 := by
  have hset : {w | update sponsor x (some y) w = some y}
      = insert x {w | sponsor w = some y} := by
    ext w
    by_cases hw : w = x
    · simp [hw]
    · simp [hw]
  rw [numSponsored, hset, Set.ncard_insert_of_notMem (by simp [hx])]
  rfl

theorem numSponsored_end (hx : sponsor x = some y) :
    numSponsored (update sponsor x none) y = numSponsored sponsor y - 1 := by
  have hset : {w | update sponsor x none w = some y}
      = {w | sponsor w = some y} \ {x} := by
    ext w
    by_cases hw : w = x
    · simp [hw]
    · simp [hw]
  rw [numSponsored, hset,
    Set.ncard_sdiff_singleton_of_mem (show x ∈ {w | sponsor w = some y} from hx)]
  rfl

theorem numSponsored_pos (hx : sponsor x = some y) : 0 < numSponsored sponsor y :=
  (Set.ncard_pos).mpr ⟨x, hx⟩

end

/-- The counter of an account that sponsors `n`. -/
def counterEntry (id : AccountID) (n : Nat) : Option (InternalLedgerEntry κ δ) :=
  if n = 0 then none else some (.sponsorshipCounter id (Int64.ofNat n))

/-- The entries of `m` note who sponsors whom, and no account is on both sides. -/
structure Notes (m : QueryResult κ δ) (sponsor : AccountID → Option AccountID) : Prop where
  sponsorship : ∀ x, m (.sponsorship x) = (sponsor x).map (.sponsorship x)
  counter : ∀ y, m (.sponsorshipCounter y) = counterEntry y (numSponsored sponsor y)
  apart : ∀ x y, sponsor x = some y → sponsor y = none

section

variable {m : QueryResult κ δ} (hnotes : Notes m sponsor)
include hnotes

theorem Notes.sponsorship_internal (z : AccountID) :
    ∀ e, m (.sponsorship z) = some e → e.toKey.isLedgerEntry = false := by
  intro e he
  rw [hnotes.sponsorship] at he
  obtain ⟨w, -, rfl⟩ := Option.map_eq_some_iff.mp he
  rfl

theorem Notes.sponsorship_none {z : AccountID} :
    m (.sponsorship z) = none ↔ sponsor z = none := by
  rw [hnotes.sponsorship, Option.map_eq_none_iff]

theorem Notes.counter_internal (z : AccountID) :
    ∀ e, m (.sponsorshipCounter z) = some e → e.toKey.isLedgerEntry = false := by
  intro e he
  rw [hnotes.counter, counterEntry] at he
  split at he
  · cases he
  · rw [← Option.some.inj he]
    rfl

theorem Notes.counter_none {z : AccountID} :
    m (.sponsorshipCounter z) = none ↔ numSponsored sponsor z = 0 := by
  rw [hnotes.counter, counterEntry]
  split <;> simp_all

theorem Notes.exists_iff :
    (∃ key, key.isLedgerEntry = false ∧ m key ≠ none) ↔ ¬∀ x, sponsor x = none := by
  push Not
  constructor
  · rintro ⟨key, hint, hsome⟩
    cases key with
    | ledgerKey key => cases hint
    | sponsorship x => exact ⟨x, fun hx => hsome (hnotes.sponsorship_none.mpr hx)⟩
    | sponsorshipCounter y =>
      have hpos : numSponsored sponsor y ≠ 0 := fun h => hsome (hnotes.counter_none.mpr h)
      obtain ⟨x, hx⟩ := Set.nonempty_of_ncard_ne_zero hpos
      exact ⟨x, by simp [show sponsor x = some y from hx]⟩
  · rintro ⟨x, hx⟩
    exact ⟨.sponsorship x, rfl, fun h => hx (hnotes.sponsorship_none.mp h)⟩

variable [DecidableEq κ] {x y : AccountID}

/-- The map after `y` starts to sponsor `x`. -/
def noteBegin (m : QueryResult κ δ) (x y : AccountID) (n : Nat) : QueryResult κ δ :=
  update (update m (.sponsorship x) (some (.sponsorship x y)))
    (.sponsorshipCounter y) (counterEntry y n)

/-- The map after the sponsorship of `x` by `y` ends. -/
def noteEnd (m : QueryResult κ δ) (x y : AccountID) (n : Nat) : QueryResult κ δ :=
  update (update m (.sponsorshipCounter y) (counterEntry y n)) (.sponsorship x) none

theorem Notes.begin (hx : sponsor x = none) (hy : sponsor y = none)
    (hfree : numSponsored sponsor x = 0) (hne : x ≠ y) :
    Notes (noteBegin m x y (numSponsored sponsor y + 1)) (update sponsor x (some y)) where
  sponsorship z := by
    by_cases hz : z = x
    · subst hz
      simp [noteBegin]
    · simp [noteBegin, hz, hnotes.sponsorship]
  counter z := by
    by_cases hz : z = y
    · subst hz
      simp [noteBegin, numSponsored_begin hx]
    · have hkeep : numSponsored (update sponsor x (some y)) z = numSponsored sponsor z :=
        numSponsored_update (by simp [hx]) (by simpa using Ne.symm hz)
      simp [noteBegin, hz, hkeep, hnotes.counter]
  apart z w hzw := by
    have hsponsors : ∀ v, sponsor v ≠ some x := fun v hv => by
      have := numSponsored_pos hv
      omega
    by_cases hz : z = x
    · subst hz
      obtain rfl : y = w := by simpa using hzw
      simpa [hne.symm] using hy
    · rw [update_of_ne hz] at hzw
      have hw : w ≠ x := fun h => hsponsors z (h ▸ hzw)
      rw [update_of_ne hw]
      exact hnotes.apart z w hzw

theorem Notes.finish (hx : sponsor x = some y) :
    Notes (noteEnd m x y (numSponsored sponsor y - 1)) (update sponsor x none) where
  sponsorship z := by
    by_cases hz : z = x
    · subst hz
      simp [noteEnd]
    · simp [noteEnd, hz, hnotes.sponsorship]
  counter z := by
    by_cases hz : z = y
    · subst hz
      simp [noteEnd, numSponsored_end hx]
    · have hkeep : numSponsored (update sponsor x none) z = numSponsored sponsor z :=
        numSponsored_update (by simpa [hx] using Ne.symm hz) (by simp)
      simp [noteEnd, hz, hkeep, hnotes.counter]
  apart z w hzw := by
    by_cases hz : z = x
    · subst hz
      simp at hzw
    · rw [update_of_ne hz] at hzw
      by_cases hw : w = x
      · subst hw
        simp
      · rw [update_of_ne hw]
        exact hnotes.apart z w hzw

end

/-! ## Commands on entries of the sponsorship machinery -/

theorem ofNat_succ_sub_one (n : Nat) : Int64.ofNat (n + 1) - 1 = Int64.ofNat n := by
  rw [ofNat_add]
  exact Int64.add_sub_cancel _ _

theorem ofNat_eq_zero {n : Nat} (hn : n < 2 ^ 63) : Int64.ofNat n = 0 ↔ n = 0 := by
  rw [← toInt_inj, toInt_ofNat_of_lt hn, toInt_zero]
  omega

theorem unstamped_inj {e e' : InternalLedgerEntry κ δ} (h : e'.unstamped = e)
    (he : e.toKey.isLedgerEntry = false) : e' = e := by
  subst h
  cases e' with
  | ledgerEntry le => cases he
  | sponsorship sponsoredID sponsoringID => rfl
  | sponsorshipCounter sponsoringID n => rfl

section

variable [DecidableEq κ] [PriceOrder] {s s' : Stack κ δ} {a a' : PlainStack κ δ}
  {cmd : Command κ δ} {root m : QueryResult κ δ} {act : List (InternalLedgerKey κ)}
  {q : List (PlainLevel κ δ)} {key : InternalLedgerKey κ} {e : InternalLedgerEntry κ δ}

theorem Stack.Shows.step_ok (h : s.Shows a) (hstep : a.step cmd = .ok a') :
    ∃ s', s.step cmd = .ok s' ∧ s'.Shows a' := by
  have hrel := h.step cmd
  rw [hstep] at hrel
  exact hrel.of_ok

theorem Stack.Shows.of_step (h : s.Shows a) (hs' : s.step cmd = .ok s')
    (hstep : a.step cmd = .ok a') : s'.Shows a' := by
  obtain ⟨s₁, hs₁, h₁⟩ := h.step_ok hstep
  obtain rfl := ok.inj (hs'.symm.trans hs₁)
  exact h₁

theorem Stack.Shows.run_ok (h : s.Shows a) {cmds : List (Command κ δ)}
    (hrun : s.run cmds = .ok s') : ∃ a', a.run cmds = .ok a' ∧ s'.Shows a' := by
  have hrel := h.run cmds
  rw [hrun] at hrel
  generalize a.run cmds = y at hrel
  cases hrel with
  | ok h => exact ⟨_, rfl, h⟩

section

variable (h : s.Shows ⟨root, ⟨m, act⟩ :: q⟩)
include h

theorem Stack.Shows.load_none (hact : key ∉ act) (hm : m key = none) :
    ∃ s', s.load key = .ok (none, s') ∧ s'.Shows ⟨root, ⟨m, act⟩ :: q⟩ := by
  have hrel := h.load key
  simp only [PlainStack.load, PlainLevel.load, if_neg hact, hm] at hrel
  obtain ⟨⟨r, s'⟩, hload, hr, hs'⟩ := hrel.of_ok
  obtain rfl : r = none := Option.map_eq_none_iff.mp hr
  exact ⟨s', hload, hs'⟩

theorem Stack.Shows.load_some (hact : key ∉ act)
    (hm : m key = some e) (he : e.toKey.isLedgerEntry = false) :
    ∃ s', s.load key = .ok (some e, s') ∧ s'.Shows ⟨root, ⟨m, act.insert key⟩ :: q⟩ := by
  have hrel := h.load key
  simp only [PlainStack.load, PlainLevel.load, if_neg hact, hm] at hrel
  obtain ⟨⟨r, s'⟩, hload, hr, hs'⟩ := hrel.of_ok
  obtain ⟨e', rfl, he'⟩ := Option.map_eq_some_iff.mp hr
  rw [unstamped_inj he' he] at hload
  exact ⟨s', hload, hs'⟩

omit h in
omit [DecidableEq κ] [PriceOrder] in
theorem PlainStack.onLevel_ok {p p' : PlainLevel κ δ}
    {f : PlainLevel κ δ → Except String (PlainLevel κ δ)} (hf : f p = .ok p') :
    PlainStack.onLevel ⟨root, p :: q⟩ f = .ok ⟨root, p' :: q⟩ := by
  simp only [PlainStack.onLevel, hf]
  rfl

theorem Stack.Shows.modify (hact : e.toKey ∈ act) : ∃ s', s.step (.modify e) = .ok s'
      ∧ s'.Shows ⟨root, ⟨update m e.toKey (some e.unstamped), act⟩ :: q⟩ :=
  h.step_ok (onLevel_ok (f := (·.modify e)) (if_pos hact))

omit h in
theorem Stack.Shows.deactivate (h : s.Shows ⟨root, ⟨m, key :: act⟩ :: q⟩) (hact : key ∉ act) :
    ∃ s', s.step (.deactivate key) = .ok s' ∧ s'.Shows ⟨root, ⟨m, act⟩ :: q⟩ := by
  have hrest : (key :: act).filter (· ≠ key) = act := by
    rw [filter_cons_of_neg (by simp), filter_eq_self]
    exact fun k hk => decide_eq_true fun heq => hact (heq ▸ hk)
  refine h.step_ok (onLevel_ok (f := (·.deactivate key)) ?_)
  rw [PlainLevel.deactivate, if_pos mem_cons_self, hrest]
  rfl

theorem Stack.Shows.erase (hm : (m key).isSome) : ∃ s', s.step (.erase key) = .ok s'
      ∧ s'.Shows ⟨root, ⟨update m key none, act.filter (· ≠ key)⟩ :: q⟩ :=
  h.step_ok (onLevel_ok (f := (·.erase key)) (if_pos hm))

end

section

variable (h : s.Shows ⟨root, ⟨m, []⟩ :: q⟩)
include h

theorem Stack.Shows.createEntry (hm : m e.toKey = none) : ∃ s', s.createEntry e = .ok s'
      ∧ s'.Shows ⟨root, ⟨update m e.toKey (some e.unstamped), []⟩ :: q⟩ := by
  obtain ⟨s₁, hs₁, h₁⟩ := h.step_ok (show PlainStack.step _ (.create e) = .ok _ from
    onLevel_ok (f := (·.create e)) (if_neg (by simp [hm])))
  obtain ⟨s₂, hs₂, h₂⟩ := h₁.deactivate not_mem_nil
  refine ⟨s₂, ?_, h₂⟩
  rw [Stack.createEntry, hs₁]
  exact hs₂

/-! ## One more and one less -/

variable {x y : AccountID} {n : Nat}

theorem Stack.Shows.incrementCounter (hm : m (.sponsorshipCounter y) = counterEntry y n) :
    ∃ s', s.incrementCounter y = .ok s' ∧ s'.Shows
      ⟨root, ⟨update m (.sponsorshipCounter y) (counterEntry y (n + 1)), []⟩ :: q⟩ := by
  unfold Stack.incrementCounter
  rcases Nat.eq_zero_or_pos n with rfl | hn
  · obtain ⟨s₁, hs₁, h₁⟩ := h.load_none (not_mem_nil) (hm.trans (if_pos rfl))
    obtain ⟨s₂, hs₂, h₂⟩ := h₁.createEntry (e := .sponsorshipCounter y 1) (hm.trans (if_pos rfl))
    refine ⟨s₂, ?_, h₂⟩
    rw [hs₁]
    exact hs₂
  · rw [counterEntry, if_neg hn.ne'] at hm
    obtain ⟨s₁, hs₁, h₁⟩ := h.load_some (not_mem_nil) hm rfl
    obtain ⟨s₂, hs₂, h₂⟩ := h₁.modify (e := .sponsorshipCounter y (Int64.ofNat n + 1))
      mem_insert_self
    obtain ⟨s₃, hs₃, h₃⟩ := h₂.deactivate not_mem_nil
    rw [counterEntry, ofNat_add]
    refine ⟨s₃, ?_, h₃⟩
    rw [hs₁]
    dsimp only [ok_bind]
    rw [hs₂]
    exact hs₃

omit h in
theorem Stack.Shows.decrementCounter (h : s.Shows ⟨root, ⟨m, [.sponsorship x]⟩ :: q⟩)
    (hm : m (.sponsorshipCounter y) = counterEntry y (n + 1)) (hn : n + 1 < 2 ^ 63) :
    ∃ s', s.decrementCounter y = .ok s' ∧ s'.Shows
      ⟨root, ⟨update m (.sponsorshipCounter y) (counterEntry y n), [.sponsorship x]⟩ :: q⟩ := by
  obtain ⟨s₁, hs₁, h₁⟩ := h.load_some (by simp) hm rfl
  have hzero : ¬Int64.ofNat (n + 1) = 0 := by
    rw [ofNat_eq_zero hn]
    omega
  obtain ⟨s₂, hs₂, h₂⟩ := h₁.modify (e := .sponsorshipCounter y (Int64.ofNat n))
    mem_insert_self
  simp only [Stack.decrementCounter, hs₁, if_neg hzero, ofNat_succ_sub_one, hs₂,
    ofNat_eq_zero (show n < 2 ^ 63 by omega), ok_bind]
  by_cases h0 : n = 0
  · obtain ⟨s₃, hs₃, h₃⟩ := h₂.erase (show (update m (.sponsorshipCounter y)
      (some _) (.sponsorshipCounter y)).isSome by simp)
    refine ⟨s₃, by rwa [if_pos h0], ?_⟩
    simpa [counterEntry, h0, InternalLedgerEntry.toKey] using h₃
  · obtain ⟨s₃, hs₃, h₃⟩ := h₂.deactivate (by simp)
    refine ⟨s₃, by rwa [if_neg h0], ?_⟩
    rwa [counterEntry, if_neg h0]

/-- A `LedgerTxn` over `q` with no entry in use, whose entries note who sponsors whom. -/
def Stack.Records (s : Stack κ δ) (root : QueryResult κ δ) (q : List (PlainLevel κ δ))
    (sponsor : AccountID → Option AccountID) : Prop :=
  ∃ m, s.Shows ⟨root, ⟨m, []⟩ :: q⟩ ∧ Notes m sponsor

theorem Stack.Shows.meets_absent {C α : Type} {code : C} {f : Stack κ δ → Attempt C α}
    {Q : Except C α → Prop}
    (hm : ∀ e, m key = some e → e.toKey.isLedgerEntry = false) (hfail : Q (.error code))
    (hgo : m key = none → ∀ s', s'.Shows ⟨root, ⟨m, []⟩ :: q⟩ → (f s').Meets Q) :
    (s.refuseIfPresent key code >>= f).Meets Q := by
  unfold Stack.refuseIfPresent
  cases hkey : m key with
  | some e =>
    obtain ⟨s₁, hs₁, -⟩ := h.load_some (not_mem_nil) hkey (hm e hkey)
    rw [hs₁]
    exact ⟨_, rfl, hfail⟩
  | none =>
    obtain ⟨s₁, hs₁, h₁⟩ := h.load_none (not_mem_nil) hkey
    rw [hs₁]
    exact hgo hkey s₁ h₁

end

/-- Beginning never throws; where it succeeds, the relation has one pair more. -/
theorem beginSponsoring_meets (h : s.Records root q sponsor) :
    (beginSponsoring y x s).Meets fun r => ∀ s', r = .ok s' →
      sponsor x = none ∧ s'.Records root q (update sponsor x (some y)) := by
  obtain ⟨m, h, hnotes⟩ := h
  refine meets_refuseIf_bind (nofun) fun hne => ?_
  refine h.meets_absent (hnotes.sponsorship_internal x) ?_ fun hx s₁ h₁ => ?_
  · exact nofun
  refine h₁.meets_absent (hnotes.sponsorship_internal y) ?_ fun hy s₂ h₂ => ?_
  · exact nofun
  refine h₂.meets_absent (hnotes.counter_internal x) ?_ fun hfree s₃ h₃ => ?_
  · exact nofun
  obtain ⟨s₄, hs₄, h₄⟩ := h₃.createEntry (e := .sponsorship x y) hx
  obtain ⟨s₅, hs₅, h₅⟩ := h₄.incrementCounter (y := y) (n := numSponsored sponsor y)
    (by simp [InternalLedgerEntry.toKey, hnotes.counter])
  refine meets_lift_bind hs₄ (meets_lift hs₅ ?_)
  rintro _ ⟨rfl⟩
  rw [hnotes.sponsorship_none] at hx hy
  rw [hnotes.counter_none] at hfree
  exact ⟨hx, _, h₅, hnotes.begin hx hy hfree hne⟩

/-- Ending never throws; where it succeeds, the relation has lost a pair. -/
theorem endSponsoring_meets (h : s.Records root q sponsor)
    (hfew : ∀ y, numSponsored sponsor y < 2 ^ 63) :
    (endSponsoring x s).Meets fun r => ∀ s', r = .ok s' →
      sponsor x ≠ none ∧ s'.Records root q (update sponsor x none) := by
  obtain ⟨m, h, hnotes⟩ := h
  cases hx : sponsor x with
  | none =>
    obtain ⟨s₁, hs₁, -⟩ := h.load_none (not_mem_nil) (hnotes.sponsorship_none.mpr hx)
    exact meets_lift_bind hs₁ ⟨_, rfl, nofun⟩
  | some y =>
    have hm : m (.sponsorship x) = some (.sponsorship x y) := by
      rw [hnotes.sponsorship, hx]
      rfl
    obtain ⟨n, hn⟩ : ∃ n, numSponsored sponsor y = n + 1 :=
      Nat.exists_eq_succ_of_ne_zero (numSponsored_pos hx).ne'
    obtain ⟨s₁, hs₁, h₁⟩ := h.load_some (not_mem_nil) hm rfl
    obtain ⟨s₂, hs₂, h₂⟩ := Stack.Shows.decrementCounter (y := y) (n := n) h₁
      (by rw [hnotes.counter, hn]) (by rw [← hn]; exact hfew y)
    obtain ⟨s₃, hs₃, h₃⟩ := h₂.erase (show (update m (.sponsorshipCounter y)
      (counterEntry y n) (.sponsorship x)).isSome by simp [hm])
    refine meets_lift_bind hs₁ (meets_lift_bind hs₂ (meets_lift hs₃ ?_))
    rintro _ ⟨rfl⟩
    have hafter := hnotes.finish hx
    rw [hn] at hafter
    refine ⟨by simp, _, ?_, hafter⟩
    simpa [noteEnd] using h₃

end

/-! ## Other operations -/

/-- The command does not write an entry of the sponsorship machinery. -/
def Command.Harmless : Command κ δ → Prop
  | .create entry => entry.toKey.isLedgerEntry = true
  | .modify entry => entry.toKey.isLedgerEntry = true
  | .erase key => key.isLedgerEntry = true
  | _ => True

/-- Harmless commands, after which the `depth` children that are open and those opened on the
way are closed. -/
def Ordinary : Nat → List (Command κ δ) → Prop
  | depth, [] => depth = 0
  | depth, cmd :: cmds => cmd.Harmless ∧
    match cmd with
    | .openChild _ => Ordinary (depth + 1) cmds
    | .commit => depth ≠ 0 ∧ Ordinary (depth - 1) cmds
    | .rollback => depth ≠ 0 ∧ Ordinary (depth - 1) cmds
    | _ => Ordinary depth cmds

def TxOperation.Ordinary : TxOperation κ δ → Prop
  | .other commands _ => Nested.Ordinary 0 commands
  | _ => True

def SameNotes (m m' : QueryResult κ δ) : Prop := ∀ key, key.isLedgerEntry = false → m' key = m key

theorem SameNotes.notes {m m' : QueryResult κ δ} (h : SameNotes m m') (hnotes : Notes m sponsor) :
    Notes m' sponsor where
  sponsorship x := (h _ rfl).trans (hnotes.sponsorship x)
  counter y := (h _ rfl).trans (hnotes.counter y)
  apart := hnotes.apart

section

variable [DecidableEq κ] {root m : QueryResult κ δ} {q : List (PlainLevel κ δ)}

theorem SameNotes.update {p : QueryResult κ δ} (h : SameNotes m p) {key : InternalLedgerKey κ}
    (hkey : key.isLedgerEntry = true) (o : Option (InternalLedgerEntry κ δ)) :
    SameNotes m (update p key o) := by
  intro k hk
  rw [update_of_ne (by rintro rfl; rw [hkey] at hk; cases hk)]
  exact h k hk

/-- What a harmless command makes of the innermost copy. -/
theorem sameNotes_level {p p' : PlainLevel κ δ} (h : SameNotes m p.map) :
    (∀ e, e.toKey.isLedgerEntry = true → p.create e = .ok p' ∨ p.modify e = .ok p' →
      SameNotes m p'.map)
    ∧ (∀ key, key.isLedgerEntry = true → p.erase key = .ok p' → SameNotes m p'.map)
    ∧ (∀ key o, p.load key = .ok (o, p') ∨ p.deactivate key = .ok p' → SameNotes m p'.map) := by
  refine ⟨?_, ?_, ?_⟩
  · rintro e he (hp | hp) <;>
    · simp only [PlainLevel.create, PlainLevel.modify] at hp
      split at hp
      all_goals first | cases hp; exact h.update he _ | cases hp
  · intro key hkey hp
    simp only [PlainLevel.erase] at hp
    split at hp
    · cases hp
      exact h.update hkey _
    · cases hp
  · rintro key o (hp | hp) <;>
    · simp only [PlainLevel.load, PlainLevel.deactivate] at hp
      repeat' split at hp
      all_goals first | cases hp; exact h | cases hp

/-- By induction on the commands, over the copies `P` the operation works in. -/
theorem run_ordinary (cmds : List (Command κ δ)) :
    ∀ {P : List (PlainLevel κ δ)} {depth : Nat} {a' : PlainStack κ δ}, P.length = depth + 1 →
      (∀ p ∈ P, SameNotes m p.map) → Ordinary depth cmds →
      PlainStack.run ⟨root, P ++ q⟩ cmds = .ok a' →
      ∃ p', a' = ⟨root, p' :: q⟩ ∧ SameNotes m p'.map := by
  induction cmds with
  | nil =>
    intro P depth a' hlen hP hord hrun
    obtain rfl : depth = 0 := hord
    obtain ⟨p, rfl⟩ := length_eq_one_iff.mp hlen
    cases hrun
    exact ⟨p, rfl, hP p (mem_singleton_self p)⟩
  | cons cmd cmds ih =>
    intro P depth a' hlen hP hord hrun
    obtain ⟨p, P, rfl⟩ := exists_cons_of_length_eq_add_one hlen
    obtain ⟨hp, hP'⟩ := forall_mem_cons.mp hP
    obtain ⟨hharmless, hord⟩ := hord
    obtain ⟨a₁, hstep, hrun⟩ := bind_eq_ok.mp hrun
    have hlocal := fun p' => @sameNotes_level κ δ _ m p p' hp
    -- a command on the innermost copy leaves the others as they are
    have hgo : ∀ p', SameNotes m p'.map → a₁ = ⟨root, p' :: P ++ q⟩ → Ordinary depth cmds →
        ∃ p', a' = ⟨root, p' :: q⟩ ∧ SameNotes m p'.map := by
      rintro p' hp' rfl hord
      exact ih (P := p' :: P) hlen (forall_mem_cons.mpr ⟨hp', hP'⟩) hord hrun
    cases cmd with
    | openChild shouldUpdateLastModified =>
      exact ih (P := ⟨p.map, []⟩ :: { p with active := [] } :: P) (by simpa using hlen)
        (by simpa [hp] using hP') hord hrun
    | setLedgerSeq seq =>
      cases hstep
      exact hgo p hp rfl hord
    | create entry =>
      obtain ⟨p', hp', heq⟩ := bind_eq_ok.mp hstep
      exact hgo p' ((hlocal p').1 entry hharmless (.inl hp')) (ok.inj heq).symm hord
    | load key =>
      obtain ⟨⟨o, a₂⟩, hload, heq⟩ := bind_eq_ok.mp hstep
      obtain ⟨⟨o', p'⟩, hp', heq'⟩ := bind_eq_ok.mp hload
      obtain ⟨-, rfl⟩ := Prod.mk.inj (ok.inj heq')
      exact hgo p' ((hlocal p').2.2 key o' (.inl hp')) (ok.inj heq).symm hord
    | modify entry =>
      obtain ⟨p', hp', heq⟩ := bind_eq_ok.mp hstep
      exact hgo p' ((hlocal p').1 entry hharmless (.inr hp')) (ok.inj heq).symm hord
    | deactivate key =>
      obtain ⟨p', hp', heq⟩ := bind_eq_ok.mp hstep
      exact hgo p' ((hlocal p').2.2 key none (.inr hp')) (ok.inj heq).symm hord
    | erase key =>
      obtain ⟨p', hp', heq⟩ := bind_eq_ok.mp hstep
      exact hgo p' ((hlocal p').2.1 key hharmless hp') (ok.inj heq).symm hord
    | commit =>
      obtain ⟨hdepth, hord⟩ := hord
      obtain ⟨d, rfl⟩ := Nat.exists_eq_succ_of_ne_zero hdepth
      obtain ⟨p₁, P, rfl⟩ := exists_cons_of_length_eq_add_one (Nat.succ.inj hlen)
      exact ih (P := { p₁ with map := p.map } :: P) (Nat.succ.inj hlen)
        (forall_mem_cons.mpr ⟨hp, (forall_mem_cons.mp hP').2⟩) hord hrun
    | rollback =>
      obtain ⟨hdepth, hord⟩ := hord
      obtain ⟨d, rfl⟩ := Nat.exists_eq_succ_of_ne_zero hdepth
      exact ih (Nat.succ.inj hlen) hP' hord hrun

end

/-! ## The scan -/

theorem PlainStack.openChild_eq (a : PlainStack κ δ) :
    ∃ q, a.openChild = ⟨a.root, ⟨a.current, []⟩ :: q⟩
      ∧ (⟨a.root, q⟩ : PlainStack κ δ).current = a.current := by
  obtain ⟨root, levels⟩ := a
  cases levels with
  | nil => exact ⟨[], rfl, rfl⟩
  | cons p rest => exact ⟨_, rfl, rfl⟩

/-- No entry of the sponsorship machinery is there. -/
def PlainStack.NoSponsorships (a : PlainStack κ δ) : Prop :=
  ∀ key : InternalLedgerKey κ, key.isLedgerEntry = false → a.current key = none

theorem PlainStack.NoSponsorships.commit {root m : QueryResult κ δ} {q : List (PlainLevel κ δ)}
    (h : (⟨root, ⟨m, []⟩ :: q⟩ : PlainStack κ δ).NoSponsorships) :
    ∃ a, (⟨root, ⟨m, []⟩ :: q⟩ : PlainStack κ δ).commit = .ok a ∧ a.NoSponsorships := by
  cases q with
  | nil => exact ⟨_, rfl, fun key hint => by simp [current, hint]⟩
  | cons p rest => exact ⟨_, rfl, h⟩

section

variable [DecidableEq κ] {s : Stack κ δ} {root m : QueryResult κ δ} {q : List (PlainLevel κ δ)}

/-- No entry of the sponsorship machinery is seen. -/
def Stack.NoSponsorships (s : Stack κ δ) : Prop :=
  ∀ key : InternalLedgerKey κ, key.isLedgerEntry = false → s.getNewestVersion key = none

theorem Stack.Shows.noSponsorships_iff {a : PlainStack κ δ} (h : s.Shows a) :
    s.NoSponsorships ↔ a.NoSponsorships := by
  refine forall_congr' fun key => forall_congr' fun _ => ?_
  rw [← h.current, Option.map_eq_none_iff]

/-- Nothing is seen underneath, so what is recorded is new, and there. -/
theorem Stack.Shows.hasSponsorshipEntry_iff {p : PlainLevel κ δ} (h : s.Shows ⟨root, p :: q⟩)
    (hq : (⟨root, q⟩ : PlainStack κ δ).NoSponsorships) :
    s.hasSponsorshipEntry = true ↔ ∃ key, key.isLedgerEntry = false ∧ p.map key ≠ none := by
  obtain ⟨sroot, levels⟩ := s
  match levels, h.levels with
  | lvl :: rest, ⟨hlvl, _, hrest⟩ =>
    have hunder : (⟨sroot, rest⟩ : Stack κ δ).Shows ⟨root, q⟩ := ⟨h.root, hrest⟩
    have hbelow := hunder.noSponsorships_iff.mpr hq
    have hkey : ∀ key : InternalLedgerKey κ, key.isLedgerEntry = false →
        (key ∈ lvl.mEntry.keys ↔ p.map key ≠ none) := by
      intro key hint
      have hnone : newestVersion sroot rest key = none := hbelow key hint
      have hfits := hlvl.fits key
      rw [hlvl.map, ← AList.mem_keys, ← AList.lookup_isSome, hnone]
      rw [hnone] at hfits
      cases hlook : lvl.mEntry.lookup key with
      | none => simp [overlaid]
      | some lePtr =>
        cases lePtr with
        | init e => simp [overlaid, LedgerEntryPtr.get]
        | live e | deleted => simpa using hfits _ hlook
    simp only [Stack.hasSponsorshipEntry, any_eq_true, Bool.not_eq_true']
    constructor
    · rintro ⟨key, hmem, hint⟩
      exact ⟨key, hint, (hkey key hint).mp hmem⟩
    · rintro ⟨key, hint, hsome⟩
      exact ⟨key, (hkey key hint).mpr hsome, hint⟩

/-- What is seen in the `LedgerTxn` of a transaction: who sponsors whom, how many each
account sponsors, and no account on both sides. -/
structure Stack.Sandwich (s : Stack κ δ) (sponsor : AccountID → Option AccountID) : Prop where
  sponsorship : ∀ x, s.getNewestVersion (.sponsorship x) = (sponsor x).map (.sponsorship x)
  counter : ∀ y, s.getNewestVersion (.sponsorshipCounter y)
    = if numSponsored sponsor y = 0 then none
      else some (.sponsorshipCounter y (Int64.ofNat (numSponsored sponsor y)))
  apart : ∀ x y, sponsor x = some y → sponsor y = none

theorem Stack.Records.sandwich (h : s.Records root q sponsor) : s.Sandwich sponsor := by
  obtain ⟨m, h, hnotes⟩ := h
  have hsame : ∀ key, (∀ e, m key = some e → e.toKey.isLedgerEntry = false) →
      s.getNewestVersion key = m key := by
    intro key hint
    have hcur : (s.getNewestVersion key).map (·.unstamped) = m key := h.current key
    cases hnew : s.getNewestVersion key with
    | none => rw [hnew] at hcur; exact hcur
    | some e =>
      rw [hnew, Option.map_some] at hcur
      rw [← hcur, ← unstamped_inj rfl (hint _ hcur.symm)]
  exact ⟨fun x => (hsame _ (hnotes.sponsorship_internal x)).trans (hnotes.sponsorship x),
    fun y => (hsame _ (hnotes.counter_internal y)).trans (hnotes.counter y), hnotes.apart⟩

end

/-! ## The loop over the operations -/

/-- What a successful operation makes of the relation. -/
def TxOperation.effect (sponsor : AccountID → Option AccountID) :
    TxOperation κ δ → AccountID → Option AccountID
  | .beginSponsoring sourceID sponsoredID => update sponsor sponsoredID (some sourceID)
  | .endSponsoring sourceID => update sponsor sourceID none
  | .other _ _ => sponsor

def TxOperation.isSponsoring : TxOperation κ δ → Bool
  | .other _ _ => false
  | _ => true

/-- The relation in which the operation can succeed. -/
def TxOperation.Applies (sponsor : AccountID → Option AccountID) : TxOperation κ δ → Prop
  | .beginSponsoring _ sponsoredID => sponsor sponsoredID = none
  | .endSponsoring sourceID => sponsor sourceID ≠ none
  | .other _ _ => True

variable {op : TxOperation κ δ}

theorem TxOperation.Applies.numSponsored_le (h : op.Applies sponsor) (z : AccountID) :
    numSponsored (op.effect sponsor) z ≤ numSponsored sponsor z + 1 := by
  cases op with
  | beginSponsoring y x =>
    by_cases hz : z = y
    · rw [hz, effect, numSponsored_begin h]
    · rw [effect, numSponsored_update (by simp [show sponsor x = none from h])
        (by simpa using Ne.symm hz)]
      exact Nat.le_succ _
  | endSponsoring x =>
    by_cases hz : sponsor x = some z
    · rw [effect, numSponsored_end hz]
      omega
    · rw [effect, numSponsored_update hz (by simp)]
      exact Nat.le_succ _
  | other commands succeeds => exact Nat.le_succ _

/-- Every `Begin` is followed by an `End` of the account it sponsors. -/
def Matched : List (TxOperation κ δ) → Prop
  | [] => True
  | .beginSponsoring _ sponsoredID :: ops => .endSponsoring sponsoredID ∈ ops ∧ Matched ops
  | _ :: ops => Matched ops

/-- One operation and the rest of them: what was open before it. -/
theorem matched_cons (h : op.Applies sponsor) (ops : List (TxOperation κ δ)) :
    (Matched ops ∧ ∀ x, op.effect sponsor x ≠ none → .endSponsoring x ∈ ops)
      ↔ Matched (op :: ops) ∧ ∀ x, sponsor x ≠ none → .endSponsoring x ∈ op :: ops := by
  cases op with
  | beginSponsoring y x =>
    have hx : sponsor x = none := h
    simp only [Matched, TxOperation.effect, mem_cons, reduceCtorEq, false_or]
    constructor
    · rintro ⟨hops, hopen⟩
      refine ⟨⟨hopen x (by simp), hops⟩, fun z hz => hopen z ?_⟩
      rwa [update_of_ne (by rintro rfl; exact hz hx)]
    · rintro ⟨⟨hend, hops⟩, hopen⟩
      refine ⟨hops, fun z hz => ?_⟩
      by_cases hzx : z = x
      · rwa [hzx]
      · exact hopen z (by rwa [update_of_ne hzx] at hz)
  | endSponsoring x =>
    simp only [Matched, TxOperation.effect, mem_cons, TxOperation.endSponsoring.injEq]
    refine and_congr_right fun _ => forall_congr' fun z => ?_
    by_cases hz : z = x
    · simp [hz]
    · simp [hz]
  | other commands succeeds => simp [Matched, TxOperation.effect]

section

variable [DecidableEq κ] [PriceOrder] {s s' ltx ltx' : Stack κ δ} {a : PlainStack κ δ}
  {root : QueryResult κ δ} {q : List (PlainLevel κ δ)} {op : TxOperation κ δ}
  {ops : List (TxOperation κ δ)} {st st' : Bool × Stack κ δ}

section Few

variable (hfew : ∀ y, numSponsored sponsor y < 2 ^ 63)
include hfew

/-- An operation of the sandwich never throws. -/
theorem TxOperation.apply_ok (h : s.Records root q sponsor) (hop : op.isSponsoring = true) :
    ∃ r, op.apply s = .ok r ∧ ∀ s', r = some s' →
      op.Applies sponsor ∧ s'.Records root q (op.effect sponsor) := by
  cases op with
  | beginSponsoring y x =>
    obtain ⟨r, hr, hQ⟩ := (beginSponsoring_meets (x := x) (y := y) h).toOption
    exact ⟨r, hr, fun s' hs' => hQ s' hs' s' rfl⟩
  | endSponsoring x =>
    obtain ⟨r, hr, hQ⟩ := (endSponsoring_meets (x := x) h hfew).toOption
    exact ⟨r, hr, fun s' hs' => hQ s' hs' s' rfl⟩
  | other commands succeeds => cases hop

/-- What a successful operation leaves. -/
theorem TxOperation.apply_some (h : s.Records root q sponsor) (hord : op.Ordinary)
    (happly : op.apply s = .ok (some s')) :
    op.Applies sponsor ∧ ∃ p', s'.Shows ⟨root, p' :: q⟩ ∧ Notes p'.map (op.effect sponsor) := by
  have hsponsoring (hop : op.isSponsoring = true) : op.Applies sponsor
      ∧ ∃ p', s'.Shows ⟨root, p' :: q⟩ ∧ Notes p'.map (op.effect sponsor) := by
    obtain ⟨r, hr, hQ⟩ := apply_ok hfew h hop
    obtain rfl := ok.inj (happly.symm.trans hr)
    obtain ⟨happlies, m', hs', hm'⟩ := hQ s' rfl
    exact ⟨happlies, ⟨m', []⟩, hs', hm'⟩
  cases op with
  | beginSponsoring y x | endSponsoring x => exact hsponsoring rfl
  | other commands succeeds =>
    obtain ⟨m, h, hnotes⟩ := h
    obtain ⟨s₁, hrun, heq⟩ := bind_eq_ok.mp happly
    cases succeeds with
    | false => cases heq
    | true =>
      obtain rfl : s₁ = s' := by simpa using heq
      obtain ⟨a', hplain, hshows⟩ := h.run_ok hrun
      obtain ⟨p', rfl, hp'⟩ := run_ordinary (m := m) commands (P := [⟨m, []⟩]) rfl
        (by simp [SameNotes]) hord hplain
      exact ⟨trivial, p', hshows, hp'.notes hnotes⟩

/-- The loop body: the operation took place, or the ledger is as it was. -/
theorem applyOperation_spec (h : st.2.Records root q sponsor) (hord : op.Ordinary)
    (happly : applyOperation st op = .ok st') :
    (st'.1 = st.1 ∧ op.Applies sponsor ∧ st'.2.Records root q (op.effect sponsor))
      ∨ st'.1 = false ∧ st'.2.Records root q sponsor := by
  obtain ⟨m, h, hnotes⟩ := h
  obtain ⟨ltxOp, hopen, happly⟩ := bind_eq_ok.mp happly
  have hop : ltxOp.Shows ⟨root, ⟨m, []⟩ :: ⟨m, []⟩ :: q⟩ := h.of_step hopen rfl
  obtain ⟨r, hr, happly⟩ := bind_eq_ok.mp happly
  cases r with
  | none =>
    obtain ⟨s₁, hs₁, heq⟩ := bind_eq_ok.mp happly
    cases heq
    exact .inr ⟨rfl, m, hop.of_step hs₁ rfl, hnotes⟩
  | some ltxOp' =>
    obtain ⟨s₁, hs₁, heq⟩ := bind_eq_ok.mp happly
    cases heq
    obtain ⟨happlies, p', hshows, hp'⟩ := TxOperation.apply_some hfew ⟨m, hop, hnotes⟩ hord hr
    exact .inl ⟨rfl, happlies, p'.map, hshows.of_step hs₁ rfl, hp'⟩

omit hfew in
/-- By induction on the operations: the entries go on noting a relation, and when all
succeeded it is empty exactly if every `Begin` was matched. -/
theorem foldlM_applyOperation (ops : List (TxOperation κ δ)) :
    ∀ {st : Bool × Stack κ δ} {sponsor : AccountID → Option AccountID} {k : Nat},
      st.2.Records root q sponsor → (∀ y, numSponsored sponsor y ≤ k) →
      k + ops.length < 2 ^ 63 → (∀ op ∈ ops, op.Ordinary) →
      ops.foldlM applyOperation st = .ok st' →
      ∃ sponsor', st'.2.Records root q sponsor' ∧ (∀ y, numSponsored sponsor' y ≤ k + ops.length)
        ∧ (st'.1 = true → st.1 = true ∧ ((∀ x, sponsor' x = none)
          ↔ Matched ops ∧ ∀ x, sponsor x ≠ none → .endSponsoring x ∈ ops)) := by
  induction ops with
  | nil =>
    intro st sponsor k h hk _ _ hfold
    cases hfold
    exact ⟨sponsor, h, hk, fun hst => ⟨hst, by simp [Matched]⟩⟩
  | cons op ops ih =>
    intro st sponsor k h hk hlen hord hfold
    obtain ⟨hop, hops⟩ := forall_mem_cons.mp hord
    rw [length_cons] at hlen ⊢
    obtain ⟨st₁, hst₁, hfold⟩ := bind_eq_ok.mp hfold
    have hfew : ∀ y, numSponsored sponsor y < 2 ^ 63 := fun y => by
      have := hk y
      omega
    obtain ⟨hsame, happlies, h₁⟩ | ⟨hfalse, h₁⟩ := applyOperation_spec hfew h hop hst₁
    · have hk₁ : ∀ y, numSponsored (op.effect sponsor) y ≤ k + 1 := fun y =>
        (happlies.numSponsored_le y).trans (Nat.succ_le_succ (hk y))
      obtain ⟨sponsor', h', hk', hdone⟩ := ih h₁ hk₁ (by omega) hops hfold
      refine ⟨sponsor', h', fun y => (hk' y).trans (by omega), fun hst' => ?_⟩
      obtain ⟨hst, hiff⟩ := hdone hst'
      exact ⟨hsame ▸ hst, hiff.trans (matched_cons happlies ops)⟩
    · obtain ⟨sponsor', h', hk', hdone⟩ := ih h₁ hk (by omega) hops hfold
      refine ⟨sponsor', h', fun y => (hk' y).trans (by omega), fun hst' => ?_⟩
      rw [(hdone hst').1] at hfalse
      cases hfalse

/-! ## The end of the transaction -/

omit hfew in
/-- The `LedgerTxn` of a transaction after some of its operations. -/
theorem applyLoop_spec (h : ltx.Shows a) (hnone : ltx.NoSponsorships)
    (hlen : ops.length ≤ MAX_OPS_PER_TX) (hord : ∀ op ∈ ops, op.Ordinary)
    (hloop : applyLoop ltx ops = .ok st) :
    ∃ q sponsor, st.2.Records a.root q sponsor ∧ (∀ y, numSponsored sponsor y < 2 ^ 63)
      ∧ (⟨a.root, q⟩ : PlainStack κ δ).NoSponsorships
      ∧ (st.1 = true → ((∀ x, sponsor x = none) ↔ Matched ops)) := by
  rw [h.noSponsorships_iff] at hnone
  obtain ⟨q, hopen, hq⟩ := a.openChild_eq
  obtain ⟨ltxTx, hltxTx, hloop⟩ := bind_eq_ok.mp hloop
  have hshows : ltxTx.Shows a.openChild := h.of_step hltxTx rfl
  rw [hopen] at hshows
  have hzero : ∀ y, numSponsored (fun _ => none) y = 0 := fun y => by simp [numSponsored]
  have hnotes : Notes a.current fun _ => none :=
    ⟨fun x => hnone _ rfl, fun y => by rw [hzero]; exact hnone _ rfl, nofun⟩
  have hmax : MAX_OPS_PER_TX < 2 ^ 63 := by decide
  obtain ⟨sponsor, h', hfew, hdone⟩ := foldlM_applyOperation ops (k := 0) ⟨_, hshows, hnotes⟩
    (fun y => (hzero y).le) (by omega) hord hloop
  refine ⟨q, sponsor, h', fun y => (hfew y).trans_lt (by omega), ?_, fun hst => ?_⟩
  · intro key hint
    rw [hq]
    exact hnone key hint
  · simpa using (hdone hst).2

/-- An operation of the sandwich has a result. -/
theorem applyOperation_ok (h : st.2.Records root q sponsor) (hop : op.isSponsoring = true) :
    ∃ st', applyOperation st op = .ok st' := by
  obtain ⟨m, h, hnotes⟩ := h
  obtain ⟨ltxOp, hopen, hshows⟩ :=
    h.step_ok (show PlainStack.step _ (.openChild true) = .ok _ from rfl)
  obtain ⟨r, hr, hdone⟩ := TxOperation.apply_ok hfew ⟨m, hshows, hnotes⟩ hop
  refine exists_ok_bind hopen (exists_ok_bind hr ?_)
  cases r with
  | none =>
    obtain ⟨s₁, hs₁, -⟩ := hshows.step_ok (show PlainStack.step _ .rollback = .ok _ from rfl)
    exact exists_ok_bind hs₁ ⟨_, rfl⟩
  | some ltxOp' =>
    obtain ⟨-, m', hshows', -⟩ := hdone ltxOp' rfl
    obtain ⟨s₁, hs₁, -⟩ := hshows'.step_ok (show PlainStack.step _ .commit = .ok _ from rfl)
    exact exists_ok_bind hs₁ ⟨_, rfl⟩

end Few

theorem applyOperations_eq_ok {code : TransactionResultCode}
    (h : applyOperations ltx ops = .ok (code, ltx')) :
    ∃ success ltxTx, applyLoop ltx ops = .ok (success, ltxTx)
      ∧ (success = true ∧ ltxTx.hasSponsorshipEntry = false ∧ code = txSUCCESS
          ∧ ltxTx.step .commit = .ok ltx'
        ∨ (success = true ∧ ltxTx.hasSponsorshipEntry = true ∧ code = txBAD_SPONSORSHIP
            ∨ success = false ∧ code = txFAILED)
          ∧ ltxTx.step .rollback = .ok ltx') := by
  obtain ⟨⟨success, ltxTx⟩, hloop, h⟩ := bind_eq_ok.mp h
  refine ⟨success, ltxTx, hloop, ?_⟩
  dsimp only at h
  split_ifs at h with hsuccess hhas <;>
  · obtain ⟨s', hs', heq⟩ := bind_eq_ok.mp h
    cases heq
    simp_all

/-- What a transaction leaves, by the result it has. -/
theorem applyOperations_spec {code : TransactionResultCode} (h : ltx.Shows a)
    (hnone : ltx.NoSponsorships) (hlen : ops.length ≤ MAX_OPS_PER_TX)
    (hord : ∀ op ∈ ops, op.Ordinary) (happly : applyOperations ltx ops = .ok (code, ltx')) :
    ltx'.NoSponsorships ∧ (code ≠ txFAILED → (code = txSUCCESS ↔ Matched ops)) := by
  obtain ⟨success, ltxTx, hloop, hend⟩ := applyOperations_eq_ok happly
  obtain ⟨q, sponsor, ⟨m, hshows, hnotes⟩, -, hq, hdone⟩ := applyLoop_spec h hnone hlen hord hloop
  have hscan := (hshows.hasSponsorshipEntry_iff hq).trans hnotes.exists_iff
  dsimp only at hdone hscan
  obtain ⟨rfl, hhas, rfl, hs'⟩ | ⟨hcode, hs'⟩ := hend
  · have hempty : ∀ x, sponsor x = none := by
      by_contra hopen
      exact Bool.false_ne_true (hhas.symm.trans (hscan.mpr hopen))
    have hclean : (⟨a.root, ⟨m, []⟩ :: q⟩ : PlainStack κ δ).NoSponsorships := by
      intro key hint
      by_contra hsome
      exact hnotes.exists_iff.mp ⟨key, hint, hsome⟩ hempty
    obtain ⟨a', ha', hclean⟩ := hclean.commit
    exact ⟨(Stack.Shows.noSponsorships_iff (hshows.of_step hs' ha')).mpr hclean,
      fun _ => by simpa using (hdone rfl).mp hempty⟩
  · refine ⟨(Stack.Shows.noSponsorships_iff (hshows.of_step hs' rfl)).mpr hq, fun hne => ?_⟩
    obtain ⟨rfl, hhas, rfl⟩ | ⟨-, rfl⟩ := hcode
    · simpa using fun hmatched => hscan.mp hhas ((hdone rfl).mpr hmatched)
    · exact absurd rfl hne

end

/-- In every transaction on a ledger without sponsorships, over any list of operations: after
each of them the entries note a relation in which no account is both sponsored and sponsoring,
the counters count it, and no operation of the sandwich throws; afterwards no sponsorship is
left, and when all operations succeeded the transaction does exactly if every `Begin` was
matched. -/
theorem sponsorship_sandwiches_wellFormed [DecidableEq κ] [PriceOrder] (root : Root κ δ)
    (cmds : List (Command κ δ)) (ltx : Stack κ δ) (hrun : Stack.run ⟨root, []⟩ cmds = .ok ltx)
    (hnone : ltx.NoSponsorships) (ops : List (TxOperation κ δ))
    (hlen : ops.length ≤ MAX_OPS_PER_TX) (hord : ∀ op ∈ ops, op.Ordinary) :
    (∀ done rest, ops = done ++ rest → ∀ success ltxTx,
      applyLoop ltx done = .ok (success, ltxTx) → ∃ sponsor, ltxTx.Sandwich sponsor
        ∧ ∀ op : TxOperation κ δ, op.isSponsoring = true →
          ∃ st, applyOperation (success, ltxTx) op = .ok st)
      ∧ ∀ code ltx', applyOperations ltx ops = .ok (code, ltx') → ltx'.NoSponsorships
        ∧ (code ≠ txFAILED → (code = txSUCCESS ↔ Matched ops)) := by
  have hstart : (⟨root, []⟩ : Stack κ δ).Shows ⟨root.plain, []⟩ := ⟨rfl, trivial⟩
  obtain ⟨a, -, hshows⟩ := hstart.run_ok hrun
  constructor
  · rintro done rest rfl success ltxTx hloop
    rw [length_append] at hlen
    obtain ⟨q, sponsor, h, hfew, -⟩ := applyLoop_spec hshows hnone (by omega)
      (fun op hop => hord op (mem_append_left rest hop)) hloop
    exact ⟨sponsor, h.sandwich, fun _ => applyOperation_ok hfew h⟩
  · exact fun _ _ => applyOperations_spec hshows hnone hlen hord

/-! ## The operations of a frame

`TransactionFrame.applyOperations` passes ledgers by value, the functions above change
nested `LedgerTxn`s. Where every operation does the same to both, both have the same
result. -/

section Frame

variable {E C : Type} [DecidableEq κ] [PriceOrder] [HashFunction] [PubKeyUtils] [OperationFrame E]
  [SponsorshipEntries E] {tx : TransactionFrame} {ops : List (Operation × TxOperation κ δ)}
  {shows : Stack κ δ → LedgerTxn E → Prop}

/-- Each operation of the frame does the same to a stack and to the ledger that the stack
shows. -/
structure Matches (tx : TransactionFrame) (ops : List (Operation × TxOperation κ δ))
    (shows : Stack κ δ → LedgerTxn E → Prop) : Prop where
  entries : ∀ {s l}, shows s l →
    SponsorshipEntries.hasSponsorshipEntry l.others = s.hasSponsorshipEntry
  applied : ∀ {op success s st l}, op ∈ ops → shows s l →
    applyOperation (success, s) op.2 = .ok st → ∀ index c, ∃ txRes ltxOp c',
      OperationFrame.apply tx index op.1 c l = .ok (txRes, ltxOp, c')
        ∧ st.1 = (success && txRes) ∧ shows st.2 (if txRes then ltxOp else l)

variable (h : Matches tx ops shows) {app : ApplyContext E C}
  (hinv : ∀ op l l', app.checkOnOperationApply op l l' = true)
include h hinv

theorem Matches.applyLoop {version : UInt32} (hv : protocolVersionIsBefore version 14 = false) :
    ∀ {rest : List (Operation × TxOperation κ δ)} {st out : Bool × Stack κ δ}
      {st' : ApplyState E C} (index : Nat), rest ⊆ ops → st.1 = st'.success →
      shows st.2 st'.ltxTx → (rest.map Prod.snd).foldlM applyOperation st = .ok out →
      ∃ out', tx.applyLoop app version (rest.map Prod.fst) index st' = .ok out'
        ∧ out.1 = out'.success ∧ shows out.2 out'.ltxTx
  | [], _, _, _, _, _, hsuccess, hshows, hrun => by
    cases hrun
    exact ⟨_, rfl, hsuccess, hshows⟩
  | op :: rest, (success, s), out, st', index, hsub, hsuccess, hshows, hrun => by
    obtain ⟨st₁, hstep, hrun⟩ := bind_eq_ok.mp hrun
    obtain ⟨hop, hrest⟩ := cons_subset.mp hsub
    obtain ⟨txRes, ltxOp, c', happly, hflag, hshows₁⟩ :=
      h.applied hop hshows hstep index st'.signatureChecker
    have hbody : ∃ st₁', tx.applyOperation app version index op.1 st' = .ok st₁'
        ∧ st₁.1 = st₁'.success ∧ shows st₁.2 st₁'.ltxTx := by
      unfold TransactionFrame.applyOperation
      rw [happly]
      refine ⟨_, if_neg (by simp [hinv]), by rw [hflag, ← hsuccess], ?_⟩
      simpa [hv] using hshows₁
    obtain ⟨st₁', hbody, hsuccess₁, hshows₁⟩ := hbody
    obtain ⟨out', hloop, hout⟩ := applyLoop hv (index + 1) hrest hsuccess₁ hshows₁ hrun
    exact ⟨out', bind_eq_ok.mpr ⟨st₁', hbody, hloop⟩, hout⟩

/-- The code is that of the frame, and a transaction that succeeds commits what the frame
returns. -/
theorem Matches.applyOperations {ltx ltxTx ltx' : Stack κ δ} {l : LedgerTxn E}
    {code : TransactionResultCode} (hops : tx.operations = ops.map Prod.fst)
    (hv : protocolVersionStartsFrom l.header.ledgerVersion 14 = true)
    (hopen : ltx.step (.openChild true) = .ok ltxTx) (hshows : shows ltxTx l)
    (happly : Nested.applyOperations ltx (ops.map Prod.snd) = .ok (code, ltx')) (I : Stl.Impl)
    (c : SignatureChecker) (outerMeta : TransactionMeta C) :
    ∃ success failure l' outerMeta',
      tx.applyOperations I app c l outerMeta = .ok (success, failure, l', outerMeta')
        ∧ code = failure.getD txSUCCESS ∧ (success = true ↔ code = txSUCCESS)
        ∧ (code = txSUCCESS → ∃ ltxTx', shows ltxTx' l' ∧ ltxTx'.step .commit = .ok ltx') := by
  have hbefore : protocolVersionIsBefore l.header.ledgerVersion 14 = false := by
    rw [protocolVersionIsBefore_eq, hv]
    rfl
  have hten : protocolVersionIsBefore l.header.ledgerVersion 10 = false :=
    not_protocolVersionIsBefore (by decide : 10 ≤ 14) hv
  obtain ⟨success, ltxTx₁, hloop, hend⟩ := applyOperations_eq_ok happly
  obtain ⟨ltxTx', hopen', hloop⟩ := bind_eq_ok.mp hloop
  obtain rfl : ltxTx = ltxTx' := ok.inj (hopen.symm.trans hopen')
  let start : ApplyState E C := ⟨true, l, [], c⟩
  obtain ⟨st, hloop', hsuccess, hshows'⟩ :=
    h.applyLoop hinv hbefore 0 (Subset.refl _) (show true = start.success from rfl) hshows hloop
  dsimp only at hsuccess hshows'
  unfold TransactionFrame.applyOperations
  rw [hops, hloop']
  dsimp only
  rw [← hsuccess, TransactionFrame.finishOperations, hten, if_neg Bool.false_ne_true,
    h.entries hshows']
  obtain ⟨rfl, hhas, rfl, hcommit⟩ | ⟨⟨rfl, hhas, rfl⟩ | ⟨rfl, rfl⟩, -⟩ := hend
  · rw [hhas, if_pos rfl, if_neg fun hboth => Bool.false_ne_true hboth.2]
    exact ⟨_, _, _, _, rfl, rfl, by simp, fun _ => ⟨_, hshows', hcommit⟩⟩
  · rw [hhas, if_pos rfl, if_pos ⟨hv, rfl⟩]
    exact ⟨_, _, _, _, rfl, rfl, by simp, by simp⟩
  · exact ⟨_, _, _, _, rfl, rfl, by simp, by simp⟩

end Frame

/-- A ledger without entries. -/
def emptyStack : Stack Unit Unit := ⟨⟨∅, fun _ _ => none, 1⟩, []⟩

theorem sponsorship_sandwiches_wellFormed_pair :
    let _ := PriceOrder.exact
    ∃ ltx', applyOperations emptyStack [.beginSponsoring 1 2, .endSponsoring 2]
      = .ok (txSUCCESS, ltx')
      ∧ ltx'.NoSponsorships := by
  intro _
  have hcode : (applyOperations emptyStack [.beginSponsoring 1 2, .endSponsoring 2]).map Prod.fst
      = .ok txSUCCESS := by decide +kernel
  obtain ⟨⟨code, ltx'⟩, happly, rfl⟩ := map_eq_ok.mp hcode
  refine ⟨ltx', happly, ?_⟩
  have hnone : emptyStack.NoSponsorships := fun key hint => by
    show (if key.isLedgerEntry then _ else none) = none
    simp [hint]
  exact ((sponsorship_sandwiches_wellFormed emptyStack.root [] emptyStack rfl hnone _ (by decide)
    (by simp [TxOperation.Ordinary])).2 _ _ happly).1

end KinesisCore.Nested

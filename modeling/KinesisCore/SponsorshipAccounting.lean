import Mathlib.Algebra.Group.Equiv.TypeTags
import Mathlib.Algebra.BigOperators.Finprod
import Mathlib.Algebra.BigOperators.Pi
import Mathlib.Algebra.Group.Pi.Basic
import Mathlib.Tactic.Abel
import KinesisCore.EntrySponsorship
import KinesisCore.LiabilityBounds

/-!
# Sponsorship accounting is exact

Three counters of every account say what others could find out by looking at the
whole ledger: how much the account sponsors, how much of what it owns is
sponsored, and how many sub-entries it owns. Counters and facts are tallies,
values of one commutative group. Each function changes them by a tally that its
name gives away; in every call the two sums agree.
-/

namespace KinesisCore.Sponsorship

open MachineInt Except Function AccountEntry LedgerEntry LedgerTxn Finset
open Ledger (modifyAccount_eq_ok)

/-! ## Tallies -/

variable {acc' acc : AccountEntry} {le : LedgerEntry}

/-- For every account: what it sponsors, what of it is sponsored, and its
sub-entries. -/
abbrev Tally := (AccountID → Int) × (AccountID → Int) × (AccountID → Int)

namespace Tally

variable (id : AccountID) (n : Int)

def sponsoring : Tally := (Pi.single id n, 0, 0)

def sponsored : Tally := (0, Pi.single id n, 0)

def subEntries : Tally := (0, 0, Pi.single id n)

@[simp] theorem sponsoring_zero : sponsoring id 0 = 0 := by
  simp [sponsoring]

@[simp] theorem sponsored_zero : sponsored id 0 = 0 := by
  simp [sponsored]

@[simp] theorem subEntries_zero : subEntries id 0 = 0 := by
  simp [subEntries]

@[simp] theorem sponsoring_neg : sponsoring id (-n) = -sponsoring id n := by
  simp [sponsoring, Pi.single_neg]

@[simp] theorem sponsored_neg : sponsored id (-n) = -sponsored id n := by
  simp [sponsored, Pi.single_neg]

@[simp] theorem subEntries_neg : subEntries id (-n) = -subEntries id n := by
  simp [subEntries, Pi.single_neg]

theorem sponsoring_add (m n : Int) : sponsoring id (m + n) = sponsoring id m + sponsoring id n := by
  simp [sponsoring, Pi.single_add]

theorem sponsored_add (m n : Int) : sponsored id (m + n) = sponsored id m + sponsored id n := by
  simp [sponsored, Pi.single_add]

theorem subEntries_add (m n : Int) : subEntries id (m + n) = subEntries id m + subEntries id n := by
  simp [subEntries, Pi.single_add]

end Tally

open Tally

/-- What a sponsorship by `sponsoringID` of something of `accountID` amounts to. -/
def sponsorship (sponsoringID : Option AccountID) (accountID : AccountID) (mult : Int) : Tally :=
  match sponsoringID with
  | none => 0
  | some id => sponsoring id mult + sponsored accountID mult

def LedgerEntry.owed (le : LedgerEntry) : Tally :=
  let mult : Int := le.computeMultiplier.toNat
  (if le.isClaimableBalance then
    match le.sponsoringID with
    | none => 0
    | some id => sponsoring id mult
  else Sponsorship.sponsorship le.sponsoringID le.accountID mult)
    + if le.isSubentry then subEntries le.accountID mult else 0

/-- The sponsors of the signers. -/
def signerIDs (acc : AccountEntry) : List (Option AccountID) :=
  (acc.extV2.map (·.signerSponsoringIDs)).getD []

def accountOwed (id : AccountID) (acc : AccountEntry) : Tally :=
  sponsorship acc.sponsoringID id 2
    + ((signerIDs acc).map fun s => sponsorship s id 1).sum + subEntries id acc.signers.length

def accountCounted (id : AccountID) (acc : AccountEntry) : Tally :=
  sponsoring id acc.getNumSponsoring.toNat + sponsored id acc.getNumSponsored.toNat
    + subEntries id acc.numSubEntries.toNat

def OtherEntry.owed (e : OtherEntry) : Tally :=
  LedgerEntry.owed ⟨.other e.kind, e.accountID, e.sponsoringID⟩

/-- The value of an optional thing, nothing being worth zero. -/
def worth {α : Type} (f : α → Tally) (x : Option α) : Tally := (x.map f).getD 0

theorem worth_none {α : Type} (f : α → Tally) : worth f none = 0 := rfl

/-- The sum over a finite type. -/
noncomputable def total {ι : Type} (f : ι → Tally) : Tally := ∑ᶠ i, f i

section Total

variable {ι α : Type} [Finite ι]

theorem total_update [DecidableEq ι] (F : ι → α → Tally) (f : ι → α) (j : ι) (x : α) :
    total (fun i => F i (update f j x i))
      = total (fun i => F i (f i)) + (F j x - F j (f j)) := by
  have := Fintype.ofFinite ι
  have hfun : (fun i => F i (update f j x i))
      = update (fun i => F i (f i)) j (F j x) := by
    funext i
    exact apply_update F f j x i
  have hsplit := sum_update_of_mem (mem_univ j) (fun i => F i (f i)) (F j x)
  have hself := sum_update_of_mem (mem_univ j) (fun i => F i (f i)) (F j (f j))
  rw [update_eq_self] at hself
  rw [total, total, hfun, finsum_eq_sum_of_fintype, finsum_eq_sum_of_fintype, hsplit, hself]
  abel

/-- A sum of which only one part counts. -/
theorem total_eq {M : Type} [AddCommMonoid M] (p : Tally →+ M) (f : ι → Tally) (j : ι)
    (h : ∀ i, i ≠ j → p (f i) = 0) : p (total f) = p (f j) := by
  have := Fintype.ofFinite ι
  rw [total, finsum_eq_sum_of_fintype, map_sum, sum_eq_single j (fun i _ => h i)
    (absurd (mem_univ j))]

theorem total_nonneg (p : Tally →+ Int) (f : ι → Tally) (h : ∀ i, 0 ≤ p (f i)) :
    0 ≤ p (total f) := by
  have := Fintype.ofFinite ι
  rw [total, finsum_eq_sum_of_fintype, map_sum]
  exact sum_nonneg fun i _ => h i

end Total

variable {K : Type} (ltx : Ledger K)

/-- What the accounts count. -/
noncomputable def counted : Tally :=
  total fun id => worth (accountCounted id) (ltx.accounts id)

/-- What there is to be counted. -/
noncomputable def due : Tally :=
  total (fun key => worth OtherEntry.owed (ltx.others key))
    + total fun id => worth (accountOwed id) (ltx.accounts id)

/-! ## One change at a time -/

theorem counted_updateAccount (id : AccountID) (acc : Option AccountEntry) :
    counted { ltx with accounts := update ltx.accounts id acc }
      = counted ltx
        + (worth (accountCounted id) acc - worth (accountCounted id) (ltx.accounts id)) :=
  total_update (fun id => worth (accountCounted id)) ltx.accounts id acc

theorem due_updateAccount (id : AccountID) (acc : Option AccountEntry) :
    due { ltx with accounts := update ltx.accounts id acc }
      = due ltx + (worth (accountOwed id) acc - worth (accountOwed id) (ltx.accounts id)) := by
  have hd := total_update (fun id => worth (accountOwed id)) ltx.accounts id acc
  rw [due, due, hd, add_assoc]

theorem due_putEntry [Finite K] [DecidableEq K] (ltx : Ledger K) (key : K) (e : Option OtherEntry) :
    due (ltx.putEntry key e)
      = due ltx + (worth OtherEntry.owed e - worth OtherEntry.owed (ltx.others key)) := by
  have hd := total_update (fun _ => worth OtherEntry.owed) ltx.others key e
  rw [due, due, Ledger.putEntry, hd, add_right_comm]

/-! ## Accounts -/

/-- The entries an account keeps a reserve for, from protocol 14 on. -/
def eff (acc : AccountEntry) : Int :=
  2 + acc.numSubEntries.toNat + acc.getNumSponsoring.toNat - acc.getNumSponsored.toNat

/-- Every signer has a place in the list of sponsors. -/
def AlignedAccount (acc : AccountEntry) : Prop :=
  ∀ v2, acc.extV2 = some v2 → v2.signerSponsoringIDs.length = acc.signers.length

/-- What the sponsored signers of an account amount to. -/
def signersOwed (id : AccountID) (acc : AccountEntry) : Tally :=
  ((signerIDs acc).map fun s => sponsorship s id 1).sum

/-- The sponsor of a signer, if it has one. -/
def signerSponsor (acc : AccountEntry) (n : Nat) : Option AccountID := (signerIDs acc)[n]?.join

/-- `acc'` is `acc` but for its three counters. -/
structure Recounted (acc acc' : AccountEntry) : Prop where
  sponsoringID : acc'.sponsoringID = acc.sponsoringID
  signers : acc'.signers = acc.signers
  signersOwed : ∀ id, signersOwed id acc' = signersOwed id acc
  signerSponsor : ∀ n, signerSponsor acc' n = signerSponsor acc n
  aligned : AlignedAccount acc → AlignedAccount acc'
  balance : acc'.balance = acc.balance
  selling : acc'.selling = acc.selling

theorem Recounted.refl (acc : AccountEntry) : Recounted acc acc :=
  ⟨rfl, rfl, fun _ => rfl, fun _ => rfl, id, rfl, rfl⟩

theorem Recounted.trans {acc'' : AccountEntry} (h : Recounted acc acc')
    (h' : Recounted acc' acc'') : Recounted acc acc'' where
  sponsoringID := h'.sponsoringID.trans h.sponsoringID
  signers := h'.signers.trans h.signers
  signersOwed id := (h'.signersOwed id).trans (h.signersOwed id)
  signerSponsor n := (h'.signerSponsor n).trans (h.signerSponsor n)
  aligned ha := h'.aligned (h.aligned ha)
  balance := h'.balance.trans h.balance
  selling := h'.selling.trans h.selling

theorem Recounted.accountOwed (h : Recounted acc acc') (id : AccountID) :
    accountOwed id acc' = accountOwed id acc := by
  have hsigners := h.signersOwed id
  unfold Sponsorship.signersOwed at hsigners
  simp only [Sponsorship.accountOwed, h.sponsoringID, h.signers, hsigners]

section Extension

variable (acc : AccountEntry)

theorem extV2_prepareExtV2 : ∃ v2, acc.prepareExtV2.extV2 = some v2
    ∧ v2.numSponsoring = acc.getNumSponsoring ∧ v2.numSponsored = acc.getNumSponsored
    ∧ (acc.extV2 = some v2
      ∨ acc.extV2 = none ∧ v2.signerSponsoringIDs = acc.signers.map fun _ => none) := by
  unfold prepareExtV2 AccountEntry.extV2 getNumSponsoring
    getNumSponsored AccountEntry.extV2
  cases acc.ext with
  | none => exact ⟨_, rfl, rfl, rfl, .inr ⟨rfl, rfl⟩⟩
  | some v1 =>
    cases hv1 : v1.ext with
    | none =>
      refine ⟨{ numSponsored := 0, numSponsoring := 0
                signerSponsoringIDs := acc.signers.map fun _ => none }, ?_, ?_, ?_, .inr ⟨?_, rfl⟩⟩
        <;> simp [hv1]
    | some v2 => exact ⟨v2, by simp [hv1], by simp [hv1], by simp [hv1], .inl (by simp [hv1])⟩

theorem selling_prepareExtV2 : acc.prepareExtV2.selling = acc.selling := by
  unfold prepareExtV2 AccountEntry.selling
  cases acc.ext <;> rfl

/-- `acc'` has the extension that counts, with the numbers of `acc`. -/
structure Extended (acc acc' : AccountEntry) (v2 : AccountEntryExtensionV2) : Prop
    extends Recounted acc acc' where
  extV2 : acc'.extV2 = some v2
  numSponsoring : v2.numSponsoring = acc.getNumSponsoring
  numSponsored : v2.numSponsored = acc.getNumSponsored
  numSubEntries : acc'.numSubEntries = acc.numSubEntries

theorem extended_prepareExtV2 : ∃ v2, Extended acc acc.prepareExtV2 v2 := by
  obtain ⟨v2, hv2, hsponsoring, hsponsored, hcase⟩ := extV2_prepareExtV2 acc
  refine ⟨v2, ⟨rfl, rfl, fun id => ?_, fun n => ?_, fun ha v2' hv2' => ?_, rfl,
    selling_prepareExtV2 acc⟩, hv2, hsponsoring, hsponsored, rfl⟩
  · obtain hsame | ⟨hnone, hids⟩ := hcase
    · simp [signersOwed, signerIDs, hv2, hsame]
    · simp [signersOwed, signerIDs, hv2, hnone, hids, sponsorship]
  · obtain hsame | ⟨hnone, hids⟩ := hcase
    · simp [signerSponsor, signerIDs, hv2, hsame]
    · simp only [signerSponsor, signerIDs, hv2, hnone, hids, Option.map_some, Option.map_none,
        Option.getD_some, Option.getD_none, List.getElem?_map, List.getElem?_nil, Option.join_none]
      cases acc.signers[n]? <;> rfl
  · obtain rfl := Option.mem_unique hv2 hv2'
    obtain hsame | ⟨hnone, hids⟩ := hcase
    · exact ha v2 hsame
    · rw [hids, List.length_map]
      rfl

theorem extended_of_extV2 {v2 : AccountEntryExtensionV2} (hv2 : acc.extV2 = some v2) :
    Extended acc acc v2 :=
  ⟨.refl acc, hv2, by simp [getNumSponsoring, hv2], by simp [getNumSponsored, hv2], rfl⟩

variable (f : AccountEntryExtensionV2 → AccountEntryExtensionV2)

theorem selling_modifyExtV2 : (acc.modifyExtV2 f).selling = acc.selling := by
  unfold modifyExtV2 AccountEntry.selling
  cases acc.ext <;> rfl

theorem signerIDs_modifyExtV2 {f : AccountEntryExtensionV2 → AccountEntryExtensionV2}
    (hf : ∀ v2, (f v2).signerSponsoringIDs = v2.signerSponsoringIDs) :
    signerIDs (acc.modifyExtV2 f) = signerIDs acc := by
  unfold signerIDs
  rw [extV2_modifyExtV2]
  cases acc.extV2 <;> simp [hf]

theorem recounted_modifyExtV2 {f : AccountEntryExtensionV2 → AccountEntryExtensionV2}
    (hf : ∀ v2, (f v2).signerSponsoringIDs = v2.signerSponsoringIDs) :
    Recounted acc (acc.modifyExtV2 f) where
  sponsoringID := rfl
  signers := rfl
  signersOwed id := by rw [signersOwed, signerIDs_modifyExtV2 acc hf, ← signersOwed]
  signerSponsor n := by rw [signerSponsor, signerIDs_modifyExtV2 acc hf, ← signerSponsor]
  aligned ha := by
    intro v2' hv2'
    rw [extV2_modifyExtV2] at hv2'
    obtain ⟨v2, hv2, rfl⟩ := Option.map_eq_some_iff.mp hv2'
    rw [hf]
    exact ha v2 hv2
  balance := rfl
  selling := selling_modifyExtV2 acc f

end Extension

/-! ## Moves -/

/-- The balance and the selling liabilities under an identifier. -/
def moneyAt (ltx : Ledger K) (id : AccountID) : Option (Int64 × Int64) :=
  (ltx.accounts id).map fun acc => (acc.balance, acc.selling)

def Aligned (ltx : Ledger K) : Prop := ∀ id acc, ltx.accounts id = some acc → AlignedAccount acc

/-- From `ltx` to `ltx'` the counters change by `c` and what is to be counted by
`d`; the accounts are the same, with the same money. -/
structure Moves (ltx ltx' : Ledger K) (c d : Tally) : Prop where
  counted : counted ltx' = counted ltx + c
  due : due ltx' = due ltx + d
  money : ∀ id, moneyAt ltx' id = moneyAt ltx id
  aligned : Aligned ltx → Aligned ltx'
  header : ltx'.header = ltx.header

theorem Moves.refl (ltx : Ledger K) : Moves ltx ltx 0 0 :=
  ⟨(add_zero _).symm, (add_zero _).symm, fun _ => rfl, id, rfl⟩

variable {ltx ltx' : Ledger K} {id : AccountID} {ltx'' : Ledger K} {c : Tally}

theorem Moves.trans {c' d d' : Tally} (h : Moves ltx ltx' c d) (h' : Moves ltx' ltx'' c' d') :
    Moves ltx ltx'' (c + c') (d + d') where
  counted := by rw [h'.counted, h.counted, add_assoc]
  due := by rw [h'.due, h.due, add_assoc]
  money id := (h'.money id).trans (h.money id)
  aligned ha := h'.aligned (h.aligned ha)
  header := h'.header.trans h.header

/-- An account that is written back with the same money. -/
theorem moves_putAccount (hacc : ltx.accounts id = some acc) (hbalance : acc'.balance = acc.balance)
    (hselling : acc'.selling = acc.selling) (haligned : AlignedAccount acc → AlignedAccount acc') :
    Moves ltx (ltx.putAccount id acc') (accountCounted id acc' - accountCounted id acc)
      (accountOwed id acc' - accountOwed id acc) where
  counted := by
    have h := counted_updateAccount ltx id (some acc')
    rw [hacc] at h
    exact h
  due := by
    have h := due_updateAccount ltx id (some acc')
    rw [hacc] at h
    exact h
  money k := by
    unfold moneyAt putAccount
    by_cases hk : k = id
    · subst hk
      simp [hacc, hbalance, hselling]
    · simp [hk]
  aligned ha := forall_putAccount ha (haligned (ha id acc hacc))
  header := rfl

theorem Recounted.moves (h : Recounted acc acc') (hacc : ltx.accounts id = some acc) :
    Moves ltx (ltx.putAccount id acc') (accountCounted id acc' - accountCounted id acc) 0 := by
  have hmoves := moves_putAccount hacc h.balance h.selling h.aligned
  rwa [h.accountOwed id, sub_self] at hmoves

/-- The three numbers of a tally at an account. -/
def Tally.at (id : AccountID) : Tally →+ Int × Int × Int where
  toFun t := (t.1 id, t.2.1 id, t.2.2 id)
  map_zero' := rfl
  map_add' _ _ := rfl

/-- The three counters under an identifier. -/
def counters : Option AccountEntry → Int × Int × Int
  | none => 0
  | some acc => ((acc.getNumSponsoring.toNat : Int), (acc.getNumSponsored.toNat : Int),
      (acc.numSubEntries.toNat : Int))

/-- The tally of the counters at an account is its counters. -/
theorem at_counted (ltx : Ledger K) (id : AccountID) :
    Tally.at id (counted ltx) = counters (ltx.accounts id) := by
  have hother : ∀ k, k ≠ id →
      Tally.at id (worth (accountCounted k) (ltx.accounts k)) = 0 := by
    intro k hk
    cases ltx.accounts k with
    | none => rfl
    | some acc =>
      simp [Tally.at, worth, accountCounted, sponsoring, sponsored, subEntries, Ne.symm hk]
  rw [counted, total_eq (Tally.at id) _ id hother]
  cases ltx.accounts id with
  | none => rfl
  | some acc =>
    simp [Tally.at, worth, accountCounted, sponsoring, sponsored, subEntries, counters]

section

variable (hacc : ltx.accounts id = some acc)
include hacc

theorem counted_at : Tally.at id (counted ltx)
      = ((acc.getNumSponsoring.toNat : Int), (acc.getNumSponsored.toNat : Int),
        (acc.numSubEntries.toNat : Int)) := by
  rw [at_counted, hacc]
  rfl

/-! ### Counters -/

/-- The sponsor of a signer of the account under an identifier. -/
def signerAt (ltx : Ledger K) (id : AccountID) (n : Nat) : Option AccountID :=
  (ltx.accounts id).bind (signerSponsor · n)

theorem load_putAccount (h : acc'.sponsoringID = acc.sponsoringID) :
    Ledger.load (ltx.putAccount id acc') = ltx.load := by
  funext ref
  cases ref with
  | account k =>
    by_cases hk : k = id
    · subst hk
      simp [Ledger.load, putAccount, hacc, h]
    · simp [Ledger.load, putAccount, hk]
  | entry key => rfl

end

/-- Only counters change, by `c`. -/
structure Counts (ltx ltx' : Ledger K) (c : Tally) : Prop extends Moves ltx ltx' c 0 where
  load : ltx'.load = ltx.load
  signerAt : ∀ id n, signerAt ltx' id n = signerAt ltx id n

theorem Counts.refl (ltx : Ledger K) : Counts ltx ltx 0 :=
  ⟨Moves.refl ltx, rfl, fun _ _ => rfl⟩

variable {c' : Tally} {v2 : AccountEntryExtensionV2} {x m : UInt32} {a b : Int}

theorem Counts.trans (h : Counts ltx ltx' c) (h' : Counts ltx' ltx'' c') :
    Counts ltx ltx'' (c + c') :=
  ⟨(add_zero (0 : Tally)) ▸ h.toMoves.trans h'.toMoves, h'.load.trans h.load,
    fun id n => (h'.signerAt id n).trans (h.signerAt id n)⟩

theorem Moves.counts {d : Tally} (h : Moves ltx ltx' c d) (h' : Counts ltx' ltx'' c') :
    Moves ltx ltx'' (c + c') d := by
  have hmoves := h.trans h'.toMoves
  rwa [add_zero] at hmoves

theorem toNat_add_eq (h : (x.toNat : Int) + m.toNat < 2 ^ 32) :
    ((x + m).toNat : Int) = x.toNat + m.toNat := by
  rw [UInt32.toNat_add, Nat.mod_eq_of_lt (by omega), Nat.cast_add]

theorem toNat_sub_eq (h : (m.toNat : Int) ≤ x.toNat) :
    ((x - m).toNat : Int) = x.toNat + -(m.toNat : Int) := by
  rw [UInt32.toNat_sub_of_le _ _ (UInt32.le_iff_toNat_le.mpr (by omega))]
  omega

/-- A recounted account moves its counters. -/
theorem Recounted.counts (h : Recounted acc acc') (hacc : ltx.accounts id = some acc) {c : Int}
    (ha : (acc'.getNumSponsoring.toNat : Int) = acc.getNumSponsoring.toNat + a)
    (hb : (acc'.getNumSponsored.toNat : Int) = acc.getNumSponsored.toNat + b)
    (hc : (acc'.numSubEntries.toNat : Int) = acc.numSubEntries.toNat + c) :
    Counts ltx (ltx.putAccount id acc') (sponsoring id a + sponsored id b + subEntries id c) := by
  have hcount : accountCounted id acc' - accountCounted id acc
      = sponsoring id a + sponsored id b + subEntries id c := by
    rw [accountCounted, accountCounted, ha, hb, hc, sponsoring_add, sponsored_add, subEntries_add]
    abel
  refine ⟨hcount ▸ h.moves hacc, load_putAccount hacc h.sponsoringID, fun k n => ?_⟩
  by_cases hk : k = id
  · subst hk
    simp [signerAt, putAccount, hacc, h.signerSponsor]
  · simp [signerAt, putAccount, hk]

/-- A change to the counters in the extension. -/
theorem Extended.counts (h : Extended acc acc' v2) (hacc : ltx.accounts id = some acc)
    (f : AccountEntryExtensionV2 → AccountEntryExtensionV2)
    (hf : ∀ v2, (f v2).signerSponsoringIDs = v2.signerSponsoringIDs)
    (ha : ((f v2).numSponsoring.toNat : Int) = v2.numSponsoring.toNat + a)
    (hb : ((f v2).numSponsored.toNat : Int) = v2.numSponsored.toNat + b) :
    Counts ltx (ltx.putAccount id (acc'.modifyExtV2 f)) (sponsoring id a + sponsored id b) := by
  have hcounts := (h.trans (recounted_modifyExtV2 acc' hf)).counts hacc (a := a) (b := b) (c := 0)
    (by simp [getNumSponsoring, extV2_modifyExtV2, h.extV2, ha, h.numSponsoring])
    (by simp [getNumSponsored, extV2_modifyExtV2, h.extV2, hb, h.numSponsored])
    (by simp [modifyExtV2, h.numSubEntries])
  rwa [subEntries_zero, add_zero] at hcounts

section Counters

variable {ltx ltx' : Ledger K} {id : AccountID} {mult : UInt32}

theorem counts_addNumSponsoring (h : ltx.addNumSponsoring id mult = .ok ltx')
    (hwrap : (Tally.at id (counted ltx)).1 + mult.toNat < 2 ^ 32) :
    Counts ltx ltx' (sponsoring id mult.toNat) := by
  obtain ⟨acc, _, hacc, hf, rfl⟩ := modifyAccount_eq_ok.mp h
  cases hf
  obtain ⟨v2, hext⟩ := extended_prepareExtV2 acc
  rw [counted_at hacc, ← hext.numSponsoring] at hwrap
  have hcounts := hext.counts hacc
    (fun v2 => { v2 with numSponsoring := v2.numSponsoring + mult }) (fun _ => rfl) (b := 0)
    (toNat_add_eq hwrap) (add_zero _).symm
  simpa using hcounts

theorem counts_addNumSponsored (h : ltx.addNumSponsored id mult = .ok ltx')
    (hwrap : (Tally.at id (counted ltx)).2.1 + mult.toNat < 2 ^ 32) :
    Counts ltx ltx' (sponsored id mult.toNat) := by
  obtain ⟨acc, _, hacc, hf, rfl⟩ := modifyAccount_eq_ok.mp h
  cases hf
  obtain ⟨v2, hext⟩ := extended_prepareExtV2 acc
  rw [counted_at hacc, ← hext.numSponsored] at hwrap
  have hcounts := hext.counts hacc
    (fun v2 => { v2 with numSponsored := v2.numSponsored + mult }) (fun _ => rfl) (a := 0)
    (add_zero _).symm (toNat_add_eq hwrap)
  simpa using hcounts

theorem counts_subNumSponsoring (h : ltx.subNumSponsoring id mult = .ok ltx')
    (hwrap : (mult.toNat : Int) ≤ (Tally.at id (counted ltx)).1) :
    Counts ltx ltx' (sponsoring id (-(mult.toNat : Int))) := by
  obtain ⟨acc, _, hacc, hf, rfl⟩ := modifyAccount_eq_ok.mp h
  obtain ⟨v2, hv2, hf⟩ := bind_eq_ok.mp hf
  cases hf
  have hext := extended_of_extV2 acc (getAccountEntryExtensionV2_eq_ok.mp hv2)
  rw [counted_at hacc, ← hext.numSponsoring] at hwrap
  have hcounts := hext.counts hacc
    (fun v2 => { v2 with numSponsoring := v2.numSponsoring - mult }) (fun _ => rfl) (b := 0)
    (toNat_sub_eq hwrap) (add_zero _).symm
  simpa using hcounts

theorem counts_subNumSponsored (h : ltx.subNumSponsored id mult = .ok ltx')
    (hwrap : (mult.toNat : Int) ≤ (Tally.at id (counted ltx)).2.1) :
    Counts ltx ltx' (sponsored id (-(mult.toNat : Int))) := by
  obtain ⟨acc, _, hacc, hf, rfl⟩ := modifyAccount_eq_ok.mp h
  obtain ⟨v2, hv2, hf⟩ := bind_eq_ok.mp hf
  cases hf
  have hext := extended_of_extV2 acc (getAccountEntryExtensionV2_eq_ok.mp hv2)
  rw [counted_at hacc, ← hext.numSponsored] at hwrap
  have hcounts := hext.counts hacc
    (fun v2 => { v2 with numSponsored := v2.numSponsored - mult }) (fun _ => rfl) (a := 0)
    (add_zero _).symm (toNat_sub_eq hwrap)
  simpa using hcounts

/-- The counter of sub-entries is no part of the extension. -/
theorem counts_numSubEntries (hacc : ltx.accounts id = some acc) {n : UInt32} {c : Int}
    (hc : (n.toNat : Int) = acc.numSubEntries.toNat + c) :
    Counts ltx (ltx.putAccount id { acc with numSubEntries := n }) (subEntries id c) := by
  have hsame : Recounted acc { acc with numSubEntries := n } :=
    ⟨rfl, rfl, fun _ => rfl, fun _ => rfl, fun h => h, rfl, rfl⟩
  have hcounts := hsame.counts hacc (a := 0) (b := 0) (add_zero _).symm (add_zero _).symm hc
  simpa using hcounts

theorem counts_addNumSubEntries (h : ltx.addNumSubEntries id mult = .ok ltx')
    (hwrap : (Tally.at id (counted ltx)).2.2 + mult.toNat < 2 ^ 32) :
    Counts ltx ltx' (subEntries id mult.toNat) := by
  obtain ⟨acc, _, hacc, hf, rfl⟩ := modifyAccount_eq_ok.mp h
  cases hf
  rw [counted_at hacc] at hwrap
  exact counts_numSubEntries hacc (toNat_add_eq hwrap)

theorem counts_subNumSubEntries (h : ltx.subNumSubEntries id mult = .ok ltx')
    (hwrap : (mult.toNat : Int) ≤ (Tally.at id (counted ltx)).2.2) :
    Counts ltx ltx' (subEntries id (-(mult.toNat : Int))) := by
  obtain ⟨acc, _, hacc, hf, rfl⟩ := modifyAccount_eq_ok.mp h
  cases hf
  rw [counted_at hacc] at hwrap
  exact counts_numSubEntries hacc (toNat_sub_eq hwrap)

end Counters

/-! ### Reserves -/

/-- The entries to keep a reserve for, of the tally at an account. -/
def weight (id : AccountID) : Tally →+ Int where
  toFun t := (Tally.at id t).2.2 + (Tally.at id t).1 - (Tally.at id t).2.1
  map_zero' := rfl
  map_add' s t := by
    simp only [map_add, Prod.fst_add, Prod.snd_add]
    omega

theorem weight_apply (id : AccountID) (t : Tally) :
    weight id t = (Tally.at id t).2.2 + (Tally.at id t).1 - (Tally.at id t).2.1 := rfl

theorem eff_eq (hacc : ltx.accounts id = some acc) : eff acc = 2 + weight id (counted ltx) := by
  simp only [weight_apply, counted_at hacc, eff]
  omega

theorem ofInt_toNat (v : UInt32) : Int64.ofInt v.toNat = v.toUInt64.toInt64 := by
  rw [← toInt_ofUInt32, Int64.ofInt_toInt]

section Available

variable {lh : LedgerHeader} {acc : AccountEntry}
  (hv : lh.StartsFrom 14)
include hv

theorem effEntries_eq :
    acc.effEntries lh = eff acc := by
  unfold effEntries sponsorships eff getNumSponsoring
    getNumSponsored
  cases acc.extV2 with
  | none => rfl
  | some v2 => simp [hv]

theorem getMinBalance_eq_counts :
    getMinBalance lh acc
      = getMinBalanceOf lh acc.numSubEntries acc.getNumSponsoring acc.getNumSponsored := by
  unfold getMinBalance getNumSponsoring getNumSponsored
  cases acc.extV2 with
  | none => rfl
  | some v2 => simp [hv]

/-- From protocol 14 on, the minimum balance is a product in 64 bits. -/
theorem getMinBalance_eq_ofInt :
    getMinBalance lh acc
      = if eff acc < 0 then .error "unexpected account state"
        else .ok (Int64.ofInt (eff acc * lh.baseReserve.toNat)) := by
  have h1 := acc.numSubEntries.toNat_lt
  have h2 := acc.getNumSponsoring.toNat_lt
  have h3 := acc.getNumSponsored.toNat_lt
  have hsum : 2 + acc.numSubEntries.toUInt64.toInt64 + acc.getNumSponsoring.toUInt64.toInt64
      - acc.getNumSponsored.toUInt64.toInt64 = Int64.ofInt (eff acc) := by
    rw [eff, Int64.ofInt_sub, Int64.ofInt_add, Int64.ofInt_add, ofInt_toNat, ofInt_toNat,
      ofInt_toNat]
    rfl
  have hneg : Int64.ofInt (eff acc) < 0 ↔ eff acc < 0 := by
    rw [Int64.lt_iff_toInt_lt, Int64.toInt_ofInt_of_le (by unfold eff; omega)
      (by unfold eff; omega), Int64.toInt_zero]
  simp only [getMinBalance_eq_counts hv, getMinBalanceOf, not_protocolVersionIsBefore le_rfl hv,
    not_protocolVersionIsBefore (by decide : 9 ≤ 14) hv, Bool.false_and, Bool.false_eq_true,
    if_false, hsum, hneg, Int64.ofInt_mul, ofInt_toNat]
  rfl

/-- What is left of the balance, as a number that may be out of range. -/
def leftOver (lh : LedgerHeader) (acc : AccountEntry) : Int :=
  acc.balance.toInt - eff acc * lh.baseReserve.toNat - acc.selling.toInt

theorem getAvailableBalance_eq_ofInt :
    getAvailableBalance lh acc
      = if eff acc < 0 then .error "unexpected account state"
        else .ok (Int64.ofInt (leftOver lh acc)) := by
  have hselling : getSellingLiabilities lh acc = .ok acc.selling := by
    simp only [getSellingLiabilities, not_protocolVersionIsBefore (by decide : 10 ≤ 14) hv,
      Bool.false_eq_true, if_false]
    rfl
  simp only [getAvailableBalance, getMinBalance_eq_ofInt hv, hselling,
    protocolVersionStartsFrom_of_le (by decide : 10 ≤ 14) hv, if_true]
  split_ifs with heff
  · rfl
  · rw [leftOver, Int64.ofInt_sub, Int64.ofInt_sub, Int64.ofInt_toInt, Int64.ofInt_toInt]
    rfl

omit hv in
theorem toInt_reserveOf {mult : UInt32} (hmult : mult.toNat ≤ 10) :
    (reserveOf lh mult).toInt = mult.toNat * lh.baseReserve.toNat := by
  have hbase := lh.baseReserve.toNat_lt
  have hle : (mult.toNat : Int) * lh.baseReserve.toNat ≤ 10 * lh.baseReserve.toNat :=
    Int.mul_le_mul_of_nonneg_right (by omega) (by omega)
  have hnonneg := Int.mul_nonneg (Int.natCast_nonneg mult.toNat)
    (Int.natCast_nonneg lh.baseReserve.toNat)
  rw [reserveOf, toInt_mul] <;> rw [toInt_ofUInt32, toInt_ofUInt32]
  exact ⟨by omega, by omega⟩

/-- An account that passed the check for `mult` more entries can keep the reserve
for them, whatever the numbers. -/
theorem getAvailableBalance_of_check {avail : Int64} {mult : UInt32} (hmult : mult.toNat ≤ 10)
    (havail : getAvailableBalance lh acc = .ok avail) (hcheck : ¬avail < reserveOf lh mult)
    (hbalance : acc'.balance = acc.balance) (hselling : acc'.selling = acc.selling)
    (heff : eff acc' = eff acc + mult.toNat) :
    ∃ left, getAvailableBalance lh acc' = .ok left ∧ 0 ≤ left := by
  rw [getAvailableBalance_eq_ofInt hv] at havail ⊢
  split_ifs at havail with hneg
  cases havail
  rw [if_neg (by omega)]
  refine ⟨_, rfl, ?_⟩
  have hres : (reserveOf lh mult).toInt = _ := toInt_reserveOf hmult
  have hnonneg := Int.mul_nonneg (Int.natCast_nonneg mult.toNat)
    (Int.natCast_nonneg lh.baseReserve.toNat)
  rw [Int64.lt_iff_toInt_lt] at hcheck
  have hleft : Int64.ofInt (leftOver lh acc')
      = Int64.ofInt (leftOver lh acc) - reserveOf lh mult := by
    rw [← Int64.ofInt_toInt (reserveOf lh mult), ← Int64.ofInt_sub, hres, leftOver, leftOver,
      hbalance, hselling, heff]
    congr 1
    ring
  have hhigh := (inRange_toInt (Int64.ofInt (leftOver lh acc))).2
  rw [Int64.le_iff_toInt_le, hleft, toInt_sub ⟨by omega, by omega⟩, Int64.toInt_zero]
  omega

theorem reserve_eq : acc.reserve lh = eff acc * lh.baseReserve.toNat := by
  rw [AccountEntry.reserve, effEntries_eq hv]

end Available

/-- The reserve required of an account, and of none nothing. -/
def reserveAt (ltx : Ledger K) (id : AccountID) : Int :=
  ((ltx.accounts id).map (·.reserve ltx.header)).getD 0

/-- Every account whose required reserve is larger than before can keep it. -/
def Covered (ltx ltx' : Ledger K) : Prop :=
  ∀ id acc, ltx'.accounts id = some acc → reserveAt ltx id < acc.reserve ltx'.header →
    ∃ left, getAvailableBalance ltx'.header acc = .ok left ∧ 0 ≤ left

/-- The account passed the check for `n` more entries. -/
def Backed (ltx : Ledger K) (id : AccountID) (n : Int) : Prop :=
  ∃ acc avail, ∃ mult : UInt32, ltx.accounts id = some acc
    ∧ getAvailableBalance ltx.header acc = .ok avail ∧ mult.toNat ≤ 10 ∧ (mult.toNat : Int) = n
    ∧ ¬avail < reserveOf ltx.header mult

/-- Who can pay for some entries can pay for fewer. -/
theorem Backed.mono {m n : Int} (h : Backed ltx id n) (hm : 0 ≤ m) (hle : m ≤ n) :
    Backed ltx id m := by
  obtain ⟨acc, avail, mult, hacc, havail, hmult, rfl, hcheck⟩ := h
  have hval : (UInt32.ofNat m.toNat).toNat = m.toNat :=
    UInt32.toNat_ofNat_of_lt' (show _ < 2 ^ 32 by omega)
  refine ⟨acc, avail, UInt32.ofNat m.toNat, hacc, havail, by omega, by omega, ?_⟩
  rw [Int64.lt_iff_toInt_lt, toInt_reserveOf hmult] at hcheck
  rw [Int64.lt_iff_toInt_lt, toInt_reserveOf (by omega), hval, Int.toNat_of_nonneg hm]
  have hless := Int.mul_le_mul_of_nonneg_right hle (Int.natCast_nonneg ltx.header.baseReserve.toNat)
  omega

/-- Only `s` has to keep more, and it passed the check for as much. -/
theorem Backed.all {s : AccountID} {n : Int} (h : Backed ltx s n)
    (hweight : ∀ id, weight id c ≤ if id = s then n else 0) :
    ∀ id, 0 < weight id c → Backed ltx id (weight id c) := by
  intro id hpos
  have hle := hweight id
  split_ifs at hle with hid
  · exact (hid ▸ h).mono (hpos.le) hle
  · omega

section Cover

variable {ltx ltx' : Ledger K} {c d : Tally} (h : Moves ltx ltx' c d) {id : AccountID}
include h

theorem Moves.account (hacc' : ltx'.accounts id = some acc') :
    ∃ acc, ltx.accounts id = some acc ∧ acc'.balance = acc.balance ∧ acc'.selling = acc.selling
      ∧ eff acc' = eff acc + weight id c := by
  have hmoney := h.money id
  rw [moneyAt, hacc'] at hmoney
  obtain ⟨acc, hacc, heq⟩ := Option.map_eq_some_iff.mp hmoney.symm
  obtain ⟨hbalance, hselling⟩ := Prod.mk.inj heq
  refine ⟨acc, hacc, hbalance.symm, hselling.symm, ?_⟩
  rw [eff_eq hacc', eff_eq hacc, h.counted, map_add]
  omega

variable (hv : ltx.header.StartsFrom 14)
include hv

theorem Moves.reserveAt (hacc' : ltx'.accounts id = some acc') :
    acc'.reserve ltx'.header
      = Sponsorship.reserveAt ltx id + weight id c * ltx.header.baseReserve.toNat := by
  obtain ⟨acc, hacc, -, -, heff⟩ := h.account hacc'
  rw [h.header, reserve_eq hv, heff, Sponsorship.reserveAt, hacc, Option.map_some,
    Option.getD_some, reserve_eq hv]
  ring

theorem Moves.left_of_backed (hbacked : Backed ltx id (weight id c))
    (hacc' : ltx'.accounts id = some acc') :
    ∃ left, getAvailableBalance ltx'.header acc' = .ok left ∧ 0 ≤ left := by
  obtain ⟨acc, hacc, hbalance, hselling, heff⟩ := h.account hacc'
  obtain ⟨acc₀, avail, mult, hacc₀, havail, hmult, hn, hcheck⟩ := hbacked
  obtain rfl := Option.mem_unique hacc hacc₀
  rw [h.header]
  exact getAvailableBalance_of_check hv hmult havail hcheck hbalance hselling (hn ▸ heff)

theorem Moves.left_nonneg (hbacked : 0 < weight id c → Backed ltx id (weight id c))
    (hacc' : ltx'.accounts id = some acc')
    (hlt : Sponsorship.reserveAt ltx id < acc'.reserve ltx'.header) :
    ∃ left, getAvailableBalance ltx'.header acc' = .ok left ∧ 0 ≤ left := by
  rw [h.reserveAt hv hacc'] at hlt
  have hprod : 0 < weight id c * ltx.header.baseReserve.toNat := by omega
  have hweight : 0 < weight id c := pos_of_mul_pos_left hprod (Int.natCast_nonneg _)
  exact h.left_of_backed hv (hbacked hweight) hacc'

theorem Moves.covered
    (hbacked : ∀ id, 0 < weight id c → Backed ltx id (weight id c)) : Covered ltx ltx' :=
  fun id _ => h.left_nonneg hv (hbacked id)

end Cover

/-! ## Entries -/

@[simp] theorem at_sponsoring (id k : AccountID) (n : Int) :
    Tally.at id (sponsoring k n) = (if id = k then n else 0, 0, 0) := by
  simp [Tally.at, sponsoring, Pi.single_apply]

@[simp] theorem at_sponsored (id k : AccountID) (n : Int) :
    Tally.at id (sponsored k n) = (0, if id = k then n else 0, 0) := by
  simp [Tally.at, sponsored, Pi.single_apply]

@[simp] theorem at_subEntries (id k : AccountID) (n : Int) :
    Tally.at id (subEntries k n) = (0, 0, if id = k then n else 0) := by
  simp [Tally.at, subEntries, Pi.single_apply]

namespace LedgerEntry

/-- What the entry counts for its sponsored account. -/
def forSponsored (le : LedgerEntry) : Tally :=
  worth (fun id => sponsored id le.computeMultiplier.toNat) le.sponsoredID

/-- What the entry amounts to when `id` sponsors it. -/
def bySponsor (le : LedgerEntry) (id : AccountID) : Tally :=
  sponsoring id le.computeMultiplier.toNat + le.forSponsored

def asSubentry (le : LedgerEntry) : Tally :=
  if le.isSubentry then subEntries le.accountID le.computeMultiplier.toNat else 0

theorem owed_eq (le : LedgerEntry) :
    le.owed = worth le.bySponsor le.sponsoringID + le.asSubentry := by
  unfold owed asSubentry bySponsor forSponsored sponsoredID sponsorship
  cases hcb : le.isClaimableBalance <;> cases le.sponsoringID <;> simp [worth]

theorem owed_setSponsor (le : LedgerEntry) (s : Option AccountID) :
    { le with sponsoringID := s }.owed - le.owed
      = worth le.bySponsor s - worth le.bySponsor le.sponsoringID := by
  rw [owed_eq, owed_eq, add_sub_add_comm]
  exact (congrArg _ (sub_self _)).trans (add_zero _)

/-- What is no account and no claimable balance is a sub-entry. -/
theorem isSubentry_of_not (hacc : ¬le.isAccount = true) (hbalance : ¬le.isClaimableBalance = true) :
    le.isSubentry = true := by
  unfold isAccount at hacc
  unfold isClaimableBalance at hbalance
  unfold isSubentry
  cases hdata : le.data with
  | account => simp [hdata] at hacc
  | other kind => cases kind <;> simp_all [EntryKind.isSubentry]

@[simp] theorem at_asSubentry (id : AccountID) (le : LedgerEntry) :
    Tally.at id le.asSubentry
      = (0, 0, if le.isSubentry ∧ id = le.accountID then (le.computeMultiplier.toNat : Int)
        else 0) := by
  unfold asSubentry
  by_cases hsub : le.isSubentry = true
  · simp [hsub]
  · simp [hsub]
    rfl

@[simp] theorem at_forSponsored (id : AccountID) (le : LedgerEntry) :
    Tally.at id le.forSponsored
      = (0, if le.sponsoredID = some id then (le.computeMultiplier.toNat : Int) else 0, 0) := by
  unfold forSponsored
  cases le.sponsoredID with
  | none => rfl
  | some k => simp [worth, eq_comm]

theorem weight_bySponsor (id : AccountID) (le : LedgerEntry) (s : AccountID) :
    weight id (le.bySponsor s)
      = (if id = s then (le.computeMultiplier.toNat : Int) else 0)
        - if le.sponsoredID = some id then (le.computeMultiplier.toNat : Int) else 0 := by
  simp [weight_apply, bySponsor]

theorem weight_asSubentry (id : AccountID) (le : LedgerEntry) :
    weight id le.asSubentry
      = if le.isSubentry ∧ id = le.accountID then (le.computeMultiplier.toNat : Int) else 0 := by
  simp [weight_apply]

/-- The owner of a sponsored sub-entry pays nothing for it. -/
theorem weight_created (hacc : ¬le.isAccount = true) (id s : AccountID) :
    weight id (le.asSubentry + le.bySponsor s)
      = if id = s then (le.computeMultiplier.toNat : Int) else 0 := by
  rw [map_add, weight_asSubentry, weight_bySponsor, sponsoredID]
  by_cases hbalance : le.isClaimableBalance = true
  · have hsub : ¬le.isSubentry = true := by
      rcases le with ⟨_ | _ | _ | _ | _, _, _⟩ <;> simp_all [isClaimableBalance, isSubentry,
        EntryKind.isSubentry]
    simp [hbalance, hsub]
  · simp only [isSubentry_of_not hacc hbalance, hbalance, true_and, Bool.false_eq_true, if_false,
      Option.some.injEq, eq_comm (a := id)]
    omega

theorem computeMultiplier_le (le : LedgerEntry) : le.computeMultiplier.toNat ≤ 10 := by
  have hother : ∀ kind : EntryKind, kind.multiplier.toNat ≤ 10 := by
    intro kind
    cases kind with
    | trustLine isPoolShare => cases isPoolShare <;> decide
    | offer => decide
    | data => decide
    | claimableBalance n => revert n; decide
  unfold computeMultiplier
  cases le.data with
  | account => decide
  | other kind => exact hother kind

/-- What has no owner is no sub-entry. -/
theorem worth_asSubentry (le : LedgerEntry) :
    worth (fun _ => le.asSubentry) le.sponsoredID = le.asSubentry := by
  rcases le with ⟨_ | _ | _ | _ | _, _, _⟩ <;> rfl

end LedgerEntry

theorem accountOwed_setSponsor (id : AccountID) (acc : AccountEntry) (s : Option AccountID) :
    accountOwed id { acc with sponsoringID := s } - accountOwed id acc
      = worth (bySponsor ⟨.account, id, acc.sponsoringID⟩) s
        - worth (bySponsor ⟨.account, id, acc.sponsoringID⟩) acc.sponsoringID := by
  have hone : ∀ s, worth (bySponsor ⟨.account, id, acc.sponsoringID⟩) s
      = sponsorship s id 2 := by
    intro s
    cases s <;> rfl
  rw [hone, hone]
  unfold accountOwed signerIDs AccountEntry.extV2
  abel

section SetSponsor

variable [Finite K] [DecidableEq K] {ltx : Ledger K}

theorem moves_putEntry (ltx : Ledger K) (key : K) (e : Option OtherEntry) :
    Moves ltx (ltx.putEntry key e) 0
      (worth OtherEntry.owed e - worth OtherEntry.owed (ltx.others key)) where
  counted := (add_zero _).symm
  due := due_putEntry ltx key e
  money _ := rfl
  aligned h := h
  header := rfl

theorem moves_setSponsoringID {ref : EntryRef K} (hload : ltx.load ref = some le)
    (s : Option AccountID) :
    Moves ltx (ltx.setSponsoringID ref s) 0
      (worth le.bySponsor s - worth le.bySponsor le.sponsoringID) := by
  cases ref with
  | account id =>
    obtain ⟨acc, hacc, rfl⟩ := Option.map_eq_some_iff.mp hload
    have hmoves : Moves ltx (ltx.putAccount id { acc with sponsoringID := s }) _ _ :=
      moves_putAccount hacc rfl rfl fun h => h
    rw [accountOwed_setSponsor] at hmoves
    simp only [Ledger.setSponsoringID, hacc, Option.map_some]
    exact (sub_self (accountCounted id acc)) ▸ hmoves
  | entry key =>
    obtain ⟨e, he, rfl⟩ := Option.map_eq_some_iff.mp hload
    have hmoves := moves_putEntry ltx key (some { e with sponsoringID := s })
    rw [he] at hmoves
    rw [← owed_setSponsor]
    simp only [Ledger.setSponsoringID, he, Option.map_some]
    exact hmoves

omit [Finite K] in
theorem load_setSponsoringID {ref : EntryRef K} (hload : ltx.load ref = some le)
    (s : Option AccountID) :
    (ltx.setSponsoringID ref s).load
      = update ltx.load ref (some { le with sponsoringID := s }) := by
  funext ref'
  by_cases hsame : ref' = ref
  · subst hsame
    cases ref' with
    | account id =>
      obtain ⟨acc, hacc, rfl⟩ := Option.map_eq_some_iff.mp hload
      simp [Ledger.setSponsoringID, Ledger.load, hacc]
    | entry key =>
      obtain ⟨e, he, rfl⟩ := Option.map_eq_some_iff.mp hload
      simp [Ledger.setSponsoringID, Ledger.putEntry, Ledger.load, he]
  · cases ref <;> cases ref' <;>
      simp_all [Ledger.setSponsoringID, Ledger.putEntry, Ledger.load]

end SetSponsor

theorem counts_forSponsored {sponsored : Option AccountID}
    {f : Ledger K → AccountID → Except String (Ledger K)} {g : AccountID → Tally}
    (h : ltx.forSponsored sponsored f = .ok ltx')
    (hf : ∀ id ∈ sponsored, f ltx id = .ok ltx' → Counts ltx ltx' (g id)) :
    Counts ltx ltx' (worth g sponsored) := by
  cases sponsored with
  | none =>
    cases h
    exact Counts.refl _
  | some id => exact hf id rfl h

/-- The counters of a sponsor, and of the account whose entry it sponsors, have room for
`mult` more. -/
structure Room (ltx : Ledger K) (s : AccountID) (o : Option AccountID) (mult : UInt32) : Prop where
  sponsoring : (Tally.at s (counted ltx)).1 + mult.toNat < 2 ^ 32
  sponsored : ∀ id ∈ o, (Tally.at id (counted ltx)).2.1 + mult.toNat < 2 ^ 32

/-- The counters are at least `mult`. -/
structure Enough (ltx : Ledger K) (s : AccountID) (o : Option AccountID) (mult : UInt32) :
    Prop where
  sponsoring : (mult.toNat : Int) ≤ (Tally.at s (counted ltx)).1
  sponsored : ∀ id ∈ o, (mult.toNat : Int) ≤ (Tally.at id (counted ltx)).2.1

section Entries

variable [Finite K] [DecidableEq K] {ltx ltx' : Ledger K} {ref : EntryRef K} {le : LedgerEntry}
  {s t : AccountID} (hload : ltx.load ref = some le)
include hload

theorem moves_establishEntrySponsorship
    (h : ltx.establishEntrySponsorship ref le s le.sponsoredID = .ok ltx')
    (hroom : Room ltx s le.sponsoredID le.computeMultiplier) :
    Moves ltx ltx' (le.bySponsor s) (le.bySponsor s - worth le.bySponsor le.sponsoringID)
      ∧ ltx'.load = update ltx.load ref (some { le with sponsoringID := some s }) := by
  obtain ⟨ltx₁, h₁, h₂⟩ := bind_eq_ok.mp h
  have hset := moves_setSponsoringID hload (some s)
  have hadd := counts_addNumSponsoring h₁ (by simpa [hset.counted] using hroom.sponsoring)
  have hfor := counts_forSponsored h₂ fun id hid h₃ =>
    counts_addNumSponsored h₃ (by simpa [hadd.counted, hset.counted] using hroom.sponsored id hid)
  refine ⟨?_, (hfor.load.trans hadd.load).trans (load_setSponsoringID hload _)⟩
  have hmoves := hset.counts (hadd.trans hfor)
  rwa [zero_add] at hmoves

theorem moves_removeEntrySponsorship
    (h : ltx.removeEntrySponsorship ref le s le.sponsoredID = .ok ltx')
    (henough : Enough ltx s le.sponsoredID le.computeMultiplier) :
    Moves ltx ltx' (-le.bySponsor s) (-le.bySponsor s)
      ∧ ltx'.load = update ltx.load ref (some { le with sponsoringID := none }) := by
  obtain ⟨_, hsponsor, h⟩ := bind_eq_ok.mp h
  obtain ⟨ltx₁, h₁, h₂⟩ := bind_eq_ok.mp h
  have hset := moves_setSponsoringID hload none
  have hsub := counts_subNumSponsoring h₁ (by simpa [hset.counted] using henough.sponsoring)
  have hfor := counts_forSponsored h₂ fun id hid h₃ =>
    counts_subNumSponsored h₃ (by simpa [hsub.counted, hset.counted] using henough.sponsored id hid)
  refine ⟨?_, (hfor.load.trans hsub.load).trans (load_setSponsoringID hload _)⟩
  have hmoves := hset.counts (hsub.trans hfor)
  have hcount : 0 + (sponsoring s (-(le.computeMultiplier.toNat : Int))
      + worth (fun id => sponsored id (-(le.computeMultiplier.toNat : Int))) le.sponsoredID)
        = -le.bySponsor s := by
    unfold bySponsor forSponsored
    cases le.sponsoredID <;> simp [worth, add_comm]
  have hdue : worth le.bySponsor none - worth le.bySponsor le.sponsoringID = -le.bySponsor s := by
    rw [accountIsSponsor_eq_ok.mp hsponsor]
    exact zero_sub _
  rwa [hcount, hdue] at hmoves

theorem moves_transferEntrySponsorship (h : ltx.transferEntrySponsorship ref le s t = .ok ltx')
    (hroom : Room ltx t none le.computeMultiplier)
    (henough : Enough ltx s none le.computeMultiplier) :
    Moves ltx ltx' (le.bySponsor t - le.bySponsor s) (le.bySponsor t - le.bySponsor s)
      ∧ ltx'.load = update ltx.load ref (some { le with sponsoringID := some t }) := by
  obtain ⟨_, hsponsor, h⟩ := bind_eq_ok.mp h
  obtain ⟨ltx₁, h₁, h₂⟩ := bind_eq_ok.mp h
  have hset := moves_setSponsoringID hload (some t)
  have hnew := counts_addNumSponsoring h₁ (by simpa [hset.counted] using hroom.sponsoring)
  have hsub := henough.sponsoring
  have hold := counts_subNumSponsoring h₂ (by
    rw [hnew.counted, hset.counted]
    simp only [map_add, map_zero, at_sponsoring, Prod.fst_add, Prod.fst_zero]
    split_ifs <;> omega)
  refine ⟨?_, (hold.load.trans hnew.load).trans (load_setSponsoringID hload _)⟩
  have hmoves := hset.counts (hnew.trans hold)
  have hcount : 0 + (sponsoring t le.computeMultiplier.toNat
      + sponsoring s (-(le.computeMultiplier.toNat : Int))) = le.bySponsor t - le.bySponsor s := by
    unfold bySponsor
    rw [sponsoring_neg]
    abel
  rw [accountIsSponsor_eq_ok.mp hsponsor, hcount] at hmoves
  exact hmoves

end Entries

section Others

variable {ltx ltx' : Ledger K} {le : LedgerEntry} {s : AccountID}

theorem counts_createEntryWithoutSponsorship
    (h : ltx.createEntryWithoutSponsorship le id = .ok ltx') (hid : le.sponsoredID = some id)
    (hwrap : le.isSubentry →
      (Tally.at id (counted ltx)).2.2 + le.computeMultiplier.toNat < 2 ^ 32) :
    Counts ltx ltx' le.asSubentry := by
  unfold Ledger.createEntryWithoutSponsorship at h
  unfold asSubentry
  split_ifs at h ⊢ with hsub
  · unfold sponsoredID at hid
    split_ifs at hid
    cases hid
    exact counts_addNumSubEntries h (hwrap hsub)
  · cases h
    exact Counts.refl _

theorem counts_removeEntryWithoutSponsorship (hother : ¬le.isAccount = true)
    (h : ltx.removeEntryWithoutSponsorship le id = .ok ltx') (hid : le.sponsoredID = some id)
    (hwrap : (le.computeMultiplier.toNat : Int) ≤ (Tally.at id (counted ltx)).2.2) :
    Counts ltx ltx' (-le.asSubentry) := by
  unfold sponsoredID at hid
  split_ifs at hid with hbalance
  cases hid
  rw [asSubentry, if_pos (isSubentry_of_not hother hbalance), ← subEntries_neg]
  exact counts_subNumSubEntries h hwrap

variable [Finite K] [DecidableEq K] {key : K} (hload : ltx.load (.entry key) = some le)
include hload

omit [Finite K] [DecidableEq K] in
theorem not_isAccount_of_load : ¬le.isAccount = true := by
  obtain ⟨e, -, rfl⟩ := Option.map_eq_some_iff.mp hload
  simp [isAccount]

theorem moves_createEntryWithSponsorship
    (h : ltx.createEntryWithSponsorship key le s le.sponsoredID = .ok ltx')
    (hroom : Room ltx s le.sponsoredID le.computeMultiplier)
    (hsub : ∀ id ∈ le.sponsoredID, le.isSubentry →
      (Tally.at id (counted ltx)).2.2 + le.computeMultiplier.toNat < 2 ^ 32) :
    Moves ltx ltx' (le.asSubentry + le.bySponsor s)
        (le.bySponsor s - worth le.bySponsor le.sponsoringID)
      ∧ ltx'.load = update ltx.load (.entry key) (some { le with sponsoringID := some s }) := by
  obtain ⟨ltx₁, h₁, h₂⟩ := bind_eq_ok.mp h
  have hcreate := counts_forSponsored h₁ fun id hid h₃ =>
    counts_createEntryWithoutSponsorship h₃ hid (hsub id hid)
  rw [worth_asSubentry] at hcreate
  obtain ⟨hmoves, hload'⟩ := moves_establishEntrySponsorship (hcreate.load ▸ hload) h₂
    ⟨by simpa [hcreate.counted] using hroom.sponsoring,
      fun id hid => by simpa [hcreate.counted] using hroom.sponsored id hid⟩
  refine ⟨?_, hcreate.load ▸ hload'⟩
  have hall := hcreate.toMoves.trans hmoves
  rwa [zero_add] at hall

theorem moves_removeEntryWithSponsorship
    (h : ltx.removeEntryWithSponsorship key le s le.sponsoredID = .ok ltx')
    (henough : Enough ltx s le.sponsoredID le.computeMultiplier)
    (hsub : ∀ id ∈ le.sponsoredID,
      (le.computeMultiplier.toNat : Int) ≤ (Tally.at id (counted ltx)).2.2) :
    Moves ltx ltx' (-le.asSubentry - le.bySponsor s) (-le.bySponsor s)
      ∧ ltx'.load = update ltx.load (.entry key) (some { le with sponsoringID := none }) := by
  obtain ⟨ltx₁, h₁, h₂⟩ := bind_eq_ok.mp h
  have hremove := counts_forSponsored h₁ fun id hid h₃ =>
    counts_removeEntryWithoutSponsorship (not_isAccount_of_load hload) h₃ hid (hsub id hid)
  have hsubentry : worth (fun _ => -le.asSubentry) le.sponsoredID = -le.asSubentry := by
    have hworth := le.worth_asSubentry
    cases hid : le.sponsoredID with
    | none =>
      rw [hid] at hworth
      exact hworth ▸ neg_zero.symm
    | some id => rfl
  rw [hsubentry] at hremove
  obtain ⟨hmoves, hload'⟩ := moves_removeEntrySponsorship (hremove.load ▸ hload) h₂
    ⟨by simpa [hremove.counted] using henough.sponsoring,
      fun id hid => by simpa [hremove.counted] using henough.sponsored id hid⟩
  refine ⟨?_, hremove.load ▸ hload'⟩
  have hall := hremove.toMoves.trans hmoves
  rwa [zero_add] at hall

end Others

/-! ## Checks -/

section Checks

variable {lh : LedgerHeader} {acc : AccountEntry} {sponsoredAcc : Option AccountEntry}
  {mult : UInt32}

theorem room_of_not_lt {x : UInt32} (hmult : mult.toNat ≤ 10) (h : ¬0xffffffff - mult < x) :
    (x.toNat : Int) + mult.toNat < 2 ^ 32 := by
  have hmax : (0xffffffff : UInt32).toNat = 2 ^ 32 - 1 := rfl
  rw [UInt32.lt_iff_toNat_lt, UInt32.toNat_sub_of_le _ _ (UInt32.le_iff_toNat_le.mpr (by omega))]
    at h
  omega

/-- An account has the means to pay for `mult` more entries. -/
def CanPay (lh : LedgerHeader) (acc : AccountEntry) (mult : UInt32) : Prop :=
  ∃ avail, getAvailableBalance lh acc = .ok avail ∧ ¬avail < reserveOf lh mult

variable {ltx : Ledger K} {s t : AccountID} (hacc : ltx.accounts s = some acc)
  (hmult : mult.toNat ≤ 10)
include hacc hmult

theorem CanPay.backed (h : CanPay ltx.header acc mult) : Backed ltx s mult.toNat := by
  obtain ⟨avail, havail, hcheck⟩ := h
  exact ⟨acc, avail, mult, hacc, havail, hmult, rfl, hcheck⟩

variable {o : Option AccountID}

section

variable (hload : ∀ id ∈ o, ∃ acc' ∈ sponsoredAcc, ltx.accounts id = some acc')
include hload

/-- The new sponsor can pay, and the counters do not wrap around. -/
theorem canEstablishSponsorshipHelper_eq_success
    (h : canEstablishSponsorshipHelper ltx.header acc mult sponsoredAcc = .ok .SUCCESS) :
    Backed ltx s mult.toNat ∧ Room ltx s o mult := by
  obtain ⟨avail, havail, h⟩ := bind_eq_ok.mp h
  split_ifs at h with hreserve hsponsoring hsponsored
  · cases h
  · cases h
  · cases h
  · refine ⟨CanPay.backed hacc hmult ⟨avail, havail, hreserve⟩, ?_, ?_⟩
    · rw [tooManySponsoring, Bool.or_eq_true, not_or, decide_eq_true_eq] at hsponsoring
      rw [counted_at hacc]
      exact room_of_not_lt hmult hsponsoring.1
    · intro id hid
      obtain ⟨acc', rfl, hacc'⟩ := hload id hid
      rw [Option.any_some, decide_eq_true_eq] at hsponsored
      rw [counted_at hacc']
      exact room_of_not_lt hmult hsponsored

/-- The counters are large enough, and the owner can pay. -/
theorem canRemoveSponsorshipHelper_eq_success
    (h : canRemoveSponsorshipHelper ltx.header acc sponsoredAcc mult = .ok .SUCCESS) :
    Enough ltx s o mult ∧ ∀ id ∈ o, Backed ltx id mult.toNat := by
  unfold canRemoveSponsorshipHelper at h
  split_ifs at h with hsponsoring
  suffices howner : ∀ id ∈ o,
      (mult.toNat : Int) ≤ (Tally.at id (counted ltx)).2.1 ∧ Backed ltx id mult.toNat by
    refine ⟨⟨?_, fun id hid => (howner id hid).1⟩, fun id hid => (howner id hid).2⟩
    rw [counted_at hacc]
    exact Int.ofNat_le.mpr (Nat.le_of_not_lt hsponsoring)
  intro id hid
  obtain ⟨acc', rfl, hacc'⟩ := hload id hid
  simp only at h
  split_ifs at h with hsponsored
  obtain ⟨avail, havail, h⟩ := bind_eq_ok.mp h
  split_ifs at h with hreserve
  · cases h
  · rw [counted_at hacc']
    exact ⟨Int.ofNat_le.mpr (Nat.le_of_not_lt hsponsored),
      CanPay.backed hacc' hmult ⟨avail, havail, hreserve⟩⟩

end

theorem canTransferSponsorshipHelper_eq_success (hacc' : ltx.accounts t = some acc')
    (h : canTransferSponsorshipHelper ltx.header acc acc' mult = .ok .SUCCESS) :
    Enough ltx s none mult ∧ Backed ltx t mult.toNat ∧ Room ltx t none mult := by
  obtain ⟨removeRes, hremove, h⟩ := bind_eq_ok.mp h
  cases removeRes with
  | SUCCESS =>
    exact ⟨(canRemoveSponsorshipHelper_eq_success (o := none) hacc hmult nofun hremove).1,
      canEstablishSponsorshipHelper_eq_success (o := none) hacc' hmult nofun h⟩
  | _ => cases h

/-- The limit on sub-entries leaves room in the counter. -/
theorem room_of_not_tooManyNumSubEntries (hv : ltx.header.StartsFrom 14)
    (h : ¬tooManyNumSubEntries ltx.header acc mult = true) :
    (Tally.at s (counted ltx)).2.2 + mult.toNat < 2 ^ 32 := by
  rw [counted_at hacc]
  simp only [tooManyNumSubEntries, Bool.or_eq_true, Bool.and_eq_true, not_or, decide_eq_true_eq,
    protocolVersionStartsFrom_of_le (by decide : 11 ≤ 14) hv, true_and] at h
  have hmax : ACCOUNT_SUBENTRY_LIMIT.toNat = 1000 := rfl
  have hlt := h.1
  rw [GT.gt, UInt32.lt_iff_toNat_lt,
    UInt32.toNat_sub_of_le _ _ (UInt32.le_iff_toNat_le.mpr (by omega))] at hlt
  dsimp only
  omega

end Checks

end KinesisCore.Sponsorship

import Mathlib.Data.Fintype.BigOperators
import KinesisCore.SponsorshipAccounting

/-!
# Sponsorship calls keep the ledger consistent

Every call moves the counters and what they count by the same tally, and what
it checked is enough for the reserves that grow (`Step`). Only where an account
comes or goes does the set of counters change: `sound_newAccount` and
`sound_removeAccount` add or take away what the account itself counts. From that,
over any sequence of calls: the counters are exact.
-/

namespace KinesisCore.Sponsorship

open MachineInt Tally Except Function LedgerEntry List LedgerTxn Int64
open Ledger (modifyAccount_eq_ok)
open AccountEntry (extV2_modifyExtV2 modifyExtV2_modifyExtV2)
open Option (map_some map_eq_some_iff not_isSome_iff_eq_none getD_some)

variable {K : Type}

/-! ## Outcomes -/

variable {ltx : Ledger K}

theorem current_eq_ok {ref : EntryRef K} {le : LedgerEntry} :
    ltx.current ref = .ok le ↔ ltx.load ref = some le := by
  unfold Ledger.current
  cases ltx.load ref <;> simp

/-- The sponsored account is the one loaded. -/
theorem loadSponsored_eq_ok {sponsored : Option AccountID}
    {acc : Option AccountEntry} (h : ltx.loadSponsored sponsored = .ok acc) :
    ∀ id ∈ sponsored, ∃ acc' ∈ acc, ltx.accounts id = some acc' := by
  rintro id rfl
  obtain ⟨acc', hacc', h⟩ := bind_eq_ok.mp h
  cases h
  exact ⟨acc', rfl, currentAccount_eq_ok.mp hacc'⟩

section Outcome

variable {ltx ltx' : Ledger K}
  {check : Except String SponsorshipResult} {change : Except String (Ledger K)}
  {res : SponsorshipResult} {P : Prop}

theorem changeOnSuccess_ok (h : changeOnSuccess ltx check change = .ok (res, ltx'))
    (hP : check = .ok .SUCCESS → change = .ok ltx' → P) :
    (res = .SUCCESS → P) ∧ (res ≠ .SUCCESS → ltx' = ltx) := by
  obtain ⟨res₁, hcheck, h⟩ := bind_eq_ok.mp h
  cases res₁ with
  | SUCCESS =>
    obtain ⟨ltx₁, hchange, h⟩ := bind_eq_ok.mp h
    cases h
    simp [hP hcheck hchange]
  | _ => cases pure_eq_ok.mp h; simp

end Outcome

/-- A claimable balance that nobody sponsors. -/
def Unsponsored (ltx : Ledger K) (ref : EntryRef K) : Prop :=
  ∃ le, ltx.load ref = some le ∧ le.isClaimableBalance = true ∧ le.sponsoringID = none

/-- What a call does to a ledger with the same accounts: counters and facts move
together, who has to keep more reserve can, and no claimable balance loses its
sponsor. -/
structure Step (ltx ltx' : Ledger K) (c : Tally) : Prop where
  moves : Moves ltx ltx' c c
  backed : ∀ id, 0 < weight id c → Backed ltx id (weight id c)
  unsponsored : ∀ ref, Unsponsored ltx' ref → Unsponsored ltx ref

/-- A sponsor other than none has been set. -/
theorem unsponsored_of_update [DecidableEq K] {ltx ltx' : Ledger K} {ref : EntryRef K}
    {le : LedgerEntry} (hload : ltx'.load = update ltx.load ref (some le))
    (hle : le.isClaimableBalance = true → le.sponsoringID.isSome) :
    ∀ ref', Unsponsored ltx' ref' → Unsponsored ltx ref' := by
  rintro ref' ⟨le', hle', hbalance, hnone⟩
  by_cases hsame : ref' = ref
  · subst hsame
    rw [hload, update_self] at hle'
    cases hle'
    simp [hnone] at hle
    simp [hle] at hbalance
  · rw [hload, update_of_ne hsame] at hle'
    exact ⟨le', hle', hbalance, hnone⟩

/-! ## Entries -/

section EntryCalls

variable [Finite K] [DecidableEq K] {ltx ltx' : Ledger K} {ref : EntryRef K} {le : LedgerEntry}
  {s t : AccountID} {acc acc' : AccountEntry}

theorem step_transferEntrySponsorship (hload : ltx.load ref = some le)
    (hacc : ltx.accounts s = some acc) (hacc' : ltx.accounts t = some acc')
    (hcheck : canTransferEntrySponsorship ltx.header le s acc acc' = .ok .SUCCESS)
    (h : ltx.transferEntrySponsorship ref le s t = .ok ltx') :
    Step ltx ltx' (le.bySponsor t - le.bySponsor s) := by
  obtain ⟨_, -, hcheck⟩ := bind_eq_ok.mp hcheck
  split_ifs at hcheck with hnone
  obtain ⟨_, -, hcheck⟩ := bind_eq_ok.mp hcheck
  have hmult := le.computeMultiplier_le
  obtain ⟨henough, hpay, hroom⟩ := canTransferSponsorshipHelper_eq_success hacc hmult hacc' hcheck
  obtain ⟨hmoves, hload'⟩ := moves_transferEntrySponsorship hload h hroom henough
  refine ⟨hmoves, hpay.all ?_, unsponsored_of_update hload' fun _ => rfl⟩
  intro id
  rw [map_sub, weight_bySponsor, weight_bySponsor]
  split_ifs <;> omega

section Loaded

variable (hload : ltx.load ref = some le) (hacc : ltx.accounts s = some acc)
  {sponsoredAcc : Option AccountEntry}
  (hsponsored : ltx.loadSponsored le.sponsoredID = .ok sponsoredAcc)
include hload hacc hsponsored

theorem step_establishEntrySponsorship
    (hcheck : canEstablishEntrySponsorship ltx.header le acc sponsoredAcc = .ok .SUCCESS)
    (h : ltx.establishEntrySponsorship ref le s le.sponsoredID = .ok ltx') :
    Step ltx ltx' (le.bySponsor s) := by
  obtain ⟨_, -, hcheck⟩ := bind_eq_ok.mp hcheck
  split_ifs at hcheck with hnone
  have hmult := le.computeMultiplier_le
  obtain ⟨hpay, hroom⟩ :=
    canEstablishSponsorshipHelper_eq_success hacc hmult (loadSponsored_eq_ok hsponsored) hcheck
  obtain ⟨hmoves, hload'⟩ := moves_establishEntrySponsorship hload h hroom
  rw [not_isSome_iff_eq_none.mp hnone, worth_none, sub_zero] at hmoves
  refine ⟨hmoves, hpay.all ?_, unsponsored_of_update hload' fun _ => rfl⟩
  intro id
  rw [weight_bySponsor]
  split_ifs <;> omega

theorem step_removeEntrySponsorship (hbalance : ¬le.isClaimableBalance = true)
    (hcheck : canRemoveEntrySponsorship ltx.header le s acc sponsoredAcc = .ok .SUCCESS)
    (h : ltx.removeEntrySponsorship ref le s le.sponsoredID = .ok ltx') :
    Step ltx ltx' (-le.bySponsor s) := by
  obtain ⟨_, -, hcheck⟩ := bind_eq_ok.mp hcheck
  split_ifs at hcheck with hnone
  obtain ⟨_, -, hcheck⟩ := bind_eq_ok.mp hcheck
  have hmult := le.computeMultiplier_le
  obtain ⟨henough, hpay⟩ :=
    canRemoveSponsorshipHelper_eq_success hacc hmult (loadSponsored_eq_ok hsponsored) hcheck
  obtain ⟨hmoves, hload'⟩ := moves_removeEntrySponsorship hload h henough
  refine ⟨hmoves, ?_, unsponsored_of_update hload' hbalance.elim⟩
  intro id hweight
  rw [map_neg, weight_bySponsor] at hweight ⊢
  split_ifs at hweight ⊢ with hs hid hid
  all_goals try omega
  simpa using hpay id hid

end Loaded

variable {sponsorship : Option AccountID} {id : AccountID} {key : K}
  {sponsoredAcc : Option AccountEntry}

/-- A new entry with a sponsor. -/
theorem moves_createSponsored (hload : ltx.load (.entry key) = some le)
    (hacc : ltx.accounts s = some acc)
    (hsponsored : ltx.loadSponsored le.sponsoredID = .ok sponsoredAcc) (hv : ltx.header.StartsFrom 14)
    (hcheck : canCreateEntryWithSponsorship ltx.header le acc sponsoredAcc = .ok .SUCCESS)
    (h : ltx.createEntryWithSponsorship key le s le.sponsoredID = .ok ltx') :
    Moves ltx ltx' (le.asSubentry + le.bySponsor s) (le.bySponsor s)
      ∧ Backed ltx s le.computeMultiplier.toNat
      ∧ ltx'.load = update ltx.load (.entry key) (some { le with sponsoringID := some s }) := by
  obtain ⟨_, -, hcheck⟩ := bind_eq_ok.mp hcheck
  split_ifs at hcheck with hmany
  · cases hcheck
  obtain ⟨_, -, hcheck⟩ := bind_eq_ok.mp hcheck
  split_ifs at hcheck with hnone
  have hmult := le.computeMultiplier_le
  obtain ⟨hpay, hroom⟩ :=
    canEstablishSponsorshipHelper_eq_success hacc hmult (loadSponsored_eq_ok hsponsored) hcheck
  obtain ⟨hmoves, hload'⟩ := moves_createEntryWithSponsorship hload h hroom
    (fun id hid hsub => by
      obtain ⟨acc', rfl, hget⟩ := loadSponsored_eq_ok hsponsored id hid
      refine room_of_not_tooManyNumSubEntries hget hmult hv fun htoo => hmany ?_
      simp [hsub, htoo])
  rw [not_isSome_iff_eq_none.mp hnone, worth_none, sub_zero] at hmoves
  exact ⟨hmoves, hpay, hload'⟩

omit [Finite K] in
/-- A success: there is a sponsor, or the owner pays. Any other outcome is known before the
ledger is changed. -/
theorem createEntryWithPossibleSponsorship_ok (hload : ltx.load (.entry key) = some le)
    {res : SponsorshipResult}
    (h : ltx.createEntryWithPossibleSponsorship key id sponsorship = .ok (res, ltx')) :
    (res = .SUCCESS → (∃ s acc sponsoredAcc, ltx.accounts s = some acc
        ∧ ltx.loadSponsored le.sponsoredID = .ok sponsoredAcc
        ∧ canCreateEntryWithSponsorship ltx.header le acc sponsoredAcc = .ok .SUCCESS
        ∧ ltx.createEntryWithSponsorship key le s le.sponsoredID = .ok ltx')
      ∨ ∃ owner acc, le.sponsoredID = some owner ∧ ltx.accounts owner = some acc
        ∧ canCreateEntryWithoutSponsorship ltx.header le acc = .ok .SUCCESS
        ∧ ltx.createEntryWithoutSponsorship le owner = .ok ltx')
    ∧ (res ≠ .SUCCESS → ltx' = ltx) := by
  obtain ⟨le₀, hle₀, h⟩ := bind_eq_ok.mp h
  obtain rfl := Option.mem_unique hload (current_eq_ok.mp hle₀)
  cases sponsorship with
  | some s =>
    obtain ⟨acc, hacc, h⟩ := bind_eq_ok.mp h
    obtain ⟨sponsoredAcc, hsponsored, h⟩ := bind_eq_ok.mp h
    exact changeOnSuccess_ok h fun hcheck hchange =>
      .inl ⟨s, acc, sponsoredAcc, currentAccount_eq_ok.mp hacc, hsponsored, hcheck, hchange⟩
  | none =>
    cases hid : le.sponsoredID with
    | none =>
      rw [hid] at h
      obtain ⟨acc, hacc, h⟩ := bind_eq_ok.mp h
      exact changeOnSuccess_ok h fun hcheck hchange =>
        .inl ⟨id, acc, none, currentAccount_eq_ok.mp hacc, rfl, hcheck, hchange⟩
    | some owner =>
      rw [hid] at h
      obtain ⟨acc, hacc, h⟩ := bind_eq_ok.mp h
      exact changeOnSuccess_ok h fun hcheck hchange =>
        .inr ⟨owner, acc, rfl, currentAccount_eq_ok.mp hacc, hcheck, hchange⟩

/-- A new entry: what `sponsor` makes of it. -/
theorem moves_createEntry (hload : ltx.load (.entry key) = some le)
    (hv : ltx.header.StartsFrom 14) (hnone : le.sponsoringID = none)
    (h : ltx.createEntryWithPossibleSponsorship key id sponsorship = .ok (.SUCCESS, ltx')) :
    ∃ sponsor c, c = le.asSubentry + worth le.bySponsor sponsor
      ∧ Moves ltx ltx' c (worth le.bySponsor sponsor)
      ∧ (∀ k, 0 < weight k c → Backed ltx k (weight k c))
      ∧ ltx'.load = update ltx.load (.entry key) (some { le with sponsoringID := sponsor })
      ∧ (le.isClaimableBalance = true → sponsor.isSome) := by
  have hmult := le.computeMultiplier_le
  obtain ⟨s, acc, sponsoredAcc, hacc, hsponsored, hcheck, hcreate⟩
    | ⟨owner, acc, howner, hacc, hcheck, hcreate⟩ :=
    (createEntryWithPossibleSponsorship_ok hload h).1 rfl
  · obtain ⟨hmoves, hpay, hload'⟩ := moves_createSponsored hload hacc hsponsored hv hcheck hcreate
    refine ⟨some s, _, rfl, hmoves, hpay.all ?_, hload', fun _ => rfl⟩
    exact fun k => (weight_created (not_isAccount_of_load hload) k s).le
  · unfold canCreateEntryWithoutSponsorship at hcheck
    split_ifs at hcheck with hmany hold
    · cases hcheck
    · rw [not_protocolVersionIsBefore (by decide : 9 ≤ 14) hv] at hold
      cases hold
    obtain ⟨avail, havail, hcheck⟩ := bind_eq_ok.mp hcheck
    split_ifs at hcheck with hlow
    · cases hcheck
    have hpay : CanPay ltx.header acc le.computeMultiplier := ⟨avail, havail, hlow⟩
    have hcounts := counts_createEntryWithoutSponsorship hcreate howner fun _ =>
      room_of_not_tooManyNumSubEntries hacc hmult hv hmany
    have hsame : ltx.load = update ltx.load (.entry key) (some { le with sponsoringID := none }) := by
      rw [← hnone, ← hload, update_eq_self]
    refine ⟨none, _, rfl, (add_zero le.asSubentry).symm ▸ hcounts.toMoves, ?_,
      hcounts.load.trans hsame, ?_⟩
    · intro k hweight
      rw [worth_none, add_zero, weight_asSubentry] at hweight ⊢
      split_ifs at hweight ⊢ with hk
      · have hid := howner
        unfold sponsoredID at hid
        split_ifs at hid
        cases hid
        rw [hk.2]
        exact CanPay.backed hacc hmult hpay
      · omega
    · intro hbalance
      simp [sponsoredID, hbalance] at howner

omit [Finite K] in
theorem load_putEntry (ltx : Ledger K) (key : K) (e : Option OtherEntry) :
    (ltx.putEntry key e).load
      = update ltx.load (.entry key)
        (e.map fun e => ⟨.other e.kind, e.accountID, e.sponsoringID⟩) := by
  funext ref
  by_cases hsame : ref = .entry key
  · subst hsame
    simp [Ledger.load, Ledger.putEntry]
  · cases ref with
    | account id => rfl
    | entry key' =>
      have hkey : key' ≠ key := fun heq => hsame (heq ▸ rfl)
      simp [Ledger.load, Ledger.putEntry, hkey]

omit [Finite K] in
theorem load_created (ltx : Ledger K) (key : K) (kind : EntryKind) (id : AccountID) :
    (ltx.putEntry key (some { kind, accountID := id })).load (.entry key)
      = some ⟨.other kind, id, none⟩ := by
  rw [load_putEntry, update_self]
  rfl

theorem step_createEntry {kind : EntryKind} (habsent : ltx.others key = none)
    (hv : ltx.header.StartsFrom 14)
    (h : (ltx.putEntry key (some { kind, accountID := id })).createEntryWithPossibleSponsorship key
      id sponsorship = .ok (.SUCCESS, ltx')) : ∃ c, Step ltx ltx' c := by
  have hload := load_putEntry ltx key (some { kind, accountID := id })
  have hput := moves_putEntry ltx key (some { kind, accountID := id })
  have hget := load_created ltx key kind id
  obtain ⟨sponsor, c, hc, hmoves, hbacked, hload', hbalance⟩ :=
    moves_createEntry hget (hput.header ▸ hv) rfl h
  have hdue : worth OtherEntry.owed (some { kind, accountID := id })
      - worth OtherEntry.owed (ltx.others key)
        + worth (bySponsor ⟨.other kind, id, none⟩) sponsor = c := by
    have howed : OtherEntry.owed { kind, accountID := id }
        = asSubentry ⟨.other kind, id, none⟩ :=
      (owed_eq _).trans (zero_add _)
    rw [habsent, hc, ← howed]
    simp [worth]
  refine ⟨c, ?_, hbacked, ?_⟩
  · have hall := hput.trans hmoves
    rwa [zero_add, hdue] at hall
  · rw [hload, update_idem] at hload'
    exact unsponsored_of_update hload' hbalance

theorem canRemoveEntryWithSponsorship_eq_ok {lh : LedgerHeader} {u : Unit}
    (h : canRemoveEntryWithSponsorship lh le acc sponsoredAcc = .ok u) :
    (le.computeMultiplier.toNat : Int) ≤ acc.getNumSponsoring.toNat
      ∧ ∀ acc' ∈ sponsoredAcc, (le.computeMultiplier.toNat : Int) ≤ acc'.getNumSponsored.toNat
        ∧ (le.computeMultiplier.toNat : Int) ≤ acc'.numSubEntries.toNat := by
  obtain ⟨_, -, h⟩ := bind_eq_ok.mp h
  split_ifs at h with hsponsoring hsponsored
  refine ⟨by rw [UInt32.lt_iff_toNat_lt] at hsponsoring; omega, ?_⟩
  rintro acc' rfl
  simp only [Option.any_some, decide_eq_true_eq, not_or, UInt32.lt_iff_toNat_lt] at hsponsored
  omega

/-- What is left of an entry that is removed: it is still there, unsponsored and
not counted. -/
theorem moves_removeEntry (hload : ltx.load (.entry key) = some le)
    (hid : ¬le.isClaimableBalance = true → le.accountID = id)
    (hbalance : le.isClaimableBalance = true → le.sponsoringID.isSome)
    (h : ltx.removeEntryWithPossibleSponsorship key id = .ok ltx') :
    Moves ltx ltx' (-le.asSubentry - worth le.bySponsor le.sponsoringID)
        (-worth le.bySponsor le.sponsoringID)
      ∧ ltx'.load = update ltx.load (.entry key) (some { le with sponsoringID := none }) := by
  obtain ⟨le₀, hle₀, h⟩ := bind_eq_ok.mp h
  obtain rfl := Option.mem_unique hload (current_eq_ok.mp hle₀)
  obtain ⟨acc, hacc, h⟩ := bind_eq_ok.mp h
  rw [currentAccount_eq_ok] at hacc
  have howner : (if le.isClaimableBalance = true then none else some id) = le.sponsoredID := by
    unfold sponsoredID
    split_ifs with hcb
    · rfl
    · rw [hid hcb]
  cases hsponsor : le.sponsoringID with
  | none =>
    have hcb : ¬le.isClaimableBalance = true := by
      intro hcb
      simp [hsponsor] at hbalance
      simp [hbalance] at hcb
    rw [hsponsor] at h
    obtain ⟨_, hcheck, h⟩ := bind_eq_ok.mp h
    unfold canRemoveEntryWithoutSponsorship at hcheck
    split_ifs at hcheck with henough
    have hcounts := counts_removeEntryWithoutSponsorship (not_isAccount_of_load hload) h
      (by rw [← howner, if_neg hcb]) (by
        rw [counted_at hacc]
        exact Int.ofNat_le.mpr (Nat.le_of_not_lt henough))
    have hsame : ltx.load
        = update ltx.load (.entry key) (some { le with sponsoringID := none }) := by
      rw [← hsponsor, ← hload, update_eq_self]
    rw [worth_none, sub_zero]
    exact ⟨hcounts.toMoves, hcounts.load.trans hsame⟩
  | some s =>
    rw [hsponsor] at h
    simp only [howner] at h
    split_ifs at h with hself
    obtain ⟨sAcc, hsAcc, h⟩ := bind_eq_ok.mp h
    rw [currentAccount_eq_ok] at hsAcc
    obtain ⟨_, hcheck, h⟩ := bind_eq_ok.mp h
    obtain ⟨henough, henough'⟩ := canRemoveEntryWithSponsorship_eq_ok hcheck
    have hget : ∀ k ∈ le.sponsoredID, k = id ∧ acc ∈ le.sponsoredID.map fun _ => acc := by
      intro k hk
      rw [← howner] at hk
      split_ifs at hk with hcb
      · cases hk
      · exact ⟨(Option.some.inj hk).symm, by simp [← howner, hcb]⟩
    refine moves_removeEntryWithSponsorship hload h
      ⟨by rw [counted_at hsAcc]; exact henough, fun k hk => ?_⟩ fun k hk => ?_
    all_goals
      obtain ⟨rfl, hmem⟩ := hget k hk
      rw [counted_at hacc]
    · exact (henough' acc hmem).1
    · exact (henough' acc hmem).2

omit [Finite K] [DecidableEq K] in
theorem worth_others (ltx : Ledger K) (key : K) :
    worth OtherEntry.owed (ltx.others key) = worth LedgerEntry.owed (ltx.load (.entry key)) := by
  simp only [worth, Ledger.load]
  cases ltx.others key <;> rfl

theorem step_removeEntry (hload : ltx.load (.entry key) = some le)
    (hid : ¬le.isClaimableBalance = true → le.accountID = id)
    (hbalance : le.isClaimableBalance = true → le.sponsoringID.isSome)
    (h : ltx.removeEntryWithPossibleSponsorship key id = .ok ltx') :
    Step ltx (ltx'.putEntry key none) (-(le.asSubentry + worth le.bySponsor le.sponsoringID)) := by
  obtain ⟨hmoves, hload'⟩ := moves_removeEntry hload hid hbalance h
  have hput := moves_putEntry ltx' key none
  have hdue : worth OtherEntry.owed none - worth OtherEntry.owed (ltx'.others key)
      = -le.asSubentry := by
    have howed : worth LedgerEntry.owed (some { le with sponsoringID := none }) = le.asSubentry :=
      (owed_eq _).trans (zero_add _)
    rw [worth_others, hload', update_self, howed]
    exact zero_sub _
  have hall := hmoves.trans hput
  rw [add_zero, hdue, neg_add_eq_sub, ← neg_add'] at hall
  refine ⟨hall, ?_, ?_⟩
  · intro k hweight
    -- nobody has to keep more
    rw [map_neg] at hweight
    cases hsponsor : le.sponsoringID with
    | none =>
      rw [hsponsor, worth_none, add_zero, weight_asSubentry] at hweight
      split_ifs at hweight <;> omega
    | some s =>
      have heq : weight k (le.asSubentry + worth le.bySponsor (some s)) = _ :=
        weight_created (not_isAccount_of_load hload) k s
      rw [hsponsor, heq] at hweight
      split_ifs at hweight <;> omega
  · rintro ref ⟨le', hle', hcb, hnone⟩
    rw [load_putEntry, hload', update_idem] at hle'
    by_cases hsame : ref = .entry key
    · subst hsame
      simp at hle'
    · rw [update_of_ne hsame] at hle'
      exact ⟨le', hle', hcb, hnone⟩

end EntryCalls

/-! ## Signers -/

theorem accountOwed_eq (id : AccountID) (acc : AccountEntry) :
    accountOwed id acc = sponsorship acc.sponsoringID id 2 + signersOwed id acc
      + subEntries id acc.signers.length := rfl

/-- The account with another list of the signers' sponsors. -/
abbrev withSponsors (g : List (Option AccountID) → List (Option AccountID)) (acc : AccountEntry) :
    AccountEntry :=
  acc.modifyExtV2 fun v2 => { v2 with signerSponsoringIDs := g v2.signerSponsoringIDs }

variable {acc : AccountEntry}

theorem signerSponsor_of_eq_ok {n : Nat} {sponsor : Option AccountID}
    (h : signerSponsoringID acc n = .ok sponsor) : signerSponsor acc n = sponsor := by
  rw [← signerSponsoringID_eq_ok h, signerSponsor, signerIDs]
  cases acc.extV2 <;> simp

theorem signerAt_eq {ltx : Ledger K} {id : AccountID}
    (hacc : ltx.accounts id = some acc) (n : Nat) : signerAt ltx id n = signerSponsor acc n := by
  simp [signerAt, hacc]

section Signers

variable {ltx ltx' : Ledger K} {id s t : AccountID} {n : Nat} {acc : AccountEntry} {d : Tally}

/-- An account with other signers, or other sponsors of them. -/
theorem moves_signers (hacc : ltx.accounts id = some acc)
    (g : List (Option AccountID) → List (Option AccountID)) (signers : List Signer)
    (numSubEntries : UInt32) {m k : Int}
    (hm : (numSubEntries.toNat : Int) = acc.numSubEntries.toNat + m)
    (hk : (signers.length : Int) = acc.signers.length + k)
    (hlength : ∀ l, l.length = acc.signers.length → (g l).length = signers.length)
    (howed : signersOwed id (withSponsors g acc) = signersOwed id acc + d) :
    let acc' := withSponsors g { acc with signers, numSubEntries }
    Moves ltx (ltx.putAccount id acc') (subEntries id m) (d + subEntries id k)
      ∧ Ledger.load (ltx.putAccount id acc') = ltx.load := by
  intro acc'
  have hv2 : acc'.extV2 = acc.extV2.map fun v2 =>
      { v2 with signerSponsoringIDs := g v2.signerSponsoringIDs } := extV2_modifyExtV2 ..
  have hcounted : accountCounted id acc' - accountCounted id acc = subEntries id m := by
    have hsponsoring : acc'.getNumSponsoring = acc.getNumSponsoring := by
      unfold AccountEntry.getNumSponsoring
      rw [hv2]
      cases acc.extV2 <;> rfl
    have hsponsored : acc'.getNumSponsored = acc.getNumSponsored := by
      unfold AccountEntry.getNumSponsored
      rw [hv2]
      cases acc.extV2 <;> rfl
    have hsub : (acc'.numSubEntries.toNat : Int) = _ := hm
    rw [accountCounted, accountCounted, hsponsoring, hsponsored, hsub, subEntries_add]
    abel
  have howed' : accountOwed id acc' - accountOwed id acc = d + subEntries id k := by
    have hsigners : (acc'.signers.length : Int) = _ := hk
    have hids : signersOwed id acc' = _ := howed
    have hsponsor : acc'.sponsoringID = acc.sponsoringID := rfl
    rw [accountOwed_eq, accountOwed_eq, hids, hsigners, hsponsor, subEntries_add]
    abel
  have haligned : AlignedAccount acc → AlignedAccount acc' := by
    intro ha v2' hv2'
    rw [hv2] at hv2'
    obtain ⟨v2, hold, rfl⟩ := map_eq_some_iff.mp hv2'
    exact hlength _ (ha v2 hold)
  have hbalance : acc'.balance = acc.balance := rfl
  have hmoves := moves_putAccount hacc hbalance (selling_modifyExtV2 _ _) haligned
  rw [hcounted, howed'] at hmoves
  exact ⟨hmoves, load_putAccount hacc rfl⟩

/-- With an extension, the list of sponsors decides. -/
theorem signersOwed_withSponsors (id : AccountID)
    {g : List (Option AccountID) → List (Option AccountID)}
    (hnone : acc.extV2 = none → d = 0)
    (hsome : ∀ v2, acc.extV2 = some v2 →
      ((g v2.signerSponsoringIDs).map fun s => sponsorship s id 1).sum
        = (v2.signerSponsoringIDs.map fun s => sponsorship s id 1).sum + d) :
    signersOwed id (withSponsors g acc) = signersOwed id acc + d := by
  unfold signersOwed signerIDs
  rw [extV2_modifyExtV2]
  cases hv2 : acc.extV2 with
  | none => simp [hnone hv2]
  | some v2 => simpa using hsome v2 hv2

theorem moves_setSignerSponsor {sponsor : Option AccountID}
    (h : ltx.setSignerSponsor id n sponsor = .ok ltx') :
    Moves ltx ltx' 0 (sponsorship sponsor id 1 - sponsorship (signerAt ltx id n) id 1)
      ∧ ltx'.load = ltx.load ∧ signerAt ltx' id n = sponsor := by
  obtain ⟨acc, _, hacc, hf, rfl⟩ := modifyAccount_eq_ok.mp h
  obtain ⟨v2, hv2, hf⟩ := bind_eq_ok.mp hf
  split_ifs at hf with hn
  cases hf
  rw [getAccountEntryExtensionV2_eq_ok] at hv2
  have hold : signerAt ltx id n = v2.signerSponsoringIDs[n] := by
    rw [signerAt_eq hacc]
    simp [signerSponsor, signerIDs, hv2, hn]
  have howed : signersOwed id (withSponsors (fun ids => ids.set n sponsor) acc)
      = signersOwed id acc + (sponsorship sponsor id 1 - sponsorship (signerAt ltx id n) id 1) := by
    refine signersOwed_withSponsors id (by simp [hv2]) fun v2' hv2' => ?_
    obtain rfl := Option.mem_unique hv2 hv2'
    rw [map_set, sum_set', dif_pos (by simpa using hn), getElem_map, hold,
      sub_eq_neg_add]
  obtain ⟨hmoves, hload⟩ := moves_signers hacc (fun ids => ids.set n sponsor) acc.signers
    acc.numSubEntries (add_zero _).symm (add_zero _).symm (by simp) howed
  rw [subEntries_zero, add_zero] at hmoves
  refine ⟨hmoves, hload, ?_⟩
  rw [signerAt_eq (update_self ..), signerSponsor, signerIDs, extV2_modifyExtV2, hv2]
  simp [hn]

theorem moves_establishSignerSponsorship
    (h : ltx.establishSignerSponsorship n s id = .ok ltx') (hnone : signerAt ltx id n = none)
    (hroom : Room ltx s (some id) 1) :
    Moves ltx ltx' (sponsorship (some s) id 1) (sponsorship (some s) id 1)
      ∧ ltx'.load = ltx.load := by
  obtain ⟨ltx₁, h₁, h⟩ := bind_eq_ok.mp h
  obtain ⟨ltx₂, h₂, h₃⟩ := bind_eq_ok.mp h
  have hadd := counts_addNumSponsored h₁ (hroom.sponsored id rfl)
  obtain ⟨hset, hload, -⟩ := moves_setSignerSponsor h₂
  have hadd' := counts_addNumSponsoring h₃
    (by simpa [hset.counted, hadd.counted] using hroom.sponsoring)
  refine ⟨?_, (hadd'.load.trans hload).trans hadd.load⟩
  have hmoves := (hadd.toMoves.trans hset).counts hadd'
  have hzero : sponsorship none id 1 = 0 := rfl
  have hcount :
      sponsored id ((1 : UInt32).toNat : Int) + 0 + sponsoring s ((1 : UInt32).toNat : Int)
      = sponsorship (some s) id 1 := by
    rw [add_zero, add_comm]
    rfl
  rwa [hadd.signerAt, hnone, hzero, sub_zero, zero_add, hcount] at hmoves

theorem signerSponsor_of_getElem {v2 : AccountEntryExtensionV2} {found : Option AccountID}
    (hv2 : getAccountEntryExtensionV2 acc = .ok v2)
    (hn : v2.signerSponsoringIDs[n]? = some found) : signerSponsor acc n = found := by
  rw [signerSponsor, signerIDs, getAccountEntryExtensionV2_eq_ok.mp hv2, map_some, getD_some, hn]
  rfl

theorem signerIsSponsoredBy_eq_ok {u : Unit} (h : ltx.signerIsSponsoredBy id n s = .ok u) :
    signerAt ltx id n = some s := by
  obtain ⟨acc, hacc, h⟩ := bind_eq_ok.mp h
  obtain ⟨v2, hv2, h⟩ := bind_eq_ok.mp h
  rw [signerAt_eq (currentAccount_eq_ok.mp hacc)]
  cases hn : v2.signerSponsoringIDs[n]? with
  | none => simp [hn] at h
  | some found =>
    rw [hn] at h
    rw [signerSponsor_of_getElem hv2 hn, accountIsSponsor_eq_ok.mp h]

theorem moves_transferSignerSponsorship (h : ltx.transferSignerSponsorship n s t id = .ok ltx')
    (hroom : Room ltx t none 1) (henough : Enough ltx s none 1) :
    Moves ltx ltx' (sponsorship (some t) id 1 - sponsorship (some s) id 1)
        (sponsorship (some t) id 1 - sponsorship (some s) id 1)
      ∧ ltx'.load = ltx.load := by
  obtain ⟨_, hby, h⟩ := bind_eq_ok.mp h
  obtain ⟨ltx₁, h₁, h⟩ := bind_eq_ok.mp h
  obtain ⟨ltx₂, h₂, h₃⟩ := bind_eq_ok.mp h
  obtain ⟨hset, hload, -⟩ := moves_setSignerSponsor h₁
  have hnew := counts_addNumSponsoring h₂ (by simpa [hset.counted] using hroom.sponsoring)
  have hone : ((1 : UInt32).toNat : Int) = 1 := rfl
  have hsub := hone ▸ henough.sponsoring
  have hold := counts_subNumSponsoring h₃ (by
    rw [hnew.counted, hset.counted]
    simp only [map_add, map_zero, at_sponsoring, Prod.fst_add, Prod.fst_zero, hone]
    split_ifs <;> omega)
  refine ⟨?_, (hold.load.trans hnew.load).trans hload⟩
  have hmoves := hset.counts (hnew.trans hold)
  have hcount : 0 + (sponsoring t ((1 : UInt32).toNat : Int)
      + sponsoring s (-((1 : UInt32).toNat : Int)))
        = sponsorship (some t) id 1 - sponsorship (some s) id 1 := by
    simp only [sponsorship, sponsoring_neg, hone]
    abel
  rwa [signerIsSponsoredBy_eq_ok hby, hcount] at hmoves

theorem moves_insertSigner {signer : Signer}
    (h : ltx.modifyAccount id (fun acc => return insertSigner n signer acc) = .ok ltx')
    (haligned : Aligned ltx) (hn : ∀ acc, ltx.accounts id = some acc → n ≤ acc.signers.length) :
    Moves ltx ltx' 0 (subEntries id 1) ∧ ltx'.load = ltx.load := by
  obtain ⟨acc, _, hacc, hf, rfl⟩ := modifyAccount_eq_ok.mp h
  cases hf
  have hn := hn acc hacc
  have howed : signersOwed id (withSponsors (fun ids => ids.insertIdx n none) acc)
      = signersOwed id acc + 0 := by
    refine signersOwed_withSponsors id (fun _ => rfl) fun v2 hv2 => ?_
    have hlen := haligned id acc hacc v2 hv2
    have hperm := perm_insertIdx (none : Option AccountID) v2.signerSponsoringIDs (hlen ▸ hn)
    rw [(hperm.map fun s => sponsorship s id 1).sum_eq, map_cons, add_comm]
    rfl
  obtain ⟨hmoves, hload⟩ := moves_signers hacc (fun ids => ids.insertIdx n none)
    (acc.signers.insertIdx n signer) acc.numSubEntries (m := 0) (k := 1) (add_zero _).symm
    (by rw [length_insertIdx_of_le_length hn]; omega)
    (fun l hl => by
      rw [length_insertIdx_of_le_length hn, length_insertIdx_of_le_length (hl ▸ hn), hl])
    howed
  rw [subEntries_zero, zero_add] at hmoves
  exact ⟨hmoves, hload⟩

section AtHand

variable {acc' sAcc sAcc' : AccountEntry} (hacc : ltx.accounts id = some acc)
include hacc

/-- Both accounts are written back: the sponsor with a sponsorship less, and the account with
a sponsorship less and a signer that has no sponsor. -/
theorem moves_removeSignerSponsorship (hne : s ≠ id) (hsAcc : ltx.accounts s = some sAcc)
    (h : removeSignerSponsorship n s sAcc acc = .ok (sAcc', acc'))
    (henough : Enough ltx s (some id) 1)
    (hltx' : ltx' = (ltx.putAccount s sAcc').putAccount id acc') :
    Moves ltx ltx' (-sponsorship (some s) id 1) (-sponsorship (some s) id 1)
      ∧ ltx'.load = ltx.load ∧ signerSponsor acc' n = none ∧ acc'.signers = acc.signers
      ∧ acc'.numSubEntries = acc.numSubEntries := by
  obtain ⟨v2, sv2, hv2, hn, hsv2, heq⟩ := removeSignerSponsorship_eq_ok h
  cases heq
  let ltx₁ : Ledger K := ltx.putAccount s
    (sAcc.modifyExtV2 fun v2 => { v2 with numSponsoring := v2.numSponsoring - 1 })
  let acc₁ := withSponsors (fun ids => ids.set n none) acc
  have hacc₁ : ltx₁.accounts id = some acc := (update_of_ne hne.symm ..).trans hacc
  have hv2₁ : getAccountEntryExtensionV2 acc₁ = .ok _ :=
    getAccountEntryExtensionV2_eq_ok.mpr ((extV2_modifyExtV2 ..).trans
      (congrArg _ (getAccountEntryExtensionV2_eq_ok.mp hv2)))
  have h₁ : ltx.subNumSponsoring s 1 = .ok ltx₁ :=
    modifyAccount_eq_ok.mpr ⟨sAcc, _, hsAcc, bind_eq_ok.mpr ⟨sv2, hsv2, rfl⟩, rfl⟩
  have h₂ : ltx₁.setSignerSponsor id n none = .ok (ltx₁.putAccount id acc₁) :=
    modifyAccount_eq_ok.mpr ⟨acc, acc₁, hacc₁, bind_eq_ok.mpr
      ⟨v2, hv2, if_pos (List.getElem?_eq_some_iff.mp hn).1⟩, rfl⟩
  have h₃ : Ledger.subNumSponsored (ltx₁.putAccount id acc₁) id 1 = .ok ltx' := by
    refine modifyAccount_eq_ok.mpr ⟨acc₁, _, update_self .., bind_eq_ok.mpr ⟨_, hv2₁, rfl⟩, ?_⟩
    rw [hltx', putAccount_putAccount, modifyExtV2_modifyExtV2]
  have hsub := counts_subNumSponsoring h₁ henough.sponsoring
  obtain ⟨hset, hload, hnone⟩ := moves_setSignerSponsor h₂
  have hsub' := counts_subNumSponsored h₃
    (by simpa [hset.counted, hsub.counted] using henough.sponsored id rfl)
  have hget : signerAt ltx₁ id n = some s :=
    (signerAt_eq hacc₁ n).trans (signerSponsor_of_getElem hv2 hn)
  refine ⟨?_, (hsub'.load.trans hload).trans hsub.load, ?_, rfl, rfl⟩
  · have hmoves := (hsub.toMoves.trans hset).counts hsub'
    have hzero : sponsorship none id 1 = 0 := rfl
    have hcount : sponsoring s (-((1 : UInt32).toNat : Int)) + 0
        + sponsored id (-((1 : UInt32).toNat : Int)) = -sponsorship (some s) id 1 := by
      rw [add_zero, sponsored_neg, sponsoring_neg, ← neg_add]
      rfl
    rwa [hget, hzero, zero_sub, zero_add, hcount] at hmoves
  · refine (signerAt_eq ?_ n).symm.trans ((hsub'.signerAt id n).trans hnone)
    rw [hltx']
    exact update_self ..

theorem moves_removeSignerWithoutSponsorship (hnone : signerSponsor acc n = none)
    (haligned : AlignedAccount acc) (hn : n < acc.signers.length)
    (hsub : (1 : Int) ≤ acc.numSubEntries.toNat) :
    let ltx' : Ledger K := ltx.putAccount id (removeSignerWithoutSponsorship n acc)
    Moves ltx ltx' (-subEntries id 1) (-subEntries id 1) ∧ ltx'.load = ltx.load := by
  have howed : signersOwed id (withSponsors (fun ids => ids.eraseIdx n) acc)
      = signersOwed id acc + 0 := by
    refine signersOwed_withSponsors id (fun _ => rfl) fun v2 hv2 => ?_
    have hlt : n < v2.signerSponsoringIDs.length := haligned v2 hv2 ▸ hn
    have hold : v2.signerSponsoringIDs[n] = none := by
      simpa [signerSponsor, signerIDs, hv2, hlt] using hnone
    have hperm := getElem_cons_eraseIdx_perm hlt
    rw [← (hperm.map fun s => sponsorship s id 1).sum_eq, map_cons, hold, add_zero]
    exact (zero_add _).symm
  obtain ⟨hmoves, hload⟩ := moves_signers hacc (fun ids => ids.eraseIdx n)
    (acc.signers.eraseIdx n) (acc.numSubEntries - 1) (k := -1) (toNat_sub_eq hsub)
    (by rw [length_eraseIdx, if_pos hn]; omega)
    (fun l hl => by
      rw [length_eraseIdx, length_eraseIdx, if_pos hn, if_pos (hl ▸ hn), hl])
    howed
  rw [zero_add, subEntries_neg, subEntries_neg] at hmoves
  exact ⟨hmoves, hload⟩

end AtHand

end Signers

/-! ### Checks of signers -/

theorem signerSponsor_of_requireSigner {acc : AccountEntry} {n : Nat} {s : AccountID} {u : Unit}
    {expected : IsSignerSponsoredResult} (h : requireSigner expected n s acc = .ok u)
    (hexists : expected ≠ .DOES_NOT_EXIST) :
    signerSponsor acc n = if expected = .SPONSORED then some s else none := by
  obtain ⟨found, hfound, h⟩ := bind_eq_ok.mp h
  split_ifs at h with heq
  subst heq
  unfold isSignerSponsored at hfound
  split_ifs at hfound
  · cases hfound
    exact absurd rfl hexists
  obtain ⟨sponsor, hsponsor, hfound⟩ := bind_eq_ok.mp hfound
  rw [signerSponsor_of_eq_ok hsponsor]
  cases sponsor with
  | none =>
    cases hfound
    rfl
  | some sponsor =>
    obtain ⟨_, hby, hfound⟩ := bind_eq_ok.mp hfound
    cases hfound
    exact accountIsSponsor_eq_ok.mp hby

theorem weight_sponsorship (k id s : AccountID) :
    weight k (sponsorship (some s) id 1) = (if k = s then 1 else 0) - if k = id then 1 else 0 := by
  simp [weight_apply, sponsorship]

theorem weight_subEntries (k id : AccountID) :
    weight k (subEntries id 1) = if k = id then 1 else 0 := by
  simp [weight_apply]

theorem unsponsored_of_load {ltx ltx' : Ledger K} (h : ltx'.load = ltx.load) :
    ∀ ref, Unsponsored ltx' ref → Unsponsored ltx ref := by
  rintro ref ⟨le, hle, hrest⟩
  exact ⟨le, h ▸ hle, hrest⟩

section SignerCalls

variable {ltx ltx' : Ledger K} {id s t : AccountID} {n : Nat} {acc sAcc tAcc : AccountEntry}

theorem one_le_ten : (1 : UInt32).toNat ≤ 10 := by decide

section

variable (hacc : ltx.accounts id = some acc)
include hacc

theorem loaded_some : ∀ k ∈ some id, ∃ acc' ∈ some acc, ltx.accounts k = some acc' := by
  intro k hk
  exact ⟨acc, rfl, Option.some.inj hk ▸ hacc⟩

variable (hsAcc : ltx.accounts s = some sAcc)
include hsAcc

theorem step_establishSignerSponsorship
    (hcheck : canEstablishSignerSponsorship ltx.header n s sAcc acc = .ok .SUCCESS)
    (h : ltx.establishSignerSponsorship n s id = .ok ltx') :
    Step ltx ltx' (sponsorship (some s) id 1) := by
  obtain ⟨_, -, hcheck⟩ := bind_eq_ok.mp hcheck
  obtain ⟨_, hsigner, hcheck⟩ := bind_eq_ok.mp hcheck
  obtain ⟨hpay, hroom⟩ :=
    canEstablishSponsorshipHelper_eq_success hsAcc one_le_ten (loaded_some hacc) hcheck
  have hnone : signerAt ltx id n = none :=
    (signerAt_eq hacc n).trans (signerSponsor_of_requireSigner hsigner (by decide))
  obtain ⟨hmoves, hload⟩ := moves_establishSignerSponsorship h hnone hroom
  refine ⟨hmoves, hpay.all ?_, unsponsored_of_load hload⟩
  intro k
  rw [weight_sponsorship]
  split_ifs <;> simp

theorem step_removeSignerSponsorship {sAcc' acc' : AccountEntry} (hne : s ≠ id)
    (hcheck : canRemoveSignerSponsorship ltx.header n s sAcc acc = .ok .SUCCESS)
    (h : removeSignerSponsorship n s sAcc acc = .ok (sAcc', acc')) :
    Step ltx ((ltx.putAccount s sAcc').putAccount id acc') (-sponsorship (some s) id 1) := by
  obtain ⟨_, -, hcheck⟩ := bind_eq_ok.mp hcheck
  obtain ⟨_, -, hcheck⟩ := bind_eq_ok.mp hcheck
  obtain ⟨henough, hpay⟩ :=
    canRemoveSponsorshipHelper_eq_success hsAcc one_le_ten (loaded_some hacc) hcheck
  obtain ⟨hmoves, hload, -⟩ := moves_removeSignerSponsorship hacc hne hsAcc h henough rfl
  refine ⟨hmoves, ?_, unsponsored_of_load hload⟩
  intro k hweight
  rw [map_neg, weight_sponsorship] at hweight ⊢
  split_ifs at hweight ⊢ with hs hid hid
  all_goals try omega
  subst hid
  exact hpay k rfl

end

theorem step_transferSignerSponsorship (hsAcc : ltx.accounts s = some sAcc)
    (htAcc : ltx.accounts t = some tAcc)
    (hcheck : canTransferSignerSponsorship ltx.header n s sAcc tAcc acc = .ok .SUCCESS)
    (h : ltx.transferSignerSponsorship n s t id = .ok ltx') :
    Step ltx ltx' (sponsorship (some t) id 1 - sponsorship (some s) id 1) := by
  obtain ⟨_, -, hcheck⟩ := bind_eq_ok.mp hcheck
  obtain ⟨_, -, hcheck⟩ := bind_eq_ok.mp hcheck
  obtain ⟨henough, hpay, hroom⟩ :=
    canTransferSponsorshipHelper_eq_success hsAcc one_le_ten htAcc hcheck
  obtain ⟨hmoves, hload⟩ := moves_transferSignerSponsorship h hroom henough
  refine ⟨hmoves, hpay.all ?_, unsponsored_of_load hload⟩
  intro k
  rw [map_sub, weight_sponsorship, weight_sponsorship]
  split_ifs <;> simp

/-- Without a change of its counters, an account can pay as much as before. -/
theorem Backed.of_moves {d : Tally} {m : Int} (h : Moves ltx ltx' 0 d)
    (hv : ltx.header.StartsFrom 14)
    (hback : Backed ltx' id m) : Backed ltx id m := by
  obtain ⟨acc', avail, mult, hacc', havail, hmult, hm, hcheck⟩ := hback
  obtain ⟨acc, hacc, hbalance, hselling, heff⟩ := h.account hacc'
  rw [map_zero, add_zero] at heff
  rw [h.header] at havail hcheck
  refine ⟨acc, avail, mult, hacc, ?_, hmult, hm, hcheck⟩
  rw [getAvailableBalance_eq_ofInt hv, leftOver, heff, hbalance, hselling] at havail
  rw [getAvailableBalance_eq_ofInt hv]
  exact havail

theorem canPay_one {lh : LedgerHeader} {avail : Int64}
    (havail : getAvailableBalance lh acc = .ok avail)
    (hcheck : ¬avail < lh.baseReserve.toUInt64.toInt64) : CanPay lh acc 1 := by
  refine ⟨avail, havail, ?_⟩
  have hone : reserveOf lh 1 = lh.baseReserve.toUInt64.toInt64 := by
    exact one_mul _
  rwa [hone]

variable {sponsorship : Option AccountID}

theorem createSignerWithPossibleSponsorship_unchanged {res : SponsorshipResult}
    (h : ltx.createSignerWithPossibleSponsorship n id sponsorship = .ok (res, ltx'))
    (hres : res ≠ .SUCCESS) : ltx' = ltx := by
  obtain ⟨acc, -, h⟩ := bind_eq_ok.mp h
  cases sponsorship with
  | some s =>
    obtain ⟨sAcc, -, h⟩ := bind_eq_ok.mp h
    obtain ⟨found, -, h⟩ := bind_eq_ok.mp h
    cases found with
    | SUCCESS =>
      obtain ⟨ltx₁, -, h⟩ := bind_eq_ok.mp h
      obtain ⟨ltx₂, -, h⟩ := bind_eq_ok.mp h
      cases h
      exact absurd rfl hres
    | _ => cases h; rfl
  | none => exact (changeOnSuccess_ok h fun _ _ => trivial).2 hres

theorem moves_createSigner (hv : ltx.header.StartsFrom 14)
    (h : ltx.createSignerWithPossibleSponsorship n id sponsorship = .ok (.SUCCESS, ltx')) :
    ∃ sponsor c, c = subEntries id 1 + Sponsorship.sponsorship sponsor id 1
      ∧ Moves ltx ltx' c (Sponsorship.sponsorship sponsor id 1)
      ∧ (∀ k, 0 < weight k c → Backed ltx k (weight k c)) ∧ ltx'.load = ltx.load := by
  obtain ⟨acc, hacc, h⟩ := bind_eq_ok.mp h
  rw [currentAccount_eq_ok] at hacc
  cases sponsorship with
  | some s =>
    obtain ⟨sAcc, hsAcc, h⟩ := bind_eq_ok.mp h
    rw [currentAccount_eq_ok] at hsAcc
    obtain ⟨res, hcheck, h⟩ := bind_eq_ok.mp h
    cases res with
    | SUCCESS =>
      obtain ⟨_, -, hcheck⟩ := bind_eq_ok.mp hcheck
      split_ifs at hcheck with hmany
      · cases hcheck
      obtain ⟨_, -, hcheck⟩ := bind_eq_ok.mp hcheck
      obtain ⟨_, hsigner, hcheck⟩ := bind_eq_ok.mp hcheck
      obtain ⟨hpay, hroom⟩ :=
        canEstablishSponsorshipHelper_eq_success hsAcc one_le_ten (loaded_some hacc) hcheck
      obtain ⟨ltx₁, h₁, h⟩ := bind_eq_ok.mp h
      obtain ⟨ltx₂, h₂, h⟩ := bind_eq_ok.mp h
      cases h
      have hcounts := counts_addNumSubEntries h₁
        (room_of_not_tooManyNumSubEntries hacc one_le_ten hv hmany)
      have hnone : signerAt ltx₁ id n = none := by
        rw [hcounts.signerAt, signerAt_eq hacc]
        exact signerSponsor_of_requireSigner hsigner (by decide)
      obtain ⟨hmoves, hload⟩ := moves_establishSignerSponsorship h₂ hnone
        ⟨by simpa [hcounts.counted] using hroom.sponsoring, fun k hk => by
          simpa [hcounts.counted] using hroom.sponsored k hk⟩
      have hall := hcounts.toMoves.trans hmoves
      rw [zero_add] at hall
      refine ⟨some s, _, rfl, hall, hpay.all ?_, hload.trans hcounts.load⟩
      intro k
      rw [map_add, weight_subEntries, weight_sponsorship]
      split_ifs <;> simp
    | _ => cases h
  | none =>
    obtain ⟨res, hcheck, h⟩ := bind_eq_ok.mp h
    cases res with
    | SUCCESS =>
      unfold canCreateSignerWithoutSponsorship at hcheck
      split_ifs at hcheck with hmany
      · cases hcheck
      obtain ⟨avail, havail, hcheck⟩ := bind_eq_ok.mp hcheck
      split_ifs at hcheck with hlow
      · cases hcheck
      obtain ⟨ltx₁, h₁, h⟩ := bind_eq_ok.mp h
      cases h
      have hcounts := counts_addNumSubEntries h₁
        (room_of_not_tooManyNumSubEntries hacc one_le_ten hv hmany)
      refine ⟨none, _, rfl, (add_zero (subEntries id 1)).symm ▸ hcounts.toMoves, ?_, hcounts.load⟩
      intro k hweight
      have hsub : weight k (subEntries id 1 + Sponsorship.sponsorship none id 1) = _ :=
        (congrArg _ (add_zero _)).trans (weight_subEntries k id)
      rw [hsub] at hweight ⊢
      split_ifs at hweight ⊢ with hid
      · subst hid
        exact CanPay.backed hacc one_le_ten (canPay_one havail hlow)
      · omega
    | _ => cases h

theorem step_createSigner {signer : Signer} {inserted : Ledger K} (hv : ltx.header.StartsFrom 14)
    (haligned : Aligned ltx) (hn : ∀ acc, ltx.accounts id = some acc → n ≤ acc.signers.length)
    (hinsert : ltx.modifyAccount id (fun acc => return insertSigner n signer acc) = .ok inserted)
    (h : inserted.createSignerWithPossibleSponsorship n id sponsorship = .ok (.SUCCESS, ltx')) :
    ∃ c, Step ltx ltx' c := by
  obtain ⟨hmoves, hload⟩ := moves_insertSigner hinsert haligned hn
  obtain ⟨sponsor, c, rfl, hmoves', hbacked, hload'⟩ := moves_createSigner (hmoves.header ▸ hv) h
  have hall := hmoves.trans hmoves'
  rw [zero_add] at hall
  exact ⟨_, hall, fun k hk => (hbacked k hk).of_moves hmoves hv,
    unsponsored_of_load (hload'.trans hload)⟩

theorem step_removeSigner (haligned : Aligned ltx) (hacc : ltx.accounts id = some acc)
    (hn : n < acc.signers.length)
    (h : removeSignerWithPossibleSponsorship ltx [id] id acc n = .ok ltx') :
    ∃ c, Step ltx ltx' c := by
  obtain ⟨sponsor, hsponsor, h⟩ := bind_eq_ok.mp h
  have hone : ∀ x : UInt32, ¬x < 1 → (1 : Int) ≤ x.toNat := by
    intro x hx
    rw [UInt32.lt_iff_toNat_lt] at hx
    have hval : (1 : UInt32).toNat = 1 := rfl
    omega
  cases sponsor with
  | none =>
    obtain ⟨_, hcheck, h⟩ := bind_eq_ok.mp h
    cases h
    unfold canRemoveSignerWithoutSponsorship at hcheck
    split_ifs at hcheck with henough
    obtain ⟨hmoves, hload⟩ := moves_removeSignerWithoutSponsorship hacc
      (signerSponsor_of_eq_ok hsponsor) (haligned id acc hacc) hn (hone _ henough)
    refine ⟨_, hmoves, ?_, unsponsored_of_load hload⟩
    intro k hweight
    rw [map_neg, weight_subEntries] at hweight
    split_ifs at hweight <;> omega
  | some s =>
    obtain ⟨sAcc, hsAcc, h⟩ := bind_eq_ok.mp h
    obtain ⟨hne, hsAcc⟩ := currentAccount_ok.mp hsAcc
    obtain ⟨_, hcheck, h⟩ := bind_eq_ok.mp h
    unfold canRemoveSignerWithSponsorship at hcheck
    split_ifs at hcheck with hold hsponsoring henough
    rw [not_or] at henough
    obtain ⟨_, hremove, h⟩ := bind_eq_ok.mp h
    obtain ⟨⟨sAcc', acc'⟩, h₁, hremove⟩ := bind_eq_ok.mp hremove
    cases hremove
    cases h
    obtain ⟨hmoves₁, hload₁, hnone, hsigners, hentries⟩ := moves_removeSignerSponsorship hacc
      (by simpa using hne) hsAcc h₁
      ⟨by rw [counted_at hsAcc]; exact hone _ hsponsoring, fun k hk => by
        rw [← Option.some.inj hk, counted_at hacc]
        exact hone _ henough.2⟩ rfl
    have hacc' : ((ltx.putAccount s sAcc').putAccount id acc').accounts id = some acc' :=
      update_self ..
    obtain ⟨hmoves₂, hload₂⟩ := moves_removeSignerWithoutSponsorship hacc' hnone
      (hmoves₁.aligned haligned id acc' hacc') (hsigners ▸ hn) (hentries ▸ hone _ henough.1)
    rw [putAccount_putAccount] at hmoves₂ hload₂
    refine ⟨_, hmoves₁.trans hmoves₂, ?_, unsponsored_of_load (hload₂.trans hload₁)⟩
    intro k hweight
    rw [map_add, map_neg, map_neg, weight_subEntries, weight_sponsorship] at hweight
    split_ifs at hweight <;> omega

end SignerCalls

/-! ## Consistency -/

/-- The counters are exact, every signer has its place in the list of sponsors,
and every claimable balance has a sponsor. What belongs to an account that does
not exist, or is sponsored by one, amounts to nothing: there is no such thing. -/
structure Consistent (ltx : Ledger K) : Prop where
  exact : ∀ id, counters (ltx.accounts id) = Tally.at id (due ltx)
  aligned : Aligned ltx
  sponsored : ∀ ref, ¬Unsponsored ltx ref

theorem Tally.ext_at {s t : Tally} (h : ∀ id, Tally.at id s = Tally.at id t) : s = t := by
  refine Prod.ext (funext fun id => ?_) (Prod.ext (funext fun id => ?_) (funext fun id => ?_))
  · exact congrArg Prod.fst (h id)
  · exact congrArg (·.2.1) (h id)
  · exact congrArg (·.2.2) (h id)

theorem exact_iff (ltx : Ledger K) :
    (∀ id, counters (ltx.accounts id) = Tally.at id (due ltx)) ↔ counted ltx = due ltx := by
  constructor
  · intro h
    exact Tally.ext_at fun id => (at_counted ltx id).trans (h id)
  · intro h id
    rw [← at_counted, h]

variable {ltx ltx' : Ledger K} {c : Tally}

theorem Consistent.counted_eq (h : Consistent ltx) : counted ltx = due ltx :=
  (exact_iff ltx).mp h.exact

theorem Step.consistent (h : Step ltx ltx' c) (hcon : Consistent ltx) : Consistent ltx' where
  exact := (exact_iff ltx').mpr (by rw [h.moves.counted, h.moves.due, hcon.counted_eq])
  aligned := h.moves.aligned hcon.aligned
  sponsored ref hun := hcon.sponsored ref (h.unsponsored ref hun)

/-- What a successful call has to do. -/
structure Sound (ltx ltx' : Ledger K) : Prop where
  consistent : Consistent ltx'
  covered : Covered ltx ltx'
  header : ltx'.header = ltx.header

theorem Step.sound (h : Step ltx ltx' c) (hv : ltx.header.StartsFrom 14) (hcon : Consistent ltx) :
    Sound ltx ltx' :=
  ⟨h.consistent hcon, h.moves.covered hv h.backed, h.moves.header⟩

/-! ## Accounts -/

section NewAccount

variable {ltx ltx₁ : Ledger K} {id : AccountID} {acc : AccountEntry}

theorem load_newAccount [DecidableEq K] (ltx : Ledger K) (id : AccountID) (acc : AccountEntry) :
    Ledger.load (ltx.putAccount id acc)
      = update ltx.load (.account id) (some ⟨.account, id, acc.sponsoringID⟩) := by
  funext ref
  by_cases hsame : ref = .account id
  · subst hsame
    simp [Ledger.load, putAccount]
  · cases ref with
    | account k =>
      have hk : k ≠ id := fun heq => hsame (heq ▸ rfl)
      simp [Ledger.load, putAccount, hk]
    | entry key => rfl

/-- What a new account counts, with what its sponsor counts for it, is what there is to be
counted of it. -/
theorem sound_newAccount (hv : ltx.header.StartsFrom 14) (hcon : Consistent ltx)
    (habsent : ltx.accounts id = none) (hmoves : Moves ltx ltx₁ c 0) (hload : ltx₁.load = ltx.load)
    (hbacked : ∀ k, 0 < weight k c → Backed ltx k (weight k c))
    (hsum : c + accountCounted id acc = accountOwed id acc) (haligned : AlignedAccount acc)
    (hleft : 0 < acc.reserve ltx.header →
      ∃ left, getAvailableBalance ltx.header acc = .ok left ∧ 0 ≤ left) :
    Sound ltx (ltx₁.putAccount id acc) := by
  have habsent₁ : ltx₁.accounts id = none := by
    have hmoney := hmoves.money id
    rw [moneyAt, moneyAt, habsent] at hmoney
    exact Option.map_eq_none_iff.mp hmoney
  refine ⟨⟨(exact_iff _).mpr ?_, forall_putAccount (hmoves.aligned hcon.aligned) haligned, ?_⟩, ?_,
    hmoves.header⟩
  · have hcounted := counted_updateAccount ltx₁ id (some acc)
    have hdue := due_updateAccount ltx₁ id (some acc)
    rw [habsent₁, hmoves.counted] at hcounted
    rw [habsent₁, hmoves.due, add_zero, ← hcon.counted_eq] at hdue
    refine hcounted.trans (Eq.trans ?_ hdue.symm)
    rw [worth_none, worth_none, sub_zero, sub_zero, add_assoc]
    exact congrArg _ hsum
  · intro ref hun
    classical
    refine hcon.sponsored ref (unsponsored_of_load hload ref
      (unsponsored_of_update (load_newAccount ltx₁ id acc) ?_ ref hun))
    simp [isClaimableBalance]
  · intro k acc' hacc' hlt
    by_cases hk : k = id
    · subst hk
      have hself : (ltx₁.putAccount k acc).accounts k = some acc := update_self ..
      obtain rfl := Option.mem_unique hself hacc'
      rw [reserveAt, habsent] at hlt
      exact hmoves.header ▸ hleft (hmoves.header ▸ hlt)
    · have hsame : ltx₁.accounts k = some acc' := (update_of_ne hk ..).symm.trans hacc'
      exact hmoves.left_nonneg hv (hbacked k) hsame hlt

variable {balance seqNum : Int64}

/-- A new account keeps the reserve for itself. -/
theorem left_nonneg_newAccount {lh : LedgerHeader} (hv : lh.StartsFrom 14) {minBalance : Int64}
    (hmin : getMinBalance lh { balance, seqNum } = .ok minBalance)
    (hcheck : ¬balance < minBalance) :
    ∃ left, getAvailableBalance lh { balance, seqNum } = .ok left ∧ 0 ≤ left := by
  have heff : eff { balance, seqNum } = 2 := rfl
  have hbase := lh.baseReserve.toNat_lt
  rw [getMinBalance_eq_ofInt hv, heff] at hmin
  cases hmin
  rw [lt_iff_toInt_lt, toInt_ofInt_of_le (by omega) (by omega)] at hcheck
  obtain ⟨hlow, hhigh⟩ := inRange_toInt balance
  refine ⟨Int64.ofInt (leftOver lh { balance, seqNum }), ?_, ?_⟩
  · rw [getAvailableBalance_eq_ofInt hv, heff, if_neg (by decide)]
  · have hleft : leftOver lh { balance, seqNum } = balance.toInt - 2 * lh.baseReserve.toNat :=
      Int.sub_zero _
    rw [le_iff_toInt_le, toInt_zero, toInt_ofInt_of_le (by omega) (by omega)]
    omega

theorem createAccountWithPossibleSponsorship_unchanged {le : AccountEntry}
    {entries : SponsorshipEntries (K → Option OtherEntry)} {res : SponsorshipResult}
    (h : createAccountWithPossibleSponsorship ltx id le = .ok (res, ltx₁, acc))
    (hres : res ≠ .SUCCESS) : ltx₁ = ltx := by
  unfold createAccountWithPossibleSponsorship at h
  split at h
  · obtain ⟨sAcc, -, h⟩ := bind_eq_ok.mp h
    obtain ⟨found, -, h⟩ := bind_eq_ok.mp h
    cases found <;> cases h <;> first | rfl | exact absurd rfl hres
  · obtain ⟨minBalance, -, h⟩ := bind_eq_ok.mp h
    split_ifs at h <;> cases h <;> rfl

theorem sound_createAccount (hv : ltx.header.StartsFrom 14) (hcon : Consistent ltx)
    (habsent : ltx.accounts id = none) {sponsorship : Option AccountID}
    (h : @createAccountWithPossibleSponsorship _ (sponsoredBy _ sponsorship) ltx id
      { balance, seqNum } = .ok (.SUCCESS, ltx₁, acc)) : Sound ltx (ltx₁.putAccount id acc) := by
  cases sponsorship with
  | none =>
    obtain ⟨minBalance, hmin, h⟩ := bind_eq_ok.mp h
    split_ifs at h with hlow
    · cases h
    cases h
    refine sound_newAccount hv hcon habsent (Moves.refl ltx) rfl (fun k hk => absurd hk ?_) ?_ ?_
      fun _ => left_nonneg_newAccount hv hmin hlow
    · simp
    · simp [accountCounted, accountOwed, signerIDs, AccountEntry.extV2, Sponsorship.sponsorship,
        AccountEntry.getNumSponsoring, AccountEntry.getNumSponsored]
    · intro v2 hv2
      cases hv2
  | some s =>
    obtain ⟨sAcc, hsAcc, h⟩ := bind_eq_ok.mp h
    rw [currentAccount_eq_ok] at hsAcc
    obtain ⟨res, hcheck, h⟩ := bind_eq_ok.mp h
    cases res with
    | SUCCESS =>
      cases h
      unfold canCreateAccountWithSponsorship at hcheck
      split_ifs at hcheck
      obtain ⟨hpay, hroom⟩ := canEstablishSponsorshipHelper_eq_success (o := none) hsAcc
        (by decide) (by simp) hcheck
      have hadd : Ledger.addNumSponsoring ltx s accountMultiplier = .ok _ :=
        modifyAccount_eq_ok.mpr ⟨sAcc, _, hsAcc, rfl, rfl⟩
      have hcounts := counts_addNumSponsoring hadd hroom.sponsoring
      refine sound_newAccount hv hcon habsent hcounts.toMoves hcounts.load (hpay.all fun k => ?_)
        ?_ ?_ fun hpos => absurd hpos ?_
      · simp [weight_apply]
      · show sponsoring s 2 + (sponsoring id 0 + sponsored id 2 + subEntries id 0)
          = sponsoring s 2 + sponsored id 2 + 0 + subEntries id 0
        rw [sponsoring_zero, zero_add, add_zero, add_assoc]
      · rintro v2 ⟨⟩
        rfl
      · rw [reserve_eq hv]
        show ¬0 < (0 : Int) * _
        simp
    | _ => cases h

end NewAccount

variable (id : AccountID) (t : Tally)

/-- What of an account is sponsored, and its sub-entries. -/
def ofOwner : Tally →+ Int × Int :=
  (AddMonoidHom.snd Int (Int × Int)).comp (Tally.at id)

theorem ofOwner_apply : ofOwner id t = (Tally.at id t).2 := rfl

/-- The sub-entries of an account that are not sponsored. -/
def unsponsoredSubEntries : Tally →+ Int :=
  (AddMonoidHom.snd Int Int).comp (ofOwner id) - (AddMonoidHom.fst Int Int).comp (ofOwner id)

theorem unsponsoredSubEntries_apply :
    unsponsoredSubEntries id t = (Tally.at id t).2.2 - (Tally.at id t).2.1 := rfl

theorem at_owed (id : AccountID) (le : LedgerEntry) :
    (Tally.at id le.owed).2
      = (if le.sponsoringID.isSome ∧ le.sponsoredID = some id then
            (le.computeMultiplier.toNat : Int) else 0,
        if le.isSubentry ∧ id = le.accountID then (le.computeMultiplier.toNat : Int) else 0) := by
  rw [owed_eq]
  cases le.sponsoringID <;> simp [worth, bySponsor]

/-- Only sub-entries of an account are sponsored. -/
theorem unsponsoredSubEntries_owed {le : LedgerEntry} (hother : ¬le.isAccount = true)
    (id : AccountID) :
    0 ≤ (Tally.at id le.owed).2.1 ∧ 0 ≤ unsponsoredSubEntries id le.owed := by
  have himp : le.sponsoredID = some id → le.isSubentry = true ∧ id = le.accountID := by
    intro hid
    unfold sponsoredID at hid
    split_ifs at hid with hbalance
    exact ⟨isSubentry_of_not hother hbalance, (Option.some.inj hid).symm⟩
  rw [unsponsoredSubEntries_apply, at_owed]
  by_cases hid : le.sponsoredID = some id
  · rw [if_pos (himp hid)]
    split_ifs <;> simp
  · rw [if_neg (fun hand => hid hand.2)]
    split_ifs <;> simp

theorem signerIDs_eq_nil {acc : AccountEntry} (haligned : AlignedAccount acc)
    (h : acc.signers = []) : signerIDs acc = [] := by
  unfold signerIDs
  cases hv2 : acc.extV2 with
  | none => rfl
  | some v2 => simpa [h] using haligned v2 hv2

section LastEntry

variable [Finite K] {ltx : Ledger K} {id : AccountID} {acc : AccountEntry}

omit [Finite K] in
theorem ofOwner_accounts (hacc : ltx.accounts id = some acc) :
    ofOwner id (total fun k => worth (accountOwed k) (ltx.accounts k))
      = ofOwner id (accountOwed id acc) := by
  rw [total_eq (ofOwner id) _ id, hacc]
  · rfl
  · intro k hk
    cases ltx.accounts k with
    | none => rfl
    | some acc' =>
      have hsponsorship : ∀ s m, ofOwner id (sponsorship s k m) = 0 := by
        intro s m
        cases s with
        | none => rfl
        | some s => simp [ofOwner_apply, sponsorship, Ne.symm hk]
      have hsigners : ofOwner id (signersOwed k acc') = 0 := by
        rw [signersOwed, map_list_sum]
        exact sum_eq_zero (by simp [hsponsorship])
      have hsub : ofOwner id (subEntries k acc'.signers.length) = 0 := by
        simp [ofOwner_apply, Ne.symm hk]
      rw [worth, map_some, getD_some, accountOwed_eq, map_add, map_add,
        hsponsorship, hsigners, hsub, add_zero, add_zero]

/-- An account without sub-entries has no signers, and nothing of it is sponsored but the
account itself. -/
theorem nothing_owned (haligned : AlignedAccount acc) (hacc : ltx.accounts id = some acc)
    (hzero : (Tally.at id (due ltx)).2.2 = 0) :
    acc.signers = [] ∧ (Tally.at id (due ltx)).2.1 = if acc.sponsoringID.isSome then 2 else 0 := by
  have hothers : ∀ key, 0 ≤ (Tally.at id (worth OtherEntry.owed (ltx.others key))).2.1
      ∧ 0 ≤ unsponsoredSubEntries id (worth OtherEntry.owed (ltx.others key)) := by
    intro key
    cases ltx.others key with
    | none => exact ⟨le_rfl, le_rfl⟩
    | some e => exact unsponsoredSubEntries_owed (by simp [isAccount]) id
  have hfst := total_nonneg ((AddMonoidHom.fst Int Int).comp (ofOwner id)) _
    fun key => (hothers key).1
  have hrest := total_nonneg (unsponsoredSubEntries id) _ fun key => (hothers key).2
  have hsigners : (Tally.at id (signersOwed id acc)).2.2 = 0 := by
    have hone : ∀ s, ((AddMonoidHom.snd Int Int).comp (ofOwner id)) (sponsorship s id 1) = 0 := by
      intro s
      cases s with
      | none => rfl
      | some s => simp [ofOwner_apply, sponsorship]
    have hsum : ((AddMonoidHom.snd Int Int).comp (ofOwner id)) (signersOwed id acc) = 0 := by
      rw [signersOwed, map_list_sum]
      exact sum_eq_zero (by simpa using fun s _ => hone s)
    exact hsum
  have hsplit : (Tally.at id (due ltx)).2
      = (Tally.at id (total fun key => worth OtherEntry.owed (ltx.others key))).2
        + ((if acc.sponsoringID.isSome then 2 else 0, 0) + (Tally.at id (signersOwed id acc)).2
          + (0, (acc.signers.length : Int))) := by
    have haccount : ofOwner id (accountOwed id acc)
        = (if acc.sponsoringID.isSome then 2 else 0, 0) + (Tally.at id (signersOwed id acc)).2
          + (0, (acc.signers.length : Int)) := by
      cases hs : acc.sponsoringID <;> simp [accountOwed_eq, hs, sponsorship, ofOwner_apply]
    rw [← haccount, ← ofOwner_accounts hacc, due]
    rfl
  rw [hsplit] at hzero
  simp only [Prod.snd_add, hsigners] at hzero
  have hfst' : 0 ≤ (Tally.at id (total fun key => worth OtherEntry.owed (ltx.others key))).2.1 :=
    hfst
  rw [unsponsoredSubEntries_apply] at hrest
  have hlength : acc.signers = [] := eq_nil_of_length_eq_zero (by omega)
  have hids : signersOwed id acc = 0 := by
    rw [signersOwed, signerIDs_eq_nil haligned hlength]
    rfl
  refine ⟨hlength, ?_⟩
  rw [hsplit, hids, map_zero]
  simp only [Prod.fst_add, Prod.snd_zero, Prod.fst_zero]
  omega

variable {ltx' : Ledger K}

omit [Finite K] in
/-- The sponsor counts less, and the account is as it was. -/
theorem moves_removeAccount (hacc : ltx.accounts id = some acc)
    (h : removeAccountWithPossibleSponsorship ltx [id] id acc = .ok ltx') :
    Moves ltx ltx' (-worth (sponsoring · 2) acc.sponsoringID) 0 ∧ ltx'.load = ltx.load
      ∧ ltx'.accounts id = some acc := by
  unfold removeAccountWithPossibleSponsorship at h
  cases hs : acc.sponsoringID with
  | none =>
    rw [hs] at h
    cases h
    rw [worth_none, neg_zero]
    exact ⟨Moves.refl ltx, rfl, hacc⟩
  | some s =>
    simp only [hs] at h
    split_ifs at h with hself
    obtain ⟨sAcc, hsAcc, h⟩ := bind_eq_ok.mp h
    obtain ⟨-, hsAcc⟩ := currentAccount_ok.mp hsAcc
    obtain ⟨_, hcheck, h⟩ := bind_eq_ok.mp h
    obtain ⟨sv2, hsv2, h⟩ := bind_eq_ok.mp h
    obtain ⟨_, -, h⟩ := bind_eq_ok.mp h
    cases h
    unfold canRemoveAccountWithSponsorship at hcheck
    split_ifs at hcheck with _ henough
    have hsub : Ledger.subNumSponsoring ltx s accountMultiplier = .ok _ :=
      modifyAccount_eq_ok.mpr ⟨sAcc, _, hsAcc, bind_eq_ok.mpr ⟨sv2, hsv2, rfl⟩, rfl⟩
    have hcounts := counts_subNumSponsoring hsub (by
      rw [counted_at hsAcc]
      exact Int.ofNat_le.mpr (Nat.le_of_not_lt henough))
    rw [sponsoring_neg] at hcounts
    exact ⟨hcounts.toMoves, hcounts.load, (update_of_ne (Ne.symm hself) ..).trans hacc⟩

theorem sound_removeAccount (hv : ltx.header.StartsFrom 14) (hcon : Consistent ltx)
    (hacc : ltx.accounts id = some acc) (hsub : acc.numSubEntries = 0)
    (hsponsoring : acc.getNumSponsoring = 0)
    (h : removeAccountWithPossibleSponsorship ltx [id] id acc = .ok ltx') :
    Sound ltx (ltx'.eraseAccount id) := by
  obtain ⟨hmoves, hload, hacc'⟩ := moves_removeAccount hacc h
  have hexact := hcon.exact id
  rw [hacc, counters, hsub] at hexact
  obtain ⟨hsigners, hsponsored⟩ := nothing_owned (hcon.aligned id acc hacc) hacc
    (congrArg (·.2.2) hexact.symm)
  rw [← hexact] at hsponsored
  dsimp only at hsponsored
  have hcounted : accountOwed id acc
      = accountCounted id acc + worth (sponsoring · 2) acc.sponsoringID := by
    rw [accountCounted, hsponsoring, hsub, hsponsored, accountOwed, hsigners,
      signerIDs_eq_nil (hcon.aligned id acc hacc) hsigners]
    cases acc.sponsoringID with
    | none => simp [sponsorship, worth]
    | some s => simp [sponsorship, worth, add_comm]
  have hother : ∀ k acc, (ltx'.eraseAccount id).accounts k = some acc →
      ltx'.accounts k = some acc := by
    intro k acc hk
    unfold eraseAccount at hk
    by_cases heq : k = id
    · subst heq
      simp at hk
    · simpa [heq] using hk
  refine ⟨⟨(exact_iff _).mpr ?_, ?_, ?_⟩, ?_, hmoves.header⟩
  · have hc := counted_updateAccount ltx' id none
    have hd := due_updateAccount ltx' id none
    rw [hacc', hmoves.counted] at hc
    rw [hacc', hmoves.due, ← hcon.counted_eq] at hd
    refine hc.trans (Eq.trans ?_ hd.symm)
    change counted ltx + -worth (sponsoring · 2) acc.sponsoringID + (0 - accountCounted id acc)
      = counted ltx + 0 + (0 - accountOwed id acc)
    rw [hcounted]
    abel
  · intro k acc hk
    exact hmoves.aligned hcon.aligned k acc (hother k acc hk)
  · rintro ref ⟨le, hle, hbalance, hunsponsored⟩
    cases ref with
    | account k =>
      obtain ⟨acc, -, rfl⟩ := map_eq_some_iff.mp hle
      simp [isClaimableBalance] at hbalance
    | entry key =>
      exact hcon.sponsored (.entry key)
        ⟨le, (congrFun hload (.entry key)).symm.trans hle, hbalance, hunsponsored⟩
  · intro k kAcc hk hlt
    refine hmoves.left_nonneg hv (fun hpos => absurd hpos ?_) (hother k kAcc hk) hlt
    -- the sponsor of the account, if any, needs less
    rw [map_neg]
    cases acc.sponsoringID with
    | none => simp [worth]
    | some s =>
      simp [worth, weight_apply]
      split_ifs <;> simp

end LastEntry

/-! ## Runs -/

section Runs

variable [Finite K] [DecidableEq K] {ltx ltx' : Ledger K}

omit [Finite K] in
/-- What is at hand has no sponsorship yet, and no counter counts it. -/
theorem Call.counters_prepare {call : Call K} (h : call.prepare ltx = .ok ltx') (k : AccountID) :
    counters (ltx'.accounts k) = counters (ltx.accounts k) := by
  cases call with
  | createEntry key kind id sponsorship =>
    simp only [Call.prepare] at h
    split_ifs at h
    cases h
    rfl
  | createAccount id balance seqNum sponsorship =>
    simp only [Call.prepare] at h
    split_ifs at h
    cases h
    rfl
  | createSigner id n signer sponsorship =>
    obtain ⟨acc, _, hacc, hinsert, rfl⟩ := modifyAccount_eq_ok.mp h
    cases hinsert
    by_cases hk : k = id
    · have hext : (insertSigner n signer acc).extV2 = acc.extV2.map fun v2 =>
          { v2 with signerSponsoringIDs := v2.signerSponsoringIDs.insertIdx n none } :=
        extV2_modifyExtV2 _ _
      rw [hk, hacc, show (putAccount ltx id _).accounts id = some _ from update_self ..]
      simp only [counters, AccountEntry.getNumSponsoring, AccountEntry.getNumSponsored, hext,
        Option.map_map, Function.comp_def]
      rfl
    · simp [putAccount, hk]
  | _ =>
    cases h
    rfl

/-- One call: a success is sound, and every other outcome leaves the ledger that the call
found. -/
theorem Call.run_sound (hv : ltx.header.StartsFrom 14)
    (hcon : Consistent ltx) {call : Call K} (hallowed : call.Allowed ltx) {res : SponsorshipResult}
    (h : call.run ltx = .ok (res, ltx')) :
    (res = .SUCCESS → Sound ltx ltx') ∧ (res ≠ .SUCCESS → call.prepare ltx = .ok ltx') := by
  obtain ⟨found, hfound, h⟩ := bind_eq_ok.mp h
  suffices hsuff : (res = .SUCCESS → Sound ltx ltx') ∧ (res ≠ .SUCCESS → ltx' = found) from
    ⟨hsuff.1, fun hres => hsuff.2 hres ▸ hfound⟩
  cases call with
  | createEntry key kind id sponsorship =>
    simp only [Call.prepare] at hfound
    split_ifs at hfound with habsent
    cases hfound
    refine ⟨fun hres => ?_, (createEntryWithPossibleSponsorship_ok (load_created ..) h).2⟩
    subst hres
    obtain ⟨c, hstep⟩ := step_createEntry (not_isSome_iff_eq_none.mp habsent) hv h
    exact hstep.sound hv hcon
  | createAccount id balance seqNum sponsorship =>
    simp only [Call.prepare] at hfound
    split_ifs at hfound with habsent
    cases hfound
    obtain ⟨⟨res', ltx₁, acc⟩, hcreate, h⟩ := bind_eq_ok.mp h
    cases h
    refine ⟨fun hres => ?_, fun hres => ?_⟩
    · subst hres
      exact sound_createAccount hv hcon (not_isSome_iff_eq_none.mp habsent) hcreate
    · rw [if_neg hres]
      exact createAccountWithPossibleSponsorship_unchanged hcreate hres
  | createSigner id n signer sponsorship =>
    refine ⟨fun hres => ?_, createSignerWithPossibleSponsorship_unchanged h⟩
    subst hres
    obtain ⟨c, hstep⟩ := step_createSigner hv hcon.aligned hallowed hfound h
    exact hstep.sound hv hcon
  | removeEntry key id =>
    cases hfound
    obtain ⟨ltx₁, h₁, h⟩ := bind_eq_ok.mp h
    cases h
    refine ⟨fun _ => ?_, absurd rfl⟩
    obtain ⟨le, hle, -⟩ := bind_eq_ok.mp h₁
    rw [current_eq_ok] at hle
    obtain ⟨e, he, rfl⟩ := map_eq_some_iff.mp hle
    refine (step_removeEntry hle (fun hbalance => ?_) (fun hbalance => ?_) h₁).sound hv hcon
    · exact hallowed e he (isSubentry_of_not (not_isAccount_of_load hle) hbalance)
    · by_contra hnone
      exact hcon.sponsored (.entry key) ⟨_, hle, hbalance, not_isSome_iff_eq_none.mp hnone⟩
  | removeAccount id =>
    cases hfound
    obtain ⟨acc, hacc, h⟩ := bind_eq_ok.mp h
    obtain ⟨ltx₁, h₁, h⟩ := bind_eq_ok.mp h
    cases h
    rw [currentAccount_eq_ok] at hacc
    obtain ⟨hsub, hsponsoring⟩ := hallowed acc hacc
    exact ⟨fun _ => sound_removeAccount hv hcon hacc hsub hsponsoring h₁, absurd rfl⟩
  | removeSigner id n =>
    cases hfound
    obtain ⟨acc, hacc, h⟩ := bind_eq_ok.mp h
    obtain ⟨ltx₁, h₁, h⟩ := bind_eq_ok.mp h
    cases h
    rw [currentAccount_eq_ok] at hacc
    obtain ⟨c, hstep⟩ := step_removeSigner hcon.aligned hacc (hallowed acc hacc) h₁
    exact ⟨fun _ => hstep.sound hv hcon, absurd rfl⟩
  | establishEntrySponsorship ref sponsoringID =>
    cases hfound
    simp only [bind_eq_ok, current_eq_ok, currentAccount_eq_ok] at h
    obtain ⟨le, hle, acc, hacc, sponsoredAcc, hsponsored, h⟩ := h
    exact changeOnSuccess_ok h fun hcheck hchange =>
      (step_establishEntrySponsorship hle hacc hsponsored hcheck hchange).sound hv hcon
  | removeEntrySponsorship ref =>
    cases hfound
    simp only [bind_eq_ok, current_eq_ok, currentAccount_eq_ok] at h
    obtain ⟨le, hle, s, -, acc, hacc, sponsoredAcc, hsponsored, h⟩ := h
    exact changeOnSuccess_ok h fun hcheck hchange =>
      (step_removeEntrySponsorship hle hacc hsponsored (hallowed le hle) hcheck hchange).sound hv
        hcon
  | transferEntrySponsorship ref newID =>
    cases hfound
    simp only [bind_eq_ok, current_eq_ok, currentAccount_eq_ok] at h
    obtain ⟨le, hle, s, -, acc, hacc, acc', hacc', h⟩ := h
    exact changeOnSuccess_ok h fun hcheck hchange =>
      (step_transferEntrySponsorship hle hacc hacc' hcheck hchange).sound hv hcon
  | establishSignerSponsorship id n sponsoringID =>
    cases hfound
    simp only [bind_eq_ok, currentAccount_eq_ok] at h
    obtain ⟨acc, hacc, sAcc, hsAcc, h⟩ := h
    exact changeOnSuccess_ok h fun hcheck hchange =>
      (step_establishSignerSponsorship hacc hsAcc hcheck hchange).sound hv hcon
  | removeSignerSponsorship id n =>
    cases hfound
    simp only [bind_eq_ok, currentAccount_ok, not_mem_nil, not_false_eq_true, true_and] at h
    obtain ⟨acc, hacc, sponsor, -, s, -, sAcc, ⟨hne, hsAcc⟩, h⟩ := h
    refine changeOnSuccess_ok h fun hcheck hchange => ?_
    obtain ⟨⟨sAcc', acc'⟩, hremove, hchange⟩ := bind_eq_ok.mp hchange
    cases hchange
    exact (step_removeSignerSponsorship hacc hsAcc (by simpa using hne) hcheck hremove).sound hv
      hcon
  | transferSignerSponsorship id n newID =>
    cases hfound
    simp only [bind_eq_ok, currentAccount_eq_ok] at h
    obtain ⟨acc, hacc, sponsor, -, s, -, sAcc, hsAcc, tAcc, htAcc, h⟩ := h
    exact changeOnSuccess_ok h fun hcheck hchange =>
      (step_transferSignerSponsorship hsAcc htAcc hcheck hchange).sound hv hcon

/-- The ledgers that sequences of calls lead to. A call that does not succeed leads nowhere:
its operation fails, and what it had at hand is dropped. -/
inductive Reaches (ltx : Ledger K) : Ledger K → Prop
  | refl : Reaches ltx ltx
  | call {ltx₁ ltx₂ : Ledger K} (call : Call K) :
      Reaches ltx ltx₁ → call.Allowed ltx₁ → call.run ltx₁ = .ok (.SUCCESS, ltx₂) →
        Reaches ltx ltx₂

theorem Reaches.consistent (hv : ltx.header.StartsFrom 14)
    (hcon : Consistent ltx) (h : Reaches ltx ltx') :
    Consistent ltx' ∧ ltx'.header = ltx.header := by
  induction h with
  | refl => exact ⟨hcon, rfl⟩
  | @call ltx₁ ltx₂ call _ hallowed hrun ih =>
    obtain ⟨hcon₁, hheader⟩ := ih
    have hsound := (Call.run_sound (hheader ▸ hv) hcon₁ hallowed hrun).1 rfl
    exact ⟨hsound.consistent, hsound.header.trans hheader⟩

/-- Sponsorship accounting is exact: after any sequence of calls, a call that succeeds leaves
a consistent ledger and whoever has to keep more can, and a call that does not succeed
leaves the ledger that it found, with all counters as they were. -/
theorem sponsorship_accounting_exact
    (hv : protocolVersionStartsFrom ltx.header.ledgerVersion 14 = true) (hcon : Consistent ltx)
    {before after : Ledger K} (hreach : Reaches ltx before) (call : Call K)
    (hallowed : call.Allowed before) {res : SponsorshipResult}
    (hrun : call.run before = .ok (res, after)) :
    (res = .SUCCESS → Consistent after ∧ Covered before after)
      ∧ (res ≠ .SUCCESS → call.prepare before = .ok after
        ∧ ∀ id, counters (after.accounts id) = counters (before.accounts id)) := by
  obtain ⟨hcon', hheader⟩ := hreach.consistent hv hcon
  obtain ⟨hsuccess, hfail⟩ := Call.run_sound (hheader ▸ hv) hcon' hallowed hrun
  exact ⟨fun hres => ⟨(hsuccess hres).consistent, (hsuccess hres).covered⟩,
    fun hres => ⟨hfail hres, Call.counters_prepare (hfail hres)⟩⟩

end Runs

/-! ### Two accounts and a data entry -/

/-- A ledger without accounts. -/
def emptyLedger (K : Type) : Ledger K where
  header := headerWithReserve 5
  accounts _ := none
  others _ := none

theorem emptyLedger_consistent : Consistent (emptyLedger K) where
  exact id := by
    have hzero : ∀ ι : Type, total (fun _ : ι => (0 : Tally)) = 0 := fun ι => finsum_zero
    have hdue : due (emptyLedger K) = 0 := by
      exact (congrArg₂ (· + ·) (hzero K) (hzero AccountID)).trans (add_zero 0)
    rw [hdue]
    rfl
  aligned _ _ h := by cases h
  sponsored ref h := by
    obtain ⟨le, hle, -⟩ := h
    cases ref <;> cases hle

/-- The ledger a call leads to; with no result the ledger before. -/
def Call.after [DecidableEq K] (call : Call K) (ltx : Ledger K) : Ledger K :=
  match call.run ltx with
  | .ok (_, ltx') => ltx'
  | .error _ => ltx

theorem Call.run_after [DecidableEq K] {call : Call K} {ltx : Ledger K} {res : SponsorshipResult}
    (h : (call.run ltx).toOption.map Prod.fst = some res) :
    call.run ltx = .ok (res, call.after ltx) := by
  unfold Call.after
  cases hrun : call.run ltx with
  | error e => simp [hrun, Except.toOption] at h
  | ok r =>
    obtain ⟨res', ltx'⟩ := r
    simp only [hrun, Except.toOption, map_some, Option.some.injEq] at h
    rw [h]

/-- Two accounts with a balance of 100, and a base reserve of 5. -/
def twoAccounts (K : Type) [DecidableEq K] : Ledger K :=
  (Call.createAccount 2 100 0 none).after ((Call.createAccount 1 100 0 none).after (emptyLedger K))

theorem reaches_twoAccounts [DecidableEq K] : Reaches (emptyLedger K) (twoAccounts K) :=
  (Reaches.refl.call (.createAccount 1 100 0 none) trivial (Call.run_after rfl)).call
    (.createAccount 2 100 0 none) trivial (Call.run_after rfl)

/-- The second account sponsors a data entry of the first. -/
theorem sponsorship_accounting_exact_sponsored_data :
    Consistent ((Call.createEntry () .data 1 (some 2)).after (twoAccounts Unit))
      ∧ Covered (twoAccounts Unit) ((Call.createEntry () .data 1 (some 2)).after (twoAccounts Unit))
      ∧ (((Call.createEntry () .data 1 (some 2)).after (twoAccounts Unit)).accounts 2).map
        (·.getNumSponsoring) = some 1 := by
  have hrun : (Call.createEntry () .data 1 (some 2)).run (twoAccounts Unit) = .ok (.SUCCESS, _) :=
    Call.run_after rfl
  have h := (sponsorship_accounting_exact (by decide) emptyLedger_consistent reaches_twoAccounts
    (.createEntry () .data 1 (some 2)) trivial hrun).1 rfl
  exact ⟨h.1, h.2, rfl⟩

/-- The first account has a claimable balance, which it sponsors, and a data
entry. -/
def balanceAndData : Ledger Bool :=
  (Call.createEntry false .data 1 none).after
    ((Call.createEntry true (.claimableBalance 1) 1 none).after (twoAccounts Bool))

theorem balanceAndData_consistent : Consistent balanceAndData := by
  have hreach : Reaches (emptyLedger Bool) balanceAndData :=
    (reaches_twoAccounts.call (.createEntry true (.claimableBalance 1) 1 none) trivial
      (Call.run_after rfl)).call (.createEntry false .data 1 none) trivial (Call.run_after rfl)
  exact (hreach.consistent (by decide) emptyLedger_consistent).1

/-- Without its sponsor, a claimable balance is taken for a sub-entry when it is
removed: the account then counts none, and still has its data entry. -/
theorem unsponsored_balance_miscounted :
    let unsponsored := (Call.removeEntrySponsorship (.entry true)).after balanceAndData
    let removed := (Call.removeEntry true 1).after unsponsored
    Consistent balanceAndData
      ∧ (Call.removeEntrySponsorship (.entry true)).run balanceAndData = .ok (.SUCCESS, unsponsored)
      ∧ (Call.removeEntry true 1).run unsponsored = .ok (.SUCCESS, removed)
      ∧ ¬∀ id, counters (removed.accounts id) = Tally.at id (due removed) := by
  intro unsponsored removed
  refine ⟨balanceAndData_consistent, Call.run_after rfl, Call.run_after rfl, fun hexact => ?_⟩
  have hcount : (counters (removed.accounts 1)).2.2 = 0 := rfl
  have hothers : (Tally.at 1 (total fun key => worth OtherEntry.owed (removed.others key))).2
      = (0, 1) := by
    rw [total, finsum_eq_sum_of_fintype, Fintype.sum_bool]
    rfl
  have haccounts : (Tally.at 1 (total fun k => worth (accountOwed k) (removed.accounts k))).2
      = (0, 0) := (ofOwner_accounts rfl).trans rfl
  rw [hexact 1, due, map_add, Prod.snd_add, hothers, haccounts] at hcount
  exact absurd hcount (by decide)

end KinesisCore.Sponsorship

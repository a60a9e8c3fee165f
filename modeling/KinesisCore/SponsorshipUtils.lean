import KinesisCore.Fallible
import KinesisCore.Ledger

/-!
# Sponsorship (`SponsorshipUtils.cpp`)

An account can pay the reserve of another account's entries and signers. Who
sponsors a signer is in a list beside the list of signers, and both accounts
count: the sponsored one what is paid for it, the sponsoring one what it pays.
Here are the functions for signers and for account entries.

A position in the list of signers stands for an iterator. `at` on a vector and
access to an entry that is not there throw, and so does loading an entry that
is in use; the functions take the identifiers of the accounts that are.
-/

namespace KinesisCore

/-! ## Signer keys -/

namespace SignerKey

/-- The discriminant on the wire. -/
def type : SignerKey → Nat
  | ed25519 _ => 0
  | preAuthTx _ => 1
  | hashX _ => 2

def bytes : SignerKey → BitVec 256
  | ed25519 key => key
  | preAuthTx hash => hash
  | hashX hash => hash

/-- The order of the wire format: by discriminant, then by content. -/
def less (a b : SignerKey) : Bool :=
  a.type < b.type || (a.type == b.type && a.bytes < b.bytes)

end SignerKey

/-- The place of a key in an ordered list, and whether it is there. -/
def findSignerByKey (signers : List Signer) (key : SignerKey) : Nat × Bool :=
  let n := signers.findIdx fun x => !x.key.less key
  (n, signers[n]?.any (·.key = key))

/-! ## Loading -/

namespace LedgerTxn

variable {E : Type}

variable (ltx : LedgerTxn E) (active : List AccountID) (id : AccountID)

def loadAccount : Except String (Option AccountEntry) :=
  if id ∈ active then throw "Key is active" else return ltx.accounts id

/-- `loadAccount(..).current()`. -/
def currentAccount : Except String AccountEntry := do
  match ← ltx.loadAccount active id with
  | none => throw "LedgerTxnEntry not active"
  | some acc => return acc

variable {ltx active id} {acc : AccountEntry}

theorem currentAccount_ok :
    ltx.currentAccount active id = .ok acc ↔ id ∉ active ∧ ltx.accounts id = some acc := by
  unfold currentAccount loadAccount
  by_cases hid : id ∈ active
  · simp [hid]
  · cases hacc : ltx.accounts id with
    | none | some acc' => simp [hid]

theorem currentAccount_eq_ok : ltx.currentAccount [] id = .ok acc ↔ ltx.accounts id = some acc := by
  simp [currentAccount_ok]

end LedgerTxn

/-- The entries that exist only while a transaction is applied: who is being
sponsored and by whom, and how many an account is sponsoring. -/
class SponsorshipEntries (E : Type) where
  loadSponsorship : E → AccountID → Option AccountID
  loadSponsorshipCounter : E → AccountID → Option Int64
  hasSponsorshipEntry : E → Bool

/-- Entries that say of everybody by whom it is being sponsored. -/
@[reducible] def sponsoredBy (E : Type) (sponsorship : Option AccountID) :
    SponsorshipEntries E where
  loadSponsorship _ _ := sponsorship
  loadSponsorshipCounter _ _ := none
  hasSponsorshipEntry _ := false

/-- Entries to evaluate with: nobody is being sponsored. -/
@[reducible] def noSponsorship (E : Type) : SponsorshipEntries E := sponsoredBy E none

/-! ## Counters -/

namespace AccountEntry

variable (acc : AccountEntry)

def getNumSponsored : UInt32 := (acc.extV2.map (·.numSponsored)).getD 0

def getNumSponsoring : UInt32 := (acc.extV2.map (·.numSponsoring)).getD 0

/-- Change the extension that counts sponsorships, if the account has it. -/
def modifyExtV2 (f : AccountEntryExtensionV2 → AccountEntryExtensionV2) (acc : AccountEntry) :
    AccountEntry :=
  { acc with ext := acc.ext.map fun v1 => { v1 with ext := v1.ext.map f } }

/-- `prepareAccountEntryExtensionV2`: add the extensions that are missing. -/
def prepareExtV2 : AccountEntry :=
  let v1 := acc.ext.getD { liabilities := ⟨0, 0⟩ }
  let v2 := v1.ext.getD
    { numSponsored := 0, numSponsoring := 0, signerSponsoringIDs := acc.signers.map fun _ => none }
  { acc with ext := some { v1 with ext := some v2 } }

variable (f g : AccountEntryExtensionV2 → AccountEntryExtensionV2)

theorem extV2_modifyExtV2 : (acc.modifyExtV2 f).extV2 = acc.extV2.map f := by
  unfold modifyExtV2 extV2
  cases acc.ext <;> rfl

theorem modifyExtV2_modifyExtV2 :
    (acc.modifyExtV2 f).modifyExtV2 g = acc.modifyExtV2 fun v2 => g (f v2) := by
  simp [modifyExtV2, Function.comp_def]

end AccountEntry

variable (n : Nat) (sponsoringAccID : AccountID) (lh : LedgerHeader)
  (sponsoringAcc sponsoredAcc : AccountEntry) (acc : AccountEntry) (mult : UInt32)

def getAccountEntryExtensionV2 : Except String AccountEntryExtensionV2 :=
  match acc.extV2 with
  | none => throw "expected AccountEntry extension V2"
  | some extV2 => return extV2

def accountIsSponsor (sponsoringID : Option AccountID) (sponsoringAccID : AccountID) :
    Except String Unit :=
  if sponsoringID = some sponsoringAccID then return () else throw "sponsorship doesn't match"

theorem getAccountEntryExtensionV2_eq_ok {acc : AccountEntry} {v2 : AccountEntryExtensionV2} :
    getAccountEntryExtensionV2 acc = .ok v2 ↔ acc.extV2 = some v2 := by
  unfold getAccountEntryExtensionV2
  cases acc.extV2 <;> simp

theorem accountIsSponsor_eq_ok {sponsoringID : Option AccountID} {id : AccountID} {u : Unit} :
    accountIsSponsor sponsoringID id = .ok u ↔ sponsoringID = some id := by
  unfold accountIsSponsor
  split_ifs with h <;> simp [h]

/-! ## Removing signers -/

def canRemoveSignerWithoutSponsorship : Except String Unit :=
  if acc.numSubEntries < 1 then throw "invalid account state" else return ()

def canRemoveSignerWithSponsorship : Except String Unit :=
  if protocolVersionIsBefore lh.ledgerVersion 14 then throw "sponsorship before version 14"
  else if sponsoringAcc.getNumSponsoring < 1 then throw "invalid sponsoring account state"
  else if sponsoredAcc.numSubEntries < 1 ∨ sponsoredAcc.getNumSponsored < 1 then
    throw "invalid sponsored account state"
  else return ()

/-- The two accounts after it: the sponsoring and the sponsored one. -/
def removeSignerSponsorship : Except String (AccountEntry × AccountEntry) := do
  let extV2 ← getAccountEntryExtensionV2 sponsoredAcc
  match extV2.signerSponsoringIDs[n]? with
  | none => throw "vector::_M_range_check"
  | some sponsoringID =>
    let _ ← accountIsSponsor sponsoringID sponsoringAccID
    let _ ← getAccountEntryExtensionV2 sponsoringAcc
    return (sponsoringAcc.modifyExtV2 fun v2 => { v2 with numSponsoring := v2.numSponsoring - 1 },
      sponsoredAcc.modifyExtV2 fun v2 =>
        { v2 with signerSponsoringIDs := v2.signerSponsoringIDs.set n none
                  numSponsored := v2.numSponsored - 1 })

def removeSignerWithoutSponsorship : AccountEntry :=
  { acc with numSubEntries := acc.numSubEntries - 1, signers := acc.signers.eraseIdx n }.modifyExtV2
    fun v2 => { v2 with signerSponsoringIDs := v2.signerSponsoringIDs.eraseIdx n }

def removeSignerWithSponsorship : Except String (AccountEntry × AccountEntry) := do
  let (sponsoringAcc, sponsoredAcc) ←
    removeSignerSponsorship n sponsoringAccID sponsoringAcc sponsoredAcc
  return (sponsoringAcc, removeSignerWithoutSponsorship n sponsoredAcc)

/-- The sponsor of a signer, if the account keeps a list of sponsors. -/
def signerSponsoringID (n : Nat) : Except String (Option AccountID) :=
  match acc.extV2 with
  | none => return none
  | some extV2 =>
    match extV2.signerSponsoringIDs[n]? with
    | none => throw "vector::_M_range_check"
    | some sponsoringID => return sponsoringID

section

variable {n sponsoringAccID sponsoringAcc sponsoredAcc acc}

theorem removeSignerSponsorship_eq_ok {accs : AccountEntry × AccountEntry}
    (h : removeSignerSponsorship n sponsoringAccID sponsoringAcc sponsoredAcc = .ok accs) :
    ∃ v2 sponsoringV2, getAccountEntryExtensionV2 sponsoredAcc = .ok v2
      ∧ v2.signerSponsoringIDs[n]? = some (some sponsoringAccID)
      ∧ getAccountEntryExtensionV2 sponsoringAcc = .ok sponsoringV2
      ∧ accs = (sponsoringAcc.modifyExtV2 fun v2 =>
          { v2 with numSponsoring := v2.numSponsoring - 1 },
        sponsoredAcc.modifyExtV2 fun v2 =>
          { v2 with signerSponsoringIDs := v2.signerSponsoringIDs.set n none
                    numSponsored := v2.numSponsored - 1 }) := by
  obtain ⟨v2, hv2, h⟩ := Except.bind_eq_ok.mp h
  cases hn : v2.signerSponsoringIDs[n]? with
  | none => simp [hn] at h
  | some found =>
    rw [hn] at h
    obtain ⟨_, hby, h⟩ := Except.bind_eq_ok.mp h
    obtain ⟨sponsoringV2, hsv2, h⟩ := Except.bind_eq_ok.mp h
    cases h
    exact ⟨v2, sponsoringV2, hv2, accountIsSponsor_eq_ok.mp hby ▸ hn, hsv2, rfl⟩

theorem signerSponsoringID_eq_ok {sponsor : Option AccountID}
    (h : signerSponsoringID acc n = .ok sponsor) :
    (acc.extV2.bind fun v2 => v2.signerSponsoringIDs[n]?.join) = sponsor := by
  unfold signerSponsoringID at h
  cases hv2 : acc.extV2 with
  | none =>
    rw [hv2] at h
    cases h
    rfl
  | some v2 =>
    simp only [hv2] at h
    cases hn : v2.signerSponsoringIDs[n]? with
    | none => simp [hn] at h
    | some found =>
      rw [hn] at h
      cases h
      simp [hn]

end

variable {E : Type}

variable (ltx : LedgerTxn E) (active : List AccountID) (id : AccountID)

/-- Remove the signer at a position of an account, and end its sponsorship. -/
def removeSignerWithPossibleSponsorship (acc : AccountEntry) (n : Nat) :
    Except String (LedgerTxn E) := do
  match ← signerSponsoringID acc n with
  | some sponsoringID =>
    let sponsoringAcc ← ltx.currentAccount active sponsoringID
    let _ ← canRemoveSignerWithSponsorship ltx.header sponsoringAcc acc
    let (sponsoringAcc, acc) ← removeSignerWithSponsorship n sponsoringID sponsoringAcc acc
    return (ltx.putAccount sponsoringID sponsoringAcc).putAccount id acc
  | none =>
    let _ ← canRemoveSignerWithoutSponsorship acc
    return ltx.putAccount id (removeSignerWithoutSponsorship n acc)

/-! ## Account entries -/

inductive SponsorshipResult where
  | SUCCESS
  | LOW_RESERVE
  | TOO_MANY_SUBENTRIES
  | TOO_MANY_SPONSORING
  | TOO_MANY_SPONSORED
  deriving Repr, DecidableEq

/-- `computeMultiplier` of an account entry. -/
def accountMultiplier : UInt32 := 2

def isSponsoringSubentrySumIncreaseValid : Bool :=
  protocolVersionIsBefore lh.ledgerVersion 18
    || acc.getNumSponsoring.toUInt64 + acc.numSubEntries.toUInt64 + mult.toUInt64 ≤ 0xffffffff

def tooManySponsoring : Bool :=
  acc.getNumSponsoring > 0xffffffff - mult || !isSponsoringSubentrySumIncreaseValid lh acc mult

def reserveOf : Int64 :=
  mult.toUInt64.toInt64 * lh.baseReserve.toUInt64.toInt64

def canEstablishSponsorshipHelper (sponsoredAcc : Option AccountEntry) :
    Except String SponsorshipResult := do
  let available ← getAvailableBalance lh sponsoringAcc
  if available < reserveOf lh mult then return .LOW_RESERVE
  else if tooManySponsoring lh sponsoringAcc mult then return .TOO_MANY_SPONSORING
  else if sponsoredAcc.any (·.getNumSponsored > 0xffffffff - mult) then return .TOO_MANY_SPONSORED
  else return .SUCCESS

/-- `canCreateEntryWithSponsorship` of a new account, which sponsors itself
nothing and is no sub-entry. -/
def canCreateAccountWithSponsorship (lh : LedgerHeader) (sponsoringAcc le : AccountEntry) :
    Except String SponsorshipResult :=
  if protocolVersionIsBefore lh.ledgerVersion 14 then throw "sponsorship before version 14"
  else if le.sponsoringID.isSome then throw "sponsoring sponsored entry"
  else canEstablishSponsorshipHelper lh sponsoringAcc accountMultiplier (some le)

/-- `establishEntrySponsorship` of a new account: the sponsoring account and the
new one after it. -/
def establishAccountSponsorship (sponsoringID : AccountID) (sponsoringAcc le : AccountEntry) :
    AccountEntry × AccountEntry :=
  (sponsoringAcc.prepareExtV2.modifyExtV2 fun v2 =>
      { v2 with numSponsoring := v2.numSponsoring + accountMultiplier },
    { le.prepareExtV2.modifyExtV2 fun v2 =>
        { v2 with numSponsored := v2.numSponsored + accountMultiplier } with
      sponsoringID := some sponsoringID })

/-- `createEntryWithPossibleSponsorship` of a new account: the outcome, the
ledger with its sponsor, and the account to create. -/
def createAccountWithPossibleSponsorship [SponsorshipEntries E] (ltx : LedgerTxn E)
    (destination : AccountID) (le : AccountEntry) :
    Except String (SponsorshipResult × LedgerTxn E × AccountEntry) :=
  match SponsorshipEntries.loadSponsorship ltx.others destination with
  | some sponsoringID => do
    let sponsoringAcc ← ltx.currentAccount [] sponsoringID
    match ← canCreateAccountWithSponsorship ltx.header sponsoringAcc le with
    | .SUCCESS =>
      let (sponsoringAcc, le) := establishAccountSponsorship sponsoringID sponsoringAcc le
      return (.SUCCESS, ltx.putAccount sponsoringID sponsoringAcc, le)
    | res => return (res, ltx, le)
  | none => do
    if le.balance < (← getMinBalance ltx.header le) then return (.LOW_RESERVE, ltx, le)
    else return (.SUCCESS, ltx, le)

/-- `canRemoveEntryWithSponsorship` of an account. -/
def canRemoveAccountWithSponsorship (lh : LedgerHeader) (sponsoringAcc le : AccountEntry) :
    Except String Unit :=
  if protocolVersionIsBefore lh.ledgerVersion 14 then throw "sponsorship before version 14"
  else if sponsoringAcc.getNumSponsoring < accountMultiplier then
    throw "invalid sponsoring account state"
  else if le.getNumSponsored < accountMultiplier then throw "invalid sponsored account state"
  else return ()

/-- `removeEntryWithPossibleSponsorship` of an account that is about to be
erased: the ledger with its sponsor. -/
def removeAccountWithPossibleSponsorship (acc : AccountEntry) : Except String (LedgerTxn E) :=
  match acc.sponsoringID with
  | none => return ltx
  | some sponsoringID =>
    if sponsoringID = id then
      throw "sponsoringID == sourceAccount for non-CLAIMABLE_BALANCE entry"
    else do
      let sponsoringAcc ← ltx.currentAccount active sponsoringID
      let _ ← canRemoveAccountWithSponsorship ltx.header sponsoringAcc acc
      let _ ← getAccountEntryExtensionV2 sponsoringAcc
      let _ ← getAccountEntryExtensionV2 acc
      return ltx.putAccount sponsoringID (sponsoringAcc.modifyExtV2 fun v2 =>
        { v2 with numSponsoring := v2.numSponsoring - accountMultiplier })

end KinesisCore

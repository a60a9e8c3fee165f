import KinesisCore.SponsorshipUtils

/-!
# Sponsorship of entries (`SponsorshipUtils.cpp`)

The functions for entries and signers that `SponsorshipUtils` does not have, on
a whole ledger: an account is named by its identifier, so that the sponsor, the
former sponsor and the owner may be one account. Of an entry that is no account
they look at its kind, the account it belongs to and its sponsor; such entries
are stored under keys of an arbitrary type. A sponsorship is established,
removed and transferred on every kind of entry. What is created and removed
here is no account: for accounts the same source functions are
`createAccountWithPossibleSponsorship` and `removeAccountWithPossibleSponsorship`.

The calls at the end are what operations make of the functions: check, and on
success change the counters together with the entry.
-/

namespace KinesisCore.Sponsorship

/-! ## Entries -/

/-- What an entry is, if it is no account. -/
inductive EntryKind where
  | trustLine (isPoolShare : Bool)
  | offer
  | data
  | claimableBalance (claimants : Fin 11)
  deriving Repr, DecidableEq

inductive LedgerEntryData where
  | account
  | other (kind : EntryKind)
  deriving Repr, DecidableEq

/-- What the functions read of a ledger entry. An account belongs to itself. -/
structure LedgerEntry where
  data : LedgerEntryData
  accountID : AccountID
  sponsoringID : Option AccountID := none
  deriving Repr, DecidableEq

structure OtherEntry where
  kind : EntryKind
  accountID : AccountID
  sponsoringID : Option AccountID := none
  deriving Repr, DecidableEq

def EntryKind.multiplier : EntryKind → UInt32
  | trustLine isPoolShare => if isPoolShare then 2 else 1
  | offer => 1
  | data => 1
  | claimableBalance claimants => UInt32.ofNat claimants

def EntryKind.isSubentry : EntryKind → Bool
  | trustLine _ => true
  | offer => true
  | data => true
  | claimableBalance _ => false

namespace LedgerEntry

variable (le : LedgerEntry)

def computeMultiplier : UInt32 :=
  match le.data with
  | .account => 2
  | .other kind => kind.multiplier

def isSubentry (le : LedgerEntry) : Bool :=
  match le.data with
  | .account => false
  | .other kind => kind.isSubentry

def isAccount : Bool := le.data = .account

def isClaimableBalance (le : LedgerEntry) : Bool :=
  match le.data with
  | .other (.claimableBalance _) => true
  | _ => false

/-- The account whose entry is sponsored. A claimable balance is nobody's. -/
def sponsoredID : Option AccountID :=
  if le.isClaimableBalance then none else some le.accountID

end LedgerEntry

/-! ## The ledger -/

/-- The name of an entry. -/
inductive EntryRef (K : Type) where
  | account (id : AccountID)
  | entry (key : K)
  deriving DecidableEq

variable {K : Type} [DecidableEq K]

/-- A ledger with entries under keys of type `K`. -/
abbrev Ledger (K : Type) := LedgerTxn (K → Option OtherEntry)

namespace Ledger

variable (ltx : Ledger K) (ref : EntryRef K) (id : AccountID) (mult : UInt32)

def putEntry (key : K) (e : Option OtherEntry) : Ledger K :=
  { ltx with others := Function.update ltx.others key e }

omit [DecidableEq K] in
def load : EntryRef K → Option LedgerEntry
  | .account id => (ltx.accounts id).map fun acc => ⟨.account, id, acc.sponsoringID⟩
  | .entry key => (ltx.others key).map fun e => ⟨.other e.kind, e.accountID, e.sponsoringID⟩

omit [DecidableEq K] in
def current : Except String LedgerEntry :=
  match ltx.load ref with
  | none => throw "LedgerTxnEntry not active"
  | some le => return le

def setSponsoringID (sponsoringID : Option AccountID) : Ledger K :=
  match ref with
  | .account id =>
    let acc := (ltx.accounts id).map fun acc => { acc with sponsoringID }
    { ltx with accounts := Function.update ltx.accounts id acc }
  | .entry key => ltx.putEntry key ((ltx.others key).map fun e => { e with sponsoringID })

/-- Change an account in place. -/
def modifyAccount (ltx : Ledger K) (id : AccountID)
    (f : AccountEntry → Except String AccountEntry) : Except String (Ledger K) := do
  let acc ← ltx.currentAccount [] id
  return ltx.putAccount id (← f acc)

omit [DecidableEq K] in
variable {ltx ltx' : Ledger K} {id : AccountID} in
theorem modifyAccount_eq_ok {f : AccountEntry → Except String AccountEntry} :
    ltx.modifyAccount id f = .ok ltx'
      ↔ ∃ acc acc', ltx.accounts id = some acc ∧ f acc = .ok acc'
        ∧ ltx' = ltx.putAccount id acc' := by
  simp only [modifyAccount, Except.bind_eq_ok, Except.pure_eq_ok, LedgerTxn.currentAccount_eq_ok,
    exists_and_left, @eq_comm _ ltx']

/-- `prepareAccountEntryExtensionV2(..).numSponsoring += mult`. -/
def addNumSponsoring : Except String (Ledger K) :=
  ltx.modifyAccount id fun acc =>
    return acc.prepareExtV2.modifyExtV2 fun v2 =>
      { v2 with numSponsoring := v2.numSponsoring + mult }

def addNumSponsored : Except String (Ledger K) :=
  ltx.modifyAccount id fun acc =>
    return acc.prepareExtV2.modifyExtV2 fun v2 => { v2 with numSponsored := v2.numSponsored + mult }

/-- `getAccountEntryExtensionV2(..).numSponsoring -= mult`. -/
def subNumSponsoring : Except String (Ledger K) :=
  ltx.modifyAccount id fun acc => do
    let _ ← getAccountEntryExtensionV2 acc
    return acc.modifyExtV2 fun v2 => { v2 with numSponsoring := v2.numSponsoring - mult }

def subNumSponsored : Except String (Ledger K) :=
  ltx.modifyAccount id fun acc => do
    let _ ← getAccountEntryExtensionV2 acc
    return acc.modifyExtV2 fun v2 => { v2 with numSponsored := v2.numSponsored - mult }

def addNumSubEntries : Except String (Ledger K) :=
  ltx.modifyAccount id fun acc => return { acc with numSubEntries := acc.numSubEntries + mult }

def subNumSubEntries : Except String (Ledger K) :=
  ltx.modifyAccount id fun acc => return { acc with numSubEntries := acc.numSubEntries - mult }

/-- Do something for the sponsored account, if there is one. -/
def forSponsored (sponsored : Option AccountID)
    (f : Ledger K → AccountID → Except String (Ledger K)) : Except String (Ledger K) :=
  match sponsored with
  | none => return ltx
  | some id => f ltx id

end Ledger

/-! ## Checks -/

def ACCOUNT_SUBENTRY_LIMIT : UInt32 := 1000

section Checks

variable (lh : LedgerHeader) (n : Nat) (le : LedgerEntry) (acc : AccountEntry)
  (sponsoringAccID : AccountID) (sponsoringAcc : AccountEntry) (sponsoredAcc : Option AccountEntry)
  (mult : UInt32)

def tooManyNumSubEntries : Bool :=
  (protocolVersionStartsFrom lh.ledgerVersion 11
      && acc.numSubEntries > ACCOUNT_SUBENTRY_LIMIT - mult)
    || !isSponsoringSubentrySumIncreaseValid lh acc mult

def canRemoveSponsorshipHelper : Except String SponsorshipResult :=
  if sponsoringAcc.getNumSponsoring < mult then throw "insufficient numSponsoring"
  else
    match sponsoredAcc with
    | none => return .SUCCESS
    | some acc =>
      if acc.getNumSponsored < mult then throw "insufficient numSponsored"
      else do
        let available ← getAvailableBalance lh acc
        return if available < reserveOf lh mult then .LOW_RESERVE else .SUCCESS

variable (oldID : AccountID) (oldSponsoringAcc newSponsoringAcc : AccountEntry)

def canTransferSponsorshipHelper (mult : UInt32) : Except String SponsorshipResult := do
  match ← canRemoveSponsorshipHelper lh oldSponsoringAcc none mult with
  | .SUCCESS => canEstablishSponsorshipHelper lh newSponsoringAcc mult none
  | removeRes => return removeRes

/-- The check that every other one starts with. -/
def sponsorshipSupported : Except String Unit :=
  if protocolVersionIsBefore lh.ledgerVersion 14 then throw "sponsorship before version 14"
  else return ()

def canEstablishEntrySponsorship : Except String SponsorshipResult := do
  let _ ← sponsorshipSupported lh
  if le.sponsoringID.isSome then throw "sponsoring sponsored entry"
  else canEstablishSponsorshipHelper lh sponsoringAcc le.computeMultiplier sponsoredAcc

def canRemoveEntrySponsorship : Except String SponsorshipResult := do
  let _ ← sponsorshipSupported lh
  if le.sponsoringID.isNone then throw "removing sponsorship on unsponsored entry"
  else
    let _ ← accountIsSponsor le.sponsoringID sponsoringAccID
    canRemoveSponsorshipHelper lh sponsoringAcc sponsoredAcc le.computeMultiplier

def canTransferEntrySponsorship : Except String SponsorshipResult := do
  let _ ← sponsorshipSupported lh
  if le.sponsoringID.isNone then throw "transferring sponsorship on unsponsored entry"
  else
    let _ ← accountIsSponsor le.sponsoringID oldID
    canTransferSponsorshipHelper lh oldSponsoringAcc newSponsoringAcc le.computeMultiplier

inductive IsSignerSponsoredResult where
  | DOES_NOT_EXIST
  | NOT_SPONSORED
  | SPONSORED
  deriving Repr, DecidableEq

def isSignerSponsored (n : Nat) (sponsoringAccID : AccountID) (sponsoredAcc : AccountEntry) :
    Except String IsSignerSponsoredResult :=
  if n = sponsoredAcc.signers.length then return .DOES_NOT_EXIST
  else do
    match ← signerSponsoringID sponsoredAcc n with
    | none => return .NOT_SPONSORED
    | some sponsoringID =>
      let _ ← accountIsSponsor (some sponsoringID) sponsoringAccID
      return .SPONSORED

/-- The signer has to be in the given state. -/
def requireSigner (expected : IsSignerSponsoredResult) (n : Nat) (sponsoringAccID : AccountID)
    (sponsoredAcc : AccountEntry) : Except String Unit := do
  let found ← isSignerSponsored n sponsoringAccID sponsoredAcc
  if found = expected then return () else throw "bad signer sponsorship"

def canEstablishSignerSponsorship
    (sponsoringAcc sponsoredAcc : AccountEntry) : Except String SponsorshipResult := do
  let _ ← sponsorshipSupported lh
  let _ ← requireSigner .NOT_SPONSORED n sponsoringAccID sponsoredAcc
  canEstablishSponsorshipHelper lh sponsoringAcc 1 (some sponsoredAcc)

def canRemoveSignerSponsorship
    (sponsoringAcc sponsoredAcc : AccountEntry) : Except String SponsorshipResult := do
  let _ ← sponsorshipSupported lh
  let _ ← requireSigner .SPONSORED n sponsoringAccID sponsoredAcc
  canRemoveSponsorshipHelper lh sponsoringAcc (some sponsoredAcc) 1

def canTransferSignerSponsorship (oldSponsoringAcc newSponsoringAcc sponsoredAcc : AccountEntry) :
    Except String SponsorshipResult := do
  let _ ← sponsorshipSupported lh
  let _ ← requireSigner .SPONSORED n oldID sponsoredAcc
  canTransferSponsorshipHelper lh oldSponsoringAcc newSponsoringAcc 1

def canCreateEntryWithoutSponsorship : Except String SponsorshipResult :=
  if tooManyNumSubEntries lh acc le.computeMultiplier then return .TOO_MANY_SUBENTRIES
  else if protocolVersionIsBefore lh.ledgerVersion 9 then do
    -- the overflow in the minimum balance of that time is part of the check
    let available ← getAvailableBalance lh
      { acc with numSubEntries := acc.numSubEntries + le.computeMultiplier }
    return if available < 0 then .LOW_RESERVE else .SUCCESS
  else do
    let available ← getAvailableBalance lh acc
    return if available < reserveOf lh le.computeMultiplier then .LOW_RESERVE else .SUCCESS

def canCreateEntryWithSponsorship : Except String SponsorshipResult := do
  let _ ← sponsorshipSupported lh
  if sponsoredAcc.any fun acc =>
      le.isSubentry && tooManyNumSubEntries lh acc le.computeMultiplier then
    return .TOO_MANY_SUBENTRIES
  else canEstablishEntrySponsorship lh le sponsoringAcc sponsoredAcc

def canRemoveEntryWithoutSponsorship : Except String Unit :=
  if acc.numSubEntries < le.computeMultiplier then throw "invalid account state"
  else return ()

def canRemoveEntryWithSponsorship : Except String Unit := do
  let _ ← sponsorshipSupported lh
  if sponsoringAcc.getNumSponsoring < le.computeMultiplier then
    throw "invalid sponsoring account state"
  else if sponsoredAcc.any fun acc => acc.numSubEntries < le.computeMultiplier
      ∨ acc.getNumSponsored < le.computeMultiplier then
    throw "invalid sponsored account state"
  else return ()

def canCreateSignerWithoutSponsorship : Except String SponsorshipResult :=
  if tooManyNumSubEntries lh acc 1 then return .TOO_MANY_SUBENTRIES
  else do
    let available ← getAvailableBalance lh acc
    return if available < lh.baseReserve.toUInt64.toInt64 then .LOW_RESERVE else .SUCCESS

def canCreateSignerWithSponsorship
    (sponsoringAcc sponsoredAcc : AccountEntry) : Except String SponsorshipResult := do
  let _ ← sponsorshipSupported lh
  if tooManyNumSubEntries lh sponsoredAcc 1 then return .TOO_MANY_SUBENTRIES
  else canEstablishSignerSponsorship lh n sponsoringAccID sponsoringAcc sponsoredAcc

end Checks

/-! ## Changes -/

namespace Ledger

variable (ltx : Ledger K) (n : Nat) (ref : EntryRef K) (key : K) (le : LedgerEntry)
  (sponsoringID : AccountID) (sponsored : Option AccountID) (id : AccountID)
  (sponsorship : Option AccountID)

def establishEntrySponsorship : Except String (Ledger K) := do
  let ltx := ltx.setSponsoringID ref (some sponsoringID)
  let ltx ← ltx.addNumSponsoring sponsoringID le.computeMultiplier
  ltx.forSponsored sponsored fun ltx id => ltx.addNumSponsored id le.computeMultiplier

def removeEntrySponsorship : Except String (Ledger K) := do
  let _ ← accountIsSponsor le.sponsoringID sponsoringID
  let ltx := ltx.setSponsoringID ref none
  let ltx ← ltx.subNumSponsoring sponsoringID le.computeMultiplier
  ltx.forSponsored sponsored fun ltx id => ltx.subNumSponsored id le.computeMultiplier

def transferEntrySponsorship (oldID newID : AccountID) : Except String (Ledger K) := do
  let _ ← accountIsSponsor le.sponsoringID oldID
  let ltx := ltx.setSponsoringID ref (some newID)
  let ltx ← ltx.addNumSponsoring newID le.computeMultiplier
  ltx.subNumSponsoring oldID le.computeMultiplier

/-- `signerSponsoringIDs.at(n) = sponsoringID`. -/
def setSignerSponsor (n : Nat) (sponsoringID : Option AccountID) : Except String (Ledger K) :=
  ltx.modifyAccount id fun acc => do
    let extV2 ← getAccountEntryExtensionV2 acc
    if n < extV2.signerSponsoringIDs.length then
      return acc.modifyExtV2 fun v2 =>
        { v2 with signerSponsoringIDs := v2.signerSponsoringIDs.set n sponsoringID }
    else throw "vector::_M_range_check"

/-- The sponsor that `signerSponsoringIDs.at(n)` names has to be the given one. -/
def signerIsSponsoredBy (n : Nat) (sponsoringID : AccountID) : Except String Unit := do
  let acc ← ltx.currentAccount [] id
  let extV2 ← getAccountEntryExtensionV2 acc
  match extV2.signerSponsoringIDs[n]? with
  | none => throw "vector::_M_range_check"
  | some found => accountIsSponsor found sponsoringID

def establishSignerSponsorship (sponsoringID id : AccountID) : Except String (Ledger K) := do
  -- adds the extension, and counts in it
  let ltx ← ltx.addNumSponsored id 1
  let ltx ← ltx.setSignerSponsor id n (some sponsoringID)
  ltx.addNumSponsoring sponsoringID 1

def transferSignerSponsorship (oldID newID id : AccountID) : Except String (Ledger K) := do
  let _ ← ltx.signerIsSponsoredBy id n oldID
  let ltx ← ltx.setSignerSponsor id n (some newID)
  let ltx ← ltx.addNumSponsoring newID 1
  ltx.subNumSponsoring oldID 1

def createEntryWithoutSponsorship : Except String (Ledger K) :=
  if le.isSubentry then ltx.addNumSubEntries id le.computeMultiplier else return ltx

def createEntryWithSponsorship : Except String (Ledger K) := do
  let ltx ← ltx.forSponsored sponsored fun ltx id => ltx.createEntryWithoutSponsorship le id
  ltx.establishEntrySponsorship (.entry key) le sponsoringID sponsored

/-- All that is no account counts here, a claimable balance too. -/
def removeEntryWithoutSponsorship : Except String (Ledger K) :=
  ltx.subNumSubEntries id le.computeMultiplier

def removeEntryWithSponsorship : Except String (Ledger K) := do
  let ltx ← ltx.forSponsored sponsored fun ltx id => ltx.removeEntryWithoutSponsorship le id
  ltx.removeEntrySponsorship (.entry key) le sponsoringID sponsored

/-! ## With a sponsorship or without -/

/-- The sponsored account, loaded. -/
def loadSponsored (ltx : Ledger K) (sponsored : Option AccountID) :
    Except String (Option AccountEntry) :=
  match sponsored with
  | none => return none
  | some id => return some (← ltx.currentAccount [] id)

/-- The ledger has the entry that is being created under `key` already; `id` is the
account that creates it, and `sponsorship` who sponsors what that account
creates now. -/
def createEntryWithPossibleSponsorship : Except String (SponsorshipResult × Ledger K) := do
  let le ← ltx.current (.entry key)
  match sponsorship, le.sponsoredID with
  | some sponsoringID, sponsored =>
    let sponsoringAcc ← ltx.currentAccount [] sponsoringID
    let sponsoredAcc ← ltx.loadSponsored sponsored
    match ← canCreateEntryWithSponsorship ltx.header le sponsoringAcc sponsoredAcc with
    | .SUCCESS =>
      return (.SUCCESS, ← ltx.createEntryWithSponsorship key le sponsoringID sponsored)
    | res => return (res, ltx)
  | none, none =>
    let acc ← ltx.currentAccount [] id
    match ← canCreateEntryWithSponsorship ltx.header le acc none with
    | .SUCCESS => return (.SUCCESS, ← ltx.createEntryWithSponsorship key le id none)
    | res => return (res, ltx)
  | none, some sponsored =>
    let sponsoredAcc ← ltx.currentAccount [] sponsored
    match ← canCreateEntryWithoutSponsorship ltx.header le sponsoredAcc with
    | .SUCCESS => return (.SUCCESS, ← ltx.createEntryWithoutSponsorship le sponsored)
    | res => return (res, ltx)

/-- Here `id` is the account that removes the entry. Its own entries it removes
itself, and a claimable balance anybody may remove. -/
def removeEntryWithPossibleSponsorship : Except String (Ledger K) := do
  let le ← ltx.current (.entry key)
  let acc ← ltx.currentAccount [] id
  match le.sponsoringID with
  | some sponsoringID =>
    let sponsored := if le.isClaimableBalance then none else some id
    if id = sponsoringID ∧ ¬le.isClaimableBalance then
      throw "sponsoringID == sourceAccount for non-CLAIMABLE_BALANCE entry"
    else
      let sponsoringAcc ← ltx.currentAccount [] sponsoringID
      let _ ← canRemoveEntryWithSponsorship ltx.header le sponsoringAcc
        (sponsored.map fun _ => acc)
      ltx.removeEntryWithSponsorship key le sponsoringID sponsored
  | none =>
    let _ ← canRemoveEntryWithoutSponsorship le acc
    ltx.removeEntryWithoutSponsorship le id

def createSignerWithPossibleSponsorship : Except String (SponsorshipResult × Ledger K) := do
  let acc ← ltx.currentAccount [] id
  match sponsorship with
  | some sponsoringID =>
    let sponsoringAcc ← ltx.currentAccount [] sponsoringID
    match ← canCreateSignerWithSponsorship ltx.header n sponsoringID sponsoringAcc acc with
    | .SUCCESS =>
      let ltx ← ltx.addNumSubEntries id 1
      return (.SUCCESS, ← ltx.establishSignerSponsorship n sponsoringID id)
    | res => return (res, ltx)
  | none =>
    match ← canCreateSignerWithoutSponsorship ltx.header acc with
    | .SUCCESS => return (.SUCCESS, ← ltx.addNumSubEntries id 1)
    | res => return (res, ltx)

end Ledger

/-! ## Calls -/

/-- A new signer at position `n`, without a sponsor. -/
def insertSigner (n : Nat) (signer : Signer) (acc : AccountEntry) : AccountEntry :=
  { acc with signers := acc.signers.insertIdx n signer }.modifyExtV2 fun v2 =>
    { v2 with signerSponsoringIDs := v2.signerSponsoringIDs.insertIdx n none }

/-- What an operation does with the functions above. `sponsorship` is who sponsors
what the account creates at that moment. -/
inductive Call (K : Type) where
  | createEntry (key : K) (kind : EntryKind) (id : AccountID) (sponsorship : Option AccountID)
  | createAccount (id : AccountID) (balance seqNum : Int64) (sponsorship : Option AccountID)
  | removeEntry (key : K) (id : AccountID)
  | removeAccount (id : AccountID)
  | establishEntrySponsorship (ref : EntryRef K) (sponsoringID : AccountID)
  | removeEntrySponsorship (ref : EntryRef K)
  | transferEntrySponsorship (ref : EntryRef K) (newID : AccountID)
  | createSigner (id : AccountID) (n : Nat) (signer : Signer) (sponsorship : Option AccountID)
  | removeSigner (id : AccountID) (n : Nat)
  | establishSignerSponsorship (id : AccountID) (n : Nat) (sponsoringID : AccountID)
  | removeSignerSponsorship (id : AccountID) (n : Nat)
  | transferSignerSponsorship (id : AccountID) (n : Nat) (newID : AccountID)

/-- A check, and a change when it succeeds. -/
def changeOnSuccess (ltx : Ledger K) (check : Except String SponsorshipResult)
    (change : Except String (Ledger K)) : Except String (SponsorshipResult × Ledger K) := do
  match ← check with
  | .SUCCESS => return (.SUCCESS, ← change)
  | res => return (res, ltx)

/-- `sponsoringID` of an entry, which has to have one. -/
def sponsorOf (sponsoringID : Option AccountID) : Except String AccountID :=
  match sponsoringID with
  | none => throw "unsponsored"
  | some id => return id

namespace Call

/-- The ledger that a call finds. A new entry or signer is in it already: the code has it at
hand, and puts it into the ledger once the call has succeeded. A new account is not. -/
def prepare (call : Call K) (ltx : Ledger K) : Except String (Ledger K) :=
  match call with
  | createEntry key kind id _ =>
    if (ltx.others key).isSome then throw "Key already exists"
    else return ltx.putEntry key (some { kind, accountID := id })
  | createAccount id _ _ _ =>
    if (ltx.accounts id).isSome then throw "Key already exists" else return ltx
  | createSigner id n signer _ => ltx.modifyAccount id fun acc => return insertSigner n signer acc
  | _ => return ltx

def run (call : Call K) (ltx : Ledger K) : Except String (SponsorshipResult × Ledger K) := do
  let ltx ← call.prepare ltx
  match call with
  | createEntry key _ id sponsorship =>
    ltx.createEntryWithPossibleSponsorship key id sponsorship
  | createAccount id balance seqNum sponsorship =>
    let (res, ltx, acc) ← @createAccountWithPossibleSponsorship _ (sponsoredBy _ sponsorship) ltx
      id { balance, seqNum }
    return (res, if res = .SUCCESS then ltx.putAccount id acc else ltx)
  | createSigner id n _ sponsorship => ltx.createSignerWithPossibleSponsorship n id sponsorship
  | removeEntry key id =>
    let ltx ← ltx.removeEntryWithPossibleSponsorship key id
    return (.SUCCESS, ltx.putEntry key none)
  | removeAccount id =>
    let acc ← ltx.currentAccount [] id
    let ltx ← removeAccountWithPossibleSponsorship ltx [id] id acc
    return (.SUCCESS, ltx.eraseAccount id)
  | establishEntrySponsorship ref sponsoringID =>
    let le ← ltx.current ref
    let sponsoringAcc ← ltx.currentAccount [] sponsoringID
    let sponsoredAcc ← ltx.loadSponsored le.sponsoredID
    changeOnSuccess ltx (canEstablishEntrySponsorship ltx.header le sponsoringAcc sponsoredAcc)
      (ltx.establishEntrySponsorship ref le sponsoringID le.sponsoredID)
  | removeEntrySponsorship ref =>
    let le ← ltx.current ref
    let sponsoringID ← sponsorOf le.sponsoringID
    let sponsoringAcc ← ltx.currentAccount [] sponsoringID
    let sponsoredAcc ← ltx.loadSponsored le.sponsoredID
    changeOnSuccess ltx
      (canRemoveEntrySponsorship ltx.header le sponsoringID sponsoringAcc sponsoredAcc)
      (ltx.removeEntrySponsorship ref le sponsoringID le.sponsoredID)
  | transferEntrySponsorship ref newID =>
    let le ← ltx.current ref
    let oldID ← sponsorOf le.sponsoringID
    let oldSponsoringAcc ← ltx.currentAccount [] oldID
    let newSponsoringAcc ← ltx.currentAccount [] newID
    changeOnSuccess ltx
      (canTransferEntrySponsorship ltx.header le oldID oldSponsoringAcc newSponsoringAcc)
      (ltx.transferEntrySponsorship ref le oldID newID)
  | removeSigner id n =>
    let acc ← ltx.currentAccount [] id
    return (.SUCCESS, ← removeSignerWithPossibleSponsorship ltx [id] id acc n)
  | establishSignerSponsorship id n sponsoringID =>
    let acc ← ltx.currentAccount [] id
    let sponsoringAcc ← ltx.currentAccount [] sponsoringID
    changeOnSuccess ltx (canEstablishSignerSponsorship ltx.header n sponsoringID sponsoringAcc acc)
      (ltx.establishSignerSponsorship n sponsoringID id)
  | removeSignerSponsorship id n =>
    let acc ← ltx.currentAccount [] id
    let sponsoringID ← sponsorOf (← signerSponsoringID acc n)
    let sponsoringAcc ← ltx.currentAccount [id] sponsoringID
    changeOnSuccess ltx (canRemoveSignerSponsorship ltx.header n sponsoringID sponsoringAcc acc) do
      let (sponsoringAcc, acc) ←
        KinesisCore.removeSignerSponsorship n sponsoringID sponsoringAcc acc
      return (ltx.putAccount sponsoringID sponsoringAcc).putAccount id acc
  | transferSignerSponsorship id n newID =>
    let acc ← ltx.currentAccount [] id
    let oldID ← sponsorOf (← signerSponsoringID acc n)
    let oldSponsoringAcc ← ltx.currentAccount [] oldID
    let newSponsoringAcc ← ltx.currentAccount [] newID
    changeOnSuccess ltx
      (canTransferSignerSponsorship ltx.header n oldID oldSponsoringAcc newSponsoringAcc acc)
      (ltx.transferSignerSponsorship n oldID newID id)

/-- What the operations see to before they call: a sub-entry is removed by the
account it belongs to, an account has nothing left when it is merged, the
sponsorship of a claimable balance is only transferred, and a position in the
list of signers is one. -/
def Allowed (ltx : Ledger K) : Call K → Prop
  | removeEntry key id => ∀ e, ltx.others key = some e → e.kind.isSubentry → e.accountID = id
  | removeAccount id => ∀ acc, ltx.accounts id = some acc →
      acc.numSubEntries = 0 ∧ acc.getNumSponsoring = 0
  | removeEntrySponsorship ref => ∀ le, ltx.load ref = some le → ¬le.isClaimableBalance
  | createSigner id n _ _ => ∀ acc, ltx.accounts id = some acc → n ≤ acc.signers.length
  | removeSigner id n => ∀ acc, ltx.accounts id = some acc → n < acc.signers.length
  | _ => True

end Call

end KinesisCore.Sponsorship

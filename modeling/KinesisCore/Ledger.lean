import Mathlib.Algebra.BigOperators.Group.Finset.Piecewise
import Mathlib.Data.FinEnum
import Mathlib.Tactic.Ring
import KinesisCore.LedgerHeader
import KinesisCore.MachineInt

/-!
# The ledger an operation works on

A `LedgerTxn` is the header, the account entries and everything else. An
account map is a function to `Option`: loading an account is applying it,
and an entry that is written back is a point update. The other entries
(trust lines, offers, data, balances, pools) are kept as one value of an
arbitrary type, which no function below looks into.

Exceptions of the source are `Except String` with the text of the
exception.
-/

namespace KinesisCore

open Except MachineInt

variable {lh : LedgerHeader}

def INT64_MAX : Int64 := Int64.maxValue

theorem toInt_INT64_MAX : INT64_MAX.toInt = 2 ^ 63 - 1 := by decide

/-- `SequenceNumber` of the wire format. -/
abbrev SequenceNumber := Int64

/-! ## Account entries -/

inductive SignerKey where
  | ed25519 (key : PublicKey)
  | preAuthTx (hash : Hash)
  | hashX (hash : Hash)
  deriving Repr, DecidableEq

structure Signer where
  key : SignerKey
  weight : UInt32
  deriving Repr, DecidableEq

/-- The weight of the master key and the three thresholds. -/
structure Thresholds where
  masterWeight : UInt8 := 1
  low : UInt8 := 0
  medium : UInt8 := 0
  high : UInt8 := 0
  deriving Repr, DecidableEq

structure Liabilities where
  buying : Int64
  selling : Int64
  deriving Repr, DecidableEq

structure AccountEntryExtensionV2 where
  numSponsored : UInt32
  numSponsoring : UInt32
  signerSponsoringIDs : List (Option AccountID)
  deriving Repr, DecidableEq

structure AccountEntryExtensionV1 where
  liabilities : Liabilities
  ext : Option AccountEntryExtensionV2 := none
  deriving Repr, DecidableEq

/-- An account. Its identifier is the key it is stored under. -/
structure AccountEntry where
  balance : Int64
  seqNum : SequenceNumber
  numSubEntries : UInt32 := 0
  flags : UInt32 := 0
  thresholds : Thresholds := {}
  signers : List Signer := []
  ext : Option AccountEntryExtensionV1 := none
  /-- The sponsor in the extension of the ledger entry around the account. -/
  sponsoringID : Option AccountID := none
  deriving Repr, DecidableEq

structure LedgerTxn (E : Type) where
  header : LedgerHeader
  accounts : AccountID → Option AccountEntry
  others : E

/-! ## Balances (`TransactionUtils.cpp`, `types.cpp`) -/

/-- The extension that counts sponsorships, when the account has it. -/
def AccountEntry.extV2 (acc : AccountEntry) : Option AccountEntryExtensionV2 :=
  acc.ext.bind (·.ext)

/-- The minimum balance for given counts. Before protocol 9 the product is
taken in 32 bits. -/
def getMinBalanceOf (lh : LedgerHeader) (numSubEntries numSponsoring numSponsored : UInt32) :
    Except String Int64 :=
  if protocolVersionIsBefore lh.ledgerVersion 14 && (numSponsored ≠ 0 || numSponsoring ≠ 0) then
    throw "unexpected sponsorship state"
  else if protocolVersionIsBefore lh.ledgerVersion 9 then
    return ((2 + numSubEntries) * lh.baseReserve).toUInt64.toInt64
  else
    let effEntries : Int64 := 2 + numSubEntries.toUInt64.toInt64
      + numSponsoring.toUInt64.toInt64 - numSponsored.toUInt64.toInt64
    if effEntries < 0 then throw "unexpected account state"
    else return effEntries * lh.baseReserve.toUInt64.toInt64

def getMinBalance (lh : LedgerHeader) (acc : AccountEntry) : Except String Int64 :=
  match acc.extV2 with
  | some v2 =>
    if protocolVersionStartsFrom lh.ledgerVersion 14 then
      getMinBalanceOf lh acc.numSubEntries v2.numSponsoring v2.numSponsored
    else getMinBalanceOf lh acc.numSubEntries 0 0
  | none => getMinBalanceOf lh acc.numSubEntries 0 0

def getBuyingLiabilities (lh : LedgerHeader) (acc : AccountEntry) : Except String Int64 :=
  if protocolVersionIsBefore lh.ledgerVersion 10 then
    throw "Liabilities accessed before version 10"
  else return (acc.ext.map (·.liabilities.buying)).getD 0

def getSellingLiabilities (lh : LedgerHeader) (acc : AccountEntry) : Except String Int64 :=
  if protocolVersionIsBefore lh.ledgerVersion 10 then
    throw "Liabilities accessed before version 10"
  else return (acc.ext.map (·.liabilities.selling)).getD 0

def getAvailableBalance (lh : LedgerHeader) (acc : AccountEntry) : Except String Int64 := do
  let avail := acc.balance - (← getMinBalance lh acc)
  if protocolVersionStartsFrom lh.ledgerVersion 10 then
    return avail - (← getSellingLiabilities lh acc)
  else return avail

/-- `addBalance` on a plain number: the new balance, or `none` when the sum
would be negative or above `maxBalance`. -/
def addBalanceTo (balance delta maxBalance : Int64) : Except String (Option Int64) :=
  if ¬0 ≤ balance then throw "balance >= 0"
  else if ¬0 ≤ maxBalance then throw "maxBalance >= 0"
  else if delta = 0 then return some balance
  else if delta < -balance then return none
  else if maxBalance - balance < delta then return none
  else return some (balance + delta)

/-- `addBalance` on an account: the account with the new balance, or `none`
when the change is refused and the account stays as it is. -/
def addBalance (lh : LedgerHeader) (acc : AccountEntry) (delta : Int64) :
    Except String (Option AccountEntry) := do
  if delta = 0 then return some acc
  match ← addBalanceTo acc.balance delta INT64_MAX with
  | none => return none
  | some newBalance =>
    if protocolVersionStartsFrom lh.ledgerVersion 10 then
      let minBalance ← getMinBalance lh acc
      if delta < 0 ∧ newBalance - minBalance < (← getSellingLiabilities lh acc) then
        return none
      if INT64_MAX - (← getBuyingLiabilities lh acc) < newBalance then return none
    return some { acc with balance := newBalance }

/-! ## What a balance change does

An account on which the change is refused (`CreditRefused`) is described
by its own balance, liabilities and reserve; `addBalance_cases` is the one
place where `addBalance` is unfolded. -/

/-- The balance change leaves the account's range: below zero, above the
largest balance, or, from protocol 10 on, into its liabilities. -/
def CreditRefused (lh : LedgerHeader) (acc : AccountEntry) (delta : Int64) : Prop :=
  delta ≠ 0 ∧ 0 ≤ acc.balance.toInt ∧
    (acc.balance.toInt + delta.toInt < 0
      ∨ 2 ^ 63 ≤ acc.balance.toInt + delta.toInt
      ∨ protocolVersionStartsFrom lh.ledgerVersion 10 = true
        ∧ ∃ minBalance, getMinBalance lh acc = .ok minBalance
          ∧ (delta < 0 ∧ acc.balance + delta - minBalance
                < (acc.ext.map (·.liabilities.selling)).getD 0
              ∨ INT64_MAX - (acc.ext.map (·.liabilities.buying)).getD 0
                < acc.balance + delta))

variable {balance delta maxBalance : Int64} {acc : AccountEntry}

theorem addBalanceTo_nonneg {r : Option Int64} (h : addBalanceTo balance delta maxBalance = .ok r) :
    0 ≤ balance.toInt ∧ 0 ≤ maxBalance.toInt := by
  unfold addBalanceTo at h
  split_ifs at h with hbal hmax <;> simpa [Int64.le_iff_toInt_le] using And.intro hbal hmax

/-- A number changes by `delta` exactly when the sum is between zero and the
maximum. -/
theorem addBalanceTo_spec (hbal : 0 ≤ balance.toInt) (hmax : 0 ≤ maxBalance.toInt)
    (hdelta : delta ≠ 0 ∨ balance.toInt ≤ maxBalance.toInt) :
    (0 ≤ balance.toInt + delta.toInt ∧ balance.toInt + delta.toInt ≤ maxBalance.toInt
        ∧ addBalanceTo balance delta maxBalance = .ok (some (balance + delta))
        ∧ (balance + delta).toInt = balance.toInt + delta.toInt)
      ∨ (¬(0 ≤ balance.toInt + delta.toInt ∧ balance.toInt + delta.toInt ≤ maxBalance.toInt)
        ∧ addBalanceTo balance delta maxBalance = .ok none) := by
  have hb := balance.toInt_lt
  have hm := maxBalance.toInt_lt
  have hneg : (-balance).toInt = -balance.toInt := toInt_neg ⟨by omega, by omega⟩
  have hroom := toInt_sub_of_nonneg hmax hbal
  unfold addBalanceTo
  simp only [Int64.le_iff_toInt_le, Int64.lt_iff_toInt_lt, Int64.toInt_zero, hbal, hmax,
    hneg, hroom, not_true_eq_false, if_false]
  by_cases hzero : delta = 0
  · subst hzero
    have hle := hdelta.resolve_left (not_not_intro rfl)
    exact .inl ⟨by simpa using hbal, by simpa using hle,
      by rw [if_pos rfl, Int64.add_zero]; rfl, by simp⟩
  rw [if_neg hzero]
  by_cases hlow : delta.toInt < -balance.toInt
  · exact .inr ⟨by omega, if_pos hlow⟩
  by_cases hhigh : maxBalance.toInt - balance.toInt < delta.toInt
  · exact .inr ⟨by omega, by rw [if_neg hlow, if_pos hhigh]; rfl⟩
  · exact .inl ⟨by omega, by omega, by rw [if_neg hlow, if_neg hhigh]; rfl,
      toInt_add ⟨by omega, by omega⟩⟩

theorem getSellingLiabilities_eq (acc : AccountEntry) (hv : lh.StartsFrom 10) :
    getSellingLiabilities lh acc = .ok ((acc.ext.map (·.liabilities.selling)).getD 0) := by
  simp [getSellingLiabilities, protocolVersionIsBefore_eq, hv, pure, Except.pure]

theorem getBuyingLiabilities_eq (acc : AccountEntry) (hv : lh.StartsFrom 10) :
    getBuyingLiabilities lh acc = .ok ((acc.ext.map (·.liabilities.buying)).getD 0) := by
  simp [getBuyingLiabilities, protocolVersionIsBefore_eq, hv, pure, Except.pure]

/-- A change that does not throw is either made exactly, on an account
that does not refuse it, or refused on one that does. -/
theorem addBalance_cases {r : Option AccountEntry} (h : addBalance lh acc delta = .ok r) :
    (r = some { acc with balance := acc.balance + delta }
        ∧ (acc.balance + delta).toInt = acc.balance.toInt + delta.toInt
        ∧ ¬CreditRefused lh acc delta)
      ∨ (r = none ∧ CreditRefused lh acc delta) := by
  unfold addBalance at h
  by_cases hzero : delta = 0
  · subst hzero
    cases h
    exact .inl ⟨by simp, by simp, fun hc => hc.1 rfl⟩
  simp only [if_neg hzero] at h
  have hmax := toInt_INT64_MAX
  cases hto : addBalanceTo acc.balance delta INT64_MAX with
  | error e => rw [hto] at h; cases h
  | ok q =>
    obtain ⟨hpos, hmax'⟩ := addBalanceTo_nonneg hto
    rcases addBalanceTo_spec hpos hmax' (.inl hzero) with ⟨hlow, hhigh, heq, hsum⟩ | ⟨hrange, heq⟩
    · rw [heq] at h
      by_cases hv : protocolVersionStartsFrom lh.ledgerVersion 10 = true
      · simp only [hv, getSellingLiabilities_eq acc hv, getBuyingLiabilities_eq acc hv,
          if_true, bind, Except.bind] at h
        cases hmin : getMinBalance lh acc with
        | error e => rw [hmin] at h; cases h
        | ok minBalance =>
          simp only [hmin] at h
          split at h
          · rename_i hsell
            exact .inr ⟨(ok.inj h).symm, hzero, hpos,
              .inr (.inr ⟨hv, minBalance, hmin, .inl hsell⟩)⟩
          split at h
          · rename_i hbuy
            exact .inr ⟨(ok.inj h).symm, hzero, hpos, .inr (.inr ⟨hv, minBalance, hmin, .inr hbuy⟩)⟩
          rename_i hsell hbuy
          refine .inl ⟨(ok.inj h).symm, hsum, ?_⟩
          rintro ⟨-, -, hlow' | hhigh' | ⟨-, m, hm, hliab⟩⟩
          · omega
          · omega
          · obtain rfl := ok.inj (hmin.symm.trans hm)
            exact hliab.elim hsell hbuy
      · simp only [hv] at h
        refine .inl ⟨(ok.inj h).symm, hsum, ?_⟩
        rintro ⟨-, -, hlow' | hhigh' | ⟨hv', -⟩⟩
        · omega
        · omega
        · exact hv hv'
    · rw [heq] at h
      refine .inr ⟨(ok.inj h).symm, hzero, hpos, ?_⟩
      by_cases hlow : acc.balance.toInt + delta.toInt < 0
      · exact .inl hlow
      · exact .inr (.inl (by omega))

theorem addBalance_eq_none_iff :
    addBalance lh acc delta = .ok none ↔ CreditRefused lh acc delta := by
  constructor
  · intro h
    rcases addBalance_cases h with ⟨hsome, -⟩ | ⟨-, hrefused⟩
    · cases hsome
    · exact hrefused
  · rintro ⟨hzero, hpos, hwhy⟩
    have hmax := toInt_INT64_MAX
    unfold addBalance
    rcases addBalanceTo_spec hpos (by decide : 0 ≤ INT64_MAX.toInt) (.inl hzero) with
      ⟨hlow, hhigh, hto, -⟩ | ⟨-, hto⟩ <;> simp only [if_neg hzero, hto, bind, Except.bind]
    · -- the sum is in range, so it is the liabilities that refuse it
      rcases hwhy with hneg | hover | ⟨hv, minBalance, hmin, hliab⟩
      · omega
      · omega
      · simp only [hv, if_true, hmin, getSellingLiabilities_eq acc hv,
          getBuyingLiabilities_eq acc hv]
        rcases hliab with hsell | hbuy
        · rw [if_pos hsell]; rfl
        · split <;> rfl
    · rfl

/-! ## Native coins -/

namespace LedgerTxn

variable {E : Type} (ltx : LedgerTxn E) (id : AccountID) (acc : AccountEntry)

/-- Write an account back under its identifier. -/
def putAccount : LedgerTxn E :=
  { ltx with accounts := Function.update ltx.accounts id (some acc) }

def eraseAccount : LedgerTxn E :=
  { ltx with accounts := Function.update ltx.accounts id none }

@[simp] theorem putAccount_header : (ltx.putAccount id acc).header = ltx.header := rfl

theorem putAccount_putAccount (acc' : AccountEntry) :
    (ltx.putAccount id acc).putAccount id acc' = ltx.putAccount id acc' := by
  simp [putAccount]

variable {ltx id acc} in
theorem forall_putAccount {P : AccountEntry → Prop}
    (h : ∀ k acc', ltx.accounts k = some acc' → P acc') (hacc : P acc) :
    ∀ k acc', (ltx.putAccount id acc).accounts k = some acc' → P acc' := by
  refine (Function.forall_update_iff ltx.accounts fun _ o => ∀ acc', o = some acc' → P acc').mpr
    ⟨?_, fun k _ => h k⟩
  rintro _ ⟨⟩
  exact hacc

/-- The balance held under an identifier; nothing if there is no account. -/
def balanceAt (ltx : LedgerTxn E) (id : AccountID) : Int :=
  ((ltx.accounts id).map (·.balance.toInt)).getD 0

/-- The sum of all account balances. -/
def accountBalances (ltx : LedgerTxn E) : Int := ∑ id, ltx.balanceAt id

/-- The native coins in existence: what the accounts and the fee pool hold. -/
def nativeCoins : Int := ltx.accountBalances + ltx.header.feePool.toInt

/-- Replacing an account changes the sum by the difference of the two
balances. -/
theorem accountBalances_putAccount {id : AccountID} {old : AccountEntry}
    (hold : ltx.accounts id = some old) (new : AccountEntry) :
    (ltx.putAccount id new).accountBalances
      = ltx.accountBalances + (new.balance.toInt - old.balance.toInt) := by
  have hat : (ltx.putAccount id new).balanceAt
      = Function.update ltx.balanceAt id new.balance.toInt := by
    funext k
    by_cases hk : k = id
    · subst hk; simp [balanceAt, putAccount]
    · simp [balanceAt, putAccount, hk]
  have hbal : ltx.balanceAt id = old.balance.toInt := by simp [balanceAt, hold]
  have hsplit := Finset.sum_update_of_mem (Finset.mem_univ id) ltx.balanceAt new.balance.toInt
  have hself := Finset.sum_update_of_mem (Finset.mem_univ id) ltx.balanceAt (ltx.balanceAt id)
  rw [Function.update_eq_self, hbal] at hself
  rw [accountBalances, hat, hsplit, accountBalances, hself]
  ring

end LedgerTxn

end KinesisCore

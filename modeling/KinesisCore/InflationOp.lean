import KinesisCore.Ledger

/-!
# The inflation operation of the Kinesis build

`InflationOpFrame::doApply(app, ltx)` hands the whole fee pool to one
account whose key is derived from the network passphrase, once a week. It
empties the pool, takes the amount off what is left to put back, and only
then credits the account; it does not look at whether the credit was
made. `doApply_conserves_iff` says what follows: native coins are
conserved, and the payouts are the increase of the balances, exactly when
the fee destination does not refuse the credit.
-/

namespace KinesisCore

/-- What the operation reads of the application: the passphrase, and the
public key of the secret key seeded with the hash of a text. -/
structure Application where
  NETWORK_PASSPHRASE : String
  publicKeyFromSeedOf : String → AccountID

structure InflationPayout where
  destination : AccountID
  amount : Int64
  deriving Repr, DecidableEq

inductive InflationResult where
  | success (payouts : List InflationPayout)
  | notTime
  deriving Repr, DecidableEq

def InflationResult.payouts : InflationResult → List InflationPayout
  | success payouts => payouts
  | notTime => []

namespace InflationOpFrame

variable {app : Application}

/-- Every 7 days. -/
def INFLATION_FREQUENCY : UInt32 := 60 * 60 * 24 * 7

/-- 1-jul-2014 (unix epoch). -/
def INFLATION_START_TIME : Int64 := 1404172800

/-- The sum is taken in 64 unsigned bits and stored as a `time_t`. -/
def inflationTime (lh : LedgerHeader) : Int64 :=
  (INFLATION_START_TIME.toUInt64
    + lh.inflationSeq.toUInt64 * INFLATION_FREQUENCY.toUInt64).toInt64

def feeDestination (app : Application) : AccountID :=
  app.publicKeyFromSeedOf (app.NETWORK_PASSPHRASE ++ "feepool")

variable {E : Type}

def doApply (app : Application) (ltx : LedgerTxn E) :
    Except String (Bool × InflationResult × LedgerTxn E) := do
  let lh := ltx.header
  let closeTime := lh.scpValue.closeTime.toInt64
  if closeTime < inflationTime lh then
    return (false, .notTime, ltx)
  let amountToDole := lh.feePool
  let lh := { lh with feePool := 0, inflationSeq := lh.inflationSeq + 1 }
  let toDoleThisWinner := amountToDole
  match ltx.accounts (feeDestination app) with
  | some winner =>
    let leftAfterDole := amountToDole - toDoleThisWinner
    -- the answer of `addBalance` is dropped: a refused credit keeps `winner`
    let winner := (← addBalance lh winner toDoleThisWinner).getD winner
    let ltx := ltx.putAccount (feeDestination app) winner
    return (true, .success [⟨feeDestination app, toDoleThisWinner⟩],
      { ltx with header := { lh with feePool := lh.feePool + leftAfterDole } })
  | none =>
    return (true, .success [],
      { ltx with header := { lh with feePool := lh.feePool + amountToDole } })

/-- Coins neither appear nor vanish, and the payouts are what the accounts
gained. -/
structure Conserves (before after : LedgerTxn E) (result : InflationResult) : Prop where
  coins : after.nativeCoins = before.nativeCoins
  payouts : (result.payouts.map (·.amount.toInt)).sum
    = after.accountBalances - before.accountBalances

/-- The credit is refused at a moment when inflation runs. -/
def CreditLost (app : Application) (ltx : LedgerTxn E) : Prop :=
  ¬ltx.header.scpValue.closeTime.toInt64 < inflationTime ltx.header
    ∧ ∃ winner, ltx.accounts (feeDestination app) = some winner
      ∧ CreditRefused ltx.header winner ltx.header.feePool

variable {ltx : LedgerTxn E} {res : InflationResult} {lh : LedgerHeader}

/-- What a run that does not throw can be: too early, without a fee
destination, or with one that takes or refuses the pool. -/
theorem doApply_cases {ltx' : LedgerTxn E} {ok : Bool} (h : doApply app ltx = .ok (ok, res, ltx')) :
    (ltx.header.scpValue.closeTime.toInt64 < inflationTime ltx.header
        ∧ ok = false ∧ res = .notTime ∧ ltx' = ltx)
      ∨ ¬ltx.header.scpValue.closeTime.toInt64 < inflationTime ltx.header ∧ ok = true
        ∧ ((ltx.accounts (feeDestination app) = none ∧ res = .success []
              ∧ ltx' = { ltx with
                  header := { ltx.header with inflationSeq := ltx.header.inflationSeq + 1 } })
          ∨ ∃ winner, ltx.accounts (feeDestination app) = some winner
            ∧ res = .success [⟨feeDestination app, ltx.header.feePool⟩]
            ∧ ∃ r, addBalance ltx.header winner ltx.header.feePool = .ok r
              ∧ ltx' = { ltx.putAccount (feeDestination app) (r.getD winner) with
                  header := { ltx.header with
                    feePool := 0, inflationSeq := ltx.header.inflationSeq + 1 } }) := by
  unfold doApply at h
  by_cases htime : ltx.header.scpValue.closeTime.toInt64 < inflationTime ltx.header
  · simp only [htime, if_true] at h
    cases Except.ok.inj h
    exact .inl ⟨htime, rfl, rfl, rfl⟩
  simp only [htime, if_false] at h
  cases hacc : ltx.accounts (feeDestination app) with
  | none =>
    simp only [hacc, Int64.zero_add] at h
    cases Except.ok.inj h
    exact .inr ⟨htime, rfl, .inl ⟨rfl, rfl, rfl⟩⟩
  | some winner =>
    simp only [hacc, Int64.sub_self, Int64.add_zero, bind, Except.bind] at h
    -- the credit reads neither the pool nor the inflation counter
    have hcredit : addBalance { ltx.header with
          feePool := 0, inflationSeq := ltx.header.inflationSeq + 1 } winner ltx.header.feePool
        = addBalance ltx.header winner ltx.header.feePool := rfl
    rw [hcredit] at h
    cases hadd : addBalance ltx.header winner ltx.header.feePool with
    | error e => rw [hadd] at h; cases h
    | ok r =>
      rw [hadd] at h
      cases Except.ok.inj h
      exact .inr ⟨htime, rfl, .inr ⟨winner, rfl, rfl, r, hadd, rfl⟩⟩

variable {winner : AccountEntry}

theorem doApply_of_refusal
    (htime : ¬ltx.header.scpValue.closeTime.toInt64 < inflationTime ltx.header)
    (hwin : ltx.accounts (feeDestination app) = some winner)
    (hrefused : CreditRefused ltx.header winner ltx.header.feePool) :
    doApply app ltx
      = .ok (true, .success [⟨feeDestination app, ltx.header.feePool⟩],
          { ltx.putAccount (feeDestination app) winner with
            header := { ltx.header with
              feePool := 0, inflationSeq := ltx.header.inflationSeq + 1 } }) := by
  have hcredit : addBalance { ltx.header with
        feePool := 0, inflationSeq := ltx.header.inflationSeq + 1 } winner ltx.header.feePool
      = .ok none := addBalance_eq_none_iff.mpr hrefused
  simp [doApply, htime, hwin, hcredit]

section

variable (hwin : ltx.accounts (feeDestination app) = some winner)
include hwin

/-- A credit that is not refused moves the pool into the account. -/
theorem conserves_of_credit (hpool : lh.feePool = 0)
    (hsum : (winner.balance + ltx.header.feePool).toInt
      = winner.balance.toInt + ltx.header.feePool.toInt) :
    Conserves ltx
      { ltx.putAccount (feeDestination app)
          { winner with balance := winner.balance + ltx.header.feePool } with header := lh }
      (.success [⟨feeDestination app, ltx.header.feePool⟩]) := by
  have hbal := ltx.accountBalances_putAccount hwin
    { winner with balance := winner.balance + ltx.header.feePool }
  simp only [hsum] at hbal
  constructor
  · show (ltx.putAccount _ _).accountBalances + lh.feePool.toInt
      = ltx.accountBalances + ltx.header.feePool.toInt
    rw [hbal, hpool, Int64.toInt_zero]
    ring
  · show [ltx.header.feePool.toInt].sum
      = (ltx.putAccount _ _).accountBalances - ltx.accountBalances
    rw [hbal, List.sum_singleton]
    ring

/-- A refused credit leaves the balances as they were, while the pool is
gone. -/
theorem not_conserves_of_refusal (hpool : lh.feePool = 0) (hne : ltx.header.feePool ≠ 0) :
    ¬Conserves ltx { ltx.putAccount (feeDestination app) winner with header := lh } res := by
  intro h
  have hcoins : (ltx.putAccount (feeDestination app) winner).accountBalances + lh.feePool.toInt
      = ltx.accountBalances + ltx.header.feePool.toInt := h.coins
  rw [ltx.accountBalances_putAccount hwin, hpool, Int64.toInt_zero] at hcoins
  have hzero : ltx.header.feePool.toInt = (0 : Int64).toInt := by
    rw [Int64.toInt_zero]
    omega
  exact hne (Int64.toInt_inj.mp hzero)

end

/-- The operation conserves native coins, and reports what it paid,
exactly when no credit is lost. -/
theorem doApply_conserves_iff (app : Application) (ltx : LedgerTxn E) :
    (∀ ok res ltx', doApply app ltx = .ok (ok, res, ltx') → Conserves ltx ltx' res)
      ↔ ¬CreditLost app ltx := by
  constructor
  · rintro h ⟨htime, winner, hwin, hrefused⟩
    have hrun := doApply_of_refusal htime hwin hrefused
    exact not_conserves_of_refusal hwin rfl hrefused.1 (h _ _ _ hrun)
  · intro hkept ok res ltx' h
    rcases doApply_cases h with ⟨-, -, rfl, rfl⟩ | ⟨htime, -, ⟨-, rfl, rfl⟩ | hsome⟩
    · exact ⟨rfl, by simp [InflationResult.payouts]⟩
    · exact ⟨rfl, by simp [InflationResult.payouts, LedgerTxn.accountBalances, LedgerTxn.balanceAt]⟩
    · obtain ⟨winner, hwin, rfl, r, hadd, rfl⟩ := hsome
      rcases addBalance_cases hadd with ⟨rfl, hsum, -⟩ | ⟨-, hrefused⟩
      · exact conserves_of_credit hwin rfl hsum
      · exact absurd ⟨htime, winner, hwin, hrefused⟩ hkept

/-- An account whose offers to buy leave its balance no room to grow. -/
def fullAccount : AccountEntry where
  balance := 20000000
  seqNum := 0
  ext := some { liabilities := { buying := INT64_MAX - 20000000, selling := 0 } }

/-- A ledger of protocol 14 at the time of the first run, with 50 stroops in
the pool and such an account as the fee destination. -/
def fullDestination : LedgerTxn Unit where
  header :=
    { header45 with
      scpValue := { txSetHash := 0, closeTime := 1404172800 }
      feePool := 50 }
  accounts id := if id = 1 then some fullAccount else none
  others := ()

/-- The 50 stroops vanish, although they are listed as paid. -/
theorem doApply_fullDestination_loses_pool :
    let app : Application := ⟨"Kinesis", fun _ => 1⟩
    ∃ ltx', doApply app fullDestination = .ok (true, .success [⟨1, 50⟩], ltx')
      ∧ ltx'.nativeCoins = fullDestination.nativeCoins - 50
      ∧ ltx'.accountBalances = fullDestination.accountBalances := by
  intro app
  have hwin : fullDestination.accounts (feeDestination app) = some fullAccount := rfl
  have hrefused : CreditRefused fullDestination.header fullAccount 50 :=
    ⟨by decide, by decide, .inr (.inr ⟨by decide, 10000000, rfl, .inr (by decide)⟩)⟩
  have hbal := fullDestination.accountBalances_putAccount hwin fullAccount
  rw [Int.sub_self, Int.add_zero] at hbal
  refine ⟨_, doApply_of_refusal (by decide) hwin hrefused, ?_, hbal⟩
  show (fullDestination.putAccount _ fullAccount).accountBalances + 0
    = fullDestination.accountBalances + 50 - 50
  rw [hbal]
  ring

end InflationOpFrame

end KinesisCore

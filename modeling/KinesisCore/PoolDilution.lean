import KinesisCore.AdjustOffer
import KinesisCore.LiabilityBounds
import KinesisCore.LiquidityPool

/-!
# Liquidity providers are not diluted

Every share of a pool stands for the same part of its reserves. Deposits are rounded up and
withdrawals down, so neither lowers what a share stands for, and the shares of a deposit
never buy back more than was deposited.

`Provides` is what a deposit does to both sides: what the source has of the two assets goes
down by what the reserves go up by, and its line of pool shares goes up by the new shares. A
withdrawal is the same with negative amounts. `deposit_returns` and `withdraw_returns` add
to it which way the amounts are rounded, and `redeemed_le` is the arithmetic that compares a
deposit with the withdrawal of its shares.
-/

namespace KinesisCore

open Attempt MachineInt LedgerTxn Except

/-! ## Quotients and sums that are returned -/

variable {pool' pool : LiquidityPoolEntry} {A B C x : Int64}

/-- What a quotient is, with the signs its assertions imply. -/
theorem bigDivide_some {rounding : Rounding} (h : bigDivide A B C rounding = .ok (some x)) :
    0 ≤ A.toInt ∧ 0 ≤ B.toInt ∧ 0 < C.toInt
      ∧ x.toInt = rounding.quot (A.toInt.toNat * B.toInt.toNat) C.toInt.toNat := by
  have hsigns : 0 ≤ A ∧ 0 ≤ B ∧ 0 < C := by
    by_contra hnot
    rw [bigDivide, if_pos hnot] at h
    cases h
  obtain ⟨hA, hB, hC⟩ := hsigns
  rw [bigDivide_eq hA hB hC, Except.ok.injEq, fits63] at h
  split at h
  · rename_i hfits
    cases h
    rw [Int64.le_iff_toInt_le] at hA hB
    rw [Int64.lt_iff_toInt_lt] at hC
    exact ⟨hA, hB, hC, Int64.toInt_ofNat_of_lt hfits⟩
  · cases h

theorem bigDivide_up (h : bigDivide A B C .ROUND_UP = .ok (some x)) :
    A.toInt * B.toInt ≤ x.toInt * C.toInt := by
  obtain ⟨hA, hB, hC, hx⟩ := bigDivide_some h
  have hup := Nat.lt_mul_div_succ (A.toInt.toNat * B.toInt.toNat + C.toInt.toNat - 1)
    (show 0 < C.toInt.toNat by omega)
  have hle : A.toInt.toNat * B.toInt.toNat
      ≤ Rounding.quot .ROUND_UP (A.toInt.toNat * B.toInt.toNat) C.toInt.toNat
        * C.toInt.toNat := by
    rw [Nat.mul_succ, Nat.mul_comm C.toInt.toNat] at hup
    rw [Rounding.quot]
    omega
  zify at hle
  rwa [Int.toNat_of_nonneg hA, Int.toNat_of_nonneg hB, Int.toNat_of_nonneg hC.le, ← hx] at hle

theorem bigDivideOrThrow_down (h : bigDivideOrThrow A B C .ROUND_DOWN = .ok x) :
    0 ≤ A.toInt ∧ 0 ≤ x.toInt ∧ x.toInt * C.toInt ≤ A.toInt * B.toInt := by
  obtain ⟨res, hres, h⟩ := bind_eq_ok.mp h
  cases res with
  | none => cases h
  | some x =>
    cases h
    obtain ⟨hA, hB, hC, hx⟩ := bigDivide_some hres
    have hle := Nat.div_mul_le_self (A.toInt.toNat * B.toInt.toNat) C.toInt.toNat
    rw [← Rounding.quot.eq_1] at hle
    zify at hle
    rw [Int.toNat_of_nonneg hA, Int.toNat_of_nonneg hB, Int.toNat_of_nonneg hC.le, ← hx] at hle
    exact ⟨hA, by omega, hle⟩

theorem addBalanceOrThrow_returns {C : Type} {balance delta r : Int64} {text : String}
    (h : (addBalanceOrThrow balance delta text : Attempt C Int64).Returns r) :
    0 ≤ balance.toInt ∧ r.toInt = balance.toInt + delta.toInt := by
  obtain ⟨o, ho, h⟩ := returns_bind.mp h
  rw [returns_lift] at ho
  rw [returns_orThrow] at h
  subst h
  obtain ⟨hbal, hmax⟩ := addBalanceTo_nonneg ho
  rcases addBalanceTo_spec hbal hmax (.inr balance.toInt_le) with ⟨-, -, hr, hsum⟩ | ⟨-, hr⟩ <;>
    cases ho.symm.trans hr
  exact ⟨hbal, hsum⟩

/-! ## What the source has -/

/-- The balance of an account in an asset changed by `delta`. Whoever issues the asset holds
none of it. -/
def Moved (ltx ltx' : LedgerTxn Entries) (id : AccountID) (asset : Asset) (delta : Int) : Prop :=
  ∃ h h', ltx.holding id asset = some h ∧ ltx'.holding id asset = some h'
    ∧ if asset.issuer = some id then h' = h else h'.balance = h.balance + delta

/-- The line of pool shares of an account changed by `delta`. -/
def SharesMoved (ltx ltx' : LedgerTxn Entries) (id : AccountID) (pool : PoolID) (delta : Int) :
    Prop :=
  ∃ tl tl', ltx.others.trustLines id (.poolShare pool) = some tl
    ∧ ltx'.others.trustLines id (.poolShare pool) = some tl'
    ∧ tl'.balance.toInt = tl.balance.toInt + delta

section

variable {lh : LedgerHeader} {ltx ltx' ltx'' : LedgerTxn Entries} {id : AccountID} {asset : Asset}
  {tl tl' : TrustLineEntry} {h h' : Holding} {delta : Int64} {d : Int}

theorem TrustLineEntry.addBalance_some (h : tl.addBalance lh delta = .ok (some tl')) :
    ∃ balance, tl' = { tl with balance } ∧ balance.toInt = tl.balance.toInt + delta.toInt := by
  unfold TrustLineEntry.addBalance at h
  split_ifs at h with hzero
  · cases h
    exact ⟨tl.balance, rfl, by simp [hzero]⟩
  · obtain ⟨authorized, -, h⟩ := bind_eq_ok.mp h
    split_ifs at h
    · obtain ⟨r, hr, h⟩ := bind_eq_ok.mp h
      obtain ⟨hbal, hmax⟩ := addBalanceTo_nonneg hr
      rcases addBalanceTo_spec hbal hmax (.inl hzero) with ⟨-, -, hsum, hval⟩ | ⟨-, hnone⟩
      · cases hr.symm.trans hsum
        refine ⟨_, ?_, hval⟩
        simp only at h
        split_ifs at h
        · obtain ⟨_, -, h⟩ := bind_eq_ok.mp h
          split_ifs at h
          · cases h
          · obtain ⟨_, -, h⟩ := bind_eq_ok.mp h
            split_ifs at h <;> cases h
            rfl
        · cases h
          rfl
      · cases hr.symm.trans hnone
        cases h
    · cases h

theorem addBalance_moves (hfor : h.For id asset) (hadd : h.addBalance lh delta = .ok (some h')) :
    h'.For id asset
      ∧ if asset.issuer = some id then h' = h else h'.balance = h.balance + delta.toInt := by
  cases h with
  | account acc =>
    obtain ⟨r, hr, hadd⟩ := bind_eq_ok.mp hadd
    obtain rfl : asset = .native := hfor
    rcases addBalance_cases hr with ⟨rfl, hsum, -⟩ | ⟨rfl, -⟩
    · cases hadd
      exact ⟨rfl, hsum⟩
    · cases hadd
  | trustLine tl =>
    obtain ⟨r, hr, hadd⟩ := bind_eq_ok.mp hadd
    obtain ⟨hnative, hissuer, hasset⟩ := hfor
    cases r with
    | none => cases hadd
    | some tl' =>
      cases hadd
      obtain ⟨balance, rfl, hsum⟩ := TrustLineEntry.addBalance_some hr
      rw [if_neg hissuer]
      exact ⟨⟨hnative, hissuer, hasset⟩, hsum⟩
  | issuer =>
    cases hadd
    rw [if_pos hfor.2]
    exact ⟨hfor, rfl⟩

theorem holding_putShares (ltx : LedgerTxn Entries) (id : AccountID) (asset : Asset)
    {tl : TrustLineEntry} {pool : PoolID} (hasset : tl.asset = .poolShare pool) (p : PoolID)
    (cp : LiquidityPoolEntry) :
    ((ltx.putTrustLine id tl).putPool p cp).holding id asset = ltx.holding id asset := by
  simp [holding, putTrustLine, putPool, Entries.putTrustLine, Entries.putPool, trustLine, hasset]

end

/-! ## One operation -/

/-- What a share stands for did not become less: the ratios of the reserves to the shares,
compared by products. -/
structure NotDiluted (pool pool' : LiquidityPoolEntry) : Prop where
  reserveA : pool.reserveA.toInt * pool'.totalPoolShares.toInt
    ≤ pool'.reserveA.toInt * pool.totalPoolShares.toInt
  reserveB : pool.reserveB.toInt * pool'.totalPoolShares.toInt
    ≤ pool'.reserveB.toInt * pool.totalPoolShares.toInt

/-- The reserves of a pool went up by `a` and `b`, and its shares by `n`. -/
structure Enlarged (pool pool' : LiquidityPoolEntry) (a b n : Int) : Prop where
  params : pool'.params = pool.params
  reserveA : pool'.reserveA.toInt = pool.reserveA.toInt + a
  reserveB : pool'.reserveB.toInt = pool.reserveB.toInt + b
  totalPoolShares : pool'.totalPoolShares.toInt = pool.totalPoolShares.toInt + n

/-- The source put `a` and `b` into a pool, and has got `n` shares for them. -/
structure Provides (sourceID : AccountID) (id : PoolID) (ltx ltx' : LedgerTxn Entries)
    (pool pool' : LiquidityPoolEntry) (a b n : Int) : Prop where
  pools : ltx.others.pools id = some pool ∧ ltx'.others.pools id = some pool'
  enlarged : Enlarged pool pool' a b n
  assetA : Moved ltx ltx' sourceID pool.params.assetA (-a)
  assetB : Moved ltx ltx' sourceID pool.params.assetB (-b)
  shares : SharesMoved ltx ltx' sourceID id n

/-- The amounts of a deposit are no less than what the shares stand for. -/
structure FairDeposit (pool : LiquidityPoolEntry) (a b n : Int) : Prop where
  assetA : n * pool.reserveA.toInt ≤ a * pool.totalPoolShares.toInt
  assetB : n * pool.reserveB.toInt ≤ b * pool.totalPoolShares.toInt

/-- The amounts of a withdrawal are no more than what the shares stand for. -/
structure FairWithdrawal (pool : LiquidityPoolEntry) (a b n : Int) : Prop where
  assetA : a * pool.totalPoolShares.toInt ≤ n * pool.reserveA.toInt
  assetB : b * pool.totalPoolShares.toInt ≤ n * pool.reserveB.toInt

/-- What the operations write: both holdings, the line of pool shares and the pool. -/
theorem provides_put {lh : LedgerHeader} {ltx : LedgerTxn Entries} {sourceID : AccountID}
    {id : PoolID} {tlA tlA' tlB tlB' : Holding} {tlPool tlPool' : TrustLineEntry} {δa δb δn : Int64}
    (hpool : ltx.others.pools id = some pool) (hassets : pool.params.assetA ≠ pool.params.assetB)
    (htlA : ltx.holding sourceID pool.params.assetA = some tlA)
    (hA : tlA.addBalance lh δa = .ok (some tlA'))
    (htlB : ltx.holding sourceID pool.params.assetB = some tlB)
    (hB : tlB.addBalance lh δb = .ok (some tlB'))
    (htlPool : ltx.others.trustLines sourceID (.poolShare id) = some tlPool)
    (hshares : tlPool.addBalance lh δn = .ok (some tlPool'))
    (henlarged : Enlarged pool pool' (-δa.toInt) (-δb.toInt) δn.toInt) :
    Provides sourceID id ltx
      ((((ltx.putHolding sourceID tlA').putHolding sourceID tlB').putTrustLine sourceID
        tlPool').putPool id pool') pool pool' (-δa.toInt) (-δb.toInt) δn.toInt := by
  obtain ⟨hforA, hmovedA⟩ := addBalance_moves (holding_for htlA) hA
  obtain ⟨hforB, hmovedB⟩ := addBalance_moves (holding_for htlB) hB
  obtain ⟨balance, rfl, hsum⟩ := TrustLineEntry.addBalance_some hshares
  have hasset := ltx.others.trustLine_asset sourceID _ tlPool htlPool
  have hkeep (asset : Asset) :=
    holding_putShares ((ltx.putHolding sourceID tlA').putHolding sourceID tlB') sourceID asset
      (show { tlPool with balance }.asset = .poolShare id from hasset) id pool'
  refine ⟨⟨hpool, Function.update_self ..⟩, henlarged, ⟨tlA, tlA', htlA, ?_, ?_⟩,
    ⟨tlB, tlB', htlB, ?_, ?_⟩, tlPool, { tlPool with balance }, htlPool, ?_, hsum⟩
  · rw [hkeep, holding_putHolding_of_ne _ hforB (.inr hassets), holding_putHolding_self _ hforA]
  · rwa [neg_neg]
  · rw [hkeep, holding_putHolding_self _ hforB]
  · rwa [neg_neg]
  · simp [putTrustLine, putPool, Entries.putTrustLine, Entries.putPool, hasset]

section

variable {ltx ltx' : LedgerTxn Entries} {sourceID : AccountID} {pool : LiquidityPoolEntry}
  {amounts : PoolAmounts} {op : LiquidityPoolDepositOp}

theorem depositIntoNonEmptyPool_fair {availA availB availLimit : Int64}
    (h : (op.depositIntoNonEmptyPool availA availB availLimit pool).Returns amounts) :
    0 < pool.totalPoolShares.toInt
      ∧ FairDeposit pool amounts.amountA.toInt amounts.amountB.toInt
        amounts.amountPoolShares.toInt := by
  simp only [LiquidityPoolDepositOp.depositIntoNonEmptyPool, returns_bind, returns_lift,
    returns_orThrow, returns_pure] at h
  obtain ⟨-, -, -, -, n, -, -, hA, -, hB, a, rfl, b, rfl, -, -, -, -, rfl⟩ := h
  exact ⟨(bigDivide_some hA).2.2.1, bigDivide_up hA, bigDivide_up hB⟩

theorem toInt_neg_of_nonneg {x : Int64} (h : 0 ≤ x.toInt) : (-x).toInt = -x.toInt :=
  toInt_neg ⟨by have := x.toInt_lt; omega, by omega⟩

theorem deposit_returns (h : (op.doApply ltx sourceID).Returns ltx')
    (hpool : ltx.others.pools op.liquidityPoolID = some pool) (hne : pool.totalPoolShares ≠ 0) :
    ∃ pool' a b n, Provides sourceID op.liquidityPoolID ltx ltx' pool pool' a b n
      ∧ FairDeposit pool a b n ∧ 0 < pool.totalPoolShares.toInt ∧ 0 < n
      ∧ pool.params.assetA ≠ pool.params.assetB := by
  simp only [LiquidityPoolDepositOp.doApply, LiquidityPoolDepositOp.updateBalance,
    LiquidityPoolDepositOp.loadHolding, returns_bind, returns_lift, returns_orThrow,
    returns_orRefuse, returns_throwIf, returns_pure, hpool, Option.some.injEq, exists_eq_left',
    if_pos hne] at h
  obtain ⟨tlPool, htlPool, -, hassets, tlA, htlA, tlB, htlB, -, -, _, -, _, -, _, -, amounts,
    hamounts, -, -, -, hpos, tlA', ⟨_, hA', rfl⟩, reserveA, hA, tlB', ⟨_, hB', rfl⟩, reserveB, hB,
    _, hPool', tlPool', rfl, shares, hshares, rfl⟩ := h
  obtain ⟨hS, hfair⟩ := depositIntoNonEmptyPool_fair hamounts
  simp only [not_or, Int64.not_le, Int64.lt_iff_toInt_lt, Int64.toInt_zero] at hpos
  obtain ⟨ha, hb, hn⟩ := hpos
  have henlarged : Enlarged pool { pool with reserveA, reserveB, totalPoolShares := shares }
      amounts.amountA.toInt amounts.amountB.toInt amounts.amountPoolShares.toInt :=
    ⟨rfl, (addBalanceOrThrow_returns hA).2, (addBalanceOrThrow_returns hB).2,
      (addBalanceOrThrow_returns hshares).2⟩
  rw [← neg_neg amounts.amountA.toInt, ← neg_neg amounts.amountB.toInt,
    ← toInt_neg_of_nonneg ha.le, ← toInt_neg_of_nonneg hb.le] at henlarged
  have hprovides := provides_put hpool hassets htlA hA' htlB hB' htlPool hPool' henlarged
  rw [toInt_neg_of_nonneg ha.le, toInt_neg_of_nonneg hb.le, neg_neg, neg_neg] at hprovides
  exact ⟨_, _, _, _, hprovides, hfair, hS, hn, hassets⟩

theorem withdraw_returns {op : LiquidityPoolWithdrawOp} (h : (op.doApply ltx sourceID).Returns ltx')
    (hpool : ltx.others.pools op.liquidityPoolID = some pool) :
    ∃ pool' a b, ltx'.others.pools op.liquidityPoolID = some pool'
      ∧ Enlarged pool pool' (-a) (-b) (-op.amount.toInt) ∧ FairWithdrawal pool a b op.amount.toInt
      ∧ (pool.params.assetA ≠ pool.params.assetB →
        Provides sourceID op.liquidityPoolID ltx ltx' pool pool' (-a) (-b) (-op.amount.toInt)) := by
  simp only [LiquidityPoolWithdrawOp.doApply, LiquidityPoolWithdrawOp.tryAddAssetBalance,
    returns_bind, returns_lift, returns_orThrow, returns_orRefuse, returns_pure, hpool,
    Option.some.injEq, exists_eq_left'] at h
  obtain ⟨tlPool, htlPool, -, -, -, -, a, ha, _, ⟨-, -, tlA, htlA, _, hA', tlA', rfl, rfl⟩,
    b, hb, _, ⟨-, -, tlB, htlB, _, hB', tlB', rfl, rfl⟩, _, hPool', tlPool', rfl, shares, hshares,
    reserveA, hA, reserveB, hB, rfl⟩ := h
  simp only [getPoolWithdrawalAmount] at ha hb
  split at ha
  · cases ha
  · rename_i hle
    rw [if_neg hle] at hb
    obtain ⟨hn, ha0, hfairA⟩ := bigDivideOrThrow_down ha
    obtain ⟨-, hb0, hfairB⟩ := bigDivideOrThrow_down hb
    have henlarged : Enlarged pool { pool with reserveA, reserveB, totalPoolShares := shares }
        (-a.toInt) (-b.toInt) (-op.amount.toInt) :=
      ⟨rfl, toInt_neg_of_nonneg ha0 ▸ (addBalanceOrThrow_returns hA).2,
        toInt_neg_of_nonneg hb0 ▸ (addBalanceOrThrow_returns hB).2,
        toInt_neg_of_nonneg hn ▸ (addBalanceOrThrow_returns hshares).2⟩
    refine ⟨_, a.toInt, b.toInt, Function.update_self .., henlarged, ⟨hfairA, hfairB⟩,
      fun hassets => ?_⟩
    have hforA := (addBalance_moves (holding_for htlA) hA').1
    rw [holding_putHolding_of_ne ltx hforA (.inr (Ne.symm hassets))] at htlB
    rw [putHolding_header] at hB'
    rw [putHolding_header, putHolding_header] at hPool'
    rw [← toInt_neg_of_nonneg hn] at henlarged ⊢
    exact provides_put hpool hassets htlA hA' htlB hB' htlPool hPool' henlarged

end

theorem FairDeposit.notDiluted {a b n : Int} (h : FairDeposit pool a b n)
    (henlarged : Enlarged pool pool' a b n) : NotDiluted pool pool' := by
  obtain ⟨hA, hB⟩ := h
  constructor
  · rw [henlarged.reserveA, henlarged.totalPoolShares]
    linarith
  · rw [henlarged.reserveB, henlarged.totalPoolShares]
    linarith

theorem FairWithdrawal.notDiluted {a b n : Int} (h : FairWithdrawal pool a b n)
    (henlarged : Enlarged pool pool' (-a) (-b) (-n)) : NotDiluted pool pool' := by
  obtain ⟨hA, hB⟩ := h
  constructor
  · rw [henlarged.reserveA, henlarged.totalPoolShares]
    linarith
  · rw [henlarged.reserveB, henlarged.totalPoolShares]
    linarith

/-- The shares `n` of a deposit of `d` buy back at most `d`. -/
theorem redeemed_le {A S n d x : Int} (hS : 0 < S) (hn : 0 < n) (hfair : n * A ≤ d * S)
    (hx : x * (S + n) ≤ n * (A + d)) : x ≤ d := by
  have hle : x * (S + n) ≤ d * (S + n) := by linarith
  exact le_of_mul_le_mul_right hle (by omega)

/-- The amounts of a deposit and of a withdrawal of its shares. -/
theorem deposit_then_withdraw_returns_at_most {a b a' b' n : Int}
    (hS : 0 < pool.totalPoolShares.toInt)
    (hn : 0 < n) (hin : FairDeposit pool a b n) (henlarged : Enlarged pool pool' a b n)
    (hout : FairWithdrawal pool' a' b' n) : a' ≤ a ∧ b' ≤ b := by
  obtain ⟨hA, hB⟩ := hout
  rw [henlarged.totalPoolShares, henlarged.reserveA] at hA
  rw [henlarged.totalPoolShares, henlarged.reserveB] at hB
  exact ⟨redeemed_le hS hn hin.assetA hA, redeemed_le hS hn hin.assetB hB⟩

/-! ## No dilution -/

/-- Deposits and withdrawals of a pool with shares lower neither reserve per share. What a
deposit took from its source, and the shares it gave, are in the entries of the source; the
withdrawal of these shares right after it gives back no more. -/
theorem liquidity_not_diluted (ltx : LedgerTxn Entries) (id : PoolID) (pool : LiquidityPoolEntry)
    (hpool : ltx.others.pools id = some pool) (hne : pool.totalPoolShares ≠ 0) :
    (∀ (op : LiquidityPoolDepositOp) sourceID ltx', op.liquidityPoolID = id →
      (op.doApply ltx sourceID).Returns ltx' →
      ∃ pool' a b n, Provides sourceID id ltx ltx' pool pool' a b n ∧ NotDiluted pool pool' ∧ 0 < n
        ∧ ∀ (op' : LiquidityPoolWithdrawOp) ltx'', op'.liquidityPoolID = id →
          op'.amount.toInt = n → (op'.doApply ltx' sourceID).Returns ltx'' →
          ∃ pool'' a' b', Provides sourceID id ltx' ltx'' pool' pool'' (-a') (-b') (-n)
            ∧ a' ≤ a ∧ b' ≤ b)
      ∧ ∀ (op : LiquidityPoolWithdrawOp) sourceID ltx', op.liquidityPoolID = id →
        (op.doApply ltx sourceID).Returns ltx' →
        ∃ pool', ltx'.others.pools id = some pool' ∧ NotDiluted pool pool' := by
  constructor
  · rintro op sourceID ltx' rfl hdeposit
    obtain ⟨pool', a, b, n, hin, hfair, hS, hn, hassets⟩ := deposit_returns hdeposit hpool hne
    refine ⟨pool', a, b, n, hin, hfair.notDiluted hin.enlarged, hn, ?_⟩
    rintro op' ltx'' hid rfl hwithdraw
    have hpool' := hin.pools.2
    rw [← hid] at hpool' ⊢
    obtain ⟨pool'', a', b', -, -, hout, hprovides⟩ := withdraw_returns hwithdraw hpool'
    rw [hin.enlarged.params] at hprovides
    exact ⟨pool'', a', b', hprovides hassets,
      deposit_then_withdraw_returns_at_most hS hn hfair hin.enlarged hout⟩
  · rintro op sourceID ltx' rfl hwithdraw
    obtain ⟨pool', a, b, hpool', henlarged, hfair, -⟩ := withdraw_returns hwithdraw hpool
    exact ⟨pool', hpool', hfair.notDiluted henlarged⟩

/-- A pool of 100 of each asset with 100 shares, and what its only provider holds. -/
def evenPool : LedgerTxn Entries :=
  let tl asset : TrustLineEntry := { asset, balance := 1000, limit := 5000, flags := 1 }
  let asset code : TrustLineAsset := .asset (.alphaNum4 code 9)
  { header := marketHeader
    accounts := fun _ => none
    others := {
      trustLines := fun id key =>
        if id = 1 ∧ (key = asset 1 ∨ key = asset 2 ∨ key = .poolShare 7) then some (tl key)
        else none
      offers := []
      pools := fun id =>
        if id = 7 then
          some ⟨⟨.alphaNum4 1 9, .alphaNum4 2 9, 30⟩, 100, 100, 100, 1⟩
        else none
      trustLine_asset := by
        intro id key tl h
        split at h
        · rw [← Option.some.inj h]
        · cases h
      offers_unique := Entries.no_offers_unique } }

theorem liquidity_not_diluted_even :
    ∃ ltx' pool',
      (LiquidityPoolDepositOp.doApply ⟨7, 10, 10, ⟨1, 1⟩, ⟨1, 1⟩⟩ evenPool 1).Returns ltx'
        ∧ ltx'.others.pools 7 = some pool'
        ∧ 100 * pool'.totalPoolShares.toInt ≤ pool'.reserveA.toInt * 100 := by
  have hdone :
      (match (LiquidityPoolDepositOp.doApply ⟨7, 10, 10, ⟨1, 1⟩, ⟨1, 1⟩⟩ evenPool 1).run with
      | .ok (.ok _) => true
      | _ => false) = true := by decide +kernel
  split at hdone
  · rename_i ltx' hreturns
    obtain ⟨pool', a, b, n, hin, hkept, -⟩ :=
      (liquidity_not_diluted evenPool 7 _ rfl (by decide)).1 _ 1 ltx' rfl hreturns
    exact ⟨ltx', pool', hreturns, hin.pools.2, hkept.reserveA⟩
  · cases hdone

end KinesisCore

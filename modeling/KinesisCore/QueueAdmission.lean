import KinesisCore.QueueEviction

/-!
# Adding a transaction

`tryAdd` looks for the place of a transaction in the chain of its account, asks
the limiter for room, checks validity and the balance of the fee source, and
then changes the queue: the transaction takes its place, is counted, others are
evicted, and the limiter gets it last.

All of this compares fee rates, which throws on a negative bid. `Guarded` says
that a computation throws in no other case.
-/

namespace KinesisCore

open TransactionFrameBase QueueFrame MachineInt AddResult TransactionResultCode Function Except List

variable {T E : Type} [QueueFrame T]

/-! ## Comparing a bid -/

/-- The computation returns, unless the bid of `tx` is negative: then it may throw
the assertion of `bigMultiply`. -/
def Guarded {α : Type} (tx : T) (x : Except String α) : Prop :=
  (∃ r, x = .ok r) ∨ ((getFeeBid tx).toInt < 0 ∧ x = .error "(a >= 0) && (b >= 0)")

namespace Guarded

variable {α β : Type} {tx : T}

theorem ok (r : α) : Guarded tx (.ok r : Except String α) := .inl ⟨r, rfl⟩

variable {x : Except String α}

variable (hx : Guarded tx x)
include hx

theorem bind {f : α → Except String β} (hf : ∀ r, x = .ok r → Guarded tx (f r)) :
    Guarded tx (x >>= f) := by
  rcases hx with ⟨r, rfl⟩ | ⟨hneg, rfl⟩
  · exact hf r rfl
  · exact .inr ⟨hneg, rfl⟩

theorem map (f : α → β) : Guarded tx (x.map f) := by
  rcases hx with ⟨r, rfl⟩ | ⟨hneg, rfl⟩
  · exact .ok _
  · exact .inr ⟨hneg, rfl⟩

theorem returns (hbid : 0 ≤ (getFeeBid tx).toInt) : ∃ r, x = .ok r := by
  rcases hx with hok | ⟨hneg, -⟩
  · exact hok
  · omega

end Guarded

theorem bigMultiply_bid_guarded (tx : T) (ops : UInt32) :
    Guarded tx (bigMultiply (getFeeBid tx) ops.toUInt64.toInt64) := by
  by_cases hbid : 0 ≤ (getFeeBid tx).toInt
  · exact .inl ⟨_, bigMultiply_ops hbid ops⟩
  · refine .inr ⟨by omega, bigMultiply_of_neg fun h => hbid ?_⟩
    exact Int64.le_iff_toInt_le.mp h.1

theorem compareBids_guarded (tx : T) {bid : Int64} (hbid : 0 ≤ bid.toInt) (ops : UInt32) :
    Guarded tx (feeRate3WayCompareBids (getFeeBid tx) (getNumOperations tx) bid ops) := by
  refine (bigMultiply_bid_guarded tx ops).bind fun v1 _ => ?_
  rw [bigMultiply_ops hbid]
  exact .ok _

variable {tx : T}

theorem compare_guarded {it : T} (hit : Payable it) :
    Guarded tx (feeRate3WayCompare it tx) := by
  rw [feeRate3WayCompare_eq, feeRate3WayCompareBids, bigMultiply_ops hit.nonneg]
  exact (bigMultiply_bid_guarded tx _).bind fun v2 _ => .ok _

theorem computeBetterFee_guarded (tx : T) {bid : Int64} {ops : UInt32} (hbid : 0 ≤ bid.toInt)
    (hops : 1 ≤ ops.toNat) : Guarded tx (computeBetterFee tx bid ops) := by
  rw [computeBetterFee, bigDivide_eq (Int64.le_iff_toInt_le.mpr hbid)
    (MachineInt.ofUInt32_nonneg _) (ops_pos hops)]
  dsimp only [ok_bind]
  split
  · exact .ok _
  · exact .ok _

theorem canReplaceByFee_guarded {oldTx : T} (hold : Payable oldTx) :
    Guarded tx (canReplaceByFee tx oldTx) := by
  refine (bigMultiply_bid_guarded tx _).bind fun v1 _ => ?_
  rw [bigMultiply_ops hold.nonneg, max_one_ops hold.operations]
  dsimp only [ok_bind]
  split
  · exact .ok _
  · rw [bigDivide128_eq _ (ops_pos hold.operations)]
    exact .ok _

namespace TxQueueLimiter

theorem canEvict_guarded {newTx : T} :
    ∀ {txs : List T} (neededOps : Nat), (∀ t ∈ txs, Payable t) →
      Guarded newTx (canEvict newTx txs neededOps)
  | [], _, _ => .ok _
  | it :: rest, neededOps, hpay => by
    obtain ⟨hit, hrest⟩ := forall_mem_cons.mp hpay
    refine (compare_guarded hit).bind fun order _ => ?_
    dsimp only
    split
    · exact (computeBetterFee_guarded newTx hit.nonneg hit.operations).bind fun _ _ => .ok _
    split
    · exact .ok _
    split
    · exact .ok _
    · exact canEvict_guarded _ hrest

/-- The operations of the transaction that is replaced. -/
def replacedOps (oldTx : Option T) : Nat := (oldTx.map opsOf).getD 0

variable {lim : TxQueueLimiter T} {oldTx : Option T}

theorem canFit_guarded (hpay : ∀ t ∈ lim.mTxs, Payable t)
    (hold : replacedOps oldTx ≤ lim.mQueueSizeOps) (lcl : LastClosedLedger E) (newTx : T) :
    Guarded newTx (lim.canFit lcl newTx oldTx) := by
  have hold' : ¬lim.mQueueSizeOps < (oldTx.map fun tx => (getNumOperations tx).toNat).getD 0 :=
    Nat.not_lt.mpr hold
  unfold canFit
  rw [if_neg hold']
  split
  · exact .ok _
  · exact canEvict_guarded _ hpay

theorem canAddTx_guarded (hpay : ∀ t ∈ lim.mTxs, Payable t)
    (hminFee : 0 ≤ lim.mMinFeeNeeded.1.toInt) (hold : replacedOps oldTx ≤ lim.mQueueSizeOps)
    (lcl : LastClosedLedger E) (newTx : T) : Guarded newTx (lim.canAddTx lcl newTx oldTx) := by
  unfold canAddTx
  split
  · rename_i hneeded
    refine (compareBids_guarded newTx hminFee _).bind fun order _ => ?_
    have hops : 1 ≤ lim.mMinFeeNeeded.2.toNat :=
      Nat.one_le_iff_ne_zero.mpr fun hzero => hneeded (UInt32.toNat_inj.mp hzero)
    split
    · exact (computeBetterFee_guarded newTx hminFee hops).bind fun _ _ => .ok _
    · exact canFit_guarded hpay hold lcl newTx
  · exact canFit_guarded hpay hold lcl newTx

/-- When there is room for `newTx`: cheaper transactions of other accounts, the
cheapest ones of all, have enough operations. -/
theorem canAddTx_true {lcl : LastClosedLedger E} {newTx : T} {minFee : Int64}
    (h : lim.canAddTx lcl newTx oldTx = .ok (true, minFee)) :
    ∃ cheap, cheap <+: lim.mTxs
      ∧ (∀ u ∈ cheap, feeRate3WayCompare u newTx = .ok .lt ∧ getSourceID u ≠ getSourceID newTx)
      ∧ lim.opsWith newTx oldTx ≤ lim.maxQueueSizeOps lcl + (cheap.map opsOf).sum := by
  have hfit : lim.canFit lcl newTx oldTx = .ok (true, minFee) := by
    unfold canAddTx at h
    split at h
    · obtain ⟨order, -, h⟩ := bind_eq_ok.mp h
      split at h
      · obtain ⟨fee, -, h⟩ := bind_eq_ok.mp h
        cases h
      · exact h
    · exact h
  unfold canFit at hfit
  split at hfit
  · cases hfit
  split at hfit
  · rename_i hroom
    exact ⟨[], nil_prefix, by simp, by simpa using hroom⟩
  · obtain ⟨cheap, hwalk, hcheap, hsum⟩ := canEvict_true hfit
    exact ⟨cheap, hwalk, hcheap, by omega⟩

end TxQueueLimiter

namespace TransactionQueue

/-! ## The place of a transaction -/

variable {pos : Position T} {post pre : List (TimestampedTx T)} {env : Env E}

/-- A place for `tx` in the chain of its account: at its start, at its end, or that
of a transaction with the same sequence number. -/
inductive Placed (q : TransactionQueue T) (tx : T) : Position T → Prop where
  | first (hchain : q.chain (getSourceID tx) = []) : Placed q tx ⟨0, getFeeBid tx, none⟩
  | last {back : TimestampedTx T} {seqNum : SequenceNumber}
      (hback : (q.chain (getSourceID tx)).getLast? = some back)
      (hseq : seqNum = getSeqNum back.mTx ∨ (getSeqNum tx).toInt = seqOf back + 1) :
      Placed q tx ⟨seqNum, getFeeBid tx, none⟩
  | replacing {oldTxIter : Nat} {old : TimestampedTx T}
      (hold : (q.chain (getSourceID tx))[oldTxIter]? = some old)
      (hseq : getSeqNum old.mTx = getSeqNum tx) (hother : old.mTx ≠ tx) :
      Placed q tx ⟨getSeqNum tx - 1,
        if getFeeSourceID old.mTx = getFeeSourceID tx then getFeeBid tx - getFeeBid old.mTx
        else getFeeBid tx, some (oldTxIter, old.mTx)⟩

/-- What `findPosition` can return. -/
def Found (q : TransactionQueue T) (tx : T) : AddResult ⊕ Position T → Prop
  | .inl res => res ≠ ADD_STATUS_PENDING
  | .inr pos => Placed q tx pos

variable {q : TransactionQueue T} {all : Finset T}

theorem isDuplicateTx_self (tx : T) : isDuplicateTx tx tx = true := by simp [isDuplicateTx]

/-- A position that `findBySeq` gives is that of the sequence number. -/
theorem findBySeq_cases {id : AccountID} {txs : List (TimestampedTx T)} (h : Chained id txs)
    (hne : txs ≠ []) (seq : SequenceNumber) :
    ∃ iter, findBySeq seq txs = .ok iter
      ∧ ∀ n ∈ iter, seq.toInt = seqOf (txs.head hne) + n ∧ n ≤ txs.length := by
  refine ⟨_, h.findBySeq_ok (head?_eq_some_head hne) seq, fun n hn => ?_⟩
  obtain ⟨⟨hle, hge, -⟩, heq⟩ := Option.ite_none_right_eq_some.mp hn
  have hn' := Option.some.inj heq
  omega

/-- The queued transaction that a fee bump is to replace. -/
def replaced (q : TransactionQueue T) (tx : T) : Option T :=
  if envelopeType tx ≠ .feeBump then none
  else
    match findBySeq (getSeqNum tx) (q.chain (getSourceID tx)) with
    | .ok (some offset) =>
      ((q.chain (getSourceID tx))[offset]?.map (·.mTx)).filter fun old => ¬isDuplicateTx old tx
    | _ => none

/-- A result without a transaction to replace. -/
def Fresh (q : TransactionQueue T) (tx : T) (found : AddResult ⊕ Position T) : Prop :=
  Found q tx found ∧ ∀ pos, found = .inr pos → pos.oldTx = none

theorem fresh_inl {res : AddResult} (h : res ≠ ADD_STATUS_PENDING) :
    Fresh q tx (.inl res) := ⟨h, nofun⟩

theorem fresh_inr {seqNum : SequenceNumber} {netFee : Int64}
    (h : Placed q tx ⟨seqNum, netFee, none⟩) : Fresh q tx (.inr ⟨seqNum, netFee, none⟩) :=
  ⟨h, by rintro _ ⟨⟩; rfl⟩

/-- The result if there is nothing to replace, or the transaction that is to be
replaced if its fee is beaten. -/
theorem findPosition_cases (h : Consistent q all all) (tx : T) :
    (q.replaced tx = none ∧ ∃ found, q.findPosition tx = .ok found ∧ Fresh q tx found)
      ∨ ∃ old pos, q.replaced tx = some old ∧ old ∈ all ∧ Placed q tx pos
        ∧ q.findPosition tx = (canReplaceByFee tx old).map fun
          | some minFee => .inl (ADD_STATUS_ERROR (some txINSUFFICIENT_FEE) (some minFee))
          | none => .inr pos := by
  have hempty : q.chain (getSourceID tx) = [] → q.replaced tx = none := by
    intro hnil
    unfold replaced
    rw [hnil]
    split <;> rfl
  unfold findPosition
  split
  · rename_i hnone
    have hnil : q.chain (getSourceID tx) = [] := by rw [chain, state, hnone]; rfl
    exact .inl ⟨hempty hnil, _, rfl, fresh_inr (.first hnil)⟩
  · rename_i as has
    have htxs := chain_of_some has
    split
    · rename_i hlast
      have hnil := htxs.trans (getLast?_eq_none_iff.mp hlast)
      exact .inl ⟨hempty hnil, _, rfl, fresh_inr (.first hnil)⟩
    · rename_i back hback
      have hne : as.mTransactions ≠ [] := by
        rintro hnil
        rw [hnil] at hback
        cases hback
      have hchained : Chained (getSourceID tx) as.mTransactions := htxs ▸ h.chains _
      have hhead := head?_eq_some_head hne
      have hlast := hchained.seqOf_getLast? hhead hback
      obtain ⟨iter, hiter, hfound⟩ := findBySeq_cases hchained hne (getSeqNum tx)
      unfold replaced
      rw [htxs, hiter]
      rw [← htxs] at hback
      dsimp only [ok_bind]
      split
      · -- a plain transaction goes to the end
        refine .inl ⟨rfl, ?_⟩
        split
        · split
          · exact ⟨_, rfl, fresh_inl (by simp)⟩
          · exact ⟨_, rfl, fresh_inr (.last hback (.inl rfl))⟩
        · exact ⟨_, rfl, fresh_inr (.last hback (.inl rfl))⟩
      · cases iter with
        | none => exact .inl ⟨rfl, _, rfl, fresh_inl (by simp)⟩
        | some n =>
          obtain ⟨hseq, hn⟩ := hfound n rfl
          dsimp only
          cases hold : as.mTransactions[n]? with
          | none =>
            have hlen := getElem?_eq_none_iff.mp hold
            have hpos := length_pos_iff.mpr hne
            exact .inl ⟨rfl, _, rfl, fresh_inr (.last hback (.inr (by omega)))⟩
          | some old =>
            dsimp only
            by_cases hdup : isDuplicateTx old.mTx tx = true
            · rw [if_pos hdup]
              exact .inl ⟨by simp [hdup], _, rfl, fresh_inl (by simp)⟩
            · rw [if_neg hdup]
              have holdseq := seqOf_getElem? hchained.ascending hhead hold
              have hin : old.mTx ∈ all := h.mem_all (htxs ▸ mem_of_getElem? hold)
              have hother : old.mTx ≠ tx := by
                rintro rfl
                exact hdup (isDuplicateTx_self _)
              have hsame : getSeqNum old.mTx = getSeqNum tx := by
                refine Int64.toInt_inj.mp ?_
                show seqOf old = _
                omega
              refine .inr ⟨old.mTx, _, by simp [hdup], hin,
                .replacing (htxs ▸ hold) hsame hother, ?_⟩
              cases canReplaceByFee tx old.mTx with
              | error => rfl
              | ok r => cases r <;> rfl

/-- `findPosition` throws only on a negative bid. -/
theorem findPosition_ok (h : Consistent q all all) (tx : T) :
    Guarded tx (q.findPosition tx) ∧ ∀ r, q.findPosition tx = .ok r → Found q tx r := by
  rcases findPosition_cases h tx with
    ⟨-, found, hfound, hfresh, -⟩ | ⟨old, pos, -, hin, hplaced, heq⟩
  · rw [hfound]
    exact ⟨.ok _, by rintro _ ⟨⟩; exact hfresh⟩
  · rw [heq]
    refine ⟨(canReplaceByFee_guarded (h.limiter.payable old hin)).map _, fun r hr => ?_⟩
    obtain ⟨beaten, -, rfl⟩ := map_eq_ok.mp hr
    cases beaten with
    | none => exact hplaced
    | some minFee => exact nofun

/-! ## Validity and balance -/

/-- What the queue relies on when a transaction has been found valid after a
sequence number: it has operations, its own number is the next one, and its fee
source is not below the reserve if it bids anything. -/
structure Vouched (ltx : LedgerTxn E) (tx : T) (current : SequenceNumber) : Prop where
  operations : 1 ≤ opsOf tx
  positive : 0 ≤ current.toInt → 0 < (getSeqNum tx).toInt
  next : 0 < current.toInt → (getSeqNum tx).toInt = current.toInt + 1
  feeSource : ∃ acc avail, ltx.accounts (getFeeSourceID tx) = some acc
    ∧ getAvailableBalance ltx.header acc = .ok avail
    ∧ (0 ≤ (getFeeBid tx).toInt → 0 ≤ avail.toInt)

/-- The difference of `canPay` is right, or wraps around and is then negative. -/
theorem pays_of_not_lt {avail netFee total : Int64} :
    0 ≤ avail.toInt → 0 ≤ total.toInt → ¬avail - netFee < total →
      total.toInt + netFee.toInt ≤ avail.toInt := by
  intro havail htotal h
  rw [Int64.lt_iff_toInt_lt, Int64.toInt_sub] at h
  have ha := inRange_toInt avail
  have hn := inRange_toInt netFee
  unfold InRange at ha hn
  by_cases hwrap : avail.toInt - netFee.toInt < 2 ^ 63
  · rw [bmod_of_inRange ⟨by omega, hwrap⟩] at h
    omega
  · rw [Int.bmod_def] at h
    omega

/-- An accepted transaction is vouched for, and its fee source has what it will
owe. -/
theorem canPay_pending [CheckValid T E]
    (hvalid : CheckValid.checkValid tx env.lcl.ledger pos.seqNum 0 env.upperBoundCloseTimeOffset
      = .ok true → Vouched env.lcl.ledger tx pos.seqNum) (hbid : 0 ≤ (getFeeBid tx).toInt)
    (htotal : 0 ≤ (q.totalFees (getFeeSourceID tx)).toInt)
    (h : q.canPay env tx pos = .ok ADD_STATUS_PENDING) :
    Vouched env.lcl.ledger tx pos.seqNum
      ∧ (q.totalFees (getFeeSourceID tx)).toInt + pos.netFee.toInt < 2 ^ 63 := by
  obtain ⟨valid, hcheck, h⟩ := bind_eq_ok.mp h
  split at h
  · cases h
  · rename_i hok
    have hvouched := hvalid (by rw [hcheck]; simpa using hok)
    obtain ⟨acc, avail, hacc, havail, hnonneg⟩ := hvouched.feeSource
    refine ⟨hvouched, ?_⟩
    rw [hacc] at h
    dsimp only at h
    rw [havail] at h
    dsimp only [ok_bind] at h
    split at h
    · cases h
    · rename_i hpays
      exact (pays_of_not_lt (hnonneg hbid) htotal hpays).trans_lt (inRange_toInt avail).2

/-- `canPay` throws only if validation does. -/
theorem canPay_ok [CheckValid T E] {valid : Bool}
    (hcheck : CheckValid.checkValid tx env.lcl.ledger pos.seqNum 0 env.upperBoundCloseTimeOffset
      = .ok valid) (hvalid : valid = true → Vouched env.lcl.ledger tx pos.seqNum) :
    ∃ res, q.canPay env tx pos = .ok res := by
  unfold canPay
  dsimp only
  rw [hcheck]
  dsimp only [Bind.bind, Except.bind]
  cases valid with
  | false => exact ⟨_, rfl⟩
  | true =>
    obtain ⟨acc, avail, hacc, havail, -⟩ := (hvalid rfl).feeSource
    rw [if_neg (by simp), hacc]
    dsimp only
    rw [havail]
    dsimp only
    split
    · exact ⟨_, rfl⟩
    · exact ⟨_, rfl⟩

/-! ## The decision -/

section

variable [CheckValid T E] {res : AddResult} {oldTx : Option (Nat × T)} {q' : TransactionQueue T}

/-- What `canAdd` decides: the transaction is banned for want of room, or the queue is
left as it is; then an accepted transaction has passed everything. -/
theorem canAdd_cases (h : q.canAdd env tx = .ok (res, oldTx, q')) :
    (q.ban [tx] = .ok q' ∧ res ≠ ADD_STATUS_PENDING)
      ∨ q' = q ∧ (res = ADD_STATUS_PENDING → q.findPosition tx = .ok (.inl ADD_STATUS_PENDING) ∨
        ∃ pos minFee, q.findPosition tx = .ok (.inr pos) ∧ oldTx = pos.oldTx
          ∧ q.mTxQueueLimiter.canAddTx env.lcl tx (pos.oldTx.map Prod.snd) = .ok (true, minFee)
          ∧ q.canPay env tx pos = .ok ADD_STATUS_PENDING) := by
  unfold canAdd at h
  split at h
  · cases h
    exact .inr ⟨rfl, nofun⟩
  split at h
  · cases h
    exact .inr ⟨rfl, nofun⟩
  obtain ⟨found, hfound, h⟩ := bind_eq_ok.mp h
  split at h
  · cases h
    exact .inr ⟨rfl, by rintro rfl; exact .inl hfound⟩
  · rename_i pos
    obtain ⟨⟨ok, minFee⟩, hroom, h⟩ := bind_eq_ok.mp h
    dsimp only at h
    split at h
    · obtain ⟨q₁, hban, h⟩ := bind_eq_ok.mp h
      split at h
      · cases h
        exact .inl ⟨hban, nofun⟩
      · cases h
        exact .inl ⟨hban, nofun⟩
    · rename_i hok
      obtain ⟨res', hpay, h⟩ := bind_eq_ok.mp h
      cases h
      obtain rfl : ok = true := by simpa using hok
      exact .inr ⟨rfl, by rintro rfl; exact .inr ⟨pos, minFee, hfound, rfl, hroom, hpay⟩⟩

/-- A refused transaction leaves the queue as it is, or is banned. -/
theorem canAdd_refused (h : q.canAdd env tx = .ok (res, oldTx, q')) :
    q' = q ∨ (q.ban [tx] = .ok q' ∧ res ≠ ADD_STATUS_PENDING) :=
  (canAdd_cases h).symm.imp_left And.left

/-- An accepted transaction has passed everything. -/
theorem canAdd_pending (h : q.canAdd env tx = .ok (ADD_STATUS_PENDING, oldTx, q')) :
    q' = q ∧ (q.findPosition tx = .ok (.inl ADD_STATUS_PENDING) ∨
      ∃ pos minFee, q.findPosition tx = .ok (.inr pos) ∧ oldTx = pos.oldTx
        ∧ q.mTxQueueLimiter.canAddTx env.lcl tx (pos.oldTx.map Prod.snd) = .ok (true, minFee)
        ∧ q.canPay env tx pos = .ok ADD_STATUS_PENDING) := by
  rcases canAdd_cases h with ⟨-, hne⟩ | ⟨hq, hpassed⟩
  · exact absurd rfl hne
  · exact ⟨hq, hpassed rfl⟩

end

/-! ## Taking the place -/

variable [DecidableEq T]

omit [QueueFrame T] [DecidableEq T] in
theorem putAccount_putAccount (q : TransactionQueue T) (id : AccountID) (as as' : AccountState T) :
    (q.putAccount id as).putAccount id as' = q.putAccount id as' := by
  simp [putAccount]

/-- A fee source is charged with a new transaction. -/
theorem Accounts.charge {c : AccountID → List (TimestampedTx T)} (h : Accounts q c all)
    (hbid : 0 < (getFeeBid tx).toInt) (hnew : tx ∉ all)
    (hfits : feesOf all (getFeeSourceID tx) + (getFeeBid tx).toInt < 2 ^ 63) :
    Accounts (q.putAccount (getFeeSourceID tx)
      { q.state (getFeeSourceID tx) with
        mTotalFees := (q.state (getFeeSourceID tx)).mTotalFees + getFeeBid tx }) c
      (insert tx all) := by
  have hfees := h.fees (getFeeSourceID tx)
  have hnonneg := feesOf_nonneg h.bids (getFeeSourceID tx)
  have hown : feesOf (insert tx all) (getFeeSourceID tx)
      = feesOf all (getFeeSourceID tx) + (getFeeBid tx).toInt := by
    rw [feesOf_insert hnew, if_pos rfl]
  rw [← update_eq_self (getFeeSourceID tx) c]
  refine h.put ?_ (fun j hj => ?_) ?_ (h.size _) (h.unsent _) (h.within _) (.inr ?_) (h.age _)
  · intro t ht
    rcases Finset.mem_insert.mp ht with rfl | ht
    · exact hbid
    · exact h.bids t ht
  · rw [feesOf_insert hnew, if_neg (Ne.symm hj), Int.add_zero]
  · rw [hown, ← hfees]
    exact toInt_add ⟨by omega, by omega⟩
  · omega

/-- A transaction is put between two parts of a chain and counted. -/
theorem countIn_ok (h : Accounts q (update q.chain (getSourceID tx) (pre ++ post)) all)
    (hbid : 0 < (getFeeBid tx).toInt) (hnew : tx ∉ all)
    (hfits : feesOf all (getFeeSourceID tx) + (getFeeBid tx).toInt < 2 ^ 63) :
    ∃ m, (q.putAccount (getSourceID tx) { q.state (getSourceID tx) with
          mTransactions := pre ++ ⟨tx, false⟩ :: post }).countIn tx
        = .ok { q with mAccountStates := m }
      ∧ chain { q with mAccountStates := m }
        = update q.chain (getSourceID tx) (pre ++ ⟨tx, false⟩ :: post)
      ∧ Accounts { q with mAccountStates := m } (chain { q with mAccountStates := m })
        (insert tx all)
      ∧ ∀ j, (state { q with mAccountStates := m } j).mAge = (q.state j).mAge := by
  let id := getSourceID tx
  let as : AccountState T :=
    { q.state id with
      mTransactions := pre ++ ⟨tx, false⟩ :: post
      mQueueSizeOps := (q.state id).mQueueSizeOps + (getNumOperations tx).toNat
      mBroadcastQueueOps := (q.state id).mBroadcastQueueOps + (getNumOperations tx).toNat }
  have hchain : (q.putAccount id as).chain
      = update q.chain id (pre ++ ⟨tx, false⟩ :: post) := chain_putAccount ..
  have hplaced : Accounts (q.putAccount id as) (q.putAccount id as).chain all := by
    have hidem : update (update q.chain id (pre ++ post)) id
        (pre ++ ⟨tx, false⟩ :: post) = update q.chain id (pre ++ ⟨tx, false⟩ :: post) :=
      update_idem ..
    rw [hchain, ← hidem]
    refine h.put h.bids (fun _ _ => rfl) (h.fees id) ?_ ?_ (List.Sublist.refl _) (.inl ?_) ?_
    · show (q.state id).mQueueSizeOps + opsOf tx = _
      rw [h.size, update_self]
      simp only [opsIn_append, opsIn_cons]
      omega
    · show (q.state id).mBroadcastQueueOps + opsOf tx = _
      rw [h.unsent, update_self]
      simp only [unsentOps_append, unsentOps_cons, Bool.false_eq_true, if_false]
      omega
    · simp [as]
    · simp [as]
  have hcount : (q.putAccount id { q.state id with
      mTransactions := pre ++ ⟨tx, false⟩ :: post }).countIn tx
        = .ok ((q.putAccount id as).putAccount (getFeeSourceID tx)
          { (q.putAccount id as).state (getFeeSourceID tx) with
            mTotalFees := ((q.putAccount id as).state (getFeeSourceID tx)).mTotalFees
              + getFeeBid tx }) := by
    unfold countIn
    rw [accountState_ok (by simp [isSome_putAccount, id]), state_putAccount, update_self]
    dsimp only [ok_bind]
    rw [putAccount_putAccount]
    rfl
  have hsame (mTotalFees : Int64) : ((q.putAccount id as).putAccount (getFeeSourceID tx)
      { (q.putAccount id as).state (getFeeSourceID tx) with mTotalFees }).chain
        = (q.putAccount id as).chain := chain_putAccount_same rfl
  refine ⟨_, hcount, (hsame _).trans hchain, ?_, fun j => ?_⟩
  · exact (hsame _).symm ▸ hplaced.charge hbid hnew hfits
  · exact (age_putAccount (by rfl) j).trans (age_putAccount (by rfl) j)

/-- The place of a transaction as a gap in a chain: `mid`, which is empty or the
transaction that is replaced. -/
structure Gap (q : TransactionQueue T) (tx : T) (pos : Position T)
    (pre mid post : List (TimestampedTx T)) : Prop where
  chain : q.chain (getSourceID tx) = pre ++ (mid ++ post)
  chained : Chained (getSourceID tx) (pre ++ ⟨tx, false⟩ :: post)
  replaced : (mid = [] ∧ post = [] ∧ pos.oldTx = none ∧ pos.netFee = getFeeBid tx)
    ∨ ∃ x, mid = [x] ∧ x.mTx ≠ tx ∧ pos.oldTx = some (pre.length, x.mTx)
      ∧ pos.netFee = if getFeeSourceID x.mTx = getFeeSourceID tx
        then getFeeBid tx - getFeeBid x.mTx else getFeeBid tx

variable (h : Consistent q all all)
include h

omit [DecidableEq T] in
theorem Placed.gap (hplaced : Placed q tx pos) {ltx : LedgerTxn E}
    (hvouched : Vouched ltx tx pos.seqNum) :
    ∃ pre mid post, Gap q tx pos pre mid post := by
  have hchained := h.chains (getSourceID tx)
  cases hplaced with
  | first hchain =>
    refine ⟨[], [], [], hchain, ⟨by simp, ?_, isChain_singleton _⟩, .inl ⟨rfl, rfl, rfl, rfl⟩⟩
    simpa [seqOf] using hvouched.positive le_rfl
  | @last back seqNum hback hseq =>
    have hpos := hchained.positive back (mem_of_getLast? hback)
    have hnext : (getSeqNum tx).toInt = seqOf back + 1 := by
      rcases hseq with rfl | hseq
      · exact hvouched.next hpos
      · exact hseq
    refine ⟨q.chain (getSourceID tx), [], [], by simp, ⟨?_, ?_, ?_⟩, .inl ⟨rfl, rfl, rfl, rfl⟩⟩
    · simpa [or_imp, forall_and] using hchained.source
    · rw [forall_mem_append, forall_mem_singleton]
      exact ⟨hchained.positive, by show 0 < (getSeqNum tx).toInt; omega⟩
    · refine isChain_append.mpr ⟨hchained.ascending, isChain_singleton _, ?_⟩
      rintro x hx y ⟨⟩
      obtain rfl : x = back := Option.mem_unique hx hback
      exact hnext
  | @replacing i old hold hseq hother =>
    obtain ⟨pre, post, hsplit, hlen, -⟩ := exists_split hold
    refine ⟨pre, [old], post, by simpa using hsplit, ?_, .inr ⟨old, rfl, hother, by rw [hlen], rfl⟩⟩
    refine hchained.of_seqs (fun x hx => ?_) ?_
    · rw [hsplit] at hchained
      simp only [mem_append, mem_cons] at hx
      rcases hx with hx | rfl | hx
      · exact hchained.source x (by simp [hx])
      · rfl
      · exact hchained.source x (by simp [hx])
    · rw [hsplit]
      simp [seqOf, hseq]

omit h in
omit [DecidableEq T] in
theorem enqueue_none (q : TransactionQueue T) (tx : T) :
    q.enqueue tx none = .ok (q.putAccount (getSourceID tx) { q.state (getSourceID tx) with
      mTransactions := q.chain (getSourceID tx) ++ [⟨tx, false⟩] }) := by
  unfold enqueue
  dsimp only
  cases has : q.mAccountStates (getSourceID tx) with
  | none =>
    rw [accountState_ok (by simp [isSome_putAccount]), state_putAccount, update_self]
    have hstate : q.state (getSourceID tx) = {} := by rw [state, has]; rfl
    have hchain : q.chain (getSourceID tx) = [] := by rw [chain, hstate]
    rw [hstate, hchain]
    dsimp only [ok_bind]
    rw [putAccount_putAccount]
    rfl
  | some as =>
    rw [accountState_ok (by rw [has]; rfl)]
    rfl

omit h in
omit [DecidableEq T] in
theorem enqueue_some {old : T} {i : Nat} {x : TimestampedTx T} {q₁ : TransactionQueue T}
    (hthere : (q.mAccountStates (getSourceID tx)).isSome)
    (hx : (q.chain (getSourceID tx))[i]? = some x)
    (hdrop : q.prepareDropTransaction (getSourceID tx) x = .ok q₁)
    (hthere₁ : (q₁.mAccountStates (getSourceID tx)).isSome) :
    q.enqueue tx (some (i, old)) = .ok (q₁.putAccount (getSourceID tx)
      { q₁.state (getSourceID tx) with
        mTransactions := (q₁.chain (getSourceID tx)).set i ⟨tx, false⟩ }) := by
  obtain ⟨as, has⟩ := Option.isSome_iff_exists.mp hthere
  have htxs : (q.state (getSourceID tx)).mTransactions[i]? = some x := hx
  unfold enqueue
  dsimp only
  rw [has]
  rw [accountState_ok hthere]
  dsimp only [Bind.bind, Except.bind, Option.bind]
  rw [htxs]
  dsimp only [Option.map]
  rw [hdrop]
  dsimp only
  rw [accountState_ok hthere₁]
  rfl

variable {mid : List (TimestampedTx T)}

/-- The queue with a transaction in its place. -/
theorem Consistent.of_placed (hgap : Gap q tx pos pre mid post) {q' : TransactionQueue T}
    (hchain : q'.chain = update q.chain (getSourceID tx) (pre ++ ⟨tx, false⟩ :: post))
    (hacc : Accounts q' q'.chain (insert tx (all \ txSet mid)))
    (hlim : q'.mTxQueueLimiter.Holds (all \ txSet mid))
    (hages : ∀ j, (q'.state j).mAge < q'.mPendingDepth) :
    Consistent q' (insert tx (all \ txSet mid)) (all \ txSet mid) := by
  refine ⟨hacc, hlim, ?_, fun t => ?_, hages⟩
  · rw [hchain]
    exact (forall_update_iff q.chain Chained).mpr ⟨hgap.chained, fun j _ => h.chains j⟩
  · rw [Finset.mem_insert, h.mem_sdiff hgap.chain, hchain]
    by_cases hj : getSourceID t = getSourceID tx
    · rw [hj, update_self, update_self]
      simp only [mem_append, mem_cons]
      constructor
      · rintro (rfl | ⟨x, hx, rfl⟩)
        · exact ⟨⟨t, false⟩, .inr (.inl rfl), rfl⟩
        · exact ⟨x, hx.imp_right .inr, rfl⟩
      · rintro ⟨x, hx | rfl | hx, rfl⟩
        · exact .inr ⟨x, .inl hx, rfl⟩
        · exact .inl rfl
        · exact .inr ⟨x, .inr hx, rfl⟩
    · rw [update_of_ne hj, update_of_ne hj]
      refine or_iff_right fun heq => hj (by rw [heq])

omit h in
omit [QueueFrame T] [DecidableEq T] in
theorem totalFees_eq (q : TransactionQueue T) (id : AccountID) :
    q.totalFees id = (q.state id).mTotalFees := by
  unfold totalFees state
  cases q.mAccountStates id <;> rfl

/-- `enqueue` and `countIn` together. -/
theorem Consistent.place
    (hgap : Gap q tx pos pre mid post) (hbid : 0 < (getFeeBid tx).toInt) (hnew : tx ∉ all)
    (hfits : (q.totalFees (getFeeSourceID tx)).toInt + pos.netFee.toInt < 2 ^ 63) :
    ∃ q₁, (q.enqueue tx pos.oldTx >>= fun q => q.countIn tx) = .ok q₁
      ∧ Consistent q₁ (insert tx (all \ txSet mid)) (all \ txSet mid)
      ∧ q₁.chain = update q.chain (getSourceID tx) (pre ++ ⟨tx, false⟩ :: post)
      ∧ Kept q q₁ ∧ q₁.mTxQueueLimiter.mTxs.Sublist q.mTxQueueLimiter.mTxs := by
  rw [totalFees_eq, h.accounts.fees] at hfits
  rcases hgap.replaced with ⟨rfl, rfl, hold, hnet⟩ | ⟨x, rfl, -, hold, hnet⟩
  · have hchain : q.chain (getSourceID tx) = pre := by simpa using hgap.chain
    have hacc : Accounts q (update q.chain (getSourceID tx) (pre ++ [])) all := by
      rw [append_nil, ← hchain, update_eq_self]
      exact h.accounts
    rw [hnet] at hfits
    obtain ⟨m, hcount, hchain', hacc', hages⟩ := countIn_ok hacc hbid hnew hfits
    refine ⟨{ q with mAccountStates := m }, ?_, ?_, hchain', ⟨rfl, rfl⟩, List.Sublist.refl _⟩
    · rw [hold, enqueue_none, hchain]
      exact hcount
    · refine h.of_placed hgap hchain' (by rwa [sdiff_txSet_nil])
        (by rw [sdiff_txSet_nil]; exact h.limiter)
        fun j => ?_
      rw [hages]
      exact h.ages j
  · have hsplit : q.chain (getSourceID tx) = pre ++ x :: post := hgap.chain
    have hxin : x ∈ q.chain (getSourceID tx) := by
      rw [hsplit]
      simp
    have hx : (q.chain (getSourceID tx))[pre.length]? = some x := by
      rw [hsplit]
      simp
    have hxall := h.mem_all hxin
    have hne : q.chain (getSourceID tx) ≠ [] := ne_nil_of_mem hxin
    obtain ⟨q₁, hdrop, hacc₁, hholds, hshrunk, hchain₁⟩ :=
      prepareDropTransaction_ok h.accounts h.limiter hsplit hxall hxall
    have hthere := (h.accounts.present (getSourceID tx)).mpr (.inl hne)
    have hthere₁ := (hacc₁.present (getSourceID tx)).mpr (.inl (by rw [hchain₁]; exact hne))
    have hset : (q₁.chain (getSourceID tx)).set pre.length ⟨tx, false⟩
        = pre ++ ⟨tx, false⟩ :: post := by
      rw [hchain₁, hsplit]
      simp
    have hfits₁ : feesOf (all.erase x.mTx) (getFeeSourceID tx) + (getFeeBid tx).toInt < 2 ^ 63 := by
      rw [feesOf_erase hxall]
      have hxbid := h.accounts.bids x.mTx hxall
      rw [hnet] at hfits
      split at hfits
      · rename_i hsame
        rw [toInt_sub ⟨by have := (inRange_toInt (getFeeBid x.mTx)).2; omega,
          by have := (inRange_toInt (getFeeBid tx)).2; omega⟩] at hfits
        rw [if_pos hsame]
        omega
      · rename_i hother
        omega
    have hnew₁ : tx ∉ all.erase x.mTx := fun hin => hnew (Finset.mem_of_mem_erase hin)
    rw [← hchain₁] at hacc₁
    obtain ⟨m, hcount, hchain', hacc', hages⟩ := countIn_ok hacc₁ hbid hnew₁ hfits₁
    rw [hchain₁] at hchain'
    refine ⟨{ q₁ with mAccountStates := m }, ?_, ?_, hchain', ⟨hshrunk.depth, hshrunk.limiter⟩,
      hshrunk.txs⟩
    · rw [hold, enqueue_some hthere hx hdrop hthere₁, hset]
      exact hcount
    · refine h.of_placed hgap hchain' (by rwa [sdiff_txSet_one])
        (by rwa [sdiff_txSet_one])
        fun j => ?_
      rw [hages]
      exact (hshrunk.ages j).trans_lt (hshrunk.depth ▸ h.ages j)

/-! ## No other assertion -/

/-- Validation of `tx` returns, and what it finds valid is vouched for. -/
structure Checked [CheckValid T E] (env : Env E) (tx : T) : Prop where
  returns : ∀ current, ∃ valid,
    CheckValid.checkValid tx env.lcl.ledger current 0 env.upperBoundCloseTimeOffset = .ok valid
  vouched : ∀ current,
    CheckValid.checkValid tx env.lcl.ledger current 0 env.upperBoundCloseTimeOffset = .ok true →
      Vouched env.lcl.ledger tx current

omit [DecidableEq T] in
theorem Placed.replacedOps_le (hplaced : Placed q tx pos) :
    TxQueueLimiter.replacedOps (pos.oldTx.map Prod.snd) ≤ q.mTxQueueLimiter.mQueueSizeOps := by
  cases hplaced with
  | first hchain | last hback hseq => exact Nat.zero_le _
  | replacing hold hseq hother =>
    rw [h.limiter.size]
    exact Finset.single_le_sum (f := opsOf) (fun t _ => Nat.zero_le _)
      (h.mem_all (mem_of_getElem? hold))

/-- `canAdd` throws only on a negative bid. -/
theorem canAdd_guarded [CheckValid T E]
    (hminFee : 0 ≤ q.mTxQueueLimiter.mMinFeeNeeded.1.toInt) (hcheck : Checked env tx) :
    Guarded tx (q.canAdd env tx) := by
  obtain ⟨hguarded, hfound⟩ := findPosition_ok h tx
  unfold canAdd
  split
  · exact .ok _
  split
  · exact .ok _
  refine hguarded.bind fun found hr => ?_
  cases found with
  | inl res => exact .ok _
  | inr pos =>
    refine (TxQueueLimiter.canAddTx_guarded h.limiter.payable_mem hminFee
      (Placed.replacedOps_le h (hfound _ hr)) env.lcl tx).bind fun room _ => ?_
    dsimp only
    split
    · obtain ⟨q', all', hban, -⟩ := Consistent.drops_ban [tx] q all h
      dsimp only at hban
      rw [hban]
      split
      · exact .ok _
      · exact .ok _
    · obtain ⟨valid, hvalid⟩ := hcheck.returns pos.seqNum
      obtain ⟨res, hres⟩ := canPay_ok (q := q) hvalid fun hv =>
        hcheck.vouched pos.seqNum (hv ▸ hvalid)
      rw [hres]
      exact .ok _

end TransactionQueue

end KinesisCore

import Mathlib.Algebra.Order.BigOperators.Group.Finset
import KinesisCore.QueueOrder

/-!
# What the transaction queue counts

The queue keeps five views of the transactions in it: the chains of the
accounts, the operations of a chain, those of it not yet broadcast, the fees by
fee source, and the limiter's set with its own counter. `Accounts` ties the
counters to a content, a chain for every account, and to the set of all
transactions; `TxQueueLimiter.Holds` does it for the limiter.

While transactions are being dropped the chains are behind: a transaction is
taken out of the counters one by one, and out of the chain at the end. So the
content is not read off the queue but given, and lies within the chains. The
result of this module is what `dropTransactions` does as a whole.
-/

namespace KinesisCore

open TransactionFrameBase QueueFrame MachineInt Function Finset

namespace TransactionQueue

variable {T : Type}

/-! ## Views of a queue -/

variable (q : TransactionQueue T) (id : AccountID)

/-- The state of an account; an account that has none is like an empty one. -/
def state : AccountState T :=
  (q.mAccountStates id).getD {}

/-- The transactions of an account. -/
def chain : List (TimestampedTx T) :=
  (q.state id).mTransactions

theorem state_of_some {q : TransactionQueue T} {id : AccountID} {as : AccountState T}
    (h : q.mAccountStates id = some as) : q.state id = as := by rw [state, h]; rfl

section Accounts

variable (q : TransactionQueue T) (id : AccountID) (as : AccountState T)

theorem state_putAccount : (q.putAccount id as).state = update q.state id as := by
  funext j
  exact apply_update (fun _ o => o.getD {}) q.mAccountStates id (some as) j

theorem state_eraseAccount : (q.eraseAccount id).state = update q.state id {} := by
  funext j
  exact apply_update (fun _ o => o.getD {}) q.mAccountStates id none j

theorem chain_putAccount : (q.putAccount id as).chain = update q.chain id as.mTransactions := by
  funext j
  rw [chain, state_putAccount]
  exact apply_update (fun _ as => as.mTransactions) q.state id as j

theorem chain_eraseAccount : (q.eraseAccount id).chain = update q.chain id [] := by
  funext j
  rw [chain, state_eraseAccount]
  exact apply_update (fun _ as => as.mTransactions) q.state id {} j

/-- A state with the same transactions leaves the chains as they are. -/
theorem chain_putAccount_same {q : TransactionQueue T} {id : AccountID} {as : AccountState T}
    (h : as.mTransactions = q.chain id) : (q.putAccount id as).chain = q.chain := by
  rw [chain_putAccount, h, update_eq_self]

end Accounts

variable {q q'' : TransactionQueue T} {id : AccountID} {as : AccountState T} {all : Finset T}

/-- A state of the same age leaves the ages as they are. -/
theorem age_putAccount (h : as.mAge = (q.state id).mAge) (j : AccountID) :
    ((q.putAccount id as).state j).mAge = (q.state j).mAge := by
  rw [state_putAccount, apply_update (fun _ as => as.mAge) q.state id as j, h]
  exact congrFun (update_eq_self id fun j => (q.state j).mAge) j

theorem isSome_putAccount (q : TransactionQueue T) (id : AccountID) (as : AccountState T)
    (j : AccountID) :
    ((q.putAccount id as).mAccountStates j).isSome = (j = id ∨ (q.mAccountStates j).isSome) := by
  unfold putAccount
  by_cases h : j = id
  · subst h; simp
  · simp [h]

theorem chain_of_some (h : q.mAccountStates id = some as) : q.chain id = as.mTransactions := by
  rw [chain, state_of_some h]

theorem accountState_ok
    (h : (q.mAccountStates id).isSome) : q.accountState id = .ok (q.state id) := by
  obtain ⟨as, has⟩ := Option.isSome_iff_exists.mp h
  rw [accountState, state, has]
  rfl

/-- What dropping leaves alone: the depth, and of the limiter all but its
transactions. -/
structure Kept (q q' : TransactionQueue T) : Prop where
  depth : q'.mPendingDepth = q.mPendingDepth
  limiter : q'.mTxQueueLimiter = { q.mTxQueueLimiter with
    mTxs := q'.mTxQueueLimiter.mTxs, mQueueSizeOps := q'.mTxQueueLimiter.mQueueSizeOps }

/-- No account gets older and the limiter only loses transactions. -/
structure Shrunk (q q' : TransactionQueue T) : Prop extends Kept q q' where
  txs : q'.mTxQueueLimiter.mTxs.Sublist q.mTxQueueLimiter.mTxs
  ages : ∀ id, (q'.state id).mAge ≤ (q.state id).mAge

theorem Kept.refl (q : TransactionQueue T) : Kept q q := ⟨rfl, rfl⟩

variable {q' : TransactionQueue T} {tx : T}

theorem Kept.trans (h : Kept q q') (h' : Kept q' q'') : Kept q q'' where
  depth := h'.depth.trans h.depth
  limiter := by
    have hlim := h'.limiter
    rw [h.limiter] at hlim
    exact hlim

theorem Shrunk.refl (q : TransactionQueue T) : Shrunk q q :=
  ⟨Kept.refl q, List.Sublist.refl _, fun _ => le_rfl⟩

theorem Shrunk.trans (h : Shrunk q q') (h' : Shrunk q' q'') : Shrunk q q'' where
  toKept := h.toKept.trans h'.toKept
  txs := h'.txs.trans h.txs
  ages id := (h'.ages id).trans (h.ages id)

theorem shrunk_putAccount (hage : as.mAge ≤ (q.state id).mAge) : Shrunk q (q.putAccount id as) := by
  refine ⟨⟨rfl, rfl⟩, List.Sublist.refl _, ?_⟩
  rw [state_putAccount]
  exact (forall_update_iff q.state fun j as => as.mAge ≤ (q.state j).mAge).mpr
    ⟨hage, fun _ _ => le_rfl⟩

theorem shrunk_eraseAccount (q : TransactionQueue T) (id : AccountID) :
    Shrunk q (q.eraseAccount id) := by
  refine ⟨⟨rfl, rfl⟩, List.Sublist.refl _, ?_⟩
  rw [state_eraseAccount]
  exact (forall_update_iff q.state fun j as => as.mAge ≤ (q.state j).mAge).mpr
    ⟨Nat.zero_le _, fun _ _ => le_rfl⟩

variable [QueueFrame T]

/-- The operations of some transactions. -/
def opsIn (txs : List (TimestampedTx T)) : Nat := (txs.map fun x => opsOf x.mTx).sum

variable (x : TimestampedTx T) (txs : List (TimestampedTx T))

/-- The operations of those not yet broadcast. -/
def unsentOps : Nat := opsIn (txs.filter fun x => !x.mBroadcasted)

/-- The fees of one fee source. -/
def feesOf (all : Finset T) (id : AccountID) : Int :=
  ∑ t ∈ all with getFeeSourceID t = id, (getFeeBid t).toInt

@[simp] theorem opsIn_cons : opsIn (x :: txs) = opsOf x.mTx + opsIn txs := by simp [opsIn]

@[simp] theorem opsIn_append (l r : List (TimestampedTx T)) :
    opsIn (l ++ r) = opsIn l + opsIn r := by simp [opsIn]

@[simp] theorem unsentOps_cons :
    unsentOps (x :: txs) = (if x.mBroadcasted then 0 else opsOf x.mTx) + unsentOps txs := by
  unfold unsentOps
  cases hx : x.mBroadcasted <;> simp [hx]

@[simp] theorem unsentOps_append (l r : List (TimestampedTx T)) :
    unsentOps (l ++ r) = unsentOps l + unsentOps r := by simp [unsentOps]

variable [DecidableEq T]

omit [QueueFrame T] in
/-- The transactions of a list, as a set. -/
def txSet (txs : List (TimestampedTx T)) : Finset T := (txs.map (·.mTx)).toFinset

omit [QueueFrame T] in
@[simp] theorem mem_txSet {txs : List (TimestampedTx T)} {t : T} :
    t ∈ txSet txs ↔ ∃ x ∈ txs, x.mTx = t := by simp [txSet]

omit [QueueFrame T] in
theorem sdiff_txSet_cons (u : Finset T) (x : TimestampedTx T) (txs : List (TimestampedTx T)) :
    u \ txSet (x :: txs) = u.erase x.mTx \ txSet txs := by
  unfold txSet
  rw [List.map_cons, List.toFinset_cons, sdiff_insert, erase_sdiff_comm]

omit [QueueFrame T] in
theorem sdiff_txSet_nil (u : Finset T) : u \ txSet [] = u := sdiff_empty

omit [QueueFrame T] in
theorem sdiff_txSet_one (u : Finset T) (x : TimestampedTx T) : u \ txSet [x] = u.erase x.mTx :=
  (sdiff_txSet_cons u x []).trans (sdiff_txSet_nil _)

/-! ## Fees of a set -/

theorem feesOf_erase (h : tx ∈ all) (id : AccountID) : feesOf (all.erase tx) id
      = feesOf all id - if getFeeSourceID tx = id then (getFeeBid tx).toInt else 0 := by
  unfold feesOf
  rw [sum_filter, sum_filter,
    ← add_sum_erase all (fun t => if getFeeSourceID t = id then _ else _) h]
  omega

theorem feesOf_insert (h : tx ∉ all) (id : AccountID) : feesOf (insert tx all) id
      = feesOf all id + if getFeeSourceID tx = id then (getFeeBid tx).toInt else 0 := by
  unfold feesOf
  rw [sum_filter, sum_filter, sum_insert h]
  omega

section

variable (hbids : ∀ t ∈ all, 0 < (getFeeBid t).toInt)
include hbids

omit [DecidableEq T] in
theorem feesOf_nonneg (id : AccountID) : 0 ≤ feesOf all id :=
  sum_nonneg fun t ht => (hbids t (mem_filter.mp ht).1).le

omit [DecidableEq T] in
/-- A queued transaction's bid is part of what its fee source owes. -/
theorem bid_le_feesOf (h : tx ∈ all) : (getFeeBid tx).toInt ≤ feesOf all (getFeeSourceID tx) :=
  single_le_sum (f := fun t => (getFeeBid t).toInt)
    (fun t ht => (hbids t (mem_filter.mp ht).1).le) (mem_filter.mpr ⟨h, rfl⟩)

end

/-! ## The counters of the accounts -/

/-- The counters of a queue are those of the content `c`, and its fees those of
the transactions `all`. An account has a state exactly when it has
transactions or owes fees, and is of age zero without transactions. -/
structure Accounts (q : TransactionQueue T) (c : AccountID → List (TimestampedTx T))
    (all : Finset T) : Prop where
  bids : ∀ t ∈ all, 0 < (getFeeBid t).toInt
  fees : ∀ id, (q.state id).mTotalFees.toInt = feesOf all id
  size : ∀ id, (q.state id).mQueueSizeOps = opsIn (c id)
  unsent : ∀ id, (q.state id).mBroadcastQueueOps = unsentOps (c id)
  within : ∀ id, (c id).Sublist (q.chain id)
  present : ∀ id, (q.mAccountStates id).isSome ↔ q.chain id ≠ [] ∨ feesOf all id ≠ 0
  age : ∀ id, q.chain id = [] → (q.state id).mAge = 0

/-- What `Accounts` says about one account: its state, its content and its fees. -/
structure Fits (as : Option (AccountState T)) (l : List (TimestampedTx T)) (owed : Int) : Prop where
  fees : (as.getD {}).mTotalFees.toInt = owed
  size : (as.getD {}).mQueueSizeOps = opsIn l
  unsent : (as.getD {}).mBroadcastQueueOps = unsentOps l
  within : l.Sublist (as.getD {}).mTransactions
  present : as.isSome ↔ (as.getD {}).mTransactions ≠ [] ∨ owed ≠ 0
  age : (as.getD {}).mTransactions = [] → (as.getD {}).mAge = 0

namespace Accounts

variable {q : TransactionQueue T} {c : AccountID → List (TimestampedTx T)} {all : Finset T}

section Fits

omit [DecidableEq T]

theorem fits (h : Accounts q c all) (id : AccountID) :
    Fits (q.mAccountStates id) (c id) (feesOf all id) :=
  ⟨h.fees id, h.size id, h.unsent id, h.within id, h.present id, h.age id⟩

theorem of_fits (hbids : ∀ t ∈ all, 0 < (getFeeBid t).toInt)
    (h : ∀ id, Fits (q.mAccountStates id) (c id) (feesOf all id)) : Accounts q c all :=
  ⟨hbids, fun id => (h id).fees, fun id => (h id).size, fun id => (h id).unsent,
    fun id => (h id).within, fun id => (h id).present, fun id => (h id).age⟩

/-- Only the states of the accounts matter. -/
theorem congr (h : Accounts q c all) (hq : q'.mAccountStates = q.mAccountStates) :
    Accounts q' c all :=
  of_fits h.bids fun id => hq ▸ h.fits id

variable (h : Accounts q c all) {all' : Finset T} {id : AccountID}
  (hbids : ∀ t ∈ all', 0 < (getFeeBid t).toInt)
  (hothers : ∀ j, j ≠ id → feesOf all' j = feesOf all j)
include h hbids hothers

variable {l : List (TimestampedTx T)}

/-- One account is given another state or none, and all others are as they were. -/
theorem replace {as : Option (AccountState T)}
    (hq : q'.mAccountStates = update q.mAccountStates id as) (hfits : Fits as l (feesOf all' id)) :
    Accounts q' (update c id l) all' := by
  refine of_fits hbids fun j => ?_
  rw [hq]
  by_cases hj : j = id
  · subst hj
    rw [update_self, update_self]
    exact hfits
  · rw [update_of_ne hj, update_of_ne hj, hothers j hj]
    exact h.fits j

/-- One account is given a new state, which accounts for its own part. -/
theorem put {as : AccountState T} (hfees : as.mTotalFees.toInt = feesOf all' id)
    (hsize : as.mQueueSizeOps = opsIn l) (hunsent : as.mBroadcastQueueOps = unsentOps l)
    (hwithin : l.Sublist as.mTransactions) (hpresent : as.mTransactions ≠ [] ∨ feesOf all' id ≠ 0)
    (hage : as.mTransactions = [] → as.mAge = 0) :
    Accounts (q.putAccount id as) (update c id l) all' :=
  h.replace hbids hothers rfl ⟨hfees, hsize, hunsent, hwithin, iff_of_true rfl hpresent, hage⟩

/-- One account is erased: it has no transactions left and owes nothing. -/
theorem erase (hfees : feesOf all' id = 0) :
    Accounts (q.eraseAccount id) (update c id []) all' :=
  h.replace hbids hothers rfl
    ⟨hfees.symm, rfl, rfl, List.nil_sublist _, by simp [hfees], fun _ => rfl⟩

end Fits

/-- Releasing a fee takes the transaction off its fee source's account. -/
theorem releaseFee (h : Accounts q c all) (htx : tx ∈ all) :
    ∃ m, q.releaseFee tx = .ok { q with mAccountStates := m }
      ∧ Accounts { q with mAccountStates := m } c (all.erase tx)
      ∧ chain { q with mAccountStates := m } = q.chain
      ∧ ∀ j, (state { q with mAccountStates := m } j).mAge ≤ (q.state j).mAge := by
  have hbid := h.bids tx htx
  have hle := bid_le_feesOf h.bids htx
  have hfees := h.fees (getFeeSourceID tx)
  have hthere : (q.mAccountStates (getFeeSourceID tx)).isSome := (h.present _).mpr (.inr (by omega))
  have hbids : ∀ t ∈ all.erase tx, 0 < (getFeeBid t).toInt :=
    fun t ht => h.bids t (mem_of_mem_erase ht)
  have hothers : ∀ j, j ≠ getFeeSourceID tx → feesOf (all.erase tx) j = feesOf all j := by
    intro j hj
    rw [feesOf_erase htx, if_neg (Ne.symm hj), Int.sub_zero]
  have hown : ((q.state (getFeeSourceID tx)).mTotalFees - getFeeBid tx).toInt
      = feesOf (all.erase tx) (getFeeSourceID tx) := by
    rw [feesOf_erase htx, if_pos rfl, toInt_sub, hfees]
    have hrange := (inRange_toInt (q.state (getFeeSourceID tx)).mTotalFees).2
    exact ⟨by omega, by omega⟩
  have hlt : ¬(q.state (getFeeSourceID tx)).mTotalFees < getFeeBid tx := by
    rw [Int64.lt_iff_toInt_lt]
    omega
  unfold TransactionQueue.releaseFee
  rw [accountState_ok hthere]
  dsimp only [Except.ok_bind]
  rw [if_neg hlt]
  split
  · -- the account has nothing left
    rename_i hempty
    have hchain : q.chain (getFeeSourceID tx) = [] := List.isEmpty_iff.mp hempty.1
    have hzero : feesOf (all.erase tx) (getFeeSourceID tx) = 0 := by
      rw [← hown, hempty.2]
      rfl
    have hc : c = update c (getFeeSourceID tx) [] := by
      rw [← List.sublist_nil.mp (hchain ▸ h.within _), update_eq_self]
    refine ⟨_, rfl, hc ▸ h.erase hbids hothers hzero, ?_, (shrunk_eraseAccount q _).ages⟩
    show (q.eraseAccount _).chain = _
    rw [chain_eraseAccount, ← hchain, update_eq_self]
  · rename_i hrest
    have hleft : q.chain (getFeeSourceID tx) ≠ []
        ∨ feesOf (all.erase tx) (getFeeSourceID tx) ≠ 0 := by
      rw [← hown]
      refine Classical.not_and_iff_not_or_not.mp fun hnone => hrest ?_
      exact ⟨List.isEmpty_iff.mpr hnone.1, Int64.toInt_inj.mp hnone.2⟩
    refine ⟨_, rfl, ?_, chain_putAccount_same ?_, (shrunk_putAccount ?_).ages⟩
    · rw [← update_eq_self (getFeeSourceID tx) c]
      exact h.put hbids hothers hown (h.size _) (h.unsent _) (h.within _) hleft (h.age _)
    · rfl
    · exact le_rfl

omit [DecidableEq T] in
/-- The chain of an account is brought up to the counters. -/
theorem setChain {id : AccountID} (h : Accounts q (update q.chain id l) all) (as : AccountState T)
    (hfees : as.mTotalFees = (q.state id).mTotalFees)
    (hsize : as.mQueueSizeOps = (q.state id).mQueueSizeOps)
    (hunsent : as.mBroadcastQueueOps = (q.state id).mBroadcastQueueOps) (hl : as.mTransactions = l)
    (hleft : l ≠ [] ∨ as.mTotalFees ≠ 0) (hage : l = [] → as.mAge = 0) :
    (q.putAccount id as).chain = update q.chain id l
      ∧ Accounts (q.putAccount id as) (update q.chain id l) all := by
  have hown : as.mTotalFees.toInt = feesOf all id := by rw [hfees, h.fees]
  refine ⟨by rw [chain_putAccount, hl], ?_⟩
  · have hidem : update (update q.chain id l) id l
        = update q.chain id l := update_idem ..
    rw [← hidem]
    refine h.put h.bids (fun _ _ => rfl) hown ?_ ?_ ?_ ?_ (fun hnil => hage (hl ▸ hnil))
    · rw [hsize, h.size, update_self]
    · rw [hunsent, h.unsent, update_self]
    · rw [hl]
    · rw [hl, ← hown]
      exact hleft.imp_right fun hne heq => hne (Int64.toInt_inj.mp heq)

omit [DecidableEq T] in
/-- An account with nothing left is erased. -/
theorem eraseEmpty {id : AccountID} (h : Accounts q (update q.chain id []) all)
    (hzero : (q.state id).mTotalFees = 0) :
    (q.eraseAccount id).chain = update q.chain id []
      ∧ Accounts (q.eraseAccount id) (update q.chain id []) all := by
  refine ⟨chain_eraseAccount q id, ?_⟩
  · have hidem : update (update q.chain id []) id []
        = update q.chain id [] := update_idem ..
    rw [← hidem]
    refine h.erase h.bids (fun _ _ => rfl) ?_
    rw [← h.fees, hzero]
    rfl

end Accounts

/-! ## Dropping -/

variable {q : TransactionQueue T} {c : AccountID → List (TimestampedTx T)} {all s : Finset T}
  {post pre : List (TimestampedTx T)} {id : AccountID}

/-- One transaction is taken out of the counters; the chains stay. -/
theorem prepareDropTransaction_ok (h : Accounts q c all) (hlim : q.mTxQueueLimiter.Holds s)
    {x : TimestampedTx T} (hc : c id = pre ++ x :: post) (hall : x.mTx ∈ all)
    (hs : x.mTx ∈ s) :
    ∃ q', q.prepareDropTransaction id x = .ok q'
      ∧ Accounts q' (update c id (pre ++ post)) (all.erase x.mTx)
      ∧ q'.mTxQueueLimiter.Holds (s.erase x.mTx) ∧ Shrunk q q' ∧ q'.chain = q.chain := by
  have hchain : q.chain id ≠ [] := by
    intro hnil
    have := hnil ▸ h.within id
    rw [hc] at this
    simp at this
  have hthere : (q.mAccountStates id).isSome := (h.present id).mpr (.inl hchain)
  obtain ⟨mTxs, hremove, hsub, hholds⟩ := hlim.removeTransaction hs
  unfold prepareDropTransaction
  rw [accountState_ok hthere]
  rw [hremove]
  have hput : Accounts (q.putAccount id
      { q.state id with
        mQueueSizeOps := (q.state id).mQueueSizeOps - (getNumOperations x.mTx).toNat
        mBroadcastQueueOps := if x.mBroadcasted then (q.state id).mBroadcastQueueOps
          else (q.state id).mBroadcastQueueOps - (getNumOperations x.mTx).toNat })
      (update c id (pre ++ post)) all := by
    refine h.put h.bids (fun _ _ => rfl) (h.fees id) ?_ ?_ ?_ (.inl hchain) (h.age id)
    · show (q.state id).mQueueSizeOps - opsOf x.mTx = _
      rw [h.size, hc]
      simp only [opsIn_append, opsIn_cons]
      omega
    · show (if x.mBroadcasted then _ else (q.state id).mBroadcastQueueOps - opsOf x.mTx) = _
      rw [h.unsent, hc]
      simp only [unsentOps_append, unsentOps_cons]
      split
      · omega
      · omega
    · refine List.Sublist.trans ?_ (h.within id)
      rw [hc]
      exact (List.Sublist.refl pre).append (List.sublist_cons_self x post)
  have hremoved : Accounts (putAccount { q with mTxQueueLimiter := { q.mTxQueueLimiter with
      mTxs, mQueueSizeOps := q.mTxQueueLimiter.mQueueSizeOps - opsOf x.mTx } } id _)
      (update c id (pre ++ post)) all := hput.congr rfl
  obtain ⟨m, hrelease, hacc, hchains, hages⟩ := hremoved.releaseFee hall
  refine ⟨_, hrelease, hacc, hholds, ⟨⟨rfl, rfl⟩, hsub, fun j => (hages j).trans ?_⟩,
    hchains.trans (chain_putAccount_same ?_)⟩
  · exact (age_putAccount (by rfl) j).le
  · rfl

/-- A run of transactions is taken out of the counters. Each step drops one and
may ban it. -/
theorem prepareDrop_run
    {step : TransactionQueue T → TimestampedTx T → Except String (TransactionQueue T)}
    (hstep : ∀ q x q', q.prepareDropTransaction id x = .ok q' →
      ∃ mBannedTransactions, step q x = .ok { q' with mBannedTransactions }) :
    ∀ (mid : List (TimestampedTx T)) {q : TransactionQueue T}
      {c : AccountID → List (TimestampedTx T)} {all s : Finset T}, Accounts q c all →
      q.mTxQueueLimiter.Holds s → c id = pre ++ (mid ++ post) → (mid.map (·.mTx)).Nodup →
      (∀ x ∈ mid, x.mTx ∈ all ∧ x.mTx ∈ s) →
      ∃ q', mid.foldlM step q = .ok q'
        ∧ Accounts q' (update c id (pre ++ post)) (all \ txSet mid)
        ∧ q'.mTxQueueLimiter.Holds (s \ txSet mid) ∧ Shrunk q q'
        ∧ q'.chain = q.chain
  | [], q, c, all, s, h, hlim, hc, _, _ => by
    refine ⟨q, rfl, ?_, ?_, Shrunk.refl q, rfl⟩
    · rw [List.nil_append] at hc
      rw [← hc]
      simpa [txSet] using h
    · simpa [txSet] using hlim
  | x :: mid, q, c, all, s, h, hlim, hc, hnodup, hmem => by
    obtain ⟨hx, hnodup⟩ := List.nodup_cons.mp hnodup
    obtain ⟨hall, hs⟩ := hmem x List.mem_cons_self
    obtain ⟨q₁, hdrop, hacc, hholds, hshrunk, hchain⟩ := prepareDropTransaction_ok h hlim hc hall hs
    obtain ⟨banned, hone⟩ := hstep q x q₁ hdrop
    have hc₁ : update c id (pre ++ (mid ++ post)) id = pre ++ (mid ++ post) := update_self ..
    have hmem₁ : ∀ y ∈ mid, y.mTx ∈ all.erase x.mTx ∧ y.mTx ∈ s.erase x.mTx := by
      intro y hy
      have hne : y.mTx ≠ x.mTx := fun heq => hx (List.mem_map.mpr ⟨y, hy, heq⟩)
      obtain ⟨hyall, hys⟩ := hmem y (List.mem_cons_of_mem x hy)
      exact ⟨mem_erase.mpr ⟨hne, hyall⟩, mem_erase.mpr ⟨hne, hys⟩⟩
    have hacc₁ : Accounts { q₁ with mBannedTransactions := banned } _ _ := hacc.congr rfl
    obtain ⟨q₂, hrun, hacc₂, hholds₂, hshrunk₂, hchain₂⟩ :=
      prepareDrop_run hstep mid hacc₁ hholds hc₁ hnodup hmem₁
    have hshrunk₁ : Shrunk q { q₁ with mBannedTransactions := banned } :=
      ⟨⟨hshrunk.depth, hshrunk.limiter⟩, hshrunk.txs, hshrunk.ages⟩
    rw [update_idem] at hacc₂
    rw [sdiff_txSet_cons, sdiff_txSet_cons]
    refine ⟨q₂, ?_, hacc₂, hholds₂, hshrunk₁.trans hshrunk₂, hchain₂.trans hchain⟩
    rw [List.foldlM_cons, hone]
    exact hrun

/-- A part of an account's transactions is dropped: from the chain, the counters,
the fees and the limiter. -/
theorem dropTransactions_ok (h : Accounts q q.chain all) (hlim : q.mTxQueueLimiter.Holds s)
    {mid : List (TimestampedTx T)} (hchain : q.chain id = pre ++ (mid ++ post))
    (hne : q.chain id ≠ []) (hnodup : (mid.map (·.mTx)).Nodup)
    (hmem : ∀ x ∈ mid, x.mTx ∈ all ∧ x.mTx ∈ s) :
    ∃ q', q.dropTransactions id pre.length (pre.length + mid.length) = .ok q'
      ∧ q'.chain = update q.chain id (pre ++ post)
      ∧ Accounts q' q'.chain (all \ txSet mid)
      ∧ q'.mTxQueueLimiter.Holds (s \ txSet mid) ∧ Shrunk q q' := by
  have hthere : (q.mAccountStates id).isSome := (h.present id).mpr (.inl hne)
  obtain ⟨q₁, hrun, hacc, hholds, hshrunk, hchain₁⟩ :=
    prepareDrop_run (fun _ _ q' hq => ⟨q'.mBannedTransactions, hq⟩) mid h hlim hchain hnodup hmem
  have hthere₁ : (q₁.mAccountStates id).isSome :=
    (hacc.present id).mpr (.inl (by rw [hchain₁]; exact hne))
  have hextract : (pre ++ (mid ++ post)).extract pre.length (pre.length + mid.length) = mid := by
    simp
  have hkept : (pre ++ (mid ++ post)).take pre.length
      ++ (pre ++ (mid ++ post)).drop (pre.length + mid.length) = pre ++ post := by
    simp
  unfold dropTransactions
  rw [accountState_ok hthere]
  dsimp only [bind, Except.bind]
  have htxs : (q.state id).mTransactions = pre ++ (mid ++ post) := hchain
  rw [htxs, hextract, hkept, hrun]
  dsimp only
  rw [accountState_ok hthere₁]
  dsimp only [Except.pure]
  rw [← hchain₁] at hacc ⊢
  by_cases hnil : pre ++ post = []
  · rw [if_pos (List.isEmpty_iff.mpr hnil)]
    rw [hnil] at hacc ⊢
    split
    · rename_i hzero
      obtain ⟨hchain₂, hacc₂⟩ := hacc.eraseEmpty hzero
      exact ⟨_, rfl, hchain₂, hchain₂ ▸ hacc₂, hholds, hshrunk.trans (shrunk_eraseAccount q₁ id)⟩
    · rename_i hfees
      obtain ⟨hchain₂, hacc₂⟩ := hacc.setChain
        { q₁.state id with mTransactions := [], mAge := 0 } rfl rfl rfl rfl (.inr hfees)
        fun _ => rfl
      exact ⟨_, rfl, hchain₂, hchain₂ ▸ hacc₂, hholds,
        hshrunk.trans (shrunk_putAccount (Nat.zero_le _))⟩
  · rw [if_neg (mt List.isEmpty_iff.mp hnil)]
    obtain ⟨hchain₂, hacc₂⟩ := hacc.setChain
      { q₁.state id with mTransactions := pre ++ post } rfl rfl rfl rfl (.inl hnil)
      hnil.elim
    exact ⟨_, rfl, hchain₂, hchain₂ ▸ hacc₂, hholds, hshrunk.trans (shrunk_putAccount le_rfl)⟩

end TransactionQueue

end KinesisCore

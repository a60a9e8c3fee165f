import KinesisCore.QueueAdmission

/-!
# Runs of the transaction queue

A queue is created empty and then takes calls. Every call keeps it consistent,
so every reachable queue is; and a call on a consistent queue throws no
assertion of the queue or of the limiter.

The queue takes what validation tells it about a transaction, and pointers to
transactions that are told apart by their addresses. Both are stated here, as
`Checked` and in `Allowed`, and are discharged for `Frame`, the transactions
with their objects.
-/

namespace KinesisCore

open TransactionFrameBase QueueFrame MachineInt AddResult TransactionResultCode Except List

variable {T E : Type} [QueueFrame T] [DecidableEq T] [CheckValid T E]

namespace TransactionQueue

variable {q : TransactionQueue T} {all : Finset T}

/-! ## An accepted transaction -/

variable {post pre mid : List (TimestampedTx T)} {oldTx : Option (Nat × T)}
  {q' : TransactionQueue T} {pos : Position T} {env : Env E} {tx : T} (h : Consistent q all all)
include h

section

variable (hgap : Gap q tx pos pre mid post)
include hgap

/-- The transactions in a gap are those of the account. -/
theorem Gap.source : ∀ t ∈ txSet mid, getSourceID t = getSourceID tx := by
  intro t ht
  obtain ⟨x, hx, rfl⟩ := mem_txSet.mp ht
  exact (h.chains (getSourceID tx)).source x (by rw [hgap.chain]; simp [hx])

omit [DecidableEq T] in
/-- A transaction that has a place is not in the queue. -/
theorem Gap.not_mem : tx ∉ all := by
  intro hin
  obtain ⟨x, hx, hxtx⟩ := (h.mem tx).mp hin
  have hnodup := hgap.chained.nodup
  rw [map_append] at hnodup
  obtain ⟨-, hpost, hpre⟩ := nodup_append.mp hnodup
  rw [hgap.chain] at hx
  simp only [mem_append] at hx
  rcases hx with hx | hx | hx
  · exact hpre x.mTx (mem_map_of_mem hx) tx mem_cons_self hxtx
  · rcases hgap.replaced with ⟨rfl, -⟩ | ⟨y, rfl, hne, -⟩
    · cases hx
    · obtain rfl := mem_singleton.mp hx
      exact hne hxtx
  · exact (nodup_cons.mp hpost).1 (mem_map.mpr ⟨x, hx, hxtx⟩)

/-- The operations in the limiter with the new transaction in its place. -/
theorem Gap.opsWith : q.mTxQueueLimiter.opsWith tx (pos.oldTx.map Prod.snd)
      = ∑ t ∈ all \ txSet mid, opsOf t + opsOf tx := by
  unfold TxQueueLimiter.opsWith
  rw [h.limiter.size]
  rcases hgap.replaced with ⟨rfl, -, hold, -⟩ | ⟨x, rfl, -, hold, -⟩
  · rw [hold]
    rw [sdiff_txSet_nil]
    rfl
  · rw [hold]
    have hxall : x.mTx ∈ all :=
      h.mem_all (show x ∈ q.chain (getSourceID tx) by rw [hgap.chain]; simp)
    have hsum := Finset.add_sum_erase all (opsOf) hxall
    rw [sdiff_txSet_one]
    show _ - opsOf x.mTx + opsOf tx = _
    omega

end

/-- The state in which eviction begins for an accepted transaction. -/
structure Accepted (q : TransactionQueue T) (all : Finset T) (lcl : LastClosedLedger E) (tx : T)
    (oldTx : Option (Nat × T)) (q₁ : TransactionQueue T) (start : Finset T) (cheap : List T)
    (own : List (TimestampedTx T)) : Prop where
  admitted : Admitted q all start tx cheap
  evicting : Evicting q all lcl tx cheap own q₁ start
  cheaper : ∀ u ∈ cheap, feeRate u < feeRate tx
  payable : Payable tx
  new : tx ∉ all
  here : ∃ x ∈ own, x.mTx = tx
  ops : q.mTxQueueLimiter.opsWith tx (oldTx.map Prod.snd) = ∑ t ∈ start, opsOf t + opsOf tx
  replaced : ∀ t ∈ all, t ∉ start → ∃ old ∈ oldTx, old.2 = t

omit h in
omit [CheckValid T E] in
theorem sum_cheap_le {cheap : List T} {start : Finset T} (hnodup : cheap.Nodup)
    (hsub : ∀ u ∈ cheap, u ∈ start) :
    (cheap.map opsOf).sum ≤ ∑ t ∈ start with t ∈ cheap, opsOf t := by
  rw [← sum_toFinset opsOf hnodup]
  refine Finset.sum_le_sum_of_subset fun u hu => ?_
  rw [mem_toFinset] at hu
  exact Finset.mem_filter.mpr ⟨hsub u hu, hu⟩

variable (hminFee : 0 ≤ q.mTxQueueLimiter.mMinFeeNeeded.1.toInt)
include hminFee

/-- An accepted transaction is put into its place and counted, and enough cheaper
transactions of other accounts are there to make room. -/
theorem accepted (hvouched : ∀ current,
      CheckValid.checkValid tx env.lcl.ledger current 0 env.upperBoundCloseTimeOffset = .ok true →
        Vouched env.lcl.ledger tx current) (hbid : 0 < (getFeeBid tx).toInt)
    (hpending : q.canAdd env tx = .ok (ADD_STATUS_PENDING, oldTx, q')) :
    q' = q ∧ ∃ q₁ start cheap own, (q.enqueue tx oldTx >>= fun q => q.countIn tx) = .ok q₁
      ∧ Accepted q all env.lcl tx oldTx q₁ start cheap own := by
  obtain ⟨rfl, hpending⟩ := canAdd_pending hpending
  refine ⟨rfl, ?_⟩
  rcases hpending with hfound | ⟨pos, minFee, hfound, rfl, hroom, hpay⟩
  · exact absurd rfl ((findPosition_ok h tx).2 _ hfound)
  have htotal : 0 ≤ (q'.totalFees (getFeeSourceID tx)).toInt := by
    rw [totalFees_eq, h.accounts.fees]
    exact feesOf_nonneg h.accounts.bids _
  obtain ⟨hv, hfits⟩ := canPay_pending (hvouched pos.seqNum) hbid.le htotal hpay
  have hpayable : Payable tx := ⟨hbid.le, hv.operations⟩
  have hplaced : Placed q' tx pos := (findPosition_ok h tx).2 _ hfound
  obtain ⟨pre, mid, post, hgap⟩ := hplaced.gap h hv
  have hnew := hgap.not_mem h
  obtain ⟨q₁, hplace, hcons, hchain, hkept, htxs⟩ := h.place hgap hbid hnew hfits
  obtain ⟨cheap, hwalk, hcheap, hsum⟩ := TxQueueLimiter.canAddTx_true hroom
  have hstart : ∀ t ∈ all, getSourceID t ≠ getSourceID tx → t ∈ all \ txSet mid :=
    fun t ht hne => Finset.mem_sdiff.mpr ⟨ht, fun hin => hne (hgap.source h t hin)⟩
  have hcheapAll : ∀ u ∈ cheap, u ∈ all := fun u hu => (h.limiter.mem u).mp (hwalk.subset hu)
  have hlimit : q₁.mTxQueueLimiter.maxQueueSizeOps env.lcl
      = q'.mTxQueueLimiter.maxQueueSizeOps env.lcl := by
    rw [hkept.limiter]
    rfl
  refine ⟨q₁, all \ txSet mid, cheap, pre ++ ⟨tx, false⟩ :: post, hplace, ?_⟩
  exact
    { admitted := ⟨h, hstart, hwalk, fun u hu => (hcheap u hu).2⟩
      evicting :=
        { consistent := hcons
          fresh := fun hin => hnew (Finset.mem_sdiff.mp hin).1
          own := by rw [hchain, Function.update_self]
          chains := fun id hid => by
            rw [hchain, Function.update_of_ne hid]
          stuck := fun id hid _ => by rw [hchain, Function.update_of_ne hid]
          txs := htxs
          evicted := fun t ht hne => absurd (hstart t ht hne)
          limit := hlimit
          budget := by
            have hle := sum_cheap_le (h.limiter.sorted.nodup.sublist hwalk.sublist)
              fun u hu => hstart u (hcheapAll u hu) (hcheap u hu).2
            rw [hgap.opsWith h] at hsum
            rw [hcons.limiter.size]
            omega
          minFee := by
            rw [hkept.limiter]
            exact hminFee }
      cheaper := fun u hu => by
        have hlt := (hcheap u hu).1
        rw [feeRate3WayCompare_payable (h.limiter.payable u (hcheapAll u hu)) hpayable] at hlt
        exact compare_lt_iff_lt.mp (ok.inj hlt)
      payable := hpayable
      new := hnew
      here := ⟨⟨tx, false⟩, by simp, rfl⟩
      ops := hgap.opsWith h
      replaced := fun t ht hgone => by
        obtain ⟨x, hx, rfl⟩ := mem_txSet.mp (by simpa [ht] using hgone)
        rcases hgap.replaced with ⟨rfl, -⟩ | ⟨y, rfl, -, hold, -⟩
        · cases hx
        · obtain rfl := mem_singleton.mp hx
          exact ⟨_, hold, rfl⟩ }

/-! ## An add as a whole -/

/-- What is known of a transaction that is to be added: validation is as it should
be, and no other queued object has the same address. -/
structure Known (q : TransactionQueue T) (env : Env E) (tx : T) : Prop where
  vouched : ∀ current,
    CheckValid.checkValid tx env.lcl.ledger current 0 env.upperBoundCloseTimeOffset = .ok true →
      Vouched env.lcl.ledger tx current
  distinct : ∀ id, ∀ x ∈ q.chain id, address x.mTx = address tx → x.mTx = tx

/-- The conditions of an add: an admitted bid is positive besides. -/
structure Fair (q : TransactionQueue T) (env : Env E) (tx : T) : Prop extends Known q env tx where
  bid : ∀ oldTx q', q.canAdd env tx = .ok (ADD_STATUS_PENDING, oldTx, q') →
    0 < (getFeeBid tx).toInt

omit hminFee in
omit h in
omit [DecidableEq T] in
/-- The rest of an add, once the transaction has its place. -/
theorem tryAdd_eq {q₁ : TransactionQueue T}
    (hpending : q.canAdd env tx = .ok (ADD_STATUS_PENDING, oldTx, q'))
    (hplace : (q'.enqueue tx oldTx >>= fun q => q.countIn tx) = .ok q₁) (fuel : Nat) :
    q.tryAdd fuel env tx = (do match ← evictTransactions env.lcl (opsOf tx) fuel q₁ with
      | none => return none
      | some (false, _) => throw "Invalid queue state, could not evict transactions"
      | some (true, q) =>
        let mTxQueueLimiter ← q.mTxQueueLimiter.addTransaction env.lcl tx
        return some (ADD_STATUS_PENDING, { q with mTxQueueLimiter })) := by
  obtain ⟨qe, henqueue, hcount⟩ := bind_eq_ok.mp hplace
  unfold tryAdd
  rw [hpending]
  dsimp only [Bind.bind, Except.bind]
  rw [henqueue]
  dsimp only
  rw [hcount]
  rfl

/-- An accepted transaction: the add never throws, and when it returns the queue
is consistent and within its limit. -/
theorem tryAdd_accepted (hfair : Fair q env tx)
    (hpending : q.canAdd env tx = .ok (ADD_STATUS_PENDING, oldTx, q')) (fuel : Nat) :
    ∃ r, q.tryAdd fuel env tx = .ok r ∧ ∀ res q₂, r = some (res, q₂) →
      res = ADD_STATUS_PENDING ∧ (∃ all', Consistent q₂ all' all')
        ∧ 0 ≤ q₂.mTxQueueLimiter.mMinFeeNeeded.1.toInt
        ∧ q₂.mTxQueueLimiter.mQueueSizeOps ≤ q₂.mTxQueueLimiter.maxQueueSizeOps env.lcl := by
  obtain ⟨rfl, q₁, start, cheap, own, hplace, hacc⟩ :=
    accepted h hminFee hfair.vouched (hfair.bid _ _ hpending) hpending
  obtain ⟨r, hr, hfinal, -⟩ := evictTransactions_ok hacc.admitted fuel hacc.evicting subset_rfl
  rw [tryAdd_eq hpending hplace, hr]
  dsimp only [ok_bind]
  rcases r with _ | ⟨b, q₂⟩
  · exact ⟨none, rfl, by simp⟩
  · obtain ⟨rfl, s', hev, -, hroom⟩ := hfinal b q₂ rfl
    have haddr : ∀ t ∈ s', address t ≠ address tx := by
      intro t ht heq
      have hall := hev.subset hacc.admitted ht
      obtain ⟨x, hx, rfl⟩ := (h.mem t).mp hall
      exact hacc.new (hfair.distinct _ x hx heq ▸ hall)
    obtain ⟨mTxs, hadd, hholds⟩ :=
      hev.consistent.limiter.addTransaction hacc.payable hev.fresh haddr hroom
    dsimp only
    rw [hadd]
    refine ⟨_, rfl, ?_⟩
    rintro res q₃ ⟨⟩
    exact ⟨rfl, ⟨_, hev.consistent.congr rfl hholds rfl⟩, hev.minFee, hroom⟩

/-- An add throws only on a negative bid, and keeps the queue consistent. -/
theorem tryAdd_ok (hfair : Fair q env tx) (fuel : Nat) :
    (Checked env tx → Guarded tx (q.tryAdd fuel env tx))
      ∧ ∀ res q', q.tryAdd fuel env tx = .ok (some (res, q')) →
        (∃ all', Consistent q' all' all') ∧ 0 ≤ q'.mTxQueueLimiter.mMinFeeNeeded.1.toInt
          ∧ (res = ADD_STATUS_PENDING →
            q'.mTxQueueLimiter.mQueueSizeOps ≤ q'.mTxQueueLimiter.maxQueueSizeOps env.lcl)
          ∧ (res ≠ ADD_STATUS_PENDING → q' = q ∨ q.ban [tx] = .ok q') := by
  cases hcan : q.canAdd env tx with
  | error e =>
    have htry : q.tryAdd fuel env tx = .error e := by
      unfold tryAdd
      rw [hcan]
      rfl
    rw [htry]
    refine ⟨fun hcheck => ?_, nofun⟩
    rcases canAdd_guarded h hminFee hcheck with ⟨r, hr⟩ | ⟨hneg, he⟩
    · rw [hcan] at hr
      cases hr
    · rw [hcan] at he
      obtain rfl := error.inj he
      exact .inr ⟨hneg, rfl⟩
  | ok out =>
    obtain ⟨res, oldTx, q₁⟩ := out
    by_cases hres : res = ADD_STATUS_PENDING
    · subst hres
      obtain ⟨r, hr, hfinal⟩ := tryAdd_accepted h hminFee hfair hcan fuel
      rw [hr]
      refine ⟨fun _ => .ok _, fun res q' hq' => ?_⟩
      obtain ⟨rfl, hcons, hminFee', hsize⟩ := hfinal res q' (ok.inj hq')
      exact ⟨hcons, hminFee', fun _ => hsize, absurd rfl⟩
    · have htry : q.tryAdd fuel env tx = .ok (some (res, q₁)) := by
        unfold tryAdd
        rw [hcan]
        dsimp only [ok_bind]
        rw [if_pos hres]
        rfl
      rw [htry]
      refine ⟨fun _ => .ok _, ?_⟩
      rintro _ _ ⟨⟩
      rcases canAdd_refused hcan with rfl | ⟨hban, -⟩
      · exact ⟨⟨all, h⟩, hminFee, hres.elim, fun _ => .inl rfl⟩
      · obtain ⟨q₂, all', hban', -, hcons, hkept⟩ := Consistent.drops_ban [tx] q all h
        obtain rfl : q₂ = q₁ := ok.inj (hban'.symm.trans hban)
        refine ⟨⟨all', hcons⟩, ?_, hres.elim, fun _ => .inr hban⟩
        rw [hkept.limiter]
        exact hminFee

end TransactionQueue

/-! ## Transactions and their objects -/

section Frames

variable {E : Type}

/-- No account of the ledger has a negative sequence number. -/
def SeqNumsNonneg (ltx : LedgerTxn E) : Prop :=
  ∀ id acc, ltx.accounts id = some acc → 0 ≤ acc.seqNum.toInt

variable [HashFunction] [PubKeyUtils] [OperationFrame E] {ltx : LedgerTxn E}
  {current : SequenceNumber} {lo hi : UInt64}

/-- The fee source of a valid transaction that bids something is not below the
reserve. -/
theorem Tx.available_of_checkValid {tx : Tx} {r : TransactionResult}
    (h : tx.checkValid ltx current lo hi = .ok (true, r)) :
    ∃ acc avail, ltx.accounts (getFeeSourceID tx) = some acc
      ∧ getAvailableBalance ltx.header acc = .ok avail
      ∧ (0 ≤ (getFeeBid tx).toInt → 0 ≤ avail.toInt) := by
  cases tx with
  | plain tx =>
    obtain ⟨acc, avail, hacc, havail, hle⟩ := TransactionFrame.available_of_checkValid h
    exact ⟨acc, avail, hacc, havail, fun _ => by omega⟩
  | feeBump tx =>
    obtain ⟨⟨c, c', r', r'', hcv⟩, -⟩ := FeeBumpTransactionFrame.commonValid_of_checkValid h
    obtain ⟨-, -, acc, avail, hacc, havail, hpays⟩ :=
      FeeBumpTransactionFrame.commonValid_kFullyValid hcv
    refine ⟨acc, avail, hacc, havail, fun hbid => ?_⟩
    rw [Int64.lt_iff_toInt_lt] at hpays
    exact hbid.trans (not_lt.mp hpays)

theorem Frame.vouched (hseqs : SeqNumsNonneg ltx) {f : Frame}
    (h : CheckValid.checkValid f ltx current lo hi = .ok true) :
    TransactionQueue.Vouched ltx f current := by
  obtain ⟨⟨valid, r⟩, hcheck, hvalid⟩ := bind_eq_ok.mp h
  obtain rfl : valid = true := ok.inj hvalid
  have hadm := Tx.admitted_of_checkValid hcheck
  obtain ⟨acc, hacc, hmax, hnext⟩ := hadm.seq
  have hstep : (getSeqNum f).toInt = (if current = 0 then acc.seqNum else current).toInt + 1 := by
    show (getSeqNum f.tx).toInt = _
    rw [← hnext]
    exact toInt_succ hmax
  refine ⟨?_, fun hnonneg => ?_, fun hpos => ?_, Tx.available_of_checkValid hcheck⟩
  · exact Nat.one_le_iff_ne_zero.mpr fun hzero =>
      hadm.operations_ne (UInt32.toNat_inj.mp hzero)
  · have hacc' := hseqs _ acc hacc
    split at hstep
    · omega
    · omega
  · rw [if_neg (by rintro rfl; exact absurd hpos (by decide))] at hstep
    exact hstep

namespace TransactionQueue

/-! ## Runs -/

variable {q : TransactionQueue Frame}

/-- A new queue. -/
def create (pendingDepth banDepth poolLedgerMultiplier : UInt32)
    (filteredTypes : List OperationType)
    (seed broadcastSeed : UInt64) : TransactionQueue Frame where
  mPendingDepth := pendingDepth.toNat
  mAccountStates _ := none
  mBannedTransactions := List.replicate banDepth.toNat []
  mTxQueueLimiter := { mPoolLedgerMultiplier := poolLedgerMultiplier, mSeed := seed }
  mFilteredTypes := filteredTypes
  mBroadcastSeed := broadcastSeed

/-- The calls of the herder and of the timer. -/
inductive Call (E : Type) where
  | tryAdd (env : Env E) (tx : Frame)
  | ban (banTxs : List Frame)
  | removeApplied (appliedTxs : List Frame)
  | shift (order : List AccountID) (seed : UInt64)
  | rebroadcast
  | broadcastSome (order : List AccountID) (opsThisPeriod : Nat) (status : Frame → BroadcastStatus)
  | clearAll (seed : UInt64)

def Call.run (I : Stl.Impl) (fuel : Nat) (q : TransactionQueue Frame) :
    Call E → Except String (Option (TransactionQueue Frame))
  | .tryAdd env tx => do return (← q.tryAdd fuel env tx).map Prod.snd
  | .ban banTxs => do return some (← q.ban banTxs)
  | .removeApplied appliedTxs => do return some (← q.removeApplied appliedTxs)
  | .shift order seed => do return some (← q.shift order seed)
  | .rebroadcast => return some q.rebroadcast
  | .broadcastSome order opsThisPeriod status => q.broadcastSome I fuel order opsThisPeriod status
  | .clearAll seed => return some (q.clearAll seed)

/-- What is known of a call: the ledger has no negative sequence numbers, admitted
transactions bid something, two objects do not share an address, and a map is
traversed without meeting a key twice. -/
def Call.Allowed (q : TransactionQueue Frame) : Call E → Prop
  | .tryAdd env tx => SeqNumsNonneg env.lcl.ledger
      ∧ (∀ oldTx q', q.canAdd env tx = .ok (ADD_STATUS_PENDING, oldTx, q') →
        0 < (getFeeBid tx).toInt)
      ∧ ∀ id, ∀ x ∈ q.chain id, x.mTx.addr = tx.addr → x.mTx = tx
  | .broadcastSome order _ _ => order.Nodup
  | _ => True

/-- The queues that calls lead to, from a new one. -/
inductive Reachable (E : Type) [HashFunction] [PubKeyUtils] [OperationFrame E] (I : Stl.Impl) :
    TransactionQueue Frame → Prop where
  | create {pendingDepth banDepth poolLedgerMultiplier : UInt32}
      {filteredTypes : List OperationType} {seed broadcastSeed : UInt64}
      (hdepth : 0 < pendingDepth) :
      Reachable E I (create pendingDepth banDepth poolLedgerMultiplier filteredTypes seed
        broadcastSeed)
  | call {q q' : TransactionQueue Frame} {c : Call E} {fuel : Nat} (hq : Reachable E I q)
      (hallowed : c.Allowed q) (hrun : c.run I fuel q = .ok (some q')) : Reachable E I q'

variable {env : Env E} {tx : Frame} {I : Stl.Impl}

theorem Call.Allowed.fair (h : (Call.tryAdd env tx).Allowed q) : Fair q env tx :=
  ⟨⟨fun _ => Frame.vouched h.1, h.2.2⟩, h.2.1⟩

theorem Reachable.add {q' : TransactionQueue Frame} (hq : Reachable E I q)
    (hallowed : (Call.tryAdd env tx).Allowed q) {fuel : Nat} {res : AddResult}
    (h : q.tryAdd fuel env tx = .ok (some (res, q'))) : Reachable E I q' := by
  have hrun : (Call.tryAdd env tx).run I fuel q = .ok (some q') := by
    dsimp only [Call.run]
    rw [h]
    rfl
  exact .call hq hallowed hrun

/-- What holds between two calls. -/
def Sane (q : TransactionQueue Frame) : Prop :=
  ∃ all, Consistent q all all ∧ 0 ≤ q.mTxQueueLimiter.mMinFeeNeeded.1.toInt

omit [PubKeyUtils] in
/-- A call that only drops transactions. -/
theorem Sane.of_drops (h : Sane q)
    {call : TransactionQueue Frame → Except String (TransactionQueue Frame)}
    (hdrops : Consistent.Drops call) :
    ∃ q', call q = .ok q' ∧ Sane q' := by
  obtain ⟨all, hcons, hminFee⟩ := h
  obtain ⟨q', all', hcall, -, hcons', hkept⟩ := hdrops q all hcons
  refine ⟨q', hcall, all', hcons', ?_⟩
  rw [hkept.limiter]
  exact hminFee

/-- Every call but an add returns, and gives a sane queue. -/
theorem Call.run_ok (h : Sane q) (I : Stl.Impl) (c : Call E) (hallowed : c.Allowed q)
    (hother : ∀ env tx, c ≠ .tryAdd env tx) :
    ∃ bound, ∀ fuel, ∃ r, c.run I fuel q = .ok r ∧ (∀ q' ∈ r, Sane q')
      ∧ (bound ≤ fuel → r.isSome) := by
  have hdropping : ∀ {call : TransactionQueue Frame → Except String (TransactionQueue Frame)},
      Consistent.Drops call → (∀ fuel, c.run I fuel q = do return some (← call q)) →
      ∃ bound, ∀ fuel, ∃ r, c.run I fuel q = .ok r ∧ (∀ q' ∈ r, Sane q')
        ∧ (bound ≤ fuel → r.isSome) := by
    intro call hdrops hrun
    obtain ⟨q', hcall, hsane⟩ := h.of_drops hdrops
    refine ⟨0, fun fuel => ⟨some q', ?_, ?_, fun _ => rfl⟩⟩
    · rw [hrun, hcall]
      rfl
    · rintro _ ⟨⟩
      exact hsane
  cases c with
  | tryAdd env tx => exact absurd rfl (hother env tx)
  | ban banTxs => exact hdropping (Consistent.drops_ban banTxs) fun _ => rfl
  | removeApplied appliedTxs =>
    exact hdropping (Consistent.drops_removeApplied appliedTxs) fun _ => rfl
  | shift order seed =>
    obtain ⟨all, hcons, -⟩ := h
    obtain ⟨q', all', hshift, -, hcons', hminFee⟩ := hcons.shift order seed
    refine ⟨0, fun fuel => ⟨some q', ?_, ?_, fun _ => rfl⟩⟩
    · dsimp only [Call.run]
      rw [hshift]
      rfl
    · rintro _ ⟨⟩
      exact ⟨all', hcons', by rw [hminFee]; decide⟩
  | rebroadcast =>
    obtain ⟨all, hcons, hminFee⟩ := h
    refine ⟨0, fun fuel => ⟨_, rfl, ?_, fun _ => rfl⟩⟩
    rintro _ ⟨⟩
    exact ⟨all, hcons.rebroadcast, hminFee⟩
  | broadcastSome order opsThisPeriod status =>
    obtain ⟨all, hcons, hminFee⟩ := h
    obtain ⟨bound, hbound⟩ := hcons.broadcastSome I hallowed opsThisPeriod status
    refine ⟨bound, fun fuel => ?_⟩
    obtain ⟨r, hrun, hr, hsome⟩ := hbound fuel
    refine ⟨r, hrun, fun q' hq' => ?_, hsome⟩
    obtain ⟨all', hcons', hkept⟩ := hr q' hq'
    refine ⟨all', hcons', ?_⟩
    rw [hkept.limiter]
    exact hminFee
  | clearAll seed =>
    obtain ⟨all, hcons, -⟩ := h
    refine ⟨0, fun fuel => ⟨_, rfl, ?_, fun _ => rfl⟩⟩
    rintro _ ⟨⟩
    exact ⟨∅, hcons.clearAll seed, by show 0 ≤ (0 : Int64).toInt; decide⟩

/-- Every reachable queue is sane: it is when new, and every call keeps it so. -/
theorem Reachable.sane (h : Reachable E I q) : Sane q := by
  induction h with
  | create hdepth =>
    refine ⟨∅, Consistent.empty (fun _ => rfl) ?_ ?_, by show 0 ≤ (0 : Int64).toInt; decide⟩
    · exact ⟨by simp, List.Pairwise.nil, by simp [TransactionQueue.create], rfl⟩
    · exact UInt32.lt_iff_toNat_lt.mp hdepth
  | @call q q' c fuel hq hallowed hrun ih =>
    by_cases hadd : ∃ env tx, c = .tryAdd env tx
    · obtain ⟨env, tx, rfl⟩ := hadd
      obtain ⟨all, hcons, hminFee⟩ := ih
      obtain ⟨r, htry, hr⟩ := bind_eq_ok.mp hrun
      obtain ⟨⟨res, q₁⟩, rfl, rfl⟩ := Option.map_eq_some_iff.mp (ok.inj hr)
      obtain ⟨⟨all', hcons'⟩, hminFee', -⟩ :=
        (tryAdd_ok hcons hminFee hallowed.fair fuel).2 res q₁ htry
      exact ⟨all', hcons', hminFee'⟩
    · obtain ⟨bound, hbound⟩ := Call.run_ok ih I c hallowed fun env tx heq => hadd ⟨env, tx, heq⟩
      obtain ⟨r, hr, hsane, -⟩ := hbound fuel
      obtain rfl : some q' = r := ok.inj (hrun.symm.trans hr)
      exact hsane q' rfl

/-- The five views of the queue agree. -/
structure Invariant (q : TransactionQueue Frame) : Prop where
  /-- The transactions of an account are in sequence. -/
  ascending : ∀ id, (q.chain id).IsChain fun x y => seqOf y = seqOf x + 1
  totalFees : ∀ id, (q.state id).mTotalFees.toInt
    = ((q.mTxQueueLimiter.mTxs.filter (getFeeSourceID · = id)).map fun t => (getFeeBid t).toInt).sum
  queueSizeOps : ∀ id, (q.state id).mQueueSizeOps = ((q.chain id).map fun x => opsOf x.mTx).sum
  broadcastQueueOps : ∀ id, (q.state id).mBroadcastQueueOps
    = (((q.chain id).filter fun x => !x.mBroadcasted).map fun x => opsOf x.mTx).sum
  /-- The limiter has the queued transactions, each of them once. -/
  limiter : ∀ t, t ∈ q.mTxQueueLimiter.mTxs ↔ ∃ id, ∃ x ∈ q.chain id, x.mTx = t
  nodup : q.mTxQueueLimiter.mTxs.Nodup
  limiterSize : q.mTxQueueLimiter.mQueueSizeOps = (q.mTxQueueLimiter.mTxs.map opsOf).sum
  present : ∀ id, (q.mAccountStates id).isSome ↔ q.chain id ≠ [] ∨ (q.state id).mTotalFees ≠ 0
  age : ∀ id as, q.mAccountStates id = some as → as.mAge < q.mPendingDepth

omit [PubKeyUtils] in
theorem Consistent.invariant {all : Finset Frame} (h : Consistent q all all) : Invariant q where
  ascending id := (h.chains id).ascending
  totalFees id := by
    rw [h.accounts.fees, feesOf, ← sum_toFinset _ (h.limiter.sorted.nodup.filter _),
      toFinset_filter, h.limiter.toFinset]
    simp
  queueSizeOps := h.accounts.size
  broadcastQueueOps := h.accounts.unsent
  limiter t := by
    rw [h.limiter.mem, h.mem]
    constructor
    · rintro ⟨x, hx, heq⟩
      exact ⟨_, x, hx, heq⟩
    · rintro ⟨id, x, hx, rfl⟩
      exact ⟨x, by rw [(h.chains id).source x hx]; exact hx, rfl⟩
  nodup := h.limiter.sorted.nodup
  limiterSize := by
    rw [h.limiter.size, ← sum_toFinset _ h.limiter.sorted.nodup, h.limiter.toFinset]
  present id := by
    rw [h.accounts.present, ← h.accounts.fees]
    refine or_congr_right (not_congr ⟨fun hzero => Int64.toInt_inj.mp hzero, fun hzero => ?_⟩)
    rw [hzero]
    rfl
  age id as has := by
    have hage := h.ages id
    rw [state_of_some has] at hage
    exact hage

/-- In every reachable queue the views agree. No call on it fails an assertion of
the queue or of the limiter: every call but an add returns, and an add whose
validation returns can only fail the assertion on a negative bid. A successful add
leaves the limiter within its limit. -/
theorem reachable_invariant {I : Stl.Impl} {q : TransactionQueue Frame} (h : Reachable E I q) :
    Invariant q
      ∧ (∀ c : Call E, c.Allowed q → (∀ env tx, c ≠ .tryAdd env tx) →
        ∃ bound, ∀ fuel, ∃ r, c.run I fuel q = .ok r ∧ (bound ≤ fuel → r.isSome))
      ∧ (∀ (env : Env E) (tx : Frame), (Call.tryAdd env tx).Allowed q → ∀ fuel,
        ((∀ current, ∃ valid, CheckValid.checkValid tx env.lcl.ledger current 0
            env.upperBoundCloseTimeOffset = .ok valid) → Guarded tx (q.tryAdd fuel env tx))
        ∧ ∀ q', q.tryAdd fuel env tx = .ok (some (ADD_STATUS_PENDING, q')) →
          q'.mTxQueueLimiter.mQueueSizeOps ≤ q'.mTxQueueLimiter.maxQueueSizeOps env.lcl) := by
  obtain ⟨all, hcons, hminFee⟩ := h.sane
  refine ⟨hcons.invariant, fun c hallowed hother => ?_, fun env tx hallowed fuel => ?_⟩
  · obtain ⟨bound, hbound⟩ := Call.run_ok ⟨all, hcons, hminFee⟩ I c hallowed hother
    refine ⟨bound, fun fuel => ?_⟩
    obtain ⟨r, hr, -, hsome⟩ := hbound fuel
    exact ⟨r, hr, hsome⟩
  · obtain ⟨hguarded, hkeeps⟩ := tryAdd_ok hcons hminFee hallowed.fair fuel
    exact ⟨fun hreturns => hguarded ⟨hreturns, hallowed.fair.vouched⟩,
      fun q' hq' => (hkeeps _ q' hq').2.2.1 rfl⟩

end TransactionQueue

end Frames

namespace TransactionQueue

/-- A ledger with room for two operations in the queue. Account 1 has one sequence
number left, account 2 has many. -/
def twoAccounts : Env Unit where
  lcl :=
    { hash := 5
      ledger := { oneAccount with
        header := { oneAccount.header with maxTxSetSize := 1 }
        accounts := fun id =>
          if id = 1 then some { balance := 20000000000, seqNum := 9223372036854775806 }
          else if id = 2 then some { balance := 20000000000, seqNum := 7 }
          else none } }
  upperBoundCloseTimeOffset := 0

theorem twoAccounts_seqNumsNonneg : SeqNumsNonneg twoAccounts.lcl.ledger := by
  intro id acc hacc
  replace hacc : (if id = 1 then some _ else if id = 2 then some _ else none) = some acc := hacc
  split at hacc
  · cases hacc
    decide
  · split at hacc
    · cases hacc
      decide
    · cases hacc

/-- Some payments of an account, as one transaction. -/
def paymentsOf (addr : UInt64) (source : AccountID) (seqNum : SequenceNumber) (fee : UInt64)
    (n : Fin 101) : Frame :=
  ⟨addr, .plain { sourceAccount := source, fee, seqNum,
                  operations := List.replicate n { body := .payment 9 true 1000 },
                  signatures := [{ hint := source.setWidth 32, signature := [] }]
                  operations_le := by simp [MAX_OPS_PER_TX]; omega }⟩

/-- The queue as the herder creates it. -/
def newQueue : TransactionQueue Frame := create 4 10 2 [] 0 0

/-- The queue after an add, or the given one if the add did not return. -/
def after (r : Except String (Option (AddResult × TransactionQueue Frame)))
    (q : TransactionQueue Frame) : TransactionQueue Frame :=
  match r with
  | .ok (some (_, q')) => q'
  | _ => q

theorem eq_after {r : Except String (Option (AddResult × TransactionQueue Frame))} {res : AddResult}
    (h : r.map (Option.map Prod.fst) = .ok (some res)) (q : TransactionQueue Frame) :
    r = .ok (some (res, after r q)) := by
  rcases r with e | _ | ⟨res', q'⟩
  · cases h
  · cases h
  · cases h
    rfl

open Evaluation

/-- A reachable queue after an add of an object of its own. -/
theorem Reachable.allowed {I : Stl.Impl} {q : TransactionQueue Frame} {env : Env Unit}
    {tx : Frame} :
    Reachable Unit I q → SeqNumsNonneg env.lcl.ledger → 0 < (getFeeBid tx).toInt →
    tx.addr ∉ q.mTxQueueLimiter.mTxs.map Frame.addr → (Call.tryAdd env tx).Allowed q := by
  intro hreach hseqs hbid hfresh
  refine ⟨hseqs, fun _ _ _ => hbid, fun id x hx haddr => absurd ?_ hfresh⟩
  obtain ⟨all, hcons, -⟩ := hreach.sane
  exact mem_map.mpr ⟨x.mTx, (hcons.limiter.mem _).mpr (hcons.mem_all hx), haddr⟩

theorem Reachable.after {I : Stl.Impl} {q : TransactionQueue Frame} {env : Env Unit} {tx : Frame} :
    Reachable Unit I q → SeqNumsNonneg env.lcl.ledger → 0 < (getFeeBid tx).toInt →
    tx.addr ∉ q.mTxQueueLimiter.mTxs.map Frame.addr → ∀ {fuel res},
    (q.tryAdd fuel env tx).map (Option.map Prod.fst) = .ok (some res) →
    Reachable Unit I (after (q.tryAdd fuel env tx) q) :=
  fun hreach hseqs hbid hfresh _ _ hres =>
    hreach.add (hreach.allowed hseqs hbid hfresh) (eq_after hres q)

theorem newQueue_reachable : Reachable Unit Stl.insertion newQueue := .create (by decide)

/-- The new queue after an add. -/
def filledBy (tx : Frame) : TransactionQueue Frame :=
  after (newQueue.tryAdd 0 twoAccounts tx) newQueue

theorem filledBy_reachable {tx : Frame} :
    0 < (getFeeBid tx).toInt →
    (newQueue.tryAdd 0 twoAccounts tx).map (Option.map Prod.fst) = .ok (some ADD_STATUS_PENDING) →
    Reachable Unit Stl.insertion (filledBy tx) :=
  fun hbid => newQueue_reachable.after twoAccounts_seqNumsNonneg hbid nofun

/-- The last transaction that account 1 can have, of two payments. -/
def lastOfOne : Frame := paymentsOf 1 1 9223372036854775807 400 2

/-- A payment of account 2 that bids more. -/
def dearOfTwo : Frame := paymentsOf 2 2 8 5000 1

theorem filledBy_lastOfOne_reachable :
    Reachable Unit Stl.insertion (filledBy lastOfOne) :=
  filledBy_reachable (by decide +kernel) (by decide +kernel)

/-! A third account, and room for four operations. Account 3 queues a payment and
account 2 two of them. Account 1 pays for a fee bump that replaces those of
account 2, and then a dear payment of account 2 evicts that of account 3. -/

def threeAccounts : Env Unit :=
  { twoAccounts with
    lcl.ledger.header.maxTxSetSize := 2
    lcl.ledger.accounts := Function.update twoAccounts.lcl.ledger.accounts 3
      (some { balance := 20000000000, seqNum := 7 }) }

theorem threeAccounts_seqNumsNonneg : SeqNumsNonneg threeAccounts.lcl.ledger := by
  intro id acc hacc
  by_cases hid : id = 3
  · rw [hid] at hacc
    cases hacc
    decide
  · exact twoAccounts_seqNumsNonneg id acc ((Function.update_of_ne hid ..).symm.trans hacc)

def bumpOfTwo : Frame :=
  ⟨3, .feeBump { feeSource := 1, fee := 6000,
                 innerTx := { sourceAccount := 2, fee := 400, seqNum := 8,
                              operations := List.replicate 2 { body := .payment 9 true 1000 },
                              signatures := [{ hint := 2, signature := [] }] },
                 signatures := [{ hint := 1, signature := [] }] }⟩

def nextOfTwo : Frame := paymentsOf 4 2 9 5000 1

/-- The queue after adds on these accounts. -/
def afterAdds : List Frame → TransactionQueue Frame
  | [] => newQueue
  | tx :: txs => after ((afterAdds txs).tryAdd 1 threeAccounts tx) (afterAdds txs)

theorem afterAdds_reachable (tx : Frame) {txs : List Frame} :
    Reachable Unit Stl.insertion (afterAdds txs) → 0 < (getFeeBid tx).toInt →
    tx.addr ∉ (afterAdds txs).mTxQueueLimiter.mTxs.map Frame.addr →
    ((afterAdds txs).tryAdd 1 threeAccounts tx).map (Option.map Prod.fst)
      = .ok (some ADD_STATUS_PENDING) →
    Reachable Unit Stl.insertion (afterAdds (tx :: txs)) :=
  fun hreach hbid hfresh => hreach.after threeAccounts_seqNumsNonneg hbid hfresh

def busyQueue : TransactionQueue Frame :=
  afterAdds [nextOfTwo, bumpOfTwo, paymentsOf 2 2 8 400 2, paymentsOf 1 3 8 300 1]

theorem busyQueue_reachable : Reachable Unit Stl.insertion busyQueue := by
  have hthree : Reachable Unit Stl.insertion (afterAdds [paymentsOf 1 3 8 300 1]) :=
    afterAdds_reachable _ newQueue_reachable (by decide +kernel) nofun (by decide +kernel)
  have htwo := afterAdds_reachable (paymentsOf 2 2 8 400 2) hthree (by decide +kernel)
    (by decide +kernel) (by decide +kernel)
  have hbump := afterAdds_reachable bumpOfTwo htwo (by decide +kernel)
    (by decide +kernel) (by decide +kernel)
  exact afterAdds_reachable _ hbump (by decide +kernel) (by decide +kernel) (by decide +kernel)

/-- The fee bump and the dear payment are left, and the views agree. -/
theorem reachable_invariant_busyQueue :
    busyQueue.mTxQueueLimiter.mTxs = [bumpOfTwo, nextOfTwo] ∧ Invariant busyQueue :=
  ⟨by decide +kernel, (reachable_invariant busyQueue_reachable).1⟩

end TransactionQueue

end KinesisCore

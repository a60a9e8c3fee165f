import KinesisCore.FeeBumpTotal
import KinesisCore.QueueRuns

/-!
# Submitting transactions

Two questions about an add on a reachable queue. Does eviction make room, at the
expense of cheaper transactions only? And does an add return whatever the
transaction is?

Eviction makes room exactly if enough operations are `withinReach`: it gets stuck
at the first transaction of a saturated chain. An add throws exactly if a
negative bid is compared: with the minimum fee, with the cheapest transactions,
or where the limiter inserts the newcomer.
-/

namespace KinesisCore

open TransactionFrameBase QueueFrame MachineInt AddResult TransactionResultCode Except
  TxQueueLimiter

namespace TransactionQueue

section

variable {T E : Type} [QueueFrame T]

/-! ## Room -/

/-- The operations that eviction can reach: those of the cheapest transactions, up
to the first one of a saturated chain, and of what follows them. -/
def withinReach (q : TransactionQueue T) : Nat :=
  ((q.mTxQueueLimiter.mTxs.filter fun t => ∃ u ∈ q.openTxs, Follows u t).map opsOf).sum

/-- There is room for `tx` in the place of `oldTx`, or there can be. -/
def RoomWithinReach (q : TransactionQueue T) (lcl : LastClosedLedger E) (tx : T)
    (oldTx : Option T) : Prop :=
  q.mTxQueueLimiter.opsWith tx oldTx ≤ q.mTxQueueLimiter.maxQueueSizeOps lcl + q.withinReach

instance (q : TransactionQueue T) (lcl : LastClosedLedger E) (tx : T) (oldTx : Option T) :
    Decidable (RoomWithinReach q lcl tx oldTx) := inferInstanceAs (Decidable (_ ≤ _))

/-- Eviction from `q₁` to `q₂` has made room for `tx`, which stays in the queue with
all of its account. What is gone is cheaper, or follows something cheaper. -/
structure MakesRoom (q₁ q₂ : TransactionQueue T) (lcl : LastClosedLedger E) (tx : T) : Prop where
  room : q₂.mTxQueueLimiter.mQueueSizeOps + opsOf tx ≤ q₂.mTxQueueLimiter.maxQueueSizeOps lcl
  newcomer : ∃ x ∈ q₂.chain (getSourceID tx), x.mTx = tx
  account : q₂.chain (getSourceID tx) = q₁.chain (getSourceID tx)
  evicted : ∀ t ∈ q₁.mTxQueueLimiter.mTxs, t ∉ q₂.mTxQueueLimiter.mTxs →
    ∃ u ∈ q₁.mTxQueueLimiter.mTxs, feeRate u < feeRate tx ∧ Follows u t

variable [DecidableEq T]

theorem withinReach_eq {q : TransactionQueue T} {all : Finset T} (h : Consistent q all all) :
    q.withinReach = ∑ t ∈ q.evictable all, opsOf t := by
  unfold withinReach evictable
  rw [← List.sum_toFinset _ (h.limiter.sorted.nodup.filter _), List.toFinset_filter,
    h.limiter.toFinset]
  simp

variable {q q₁ : TransactionQueue T} {all start : Finset T} {lcl : LastClosedLedger E} {tx : T}
  {oldTx : Option (Nat × T)} {cheap : List T} {own : List (TimestampedTx T)}

section Accepted

variable (h : Accepted q all lcl tx oldTx q₁ start cheap own)
include h

theorem Accepted.reaches_iff :
    Reaches q all start lcl tx ↔ RoomWithinReach q lcl tx (oldTx.map Prod.snd) := by
  unfold Reaches RoomWithinReach
  rw [h.ops, withinReach_eq h.admitted.consistent]

/-- What eviction leaves when it returns. -/
theorem Accepted.makesRoom {q₂ : TransactionQueue T} {s' : Finset T}
    (hev : Evicting q all lcl tx cheap own q₂ s')
    (hroom : q₂.mTxQueueLimiter.mQueueSizeOps + opsOf tx
      ≤ q₂.mTxQueueLimiter.maxQueueSizeOps lcl) :
    MakesRoom q₁ q₂ lcl tx where
  room := hroom
  newcomer := by
    rw [hev.own]
    exact h.here
  account := by rw [hev.own, h.evicting.own]
  evicted t ht hgone := by
    rw [h.evicting.mem_txs] at ht
    rw [hev.mem_txs] at hgone
    have hall := h.evicting.subset h.admitted ht
    obtain ⟨u, -, hu, hfollows⟩ := hev.evicted t hall (h.evicting.source_ne hev ht hgone) hgone
    refine ⟨u, (h.evicting.mem_txs u).mpr ?_, h.cheaper u hu, hfollows⟩
    exact h.admitted.start u ((h.admitted.consistent.limiter.mem u).mp (h.admitted.walk.subset hu))
      (h.admitted.others u hu)

/-- Eviction makes room for an accepted transaction exactly if enough is within
reach. -/
theorem Accepted.makesRoom_iff :
    (∃ fuel q₂, evictTransactions lcl (getNumOperations tx).toNat fuel q₁ = .ok (some (true, q₂))
        ∧ MakesRoom q₁ q₂ lcl tx)
      ↔ RoomWithinReach q lcl tx (oldTx.map Prod.snd) := by
  rw [← h.reaches_iff, ← evictTransactions_returns_iff h.admitted h.evicting]
  constructor
  · rintro ⟨fuel, q₂, hr, -⟩
    exact ⟨fuel, (true, q₂), hr⟩
  · rintro ⟨fuel, ⟨b, q₂⟩, hr⟩
    obtain ⟨r, hr', hfinal, -⟩ := evictTransactions_ok h.admitted fuel h.evicting subset_rfl
    obtain rfl : some (b, q₂) = r := ok.inj (hr.symm.trans hr')
    obtain ⟨rfl, s', hev, -, hroom⟩ := hfinal b q₂ rfl
    exact ⟨fuel, q₂, hr, h.makesRoom hev hroom⟩

end Accepted

variable [CheckValid T E]

/-- An accepted transaction is added exactly if enough is within reach; otherwise the
add never ends. -/
theorem tryAdd_returns_iff (h : Consistent q all all)
    (hminFee : 0 ≤ q.mTxQueueLimiter.mMinFeeNeeded.1.toInt) {env : Env E} (hfair : Fair q env tx)
    {q' : TransactionQueue T} (hpending : q.canAdd env tx = .ok (ADD_STATUS_PENDING, oldTx, q')) :
    (∃ fuel r, q.tryAdd fuel env tx = .ok (some r))
      ↔ RoomWithinReach q env.lcl tx (oldTx.map Prod.snd) := by
  obtain ⟨rfl, q₁, start, cheap, own, hplace, hacc⟩ :=
    accepted h hminFee hfair.vouched (hfair.bid _ _ hpending) hpending
  rw [← hacc.reaches_iff, ← evictTransactions_returns_iff hacc.admitted hacc.evicting]
  constructor
  · rintro ⟨fuel, r, hr⟩
    rw [tryAdd_eq hpending hplace] at hr
    obtain ⟨out, hevict, hr⟩ := bind_eq_ok.mp hr
    cases out with
    | none => cases hr
    | some out => exact ⟨fuel, out, hevict⟩
  · rintro ⟨fuel, out, hevict⟩
    obtain ⟨r, hr, -⟩ := tryAdd_accepted h hminFee hfair hpending fuel
    cases r with
    | none =>
      rw [tryAdd_eq hpending hplace] at hr
      obtain ⟨out', hevict', hr⟩ := bind_eq_ok.mp hr
      obtain rfl : some out = out' := ok.inj (hevict.symm.trans hevict')
      obtain ⟨_ | _, q₂⟩ := out
      · cases hr
      · obtain ⟨lim, -, hr⟩ := bind_eq_ok.mp hr
        cases hr
    | some r => exact ⟨fuel, r, hr⟩

end

/-! ## Negative bids -/

section

variable {T E : Type} [QueueFrame T]

variable {q : TransactionQueue T} {all : Finset T} {tx : T}

variable [DecidableEq T] [CheckValid T E]

end

section

variable {E : Type} [HashFunction] [PubKeyUtils] [OperationFrame E]

/-- For every accepted transaction, the loop that `tryAdd` runs makes room without
touching the newcomer or its account, and at the expense of cheaper transactions
and their followers only, exactly if enough is within reach. -/
theorem eviction_makesRoom_iff {I : Stl.Impl} {q : TransactionQueue Frame} (h : Reachable E I q)
    {env : Env E} {tx : Frame} (hallowed : (Call.tryAdd env tx).Allowed q)
    {oldTx : Option (Nat × Frame)} {q' : TransactionQueue Frame}
    (hpending : q.canAdd env tx = .ok (ADD_STATUS_PENDING, oldTx, q')) :
    ∃ q₁, (q'.enqueue tx oldTx >>= fun q => q.countIn tx) = .ok q₁
      ∧ ((∃ fuel q₂, evictTransactions env.lcl (getNumOperations tx).toNat fuel q₁
            = .ok (some (true, q₂)) ∧ MakesRoom q₁ q₂ env.lcl tx)
          ↔ RoomWithinReach q env.lcl tx (oldTx.map Prod.snd)) := by
  obtain ⟨all, hcons, hminFee⟩ := h.sane
  obtain ⟨rfl, q₁, start, cheap, own, hplace, hacc⟩ := accepted hcons hminFee
    hallowed.fair.vouched (hallowed.fair.bid _ _ hpending) hpending
  exact ⟨q₁, hplace, hacc.makesRoom_iff⟩

end

open Evaluation

/-- The queue is full with a transaction of the largest sequence number. Another one
that bids more is accepted, but the loop that is to make room for it never ends. -/
theorem saturated_chain_stalls :
    Reachable Unit Stl.insertion (filledBy lastOfOne)
      ∧ ((filledBy lastOfOne).canAdd twoAccounts dearOfTwo).map Prod.fst = .ok ADD_STATUS_PENDING
      ∧ ∀ fuel, ((filledBy lastOfOne).tryAdd fuel twoAccounts dearOfTwo).map (Option.map Prod.fst)
        = .ok none := by
  have hreach := filledBy_lastOfOne_reachable
  have hcan : ((filledBy lastOfOne).canAdd twoAccounts dearOfTwo).map (fun r => (r.1, r.2.1))
      = .ok (ADD_STATUS_PENDING, none) := by decide +kernel
  obtain ⟨⟨res, oldTx, q'⟩, hpending, hout⟩ := map_eq_ok.mp hcan
  cases hout
  have hallowed : (Call.tryAdd twoAccounts dearOfTwo).Allowed (filledBy lastOfOne) :=
    hreach.allowed twoAccounts_seqNumsNonneg (by decide +kernel) (by decide +kernel)
  refine ⟨hreach, by rw [hpending]; rfl, fun fuel => ?_⟩
  obtain ⟨all, hcons, hminFee⟩ := hreach.sane
  obtain ⟨r, hr, -⟩ := tryAdd_accepted hcons hminFee hallowed.fair hpending fuel
  cases r with
  | none =>
    rw [hr]
    rfl
  | some r =>
    have hroom := (tryAdd_returns_iff hcons hminFee hallowed.fair hpending).mp ⟨fuel, r, hr⟩
    exact absurd hroom (by decide +kernel)

theorem filledByTwo_reachable :
    Reachable Unit Stl.insertion (filledBy (paymentsOf 1 2 8 400 2)) :=
  filledBy_reachable (by decide +kernel) (by decide +kernel)

theorem filledByTwo_allowed :
    (Call.tryAdd twoAccounts (paymentsOf 2 1 9223372036854775807 5000 1)).Allowed
      (filledBy (paymentsOf 1 2 8 400 2)) :=
  filledByTwo_reachable.allowed twoAccounts_seqNumsNonneg (by decide +kernel) (by decide +kernel)

/-- The other way round the first transaction goes. -/
theorem eviction_makesRoom_iff_open :
    ∃ q₁ fuel q₂, evictTransactions twoAccounts.lcl 1 fuel q₁ = .ok (some (true, q₂))
      ∧ MakesRoom q₁ q₂ twoAccounts.lcl (paymentsOf 2 1 9223372036854775807 5000 1) := by
  have hcan : ((filledBy (paymentsOf 1 2 8 400 2)).canAdd twoAccounts
      (paymentsOf 2 1 9223372036854775807 5000 1)).map (fun r => (r.1, r.2.1))
        = .ok (ADD_STATUS_PENDING, none) := by decide +kernel
  obtain ⟨⟨res, oldTx, q'⟩, hpending, hout⟩ := map_eq_ok.mp hcan
  cases hout
  obtain ⟨q₁, -, hiff⟩ := eviction_makesRoom_iff filledByTwo_reachable filledByTwo_allowed
    hpending
  obtain ⟨fuel, q₂, hevict, hroom⟩ := hiff.mpr (by decide +kernel)
  exact ⟨q₁, fuel, q₂, hevict, hroom⟩

end TransactionQueue

end KinesisCore

import KinesisCore.QueueChains

/-!
# Broadcasting

`broadcastSome` keeps a priority queue with at most one tracker for each
account, which stands at a transaction that has not been broadcast. Marking it
takes its operations out of one counter; nothing is dropped before the ban at
the end. So the trackers stay good while the loop runs, and the loop ends: each
round either drops a tracker or moves it on.
-/

namespace KinesisCore

open TransactionFrameBase QueueFrame MachineInt Function List

variable {T : Type} [QueueFrame T] {txs : List (TimestampedTx T)} {id : AccountID}
  {txs' : List (TimestampedTx T)}

/-- A chain is a matter of the source account and the sequence numbers. -/
theorem Chained.of_seqs (h : Chained id txs)
    (hsource : ∀ x ∈ txs', getSourceID x.mTx = id) (hmap : txs'.map seqOf = txs.map seqOf) :
    Chained id txs' := by
  refine ⟨hsource, fun x hx => ?_, ?_⟩
  · obtain ⟨y, hy, heq⟩ := mem_map.mp (hmap ▸ mem_map_of_mem hx)
    rw [← heq]
    exact h.positive y hy
  · have hchain : (txs.map seqOf).IsChain fun s t => t = s + 1 :=
      (isChain_map seqOf).mpr h.ascending
    rw [← hmap] at hchain
    exact (isChain_map seqOf).mp hchain

theorem Chained.congr (h : Chained id txs)
    (hmap : txs'.map (·.mTx) = txs.map (·.mTx)) : Chained id txs' := by
  refine h.of_seqs (fun x hx => ?_) ?_
  · obtain ⟨y, hy, heq⟩ := mem_map.mp (hmap ▸ mem_map_of_mem hx)
    rw [← heq]
    exact h.source y hy
  · have hseqs := congrArg (List.map fun t => (getSeqNum t).toInt) hmap
    rw [map_map, map_map] at hseqs
    exact hseqs

theorem lessThanXoredTx_ok {l r : T} (hl : Payable l) (hr : Payable r) (seed : UInt64) :
    ∃ b, lessThanXoredTx l r seed = .ok b :=
  ⟨_, less_compares { mPoolLedgerMultiplier := 0, mSeed := seed } l r hl hr⟩

namespace TransactionQueue

/-! ## Marking one transaction -/

variable {iters : List (TxQueueTracker T)}

omit [QueueFrame T] in
/-- A list around one of its positions. -/
theorem exists_split {i : Nat} {x : TimestampedTx T} (hx : txs[i]? = some x) :
    ∃ pre post, txs = pre ++ x :: post ∧ pre.length = i
      ∧ ∀ y, txs.set i y = pre ++ y :: post := by
  obtain ⟨hi, rfl⟩ := List.getElem?_eq_some_iff.mp hx
  refine ⟨txs.take i, txs.drop (i + 1), by simp, by simp; omega, fun y => ?_⟩
  rw [set_eq_take_append_cons_drop, if_pos hi]

/-- A transaction of a chain is marked as broadcast. -/
theorem markBroadcasted_ok {q : TransactionQueue T} {all s : Finset T} (h : Consistent q all s)
    {mCur : Nat} {tx : T} (hcur : (q.chain id)[mCur]? = some ⟨tx, false⟩) :
    ∃ m, q.markBroadcasted id mCur = .ok { q with mAccountStates := m }
      ∧ Consistent { q with mAccountStates := m } all s
      ∧ chain { q with mAccountStates := m }
        = update q.chain id ((q.chain id).set mCur ⟨tx, true⟩) := by
  obtain ⟨pre, post, hsplit, -, hset⟩ := exists_split hcur
  have hne : q.chain id ≠ [] := by
    rw [hsplit]
    simp
  have hthere : (q.mAccountStates id).isSome := (h.accounts.present id).mpr (.inl hne)
  have htxs : (q.state id).mTransactions = q.chain id := rfl
  unfold markBroadcasted
  rw [accountState_ok hthere]
  dsimp only [Except.ok_bind]
  rw [htxs, hcur]
  dsimp only
  rw [hset]
  have hchain : ∀ as : AccountState T, as.mTransactions = pre ++ ⟨tx, true⟩ :: post →
      (q.putAccount id as).chain = update q.chain id (pre ++ ⟨tx, true⟩ :: post) := by
    intro as has
    rw [chain_putAccount, has]
  have hmap : (pre ++ ⟨tx, true⟩ :: post).map (·.mTx) = (q.chain id).map (·.mTx) := by
    rw [hsplit]
    simp
  refine ⟨_, rfl, ⟨?_, h.limiter, ?_, fun t => ?_, fun j => ?_⟩, hchain _ rfl⟩
  · show Accounts (q.putAccount id _) (q.putAccount id _).chain all
    rw [hchain _ rfl]
    refine h.accounts.put h.accounts.bids (fun _ _ => rfl) ?_ ?_ ?_ ?_ ?_ ?_
    · exact h.accounts.fees id
    · rw [h.accounts.size, hsplit]
      simp
    · rw [h.accounts.unsent, hsplit]
      simp only [unsentOps_append, unsentOps_cons, opsOf]
      simp
      omega
    · exact List.Sublist.refl _
    · exact .inl (by simp)
    · simp
  · show ∀ j, Chained j ((q.putAccount id _).chain j)
    rw [hchain _ rfl]
    exact (forall_update_iff q.chain Chained).mpr ⟨(h.chains id).congr hmap, fun j _ => h.chains j⟩
  · show t ∈ all ↔ ∃ x ∈ (q.putAccount id _).chain (getSourceID t), x.mTx = t
    rw [hchain _ rfl, h.mem, ← mem_map, ← mem_map]
    by_cases hj : getSourceID t = id
    · rw [hj, update_self, hmap]
    · rw [update_of_ne hj]
  · show ((q.putAccount id _).state j).mAge < q.mPendingDepth
    exact (age_putAccount (by rfl) j).trans_lt (h.ages j)

/-! ## Trackers -/

/-- The trackers stand at transactions not yet broadcast, one for each account at
most. -/
structure Tracked (q : TransactionQueue T) (iters : List (TxQueueTracker T)) : Prop where
  cur : ∀ tr ∈ iters, (q.chain tr.account)[tr.mCur]? = some ⟨tr.tx, false⟩
  accounts : (iters.map (·.account)).Nodup

omit [QueueFrame T] in
theorem skipToFirstNotBroadcasted_some :
    ∀ {txs : List (TimestampedTx T)} {n : Nat} {tr : TxQueueTracker T},
      skipToFirstNotBroadcasted id txs n = some tr →
      tr.account = id ∧ ∃ i, tr.mCur = n + i ∧ txs[i]? = some ⟨tr.tx, false⟩
  | [], _, _, h => by cases h
  | x :: txs, n, tr, h => by
    unfold skipToFirstNotBroadcasted at h
    split at h
    · obtain ⟨hid, i, hcur, htx⟩ := skipToFirstNotBroadcasted_some h
      exact ⟨hid, i + 1, by omega, htx⟩
    · rename_i hsent
      cases h
      have hunsent : x.mBroadcasted = false := by simpa using hsent
      exact ⟨rfl, 0, rfl, by rw [← hunsent]; rfl⟩

theorem skipToFirstNotBroadcasted_none :
    ∀ {txs : List (TimestampedTx T)} {n : Nat},
      skipToFirstNotBroadcasted id txs n = none → unsentOps txs = 0
  | [], _, _ => rfl
  | x :: txs, n, h => by
    unfold skipToFirstNotBroadcasted at h
    split at h
    · rename_i hsent
      rw [unsentOps_cons, if_pos hsent, skipToFirstNotBroadcasted_none h]
    · cases h

theorem pushTracker_ok {seed : UInt64} {tracker : TxQueueTracker T} (htracker : Payable tracker.tx)
    (hiters : ∀ tr ∈ iters, Payable tr.tx) :
    pushTracker seed tracker iters = .ok (tracker :: iters) := by
  unfold pushTracker
  cases iters with
  | nil => rfl
  | cons other iters =>
    obtain ⟨b, hb⟩ := lessThanXoredTx_ok htracker (hiters other mem_cons_self) seed
    dsimp only
    rw [hb]
    rfl

variable {q : TransactionQueue T} {all : Finset T}

theorem Tracked.payable (h : Consistent q all all) (htracked : Tracked q iters) :
    ∀ tr ∈ iters, Payable tr.tx := fun tr htr =>
  h.limiter.payable tr.tx
    (h.mem_all (x := ⟨tr.tx, false⟩) (mem_of_getElem? (htracked.cur tr htr)))

theorem collectTrackers_ok (h : Consistent q all all) :
    ∀ {order : List AccountID} {iters : List (TxQueueTracker T)}, order.Nodup →
      (∀ tr ∈ iters, tr.account ∉ order) → Tracked q iters →
      ∃ iters', q.collectTrackers order iters = .ok iters' ∧ Tracked q iters'
  | [], iters, _, _, htracked => ⟨iters, rfl, htracked⟩
  | id :: order, iters, hnodup, hnew, htracked => by
    obtain ⟨hid, hrest⟩ := nodup_cons.mp hnodup
    have hnew' : ∀ tr ∈ iters, tr.account ∉ order := fun tr htr hin =>
      hnew tr htr (mem_cons_of_mem id hin)
    unfold collectTrackers
    dsimp only [Except.bind]
    split
    · exact collectTrackers_ok h hrest hnew' htracked
    · rename_i hunsent
      split
      · rename_i hnone
        have hzero := skipToFirstNotBroadcasted_none hnone
        exact absurd ((h.accounts.unsent id).trans hzero) hunsent
      · rename_i tracker hsome
        obtain ⟨rfl, i, hcur, htx⟩ := skipToFirstNotBroadcasted_some hsome
        rw [Nat.zero_add] at hcur
        have htracked' : Tracked q (tracker :: iters) := by
          refine ⟨forall_mem_cons.mpr ⟨hcur ▸ htx, htracked.cur⟩, ?_⟩
          refine nodup_cons.mpr ⟨fun hin => ?_, htracked.accounts⟩
          obtain ⟨tr, htr, heq⟩ := mem_map.mp hin
          exact hnew tr htr (heq ▸ mem_cons_self)
        have hpay := htracked'.payable h
        rw [pushTracker_ok (hpay tracker mem_cons_self)
          fun tr htr => hpay tr (mem_cons_of_mem _ htr)]
        exact collectTrackers_ok h hrest (forall_mem_cons.mpr ⟨hid, hnew'⟩) htracked'

/-! ## The loop -/

/-- How many transactions the trackers may still meet. -/
def remaining (q : TransactionQueue T) (iters : List (TxQueueTracker T)) : Nat :=
  (iters.map fun tr => (q.chain tr.account).length - tr.mCur).sum

variable {cur : TxQueueTracker T}

omit [QueueFrame T] in
/-- The trackers other than the one that was taken are not touched by marking. -/
theorem Tracked.mark (htracked : Tracked q (cur :: iters))
    {q' : TransactionQueue T} {l : List (TimestampedTx T)}
    (hchain : q'.chain = update q.chain cur.account l) :
    Tracked q' iters ∧ ∀ tr ∈ iters, q'.chain tr.account = q.chain tr.account := by
  obtain ⟨hcur, hnodup⟩ := nodup_cons.mp htracked.accounts
  have hsame : ∀ tr ∈ iters, q'.chain tr.account = q.chain tr.account := by
    intro tr htr
    have hne : tr.account ≠ cur.account := fun heq =>
      hcur (mem_map.mpr ⟨tr, htr, heq⟩)
    rw [hchain, update_of_ne hne]
  refine ⟨⟨fun tr htr => ?_, hnodup⟩, hsame⟩
  rw [hsame tr htr]
  exact htracked.cur tr (mem_cons_of_mem cur htr)

/-- A round that broadcasts: the queue stays consistent, and the trackers, with
the next one of the account or without, are good and have less to meet. -/
theorem flood_round (h : Consistent q all all) (htracked : Tracked q (cur :: iters)) :
    ∃ m, q.markBroadcasted cur.account cur.mCur = .ok { q with mAccountStates := m }
      ∧ Consistent { q with mAccountStates := m } all all
      ∧ Tracked { q with mAccountStates := m } iters
      ∧ remaining { q with mAccountStates := m } iters < remaining q (cur :: iters)
      ∧ ∃ as, accountState { q with mAccountStates := m } cur.account = .ok as
        ∧ ∀ tracker, skipToFirstNotBroadcasted cur.account (as.mTransactions.drop (cur.mCur + 1))
            (cur.mCur + 1) = some tracker →
          Tracked { q with mAccountStates := m } (tracker :: iters)
            ∧ remaining { q with mAccountStates := m } (tracker :: iters)
              < remaining q (cur :: iters) := by
  have hcur := htracked.cur cur mem_cons_self
  have hlt : cur.mCur < (q.chain cur.account).length := (List.getElem?_eq_some_iff.mp hcur).1
  obtain ⟨m, hmark, hcons, hchain⟩ := markBroadcasted_ok h hcur
  obtain ⟨htracked', hsame⟩ := htracked.mark hchain
  have hown : chain { q with mAccountStates := m } cur.account
      = (q.chain cur.account).set cur.mCur ⟨cur.tx, true⟩ := by
    rw [hchain, update_self]
  have hrest : remaining { q with mAccountStates := m } iters = remaining q iters := by
    unfold remaining
    congr 1
    exact map_congr_left fun tr htr => by rw [hsame tr htr]
  have hall : remaining q (cur :: iters)
      = (q.chain cur.account).length - cur.mCur + remaining q iters := by
    simp [remaining]
  have hthere : (m cur.account).isSome := by
    refine (hcons.accounts.present cur.account).mpr (.inl ?_)
    rw [hown]
    exact ne_nil_of_length_pos (by rw [length_set]; omega)
  refine ⟨m, hmark, hcons, htracked', by omega, _, accountState_ok hthere, fun tracker hskip => ?_⟩
  obtain ⟨hid, i, hnext, htx⟩ := skipToFirstNotBroadcasted_some hskip
  have htx' : (chain { q with mAccountStates := m } cur.account)[tracker.mCur]?
      = some ⟨tracker.tx, false⟩ := by
    rw [hnext]
    exact getElem?_drop ▸ htx
  refine ⟨⟨forall_mem_cons.mpr ⟨hid ▸ htx', htracked'.cur⟩, ?_⟩, ?_⟩
  · rw [map_cons, hid]
    exact htracked.accounts
  · have hnew : remaining { q with mAccountStates := m } (tracker :: iters)
        = (q.chain cur.account).length - tracker.mCur + remaining q iters := by
      rw [← hrest]
      simp [remaining, hid, hown]
    omega

omit [QueueFrame T] in
theorem Tracked.perm {iters' : List (TxQueueTracker T)} (htracked : Tracked q iters)
    (hperm : iters'.Perm iters) : Tracked q iters' :=
  ⟨fun tr htr => htracked.cur tr (hperm.mem_iff.mp htr),
    (hperm.map _).nodup_iff.mpr htracked.accounts⟩

/-- The loop never throws, and ends. -/
theorem flood_ok (I : Stl.Impl) (status : T → BroadcastStatus) (fuel : Nat) {f : Flood T}
    (h : Consistent f.queue all all) (htracked : Tracked f.queue f.iters) :
    ∃ r, flood I status fuel f = .ok r
      ∧ (∀ f' ∈ r, Consistent f'.queue all all ∧ Kept f.queue f'.queue)
      ∧ (remaining f.queue f.iters ≤ fuel → r.isSome) := by
  induction fuel using Nat.strong_induction_on generalizing f with
  | _ fuel ih =>
    unfold flood
    dsimp only [bind, Except.bind]
    split
    · exact ⟨_, rfl, fun f' hf' => Option.some.inj hf' ▸ ⟨h, Kept.refl _⟩, fun _ => rfl⟩
    · cases hpop : I.popTop (trackerLess f.queue.mBroadcastSeed) f.iters with
      | none => exact ⟨_, rfl, fun f' hf' => Option.some.inj hf' ▸ ⟨h, Kept.refl _⟩, fun _ => rfl⟩
      | some top =>
        obtain ⟨cur, iters⟩ := top
        have hperm := I.popTop_perm hpop
        obtain ⟨m, hmark, hcons, htracked', hless, as, hstate, hskip⟩ :=
          flood_round h (htracked.perm hperm)
        have heq : remaining f.queue (cur :: iters) = remaining f.queue f.iters :=
          (hperm.map _).sum_eq
        cases fuel with
        | zero => exact ⟨none, rfl, by simp, fun hle => by omega⟩
        | succ fuel =>
          dsimp only
          split
          · exact ⟨_, rfl, fun f' hf' => Option.some.inj hf' ▸ ⟨h, Kept.refl _⟩, fun _ => rfl⟩
          · rw [hmark]
            dsimp only
            -- the next round, with any trackers that are good and have less to meet
            have hnext : ∀ f₁ : Flood T, f₁.queue = { f.queue with mAccountStates := m } →
                Tracked f₁.queue f₁.iters →
                remaining f₁.queue f₁.iters < remaining f.queue (cur :: iters) →
                ∃ r, flood I status fuel f₁ = .ok r
                  ∧ (∀ f' ∈ r, Consistent f'.queue all all ∧ Kept f.queue f'.queue)
                  ∧ (remaining f.queue f.iters ≤ fuel + 1 → r.isSome) := by
              intro f₁ hqueue htracked₁ hless₁
              obtain ⟨r, hr, hfinal, hsome⟩ := ih fuel fuel.lt_succ_self (hqueue ▸ hcons) htracked₁
              refine ⟨r, hr, fun f' hf' => ?_, fun hle => hsome (by omega)⟩
              obtain ⟨hcons', hkept⟩ := hfinal f' hf'
              rw [hqueue] at hkept
              exact ⟨hcons', ⟨hkept.depth, hkept.limiter⟩⟩
            split
            · exact hnext _ rfl htracked' hless
            · rw [hstate]
              dsimp only
              split
              · exact hnext _ rfl htracked' hless
              · rename_i tracker htracker
                obtain ⟨htracked₂, hless₂⟩ := hskip tracker htracker
                have hpay := htracked₂.payable hcons
                rw [pushTracker_ok (hpay tracker mem_cons_self)
                  fun tr htr => hpay tr (mem_cons_of_mem _ htr)]
                exact hnext _ rfl htracked₂ hless₂

/-- `broadcastSome` never throws and, given enough fuel, returns. -/
theorem Consistent.broadcastSome [DecidableEq T] (h : Consistent q all all) (I : Stl.Impl)
    {order : List AccountID} (horder : order.Nodup) (opsThisPeriod : Nat)
    (status : T → BroadcastStatus) :
    ∃ bound, ∀ fuel, ∃ r, q.broadcastSome I fuel order opsThisPeriod status = .ok r
      ∧ (∀ q' ∈ r, ∃ all', Consistent q' all' all' ∧ Kept q q') ∧ (bound ≤ fuel → r.isSome) := by
  obtain ⟨iters, hcollect, htracked⟩ := collectTrackers_ok h horder (by simp)
    (⟨by simp, nodup_nil⟩ : Tracked q [])
  refine ⟨remaining q iters, fun fuel => ?_⟩
  obtain ⟨r, hflood, hfinal, hsome⟩ := flood_ok I status fuel
    (f := ⟨q, q.mBroadcastOpCarryover + opsThisPeriod, iters, []⟩) h htracked
  unfold TransactionQueue.broadcastSome
  rw [hcollect]
  dsimp only [bind, Except.bind]
  rw [hflood]
  cases r with
  | none => exact ⟨none, rfl, by simp, hsome⟩
  | some f =>
    obtain ⟨hcons, hkept⟩ := hfinal f rfl
    obtain ⟨q', all', hban, -, hcons', hkept'⟩ := Consistent.drops_ban f.banningTxs _ _ hcons
    dsimp only at hban ⊢
    rw [hban]
    refine ⟨_, rfl, fun q'' hq'' => ?_, fun _ => rfl⟩
    cases hq''
    exact ⟨all', hcons'.congr rfl hcons'.limiter rfl,
      ⟨(hkept.trans hkept').depth, (hkept.trans hkept').limiter⟩⟩

end TransactionQueue

end KinesisCore

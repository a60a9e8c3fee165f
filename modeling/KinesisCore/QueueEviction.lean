import Mathlib.Data.List.TakeWhile
import KinesisCore.QueueBroadcast

/-!
# Eviction

`canAddTx` walks the limiter's set from the cheapest transaction on and finds
room in a prefix of it, the cheaper transactions of other accounts.
`evictTransactions` then bans the cheapest transaction until there is room, and
a ban takes along what follows in the chain. While there is no room, a
transaction of that prefix is left, so the cheapest one is of the prefix too:
the newcomer and its account are never touched.

The loop can fail in one way only. In a saturated chain nothing is found and
nothing is dropped, so when the cheapest transaction is of such a chain the loop
goes on forever. `Evicting` is what holds between two rounds. `Evicting.worst`
finds the cheapest transaction in the prefix, and `Evicting.step` bans it.
Whether the loop ends is a question about the queue at its start:
`evictTransactions_returns_iff` compares the operations it needs with those up
to the first saturated chain.
-/

namespace KinesisCore

open TransactionFrameBase QueueFrame MachineInt Function Except List

variable {T E : Type} [QueueFrame T]

/-! ## The walk -/

/-- A walk that finds room has passed cheaper transactions of other accounts with
as many operations as are needed. -/
theorem TxQueueLimiter.canEvict_true {newTx : T} :
    ∀ {txs : List T} {neededOps : Nat} {minFee : Int64},
      canEvict newTx txs neededOps = .ok (true, minFee) →
      ∃ cheap, cheap <+: txs
        ∧ (∀ u ∈ cheap, feeRate3WayCompare u newTx = .ok .lt ∧ getSourceID u ≠ getSourceID newTx)
        ∧ neededOps ≤ (cheap.map opsOf).sum
  | [], _, _, h => by cases h
  | it :: rest, neededOps, minFee, h => by
    obtain ⟨order, horder, h⟩ := bind_eq_ok.mp h
    split at h
    · obtain ⟨fee, -, h⟩ := bind_eq_ok.mp h
      cases h
    · rename_i hlt
      have hcheaper : feeRate3WayCompare it newTx = .ok .lt := by rw [horder, not_not.mp hlt]
      dsimp only at h
      split at h
      · cases h
      · rename_i hsource
        split at h
        · rename_i hops
          refine ⟨[it], ⟨rest, rfl⟩, ?_, ?_⟩
          · simpa using ⟨hcheaper, hsource⟩
          · simpa [opsOf] using hops
        · rename_i hops
          obtain ⟨cheap, hwalk, hcheap, hsum⟩ := canEvict_true h
          refine ⟨it :: cheap, (prefix_cons_inj it).mpr hwalk,
            forall_mem_cons.mpr ⟨⟨hcheaper, hsource⟩, hcheap⟩, ?_⟩
          rw [map_cons, sum_cons, opsOf]
          omega

/-! ## Saturated chains -/

/-- Only the last transaction of a chain can have the largest sequence number. -/
theorem Chained.saturated_iff {id : AccountID} {txs : List (TimestampedTx T)}
    (h : Chained id txs) : Saturated txs ↔ ∃ x ∈ txs, getSeqNum x.mTx = INT64_MAX := by
  constructor
  · rintro ⟨back, hback, hmax⟩
    exact ⟨back, mem_of_getLast? hback, hmax⟩
  · rintro ⟨x, hx, hmax⟩
    obtain ⟨i, hi, rfl⟩ := getElem_of_mem hx
    have hne : txs ≠ [] := ne_nil_of_mem hx
    have hlast := getLast?_eq_some_getLast hne
    refine ⟨txs.getLast hne, hlast, ?_⟩
    have hhead := head?_eq_some_head hne
    have hseq := seqOf_getElem? h.ascending hhead (getElem?_eq_getElem hi)
    have hback := h.seqOf_getLast? hhead hlast
    have hbound := (inRange_toInt (getSeqNum (txs.getLast hne).mTx)).2
    have hmax' : seqOf txs[i] = 2 ^ 63 - 1 := by
      rw [seqOf, hmax]
      rfl
    refine Int64.toInt_inj.mp ?_
    show seqOf (txs.getLast hne) = 2 ^ 63 - 1
    unfold seqOf at *
    omega

/-! ## Between two rounds

`q₀` is the queue the newcomer was admitted to, `q` the one after some rounds and `s`
the transactions left. Chains only lose their ends, and saturated ones nothing. -/

/-- `t` is `u` or comes later in its chain. -/
def Follows (u t : T) : Prop :=
  getSourceID t = getSourceID u ∧ (getSeqNum u).toInt ≤ (getSeqNum t).toInt

instance (u t : T) : Decidable (Follows u t) := inferInstanceAs (Decidable (_ ∧ _))

namespace TransactionQueue

variable {rest : List T}

/-- The cheapest transactions, up to the first one of a saturated chain. -/
def openTxs (q : TransactionQueue T) : List T :=
  q.mTxQueueLimiter.mTxs.takeWhile fun u => ¬Saturated (q.chain (getSourceID u))

/-- The transactions that eviction can reach. -/
def evictable (q : TransactionQueue T) (all : Finset T) : Finset T :=
  all.filter fun t => ∃ u ∈ q.openTxs, Follows u t

variable [DecidableEq T]

/-- What an add knows when eviction begins: the queue `q₀` it was called on, the
transactions `start` in the limiter, without the one that `tx` replaces, and the
cheap ones that make room. -/
structure Admitted (q₀ : TransactionQueue T) (all₀ start : Finset T) (tx : T) (cheap : List T) :
    Prop where
  consistent : Consistent q₀ all₀ all₀
  start : ∀ t ∈ all₀, getSourceID t ≠ getSourceID tx → t ∈ start
  walk : cheap <+: q₀.mTxQueueLimiter.mTxs
  others : ∀ u ∈ cheap, getSourceID u ≠ getSourceID tx

/-- What holds between two rounds of eviction; `own` is the chain that the
newcomer is in. -/
structure Evicting (q₀ : TransactionQueue T) (all₀ : Finset T) (lcl : LastClosedLedger E) (tx : T)
    (cheap : List T) (own : List (TimestampedTx T)) (q : TransactionQueue T) (s : Finset T) :
    Prop where
  consistent : Consistent q (insert tx s) s
  fresh : tx ∉ s
  own : q.chain (getSourceID tx) = own
  chains : ∀ id, id ≠ getSourceID tx → q.chain id <+: q₀.chain id
  stuck : ∀ id, id ≠ getSourceID tx → Saturated (q₀.chain id) → q.chain id = q₀.chain id
  txs : q.mTxQueueLimiter.mTxs.Sublist q₀.mTxQueueLimiter.mTxs
  evicted : ∀ t ∈ all₀, getSourceID t ≠ getSourceID tx → t ∉ s →
    ∃ u ∈ q₀.openTxs, u ∈ cheap ∧ Follows u t
  limit : q.mTxQueueLimiter.maxQueueSizeOps lcl = q₀.mTxQueueLimiter.maxQueueSizeOps lcl
  budget : q.mTxQueueLimiter.mQueueSizeOps + opsOf tx
    ≤ q₀.mTxQueueLimiter.maxQueueSizeOps lcl + ∑ t ∈ s with t ∈ cheap, opsOf t
  minFee : 0 ≤ q.mTxQueueLimiter.mMinFeeNeeded.1.toInt

variable {q₀ q : TransactionQueue T} {all₀ start s : Finset T} {lcl : LastClosedLedger E} {tx : T}
  {cheap : List T} {own : List (TimestampedTx T)} {w : T}

omit [QueueFrame T] [DecidableEq T] in
/-- The first element of a sublist: what comes before it in the list is not in
the sublist. -/
theorem exists_before {order : List T} (hsub : (w :: rest).Sublist order) (hnodup : order.Nodup) :
    ∃ before after, order = before ++ w :: after ∧ ∀ u ∈ before, u ∉ w :: rest := by
  obtain ⟨upTo, after, rfl, hw, hrest⟩ := cons_sublist_iff.mp hsub
  obtain ⟨before, between, rfl⟩ := append_of_mem hw
  refine ⟨before, between ++ after, by simp, fun u hu hin => ?_⟩
  rw [append_assoc] at hnodup
  have hdisjoint := (nodup_append.mp hnodup).2.2 u hu
  rcases mem_cons.mp hin with rfl | hin
  · exact hdisjoint u (by simp) rfl
  · exact hdisjoint u (by simp [hrest.subset hin]) rfl

/-- The queue with another fee that is needed. -/
abbrev setMinFeeNeeded (q : TransactionQueue T) (mMinFeeNeeded : Int64 × UInt32) :
    TransactionQueue T :=
  { q with mTxQueueLimiter := { q.mTxQueueLimiter with mMinFeeNeeded } }

omit [DecidableEq T] in
theorem ban_singleton (q : TransactionQueue T) (tx : T) :
    q.ban [tx] = (q.banHash (getFullHash tx)).banFrom (getSourceID tx) [tx] := by
  simp [ban, groupByAccount]

namespace Evicting

theorem mem_txs (h : Evicting q₀ all₀ lcl tx cheap own q s) (t : T) :
    t ∈ q.mTxQueueLimiter.mTxs ↔ t ∈ s := h.consistent.limiter.mem t

section Admitted

variable (hadm : Admitted q₀ all₀ start tx cheap) (h : Evicting q₀ all₀ lcl tx cheap own q s)
include hadm h

theorem subset : s ⊆ all₀ := fun t ht =>
  (hadm.consistent.limiter.mem t).mp (h.txs.subset ((h.mem_txs t).mpr ht))

/-- While there is no room the cheapest transaction is a cheap one. -/
theorem head_mem (hfull : q₀.mTxQueueLimiter.maxQueueSizeOps lcl
      < q.mTxQueueLimiter.mQueueSizeOps + opsOf tx) :
    ∃ w rest, q.mTxQueueLimiter.mTxs = w :: rest ∧ w ∈ cheap := by
  have hsum : ∑ t ∈ s with t ∈ cheap, opsOf t ≠ 0 := by
    have := h.budget
    omega
  obtain ⟨p, hp, -⟩ := Finset.exists_ne_zero_of_sum_ne_zero hsum
  obtain ⟨hps, hpcheap⟩ := Finset.mem_filter.mp hp
  have hpin := (h.mem_txs p).mpr hps
  obtain ⟨expensive, horder⟩ := hadm.walk
  have hnodup := hadm.consistent.limiter.sorted.nodup
  have hsub := h.txs
  rw [← horder] at hnodup hsub
  obtain ⟨left, right, hsplit, hleft, hright⟩ := sublist_append_iff.mp hsub
  cases left with
  | nil =>
    rw [hsplit] at hpin
    exact absurd rfl ((nodup_append.mp hnodup).2.2 p hpcheap p (hright.subset hpin))
  | cons w left => exact ⟨w, left ++ right, hsplit, hleft.subset mem_cons_self⟩

/-- While there is no room the set is not empty, and its first transaction is a
cheap one. -/
theorem worst (hfull : ¬q.mTxQueueLimiter.mQueueSizeOps + opsOf tx
      ≤ q.mTxQueueLimiter.maxQueueSizeOps lcl) :
    ∃ w rest, q.mTxQueueLimiter.mTxs = w :: rest ∧ w ∈ s ∧ w ∈ cheap
      ∧ q.mTxQueueLimiter.mQueueSizeOps ≠ 0 := by
  rw [h.limit] at hfull
  obtain ⟨w, rest, hhead, hw⟩ := h.head_mem hadm (Nat.lt_of_not_le hfull)
  have hws : w ∈ s := (h.mem_txs w).mp (hhead ▸ mem_cons_self)
  have hops := (h.consistent.limiter.payable w hws).operations
  have hle := Finset.single_le_sum (f := opsOf) (fun t _ => Nat.zero_le _) hws
  refine ⟨w, rest, hhead, hws, hw, ?_⟩
  rw [h.consistent.limiter.size]
  unfold opsOf at hle ⊢
  omega

/-- What was cheaper than the cheapest transaction left has been evicted. -/
theorem exists_evicted (hhead : q.mTxQueueLimiter.mTxs = w :: rest) (hw : w ∈ cheap) :
    ∃ before after, q₀.mTxQueueLimiter.mTxs = before ++ w :: after
      ∧ ∀ u ∈ before, u ∈ all₀ ∧ getSourceID u ≠ getSourceID tx ∧ u ∉ s := by
  have hnodup := hadm.consistent.limiter.sorted.nodup
  obtain ⟨before, after, horder, hbefore⟩ := exists_before (hhead ▸ h.txs) hnodup
  have hcheap : before <+: cheap := by
    have hwalk := hadm.walk
    rw [horder] at hwalk hnodup
    rcases prefix_or_prefix_of_prefix (prefix_append before (w :: after)) hwalk with
      hle | hge
    · exact hle
    · exact absurd rfl ((nodup_append.mp hnodup).2.2 w (hge.subset hw) w (by simp))
  refine ⟨before, after, horder, fun u hu => ⟨?_, hadm.others u (hcheap.subset hu), ?_⟩⟩
  · exact (hadm.consistent.limiter.mem u).mp (by rw [horder]; simp [hu])
  · rw [← h.mem_txs, hhead]
    exact hbefore u hu

/-- Evicted transactions are of chains that are not saturated, so the cheapest one
left is within reach if its own chain is not saturated. -/
theorem mem_openTxs (hhead : q.mTxQueueLimiter.mTxs = w :: rest) (hw : w ∈ cheap)
    (hopen : ¬Saturated (q₀.chain (getSourceID w))) : w ∈ q₀.openTxs := by
  obtain ⟨before, after, horder, hbefore⟩ := h.exists_evicted hadm hhead hw
  have hopens : ∀ u ∈ before, ¬Saturated (q₀.chain (getSourceID u)) := by
    intro u hu
    obtain ⟨huall, hsource, hus⟩ := hbefore u hu
    obtain ⟨v, hv, -, hsame, -⟩ := h.evicted u huall hsource hus
    rw [hsame]
    simpa using mem_takeWhile_imp hv
  unfold openTxs
  rw [horder, takeWhile_append_of_pos (by simpa using hopens),
    takeWhile_cons_of_pos (by simpa using hopen)]
  simp

/-- A chain that has lost a suffix has not kept what follows a transaction that is
gone. -/
theorem not_mem_of_follows {u t : T} (hu : u ∈ all₀) (ht : t ∈ all₀)
    (hsource : getSourceID u ≠ getSourceID tx) (hgone : u ∉ s) (hfollows : Follows u t) :
    t ∉ s := by
  intro hts
  obtain ⟨hsame, hle⟩ := hfollows
  obtain ⟨x, hx, rfl⟩ := (h.consistent.mem t).mp (Finset.mem_insert_of_mem hts)
  obtain ⟨y, hy, rfl⟩ := (hadm.consistent.mem u).mp hu
  rw [hsame] at hx
  have hchained := hadm.consistent.chains (getSourceID y.mTx)
  obtain ⟨gone, hgoneChain⟩ := h.chains _ hsource
  rw [← hgoneChain] at hchained hy
  rcases mem_append.mp hy with hy | hy
  · have hin := h.consistent.mem_all hy
    rcases Finset.mem_insert.mp hin with heq | hin
    · exact hsource (by rw [heq])
    · exact hgone hin
  · have hlt := (pairwise_append.mp hchained.pairwise).2.2 x hx y hy
    unfold seqOf at hlt
    omega

/-- With enough to reach, the cheapest transaction left is not of a saturated
chain. -/
theorem head_open (hsub : s ⊆ start) (hhead : q.mTxQueueLimiter.mTxs = w :: rest) (hw : w ∈ cheap)
    (hreach : ∑ t ∈ start, opsOf t + opsOf tx
      ≤ q₀.mTxQueueLimiter.maxQueueSizeOps lcl + ∑ t ∈ q₀.evictable all₀, opsOf t)
    (hfull : q₀.mTxQueueLimiter.maxQueueSizeOps lcl < q.mTxQueueLimiter.mQueueSizeOps + opsOf tx) :
    ¬Saturated (q₀.chain (getSourceID w)) := by
  intro hsat
  obtain ⟨before, after, horder, hbefore⟩ := h.exists_evicted hadm hhead hw
  have hopen : ∀ u ∈ q₀.openTxs, u ∈ before := by
    intro u hu
    unfold openTxs at hu
    rw [horder, takeWhile_append] at hu
    split at hu
    · rw [takeWhile_cons_of_neg (by simpa using hsat), append_nil] at hu
      exact hu
    · exact takeWhile_subset _ hu
  have hgone : q₀.evictable all₀ ⊆ start \ s := by
    intro t ht
    obtain ⟨htall, u, hu, hfollows⟩ := Finset.mem_filter.mp ht
    obtain ⟨huall, hsource, hus⟩ := hbefore u (hopen u hu)
    refine Finset.mem_sdiff.mpr ⟨hadm.start t htall (hfollows.1 ▸ hsource), ?_⟩
    exact h.not_mem_of_follows hadm huall htall hsource hus hfollows
  have hsum := Finset.sum_le_sum_of_subset (f := opsOf) hgone
  have hsplit := Finset.sum_sdiff (f := opsOf) hsub
  have hsize := h.consistent.limiter.size
  omega

/-- Banning one transaction that is in the limiter: its chain loses it and what
follows, or nothing at all if the chain is saturated. -/
theorem ban_worst (hws : w ∈ s) (hw : w ∈ cheap) (mMinFeeNeeded : Int64 × UInt32) :
    ∃ q' kept gone, (q.setMinFeeNeeded mMinFeeNeeded).ban [w] = .ok q'
      ∧ q.chain (getSourceID w) = kept ++ gone
      ∧ (Saturated (q.chain (getSourceID w)) → gone = [])
      ∧ (¬Saturated (q.chain (getSourceID w)) → ∃ x ∈ gone.head?, x.mTx = w)
      ∧ q'.chain = update q.chain (getSourceID w) kept
      ∧ Consistent q' (insert tx s \ txSet gone) (s \ txSet gone)
      ∧ Shrunk (q.setMinFeeNeeded mMinFeeNeeded) q' := by
  have hsource := hadm.others w hw
  obtain ⟨x, hx, hxw⟩ := (h.consistent.mem w).mp (Finset.mem_insert_of_mem hws)
  obtain ⟨i, hi⟩ := getElem?_of_mem hx
  have hlt : i < (q.chain (getSourceID w)).length := (List.getElem?_eq_some_iff.mp hi).1
  have hchained := h.consistent.chains (getSourceID w)
  have hins : ∀ y ∈ q.chain (getSourceID w), y.mTx ∈ s := by
    intro y hy
    refine Finset.mem_of_mem_insert_of_ne (h.consistent.mem_all hy) fun heq => hsource ?_
    rw [← heq, hchained.source y hy]
  have hfind := hchained.findFirst_singleton hi
  rw [hxw] at hfind
  obtain ⟨banned, hbanned⟩ := foldl_banHash (fun tx : T => getFullHash tx) [w]
    (q.setMinFeeNeeded mMinFeeNeeded)
  have hcons : Consistent { q.setMinFeeNeeded mMinFeeNeeded with mBannedTransactions := banned }
      (insert tx s) s :=
    h.consistent.congr rfl (h.consistent.limiter.setMinFee mMinFeeNeeded) rfl
  have hn : (if Saturated (q.chain (getSourceID w)) then (q.chain (getSourceID w)).length else i)
      ≤ (q.chain (getSourceID w)).length := by
    split <;> omega
  obtain ⟨q', hban, hchain, hcons', hshrunk⟩ := hcons.banFrom (ne_nil_of_mem hx) hins hn hfind
  refine ⟨q', _, _, ?_, (take_append_drop _ _).symm, fun hsat => ?_, fun hopen => ?_, hchain,
    hcons', ⟨⟨hshrunk.depth, hshrunk.limiter⟩, hshrunk.txs, hshrunk.ages⟩⟩
  · rw [ban_singleton]
    have hone : (q.setMinFeeNeeded mMinFeeNeeded).banHash (getFullHash w) = _ := hbanned
    rw [hone]
    exact hban
  · rw [if_pos hsat]
    exact drop_length
  · rw [if_neg hopen]
    refine ⟨x, ?_, hxw⟩
    rw [head?_drop]
    exact hi

omit hadm in
/-- What goes leaves the budget of the cheap ones as it was, or better. -/
theorem budget_sdiff {gone : Finset T} (hgone : gone ⊆ s) :
    ∑ t ∈ s \ gone, opsOf t + opsOf tx
      ≤ q₀.mTxQueueLimiter.maxQueueSizeOps lcl + ∑ t ∈ s \ gone with t ∈ cheap, opsOf t := by
  have hbudget := h.budget
  have hsize := Finset.sum_sdiff (f := opsOf) hgone
  have hcheap := Finset.sum_sdiff (f := fun t => if t ∈ cheap then opsOf t else 0) hgone
  have hle : ∑ t ∈ gone, (if t ∈ cheap then opsOf t else 0) ≤ ∑ t ∈ gone, opsOf t :=
    Finset.sum_le_sum fun t _ => by split <;> omega
  rw [h.consistent.limiter.size, Finset.sum_filter] at hbudget
  rw [Finset.sum_filter]
  omega

/-- One round: a cheap transaction is banned. -/
theorem step (hhead : q.mTxQueueLimiter.mTxs = w :: rest) (hw : w ∈ cheap) :
    ∃ q' s', (q.setMinFeeNeeded (getFeeBid w, getNumOperations w)).ban [w] = .ok q'
      ∧ Evicting q₀ all₀ lcl tx cheap own q' s' ∧ s' ⊆ s
      ∧ (Saturated (q₀.chain (getSourceID w)) → s' = s)
      ∧ (¬Saturated (q₀.chain (getSourceID w)) → w ∉ s') := by
  have hws : w ∈ s := (h.mem_txs w).mp (hhead ▸ mem_cons_self)
  have hsource := hadm.others w hw
  obtain ⟨q', kept, gone, hban, hsplit, hstuck, hopen, hchain, hcons, hshrunk⟩ :=
    h.ban_worst hadm hws hw (getFeeBid w, getNumOperations w)
  have hsat₀ : Saturated (q.chain (getSourceID w)) ↔ Saturated (q₀.chain (getSourceID w)) := by
    refine ⟨fun hsat => ?_, fun hsat => by rw [h.stuck _ hsource hsat]; exact hsat⟩
    obtain ⟨x, hx, hmax⟩ := (h.consistent.chains _).saturated_iff.mp hsat
    exact (hadm.consistent.chains _).saturated_iff.mpr ⟨x, (h.chains _ hsource).subset hx, hmax⟩
  have hgoneSource : ∀ y ∈ gone, getSourceID y.mTx = getSourceID w := fun y hy =>
    (h.consistent.chains _).source y (by rw [hsplit]; simp [hy])
  have htxgone : tx ∉ txSet gone := by
    intro hin
    obtain ⟨y, hy, rfl⟩ := mem_txSet.mp hin
    exact hsource (hgoneSource y hy).symm
  have hgone : txSet gone ⊆ s := by
    intro t ht
    obtain ⟨y, hy, rfl⟩ := mem_txSet.mp ht
    refine Finset.mem_of_mem_insert_of_ne
      (h.consistent.mem_all (show y ∈ q.chain (getSourceID w) by rw [hsplit]; simp [hy])) ?_
    rintro heq
    exact htxgone (heq ▸ ht)
  have hfollows : ∀ y ∈ gone, ¬Saturated (q₀.chain (getSourceID w)) ∧ Follows w y.mTx := by
    intro y hy
    have hopen' : ¬Saturated (q.chain (getSourceID w)) := fun hsat => by
      rw [hstuck hsat] at hy
      cases hy
    obtain ⟨x, hx, rfl⟩ := hopen hopen'
    obtain ⟨tail, rfl⟩ := head?_eq_some_iff.mp hx
    have hpair := (h.consistent.chains (getSourceID x.mTx)).pairwise
    rw [hsplit] at hpair
    refine ⟨mt hsat₀.mpr hopen', hgoneSource y hy, ?_⟩
    rcases mem_cons.mp hy with rfl | hy
    · exact le_rfl
    · exact (rel_of_pairwise_cons (pairwise_append.mp hpair).2.1 hy).le
  have hinsert : insert tx s \ txSet gone = insert tx (s \ txSet gone) :=
    Finset.insert_sdiff_of_notMem s htxgone
  refine ⟨q', s \ txSet gone, hban, ?_, Finset.sdiff_subset, fun hsat => ?_, fun hsat => ?_⟩
  · exact
      { consistent := hinsert ▸ hcons
        fresh := fun hin => h.fresh (Finset.mem_sdiff.mp hin).1
        own := by rw [hchain, update_of_ne (Ne.symm hsource), h.own]
        chains := by
          rw [hchain]
          exact (forall_update_iff q.chain fun id l => id ≠ getSourceID tx → l <+: q₀.chain id).mpr
            ⟨fun hid => (hsplit ▸ prefix_append kept gone).trans (h.chains _ hid),
              fun id _ => h.chains id⟩
        stuck := fun id hid hsat => by
          rw [hchain]
          by_cases hw' : id = getSourceID w
          · subst hw'
            rw [update_self, ← h.stuck _ hid hsat, hsplit, hstuck (hsat₀.mpr hsat), append_nil]
          · rw [update_of_ne hw']
            exact h.stuck id hid hsat
        txs := hshrunk.txs.trans h.txs
        evicted := fun t htall hsrc hts => by
          by_cases hin : t ∈ s
          · obtain ⟨y, hy, rfl⟩ : ∃ y ∈ gone, y.mTx = t := mem_txSet.mp (by simpa [hin] using hts)
            obtain ⟨hopen₀, hfol⟩ := hfollows y hy
            exact ⟨w, h.mem_openTxs hadm hhead hw hopen₀, hw, hfol⟩
          · exact h.evicted t htall hsrc hin
        limit := by
          rw [← h.limit, hshrunk.limiter]
          rfl
        budget := by
          rw [hcons.limiter.size]
          exact h.budget_sdiff hgone
        minFee := by
          rw [hshrunk.limiter]
          exact (h.consistent.limiter.payable w hws).nonneg }
  · rw [hstuck (hsat₀.mpr hsat)]
    exact Finset.sdiff_empty
  · obtain ⟨x, hx, rfl⟩ := hopen (mt hsat₀.mp hsat)
    simpa using fun _ => ⟨x, mem_of_mem_head? hx, rfl⟩

end Admitted

end Evicting

/-! ## The loop -/

/-- Enough operations are within reach to make room for `tx`. -/
def Reaches (q₀ : TransactionQueue T) (all₀ start : Finset T) (lcl : LastClosedLedger E) (tx : T) :
    Prop :=
  ∑ t ∈ start, opsOf t + opsOf tx
    ≤ q₀.mTxQueueLimiter.maxQueueSizeOps lcl + ∑ t ∈ q₀.evictable all₀, opsOf t

variable {ops : Nat} {q' : TransactionQueue T} {s' : Finset T}

omit [DecidableEq T] in
theorem evictTransactions_room (hroom : q.mTxQueueLimiter.mQueueSizeOps + ops
      ≤ q.mTxQueueLimiter.maxQueueSizeOps lcl) (fuel : Nat) :
    evictTransactions lcl ops fuel q = .ok (some (true, q)) := by
  unfold evictTransactions
  rw [if_pos hroom]
  rfl

omit [DecidableEq T] in
/-- Without room the cheapest transaction is banned. -/
theorem evictTransactions_full
    (hfull : ¬q.mTxQueueLimiter.mQueueSizeOps + ops ≤ q.mTxQueueLimiter.maxQueueSizeOps lcl)
    (hhead : q.mTxQueueLimiter.mTxs = w :: rest) (hsize : q.mTxQueueLimiter.mQueueSizeOps ≠ 0) :
    evictTransactions lcl ops 0 q = .ok none
      ∧ ∀ fuel, evictTransactions lcl ops (fuel + 1) q
        = (q.setMinFeeNeeded (getFeeBid w, getNumOperations w)).ban [w]
          >>= evictTransactions lcl ops fuel := by
  have hworst : q.mTxQueueLimiter.getWorstTransaction = .ok w := by
    rw [TxQueueLimiter.getWorstTransaction, hhead]
    rfl
  constructor
  · unfold evictTransactions
    rw [if_neg hfull, if_neg hsize]
    rfl
  · intro fuel
    conv_lhs => unfold evictTransactions
    rw [if_neg hfull, if_neg hsize]
    rw [hworst]
    rfl

variable (hadm : Admitted q₀ all₀ start tx cheap)
include hadm

/-- Eviction never throws. When it returns there is room, and it returns if
enough is within reach. -/
theorem evictTransactions_ok (fuel : Nat)
    (h : Evicting q₀ all₀ lcl tx cheap own q s) (hsub : s ⊆ start) :
    ∃ r, evictTransactions lcl (opsOf tx) fuel q = .ok r
      ∧ (∀ b q', r = some (b, q') → b = true
        ∧ ∃ s', Evicting q₀ all₀ lcl tx cheap own q' s' ∧ s' ⊆ s
          ∧ q'.mTxQueueLimiter.mQueueSizeOps + opsOf tx ≤ q'.mTxQueueLimiter.maxQueueSizeOps lcl)
      ∧ (Reaches q₀ all₀ start lcl tx → s.card ≤ fuel → r.isSome) := by
  induction fuel using Nat.strong_induction_on generalizing q s with
  | _ fuel ih =>
    by_cases hroom : q.mTxQueueLimiter.mQueueSizeOps + opsOf tx
        ≤ q.mTxQueueLimiter.maxQueueSizeOps lcl
    · refine ⟨_, evictTransactions_room hroom _, ?_, fun _ _ => rfl⟩
      rintro b q' ⟨⟩
      exact ⟨rfl, s, h, subset_rfl, hroom⟩
    · obtain ⟨w, rest, hhead, hws, hw, hsize⟩ := h.worst hadm hroom
      cases fuel with
      | zero =>
        refine ⟨none, (evictTransactions_full hroom hhead hsize).1, by simp, fun _ hcard => ?_⟩
        rw [Nat.le_zero, Finset.card_eq_zero] at hcard
        simp [hcard] at hws
      | succ fuel =>
        obtain ⟨q₁, s₁, hban, h₁, hsub₁, -, hgone⟩ := h.step hadm hhead hw
        obtain ⟨r, hr, hfinal, hsome⟩ := ih fuel fuel.lt_succ_self h₁ (hsub₁.trans hsub)
        refine ⟨r, ?_, fun b q' hq' => ?_, fun hreach hcard => hsome hreach ?_⟩
        · rw [(evictTransactions_full hroom hhead hsize).2, hban]
          exact hr
        · obtain ⟨hb, s', hs', hsub', hroom'⟩ := hfinal b q' hq'
          exact ⟨hb, s', hs', hsub'.trans hsub₁, hroom'⟩
        · -- a transaction within reach is gone
          rw [h.limit] at hroom
          have hw₁ := hgone (h.head_open hadm hsub hhead hw hreach (Nat.lt_of_not_le hroom))
          have hlt := Finset.card_lt_card (Finset.ssubset_iff_subset_ne.mpr
            ⟨hsub₁, fun heq => hw₁ (heq ▸ hws)⟩)
          omega

variable (h : Evicting q₀ all₀ lcl tx cheap own q start)
include h

omit hadm in
/-- The chain of the newcomer does not change, so what is gone is of another one. -/
theorem Evicting.source_ne (h' : Evicting q₀ all₀ lcl tx cheap own q' s') {t : T}
    (ht : t ∈ start) (hgone : t ∉ s') : getSourceID t ≠ getSourceID tx := by
  intro hsame
  obtain ⟨x, hx, rfl⟩ := (h.consistent.mem t).mp (Finset.mem_insert_of_mem ht)
  rw [hsame, h.own, ← h'.own] at hx
  refine hgone (Finset.mem_of_mem_insert_of_ne (h'.consistent.mem_all hx) fun heq => ?_)
  exact h.fresh (heq ▸ ht)

/-- What is gone was within reach. -/
theorem Evicting.reached
    (h' : Evicting q₀ all₀ lcl tx cheap own q' s') : start \ s' ⊆ q₀.evictable all₀ := by
  intro t ht
  obtain ⟨hstart, hgone⟩ := Finset.mem_sdiff.mp ht
  have hall := h.subset hadm hstart
  obtain ⟨u, hu, -, hfollows⟩ := h'.evicted t hall (h.source_ne h' hstart hgone) hgone
  exact Finset.mem_filter.mpr ⟨hall, u, hu, hfollows⟩

/-- Eviction returns exactly if enough is within reach. -/
theorem evictTransactions_returns_iff :
    (∃ fuel r, evictTransactions lcl (opsOf tx) fuel q = .ok (some r))
      ↔ Reaches q₀ all₀ start lcl tx := by
  constructor
  · rintro ⟨fuel, ⟨b, q'⟩, hr⟩
    obtain ⟨r, hr', hfinal, -⟩ := evictTransactions_ok hadm fuel h subset_rfl
    obtain rfl : some (b, q') = r := ok.inj (hr.symm.trans hr')
    obtain ⟨-, s', h', hsub, hroom⟩ := hfinal b q' rfl
    have hgone := Finset.sum_le_sum_of_subset (f := opsOf) (h.reached hadm h')
    have hsplit := Finset.sum_sdiff (f := opsOf) hsub
    have hsize := h'.consistent.limiter.size
    rw [h'.limit] at hroom
    unfold Reaches
    omega
  · intro hreach
    obtain ⟨r, hr, -, hsome⟩ := evictTransactions_ok hadm start.card h subset_rfl
    obtain ⟨out, rfl⟩ := Option.isSome_iff_exists.mp (hsome hreach le_rfl)
    exact ⟨start.card, out, hr⟩

end TransactionQueue

end KinesisCore

import KinesisCore.QueueContent

/-!
# The chains of the accounts

The transactions of an account have consecutive sequence numbers, so one is
found by subtraction. `findBySeq` compares with `lastSeq + 1`, which overflows
on a chain that ends at the largest sequence number: in such a chain no
transaction is found, and a ban drops nothing.

`Consistent` is the whole of what holds of a queue between two calls. A call
that drops transactions is specified here on top of `dropTransactions_ok`; such
calls take a suffix or a prefix off a chain.
-/

namespace KinesisCore

open TransactionFrameBase QueueFrame MachineInt Function List TransactionQueue Int64

variable {T E : Type} [QueueFrame T]

/-! ## Finding a sequence number -/

/-- The sequence number of an entry of a chain. -/
def seqOf (x : TimestampedTx T) : Int := (getSeqNum x.mTx).toInt

/-- The transactions of one account, in sequence. -/
structure Chained (id : AccountID) (txs : List (TimestampedTx T)) : Prop where
  source : ∀ x ∈ txs, getSourceID x.mTx = id
  positive : ∀ x ∈ txs, 0 < seqOf x
  ascending : txs.IsChain fun x y => seqOf y = seqOf x + 1

/-- The chain ends at the largest sequence number. -/
def Saturated (txs : List (TimestampedTx T)) : Prop :=
  ∃ back ∈ txs.getLast?, getSeqNum back.mTx = INT64_MAX

instance (txs : List (TimestampedTx T)) : Decidable (Saturated txs) :=
  inferInstanceAs (Decidable (∃ back ∈ txs.getLast?, _))

theorem seqOf_getElem? : ∀ {txs : List (TimestampedTx T)} {front : TimestampedTx T},
    (txs.IsChain fun x y => seqOf y = seqOf x + 1) → txs.head? = some front →
    ∀ {i : Nat} {x : TimestampedTx T}, txs[i]? = some x → seqOf x = seqOf front + i
  | [], _, _, hfront, _, _, _ => by cases hfront
  | [a], _, _, hfront, 0, x, hx => by
    cases hfront
    cases hx
    simp
  | a :: b :: txs, _, hchain, hfront, 0, x, hx => by
    cases hfront
    cases hx
    simp
  | a :: b :: txs, _, hchain, hfront, i + 1, x, hx => by
    cases hfront
    obtain ⟨hab, hrest⟩ := isChain_cons_cons.mp hchain
    have hx' := seqOf_getElem? hrest rfl hx
    omega

namespace Chained

variable {id : AccountID} {txs : List (TimestampedTx T)}

section Chain

variable (h : Chained id txs)
include h

theorem seqOf_getLast? {front back : TimestampedTx T} (hfront : txs.head? = some front)
    (hback : txs.getLast? = some back) : seqOf back = seqOf front + (txs.length - 1 : Nat) :=
  seqOf_getElem? h.ascending hfront (getLast?_eq_getElem? ▸ hback)

/-- `findBySeq` on a chain: never an assertion, and in a saturated chain never a
position. -/
theorem findBySeq_ok {front : TimestampedTx T} (hfront : txs.head? = some front)
    (seq : SequenceNumber) :
    findBySeq seq txs = .ok (if seqOf front ≤ seq.toInt ∧ seq.toInt ≤ seqOf front + txs.length
      ∧ ¬Saturated txs then some (seq.toInt - seqOf front).toNat else none) := by
  have hne : txs ≠ [] := by
    rintro rfl
    cases hfront
  obtain ⟨back, hback⟩ : ∃ back, txs.getLast? = some back :=
    ⟨txs.getLast hne, getLast?_eq_some_getLast hne⟩
  have hlast := h.seqOf_getLast? hfront hback
  have hpos := h.positive front (mem_of_head? hfront)
  have hlen : 1 ≤ txs.length := length_pos_iff.mpr hne
  have hsat : Saturated txs ↔ getSeqNum back.mTx = INT64_MAX := by
    unfold Saturated
    rw [hback]
    simp
  unfold findBySeq
  rw [hfront, hback]
  dsimp only
  by_cases hmax : getSeqNum back.mTx = INT64_MAX
  · -- the sum wraps around, and every sequence number is out of bounds
    have hout : seq < getSeqNum front.mTx ∨ seq > getSeqNum back.mTx + 1 := by
      rw [hmax, lt_iff_toInt_lt, gt_iff_lt, lt_iff_toInt_lt]
      have hwrap : (INT64_MAX + 1).toInt = -2 ^ 63 := by decide
      unfold seqOf at hpos
      omega
    rw [if_pos hout, if_neg fun hin => hin.2.2 (hsat.mpr hmax)]
    rfl
  · have hnext : (getSeqNum back.mTx + 1).toInt = seqOf back + 1 := toInt_succ hmax
    have hout : (seq < getSeqNum front.mTx ∨ seq > getSeqNum back.mTx + 1)
        ↔ ¬(seqOf front ≤ seq.toInt ∧ seq.toInt ≤ seqOf front + txs.length ∧ ¬Saturated txs) := by
      have hfirst : (getSeqNum front.mTx).toInt = seqOf front := rfl
      have hopen : ¬Saturated txs := mt hsat.mp hmax
      rw [lt_iff_toInt_lt, gt_iff_lt, lt_iff_toInt_lt, hnext]
      simp only [hopen, not_false_eq_true, and_true]
      omega
    by_cases hin : seqOf front ≤ seq.toInt ∧ seq.toInt ≤ seqOf front + txs.length ∧ ¬Saturated txs
    · rw [if_neg (mt hout.mp (not_not_intro hin)), if_pos hin]
      have hoffset : (seq - getSeqNum front.mTx).toInt = seq.toInt - seqOf front := by
        have hle := (inRange_toInt seq).2
        refine toInt_sub ⟨?_, ?_⟩
        · show _ ≤ seq.toInt - seqOf front
          omega
        · show seq.toInt - seqOf front < _
          omega
      rw [hoffset, if_neg (by omega)]
      cases hiter : txs[(seq.toInt - seqOf front).toNat]? with
      | none => rfl
      | some iter =>
        have hseq : getSeqNum iter.mTx = seq := by
          have hfound := seqOf_getElem? h.ascending hfront hiter
          refine toInt_inj.mp ?_
          show seqOf iter = _
          omega
        dsimp only
        rw [if_neg (not_not_intro hseq)]
        rfl
    · rw [if_pos (hout.mpr hin), if_neg hin]
      rfl

theorem pairwise : txs.Pairwise fun x y => seqOf x < seqOf y := by
  refine isChain_iff_pairwise.mp (h.ascending.imp fun x y hxy => ?_)
  omega

/-- No transaction is twice in a chain. -/
theorem nodup : (txs.map (·.mTx)).Nodup := by
  refine pairwise_map.mpr (h.pairwise.imp fun hlt heq => ?_)
  unfold seqOf at hlt
  rw [heq] at hlt
  exact lt_irrefl _ hlt

theorem of_segment {part : List (TimestampedTx T)} (hpart : part <:+: txs) : Chained id part :=
  ⟨fun x hx => h.source x (hpart.subset hx), fun x hx => h.positive x (hpart.subset hx),
    h.ascending.infix hpart⟩

theorem findTx_ok (hne : txs ≠ []) (tx : T) (txIter : Nat) :
    ∃ n, findTx tx txs txIter = .ok n ∧ (n = txIter ∨ n < txs.length) := by
  unfold findTx
  rw [h.findBySeq_ok (head?_eq_some_head hne)]
  dsimp only [Except.ok_bind]
  split
  · exact ⟨txIter, rfl, .inl rfl⟩
  · rename_i offset hoffset
    split
    · exact ⟨txIter, rfl, .inl rfl⟩
    · rename_i iter hiter
      have hlt : offset < txs.length := (List.getElem?_eq_some_iff.mp hiter).1
      split
      · exact ⟨offset, rfl, .inr hlt⟩
      · exact ⟨txIter, rfl, .inl rfl⟩

/-- A queued transaction is found at its place, unless the chain is saturated. -/
theorem findTx_getElem? {i : Nat} {x : TimestampedTx T} (hx : txs[i]? = some x) (txIter : Nat) :
    findTx x.mTx txs txIter = .ok (if Saturated txs then txIter else i) := by
  have hlt : i < txs.length := (List.getElem?_eq_some_iff.mp hx).1
  have hne : txs ≠ [] := ne_nil_of_length_pos (by omega)
  have hseq := seqOf_getElem? h.ascending (head?_eq_some_head hne) hx
  have hfirst : (getSeqNum x.mTx).toInt = seqOf (txs.head hne) + i := hseq
  unfold findTx
  rw [h.findBySeq_ok (head?_eq_some_head hne), hfirst]
  dsimp only [Except.ok_bind]
  by_cases hsat : Saturated txs
  · rw [if_neg fun hin => hin.2.2 hsat, if_pos hsat]
    rfl
  · have hoffset : (seqOf (txs.head hne) + i - seqOf (txs.head hne)).toNat = i := by omega
    rw [if_pos ⟨by omega, by omega, hsat⟩, if_neg hsat, hoffset]
    dsimp only
    rw [hx]
    dsimp only
    rw [if_pos rfl]
    rfl

end Chain

theorem findFirst_ok (h : Chained id txs) (hne : txs ≠ []) :
    ∀ (banTxs : List T) {txIter : Nat}, txIter ≤ txs.length →
      ∃ n ≤ txs.length, findFirst txs banTxs txIter = .ok n
  | [], txIter, hle => ⟨txIter, hle, rfl⟩
  | tx :: banTxs, txIter, hle => by
    obtain ⟨n, hfind, hn⟩ := h.findTx_ok hne tx txIter
    have hnle : n ≤ txs.length := by omega
    unfold findFirst
    split
    · rw [hfind]
      exact h.findFirst_ok hne banTxs hnle
    · split
      · rw [hfind]
        exact h.findFirst_ok hne banTxs hnle
      · exact h.findFirst_ok hne banTxs hle

/-- Banning one queued transaction starts at its place. -/
theorem findFirst_singleton (h : Chained id txs) {i : Nat} {x : TimestampedTx T}
    (hx : txs[i]? = some x) :
    findFirst txs [x.mTx] txs.length
      = .ok (if Saturated txs then txs.length else i) := by
  unfold findFirst
  rw [getElem?_eq_none le_rfl]
  rw [h.findTx_getElem? hx]
  rfl

end Chained

namespace TransactionQueue

variable [DecidableEq T]

/-! ## What holds of a queue -/

/-- The queue holds the transactions `all`, and its limiter those of `s`, which
are the same between two calls. -/
structure Consistent (q : TransactionQueue T) (all s : Finset T) : Prop where
  accounts : Accounts q q.chain all
  limiter : q.mTxQueueLimiter.Holds s
  chains : ∀ id, Chained id (q.chain id)
  mem : ∀ t, t ∈ all ↔ ∃ x ∈ q.chain (getSourceID t), x.mTx = t
  ages : ∀ id, (q.state id).mAge < q.mPendingDepth

namespace Consistent

variable {q : TransactionQueue T} {all s : Finset T} {post pre mid : List (TimestampedTx T)}
  {id : AccountID} (h : Consistent q all s)
include h

omit [DecidableEq T] in
theorem mem_all {x : TimestampedTx T} (hx : x ∈ q.chain id) : x.mTx ∈ all :=
  (h.mem x.mTx).mpr ⟨x, by rw [(h.chains id).source x hx]; exact hx, rfl⟩

variable {q' : TransactionQueue T} {s' : Finset T}

omit [DecidableEq T] in
/-- Nothing but the states, the limiter and the depth matters. -/
theorem congr (hstates : q'.mAccountStates = q.mAccountStates)
    (hlim : q'.mTxQueueLimiter.Holds s') (hdepth : q'.mPendingDepth = q.mPendingDepth) :
    Consistent q' all s' := by
  have hstate : q'.state = q.state := funext fun id => by simp only [state, hstates]
  have hchain : q'.chain = q.chain := funext fun id => by simp only [chain, hstate]
  exact
    { accounts := hchain ▸ h.accounts.congr hstates
      limiter := hlim
      chains := hchain ▸ h.chains
      mem := hchain ▸ h.mem
      ages := by rw [hstate, hdepth]; exact h.ages }

variable (hchain : q.chain id = pre ++ (mid ++ post))
include hchain

/-- What is left when a part of a chain goes. -/
theorem mem_sdiff (t : T) : t ∈ all \ txSet mid
      ↔ ∃ x ∈ update q.chain id (pre ++ post) (getSourceID t), x.mTx = t := by
  have hnodup := (h.chains id).nodup
  rw [hchain, map_append, map_append] at hnodup
  obtain ⟨-, hrest, hpre⟩ := nodup_append.mp hnodup
  obtain ⟨-, -, hpost⟩ := nodup_append.mp hrest
  rw [Finset.mem_sdiff, h.mem, mem_txSet]
  by_cases hid : getSourceID t = id
  · rw [hid, update_self, hchain]
    constructor
    · rintro ⟨⟨x, hx, rfl⟩, hnot⟩
      refine ⟨x, ?_, rfl⟩
      have hx' : x ∉ mid := fun hmid => hnot ⟨x, hmid, rfl⟩
      simpa [hx'] using hx
    · rintro ⟨x, hx, rfl⟩
      refine ⟨⟨x, by simp only [mem_append] at hx ⊢; tauto, rfl⟩, ?_⟩
      rintro ⟨y, hy, heq⟩
      have hymid : y.mTx ∈ mid.map (·.mTx) := mem_map_of_mem hy
      rcases mem_append.mp hx with hx | hx
      · exact hpre _ (mem_map_of_mem hx) _ (mem_append_left _ hymid) heq.symm
      · exact hpost _ hymid _ (mem_map_of_mem hx) heq
  · rw [update_of_ne hid]
    refine and_iff_left ?_
    rintro ⟨y, hy, rfl⟩
    exact hid ((h.chains id).source y (by rw [hchain]; simp [hy]))

/-- A queue that has lost a prefix or a suffix of a chain. -/
theorem of_dropped (hend : pre = [] ∨ post = [])
    (hchains : q'.chain = update q.chain id (pre ++ post))
    (hacc : Accounts q' q'.chain (all \ txSet mid)) (hlim : q'.mTxQueueLimiter.Holds s')
    (hages : ∀ j, (q'.state j).mAge < q'.mPendingDepth) : Consistent q' (all \ txSet mid) s' := by
  refine ⟨hacc, hlim, ?_, fun t => ?_, hages⟩
  · rw [hchains]
    refine (forall_update_iff q.chain Chained).mpr
      ⟨(h.chains id).of_segment ?_, fun j _ => h.chains j⟩
    rw [hchain]
    rcases hend with rfl | rfl
    · exact ⟨mid, [], by simp⟩
    · exact ⟨[], mid, by simp⟩
  · rw [hchains]
    exact h.mem_sdiff hchain t

/-- A prefix or a suffix of a chain is dropped. -/
theorem drop (hne : q.chain id ≠ []) (hend : pre = [] ∨ post = []) (hs : ∀ x ∈ mid, x.mTx ∈ s) :
    ∃ q', q.dropTransactions id pre.length (pre.length + mid.length) = .ok q'
      ∧ q'.chain = update q.chain id (pre ++ post)
      ∧ Consistent q' (all \ txSet mid) (s \ txSet mid) ∧ Shrunk q q' := by
  have hnodup := (h.chains id).nodup
  rw [hchain, map_append, map_append] at hnodup
  have hmid : (mid.map (·.mTx)).Nodup := (nodup_append.mp (nodup_append.mp hnodup).2.1).1
  have hmem : ∀ x ∈ mid, x.mTx ∈ all ∧ x.mTx ∈ s := fun x hx =>
    ⟨h.mem_all (show x ∈ q.chain id by rw [hchain]; simp [hx]), hs x hx⟩
  obtain ⟨q', hdrop, hchains, hacc, hholds, hshrunk⟩ :=
    dropTransactions_ok h.accounts h.limiter hchain hne hmid hmem
  refine ⟨q', hdrop, hchains, h.of_dropped hchain hend hchains hacc hholds fun j => ?_, hshrunk⟩
  rw [hshrunk.depth]
  exact (hshrunk.ages j).trans_lt (h.ages j)

end Consistent

/-! ## Banning -/

omit [QueueFrame T] [DecidableEq T] in
/-- Banning hashes changes nothing else. -/
theorem foldl_banHash {α : Type} (hash : α → Hash) :
    ∀ (l : List α) (q : TransactionQueue T), ∃ mBannedTransactions,
      l.foldl (fun q x => q.banHash (hash x)) q = { q with mBannedTransactions }
  | [], q => ⟨q.mBannedTransactions, rfl⟩
  | x :: l, q => by
    obtain ⟨b, hb⟩ : ∃ mBannedTransactions,
        q.banHash (hash x) = { q with mBannedTransactions } := by
      unfold banHash
      split
      · exact ⟨q.mBannedTransactions, rfl⟩
      · exact ⟨_, rfl⟩
    obtain ⟨b', hb'⟩ := foldl_banHash hash l (q.banHash (hash x))
    refine ⟨b', ?_⟩
    rw [foldl_cons, hb', hb]

namespace Consistent

variable {q : TransactionQueue T} {all s : Finset T}

omit [DecidableEq T] in
theorem setBanned (h : Consistent q all s) (mBannedTransactions : List (List Hash)) :
    Consistent { q with mBannedTransactions } all s :=
  h.congr rfl h.limiter rfl

variable {id : AccountID} {as : AccountState T} {n : Nat}

/-- Banning drops what follows the first banned transaction of an account. -/
theorem banFrom (h : Consistent q all s) (hne : q.chain id ≠ []) (hs : ∀ x ∈ q.chain id, x.mTx ∈ s)
    {banTxs : List T} (hn : n ≤ (q.chain id).length)
    (hfind : findFirst (q.chain id) banTxs (q.chain id).length = .ok n) :
    ∃ q', q.banFrom id banTxs = .ok q'
      ∧ q'.chain = update q.chain id ((q.chain id).take n)
      ∧ Consistent q' (all \ txSet ((q.chain id).drop n)) (s \ txSet ((q.chain id).drop n))
      ∧ Shrunk q q' := by
  obtain ⟨as, has⟩ := Option.isSome_iff_exists.mp ((h.accounts.present id).mpr (.inl hne))
  have htxs := (chain_of_some has).symm
  have hsplit : q.chain id = (q.chain id).take n ++ ((q.chain id).drop n ++ []) := by simp
  have hlen : ((q.chain id).take n).length = n := by simpa using hn
  have hend : n + ((q.chain id).drop n).length = (q.chain id).length := by
    rw [length_drop]
    omega
  obtain ⟨banned, hbanned⟩ :=
    foldl_banHash (fun iter => getFullHash iter.mTx) ((q.chain id).drop n) q
  obtain ⟨q', hdrop, hchain, hcons, hshrunk⟩ := (h.setBanned banned).drop hsplit hne (.inr rfl)
    fun x hx => hs x (mem_of_mem_drop hx)
  rw [hlen, hend] at hdrop
  refine ⟨q', ?_, by rw [hchain, append_nil]; rfl, hcons,
    ⟨⟨hshrunk.depth, hshrunk.limiter⟩, hshrunk.txs, hshrunk.ages⟩⟩
  unfold TransactionQueue.banFrom
  rw [has]
  dsimp only
  rw [htxs, if_neg (mt List.isEmpty_iff.mp hne), hfind]
  dsimp only [Except.ok_bind]
  rw [hbanned]
  exact hdrop

omit [DecidableEq T] in
theorem banFrom_nil (hnil : q.chain id = []) (banTxs : List T) : q.banFrom id banTxs = .ok q := by
  unfold TransactionQueue.banFrom
  split
  · rfl
  · rename_i as has
    rw [← chain_of_some has, if_pos (isEmpty_iff.mpr hnil)]
    rfl

/-- A call that drops some transactions, whatever the queue is like. -/
def Drops (call : TransactionQueue T → Except String (TransactionQueue T)) : Prop :=
  ∀ q all, Consistent q all all →
    ∃ q' all', call q = .ok q' ∧ all' ⊆ all ∧ Consistent q' all' all' ∧ Kept q q'

omit [DecidableEq T] in
theorem drops_foldlM {α : Type} {step : TransactionQueue T → α → Except String (TransactionQueue T)}
    (hstep : ∀ x, Drops fun q => step q x) : ∀ l : List α, Drops fun q => l.foldlM step q
  | [], q, all, h => ⟨q, all, rfl, subset_rfl, h, Kept.refl q⟩
  | x :: l, q, all, h => by
    obtain ⟨q₁, all₁, hone, hsub₁, h₁, hkept₁⟩ := hstep x q all h
    obtain ⟨q₂, all₂, hrun, hsub₂, h₂, hkept₂⟩ := drops_foldlM hstep l q₁ all₁ h₁
    refine ⟨q₂, all₂, ?_, hsub₂.trans hsub₁, h₂, hkept₁.trans hkept₂⟩
    dsimp only at hone ⊢
    rw [foldlM_cons, hone]
    exact hrun

theorem drops_banFrom (id : AccountID) (banTxs : List T) :
    Drops fun q : TransactionQueue T => q.banFrom id banTxs := by
  intro q all h
  by_cases hnil : q.chain id = []
  · exact ⟨q, all, banFrom_nil hnil banTxs, subset_rfl, h, Kept.refl q⟩
  · obtain ⟨n, hn, hfind⟩ := (h.chains id).findFirst_ok hnil banTxs le_rfl
    obtain ⟨q', hban, -, hcons, hshrunk⟩ := h.banFrom hnil (fun _ => h.mem_all) hn hfind
    exact ⟨q', _, hban, Finset.sdiff_subset, hcons, hshrunk.toKept⟩

theorem drops_ban (banTxs : List T) : Drops fun q : TransactionQueue T => q.ban banTxs := by
  intro q all h
  obtain ⟨banned, hbanned⟩ := foldl_banHash (getFullHash) banTxs q
  obtain ⟨q', all', hrun, hsub, hcons, hkept⟩ := drops_foldlM
    (fun kv : AccountID × List T => drops_banFrom kv.1 kv.2)
    (banTxs.foldl (fun groups tx => groupByAccount tx groups) []) _ all (h.setBanned banned)
  refine ⟨q', all', ?_, hsub, hcons, ⟨hkept.depth, hkept.limiter⟩⟩
  unfold TransactionQueue.ban
  dsimp only
  rw [hbanned]
  exact hrun

/-! ## After a ledger -/

omit [DecidableEq T] in
/-- An account that has a state may get another age. -/
theorem putAge (h : Accounts q q.chain all) (has : q.mAccountStates id = some as) (mAge : Nat)
    (hzero : as.mTransactions = [] → mAge = 0) :
    Accounts (q.putAccount id { as with mAge }) q.chain all
      ∧ (q.putAccount id { as with mAge }).chain = q.chain := by
  have hstate : q.state id = as := state_of_some has
  have hpresent : q.chain id ≠ [] ∨ feesOf all id ≠ 0 := (h.present id).mp (by rw [has]; rfl)
  have htxs := (chain_of_some has).symm
  refine ⟨?_, chain_putAccount_same htxs⟩
  rw [← update_eq_self id q.chain]
  refine h.put h.bids (fun _ _ => rfl) ?_ ?_ ?_ ?_ ?_ hzero
  · rw [← h.fees, hstate]
  · rw [← h.size, hstate]
  · rw [← h.unsent, hstate]
  · rw [htxs]
  · exact hpresent.imp_left fun hne => by rw [htxs]; exact hne

omit [DecidableEq T] in
theorem setAge (h : Consistent q all s) (has : q.mAccountStates id = some as) {mAge : Nat}
    (hzero : as.mTransactions = [] → mAge = 0) (hlt : mAge < q.mPendingDepth) :
    Consistent (q.putAccount id { as with mAge }) all s := by
  obtain ⟨hacc, hchain⟩ := putAge h.accounts has mAge hzero
  refine ⟨hchain.symm ▸ hacc, h.limiter, hchain.symm ▸ h.chains, hchain.symm ▸ h.mem, ?_⟩
  rw [state_putAccount]
  exact (forall_update_iff q.state fun _ as => as.mAge < q.mPendingDepth).mpr
    ⟨hlt, fun j _ => h.ages j⟩

/-- The first transactions of an account are dropped, and its age starts anew. -/
theorem removeFirst (h : Consistent q all all) (has : q.mAccountStates id = some as)
    (hne : as.mTransactions ≠ []) (hn : n ≤ as.mTransactions.length) :
    ∃ q' all', (q.putAccount id { as with mAge := 0 }).dropTransactions id 0 n = .ok q'
      ∧ all' ⊆ all ∧ Consistent q' all' all' ∧ Kept q q' := by
  have htxs := chain_of_some has
  have hchain : (q.putAccount id { as with mAge := 0 }).chain = q.chain :=
    chain_putAccount_same htxs.symm
  have hyoung := h.setAge has (fun _ => @rfl Nat 0) (Nat.zero_lt_of_lt (h.ages id))
  have hsplit : (q.putAccount id { as with mAge := 0 }).chain id
      = [] ++ (as.mTransactions.take n ++ as.mTransactions.drop n) := by
    rw [hchain, htxs, nil_append, take_append_drop]
  have hne' : (q.putAccount id { as with mAge := 0 }).chain id ≠ [] := by
    rw [hchain, htxs]
    exact hne
  obtain ⟨q', hdrop, -, hcons, hshrunk⟩ := hyoung.drop hsplit hne' (.inl rfl) fun x hx =>
    h.mem_all (htxs ▸ mem_of_mem_take hx)
  have hlen : (as.mTransactions.take n).length = n := by simpa using hn
  rw [length_nil, Nat.zero_add, hlen] at hdrop
  exact ⟨q', _, hdrop, Finset.sdiff_subset, hcons, ⟨hshrunk.depth, hshrunk.limiter⟩⟩

theorem drops_removeUpTo (id : AccountID) (seq : SequenceNumber) :
    Drops fun q : TransactionQueue T => q.removeUpTo id seq := by
  intro q all h
  dsimp only
  unfold removeUpTo
  split
  · exact ⟨q, all, rfl, subset_rfl, h, Kept.refl q⟩
  · rename_i as has
    have htxs := chain_of_some has
    split
    · exact ⟨q, all, rfl, subset_rfl, h, Kept.refl q⟩
    · rename_i front rest hfront
      split
      · exact ⟨q, all, rfl, subset_rfl, h, Kept.refl q⟩
      · have hne : as.mTransactions ≠ [] := hfront ▸ cons_ne_nil _ _
        have hhead : as.mTransactions.head? = some front := by rw [hfront]; rfl
        have hchained : Chained id as.mTransactions := htxs ▸ h.chains id
        rw [hchained.findBySeq_ok hhead]
        dsimp only [Except.ok_bind]
        split
        · exact h.removeFirst has hne le_rfl
        · exact h.removeFirst has hne (Nat.min_le_right _ _)

theorem drops_removeApplied (appliedTxs : List T) :
    Drops fun q : TransactionQueue T => q.removeApplied appliedTxs :=
  drops_foldlM (fun kv : AccountID × SequenceNumber => drops_removeUpTo kv.1 kv.2) _

omit [DecidableEq T] in
theorem dropAndBan_ok (q : TransactionQueue T) (x : TimestampedTx T) (q' : TransactionQueue T)
    (hq : q.prepareDropTransaction id x = .ok q') :
    ∃ mBannedTransactions,
      (do return (← q.prepareDropTransaction id x).banHash (getFullHash x.mTx) :
        Except String (TransactionQueue T)) = .ok { q' with mBannedTransactions } := by
  obtain ⟨banned, hbanned⟩ := foldl_banHash (fun y => getFullHash y.mTx) [x] q'
  refine ⟨banned, ?_⟩
  rw [hq, ← hbanned]
  rfl

/-- All transactions of an account are dropped and banned. -/
theorem dropAll (h : Consistent q all all) (has : q.mAccountStates id = some as)
    (hne : as.mTransactions ≠ []) (mAge : Nat) :
    ∃ q₁, as.mTransactions.foldlM (fun q toBan => do
          return (← q.prepareDropTransaction id toBan).banHash (getFullHash toBan.mTx))
        (q.putAccount id { as with mAge }) = .ok q₁
      ∧ q₁.chain = q.chain ∧ (q₁.mAccountStates id).isSome
      ∧ Accounts q₁ (update q.chain id []) (all \ txSet as.mTransactions)
      ∧ q₁.mTxQueueLimiter.Holds (all \ txSet as.mTransactions)
      ∧ Shrunk (q.putAccount id { as with mAge }) q₁ := by
  have htxs := chain_of_some has
  obtain ⟨hacc, hchain⟩ := putAge h.accounts has mAge hne.elim
  have hsplit : q.chain id = [] ++ (as.mTransactions ++ []) := by
    rw [htxs, nil_append, append_nil]
  have hmem : ∀ x ∈ as.mTransactions, x.mTx ∈ all ∧ x.mTx ∈ all := fun x hx =>
    have hall := h.mem_all (show x ∈ q.chain id from htxs ▸ hx)
    ⟨hall, hall⟩
  have hnodup : (as.mTransactions.map (·.mTx)).Nodup := htxs ▸ (h.chains id).nodup
  have hlim : (q.putAccount id { as with mAge }).mTxQueueLimiter.Holds all := h.limiter
  obtain ⟨q₁, hrun, hacc₁, hholds, hshrunk, hchain₁⟩ :=
    prepareDrop_run dropAndBan_ok as.mTransactions hacc hlim hsplit hnodup hmem
  rw [hchain] at hchain₁
  refine ⟨q₁, hrun, hchain₁, (hacc₁.present id).mpr (.inl ?_), hacc₁, hholds, hshrunk⟩
  rw [hchain₁, htxs]
  exact hne

theorem drops_ageAccount (id : AccountID) :
    Drops fun q : TransactionQueue T => q.ageAccount id := by
  intro q all h
  dsimp only
  unfold ageAccount
  split
  · exact ⟨q, all, rfl, subset_rfl, h, Kept.refl q⟩
  · rename_i as has
    have hstate : q.state id = as := state_of_some has
    have htxs := chain_of_some has
    have hold : as.mAge < q.mPendingDepth := hstate ▸ h.ages id
    dsimp only
    generalize hage : (if as.mTransactions.isEmpty = true then as.mAge else as.mAge + 1) = mAge
    have hzero : as.mTransactions = [] → mAge = 0 := by
      intro hnil
      rw [← hage, if_pos (isEmpty_iff.mpr hnil), ← hstate]
      exact h.accounts.age id (htxs.trans hnil)
    have hle : mAge ≤ as.mAge + 1 := by
      rw [← hage]
      split <;> omega
    split
    · -- one ledger older, and not yet too old
      rename_i hyoung
      have hyoung' : mAge ≠ q.mPendingDepth := hyoung
      exact ⟨_, all, rfl, subset_rfl, h.setAge has hzero (by omega), ⟨rfl, rfl⟩⟩
    · rename_i hfull
      have hfull' : mAge = q.mPendingDepth := not_not.mp hfull
      have hne : as.mTransactions ≠ [] := fun hnil => by
        have := hzero hnil
        omega
      obtain ⟨q₁, hrun, hchain₁, hthere, hacc₁, hholds, hshrunk⟩ := h.dropAll has hne mAge
      have hsplit : q.chain id = [] ++ (as.mTransactions ++ []) := by
        rw [htxs, nil_append, append_nil]
      have hkept : Kept q q₁ := ⟨hshrunk.depth, hshrunk.limiter⟩
      have hlast : ∀ j, j ≠ id → (q₁.state j).mAge < q₁.mPendingDepth := by
        intro j hj
        rw [hkept.depth]
        refine ((hshrunk.ages j).trans_eq ?_).trans_lt (h.ages j)
        rw [state_putAccount, update_of_ne hj]
      -- its age starts anew
      have hages (as : AccountState T) (hzero : as.mAge = 0) :
          ∀ j, (update q₁.state id as j).mAge < q₁.mPendingDepth :=
        (forall_update_iff q₁.state fun _ as => as.mAge < q₁.mPendingDepth).mpr
          ⟨by rw [hkept.depth]; omega, hlast⟩
      rw [hrun]
      dsimp only [bind, Except.bind]
      rw [accountState_ok hthere]
      dsimp only [Except.pure]
      rw [← hchain₁] at hacc₁
      split
      · rename_i hfees
        obtain ⟨hchain₂, hacc₂⟩ := hacc₁.eraseEmpty hfees
        rw [← hchain₂] at hacc₂
        rw [hchain₁] at hchain₂
        exact ⟨_, _, rfl, Finset.sdiff_subset, h.of_dropped hsplit (.inl rfl) hchain₂ hacc₂ hholds
          (state_eraseAccount q₁ id ▸ hages _ rfl), ⟨hkept.depth, hkept.limiter⟩⟩
      · rename_i hfees
        obtain ⟨hchain₂, hacc₂⟩ := hacc₁.setChain
          { q₁.state id with mTransactions := [], mAge := 0 }
          rfl rfl rfl rfl (.inr hfees) fun _ => rfl
        rw [← hchain₂] at hacc₂
        rw [hchain₁] at hchain₂
        exact ⟨_, _, rfl, Finset.sdiff_subset, h.of_dropped hsplit (.inl rfl) hchain₂ hacc₂ hholds
          (state_putAccount q₁ id _ ▸ hages _ rfl), ⟨hkept.depth, hkept.limiter⟩⟩

theorem shift (h : Consistent q all all) (order : List AccountID) (seed : UInt64) :
    ∃ q' all', q.shift order seed = .ok q' ∧ all' ⊆ all ∧ Consistent q' all' all'
      ∧ q'.mTxQueueLimiter.mMinFeeNeeded = (0, 0) := by
  obtain ⟨q₁, all₁, hrun, hsub, h₁, -⟩ := drops_foldlM (T := T) drops_ageAccount order _ all
    (h.setBanned ([] :: q.mBannedTransactions.dropLast))
  refine ⟨{ q₁ with
    mTxQueueLimiter := q₁.mTxQueueLimiter.resetMinFeeNeeded, mBroadcastSeed := seed },
    all₁, ?_, hsub, h₁.congr rfl (h₁.limiter.setMinFee (0, 0)) rfl, rfl⟩
  dsimp only at hrun
  unfold TransactionQueue.shift
  rw [hrun]
  rfl

omit [DecidableEq T] in
/-- A queue without accounts. -/
theorem empty (hnone : ∀ id, q.mAccountStates id = none) (hlim : q.mTxQueueLimiter.Holds ∅)
    (hdepth : 0 < q.mPendingDepth) : Consistent q ∅ ∅ := by
  have hstate : ∀ id, q.state id = {} := fun id => by rw [state, hnone]; rfl
  have hchain : ∀ id, q.chain id = [] := fun id => by rw [chain, hstate]
  exact
    { accounts := .of_fits (by simp) fun id => by
        rw [hnone, hchain]
        exact ⟨by simp [feesOf], rfl, rfl, .refl _, by simp [feesOf], fun _ => rfl⟩
      limiter := hlim
      chains := fun id => hchain id ▸ ⟨by simp, by simp, List.IsChain.nil⟩
      mem := by simp [hchain]
      ages := fun id => by rw [hstate]; exact hdepth }

omit [DecidableEq T] in
theorem clearAll (h : Consistent q all s) (seed : UInt64) : Consistent (q.clearAll seed) ∅ ∅ :=
  empty (fun _ => rfl) (TxQueueLimiter.Holds.reset q.mTxQueueLimiter seed)
    ((Nat.zero_le _).trans_lt (h.ages 0))

end Consistent

/-! ## Broadcasting again -/

/-- Forget that a transaction was broadcast. -/
def unsend (x : TimestampedTx T) : TimestampedTx T := { x with mBroadcasted := false }

variable (q : TransactionQueue T) (id : AccountID) (txs : List (TimestampedTx T))

omit [DecidableEq T] in
theorem opsIn_map_unsend : opsIn (txs.map unsend) = opsIn txs := by
  simp [opsIn, unsend, comp_def]

omit [DecidableEq T] in
theorem unsentOps_map_unsend : unsentOps (txs.map unsend) = opsIn txs := by
  rw [← opsIn_map_unsend, unsentOps, filter_eq_self.mpr]
  simp [unsend]

omit [QueueFrame T] [DecidableEq T] in
theorem state_rebroadcast : q.rebroadcast.state id = { q.state id with
      mBroadcastQueueOps := (q.state id).mQueueSizeOps
      mTransactions := (q.chain id).map unsend } := by
  have hmap : q.rebroadcast.mAccountStates id = (q.mAccountStates id).map fun as =>
      { as with
        mBroadcastQueueOps := as.mQueueSizeOps
        mTransactions := as.mTransactions.map unsend } := rfl
  rw [state, hmap, chain, state]
  cases q.mAccountStates id <;> rfl

omit [QueueFrame T] [DecidableEq T] in
theorem chain_rebroadcast :
    q.rebroadcast.chain id = (q.chain id).map unsend := by rw [chain, state_rebroadcast]

omit [DecidableEq T] in
theorem Consistent.rebroadcast {q : TransactionQueue T} {all s : Finset T}
    (h : Consistent q all s) : Consistent q.rebroadcast all s where
  accounts :=
    { bids := h.accounts.bids
      fees := fun id => by rw [state_rebroadcast]; exact h.accounts.fees id
      size := fun id => by
        rw [state_rebroadcast, chain_rebroadcast, opsIn_map_unsend]
        exact h.accounts.size id
      unsent := fun id => by
        rw [state_rebroadcast, chain_rebroadcast, unsentOps_map_unsend]
        exact h.accounts.size id
      within := fun id => List.Sublist.refl _
      present := fun id => by
        rw [chain_rebroadcast, Ne, map_eq_nil_iff, ← h.accounts.present id]
        simp [TransactionQueue.rebroadcast]
      age := fun id hnil => by
        rw [chain_rebroadcast, map_eq_nil_iff] at hnil
        rw [state_rebroadcast]
        exact h.accounts.age id hnil }
  limiter := h.limiter
  chains id := by
    rw [chain_rebroadcast]
    refine ⟨fun x hx => ?_, fun x hx => ?_, ?_⟩
    · obtain ⟨y, hy, rfl⟩ := mem_map.mp hx
      exact (h.chains id).source y hy
    · obtain ⟨y, hy, rfl⟩ := mem_map.mp hx
      exact (h.chains id).positive y hy
    · exact (isChain_map unsend).mpr (h.chains id).ascending
  mem t := by
    rw [h.mem, chain_rebroadcast]
    simp [unsend]
  ages id := by
    rw [state_rebroadcast]
    exact h.ages id

end TransactionQueue

end KinesisCore

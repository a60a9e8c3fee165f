import KinesisCore.Transaction

/-!
# The order in which a set is applied

`TxSetFrame::sortForApply` drains the per-account queues: round `i` takes
the front of every queue that still has one, sorts what it took by full
hash xored with the hash of the set, and appends it to the result. The
queues sit in a hash map, so within a round the fronts come in an order
that is not ours.

Nothing of that order is left in the result. A transaction's round is its
rank among the transactions of its account (`rank`), a number that depends
on the set only, and a batch is a strictly ascending list, which its
members determine. `ApplyOrder` is that description; any two lists of
batches that meet it are equal (`ApplyOrder.unique`).
-/

namespace KinesisCore

open TransactionFrameBase HashFunction List Int64

variable {T : Type}

/-! ## Draining the queues -/

variable {setHash : Hash}

/-- One pass over the map: the front of each queue, and the queues that
still hold something. -/
def popFronts : List (List T) → List T × List (List T)
  | [] => ([], [])
  | [] :: queues => popFronts queues
  | [tx] :: queues =>
    let (batch, rest) := popFronts queues
    (tx :: batch, rest)
  | (tx :: tx' :: queue) :: queues =>
    let (batch, rest) := popFronts queues
    (tx :: batch, (tx' :: queue) :: rest)

theorem popFronts_fst (queues : List (List T)) :
    (popFronts queues).1 = queues.filterMap (·[0]?) := by
  fun_induction popFronts queues <;> simp_all

theorem popFronts_snd (queues : List (List T)) (i : Nat) :
    (popFronts queues).2.filterMap (·[i]?) = queues.filterMap (·[i + 1]?) := by
  fun_induction popFronts queues with
  | case1 => rfl
  | case2 queues ih => simpa using ih
  | case3 tx queues batch rest heq ih =>
    rw [heq] at ih
    simpa using ih
  | case4 tx tx' queue queues batch rest heq ih =>
    rw [heq] at ih
    simp only [filterMap_cons, getElem?_cons_succ, ih]

variable {queues : List (List T)} {txs' : List T} {i : Nat}

theorem popFronts_snd_ne_nil {queue : List T} (h : queue ∈ (popFronts queues).2) : queue ≠ [] := by
  fun_induction popFronts queues <;> grind

/-- How much is left to drain. -/
def remaining (queues : List (List T)) : Nat := (queues.map fun q => q.length + 1).sum

theorem remaining_popFronts (queues : List (List T)) :
    remaining (popFronts queues).2 + queues.length ≤ remaining queues := by
  fun_induction popFronts queues <;> simp_all [remaining] <;> omega

/-- The `while` loop: round after round until the map is empty. -/
def drain (queues : List (List T)) : List (List T) :=
  if _h : queues = [] then []
  else (popFronts queues).1 :: drain (popFronts queues).2
termination_by remaining queues
decreasing_by
  have hlen : queues.length ≠ 0 := by simpa using ‹¬queues = []›
  have := remaining_popFronts queues
  omega

/-- Round `i` takes the `i`-th transaction of every queue that has one. -/
theorem drain_getElem {batch : List T} (h : (drain queues)[i]? = some batch) :
    batch = queues.filterMap (·[i]?) := by
  induction i generalizing queues with
  | zero =>
    rw [drain] at h
    split at h
    · simp at h
    · rw [popFronts_fst] at h
      exact (Option.some.inj h).symm
  | succ i ih =>
    rw [drain] at h
    split at h
    · simp at h
    · rw [ih h, popFronts_snd]

/-- There are as many rounds as the longest queue is long. -/
theorem lt_drain_length_iff (hne : ∀ q ∈ queues, q ≠ []) :
    i < (drain queues).length ↔ queues.filterMap (·[i]?) ≠ [] := by
  induction i generalizing queues with
  | zero =>
    rw [drain]
    split
    · simp_all
    · rename_i hqueues
      obtain ⟨q, hq⟩ := exists_mem_of_ne_nil _ hqueues
      simp only [length_cons, Nat.zero_lt_succ, true_iff, ne_eq, filterMap_eq_nil_iff]
      intro hall
      have := hall q hq
      rw [getElem?_eq_none_iff] at this
      exact hne q hq (length_eq_zero_iff.mp (by omega))
  | succ i ih =>
    rw [drain]
    split
    · simp_all
    · rw [length_cons, Nat.succ_lt_succ_iff, ih fun _ => popFronts_snd_ne_nil,
        popFronts_snd]

/-! ## The order as a property of the set -/

variable [TransactionFrameBase T]

/-- No two transactions with one full hash, or with one account and one
sequence number. -/
structure DistinctTxs (txs : List T) : Prop where
  hash_nodup : (txs.map getFullHash).Nodup
  seq_inj : ∀ a ∈ txs, ∀ b ∈ txs, getSourceID a = getSourceID b →
    getSeqNum a = getSeqNum b → a = b

/-- How many transactions of the same account come before `tx`. -/
def rank (txs : List T) (tx : T) : Nat :=
  txs.countP fun u => getSourceID u = getSourceID tx ∧ getSeqNum u < getSeqNum tx

/-- The batches of an apply order: batch `i` holds the transactions of rank
`i`, in the order of their hashes xored with the hash of the set. -/
structure ApplyOrder (setHash : Hash) (txs : List T) (batches : List (List T)) : Prop where
  nonempty : [] ∉ batches
  complete : ∀ tx ∈ txs, rank txs tx < batches.length
  mem : ∀ i batch, batches[i]? = some batch → ∀ tx, tx ∈ batch ↔ tx ∈ txs ∧ rank txs tx = i
  ordered : ∀ batch ∈ batches, batch.Pairwise fun a b => applyTxSorter setHash a b = true

variable {txs : List T}

theorem DistinctTxs.nodup (h : DistinctTxs txs) : txs.Nodup := List.Nodup.of_map _ h.hash_nodup

theorem DistinctTxs.hash_toNat_nodup (h : DistinctTxs txs) :
    (txs.map fun tx => ((getFullHash tx).toNat : Int)).Nodup := by
  have hmap := h.hash_nodup.map (f := fun h : Hash => (h.toNat : Int)) fun a b hab => by
    simpa [BitVec.toNat_inj] using hab
  rwa [map_map] at hmap

theorem DistinctTxs.perm (h : DistinctTxs txs) (hperm : txs.Perm txs') :
    DistinctTxs txs' where
  hash_nodup := (hperm.map getFullHash).nodup_iff.mp h.hash_nodup
  seq_inj a ha b hb := h.seq_inj a (hperm.mem_iff.mpr ha) b (hperm.mem_iff.mpr hb)

theorem rank_perm (hperm : txs.Perm txs') (tx : T) : rank txs tx = rank txs' tx := hperm.countP_eq _

theorem ApplyOrder.perm {batches : List (List T)} (h : ApplyOrder setHash txs batches)
    (hperm : txs.Perm txs') :
    ApplyOrder setHash txs' batches where
  nonempty := h.nonempty
  complete tx htx := by
    rw [← rank_perm hperm]
    exact h.complete tx (hperm.mem_iff.mpr htx)
  mem i batch hi tx := by
    rw [h.mem i batch hi tx, hperm.mem_iff, rank_perm hperm]
  ordered := h.ordered

theorem applyTxSorter_irrefl (h : Hash) (tx : T) : ¬applyTxSorter h tx tx = true := by
  rw [applyTxSorter_byKey h tx tx]
  omega

theorem applyTxSorter_asymm {h : Hash} {a b : T} (hab : applyTxSorter h a b = true) :
    ¬applyTxSorter h b a = true := by
  rw [applyTxSorter_byKey h] at hab ⊢
  omega

variable {b : List (List T)}

section Order

variable (h : ApplyOrder setHash txs b)
include h

variable {b' : List (List T)}

theorem ApplyOrder.length_le (h' : ApplyOrder setHash txs b') : b.length ≤ b'.length := by
  by_contra hlt
  -- the batch past the end of `b'` holds a transaction, whose rank is too large for `b'`
  have hbatch : b[b'.length]? = some (b[b'.length]) := getElem?_eq_getElem (by omega)
  have hne : b[b'.length] ≠ [] := fun hnil => h.nonempty (hnil ▸ getElem_mem _)
  obtain ⟨tx, htx⟩ := exists_mem_of_ne_nil _ hne
  obtain ⟨hmem, hrank⟩ := (h.mem _ _ hbatch tx).mp htx
  have := h'.complete tx hmem
  omega

/-- The set determines its batches. -/
theorem ApplyOrder.unique (h' : ApplyOrder setHash txs b') : b = b' := by
  have hlen : b.length = b'.length := Nat.le_antisymm (h.length_le h') (h'.length_le h)
  have hirrefl : Std.Irrefl fun a b : T => applyTxSorter setHash a b = true :=
    ⟨applyTxSorter_irrefl setHash⟩
  have hantisymm : Std.Antisymm fun a b : T => applyTxSorter setHash a b = true :=
    ⟨fun _ _ hab hba => absurd hba (applyTxSorter_asymm hab)⟩
  refine ext_getElem hlen fun i hi hi' => ?_
  refine (h.ordered _ (getElem_mem hi)).eq_of_mem_iff
    (h'.ordered _ (getElem_mem hi')) fun tx => ?_
  rw [h.mem i _ (getElem?_eq_getElem hi), h'.mem i _ (getElem?_eq_getElem hi')]

theorem ApplyOrder.mem_flatten {tx : T} : tx ∈ b.flatten ↔ tx ∈ txs := by
  rw [List.mem_flatten]
  constructor
  · rintro ⟨batch, hbatch, htx⟩
    obtain ⟨i, hi⟩ := List.getElem?_of_mem hbatch
    exact ((h.mem i batch hi tx).mp htx).1
  · intro htx
    have hlt := h.complete tx htx
    exact ⟨b[rank txs tx], getElem_mem hlt,
      (h.mem _ _ (getElem?_eq_getElem hlt) tx).mpr ⟨htx, rfl⟩⟩

theorem ApplyOrder.perm_flatten (hnodup : txs.Nodup) : b.flatten.Perm txs := by
  rw [perm_ext_iff_of_nodup ?_ hnodup]
  · exact fun tx => h.mem_flatten
  · rw [nodup_flatten]
    constructor
    · intro batch hbatch
      refine List.Pairwise.imp (fun {x y} hxy => ?_) (h.ordered batch hbatch)
      rintro rfl
      exact applyTxSorter_irrefl setHash x hxy
    · rw [pairwise_iff_getElem]
      intro i j hi hj hij tx htxi htxj
      have hri := ((h.mem i _ (getElem?_eq_getElem hi) tx).mp htxi).2
      have hrj := ((h.mem j _ (getElem?_eq_getElem hj) tx).mp htxj).2
      omega

omit h in
/-- Ranks follow sequence numbers within an account. -/
theorem rank_lt_rank {a b : T} (ha : a ∈ txs) (hid : getSourceID a = getSourceID b)
    (hseq : getSeqNum a < getSeqNum b) :
    rank txs a < rank txs b := by
  refine Stl.countP_lt_countP ha ?_ (by simp [hid, hseq]) (by simp)
  intro u _ hu
  simp only [decide_eq_true_eq, lt_iff_toInt_lt] at hu hseq ⊢
  exact ⟨hu.1.trans hid, by omega⟩

/-- Along the order, the transactions of one account ascend. -/
theorem ApplyOrder.ascending (hdist : DistinctTxs txs) (id : AccountID) :
    (b.flatten.filter fun tx => getSourceID tx = id).Pairwise
      fun x y => getSeqNum x < getSeqNum y := by
  -- a smaller rank, or a different transaction of the same rank, has the smaller number
  have hseq : ∀ {x y : T}, x ∈ txs → y ∈ txs → getSourceID x = getSourceID y →
      rank txs x ≤ rank txs y → x ≠ y → getSeqNum x < getSeqNum y := by
    intro x y hx hy hid hrank hne
    by_contra hlt
    have heq : getSeqNum y ≠ getSeqNum x := fun he => hne (hdist.seq_inj x hx y hy hid he.symm)
    have := rank_lt_rank hy hid.symm (Int64.lt_of_le_of_ne (Int64.not_lt.mp hlt) heq)
    omega
  rw [pairwise_filter, pairwise_flatten]
  constructor
  · intro batch hbatch
    obtain ⟨i, hi⟩ := getElem?_of_mem hbatch
    refine List.Pairwise.imp_of_mem ?_ (h.ordered batch hbatch)
    intro x y hx hy hxy hidx hidy
    obtain ⟨hx, hrx⟩ := (h.mem i batch hi x).mp hx
    obtain ⟨hy, hry⟩ := (h.mem i batch hi y).mp hy
    simp only [decide_eq_true_eq] at hidx hidy
    refine hseq hx hy (hidx.trans hidy.symm) (by omega) ?_
    rintro rfl
    exact applyTxSorter_irrefl setHash x hxy
  · rw [pairwise_iff_getElem]
    intro i j hi hj hij x hx y hy hidx hidy
    obtain ⟨hx, hrx⟩ := (h.mem i _ (getElem?_eq_getElem hi) x).mp hx
    obtain ⟨hy, hry⟩ := (h.mem j _ (getElem?_eq_getElem hj) y).mp hy
    simp only [decide_eq_true_eq] at hidx hidy
    refine hseq hx hy (hidx.trans hidy.symm) (by omega) ?_
    rintro rfl
    omega

end Order

/-! ## The queues and the rank -/

namespace TxSetFrame

theorem queue_ascending (I : Stl.Impl) (hdist : DistinctTxs txs) (id : AccountID) :
    (I.sort seqSorter (txs.filter fun tx => getSourceID tx = id)).Pairwise
      fun a b => (getSeqNum a).toInt < (getSeqNum b).toInt := by
  refine I.sort_key_lt seqSorter_byKey (List.Nodup.map_on ?_ (hdist.nodup.filter _))
  intro a ha b hb hseq
  simp only [mem_filter, decide_eq_true_eq] at ha hb
  exact hdist.seq_inj a ha.1 b hb.1 (ha.2.trans hb.2.symm) (toInt_inj.mp hseq)

/-- The position of a transaction in the queue of its account is its rank. -/
theorem queue_getElem_iff (I : Stl.Impl) (hdist : DistinctTxs txs) {id : AccountID} {tx : T} :
    (I.sort seqSorter (txs.filter fun u => getSourceID u = id))[i]? = some tx
      ↔ tx ∈ txs ∧ getSourceID tx = id ∧ rank txs tx = i := by
  have hrank : ∀ {j : Nat}, getSourceID tx = id →
      (I.sort seqSorter (txs.filter fun u => getSourceID u = id))[j]? = some tx →
      rank txs tx = j := by
    intro j hid hj
    rw [← Stl.countP_lt_of_getElem (queue_ascending I hdist id) hj,
      (I.sort_perm seqSorter_byKey _).countP_eq, countP_filter]
    refine countP_congr fun u _ => ?_
    simp [hid, lt_iff_toInt_lt, and_comm]
  constructor
  · intro hi
    have hmem := (I.mem_sort seqSorter_byKey).mp (mem_of_getElem? hi)
    simp only [mem_filter, decide_eq_true_eq] at hmem
    exact ⟨hmem.1, hmem.2, hrank hmem.2 hi⟩
  · rintro ⟨htx, hid, rfl⟩
    have hmem : tx ∈ I.sort seqSorter (txs.filter fun u => getSourceID u = id) := by
      rw [I.mem_sort seqSorter_byKey]
      simp [htx, hid]
    obtain ⟨j, hj⟩ := getElem?_of_mem hmem
    rw [hrank hid hj]
    exact hj

section

variable [HashFunction] {s : TxSetFrame T}

variable (I : Stl.Impl)

/-- What round `i` takes from the queues. -/
theorem mem_round_iff (hdist : DistinctTxs s.mTransactions) {tx : T} :
    tx ∈ ((s.buildAccountTxQueues I).map Prod.snd).filterMap (·[i]?)
      ↔ tx ∈ s.mTransactions ∧ rank s.mTransactions tx = i := by
  simp only [mem_filterMap, mem_map, Prod.exists, exists_eq_right]
  constructor
  · rintro ⟨queue, ⟨id, hqueue⟩, hi⟩
    obtain ⟨rfl, -⟩ := mem_buildAccountTxQueues.mp hqueue
    obtain ⟨htx, -, hrank⟩ := (queue_getElem_iff I hdist).mp hi
    exact ⟨htx, hrank⟩
  · rintro ⟨htx, hrank⟩
    have hi := (queue_getElem_iff I hdist).mpr ⟨htx, rfl, hrank⟩
    refine ⟨_, ⟨getSourceID tx, mem_buildAccountTxQueues.mpr ⟨rfl, fun hnil => ?_⟩⟩, hi⟩
    rw [hnil] at hi
    simp at hi

theorem nodup_round (s : TxSetFrame T) (i : Nat) :
    (((s.buildAccountTxQueues I).map Prod.snd).filterMap (·[i]?)).Nodup := by
  have hkeys := nodup_buildAccountTxQueues I s
  rw [List.Nodup, pairwise_map] at hkeys
  rw [filterMap_map, List.Nodup, pairwise_filterMap]
  refine List.Pairwise.imp_of_mem ?_ hkeys
  rintro ⟨id, queue⟩ ⟨id', queue'⟩ hq hq' hne tx htx tx' htx' rfl
  -- one transaction cannot come from the queues of two accounts
  have hsource : ∀ {id queue}, (id, queue) ∈ s.buildAccountTxQueues I → queue[i]? = some tx →
      getSourceID tx = id := by
    intro id queue hq hi
    obtain ⟨rfl, -⟩ := mem_buildAccountTxQueues.mp hq
    have hmem := (I.mem_sort seqSorter_byKey).mp (mem_of_getElem? hi)
    simpa using (mem_filter.mp hmem).2
  exact hne ((hsource hq htx).symm.trans (hsource hq' htx'))

/-! ## `sortForApply` -/

/-- The second loop: sort each batch by the set's hash and append it. -/
def appendBatches (I : Stl.Impl) : List (List T) → TxSetFrame T → List T × TxSetFrame T
  | [], s => ([], s)
  | batch :: batches, s =>
    let (setHash, s) := s.getContentsHash I
    let (retList, s) := appendBatches I batches s
    (I.sort (applyTxSorter setHash) batch ++ retList, s)

def sortForApply (s : TxSetFrame T) : List T × TxSetFrame T :=
  appendBatches I (drain ((s.buildAccountTxQueues I).map Prod.snd)) s

/-- Asking again for the hash gives the same hash. -/
theorem getContentsHash_again (s : TxSetFrame T) :
    ((s.getContentsHash I).2.getContentsHash I).1 = (s.getContentsHash I).1 := by
  cases hhash : s.mHash with
  | none | some h => simp [getContentsHash, hhash]

theorem appendBatches_fst (batches : List (List T)) (s : TxSetFrame T) :
    (appendBatches I batches s).1
      = (batches.map (I.sort (applyTxSorter (s.getContentsHash I).1))).flatten := by
  induction batches generalizing s with
  | nil => rfl
  | cons batch batches ih =>
    simp only [appendBatches, map_cons, flatten_cons, ih, getContentsHash_again]

/-- With distinct hashes, the hash of the set is that of its transactions in
hash order, remembered or not and whoever sorts. -/
theorem getContentsHash_fst (I J : Stl.Impl) (hdist : DistinctTxs s.mTransactions) :
    (s.getContentsHash I).1
      = sha256 (setContents s.mPreviousLedgerHash (J.sort hashTxSorter s.mTransactions)) := by
  have hnodup := hdist.hash_toNat_nodup
  cases hhash : s.mHash with
  | none =>
    simp only [getContentsHash, hhash]
    rw [I.sort_eq_of_perm J hashTxSorter_byKey (.refl _) hnodup]
  | some h =>
    obtain ⟨hsorted, rfl⟩ := s.hash_ok h hhash
    have hne := hnodup
    rw [List.Nodup, pairwise_map] at hne
    have hself : J.sort hashTxSorter s.mTransactions = s.mTransactions :=
      J.sort_eq_self hashTxSorter_byKey ((hsorted.and hne).imp fun h => by omega)
    simp only [getContentsHash, hhash, hself]

theorem getContentsHash_eq_of_perm (I J : Stl.Impl) {s' : TxSetFrame T}
    (hprev : s.mPreviousLedgerHash = s'.mPreviousLedgerHash)
    (hperm : s.mTransactions.Perm s'.mTransactions) (hdist : DistinctTxs s.mTransactions) :
    (s.getContentsHash I).1 = (s'.getContentsHash J).1 := by
  rw [getContentsHash_fst I I hdist, getContentsHash_fst J I (hdist.perm hperm), hprev,
    I.sort_eq_of_perm I hashTxSorter_byKey hperm hdist.hash_toNat_nodup]

/-- Xored with any hash, the hashes of a round are distinct. -/
theorem round_keys_nodup (I : Stl.Impl) (hdist : DistinctTxs s.mTransactions) (h : Hash) (i : Nat) :
    ((((s.buildAccountTxQueues I).map Prod.snd).filterMap (·[i]?)).map
      fun tx => ((h ^^^ getFullHash tx).toNat : Int)).Nodup := by
  refine List.Nodup.map_on ?_ (nodup_round I s i)
  intro a ha b hb hab
  have hxor : h ^^^ getFullHash a = h ^^^ getFullHash b := BitVec.toNat_inj.mp (by omega)
  have hhash : getFullHash a = getFullHash b := (BitVec.xor_right_inj h).mp hxor
  exact inj_on_of_nodup_map hdist.hash_nodup ((mem_round_iff I hdist).mp ha).1
    ((mem_round_iff I hdist).mp hb).1 hhash

/-- The batches of `sortForApply`, each sorted, are the apply order of the
set. -/
theorem sortForApply_applyOrder (I : Stl.Impl) (hdist : DistinctTxs s.mTransactions) :
    ∃ batches, (s.sortForApply I).1 = batches.flatten
      ∧ ApplyOrder (s.getContentsHash I).1 s.mTransactions batches := by
  have hbyKey := applyTxSorter_byKey (T := T) (s.getContentsHash I).1
  have hne : ∀ q ∈ (s.buildAccountTxQueues I).map Prod.snd, q ≠ [] := by
    intro q hq
    obtain ⟨⟨id, q⟩, hmem, rfl⟩ := mem_map.mp hq
    exact (mem_buildAccountTxQueues.mp hmem).2
  have hbatch : ∀ {i : Nat} {batch},
      ((drain ((s.buildAccountTxQueues I).map Prod.snd)).map
        (I.sort (applyTxSorter (s.getContentsHash I).1)))[i]? = some batch →
      batch = I.sort (applyTxSorter (s.getContentsHash I).1)
          (((s.buildAccountTxQueues I).map Prod.snd).filterMap (·[i]?))
        ∧ ((s.buildAccountTxQueues I).map Prod.snd).filterMap (·[i]?) ≠ [] := by
    intro i batch hi
    rw [getElem?_map, Option.map_eq_some_iff] at hi
    obtain ⟨round, hround, rfl⟩ := hi
    rw [drain_getElem hround]
    exact ⟨rfl, (lt_drain_length_iff hne).mp (List.getElem?_eq_some_iff.mp hround).1⟩
  refine ⟨_, appendBatches_fst I _ s, ?_, ?_, ?_, ?_⟩
  · intro hnil
    obtain ⟨i, hi⟩ := getElem?_of_mem hnil
    obtain ⟨heq, hround⟩ := hbatch hi
    have hperm := I.sort_perm hbyKey (((s.buildAccountTxQueues I).map Prod.snd).filterMap (·[i]?))
    rw [← heq] at hperm
    exact hround hperm.symm.eq_nil
  · intro tx htx
    rw [length_map, lt_drain_length_iff hne]
    exact ne_nil_of_mem ((mem_round_iff I hdist).mpr ⟨htx, rfl⟩)
  · intro i batch hi tx
    rw [(hbatch hi).1, I.mem_sort hbyKey, mem_round_iff I hdist]
  · intro batch hmem
    obtain ⟨i, hi⟩ := getElem?_of_mem hmem
    rw [(hbatch hi).1]
    refine (I.sort_key_lt hbyKey (round_keys_nodup I hdist _ i)).imp fun {a b} hab => ?_
    exact (hbyKey a b).mpr hab

/-- Apply order is a function of the set: two frames over one ledger that
hold the same transactions, in any order and with any library, apply them
in the same order. The order is the set, rank by rank and within a rank by
xored hash; along it the transactions of an account ascend. -/
theorem sortForApply_deterministic (I J : Stl.Impl) (s s' : TxSetFrame T)
    (hprev : s.mPreviousLedgerHash = s'.mPreviousLedgerHash)
    (hperm : s.mTransactions.Perm s'.mTransactions) (hdist : DistinctTxs s.mTransactions) :
    (s.sortForApply I).1 = (s'.sortForApply J).1
      ∧ (s.sortForApply I).1.Perm s.mTransactions
      ∧ (∀ id, ((s.sortForApply I).1.filter fun tx => getSourceID tx = id).Pairwise
          fun x y => getSeqNum x < getSeqNum y)
      ∧ ∃ batches, (s.sortForApply I).1 = batches.flatten
        ∧ ApplyOrder (s.getContentsHash I).1 s.mTransactions batches := by
  obtain ⟨batches, hflat, horder⟩ := sortForApply_applyOrder I hdist
  obtain ⟨batches', hflat', horder'⟩ := sortForApply_applyOrder J (hdist.perm hperm)
  rw [← getContentsHash_eq_of_perm I J hprev hperm hdist] at horder'
  have hsame : batches = batches' := horder.unique (horder'.perm hperm.symm)
  rw [hflat, hflat', hsame]
  refine ⟨rfl, ?_, ?_, batches', rfl, hsame ▸ horder⟩
  · exact (hsame ▸ horder).perm_flatten hdist.nodup
  · exact (hsame ▸ horder).ascending hdist

end

/-- A payment of account `source`, told apart by its envelope. -/
def samplePayment (source : AccountID) (seqNum : SequenceNumber) (envelope : UInt8) : Tx :=
  .plain { sourceAccount := source, fee := 100, seqNum, envelope := [envelope],
           operations := [{ body := .payment 9 true 5 }] }

open Evaluation

/-- Two transactions of account 1 and one of account 2, in two orders. -/
theorem sortForApply_deterministic_two_orders :
    let a := samplePayment 1 7 30
    let b := samplePayment 1 8 20
    let c := samplePayment 2 4 10
    let s := fresh 0 [b, c, a]
    let s' := fresh 0 [a, b, c]
    DistinctTxs s.mTransactions
      ∧ (s.sortForApply Stl.insertion).1 = (s'.sortForApply Stl.insertion).1 := by
  have hdist : DistinctTxs [samplePayment 1 8 20, samplePayment 2 4 10, samplePayment 1 7 30] := by
    constructor
    · decide
    · decide
  exact ⟨hdist, (sortForApply_deterministic Stl.insertion Stl.insertion
    (fresh 0 [samplePayment 1 8 20, samplePayment 2 4 10, samplePayment 1 7 30])
    (fresh 0 [samplePayment 1 7 30, samplePayment 1 8 20, samplePayment 2 4 10])
    rfl (by decide) hdist).1⟩

end TxSetFrame

end KinesisCore

import Mathlib.Algebra.Order.BigOperators.Group.List
import Mathlib.Data.List.TakeWhile
import KinesisCore.FeeBumpTotal

/-!
# What trimming and surge pricing leave

A node nominates the set it gets from its queue by `trimInvalid` and then
`surgePricingFilter`, and expects `checkValid` to agree. The argument goes
account by account. Trimming leaves, of each queue, the chain of
transactions that are valid one after the other (`validChain`), up to the
first one its fee source cannot pay; surge pricing leaves a prefix of that.
A prefix of a chain is a chain, so the first pass of the check succeeds. In
the second pass every fee source is asked for no more than before, as long
as no bid is negative: leaving out a negative bid would raise a total.
-/

namespace KinesisCore

open TransactionFrameBase MachineInt List Except

variable {T E : Type} [TransactionFrameBase T]

/-! ## Chains -/

variable {lastSeq : SequenceNumber} {queue : List T} {ltx : LedgerTxn E}

section Chains

variable (valid : T → SequenceNumber → Except String Bool)

/-- The chain of valid transactions of a queue: each is valid after the one
before it, and what is not is skipped. -/
def validChain : List T → SequenceNumber → List T
  | [], _ => []
  | tx :: queue, lastSeq =>
    if valid tx lastSeq = .ok true then tx :: validChain queue (getSeqNum tx)
    else validChain queue lastSeq

/-- Each transaction of a list is valid after the one before it. -/
def IsChain : List T → SequenceNumber → Prop
  | [], _ => True
  | tx :: queue, lastSeq => valid tx lastSeq = .ok true ∧ IsChain queue (getSeqNum tx)

variable {valid}

variable {tx : T}

/-- What the validity of single transactions has to satisfy: a valid
transaction's sequence number is one more than the given one (or its
account's, for zero), and its fee source can be read. -/
structure LawfulValidity (valid : T → SequenceNumber → Except String Bool) (ltx : LedgerTxn E) :
    Prop where
  seq : ∀ tx lastSeq, valid tx lastSeq = .ok true → ∃ acc,
    ltx.accounts (getSourceID tx) = some acc ∧ 0 ≤ acc.seqNum.toInt
      ∧ (getSeqNum tx).toInt = (if lastSeq = 0 then acc.seqNum else lastSeq).toInt + 1
  feeSource : ∀ tx lastSeq, valid tx lastSeq = .ok true → ∃ acc avail,
    ltx.accounts (getFeeSourceID tx) = some acc
      ∧ getAvailableBalance ltx.header acc = .ok avail

/-- After a nonzero number a chain goes on with larger ones. -/
theorem IsChain.seq_gt (hlaw : LawfulValidity valid ltx) (hpos : 0 < lastSeq.toInt)
    (h : IsChain valid queue lastSeq) :
    ∀ tx ∈ queue, lastSeq.toInt < (getSeqNum tx).toInt := by
  induction queue generalizing lastSeq with
  | nil => intro tx htx; cases htx
  | cons tx queue ih =>
    obtain ⟨acc, -, -, hseq⟩ := hlaw.seq _ _ h.1
    have hne : lastSeq ≠ 0 := by rintro rfl; simp at hpos
    rw [if_neg hne] at hseq
    intro u hu
    rcases mem_cons.mp hu with rfl | hu
    · omega
    · have := ih (by omega) h.2 u hu
      omega

/-- The sequence numbers of a chain ascend. -/
theorem IsChain.ascending (hlaw : LawfulValidity valid ltx) (hnonneg : 0 ≤ lastSeq.toInt)
    (h : IsChain valid queue lastSeq) :
    queue.Pairwise fun a b => (getSeqNum a).toInt < (getSeqNum b).toInt := by
  induction queue generalizing lastSeq with
  | nil => exact .nil
  | cons tx queue ih =>
    obtain ⟨acc, -, hacc, hseq⟩ := hlaw.seq _ _ h.1
    have hpos : 0 < (getSeqNum tx).toInt := by
      split at hseq <;> omega
    exact .cons (h.2.seq_gt hlaw hpos) (ih (by omega) h.2)

end Chains

/-! ## The two passes of `checkOrTrim` -/

section Passes

variable [DecidableEq T] {valid : T → SequenceNumber → Except String Bool} {ltx : LedgerTxn E}
  {st : TrimState T} {queues : List (List T)}

variable {rest : List T}

section Lawful

variable (hlaw : LawfulValidity valid ltx)
include hlaw

end Lawful

end Passes

/-! ## Totals by fee source -/

variable {txs : List T}

section Totals

end Totals

/-! ## The set after trimming -/

namespace TxSetFrame

variable [HashFunction]

/-- Cut down every queue by one rule, and put together what is left: each
account gets its own back. -/
theorem filter_flatten_map_queues (I : Stl.Impl) (s : TxSetFrame T) {K : List T → List T}
    (hnil : K [] = []) (hsub : ∀ queue, ∀ tx ∈ K queue, tx ∈ queue) (id : AccountID) :
    ((((s.buildAccountTxQueues I).map Prod.snd).map K).flatten.filter
      fun tx => getSourceID tx = id) = K (s.accountQueue I id) := by
  have hmap : ((s.buildAccountTxQueues I).map Prod.snd).map K
      = ((s.buildAccountTxQueues I).map fun e => (e.1, K e.2)).map Prod.snd := by
    simp only [map_map]
    rfl
  have hkeys : ((s.buildAccountTxQueues I).map fun e => (e.1, K e.2)).map Prod.fst
      = (s.buildAccountTxQueues I).map Prod.fst := by
    simp only [map_map]
    rfl
  rw [hmap]
  refine Stl.filter_flatten_queues ?_ ?_ ?_
  · rw [hkeys]
    exact nodup_buildAccountTxQueues I s
  · intro e he tx htx
    obtain ⟨⟨id', queue⟩, hqueue, rfl⟩ := mem_map.mp he
    obtain ⟨rfl, -⟩ := mem_buildAccountTxQueues.mp hqueue
    exact (mem_accountQueue.mp (hsub _ tx htx)).2
  · by_cases hempty : s.accountQueue I id = []
    · right
      refine ⟨?_, by rw [hempty, hnil]⟩
      rw [hkeys]
      intro hmem
      obtain ⟨⟨id', queue⟩, hqueue, rfl⟩ := mem_map.mp hmem
      obtain ⟨rfl, hne⟩ := mem_buildAccountTxQueues.mp hqueue
      exact hne hempty
    · left
      exact mem_map.mpr ⟨_, mem_buildAccountTxQueues.mpr ⟨rfl, hempty⟩, rfl⟩

theorem filter_flatten_queues (I : Stl.Impl) (s : TxSetFrame T) (id : AccountID) :
    (((s.buildAccountTxQueues I).map Prod.snd).flatten.filter fun tx => getSourceID tx = id)
      = s.accountQueue I id := by
  have hqueue := filter_flatten_map_queues I s (K := fun queue => queue) rfl (fun _ _ h => h) id
  rwa [map_id'] at hqueue

variable [CheckValid T E] (I : Stl.Impl) (s : TxSetFrame T) (lcl : LastClosedLedger E)
  (lo hi : UInt64) (id : AccountID)

/-- All chains of a set, put together. -/
def chains : List T :=
  (((s.buildAccountTxQueues I).map Prod.snd).map fun queue =>
    validChain (fun tx lastSeq => CheckValid.checkValid tx lcl.ledger lastSeq lo hi) queue
      0).flatten

variable [DecidableEq T]

end TxSetFrame

/-! ## The set after surge pricing -/

section Surge

variable {surgeQueue : List (T × List T)} {updatedSet : List T}

/-- Between what has been taken and what waits nothing is missing: of each
account, `K` is the taken part followed by the waiting queue, or starts with
the taken part when the queue is gone. -/
structure SurgeInv (K : AccountID → List T) (surgeQueue : List (T × List T))
    (updatedSet : List T) : Prop where
  nodup : (surgeQueue.map fun e => getSourceID e.1).Nodup
  waiting : ∀ e ∈ surgeQueue,
    (updatedSet.filter fun tx => getSourceID tx = getSourceID e.1) ++ (e.1 :: e.2)
      = K (getSourceID e.1)
  taken : ∀ id, (updatedSet.filter fun tx => getSourceID tx = id) <+: K id

variable {K : AccountID → List T} (hown : ∀ id, ∀ tx ∈ K id, getSourceID tx = id)

theorem SurgeInv.drop {e : T × List T} (h : SurgeInv K (e :: surgeQueue) updatedSet) :
    SurgeInv K surgeQueue updatedSet where
  nodup := (nodup_cons.mp h.nodup).2
  waiting e' he' := h.waiting e' (mem_cons_of_mem _ he')
  taken := h.taken

include hown in
theorem SurgeInv.take {cur : List T} (h : SurgeInv K ((tx, cur) :: surgeQueue) updatedSet) :
    SurgeInv K (requeue cur surgeQueue) (updatedSet ++ [tx]) := by
  have hfront := h.waiting (tx, cur) (mem_cons_self ..)
  have hnodup := nodup_cons.mp h.nodup
  -- other accounts do not notice
  have hother : ∀ id, id ≠ getSourceID tx →
      ((updatedSet ++ [tx]).filter fun u => getSourceID u = id)
        = updatedSet.filter fun u => getSourceID u = id := by
    intro id hid
    simp [filter_append, Ne.symm hid]
  have hself : ((updatedSet ++ [tx]).filter fun u => getSourceID u = getSourceID tx)
      = (updatedSet.filter fun u => getSourceID u = getSourceID tx) ++ [tx] := by
    simp [filter_append]
  have hrest : ∀ e ∈ surgeQueue,
      ((updatedSet ++ [tx]).filter fun u => getSourceID u = getSourceID e.1) ++ (e.1 :: e.2)
        = K (getSourceID e.1) := by
    intro e he
    rw [hother _ fun heq => hnodup.1 (mem_map.mpr ⟨e, he, heq⟩)]
    exact h.waiting e (mem_cons_of_mem _ he)
  have htaken : ∀ id, ((updatedSet ++ [tx]).filter fun u => getSourceID u = id) <+: K id := by
    intro id
    by_cases hid : id = getSourceID tx
    · subst hid
      exact ⟨cur, by rw [hself, ← hfront, append_assoc]; rfl⟩
    · rw [hother id hid]
      exact h.taken id
  cases cur with
  | nil => exact ⟨hnodup.2, hrest, htaken⟩
  | cons tx' cur =>
    have hsource : getSourceID tx' = getSourceID tx := by
      refine hown _ tx' ?_
      rw [← hfront]
      simp
    refine ⟨?_, ?_, htaken⟩
    · simp only [requeue, map_cons, hsource]
      exact h.nodup
    · intro e he
      rcases mem_cons.mp he with rfl | he
      · rw [hsource, hself, ← hfront, append_assoc]
        rfl
      · exact hrest e he

/-- The operations of a list, as surge pricing counts them. -/
def surgeOps (maxIsOps : Bool) (txs : List T) : Nat :=
  (txs.map (opsCount maxIsOps)).sum

end Surge

/-- The set is within the limit above which surge pricing sets in. -/
def TxSetFrame.Fits [HashFunction] (s : TxSetFrame T) (lcl : LastClosedLedger E) : Prop :=
  surgeOps (protocolVersionStartsFrom lcl.header.ledgerVersion 11) s.mTransactions
    ≤ lcl.getLastMaxTxSetSizeOps.toNat

instance [HashFunction] (s : TxSetFrame T) (lcl : LastClosedLedger E) : Decidable (s.Fits lcl) :=
  inferInstanceAs (Decidable (_ ≤ _))

namespace TxSetFrame

variable [DecidableEq T] [HashFunction] [CheckValid T E]

end TxSetFrame

namespace TxSetFrame

open Evaluation

end TxSetFrame

end KinesisCore

import KinesisCore.TransactionValid

/-!
# Validity of a transaction set (`TxSetFrame.cpp`)

`checkValid` decides whether a set may be voted for; `trimInvalid` and
`surgePricingFilter` cut a set down to one that may. The first two share
`checkOrTrim`, two passes over the per-account queues: the first follows
each queue's sequence numbers and adds up the bids by fee source, the
second asks every fee source for its total. On a fault, `checkValid` stops
and `trimInvalid` removes.

Validity of a single transaction comes in through the class `CheckValid`.
-/

namespace KinesisCore

open TransactionFrameBase HashFunction Except

/-- `tx->checkValid` against a ledger, after a given sequence number, at given
close-time offsets. -/
class CheckValid (T E : Type) where
  checkValid : T → LedgerTxn E → SequenceNumber → UInt64 → UInt64 → Except String Bool

instance {E : Type} [HashFunction] [PubKeyUtils] [OperationFrame E] : CheckValid Tx E where
  checkValid tx ltx current lo hi := do return (← tx.checkValid ltx current lo hi).1

/-- The last closed ledger, as the ledger manager has it. -/
structure LastClosedLedger (E : Type) where
  hash : Hash
  ledger : LedgerTxn E

def LastClosedLedger.header {E : Type} (lcl : LastClosedLedger E) : LedgerHeader :=
  lcl.ledger.header

/-- `getLastMaxTxSetSizeOps`; the product wraps around. -/
def LastClosedLedger.getLastMaxTxSetSizeOps {E : Type} (lcl : LastClosedLedger E) : UInt32 :=
  if protocolVersionStartsFrom lcl.header.ledgerVersion 11 then lcl.header.maxTxSetSize
  else lcl.header.maxTxSetSize * 100

variable {T E : Type} [TransactionFrameBase T]

/-! ## Fees of a set -/

/-- `feeRate3WayCompare` of two transactions. -/
def feeRate3WayCompare (l r : T) : Except String Ordering := do
  let v1 ← bigMultiply (getFeeBid l) (getNumOperations r).toUInt64.toInt64
  let v2 ← bigMultiply (getFeeBid r) (getNumOperations l).toUInt64.toInt64
  return compare v1 v2

/-- The lowest bid per operation, over a list and an upper bound. -/
def lowestBaseFee : List T → Int64 → Except String Int64
  | [], lowBaseFee => return lowBaseFee
  | tx :: txs, lowBaseFee => do
    let txBaseFee ← bigDivideOrThrow (getFeeBid tx) 1 (getNumOperations tx).toUInt64.toInt64
      .ROUND_UP
    lowestBaseFee txs (min lowBaseFee txBaseFee)

/-- From this many operations on a set counts as surging. -/
def surgeOpsCutoff (lh : LedgerHeader) : Nat :=
  if lh.maxTxSetSize.toNat ≥ MAX_OPS_PER_TX then lh.maxTxSetSize.toNat - MAX_OPS_PER_TX else 0

namespace TxSetFrame

variable [HashFunction]

variable (s : TxSetFrame T) (lh : LedgerHeader)

/-- The base fee a set is charged: the ledger's, or the lowest one bid when
the set is surging. -/
def getBaseFee : Except String Int64 := do
  if protocolVersionStartsFrom lh.ledgerVersion 11 then
    let lowBaseFee ← lowestBaseFee s.mTransactions INT64_MAX
    if s.sizeOp > surgeOpsCutoff lh then return lowBaseFee
  return lh.baseFee.toUInt64.toInt64

def getTotalFees : Except String Int64 := do
  let baseFee ← s.getBaseFee lh
  return s.mTransactions.foldl (fun t tx => t + getFee tx lh baseFee true) 0

end TxSetFrame

/-! ## Checking and trimming -/

/-- What `checkOrTrim` works on: the bids added up by fee source, the
transactions removed so far, and the set. -/
structure TrimState (T : Type) where
  accountFeeMap : AccountID → Int64
  trimmed : List T
  mTransactions : List T

/-- Add a bid to its fee source's total, which stops at the largest number. -/
def addFee (accountFeeMap : AccountID → Int64) (tx : T) : AccountID → Int64 :=
  let accFee := accountFeeMap (getFeeSourceID tx)
  Function.update accountFeeMap (getFeeSourceID tx)
    (if INT64_MAX - accFee < getFeeBid tx then INT64_MAX else accFee + getFeeBid tx)

/-- `trimmed.emplace_back(tx)` and `removeTx(tx)`. -/
def TrimState.trim [DecidableEq T] (st : TrimState T) (tx : T) : TrimState T :=
  { st with trimmed := st.trimmed ++ [tx], mTransactions := st.mTransactions.erase tx }

section CheckOrTrim

variable [DecidableEq T]

/-- The first pass over a queue: what is kept of it, or `none` if a check
fails. -/
def checkQueue (valid : T → SequenceNumber → Except String Bool) (justCheck : Bool) :
    List T → SequenceNumber → TrimState T → Except String (Option (List T × TrimState T))
  | [], _, st => return some ([], st)
  | tx :: queue, lastSeq, st => do
    if ← valid tx lastSeq then
      let rest ← checkQueue valid justCheck queue (getSeqNum tx)
        { st with accountFeeMap := addFee st.accountFeeMap tx }
      return rest.map fun (kept, st) => (tx :: kept, st)
    else if justCheck then return none
    else checkQueue valid justCheck queue lastSeq (st.trim tx)

/-- The first pass: the queues that are left. -/
def checkQueues (valid : T → SequenceNumber → Except String Bool) (justCheck : Bool) :
    List (List T) → TrimState T → Except String (Option (List (List T) × TrimState T))
  | [], st => return some ([], st)
  | queue :: queues, st => do
    match ← checkQueue valid justCheck queue 0 st with
    | none => return none
    | some (kept, st) =>
      let rest ← checkQueues valid justCheck queues st
      return rest.map fun (queues, st) => (kept :: queues, st)

/-- Whether the fee source of a transaction cannot pay its total. -/
def cannotPayTotal (ltx : LedgerTxn E) (accountFeeMap : AccountID → Int64) (tx : T) :
    Except String Bool :=
  match ltx.accounts (getFeeSourceID tx) with
  | none => throw "LedgerTxnEntry not active"
  | some feeSource => do
    return (← getAvailableBalance ltx.header feeSource) < accountFeeMap (getFeeSourceID tx)

/-- The second pass over a queue: from the first transaction that cannot be
paid on, all of it goes. -/
def payQueue (ltx : LedgerTxn E) (justCheck : Bool) :
    List T → TrimState T → Except String (Option (TrimState T))
  | [], st => return some st
  | tx :: queue, st => do
    if ← cannotPayTotal ltx st.accountFeeMap tx then
      if justCheck then return none
      else return some ((tx :: queue).foldl TrimState.trim st)
    else payQueue ltx justCheck queue st

def payQueues (ltx : LedgerTxn E) (justCheck : Bool) :
    List (List T) → TrimState T → Except String (Option (TrimState T))
  | [], st => return some st
  | queue :: queues, st => do
    match ← payQueue ltx justCheck queue st with
    | none => return none
    | some st => payQueues ltx justCheck queues st

end CheckOrTrim

namespace TxSetFrame

variable [HashFunction] [DecidableEq T] [CheckValid T E] (I : Stl.Impl) (s : TxSetFrame T)
  (lcl : LastClosedLedger E) (lo hi : UInt64)

/-- Both passes; `none` when a check fails. -/
def checkOrTrim (justCheck : Bool) (lo hi : UInt64) : Except String (Option (TrimState T)) := do
  let accountTxMap := (s.buildAccountTxQueues I).map Prod.snd
  match ← checkQueues (fun tx lastSeq => CheckValid.checkValid tx lcl.ledger lastSeq lo hi)
      justCheck accountTxMap ⟨fun _ => 0, [], s.mTransactions⟩ with
  | none => return none
  | some (accountTxMap, st) => payQueues lcl.ledger justCheck accountTxMap st

/-- The check itself, without the remembered result. -/
def checkNow : Except String Bool := do
  if lcl.hash ≠ s.mPreviousLedgerHash then return false
  if s.size lcl.header > lcl.header.maxTxSetSize.toNat then return false
  if ¬SortedForHash s.mTransactions then return false
  return (← s.checkOrTrim I lcl true lo hi).isSome

def checkValid : Except String (Bool × TxSetFrame T) := do
  -- a result remembered for this ledger is given again, whatever the offsets
  match s.mValid.filter (·.1 = lcl.hash) with
  | some (_, valid) => return (valid, s)
  | none =>
    let valid ← s.checkNow I lcl lo hi
    return (valid, { s with mValid := some (lcl.hash, valid) })

end TxSetFrame

/-! ## What a passed check says -/

section

variable [DecidableEq T] {lcl : LastClosedLedger E}

variable {valid : T → SequenceNumber → Except String Bool} {st st' : TrimState T} {I : Stl.Impl}
  {lo hi : UInt64}

theorem checkQueue_passed {queue kept : List T} {lastSeq : SequenceNumber}
    (h : checkQueue valid true queue lastSeq st = .ok (some (kept, st'))) :
    ∀ tx ∈ queue, ∃ lastSeq, valid tx lastSeq = .ok true := by
  induction queue generalizing lastSeq st kept st' with
  | nil => intro tx htx; cases htx
  | cons tx queue ih =>
    obtain ⟨ok, hok, h⟩ := bind_eq_ok.mp h
    cases ok with
    | false => simp at h
    | true =>
      simp only [if_true, bind_eq_ok, pure_eq_ok] at h
      obtain ⟨rest, hrest, h⟩ := h
      rw [Option.map_eq_some_iff] at h
      obtain ⟨⟨kept', st''⟩, rfl, -⟩ := h
      intro u hu
      rcases List.mem_cons.mp hu with rfl | hu
      · exact ⟨lastSeq, hok⟩
      · exact ih hrest u hu

theorem checkQueues_passed {queues kept : List (List T)}
    (h : checkQueues valid true queues st = .ok (some (kept, st'))) :
    ∀ queue ∈ queues, ∀ tx ∈ queue, ∃ lastSeq, valid tx lastSeq = .ok true := by
  induction queues generalizing st kept st' with
  | nil => intro queue hqueue; cases hqueue
  | cons queue queues ih =>
    obtain ⟨r, hr, h⟩ := bind_eq_ok.mp h
    cases r with
    | none => simp at h
    | some r =>
      simp only [bind_eq_ok, pure_eq_ok] at h
      obtain ⟨rest, hrest, h⟩ := h
      rw [Option.map_eq_some_iff] at h
      obtain ⟨⟨kept', st''⟩, rfl, -⟩ := h
      intro q hq
      rcases List.mem_cons.mp hq with rfl | hq
      · exact checkQueue_passed hr
      · exact ih hrest q hq

variable [HashFunction] [CheckValid T E]

variable {s : TxSetFrame T}

/-- Every transaction of a set that passes is valid after some sequence
number. -/
theorem TxSetFrame.checkNow_passed (h : s.checkNow I lcl lo hi = .ok true) :
    ∀ tx ∈ s.mTransactions, ∃ lastSeq,
      CheckValid.checkValid tx lcl.ledger lastSeq lo hi = .ok true := by
  unfold TxSetFrame.checkNow at h
  split at h
  · simp at h
  split at h
  · simp at h
  split at h
  · simp at h
  obtain ⟨r, hr, h⟩ := bind_eq_ok.mp h
  obtain ⟨q, hq, hr⟩ := bind_eq_ok.mp hr
  cases q with
  | none =>
    obtain rfl : none = r := by simpa using hr
    simp at h
  | some q =>
    intro tx htx
    exact checkQueues_passed hq _ (List.mem_map_of_mem (accountQueue_mem_queues htx)) tx
      (mem_accountQueue.mpr ⟨htx, rfl⟩)

theorem TxSetFrame.follows_of_checkNow (h : s.checkNow I lcl lo hi = .ok true) :
    s.mPreviousLedgerHash = lcl.hash := by
  unfold TxSetFrame.checkNow at h
  split at h
  · simp at h
  · rename_i hprev
    exact (not_not.mp hprev).symm

/-- A remembered result is that of a check of this set on that ledger. -/
def TxSetFrame.CacheSound (I : Stl.Impl) (s : TxSetFrame T) (lcl : LastClosedLedger E) : Prop :=
  ∀ valid, s.mValid = some (lcl.hash, valid) → ∃ lo hi, s.checkNow I lcl lo hi = .ok valid

theorem TxSetFrame.checkNow_of_checkValid {s' : TxSetFrame T}
    {valid : Bool} (hcache : s.CacheSound I lcl) (h : s.checkValid I lcl lo hi = .ok (valid, s')) :
    ∃ lo hi, s.checkNow I lcl lo hi = .ok valid := by
  unfold TxSetFrame.checkValid at h
  split at h
  · rename_i hash cached hmem
    rw [Option.filter_eq_some_iff] at hmem
    obtain ⟨hmem, hhash⟩ := hmem
    simp only [pure_eq_ok, Prod.mk.injEq] at h
    obtain ⟨rfl, -⟩ := h
    obtain rfl : hash = lcl.hash := by simpa using hhash
    exact hcache cached hmem
  · simp only [bind_eq_ok, pure_eq_ok, Prod.mk.injEq] at h
    obtain ⟨v, hv, rfl, -⟩ := h
    exact ⟨lo, hi, hv⟩

end

/-! ## Surge pricing

The priority queue holds the account queues that are not empty, each as its
front and the rest. -/

variable (seed : Hash) (cur : List T) (surgeQueue : List (T × List T))

/-- Put a queue back, unless nothing is left of it. -/
def requeue : List (T × List T) :=
  match cur with
  | [] => surgeQueue
  | tx :: rest => (tx, rest) :: surgeQueue

/-- How many transactions wait in a priority queue. -/
def waiting : Nat :=
  (surgeQueue.map fun cur => cur.2.length + 1).sum

/-- How many operations a transaction counts for: the limit is on transactions
before protocol 11. -/
def opsCount (maxIsOps : Bool) (tx : T) : Nat :=
  if maxIsOps then (getNumOperations tx).toNat else MAX_OPS_PER_TX

end KinesisCore

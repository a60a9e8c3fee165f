import KinesisCore.TxQueueLimiter

/-!
# The transaction queue (`TransactionQueue.cpp`)

Transactions wait here for a ledger. The queue is a map from accounts to their
states: the transactions the account is the sequence source of, in sequence
order, and the fees of all transactions it is the fee source of, which may be
other ones. Every transaction is also in the limiter's set, and its operations
are counted in three places.

A call may throw: a failed `releaseAssert`, a `logic_error`, or an assertion of
the fee arithmetic. The loop that evicts transactions has no bound of its own,
so it runs on fuel, and `none` means that the fuel was used up.

`mAccountStates` is a hash map. Where the order in which it is traversed could
matter, that order is an argument.
-/

namespace KinesisCore

open TransactionFrameBase QueueFrame TransactionResultCode

structure TimestampedTx (T : Type) where
  mTx : T
  mBroadcasted : Bool

structure AccountState (T : Type) where
  mTotalFees : Int64 := 0
  mQueueSizeOps : Nat := 0
  mBroadcastQueueOps : Nat := 0
  mAge : Nat := 0
  mTransactions : List (TimestampedTx T) := []

structure TransactionQueue (T : Type) where
  mPendingDepth : Nat
  mAccountStates : AccountID → Option (AccountState T)
  /-- The sets of banned hashes, the newest first. -/
  mBannedTransactions : List (List Hash)
  mTxQueueLimiter : TxQueueLimiter T
  mFilteredTypes : List OperationType
  mBroadcastSeed : UInt64
  mBroadcastOpCarryover : Nat := 0

inductive AddResult where
  | ADD_STATUS_PENDING
  | ADD_STATUS_DUPLICATE
  /-- With the code and the fee that the transaction's result is given here;
  validation sets them otherwise. -/
  | ADD_STATUS_ERROR (code : Option TransactionResultCode) (feeCharged : Option Int64)
  | ADD_STATUS_TRY_AGAIN_LATER
  | ADD_STATUS_FILTERED
  deriving Repr, DecidableEq

open AddResult

variable {T E : Type} [QueueFrame T]

/-! ## Looking at an account's transactions -/

def FEE_MULTIPLIER : Nat := 10

/-- Whether `tx` bids enough to replace `oldTx`; if not, the fee that would be
enough. -/
def canReplaceByFee (tx oldTx : T) : Except String (Option Int64) := do
  let newNumOps := max 1 (getNumOperations tx)
  let oldNumOps := max 1 (getNumOperations oldTx)
  let v1 ← bigMultiply (getFeeBid tx) oldNumOps.toUInt64.toInt64
  let v2 ← bigMultiply (getFeeBid oldTx) newNumOps.toUInt64.toInt64
  let minFeeN := v2 * FEE_MULTIPLIER
  if v1 ≥ minFeeN then return none
  let minFee ← bigDivide128 minFeeN oldNumOps.toUInt64.toInt64 .ROUND_UP
  return some (minFee.getD INT64_MAX)

/-- The position of a sequence number: among the transactions, or right after
the last one. The sum `lastSeq + 1` wraps around. -/
def findBySeq (seq : SequenceNumber) (transactions : List (TimestampedTx T)) :
    Except String (Option Nat) :=
  match transactions.head?, transactions.getLast? with
  | some front, some back => do
    let firstSeq := getSeqNum front.mTx
    let lastSeq := getSeqNum back.mTx
    if seq < firstSeq ∨ seq > lastSeq + 1 then return none
    let offset := (seq - firstSeq).toInt.toNat
    if transactions.length < offset then throw "seq - firstSeq <= transactions.size()"
    match transactions[offset]? with
    | none => return some offset
    | some iter =>
      if getSeqNum iter.mTx ≠ seq then throw "iter->mTx->getSeqNum() == seq"
      return some offset
  | _, _ => throw "front() of an empty vector"

def isDuplicateTx (oldTx newTx : T) : Bool :=
  if envelopeType oldTx = envelopeType newTx then getFullHash oldTx = getFullHash newTx
  else if envelopeType oldTx = .feeBump then getInnerFullHash oldTx = getFullHash newTx
  else false

/-- `findTx`: the position of a transaction, or the given one if it is not
there. -/
def findTx (tx : T) (transactions : List (TimestampedTx T)) (txIter : Nat) :
    Except String Nat := do
  match ← findBySeq (getSeqNum tx) transactions with
  | none => return txIter
  | some offset =>
    match transactions[offset]? with
    | none => return txIter
    | some iter => return if getFullHash iter.mTx = getFullHash tx then offset else txIter

namespace TransactionQueue

variable (q : TransactionQueue T) (order : List AccountID) (seed : UInt64) (hash : Hash) (tx : T)
  (id : AccountID) (banTxs : List T)

def putAccount (as : AccountState T) : TransactionQueue T :=
  { q with mAccountStates := Function.update q.mAccountStates id (some as) }

def eraseAccount : TransactionQueue T :=
  { q with mAccountStates := Function.update q.mAccountStates id none }

/-- The state of an account that is known to have one. -/
def accountState : Except String (AccountState T) :=
  match q.mAccountStates id with
  | none => throw "iter != mAccountStates.end()"
  | some as => return as

def isBanned : Bool :=
  q.mBannedTransactions.any fun transactions => hash ∈ transactions

def isFiltered : Bool :=
  (operationTypes tx).any fun type => type ∈ q.mFilteredTypes

/-! ## Dropping -/

/-- `releaseFeeMaybeEraseAccountState`. -/
def releaseFee : Except String (TransactionQueue T) := do
  let as ← q.accountState (getFeeSourceID tx)
  if as.mTotalFees < getFeeBid tx then throw "iter->second.mTotalFees >= tx->getFeeBid()"
  let as := { as with mTotalFees := as.mTotalFees - getFeeBid tx }
  if as.mTransactions.isEmpty ∧ as.mTotalFees = 0 then return q.eraseAccount (getFeeSourceID tx)
  return q.putAccount (getFeeSourceID tx) as

def prepareDropTransaction (tstx : TimestampedTx T) : Except String (TransactionQueue T) := do
  let as ← q.accountState id
  let ops := (getNumOperations tstx.mTx).toNat
  let mTxQueueLimiter ← q.mTxQueueLimiter.removeTransaction tstx.mTx
  let as :=
    { as with
      mQueueSizeOps := as.mQueueSizeOps - ops
      mBroadcastQueueOps :=
        if tstx.mBroadcasted then as.mBroadcastQueueOps else as.mBroadcastQueueOps - ops }
  releaseFee ({ q with mTxQueueLimiter }.putAccount id as) tstx.mTx

/-- Drop the transactions from `first` up to `last` of an account. -/
def dropTransactions (first last : Nat) : Except String (TransactionQueue T) := do
  let transactions := (← q.accountState id).mTransactions
  let q ← (transactions.extract first last).foldlM (fun q => q.prepareDropTransaction id) q
  let as ← q.accountState id
  let as := { as with mTransactions := transactions.take first ++ transactions.drop last }
  if as.mTransactions.isEmpty then
    if as.mTotalFees = 0 then return q.eraseAccount id
    return q.putAccount id { as with mAge := 0 }
  return q.putAccount id as

/-! ## Banning -/

/-- Insert a hash into the newest set. -/
def banHash : TransactionQueue T :=
  match q.mBannedTransactions with
  | [] => q
  | bannedFront :: rest => { q with mBannedTransactions := bannedFront.insert hash :: rest }

/-- `transactionsByAccount`: a transaction joins those of its account; the keys
are in ascending order. -/
def groupByAccount (tx : T) : List (AccountID × List T) → List (AccountID × List T)
  | [] => [(getSourceID tx, [tx])]
  | (id, txs) :: groups =>
    if getSourceID tx = id then (id, txs ++ [tx]) :: groups
    else if getSourceID tx < id then (getSourceID tx, [tx]) :: (id, txs) :: groups
    else (id, txs) :: groupByAccount tx groups

/-- The position of the first of an account's transactions that is to be
banned, or the end. -/
def findFirst (transactions : List (TimestampedTx T)) : List T → Nat → Except String Nat
  | [], txIter => return txIter
  | tx :: txs, txIter => do
    let txIter ← match transactions[txIter]? with
      | none => findTx tx transactions txIter
      | some iter =>
        if getSeqNum tx < getSeqNum iter.mTx then findTx tx transactions txIter
        else pure txIter
    findFirst transactions txs txIter

/-- Ban and drop what follows the first banned transaction of an account. -/
def banFrom : Except String (TransactionQueue T) :=
  match q.mAccountStates id with
  | none => return q
  | some as => do
    if as.mTransactions.isEmpty then return q
    let txIter ← findFirst as.mTransactions banTxs as.mTransactions.length
    let q := (as.mTransactions.drop txIter).foldl (fun q iter => q.banHash (getFullHash iter.mTx)) q
    q.dropTransactions id txIter as.mTransactions.length

def ban : Except String (TransactionQueue T) :=
  let transactionsByAccount := banTxs.foldl (fun groups tx => groupByAccount tx groups) []
  let q := banTxs.foldl (fun q tx => q.banHash (getFullHash tx)) q
  transactionsByAccount.foldlM (fun q kv => q.banFrom kv.1 kv.2) q

/-! ## Adding -/

/-- What a call reads of the application: the last closed ledger, and how far
ahead of it the next one may be closed. -/
structure Env (E : Type) where
  lcl : LastClosedLedger E
  upperBoundCloseTimeOffset : UInt64

/-- Where a transaction goes: after which sequence number, how much more its fee
source will owe, and the position and the transaction it replaces, if any. -/
structure Position (T : Type) where
  seqNum : SequenceNumber
  netFee : Int64
  oldTx : Option (Nat × T)

/-- The first part of `canAdd`: the account's own transactions. -/
def findPosition : Except String (AddResult ⊕ Position T) :=
  match q.mAccountStates (getSourceID tx) with
  | none => return .inr ⟨0, getFeeBid tx, none⟩
  | some as =>
    match as.mTransactions.getLast? with
    | none => return .inr ⟨0, getFeeBid tx, none⟩
    | some back => do
      let iter ← findBySeq (getSeqNum tx) as.mTransactions
      if envelopeType tx ≠ .feeBump then
        match iter.bind (as.mTransactions[·]?) with
        | some old =>
          if isDuplicateTx old.mTx tx then return .inl ADD_STATUS_DUPLICATE
          else return .inr ⟨getSeqNum back.mTx, getFeeBid tx, none⟩
        | none => return .inr ⟨getSeqNum back.mTx, getFeeBid tx, none⟩
      else
        match iter with
        | none => return .inl (ADD_STATUS_ERROR (some txBAD_SEQ) none)
        | some oldTxIter =>
          match as.mTransactions[oldTxIter]? with
          | none => return .inr ⟨getSeqNum tx - 1, getFeeBid tx, none⟩
          | some old =>
            if isDuplicateTx old.mTx tx then return .inl ADD_STATUS_DUPLICATE
            match ← canReplaceByFee tx old.mTx with
            | some minFee =>
              return .inl (ADD_STATUS_ERROR (some txINSUFFICIENT_FEE) (some minFee))
            | none =>
              let netFee :=
                if getFeeSourceID old.mTx = getFeeSourceID tx then
                  getFeeBid tx - getFeeBid old.mTx
                else getFeeBid tx
              return .inr ⟨getSeqNum tx - 1, netFee, some (oldTxIter, old.mTx)⟩

/-- The fees an account already owes. -/
def totalFees : Int64 :=
  match q.mAccountStates id with
  | none => 0
  | some as => as.mTotalFees

/-- The last part of `canAdd`: validity, and whether the fee source can pay for
all its transactions. -/
def canPay [CheckValid T E] (q : TransactionQueue T) (env : Env E) (tx : T) (pos : Position T) :
    Except String AddResult := do
  let ltx := env.lcl.ledger
  if ¬(← CheckValid.checkValid tx ltx pos.seqNum 0 env.upperBoundCloseTimeOffset) then
    return ADD_STATUS_ERROR none none
  match ltx.accounts (getFeeSourceID tx) with
  | none => throw "LedgerTxnEntry not active"
  | some feeSource =>
    if (← getAvailableBalance ltx.header feeSource) - pos.netFee
        < q.totalFees (getFeeSourceID tx) then
      return ADD_STATUS_ERROR (some txINSUFFICIENT_BALANCE) none
    return ADD_STATUS_PENDING

/-- `canAdd`: the result, the position when it is `ADD_STATUS_PENDING`, and the
queue, in which the transaction may have been banned. -/
def canAdd [CheckValid T E] (q : TransactionQueue T) (env : Env E) (tx : T) :
    Except String (AddResult × Option (Nat × T) × TransactionQueue T) := do
  if q.isBanned (getFullHash tx) then return (ADD_STATUS_TRY_AGAIN_LATER, none, q)
  if q.isFiltered tx then return (ADD_STATUS_FILTERED, none, q)
  match ← q.findPosition tx with
  | .inl res => return (res, none, q)
  | .inr pos =>
    let (ok, minFee) ← q.mTxQueueLimiter.canAddTx env.lcl tx (pos.oldTx.map Prod.snd)
    if ¬ok then
      let q ← q.ban [tx]
      if minFee ≠ 0 then
        return (ADD_STATUS_ERROR (some txINSUFFICIENT_FEE) (some minFee), none, q)
      return (ADD_STATUS_TRY_AGAIN_LATER, none, q)
    return (← q.canPay env tx pos, pos.oldTx, q)

/-- `evictTransactions` with the queue's callback: ban the cheapest transaction
until `ops` operations fit. It is false when there is none left. -/
def evictTransactions (lcl : LastClosedLedger E) (ops : Nat) :
    Nat → TransactionQueue T → Except String (Option (Bool × TransactionQueue T))
  | fuel, q => do
    if q.mTxQueueLimiter.mQueueSizeOps + ops ≤ q.mTxQueueLimiter.maxQueueSizeOps lcl then
      return some (true, q)
    if q.mTxQueueLimiter.mQueueSizeOps = 0 then return some (false, q)
    match fuel with
    | 0 => return none
    | fuel + 1 =>
      let evictTx ← q.mTxQueueLimiter.getWorstTransaction
      let mMinFeeNeeded := (getFeeBid evictTx, getNumOperations evictTx)
      let q := { q with mTxQueueLimiter := { q.mTxQueueLimiter with mMinFeeNeeded } }
      evictTransactions lcl ops fuel (← q.ban [evictTx])

/-- Put a transaction into the queue of its account, in the place of another one
or at the end. -/
def enqueue (oldTx : Option (Nat × T)) : Except String (TransactionQueue T) := do
  let id := getSourceID tx
  let q := match q.mAccountStates id with
    | none => q.putAccount id {}
    | some _ => q
  let transactions := (← q.accountState id).mTransactions
  match oldTx.bind fun old => transactions[old.1]?.map (old.1, ·) with
  | some (oldTxIter, old) => do
    let q ← q.prepareDropTransaction id old
    let as ← q.accountState id
    return q.putAccount id { as with mTransactions := as.mTransactions.set oldTxIter ⟨tx, false⟩ }
  | none => do
    let as ← q.accountState id
    return q.putAccount id { as with mTransactions := as.mTransactions ++ [⟨tx, false⟩] }

/-- Count a new transaction: its operations at its account, its bid at its fee
source. -/
def countIn : Except String (TransactionQueue T) := do
  let ops := (getNumOperations tx).toNat
  let as ← q.accountState (getSourceID tx)
  let q := q.putAccount (getSourceID tx)
    { as with
      mQueueSizeOps := as.mQueueSizeOps + ops
      mBroadcastQueueOps := as.mBroadcastQueueOps + ops }
  let payer := (q.mAccountStates (getFeeSourceID tx)).getD {}
  return q.putAccount (getFeeSourceID tx)
    { payer with mTotalFees := payer.mTotalFees + getFeeBid tx }

/-- Adding ends by arming the timer of the next broadcast, which leaves the queue
as it is. -/
def tryAdd [CheckValid T E] (fuel : Nat) (q : TransactionQueue T) (env : Env E) (tx : T) :
    Except String (Option (AddResult × TransactionQueue T)) := do
  let (res, oldTx, q) ← q.canAdd env tx
  if res ≠ ADD_STATUS_PENDING then return some (res, q)
  let q ← (← q.enqueue tx oldTx).countIn tx
  match ← evictTransactions env.lcl (getNumOperations tx).toNat fuel q with
  | none => return none
  | some (false, _) => throw "Invalid queue state, could not evict transactions"
  | some (true, q) =>
    let mTxQueueLimiter ← q.mTxQueueLimiter.addTransaction env.lcl tx
    return some (res, { q with mTxQueueLimiter })

/-! ## After a ledger -/

/-- `seqByAccount`: the highest sequence number of each account, from zero on; the
keys are in ascending order. -/
def recordSeq (tx : T) : List (AccountID × SequenceNumber) → List (AccountID × SequenceNumber)
  | [] => [(getSourceID tx, max 0 (getSeqNum tx))]
  | (id, seq) :: seqs =>
    if getSourceID tx = id then (id, max seq (getSeqNum tx)) :: seqs
    else if getSourceID tx < id then
      (getSourceID tx, max 0 (getSeqNum tx)) :: (id, seq) :: seqs
    else (id, seq) :: recordSeq tx seqs

/-- Drop the transactions of an account up to a sequence number. -/
def removeUpTo (seq : SequenceNumber) : Except String (TransactionQueue T) :=
  match q.mAccountStates id with
  | none => return q
  | some as =>
    match as.mTransactions with
    | [] => return q
    | front :: _ => do
      if ¬getSeqNum front.mTx ≤ seq then return q
      let txIter ← match ← findBySeq seq as.mTransactions with
        | none => pure as.mTransactions.length
        | some offset => pure (min (offset + 1) as.mTransactions.length)
      (q.putAccount id { as with mAge := 0 }).dropTransactions id 0 txIter

def removeApplied (appliedTxs : List T) : Except String (TransactionQueue T) :=
  let seqByAccount := appliedTxs.foldl (fun seqs tx => recordSeq tx seqs) []
  seqByAccount.foldlM (fun q kv => q.removeUpTo kv.1 kv.2) q

/-- The body of the loop of `shift`: an account that is too old loses its
transactions. An account may have been erased since the traversal began. -/
def ageAccount (q : TransactionQueue T) (id : AccountID) : Except String (TransactionQueue T) :=
  match q.mAccountStates id with
  | none => return q
  | some as => do
    let mAge := if as.mTransactions.isEmpty then as.mAge else as.mAge + 1
    let q := q.putAccount id { as with mAge }
    if mAge ≠ q.mPendingDepth then return q
    let q ← as.mTransactions.foldlM (fun q toBan => do
      return (← q.prepareDropTransaction id toBan).banHash (getFullHash toBan.mTx)) q
    let as ← q.accountState id
    if as.mTotalFees = 0 then return q.eraseAccount id
    return q.putAccount id { as with mTransactions := [], mAge := 0 }

/-- `shift`; `order` is the order in which the map is traversed and `seed` the
new random seed. -/
def shift : Except String (TransactionQueue T) := do
  let q ← order.foldlM ageAccount
    { q with mBannedTransactions := [] :: q.mBannedTransactions.dropLast }
  return { q with mTxQueueLimiter := q.mTxQueueLimiter.resetMinFeeNeeded, mBroadcastSeed := seed }

def clearAll : TransactionQueue T :=
  { q with
    mAccountStates := fun _ => none
    mBannedTransactions := q.mBannedTransactions.map fun _ => []
    mTxQueueLimiter := q.mTxQueueLimiter.reset seed }

/-! ## Broadcasting -/

inductive BroadcastStatus where
  | BROADCAST_STATUS_ALREADY
  | BROADCAST_STATUS_SUCCESS
  | BROADCAST_STATUS_SKIPPED
  deriving Repr, DecidableEq

/-- An account and the position of its next transaction to broadcast. -/
structure TxQueueTracker (T : Type) where
  account : AccountID
  mCur : Nat
  tx : T

/-- `skipToFirstNotBroadcasted`, from a position on. -/
def skipToFirstNotBroadcasted (account : AccountID) :
    List (TimestampedTx T) → Nat → Option (TxQueueTracker T)
  | [], _ => none
  | cur :: rest, mCur =>
    if cur.mBroadcasted then skipToFirstNotBroadcasted account rest (mCur + 1)
    else some ⟨account, mCur, cur.mTx⟩

/-- The order of the priority queue. A tracker in it is never at the end of its
account's transactions. -/
def trackerLess (seed : UInt64) (l r : TxQueueTracker T) : Bool :=
  match lessThanXoredTx l.tx r.tx seed with
  | .ok less => less
  | .error _ => false

/-- Push a tracker, which compares it with one that is there. -/
def pushTracker (seed : UInt64) (tracker : TxQueueTracker T) (iters : List (TxQueueTracker T)) :
    Except String (List (TxQueueTracker T)) := do
  match iters with
  | [] => return [tracker]
  | other :: _ =>
    let _ ← lessThanXoredTx tracker.tx other.tx seed
    return tracker :: iters

/-- What `broadcastTx` does to the queue: the transaction counts as broadcast,
whether or not it was sent. -/
def markBroadcasted (mCur : Nat) : Except String (TransactionQueue T) := do
  let as ← q.accountState id
  match as.mTransactions[mCur]? with
  | none => throw "mCur != mTransactions.end()"
  | some cur =>
    if cur.mBroadcasted then throw "!cur->mBroadcasted"
    return q.putAccount id
      { as with
        mTransactions := as.mTransactions.set mCur { cur with mBroadcasted := true }
        mBroadcastQueueOps := as.mBroadcastQueueOps - (getNumOperations cur.mTx).toNat }

/-- The loop of `broadcastSome` that fills the priority queue. -/
def collectTrackers (q : TransactionQueue T) :
    List AccountID → List (TxQueueTracker T) → Except String (List (TxQueueTracker T))
  | [], iters => return iters
  | id :: order, iters => do
    let as := (q.mAccountStates id).getD {}
    if as.mBroadcastQueueOps = 0 then collectTrackers q order iters
    else
      match skipToFirstNotBroadcasted id as.mTransactions 0 with
      | none => throw "r"
      | some tracker => collectTrackers q order (← pushTracker q.mBroadcastSeed tracker iters)

/-- What the main loop of `broadcastSome` works on. -/
structure Flood (T : Type) where
  queue : TransactionQueue T
  opsToFlood : Nat
  iters : List (TxQueueTracker T)
  banningTxs : List T

/-- The main loop of `broadcastSome`. What comes of sending a transaction is not
up to the queue. -/
def flood (I : Stl.Impl) (status : T → BroadcastStatus) :
    Nat → Flood T → Except String (Option (Flood T))
  | fuel, f => do
    if f.opsToFlood = 0 then return some f
    match I.popTop (trackerLess f.queue.mBroadcastSeed) f.iters, fuel with
    | none, _ => return some f
    | some _, 0 => return none
    | some (cur, iters), fuel + 1 =>
      let ops := (getNumOperations cur.tx).toNat
      if f.opsToFlood < ops then return some { f with iters }
      let queue ← f.queue.markBroadcasted cur.account cur.mCur
      let opsToFlood :=
        if status cur.tx = .BROADCAST_STATUS_SUCCESS then f.opsToFlood - ops else f.opsToFlood
      if status cur.tx = .BROADCAST_STATUS_SKIPPED then
        flood I status fuel ⟨queue, opsToFlood, iters, f.banningTxs ++ [cur.tx]⟩
      else
        let transactions := (← queue.accountState cur.account).mTransactions
        match skipToFirstNotBroadcasted cur.account (transactions.drop (cur.mCur + 1))
            (cur.mCur + 1) with
        | none => flood I status fuel ⟨queue, opsToFlood, iters, f.banningTxs⟩
        | some tracker =>
          let iters ← pushTracker f.queue.mBroadcastSeed tracker iters
          flood I status fuel ⟨queue, opsToFlood, iters, f.banningTxs⟩

/-- `broadcastSome`: `opsThisPeriod` is what the configuration allows for this
period. -/
def broadcastSome (I : Stl.Impl) (fuel : Nat) (q : TransactionQueue T) (order : List AccountID)
    (opsThisPeriod : Nat) (status : T → BroadcastStatus) :
    Except String (Option (TransactionQueue T)) := do
  let iters ← q.collectTrackers order []
  match ← flood I status fuel ⟨q, q.mBroadcastOpCarryover + opsThisPeriod, iters, []⟩ with
  | none => return none
  | some f =>
    let q ← f.queue.ban f.banningTxs
    return some { q with mBroadcastOpCarryover := min f.opsToFlood (MAX_OPS_PER_TX + 1) }

/-- `rebroadcast`, up to the broadcast it ends with. -/
def rebroadcast : TransactionQueue T :=
  { q with
    mAccountStates := fun id => (q.mAccountStates id).map fun as =>
      { as with
        mBroadcastQueueOps := as.mQueueSizeOps
        mTransactions := as.mTransactions.map fun tx => { tx with mBroadcasted := false } } }

end TransactionQueue

end KinesisCore

import KinesisCore.Ledger
import KinesisCore.Stl

/-!
# Transaction sets

`TransactionFrameBase` is the interface through which the herder sees a
transaction; the elements of `T` are the shared pointers of the source, so
equality on `T` is identity of pointers. A `TxSetFrame` is a vector of
them on top of a ledger hash, with two caches.

A set is always worked on through per-account queues: the transactions of
one source account in sequence order. The queues live in a hash map and
are sorted by the standard library, so every function that builds them
takes an implementation `I : Stl.Impl`. `mem_buildAccountTxQueues` is the
one description of the queues the rest of the development uses.
-/

namespace KinesisCore

open Xdr

class TransactionFrameBase (T : Type) where
  getSourceID : T → AccountID
  getFeeSourceID : T → AccountID
  getSeqNum : T → SequenceNumber
  getFeeBid : T → Int64
  getNumOperations : T → UInt32
  getFullHash : T → Hash
  /-- The envelope in the wire format. -/
  getEnvelope : T → Bytes
  getMinFee : T → LedgerHeader → Int64
  getFee : T → LedgerHeader → Int64 → Bool → Int64

open TransactionFrameBase

/-- The hash function; nothing is assumed about it. -/
class HashFunction where
  sha256 : Bytes → Hash

open HashFunction

/-- A hash function to evaluate with: the bytes as a number. -/
@[reducible] def bytesAsNumber : HashFunction :=
  ⟨fun bytes => BitVec.ofNat 256 (bytes.foldl (fun n b => n * 256 + b.toNat) 0)⟩

namespace Evaluation

attribute [scoped instance] bytesAsNumber

end Evaluation

def MAX_OPS_PER_TX : Nat := 100

/-- The bytes a set's hash is taken of: the previous ledger's hash and the
envelopes. -/
def setContents {T : Type} [TransactionFrameBase T] (previousLedgerHash : Hash) (txs : List T) :
    Bytes :=
  (Codec.opaqueFixed 32).put previousLedgerHash ++ txs.flatMap getEnvelope

def SortedForHash {T : Type} [TransactionFrameBase T] (txs : List T) : Prop :=
  txs.Pairwise fun a b => (getFullHash a).toNat ≤ (getFullHash b).toNat

instance {T : Type} [TransactionFrameBase T] (txs : List T) : Decidable (SortedForHash txs) :=
  inferInstanceAs (Decidable (txs.Pairwise _))

/-- A remembered hash is the hash of the transactions as they stand, in hash
order: every function that touches them drops it. -/
structure TxSetFrame (T : Type) [TransactionFrameBase T] [HashFunction] where
  mPreviousLedgerHash : Hash
  mTransactions : List T
  mHash : Option Hash
  /-- The last closed ledger a validity check was made for, and its result. -/
  mValid : Option (Hash × Bool)
  hash_ok : ∀ h, mHash = some h →
    SortedForHash mTransactions ∧ h = sha256 (setContents mPreviousLedgerHash mTransactions)

variable {T : Type} [TransactionFrameBase T]

/-! ## Orders -/

def hashTxSorter (tx1 tx2 : T) : Bool := getFullHash tx1 < getFullHash tx2

def seqSorter (tx1 tx2 : T) : Bool := getSeqNum tx1 < getSeqNum tx2

/-- Comparing the bytes of two hashes after a bytewise exclusive or. -/
def lessThanXored (l r x : Hash) : Bool := x ^^^ l < x ^^^ r

def applyTxSorter (setHash : Hash) (tx1 tx2 : T) : Bool :=
  lessThanXored (getFullHash tx1) (getFullHash tx2) setHash

theorem hashTxSorter_byKey :
    Stl.ByKey (hashTxSorter (T := T)) (fun tx => (getFullHash tx).toNat) := by
  intro a b
  simp [hashTxSorter, BitVec.lt_def]

theorem seqSorter_byKey :
    Stl.ByKey (seqSorter (T := T)) (fun tx => (getSeqNum tx).toInt) := by
  intro a b
  simp [seqSorter, Int64.lt_iff_toInt_lt]

theorem applyTxSorter_byKey (h : Hash) :
    Stl.ByKey (applyTxSorter (T := T) h) (fun tx => (h ^^^ getFullHash tx).toNat) := by
  intro a b
  simp [applyTxSorter, lessThanXored, BitVec.lt_def]

theorem sortedForHash_sort (I : Stl.Impl) (txs : List T) :
    SortedForHash (I.sort hashTxSorter txs) :=
  (I.sort_key_le hashTxSorter_byKey txs).imp fun h => by omega

namespace TxSetFrame

variable [HashFunction]

/-! ## Queues, hashes and sizes -/

/-- The per-account queues, each in sequence order, as a traversal of the
map meets them. -/
def buildAccountTxQueues (I : Stl.Impl) (s : TxSetFrame T) : List (AccountID × List T) :=
  (I.arrange (Stl.group getSourceID s.mTransactions)).map fun (id, queue) =>
    (id, I.sort seqSorter queue)

/-- A set that remembers nothing. -/
def fresh (previousLedgerHash : Hash) (txs : List T) : TxSetFrame T where
  mPreviousLedgerHash := previousLedgerHash
  mTransactions := txs
  mHash := none
  mValid := none
  hash_ok := nofun

def sortForHash (I : Stl.Impl) (s : TxSetFrame T) : TxSetFrame T :=
  fresh s.mPreviousLedgerHash (I.sort hashTxSorter s.mTransactions)

/-- The hash of the set, with the set that remembers it: a miss sorts the
transactions first. -/
def getContentsHash (I : Stl.Impl) (s : TxSetFrame T) : Hash × TxSetFrame T :=
  match s.mHash with
  | some h => (h, s)
  | none =>
    let txs := I.sort hashTxSorter s.mTransactions
    let h := sha256 (setContents s.mPreviousLedgerHash txs)
    (h, { mPreviousLedgerHash := s.mPreviousLedgerHash
          mTransactions := txs
          mHash := some h
          mValid := none
          hash_ok := fun _ hh => ⟨sortedForHash_sort I _, (Option.some.inj hh).symm⟩ })

def sizeTx (s : TxSetFrame T) : Nat := s.mTransactions.length

def sizeOp (s : TxSetFrame T) : Nat :=
  (s.mTransactions.map fun tx => (getNumOperations tx).toNat).sum

def size (s : TxSetFrame T) (lh : LedgerHeader) : Nat :=
  if protocolVersionStartsFrom lh.ledgerVersion 11 then s.sizeOp else s.sizeTx

/-! ## What the queues hold -/

variable {s : TxSetFrame T} {I : Stl.Impl} {id : AccountID} {tx : T}

theorem mem_buildAccountTxQueues {queue : List T} : (id, queue) ∈ s.buildAccountTxQueues I
      ↔ queue = I.sort seqSorter (s.mTransactions.filter fun tx => getSourceID tx = id)
        ∧ queue ≠ [] := by
  have hsort : ∀ q : List T, I.sort seqSorter q = [] ↔ q = [] := fun q => by
    constructor
    · intro h
      have hperm := I.sort_perm seqSorter_byKey q
      rw [h] at hperm
      exact hperm.symm.eq_nil
    · rintro rfl
      exact (I.sort_perm seqSorter_byKey []).eq_nil
  simp only [buildAccountTxQueues, List.mem_map, Prod.mk.injEq, Prod.exists,
    (I.arrange_perm _).mem_iff, Stl.mem_group]
  constructor
  · rintro ⟨k, q, ⟨rfl, hne⟩, rfl, rfl⟩
    exact ⟨rfl, fun h => hne ((hsort _).mp h)⟩
  · rintro ⟨rfl, hne⟩
    exact ⟨id, _, ⟨rfl, fun h => hne ((hsort _).mpr h)⟩, rfl, rfl⟩

/-- The queue of one account. -/
def accountQueue (I : Stl.Impl) (s : TxSetFrame T) (id : AccountID) : List T :=
  I.sort seqSorter (s.mTransactions.filter fun tx => getSourceID tx = id)

theorem mem_accountQueue :
    tx ∈ s.accountQueue I id ↔ tx ∈ s.mTransactions ∧ getSourceID tx = id := by
  rw [accountQueue, I.mem_sort seqSorter_byKey, List.mem_filter]
  simp

theorem accountQueue_mem_queues (htx : tx ∈ s.mTransactions) :
    (getSourceID tx, s.accountQueue I (getSourceID tx)) ∈ s.buildAccountTxQueues I :=
  mem_buildAccountTxQueues.mpr ⟨rfl, List.ne_nil_of_mem (mem_accountQueue.mpr ⟨htx, rfl⟩)⟩

theorem nodup_buildAccountTxQueues (I : Stl.Impl) (s : TxSetFrame T) :
    ((s.buildAccountTxQueues I).map Prod.fst).Nodup := by
  have hkeys : (s.buildAccountTxQueues I).map Prod.fst
      = (I.arrange (Stl.group getSourceID s.mTransactions)).map Prod.fst := by
    rw [buildAccountTxQueues, List.map_map]
    rfl
  rw [hkeys, ((I.arrange_perm _).map Prod.fst).nodup_iff]
  exact Stl.nodup_keys_group getSourceID s.mTransactions

end TxSetFrame

end KinesisCore

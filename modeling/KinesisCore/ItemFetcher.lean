import KinesisCore.LedgerHeader

/-!
# Fetching items

The fetcher of transaction sets and of quorum sets keeps a tracker for each item: the
envelopes that wait for it, and the timer that asks the next peer. When nobody waits any
more the timer is stopped and the tracker stays. An envelope that comes to wait there later
does not start the timer again.
-/

namespace KinesisCore

open Xdr

/-- The slot of the statement, and the encoding of the rest. -/
structure SCPEnvelope where
  slotIndex : UInt64
  rest : Bytes
  deriving DecidableEq

/-- `Peer::pointer`. -/
abbrev PeerPtr := Nat

structure Tracker where
  mLastAskedPeer : Option PeerPtr := none
  mNumListRebuild : Nat := 0
  /-- How long until the next peer is asked, in milliseconds. -/
  mTimer : Option Nat := none
  mWaitingEnvelopes : List SCPEnvelope := []

/-- A call for one item, or the expiry of its timer. `next` is the peer that the overlay gives
to ask. A `recv` is one round of the loop in that call: what the herder calls with the
envelope it gets comes after it. -/
inductive ItemCall
  | fetch (envelope : SCPEnvelope) (next : Option PeerPtr)
  | stopFetch (envelope : SCPEnvelope)
  | recv
  | doesntHave (peer : PeerPtr) (next : Option PeerPtr)
  | expiry (next : Option PeerPtr)

namespace Tracker

variable (t : Tracker)

def tryNextPeer : Option PeerPtr → Tracker
  | none =>
    let mNumListRebuild := t.mNumListRebuild + 1
    -- all peers were asked: start again after a pause
    { t with
      mLastAskedPeer := none
      mNumListRebuild
      mTimer := some (1500 * min 10 mNumListRebuild) }
  | some peer => { t with mLastAskedPeer := some peer, mTimer := some 1500 }

variable (env : SCPEnvelope)

def listen : Tracker :=
  if env ∈ t.mWaitingEnvelopes then t
  else { t with mWaitingEnvelopes := t.mWaitingEnvelopes ++ [env] }

def discard : Tracker :=
  { t with mWaitingEnvelopes := t.mWaitingEnvelopes.filter (· ≠ env) }

def cancel : Tracker := { t with mTimer := none }

/-- The tracker is erased if nobody is left. -/
def clearEnvelopesBelow (slotIndex : UInt64) : Option Tracker :=
  let mWaitingEnvelopes := t.mWaitingEnvelopes.filter (¬·.slotIndex < slotIndex)
  if mWaitingEnvelopes = [] then none else some { t with mWaitingEnvelopes }

/-- A call when the item is tracked. -/
def call : ItemCall → Tracker
  | .fetch envelope _ => t.listen envelope
  | .stopFetch envelope =>
    let t := t.discard envelope
    if t.mWaitingEnvelopes = [] then t.cancel else t
  | .recv =>
    if t.mWaitingEnvelopes = [] then t.cancel
    else { t with mWaitingEnvelopes := t.mWaitingEnvelopes.dropLast }
  | .doesntHave peer next => if t.mLastAskedPeer = some peer then t.tryNextPeer next else t
  | .expiry next => if t.mTimer.isSome then t.tryNextPeer next else t

/-- Who waits for the item has it asked for. -/
def Asking : Prop := t.mWaitingEnvelopes ≠ [] → t.mTimer ≠ none

/-- An envelope comes to wait at a tracker that was stopped. -/
def Revived : ItemCall → Prop
  | .fetch _ _ => t.mTimer = none
  | _ => False

theorem asking_tryNextPeer (next : Option PeerPtr) : (t.tryNextPeer next).Asking := by
  cases next <;> exact fun _ => nofun

theorem asking_listen_iff : (t.listen env).Asking ↔ t.mTimer ≠ none := by
  unfold listen Asking
  split
  · rename_i hmem
    exact ⟨fun h => h (List.ne_nil_of_mem hmem), fun h _ => h⟩
  · simp

variable {t}

theorem asking_call_iff (h : t.Asking) (c : ItemCall) : (t.call c).Asking ↔ ¬t.Revived c := by
  cases c with
  | fetch envelope next => exact t.asking_listen_iff envelope
  | stopFetch envelope =>
    refine iff_of_true ?_ id
    dsimp only [call]
    split
    · rename_i hempty
      exact absurd hempty
    · exact fun hne => h fun hnil => hne (by simp [discard, hnil])
  | recv =>
    refine iff_of_true ?_ id
    dsimp only [call]
    split
    · rename_i hempty
      exact absurd hempty
    · rename_i hne
      exact fun _ => h hne
  | doesntHave peer next | expiry next =>
    refine iff_of_true ?_ id
    dsimp only [call]
    split
    · exact t.asking_tryNextPeer next
    · exact h

end Tracker

/-- `mTrackers`. -/
abbrev ItemFetcher := Hash → Option Tracker

inductive FetchEvent
  | call (itemHash : Hash) (c : ItemCall)
  | stopFetchingBelow (slotIndex : UInt64)

namespace ItemFetcher

variable (f : ItemFetcher)

def step : FetchEvent → ItemFetcher
  | .call itemHash c => Function.update f itemHash <|
    match f itemHash, c with
    | some t, c => some (t.call c)
    | none, .fetch envelope next => some ((({} : Tracker).listen envelope).tryNextPeer next)
    | none, _ => none
  | .stopFetchingBelow slotIndex =>
    fun itemHash => (f itemHash).bind (·.clearEnvelopesBelow slotIndex)

def Asking : Prop := ∀ itemHash, ∀ t ∈ f itemHash, t.Asking

def Revives : FetchEvent → Prop
  | .call itemHash c => ∃ t ∈ f itemHash, t.Revived c
  | .stopFetchingBelow _ => False

/-- At every moment of a run. -/
def AlwaysAsking (f : ItemFetcher) : List FetchEvent → Prop
  | [] => f.Asking
  | ev :: evs => f.Asking ∧ AlwaysAsking (f.step ev) evs

def NeverRevives (f : ItemFetcher) : List FetchEvent → Prop
  | [] => True
  | ev :: evs => ¬f.Revives ev ∧ NeverRevives (f.step ev) evs

variable {f}

theorem Asking.update_iff (h : f.Asking) {itemHash : Hash} {o : Option Tracker} :
    Asking (Function.update f itemHash o) ↔ ∀ t ∈ o, t.Asking :=
  (Function.forall_update_iff f fun _ o => ∀ t ∈ o, t.Asking).trans
    (and_iff_left fun k _ => h k)

theorem Asking.step_iff (h : f.Asking) (ev : FetchEvent) : (f.step ev).Asking ↔ ¬f.Revives ev := by
  cases ev with
  | call itemHash c =>
    refine h.update_iff.trans ?_
    unfold Revives
    cases ht : f itemHash with
    | some t => simpa [ht] using Tracker.asking_call_iff (h itemHash t ht) c
    | none =>
      refine iff_of_true (fun t ht => ?_) (by simp [ht])
      cases c with
      | fetch envelope next =>
        cases ht
        exact Tracker.asking_tryNextPeer _ next
      | _ => cases ht
  | stopFetchingBelow slotIndex =>
    refine iff_of_true (fun itemHash t' ht' => ?_) id
    obtain ⟨t, ht, hclear⟩ := Option.bind_eq_some_iff.mp ht'
    dsimp only [Tracker.clearEnvelopesBelow] at hclear
    split_ifs at hclear with hempty
    cases hclear
    exact fun _ => h itemHash t ht fun hnil => hempty (by simp [hnil])

theorem Asking.always_iff (evs : List FetchEvent) (h : f.Asking) :
    f.AlwaysAsking evs ↔ f.NeverRevives evs := by
  induction evs generalizing f with
  | nil => exact iff_of_true h trivial
  | cons ev evs ih =>
    constructor
    · rintro ⟨-, hrest⟩
      have hnext : (f.step ev).Asking := by
        cases evs with
        | nil => exact hrest
        | cons => exact hrest.1
      exact ⟨(h.step_iff ev).mp hnext, (ih hnext).mp hrest⟩
    · rintro ⟨hev, hrest⟩
      exact ⟨h, (ih ((h.step_iff ev).mpr hev)).mpr hrest⟩

/-- Each tracker that envelopes wait at has its timer running at every moment, exactly if no
`fetch` comes to a tracker whose timer is stopped. -/
theorem waiting_items_asked_iff (evs : List FetchEvent) :
    AlwaysAsking (fun _ => none) evs ↔ NeverRevives (fun _ => none) evs :=
  Asking.always_iff evs nofun

/-- The only waiting envelope is discarded, and another one needs the same item. -/
theorem second_envelope_waits :
    ∃ t, [.call 7 (.fetch ⟨9, [1]⟩ (some 3)), .call 7 (.stopFetch ⟨9, [1]⟩),
        .call 7 (.fetch ⟨9, [2]⟩ (some 3))].foldl step (fun _ => none) 7 = some t
      ∧ t.mWaitingEnvelopes = [⟨9, [2]⟩] ∧ t.mTimer = none := ⟨_, rfl, rfl, rfl⟩

end ItemFetcher

end KinesisCore

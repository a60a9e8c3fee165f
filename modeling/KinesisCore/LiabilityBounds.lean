import KinesisCore.Liabilities

/-!
# Balances and liabilities stay in bounds

What an account holds of an asset is in bounds (`Holding.InBounds`) when its
liabilities fit: the buying ones into the room below the limit, the selling
ones into what is above the reserve. The three functions that change a holding
keep it in bounds and compute without overflow, on accounts whose reserve is a
64-bit amount and on trust lines that may maintain liabilities
(`Holding.Usable`).
-/

namespace KinesisCore

open MachineInt Except AccountEntry LedgerTxn Holding List

variable {lh : LedgerHeader} {delta : Int64} {ltx' : LedgerTxn Entries}

/-! ## The reserve -/

namespace AccountEntry

/-- What the account sponsors and what of it is sponsored, as far as it
counts. -/
def sponsorships (lh : LedgerHeader) (acc : AccountEntry) : UInt32 × UInt32 :=
  match acc.extV2 with
  | some v2 =>
    if protocolVersionStartsFrom lh.ledgerVersion 14 then (v2.numSponsoring, v2.numSponsored)
    else (0, 0)
  | none => (0, 0)

/-- The entries an account keeps a reserve for: two for itself, its sub-entries
and what it sponsors, less what others sponsor. -/
def effEntries (lh : LedgerHeader) (acc : AccountEntry) : Int :=
  2 + acc.numSubEntries.toNat + (acc.sponsorships lh).1.toNat - (acc.sponsorships lh).2.toNat

def reserve (lh : LedgerHeader) (acc : AccountEntry) : Int :=
  acc.effEntries lh * lh.baseReserve.toNat

/-- The reserve is a 64-bit amount. -/
structure ReserveFits (lh : LedgerHeader) (acc : AccountEntry) : Prop where
  effEntries_nonneg : 0 ≤ acc.effEntries lh
  reserve_le : acc.reserve lh ≤ INT64_MAX.toInt

theorem reserve_nonneg {acc : AccountEntry} (h : acc.ReserveFits lh) :
    0 ≤ acc.reserve lh :=
  Int.mul_nonneg h.effEntries_nonneg (Int.natCast_nonneg _)

end AccountEntry

/-- A signed operation with the exact value `v`. -/
def checked (v : Int) : Except String Int64 :=
  if InRange v then return Int64.ofInt v else throw "signed overflow"

theorem checked_eq {v : Int} {x : Int64} (h : x.toInt = v) : checked v = .ok x := by
  subst h
  rw [checked, if_pos (inRange_toInt x), Int64.ofInt_toInt]
  rfl

def getMinBalanceOfChecked (lh : LedgerHeader)
    (numSubEntries numSponsoring numSponsored : UInt32) : Except String Int64 :=
  if protocolVersionIsBefore lh.ledgerVersion 14 && (numSponsored ≠ 0 || numSponsoring ≠ 0) then
    throw "unexpected sponsorship state"
  else if protocolVersionIsBefore lh.ledgerVersion 9 then
    return ((2 + numSubEntries) * lh.baseReserve).toUInt64.toInt64
  else do
    let subEntries ← checked (2 + numSubEntries.toNat)
    let sponsoring ← checked (subEntries.toInt + numSponsoring.toNat)
    let effEntries ← checked (sponsoring.toInt - numSponsored.toNat)
    if effEntries < 0 then throw "unexpected account state"
    else checked (effEntries.toInt * lh.baseReserve.toNat)

/-- `getMinBalance` with every signed operation checked. -/
def AccountEntry.getMinBalanceChecked (lh : LedgerHeader) (acc : AccountEntry) :
    Except String Int64 :=
  getMinBalanceOfChecked lh acc.numSubEntries (acc.sponsorships lh).1 (acc.sponsorships lh).2

theorem getMinBalanceOf_eq (hv : protocolVersionIsBefore lh.ledgerVersion 9 = false)
    {numSubEntries numSponsoring numSponsored : UInt32} {entries : Int}
    (hentries : entries = 2 + numSubEntries.toNat + numSponsoring.toNat - numSponsored.toNat)
    (hsponsor : protocolVersionIsBefore lh.ledgerVersion 14 = true →
      numSponsored = 0 ∧ numSponsoring = 0)
    (hnonneg : 0 ≤ entries) (hfits : entries * lh.baseReserve.toNat ≤ INT64_MAX.toInt) :
    ∃ m, getMinBalanceOf lh numSubEntries numSponsoring numSponsored = .ok m
      ∧ getMinBalanceOfChecked lh numSubEntries numSponsoring numSponsored = .ok m
      ∧ m.toInt = entries * lh.baseReserve.toNat := by
  have h1 := numSubEntries.toNat_lt
  have h2 := numSponsoring.toNat_lt
  have htwo : (2 : Int64).toInt = 2 := by decide
  have hsub : (2 + numSubEntries.toUInt64.toInt64).toInt = 2 + numSubEntries.toNat := by
    have hterm := toInt_ofUInt32 numSubEntries
    rw [toInt_add ⟨by omega, by omega⟩, hterm, htwo]
  have hsponsoring : (2 + numSubEntries.toUInt64.toInt64 + numSponsoring.toUInt64.toInt64).toInt
      = 2 + numSubEntries.toNat + numSponsoring.toNat := by
    have hterm := toInt_ofUInt32 numSponsoring
    rw [toInt_add ⟨by omega, by omega⟩, hterm, hsub]
  have heff : (2 + numSubEntries.toUInt64.toInt64 + numSponsoring.toUInt64.toInt64
      - numSponsored.toUInt64.toInt64).toInt = entries := by
    have hterm := toInt_ofUInt32 numSponsored
    rw [toInt_sub ⟨by omega, by omega⟩, hterm, hsponsoring, hentries]
  have hstate : (protocolVersionIsBefore lh.ledgerVersion 14
      && (numSponsored ≠ 0 || numSponsoring ≠ 0)) = false := by
    cases h14 : protocolVersionIsBefore lh.ledgerVersion 14 with
    | false => rfl
    | true => simp [hsponsor h14]
  have hpos : ¬2 + numSubEntries.toUInt64.toInt64 + numSponsoring.toUInt64.toInt64
      - numSponsored.toUInt64.toInt64 < 0 := by
    rw [Int64.lt_iff_toInt_lt, heff, Int64.toInt_zero]
    omega
  have hreserve := toInt_ofUInt32 lh.baseReserve
  have hprod := Int.mul_nonneg hnonneg (Int.natCast_nonneg lh.baseReserve.toNat)
  rw [← heff, ← hreserve] at hfits hprod
  have hmul := toInt_mul ⟨Int.le_trans (by decide) hprod, hfits.trans_lt (by decide)⟩
  rw [heff, hreserve] at hmul
  refine ⟨_, ?_, ?_, hmul⟩
  · simp only [getMinBalanceOf, hstate, hv, Bool.false_eq_true, if_false, if_neg hpos]
    rfl
  · simp only [getMinBalanceOfChecked, hstate, hv, Bool.false_eq_true, if_false]
    have hsponsoring' := hsponsoring
    have heff' := heff.trans hentries
    rw [← hsub] at hsponsoring'
    rw [← hsponsoring] at heff'
    refine bind_eq_ok.mpr ⟨_, checked_eq hsub, bind_eq_ok.mpr ⟨_, checked_eq hsponsoring',
      bind_eq_ok.mpr ⟨_, checked_eq heff', ?_⟩⟩⟩
    rw [if_neg hpos, heff]
    exact checked_eq hmul

/-- The minimum balance is the reserve. -/
theorem getMinBalance_eq {acc : AccountEntry} (hv : lh.StartsFrom 10) (h : acc.ReserveFits lh) :
    ∃ m, getMinBalance lh acc = .ok m ∧ acc.getMinBalanceChecked lh = .ok m
      ∧ m.toInt = acc.reserve lh := by
  have hcounts : getMinBalance lh acc
      = getMinBalanceOf lh acc.numSubEntries (acc.sponsorships lh).1 (acc.sponsorships lh).2 := by
    unfold getMinBalance sponsorships
    cases acc.extV2 with
    | none => rfl
    | some v2 =>
      dsimp only
      split <;> rfl
  have hsponsor : protocolVersionIsBefore lh.ledgerVersion 14 = true →
      (acc.sponsorships lh).2 = 0 ∧ (acc.sponsorships lh).1 = 0 := by
    intro h14
    have hnot : protocolVersionStartsFrom lh.ledgerVersion 14 = false := by
      simpa [protocolVersionIsBefore_eq] using h14
    unfold sponsorships
    cases acc.extV2 with
    | none => exact ⟨rfl, rfl⟩
    | some v2 => simp [hnot]
  rw [hcounts]
  exact getMinBalanceOf_eq (not_protocolVersionIsBefore (by decide : 9 ≤ 10) hv) rfl hsponsor
    h.effEntries_nonneg h.reserve_le

/-! ## Holdings in bounds -/

namespace AccountEntry

def buying (acc : AccountEntry) : Int64 := (acc.ext.map (·.liabilities.buying)).getD 0

def selling (acc : AccountEntry) : Int64 := (acc.ext.map (·.liabilities.selling)).getD 0

end AccountEntry

namespace TrustLineEntry

def buying (tl : TrustLineEntry) : Int64 := (tl.ext.map (·.liabilities.buying)).getD 0

def selling (tl : TrustLineEntry) : Int64 := (tl.ext.map (·.liabilities.selling)).getD 0

end TrustLineEntry

namespace Holding

/-- The balance and the two liabilities. -/
def balance : Holding → Int
  | account acc => acc.balance.toInt
  | trustLine tl => tl.balance.toInt
  | issuer => 0

def buying : Holding → Int
  | account acc => acc.buying.toInt
  | trustLine tl => tl.buying.toInt
  | issuer => 0

def selling : Holding → Int
  | account acc => acc.selling.toInt
  | trustLine tl => tl.selling.toInt
  | issuer => 0

/-- The largest balance. -/
def limit : Holding → Int
  | account _ => INT64_MAX.toInt
  | trustLine tl => tl.limit.toInt
  | issuer => 0

/-- The part of the balance that cannot be sold. -/
def reserve (lh : LedgerHeader) : Holding → Int
  | account acc => acc.reserve lh
  | trustLine _ => 0
  | issuer => 0

/-- The balance and the liabilities are consistent. -/
structure InBounds (lh : LedgerHeader) (h : Holding) : Prop where
  balance_nonneg : 0 ≤ h.balance
  buying_nonneg : 0 ≤ h.buying
  buying_le : h.buying ≤ h.limit - h.balance
  selling_nonneg : 0 ≤ h.selling
  selling_le : h.selling ≤ max 0 (h.balance - h.reserve lh)

/-- An account with a reserve that fits 64 bits, or a trust line that may
maintain liabilities. -/
def Usable (lh : LedgerHeader) : Holding → Prop
  | account acc => acc.ReserveFits lh
  | trustLine tl => tl.isAuthorizedToMaintainLiabilities = true
  | issuer => False

/-- The numbers of a holding. -/
structure Holds (lh : LedgerHeader) (h : Holding) (balance buying selling limit reserve : Int) :
    Prop where
  balance : h.balance = balance
  buying : h.buying = buying
  selling : h.selling = selling
  limit : h.limit = limit
  reserve : h.reserve lh = reserve

/-- The outcome of a change: it is refused, or made exactly, and what is held is
in bounds again. -/
def Changes (lh : LedgerHeader) (h : Holding) (r : Except String (Option Holding))
    (dBalance dBuying dSelling : Int) : Prop :=
  r = .ok none ∨ ∃ h', r = .ok (some h') ∧ h'.InBounds lh
    ∧ h'.Holds lh (h.balance + dBalance) (h.buying + dBuying) (h.selling + dSelling) h.limit
      (h.reserve lh)

end Holding

/-! ## What the functions do

All of them change one number of an entry by `delta` if the result is between
two bounds. -/

/-- `r` is the outcome of changing `x` by `delta`: nothing to do, done with the
new number written by `write`, or refused because it is out of bounds. -/
inductive Adjusts {α : Type} (r : Except String (Option α)) (same : α) (write : Int64 → α)
    (x delta : Int64) (low high : Int) : Prop
  | zero (hzero : delta = 0) (hr : r = .ok (some same))
  | done (hne : delta ≠ 0) (hlow : low ≤ x.toInt + delta.toInt)
      (hhigh : x.toInt + delta.toInt ≤ high) (hsum : (x + delta).toInt = x.toInt + delta.toInt)
      (hr : r = .ok (some (write (x + delta))))
  | refused (hne : delta ≠ 0)
      (hout : ¬(low ≤ x.toInt + delta.toInt ∧ x.toInt + delta.toInt ≤ high)) (hr : r = .ok none)

namespace AccountEntry

def setBuying (acc : AccountEntry) (buying : Int64) : AccountEntry :=
  { acc with ext := some { acc.extV1 with liabilities := { acc.extV1.liabilities with buying } } }

def setSelling (acc : AccountEntry) (selling : Int64) : AccountEntry :=
  { acc with ext := some { acc.extV1 with liabilities := { acc.extV1.liabilities with selling } } }

section

variable (acc : AccountEntry) (x : Int64)

@[simp] theorem selling_setBuying : (acc.setBuying x).selling = acc.selling := by
  unfold setBuying selling extV1
  cases acc.ext <;> rfl

@[simp] theorem buying_setSelling : (acc.setSelling x).buying = acc.buying := by
  unfold setSelling buying extV1
  cases acc.ext <;> rfl

theorem extV2_setBuying : (acc.setBuying x).extV2 = acc.extV2 := by
  unfold setBuying extV2 extV1
  cases acc.ext <;> rfl

theorem extV2_setSelling : (acc.setSelling x).extV2 = acc.extV2 := by
  unfold setSelling extV2 extV1
  cases acc.ext <;> rfl

/-- The reserve depends on the counts of an account only. -/
theorem reserve_congr {acc acc' : AccountEntry} (hsub : acc'.numSubEntries = acc.numSubEntries)
    (hext : acc'.extV2 = acc.extV2) (lh : LedgerHeader) : acc'.reserve lh = acc.reserve lh := by
  simp only [reserve, effEntries, sponsorships, hsub, hext]

theorem reserve_setBuying (lh : LedgerHeader) : (acc.setBuying x).reserve lh = acc.reserve lh :=
  reserve_congr (show (acc.setBuying x).numSubEntries = acc.numSubEntries from rfl)
    (acc.extV2_setBuying x) lh

theorem reserve_setSelling (lh : LedgerHeader) : (acc.setSelling x).reserve lh = acc.reserve lh :=
  reserve_congr (show (acc.setSelling x).numSubEntries = acc.numSubEntries from rfl)
    (acc.extV2_setSelling x) lh

end

end AccountEntry

namespace TrustLineEntry

def setBuying (tl : TrustLineEntry) (buying : Int64) : TrustLineEntry :=
  { tl with ext := some { tl.extV1 with liabilities := { tl.extV1.liabilities with buying } } }

def setSelling (tl : TrustLineEntry) (selling : Int64) : TrustLineEntry :=
  { tl with ext := some { tl.extV1 with liabilities := { tl.extV1.liabilities with selling } } }

section

variable (tl : TrustLineEntry) (x : Int64)

@[simp] theorem selling_setBuying : (tl.setBuying x).selling = tl.selling := by
  unfold setBuying selling extV1
  cases tl.ext <;> rfl

@[simp] theorem buying_setSelling : (tl.setSelling x).buying = tl.buying := by
  unfold setSelling buying extV1
  cases tl.ext <;> rfl

end

section

variable {lh : LedgerHeader} (hv : lh.StartsFrom 10)
  (tl : TrustLineEntry)

include hv

theorem getBuyingLiabilities_eq : tl.getBuyingLiabilities lh = .ok tl.buying := by
  rw [getBuyingLiabilities, protocolVersionIsBefore_eq, hv]
  rfl

theorem getSellingLiabilities_eq : tl.getSellingLiabilities lh = .ok tl.selling := by
  rw [getSellingLiabilities, protocolVersionIsBefore_eq, hv]
  rfl

variable {tl} in
theorem checkAuthorization_eq (hauth : tl.isAuthorizedToMaintainLiabilities = true) :
    tl.checkAuthorization lh = .ok true := by
  simp only [checkAuthorization, protocolVersionIsBefore_eq, hv, hauth]
  rfl

end

end TrustLineEntry

/-- A number in an entry that is changed within a maximum, which the rest of the
entry determines. Without a maximum every change is refused. -/
structure Counter (α : Type) where
  get : α → Int64
  set : α → Int64 → α
  room : α → Except String (Option Int64)
  get_set : ∀ a x, get (set a x) = x
  room_set : ∀ a x, room (set a x) = room a

namespace Counter

variable {α : Type} (c : Counter α)

def add (a : α) (delta : Int64) : Except String (Option α) :=
  if delta = 0 then return some a
  else do
    match ← c.room a with
    | none => return none
    | some maxBalance => return (← addBalanceTo (c.get a) delta maxBalance).map (c.set a)

variable {ltx : LedgerTxn Entries} {offer : OfferEntry} {high : Int}

/-- The number is changed if the sum is between zero and the maximum; without a maximum
there is no room for anything. -/
theorem adjusts {a : α} {room : Option Int64} (hx : 0 ≤ (c.get a).toInt)
    (hroom : c.room a = .ok room) (hhigh : ∀ m ∈ room, m.toInt = high ∧ 0 ≤ high)
    (hnone : room = none → high < 0) :
    Adjusts (c.add a delta) a (c.set a) (c.get a) delta 0 high := by
  by_cases hd : delta = 0
  · exact .zero hd (by rw [add, if_pos hd]; rfl)
  cases room with
  | none =>
    have hneg := hnone rfl
    exact .refused hd (by omega) (by rw [add, if_neg hd, hroom]; rfl)
  | some m =>
    have hadd : c.add a delta
        = do return (← addBalanceTo (c.get a) delta m).map (c.set a) := by
      rw [add, if_neg hd, hroom]
      rfl
    obtain ⟨rfl, hmax⟩ := hhigh m rfl
    rcases addBalanceTo_spec hx hmax (.inl hd) with ⟨hlow, hhigh, hsum, hval⟩ | ⟨hout, hsum⟩
    · exact .done hd hlow hhigh hval (by rw [hadd, hsum]; rfl)
    · exact .refused hd hout (by rw [hadd, hsum]; rfl)

end Counter

def AccountEntry.buyingCounter : Counter AccountEntry where
  get := buying
  set := setBuying
  room acc := .ok (some (INT64_MAX - acc.balance))
  get_set _ _ := rfl
  room_set _ _ := rfl

/-- The room for selling liabilities is what is above the reserve. -/
def AccountEntry.sellingCounter (lh : LedgerHeader) : Counter AccountEntry where
  get := selling
  set := setSelling
  room acc := do
    let maxLiabilities := acc.balance - (← getMinBalance lh acc)
    return if maxLiabilities < 0 then none else some maxLiabilities
  get_set _ _ := rfl
  room_set acc x := by
    have hmin : getMinBalance lh (acc.setSelling x) = getMinBalance lh acc := by
      simp only [getMinBalance, extV2_setSelling]
      rfl
    rw [hmin]
    rfl

def TrustLineEntry.buyingCounter (lh : LedgerHeader) : Counter TrustLineEntry where
  get := buying
  set := setBuying
  room tl := do
    return if ← tl.checkAuthorization lh then some (tl.limit - tl.balance) else none
  get_set _ _ := rfl
  room_set _ _ := rfl

def TrustLineEntry.sellingCounter (lh : LedgerHeader) : Counter TrustLineEntry where
  get := selling
  set := setSelling
  room tl := do
    return if ← tl.checkAuthorization lh then some tl.balance else none
  get_set _ _ := rfl
  room_set _ _ := rfl

section Counters

variable {lh : LedgerHeader} (hv : lh.StartsFrom 10)
  (acc : AccountEntry) (tl : TrustLineEntry) (delta : Int64)

include hv

theorem addBuyingLiabilities_eq_add :
    addBuyingLiabilities lh acc delta = buyingCounter.add acc delta := by
  have hget : getBuyingLiabilities lh acc = .ok acc.buying := getBuyingLiabilities_eq acc hv
  rw [addBuyingLiabilities, hget]
  rfl

theorem addSellingLiabilities_eq_add :
    addSellingLiabilities lh acc delta = (sellingCounter lh).add acc delta := by
  have hget : getSellingLiabilities lh acc = .ok acc.selling := getSellingLiabilities_eq acc hv
  unfold addSellingLiabilities Counter.add sellingCounter
  simp only [hget, bind, Except.bind]
  split_ifs
  · rfl
  · cases getMinBalance lh acc with
    | error e => rfl
    | ok m =>
      dsimp only
      split_ifs <;> rfl

theorem TrustLineEntry.addBuyingLiabilities_eq_add :
    tl.addBuyingLiabilities lh delta = (buyingCounter lh).add tl delta := by
  unfold addBuyingLiabilities Counter.add buyingCounter
  simp only [getBuyingLiabilities_eq hv tl, ok_bind]
  split_ifs
  · rfl
  · cases tl.checkAuthorization lh with
    | error e => rfl
    | ok auth => cases auth <;> rfl

theorem TrustLineEntry.addSellingLiabilities_eq_add :
    tl.addSellingLiabilities lh delta = (sellingCounter lh).add tl delta := by
  unfold addSellingLiabilities Counter.add sellingCounter
  simp only [getSellingLiabilities_eq hv tl, ok_bind]
  split_ifs
  · rfl
  · cases tl.checkAuthorization lh with
    | error e => rfl
    | ok auth => cases auth <;> rfl

end Counters

section Account

variable {lh : LedgerHeader} {acc : AccountEntry} (delta : Int64)
  (hv : lh.StartsFrom 10) (hbal : 0 ≤ acc.balance.toInt)

include hv hbal

theorem addBuyingLiabilities_adjusts (hbuying : 0 ≤ acc.buying.toInt) :
    Adjusts (addBuyingLiabilities lh acc delta) acc acc.setBuying acc.buying delta 0
      (INT64_MAX.toInt - acc.balance.toInt) := by
  have hmax := toInt_INT64_MAX
  have hlt := acc.balance.toInt_lt
  rw [addBuyingLiabilities_eq_add hv]
  have hroom : buyingCounter.room acc = .ok (some (INT64_MAX - acc.balance)) := rfl
  refine buyingCounter.adjusts hbuying hroom (fun m hm => ?_) nofun
  obtain rfl := Option.some.inj hm
  exact ⟨toInt_sub_of_nonneg (by decide) hbal, by omega⟩

theorem addSellingLiabilities_adjusts (hfits : acc.ReserveFits lh)
    (hselling : 0 ≤ acc.selling.toInt) :
    Adjusts (addSellingLiabilities lh acc delta) acc acc.setSelling acc.selling delta 0
      (acc.balance.toInt - acc.reserve lh) := by
  have hmax := toInt_INT64_MAX
  have hlt := acc.balance.toInt_lt
  have hnonneg := reserve_nonneg hfits
  have hle := hfits.reserve_le
  obtain ⟨m, hm, -, hmin⟩ := getMinBalance_eq hv hfits
  have habove : (acc.balance - m).toInt = acc.balance.toInt - acc.reserve lh := by
    rw [← hmin]
    exact toInt_sub ⟨by omega, by omega⟩
  have hroom : (sellingCounter lh).room acc
      = .ok (if acc.balance.toInt - acc.reserve lh < 0 then none else some (acc.balance - m)) := by
    simp only [sellingCounter, hm, Int64.lt_iff_toInt_lt, habove, Int64.toInt_zero, ok_bind]
    rfl
  rw [addSellingLiabilities_eq_add hv]
  -- below the reserve nothing but zero is accepted
  refine (sellingCounter lh).adjusts hselling hroom (fun x hx => ?_) (fun hnone => ?_)
  · split_ifs at hx with hbelow
    · cases hx
    · cases hx
      exact ⟨habove, by omega⟩
  · split_ifs at hnone with hbelow
    exact hbelow

/-- A payment out stops at the reserve and the selling liabilities; a payment in
does not care whether the account is below its reserve. -/
theorem addBalance_adjusts (hfits : acc.ReserveFits lh) (hbuying : 0 ≤ acc.buying.toInt) :
    Adjusts (addBalance lh acc delta) acc (fun balance => { acc with balance }) acc.balance delta
      (if delta.toInt < 0 then max 0 (acc.reserve lh + acc.selling.toInt) else 0)
      (INT64_MAX.toInt - acc.buying.toInt) := by
  have hmax := toInt_INT64_MAX
  have hnonneg := reserve_nonneg hfits
  have hle := hfits.reserve_le
  by_cases hzero : delta = 0
  · refine .zero hzero ?_
    rw [hzero]
    rfl
  obtain ⟨m, hm, -, hmin⟩ := getMinBalance_eq hv hfits
  have hroom := toInt_sub_of_nonneg (by decide : 0 ≤ INT64_MAX.toInt) hbuying
  rcases addBalanceTo_spec hbal (by decide : 0 ≤ INT64_MAX.toInt) (.inl hzero) with
    ⟨hlow, hhigh, hadd, hsum⟩ | ⟨hout, hadd⟩
  · have habove : (acc.balance + delta - m).toInt
        = acc.balance.toInt + delta.toInt - acc.reserve lh := by
      rw [toInt_sub ⟨by omega, by omega⟩, hsum, hmin]
    have hrun : addBalance lh acc delta
        = if delta < 0 ∧ acc.balance + delta - m < acc.selling then .ok none
          else if INT64_MAX - acc.buying < acc.balance + delta then .ok none
          else .ok (some { acc with balance := acc.balance + delta }) := by
      simp only [addBalance, if_neg hzero, hadd, hv, if_true, hm, getSellingLiabilities_eq acc hv,
        getBuyingLiabilities_eq acc hv, ok_bind]
      rfl
    simp only [Int64.lt_iff_toInt_lt, Int64.toInt_zero, habove, hroom, hsum] at hrun
    split_ifs at hrun with hsell hbuy
    · exact .refused hzero (by rw [if_pos hsell.1]; omega) hrun
    · exact .refused hzero (by omega) hrun
    · exact .done hzero (by split_ifs <;> omega) (by omega) hsum hrun
  · refine .refused hzero (by split_ifs <;> omega) ?_
    simp only [addBalance, if_neg hzero, hadd, ok_bind]
    rfl

end Account

namespace TrustLineEntry

section

variable {lh : LedgerHeader} {tl : TrustLineEntry} (delta : Int64)
  (hv : lh.StartsFrom 10)
  (hauth : tl.isAuthorizedToMaintainLiabilities = true) (hbal : 0 ≤ tl.balance.toInt)

include hv hauth hbal

theorem addBuyingLiabilities_adjusts (hbuying : 0 ≤ tl.buying.toInt)
    (hlimit : tl.balance.toInt ≤ tl.limit.toInt) :
    Adjusts (tl.addBuyingLiabilities lh delta) tl tl.setBuying tl.buying delta 0
      (tl.limit.toInt - tl.balance.toInt) := by
  have hroom : (buyingCounter lh).room tl = .ok (some (tl.limit - tl.balance)) := by
    simp only [buyingCounter, checkAuthorization_eq hv hauth, if_true, ok_bind]
    rfl
  rw [addBuyingLiabilities_eq_add hv]
  refine (buyingCounter lh).adjusts hbuying hroom (fun m hm => ?_) nofun
  cases hm
  exact ⟨toInt_sub_of_nonneg (hbal.trans hlimit) hbal, by omega⟩

theorem addSellingLiabilities_adjusts (hselling : 0 ≤ tl.selling.toInt) :
    Adjusts (tl.addSellingLiabilities lh delta) tl tl.setSelling tl.selling delta 0
      tl.balance.toInt := by
  have hroom : (sellingCounter lh).room tl = .ok (some tl.balance) := by
    simp only [sellingCounter, checkAuthorization_eq hv hauth, if_true, ok_bind]
    rfl
  rw [addSellingLiabilities_eq_add hv]
  refine (sellingCounter lh).adjusts hselling hroom (fun m hm => ?_) nofun
  cases hm
  exact ⟨rfl, hbal⟩

omit hauth in
theorem addBalanceSkipAuthorization_adjusts (hne : delta ≠ 0) (hbuying : 0 ≤ tl.buying.toInt)
    (hselling : 0 ≤ tl.selling.toInt) (hlimit : tl.balance.toInt ≤ tl.limit.toInt) :
    Adjusts (tl.addBalanceSkipAuthorization lh delta) tl (fun balance => { tl with balance })
      tl.balance delta tl.selling.toInt (tl.limit.toInt - tl.buying.toInt) := by
  have hroom := toInt_sub_of_nonneg (hbal.trans hlimit) hbuying
  rcases addBalanceTo_spec hbal (by omega : 0 ≤ tl.limit.toInt) (.inl hne) with
    ⟨hlow, hhigh, hadd, hsum⟩ | ⟨hout, hadd⟩
  · have hrun : tl.addBalanceSkipAuthorization lh delta
        = if tl.balance + delta < tl.selling then .ok none
          else if tl.limit - tl.buying < tl.balance + delta then .ok none
          else .ok (some { tl with balance := tl.balance + delta }) := by
      simp only [addBalanceSkipAuthorization, hadd, hv, if_true, getSellingLiabilities_eq hv tl,
        getBuyingLiabilities_eq hv tl, ok_bind]
      rfl
    simp only [Int64.lt_iff_toInt_lt, hroom, hsum] at hrun
    split_ifs at hrun with hsell hbuy
    · exact .refused hne (by omega) hrun
    · exact .refused hne (by omega) hrun
    · exact .done hne (by omega) (by omega) hsum hrun
  · refine .refused hne (by omega) ?_
    simp only [addBalanceSkipAuthorization, hadd, ok_bind]
    rfl

theorem addBalance_adjusts (hbuying : 0 ≤ tl.buying.toInt) (hselling : 0 ≤ tl.selling.toInt)
    (hlimit : tl.balance.toInt ≤ tl.limit.toInt) :
    Adjusts (tl.addBalance lh delta) tl (fun balance => { tl with balance }) tl.balance delta
      tl.selling.toInt (tl.limit.toInt - tl.buying.toInt) := by
  by_cases hne : delta = 0
  · refine .zero hne ?_
    rw [hne]
    rfl
  · have hrun : tl.addBalance lh delta = tl.addBalanceSkipAuthorization lh delta := by
      simp only [addBalance, if_neg hne, checkAuthorization_eq hv hauth, ok_bind]
      rfl
    rw [hrun]
    exact addBalanceSkipAuthorization_adjusts delta hv hbal hne hbuying hselling hlimit

end

end TrustLineEntry

/-! ## Every change keeps the bounds -/

namespace Holding

def setBalance : Holding → Int64 → Holding
  | account acc, balance => account { acc with balance }
  | trustLine tl, balance => trustLine { tl with balance }
  | issuer, _ => issuer

def setBuying : Holding → Int64 → Holding
  | account acc, buying => account (acc.setBuying buying)
  | trustLine tl, buying => trustLine (tl.setBuying buying)
  | issuer, _ => issuer

def setSelling : Holding → Int64 → Holding
  | account acc, selling => account (acc.setSelling selling)
  | trustLine tl, selling => trustLine (tl.setSelling selling)
  | issuer, _ => issuer

section

variable {lh : LedgerHeader} {h : Holding} (husable : h.Usable lh) (x : Int64)

include husable

theorem holds_setBalance :
    (h.setBalance x).Holds lh x.toInt h.buying h.selling h.limit (h.reserve lh) := by
  cases h with
  | account acc => exact ⟨rfl, rfl, rfl, rfl, reserve_congr rfl rfl lh⟩
  | trustLine tl => exact ⟨rfl, rfl, rfl, rfl, rfl⟩
  | issuer => exact husable.elim

theorem holds_setBuying :
    (h.setBuying x).Holds lh h.balance x.toInt h.selling h.limit (h.reserve lh) := by
  cases h with
  | account acc =>
    exact ⟨rfl, rfl, congrArg Int64.toInt (acc.selling_setBuying x), rfl,
      acc.reserve_setBuying x lh⟩
  | trustLine tl => exact ⟨rfl, rfl, congrArg Int64.toInt (tl.selling_setBuying x), rfl, rfl⟩
  | issuer => exact husable.elim

theorem holds_setSelling :
    (h.setSelling x).Holds lh h.balance h.buying x.toInt h.limit (h.reserve lh) := by
  cases h with
  | account acc =>
    exact ⟨rfl, congrArg Int64.toInt (acc.buying_setSelling x), rfl, rfl,
      acc.reserve_setSelling x lh⟩
  | trustLine tl => exact ⟨rfl, congrArg Int64.toInt (tl.buying_setSelling x), rfl, rfl, rfl⟩
  | issuer => exact husable.elim

end

/-- A holding with given numbers is in bounds when they are. -/
theorem Holds.inBounds {h : Holding} {balance buying selling limit reserve : Int}
    (hh : h.Holds lh balance buying selling limit reserve) (hbal : 0 ≤ balance)
    (hbuying : 0 ≤ buying ∧ buying ≤ limit - balance)
    (hselling : 0 ≤ selling ∧ selling ≤ max 0 (balance - reserve)) : h.InBounds lh := by
  obtain ⟨rfl, rfl, rfl, rfl, rfl⟩ := hh
  exact ⟨hbal, hbuying.1, hbuying.2, hselling.1, hselling.2⟩

/-- An adjusted entry is an adjusted holding. -/
theorem adjusts_map {α : Type} {r : Except String (Option α)} {same : α} {write : Int64 → α}
    {x : Int64} {low : Int} (f : α → Holding) (h : Adjusts r same write x delta low high) :
    Adjusts (do return (← r).map f) (f same) (fun y => f (write y)) x delta low high := by
  cases h with
  | zero hzero hr => exact .zero hzero (by rw [hr]; rfl)
  | done hne hlow hhigh hsum hr => exact .done hne hlow hhigh hsum (by rw [hr]; rfl)
  | refused hne hout hr => exact .refused hne hout (by rw [hr]; rfl)

section

variable {lh : LedgerHeader} {h : Holding} (delta : Int64)
  (hv : lh.StartsFrom 10) (husable : h.Usable lh)
  (hin : h.InBounds lh)

include hv husable hin

theorem addBuyingLiabilities_adjusts :
    ∃ x : Int64, x.toInt = h.buying
      ∧ Adjusts (h.addBuyingLiabilities lh delta) h h.setBuying x delta 0
        (h.limit - h.balance) := by
  obtain ⟨hbal, hbuying, hble, hselling, hsle⟩ := hin
  cases h with
  | account acc =>
    exact ⟨acc.buying, rfl,
      adjusts_map account (KinesisCore.addBuyingLiabilities_adjusts delta hv hbal hbuying)⟩
  | trustLine tl =>
    simp only [limit, balance, buying] at hbal hbuying hble
    exact ⟨tl.buying, rfl, adjusts_map trustLine
      (tl.addBuyingLiabilities_adjusts delta hv husable hbal hbuying (by omega))⟩
  | issuer => exact husable.elim

theorem addSellingLiabilities_adjusts :
    ∃ x : Int64, x.toInt = h.selling
      ∧ Adjusts (h.addSellingLiabilities lh delta) h h.setSelling x delta 0
        (h.balance - h.reserve lh) := by
  obtain ⟨hbal, hbuying, hble, hselling, hsle⟩ := hin
  cases h with
  | account acc =>
    exact ⟨acc.selling, rfl, adjusts_map account
      (KinesisCore.addSellingLiabilities_adjusts delta hv hbal husable hselling)⟩
  | trustLine tl =>
    refine ⟨tl.selling, rfl, ?_⟩
    have hadj := tl.addSellingLiabilities_adjusts delta hv husable hbal hselling
    rw [← Int.sub_zero tl.balance.toInt] at hadj
    exact adjusts_map trustLine hadj
  | issuer => exact husable.elim

/-- The least balance after a payment out is what is reserved or sold. -/
theorem addBalance_adjusts :
    ∃ (x : Int64) (low : Int), x.toInt = h.balance ∧ 0 ≤ low
      ∧ (delta.toInt < 0 → h.selling ≤ low - h.reserve lh)
      ∧ Adjusts (h.addBalance lh delta) h h.setBalance x delta low (h.limit - h.buying) := by
  obtain ⟨hbal, hbuying, hble, hselling, hsle⟩ := hin
  cases h with
  | account acc =>
    refine ⟨acc.balance, _, rfl, ?_, ?_, adjusts_map account
      (KinesisCore.addBalance_adjusts delta hv hbal husable hbuying)⟩
    · split_ifs <;> omega
    · intro hneg
      simp only [selling, reserve]
      omega
  | trustLine tl =>
    simp only [limit, balance, buying, selling] at hbal hbuying hble hselling
    refine ⟨tl.balance, tl.selling.toInt, rfl, hselling, ?_, adjusts_map trustLine
      (tl.addBalance_adjusts delta hv husable hbal hbuying hselling (by omega))⟩
    intro hneg
    simp only [selling, reserve]
    omega
  | issuer => exact husable.elim

omit hv husable in
/-- From an adjusted number to a changed holding. -/
theorem changes_of_adjusts {r : Except String (Option Holding)} {write : Int64 → Holding}
    {x delta : Int64} {low dBalance dBuying dSelling : Int}
    (hadj : Adjusts r h write x delta low high)
    (hzero : delta = 0 → dBalance = 0 ∧ dBuying = 0 ∧ dSelling = 0)
    (hdone : low ≤ x.toInt + delta.toInt → x.toInt + delta.toInt ≤ high →
      (x + delta).toInt = x.toInt + delta.toInt → (write (x + delta)).InBounds lh
        ∧ (write (x + delta)).Holds lh (h.balance + dBalance) (h.buying + dBuying)
          (h.selling + dSelling) h.limit (h.reserve lh)) :
    h.Changes lh r dBalance dBuying dSelling := by
  cases hadj with
  | zero hd hr =>
    obtain ⟨rfl, rfl, rfl⟩ := hzero hd
    exact .inr ⟨h, hr, hin, by simp, by simp, by simp, rfl, rfl⟩
  | done hne hlow hhigh hsum hr =>
    obtain ⟨hin', hholds⟩ := hdone hlow hhigh hsum
    exact .inr ⟨_, hr, hin', hholds⟩
  | refused hne hout hr => exact .inl hr

theorem changes_addBuyingLiabilities :
    h.Changes lh (h.addBuyingLiabilities lh delta) 0 delta.toInt 0 := by
  obtain ⟨x, hx, hadj⟩ := addBuyingLiabilities_adjusts delta hv husable hin
  refine changes_of_adjusts hin hadj (fun hd => by simp [hd]) fun hlow hhigh hsum => ?_
  have hholds := holds_setBuying husable (x + delta)
  rw [hsum, hx] at hholds
  rw [hx] at hlow hhigh
  obtain ⟨hbal, -, -, hselling, hsle⟩ := hin
  refine ⟨hholds.inBounds hbal ⟨hlow, hhigh⟩ ⟨hselling, hsle⟩, ?_⟩
  simpa using hholds

theorem changes_addSellingLiabilities :
    h.Changes lh (h.addSellingLiabilities lh delta) 0 0 delta.toInt := by
  obtain ⟨x, hx, hadj⟩ := addSellingLiabilities_adjusts delta hv husable hin
  refine changes_of_adjusts hin hadj (fun hd => by simp [hd]) fun hlow hhigh hsum => ?_
  have hholds := holds_setSelling husable (x + delta)
  rw [hsum, hx] at hholds
  rw [hx] at hlow hhigh
  obtain ⟨hbal, hbuying, hble, -, -⟩ := hin
  refine ⟨hholds.inBounds hbal ⟨hbuying, hble⟩ ⟨hlow, by omega⟩, ?_⟩
  simpa using hholds

theorem changes_addBalance : h.Changes lh (h.addBalance lh delta) delta.toInt 0 0 := by
  obtain ⟨x, low, hx, hnonneg, hsold, hadj⟩ := addBalance_adjusts delta hv husable hin
  refine changes_of_adjusts hin hadj (fun hd => by simp [hd]) fun hlow hhigh hsum => ?_
  have hholds := holds_setBalance husable (x + delta)
  rw [hsum, hx] at hholds
  obtain ⟨hbal, hbuying, hble, hselling, hsle⟩ := hin
  refine ⟨hholds.inBounds (by omega) ⟨hbuying, by omega⟩ ⟨hselling, ?_⟩, by simpa using hholds⟩
  by_cases hneg : delta.toInt < 0
  · omega
  · omega

end

end Holding

/-! ## Overflow

The same functions with every signed operation checked: one whose exact value is
not a 64-bit number throws. On a usable holding in bounds none does, so that the
checked functions return what the functions themselves do. -/

def addBalanceToChecked (balance delta maxBalance : Int64) : Except String (Option Int64) :=
  if ¬0 ≤ balance then throw "balance >= 0"
  else if ¬0 ≤ maxBalance then throw "maxBalance >= 0"
  else if delta = 0 then return some balance
  else do
    if delta < (← checked (-balance.toInt)) then return none
    if (← checked (maxBalance.toInt - balance.toInt)) < delta then return none
    return some (← checked (balance.toInt + delta.toInt))

namespace AccountEntry

variable (lh : LedgerHeader) (acc : AccountEntry) (delta : Int64)

def addBalanceChecked : Except String (Option AccountEntry) := do
  if delta = 0 then return some acc
  match ← addBalanceToChecked acc.balance delta INT64_MAX with
  | none => return none
  | some newBalance =>
    if protocolVersionStartsFrom lh.ledgerVersion 10 then
      let minBalance ← acc.getMinBalanceChecked lh
      if delta < 0 ∧ (← checked (newBalance.toInt - minBalance.toInt))
          < (← getSellingLiabilities lh acc) then
        return none
      let buyingLiab ← getBuyingLiabilities lh acc
      if (← checked (INT64_MAX.toInt - buyingLiab.toInt)) < newBalance then return none
    return some { acc with balance := newBalance }

def addBuyingLiabilitiesChecked : Except String (Option AccountEntry) := do
  let buyingLiab ← getBuyingLiabilities lh acc
  if delta = 0 then return some acc
  let maxLiabilities ← checked (INT64_MAX.toInt - acc.balance.toInt)
  return (← addBalanceToChecked buyingLiab delta maxLiabilities).map acc.setBuying

def addSellingLiabilitiesChecked : Except String (Option AccountEntry) := do
  let sellingLiab ← getSellingLiabilities lh acc
  if delta = 0 then return some acc
  let minBalance ← acc.getMinBalanceChecked lh
  let maxLiabilities ← checked (acc.balance.toInt - minBalance.toInt)
  if maxLiabilities < 0 then return none
  return (← addBalanceToChecked sellingLiab delta maxLiabilities).map acc.setSelling

end AccountEntry

namespace TrustLineEntry

variable (lh : LedgerHeader) (tl : TrustLineEntry) (delta : Int64)

def addBalanceChecked : Except String (Option TrustLineEntry) := do
  if delta = 0 then return some tl
  if ¬(← tl.checkAuthorization lh) then return none
  match ← addBalanceToChecked tl.balance delta tl.limit with
  | none => return none
  | some newBalance =>
    if protocolVersionStartsFrom lh.ledgerVersion 10 then
      if newBalance < (← tl.getSellingLiabilities lh) then return none
      let buyingLiab ← tl.getBuyingLiabilities lh
      if (← checked (tl.limit.toInt - buyingLiab.toInt)) < newBalance then return none
    return some { tl with balance := newBalance }

def addBuyingLiabilitiesChecked : Except String (Option TrustLineEntry) := do
  let buyingLiab ← tl.getBuyingLiabilities lh
  if delta = 0 then return some tl
  if ¬(← tl.checkAuthorization lh) then return none
  let maxLiabilities ← checked (tl.limit.toInt - tl.balance.toInt)
  return (← addBalanceToChecked buyingLiab delta maxLiabilities).map tl.setBuying

def addSellingLiabilitiesChecked : Except String (Option TrustLineEntry) := do
  let sellingLiab ← tl.getSellingLiabilities lh
  if delta = 0 then return some tl
  if ¬(← tl.checkAuthorization lh) then return none
  return (← addBalanceToChecked sellingLiab delta tl.balance).map tl.setSelling

end TrustLineEntry

section

variable {balance maxBalance : Int64}

theorem addBalanceToChecked_eq (hbal : 0 ≤ balance.toInt) (hmax : 0 ≤ maxBalance.toInt) :
    addBalanceToChecked balance delta maxBalance = addBalanceTo balance delta maxBalance := by
  have hb := balance.toInt_lt
  have hm := maxBalance.toInt_lt
  have hneg : (-balance).toInt = -balance.toInt := toInt_neg ⟨by omega, by omega⟩
  have hroom := toInt_sub_of_nonneg hmax hbal
  unfold addBalanceToChecked addBalanceTo
  rw [checked_eq hneg, checked_eq hroom]
  dsimp only [Bind.bind, Except.bind]
  split_ifs with _ _ _ hlow hhigh <;> try rfl
  rw [Int64.lt_iff_toInt_lt] at hlow hhigh
  rw [checked_eq (toInt_add ⟨by omega, by omega⟩)]

end

namespace AccountEntry

variable {lh : LedgerHeader} {acc : AccountEntry} (delta : Int64) (hv : lh.StartsFrom 10)
  (hbal : 0 ≤ acc.balance.toInt)

include hv hbal

theorem addBuyingLiabilitiesChecked_eq (hbuying : 0 ≤ acc.buying.toInt) :
    acc.addBuyingLiabilitiesChecked lh delta = addBuyingLiabilities lh acc delta := by
  have hmax := toInt_INT64_MAX
  have hlt := acc.balance.toInt_lt
  have hroom := toInt_sub_of_nonneg (by decide : 0 ≤ INT64_MAX.toInt) hbal
  have hget : getBuyingLiabilities lh acc = .ok acc.buying := getBuyingLiabilities_eq acc hv
  simp only [addBuyingLiabilitiesChecked, addBuyingLiabilities, hget, checked_eq hroom, ok_bind]
  rw [addBalanceToChecked_eq hbuying (by omega)]
  rfl

theorem addSellingLiabilitiesChecked_eq (hfits : acc.ReserveFits lh)
    (hselling : 0 ≤ acc.selling.toInt) :
    acc.addSellingLiabilitiesChecked lh delta = addSellingLiabilities lh acc delta := by
  have hnonneg := reserve_nonneg hfits
  obtain ⟨m, hm, hm', hmin⟩ := getMinBalance_eq hv hfits
  have habove := toInt_sub_of_nonneg hbal (hmin ▸ hnonneg)
  have hget : getSellingLiabilities lh acc = .ok acc.selling := getSellingLiabilities_eq acc hv
  simp only [addSellingLiabilitiesChecked, addSellingLiabilities, hget, hm, hm', checked_eq habove,
    ok_bind]
  split_ifs with _ hbelow
  · rfl
  · rfl
  · rw [Int64.lt_iff_toInt_lt, Int64.toInt_zero] at hbelow
    rw [addBalanceToChecked_eq hselling (not_lt.mp hbelow)]
    rfl

theorem addBalanceChecked_eq (hfits : acc.ReserveFits lh) (hbuying : 0 ≤ acc.buying.toInt) :
    acc.addBalanceChecked lh delta = addBalance lh acc delta := by
  have hnonneg := reserve_nonneg hfits
  obtain ⟨m, hm, hm', hmin⟩ := getMinBalance_eq hv hfits
  have hroom := toInt_sub_of_nonneg (by decide : 0 ≤ INT64_MAX.toInt) hbuying
  unfold addBalanceChecked addBalance
  rw [addBalanceToChecked_eq hbal (by decide)]
  by_cases hzero : delta = 0
  · rw [if_pos hzero, if_pos hzero]
  rw [if_neg hzero, if_neg hzero]
  rcases addBalanceTo_spec hbal (by decide : 0 ≤ INT64_MAX.toInt) (.inl hzero) with
    ⟨hlow, hhigh, hadd, hsum⟩ | ⟨-, hadd⟩
  · have habove := toInt_sub_of_nonneg (hsum ▸ hlow) (hmin ▸ hnonneg)
    simp only [hadd, hv, if_true, hm, hm', bind, Except.bind, checked_eq habove,
      getSellingLiabilities_eq acc hv, getBuyingLiabilities_eq acc hv]
    rw [show (acc.ext.map (·.liabilities.buying)).getD 0 = acc.buying from rfl, checked_eq hroom]
  · rw [hadd]
    rfl

end AccountEntry

namespace TrustLineEntry

variable {lh : LedgerHeader} {tl : TrustLineEntry} (delta : Int64) (hv : lh.StartsFrom 10)
  (hbal : 0 ≤ tl.balance.toInt)

include hv hbal

theorem addBuyingLiabilitiesChecked_eq (hbuying : 0 ≤ tl.buying.toInt)
    (hlimit : tl.balance.toInt ≤ tl.limit.toInt) :
    tl.addBuyingLiabilitiesChecked lh delta = tl.addBuyingLiabilities lh delta := by
  have hroom := toInt_sub_of_nonneg (hbal.trans hlimit) hbal
  simp only [addBuyingLiabilitiesChecked, addBuyingLiabilities, getBuyingLiabilities_eq hv,
    checked_eq hroom, ok_bind]
  rw [addBalanceToChecked_eq hbuying (by omega)]
  rfl

theorem addSellingLiabilitiesChecked_eq (hselling : 0 ≤ tl.selling.toInt) :
    tl.addSellingLiabilitiesChecked lh delta = tl.addSellingLiabilities lh delta := by
  simp only [addSellingLiabilitiesChecked, addSellingLiabilities, getSellingLiabilities_eq hv,
    ok_bind]
  rw [addBalanceToChecked_eq hselling hbal]
  rfl

theorem addBalanceChecked_eq (hbuying : 0 ≤ tl.buying.toInt)
    (hlimit : tl.balance.toInt ≤ tl.limit.toInt) :
    tl.addBalanceChecked lh delta = tl.addBalance lh delta := by
  have hroom := toInt_sub_of_nonneg (hbal.trans hlimit) hbuying
  unfold addBalanceChecked addBalance addBalanceSkipAuthorization
  rw [addBalanceToChecked_eq hbal (by omega), getSellingLiabilities_eq hv,
    getBuyingLiabilities_eq hv, hv]
  dsimp only [ok_bind]
  exact checked_eq hroom ▸ rfl

end TrustLineEntry

namespace Holding

/-- None of the three functions overflows: with every signed operation checked they
do the same. -/
structure NoOverflow (lh : LedgerHeader) (delta : Int64) (h : Holding) : Prop where
  addBalance : h.change (·.addBalanceChecked lh delta) (·.addBalanceChecked lh delta)
    = h.addBalance lh delta
  addBuyingLiabilities :
    h.change (·.addBuyingLiabilitiesChecked lh delta) (·.addBuyingLiabilitiesChecked lh delta)
      = h.addBuyingLiabilities lh delta
  addSellingLiabilities :
    h.change (·.addSellingLiabilitiesChecked lh delta) (·.addSellingLiabilitiesChecked lh delta)
      = h.addSellingLiabilities lh delta

theorem noOverflow {lh : LedgerHeader} {h : Holding} (delta : Int64) (hv : lh.StartsFrom 10)
    (husable : h.Usable lh) (hin : h.InBounds lh) : h.NoOverflow lh delta := by
  obtain ⟨hbal, hbuying, hble, hselling, -⟩ := hin
  cases h with
  | account acc =>
    refine ⟨?_, ?_, ?_⟩
    · exact congrArg (fun r => do return (← r).map account)
        (acc.addBalanceChecked_eq delta hv hbal husable hbuying)
    · exact congrArg (fun r => do return (← r).map account)
        (acc.addBuyingLiabilitiesChecked_eq delta hv hbal hbuying)
    · exact congrArg (fun r => do return (← r).map account)
        (acc.addSellingLiabilitiesChecked_eq delta hv hbal husable hselling)
  | trustLine tl =>
    simp only [limit, balance, buying, selling] at hbal hbuying hble hselling
    refine ⟨?_, ?_, ?_⟩
    · exact congrArg (fun r => do return (← r).map trustLine)
        (tl.addBalanceChecked_eq delta hv hbal hbuying (by omega))
    · exact congrArg (fun r => do return (← r).map trustLine)
        (tl.addBuyingLiabilitiesChecked_eq delta hv hbal hbuying (by omega))
    · exact congrArg (fun r => do return (← r).map trustLine)
        (tl.addSellingLiabilitiesChecked_eq delta hv hbal hselling)
  | issuer => exact husable.elim

end Holding

/-! ## Taking a change back -/

theorem addBalanceTo_undo {x maxBalance y : Int64} (hdelta : 0 < delta.toInt)
    (h : addBalanceTo x delta maxBalance = .ok (some y)) :
    addBalanceTo y (-delta) maxBalance = .ok (some x) := by
  obtain ⟨hx, hmax⟩ := addBalanceTo_nonneg h
  have hne : delta ≠ 0 := by
    rintro rfl
    simp at hdelta
  have hlt := delta.toInt_lt
  have hneg : (-delta).toInt = -delta.toInt := toInt_neg ⟨by omega, by omega⟩
  rcases addBalanceTo_spec hx hmax (.inl hne) with ⟨hlow, hhigh, hadd, hsum⟩ | ⟨-, hadd⟩
  · obtain rfl : x + delta = y := by
      rw [hadd] at h
      exact Option.some.inj (ok.inj h)
    rcases addBalanceTo_spec (hsum ▸ hlow) hmax (.inl (Int64.neg_ne_zero.mpr hne)) with
      ⟨-, -, hsub, -⟩ | ⟨hout, -⟩
    · rw [hsub, ← Int64.sub_eq_add_neg, Int64.add_sub_cancel]
    · omega
  · rw [hadd] at h
    cases h

namespace Counter

variable {α : Type} (c : Counter α)

/-- What was added can be subtracted, and leaves the number as it was. -/
theorem add_undo {a a' : α} (hdelta : 0 ≤ delta.toInt) (h : c.add a delta = .ok (some a')) :
    c.add a' (-delta) = .ok (some a) ∧ a' = a
      ∨ ∃ y, a' = c.set a y ∧ c.add a' (-delta) = .ok (some (c.set a' (c.get a))) := by
  unfold add at h
  by_cases hzero : delta = 0
  · subst hzero
    cases h
    exact .inl ⟨by simp [add], rfl⟩
  rw [if_neg hzero] at h
  obtain ⟨room, hroom, h⟩ := bind_eq_ok.mp h
  cases room with
  | none => cases h
  | some maxBalance =>
    obtain ⟨res, hadd, h⟩ := bind_eq_ok.mp h
    obtain ⟨y, rfl, rfl⟩ := Option.map_eq_some_iff.mp (pure_eq_ok.mp h)
    have hpos : 0 < delta.toInt := by
      have hne : delta.toInt ≠ 0 := fun h0 => hzero (Int64.toInt_inj.mp h0)
      omega
    have hundo := addBalanceTo_undo hpos hadd
    have hne : -delta ≠ 0 := by simpa using hzero
    refine .inr ⟨y, rfl, ?_⟩
    unfold add
    rw [if_neg hne, c.room_set, hroom, c.get_set]
    simp only [hundo, ok_bind]
    rfl

end Counter

namespace Holding

/-- The balance and the two liabilities. -/
def numbers (h : Holding) : Int × Int × Int := (h.balance, h.buying, h.selling)

/-- `r` takes a holding back to the numbers of `h`, from `h'` on the way. -/
def Undone (r : Except String (Option Holding)) (h h' : Holding) : Prop :=
  ∃ h'', r = .ok (some h'') ∧ h''.numbers = h.numbers
    ∧ ∀ id asset, h.For id asset → h'.For id asset ∧ h''.For id asset

/-- A function that is a counter of the entry in a holding can be undone. -/
theorem undone_of_add {α : Type} (c : Counter α) (f : α → Holding)
    (run : Holding → Int64 → Except String (Option Holding))
    (hrun : ∀ a d, run (f a) d = do return (← c.add a d).map f)
    (hnumbers : ∀ a y, (f (c.set (c.set a y) (c.get a))).numbers = (f a).numbers)
    (hfor : ∀ a y id asset, (f a).For id asset → (f (c.set a y)).For id asset)
    {a : α} {h' : Holding} {delta : Int64} (hdelta : 0 ≤ delta.toInt)
    (hadd : run (f a) delta = .ok (some h')) : Undone (run h' (-delta)) (f a) h' := by
  rw [hrun] at hadd
  obtain ⟨res, hres, hadd⟩ := bind_eq_ok.mp hadd
  obtain ⟨a', rfl, rfl⟩ := Option.map_eq_some_iff.mp (pure_eq_ok.mp hadd)
  rcases c.add_undo hdelta hres with ⟨hback, rfl⟩ | ⟨y, rfl, hback⟩
  · exact ⟨f a', by rw [hrun, hback]; rfl, rfl, fun _ _ hf => ⟨hf, hf⟩⟩
  · refine ⟨_, by rw [hrun, hback]; rfl, hnumbers a y, fun id asset hf => ?_⟩
    exact ⟨hfor a y id asset hf, hfor _ _ id asset (hfor a y id asset hf)⟩

variable {lh : LedgerHeader} {h h' : Holding} {delta : Int64} (hdelta : 0 ≤ delta.toInt)

include hdelta

/-- A number that both accounts and trust lines have, and an issuer has not. -/
theorem undone_of_counters (run : Holding → Int64 → Except String (Option Holding))
    (ca : Counter AccountEntry) (ct : Counter TrustLineEntry)
    (hacc : ∀ acc d, run (account acc) d = do return (← ca.add acc d).map account)
    (htl : ∀ tl d, run (trustLine tl) d = do return (← ct.add tl d).map trustLine)
    (hissuer : ∀ d, run issuer d = .ok (some issuer))
    (hna : ∀ acc y, (account (ca.set (ca.set acc y) (ca.get acc))).numbers = (account acc).numbers)
    (hnt : ∀ tl y, (trustLine (ct.set (ct.set tl y) (ct.get tl))).numbers = (trustLine tl).numbers)
    (hfor : ∀ tl y id asset, (trustLine tl).For id asset → (trustLine (ct.set tl y)).For id asset)
    (hadd : run h delta = .ok (some h')) : Undone (run h' (-delta)) h h' := by
  cases h with
  | account acc => exact undone_of_add ca account run hacc hna (fun _ _ _ _ hf => hf) hdelta hadd
  | trustLine tl => exact undone_of_add ct trustLine run htl hnt hfor hdelta hadd
  | issuer =>
    rw [hissuer] at hadd
    cases hadd
    exact ⟨issuer, hissuer _, rfl, fun _ _ hf => ⟨hf, hf⟩⟩

variable (hv : lh.StartsFrom 10)

include hv

theorem addBuyingLiabilities_undo (hadd : h.addBuyingLiabilities lh delta = .ok (some h')) :
    Undone (h'.addBuyingLiabilities lh (-delta)) h h' := by
  refine undone_of_counters hdelta (fun h => h.addBuyingLiabilities lh) buyingCounter
    (TrustLineEntry.buyingCounter lh) (fun acc d => ?_) (fun tl d => ?_) (fun _ => rfl)
    (fun acc y => ?_) (fun tl y => ?_) (fun _ _ _ _ hf => hf) hadd
  · rw [← addBuyingLiabilities_eq_add hv]
    rfl
  · rw [← TrustLineEntry.addBuyingLiabilities_eq_add hv]
    rfl
  · exact congrArg (fun x : Int64 => (_, _, x.toInt)) (by simp [buyingCounter])
  · exact congrArg (fun x : Int64 => (_, _, x.toInt)) (by simp [TrustLineEntry.buyingCounter])

theorem addSellingLiabilities_undo (hadd : h.addSellingLiabilities lh delta = .ok (some h')) :
    Undone (h'.addSellingLiabilities lh (-delta)) h h' := by
  refine undone_of_counters hdelta (fun h => h.addSellingLiabilities lh) (sellingCounter lh)
    (TrustLineEntry.sellingCounter lh) (fun acc d => ?_) (fun tl d => ?_) (fun _ => rfl)
    (fun acc y => ?_) (fun tl y => ?_) (fun _ _ _ _ hf => hf) hadd
  · rw [← addSellingLiabilities_eq_add hv]
    rfl
  · rw [← TrustLineEntry.addSellingLiabilities_eq_add hv]
    rfl
  · exact congrArg (fun x : Int64 => (_, x.toInt, _)) (by simp [sellingCounter])
  · exact congrArg (fun x : Int64 => (_, x.toInt, _)) (by simp [TrustLineEntry.sellingCounter])

end Holding

/-! ## Acquiring and releasing an offer -/

/-- What a successful change of one side of an offer did. -/
theorem changeLiabilities_eq_ok
    {change : LedgerHeader → Holding → Int64 → Except String (Option Holding)} {refusal : String}
    {sellerID : AccountID} {asset : Asset} :
    changeLiabilities change refusal ltx sellerID asset delta = .ok ltx'
      ↔ ∃ h h', ltx.holding sellerID asset = some h ∧ change ltx.header h delta = .ok (some h')
        ∧ ltx' = ltx.putHolding sellerID h' := by
  unfold changeLiabilities
  cases hh : ltx.holding sellerID asset with
  | none => simp
  | some h =>
    simp only [bind_eq_ok]
    constructor
    · rintro ⟨res, hres, hput⟩
      cases res with
      | none => cases hput
      | some h' => exact ⟨h, h', rfl, hres, (pure_eq_ok.mp hput).symm⟩
    · rintro ⟨_, h', hsome, hres, rfl⟩
      cases hsome
      exact ⟨some h', hres, rfl⟩

/-- The two sides of an offer whose liabilities are acquired or released. -/
theorem acquireOrReleaseLiabilities_eq_ok {isAcquire : Bool} :
    acquireOrReleaseLiabilities ltx offer isAcquire = .ok ltx'
      ↔ offer.buying ≠ offer.selling ∧ ∃ res ltx₁, offerLiabilities ltx.header offer = .ok res
        ∧ changeLiabilities Holding.addBuyingLiabilities "could not add buying liabilities" ltx
          offer.sellerID offer.buying
          (if isAcquire then res.numSheepSend else -res.numSheepSend) = .ok ltx₁
        ∧ changeLiabilities Holding.addSellingLiabilities "could not add selling liabilities" ltx₁
          offer.sellerID offer.selling
          (if isAcquire then res.numWheatReceived else -res.numWheatReceived) = .ok ltx' := by
  have hheader : ∀ {change refusal sellerID asset delta} {ltx₁ : LedgerTxn Entries},
      changeLiabilities change refusal ltx sellerID asset delta = .ok ltx₁ →
        ltx₁.header = ltx.header := by
    intro change refusal sellerID asset delta ltx₁ h
    obtain ⟨_, _, _, _, rfl⟩ := changeLiabilities_eq_ok.mp h
    exact ltx.putHolding_header _ _
  unfold acquireOrReleaseLiabilities
  by_cases hsame : offer.buying = offer.selling
  · simp [hsame, bind_eq_ok]
  simp only [if_neg hsame, bind_eq_ok, getOfferBuyingLiabilities,
    getOfferSellingLiabilities, pure_eq_ok]
  constructor
  · rintro ⟨_, ⟨res, hres, rfl⟩, ltx₁, hbuy, _, ⟨res', hres', rfl⟩, hsell⟩
    rw [hheader hbuy, hres] at hres'
    cases hres'
    exact ⟨hsame, res, ltx₁, hres, hbuy, hsell⟩
  · rintro ⟨-, res, ltx₁, hres, hbuy, hsell⟩
    exact ⟨_, ⟨res, hres, rfl⟩, ltx₁, hbuy, _, ⟨res, by rw [hheader hbuy]; exact hres, rfl⟩, hsell⟩

theorem offerLiabilities_nonneg {res : ExchangeResultV10}
    (h : offerLiabilities lh offer = .ok res) :
    protocolVersionStartsFrom lh.ledgerVersion 10 = true ∧ 0 ≤ res.numWheatReceived.toInt
      ∧ 0 ≤ res.numSheepSend.toInt := by
  unfold offerLiabilities at h
  split_ifs at h with hv
  obtain ⟨⟨hwheat, -⟩, hsheep, -⟩ := exchangeV10WithoutPriceErrorThresholds_bounds h
  exact ⟨by simpa [protocolVersionIsBefore_eq] using hv, hwheat, hsheep⟩

/-- After an offer has acquired its liabilities, releasing them succeeds and puts
the numbers of every holding back. -/
theorem releaseLiabilities_of_acquireLiabilities (h : acquireLiabilities ltx offer = .ok ltx') :
    ∃ ltx'', releaseLiabilities ltx' offer = .ok ltx''
      ∧ ∀ id asset, (ltx''.holding id asset).map Holding.numbers
        = (ltx.holding id asset).map Holding.numbers := by
  obtain ⟨hne, res, ltx₁, hres, hbuy, hsell⟩ := acquireOrReleaseLiabilities_eq_ok.mp h
  obtain ⟨hv, hwheat, hsheep⟩ := offerLiabilities_nonneg hres
  obtain ⟨b, b', hb, hbadd, rfl⟩ := changeLiabilities_eq_ok.mp hbuy
  obtain ⟨s, s', hs, hsadd, rfl⟩ := changeLiabilities_eq_ok.mp hsell
  rw [putHolding_header] at hsadd
  obtain ⟨b'', hbundo, hbnum, hbfor⟩ := addBuyingLiabilities_undo hsheep hv hbadd
  obtain ⟨s'', hsundo, hsnum, hsfor⟩ := addSellingLiabilities_undo hwheat hv hsadd
  obtain ⟨hfb', hfb''⟩ := hbfor _ _ (holding_for hb)
  obtain ⟨hfs', hfs''⟩ := hsfor _ _ (holding_for hs)
  have hs₀ : ltx.holding offer.sellerID offer.selling = some s := by
    rw [← hs, holding_putHolding_of_ne ltx hfb' (.inr hne.symm)]
  -- the ledgers on the way: after both sides were acquired, and after the buying side is released
  have hbuying : ((ltx.putHolding offer.sellerID b').putHolding offer.sellerID s').holding
      offer.sellerID offer.buying = some b' := by
    rw [holding_putHolding_of_ne _ hfs' (.inr hne),
      holding_putHolding_self ltx hfb']
  have hselling : (((ltx.putHolding offer.sellerID b').putHolding offer.sellerID s').putHolding
      offer.sellerID b'').holding offer.sellerID offer.selling = some s' := by
    rw [holding_putHolding_of_ne _ hfb'' (.inr hne.symm),
      holding_putHolding_self _ hfs']
  refine ⟨_, acquireOrReleaseLiabilities_eq_ok.mpr ⟨hne, res, _, ?_,
    changeLiabilities_eq_ok.mpr ⟨b', b'', hbuying, ?_, rfl⟩,
    changeLiabilities_eq_ok.mpr ⟨s', s'', hselling, ?_, rfl⟩⟩, fun id asset => ?_⟩
  · simpa only [putHolding_header] using hres
  · simp only [putHolding_header]
    exact hbundo
  · simp only [putHolding_header]
    exact hsundo
  by_cases hsold : id = offer.sellerID ∧ asset = offer.selling
  · obtain ⟨rfl, rfl⟩ := hsold
    rw [holding_putHolding_self _ hfs'', hs₀, Option.map_some, Option.map_some, hsnum]
  rw [holding_putHolding_of_ne _ hfs'' (not_and_or.mp hsold)]
  by_cases hbought : id = offer.sellerID ∧ asset = offer.buying
  · obtain ⟨rfl, rfl⟩ := hbought
    rw [holding_putHolding_self _ hfb'', hb, Option.map_some, Option.map_some, hbnum]
  rw [holding_putHolding_of_ne _ hfb'' (not_and_or.mp hbought),
    holding_putHolding_of_ne _ hfs' (not_and_or.mp hsold),
    holding_putHolding_of_ne _ hfb' (not_and_or.mp hbought)]

/-- On a usable account or trust line that is in bounds, each of the three changes
is made exactly or refused, keeps the bounds and never overflows; and an offer
can always release what it acquired. -/
theorem holding_changes_in_bounds (lh : LedgerHeader)
    (hv : protocolVersionStartsFrom lh.ledgerVersion 10 = true) (h : Holding)
    (husable : h.Usable lh) (hin : h.InBounds lh) (delta : Int64) :
    (h.Changes lh (h.addBalance lh delta) delta.toInt 0 0
        ∧ h.Changes lh (h.addBuyingLiabilities lh delta) 0 delta.toInt 0
        ∧ h.Changes lh (h.addSellingLiabilities lh delta) 0 0 delta.toInt)
      ∧ h.NoOverflow lh delta
      ∧ ∀ (ltx ltx' : LedgerTxn Entries) (offer : OfferEntry),
        acquireLiabilities ltx offer = .ok ltx' →
          ∃ ltx'', releaseLiabilities ltx' offer = .ok ltx''
            ∧ ∀ id asset, (ltx''.holding id asset).map Holding.numbers
              = (ltx.holding id asset).map Holding.numbers := by
  exact ⟨⟨changes_addBalance delta hv husable hin,
    changes_addBuyingLiabilities delta hv husable hin,
    changes_addSellingLiabilities delta hv husable hin⟩, noOverflow delta hv husable hin,
    fun _ _ _ => releaseLiabilities_of_acquireLiabilities⟩

/-- A header with a given base reserve. -/
def headerWithReserve (baseReserve : UInt32) : LedgerHeader := { header45 with baseReserve }

/-- An account with twice its reserve, and the largest payment out. -/
theorem holding_changes_in_bounds_largest_payment :
    let h := Holding.account { balance := 20000000, seqNum := 7 }
    h.Changes (headerWithReserve 5000000) (h.addBalance (headerWithReserve 5000000) Int64.minValue)
      (-9223372036854775808) 0 0 :=
  (holding_changes_in_bounds (headerWithReserve 5000000) (by decide)
    (.account { balance := 20000000, seqNum := 7 }) ⟨by decide, by decide⟩
    ⟨by decide, by decide, by decide, by decide, by decide⟩ Int64.minValue).1.1

/-- A trust line in bounds that is not authorized makes the functions throw; and
with the largest base reserve the reserve of an account with 2^31 sub-entries is
not a 64-bit amount. -/
theorem holding_changes_need_usable :
    let tl : TrustLineEntry :=
      { asset := .asset (.alphaNum4 0 1), balance := 10, limit := 100, flags := 0 }
    let acc : AccountEntry := { balance := 0, seqNum := 7, numSubEntries := 0x80000000 }
    ((Holding.trustLine tl).InBounds (headerWithReserve 5000000)
        ∧ (Holding.trustLine tl).addBalance (headerWithReserve 5000000) 1
          = .error "Invalid authorization")
      ∧ (Holding.account acc).InBounds (headerWithReserve 0xffffffff)
        ∧ ¬InRange (acc.reserve (headerWithReserve 0xffffffff)) :=
  ⟨⟨⟨by decide, by decide, by decide, by decide, by decide⟩, rfl⟩,
    ⟨by decide, by decide, by decide, by decide, by decide⟩, by decide⟩

end KinesisCore

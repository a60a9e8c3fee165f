import KinesisCore.AdjustOffer
import KinesisCore.CrossOffer
import KinesisCore.LiabilityBounds

/-!
# Crossing an offer does not throw

`Ready` is what the invariants of the ledger say about one side of an offer:
its seller is the issuer of the asset, or holds it within its bounds in an entry
that may maintain liabilities. A ready holding accepts every change that its
room allows and stays ready. `buyRoom` and `sellRoom` are that room.

The only exception left is in `exchangeV10`: a strict send that crosses an offer
which `adjustOffer` has cut down to nothing.
-/

namespace KinesisCore

open LedgerTxn MachineInt Rate Sponsorship.Ledger AccountEntry

open Int64 (toInt_zero toInt_inj le_iff_toInt_le)

open Except

variable {acc : AccountEntry}

namespace Holding

/-- What can still be received. -/
def buyRoom : Holding → Int
  | account acc => INT64_MAX.toInt - acc.balance.toInt - acc.buying.toInt
  | trustLine tl => tl.limit.toInt - tl.balance.toInt - tl.buying.toInt
  | issuer => INT64_MAX.toInt

/-- What can still be sent. -/
def sellRoom (lh : LedgerHeader) : Holding → Int
  | account acc => max 0 (acc.balance.toInt - acc.reserve lh - acc.selling.toInt)
  | trustLine tl => max 0 (tl.balance.toInt - tl.selling.toInt)
  | issuer => INT64_MAX.toInt

structure Ready (lh : LedgerHeader) (h : Holding) : Prop where
  usable : h ≠ issuer → h.Usable lh
  inBounds : h.InBounds lh

/-- `h'` is `h` with other numbers. -/
structure Same (lh : LedgerHeader) (h h' : Holding) : Prop where
  usable : h.Usable lh → h'.Usable lh
  held : ∀ id asset, h.For id asset → h'.For id asset
  issuer : h' = issuer ↔ h = issuer
  counts : ∀ acc', h' = account acc' →
    ∃ acc, h = account acc ∧ acc'.numSubEntries = acc.numSubEntries ∧ acc'.extV2 = acc.extV2

theorem Same.refl (lh : LedgerHeader) (h : Holding) : h.Same lh h :=
  ⟨id, fun _ _ => id, Iff.rfl, fun acc' hacc => ⟨acc', hacc, rfl, rfl⟩⟩

section

variable (lh : LedgerHeader) (h : Holding) (x : Int64)

variable {acc' : AccountEntry}

theorem reserveFits_congr {lh : LedgerHeader}
    (hsub : acc'.numSubEntries = acc.numSubEntries) (hext : acc'.extV2 = acc.extV2)
    (hfits : acc.ReserveFits lh) : acc'.ReserveFits lh := by
  obtain ⟨heff, hle⟩ := hfits
  constructor
  · simpa only [effEntries, sponsorships, hsub, hext] using heff
  · rwa [reserve_congr hsub hext]

theorem same_account (hsub : acc'.numSubEntries = acc.numSubEntries)
    (hext : acc'.extV2 = acc.extV2) : (account acc).Same lh (account acc') := by
  refine ⟨reserveFits_congr hsub hext, fun _ _ => id, by simp, fun acc'' hacc => ?_⟩
  obtain rfl := account.inj hacc
  exact ⟨acc, rfl, hsub, hext⟩

theorem same_setBalance : h.Same lh (h.setBalance x) := by
  cases h with
  | account acc => exact same_account lh rfl rfl
  | trustLine tl =>
    exact ⟨id, fun _ _ => id, by simp [setBalance], nofun⟩
  | issuer => exact Same.refl lh _

theorem same_setBuying : h.Same lh (h.setBuying x) := by
  cases h with
  | account acc => exact same_account lh rfl (acc.extV2_setBuying x)
  | trustLine tl =>
    exact ⟨id, fun _ _ => id, by simp [setBuying], nofun⟩
  | issuer => exact Same.refl lh _

theorem same_setSelling : h.Same lh (h.setSelling x) := by
  cases h with
  | account acc => exact same_account lh rfl (acc.extV2_setSelling x)
  | trustLine tl =>
    exact ⟨id, fun _ _ => id, by simp [setSelling], nofun⟩
  | issuer => exact Same.refl lh _

end

end Holding

/-! ## Changes that are accepted -/

theorem Adjusts.accepted {r : Except String (Option Holding)} {h : Holding}
    {write : Int64 → Holding} {x delta : Int64} {low high : Int}
    (hadj : Adjusts r h write x delta low high)
    (hok : delta ≠ 0 → low ≤ x.toInt + delta.toInt ∧ x.toInt + delta.toInt ≤ high) :
    r = .ok (some h) ∨ ∃ y, r = .ok (some (write y)) := by
  cases hadj with
  | zero hzero hr => exact .inl hr
  | done hne hlow hhigh hsum hr => exact .inr ⟨_, hr⟩
  | refused hne hout hr => exact absurd (hok hne) hout

namespace Holding

/-- A change is made, and what comes out is ready again. -/
def Becomes (lh : LedgerHeader) (h : Holding) (r : Except String (Option Holding))
    (dBalance dBuying dSelling : Int) : Prop :=
  ∃ h', r = .ok (some h') ∧ h'.Ready lh ∧ h.Same lh h'
    ∧ (h ≠ issuer → h'.Holds lh (h.balance + dBalance) (h.buying + dBuying) (h.selling + dSelling)
      h.limit (h.reserve lh))

section

variable {lh : LedgerHeader} {h : Holding} {delta : Int64}

theorem becomes_of_changes {r : Except String (Option Holding)} {write : Int64 → Holding}
    {dBalance dBuying dSelling : Int} (hready : h.Ready lh)
    (hissuer : h = issuer → r = .ok (some issuer)) (hsame : ∀ y, h.Same lh (write y))
    (haccepted : h ≠ issuer → r = .ok (some h) ∨ ∃ y, r = .ok (some (write y)))
    (hchanges : h ≠ issuer → h.Changes lh r dBalance dBuying dSelling) :
    h.Becomes lh r dBalance dBuying dSelling := by
  by_cases hi : h = issuer
  · obtain rfl := hi
    exact ⟨issuer, hissuer rfl, hready, Same.refl lh _, absurd rfl⟩
  rcases hchanges hi with hrefused | ⟨h', hr, hin, hholds⟩
  · rcases haccepted hi with hr | ⟨y, hr⟩ <;> rw [hrefused] at hr <;> cases hr
  have hsame' : h.Same lh h' := by
    rcases haccepted hi with hr' | ⟨y, hr'⟩
    · rw [hr] at hr'
      obtain rfl := Option.some.inj (ok.inj hr')
      exact Same.refl lh _
    · rw [hr] at hr'
      obtain rfl := Option.some.inj (ok.inj hr')
      exact hsame y
  exact ⟨h', hr, ⟨fun _ => hsame'.usable (hready.usable hi), hin⟩, hsame', fun _ => hholds⟩

variable (hv : lh.StartsFrom 10) (hready : h.Ready lh)
include hv hready

theorem becomes_addBuyingLiabilities
    (hok : h ≠ issuer → 0 ≤ h.buying + delta.toInt ∧ h.buying + delta.toInt ≤ h.limit - h.balance) :
    h.Becomes lh (h.addBuyingLiabilities lh delta) 0 delta.toInt 0 := by
  refine becomes_of_changes hready (fun hi => by rw [hi]; rfl) (h.same_setBuying lh) (fun hi => ?_)
    fun hi => changes_addBuyingLiabilities delta hv (hready.usable hi) hready.inBounds
  obtain ⟨x, hx, hadj⟩ := addBuyingLiabilities_adjusts delta hv (hready.usable hi) hready.inBounds
  exact hadj.accepted fun _ => by rw [hx]; exact hok hi

theorem becomes_addSellingLiabilities
    (hok : h ≠ issuer → delta ≠ 0 → 0 ≤ h.selling + delta.toInt
      ∧ h.selling + delta.toInt ≤ h.balance - h.reserve lh) :
    h.Becomes lh (h.addSellingLiabilities lh delta) 0 0 delta.toInt := by
  refine becomes_of_changes hready (fun hi => by rw [hi]; rfl) (h.same_setSelling lh) (fun hi => ?_)
    fun hi => changes_addSellingLiabilities delta hv (hready.usable hi) hready.inBounds
  obtain ⟨x, hx, hadj⟩ := addSellingLiabilities_adjusts delta hv (hready.usable hi) hready.inBounds
  exact hadj.accepted fun hne => by rw [hx]; exact hok hi hne

theorem becomes_addBalance (hin : delta.toInt ≤ h.buyRoom) (hout : -delta.toInt ≤ h.sellRoom lh) :
    h.Becomes lh (h.addBalance lh delta) delta.toInt 0 0 := by
  refine becomes_of_changes hready (fun hi => by rw [hi]; rfl) (h.same_setBalance lh) (fun hi => ?_)
    fun hi => changes_addBalance delta hv (hready.usable hi) hready.inBounds
  have husable := hready.usable hi
  obtain ⟨hbal, hbuying, hble, hselling, hsle⟩ := hready.inBounds
  cases h with
  | account acc =>
    have hadj := KinesisCore.addBalance_adjusts delta hv hbal husable hbuying
    have hnonneg := reserve_nonneg husable
    refine (adjusts_map account hadj).accepted fun _ => ?_
    simp only [buyRoom, sellRoom, balance, selling, limit, reserve] at *
    constructor
    · split_ifs <;> omega
    · omega
  | trustLine tl =>
    simp only [buyRoom, sellRoom, balance, buying, selling, limit, reserve] at *
    have hadj := tl.addBalance_adjusts delta hv husable hbal hbuying hselling (by omega)
    refine (adjusts_map trustLine hadj).accepted fun _ => ⟨?_, ?_⟩ <;> omega
  | issuer => exact absurd rfl hi

/-! ## The limits of the seller -/

theorem canBuyAtMost_eq (asset : Asset) :
    ∃ x, canBuyAtMost lh asset (some h) = .ok x ∧ x.toInt = h.buyRoom ∧ 0 ≤ h.buyRoom := by
  have hmax := toInt_INT64_MAX
  obtain ⟨hbal, hbuying, hble, -, -⟩ := hready.inBounds
  cases h with
  | account acc =>
    simp only [buyRoom, balance, buying, limit] at *
    refine ⟨max (INT64_MAX - (acc.balance + acc.buying)) 0, ?_, ?_, by omega⟩
    · simp only [canBuyAtMost, KinesisCore.getMaxAmountReceive, hv, if_true,
        KinesisCore.getBuyingLiabilities_eq acc hv]
      rfl
    · have hsum : (acc.balance + acc.buying).toInt = acc.balance.toInt + acc.buying.toInt :=
        toInt_add ⟨by omega, by omega⟩
      rw [toInt_max, toInt_sub ⟨by omega, by omega⟩, toInt_zero]
      omega
  | trustLine tl =>
    simp only [buyRoom, balance, buying, limit] at *
    have hlt := tl.limit.toInt_lt
    refine ⟨max (tl.limit - tl.balance - tl.buying) 0, ?_, ?_, by omega⟩
    · simp only [canBuyAtMost, TrustLineEntry.getMaxAmountReceive, hv, if_true,
        TrustLineEntry.checkAuthorization_eq hv (hready.usable (by simp)),
        TrustLineEntry.getBuyingLiabilities_eq hv, ok_bind]
      rfl
    · have hsub := toInt_sub_of_nonneg (by omega : 0 ≤ tl.limit.toInt) hbal
      rw [toInt_max, toInt_sub ⟨by omega, by omega⟩, toInt_zero]
      omega
  | issuer => exact ⟨INT64_MAX, rfl, rfl, by decide⟩

theorem canSellAtMost_eq (asset : Asset) :
    ∃ x, canSellAtMost lh asset (some h) = .ok x ∧ x.toInt = h.sellRoom lh
      ∧ 0 ≤ h.sellRoom lh := by
  obtain ⟨hbal, -, -, hselling, hsle⟩ := hready.inBounds
  cases h with
  | account acc =>
    have hfits : acc.ReserveFits lh := hready.usable (by simp)
    have hnonneg := reserve_nonneg hfits
    have hle := hfits.reserve_le
    have hmax := toInt_INT64_MAX
    have hlt := acc.balance.toInt_lt
    simp only [sellRoom, balance, selling, reserve] at *
    obtain ⟨m, hm, -, hmin⟩ := getMinBalance_eq hv hfits
    refine ⟨max (acc.balance - m - acc.selling) 0, ?_, ?_, by omega⟩
    · simp only [canSellAtMost, KinesisCore.getAvailableBalance, hv, if_true, hm,
        KinesisCore.getSellingLiabilities_eq acc hv, ok_bind]
      rfl
    · have hsub := toInt_sub_of_nonneg hbal (hmin ▸ hnonneg)
      rw [toInt_max, toInt_sub ⟨by omega, by omega⟩, toInt_zero]
      omega
  | trustLine tl =>
    have hauth : tl.isAuthorizedToMaintainLiabilities = true := hready.usable (by simp)
    have hlt := tl.balance.toInt_lt
    simp only [sellRoom, balance, selling, reserve] at *
    refine ⟨max (tl.balance - tl.selling) 0, ?_, ?_, by omega⟩
    · simp only [canSellAtMost, hauth, if_true, TrustLineEntry.getAvailableBalance, hv,
        TrustLineEntry.checkAuthorization_eq hv hauth, TrustLineEntry.getSellingLiabilities_eq hv,
        ok_bind]
      rfl
    · rw [toInt_max, toInt_sub ⟨by omega, by omega⟩, toInt_zero]
      omega
  | issuer => exact ⟨INT64_MAX, rfl, rfl, show 0 ≤ INT64_MAX.toInt by decide⟩

end

end Holding

/-! ## The exchange with an adjusted offer -/

section

variable {price : Price} (h : price.Positive)
  {maxWheatSend maxWheatReceive maxSheepSend maxSheepReceive : Int64}
  (hadjusted : (price.rate h).adjust maxWheatSend.toInt.toNat maxSheepReceive.toInt.toNat
    = maxWheatSend.toInt.toNat)
  (hpos : 0 < maxWheatSend.toInt.toNat)

include hadjusted hpos

/-- An adjusted offer that is taken whole is paid fairly. -/
theorem exchangeTrade_fair (round : RoundingType) {t : Trade} {wheatStays : Bool}
    (ht : exchangeTrade (price.rate h) maxWheatSend.toInt.toNat maxWheatReceive.toInt.toNat
      maxSheepSend.toInt.toNat maxSheepReceive.toInt.toNat round = (t, wheatStays)) :
    (price.rate h).Fair t := by
  have hfavors := (exchangeTrade_spec h ht).2.2
  rw [exchangeTrade] at ht
  split_ifs at ht with hlt
  · cases ht
    exact fair_of_favors_wheat hfavors
  · cases ht
    exact (adjust_eq_self hpos hadjusted).2.2

/-- A strict send pays something. -/
theorem exchangeTrade_sheep_pos (hss : 0 < maxSheepSend.toInt.toNat) {t : Trade}
    {wheatStays : Bool}
    (ht : exchangeTrade (price.rate h) maxWheatSend.toInt.toNat maxWheatReceive.toInt.toNat
      maxSheepSend.toInt.toNat maxSheepReceive.toInt.toNat .PATH_PAYMENT_STRICT_SEND
        = (t, wheatStays)) : 0 < t.sheep := by
  rw [exchangeTrade] at ht
  split_ifs at ht with hlt <;> cases ht
  · have hsr : 0 < maxSheepReceive.toInt.toNat := by
      have hworth := (Nat.zero_le _).trans_lt (hlt.trans_le (value_le_sheep _ _))
      exact Nat.pos_of_mul_pos_right hworth
    exact lt_min hss hsr
  · exact (adjust_eq_self hpos hadjusted).2.1

/-- Exchanging with an adjusted offer succeeds, within its limits. -/
theorem exchangeV10_adjusted (round : RoundingType) (hwr : 0 ≤ maxWheatReceive)
    (hss : 0 < maxSheepSend) (hws : 0 ≤ maxWheatSend) (hsr : 0 ≤ maxSheepReceive) :
    ∃ t wheatStays, exchangeV10 price maxWheatSend maxWheatReceive maxSheepSend maxSheepReceive
        round = .ok (tradeResult t wheatStays)
      ∧ t.wheat ≤ maxWheatSend.toInt.toNat ∧ t.sheep ≤ maxSheepReceive.toInt.toNat := by
  rcases ht : exchangeTrade (price.rate h) maxWheatSend.toInt.toNat maxWheatReceive.toInt.toNat
    maxSheepSend.toInt.toNat maxSheepReceive.toInt.toNat round with ⟨t, wheatStays⟩
  rw [exchangeV10, exchangeV10WithoutPriceErrorThresholds_eq h hws hwr (Int64.le_of_lt hss) hsr ht]
  have hfair := exchangeTrade_fair h hadjusted hpos round ht
  obtain ⟨hwheat, hsheep, hfavors⟩ := exchangeTrade_spec h ht
  have hwheat := hwheat.trans (min_le_right _ _)
  have hsheep := hsheep.trans (min_le_left _ _)
  have hwheat_lt := hwheat.trans_lt (toNat_lt _)
  have hsheep_lt := hsheep.trans_lt (toNat_lt _)
  show ∃ t' wheatStays', applyPriceErrorThresholds price (Int64.ofNat t.wheat)
    (Int64.ofNat t.sheep) wheatStays round = _ ∧ _
  by_cases hboth : 0 < t.wheat ∧ 0 < t.sheep
  · rw [applyPriceErrorThresholds_trade h round hwheat_lt hsheep_lt hboth hfavors]
    split_ifs with hnear hnormal
    · exact ⟨t, wheatStays, rfl, hwheat, hsheep⟩
    · exact ⟨⟨0, 0⟩, wheatStays, rfl, Nat.zero_le _, Nat.zero_le _⟩
    · exact absurd ⟨hfair, .inl hnormal⟩ hnear
  · have hzero : ¬(Int64.ofNat t.wheat > 0 ∧ Int64.ofNat t.sheep > 0) := by
      rwa [gt_iff_lt, gt_iff_lt, ofNat_pos_iff hwheat_lt, ofNat_pos_iff hsheep_lt]
    by_cases hround : round = .PATH_PAYMENT_STRICT_SEND
    · subst hround
      have hsheep_pos := exchangeTrade_sheep_pos h hadjusted hpos (toNat_pos hss) ht
      have hne : Int64.ofNat t.sheep ≠ 0 := by
        rw [ne_eq, ofNat_eq_zero_iff hsheep_lt]
        omega
      refine ⟨t, wheatStays, ?_, hwheat, hsheep⟩
      unfold applyPriceErrorThresholds
      rw [if_neg hzero]
      exact if_neg hne
    · rw [applyPriceErrorThresholds_nothing hzero round hround]
      exact ⟨⟨0, 0⟩, wheatStays, rfl, Nat.zero_le _, Nat.zero_le _⟩

end

/-- Nothing is left of the offer: no exchange, and a strict send throws. -/
theorem exchangeV10_of_zero {price : Price} (h : price.Positive)
    {maxWheatReceive maxSheepSend maxSheepReceive : Int64} (round : RoundingType)
    (hwr : 0 ≤ maxWheatReceive) (hss : 0 ≤ maxSheepSend) (hsr : 0 ≤ maxSheepReceive) :
    exchangeV10 price 0 maxWheatReceive maxSheepSend maxSheepReceive round
      = if round = .PATH_PAYMENT_STRICT_SEND then .error "invalid amount of sheep sent"
        else .ok (tradeResult ⟨0, 0⟩ false) := by
  have hzero : exchangeTrade (price.rate h) (0 : Int64).toInt.toNat maxWheatReceive.toInt.toNat
      maxSheepSend.toInt.toNat maxSheepReceive.toInt.toNat round = (⟨0, 0⟩, false) := by
    have hvalue : (price.rate h).value (0 : Int64).toInt.toNat maxSheepReceive.toInt.toNat = 0 := by
      simp [Rate.value]
    rw [exchangeTrade, hvalue]
    simp [Rate.whole]
  rw [exchangeV10, exchangeV10WithoutPriceErrorThresholds_eq h (by decide) hwr hss hsr hzero]
  cases round <;> rfl

/-! ## The two sides of an offer in the ledger -/

/-- The seller and the sponsor count the offer. -/
structure Counts (ltx : LedgerTxn Entries) (oe : OfferEntry) (acc : AccountEntry) : Prop where
  seller : ltx.accounts oe.sellerID = some acc
  subEntry : 1 ≤ acc.numSubEntries
  sponsored : ∀ sponsor, oe.sponsoringID = some sponsor →
    sponsor ≠ oe.sellerID ∧ protocolVersionStartsFrom ltx.header.ledgerVersion 14 = true
      ∧ 1 ≤ acc.getNumSponsored
      ∧ ∃ sponsorAcc, ltx.accounts sponsor = some sponsorAcc ∧ 1 ≤ sponsorAcc.getNumSponsoring

/-- The seller can honour an offer: it holds `b` of what it buys and `s` of what it sells. -/
structure Sides (ltx : LedgerTxn Entries) (oe : OfferEntry) (b s : Holding) : Prop where
  version : protocolVersionStartsFrom ltx.header.ledgerVersion 10 = true
  distinct : oe.buying ≠ oe.selling
  buying : ltx.holding oe.sellerID oe.buying = some b
  selling : ltx.holding oe.sellerID oe.selling = some s
  buyReady : b.Ready ltx.header
  sellReady : s.Ready ltx.header
  counts : ∃ acc, Counts ltx oe acc

section

variable {ltx : LedgerTxn Entries} {oe : OfferEntry} {b s : Holding}

section Sides

variable (hs : Sides ltx oe b s)
include hs

theorem Sides.withAmount (amount : Int64) : Sides ltx { oe with amount } b s := by
  obtain ⟨hv, hne, hb, hsell, hbr, hsr, acc, hacc, hsub, hsponsored⟩ := hs
  exact ⟨hv, hne, hb, hsell, hbr, hsr, acc, hacc, hsub, hsponsored⟩

variable {asset : Asset} {h : Holding}

omit hs in
theorem holding_native {ltx : LedgerTxn Entries} {id : AccountID}
    (h : ltx.holding id asset = some (.account acc)) :
    ltx.accounts id = some acc := by
  have hnative : asset = .native := holding_for h
  rw [LedgerTxn.holding, if_pos hnative] at h
  obtain ⟨acc', hacc, heq⟩ := Option.map_eq_some_iff.mp h
  rw [hacc, Holding.account.inj heq]

omit hs in
/-- Writing a holding of the seller keeps what is counted. -/
theorem Counts.putHolding (hc : Counts ltx oe acc) {h' : Holding}
    (hh : ltx.holding oe.sellerID asset = some h) (hsame : h.Same ltx.header h') :
    ∃ acc', Counts (ltx.putHolding oe.sellerID h') oe acc' := by
  obtain ⟨hacc, hsub, hsponsored⟩ := hc
  cases h' with
  | account acc' =>
    obtain ⟨acc₀, rfl, hsub', hext'⟩ := hsame.counts acc' rfl
    obtain rfl : acc₀ = acc := by
      have := holding_native hh
      rw [hacc] at this
      exact (Option.some.inj this).symm
    refine ⟨acc', by simp [putHolding, putAccount], hsub' ▸ hsub, ?_⟩
    intro sponsor hsponsor
    obtain ⟨hne, hv, hcount, sponsorAcc, hsacc, hsponsoring⟩ := hsponsored sponsor hsponsor
    refine ⟨hne, hv, ?_, sponsorAcc, ?_, hsponsoring⟩
    · simpa only [getNumSponsored, hext'] using hcount
    · simpa [putHolding, putAccount, hne] using hsacc
  | trustLine tl | issuer => exact ⟨acc, hacc, hsub, hsponsored⟩

theorem Sides.putBuying {b' : Holding} (hsame : b.Same ltx.header b') (hready : b'.Ready ltx.header)
    :
    Sides (ltx.putHolding oe.sellerID b') oe b' s := by
  obtain ⟨hv, hne, hb, hsell, -, hsr, acc, hcounts⟩ := hs
  have hfor := hsame.held _ _ (holding_for hb)
  rw [← ltx.putHolding_header oe.sellerID b'] at hv hready hsr
  refine ⟨hv, hne, holding_putHolding_self ltx hfor, ?_, hready, hsr,
    hcounts.putHolding hb hsame⟩
  rw [holding_putHolding_of_ne ltx hfor (.inr hne.symm), hsell]

theorem Sides.putSelling {s' : Holding} (hsame : s.Same ltx.header s')
    (hready : s'.Ready ltx.header) : Sides (ltx.putHolding oe.sellerID s') oe b s' := by
  obtain ⟨hv, hne, hb, hsell, hbr, -, acc, hcounts⟩ := hs
  have hfor := hsame.held _ _ (holding_for hsell)
  rw [← ltx.putHolding_header oe.sellerID s'] at hv hready hbr
  refine ⟨hv, hne, ?_, holding_putHolding_self ltx hfor, hbr, hready,
    hcounts.putHolding hsell hsame⟩
  rw [holding_putHolding_of_ne ltx hfor (.inr hne), hb]

/-- Liabilities that the holdings have room for are acquired or released. -/
theorem Sides.changeLiabilities {res : ExchangeResultV10}
    (hres : offerLiabilities ltx.header oe = .ok res) (isAcquire : Bool) {dBuying dSelling : Int64}
    (hdb : (if isAcquire then res.numSheepSend else -res.numSheepSend) = dBuying)
    (hds : (if isAcquire then res.numWheatReceived else -res.numWheatReceived) = dSelling)
    (hbok : b ≠ .issuer → 0 ≤ b.buying + dBuying.toInt
      ∧ b.buying + dBuying.toInt ≤ b.limit - b.balance)
    (hsok : s ≠ .issuer → dSelling ≠ 0 → 0 ≤ s.selling + dSelling.toInt
      ∧ s.selling + dSelling.toInt ≤ s.balance - s.reserve ltx.header) :
    ∃ ltx' b' s', acquireOrReleaseLiabilities ltx oe isAcquire = .ok ltx'
      ∧ ltx'.header = ltx.header ∧ Sides ltx' oe b' s'
      ∧ (b' = .issuer ↔ b = .issuer) ∧ (s' = .issuer ↔ s = .issuer)
      ∧ (b ≠ .issuer → b'.Holds ltx.header b.balance (b.buying + dBuying.toInt) b.selling b.limit
        (b.reserve ltx.header))
      ∧ (s ≠ .issuer → s'.Holds ltx.header s.balance s.buying (s.selling + dSelling.toInt) s.limit
        (s.reserve ltx.header)) := by
  obtain ⟨b', hbadd, hbready, hbsame, hbholds⟩ :=
    Holding.becomes_addBuyingLiabilities hs.version hs.buyReady hbok
  obtain ⟨s', hsadd, hsready, hssame, hsholds⟩ :=
    Holding.becomes_addSellingLiabilities hs.version hs.sellReady hsok
  have hs₁ := hs.putBuying hbsame hbready
  rw [← ltx.putHolding_header oe.sellerID b'] at hssame hsready
  have hs₂ := hs₁.putSelling hssame hsready
  refine ⟨_, b', s', acquireOrReleaseLiabilities_eq_ok.mpr ⟨hs.distinct, res, _, hres,
    changeLiabilities_eq_ok.mpr ⟨b, b', hs.buying, by rw [hdb]; exact hbadd, rfl⟩,
    changeLiabilities_eq_ok.mpr ⟨s, s', hs₁.selling, ?_, rfl⟩⟩, ?_, hs₂, hbsame.issuer,
    hssame.issuer, fun hi => by simpa using hbholds hi, fun hi => by simpa using hsholds hi⟩
  · rw [putHolding_header, hds]
    exact hsadd
  · rw [putHolding_header, putHolding_header]

theorem Sides.putOffer : Sides (ltx.putOffer oe) oe b s := by
  obtain ⟨hv, hne, hb, hsell, hbr, hsr, acc, hacc, hsub, hsponsored⟩ := hs
  exact ⟨hv, hne, hb, hsell, hbr, hsr, acc, hacc, hsub, hsponsored⟩

omit hs in
theorem buyRoom_eq (hi : h ≠ .issuer) : h.buyRoom = h.limit - h.balance - h.buying := by
  cases h with
  | account acc => rfl
  | trustLine tl => rfl
  | issuer => exact absurd rfl hi

omit hs in
theorem sellRoom_eq (hi : h ≠ .issuer) (lh : LedgerHeader) :
    h.sellRoom lh = max 0 (h.balance - h.reserve lh - h.selling) := by
  cases h with
  | account acc => rfl
  | trustLine tl => simp [Holding.sellRoom, Holding.balance, Holding.reserve, Holding.selling]
  | issuer => exact absurd rfl hi

/-- A payment in that there is room for. -/
theorem Sides.payIn (delta : Int64) (hnonneg : 0 ≤ delta.toInt) (hroom : delta.toInt ≤ b.buyRoom)
    (refusal : String) :
    ∃ ltx' b', ltx.moveBalance oe.sellerID oe.buying delta refusal = .ok ltx'
      ∧ ltx'.header = ltx.header ∧ Sides ltx' oe b' s := by
  by_cases hzero : delta = 0
  · exact ⟨ltx, b, if_pos hzero, rfl, hs⟩
  obtain ⟨-, -, -, hsell⟩ := Holding.canSellAtMost_eq hs.version hs.buyReady oe.buying
  obtain ⟨b', hadd, hready, hsame, -⟩ :=
    Holding.becomes_addBalance hs.version hs.buyReady hroom (by omega)
  refine ⟨_, b', ?_, ltx.putHolding_header _ _, hs.putBuying hsame hready⟩
  simp only [moveBalance, if_neg hzero, hs.buying, hadd, ok_bind]
  rfl

/-- A payment out that there is room for. -/
theorem Sides.payOut (delta : Int64) (hneg : delta.toInt ≤ 0)
    (hroom : -delta.toInt ≤ s.sellRoom ltx.header) (refusal : String) :
    ∃ ltx' s', ltx.moveBalance oe.sellerID oe.selling delta refusal = .ok ltx'
      ∧ ltx'.header = ltx.header ∧ Sides ltx' oe b s'
      ∧ s.sellRoom ltx.header + delta.toInt ≤ s'.sellRoom ltx.header := by
  by_cases hzero : delta = 0
  · exact ⟨ltx, s, if_pos hzero, rfl, hs, by omega⟩
  obtain ⟨-, -, -, hbuy⟩ := Holding.canBuyAtMost_eq hs.version hs.sellReady oe.selling
  obtain ⟨s', hadd, hready, hsame, hholds⟩ :=
    Holding.becomes_addBalance hs.version hs.sellReady (by omega) hroom
  refine ⟨_, s', ?_, ltx.putHolding_header _ _, hs.putSelling hsame hready, ?_⟩
  · simp only [moveBalance, if_neg hzero, hs.selling, hadd, ok_bind]
    rfl
  · by_cases hi : s = .issuer
    · rw [hsame.issuer.mpr hi, hi]
      omega
    · obtain ⟨hbal, -, hselling, -, hreserve⟩ := hholds hi
      rw [sellRoom_eq hi, sellRoom_eq (fun hi' => hi (hsame.issuer.mp hi'))]
      omega

/-- The limits of a seller who can sell all of the offer. -/
theorem Sides.offerLimits (hroom : oe.amount.toInt ≤ s.sellRoom ltx.header) :
    ∃ canSell canBuy, KinesisCore.offerLimits ltx oe = .ok (canSell, canBuy)
      ∧ min oe.amount canSell = oe.amount ∧ canBuy.toInt = b.buyRoom ∧ 0 ≤ canBuy := by
  obtain ⟨canSell, hsell, hsroom, -⟩ := Holding.canSellAtMost_eq hs.version hs.sellReady oe.selling
  obtain ⟨canBuy, hbuy, hbroom, hbnonneg⟩ :=
    Holding.canBuyAtMost_eq hs.version hs.buyReady oe.buying
  refine ⟨canSell, canBuy, ?_, ?_, hbroom, ?_⟩
  · simp only [KinesisCore.offerLimits, hs.selling, hs.buying, hsell, hbuy, ok_bind]
    rfl
  · rw [← toInt_inj, toInt_min]
    omega
  · rw [le_iff_toInt_le, toInt_zero]
    omega

/-- Adjusting an offer of a seller who can sell all of it. -/
theorem Sides.adjustOffer (h : oe.price.Positive) (hamount : 0 ≤ oe.amount)
    (hroom : oe.amount.toInt ≤ s.sellRoom ltx.header) :
    KinesisCore.adjustOffer ltx oe = .ok
      { oe with
        amount := Int64.ofNat
          ((oe.price.rate h).adjust oe.amount.toInt.toNat b.buyRoom.toNat) } := by
  obtain ⟨canSell, canBuy, hlimits, hmin, hbuy, hbnonneg⟩ := hs.offerLimits hroom
  simp only [KinesisCore.adjustOffer, hlimits, hmin, adjustOfferAmount_eq h hamount hbnonneg, hbuy,
    ok_bind]
  rfl

end Sides

/-! ## What is left of the offer -/

variable {id : AccountID} {x : UInt32}

/-- An account that counts something has the extension that counts it. -/
theorem hasExtV2_of_count {count : AccountEntryExtensionV2 → UInt32}
    (h : 1 ≤ (acc.extV2.map count).getD 0) : ∃ v2, getAccountEntryExtensionV2 acc = .ok v2 := by
  unfold getAccountEntryExtensionV2
  cases hext : acc.extV2 with
  | none =>
    rw [hext] at h
    exact absurd (show (1 : UInt32) ≤ 0 from h) (by decide)
  | some v2 => exact ⟨v2, rfl⟩

theorem modifyAccount_eq (acc : AccountEntry) {ledger : Sponsorship.Ledger (AccountID × Int64)}
    {acc' : AccountEntry} {f : AccountEntry → Except String AccountEntry}
    (h : ledger.accounts id = some acc) (hf : f acc = .ok acc') :
    ledger.modifyAccount id f = .ok (ledger.putAccount id acc') :=
  modifyAccount_eq_ok.mpr ⟨acc, acc', h, hf, rfl⟩

/-- The offer as the functions on sponsorships see it. -/
def offerEntry (oe : OfferEntry) : Sponsorship.LedgerEntry :=
  ⟨.other .offer, oe.sellerID, oe.sponsoringID⟩

@[simp] theorem offerEntry_computeMultiplier (oe : OfferEntry) :
    (offerEntry oe).computeMultiplier = 1 := rfl

@[simp] theorem offerEntry_isClaimableBalance (oe : OfferEntry) :
    (offerEntry oe).isClaimableBalance = false := rfl

theorem current_offer (hlisted : ltx.loadOffer oe.key = some oe) :
    ltx.sponsorshipView.current (.entry oe.key) = .ok (offerEntry oe) := by
  simp [Sponsorship.Ledger.current, Sponsorship.Ledger.load, sponsorshipView, hlisted,
    offerEntry]

theorem not_lt_one (h : 1 ≤ x) : ¬x < 1 := by
  rw [UInt32.le_iff_toNat_le] at h
  rw [UInt32.lt_iff_toNat_lt]
  omega

theorem ne_zero_of_one_le (h : 1 ≤ x) : x ≠ 0 := by
  rintro rfl
  exact absurd h (by decide)

section Removal

variable {acc : AccountEntry} (hc : Counts ltx oe acc) (hlisted : ltx.loadOffer oe.key = some oe)
include hc hlisted

theorem Counts.remove_unsponsored (hid : oe.sponsoringID = none) :
    ∃ ledger, ltx.sponsorshipView.removeEntryWithPossibleSponsorship oe.key oe.sellerID
      = .ok ledger := by
  refine exists_ok_bind (current_offer hlisted)
    (exists_ok_bind (currentAccount_eq_ok.mpr hc.seller) ?_)
  simp only [offerEntry, hid]
  refine exists_ok_bind (a := ()) ?_ ⟨_, modifyAccount_eq acc hc.seller rfl⟩
  exact if_neg (not_lt_one hc.subEntry)

theorem Counts.remove_sponsored {sponsor : AccountID} (hid : oe.sponsoringID = some sponsor) :
    ∃ ledger, ltx.sponsorshipView.removeEntryWithPossibleSponsorship oe.key oe.sellerID
      = .ok ledger := by
  obtain ⟨hne, hv, hnum, sponsorAcc, hsacc, hsnum⟩ := hc.sponsored sponsor hid
  obtain ⟨v2, hv2⟩ := hasExtV2_of_count hnum
  obtain ⟨sv2, hsv2⟩ := hasExtV2_of_count hsnum
  have hsponsor : (offerEntry oe).sponsoringID = some sponsor := hid
  refine exists_ok_bind (current_offer hlisted)
    (exists_ok_bind (currentAccount_eq_ok.mpr hc.seller) ?_)
  simp only [hsponsor, offerEntry_isClaimableBalance, Bool.false_eq_true, not_false_eq_true,
    and_true, if_false, if_neg hne.symm]
  refine exists_ok_bind (currentAccount_eq_ok.mpr hsacc) (exists_ok_bind (a := ()) ?_ ?_)
  · have hsupported : Sponsorship.sponsorshipSupported ltx.header = .ok () := by
      rw [Sponsorship.sponsorshipSupported, protocolVersionIsBefore_eq, hv]
      rfl
    refine bind_eq_ok.mpr ⟨(), hsupported, ?_⟩
    simp [not_lt_one hsnum, ne_zero_of_one_le hc.subEntry, ne_zero_of_one_le hnum]
  · -- the seller loses a sub-entry, then the sponsor and the seller a sponsorship each
    refine exists_ok_bind (modifyAccount_eq acc hc.seller rfl) ?_
    refine exists_ok_bind (a := ()) (if_pos hsponsor) ?_
    refine exists_ok_bind (modifyAccount_eq sponsorAcc ?_
      (bind_eq_ok.mpr ⟨sv2, hsv2, rfl⟩)) ⟨_, modifyAccount_eq
        { acc with numSubEntries := acc.numSubEntries - (offerEntry oe).computeMultiplier } ?_
        (bind_eq_ok.mpr ⟨v2, hv2, rfl⟩)⟩
    · have hsacc' : ltx.sponsorshipView.accounts sponsor = some sponsorAcc := hsacc
      simpa [setSponsoringID, putEntry, putAccount,
        hne] using hsacc'
    · simp [setSponsoringID, putEntry, putAccount,
        hne.symm]

end Removal

/-- An offer that is counted can be taken off the book. -/
theorem Counts.removeOffer (hc : Counts ltx oe acc) (hlisted : ltx.loadOffer oe.key = some oe) :
    ∃ ltx', ltx.removeOffer oe.key oe.sellerID = .ok ltx' := by
  have hremove : ∃ ledger, ltx.sponsorshipView.removeEntryWithPossibleSponsorship oe.key
      oe.sellerID = .ok ledger := by
    cases hid : oe.sponsoringID with
    | none => exact hc.remove_unsponsored hlisted hid
    | some sponsor => exact hc.remove_sponsored hlisted hid
  obtain ⟨ledger, hledger⟩ := hremove
  exact exists_ok_bind hledger ⟨_, rfl⟩

theorem exists_offerLiabilities {lh : LedgerHeader} {oe : OfferEntry} (h : oe.price.Positive)
    (hv : lh.StartsFrom 10) (hamount : 0 ≤ oe.amount) :
    ∃ res, offerLiabilities lh oe = .ok res := by
  rw [offerLiabilities, protocolVersionIsBefore_eq, hv]
  exact ⟨_, exchangeV10WithoutPriceErrorThresholds_eq h hamount (by decide) (by decide)
    (by decide) Prod.mk.eta.symm⟩

/-- What is left of an offer finds room for its liabilities, or the offer goes. -/
theorem Sides.settleOffer (hs : Sides ltx oe b s) (h : oe.price.Positive) (hamount : 0 ≤ oe.amount)
    (hsell : oe.amount.toInt ≤ s.sellRoom ltx.header)
    (hbuy : (((oe.price.rate h).whole ((oe.price.rate h).value oe.amount.toInt.toNat
      INT64_MAX.toInt.toNat)).sheep : Int) ≤ b.buyRoom) :
    ∃ res, KinesisCore.settleOffer ltx oe = .ok res := by
  rw [KinesisCore.settleOffer]
  split
  · obtain ⟨acc, hcounts⟩ := hs.putOffer.counts
    obtain ⟨ltx', hltx'⟩ := hcounts.removeOffer (by
      simp [LedgerTxn.loadOffer, LedgerTxn.putOffer, Entries.putOffer])
    exact ⟨_, bind_eq_ok.mpr ⟨ltx', hltx', rfl⟩⟩
  · -- both liabilities fit the rooms
    have hwheat := whole_wheat_le (value_le_wheat (r := oe.price.rate h)
      oe.amount.toInt.toNat INT64_MAX.toInt.toNat)
    have hsheep := (whole_sheep_le (value_le_sheep (r := oe.price.rate h)
      oe.amount.toInt.toNat INT64_MAX.toInt.toNat)).trans_lt (toNat_lt _)
    obtain ⟨res, hres⟩ := exists_offerLiabilities h hs.version hamount
    obtain rfl := offerLiabilities_eq h hamount hres
    generalize (oe.price.rate h).whole ((oe.price.rate h).value oe.amount.toInt.toNat
      INT64_MAX.toInt.toNat) = t at *
    have hdb : (Int64.ofNat t.sheep).toInt = t.sheep := toInt_ofNat hsheep
    have hds : (Int64.ofNat t.wheat).toInt = t.wheat := toInt_ofNat (hwheat.trans_lt (toNat_lt _))
    obtain ⟨ltx', b', s', hltx', -⟩ := hs.putOffer.changeLiabilities hres true rfl rfl
      (fun hi => by
        have hin := hs.buyReady.inBounds.buying_nonneg
        rw [buyRoom_eq hi] at hbuy
        simp only [tradeResult, if_true, hdb]
        omega)
      (fun hi hne => by
        have hin := hs.sellReady.inBounds.selling_nonneg
        rw [sellRoom_eq hi] at hsell
        have hpos : (Int64.ofNat t.wheat).toInt ≠ 0 := fun hzero =>
          hne (toInt_inj.mp (hzero.trans toInt_zero.symm))
        simp only [tradeResult, if_true, hds] at hpos ⊢
        show _ ∧ _ ≤ s.balance - s.reserve ltx.header
        omega)
    exact exists_ok_bind hltx' ⟨_, rfl⟩

/-! ## Crossing -/

/-- An adjusted offer whose seller can honour it and has its liabilities. -/
structure Legitimate (ltx : LedgerTxn Entries) (oe : OfferEntry) (b s : Holding) : Prop
    extends Sides ltx oe b s where
  positive : oe.price.Positive
  adjusted : adjustOfferAmount oe.price oe.amount INT64_MAX = .ok oe.amount
  buyingLiabilities : ∀ x, getOfferBuyingLiabilities ltx.header oe = .ok x → b ≠ .issuer →
    x.toInt ≤ b.buying
  sellingLiabilities : ∀ x, getOfferSellingLiabilities ltx.header oe = .ok x → s ≠ .issuer →
    x.toInt ≤ s.selling

/-- What the seller can receive once the liabilities of the offer are released. -/
def crossingRoom (b : Holding) (buyingLiabilities : Int) : Int :=
  if b = .issuer then INT64_MAX.toInt else b.buyRoom + buyingLiabilities

/-- The trade that the liabilities of an offer are for. -/
def Legitimate.trade (hl : Legitimate ltx oe b s) : Trade :=
  (oe.price.rate hl.positive).whole ((oe.price.rate hl.positive).value oe.amount.toInt.toNat
    INT64_MAX.toInt.toNat)

section Trade

variable (hl : Legitimate ltx oe b s)
include hl

theorem Legitimate.trade_wheat : hl.trade.wheat = oe.amount.toInt.toNat :=
  whole_wheat_of_adjust (adjust_of_fixed hl.positive hl.adjusted)

theorem Legitimate.trade_sheep_lt : hl.trade.sheep < 2 ^ 63 :=
  (whole_sheep_le (value_le_sheep _ _)).trans_lt (toNat_lt INT64_MAX)

theorem Legitimate.offerLiabilities :
    KinesisCore.offerLiabilities ltx.header oe = .ok (tradeResult hl.trade false) := by
  have hamount := nonneg_of_adjustOfferAmount hl.adjusted
  obtain ⟨res, hres⟩ := exists_offerLiabilities hl.positive hl.version hamount
  rw [hres, offerLiabilities_eq hl.positive hamount hres]
  rfl

/-- The liabilities of a legitimate offer can be released, which leaves room for
all of it. -/
theorem Legitimate.releaseLiabilities :
    ∃ ltx' b' s', KinesisCore.releaseLiabilities ltx oe = .ok ltx' ∧ ltx'.header = ltx.header
      ∧ Sides ltx' oe b' s' ∧ b'.buyRoom = crossingRoom b hl.trade.sheep
      ∧ oe.amount.toInt ≤ s'.sellRoom ltx.header := by
  have hres := hl.offerLiabilities
  have hwheat := hl.trade_wheat
  have hsheep := hl.trade_sheep_lt
  have hbuying := hl.buyingLiabilities _ (bind_eq_ok.mpr ⟨_, hres, rfl⟩)
  have hselling := hl.sellingLiabilities _ (bind_eq_ok.mpr ⟨_, hres, rfl⟩)
  generalize hl.trade = t at *
  have hlt := toNat_lt oe.amount
  have hb : (Int64.ofNat t.sheep).toInt = t.sheep := toInt_ofNat hsheep
  have hs : (Int64.ofNat t.wheat).toInt = t.wheat := toInt_ofNat (by omega)
  have hdb : (-Int64.ofNat t.sheep).toInt = -t.sheep := toInt_neg_ofNat hsheep
  have hds : (-Int64.ofNat t.wheat).toInt = -t.wheat := toInt_neg_ofNat (by omega)
  simp only [tradeResult, hb, hs] at hbuying hselling
  have hbin := hl.buyReady.inBounds
  have hsin := hl.sellReady.inBounds
  obtain ⟨ltx', b', s', hltx', hheader, hsides, hbi, hsi, hbholds, hsholds⟩ :=
    hl.toSides.changeLiabilities hres false rfl rfl
      (fun hi => by
        have hle := hbuying hi
        have hroom := hbin.buying_le
        simp only [tradeResult, Bool.false_eq_true, if_false, hdb]
        omega)
      (fun hi hne => by
        have hle := hselling hi
        have hroom := hsin.selling_le
        have hpos : (-Int64.ofNat t.wheat).toInt ≠ 0 := fun hzero =>
          hne (toInt_inj.mp (hzero.trans toInt_zero.symm))
        simp only [tradeResult, Bool.false_eq_true, if_false, hds]
        omega)
  refine ⟨ltx', b', s', hltx', hheader, hsides, ?_, ?_⟩
  · rw [crossingRoom]
    split
    · rename_i hi
      rw [hbi.mpr hi]
      rfl
    · rename_i hi
      obtain ⟨hbal, hbuy, -, hlimit, -⟩ := hbholds hi
      rw [buyRoom_eq hi, buyRoom_eq (fun hi' => hi (hbi.mp hi')), hbuy]
      simp only [tradeResult, Bool.false_eq_true, if_false, hdb]
      omega
  · by_cases hi : s = .issuer
    · rw [hsi.mpr hi]
      exact Int.le_of_lt_add_one oe.amount.toInt_lt
    · obtain ⟨hbal, -, hsell, -, hreserve⟩ := hsholds hi
      rw [sellRoom_eq (fun hi' => hi (hsi.mp hi')), hsell]
      have hle := hselling hi
      have hroom := hsin.selling_le
      simp only [tradeResult, Bool.false_eq_true, if_false, hds]
      omega

omit hl in
theorem Sides.exchangeWithOffer_eq (hs : Sides ltx oe b s)
    (hsell : oe.amount.toInt ≤ s.sellRoom ltx.header) (maxWheatReceived maxSheepSend : Int64)
    (round : RoundingType) :
    ∃ canBuy : Int64, canBuy.toInt = b.buyRoom ∧ 0 ≤ canBuy
      ∧ exchangeWithOffer ltx oe maxWheatReceived maxSheepSend round
        = exchangeV10 oe.price oe.amount maxWheatReceived maxSheepSend canBuy round := by
  obtain ⟨canSell, canBuy, hlimits, hmin, hbroom, hbnonneg⟩ := hs.offerLimits hsell
  refine ⟨canBuy, hbroom, hbnonneg, ?_⟩
  simp only [exchangeWithOffer, hlimits, hmin, ok_bind]

omit hl in
/-- After an exchange within the limits both amounts move and the offer settles. -/
theorem Sides.applyExchange (hs : Sides ltx oe b s) (h : oe.price.Positive)
    (hsell : oe.amount.toInt ≤ s.sellRoom ltx.header) {t : Trade} (wheatStays : Bool)
    (hwheat : (t.wheat : Int) ≤ oe.amount.toInt) (hsheep : (t.sheep : Int) ≤ b.buyRoom) :
    ∃ res, KinesisCore.applyExchange ltx oe (tradeResult t wheatStays) = .ok res := by
  have hlt := oe.amount.toInt_lt
  obtain ⟨canBuy, -, hbroom, -⟩ := Holding.canBuyAtMost_eq hs.version hs.buyReady oe.buying
  have hsheepInt : (Int64.ofNat t.sheep).toInt = t.sheep :=
    toInt_ofNat (by have := canBuy.toInt_lt; omega)
  have hwheatInt : (Int64.ofNat t.wheat).toInt = t.wheat := toInt_ofNat (by omega)
  have hneg : (-Int64.ofNat t.wheat).toInt = -t.wheat := toInt_neg_ofNat (by omega)
  obtain ⟨ltx₁, b₁, hpay₁, hheader₁, hs₁⟩ := hs.payIn (Int64.ofNat t.sheep) (by omega) (by omega)
    "overflowed sheep balance"
  obtain ⟨ltx₂, s₂, hpay₂, hheader₂, hs₂, hroom₂⟩ := hs₁.payOut (-Int64.ofNat t.wheat) (by omega)
    (by rw [hheader₁]; omega) "overflowed wheat balance"
  refine exists_ok_bind hpay₁ (exists_ok_bind hpay₂ ?_)
  rw [hheader₁] at hroom₂
  obtain ⟨-, -, -, hsnonneg⟩ := Holding.canSellAtMost_eq hs₂.version hs₂.sellReady oe.selling
  obtain ⟨-, -, -, hbnonneg⟩ := Holding.canBuyAtMost_eq hs₂.version hs₂.buyReady oe.buying
  cases wheatStays with
  | false =>
    refine exists_ok_bind rfl ((hs₂.withAmount 0).settleOffer h (by simp) hsnonneg ?_)
    have hzero := whole_sheep_le (r := oe.price.rate h) (s := 0)
      (v := (oe.price.rate h).value (0 : Int64).toInt.toNat INT64_MAX.toInt.toNat)
      (by simp [Rate.value])
    exact (Int.ofNat_le.mpr hzero).trans hbnonneg
  | true =>
    have hleft : (oe.amount - Int64.ofNat t.wheat).toInt = oe.amount.toInt - t.wheat := by
      rw [toInt_sub] <;> rw [hwheatInt]
      exact ⟨by omega, by omega⟩
    have hleft_nonneg : 0 ≤ oe.amount - Int64.ofNat t.wheat := by
      rw [le_iff_toInt_le, toInt_zero]
      omega
    have hleft_le : (oe.amount - Int64.ofNat t.wheat).toInt ≤ s₂.sellRoom ltx₂.header := by
      rw [hheader₂, hheader₁]
      omega
    have hadjust := (hs₂.withAmount (oe.amount - Int64.ofNat t.wheat)).adjustOffer h hleft_nonneg
      hleft_le
    have hle := adjust_le (r := oe.price.rate h)
      (oe.amount - Int64.ofNat t.wheat).toInt.toNat b₁.buyRoom.toNat
    have hbuy := whole_adjust_sheep_le (r := oe.price.rate h)
      (oe.amount - Int64.ofNat t.wheat).toInt.toNat b₁.buyRoom.toNat INT64_MAX.toInt.toNat
    refine exists_ok_bind hadjust ((hs₂.withAmount _).settleOffer h ?_ ?_ ?_)
    · exact ofNat_nonneg (hle.trans_lt (toNat_lt _))
    · show (Int64.ofNat _).toInt ≤ _
      rw [toInt_ofNat (hle.trans_lt (toNat_lt _))]
      omega
    · simp only [toInt_ofNat (hle.trans_lt (toNat_lt _)), Int.toNat_natCast]
      omega

/-- The room at crossing time covers the sheep the offer was to receive. -/
theorem Legitimate.le_crossingRoom : (hl.trade.sheep : Int) ≤ crossingRoom b hl.trade.sheep := by
  obtain ⟨-, -, -, hnonneg⟩ := Holding.canBuyAtMost_eq hl.version hl.buyReady oe.buying
  have hlt := hl.trade_sheep_lt
  have hmax := toInt_INT64_MAX
  rw [crossingRoom]
  split <;> omega

/-- The offer after its liabilities were released and it was adjusted again. -/
def Legitimate.readjusted (hl : Legitimate ltx oe b s) : Nat :=
  (oe.price.rate hl.positive).adjust oe.amount.toInt.toNat (crossingRoom b hl.trade.sheep).toNat

theorem Legitimate.readjusted_pos_iff :
    0 < hl.readjusted ↔ (oe.price.rate hl.positive).Survives oe.amount.toInt.toNat
      (crossingRoom b hl.trade.sheep).toNat := by
  obtain ⟨ltx', b', s', -, -, hsides, hroom, -⟩ := hl.releaseLiabilities
  obtain ⟨canBuy, -, hbroom, -⟩ := Holding.canBuyAtMost_eq hsides.version hsides.buyReady oe.buying
  have hcovers := hl.le_crossingRoom
  refine adjust_pos_iff (adjust_of_fixed hl.positive hl.adjusted) ?_ ?_
  · rw [← hroom, ← hbroom]
    exact Nat.le_of_lt_succ (toNat_lt canBuy)
  · show hl.trade.sheep ≤ _
    omega

variable {maxWheatReceived maxSheepSend : Int64}

omit hl in
theorem crossOfferV10_eq {ltx₁ : LedgerTxn Entries} {offer : OfferEntry}
    (hwr : 0 < maxWheatReceived) (hss : 0 < maxSheepSend)
    (round : RoundingType) (hacc : ltx.accounts oe.sellerID = some acc)
    (hrelease : releaseLiabilities ltx oe = .ok ltx₁) (hadjust : adjustOffer ltx₁ oe = .ok offer) :
    crossOfferV10 ltx oe maxWheatReceived maxSheepSend round
      = (do
          let exchange ← exchangeWithOffer ltx₁ offer maxWheatReceived maxSheepSend round
          let (res, ltx) ← applyExchange ltx₁ offer exchange
          let claim := makeClaimAtom ltx.header.ledgerVersion offer.sellerID offer.offerID
            offer.selling exchange.numWheatReceived offer.buying exchange.numSheepSend
          return ({ res, exchange, claim }, ltx)) := by
  simp only [crossOfferV10, gt_iff_lt, hwr, hss, not_true_eq_false, if_false, hacc,
    Option.isNone_some, Bool.false_eq_true, hrelease]
  show (adjustOffer ltx₁ oe >>= _) = _
  rw [hadjust]
  rfl

/-- Crossing a legitimate offer fails only for a strict send, when nothing is
left of the offer after it was adjusted again. -/
theorem Legitimate.crossOfferV10_ok_iff_readjusted
    (hwr : 0 < maxWheatReceived) (hss : 0 < maxSheepSend) (round : RoundingType) :
    (∃ res, crossOfferV10 ltx oe maxWheatReceived maxSheepSend round = .ok res)
      ↔ (round = .PATH_PAYMENT_STRICT_SEND → 0 < hl.readjusted) := by
  have h := hl.positive
  have hamount := nonneg_of_adjustOfferAmount hl.adjusted
  obtain ⟨acc, hcounts⟩ := hl.counts
  obtain ⟨ltx₁, b₁, s₁, hrelease, hheader, hs₁, hroom, hsell⟩ := hl.releaseLiabilities
  rw [← hheader] at hsell
  have hadjust := hs₁.adjustOffer h hamount hsell
  have hle : hl.readjusted ≤ oe.amount.toInt.toNat := adjust_le _ _
  have hidem := adjust_idempotent (r := oe.price.rate h) oe.amount.toInt.toNat b₁.buyRoom.toNat
  have hreadjusted : (oe.price.rate h).adjust oe.amount.toInt.toNat b₁.buyRoom.toNat
      = hl.readjusted := by rw [hroom]; rfl
  rw [hreadjusted] at hadjust hidem
  rw [crossOfferV10_eq hwr hss round hcounts.seller hrelease hadjust]
  have hlt := hle.trans_lt (toNat_lt _)
  generalize hl.readjusted = x at *
  have hx : (Int64.ofNat x).toInt = x := toInt_ofNat hlt
  have hs₂ := hs₁.withAmount (Int64.ofNat x)
  have hsell₂ : (Int64.ofNat x).toInt ≤ s₁.sellRoom ltx₁.header := by
    rw [le_iff_toInt_le, toInt_zero] at hamount
    omega
  obtain ⟨canBuy, hbroom, hbnonneg, hexchange⟩ := hs₂.exchangeWithOffer_eq hsell₂ maxWheatReceived
    maxSheepSend round
  rw [hexchange]
  have happly : ∀ {t : Trade} (wheatStays : Bool), (t.wheat : Int) ≤ (Int64.ofNat x).toInt →
      (t.sheep : Int) ≤ b₁.buyRoom → ∃ res, applyExchange ltx₁ { oe with amount := Int64.ofNat x }
        (tradeResult t wheatStays) = .ok res :=
    hs₂.applyExchange h hsell₂
  rw [← hbroom] at happly hidem
  rcases Nat.eq_zero_or_pos x with rfl | hpos
  · -- nothing is left: there is no exchange, or an exception
    have hzero := exchangeV10_of_zero h round (Int64.le_of_lt hwr) (Int64.le_of_lt hss) hbnonneg
    by_cases hround : round = .PATH_PAYMENT_STRICT_SEND
    · rw [if_pos hround] at hzero
      refine ⟨fun ⟨res, hres⟩ => ?_, fun hpos => absurd (hpos hround) (Nat.lt_irrefl 0)⟩
      obtain ⟨exchange, hok, -⟩ := bind_eq_ok.mp hres
      cases hzero.symm.trans hok
    · rw [if_neg hround] at hzero
      refine ⟨fun _ hstrict => absurd hstrict hround, fun _ => ?_⟩
      rw [le_iff_toInt_le] at hbnonneg
      obtain ⟨res, hres⟩ := @happly ⟨0, 0⟩ false (by simp) hbnonneg
      exact exists_ok_bind hzero (exists_ok_bind hres ⟨_, rfl⟩)
  · refine ⟨fun _ _ => hpos, fun _ => ?_⟩
    rw [← Int.toNat_natCast x, ← hx] at hidem
    obtain ⟨t, wheatStays, hok, hwheat, hsheep⟩ := exchangeV10_adjusted h hidem (by omega) round
      (Int64.le_of_lt hwr) hss (ofNat_nonneg hlt) hbnonneg
    rw [le_iff_toInt_le, toInt_zero] at hbnonneg
    obtain ⟨res, hres⟩ := @happly t wheatStays (by omega) (by omega)
    exact exists_ok_bind hok (exists_ok_bind hres ⟨_, rfl⟩)

end Trade

/-- Crossing a legitimate offer returns normally, unless a strict send meets an
offer of which the limits of its seller leave nothing. -/
theorem crossOfferV10_ok_iff (hl : Legitimate ltx oe b s) {maxWheatReceived maxSheepSend : Int64}
    (hwr : 0 < maxWheatReceived) (hss : 0 < maxSheepSend) (round : RoundingType) {buying : Int64}
    (hbuying : getOfferBuyingLiabilities ltx.header oe = .ok buying) :
    (∃ res, crossOfferV10 ltx oe maxWheatReceived maxSheepSend round = .ok res)
      ↔ (round = .PATH_PAYMENT_STRICT_SEND → (oe.price.rate hl.positive).Survives
        oe.amount.toInt.toNat (crossingRoom b buying.toInt).toNat) := by
  obtain ⟨res, hres, rfl⟩ := map_eq_ok.mp hbuying
  obtain rfl := ok.inj (hl.offerLiabilities.symm.trans hres)
  rw [hl.crossOfferV10_ok_iff_readjusted hwr hss round, hl.readjusted_pos_iff, tradeResult,
    toInt_ofNat hl.trade_sheep_lt]

end

/-! ## Two markets -/

/-- Two units of the native asset at 1501 sheep for a thousand. -/
def dearOffer : OfferEntry :=
  { sellerID := 1, offerID := 1, selling := .native, buying := .alphaNum4 7 9, amount := 2,
    price := ⟨1501, 1000⟩ }

def dearSeller : AccountEntry :=
  { balance := 1000, seqNum := 1, numSubEntries := 2, ext := some { liabilities := ⟨0, 2⟩ } }

/-- The seller's trust line for sheep, with the liabilities of the offer. -/
def sheepLine (limit : Int64) : TrustLineEntry :=
  { asset := .asset (.alphaNum4 7 9), balance := 5, limit, flags := 1,
    ext := some { liabilities := ⟨3, 0⟩ } }

def noEntries : Entries where
  trustLines _ _ := none
  offers := []
  pools _ := none
  trustLine_asset _ _ _ h := by cases h
  offers_unique := Entries.no_offers_unique

/-- The offer in a ledger, with a limit on the sheep. -/
def market (limit : Int64) : LedgerTxn Entries where
  header := marketHeader
  accounts := Function.update (fun _ => none) 1 (some dearSeller)
  others := (noEntries.putTrustLine 1 (sheepLine limit)).putOffer dearOffer

theorem dearSeller_ready : (Holding.account dearSeller).Ready marketHeader :=
  ⟨fun _ => ⟨by decide, by decide⟩, by decide, by decide, by decide, by decide, by decide⟩

theorem sheepLine_ready {limit : Int64} (h : 8 ≤ limit.toInt) :
    (Holding.trustLine (sheepLine limit)).Ready marketHeader where
  usable _ := show ((1 : UInt32) &&& 3 ≠ 0 : Bool) = true by decide
  inBounds :=
    { balance_nonneg := show (0 : Int) ≤ 5 by decide
      buying_nonneg := show (0 : Int) ≤ 3 by decide
      buying_le := show (3 : Int) ≤ limit.toInt - 5 by omega
      selling_nonneg := show (0 : Int) ≤ 0 by decide
      selling_le := show (0 : Int) ≤ max 0 (5 - 0) by decide }

theorem market_legitimate {limit : Int64} (h : 8 ≤ limit.toInt) :
    Legitimate (market limit) dearOffer (.trustLine (sheepLine limit)) (.account dearSeller) where
  version := show protocolVersionStartsFrom marketHeader.ledgerVersion 10 = true by decide
  distinct := by decide
  buying := by
    show ((market limit).trustLine 1 (.alphaNum4 7 9)).map Holding.trustLine = _
    simp [trustLine, market, Entries.putOffer, Entries.putTrustLine, sheepLine]
  selling := by
    show ((market limit).accounts 1).map Holding.account = _
    simp [market]
  buyReady := sheepLine_ready h
  sellReady := dearSeller_ready
  counts := ⟨dearSeller, by simp [market, dearOffer], by decide, nofun⟩
  positive := by decide
  adjusted := by decide +kernel
  buyingLiabilities x hx _ := by
    have heq : getOfferBuyingLiabilities marketHeader dearOffer = .ok 3 := by decide +kernel
    obtain rfl := ok.inj (heq.symm.trans hx)
    exact Int.le_refl 3
  sellingLiabilities x hx _ := by
    have heq : getOfferSellingLiabilities marketHeader dearOffer = .ok 2 := by decide +kernel
    obtain rfl := ok.inj (heq.symm.trans hx)
    exact Int.le_refl 2

/-- With a limit of exactly the balance and the liabilities, one unit of wheat is
left, which is not fairly paid, so the offer is cut down to nothing. -/
theorem crossOfferV10_throws :
    Legitimate (market 8) dearOffer (.trustLine (sheepLine 8)) (.account dearSeller)
      ∧ crossOfferV10 (market 8) dearOffer 10 10 .PATH_PAYMENT_STRICT_SEND
        = .error "invalid amount of sheep sent" :=
  ⟨market_legitimate (by decide), Except.thrown_eq_some.mp (by decide +kernel)⟩

theorem crossOfferV10_ok_roomy :
    ∃ res, crossOfferV10 (market 100) dearOffer 10 10 .PATH_PAYMENT_STRICT_SEND = .ok res :=
  (@crossOfferV10_ok_iff (market 100) dearOffer (.trustLine (sheepLine 100)) (.account dearSeller)
    (market_legitimate (by decide)) 10 10 (by decide) (by decide) .PATH_PAYMENT_STRICT_SEND 3
    (by decide +kernel)).mpr fun _ => by decide +kernel

end KinesisCore

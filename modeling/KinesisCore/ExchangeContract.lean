import KinesisCore.AdjustOffer

/-!
# The contract of an exchange

`exchangeV10` comes with a long comment that argues which side the rounding favours, by
how much, and what the two path payment modes promise of the last offer. These are its
results, for every positive price and every limit.
-/

namespace KinesisCore

open Rate

open Int64 (toInt_zero le_iff_toInt_le lt_iff_toInt_lt)
open Int64 (le_of_lt)
open Int (natCast_mul ofNat_le toNat_of_nonneg)

variable {price : Price} {maxWheatSend maxWheatReceive maxSheepSend maxSheepReceive : Int64}

/-- Both sides get something or none does, unless the sender must spend exactly. -/
theorem exchangeTrade_sheep_pos_iff {r : Rate} {t : Trade} {wheatStays : Bool}
    {wheatSend wheatReceive sheepSend sheepReceive : Nat} {round : RoundingType}
    (ht : exchangeTrade r wheatSend wheatReceive sheepSend sheepReceive round = (t, wheatStays))
    (hround : round ≠ .PATH_PAYMENT_STRICT_SEND) : 0 < t.sheep ↔ 0 < t.wheat := by
  unfold exchangeTrade at ht
  split at ht <;> cases ht
  · unfold partTrade
    rw [if_neg hround]
    split
    · exact byWheat_sheep_pos_iff
    · rename_i hdear
      exact bySheep_sheep_pos_iff (not_lt.mp fun hlt => hdear (.inl hlt))
  · exact whole_sheep_pos_iff

/-- The effective price of a trade is within one per cent of the price. -/
def WithinOnePercent (price : Price) (res : ExchangeResultV10) : Prop :=
  100 * |res.numSheepSend.toInt * price.d.toInt - res.numWheatReceived.toInt * price.n.toInt|
    ≤ res.numWheatReceived.toInt * price.n.toInt

variable {t : Trade} (hprice : price.Positive)

/-- The values of both sides of a trade, as the parts of the price give them. -/
theorem tradeResult_values (hwheat : t.wheat < 2 ^ 63)
    (hsheep : t.sheep < 2 ^ 63) (wheatStays : Bool) :
    (tradeResult t wheatStays).numWheatReceived.toInt * price.n.toInt
        = (t.wheat * (price.rate hprice).n : Nat)
      ∧ (tradeResult t wheatStays).numSheepSend.toInt * price.d.toInt
        = (t.sheep * (price.rate hprice).d : Nat) := by
  have hn : ((price.rate hprice).n : Int) = price.n.toInt := toNat_of_nonneg hprice.n_pos.le
  have hd : ((price.rate hprice).d : Int) = price.d.toInt := toNat_of_nonneg hprice.d_pos.le
  rw [natCast_mul, natCast_mul, hn, hd]
  exact ⟨congrArg (· * _) (toInt_ofNat hwheat), congrArg (· * _) (toInt_ofNat hsheep)⟩

theorem withinOnePercent_tradeResult (hprice : price.Positive) (hwheat : t.wheat < 2 ^ 63)
    (hsheep : t.sheep < 2 ^ 63) (wheatStays : Bool) (hfair : (price.rate hprice).Fair t)
    (hnear : 100 * (t.sheep * (price.rate hprice).d) ≤ 101 * (t.wheat * (price.rate hprice).n)) :
    WithinOnePercent price (tradeResult t wheatStays) := by
  obtain ⟨hwheatValue, hsheepValue⟩ := tradeResult_values hprice hwheat hsheep wheatStays
  have hfair : 99 * (t.wheat * (price.rate hprice).n) ≤ 100 * (t.sheep * (price.rate hprice).d) :=
    hfair
  unfold WithinOnePercent
  generalize t.wheat * (price.rate hprice).n = wheatValue at *
  generalize t.sheep * (price.rate hprice).d = sheepValue at *
  rcases le_total (sheepValue : Int) wheatValue with hle | hle
  · rw [abs_of_nonpos (by omega)]
    omega
  · rw [abs_of_nonneg (by omega)]
    omega

/-- In normal mode the thresholds return, and leave nothing or a trade near the price. -/
theorem thresholds_normal (hwheat : t.wheat < 2 ^ 63)
    (hsheep : t.sheep < 2 ^ 63) {wheatStays : Bool}
    (hfavors : FavorsStaying (price.rate hprice) t wheatStays) :
    ∃ res, applyPriceErrorThresholds price (Int64.ofNat t.wheat) (Int64.ofNat t.sheep) wheatStays
        .NORMAL = .ok res
      ∧ ((res.numWheatReceived = 0 ∧ res.numSheepSend = 0) ∨ WithinOnePercent price res) := by
  by_cases hpos : 0 < t.wheat ∧ 0 < t.sheep
  · rw [applyPriceErrorThresholds_trade hprice .NORMAL hwheat hsheep hpos hfavors]
    split
    · rename_i hnear
      refine ⟨_, rfl, .inr ?_⟩
      exact withinOnePercent_tradeResult hprice hwheat hsheep wheatStays hnear.1
        (hnear.2.resolve_left fun hne => hne rfl)
    · exact ⟨_, if_pos rfl, .inl ⟨rfl, rfl⟩⟩
  · refine ⟨_, applyPriceErrorThresholds_nothing ?_ .NORMAL (by decide), .inl ⟨rfl, rfl⟩⟩
    rwa [gt_iff_lt, gt_iff_lt, ofNat_pos_iff hwheat, ofNat_pos_iff hsheep]

variable {x : Nat} {a : Int64} {round : RoundingType}

theorem ofNat_le_min (hx : x < 2 ^ 63) {b : Int64} (ha : 0 ≤ a) (hb : 0 ≤ b)
    (h : x ≤ min b.toInt.toNat a.toInt.toNat) : Int64.ofNat x ≤ min a b := by
  rw [le_iff_toInt_le, toInt_zero] at ha hb
  rw [le_iff_toInt_le, toInt_ofNat hx, MachineInt.toInt_min]
  omega

/-- For every positive price and all limits: the exchange returns, stays within its
limits and favours the side that stays; outside of strict sends both sides get something
or none does. In normal mode the thresholds leave nothing, or a trade within one per cent
of the price. -/
theorem exchangeV10_contract (hprice : price.Positive) (hws : 0 ≤ maxWheatSend)
    (hwr : 0 ≤ maxWheatReceive) (hss : 0 ≤ maxSheepSend) (hsr : 0 ≤ maxSheepReceive)
    (round : RoundingType) :
    ∃ res, exchangeV10WithoutPriceErrorThresholds price maxWheatSend maxWheatReceive maxSheepSend
        maxSheepReceive round = .ok res
      ∧ 0 ≤ res.numWheatReceived
      ∧ res.numWheatReceived ≤ min maxWheatSend maxWheatReceive
      ∧ 0 ≤ res.numSheepSend
      ∧ res.numSheepSend ≤ min maxSheepSend maxSheepReceive
      ∧ (res.wheatStays = true →
        res.numWheatReceived.toInt * price.n.toInt ≤ res.numSheepSend.toInt * price.d.toInt)
      ∧ (res.wheatStays = false →
        res.numSheepSend.toInt * price.d.toInt ≤ res.numWheatReceived.toInt * price.n.toInt)
      ∧ (round ≠ .PATH_PAYMENT_STRICT_SEND → (res.numWheatReceived = 0 ↔ res.numSheepSend = 0))
      ∧ (round = .NORMAL → ∃ res',
        applyPriceErrorThresholds price res.numWheatReceived res.numSheepSend res.wheatStays .NORMAL
            = .ok res'
          ∧ ((res'.numWheatReceived = 0 ∧ res'.numSheepSend = 0)
            ∨ WithinOnePercent price res')) := by
  obtain ⟨⟨t, wheatStays⟩, ht⟩ : ∃ t, exchangeTrade (price.rate hprice) maxWheatSend.toInt.toNat
    maxWheatReceive.toInt.toNat maxSheepSend.toInt.toNat maxSheepReceive.toInt.toNat round = t :=
    ⟨_, rfl⟩
  have hexchange := exchangeV10WithoutPriceErrorThresholds_eq hprice hws hwr hss hsr ht
  obtain ⟨hwheatLe, hsheepLe, hfavors⟩ := exchangeTrade_spec hprice ht
  have hwheat := lt_of_le_min hwheatLe
  have hsheep := lt_of_le_min hsheepLe
  obtain ⟨hwheatValue, hsheepValue⟩ := tradeResult_values hprice hwheat hsheep wheatStays
  refine ⟨tradeResult t wheatStays, hexchange, ofNat_nonneg hwheat,
    ofNat_le_min hwheat hws hwr hwheatLe, ofNat_nonneg hsheep, ofNat_le_min hsheep hss hsr hsheepLe,
    ?_, ?_, ?_, ?_⟩
  · rintro (rfl : wheatStays = true)
    rw [hwheatValue, hsheepValue]
    exact ofNat_le.mpr hfavors
  · rintro (rfl : wheatStays = false)
    rw [hwheatValue, hsheepValue]
    exact ofNat_le.mpr hfavors
  · intro hround
    show Int64.ofNat t.wheat = 0 ↔ Int64.ofNat t.sheep = 0
    have hpos := exchangeTrade_sheep_pos_iff ht hround
    rw [ofNat_eq_zero_iff hwheat, ofNat_eq_zero_iff hsheep]
    omega
  · rintro -
    exact thresholds_normal hprice hwheat hsheep hfavors

/-- At the end of the ranges: the dearest price, and no limit below the largest amount. -/
theorem exchangeV10_contract_extreme :
    ∃ res, exchangeV10WithoutPriceErrorThresholds ⟨2147483647, 1⟩ Int64.maxValue Int64.maxValue
        Int64.maxValue Int64.maxValue .NORMAL = .ok res
      ∧ res.numSheepSend ≤ min Int64.maxValue Int64.maxValue := by
  have hprice : Price.Positive ⟨2147483647, 1⟩ := by decide
  have hmax : 0 ≤ Int64.maxValue := by decide
  obtain ⟨res, hres, -, -, -, hle, -⟩ := exchangeV10_contract hprice hmax hmax hmax hmax .NORMAL
  exact ⟨res, hres, hle⟩

/-! ## The last offer of a path payment -/

/-- A path payment that takes part of an offer gets exactly the computed trade, as long as
some sheep is sent. -/
theorem exchangeV10_strict (hws : 0 ≤ maxWheatSend)
    (hwr : 0 ≤ maxWheatReceive) (hss : 0 ≤ maxSheepSend) (hsr : 0 ≤ maxSheepReceive)
    (hround : round ≠ .NORMAL)
    (ht : exchangeTrade (price.rate hprice) maxWheatSend.toInt.toNat maxWheatReceive.toInt.toNat
      maxSheepSend.toInt.toNat maxSheepReceive.toInt.toNat round = (t, true)) (hsheep : 0 < t.sheep)
    (hwheat : 0 < t.wheat ∨ round = .PATH_PAYMENT_STRICT_SEND) :
    exchangeV10 price maxWheatSend maxWheatReceive maxSheepSend maxSheepReceive round
      = .ok (tradeResult t true) := by
  obtain ⟨hwheatLe, hsheepLe, hfavors⟩ := exchangeTrade_spec hprice ht
  have hwheat63 := lt_of_le_min hwheatLe
  have hsheep63 := lt_of_le_min hsheepLe
  unfold exchangeV10
  rw [exchangeV10WithoutPriceErrorThresholds_eq hprice hws hwr hss hsr ht]
  show applyPriceErrorThresholds price (Int64.ofNat t.wheat) (Int64.ofNat t.sheep) true round = _
  by_cases hpos : 0 < t.wheat
  · rw [applyPriceErrorThresholds_trade hprice round hwheat63 hsheep63 ⟨hpos, hsheep⟩ hfavors,
      if_pos ⟨fair_of_favors_wheat hfavors, .inl hround⟩]
  · -- sheep for nothing, to send exactly the amount
    obtain rfl := hwheat.resolve_left hpos
    have hzero : ¬(Int64.ofNat t.wheat > 0 ∧ Int64.ofNat t.sheep > 0) :=
      fun hboth => hpos ((ofNat_pos_iff hwheat63).mp hboth.1)
    have hsent : ¬Int64.ofNat t.sheep = 0 := fun heq =>
      hsheep.ne' ((ofNat_eq_zero_iff hsheep63).mp heq)
    unfold applyPriceErrorThresholds
    rw [if_neg hzero]
    rw [if_neg hsent]
    rfl

/-- If the wheat stays, the taker's side is worth less and its part is traded. -/
theorem exchangeTrade_of_stays (hws : 0 ≤ maxWheatSend)
    (hwr : 0 ≤ maxWheatReceive) (hss : 0 ≤ maxSheepSend) (hsr : 0 ≤ maxSheepReceive)
    (hstays : (exchangeV10WithoutPriceErrorThresholds price maxWheatSend maxWheatReceive
      maxSheepSend maxSheepReceive round).map (·.wheatStays) = .ok true) :
    (price.rate hprice).value maxWheatReceive.toInt.toNat maxSheepSend.toInt.toNat
        < (price.rate hprice).value maxWheatSend.toInt.toNat maxSheepReceive.toInt.toNat
      ∧ exchangeTrade (price.rate hprice) maxWheatSend.toInt.toNat maxWheatReceive.toInt.toNat
          maxSheepSend.toInt.toNat maxSheepReceive.toInt.toNat round
        = (partTrade (price.rate hprice) round
            ((price.rate hprice).value maxWheatReceive.toInt.toNat maxSheepSend.toInt.toNat)
            (min maxSheepSend.toInt.toNat maxSheepReceive.toInt.toNat), true) := by
  rw [exchangeV10WithoutPriceErrorThresholds_eq hprice hws hwr hss hsr Prod.mk.eta.symm] at hstays
  have hflag := Except.ok.inj hstays
  unfold tradeResult exchangeTrade at hflag
  split at hflag
  · rename_i hlt
    exact ⟨hlt, by rw [exchangeTrade, if_pos hlt]⟩
  · cases hflag

theorem nonneg_of_natCast_le_mul {d : Nat} {y : Int} (hd : 0 < d) (h : (x : Int) ≤ y * d) :
    0 ≤ y := by
  by_contra hneg
  have hprod : y * d < 0 := Int.mul_neg_of_neg_of_pos (by omega) (by omega)
  omega

theorem strict_receive_exact (hws : 0 < maxWheatSend)
    (hwr : 0 < maxWheatReceive) (hss : 0 < maxSheepSend) (hsr : 0 < maxSheepReceive)
    (hstays : (exchangeV10WithoutPriceErrorThresholds price maxWheatSend maxWheatReceive
      maxSheepSend maxSheepReceive .PATH_PAYMENT_STRICT_RECEIVE).map (·.wheatStays) = .ok true)
    (hpays : maxWheatReceive.toInt * price.n.toInt ≤ maxSheepSend.toInt * price.d.toInt) :
    ∃ sheep : Nat, sheep < 2 ^ 63
      ∧ sheep = maxWheatReceive.toInt.toNat * (price.rate hprice).n ⌈/⌉ (price.rate hprice).d
      ∧ exchangeV10 price maxWheatSend maxWheatReceive maxSheepSend maxSheepReceive
          .PATH_PAYMENT_STRICT_RECEIVE
        = .ok (tradeResult ⟨maxWheatReceive.toInt.toNat, sheep⟩ true) := by
  have hwr' := le_of_lt hwr
  have hss' := le_of_lt hss
  have hpaysNat : maxWheatReceive.toInt.toNat * (price.rate hprice).n
      ≤ maxSheepSend.toInt.toNat * (price.rate hprice).d := by
    rw [← ofNat_le, natCast_mul, natCast_mul, natCast_toNat hwr', natCast_toNat hss']
    exact (toNat_of_nonneg hprice.n_pos.le).symm ▸ (toNat_of_nonneg hprice.d_pos.le).symm ▸
      hpays
  obtain ⟨hlt, ht⟩ := exchangeTrade_of_stays hprice (le_of_lt hws) hwr' hss'
    (le_of_lt hsr) hstays
  rw [partTrade, if_neg (by decide), if_pos (.inr rfl), byWheat_value hpaysNat] at ht
  have hwheat := toNat_pos hwr
  have hsheep :
      0 < maxWheatReceive.toInt.toNat * (price.rate hprice).n ⌈/⌉ (price.rate hprice).d := by
    have hvalue := (Nat.mul_pos hwheat (price.rate hprice).n_pos).trans_le
      (le_ceilDiv_mul (price.rate hprice).d_pos)
    exact Nat.pos_of_mul_pos_right hvalue
  refine ⟨_, (ceilDiv_d_le hpaysNat).trans_lt (toNat_lt _), rfl, ?_⟩
  exact exchangeV10_strict hprice (le_of_lt hws) hwr' hss' (le_of_lt hsr) (by decide) ht
    hsheep (.inl hwheat)

theorem strict_send_exact (hprice : price.Positive) (hws : 0 < maxWheatSend)
    (hwr : 0 < maxWheatReceive) (hss : 0 < maxSheepSend) (hsr : 0 < maxSheepReceive)
    (hstays : (exchangeV10WithoutPriceErrorThresholds price maxWheatSend maxWheatReceive
      maxSheepSend maxSheepReceive .PATH_PAYMENT_STRICT_SEND).map (·.wheatStays) = .ok true) :
    ∃ wheat : Nat, wheat < 2 ^ 63
      ∧ exchangeV10 price maxWheatSend maxWheatReceive maxSheepSend maxSheepReceive
          .PATH_PAYMENT_STRICT_SEND
        = .ok (tradeResult ⟨wheat, (min maxSheepSend maxSheepReceive).toInt.toNat⟩ true)
      ∧ (wheat < maxWheatReceive.toInt.toNat →
        wheat = (min maxSheepSend maxSheepReceive).toInt.toNat * (price.rate hprice).d
          / (price.rate hprice).n) := by
  obtain ⟨hlt, ht⟩ := exchangeTrade_of_stays hprice (le_of_lt hws) (le_of_lt hwr)
    (le_of_lt hss) (le_of_lt hsr) hstays
  rw [partTrade, ← toNat_min] at ht
  have hsheep : 0 < (min maxSheepSend maxSheepReceive).toInt.toNat := by
    rw [toNat_min]
    exact lt_min (toNat_pos hss) (toNat_pos hsr)
  refine ⟨_, ?_, exchangeV10_strict hprice (le_of_lt hws) (le_of_lt hwr)
    (le_of_lt hss) (le_of_lt hsr) (by decide) ht hsheep (.inr rfl), fun hless => ?_⟩
  · exact (div_n_le (value_le_wheat _ _)).trans_lt (toNat_lt _)
  · have hvalue := value_eq_of_lt hless
    have hle : maxSheepSend.toInt.toNat ≤ maxSheepReceive.toInt.toNat := by
      have hworth := hlt.trans_le (value_le_sheep _ _)
      rw [hvalue] at hworth
      exact (Nat.lt_of_mul_lt_mul_right hworth).le
    rw [hvalue, toNat_min, min_eq_left hle]

/-- When the wheat stays, a strict receive that can be paid for gets exactly what it
wants, for the least sheep that does not favour its sender. A strict send spends all it
can, and if it does not get all it could take, then no trade for that sheep gives more
wheat without favouring the sender. -/
theorem exchangeV10_strict_exact (hprice : price.Positive) (hws : 0 < maxWheatSend)
    (hwr : 0 < maxWheatReceive) (hss : 0 < maxSheepSend) (hsr : 0 < maxSheepReceive) :
    ((exchangeV10WithoutPriceErrorThresholds price maxWheatSend maxWheatReceive maxSheepSend
          maxSheepReceive .PATH_PAYMENT_STRICT_RECEIVE).map (·.wheatStays) = .ok true →
        maxWheatReceive.toInt * price.n.toInt ≤ maxSheepSend.toInt * price.d.toInt →
        ∃ res, exchangeV10 price maxWheatSend maxWheatReceive maxSheepSend maxSheepReceive
            .PATH_PAYMENT_STRICT_RECEIVE = .ok res
          ∧ res.numWheatReceived = maxWheatReceive
          ∧ res.numSheepSend.toInt
            = (maxWheatReceive.toInt.toNat * price.n.toInt.toNat ⌈/⌉ price.d.toInt.toNat : Nat)
          ∧ maxWheatReceive.toInt * price.n.toInt ≤ res.numSheepSend.toInt * price.d.toInt
          ∧ ∀ sheep : Int, maxWheatReceive.toInt * price.n.toInt ≤ sheep * price.d.toInt →
            res.numSheepSend.toInt ≤ sheep)
      ∧ ((exchangeV10WithoutPriceErrorThresholds price maxWheatSend maxWheatReceive maxSheepSend
          maxSheepReceive .PATH_PAYMENT_STRICT_SEND).map (·.wheatStays) = .ok true →
        ∃ res, exchangeV10 price maxWheatSend maxWheatReceive maxSheepSend maxSheepReceive
            .PATH_PAYMENT_STRICT_SEND = .ok res
          ∧ res.numSheepSend = min maxSheepSend maxSheepReceive
          ∧ (res.numWheatReceived < maxWheatReceive →
            res.numWheatReceived.toInt * price.n.toInt ≤ res.numSheepSend.toInt * price.d.toInt
              ∧ ∀ wheat : Int, wheat * price.n.toInt ≤ res.numSheepSend.toInt * price.d.toInt →
                wheat ≤ res.numWheatReceived.toInt)) := by
  have hn : ((price.rate hprice).n : Int) = price.n.toInt := toNat_of_nonneg hprice.n_pos.le
  have hd : ((price.rate hprice).d : Int) = price.d.toInt := toNat_of_nonneg hprice.d_pos.le
  refine ⟨fun hstays hpays => ?_, fun hstays => ?_⟩
  · obtain ⟨sheep, hsheep, hceil, hres⟩ := strict_receive_exact hprice hws hwr hss hsr hstays hpays
    have hwanted := natCast_toNat (le_of_lt hwr)
    refine ⟨_, hres, ofNat_toNat (le_of_lt hwr), ?_, ?_, fun sheep' hfavors => ?_⟩
    · exact (toInt_ofNat hsheep).trans (congrArg _ hceil)
    · show _ ≤ (Int64.ofNat sheep).toInt * _
      rw [toInt_ofNat hsheep, ← hwanted, ← hn, ← hd, ← natCast_mul, ← natCast_mul,
        ofNat_le, hceil]
      exact le_ceilDiv_mul (price.rate hprice).d_pos
    · show (Int64.ofNat sheep).toInt ≤ _
      rw [toInt_ofNat hsheep]
      rw [← hwanted, ← hn, ← hd, ← natCast_mul] at hfavors
      obtain ⟨least, rfl⟩ := Int.eq_ofNat_of_zero_le (nonneg_of_natCast_le_mul
        (price.rate hprice).d_pos hfavors)
      rw [← natCast_mul, ofNat_le] at hfavors
      rw [ofNat_le, hceil]
      exact ceilDiv_d_le hfavors
  · obtain ⟨wheat, hwheat, hres, hmost⟩ := strict_send_exact hprice hws hwr hss hsr hstays
    refine ⟨_, hres, ofNat_toNat (min_nonneg (le_of_lt hss) (le_of_lt hsr)), fun hless => ?_⟩
    have hless : (Int64.ofNat wheat).toInt < maxWheatReceive.toInt := lt_iff_toInt_lt.mp hless
    rw [toInt_ofNat hwheat, ← natCast_toNat (le_of_lt hwr), Int.ofNat_lt] at hless
    have hquotient := hmost hless
    show (Int64.ofNat wheat).toInt * _ ≤ (Int64.ofNat _).toInt * _
      ∧ ∀ w : Int, w * _ ≤ (Int64.ofNat _).toInt * _ → w ≤ (Int64.ofNat wheat).toInt
    rw [toInt_ofNat hwheat, toInt_ofNat (toNat_lt _), ← hn, ← hd, ← natCast_mul,
      ← natCast_mul, ofNat_le]
    refine ⟨?_, fun more hfavors => ?_⟩
    · rw [hquotient]
      exact Nat.div_mul_le_self _ _
    · rcases Int.lt_or_le more 0 with hneg | hnonneg
      · omega
      · obtain ⟨more, rfl⟩ := Int.eq_ofNat_of_zero_le hnonneg
        rw [← natCast_mul, ofNat_le] at hfavors
        rw [ofNat_le, hquotient]
        exact (Nat.le_div_iff_mul_le (price.rate hprice).n_pos).mpr hfavors

/-- The example of the comment: 101 units are wanted at 2/3, and 68 are paid. A strict send
of 68 gets 102. -/
theorem exchangeV10_strict_exact_comment :
    (∃ res, exchangeV10 ⟨2, 3⟩ 150 101 Int64.maxValue Int64.maxValue .PATH_PAYMENT_STRICT_RECEIVE
        = .ok res ∧ res.numWheatReceived = 101)
      ∧ ∃ res, exchangeV10 ⟨2, 3⟩ 150 Int64.maxValue 68 Int64.maxValue .PATH_PAYMENT_STRICT_SEND
        = .ok res ∧ res.numSheepSend = min 68 Int64.maxValue := by
  have hprice : Price.Positive ⟨2, 3⟩ := by decide
  have hmax : 0 < Int64.maxValue := by decide
  have hreceive := (exchangeV10_strict_exact hprice (by decide : (0 : Int64) < 150)
    (by decide : (0 : Int64) < 101) hmax hmax).1 (by decide +kernel) (by decide)
  have hsend := (exchangeV10_strict_exact hprice (by decide : (0 : Int64) < 150) hmax
    (by decide : (0 : Int64) < 68) hmax).2 (by decide +kernel)
  obtain ⟨res, hres, hwheat, -⟩ := hreceive
  obtain ⟨res', hres', hsheep, -⟩ := hsend
  exact ⟨⟨res, hres, hwheat⟩, res', hres', hsheep⟩

end KinesisCore

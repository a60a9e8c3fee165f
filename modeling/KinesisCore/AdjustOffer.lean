import KinesisCore.OfferExchange
import KinesisCore.Rate

/-!
# What an exchange comes to

With a positive price and limits that are not negative none of the divisions of
`exchangeV10` overflows and none of its limits is exceeded: it computes one of
the trades of `Rate`. `adjustOfferAmount` is `Rate.adjust`.

The price of an offer is a `Rate` once it is known to be positive, and an
amount is the natural number it stands for.
-/

namespace KinesisCore

open Rate MachineInt

open Int64 (le_iff_toInt_le toInt_zero toInt_inj)

open Except

def Price.Positive (price : Price) : Prop := 0 < price.n ∧ 0 < price.d

instance (price : Price) : Decidable price.Positive := inferInstanceAs (Decidable (_ ∧ _))

variable {price : Price} {a : Int64}

theorem Price.Positive.n_pos (h : price.Positive) : 0 < price.n.toInt := by
  simpa [Int32.lt_iff_toInt_lt] using h.1

theorem Price.Positive.d_pos (h : price.Positive) : 0 < price.d.toInt := by
  simpa [Int32.lt_iff_toInt_lt] using h.2

def Price.rate (price : Price) (h : price.Positive) : Rate where
  n := price.n.toInt.toNat
  d := price.d.toInt.toNat
  n_pos := by have := h.n_pos; omega
  d_pos := by have := h.d_pos; omega

/-- A trade as a result of an exchange. -/
def tradeResult (t : Trade) (wheatStays : Bool) : ExchangeResultV10 :=
  { numWheatReceived := Int64.ofNat t.wheat, numSheepSend := Int64.ofNat t.sheep, wheatStays }

/-- The part of an offer that sheep worth `sheepValue` buy. -/
def partTrade (r : Rate) (round : RoundingType) (sheepValue maxSheep : Nat) : Trade :=
  if round = .PATH_PAYMENT_STRICT_SEND then r.paying sheepValue maxSheep
  else if r.d < r.n ∨ round = .PATH_PAYMENT_STRICT_RECEIVE then r.byWheat sheepValue
  else r.bySheep sheepValue

/-! ## Amounts as natural numbers -/

theorem toNat_lt (a : Int64) : a.toInt.toNat < 2 ^ 63 := by
  have := a.toInt_lt
  omega

variable {x : Nat}

theorem lt_of_le_min {b : Int64} (h : x ≤ min a.toInt.toNat b.toInt.toNat) : x < 2 ^ 63 :=
  (h.trans (min_le_left _ _)).trans_lt (toNat_lt a)

theorem toInt_ofNat (h : x < 2 ^ 63) : (Int64.ofNat x).toInt = x := Int64.toInt_ofNat_of_lt h

theorem toInt_neg_ofNat (h : x < 2 ^ 63) : (-Int64.ofNat x).toInt = -x := by
  have hx := toInt_ofNat h
  rw [toInt_neg (by rw [hx]; exact ⟨by omega, by omega⟩), hx]

theorem ofNat_toNat (h : 0 ≤ a) : Int64.ofNat a.toInt.toNat = a := by
  rw [le_iff_toInt_le, toInt_zero] at h
  rw [← toInt_inj, toInt_ofNat (toNat_lt a)]
  omega

theorem ofNat_nonneg (h : x < 2 ^ 63) : 0 ≤ Int64.ofNat x := by
  rw [le_iff_toInt_le, toInt_ofNat h, toInt_zero]
  omega

theorem natCast_toNat (h : 0 ≤ a) : (a.toInt.toNat : Int) = a.toInt := by
  rw [le_iff_toInt_le] at h
  exact Int.toNat_of_nonneg h

theorem toNat_pos (h : 0 < a) : 0 < a.toInt.toNat := by
  rw [Int64.lt_iff_toInt_lt, toInt_zero] at h
  omega

theorem min_nonneg {b : Int64} (ha : 0 ≤ a) (hb : 0 ≤ b) : 0 ≤ min a b := by
  rw [le_iff_toInt_le] at *
  rw [toInt_min]
  omega

theorem ofNat_eq_zero_iff (h : x < 2 ^ 63) : Int64.ofNat x = 0 ↔ x = 0 := by
  rw [← toInt_inj, toInt_ofNat h, toInt_zero]
  omega

theorem ofNat_pos_iff (h : x < 2 ^ 63) : 0 < Int64.ofNat x ↔ 0 < x := by
  rw [Int64.lt_iff_toInt_lt, toInt_ofNat h, toInt_zero]
  omega

theorem toNat_min (a b : Int64) : (min a b).toInt.toNat = min a.toInt.toNat b.toInt.toNat := by
  rw [toInt_min]
  omega

theorem nonneg_of_pos_int32 {x : Int32} (h : 0 < x.toInt) : 0 < x.toInt64 := by
  rwa [Int64.lt_iff_toInt_lt, Int32.toInt_toInt64]

/-- A product with one part of the price. -/
theorem bigMultiply_part {x : Int32} (ha : 0 ≤ a) (hx : 0 < x.toInt) :
    bigMultiply a x.toInt64 = .ok (a.toInt.toNat * x.toInt.toNat) := by
  rw [bigMultiply_eq ha (Int64.le_of_lt (nonneg_of_pos_int32 hx)), Int32.toInt_toInt64]
  rw [le_iff_toInt_le] at ha
  rw [Int.toNat_mul ha hx.le]

/-! ## The amounts are those of a trade -/

section Exchange

variable {price : Price} (h : price.Positive) {wheatStays : Bool} {v : Nat}
include h

variable (r : Rate) (rounding : Rounding) (round : RoundingType)

omit h in
theorem divide128_part {q : Int32} (hq : 0 < q.toInt)
    (hlt : rounding.quot v q.toInt.toNat < 2 ^ 63) :
    bigDivideOrThrow128 v q.toInt64 rounding = .ok (Int64.ofNat (rounding.quot v q.toInt.toNat)) :=
  bigDivideOrThrow128_eq (nonneg_of_pos_int32 hq) (by rw [Int32.toInt_toInt64]) hlt

omit h in
/-- An amount of one asset turned into the other, with the two parts of the price. -/
theorem divide_parts {p q : Int32} (hp : 0 < p.toInt) (hq : 0 < q.toInt) (hx : x < 2 ^ 63)
    (hlt : rounding.quot (x * p.toInt.toNat) q.toInt.toNat < 2 ^ 63) :
    bigDivideOrThrow (Int64.ofNat x) p.toInt64 q.toInt64 rounding
      = .ok (Int64.ofNat (rounding.quot (x * p.toInt.toNat) q.toInt.toNat)) := by
  refine bigDivideOrThrow_eq (ofNat_nonneg hx) (Int64.le_of_lt (nonneg_of_pos_int32 hp))
    (nonneg_of_pos_int32 hq) ?_ hlt
  rw [Int32.toInt_toInt64, Int32.toInt_toInt64, toInt_ofNat hx]
  rfl

theorem wheat_dearer_iff : price.n > price.d ↔ (price.rate h).d < (price.rate h).n := by
  have hd := h.d_pos
  rw [gt_iff_lt, Int32.lt_iff_toInt_lt]
  show _ ↔ price.d.toInt.toNat < price.n.toInt.toNat
  omega

variable {maxSend maxReceive : Int64} {w maxSheep : Nat}

/-- The value of the offer for wheat. -/
theorem calculateOfferValue_wheat (hsend : 0 ≤ maxSend) (hreceive : 0 ≤ maxReceive) :
    calculateOfferValue price.n price.d maxSend maxReceive
      = .ok ((price.rate h).value maxSend.toInt.toNat maxReceive.toInt.toNat) := by
  rw [calculateOfferValue, bigMultiply_part hsend h.n_pos, bigMultiply_part hreceive h.d_pos]
  rfl

/-- The value of the offer for sheep, which receives wheat. -/
theorem calculateOfferValue_sheep (hsend : 0 ≤ maxSend) (hreceive : 0 ≤ maxReceive) :
    calculateOfferValue price.d price.n maxSend maxReceive
      = .ok ((price.rate h).value maxReceive.toInt.toNat maxSend.toInt.toNat) := by
  rw [calculateOfferValue, bigMultiply_part hsend h.d_pos, bigMultiply_part hreceive h.n_pos,
    Rate.value, min_comm]
  rfl

theorem amountsSheepStays_eq {s : Nat} (hw : w < 2 ^ 63) (hs : s < 2 ^ 63)
    (hwheat : v ≤ w * (price.rate h).n) (hsheep : v ≤ s * (price.rate h).d) :
    amountsSheepStays price v
      = .ok (Int64.ofNat ((price.rate h).whole v).wheat,
          Int64.ofNat ((price.rate h).whole v).sheep) := by
  have hwheat := (whole_wheat_le hwheat).trans_lt hw
  have hsheep := (whole_sheep_le hsheep).trans_lt hs
  rw [Rate.whole] at hwheat hsheep ⊢
  rw [amountsSheepStays]
  simp only [wheat_dearer_iff h]
  split_ifs at hwheat hsheep ⊢ with hdear
  · rw [divide128_part .ROUND_DOWN h.n_pos hwheat]
    show (bigDivideOrThrow (Int64.ofNat (v / (price.rate h).n)) _ _ _ >>= _) = _
    rw [divide_parts .ROUND_DOWN h.n_pos h.d_pos hwheat hsheep]
    rfl
  · rw [divide128_part .ROUND_DOWN h.d_pos hsheep]
    show (bigDivideOrThrow (Int64.ofNat (v / (price.rate h).d)) _ _ _ >>= _) = _
    rw [divide_parts .ROUND_UP h.d_pos h.n_pos hsheep hwheat]
    rfl

theorem partTrade_wheat_le (maxSheep : Nat) (hwheat : v ≤ w * (price.rate h).n) :
    (partTrade (price.rate h) round v maxSheep).wheat ≤ w := by
  rw [partTrade]
  split_ifs
  · exact div_n_le hwheat
  · exact byWheat_wheat_le hwheat
  · exact bySheep_wheat_le hwheat

theorem partTrade_sheep_le (hsheep : v ≤ maxSheep * (price.rate h).d) :
    (partTrade (price.rate h) round v maxSheep).sheep ≤ maxSheep := by
  rw [partTrade]
  split_ifs
  · exact Nat.le_refl _
  · exact byWheat_sheep_le hsheep
  · exact bySheep_sheep_le hsheep

theorem partTrade_favors_wheat (hsheep : v ≤ maxSheep * (price.rate h).d) :
    (partTrade (price.rate h) round v maxSheep).wheat * (price.rate h).n
      ≤ (partTrade (price.rate h) round v maxSheep).sheep * (price.rate h).d := by
  rw [partTrade]
  split_ifs
  · exact paying_favors_wheat hsheep
  · exact byWheat_favors_wheat
  · exact bySheep_favors_wheat

theorem amountsWheatStays_eq {maxSheepSend maxSheepReceive : Int64}
    (hsend : 0 ≤ maxSheepSend) (hreceive : 0 ≤ maxSheepReceive) (hw : w < 2 ^ 63)
    (hwheat : v ≤ w * (price.rate h).n)
    (hsheep : v ≤ min maxSheepSend.toInt.toNat maxSheepReceive.toInt.toNat * (price.rate h).d) :
    amountsWheatStays price v maxSheepSend maxSheepReceive round
      = .ok (Int64.ofNat (partTrade (price.rate h) round v
              (min maxSheepSend.toInt.toNat maxSheepReceive.toInt.toNat)).wheat,
          Int64.ofNat (partTrade (price.rate h) round v
              (min maxSheepSend.toInt.toNat maxSheepReceive.toInt.toNat)).sheep) := by
  have hwheat := (partTrade_wheat_le h round
    (min maxSheepSend.toInt.toNat maxSheepReceive.toInt.toNat) hwheat).trans_lt hw
  have hsheep := lt_of_le_min (partTrade_sheep_le h round hsheep)
  rw [partTrade] at hwheat hsheep ⊢
  rw [amountsWheatStays]
  simp only [wheat_dearer_iff h]
  split_ifs at hwheat hsheep ⊢ with hstrict hdear
  · rw [divide128_part .ROUND_DOWN h.n_pos hwheat]
    show Except.ok (Int64.ofNat (v / (price.rate h).n), min maxSheepSend maxSheepReceive) = _
    rw [← ofNat_toNat (min_nonneg hsend hreceive), toNat_min]
    rfl
  · rw [divide128_part .ROUND_DOWN h.n_pos hwheat]
    show (bigDivideOrThrow (Int64.ofNat ((price.rate h).byWheat v).wheat) _ _ _ >>= _) = _
    rw [divide_parts .ROUND_UP h.n_pos h.d_pos hwheat hsheep]
    rfl
  · rw [divide128_part .ROUND_DOWN h.d_pos hsheep]
    show (bigDivideOrThrow (Int64.ofNat ((price.rate h).bySheep v).sheep) _ _ _ >>= _) = _
    rw [divide_parts .ROUND_DOWN h.d_pos h.n_pos hsheep hwheat]
    rfl

/-! ## The exchange before the thresholds -/

variable {maxWheatSend maxWheatReceive maxSheepSend maxSheepReceive : Int64} {t : Trade}

omit h in
theorem checkLimits_trade
    (hwheat : t.wheat ≤ min maxWheatReceive.toInt.toNat maxWheatSend.toInt.toNat)
    (hsheep : t.sheep ≤ min maxSheepReceive.toInt.toNat maxSheepSend.toInt.toNat)
    (hwr : 0 ≤ maxWheatReceive) (hws : 0 ≤ maxWheatSend) (hss : 0 ≤ maxSheepSend)
    (hsr : 0 ≤ maxSheepReceive) :
    checkLimits maxWheatSend maxWheatReceive maxSheepSend maxSheepReceive wheatStays
        (Int64.ofNat t.wheat) (Int64.ofNat t.sheep) = .ok (tradeResult t wheatStays) := by
  rw [checkLimits_eq_ok, toInt_ofNat, toInt_ofNat]
  · rw [le_iff_toInt_le, toInt_zero] at hwr hws hss hsr
    exact ⟨by omega, by omega, rfl⟩
  · exact lt_of_le_min hsheep
  · exact lt_of_le_min hwheat

/-- The trade of an exchange, and whether the offer for wheat is the larger
one. -/
def exchangeTrade (maxWheatSend maxWheatReceive maxSheepSend maxSheepReceive : Nat)
    (round : RoundingType) : Trade × Bool :=
  if r.value maxWheatReceive maxSheepSend < r.value maxWheatSend maxSheepReceive then
    (partTrade r round (r.value maxWheatReceive maxSheepSend) (min maxSheepSend maxSheepReceive),
      true)
  else (r.whole (r.value maxWheatSend maxSheepReceive), false)

omit h in
/-- The sheep of the taker are worth no more than the sheep that can move. -/
theorem value_le_movable {r : Rate} {wheatSend wheatReceive sheepSend sheepReceive : Nat}
    (hlt : r.value wheatReceive sheepSend < r.value wheatSend sheepReceive) :
    r.value wheatReceive sheepSend ≤ min sheepSend sheepReceive * r.d := by
  rw [← Nat.mul_min_mul_right]
  exact le_min (value_le_sheep _ _) (hlt.le.trans (value_le_sheep _ _))

/-- Rounding is in favour of the side that stays. -/
def FavorsStaying (t : Trade) (wheatStays : Bool) : Prop :=
  if wheatStays then t.wheat * r.n ≤ t.sheep * r.d else t.sheep * r.d ≤ t.wheat * r.n

/-- The trade is within the limits of both sides, and favours the one that stays. -/
theorem exchangeTrade_spec {wheatSend wheatReceive sheepSend sheepReceive : Nat}
    {round : RoundingType}
    (ht : exchangeTrade (price.rate h) wheatSend wheatReceive sheepSend sheepReceive round
      = (t, wheatStays)) :
    t.wheat ≤ min wheatReceive wheatSend ∧ t.sheep ≤ min sheepReceive sheepSend
      ∧ FavorsStaying (price.rate h) t wheatStays := by
  rw [exchangeTrade] at ht
  split_ifs at ht with hlt
  · cases ht
    refine ⟨le_min (partTrade_wheat_le h _ _ (value_le_wheat _ _))
      (partTrade_wheat_le h _ _ (hlt.le.trans (value_le_wheat _ _))), ?_,
      partTrade_favors_wheat h _ (value_le_movable hlt)⟩
    rw [min_comm sheepReceive]
    exact partTrade_sheep_le h _ (value_le_movable hlt)
  · cases ht
    have hge := Nat.not_lt.mp hlt
    exact ⟨le_min (whole_wheat_le (hge.trans (value_le_wheat _ _)))
        (whole_wheat_le (value_le_wheat _ _)),
      le_min (whole_sheep_le (value_le_sheep _ _))
        (whole_sheep_le (hge.trans (value_le_sheep _ _))), whole_favors_sheep⟩

/-- Without thresholds an exchange always succeeds. -/
theorem exchangeV10WithoutPriceErrorThresholds_eq {round : RoundingType}
    (hws : 0 ≤ maxWheatSend) (hwr : 0 ≤ maxWheatReceive) (hss : 0 ≤ maxSheepSend)
    (hsr : 0 ≤ maxSheepReceive)
    (ht : exchangeTrade (price.rate h) maxWheatSend.toInt.toNat maxWheatReceive.toInt.toNat
      maxSheepSend.toInt.toNat maxSheepReceive.toInt.toNat round = (t, wheatStays)) :
    exchangeV10WithoutPriceErrorThresholds price maxWheatSend maxWheatReceive maxSheepSend
        maxSheepReceive round = .ok (tradeResult t wheatStays) := by
  obtain ⟨hwheat, hsheep, -⟩ := exchangeTrade_spec h ht
  rw [exchangeV10WithoutPriceErrorThresholds, calculateOfferValue_wheat h hws hsr,
    calculateOfferValue_sheep h hss hwr]
  rw [exchangeTrade] at ht
  simp only [gt_iff_lt, ok_bind]
  split_ifs at ht ⊢ with hlt
  · cases ht
    rw [amountsWheatStays_eq h round hss hsr (toNat_lt maxWheatReceive) (value_le_wheat _ _)
      (value_le_movable hlt)]
    exact checkLimits_trade hwheat hsheep hwr hws hss hsr
  · cases ht
    rw [amountsSheepStays_eq h (toNat_lt maxWheatSend) (toNat_lt maxSheepReceive)
      (value_le_wheat _ _) (value_le_sheep _ _)]
    exact checkLimits_trade hwheat hsheep hwr hws hss hsr

/-! ## The thresholds -/

omit h in
theorem toInt_hundred {x : Int32} (hx : 0 < x.toInt) :
    (100 * x.toInt64).toInt = 100 * x.toInt := by
  have hlt := x.toInt_lt
  rw [toInt_mul] <;> rw [Int32.toInt_toInt64, show (100 : Int64).toInt = 100 from rfl]
  exact ⟨by omega, by omega⟩

omit h in
/-- A product with a hundred times one part of the price. -/
theorem bigMultiply_hundred {x : Int32} (hx : 0 < x.toInt) {y : Nat} (hy : y < 2 ^ 63) :
    bigMultiply (100 * x.toInt64) (Int64.ofNat y) = .ok (100 * (y * x.toInt.toNat)) := by
  have hhundred : 0 ≤ 100 * x.toInt64 := by
    rw [le_iff_toInt_le, toInt_zero, toInt_hundred hx]
    omega
  rw [bigMultiply_eq hhundred (ofNat_nonneg hy), toInt_hundred hx, toInt_ofNat hy]
  obtain ⟨z, hz⟩ := Int.eq_ofNat_of_zero_le hx.le
  have hprod : 100 * (z : Int) * (y : Int) = ((100 * (y * z) : Nat) : Int) := by
    rw [Int.mul_assoc, Int.mul_comm (z : Int)]
    rfl
  rw [hz, hprod, Int.toNat_natCast, Int.toNat_natCast]

omit h in
/-- The comparison of the source, for the values of both sides of a trade. -/
theorem decide_price_error (canFavorWheat : Bool) (wheatValue sheepValue : Nat) :
    (if canFavorWheat ∧ 100 * sheepValue > 100 * wheatValue then Except.ok true
      else Except.ok (decide ((if 100 * wheatValue > 100 * sheepValue
        then 100 * wheatValue - 100 * sheepValue else 100 * sheepValue - 100 * wheatValue)
          ≤ wheatValue)) : Except String Bool)
      = .ok (decide (99 * wheatValue ≤ 100 * sheepValue
          ∧ (canFavorWheat ∨ 100 * sheepValue ≤ 101 * wheatValue))) := by
  by_cases hfavors : canFavorWheat ∧ 100 * sheepValue > 100 * wheatValue
  · rw [if_pos hfavors, decide_eq_true (by have := hfavors.2; exact ⟨by omega, .inl hfavors.1⟩)]
  · rw [if_neg hfavors]
    congr 1
    rw [decide_eq_decide]
    cases canFavorWheat <;>
      simp only [Bool.false_eq_true, false_and, true_and, true_or, false_or, and_true]
        at hfavors ⊢ <;>
      split <;> omega

/-- The price error of a trade: the seller of wheat loses at most one per cent,
and so does the seller of sheep unless that may be. -/
theorem checkPriceErrorBound_eq (hwheat : t.wheat < 2 ^ 63) (hsheep : t.sheep < 2 ^ 63)
    (canFavorWheat : Bool) :
    checkPriceErrorBound price (Int64.ofNat t.wheat) (Int64.ofNat t.sheep) canFavorWheat
      = .ok (decide ((price.rate h).Fair t ∧ (canFavorWheat
          ∨ 100 * (t.sheep * (price.rate h).d) ≤ 101 * (t.wheat * (price.rate h).n)))) := by
  have hcap : bigMultiply price.n.toInt64 (Int64.ofNat t.wheat)
      = .ok (t.wheat * price.n.toInt.toNat) := by
    have hswap := bigMultiply_part (ofNat_nonneg hwheat) h.n_pos
    rw [toInt_ofNat hwheat, Int.toNat_natCast] at hswap
    have hn := Int64.le_of_lt (nonneg_of_pos_int32 h.n_pos)
    rw [bigMultiply_eq (ofNat_nonneg hwheat) hn, Int.mul_comm] at hswap
    rw [bigMultiply_eq hn (ofNat_nonneg hwheat), hswap]
  rw [checkPriceErrorBound]
  simp only [bigMultiply_hundred h.n_pos hwheat, bigMultiply_hundred h.d_pos hsheep, hcap,
    Rate.Fair, ok_bind]
  exact decide_price_error canFavorWheat (t.wheat * (price.rate h).n) (t.sheep * (price.rate h).d)

theorem applyPriceErrorThresholds_trade (hwheat : t.wheat < 2 ^ 63)
    (hsheep : t.sheep < 2 ^ 63) (hpos : 0 < t.wheat ∧ 0 < t.sheep)
    (hfavors : FavorsStaying (price.rate h) t wheatStays) :
    applyPriceErrorThresholds price (Int64.ofNat t.wheat) (Int64.ofNat t.sheep) wheatStays round
      = if (price.rate h).Fair t ∧ (round ≠ .NORMAL
            ∨ 100 * (t.sheep * (price.rate h).d) ≤ 101 * (t.wheat * (price.rate h).n)) then
          .ok (tradeResult t wheatStays)
        else if round = .NORMAL then .ok (tradeResult ⟨0, 0⟩ wheatStays)
        else .error "exceeded price error bound" := by
  have hwheatValue : bigMultiply (Int64.ofNat t.wheat) price.n.toInt64
      = .ok (t.wheat * (price.rate h).n) := by
    rw [bigMultiply_part (ofNat_nonneg hwheat) h.n_pos, toInt_ofNat hwheat]
    rfl
  have hsheepValue : bigMultiply (Int64.ofNat t.sheep) price.d.toInt64
      = .ok (t.sheep * (price.rate h).d) := by
    rw [bigMultiply_part (ofNat_nonneg hsheep) h.d_pos, toInt_ofNat hsheep]
    rfl
  have hstays : ¬(wheatStays ∧ t.sheep * (price.rate h).d < t.wheat * (price.rate h).n)
      ∧ ¬(¬wheatStays ∧ t.sheep * (price.rate h).d > t.wheat * (price.rate h).n) := by
    cases wheatStays <;> simp [FavorsStaying] at hfavors ⊢ <;> omega
  unfold applyPriceErrorThresholds
  rw [if_pos ⟨(ofNat_pos_iff hwheat).mpr hpos.1, (ofNat_pos_iff hsheep).mpr hpos.2⟩]
  unfold thresholdsOnTrade
  rw [hwheatValue, hsheepValue]
  simp only [bind, Except.bind, if_neg hstays.1, if_neg hstays.2, pure, Except.pure]
  cases round
  all_goals
    simp only [checkPriceErrorBound_eq h hwheat hsheep, ne_eq, not_true_eq_false, reduceCtorEq,
      not_false_eq_true, Bool.false_eq_true, false_or, true_or, and_true, decide_eq_true_eq,
      if_true, if_false]
    rfl

/-- Without a limit on the buyer the offer is taken whole. -/
theorem exchangeTrade_unlimited (maxWheatSend maxSheepReceive : Int64) :
    exchangeTrade (price.rate h) maxWheatSend.toInt.toNat INT64_MAX.toInt.toNat
        INT64_MAX.toInt.toNat maxSheepReceive.toInt.toNat .NORMAL
      = ((price.rate h).whole
          ((price.rate h).value maxWheatSend.toInt.toNat maxSheepReceive.toInt.toNat), false) := by
  have hwheat : maxWheatSend.toInt.toNat ≤ INT64_MAX.toInt.toNat :=
    Nat.le_of_lt_succ (toNat_lt maxWheatSend)
  have hsheep : maxSheepReceive.toInt.toNat ≤ INT64_MAX.toInt.toNat :=
    Nat.le_of_lt_succ (toNat_lt maxSheepReceive)
  rw [exchangeTrade, if_neg (Nat.not_lt.mpr ?_)]
  exact min_le_min (Nat.mul_le_mul_right _ hwheat) (Nat.mul_le_mul_right _ hsheep)

omit h in
theorem applyPriceErrorThresholds_nothing {wheatReceive sheepSend : Int64}
    (hzero : ¬(wheatReceive > 0 ∧ sheepSend > 0)) (round : RoundingType)
    (hround : round ≠ .PATH_PAYMENT_STRICT_SEND) :
    applyPriceErrorThresholds price wheatReceive sheepSend wheatStays round
      = .ok (tradeResult ⟨0, 0⟩ wheatStays) := by
  unfold applyPriceErrorThresholds
  rw [if_neg hzero]
  cases round
  · rfl
  · exact absurd rfl hround
  · rfl

/-- Adjusting an offer never throws. -/
theorem adjustOfferAmount_eq (hws : 0 ≤ maxWheatSend) (hsr : 0 ≤ maxSheepReceive) :
    adjustOfferAmount price maxWheatSend maxSheepReceive
      = .ok (Int64.ofNat
          ((price.rate h).adjust maxWheatSend.toInt.toNat maxSheepReceive.toInt.toNat)) := by
  have hexchange := exchangeV10WithoutPriceErrorThresholds_eq h hws
    (show 0 ≤ INT64_MAX by decide) (show 0 ≤ INT64_MAX by decide) hsr
    (exchangeTrade_unlimited h maxWheatSend maxSheepReceive)
  obtain ⟨hwheat, hsheep, hfavors⟩ := exchangeTrade_spec h
    (exchangeTrade_unlimited h maxWheatSend maxSheepReceive)
  replace hwheat := lt_of_le_min hwheat
  replace hsheep := lt_of_le_min hsheep
  rw [adjustOfferAmount, exchangeV10, hexchange]
  simp only [Rate.adjust]
  generalize (price.rate h).whole ((price.rate h).value maxWheatSend.toInt.toNat
    maxSheepReceive.toInt.toNat) = t at *
  show (applyPriceErrorThresholds price (Int64.ofNat t.wheat) (Int64.ofNat t.sheep) false .NORMAL
    >>= _) = _
  by_cases hpos : 0 < t.wheat ∧ 0 < t.sheep
  · rw [applyPriceErrorThresholds_trade h .NORMAL hwheat hsheep hpos hfavors]
    have hnear : 100 * (t.sheep * (price.rate h).d) ≤ 101 * (t.wheat * (price.rate h).n) := by
      have hfavors : t.sheep * (price.rate h).d ≤ t.wheat * (price.rate h).n := hfavors
      omega
    simp only [hnear, or_true, and_true, hpos.1, hpos.2, true_and, if_true]
    split <;> rfl
  · rw [applyPriceErrorThresholds_nothing _ _ (by simp),
      if_neg (fun hall => hpos ⟨hall.1, hall.2.1⟩)]
    · rfl
    · rwa [gt_iff_lt, gt_iff_lt, ofNat_pos_iff hwheat, ofNat_pos_iff hsheep]

/-- An adjusted offer is not larger than before and adjusting it again changes
nothing. -/
theorem adjustOfferAmount_idempotent (hws : 0 ≤ maxWheatSend) (hsr : 0 ≤ maxSheepReceive) :
    ∃ amount, adjustOfferAmount price maxWheatSend maxSheepReceive = .ok amount
      ∧ 0 ≤ amount ∧ amount ≤ maxWheatSend
      ∧ adjustOfferAmount price amount maxSheepReceive = .ok amount := by
  have hle := adjust_le (r := price.rate h) maxWheatSend.toInt.toNat
    maxSheepReceive.toInt.toNat
  have hlt := hle.trans_lt (toNat_lt maxWheatSend)
  refine ⟨_, adjustOfferAmount_eq h hws hsr, ofNat_nonneg hlt, ?_, ?_⟩
  · rw [le_iff_toInt_le, toInt_zero] at hws
    rw [le_iff_toInt_le, toInt_ofNat hlt]
    omega
  · rw [adjustOfferAmount_eq h (ofNat_nonneg hlt) hsr, toInt_ofNat hlt, Int.toNat_natCast,
      adjust_idempotent]

end Exchange

theorem adjustOfferAmount_idempotent_zeroed :
    (Price.mk 1501 1000).Positive ∧ (∃ amount, adjustOfferAmount ⟨1501, 1000⟩ 1 5 = .ok amount
      ∧ 0 ≤ amount ∧ amount ≤ 1 ∧ adjustOfferAmount ⟨1501, 1000⟩ amount 5 = .ok amount)
      ∧ adjustOfferAmount ⟨1501, 1000⟩ 1 5 = .ok 0 :=
  ⟨by decide, adjustOfferAmount_idempotent (by decide) (by decide) (by decide), by decide +kernel⟩

/-! ## Adjusting an offer of the book again -/

/-- A negative amount does not get through the multiplications. -/
theorem nonneg_of_adjustOfferAmount {price : Price} {maxWheatSend maxSheepReceive amount : Int64}
    (h : adjustOfferAmount price maxWheatSend maxSheepReceive = .ok amount) :
    0 ≤ maxWheatSend := by
  obtain ⟨res, hexchange, -⟩ := bind_eq_ok.mp h
  obtain ⟨before, hbefore, -⟩ := bind_eq_ok.mp hexchange
  obtain ⟨wheatValue, hvalue, -⟩ := bind_eq_ok.mp hbefore
  obtain ⟨sendValue, hsend, -⟩ := bind_eq_ok.mp hvalue
  exact (bigMultiply_ok_iff.mp ⟨sendValue, hsend⟩).1

section Liabilities

variable {lh : LedgerHeader} {oe : OfferEntry} (h : oe.price.Positive)
include h

/-- The liabilities of an offer are what is taken of it whole. -/
theorem offerLiabilities_eq (hamount : 0 ≤ oe.amount) {res : ExchangeResultV10}
    (hres : offerLiabilities lh oe = .ok res) :
    res = tradeResult ((oe.price.rate h).whole
      ((oe.price.rate h).value oe.amount.toInt.toNat INT64_MAX.toInt.toNat)) false := by
  rw [offerLiabilities] at hres
  split at hres
  · cases hres
  · rw [exchangeV10WithoutPriceErrorThresholds_eq h hamount (by decide) (by decide)
      (by decide) (exchangeTrade_unlimited h _ _)] at hres
    exact (ok.inj hres).symm

/-- An adjusted offer, in numbers. -/
theorem adjust_of_fixed (hfixed : adjustOfferAmount oe.price oe.amount INT64_MAX = .ok oe.amount) :
    (oe.price.rate h).adjust oe.amount.toInt.toNat INT64_MAX.toInt.toNat
      = oe.amount.toInt.toNat := by
  have hamount := nonneg_of_adjustOfferAmount hfixed
  have hle := adjust_le (r := oe.price.rate h) oe.amount.toInt.toNat INT64_MAX.toInt.toNat
  rw [adjustOfferAmount_eq h hamount (by decide)] at hfixed
  have hsame := congrArg Int64.toInt (ok.inj hfixed)
  rw [toInt_ofNat (hle.trans_lt (toNat_lt _))] at hsame
  omega

omit h in
theorem ok_amount_iff {a : Int64} (ha : 0 ≤ a) (hx : x < 2 ^ 63) :
    (Except.ok (Int64.ofNat x) : Except String Int64) = .ok a ↔ x = a.toInt.toNat := by
  rw [ok.injEq, ← toInt_inj, toInt_ofNat hx]
  rw [le_iff_toInt_le, toInt_zero] at ha
  omega

/-- The second adjustment of `crossOfferV10` leaves an adjusted offer as it is
exactly when wheat is the cheaper asset or the limit of the seller covers all
of the wheat. The liabilities of the offer alone do not ensure that. -/
theorem adjustOfferAmount_again_iff {selling buying canSell canBuy : Int64}
    (hfixed : adjustOfferAmount oe.price oe.amount INT64_MAX = .ok oe.amount)
    (hselling : getOfferSellingLiabilities lh oe = .ok selling) (hsell : selling ≤ canSell)
    (hbuying : getOfferBuyingLiabilities lh oe = .ok buying) (hbuy : buying ≤ canBuy) :
    adjustOfferAmount oe.price (min oe.amount canSell) canBuy = .ok oe.amount
      ↔ oe.price.n ≤ oe.price.d
        ∨ oe.amount.toInt * oe.price.n.toInt ≤ canBuy.toInt * oe.price.d.toInt := by
  have hamount := nonneg_of_adjustOfferAmount hfixed
  have hadjust := adjust_of_fixed h hfixed
  have hwheat := whole_wheat_of_adjust hadjust
  obtain ⟨res, hres, hselling⟩ := map_eq_ok.mp hselling
  obtain ⟨res', hres', hbuying⟩ := map_eq_ok.mp hbuying
  obtain rfl := offerLiabilities_eq h hamount hres
  obtain rfl := offerLiabilities_eq h hamount hres'
  -- The offer is taken whole, so the seller can still sell all of it.
  have hselling : oe.amount = selling := by
    rw [← hselling, tradeResult, hwheat, ofNat_toNat hamount]
  have hmin : min oe.amount canSell = oe.amount := by
    rw [← toInt_inj, toInt_min]
    rw [le_iff_toInt_le, ← hselling] at hsell
    omega
  have hsheep := (whole_sheep_le (value_le_sheep (r := oe.price.rate h)
    oe.amount.toInt.toNat INT64_MAX.toInt.toNat)).trans_lt (toNat_lt _)
  have hbuying : (((oe.price.rate h).whole ((oe.price.rate h).value oe.amount.toInt.toNat
      INT64_MAX.toInt.toNat)).sheep : Int) = buying.toInt := by
    rw [← hbuying, tradeResult, toInt_ofNat hsheep]
  rw [le_iff_toInt_le] at hbuy
  have hcanBuy : 0 ≤ canBuy := by
    rw [le_iff_toInt_le, toInt_zero]
    omega
  have hle := adjust_le (r := oe.price.rate h) oe.amount.toInt.toNat canBuy.toInt.toNat
  rw [hmin, adjustOfferAmount_eq h hamount hcanBuy,
    ok_amount_iff hamount (hle.trans_lt (toNat_lt _)),
    adjust_tighter_iff hadjust (Nat.le_of_lt_succ (toNat_lt canBuy)) (by omega)]
  have hn := h.n_pos
  have hd := h.d_pos
  rw [le_iff_toInt_le] at hamount hcanBuy
  refine or_congr ?_ ?_
  · rw [Int32.le_iff_toInt_le]
    show oe.price.n.toInt.toNat ≤ oe.price.d.toInt.toNat ↔ _
    omega
  · rw [← Int.ofNat_le, Int.natCast_mul, Int.natCast_mul, Int.toNat_of_nonneg hamount,
      Int.toNat_of_nonneg hcanBuy]
    show _ * ((oe.price.n.toInt.toNat : Nat) : Int) ≤ _ * ((oe.price.d.toInt.toNat : Nat) : Int)
      ↔ _
    rw [Int.toNat_of_nonneg hn.le, Int.toNat_of_nonneg hd.le]

end Liabilities

def marketHeader : LedgerHeader :=
  { ledgerVersion := 18, previousLedgerHash := 0,
    scpValue := { txSetHash := 0, closeTime := 0 },
    ledgerSeq := 1, totalCoins := 1000, feePool := 0, inflationSeq := 0, baseFee := 100,
    basePercentageFee := 0, maxFee := 0, baseReserve := 1, maxTxSetSize := 100 }

/-- An offer of 101 units of wheat at three sheep for two. -/
def tightOffer : OfferEntry :=
  { sellerID := 1, offerID := 1, selling := .native, buying := .alphaNum4 7 9, amount := 101,
    price := ⟨3, 2⟩ }

/-- With room for exactly the 151 sheep of its liabilities the offer shrinks. -/
theorem tightOffer_shrinks :
    tightOffer.price.Positive
      ∧ adjustOfferAmount tightOffer.price tightOffer.amount INT64_MAX = .ok tightOffer.amount
      ∧ getOfferSellingLiabilities marketHeader tightOffer = .ok 101
      ∧ getOfferBuyingLiabilities marketHeader tightOffer = .ok 151
      ∧ adjustOfferAmount tightOffer.price (min tightOffer.amount 101) 151 = .ok 100 := by
  decide +kernel

/-- One unit of sheep more and it does not. -/
theorem adjustOfferAmount_again_roomy :
    adjustOfferAmount tightOffer.price (min tightOffer.amount 101) 152 = .ok tightOffer.amount :=
  (@adjustOfferAmount_again_iff marketHeader tightOffer (by decide) 101 151 101 152
    (by decide +kernel) (by decide +kernel) (by decide) (by decide +kernel) (by decide)).mpr
    (by decide)

end KinesisCore

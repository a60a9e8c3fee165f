import KinesisCore.AdjustOffer

/-!
# Exchanging with a liquidity pool

`exchangeWithPool` trades against the reserves of a constant-product pool: what is sent,
less the fee, and what is received keep the product of the reserves from falling. A path
payment asks for one side exactly, and the other side is rounded in favour of the pool.
The result is `none` where the source returns `false`.
-/

namespace KinesisCore

open MachineInt

open Int64 (lt_iff_toInt_lt toInt_zero le_iff_toInt_le toInt_maxValue)
open Int64 (le_of_lt not_le not_lt)

def exchangeWithPool (reservesToPool maxSendToPool reservesFromPool maxReceiveFromPool : Int64)
    (feeBps : Int32) (round : RoundingType) : Except String (Option (Int64 × Int64)) := do
  let maxBps : Int32 := 10000
  if feeBps < 0 ∨ maxBps ≤ feeBps then throw "Liquidity pool fee out of range"
  if reservesToPool ≤ 0 ∨ reservesFromPool ≤ 0 then
    throw "non-positive reserve in exchangeWithPool"
  match round with
  | .PATH_PAYMENT_STRICT_SEND =>
    if maxReceiveFromPool ≠ Int64.maxValue then throw "strict send with bounded receive?"
    let maxReceiveFromPool := reservesFromPool
    if maxSendToPool > Int64.maxValue - reservesToPool then return none
    let toPool := maxSendToPool
    let kept ← bigMultiply maxBps.toInt64 reservesToPool
    let paid ← bigMultiply (maxBps - feeBps).toInt64 toPool
    let denominator := (kept + paid) % 2 ^ 128
    let res ← hugeDivide (maxBps - feeBps) (← bigMultiply reservesFromPool toPool) denominator
      .ROUND_DOWN
    match res with
    | none => return none
    | some fromPool =>
      if fromPool > maxReceiveFromPool then throw "received too much from pool"
      if fromPool < 0 then throw "fromPool is negative"
      return if fromPool ≠ 0 then some (toPool, fromPool) else none
  | .PATH_PAYMENT_STRICT_RECEIVE =>
    if maxSendToPool ≠ Int64.maxValue then throw "strict receive with bounded send?"
    let maxSendToPool := Int64.maxValue - reservesToPool
    if maxReceiveFromPool ≥ reservesFromPool then return none
    let fromPool := maxReceiveFromPool
    let res ← hugeDivide maxBps (← bigMultiply reservesToPool fromPool)
      (← bigMultiply (reservesFromPool - fromPool) (maxBps - feeBps).toInt64) .ROUND_UP
    match res with
    | none => return none
    | some toPool =>
      if toPool < 0 then throw "toPool is negative"
      return if toPool ≤ maxSendToPool then some (toPool, fromPool) else none
  | .NORMAL => throw "Invalid rounding type"

/-! ## The product of the reserves -/

/-- A pool with reserves `X` and `Y` that is sent `t`, of which the share `g` of `M` counts,
and pays `f` keeps the product of its reserves. -/
def KeepsProduct (M g X Y t f : Int) : Prop := M * X * Y ≤ (M * X + g * t) * (Y - f)

section

variable {M g X Y t f : Int}

theorem keepsProduct_iff_received :
    KeepsProduct M g X Y t f ↔ f * (M * X + g * t) ≤ g * (Y * t) := by
  unfold KeepsProduct
  constructor <;> intro h <;> linarith

theorem keepsProduct_iff_paid : KeepsProduct M g X Y t f ↔ M * (X * f) ≤ t * ((Y - f) * g) := by
  unfold KeepsProduct
  constructor <;> intro h <;> linarith

/-- The reserves after an exchange are worth no less in the other direction. -/
theorem KeepsProduct.back (hgpos : 0 < g) (hg : g ≤ M) (hX : 0 ≤ X) (ht : 0 ≤ t) (hf : 0 ≤ f)
    (hY : f < Y) (h : KeepsProduct M g X Y t f) {t' : Int}
    (hback : KeepsProduct M g (Y - f) (X + t) f t') : t' ≤ t := by
  rw [keepsProduct_iff_received] at h hback
  rcases le_or_gt 0 t' with ht' | ht'
  · have hfee : g * (f * (X + t)) ≤ f * (M * X + g * t) := by
      have : 0 ≤ (M - g) * (f * X) := mul_nonneg (by omega) (mul_nonneg hf hX)
      linarith
    have hfee' : t' * (g * Y) ≤ t' * (M * (Y - f) + g * f) := by
      have : 0 ≤ (M - g) * (t' * (Y - f)) := mul_nonneg (by omega) (mul_nonneg ht' (by omega))
      linarith
    have hle : t' * (g * Y) ≤ t * (g * Y) := by linarith
    exact le_of_mul_le_mul_right hle (mul_pos hgpos (by omega))
  · omega

end

/-- The most that keeps the product after `t` was sent. -/
def greatestReceived (M g X Y t : Nat) : Nat := g * (Y * t) / (M * X + g * t)

/-- The least that keeps the product when `f` is received. -/
def leastPaid (M g X Y f : Nat) : Nat := (M * (X * f) + (Y - f) * g - 1) / ((Y - f) * g)

section

variable {M g X Y t f : Nat}

theorem keepsProduct_iff_le_greatestReceived (hpos : 0 < M * X) {f' : Int} :
    KeepsProduct M g X Y t f' ↔ f' ≤ greatestReceived M g X Y t := by
  have hd : 0 < ((M * X + g * t : Nat) : Int) := by
    exact_mod_cast Nat.add_pos_left hpos _
  rw [keepsProduct_iff_received, greatestReceived, Int.natCast_ediv, Int.le_ediv_iff_mul_le hd]
  rfl

theorem keepsProduct_iff_leastPaid_le (hg : 0 < g) (hf : f < Y) {t' : Int} :
    KeepsProduct M g X Y t' f ↔ (leastPaid M g X Y f : Int) ≤ t' := by
  have hd : 0 < (Y - f) * g := Nat.mul_pos (by omega) hg
  have hcast : ((Y : Int) - f) * g = ((Y - f) * g : Nat) := by
    rw [Nat.cast_mul, Nat.cast_sub hf.le]
  rw [keepsProduct_iff_paid, hcast]
  rcases le_or_gt 0 t' with ht' | ht'
  · obtain ⟨n, rfl⟩ := Int.eq_ofNat_of_zero_le ht'
    rw [leastPaid, Int.ofNat_le, ← Nat.lt_succ_iff, Nat.div_lt_iff_lt_mul hd, Nat.succ_mul]
    norm_cast
    omega
  · -- nothing negative pays for an amount
    have hneg : t' * ((Y - f) * g : Nat) < 0 := mul_neg_of_neg_of_pos ht' (by exact_mod_cast hd)
    have hcost : (0 : Int) ≤ M * (X * f) := by positivity
    constructor <;> intro h <;> omega

theorem greatestReceived_lt (hpos : 0 < M * X) (hY : 0 < Y) : greatestReceived M g X Y t < Y := by
  rw [greatestReceived, Nat.div_lt_iff_lt_mul (by omega)]
  nlinarith

end

/-! ## What the two modes return -/

section

variable {reservesToPool reservesFromPool amount : Int64} {feeBps : Int32} {a : Int64}

theorem toInt_room (h : 0 < a) : (Int64.maxValue - a).toInt = 2 ^ 63 - 1 - a.toInt := by
  rw [lt_iff_toInt_lt, toInt_zero] at h
  have := a.toInt_lt
  rw [toInt_sub] <;> rw [toInt_maxValue]
  exact ⟨by omega, by omega⟩

/-- The part of a payment that counts, in basis points. -/
def countedBps (feeBps : Int32) : Nat := (10000 - feeBps).toInt.toNat

section

variable (hfee : 0 ≤ feeBps) (hmax : feeBps < 10000)
include hfee hmax

theorem toInt_counted :
    (10000 - feeBps).toInt = 10000 - feeBps.toInt ∧ 0 < (10000 - feeBps).toInt := by
  rw [Int32.le_iff_toInt_le, Int32.toInt_zero] at hfee
  rw [Int32.lt_iff_toInt_lt] at hmax
  have hmax' : feeBps.toInt < 10000 := hmax
  have hsub : (10000 - feeBps).toInt = 10000 - feeBps.toInt := by
    rw [Int32.toInt_sub, show (10000 : Int32).toInt = 10000 from rfl]
    exact Int.bmod_eq_of_le (by omega) (by omega)
  omega

theorem countedBps_bounds :
    0 < countedBps feeBps ∧ countedBps feeBps ≤ 10000
      ∧ (countedBps feeBps : Int) = 10000 - feeBps.toInt := by
  obtain ⟨hcounted, hpos⟩ := toInt_counted hfee hmax
  rw [Int32.le_iff_toInt_le, Int32.toInt_zero] at hfee
  unfold countedBps
  omega

theorem toInt_toInt64_counted :
    (10000 - feeBps).toInt64.toInt = countedBps feeBps := by
  obtain ⟨-, hpos⟩ := toInt_counted hfee hmax
  rw [Int32.toInt_toInt64, countedBps]
  omega

theorem bigMultiply_counted (hamount : 0 ≤ amount) :
    bigMultiply (10000 - feeBps).toInt64 amount
      = .ok (countedBps feeBps * amount.toInt.toNat) := by
  have hnonneg : 0 ≤ (10000 - feeBps).toInt64 := by
    rw [le_iff_toInt_le, toInt_toInt64_counted hfee hmax, toInt_zero]
    omega
  rw [bigMultiply_toNat hnonneg hamount, toInt_toInt64_counted hfee hmax, Int.toNat_natCast]

/-- The divisor of a strict receive. -/
theorem bigMultiply_left (hamount : 0 ≤ amount) (hlt : amount < reservesFromPool) :
    bigMultiply (reservesFromPool - amount) (10000 - feeBps).toInt64
      = .ok ((reservesFromPool.toInt.toNat - amount.toInt.toNat) * countedBps feeBps) := by
  have hcounted := toInt_toInt64_counted hfee hmax
  rw [lt_iff_toInt_lt] at hlt
  rw [le_iff_toInt_le, toInt_zero] at hamount
  have hleft := toInt_sub_of_nonneg (hamount.trans hlt.le) hamount
  have hleftNonneg : 0 ≤ reservesFromPool - amount := by
    rw [le_iff_toInt_le, toInt_zero]
    omega
  have hcountedNonneg : 0 ≤ (10000 - feeBps).toInt64 := by
    rw [le_iff_toInt_le, toInt_zero]
    omega
  rw [bigMultiply_toNat hleftNonneg hcountedNonneg, hcounted, hleft, Int.toNat_natCast,
    Int.toNat_sub'']
  all_goals omega

end

/-- Reserves and a fee that an exchange is made with. -/
structure Tradable (reservesToPool reservesFromPool : Int64) (feeBps : Int32) : Prop where
  toPool : 0 < reservesToPool
  fromPool : 0 < reservesFromPool
  fee : 0 ≤ feeBps
  max : feeBps < 10000

/-- What a pool pays for an amount. -/
def poolPays (reservesToPool reservesFromPool : Int64) (feeBps : Int32) (amount : Int64) : Nat :=
  greatestReceived 10000 (countedBps feeBps) reservesToPool.toInt.toNat
    reservesFromPool.toInt.toNat amount.toInt.toNat

/-- What a pool takes for an amount. -/
def poolCosts (reservesToPool reservesFromPool : Int64) (feeBps : Int32) (amount : Int64) : Nat :=
  leastPaid 10000 (countedBps feeBps) reservesToPool.toInt.toNat reservesFromPool.toInt.toNat
    amount.toInt.toNat

variable (h : Tradable reservesToPool reservesFromPool feeBps)
include h

variable (amount) in
theorem poolPays_lt :
    poolPays reservesToPool reservesFromPool feeBps amount < reservesFromPool.toInt.toNat :=
  greatestReceived_lt (Nat.mul_pos (by decide) (toNat_pos h.toPool)) (toNat_pos h.fromPool)

/-- The checks both modes start with pass. -/
theorem exchangeWithPool_checks :
    ¬(feeBps < 0 ∨ 10000 ≤ feeBps) ∧ ¬(reservesToPool ≤ 0 ∨ reservesFromPool ≤ 0) := by
  simp only [not_or, Int32.not_lt, Int32.not_le, not_le]
  exact ⟨⟨h.fee, h.max⟩, h.toPool, h.fromPool⟩

variable (amount) in
/-- The division of a strict send, with its sum of two products below 128 bits. -/
theorem hugeDivide_received :
    hugeDivide (10000 - feeBps) (reservesFromPool.toInt.toNat * amount.toInt.toNat)
        ((10000 * reservesToPool.toInt.toNat + countedBps feeBps * amount.toInt.toNat) % 2 ^ 128)
        .ROUND_DOWN
      = .ok (some (Int64.ofNat (poolPays reservesToPool reservesFromPool feeBps amount))) := by
  obtain ⟨-, hgmax, -⟩ := countedBps_bounds h.fee h.max
  obtain ⟨-, hcounted⟩ := toInt_counted h.fee h.max
  have hto := toNat_pos h.toPool
  have htolt := toNat_lt reservesToPool
  have hlt := toNat_lt amount
  have hpaid : countedBps feeBps * amount.toInt.toNat ≤ 10000 * (2 ^ 63 - 1) :=
    Nat.mul_le_mul hgmax (by omega)
  have hpays := poolPays_lt amount h
  have hfromlt := toNat_lt reservesFromPool
  rw [Nat.mod_eq_of_lt (by omega), hugeDivide_eq hcounted _ (by omega) (by omega)]
  change Except.ok (fits63 (poolPays reservesToPool reservesFromPool feeBps amount)) = _
  rw [fits63, if_pos (by omega)]

section Amount

variable (hamount : 0 ≤ amount)
include hamount

/-- A strict send pays the pool the amount and takes the most that keeps the product. -/
theorem exchangeWithPool_send :
    exchangeWithPool reservesToPool amount reservesFromPool Int64.maxValue feeBps
        .PATH_PAYMENT_STRICT_SEND
      = .ok (if amount > Int64.maxValue - reservesToPool then none
          else
            let received := poolPays reservesToPool reservesFromPool feeBps amount
            if received = 0 then none else some (amount, Int64.ofNat received)) := by
  obtain ⟨hchecks, hreserves⟩ := exchangeWithPool_checks h
  have hkept : bigMultiply (10000 : Int32).toInt64 reservesToPool
      = .ok (10000 * reservesToPool.toInt.toNat) :=
    bigMultiply_toNat (by decide) (le_of_lt h.toPool)
  have hpaid := bigMultiply_counted h.fee h.max hamount
  have hproduct := bigMultiply_toNat (le_of_lt h.fromPool) hamount
  have hdivide := hugeDivide_received amount h
  rw [exchangeWithPool, if_neg hchecks, if_neg hreserves, if_neg (not_not.mpr rfl)]
  dsimp only [bind, Except.bind, pure, Except.pure]
  by_cases hroom : amount > Int64.maxValue - reservesToPool
  · rw [if_pos hroom, if_pos hroom]
  · rw [if_neg hroom, if_neg hroom, hkept, hpaid, hproduct]
    dsimp only
    rw [hdivide]
    have hreceived := poolPays_lt amount h
    generalize poolPays reservesToPool reservesFromPool feeBps amount = received at hreceived
    have hfromlt := toNat_lt reservesFromPool
    have hfits : received < 2 ^ 63 := by omega
    -- neither assertion on what comes out of the pool can fail
    have hle : ¬Int64.ofNat received > reservesFromPool := by
      rw [gt_iff_lt, lt_iff_toInt_lt, toInt_ofNat hfits]
      omega
    have hnonneg : ¬Int64.ofNat received < 0 := by
      rw [not_lt]
      exact ofNat_nonneg hfits
    dsimp only
    rw [if_neg hle, if_neg hnonneg]
    simp only [ne_eq, ofNat_eq_zero_iff hfits, ite_not]

/-- The division of a strict receive. -/
theorem hugeDivide_paid (hlt : amount < reservesFromPool) :
    hugeDivide 10000 (reservesToPool.toInt.toNat * amount.toInt.toNat)
        ((reservesFromPool.toInt.toNat - amount.toInt.toNat) * countedBps feeBps) .ROUND_UP
      = .ok (fits63 (poolCosts reservesToPool reservesFromPool feeBps amount)) := by
  obtain ⟨hg, hgmax, -⟩ := countedBps_bounds h.fee h.max
  have hfromlt := toNat_lt reservesFromPool
  rw [lt_iff_toInt_lt] at hlt
  rw [le_iff_toInt_le, toInt_zero] at hamount
  have hpos : 0 < (reservesFromPool.toInt.toNat - amount.toInt.toNat) * countedBps feeBps :=
    Nat.mul_pos (by omega) hg
  have hle : (reservesFromPool.toInt.toNat - amount.toInt.toNat) * countedBps feeBps
      ≤ (2 ^ 63 - 1) * 10000 :=
    Nat.mul_le_mul (by omega) hgmax
  rw [hugeDivide_eq (by decide) _ hpos (by omega)]
  rfl

/-- A strict receive takes the amount and pays the least that keeps the product. -/
theorem exchangeWithPool_receive :
    exchangeWithPool reservesToPool Int64.maxValue reservesFromPool amount feeBps
        .PATH_PAYMENT_STRICT_RECEIVE
      = .ok (if amount ≥ reservesFromPool then none
          else
            let paid := poolCosts reservesToPool reservesFromPool feeBps amount
            if paid + reservesToPool.toInt.toNat < 2 ^ 63 then some (Int64.ofNat paid, amount)
            else none) := by
  obtain ⟨hchecks, hreserves⟩ := exchangeWithPool_checks h
  have hproduct := bigMultiply_toNat (le_of_lt h.toPool) hamount
  rw [exchangeWithPool, if_neg hchecks, if_neg hreserves, if_neg (not_not.mpr rfl)]
  dsimp only [bind, Except.bind, pure, Except.pure]
  by_cases hall : amount ≥ reservesFromPool
  · rw [if_pos hall, if_pos hall]
  · rw [if_neg hall, if_neg hall, hproduct]
    have hlt : amount < reservesFromPool := not_le.mp hall
    rw [bigMultiply_left h.fee h.max hamount hlt]
    dsimp only
    rw [hugeDivide_paid h hamount hlt]
    generalize poolCosts reservesToPool reservesFromPool feeBps amount = paid
    rw [fits63]
    by_cases hfits : paid < 2 ^ 63
    · rw [if_pos hfits]
      have hnonneg : ¬Int64.ofNat paid < 0 := not_lt.mpr (ofNat_nonneg hfits)
      have hroom : Int64.ofNat paid ≤ Int64.maxValue - reservesToPool
          ↔ paid + reservesToPool.toInt.toNat < 2 ^ 63 := by
        rw [le_iff_toInt_le, toInt_ofNat hfits, toInt_room h.toPool]
        omega
      dsimp only
      rw [if_neg hnonneg]
      simp only [hroom]
    · rw [if_neg hfits, if_neg (by omega)]

/-! ## Optimality -/

/-- An exchange of `t` for `f` that leaves the pool something on both sides, fits its
reserves and keeps their product. -/
structure FairExchange (reservesToPool reservesFromPool : Int64) (feeBps : Int32)
    (t f : Int64) : Prop where
  received : 0 ≤ f ∧ f < reservesFromPool
  fits : reservesToPool.toInt + t.toInt ≤ Int64.maxValue.toInt
  product : KeepsProduct 10000 (10000 - feeBps.toInt) reservesToPool.toInt reservesFromPool.toInt
    t.toInt f.toInt

theorem keepsProduct_received {f : Int} :
    KeepsProduct 10000 (10000 - feeBps.toInt) reservesToPool.toInt reservesFromPool.toInt
        amount.toInt f
      ↔ f ≤ poolPays reservesToPool reservesFromPool feeBps amount := by
  obtain ⟨-, -, hg⟩ := countedBps_bounds h.fee h.max
  rw [poolPays, ← keepsProduct_iff_le_greatestReceived
    (Nat.mul_pos (by decide) (toNat_pos h.toPool)), hg, natCast_toNat (le_of_lt h.toPool),
    natCast_toNat (le_of_lt h.fromPool), natCast_toNat hamount]
  rfl

theorem keepsProduct_paid (hlt : amount < reservesFromPool) {t : Int} :
    KeepsProduct 10000 (10000 - feeBps.toInt) reservesToPool.toInt reservesFromPool.toInt t
        amount.toInt
      ↔ poolCosts reservesToPool reservesFromPool feeBps amount ≤ t := by
  obtain ⟨hpos, -, hg⟩ := countedBps_bounds h.fee h.max
  have hfrom := le_of_lt h.fromPool
  have hlt' : amount.toInt.toNat < reservesFromPool.toInt.toNat := by
    rw [lt_iff_toInt_lt, ← natCast_toNat hamount, ← natCast_toNat hfrom] at hlt
    exact_mod_cast hlt
  rw [poolCosts, ← keepsProduct_iff_leastPaid_le hpos hlt', hg,
    natCast_toNat (le_of_lt h.toPool), natCast_toNat hfrom, natCast_toNat hamount]
  rfl

/-- A strict send never throws, and takes the most that keeps the product. -/
theorem exchangeWithPool_send_optimal :
    ∃ sent, exchangeWithPool reservesToPool amount reservesFromPool Int64.maxValue feeBps
        .PATH_PAYMENT_STRICT_SEND = .ok sent
      ∧ ∀ t f, sent = some (t, f) →
        t = amount ∧ FairExchange reservesToPool reservesFromPool feeBps t f
          ∧ ∀ f' : Int, KeepsProduct 10000 (10000 - feeBps.toInt) reservesToPool.toInt
              reservesFromPool.toInt t.toInt f' → f' ≤ f.toInt := by
  refine ⟨_, exchangeWithPool_send h hamount, ?_⟩
  intro t f hsent
  have hkeeps := @keepsProduct_received _ _ _ _ h hamount
  have hreceived := poolPays_lt amount h
  dsimp only at hsent
  generalize poolPays reservesToPool reservesFromPool feeBps amount = received
    at hkeeps hreceived hsent
  have hfits : received < 2 ^ 63 := hreceived.trans (toNat_lt reservesFromPool)
  split at hsent
  · cases hsent
  · rename_i hroom
    split at hsent
    · cases hsent
    · cases hsent
      rw [not_lt, le_iff_toInt_le, toInt_room h.toPool] at hroom
      refine ⟨rfl, ⟨⟨ofNat_nonneg hfits, ?_⟩, ?_, ?_⟩, ?_⟩
      · rw [lt_iff_toInt_lt, toInt_ofNat hfits]
        omega
      · rw [toInt_maxValue]
        omega
      · rw [hkeeps, toInt_ofNat hfits]
      · intro f' hf'
        rw [toInt_ofNat hfits]
        exact hkeeps.mp hf'

/-- A strict receive never throws, and pays the least that keeps the product. -/
theorem exchangeWithPool_receive_optimal :
    ∃ got, exchangeWithPool reservesToPool Int64.maxValue reservesFromPool amount feeBps
        .PATH_PAYMENT_STRICT_RECEIVE = .ok got
      ∧ ∀ t f, got = some (t, f) →
        f = amount ∧ FairExchange reservesToPool reservesFromPool feeBps t f
          ∧ ∀ t' : Int, KeepsProduct 10000 (10000 - feeBps.toInt) reservesToPool.toInt
              reservesFromPool.toInt t' f.toInt → t.toInt ≤ t' := by
  refine ⟨_, exchangeWithPool_receive h hamount, ?_⟩
  intro t f hgot
  dsimp only at hgot
  split at hgot
  · cases hgot
  · rename_i hall
    have hlt : amount < reservesFromPool := not_le.mp hall
    have hkeeps := @keepsProduct_paid _ _ _ _ h hamount hlt
    generalize poolCosts reservesToPool reservesFromPool feeBps amount = paid at hkeeps hgot
    split at hgot
    · rename_i hroom
      cases hgot
      have hfits : paid < 2 ^ 63 := by omega
      refine ⟨rfl, ⟨⟨hamount, hlt⟩, ?_, ?_⟩, ?_⟩
      · rw [toInt_maxValue, toInt_ofNat hfits]
        omega
      · rw [hkeeps, toInt_ofNat hfits]
      · intro t' ht'
        rw [toInt_ofNat hfits]
        exact hkeeps.mp ht'
    · cases hgot

end Amount

/-- An exchange the pool could make for an amount bounds what a strict receive of it pays. -/
theorem exchangeWithPool_receive_of_fair {t f : Int64}
    (hfair : FairExchange reservesToPool reservesFromPool feeBps t f) :
    ∃ t', exchangeWithPool reservesToPool Int64.maxValue reservesFromPool f feeBps
        .PATH_PAYMENT_STRICT_RECEIVE = .ok (some (t', f)) ∧ t' ≤ t := by
  obtain ⟨⟨hnonneg, hlt⟩, hfits, hproduct⟩ := hfair
  have hpaid := (keepsProduct_paid h hnonneg hlt).mp hproduct
  have hreceive := exchangeWithPool_receive h hnonneg
  have htoNat := natCast_toNat (le_of_lt h.toPool)
  rw [toInt_maxValue] at hfits
  rw [if_neg (not_le.mpr hlt), if_pos (by omega)] at hreceive
  refine ⟨_, hreceive, ?_⟩
  rw [le_iff_toInt_le, toInt_ofNat (by omega)]
  exact hpaid

/-- What a strict send took from the pool, sent back, buys no more than was sent. -/
theorem exchangeWithPool_back {t f : Int64} (ht : 0 ≤ t)
    (hfair : FairExchange reservesToPool reservesFromPool feeBps t f) {f' t' : Int64}
    (hback : exchangeWithPool (reservesFromPool - f) f (reservesToPool + t) Int64.maxValue feeBps
      .PATH_PAYMENT_STRICT_SEND = .ok (some (f', t'))) : t' ≤ t := by
  obtain ⟨⟨hnonneg, hlt⟩, hfits, hproduct⟩ := hfair
  obtain ⟨hg, hgpos⟩ := toInt_counted h.fee h.max
  rw [toInt_maxValue] at hfits
  have hX := h.toPool
  have hf := hnonneg
  have hY := hlt
  have ht' := ht
  have hfee := h.fee
  rw [lt_iff_toInt_lt, toInt_zero] at hX
  rw [le_iff_toInt_le, toInt_zero] at hf ht'
  rw [Int32.le_iff_toInt_le, Int32.toInt_zero] at hfee
  rw [lt_iff_toInt_lt] at hY
  have hleft := toInt_sub_of_nonneg (hf.trans hY.le) hf
  have hgrown : (reservesToPool + t).toInt = reservesToPool.toInt + t.toInt :=
    toInt_add ⟨by omega, by omega⟩
  have hleftPos : 0 < reservesFromPool - f := by
    rw [lt_iff_toInt_lt, toInt_zero]
    omega
  have hgrownPos : 0 < reservesToPool + t := by
    rw [lt_iff_toInt_lt, toInt_zero]
    omega
  obtain ⟨sent, hsent, hoptimal⟩ :=
    exchangeWithPool_send_optimal ⟨hleftPos, hgrownPos, h.fee, h.max⟩ hnonneg
  obtain rfl := Except.ok.inj (hsent.symm.trans hback)
  obtain ⟨rfl, hagain, -⟩ := hoptimal _ _ rfl
  have hkeeps := hagain.product
  rw [hleft, hgrown] at hkeeps
  rw [le_iff_toInt_le]
  exact hproduct.back (by omega) (by omega) hX.le ht' hf hY hkeeps

end

/-- For every pool and fee, both path payment modes return. A strict send sends the amount
and takes the most that keeps the product of the reserves, a strict receive takes the amount
and sends the least, and a strict send is never beaten by a strict receive of its proceeds
nor undone at a profit. -/
theorem exchangeWithPool_optimal (reservesToPool reservesFromPool amount : Int64) (feeBps : Int32)
    (hto : 0 < reservesToPool) (hfrom : 0 < reservesFromPool) (hfee : 0 ≤ feeBps)
    (hmax : feeBps < 10000) (hamount : 0 ≤ amount) :
    (∃ sent, exchangeWithPool reservesToPool amount reservesFromPool Int64.maxValue feeBps
        .PATH_PAYMENT_STRICT_SEND = .ok sent
      ∧ ∀ t f, sent = some (t, f) →
        t = amount ∧ FairExchange reservesToPool reservesFromPool feeBps t f
          ∧ (∀ f' : Int, KeepsProduct 10000 (10000 - feeBps.toInt) reservesToPool.toInt
              reservesFromPool.toInt t.toInt f' → f' ≤ f.toInt)
          ∧ (∃ t', exchangeWithPool reservesToPool Int64.maxValue reservesFromPool f feeBps
              .PATH_PAYMENT_STRICT_RECEIVE = .ok (some (t', f)) ∧ t' ≤ t)
          ∧ ∀ f' t', exchangeWithPool (reservesFromPool - f) f (reservesToPool + t)
              Int64.maxValue feeBps .PATH_PAYMENT_STRICT_SEND = .ok (some (f', t')) → t' ≤ t)
      ∧ ∃ got, exchangeWithPool reservesToPool Int64.maxValue reservesFromPool amount feeBps
          .PATH_PAYMENT_STRICT_RECEIVE = .ok got
        ∧ ∀ t f, got = some (t, f) →
          f = amount ∧ FairExchange reservesToPool reservesFromPool feeBps t f
            ∧ ∀ t' : Int, KeepsProduct 10000 (10000 - feeBps.toInt) reservesToPool.toInt
                reservesFromPool.toInt t' f.toInt → t.toInt ≤ t' := by
  have h : Tradable reservesToPool reservesFromPool feeBps := ⟨hto, hfrom, hfee, hmax⟩
  constructor
  · obtain ⟨sent, hsent, hoptimal⟩ := exchangeWithPool_send_optimal h hamount
    refine ⟨sent, hsent, ?_⟩
    intro t f hsome
    obtain ⟨rfl, hfair, hgreatest⟩ := hoptimal t f hsome
    exact ⟨rfl, hfair, hgreatest, exchangeWithPool_receive_of_fair h hfair,
      fun _ _ => exchangeWithPool_back h hamount hfair⟩
  · exact exchangeWithPool_receive_optimal h hamount

/-- The largest reserves and a fee of 30 basis points. -/
theorem exchangeWithPool_optimal_largest :
    ∃ sent, exchangeWithPool 1000 500 9223372036854775807 Int64.maxValue 30
      .PATH_PAYMENT_STRICT_SEND = .ok (some sent) ∧ 0 ≤ sent.2 := by
  have hoptimal := exchangeWithPool_optimal 1000 9223372036854775807 500 30 (by decide) (by decide)
    (by decide) (by decide) (by decide)
  obtain ⟨⟨sent, hsent, hfair⟩, -⟩ := hoptimal
  have hcomputed : exchangeWithPool 1000 500 9223372036854775807 Int64.maxValue 30
      .PATH_PAYMENT_STRICT_SEND = .ok (some (500, 3068302275857261087)) := by decide +kernel
  obtain rfl := Except.ok.inj (hsent.symm.trans hcomputed)
  exact ⟨_, hcomputed, (hfair _ _ rfl).2.1.received.1⟩

end KinesisCore

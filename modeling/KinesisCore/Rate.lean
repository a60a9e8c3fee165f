import Mathlib.Algebra.Order.Floor.Div

/-!
# Trades at a rational price

Wheat is sold for sheep at `n / d` sheep per unit of wheat. Values are
measured so that `w` units of wheat are worth `w * n` and `s` units of sheep
are worth `s * d`, which keeps everything in the natural numbers. A trade of
whole units can only approximate the price; the definitions here say how, and
the lemmas which side the rounding favours.

`whole` fills an offer of a given value completely, in favour of whoever takes
it. `byWheat`, `bySheep` and `paying` fill it in part, in favour of the offer.
`adjust` cuts an offer down to what a buyer without limits would take of it.
-/

/-- A price with both parts positive. -/
structure Rate where
  n : Nat
  d : Nat
  n_pos : 0 < n
  d_pos : 0 < d

structure Trade where
  wheat : Nat
  sheep : Nat
  deriving Repr, DecidableEq

namespace Rate

variable (r : Rate) {wheat sheep : Nat}

/-- The whole of an offer worth `v`: the more valuable asset is rounded first. -/
def whole (v : Nat) : Trade :=
  if r.d < r.n then ⟨v / r.n, v / r.n * r.n / r.d⟩ else ⟨v / r.d * r.d ⌈/⌉ r.n, v / r.d⟩

def byWheat (v : Nat) : Trade := ⟨v / r.n, v / r.n * r.n ⌈/⌉ r.d⟩

def bySheep (v : Nat) : Trade := ⟨v / r.d * r.d / r.n, v / r.d⟩

def paying (v sheep : Nat) : Trade := ⟨v / r.n, sheep⟩

/-- The seller of wheat gets at least 99% of the price. -/
def Fair (t : Trade) : Prop := 99 * (t.wheat * r.n) ≤ 100 * (t.sheep * r.d)

instance (t : Trade) : Decidable (r.Fair t) := inferInstanceAs (Decidable (_ ≤ _))

/-- The value of an offer that can send `wheat` and receive `sheep`. -/
def value (wheat sheep : Nat) : Nat := min (wheat * r.n) (sheep * r.d)

/-- What a buyer without limits takes of an offer. -/
def adjust (wheat sheep : Nat) : Nat :=
  let t := r.whole (r.value wheat sheep)
  if 0 < t.wheat ∧ 0 < t.sheep ∧ r.Fair t then t.wheat else 0

/-! ## Rounding -/

variable {r} {v w s : Nat}

theorem div_n_le (h : v ≤ w * r.n) : v / r.n ≤ w := Nat.div_le_of_le_mul (by rwa [Nat.mul_comm])

theorem div_d_le (h : v ≤ s * r.d) : v / r.d ≤ s := Nat.div_le_of_le_mul (by rwa [Nat.mul_comm])

theorem ceilDiv_n_le (h : v ≤ w * r.n) : v ⌈/⌉ r.n ≤ w := by
  rwa [ceilDiv_le_iff_le_mul r.n_pos, Nat.mul_comm]

theorem ceilDiv_d_le (h : v ≤ s * r.d) : v ⌈/⌉ r.d ≤ s := by
  rwa [ceilDiv_le_iff_le_mul r.d_pos, Nat.mul_comm]

theorem le_ceilDiv_mul {a : Nat} (ha : 0 < a) : v ≤ v ⌈/⌉ a * a := by
  rw [Nat.mul_comm]
  exact le_smul_ceilDiv (β := Nat) ha

/-! ## Which side a trade favours, and that it stays within the value -/

theorem whole_favors_sheep : (r.whole v).sheep * r.d ≤ (r.whole v).wheat * r.n := by
  rw [whole]
  split
  · exact Nat.div_mul_le_self _ _
  · exact le_ceilDiv_mul r.n_pos

theorem byWheat_favors_wheat : (r.byWheat v).wheat * r.n ≤ (r.byWheat v).sheep * r.d :=
  le_ceilDiv_mul r.d_pos

theorem bySheep_favors_wheat : (r.bySheep v).wheat * r.n ≤ (r.bySheep v).sheep * r.d :=
  Nat.div_mul_le_self _ _

theorem paying_favors_wheat (h : v ≤ s * r.d) :
    (r.paying v s).wheat * r.n ≤ (r.paying v s).sheep * r.d :=
  (Nat.div_mul_le_self _ _).trans h

theorem whole_wheat_le (h : v ≤ w * r.n) : (r.whole v).wheat ≤ w := by
  rw [whole]
  split
  · exact div_n_le h
  · exact ceilDiv_n_le ((Nat.div_mul_le_self _ _).trans h)

theorem whole_sheep_le (h : v ≤ s * r.d) : (r.whole v).sheep ≤ s := by
  rw [whole]
  split
  · exact div_d_le ((Nat.div_mul_le_self _ _).trans h)
  · exact div_d_le h

theorem byWheat_wheat_le (h : v ≤ w * r.n) : (r.byWheat v).wheat ≤ w := div_n_le h

theorem byWheat_sheep_le (h : v ≤ s * r.d) : (r.byWheat v).sheep ≤ s :=
  ceilDiv_d_le ((Nat.div_mul_le_self _ _).trans h)

theorem bySheep_wheat_le (h : v ≤ w * r.n) : (r.bySheep v).wheat ≤ w :=
  div_n_le ((Nat.div_mul_le_self _ _).trans h)

theorem bySheep_sheep_le (h : v ≤ s * r.d) : (r.bySheep v).sheep ≤ s := div_d_le h

theorem value_le_wheat (wheat sheep : Nat) : r.value wheat sheep ≤ wheat * r.n := min_le_left _ _

theorem value_le_sheep (wheat sheep : Nat) : r.value wheat sheep ≤ sheep * r.d := min_le_right _ _

variable {t : Trade} {limit : Nat}

/-- A trade that favours the seller of wheat is fair. -/
theorem fair_of_favors_wheat (h : t.wheat * r.n ≤ t.sheep * r.d) : r.Fair t := by
  rw [Fair]
  omega

/-- Filling an offer moves both assets or none. -/
theorem whole_sheep_pos_iff : 0 < (r.whole v).sheep ↔ 0 < (r.whole v).wheat := by
  have hfavors := whole_favors_sheep (r := r) (v := v)
  constructor
  · intro h
    have hvalue := Nat.mul_pos h r.d_pos
    exact Nat.pos_of_mul_pos_right (hvalue.trans_le hfavors)
  · rw [whole]
    split
    · rename_i hlt
      intro h
      refine Nat.div_pos (hlt.le.trans ?_) r.d_pos
      exact Nat.le_mul_of_pos_left _ h
    · intro h
      by_contra hzero
      have hdiv : v / r.d = 0 := Nat.eq_zero_of_not_pos hzero
      simp [hdiv] at h

theorem byWheat_sheep_pos_iff : 0 < (r.byWheat v).sheep ↔ 0 < (r.byWheat v).wheat := by
  constructor
  · intro h
    by_contra hzero
    have hdiv : v / r.n = 0 := Nat.eq_zero_of_not_pos hzero
    simp [byWheat, hdiv] at h
  · intro h
    have hvalue := Nat.mul_pos h r.n_pos
    exact Nat.pos_of_mul_pos_right (hvalue.trans_le byWheat_favors_wheat)

/-- With the dearer sheep rounded first, one unit of it buys some wheat. -/
theorem bySheep_sheep_pos_iff (hdear : r.n ≤ r.d) :
    0 < (r.bySheep v).sheep ↔ 0 < (r.bySheep v).wheat := by
  constructor
  · intro h
    refine Nat.div_pos (hdear.trans ?_) r.n_pos
    exact Nat.le_mul_of_pos_left _ h
  · intro h
    have hvalue := Nat.mul_pos h r.n_pos
    exact Nat.pos_of_mul_pos_right (hvalue.trans_le bySheep_favors_wheat)

/-- Sheep enough for all the wheat that is wanted buys exactly that wheat. -/
theorem byWheat_value (h : wheat * r.n ≤ sheep * r.d) :
    r.byWheat (r.value wheat sheep) = ⟨wheat, wheat * r.n ⌈/⌉ r.d⟩ := by
  rw [value, min_eq_left h, byWheat, Nat.mul_div_cancel _ r.n_pos]

/-- Less wheat than wanted is all the wheat that the sheep is worth. -/
theorem value_eq_of_lt (h : r.value wheat sheep / r.n < wheat) :
    r.value wheat sheep = sheep * r.d := by
  refine min_eq_right ((lt_of_not_ge fun hle => ?_).le)
  rw [value, min_eq_left hle, Nat.mul_div_cancel _ r.n_pos] at h
  exact lt_irrefl _ h

/-- Where sheep is rounded first, a value anywhere between the sheep of an
offer and the offer's own value is filled by the same trade. -/
theorem whole_eq_of_between {v' : Nat} (hdear : r.n ≤ r.d) (hle : v' ≤ v)
    (hge : (r.whole v).sheep * r.d ≤ v') : r.whole v' = r.whole v := by
  have hlt : ¬r.d < r.n := Nat.not_lt.mpr hdear
  have heq : v' / r.d = v / r.d := by
    refine Nat.le_antisymm (Nat.div_le_div_right hle) ?_
    rw [Nat.le_div_iff_mul_le r.d_pos]
    simpa only [whole, if_neg hlt] using hge
  simp only [whole, if_neg hlt, heq]

/-! ## Adjusting -/

/-- An offer limited to what was just taken of it is taken whole again. -/
theorem whole_value_whole (wheat sheep : Nat) :
    r.whole (r.value (r.whole (r.value wheat sheep)).wheat sheep)
      = r.whole (r.value wheat sheep) := by
  have hwheat := whole_wheat_le (value_le_wheat (r := r) wheat sheep)
  have hsheep := whole_sheep_le (value_le_sheep (r := r) wheat sheep)
  have hfavors := whole_favors_sheep (r := r) (v := r.value wheat sheep)
  rcases Nat.lt_or_ge r.d r.n with hlt | hdear
  · -- The wheat taken is worth no more than the old value, so it is the new one.
    have hworth : (r.whole (r.value wheat sheep)).wheat * r.n ≤ sheep * r.d := by
      rw [whole, if_pos hlt]
      exact (Nat.div_mul_le_self _ _).trans (value_le_sheep _ _)
    have heq : r.value (r.whole (r.value wheat sheep)).wheat sheep / r.n
        = (r.whole (r.value wheat sheep)).wheat := by
      rw [value, min_eq_left hworth, Nat.mul_div_cancel _ r.n_pos]
    rw [whole, heq]
    simp only [whole, if_pos hlt]
  · refine whole_eq_of_between hdear ?_ (le_min hfavors (Nat.mul_le_mul_right _ hsheep))
    exact min_le_min_right _ (Nat.mul_le_mul_right _ hwheat)

theorem adjust_le (wheat sheep : Nat) : r.adjust wheat sheep ≤ wheat := by
  simp only [adjust]
  split
  · exact whole_wheat_le (value_le_wheat _ _)
  · exact Nat.zero_le _

theorem adjust_zero (sheep : Nat) : r.adjust 0 sheep = 0 := Nat.le_zero.mp (adjust_le _ _)

theorem adjust_idempotent (wheat sheep : Nat) :
    r.adjust (r.adjust wheat sheep) sheep = r.adjust wheat sheep := by
  by_cases h : 0 < (r.whole (r.value wheat sheep)).wheat
      ∧ 0 < (r.whole (r.value wheat sheep)).sheep ∧ r.Fair (r.whole (r.value wheat sheep))
  · have hadjust : r.adjust wheat sheep = (r.whole (r.value wheat sheep)).wheat := if_pos h
    rw [hadjust, adjust]
    simp only [whole_value_whole, if_pos h]
  · have hadjust : r.adjust wheat sheep = 0 := if_neg h
    rw [hadjust, adjust_zero]

/-- A positive fixed point is taken whole, and fairly. -/
theorem adjust_eq_self (hpos : 0 < wheat) (h : r.adjust wheat sheep = wheat) :
    (r.whole (r.value wheat sheep)).wheat = wheat
      ∧ 0 < (r.whole (r.value wheat sheep)).sheep
      ∧ r.Fair (r.whole (r.value wheat sheep)) := by
  simp only [adjust] at h
  split at h
  · rename_i hfair
    exact ⟨h, hfair.2⟩
  · omega

section

variable (h : r.adjust wheat sheep = wheat)
include h

theorem whole_wheat_of_adjust : (r.whole (r.value wheat sheep)).wheat = wheat := by
  rcases Nat.eq_zero_or_pos wheat with rfl | hpos
  · exact Nat.le_zero.mp (whole_wheat_le (value_le_wheat _ _))
  · exact (adjust_eq_self hpos h).1

omit h in
theorem adjust_of_whole (ht : r.whole (r.value wheat sheep) = t) (hpos : 0 < t.wheat)
    (hfair : r.Fair t) : r.adjust wheat sheep = t.wheat := by
  subst ht
  simp only [adjust]
  rw [if_pos ⟨hpos, whole_sheep_pos_iff.mpr hpos, hfair⟩]

/-- An adjusted offer stays as it is under a tighter limit on the sheep, as
long as the limit covers the sheep the offer was to receive, exactly when wheat
is the cheaper asset or the limit covers all of the wheat. -/
theorem adjust_tighter_iff (hlimit : limit ≤ sheep)
    (hcovers : (r.whole (r.value wheat sheep)).sheep ≤ limit) :
    r.adjust wheat limit = wheat ↔ r.n ≤ r.d ∨ wheat * r.n ≤ limit * r.d := by
  rcases Nat.eq_zero_or_pos wheat with rfl | hpos
  · simp [adjust_zero]
  obtain ⟨hwheat, hsheep, hfair⟩ := adjust_eq_self hpos h
  constructor
  · intro hsame
    by_contra hcon
    rw [not_or, Nat.not_le, Nat.not_le] at hcon
    obtain ⟨hlt, hworth⟩ := hcon
    have hwhole := (adjust_eq_self hpos hsame).1
    rw [value, min_eq_right hworth.le, whole, if_pos hlt] at hwhole
    have hfloor := Nat.div_mul_le_self (limit * r.d) r.n
    have hwhole : limit * r.d / r.n = wheat := hwhole
    rw [hwhole] at hfloor
    omega
  · intro hcond
    have hsame : r.whole (r.value wheat limit) = r.whole (r.value wheat sheep) := by
      rcases Nat.lt_or_ge r.d r.n with hlt | hdear
      · have hworth : wheat * r.n ≤ limit * r.d := hcond.resolve_left (by omega)
        have hworth' := hworth.trans (Nat.mul_le_mul_right r.d hlimit)
        rw [value, value, min_eq_left hworth, min_eq_left hworth']
      · -- The value only shrinks, but not below the sheep of the offer.
        have hfavors := whole_favors_sheep (r := r) (v := r.value wheat sheep)
        rw [hwheat] at hfavors
        refine whole_eq_of_between hdear ?_ (le_min hfavors (Nat.mul_le_mul_right _ hcovers))
        exact min_le_min_left _ (Nat.mul_le_mul_right _ hlimit)
    rw [adjust_of_whole hsame (by omega) hfair, hwheat]

/-- Something of an adjusted offer is left under a limit on the sheep. Where the
limit cuts into the offer, the remaining wheat must be fairly paid again. -/
def Survives (r : Rate) (wheat limit : Nat) : Prop :=
  0 < wheat ∧ (r.n ≤ r.d ∨ wheat * r.n ≤ limit * r.d
    ∨ (0 < limit * r.d / r.n
      ∧ r.Fair ⟨limit * r.d / r.n, limit * r.d / r.n * r.n / r.d⟩))

instance (wheat limit : Nat) : Decidable (r.Survives wheat limit) :=
  inferInstanceAs (Decidable (_ ∧ _))

theorem adjust_pos_iff (hlimit : limit ≤ sheep)
    (hcovers : (r.whole (r.value wheat sheep)).sheep ≤ limit) :
    0 < r.adjust wheat limit ↔ r.Survives wheat limit := by
  rcases Nat.eq_zero_or_pos wheat with rfl | hpos
  · simp [adjust_zero, Survives]
  have hsame := adjust_tighter_iff h hlimit hcovers
  by_cases hcond : r.n ≤ r.d ∨ wheat * r.n ≤ limit * r.d
  · rw [hsame.mpr hcond]
    exact ⟨fun _ => ⟨hpos, or_assoc.mp (.inl hcond)⟩, fun _ => hpos⟩
  · rw [not_or, Nat.not_le, Nat.not_le] at hcond
    obtain ⟨hlt, hworth⟩ := hcond
    have hvalue : r.value wheat limit = limit * r.d := min_eq_right hworth.le
    have hwhole : r.whole (limit * r.d) = ⟨limit * r.d / r.n, limit * r.d / r.n * r.n / r.d⟩ :=
      if_pos hlt
    have hsheep := whole_sheep_pos_iff (r := r) (v := limit * r.d)
    rw [hwhole] at hsheep
    simp only [adjust, hvalue, hwhole, Survives, Nat.not_le.mpr hlt, Nat.not_le.mpr hworth, hpos,
      true_and, false_or]
    split
    · rename_i hall
      exact ⟨fun _ => ⟨hall.1, hall.2.2⟩, fun _ => hall.1⟩
    · rename_i hnot
      exact ⟨(Nat.lt_irrefl 0).elim,
        fun hfair => absurd ⟨hfair.1, hsheep.mpr hfair.1, hfair.2⟩ hnot⟩

end

/-- What is left after adjusting to a limit asks for no more sheep than that. -/
theorem whole_adjust_sheep_le (wheat limit bound : Nat) :
    (r.whole (r.value (r.adjust wheat limit) bound)).sheep ≤ limit := by
  have hsheep := whole_sheep_le (value_le_sheep (r := r) wheat limit)
  have hle : r.adjust wheat limit ≤ (r.whole (r.value wheat limit)).wheat := by
    simp only [adjust]
    split
    · exact Nat.le_refl _
    · exact Nat.zero_le _
  have hworth : r.value (r.adjust wheat limit) bound
      ≤ (r.whole (r.value wheat limit)).wheat * r.n :=
    (value_le_wheat _ _).trans (Nat.mul_le_mul_right _ hle)
  rcases Nat.lt_or_ge r.d r.n with hlt | hdear
  · -- The wheat is worth no more than the limit.
    refine whole_sheep_le (hworth.trans ?_)
    rw [whole, if_pos hlt]
    exact (Nat.div_mul_le_self _ _).trans (value_le_sheep _ _)
  · -- Rounding the wheat up adds less than one unit of sheep.
    have hlt : ¬r.d < r.n := Nat.not_lt.mpr hdear
    rw [whole, if_neg hlt] at hworth hsheep ⊢
    refine le_trans ?_ hsheep
    rw [← Nat.lt_succ_iff, Nat.div_lt_iff_lt_mul r.d_pos]
    refine hworth.trans_lt ?_
    have hceil := Nat.div_mul_le_self (r.value wheat limit / r.d * r.d + r.n - 1) r.n
    have hpos := r.n_pos
    simp only [Nat.ceilDiv_eq_add_pred_div, Nat.succ_mul]
    omega

end Rate

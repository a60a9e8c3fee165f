import KinesisCore.ScpStatement
import Mathlib.Data.Prod.Lex
import Mathlib.Order.WithBot

/-!
# The order on ballots and on statements

`compareBallots` is a linear order, by counter and then by value, and
`areBallotsLessAndCompatible` and its kin are statements about it. A missing ballot
is below all others. `isNewerStatement` compares statements of one type field by
field, so it is the strict part of a lexicographic order.
-/

namespace KinesisCore

namespace SCPBallot

open BallotProtocol

instance : LT SCPBallot := ⟨fun b1 b2 => compareBallots b1 b2 = .lt⟩

instance : LE SCPBallot := ⟨fun b1 b2 => (compareBallots b1 b2).isLE = true⟩

variable {b1 b2 : SCPBallot}

theorem lt_def : b1 < b2 ↔ compareBallots b1 b2 = .lt := Iff.rfl

theorem le_def : b1 ≤ b2 ↔ (compareBallots b1 b2).isLE = true := Iff.rfl

theorem lt_iff :
    b1 < b2 ↔ b1.counter.toNat < b2.counter.toNat
      ∨ b1.counter.toNat = b2.counter.toNat ∧ b1.value < b2.value := by
  rw [lt_def]
  unfold compareBallots
  simp only [UInt32.lt_iff_toNat_lt]
  split_ifs with h1 h2 h3
  · exact ⟨fun _ => .inl h1, fun _ => rfl⟩
  · exact ⟨nofun, by omega⟩
  · exact ⟨fun _ => .inr ⟨by omega, h3⟩, fun _ => rfl⟩
  · exact ⟨nofun, by rintro (h | ⟨-, h⟩) <;> contradiction⟩
  · exact ⟨nofun, by rintro (h | ⟨-, h⟩) <;> contradiction⟩

theorem compareBallots_swap (b1 b2 : SCPBallot) :
    compareBallots b1 b2 = (compareBallots b2 b1).swap := by
  have hasymm : b1.value < b2.value → ¬b2.value < b1.value := List.lt_asymm
  unfold compareBallots
  simp only [UInt32.lt_iff_toNat_lt]
  split_ifs <;> first | rfl | omega | exact absurd ‹_› (hasymm ‹_›)

theorem compareBallots_self (b : SCPBallot) : compareBallots b b = .eq := by
  have h := compareBallots_swap b b
  cases hb : compareBallots b b <;> rw [hb] at h <;> first | rfl | cases h

theorem lt_trans' {a b c : SCPBallot} (hab : a < b) (hbc : b < c) : a < c := by
  rw [lt_iff] at hab hbc ⊢
  rcases hab with hab | ⟨hab, hab'⟩ <;> rcases hbc with hbc | ⟨hbc, hbc'⟩
  · exact .inl (by omega)
  · exact .inl (by omega)
  · exact .inl (by omega)
  · exact .inr ⟨by omega, List.lt_trans hab' hbc'⟩

theorem le_iff_lt_or_eq' {a b : SCPBallot} : a ≤ b ↔ a < b ∨ a = b := by
  rw [le_def, lt_def]
  constructor
  · intro h
    cases hab : compareBallots a b with
    | lt => exact .inl rfl
    | eq => exact .inr (eq_of_compareBallots hab)
    | gt => rw [hab] at h; cases h
  · rintro (h | rfl)
    · rw [h]; rfl
    · rw [compareBallots_self]; rfl

instance : LinearOrder SCPBallot where
  le_refl a := le_iff_lt_or_eq'.mpr (.inr rfl)
  le_trans a b c hab hbc := by
    rw [le_iff_lt_or_eq'] at hab hbc ⊢
    rcases hab with hab | rfl
    · rcases hbc with hbc | rfl
      · exact .inl (lt_trans' hab hbc)
      · exact .inl hab
    · exact hbc
  le_antisymm a b hab hba := by
    rw [le_def] at hab hba
    rw [compareBallots_swap] at hba
    cases h : compareBallots a b with
    | lt => rw [h] at hba; cases hba
    | eq => exact eq_of_compareBallots h
    | gt => rw [h] at hab; cases hab
  le_total a b := by
    rw [le_def, le_def, compareBallots_swap b a]
    cases compareBallots a b <;> decide
  lt_iff_le_not_ge a b := by
    rw [lt_def, le_def, le_def, compareBallots_swap b a]
    cases compareBallots a b <;> decide
  toDecidableLE a b := inferInstanceAs (Decidable ((compareBallots a b).isLE = true))

end SCPBallot

namespace BallotProtocol

open SCPBallot

variable {a b : SCPBallot}

theorem compareBallots_eq_lt : compareBallots a b = .lt ↔ a < b := Iff.rfl

theorem compareBallots_eq_gt : compareBallots a b = .gt ↔ b < a := by
  rw [compareBallots_swap, lt_def]
  cases compareBallots b a <;> decide

theorem compareBallots_eq_eq : compareBallots a b = .eq ↔ a = b :=
  ⟨eq_of_compareBallots, fun h => h ▸ compareBallots_self a⟩

theorem isLE_compareBallots : (compareBallots a b).isLE = true ↔ a ≤ b := Iff.rfl

theorem isGE_compareBallots : (compareBallots a b).isGE = true ↔ b ≤ a := by
  rw [compareBallots_swap, le_def]
  cases compareBallots b a <;> decide

theorem compatible_iff : areBallotsCompatible a b = true ↔ a.value = b.value := decide_eq_true_iff

theorem lessAndCompatible_iff :
    areBallotsLessAndCompatible a b = true ↔ a ≤ b ∧ a.value = b.value := by
  rw [areBallotsLessAndCompatible, Bool.and_eq_true, compatible_iff, isLE_compareBallots]

theorem lessAndIncompatible_iff :
    areBallotsLessAndIncompatible a b = true ↔ a < b ∧ a.value ≠ b.value := by
  rw [areBallotsLessAndIncompatible, Bool.and_eq_true, Bool.not_eq_true', ← Bool.not_eq_true,
    compatible_iff]
  constructor
  · rintro ⟨hle, hne⟩
    exact ⟨lt_of_le_of_ne hle fun h => hne (h ▸ rfl), hne⟩
  · rintro ⟨hlt, hne⟩
    exact ⟨hlt.le, hne⟩

/-- Ballots of one value are ordered by their counters. -/
theorem counter_lt_of_lt (hlt : a < b) (hvalue : a.value = b.value) :
    a.counter.toNat < b.counter.toNat := by
  rcases SCPBallot.lt_iff.mp hlt with h | ⟨-, h⟩
  · exact h
  · rw [hvalue] at h
    exact absurd h (List.lt_irrefl _)

theorem counter_le_of_le (hle : a ≤ b) : a.counter.toNat ≤ b.counter.toNat := by
  rcases hle.lt_or_eq with h | rfl
  · rcases SCPBallot.lt_iff.mp h with h | ⟨h, -⟩ <;> omega
  · exact le_rfl

theorem le_of_counter_le (hle : a.counter.toNat ≤ b.counter.toNat) (hvalue : a.value = b.value) :
    a ≤ b := by
  rcases le_or_gt a b with h | h
  · exact h
  · have := counter_lt_of_lt h hvalue.symm
    omega

/-- The ballot that stands for none is below all others. -/
theorem zero_le_ballot (b : SCPBallot) : ({} : SCPBallot) ≤ b := by
  rcases le_or_gt {} b with h | h
  · exact h
  · rcases SCPBallot.lt_iff.mp h with h | ⟨-, h⟩
    · exact absurd h (Nat.not_lt_zero _)
    · exact absurd h (List.not_lt_nil _)

/-- A ballot that may be missing, in the order where it is then below all others. -/
def optional (x : Option SCPBallot) : WithBot SCPBallot := x

variable {x y : Option SCPBallot} {old new : SCPStatement}

theorem compareOptionalBallots_eq_lt :
    compareOptionalBallots x y = .lt ↔ optional x < optional y := by
  cases x with
  | none =>
    cases y with
    | none => exact ⟨nofun, (lt_irrefl (⊥ : WithBot SCPBallot)).elim⟩
    | some b => exact ⟨fun _ => WithBot.bot_lt_coe b, fun _ => rfl⟩
  | some a =>
    cases y with
    | none => exact ⟨nofun, (not_lt_bot (a := (a : WithBot SCPBallot))).elim⟩
    | some b => exact (WithBot.coe_lt_coe (a := a) (b := b)).symm

theorem compareOptionalBallots_eq_eq : compareOptionalBallots x y = .eq ↔ x = y := by
  cases x with
  | none => cases y <;> simp [compareOptionalBallots]
  | some a =>
    cases y with
    | none => simp [compareOptionalBallots]
    | some b =>
      rw [Option.some_inj]
      exact compareBallots_eq_eq

/-! ## Newer statements -/

/-- What PREPARE statements are compared by. -/
def prepareKey (p : PreparePledges) : SCPBallot ×ₗ WithBot SCPBallot ×ₗ WithBot SCPBallot ×ₗ Nat :=
  toLex (p.ballot, toLex (optional p.prepared, toLex (optional p.preparedPrime, p.nH.toNat)))

/-- What CONFIRM statements are compared by. -/
def confirmKey (c : ConfirmPledges) : SCPBallot ×ₗ Nat ×ₗ Nat :=
  toLex (c.ballot, toLex (c.nPrepared.toNat, c.nH.toNat))

theorem isNewerPrepare_iff {old new : PreparePledges} :
    isNewerPrepare old new = true ↔ prepareKey old < prepareKey new := by
  have hnH : (decide (old.nH < new.nH) = true) ↔ old.nH.toNat < new.nH.toNat := by
    rw [decide_eq_true_iff, UInt32.lt_iff_toNat_lt]
  have hopt : ∀ x y : Option SCPBallot, optional x = optional y ↔ x = y := fun _ _ => Iff.rfl
  simp only [prepareKey, Prod.Lex.toLex_lt_toLex, hopt]
  rw [← compareBallots_eq_lt, ← compareBallots_eq_eq, ← compareOptionalBallots_eq_lt,
    ← compareOptionalBallots_eq_lt, ← compareOptionalBallots_eq_eq,
    ← compareOptionalBallots_eq_eq, ← hnH]
  unfold isNewerPrepare
  cases compareBallots old.ballot new.ballot <;>
    cases compareOptionalBallots old.prepared new.prepared <;>
    cases compareOptionalBallots old.preparedPrime new.preparedPrime <;> simp

theorem isNewerConfirm_iff {old new : ConfirmPledges} :
    isNewerConfirm old new = true ↔ confirmKey old < confirmKey new := by
  simp only [confirmKey, Prod.Lex.toLex_lt_toLex]
  rw [← compareBallots_eq_lt, ← compareBallots_eq_eq, UInt32.toNat_inj,
    ← UInt32.lt_iff_toNat_lt, ← UInt32.lt_iff_toNat_lt]
  unfold isNewerConfirm
  cases compareBallots old.ballot new.ballot with
  | lt => simp
  | gt => simp
  | eq =>
    by_cases hp : old.nPrepared = new.nPrepared
    · simp [hp]
    · simp [hp]

/-- Statements of different types are ordered by their type. -/
theorem isNewerStatement_of_type (h : old.pledges.type ≠ new.pledges.type) :
    isNewerStatement old new = true ↔ old.pledges.type < new.pledges.type := by
  unfold isNewerStatement
  cases ho : old.pledges <;> cases hn : new.pledges <;>
    simp_all [Pledges.type]

theorem type_le_of_isNewerStatement
    (h : isNewerStatement old new = true) : old.pledges.type ≤ new.pledges.type := by
  by_cases heq : old.pledges.type = new.pledges.type
  · exact heq.le
  · exact ((isNewerStatement_of_type heq).mp h).le

theorem isNewerStatement_irrefl (st : SCPStatement) : isNewerStatement st st = false := by
  rw [Bool.eq_false_iff]
  unfold isNewerStatement
  cases st.pledges with
  | prepare p => exact fun h => lt_irrefl _ (isNewerPrepare_iff.mp h)
  | confirm c => exact fun h => lt_irrefl _ (isNewerConfirm_iff.mp h)
  | externalize e => exact Bool.false_ne_true

theorem isNewerStatement_trans {a b c : SCPStatement} (hab : isNewerStatement a b = true)
    (hbc : isNewerStatement b c = true) : isNewerStatement a c = true := by
  have hle := type_le_of_isNewerStatement hab
  have hle' := type_le_of_isNewerStatement hbc
  by_cases hac : a.pledges.type = c.pledges.type
  · -- all three are of one type
    unfold isNewerStatement at *
    cases ha : a.pledges <;> cases hb : b.pledges <;> cases hc : c.pledges <;>
      simp only [ha, hb, hc, Pledges.type] at hab hbc hac hle hle' ⊢ <;> try omega
    · exact isNewerPrepare_iff.mpr ((isNewerPrepare_iff.mp hab).trans (isNewerPrepare_iff.mp hbc))
    · exact isNewerConfirm_iff.mpr ((isNewerConfirm_iff.mp hab).trans (isNewerConfirm_iff.mp hbc))
  · rw [isNewerStatement_of_type hac]
    omega

end BallotProtocol

end KinesisCore

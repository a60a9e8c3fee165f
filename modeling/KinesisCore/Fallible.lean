import Mathlib.Tactic.Common

/-!
# Computations that throw

A computation that may throw is a value of `Except ε`. These lemmas take a
successful `do` block apart: each step succeeded, and its value went into
the rest. `exists_ok_bind` and `exists_ok_ite` put one together.
-/

namespace Except

variable {ε α β : Type} {x : Except ε α} {f : α → Except ε β} {b : β} {a : α} {e : ε}

@[simp] theorem pure_eq (a : α) : (pure a : Except ε α) = .ok a := rfl

@[simp] theorem ok_bind (a : α) (f : α → Except ε β) : (.ok a >>= f) = f a := rfl

@[simp] theorem error_bind (e : ε) (f : α → Except ε β) : (.error e >>= f) = .error e := rfl

@[simp] theorem bind_ok (x : Except ε α) : (x >>= .ok) = x := by cases x <;> rfl

@[simp] theorem bind_eq_ok : (x >>= f) = .ok b ↔ ∃ a, x = .ok a ∧ f a = .ok b := by
  cases x with
  | error e | ok a => simp [bind, Except.bind]

@[simp] theorem map_eq_ok {f : α → β} : x.map f = .ok b ↔ ∃ a, x = .ok a ∧ f a = b := by
  cases x with
  | error e | ok a => simp [Except.map]

@[simp] theorem pure_eq_ok {b : α} : (pure a : Except ε α) = .ok b ↔ a = b := by
  simp [pure, Except.pure]

@[simp] theorem throw_ne_ok {b : α} : (throw e : Except ε α) = .ok b ↔ False := by
  simp [throw, throwThe, MonadExceptOf.throw]

/-- A step that succeeds leaves the rest to succeed. -/
theorem exists_ok_bind (hx : x = .ok a) (hf : ∃ b, f a = .ok b) : ∃ b, (x >>= f) = .ok b := by
  subst hx
  exact hf

theorem exists_ok_ite {c : Prop} [Decidable c] {y : Except ε α} (hx : c → ∃ a, x = .ok a)
    (hy : ¬c → ∃ a, y = .ok a) : ∃ a, (if c then x else y) = .ok a := by
  split
  · exact hx ‹_›
  · exact hy ‹_›

theorem exists_ok_unless {c : Prop} [Decidable c] (hx : ¬c → ∃ a, x = .ok a) :
    ∃ a', (if c then .ok a else x) = .ok a' :=
  exists_ok_ite (fun _ => ⟨_, rfl⟩) hx

/-- An assertion that throws when it fails. -/
def releaseAssert (cond : Bool) (e : ε) : Except ε Unit :=
  if cond then .ok () else .error e

theorem releaseAssert_ok {cond : Bool} {u : Unit} (h : releaseAssert cond e = .ok u) :
    cond = true := by
  unfold releaseAssert at h
  split_ifs at h with hcond
  exact hcond

/-- What was thrown, if anything. -/
def thrown : Except ε α → Option ε
  | .error e => some e
  | .ok _ => none

theorem thrown_eq_some : x.thrown = some e ↔ x = .error e := by
  cases x <;> simp [thrown]

/-! ## Two computations side by side -/

/-- Both fail with the same error, or both succeed with related values. -/
inductive Rel {α β : Type} (R : α → β → Prop) : Except ε α → Except ε β → Prop where
  | error (e : ε) : Rel R (.error e) (.error e)
  | ok {a : α} {b : β} : R a b → Rel R (.ok a) (.ok b)

variable {R : α → β → Prop}

theorem Rel.of_ok (h : Rel R x (.ok b)) : ∃ a, x = .ok a ∧ R a b := by
  cases h with
  | ok h => exact ⟨_, rfl, h⟩

theorem Rel.bind {α' β' : Type} {S : α' → β' → Prop} {y : Except ε β} {f : α → Except ε α'}
    {g : β → Except ε β'} (hxy : Rel R x y) (hfg : ∀ a b, R a b → Rel S (f a) (g b)) :
    Rel S (x >>= f) (y >>= g) := by
  cases hxy with
  | error e => exact .error e
  | ok h => exact hfg _ _ h

/-- Related steps make related runs. -/
theorem Rel.foldlM {γ : Type} {f : α → γ → Except ε α} {g : β → γ → Except ε β}
    (hstep : ∀ a b c, R a b → Rel R (f a c) (g b c)) (l : List γ) :
    ∀ {a : α} {b : β}, R a b → Rel R (l.foldlM f a) (l.foldlM g b) := by
  induction l with
  | nil => exact .ok
  | cons c l ih =>
    intro a b h
    exact (hstep a b c h).bind fun _ _ => ih

end Except

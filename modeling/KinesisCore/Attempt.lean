import Mathlib.Tactic.Common

/-!
# Operations that fail with a code

An operation returns a value, fails with a result code, or throws. `Returns` takes a
successful operation apart step by step. `Meets` is total correctness: the operation does not
throw, and what it returns or fails with is as said.
-/

/-- A computation that throws, fails with a code, or returns. -/
abbrev Attempt (C α : Type) := ExceptT C (Except String) α

namespace Attempt

variable {C α β : Type}

def refuseIf (c : Prop) [Decidable c] (code : C) : Attempt C Unit :=
  if c then throw code else pure ()

def throwIf (c : Prop) [Decidable c] (text : String) : Attempt C Unit :=
  if c then (throw text : Except String Unit) else pure ()

/-- The value, or an exception where there is none. -/
def orThrow (o : Option α) (text : String) : Attempt C α :=
  match o with
  | some a => pure a
  | none => (throw text : Except String α)

def orRefuse (o : Option α) (code : C) : Attempt C α :=
  match o with
  | some a => pure a
  | none => throw code

/-! ## Success -/

def Returns (x : Attempt C α) (a : α) : Prop := x.run = .ok (.ok a)

section

variable {x : Attempt C α} {f : α → Attempt C β} {a a' : α} {b : β} {c : Prop} [Decidable c]
  {o : Option α} {code : C} {text : String}

theorem returns_bind : (x >>= f).Returns b ↔ ∃ a, x.Returns a ∧ (f a).Returns b := by
  unfold Returns
  rw [ExceptT.run_bind]
  rcases x.run with e | (c | a) <;> simp [bind, Except.bind, pure, Except.pure]

theorem returns_lift {y : Except String α} :
    (liftM y : Attempt C α).Returns a ↔ y = .ok a := by
  cases y <;> simp [Returns, liftM, monadLift, MonadLift.monadLift, ExceptT.lift, ExceptT.mk,
    ExceptT.run, Functor.map, Except.map]

theorem returns_pure : (pure a : Attempt C α).Returns a' ↔ a = a' := by
  simp [Returns, pure, ExceptT.pure, Except.pure, ExceptT.mk, ExceptT.run]

theorem returns_throwIf {u : Unit} : (throwIf c text : Attempt C Unit).Returns u ↔ ¬c := by
  by_cases h : c <;>
    simp [throwIf, h, returns_lift, returns_pure, throw, throwThe, MonadExceptOf.throw]

theorem returns_orThrow : (orThrow o text : Attempt C α).Returns a ↔ o = some a := by
  cases o <;> simp [orThrow, returns_lift, returns_pure, throw, throwThe, MonadExceptOf.throw]

theorem returns_orRefuse : (orRefuse o code).Returns a ↔ o = some a := by
  cases o <;>
    simp [Returns, orRefuse, throw, throwThe, MonadExceptOf.throw, ExceptT.mk, ExceptT.run, pure,
      ExceptT.pure, Except.pure]

end

/-! ## Total correctness -/

/-- The operation does not throw, and its outcome is as said. -/
def Meets (x : Attempt C α) (Q : Except C α → Prop) : Prop := ∃ r, x.run = .ok r ∧ Q r

section

variable {f : α → Attempt C β} {Q : Except C β → Prop} {a : α} {y : Except String α}

theorem meets_lift_bind (hy : y = .ok a) (h : (f a).Meets Q) :
    ((liftM y : Attempt C α) >>= f).Meets Q := by
  subst hy
  exact h

theorem meets_lift {Q : Except C α → Prop} (hy : y = .ok a)
    (h : Q (.ok a)) : (liftM y : Attempt C α).Meets Q := by
  subst hy
  exact ⟨_, rfl, h⟩

theorem meets_refuseIf_bind {c : Prop} [Decidable c] {code : C} {f : Unit → Attempt C β}
    (hfail : c → Q (.error code)) (h : ¬c → (f ()).Meets Q) : (refuseIf c code >>= f).Meets Q := by
  unfold refuseIf
  split
  · rename_i hc
    exact ⟨_, rfl, hfail hc⟩
  · rename_i hc
    exact h hc

/-- The value if there is one, whatever the code if not. -/
theorem Meets.toOption {x : Attempt C β} (h : x.Meets Q) :
    ∃ r, (return (← x.run).toOption : Except String (Option β)) = .ok r
      ∧ ∀ b, r = some b → Q (.ok b) := by
  obtain ⟨r, hr, hQ⟩ := h
  rw [hr]
  refine ⟨r.toOption, rfl, fun b hb => ?_⟩
  cases r with
  | error code => cases hb
  | ok a => cases hb; exact hQ

end

end Attempt

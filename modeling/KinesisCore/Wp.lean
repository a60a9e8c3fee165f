import Mathlib.Tactic.Common

/-!
# Stateful computations that may fail

A computation that fails leaves the state as it was when it failed. `Wp E m s Q` is
the weakest precondition of `m` for `Q`, where a failure has to meet `E`.
-/

namespace EStateM

variable {ε σ α β : Type} {I : σ → Prop}

/-- The state a run leaves, however it ends. -/
def stateAfter (m : EStateM ε σ α) (s : σ) : σ :=
  match m s with
  | .ok _ s' => s'
  | .error _ s' => s'

variable {m : EStateM ε σ α}

/-- Run from `s`, `m` returns with `Q`, or it fails with `E`. -/
def Wp (E : ε → σ → Prop) (m : EStateM ε σ α) (s : σ) (Q : α → σ → Prop) : Prop :=
  match m s with
  | .ok a s' => Q a s'
  | .error e s' => E e s'

section

variable {E : ε → σ → Prop} {s : σ} {Q Q' : α → σ → Prop} {a : α} {s' : σ}

@[simp] theorem wp_pure : Wp E (pure a : EStateM ε σ α) s Q ↔ Q a s := Iff.rfl

@[simp] theorem wp_get {Q : σ → σ → Prop} : Wp E (get : EStateM ε σ σ) s Q ↔ Q s s := Iff.rfl

@[simp] theorem wp_set {Q : PUnit → σ → Prop} :
    Wp E (set s' : EStateM ε σ PUnit) s Q ↔ Q ⟨⟩ s' := Iff.rfl

@[simp] theorem wp_modify {f : σ → σ} {Q : PUnit → σ → Prop} :
    Wp E (modify f : EStateM ε σ PUnit) s Q ↔ Q ⟨⟩ (f s) := Iff.rfl

@[simp] theorem wp_bind {m : EStateM ε σ β} {f : β → EStateM ε σ α} :
    Wp E (m >>= f) s Q ↔ Wp E m s fun b s' => Wp E (f b) s' Q := by
  show Wp E (EStateM.bind m f) s Q ↔ _
  unfold Wp EStateM.bind
  cases m s <;> rfl

variable (h : Wp E m s Q)
include h

theorem Wp.mono (hQ : ∀ a s', Q a s' → Q' a s') : Wp E m s Q' := by
  unfold Wp at h ⊢
  split at h
  · exact hQ _ _ h
  · exact h

theorem Wp.of_ok (hm : m s = .ok a s') : Q a s' := by
  unfold Wp at h
  rwa [hm] at h

theorem Wp.stateAfter {I : σ → Prop} (hE : ∀ e s', E e s' → I s')
    (hQ : ∀ a s', Q a s' → I s') : I (stateAfter m s) := by
  unfold Wp at h
  unfold EStateM.stateAfter
  cases hm : m s with
  | ok a s' =>
    rw [hm] at h
    exact hQ a s' h
  | error e s' =>
    rw [hm] at h
    exact hE e s' h

end

/-- A loop keeps what each of its rounds keeps. -/
theorem Wp.foldlM {E : ε → σ → Prop} {I : β → σ → Prop} {f : β → α → EStateM ε σ β} {l : List α}
    (hstep : ∀ a ∈ l, ∀ b s, I b s → Wp E (f b a) s I) :
    ∀ {b s}, I b s → Wp E (l.foldlM f b) s I := by
  induction l with
  | nil => exact wp_pure.mpr
  | cons a l ih =>
    intro b s h
    rw [List.foldlM_cons, wp_bind]
    refine (hstep a List.mem_cons_self b s h).mono fun b' s' h' => ?_
    exact ih (fun a' ha' => hstep a' (List.mem_cons_of_mem _ ha')) h'

end EStateM

import Mathlib.Data.List.AList
import KinesisCore.Fallible

/-!
# Loops over a keyed list

A loop that visits every key of a map once, where the step for a key reads and
writes at that key alone, can be read off key by key. `get` says what the loop's
state holds at a key.
-/

namespace AList

variable {κ ν : Type} [DecidableEq κ] {m : AList fun _ : κ => ν} {key : κ} {v : ν}

theorem lookup_insert_ite (k : κ) :
    (m.insert key v).lookup k = if k = key then some v else m.lookup k := by
  split_ifs with hk
  · rw [hk, lookup_insert]
  · exact lookup_insert_ne hk

theorem lookup_erase_ite (k : κ) :
    (m.erase key).lookup k = if k = key then none else m.lookup k := by
  split_ifs with hk
  · rw [hk, lookup_erase]
  · exact lookup_erase_ne hk

theorem lookup_self_ite (k : κ) : m.lookup k = if k = key then m.lookup key else m.lookup k := by
  split_ifs with hk
  · rw [hk]
  · rfl

theorem forall_lookup_insert {P : κ → ν → Prop} (hnew : P key v)
    (hold : ∀ k w, m.lookup k = some w → P k w) :
    ∀ k w, (m.insert key v).lookup k = some w → P k w := by
  intro k w hw
  rw [lookup_insert_ite] at hw
  split_ifs at hw with hk
  · rwa [hk, ← Option.some.inj hw]
  · exact hold k w hw

end AList

namespace List

variable {κ ν ρ σ ε : Type} [DecidableEq κ]

/-- If every step does `next` at its own key and nothing elsewhere, so does the
loop. `P` is what a step needs of what it finds. -/
theorem foldlM_keyed (get : σ → κ → ρ) (f : σ → κ → ν → Except ε σ) (next : κ → ν → ρ → ρ)
    (P : κ → ν → ρ → Prop)
    (hstep : ∀ s k v, P k v (get s k) → ∃ s', f s k v = .ok s' ∧
      ∀ k', get s' k' = if k' = k then next k v (get s k) else get s k') :
    ∀ (l : List (Sigma fun _ : κ => ν)) (s : σ), l.NodupKeys →
      (∀ e ∈ l, P e.1 e.2 (get s e.1)) →
      ∃ s', l.foldlM (fun s e => f s e.1 e.2) s = .ok s' ∧
        ∀ k, get s' k = (l.dlookup k).elim (get s k) fun v => next k v (get s k) := by
  intro l
  induction l with
  | nil => exact fun s _ _ => ⟨s, rfl, fun k => rfl⟩
  | cons e l ih =>
    obtain ⟨k, v⟩ := e
    intro s hnodup hP
    obtain ⟨hk, hl⟩ := nodupKeys_cons.mp hnodup
    obtain ⟨s₁, hs₁, hget⟩ := hstep s k v (hP ⟨k, v⟩ mem_cons_self)
    -- the keys still to come are not the one just visited
    have hother : ∀ e ∈ l, e.1 ≠ k := fun e he heq => by
      have hmem : e.1 ∈ l.keys := mem_keys_of_mem he
      rw [heq] at hmem
      exact hk hmem
    obtain ⟨s', hs', hget'⟩ := ih s₁ hl fun e he => by
      rw [hget, if_neg (hother e he)]
      exact hP e (mem_cons_of_mem _ he)
    refine ⟨s', Except.bind_eq_ok.mpr ⟨s₁, hs₁, hs'⟩, fun k' => ?_⟩
    rw [hget', hget]
    by_cases hk' : k' = k
    · subst hk'
      rw [if_pos rfl, dlookup_cons_eq, dlookup_eq_none.mpr hk]
      rfl
    · rw [if_neg hk', dlookup_cons_ne _ _ hk']

variable {α : Type} {I : σ → Prop} {f : σ → α → Except ε σ} {l : List α}

/-- A loop whose steps succeed and keep `I` succeeds and keeps `I`. -/
theorem foldlM_succeeds (hstep : ∀ s, I s → ∀ a ∈ l, ∃ s', f s a = .ok s' ∧ I s') :
    ∀ {s : σ}, I s → ∃ s', l.foldlM f s = .ok s' ∧ I s' := by
  induction l with
  | nil => exact fun {s} hs => ⟨s, rfl, hs⟩
  | cons a l ih =>
    intro s hs
    obtain ⟨s₁, hs₁, hI⟩ := hstep s hs a mem_cons_self
    obtain ⟨s', hs', hI'⟩ := ih (fun s hs b hb => hstep s hs b (mem_cons_of_mem _ hb)) hI
    exact ⟨s', Except.bind_eq_ok.mpr ⟨s₁, hs₁, hs'⟩, hI'⟩

/-- What every step keeps, the loop keeps. -/
theorem foldlM_keeps (hstep : ∀ s, I s → ∀ a ∈ l, ∀ s', f s a = .ok s' → I s') :
    ∀ {s s' : σ}, I s → l.foldlM f s = .ok s' → I s' := by
  induction l with
  | nil =>
    intro s s' hs h
    rwa [← Except.pure_eq_ok.mp h]
  | cons a l ih =>
    intro s s' hs h
    obtain ⟨s₁, hs₁, h⟩ := Except.bind_eq_ok.mp h
    exact ih (fun s hs b hb => hstep s hs b (mem_cons_of_mem _ hb))
      (hstep s hs a mem_cons_self s₁ hs₁) h

end List

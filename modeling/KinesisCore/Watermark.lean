import Mathlib.Order.Basic

/-!
# Watermarks

A log of events, each of which uses up a number under a key, against a mark for
every key. `Consumes f log g` says that the log takes the marks from `f` to `g`
without using a number twice: every number lies above the mark before and not
above the mark after, and numbers under one key ascend. Such logs compose.
-/

namespace Watermark

open List

variable {K Ev N : Type} [Preorder N] {key : Ev → K} {num : Ev → N}

structure Consumes (key : Ev → K) (num : Ev → N) (f : K → N) (log : List Ev) (g : K → N) :
    Prop where
  rises : ∀ k, f k ≤ g k
  above : ∀ e ∈ log, f (key e) < num e
  below : ∀ e ∈ log, num e ≤ g (key e)
  ascending : log.Pairwise fun a b => key a = key b → num a < num b

namespace Consumes

variable {f g h : K → N} {log log' : List Ev}

/-- Marks that only rise use nothing up. -/
theorem of_le (hle : ∀ k, f k ≤ g k) : Consumes key num f [] g := ⟨hle, nofun, nofun, .nil⟩

theorem single {e : Ev} (hle : ∀ k, f k ≤ g k) (habove : f (key e) < num e)
    (hbelow : num e ≤ g (key e)) : Consumes key num f [e] g := by
  refine ⟨hle, ?_, ?_, pairwise_singleton _ _⟩
  · simpa using habove
  · simpa using hbelow

variable (h₁ : Consumes key num f log g)
include h₁

/-- What comes later uses numbers above the mark in between. -/
theorem trans (h₂ : Consumes key num g log' h) : Consumes key num f (log ++ log') h := by
  refine ⟨fun k => (h₁.rises k).trans (h₂.rises k), fun e he => ?_, fun e he => ?_, ?_⟩
  · rcases mem_append.mp he with he | he
    · exact h₁.above e he
    · exact (h₁.rises _).trans_lt (h₂.above e he)
  · rcases mem_append.mp he with he | he
    · exact (h₁.below e he).trans (h₂.rises _)
    · exact h₂.below e he
  · refine pairwise_append.mpr ⟨h₁.ascending, h₂.ascending, fun a ha b hb hkey => ?_⟩
    calc num a ≤ g (key a) := h₁.below a ha
      _ = g (key b) := by rw [hkey]
      _ < num b := h₂.above b hb

/-- The numbers used up under one key, in order. -/
theorem filter_ascending [DecidableEq K] (k : K) :
    ((log.filter (key · = k)).map num).Pairwise (· < ·) := by
  rw [pairwise_map, pairwise_filter]
  refine h₁.ascending.imp fun {a b} hab ha hb => hab ?_
  simp only [decide_eq_true_eq] at ha hb
  rw [ha, hb]

theorem nodup : (log.map fun e => (key e, num e)).Nodup := by
  rw [nodup_iff_pairwise_ne, pairwise_map]
  refine h₁.ascending.imp fun {a b} hab heq => ?_
  obtain ⟨hkey, hnum⟩ := Prod.mk.inj heq
  exact (hab hkey).ne hnum

end Consumes

end Watermark

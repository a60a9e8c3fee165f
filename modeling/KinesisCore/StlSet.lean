import Mathlib.Data.List.Perm.Subperm

/-!
# Ordered sets

`std::set` as the list of its elements in ascending order, and `std::includes` on
ascending ranges.
-/

namespace Stl

open List

variable {α : Type} [LT α]

structure OrderedSet (α : Type) [LT α] where
  elems : List α
  sorted : elems.Pairwise (· < ·)

theorem eq_of_not_lt [Std.Trichotomous (α := α) (· < ·)] {a b : α} (hab : ¬a < b) (hba : ¬b < a) :
    a = b :=
  Std.Trichotomous.trichotomous a b hab hba

theorem nodup_of_sorted [Std.Irrefl (α := α) (· < ·)] {l : List α} (h : l.Pairwise (· < ·)) :
    l.Nodup := by
  refine List.Pairwise.imp (fun {a b} hab => ?_) h
  rintro rfl
  exact Std.Irrefl.irrefl a hab

theorem length_le_of_subset [Std.Irrefl (α := α) (· < ·)] {p v : List α}
    (hp : p.Pairwise (· < ·)) (h : p ⊆ v) : p.length ≤ v.length :=
  ((nodup_of_sorted hp).subperm h).length_le

theorem length_eq_iff [Std.Irrefl (α := α) (· < ·)] {p v : List α} (hp : p.Pairwise (· < ·))
    (hv : v.Pairwise (· < ·)) (h : p ⊆ v) : p.length = v.length ↔ v ⊆ p := by
  constructor
  · intro hlen
    exact (((nodup_of_sorted hp).subperm h).perm_of_length_le (Nat.le_of_eq hlen.symm)).symm.subset
  · exact fun hsub => Nat.le_antisymm (length_le_of_subset hp h) (length_le_of_subset hv hsub)

section

variable [DecidableLT α]

/-- Whether the ascending `p` is in the ascending `v`, in one pass over both. -/
def includes : List α → List α → Bool
  | _, [] => true
  | [], _ :: _ => false
  | a :: v, b :: p => if b < a then false else if a < b then includes v (b :: p) else includes v p

theorem includes_iff [Std.Irrefl (α := α) (· < ·)] [Trans (α := α) (· < ·) (· < ·) (· < ·)]
    [Std.Trichotomous (α := α) (· < ·)] {v p : List α} (hv : v.Pairwise (· < ·))
    (hp : p.Pairwise (· < ·)) :
    includes v p = true ↔ p ⊆ v := by
  induction v generalizing p with
  | nil => cases p <;> simp [includes]
  | cons a v ih =>
    obtain ⟨ha, hv⟩ := pairwise_cons.mp hv
    cases p with
    | nil => simp [includes]
    | cons b p =>
      obtain ⟨hb, hp'⟩ := pairwise_cons.mp hp
      unfold includes
      split
      · rename_i hba
        -- everything in `a :: v` is after `b`
        simp only [Bool.false_eq_true, false_iff]
        intro hsub
        rcases mem_cons.mp (hsub mem_cons_self) with rfl | hmem
        · exact Std.Irrefl.irrefl b hba
        · exact Std.Irrefl.irrefl b (Trans.trans hba (ha b hmem))
      · rename_i hba
        split
        · rename_i hab
          rw [ih hv hp]
          refine ⟨subset_cons_of_subset a, fun h x hx => ?_⟩
          rcases mem_cons.mp (h hx) with rfl | hmem
          · rcases mem_cons.mp hx with rfl | hx
            · exact absurd hab (Std.Irrefl.irrefl x)
            · exact absurd (Trans.trans hab (hb x hx)) (Std.Irrefl.irrefl x)
          · exact hmem
        · rename_i hab
          obtain rfl := eq_of_not_lt hab hba
          rw [ih hv hp']
          refine ⟨cons_subset_cons a, fun h x hx => ?_⟩
          rcases mem_cons.mp (h (mem_cons_of_mem _ hx)) with rfl | hmem
          · exact absurd (hb x hx) (Std.Irrefl.irrefl x)
          · exact hmem

end

namespace OrderedSet

instance : Membership α (OrderedSet α) := ⟨fun s a => a ∈ s.elems⟩

instance [DecidableEq α] (a : α) (s : OrderedSet α) : Decidable (a ∈ s) :=
  inferInstanceAs (Decidable (a ∈ s.elems))

instance : EmptyCollection (OrderedSet α) := ⟨⟨[], .nil⟩⟩

variable [DecidableLT α]

/-- The place of a new element is before the first one that is greater. -/
def insertSorted (a : α) : List α → List α
  | [] => [a]
  | b :: l => if a < b then a :: b :: l else if b < a then b :: insertSorted a l else b :: l

theorem mem_insertSorted [Std.Trichotomous (α := α) (· < ·)] {a x : α} {l : List α} :
    x ∈ insertSorted a l ↔ x = a ∨ x ∈ l := by
  induction l with
  | nil => simp [insertSorted]
  | cons b l ih =>
    unfold insertSorted
    split
    · simp
    · rename_i hab
      split
      · rw [mem_cons, ih, mem_cons]
        tauto
      · rename_i hba
        obtain rfl := eq_of_not_lt hab hba
        simp

section

variable [Trans (α := α) (· < ·) (· < ·) (· < ·)] [Std.Trichotomous (α := α) (· < ·)]

theorem sorted_insertSorted {a : α} {l : List α} (h : l.Pairwise (· < ·)) :
    (insertSorted a l).Pairwise (· < ·) := by
  induction l with
  | nil => exact pairwise_singleton _ _
  | cons b l ih =>
    obtain ⟨hb, hl⟩ := pairwise_cons.mp h
    unfold insertSorted
    split
    · rename_i hab
      refine pairwise_cons.mpr ⟨fun x hx => ?_, h⟩
      rcases mem_cons.mp hx with rfl | hx
      · exact hab
      · exact Trans.trans hab (hb x hx)
    · split
      · rename_i hba
        refine pairwise_cons.mpr ⟨fun x hx => ?_, ih hl⟩
        rcases mem_insertSorted.mp hx with rfl | hx
        · exact hba
        · exact hb x hx
      · exact h

/-- An element that is there already is left. -/
def emplace (s : OrderedSet α) (a : α) : OrderedSet α :=
  ⟨insertSorted a s.elems, sorted_insertSorted s.sorted⟩

@[simp] theorem mem_emplace {a x : α} {s : OrderedSet α} : x ∈ s.emplace a ↔ x = a ∨ x ∈ s :=
  mem_insertSorted

end

end OrderedSet

end Stl

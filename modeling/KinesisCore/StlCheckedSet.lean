import Mathlib.Data.List.Sort
import Mathlib.Order.Basic
import KinesisCore.Fallible

/-!
# Ordered sets whose comparison may throw

`std::set` with a comparator that throws on some elements, as the list of its
elements in the comparator's order. On the elements where the comparator does
not throw it compares keys (`Compares`); a set of such elements behaves like any
ordered set.
-/

namespace Stl.CheckedSet

open List

variable {α κ ε : Type}

/-- `emplace`, searching from the front: an equivalent element is left as it is. -/
def emplace (lt : α → α → Except ε Bool) (a : α) : List α → Except ε (List α)
  | [] => return [a]
  | b :: l => do
    if ← lt b a then return b :: (← emplace lt a l)
    else if ← lt a b then return a :: b :: l
    else return b :: l

/-- `erase` by key: the set without the equivalent element, or `none` if there is
none. -/
def erase (lt : α → α → Except ε Bool) (a : α) : List α → Except ε (Option (List α))
  | [] => return none
  | b :: l => do
    if ← lt b a then return (← erase lt a l).map (b :: ·)
    else if ← lt a b then return none
    else return some l

variable [LinearOrder κ]

/-- The comparator compares keys, on the elements that satisfy `p`. -/
def Compares (lt : α → α → Except ε Bool) (key : α → κ) (p : α → Prop) : Prop :=
  ∀ a b, p a → p b → lt a b = .ok (decide (key a < key b))

/-- The elements stand in the order of their keys. -/
def Sorted (key : α → κ) (l : List α) : Prop := l.Pairwise fun a b => key a < key b

variable {lt : α → α → Except ε Bool} {key : α → κ} {p : α → Prop} {a : α} {l : List α}

theorem Sorted.nodup (h : Sorted key l) : l.Nodup :=
  h.imp fun hlt heq => absurd (congrArg key heq) (ne_of_lt hlt)

/-- A new element goes to its place. -/
theorem emplace_new (hlt : Compares lt key p) (hp : ∀ b ∈ l, p b) (ha : p a)
    (hsorted : Sorted key l) (hnew : ∀ b ∈ l, key b ≠ key a) :
    ∃ l', emplace lt a l = .ok l' ∧ Sorted key l' ∧ l'.Perm (a :: l) := by
  induction l with
  | nil => exact ⟨[a], rfl, pairwise_singleton _ _, List.Perm.refl _⟩
  | cons b l ih =>
    obtain ⟨hb, hp⟩ := forall_mem_cons.mp hp
    obtain ⟨hbne, hnew⟩ := forall_mem_cons.mp hnew
    obtain ⟨hhead, htail⟩ := pairwise_cons.mp hsorted
    rcases lt_or_gt_of_ne hbne with hba | hab
    · obtain ⟨l', hl', hsorted', hperm⟩ := ih hp htail hnew
      refine ⟨b :: l', ?_, ?_, ?_⟩
      · simp [emplace, hlt b a hb ha, hba, hl']
      · refine pairwise_cons.mpr ⟨fun c hc => ?_, hsorted'⟩
        rcases mem_cons.mp (hperm.mem_iff.mp hc) with rfl | hc
        · exact hba
        · exact hhead c hc
      · exact (hperm.cons b).trans (List.Perm.swap a b l)
    · refine ⟨a :: b :: l, ?_, ?_, List.Perm.refl _⟩
      · simp [emplace, hlt b a hb ha, hlt a b ha hb, hab, not_lt_of_gt hab]
      · refine pairwise_cons.mpr ⟨fun c hc => ?_, hsorted⟩
        rcases mem_cons.mp hc with rfl | hc
        · exact hab
        · exact hab.trans (hhead c hc)

/-- An element of the set is found and taken out. -/
theorem erase_mem (hlt : Compares lt key p) (hp : ∀ b ∈ l, p b) (hsorted : Sorted key l)
    (ha : a ∈ l) :
    ∃ l', erase lt a l = .ok (some l') ∧ l'.Sublist l ∧ l.Perm (a :: l') := by
  induction l with
  | nil => cases ha
  | cons b l ih =>
    obtain ⟨hb, hp⟩ := forall_mem_cons.mp hp
    obtain ⟨hhead, htail⟩ := pairwise_cons.mp hsorted
    rcases mem_cons.mp ha with rfl | ha
    · refine ⟨l, ?_, sublist_cons_self a l, List.Perm.refl _⟩
      simp [erase, hlt a a hb hb]
    · obtain ⟨l', hl', hsub, hperm⟩ := ih hp htail ha
      refine ⟨b :: l', ?_, hsub.cons_cons b, ?_⟩
      · simp [erase, hlt b a hb (hp a ha), hhead a ha, hl']
      · exact (hperm.cons b).trans (List.Perm.swap a b l')

end Stl.CheckedSet

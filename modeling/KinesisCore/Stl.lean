import Mathlib.Data.List.Induction
import Mathlib.Data.List.Sort

/-!
# The standard library as its contracts

Sorting, priority queues and hash maps of the C++ standard library leave
choices to the implementation: how elements that compare equal end up
after a sort or come out of a queue, and in which order a hash map is
traversed. An `Impl` is one implementation, with what the standard
promises as fields; a result that must not depend on the choices is stated
for two of them.

The comparators met in practice compare a key, so the laws of a strict
weak order are always those of `<` on integers (`ByKey`), and a list whose
keys are distinct has exactly one sorted arrangement (`sort_eq_of_perm`).
-/

namespace Stl

open List

/-- `lt` compares the keys of its arguments. -/
def ByKey {α : Type} (lt : α → α → Bool) (key : α → Int) : Prop :=
  ∀ a b, lt a b = true ↔ key a < key b

/-- `lt` is a strict weak order, as a priority queue asks for. -/
structure StrictWeak {α : Type} (lt : α → α → Bool) : Prop where
  asymm : ∀ a b, lt a b = true → lt b a = false
  split : ∀ a b c, lt a c = true → lt a b = true ∨ lt b c = true

structure Impl where
  /-- `std::sort` with a comparator. -/
  sort : {α : Type} → (α → α → Bool) → List α → List α
  sort_perm : ∀ {α : Type} {lt : α → α → Bool} {key : α → Int},
    ByKey lt key → ∀ l, (sort lt l).Perm l
  sort_sorted : ∀ {α : Type} {lt : α → α → Bool} {key : α → Int},
    ByKey lt key → ∀ l, (sort lt l).Pairwise (fun a b => lt b a = false)
  /-- The order in which the entries of an `std::unordered_map` are met. -/
  arrange : {α : Type} → List α → List α
  arrange_perm : ∀ {α : Type} (l : List α), (arrange l).Perm l
  /-- `top` and `pop` of an `std::priority_queue`. -/
  popTop : {α : Type} → (α → α → Bool) → List α → Option (α × List α)
  popTop_eq_none : ∀ {α : Type} {lt : α → α → Bool} {l : List α}, popTop lt l = none ↔ l = []
  popTop_perm : ∀ {α : Type} {lt : α → α → Bool} {l rest : List α} {a : α},
    popTop lt l = some (a, rest) → (a :: rest).Perm l
  popTop_max : ∀ {α : Type} {lt : α → α → Bool} {l rest : List α} {a : α}, StrictWeak lt →
    popTop lt l = some (a, rest) → ∀ b ∈ rest, lt a b = false

namespace Impl

variable {α : Type} {lt : α → α → Bool} {key : α → Int}

theorem sort_key_le (I : Impl) (hlt : ByKey lt key) (l : List α) :
    (I.sort lt l).Pairwise (fun a b => key a ≤ key b) := by
  refine (I.sort_sorted hlt l).imp fun {a b} h => ?_
  have hnot : ¬key b < key a := fun hk => by simp [(hlt b a).mpr hk] at h
  omega

variable {l : List α}

theorem mem_sort (I : Impl) (hlt : ByKey lt key) {a : α} : a ∈ I.sort lt l ↔ a ∈ l :=
  (I.sort_perm hlt l).mem_iff

/-- With distinct keys the sorted list is strictly ascending. -/
theorem sort_key_lt (I : Impl) (hlt : ByKey lt key) (hnodup : (l.map key).Nodup) :
    (I.sort lt l).Pairwise (fun a b => key a < key b) := by
  have hne : ((I.sort lt l).map key).Nodup := ((I.sort_perm hlt l).map key).nodup_iff.mpr hnodup
  rw [List.Nodup, pairwise_map] at hne
  refine ((I.sort_key_le hlt l).and hne).imp fun h => ?_
  exact lt_of_le_of_ne h.1 h.2

/-- Two implementations sort two arrangements of one list alike, when no
two elements share a key. -/
theorem sort_eq_of_perm (I J : Impl) (hlt : ByKey lt key) {l' : List α} (hperm : l.Perm l')
    (hnodup : (l.map key).Nodup) : I.sort lt l = J.sort lt l' := by
  have hnodup' : (l'.map key).Nodup := (hperm.map key).nodup_iff.mp hnodup
  have hboth : (I.sort lt l).Perm (J.sort lt l') :=
    (I.sort_perm hlt l).trans (hperm.trans (J.sort_perm hlt l').symm)
  refine hboth.eq_of_pairwise ?_ (I.sort_key_lt hlt hnodup) (J.sort_key_lt hlt hnodup')
  intro a b _ _ hab hba
  exact absurd hab (lt_asymm hba)

/-- A sorted list with distinct keys is left as it is. -/
theorem sort_eq_self (I : Impl) (hlt : ByKey lt key)
    (hsorted : l.Pairwise (fun a b => key a < key b)) : I.sort lt l = l := by
  have hnodup : (l.map key).Nodup := by
    rw [List.Nodup, pairwise_map]
    exact hsorted.imp ne_of_lt
  refine (I.sort_perm hlt l).eq_of_pairwise ?_ (I.sort_key_lt hlt hnodup) hsorted
  intro a b _ _ hab hba
  exact absurd hab (lt_asymm hba)

end Impl

variable {α : Type} {l rest : List α} {a : α} {lt : α → α → Bool}

theorem countP_lt_countP {p q : α → Bool} (ha : a ∈ l)
    (himp : ∀ x ∈ l, p x = true → q x = true) (hq : q a = true) (hp : ¬p a = true) :
    l.countP p < l.countP q := by
  obtain ⟨s, t, rfl⟩ := append_of_mem ha
  have hs : s.countP p ≤ s.countP q := countP_mono_left fun x hx => himp x (by simp [hx])
  have ht : t.countP p ≤ t.countP q := countP_mono_left fun x hx => himp x (by simp [hx])
  rw [countP_append, countP_append, countP_cons_of_neg hp,
    countP_cons_of_pos hq]
  omega

/-- In an ascending list the position of an element is the number of smaller
ones. -/
theorem countP_lt_of_getElem {key : α → Int}
    (hsorted : l.Pairwise (fun a b => key a < key b)) {i : Nat} (ha : l[i]? = some a) :
    l.countP (fun b => key b < key a) = i := by
  induction l generalizing i with
  | nil => simp at ha
  | cons b l ih =>
    rw [pairwise_cons] at hsorted
    cases i with
    | zero =>
      obtain rfl : b = a := by simpa using ha
      have hnone : l.countP (fun c => key c < key b) = 0 := by
        rw [countP_eq_zero]
        intro c hc
        have := hsorted.1 c hc
        simpa using this.le
      simp [hnone]
    | succ i =>
      rw [getElem?_cons_succ] at ha
      have hlt := hsorted.1 a (mem_of_getElem? ha)
      rw [countP_cons, ih hsorted.2 ha]
      simp [hlt]

/-- The largest element of a list, and the others. -/
def extractMax {α : Type} (lt : α → α → Bool) : List α → Option (α × List α)
  | [] => none
  | a :: l =>
    match extractMax lt l with
    | none => some (a, [])
    | some (m, rest) => if lt a m then some (m, a :: rest) else some (a, m :: rest)

theorem extractMax_eq_none : extractMax lt l = none ↔ l = [] := by
  cases l with
  | nil => simp [extractMax]
  | cons a l =>
    simp only [extractMax, reduceCtorEq, iff_false]
    split
    · simp
    · split <;> simp

theorem extractMax_perm (h : extractMax lt l = some (a, rest)) : (a :: rest).Perm l := by
  induction l generalizing a rest with
  | nil => cases h
  | cons b l ih =>
    rw [extractMax] at h
    split at h
    · rename_i hnone
      cases h
      rw [extractMax_eq_none.mp hnone]
    · rename_i m rest' hm
      have hperm := ih hm
      split at h
      · cases h
        exact (List.Perm.swap ..).trans (hperm.cons b)
      · cases h
        exact hperm.cons b

theorem extractMax_max (hlt : StrictWeak lt) (h : extractMax lt l = some (a, rest)) :
    ∀ b ∈ rest, lt a b = false := by
  induction l generalizing a rest with
  | nil => cases h
  | cons c l ih =>
    rw [extractMax] at h
    split at h
    · cases h
      simp
    · rename_i m rest' hm
      have hmax := ih hm
      split at h
      · rename_i hcm
        cases h
        intro b hb
        rcases mem_cons.mp hb with rfl | hb
        · exact hlt.asymm _ _ hcm
        · exact hmax b hb
      · rename_i hcm
        cases h
        intro b hb
        rcases mem_cons.mp hb with rfl | hb
        · simpa using hcm
        · by_contra hab
          rcases hlt.split _ m _ (by simpa using hab) with hcm' | hmb
          · exact hcm hcm'
          · simp [hmax b hb] at hmb

/-- A library that sorts by insertion, looks for the largest element of a
queue, and traverses maps in the order their keys came in. -/
def insertion : Impl where
  sort lt l := l.insertionSort (fun a b => lt b a = false)
  sort_perm _ l := List.perm_insertionSort _ l
  sort_sorted {α lt key} hlt l := by
    have hle : ∀ a b : α, lt b a = false ↔ key a ≤ key b := fun a b => by
      rw [← Bool.not_eq_true, hlt, not_lt]
    have htotal : Std.Total (fun a b : α => lt b a = false) := ⟨fun a b => by
      rw [hle, hle]
      exact le_total _ _⟩
    have htrans : IsTrans α (fun a b : α => lt b a = false) := ⟨fun a b c hab hbc => by
      rw [hle] at hab hbc ⊢
      exact le_trans hab hbc⟩
    exact List.pairwise_insertionSort _ l
  arrange l := l
  arrange_perm _ := .refl _
  popTop := extractMax
  popTop_eq_none := extractMax_eq_none
  popTop_perm := extractMax_perm
  popTop_max hlt h := extractMax_max hlt h

/-! ## Grouping under a key

A map from keys to queues, filled by appending each element to the queue of
its key. The entries are kept in the order of their first element; a
traversal meets them in `arrange`d order. -/

section Grouping

variable {κ α : Type} [DecidableEq κ]

/-- `m[k].emplace_back(a)`, with an empty queue for a new key. -/
def emplaceBack (k : κ) (a : α) : List (κ × List α) → List (κ × List α)
  | [] => [(k, [a])]
  | (k', q) :: m => if k' = k then (k', q ++ [a]) :: m else (k', q) :: emplaceBack k a m

def group (key : α → κ) (l : List α) : List (κ × List α) :=
  l.foldl (fun m a => emplaceBack (key a) a m) []

theorem keys_emplaceBack (k : κ) (a : α) (m : List (κ × List α)) :
    (emplaceBack k a m).map Prod.fst
      = if k ∈ m.map Prod.fst then m.map Prod.fst else m.map Prod.fst ++ [k] := by
  induction m with
  | nil => simp [emplaceBack]
  | cons e m ih =>
    obtain ⟨k', q⟩ := e
    by_cases hk : k' = k
    · simp [emplaceBack, hk]
    · have hk' : k ≠ k' := fun h => hk h.symm
      simp only [emplaceBack, if_neg hk, map_cons, ih, mem_cons, hk', false_or]
      split <;> rfl

variable {k : κ} {a : α} {q l : List α} {m : List (κ × List α)} {key : α → κ}

theorem mem_emplaceBack_of_ne {k' : κ} (hne : k' ≠ k)
    (m : List (κ × List α)) : (k', q) ∈ emplaceBack k a m ↔ (k', q) ∈ m := by
  induction m with
  | nil => simp [emplaceBack, hne]
  | cons e m ih =>
    obtain ⟨j, r⟩ := e
    by_cases hj : j = k
    · subst hj
      simp [emplaceBack, hne]
    · simp [emplaceBack, if_neg hj, ih]

/-- The queue of the key itself: one element longer, or new. -/
theorem mem_emplaceBack_self (hnodup : (m.map Prod.fst).Nodup) : (k, q) ∈ emplaceBack k a m
      ↔ (∃ q₀, (k, q₀) ∈ m ∧ q = q₀ ++ [a]) ∨ k ∉ m.map Prod.fst ∧ q = [a] := by
  induction m with
  | nil => simp [emplaceBack]
  | cons e m ih =>
    obtain ⟨j, r⟩ := e
    rw [map_cons, nodup_cons] at hnodup
    by_cases hj : j = k
    · subst hj
      have hout : ∀ q₀, (j, q₀) ∉ m := fun q₀ h =>
        hnodup.1 (mem_map.mpr ⟨(j, q₀), h, rfl⟩)
      simp [emplaceBack, hout]
    · have hj' : k ≠ j := fun h => hj h.symm
      simp only [emplaceBack, if_neg hj, mem_cons, Prod.mk.injEq, hj', false_and,
        false_or, ih hnodup.2, map_cons]

theorem group_append_singleton (key : α → κ) (l : List α) (a : α) :
    group key (l ++ [a]) = emplaceBack (key a) a (group key l) := by
  rw [group, foldl_append]
  rfl

theorem mem_keys_group : k ∈ (group key l).map Prod.fst ↔ ∃ a ∈ l, key a = k := by
  induction l using List.reverseRecOn generalizing k with
  | nil => simp [group]
  | append_singleton l a ih =>
    rw [group_append_singleton, keys_emplaceBack]
    split
    · rename_i hmem
      obtain ⟨b, hb, hkey⟩ := ih.mp hmem
      grind
    · rw [mem_append]
      grind

theorem nodup_keys_group (key : α → κ) (l : List α) :
    ((group key l).map Prod.fst).Nodup := by
  induction l using List.reverseRecOn with
  | nil => simp [group]
  | append_singleton l a ih =>
    rw [group_append_singleton, keys_emplaceBack]
    split
    · exact ih
    · rename_i hnot
      exact nodup_append.mpr ⟨ih, by simp, by grind⟩

/-- The queue of a key holds the elements of that key, in their order. -/
theorem mem_group : (k, q) ∈ group key l ↔ q = l.filter (fun a => key a = k) ∧ q ≠ [] := by
  induction l using List.reverseRecOn generalizing q with
  | nil => simp [group]
  | append_singleton l a ih =>
    rw [group_append_singleton, filter_append]
    by_cases hk : k = key a
    · subst hk
      have hself : List.filter (fun b => key b = key a) [a] = [a] := by simp
      have hnew : key a ∉ (group key l).map Prod.fst
          ↔ l.filter (fun b => key b = key a) = [] := by
        rw [mem_keys_group]
        simp
      rw [mem_emplaceBack_self (nodup_keys_group key l), hself, hnew]
      constructor
      · rintro (⟨q₀, hq₀, rfl⟩ | ⟨hnil, rfl⟩)
        · exact ⟨by rw [(ih.mp hq₀).1], by simp⟩
        · exact ⟨by rw [hnil, nil_append], by simp⟩
      · rintro ⟨rfl, -⟩
        by_cases hnil : l.filter (fun b => key b = key a) = []
        · exact .inr ⟨hnil, by rw [hnil, nil_append]⟩
        · exact .inl ⟨_, ih.mpr ⟨rfl, hnil⟩, rfl⟩
    · rw [mem_emplaceBack_of_ne hk, ih]
      have hout : List.filter (fun b => key b = k) [a] = [] := by
        simp [Ne.symm hk]
      rw [hout, append_nil]

/-- Out of queues that hold elements of their own key only, each key gets its
queue back. -/
theorem filter_flatten_queues
    (hkeys : (m.map Prod.fst).Nodup) (hown : ∀ e ∈ m, ∀ a ∈ e.2, key a = e.1)
    (hq : (k, q) ∈ m ∨ k ∉ m.map Prod.fst ∧ q = []) :
    (m.map Prod.snd).flatten.filter (fun a => key a = k) = q := by
  induction m generalizing q with
  | nil =>
    obtain ⟨-, rfl⟩ := hq.resolve_left (by simp)
    rfl
  | cons e m ih =>
    obtain ⟨j, r⟩ := e
    rw [map_cons, nodup_cons] at hkeys
    simp only [forall_mem_cons] at hown
    rw [map_cons, flatten_cons, filter_append]
    by_cases hj : j = k
    · subst hj
      have hr : r.filter (fun a => key a = j) = r :=
        filter_eq_self.mpr fun a ha => by simpa using hown.1 a ha
      rw [hr, ih hkeys.2 hown.2 (.inr ⟨hkeys.1, rfl⟩), append_nil]
      rcases hq with hq | ⟨hout, -⟩
      · rcases mem_cons.mp hq with heq | hmem
        · exact (Prod.mk.inj heq).2.symm
        · exact absurd (mem_map_of_mem hmem) hkeys.1
      · simp at hout
    · have hr : r.filter (fun a => key a = k) = [] :=
        filter_eq_nil_iff.mpr fun a ha => by simpa using hown.1 a ha ▸ hj
      rw [hr]
      apply ih hkeys.2 hown.2
      rcases hq with hq | ⟨hout, rfl⟩
      · rcases mem_cons.mp hq with heq | hmem
        · exact absurd (Prod.mk.inj heq).1.symm hj
        · exact .inl hmem
      · exact .inr ⟨fun hmem => hout (by simp [mem_map.mp hmem]), rfl⟩

end Grouping

section Counting

variable {κ α : Type} [DecidableEq κ] [DecidableEq α]

end Counting


end Stl

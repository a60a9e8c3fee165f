import Mathlib.Data.Set.Lattice
import Mathlib.Order.Preorder.Finite

/-!
# Federated agreement systems

Every node names the sets of nodes it is ready to follow, its slices; a quorum
holds a slice of each of its members. What a set of ill-behaved nodes cannot
break is what holds in the system without them, where they are deleted from
every slice. If any two quorums meet there, well-behaved nodes that each saw
enough of the others stand by a value have settled on one value.
-/

/-- The nodes, and the slices of each. -/
structure Fbas (N : Type*) where
  nodes : Set N
  slices : N → Set (Set N)

namespace Fbas

open List

variable {N X : Type*} (F : Fbas N) {B P U W : Set N} {v w : N}

def HasSlice (v : N) (P : Set N) : Prop := ∃ s ∈ F.slices v, s ⊆ P

def IsQuorum (U : Set N) : Prop := U.Nonempty ∧ U ⊆ F.nodes ∧ ∀ v ∈ U, F.HasSlice v U

/-- The system without the nodes in `B`: nobody waits for them any more. -/
def delete (B : Set N) : Fbas N where
  nodes := F.nodes \ B
  slices v := (· \ B) '' F.slices v

def QuorumIntersection : Prop := ∀ U W, F.IsQuorum U → F.IsQuorum W → (U ∩ W).Nonempty

variable {F}

theorem HasSlice.mono (h : F.HasSlice v P) (hle : P ⊆ U) : F.HasSlice v U := by
  obtain ⟨s, hs, hsub⟩ := h
  exact ⟨s, hs, hsub.trans hle⟩

/-- With the ill-behaved nodes' help a slice is complete. -/
theorem hasSlice_delete (h : F.HasSlice v (U ∪ B)) : (F.delete B).HasSlice v U := by
  obtain ⟨s, hs, hsub⟩ := h
  refine ⟨s \ B, ⟨s, hs, rfl⟩, fun n hn => ?_⟩
  rcases hsub hn.1 with h | h
  · exact h
  · exact absurd h hn.2

section Agreement

variable (F) (B) (settled stands : N → X → Prop)

/-- What a node that settled on `x` has seen: nodes that stand by `x`, among
them a slice of its own, and each of the well-behaved ones has a slice among
them too or has itself settled on `x`. -/
def Backed (v : N) (x : X) : Prop :=
  ∃ P ⊆ F.nodes, F.HasSlice v P ∧ ∀ p ∈ P \ B, stands p x ∧ (F.HasSlice p P ∨ settled p x)

/-- The well-behaved nodes behind `x`: those that settled on it and all they have
seen. -/
def Behind (x : X) : Set N :=
  { w | w ∈ F.nodes \ B ∧ stands w x ∧ F.Backed B settled stands w x }

variable {F B settled stands}

theorem isQuorum_behind {x : X}
    (hback : ∀ v ∈ F.nodes \ B, settled v x → F.Backed B settled stands v x)
    (hv : v ∈ F.nodes \ B) (hstands : stands v x) (hsettled : settled v x) :
    (F.delete B).IsQuorum (F.Behind B settled stands x) := by
  refine ⟨⟨v, hv, hstands, hback v hv hsettled⟩, fun w hw => hw.1, ?_⟩
  rintro w ⟨hw, -, P, hP, hslice, hseen⟩
  refine hasSlice_delete (hslice.mono fun p hp => ?_)
  by_cases hpB : p ∈ B
  · exact .inr hpB
  -- a node that was seen is behind the value itself: it was seen with a slice,
  -- or it has a slice from when it settled
  refine .inl ⟨⟨hP hp, hpB⟩, (hseen p ⟨hp, hpB⟩).1, ?_⟩
  rcases (hseen p ⟨hp, hpB⟩).2 with hp' | hp'
  · exact ⟨P, hP, hp', hseen⟩
  · exact hback p ⟨hP hp, hpB⟩ hp'

variable (settled stands) in
/-- Well-behaved nodes settle on one value, if no node stands by two. -/
theorem settled_unique (hinter : (F.delete B).QuorumIntersection)
    (hstands : ∀ v ∈ F.nodes \ B, ∀ x, settled v x → stands v x)
    (honce : ∀ v ∈ F.nodes \ B, ∀ x y, stands v x → stands v y → x = y)
    (hback : ∀ v ∈ F.nodes \ B, ∀ x, settled v x → F.Backed B settled stands v x)
    {x y : X} (hv : v ∈ F.nodes \ B) (hw : w ∈ F.nodes \ B) (hx : settled v x)
    (hy : settled w y) : x = y := by
  have hU := isQuorum_behind (fun u hu => hback u hu x) hv (hstands v hv x hx) hx
  have hW := isQuorum_behind (fun u hu => hback u hu y) hw (hstands w hw y hy) hy
  obtain ⟨u, hux, huy⟩ := hinter _ _ hU hW
  exact honce u hux.1 x y hux.2.1 huy.2.1

end Agreement

/-! ## Threshold slices -/

/-- The unions of one set from each of `t` entries. -/
def threshold (t : Nat) (entries : List (Set (Set N))) : Set (Set N) :=
  { s | ∃ chosen sub, sub.Sublist entries ∧ sub.length = t
      ∧ List.Forall₂ (· ∈ ·) chosen sub ∧ s = ⋃ c ∈ chosen, c }

theorem exists_chosen {chosen : List (Set N)} {sub : List (Set (Set N))} {e : Set (Set N)}
    (h : List.Forall₂ (· ∈ ·) chosen sub) (he : e ∈ sub) : ∃ c ∈ chosen, c ∈ e := by
  induction h with
  | nil => cases he
  | cons hhead _ ih =>
    rcases mem_cons.mp he with rfl | he
    · exact ⟨_, mem_cons_self, hhead⟩
    · obtain ⟨c, hc, hce⟩ := ih he
      exact ⟨c, mem_cons_of_mem _ hc, hce⟩

/-- A set holds such a union if enough of the entries have a set in it. -/
theorem exists_threshold_subset_iff [DecidablePred fun e : Set (Set N) => ∃ s ∈ e, s ⊆ P]
    {t : Nat} {entries : List (Set (Set N))} :
    (∃ s ∈ threshold t entries, s ⊆ P) ↔ t ≤ entries.countP fun e => ∃ s ∈ e, s ⊆ P := by
  constructor
  · rintro ⟨s, ⟨chosen, sub, hsub, rfl, hmem, rfl⟩, hP⟩
    have hall : ∀ e ∈ sub, ∃ s ∈ e, s ⊆ P := by
      intro e he
      obtain ⟨c, hc, hce⟩ := exists_chosen hmem he
      exact ⟨c, hce, Set.iUnion₂_subset_iff.mp hP c hc⟩
    calc sub.length = sub.countP fun e => ∃ s ∈ e, s ⊆ P :=
          (countP_eq_length.mpr fun e he => decide_eq_true (hall e he)).symm
      _ ≤ entries.countP fun e => ∃ s ∈ e, s ⊆ P := hsub.countP_le
  · intro ht
    -- take the first `t` entries with a set in `P`, and such a set from each
    let good := entries.filter fun e => ∃ s ∈ e, s ⊆ P
    let pick : Set (Set N) → Set N := fun e => if h : ∃ s ∈ e, s ⊆ P then h.choose else ∅
    have hpick : ∀ e ∈ good.take t, pick e ∈ e ∧ pick e ⊆ P := by
      intro e he
      have hex : ∃ s ∈ e, s ⊆ P := by
        simpa [good] using (mem_filter.mp (mem_of_mem_take he)).2
      simp only [pick, dif_pos hex]
      exact hex.choose_spec
    refine ⟨⋃ c ∈ (good.take t).map pick, c, ⟨(good.take t).map pick, good.take t, ?_, ?_, ?_, rfl⟩,
      ?_⟩
    · exact (take_sublist t good).trans filter_sublist
    · rw [length_take, ← countP_eq_length_filter]
      exact min_eq_left ht
    · rw [forall₂_map_left_iff, forall₂_same]
      exact fun e he => (hpick e he).1
    · refine Set.iUnion₂_subset fun c hc => ?_
      obtain ⟨e, he, rfl⟩ := mem_map.mp hc
      exact (hpick e he).2

end Fbas

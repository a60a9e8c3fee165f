import Mathlib.Data.Finset.Sort

/-!
# Strongly connected components (`TarjanSCCCalculator.cpp`)

Tarjan's algorithm over a graph of numbered nodes. A component is taken from the stack
when the search is back at its first node and no edge out of it leads further down the
stack. From then on the nodes that have been taken are closed under edges, and that is
all it needs for what follows: the components are disjoint, every node is in one, and
nodes that reach each other are in the same one.
-/

namespace KinesisCore

open Function Finset

/-- A `BitSet`, as the set of the bits that are set. Nothing modelled here compares two of
them: `bitset_equal` and `bitset_subseteq` read only the words that both have. -/
abbrev BitSet := Finset Nat

/-- An index of -1 is none. -/
structure SCCNode where
  mIndex : Option Nat := none
  mLowLink : Nat := 0
  mOnStack : Bool := false

structure TarjanSCCCalculator where
  mNodes : Nat → SCCNode := fun _ => {}
  /-- The last one first. -/
  mStack : List Nat := []
  mIndex : Nat := 0
  mSCCs : List BitSet := []

namespace TarjanSCCCalculator

variable (c : TarjanSCCCalculator) (i : Nat)

/-- The node gets its index and goes on the stack. -/
def enter : TarjanSCCCalculator :=
  { c with
    mNodes := update c.mNodes i ⟨some c.mIndex, c.mIndex, true⟩
    mIndex := c.mIndex + 1
    mStack := i :: c.mStack }

def lower (i low : Nat) : TarjanSCCCalculator :=
  { c with
    mNodes := update c.mNodes i { c.mNodes i with mLowLink := min (c.mNodes i).mLowLink low } }

/-- What is above `i` on the stack, with `i`, and what is below. -/
def popUntil (i : Nat) : List Nat → List Nat × List Nat
  | [] => ([], [])
  | j :: stack =>
    if j = i then ([j], stack) else ((j :: (popUntil i stack).1), (popUntil i stack).2)

/-- The end of `scc`. -/
def leave : TarjanSCCCalculator :=
  if (c.mNodes i).mIndex = some (c.mNodes i).mLowLink then
    { c with
      mNodes := fun j =>
        if j ∈ (popUntil i c.mStack).1 then { c.mNodes j with mOnStack := false } else c.mNodes j
      mStack := (popUntil i c.mStack).2
      mSCCs := c.mSCCs ++ [(popUntil i c.mStack).1.toFinset] }
  else c

/-- The body of the loop over the successors; `scc` is the call for a node that has not
been seen. -/
def edge (scc : Nat → TarjanSCCCalculator → Option TarjanSCCCalculator) (i : Nat)
    (c : TarjanSCCCalculator) (j : Nat) : Option TarjanSCCCalculator :=
  match (c.mNodes j).mIndex with
  | none => do
    let c ← scc j c
    return c.lower i (c.mNodes j).mLowLink
  | some index => if (c.mNodes j).mOnStack then some (c.lower i index) else some c

/-- `depth` bounds the nested calls. -/
def scc (successors : Nat → BitSet) : Nat → Nat → TarjanSCCCalculator → Option TarjanSCCCalculator
  | 0, _, _ => none
  | depth + 1, i, c => do
    let c ← (successors i).sort.foldlM (edge (scc successors depth) i) (c.enter i)
    return c.leave i

/-- Every call enters a node, so there are no more nested calls than nodes. -/
def calculateSCCs (graphSize : Nat) (successors : Nat → BitSet) : Option TarjanSCCCalculator :=
  (List.range graphSize).foldlM
    (fun c i => if (c.mNodes i).mIndex = none then scc successors graphSize i c else some c) {}

/-! ## What holds between the calls -/

variable (successors : Nat → BitSet)

/-- There is a path of edges. -/
def Reaches : Nat → Nat → Prop := Relation.ReflTransGen fun u w => w ∈ successors u

variable (c : TarjanSCCCalculator) (v : Nat)

def Visited : Prop := (c.mNodes v).mIndex ≠ none

/-- The node has been taken into a component. -/
def Popped : Prop :=
  c.Visited v ∧ (c.mNodes v).mOnStack = false

def idx : Nat := (c.mNodes v).mIndex.getD 0

def low : Nat := (c.mNodes v).mLowLink

structure Valid (c : TarjanSCCCalculator) : Prop where
  sorted : c.mStack.Pairwise fun a b => c.idx b < c.idx a
  onStack : ∀ v, (c.mNodes v).mOnStack = true ↔ v ∈ c.mStack
  visited : ∀ v ∈ c.mStack, c.Visited v
  bound : ∀ v, c.Visited v → c.idx v < c.mIndex
  closed : ∀ u, c.Popped u → ∀ w ∈ successors u, c.Popped w
  found : ∀ v, (∃ s ∈ c.mSCCs, v ∈ s) ↔ c.Popped v
  disjoint : c.mSCCs.Pairwise Disjoint
  whole : ∀ s ∈ c.mSCCs, ∀ u ∈ s, ∀ v, Reaches successors u v → Reaches successors v u → v ∈ s
  connected : ∀ s ∈ c.mSCCs, s.Nonempty ∧ ∀ u ∈ s, ∀ v ∈ s, Reaches successors u v

/-- The target of an edge has been taken, or it is on the stack at `low` or above. -/
def Reached (low w : Nat) : Prop :=
  c.Popped w ∨ w ∈ c.mStack ∧ low ≤ c.idx w

/-- There are paths from `i` to the node, and from there down the stack. -/
def Linked (i u : Nat) : Prop :=
  Reaches successors i u ∧ ∃ w ∈ c.mStack, c.idx w < c.idx u ∧ Reaches successors u w

/-- The call for `i` has begun in `c₀`, and the edges to the nodes in `done` are dealt
with. -/
structure Exploring (c₀ : TarjanSCCCalculator) (i : Nat) (done : Nat → Prop)
    (c : TarjanSCCCalculator) : Prop where
  valid : Valid successors c
  frame : ∀ v, c₀.Visited v → c.mNodes v = c₀.mNodes v
  index : (c.mNodes i).mIndex = some c₀.mIndex
  low_le : c.low i ≤ c₀.mIndex
  low_from : c.low i = c₀.mIndex ∨ ∃ x ∈ c₀.mStack, c.idx x = c.low i ∧ Reaches successors i x
  stack : ∃ above, c.mStack = above ++ i :: c₀.mStack
    ∧ ∀ u ∈ above, (∀ w ∈ successors u, c.Reached (c.low i) w) ∧ Linked successors c i u
  done : ∀ w, done w → c.Reached (c.low i) w

/-- The call for `i` that began in `c₀` has ended. -/
structure Explored (c₀ : TarjanSCCCalculator) (i : Nat) (c : TarjanSCCCalculator) : Prop where
  valid : Valid successors c
  frame : ∀ v, c₀.Visited v → c.mNodes v = c₀.mNodes v
  index : (c.mNodes i).mIndex = some c₀.mIndex
  low_from : (c.low i = c₀.mIndex ∧ c.mStack = c₀.mStack)
    ∨ ∃ x ∈ c₀.mStack, c.idx x = c.low i ∧ Reaches successors i x
  stack : ∃ above, c.mStack = above ++ c₀.mStack
    ∧ ∀ u ∈ above, (∀ w ∈ successors u, c.Reached (c.low i) w) ∧ Linked successors c i u

section

variable {successors} {c c₀ c' : TarjanSCCCalculator} {i j v : Nat} {done : Nat → Prop}

section

variable (h : Valid successors c)
include h

theorem Valid.not_popped (hv : v ∈ c.mStack) : ¬c.Popped v := by
  rintro ⟨-, hoff⟩
  rw [(h.onStack v).mpr hv] at hoff
  cases hoff

theorem Valid.popped_or (hv : c.Visited v) : c.Popped v ∨ v ∈ c.mStack := by
  cases hon : (c.mNodes v).mOnStack with
  | true => exact .inr ((h.onStack v).mp hon)
  | false => exact .inl ⟨hv, hon⟩

/-- What has been taken is closed under paths. -/
theorem Valid.popped_of_reaches {u : Nat} (hu : c.Popped u)
    (hpath : Reaches successors u v) : c.Popped v := by
  induction hpath with
  | refl => exact hu
  | tail _ hedge ih => exact h.closed _ ih _ hedge

theorem Valid.nodup : c.mStack.Nodup :=
  h.sorted.imp fun hlt heq => absurd hlt (by rw [heq]; exact lt_irrefl _)

end

theorem visited_of_index {n : Nat} (h : (c.mNodes v).mIndex = some n) : c.Visited v := by
  unfold Visited
  rw [h]
  exact nofun

theorem idx_of_index {n : Nat} (h : (c.mNodes v).mIndex = some n) : c.idx v = n := by
  unfold idx
  rw [h]
  rfl

theorem ne_of_visited (hv : c.Visited v) (hi : ¬c.Visited i) : v ≠ i := by
  rintro rfl
  exact hi hv

/-! ## Entering -/

theorem enter_ne (hv : v ≠ i) : (c.enter i).mNodes v = c.mNodes v := update_of_ne hv _ _

theorem enter_self : (c.enter i).mNodes i = ⟨some c.mIndex, c.mIndex, true⟩ := update_self _ _ _

theorem popped_enter (hi : ¬c.Visited i) (v : Nat) : (c.enter i).Popped v ↔ c.Popped v := by
  unfold Popped Visited
  by_cases hv : v = i
  · subst hv
    rw [enter_self]
    exact ⟨fun h => (by cases h.2), fun h => absurd h.1 hi⟩
  · rw [enter_ne hv]

theorem Valid.enter (h : Valid successors c) (hi : ¬c.Visited i) :
    Valid successors (c.enter i) := by
  have hne : ∀ v, c.Visited v → v ≠ i := fun v hv => ne_of_visited hv hi
  have hidx : ∀ v, c.Visited v → (c.enter i).idx v = c.idx v := fun v hv => by
    unfold idx
    rw [enter_ne (hne v hv)]
  have hindex : ((c.enter i).mNodes i).mIndex = some c.mIndex := by rw [enter_self]
  have hidx_i := idx_of_index hindex
  refine ⟨?_, fun v => ?_, fun v hv => ?_, fun v hv => ?_, fun u hu w hw => ?_, fun v => ?_,
    h.disjoint, h.whole, h.connected⟩
  · refine List.pairwise_cons.mpr ⟨fun b hb => ?_, h.sorted.imp_of_mem fun ha hb hlt => ?_⟩
    · rw [hidx_i, hidx b (h.visited b hb)]
      exact h.bound b (h.visited b hb)
    · rwa [hidx _ (h.visited _ ha), hidx _ (h.visited _ hb)]
  · show _ ↔ v ∈ i :: c.mStack
    by_cases hv : v = i
    · subst hv
      rw [enter_self]
      exact ⟨fun _ => List.mem_cons_self, fun _ => rfl⟩
    · rw [enter_ne hv, h.onStack v, List.mem_cons]
      exact ⟨Or.inr, fun h => h.resolve_left hv⟩
  · rcases List.mem_cons.mp hv with rfl | hv
    · exact visited_of_index hindex
    · unfold Visited
      rw [enter_ne (hne v (h.visited v hv))]
      exact h.visited v hv
  · show _ < c.mIndex + 1
    by_cases hvi : v = i
    · rw [hvi, hidx_i]
      exact Nat.lt_succ_self _
    · have hv' : c.Visited v := by
        unfold Visited at hv
        rwa [enter_ne hvi] at hv
      rw [hidx v hv']
      exact (h.bound v hv').trans (Nat.lt_succ_self _)
  · rw [popped_enter hi] at hu ⊢
    exact h.closed u hu w hw
  · rw [popped_enter hi]
    exact h.found v

theorem exploring_enter (h : Valid successors c) (hi : ¬c.Visited i) :
    Exploring successors c i (fun _ => False) (c.enter i) where
  valid := h.enter hi
  frame v hv := enter_ne (ne_of_visited hv hi)
  index := by rw [enter_self]
  low_le := by unfold low; rw [enter_self]
  low_from := .inl (by unfold low; rw [enter_self])
  stack := ⟨[], rfl, nofun⟩
  done _ h := h.elim

/-! ## Edges -/

theorem lower_ne (hv : v ≠ i) (low : Nat) : (c.lower i low).mNodes v = c.mNodes v :=
  update_of_ne hv _ _

theorem lower_self (low : Nat) : (c.lower i low).mNodes i =
    { c.mNodes i with mLowLink := min (c.mNodes i).mLowLink low } :=
  update_self _ _ _

theorem lower_index (v low : Nat) :
    ((c.lower i low).mNodes v).mIndex = (c.mNodes v).mIndex := by
  by_cases hv : v = i
  · rw [hv, lower_self]
  · rw [lower_ne hv]

theorem lower_onStack (v low : Nat) :
    ((c.lower i low).mNodes v).mOnStack = (c.mNodes v).mOnStack := by
  by_cases hv : v = i
  · rw [hv, lower_self]
  · rw [lower_ne hv]

theorem low_lower (low : Nat) : (c.lower i low).low i = min (c.low i) low :=
  congrArg SCCNode.mLowLink (lower_self low)

theorem idx_lower (v low : Nat) : (c.lower i low).idx v = c.idx v := by
  unfold idx
  rw [lower_index]

theorem visited_lower (v low : Nat) : (c.lower i low).Visited v ↔ c.Visited v := by
  unfold Visited
  rw [lower_index]

theorem popped_lower (v low : Nat) : (c.lower i low).Popped v ↔ c.Popped v := by
  unfold Popped
  rw [visited_lower, lower_onStack]

theorem Valid.lower (h : Valid successors c) (i low : Nat) : Valid successors (c.lower i low) where
  sorted := h.sorted.imp fun hlt => by rwa [idx_lower, idx_lower]
  onStack v := by rw [lower_onStack]; exact h.onStack v
  visited v hv := (visited_lower v low).mpr (h.visited v hv)
  bound v hv := by rw [idx_lower]; exact h.bound v ((visited_lower v low).mp hv)
  closed u hu w hw := (popped_lower w low).mpr (h.closed u ((popped_lower u low).mp hu) w hw)
  found v := by rw [popped_lower]; exact h.found v
  disjoint := h.disjoint
  whole := h.whole
  connected := h.connected

variable {graphSize low : Nat}

theorem Linked.lower {u n : Nat} (h : Linked successors c j u) :
    Linked successors (c.lower i n) j u := by
  obtain ⟨hto, w, hw, hlt, hpath⟩ := h
  exact ⟨hto, w, hw, by rwa [idx_lower, idx_lower], hpath⟩

theorem Reached.lower {low' n w : Nat} (h : c.Reached low w) (hle : low' ≤ low) :
    (c.lower i n).Reached low' w :=
  h.imp (popped_lower w n).mpr fun hw => ⟨hw.1, by rw [idx_lower]; exact hle.trans hw.2⟩

section Seen

variable (h : Exploring successors c₀ i done c)
include h

/-- On the stack, the nodes with a lower index than `i` were there before. -/
theorem Exploring.mem_of_lt {x : Nat} (hx : x ∈ c.mStack) (hlt : c.idx x < c₀.mIndex) :
    x ∈ c₀.mStack := by
  obtain ⟨above, hstack, -⟩ := h.stack
  have hidx := idx_of_index h.index
  have hsorted := h.valid.sorted
  rw [hstack] at hx hsorted
  rcases List.mem_append.mp hx with hx | hx
  · have := (List.pairwise_append.mp hsorted).2.2 x hx i List.mem_cons_self
    omega
  · rcases List.mem_cons.mp hx with rfl | hx
    · omega
    · exact hx

/-- Lowering the low link of `i` to where an edge leads. -/
theorem Exploring.lower (hi : ¬c₀.Visited i)
    (hfrom : low < c₀.mIndex → ∃ x ∈ c.mStack, c.idx x = low ∧ Reaches successors i x) :
    Exploring successors c₀ i done (c.lower i low) where
  valid := h.valid.lower i low
  frame v hv := (lower_ne (ne_of_visited hv hi) low).trans (h.frame v hv)
  index := by rw [lower_index]; exact h.index
  low_le := by rw [low_lower]; exact (min_le_left _ _).trans h.low_le
  low_from := by
    rw [low_lower]
    rcases le_or_gt (c.low i) low with hle | hlt
    · rw [min_eq_left hle]
      exact h.low_from.imp_right fun ⟨x, hx, heq, hpath⟩ =>
        ⟨x, hx, by rw [idx_lower]; exact heq, hpath⟩
    · rw [min_eq_right hlt.le]
      have hlow := hlt.trans_le h.low_le
      obtain ⟨x, hx, heq, hpath⟩ := hfrom hlow
      exact .inr ⟨x, h.mem_of_lt hx (heq ▸ hlow), by rw [idx_lower]; exact heq, hpath⟩
  stack := by
    obtain ⟨above, hstack, hedges⟩ := h.stack
    refine ⟨above, hstack, fun u hu =>
      ⟨fun w hw => ((hedges u hu).1 w hw).lower ?_, (hedges u hu).2.lower⟩⟩
    rw [low_lower]
    exact min_le_left _ _
  done w hw := by
    refine (h.done w hw).lower ?_
    rw [low_lower]
    exact min_le_left _ _

/-- One more edge is dealt with. -/
theorem Exploring.insert (hj : c.Reached (c.low i) j) :
    Exploring successors c₀ i (fun w => done w ∨ w = j) c :=
  { h with done := fun w hw => hw.elim (h.done w) fun heq => heq ▸ hj }

/-- An edge to a node that was seen before. -/
theorem Exploring.seen (hi : ¬c₀.Visited i) (hij : j ∈ successors i) {index : Nat}
    (hindex : (c.mNodes j).mIndex = some index) :
    Exploring successors c₀ i (fun w => done w ∨ w = j)
      (if (c.mNodes j).mOnStack then c.lower i index else c) := by
  have hidx := idx_of_index hindex
  split
  · rename_i hon
    have hj := (h.valid.onStack j).mp hon
    refine (h.lower hi fun _ => ⟨j, hj, hidx, .single hij⟩).insert (.inr ⟨hj, ?_⟩)
    rw [idx_lower, hidx, low_lower]
    exact min_le_right _ _
  · rename_i hoff
    exact h.insert (.inl ⟨visited_of_index hindex, Bool.eq_false_iff.mpr hoff⟩)

end Seen

theorem visited_of_eq (hnode : c'.mNodes v = c.mNodes v) (hv : c.Visited v) :
    c'.Visited v := by
  unfold Visited
  rwa [hnode]

theorem idx_of_eq (hnode : c'.mNodes v = c.mNodes v) : c'.idx v = c.idx v := by
  unfold idx
  rw [hnode]

/-- What an edge reached stays reached while another node is explored. -/
theorem Explored.reached (h : Explored successors c j c') (hvalid : Valid successors c) {w : Nat}
    (hw : c.Reached low w) : c'.Reached low w := by
  rcases hw with ⟨hvisited, hoff⟩ | ⟨hmem, hle⟩
  · have hnode := h.frame w hvisited
    exact .inl ⟨visited_of_eq hnode hvisited, by rw [hnode]; exact hoff⟩
  · obtain ⟨above, hstack, -⟩ := h.stack
    refine .inr ⟨?_, ?_⟩
    · rw [hstack]
      exact List.mem_append_right _ hmem
    · rwa [idx_of_eq (h.frame w (hvalid.visited w hmem))]

/-- Paths down the stack stay while another node is explored. -/
theorem Explored.linked (h : Explored successors c j c') (hvalid : Valid successors c) {u : Nat}
    (hu : u ∈ c.mStack) (hlinked : Linked successors c i u) : Linked successors c' i u := by
  obtain ⟨hto, w, hw, hlt, hpath⟩ := hlinked
  obtain ⟨above, hstack, -⟩ := h.stack
  refine ⟨hto, w, ?_, ?_, hpath⟩
  · rw [hstack]
    exact List.mem_append_right _ hw
  · rwa [idx_of_eq (h.frame w (hvalid.visited w hw)), idx_of_eq (h.frame u (hvalid.visited u hu))]

/-- An edge to a node that was explored on the way. -/
theorem Exploring.explored (h : Exploring successors c₀ i done c) (hi : ¬c₀.Visited i)
    (hij : j ∈ successors i) (hj : Explored successors c j c') :
    Exploring successors c₀ i (fun w => done w ∨ w = j) (c'.lower i (c'.low j)) := by
  have hvisited := visited_of_index h.index
  have hnode := hj.frame i hvisited
  have hlow : (c'.lower i (c'.low j)).low i = min (c.low i) (c'.low j) := by
    rw [low_lower]
    exact congrArg (min · _) (congrArg SCCNode.mLowLink hnode)
  have hindex : c₀.mIndex < c.mIndex := by
    have hbound := h.valid.bound i hvisited
    rwa [idx_of_index h.index] at hbound
  have hold : ∀ {v}, c₀.Visited v → c.Visited v := fun hv => visited_of_eq (h.frame _ hv) hv
  -- what was on the stack or taken before is so now
  have hreached : ∀ {w}, c.Reached (c.low i) w →
      (c'.lower i (c'.low j)).Reached ((c'.lower i (c'.low j)).low i) w := fun hw =>
    (hj.reached h.valid hw).lower (hlow ▸ min_le_left _ _)
  refine ⟨hj.valid.lower i _, fun v hv => ?_, ?_, ?_, ?_, ?_, ?_⟩
  · rw [lower_ne (ne_of_visited hv hi), hj.frame v (hold hv), h.frame v hv]
  · rw [lower_index, hnode]
    exact h.index
  · rw [hlow]
    exact (min_le_left _ _).trans h.low_le
  · rw [hlow]
    rcases le_or_gt (c.low i) (c'.low j) with hle | hlt
    · rw [min_eq_left hle]
      refine h.low_from.imp_right fun ⟨x, hx, heq, hpath⟩ => ⟨x, hx, ?_, hpath⟩
      have hx : c.Visited x := h.valid.visited x (by
        obtain ⟨above, hstack, -⟩ := h.stack
        rw [hstack]
        exact List.mem_append_right _ (List.mem_cons_of_mem _ hx))
      rw [idx_lower, idx_of_eq (hj.frame x hx), heq]
    · rw [min_eq_right hlt.le]
      have hlow := hlt.trans_le h.low_le
      rcases hj.low_from with ⟨heq, -⟩ | ⟨x, hx, heq, hpath⟩
      · omega
      · have hidx := idx_of_eq (hj.frame x (h.valid.visited x hx))
        refine .inr ⟨x, h.mem_of_lt hx (by omega), ?_, .head hij hpath⟩
        rw [idx_lower, heq]
  · obtain ⟨above, hstack, hedges⟩ := h.stack
    obtain ⟨above', hstack', hedges'⟩ := hj.stack
    refine ⟨above' ++ above, ?_, fun u hu => ?_⟩
    · show c'.mStack = _
      rw [hstack', hstack, List.append_assoc]
    · rcases List.mem_append.mp hu with hu' | hu'
      · obtain ⟨hreach, hlinked⟩ := hedges' u hu'
        exact ⟨fun w hw => (hreach w hw).lower (hlow ▸ min_le_right _ _),
          .head hij hlinked.1, hlinked.lower.2⟩
      · obtain ⟨hreach, hlinked⟩ := hedges u hu'
        refine ⟨fun w hw => hreached (hreach w hw), (hj.linked h.valid ?_ hlinked).lower⟩
        rw [hstack]
        exact List.mem_append_left _ hu'
  · rintro w (hw | rfl)
    · exact hreached (h.done w hw)
    · rcases hj.valid.popped_or (visited_of_index hj.index) with hpopped | hmem
      · exact .inl ((popped_lower w _).mpr hpopped)
      · refine .inr ⟨hmem, ?_⟩
        have hidx := idx_of_index hj.index
        have := h.low_le
        rw [idx_lower]
        omega

/-! ## Leaving -/

theorem popUntil_append {above below : List Nat} (hi : i ∉ above) :
    popUntil i (above ++ i :: below) = (above ++ [i], below) := by
  induction above with
  | nil => simp [popUntil]
  | cons j above ih =>
    rw [List.mem_cons, not_or] at hi
    rw [List.cons_append, popUntil, if_neg (Ne.symm hi.1), ih hi.2]
    rfl

/-- The nodes of `seg` are taken off the stack as a component. -/
def take (c : TarjanSCCCalculator) (seg below : List Nat) : TarjanSCCCalculator :=
  { c with
    mNodes := fun j => if j ∈ seg then { c.mNodes j with mOnStack := false } else c.mNodes j
    mStack := below
    mSCCs := c.mSCCs ++ [seg.toFinset] }

section

variable {seg below : List Nat}

theorem take_index (v : Nat) : ((c.take seg below).mNodes v).mIndex = (c.mNodes v).mIndex := by
  unfold take
  dsimp only
  split <;> rfl

theorem idx_take (v : Nat) : (c.take seg below).idx v = c.idx v := by
  unfold idx
  rw [take_index]

theorem low_take (v : Nat) : (c.take seg below).low v = c.low v := by
  unfold low take
  dsimp only
  split <;> rfl

theorem visited_take (v : Nat) : (c.take seg below).Visited v ↔ c.Visited v := by
  unfold Visited
  rw [take_index]

theorem popped_take (hvisited : ∀ v ∈ seg, c.Visited v) (v : Nat) :
    (c.take seg below).Popped v ↔ c.Popped v ∨ v ∈ seg := by
  unfold Popped
  rw [visited_take]
  unfold take
  dsimp only
  split
  · rename_i hv
    exact ⟨fun _ => .inr hv, fun _ => ⟨hvisited v hv, rfl⟩⟩
  · rename_i hv
    exact ⟨Or.inl, fun h => h.resolve_right hv⟩

section

variable (h : Valid successors c) (hedges : ∀ u ∈ seg, ∀ w ∈ successors u, c.Popped w ∨ w ∈ seg)
include h hedges

/-- No path leads out of what has been taken and `seg`. -/
theorem Valid.popped_or_mem {u : Nat} (hu : c.Popped u ∨ u ∈ seg)
    (hpath : Reaches successors u v) : c.Popped v ∨ v ∈ seg := by
  induction hpath with
  | refl => exact hu
  | tail _ hedge ih =>
    exact ih.elim (fun hp => .inl (h.closed _ hp _ hedge)) fun hmem => hedges _ hmem _ hedge

/-- Where every node but `i` has a path down the stack, they all reach `i`. -/
theorem Valid.reaches_root
    (hlinked : ∀ u ∈ seg, u ≠ i → Linked successors c i u) (n : Nat) :
    ∀ u ∈ seg, c.idx u < n → Reaches successors u i := by
  induction n with
  | zero => exact fun u _ hlt => absurd hlt (Nat.not_lt_zero _)
  | succ n ih =>
    intro u hu hlt
    by_cases hi : u = i
    · exact hi ▸ .refl
    · obtain ⟨-, w, hw, hdown, hpath⟩ := hlinked u hu hi
      have hmem := (h.popped_or_mem hedges (.inr hu) hpath).resolve_left (h.not_popped hw)
      exact hpath.trans (ih w hmem (by omega))

theorem Valid.take (hstack : c.mStack = seg ++ below) (hi : i ∈ seg)
    (hconnected : ∀ u ∈ seg, ∀ v ∈ seg, Reaches successors u v) :
    Valid successors (c.take seg below) := by
  have hmem : ∀ v ∈ seg, v ∈ c.mStack := fun v hv => by
    rw [hstack]
    exact List.mem_append_left _ hv
  have hpopped : ∀ v, (c.take seg below).Popped v ↔ c.Popped v ∨ v ∈ seg :=
    popped_take fun v hv => h.visited v (hmem v hv)
  have hnodup := h.nodup
  have hsorted := h.sorted
  rw [hstack] at hnodup hsorted
  have hclosed : ∀ u, (c.take seg below).Popped u → ∀ w ∈ successors u,
      (c.take seg below).Popped w := by
    intro u hu w hw
    rw [hpopped] at hu ⊢
    exact h.popped_or_mem hedges hu (.single hw)
  refine ⟨?_, fun v => ?_, fun v hv => ?_, fun v hv => ?_, hclosed, fun v => ?_, ?_, ?_, ?_⟩
  · exact (List.pairwise_append.mp hsorted).2.1.imp fun hlt => by rwa [idx_take, idx_take]
  · show _ ↔ v ∈ below
    by_cases hv : v ∈ seg
    · have hnode : ((c.take seg below).mNodes v).mOnStack = false := by
        simp [TarjanSCCCalculator.take, hv]
      rw [hnode]
      exact ⟨nofun, fun hb => absurd hb (List.disjoint_of_nodup_append hnodup hv)⟩
    · have hnode : (c.take seg below).mNodes v = c.mNodes v := by
        simp [TarjanSCCCalculator.take, hv]
      rw [hnode, h.onStack v, hstack, List.mem_append]
      exact ⟨fun hmem => hmem.resolve_left hv, Or.inr⟩
  · refine (visited_take v).mpr (h.visited v ?_)
    rw [hstack]
    exact List.mem_append_right _ hv
  · rw [idx_take]
    exact h.bound v ((visited_take v).mp hv)
  · rw [hpopped]
    constructor
    · rintro ⟨s, hs, hv⟩
      rcases List.mem_append.mp hs with hs | hs
      · exact .inl ((h.found v).mp ⟨s, hs, hv⟩)
      · rw [List.mem_singleton.mp hs, List.mem_toFinset] at hv
        exact .inr hv
    · rintro (hv | hv)
      · obtain ⟨s, hs, hv⟩ := (h.found v).mpr hv
        exact ⟨s, List.mem_append_left _ hs, hv⟩
      · exact ⟨seg.toFinset, List.mem_append_right _ List.mem_cons_self, List.mem_toFinset.mpr hv⟩
  · refine List.pairwise_append.mpr ⟨h.disjoint, List.pairwise_singleton _ _, fun s hs t ht => ?_⟩
    rw [List.mem_singleton.mp ht, disjoint_left]
    intro v hv hseg
    exact h.not_popped (hmem v (List.mem_toFinset.mp hseg)) ((h.found v).mp ⟨s, hs, hv⟩)
  · intro s hs u hu v huv hvu
    rcases List.mem_append.mp hs with hs | hs
    · exact h.whole s hs u hu v huv hvu
    · rw [List.mem_singleton.mp hs, List.mem_toFinset] at hu ⊢
      -- if `v` had been taken before, so had `u`
      rcases h.popped_or_mem hedges (.inr hu) huv with hv | hv
      · exact absurd (h.popped_of_reaches hv hvu) (h.not_popped (hmem u hu))
      · exact hv
  · intro s hs
    rcases List.mem_append.mp hs with hs | hs
    · exact h.connected s hs
    · rw [List.mem_singleton.mp hs]
      exact ⟨⟨i, List.mem_toFinset.mpr hi⟩, by simpa only [List.mem_toFinset] using hconnected⟩

end

end

theorem Exploring.leave (h₀ : Valid successors c₀)
    (h : Exploring successors c₀ i (· ∈ successors i) c) :
    Explored successors c₀ i (c.leave i) := by
  obtain ⟨above, hstack, hedges⟩ := h.stack
  have hnodup := h.valid.nodup
  rw [hstack] at hnodup
  have hnot : i ∉ above := fun hmem =>
    List.disjoint_of_nodup_append hnodup hmem List.mem_cons_self
  have hall : ∀ u ∈ above ++ [i], ∀ w ∈ successors u, c.Reached (c.low i) w := by
    intro u hu
    rcases List.mem_append.mp hu with hu | hu
    · exact (hedges u hu).1
    · rw [List.mem_singleton.mp hu]
      exact h.done
  unfold TarjanSCCCalculator.leave
  split
  · rename_i hroot
    have hlow : c.low i = c₀.mIndex := by
      rw [h.index] at hroot
      exact (Option.some.inj hroot).symm
    have hstack' : c.mStack = (above ++ [i]) ++ c₀.mStack := by
      rw [hstack, List.append_assoc]
      rfl
    rw [hstack, popUntil_append hnot]
    -- no edge leads below `i`
    have hinside : ∀ u ∈ above ++ [i], ∀ w ∈ successors u, c.Popped w ∨ w ∈ above ++ [i] := by
      intro u hu w hw
      refine (hall u hu w hw).imp_right fun ⟨hmem, hle⟩ => ?_
      rw [hstack'] at hmem
      refine (List.mem_append.mp hmem).resolve_right fun hbelow => ?_
      have hbound := h₀.bound w (h₀.visited w hbelow)
      rw [← idx_of_eq (h.frame w (h₀.visited w hbelow))] at hbound
      omega
    have hlinked : ∀ u ∈ above ++ [i], u ≠ i → Linked successors c i u := by
      intro u hu hne
      exact (hedges u ((List.mem_append.mp hu).resolve_right (by simpa using hne))).2
    have hvalid : Valid successors (c.take (above ++ [i]) c₀.mStack) := by
      refine h.valid.take (i := i) hinside hstack' (by simp) fun u hu v hv => ?_
      refine (h.valid.reaches_root hinside hlinked _ u hu (Nat.lt_succ_self _)).trans ?_
      by_cases hvi : v = i
      · exact hvi ▸ .refl
      · exact (hlinked v hv hvi).1
    refine ⟨hvalid, fun v hv => ?_, ?_, .inl ⟨?_, rfl⟩, ⟨[], rfl, nofun⟩⟩
    · have hv' : v ∉ above ++ [i] := by
        intro hmem
        have hon : (c₀.mNodes v).mOnStack = true := by
          rw [← h.frame v hv, h.valid.onStack, hstack']
          exact List.mem_append_left _ hmem
        have hnodup := h.valid.nodup
        rw [hstack'] at hnodup
        exact List.disjoint_of_nodup_append hnodup hmem ((h₀.onStack v).mp hon)
      show (if v ∈ above ++ [i] then _ else _) = _
      rw [if_neg hv']
      exact h.frame v hv
    · exact (take_index i).trans h.index
    · exact (low_take i).trans hlow
  · rename_i hroot
    have hne : c.low i ≠ c₀.mIndex := fun heq => hroot (by
      rw [h.index]
      exact congrArg some heq.symm)
    have hlow := h.low_from.resolve_left hne
    refine ⟨h.valid, h.frame, h.index, .inr hlow, above ++ [i], ?_, fun u hu => ⟨hall u hu, ?_⟩⟩
    · rw [hstack, List.append_assoc]
      rfl
    · rcases List.mem_append.mp hu with hu | hu
      · exact (hedges u hu).2
      · obtain ⟨x, hx, heq, hpath⟩ := hlow
        rw [List.mem_singleton.mp hu]
        refine ⟨.refl, x, ?_, ?_, hpath⟩
        · rw [hstack]
          exact List.mem_append_right _ (List.mem_cons_of_mem _ hx)
        · rw [heq, idx_of_index h.index]
          exact lt_of_le_of_ne h.low_le hne

/-! ## The search -/

/-- The nodes that are still to be seen. -/
def unvisited (V : BitSet) (c : TarjanSCCCalculator) : BitSet :=
  V.filter fun v => (c.mNodes v).mIndex = none

variable {V : BitSet}

theorem unvisited_subset (h : ∀ v, c.Visited v → c'.Visited v) :
    unvisited V c' ⊆ unvisited V c := by
  intro v hv
  unfold unvisited at hv ⊢
  rw [mem_filter] at hv ⊢
  refine ⟨hv.1, ?_⟩
  by_contra hne
  exact h v hne hv.2

theorem card_unvisited_lt (h : ∀ v, c.Visited v → c'.Visited v) (hi : i ∈ V)
    (hbefore : ¬c.Visited i) (hafter : c'.Visited i) :
    (unvisited V c').card < (unvisited V c).card := by
  refine card_lt_card ⟨unvisited_subset h, fun hsub => ?_⟩
  have hmem := hsub (mem_filter.mpr ⟨hi, not_not.mp hbefore⟩)
  exact hafter (mem_filter.mp hmem).2

/-- Nothing but nodes of `V` comes in. -/
def Within (V : BitSet) (c : TarjanSCCCalculator) : Prop := ∀ v, c.Visited v → v ∈ V

theorem within_enter (h : Within V c) (hi : i ∈ V) : Within V (c.enter i) := by
  intro v hv
  by_cases heq : v = i
  · exact heq ▸ hi
  · refine h v fun hnone => hv ?_
    rw [enter_ne heq]
    exact hnone

theorem within_lower (h : Within V c) (low : Nat) : Within V (c.lower i low) :=
  fun v hv => h v ((visited_lower v _).mp hv)

theorem within_leave (h : Within V c) : Within V (c.leave i) := by
  intro v hv
  refine h v fun hnone => hv ?_
  unfold leave
  split
  · dsimp only
    split
    · exact hnone
    · exact hnone
  · exact hnone

theorem Explored.visited (h : Explored successors c i c') (v : Nat) (hv : c.Visited v) :
    c'.Visited v :=
  visited_of_eq (h.frame v hv) hv

/-- The loop over the successors, when the calls for nodes that were not seen work. -/
theorem Exploring.foldlM {depth : Nat}
    (hscc : ∀ j c, j ∈ V → Valid successors c → Within V c → ¬c.Visited j →
      (unvisited V c).card ≤ depth →
      ∃ c', scc successors depth j c = some c' ∧ Explored successors c j c' ∧ Within V c')
    (hi : ¬c₀.Visited i) (hsub : successors i ⊆ V) (js : List Nat)
    (hjs : ∀ j ∈ js, j ∈ successors i) :
    ∀ {done c}, Exploring successors c₀ i done c → Within V c → (unvisited V c).card ≤ depth →
      ∃ c', js.foldlM (edge (scc successors depth) i) c = some c'
        ∧ Exploring successors c₀ i (fun w => done w ∨ w ∈ js) c' ∧ Within V c' := by
  induction js with
  | nil =>
    intro done c h hin _
    exact ⟨c, rfl, { h with done := fun w hw => h.done w (by simpa using hw) }, hin⟩
  | cons j js ih =>
    intro done c h hin hdepth
    have hij := hjs j List.mem_cons_self
    obtain ⟨c', hedge, h', hin', hdepth'⟩ : ∃ c', edge (scc successors depth) i c j = some c'
        ∧ Exploring successors c₀ i (fun w => done w ∨ w = j) c' ∧ Within V c'
        ∧ (unvisited V c').card ≤ depth := by
      unfold edge
      cases hindex : (c.mNodes j).mIndex with
      | none =>
        obtain ⟨c', hc', hexplored, hin'⟩ := hscc j c (hsub hij) h.valid hin
          (fun hv => hv hindex) hdepth
        refine ⟨c'.lower i (c'.low j), ?_, h.explored hi hij hexplored, within_lower hin' _, ?_⟩
        · show (scc successors depth j c).bind _ = _
          rw [hc']
          rfl
        · refine (card_le_card (unvisited_subset fun v hv => ?_)).trans hdepth
          exact (visited_lower v _).mpr (hexplored.visited v hv)
      | some index =>
        have hseen := h.seen hi hij hindex
        dsimp only
        split
        · rename_i hon
          rw [if_pos hon] at hseen
          refine ⟨_, rfl, hseen, within_lower hin _,
            (card_le_card (unvisited_subset fun v hv => ?_)).trans hdepth⟩
          exact (visited_lower v _).mpr hv
        · rename_i hoff
          rw [if_neg hoff] at hseen
          exact ⟨c, rfl, hseen, hin, hdepth⟩
    obtain ⟨c'', hrest, h'', hin''⟩ :=
      ih (fun j hj => hjs j (List.mem_cons_of_mem _ hj)) h' hin' hdepth'
    refine ⟨c'', ?_, { h'' with done := fun w hw => h''.done w ?_ }, hin''⟩
    · rw [List.foldlM_cons, hedge]
      exact hrest
    · rcases hw with hw | hw
      · exact .inl (.inl hw)
      · rcases List.mem_cons.mp hw with rfl | hw
        · exact .inl (.inr rfl)
        · exact .inr hw

/-- With as much depth as there are nodes to be seen, the call ends. -/
theorem scc_explored (hclosed : ∀ u ∈ V, successors u ⊆ V) (depth : Nat) :
    ∀ i c, i ∈ V → Valid successors c → Within V c → ¬c.Visited i →
      (unvisited V c).card ≤ depth →
      ∃ c', scc successors depth i c = some c' ∧ Explored successors c i c' ∧ Within V c' := by
  induction depth with
  | zero =>
    intro i c hi _ _ hnot hdepth
    have hmem : i ∈ unvisited V c := mem_filter.mpr ⟨hi, not_not.mp hnot⟩
    rw [card_eq_zero.mp (Nat.le_zero.mp hdepth)] at hmem
    cases hmem
  | succ depth ih =>
    intro i c hi hvalid hin hnot hdepth
    have henter := exploring_enter hvalid hnot
    have hvisited : ∀ v, c.Visited v → (c.enter i).Visited v := fun v hv =>
      visited_of_eq (henter.frame v hv) hv
    have hlt : (unvisited V (c.enter i)).card < (unvisited V c).card :=
      card_unvisited_lt hvisited hi hnot (visited_of_index henter.index)
    obtain ⟨c', hloop, hexploring, hin'⟩ := Exploring.foldlM ih hnot (hclosed i hi)
      (successors i).sort (fun j => (mem_sort _).mp) henter (within_enter hin hi) (by omega)
    refine ⟨c'.leave i, ?_, Exploring.leave hvalid
      { hexploring with
        done := fun w hw => hexploring.done w (.inr ((mem_sort _).mpr hw)) },
      within_leave hin'⟩
    unfold scc
    rw [hloop]
    rfl

theorem valid_init : Valid successors {} where
  sorted := .nil
  onStack _ := ⟨nofun, nofun⟩
  visited := nofun
  bound _ h := absurd rfl h
  closed _ h := absurd rfl h.1
  found _ := ⟨fun ⟨_, hs, _⟩ => absurd hs List.not_mem_nil, fun h => absurd rfl h.1⟩
  disjoint := .nil
  whole := nofun
  connected := nofun

variable (hclosed : ∀ u ∈ Finset.range graphSize, successors u ⊆ Finset.range graphSize)
include hclosed

/-- The body of the loop over all nodes. Between its rounds the stack is empty. -/
theorem visit_spec
    (hi : i < graphSize) (h : Valid successors c) (hin : Within (Finset.range graphSize) c)
    (hstack : c.mStack = []) :
    ∃ c', (if (c.mNodes i).mIndex = none then scc successors graphSize i c else some c) = some c'
      ∧ Valid successors c' ∧ Within (Finset.range graphSize) c' ∧ c'.mStack = []
        ∧ (∀ v, c.Visited v → c'.Visited v)
      ∧ c'.Visited i := by
  by_cases hindex : (c.mNodes i).mIndex = none
  · rw [if_pos hindex]
    have hcard : (unvisited (Finset.range graphSize) c).card ≤ graphSize :=
      (card_filter_le _ _).trans (card_range graphSize).le
    obtain ⟨c', hc', hexplored, hin'⟩ := scc_explored hclosed graphSize i c
      (mem_range.mpr hi) h hin (fun hv => hv hindex) hcard
    refine ⟨c', hc', hexplored.valid, hin', ?_, hexplored.visited, visited_of_index hexplored.index⟩
    rcases hexplored.low_from with ⟨-, heq⟩ | ⟨x, hx, -⟩
    · rw [heq, hstack]
    · rw [hstack] at hx
      cases hx
  · rw [if_neg hindex]
    exact ⟨c, rfl, h, hin, hstack, fun _ h => h, hindex⟩

theorem visitAll_spec (is : List Nat) (his : ∀ i ∈ is, i < graphSize) :
    ∀ {c}, Valid successors c → Within (Finset.range graphSize) c → c.mStack = [] →
      ∃ c', is.foldlM (fun c i => if (c.mNodes i).mIndex = none
          then scc successors graphSize i c else some c) c = some c'
        ∧ Valid successors c' ∧ Within (Finset.range graphSize) c' ∧ c'.mStack = []
        ∧ (∀ v, c.Visited v → c'.Visited v) ∧ ∀ i ∈ is, c'.Visited i := by
  induction is with
  | nil => exact fun {c} h hin hstack => ⟨c, rfl, h, hin, hstack, fun _ h => h, nofun⟩
  | cons i is ih =>
    intro c h hin hstack
    obtain ⟨c₁, hstep, h₁, hin₁, hstack₁, hmono₁, hi₁⟩ :=
      visit_spec hclosed (his i List.mem_cons_self) h hin hstack
    obtain ⟨c₂, hrest, h₂, hin₂, hstack₂, hmono₂, hall₂⟩ :=
      ih (fun i hi => his i (List.mem_cons_of_mem _ hi)) h₁ hin₁ hstack₁
    refine ⟨c₂, ?_, h₂, hin₂, hstack₂, fun v hv => hmono₂ v (hmono₁ v hv), fun j hj => ?_⟩
    · rw [List.foldlM_cons, hstep]
      exact hrest
    · rcases List.mem_cons.mp hj with rfl | hj
      · exact hmono₂ _ hi₁
      · exact hall₂ j hj

theorem calculateSCCs_valid : ∃ c, calculateSCCs graphSize successors = some c
    ∧ Valid successors c ∧ ∀ v, (∃ s ∈ c.mSCCs, v ∈ s) ↔ v < graphSize := by
  obtain ⟨c, hc, hvalid, hin, hstack, -, hall⟩ := visitAll_spec hclosed (List.range graphSize)
    (fun _ => List.mem_range.mp) valid_init (fun _ => absurd rfl) rfl
  refine ⟨c, hc, hvalid, fun v => (hvalid.found v).trans ⟨fun hv => mem_range.mp (hin v hv.1),
    fun hv => ?_⟩⟩
  refine (hvalid.popped_or (hall v (List.mem_range.mpr hv))).resolve_right fun hmem => ?_
  rw [hstack] at hmem
  cases hmem

/-- The search ends, and what it finds is a partition of the nodes, where two nodes are together
iff each can be reached from the other. -/
theorem calculateSCCs_partition : ∃ c, calculateSCCs graphSize successors = some c
    ∧ (∀ s ∈ c.mSCCs, s.Nonempty) ∧ c.mSCCs.Pairwise Disjoint
    ∧ (∀ v, (∃ s ∈ c.mSCCs, v ∈ s) ↔ v < graphSize)
    ∧ ∀ s ∈ c.mSCCs, ∀ u ∈ s, ∀ v,
      v ∈ s ↔ Reaches successors u v ∧ Reaches successors v u := by
  obtain ⟨c, hc, hvalid, hnodes⟩ := calculateSCCs_valid hclosed
  refine ⟨c, hc, fun s hs => (hvalid.connected s hs).1, hvalid.disjoint, hnodes,
    fun s hs u hu v => ⟨fun hv => ?_, fun hpaths => hvalid.whole s hs u hu v hpaths.1 hpaths.2⟩⟩
  obtain ⟨-, hpath⟩ := hvalid.connected s hs
  exact ⟨hpath u hu v hv, hpath v hv u hu⟩

omit hclosed in
/-- Two nodes with all edges between them. -/
theorem calculateSCCs_partition_two : ∃ c, calculateSCCs 2 (fun _ => Finset.range 2) = some c
    ∧ ∀ s ∈ c.mSCCs, ∀ u ∈ s, ∀ v, v ∈ s ↔ Reaches (fun _ => Finset.range 2) u v
      ∧ Reaches (fun _ => Finset.range 2) v u := by
  obtain ⟨c, hc, -, -, -, hiff⟩ : ∃ c, calculateSCCs 2 (fun _ => Finset.range 2) = some c ∧ _ :=
    calculateSCCs_partition fun _ _ => le_rfl
  exact ⟨c, hc, hiff⟩

end

end TarjanSCCCalculator

end KinesisCore

import Mathlib.Algebra.Order.BigOperators.Group.List
import KinesisCore.SignatureChecker

/-!
# What a signature check weighs

`checkSignature` goes through the signers that name the transaction's hash, then
through the signatures for the hash signers, then through the signatures for the
keys, and stops as soon as the total is enough. If every signature verifies for
one signer at most, the answer does not depend on any of these orders: it is
whether the signers that are matched at all weigh enough together.

The envelope has room for twenty signatures, so the 32 bits of the total are
never used up.
-/

namespace KinesisCore.SignatureChecker

open MachineInt List

/-! ## Weights -/

/-- The weight of a signer that counts. -/
def cappedWeight (signer : Signer) : Int := min signer.weight.toNat 255

/-- The weight of the signers that satisfy `p`, together. -/
def weightOf (p : Signer → Bool) (signers : List Signer) : Int :=
  ((signers.filter p).map cappedWeight).sum

variable (signers : List Signer) (signer : Signer)

theorem cappedWeight_nonneg : 0 ≤ cappedWeight signer := by
  unfold cappedWeight
  omega

theorem cappedWeight_le : cappedWeight signer ≤ 255 := by
  unfold cappedWeight
  omega

/-- The weight of a list of signers. -/
def totalOf : Int := (signers.map cappedWeight).sum

@[simp] theorem totalOf_cons (l : List Signer) :
    totalOf (signer :: l) = cappedWeight signer + totalOf l := sum_cons

@[simp] theorem totalOf_append (l l' : List Signer) :
    totalOf (l ++ l') = totalOf l + totalOf l' := by
  simp [totalOf]

theorem totalOf_nonneg : 0 ≤ totalOf signers := by
  refine sum_nonneg fun x hx => ?_
  obtain ⟨signer, -, rfl⟩ := mem_map.mp hx
  exact cappedWeight_nonneg signer

variable {version : UInt32} {needed : Int}

section

variable (hversion : protocolVersionStartsFrom version 10 = true)
include hversion

theorem toInt_weight (signer : Signer) : (weight version signer).toInt = cappedWeight signer := by
  have hlit : (255 : UInt32).toNat = 255 := rfl
  unfold weight cappedWeight
  rw [hversion, Bool.true_and]
  split_ifs with h
  · rw [decide_eq_true_eq, gt_iff_lt, UInt32.lt_iff_toNat_lt] at h
    show (255 : Int) = _
    omega
  · rw [decide_eq_true_eq, gt_iff_lt, UInt32.lt_iff_toNat_lt] at h
    have hvalue : signer.weight.toInt32.toInt = signer.weight.toNat := by
      rw [Int32.toInt, UInt32.toBitVec_toInt32, BitVec.toInt_eq_toNat_bmod, UInt32.toNat_toBitVec]
      exact Int.bmod_eq_of_le (by omega) (by omega)
    omega

/-- Adding a weight to a total that leaves room for it. -/
theorem toInt_add_weight {total : Int32} (signer : Signer)
    (hlow : 0 ≤ total.toInt) (hhigh : total.toInt + 255 < 2 ^ 31) :
    (total + weight version signer).toInt = total.toInt + cappedWeight signer := by
  have hnonneg := cappedWeight_nonneg signer
  have hle := cappedWeight_le signer
  rw [Int32.toInt_add, toInt_weight hversion]
  exact Int.bmod_eq_of_le (by omega) (by omega)

end

/-! ## One pass over the signatures -/

variable (verify : DecoratedSignature → Signer → Bool)

/-- Some signature verifies for the signer. -/
def signedBy (sigs : List DecoratedSignature) (signer : Signer) : Bool :=
  sigs.any (verify · signer)

/-- A signature verifies for one signer at most. -/
def VerifiesOnce (sigs : List DecoratedSignature) (signers : List Signer) : Prop :=
  ∀ sig ∈ sigs, ∀ s ∈ signers, ∀ s' ∈ signers, verify sig s = true → verify sig s' = true → s = s'

/-- What a pass that starts with `total` and counts these signers answers: whether there
is one and the total got high enough; and if not, what the total became. -/
structure Weighed (needed total : Int) (counted : List Signer) (answer : Bool) (total' : Int) :
    Prop where
  answer_iff : answer = true ↔ counted ≠ [] ∧ needed ≤ total + totalOf counted
  total_eq : answer = false → total' = total + totalOf counted

variable {signers l l' : List Signer} {c : SignatureChecker}
  {sigs : List (DecoratedSignature × Bool)} {total total' : Int} {signer : Signer} {answer : Bool}
  {i : Nat}

theorem Weighed.nil : Weighed needed total [] false total where
  answer_iff := ⟨Bool.false_ne_true.elim, fun h => absurd rfl h.1⟩
  total_eq _ := (Int.add_zero _).symm

/-- A signer is counted and that is enough. -/
theorem Weighed.enough (henough : needed ≤ total + cappedWeight signer) :
    Weighed needed total (signer :: l) true total' where
  answer_iff := by
    have := totalOf_nonneg l
    rw [totalOf_cons]
    exact ⟨fun _ => ⟨cons_ne_nil _ _, by omega⟩, fun _ => rfl⟩
  total_eq h := by cases h

/-- A pass that answers ends the check. -/
theorem Weighed.stop (h : Weighed needed total l true total') (l' : List Signer) :
    Weighed needed total (l ++ l') true total' where
  answer_iff := by
    obtain ⟨hne, henough⟩ := h.answer_iff.mp rfl
    have := totalOf_nonneg l'
    rw [totalOf_append]
    exact ⟨fun _ => ⟨append_ne_nil_of_left_ne_nil hne l', by omega⟩, fun _ => rfl⟩
  total_eq hfalse := by cases hfalse

/-- A pass that does not answer hands its total to the next one. -/
theorem Weighed.next {total₁ : Int} (h : Weighed needed total l false total₁)
    (h' : Weighed needed total₁ l' answer total') :
    Weighed needed total (l ++ l') answer total' := by
  have htotal := h.total_eq rfl
  rcases l' with _ | ⟨signer, l'⟩
  · -- nothing new is counted, so the answer is the first pass's
    rw [append_nil]
    cases answer with
    | true => exact absurd rfl (h'.answer_iff.mp rfl).1
    | false =>
      have htotal' := h'.total_eq rfl
      exact ⟨h.answer_iff, fun _ => htotal'.trans (by rw [htotal]; exact Int.add_zero _)⟩
  · refine ⟨?_, fun hfalse => ?_⟩
    · rw [h'.answer_iff, totalOf_append, htotal, Int.add_assoc]
      exact and_congr_left fun _ => by simp
    · rw [h'.total_eq hfalse, htotal, totalOf_append, Int.add_assoc]

/-- A signer is counted, that is not enough, and the rest is weighed on top of it. -/
theorem Weighed.after (h : Weighed needed (total + cappedWeight signer) l answer total')
    (hbelow : total + cappedWeight signer < needed) :
    Weighed needed total (signer :: l) answer total' := by
  have hone : Weighed needed total [signer] false (total + cappedWeight signer) := by
    refine ⟨⟨Bool.false_ne_true.elim, fun ⟨_, henough⟩ => ?_⟩, fun _ => ?_⟩
    · simp [totalOf] at henough
      omega
    · simp [totalOf]
  exact hone.next h

theorem Weighed.perm (h : Weighed needed total l answer total') (hperm : l.Perm l') :
    Weighed needed total l' answer total' := by
  have hsum : totalOf l = totalOf l' := (hperm.map cappedWeight).sum_eq
  have hnil : l = [] ↔ l' = [] := ⟨fun h => (h ▸ hperm).nil_eq.symm, fun h => (h ▸ hperm).eq_nil⟩
  refine ⟨?_, fun hfalse => hsum ▸ h.total_eq hfalse⟩
  rw [h.answer_iff, hsum, ne_eq, hnil]

section

variable {version : UInt32} {needed : Int32} {verify : DecoratedSignature → Signer → Bool}
  {sig : DecoratedSignature} {used : Bool}

theorem verifyAll_none {total : Int32} (hfind : signers.find? (verify sig) = none) :
    verifyAll version needed verify ((sig, used) :: sigs) signers total =
      ((verifyAll version needed verify sigs signers total).1,
        (sig, used) :: (verifyAll version needed verify sigs signers total).2.1,
        (verifyAll version needed verify sigs signers total).2.2) := by
  rw [verifyAll, hfind]

theorem verifyAll_some {total : Int32} (hfind : signers.find? (verify sig) = some signer) :
    verifyAll version needed verify ((sig, used) :: sigs) signers total =
      if total + weight version signer ≥ needed then
        (true, (sig, true) :: sigs, total + weight version signer)
      else
        ((verifyAll version needed verify sigs (signers.eraseP (verify sig))
            (total + weight version signer)).1,
          (sig, true) :: (verifyAll version needed verify sigs (signers.eraseP (verify sig))
            (total + weight version signer)).2.1,
          (verifyAll version needed verify sigs (signers.eraseP (verify sig))
            (total + weight version signer)).2.2) := by
  rw [verifyAll, hfind]

theorem map_fst_verifyAll (sigs : List (DecoratedSignature × Bool)) (signers : List Signer)
    (total : Int32) :
    (verifyAll version needed verify sigs signers total).2.1.map Prod.fst = sigs.map Prod.fst := by
  induction sigs generalizing signers total with
  | nil => rfl
  | cons e sigs ih =>
    obtain ⟨sig, used⟩ := e
    cases hfind : signers.find? (verify sig) with
    | none =>
      rw [verifyAll_none hfind]
      exact congrArg (sig :: ·) (ih signers total)
    | some signer =>
      rw [verifyAll_some hfind]
      split_ifs
      · rfl
      · exact congrArg (sig :: ·) (ih _ _)

/-- The signature found its signer: none of the others is matched by the same
signature. -/
theorem find_split (hnodup : signers.Nodup)
    (hone : ∀ s ∈ signers, ∀ s' ∈ signers, verify sig s = true → verify sig s' = true → s = s')
    (hfind : signers.find? (verify sig) = some signer) :
    signers.Perm (signer :: signers.eraseP (verify sig)) ∧ verify sig signer = true
      ∧ ∀ s ∈ signers.eraseP (verify sig), verify sig s = false := by
  have hperm : signers.Perm (signer :: signers.eraseP (verify sig)) := by
    obtain ⟨hsig, l, l', rfl, hl⟩ := find?_eq_some_iff_append.mp hfind
    rw [eraseP_append_right _ fun b hb => by simpa using hl b hb, eraseP_cons_of_pos hsig]
    exact perm_middle
  have hsig := find?_some hfind
  refine ⟨hperm, hsig, fun s hs => ?_⟩
  by_contra hverify
  have heq := hone s (mem_of_mem_eraseP hs) signer (mem_of_find?_eq_some hfind)
    (Bool.not_eq_false _ ▸ hverify) hsig
  exact (nodup_cons.mp (hperm.nodup_iff.mp hnodup)).1 (heq ▸ hs)

theorem verifyAll_weighed (hversion : protocolVersionStartsFrom version 10 = true)
    (sigs : List (DecoratedSignature × Bool)) :
    ∀ (signers : List Signer) (total : Int32), signers.Nodup →
      VerifiesOnce verify (sigs.map Prod.fst) signers → 0 ≤ total.toInt →
      total.toInt + 255 * sigs.length < 2 ^ 31 →
      Weighed needed.toInt total.toInt (signers.filter (signedBy verify (sigs.map Prod.fst)))
          (verifyAll version needed verify sigs signers total).1
          (verifyAll version needed verify sigs signers total).2.2.toInt
        ∧ (verifyAll version needed verify sigs signers total).2.2.toInt
          ≤ total.toInt + 255 * sigs.length := by
  induction sigs with
  | nil =>
    intro signers total _ _ _ _
    have hnone : signers.filter (signedBy verify []) = [] :=
      filter_eq_nil_iff.mpr fun s _ => Bool.false_ne_true
    refine ⟨?_, le_of_eq (Int.add_zero _).symm⟩
    rw [map_nil, hnone]
    exact .nil
  | cons e sigs ih =>
    obtain ⟨sig, used⟩ := e
    intro signers total hnodup hone hlow hhigh
    have hone' : ∀ l : List Signer, (∀ s ∈ l, s ∈ signers) →
        VerifiesOnce verify (sigs.map Prod.fst) l := fun l hl sig hsig s hs s' hs' =>
      hone sig (mem_cons_of_mem _ hsig) s (hl s hs) s' (hl s' hs')
    -- the signers this signature does not match count as before
    have hsame : ∀ l : List Signer, (∀ s ∈ l, verify sig s = false) →
        l.filter (signedBy verify (((sig, used) :: sigs).map Prod.fst)) =
          l.filter (signedBy verify (sigs.map Prod.fst)) := by
      refine fun l hl => filter_congr fun s hs => ?_
      show (verify sig s || _) = _
      rw [hl s hs]
      rfl
    have hlength : (((sig, used) :: sigs).length : Int) = sigs.length + 1 := by simp
    cases hfind : signers.find? (verify sig) with
    | none =>
      obtain ⟨hweighed, hle⟩ := ih signers total hnodup (hone' signers fun s hs => hs) hlow
        (by omega)
      rw [verifyAll_none hfind,
        hsame signers fun s hs => Bool.eq_false_iff.mpr (find?_eq_none.mp hfind s hs)]
      exact ⟨hweighed, by dsimp only; omega⟩
    | some signer =>
      obtain ⟨hperm, hsig, hrest⟩ := find_split hnodup (hone sig mem_cons_self) hfind
      have hadd := toInt_add_weight hversion signer hlow (by omega)
      have hw := cappedWeight_nonneg signer
      have hw' := cappedWeight_le signer
      have hmatched : signedBy verify (((sig, used) :: sigs).map Prod.fst) signer = true := by
        show (verify sig signer || _) = true
        rw [hsig, Bool.true_or]
      have hcounted := hperm.symm.filter (signedBy verify (((sig, used) :: sigs).map Prod.fst))
      rw [filter_cons_of_pos hmatched, hsame _ hrest] at hcounted
      rw [verifyAll_some hfind]
      split_ifs with henough
      · rw [ge_iff_le, Int32.le_iff_toInt_le, hadd] at henough
        exact ⟨(Weighed.enough henough).perm hcounted, by dsimp only; omega⟩
      · rw [ge_iff_le, Int32.le_iff_toInt_le, hadd, not_le] at henough
        obtain ⟨hweighed, hle⟩ := ih (signers.eraseP (verify sig)) (total + weight version signer)
          (hnodup.sublist eraseP_sublist) (hone' _ fun s => mem_of_mem_eraseP)
          (by omega) (by omega)
        rw [hadd] at hweighed
        exact ⟨(hweighed.after henough).perm hcounted, by dsimp only; omega⟩

end

/-! ## The marks of a pass -/

/-- The signatures that contribute to a pass: those whose signer's weight goes into
the total before the pass ends. -/
def contributing (version : UInt32) (needed : Int32)
    (verify : DecoratedSignature → Signer → Bool) :
    List DecoratedSignature → List Signer → Int32 → List Bool
  | [], _, _ => []
  | sig :: sigs, signers, total =>
    match signers.find? (verify sig) with
    | none => false :: contributing version needed verify sigs signers total
    | some signer =>
      if total + weight version signer ≥ needed then true :: sigs.map fun _ => false
      else
        true :: contributing version needed verify sigs (signers.eraseP (verify sig))
          (total + weight version signer)

/-- Marks together with those that were set before. -/
def mark (sigs : List (DecoratedSignature × Bool)) (marks : List Bool) :
    List (DecoratedSignature × Bool) :=
  List.zipWith (fun e m => (e.1, e.2 || m)) sigs marks

theorem mark_none (sigs : List (DecoratedSignature × Bool)) :
    mark sigs ((sigs.map Prod.fst).map fun _ => false) = sigs := by
  induction sigs with
  | nil => rfl
  | cons e sigs ih =>
    exact cons_eq_cons.mpr ⟨by simp, ih⟩

variable {version : UInt32} {needed : Int32} {verify : DecoratedSignature → Signer → Bool}
  {marks : List Bool}

theorem verifyAll_marks (sigs : List (DecoratedSignature × Bool)) :
    ∀ (signers : List Signer) (total : Int32),
      (verifyAll version needed verify sigs signers total).2.1 =
        mark sigs (contributing version needed verify (sigs.map Prod.fst) signers total) := by
  induction sigs with
  | nil => exact fun _ _ => rfl
  | cons e sigs ih =>
    obtain ⟨sig, used⟩ := e
    intro signers total
    rw [map_cons, contributing]
    cases hfind : signers.find? (verify sig) with
    | none =>
      rw [verifyAll_none hfind]
      exact cons_eq_cons.mpr ⟨by simp, ih signers total⟩
    | some signer =>
      rw [verifyAll_some hfind]
      dsimp only
      split_ifs
      · exact cons_eq_cons.mpr ⟨by simp, (mark_none sigs).symm⟩
      · exact cons_eq_cons.mpr ⟨by simp, ih _ _⟩

theorem length_contributing (sigs : List DecoratedSignature) :
    ∀ (signers : List Signer) (total : Int32),
      (contributing version needed verify sigs signers total).length = sigs.length := by
  induction sigs with
  | nil => exact fun _ _ => rfl
  | cons sig sigs ih =>
    intro signers total
    rw [contributing]
    cases signers.find? (verify sig) with
    | none => exact congrArg Nat.succ (ih _ _)
    | some signer =>
      dsimp only
      split_ifs
      · exact congrArg Nat.succ (length_map _)
      · exact congrArg Nat.succ (ih _ _)

theorem length_mark (hlength : marks.length = sigs.length) :
    (mark sigs marks).length = sigs.length := by
  rw [mark, length_zipWith, hlength, Nat.min_self]

/-- The signature at this place is marked as used. -/
def Marked (sigs : List (DecoratedSignature × Bool)) (i : Nat) : Prop :=
  ∃ sig, sigs[i]? = some (sig, true)

theorem marked_mark (hlength : marks.length = sigs.length)
    (h : Marked sigs i ∨ marks[i]? = some true) : Marked (mark sigs marks) i := by
  rcases h with ⟨sig, hsig⟩ | hm
  · obtain ⟨hi, -⟩ := List.getElem?_eq_some_iff.mp hsig
    refine ⟨sig, ?_⟩
    rw [mark, getElem?_zipWith, hsig, getElem?_eq_getElem (hlength ▸ hi)]
    simp
  · obtain ⟨hi, -⟩ := List.getElem?_eq_some_iff.mp hm
    refine ⟨(sigs[i]).1, ?_⟩
    rw [mark, getElem?_zipWith, hm, getElem?_eq_getElem (hlength ▸ hi)]
    simp

/-- Marks are set one pass after the other, and later ones do not take earlier ones
away. -/
theorem marked_foldl_mark (marks : List (List Bool)) :
    ∀ {sigs : List (DecoratedSignature × Bool)}, (∀ m ∈ marks, m.length = sigs.length) →
      (Marked sigs i ∨ ∃ m ∈ marks, m[i]? = some true) → Marked (marks.foldl mark sigs) i := by
  induction marks with
  | nil =>
    rintro sigs - (h | ⟨m, hm, -⟩)
    · exact h
    · cases hm
  | cons m marks ih =>
    intro sigs hlength h
    have hm := hlength m mem_cons_self
    refine ih (fun m' hm' => ?_) ?_
    · rw [length_mark hm]
      exact hlength m' (mem_cons_of_mem _ hm')
    · rcases h with h | ⟨m', hm', hi⟩
      · exact .inl (marked_mark hm (.inl h))
      · rcases mem_cons.mp hm' with rfl | hm'
        · exact .inl (marked_mark hm (.inr hi))
        · exact .inr ⟨m', hm', hi⟩

/-! ## The signers that name the hash -/

/-- The signer names the transaction's hash. -/
def namesHash (c : SignatureChecker) (signer : Signer) : Bool :=
  signer.key = .preAuthTx c.mContentsHash

theorem preAuthTotal_weighed (hversion : protocolVersionStartsFrom c.mProtocolVersion 10 = true)
    (signers : List Signer) :
    ∀ total : Int32, 0 ≤ total.toInt →
      total.toInt + 255 * (signers.filter c.namesHash).length < 2 ^ 31 →
      Weighed needed.toInt total.toInt (signers.filter c.namesHash)
          (c.preAuthTotal needed signers total).1 (c.preAuthTotal needed signers total).2.toInt
        ∧ (c.preAuthTotal needed signers total).2.toInt
          ≤ total.toInt + 255 * (signers.filter c.namesHash).length := by
  induction signers with
  | nil => exact fun total _ _ => ⟨.nil, le_of_eq (Int.add_zero _).symm⟩
  | cons signer signers ih =>
    intro total hlow hhigh
    unfold preAuthTotal
    by_cases hkey : signer.key = .preAuthTx c.mContentsHash
    · have hnames : c.namesHash signer = true := decide_eq_true hkey
      rw [filter_cons_of_pos hnames, length_cons] at hhigh ⊢
      push_cast at hhigh ⊢
      have hadd := toInt_add_weight hversion signer hlow (by omega)
      have hw := cappedWeight_nonneg signer
      have hw' := cappedWeight_le signer
      split_ifs with henough
      · rw [ge_iff_le, Int32.le_iff_toInt_le, hadd] at henough
        exact ⟨.enough henough, by dsimp only; omega⟩
      · rw [ge_iff_le, Int32.le_iff_toInt_le, hadd, not_le] at henough
        obtain ⟨hweighed, hle⟩ := ih (total + weight c.mProtocolVersion signer) (by omega)
          (by omega)
        rw [hadd] at hweighed
        exact ⟨hweighed.after henough, by omega⟩
    · have hnames : ¬c.namesHash signer = true := by
        unfold namesHash
        rwa [decide_eq_true_eq]
      rw [filter_cons_of_neg hnames] at hhigh ⊢
      rw [if_neg hkey]
      exact ih total hlow hhigh

theorem length_namesHash_le_one (c : SignatureChecker) (hdistinct : (signers.map (·.key)).Nodup) :
    (signers.filter c.namesHash).length ≤ 1 := by
  have hcount := nodup_iff_count_le_one.mp hdistinct (.preAuthTx c.mContentsHash)
  rw [List.count, countP_map] at hcount
  rw [← countP_eq_length_filter]
  exact hcount

/-! ## The whole check -/

section

variable [HashFunction] [PubKeyUtils]

/-- The signatures of the envelope. -/
def signatures (c : SignatureChecker) : List DecoratedSignature := c.mSignatures.map Prod.fst

/-- The signer is matched, by the transaction's hash or by some signature. -/
def matched (c : SignatureChecker) (signer : Signer) : Bool :=
  c.namesHash signer || signedBy c.verifySigner c.signatures signer

/-- A signer is of one of the three kinds, and matched in the pass for that kind. -/
theorem matched_cases (c : SignatureChecker) (signer : Signer) :
    (c.matched signer = c.namesHash signer ∧ isHashX signer = false ∧ isEd25519 signer = false)
      ∨ (c.matched signer = signedBy c.verifySigner c.signatures signer
        ∧ c.namesHash signer = false ∧ isHashX signer = true ∧ isEd25519 signer = false)
      ∨ (c.matched signer = signedBy c.verifySigner c.signatures signer
        ∧ c.namesHash signer = false ∧ isHashX signer = false ∧ isEd25519 signer = true) := by
  obtain ⟨key, weight⟩ := signer
  cases key with
  | ed25519 key => exact .inr (.inr ⟨rfl, rfl, rfl, rfl⟩)
  | hashX hash => exact .inr (.inl ⟨rfl, rfl, rfl, rfl⟩)
  | preAuthTx hash =>
    refine .inl ⟨?_, rfl, rfl⟩
    have hnone : signedBy c.verifySigner c.signatures ⟨.preAuthTx hash, weight⟩ = false :=
      any_eq_false.mpr fun sig _ => Bool.false_ne_true
    rw [matched, hnone, Bool.or_false]

/-- The signers that the three passes count are those that are matched. -/
theorem filter_matched (c : SignatureChecker) (signers : List Signer) :
    (signers.filter c.namesHash
      ++ (signers.filter isHashX).filter (signedBy c.verifySigner c.signatures)
      ++ (signers.filter isEd25519).filter (signedBy c.verifySigner c.signatures)).Perm
      (signers.filter c.matched) := by
  induction signers with
  | nil => exact .refl _
  | cons signer signers ih =>
    have hcons := ih.cons signer
    simp only [filter_cons]
    rcases c.matched_cases signer with ⟨hm, hx, hed⟩ | ⟨hm, hn, hx, hed⟩ | ⟨hm, hn, hx, hed⟩
    · simp only [hm, hx, hed, Bool.false_eq_true, if_false]
      split_ifs
      · exact hcons
      · exact ih
    · simp only [hm, hn, hx, hed, Bool.false_eq_true, if_false, if_true, filter_cons]
      split_ifs
      · exact (perm_middle.append_right _).trans hcons
      · exact ih
    · simp only [hm, hn, hx, hed, Bool.false_eq_true, if_false, if_true, filter_cons]
      split_ifs
      · exact perm_middle.trans hcons
      · exact ih

/-- What the check starts from: a protocol that caps weights, an envelope within
its bound, signers with distinct keys, and no signature that verifies for two
of them. -/
structure Checkable (c : SignatureChecker) (signers : List Signer) : Prop where
  version : protocolVersionStartsFrom c.mProtocolVersion 10 = true
  signatures_le : c.mSignatures.length ≤ 20
  distinct : (signers.map (·.key)).Nodup
  once : ∀ sig ∈ c.signatures, ∀ s ∈ signers, ∀ s' ∈ signers, c.verifySigner sig s = true →
    c.verifySigner sig s' = true → s.key = s'.key

/-- Distinct keys make distinct signers. -/
theorem Checkable.verifiesOnce (h : Checkable c signers) (p : Signer → Bool) :
    VerifiesOnce c.verifySigner c.signatures (signers.filter p) := by
  intro sig hsig s hs s' hs' hv hv'
  have hmem := (mem_filter.mp hs).1
  have hmem' := (mem_filter.mp hs').1
  exact inj_on_of_nodup_map h.distinct hmem hmem' (h.once sig hsig s hmem s' hmem' hv hv')

/-- The three passes of a check, as one total. -/
theorem checkSignature_iff (needed : Int32) (h : Checkable c signers) :
    (c.checkSignature signers needed).1 = true ↔
      (∃ s ∈ signers, c.matched s = true) ∧ needed.toInt ≤ weightOf c.matched signers := by
  have hne : ¬c.mProtocolVersion = 7 := by
    intro h7
    have hversion := h.version
    rw [h7] at hversion
    exact absurd hversion (by decide)
  have hlength := h.signatures_le
  have hone := length_namesHash_le_one c h.distinct
  have hnodup := h.distinct.of_map
  have hzero : (0 : Int32).toInt = 0 := rfl
  -- the answer of the check, whichever pass gave it
  suffices hcheck : ∃ total, Weighed needed.toInt 0
      (signers.filter c.namesHash
        ++ (signers.filter isHashX).filter (signedBy c.verifySigner c.signatures)
        ++ (signers.filter isEd25519).filter (signedBy c.verifySigner c.signatures))
      (c.checkSignature signers needed).1 total by
    obtain ⟨total, hweighed⟩ := hcheck
    rw [(hweighed.perm (c.filter_matched signers)).answer_iff, Int.zero_add]
    refine and_congr_left fun _ => ?_
    rw [ne_eq, filter_eq_nil_iff]
    push Not
    rfl
  unfold checkSignature
  rw [if_neg hne]
  obtain ⟨hpre, hpre_le⟩ : Weighed needed.toInt (0 : Int32).toInt _ _ _ ∧ _ :=
    preAuthTotal_weighed h.version signers 0 (by omega) (by omega)
  have hnames := totalOf_nonneg (signers.filter c.namesHash)
  generalize c.preAuthTotal needed signers 0 = r₁ at hpre hpre_le ⊢
  obtain ⟨_ | _, total₁⟩ := r₁
  swap
  · exact ⟨_, (hpre.stop _).stop _⟩
  have htotal₁ := hpre.total_eq rfl
  dsimp only at hpre_le htotal₁ ⊢
  obtain ⟨hpass, hpass_le⟩ : Weighed needed.toInt total₁.toInt _ _ _ ∧ _ :=
    verifyAll_weighed h.version c.mSignatures (signers.filter isHashX) total₁ (hnodup.filter _)
      (h.verifiesOnce isHashX) (by omega) (by omega)
  have hsigs : (verifyAll c.mProtocolVersion needed c.verifySigner c.mSignatures
      (signers.filter isHashX) total₁).2.1.map Prod.fst = c.signatures :=
    map_fst_verifyAll c.mSignatures (signers.filter isHashX) total₁
  have hhash := totalOf_nonneg
    ((signers.filter isHashX).filter (signedBy c.verifySigner (c.mSignatures.map Prod.fst)))
  generalize verifyAll c.mProtocolVersion needed c.verifySigner c.mSignatures
    (signers.filter isHashX) total₁ = r₂ at hpass hpass_le hsigs ⊢
  obtain ⟨_ | _, sigs, total₂⟩ := r₂
  swap
  · exact ⟨_, (hpre.next hpass).stop _⟩
  have htotal₂ := hpass.total_eq rfl
  dsimp only at hpass_le hsigs htotal₂ ⊢
  have hlength₂ : sigs.length ≤ 20 := by
    rw [← length_map Prod.fst, hsigs, signatures, length_map]
    exact hlength
  have honce := h.verifiesOnce isEd25519
  rw [← hsigs] at honce
  -- the checker is the same but for the marks
  obtain ⟨hlast, -⟩ : Weighed needed.toInt total₂.toInt _ _ _ ∧ _ :=
    verifyAll_weighed h.version sigs (signers.filter isEd25519) total₂ (hnodup.filter _) honce
      (by omega) (by omega)
  rw [hsigs] at hlast
  exact ⟨_, (hpre.next hpass).next hlast⟩

/-- The signatures that contribute to a check, pass by pass. -/
def contributions (c : SignatureChecker) (signers : List Signer) (needed : Int32) :
    List (List Bool) :=
  if c.mProtocolVersion = 7 then []
  else
    let (enough, total₁) := c.preAuthTotal needed signers 0
    if enough then []
    else
      let (verified, _, total₂) := verifyAll c.mProtocolVersion needed c.verifySigner
        c.mSignatures (signers.filter isHashX) total₁
      let inHashX := contributing c.mProtocolVersion needed c.verifySigner c.signatures
        (signers.filter isHashX) total₁
      if verified then [inHashX]
      else [inHashX, contributing c.mProtocolVersion needed c.verifySigner c.signatures
        (signers.filter isEd25519) total₂]

/-- A check marks what contributes to it and nothing else. -/
theorem checkSignature_marks (c : SignatureChecker) (signers : List Signer) (needed : Int32) :
    (c.checkSignature signers needed).2 =
      { c with mSignatures := (c.contributions signers needed).foldl mark c.mSignatures } := by
  unfold checkSignature contributions
  by_cases h7 : c.mProtocolVersion = 7
  · rw [if_pos h7, if_pos h7]
    rfl
  rw [if_neg h7, if_neg h7]
  cases c.preAuthTotal needed signers 0 with
  | mk enough total₁ =>
    cases enough with
    | true => rfl
    | false =>
      simp only [Bool.false_eq_true, if_false]
      have hmarks := @verifyAll_marks c.mProtocolVersion needed c.verifySigner c.mSignatures
        (signers.filter isHashX) total₁
      have hfst := @map_fst_verifyAll c.mProtocolVersion needed c.verifySigner c.mSignatures
        (signers.filter isHashX) total₁
      revert hmarks hfst
      cases verifyAll c.mProtocolVersion needed c.verifySigner c.mSignatures
        (signers.filter isHashX) total₁ with
      | mk verified rest =>
        obtain ⟨sigs, total₂⟩ := rest
        intro hmarks hfst
        cases verified with
        | true => exact congrArg (fun sigs => { c with mSignatures := sigs }) hmarks
        | false =>
          have hlast := @verifyAll_marks c.mProtocolVersion needed c.verifySigner sigs
            (signers.filter isEd25519) total₂
          dsimp only at hmarks hfst
          rw [hfst] at hlast
          refine congrArg (fun sigs => { c with mSignatures := sigs }) (hlast.trans ?_)
          rw [hmarks]
          rfl

variable {needed : Int32} {m : List Bool} {signers' : List Signer}

theorem length_of_mem_contributions
    (hm : m ∈ c.contributions signers needed) : m.length = c.mSignatures.length := by
  have hlength : c.signatures.length = c.mSignatures.length := length_map _
  unfold contributions at hm
  split_ifs at hm
  · cases hm
  · dsimp only at hm
    split_ifs at hm
    · cases hm
    · rw [mem_singleton] at hm
      rw [hm, length_contributing, hlength]
    · rw [mem_pair] at hm
      rcases hm with rfl | rfl <;> rw [length_contributing, hlength]

/-- Calls of `checkSignature` one after the other, with one set of marks. -/
def checkSignatures (c : SignatureChecker) (calls : List (List Signer × Int32)) :
    SignatureChecker :=
  calls.foldl (fun c call => (c.checkSignature call.1 call.2).2) c

theorem checkSignatures_marked (calls : List (List Signer × Int32)) :
    ∀ {c : SignatureChecker}, Marked c.mSignatures i →
      Marked (c.checkSignatures calls).mSignatures i := by
  induction calls with
  | nil => exact fun h => h
  | cons call calls ih =>
    intro c h
    refine ih ?_
    show Marked (c.checkSignature call.1 call.2).2.mSignatures i
    rw [checkSignature_marks]
    exact marked_foldl_mark _ (fun m => length_of_mem_contributions) (.inl h)

theorem contribution_marked (hm : m ∈ c.contributions signers needed) (hi : m[i]? = some true)
    (calls : List (List Signer × Int32)) :
    Marked ((c.checkSignature signers needed).2.checkSignatures calls).mSignatures i := by
  refine checkSignatures_marked calls ?_
  rw [checkSignature_marks]
  exact marked_foldl_mark _ (fun m => length_of_mem_contributions) (.inr ⟨m, hm, hi⟩)

/-! ## Orders and repetitions -/

omit [HashFunction] [PubKeyUtils] in
theorem weightOf_perm (p : Signer → Bool) (h : l.Perm l') : weightOf p l = weightOf p l' :=
  ((h.filter p).map cappedWeight).sum_eq

/-- Two envelopes of one transaction that carry the same signatures, in any order
and any number of times. -/
structure SameSignatures (c c' : SignatureChecker) : Prop where
  version : c'.mProtocolVersion = c.mProtocolVersion
  hash : c'.mContentsHash = c.mContentsHash
  mem_iff : ∀ sig, sig ∈ c'.signatures ↔ sig ∈ c.signatures

variable {c' : SignatureChecker}

section

variable (h : SameSignatures c c')
include h

theorem SameSignatures.verifySigner : c'.verifySigner = c.verifySigner := by
  funext sig signer
  unfold SignatureChecker.verifySigner
  rw [h.hash]

theorem SameSignatures.matched : c'.matched = c.matched := by
  funext signer
  have hsigned : signedBy c.verifySigner c'.signatures signer =
      signedBy c.verifySigner c.signatures signer := by
    rw [Bool.eq_iff_iff, signedBy, signedBy, any_eq_true, any_eq_true]
    exact exists_congr fun sig => and_congr_left fun _ => h.mem_iff sig
  unfold SignatureChecker.matched namesHash
  rw [h.verifySigner, h.hash, hsigned]

theorem SameSignatures.checkable
    (hsigners : signers'.Perm signers) (hlength : c'.mSignatures.length ≤ 20)
    (hc : Checkable c signers) :
    Checkable c' signers' where
  version := h.version ▸ hc.version
  signatures_le := hlength
  distinct := (hsigners.map _).nodup_iff.mpr hc.distinct
  once sig hsig s hs s' hs' := by
    rw [h.verifySigner]
    exact hc.once sig ((h.mem_iff sig).mp hsig) s (hsigners.mem_iff.mp hs) s'
      (hsigners.mem_iff.mp hs')

end

theorem checkSignature_same (needed : Int32) (hc : Checkable c signers)
    (h : SameSignatures c c') (hlength : c'.mSignatures.length ≤ 20)
    (hsigners : signers'.Perm signers) :
    (c'.checkSignature signers' needed).1 = (c.checkSignature signers needed).1 := by
  rw [Bool.eq_iff_iff, checkSignature_iff needed (h.checkable hsigners hlength hc),
    checkSignature_iff needed hc, h.matched, weightOf_perm c.matched hsigners]
  refine and_congr_left fun _ => exists_congr fun s => and_congr_left fun _ => hsigners.mem_iff

/-- The check weighs the signers that are matched, whatever the orders and the
repetitions of signatures and signers, and every signature whose signer was counted
stays marked through all the checks that follow. -/
theorem checkSignature_exact {c : SignatureChecker} {signers : List Signer}
    (h : Checkable c signers) (needed : Int32) :
    ((c.checkSignature signers needed).1 = true ↔
      (∃ s ∈ signers, c.matched s = true) ∧ needed.toInt ≤ weightOf c.matched signers)
      ∧ (∀ c' signers', SameSignatures c c' → c'.mSignatures.length ≤ 20 →
        signers'.Perm signers →
        (c'.checkSignature signers' needed).1 = (c.checkSignature signers needed).1)
      ∧ ∀ m ∈ c.contributions signers needed, ∀ i, m[i]? = some true → ∀ calls,
        Marked ((c.checkSignature signers needed).2.checkSignatures calls).mSignatures i :=
  ⟨checkSignature_iff needed h,
    fun _ _ => checkSignature_same needed h,
    fun _ hm _ => contribution_marked hm⟩

end

/-- Two keys of weight one, and an envelope that both have signed. -/
def twoSigners : List Signer := [⟨.ed25519 1, 1⟩, ⟨.ed25519 2, 1⟩]

def signedByTwo : SignatureChecker := .make 10 0 [⟨2, []⟩, ⟨1, []⟩]

open Evaluation

theorem checkSignature_exact_two :
    Checkable signedByTwo twoSigners ∧ (signedByTwo.checkSignature twoSigners 2).1 = true
      ∧ (signedByTwo.checkSignature twoSigners.reverse 2).1 = true := by
  have hcheckable : Checkable signedByTwo twoSigners := ⟨by decide, by decide, by decide, by decide⟩
  obtain ⟨hiff, hsame, -⟩ := checkSignature_exact hcheckable 2
  have hanswer := hiff.mpr (by decide)
  refine ⟨hcheckable, hanswer, ?_⟩
  rw [hsame signedByTwo twoSigners.reverse ⟨rfl, rfl, fun _ => Iff.rfl⟩ (by decide)
    (reverse_perm _)]
  exact hanswer

end KinesisCore.SignatureChecker

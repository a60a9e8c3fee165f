import Mathlib.Order.Bounds.Basic
import KinesisCore.LedgerHeader

/-!
# The skip list of a ledger header (`BucketManagerImpl::calculateSkipValues`)

A header keeps four hashes of earlier bucket lists. Each slot is refreshed at a period of its
own, and with what the slot before it holds at that time.
-/

namespace KinesisCore

/-- The fields of a header that the calculation reads and writes. -/
structure SkipHeader where
  ledgerSeq : UInt32
  bucketListHash : Hash
  skipList : Vector Hash 4

namespace BucketManagerImpl

def SKIP_1 : UInt32 := 50
def SKIP_2 : UInt32 := 5000
def SKIP_3 : UInt32 := 50000
def SKIP_4 : UInt32 := 500000

/-- The test made of each difference; as an `int` it can be negative. -/
abbrev Due (v skip : UInt32) : Prop := v.toInt32 > 0 ∧ v.toInt32 % skip.toInt32 = 0

def calculateSkipValues (currentHeader : SkipHeader) : SkipHeader :=
  let seq := currentHeader.ledgerSeq
  let l := currentHeader.skipList
  if seq % SKIP_1 = 0 then
    let l :=
      if Due (seq - SKIP_1) SKIP_2 then
        let l :=
          if Due (seq - SKIP_2 - SKIP_1) SKIP_3 then
            let l := if Due (seq - SKIP_3 - SKIP_2 - SKIP_1) SKIP_4 then l.set 3 l[2] else l
            l.set 2 l[1]
          else l
        l.set 1 l[0]
      else l
    { currentHeader with skipList := l.set 0 currentHeader.bucketListHash }
  else currentHeader

/-- The header of ledger `n`, when the values are calculated at each of the ledgers `1` to `n`
and the hash of the bucket list there is given. -/
def headerAt (hashes : Nat → Hash) : Nat → SkipHeader
  | 0 => ⟨0, 0, Vector.replicate 4 0⟩
  | n + 1 => calculateSkipValues ⟨.ofNat (n + 1), hashes (n + 1), (headerAt hashes n).skipList⟩

/-! ## What one ledger does -/

/-- A slot with this offset and period is refreshed at ledger `seq`. -/
def Refreshed (offset period seq : Nat) : Prop := offset < seq ∧ period ∣ seq - offset

instance {offset period seq : Nat} : Decidable (Refreshed offset period seq) :=
  inferInstanceAs (Decidable (_ ∧ _))

theorem due_iff {v skip s : UInt32} {seq : Nat} (offset : UInt32) (hv : v + offset = s)
    (hs : s.toNat = seq) (hseq : seq < 2 ^ 31) (hoffset : offset.toNat < 2 ^ 31)
    (hskip : skip.toNat < 2 ^ 31) : Due v skip ↔ Refreshed offset.toNat skip.toNat seq := by
  have htoInt (x : UInt32) :
      x.toInt32.toInt = if 2 * x.toNat < 2 ^ 32 then (x.toNat : Int) else x.toNat - 2 ^ 32 :=
    BitVec.toInt_eq_toNat_cond x.toBitVec
  rw [← hv, UInt32.toNat_add] at hs
  rw [Due, gt_iff_lt, Int32.lt_iff_toInt_lt, ← Int32.toInt_inj, Int32.toInt_mod, htoInt,
    htoInt skip,
    if_pos (by omega : 2 * skip.toNat < 2 ^ 32), Int32.toInt_zero, Refreshed]
  rcases lt_or_ge v.toNat (2 ^ 31) with hlt | hge
  · have hdiff : v.toNat = seq - offset.toNat := by omega
    rw [if_pos (by omega), ← Int.ofNat_tmod, Int.natCast_eq_zero, ← Nat.dvd_iff_mod_eq_zero, hdiff]
    exact and_congr_left fun _ => by omega
  · -- the difference wraps around, and as an `int` it is negative
    have := v.toNat_lt
    omega

/-- A slot is refreshed only where the slots before it are refreshed too. -/
theorem skipList_calculateSkipValues (h : SkipHeader) {seq : Nat} (hseq : h.ledgerSeq.toNat = seq)
    (hpos : 0 < seq) (hlt : seq < 2 ^ 31) : (calculateSkipValues h).skipList =
      #v[if Refreshed 0 50 seq then h.bucketListHash else h.skipList[0],
        if Refreshed 50 5000 seq then h.skipList[0] else h.skipList[1],
        if Refreshed 5050 50000 seq then h.skipList[1] else h.skipList[2],
        if Refreshed 55050 500000 seq then h.skipList[2] else h.skipList[3]] := by
  have h0 : h.ledgerSeq % SKIP_1 = 0 ↔ Refreshed 0 50 seq := by
    rw [← UInt32.toNat_inj, UInt32.toNat_mod, UInt32.toNat_zero, ← Nat.dvd_iff_mod_eq_zero, hseq]
    exact (and_iff_right hpos).symm
  have h1 : Due (h.ledgerSeq - SKIP_1) SKIP_2 ↔ Refreshed 50 5000 seq :=
    due_iff SKIP_1 (by grind) hseq hlt (by decide) (by decide)
  have h2 : Due (h.ledgerSeq - SKIP_2 - SKIP_1) SKIP_3 ↔ Refreshed 5050 50000 seq :=
    due_iff (SKIP_2 + SKIP_1) (by grind) hseq hlt (by decide) (by decide)
  have h3 : Due (h.ledgerSeq - SKIP_3 - SKIP_2 - SKIP_1) SKIP_4 ↔ Refreshed 55050 500000 seq :=
    due_iff (SKIP_3 + SKIP_2 + SKIP_1) (by grind) hseq hlt (by decide) (by decide)
  have h32 : Refreshed 55050 500000 seq → Refreshed 5050 50000 seq := by
    unfold Refreshed
    omega
  have h21 : Refreshed 5050 50000 seq → Refreshed 50 5000 seq := by
    unfold Refreshed
    omega
  have h10 : Refreshed 50 5000 seq → Refreshed 0 50 seq := by
    unfold Refreshed
    omega
  unfold calculateSkipValues
  simp only [h0, h1, h2, h3]
  ext i hi
  match i, hi with
  | 0, _ | 1, _ | 2, _ | 3, _ => split_ifs <;> simp_all

/-! ## What stands in a slot -/

section Slots

variable {hashes : Nat → Hash} {period offset n m : Nat} {x y : Hash}

/-- The ledgers that a slot can have been refreshed with by ledger `n`. -/
def milestones (period offset n : Nat) : Set Nat := {m | 0 < m ∧ period ∣ m ∧ m + offset ≤ n}

/-- The hash at the last of them, and zero while there is none. -/
def IsLatest (hashes : Nat → Hash) (period offset n : Nat) (hash : Hash) : Prop :=
  (∃ m, IsGreatest (milestones period offset n) m ∧ hash = hashes m)
    ∨ milestones period offset n = ∅ ∧ hash = 0

theorem IsLatest.keep (h : IsLatest hashes period offset n x)
    (hno : ¬Refreshed offset period (n + 1)) : IsLatest hashes period offset (n + 1) x := by
  have hsame : milestones period offset (n + 1) = milestones period offset n := by
    ext m
    refine and_congr_right fun hpos => and_congr_right fun hdvd =>
      ⟨fun hle => ?_, Nat.le_succ_of_le⟩
    refine Nat.le_of_lt_succ (hle.lt_of_ne fun heq => hno ⟨by omega, ?_⟩)
    rwa [← heq, Nat.add_sub_cancel]
  unfold IsLatest
  rwa [hsame]

theorem isLatest_refreshed (h : Refreshed offset period (n + 1)) :
    IsLatest hashes period offset (n + 1) (hashes (n + 1 - offset)) := by
  obtain ⟨hlt, hdvd⟩ := h
  refine .inl ⟨_, ⟨⟨by omega, hdvd, by omega⟩, ?_⟩, rfl⟩
  rintro m ⟨-, -, hle⟩
  omega

/-- A slot that is refreshed takes what the slot before has held for a whole period. -/
theorem IsLatest.eq_of_next (h : IsLatest hashes period offset n x) (hperiod : 0 < period)
    (hpos : 0 < m) (hdvd : period ∣ m) (hm : m + offset + period = n + 1) : x = hashes m := by
  have hmem : m ∈ milestones period offset n := ⟨hpos, hdvd, by omega⟩
  rcases h with ⟨k, ⟨⟨-, hk, hle⟩, hgreatest⟩, rfl⟩ | ⟨hempty, -⟩
  · have hkm : m ≤ k := hgreatest hmem
    rcases hkm.eq_or_lt with rfl | hlt
    · rfl
    · have := Nat.le_of_dvd (Nat.sub_pos_of_lt hlt) (Nat.dvd_sub hk hdvd)
      omega
  · rw [hempty] at hmem
    exact hmem.elim

/-- One ledger, for a slot and the slot that feeds it. -/
theorem IsLatest.next {period' : Nat} (hx : IsLatest hashes period offset n x)
    (hperiod : 0 < period) (hdvd : period ∣ period')
    (hy : IsLatest hashes period' (offset + period) n y) :
    IsLatest hashes period' (offset + period) (n + 1)
      (if Refreshed (offset + period) period' (n + 1) then x else y) := by
  split_ifs with h
  · obtain ⟨hlt, hm⟩ := h
    rw [hx.eq_of_next hperiod (Nat.sub_pos_of_lt hlt) (Nat.dvd_trans hdvd hm) (by omega)]
    exact isLatest_refreshed ⟨hlt, hm⟩
  · exact hy.keep h

end Slots

/-- The slots of ledger `n` hold the hashes at the last multiples of their periods that lie as
far back as the periods of the slots before add up to. -/
def ClosedForm (hashes : Nat → Hash) (n : Nat) (skipList : Vector Hash 4) : Prop :=
  IsLatest hashes 50 0 n skipList[0] ∧ IsLatest hashes 5000 50 n skipList[1]
    ∧ IsLatest hashes 50000 5050 n skipList[2] ∧ IsLatest hashes 500000 55050 n skipList[3]

theorem skipList_headerAt (hashes : Nat → Hash) {n : Nat} (hn : n < 2 ^ 31) :
    ClosedForm hashes n (headerAt hashes n).skipList := by
  induction n with
  | zero =>
    have hnone (period offset : Nat) : IsLatest hashes period offset 0 0 := by
      refine .inr ⟨Set.eq_empty_of_forall_notMem ?_, rfl⟩
      rintro m ⟨hpos, -, hle⟩
      omega
    exact ⟨hnone _ _, hnone _ _, hnone _ _, hnone _ _⟩
  | succ n ih =>
    obtain ⟨h0, h1, h2, h3⟩ := ih (by omega)
    rw [headerAt, skipList_calculateSkipValues _ (Nat.mod_eq_of_lt (by omega)) n.succ_pos hn]
    refine ⟨?_, h0.next (by decide) (by decide) h1, h1.next (by decide) (by decide) h2,
      h2.next (by decide) (by decide) h3⟩
    show IsLatest hashes 50 0 (n + 1) (if Refreshed 0 50 (n + 1) then hashes (n + 1) else _)
    split_ifs with h
    · exact isLatest_refreshed h
    · exact h0.keep h

theorem skipList_headerAt_two_slots :
    ClosedForm (BitVec.ofNat 256) 5050 (headerAt (BitVec.ofNat 256) 5050).skipList :=
  skipList_headerAt _ (by decide)

end BucketManagerImpl

end KinesisCore

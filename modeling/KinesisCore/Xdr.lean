import Mathlib.Algebra.Group.Nat.Defs
import Mathlib.Tactic.Common

/-!
# XDR codecs that carry their round trip

A codec is a writer, a reader and the set of values it can carry, with
two laws as fields: what is written reads back (`get_put`), and whatever
the reader accepts is a value the codec can carry (`fits_of_get`). The
combinators below build the codecs of structures, unions, opaque data
and bounded vectors from the codec of a big-endian number, and discharge
the laws once each, so a message format is declared and never proved.

Writing does not look at a vector's bound; reading does. A value with
too many elements is therefore written without complaint and refused by
every reader, which is why the round trip is stated for `Fits` values
only.
-/

namespace Xdr

open List
open Option (bind_eq_bind bind_some bind_eq_some_iff)

abbrev Bytes := List UInt8

structure Codec (α : Type) where
  put : α → Bytes
  get : Bytes → Option (α × Bytes)
  Fits : α → Prop
  get_put : ∀ {a : α} (rest : Bytes), Fits a → get (put a ++ rest) = some (a, rest)
  fits_of_get : ∀ {bs rest : Bytes} {a : α}, get bs = some (a, rest) → Fits a

namespace Codec

variable {α β τ : Type}

/-! ## Whole messages -/

variable (n : Nat) (len : Nat) (c : Codec α) (a : α) (bs : Bytes) (bound : Nat)

def toOpaque : Bytes := c.put a

/-- Reading a whole message: leftover bytes are an error. -/
def fromOpaque : Option α :=
  match c.get bs with
  | some (a, []) => some a
  | _ => none

theorem fromOpaque_toOpaque {a : α} (h : c.Fits a) : c.fromOpaque (c.toOpaque a) = some a := by
  have hget := c.get_put [] h
  rw [append_nil] at hget
  simp only [fromOpaque, toOpaque, hget]

theorem filterMap_fromOpaque (h : ∀ a, c.Fits a) (l : List α) :
    (l.map c.toOpaque).filterMap c.fromOpaque = l := by
  induction l with
  | nil => rfl
  | cons a l ih => rw [map_cons, filterMap_cons, c.fromOpaque_toOpaque (h a), ih]

theorem fits_of_fromOpaque {bs : Bytes} {a : α} (h : c.fromOpaque bs = some a) : c.Fits a := by
  unfold fromOpaque at h
  split at h
  · cases h
    exact c.fits_of_get ‹_›
  · exact absurd h (by simp)

/-! ## Big-endian numbers -/

def putBE : Nat → Nat → Bytes
  | 0, _ => []
  | n + 1, x => UInt8.ofNat (x / 256 ^ n) :: putBE n x

def getBE : Nat → Bytes → Option (Nat × Bytes)
  | 0, bs => some (0, bs)
  | _ + 1, [] => none
  | n + 1, b :: bs => do
    let (x, rest) ← getBE n bs
    return (b.toNat * 256 ^ n + x, rest)

/-- Reading `n` bytes back gives the number modulo `256 ^ n`: the top
byte is cut to eight bits, the bytes below it are the recursive call. -/
theorem getBE_putBE : ∀ n x rest, getBE n (putBE n x ++ rest) = some (x % 256 ^ n, rest)
  | 0, x, rest => by simp [putBE, getBE, Nat.mod_one]
  | n + 1, x, rest => by
    have htop : (UInt8.ofNat (x / 256 ^ n)).toNat = x / 256 ^ n % 256 := by simp
    have hsplit : x % 256 ^ (n + 1) = x / 256 ^ n % 256 * 256 ^ n + x % 256 ^ n := by
      rw [Nat.pow_succ, Nat.mod_mul, Nat.mul_comm (256 ^ n), Nat.add_comm]
    simp only [putBE, cons_append, getBE, getBE_putBE n x rest, htop, hsplit,
      bind_eq_bind, bind_some, Option.pure_def]

theorem getBE_lt : ∀ n {bs rest x}, getBE n bs = some (x, rest) → x < 256 ^ n
  | 0, bs, rest, x, h => by
    simp only [getBE, Option.some.injEq, Prod.mk.injEq] at h
    omega
  | _ + 1, [], _, _, h => by simp [getBE] at h
  | n + 1, b :: bs, rest, x, h => by
    simp only [getBE, bind_eq_bind, bind_eq_some_iff, Option.pure_def,
      Option.some.injEq, Prod.mk.injEq] at h
    obtain ⟨⟨y, r⟩, hy, rfl, -⟩ := h
    have hlt := getBE_lt n hy
    have hb : b.toNat + 1 ≤ 256 := b.toNat_lt
    calc b.toNat * 256 ^ n + y < (b.toNat + 1) * 256 ^ n := by rw [Nat.add_mul]; omega
      _ ≤ 256 * 256 ^ n := Nat.mul_le_mul_right _ hb
      _ = 256 ^ (n + 1) := by rw [Nat.pow_succ, Nat.mul_comm]

/-- An unsigned number of `n` bytes. -/
def bigEndian : Codec Nat where
  put := putBE n
  get := getBE n
  Fits x := x < 256 ^ n
  get_put rest h := by rw [getBE_putBE, Nat.mod_eq_of_lt h]
  fits_of_get := getBE_lt n

/-! ## Combinators -/

/-- One side of a union, or a wrapper: the values `c` can carry under the
injection `f`, whose partial inverse is `g`. -/
def inj (f : α → β) (g : β → Option α)
    (hgf : ∀ {a}, c.Fits a → g (f a) = some a) (hfg : ∀ {b a}, g b = some a → f a = b) :
    Codec β where
  put b := ((g b).map c.put).getD []
  get bs := (c.get bs).map fun (a, rest) => (f a, rest)
  Fits b := ∃ a, g b = some a ∧ c.Fits a
  get_put rest h := by
    obtain ⟨a, ha, hfit⟩ := h
    simp only [ha, Option.map_some, Option.getD_some, c.get_put rest hfit, hfg ha]
  fits_of_get h := by
    simp only [Option.map_eq_some_iff, Prod.mk.injEq] at h
    obtain ⟨⟨a, rest⟩, hget, rfl, rfl⟩ := h
    exact ⟨a, hgf (c.fits_of_get hget), c.fits_of_get hget⟩

/-- The codec that carries no value: the body of an unknown discriminant. -/
def fail : Codec α where
  put _ := []
  get _ := none
  Fits _ := False
  get_put _ h := h.elim
  fits_of_get h := absurd h (by simp)

/-- A `void` body, for the single value `a`. -/
def void : Codec α where
  put _ := []
  get bs := some (a, bs)
  Fits b := b = a
  get_put rest h := by rw [h]; rfl
  fits_of_get h := (Prod.mk.inj (Option.some.inj h)).1.symm

/-- Two fields one after the other. -/
def pair (d : Codec β) : Codec (α × β) where
  put p := c.put p.1 ++ d.put p.2
  get bs := do
    let (a, bs) ← c.get bs
    let (b, bs) ← d.get bs
    return ((a, b), bs)
  Fits p := c.Fits p.1 ∧ d.Fits p.2
  get_put rest h := by
    simp only [List.append_assoc, c.get_put _ h.1, d.get_put _ h.2, bind_eq_bind,
      bind_some, Option.pure_def]
  fits_of_get h := by
    simp only [bind_eq_bind, bind_eq_some_iff, Option.pure_def, Option.some.injEq,
      Prod.mk.injEq, Prod.exists] at h
    obtain ⟨a, r, ha, b, r', hb, rfl, rfl⟩ := h
    exact ⟨c.fits_of_get ha, d.fits_of_get hb⟩

/-- A union: a discriminant, then the body it selects. `htag` says that
each body only carries values of its own discriminant. -/
def union (c : Codec τ) (tag : α → τ) (body : τ → Codec α)
    (htag : ∀ {t a}, (body t).Fits a → tag a = t) : Codec α where
  put a := c.put (tag a) ++ (body (tag a)).put a
  get bs := do
    let (t, bs) ← c.get bs
    (body t).get bs
  Fits a := c.Fits (tag a) ∧ (body (tag a)).Fits a
  get_put rest h := by
    simp only [List.append_assoc, c.get_put _ h.1, (body _).get_put _ h.2, bind_eq_bind,
      bind_some]
  fits_of_get h := by
    simp only [bind_eq_bind, bind_eq_some_iff, Prod.exists] at h
    obtain ⟨t, r, ht, ha⟩ := h
    have hfit := (body t).fits_of_get ha
    obtain rfl := htag hfit
    exact ⟨c.fits_of_get ht, hfit⟩

/-! ## Opaque data and vectors -/

/-- Zero bytes up to the next multiple of four. -/
def padding : Bytes := List.replicate ((4 - len % 4) % 4) 0

def getPadding : Option Bytes :=
  let pad := padding len
  if bs.take pad.length = pad then some (bs.drop pad.length) else none

theorem getPadding_append (len : Nat) (rest : Bytes) :
    getPadding len (padding len ++ rest) = some rest := by
  simp [getPadding]

/-- `opaque name<bound>`: a length of at most `bound`, the bytes, and
zero padding. -/
def opaqueVec : Codec Bytes where
  put a := putBE 4 a.length ++ (a ++ padding a.length)
  get bs := do
    let (len, bs) ← getBE 4 bs
    if len ≤ bound ∧ len ≤ bs.length then
      let rest ← getPadding len (bs.drop len)
      return (bs.take len, rest)
    else none
  Fits a := a.length ≤ bound ∧ a.length < 256 ^ 4
  get_put {a} rest h := by
    have hlen : a.length % 256 ^ 4 = a.length := Nat.mod_eq_of_lt h.2
    have hroom : a.length ≤ (a ++ (padding a.length ++ rest)).length := by
      rw [List.length_append]
      omega
    simp only [List.append_assoc, getBE_putBE, hlen, bind_eq_bind, bind_some,
      h.1, hroom, and_self, if_true, List.drop_left, List.take_left, getPadding_append,
      Option.pure_def]
  fits_of_get h := by
    simp only [bind_eq_bind, bind_eq_some_iff, Prod.exists] at h
    obtain ⟨len, r, hlen, h⟩ := h
    have hlt := getBE_lt 4 hlen
    split at h
    · rename_i hle
      simp only [bind_eq_some_iff, Option.pure_def, Option.some.injEq, Prod.mk.injEq] at h
      obtain ⟨_, -, rfl, -⟩ := h
      simp only [List.length_take]
      omega
    · exact absurd h (by simp)

def putAll (c : Codec α) : List α → Bytes
  | [] => []
  | a :: as => c.put a ++ putAll c as

def getAll (c : Codec α) : Nat → Bytes → Option (List α × Bytes)
  | 0, bs => some ([], bs)
  | n + 1, bs => do
    let (a, bs) ← c.get bs
    let (as, bs) ← getAll c n bs
    return (a :: as, bs)

theorem getAll_putAll (c : Codec α) (rest : Bytes) :
    ∀ {as : List α}, (∀ a ∈ as, c.Fits a) →
      getAll c as.length (putAll c as ++ rest) = some (as, rest)
  | [], _ => rfl
  | a :: as, h => by
    have ha := h a mem_cons_self
    have ih := getAll_putAll c rest fun b hb => h b (mem_cons_of_mem a hb)
    simp only [length_cons, putAll, append_assoc, getAll, c.get_put _ ha, ih,
      bind_eq_bind, bind_some, Option.pure_def]

theorem getAll_fits (c : Codec α) :
    ∀ {n : Nat} {bs rest : Bytes} {as : List α}, getAll c n bs = some (as, rest) →
      as.length = n ∧ ∀ a ∈ as, c.Fits a
  | 0, bs, rest, as, h => by
    simp only [getAll, Option.some.injEq, Prod.mk.injEq] at h
    obtain ⟨rfl, -⟩ := h
    exact ⟨rfl, fun _ h => absurd h not_mem_nil⟩
  | n + 1, bs, rest, as, h => by
    simp only [getAll, bind_eq_bind, bind_eq_some_iff, Prod.exists,
      Option.pure_def, Option.some.injEq, Prod.mk.injEq] at h
    obtain ⟨a, r, ha, as', r', has, rfl, -⟩ := h
    obtain ⟨hlen, hfit⟩ := getAll_fits c has
    refine ⟨by rw [length_cons, hlen], fun b hb => ?_⟩
    rcases mem_cons.mp hb with rfl | hb
    · exact c.fits_of_get ha
    · exact hfit b hb

/-- `T name<bound>`: a count of at most `bound`, then the elements. -/
def vector : Codec (List α) where
  put as := putBE 4 as.length ++ putAll c as
  get bs := do
    let (n, bs) ← getBE 4 bs
    if n ≤ bound then getAll c n bs else none
  Fits as := (as.length ≤ bound ∧ as.length < 256 ^ 4) ∧ ∀ a ∈ as, c.Fits a
  get_put {as} rest h := by
    have hlen : as.length % 256 ^ 4 = as.length := Nat.mod_eq_of_lt h.1.2
    simp only [List.append_assoc, getBE_putBE, hlen, bind_eq_bind, bind_some,
      h.1.1, if_true, getAll_putAll c rest h.2]
  fits_of_get h := by
    simp only [bind_eq_bind, bind_eq_some_iff, Prod.exists] at h
    obtain ⟨n, r, hn, h⟩ := h
    have hlt := getBE_lt 4 hn
    split at h
    · obtain ⟨rfl, hfit⟩ := getAll_fits c h
      exact ⟨⟨‹_›, hlt⟩, hfit⟩
    · exact absurd h (by simp)

/-! ## The numbers of a message format -/

def uint32 : Codec UInt32 :=
  (bigEndian 4).inj UInt32.ofNat (fun u => some u.toNat)
    (fun h => by rw [UInt32.toNat_ofNat_of_lt' h])
    (fun h => by rw [← Option.some.inj h, UInt32.ofNat_toNat])

def uint64 : Codec UInt64 :=
  (bigEndian 8).inj UInt64.ofNat (fun u => some u.toNat)
    (fun h => by rw [UInt64.toNat_ofNat_of_lt' h])
    (fun h => by rw [← Option.some.inj h, UInt64.ofNat_toNat])

/-- `opaque name[n]` as the number its bytes spell, most significant first. -/
def opaqueFixed : Codec (BitVec (8 * n)) :=
  (bigEndian n).inj (BitVec.ofNat (8 * n)) (fun v => some v.toNat)
    (fun h => by
      rw [BitVec.toNat_ofNat, Nat.mod_eq_of_lt]
      rwa [Nat.pow_mul])
    (fun h => by rw [← Option.some.inj h, BitVec.ofNat_toNat, BitVec.setWidth_eq])

@[simp] theorem uint32_fits (u : UInt32) : uint32.Fits u := ⟨u.toNat, rfl, u.toNat_lt⟩

@[simp] theorem uint64_fits (u : UInt64) : uint64.Fits u := ⟨u.toNat, rfl, u.toNat_lt⟩

@[simp] theorem opaqueFixed_fits {n : Nat} (v : BitVec (8 * n)) : (opaqueFixed n).Fits v :=
  ⟨v.toNat, rfl, show v.toNat < (2 ^ 8) ^ n by rw [← Nat.pow_mul]; exact v.isLt⟩

end Codec

end Xdr

import KinesisCore.Xdr

/-!
# Ledger headers, upgrades and the value consensus agrees on

The part of `Stellar-ledger.x` that the herder and the transaction code
read. Fixed-width fields keep their width (`UInt32`, `UInt64`, `Int64`);
a 32-byte hash is the 256-bit number its bytes spell, so that comparing
hashes byte by byte is comparing numbers. `LedgerUpgrade` and
`StellarValue` come with their wire formats, built from the codecs of
`Xdr`: an upgrade step travels as opaque bytes inside a `StellarValue`,
and a `StellarValue` travels as opaque bytes inside an SCP statement.
-/

namespace KinesisCore

open Xdr Xdr.Codec

abbrev Hash := BitVec 256

/-- An Ed25519 public key; the only key type of the wire format. -/
abbrev PublicKey := BitVec 256

instance : LawfulBEq PublicKey := inferInstance

abbrev NodeID := PublicKey

abbrev AccountID := PublicKey

def protocolVersionStartsFrom (protocolVersion : UInt32) (fromVersion : Nat) : Bool :=
  fromVersion ≤ protocolVersion.toNat

def protocolVersionIsBefore (protocolVersion : UInt32) (beforeVersion : Nat) : Bool :=
  protocolVersion.toNat < beforeVersion

theorem protocolVersionIsBefore_eq (v : UInt32) (n : Nat) :
    protocolVersionIsBefore v n = !protocolVersionStartsFrom v n := by
  simp [protocolVersionIsBefore, protocolVersionStartsFrom, ← decide_not]

variable {v : UInt32} {m n : Nat}

theorem protocolVersionStartsFrom_of_le (hmn : m ≤ n)
    (h : protocolVersionStartsFrom v n = true) : protocolVersionStartsFrom v m = true := by
  simp only [protocolVersionStartsFrom, decide_eq_true_eq] at h ⊢
  omega

theorem not_protocolVersionIsBefore (hmn : m ≤ n)
    (h : protocolVersionStartsFrom v n = true) : protocolVersionIsBefore v m = false := by
  rw [protocolVersionIsBefore_eq, protocolVersionStartsFrom_of_le hmn h]
  rfl

/-! ## Upgrade steps -/

inductive LedgerUpgradeType where
  | version
  | baseFee
  | maxTxSetSize
  | baseReserve
  | basePercentageFee
  | maxFee
  | flags
  deriving Repr, DecidableEq

namespace LedgerUpgradeType

/-- The enumeration's values in the wire format; the order of upgrade
types is the order of these numbers. -/
def toUInt32 : LedgerUpgradeType → UInt32
  | version => 1
  | baseFee => 2
  | maxTxSetSize => 3
  | baseReserve => 4
  | basePercentageFee => 5
  | maxFee => 6
  | flags => 7

def ofUInt32? : UInt32 → Option LedgerUpgradeType
  | 1 => some version
  | 2 => some baseFee
  | 3 => some maxTxSetSize
  | 4 => some baseReserve
  | 5 => some basePercentageFee
  | 6 => some maxFee
  | 7 => some flags
  | _ => none

def toNat (t : LedgerUpgradeType) : Nat := t.toUInt32.toNat

instance : LT LedgerUpgradeType := ⟨fun s t => s.toNat < t.toNat⟩

instance (s t : LedgerUpgradeType) : Decidable (s < t) :=
  inferInstanceAs (Decidable (s.toNat < t.toNat))

instance : Trans (α := LedgerUpgradeType) (· < ·) (· < ·) (· < ·) :=
  ⟨fun h h' => Nat.lt_trans (m := LedgerUpgradeType.toNat _) h h'⟩

theorem ofUInt32_toUInt32 (t : LedgerUpgradeType) : ofUInt32? t.toUInt32 = some t := by
  cases t <;> rfl

theorem toUInt32_of_ofUInt32 {d : UInt32} {t : LedgerUpgradeType}
    (h : ofUInt32? d = some t) : t.toUInt32 = d := by
  unfold ofUInt32? at h
  split at h <;> first | (cases h; rfl) | exact absurd h (by simp)

end LedgerUpgradeType

inductive LedgerUpgrade where
  | newLedgerVersion (v : UInt32)
  | newBaseFee (v : UInt32)
  | newMaxTxSetSize (v : UInt32)
  | newBaseReserve (v : UInt32)
  | newBasePercentageFee (v : UInt32)
  | newMaxFee (v : UInt64)
  | newFlags (v : UInt32)
  deriving Repr, DecidableEq

namespace LedgerUpgrade

def type : LedgerUpgrade → LedgerUpgradeType
  | newLedgerVersion _ => .version
  | newBaseFee _ => .baseFee
  | newMaxTxSetSize _ => .maxTxSetSize
  | newBaseReserve _ => .baseReserve
  | newBasePercentageFee _ => .basePercentageFee
  | newMaxFee _ => .maxFee
  | newFlags _ => .flags

/-- The new value of a step, whatever field it is for. -/
def value : LedgerUpgrade → UInt64
  | newLedgerVersion v => v.toUInt64
  | newBaseFee v => v.toUInt64
  | newMaxTxSetSize v => v.toUInt64
  | newBaseReserve v => v.toUInt64
  | newBasePercentageFee v => v.toUInt64
  | newMaxFee v => v
  | newFlags v => v.toUInt64

/-- The body of the union under a discriminant. -/
def body (t : LedgerUpgradeType) : Codec LedgerUpgrade :=
  match t with
  | .version => uint32.inj newLedgerVersion (fun | newLedgerVersion v => some v | _ => none)
      (fun _ => rfl) (by rintro (_ | _) _ ⟨⟩; rfl)
  | .baseFee => uint32.inj newBaseFee (fun | newBaseFee v => some v | _ => none)
      (fun _ => rfl) (by rintro (_ | _) _ ⟨⟩; rfl)
  | .maxTxSetSize => uint32.inj newMaxTxSetSize (fun | newMaxTxSetSize v => some v | _ => none)
      (fun _ => rfl) (by rintro (_ | _) _ ⟨⟩; rfl)
  | .baseReserve => uint32.inj newBaseReserve (fun | newBaseReserve v => some v | _ => none)
      (fun _ => rfl) (by rintro (_ | _) _ ⟨⟩; rfl)
  | .basePercentageFee =>
    uint32.inj newBasePercentageFee (fun | newBasePercentageFee v => some v | _ => none)
      (fun _ => rfl) (by rintro (_ | _) _ ⟨⟩; rfl)
  | .maxFee => uint64.inj newMaxFee (fun | newMaxFee v => some v | _ => none)
      (fun _ => rfl) (by rintro (_ | _) _ ⟨⟩; rfl)
  | .flags => uint32.inj newFlags (fun | newFlags v => some v | _ => none)
      (fun _ => rfl) (by rintro (_ | _) _ ⟨⟩; rfl)

theorem type_of_body_fits {t : LedgerUpgradeType} {u : LedgerUpgrade} (h : (body t).Fits u) :
    u.type = t := by
  cases t <;> obtain ⟨v, hv, -⟩ := h <;> cases u <;> first | rfl | simp at hv

variable (u : LedgerUpgrade)

theorem body_fits : (body u.type).Fits u := by
  cases u <;> exact ⟨_, rfl, by simp⟩

/-- `LedgerUpgrade` on the wire; an unknown discriminant is refused. -/
def codec : Codec LedgerUpgrade :=
  uint32.union (fun u => u.type.toUInt32)
    (fun d => ((LedgerUpgradeType.ofUInt32? d).map body).getD fail)
    (fun {d u} h => by
      cases hd : LedgerUpgradeType.ofUInt32? d with
      | none => simp [hd, fail] at h
      | some t =>
        rw [hd] at h
        rw [type_of_body_fits h]
        exact LedgerUpgradeType.toUInt32_of_ofUInt32 hd)

@[simp] theorem codec_fits : codec.Fits u := by
  refine ⟨uint32_fits _, ?_⟩
  show (((LedgerUpgradeType.ofUInt32? u.type.toUInt32).map body).getD fail).Fits u
  rw [LedgerUpgradeType.ofUInt32_toUInt32]
  exact body_fits u

theorem codec_put_length : (codec.put u).length ≤ 12 := by
  cases u with
  | newMaxFee _ => exact Nat.le_refl 12
  | _ => exact (by decide : 8 ≤ 12)

end LedgerUpgrade

/-! ## Consensus values -/

/-- `UpgradeType`: an encoded `LedgerUpgrade`, opaque on the wire. -/
abbrev UpgradeType := Bytes

/-- The wire format's `opaque UpgradeType<128>`. -/
def UpgradeType.maxSize : Nat := 128

structure LedgerCloseValueSignature where
  nodeID : NodeID
  signature : Bytes
  deriving Repr, DecidableEq

inductive StellarValueExt where
  | basic
  | signed (lcValueSignature : LedgerCloseValueSignature)
  deriving Repr, DecidableEq

structure StellarValue where
  txSetHash : Hash
  closeTime : UInt64
  upgrades : List UpgradeType := []
  ext : StellarValueExt := .basic
  deriving Repr, DecidableEq

namespace StellarValue

/-- The wire format's bound on `upgrades`. -/
def maxUpgrades : Nat := 6

/-- A public key: the key type's discriminant, always zero, and 32 bytes. -/
def publicKeyCodec : Codec PublicKey :=
  uint32.union (fun _ => 0) (fun d => if d = 0 then opaqueFixed 32 else fail)
    (fun {d _} h => by
      by_cases hd : d = 0
      · exact hd.symm
      · simp [hd, fail] at h)

@[simp] theorem publicKeyCodec_fits (k : PublicKey) : publicKeyCodec.Fits k :=
  ⟨uint32_fits _, opaqueFixed_fits (n := 32) k⟩

def signatureCodec : Codec LedgerCloseValueSignature :=
  (publicKeyCodec.pair (opaqueVec 64)).inj (fun p => ⟨p.1, p.2⟩)
    (fun s => some (s.nodeID, s.signature)) (fun _ => rfl)
    (fun h => by obtain rfl := Option.some.inj h; rfl)

def extTag : StellarValueExt → UInt32
  | .basic => 0
  | .signed _ => 1

def extBody (d : UInt32) : Codec StellarValueExt :=
  if d = 0 then void .basic
  else if d = 1 then
    signatureCodec.inj .signed (fun | .signed s => some s | .basic => none) (fun _ => rfl)
      (by rintro (_ | _) _ ⟨⟩; rfl)
  else fail

theorem extTag_of_extBody_fits {d : UInt32} {e : StellarValueExt} (h : (extBody d).Fits e) :
    extTag e = d := by
  unfold extBody at h
  split at h
  · rw [show e = .basic from h]
    exact (‹d = 0›).symm
  · split at h
    · obtain ⟨s, hs, -⟩ := h
      cases e with
      | basic => simp at hs
      | signed _ => exact (‹d = 1›).symm
    · exact h.elim

def extCodec : Codec StellarValueExt := uint32.union extTag extBody extTag_of_extBody_fits

def codec : Codec StellarValue :=
  ((opaqueFixed 32).pair (uint64.pair
      ((vector (opaqueVec UpgradeType.maxSize) maxUpgrades).pair extCodec))).inj
    (fun p => ⟨p.1, p.2.1, p.2.2.1, p.2.2.2⟩)
    (fun v => some (v.txSetHash, v.closeTime, v.upgrades, v.ext)) (fun _ => rfl)
    (fun h => by obtain rfl := Option.some.inj h; rfl)

/-- What the wire format asks of a value: its bound on the number of
upgrade steps, on the size of each step, and on the signature. -/
structure WellFormed (v : StellarValue) : Prop where
  upgrades_length : v.upgrades.length ≤ maxUpgrades
  upgrade_size : ∀ u ∈ v.upgrades, u.length ≤ UpgradeType.maxSize
  signature_size : ∀ s, v.ext = .signed s → s.signature.length ≤ 64

theorem extCodec_fits_iff (e : StellarValueExt) :
    extCodec.Fits e ↔ ∀ s, e = .signed s → s.signature.length ≤ 64 := by
  cases e with
  | basic =>
    refine ⟨fun _ s h => absurd h (by simp), fun _ => ⟨uint32_fits _, rfl⟩⟩
  | signed s =>
    refine ⟨?_, fun h => ⟨uint32_fits _, s, rfl, _, rfl, publicKeyCodec_fits _, ?_⟩⟩
    · rintro ⟨-, s', hs, p, hp, -, hlen⟩ t ht
      cases hs
      cases hp
      obtain rfl := StellarValueExt.signed.inj ht
      exact hlen.1
    · have := h s rfl
      exact ⟨this, show s.signature.length < 256 ^ 4 by omega⟩

theorem codec_fits_iff (v : StellarValue) : codec.Fits v ↔ v.WellFormed := by
  constructor
  · rintro ⟨p, hp, -, -, ⟨⟨hn, -⟩, hsize⟩, hext⟩
    cases hp
    exact ⟨hn, fun u hu => (hsize u hu).1, (extCodec_fits_iff _).mp hext⟩
  · intro h
    refine ⟨_, rfl, opaqueFixed_fits (n := 32) _, uint64_fits _, ⟨⟨h.upgrades_length, ?_⟩, ?_⟩,
      (extCodec_fits_iff _).mpr h.signature_size⟩
    · have := h.upgrades_length
      show v.upgrades.length < 256 ^ 4
      simp only [maxUpgrades] at this
      omega
    · intro u hu
      have := h.upgrade_size u hu
      refine ⟨this, ?_⟩
      simp only [UpgradeType.maxSize] at this
      omega

end StellarValue

/-! ## The header -/

structure LedgerHeader where
  ledgerVersion : UInt32
  previousLedgerHash : Hash
  scpValue : StellarValue
  ledgerSeq : UInt32
  totalCoins : Int64
  feePool : Int64
  inflationSeq : UInt32
  baseFee : UInt32
  basePercentageFee : UInt32
  maxFee : UInt64
  baseReserve : UInt32
  maxTxSetSize : UInt32
  /-- The flags of the header's extension, when it has one. -/
  ext : Option UInt32 := none
  deriving Repr, DecidableEq

/-- The protocol of the ledger is `version` or later. -/
abbrev LedgerHeader.StartsFrom (h : LedgerHeader) (version : Nat) : Prop :=
  protocolVersionStartsFrom h.ledgerVersion version = true

theorem LedgerHeader.StartsFrom.congr {h h' : LedgerHeader} {version : Nat}
    (hv : h.StartsFrom version) (heq : h'.ledgerVersion = h.ledgerVersion) :
    h'.StartsFrom version := by
  unfold StartsFrom
  rwa [heq]

def LedgerHeader.getFlags (h : LedgerHeader) : UInt32 := h.ext.getD 0

/-- A header of protocol 14 with a percentage fee of 45 basis points. -/
def header45 : LedgerHeader where
  ledgerVersion := 14
  previousLedgerHash := 0
  scpValue := { txSetHash := 0, closeTime := 0 }
  ledgerSeq := 2
  totalCoins := 1000000000000000000
  feePool := 0
  inflationSeq := 0
  baseFee := 100
  basePercentageFee := 45
  maxFee := 10000000000
  baseReserve := 5000000
  maxTxSetSize := 200

end KinesisCore

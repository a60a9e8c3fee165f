import KinesisCore.Transaction

/-!
# Signatures (`SignatureChecker.cpp`, `SignatureUtils.cpp`)

A checker is made for one transaction. It remembers which of the envelope's
signatures have been of use, so that in the end an envelope with a useless
signature can be refused. Each check weighs the given signers: those that
name the transaction's hash count at once, the others by a signature that
no other signer of the check has used up.
-/

namespace KinesisCore

open Xdr HashFunction

/-- The signature scheme; nothing is assumed about it. -/
class PubKeyUtils where
  verifySig : PublicKey → Bytes → Bytes → Bool

/-- A signature scheme to evaluate with: it accepts every signature. -/
@[reducible] def acceptAll : PubKeyUtils := ⟨fun _ _ _ => true⟩

namespace Evaluation

attribute [scoped instance] acceptAll

end Evaluation

namespace SignatureUtils

/-- A hint is the last four bytes of what it hints at. -/
def doesHintMatch (key : BitVec 256) (hint : BitVec 32) : Bool := key.setWidth 32 = hint

variable [HashFunction] [PubKeyUtils]

def verify (sig : DecoratedSignature) (key : PublicKey) (hash : Hash) : Bool :=
  doesHintMatch key sig.hint
    && PubKeyUtils.verifySig key sig.signature ((Codec.opaqueFixed 32).put hash)

def verifyHashX (sig : DecoratedSignature) (hashX : Hash) : Bool :=
  doesHintMatch hashX sig.hint && hashX = sha256 sig.signature

end SignatureUtils

structure SignatureChecker where
  mProtocolVersion : UInt32
  mContentsHash : Hash
  /-- Each signature with its entry in `mUsedSignatures`. -/
  mSignatures : List (DecoratedSignature × Bool)
  deriving Repr, DecidableEq

namespace SignatureChecker

def make (protocolVersion : UInt32) (contentsHash : Hash) (signatures : List DecoratedSignature) :
    SignatureChecker :=
  ⟨protocolVersion, contentsHash, signatures.map (·, false)⟩

/-- The weight of a signer, in the 32 bits of the running total. -/
def weight (protocolVersion : UInt32) (signer : Signer) : Int32 :=
  if protocolVersionStartsFrom protocolVersion 10 && signer.weight > 255 then 255
  else signer.weight.toInt32

/-- The loop over the signers that name the transaction's hash: the total,
and whether it is enough. -/
def preAuthTotal (c : SignatureChecker) (neededWeight : Int32) :
    List Signer → Int32 → Bool × Int32
  | [], totalWeight => (false, totalWeight)
  | signer :: signers, totalWeight =>
    if signer.key = .preAuthTx c.mContentsHash then
      let totalWeight := totalWeight + weight c.mProtocolVersion signer
      if totalWeight ≥ neededWeight then (true, totalWeight)
      else preAuthTotal c neededWeight signers totalWeight
    else preAuthTotal c neededWeight signers totalWeight

/-- The loop over the signatures. A signature counts for the first signer it
verifies for, and that signer is taken out. -/
def verifyAll (protocolVersion : UInt32) (neededWeight : Int32)
    (verify : DecoratedSignature → Signer → Bool) :
    List (DecoratedSignature × Bool) → List Signer → Int32 →
      Bool × List (DecoratedSignature × Bool) × Int32
  | [], _, totalWeight => (false, [], totalWeight)
  | (sig, used) :: sigs, signers, totalWeight =>
    match signers.find? (verify sig) with
    | none =>
      let (verified, sigs, totalWeight) :=
        verifyAll protocolVersion neededWeight verify sigs signers totalWeight
      (verified, (sig, used) :: sigs, totalWeight)
    | some signer =>
      let totalWeight := totalWeight + weight protocolVersion signer
      if totalWeight ≥ neededWeight then (true, (sig, true) :: sigs, totalWeight)
      else
        let (verified, sigs, totalWeight) := verifyAll protocolVersion neededWeight verify sigs
          (signers.eraseP (verify sig)) totalWeight
        (verified, (sig, true) :: sigs, totalWeight)

section

variable [HashFunction] [PubKeyUtils] (signer : Signer) (c : SignatureChecker)

def verifySigner (sig : DecoratedSignature) (signer : Signer) : Bool :=
  match signer.key with
  | .ed25519 key => SignatureUtils.verify sig key c.mContentsHash
  | .hashX hash => SignatureUtils.verifyHashX sig hash
  | .preAuthTx _ => false

def isHashX : Bool :=
  match signer.key with
  | .hashX _ => true
  | _ => false

def isEd25519 : Bool :=
  match signer.key with
  | .ed25519 _ => true
  | _ => false

def checkSignature (signers : List Signer) (neededWeight : Int32) : Bool × SignatureChecker :=
  if c.mProtocolVersion = 7 then (true, c)
  else
    let (enough, totalWeight) := c.preAuthTotal neededWeight signers 0
    if enough then (true, c)
    else
      let (verified, sigs, totalWeight) := verifyAll c.mProtocolVersion neededWeight
        c.verifySigner c.mSignatures (signers.filter isHashX) totalWeight
      let c := { c with mSignatures := sigs }
      if verified then (true, c)
      else
        let (verified, sigs, _) := verifyAll c.mProtocolVersion neededWeight
          c.verifySigner c.mSignatures (signers.filter isEd25519) totalWeight
        (verified, { c with mSignatures := sigs })

end

def checkAllSignaturesUsed (c : SignatureChecker) : Bool :=
  c.mProtocolVersion = 7 || c.mSignatures.all (·.2)

end SignatureChecker

end KinesisCore

import Cose2.Op
import Cose2.Provider

/-! # Helpers of the message types

`src/util.rs`: the life of a message, its headers, and the encoding of the
structures that are signed, authenticated and encrypted.
-/
namespace Cose2

open Cbor Iana

/-- `OperationState`. -/
inductive OperationState where
  | new
  | prepared
  | complete
deriving DecidableEq, Repr

instance : Inhabited OperationState := ⟨.new⟩

/-- `OperationState::require_complete`. -/
def OperationState.requireComplete (state : OperationState) (message : String) :
    Except Error Unit :=
  Except.failIf (state ≠ .complete) (.invalidState message)

/-- The two header buckets of a layer. -/
structure Buckets where
  protectedHeader : Header := ∅
  unprotectedHeader : Header := ∅

/-! ### Preparing headers -/

/-- `AlgorithmMismatch`, unless the algorithms are the same. -/
def requireSameAlg (existing expected : Label) : Except Error Unit :=
  Except.failIf (existing ≠ expected) (.algorithmMismatch existing.display expected.display)

/-- `ensure_protected_alg`. -/
def ensureProtectedAlg (alg : Option Label) : Op Error Buckets Unit := do
  match alg with
  | none => return
  | some alg =>
    let b ← Op.get
    match ← Op.lift b.protectedHeader.alg with
    | some existing => Op.lift (requireSameAlg existing alg)
    | none =>
      match ← Op.lift b.unprotectedHeader.alg with
      | some existing =>
        Op.lift (requireSameAlg existing alg)
        Op.modify fun b =>
          { b with unprotectedHeader := b.unprotectedHeader.remove headerParameterAlg }
      | none => pure ()
      Op.modify fun b => { b with protectedHeader := b.protectedHeader.setAlg alg }

/-- `ensure_unprotected_kid`. -/
def ensureUnprotectedKid (kid : Option Bytes) : Op Error Buckets Unit := do
  match kid with
  | none => return
  | some kid =>
    let b ← Op.get
    let existing ← Op.lift b.protectedHeader.kid
    if existing = none ∧ b.unprotectedHeader.containsKey headerParameterKid = false then
      Op.modify fun b => { b with unprotectedHeader := b.unprotectedHeader.setKid kid }

section Encoding

variable (c : Cbor2)

/-- `prepare_headers`. -/
def prepareHeaders (alg : Option Label) (kid : Option Bytes) : Op Error Buckets Bytes := do
  ensureProtectedAlg alg
  ensureUnprotectedKid kid
  let b ← Op.get
  Op.lift (validateHeaderBuckets b.protectedHeader b.unprotectedHeader)
  Op.lift (encodeProtected c b.protectedHeader)

/-- `sync_protected_raw`, as the protected bytes afterwards. -/
def syncProtectedRaw (protectedHeader unprotectedHeader : Header) (protectedRaw : Bytes)
    (state : OperationState) : Except Error Bytes := do
  if state = .new then
    validateHeaderBuckets protectedHeader unprotectedHeader
    encodeProtected c protectedHeader
  else
    validateLayer c protectedHeader unprotectedHeader protectedRaw
    return protectedRaw

/-- `encode_structure`: a text string and byte strings in an array. -/
def encodeStructure (context : String) (parts : List Bytes) : Except Error Bytes :=
  (c.writeTuple (.value (.text context) :: parts.map fun b => .value (.bytes b))).mapError .cbor

/-- `encode_prefixed`. -/
def encodePrefixed (tagPrefix : Bytes) (body : List Part) : Except Error Bytes := do
  let bodyLen ← (c.serializedSize body).mapError .cbor
  Except.failIf (¬ bodyLen < usizeBound)
    (.custom "encoded CBOR size does not fit usize")
  Except.failIf (¬ tagPrefix.length + bodyLen < usizeBound)
    (.custom "encoded CBOR size overflow")
  return tagPrefix ++ (← (c.writeTuple body).mapError .cbor)

/-- `header_raw`. -/
def headerRaw (header : Header) : Except Error Bytes := do
  let encoded ← header.toVec c
  (c.newRawValue encoded).mapError .cbor

/-- `canonical_raw` of something that serializes to a dynamic value. -/
def canonicalRaw (value : Except String Value) : Except Error Bytes := do
  let encoded ← (value >>= c.toCanonicalVec).mapError .cbor
  (c.newRawValue encoded).mapError .cbor

end Encoding

/-! ### Checks before a primitive is called -/

/-- `require_embedded_payload`. -/
def requireEmbeddedPayload (payload : Option Bytes) (operation : String) : Except Error Bytes :=
  Except.ofOption (.custom
    s!"{operation} requires an embedded payload; use the detached-payload API") payload

/-- `require_plaintext`. -/
def requirePlaintext (payload : Option Bytes) (operation : String) : Except Error Bytes :=
  Except.ofOption (.custom
    s!"{operation} requires a plaintext payload; use Some(Vec::new()) for empty plaintext")
    payload

/-- The algorithm in effect: the protected one, then the unprotected one. -/
def effectiveAlg (protectedHeader unprotectedHeader : Header) : Except Error (Option Label) := do
  match ← protectedHeader.alg with
  | some existing => return some existing
  | none => unprotectedHeader.alg

/-- `check_protected_alg`. -/
def checkProtectedAlg (protectedHeader unprotectedHeader : Header) (alg : Option Label) :
    Except Error Unit := do
  match alg with
  | none => return
  | some expected =>
    match ← effectiveAlg protectedHeader unprotectedHeader with
    | some existing => requireSameAlg existing expected
    | none => return

/-- `kid_match_rank`. -/
def kidMatchRank (messageKid verifierKid : Option Bytes) : Option Nat :=
  match messageKid, verifierKid with
  | some messageKid, some verifierKid => if messageKid = verifierKid then some 0 else none
  | _, _ => some 1

/-- `header_bytes`. -/
def headerBytes (protectedHeader unprotectedHeader : Header) (label : Label) :
    Except Error (Option Bytes) := do
  match ← protectedHeader.getBytes label with
  | some value => return some value
  | none => unprotectedHeader.getBytes label

/-- The nonce of a Partial IV: padded in front and added to the Base IV. -/
def nonceFromPartialIv (partialIv : Bytes) (nonceSize : Nat) (baseIv : Option Bytes) :
    Except Error Bytes := do
  let baseIv ← Except.ofOption (.custom "Partial IV requires a Base IV") baseIv
  Except.failIf (baseIv.length ≠ nonceSize) (.custom
    s!"Base IV size mismatch, expected {nonceSize}, got {baseIv.length}")
  Except.failIf (nonceSize < partialIv.length) (.custom
    s!"Partial IV size mismatch, expected at most {nonceSize}, got {partialIv.length}")
  let nonce := List.replicate (nonceSize - partialIv.length) 0 ++ partialIv
  return nonce.zipWith (· ^^^ ·) baseIv

/-- `nonce_from_header_values`. -/
def nonceFromHeaderValues (protectedHeader unprotectedHeader : Header) (nonceSize : Nat)
    (baseIv : Option Bytes) : Except Error Bytes := do
  let iv ← headerBytes protectedHeader unprotectedHeader headerParameterIV
  let partialIv ← headerBytes protectedHeader unprotectedHeader headerParameterPartialIV
  Except.failIf (iv.isSome ∧ partialIv.isSome)
    (.custom "IV and Partial IV must not both be present")
  match iv, partialIv with
  | some iv, _ =>
    Except.failIf (iv.length ≠ nonceSize) (.custom
      s!"IV size mismatch, expected {nonceSize}, got {iv.length}")
    return iv
  | none, none => .error (.custom "missing IV or Partial IV in unprotected header")
  | none, some partialIv => nonceFromPartialIv partialIv nonceSize baseIv

end Cose2

import Cose2.Util

/-! # Countersignatures

`src/countersign.rs`, and the check of critical headers, which has to look at
them.
-/
namespace Cose2

open Cbor Iana

/-- `CounterSignature`. -/
structure CounterSignature where
  protectedHeader : Header := ∅
  unprotectedHeader : Header := ∅
  signature : Bytes := []
  protectedRaw : Bytes := []
  state : OperationState := .new

namespace CounterSignature

variable (c : Cbor2)

/-- `CounterSignature::from_value`. -/
def fromValue (value : Value) : Except Error CounterSignature :=
  match value with
  | .array [protectedHeader, unprotectedHeader, signature] => do
    let .bytes protectedRaw := protectedHeader |
      .error (.unexpectedType "countersignature protected header must be a byte string")
    let .map _ := unprotectedHeader |
      .error (.unexpectedType "countersignature unprotected header must be a map")
    let .bytes signature := signature |
      .error (.unexpectedType "countersignature value must be a byte string")
    let protectedHeader ← decodeProtected c protectedRaw
    let unprotectedHeader ← Header.fromSlice c (← c.canonicalVec unprotectedHeader)
    validateHeaderBuckets protectedHeader unprotectedHeader
    return { protectedHeader, unprotectedHeader, signature, protectedRaw, state := .complete }
  | .array _ => .error (.unexpectedType "COSE_Countersignature must contain 3 elements")
  | _ => .error (.unexpectedType "COSE_Countersignature must be an array")

/-- `CounterSignature::to_value`. -/
def toValue (m : CounterSignature) : Except Error Value := do
  m.state.requireComplete "CounterSignature must be signed before encoding"
  validateLayer c m.protectedHeader m.unprotectedHeader m.protectedRaw
  return .array [.bytes m.protectedRaw,
    .map (m.unprotectedHeader.entries.map fun e => (e.1.toValue, e.2)), .bytes m.signature]

end CounterSignature

section Crit

variable (c : Cbor2)

/-- `counter_signatures_from_value`. -/
def counterSignaturesFromValue (value : Value) : Except Error (List CounterSignature) :=
  match value with
  | .array [] => .error (.unexpectedType "counter signature array must not be empty")
  | .array (.bytes b :: items) => do
    return [← CounterSignature.fromValue c (.array (.bytes b :: items))]
  | .array items => items.mapM (CounterSignature.fromValue c)
  | _ => .error (.unexpectedType ("counter signature header must contain a " ++
      "COSE_Countersignature or non-empty array of them"))

/-- `Header::counter_signatures`. -/
def Header.counterSignatures (h : Header) : Except Error (Option (List CounterSignature)) :=
  match h.get headerParameterCounterSignature with
  | none => .ok none
  | some value => (counterSignaturesFromValue c value).map some

/-- `Header::set_counter_signatures`. -/
def Header.setCounterSignatures (h : Header) (signatures : List CounterSignature) :
    Except Error Header :=
  if signatures.isEmpty then .ok (h.remove headerParameterCounterSignature)
  else do
    let values ← signatures.mapM (CounterSignature.toValue c)
    let value := match values with
      | [value] => value
      | values => .array values
    return h.insert headerParameterCounterSignature value

/-- One label of `crit` in `ensure_crit_understood`. -/
def Header.ensureLabelUnderstood (h : Header) (understood : List Label) (label : Label) :
    Except Error Unit :=
  if label = headerParameterCounterSignature then do let _ ← h.counterSignatures c
  else Except.failIf (¬ (isUnderstoodHeader label = true ∨ label ∈ understood))
    (.custom s!"unsupported critical header parameter {label.display}")

/-- `Header::ensure_crit_understood`. -/
def Header.ensureCritUnderstood (h : Header) (understood : List Label) : Except Error Unit := do
  h.validateCommon
  match ← h.crit with
  | none => return
  | some crit => crit.forM (h.ensureLabelUnderstood c understood)

end Crit

namespace CounterSignature

/-- Replaces the header buckets. -/
def withBuckets (b : Buckets) (m : CounterSignature) : CounterSignature :=
  { m with protectedHeader := b.protectedHeader, unprotectedHeader := b.unprotectedHeader }

/-- The header buckets. -/
def buckets (m : CounterSignature) : Buckets := ⟨m.protectedHeader, m.unprotectedHeader⟩

section Encoding

variable (c : Cbor2)

/-- `CounterSignature::to_be_signed`. -/
def toBeSigned (bodyProtected signProtected externalAad payload : Bytes) : Except Error Bytes :=
  encodeStructure c "CounterSignature" [bodyProtected, signProtected, externalAad, payload]

/-- `CounterSignature::prepare_signature`. -/
def prepareSignature (alg : Option Label) (kid : Option Bytes) (bodyProtected payload : Bytes)
    (externalAad : Option Bytes) : Op Error CounterSignature Bytes := do
  let protectedRaw ← Op.on buckets withBuckets (prepareHeaders c alg kid)
  Op.modify fun m => { m with protectedRaw, signature := [], state := .prepared }
  Op.lift (toBeSigned c bodyProtected protectedRaw (externalAad.getD []) payload)

/-- `CounterSignature::set_signature`. -/
def setSignature (signature : Bytes) : Op Error CounterSignature Unit := do
  let m ← Op.get
  let protectedRaw ← Op.lift
    (syncProtectedRaw c m.protectedHeader m.unprotectedHeader m.protectedRaw m.state)
  Op.modify fun m => { m with protectedRaw, signature, state := .complete }

/-- `CounterSignature::sign`. -/
def sign (signer : Signer) (bodyProtected payload : Bytes) (externalAad : Option Bytes) :
    Op Error CounterSignature Unit := do
  let toBeSigned ← prepareSignature c signer.alg signer.kid bodyProtected payload externalAad
  let signature ← Op.lift (signer.sign toBeSigned)
  Op.modify fun m => { m with signature, state := .complete }

/-- `CounterSignature::verify`. -/
def verify (m : CounterSignature) (verifier : Verifier) (bodyProtected payload : Bytes)
    (externalAad : Option Bytes) : Except Error Unit := do
  m.state.requireComplete "CounterSignature must be signed or decoded before verifying"
  validateLayer c m.protectedHeader m.unprotectedHeader m.protectedRaw
  m.protectedHeader.ensureCritUnderstood c verifier.understoodCriticalHeaders
  checkProtectedAlg m.protectedHeader m.unprotectedHeader verifier.alg
  let toBeSigned ← toBeSigned c bodyProtected m.protectedRaw (externalAad.getD []) payload
  verifier.verify toBeSigned m.signature

end Encoding
end CounterSignature
end Cose2

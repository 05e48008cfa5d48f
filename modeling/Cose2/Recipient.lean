import Cose2.CounterSign
import Cose2.Key

/-! # Recipients

`src/recipient.rs`: the recursive structure that carries keys to the receivers of
a message, its validation, and its encoding.
-/
namespace Cose2

open Cbor Iana

/-- `RecipientAlgorithmClass`. -/
inductive RecipientAlgorithmClass where
  | direct
  | directKeyDerivation
  | keyWrap
  | keyTransport
  | directKeyAgreement
  | keyAgreementWithKeyWrap
deriving DecidableEq, Repr

/-- `classify_recipient_algorithm`. -/
def classifyRecipientAlgorithm (alg : Label) : Option RecipientAlgorithmClass :=
  if alg = algorithmDirect then some .direct
  else if alg ∈ [algorithmDirect_HKDF_SHA_256, algorithmDirect_HKDF_SHA_512,
      algorithmDirect_HKDF_AES_128, algorithmDirect_HKDF_AES_256] then
    some .directKeyDerivation
  else if alg ∈ [algorithmA128KW, algorithmA192KW, algorithmA256KW] then some .keyWrap
  else if alg ∈ [algorithmRSAES_OAEP_RFC_8017_default, algorithmRSAES_OAEP_SHA_256,
      algorithmRSAES_OAEP_SHA_512] then
    some .keyTransport
  else if alg ∈ [algorithmECDH_ES_HKDF_256, algorithmECDH_ES_HKDF_512,
      algorithmECDH_SS_HKDF_256, algorithmECDH_SS_HKDF_512] then
    some .directKeyAgreement
  else if alg ∈ [algorithmECDH_ES_A128KW, algorithmECDH_ES_A192KW, algorithmECDH_ES_A256KW,
      algorithmECDH_SS_A128KW, algorithmECDH_SS_A192KW, algorithmECDH_SS_A256KW] then
    some .keyAgreementWithKeyWrap
  else none

/-! ### Sender keys -/

/-- `ecdh_curve`. -/
def ecdhCurve (key : Key) (label : Label) : Except Error Label := do
  match ← key.getLabel label with
  | some (.int curve) => return .int curve
  | some (.text _) =>
    .error (.unexpectedType "ECDH sender key curve must be a registered integer")
  | none => .error (.custom "ECDH sender key is missing curve")

/-- The curve, `x` and private-key labels of a key type. -/
def ecdhLabels (keyType : Label) : Option (Label × Label × Label) :=
  if keyType = keyTypeEC2 then some (ec2KeyParameterCrv, ec2KeyParameterX, ec2KeyParameterD)
  else if keyType = keyTypeOKP then
    some (okpKeyParameterCrv, okpKeyParameterX, okpKeyParameterD)
  else none

/-- The coordinate size of a curve of a key type. -/
def ecdhLength (keyType curve : Label) : Option Nat :=
  if keyType = keyTypeEC2 ∧ curve = ellipticCurveP_256 then some 32
  else if keyType = keyTypeEC2 ∧ curve = ellipticCurveP_384 then some 48
  else if keyType = keyTypeEC2 ∧ curve = ellipticCurveP_521 then some 66
  else if keyType = keyTypeOKP ∧ curve = ellipticCurveX25519 then some 32
  else if keyType = keyTypeOKP ∧ curve = ellipticCurveX448 then some 56
  else none

/-- `validate_ecdh_public_key`: the `y` coordinate of a key on two coordinates. -/
def validateEc2Y (key : Key) (expectedLength : Nat) : Except Error Unit :=
  match key.get ec2KeyParameterY with
  | some (.bytes y) =>
    Except.failIf (y.length ≠ expectedLength) (.unexpectedType
      s!"ECDH EC2 public key y must be {expectedLength} bytes or a sign bit")
  | some (.bool _) => .ok ()
  | some _ => .error (.unexpectedType
      s!"ECDH EC2 public key y must be {expectedLength} bytes or a sign bit")
  | none => .error (.custom "ECDH EC2 sender public key is missing y")

/-- `validate_ecdh_public_key`: what the key may be used for. -/
def validateEcdhUse (key : Key) (algorithm : Label) : Except Error Unit := do
  match ← key.alg with
  | some keyAlgorithm => requireSameAlg keyAlgorithm algorithm
  | none => pure ()
  let ops ← key.ops
  Except.failIf (ops.any (· ≠ [])) (.keyOperation
    "an ECDH sender public key must have absent or empty key_ops")

/-- `validate_ecdh_public_key`. -/
def validateEcdhPublicKey (key : Key) (algorithm : Label) : Except Error Unit := do
  validateEcdhUse key algorithm
  let keyType ← match ← key.kty with
    | some keyType => pure keyType
    | none => .error (.custom "ECDH sender key is missing kty")
  let (curveLabel, xLabel, privateLabel) ← Except.ofOption (.custom
    s!"ECDH sender key must use EC2 or OKP, got {keyType.display}") (ecdhLabels keyType)
  let curve ← ecdhCurve key curveLabel
  Except.failIf (key.containsKey privateLabel) (.custom
    "ECDH sender key header parameter must not contain private key material")
  let expectedLength ← Except.ofOption (.custom
    "ECDH sender key has a curve incompatible with its key type") (ecdhLength keyType curve)
  let x ← Except.ofOption (.custom "ECDH sender public key is missing x")
    (← key.getBytes xLabel)
  Except.failIf (x.length ≠ expectedLength) (.custom
    s!"ECDH sender public key x must be {expectedLength} bytes")
  if keyType = keyTypeEC2 then validateEc2Y key expectedLength

/-! ### Recipients -/

/-- `Recipient`. -/
inductive Recipient where
  | mk (protectedHeader unprotectedHeader : Header) (ciphertext : Option Bytes)
    (recipients : List Recipient) (protectedRaw : Option Bytes)

/-- `MAX_RECIPIENT_DEPTH`. -/
def maxRecipientDepth : Nat := 128

namespace Recipient

/-- The protected header. -/
def protectedHeader : Recipient → Header | .mk p _ _ _ _ => p
/-- The unprotected header. -/
def unprotectedHeader : Recipient → Header | .mk _ u _ _ _ => u
/-- The encrypted key. -/
def ciphertext : Recipient → Option Bytes | .mk _ _ ct _ _ => ct
/-- The nested recipients. -/
def recipients : Recipient → List Recipient | .mk _ _ _ rs _ => rs
/-- The protected bytes of a decoded recipient. -/
def protectedRaw : Recipient → Option Bytes | .mk _ _ _ _ raw => raw

/-- `Recipient::new`. -/
def new : Recipient := .mk ∅ ∅ none [] none

instance : Inhabited Recipient := ⟨new⟩

section Local

variable (r : Recipient)

/-- `Recipient::alg`. -/
def alg : Except Error (Option Label) := effectiveAlg r.protectedHeader r.unprotectedHeader

/-- `Recipient::algorithm_class`. -/
def algorithmClass : Except Error (Option RecipientAlgorithmClass) := do
  return (← r.alg).bind classifyRecipientAlgorithm

/-- `header_value`. -/
def headerValue (label : Label) : Option Value :=
  (r.protectedHeader.get label).or (r.unprotectedHeader.get label)

/-- `require_salt_or_party_u_nonce`. -/
def requireSaltOrPartyUNonce (algorithm : String) : Except Error Unit := do
  let salt := r.headerValue headerAlgorithmParameterSalt
  let nonce := r.headerValue headerAlgorithmParameterPartyUNonce
  let saltInput ← match salt with
    | none => pure false
    | some (.bytes value) => pure (value ≠ [])
    | some _ => .error (.unexpectedType "recipient salt must be a byte string")
  let nonceInput ← match nonce with
    | none => pure false
    | some (.bytes value) => pure (value ≠ [])
    | some (.integer _) => pure true
    | some _ => .error (.unexpectedType
        "recipient PartyU nonce must be a byte string or integer")
  Except.failIf (¬ (saltInput = true ∨ nonceInput = true))
    (.custom s!"{algorithm} requires a non-empty salt or PartyU nonce")

variable (c : Cbor2)

/-- `require_sender_key` of a static key. -/
def requireStaticKey (algorithm : Label) : Except Error Unit := do
  let staticKey := r.headerValue headerAlgorithmParameterStaticKey
  let staticId := r.headerValue headerAlgorithmParameterStaticKeyId
  Except.failIf (staticKey.isNone ∧ staticId.isNone)
    (.custom "ECDH-SS recipient is missing static key or static key id")
  match staticKey with
  | some value => validateEcdhPublicKey (← Key.tryFrom c value) algorithm
  | none => pure ()
  match staticId with
  | none | some (.bytes _) => pure ()
  | some _ => .error (.unexpectedType "recipient static key id must be a byte string")
  r.requireSaltOrPartyUNonce "ECDH-SS recipient"

/-- `require_sender_key`. -/
def requireSenderKey (ephemeral : Bool) (algorithm : Label) : Except Error Unit := do
  if ephemeral then
    let value ← Except.ofOption (.custom "ECDH-ES recipient is missing ephemeral key")
      (r.headerValue headerAlgorithmParameterEphemeralKey)
    validateEcdhPublicKey (← Key.tryFrom c value) algorithm
  else r.requireStaticKey c algorithm

/-- The rules for key wrap and key transport that are the same but for the name. -/
def requireWrapped (name : String) : Except Error Unit := do
  Except.failIf (r.protectedHeader.entries ≠ [])
    (.custom s!"{name} COSE_recipient requires empty protected headers")
  let alg ← r.unprotectedHeader.alg
  Except.failIf (alg = none)
    (.custom s!"{name} COSE_recipient requires alg in unprotected headers")
  Except.failIf (r.ciphertext.getD [] = [])
    (.custom s!"{name} COSE_recipient requires encrypted key ciphertext")

/-- The rules for the direct methods that are the same but for the name. -/
def requireDirect (name : String) : Except Error Unit := do
  Except.failIf (r.ciphertext ≠ some [])
    (.custom s!"{name} COSE_recipient requires zero-length ciphertext")
  Except.failIf (¬ r.recipients.isEmpty)
    (.custom s!"{name} COSE_recipient must not contain nested recipients")

/-- `validate_local`: the rules of each class of algorithms. -/
def validateClass (alg : Label) : Except Error Unit :=
  match classifyRecipientAlgorithm alg with
  | some .direct => do
    Except.failIf (r.protectedHeader.entries ≠ [])
      (.custom "direct COSE_recipient requires a zero-length protected field")
    r.requireDirect "direct"
  | some .directKeyDerivation => do
    r.requireDirect "direct KDF"
    r.requireSaltOrPartyUNonce "direct KDF recipient"
  | some .keyWrap => r.requireWrapped "key-wrap"
  | some .keyTransport => do
    r.requireWrapped "key-transport"
    Except.failIf (¬ r.recipients.isEmpty)
      (.custom "key-transport COSE_recipient must not contain nested recipients")
  | some .directKeyAgreement => do
    r.requireDirect "direct key-agreement"
    r.requireSenderKey c
      ([algorithmECDH_ES_HKDF_256, algorithmECDH_ES_HKDF_512].contains alg) alg
  | some .keyAgreementWithKeyWrap => do
    Except.failIf (r.ciphertext.getD [] = []) (.custom
      "key-agreement-with-key-wrap COSE_recipient requires encrypted key ciphertext")
    r.requireSenderKey c ([algorithmECDH_ES_A128KW, algorithmECDH_ES_A192KW,
      algorithmECDH_ES_A256KW].contains alg) alg
  | none => .ok ()

end Local

/-! ### Layers of recipients -/

/-- What a recipient must be alone for. -/
def requireShareable (r : Recipient) : Except Error Unit := do
  match ← r.algorithmClass with
  | some .direct =>
    .error (.custom "direct COSE_recipient must be the only recipient in its layer")
  | some .directKeyDerivation =>
    .error (.custom "direct KDF COSE_recipient must be the only recipient in its layer")
  | some .directKeyAgreement => .error (.custom
      "direct key-agreement COSE_recipient must be the only recipient in its layer")
  | _ => return

/-- `validate_recipient_layer_rules`. -/
def validateLayerRules (recipients : List Recipient) : Except Error Unit :=
  if recipients.length ≤ 1 then .ok () else recipients.forM requireShareable

section Validate

variable (c : Cbor2)

/-- `validate_local`. -/
def validateLocal (r : Recipient) : Except Error Unit := do
  validateHeaderBuckets r.protectedHeader r.unprotectedHeader
  match r.protectedRaw with
  | some raw => validateProtectedState c r.protectedHeader raw
  | none => pure ()
  let alg ← Except.ofOption (.custom "COSE_recipient is missing alg") (← r.alg)
  r.validateClass c alg
  validateLayerRules r.recipients

mutual
/-- `validate_at_depth`. -/
def validateAtDepth (depth : Nat) : Recipient → Except Error Unit
  | .mk p u ct rs raw => do
    Except.failIf (maxRecipientDepth < depth)
      (.limitExceeded "COSE recipient nesting" maxRecipientDepth)
    validateLocal c (.mk p u ct rs raw)
    validateAllAtDepth (depth + 1) rs

/-- `validate_at_depth` for each recipient. -/
def validateAllAtDepth (depth : Nat) : List Recipient → Except Error Unit
  | [] => .ok ()
  | r :: rs => do
    validateAtDepth depth r
    validateAllAtDepth depth rs
end

/-- `require_recipients`. -/
def requireRecipients (recipients : List Recipient) (message : String) : Except Error Unit :=
  Except.failIf recipients.isEmpty (.custom s!"{message} has no recipients")

/-- `validate_message_recipients`. -/
def validateMessageRecipients (recipients : List Recipient) (message : String) :
    Except Error Unit := do
  requireRecipients recipients message
  validateAllAtDepth c 0 recipients
  validateLayerRules recipients

/-- `validate_decoded_recipients`. -/
def validateDecodedRecipients (recipients : List Recipient) (message : String) :
    Except Error Unit := do
  requireRecipients recipients message
  validateLayerRules recipients

end Validate

/-! ### Encoding -/

section Encoding

variable (c : Cbor2)

/-- The protected bytes in `Recipient::serialize`. -/
def serializedProtected (protectedHeader : Header) : Option Bytes → Except Error Bytes
  | some raw => do
    validateProtectedState c protectedHeader raw
    return raw
  | none => encodeProtected c protectedHeader

/-- The ciphertext in `Recipient::serialize`. -/
def serializedCiphertext : Option Bytes → Value
  | some ciphertext => .bytes ciphertext
  | none => .null

mutual
/-- `Recipient::serialize`, into a dynamic value. -/
def serialize : Recipient → Except String Value
  | .mk p u ct rs raw => do
    (validateLocal c (.mk p u ct rs raw)).mapError Error.display
    let protectedRaw ← (serializedProtected c p raw).mapError Error.display
    let unprotected ← u.serialize
    let recipients ← serializeAll rs
    let front := [.bytes protectedRaw, unprotected, serializedCiphertext ct]
    return .array (if rs.isEmpty then front else front ++ [.array recipients])

/-- `Recipient::serialize` for each recipient. -/
def serializeAll : List Recipient → Except String (List Value)
  | [] => .ok []
  | r :: rs => do
    let value ← serialize r
    let values ← serializeAll rs
    return value :: values
end

/-- The elements behind the recipient's header buckets, read in `Recipient::deserialize`. -/
def assemble (protectedRaw : Bytes) (unprotectedHeader : Header) (ciphertext : Option Bytes)
    (recipients : Option (List Recipient)) : Except String Recipient := do
  let protectedHeader ← (decodeProtected c protectedRaw).mapError Error.display
  (validateHeaderBuckets protectedHeader unprotectedHeader).mapError Error.display
  let recipient : Recipient :=
    .mk protectedHeader unprotectedHeader ciphertext (recipients.getD []) (some protectedRaw)
  (validateLocal c recipient).mapError Error.display
  return recipient

/-- `StrictBytes::deserialize`. -/
def strictBytes (t : Tree) : Except String Bytes := do
  (Strict.decodeBytes c (← c.rawValue t)).mapError Error.display

/-- `StrictOptionalBytes::deserialize`. -/
def strictOptionalBytes (t : Tree) : Except String (Option Bytes) := do
  (Strict.decodeOptionalBytes c (← c.rawValue t)).mapError Error.display

mutual
/-- `Recipient::deserialize`. -/
def deserialize : Tree → Except String Recipient
  | .array _ items => deserializeElements items
  | _ => .error "invalid type, expected a COSE_recipient array of 3 or 4 elements"

/-- `visit_seq` in `Recipient::deserialize`. -/
def deserializeElements : List Tree → Except String Recipient
  | [] => .error "missing protected header"
  | [p] => do
    let _ ← strictBytes c p
    .error "missing unprotected header"
  | [p, u] => do
    let _ ← strictBytes c p
    let _ ← Header.deserialize c u
    .error "missing ciphertext"
  | [p, u, ct] => do
    let protectedRaw ← strictBytes c p
    let unprotectedHeader ← Header.deserialize c u
    let ciphertext ← strictOptionalBytes c ct
    assemble c protectedRaw unprotectedHeader ciphertext none
  | p :: u :: ct :: .array _ nested :: rest => do
    let protectedRaw ← strictBytes c p
    let unprotectedHeader ← Header.deserialize c u
    let ciphertext ← strictOptionalBytes c ct
    let recipients ← deserializeAll nested
    Except.failIf recipients.isEmpty "nested recipients array must not be empty when present"
    Except.failIf (rest ≠ [])
      "invalid length 5, expected a COSE_recipient array of 3 or 4 elements"
    assemble c protectedRaw unprotectedHeader ciphertext (some recipients)
  | p :: u :: ct :: _ :: _ => do
    let _ ← strictBytes c p
    let _ ← Header.deserialize c u
    let _ ← strictOptionalBytes c ct
    .error "invalid type, expected a sequence"

/-- `Vec::<Recipient>::deserialize`, of the elements. -/
def deserializeAll : List Tree → Except String (List Recipient)
  | [] => .ok []
  | t :: ts => do
    let recipient ← deserialize t
    let recipients ← deserializeAll ts
    return recipient :: recipients
end

/-- `Recipient::from_slice`. -/
def fromSlice (data : Bytes) : Except Error Recipient := do
  Strict.validateArray c data
  let recipient ← (do deserialize c (← c.item data)).mapError .cbor
  validateAtDepth c 0 recipient
  return recipient

/-- `Recipient::to_vec`. -/
def toVec (r : Recipient) : Except Error Bytes := do
  validateAtDepth c 0 r
  (serialize c r >>= c.toCanonicalVec).mapError .cbor

end Encoding
end Recipient
end Cose2

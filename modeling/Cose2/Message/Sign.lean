import Cose2.Message.Authenticated

/-! # Messages with several signatures

`src/sign.rs`.  A message has a list of signature slots, each with headers and a
state of its own, and the list is public.
-/
namespace Cose2

open Cbor

/-! ### Slots -/

/-- `Signature`. -/
structure Signature where
  protectedHeader : Header := ∅
  unprotectedHeader : Header := ∅
  signature : Bytes := []
  protectedRaw : Bytes := []
  state : OperationState := .new

namespace Signature

/-- `Signature::new`. -/
def new : Signature := {}

/-- `Signature::with_alg_kid`. -/
def withAlgKid (alg : Option Label) (kid : Option Bytes) : Signature where
  protectedHeader := (alg.map (Header.setAlg ∅)).getD ∅
  unprotectedHeader := (kid.map (Header.setKid ∅)).getD ∅

/-- `Signature::kid`. -/
def kid (s : Signature) : Except Error (Option Bytes) := do
  match ← s.protectedHeader.kid with
  | some kid => return some kid
  | none => s.unprotectedHeader.kid

section Encoding

variable (c : Cbor2)

/-- `Signature::set_signature`. -/
def setSignature (signature : Bytes) : Op Error Signature Unit := do
  let s ← Op.get
  let protectedRaw ← Op.lift
    (syncProtectedRaw c s.protectedHeader s.unprotectedHeader s.protectedRaw s.state)
  Op.modify fun s => { s with protectedRaw, signature, state := .complete }

/-- What `prepare_signature_headers` does to a slot. -/
def prepared (s : Signature) : Except Error Signature := do
  validateHeaderBuckets s.protectedHeader s.unprotectedHeader
  let protectedRaw ← encodeProtected c s.protectedHeader
  return { s with protectedRaw, state := .prepared, signature := [] }

/-- `SignatureRef::serialize`, into a dynamic value. -/
def serialize (s : Signature) : Except String Value := do
  return .array [.bytes s.protectedRaw, ← s.unprotectedHeader.serialize, .bytes s.signature]

/-- `SignatureWire`: a slot as it was read, without its protected header. -/
def readWire (t : Tree) : Except String Signature :=
  match t with
  | .array _ [protectedItem, unprotectedItem, signatureItem] => do
    let protectedRaw ← c.byteBuf protectedItem
    let unprotectedHeader ← Header.deserializeChecked c unprotectedItem
    let signature ← c.byteBuf signatureItem
    return { signature, unprotectedHeader, protectedRaw }
  | _ => .error "invalid length"

/-- What `from_slice` makes of a slot. -/
def decoded (s : Signature) : Except Error Signature := do
  let protectedHeader ← decodeProtected c s.protectedRaw
  validateHeaderBuckets protectedHeader s.unprotectedHeader
  return { s with protectedHeader, state := .complete }

end Encoding
end Signature

/-! ### Messages -/

/-- `SignMessage`. -/
structure SignMessage where
  protectedHeader : Header := ∅
  unprotectedHeader : Header := ∅
  payload : Option Bytes := none
  signatures : List Signature := []
  protectedRaw : Bytes := []
  state : OperationState := .new

namespace SignMessage

/-- `SignMessage::new`. -/
def new (payload : Option Bytes) : SignMessage := { payload }

variable (c : Cbor2)

/-- `SignMessage::to_be_signed`. -/
def toBeSigned (bodyProtected signProtected externalAad payload : Bytes) : Except Error Bytes :=
  encodeStructure c "Signature" [bodyProtected, signProtected, externalAad, payload]

/-! ### Preparing and completing -/

/-- `prepare_signature_headers`. -/
def prepareSignatureHeaders (signatures : List Signature) : Op Error SignMessage Unit := do
  let m ← Op.get
  Op.lift (Except.failIf (signatures.isEmpty)
    (.custom "SignMessage requires at least one signature"))
  Op.lift (validateHeaderBuckets m.protectedHeader m.unprotectedHeader)
  let protectedRaw ← Op.lift (encodeProtected c m.protectedHeader)
  let signatures ← Op.lift (signatures.mapM (Signature.prepared c))
  Op.modify fun m => { m with protectedRaw, state := .prepared, signatures }

/-- `signature_inputs`. -/
def signatureInputs (m : SignMessage) (payload externalAad : Bytes) :
    Except Error (List Bytes) :=
  m.signatures.mapM fun s => toBeSigned c m.protectedRaw s.protectedRaw externalAad payload

/-- `prepare_signatures`. -/
def prepareSignatures (signatures : List Signature) (externalAad : Option Bytes) :
    Op Error SignMessage (List Bytes) := do
  prepareSignatureHeaders c signatures
  let m ← Op.get
  let payload ← Op.lift
    (requireEmbeddedPayload m.payload "SignMessage::prepare_signatures")
  Op.lift (m.signatureInputs c payload (externalAad.getD []))

/-- `prepare_detached_signatures`. -/
def prepareDetachedSignatures (signatures : List Signature) (detachedPayload : Bytes)
    (externalAad : Option Bytes) : Op Error SignMessage (List Bytes) := do
  prepareSignatureHeaders c signatures
  let m ← Op.get
  let toBeSigned ← Op.lift (m.signatureInputs c detachedPayload (externalAad.getD []))
  Op.modify fun m => { m with payload := none }
  return toBeSigned

/-- `set_signature` for each slot in turn, up to the first that fails. -/
def setSlots : List Bytes → List Signature → Except Error Unit × List Signature
  | signature :: signatures, slot :: slots =>
    match (Signature.setSignature c signature).run slot with
    | (.ok _, slot) =>
      let rest := setSlots signatures slots
      (rest.1, slot :: rest.2)
    | (.error e, slot) => (.error e, slot :: slots)
  | _, slots => (.ok (), slots)

/-- `set_signatures`. -/
def setSignatures (signatures : List Bytes) : Op Error SignMessage Unit := do
  let m ← Op.get
  Op.lift (Except.failIf signatures.isEmpty
    (.custom "SignMessage requires at least one signature"))
  Op.lift (Except.failIf (signatures.length ≠ m.signatures.length) (.custom
    s!"signature count mismatch, message has {m.signatures.length}, got {signatures.length}"))
  let protectedRaw ← Op.lift
    (syncProtectedRaw c m.protectedHeader m.unprotectedHeader m.protectedRaw m.state)
  Op.modify fun m => { m with protectedRaw }
  Op.on SignMessage.signatures (fun signatures m => { m with signatures })
    (Op.of (setSlots c signatures))
  Op.modify fun m => { m with state := .complete }

/-- `sign_with_payload`. -/
def signWithPayload (signers : List Signer) (detachedPayload : Option Bytes)
    (externalAad : Bytes) : Op Error SignMessage Unit := do
  Op.lift (Except.failIf signers.isEmpty (.custom "SignMessage requires at least one signer"))
  prepareSignatureHeaders c (signers.map fun signer => .withAlgKid signer.alg signer.kid)
  let m ← Op.get
  let payload ← Op.lift <|
    match detachedPayload with
    | some payload => .ok payload
    | none => requireEmbeddedPayload m.payload "SignMessage::sign"
  let signatures ← Op.lift <| (signers.zip m.signatures).mapM fun (signer, s) => do
    signer.sign (← toBeSigned c m.protectedRaw s.protectedRaw externalAad payload)
  Op.modify fun m => { m with
    signatures := m.signatures.zipWith (fun s signature => { s with signature, state := .complete })
      signatures
    state := .complete }

/-- `sign`. -/
def sign (signers : List Signer) (externalAad : Option Bytes) : Op Error SignMessage Unit :=
  signWithPayload c signers none (externalAad.getD [])

/-- `sign_detached`. -/
def signDetached (signers : List Signer) (detachedPayload : Bytes)
    (externalAad : Option Bytes) : Op Error SignMessage Unit := do
  signWithPayload c signers (some detachedPayload) (externalAad.getD [])
  Op.modify fun m => { m with payload := none }

/-! ### Encoding and decoding -/

/-- `encode`. -/
def encode (m : SignMessage) (tagPrefix : Bytes) : Except Error Bytes := do
  m.state.requireComplete "SignMessage must be signed before encoding"
  Except.failIf m.signatures.isEmpty (.custom "SignMessage has no signatures")
  validateLayer c m.protectedHeader m.unprotectedHeader m.protectedRaw
  m.signatures.forM fun s => validateLayer c s.protectedHeader s.unprotectedHeader s.protectedRaw
  let unprotected ← headerRaw c m.unprotectedHeader
  let signatures ← canonicalRaw c (.array <$> m.signatures.mapM Signature.serialize)
  encodePrefixed c tagPrefix [.value (.bytes m.protectedRaw), .raw unprotected,
    payloadPart m.payload, .raw signatures]

/-- `to_vec`. -/
def toVec (m : SignMessage) : Except Error Bytes := m.encode c [0xd8, 0x62]

/-- `to_cwt_vec`. -/
def toCwtVec (m : SignMessage) : Except Error Bytes := m.encode c [0xd8, 0x3d, 0xd8, 0x62]

/-- `to_untagged_vec`. -/
def toUntaggedVec (m : SignMessage) : Except Error Bytes := m.encode c []

/-- `sign_and_encode`. -/
def signAndEncode (signers : List Signer) (externalAad : Option Bytes) :
    Op Error SignMessage Bytes := do
  sign c signers externalAad
  let m ← Op.get
  Op.lift (m.toVec c)

/-- `sign_detached_and_encode`. -/
def signDetachedAndEncode (signers : List Signer) (detachedPayload : Bytes)
    (externalAad : Option Bytes) : Op Error SignMessage Bytes := do
  signDetached c signers detachedPayload externalAad
  let m ← Op.get
  Op.lift (m.toVec c)

/-- `SignWire`: a message as it was read, without its protected headers. -/
def readWire (t : Tree) : Except String SignMessage :=
  match t with
  | .array _ [protectedItem, unprotectedItem, payloadItem, .array _ slots] => do
    let protectedRaw ← c.byteBuf protectedItem
    let unprotectedHeader ← Header.deserializeChecked c unprotectedItem
    let payload ← c.optionByteBuf payloadItem
    let signatures ← slots.mapM (Signature.readWire c)
    return { signatures, unprotectedHeader, payload, protectedRaw }
  | _ => .error "invalid length"

/-- `from_slice`. -/
def fromSlice (data : Bytes) : Except Error SignMessage := do
  let body ← Strict.messageBody c data 98 {}
  let wire ← (do readWire c (← c.item body)).mapError .cbor
  Except.failIf wire.signatures.isEmpty (.custom "SignMessage has no signatures")
  let protectedHeader ← decodeProtected c wire.protectedRaw
  validateHeaderBuckets protectedHeader wire.unprotectedHeader
  let signatures ← wire.signatures.mapM (Signature.decoded c)
  return { wire with protectedHeader, signatures, state := .complete }

/-! ### Verification -/

/-- One verifier tried on one slot. -/
def tryVerifier (m : SignMessage) (s : Signature) (structured : Bytes) (verifier : Verifier) :
    Except Error Unit := do
  m.protectedHeader.ensureCritUnderstood c verifier.understoodCriticalHeaders
  s.protectedHeader.ensureCritUnderstood c verifier.understoodCriticalHeaders
  checkProtectedAlg s.protectedHeader s.unprotectedHeader verifier.alg
  verifier.verify structured s.signature

/-- The candidates for a slot: the verifiers with its key id, then those to which a
key id does not apply. -/
def candidates (kid : Option Bytes) (verifiers : List Verifier) : List Verifier :=
  [0, 1].flatMap fun rank => verifiers.filter fun v => kidMatchRank kid v.kid = some rank

/-- The candidates tried in turn, up to the first that accepts. -/
def tryVerifiers (m : SignMessage) (s : Signature) (structured : Bytes) :
    List Verifier → Except Error Unit → Except Error Unit
  | [], last => last
  | verifier :: verifiers, _ =>
    match m.tryVerifier c s structured verifier with
    | .ok _ => .ok ()
    | .error e => tryVerifiers m s structured verifiers (.error e)

/-- One slot in `verify_payload`. -/
def verifySlot (m : SignMessage) (verifiers : List Verifier) (payload externalAad : Bytes)
    (s : Signature) : Except Error Unit := do
  validateLayer c s.protectedHeader s.unprotectedHeader s.protectedRaw
  let kid ← s.kid
  let structured ← toBeSigned c m.protectedRaw s.protectedRaw externalAad payload
  m.tryVerifiers c s structured (candidates kid verifiers)
    (.error (.verify "no verifier for signature kid"))

/-- `verify_payload`. -/
def verifyPayload (m : SignMessage) (verifiers : List Verifier) (payload externalAad : Bytes) :
    Except Error Unit := do
  m.state.requireComplete "SignMessage must be decoded before verifying"
  Except.failIf verifiers.isEmpty (.custom "SignMessage requires at least one verifier")
  Except.failIf m.signatures.isEmpty (.custom "SignMessage has no signatures")
  validateLayer c m.protectedHeader m.unprotectedHeader m.protectedRaw
  m.signatures.forM (m.verifySlot c verifiers payload externalAad)

/-- `verify`. -/
def verify (m : SignMessage) (verifiers : List Verifier) (externalAad : Option Bytes) :
    Except Error Unit := do
  let payload ← requireEmbeddedPayload m.payload "SignMessage::verify"
  m.verifyPayload c verifiers payload (externalAad.getD [])

/-- `verify_detached`. -/
def verifyDetached (m : SignMessage) (verifiers : List Verifier) (detachedPayload : Bytes)
    (externalAad : Option Bytes) : Except Error Unit := do
  Except.failIf m.payload.isSome
    (.custom "SignMessage carries an embedded payload; use verify")
  m.verifyPayload c verifiers detachedPayload (externalAad.getD [])

/-- `verify_and_decode`. -/
def verifyAndDecode (verifiers : List Verifier) (data : Bytes) (externalAad : Option Bytes) :
    Except Error SignMessage := do
  let m ← fromSlice c data
  m.verify c verifiers externalAad
  return m

/-- `verify_detached_and_decode`. -/
def verifyDetachedAndDecode (verifiers : List Verifier) (data detachedPayload : Bytes)
    (externalAad : Option Bytes) : Except Error SignMessage := do
  let m ← fromSlice c data
  m.verifyDetached c verifiers detachedPayload externalAad
  return m

end SignMessage
end Cose2

import Cose2.Recipient

/-! # Signed and authenticated messages

`src/sign1.rs`, `src/mac0.rs` and `src/mac.rs`.  The three types have the same
operations, line for line, on the same fields; they differ in their names and
numbers, and `COSE_Mac` alone carries recipients.  So each is an `AuthType`, and
the operations are defined once for all of them.
-/
namespace Cose2

open Cbor

/-- `Sign1Message`, `Mac0Message` and `MacMessage`; `ρ` is the type of the
recipients, and `result` is the signature or the tag. -/
structure AuthMessage (ρ : Type) where
  protectedHeader : Header := ∅
  unprotectedHeader : Header := ∅
  payload : Option Bytes := none
  recipients : ρ
  result : Bytes := []
  protectedRaw : Bytes := []
  state : OperationState := .new

/-- What distinguishes one of the types from the others. -/
structure AuthType (ρ : Type) where
  /-- `TAG`. -/
  tag : Nat
  /-- The prefix of `to_vec`. -/
  tagPrefix : Bytes
  /-- The prefix of `to_cwt_vec`. -/
  cwtPrefix : Bytes
  /-- The context string of the authenticated structure. -/
  context : String
  /-- The name of the type, and of its operations, in errors. -/
  name : String
  prepareOperation : String
  completeOperation : String
  verifyOperation : String
  /-- The error of encoding too early. -/
  incomplete : String
  /-- The recipients of a new message. -/
  noRecipients : ρ
  /-- `validate_message_recipients`, where there are recipients. -/
  validateRecipients : ρ → Except Error Unit
  /-- `validate_decoded_recipients`, where there are recipients. -/
  validateDecoded : ρ → Except Error Unit
  /-- The elements of the message behind the first four. -/
  writeRecipients : ρ → Except Error (List Part)
  readRecipients : List Tree → Except String ρ

namespace AuthMessage

variable {ρ : Type}

/-- The header buckets. -/
def buckets (m : AuthMessage ρ) : Buckets := ⟨m.protectedHeader, m.unprotectedHeader⟩

/-- Replaces the header buckets. -/
def withBuckets (b : Buckets) (m : AuthMessage ρ) : AuthMessage ρ :=
  { m with protectedHeader := b.protectedHeader, unprotectedHeader := b.unprotectedHeader }

end AuthMessage

/-- `payload.as_deref().map(Bytes::new)` as an element of a message. -/
def payloadPart : Option Bytes → Part
  | some payload => .value (.bytes payload)
  | none => .value .null

namespace AuthType

open AuthMessage

variable {ρ : Type} (k : AuthType ρ) (c : Cbor2)

/-- `new`. -/
def new (payload : Option Bytes) : AuthMessage ρ := { payload, recipients := k.noRecipients }

/-- `to_be_signed`, `to_be_maced`. -/
def toBeAuthenticated (protectedRaw externalAad payload : Bytes) : Except Error Bytes :=
  encodeStructure c k.context [protectedRaw, externalAad, payload]

/-! ### Preparing and completing -/

/-- `prepare_signature_headers`, `prepare_tag_headers`. -/
def prepareOwnHeaders (alg : Option Label) (kid : Option Bytes) :
    Op Error (AuthMessage ρ) Unit := do
  let m ← Op.get
  Op.lift (k.validateRecipients m.recipients)
  let protectedRaw ← Op.on buckets withBuckets (prepareHeaders c alg kid)
  Op.modify fun m => { m with protectedRaw, state := .prepared, result := [] }

/-- `prepare_signature`, `prepare_tag`. -/
def prepare (alg : Option Label) (kid : Option Bytes) (externalAad : Option Bytes) :
    Op Error (AuthMessage ρ) Bytes := do
  k.prepareOwnHeaders c alg kid
  let m ← Op.get
  let payload ← Op.lift (requireEmbeddedPayload m.payload k.prepareOperation)
  Op.lift (k.toBeAuthenticated c m.protectedRaw (externalAad.getD []) payload)

/-- `prepare_detached_signature`, `prepare_detached_tag`. -/
def prepareDetached (alg : Option Label) (kid : Option Bytes) (detachedPayload : Bytes)
    (externalAad : Option Bytes) : Op Error (AuthMessage ρ) Bytes := do
  k.prepareOwnHeaders c alg kid
  let m ← Op.get
  let structured ← Op.lift
    (k.toBeAuthenticated c m.protectedRaw (externalAad.getD []) detachedPayload)
  Op.modify fun m => { m with payload := none }
  return structured

/-- `set_signature`, `set_tag`. -/
def setResult (result : Bytes) : Op Error (AuthMessage ρ) Unit := do
  let m ← Op.get
  Op.lift (k.validateRecipients m.recipients)
  let protectedRaw ← Op.lift
    (syncProtectedRaw c m.protectedHeader m.unprotectedHeader m.protectedRaw m.state)
  Op.modify fun m => { m with protectedRaw, result, state := .complete }

/-- `sign`, `compute`; `create` is `Signer::sign` or `Macer::mac_create`. -/
def complete (alg : Option Label) (kid : Option Bytes) (create : Bytes → Except Error Bytes)
    (externalAad : Option Bytes) : Op Error (AuthMessage ρ) Unit := do
  k.prepareOwnHeaders c alg kid
  let m ← Op.get
  let payload ← Op.lift (requireEmbeddedPayload m.payload k.completeOperation)
  let structured ← Op.lift
    (k.toBeAuthenticated c m.protectedRaw (externalAad.getD []) payload)
  let result ← Op.lift (create structured)
  Op.modify fun m => { m with result, state := .complete }

/-- `sign_detached`, `compute_detached`. -/
def completeDetached (alg : Option Label) (kid : Option Bytes)
    (create : Bytes → Except Error Bytes) (detachedPayload : Bytes)
    (externalAad : Option Bytes) : Op Error (AuthMessage ρ) Unit := do
  k.prepareOwnHeaders c alg kid
  let m ← Op.get
  let structured ← Op.lift
    (k.toBeAuthenticated c m.protectedRaw (externalAad.getD []) detachedPayload)
  let result ← Op.lift (create structured)
  Op.modify fun m => { m with result, state := .complete, payload := none }

/-! ### Encoding and decoding -/

/-- `encode`. -/
def encode (m : AuthMessage ρ) (tagPrefix : Bytes) : Except Error Bytes := do
  m.state.requireComplete k.incomplete
  k.validateRecipients m.recipients
  validateLayer c m.protectedHeader m.unprotectedHeader m.protectedRaw
  let unprotected ← headerRaw c m.unprotectedHeader
  let recipients ← k.writeRecipients m.recipients
  encodePrefixed c tagPrefix ([.value (.bytes m.protectedRaw), .raw unprotected,
    payloadPart m.payload, .value (.bytes m.result)] ++ recipients)

/-- `to_vec`. -/
def toVec (m : AuthMessage ρ) : Except Error Bytes := k.encode c m k.tagPrefix

/-- `to_cwt_vec`. -/
def toCwtVec (m : AuthMessage ρ) : Except Error Bytes := k.encode c m k.cwtPrefix

/-- `to_untagged_vec`. -/
def toUntaggedVec (m : AuthMessage ρ) : Except Error Bytes := k.encode c m []

/-- `sign_and_encode`, `compute_and_encode`. -/
def completeAndEncode (alg : Option Label) (kid : Option Bytes)
    (create : Bytes → Except Error Bytes) (externalAad : Option Bytes) :
    Op Error (AuthMessage ρ) Bytes := do
  k.complete c alg kid create externalAad
  let m ← Op.get
  Op.lift (k.toVec c m)

/-- `sign_detached_and_encode`, `compute_detached_and_encode`. -/
def completeDetachedAndEncode (alg : Option Label) (kid : Option Bytes)
    (create : Bytes → Except Error Bytes) (detachedPayload : Bytes)
    (externalAad : Option Bytes) : Op Error (AuthMessage ρ) Bytes := do
  k.completeDetached c alg kid create detachedPayload externalAad
  let m ← Op.get
  Op.lift (k.toVec c m)

/-- `Sign1Wire`, `Mac0Wire`, `MacWire`: a message as it was read, without its
protected header. -/
def readWire (t : Tree) : Except String (AuthMessage ρ) :=
  match t with
  | .array _ (protectedItem :: unprotectedItem :: payloadItem :: resultItem :: rest) => do
    let protectedRaw ← c.byteBuf protectedItem
    let unprotectedHeader ← Header.deserializeChecked c unprotectedItem
    let payload ← c.optionByteBuf payloadItem
    let result ← c.byteBuf resultItem
    let recipients ← k.readRecipients rest
    return { unprotectedHeader, payload, recipients, result, protectedRaw }
  | _ => .error "invalid length"

/-- `from_slice_with_limits`. -/
def fromSliceWithLimits (data : Bytes) (limits : CborLimits) :
    Except Error (AuthMessage ρ) := do
  let body ← Strict.messageBody c data k.tag limits
  let wire ← (do k.readWire c (← c.item body)).mapError .cbor
  k.validateDecoded wire.recipients
  let protectedHeader ← decodeProtected c wire.protectedRaw
  validateHeaderBuckets protectedHeader wire.unprotectedHeader
  return { wire with protectedHeader, state := .complete }

/-- `from_slice`. -/
def fromSlice (data : Bytes) : Except Error (AuthMessage ρ) := k.fromSliceWithLimits c data {}

/-! ### Verification -/

/-- `verify_payload`; `check` is `Verifier::verify` or `Macer::mac_verify`. -/
def verifyPayload (m : AuthMessage ρ) (understood : List Label) (alg : Option Label)
    (check : Bytes → Bytes → Except Error Unit) (payload externalAad : Bytes) :
    Except Error Unit := do
  validateLayer c m.protectedHeader m.unprotectedHeader m.protectedRaw
  m.protectedHeader.ensureCritUnderstood c understood
  checkProtectedAlg m.protectedHeader m.unprotectedHeader alg
  let structured ← k.toBeAuthenticated c m.protectedRaw externalAad payload
  check structured m.result

/-- `verify`. -/
def verify (m : AuthMessage ρ) (understood : List Label) (alg : Option Label)
    (check : Bytes → Bytes → Except Error Unit) (externalAad : Option Bytes) :
    Except Error Unit := do
  m.state.requireComplete s!"{k.name} must be decoded before verifying"
  let payload ← requireEmbeddedPayload m.payload k.verifyOperation
  k.verifyPayload c m understood alg check payload (externalAad.getD [])

/-- `verify_detached`. -/
def verifyDetached (m : AuthMessage ρ) (understood : List Label) (alg : Option Label)
    (check : Bytes → Bytes → Except Error Unit) (detachedPayload : Bytes)
    (externalAad : Option Bytes) : Except Error Unit := do
  m.state.requireComplete s!"{k.name} must be decoded before verifying"
  Except.failIf m.payload.isSome
    (.custom s!"{k.name} carries an embedded payload; use verify")
  k.verifyPayload c m understood alg check detachedPayload (externalAad.getD [])

/-- `verify_and_decode`. -/
def verifyAndDecode (understood : List Label) (alg : Option Label)
    (check : Bytes → Bytes → Except Error Unit) (data : Bytes) (externalAad : Option Bytes) :
    Except Error (AuthMessage ρ) := do
  let m ← k.fromSlice c data
  k.verify c m understood alg check externalAad
  return m

/-- `verify_detached_and_decode`. -/
def verifyDetachedAndDecode (understood : List Label) (alg : Option Label)
    (check : Bytes → Bytes → Except Error Unit) (data detachedPayload : Bytes)
    (externalAad : Option Bytes) : Except Error (AuthMessage ρ) := do
  let m ← k.fromSlice c data
  k.verifyDetached c m understood alg check detachedPayload externalAad
  return m

end AuthType

/-! ### The three types -/

/-- A type without recipients has no elements behind the first four. -/
def readNoRecipients : List Tree → Except String Unit
  | [] => .ok ()
  | _ => .error "invalid length"

/-- `Vec::<Recipient>::deserialize`, of the last element of a message. -/
def readRecipientList (c : Cbor2) : List Tree → Except String (List Recipient)
  | [.array _ items] => Recipient.deserializeAll c items
  | _ => .error "invalid type, expected a sequence"

/-- The recipients as the last element of a message. -/
def writeRecipientList (c : Cbor2) (recipients : List Recipient) : Except Error (List Part) := do
  return [.raw (← canonicalRaw c (.array <$> Recipient.serializeAll c recipients))]

/-- `Sign1Message`. -/
def sign1 : AuthType Unit where
  tag := 18
  tagPrefix := [0xd2]
  cwtPrefix := [0xd8, 0x3d, 0xd2]
  context := "Signature1"
  name := "Sign1Message"
  prepareOperation := "Sign1Message::prepare_signature"
  completeOperation := "Sign1Message::sign"
  verifyOperation := "Sign1Message::verify"
  incomplete := "Sign1Message must be signed before encoding"
  noRecipients := ()
  validateRecipients _ := .ok ()
  validateDecoded _ := .ok ()
  writeRecipients _ := .ok []
  readRecipients := readNoRecipients

namespace Sign1Message

variable (c : Cbor2)

/-- `Sign1Message::to_be_signed`. -/
def toBeSigned := sign1.toBeAuthenticated c

/-- `Sign1Message::prepare_signature`. -/
def prepareSignature := sign1.prepare c

/-- `Sign1Message::prepare_detached_signature`. -/
def prepareDetachedSignature := sign1.prepareDetached c

/-- `Sign1Message::set_signature`. -/
def setSignature := sign1.setResult c

/-- `Sign1Message::sign`. -/
def sign (signer : Signer) := sign1.complete c signer.alg signer.kid signer.sign

/-- `Sign1Message::sign_detached`. -/
def signDetached (signer : Signer) := sign1.completeDetached c signer.alg signer.kid signer.sign

/-- `Sign1Message::verify`. -/
def verify (m : AuthMessage Unit) (verifier : Verifier) :=
  sign1.verify c m verifier.understoodCriticalHeaders verifier.alg verifier.verify

/-- `Sign1Message::verify_detached`. -/
def verifyDetached (m : AuthMessage Unit) (verifier : Verifier) :=
  sign1.verifyDetached c m verifier.understoodCriticalHeaders verifier.alg verifier.verify

end Sign1Message

/-- `Mac0Message`. -/
def mac0 : AuthType Unit where
  tag := 17
  tagPrefix := [0xd1]
  cwtPrefix := [0xd8, 0x3d, 0xd1]
  context := "MAC0"
  name := "Mac0Message"
  prepareOperation := "Mac0Message::prepare_tag"
  completeOperation := "Mac0Message::compute"
  verifyOperation := "Mac0Message::verify"
  incomplete := "Mac0Message must be computed before encoding"
  noRecipients := ()
  validateRecipients _ := .ok ()
  validateDecoded _ := .ok ()
  writeRecipients _ := .ok []
  readRecipients := readNoRecipients

namespace Mac0Message

variable (c : Cbor2)

/-- `Mac0Message::to_be_maced`. -/
def toBeMaced := mac0.toBeAuthenticated c

/-- `Mac0Message::prepare_tag`. -/
def prepareTag := mac0.prepare c

/-- `Mac0Message::prepare_detached_tag`. -/
def prepareDetachedTag := mac0.prepareDetached c

/-- `Mac0Message::set_tag`. -/
def setTag := mac0.setResult c

/-- `Mac0Message::compute`. -/
def compute (macer : Macer) := mac0.complete c macer.alg macer.kid macer.macCreate

/-- `Mac0Message::compute_detached`. -/
def computeDetached (macer : Macer) :=
  mac0.completeDetached c macer.alg macer.kid macer.macCreate

/-- `Mac0Message::verify`. -/
def verify (m : AuthMessage Unit) (macer : Macer) :=
  mac0.verify c m macer.understoodCriticalHeaders macer.alg macer.macVerify

/-- `Mac0Message::verify_detached`. -/
def verifyDetached (m : AuthMessage Unit) (macer : Macer) :=
  mac0.verifyDetached c m macer.understoodCriticalHeaders macer.alg macer.macVerify

end Mac0Message

/-- `MacMessage`. -/
def mac (c : Cbor2) : AuthType (List Recipient) where
  tag := 97
  tagPrefix := [0xd8, 0x61]
  cwtPrefix := [0xd8, 0x3d, 0xd8, 0x61]
  context := "MAC"
  name := "MacMessage"
  prepareOperation := "MacMessage::prepare_tag"
  completeOperation := "MacMessage::compute"
  verifyOperation := "MacMessage::verify"
  incomplete := "MacMessage must be computed before encoding"
  noRecipients := []
  validateRecipients rs := Recipient.validateMessageRecipients c rs "MacMessage"
  validateDecoded rs := Recipient.validateDecodedRecipients rs "MacMessage"
  writeRecipients := writeRecipientList c
  readRecipients := readRecipientList c

namespace MacMessage

variable (c : Cbor2)

/-- `MacMessage::to_be_maced`. -/
def toBeMaced := (mac c).toBeAuthenticated c

/-- `MacMessage::prepare_tag`. -/
def prepareTag := (mac c).prepare c

/-- `MacMessage::prepare_detached_tag`. -/
def prepareDetachedTag := (mac c).prepareDetached c

/-- `MacMessage::set_tag`. -/
def setTag := (mac c).setResult c

/-- `MacMessage::compute`. -/
def compute (macer : Macer) := (mac c).complete c macer.alg macer.kid macer.macCreate

/-- `MacMessage::compute_detached`. -/
def computeDetached (macer : Macer) :=
  (mac c).completeDetached c macer.alg macer.kid macer.macCreate

/-- `MacMessage::verify`. -/
def verify (m : AuthMessage (List Recipient)) (macer : Macer) :=
  (mac c).verify c m macer.understoodCriticalHeaders macer.alg macer.macVerify

/-- `MacMessage::verify_detached`. -/
def verifyDetached (m : AuthMessage (List Recipient)) (macer : Macer) :=
  (mac c).verifyDetached c m macer.understoodCriticalHeaders macer.alg macer.macVerify

end MacMessage

end Cose2

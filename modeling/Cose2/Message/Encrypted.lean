import Cose2.Message.Authenticated

/-! # Encrypted messages

`src/encrypt0.rs` and `src/encrypt.rs`, which differ as the authenticated types
do.  Unlike those, they prepare the headers of a message before they have looked
at its plaintext and nonce, and change the rest of it only afterwards.
-/
namespace Cose2

open Cbor

/-- `Encrypt0Message` and `EncryptMessage`; `ρ` is the type of the recipients. -/
structure EncMessage (ρ : Type) where
  protectedHeader : Header := ∅
  unprotectedHeader : Header := ∅
  payload : Option Bytes := none
  recipients : ρ
  ciphertext : Bytes := []
  ciphertextDetached : Bool := false
  protectedRaw : Bytes := []
  state : OperationState := .new

/-- What distinguishes one of the types from the other. -/
structure EncType (ρ : Type) where
  /-- `TAG`. -/
  tag : Nat
  /-- The prefix of `to_vec`. -/
  tagPrefix : Bytes
  /-- The prefix of `to_cwt_vec`. -/
  cwtPrefix : Bytes
  /-- The context string of the authenticated structure. -/
  context : String
  /-- The name of the type in errors. -/
  name : String
  /-- The recipients of a new message. -/
  noRecipients : ρ
  /-- `validate_message_recipients`, where there are recipients. -/
  validateRecipients : ρ → Except Error Unit
  /-- `validate_decoded_recipients`, where there are recipients. -/
  validateDecoded : ρ → Except Error Unit
  /-- The elements of the message behind the first three. -/
  writeRecipients : ρ → Except Error (List Part)
  readRecipients : List Tree → Except String ρ

namespace EncMessage

variable {ρ : Type}

/-- The header buckets. -/
def buckets (m : EncMessage ρ) : Buckets := ⟨m.protectedHeader, m.unprotectedHeader⟩

/-- Replaces the header buckets. -/
def withBuckets (b : Buckets) (m : EncMessage ρ) : EncMessage ρ :=
  { m with protectedHeader := b.protectedHeader, unprotectedHeader := b.unprotectedHeader }

/-- The ciphertext as it is encoded: absent when it is detached. -/
def embedded (m : EncMessage ρ) : Option Bytes :=
  if m.ciphertextDetached then none else some m.ciphertext

end EncMessage

namespace EncType

open EncMessage

variable {ρ : Type} (k : EncType ρ) (c : Cbor2)

/-- `new`. -/
def new (payload : Option Bytes) : EncMessage ρ := { payload, recipients := k.noRecipients }

/-- `to_be_encrypted`. -/
def toBeEncrypted (protectedRaw externalAad : Bytes) : Except Error Bytes :=
  encodeStructure c k.context [protectedRaw, externalAad]

/-! ### Encryption -/

/-- `prepare_encryption`. -/
def prepareEncryption (alg : Option Label) (kid : Option Bytes) (nonceSize : Nat)
    (baseIv externalAad : Option Bytes) : Op Error (EncMessage ρ) EncryptionContext := do
  let m ← Op.get
  Op.lift (k.validateRecipients m.recipients)
  let protectedRaw ← Op.on buckets withBuckets (prepareHeaders c alg kid)
  let m ← Op.get
  let _ ← Op.lift (requirePlaintext m.payload s!"{k.name}::prepare_encryption")
  let nonce ← Op.lift
    (nonceFromHeaderValues m.protectedHeader m.unprotectedHeader nonceSize baseIv)
  let aad ← Op.lift (k.toBeEncrypted c protectedRaw (externalAad.getD []))
  Op.modify fun m =>
    { m with protectedRaw, state := .prepared, ciphertext := [], ciphertextDetached := false }
  return { nonce, aad }

/-- `set_ciphertext`. -/
def setCiphertext (ciphertext : Bytes) (detached : Bool) : Op Error (EncMessage ρ) Unit := do
  let m ← Op.get
  Op.lift (k.validateRecipients m.recipients)
  let protectedRaw ← Op.lift
    (syncProtectedRaw c m.protectedHeader m.unprotectedHeader m.protectedRaw m.state)
  Op.modify fun m =>
    { m with protectedRaw, ciphertext, ciphertextDetached := detached, state := .complete }

/-- `encrypt`. -/
def encrypt (encryptor : Encryptor) (externalAad : Option Bytes) :
    Op Error (EncMessage ρ) Unit := do
  let context ← k.prepareEncryption c encryptor.alg encryptor.kid encryptor.nonceSize
    encryptor.baseIv externalAad
  let m ← Op.get
  let plaintext ← Op.lift (requirePlaintext m.payload s!"{k.name}::encrypt")
  let ciphertext ← Op.lift (encryptor.encrypt context.nonce plaintext context.aad)
  Op.modify fun m => { m with ciphertext, state := .complete }

/-- `encrypt_detached`. -/
def encryptDetached (encryptor : Encryptor) (externalAad : Option Bytes) :
    Op Error (EncMessage ρ) Bytes := do
  k.encrypt c encryptor externalAad
  Op.modify fun m => { m with ciphertextDetached := true }
  let m ← Op.get
  return m.ciphertext

/-! ### Encoding and decoding -/

/-- `encode`. -/
def encode (m : EncMessage ρ) (tagPrefix : Bytes) : Except Error Bytes := do
  m.state.requireComplete s!"{k.name} must be encrypted before encoding"
  k.validateRecipients m.recipients
  validateLayer c m.protectedHeader m.unprotectedHeader m.protectedRaw
  let unprotected ← headerRaw c m.unprotectedHeader
  let recipients ← k.writeRecipients m.recipients
  encodePrefixed c tagPrefix ([.value (.bytes m.protectedRaw), .raw unprotected,
    payloadPart m.embedded] ++ recipients)

/-- `to_vec`. -/
def toVec (m : EncMessage ρ) : Except Error Bytes := k.encode c m k.tagPrefix

/-- `to_cwt_vec`. -/
def toCwtVec (m : EncMessage ρ) : Except Error Bytes := k.encode c m k.cwtPrefix

/-- `to_untagged_vec`. -/
def toUntaggedVec (m : EncMessage ρ) : Except Error Bytes := k.encode c m []

/-- `encrypt_and_encode`. -/
def encryptAndEncode (encryptor : Encryptor) (externalAad : Option Bytes) :
    Op Error (EncMessage ρ) Bytes := do
  k.encrypt c encryptor externalAad
  let m ← Op.get
  Op.lift (k.toVec c m)

/-- `encrypt_detached_and_encode`: the ciphertext is moved out of the message. -/
def encryptDetachedAndEncode (encryptor : Encryptor) (externalAad : Option Bytes) :
    Op Error (EncMessage ρ) (Bytes × Bytes) := do
  let _ ← k.encryptDetached c encryptor externalAad
  let m ← Op.get
  let encoded ← Op.lift (k.toVec c m)
  Op.modify fun m => { m with ciphertext := [] }
  return (encoded, m.ciphertext)

/-- `Encrypt0Wire`, `EncryptWire`: a message as it was read, without its protected
header. -/
def readWire (t : Tree) : Except String (EncMessage ρ) :=
  match t with
  | .array _ (protectedItem :: unprotectedItem :: ciphertextItem :: rest) => do
    let protectedRaw ← c.byteBuf protectedItem
    let unprotectedHeader ← Header.deserializeChecked c unprotectedItem
    let ciphertext ← c.optionByteBuf ciphertextItem
    let recipients ← k.readRecipients rest
    return {
      unprotectedHeader, protectedRaw, recipients
      ciphertext := ciphertext.getD []
      ciphertextDetached := ciphertext.isNone }
  | _ => .error "invalid length"

/-- `from_slice`. -/
def fromSlice (data : Bytes) : Except Error (EncMessage ρ) := do
  let body ← Strict.messageBody c data k.tag {}
  let wire ← (do k.readWire c (← c.item body)).mapError .cbor
  k.validateDecoded wire.recipients
  let protectedHeader ← decodeProtected c wire.protectedRaw
  validateHeaderBuckets protectedHeader wire.unprotectedHeader
  return { wire with protectedHeader, state := .complete }

/-! ### Decryption -/

/-- `prepare_decryption_with_crit`. -/
def prepareDecryptionWithCrit (m : EncMessage ρ) (alg : Option Label) (nonceSize : Nat)
    (baseIv externalAad : Option Bytes) (understood : List Label) :
    Except Error EncryptionContext := do
  m.state.requireComplete s!"{k.name} must be decoded before decrypting"
  validateLayer c m.protectedHeader m.unprotectedHeader m.protectedRaw
  m.protectedHeader.ensureCritUnderstood c understood
  checkProtectedAlg m.protectedHeader m.unprotectedHeader alg
  let nonce ← nonceFromHeaderValues m.protectedHeader m.unprotectedHeader nonceSize baseIv
  let aad ← k.toBeEncrypted c m.protectedRaw (externalAad.getD [])
  return { nonce, aad }

/-- `prepare_decryption`. -/
def prepareDecryption (m : EncMessage ρ) (alg : Option Label) (nonceSize : Nat)
    (baseIv externalAad : Option Bytes) : Except Error EncryptionContext :=
  k.prepareDecryptionWithCrit c m alg nonceSize baseIv externalAad []

/-- `decrypt`. -/
def decrypt (encryptor : Encryptor) (externalAad : Option Bytes) :
    Op Error (EncMessage ρ) Bytes := do
  let m ← Op.get
  Op.lift (m.state.requireComplete s!"{k.name} must be decoded before decrypting")
  Op.lift (Except.failIf m.ciphertextDetached
    (.custom s!"{k.name} has detached ciphertext; use decrypt_detached"))
  let context ← Op.lift (k.prepareDecryptionWithCrit c m encryptor.alg encryptor.nonceSize
    encryptor.baseIv externalAad encryptor.understoodCriticalHeaders)
  let plaintext ← Op.lift (encryptor.decrypt context.nonce m.ciphertext context.aad)
  Op.modify fun m => { m with payload := some plaintext }
  return plaintext

/-- `decrypt_detached`. -/
def decryptDetached (encryptor : Encryptor) (detachedCiphertext : Bytes)
    (externalAad : Option Bytes) : Op Error (EncMessage ρ) Bytes := do
  let m ← Op.get
  Op.lift (m.state.requireComplete s!"{k.name} must be decoded before decrypting")
  Op.lift (Except.failIf (m.ciphertextDetached = false)
    (.custom s!"{k.name} carries embedded ciphertext; use decrypt"))
  let context ← Op.lift (k.prepareDecryptionWithCrit c m encryptor.alg encryptor.nonceSize
    encryptor.baseIv externalAad encryptor.understoodCriticalHeaders)
  let plaintext ← Op.lift (encryptor.decrypt context.nonce detachedCiphertext context.aad)
  Op.modify fun m => { m with ciphertext := detachedCiphertext, payload := some plaintext }
  return plaintext

/-- `decrypt_and_decode`. -/
def decryptAndDecode (encryptor : Encryptor) (data : Bytes) (externalAad : Option Bytes) :
    Except Error (EncMessage ρ) := do
  let m ← k.fromSlice c data
  let (outcome, m) := (k.decrypt c encryptor externalAad).run m
  let _ ← outcome
  return m

/-- `decrypt_detached_and_decode`. -/
def decryptDetachedAndDecode (encryptor : Encryptor) (data detachedCiphertext : Bytes)
    (externalAad : Option Bytes) : Except Error (EncMessage ρ) := do
  let m ← k.fromSlice c data
  let (outcome, m) := (k.decryptDetached c encryptor detachedCiphertext externalAad).run m
  let _ ← outcome
  return m

end EncType

/-! ### The two types -/

/-- `Encrypt0Message`. -/
def encrypt0 : EncType Unit where
  tag := 16
  tagPrefix := [0xd0]
  cwtPrefix := [0xd8, 0x3d, 0xd0]
  context := "Encrypt0"
  name := "Encrypt0Message"
  noRecipients := ()
  validateRecipients _ := .ok ()
  validateDecoded _ := .ok ()
  writeRecipients _ := .ok []
  readRecipients := readNoRecipients

/-- `EncryptMessage`. -/
def encrypt (c : Cbor2) : EncType (List Recipient) where
  tag := 96
  tagPrefix := [0xd8, 0x60]
  cwtPrefix := [0xd8, 0x3d, 0xd8, 0x60]
  context := "Encrypt"
  name := "EncryptMessage"
  noRecipients := []
  validateRecipients rs := Recipient.validateMessageRecipients c rs "EncryptMessage"
  validateDecoded rs := Recipient.validateDecodedRecipients rs "EncryptMessage"
  writeRecipients := writeRecipientList c
  readRecipients := readRecipientList c

namespace Encrypt0Message

variable (c : Cbor2)

/-- `Encrypt0Message::decrypt`. -/
def decrypt := encrypt0.decrypt c

/-- `Encrypt0Message::decrypt_detached`. -/
def decryptDetached := encrypt0.decryptDetached c

end Encrypt0Message

namespace EncryptMessage

variable (c : Cbor2)

/-- `EncryptMessage::decrypt`. -/
def decrypt := (encrypt c).decrypt c

/-- `EncryptMessage::decrypt_detached`. -/
def decryptDetached := (encrypt c).decryptDetached c

end EncryptMessage
end Cose2

import Cose2.SdCwt.ClaimMatch
import Cose2.SdCwt.Disclosure
import Cose2.Message.Authenticated

/-! # The envelope of an SD-CWT

The header parameters of `sd-cwt/src/lib.rs`, and `validate_sd_headers` of
`sd-cwt/src/validation.rs`, which checks where they stand and what else the two
header buckets of a message may hold.
-/
namespace Cose2.SdCwt

open Cbor

/-! ### Header parameters -/

/-- `AeadKeyContext`. -/
inductive AeadKeyContext where
  | uint (value : Nat)
  | text (value : String)
  | thumbprint (value : Bytes)

/-- The size of a key context. -/
def AeadKeyContext.length : AeadKeyContext → Nat
  | .uint _ => 0
  | .text value => (utf8 value).length
  | .thumbprint value => value.length

/-- `AeadEncryptedDisclosure`. -/
structure AeadEncryptedDisclosure where
  nonce : Bytes
  ciphertext : Bytes
  tag : Bytes
  keyContext : Option AeadKeyContext

namespace AeadEncryptedDisclosure

/-- The last element of an encrypted disclosure. -/
def readKeyContext : Value → Except Error AeadKeyContext
  | .integer i =>
    if 0 ≤ i.val then .ok (.uint i.val.toNat)
    else .error (.unexpectedType "AEAD key context uint out of range")
  | .text value => .ok (.text value)
  | .bytes value => .ok (.thumbprint value)
  | _ => .error (.unexpectedType "AEAD key context must be uint, text, or bytes")

/-- The first three elements of an encrypted disclosure. -/
def readParts (nonce ciphertext tag : Value) : Except Error AeadEncryptedDisclosure := do
  let nonce ← expectBytes nonce "AEAD nonce must be bytes"
  let ciphertext ← expectBytes ciphertext "AEAD ciphertext must be bytes"
  let tag ← expectBytes tag "AEAD tag must be bytes"
  Except.failIf (nonce = []) (.custom "AEAD disclosure nonce must not be empty")
  Except.failIf (ciphertext = []) (.custom "AEAD disclosure ciphertext must not be empty")
  Except.failIf (tag.length < 16)
    (.custom "AEAD disclosure authentication tag must be at least 16 bytes")
  return { nonce, ciphertext, tag, keyContext := none }

/-- `AeadEncryptedDisclosure::from_value`. -/
def fromValue (value : Value) : Except Error AeadEncryptedDisclosure :=
  match value with
  | .array [nonce, ciphertext, tag] => readParts nonce ciphertext tag
  | .array [nonce, ciphertext, tag, context] => do
    let parts ← readParts nonce ciphertext tag
    return { parts with keyContext := some (← readKeyContext context) }
  | .array _ => .error (.custom "AEAD encrypted disclosure must have 3 or 4 elements")
  | _ => .error (.unexpectedType "AEAD encrypted disclosure must be an array")

/-- The size of an encrypted disclosure. -/
def size (d : AeadEncryptedDisclosure) : Nat :=
  d.nonce.length + d.ciphertext.length + d.tag.length +
    (d.keyContext.map AeadKeyContext.length).getD 0

end AeadEncryptedDisclosure

/-- `is_media_type_token`. -/
def isMediaTypeToken (value : List Char) : Bool :=
  value ≠ [] && value.all fun ch =>
    ch.isAlphanum || ['!', '#', '$', '&', '^', '_', '.', '+', '-'].contains ch

section Model

variable (c : SdCbor2)

mutual
/-- `validate_safe_value`. -/
def validateSafeValue : Value → TraversalBudget → Nat → Except Error TraversalBudget
  | .array items, b, depth => do
    let b ← b.enter depth
    b.container items.length
    validateSafeItems items b depth
  | .map entries, b, depth => do
    let b ← b.enter depth
    b.container entries.length
    validateSafeEntries entries [] b depth
  | .tag tag inner, b, depth => do
    let b ← b.enter depth
    if IsReservedTag tag then .error (.unexpectedType
      s!"SD-CWT reserved tag {tag} is not permitted in this header value")
    else validateSafeValue inner b (depth + 1)
  | .simple s, b, depth => do
    let b ← b.enter depth
    if isRedactedClaimKeysLabel (.simple s) then .error (.unexpectedType
      "simple(59) is not permitted in this header value")
    else return b
  | _, b, depth => b.enter depth

/-- The loop over the entries of a map, which has met `keys`. -/
def validateSafeEntries : List (Value × Value) → List Bytes → TraversalBudget → Nat →
    Except Error TraversalBudget
  | [], _, b, _ => .ok b
  | (key, value) :: entries, keys, b, depth => do
    let b ← b.enter (depth + 1)
    let key ← safeMapKey c key
    Except.failIf (key ∈ keys) (.verify "duplicate safe-map key")
    let b ← validateSafeValue value b (depth + 1)
    validateSafeEntries entries (key :: keys) b depth

/-- The loop over the elements of an array. -/
def validateSafeItems : List Value → TraversalBudget → Nat → Except Error TraversalBudget
  | [], b, _ => .ok b
  | item :: items, b, depth => do
    let b ← validateSafeValue item b (depth + 1)
    validateSafeItems items b depth
end

end Model
end Cose2.SdCwt

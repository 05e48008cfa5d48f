import Cose2.Strict.Parser

/-! # Users of the strict parser

The rest of `src/strict.rs`: validators, byte-string decoding, and the shape of
COSE messages.  They only look at the kinds and ranges in the tree the parser
returned.
-/
namespace Cose2.Strict

open Cbor

instance : Inhabited Item := ⟨.mk .float 0 0 0 false []⟩

/-- `item.children[i]`.  The parser gives a tag one child, and the shape checks
compare lengths first, so that the index is in range wherever it is used. -/
def Item.child (item : Item) (i : Nat) : Item := item.children.getD i default

/-- `&data[item.start..item.end]`. -/
def Item.bytesIn (data : Bytes) (item : Item) : Bytes := slice data item.start item.endPos

/-! ### Validation -/

section Validate

variable (c : Cbor2)

/-- `validate_map`. -/
def validateMap (data : Bytes) : Except Error Unit := do
  let item ← root c data {}
  Except.failIf (item.kind ≠ .map) (.unexpectedType "expected a CBOR map")

/-- `validate_array`. -/
def validateArray (data : Bytes) : Except Error Unit := do
  let item ← root c data {}
  Except.failIf (item.kind ≠ .array) (.unexpectedType "expected a CBOR array")

/-- `independently_validated_array_members`. -/
def independentlyValidatedArrayMembers (data : Bytes) : Except Error (List Bytes) := do
  let item ← rootWithDuplicatePolicy c data {} false
  Except.failIf (item.kind ≠ .array) (.unexpectedType "expected a CBOR array")
  return item.children.map (·.bytesIn data)

end Validate

/-! ### Byte strings -/

mutual
/-- `append_bytes`. -/
def appendBytes (data : Bytes) : Item → Bytes → Except Error Bytes
  | .mk kind _ contentStart endPos indefinite children, output =>
    if kind ≠ .bytes then .error (.unexpectedType "expected a CBOR byte string")
    else if indefinite then appendChunks data children output
    else .ok (output ++ slice data contentStart endPos)

/-- `append_bytes` for each chunk. -/
def appendChunks (data : Bytes) : List Item → Bytes → Except Error Bytes
  | [], output => .ok output
  | chunk :: chunks, output => do appendChunks data chunks (← appendBytes data chunk output)
end

section Bytes

variable (c : Cbor2)

/-- `decode_bytes`. -/
def decodeBytes (data : Bytes) : Except Error Bytes := do
  let item ← root c data {}
  Except.failIf (item.kind ≠ .bytes) (.unexpectedType "expected a CBOR byte string")
  appendBytes data item []

/-- `decode_optional_bytes`. -/
def decodeOptionalBytes (data : Bytes) : Except Error (Option Bytes) := do
  let item ← root c data {}
  if item.kind = .simple 22 then return none
  return some (← appendBytes data item [])

end Bytes

/-! ### The shape of messages -/

/-- `require_kind`. -/
def requireKind (item : Item) (kind : Kind) (name : String) : Except Error Unit :=
  if item.kind = kind then .ok ()
  else .error (.unexpectedType s!"{name} has the wrong CBOR type")

/-- `require_bytes_or_null`. -/
def requireBytesOrNull (item : Item) (name : String) : Except Error Unit :=
  if item.kind = .bytes ∨ item.kind = .simple 22 then .ok ()
  else .error (.unexpectedType s!"{name} must be a byte string or null")

mutual
/-- `validate_recipient_shape`. -/
def validateRecipientShape : Item → Except Error Unit
  | .mk kind start contentStart endPos indefinite children => do
    requireKind (.mk kind start contentStart endPos indefinite children) .array "COSE_recipient"
    Except.failIf (¬ (3 ≤ children.length ∧ children.length ≤ 4))
      (.unexpectedType "COSE_recipient must contain 3 or 4 elements")
    requireKind (children.getD 0 default) .bytes "recipient protected header"
    requireKind (children.getD 1 default) .map "recipient unprotected header"
    requireBytesOrNull (children.getD 2 default) "recipient ciphertext"
    validateNested children

/-- The nested recipients of a recipient: its fourth element, when there is one. -/
def validateNested : List Item → Except Error Unit
  | [_, _, _, .mk kind start contentStart endPos indefinite recipients] => do
    requireKind (.mk kind start contentStart endPos indefinite recipients) .array
      "nested recipients"
    Except.failIf (recipients = []) (.custom "nested recipients array must not be empty")
    validateRecipientShapes recipients
  | _ => .ok ()

/-- `validate_recipient_shape` for each recipient. -/
def validateRecipientShapes : List Item → Except Error Unit
  | [] => .ok ()
  | recipient :: recipients => do
    validateRecipientShape recipient
    validateRecipientShapes recipients
end

/-- `validate_recipients`. -/
def validateRecipients (item : Item) : Except Error Unit := do
  requireKind item .array "recipients"
  Except.failIf (item.children = []) (.custom "recipients array must not be empty")
  validateRecipientShapes item.children

/-- The shape of one `COSE_Signature`. -/
def validateSignatureShape (signature : Item) : Except Error Unit := do
  requireKind signature .array "COSE_Signature"
  Except.failIf (signature.children.length ≠ 3)
    (.unexpectedType "COSE_Signature must contain 3 elements")
  requireKind (signature.child 0) .bytes "signature protected header"
  requireKind (signature.child 1) .map "signature unprotected header"
  requireKind (signature.child 2) .bytes "signature value"

/-- `validate_message_shape`: the number of elements. -/
def expectedElements (tag : Nat) : Except Error Nat :=
  if tag = 16 then .ok 3
  else if tag = 17 ∨ tag = 18 ∨ tag = 96 ∨ tag = 98 then .ok 4
  else if tag = 97 then .ok 5
  else .error (.custom s!"unsupported COSE tag {tag}")

/-- `validate_message_shape`: the elements behind the two headers. -/
def validateContentShape (item : Item) (tag : Nat) : Except Error Unit :=
  match tag with
  | 16 => requireBytesOrNull (item.child 2) "ciphertext"
  | 17 => do
    requireBytesOrNull (item.child 2) "payload"
    requireKind (item.child 3) .bytes "MAC tag"
  | 18 => do
    requireBytesOrNull (item.child 2) "payload"
    requireKind (item.child 3) .bytes "signature"
  | 96 => do
    requireBytesOrNull (item.child 2) "ciphertext"
    validateRecipients (item.child 3)
  | 97 => do
    requireBytesOrNull (item.child 2) "payload"
    requireKind (item.child 3) .bytes "MAC tag"
    validateRecipients (item.child 4)
  | 98 => do
    requireBytesOrNull (item.child 2) "payload"
    let signatures := item.child 3
    requireKind signatures .array "signatures"
    Except.failIf (signatures.children = []) (.custom "signatures array must not be empty")
    signatures.children.forM validateSignatureShape
  -- `expectedElements` has refused every other tag
  | _ => .ok ()

/-- `validate_message_shape`. -/
def validateMessageShape (item : Item) (tag : Nat) : Except Error Unit := do
  let expected ← expectedElements tag
  Except.failIf (item.children.length ≠ expected) (.unexpectedType
    s!"COSE message with tag {tag} must contain {expected} elements")
  requireKind (item.child 0) .bytes "protected header"
  requireKind (item.child 1) .map "unprotected header"
  validateContentShape item tag

/-- Steps inside a tag with the given number, if the item is one. -/
def Item.untag (item : Item) (tag : Nat) : Item :=
  if item.kind = .tag tag then item.child 0 else item

/-- The part of `message_body` that steps inside the tag of the message. -/
def insideTag (current : Item) (expectedTag : Nat) : Except Error Item :=
  match current.kind with
  | .tag n =>
    if n = expectedTag then .ok (current.child 0)
    else .error (.custom s!"unexpected CBOR tag for COSE message, expected {expectedTag}")
  | _ => .ok current

/-- The part of `message_body` behind the two outer tags. -/
def unwrapTag (cwtWrapped : Bool) (item : Item) (expectedTag : Nat) : Except Error Item := do
  let current ← insideTag item expectedTag
  Except.failIf (cwtWrapped = true ∧ item.kind ≠ .tag expectedTag)
    (.custom "CWT tag must wrap a tagged COSE message")
  Except.failIf (current.kind ≠ .array) (.unexpectedType "COSE message must be an array")
  return current

section Message

variable (c : Cbor2)

/-- `message_body`. -/
def messageBody (data : Bytes) (expectedTag : Nat) (limits : CborLimits) :
    Except Error Bytes := do
  let item ← root c data limits
  let current := item.untag 55799
  let cwtWrapped := decide (current.kind = .tag 61)
  let current ← unwrapTag cwtWrapped (current.untag 61) expectedTag
  validateMessageShape current expectedTag
  return current.bytesIn data

/-- `tagged_body`. -/
def taggedBody (data : Bytes) (expectedTag : Nat) : Except Error Bytes := do
  let item ← root c data {}
  let current := item.untag 55799
  Except.failIf (current.kind ≠ .tag expectedTag) (.custom s!"expected CBOR tag {expectedTag}")
  return (current.child 0).bytesIn data

end Message
end Cose2.Strict

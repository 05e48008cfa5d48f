import Cose2.CoseMap
import Cose2.Iana

/-! # Headers

`src/header.rs`.  A header is a map of labels; a security layer has a protected
one, whose encoding is authenticated, and an unprotected one.
-/
namespace Cose2

open Cbor Iana

/-- `ContentType`. -/
inductive ContentType where
  | uint (v : UInt16)
  | text (s : String)
deriving DecidableEq, Repr

/-- `Header`. -/
abbrev Header := CoseMap

/-! ### Media types -/

/-- `char::is_whitespace`: the Unicode property `White_Space`. -/
def isWhitespace (ch : Char) : Bool :=
  (0x9 ≤ ch.toNat && ch.toNat ≤ 0xd) || (0x2000 ≤ ch.toNat && ch.toNat ≤ 0x200a) ||
    [0x20, 0x85, 0xa0, 0x1680, 0x2028, 0x2029, 0x202f, 0x205f, 0x3000].contains ch.toNat

/-- `is_media_type_token`. -/
def isMediaTypeToken (value : List Char) : Bool :=
  value ≠ [] && value.all fun ch =>
    ch.isAlphanum || ['!', '#', '$', '&', '^', '_', '.', '+', '-'].contains ch

/-- `valid_content_type_text`. -/
def validContentTypeText (value : String) : Bool :=
  let chars := value.toList
  let mediaType := chars.takeWhile (· ≠ ';')
  -- `trim` changes a text exactly when it starts or ends with white space
  !chars.head?.any isWhitespace && !chars.getLast?.any isWhitespace &&
    mediaType.contains '/' && isMediaTypeToken (mediaType.takeWhile (· ≠ '/')) &&
    isMediaTypeToken ((mediaType.dropWhile (· ≠ '/')).drop 1)

/-! ### Lists of labels -/

/-- `label_from_value`. -/
def labelFromValue : Value → Except Error Label
  | .integer i =>
    match Cbor2.i64TryFrom i.val with
    | some v => .ok (.int v)
    | none => .error (.unexpectedType "integer label out of range")
  | .text s => .ok (.text s)
  | _ => .error (.unexpectedType "expected an integer or text string label")

/-- `labels_from_value`. -/
def labelsFromValue : Option Value → Except Error (Option (List Label))
  | some (.array values) => do return some (← values.mapM labelFromValue)
  | none => .ok none
  | some _ => .error (.unexpectedType "crit must be an array of labels")

namespace Header

/-! ### Header parameters -/

variable (h : Header)

/-- `Header::alg`. -/
def alg : Except Error (Option Label) := h.getLabel headerParameterAlg

/-- `Header::set_alg`. -/
def setAlg (alg : Label) : Header := h.insert headerParameterAlg alg.toValue

/-- `Header::kid`. -/
def kid : Except Error (Option Bytes) := h.getBytes headerParameterKid

/-- `Header::set_kid`. -/
def setKid (kid : Bytes) : Header := h.insert headerParameterKid (.bytes kid)

/-- `Header::content_type`. -/
def contentType : Except Error (Option ContentType) :=
  match h.get headerParameterContentType with
  | none => .ok none
  | some (.integer i) =>
    if 0 ≤ i.val ∧ i.val < 65536 then .ok (some (.uint (UInt16.ofNat i.val.toNat)))
    else .error (.unexpectedType
      "content type integer must be an unsigned 16-bit CoAP Content-Format")
  | some (.text s) =>
    if validContentTypeText s then .ok (some (.text s))
    else .error (.unexpectedType
      "content type text must contain a valid type/subtype without surrounding whitespace")
  | some _ => .error (.unexpectedType "content type must be an unsigned integer or text string")

/-- `Header::iv`. -/
def iv : Except Error (Option Bytes) := h.getBytes headerParameterIV

/-- `Header::partial_iv`. -/
def partialIv : Except Error (Option Bytes) := h.getBytes headerParameterPartialIV

/-- `Header::crit`. -/
def crit : Except Error (Option (List Label)) := labelsFromValue (h.get headerParameterCrit)

/-! ### Validation -/

/-- The loop over `crit` in `validate_common`, which has met the labels of `unique`. -/
def validateCrit (unique : List Label) : List Label → Except Error Unit
  | [] => .ok ()
  | label :: labels => do
    Except.failIf (label ∈ unique)
      (.custom s!"crit contains duplicate header label {label.display}")
    Except.failIf (h.containsKey label = false)
      (.custom s!"crit references absent protected header label {label.display}")
    validateCrit (label :: unique) labels

/-- `Header::validate_common`. -/
def validateCommon : Except Error Unit := do
  let _ ← h.alg
  let _ ← h.contentType
  let _ ← h.kid
  let iv ← h.iv
  let partialIv ← h.partialIv
  Except.failIf (iv.isSome ∧ partialIv.isSome)
    (.custom "IV and Partial IV must not both be present in one header bucket")
  match ← h.crit with
  | none => return
  | some crit =>
    Except.failIf (crit = []) (.custom "crit header parameter must not be empty")
    h.validateCrit [] crit

variable (c : Cbor2)

/-- `Header::from_slice`. -/
def fromSlice (data : Bytes) : Except Error Header := do
  let header : Header ← CoseMap.fromSlice c data
  header.validateCommon
  return header

/-- `Header::to_vec`. -/
def toVec : Except Error Bytes := do
  h.validateCommon
  CoseMap.toVec c h

/-- `deserialize_checked`. -/
def deserializeChecked (t : Tree) : Except String Header := do
  let header : Header ← CoseMap.deserializeChecked c t
  header.validateCommon.mapError Error.display
  return header

/-- `Header::deserialize`. -/
def deserialize (t : Tree) : Except String Header := do
  let header : Header ← CoseMap.deserialize c t
  header.validateCommon.mapError Error.display
  return header

/-- `Header::serialize`, into a dynamic value. -/
def serialize : Except String Value := do
  h.validateCommon.mapError Error.display
  return .map (h.entries.map fun e => (e.1.toValue, e.2))

end Header

/-! ### The two buckets of a layer -/

/-- `is_understood_header`. -/
def isUnderstoodHeader (label : Label) : Bool :=
  [headerParameterAlg, headerParameterCrit, headerParameterContentType, headerParameterKid,
    headerParameterIV, headerParameterPartialIV, headerParameterCounterSignature].contains label

/-- `validate_header_buckets`. -/
def validateHeaderBuckets (protectedHeader unprotectedHeader : Header) : Except Error Unit := do
  protectedHeader.validateCommon
  Except.failIf (unprotectedHeader.containsKey headerParameterCrit)
    (.custom "crit header parameter must be protected")
  unprotectedHeader.validateCommon
  protectedHeader.entries.forM fun e =>
    Except.failIf (unprotectedHeader.containsKey e.1) (.custom
      s!"header label {e.1.display} appears in both protected and unprotected buckets")
  let hasIv := protectedHeader.containsKey headerParameterIV ||
    unprotectedHeader.containsKey headerParameterIV
  let hasPartialIv := protectedHeader.containsKey headerParameterPartialIV ||
    unprotectedHeader.containsKey headerParameterPartialIV
  Except.failIf (hasIv && hasPartialIv)
    (.custom "IV and Partial IV must not both be present in one security layer")

section Encoding

variable (c : Cbor2)

/-- `encode_protected`. -/
def encodeProtected (header : Header) : Except Error Bytes :=
  if header.entries = [] then .ok [] else header.toVec c

/-- `decode_protected`. -/
def decodeProtected (data : Bytes) : Except Error Header :=
  if data = [] then .ok ∅ else Header.fromSlice c data

/-- `validate_protected_state`. -/
def validateProtectedState (protectedHeader : Header) (protectedRaw : Bytes) :
    Except Error Unit := do
  let current ← encodeProtected c protectedHeader
  if current = protectedRaw then return
  let decoded ← decodeProtected c protectedRaw
  Except.failIf ((← encodeProtected c decoded) ≠ current) (.invalidState
    "protected header changed after its authenticated bytes were prepared")

/-- `validate_layer`. -/
def validateLayer (protectedHeader unprotectedHeader : Header) (protectedRaw : Bytes) :
    Except Error Unit := do
  validateHeaderBuckets protectedHeader unprotectedHeader
  validateProtectedState c protectedHeader protectedRaw

end Encoding
end Cose2

import Cose2.SdCwt.IssuedValue

/-! # Salted disclosures

`sd-cwt/src/disclosure.rs`: what an issuer hands out for each claim it hides, and
the hash that stands in its place.
-/
namespace Cose2.SdCwt

open Cbor Iana

/-- `RedactionHasher`. -/
structure RedactionHasher where
  algorithm : Int64
  digest : Bytes → Bytes

/-- `DisclosureKind`. -/
inductive DisclosureKind where
  | claim (salt : Bytes) (key : Label) (value : Value)
  | element (salt : Bytes) (value : Value)
  | decoy (salt : Bytes)

namespace DisclosureKind

/-- The salt of any kind. -/
def salt : DisclosureKind → Bytes
  | .claim salt .. | .element salt _ | .decoy salt => salt

/-- The disclosed value, which a decoy does not have. -/
def value : DisclosureKind → Option Value
  | .claim _ _ value | .element _ value => some value
  | .decoy _ => none

/-- The items around the value: the array, the salt and the key. -/
def fixedItems : DisclosureKind → Nat
  | .claim .. => 3
  | .element .. | .decoy _ => 2

/-- `kind_to_value`. -/
def toValue : DisclosureKind → Value
  | .claim salt key value => .array [.bytes salt, value, key.toValue]
  | .element salt value => .array [.bytes salt, value]
  | .decoy salt => .array [.bytes salt]

end DisclosureKind

/-- `validate_text_label`. -/
def validateTextLabel : Label → Except Error Unit
  | .int _ => .ok ()
  | .text s => Except.failIf (¬ (1 ≤ (utf8 s).length ∧ (utf8 s).length ≤ 255))
    (.unexpectedType "SD-CWT text map keys must contain 1 to 255 octets")

/-- `validate_disclosure_kind`. -/
def validateDisclosureKind (kind : DisclosureKind) : Except Error Unit := do
  Except.failIf (kind.salt.length ≠ 16)
    (.unexpectedType "Salted Disclosed Claim salt must be 16 bytes")
  match kind with
  | .claim _ key _ => validateTextLabel key
  | .element .. | .decoy _ => return

/-- `Disclosure`.  Its fields are private, and whatever makes one has checked its kind. -/
structure Disclosure where
  kind : DisclosureKind
  encoded : Bytes
  valid : validateDisclosureKind kind = .ok ()

namespace Disclosure

/-- `Disclosure::redacted_hash`. -/
def redactedHash (d : Disclosure) (hasher : RedactionHasher) : Bytes := hasher.digest d.encoded

/-- `Disclosure::salt`. -/
def salt (d : Disclosure) : Bytes := d.kind.salt

/-- `Disclosure::item_count`. -/
def itemCount (d : Disclosure) : Except Error Nat :=
  match d.kind.value with
  | none => .ok d.kind.fixedItems
  | some value => do
    let count ← valueItemCount value
    Except.failIf (¬ d.kind.fixedItems + count < usizeBound)
      (.custom "SD-CWT item count overflow")
    return d.kind.fixedItems + count

/-- The items of a disclosure. -/
def items (d : Disclosure) : Nat := d.kind.fixedItems + (d.kind.value.map SdCwt.items).getD 0

/-- The key of a disclosed claim is a label that maps may have. -/
theorem labelFromValue_key {d : Disclosure} {salt : Bytes} {key : Label} {value : Value}
    (h : d.kind = .claim salt key value) : labelFromValue key.toValue = .ok key := by
  have hvalid := (Except.seq_eq_ok.mp d.valid).2
  rw [h] at hvalid
  cases key with
  | int i => rw [Label.toValue, labelFromValue, i64TryFrom_toInt]
  | text s =>
    have hlength := Except.failIf_eq_ok.mp hvalid
    rw [not_not] at hlength
    rw [Label.toValue, labelFromValue, if_pos hlength]

theorem itemCount_ok {d : Disclosure} {n : Nat} :
    d.itemCount = .ok n ↔ (d.kind.value.isSome = true → d.items < usizeBound) ∧ n = d.items := by
  rw [itemCount, items]
  cases d.kind.value with
  | none => simp [eq_comm]
  | some value =>
    simp only [valueItemCount, bind_assoc, Except.seq_eq_ok, Except.failIf_eq_ok, not_not,
      Except.pure_eq_ok, pure_bind, Option.map_some, Option.getD_some, Option.isSome_some,
      true_implies]
    constructor
    · rintro ⟨-, h, rfl⟩
      exact ⟨h, rfl⟩
    · rintro ⟨h, rfl⟩
      exact ⟨by omega, h, rfl⟩

end Disclosure

/-! ### Making and decoding -/

/-- `definite_cbor_limits`. -/
def definiteCborLimits (limits : ProcessingLimits) : CborLimits where
  maxDepth := limits.maxDepth
  maxItems := limits.maxItems
  requireDefinite := true

section Encoding

variable (c : SdCbor2)

/-- `validate_disclosure_value`. -/
def validateDisclosureValue (kind : DisclosureKind) (limits : ProcessingLimits) :
    Except Error Unit :=
  match kind.value with
  | none => .ok ()
  | some value => do
    let budget ← (TraversalBudget.mk limits 0).consume kind.fixedItems
    let _ ← validateIssuedValue c value budget 0

/-- `encode_kind`. -/
def encodeKind (kind : DisclosureKind) : Except Error Bytes := c.canonicalVec kind.toValue

/-- `decode_disclosure_value`. -/
def decodeDisclosureValue (value : Value) : Except Error DisclosureKind :=
  match value with
  | .array [salt] => do
    return .decoy (← expectBytes salt "disclosure salt must be bytes")
  | .array [salt, value] => do
    return .element (← expectBytes salt "disclosure salt must be bytes") value
  | .array [salt, value, key] => do
    let salt ← expectBytes salt "disclosure salt must be bytes"
    let key ← labelFromValue key
    return .claim salt key value
  | .array _ => .error (.unexpectedType "Salted Disclosed Claim must have 1, 2, or 3 elements")
  | _ => .error (.unexpectedType "Salted Disclosed Claim must be an array")

namespace Disclosure

/-- `Disclosure::from_kind_with_limits`. -/
def fromKindWithLimits (kind : DisclosureKind) (limits : ProcessingLimits) :
    Except Error Disclosure := do
  match valid : validateDisclosureKind kind with
  | .error e => .error e
  | .ok () =>
    validateDisclosureValue c kind limits
    let encoded ← encodeKind c kind
    return { kind, encoded, valid }

theorem fromKindWithLimits_ok {kind : DisclosureKind} {limits : ProcessingLimits}
    {d : Disclosure} : fromKindWithLimits c kind limits = .ok d ↔
      d.kind = kind ∧ validateDisclosureValue c kind limits = .ok () ∧
        encodeKind c kind = .ok d.encoded := by
  obtain ⟨kind', encoded, hvalid'⟩ := d
  rw [fromKindWithLimits.eq_def]
  split
  · next e he =>
    refine ⟨by simp, ?_⟩
    rintro ⟨hkind, _⟩
    subst hkind
    rw [hvalid'] at he
    cases he
  · next hvalid =>
    rw [Except.seq_eq_ok, Except.bind_eq_ok]
    constructor
    · rintro ⟨hvalue, encoded', hencoded, h⟩
      cases h
      exact ⟨rfl, hvalue, hencoded⟩
    · rintro ⟨hkind, hvalue, hencoded⟩
      subst hkind
      exact ⟨hvalue, encoded, hencoded, rfl⟩

/-- `Disclosure::from_encoded_with_limits`. -/
def fromEncodedWithLimits (encoded : Bytes) (limits : ProcessingLimits) :
    Except Error Disclosure := do
  Except.failIf (limits.maxDisclosureBytes < encoded.length)
    (.limitExceeded "SD-CWT disclosure bytes" limits.maxDisclosureBytes)
  validateCbor c encoded (definiteCborLimits limits)
  let value ← c.fromSlice encoded
  let kind ← decodeDisclosureValue value
  match valid : validateDisclosureKind kind with
  | .error e => .error e
  | .ok () =>
    validateDisclosureValue c kind limits
    return { kind, encoded, valid }

end Disclosure

/-! ### The header parameter -/

/-- `HEADER_SD_CLAIMS`. -/
def headerSdClaims : Label := .int 17

/-- The loop of `disclosures_from_unprotected_with_limits`. -/
def readDisclosures (limits : ProcessingLimits) :
    List Value → (salts : List Bytes) → (totalBytes remainingItems : Nat) →
    Except Error (List Disclosure)
  | [], _, _, _ => .ok []
  | item :: items, salts, totalBytes, remainingItems => do
    let encoded ← expectBytes item "sd_claims entries must be byte strings"
    Except.failIf (¬ totalBytes + encoded.length < usizeBound)
      (.custom "SD-CWT disclosure size overflow")
    let totalBytes := totalBytes + encoded.length
    Except.failIf (limits.maxDisclosureBytes < totalBytes)
      (.limitExceeded "SD-CWT disclosure bytes" limits.maxDisclosureBytes)
    let disclosure ← Disclosure.fromEncodedWithLimits c encoded
      { limits with maxItems := remainingItems }
    Except.failIf (disclosure.salt ∈ salts) (.verify "duplicate SD-CWT disclosure salt")
    let count ← disclosure.itemCount
    Except.failIf (remainingItems < count)
      (.limitExceeded "SD-CWT disclosure values" limits.maxItems)
    let disclosures ← readDisclosures limits items (disclosure.salt :: salts) totalBytes
      (remainingItems - count)
    return disclosure :: disclosures

/-- `disclosures_from_unprotected_with_limits`. -/
def disclosuresFromUnprotected (header : Header) (limits : ProcessingLimits) :
    Except Error (List Disclosure) :=
  match header.get headerSdClaims with
  | none => .ok []
  | some (.array items) => do
    Except.failIf (items = [])
      (.custom "sd_claims must be omitted instead of containing an empty array")
    Except.failIf (limits.maxDisclosures < items.length)
      (.limitExceeded "SD-CWT disclosure" limits.maxDisclosures)
    Except.failIf (¬ items.length + 1 < usizeBound) (.custom "SD-CWT item count overflow")
    Except.failIf (limits.maxItems < items.length + 1)
      (.limitExceeded "SD-CWT disclosure values" limits.maxItems)
    readDisclosures c limits items [] 0 (limits.maxItems - (items.length + 1))
  | some _ => .error (.unexpectedType "sd_claims must be an array")

end Encoding

/-- `set_disclosures`. -/
def setDisclosures (header : Header) (disclosures : List Disclosure) : Header :=
  if disclosures = [] then header.remove headerSdClaims
  else header.insert headerSdClaims (.array (disclosures.map fun d => .bytes d.encoded))

end Cose2.SdCwt

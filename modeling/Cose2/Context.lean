import Cose2.Recipient

/-! # Contexts of key derivation

`src/context.rs`: the structure from which both parties derive the same key.
-/
namespace Cose2

open Cbor

/-- `PartyNonce`. -/
inductive PartyNonce where
  | bytes (b : Bytes)
  /-- An `i128`. -/
  | int (i : Int)
deriving DecidableEq, Repr

/-- `validate_party_nonce_integer`. -/
def validatePartyNonceInteger (value : Int) : Except Error Unit :=
  Except.failIf (value < -1 - 18446744073709551615 ∨ 18446744073709551615 < value)
    (.unexpectedType "integer nonce out of CBOR integer range")

namespace PartyNonce

/-- `PartyNonce::serialize`, into a dynamic value. -/
def serialize : PartyNonce → Except String Value
  | .bytes b => .ok (.bytes b)
  | .int i => do
    (validatePartyNonceInteger i).mapError Error.display
    -- what passes the check is a CBOR integer
    Except.ofOption "integer out of range" (Value.ofInt i)

/-- `NonceVisitor`. -/
def visit : Visit → Except String PartyNonce
  | .bytes b => .ok (.bytes b)
  | .i64 v => .ok (.int v.toInt)
  | .u64 v => .ok (.int v.toNat)
  | .i128 v => do
    (validatePartyNonceInteger v).mapError Error.display
    return .int v
  | .u128 v => do
    Except.failIf (170141183460469231731687303715884105727 < v)
      "integer nonce out of CBOR range"
    (validatePartyNonceInteger v).mapError Error.display
    return .int v
  | .str _ | .other => .error "invalid type, expected a byte string or integer PartyInfo nonce"

variable (c : Cbor2)

/-- `PartyNonce::deserialize`. -/
def deserialize (t : Tree) : Except String PartyNonce := do visit (← c.deserializeAny t)

/-- `Option::<PartyNonce>::deserialize`. -/
def deserializeOption (t : Tree) : Except String (Option PartyNonce) :=
  if c.isNone t then .ok none else (deserialize c t).map some

end PartyNonce

/-- `strict::optional_bytes::serialize`, `Option::<Bytes>::serialize`. -/
def serializeOptionalBytes : Option Bytes → Value
  | some b => .bytes b
  | none => .null

/-- `PartyInfo`. -/
structure PartyInfo where
  identity : Option Bytes := none
  nonce : Option PartyNonce := none
  other : Option Bytes := none
deriving DecidableEq, Repr

namespace PartyInfo

/-- `PartyInfo::serialize`, derived, into a dynamic value. -/
def serialize (info : PartyInfo) : Except String Value := do
  let nonce ← match info.nonce with
    | some nonce => nonce.serialize
    | none => pure .null
  return .array [serializeOptionalBytes info.identity, nonce, serializeOptionalBytes info.other]

/-- `PartyInfo::deserialize`, derived. -/
def deserialize (c : Cbor2) (t : Tree) : Except String PartyInfo :=
  match t with
  | .array _ [identity, nonce, other] => do
    let identity ← Recipient.strictOptionalBytes c identity
    let nonce ← PartyNonce.deserializeOption c nonce
    let other ← Recipient.strictOptionalBytes c other
    return { identity, nonce, other }
  | _ => .error "invalid type, expected an array of 3 elements"

end PartyInfo

/-- `SuppPubInfo`. -/
structure SuppPubInfo where
  keyDataLength : UInt64 := 0
  protectedHeader : Header := ∅
  other : Option Bytes := none
  protectedRaw : Option Bytes := none

/-- The value of an unsigned integer. -/
def u64Value (n : UInt64) : Value :=
  .integer ⟨n.toNat, by omega, by have := n.toNat_lt; omega⟩

namespace SuppPubInfo

variable (c : Cbor2)

/-- `SuppPubInfo::serialize`, into a dynamic value. -/
def serialize (info : SuppPubInfo) : Except String Value := do
  let protectedRaw ← (Recipient.serializedProtected c info.protectedHeader
    info.protectedRaw).mapError Error.display
  let front := [u64Value info.keyDataLength, .bytes protectedRaw]
  return .array (match info.other with
    | some other => front ++ [.bytes other]
    | none => front)

/-- `visit_seq` in `SuppPubInfo::deserialize`. -/
def deserializeElements : List Tree → Except String SuppPubInfo
  | [] => .error "missing keyDataLength"
  | [k] => do
    let _ ← c.u64 k
    .error "missing protected header"
  | k :: p :: rest => do
    let keyDataLength ← c.u64 k
    let protectedRaw ← Recipient.strictBytes c p
    let other ← rest.head?.mapM (Recipient.strictBytes c)
    Except.failIf (1 < rest.length)
      "invalid length 4, expected a SuppPubInfo array of 2 or 3 elements"
    let protectedHeader ← (decodeProtected c protectedRaw).mapError Error.display
    return { keyDataLength, protectedHeader, other, protectedRaw := some protectedRaw }

/-- `SuppPubInfo::deserialize`. -/
def deserialize : Tree → Except String SuppPubInfo
  | .array _ items => deserializeElements c items
  | _ => .error "invalid type, expected a SuppPubInfo array of 2 or 3 elements"

end SuppPubInfo

/-- `KdfContext`. -/
structure KdfContext where
  algorithmId : Label
  partyUInfo : PartyInfo
  partyVInfo : PartyInfo
  suppPubInfo : SuppPubInfo
  suppPrivInfo : Option Bytes

namespace KdfContext

variable (c : Cbor2)

/-- `KdfContext::serialize`, into a dynamic value. -/
def serialize (ctx : KdfContext) : Except String Value := do
  let partyUInfo ← ctx.partyUInfo.serialize
  let partyVInfo ← ctx.partyVInfo.serialize
  let suppPubInfo ← ctx.suppPubInfo.serialize c
  let front := [ctx.algorithmId.toValue, partyUInfo, partyVInfo, suppPubInfo]
  return .array (match ctx.suppPrivInfo with
    | some suppPrivInfo => front ++ [.bytes suppPrivInfo]
    | none => front)

/-- `visit_seq` in `KdfContext::deserialize`. -/
def deserializeElements : List Tree → Except String KdfContext
  | [] => .error "missing AlgorithmID"
  | [a] => do
    let _ ← Label.deserialize c a
    .error "missing PartyUInfo"
  | [a, u] => do
    let _ ← Label.deserialize c a
    let _ ← PartyInfo.deserialize c u
    .error "missing PartyVInfo"
  | [a, u, v] => do
    let _ ← Label.deserialize c a
    let _ ← PartyInfo.deserialize c u
    let _ ← PartyInfo.deserialize c v
    .error "missing SuppPubInfo"
  | a :: u :: v :: s :: rest => do
    let algorithmId ← Label.deserialize c a
    let partyUInfo ← PartyInfo.deserialize c u
    let partyVInfo ← PartyInfo.deserialize c v
    let suppPubInfo ← SuppPubInfo.deserialize c s
    let suppPrivInfo ← rest.head?.mapM (Recipient.strictBytes c)
    Except.failIf (1 < rest.length)
      "invalid length 6, expected a COSE_KDF_Context array of 4 or 5 elements"
    return { algorithmId, partyUInfo, partyVInfo, suppPubInfo, suppPrivInfo }

/-- `KdfContext::deserialize`. -/
def deserialize : Tree → Except String KdfContext
  | .array _ items => deserializeElements c items
  | _ => .error "invalid type, expected a COSE_KDF_Context array of 4 or 5 elements"

/-- `KdfContext::from_slice`. -/
def fromSlice (data : Bytes) : Except Error KdfContext := do
  Strict.validateArray c data
  (do deserialize c (← c.item data)).mapError .cbor

/-- `KdfContext::to_vec`. -/
def toVec (ctx : KdfContext) : Except Error Bytes :=
  (ctx.serialize c >>= c.toCanonicalVec).mapError .cbor

end KdfContext
end Cose2

import Cose2.Header

/-! # Keys

`src/key.rs`: key objects and key sets.
-/
namespace Cose2

open Cbor Iana

/-- `Key`. -/
abbrev Key := CoseMap

namespace Key

variable (k : Key)

/-- `Key::kty`. -/
def kty : Except Error (Option Label) := k.getLabel keyParameterKty

/-- `Key::kid`. -/
def kid : Except Error (Option Bytes) := k.getBytes keyParameterKid

/-- `Key::alg`. -/
def alg : Except Error (Option Label) := k.getLabel keyParameterAlg

/-- One element of `key_ops`. -/
def opFromValue : Value → Except Error Label
  | .integer i =>
    match Cbor2.i64TryFrom i.val with
    | some v => .ok (.int v)
    | none => .error (.unexpectedType "key_ops integer out of range")
  | .text s => .ok (.text s)
  | _ => .error (.unexpectedType "key_ops must be an array of integer or text labels")

/-- `Key::ops`. -/
def ops : Except Error (Option (List Label)) := do
  match ← k.getArray keyParameterKeyOps with
  | none => return none
  | some values => return some (← values.mapM opFromValue)

/-- `Key::base_iv`. -/
def baseIv : Except Error (Option Bytes) := k.getBytes keyParameterBaseIV

/-- `Key::validate`. -/
def validate : Except Error Unit := do
  let kty ← k.kty
  Except.failIf (kty = none) (.custom "COSE_Key is missing required kty")
  let _ ← k.alg
  let _ ← k.ops
  let _ ← k.kid
  let _ ← k.baseIv

/-- `Key::required_bytes`. -/
def requiredBytes (label : Label) (name : String) : Except Error Bytes := do
  Except.ofOption (.custom s!"COSE_Key is missing {name}") (← k.getBytes label)

/-- `Key::try_from`. -/
def tryFrom (c : Cbor2) (value : Value) : Except Error Key := do
  let bytes ← c.canonicalVec value
  let key : Key ← CoseMap.fromSlice c bytes
  key.validate
  return key

section

variable (c : Cbor2)

/-- `Key::from_slice`. -/
def fromSlice (data : Bytes) : Except Error Key := do
  let key : Key ← CoseMap.fromSlice c data
  key.validate
  return key

/-- `Key::to_vec`. -/
def toVec : Except Error Bytes := do
  k.validate
  CoseMap.toVec c k

/-- `Key::serialize`, into a dynamic value. -/
def serialize : Except String Value := do
  k.validate.mapError Error.display
  return .map (k.entries.map fun e => (e.1.toValue, e.2))

/-- `Key::deserialize`. -/
def deserialize (t : Tree) : Except String Key := do
  let key : Key ← CoseMap.deserialize c t
  key.validate.mapError Error.display
  return key

end

end Key

/-- `KeySet`. -/
abbrev KeySet := List Key

namespace KeySet

variable (s : KeySet)

/-- `KeySet::validate`. -/
def validate : Except Error Unit := do
  Except.failIf (s = []) (.custom "COSE_KeySet must contain at least one key")
  s.forM Key.validate

/-- `KeySet::lookup`. -/
def lookup (kid : Bytes) : List Key :=
  s.filter fun k =>
    match k.kid with
    | .ok (some id) => id = kid
    | _ => false

variable (c : Cbor2)

/-- `KeySet::from_slice`. -/
def fromSlice (data : Bytes) : Except Error KeySet := do
  let members ← Strict.independentlyValidatedArrayMembers c data
  let keySet : KeySet := members.filterMap fun member => (Key.fromSlice c member).toOption
  keySet.validate
  return keySet

/-- `Vec::<Key>::deserialize`. -/
def deserialize (t : Tree) : Except String KeySet :=
  match t with
  | .array _ items => items.mapM (Key.deserialize c)
  | _ => .error "invalid type, expected a sequence"

/-- `KeySet::from_slice_strict`. -/
def fromSliceStrict (data : Bytes) : Except Error KeySet := do
  Strict.validateArray c data
  let keySet ← (do deserialize c (← c.item data)).mapError .cbor
  keySet.validate
  return keySet

/-- `KeySet::serialize`, into a dynamic value. -/
def serialize : Except String Value := do
  s.validate.mapError Error.display
  return .array (← s.mapM Key.serialize)

/-- `KeySet::to_vec`. -/
def toVec : Except Error Bytes := do
  s.validate
  (s.serialize >>= c.toCanonicalVec).mapError .cbor

end KeySet
end Cose2

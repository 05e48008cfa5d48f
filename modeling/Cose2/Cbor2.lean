import Cose2.Cbor.Load
import Cose2.Error

/-! # The CBOR library

The crate reads and writes CBOR through the external crate `cbor2`.  `Cbor2`
lists what it calls, each a function that may fail; nothing is assumed of a
`Cbor2` by itself.  What is relied on is stated as laws, one structure for each
part of the library, and `Cbor2.reference` is an implementation that has them.

A typed `Deserialize` walks an encoded item, so the model splits it in two:
`item` finds the one item a byte string consists of, and everything else reads
from the item.
-/
namespace Cose2

open Cbor

/-- The call a self-describing deserializer makes on a visitor. -/
inductive Visit where
  | i64 (v : Int64)
  | u64 (v : UInt64)
  | i128 (v : Int)
  | u128 (v : Nat)
  | str (s : String)
  | bytes (b : Bytes)
  /-- Any other call; no visitor of the crate implements it. -/
  | other
deriving DecidableEq, Repr

/-- An element of a tuple that is encoded: a value, or an item that is encoded
already (`RawValue`). -/
inductive Part where
  | value (v : Value)
  | raw (data : Bytes)

/-- The functions of `cbor2` that the crate calls. -/
structure Cbor2 where
  /-- `de::DEFAULT_RECURSION_LIMIT`. -/
  recursionLimit : Nat
  /-- The one data item that a byte string consists of. -/
  item : Bytes → Except String Tree
  /-- `Value::deserialize`. -/
  value : Tree → Except String Value
  /-- `Deserializer::deserialize_any`. -/
  deserializeAny : Tree → Except String Visit
  /-- `Deserializer::deserialize_option`: whether the visitor is told that there is nothing. -/
  isNone : Tree → Bool
  /-- `u64::deserialize`. -/
  u64 : Tree → Except String UInt64
  /-- `to_canonical_vec` of a value. -/
  toCanonicalVec : Value → Except String Bytes
  /-- What `to_writer` appends for a value. -/
  toWriter : Value → Except String Bytes
  /-- `to_vec` of a tuple, and what `to_writer` appends for it. -/
  writeTuple : List Part → Except String Bytes
  /-- `serialized_size` of a tuple. -/
  serializedSize : List Part → Except String Nat
  /-- `RawValue::new`. -/
  newRawValue : Bytes → Except String Bytes
  /-- `RawValue::deserialize`, as the bytes of the raw value. -/
  rawValue : Tree → Except String Bytes
  /-- `serde_bytes` for `Vec<u8>`. -/
  byteBuf : Tree → Except String Bytes
  /-- `serde_bytes` for `Option<Vec<u8>>`. -/
  optionByteBuf : Tree → Except String (Option Bytes)

namespace Cbor2

variable (c : Cbor2)

/-- `cbor2::from_slice::<Value>`, its error converted by `?`. -/
def fromSlice (data : Bytes) : Except Error Value :=
  (do c.value (← c.item data)).mapError .cbor

/-- `cbor2::to_canonical_vec`, its error converted by `?`. -/
def canonicalVec (v : Value) : Except Error Bytes := (c.toCanonicalVec v).mapError .cbor

/-! ### Laws -/

/-- `cbor2` reads well-formed items only, and reads the item the bytes encode. -/
structure ReadsItems : Prop where
  sound : ∀ {bs t}, c.item bs = .ok t → t.WellFormed ∧ bs = t.bytes

/-- Decoding and canonicalizing a value gives the deterministic encoding of the
item it was decoded from. -/
structure Canonicalizes : Prop where
  of_value : ∀ {t v}, c.value t = .ok v →
    ∃ d, t.value = some d ∧ c.toCanonicalVec v = .ok d.canonical

/-- What the deterministic encoder writes is the deterministic encoding.  It refuses a map that
has a key twice and a value that is nested too deep, and no other value in memory. -/
structure EncodesCanonically : Prop where
  canonical : ∀ {v}, v.Writable → v.DuplicateFree → v.toTree.depth < c.recursionLimit →
    c.toCanonicalVec v = .ok v.canonical
  writes : ∀ {v b}, c.toCanonicalVec v = .ok b → b = v.canonical
  distinct : ∀ {v b}, c.toCanonicalVec v = .ok b → v.DuplicateFree
  shallow : ∀ {v b}, c.toCanonicalVec v = .ok b → v.toTree.depth < c.recursionLimit

/-- What is read of an item is its value, reduced: a bignum that fits is an integer, and
undefined is null. -/
structure ReadsValues : Prop where
  loads : ∀ {t v}, c.value t = .ok v → ∃ d, t.value = some d ∧ d.Loads v

/-- What a visitor call says about the item it is made for.  A number comes from
an integer or a bignum, a string from a text string, bytes from a byte string, and
none of them from an item under another tag. -/
def Denotes (u : Visit) (d : Value) : Prop :=
  match u with
  | .i64 i => ∀ v, Value.ofInt i.toInt = some v → d.norm = v
  | .u64 i => ∀ v, Value.ofInt i.toNat = some v → d.norm = v
  | .i128 i => ∀ v, Value.ofInt i = some v → d.norm = v
  | .u128 i => ∀ v, Value.ofInt i = some v → d.norm = v
  | .str s => d.norm = .text s
  | .bytes b => d.norm = .bytes b
  | .other => True

/-- A self-describing deserializer tells a visitor the item's own value. -/
structure Describes : Prop where
  of_visit : ∀ {t u}, c.deserializeAny t = .ok u → ∃ d, t.value = some d ∧ Denotes u d

/-- `i64::try_from` of a wider integer. -/
def i64TryFrom (v : Int) : Option Int64 :=
  if -9223372036854775808 ≤ v ∧ v < 9223372036854775808 then some (Int64.ofInt v) else none

theorem i64TryFrom_eq_some {v : Int} {i : Int64} (h : i64TryFrom v = some i) : i.toInt = v := by
  unfold i64TryFrom at h
  split_ifs at h with hv
  cases h
  exact Int64.toInt_ofInt_of_le (by simpa using hv.1) (by simpa using hv.2)

/-! ### A reference implementation -/

/-- The visitor call for a normalized value. -/
def visitOf : Value → Visit
  | .integer i =>
    match i64TryFrom i.val with
    | some j => .i64 j
    | none => .i128 i.val
  | .text s => .str s
  | .bytes b => .bytes b
  | _ => .other

/-- A tuple is an array of its elements. -/
def tupleBytes (parts : List Part) : Bytes :=
  head 4 (preferred parts.length) parts.length ++ parts.flatMap fun
    | .value v => v.encode
    | .raw data => data

/-- An implementation over `Cbor.readAll`, `Tree.value`, `Value.load` and `Value.canonical`. -/
def reference : Cbor2 where
  recursionLimit := 256
  item := readAll 256
  value t := Except.ofOption "invalid value" (t.value.map Value.load)
  deserializeAny t := (Except.ofOption "invalid value" t.value).map fun v => visitOf v.norm
  isNone t :=
    match t.value.map Value.load with
    | some .null => true
    | _ => false
  u64 t :=
    match t.value.map Value.load with
    | some (.integer i) =>
      if 0 ≤ i.val then .ok (UInt64.ofNat i.val.toNat)
      else .error "invalid value, expected u64"
    | _ => .error "invalid type, expected u64"
  toCanonicalVec v :=
    if v.distinctKeys = false then .error "duplicate map key"
    else if v.toTree.depth < 256 then .ok v.canonical
    else .error "recursion limit exceeded"
  toWriter v := .ok v.encode
  writeTuple parts := .ok (tupleBytes parts)
  serializedSize parts := .ok (tupleBytes parts).length
  newRawValue data := (readAll 256 data).map fun _ => data
  rawValue t := .ok t.bytes
  byteBuf t :=
    match t.value with
    | some (.bytes b) => .ok b
    | _ => .error "invalid type, expected a byte string"
  optionByteBuf t :=
    match t.value.map Value.load with
    | some (.bytes b) => .ok (some b)
    | some .null => .ok none
    | _ => .error "invalid type, expected a byte string or null"

theorem reference_readsItems : reference.ReadsItems where
  sound h := ⟨(readAll_ok.mp h).1.1, (readAll_ok.mp h).2⟩

theorem reference_toCanonicalVec {v : Value} {b : Bytes} :
    reference.toCanonicalVec v = .ok b ↔
      v.distinctKeys = true ∧ v.toTree.depth < 256 ∧ b = v.canonical := by
  simp only [reference]
  split_ifs with hkeys hdepth
  · simp [hkeys]
  · simp [Bool.not_eq_false _ ▸ hkeys, hdepth, eq_comm]
  · simp [hdepth]

theorem reference_encodesCanonically : reference.EncodesCanonically where
  canonical hw hd hdepth :=
    reference_toCanonicalVec.mpr ⟨Value.distinctKeys_of_duplicateFree hw hd, hdepth, rfl⟩
  writes h := (reference_toCanonicalVec.mp h).2.2
  distinct h := Value.duplicateFree_of_distinctKeys (reference_toCanonicalVec.mp h).1
  shallow h := (reference_toCanonicalVec.mp h).2.1

theorem reference_value {t : Tree} {v : Value} :
    reference.value t = .ok v ↔ ∃ d, t.value = some d ∧ d.load = v := by
  rw [← Option.map_eq_some_iff]
  exact Except.ofOption_eq_ok

theorem reference_readsValues : reference.ReadsValues where
  loads h := by
    obtain ⟨d, hd, rfl⟩ := reference_value.mp h
    exact ⟨d, hd, d.loads_load⟩

theorem denotes_visitOf (d : Value) : Denotes (visitOf d.norm) d := by
  cases h : d.norm with
  | integer i =>
    have hi (v : Value) (hv : Value.ofInt i.val = some v) : d.norm = v := by
      unfold Value.ofInt at hv
      split_ifs at hv
      cases hv
      exact h
    rw [visitOf]
    cases hj : i64TryFrom i.val with
    | none => exact hi
    | some j => exact fun v hv => hi v (by rwa [i64TryFrom_eq_some hj] at hv)
  | text s => exact h
  | bytes b => exact h
  | float | bool | null | simple | tag | array | map => exact trivial

theorem reference_describes : reference.Describes where
  of_visit h := by
    obtain ⟨d, hd, rfl⟩ := Except.map_eq_ok.mp h
    exact ⟨d, Except.ofOption_eq_ok.mp hd, denotes_visitOf d⟩

/-! ### Values kept as they are -/

/-- An implementation that keeps every value as it is written, and reads none that it could
not write: one that has `Canonicalizes`. -/
def verbatim : Cbor2 :=
  { reference with
    value := fun t =>
      match t.value with
      | none => .error "invalid value"
      | some v => if (reference.toCanonicalVec v).isOk then .ok v else .error "invalid value" }

theorem verbatim_readsItems : verbatim.ReadsItems := ⟨reference_readsItems.sound⟩

theorem verbatim_describes : verbatim.Describes := ⟨reference_describes.of_visit⟩

theorem verbatim_canonicalizes : verbatim.Canonicalizes where
  of_value {t v} h := by
    simp only [verbatim] at h
    cases ht : t.value with
    | none =>
      rw [ht] at h
      cases h
    | some d =>
      rw [ht] at h
      dsimp only at h
      split_ifs at h with hwritten
      cases h
      obtain ⟨b, hb⟩ := Except.isOk_iff.mp hwritten
      obtain ⟨-, -, rfl⟩ := reference_toCanonicalVec.mp hb
      exact ⟨_, rfl, hb⟩

end Cbor2
end Cose2

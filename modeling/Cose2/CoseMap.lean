import Cose2.BTreeMap
import Cose2.Label
import Cose2.Strict.Accessors

/-! # Maps of labels

`src/map.rs`: the maps that headers, keys and claim sets are.
-/
namespace Cose2

open Cbor Cbor2

/-- `CoseMap`. -/
abbrev CoseMap := BTreeMap Label Value

namespace CoseMap

/-! ### Typed access -/

variable (m : CoseMap) (key : Label)

/-- `CoseMap::get_bytes`. -/
def getBytes : Except Error (Option Bytes) :=
  match m.get key with
  | none => .ok none
  | some (.bytes b) => .ok (some b)
  | some _ => .error (.unexpectedType "expected a byte string")

/-- `CoseMap::get_text`. -/
def getText : Except Error (Option String) :=
  match m.get key with
  | none => .ok none
  | some (.text s) => .ok (some s)
  | some _ => .error (.unexpectedType "expected a text string")

/-- `CoseMap::get_label`. -/
def getLabel : Except Error (Option Label) :=
  match m.get key with
  | none => .ok none
  | some (.integer i) =>
    match i64TryFrom i.val with
    | some v => .ok (some (.int v))
    | none => .error (.unexpectedType "integer out of i64 range")
  | some (.text s) => .ok (some (.text s))
  | some _ => .error (.unexpectedType "expected an integer or text string")

/-- `CoseMap::get_bool`. -/
def getBool : Except Error (Option Bool) :=
  match m.get key with
  | none => .ok none
  | some (.bool b) => .ok (some b)
  | some _ => .error (.unexpectedType "expected a boolean")

/-- `CoseMap::get_array`. -/
def getArray : Except Error (Option (List Value)) :=
  match m.get key with
  | none => .ok none
  | some (.array a) => .ok (some a)
  | some _ => .error (.unexpectedType "expected an array")

section

variable {m : CoseMap} {key : Label}

/-- Bytes are read where the value is a byte string, and nothing where there is none. -/
theorem getBytes_eq_ok {o : Option Bytes} :
    m.getBytes key = .ok o ↔ m.get key = o.map Value.bytes := by
  unfold getBytes
  rcases m.get key with _ | v
  · cases o <;> simp
  · cases v <;> cases o <;> simp

/-- A label is read where the value is one, and nothing where there is none. -/
theorem getLabel_eq_ok {o : Option Label} :
    m.getLabel key = .ok o ↔ m.get key = o.map Label.toValue := by
  unfold getLabel
  rcases m.get key with _ | v
  · cases o <;> simp
  · cases v with
    | integer i =>
      rcases o with _ | _ | s
      · cases hi : i64TryFrom i.val <;> simp [hi]
      · rename_i j
        have hj : i64TryFrom i.val = some j ↔ i.val = j.toInt :=
          ⟨fun h => (i64TryFrom_eq_some h).symm, fun h => by rw [h, i64TryFrom_toInt]⟩
        cases hi : i64TryFrom i.val <;> simp_all [Label.toValue, Integer.ext_iff]
      · cases hi : i64TryFrom i.val <;> simp [hi, Label.toValue]
    | text t => rcases o with _ | _ | s <;> simp [Label.toValue]
    | _ => rcases o with _ | _ | s <;> simp [Label.toValue]

end

/-! ### Decoding -/

variable (c : Cbor2)

/-- One entry of a map that is being deserialized. -/
def deserializeEntry (m : CoseMap) (e : Tree × Tree) : Except String CoseMap := do
  let key ← Label.deserialize c e.1
  let value ← c.value e.2
  return m.insert key value

/-- `BTreeMap::<Label, Value>::deserialize`: a later entry replaces an earlier one
with the same label.  The strict pass in front of it has refused everything but
maps. -/
def deserializeChecked (t : Tree) : Except String CoseMap :=
  match t with
  | .map _ entries => entries.foldlM (deserializeEntry c) ∅
  | _ => .error "invalid type, expected a map"

/-- The entries of a map are deserialized one by one and inserted in their order. -/
theorem foldlM_deserializeEntry {c : Cbor2} {es : List (Tree × Tree)} {m m' : CoseMap} :
    es.foldlM (deserializeEntry c) m = .ok m' ↔ ∃ ls : List (Label × Value),
      List.Forall₂ (fun e l => Label.deserialize c e.1 = .ok l.1 ∧ c.value e.2 = .ok l.2) es ls ∧
        m' = m.insertAll ls := by
  induction es generalizing m with
  | nil => simp [BTreeMap.insertAll, eq_comm, pure, Except.pure]
  | cons e es ih =>
    simp only [List.foldlM_cons, Except.bind_eq_ok, deserializeEntry, Except.pure_eq_ok, ih,
      List.forall₂_cons_left_iff]
    constructor
    · rintro ⟨_, ⟨l, hl, v, hv, rfl⟩, ls, hls, rfl⟩
      exact ⟨(l, v) :: ls, ⟨(l, v), ls, ⟨hl, hv⟩, hls, rfl⟩, rfl⟩
    · rintro ⟨_, ⟨l, ls, ⟨hl, hv⟩, hls, rfl⟩, rfl⟩
      exact ⟨m.insert l.1 l.2, ⟨l.1, hl, l.2, hv, rfl⟩, ls, hls, rfl⟩

/-- Every value in the map has been read from an item inside. -/
theorem value_of_deserializeChecked {c : Cbor2} {t : Tree} {m : CoseMap} {e : Label × Value}
    (h : deserializeChecked c t = .ok m) (he : e ∈ m.entries) :
    ∃ s ∈ t.children, c.value s = .ok e.2 := by
  cases t with
  | int | str | chunked | array | tag | prim => cases h
  | map w es =>
    obtain ⟨ls, hls, rfl⟩ := foldlM_deserializeEntry.mp h
    obtain hnone | he := BTreeMap.mem_of_mem_insertAll he
    · cases hnone
    · obtain ⟨e', he', -, hvalue⟩ := Tree.forall₂_mem_right hls he
      exact ⟨e'.2, List.mem_flatMap.mpr ⟨e', he', by simp⟩, hvalue⟩

/-- `CoseMap::from_slice`. -/
def fromSlice (data : Bytes) : Except Error CoseMap := do
  Strict.validateMap c data
  (do deserializeChecked c (← c.item data)).mapError .cbor

/-- `CoseMap::deserialize`, of a binary format. -/
def deserialize (t : Tree) : Except String CoseMap := do
  let raw ← c.rawValue t
  (Strict.validateMap c raw).mapError Error.display
  deserializeChecked c (← c.item raw)

/-! ### Encoding -/

/-- `write_head`. -/
def writeHead (major argument : Nat) : Bytes :=
  if argument < 24 then [initial major argument]
  else if argument ≤ 0xff then initial major 24 :: beBytes 1 argument
  else if argument ≤ 0xffff then initial major 25 :: beBytes 2 argument
  else if argument ≤ 0xffffffff then initial major 26 :: beBytes 4 argument
  else initial major 27 :: beBytes 8 argument

/-- The encoding of a label in `to_vec`. -/
def writeLabel : Label → Bytes
  | .int v =>
    if 0 ≤ v.toInt then writeHead 0 v.toInt.toNat else writeHead 1 (-1 - v.toInt).toNat
  | .text s => writeHead 3 (utf8 s).length ++ utf8 s

mutual
/-- `needs_canonicalization`. -/
def needsCanonicalization : Value → Nat → Bool
  | _, 0 => true
  | .map _, _ + 1 => true
  | .tag n inner, depth + 1 => n = 2 || n = 3 || needsCanonicalization inner depth
  | .float bits, _ + 1 => decide (Value.IsNan bits)
  | .array items, depth + 1 => anyNeedsCanonicalization items depth
  | _, _ + 1 => false

/-- Whether some element of an array needs it. -/
def anyNeedsCanonicalization : List Value → Nat → Bool
  | [], _ => false
  | v :: vs, depth => needsCanonicalization v depth || anyNeedsCanonicalization vs depth
end

/-- What `to_vec` appends for a value. -/
def writeValue (v : Value) : Except Error Bytes :=
  if needsCanonicalization v c.recursionLimit then c.canonicalVec v
  else (c.toWriter v).mapError .cbor

/-- One entry in `to_vec`. -/
def writeEntry (e : Bytes × Value) : Except Error Bytes := do return e.1 ++ (← writeValue c e.2)

/-- `CoseMap::to_vec`. -/
def toVec (m : CoseMap) : Except Error Bytes := do
  let entries := (m.entries.map fun e => (writeLabel e.1, e.2)).insertionSort
    fun e e' => Before e.1 e'.1
  let entries ← entries.mapM (writeEntry c)
  return writeHead 5 m.length ++ entries.flatten

end CoseMap
end Cose2

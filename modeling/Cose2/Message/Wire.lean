import Cose2.LayerRoundTrip
import Cose2.Message.Structures

/-! # Messages on the wire

An encoder writes a tuple of values and of parts that are encoded already, behind a prefix
of tags.  All of it is the encoding of one value, which the strict parser accepts as a message
of its type, and whose body the decoder is handed.
-/
namespace Cose2

open Cbor Cbor2

/-! ### Tuples -/

/-- `to_vec` writes a tuple as an array of definite length with the shortest heads, and
copies what is encoded already, which a `RawValue` keeps as it is. -/
structure Cbor2.WritesTuples (c : Cbor2) : Prop where
  tuple : ∀ {parts bs}, c.writeTuple parts = .ok bs → bs = tupleBytes parts
  raw : ∀ {data r}, c.newRawValue data = .ok r → r = data

/-- `serde_bytes` reads a byte string of definite length, and null as nothing. -/
structure Cbor2.ReadsByteStrings (c : Cbor2) : Prop where
  bytes : ∀ {b}, (Value.bytes b).Writable → c.byteBuf (Value.bytes b).toTree = .ok b
  some : ∀ {b}, (Value.bytes b).Writable →
    c.optionByteBuf (Value.bytes b).toTree = .ok (some b)
  none : c.optionByteBuf Value.null.toTree = .ok none

theorem Cbor2.reference_writesTuples : Cbor2.reference.WritesTuples where
  tuple h := (Except.ok.inj h).symm
  raw h := by
    obtain ⟨_, -, heq⟩ := Except.map_eq_ok.mp h
    exact heq.symm

theorem Cbor2.reference_readsByteStrings : Cbor2.reference.ReadsByteStrings where
  bytes _ := by simp only [reference, Value.value_toTree]
  some _ := by
    simp only [reference, Value.value_toTree]
    rfl
  none := rfl

/-- The part of a tuple is written as the value. -/
def Part.Spells : Part → Value → Prop
  | .value w, v => w = v
  | .raw data, v => data = v.encode

/-- A tuple is written as the array of the values of its parts. -/
theorem tupleBytes_eq {parts : List Part} {vs : List Value}
    (h : List.Forall₂ Part.Spells parts vs) : tupleBytes parts = (Value.array vs).encode := by
  rw [← tupleBytes_value, tupleBytes, tupleBytes, List.length_map, h.length_eq]
  congr 1
  induction h with
  | nil => rfl
  | @cons part v _ _ hpart _ ih =>
    rw [List.map_cons, List.flatMap_cons, List.flatMap_cons, ih]
    cases part with
    | value w => rw [show w = v from hpart]
    | raw data => rw [show data = v.encode from hpart]

/-! ### Byte strings -/

/-- `serde_bytes` takes a byte string for its content, and null for nothing. -/
structure Cbor2.TakesByteStrings (c : Cbor2) : Prop where
  bytes : ∀ {t b b'}, t.value = some (.bytes b) → c.byteBuf t = .ok b' → b' = b
  some : ∀ {t b o}, t.value = some (.bytes b) → c.optionByteBuf t = .ok o → o = some b
  none : ∀ {t o}, Strict.IsNull t → c.optionByteBuf t = .ok o → o = none

theorem Cbor2.reference_takesByteStrings : Cbor2.reference.TakesByteStrings where
  bytes hv h := by
    simp only [reference, hv] at h
    exact (Except.ok.inj h).symm
  some hv h := by
    simp only [reference, hv] at h
    exact (Except.ok.inj h).symm
  none {t o} ht h := by
    subst ht
    exact (Except.ok.inj h).symm

/-- The bytes that were read, if any, are the content of the item. -/
def HoldsBytes (t : Tree) (o : Option Bytes) : Prop := ∀ b, o = some b → t.value = some (.bytes b)

section Bytes

variable {c : Cbor2} {t : Tree}

theorem exists_value_of_isBytes (h : Strict.IsBytes t) : ∃ b, t.value = some (.bytes b) := by
  cases t with
  | str text w payload =>
    cases text with
    | false => exact ⟨payload, rfl⟩
    | true => exact h.elim
  | chunked text chunks =>
    cases text with
    | false => exact ⟨chunks.flatMap Prod.snd, rfl⟩
    | true => exact h.elim
  | int | array | map | tag | prim => exact h.elim

theorem value_of_byteBuf (hb : c.TakesByteStrings) (ht : Strict.IsBytes t) {b : Bytes}
    (h : c.byteBuf t = .ok b) : t.value = some (.bytes b) := by
  obtain ⟨b', hb'⟩ := exists_value_of_isBytes ht
  rw [hb', hb.bytes hb' h]

/-- Null in two bytes is not well-formed. -/
theorem isNull_of_takenForNull (h : Strict.TakenForNull t) (ht : t.WellFormed) :
    Strict.IsNull t := by
  cases t with
  | prim w n =>
    cases w with
    | imm =>
      obtain rfl : n = 22 := h
      rfl
    | one =>
      obtain rfl : n = 22 := h
      exact absurd (show 22 < 32 by decide) ht.2.head
    | two | four | eight => exact h.elim
  | int | str | chunked | array | map | tag => exact h.elim

theorem holdsBytes_of_optionByteBuf (hb : c.TakesByteStrings)
    (ht : Strict.IsBytesOrNull Strict.TakenForNull t) (hwf : t.WellFormed) {o : Option Bytes}
    (h : c.optionByteBuf t = .ok o) : HoldsBytes t o := by
  rintro b rfl
  rcases ht with ht | ht
  · obtain ⟨b', hb'⟩ := exists_value_of_isBytes ht
    cases hb.some hb' h
    exact hb'
  · cases hb.none (isNull_of_takenForNull ht hwf) h

/-- The content of an accepted item can be written in no more space. -/
theorem HoldsBytes.noLarger {o : Option Bytes} (h : HoldsBytes t o) :
    (Recipient.serializedCiphertext o).toTree.NoLarger t := by
  cases o with
  | none => exact .prim _ _ t
  | some b => exact .str (Tree.length_lt_of_bytes (h b rfl))

theorem HoldsBytes.writable {o : Option Bytes} (h : HoldsBytes t o) (ht : Accepted c t) :
    (Recipient.serializedCiphertext o).Writable := by
  cases o with
  | none => exact Value.writable_null
  | some b => exact Tree.value_writable ht.length (h b rfl)

end Bytes

/-! ### Tags -/

/-- The heads of tags, one inside the other. -/
def tagBytes (tags : List UInt64) : Bytes :=
  tags.flatMap fun n => head 6 (preferred n.toNat) n.toNat

/-- The value inside the tags. -/
def withTags (tags : List UInt64) (v : Value) : Value := tags.foldr Value.tag v

theorem encode_withTags (tags : List UInt64) (v : Value) :
    (withTags tags v).encode = tagBytes tags ++ v.encode := by
  induction tags with
  | nil => rfl
  | cons n tags ih =>
    rw [tagBytes, List.flatMap_cons, List.append_assoc, ← tagBytes, ← ih]
    rfl

theorem norm_withTags (tags : List UInt64) {vs : List Value}
    (h : (Value.array vs).norm = .array vs) :
    (withTags tags (.array vs)).norm = withTags tags (.array vs) := by
  induction tags with
  | nil => exact h
  | cons n tags ih =>
    -- a tag or an array is inside, so the tag is not that of a bignum
    have hinside : ∀ b, withTags tags (.array vs) ≠ .bytes b := by
      cases tags <;> rintro b ⟨⟩
    rw [withTags, List.foldr_cons, ← withTags, Value.norm, ih]
    rcases Value.reduceTag_cases n (withTags tags (.array vs)) with heq | ⟨-, b, hb, -⟩
    · exact heq
    · exact absurd hb (hinside b)

theorem nullify_withTags (tags : List UInt64) (v : Value) :
    (withTags tags v).nullify = withTags tags v.nullify := by
  induction tags with
  | nil => rfl
  | cons n tags ih =>
    rw [withTags, List.foldr_cons, ← withTags, Value.nullify, ih]
    rfl

theorem duplicateFree_withTags (tags : List UInt64) {v : Value} (h : v.DuplicateFree) :
    (withTags tags v).DuplicateFree := by
  induction tags with
  | nil => exact h
  | cons n tags ih => exact Value.duplicateFree_tag n ih

/-- What is inside the tags is admitted with them. -/
theorem Admitted.inside {tags : List UInt64} {v : Value} (h : Admitted (withTags tags v)) :
    Admitted v := by
  induction tags with
  | nil => exact h
  | cons n tags ih => exact ih (h.child (List.mem_singleton_self _))

/-- An array within the limits is admitted when its elements are in normal form and have no
key twice as they are read. -/
theorem admitted_withTags {tags : List UInt64} {vs : List Value}
    (hnorm : ∀ v ∈ vs, v.norm = v) (hapart : ∀ v ∈ vs, v.asRead.DuplicateFree)
    (hdata : WithinDefaults (withTags tags (.array vs)).encode) :
    Admitted (withTags tags (.array vs)) := by
  have harray : (Value.array vs).norm = .array vs := by
    rw [Value.norm, Value.normItems_eq, List.map_congr_left hnorm, List.map_id']
  have hinside := Value.duplicateFree_asRead_array hapart
  rw [Value.asRead, harray] at hinside
  obtain ⟨hwritable, hlimits⟩ := hdata.of_encode
  refine ⟨⟨norm_withTags tags harray, hwritable, ?_⟩, hlimits⟩
  rw [nullify_withTags]
  exact duplicateFree_withTags tags hinside

/-! ### The body of a message -/

/-- The tags that an encoder may write: those of `to_vec`, `to_cwt_vec` and
`to_untagged_vec`. -/
def writtenTags (n : UInt64) : List (List UInt64) := [[n], [61, n], []]

theorem wrapped_withTags {n : UInt64} {tags : List UInt64} (h : tags ∈ writtenTags n) (v : Value) :
    Strict.Wrapped n.toNat v.toTree (withTags tags v).toTree := by
  rw [writtenTags, List.mem_cons, List.mem_cons, List.mem_singleton] at h
  rcases h with rfl | rfl | rfl
  · exact .plain (.tagged _)
  · exact .plain (.cwt _ _)
  · exact .plain .bare

section Reading

variable {c : Cbor2} (hr : c.ReadsBack) (hrecursion : defaultMaxDepth < c.recursionLimit)
include hr hrecursion

/-- **The decoder is handed the body of the message that was written, and reads its item.** -/
theorem messageBody_encode {n : UInt64} (htag : Strict.IsMessageTag n.toNat)
    {tags : List UInt64} (htags : tags ∈ writtenTags n) {v : Value}
    (h : Admitted (withTags tags v))
    (hmessage : Strict.IsMessage Strict.TakenForNull n.toNat v.toTree) :
    Strict.messageBody c (withTags tags v).encode n.toNat {} = .ok v.encode ∧
      c.item v.encode = .ok v.toTree := by
  have hinside := h.inside
  constructor
  · refine (Strict.messageBody_iff c (root_regular hr h.regular h.limits hrecursion) rfl htag _).mpr
      ⟨_, wrapped_withTags htags v, hmessage, rfl⟩
  · exact hr.item hinside.regular (hinside.limits.depth.trans_lt hrecursion)

end Reading

/-! ### Headers -/

section Headers

variable {c : Cbor2} (hw : c.WritesValues) {u : Header} {data : Bytes}
include hw

theorem headerRaw_ok (ht : c.WritesTuples) (h : headerRaw c u = .ok data) :
    u.validateCommon = .ok () ∧ data = u.toValue.norm.encode := by
  obtain ⟨b, hb, hraw⟩ := Except.bind_eq_ok.mp h
  obtain ⟨hvalid, hvec⟩ := Except.seq_eq_ok.mp hb
  obtain ⟨rfl, -⟩ := (CoseMap.toVec_deterministic hw u).2 b hvec
  exact ⟨hvalid, ht.raw (Except.mapError_eq_ok.mp hraw)⟩

/-- A header with the same values is written as the same part. -/
theorem headerRaw_same {u' : Header} (h : headerRaw c u = .ok data) (hsame : SameValues u u')
    (hvalid : u'.validateCommon = .ok ()) (hencodable : Encodable c u') :
    headerRaw c u' = .ok data := by
  obtain ⟨b, hb, hraw⟩ := Except.bind_eq_ok.mp h
  exact Except.bind_eq_ok.mpr ⟨b, toVec_same hw hb hsame hvalid hencodable, hraw⟩

end Headers

/-! ### Arrays of layers -/

section Arrays

variable {c : Cbor2} (hw : c.WritesValues) {values values' : Except String (List Value)}
  {data : Bytes}
include hw

/-- The layers inside a message are written as the deterministic encoding of their array. -/
theorem canonicalRaw_array (ht : c.WritesTuples)
    (h : canonicalRaw c (.array <$> values) = .ok data) :
    ∃ vs, values = .ok vs ∧ data = (Value.array vs).norm.encode := by
  obtain ⟨encoded, hencoded, hraw⟩ := Except.bind_eq_ok.mp h
  rw [Except.mapError_eq_ok, Except.bind_eq_ok] at hencoded
  obtain ⟨_, hmap, hvec⟩ := hencoded
  obtain ⟨vs, hvs, rfl⟩ := Except.map_eq_ok.mp hmap
  refine ⟨vs, hvs, ?_⟩
  rw [ht.raw (Except.mapError_eq_ok.mp hraw), hw.canonical hvec, Value.canonical]

/-- What was read of layers without undefined is written as the same part. -/
theorem canonicalRaw_same (he : c.EncodesCanonically)
    (hrecursion : defaultMaxDepth < c.recursionLimit) {vs vs' : List Value}
    (h : canonicalRaw c (.array <$> values) = .ok data) (hvalues : values = .ok vs)
    (hvalues' : values' = .ok vs') (hwritten : List.Forall₂ Rewritten vs vs')
    (hadmitted : Admitted (Value.array vs).norm) (hdefined : ∀ v ∈ vs, v.Defined) :
    canonicalRaw c (.array <$> values') = .ok data := by
  subst hvalues hvalues'
  obtain ⟨encoded, hencoded, hraw⟩ := Except.bind_eq_ok.mp h
  have hvec := hw.canonical (Except.mapError_eq_ok.mp hencoded)
  have hvec' := (Rewritten.array hwritten hadmitted.regular.writable).encodes he hrecursion
    hadmitted
  rw [(Value.defined_array.mpr hdefined).settle, ← Value.canonical, ← hvec] at hvec'
  exact Except.bind_eq_ok.mpr ⟨encoded, Except.mapError_eq_ok.mpr hvec', hraw⟩

end Arrays

end Cose2

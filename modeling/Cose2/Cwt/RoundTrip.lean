import Cose2.Cwt.Received
import Cose2.MapRoundTrip

/-! # Typed claims written and read back

`Claims::to_vec` puts the typed fields under their labels next to the other claims, and
`Claims::from_slice` takes them out again.  The two fit together when no other claim has
one of these labels: `insert_claim` refuses such a claim only if the field is there too.
-/
namespace Cose2

open Cbor Iana

namespace Claims

/-! ### Fields -/

/-- The step of `to_map` for a field, when its label is free. -/
theorem insertField_ok {α : Type} {encode : α → Except Error Value} {key : Label}
    {field : Option α} {map map' : CoseMap} (hfree : map.get key = none)
    (h : insertField encode key field map = .ok map') :
    ∃ o, field.mapM encode = .ok o ∧ ∀ l, map'.get l = if l = key then o else map.get l := by
  cases field with
  | none =>
    cases h
    refine ⟨none, rfl, fun l => ?_⟩
    split_ifs with hl
    · rw [hl, hfree]
    · rfl
  | some a =>
    obtain ⟨w, hw, h⟩ := Except.bind_eq_ok.mp h
    rw [insertClaim, Except.seq_eq_ok, Except.pure_eq_ok] at h
    obtain ⟨-, rfl⟩ := h
    refine ⟨some w, Except.optionMapM_eq_ok.mpr (.inr ⟨a, w, rfl, hw, rfl⟩), fun l => ?_⟩
    by_cases hl : l = key
    · rw [BTreeMap.get_insert, if_pos hl, if_pos hl]
    · rw [BTreeMap.get_insert, if_neg hl, if_neg hl]

/-- How a field is written and read. -/
structure Codec {α : Type} (encode : α → Except Error Value) (decode : Value → Except Error α) :
    Prop where
  decodes : ∀ {a v}, encode a = .ok v → decode v.asRead = .ok a
  apart : ∀ {a v}, encode a = .ok v → v.asRead.DuplicateFree

theorem Codec.mapM {α : Type} {encode : α → Except Error Value} {decode : Value → Except Error α}
    (hcodec : Codec encode decode) {field : Option α} {o : Option Value}
    (h : field.mapM encode = .ok o) :
    (o.map Value.asRead).mapM decode = .ok field ∧ ∀ v, o = some v → v.asRead.DuplicateFree := by
  rcases Except.optionMapM_eq_ok.mp h with ⟨rfl, rfl⟩ | ⟨a, v, rfl, hv, rfl⟩
  · exact ⟨rfl, by simp⟩
  · refine ⟨Except.optionMapM_eq_ok.mpr (.inr ⟨_, a, rfl, hcodec.decodes hv, rfl⟩), ?_⟩
    rintro _ ⟨⟩
    exact hcodec.apart hv

theorem textCodec (name : String) : Codec (.ok ∘ .text) (textFromValue name) where
  decodes h := by
    cases h
    rfl
  apart h := by
    cases h
    exact (Value.Plain.text _).duplicateFree

theorem bytesCodec (name : String) : Codec (.ok ∘ .bytes) (bytesFromValue name) where
  decodes h := by
    cases h
    rfl
  apart h := by
    cases h
    exact (Value.Plain.bytes _).duplicateFree

theorem audienceCodec : Codec (.ok ∘ Audience.toValue) audienceFromValue where
  decodes {a v} h := by
    cases h
    cases a with
    | one s => rfl
    | many values =>
      rw [Audience.toValue, Value.asRead_array, List.map_map, audienceFromValue]
      refine Except.map_eq_ok.mpr ⟨values, Except.mapM_eq_ok.mpr ?_, rfl⟩
      rw [List.forall₂_map_left_iff, List.forall₂_same]
      exact fun s _ => rfl
  apart {a v} h := by
    cases h
    cases a with
    | one s => exact (Value.Plain.text s).duplicateFree
    | many values =>
      refine Value.duplicateFree_asRead_array (List.forall_mem_map.mpr fun s _ => ?_)
      exact (Value.Plain.text s).duplicateFree

theorem not_isNan {bits : UInt64} (h : Double.IsFinite bits) : ¬ Value.IsNan bits := by
  rw [Double.IsFinite, Double.exponent] at h
  rw [Value.IsNan]
  omega

/-- A date is written as a number of its own form. -/
theorem numericDateValue_ok {date : NumericDate} {v : Value} (h : numericDateValue date = .ok v) :
    (∃ i, v = .integer i ∧ date = .integer (Int128.ofInteger i)) ∨
      ∃ bits, v = .float bits ∧ date = .float bits ∧ Double.IsFinite bits := by
  obtain ⟨d, hd, hv⟩ := Except.bind_eq_ok.mp h
  obtain ⟨hrange, rfl⟩ := NumericDate.validate_ok.mp hd
  clear h hd
  cases d with
  | integer value =>
    have hbounds : -18446744073709551616 ≤ value.val ∧ value.val < 18446744073709551616 := hrange
    simp only [Except.ofOption_eq_ok, Value.ofInt, dif_pos hbounds] at hv
    cases hv
    exact .inl ⟨_, rfl, rfl⟩
  | float bits =>
    cases hv
    exact .inr ⟨bits, rfl, rfl, hrange⟩

theorem dateCodec (name : String) : Codec numericDateValue (numericDateFromValue name) where
  decodes h := by
    rcases numericDateValue_ok h with ⟨i, rfl, rfl⟩ | ⟨bits, rfl, rfl, hfinite⟩
    · rfl
    · rw [Value.asRead, Value.norm, Value.normFloat, if_neg (not_isNan hfinite), Value.nullify,
        numericDateFromValue, NumericDate.fromF64, if_neg (not_not.mpr hfinite)]
  apart h := by
    rcases numericDateValue_ok h with ⟨i, rfl, rfl⟩ | ⟨bits, rfl, rfl, hfinite⟩
    · exact (Value.Plain.integer i).duplicateFree
    · exact Value.duplicateFree_of_children rfl (by rintro _ ⟨⟩)

/-! ### All fields -/

/-- What `to_map` makes of the claims when the labels of the fields are free. -/
structure Written (claims : Claims) (map : CoseMap) : Prop where
  reads : Reads map.asRead { claims with extra := claims.extra.asRead }
  apart : (∀ e ∈ claims.extra.entries, e.2.asRead.DuplicateFree) →
    ∀ e ∈ map.entries, e.2.asRead.DuplicateFree

theorem toMap_ok {claims : Claims} (hfree : ∀ label ∈ registered, claims.extra.get label = none)
    {map : CoseMap} (h : claims.toMap = .ok map) : Written claims map := by
  simp only [toMap, Except.bind_eq_ok] at h
  obtain ⟨m₁, h₁, m₂, h₂, m₃, h₃, m₄, h₄, m₅, h₅, m₆, h₆, h₇⟩ := h
  have hlabels := hfree
  simp only [registered, List.forall_mem_cons] at hlabels
  obtain ⟨f₁, f₂, f₃, f₄, f₅, f₆, f₇, -⟩ := hlabels
  obtain ⟨o₁, e₁, g₁⟩ := insertField_ok f₁ h₁
  obtain ⟨o₂, e₂, g₂⟩ := insertField_ok (by simp (disch := decide) only [g₁, if_neg, f₂]) h₂
  obtain ⟨o₃, e₃, g₃⟩ := insertField_ok (by simp (disch := decide) only [g₁, g₂, if_neg, f₃]) h₃
  obtain ⟨o₄, e₄, g₄⟩ := insertField_ok
    (by simp (disch := decide) only [g₁, g₂, g₃, if_neg, f₄]) h₄
  obtain ⟨o₅, e₅, g₅⟩ := insertField_ok
    (by simp (disch := decide) only [g₁, g₂, g₃, g₄, if_neg, f₅]) h₅
  obtain ⟨o₆, e₆, g₆⟩ := insertField_ok
    (by simp (disch := decide) only [g₁, g₂, g₃, g₄, g₅, if_neg, f₆]) h₆
  obtain ⟨o₇, e₇, g₇⟩ := insertField_ok
    (by simp (disch := decide) only [g₁, g₂, g₃, g₄, g₅, g₆, if_neg, f₇]) h₇
  obtain ⟨r₁, d₁⟩ := (textCodec "iss").mapM e₁
  obtain ⟨r₂, d₂⟩ := (textCodec "sub").mapM e₂
  obtain ⟨r₃, d₃⟩ := audienceCodec.mapM e₃
  obtain ⟨r₄, d₄⟩ := (dateCodec "exp").mapM e₄
  obtain ⟨r₅, d₅⟩ := (dateCodec "nbf").mapM e₅
  obtain ⟨r₆, d₆⟩ := (dateCodec "iat").mapM e₆
  obtain ⟨r₇, d₇⟩ := (bytesCodec "cti").mapM e₇
  have hget (l : Label) : map.get l = if l = cwtClaimCti then o₇ else if l = cwtClaimIat then o₆
      else if l = cwtClaimNbf then o₅ else if l = cwtClaimExp then o₄
      else if l = cwtClaimAud then o₃ else if l = cwtClaimSub then o₂
      else if l = cwtClaimIss then o₁ else claims.extra.get l := by
    rw [g₇, g₆, g₅, g₄, g₃, g₂, g₁]
  have hother (l : Label) (hl : l ∉ registered) : map.get l = claims.extra.get l := by
    simp only [registered, List.mem_cons, List.not_mem_nil, or_false, not_or] at hl
    obtain ⟨n₁, n₂, n₃, n₄, n₅, n₆, n₇⟩ := hl
    rw [hget, if_neg n₇, if_neg n₆, if_neg n₅, if_neg n₄, if_neg n₃, if_neg n₂, if_neg n₁]
  refine ⟨⟨?_, ?_, ?_, ?_, ?_, ?_, ?_, fun l => ?_⟩, fun hextra e he => ?_⟩
  · rwa [CoseMap.get_asRead, hget]
  · rwa [CoseMap.get_asRead, hget]
  · rwa [CoseMap.get_asRead, hget]
  · rwa [CoseMap.get_asRead, hget]
  · rwa [CoseMap.get_asRead, hget]
  · rwa [CoseMap.get_asRead, hget]
  · rwa [CoseMap.get_asRead, hget]
  · rw [CoseMap.get_asRead, CoseMap.get_asRead]
    split_ifs with hl
    · rw [hfree l hl]
      rfl
    · rw [hother l hl]
  · have hvalue := BTreeMap.get_eq_some.mpr he
    rw [hget] at hvalue
    split_ifs at hvalue
    · exact d₇ _ hvalue
    · exact d₆ _ hvalue
    · exact d₅ _ hvalue
    · exact d₄ _ hvalue
    · exact d₃ _ hvalue
    · exact d₂ _ hvalue
    · exact d₁ _ hvalue
    · exact hextra e (BTreeMap.get_eq_some.mp hvalue)

/-! ### The round trip -/

/-- The claims written as `data` are decoded from it, the other claims as they are read, which
leaves their encodings when nothing is undefined, and are valid exactly when the map that is
written is. -/
structure RoundTrips (c : Cbor2) (claims : Claims) (data : Bytes) : Prop where
  decoded : fromSlice c data = .ok { claims with extra := claims.extra.asRead }
  extra : CoseMap.Defined claims.extra → ∀ label,
    (claims.extra.asRead.get label).map Value.canonical =
      (claims.extra.get label).map Value.canonical
  valid : ∃ map, CoseMap.fromSlice c data = .ok map ∧
    ∀ (v : Validator) (clock : Except Duration Duration) (debug : String → String),
      (v.validate clock debug claims = .ok () ↔ v.validateMap clock debug map = .ok ())

/-- **Claims that are written are decoded again**, and validated alike, when no other
claim has the label of a field and the encoding is within the limits of the decoder. -/
theorem roundTrips {c : Cbor2} (hw : c.WritesValues) (hr : c.ReadsBack)
    (hrecursion : defaultMaxDepth < c.recursionLimit) (claims : Claims)
    (hapart : ∀ e ∈ claims.extra.entries, e.2.asRead.DuplicateFree)
    (hfree : ∀ label ∈ registered, claims.extra.get label = none)
    (data : Bytes) (hsize : data.length < usizeBound) (h : claims.toVec c = .ok data)
    (hlimits : ∃ t : Tree, t.bytes = data ∧ t.Fits ∧ Strict.WithinLimits {} t) :
    RoundTrips c claims data := by
  obtain ⟨map, hmap, hdata⟩ := Except.bind_eq_ok.mp h
  have hwritten := toMap_ok hfree hmap
  have hread := CoseMap.fromSlice_toVec hr hw hrecursion (hwritten.apart hapart)
    ⟨hsize, hlimits⟩ hdata
  refine ⟨fromSlice_ok.mpr ⟨_, hread, hwritten.reads⟩, CoseMap.canonical_get_asRead, _, hread,
    fun v clock debug => ?_⟩
  rw [hwritten.reads.validateMap_eq v clock debug]
  exact Iff.rfl

/-- An issuer and an audience, and a claim of its own with undefined in it. -/
def issued : Claims where
  issuer := some "x"
  audience := some (.many ["y", "z"])
  extra := BTreeMap.ofList
    [(.text "k", .map [(.bool true, .undefined), (.bool false, .null)])]

theorem issued_roundTrips : ∃ data, issued.toVec Cbor2.reference = .ok data ∧
    RoundTrips Cbor2.reference issued data := by
  have hdata : issued.toVec Cbor2.reference = .ok [0xa3, 0x01, 0x61, 0x78, 0x03, 0x82, 0x61, 0x79,
    0x61, 0x7a, 0x61, 0x6b, 0xa2, 0xf4, 0xf6, 0xf5, 0xf7] := rfl
  obtain ⟨hsize, hlimits⟩ : WithinDefaults [0xa3, 0x01, 0x61, 0x78, 0x03, 0x82, 0x61, 0x79, 0x61,
      0x7a, 0x61, 0x6b, 0xa2, 0xf4, 0xf6, 0xf5, 0xf7] :=
    withinDefaults_of_root (c := Cbor2.reference) (by decide) rfl
  refine ⟨_, hdata, roundTrips Cbor2.reference_writesValues Cbor2.reference_readsBack
    (by decide) issued ?_ (by decide) _ hsize hdata hlimits⟩
  exact List.forall_mem_singleton.mpr (Value.duplicateFree_of_distinctKeys rfl)

/-- An issuer among the other claims. -/
def hidden : Claims where
  extra := BTreeMap.ofList [(cwtClaimIss, .text "x")]

/-- A claim that is nested too deeply for the decoder. -/
def deep : Claims where
  extra := BTreeMap.ofList [(.text "k", Value.nested 128)]

theorem deep_toValue : deep.extra.toValue = .map [(.text "k", Value.nested 128)] := rfl

theorem deep_norm : deep.extra.toValue.norm = deep.extra.toValue := by
  rw [deep_toValue, Value.norm, Value.normEntries, Value.normEntries, Value.norm_nested]
  rfl

theorem deep_writable : deep.extra.toValue.Writable := by
  have hkey : (utf8 "k").length = 1 := rfl
  rw [deep_toValue, Value.writable_map]
  simp [Value.writable_text, Value.writable_nested, hkey]

theorem deep_depth : deep.extra.toValue.toTree.depth = 129 := by
  rw [deep_toValue, Value.toTree, Value.toTreeEntries, Value.toTreeEntries, Tree.depth,
    Tree.depthEntries, Tree.depthEntries, Value.depth_nested]
  rfl

theorem deep_distinct : ∀ e ∈ deep.extra.entries, e.2.DuplicateFree :=
  List.forall_mem_singleton.mpr (Value.duplicateFree_nested 128)

theorem deep_toVec : deep.toVec Cbor2.reference = .ok deep.extra.toValue.canonical := by
  refine Except.bind_eq_ok.mpr ⟨deep.extra, rfl,
    (CoseMap.toVec_deterministic Cbor2.reference_writesValues deep.extra).1 _ ?_⟩
  rw [Cbor2.canonicalVec, Except.mapError_eq_ok]
  refine Cbor2.reference_encodesCanonically.canonical deep_writable
    (CoseMap.duplicateFree_toValue deep_distinct) ?_
  rw [deep_depth]
  decide

/-- A claim that is undefined. -/
def noted : Claims where
  extra := BTreeMap.ofList [(.text "k", .undefined)]

/-- All of them can be written, and no key in them is there twice.  The undefined claim is
decoded as null, which has another encoding. -/
theorem not_roundTrips :
    ((∀ e ∈ hidden.extra.entries, e.2.DuplicateFree) ∧
      ∃ data, hidden.toVec Cbor2.reference = .ok data ∧
        ¬ RoundTrips Cbor2.reference hidden data) ∧
    ((∀ e ∈ deep.extra.entries, e.2.DuplicateFree) ∧
      ∃ data, deep.toVec Cbor2.reference = .ok data ∧
        ¬ RoundTrips Cbor2.reference deep data) ∧
    (∀ e ∈ noted.extra.entries, e.2.DuplicateFree) ∧
      ∃ data claims, noted.toVec Cbor2.reference = .ok data ∧
        fromSlice Cbor2.reference data = .ok claims ∧
        ¬ ∀ label, (claims.extra.get label).map Value.canonical =
          (noted.extra.get label).map Value.canonical := by
  have hscalar {v : Value} (h : v.norm.toTree.children = []) (hmap : ∀ es, v.norm ≠ .map es) :
      ∀ e ∈ [((.text "k" : Label), v)], e.2.DuplicateFree :=
    List.forall_mem_singleton.mpr (Value.duplicateFree_of_children h hmap)
  refine ⟨⟨List.forall_mem_singleton.mpr (Value.Plain.text "x").duplicateFree, ?_⟩,
    ⟨deep_distinct, _, deep_toVec, fun h => ?_⟩,
    hscalar rfl (by rintro _ ⟨⟩), ?_⟩
  · refine ⟨[0xa1, 0x01, 0x61, 0x78], rfl, fun h => ?_⟩
    have hissuer : (fromSlice Cbor2.reference [0xa1, 0x01, 0x61, 0x78]).map Claims.issuer =
        .ok (some "x") := rfl
    rw [h.decoded] at hissuer
    cases hissuer
  · obtain ⟨map, hmap, -⟩ := fromSlice_ok.mp h.decoded
    rw [CoseMap.fromSlice, Except.seq_eq_ok, Strict.validateMap, Except.bind_eq_ok] at hmap
    obtain ⟨⟨_, hroot, -⟩, -⟩ := hmap
    obtain ⟨t, ht, hfits, hlimits, -⟩ := (Strict.rootWithDuplicatePolicy_ok _).mp hroot
    rw [Value.canonical, deep_norm] at ht
    have hdepth := hlimits.depth
    rw [← bytes_inj deep_writable hfits ht, deep_depth] at hdepth
    simp [defaultMaxDepth] at hdepth
  · refine ⟨[0xa1, 0x61, 0x6b, 0xf7], { extra := BTreeMap.ofList [(.text "k", .null)] }, rfl, rfl,
      fun h => ?_⟩
    exact absurd (h (.text "k")) (by decide)

end Claims
end Cose2

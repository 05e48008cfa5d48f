import Cose2.Accepted
import Cose2.Layer

/-! # Headers read back

A header that may be written may be read: the parameters that `validate_common`
looks at are read as they are, so that nothing changes for it when the other values
are normalized, or lose an undefined.
-/
namespace Cose2

open Cbor Cbor2 Iana

namespace CoseMap

variable {m : CoseMap} {label : Label}

theorem getBytes_asRead {o : Option Bytes} (h : m.getBytes label = .ok o) :
    m.asRead.getBytes label = .ok o := by
  rw [getBytes_eq_ok] at h ⊢
  rw [get_asRead, h, Option.map_map]
  rfl

theorem getLabel_asRead {o : Option Label} (h : m.getLabel label = .ok o) :
    m.asRead.getLabel label = .ok o := by
  rw [getLabel_eq_ok] at h ⊢
  rw [get_asRead, h, Option.map_map]
  exact congrArg (o.map ·) (funext fun l => l.plain_toValue.asRead)

end CoseMap

/-- What is taken for a label is read as it is. -/
theorem asRead_of_labelFromValue {v : Value} {l : Label} (h : labelFromValue v = .ok l) :
    v.asRead = v := by
  cases v with
  | integer | text => rfl
  | bytes | float | bool | null | simple | tag | array | map => cases h

theorem map_asRead_of_mapM {α : Type} {take : Value → Except Error α}
    (htake : ∀ {v a}, take v = .ok a → v.asRead = v) {values : List Value} {as : List α}
    (h : values.mapM take = .ok as) : values.map Value.asRead = values := by
  rw [Except.mapM_eq_ok] at h
  induction h with
  | nil => rfl
  | cons ha _ ih => rw [List.map_cons, htake ha, ih]

theorem labelsFromValue_asRead {o : Option Value} {r : Option (List Label)}
    (h : labelsFromValue o = .ok r) : labelsFromValue (o.map Value.asRead) = .ok r := by
  cases o with
  | none => exact h
  | some v =>
    cases v with
    | array values =>
      obtain ⟨labels, hlabels, -⟩ := Except.bind_eq_ok.mp h
      rw [Option.map_some, Value.asRead_array,
        map_asRead_of_mapM asRead_of_labelFromValue hlabels]
      exact h
    | integer | bytes | text | float | bool | null | simple | tag | map => cases h

namespace Header

variable {h : Header}

theorem contentType_asRead {o : Option ContentType} (hc : h.contentType = .ok o) :
    Header.contentType h.asRead = .ok o := by
  unfold contentType at hc ⊢
  rw [CoseMap.get_asRead]
  cases hget : h.get headerParameterContentType with
  | none =>
    rw [hget] at hc
    exact hc
  | some v =>
    rw [hget] at hc
    cases v with
    | integer | text => exact hc
    | bytes | float | bool | null | simple | tag | array | map => cases hc

theorem crit_asRead {o : Option (List Label)} (hc : h.crit = .ok o) :
    Header.crit h.asRead = .ok o := by
  rw [crit, CoseMap.get_asRead]
  exact labelsFromValue_asRead hc

theorem validateCrit_asRead (unique labels : List Label) :
    Header.validateCrit h.asRead unique labels = h.validateCrit unique labels := by
  induction labels generalizing unique with
  | nil => rfl
  | cons label labels ih => simp only [validateCrit, CoseMap.containsKey_asRead, ih]

/-- A valid header is valid as it is read. -/
theorem validateCommon_asRead (hv : h.validateCommon = .ok ()) :
    Header.validateCommon h.asRead = .ok () := by
  simp only [validateCommon, Except.bind_eq_ok] at hv ⊢
  obtain ⟨alg, halg, contentType, hct, kid, hkid, iv, hiv, partialIv, hpartial, u, hboth, crit,
    hcrit, hrest⟩ := hv
  refine ⟨alg, CoseMap.getLabel_asRead halg, contentType, contentType_asRead hct, kid,
    CoseMap.getBytes_asRead hkid, iv, CoseMap.getBytes_asRead hiv, partialIv,
    CoseMap.getBytes_asRead hpartial, u, hboth, crit, crit_asRead hcrit, ?_⟩
  cases crit with
  | none => exact hrest
  | some labels =>
    simp only [validateCrit_asRead]
    exact hrest

end Header

theorem Header.fromSlice_ok {c : Cbor2} {data : Bytes} {h : Header} :
    Header.fromSlice c data = .ok h ↔
      CoseMap.fromSlice c data = .ok h ∧ h.validateCommon = .ok () := by
  simp only [fromSlice, Except.bind_eq_ok, Except.pure_eq_ok]
  constructor
  · rintro ⟨_, hmap, _, hvalid, rfl⟩
    exact ⟨hmap, hvalid⟩
  · rintro ⟨hmap, hvalid⟩
    exact ⟨h, hmap, (), hvalid, rfl⟩

/-- Protected bytes are nothing, for the empty header, or a header by themselves. -/
theorem decodeProtected_ok {c : Cbor2} {raw : Bytes} {p : Header} :
    decodeProtected c raw = .ok p ↔
      (raw = [] ∧ p = ∅) ∨ (raw ≠ [] ∧ Header.fromSlice c raw = .ok p) := by
  rw [decodeProtected]
  split_ifs with hempty
  · simp [hempty, eq_comm]
  · simp [hempty]

section Reading

variable {c : Cbor2} (hw : c.WritesValues) (hr : c.ReadsBack)
  (hrecursion : defaultMaxDepth < c.recursionLimit)
include hw hr hrecursion

/-- What `Header::to_vec` writes, `Header::from_slice` reads. -/
theorem Header.fromSlice_toVec {h : Header} {data : Bytes}
    (hapart : ∀ e ∈ h.entries, e.2.asRead.DuplicateFree) (hdata : WithinDefaults data)
    (hvec : h.toVec c = .ok data) : Header.fromSlice c data = .ok h.asRead := by
  obtain ⟨hvalid, hvec⟩ := Except.seq_eq_ok.mp hvec
  have hread := CoseMap.fromSlice_toVec hr hw hrecursion hapart hdata hvec
  exact Header.fromSlice_ok.mpr ⟨hread, validateCommon_asRead hvalid⟩

/-- The protected bytes denote the header they were encoded from. -/
theorem decodeProtected_encodeProtected {h : Header} {raw : Bytes}
    (hapart : ∀ e ∈ h.entries, e.2.asRead.DuplicateFree)
    (hdata : raw ≠ [] → WithinDefaults raw) (hraw : encodeProtected c h = .ok raw) :
    decodeProtected c raw = .ok h.asRead := by
  by_cases hempty : h.entries = []
  · obtain rfl : h = ∅ := BTreeMap.ext hempty
    cases hraw
    rfl
  · have hne : raw ≠ [] := by
      rintro rfl
      exact hempty (encodeProtected_nil.mp hraw)
    rw [encodeProtected, if_neg hempty] at hraw
    exact decodeProtected_ok.mpr
      (.inr ⟨hne, Header.fromSlice_toVec hw hr hrecursion hapart (hdata hne) hraw⟩)

end Reading

/-- No key is there twice in a header that is encoded without undefined. -/
theorem CoseMap.Defined.apart_of_encodeProtected {c : Cbor2} (hr : c.ReadsBack) {h : Header}
    (hdefined : CoseMap.Defined h) {raw : Bytes} (hraw : encodeProtected c h = .ok raw) :
    ∀ e ∈ h.entries, e.2.asRead.DuplicateFree := by
  rw [encodeProtected] at hraw
  split_ifs at hraw with hempty
  · rw [hempty]
    rintro e ⟨⟩
  · exact hdefined.apart hr (Except.seq_eq_ok.mp hraw).2

/-! ### What was decoded -/

theorem validateCommon_of_decodeProtected {c : Cbor2} {raw : Bytes} {p : Header}
    (h : decodeProtected c raw = .ok p) : p.validateCommon = .ok () := by
  obtain ⟨-, rfl⟩ | ⟨-, h⟩ := decodeProtected_ok.mp h
  · rfl
  · exact (Header.fromSlice_ok.mp h).2

section Decoded

variable {c : Cbor2} (hread : c.ReadsItems) (hw : c.WritesValues) (hc : c.ReadsValues)
  {raw : Bytes} {p : Header}

include hread in
/-- Protected bytes that are not empty are an accepted item, from which the header is read. -/
theorem accepted_of_decodeProtected (hsize : raw.length < usizeBound) (hempty : raw ≠ [])
    (h : decodeProtected c raw = .ok p) :
    ∃ t, t.bytes = raw ∧ Accepted c t ∧ CoseMap.deserializeChecked c t = .ok p := by
  obtain ⟨hnil, -⟩ | ⟨-, h⟩ := decodeProtected_ok.mp h
  · exact absurd hnil hempty
  have hmap := (Header.fromSlice_ok.mp h).1
  rw [CoseMap.fromSlice, Except.seq_eq_ok, Except.mapError_eq_ok, Except.bind_eq_ok] at hmap
  obtain ⟨hvalid, t, hitem, hmap⟩ := hmap
  obtain ⟨it, hroot, -⟩ := Except.bind_eq_ok.mp hvalid
  obtain ⟨hbytes, ht⟩ := accepted_of_root hread hsize hroot hitem
  exact ⟨t, hbytes, ht, hmap⟩

include hread hw hc

theorem reduced_of_decodeProtected (hsize : raw.length < usizeBound)
    (h : decodeProtected c raw = .ok p) : CoseMap.Reduced p := by
  by_cases hempty : raw = []
  · subst hempty
    cases h
    rintro e ⟨⟩
  · obtain ⟨t, -, ht, hmap⟩ := accepted_of_decodeProtected hread hsize hempty h
    intro e he
    obtain ⟨s, -, hheld⟩ := valuesHeldBy hread hw hc ht hmap e he
    exact hheld.reduced

variable (he : c.EncodesCanonically) (hrecursion : defaultMaxDepth < c.recursionLimit)
include he hrecursion

theorem encodable_of_decodeProtected (hsize : raw.length < usizeBound)
    (h : decodeProtected c raw = .ok p) : Encodable c p := by
  by_cases hempty : raw = []
  · subst hempty
    cases h
    rintro e ⟨⟩
  · obtain ⟨t, -, ht, hmap⟩ := accepted_of_decodeProtected hread hsize hempty h
    exact encodable_of_deserializeChecked hread hw hc he hrecursion ht hmap

/-- A header that was decoded can be encoded. -/
theorem encodeProtected_of_decodeProtected (hsize : raw.length < usizeBound)
    (h : decodeProtected c raw = .ok p) : ∃ b, encodeProtected c p = .ok b := by
  rw [encodeProtected]
  split_ifs with hempty
  · exact ⟨[], rfl⟩
  · obtain ⟨b, hb⟩ := CoseMap.toVec_of_values hw
      (encodable_of_decodeProtected hread hw hc he hrecursion hsize h)
    exact ⟨b, Except.seq_eq_ok.mpr ⟨validateCommon_of_decodeProtected h, hb⟩⟩

end Decoded

/-! ### The same headers -/

/-- The headers have the same labels, with the same deterministic encoding of their
values. -/
def SameHeader (h h' : Header) : Prop :=
  ∀ label, (h.get label).map Value.canonical = (h'.get label).map Value.canonical

/-- The header `h'` is what is read of `h`: it has the same labels, and its values are those
of `h` as they are read, up to their spelling. -/
structure HeaderRead (h h' : Header) : Prop where
  settled : ∀ label, (h'.get label).map Value.settle = (h.get label).map Value.settle
  reduced : CoseMap.Reduced h'

variable {c : Cbor2} {p p' u u' : Header} {raw : Bytes}

theorem SameHeader.symm (h : SameHeader p p') : SameHeader p' p :=
  fun label => (h label).symm

theorem SameHeader.trans {q : Header} (h : SameHeader p p') (h' : SameHeader p' q) :
    SameHeader p q :=
  fun label => (h label).trans (h' label)

theorem readAs_asRead (h : Header) : HeaderRead h h.asRead where
  settled label := by
    rw [CoseMap.get_asRead, Option.map_map]
    exact congrArg (Option.map · _) (funext Value.settle_asRead)
  reduced := CoseMap.reduced_asRead h

theorem HeaderRead.containsKey (h : HeaderRead p p') (label : Label) :
    p'.containsKey label = p.containsKey label := by
  have hsome := congrArg Option.isSome (h.settled label)
  rwa [Option.isSome_map, Option.isSome_map] at hsome

/-- What is read of a header without undefined has the same encodings. -/
theorem HeaderRead.sameHeader (h : HeaderRead p p') (hp : CoseMap.Defined p) : SameHeader p p' := by
  have hcanonical {q : Header} (hq : CoseMap.Defined q) (label : Label) :
      (q.get label).map Value.canonical = ((q.get label).map Value.settle).map Value.encode := by
    rw [Option.map_map]
    refine Option.map_congr fun v hv => ?_
    rw [Function.comp, (hq _ (BTreeMap.get_eq_some.mp hv)).settle]
    rfl
  intro label
  rw [hcanonical hp, hcanonical h.reduced.defined, h.settled]

/-- Protected bytes that are there at all are a deterministic encoding. -/
theorem canonical_of_encodeProtected (hw : c.WritesValues) (hne : raw ≠ [])
    (h : encodeProtected c p = .ok raw) : raw = p.toValue.canonical := by
  rw [encodeProtected] at h
  split_ifs at h
  · cases h
    exact absurd rfl hne
  · exact ((CoseMap.toVec_deterministic hw p).2 raw (Except.seq_eq_ok.mp h).2).1

/-- Headers with the same encoding have the same values, up to their normal forms. -/
theorem norm_get_of_encodeProtected (hw : c.WritesValues) {b : Bytes}
    (hsize : b.length < usizeBound) (h : encodeProtected c p = .ok b)
    (h' : encodeProtected c p' = .ok b) (label : Label) :
    (p.get label).map Value.norm = (p'.get label).map Value.norm := by
  by_cases hempty : b = []
  · subst hempty
    rw [encodeProtected_nil] at h h'
    obtain rfl : p = p' := BTreeMap.ext (h.trans h'.symm)
    rfl
  · have hb := canonical_of_encodeProtected hw hempty h
    have hb' := canonical_of_encodeProtected hw hempty h'
    refine CoseMap.norm_get_of_norm (Value.encode_inj ?_ ?_ (hb.symm.trans hb')) label
    · rw [hb] at hsize
      exact Tree.value_writable hsize (Value.value_toTree _)
    · rw [hb'] at hsize
      exact Tree.value_writable hsize (Value.value_toTree _)

/-- Headers with the same encoding are the same. -/
theorem sameHeader_of_encodeProtected (hw : c.WritesValues) {b : Bytes}
    (hsize : b.length < usizeBound) (h : encodeProtected c p = .ok b)
    (h' : encodeProtected c p' = .ok b) : SameHeader p p' := by
  intro label
  have hnorm := congrArg (Option.map Value.encode)
    (norm_get_of_encodeProtected hw hsize h h' label)
  rwa [Option.map_map, Option.map_map] at hnorm

/-- Buckets with the same labels obey the same rules. -/
theorem BucketsOk.of_same (h : BucketsOk p u)
    (hp : ∀ label, p'.containsKey label = p.containsKey label)
    (hu : ∀ label, u'.containsKey label = u.containsKey label)
    (hp' : p'.validateCommon = .ok ()) (hu' : u'.validateCommon = .ok ()) : BucketsOk p' u' where
  protectedOk := hp'
  unprotectedOk := hu'
  disjoint label := by
    rw [hp, hu]
    exact h.disjoint label
  noCrit := by
    rw [hu]
    exact h.noCrit
  oneIv := by
    rw [hp, hu, hp, hu]
    exact h.oneIv

section Denoting

variable (hw : c.WritesValues) (hr : c.ReadsBack) (hrecursion : defaultMaxDepth < c.recursionLimit)
include hw hr hrecursion

/-- A header that is read from an encoding is the one that was encoded. -/
theorem decodeProtected_inv (hsize : raw.length < usizeBound)
    (h : encodeProtected c p = .ok raw) (h' : decodeProtected c raw = .ok p') :
    p' = p.asRead := by
  by_cases hempty : raw = []
  · subst hempty
    rw [encodeProtected_nil] at h
    obtain rfl : p = ∅ := BTreeMap.ext h
    cases h'
    rfl
  · obtain rfl := canonical_of_encodeProtected hw hempty h
    obtain ⟨hnil, -⟩ | ⟨-, h'⟩ := decodeProtected_ok.mp h'
    · exact absurd hnil hempty
    · exact CoseMap.fromSlice_canonical_inv hr hrecursion hsize (Header.fromSlice_ok.mp h').1

/-- The protected bytes of a valid layer are read as its protected header. -/
theorem decodeProtected_of_denotes (hread : c.ReadsItems) (hc : c.ReadsValues)
    (hdenotes : DenotesHeader c raw p)
    (hsize : ∀ b, encodeProtected c p = .ok b → b.length < usizeBound)
    (hdata : raw ≠ [] → WithinDefaults raw)
    (hapart : ∀ e ∈ p.entries, e.2.asRead.DuplicateFree) :
    ∃ p', decodeProtected c raw = .ok p' ∧ HeaderRead p p' := by
  obtain ⟨current, hcurrent, rfl | ⟨decoded, hdecoded, hsame⟩⟩ := hdenotes
  · exact ⟨_, decodeProtected_encodeProtected hw hr hrecursion hapart hdata hcurrent,
      readAs_asRead p⟩
  · have hraw : raw.length < usizeBound := by
      by_cases hempty : raw = []
      · rw [hempty]
        decide
      · exact (hdata hempty).size
    refine ⟨decoded, hdecoded, fun label => ?_,
      reduced_of_decodeProtected hread hw hc hraw hdecoded⟩
    have hnorm := congrArg (Option.map Value.settle)
      (norm_get_of_encodeProtected hw (hsize _ hcurrent) hsame hcurrent label)
    rw [Option.map_map, Option.map_map] at hnorm
    simpa [Function.comp_def, Value.settle_norm] using hnorm

/-- Protected bytes denote one header, when there is no undefined in it. -/
theorem sameHeader_of_denotes
    (hsize : ∀ b, encodeProtected c p = .ok b → b.length < usizeBound)
    (hsize' : ∀ b, encodeProtected c p' = .ok b → b.length < usizeBound)
    (hp : CoseMap.Defined p) (hp' : CoseMap.Defined p')
    (h : DenotesHeader c raw p) (h' : DenotesHeader c raw p') : SameHeader p p' := by
  obtain ⟨b, hb, hraw⟩ := h
  obtain ⟨b', hb', hraw'⟩ := h'
  rcases hraw with rfl | ⟨d, hd, hsame⟩
  · rcases hraw' with rfl | ⟨d', hd', hsame'⟩
    · exact sameHeader_of_encodeProtected hw (hsize _ hb) hb hb'
    · obtain rfl := decodeProtected_inv hw hr hrecursion (hsize _ hb) hb hd'
      have hright := sameHeader_of_encodeProtected hw (hsize' _ hb') hsame' hb'
      exact ((readAs_asRead p).sameHeader hp).trans hright
  · have hleft := sameHeader_of_encodeProtected hw (hsize _ hb) hb hsame
    rcases hraw' with rfl | ⟨d', hd', hsame'⟩
    · obtain rfl := decodeProtected_inv hw hr hrecursion (hsize' _ hb') hb' hd
      exact hleft.trans ((readAs_asRead p').sameHeader hp').symm
    · cases hd.symm.trans hd'
      exact hleft.trans (sameHeader_of_encodeProtected hw (hsize' _ hb') hsame' hb')

end Denoting
end Cose2

import Cose2.HeaderRoundTrip
import Cose2.Recipient
import Cose2.Strict.ByteStrings
import Cose2.UncheckedHeader

/-! # Layers read back

A layer is written as its protected bytes and its unprotected map.  What is read from them
has the values of the layer up to their normal forms, so it passes the checks that the
layer passed, and it is written as the same bytes again.
-/
namespace Cose2

open Cbor Cbor2 Iana

/-! ### The same values -/

/-- The headers have the same labels, with the same normal forms of their values. -/
def SameValues (h h' : Header) : Prop :=
  ∀ label, (h'.get label).map Value.norm = (h.get label).map Value.norm

section Values

variable {h h' : Header} {label : Label}

/-- Headers with the same values are written as the same map. -/
theorem SameValues.norm_toValue (hsame : SameValues h h') :
    h'.toValue.norm = h.toValue.norm := by
  have hnorm (m : CoseMap) : (m.mapValues Value.norm).toValue.norm = m.toValue.norm :=
    CoseMap.norm_toValue_of_norm fun e _ => e.2.norm_norm
  rw [← hnorm h', ← hnorm h]
  congr 2
  apply BTreeMap.ext_get
  intro label
  rw [CoseMap.get_mapValues, CoseMap.get_mapValues, hsame]

/-- What is read of a header without undefined has the same values. -/
theorem HeaderRead.sameValues (hread : HeaderRead h h') (hd : CoseMap.Defined h) : SameValues h h' := by
  have hsettle {q : Header} (hq : CoseMap.Defined q) (label : Label) :
      (q.get label).map Value.norm = (q.get label).map Value.settle :=
    Option.map_congr fun v hv => (hq _ (BTreeMap.get_eq_some.mp hv)).settle.symm
  intro label
  rw [hsettle hd, hsettle hread.reduced.defined, hread.settled]

theorem HeaderRead.entries_nil (hread : HeaderRead h h') (hempty : h.entries = []) :
    h'.entries = [] := by
  obtain rfl : h = ∅ := BTreeMap.ext hempty
  have hnone (label : Label) : h'.get label = none :=
    Option.map_eq_none_iff.mp (hread.settled label)
  have hsame : h' = ∅ := BTreeMap.ext_get hnone
  rw [hsame, hempty]

theorem HeaderRead.getLabel {o o' : Option Label} (hread : HeaderRead h h')
    (hget : h.getLabel label = .ok o) (hget' : h'.getLabel label = .ok o') : o' = o := by
  rw [CoseMap.getLabel_eq_ok] at hget hget'
  have hsettled := hread.settled label
  have hlabel (o : Option Label) :
      (o.map Label.toValue).map Value.settle = o.map Label.toValue := by
    rw [Option.map_map]
    refine congrArg (o.map ·) (funext fun l => ?_)
    rw [Function.comp, l.plain_toValue.defined.settle, l.plain_toValue.norm]
  rw [hget, hget', hlabel, hlabel] at hsettled
  exact Option.map_injective Label.toValue_injective hsettled

/-- The parameters that every header is checked for can be read. -/
theorem alg_of_validateCommon (hvalid : h.validateCommon = .ok ()) : ∃ o, h.alg = .ok o := by
  rw [Header.validateCommon, Except.bind_eq_ok] at hvalid
  obtain ⟨o, ho, -⟩ := hvalid
  exact ⟨o, ho⟩

theorem HeaderRead.alg {o : Option Label} (hread : HeaderRead h h') (halg : h.alg = .ok o)
    (hvalid : h'.validateCommon = .ok ()) : h'.alg = .ok o := by
  obtain ⟨o', halg'⟩ := alg_of_validateCommon hvalid
  rw [halg', hread.getLabel halg halg']

end Values

/-- The algorithm in effect is the same. -/
theorem effectiveAlg_same {p u p' u' : Header} {o : Option Label} (hp : HeaderRead p p')
    (hu : HeaderRead u u') (h : effectiveAlg p u = .ok o) (hp' : p'.validateCommon = .ok ())
    (hu' : u'.validateCommon = .ok ()) : effectiveAlg p' u' = .ok o := by
  rw [effectiveAlg, Except.bind_eq_ok] at h ⊢
  obtain ⟨a, ha, h⟩ := h
  refine ⟨a, hp.alg ha hp', ?_⟩
  cases a with
  | some a => exact h
  | none => exact hu.alg h hu'

/-! ### Byte strings -/

section Bytes

variable {c : Cbor2} (hr : c.ReadsBack) (hcap : c.CapturesRaw)
  (hrecursion : defaultMaxDepth < c.recursionLimit)

include hr in
/-- The strict parser accepts the encoding of a value without parts. -/
theorem leaf_accepted {v : Value} (h : v.Plain) (hw : v.Writable) (hdepth : v.toTree.depth = 0)
    (hcount : v.toTree.count = 1) (hlimit : 0 < c.recursionLimit) :
    v.toTree.Fits ∧ Strict.WithinLimits {} v.toTree ∧ Strict.KeysOk c v.toTree := by
  refine ⟨hw, ⟨?_, ?_, by rintro ⟨⟩⟩, keysOk_of_regular hr (h.regular hw) (by rwa [hdepth])⟩
  · rw [hdepth]
    exact Nat.zero_le _
  · rw [hcount]
    decide

include hr hcap hrecursion

theorem strictBytes_value {b : Bytes} (hw : (Value.bytes b).Writable) :
    Recipient.strictBytes c (Value.bytes b).toTree = .ok b := by
  obtain ⟨hfits, hlimits, hkeys⟩ :=
    leaf_accepted hr (.bytes b) hw rfl rfl (Nat.zero_lt_of_lt hrecursion)
  rw [Recipient.strictBytes, hcap.raw hw.wellFormed, Except.ok_bind, Except.mapError_eq_ok]
  exact Strict.decodeBytes_ok.mpr ⟨_, rfl, hfits, hlimits, hkeys, rfl⟩

theorem strictOptionalBytes_bytes {b : Bytes} (hw : (Value.bytes b).Writable) :
    Recipient.strictOptionalBytes c (Value.bytes b).toTree = .ok (some b) := by
  obtain ⟨hfits, hlimits, hkeys⟩ :=
    leaf_accepted hr (.bytes b) hw rfl rfl (Nat.zero_lt_of_lt hrecursion)
  rw [Recipient.strictOptionalBytes, hcap.raw hw.wellFormed, Except.ok_bind,
    Except.mapError_eq_ok, Strict.decodeOptionalBytes_ok]
  exact ⟨_, rfl, hfits, hlimits, hkeys, .inr ⟨b, rfl, rfl⟩⟩

theorem strictOptionalBytes_null :
    Recipient.strictOptionalBytes c Value.null.toTree = .ok none := by
  obtain ⟨hfits, hlimits, hkeys⟩ :=
    leaf_accepted hr .null Value.writable_null rfl rfl (Nat.zero_lt_of_lt hrecursion)
  rw [Recipient.strictOptionalBytes, hcap.raw Value.writable_null.wellFormed, Except.ok_bind,
    Except.mapError_eq_ok, Strict.decodeOptionalBytes_ok]
  exact ⟨_, rfl, hfits, hlimits, hkeys, .inl ⟨rfl, rfl⟩⟩

end Bytes

/-! ### A layer that was written -/

/-- The protected bytes that are written denote the protected header. -/
theorem denotes_of_serializedProtected {c : Cbor2} {p : Header} {stored : Option Bytes}
    {raw : Bytes} (h : Recipient.serializedProtected c p stored = .ok raw) :
    DenotesHeader c raw p := by
  cases stored with
  | none => exact ⟨raw, h, .inl rfl⟩
  | some stored =>
    rw [Recipient.serializedProtected, Except.seq_eq_ok, Except.pure_eq_ok] at h
    obtain ⟨hvalid, rfl⟩ := h
    exact validateProtectedState_ok.mp hvalid

/-- What a layer needs to be read back: its protected header fits in memory, its protected
bytes are admitted by the decoder's limits, and in its values no two keys of a map are read
as the same. -/
structure SoundLayer (c : Cbor2) (p u : Header) (raw : Bytes) : Prop where
  protectedSize : ∀ b, encodeProtected c p = .ok b → b.length < usizeBound
  protectedLimits : raw ≠ [] → WithinDefaults raw
  protectedApart : ∀ e ∈ p.entries, e.2.asRead.DuplicateFree
  unprotectedApart : ∀ e ∈ u.entries, e.2.asRead.DuplicateFree

theorem SoundLayer.size {c : Cbor2} {p u : Header} {raw : Bytes} (h : SoundLayer c p u raw) :
    raw.length < usizeBound := by
  by_cases hempty : raw = []
  · rw [hempty]
    decide
  · exact (h.protectedLimits hempty).size

/-- The protected header of a sound layer fits in memory. -/
theorem SoundLayer.writable {c : Cbor2} (hw : c.WritesValues) {p u : Header} {raw : Bytes}
    (h : SoundLayer c p u raw) (hdenotes : DenotesHeader c raw p) : p.toValue.norm.Writable := by
  obtain ⟨current, hcurrent, -⟩ := hdenotes
  by_cases hempty : current = []
  · subst hempty
    obtain rfl : p = ∅ := BTreeMap.ext (encodeProtected_nil.mp hcurrent)
    exact Value.writable_map.mpr ⟨by decide, by rintro e ⟨⟩⟩
  · have hsize := h.protectedSize current hcurrent
    rw [canonical_of_encodeProtected hw hempty hcurrent] at hsize
    exact Tree.value_writable hsize (Value.value_toTree _)

/-- There is no undefined in the headers of the layer. -/
structure LayerDefined (p u : Header) : Prop where
  protectedHeader : CoseMap.Defined p
  unprotectedHeader : CoseMap.Defined u

section Decoded

variable {c : Cbor2} (hread : c.ReadsItems) (hw : c.WritesValues) (hc : c.ReadsValues)
  {p : Header} {raw : Bytes}
include hread hw hc

/-- Protected bytes denote the header that is read from them. -/
theorem denotes_of_decodeProtected (he : c.EncodesCanonically)
    (hrecursion : defaultMaxDepth < c.recursionLimit) (hsize : raw.length < usizeBound)
    (h : decodeProtected c raw = .ok p) : DenotesHeader c raw p := by
  obtain ⟨current, hcurrent⟩ :=
    encodeProtected_of_decodeProtected hread hw hc he hrecursion hsize h
  exact ⟨current, hcurrent, .inr ⟨p, h, hcurrent⟩⟩

/-- **A layer that was read is sound.** -/
theorem soundLayer_of_decodeProtected (hd : c.Describes) {u : Header}
    (hlength : raw.length < sliceBound) (h : decodeProtected c raw = .ok p)
    (hu : ∀ e ∈ u.entries, e.2.asRead.DuplicateFree) : SoundLayer c p u raw := by
  by_cases hempty : raw = []
  · subst hempty
    cases h
    refine ⟨fun b hb => ?_, fun hne => absurd rfl hne, by rintro e ⟨⟩, hu⟩
    cases hb.symm.trans (encodeProtected_nil.mpr rfl)
    decide
  · have hsize : raw.length < usizeBound := hlength.trans (by decide)
    obtain ⟨t, rfl, ht, hmap⟩ := accepted_of_decodeProtected hread hsize hempty h
    have hheld := CoseMap.heldBy_of_deserializeChecked hread hw hc hd ht hmap
    refine ⟨fun b hb => ?_, fun _ => ⟨hsize, t, rfl, ht.wellFormed.fits, ht.limits⟩,
      hheld.apart, hu⟩
    by_cases hb' : b = []
    · subst hb'
      decide
    · have hroom := ht.room_lt hlength
      have hle := hheld.noLarger.length
      rw [canonical_of_encodeProtected hw hb' hb, Value.canonical, Value.encode]
      omega

end Decoded

/-- The layer `p'`, `u'` was read from the protected bytes and from the unprotected map of
the layer `p`, `u`. -/
structure LayerRead (c : Cbor2) (p u p' u' : Header) (raw : Bytes) : Prop where
  protectedRead : HeaderRead p p'
  unprotectedRead : HeaderRead u u'
  decoded : decodeProtected c raw = .ok p'
  encodable : Encodable c p'
  unprotectedEncodable : Encodable c u'
  layer : LayerOk c p' u' raw

/-- A regular value within the limits of the decoder. -/
structure Admitted (v : Value) : Prop where
  regular : v.Regular
  limits : Strict.WithinLimits {} v.toTree

theorem Admitted.child {v u : Value} (h : Admitted v) (hu : u ∈ v.children) : Admitted u := by
  refine ⟨h.regular.child hu, h.limits.of_occurs (.child (c := u.toTree) ?_ .refl)⟩
  rw [Value.children_toTree]
  exact List.mem_map_of_mem hu

section Reading

variable {c : Cbor2} (hread : c.ReadsItems) (hw : c.WritesValues) (hr : c.ReadsBack)
  (hc : c.ReadsValues) (hrecursion : defaultMaxDepth < c.recursionLimit)
include hr hrecursion

/-- What is read of an admitted value can be written. -/
theorem Admitted.encodes {v : Value} (h : Admitted v) :
    ∃ b, c.toCanonicalVec v.nullify = .ok b := by
  have hdepth := (Tree.nullify_noLarger v).depth.trans_lt (h.limits.depth.trans_lt hrecursion)
  exact ⟨_, hr.canonical h.regular.writable.nullify h.regular.apart hdepth⟩

theorem Admitted.encodable {u : Header} (h : Admitted u.toValue.norm) : Encodable c u.asRead := by
  rw [Encodable, CoseMap.asRead, CoseMap.mapValues, List.forall_mem_map]
  intro e he
  rw [CoseMap.norm_toValue_eq] at h
  have hmem := (CoseMap.entriesByKey_perm u).mem_iff.mpr he
  have hchild : Admitted e.2.norm :=
    h.child (List.mem_flatMap.mpr ⟨_, List.mem_map_of_mem hmem, by simp⟩)
  exact hchild.encodes hr hrecursion

/-- The map of a header is read without a second strict pass. -/
theorem deserializeChecked_value {u : Header} (h : Admitted u.toValue.norm)
    (hvalid : u.validateCommon = .ok ()) :
    Header.deserializeChecked c u.toValue.norm.toTree = .ok u.asRead :=
  Header.deserializeChecked_eq_ok.mpr
    ⟨CoseMap.deserializeChecked_norm hr h.regular (h.limits.depth.trans_lt hrecursion),
      Header.validateCommon_asRead hvalid⟩

/-- The map of a header is read with it. -/
theorem deserialize_value (hcap : c.CapturesRaw) {u : Header} (h : Admitted u.toValue.norm)
    (hvalid : u.validateCommon = .ok ()) :
    Header.deserialize c u.toValue.norm.toTree = .ok u.asRead := by
  have hdepth := h.limits.depth.trans_lt hrecursion
  have hmap : CoseMap.deserialize c u.toValue.norm.toTree = .ok u.asRead := by
    rw [CoseMap.deserialize, hcap.raw h.regular.writable.wellFormed, Except.ok_bind,
      Except.seq_eq_ok, Except.mapError_eq_ok]
    exact ⟨CoseMap.validateMap_canonical hr h.regular h.limits hrecursion,
      Except.bind_eq_ok.mpr ⟨_, hr.item h.regular hdepth,
        CoseMap.deserializeChecked_norm hr h.regular hdepth⟩⟩
  rw [Header.deserialize, hmap, Except.ok_bind, Except.seq_eq_ok, Except.mapError_eq_ok]
  exact ⟨Header.validateCommon_asRead hvalid, rfl⟩

include hread hw hc in
/-- **A layer that is written is read with the same values, and passes its checks again.** -/
theorem layer_readBack {p u : Header} {raw : Bytes} (hlayer : LayerOk c p u raw)
    (hsound : SoundLayer c p u raw) (hadmitted : Admitted u.toValue.norm) :
    ∃ p', LayerRead c p u p' u.asRead raw := by
  have he := hr.toEncodesCanonically
  obtain ⟨p', hp', hreadAs⟩ := decodeProtected_of_denotes hw hr hrecursion hread hc
    hlayer.denotes hsound.protectedSize hsound.protectedLimits hsound.protectedApart
  have hvalid := validateCommon_of_decodeProtected hp'
  refine ⟨p', hreadAs, readAs_asRead u, hp',
    encodable_of_decodeProtected hread hw hc he hrecursion hsound.size hp',
    hadmitted.encodable hr hrecursion, ?_,
    denotes_of_decodeProtected hread hw hc he hrecursion hsound.size hp'⟩
  exact hlayer.buckets.of_same hreadAs.containsKey (CoseMap.containsKey_asRead u) hvalid
    (Header.validateCommon_asRead hlayer.buckets.unprotectedOk)

end Reading

/-! ### What is written again -/

/-- What is written for `v` when it was read: a value in memory that settles like `v`, and is
nested no deeper than its encoding. -/
structure Rewritten (v v' : Value) : Prop where
  settled : v'.norm = v.settle
  writable : v'.Writable
  depth : v'.toTree.depth ≤ v.norm.toTree.depth

section Rewritten

variable {v v' : Value}

theorem Rewritten.plain (h : v.Plain) (hw : v.Writable) : Rewritten v v where
  settled := h.defined.settle.symm
  writable := hw
  depth := by rw [h.norm]

/-- An array is written element by element. -/
theorem Rewritten.array {vs vs' : List Value} (h : List.Forall₂ Rewritten vs vs')
    (hw : (Value.array vs).norm.Writable) : Rewritten (.array vs) (.array vs') where
  settled := by
    rw [Value.settle, Value.asRead_array, Value.norm, Value.norm, Value.normItems_eq,
      Value.normItems_eq, List.map_map]
    clear hw
    congr 1
    induction h with
    | nil => rfl
    | cons hone _ ih => rw [List.map_cons, List.map_cons, hone.settled, ih]; rfl
  writable := by
    rw [Value.norm, Value.normItems_eq, Value.writable_array, List.length_map, h.length_eq] at hw
    refine Value.writable_array.mpr ⟨hw.1, fun w hmem => ?_⟩
    obtain ⟨v, -, hone⟩ := Tree.forall₂_mem_right h hmem
    exact hone.writable
  depth := by
    rw [Value.norm, Value.normItems_eq]
    refine Tree.depth_le_of_children ?_
    simp only [Value.children_toTree, Value.children, List.forall_mem_map]
    intro w hmem
    obtain ⟨v, hv, hone⟩ := Tree.forall₂_mem_right h hmem
    exact ⟨v.norm.toTree, List.mem_map_of_mem (List.mem_map_of_mem hv), hone.depth⟩

theorem depth_toValue_asRead (u : CoseMap) :
    u.asRead.toValue.toTree.depth ≤ u.toValue.norm.toTree.depth := by
  rw [← Nat.lt_succ_iff, Tree.depth_lt_succ_iff, Value.children_toTree, List.forall_mem_map]
  intro w hw
  rw [CoseMap.toValue, Value.children, CoseMap.asRead, CoseMap.mapValues, List.map_map,
    List.flatMap_map, List.mem_flatMap] at hw
  obtain ⟨e, he, hw⟩ := hw
  rw [CoseMap.norm_toValue_eq]
  have hmem := List.mem_map_of_mem (f := fun e : Label × Value => (e.1.toValue, e.2.norm))
    ((CoseMap.entriesByKey_perm u).mem_iff.mpr he)
  have hchild {x : Value} (hx : x = e.1.toValue ∨ x = e.2.norm) :
      x.toTree.depth < (Value.map ((CoseMap.entriesByKey u).map
        fun e => (e.1.toValue, e.2.norm))).toTree.depth :=
    Value.depth_lt_of_mem_children (List.mem_flatMap.mpr ⟨_, hmem, by simpa using hx⟩)
  simp only [Function.comp, List.mem_cons, List.not_mem_nil, or_false] at hw
  rcases hw with rfl | rfl
  · exact hchild (.inl rfl)
  · exact (Tree.nullify_noLarger e.2.norm).depth.trans_lt (hchild (.inr rfl))

/-- A map is written with its values as they are read. -/
theorem rewritten_toValue {u : CoseMap} (hw : u.toValue.norm.Writable) :
    Rewritten u.toValue u.asRead.toValue where
  settled := (CoseMap.settle_toValue u).symm
  writable := CoseMap.writable_asRead hw
  depth := depth_toValue_asRead u

/-- What was read of an admitted value can be written, as the encoding of what is read. -/
theorem Rewritten.encodes {c : Cbor2} (he : c.EncodesCanonically)
    (hrecursion : defaultMaxDepth < c.recursionLimit) (h : Rewritten v v')
    (hadmitted : Admitted v.norm) : c.toCanonicalVec v' = .ok v.settle.encode := by
  have hdistinct : v'.DuplicateFree := by
    rw [← Value.duplicateFree_norm, h.settled, Value.settle, Value.duplicateFree_norm]
    exact hadmitted.regular.apart
  have hdepth := h.depth.trans_lt (hadmitted.limits.depth.trans_lt hrecursion)
  rw [he.canonical h.writable hdistinct hdepth, Value.canonical, h.settled]

end Rewritten

/-- What was read is written as the same map again. -/
theorem toVec_same {c : Cbor2} (hw : c.WritesValues) {u u' : Header} {b : Bytes}
    (h : u.toVec c = .ok b) (hsame : SameValues u u') (hvalid : u'.validateCommon = .ok ())
    (hencodable : Encodable c u') : u'.toVec c = .ok b := by
  obtain ⟨rfl, -⟩ := (CoseMap.toVec_deterministic hw u).2 b (Except.seq_eq_ok.mp h).2
  obtain ⟨b', hb'⟩ := CoseMap.toVec_of_values hw hencodable
  obtain ⟨heq, -⟩ := (CoseMap.toVec_deterministic hw u').2 b' hb'
  rw [Header.toVec, Except.seq_eq_ok]
  refine ⟨hvalid, ?_⟩
  rw [hb', heq, Value.canonical, Value.canonical, hsame.norm_toValue]

end Cose2

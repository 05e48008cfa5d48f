import Cose2.Cbor.NoLarger
import Cose2.Cbor.Regular
import Cose2.MapEncoding
import Cose2.Strict.Grammar

/-! # Maps of labels read back

What `CoseMap::to_vec` writes, `CoseMap::from_slice` reads: the same labels, each with
what is read of its value, as long as the decoder's limits admit the encoding.
The strict parser asks the library about keys that are not short, so the argument
first shows that it finds the keys of a regular value distinct (`keysOk_of_regular`),
and those of a value in normal form only if it is regular (`apart_of_keysOk`).
-/
namespace Cose2

open Cbor Cbor2

/-- The library reads what it writes deterministically, with null for undefined, and a
visitor is called with the number or the text of a label. -/
structure Cbor2.ReadsBack (c : Cbor2) : Prop extends c.EncodesCanonically where
  item : ∀ {v : Value}, v.Regular → v.toTree.depth < c.recursionLimit →
    c.item v.encode = .ok v.toTree
  value : ∀ {v : Value}, v.Regular → v.toTree.depth < c.recursionLimit →
    c.value v.toTree = .ok v.nullify
  integer : ∀ i : Int64, ∃ u, c.deserializeAny (Label.int i).toValue.toTree = .ok u ∧
    (u = .i64 i ∨ (∃ n : UInt64, (n.toNat : Int) = i.toInt ∧ u = .u64 n) ∨
      u = .i128 i.toInt ∨ ∃ n : Nat, (n : Int) = i.toInt ∧ u = .u128 n)
  text : ∀ s, c.deserializeAny (Value.text s).toTree = .ok (.str s)

theorem Cbor2.reference_readsBack : Cbor2.reference.ReadsBack where
  toEncodesCanonically := reference_encodesCanonically
  item h hdepth := readAll_ok.mpr ⟨⟨h.writable.wellFormed, hdepth⟩, rfl⟩
  value h _ := reference_value.mpr ⟨_, Value.value_toTree _, Value.load_of_norm h.normal⟩
  integer i := by
    refine ⟨.i64 i, Except.map_eq_ok.mpr ⟨_, Except.ofOption_eq_ok.mpr (Value.value_toTree _), ?_⟩,
      .inl rfl⟩
    rw [Label.norm_toValue, Label.toValue, visitOf, i64TryFrom_toInt]
  text s := Except.map_eq_ok.mpr ⟨_, Except.ofOption_eq_ok.mpr (Value.value_toTree _), rfl⟩

section Keys

variable {c : Cbor2} (hr : c.ReadsBack)
include hr

/-- A key of a regular value is compared by the encoding of what is read of it. -/
theorem treeKey_regular {v : Value} (h : v.Regular) (hdepth : v.toTree.depth < c.recursionLimit) :
    Strict.treeKey c v.toTree = .ok v.nullify.canonical := by
  rw [Strict.treeKey]
  by_cases hp : v.toTree.IsPreferredScalar
  · rw [if_pos hp]
    cases v with
    | integer | bytes | text => rfl
    | float | bool | null | simple | tag | array | map => exact hp.elim
  · rw [if_neg hp]
    have hread : c.fromSlice v.encode = .ok v.nullify := by
      rw [Cbor2.fromSlice, Except.mapError_eq_ok, hr.item h hdepth, Except.ok_bind]
      exact hr.value h hdepth
    refine Except.bind_eq_ok.mpr ⟨v.nullify, hread, ?_⟩
    rw [canonicalVec, Except.mapError_eq_ok]
    exact hr.canonical h.writable.nullify h.apart
      ((Tree.nullify_noLarger v).depth.trans_lt hdepth)

/-- The keys of a map of regular keys, as they are compared. -/
theorem treeKeys_regular {entries : List (Value × Value)}
    (h : ∀ e ∈ entries, e.1.Regular ∧ e.1.toTree.depth < c.recursionLimit) :
    List.Forall₂ (fun e k => Strict.treeKey c e.1 = .ok k)
      (entries.map fun e => (e.1.toTree, e.2.toTree))
      (entries.map fun e => e.1.nullify.canonical) := by
  rw [List.forall₂_map_left_iff, List.forall₂_map_right_iff, List.forall₂_same]
  exact fun e he => treeKey_regular hr (h e he).1 (h e he).2

/-- The strict parser finds the keys distinct in every map of a regular value. -/
theorem keysOk_of_regular {v : Value} (h : v.Regular)
    (hdepth : v.toTree.depth < c.recursionLimit) : Strict.KeysOk c v.toTree := by
  induction ht : v.toTree using Tree.induction generalizing v with
  | h t ih =>
    subst ht
    have child (u : Value) (hu : u ∈ v.children) :
        u.Regular ∧ u.toTree.depth < c.recursionLimit :=
      ⟨h.child hu, (Value.depth_lt_of_mem_children hu).trans hdepth⟩
    refine .node ?_ fun s hs => ?_
    · cases v with
      | integer | bytes | text | float | bool | null | simple | tag | array => exact trivial
      | map entries =>
        have hkey (e : Value × Value) (he : e ∈ entries) :
            e.1.Regular ∧ e.1.toTree.depth < c.recursionLimit :=
          child e.1 (List.mem_flatMap.mpr ⟨e, he, List.mem_cons_self⟩)
        have honce := h.apart
        rw [Value.nullify, Value.nullifyEntries_eq] at honce
        have hkeys := honce.keys
        rw [List.map_map] at hkeys
        rw [Value.toTree, Value.toTreeEntries_eq, Strict.DistinctKeys]
        refine ⟨_, treeKeys_regular hr hkey, ?_⟩
        refine (List.nodup_map_iff_inj_on hkeys.of_map).mpr fun e he e' he' heq => ?_
        have hnorm := (Value.canonical_inj (hkey e he).1.writable.nullify
          (hkey e' he').1.writable.nullify).mp heq
        exact List.inj_on_of_nodup_map hkeys he he' hnorm
    · rw [Value.children_toTree] at hs
      obtain ⟨u, hu, rfl⟩ := List.mem_map.mp hs
      obtain ⟨hregular, hlt⟩ := child u hu
      refine ih _ ?_ hregular hlt rfl
      rw [Value.children_toTree]
      exact List.mem_map_of_mem hu

/-- Keys that the strict parser finds distinct in a normal form are distinct as they are
read. -/
theorem apart_of_keysOk {v : Value} (hnorm : v.norm = v) (hw : v.Writable)
    (hdepth : v.toTree.depth < c.recursionLimit) (h : Strict.KeysOk c v.toTree) :
    v.nullify.DuplicateFree := by
  induction ht : v.toTree using Tree.induction generalizing v with
  | h t ih =>
    subst ht
    have child {u : Value} (hu : u ∈ v.children) : u.nullify.DuplicateFree := by
      have hmem : u.toTree ∈ v.toTree.children := by
        rw [Value.children_toTree]
        exact List.mem_map_of_mem hu
      exact ih _ hmem (Value.norm_of_mem_children hnorm hu) ((Tree.all_iff.mp hw).2 _ hmem)
        ((Value.depth_lt_of_mem_children hu).trans hdepth) (h.child hmem) rfl
    cases v with
    | integer i => exact (Value.Plain.integer i).duplicateFree
    | bytes b => exact (Value.Plain.bytes b).duplicateFree
    | text s => exact (Value.Plain.text s).duplicateFree
    | null => exact Value.Plain.null.duplicateFree
    | float | bool => exact Value.duplicateFree_of_children rfl (by rintro _ ⟨⟩)
    | simple s => exact Value.duplicateFree_nullify_simple s
    | tag n content => exact Value.duplicateFree_tag n (child (List.mem_singleton_self _))
    | array items =>
      rw [Value.nullify, Value.nullifyItems_eq]
      exact Value.duplicateFree_array (List.forall_mem_map.mpr fun u hu => child hu)
    | map entries =>
      have hmem {e : Value × Value} (he : e ∈ entries) :
          e.1 ∈ (Value.map entries).children ∧ e.2 ∈ (Value.map entries).children :=
        ⟨List.mem_flatMap.mpr ⟨e, he, by simp⟩, List.mem_flatMap.mpr ⟨e, he, by simp⟩⟩
      have hregular (e : Value × Value) (he : e ∈ entries) :
          e.1.Regular ∧ e.1.toTree.depth < c.recursionLimit :=
        ⟨⟨Value.norm_of_mem_children hnorm (hmem he).1, ((Value.writable_map.mp hw).2 e he).1,
          child (hmem he).1⟩, (Value.depth_lt_of_mem_children (hmem he).1).trans hdepth⟩
      obtain ⟨ks, hks, hnodup⟩ := h.head
      rw [Value.toTreeEntries_eq] at hks
      have heq : ks = entries.map fun e => e.1.nullify.canonical :=
        Relator.RightUnique.forall₂ (fun _ _ _ hk hk' => Except.ok.inj (hk.symm.trans hk')) hks
          (treeKeys_regular hr hregular)
      rw [Value.nullify, Value.nullifyEntries_eq]
      refine Value.duplicateFree_map ?_ ?_
      · rw [heq] at hnodup
        rw [List.map_map]
        refine List.Nodup.of_map Value.encode ?_
        rwa [List.map_map]
      · rw [List.forall_mem_map]
        exact fun e he => ⟨child (hmem he).1, child (hmem he).2⟩

/-- The strict parser accepts the encoding of a regular value within the limits. -/
theorem root_regular {v : Value} (h : v.Regular) (hlimits : Strict.WithinLimits {} v.toTree)
    (hrecursion : defaultMaxDepth < c.recursionLimit) :
    Strict.root c v.encode {} = .ok (Strict.itemAt 0 v.toTree) :=
  (Strict.rootWithDuplicatePolicy_ok c).mpr ⟨v.toTree, rfl, h.writable, hlimits,
    fun _ => keysOk_of_regular hr h (hlimits.depth.trans_lt hrecursion), rfl⟩

end Keys

/-- One item that the default limits of the decoder admit, in a slice that Rust can
have. -/
structure WithinDefaults (data : Bytes) : Prop where
  size : data.length < usizeBound
  item : ∃ t : Tree, t.bytes = data ∧ t.Fits ∧ Strict.WithinLimits {} t

theorem withinDefaults_of_root {c : Cbor2} {data : Bytes} {it : Strict.Item}
    (hsize : data.length < usizeBound)
    (h : Strict.rootWithDuplicatePolicy c data {} false = .ok it) : WithinDefaults data := by
  obtain ⟨t, hdata, hfits, hlimits, -, -⟩ := (Strict.rootWithDuplicatePolicy_ok c).mp h
  exact ⟨hsize, t, hdata.symm, hfits, hlimits⟩

/-- Within the limits is an encoding when its value is. -/
theorem WithinDefaults.of_encode {v : Value} (h : WithinDefaults v.encode) :
    v.Writable ∧ Strict.WithinLimits {} v.toTree := by
  have hwritable : v.Writable := Tree.value_writable h.size (Value.value_toTree _)
  obtain ⟨t, ht, hfits, hlimits⟩ := h.item
  rw [bytes_inj hfits hwritable ht] at hlimits
  exact ⟨hwritable, hlimits⟩

namespace CoseMap

/-- The map with a function applied to its values. -/
def mapValues (f : Value → Value) (m : CoseMap) : CoseMap where
  entries := m.entries.map fun e => (e.1, f e.2)
  sorted := List.pairwise_map.mpr m.sorted

/-- The map with its values as they are read. -/
def asRead (m : CoseMap) : CoseMap := m.mapValues Value.asRead

/-- There is no undefined in the values of the map. -/
def Defined (m : CoseMap) : Prop := ∀ e ∈ m.entries, e.2.Defined

/-- The values of the map can have been read. -/
def Reduced (m : CoseMap) : Prop := ∀ e ∈ m.entries, e.2.Reduced

theorem Reduced.defined {m : CoseMap} (h : m.Reduced) : m.Defined := fun e he => (h e he).defined

section Values

variable {m : CoseMap} {f : Value → Value}

theorem get_mapValues (f : Value → Value) (m : CoseMap) (label : Label) :
    (m.mapValues f).get label = (m.get label).map f := by
  apply Option.ext
  intro v
  rw [BTreeMap.get_eq_some, Option.map_eq_some_iff]
  simp only [BTreeMap.get_eq_some, mapValues, List.mem_map, Prod.mk.injEq, Prod.exists]
  constructor
  · rintro ⟨l, w, hmem, rfl, rfl⟩
    exact ⟨w, hmem, rfl⟩
  · rintro ⟨w, hmem, rfl⟩
    exact ⟨label, w, hmem, rfl, rfl⟩

theorem get_asRead (m : CoseMap) (label : Label) :
    m.asRead.get label = (m.get label).map Value.asRead :=
  get_mapValues Value.asRead m label

/-- Without undefined the values have the same encodings as they are read. -/
theorem canonical_get_asRead (h : m.Defined) (label : Label) :
    (m.asRead.get label).map Value.canonical = (m.get label).map Value.canonical := by
  rw [get_asRead, Option.map_map]
  refine Option.map_congr fun v hv => ?_
  rw [Function.comp, (h _ (BTreeMap.get_eq_some.mp hv)).asRead, Value.canonical_norm]

theorem containsKey_mapValues (f : Value → Value) (m : CoseMap) (label : Label) :
    (m.mapValues f).containsKey label = m.containsKey label := by
  rw [BTreeMap.containsKey, get_mapValues, Option.isSome_map]
  rfl

theorem containsKey_asRead (m : CoseMap) (label : Label) :
    m.asRead.containsKey label = m.containsKey label :=
  containsKey_mapValues Value.asRead m label

theorem reduced_asRead (m : CoseMap) : m.asRead.Reduced := by
  rw [Reduced, asRead, mapValues, List.forall_mem_map]
  exact fun e _ => e.2.reduced_asRead

theorem norm_toValue_eq (m : CoseMap) :
    m.toValue.norm = .map (m.entriesByKey.map fun e => (e.1.toValue, e.2.norm)) := by
  rw [toValue, Value.norm, sortEntries_toValue]

theorem mapValues_eq_insertAll (f : Value → Value) (m : CoseMap) : m.mapValues f =
    BTreeMap.insertAll ∅ (m.entriesByKey.map fun e => (e.1, f e.2)) :=
  (BTreeMap.ofList_of_perm (m.entriesByKey_perm.map _)).symm

theorem norm_toValue_mapValues (f : Value → Value) (m : CoseMap) : (m.mapValues f).toValue.norm =
    .map (m.entriesByKey.map fun e => (e.1.toValue, (f e.2).norm)) := by
  have hsort : (m.mapValues f).entriesByKey = m.entriesByKey.map fun e => (e.1, f e.2) :=
    (List.map_insertionSort LabelBefore LabelBefore (fun e => (e.1, f e.2)) m.entries
      fun _ _ _ _ => Iff.rfl).symm
  rw [norm_toValue_eq, hsort, List.map_map]
  rfl

theorem mapValues_insert (f : Value → Value) (m : CoseMap) (label : Label) (v : Value) :
    mapValues f (m.insert label v) = (m.mapValues f).insert label (f v) := by
  apply BTreeMap.ext_get
  intro k
  rw [get_mapValues, BTreeMap.get_insert, BTreeMap.get_insert, get_mapValues]
  split_ifs <;> rfl

theorem mapValues_insertAll (f : Value → Value) (m : CoseMap) (es : List (Label × Value)) :
    mapValues f (m.insertAll es) = (m.mapValues f).insertAll (es.map fun e => (e.1, f e.2)) := by
  induction es generalizing m with
  | nil => rfl
  | cons e es ih =>
    rw [BTreeMap.insertAll, List.foldl_cons, ← BTreeMap.insertAll, ih, mapValues_insert]
    rfl

/-- Values with the same normal forms are written as the same value. -/
theorem norm_toValue_of_norm (h : ∀ e ∈ m.entries, (f e.2).norm = e.2.norm) :
    (m.mapValues f).toValue.norm = m.toValue.norm := by
  rw [norm_toValue_mapValues, norm_toValue_eq]
  refine congrArg Value.map (List.map_congr_left fun e he => Prod.ext rfl ?_)
  exact h e (m.entriesByKey_perm.mem_iff.mp he)

/-- What is read of a map is written as what is read of its value. -/
theorem settle_toValue (m : CoseMap) : m.toValue.settle = m.asRead.toValue.norm := by
  have hnorm : (m.toValue.norm).norm = m.toValue.norm := m.toValue.norm_norm
  rw [norm_toValue_eq] at hnorm
  have hsort := Value.sortEntries_map (f := fun v => v.nullify.norm)
    (Value.pairwise_of_norm hnorm)
  rw [Value.settle, Value.asRead, norm_toValue_eq, asRead, norm_toValue_mapValues, Value.nullify,
    Value.nullifyEntries_eq, Value.norm, Value.normEntries_eq, List.map_map, List.map_map]
  rw [List.map_map] at hsort
  refine congrArg Value.map (Eq.trans ?_ hsort)
  refine congrArg Value.sortEntries (List.map_congr_left fun e _ => Prod.ext ?_ rfl)
  show e.1.toValue.nullify.norm = e.1.toValue
  rw [e.1.plain_toValue.defined, e.1.plain_toValue.norm]

/-- What is read of a map can be written when the map can. -/
theorem writable_asRead (h : m.toValue.norm.Writable) : m.asRead.toValue.Writable := by
  rw [norm_toValue_eq] at h
  obtain ⟨hlength, hentries⟩ := Value.writable_map.mp h
  have hperm := m.entriesByKey_perm.map fun e => (e.1.toValue, e.2.norm)
  refine Value.writable_map.mpr ⟨?_, ?_⟩
  · rw [asRead, mapValues, List.length_map, List.length_map,
      ← hperm.length_eq.trans (List.length_map _)]
    exact hlength
  · rw [asRead, mapValues, List.map_map, List.forall_mem_map]
    intro e he
    have hentry := hentries _ (hperm.mem_iff.mpr (List.mem_map_of_mem he))
    exact ⟨hentry.1, Value.Writable.asRead hentry.2⟩

theorem writable_of_get (h : m.toValue.norm.Writable) {label : Label} {v : Value}
    (hget : m.get label = some v) : v.norm.Writable := by
  rw [norm_toValue_eq] at h
  have hmem := m.entriesByKey_perm.mem_iff.mpr (BTreeMap.get_eq_some.mp hget)
  exact ((Value.writable_map.mp h).2 _ (List.mem_map_of_mem hmem)).2

theorem defined_toValue (h : m.Defined) : m.toValue.Defined := by
  rw [toValue, Value.defined_map, List.forall_mem_map]
  exact fun e he => ⟨e.1.plain_toValue.defined, h e he⟩

/-- Maps with the same normal form have the same values up to their normal forms. -/
theorem norm_get_of_norm {m' : CoseMap} (h : m.toValue.norm = m'.toValue.norm) (label : Label) :
    (m.get label).map Value.norm = (m'.get label).map Value.norm := by
  have hinj : Function.Injective fun e : Label × Value => (e.1.toValue, e.2) := by
    rintro ⟨l, v⟩ ⟨l', v'⟩ he
    rw [Prod.mk.injEq] at he
    exact Prod.ext (Label.toValue_injective he.1) he.2
  have hsame : m.mapValues Value.norm = m'.mapValues Value.norm := by
    rw [norm_toValue_eq, norm_toValue_eq, Value.map.injEq] at h
    rw [mapValues_eq_insertAll, mapValues_eq_insertAll]
    congr 1
    apply hinj.list_map
    rw [List.map_map, List.map_map]
    exact h
  rw [← get_mapValues, hsame, get_mapValues]

theorem nodup_labels (m : CoseMap) : (m.entries.map fun e => e.1.toValue).Nodup := by
  have hlabels : (m.entries.map Prod.fst).Nodup := by
    rw [List.nodup_iff_pairwise_ne, List.pairwise_map]
    exact m.sorted.imp fun hlt => hlt.ne
  have hkeys := hlabels.map Label.toValue_injective
  rwa [List.map_map] at hkeys

/-- No key is written twice. -/
theorem duplicateFree_toValue (h : ∀ e ∈ m.entries, e.2.DuplicateFree) :
    m.toValue.DuplicateFree := by
  refine Value.duplicateFree_map ?_ ?_
  · rw [List.map_map]
    simpa [Function.comp_def] using m.nodup_labels
  · rw [List.forall_mem_map]
    exact fun e he => ⟨e.1.plain_toValue.duplicateFree, h e he⟩

/-- No key is written twice, even as it is read. -/
theorem apart_toValue (h : ∀ e ∈ m.entries, e.2.asRead.DuplicateFree) :
    m.toValue.asRead.DuplicateFree := by
  refine Value.duplicateFree_asRead_map ?_ ?_
  · rw [List.map_map]
    simpa [Function.comp_def, Value.settle, (Label.plain_toValue _).asRead] using m.nodup_labels
  · rw [List.forall_mem_map]
    refine fun e he => ⟨?_, h e he⟩
    rw [e.1.plain_toValue.asRead]
    exact e.1.plain_toValue.duplicateFree

/-- A map that is made of a list has the values of the list. -/
theorem forall_mem_ofList {P : Value → Prop} {es : List (Label × Value)}
    (h : ∀ e ∈ es, P e.2) : ∀ e ∈ (BTreeMap.ofList es : CoseMap).entries, P e.2 := by
  intro e he
  obtain hnone | he := BTreeMap.mem_of_mem_insertAll he
  · cases hnone
  · exact h e he

end Values

section Reading

variable {c : Cbor2} (hr : c.ReadsBack)
include hr

/-- A label is read from its encoding. -/
theorem deserialize_label (l : Label) : Label.deserialize c l.toValue.toTree = .ok l := by
  cases l with
  | text s => exact Except.bind_eq_ok.mpr ⟨_, hr.text s, rfl⟩
  | int i =>
    obtain ⟨u, hu, hvisit⟩ := hr.integer i
    refine Except.bind_eq_ok.mpr ⟨u, hu, ?_⟩
    rcases hvisit with rfl | ⟨n, hn, rfl⟩ | rfl | ⟨n, hn, rfl⟩
    · rfl
    · rw [Label.visit, hn, i64TryFrom_toInt]
      rfl
    · rw [Label.visit, i64TryFrom_toInt]
      rfl
    · rw [Label.visit, hn, i64TryFrom_toInt]
      rfl

/-- The item of a regular map is read as the map. -/
theorem deserializeChecked_norm {m : CoseMap} (hregular : m.toValue.norm.Regular)
    (hdepth : m.toValue.norm.toTree.depth < c.recursionLimit) :
    deserializeChecked c m.toValue.norm.toTree = .ok m.asRead := by
  have hvalue (e : Label × Value) (he : e ∈ m.entriesByKey) :
      c.value e.2.norm.toTree = .ok e.2.asRead := by
    rw [norm_toValue_eq] at hregular hdepth
    have hchild : e.2.norm ∈ (Value.map (m.entriesByKey.map
        fun e => (e.1.toValue, e.2.norm))).children :=
      List.mem_flatMap.mpr ⟨_, List.mem_map_of_mem he, by simp⟩
    exact hr.value (hregular.child hchild) ((Value.depth_lt_of_mem_children hchild).trans hdepth)
  rw [norm_toValue_eq, Value.toTree, Value.toTreeEntries_eq, List.map_map, asRead,
    mapValues_eq_insertAll]
  refine foldlM_deserializeEntry.mpr ⟨_, ?_, rfl⟩
  rw [List.forall₂_map_left_iff, List.forall₂_map_right_iff, List.forall₂_same]
  exact fun e he => ⟨deserialize_label hr e.1, hvalue e he⟩

/-- The strict parser takes the encoding of a map within the limits for a map. -/
theorem validateMap_canonical {m : CoseMap} (hregular : m.toValue.norm.Regular)
    (hlimits : Strict.WithinLimits {} m.toValue.norm.toTree)
    (hrecursion : defaultMaxDepth < c.recursionLimit) :
    Strict.validateMap c m.toValue.canonical = .ok () := by
  refine Except.bind_eq_ok.mpr ⟨_, root_regular hr hregular hlimits hrecursion, ?_⟩
  rw [Except.failIf_eq_ok, not_not, Strict.itemAt_kind, norm_toValue_eq]
  rfl

/-- The encoding of a map within the limits of the decoder is read back. -/
theorem fromSlice_canonical {m : CoseMap} (hregular : m.toValue.norm.Regular)
    (hlimits : Strict.WithinLimits {} m.toValue.norm.toTree)
    (hrecursion : defaultMaxDepth < c.recursionLimit) :
    fromSlice c m.toValue.canonical = .ok m.asRead := by
  have hdepth : m.toValue.norm.toTree.depth < c.recursionLimit :=
    hlimits.depth.trans_lt hrecursion
  rw [fromSlice, Except.seq_eq_ok, Except.mapError_eq_ok]
  exact ⟨validateMap_canonical hr hregular hlimits hrecursion,
    Except.bind_eq_ok.mpr ⟨_, hr.item hregular hdepth,
      deserializeChecked_norm hr hregular hdepth⟩⟩

/-- A map that is read from a deterministic encoding is the one that was written. -/
theorem fromSlice_canonical_inv (hrecursion : defaultMaxDepth < c.recursionLimit)
    {m m' : CoseMap} (hsize : m.toValue.canonical.length < usizeBound)
    (h : fromSlice c m.toValue.canonical = .ok m') : m' = m.asRead := by
  have hwritable : m.toValue.norm.Writable := Tree.value_writable hsize (Value.value_toTree _)
  obtain ⟨_, hmap, -⟩ := Except.bind_eq_ok.mp h
  obtain ⟨it, hroot, -⟩ := Except.bind_eq_ok.mp hmap
  obtain ⟨t, ht, hfits, hlimits, hkeys, -⟩ := (Strict.rootWithDuplicatePolicy_ok c).mp hroot
  rw [← bytes_inj hwritable hfits ht] at hlimits hkeys
  have hregular : m.toValue.norm.Regular := by
    refine ⟨m.toValue.norm_norm, hwritable, ?_⟩
    exact apart_of_keysOk hr m.toValue.norm_norm hwritable
      (hlimits.depth.trans_lt hrecursion) (hkeys rfl)
  exact Except.ok.inj (h.symm.trans (fromSlice_canonical hr hregular hlimits hrecursion))

/-- What `to_vec` writes is read back when the keys in every value are apart as they are
read, and the limits of the decoder admit it. -/
theorem fromSlice_toVec (hw : c.WritesValues) (hrecursion : defaultMaxDepth < c.recursionLimit)
    {m : CoseMap} {data : Bytes} (hapart : ∀ e ∈ m.entries, e.2.asRead.DuplicateFree)
    (hdata : WithinDefaults data) (h : m.toVec c = .ok data) :
    fromSlice c data = .ok m.asRead := by
  obtain ⟨rfl, -⟩ := (toVec_deterministic hw m).2 data h
  obtain ⟨hwritable, hlimits⟩ := hdata.of_encode
  have hregular := Value.regular_norm hwritable (apart_toValue hapart)
  exact fromSlice_canonical hr hregular hlimits hrecursion

/-- Without undefined there is nothing more to ask: `to_vec` refuses the other keys. -/
theorem Defined.apart {m : CoseMap} (hdefined : m.Defined) {data : Bytes}
    (h : m.toVec c = .ok data) : ∀ e ∈ m.entries, e.2.asRead.DuplicateFree := fun e he =>
  (hdefined e he).duplicateFree_asRead.mpr (duplicateFree_of_toVec hr.toEncodesCanonically h e he)

end Reading

end CoseMap

end Cose2

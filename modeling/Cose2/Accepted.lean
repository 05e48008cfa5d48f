import Cose2.MapRoundTrip
import Cose2.Strict.Hereditary

/-! # What is read from accepted items

What was read from an item that the strict parser accepts can be written: no key in it is
double, it fits in memory, and its deterministic encoding is no larger than the item.
-/
namespace Cose2

open Cbor Cbor2

/-- Slices are shorter than this (`isize::MAX` is the longest). -/
def sliceBound : Nat := 9223372036854775808

/-- An item in memory that the strict parser accepts by default. -/
structure Accepted (c : Cbor2) (t : Tree) : Prop where
  wellFormed : t.WellFormed
  limits : Strict.WithinLimits {} t
  keys : Strict.KeysOk c t
  length : t.bytes.length < usizeBound

namespace Accepted

variable {c : Cbor2} {t : Tree}

theorem child {s : Tree} (h : Accepted c t) (hs : s ∈ t.children) : Accepted c s where
  wellFormed := h.wellFormed.child hs
  limits := h.limits.of_occurs (.child hs .refl)
  keys := h.keys.child hs
  length := (Tree.length_lt_of_mem hs).trans h.length

/-- The items of an accepted slice are few enough to be written with full heads. -/
theorem room_lt (h : Accepted c t) (hlength : t.bytes.length < sliceBound) :
    t.room + 4 < usizeBound := by
  have hitems : t.count ≤ 100000 := h.limits.items
  rw [sliceBound] at hlength
  rw [Tree.room, usizeBound]
  omega

end Accepted

/-- What the strict parser lets pass, the library reads from the same item. -/
theorem accepted_of_root {c : Cbor2} (hread : c.ReadsItems) {data : Bytes} {it : Strict.Item}
    {t : Tree} (hsize : data.length < usizeBound) (hroot : Strict.root c data {} = .ok it)
    (hitem : c.item data = .ok t) : t.bytes = data ∧ Accepted c t := by
  obtain ⟨t', rfl, hfits, hlimits, hkeys, -⟩ := (Strict.rootWithDuplicatePolicy_ok c).mp hroot
  obtain ⟨hwf, hbytes⟩ := hread.sound hitem
  obtain rfl := bytes_inj hfits hwf.fits hbytes
  exact ⟨rfl, hwf, hlimits, hkeys rfl, hsize⟩

section Values

variable {c : Cbor2} {t : Tree} (hread : c.ReadsItems) (hw : c.WritesValues)
  (hc : c.ReadsValues)

include hread hw hc in
/-- A key is compared by the encoding of its value, with null for undefined. -/
theorem treeKey_eq (ht : t.Fits) {d : Value} (hd : t.value = some d) {k : Bytes}
    (h : Strict.treeKey c t = .ok k) : k = d.nullify.canonical := by
  rw [Strict.treeKey] at h
  by_cases hp : t.IsPreferredScalar
  · rw [if_pos hp] at h
    have htree := hp.toTree hd
    have hplain : d.nullify = d := by
      cases t with
      | int =>
        obtain ⟨i, -, rfl⟩ := Option.map_eq_some_iff.mp hd
        rfl
      | str => exact (Value.plain_of_strValue hd).defined
      | chunked | array | map | tag | prim => exact hp.elim
    rw [hplain, Value.canonical, Value.encode, htree]
    exact (Except.ok.inj h).symm
  · rw [if_neg hp] at h
    obtain ⟨v, hv, hk⟩ := Except.bind_eq_ok.mp h
    rw [canonicalVec, Except.mapError_eq_ok] at hk
    rw [Cbor2.fromSlice, Except.mapError_eq_ok, Except.bind_eq_ok] at hv
    obtain ⟨t', hitem, hv⟩ := hv
    obtain ⟨hwf, hbytes⟩ := hread.sound hitem
    obtain rfl := bytes_inj ht hwf.fits hbytes
    obtain ⟨d', hd', hloads⟩ := hc.loads hv
    cases hd.symm.trans hd'
    rw [hw.canonical hk, Value.canonical, hloads.same, Value.canonical]

include hread hw hc in
/-- The parser does not let a key pass twice, however it is written. -/
theorem apart_of_value (ht : Accepted c t) {d : Value} (h : t.value = some d) :
    d.nullify.DuplicateFree := by
  induction t using Tree.induction generalizing d with
  | h t ih =>
    have below {s : Tree} (hs : s ∈ t.children) {u : Value} (hu : s.value = some u) :
        u.nullify.DuplicateFree := ih s hs (ht.child hs) hu
    cases t with
    | int =>
      obtain ⟨i, -, rfl⟩ := Option.map_eq_some_iff.mp h
      exact (Value.Plain.integer i).duplicateFree
    | str | chunked =>
      have hplain := Value.plain_of_strValue h
      rw [hplain.defined]
      exact hplain.duplicateFree
    | prim w n =>
      obtain ⟨w', n', hprim⟩ := Tree.toTree_of_primValue h
      rw [Value.DuplicateFree, hprim]
      exact .node trivial fun s hs => absurd hs List.not_mem_nil
    | array w items =>
      obtain ⟨vs, hvs, rfl⟩ := Option.map_eq_some_iff.mp h
      rw [Value.nullify, Value.nullifyItems_eq]
      refine Value.duplicateFree_array (List.forall_mem_map.mpr fun v hv => ?_)
      obtain ⟨s, hs, hsv⟩ := Tree.forall₂_mem_right (Tree.valueItems_eq_some.mp hvs) hv
      exact below hs hsv
    | tag w n content =>
      rw [Tree.value] at h
      split_ifs at h
      obtain ⟨u, hu, rfl⟩ := Option.map_eq_some_iff.mp h
      exact Value.duplicateFree_tag _ (below (List.mem_singleton_self _) hu)
    | map w entries =>
      obtain ⟨es, hes, rfl⟩ := Option.map_eq_some_iff.mp h
      have hentries := Tree.valueEntries_eq_some.mp hes
      obtain ⟨ks, hks, hnodup⟩ := ht.keys.head
      have hfits : ∀ e ∈ entries, e.1.Fits := fun e he =>
        (ht.wellFormed.child (List.mem_flatMap.mpr ⟨e, he, List.mem_cons_self⟩)).fits
      have hcanonical : ks = es.map fun e => e.1.nullify.canonical := by
        clear h hes ih below ht hnodup
        induction hks generalizing es with
        | nil =>
          cases hentries
          rfl
        | @cons e k entries ks hk _ ih =>
          rw [List.forall_mem_cons] at hfits
          cases hentries with
          | cons hone hrest =>
            rw [treeKey_eq hread hw hc hfits.1 hone.1 hk, ih _ hrest hfits.2, List.map_cons]
      rw [Value.nullify, Value.nullifyEntries_eq]
      refine Value.duplicateFree_map ?_ (List.forall_mem_map.mpr fun e he => ?_)
      · rw [hcanonical] at hnodup
        rw [List.map_map]
        refine List.Nodup.of_map Value.encode ?_
        rwa [List.map_map]
      · obtain ⟨e', he', hkey, hvalue⟩ := Tree.forall₂_mem_right hentries he
        exact ⟨below (List.mem_flatMap.mpr ⟨e', he', by simp⟩) hkey,
          below (List.mem_flatMap.mpr ⟨e', he', by simp⟩) hvalue⟩

/-- The value `v` was read from the item: it can be written, without a key twice, and its
deterministic encoding is no larger. -/
structure ValueHeldBy (v : Value) (t : Tree) : Prop where
  noLarger : v.norm.toTree.NoLarger t
  reduced : v.Reduced
  distinct : v.DuplicateFree
  writable : v.Writable
  depth : v.toTree.depth ≤ t.depth

include hread hw hc in
/-- A value that was read can be written in no more space. -/
theorem valueHeldBy (ht : Accepted c t) {v : Value} (h : c.value t = .ok v) :
    ValueHeldBy v t := by
  obtain ⟨d, hd, hloads⟩ := hc.loads h
  refine ⟨?_, hloads.reduced, ?_, hloads.writable (Tree.value_writable ht.length hd),
    hloads.depth.trans (Tree.depth_value_le hd)⟩
  · rw [hloads.same]
    exact Tree.norm_noLarger hd
  · rw [Value.DuplicateFree, hloads.same]
    exact apart_of_value hread hw hc ht hd

theorem ValueHeldBy.encodable {v : Value} (h : ValueHeldBy v t) (he : c.EncodesCanonically)
    (hdepth : t.depth < c.recursionLimit) : c.toCanonicalVec v = .ok v.canonical :=
  he.canonical h.writable h.distinct (h.depth.trans_lt hdepth)

end Values

/-- An item that is no larger than an accepted one is within the limits. -/
theorem Strict.WithinLimits.of_noLarger {s t : Tree} (h : Strict.WithinLimits {} t)
    (hle : s.NoLarger t) : Strict.WithinLimits {} s where
  depth := hle.depth.trans h.depth
  items := hle.count.trans h.items
  definite := by rintro ⟨⟩

/-! ### Maps -/

/-- The library can encode every value of the map. -/
def Encodable (c : Cbor2) (m : CoseMap) : Prop :=
  ∀ e ∈ m.entries, ∃ b, c.toCanonicalVec e.2 = .ok b

/-- Every value of the map was read from an item inside. -/
theorem valuesHeldBy {c : Cbor2} {t : Tree} (hread : c.ReadsItems) (hw : c.WritesValues)
    (hc : c.ReadsValues) (ht : Accepted c t) {m : CoseMap}
    (h : CoseMap.deserializeChecked c t = .ok m) :
    ∀ e ∈ m.entries, ∃ s ∈ t.children, ValueHeldBy e.2 s := by
  intro e he
  obtain ⟨s, hs, hvalue⟩ := CoseMap.value_of_deserializeChecked h he
  exact ⟨s, hs, valueHeldBy hread hw hc (ht.child hs) hvalue⟩

/-- A map that was read from an item: it can be written, without a key twice, and its
deterministic encoding is no larger. -/
structure CoseMap.HeldBy (m : CoseMap) (t : Tree) : Prop where
  noLarger : m.toValue.norm.toTree.NoLarger t
  reduced : m.Reduced
  distinct : ∀ e ∈ m.entries, e.2.DuplicateFree
  writable : m.toValue.Writable
  depth : m.toValue.toTree.depth ≤ t.depth

/-- The keys in its values are apart as they are read. -/
theorem CoseMap.HeldBy.apart {m : CoseMap} {t : Tree} (h : m.HeldBy t) :
    ∀ e ∈ m.entries, e.2.asRead.DuplicateFree := fun e he =>
  (h.reduced e he).defined.duplicateFree_asRead.mpr (h.distinct e he)

section Maps

variable {c : Cbor2} {t : Tree} (hread : c.ReadsItems) (hw : c.WritesValues)
  (hc : c.ReadsValues)
include hread hw hc

theorem encodable_of_deserializeChecked (he : c.EncodesCanonically)
    (hrecursion : defaultMaxDepth < c.recursionLimit) (ht : Accepted c t) {m : CoseMap}
    (h : CoseMap.deserializeChecked c t = .ok m) : Encodable c m := by
  intro e hmem
  obtain ⟨s, hs, hheld⟩ := valuesHeldBy hread hw hc ht h e hmem
  exact ⟨_, hheld.encodable he ((ht.child hs).limits.depth.trans_lt hrecursion)⟩

/-- **A map that was read can be written in no more space.** -/
theorem CoseMap.heldBy_of_deserializeChecked (hd : c.Describes) (ht : Accepted c t) {m : CoseMap}
    (h : CoseMap.deserializeChecked c t = .ok m) : m.HeldBy t := by
  have hvalues := valuesHeldBy hread hw hc ht h
  cases t with
  | int | str | chunked | array | tag | prim => cases h
  | map w es =>
    obtain ⟨ls, hls, hm'⟩ := foldlM_deserializeEntry.mp h
    have hentry : ∀ e ∈ es, Accepted c e.1 ∧ Accepted c e.2 :=
      forall_mem_entries.mp fun s hs => ht.child hs
    have hmem {e : Label × Value} (he : e ∈ m.entries) : e ∈ ls := by
      rw [hm'] at he
      obtain hnone | he := BTreeMap.mem_of_mem_insertAll he
      · cases hnone
      · exact he
    -- each label and each value is the value of the item it was read from
    have hspelled : List.Forall₂ (fun e l => (Accepted c e.1 ∧ Accepted c e.2) ∧
        (∃ d, e.1.value = some d ∧ d.norm = l.1.toValue) ∧ c.value e.2 = .ok l.2) es ls := by
      refine ((List.forall₂_and_left _ _).mpr ⟨hentry, hls⟩).imp fun e l he => ⟨he.1, ?_, he.2.2⟩
      exact Label.deserialize_ok hd he.2.1
    have hsub : m.entriesByKey.Subperm ls := by
      have hnodup : m.entries.Nodup := m.sorted.imp fun hlt heq => hlt.ne (congrArg Prod.fst heq)
      refine m.entriesByKey_perm.subperm.trans ?_
      exact List.subperm_of_subset hnodup fun e he => hmem he
    refine ⟨?_, fun l hl => ?_, fun l hl => ?_, ?_, ?_⟩
    · have hparts : Tree.NoLargerAll
          (ls.flatMap fun l => [l.1.toValue.toTree, l.2.norm.toTree])
          (es.flatMap fun e => [e.1, e.2]) := by
        clear ht hls hentry hmem hsub h hm' hvalues
        induction hspelled with
        | nil => exact .nil _
        | cons hone _ ih =>
          obtain ⟨⟨hkey, hvalue⟩, ⟨d, hd, hnorm⟩, hv⟩ := hone
          refine .cons ?_ (.cons (valueHeldBy hread hw hc hvalue hv).noLarger ih)
          have hle := Tree.norm_noLarger hd
          rwa [Value.defined_of_norm (hnorm ▸ (Label.plain_toValue _).defined), hnorm] at hle
      rw [norm_toValue_eq, Value.toTree, Value.toTreeEntries_eq, List.map_map]
      refine .node trivial (hparts.subperm ?_)
      obtain ⟨us, hperm, hsub⟩ := hsub
      refine ⟨_, ?_, hsub.flatMap fun l => [l.1.toValue.toTree, l.2.norm.toTree]⟩
      rw [Tree.children, List.flatMap_map]
      exact hperm.flatMap_right _
    · obtain ⟨s, -, hheld⟩ := hvalues l hl
      exact hheld.reduced
    · obtain ⟨s, -, hheld⟩ := hvalues l hl
      exact hheld.distinct
    · refine Value.writable_map.mpr ⟨?_, ?_⟩
      · have hlength := (Tree.entries_length_lt w es).trans ht.length
        have hentries := hsub.length_le
        rw [m.entriesByKey_perm.length_eq, ← hls.length_eq] at hentries
        rw [List.length_map]
        exact hentries.trans_lt hlength
      · rw [List.forall_mem_map]
        intro l hl
        obtain ⟨e, -, ⟨hkey, -⟩, ⟨d, hd, hnorm⟩, -⟩ :=
          Tree.forall₂_mem_right hspelled (hmem hl)
        obtain ⟨s, -, hheld⟩ := hvalues l hl
        refine ⟨?_, hheld.writable⟩
        rw [← hnorm]
        exact (Tree.value_writable hkey.length hd).norm
    · refine Tree.depth_le_of_children ?_
      rw [Value.children_toTree, List.forall_mem_map]
      intro u hu
      obtain ⟨_, hmem', hu⟩ := List.mem_flatMap.mp hu
      obtain ⟨l, hl, rfl⟩ := List.mem_map.mp hmem'
      obtain ⟨s, hs, hheld⟩ := hvalues l hl
      refine ⟨s, hs, ?_⟩
      rcases List.mem_pair.mp hu with rfl | rfl
      · cases l.1 <;> exact Nat.zero_le _
      · exact hheld.depth

omit hw hc in
/-- What is read of the encoding of a value as a map of labels: its keys are the labels. -/
theorem CoseMap.fromSlice_canonical_ok (hd : c.Describes) {v : Value} (hwritable : v.norm.Writable)
    {m : CoseMap} (h : CoseMap.fromSlice c v.canonical = .ok m) :
    ∃ (es : List (Value × Value)) (ls : List (Label × Value)), v.norm = .map es ∧
      List.Forall₂ (fun e l => e.1 = l.1.toValue ∧ c.value e.2.toTree = .ok l.2) es ls ∧
      m = BTreeMap.ofList ls ∧ Strict.WithinLimits {} v.norm.toTree := by
  rw [CoseMap.fromSlice, Except.seq_eq_ok, Except.mapError_eq_ok, Except.bind_eq_ok] at h
  obtain ⟨hvalid, t, hitem, hmap⟩ := h
  obtain ⟨it, hroot, -⟩ := Except.bind_eq_ok.mp hvalid
  obtain ⟨t', ht', hfits, hlimits, -, -⟩ := (Strict.rootWithDuplicatePolicy_ok c).mp hroot
  obtain ⟨hwf, ht⟩ := hread.sound hitem
  obtain rfl := bytes_inj hwritable hfits ht'
  obtain rfl := bytes_inj hwritable hwf.fits ht
  cases hv : v.norm with
  | integer | bytes | text | float | bool | null | simple | tag | array =>
    rw [hv] at hmap
    cases hmap
  | map es =>
    have hnorm (e : Value × Value) (he : e ∈ es) : e.1.norm = e.1 :=
      Value.norm_of_mem_children (hv ▸ v.norm_norm) (List.mem_flatMap.mpr ⟨e, he, by simp⟩)
    rw [hv, Value.toTree, Value.toTreeEntries_eq] at hmap
    obtain ⟨ls, hls, rfl⟩ := foldlM_deserializeEntry.mp hmap
    rw [List.forall₂_map_left_iff] at hls
    refine ⟨es, ls, rfl, ?_, rfl, hv ▸ hlimits⟩
    refine ((List.forall₂_and_left _ _).mpr ⟨hnorm, hls⟩).imp fun e l he => ⟨?_, he.2.2⟩
    obtain ⟨d, hvalue, hlabel⟩ := Label.deserialize_ok hd he.2.1
    rw [Value.value_toTree] at hvalue
    cases hvalue
    exact he.1.symm.trans hlabel

omit hw in
/-- **A map of labels that was read of a value is read of what is read of the value.** -/
theorem CoseMap.fromSlice_settle (hd : c.Describes) (hr : c.ReadsBack)
    (hrecursion : defaultMaxDepth < c.recursionLimit) {v v' : Value}
    (hwritable : v.norm.Writable) (hsettle : v'.norm = v.settle) (hdefined : v'.Defined)
    (hdistinct : v'.DuplicateFree) {m : CoseMap} (h : CoseMap.fromSlice c v.canonical = .ok m) :
    CoseMap.fromSlice c v'.canonical = .ok m.asRead := by
  obtain ⟨es, ls, hv, hls, rfl, hlimits⟩ := fromSlice_canonical_ok hread hd hwritable h
  -- the keys are read as they are, so they stay in their order
  have hentries : v'.norm = .map (es.map fun e => (e.1, e.2.nullify.norm)) := by
    have hkeys (e : Value × Value) (he : e ∈ es) : e.1.nullify.norm = e.1 := by
      obtain ⟨l, -, hl, -⟩ := Tree.forall₂_mem_right hls.flip he
      rw [hl, l.1.plain_toValue.defined, l.1.plain_toValue.norm]
    have hsort := Value.sortEntries_map (f := fun x => x.nullify.norm)
      (Value.pairwise_of_norm (hv ▸ v.norm_norm))
    rw [hsettle, Value.settle, Value.asRead, hv, Value.nullify, Value.nullifyEntries_eq,
      Value.norm, Value.normEntries_eq, List.map_map, ← hsort]
    exact congrArg (fun es => Value.map (Value.sortEntries es))
      (List.map_congr_left fun e he => Prod.ext (hkeys e he) rfl)
  have hregular : v'.norm.Regular := by
    refine Value.regular_norm ?_ (hdefined.duplicateFree_asRead.mpr hdistinct)
    rw [hsettle]
    exact hwritable.nullify.norm
  have hlimits' : Strict.WithinLimits {} v'.norm.toTree := by
    have hle := Tree.norm_noLarger v.asRead.value_toTree
    rw [v.defined_asRead] at hle
    rw [hsettle]
    exact (hlimits.of_noLarger (Tree.nullify_noLarger v.norm)).of_noLarger hle
  have hdepth := hlimits'.depth.trans_lt hrecursion
  have hmap : CoseMap.deserializeChecked c v'.norm.toTree = .ok (CoseMap.asRead (.ofList ls)) := by
    have hchild (e : Value × Value) (he : e ∈ es) :
        c.value e.2.nullify.norm.toTree = .ok e.2.nullify.norm.nullify := by
      have hmem : e.2.nullify.norm ∈ v'.norm.children := by
        rw [hentries]
        exact List.mem_flatMap.mpr ⟨_, List.mem_map_of_mem he, by simp⟩
      exact hr.value (hregular.child hmem) ((Value.depth_lt_of_mem_children hmem).trans hdepth)
    rw [hentries, Value.toTree, Value.toTreeEntries_eq, List.map_map, asRead, BTreeMap.ofList,
      mapValues_insertAll]
    refine foldlM_deserializeEntry.mpr ⟨_, ?_, rfl⟩
    rw [List.forall₂_map_left_iff, List.forall₂_map_right_iff]
    refine ((List.forall₂_and_left _ _).mpr ⟨hchild, hls⟩).imp fun e l he => ⟨?_, ?_⟩
    · dsimp only [Function.comp]
      rw [he.2.1]
      exact deserialize_label hr l.1
    · obtain ⟨d, hd, hloads⟩ := hc.loads he.2.2
      rw [Value.value_toTree] at hd
      cases hd
      rw [Value.asRead, hloads.same]
      exact he.1
  rw [CoseMap.fromSlice, Except.seq_eq_ok, Except.mapError_eq_ok]
  refine ⟨?_, Except.bind_eq_ok.mpr ⟨_, hr.item hregular hdepth, hmap⟩⟩
  refine Except.bind_eq_ok.mpr ⟨_, root_regular hr hregular hlimits' hrecursion, ?_⟩
  rw [Except.failIf_eq_ok, not_not, Strict.itemAt_kind, hentries]
  rfl

end Maps
end Cose2

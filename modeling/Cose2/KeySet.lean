import Cose2.KeyRoundTrip
import Cose2.UncheckedHeader

/-! # Key sets

`KeySet::from_slice` parses the outer array once, with duplicate keys let through, and
decodes the bytes of each member by itself; `from_slice_strict` parses everything at once
and refuses what it cannot decode.  The members the first one returns are those that
`Key::from_slice` accepts (`accepted`), whatever stands beside them.
-/
namespace Cose2

open Cbor Cbor2 Iana

namespace Strict

theorem independentlyValidatedArrayMembers_ok {c : Cbor2} {data : Bytes} {members : List Bytes} :
    independentlyValidatedArrayMembers c data = .ok members ↔
      ∃ w items, data = (Tree.array w items).bytes ∧ (Tree.array w items).Fits ∧
        WithinLimits {} (.array w items) ∧ members = items.map Tree.bytes := by
  have hmembers (w : Option Width) (items : List Tree) :
      (itemAt 0 (.array w items)).children.map (·.bytesIn (Tree.array w items).bytes) =
        items.map Tree.bytes := by
    have hplaced : (Tree.array w items).bytes <+: (Tree.array w items).bytes.drop 0 :=
      List.prefix_rfl
    exact map_bytesIn_itemsAt (children_placed hplaced)
  simp only [independentlyValidatedArrayMembers, Except.bind_eq_ok, Except.failIf_eq_ok,
    Except.pure_eq_ok, not_not]
  constructor
  · rintro ⟨it, h, _, hkind, rfl⟩
    obtain ⟨t, rfl, hfits, hlimits, -, rfl⟩ := (rootWithDuplicatePolicy_ok c).mp h
    rw [itemAt_kind] at hkind
    obtain ⟨w, items, rfl⟩ := kindOf_eq_array.mp hkind
    exact ⟨w, items, rfl, hfits, hlimits, hmembers w items⟩
  · rintro ⟨w, items, rfl, hfits, hlimits, rfl⟩
    refine ⟨itemAt 0 (.array w items), ?_, (), rfl, hmembers w items⟩
    exact (rootWithDuplicatePolicy_ok c).mpr ⟨_, rfl, hfits, hlimits, by rintro ⟨⟩, rfl⟩

end Strict

variable {c : Cbor2}

/-! ### Keys -/

namespace Key

variable {k : Key}

/-- A member that is decoded in its place is accepted by itself. -/
theorem fromSlice_of_deserialize (hraw : c.CapturesRaw) {t : Tree} (ht : t.WellFormed)
    (h : Key.deserialize c t = .ok k) : Key.fromSlice c t.bytes = .ok k := by
  simp only [Key.deserialize, CoseMap.deserialize, hraw.raw ht, Except.ok_bind,
    Except.bind_eq_ok, Except.mapError_eq_ok, Except.pure_eq_ok] at h
  obtain ⟨_, ⟨_, hmap, t', ht', hread⟩, _, hvalid, rfl⟩ := h
  rw [fromSlice_ok, CoseMap.fromSlice, Except.seq_eq_ok, Except.mapError_eq_ok]
  exact ⟨⟨hmap, Except.bind_eq_ok.mpr ⟨t', ht', hread⟩⟩, hvalid⟩

theorem serialize_ok {v : Value} :
    k.serialize = .ok v ↔ k.validate = .ok () ∧ v = CoseMap.toValue k := by
  rw [Key.serialize, Except.seq_eq_ok, Except.mapError_eq_ok, Except.pure_eq_ok, eq_comm (b := v)]
  rfl

end Key

/-! ### Members -/

namespace KeySet

/-- The members that `Key::from_slice` accepts by themselves, in their order. -/
def accepted (c : Cbor2) (items : List Tree) : KeySet :=
  items.filterMap fun t => (Key.fromSlice c t.bytes).toOption

theorem accepted_append (items items' : List Tree) :
    accepted c (items ++ items') = accepted c items ++ accepted c items' :=
  List.filterMap_append

theorem valid_of_mem_accepted {items : List Tree} {k : Key} (h : k ∈ accepted c items) :
    k.validate = .ok () := by
  obtain ⟨t, -, hk⟩ := List.mem_filterMap.mp h
  cases hread : Key.fromSlice c t.bytes with
  | error e =>
    rw [hread] at hk
    cases hk
  | ok k' =>
    rw [hread] at hk
    cases hk
    exact (Key.fromSlice_ok.mp hread).2

theorem validate_ok {s : KeySet} {u : Unit} : s.validate = .ok u ↔
    s ≠ [] ∧ ∀ k ∈ s, k.validate = .ok () := by
  rw [validate, Except.seq_eq_ok, Except.failIf_eq_ok, Except.forM_eq_ok]

/-- The accepted members of an array within the limits are returned, if there are any. -/
theorem fromSlice_ok {data : Bytes} {s : KeySet} : KeySet.fromSlice c data = .ok s ↔
    ∃ w items, data = (Tree.array w items).bytes ∧ (Tree.array w items).Fits ∧
      Strict.WithinLimits {} (.array w items) ∧ s = accepted c items ∧ s ≠ [] := by
  simp only [KeySet.fromSlice, Except.bind_eq_ok, Except.pure_eq_ok,
    Strict.independentlyValidatedArrayMembers_ok, validate_ok]
  constructor
  · rintro ⟨_, ⟨w, items, rfl, hfits, hlimits, rfl⟩, _, hvalid, rfl⟩
    refine ⟨w, items, rfl, hfits, hlimits, ?_⟩
    rw [List.filterMap_map] at hvalid ⊢
    exact ⟨rfl, hvalid.1⟩
  · rintro ⟨w, items, rfl, hfits, hlimits, rfl, hne⟩
    refine ⟨_, ⟨w, items, rfl, hfits, hlimits, rfl⟩, (), ?_, ?_⟩
    · rw [List.filterMap_map]
      exact ⟨hne, fun k hk => valid_of_mem_accepted hk⟩
    · rw [List.filterMap_map]
      rfl

/-- An array within the limits. -/
theorem fromSlice_array {w : Option Width} {items : List Tree} {s : KeySet}
    (hfits : (Tree.array w items).Fits) (hlimits : Strict.WithinLimits {} (.array w items)) :
    KeySet.fromSlice c (Tree.array w items).bytes = .ok s ↔ s = accepted c items ∧ s ≠ [] := by
  rw [fromSlice_ok]
  constructor
  · rintro ⟨w', items', hbytes, hfits', -, haccepted⟩
    cases bytes_inj hfits hfits' hbytes
    exact haccepted
  · intro haccepted
    exact ⟨w, items, rfl, hfits, hlimits, haccepted⟩

/-- What is decoded as a whole is decoded member by member. -/
theorem fromSlice_of_strict (hread : c.ReadsItems) (hraw : c.CapturesRaw) {data : Bytes}
    {s : KeySet} (h : KeySet.fromSliceStrict c data = .ok s) : KeySet.fromSlice c data = .ok s := by
  simp only [fromSliceStrict, Strict.validateArray, Except.bind_eq_ok, Except.mapError_eq_ok,
    Except.pure_eq_ok, Strict.root] at h
  obtain ⟨_, ⟨it, hroot, -⟩, _, ⟨t, ht, hkeys⟩, _, hvalid, rfl⟩ := h
  obtain ⟨t', rfl, hfits, hlimits, -, -⟩ := (Strict.rootWithDuplicatePolicy_ok c).mp hroot
  obtain ⟨hwf, hbytes⟩ := hread.sound ht
  cases bytes_inj hfits hwf.fits hbytes
  cases t with
  | array w items =>
    rw [deserialize, Except.mapM_eq_ok] at hkeys
    refine (fromSlice_array hfits hlimits).mpr ⟨?_, (validate_ok.mp hvalid).1⟩
    have hitems (t : Tree) (ht : t ∈ items) : t.WellFormed := hwf.child ht
    clear hroot ht hvalid hfits hlimits hwf hbytes
    induction hkeys with
    | nil => rfl
    | @cons t k items s hk _ ih =>
      rw [List.forall_mem_cons] at hitems
      rw [accepted, List.filterMap_cons, Key.fromSlice_of_deserialize hraw hitems.1 hk]
      exact congrArg (k :: ·) (ih hitems.2)
  | int | str | chunked | map | tag | prim => cases hkeys

/-! ### Encoding -/

/-- The value that is written for a key set. -/
def toValue (s : KeySet) : Value := .array (s.map CoseMap.toValue)

theorem serialize_ok {s : KeySet} {v : Value} :
    s.serialize = .ok v ↔ s.validate = .ok () ∧ v = s.toValue := by
  simp only [KeySet.serialize, Except.bind_eq_ok, Except.pure_eq_ok, Except.mapError_eq_ok,
    validate_ok]
  constructor
  · rintro ⟨_, hvalid, vs, hvs, rfl⟩
    refine ⟨hvalid, ?_⟩
    rw [Except.mapM_eq_ok] at hvs
    rw [toValue]
    congr 1
    clear hvalid
    induction hvs with
    | nil => rfl
    | cons hk _ ih => rw [List.map_cons, ih, (Key.serialize_ok.mp hk).2]
  · rintro ⟨hvalid, rfl⟩
    refine ⟨(), hvalid, s.map CoseMap.toValue, ?_, rfl⟩
    rw [Except.mapM_eq_ok, List.forall₂_map_right_iff, List.forall₂_same]
    exact fun k hk => Key.serialize_ok.mpr ⟨hvalid.2 k hk, rfl⟩

theorem norm_toValue (s : KeySet) :
    s.toValue.norm = .array (s.map fun k => (CoseMap.toValue k).norm) := by
  rw [toValue, Value.norm, Value.normItems_eq, List.map_map]
  rfl

theorem toTree_norm (s : KeySet) : s.toValue.norm.toTree =
    .array (some (preferred s.length)) (s.map fun k => (CoseMap.toValue k).norm.toTree) := by
  rw [norm_toValue, Value.toTree, Value.toTreeItems_eq, List.map_map, List.length_map]
  rfl

theorem serialize_of_toVec {s : KeySet} {data : Bytes} (h : s.toVec c = .ok data) :
    s.validate = .ok () ∧ c.toCanonicalVec s.toValue = .ok data := by
  rw [KeySet.toVec, Except.seq_eq_ok, Except.mapError_eq_ok, Except.bind_eq_ok] at h
  obtain ⟨hvalid, v, hv, hvec⟩ := h
  obtain ⟨-, rfl⟩ := serialize_ok.mp hv
  exact ⟨hvalid, hvec⟩

/-- A valid set is written when no map in its values has a key twice and its encoding is
within the limits. -/
theorem toVec_ok (he : c.EncodesCanonically) (hrecursion : defaultMaxDepth + 1 < c.recursionLimit)
    {s : KeySet} (hvalid : s.validate = .ok ()) (hwritable : s.toValue.Writable)
    (hdistinct : ∀ k ∈ s, ∀ e ∈ k.entries, e.2.DuplicateFree)
    (hdata : WithinDefaults s.toValue.canonical) : s.toVec c = .ok s.toValue.canonical := by
  have hall : s.toValue.DuplicateFree := by
    apply Value.duplicateFree_array
    rw [List.forall_mem_map]
    exact fun k hk => CoseMap.duplicateFree_toValue (hdistinct k hk)
  -- normalizing takes away one level at most
  have hdepth : s.toValue.toTree.depth < c.recursionLimit := by
    have hle := s.toValue.depth_le_norm
    have hlimit : s.toValue.norm.toTree.depth ≤ defaultMaxDepth := hdata.of_encode.2.depth
    omega
  rw [KeySet.toVec, Except.seq_eq_ok, Except.mapError_eq_ok, Except.bind_eq_ok]
  exact ⟨hvalid, _, serialize_ok.mpr ⟨hvalid, rfl⟩, he.canonical hwritable hall hdepth⟩

/-- What `to_vec` writes of a set without undefined is returned, each value as it is read. -/
theorem fromSlice_toVec (hw : c.WritesValues) (hr : c.ReadsBack)
    (hrecursion : defaultMaxDepth < c.recursionLimit) {s : KeySet} {data : Bytes}
    (hdefined : ∀ k ∈ s, CoseMap.Defined k) (hdata : WithinDefaults data)
    (h : s.toVec c = .ok data) : KeySet.fromSlice c data = .ok (s.map CoseMap.asRead) := by
  obtain ⟨hvalid, hvec⟩ := serialize_of_toVec h
  rw [validate_ok] at hvalid
  have hall : s.toValue.Defined := by
    rw [toValue, Value.defined_array, List.forall_mem_map]
    exact fun k hk => CoseMap.defined_toValue (hdefined k hk)
  have hapart := hall.duplicateFree_asRead.mpr (hr.distinct hvec)
  obtain rfl := hw.canonical hvec
  obtain ⟨hwritable, hlimits⟩ := hdata.of_encode
  have hregular := Value.regular_norm hwritable hapart
  -- each member is within the limits because the whole set is
  have hmember (k : Key) (hk : k ∈ s) :
      Key.fromSlice c (CoseMap.toValue k).norm.toTree.bytes = .ok k.asRead := by
    have hchild : (CoseMap.toValue k).norm ∈ s.toValue.norm.children := by
      rw [norm_toValue]
      exact List.mem_map_of_mem hk
    have hmem : (CoseMap.toValue k).norm.toTree ∈ s.toValue.norm.toTree.children := by
      rw [Value.children_toTree]
      exact List.mem_map_of_mem hchild
    refine Key.fromSlice_ok.mpr ⟨?_, Key.validate_asRead (hvalid.2 k hk)⟩
    exact CoseMap.fromSlice_canonical hr (hregular.child hchild)
      (hlimits.of_occurs (.child hmem .refl)) hrecursion
  have haccepted : accepted c (s.map fun k => (CoseMap.toValue k).norm.toTree) =
      s.map CoseMap.asRead := by
    rw [accepted, List.filterMap_map, ← List.filterMap_eq_map]
    exact List.filterMap_congr fun k hk => congrArg Except.toOption (hmember k hk)
  rw [Value.canonical, Value.encode, toTree_norm]
  rw [toTree_norm] at hlimits
  rw [Value.Writable, toTree_norm] at hwritable
  refine (fromSlice_array hwritable hlimits).mpr ⟨haccepted.symm, ?_⟩
  rw [ne_eq, List.map_eq_nil_iff]
  exact hvalid.1

/-- The same keys in the same order, with the same labels, whose values have the same
deterministic encoding. -/
def SameKeys (s s' : KeySet) : Prop :=
  List.Forall₂ (fun k k' : Key => ∀ label,
    (k.get label).map Value.canonical = (k'.get label).map Value.canonical) s s'

theorem sameKeys_asRead {s : KeySet} (hdefined : ∀ k ∈ s, CoseMap.Defined k) :
    SameKeys s (s.map CoseMap.asRead) := by
  rw [SameKeys, List.forall₂_map_right_iff, List.forall₂_same]
  exact fun k hk label => (CoseMap.canonical_get_asRead (hdefined k hk) label).symm

/-- **The members of a key set are independent of each other.**  An array within the
limits gives the members that are accepted by themselves, so that exchanging some of its
members leaves the others as they were; what the strict decoder returns is the same set;
what is written of a set without undefined is read back, and a valid set is written when no
map in its values has a key twice. -/
theorem members_independent (hread : c.ReadsItems) (hraw : c.CapturesRaw)
    (hw : c.WritesValues) (hr : c.ReadsBack)
    (hrecursion : defaultMaxDepth + 1 < c.recursionLimit) :
    (∀ w items s, (Tree.array w items).WellFormed → Strict.WithinLimits {} (.array w items) →
        (KeySet.fromSlice c (Tree.array w items).bytes = .ok s ↔
          s = accepted c items ∧ s ≠ [])) ∧
      (∀ w w' before members members' after s s',
        (Tree.array w (before ++ members ++ after)).WellFormed →
        (Tree.array w' (before ++ members' ++ after)).WellFormed →
        Strict.WithinLimits {} (.array w (before ++ members ++ after)) →
        Strict.WithinLimits {} (.array w' (before ++ members' ++ after)) →
        KeySet.fromSlice c (Tree.array w (before ++ members ++ after)).bytes = .ok s →
        KeySet.fromSlice c (Tree.array w' (before ++ members' ++ after)).bytes = .ok s' →
          s = accepted c before ++ accepted c members ++ accepted c after ∧
            s' = accepted c before ++ accepted c members' ++ accepted c after) ∧
      (∀ data s, KeySet.fromSliceStrict c data = .ok s → KeySet.fromSlice c data = .ok s) ∧
      (∀ (s : KeySet) data, s.toVec c = .ok data → (∀ k ∈ s, CoseMap.Defined k) →
        WithinDefaults data → ∃ s', KeySet.fromSlice c data = .ok s' ∧ SameKeys s s') ∧
      ∀ s : KeySet, s.validate = .ok () → s.toValue.Writable →
        (∀ k ∈ s, ∀ e ∈ k.entries, e.2.DuplicateFree) → WithinDefaults s.toValue.canonical →
          ∃ data, s.toVec c = .ok data := by
  refine ⟨?_, ?_, ?_, ?_, ?_⟩
  · intro w items s hwf hlimits
    exact fromSlice_array hwf.fits hlimits
  · intro w w' before members members' after s s' hwf hwf' hlimits hlimits' h h'
    rw [fromSlice_array hwf.fits hlimits, accepted_append, accepted_append] at h
    rw [fromSlice_array hwf'.fits hlimits', accepted_append, accepted_append] at h'
    exact ⟨h.1, h'.1⟩
  · intro data s h
    exact fromSlice_of_strict hread hraw h
  · intro s data hvec hdefined hdata
    exact ⟨_, fromSlice_toVec hw hr ((Nat.lt_succ_self _).trans hrecursion) hdefined hdata hvec,
      sameKeys_asRead hdefined⟩
  · intro s hvalid hwritable hdistinct hdata
    exact ⟨_, toVec_ok hr.toEncodesCanonically hrecursion hvalid hwritable hdistinct hdata⟩

/-- The map `{1: 4}`. -/
def symmetric : Tree := .map (some .imm) [(.int false .imm 1, .int false .imm 4)]

/-- The map `{1: 4, 1: 4}`. -/
def symmetricTwice : Tree := .map (some .imm)
  [(.int false .imm 1, .int false .imm 4), (.int false .imm 1, .int false .imm 4)]

/-- The set of the key `{1: 4}`. -/
def one : KeySet := [BTreeMap.ofList [(.int 1, (Label.int 4).toValue)]]

/-- The set of the key `{1: 4, "a": 2(h'05')}`. -/
def bignumNote : KeySet := [BTreeMap.ofList [(.int 1, (Label.int 4).toValue),
  (.text "a", .tag 2 (.bytes [5]))]]

/-- A member with a duplicate label does not touch the one behind it, and a key with a bignum
is read back. -/
theorem members_independent_one :
    (KeySet.fromSlice Cbor2.reference (Tree.array (some .imm)
      ([] ++ [symmetricTwice] ++ [symmetric])).bytes = .ok one ∧
      one = accepted Cbor2.reference [] ++ accepted Cbor2.reference [symmetricTwice] ++
        accepted Cbor2.reference [symmetric]) ∧
      KeySet.fromSlice Cbor2.reference [0x81, 0xa1, 0x01, 0x04] = .ok one ∧
      (∃ s', KeySet.fromSlice Cbor2.reference [0x81, 0xa2, 0x01, 0x04, 0x61, 0x61, 0x05] = .ok s' ∧
        SameKeys bignumNote s') ∧
      ∃ data, one.toVec Cbor2.reference = .ok data := by
  obtain ⟨hmembers, hexchange, hstrict, hround, hwrite⟩ := members_independent
    Cbor2.reference_readsItems Cbor2.reference_capturesRaw Cbor2.reference_writesValues
    Cbor2.reference_readsBack (by decide)
  have hwf (t : Tree) (h : readAll 256 t.bytes = .ok t) : t.WellFormed := (readAll_ok.mp h).1.1
  have hlimits {t : Tree} (hdepth : t.depth ≤ 128) (hcount : t.count ≤ 100000) :
      Strict.WithinLimits {} t := ⟨hdepth, hcount, by rintro ⟨⟩⟩
  have htwo : KeySet.fromSlice Cbor2.reference (Tree.array (some .imm)
      ([] ++ [symmetricTwice] ++ [symmetric])).bytes = .ok one :=
    (hmembers _ _ _ (hwf _ rfl) (hlimits (by decide) (by decide))).mpr ⟨rfl, by simp [one]⟩
  refine ⟨⟨htwo, ?_⟩, hstrict _ _ rfl, hround bignumNote _ rfl ?_ ?_, hwrite one rfl ?_ ?_ ?_⟩
  · exact (hexchange _ _ _ _ [symmetricTwice] _ _ _ (hwf _ rfl) (hwf _ rfl)
      (hlimits (by decide) (by decide)) (hlimits (by decide) (by decide)) htwo htwo).1
  · rw [bignumNote, List.forall_mem_singleton]
    exact CoseMap.forall_mem_ofList
      (List.forall_mem_cons.mpr ⟨rfl, List.forall_mem_singleton.mpr rfl⟩)
  · exact withinDefaults_of_root (c := Cbor2.reference) (by decide) rfl
  · exact (hwf (toValue one).toTree rfl).fits
  · rw [one, List.forall_mem_singleton]
    exact CoseMap.forall_mem_ofList
      (List.forall_mem_singleton.mpr (Value.Plain.integer _).duplicateFree)
  · exact withinDefaults_of_root (c := Cbor2.reference) (by decide) rfl

/-- The set of the key `{1: 4, "a": undefined}`. -/
def undefinedNote : KeySet := [BTreeMap.ofList [(.int 1, (Label.int 4).toValue),
  (.text "a", .undefined)]]

/-- An undefined value of a valid key is read back as null. -/
theorem not_members_readBack : ¬ ∀ (s : KeySet) (data : Bytes), s.validate = .ok () →
    s.toVec Cbor2.reference = .ok data → WithinDefaults data →
      ∃ s', KeySet.fromSlice Cbor2.reference data = .ok s' ∧ SameKeys s s' := by
  intro h
  have hvec : undefinedNote.toVec Cbor2.reference =
      .ok [0x81, 0xa2, 0x01, 0x04, 0x61, 0x61, 0xf7] := rfl
  obtain ⟨s', hread, hsame⟩ := h undefinedNote _ rfl hvec
    (withinDefaults_of_root (c := Cbor2.reference) (by decide) rfl)
  have hnull : KeySet.fromSlice Cbor2.reference [0x81, 0xa2, 0x01, 0x04, 0x61, 0x61, 0xf7] =
      .ok [BTreeMap.ofList [(.int 1, (Label.int 4).toValue), (.text "a", .null)]] := rfl
  cases hread.symm.trans hnull
  have hkey := (List.forall₂_cons.mp hsame).1 (.text "a")
  exact absurd hkey (by decide)

end KeySet
end Cose2

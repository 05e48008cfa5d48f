import Cose2.CoseMap

/-! # The encoding of a map of labels

`CoseMap::to_vec` writes the keys itself, orders the entries by the bytes it
wrote, and hands a value to the deterministic encoder of the library only where
the plain one could write something else.  `toVec_deterministic` says that this
is the deterministic encoding of the whole map.  The argument has two parts:
a value that is not handed over is in normal form already
(`norm_of_not_needsCanonicalization`), and the order of the written keys is the
order of the encoded labels (`sortEntries_toValue`).
-/
namespace Cose2

open Cbor Cbor2

variable {c : Cbor2}

/-- What the two encoders of the library write when they succeed.  The
deterministic one accepts no value that the plain one refuses, and no map with a
value that it refuses by itself. -/
structure Cbor2.WritesValues (c : Cbor2) : Prop where
  plain : ∀ {v b}, c.toWriter v = .ok b → b = v.encode
  canonical : ∀ {v b}, c.toCanonicalVec v = .ok b → b = v.canonical
  plain_of_canonical : ∀ {v b}, c.toCanonicalVec v = .ok b → ∃ b', c.toWriter v = .ok b'
  canonical_of_map : ∀ {es b}, c.toCanonicalVec (.map es) = .ok b →
    ∀ e ∈ es, ∃ b', c.toCanonicalVec e.2 = .ok b'

theorem Cbor2.reference_writesValues : Cbor2.reference.WritesValues where
  plain h := (Except.ok.inj h).symm
  canonical h := (reference_toCanonicalVec.mp h).2.2
  plain_of_canonical _ := ⟨_, rfl⟩
  canonical_of_map h e he := by
    obtain ⟨hkeys, hdepth, -⟩ := reference_toCanonicalVec.mp h
    rw [Value.distinctKeys, Bool.and_eq_true, Value.distinctKeysEntries_iff] at hkeys
    refine ⟨_, reference_toCanonicalVec.mpr ⟨(hkeys.2 e he).2, ?_, rfl⟩⟩
    have hmem : e.2 ∈ (Value.map _).children := List.mem_flatMap.mpr ⟨e, he, by simp⟩
    exact (Value.depth_lt_of_mem_children hmem).trans hdepth

/-! ### Keys -/

namespace CoseMap

/-- The five branches write the shortest head. -/
theorem writeHead_eq (major argument : Nat) :
    writeHead major argument = head major (preferred argument) argument := by
  unfold writeHead preferred
  by_cases h1 : argument < 24
  · rw [if_pos h1, if_pos h1]
    rfl
  rw [if_neg h1, if_neg h1]
  by_cases h2 : argument < 256
  · rw [if_pos (by omega), if_pos h2]
    rfl
  rw [if_neg (by omega), if_neg h2]
  by_cases h3 : argument < 65536
  · rw [if_pos (by omega), if_pos h3]
    rfl
  rw [if_neg (by omega), if_neg h3]
  by_cases h4 : argument < 4294967296
  · rw [if_pos (by omega), if_pos h4]
    rfl
  rw [if_neg (by omega), if_neg h4]
  rfl

/-- A key is written as its label is encoded, over the whole range of `i64`. -/
theorem writeLabel_eq (l : Label) : writeLabel l = l.toValue.encode := by
  cases l with
  | int i =>
    by_cases hi : 0 ≤ i.toInt
    · have hneg : ¬ i.toInt < 0 := by omega
      rw [writeLabel, if_pos hi, writeHead_eq]
      simp [Label.toValue, Value.encode, Value.toTree, Tree.bytes, Integer.negative,
        Integer.argument, Tree.intMajor, hneg]
    · have hneg : i.toInt < 0 := by omega
      rw [writeLabel, if_neg hi, writeHead_eq]
      simp [Label.toValue, Value.encode, Value.toTree, Tree.bytes, Integer.negative,
        Integer.argument, Tree.intMajor, hneg]
  | text s =>
    rw [writeLabel, writeHead_eq]
    rfl

/-! ### Values -/

theorem anyNeedsCanonicalization_eq_false {vs : List Value} {depth : Nat} :
    anyNeedsCanonicalization vs depth = false ↔
      ∀ v ∈ vs, needsCanonicalization v depth = false := by
  induction vs with
  | nil => simp [anyNeedsCanonicalization]
  | cons v vs ih => simp [anyNeedsCanonicalization, ih]

/-- **A value that the plain encoder may write is in normal form.**  Maps, NaNs and
bignums are all that normalizing changes, and the walk meets each of them. -/
theorem norm_of_not_needsCanonicalization {v : Value} {depth : Nat}
    (h : needsCanonicalization v depth = false) : v.norm = v := by
  induction v generalizing depth with
  | integer | bytes | text | bool | null | simple => rfl
  | float bits =>
    cases depth with
    | zero => cases h
    | succ depth =>
      have hnan : ¬ Value.IsNan bits := of_decide_eq_false h
      rw [Value.norm, Value.normFloat, if_neg hnan]
  | tag n content ih =>
    cases depth with
    | zero => cases h
    | succ depth =>
      simp only [needsCanonicalization, Bool.or_eq_false_iff, decide_eq_false_iff_not] at h
      obtain ⟨⟨h2, h3⟩, hcontent⟩ := h
      rw [Value.norm, ih hcontent]
      cases content with
      | bytes b => simp [Value.reduceTag, h2, h3]
      | integer | text | float | bool | null | simple | tag | array | map => rfl
  | array items ih =>
    cases depth with
    | zero => cases h
    | succ depth =>
      rw [needsCanonicalization, anyNeedsCanonicalization_eq_false] at h
      rw [Value.norm, Value.normItems_eq]
      refine congrArg Value.array ?_
      calc items.map Value.norm = items.map id :=
            List.map_congr_left fun v hv => ih v hv (h v hv)
        _ = items := List.map_id _
  | map entries =>
    cases depth with
    | zero => cases h
    | succ depth => cases h

/-- There is no map in such a value. -/
theorem duplicateFree_of_not_needsCanonicalization {v : Value} {depth : Nat}
    (h : needsCanonicalization v depth = false) : v.DuplicateFree := by
  induction v generalizing depth with
  | tag n content ih =>
    cases depth with
    | zero => cases h
    | succ depth =>
      simp only [needsCanonicalization, Bool.or_eq_false_iff] at h
      exact Value.duplicateFree_tag n (ih h.2)
  | array items ih =>
    cases depth with
    | zero => cases h
    | succ depth =>
      rw [needsCanonicalization, anyNeedsCanonicalization_eq_false] at h
      exact Value.duplicateFree_array fun v hv => ih v hv (h v hv)
  | map entries =>
    cases depth with
    | zero => cases h
    | succ depth => cases h
  | integer | bytes | text | float | bool | null | simple =>
    exact Value.duplicateFree_of_children rfl (by rintro _ ⟨⟩)

/-- Whichever encoder is chosen, the deterministic encoding is written. -/
theorem writeValue_ok (hc : c.WritesValues) {v : Value} {b : Bytes}
    (h : writeValue c v = .ok b) : b = v.canonical := by
  unfold writeValue at h
  by_cases hneeds : needsCanonicalization v c.recursionLimit = true
  · rw [if_pos hneeds, canonicalVec, Except.mapError_eq_ok] at h
    exact hc.canonical h
  · rw [if_neg hneeds, Except.mapError_eq_ok] at h
    rw [Value.canonical, norm_of_not_needsCanonicalization (Bool.eq_false_iff.mpr hneeds)]
    exact hc.plain h

/-- A map that has a key twice is handed over, and refused. -/
theorem duplicateFree_of_writeValue (he : c.EncodesCanonically) {v : Value} {b : Bytes}
    (h : writeValue c v = .ok b) : v.DuplicateFree := by
  unfold writeValue at h
  by_cases hneeds : needsCanonicalization v c.recursionLimit = true
  · rw [if_pos hneeds, canonicalVec, Except.mapError_eq_ok] at h
    exact he.distinct h
  · exact duplicateFree_of_not_needsCanonicalization (Bool.eq_false_iff.mpr hneeds)

theorem writeValue_of_canonical (hc : c.WritesValues) {v : Value} {b : Bytes}
    (h : c.toCanonicalVec v = .ok b) : ∃ b', writeValue c v = .ok b' := by
  unfold writeValue
  by_cases hneeds : needsCanonicalization v c.recursionLimit = true
  · rw [if_pos hneeds]
    exact ⟨b, by rw [canonicalVec, h]; rfl⟩
  · rw [if_neg hneeds]
    obtain ⟨b', hb'⟩ := hc.plain_of_canonical h
    exact ⟨b', by rw [hb']; rfl⟩

/-! ### The whole map -/

/-- `CoseMap`'s `Serialize`: a map of the labels' values, in label order. -/
def toValue (m : CoseMap) : Value := .map (m.entries.map fun e => (e.1.toValue, e.2))

/-- Entry order of `to_vec`: by the bytes of the key. -/
def LabelBefore (e e' : Label × Value) : Prop := Before e.1.toValue.encode e'.1.toValue.encode

instance : DecidableRel LabelBefore := fun e e' =>
  inferInstanceAs (Decidable (Before e.1.toValue.encode e'.1.toValue.encode))

instance : Std.Total LabelBefore := ⟨fun _ _ => le_total _ _⟩

instance : IsTrans (Label × Value) LabelBefore := ⟨fun _ _ _ h h' => le_trans h h'⟩

/-- The entries in the order they are written. -/
def entriesByKey (m : CoseMap) : List (Label × Value) := m.entries.insertionSort LabelBefore

theorem entriesByKey_perm (m : CoseMap) : m.entriesByKey.Perm m.entries :=
  List.perm_insertionSort _ _

/-- Sorting the entries of the normal form is sorting the labels. -/
theorem sortEntries_toValue (m : CoseMap) :
    Value.sortEntries (Value.normEntries (m.entries.map fun e => (e.1.toValue, e.2))) =
      m.entriesByKey.map fun e => (e.1.toValue, e.2.norm) := by
  rw [Value.normEntries_eq, List.map_map, Value.sortEntries, entriesByKey,
    List.map_insertionSort LabelBefore Value.KeyBefore _ _ fun _ _ _ _ => Iff.rfl]
  refine congrArg _ (List.map_congr_left fun e _ => ?_)
  simp only [Function.comp_apply, Label.norm_toValue]

/-- The deterministic encoding of a map, entry by entry. -/
theorem canonical_toValue (m : CoseMap) :
    m.toValue.canonical = writeHead 5 m.length ++
      m.entriesByKey.flatMap fun e => writeLabel e.1 ++ e.2.canonical := by
  have hlength : m.entriesByKey.length = m.length := List.length_insertionSort _ _
  have hbytes : (Tree.bytesEntries (Value.toTreeEntries
      (m.entriesByKey.map fun e => (e.1.toValue, e.2.norm)))) =
      m.entriesByKey.flatMap fun e => writeLabel e.1 ++ e.2.canonical := by
    rw [Value.toTreeEntries_eq, Tree.bytesEntries_eq, List.map_map, List.flatMap_map]
    refine List.flatMap_congr fun e _ => ?_
    rw [writeLabel_eq]
    rfl
  rw [Value.canonical, toValue, Value.norm, sortEntries_toValue, Value.encode, Value.toTree,
    Tree.bytes, hbytes, writeHead_eq]
  simp [Value.toTreeEntries_eq, hlength, Tree.opening, Tree.closing]

/-- `to_vec` writes the sorted entries one by one. -/
theorem toVec_eq (m : CoseMap) : m.toVec c = do
    let entries ← m.entriesByKey.mapM fun e => writeEntry c (writeLabel e.1, e.2)
    return writeHead 5 m.length ++ entries.flatten := by
  have hsort : (m.entries.map fun e => (writeLabel e.1, e.2)).insertionSort
      (fun e e' => Before e.1 e'.1) = m.entriesByKey.map fun e => (writeLabel e.1, e.2) := by
    rw [entriesByKey, List.map_insertionSort LabelBefore fun e e' => Before e.1 e'.1]
    intro e _ e' _
    rw [LabelBefore, ← writeLabel_eq, ← writeLabel_eq]
  simp only [toVec, hsort, List.mapM_map]
  rfl

theorem mapM_writeEntry_ok (hc : c.WritesValues) {es : List (Label × Value)} {bss : List Bytes}
    (h : (es.mapM fun e => writeEntry c (writeLabel e.1, e.2)) = .ok bss) :
    bss = es.map fun e => writeLabel e.1 ++ e.2.canonical := by
  simp only [Except.mapM_eq_ok, writeEntry, Except.bind_eq_ok, Except.pure_eq_ok] at h
  induction h with
  | nil => rfl
  | cons hentry _ ih =>
    obtain ⟨b, hb, rfl⟩ := hentry
    rw [List.map_cons, ← ih, writeValue_ok hc hb]

/-- No map in a value of a map that is written has a key twice. -/
theorem duplicateFree_of_toVec (he : c.EncodesCanonically) {m : CoseMap} {b : Bytes}
    (h : m.toVec c = .ok b) : ∀ e ∈ m.entries, e.2.DuplicateFree := by
  intro e hmem
  rw [toVec_eq] at h
  obtain ⟨bss, hbss, -⟩ := Except.bind_eq_ok.mp h
  rw [Except.mapM_eq_ok] at hbss
  obtain ⟨bs, -, hentry⟩ := Tree.forall₂_mem_right hbss.flip (m.entriesByKey_perm.mem_iff.mpr hmem)
  obtain ⟨value, hvalue, -⟩ := Except.bind_eq_ok.mp hentry
  exact duplicateFree_of_writeValue he hvalue

/-- `to_vec` refuses only what the library refuses. -/
theorem toVec_of_values (hc : c.WritesValues) {m : CoseMap}
    (h : ∀ e ∈ m.entries, ∃ b, c.toCanonicalVec e.2 = .ok b) : ∃ b, m.toVec c = .ok b := by
  have hvalue (e : Label × Value) (he : e ∈ m.entriesByKey) :
      ∃ b', writeEntry c (writeLabel e.1, e.2) = .ok b' := by
    obtain ⟨b₁, h₁⟩ := h e (m.entriesByKey_perm.mem_iff.mp he)
    obtain ⟨b₂, h₂⟩ := writeValue_of_canonical hc h₁
    exact ⟨writeLabel e.1 ++ b₂, by rw [writeEntry, h₂]; rfl⟩
  obtain ⟨bss, hbss⟩ := Except.exists_mapM_eq_ok hvalue
  exact ⟨_, by rw [toVec_eq, hbss]; rfl⟩

/-- **What `to_vec` returns is the deterministic encoding of the map**: the bytes
that the library returns for the same map whenever it accepts it, a shortest head
and then the entries in bytewise order of their encoded keys, each value encoded
deterministically in its turn. -/
theorem toVec_deterministic (hc : c.WritesValues) (m : CoseMap) :
    (∀ b, c.canonicalVec m.toValue = .ok b → m.toVec c = .ok b) ∧
      ∀ b, m.toVec c = .ok b → b = m.toValue.canonical ∧
        ∃ es : List (Label × Value), es.Perm m.entries ∧
          es.Pairwise (fun e e' => Before e.1.toValue.encode e'.1.toValue.encode) ∧
          b = head 5 (preferred m.length) m.length ++
            es.flatMap fun e => e.1.toValue.encode ++ e.2.canonical := by
  have hwritten (b : Bytes) (h : m.toVec c = .ok b) : b = m.toValue.canonical := by
    rw [toVec_eq] at h
    obtain ⟨bss, hbss, h⟩ := Except.bind_eq_ok.mp h
    rw [← Except.pure_eq_ok.mp h, canonical_toValue, mapM_writeEntry_ok hc hbss,
      List.flatMap_def]
  constructor
  · intro b h
    rw [canonicalVec, Except.mapError_eq_ok] at h
    obtain ⟨b', hb'⟩ := toVec_of_values hc fun e he =>
      hc.canonical_of_map h _ (List.mem_map_of_mem he)
    rw [hb', hwritten b' hb', hc.canonical h]
  · intro b h
    have hb := hwritten b h
    refine ⟨hb, m.entriesByKey, m.entriesByKey_perm, List.pairwise_insertionSort LabelBefore _, ?_⟩
    rw [hb, canonical_toValue, writeHead_eq]
    simp only [writeLabel_eq]

/-- Labels at both ends of their range, a map out of order and a bignum that reduces. -/
def extremes : CoseMap := BTreeMap.ofList [
  (.int (-9223372036854775808), .map [(.text "bb", .null), (.text "a", .float 0x7ff8000000000001)]),
  (.int 9223372036854775807, .array [.tag 2 (.bytes [0, 0, 1]), .float 0x3ff8000000000000]),
  (.text "", .tag 1 (.bytes [7]))]

theorem extremes_deterministic :
    extremes.toVec Cbor2.reference = .ok extremes.toValue.canonical :=
  (toVec_deterministic Cbor2.reference_writesValues extremes).1 _ rfl

end CoseMap
end Cose2

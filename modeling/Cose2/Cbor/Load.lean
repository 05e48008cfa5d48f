import Cose2.Cbor.Regular

/-! # Values that a decoder reduces

A decoder may reduce a value while it reads it: a bignum that fits becomes an integer, and
undefined becomes null.  `Loads` says how far it may go; `load` goes as far as it can.
-/
namespace Cbor
namespace Value

/-- What a decoder can return: a number that fits is an integer, and nothing is undefined. -/
structure Reduced (v : Value) : Prop where
  defined : v.Defined
  integer : ∀ i, v.norm = .integer i → v = .integer i

/-- The value `v` is read from an item of the value `d`: it has the normal form of `d` with
null in place of undefined. -/
structure Loads (d v : Value) : Prop where
  same : v.norm = d.nullify.norm
  reduced : v.Reduced
  depth : v.toTree.depth ≤ d.toTree.depth
  writable : d.Writable → v.Writable

mutual
/-- Bignums reduced, and null in place of undefined; the entries of maps keep their order. -/
@[simp] def load : Value → Value
  | .simple s => if s.val = 23 then .null else .simple s
  | .tag n content => reduceTag n content.load
  | .array items => .array (loadItems items)
  | .map entries => .map (loadEntries entries)
  | .integer i => .integer i
  | .bytes b => .bytes b
  | .text s => .text s
  | .float bits => .float bits
  | .bool b => .bool b
  | .null => .null

/-- `load` of each element. -/
@[simp] def loadItems : List Value → List Value
  | [] => []
  | v :: vs => v.load :: loadItems vs

/-- `load` of each key and value. -/
@[simp] def loadEntries : List (Value × Value) → List (Value × Value)
  | [] => []
  | (k, v) :: es => (k.load, v.load) :: loadEntries es
end

theorem loadItems_eq (vs : List Value) : loadItems vs = vs.map load := by
  induction vs with
  | nil => rfl
  | cons v vs ih => rw [loadItems, ih, List.map_cons]

theorem loadEntries_eq (es : List (Value × Value)) :
    loadEntries es = es.map fun e => (e.1.load, e.2.load) := by
  induction es with
  | nil => rfl
  | cons e es ih =>
    obtain ⟨k, v⟩ := e
    rw [loadEntries, ih, List.map_cons]

theorem load_simple (s : Simple) : (simple s).load = (simple s).nullify := rfl

theorem norm_load (v : Value) : v.load.norm = v.nullify.norm := by
  induction v with
  | simple s => rw [load_simple]
  | tag n content ih => rw [load, nullify, norm, norm_reduceTag_eq, ih]
  | array items ih =>
    rw [load, nullify, norm, norm, normItems_eq, normItems_eq, loadItems_eq, nullifyItems_eq,
      List.map_map, List.map_map]
    exact congrArg array (List.map_congr_left ih)
  | map entries ih =>
    rw [load, nullify, norm, norm, normEntries_eq, normEntries_eq, loadEntries_eq,
      nullifyEntries_eq, List.map_map, List.map_map]
    refine congrArg (fun es => map (sortEntries es)) (List.map_congr_left fun e he => ?_)
    exact Prod.ext (ih e he).1 (ih e he).2
  | integer | bytes | text | float | bool | null => rfl

theorem defined_load (v : Value) : v.load.Defined := by
  induction v with
  | simple s =>
    rw [load_simple]
    exact defined_nullify _
  | tag n content ih => rw [Defined, load, nullify_reduceTag, ih]
  | array items ih =>
    rw [load, loadItems_eq, defined_array, List.forall_mem_map]
    exact ih
  | map entries ih =>
    rw [load, loadEntries_eq, defined_map, List.forall_mem_map]
    exact ih
  | integer | bytes | text | float | bool | null => rfl

theorem depth_reduceTag_le (n : UInt64) (v : Value) :
    (reduceTag n v).toTree.depth ≤ v.toTree.depth + 1 := by
  rcases reduceTag_cases n v with heq | ⟨-, b, -, ⟨i, heq⟩ | heq⟩
  · rw [heq, toTree, Tree.depth]
  · rw [heq]
    exact Nat.zero_le _
  · rw [heq]
    exact Nat.le_add_left _ _

theorem depth_norm_le (v : Value) : v.norm.toTree.depth ≤ v.toTree.depth := by
  have hchild {u w : Value} (hu : u ∈ w.children) (ih : u.norm.toTree.depth ≤ u.toTree.depth) :
      ∃ t ∈ w.toTree.children, u.norm.toTree.depth ≤ t.depth := by
    rw [children_toTree]
    exact ⟨_, List.mem_map_of_mem hu, ih⟩
  induction v with
  | tag n content ih =>
    have hle := depth_reduceTag_le n content.norm
    rw [norm, toTree, Tree.depth]
    omega
  | array items ih =>
    rw [norm, normItems_eq]
    refine Tree.depth_le_of_children fun s hs => ?_
    rw [children_toTree, children, List.map_map] at hs
    obtain ⟨u, hu, rfl⟩ := List.mem_map.mp hs
    exact hchild (w := array items) hu (ih u hu)
  | map entries ih =>
    rw [norm]
    refine Tree.depth_le_of_children fun s hs => ?_
    rw [children_toTree] at hs
    obtain ⟨u, hu, rfl⟩ := List.mem_map.mp hs
    obtain ⟨e, he, hu⟩ := List.mem_flatMap.mp hu
    obtain ⟨e', he', rfl⟩ := mem_sort_norm.mp he
    have hmem (w : Value) (hw : w = e'.1 ∨ w = e'.2) : w ∈ (map entries).children :=
      List.mem_flatMap.mpr ⟨e', he', by simpa using hw⟩
    rcases List.mem_pair.mp hu with rfl | rfl
    · exact hchild (hmem _ (.inl rfl)) (ih e' he').1
    · exact hchild (hmem _ (.inr rfl)) (ih e' he').2
  | float bits => exact Nat.zero_le _
  | integer | bytes | text | bool | null | simple => exact Nat.le_refl _

theorem depth_load_le (v : Value) : v.load.toTree.depth ≤ v.toTree.depth := by
  induction v with
  | simple s =>
    rcases nullify_simple s with h | h
    · rw [load_simple, h]
      exact Nat.zero_le _
    · rw [load_simple, h]
  | tag n content ih =>
    have hle := depth_reduceTag_le n content.load
    rw [load, toTree, Tree.depth]
    omega
  | array items ih =>
    rw [load, toTree, toTree, Tree.depth, Tree.depth]
    induction items with
    | nil => exact Nat.le_refl _
    | cons v vs ihs =>
      rw [List.forall_mem_cons] at ih
      have hone := ih.1
      have hrest := ihs ih.2
      rw [loadItems, toTreeItems, toTreeItems, Tree.depthItems, Tree.depthItems]
      omega
  | map entries ih =>
    rw [load, toTree, toTree, Tree.depth, Tree.depth]
    induction entries with
    | nil => exact Nat.le_refl _
    | cons e es ihs =>
      obtain ⟨k, v⟩ := e
      rw [List.forall_mem_cons] at ih
      obtain ⟨hk, hv⟩ := ih.1
      have hrest := ihs ih.2
      dsimp only at hk hv
      rw [loadEntries, toTreeEntries, toTreeEntries, Tree.depthEntries, Tree.depthEntries]
      omega
  | integer | bytes | text | float | bool | null => exact Nat.le_refl _

theorem Writable.load {v : Value} (h : v.Writable) : v.load.Writable := by
  induction v with
  | simple s =>
    rw [load_simple]
    exact h.nullify
  | tag n content ih => exact (ih (writable_tag.mp h)).reduceTag
  | array items ih =>
    rw [writable_array] at h
    rw [Value.load, loadItems_eq, writable_array, List.length_map, List.forall_mem_map]
    exact ⟨h.1, fun v hv => ih v hv (h.2 v hv)⟩
  | map entries ih =>
    rw [writable_map] at h
    rw [Value.load, loadEntries_eq, writable_map, List.length_map, List.forall_mem_map]
    exact ⟨h.1, fun e he => ⟨(ih e he).1 (h.2 e he).1, (ih e he).2 (h.2 e he).2⟩⟩
  | integer | bytes | text | float | bool | null => exact h

/-- There is no bignum left that fits an integer. -/
theorem load_eq_integer {v : Value} {i : Integer} (h : v.load.norm = .integer i) :
    v.load = .integer i := by
  cases v with
  | tag n content =>
    rw [load, norm_reduceTag_eq] at h
    rcases reduceTag_cases n content.load.norm with heq | ⟨-, b, hb, -⟩
    · rw [heq] at h
      cases h
    · rw [load, eq_bytes_of_norm hb]
      rwa [hb] at h
  | simple s =>
    rcases nullify_simple s with heq | heq
    · rw [load_simple, heq] at h
      cases h
    · rw [load_simple, heq] at h
      cases h
  | integer => exact h
  | bytes | text | float | bool | null | array | map => cases h

theorem reduced_load (v : Value) : v.load.Reduced :=
  ⟨v.defined_load, fun _ h => load_eq_integer h⟩

theorem loads_load (v : Value) : v.Loads v.load where
  same := v.norm_load
  reduced := v.reduced_load
  depth := v.depth_load_le
  writable h := h.load

/-- In a normal form there is nothing to reduce but undefined. -/
theorem load_of_norm {v : Value} (h : v.norm = v) : v.load = v.nullify := by
  induction v with
  | simple s => exact load_simple s
  | tag n content ih =>
    have hcontent := norm_of_mem_children h (List.mem_singleton_self content)
    rw [norm, hcontent] at h
    rw [load, ih hcontent, ← nullify_reduceTag, h]
  | array items ih =>
    rw [load, nullify, loadItems_eq, nullifyItems_eq]
    exact congrArg array (List.map_congr_left fun v hv => ih v hv (norm_of_mem_children h hv))
  | map entries ih =>
    rw [load, nullify, loadEntries_eq, nullifyEntries_eq]
    refine congrArg map (List.map_congr_left fun e he => ?_)
    have hkey : e.1 ∈ (map entries).children := List.mem_flatMap.mpr ⟨e, he, by simp⟩
    have hvalue : e.2 ∈ (map entries).children := List.mem_flatMap.mpr ⟨e, he, by simp⟩
    rw [(ih e he).1 (norm_of_mem_children h hkey), (ih e he).2 (norm_of_mem_children h hvalue)]
  | integer | bytes | text | float | bool | null => rfl

theorem reduced_asRead (v : Value) : v.asRead.Reduced := by
  rw [Value.asRead, ← load_of_norm v.norm_norm]
  exact reduced_load _

/-! ### Looking for a key that is there twice -/

mutual
/-- Whether the encoded keys differ in every map of the value. -/
def distinctKeys : Value → Bool
  | .tag _ content => content.distinctKeys
  | .array items => distinctKeysItems items
  | .map entries =>
    decide (entries.map fun e => e.1.canonical).Nodup && distinctKeysEntries entries
  | .integer _ | .bytes _ | .text _ | .float _ | .bool _ | .null | .simple _ => true

/-- `distinctKeys` of each element. -/
def distinctKeysItems : List Value → Bool
  | [] => true
  | v :: vs => v.distinctKeys && distinctKeysItems vs

/-- `distinctKeys` of each key and value. -/
def distinctKeysEntries : List (Value × Value) → Bool
  | [] => true
  | (k, v) :: es => k.distinctKeys && v.distinctKeys && distinctKeysEntries es
end

theorem distinctKeysItems_iff {vs : List Value} :
    distinctKeysItems vs = true ↔ ∀ v ∈ vs, v.distinctKeys = true := by
  induction vs with
  | nil => simp [distinctKeysItems]
  | cons v vs ih => rw [distinctKeysItems, Bool.and_eq_true, ih, List.forall_mem_cons]

theorem distinctKeysEntries_iff {es : List (Value × Value)} :
    distinctKeysEntries es = true ↔
      ∀ e ∈ es, e.1.distinctKeys = true ∧ e.2.distinctKeys = true := by
  induction es with
  | nil => simp [distinctKeysEntries]
  | cons e es ih =>
    obtain ⟨k, v⟩ := e
    rw [distinctKeysEntries, Bool.and_eq_true, Bool.and_eq_true, ih, List.forall_mem_cons]

theorem duplicateFree_of_distinctKeys {v : Value} (h : v.distinctKeys = true) :
    v.DuplicateFree := by
  induction v with
  | tag n content ih => exact duplicateFree_tag n (ih h)
  | array items ih =>
    have hitems := distinctKeysItems_iff.mp h
    exact duplicateFree_array fun v hv => ih v hv (hitems v hv)
  | map entries ih =>
    rw [distinctKeys, Bool.and_eq_true, decide_eq_true_eq] at h
    have hentries := distinctKeysEntries_iff.mp h.2
    refine duplicateFree_map ?_ fun e he =>
      ⟨(ih e he).1 (hentries e he).1, (ih e he).2 (hentries e he).2⟩
    refine List.Nodup.of_map encode ?_
    rw [List.map_map]
    exact h.1
  | integer i => exact (Plain.integer i).duplicateFree
  | bytes b => exact (Plain.bytes b).duplicateFree
  | text s => exact (Plain.text s).duplicateFree
  | null => exact Plain.null.duplicateFree
  | float | bool | simple => exact duplicateFree_of_children rfl (by rintro _ ⟨⟩)

/-- Keys in memory are told apart by their encodings. -/
theorem distinctKeys_of_duplicateFree {v : Value} (hw : v.Writable) (h : v.DuplicateFree) :
    v.distinctKeys = true := by
  induction v with
  | tag n content ih =>
    exact ih (writable_tag.mp hw) (h.child (List.mem_singleton_self _))
  | array items ih =>
    exact distinctKeysItems_iff.mpr fun v hv =>
      ih v hv ((writable_array.mp hw).2 v hv) (h.child hv)
  | map entries ih =>
    have hwritable := (writable_map.mp hw).2
    have hchild {e : Value × Value} (he : e ∈ entries) :
        e.1.DuplicateFree ∧ e.2.DuplicateFree :=
      ⟨h.child (List.mem_flatMap.mpr ⟨e, he, by simp⟩),
        h.child (List.mem_flatMap.mpr ⟨e, he, by simp⟩)⟩
    rw [distinctKeys, Bool.and_eq_true, decide_eq_true_eq, distinctKeysEntries_iff]
    refine ⟨?_, fun e he => ⟨(ih e he).1 (hwritable e he).1 (hchild he).1,
      (ih e he).2 (hwritable e he).2 (hchild he).2⟩⟩
    refine (List.nodup_map_iff_inj_on h.keys.of_map).mpr fun e he e' he' heq => ?_
    have hnorm := (canonical_inj (hwritable e he).1 (hwritable e' he').1).mp heq
    exact List.inj_on_of_nodup_map h.keys he he' hnorm
  | integer | bytes | text | float | bool | null | simple => rfl

end Value
end Cbor

import Cose2.Cbor.Undefined

/-! # Values as a deterministic encoder writes them

A deterministic encoder refuses a map that has a key twice, and so does a decoder, to which
undefined and null are one key.  What is read of the encoding is the value up to that, if no
map in it has a key twice once it is read.  Such a value, in normal form, is *regular*.
-/
namespace Cbor

/-- A map in which no key is written twice. -/
def Tree.KeyedOnce : Tree → Prop
  | .map _ entries => (entries.map Prod.fst).Nodup
  | _ => True

namespace Value

/-- No map in the value has two keys with the same normal form. -/
def DuplicateFree (v : Value) : Prop := v.norm.toTree.All Tree.KeyedOnce

/-- In normal form, of lengths that fit a head, and without duplicate keys as it is read. -/
structure Regular (v : Value) : Prop where
  normal : v.norm = v
  writable : v.Writable
  apart : v.nullify.DuplicateFree

theorem regular_norm {v : Value} (hw : v.norm.Writable) (hd : v.asRead.DuplicateFree) :
    v.norm.Regular :=
  ⟨v.norm_norm, hw, hd⟩

/-- The values directly inside a value. -/
def children : Value → List Value
  | .tag _ content => [content]
  | .array items => items
  | .map entries => entries.flatMap fun e => [e.1, e.2]
  | _ => []

theorem children_toTree (v : Value) : v.toTree.children = v.children.map toTree := by
  cases v with
  | tag => rfl
  | array items => rw [toTree, toTreeItems_eq]; rfl
  | map entries =>
    rw [toTree, toTreeEntries_eq, Tree.children, children, List.map_flatMap, List.flatMap_map]
    rfl
  | integer | bytes | text | float | bool | null | simple => rfl

/-- The entries of a normal form are in the order of their keys. -/
theorem pairwise_of_norm {es : List (Value × Value)} (h : (map es).norm = map es) :
    es.Pairwise KeyBefore := by
  rw [norm, map.injEq] at h
  rw [← h]
  exact List.pairwise_insertionSort KeyBefore _

/-- Other values under the same keys stay in their order. -/
theorem sortEntries_map {f : Value → Value} {es : List (Value × Value)}
    (h : es.Pairwise KeyBefore) :
    sortEntries (es.map fun e => (e.1, f e.2)) = es.map fun e => (e.1, f e.2) := by
  have hsorted : (es.map fun e => (e.1, f e.2)).Pairwise KeyBefore := List.pairwise_map.mpr h
  exact hsorted.insertionSort_eq

theorem depth_lt_of_mem_children {v u : Value} (h : u ∈ v.children) :
    u.toTree.depth < v.toTree.depth := by
  refine Tree.depth_lt_of_mem ?_
  rw [children_toTree]
  exact List.mem_map_of_mem h

theorem depth_array_le {vs : List Value} {n : Nat} (h : ∀ v ∈ vs, v.toTree.depth ≤ n) :
    (array vs).toTree.depth ≤ n + 1 := by
  rw [← Nat.lt_succ_iff, Nat.succ_eq_add_one, Tree.depth_lt_succ_iff, children_toTree,
    List.forall_mem_map]
  exact fun v hv => Nat.lt_succ_of_le (h v hv)

/-- What is inside a normal form is in normal form. -/
theorem norm_of_mem_children {v u : Value} (h : v.norm = v) (hu : u ∈ v.children) :
    u.norm = u := by
  cases v with
  | integer | bytes | text | float | bool | null | simple => cases hu
  | tag n content =>
    rw [List.mem_singleton.mp hu]
    rw [norm] at h
    rcases reduceTag_cases n content.norm with heq | ⟨_, b, hb, ⟨i, heq⟩ | heq⟩
    · rw [heq, tag.injEq] at h
      exact h.2
    · rw [heq] at h
      cases h
    · rw [heq, tag.injEq] at h
      rw [← h.2]
      rfl
  | array items =>
    rw [norm, normItems_eq, array.injEq] at h
    rw [children, ← h, List.mem_map] at hu
    obtain ⟨w, -, rfl⟩ := hu
    exact norm_norm w
  | map entries =>
    rw [norm, map.injEq] at h
    obtain ⟨e, he, hu⟩ := List.mem_flatMap.mp hu
    rw [← h, mem_sort_norm] at he
    obtain ⟨e', -, rfl⟩ := he
    simp only [List.mem_cons, List.not_mem_nil, or_false] at hu
    rcases hu with rfl | rfl
    · exact norm_norm e'.1
    · exact norm_norm e'.2

/-- A bignum that becomes an integer loses its tag, so normalizing takes away one level at
most. -/
theorem depth_le_norm (v : Value) : v.toTree.depth ≤ v.norm.toTree.depth + 1 := by
  have hbelow {v : Value} (h : ∀ u ∈ v.children, u.norm ∈ v.norm.children)
      (ih : ∀ u ∈ v.children, u.toTree.depth ≤ u.norm.toTree.depth + 1) :
      v.toTree.depth ≤ v.norm.toTree.depth + 1 := by
    rw [← Nat.lt_succ_iff, Tree.depth_lt_succ_iff, children_toTree, List.forall_mem_map]
    intro u hu
    have hlt := depth_lt_of_mem_children (h u hu)
    have hle := ih u hu
    omega
  induction v with
  | integer | bytes | text | float | bool | null | simple => exact Nat.zero_le _
  | tag n content ih =>
    rcases reduceTag_cases n content.norm with heq | ⟨-, b, hb, -⟩
    · refine hbelow ?_ (List.forall_mem_singleton.mpr ih)
      rw [norm, heq]
      exact List.forall_mem_singleton.mpr (List.mem_singleton_self _)
    · rw [eq_bytes_of_norm hb]
      exact Nat.le_add_left _ _
  | array items ih =>
    refine hbelow ?_ ih
    rw [norm, normItems_eq]
    exact fun u hu => List.mem_map_of_mem hu
  | map entries ih =>
    refine hbelow ?_ ?_
    · intro u hu
      obtain ⟨e, he, hu⟩ := List.mem_flatMap.mp hu
      rw [norm]
      refine List.mem_flatMap.mpr ⟨_, mem_sort_norm.mpr ⟨e, he, rfl⟩, ?_⟩
      rw [List.mem_pair] at hu ⊢
      exact hu.imp (congrArg norm) (congrArg norm)
    · intro u hu
      obtain ⟨e, he, hu⟩ := List.mem_flatMap.mp hu
      rcases List.mem_pair.mp hu with rfl | rfl
      · exact (ih e he).1
      · exact (ih e he).2

/-- An item without parts has no keys. -/
theorem duplicateFree_of_children {v : Value} (h : v.norm.toTree.children = [])
    (hmap : ∀ es, v.norm ≠ .map es) : v.DuplicateFree := by
  refine .node ?_ fun s hs => ?_
  · cases hv : v.norm with
    | map es => exact absurd hv (hmap es)
    | integer | bytes | text | float | bool | null | simple | tag | array => exact trivial
  · rw [h] at hs
    cases hs

theorem duplicateFree_array {vs : List Value} (h : ∀ v ∈ vs, v.DuplicateFree) :
    (array vs).DuplicateFree := by
  rw [DuplicateFree, norm, normItems_eq, toTree, toTreeItems_eq]
  refine .node trivial ?_
  rw [Tree.children, List.map_map, List.forall_mem_map]
  exact h

theorem duplicateFree_tag (n : UInt64) {v : Value} (h : v.DuplicateFree) :
    (tag n v).DuplicateFree := by
  rw [DuplicateFree, norm]
  rcases reduceTag_cases n v.norm with heq | ⟨-, b, -, ⟨i, heq⟩ | heq⟩
  · rw [heq]
    exact .node trivial (List.forall_mem_singleton.mpr h)
  · rw [heq]
    exact .node trivial fun s hs => absurd hs List.not_mem_nil
  · rw [heq]
    exact .node trivial (List.forall_mem_singleton.mpr
      (.node trivial fun s hs => absurd hs List.not_mem_nil))

theorem duplicateFree_map {es : List (Value × Value)} (hkeys : (es.map fun e => e.1.norm).Nodup)
    (h : ∀ e ∈ es, e.1.DuplicateFree ∧ e.2.DuplicateFree) : (map es).DuplicateFree := by
  have hsort := (sortEntries_perm (normEntries es)).map fun e => e.1.toTree
  rw [DuplicateFree, norm, toTree, toTreeEntries_eq]
  refine .node ?_ ?_
  · rw [Tree.KeyedOnce, List.map_map]
    refine hsort.nodup_iff.mpr ?_
    have htrees := hkeys.map toTree_injective
    rw [List.map_map] at htrees
    rwa [normEntries_eq, List.map_map]
  · rw [Tree.children, forall_mem_entries, List.forall_mem_map]
    intro e he
    obtain ⟨e', he', rfl⟩ := mem_sort_norm.mp he
    exact h e' he'

/-- No key is written twice inside. -/
theorem DuplicateFree.child {v u : Value} (h : v.DuplicateFree) (hu : u ∈ v.children) :
    u.DuplicateFree := by
  have hchild {w : Value} (hw : w ∈ v.norm.children) : w.toTree.All Tree.KeyedOnce := by
    refine Tree.All.child h ?_
    rw [children_toTree]
    exact List.mem_map_of_mem hw
  cases v with
  | integer | bytes | text | float | bool | null | simple => cases hu
  | tag n content =>
    rw [List.mem_singleton.mp hu]
    rw [norm] at hchild
    rcases reduceTag_cases n content.norm with heq | ⟨-, b, hb, -⟩
    · rw [heq] at hchild
      exact hchild (List.mem_singleton_self _)
    · rw [DuplicateFree, hb]
      exact .node trivial fun s hs => absurd hs List.not_mem_nil
  | array items =>
    rw [norm, normItems_eq] at hchild
    exact hchild (List.mem_map_of_mem hu)
  | map entries =>
    obtain ⟨e, he, hu⟩ := List.mem_flatMap.mp hu
    have hsort : (e.1.norm, e.2.norm) ∈ sortEntries (normEntries entries) :=
      mem_sort_norm.mpr ⟨e, he, rfl⟩
    rw [norm] at hchild
    refine hchild (List.mem_flatMap.mpr ⟨_, hsort, ?_⟩)
    simp only [List.mem_cons, List.not_mem_nil, or_false] at hu ⊢
    exact hu.imp (congrArg norm) (congrArg norm)

theorem DuplicateFree.keys {es : List (Value × Value)} (h : (map es).DuplicateFree) :
    (es.map fun e => e.1.norm).Nodup := by
  have honce := Tree.All.head h
  rw [norm, toTree, toTreeEntries_eq, Tree.KeyedOnce, List.map_map] at honce
  have hsort := (sortEntries_perm (normEntries es)).map fun e => e.1.toTree
  have hkeys := hsort.nodup_iff.mp honce
  rw [normEntries_eq, List.map_map] at hkeys
  refine List.Nodup.of_map toTree ?_
  rwa [List.map_map]

/-! ### Values that are in normal form already -/

/-- Integers, bytes, texts and null, and arrays of them. -/
inductive Plain : Value → Prop
  | integer (i : Integer) : Plain (.integer i)
  | bytes (b : Bytes) : Plain (.bytes b)
  | text (s : String) : Plain (.text s)
  | null : Plain .null
  | array {vs : List Value} (h : ∀ v ∈ vs, Plain v) : Plain (.array vs)

theorem Plain.norm {v : Value} (h : Plain v) : v.norm = v := by
  induction h with
  | integer | bytes | text | null => rfl
  | @array vs _ ih =>
    rw [Value.norm, normItems_eq, List.map_congr_left ih, List.map_id']

theorem Plain.duplicateFree {v : Value} (h : Plain v) : v.DuplicateFree := by
  induction h with
  | integer | bytes | text | null =>
    exact duplicateFree_of_children rfl (by rintro _ ⟨⟩)
  | array _ ih => exact duplicateFree_array ih

/-- Strings are in normal form as they are read. -/
theorem plain_of_strValue {text : Bool} {payload : Bytes} {v : Value}
    (h : Tree.strValue text payload = some v) : v.Plain := by
  cases text with
  | false =>
    cases h
    exact .bytes payload
  | true =>
    obtain ⟨s, -, rfl⟩ := Option.map_eq_some_iff.mp h
    exact .text s

theorem duplicateFree_nullify_simple (s : Simple) : (simple s).nullify.DuplicateFree := by
  rcases nullify_simple s with h | h
  · rw [h]
    exact Plain.null.duplicateFree
  · rw [h]
    exact duplicateFree_of_children rfl (by rintro _ ⟨⟩)

theorem Plain.defined {v : Value} (h : Plain v) : v.Defined := by
  induction h with
  | integer | bytes | text | null => rfl
  | array _ ih => exact defined_array.mpr ih

theorem Plain.regular {v : Value} (h : Plain v) (hw : v.Writable) : v.Regular :=
  ⟨h.norm, hw, h.defined.symm ▸ h.duplicateFree⟩

/-! ### Regular values -/

theorem children_nullify (v : Value) : v.nullify.children = v.children.map nullify := by
  cases v with
  | simple s =>
    rcases nullify_simple s with h | h
    · rw [h]
      rfl
    · rw [h]
      rfl
  | tag => rfl
  | array items => exact nullifyItems_eq items
  | map entries =>
    rw [nullify, nullifyEntries_eq, children, children, List.map_flatMap, List.flatMap_map]
    rfl
  | integer | bytes | text | float | bool | null => rfl

/-- What is inside a regular value is regular. -/
theorem Regular.child {v u : Value} (h : v.Regular) (hu : u ∈ v.children) : u.Regular := by
  have hmem : u.toTree ∈ v.toTree.children := by
    rw [children_toTree]
    exact List.mem_map_of_mem hu
  have hread : u.nullify ∈ v.nullify.children := by
    rw [children_nullify]
    exact List.mem_map_of_mem hu
  exact ⟨norm_of_mem_children h.normal hu, (Tree.all_iff.mp h.writable).2 _ hmem,
    h.apart.child hread⟩

/-- Keys that differ as they are read differ. -/
theorem duplicateFree_of_nullify {v : Value} (hnorm : v.norm = v)
    (h : v.nullify.DuplicateFree) : v.DuplicateFree := by
  induction v with
  | tag n content ih =>
    have hmem : content ∈ (tag n content).children := List.mem_singleton_self _
    have hread := h.child (children_nullify _ ▸ List.mem_map_of_mem hmem)
    exact duplicateFree_tag n (ih (norm_of_mem_children hnorm hmem) hread)
  | array items ih =>
    refine duplicateFree_array fun v hv => ?_
    exact ih v hv (norm_of_mem_children hnorm hv)
      (h.child (children_nullify _ ▸ List.mem_map_of_mem hv))
  | map entries ih =>
    have hmem {e : Value × Value} (he : e ∈ entries) :
        e.1 ∈ (map entries).children ∧ e.2 ∈ (map entries).children :=
      ⟨List.mem_flatMap.mpr ⟨e, he, by simp⟩, List.mem_flatMap.mpr ⟨e, he, by simp⟩⟩
    refine duplicateFree_map ?_ fun e he => ?_
    · have hkeys := h.keys
      rw [nullifyEntries_eq, List.map_map] at hkeys
      rw [List.map_congr_left fun e he => norm_of_mem_children hnorm (hmem he).1]
      refine List.Nodup.of_map (fun k => k.nullify.norm) ?_
      rwa [List.map_map]
    · have hchild {u : Value} (hu : u ∈ (map entries).children) : u.nullify.DuplicateFree :=
        h.child (children_nullify _ ▸ List.mem_map_of_mem hu)
      exact ⟨(ih e he).1 (norm_of_mem_children hnorm (hmem he).1) (hchild (hmem he).1),
        (ih e he).2 (norm_of_mem_children hnorm (hmem he).2) (hchild (hmem he).2)⟩
  | integer i => exact (Plain.integer i).duplicateFree
  | bytes b => exact (Plain.bytes b).duplicateFree
  | text s => exact (Plain.text s).duplicateFree
  | null => exact Plain.null.duplicateFree
  | float | bool | simple => exact duplicateFree_of_children rfl (by rintro _ ⟨⟩)

theorem Regular.duplicateFree {v : Value} (h : v.Regular) : v.DuplicateFree :=
  duplicateFree_of_nullify h.normal h.apart

/-! ### Keys as they are read -/

theorem duplicateFree_norm {v : Value} : v.norm.DuplicateFree ↔ v.DuplicateFree := by
  rw [DuplicateFree, norm_norm, DuplicateFree]

theorem Defined.asRead {v : Value} (h : v.Defined) : v.asRead = v.norm := h.norm

theorem Plain.asRead {v : Value} (h : Plain v) : v.asRead = v := by
  rw [h.defined.asRead, h.norm]

theorem Defined.duplicateFree_asRead {v : Value} (h : v.Defined) :
    v.asRead.DuplicateFree ↔ v.DuplicateFree := by
  rw [h.asRead, duplicateFree_norm]

theorem duplicateFree_of_asRead {v : Value} (h : v.asRead.DuplicateFree) : v.DuplicateFree :=
  duplicateFree_norm.mp (duplicateFree_of_nullify v.norm_norm h)

theorem asRead_array (vs : List Value) : (array vs).asRead = array (vs.map Value.asRead) := by
  rw [Value.asRead, norm, normItems_eq, nullify, nullifyItems_eq, List.map_map]
  rfl

theorem asRead_tag (n : UInt64) (v : Value) : (tag n v).asRead = reduceTag n v.asRead := by
  rw [Value.asRead, Value.norm, nullify_reduceTag, Value.asRead]

/-- The entries of a map as they are read, in the order of their keys. -/
def asReadEntries (es : List (Value × Value)) : List (Value × Value) :=
  (sortEntries (normEntries es)).map fun e => (e.1.nullify, e.2.nullify)

theorem asRead_map (es : List (Value × Value)) : (map es).asRead = map (asReadEntries es) := by
  rw [Value.asRead, Value.norm, nullify, nullifyEntries_eq, asReadEntries]

theorem asReadEntries_perm (es : List (Value × Value)) :
    (asReadEntries es).Perm (es.map fun e => (e.1.asRead, e.2.asRead)) := by
  have hperm := (sortEntries_perm (normEntries es)).map fun e => (e.1.nullify, e.2.nullify)
  refine hperm.trans (.of_eq ?_)
  rw [normEntries_eq, List.map_map]
  rfl

/-- Only a byte string is read as one. -/
theorem eq_bytes_of_asRead {v : Value} {b : Bytes} (h : v.asRead = .bytes b) : v = .bytes b :=
  eq_bytes_of_norm (eq_bytes_of_nullify h)

theorem duplicateFree_asRead_array {vs : List Value} (h : ∀ v ∈ vs, v.asRead.DuplicateFree) :
    (array vs).asRead.DuplicateFree := by
  rw [asRead_array]
  exact duplicateFree_array (List.forall_mem_map.mpr h)

theorem duplicateFree_asRead_map {es : List (Value × Value)}
    (hkeys : (es.map fun e => e.1.settle).Nodup)
    (h : ∀ e ∈ es, e.1.asRead.DuplicateFree ∧ e.2.asRead.DuplicateFree) :
    (map es).asRead.DuplicateFree := by
  rw [Value.asRead, norm, nullify, nullifyEntries_eq]
  refine duplicateFree_map ?_ ?_
  · have hsort := (sortEntries_perm (normEntries es)).map fun e => e.1.nullify.norm
    rw [List.map_map]
    refine hsort.nodup_iff.mpr ?_
    rwa [normEntries_eq, List.map_map]
  · rw [List.forall_mem_map]
    intro e he
    obtain ⟨e', he', rfl⟩ := mem_sort_norm.mp he
    exact h e' he'

/-! ### Lengths -/

theorem length_encode_array (vs : List Value) : (array vs).encode.length =
    (head 4 (preferred vs.length) vs.length).length + (vs.map fun v => v.encode.length).sum := by
  rw [encode, toTree, toTreeItems_eq, Tree.bytes, Tree.bytesItems_eq, Tree.closing, List.append_nil,
    List.length_append, List.length_flatMap, List.map_map, List.length_map]
  rfl

theorem length_encode_map (es : List (Value × Value)) : (map es).encode.length =
    (head 5 (preferred es.length) es.length).length +
      (es.map fun e => e.1.encode.length + e.2.encode.length).sum := by
  rw [encode, toTree, toTreeEntries_eq, Tree.bytes, Tree.bytesEntries_eq, Tree.closing,
    List.append_nil, List.length_append, List.length_flatMap, List.map_map, List.length_map]
  simp only [Function.comp_def, List.length_append]
  rfl

theorem length_encode_tag (n : UInt64) (v : Value) : (tag n v).encode.length =
    (head 6 (preferred n.toNat) n.toNat).length + v.encode.length := by
  rw [encode, toTree, Tree.bytes, List.length_append]
  rfl

/-- Null takes the place of undefined, and the entries of a map another order. -/
theorem length_encode_nullify {v : Value} (h : v.norm = v) :
    v.nullify.norm.encode.length = v.encode.length := by
  induction v with
  | integer | bytes | text | bool | null => rfl
  | float bits => rw [nullify, h]
  | simple s =>
    by_cases hs : s.val = 23
    · obtain ⟨n, hn⟩ := s
      subst hs
      rfl
    · rw [nullify, if_neg hs, h]
  | tag n content ih =>
    have hcontent : content.norm = content :=
      norm_of_mem_children h (List.mem_singleton_self _)
    rw [nullify, norm]
    rcases reduceTag_cases n content.nullify.norm with heq | ⟨-, b, hb, -⟩
    · rw [heq, length_encode_tag, length_encode_tag, ih hcontent]
    · -- a byte string has no undefined inside
      have hbytes := eq_bytes_of_nullify (eq_bytes_of_norm hb)
      subst hbytes
      rw [norm] at h
      rw [nullify, h]
  | array items ih =>
    have hitems : ∀ v ∈ items, v.nullify.norm.encode.length = v.encode.length := fun v hv =>
      ih v hv (norm_of_mem_children h hv)
    rw [nullify, nullifyItems_eq, norm, normItems_eq, length_encode_array, length_encode_array,
      List.length_map, List.length_map, List.map_map, List.map_map]
    congr 2
    exact List.map_congr_left hitems
  | map entries ih =>
    have hentries : ∀ e ∈ entries, e.1.nullify.norm.encode.length +
        e.2.nullify.norm.encode.length = e.1.encode.length + e.2.encode.length := by
      intro e he
      have hchild {u : Value} (hu : u = e.1 ∨ u = e.2) : u.norm = u :=
        norm_of_mem_children h (List.mem_flatMap.mpr ⟨e, he, List.mem_pair.mpr hu⟩)
      rw [(ih e he).1 (hchild (.inl rfl)), (ih e he).2 (hchild (.inr rfl))]
    have hperm := sortEntries_perm (normEntries (nullifyEntries entries))
    have hlength := hperm.length_eq
    have hsum := (hperm.map fun e => e.1.encode.length + e.2.encode.length).sum_eq
    rw [nullifyEntries_eq, normEntries_eq, List.map_map] at hsum hlength
    rw [List.length_map] at hlength
    rw [List.map_map] at hsum
    rw [nullify, nullifyEntries_eq, norm, normEntries_eq, List.map_map, length_encode_map,
      length_encode_map, hlength, hsum]
    congr 2
    exact List.map_congr_left hentries

/-! ### Arrays in arrays -/

/-- A value of any depth. -/
def nested : Nat → Value
  | 0 => .null
  | n + 1 => .array [nested n]

theorem norm_nested (n : Nat) : (nested n).norm = nested n := by
  induction n with
  | zero => rfl
  | succ n ih => rw [nested, norm, normItems, normItems, ih]

theorem depth_nested (n : Nat) : (nested n).toTree.depth = n := by
  induction n with
  | zero => rfl
  | succ n ih =>
    rw [nested, toTree, toTreeItems, toTreeItems, Tree.depth, Tree.depthItems, Tree.depthItems, ih,
      Nat.max_eq_left (Nat.zero_le _)]

theorem writable_nested (n : Nat) : (nested n).Writable := by
  induction n with
  | zero => exact writable_null
  | succ n ih => exact writable_array.mpr ⟨by simp, by simpa using ih⟩

theorem duplicateFree_nested (n : Nat) : (nested n).DuplicateFree := by
  rw [DuplicateFree, norm_nested]
  induction n with
  | zero => exact .node trivial fun s hs => absurd hs List.not_mem_nil
  | succ n ih =>
    refine .node trivial fun s hs => ?_
    rw [children_toTree, nested, children, List.map_singleton, List.mem_singleton] at hs
    rw [hs]
    exact ih

end Value
end Cbor

import Cose2.SdCwt.Structure
import Cose2.Strict.Grammar

/-! # Issued values as they are written

Normalizing an issued value sorts its entries and shortens its bignums, so it stays an
issued value, within the same limits.  What it is written as is counted, nested and
keyed as the value is, and so the strict parser accepts it.
-/
namespace Cose2.SdCwt

open Cbor

/-! ### Normal forms -/

theorem norm_scalar {v : Value} (h : IsScalar v) :
    IsScalar v.norm ∧ isRedactedClaimKeysLabel v.norm = isRedactedClaimKeysLabel v := by
  cases v with
  | map | array | tag => exact h.elim
  | integer | bytes | text | float | bool | null | simple => exact ⟨trivial, rfl⟩

theorem norm_hashes (hashes : List Bytes) :
    (Value.array (hashes.map .bytes)).norm = .array (hashes.map .bytes) := by
  rw [Value.norm, Value.normItems_eq, List.map_map]
  rfl

theorem norm_redactedElement (hash : Bytes) :
    (redactedElement hash).norm = redactedElement hash := rfl

variable {marked : Bool} {limits : ProcessingLimits} {depth : Nat}

/-- Keys are in normal form, so entries are only sorted. -/
theorem norm_entries {es : List (Value × Value)} (h : ∀ e ∈ es, IsKey e.1) :
    ((Value.sortEntries (Value.normEntries es)).map Prod.fst).Perm (es.map Prod.fst) := by
  have hperm := (Value.sortEntries_perm (Value.normEntries es)).map Prod.fst
  refine hperm.trans (List.Perm.of_eq ?_)
  rw [Value.normEntries_eq, List.map_map]
  exact List.map_congr_left fun e he => (h e he).norm

theorem Redacted.isKey {es : List (Value × Value)} (h : Redacted marked (.map es)) :
    ∀ e ∈ es, IsKey e.1 := by
  intro e he
  cases h with
  | scalar hs => exact hs.elim
  | map _ hlabels =>
    cases hv : isVisible e with
    | true => exact .inr (hlabels e he hv)
    | false =>
      rw [isVisible, Bool.not_eq_false'] at hv
      exact .inl (isRedactedClaimKeysLabel_iff.mp hv)

/-- Normalizing leaves markers in their places. -/
theorem Redacted.norm {v : Value} (h : Redacted marked v) : Redacted marked v.norm := by
  induction h with
  | scalar hs hlabel => exact .scalar (norm_scalar hs).1 (by rwa [(norm_scalar hs).2])
  | @tag t v ht _ ih =>
    rw [Value.norm]
    rcases Value.reduceTag_cases t v.norm with heq | ⟨_, b, _, ⟨i, heq⟩ | heq⟩
    · rw [heq]
      exact .tag ht ih
    · rw [heq]
      exact .scalar trivial rfl
    · rw [heq]
      exact .tag ht (.scalar trivial rfl)
  | @array vs hredacted hvalues ih =>
    rw [Value.norm, Value.normItems_eq]
    have hmem (w : Value) (hw : w ∈ vs.map Value.norm) :
        (∃ hash, w = redactedElement hash ∧ marked = true) ∨ Redacted marked w := by
      obtain ⟨v, hv, heq⟩ := List.mem_map.mp hw
      subst heq
      cases helement : isRedactedElement v with
      | true =>
        obtain ⟨hmarked, hash, hhash⟩ := hredacted v hv helement
        rw [hhash, norm_redactedElement]
        exact .inl ⟨hash, rfl, hmarked⟩
      | false => exact .inr (ih v hv helement)
    refine .array (fun w hw helement => ?_) fun w hw helement => ?_
    · rcases hmem w hw with ⟨hash, hhash, hmarked⟩ | hR
      · exact ⟨hmarked, hash, hhash⟩
      · rw [hR.not_redacted] at helement
        cases helement
    · rcases hmem w hw with ⟨hash, hhash, _⟩ | hR
      · rw [hhash] at helement
        cases helement
      · exact hR
  | @map es hhidden hlabels hnodup hvalues ih =>
    have hkeys := (Redacted.map hhidden hlabels hnodup hvalues).isKey
    rw [Value.norm]
    have hmem (w : Value × Value) (hw : w ∈ Value.sortEntries (Value.normEntries es)) :
        ∃ e ∈ es, w = (e.1, e.2.norm) := by
      obtain ⟨e, he, heq⟩ := Value.mem_sort_norm.mp hw
      rw [(hkeys e he).norm] at heq
      exact ⟨e, he, heq.symm⟩
    refine .map (fun w hw hv => ?_) (fun w hw hv => ?_) ?_ fun w hw hv => ?_
    · obtain ⟨e, he, heq⟩ := hmem w hw
      subst heq
      obtain ⟨hmarked, hashes, hlist⟩ := hhidden e he hv
      refine ⟨hmarked, hashes, ?_⟩
      show e.2.norm = _
      rw [hlist, norm_hashes]
    · obtain ⟨e, he, heq⟩ := hmem w hw
      subst heq
      exact hlabels e he hv
    · exact (norm_entries hkeys).nodup_iff.mpr hnodup
    · obtain ⟨e, he, heq⟩ := hmem w hw
      subst heq
      exact ih e he hv

/-- Normalizing makes nothing deeper or larger. -/
theorem Fits.norm {v : Value} (h : Fits limits depth v) : Fits limits depth v.norm := by
  induction h with
  | scalar hs hdepth => exact .scalar (norm_scalar hs).1 hdepth
  | @tag depth t v hdepth hv ih =>
    rw [Value.norm]
    rcases Value.reduceTag_cases t v.norm with heq | ⟨_, b, _, ⟨i, heq⟩ | heq⟩
    · rw [heq]
      exact .tag hdepth ih
    · rw [heq]
      exact .scalar trivial hdepth
    · rw [heq]
      exact .tag hdepth (.scalar trivial hv.depth_le)
  | @array depth vs hdepth hlength _ ih =>
    rw [Value.norm, Value.normItems_eq, fits_array, List.length_map, List.forall_mem_map]
    exact ⟨hdepth, hlength, ih⟩
  | @map depth es hdepth hlength _ _ ihkeys ihvalues =>
    rw [Value.norm, fits_map, Value.length_sort_norm]
    refine ⟨hdepth, hlength, fun e he => ?_⟩
    obtain ⟨e', he', heq⟩ := Value.mem_sort_norm.mp he
    subst heq
    exact ⟨ihkeys e' he', ihvalues e' he'⟩

theorem itemsAll_eq (vs : List Value) : items.itemsAll vs = (vs.map items).sum := by
  induction vs with
  | nil => rfl
  | cons v vs ih => rw [items.itemsAll, ih, List.map_cons, List.sum_cons]

theorem itemsEntries_eq (es : List (Value × Value)) :
    items.itemsEntries es = (es.map fun e => items e.1 + items e.2).sum := by
  induction es with
  | nil => rfl
  | cons e es ih =>
    obtain ⟨key, value⟩ := e
    rw [items.itemsEntries, ih, List.map_cons, List.sum_cons]

/-- Normalizing adds no items; a bignum that becomes an integer is one item less. -/
theorem items_norm_le (v : Value) : items v.norm ≤ items v := by
  induction v with
  | tag t v ih =>
    rw [Value.norm, items]
    rcases Value.reduceTag_cases t v.norm with heq | ⟨_, b, _, ⟨i, heq⟩ | heq⟩
    · rw [heq, items]
      omega
    · rw [heq, items_scalar (v := .integer i) trivial]
      omega
    · rw [heq, items, items_scalar (v := .bytes _) trivial]
      have hpos : 0 < items v := by
        cases v <;> simp only [items] <;> omega
      omega
  | array vs ih =>
    rw [Value.norm, items, items, itemsAll_eq, itemsAll_eq, Value.normItems_eq, List.map_map]
    exact Nat.add_le_add_left (List.sum_le_sum ih) 1
  | map es ih =>
    rw [Value.norm, items, items, itemsEntries_eq, itemsEntries_eq,
      ((Value.sortEntries_perm _).map _).sum_eq, Value.normEntries_eq, List.map_map]
    exact Nat.add_le_add_left (List.sum_le_sum fun e he =>
      Nat.add_le_add (ih e he).1 (ih e he).2) 1
  | integer | bytes | text | float | bool | null | simple => exact Nat.le_refl _

/-! ### Null for undefined -/

theorem nullify_scalar {v : Value} (h : IsScalar v) :
    IsScalar v.nullify ∧ isRedactedClaimKeysLabel v.nullify = isRedactedClaimKeysLabel v := by
  cases v with
  | map | array | tag => exact h.elim
  | simple s =>
    by_cases hs : s.val = 23
    · rw [Value.nullify, if_pos hs]
      simp [isRedactedClaimKeysLabel, IsScalar, hs]
    · rw [Value.nullify, if_neg hs]
      exact ⟨trivial, rfl⟩
  | integer | bytes | text | float | bool | null => exact ⟨trivial, rfl⟩

theorem IsKey.nullify {v : Value} (h : IsKey v) : v.nullify = v := by
  rcases h with rfl | ⟨l, h⟩
  · rfl
  · rw [labelFromValue_ok h]
    cases l with
    | int | text => rfl

theorem nullify_hashes (hashes : List Bytes) :
    (Value.array (hashes.map .bytes)).nullify = .array (hashes.map .bytes) := by
  rw [Value.nullify, Value.nullifyItems_eq, List.map_map]
  rfl

theorem asRead_scalar {v : Value} (h : IsScalar v) :
    IsScalar v.asRead ∧ isRedactedClaimKeysLabel v.asRead = isRedactedClaimKeysLabel v := by
  obtain ⟨hs, hlabel⟩ := norm_scalar h
  obtain ⟨hs', hlabel'⟩ := nullify_scalar hs
  exact ⟨hs', hlabel'.trans hlabel⟩

theorem asRead_hashes (hashes : List Bytes) :
    (Value.array (hashes.map .bytes)).asRead = .array (hashes.map .bytes) := by
  rw [Value.asRead, norm_hashes, nullify_hashes]

/-- Markers stay in their places. -/
theorem Redacted.nullify {v : Value} (h : Redacted marked v) : Redacted marked v.nullify := by
  induction h with
  | scalar hs hlabel => exact .scalar (nullify_scalar hs).1 (by rwa [(nullify_scalar hs).2])
  | tag ht _ ih => exact .tag ht ih
  | @array vs hredacted hvalues ih =>
    rw [Value.nullify, Value.nullifyItems_eq]
    have hmem (w : Value) (hw : w ∈ vs.map Value.nullify) :
        (∃ hash, w = redactedElement hash ∧ marked = true) ∨ Redacted marked w := by
      obtain ⟨v, hv, rfl⟩ := List.mem_map.mp hw
      cases helement : isRedactedElement v with
      | true =>
        obtain ⟨hmarked, hash, hhash⟩ := hredacted v hv helement
        rw [hhash]
        exact .inl ⟨hash, rfl, hmarked⟩
      | false => exact .inr (ih v hv helement)
    refine .array (fun w hw helement => ?_) fun w hw helement => ?_
    · rcases hmem w hw with ⟨hash, hhash, hmarked⟩ | hR
      · exact ⟨hmarked, hash, hhash⟩
      · rw [hR.not_redacted] at helement
        cases helement
    · rcases hmem w hw with ⟨hash, hhash, _⟩ | hR
      · rw [hhash] at helement
        cases helement
      · exact hR
  | @map es hhidden hlabels hnodup hvalues ih =>
    have hkeys := (Redacted.map hhidden hlabels hnodup hvalues).isKey
    have hentries : (es.map fun e => (e.1.nullify, e.2.nullify)) =
        es.map fun e => (e.1, e.2.nullify) :=
      List.map_congr_left fun e he => Prod.ext (hkeys e he).nullify rfl
    rw [Value.nullify, Value.nullifyEntries_eq, hentries]
    refine .map ?_ ?_ ?_ ?_
    · rw [List.forall_mem_map]
      intro e he hv
      obtain ⟨hmarked, hashes, hlist⟩ := hhidden e he hv
      refine ⟨hmarked, hashes, ?_⟩
      rw [hlist, nullify_hashes]
    · rw [List.forall_mem_map]
      exact fun e he hv => hlabels e he hv
    · rw [List.map_map]
      exact hnodup
    · rw [List.forall_mem_map]
      exact fun e he hv => ih e he hv

theorem Redacted.asRead {v : Value} (h : Redacted marked v) : Redacted marked v.asRead :=
  h.norm.nullify

theorem Fits.nullify {v : Value} (h : Fits limits depth v) : Fits limits depth v.nullify := by
  induction h with
  | scalar hs hdepth => exact .scalar (nullify_scalar hs).1 hdepth
  | tag hdepth _ ih => exact .tag hdepth ih
  | array hdepth hlength _ ih =>
    rw [Value.nullify, Value.nullifyItems_eq, fits_array, List.length_map, List.forall_mem_map]
    exact ⟨hdepth, hlength, ih⟩
  | map hdepth hlength _ _ ihkeys ihvalues =>
    rw [Value.nullify, Value.nullifyEntries_eq, fits_map, List.length_map, List.forall_mem_map]
    exact ⟨hdepth, hlength, fun e he => ⟨ihkeys e he, ihvalues e he⟩⟩

theorem Fits.asRead {v : Value} (h : Fits limits depth v) : Fits limits depth v.asRead :=
  h.norm.nullify

theorem items_nullify (v : Value) : items v.nullify = items v := by
  induction v with
  | simple s =>
    rw [items_scalar (nullify_scalar (v := .simple s) trivial).1,
      items_scalar (v := .simple s) trivial]
  | tag t v ih => rw [Value.nullify, items, items, ih]
  | array vs ih =>
    rw [Value.nullify, Value.nullifyItems_eq, items, items, itemsAll_eq, itemsAll_eq, List.map_map]
    exact congrArg (1 + ·) (congrArg List.sum (List.map_congr_left ih))
  | map es ih =>
    rw [Value.nullify, Value.nullifyEntries_eq, items, items, itemsEntries_eq, itemsEntries_eq,
      List.map_map]
    refine congrArg (1 + ·) (congrArg List.sum (List.map_congr_left fun e he => ?_))
    rw [Function.comp, (ih e he).1, (ih e he).2]
  | integer | bytes | text | float | bool | null => rfl

theorem items_asRead (v : Value) : items v.asRead = items v.norm := items_nullify _

theorem items_asRead_le (v : Value) : items v.asRead ≤ items v :=
  (items_asRead v).trans_le (items_norm_le v)

/-! ### The written item -/

theorem scalar_children {v : Value} (h : IsScalar v) : v.toTree.children = [] := by
  cases v with
  | map | array | tag => exact h.elim
  | integer | bytes | text | float | bool | null | simple => rfl

/-- The parser counts the items that the traversals count. -/
theorem count_toTree (v : Value) : v.toTree.count = items v := by
  induction v with
  | tag t v ih => rw [Value.toTree, Tree.count, ih, items, Nat.add_comm]
  | array vs ih =>
    rw [Value.toTree, Tree.count, Tree.countItems_eq, Value.toTreeItems_eq, List.map_map, items,
      itemsAll_eq, Nat.add_comm]
    exact congrArg (1 + ·) (congrArg List.sum (List.map_congr_left ih))
  | map es ih =>
    have hcount : Tree.countEntries (Value.toTreeEntries es) = items.itemsEntries es := by
      induction es with
      | nil => rfl
      | cons e es ihes =>
        obtain ⟨key, value⟩ := e
        have hfirst := ih (key, value) List.mem_cons_self
        have hrest := ihes fun e he => ih e (List.mem_cons_of_mem _ he)
        rw [Value.toTreeEntries, Tree.countEntries, items.itemsEntries, hfirst.1, hfirst.2, hrest,
          Nat.add_assoc]
    rw [Value.toTree, Tree.count, hcount, items, Nat.add_comm]
  | integer | bytes | text | float | bool | null | simple => rfl

/-- All lengths are written in front. -/
theorem definite_toTree (v : Value) : v.toTree.Definite := by
  induction v with
  | tag t v ih =>
    refine .node id fun s hs => ?_
    rw [Value.toTree, Tree.children, List.mem_singleton] at hs
    rw [hs]
    exact ih
  | array vs ih =>
    refine .node id ?_
    rw [Value.toTree, Value.toTreeItems_eq, Tree.children, List.forall_mem_map]
    exact ih
  | map es ih =>
    refine .node id ?_
    rw [Value.toTree, Value.toTreeEntries_eq, Tree.children, forall_mem_entries,
      List.forall_mem_map]
    exact ih
  | integer | bytes | text | float | bool | null | simple =>
    exact .node id (by simp [Value.toTree, Tree.children])

/-- A value that fits is not nested too deeply. -/
theorem Fits.depth_toTree {v : Value} (h : Fits limits depth v) :
    v.toTree.depth + depth ≤ limits.maxDepth := by
  -- the children are one level down, where one level less is left
  have hnode {depth : Nat} {t : Tree} (hdepth : depth ≤ limits.maxDepth)
      (h : ∀ s ∈ t.children, s.depth + (depth + 1) ≤ limits.maxDepth) :
      t.depth + depth ≤ limits.maxDepth := by
    have hlt : t.depth < (limits.maxDepth - depth) + 1 := by
      rw [Tree.depth_lt_succ_iff]
      intro s hs
      have := h s hs
      omega
    omega
  induction h with
  | scalar hs hdepth =>
    refine hnode hdepth fun s hmem => ?_
    rw [scalar_children hs] at hmem
    cases hmem
  | tag hdepth _ ih => exact hnode hdepth (by simpa [Value.toTree, Tree.children] using ih)
  | array hdepth _ _ ih =>
    refine hnode hdepth ?_
    rw [Value.toTree, Value.toTreeItems_eq, Tree.children, List.forall_mem_map]
    exact ih
  | map hdepth _ _ _ ihkeys ihvalues =>
    refine hnode hdepth ?_
    rw [Value.toTree, Value.toTreeEntries_eq, Tree.children, forall_mem_entries,
      List.forall_mem_map]
    exact fun e he => ⟨ihkeys e he, ihvalues e he⟩

/-- What holds of all items but maps, and of maps with distinct keys, holds everywhere in
an issued value. -/
theorem Redacted.all_toTree {p : Tree → Prop}
    (hother : ∀ v : Value, (∀ es, v ≠ .map es) → p v.toTree)
    (hmap : ∀ es : List (Value × Value), (∀ e ∈ es, IsKey e.1) → (es.map Prod.fst).Nodup →
      p (Value.map es).toTree) {v : Value} (h : Redacted marked v) : v.toTree.All p := by
  have scalar {v : Value} (hs : IsScalar v) : v.toTree.All p := by
    refine .node (hother v fun es heq => ?_) fun s hmem => ?_
    · rw [heq] at hs
      exact hs.elim
    · rw [scalar_children hs] at hmem
      cases hmem
  have array {vs : List Value} (hvs : ∀ v ∈ vs, v.toTree.All p) :
      (Value.array vs).toTree.All p := by
    refine .node (hother _ fun _ => by simp) ?_
    rw [Value.toTree, Value.toTreeItems_eq, Tree.children, List.forall_mem_map]
    exact hvs
  have tag {t : UInt64} {v : Value} (hv : v.toTree.All p) : (Value.tag t v).toTree.All p := by
    refine .node (hother _ fun _ => by simp) fun s hs => ?_
    rw [Value.toTree, Tree.children, List.mem_singleton] at hs
    rw [hs]
    exact hv
  induction h with
  | scalar hs => exact scalar hs
  | tag _ _ ih => exact tag ih
  | array hredacted _ ih =>
    refine array fun v hv => ?_
    cases helement : isRedactedElement v with
    | true =>
      obtain ⟨_, hash, hhash⟩ := hredacted v hv helement
      rw [hhash]
      exact tag (scalar (v := .bytes hash) trivial)
    | false => exact ih v hv helement
  | @map es hhidden hlabels hnodup hvalues ih =>
    have hkeys := (Redacted.map hhidden hlabels hnodup hvalues).isKey
    refine .node (hmap es hkeys hnodup) ?_
    rw [Value.toTree, Value.toTreeEntries_eq, Tree.children, forall_mem_entries,
      List.forall_mem_map]
    refine fun e he => ⟨scalar (hkeys e he).scalar, ?_⟩
    cases hv : isVisible e with
    | true => exact ih e he hv
    | false =>
      obtain ⟨_, hashes, hlist⟩ := hhidden e he hv
      show e.2.toTree.All p
      rw [hlist]
      exact array (List.forall_mem_map.mpr fun hash _ => scalar (v := .bytes hash) trivial)

theorem Redacted.keyedOnce {v : Value} (h : Redacted marked v) : v.toTree.All Tree.KeyedOnce := by
  refine h.all_toTree (fun v hv => ?_) fun es _ hnodup => ?_
  · cases v with
    | map es => exact absurd rfl (hv es)
    | integer | bytes | text | float | bool | null | simple | tag | array => exact trivial
  · rw [Value.toTree, Value.toTreeEntries_eq, Tree.KeyedOnce, List.map_map]
    have hmap := hnodup.map Value.toTree_injective
    rwa [List.map_map] at hmap

/-- Labels are told apart also as they are read. -/
theorem Redacted.regular {v : Value} (h : Redacted marked v) (hw : v.norm.Writable) :
    v.norm.Regular :=
  Value.regular_norm hw h.asRead.norm.keyedOnce

/-! ### Reading it back -/

section Reading

variable {c : SdCbor2} (hr : c.ReadsCanonically)
include hr

/-- The parser compares keys by their encodings; it has `cbor2` encode `simple(59)`. -/
theorem treeKey_key {key : Value} (h : IsKey key) :
    Strict.treeKey c.toCbor2 key.toTree = .ok key.encode := by
  rcases h with heq | ⟨l, hl⟩
  · have hkey : IsKey redactedClaimKeysLabel := .inl rfl
    have hregular : redactedClaimKeysLabel.norm.Regular :=
      ⟨rfl, hkey.writable, .node trivial fun _ hs => absurd hs (List.not_mem_nil)⟩
    have hdecode : c.fromSlice redactedClaimKeysLabel.canonical = .ok redactedClaimKeysLabel :=
      hr.decodes hregular hr.positive
    have hlong : ¬ redactedClaimKeysLabel.toTree.IsPreferredScalar := id
    rw [heq, Strict.treeKey, if_neg hlong]
    exact Except.bind_eq_ok.mpr ⟨_, hdecode, hkey.canonicalVec hr.encodesKeys⟩
  · have hshort : key.toTree.IsPreferredScalar := by
      rw [labelFromValue_ok hl]
      cases l with
      | int | text => rfl
    rw [Strict.treeKey, if_pos hshort]
    rfl

/-- The parser finds distinct keys in every map of an issued value. -/
theorem Redacted.keysOk {v : Value} (h : Redacted marked v) : Strict.KeysOk c.toCbor2 v.toTree := by
  refine h.all_toTree (fun v hv => ?_) fun es hkeys hnodup => ?_
  · cases v with
    | map es => exact absurd rfl (hv es)
    | integer | bytes | text | float | bool | null | simple | tag | array => exact trivial
  · rw [Value.toTree, Value.toTreeEntries_eq, Strict.DistinctKeys]
    refine ⟨es.map fun e => e.1.encode, ?_, ?_⟩
    · rw [List.forall₂_map_left_iff, List.forall₂_map_right_iff, List.forall₂_same]
      exact fun e hmem => treeKey_key hr (hkeys e hmem)
    · have hmap : ((es.map Prod.fst).map Value.encode).Nodup := by
        refine hnodup.map_on fun k hk k' hk' heq => ?_
        obtain ⟨e, hmem, rfl⟩ := List.mem_map.mp hk
        obtain ⟨e', hmem', rfl⟩ := List.mem_map.mp hk'
        exact Value.encode_inj (hkeys e hmem).writable (hkeys e' hmem').writable heq
      rwa [List.map_map] at hmap

/-- An issued value that is written is accepted and read back. -/
theorem Redacted.readBack {v : Value} (h : Redacted marked v)
    (hlength : v.canonical.length < usizeBound) {limits : ProcessingLimits}
    (hrecursion : v.norm.toTree.depth < c.recursionLimit)
    (hdepth : v.norm.toTree.depth ≤ limits.maxDepth)
    (hitems : items v.norm ≤ limits.maxItems) :
    validateCbor c v.canonical (definiteCborLimits limits) = .ok () ∧
      c.fromSlice v.canonical = .ok v.asRead := by
  have hw : v.norm.Writable := Tree.value_writable hlength (Value.value_toTree v.norm)
  refine ⟨?_, hr.decodes (h.regular hw) hrecursion⟩
  rw [validateCbor, Except.bind_eq_ok]
  refine ⟨_, (Strict.rootWithDuplicatePolicy_ok c.toCbor2).mpr ⟨v.norm.toTree, rfl, hw,
    ⟨hdepth, ?_, fun _ => definite_toTree _⟩, fun _ => h.norm.keysOk hr, rfl⟩, ?_⟩
  · rw [count_toTree]
    exact hitems
  · exact Except.mapError_eq_ok.mpr (hr.validates (h.regular hw) hrecursion)

end Reading

end Cose2.SdCwt

import Cose2.Cbor.Canonical

/-! # Undefined read as null

A decoder may have no value for `undefined` and read null in its place.  `nullify` does this
at every depth of a value, and `asRead` is what such a decoder makes of the deterministic
encoding of a value.  A map that has both as keys, and nothing else to tell the keys apart,
has a key twice once it is read.
-/
namespace Cbor
namespace Value

/-- Undefined, simple value 23. -/
def undefined : Value := .simple ⟨23, by decide⟩

mutual
/-- The value with null in place of undefined (simple value 23). -/
@[simp] def nullify : Value → Value
  | .simple s => if s.val = 23 then .null else .simple s
  | .tag n content => .tag n content.nullify
  | .array items => .array (nullifyItems items)
  | .map entries => .map (nullifyEntries entries)
  | .integer i => .integer i
  | .bytes b => .bytes b
  | .text s => .text s
  | .float bits => .float bits
  | .bool b => .bool b
  | .null => .null

/-- `nullify` of each element. -/
@[simp] def nullifyItems : List Value → List Value
  | [] => []
  | v :: vs => v.nullify :: nullifyItems vs

/-- `nullify` of each key and value. -/
@[simp] def nullifyEntries : List (Value × Value) → List (Value × Value)
  | [] => []
  | (k, v) :: es => (k.nullify, v.nullify) :: nullifyEntries es
end

theorem nullifyItems_eq (vs : List Value) : nullifyItems vs = vs.map nullify := by
  induction vs with
  | nil => rfl
  | cons v vs ih => rw [nullifyItems, ih, List.map_cons]

theorem nullifyEntries_eq (es : List (Value × Value)) :
    nullifyEntries es = es.map fun e => (e.1.nullify, e.2.nullify) := by
  induction es with
  | nil => rfl
  | cons e es ih =>
    obtain ⟨k, v⟩ := e
    rw [nullifyEntries, ih, List.map_cons]

theorem nullify_simple (s : Simple) :
    (simple s).nullify = .null ∨ (simple s).nullify = .simple s := by
  by_cases h : s.val = 23
  · exact .inl (by rw [nullify, if_pos h])
  · exact .inr (by rw [nullify, if_neg h])

@[simp] theorem nullify_nullify (v : Value) : v.nullify.nullify = v.nullify := by
  induction v with
  | simple s =>
    rcases nullify_simple s with h | h
    · rw [h, nullify]
    · rw [h, h]
  | tag n content ih => rw [nullify, nullify, ih]
  | array items ih =>
    rw [nullify, nullify, nullifyItems_eq, nullifyItems_eq, List.map_map]
    exact congrArg Value.array (List.map_congr_left ih)
  | map entries ih =>
    rw [nullify, nullify, nullifyEntries_eq, nullifyEntries_eq, List.map_map]
    refine congrArg Value.map (List.map_congr_left fun e he => ?_)
    rw [Function.comp, (ih e he).1, (ih e he).2]
  | integer | bytes | text | float | bool | null => rfl

/-- Only a byte string is read as one. -/
theorem eq_bytes_of_nullify {v : Value} {b : Bytes} (h : v.nullify = .bytes b) :
    v = .bytes b := by
  cases v with
  | bytes => exact h
  | simple s =>
    rcases nullify_simple s with heq | heq
    · rw [heq] at h
      cases h
    · rw [heq] at h
      cases h
  | integer | text | float | bool | null | tag | array | map => cases h

/-- Bignums have no undefined inside. -/
theorem nullify_reduceTag (n : UInt64) (v : Value) :
    (reduceTag n v).nullify = reduceTag n v.nullify := by
  rcases reduceTag_cases n v with heq | ⟨-, b, rfl, ⟨i, heq⟩ | heq⟩
  · rcases reduceTag_cases n v.nullify with heq' | ⟨-, b, hb, -⟩
    · rw [heq, heq', nullify]
    · obtain rfl := eq_bytes_of_nullify hb
      rw [nullify, heq, nullify, nullify]
  · rw [nullify, heq, nullify]
  · rw [nullify, heq, nullify, nullify]

theorem Writable.nullify {v : Value} (h : v.Writable) : v.nullify.Writable := by
  induction v with
  | simple s =>
    rcases nullify_simple s with heq | heq
    · rw [heq]
      exact writable_null
    · rwa [heq]
  | tag n content ih =>
    rw [Value.nullify, writable_tag]
    exact ih (writable_tag.mp h)
  | array items ih =>
    rw [writable_array] at h
    rw [Value.nullify, nullifyItems_eq, writable_array, List.length_map, List.forall_mem_map]
    exact ⟨h.1, fun v hv => ih v hv (h.2 v hv)⟩
  | map entries ih =>
    rw [writable_map] at h
    rw [Value.nullify, nullifyEntries_eq, writable_map, List.length_map, List.forall_mem_map]
    exact ⟨h.1, fun e he => ⟨(ih e he).1 (h.2 e he).1, (ih e he).2 (h.2 e he).2⟩⟩
  | integer | bytes | text | float | bool | null => exact h

/-! ### Values without undefined -/

/-- There is no undefined anywhere in the value. -/
def Defined (v : Value) : Prop := v.nullify = v

theorem defined_nullify (v : Value) : v.nullify.Defined := v.nullify_nullify

theorem map_eq_self_iff {α : Type} {f : α → α} {l : List α} :
    l.map f = l ↔ ∀ a ∈ l, f a = a := by
  induction l with
  | nil => simp
  | cons a l ih => rw [List.map_cons, List.cons.injEq, ih, List.forall_mem_cons]

theorem defined_tag {n : UInt64} {v : Value} : (tag n v).Defined ↔ v.Defined := by
  rw [Defined, nullify, tag.injEq]
  exact and_iff_right rfl

theorem defined_array {vs : List Value} : (array vs).Defined ↔ ∀ v ∈ vs, v.Defined := by
  rw [Defined, nullify, nullifyItems_eq, array.injEq]
  exact map_eq_self_iff

theorem defined_map {es : List (Value × Value)} :
    (map es).Defined ↔ ∀ e ∈ es, e.1.Defined ∧ e.2.Defined := by
  rw [Defined, nullify, nullifyEntries_eq, map.injEq, map_eq_self_iff]
  exact forall₂_congr fun e _ => Prod.ext_iff

theorem Defined.norm {v : Value} (h : v.Defined) : v.norm.Defined := by
  induction v with
  | tag n content ih =>
    rw [Value.norm, Defined, nullify_reduceTag, ih (defined_tag.mp h)]
  | array items ih =>
    rw [defined_array] at h
    rw [Value.norm, normItems_eq, defined_array, List.forall_mem_map]
    exact fun v hv => ih v hv (h v hv)
  | map entries ih =>
    rw [defined_map] at h
    rw [Value.norm, defined_map]
    intro e he
    obtain ⟨e', he', rfl⟩ := mem_sort_norm.mp he
    exact ⟨(ih e' he').1 (h e' he').1, (ih e' he').2 (h e' he').2⟩
  | float bits => exact rfl
  | integer | bytes | text | bool | null | simple => exact h

/-- Normalizing removes no undefined. -/
theorem defined_of_norm {v : Value} (h : v.norm.Defined) : v.Defined := by
  induction v with
  | tag n content ih =>
    refine defined_tag.mpr ?_
    rw [Value.norm] at h
    rcases reduceTag_cases n content.norm with heq | ⟨-, b, hb, -⟩
    · rw [heq] at h
      exact ih (defined_tag.mp h)
    · rw [eq_bytes_of_norm hb]
      rfl
  | array items ih =>
    rw [Value.norm, normItems_eq, defined_array, List.forall_mem_map] at h
    exact defined_array.mpr fun v hv => ih v hv (h v hv)
  | map entries ih =>
    rw [Value.norm, defined_map] at h
    refine defined_map.mpr fun e he => ?_
    have hnorm := h _ (mem_sort_norm.mpr ⟨e, he, rfl⟩)
    exact ⟨(ih e he).1 hnorm.1, (ih e he).2 hnorm.2⟩
  | float bits => exact rfl
  | integer | bytes | text | bool | null | simple => exact h

/-! ### What is read -/

/-- What is read of the deterministic encoding of the value. -/
def asRead (v : Value) : Value := v.norm.nullify

/-- The normal form of what is read. -/
def settle (v : Value) : Value := v.asRead.norm

theorem defined_asRead (v : Value) : v.asRead.Defined := defined_nullify _

theorem Defined.settle {v : Value} (h : v.Defined) : v.settle = v.norm := by
  rw [Value.settle, asRead, h.norm, norm_norm]

/-- Reading once more makes no difference. -/
@[simp] theorem settle_asRead (v : Value) : v.asRead.settle = v.settle :=
  v.defined_asRead.settle

theorem settle_norm (v : Value) : v.norm.settle = v.settle := by
  rw [settle, asRead, norm_norm, settle, asRead]

theorem Writable.asRead {v : Value} (h : v.norm.Writable) : v.asRead.Writable := h.nullify

end Value
end Cbor

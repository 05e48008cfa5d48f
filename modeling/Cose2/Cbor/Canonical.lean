import Mathlib.Data.List.Sort
import Cose2.Cbor.Read
import Cose2.Cbor.Value

/-! # Deterministic encoding

RFC 8949, section 4.2.1 asks of a deterministic encoder: shortest heads and
floats, definite lengths, and map entries sorted bytewise by their encoded keys.
Shortest heads also cover bignums that fit an ordinary integer.  The choices
that remain in a `Value` are taken away by `norm`, so that the deterministic
encoding is `encode` after `norm`, and two values have the same one exactly when
they normalize alike (`canonical_inj`).
-/
namespace Cbor

/-! ### The bytewise order -/

/-- `a` comes before `b`, or equals it, in the bytewise lexicographic order. -/
def Before (a b : Bytes) : Prop := a.map UInt8.toNat ≤ b.map UInt8.toNat

instance (a b : Bytes) : Decidable (Before a b) :=
  inferInstanceAs (Decidable (a.map UInt8.toNat ≤ b.map UInt8.toNat))

theorem before_antisymm {a b : Bytes} (h : Before a b) (h' : Before b a) : a = b :=
  List.map_injective_iff.mpr (fun _ _ => UInt8.toNat_inj.mp) (le_antisymm h h')

namespace Value

/-- Entry order: by encoded key. -/
def KeyBefore (e e' : Value × Value) : Prop := Before e.1.encode e'.1.encode

instance : DecidableRel KeyBefore := fun e e' =>
  inferInstanceAs (Decidable (Before e.1.encode e'.1.encode))

instance : Std.Total KeyBefore := ⟨fun _ _ => le_total _ _⟩

instance : IsTrans (Value × Value) KeyBefore := ⟨fun _ _ _ h h' => le_trans h h'⟩

/-- Entries sorted by encoded key. -/
def sortEntries (es : List (Value × Value)) : List (Value × Value) :=
  es.insertionSort KeyBefore

theorem sortEntries_perm (es : List (Value × Value)) : (sortEntries es).Perm es :=
  List.perm_insertionSort _ _

theorem mem_sortEntries {es : List (Value × Value)} {e : Value × Value} :
    e ∈ sortEntries es ↔ e ∈ es :=
  (sortEntries_perm es).mem_iff

theorem sortEntries_sortEntries (es : List (Value × Value)) :
    sortEntries (sortEntries es) = sortEntries es :=
  (List.pairwise_insertionSort KeyBefore es).insertionSort_eq

/-! ### Normalizing -/

/-- A double that is not a number. -/
def IsNan (bits : UInt64) : Prop := 0x7ff0000000000000 < bits.toNat % 0x8000000000000000

instance (bits : UInt64) : Decidable (IsNan bits) :=
  inferInstanceAs (Decidable (_ < _))

/-- One not-a-number stands for all. -/
def normFloat (bits : UInt64) : UInt64 := if IsNan bits then 0x7ff8000000000000 else bits

/-- Leading zero bytes dropped. -/
def stripZeros (b : Bytes) : Bytes := b.dropWhile (· = 0)

/-- A tagged value; a bignum becomes an integer when it fits one and loses its
leading zeros otherwise. -/
def reduceTag (n : UInt64) : Value → Value
  | .bytes b =>
    if n = 2 ∨ n = 3 then
      match Integer.ofArgument (n = 3) (beNat b) with
      | some i => .integer i
      | none => .tag n (.bytes (stripZeros b))
    else .tag n (.bytes b)
  | v => .tag n v

mutual
/-- The value in normal form: entries sorted, bignums reduced, one not-a-number. -/
def norm : Value → Value
  | .float bits => .float (normFloat bits)
  | .tag n content => reduceTag n content.norm
  | .array items => .array (normItems items)
  | .map entries => .map (sortEntries (normEntries entries))
  | .integer i => .integer i
  | .bytes b => .bytes b
  | .text s => .text s
  | .bool b => .bool b
  | .null => .null
  | .simple s => .simple s

/-- `norm` of each element. -/
def normItems : List Value → List Value
  | [] => []
  | v :: vs => v.norm :: normItems vs

/-- `norm` of each key and value. -/
def normEntries : List (Value × Value) → List (Value × Value)
  | [] => []
  | (k, v) :: es => (k.norm, v.norm) :: normEntries es
end

/-- The deterministic encoding. -/
def canonical (v : Value) : Bytes := v.norm.encode

theorem normItems_eq (vs : List Value) : normItems vs = vs.map norm := by
  induction vs with
  | nil => rfl
  | cons v vs ih => rw [normItems, ih, List.map_cons]

theorem normEntries_eq (es : List (Value × Value)) :
    normEntries es = es.map fun e => (e.1.norm, e.2.norm) := by
  induction es with
  | nil => rfl
  | cons e es ih =>
    obtain ⟨k, v⟩ := e
    rw [normEntries, ih, List.map_cons]

theorem mem_sort_norm {es : List (Value × Value)} {e : Value × Value} :
    e ∈ sortEntries (normEntries es) ↔ ∃ e' ∈ es, (e'.1.norm, e'.2.norm) = e := by
  rw [mem_sortEntries, normEntries_eq, List.mem_map]

theorem length_sort_norm (es : List (Value × Value)) :
    (sortEntries (normEntries es)).length = es.length := by
  rw [(sortEntries_perm _).length_eq, normEntries_eq, List.length_map]

theorem normFloat_normFloat (bits : UInt64) :
    normFloat (normFloat bits) = normFloat bits := by
  by_cases h : IsNan bits
  · simp [normFloat, h]
  · simp [normFloat, h]

theorem beNat_stripZeros (b : Bytes) : beNat (stripZeros b) = beNat b := by
  induction b with
  | nil => rfl
  | cons x b ih =>
    by_cases hx : x = 0
    · subst hx
      exact ih
    · rw [stripZeros, List.dropWhile_cons_of_neg (by simpa using hx)]

theorem stripZeros_stripZeros (b : Bytes) : stripZeros (stripZeros b) = stripZeros b := by
  induction b with
  | nil => rfl
  | cons x b ih =>
    by_cases hx : x = 0
    · subst hx
      exact ih
    · have h : stripZeros (x :: b) = x :: b :=
        List.dropWhile_cons_of_neg (by simpa using hx)
      rw [h, h]

/-- A tagged value stays tagged, but for the bignums. -/
theorem reduceTag_cases (t : UInt64) (v : Value) :
    reduceTag t v = .tag t v ∨ (t = 2 ∨ t = 3) ∧ ∃ b, v = .bytes b ∧
      ((∃ i, reduceTag t v = .integer i) ∨ reduceTag t v = .tag t (.bytes (stripZeros b))) := by
  cases v with
  | bytes b =>
    by_cases ht : t = 2 ∨ t = 3
    · refine .inr ⟨ht, b, rfl, ?_⟩
      rw [reduceTag, if_pos ht]
      cases Integer.ofArgument (t = 3) (beNat b) with
      | some i => exact .inl ⟨i, rfl⟩
      | none => exact .inr rfl
    · exact .inl (if_neg ht)
  | integer | text | float | bool | null | simple | tag | array | map => exact .inl rfl

/-- Only a byte string has its normal form. -/
theorem eq_bytes_of_norm {v : Value} {b : Bytes} (h : v.norm = .bytes b) : v = .bytes b := by
  cases v with
  | bytes => exact h
  | tag n content =>
    rw [norm] at h
    rcases reduceTag_cases n content.norm with heq | ⟨-, _, -, ⟨_, heq⟩ | heq⟩
    · rw [heq] at h
      cases h
    · rw [heq] at h
      cases h
    · rw [heq] at h
      cases h
  | integer | text | float | bool | null | simple | array | map => cases h

theorem norm_reduceTag {n : UInt64} {v : Value} (h : v.norm = v) :
    (reduceTag n v).norm = reduceTag n v := by
  have plain (h' : reduceTag n v = .tag n v) : (reduceTag n v).norm = reduceTag n v := by
    rw [h', norm, h, h']
  cases v with
  | bytes b =>
    by_cases hn : n = 2 ∨ n = 3
    · cases hi : Integer.ofArgument (n = 3) (beNat b) with
      | some i => simp [reduceTag, hn, hi, norm]
      | none =>
        have he : reduceTag n (.bytes b) = .tag n (.bytes (stripZeros b)) := by
          simp [reduceTag, hn, hi]
        have he' : reduceTag n (.bytes (stripZeros b)) = .tag n (.bytes (stripZeros b)) := by
          simp [reduceTag, hn, beNat_stripZeros, hi, stripZeros_stripZeros]
        rw [he, norm, norm, he']
    · exact plain (by simp [reduceTag, hn])
  | integer | text | float | bool | null | simple | tag | array | map => exact plain rfl

/-- Normalizing twice changes nothing more. -/
@[simp] theorem norm_norm (v : Value) : v.norm.norm = v.norm := by
  induction v with
  | float bits => rw [norm, norm, normFloat_normFloat]
  | tag n content ih => rw [norm, norm_reduceTag ih]
  | array items ih =>
    rw [norm, norm, normItems_eq, normItems_eq, List.map_map]
    exact congrArg Value.array (List.map_congr_left ih)
  | map entries ih =>
    have h : normEntries (sortEntries (normEntries entries)) =
        sortEntries (normEntries entries) := by
      rw [normEntries_eq (sortEntries _)]
      refine (List.map_congr_left fun e he => ?_).trans (List.map_id _)
      obtain ⟨e', he', rfl⟩ := mem_sort_norm.mp he
      rw [(ih e' he').1, (ih e' he').2]
      rfl
    rw [norm, norm, h, sortEntries_sortEntries]
  | integer | bytes | text | bool | null | simple => rfl

/-- Reducing a tag and normalizing it can be exchanged. -/
theorem norm_reduceTag_eq (n : UInt64) (v : Value) :
    (reduceTag n v).norm = reduceTag n v.norm := by
  cases v with
  | bytes b => exact norm_reduceTag rfl
  | integer | text | float | bool | null | simple | tag | array | map => rfl

theorem canonical_norm (v : Value) : v.norm.canonical = v.canonical := by
  rw [canonical, canonical, norm_norm]

/-! ### Values that can be written -/

/-- Every string, array and map has a length that fits a head. -/
def Writable (v : Value) : Prop := v.toTree.Fits

theorem writable_bytes {b : Bytes} :
    (Value.bytes b).Writable ↔ b.length < 18446744073709551616 := by
  rw [Writable, toTree, Tree.Fits, Tree.all_iff]
  simp [Tree.NodeFits, Tree.children, lt_bound_preferred_iff]

theorem writable_text {s : String} :
    (Value.text s).Writable ↔ (utf8 s).length < 18446744073709551616 := by
  rw [Writable, toTree, Tree.Fits, Tree.all_iff]
  simp [Tree.NodeFits, Tree.children, lt_bound_preferred_iff]

theorem writable_integer (i : Integer) : (Value.integer i).Writable := by
  rw [Writable, toTree, Tree.Fits, Tree.all_iff]
  simp [Tree.NodeFits, Tree.children, lt_bound_preferred_iff, i.argument_lt]

theorem writable_bool (b : Bool) : (Value.bool b).Writable := by
  rw [Writable, toTree, Tree.Fits, Tree.all_iff]
  cases b <;> simp [Tree.NodeFits, Tree.children, Width.bound]

theorem writable_null : Value.null.Writable := by
  rw [Writable, toTree, Tree.Fits, Tree.all_iff]
  simp [Tree.NodeFits, Tree.children, Width.bound]

theorem writable_simple (s : Simple) : (Value.simple s).Writable := by
  have := s.valid
  rw [Writable, toTree, Tree.Fits, Tree.all_iff]
  simp only [Tree.NodeFits, Tree.children, lt_bound_preferred_iff]
  exact ⟨by omega, by simp⟩

theorem writable_tag {n : UInt64} {v : Value} : (Value.tag n v).Writable ↔ v.Writable := by
  rw [Writable, toTree, Tree.Fits, Tree.all_iff]
  simp [Tree.NodeFits, Tree.children, lt_bound_preferred_iff, n.toNat_lt, Writable, Tree.Fits]

theorem writable_array {vs : List Value} :
    (Value.array vs).Writable ↔
      vs.length < 18446744073709551616 ∧ ∀ v ∈ vs, v.Writable := by
  rw [Writable, toTree, toTreeItems_eq, Tree.Fits, Tree.all_iff]
  simp [Tree.NodeFits, Tree.children, lt_bound_preferred_iff, Writable, Tree.Fits]

theorem writable_map {es : List (Value × Value)} :
    (Value.map es).Writable ↔
      es.length < 18446744073709551616 ∧ ∀ e ∈ es, e.1.Writable ∧ e.2.Writable := by
  rw [Writable, toTree, toTreeEntries_eq, Tree.Fits, Tree.all_iff]
  simp only [Tree.NodeFits, Tree.children, forall_mem_entries, List.forall_mem_map]
  simp [lt_bound_preferred_iff, Writable, Tree.Fits]

theorem writable_float (bits : UInt64) : (Value.float bits).Writable := by
  cases h : shortestFloat bits with
  | mk w n =>
    rw [Writable, toTree, h, Tree.Fits, Tree.all_iff]
    exact ⟨(shortestFloat_spec h).2.1, by simp [Tree.children]⟩

theorem length_stripZeros_le (b : Bytes) : (stripZeros b).length ≤ b.length :=
  (List.dropWhile_sublist _).length_le

theorem Writable.reduceTag {n : UInt64} {v : Value} (h : v.Writable) :
    (reduceTag n v).Writable := by
  have plain (h' : Value.reduceTag n v = .tag n v) : (Value.reduceTag n v).Writable := by
    rw [h', writable_tag]
    exact h
  cases v with
  | bytes b =>
    by_cases hn : n = 2 ∨ n = 3
    · rw [Value.reduceTag, if_pos hn]
      split
      · exact writable_integer _
      · rw [writable_tag, writable_bytes]
        rw [writable_bytes] at h
        exact lt_of_le_of_lt (length_stripZeros_le b) h
    · exact plain (by simp [Value.reduceTag, hn])
  | integer | text | float | bool | null | simple | tag | array | map => exact plain rfl

/-- Normalizing makes nothing longer. -/
theorem Writable.norm {v : Value} (h : v.Writable) : v.norm.Writable := by
  induction v with
  | float bits => exact writable_float _
  | tag n content ih =>
    rw [Value.norm]
    exact (ih (writable_tag.mp h)).reduceTag
  | array items ih =>
    rw [writable_array] at h
    rw [Value.norm, normItems_eq, writable_array, List.length_map, List.forall_mem_map]
    exact ⟨h.1, fun v hv => ih v hv (h.2 v hv)⟩
  | map entries ih =>
    rw [writable_map] at h
    rw [Value.norm, writable_map, length_sort_norm]
    refine ⟨h.1, fun e he => ?_⟩
    obtain ⟨e', he', rfl⟩ := mem_sort_norm.mp he
    exact ⟨(ih e' he').1 (h.2 e' he').1, (ih e' he').2 (h.2 e' he').2⟩
  | integer | bytes | text | bool | null | simple => exact h

/-- A written value contains no short simple value. -/
theorem toTree_notShort (v : Value) : v.toTree.All fun t => ¬ t.IsShortSimple := by
  induction v with
  | float bits =>
    cases h : shortestFloat bits with
    | mk w n =>
      rw [toTree, h]
      refine .node ?_ (by simp [Tree.children])
      rcases (shortestFloat_spec h).1 with rfl | rfl | rfl <;> exact id
  | simple s =>
    refine .node ?_ (by simp [toTree, Tree.children])
    by_cases hlt : s.val < 24
    · simp [toTree, preferred, hlt, Tree.IsShortSimple]
    · have := s.valid
      have h256 : s.val < 256 := by omega
      simp only [toTree, preferred, hlt, h256, if_true, if_false, Tree.IsShortSimple]
      omega
  | tag n content ih => exact .node id (by simpa [toTree, Tree.children] using ih)
  | array items ih =>
    refine .node id ?_
    simpa [toTree, toTreeItems_eq, Tree.children] using ih
  | map entries ih =>
    refine .node id ?_
    rw [toTree, toTreeEntries_eq, Tree.children, forall_mem_entries, List.forall_mem_map]
    exact ih
  | integer | bytes | text | bool | null =>
    exact .node id (by simp [toTree, Tree.children])

theorem Writable.wellFormed {v : Value} (h : v.Writable) : v.toTree.WellFormed :=
  ⟨h, toTree_notShort v⟩

/-- What is written determines the value. -/
theorem encode_inj {v w : Value} (hv : v.Writable) (hw : w.Writable)
    (h : v.encode = w.encode) : v = w := by
  have hvalue := congrArg Tree.value (bytes_inj hv hw h)
  rw [value_toTree, value_toTree] at hvalue
  exact Option.some.inj hvalue

/-- **Two values have the same deterministic encoding exactly when they are the
same up to entry order, bignum notation and not-a-number payloads.** -/
theorem canonical_inj {v w : Value} (hv : v.Writable) (hw : w.Writable) :
    v.canonical = w.canonical ↔ v.norm = w.norm := by
  constructor
  · intro h
    exact encode_inj hv.norm hw.norm h
  · intro h
    rw [canonical, canonical, h]

end Value

/-! ### Items and their values -/

namespace Tree

/-- An integer or a definite-length string with the shortest head. -/
def IsPreferredScalar : Tree → Prop
  | .int _ w n => w = preferred n
  | .str _ w payload => w = preferred payload.length
  | _ => False

/-- Such an item is written the way its value is. -/
theorem IsPreferredScalar.toTree {t : Tree} (h : t.IsPreferredScalar) {v : Value}
    (hv : t.value = some v) : v.norm.toTree = t := by
  cases t with
  | int negative w n =>
    obtain ⟨i, hi, rfl⟩ := Option.map_eq_some_iff.mp hv
    obtain ⟨-, hneg, harg⟩ := Integer.ofArgument_eq_some hi
    rw [Value.norm, Value.toTree, hneg, harg, ← show w = preferred n from h]
  | str text w payload =>
    have hw : w = preferred payload.length := h
    cases text with
    | false =>
      cases hv
      rw [Value.norm, Value.toTree, hw]
    | true =>
      obtain ⟨s, hs, rfl⟩ := Option.map_eq_some_iff.mp hv
      rw [Value.norm, Value.toTree, utf8_of_ofUtf8 hs, hw]
  | chunked | array | map | tag | prim => exact h.elim

theorem strValue_writable {text : Bool} {payload : Bytes}
    (hlen : payload.length < 18446744073709551616) {v : Value}
    (hv : strValue text payload = some v) : v.Writable := by
  cases text with
  | false =>
    cases hv
    exact Value.writable_bytes.mpr hlen
  | true =>
    obtain ⟨s, hs, rfl⟩ := Option.map_eq_some_iff.mp hv
    exact Value.writable_text.mpr (by rwa [utf8_of_ofUtf8 hs])

theorem primValue_writable {w : Width} {n : Nat} {v : Value}
    (hv : (Tree.prim w n).value = some v) : v.Writable := by
  have hsimple (h : simpleValue n = some v) : v.Writable := by
    unfold simpleValue at h
    split_ifs at h <;> cases h
    · exact Value.writable_bool false
    · exact Value.writable_bool true
    · exact Value.writable_null
    · exact Value.writable_simple _
  cases w with
  | imm => exact hsimple hv
  | one =>
    rw [value] at hv
    split_ifs at hv
    exact hsimple hv
  | two | four | eight =>
    cases hv
    exact Value.writable_float _

/-- The value of an item that fits in memory can be written again. -/
theorem value_writable {t : Tree} (hlen : t.bytes.length < 18446744073709551616) {v : Value}
    (hv : t.value = some v) : v.Writable := by
  induction t using Tree.induction generalizing v with
  | h t ih =>
    have below (c : Tree) (hc : c ∈ t.children) {u : Value} (hu : c.value = some u) :
        u.Writable := ih c hc (by have := length_lt_of_mem hc; omega) hu
    have hmany := children_length_lt (t := t)
    cases t with
    | int negative w n =>
      obtain ⟨i, -, rfl⟩ := Option.map_eq_some_iff.mp hv
      exact Value.writable_integer i
    | str text w payload => exact strValue_writable ((length_str_lt text w payload).trans hlen) hv
    | chunked text chunks => exact strValue_writable ((length_chunked_lt text chunks).trans hlen) hv
    | array w items =>
      obtain ⟨vs, hvs, rfl⟩ := Option.map_eq_some_iff.mp hv
      have hall := valueItems_eq_some.mp hvs
      rw [Value.writable_array, ← hall.length_eq]
      refine ⟨lt_trans hmany hlen, fun u hu => ?_⟩
      obtain ⟨c, hc, hcu⟩ := forall₂_mem_right hall hu
      exact below c hc hcu
    | map w entries =>
      obtain ⟨es, hes, rfl⟩ := Option.map_eq_some_iff.mp hv
      have hall := valueEntries_eq_some.mp hes
      rw [Value.writable_map, ← hall.length_eq]
      refine ⟨(entries_length_lt w entries).trans hlen, fun e he => ?_⟩
      obtain ⟨c, hc, hk, hu⟩ := forall₂_mem_right hall he
      exact ⟨below c.1 (List.mem_flatMap.mpr ⟨c, hc, by simp⟩) hk,
        below c.2 (List.mem_flatMap.mpr ⟨c, hc, by simp⟩) hu⟩
    | tag w n content =>
      rw [value] at hv
      split_ifs at hv with hn
      obtain ⟨u, hu, rfl⟩ := Option.map_eq_some_iff.mp hv
      exact Value.writable_tag.mpr (below content (by simp [children]) hu)
    | prim w n => exact primValue_writable hv

end Tree
end Cbor

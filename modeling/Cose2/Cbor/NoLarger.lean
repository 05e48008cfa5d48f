import Cose2.Cbor.Undefined

/-! # The deterministic encoding is no larger

A deterministic encoder writes what was read in no more items, and nests them no deeper,
whether undefined was read as such or as null.  It may write more bytes: one long string
takes a longer head than the heads of its chunks together.  But a head is at most nine bytes
long, so the bytes stay below the *room* of the item, in which every head is counted in full.
-/
namespace Cbor

theorem Width.size_le (w : Width) : w.size ≤ 8 := by
  cases w <;> decide

namespace Tree

/-- A bound on the bytes of the item when its heads are written in full. -/
def room (t : Tree) : Nat := t.bytes.length + 8 * t.count

/-- The item `s` is nested no deeper than `t`, consists of no more items, and takes no more
bytes than `t` has room for. -/
structure NoLarger (s t : Tree) : Prop where
  depth : s.depth ≤ t.depth
  count : s.count ≤ t.count
  length : s.bytes.length ≤ t.room

/-- The items `ss` together are no larger than the items `ts` together. -/
structure NoLargerAll (ss ts : List Tree) : Prop where
  depth : ∀ s ∈ ss, ∃ t ∈ ts, s.depth ≤ t.depth
  count : (ss.map Tree.count).sum ≤ (ts.map Tree.count).sum
  length : (ss.map fun s => s.bytes.length).sum ≤ (ts.map room).sum

/-! ### Lists of items -/

theorem NoLargerAll.of_forall₂ {ss ts : List Tree} (h : List.Forall₂ NoLarger ss ts) :
    NoLargerAll ss ts where
  depth s hs := by
    obtain ⟨t, ht, hle⟩ := forall₂_mem_right h.flip hs
    exact ⟨t, ht, hle.depth⟩
  count := by
    apply List.Forall₂.sum_le_sum
    rw [List.forall₂_map_left_iff, List.forall₂_map_right_iff]
    exact h.imp fun _ _ hle => hle.count
  length := by
    apply List.Forall₂.sum_le_sum
    rw [List.forall₂_map_left_iff, List.forall₂_map_right_iff]
    exact h.imp fun _ _ hle => hle.length

theorem NoLargerAll.nil (ts : List Tree) : NoLargerAll [] ts :=
  ⟨by simp, Nat.zero_le _, Nat.zero_le _⟩

theorem NoLargerAll.append {ss ss' ts ts' : List Tree} (h : NoLargerAll ss ts)
    (h' : NoLargerAll ss' ts') : NoLargerAll (ss ++ ss') (ts ++ ts') where
  depth s hs := by
    rcases List.mem_append.mp hs with hs | hs
    · obtain ⟨t, ht, hle⟩ := h.depth s hs
      exact ⟨t, List.mem_append_left _ ht, hle⟩
    · obtain ⟨t, ht, hle⟩ := h'.depth s hs
      exact ⟨t, List.mem_append_right _ ht, hle⟩
  count := by
    rw [List.map_append, List.map_append, List.sum_append, List.sum_append]
    exact Nat.add_le_add h.count h'.count
  length := by
    rw [List.map_append, List.map_append, List.sum_append, List.sum_append]
    exact Nat.add_le_add h.length h'.length

theorem NoLargerAll.cons {s t : Tree} {ss ts : List Tree} (h : NoLarger s t)
    (hrest : NoLargerAll ss ts) : NoLargerAll (s :: ss) (t :: ts) :=
  append (.of_forall₂ (.cons h .nil)) hrest

/-- Some of the items, in any order, are no larger than all of them. -/
theorem NoLargerAll.subperm {ss ss' ts : List Tree} (h : NoLargerAll ss ts)
    (hsub : ss'.Subperm ss) : NoLargerAll ss' ts := by
  obtain ⟨us, hperm, hsub⟩ := hsub
  have hsum (f : Tree → Nat) : (ss'.map f).sum ≤ (ss.map f).sum := by
    rw [← (hperm.map f).sum_eq]
    exact (hsub.map f).sum_le_sum (by simp)
  refine ⟨fun s hs => ?_, (hsum _).trans h.count, (hsum _).trans h.length⟩
  exact h.depth s (hsub.subset (hperm.mem_iff.mpr hs))

/-! ### Items -/

/-- An item without content of its own: a head, and the items inside. -/
def HeadOnly : Tree → Prop
  | .array (some _) _ | .map (some _) _ | .tag .. => True
  | _ => False

theorem HeadOnly.length_le {s : Tree} (h : s.HeadOnly) :
    s.bytes.length ≤ 9 + (s.children.map fun c => c.bytes.length).sum := by
  rw [← List.length_flatMap]
  cases s with
  | int | str | chunked | prim => exact h.elim
  | array w items =>
    cases w with
    | none => exact h.elim
    | some w =>
      have hw := w.size_le
      simp only [bytes, opening, closing, children, bytesItems_eq, List.length_append,
        head_length, List.length_nil]
      omega
  | map w entries =>
    cases w with
    | none => exact h.elim
    | some w =>
      have hw := w.size_le
      have hentries : (bytesEntries entries).length =
          ((children (.map (some w) entries)).flatMap bytes).length := by
        simp [bytesEntries_eq, children, List.flatMap_assoc]
      simp only [bytes, opening, closing, List.length_append, head_length, List.length_nil,
        hentries]
      omega
  | tag w n content =>
    have hw := w.size_le
    simp only [bytes, children, List.length_append, head_length, List.flatMap_cons,
      List.flatMap_nil, List.length_nil]
    omega

/-- The room of an item holds a full head and the room of each item inside. -/
theorem room_children_le (t : Tree) : 9 + (t.children.map room).sum ≤ t.room := by
  obtain ⟨b, op, cl, he⟩ := t.bytes_eq_children
  have hsum : (t.children.map room).sum =
      (t.children.flatMap bytes).length + 8 * (t.children.map count).sum := by
    rw [List.length_flatMap, ← List.sum_map_mul_left, ← List.sum_map_add]
    rfl
  have hlength := congrArg List.length he
  simp only [List.length_append, List.length_cons] at hlength
  rw [hsum, room, hlength, count_eq t]
  omega

/-- Items that are no larger inside are no larger. -/
theorem NoLarger.node {s t : Tree} (h : s.HeadOnly)
    (hchildren : NoLargerAll s.children t.children) : s.NoLarger t where
  depth := depth_le_of_children hchildren.depth
  count := by
    rw [count_eq s, count_eq t]
    exact Nat.succ_le_succ hchildren.count
  length := by
    have hs := h.length_le
    have ht := t.room_children_le
    have hle := hchildren.length
    omega

/-- An item with nothing inside is no larger than an item with room for it. -/
theorem NoLarger.leaf {s t : Tree} (h : s.children = []) (hlength : s.bytes.length ≤ t.room) :
    s.NoLarger t where
  depth := by
    have hzero : s.depth < 0 + 1 := depth_lt_succ_iff.mpr (by simp [h])
    omega
  count := by
    rw [count_eq s, h]
    exact t.count_pos
  length := hlength

theorem nine_le_room (t : Tree) : 9 ≤ t.room := by
  have := t.room_children_le
  omega

/-! ### Strings -/

/-- The content of a byte string is shorter than its encoding. -/
theorem length_lt_of_bytes {t : Tree} {b : Bytes} (h : t.value = some (.bytes b)) :
    b.length < t.bytes.length := by
  obtain ⟨w, rfl⟩ | ⟨chunks, rfl, rfl⟩ := eq_of_value_bytes h
  · exact length_str_lt false w b
  · exact length_chunked_lt false chunks

/-- A string is no larger than an item that is longer than its content. -/
theorem NoLarger.str {text : Bool} {w : Width} {payload : Bytes} {t : Tree}
    (h : payload.length < t.bytes.length) : (Tree.str text w payload).NoLarger t := by
  refine .leaf rfl ?_
  have hw := w.size_le
  have hcount := t.count_pos
  simp only [bytes, strBytes, room, List.length_append, head_length]
  omega

/-! ### Values -/

theorem NoLarger.of_strValue {text : Bool} {payload : Bytes} {v : Value} {t : Tree}
    (hv : strValue text payload = some v) (h : payload.length < t.bytes.length) :
    v.nullify.norm.toTree.NoLarger t := by
  cases text with
  | false =>
    cases hv
    exact .str h
  | true =>
    obtain ⟨s, hs, rfl⟩ := Option.map_eq_some_iff.mp hv
    refine .str ?_
    rwa [utf8_of_ofUtf8 hs]

theorem NoLarger.prim (w : Width) (n : Nat) (t : Tree) : (Tree.prim w n).NoLarger t := by
  refine .leaf rfl (le_trans ?_ t.nine_le_room)
  have hw := w.size_le
  simp only [bytes, head_length]
  omega

theorem NoLarger.integer (i : Integer) (t : Tree) : (Value.integer i).toTree.NoLarger t := by
  refine .leaf rfl (le_trans ?_ t.nine_le_room)
  have hw := (preferred i.argument).size_le
  simp only [Value.toTree, bytes, head_length]
  omega

/-- What an item of major type 7 means is one again. -/
theorem toTree_of_primValue {w : Width} {n : Nat} {v : Value}
    (h : (Tree.prim w n).value = some v) : ∃ w' n', v.nullify.norm.toTree = .prim w' n' := by
  have hsimple (hs : simpleValue n = some v) : ∃ w' n', v.nullify.norm.toTree = .prim w' n' := by
    unfold simpleValue at hs
    split_ifs at hs <;> cases hs
    case pos => exact ⟨_, _, rfl⟩
    case pos => exact ⟨_, _, rfl⟩
    case pos => exact ⟨_, _, rfl⟩
    case pos hn =>
      rcases Value.nullify_simple ⟨n, hn⟩ with heq | heq
      · rw [heq]
        exact ⟨_, _, rfl⟩
      · rw [heq]
        exact ⟨_, _, rfl⟩
  cases w with
  | imm => exact hsimple h
  | one =>
    rw [value] at h
    split_ifs at h
    exact hsimple h
  | two | four | eight =>
    cases h
    exact ⟨_, _, rfl⟩

/-- There is nothing inside such an item. -/
theorem children_of_primValue {w : Width} {n : Nat} {v : Value}
    (h : (Tree.prim w n).value = some v) : v.toTree.children = [] := by
  have hsimple (hs : simpleValue n = some v) : v.toTree.children = [] := by
    unfold simpleValue at hs
    split_ifs at hs <;> cases hs
    all_goals rfl
  cases w with
  | imm => exact hsimple h
  | one =>
    rw [value] at h
    split_ifs at h
    exact hsimple h
  | two | four | eight =>
    cases h
    rfl

/-- The members of a list that was read one by one, in normal form. -/
theorem NoLargerAll.of_values {ts : List Tree} {vs : List Value}
    (hread : List.Forall₂ (fun t v => t.value = some v) ts vs)
    (h : ∀ t ∈ ts, ∀ v, t.value = some v → v.nullify.norm.toTree.NoLarger t) :
    NoLargerAll (vs.map fun v => v.nullify.norm.toTree) ts := by
  refine .of_forall₂ ?_
  rw [List.forall₂_map_left_iff]
  exact ((List.forall₂_and_left _ _).mpr ⟨h, hread⟩).flip.imp fun v t hv => hv.1 v hv.2

/-- An array is no larger when its elements are not. -/
theorem NoLarger.array {vs : List Value} {w : Option Width} {ts : List Tree}
    (h : NoLargerAll (vs.map Value.toTree) ts) :
    (Value.array vs).toTree.NoLarger (.array w ts) := by
  rw [Value.toTree, Value.toTreeItems_eq]
  exact .node trivial h

/-- **The deterministic encoding of what was read is no larger than the item**, with null in
place of undefined. -/
theorem norm_noLarger {t : Tree} {v : Value} (h : t.value = some v) :
    v.nullify.norm.toTree.NoLarger t := by
  induction t using Tree.induction generalizing v with
  | h t ih =>
    cases t with
    | int negative w n =>
      obtain ⟨i, -, rfl⟩ := Option.map_eq_some_iff.mp h
      exact .integer i _
    | str text w payload => exact .of_strValue h (length_str_lt text w payload)
    | chunked text chunks => exact .of_strValue h (length_chunked_lt text chunks)
    | array w items =>
      obtain ⟨vs, hvs, rfl⟩ := Option.map_eq_some_iff.mp h
      have hall := NoLargerAll.of_values (valueItems_eq_some.mp hvs) fun t ht v hv => ih t ht hv
      rw [Value.nullify, Value.nullifyItems_eq, Value.norm, Value.normItems_eq, List.map_map]
      refine .array ?_
      rwa [List.map_map]
    | map w entries =>
      obtain ⟨es, hes, rfl⟩ := Option.map_eq_some_iff.mp h
      have hparts : List.Forall₂ (fun t v => t.value = some v)
          (entries.flatMap fun e => [e.1, e.2]) (es.flatMap fun e => [e.1, e.2]) := by
        have hentries := valueEntries_eq_some.mp hes
        clear h hes ih
        induction hentries with
        | nil => exact .nil
        | cons hone _ ih => exact .cons hone.1 (.cons hone.2 ih)
      have hall := NoLargerAll.of_values hparts fun t ht v hv => ih t ht hv
      rw [Value.nullify, Value.nullifyEntries_eq, Value.norm, Value.normEntries_eq, List.map_map,
        Value.toTree, Value.toTreeEntries_eq]
      refine .node trivial (hall.subperm ?_)
      -- sorting moves the entries as a whole
      have hsort := (Value.sortEntries_perm
        (es.map fun e => (e.1.nullify.norm, e.2.nullify.norm))).flatMap_right
          fun e => [e.1.toTree, e.2.toTree]
      simpa [children, List.flatMap_map, List.map_flatMap, Function.comp_def] using hsort.subperm
    | tag w n content =>
      rw [value] at h
      split_ifs at h
      obtain ⟨u, hu, rfl⟩ := Option.map_eq_some_iff.mp h
      have hcontent := ih content (List.mem_singleton_self _) hu
      rw [Value.nullify, Value.norm]
      rcases Value.reduceTag_cases (UInt64.ofNat n) u.nullify.norm with
        heq | ⟨-, b, hb, ⟨i, heq⟩ | heq⟩
      · rw [heq]
        exact .node trivial (.cons hcontent (.nil _))
      · rw [heq]
        exact .integer i _
      · rw [heq]
        rw [Value.eq_bytes_of_nullify (Value.eq_bytes_of_norm hb)] at hu
        have hstrip := Value.length_stripZeros_le b
        exact .node trivial (.cons (.str (hstrip.trans_lt (length_lt_of_bytes hu))) (.nil _))
    | prim w n =>
      obtain ⟨w', n', hv⟩ := toTree_of_primValue h
      rw [hv]
      exact .prim w' n' _

/-- A value is nested no deeper than the item it was read from. -/
theorem depth_value_le {t : Tree} {v : Value} (h : t.value = some v) :
    v.toTree.depth ≤ t.depth := by
  induction t using Tree.induction generalizing v with
  | h t ih =>
    have below {c : Tree} (hc : c ∈ t.children) {u : Value} (hu : c.value = some u) :
        u.toTree.depth < t.depth :=
      (ih c hc hu).trans_lt (depth_lt_of_mem hc)
    rw [← Nat.lt_succ_iff, depth_lt_succ_iff]
    cases t with
    | int =>
      obtain ⟨i, -, rfl⟩ := Option.map_eq_some_iff.mp h
      exact fun s hs => absurd hs List.not_mem_nil
    | str text | chunked text =>
      cases text with
      | false =>
        cases h
        exact fun s hs => absurd hs List.not_mem_nil
      | true =>
        obtain ⟨s, -, rfl⟩ := Option.map_eq_some_iff.mp h
        exact fun s hs => absurd hs List.not_mem_nil
    | array w items =>
      obtain ⟨vs, hvs, rfl⟩ := Option.map_eq_some_iff.mp h
      rw [Value.toTree, Value.toTreeItems_eq, children, List.forall_mem_map]
      intro u hu
      obtain ⟨c, hc, hcu⟩ := forall₂_mem_right (valueItems_eq_some.mp hvs) hu
      exact below hc hcu
    | map w entries =>
      obtain ⟨es, hes, rfl⟩ := Option.map_eq_some_iff.mp h
      rw [Value.toTree, Value.toTreeEntries_eq, children, forall_mem_entries, List.forall_mem_map]
      intro e he
      obtain ⟨c, hc, hk, hu⟩ := forall₂_mem_right (valueEntries_eq_some.mp hes) he
      exact ⟨below (List.mem_flatMap.mpr ⟨c, hc, by simp⟩) hk,
        below (List.mem_flatMap.mpr ⟨c, hc, by simp⟩) hu⟩
    | tag w n content =>
      rw [value] at h
      split_ifs at h
      obtain ⟨u, hu, rfl⟩ := Option.map_eq_some_iff.mp h
      rw [Value.toTree, children, List.forall_mem_singleton]
      exact below (List.mem_singleton_self _) hu
    | prim w n =>
      rw [children_of_primValue h]
      exact fun s hs => absurd hs List.not_mem_nil

/-- What is read of a value is no larger than the value. -/
theorem nullify_noLarger (v : Value) : v.nullify.toTree.NoLarger v.toTree := by
  induction v with
  | simple s =>
    rcases Value.nullify_simple s with h | h
    · rw [h]
      exact .prim _ _ _
    · rw [h]
      exact .prim _ _ _
  | tag n content ih => exact .node trivial (.cons ih (.nil _))
  | array items ih =>
    rw [Value.nullify, Value.nullifyItems_eq]
    refine .array (.of_forall₂ ?_)
    rw [Value.toTreeItems_eq, List.map_map, List.forall₂_map_left_iff, List.forall₂_map_right_iff,
      List.forall₂_same]
    exact ih
  | map entries ih =>
    rw [Value.nullify, Value.nullifyEntries_eq, Value.toTree, Value.toTreeEntries_eq, Value.toTree,
      Value.toTreeEntries_eq]
    refine .node trivial ?_
    rw [children, children]
    induction entries with
    | nil => exact .nil _
    | cons e es ihs =>
      rw [List.forall_mem_cons] at ih
      exact .cons ih.1.1 (.cons ih.1.2 (ihs ih.2))
  | integer | bytes | text | float | bool | null =>
    exact ⟨le_rfl, le_rfl, Nat.le_add_right _ _⟩

end Tree
end Cbor

import Cose2.Strict.Accessors
import Cose2.Strict.Cursor

/-! # The item of a tree

`itemAt` is what the parser has to return for an encoded item, and `treeKey` the
bytes that a map key is compared by.  Neither mentions the parser's position
other than as an offset.
-/
namespace Cose2.Strict

open Cbor

/-! ### The item of a tree -/

/-- The kind that a byte or text string gets. -/
def strKind (text : Bool) : Kind := if text then .text else .bytes

/-- The kind of an encoded item. -/
def kindOf : Tree → Kind
  | .int negative _ _ => if negative then .negative else .unsigned
  | .str text _ _ | .chunked text _ => strKind text
  | .array .. => .array
  | .map .. => .map
  | .tag _ n _ => .tag n
  | .prim .imm n | .prim .one n => .simple n
  | .prim _ _ => .float

/-- The number of bytes in front of the content. -/
def headLength : Tree → Nat
  | .int _ w _ | .str _ w _ | .tag w _ _ | .prim w _ => 1 + w.size
  | .chunked .. => 1
  | .array w _ | .map w _ => (w.map fun w => 1 + w.size).getD 1

/-- Whether the item itself has indefinite length. -/
def indefiniteOf : Tree → Bool
  | .chunked .. | .array none _ | .map none _ => true
  | _ => false

/-- The item of a tree at `pos`, given the items kept of its children. -/
def itemWith (pos : Nat) (t : Tree) (kept : List Item) : Item :=
  .mk (kindOf t) pos (pos + headLength t) (pos + t.bytes.length) (indefiniteOf t) kept

/-- The items of the chunks of a string. -/
def chunksAt (text : Bool) : Nat → List (Width × Bytes) → List Item
  | _, [] => []
  | pos, ch :: chs =>
    itemWith pos (.str text ch.1 ch.2) [] ::
      chunksAt text (pos + (Tree.strBytes text ch).length) chs

mutual
/-- What the parser returns for the tree when it starts at `pos`. -/
def itemAt : Nat → Tree → Item
  | pos, .chunked text chunks =>
    itemWith pos (.chunked text chunks) (chunksAt text (pos + 1) chunks)
  | pos, .array w items =>
    itemWith pos (.array w items) (itemsAt (pos + headLength (.array w items)) items)
  | pos, .tag w n content =>
    itemWith pos (.tag w n content) [itemAt (pos + (1 + w.size)) content]
  | pos, .int negative w n => itemWith pos (.int negative w n) []
  | pos, .str text w payload => itemWith pos (.str text w payload) []
  | pos, .map w entries => itemWith pos (.map w entries) []
  | pos, .prim w n => itemWith pos (.prim w n) []

/-- The same for trees one after the other. -/
def itemsAt : Nat → List Tree → List Item
  | _, [] => []
  | pos, t :: ts => itemAt pos t :: itemsAt (pos + t.bytes.length) ts
end

theorem chunksAt_eq (text : Bool) (pos : Nat) (chunks : List (Width × Bytes)) :
    chunksAt text pos chunks = itemsAt pos (chunks.map fun ch => .str text ch.1 ch.2) := by
  induction chunks generalizing pos with
  | nil => rfl
  | cons ch chs ih => rw [chunksAt, ih]; rfl

/-- The items kept of the children when the content starts at `pos`. -/
def keptAt (pos : Nat) : Tree → List Item
  | .chunked text chunks => chunksAt text pos chunks
  | .array _ items => itemsAt pos items
  | .tag _ _ content => [itemAt pos content]
  | .int .. | .str .. | .map .. | .prim .. => []

theorem itemAt_eq (pos : Nat) (t : Tree) :
    itemAt pos t = itemWith pos t (keptAt (pos + headLength t) t) := by
  cases t <;> rfl

@[simp] theorem itemAt_kind (pos : Nat) (t : Tree) : (itemAt pos t).kind = kindOf t := by
  rw [itemAt_eq]
  rfl

@[simp] theorem itemAt_start (pos : Nat) (t : Tree) : (itemAt pos t).start = pos := by
  rw [itemAt_eq]
  rfl

@[simp] theorem itemAt_contentStart (pos : Nat) (t : Tree) :
    (itemAt pos t).contentStart = pos + headLength t := by
  rw [itemAt_eq]
  rfl

@[simp] theorem itemAt_endPos (pos : Nat) (t : Tree) :
    (itemAt pos t).endPos = pos + t.bytes.length := by
  rw [itemAt_eq]
  rfl

@[simp] theorem itemAt_indefinite (pos : Nat) (t : Tree) :
    (itemAt pos t).indefinite = indefiniteOf t := by
  rw [itemAt_eq]
  rfl

theorem indefiniteOf_iff {t : Tree} : indefiniteOf t = true ↔ t.IsIndefinite := by
  cases t with
  | array w items => cases w <;> simp [indefiniteOf, Tree.IsIndefinite]
  | map w entries => cases w <;> simp [indefiniteOf, Tree.IsIndefinite]
  | int | str | chunked | tag | prim => simp [indefiniteOf, Tree.IsIndefinite]

/-! ### The bytes of an item in its place -/

theorem bytesIn_placed {data : Bytes} {pos : Nat} {t : Tree} (h : t.bytes <+: data.drop pos) :
    (itemAt pos t).bytesIn data = t.bytes := by
  rw [Item.bytesIn, itemAt_start, itemAt_endPos, slice_of_prefix h]

/-- The same behind what comes before the item. -/
theorem bytesIn_suffix {data pre : Bytes} {t : Tree} (h : data = pre ++ t.bytes) :
    (itemAt (0 + pre.length) t).bytesIn data = t.bytes :=
  bytesIn_placed (append_prefix_drop.mp (h ▸ List.prefix_rfl)).2

/-- The ranges of items that stand one behind the other cut out their bytes. -/
theorem map_bytesIn_itemsAt {data : Bytes} {pos : Nat} {ts : List Tree}
    (h : ts.flatMap Tree.bytes <+: data.drop pos) :
    (itemsAt pos ts).map (·.bytesIn data) = ts.map Tree.bytes := by
  induction ts generalizing pos with
  | nil => rfl
  | cons t ts ih =>
    rw [List.flatMap_cons, append_prefix_drop] at h
    rw [itemsAt, List.map_cons, bytesIn_placed h.1, ih h.2, List.map_cons]

/-! ### Map keys -/

section Keys

variable (c : Cbor2)

instance : DecidablePred Tree.IsPreferredScalar := fun t =>
  match t with
  | .int _ w n => inferInstanceAs (Decidable (w = preferred n))
  | .str _ w payload => inferInstanceAs (Decidable (w = preferred payload.length))
  | .chunked .. | .array .. | .map .. | .tag .. | .prim .. => inferInstanceAs (Decidable False)

/-- The bytes a map key is compared by. -/
def treeKey (t : Tree) : Except Error Bytes :=
  if t.IsPreferredScalar then .ok t.bytes
  else do c.canonicalVec (← c.fromSlice t.bytes)

theorem preferredLen_eq {n : Nat} (hn : n < 18446744073709551616) :
    Parser.preferredLen n = 1 + (preferred n).size := by
  unfold Parser.preferredLen preferred
  split_ifs <;> simp only [Width.size] <;> omega

theorem size_inj {w w' : Width} (h : w.size = w'.size) : w = w' := by
  cases w <;> cases w' <;> simp [Width.size] at h <;> rfl

theorem headArgument_head {major n : Nat} {w : Width} (hm : major < 8) (hn : n < w.bound) :
    Parser.headArgument (head major w n) = n := by
  have hi := Width.info_lt hn
  rw [head, Parser.headArgument, initial_info hm (by omega)]
  cases w with
  | imm => exact if_pos (Nat.le_of_lt_succ hn)
  | one | two | four | eight =>
    rw [if_neg (by simp [Width.info]), beNat_beBytes (Width.lt_pow_size hn (by simp))]

/-- On a head, the source's length test says that the width is the preferred one. -/
theorem preferredLen_head {major n : Nat} {w : Width} (hm : major < 8) (hn : n < w.bound) :
    (head major w n).length = Parser.preferredLen (Parser.headArgument (head major w n)) ↔
      w = preferred n := by
  rw [headArgument_head hm hn, head_length,
    preferredLen_eq (lt_of_lt_of_le hn w.bound_le)]
  constructor
  · intro h
    exact size_inj (by omega)
  · rintro rfl
    rfl

theorem canonicalKey_itemAt {p : Parser} {pos : Nat} {t : Tree} (ht : t.NodeFits)
    (h : t.bytes <+: p.data.drop pos) : p.canonicalKey c (itemAt pos t) = treeKey c t := by
  rw [Parser.canonicalKey, treeKey]
  simp only [itemAt_kind, itemAt_start, itemAt_endPos, itemAt_contentStart, itemAt_indefinite,
    slice_of_prefix h, Nat.add_sub_cancel_left]
  refine if_congr ?_ rfl rfl
  cases t with
  | int negative w n =>
    have hhead := preferredLen_head (Tree.intMajor_lt negative) (show n < w.bound from ht)
    have htake : (Tree.int negative w n).bytes.take (headLength (.int negative w n)) =
        head (Tree.intMajor negative) w n := by
      rw [Tree.bytes, headLength, List.take_of_length_le (by simp)]
    rw [htake, hhead]
    cases negative <;> simp [kindOf, Tree.IsPreferredScalar]
  | str text w payload =>
    have hhead := preferredLen_head (Tree.strMajor_lt text)
      (show payload.length < w.bound from ht)
    have htake : (Tree.str text w payload).bytes.take (headLength (.str text w payload)) =
        head (Tree.strMajor text) w payload.length := by
      rw [Tree.bytes, Tree.strBytes, headLength, List.take_append_of_le_length (by simp),
        List.take_of_length_le (by simp)]
    rw [htake, hhead]
    cases text <;> simp [kindOf, strKind, indefiniteOf, Tree.IsPreferredScalar]
  | chunked text chunks =>
    cases text <;> simp [kindOf, strKind, indefiniteOf, Tree.IsPreferredScalar]
  | array | map | tag => simp [kindOf, Tree.IsPreferredScalar]
  | prim w n => cases w <;> simp [kindOf, Tree.IsPreferredScalar]

/-- Recording one more key. -/
def KeyStep (keys : Option (List Bytes)) (key : Tree) (keys' : Option (List Bytes)) : Prop :=
  match keys with
  | none => keys' = none
  | some seen => ∃ k, treeKey c key = .ok k ∧ k ∉ seen ∧ keys' = some (k :: seen)

theorem insertKey_ok {p : Parser} {pos : Nat} {t : Tree} (ht : t.NodeFits)
    (h : t.bytes <+: p.data.drop pos) {keys keys' : Option (List Bytes)} :
    p.insertKey c keys (itemAt pos t) = .ok keys' ↔ KeyStep c keys t keys' := by
  cases keys with
  | none => simp [Parser.insertKey, KeyStep, eq_comm]
  | some seen =>
    simp only [Parser.insertKey, KeyStep, canonicalKey_itemAt c ht h, Except.bind_eq_ok,
      Except.failIf_eq_ok, Except.pure_eq_ok]
    constructor
    · rintro ⟨k, hk, -, hmem, rfl⟩
      exact ⟨k, hk, hmem, rfl⟩
    · rintro ⟨k, hk, hmem, rfl⟩
      exact ⟨k, hk, (), hmem, rfl⟩

/-- The keys of a map can all be compared and are pairwise distinct. -/
def DistinctKeys : Tree → Prop
  | .map _ entries => ∃ ks,
      List.Forall₂ (fun e k => treeKey c e.1 = .ok k) entries ks ∧ ks.Nodup
  | _ => True

/-- That holds of every map in an item. -/
def KeysOk (t : Tree) : Prop := t.All (DistinctKeys c)

theorem run_keyStep_none {ts : List Tree} {keys : Option (List Bytes)} :
    Run (KeyStep c) none ts keys ↔ keys = none := by
  induction ts with
  | nil => simp [eq_comm]
  | cons t ts ih => simp [KeyStep, ih]

theorem run_keyStep_some {ts : List Tree} {seen : List Bytes} (hseen : seen.Nodup) :
    (∃ keys, Run (KeyStep c) (some seen) ts keys) ↔
      ∃ ks, List.Forall₂ (fun t k => treeKey c t = .ok k) ts ks ∧ (ks.reverse ++ seen).Nodup := by
  induction ts generalizing seen with
  | nil => simp [hseen]
  | cons t ts ih =>
    simp only [Run.cons_iff, KeyStep, List.forall₂_cons_left_iff]
    constructor
    · rintro ⟨keys, _, ⟨k, hk, hmem, rfl⟩, hrun⟩
      obtain ⟨ks, hks, hnodup⟩ := (ih (List.nodup_cons.mpr ⟨hmem, hseen⟩)).mp ⟨keys, hrun⟩
      exact ⟨k :: ks, ⟨k, ks, hk, hks, rfl⟩, by simpa using hnodup⟩
    · rintro ⟨_, ⟨k, ks, hk, hks, rfl⟩, hnodup⟩
      have hnodup' : (ks.reverse ++ (k :: seen)).Nodup := by simpa using hnodup
      have hmem := (List.nodup_cons.mp (List.nodup_append.mp hnodup').2.1).1
      obtain ⟨keys, hrun⟩ :=
        (ih (List.nodup_append.mp hnodup').2.1).mpr ⟨ks, hks, hnodup'⟩
      exact ⟨keys, _, ⟨k, hk, hmem, rfl⟩, hrun⟩

end Keys

end Cose2.Strict

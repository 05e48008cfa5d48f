import Cose2.Cbor.Head

/-! # Encoded data items

A `Tree` is one encoded CBOR data item with nothing abstracted away: it records
the width every argument is written in, the chunks of an indefinite-length
string, and whether an array or a map is definite or indefinite.  `Tree.bytes`
writes it out.  RFC 8949 calls a byte string *well-formed* when it is the
encoding of such an item; here that is `∃ t, t.WellFormed ∧ t.bytes = data`.
-/
namespace Cbor

/-- An encoded data item.  `none` in place of a width marks indefinite length. -/
inductive Tree where
  /-- Major types 0 and 1; the negative item with argument `n` denotes `-1 - n`. -/
  | int (negative : Bool) (w : Width) (n : Nat)
  /-- Major types 2 and 3, definite length. -/
  | str (text : Bool) (w : Width) (payload : Bytes)
  /-- Major types 2 and 3, indefinite length: definite chunks of the same type. -/
  | chunked (text : Bool) (chunks : List (Width × Bytes))
  /-- Major type 4. -/
  | array (w : Option Width) (items : List Tree)
  /-- Major type 5. -/
  | map (w : Option Width) (entries : List (Tree × Tree))
  /-- Major type 6. -/
  | tag (w : Width) (n : Nat) (content : Tree)
  /-- Major type 7: a simple value in width `imm` or `one`, a float otherwise. -/
  | prim (w : Width) (n : Nat)

namespace Tree

/-! ### Writing an item -/

/-- What opens a string, array or map: a head, or the indefinite initial byte. -/
def opening (major : Nat) : Option Width → Nat → Bytes
  | some w, n => head major w n
  | none, _ => [openIndefinite major]

/-- What closes it: nothing, or the break byte. -/
def closing : Option Width → Bytes
  | some _ => []
  | none => [breakByte]

/-- The major type of byte strings, or of text strings. -/
def strMajor (text : Bool) : Nat := if text then 3 else 2

/-- The major type of non-negative, or of negative integers. -/
def intMajor (negative : Bool) : Nat := if negative then 1 else 0

/-- A definite-length string. -/
def strBytes (text : Bool) (c : Width × Bytes) : Bytes :=
  head (strMajor text) c.1 c.2.length ++ c.2

mutual
/-- The encoding of an item. -/
def bytes : Tree → Bytes
  | .int negative w n => head (intMajor negative) w n
  | .str text w payload => strBytes text (w, payload)
  | .chunked text chunks =>
    openIndefinite (strMajor text) :: (chunks.flatMap (strBytes text) ++ [breakByte])
  | .array w items => opening 4 w items.length ++ (bytesItems items ++ closing w)
  | .map w entries => opening 5 w entries.length ++ (bytesEntries entries ++ closing w)
  | .tag w n content => head 6 w n ++ content.bytes
  | .prim w n => head 7 w n

/-- The encodings of the elements of an array, one after the other. -/
def bytesItems : List Tree → Bytes
  | [] => []
  | t :: ts => t.bytes ++ bytesItems ts

/-- The encodings of the keys and values of a map, one after the other. -/
def bytesEntries : List (Tree × Tree) → Bytes
  | [] => []
  | (k, v) :: es => k.bytes ++ (v.bytes ++ bytesEntries es)
end

/-! ### Size and nesting -/

mutual
/-- The number of data items, string chunks included. -/
def count : Tree → Nat
  | .chunked _ chunks => chunks.length + 1
  | .array _ items => countItems items + 1
  | .map _ entries => countEntries entries + 1
  | .tag _ _ content => content.count + 1
  | .int .. | .str .. | .prim .. => 1

/-- The number of data items in the elements of an array. -/
def countItems : List Tree → Nat
  | [] => 0
  | t :: ts => t.count + countItems ts

/-- The number of data items in the entries of a map. -/
def countEntries : List (Tree × Tree) → Nat
  | [] => 0
  | (k, v) :: es => k.count + (v.count + countEntries es)
end

mutual
/-- The deepest nesting level below the item; the item itself is at level 0. -/
def depth : Tree → Nat
  | .chunked _ [] => 0
  | .chunked _ (_ :: _) => 1
  | .array _ items => depthItems items
  | .map _ entries => depthEntries entries
  | .tag _ _ content => content.depth + 1
  | .int .. | .str .. | .prim .. => 0

/-- The nesting level the elements of an array reach in it. -/
def depthItems : List Tree → Nat
  | [] => 0
  | t :: ts => max (t.depth + 1) (depthItems ts)

/-- The nesting level the entries of a map reach in it. -/
def depthEntries : List (Tree × Tree) → Nat
  | [] => 0
  | (k, v) :: es => max (k.depth + 1) (max (v.depth + 1) (depthEntries es))
end

/-- The number of tags around an item. -/
def tags : Tree → Nat
  | .tag _ _ content => content.tags + 1
  | .int .. | .str .. | .chunked .. | .array .. | .map .. | .prim .. => 0

/-- The items directly inside an item: chunks, elements, keys, values, contents. -/
def children : Tree → List Tree
  | .chunked text chunks => chunks.map (fun c => .str text c.1 c.2)
  | .array _ items => items
  | .map _ entries => entries.flatMap (fun e => [e.1, e.2])
  | .tag _ _ content => [content]
  | .int .. | .str .. | .prim .. => []

theorem countItems_eq (ts : List Tree) : countItems ts = (ts.map count).sum := by
  induction ts with
  | nil => rfl
  | cons t ts ih => rw [countItems, ih, List.map_cons, List.sum_cons]

theorem countEntries_eq (es : List (Tree × Tree)) :
    countEntries es = ((es.flatMap fun e => [e.1, e.2]).map count).sum := by
  induction es with
  | nil => rfl
  | cons e es ih =>
    obtain ⟨k, v⟩ := e
    simp [countEntries, ih]

/-- Every item counts itself and its children. -/
theorem count_eq (t : Tree) : t.count = (t.children.map count).sum + 1 := by
  cases t with
  | chunked text chunks => simp [count, children, Function.comp_def]
  | array w items => rw [count, children, countItems_eq]
  | map w entries => rw [count, children, countEntries_eq]
  | tag w n content => simp [count, children]
  | int | str | prim => rfl

theorem count_pos (t : Tree) : 0 < t.count := by
  rw [count_eq]
  omega

theorem count_lt_of_mem {t c : Tree} (h : c ∈ t.children) : c.count < t.count := by
  have := List.single_le_sum (by simp) _ (List.mem_map_of_mem (f := count) h)
  rw [count_eq t]
  omega

/-- Induction along `children`. -/
theorem induction {P : Tree → Prop} (h : ∀ t, (∀ c ∈ t.children, P c) → P t) (t : Tree) :
    P t := by
  induction hn : t.count using Nat.strong_induction_on generalizing t with
  | _ n ih => exact h t fun c hc => ih c.count (hn ▸ count_lt_of_mem hc) c rfl

theorem depthItems_lt_iff {ts : List Tree} {d : Nat} :
    depthItems ts < d + 1 ↔ ∀ c ∈ ts, c.depth < d := by
  induction ts with
  | nil => simp [depthItems]
  | cons t ts ih =>
    rw [depthItems, max_lt_iff, ih, List.forall_mem_cons, Nat.add_lt_add_iff_right]

theorem depthEntries_lt_iff {es : List (Tree × Tree)} {d : Nat} :
    depthEntries es < d + 1 ↔ ∀ c ∈ es.flatMap (fun e => [e.1, e.2]), c.depth < d := by
  induction es with
  | nil => simp [depthEntries]
  | cons e es ih =>
    obtain ⟨k, v⟩ := e
    simp only [depthEntries, max_lt_iff, ih, List.flatMap_cons, List.cons_append,
      List.nil_append, List.forall_mem_cons, Nat.add_lt_add_iff_right]

/-- An item stays below a nesting level when its children stay below the one before. -/
theorem depth_lt_succ_iff {t : Tree} {d : Nat} :
    t.depth < d + 1 ↔ ∀ c ∈ t.children, c.depth < d := by
  cases t with
  | chunked text chunks =>
    cases chunks with
    | nil => simp [depth, children]
    | cons c cs =>
      simp only [depth, children, List.map_cons, List.forall_mem_cons]
      constructor
      · intro h
        refine ⟨by omega, fun t ht => ?_⟩
        obtain ⟨c', -, rfl⟩ := List.mem_map.mp ht
        simp only [depth]
        omega
      · rintro ⟨h, -⟩
        omega
  | array w items => exact depthItems_lt_iff
  | map w entries => exact depthEntries_lt_iff
  | tag w n content => simp [depth, children]
  | int | str | prim => simp [depth, children]

theorem depth_lt_of_mem {t c : Tree} (h : c ∈ t.children) : c.depth < t.depth :=
  depth_lt_succ_iff.mp (Nat.lt_succ_self t.depth) c h

/-- An item is nested no deeper than one that has something as deep for each child. -/
theorem depth_le_of_children {s t : Tree}
    (h : ∀ c ∈ s.children, ∃ u ∈ t.children, c.depth ≤ u.depth) : s.depth ≤ t.depth := by
  rw [← Nat.lt_succ_iff, depth_lt_succ_iff]
  intro c hc
  obtain ⟨u, hu, hle⟩ := h c hc
  exact hle.trans_lt (depth_lt_of_mem hu)

/-! ### Properties of every item inside -/

/-- `p` holds of the item and of every item inside it, at any depth. -/
inductive All (p : Tree → Prop) : Tree → Prop where
  | node {t : Tree} (h : p t) (hs : ∀ c ∈ t.children, All p c) : All p t

theorem all_iff {p : Tree → Prop} {t : Tree} :
    t.All p ↔ p t ∧ ∀ c ∈ t.children, c.All p := by
  constructor
  · intro h
    cases h with
    | node h hs => exact ⟨h, hs⟩
  · rintro ⟨h, hs⟩
    exact .node h hs

theorem All.head {p : Tree → Prop} {t : Tree} (h : t.All p) : p t := (all_iff.mp h).1

theorem All.child {p : Tree → Prop} {t c : Tree} (h : t.All p) (hc : c ∈ t.children) :
    c.All p := (all_iff.mp h).2 c hc

theorem all_and {p q : Tree → Prop} {t : Tree} :
    t.All (fun t => p t ∧ q t) ↔ t.All p ∧ t.All q := by
  induction t using Tree.induction with
  | h t ih =>
    rw [all_iff, all_iff (p := p), all_iff (p := q)]
    constructor
    · rintro ⟨⟨hp, hq⟩, hs⟩
      exact ⟨⟨hp, fun c hc => ((ih c hc).mp (hs c hc)).1⟩,
        hq, fun c hc => ((ih c hc).mp (hs c hc)).2⟩
    · rintro ⟨⟨hp, hps⟩, hq, hqs⟩
      exact ⟨⟨hp, hq⟩, fun c hc => (ih c hc).mpr ⟨hps c hc, hqs c hc⟩⟩

theorem All.mono {p q : Tree → Prop} (hpq : ∀ t, p t → q t) {t : Tree} (h : t.All p) :
    t.All q := by
  induction h with
  | node h _ ih => exact .node (hpq _ h) ih

/-- `Occurs s t`: the item `s` is `t` itself or lies inside it, at any depth. -/
inductive Occurs (s : Tree) : Tree → Prop where
  | refl : Occurs s s
  | child {t c : Tree} (hc : c ∈ t.children) (h : Occurs s c) : Occurs s t

theorem All.of_occurs {p : Tree → Prop} {s t : Tree} (h : t.All p) (hs : Occurs s t) :
    s.All p := by
  induction hs with
  | refl => exact h
  | child hc _ ih => exact ih (h.child hc)

theorem all_iff_occurs {p : Tree → Prop} {t : Tree} : t.All p ↔ ∀ s, Occurs s t → p s := by
  constructor
  · intro h s hs
    exact (h.of_occurs hs).head
  · intro h
    induction t using Tree.induction with
    | h t ih =>
      exact .node (h t .refl) fun c hc => ih c hc fun s hs => h s (.child hc hs)

theorem not_all_iff {p : Tree → Prop} {t : Tree} : ¬ t.All p ↔ ∃ s, Occurs s t ∧ ¬ p s := by
  simp [all_iff_occurs]

/-- The argument of the item fits the width it is written in. -/
def NodeFits : Tree → Prop
  | .int _ w n | .tag w n _ | .prim w n => n < w.bound
  | .str _ w payload => payload.length < w.bound
  | .chunked _ chunks => ∀ c ∈ chunks, c.2.length < c.1.bound
  | .array w items => ∀ w' ∈ w, items.length < w'.bound
  | .map w entries => ∀ w' ∈ w, entries.length < w'.bound

/-- Every argument fits the width it is written in. -/
def Fits (t : Tree) : Prop := t.All NodeFits

/-- A simple value below 32 that is nevertheless written in two bytes. -/
def IsShortSimple : Tree → Prop
  | .prim .one n => n < 32
  | _ => False

/-- A well-formed item: every argument fits its width, and no simple value below
32 is written in two bytes. -/
def WellFormed (t : Tree) : Prop := t.Fits ∧ t.All fun t => ¬ t.IsShortSimple

/-- The item itself has indefinite length. -/
def IsIndefinite : Tree → Prop
  | .chunked .. | .array none _ | .map none _ => True
  | _ => False

/-- No item inside has indefinite length. -/
def Definite (t : Tree) : Prop := t.All fun t => ¬ t.IsIndefinite

theorem WellFormed.fits {t : Tree} (h : t.WellFormed) : t.Fits := h.1

theorem WellFormed.child {t c : Tree} (h : t.WellFormed) (hc : c ∈ t.children) :
    c.WellFormed := ⟨h.1.child hc, h.2.child hc⟩

/-- The argument fits, and a simple value below 32 in two bytes occurs only if
`short` allows it. -/
def NodeReadable (short : Bool) (t : Tree) : Prop :=
  t.NodeFits ∧ (t.IsShortSimple → short = true)

/-- What a reader accepts that does, or does not, let short simple values pass. -/
def Readable (short : Bool) (t : Tree) : Prop := t.All (NodeReadable short)

theorem Readable.fits {short : Bool} {t : Tree} (h : t.Readable short) : t.Fits :=
  All.mono (fun _ h => h.1) h

theorem readable_true_iff {t : Tree} : t.Readable true ↔ t.Fits :=
  ⟨Readable.fits, All.mono fun _ h => ⟨h, fun _ => rfl⟩⟩

theorem readable_false_iff {t : Tree} : t.Readable false ↔ t.WellFormed := by
  rw [WellFormed, Fits, ← all_and]
  constructor
  · exact All.mono fun _ h => ⟨h.1, fun hs => absurd (h.2 hs) (by simp)⟩
  · exact All.mono fun _ h => ⟨h.1, fun hs => absurd hs h.2⟩

theorem strMajor_lt (text : Bool) : strMajor text < 8 := by
  cases text <;> simp [strMajor]

theorem intMajor_lt (negative : Bool) : intMajor negative < 8 := by
  cases negative <;> simp [intMajor]

theorem openIndefinite_ne_break {major : Nat} (h : major < 7) :
    openIndefinite major ≠ breakByte := by
  intro he
  have := congrArg UInt8.toNat he
  rw [openIndefinite, initial_toNat (by omega) (by omega)] at this
  simp only [breakByte, UInt8.reduceToNat] at this
  omega

theorem opening_cons (major : Nat) {w : Option Width} {n : Nat} (hm : major < 7)
    (h : ∀ w' ∈ w, n < w'.bound) : ∃ b bs, opening major w n = b :: bs ∧ b ≠ breakByte := by
  cases w with
  | none => exact ⟨_, _, rfl, openIndefinite_ne_break hm⟩
  | some w => exact ⟨_, _, rfl, initial_ne_break (by omega) (h w rfl)⟩

/-- No item starts with the break byte. -/
theorem bytes_cons {t : Tree} (h : t.Fits) : ∃ b bs, t.bytes = b :: bs ∧ b ≠ breakByte := by
  have hn := h.head
  cases t with
  | int negative w n => exact ⟨_, _, rfl, initial_ne_break (intMajor_lt negative) hn⟩
  | str text w payload => exact ⟨_, _, rfl, initial_ne_break (strMajor_lt text) hn⟩
  | chunked text chunks =>
    exact ⟨_, _, rfl, openIndefinite_ne_break (by cases text <;> simp [strMajor])⟩
  | array w items =>
    obtain ⟨b, bs, he, hb⟩ := opening_cons 4 (by omega) hn
    exact ⟨b, _, by rw [bytes, he]; rfl, hb⟩
  | map w entries =>
    obtain ⟨b, bs, he, hb⟩ := opening_cons 5 (by omega) hn
    exact ⟨b, _, by rw [bytes, he]; rfl, hb⟩
  | tag w n content => exact ⟨_, _, rfl, initial_ne_break (by omega) hn⟩
  | prim w n => exact ⟨_, _, rfl, initial_ne_break (by omega) hn⟩

theorem bytesItems_eq (ts : List Tree) : bytesItems ts = ts.flatMap bytes := by
  induction ts with
  | nil => rfl
  | cons t ts ih => rw [bytesItems, ih, List.flatMap_cons]

theorem bytesEntries_eq (es : List (Tree × Tree)) :
    bytesEntries es = es.flatMap fun e => e.1.bytes ++ e.2.bytes := by
  induction es with
  | nil => rfl
  | cons e es ih =>
    obtain ⟨k, v⟩ := e
    rw [bytesEntries, ih, List.flatMap_cons, List.append_assoc]

/-- An item writes its children one after the other, behind at least one byte. -/
theorem bytes_eq_children (t : Tree) :
    ∃ b op cl, t.bytes = b :: op ++ (t.children.flatMap bytes ++ cl) := by
  cases t with
  | int | str | prim => exact ⟨_, _, [], (List.append_nil _).symm⟩
  | chunked text chunks =>
    refine ⟨openIndefinite (strMajor text), [], [breakByte], ?_⟩
    simp only [bytes, children, List.flatMap_map]
    rfl
  | array w items =>
    cases w with
    | none => exact ⟨_, [], _, by rw [bytes, bytesItems_eq]; rfl⟩
    | some w => exact ⟨_, _, _, by rw [bytes, bytesItems_eq]; rfl⟩
  | map w entries =>
    have he : entries.flatMap (fun e => e.1.bytes ++ e.2.bytes) =
        (children (.map w entries)).flatMap bytes := by
      simp [children, List.flatMap_assoc]
    cases w with
    | none => exact ⟨_, [], _, by rw [bytes, bytesEntries_eq, he]; rfl⟩
    | some w => exact ⟨_, _, _, by rw [bytes, bytesEntries_eq, he]; rfl⟩
  | tag w n content => exact ⟨_, _, [], by simp [children, bytes, head]; exact ⟨rfl, rfl⟩⟩

theorem length_lt_of_mem {t c : Tree} (h : c ∈ t.children) :
    c.bytes.length < t.bytes.length := by
  obtain ⟨b, op, cl, he⟩ := t.bytes_eq_children
  have := List.single_le_sum (by simp) _ (List.mem_map_of_mem (f := fun t => t.bytes.length) h)
  rw [he]
  simp only [List.length_append, List.length_cons, List.length_flatMap]
  omega

theorem Occurs.length_le {s t : Tree} (h : Occurs s t) : s.bytes.length ≤ t.bytes.length := by
  induction h with
  | refl => exact Nat.le_refl _
  | child hc _ ih => exact ih.trans (length_lt_of_mem hc).le

theorem length_le_bytes (ts : List Tree) : ts.length ≤ (ts.flatMap bytes).length := by
  induction ts with
  | nil => simp
  | cons t ts ih =>
    obtain ⟨b, op, cl, he⟩ := t.bytes_eq_children
    rw [List.flatMap_cons, he]
    simp only [List.length_append, List.length_cons]
    omega

/-- Every item inside, the item itself included, takes a byte at least. -/
theorem count_le_length (t : Tree) : t.count ≤ t.bytes.length := by
  induction t using Tree.induction with
  | h t ih =>
    obtain ⟨b, op, cl, he⟩ := t.bytes_eq_children
    have hsum : (t.children.map count).sum ≤ (t.children.map fun c => c.bytes.length).sum :=
      List.sum_le_sum ih
    rw [count_eq, he]
    simp only [List.length_append, List.length_cons, List.length_flatMap]
    omega

/-- The content of a string is shorter than the string. -/
theorem length_str_lt (text : Bool) (w : Width) (payload : Bytes) :
    payload.length < (Tree.str text w payload).bytes.length := by
  simp only [bytes, strBytes, List.length_append, head_length]
  omega

theorem length_chunked_lt (text : Bool) (chunks : List (Width × Bytes)) :
    (chunks.flatMap Prod.snd).length < (Tree.chunked text chunks).bytes.length := by
  have hle : (chunks.flatMap Prod.snd).length ≤ (chunks.flatMap (strBytes text)).length := by
    rw [List.length_flatMap, List.length_flatMap]
    exact List.sum_le_sum fun c _ => by simp [strBytes]
  simp only [bytes, List.length_cons, List.length_append]
  omega

/-- An item has fewer children than bytes. -/
theorem children_length_lt {t : Tree} : t.children.length < t.bytes.length := by
  obtain ⟨b, op, cl, he⟩ := t.bytes_eq_children
  have := length_le_bytes t.children
  rw [he]
  simp only [List.length_append, List.length_cons]
  omega

theorem entries_length_lt (w : Option Width) (entries : List (Tree × Tree)) :
    entries.length < (Tree.map w entries).bytes.length := by
  have hchildren := children_length_lt (t := .map w entries)
  simp [children] at hchildren
  omega

end Tree
end Cbor

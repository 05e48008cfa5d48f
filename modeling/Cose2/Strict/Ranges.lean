import Cose2.Strict.Hereditary
import Cose2.Strict.MessageShape

/-! # The ranges in a parsed tree

The items that the strict parser keeps are ranges of the input: each has a head in front of
its content, and what is kept of the items inside lies in the content, one item behind the
other.  Whoever walks down the tree relies on nothing else.
-/
namespace Cose2.Strict

open Cbor

/-- The ranges of an item and of the items kept inside it are those of an encoded item. -/
structure Item.InRange (data : Bytes) (i : Item) : Prop where
  head : i.start < i.contentStart
  content : i.contentStart ≤ i.endPos
  bounded : i.endPos ≤ data.length
  inside : ∀ child ∈ i.children, i.contentStart ≤ child.start ∧ child.endPos ≤ i.endPos
  ordered : i.children.Pairwise fun child next => child.endPos ≤ next.start
  /-- An array keeps all of its elements, in order. -/
  elements : i.kind = .array → ∃ w ts, (Tree.array w ts).Fits ∧
    i.bytesIn data = (Tree.array w ts).bytes ∧
    List.Forall₂ (fun child t => child.bytesIn data = t.bytes) i.children ts
  /-- A tag keeps what it stands around. -/
  tagged : ∀ n, i.kind = .tag n → ∃ w t child, (Tree.tag w n t).Fits ∧
    i.bytesIn data = (Tree.tag w n t).bytes ∧ i.children = [child] ∧
    child.bytesIn data = t.bytes
  /-- What is kept of a string are the chunks of an indefinite one. -/
  chunks : i.kind = .bytes ∨ i.kind = .text → ∀ child ∈ i.children,
    i.indefinite = true ∧ child.kind = i.kind ∧ child.indefinite = false

/-- All items of a tree are in range. -/
def Item.Sound (data : Bytes) (i : Item) : Prop := ∀ j, Item.Within j i → j.InRange data

variable {data : Bytes} {i : Item}

theorem Item.Sound.inRange (h : i.Sound data) : i.InRange data := h i .refl

theorem Item.Sound.child (h : i.Sound data) {child : Item} (hc : child ∈ i.children) :
    child.Sound data :=
  fun j hj => h j (.child hc hj)

/-! ### The ranges of an encoded item -/

theorem headLength_pos (t : Tree) : 0 < headLength t := by
  cases t with
  | int | str | tag | prim | chunked =>
    rw [headLength]
    omega
  | array w | map w =>
    cases w with
    | none => exact Nat.one_pos
    | some w =>
      show 0 < 1 + w.size
      omega

/-- The head and the children fit in the encoding. -/
theorem headLength_add_le (t : Tree) :
    headLength t + (t.children.flatMap Tree.bytes).length ≤ t.bytes.length := by
  obtain ⟨opening, closing, hbytes, hlen⟩ := bytes_eq_headLength t
  rw [hbytes, List.length_append, List.length_append, hlen]
  omega

/-- All of the children are kept, or none. -/
theorem keptAt_eq (pos : Nat) (t : Tree) :
    keptAt pos t = [] ∨ keptAt pos t = itemsAt pos t.children := by
  cases t with
  | int | str | map | prim => exact .inl rfl
  | chunked text chunks => exact .inr (chunksAt_eq text pos chunks)
  | array | tag => exact .inr rfl

theorem itemsAt_inside {pos : Nat} {ts : List Tree} :
    ∀ i ∈ itemsAt pos ts, pos ≤ i.start ∧ i.endPos ≤ pos + (ts.flatMap Tree.bytes).length := by
  intro i hi
  obtain ⟨before, t, after, rfl, rfl⟩ := mem_itemsAt hi
  rw [itemAt_start, itemAt_endPos]
  simp only [List.flatMap_append, List.flatMap_cons, List.length_append]
  omega

theorem itemsAt_ordered (pos : Nat) (ts : List Tree) :
    (itemsAt pos ts).Pairwise fun i next => i.endPos ≤ next.start := by
  induction ts generalizing pos with
  | nil => exact .nil
  | cons t ts ih =>
    refine .cons ?_ (ih _)
    intro i hi
    rw [itemAt_endPos]
    exact (itemsAt_inside i hi).1

theorem forall₂_itemsAt {pos : Nat} {ts : List Tree}
    (h : ts.flatMap Tree.bytes <+: data.drop pos) :
    List.Forall₂ (fun i t => i.bytesIn data = t.bytes) (itemsAt pos ts) ts := by
  have hmap := map_bytesIn_itemsAt h
  rw [← List.forall₂_eq_eq_eq, List.forall₂_map_left_iff, List.forall₂_map_right_iff] at hmap
  exact hmap

theorem inRange_itemAt {pos : Nat} {t : Tree} (ht : t.Fits) (h : t.bytes <+: data.drop pos) :
    (itemAt pos t).InRange data := by
  have hpos := headLength_pos t
  have hfit := headLength_add_le t
  have hchildren : (itemAt pos t).children = keptAt (pos + headLength t) t := by
    rw [itemAt_eq]
    rfl
  have hitems := children_placed h
  refine ⟨?_, ?_, ?_, ?_, ?_, ?_, ?_, ?_⟩
  · rw [itemAt_start, itemAt_contentStart]
    omega
  · rw [itemAt_contentStart, itemAt_endPos]
    omega
  · rw [itemAt_endPos]
    have hlen := h.length_le
    rw [List.length_drop] at hlen
    omega
  · intro child hc
    rw [hchildren] at hc
    have hinside := itemsAt_inside child (mem_keptAt hc)
    rw [itemAt_contentStart, itemAt_endPos]
    omega
  · rw [hchildren]
    rcases keptAt_eq (pos + headLength t) t with hkept | hkept
    · rw [hkept]
      exact .nil
    · rw [hkept]
      exact itemsAt_ordered _ _
  · intro hkind
    rw [itemAt_kind, kindOf_eq_array] at hkind
    obtain ⟨w, ts, rfl⟩ := hkind
    exact ⟨w, ts, ht, bytesIn_placed h, hchildren ▸ forall₂_itemsAt hitems⟩
  · intro n hkind
    rw [itemAt_kind, kindOf_eq_tag] at hkind
    obtain ⟨w, t, rfl⟩ := hkind
    have hcontent := forall₂_itemsAt hitems
    cases hcontent with
    | cons hbytes _ => exact ⟨w, t, _, ht, bytesIn_placed h, hchildren, hbytes⟩
  · intro hkind child hc
    rw [hchildren] at hc
    cases t with
    | chunked text chunks =>
      obtain ⟨before, ch, after, hsplit, rfl⟩ := mem_itemsAt (mem_keptAt hc)
      have hmem : ch ∈ (Tree.chunked text chunks).children := by
        rw [hsplit]
        exact List.mem_append_right _ List.mem_cons_self
      obtain ⟨chunk, -, rfl⟩ := List.mem_map.mp hmem
      refine ⟨?_, ?_, ?_⟩ <;> simp [kindOf, indefiniteOf]
    | int | str | map | prim => cases hc
    | array | tag => simp [kindOf] at hkind

/-- All of a tree is in range when the item it starts with is in its place. -/
theorem sound_itemAt {pos : Nat} {t : Tree} (ht : t.Fits) (h : t.bytes <+: data.drop pos) :
    (itemAt pos t).Sound data := by
  intro j hj
  obtain ⟨s, off, hs, rfl⟩ := within_itemAt hj
  refine inRange_itemAt (ht.of_occurs hs.occurs) ?_
  obtain ⟨before, after, hbytes, rfl⟩ := hs.bytes
  rw [hbytes, append_prefix_drop, append_prefix_drop] at h
  exact h.2.1

/-! ### What the parser returns -/

section

variable {c : Cbor2} {levels : Nat} {p p' : Parser} {it : Item}

theorem sound_of_parse (h : p.parse c levels = .ok (it, p')) : it.Sound p.data := by
  obtain ⟨t, ht, hpre, rfl, -, -⟩ := (parse_ok c).mp h
  exact sound_itemAt ht.1 hpre

theorem sound_of_root {data : Bytes} {limits : CborLimits} {reject : Bool}
    (h : rootWithDuplicatePolicy c data limits reject = .ok it) : it.Sound data := by
  obtain ⟨t, rfl, hfits, -, -, rfl⟩ := (rootWithDuplicatePolicy_ok c).mp h
  exact sound_itemAt hfits List.prefix_rfl

/-- The parser is behind the item it returns, and has met no more items than bytes. -/
structure Consumes (p : Parser) (it : Item) (p' : Parser) : Prop where
  data : p'.data = p.data
  start : it.start = p.pos
  stop : it.endPos = p'.pos
  counted : p.items < p'.items
  bytes : p.pos + (p'.items - p.items) ≤ p'.pos
  bounded : p'.pos ≤ p.data.length

theorem consumes_of_parse (h : p.parse c levels = .ok (it, p')) : Consumes p it p' := by
  have hsound := (sound_of_parse h).inRange
  obtain ⟨t, ht, hpre, rfl, rfl, -⟩ := (parse_ok c).mp h
  have hcount := t.count_pos
  have hbytes := t.count_le_length
  refine ⟨rfl, itemAt_start _ _, itemAt_endPos _ _, ?_, ?_, ?_⟩
  · rw [Parser.advance_items]
    omega
  · rw [Parser.advance_items, Parser.advance_pos]
    omega
  · have hbounded := hsound.bounded
    rwa [itemAt_endPos] at hbounded

end

end Cose2.Strict

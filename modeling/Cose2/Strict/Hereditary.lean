import Cose2.Strict.Accessors
import Cose2.Strict.Grammar

/-! # Items inside accepted items

What the strict parser accepts as a whole it also accepts in parts: the bytes of
every item inside, taken on their own, are accepted under the same limits and
policy, with the item found in place, its positions counted from zero.  This covers
the entries of maps, of which the parser keeps nothing.
-/
namespace Cose2.Strict

open Cbor

/-! ### Places -/

/-- `OccursAt s pos t`: the item `s` lies inside `t`, at any depth, from `pos` on. -/
inductive OccursAt (s : Tree) : Nat → Tree → Prop
  | refl : OccursAt s 0 s
  | child {t ch : Tree} {before after : List Tree} {pos : Nat}
      (hc : t.children = before ++ ch :: after) (h : OccursAt s pos ch) :
      OccursAt s (headLength t + (before.flatMap Tree.bytes).length + pos) t

/-- The children are written one after the other behind the head. -/
theorem bytes_eq_headLength (t : Tree) : ∃ opening closing,
    t.bytes = opening ++ (t.children.flatMap Tree.bytes ++ closing) ∧
      opening.length = headLength t := by
  refine ⟨openingBytes (openerOf t).1 (openerOf t).2, ?_⟩
  rw [headLength_eq]
  suffices h : ∃ closing, bodyOf t = t.children.flatMap Tree.bytes ++ closing by
    obtain ⟨closing, hbody⟩ := h
    exact ⟨closing, by rw [bytes_eq_opening, hbody], rfl⟩
  cases t with
  | int | prim => exact ⟨[], rfl⟩
  | str text w payload => exact ⟨payload, rfl⟩
  | chunked text chunks =>
    refine ⟨[breakByte], ?_⟩
    simp only [bodyOf, Tree.children, List.flatMap_map]
    rfl
  | array w items => exact ⟨Tree.closing w, rfl⟩
  | map w entries =>
    refine ⟨Tree.closing w, ?_⟩
    simp only [bodyOf, Tree.children, List.flatMap_assoc, List.flatMap_cons, List.flatMap_nil,
      List.append_nil]
    rfl
  | tag w n content => exact ⟨[], by simp [bodyOf, Tree.children]⟩

/-- The children in their places. -/
theorem children_placed {data : Bytes} {pos : Nat} {t : Tree} (h : t.bytes <+: data.drop pos) :
    t.children.flatMap Tree.bytes <+: data.drop (pos + headLength t) := by
  obtain ⟨opening, closing, hbytes, hlen⟩ := bytes_eq_headLength t
  rw [hbytes, append_prefix_drop, append_prefix_drop, hlen] at h
  exact h.2.1

theorem OccursAt.occurs {s t : Tree} {pos : Nat} (h : OccursAt s pos t) : Tree.Occurs s t := by
  induction h with
  | refl => exact .refl
  | child hc _ ih => exact .child (hc ▸ List.mem_append_right _ List.mem_cons_self) ih

theorem occurs_trans {r s t : Tree} (hr : Tree.Occurs r s) (hs : Tree.Occurs s t) :
    Tree.Occurs r t := by
  induction hs with
  | refl => exact hr
  | child hc _ ih => exact .child hc ih

theorem OccursAt.bytes {s t : Tree} {pos : Nat} (h : OccursAt s pos t) :
    ∃ before after, t.bytes = before ++ (s.bytes ++ after) ∧ before.length = pos := by
  induction h with
  | refl => exact ⟨[], [], by simp, rfl⟩
  | @child t ch before after pos hc _ ih =>
    obtain ⟨b, a, hbytes, rfl⟩ := ih
    obtain ⟨opening, closing, ht, hlen⟩ := bytes_eq_headLength t
    refine ⟨opening ++ (before.flatMap Tree.bytes ++ b),
      a ++ (after.flatMap Tree.bytes ++ closing), ?_, ?_⟩
    · rw [ht, hc, List.flatMap_append, List.flatMap_cons, hbytes]
      simp
    · rw [List.length_append, List.length_append, hlen, Nat.add_assoc]

theorem OccursAt.slice_eq {s t : Tree} {pos : Nat} (h : OccursAt s pos t) :
    slice t.bytes pos (pos + s.bytes.length) = s.bytes := by
  obtain ⟨before, after, hbytes, rfl⟩ := h.bytes
  apply slice_of_prefix
  rw [hbytes, List.drop_left]
  exact List.prefix_append _ _

/-- Items inside are not larger and not nested more deeply. -/
theorem count_le_of_occurs {s t : Tree} (h : Tree.Occurs s t) : s.count ≤ t.count := by
  induction h with
  | refl => exact le_refl _
  | child hc _ ih => exact ih.trans (Tree.count_lt_of_mem hc).le

theorem depth_le_of_occurs {s t : Tree} (h : Tree.Occurs s t) : s.depth ≤ t.depth := by
  induction h with
  | refl => exact le_refl _
  | @child t ch hc _ ih =>
    have hlt := Tree.depth_lt_succ_iff.mp (Nat.lt_succ_self t.depth) ch hc
    exact ih.trans hlt.le

theorem WithinLimits.of_occurs {limits : CborLimits} {s t : Tree} (h : WithinLimits limits t)
    (hs : Tree.Occurs s t) : WithinLimits limits s where
  depth := (depth_le_of_occurs hs).trans h.depth
  items := (count_le_of_occurs hs).trans h.items
  definite hd := (h.definite hd).of_occurs hs

/-! ### Positions -/

mutual
/-- The item with its positions moved by `n`. -/
def Item.shift (n : Nat) : Item → Item
  | .mk kind start contentStart endPos indefinite children =>
    .mk kind (start + n) (contentStart + n) (endPos + n) indefinite (shiftAll n children)

/-- The same for items one after the other. -/
def Item.shiftAll (n : Nat) : List Item → List Item
  | [] => []
  | item :: items => item.shift n :: shiftAll n items
end

theorem shift_itemWith (n pos : Nat) (t : Tree) (kept : List Item) :
    (itemWith pos t kept).shift n = itemWith (pos + n) t (Item.shiftAll n kept) := by
  simp only [itemWith, Item.shift]
  congr 1 <;> omega

theorem shiftAll_itemsAt {n pos : Nat} {ts : List Tree}
    (h : ∀ t ∈ ts, ∀ pos, (itemAt pos t).shift n = itemAt (pos + n) t) :
    Item.shiftAll n (itemsAt pos ts) = itemsAt (pos + n) ts := by
  induction ts generalizing pos with
  | nil => rfl
  | cons t ts ih =>
    rw [List.forall_mem_cons] at h
    rw [itemsAt, Item.shiftAll, h.1, ih h.2, itemsAt]
    congr 2
    omega

/-- The item of a tree moves with its place. -/
theorem shift_itemAt (n pos : Nat) (t : Tree) :
    (itemAt pos t).shift n = itemAt (pos + n) t := by
  induction t using Tree.induction generalizing pos with
  | h t ih =>
    have hchildren : Item.shiftAll n (itemsAt (pos + headLength t) t.children) =
        itemsAt (pos + n + headLength t) t.children := by
      rw [shiftAll_itemsAt ih, Nat.add_right_comm]
    -- a map keeps none of its parts, everything else keeps all of them
    have hkept : Item.shiftAll n (keptAt (pos + headLength t) t) =
        keptAt (pos + n + headLength t) t := by
      cases t with
      | int | str | map | prim => rfl
      | chunked text chunks =>
        rw [keptAt, keptAt, chunksAt_eq, chunksAt_eq]
        exact hchildren
      | array w items => exact hchildren
      | tag w m content => exact hchildren
    rw [itemAt_eq, shift_itemWith, hkept, ← itemAt_eq]

/-- `Item.Within i item`: the parser kept the item `i` inside `item`, or it is `item`. -/
inductive Item.Within (i : Item) : Item → Prop
  | refl : Item.Within i i
  | child {item child : Item} (hc : child ∈ item.children) (h : Item.Within i child) :
      Item.Within i item

theorem mem_itemsAt {i : Item} {pos : Nat} {ts : List Tree} (h : i ∈ itemsAt pos ts) :
    ∃ before ch after, ts = before ++ ch :: after ∧
      i = itemAt (pos + (before.flatMap Tree.bytes).length) ch := by
  induction ts generalizing pos with
  | nil => cases h
  | cons t ts ih =>
    rcases List.mem_cons.mp h with rfl | h
    · exact ⟨[], t, ts, rfl, rfl⟩
    · obtain ⟨before, ch, after, rfl, rfl⟩ := ih h
      refine ⟨t :: before, ch, after, rfl, ?_⟩
      rw [List.flatMap_cons, List.length_append, Nat.add_assoc]

/-- The items kept of the children are items of the children, in place. -/
theorem mem_keptAt {i : Item} {pos : Nat} {t : Tree} (h : i ∈ keptAt pos t) :
    i ∈ itemsAt pos t.children := by
  cases t with
  | int | str | map | prim => cases h
  | chunked text chunks =>
    rw [keptAt, chunksAt_eq] at h
    exact h
  | array w items => exact h
  | tag w n content => exact h

/-- Every item that is kept is the item of something inside, in its place. -/
theorem within_itemAt {i : Item} {pos : Nat} {t : Tree} (h : Item.Within i (itemAt pos t)) :
    ∃ s off, OccursAt s off t ∧ i = itemAt (pos + off) s := by
  generalize hitem : itemAt pos t = item at h
  induction h generalizing pos t with
  | refl => exact ⟨t, 0, .refl, hitem.symm⟩
  | child hc _ ih =>
    subst hitem
    rw [itemAt_eq] at hc
    obtain ⟨before, ch, after, hsplit, rfl⟩ := mem_itemsAt (mem_keptAt hc)
    obtain ⟨s, off, hs, rfl⟩ := ih rfl
    refine ⟨s, _, .child hsplit hs, ?_⟩
    congr 1
    omega

/-! ### Parsing a part -/

variable (c : Cbor2)

/-- What is inside an accepted item is accepted by itself. -/
theorem rootWithDuplicatePolicy_of_occurs {limits : CborLimits} {reject : Bool} {s t : Tree}
    (hfits : t.Fits) (hlimits : WithinLimits limits t) (hkeys : reject = true → KeysOk c t)
    (hs : Tree.Occurs s t) :
    rootWithDuplicatePolicy c s.bytes limits reject = .ok (itemAt 0 s) :=
  (rootWithDuplicatePolicy_ok c).mpr ⟨s, rfl, hfits.of_occurs hs, hlimits.of_occurs hs,
    fun hr => (hkeys hr).of_occurs hs, rfl⟩

/-- The parser finds an item in its place when it starts there. -/
theorem parse_in_place {limits : CborLimits} {reject : Bool} {s t : Tree} {pos : Nat}
    (hfits : t.Fits) (hlimits : WithinLimits limits t) (hkeys : reject = true → KeysOk c t)
    (hs : OccursAt s pos t) :
    ∃ p', (⟨t.bytes, pos, 0, limits, reject⟩ : Parser).parse c (limits.maxDepth + 1) =
      .ok (itemAt pos s, p') := by
  have hwithin := hlimits.of_occurs hs.occurs
  refine ⟨_, (parse_ok c).mpr ⟨s, ⟨hfits.of_occurs hs.occurs, Nat.lt_succ_of_le hwithin.depth,
    hwithin.definite, fun hr => (hkeys hr).of_occurs hs.occurs⟩, ?_, rfl, rfl, ?_⟩⟩
  · obtain ⟨before, after, hbytes, rfl⟩ := hs.bytes
    rw [Parser.rest, hbytes, List.drop_left]
    exact List.prefix_append _ _
  · rw [Parser.advance_items, Parser.advance_limits, Nat.zero_add]
    exact hwithin.items

/-- What the strict parser finds out about the parts of an input: the bytes of every
item inside are accepted on their own, under the same limits and policy, as the item
found in place but for the positions. -/
structure AcceptsParts (data : Bytes) (limits : CborLimits) (reject : Bool) (t : Tree) :
    Prop where
  eq : data = t.bytes
  fits : t.Fits
  part : ∀ s pos, OccursAt s pos t →
    slice data pos (pos + s.bytes.length) = s.bytes ∧
      ∃ inPlace alone p', (⟨data, pos, 0, limits, reject⟩ : Parser).parse c
          (limits.maxDepth + 1) = .ok (inPlace, p') ∧
        rootWithDuplicatePolicy c s.bytes limits reject = .ok alone ∧ alone.shift pos = inPlace
  kept : ∀ it, rootWithDuplicatePolicy c data limits reject = .ok it →
    ∀ i, Item.Within i it → ∃ alone,
      rootWithDuplicatePolicy c (i.bytesIn data) limits reject = .ok alone ∧
        alone.shift i.start = i

/-- **The strict parser accepts the parts of whatever it accepts.** -/
theorem acceptsParts {data : Bytes} {limits : CborLimits} {reject : Bool} {it : Item}
    (h : rootWithDuplicatePolicy c data limits reject = .ok it) :
    ∃ t, AcceptsParts c data limits reject t := by
  obtain ⟨t, rfl, hfits, hlimits, hkeys, rfl⟩ := (rootWithDuplicatePolicy_ok c).mp h
  refine ⟨t, rfl, hfits, ?_, ?_⟩
  · intro s pos hs
    obtain ⟨p', hp⟩ := parse_in_place c hfits hlimits hkeys hs
    refine ⟨hs.slice_eq, _, _, p', hp,
      rootWithDuplicatePolicy_of_occurs c hfits hlimits hkeys hs.occurs, ?_⟩
    rw [shift_itemAt, Nat.zero_add]
  · intro it hit i hi
    rw [h, Except.ok.injEq] at hit
    subst hit
    obtain ⟨s, off, hs, rfl⟩ := within_itemAt hi
    refine ⟨itemAt 0 s, ?_, ?_⟩
    · rw [Item.bytesIn, itemAt_start, itemAt_endPos, Nat.zero_add, hs.slice_eq]
      exact rootWithDuplicatePolicy_of_occurs c hfits hlimits hkeys hs.occurs
    · rw [shift_itemAt, itemAt_start]
      simp

end Cose2.Strict

import Cose2.Strict.MessageShape
import Cose2.Strict.WellFormed

/-! # Removing known tags

`remove_cbor_tag` of `src/tag.rs` steps inside the tags that `message_body` steps
inside, whatever they are around, and hands malformed input back unchanged.
-/
namespace Cose2.Strict

open Cbor

/-- The tags of the six message types, as a pattern. -/
def isMessageTag (tag : Nat) : Bool := [16, 17, 18, 96, 97, 98].contains tag

/-- Steps inside the tag of a message, if the item is one. -/
def Item.untagMessage (item : Item) : Item :=
  match item.kind with
  | .tag n => if isMessageTag n then item.child 0 else item
  | _ => item

section

variable (c : Cbor2)

/-- `remove_known_tags`. -/
def removeKnownTags (data : Bytes) : Except Error Bytes := do
  let item ← root c data {}
  let current := ((item.untag 55799).untag 61).untagMessage
  return current.bytesIn data

/-- `remove_cbor_tag`. -/
def removeCborTag (data : Bytes) : Bytes :=
  match removeKnownTags c data with
  | .ok body => body
  | .error _ => data

end

/-! ### On encoded items -/

theorem isMessageTag_iff {tag : Nat} : isMessageTag tag = true ↔ IsMessageTag tag := by
  simp [isMessageTag, IsMessageTag]

/-- A head of a tag in `p`, or nothing. -/
inductive TagHead (p : Nat → Prop) : Bytes → Prop
  | none : TagHead p []
  | some {w : Width} {n : Nat} (hn : p n) (hw : n < w.bound) : TagHead p (head 6 w n)

/-- What a tag in `p` stands around. -/
def inside (p : Nat → Prop) [DecidablePred p] : Tree → Tree
  | .tag w n content => if p n then content else .tag w n content
  | t => t

instance : DecidablePred IsMessageTag := fun _ => decidable_of_iff _ isMessageTag_iff

/-- An item inside all known tags around it. -/
def insideKnownTags (t : Tree) : Tree :=
  inside IsMessageTag (inside (· = 61) (inside (· = 55799) t))

section

variable {p : Nat → Prop} [DecidablePred p]

theorem inside_tag {w : Width} {n : Nat} {content : Tree} (h : p n) :
    inside p (.tag w n content) = content :=
  if_pos h

theorem inside_tag_of_not {w : Width} {n : Nat} {content : Tree} (h : ¬ p n) :
    inside p (.tag w n content) = .tag w n content :=
  if_neg h

theorem inside_of_kind {t : Tree} (h : ∀ n, kindOf t = .tag n → ¬ p n) :
    inside p t = t := by
  cases t with
  | tag w n content => exact inside_tag_of_not (h n rfl)
  | int | str | chunked | array | map | prim => rfl

theorem inside_bytes {t : Tree} (ht : t.Fits) :
    ∃ pre, TagHead p pre ∧ t.bytes = pre ++ (inside p t).bytes ∧
      (inside p t).Fits := by
  by_cases h : ∃ n, kindOf t = .tag n ∧ p n
  · obtain ⟨n, hn, hp⟩ := h
    obtain ⟨w, content, rfl⟩ := kindOf_eq_tag.mp hn
    rw [inside_tag hp]
    exact ⟨_, .some hp ht.head, rfl, ht.child (by simp [Tree.children])⟩
  · rw [inside_of_kind fun n hn ha => h ⟨n, hn, ha⟩]
    exact ⟨[], .none, rfl, ht⟩

/-- Stepping inside a tag shortens the encoding. -/
theorem inside_length {t : Tree} : (inside p t).bytes.length ≤ t.bytes.length := by
  cases t with
  | tag w n content =>
    rw [inside]
    split_ifs
    · simp [Tree.bytes]
    · exact le_refl _
  | int | str | chunked | array | map | prim => exact le_refl _

end

theorem untag_eq_inside (pos : Nat) (t : Tree) (tag : Nat) :
    ∃ pre, (itemAt pos t).untag tag = itemAt (pos + pre.length) (inside (· = tag) t) ∧
      t.bytes = pre ++ (inside (· = tag) t).bytes := by
  obtain ⟨t', pre, hitem, hbytes, ⟨-, w, rfl⟩ | ⟨hk, rfl⟩⟩ := untag_itemAt pos t tag
  · rw [inside_tag (p := (· = tag)) rfl]
    exact ⟨pre, hitem, hbytes⟩
  · have hself : inside (· = tag) t' = t' := by
      apply inside_of_kind
      rintro n hn rfl
      exact hk hn
    rw [hself]
    exact ⟨pre, hitem, hbytes⟩

theorem untagMessage_eq_inside (pos : Nat) (t : Tree) :
    ∃ pre, (itemAt pos t).untagMessage = itemAt (pos + pre.length) (inside IsMessageTag t) ∧
      t.bytes = pre ++ (inside IsMessageTag t).bytes := by
  by_cases h : ∃ n, kindOf t = .tag n ∧ IsMessageTag n
  · obtain ⟨n, hn, htag⟩ := h
    obtain ⟨w, content, rfl⟩ := kindOf_eq_tag.mp hn
    rw [inside_tag htag]
    refine ⟨head 6 w n, ?_, rfl⟩
    rw [Item.untagMessage, itemAt_kind, head_length]
    exact if_pos (isMessageTag_iff.mpr htag)
  · have hnot (n : Nat) (hn : kindOf t = .tag n) : ¬ IsMessageTag n := fun ht => h ⟨n, hn, ht⟩
    rw [inside_of_kind hnot]
    refine ⟨[], ?_, rfl⟩
    rw [Item.untagMessage, itemAt_kind]
    split
    · rename_i n hn
      rw [if_neg fun ht => hnot n hn (isMessageTag_iff.mp ht)]
      rfl
    · rfl

section

variable (c : Cbor2)

/-- The strict parser accepts `data` as the encoding of `t`. -/
def Parses (data : Bytes) (t : Tree) : Prop :=
  data = t.bytes ∧ t.Fits ∧ WithinLimits {} t ∧ KeysOk c t

theorem root_ok {data : Bytes} {it : Item} :
    root c data {} = .ok it ↔ ∃ t, Parses c data t ∧ it = itemAt 0 t := by
  rw [root, rootWithDuplicatePolicy_ok]
  simp only [Parses, forall_const, and_assoc]

/-- Whatever the parser accepts is stripped of its known tags. -/
theorem removeKnownTags_ok {data body : Bytes} :
    removeKnownTags c data = .ok body ↔
      ∃ t, Parses c data t ∧ body = (insideKnownTags t).bytes := by
  simp only [removeKnownTags, Except.bind_eq_ok, Except.pure_eq_ok, root_ok]
  have hslice {data : Bytes} {t : Tree} (h : Parses c data t) :
      ((((itemAt 0 t).untag 55799).untag 61).untagMessage).bytesIn data =
        (insideKnownTags t).bytes := by
    obtain ⟨pre₁, h₁, hbytes₁⟩ := untag_eq_inside 0 t 55799
    obtain ⟨pre₂, h₂, hbytes₂⟩ :=
      untag_eq_inside (0 + pre₁.length) (inside (· = 55799) t) 61
    obtain ⟨pre₃, h₃, hbytes₃⟩ := untagMessage_eq_inside (0 + pre₁.length + pre₂.length)
      (inside (· = 61) (inside (· = 55799) t))
    have hpos : 0 + pre₁.length + pre₂.length + pre₃.length =
        0 + (pre₁ ++ pre₂ ++ pre₃).length := by
      simp [Nat.add_assoc]
    rw [h₁, h₂, h₃, hpos]
    apply bytesIn_suffix
    rw [h.1, hbytes₁, hbytes₂, hbytes₃]
    simp
  constructor
  · rintro ⟨_, ⟨t, h, rfl⟩, rfl⟩
    exact ⟨t, h, hslice h⟩
  · rintro ⟨t, h, rfl⟩
    exact ⟨_, ⟨t, h, rfl⟩, hslice h⟩

theorem removeCborTag_of_parses {data : Bytes} {t : Tree} (h : Parses c data t) :
    removeCborTag c data = (insideKnownTags t).bytes := by
  rw [removeCborTag, (removeKnownTags_ok c).mpr ⟨t, h, rfl⟩]

/-- What the parser refuses is unchanged. -/
theorem removeCborTag_of_refused {data : Bytes} (h : ∀ t, ¬ Parses c data t) :
    removeCborTag c data = data := by
  rw [removeCborTag]
  cases hr : removeKnownTags c data with
  | error e => rfl
  | ok body =>
    obtain ⟨t, ht, -⟩ := (removeKnownTags_ok c).mp hr
    exact absurd ht (h t)

end

/-- The tags around a message are the known ones. -/
theorem insideKnownTags_of_wrapped {tag : Nat} {message t : Tree} (htag : IsMessageTag tag)
    (h : Wrapped tag message t) (hm : kindOf message = .array) : insideKnownTags t = message := by
  obtain ⟨h61, hself⟩ := htag.ne
  have htagged {t : Tree} (h : Tagged tag message t) :
      inside IsMessageTag (inside (· = 61) t) = message ∧ inside (· = 55799) t = t := by
    obtain ⟨w, items, rfl⟩ := kindOf_eq_array.mp hm
    cases h with
    | bare => exact ⟨rfl, rfl⟩
    | tagged w => simp [inside, h61, hself, htag]
    | cwt w w' => simp [inside, htag]
  cases h with
  | plain h => rw [insideKnownTags, (htagged h).2, (htagged h).1]
  | selfDescribed w h =>
    rw [insideKnownTags, inside_tag (p := (· = 55799)) rfl, (htagged h).1]

/-- The item is one of the known tags. -/
def HasKnownTag (t : Tree) : Prop :=
  ∃ n, kindOf t = .tag n ∧ (n = 55799 ∨ n = 61 ∨ IsMessageTag n)

theorem insideKnownTags_eq_self {t : Tree} (h : ¬ HasKnownTag t) : insideKnownTags t = t := by
  have hnot (n : Nat) (hn : kindOf t = .tag n) : n ≠ 55799 ∧ n ≠ 61 ∧ ¬ IsMessageTag n := by
    refine ⟨?_, ?_, ?_⟩ <;> intro hk <;> exact h ⟨n, hn, by simp [hk]⟩
  rw [insideKnownTags, inside_of_kind (p := (· = 55799)) fun n hn => (hnot n hn).1,
    inside_of_kind (p := (· = 61)) fun n hn => (hnot n hn).2.1,
    inside_of_kind fun n hn => (hnot n hn).2.2]

/-- Stepping inside a known tag shortens the encoding. -/
theorem insideKnownTags_length {t : Tree} (h : HasKnownTag t) :
    (insideKnownTags t).bytes.length < t.bytes.length := by
  obtain ⟨n, hn, hknown⟩ := h
  obtain ⟨w, content, rfl⟩ := kindOf_eq_tag.mp hn
  have hlt : content.bytes.length < (Tree.tag w n content).bytes.length :=
    Tree.length_lt_of_mem (by simp [Tree.children])
  rw [insideKnownTags]
  -- the first tag that is stepped inside decides, the others shorten further
  by_cases h₁ : n = 55799
  · rw [inside_tag (p := (· = 55799)) h₁]
    exact (inside_length.trans inside_length).trans_lt hlt
  · rw [inside_tag_of_not (p := (· = 55799)) h₁]
    by_cases h₂ : n = 61
    · rw [inside_tag (p := (· = 61)) h₂]
      exact inside_length.trans_lt hlt
    · rw [inside_tag_of_not (p := (· = 61)) h₂,
        inside_tag ((hknown.resolve_left h₁).resolve_left h₂)]
      exact hlt

/-! ### The function as a whole -/

/-- What `remove_cbor_tag` promises for an input: the body that `message_body` finds,
malformed input unchanged, and in any case the input without one tag of each kind at
most. -/
structure RemovesKnownTags (c : Cbor2) (data : Bytes) : Prop where
  agrees : ∀ tag body, IsMessageTag tag → messageBody c data tag {} = .ok body →
    removeCborTag c data = body
  unchanged : (¬ ∃ t : Tree, t.WellFormed ∧ data = t.bytes) → removeCborTag c data = data
  suffix : ∃ selfDescribed cwt message, TagHead (· = 55799) selfDescribed ∧
    TagHead (· = 61) cwt ∧ TagHead IsMessageTag message ∧
    data = selfDescribed ++ (cwt ++ (message ++ removeCborTag c data))

/-- An item that the parser accepts although some simple value below 32 in it is
written in two bytes, inside a known tag. -/
def TaggedShortSimple (c : Cbor2) (data : Bytes) : Prop :=
  ∃ t : Tree, Parses c data t ∧ (¬ t.All fun t => ¬ t.IsShortSimple) ∧ HasKnownTag t

/-- An item with a short simple value is not a well-formed one. -/
theorem Parses.malformed {c : Cbor2} {data : Bytes} {t : Tree} (h : Parses c data t)
    (hshort : ¬ t.All fun t => ¬ t.IsShortSimple) :
    ¬ ∃ t' : Tree, t'.WellFormed ∧ data = t'.bytes := by
  rintro ⟨t', hwf, hdata⟩
  rw [bytes_inj h.2.1 hwf.fits (h.1.symm.trans hdata)] at hshort
  exact hshort hwf.2

/-- The promise is kept for every input but those. -/
theorem removesKnownTags_iff (c : Cbor2) (data : Bytes) :
    RemovesKnownTags c data ↔ ¬ TaggedShortSimple c data := by
  constructor
  · rintro h ⟨t, ht, hshort, hknown⟩
    have hsame := h.unchanged (ht.malformed hshort)
    rw [removeCborTag_of_parses c ht] at hsame
    -- the input loses a tag, and it is too short to be unchanged
    have hlen := insideKnownTags_length hknown
    rw [hsame, ht.1] at hlen
    exact lt_irrefl _ hlen
  · intro h
    refine ⟨?_, ?_, ?_⟩
    · intro tag body htag hbody
      obtain ⟨it, hroot, -⟩ := Except.bind_eq_ok.mp hbody
      obtain ⟨t, ht, rfl⟩ := (root_ok c).mp hroot
      obtain ⟨message, hwrapped, hm, rfl⟩ := (messageBody_iff c hroot ht.1 htag body).mp hbody
      rw [removeCborTag_of_parses c ht, insideKnownTags_of_wrapped htag hwrapped hm.kind]
    · intro hmalformed
      by_cases hparse : ∃ t, Parses c data t
      -- the parser is wrong about this input: the fault is a simple value
      · obtain ⟨t, ht⟩ := hparse
        have hshort : ¬ t.All fun t => ¬ t.IsShortSimple := fun hall =>
          hmalformed ⟨t, ⟨ht.2.1, hall⟩, ht.1⟩
        rw [removeCborTag_of_parses c ht,
          insideKnownTags_eq_self fun hknown => h ⟨t, ht, hshort, hknown⟩, ht.1]
      · exact removeCborTag_of_refused c fun t ht => hparse ⟨t, ht⟩
    · by_cases hparse : ∃ t, Parses c data t
      · obtain ⟨t, ht⟩ := hparse
        obtain ⟨pre₁, h₁, hbytes₁, hfits₁⟩ := inside_bytes (p := (· = 55799)) ht.2.1
        obtain ⟨pre₂, h₂, hbytes₂, hfits₂⟩ := inside_bytes (p := (· = 61)) hfits₁
        obtain ⟨pre₃, h₃, hbytes₃, -⟩ := inside_bytes (p := IsMessageTag) hfits₂
        refine ⟨pre₁, pre₂, pre₃, h₁, h₂, h₃, ?_⟩
        rw [removeCborTag_of_parses c ht, insideKnownTags, ← hbytes₃, ← hbytes₂, ← hbytes₁, ht.1]
      · refine ⟨[], [], [], .none, .none, .none, ?_⟩
        rw [removeCborTag_of_refused c fun t ht => hparse ⟨t, ht⟩]
        rfl

/-- The bytes `d2 f8 00` are simple value 0 in two bytes under the tag of `COSE_Sign1`. -/
theorem taggedShortSimple_d2f800 : TaggedShortSimple Cbor2.reference [0xd2, 0xf8, 0x00] := by
  refine ⟨.tag .imm 18 (.prim .one 0), ⟨rfl, ?_, ⟨by decide, by decide, by simp⟩, ?_⟩, ?_, ?_⟩
  · refine .node (show 18 < 24 by decide) fun ch hch => ?_
    rw [List.mem_singleton.mp hch]
    exact .node (show 0 < 256 by decide) (by simp [Tree.children])
  · refine .node trivial fun ch hch => ?_
    rw [List.mem_singleton.mp hch]
    exact .node trivial (by simp [Tree.children])
  · intro h
    exact (h.child (List.mem_singleton_self _)).head (show 0 < 32 by decide)
  · exact ⟨18, rfl, by simp [IsMessageTag]⟩

/-- They are malformed, but they lose their tag. -/
theorem not_removesKnownTags : ¬ ∀ data, RemovesKnownTags Cbor2.reference data := by
  intro h
  obtain ⟨t, ht, hshort, -⟩ := taggedShortSimple_d2f800
  have hsame := (h [0xd2, 0xf8, 0x00]).unchanged (ht.malformed hshort)
  have hremoved : removeCborTag Cbor2.reference [0xd2, 0xf8, 0x00] = [0xf8, 0x00] := rfl
  rw [hremoved] at hsame
  cases hsame

end Cose2.Strict

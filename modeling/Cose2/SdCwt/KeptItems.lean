import Cose2.SdCwt.Written

/-! # The items of a value and of its encoding

The strict parser counts the items of an encoding, and the traversals those of the value
that `cbor2` reads from it.  The value has the parts of the item, but for one thing: what a
bignum tag stands around may be read as an integer, which is one item where the tag and its
content are two.
-/
namespace Cose2.SdCwt

open Cbor

/-! ### Reading -/

/-- The magnitude of a bignum: tag 2 or 3 around a byte string. -/
def magnitude (n : Nat) : Tree → Option Bytes
  | .str false _ payload => if n = 2 ∨ n = 3 then some payload else none
  | .chunked false chunks => if n = 2 ∨ n = 3 then some (chunks.flatMap Prod.snd) else none
  | _ => none

/-- A bignum that is not kept as a tag. -/
def Reduces (keeps : Nat → Bytes → Bool) (n : Nat) (content : Tree) : Prop :=
  ∃ b, magnitude n content = some b ∧ keeps n b = false

instance (keeps : Nat → Bytes → Bool) (n : Nat) (content : Tree) :
    Decidable (Reduces keeps n content) :=
  decidable_of_iff (((magnitude n content).map (keeps n)) = some false) (by simp [Reduces])

/-- An item that is not made of other items; the chunks of a string are parts of it, not
items in it. -/
def IsLeaf : Tree → Prop
  | .int .. | .str .. | .chunked .. | .prim .. => True
  | .array .. | .map .. | .tag .. => False

/-- The value has the parts of the encoded item.  `keeps` tells the bignums that are kept as
tags from those that are read as integers. -/
inductive ReadAs (keeps : Nat → Bytes → Bool) : Tree → Value → Prop
  | scalar {t : Tree} {v : Value} (ht : IsLeaf t) (hv : IsScalar v) : ReadAs keeps t v
  | array {w : Option Width} {items : List Tree} {vs : List Value}
      (h : List.Forall₂ (ReadAs keeps) items vs) : ReadAs keeps (.array w items) (.array vs)
  | map {w : Option Width} {entries : List (Tree × Tree)} {es : List (Value × Value)}
      (hk : List.Forall₂ (ReadAs keeps) (entries.map Prod.fst) (es.map Prod.fst))
      (hv : List.Forall₂ (ReadAs keeps) (entries.map Prod.snd) (es.map Prod.snd)) :
    ReadAs keeps (.map w entries) (.map es)
  | tag {w : Width} {n : Nat} {content : Tree} {tag : UInt64} {v : Value}
      (hn : ¬ Reduces keeps n content) (h : ReadAs keeps content v) :
    ReadAs keeps (.tag w n content) (.tag tag v)
  | bignum {w : Width} {n : Nat} {content : Tree} {i : Integer} (hn : Reduces keeps n content) :
    ReadAs keeps (.tag w n content) (.integer i)

/-- `cbor2` reads a value with the parts of the item. -/
structure SdCbor2.KeepsParts (c : SdCbor2) (keeps : Nat → Bytes → Bool) : Prop where
  of_value : ∀ {t v}, c.value t = .ok v → ReadAs keeps t v

/-! ### Counting -/

mutual
/-- The bignums that are read as integers. -/
def reducedBignums (keeps : Nat → Bytes → Bool) : Tree → Nat
  | .array _ items => reducedItems keeps items
  | .map _ entries => reducedEntries keeps entries
  | .tag _ n content =>
    (if Reduces keeps n content then 1 else 0) + reducedBignums keeps content
  | .int .. | .str .. | .chunked .. | .prim .. => 0

/-- Those in the elements of an array. -/
def reducedItems (keeps : Nat → Bytes → Bool) : List Tree → Nat
  | [] => 0
  | t :: ts => reducedBignums keeps t + reducedItems keeps ts

/-- Those in the entries of a map. -/
def reducedEntries (keeps : Nat → Bytes → Bool) : List (Tree × Tree) → Nat
  | [] => 0
  | (k, v) :: es =>
    reducedBignums keeps k + reducedBignums keeps v + reducedEntries keeps es
end

variable {keeps : Nat → Bytes → Bool}

theorem reducedItems_eq (ts : List Tree) :
    reducedItems keeps ts = (ts.map (reducedBignums keeps)).sum := by
  induction ts with
  | nil => rfl
  | cons t ts ih => rw [reducedItems, ih, List.map_cons, List.sum_cons]

theorem reducedEntries_eq (es : List (Tree × Tree)) :
    reducedEntries keeps es = ((es.map Prod.fst).map (reducedBignums keeps)).sum +
      ((es.map Prod.snd).map (reducedBignums keeps)).sum := by
  induction es with
  | nil => rfl
  | cons e es ih =>
    obtain ⟨k, v⟩ := e
    rw [reducedEntries, ih]
    simp only [List.map_cons, List.sum_cons]
    omega

/-- The keys of a map and its values, counted apart. -/
theorem countEntries_eq (es : List (Tree × Tree)) :
    Tree.countEntries es =
      ((es.map Prod.fst).map Tree.count).sum + ((es.map Prod.snd).map Tree.count).sum := by
  induction es with
  | nil => rfl
  | cons e es ih =>
    obtain ⟨k, v⟩ := e
    rw [Tree.countEntries, ih]
    simp only [List.map_cons, List.sum_cons]
    omega

theorem itemsEntries_split (es : List (Value × Value)) :
    items.itemsEntries es =
      ((es.map Prod.fst).map items).sum + ((es.map Prod.snd).map items).sum := by
  rw [itemsEntries_eq, List.sum_map_add, List.map_map, List.map_map]
  rfl

/-- What is reduced is one item that is not counted: the tag. -/
theorem Reduces.content {n : Nat} {content : Tree} (h : Reduces keeps n content)
    (hd : content.Definite) : content.count = 1 ∧ reducedBignums keeps content = 0 := by
  obtain ⟨b, hb, -⟩ := h
  cases content with
  | str => exact ⟨rfl, rfl⟩
  | chunked => exact absurd trivial hd.head
  | int | array | map | tag | prim => cases hb

/-- Elements one by one. -/
theorem sum_count {ts : List Tree} {vs : List Value} (h : List.Forall₂ (ReadAs keeps) ts vs)
    (ht : ∀ t ∈ ts, ∀ v, ReadAs keeps t v → t.count = items v + reducedBignums keeps t) :
    (ts.map Tree.count).sum = (vs.map items).sum + (ts.map (reducedBignums keeps)).sum := by
  induction h with
  | nil => rfl
  | @cons t v ts vs hv _ ih =>
    rw [List.forall_mem_cons] at ht
    have hfirst := ht.1 v hv
    have hrest := ih ht.2
    simp only [List.map_cons, List.sum_cons]
    omega

/-- **An encoding has the items of the value that is read from it, and one more for each
bignum that is read as an integer.** -/
theorem count_of_readAs {t : Tree} {v : Value} (h : ReadAs keeps t v) (hd : t.Definite) :
    t.count = items v + reducedBignums keeps t := by
  induction t using Tree.induction generalizing v with
  | h t ih =>
    have ih (child : Tree) (hc : child ∈ t.children) (v : Value) (hv : ReadAs keeps child v) :=
      ih child hc hv (hd.child hc)
    cases h with
    | scalar ht hv =>
      rw [items_scalar hv]
      cases t with
      | int | str | prim => rfl
      | chunked => exact absurd trivial hd.head
      | array | map | tag => exact ht.elim
    | @array w ts vs h =>
      have hsum := sum_count h fun t ht v hv => ih t ht v hv
      rw [Tree.count, Tree.countItems_eq, items, itemsAll_eq, reducedBignums, reducedItems_eq,
        hsum]
      omega
    | @map w entries es hk hv =>
      have hmem (e : Tree × Tree) (he : e ∈ entries) :
          e.1 ∈ Cbor.Tree.children (.map w entries) ∧
            e.2 ∈ Cbor.Tree.children (.map w entries) :=
        ⟨List.mem_flatMap.mpr ⟨e, he, by simp⟩, List.mem_flatMap.mpr ⟨e, he, by simp⟩⟩
      have hkeys := sum_count hk fun t ht v hv => by
        obtain ⟨e, he, rfl⟩ := List.mem_map.mp ht
        exact ih e.1 (hmem e he).1 v hv
      have hvalues := sum_count hv fun t ht v hv => by
        obtain ⟨e, he, rfl⟩ := List.mem_map.mp ht
        exact ih e.2 (hmem e he).2 v hv
      rw [Tree.count, countEntries_eq, items, itemsEntries_split, reducedBignums,
        reducedEntries_eq, hkeys, hvalues]
      omega
    | @tag w n content tag u hn h =>
      have hcontent := ih content (by simp [Tree.children]) u h
      rw [Tree.count, items, reducedBignums, if_neg hn, hcontent]
      omega
    | @bignum w n content i hn =>
      obtain ⟨hcount, hreduced⟩ := hn.content (hd.child (by simp [Tree.children]))
      rw [Tree.count, items_scalar (v := .integer i) trivial, reducedBignums, if_pos hn, hcount,
        hreduced]

/-! ### A reader that reduces bignums -/

/-- A bignum is kept as a tag when no integer is that number. -/
def keepsBignum (n : Nat) (b : Bytes) : Bool := (Integer.ofArgument (n = 3) (beNat b)).isNone

theorem scalar_of_strValue {text : Bool} {payload : Bytes} {v : Value}
    (h : Tree.strValue text payload = some v) : IsScalar v := by
  cases text with
  | false =>
    cases h
    trivial
  | true =>
    obtain ⟨s, -, rfl⟩ := Option.map_eq_some_iff.mp h
    trivial

theorem scalar_of_simpleValue {n : Nat} {v : Value} (h : simpleValue n = some v) :
    IsScalar v ∧ ∀ b, v ≠ .bytes b := by
  unfold simpleValue at h
  split_ifs at h <;> cases h <;> exact ⟨trivial, by simp⟩

theorem load_scalar {v : Value} (h : IsScalar v) : IsScalar v.load := by
  cases v with
  | map | array | tag => exact h.elim
  | simple s => exact (nullify_scalar (v := .simple s) h).1
  | integer | bytes | text | float | bool | null => exact h

/-- Only a byte string is loaded as one. -/
theorem eq_bytes_of_load {v : Value} {b : Bytes} (h : v.load = .bytes b) : v = .bytes b := by
  have hnorm := v.norm_load
  rw [h] at hnorm
  exact Value.eq_bytes_of_nullify (Value.eq_bytes_of_norm hnorm.symm)

/-- Byte strings come from byte strings. -/
theorem magnitude_of_bytes {t : Tree} {b : Bytes} (h : t.value = some (.bytes b)) :
    IsLeaf t ∧ ∀ n, n = 2 ∨ n = 3 → magnitude n t = some b := by
  have string {text : Bool} {payload : Bytes} (h : Tree.strValue text payload = some (.bytes b)) :
      text = false ∧ payload = b := by
    cases text with
    | false =>
      cases h
      exact ⟨rfl, rfl⟩
    | true =>
      obtain ⟨s, -, hs⟩ := Option.map_eq_some_iff.mp h
      cases hs
  cases t with
  | int negative w n =>
    obtain ⟨i, -, hi⟩ := Option.map_eq_some_iff.mp h
    cases hi
  | str text w payload =>
    obtain ⟨rfl, rfl⟩ := string h
    exact ⟨trivial, fun n hn => if_pos hn⟩
  | chunked text chunks =>
    obtain ⟨rfl, rfl⟩ := string h
    exact ⟨trivial, fun n hn => if_pos hn⟩
  | array w ts =>
    obtain ⟨vs, -, hvs⟩ := Option.map_eq_some_iff.mp h
    cases hvs
  | map w es =>
    obtain ⟨vs, -, hvs⟩ := Option.map_eq_some_iff.mp h
    cases hvs
  | tag w n content =>
    rw [Tree.value] at h
    split_ifs at h
    obtain ⟨u, -, hu⟩ := Option.map_eq_some_iff.mp h
    cases hu
  | prim w n =>
    cases w with
    | imm => exact absurd rfl ((scalar_of_simpleValue h).2 b)
    | one =>
      rw [Tree.value] at h
      split_ifs at h
      exact absurd rfl ((scalar_of_simpleValue h).2 b)
    | two | four | eight => cases h

/-- A bignum tag around a magnitude is around that byte string. -/
theorem value_of_magnitude {n : Nat} {t : Tree} {b : Bytes} (h : magnitude n t = some b) :
    (n = 2 ∨ n = 3) ∧ t.value = some (.bytes b) := by
  cases t with
  | str text w payload | chunked text chunks =>
    cases text with
    | true => cases h
    | false =>
      rw [magnitude] at h
      split_ifs at h with hn
      cases h
      exact ⟨hn, rfl⟩
  | int | array | map | tag | prim => cases h

/-- What is loaded from under a tag. -/
theorem readAs_reduceTag {w : Width} {n : Nat} {content : Tree} {u : Value}
    (hn : n < 18446744073709551616) (hu : content.value = some u)
    (ih : ReadAs keepsBignum content u.load) :
    ReadAs keepsBignum (.tag w n content) (Value.reduceTag (UInt64.ofNat n) u.load) := by
  have htwo : UInt64.ofNat n = 2 ↔ n = 2 := by
    rw [← UInt64.toNat_inj, UInt64.toNat_ofNat_of_lt' hn]
    rfl
  have hthree : UInt64.ofNat n = 3 ↔ n = 3 := by
    rw [← UInt64.toNat_inj, UInt64.toNat_ofNat_of_lt' hn]
    rfl
  have hfits {b : Bytes} {i : Integer} (h : n = 2 ∨ n = 3)
      (hi : Integer.ofArgument (n = 3) (beNat b) = some i) :
      Value.reduceTag (UInt64.ofNat n) (.bytes b) = .integer i := by
    rw [Value.reduceTag, if_pos (by rwa [htwo, hthree])]
    simp only [hthree, hi]
  have hlarge {b : Bytes} (h : n = 2 ∨ n = 3)
      (hnone : Integer.ofArgument (n = 3) (beNat b) = none) :
      Value.reduceTag (UInt64.ofNat n) (.bytes b) =
        .tag (UInt64.ofNat n) (.bytes (Value.stripZeros b)) := by
    rw [Value.reduceTag, if_pos (by rwa [htwo, hthree])]
    simp only [hthree, hnone]
  by_cases hreduces : Reduces keepsBignum n content
  · obtain ⟨b, hb, hkeeps⟩ := hreduces
    obtain ⟨htag, hvalue⟩ := value_of_magnitude hb
    obtain rfl := Option.some.inj (hu.symm.trans hvalue)
    obtain ⟨i, hi⟩ := Option.isSome_iff_exists.mp (Option.isNone_eq_false_iff.mp hkeeps)
    rw [Value.load, hfits htag hi]
    exact .bignum ⟨b, hb, hkeeps⟩
  · rcases Value.reduceTag_cases (UInt64.ofNat n) u.load with heq | ⟨htag, b, hb, h⟩
    · rw [heq]
      exact .tag hreduces ih
    · rw [htwo, hthree] at htag
      obtain rfl := eq_bytes_of_load hb
      obtain ⟨hleaf, hmagnitude⟩ := magnitude_of_bytes hu
      -- no integer is the number
      have hnone : Integer.ofArgument (n = 3) (beNat b) = none := by
        by_contra hsome
        refine hreduces ⟨b, hmagnitude n htag, ?_⟩
        rw [keepsBignum, Option.isNone_eq_false_iff, Option.isSome_iff_ne_none]
        exact hsome
      rw [Value.load, hlarge htag hnone]
      exact .tag hreduces (.scalar hleaf trivial)

/-- The value that an item stands for has its parts, also when it is loaded. -/
theorem readAs_load {t : Tree} {v : Value} (h : t.value = some v) :
    ReadAs keepsBignum t v.load := by
  induction t using Tree.induction generalizing v with
  | h t ih =>
    have parts {ts : List Tree} {vs : List Value} (hts : ∀ t' ∈ ts, t' ∈ t.children)
        (hvs : List.Forall₂ (fun t v => t.value = some v) ts vs) :
        List.Forall₂ (ReadAs keepsBignum) ts (vs.map Value.load) := by
      induction hvs with
      | nil => exact .nil
      | cons hv _ ihvs =>
        rw [List.forall_mem_cons] at hts
        exact .cons (ih _ hts.1 hv) (ihvs hts.2)
    cases t with
    | int negative w n =>
      obtain ⟨i, -, rfl⟩ := Option.map_eq_some_iff.mp h
      exact .scalar trivial trivial
    | str text w payload => exact .scalar trivial (load_scalar (scalar_of_strValue h))
    | chunked text chunks => exact .scalar trivial (load_scalar (scalar_of_strValue h))
    | array w ts =>
      obtain ⟨vs, hvs, rfl⟩ := Option.map_eq_some_iff.mp h
      rw [Value.load, Value.loadItems_eq]
      exact .array (parts (fun t ht => ht) (Tree.valueItems_eq_some.mp hvs))
    | map w entries =>
      obtain ⟨es, hes, rfl⟩ := Option.map_eq_some_iff.mp h
      have hes := Tree.valueEntries_eq_some.mp hes
      rw [Value.load, Value.loadEntries_eq]
      refine .map ?_ ?_
      · rw [List.map_map, show (Prod.fst ∘ fun e : Value × Value => (e.1.load, e.2.load)) =
          Value.load ∘ Prod.fst from rfl, ← List.map_map]
        refine parts ?_ ?_
        · intro t ht
          obtain ⟨e, he, rfl⟩ := List.mem_map.mp ht
          exact List.mem_flatMap.mpr ⟨e, he, by simp⟩
        · rw [List.forall₂_map_left_iff, List.forall₂_map_right_iff]
          exact hes.imp fun _ _ h => h.1
      · rw [List.map_map, show (Prod.snd ∘ fun e : Value × Value => (e.1.load, e.2.load)) =
          Value.load ∘ Prod.snd from rfl, ← List.map_map]
        refine parts ?_ ?_
        · intro t ht
          obtain ⟨e, he, rfl⟩ := List.mem_map.mp ht
          exact List.mem_flatMap.mpr ⟨e, he, by simp⟩
        · rw [List.forall₂_map_left_iff, List.forall₂_map_right_iff]
          exact hes.imp fun _ _ h => h.2
    | tag w n content =>
      rw [Tree.value] at h
      split_ifs at h with hn
      obtain ⟨u, hu, rfl⟩ := Option.map_eq_some_iff.mp h
      exact readAs_reduceTag hn hu (ih content (by simp [Tree.children]) hu)
    | prim w n =>
      refine .scalar trivial (load_scalar ?_)
      cases w with
      | imm => exact (scalar_of_simpleValue h).1
      | one =>
        rw [Tree.value] at h
        split_ifs at h
        exact (scalar_of_simpleValue h).1
      | two | four | eight =>
        cases h
        trivial

theorem SdCbor2.reference_readsItems : SdCbor2.reference.ReadsItems := Cbor2.reference_readsItems

theorem SdCbor2.reference_keepsParts : SdCbor2.reference.KeepsParts keepsBignum where
  of_value h := by
    obtain ⟨d, hd, rfl⟩ := Cbor2.reference_value.mp h
    exact readAs_load hd

end Cose2.SdCwt

import Cose2.SdCwt.Issuance
import Cose2.SdCwt.MapOrder

/-! # What a presentation shows

A pre-issuance value asks for some of its claims and elements to be redacted (tag 58) and
for decoys to be put in (tag 62).  `reveal` says what is left of it when only some of what
was redacted is disclosed.  Each request has a flag, in the order in which the disclosures
are made for them, inside out.
-/
namespace Cose2.SdCwt

open Cbor

/-- The flag of the next request, and the flags of the others. -/
def nextFlag : List Bool → Bool × List Bool
  | [] => (false, [])
  | flag :: flags => (flag, flags)

mutual
/-- What is shown of a value, and the flags that are left. -/
def reveal : Value → List Bool → Value × List Bool
  | .map entries, flags =>
    let (entries, flags) := revealEntries entries flags
    (.map entries, flags)
  | .array items, flags =>
    let (items, flags) := revealItems items flags
    (.array items, flags)
  | .tag tag value, flags =>
    let (value, flags) := reveal value flags
    (.tag tag value, flags)
  | value, flags => (value, flags)

/-- What is shown of the entries of a map: of the redacted ones those with the flag set. -/
def revealEntries : List (Value × Value) → List Bool → List (Value × Value) × List Bool
  | [], flags => ([], flags)
  | (key, value) :: entries, flags =>
    let (value, flags) := reveal value flags
    match taggedInner toBeRedactedTag key, taggedInner toBeDecoyTag key with
    | some inner, _ =>
      let (flag, flags) := nextFlag flags
      let (entries, flags) := revealEntries entries flags
      (if flag then (inner, value) :: entries else entries, flags)
    | none, some _ => revealEntries entries (nextFlag flags).2
    | none, none =>
      let (entries, flags) := revealEntries entries flags
      ((key, value) :: entries, flags)

/-- What is shown of the elements of an array. -/
def revealItems : List Value → List Bool → List Value × List Bool
  | [], flags => ([], flags)
  | item :: items, flags =>
    match taggedInner toBeDecoyTag item with
    | some _ => revealItems items (nextFlag flags).2
    | none =>
      let (item, flags) := reveal item flags
      match taggedInner toBeRedactedTag item with
      | some inner =>
        let (flag, flags) := nextFlag flags
        let (items, flags) := revealItems items flags
        (if flag then inner :: items else items, flags)
      | none =>
        let (items, flags) := revealItems items flags
        (item :: items, flags)
end

mutual
/-- The value without any requests: what is under tag 58 stays, decoys go. -/
def stripped : Value → Value
  | .map entries => .map (strippedEntries entries)
  | .array items => .array (strippedItems items)
  | .tag tag value => .tag tag (stripped value)
  | value => value

/-- The entries of a map without requests. -/
def strippedEntries : List (Value × Value) → List (Value × Value)
  | [] => []
  | (key, value) :: entries =>
    match taggedInner toBeRedactedTag key, taggedInner toBeDecoyTag key with
    | some inner, _ => (inner, stripped value) :: strippedEntries entries
    | none, some _ => strippedEntries entries
    | none, none => (key, stripped value) :: strippedEntries entries

/-- The elements of an array without requests. -/
def strippedItems : List Value → List Value
  | [] => []
  | item :: items =>
    match taggedInner toBeDecoyTag item with
    | some _ => strippedItems items
    | none =>
      match taggedInner toBeRedactedTag (stripped item) with
      | some inner => inner :: strippedItems items
      | none => stripped item :: strippedItems items
end

mutual
/-- The tags of the requests in a value, in the order of their flags. -/
def requests : Value → List UInt64
  | .map entries => requestsEntries entries
  | .array items => requestsItems items
  | .tag _ value => requests value
  | _ => []

/-- The requests in the entries of a map. -/
def requestsEntries : List (Value × Value) → List UInt64
  | [] => []
  | (key, value) :: entries =>
    requests value ++ (match taggedInner toBeRedactedTag key, taggedInner toBeDecoyTag key with
      | some _, _ => toBeRedactedTag :: requestsEntries entries
      | none, some _ => toBeDecoyTag :: requestsEntries entries
      | none, none => requestsEntries entries)

/-- The requests in the elements of an array. -/
def requestsItems : List Value → List UInt64
  | [] => []
  | item :: items =>
    match taggedInner toBeDecoyTag item with
    | some _ => toBeDecoyTag :: requestsItems items
    | none =>
      requests item ++ (match taggedInner toBeRedactedTag item with
        | some _ => toBeRedactedTag :: requestsItems items
        | none => requestsItems items)
end

/-- What is shown of a value is under the same tag. -/
theorem taggedInner_reveal (tag : UInt64) (v : Value) (flags : List Bool) :
    taggedInner tag (reveal v flags).1 =
      (taggedInner tag v).map fun inner => (reveal inner flags).1 := by
  cases v with
  | tag tag' inner =>
    rw [reveal, taggedInner, taggedInner]
    split_ifs with htag
    · rfl
    · rfl
  | integer | bytes | text | float | bool | null | simple | array | map => rfl

/-- The flags for which everything is shown. -/
def allShown (tags : List UInt64) : List Bool := List.replicate tags.length true

theorem allShown_cons (tag : UInt64) (tags : List UInt64) :
    allShown (tag :: tags) = true :: allShown tags := rfl

theorem allShown_append (tags tags' : List UInt64) :
    allShown (tags ++ tags') = allShown tags ++ allShown tags' := by
  rw [allShown, List.length_append, ← List.replicate_append_replicate, allShown, allShown]

mutual
/-- With all flags set nothing is missing but the requests. -/
theorem reveal_allShown (v : Value) (rest : List Bool) :
    reveal v (allShown (requests v) ++ rest) = (stripped v, rest) := by
  cases v with
  | map es => rw [reveal, requests, revealEntries_allShown es rest, stripped]
  | array vs => rw [reveal, requests, revealItems_allShown vs rest, stripped]
  | tag tag v => rw [reveal, requests, reveal_allShown v rest, stripped]
  | integer | bytes | text | float | bool | null | simple => rfl

theorem revealEntries_allShown (es : List (Value × Value)) (rest : List Bool) :
    revealEntries es (allShown (requestsEntries es) ++ rest) = (strippedEntries es, rest) := by
  cases es with
  | nil => rfl
  | cons e es =>
    obtain ⟨key, value⟩ := e
    rw [revealEntries, requestsEntries, allShown_append, List.append_assoc,
      reveal_allShown value, strippedEntries]
    have hes := revealEntries_allShown es rest
    cases taggedInner toBeRedactedTag key with
    | some inner =>
      dsimp only
      rw [allShown_cons, List.cons_append, nextFlag]
      dsimp only
      rw [hes, if_pos rfl]
    | none =>
      cases taggedInner toBeDecoyTag key with
      | some inner =>
        dsimp only
        rw [allShown_cons, List.cons_append, nextFlag, hes]
      | none =>
        dsimp only
        rw [hes]

theorem revealItems_allShown (vs : List Value) (rest : List Bool) :
    revealItems vs (allShown (requestsItems vs) ++ rest) = (strippedItems vs, rest) := by
  cases vs with
  | nil => rfl
  | cons v vs =>
    have hvs := revealItems_allShown vs rest
    rw [revealItems, requestsItems, strippedItems]
    cases taggedInner toBeDecoyTag v with
    | some inner =>
      dsimp only
      rw [allShown_cons, List.cons_append, nextFlag, hvs]
    | none =>
      dsimp only
      rw [allShown_append, List.append_assoc, reveal_allShown v]
      dsimp only
      have hkind := taggedInner_reveal toBeRedactedTag v (allShown (requests v) ++ rest)
      rw [reveal_allShown v rest] at hkind
      rw [hkind]
      cases taggedInner toBeRedactedTag v with
      | some inner =>
        dsimp only [Option.map_some]
        rw [allShown_cons, List.cons_append, nextFlag]
        dsimp only
        rw [hvs, if_pos rfl]
      | none =>
        dsimp only [Option.map_none]
        rw [hvs]
end

/-- A claim in a redacted claim next to a decoy, of which only the outer one is shown. -/
example : reveal (.map [(.tag toBeRedactedTag (.text "a"),
      .map [(.tag toBeRedactedTag (.text "b"), .null), (.text "c", .null)]),
      (.tag toBeDecoyTag (.text "d"), .null)]) [false, true, false] =
    (.map [(.text "a", .map [(.text "c", .null)])], []) := rfl

/-! ### What is shown, up to the order of map entries -/

/-- For these flags, and whatever comes after them, this is shown of the value. -/
def Shows (v : Value) (flags : List Bool) (out : Value) : Prop :=
  ∃ w, (∀ rest, reveal v (flags ++ rest) = (w, rest)) ∧ SameData w out

/-- The same for the entries of a map. -/
def ShowsEntries (es : List (Value × Value)) (flags : List Bool) (out : List (Value × Value)) :
    Prop :=
  ∃ ws fs, (∀ rest, revealEntries es (flags ++ rest) = (ws, rest)) ∧
    List.Forall₂ SameEntry ws fs ∧ fs.Perm out

/-- The same for the elements of an array. -/
def ShowsItems (vs : List Value) (flags : List Bool) (out : List Value) : Prop :=
  ∃ ws, (∀ rest, revealItems vs (flags ++ rest) = (ws, rest)) ∧ List.Forall₂ SameData ws out

/-- It is what `reveal` gives. -/
theorem Shows.sameData {v out : Value} {flags : List Bool} (h : Shows v flags out) :
    SameData (reveal v flags).1 out := by
  obtain ⟨w, hw, hsame⟩ := h
  have hall := hw []
  rw [List.append_nil] at hall
  rw [hall]
  exact hsame

theorem shows_scalar {v : Value} (h : IsScalar v) : Shows v [] v := by
  refine ⟨v, fun rest => ?_, .refl v⟩
  cases v with
  | integer | bytes | text | float | bool | null | simple => rfl
  | tag | array | map => exact h.elim

theorem Shows.tag {t : UInt64} {v out : Value} {flags : List Bool} (h : Shows v flags out) :
    Shows (.tag t v) flags (.tag t out) := by
  obtain ⟨w, hw, hsame⟩ := h
  refine ⟨.tag t w, fun rest => ?_, .tag hsame⟩
  rw [reveal, hw rest]

theorem ShowsEntries.map {es out : List (Value × Value)} {flags : List Bool}
    (h : ShowsEntries es flags out) : Shows (.map es) flags (.map out) := by
  obtain ⟨ws, fs, hws, hfs, hperm⟩ := h
  refine ⟨.map ws, fun rest => ?_, sameData_map.mpr ⟨fs, out, rfl, hfs, hperm⟩⟩
  rw [reveal, hws rest]

theorem ShowsItems.array {vs out : List Value} {flags : List Bool} (h : ShowsItems vs flags out) :
    Shows (.array vs) flags (.array out) := by
  obtain ⟨ws, hws, hsame⟩ := h
  refine ⟨.array ws, fun rest => ?_, sameData_array.mpr ⟨out, rfl, hsame⟩⟩
  rw [reveal, hws rest]

section Entries

variable {es out out' : List (Value × Value)} {value value' : Value} {label : Label}
  {flags flags' : List Bool}

theorem showsEntries_nil : ShowsEntries [] [] [] := ⟨[], [], fun _ => rfl, .nil, .nil⟩

theorem ShowsEntries.perm (h : ShowsEntries es flags out) (hperm : out.Perm out') :
    ShowsEntries es flags out' := by
  obtain ⟨ws, fs, hws, hfs, hperm'⟩ := h
  exact ⟨ws, fs, hws, hfs, hperm'.trans hperm⟩

/-- A label is under no tag. -/
theorem taggedInner_label {key : Value} (h : labelFromValue key = .ok label) (tag : UInt64) :
    taggedInner tag key = none := by
  rw [labelFromValue_ok h]
  cases label with
  | int | text => rfl

/-- A redacted claim is shown if its flag is set. -/
theorem ShowsEntries.redacted (h : ShowsEntries es flags' out) (hvalue : Shows value flags value')
    (flag : Bool) :
    ShowsEntries ((.tag toBeRedactedTag label.toValue, value) :: es) (flags ++ flag :: flags')
      (if flag then (label.toValue, value') :: out else out) := by
  obtain ⟨ws, fs, hws, hfs, hperm⟩ := h
  obtain ⟨w, hw, hsame⟩ := hvalue
  have hshown (rest : List Bool) :
      revealEntries ((.tag toBeRedactedTag label.toValue, value) :: es)
          (flags ++ flag :: flags' ++ rest) =
        (if flag then (label.toValue, w) :: ws else ws, rest) := by
    rw [revealEntries, List.append_assoc, hw, taggedInner_eq_some.mpr rfl]
    dsimp only
    rw [List.cons_append, nextFlag]
    dsimp only
    rw [hws]
  cases flag with
  | true =>
    exact ⟨_, (label.toValue, value') :: fs, hshown, .cons ⟨.refl _, hsame⟩ hfs, hperm.cons _⟩
  | false => exact ⟨_, _, hshown, hfs, hperm⟩

/-- A decoy is not shown. -/
theorem ShowsEntries.decoy {inner : Value} (h : ShowsEntries es flags' out) (flag : Bool) :
    ShowsEntries ((.tag toBeDecoyTag inner, .null) :: es) (flag :: flags') out := by
  obtain ⟨ws, fs, hws, hfs, hperm⟩ := h
  refine ⟨ws, fs, fun rest => ?_, hfs, hperm⟩
  have hother : taggedInner toBeRedactedTag (.tag toBeDecoyTag inner) = none := rfl
  rw [revealEntries, hother, taggedInner_eq_some.mpr rfl]
  exact hws rest

theorem ShowsEntries.plain {key : Value} (h : ShowsEntries es flags' out)
    (hlabel : labelFromValue key = .ok label) (hvalue : Shows value flags value') :
    ShowsEntries ((key, value) :: es) (flags ++ flags') ((key, value') :: out) := by
  obtain ⟨ws, fs, hws, hfs, hperm⟩ := h
  obtain ⟨w, hw, hsame⟩ := hvalue
  refine ⟨(key, w) :: ws, (key, value') :: fs, fun rest => ?_, .cons ⟨.refl _, hsame⟩ hfs,
    hperm.cons _⟩
  rw [revealEntries, List.append_assoc, hw, taggedInner_label hlabel, taggedInner_label hlabel]
  dsimp only
  rw [hws]

end Entries

/-- Neither tag 58 nor tag 62 is around the value. -/
def NotRequest (v : Value) : Prop :=
  taggedInner toBeRedactedTag v = none ∧ taggedInner toBeDecoyTag v = none

section Items

variable {vs out : List Value} {value value' : Value} {flags flags' : List Bool}

theorem showsItems_nil : ShowsItems [] [] [] := ⟨[], fun _ => rfl, .nil⟩

/-- A redacted element is shown if its flag is set. -/
theorem ShowsItems.redacted (h : ShowsItems vs flags' out) (hvalue : Shows value flags value')
    (flag : Bool) :
    ShowsItems (.tag toBeRedactedTag value :: vs) (flags ++ flag :: flags')
      (if flag then value' :: out else out) := by
  obtain ⟨ws, hws, hsame⟩ := h
  obtain ⟨w, hw, hsame'⟩ := hvalue
  have hshown (rest : List Bool) :
      revealItems (.tag toBeRedactedTag value :: vs) (flags ++ flag :: flags' ++ rest) =
        (if flag then w :: ws else ws, rest) := by
    have hother : taggedInner toBeDecoyTag (.tag toBeRedactedTag value) = none := rfl
    rw [revealItems, hother]
    dsimp only
    rw [List.append_assoc, reveal, hw]
    dsimp only
    rw [taggedInner_eq_some.mpr rfl]
    dsimp only
    rw [List.cons_append, nextFlag]
    dsimp only
    rw [hws]
  cases flag with
  | true => exact ⟨_, hshown, .cons hsame' hsame⟩
  | false => exact ⟨_, hshown, hsame⟩

/-- A decoy is not shown. -/
theorem ShowsItems.decoy {inner : Value} (h : ShowsItems vs flags' out) (flag : Bool) :
    ShowsItems (.tag toBeDecoyTag inner :: vs) (flag :: flags') out := by
  obtain ⟨ws, hws, hsame⟩ := h
  refine ⟨ws, fun rest => ?_, hsame⟩
  rw [revealItems, taggedInner_eq_some.mpr rfl]
  exact hws rest

theorem ShowsItems.plain (h : ShowsItems vs flags' out) (hnot : NotRequest value)
    (hvalue : Shows value flags value') :
    ShowsItems (value :: vs) (flags ++ flags') (value' :: out) := by
  obtain ⟨ws, hws, hsame⟩ := h
  obtain ⟨w, hw, hsame'⟩ := hvalue
  refine ⟨w :: ws, fun rest => ?_, .cons hsame' hsame⟩
  have hkind := taggedInner_reveal toBeRedactedTag value (flags ++ (flags' ++ rest))
  rw [hw, hnot.1] at hkind
  rw [revealItems, hnot.2]
  dsimp only
  rw [List.append_assoc, hw]
  dsimp only
  rw [hkind]
  dsimp only [Option.map_none]
  rw [hws]

end Items

end Cose2.SdCwt

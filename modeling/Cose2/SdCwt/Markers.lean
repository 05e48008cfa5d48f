import Cose2.SdCwt.ClaimViews
import Cose2.SdCwt.Disclosure

/-! # The markers of a value

A redaction marker is a hash in the `redacted_claim_keys` list of a map or a hash
under tag 60 in an array.  `Redacted` says that markers stand nowhere else and that
the keys of maps are distinct labels; without markers such a value is `Disclosed`.
-/
namespace Cose2.SdCwt

open Cbor

/-- Where a redaction marker stands. -/
inductive Position where
  | claimKeys
  | element
deriving DecidableEq, Repr

/-- A redaction marker. -/
structure Marker where
  position : Position
  hash : Bytes
deriving DecidableEq, Repr

/-- The kind of a disclosure is one that may be redacted at the marker's position. -/
def Marker.Fits (m : Marker) : DisclosureKind → Prop
  | .claim .. => m.position = .claimKeys
  | .element .. => m.position = .element
  | .decoy _ => True

/-- The content of a byte string. -/
def byteString : Value → Option Bytes
  | .bytes b => some b
  | _ => none

/-- The hashes in a list of hashes. -/
def hashesIn : Value → List Bytes
  | .array hashes => hashes.filterMap byteString
  | _ => []

theorem filterMap_byteString (hashes : List Bytes) :
    (hashes.map Value.bytes).filterMap byteString = hashes := by
  rw [List.filterMap_map]
  exact List.filterMap_some

mutual
/-- All redaction markers of a value. -/
def markers : Value → List Marker
  | .map entries => markersEntries entries
  | .array items => markersItems items
  | .tag _ value => markers value
  | _ => []

/-- The redaction markers in the entries of a map. -/
def markersEntries : List (Value × Value) → List Marker
  | [] => []
  | (key, value) :: entries =>
    (if isRedactedClaimKeysLabel key then (hashesIn value).map (Marker.mk .claimKeys)
      else markers value) ++ markersEntries entries

/-- The redaction markers in the elements of an array. -/
def markersItems : List Value → List Marker
  | [] => []
  | item :: items =>
    (match redactedInner item with
      | some inner => (byteString inner).toList.map (Marker.mk .element)
      | none => markers item) ++ markersItems items
end

/-- The redaction markers of the value of a disclosure. -/
def Disclosure.markers (d : Disclosure) : List Marker := (d.kind.value.map SdCwt.markers).getD []

theorem markersEntries_hashes {key : Value} (h : isRedactedClaimKeysLabel key = true)
    (hashes : List Bytes) (es : List (Value × Value)) :
    markersEntries ((key, .array (hashes.map .bytes)) :: es) =
      hashes.map (Marker.mk .claimKeys) ++ markersEntries es := by
  rw [markersEntries, if_pos h, hashesIn, filterMap_byteString]

theorem markersEntries_claim {key : Value} (h : isRedactedClaimKeysLabel key = false)
    (value : Value) (es : List (Value × Value)) :
    markersEntries ((key, value) :: es) = markers value ++ markersEntries es := by
  rw [markersEntries, if_neg (by simp [h])]

theorem markersItems_redacted (hash : Bytes) (items : List Value) :
    markersItems (redactedElement hash :: items) =
      ⟨.element, hash⟩ :: markersItems items := by
  rw [markersItems]
  rfl

theorem markersItems_keep {item : Value} (h : isRedactedElement item = false)
    (items : List Value) :
    markersItems (item :: items) = markers item ++ markersItems items := by
  rw [markersItems, redactedInner_eq_none.mpr h]

theorem markers_scalar {v : Value} (h : IsScalar v) : markers v = [] := by
  cases v with
  | map | array | tag => exact h.elim
  | integer | bytes | text | float | bool | null | simple => rfl

/-! ### Values with markers in their places -/

/-- Markers stand in their places only, if there are any, and the keys of maps are
distinct labels. -/
inductive Redacted (marked : Bool) : Value → Prop
  | scalar {v : Value} : IsScalar v → isRedactedClaimKeysLabel v = false → Redacted marked v
  | tag {t : UInt64} {v : Value} : ¬ IsReservedTag t → Redacted marked v →
    Redacted marked (.tag t v)
  | array {vs : List Value} :
    (∀ v ∈ vs, isRedactedElement v = true → marked = true ∧ ∃ hash, v = redactedElement hash) →
    (∀ v ∈ vs, isRedactedElement v = false → Redacted marked v) → Redacted marked (.array vs)
  | map {es : List (Value × Value)} :
    (∀ e ∈ es, isVisible e = false →
      marked = true ∧ ∃ hashes : List Bytes, e.2 = .array (hashes.map .bytes)) →
    (∀ e ∈ es, isVisible e = true → ∃ l, labelFromValue e.1 = .ok l) →
    (es.map Prod.fst).Nodup → (∀ e ∈ es, isVisible e = true → Redacted marked e.2) →
    Redacted marked (.map es)

theorem Redacted.not_redacted {marked : Bool} {v : Value} (h : Redacted marked v) :
    isRedactedElement v = false := by
  cases h with
  | scalar hs =>
    cases v with
    | map | array | tag => exact hs.elim
    | integer | bytes | text | float | bool | null | simple => rfl
  | tag ht =>
    rw [isRedactedElement, decide_eq_false_iff_not]
    exact fun h => ht (.inl h)
  | array | map => rfl

/-- Without markers nothing is hidden. -/
theorem Redacted.disclosed {v : Value} (h : Redacted false v) : Disclosed v := by
  induction h with
  | scalar hs hlabel => exact .scalar hs hlabel
  | tag ht _ ih => exact .tag ht ih
  | array hredacted _ ih =>
    refine .array fun v hv => ?_
    cases helement : isRedactedElement v with
    | true => exact absurd (hredacted v hv helement).1 (by simp)
    | false => exact ih v hv helement
  | @map es hhidden hkeys hnodup _ ih =>
    have hvisible (e : Value × Value) (he : e ∈ es) : isVisible e = true := by
      cases hv : isVisible e with
      | true => rfl
      | false => exact absurd (hhidden e he hv).1 (by simp)
    exact .map (fun e he => hkeys e he (hvisible e he)) hnodup fun e he =>
      ih e he (hvisible e he)

/-! ### Removing the markers -/

theorem removeFromEntries_eq (es : List (Value × Value)) :
    removeFromEntries es =
      (es.filter isVisible).map fun e => (e.1, removeUndisclosedRedactions e.2) := by
  induction es with
  | nil => rfl
  | cons e es ih =>
    obtain ⟨key, value⟩ := e
    rw [removeFromEntries]
    by_cases hkey : isRedactedClaimKeysLabel key = true
    · rw [if_pos hkey, ih, List.filter_cons_of_neg (by simp [isVisible, hkey])]
    · rw [if_neg hkey, ih, List.filter_cons_of_pos (by simp [isVisible, hkey]), List.map_cons]

theorem removeFromItems_eq (vs : List Value) :
    removeFromItems vs =
      (vs.filter fun v => !isRedactedElement v).map removeUndisclosedRedactions := by
  induction vs with
  | nil => rfl
  | cons v vs ih =>
    rw [removeFromItems]
    by_cases hv : isRedactedElement v = true
    · rw [if_pos hv, ih, List.filter_cons_of_neg (by simp [hv])]
    · rw [if_neg hv, ih, List.filter_cons_of_pos (by simp [hv]), List.map_cons]

/-- Nothing is hidden in what is left when the markers have been removed. -/
theorem Redacted.remove {marked : Bool} {v : Value} (h : Redacted marked v) :
    Disclosed (removeUndisclosedRedactions v) := by
  induction h with
  | @scalar v hs hlabel =>
    have hsame : removeUndisclosedRedactions v = v := by
      cases v with
      | map | array | tag => exact hs.elim
      | integer | bytes | text | float | bool | null | simple => rfl
    rw [hsame]
    exact .scalar hs hlabel
  | tag ht _ ih =>
    rw [removeUndisclosedRedactions]
    exact .tag ht ih
  | array _ _ ih =>
    rw [removeUndisclosedRedactions, removeFromItems_eq]
    refine .array fun w hw => ?_
    obtain ⟨v, hv, hvw⟩ := List.mem_map.mp hw
    obtain ⟨hv, helement⟩ := List.mem_filter.mp hv
    rw [← hvw]
    exact ih v hv (by simpa using helement)
  | @map es _ hkeys hnodup _ ih =>
    rw [removeUndisclosedRedactions, removeFromEntries_eq]
    have hmem (e : Value × Value)
        (he : e ∈ (es.filter isVisible).map fun e => (e.1, removeUndisclosedRedactions e.2)) :
        ∃ e' ∈ es, isVisible e' = true ∧ e = (e'.1, removeUndisclosedRedactions e'.2) := by
      obtain ⟨e', he', heq⟩ := List.mem_map.mp he
      obtain ⟨he', hvisible⟩ := List.mem_filter.mp he'
      exact ⟨e', he', hvisible, heq.symm⟩
    refine .map (fun e he => ?_) ?_ (fun e he => ?_)
    · obtain ⟨e', he', hvisible, rfl⟩ := hmem e he
      exact hkeys e' he' hvisible
    · rw [List.map_map]
      exact hnodup.sublist (List.filter_sublist.map Prod.fst)
    · obtain ⟨e', he', hvisible, rfl⟩ := hmem e he
      exact ih e' he' hvisible

end Cose2.SdCwt

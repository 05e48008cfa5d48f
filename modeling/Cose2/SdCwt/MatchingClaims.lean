import Cose2.Cbor.Major
import Cose2.SdCwt.RegisteredClaims
import Cose2.SdCwt.Written

/-! # Claims that match

Two values that `claim_values_match` accepts have the same type, and are the same if
they are strings or numbers; if nothing is hidden in them, they have the same canonical
encoding.
-/
namespace Cose2.SdCwt

open Cbor

/-! ### Values with the same canonical encoding -/

/-- Except for bignums the normal form has the kind of the value. -/
theorem kind_of_norm (v : Value) :
    (∀ s, v.norm = .text s → v = .text s) ∧ (∀ b, v.norm = .bytes b → v = .bytes b) ∧
      (∀ es, v.norm = .map es → ∃ es', v = .map es') ∧
      (∀ bits, v.norm = .float bits → ∃ bits', v = .float bits' ∧ Value.normFloat bits' = bits) ∧
      ∀ i, v.norm = .integer i → v = .integer i ∨ ∃ t b, v = .tag t (.bytes b) := by
  induction v with
  | tag t v ih =>
    rw [Value.norm]
    rcases Value.reduceTag_cases t v.norm with heq | ⟨_, b, hb, ⟨i, heq⟩ | heq⟩
    · simp [heq]
    · have hv := ih.2.1 b hb
      rw [heq]
      exact ⟨by simp, by simp, by simp, by simp, fun _ _ => .inr ⟨t, b, by rw [hv]⟩⟩
    · simp [heq]
  | integer | bytes | text | float | bool | null | simple | array | map => simp [Value.norm]

theorem isNan_iff {bits : UInt64} : Double.IsFinite bits → ¬ Value.IsNan bits := by
  intro hfinite hnan
  rw [Value.IsNan] at hnan
  rw [Double.IsFinite, Double.exponent] at hfinite
  omega

theorem sameKind_of_canonical {v w : Value} (h : v.canonical = w.canonical) : SameKind v w := by
  have hmajor := Value.major_eq_of_canonical h
  -- a small normal form is determined by its encoding
  have hnorm (hsmall : v.norm.major ∈ [0, 1, 7]) : w.norm = v.norm := by
    have hsmall' : w.norm.major ∈ [0, 1, 7] := by rwa [← hmajor]
    exact (Value.encode_inj (Value.writable_of_major hsmall)
      (Value.writable_of_major hsmall') h).symm
  obtain ⟨htext, hbytes, hmap, hfloat, hinteger⟩ := kind_of_norm w
  refine ⟨?_, ?_, ?_, fun i hi => ?_, fun bits hfinite hv => ?_⟩
  · intro s hs
    rw [hs] at hmajor h
    obtain ⟨s', hw⟩ : ∃ s', w.norm = .text s' := Value.of_major_text hmajor.symm
    rw [Value.canonical, Value.canonical, hw] at h
    rw [htext s' hw, ← utf8_inj.mp (payload_eq_of_head (by decide) h)]
  · intro b hb
    rw [hb] at hmajor h
    obtain ⟨b', hw⟩ : ∃ b', w.norm = .bytes b' := Value.of_major_bytes hmajor.symm
    rw [Value.canonical, Value.canonical, hw] at h
    rw [hbytes b' hw, ← payload_eq_of_head (by decide) h]
  · rintro ⟨es, hes⟩
    rw [hes, Value.norm] at hmajor
    obtain ⟨es', hw⟩ : ∃ es', w.norm = .map es' := Value.of_major_map hmajor.symm
    exact hmap es' hw
  · rw [hnorm ?_, hi]
    rw [hi, Value.major]
    split_ifs <;> simp
  · have hnan := isNan_iff hfinite
    subst hv
    have hw := hnorm (by simp [Value.norm, Value.major])
    obtain ⟨bits', rfl, hbits⟩ := hfloat _ hw
    rw [Value.normFloat, Value.normFloat, if_neg hnan] at hbits
    split_ifs at hbits with hnan'
    · exact absurd hbits.symm (by rintro rfl; exact hnan (by decide))
    · rw [hbits]

section Match

variable {c : SdCbor2} (he : c.EncodesCanonically)
include he

theorem canonical_eq_of_sameCanonical {v w : Value} (h : sameCanonical c v w = .ok true) :
    v.canonical = w.canonical := by
  rw [sameCanonical, Except.bind_eq_ok] at h
  obtain ⟨bs, hbs, h⟩ := h
  obtain ⟨bs', hbs', h⟩ := Except.bind_eq_ok.mp h
  have heq : bs = bs' := of_decide_eq_true (Except.pure_eq_ok.mp h)
  rw [← he.writes (Except.mapError_eq_ok.mp hbs), ← he.writes (Except.mapError_eq_ok.mp hbs'), heq]

/-- Values that match have the same kind. -/
theorem sameKind_of_match {v w : Value} (h : claimValuesMatch c v w = .ok true) :
    SameKind v w := by
  induction v generalizing w with
  | map es =>
    cases w with
    | map fs =>
      refine ⟨by simp, by simp, fun _ => ⟨fs, rfl⟩, fun i hi => ?_, by simp⟩
      rw [Value.norm] at hi
      cases hi
    | _ => exact sameKind_of_canonical (canonical_eq_of_sameCanonical he h)
  | array vs =>
    cases w with
    | array ws =>
      refine ⟨by simp, by simp, by simp, fun i hi => ?_, by simp⟩
      rw [Value.norm] at hi
      cases hi
    | _ => exact sameKind_of_canonical (canonical_eq_of_sameCanonical he h)
  | tag t v ih =>
    cases w with
    | tag t' w =>
      by_cases ht : t = t'
      · subst ht
        rw [claimValuesMatch, if_pos rfl] at h
        refine ⟨by simp, by simp, by simp, fun i hi => ?_, by simp⟩
        -- a bignum, which the other tag is then put around too
        rcases (kind_of_norm (.tag t v)).2.2.2.2 i hi with heq | ⟨_, b, heq⟩
        · cases heq
        · have hv := (Value.tag.inj heq).2
          rw [(ih h).bytes b hv, ← hv]
          exact hi
      · rw [claimValuesMatch, if_neg ht] at h
        exact sameKind_of_canonical (canonical_eq_of_sameCanonical he h)
    | _ => exact sameKind_of_canonical (canonical_eq_of_sameCanonical he h)
  | integer | bytes | text | float | bool | null | simple =>
    exact sameKind_of_canonical (canonical_eq_of_sameCanonical he h)

end Match

/-! ### Removing markers -/

theorem remove_scalar {v : Value} (h : IsScalar v) : removeUndisclosedRedactions v = v := by
  cases v with
  | map | array | tag => exact h.elim
  | integer | bytes | text | float | bool | null | simple => rfl

/-- Only a scalar becomes one. -/
theorem eq_of_remove {v w : Value} (hw : IsScalar w) (h : removeUndisclosedRedactions v = w) :
    v = w := by
  cases v with
  | map | array | tag =>
    rw [removeUndisclosedRedactions] at h
    rw [← h] at hw
    exact hw.elim
  | integer | bytes | text | float | bool | null | simple => exact h

theorem remove_norm_integer {v : Value} {i : Integer} :
    (removeUndisclosedRedactions v).norm = .integer i ↔ v.norm = .integer i := by
  have hsame {u : Value} (hu : u = .integer i ∨ ∃ t b, u = .tag t (.bytes b)) :
      removeUndisclosedRedactions u = u := by
    rcases hu with rfl | ⟨t, b, rfl⟩
    · rfl
    · rfl
  constructor
  · intro h
    have hv : removeUndisclosedRedactions v = v := by
      rcases (kind_of_norm _).2.2.2.2 i h with heq | ⟨t, b, heq⟩
      · rw [eq_of_remove (w := .integer i) trivial heq]
        rfl
      · cases v with
        | tag t' v =>
          rw [removeUndisclosedRedactions] at heq
          rw [eq_of_remove (w := .bytes b) trivial (Value.tag.inj heq).2]
          rfl
        | map | array =>
          rw [removeUndisclosedRedactions] at heq
          cases heq
        | integer | bytes | text | float | bool | null | simple => rfl
    rwa [hv] at h
  · intro h
    rw [hsame ((kind_of_norm v).2.2.2.2 i h)]
    exact h

theorem SameKind.remove {v w : Value} (h : SameKind v w) :
    SameKind (removeUndisclosedRedactions v) (removeUndisclosedRedactions w) := by
  refine ⟨fun s hs => ?_, fun b hb => ?_, ?_, fun i hi => ?_,
    fun bits hfinite hbits => ?_⟩
  · rw [h.text s (eq_of_remove trivial hs), remove_scalar (v := .text s) trivial]
  · rw [h.bytes b (eq_of_remove trivial hb), remove_scalar (v := .bytes b) trivial]
  · rintro ⟨es, hes⟩
    cases v with
    | map es =>
      obtain ⟨fs, hfs⟩ := h.map ⟨es, rfl⟩
      rw [hfs, removeUndisclosedRedactions]
      exact ⟨_, rfl⟩
    | array | tag =>
      rw [removeUndisclosedRedactions] at hes
      cases hes
    | integer | bytes | text | float | bool | null | simple => cases hes
  · exact remove_norm_integer.mpr (h.integer i (remove_norm_integer.mp hi))
  · rw [h.float bits hfinite (eq_of_remove trivial hbits), remove_scalar (v := .float bits) trivial]

/-! ### Claims of two maps -/

variable {c : SdCbor2}

theorem Unmarked.not_redacted {v : Value} (h : Unmarked v) : isRedactedElement v = false := by
  cases h with
  | scalar hs =>
    cases v with
    | map | array | tag => exact hs.elim
    | integer | bytes | text | float | bool | null | simple => rfl
  | tag ht =>
    rw [isRedactedElement, decide_eq_false_iff_not]
    exact fun h => ht (.inl h)
  | array | map => rfl

theorem Redacted.labelled {marked : Bool} {v : Value} (h : Redacted marked v) : Labelled v := by
  induction h with
  | scalar hs _ => exact .scalar hs
  | tag _ _ ih => exact .tag ih
  | array _ _ ih => exact .array ih
  | map _ hkeys hnodup _ ih => exact .map hkeys (hnodup.sublist (List.filter_sublist.map _)) ih

theorem Unmarked.remove {v : Value} (h : Unmarked v) : removeUndisclosedRedactions v = v := by
  induction h with
  | scalar hs _ => exact remove_scalar hs
  | tag _ _ ih => rw [removeUndisclosedRedactions, ih]
  | @array vs hvs ih =>
    have hall : (vs.filter fun v => !isRedactedElement v) = vs :=
      List.filter_eq_self.mpr fun v hv => by rw [(hvs v hv).not_redacted]; rfl
    rw [removeUndisclosedRedactions, removeFromItems_eq, hall]
    exact congrArg Value.array ((List.map_congr_left ih).trans (List.map_id _))
  | @map es hvisible _ ih =>
    have hall : es.filter isVisible = es := List.filter_eq_self.mpr hvisible
    rw [removeUndisclosedRedactions, removeFromEntries_eq, hall]
    refine congrArg Value.map ((List.map_congr_left fun e he => ?_).trans (List.map_id _))
    rw [ih e he]
    rfl

end Cose2.SdCwt

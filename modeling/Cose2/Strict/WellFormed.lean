import Cose2.Strict.Grammar

/-! # The strict parser and well-formedness

RFC 8949 calls an encoding malformed that writes a simple value below 32 in two
bytes.  The parser has no check for that, and this is the only difference: it
accepts exactly the well-formed items within its limits, and besides these the
items that would be well-formed but for such a simple value.
-/
namespace Cose2.Strict

open Cbor

variable (c : Cbor2)

/-- `data` is exactly one well-formed item within the limits. -/
def WellFormedWithin (data : Bytes) (limits : CborLimits) : Prop :=
  ∃ t : Tree, data = t.bytes ∧ t.WellFormed ∧ WithinLimits limits t

/-- `data` is exactly one item within the limits, well-formed but for some simple
value below 32 that is written in two bytes. -/
def HasShortSimple (data : Bytes) (limits : CborLimits) : Prop :=
  ∃ t : Tree, data = t.bytes ∧ t.Fits ∧ WithinLimits limits t ∧
    ¬ t.All fun t => ¬ t.IsShortSimple

/-- The parser accepts `data` when it is well-formed within the limits, and only then. -/
def AcceptsWellFormed (data : Bytes) (limits : CborLimits) : Prop :=
  (∃ it, rootWithDuplicatePolicy c data limits false = .ok it) ↔ WellFormedWithin data limits

/-- What the parser accepts is well-formed or has a short simple value. -/
theorem accepts_iff {data : Bytes} {limits : CborLimits} :
    (∃ it, rootWithDuplicatePolicy c data limits false = .ok it) ↔
      WellFormedWithin data limits ∨ HasShortSimple data limits := by
  simp only [rootWithDuplicatePolicy_ok]
  constructor
  · rintro ⟨_, t, hdata, hfits, hlimits, -, -⟩
    by_cases h : t.All fun t => ¬ t.IsShortSimple
    · exact .inl ⟨t, hdata, ⟨hfits, h⟩, hlimits⟩
    · exact .inr ⟨t, hdata, hfits, hlimits, h⟩
  · rintro (⟨t, hdata, hwf, hlimits⟩ | ⟨t, hdata, hfits, hlimits, -⟩)
    · exact ⟨_, t, hdata, hwf.fits, hlimits, by simp, rfl⟩
    · exact ⟨_, t, hdata, hfits, hlimits, by simp, rfl⟩

/-- No byte string is both. -/
theorem not_wellFormedWithin {data : Bytes} {limits : CborLimits}
    (h : HasShortSimple data limits) : ¬ WellFormedWithin data limits := by
  obtain ⟨t, rfl, hfits, -, hshort⟩ := h
  rintro ⟨t', hdata, hwf, -⟩
  rw [bytes_inj hfits hwf.fits hdata] at hshort
  exact hshort hwf.2

/-- **The parser accepts exactly the well-formed input unless a short simple value
occurs in it.** -/
theorem acceptsWellFormed_iff (data : Bytes) (limits : CborLimits) :
    AcceptsWellFormed c data limits ↔ ¬ HasShortSimple data limits := by
  rw [AcceptsWellFormed, accepts_iff]
  constructor
  · intro h hshort
    exact not_wellFormedWithin hshort (h.mp (.inr hshort))
  · intro h
    rw [or_iff_left h]

/-- The two bytes `f8 00` are simple value 0 in two bytes. -/
theorem hasShortSimple_f800 : HasShortSimple [0xf8, 0x00] {} :=
  ⟨.prim .one 0, rfl, .node (show 0 < 256 by decide) (by simp [Tree.children]),
    ⟨by decide, by decide, by simp⟩, fun h => h.head (show 0 < 32 by decide)⟩

/-- They are accepted, but they are not well-formed. -/
theorem not_acceptsWellFormed_f800 :
    ¬ AcceptsWellFormed Cbor2.reference [0xf8, 0x00] {} := by
  intro h
  have haccepts := (accepts_iff Cbor2.reference).mpr (.inr hasShortSimple_f800)
  exact not_wellFormedWithin hasShortSimple_f800 (h.mp haccepts)

end Cose2.Strict

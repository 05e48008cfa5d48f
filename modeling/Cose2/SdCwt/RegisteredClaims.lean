import Cose2.Cwt.NumericDate
import Cose2.SdCwt.Markers

/-! # Registered claims

`sd-cwt/src/validation.rs`: the checks of the claims with a number of their own.  They
look a claim up in several maps and take the first that has it; what they establish
carries over to the others when these list the same data (`Consistent`).
-/
namespace Cose2.SdCwt

open Cbor

/-! ### Looking up -/

def cwtClaimIss : Int64 := 1
def cwtClaimSub : Int64 := 2
def cwtClaimAud : Int64 := 3
def cwtClaimExp : Int64 := 4
def cwtClaimNbf : Int64 := 5
def cwtClaimIat : Int64 := 6
def cwtClaimCti : Int64 := 7
/-- The label of a claim, as a key. -/
def claimKey (label : Int64) : Value := (Label.int label).toValue

/-- The second value has the type of the first, and is the same if it is a string or a
number. -/
structure SameKind (v w : Value) : Prop where
  text : ∀ s, v = .text s → w = .text s
  bytes : ∀ b, v = .bytes b → w = .bytes b
  map : (∃ es, v = .map es) → ∃ es, w = .map es
  integer : ∀ i, v.norm = .integer i → w.norm = .integer i
  float : ∀ bits, Double.IsFinite bits → v = .float bits → w = .float bits

theorem SameKind.refl (v : Value) : SameKind v v :=
  ⟨fun _ => id, fun _ => id, id, fun _ => id, fun _ _ => id⟩

/-- The maps list each claim once, and claims that several list have values of a kind. -/
structure Consistent (maps : List (List (Value × Value))) : Prop where
  nodup : ∀ entries ∈ maps, (entries.map Prod.fst).Nodup
  sameKind : maps.Pairwise fun es fs => ∀ label v w, (claimKey label, v) ∈ es →
    (claimKey label, w) ∈ fs → SameKind v w

/-- The number of a date: an integer, also one written as a bignum, or a finite double of
at most `2^53`. -/
inductive DateIs : Value → ℚ → Prop
  | integer {v : Value} {i : Integer} : v.norm = .integer i → DateIs v i.val
  | float {bits : UInt64} : Double.IsFinite bits → |Double.toRat bits| ≤ 2 ^ 53 →
    DateIs (.float bits) (Double.toRat bits)

theorem DateIs.unique {v : Value} {q r : ℚ} (hq : DateIs v q) (hr : DateIs v r) : q = r := by
  cases hq with
  | integer hi =>
    cases hr with
    | integer hj =>
      rw [hi, Value.integer.injEq] at hj
      rw [hj]
    | float => cases hi
  | float =>
    cases hr with
    | integer hj => cases hj
    | float => rfl

section Checks

variable {maps : List (List (Value × Value))}

end Checks
end Cose2.SdCwt

import Mathlib.Data.Sum.Order
import Cose2.Cbor2

/-! # Labels

`src/label.rs`: the keys of header, key and claim maps.
-/
namespace Cose2

open Cbor

/-- `Label`. -/
inductive Label where
  | int (i : Int64)
  | text (s : String)
deriving DecidableEq, Repr

open Cbor2 (i64TryFrom i64TryFrom_eq_some)

theorem i64TryFrom_toInt (i : Int64) : i64TryFrom i.toInt = some i := by
  have h := i.le_toInt
  have h' := i.toInt_lt
  unfold i64TryFrom
  rw [if_pos (by constructor <;> norm_num at * <;> omega), Int64.ofInt_toInt]

namespace Label

/-- The derived order: integers by value, then texts bytewise. -/
def rank : Label → Int ⊕ₗ List Nat
  | .int i => toLex (.inl i.toInt)
  | .text s => toLex (.inr ((utf8 s).map UInt8.toNat))

theorem rank_injective : Function.Injective rank := by
  intro a b h
  cases a with
  | int i =>
    cases b with
    | int j => exact congrArg _ (Int64.toInt_inj.mp (Sum.inl_injective (toLex.injective h)))
    | text t => cases h
  | text s =>
    cases b with
    | int j => cases h
    | text t =>
      have hmap := Sum.inr_injective (toLex.injective h)
      have hbytes := List.map_injective_iff.mpr (fun _ _ => UInt8.toNat_inj.mp) hmap
      rw [utf8_inj.mp hbytes]

instance : LinearOrder Label := LinearOrder.lift' rank rank_injective

/-- `Display for Label`. -/
def display : Label → String
  | .int i => toString i.toInt
  | .text s => s

/-- `Value::from(label)`. -/
def toValue : Label → Value
  | .int i => .integer ⟨i.toInt, by have := i.le_toInt; norm_num at *; omega,
      by have := i.toInt_lt; norm_num at *; omega⟩
  | .text s => .text s

/-- A label is in normal form. -/
@[simp] theorem norm_toValue (l : Label) : l.toValue.norm = l.toValue := by
  cases l with
  | int | text => rfl

theorem plain_toValue (l : Label) : l.toValue.Plain := by
  cases l with
  | int i => exact .integer _
  | text s => exact .text s

theorem toValue_injective : Function.Injective toValue := by
  intro l l' h
  cases l with
  | int i =>
    cases l' with
    | int j =>
      simp only [toValue, Value.integer.injEq, Integer.mk.injEq] at h
      rw [Int64.toInt_inj.mp h]
    | text t => cases h
  | text s =>
    cases l' with
    | int j => cases h
    | text t => exact congrArg Label.text (Value.text.inj h)

theorem ofInt_toInt (i : Int64) : Value.ofInt i.toInt = some (toValue (.int i)) := by
  have h := i.le_toInt
  have h' := i.toInt_lt
  unfold Value.ofInt
  rw [dif_pos (by constructor <;> norm_num at * <;> omega)]
  rfl

/-- `LabelVisitor`. -/
def visit : Visit → Except String Label
  | .i64 v => .ok (.int v)
  | .i128 v => Except.ofOption "integer label out of range" ((i64TryFrom v).map .int)
  | .u64 v => Except.ofOption "integer label out of range" ((i64TryFrom v.toNat).map .int)
  | .u128 v => Except.ofOption "integer label out of range" ((i64TryFrom v).map .int)
  | .str s => .ok (.text s)
  | .bytes _ | .other => .error "invalid type, expected an integer or text string COSE label"

variable (c : Cbor2)

/-- `Label::deserialize`. -/
def deserialize (t : Tree) : Except String Label := do visit (← c.deserializeAny t)

/-- A decoded label is the value of the item it was decoded from. -/
theorem deserialize_ok {c : Cbor2} (hc : c.Describes) {t : Tree} {l : Label}
    (h : deserialize c t = .ok l) : ∃ d, t.value = some d ∧ d.norm = l.toValue := by
  obtain ⟨u, hu, hl⟩ := Except.bind_eq_ok.mp h
  obtain ⟨d, hd, hden⟩ := hc.of_visit hu
  refine ⟨d, hd, ?_⟩
  have number {v : Int} {e : String} (hv : ∀ w, Value.ofInt v = some w → d.norm = w)
      (hl : Except.ofOption e ((i64TryFrom v).map Label.int) = .ok l) :
      d.norm = l.toValue := by
    obtain ⟨i, hi, rfl⟩ := Option.map_eq_some_iff.mp (Except.ofOption_eq_ok.mp hl)
    apply hv
    rw [← i64TryFrom_eq_some hi]
    exact ofInt_toInt i
  cases u with
  | i64 v =>
    cases hl
    exact hden _ (ofInt_toInt v)
  | u64 v | i128 v | u128 v =>
    rw [visit] at hl
    rw [Cbor2.Denotes] at hden
    exact number hden hl
  | str s =>
    cases hl
    exact hden
  | bytes | other => cases hl

end Label
end Cose2

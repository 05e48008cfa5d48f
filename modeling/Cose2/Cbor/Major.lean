import Cose2.Cbor.Canonical

/-! # Major types

The first byte of an encoding shows its major type.  What has the canonical encoding of
a string or of a number is therefore that string or that number, with no bound on its
length.
-/
namespace Cbor

theorem Width.info_preferred_lt (n : Nat) : (preferred n).info n < 32 := by
  unfold preferred
  split_ifs with h
  · exact Nat.lt_trans h (by decide)
  · exact (by decide : 24 < 32)
  · exact (by decide : 25 < 32)
  · exact (by decide : 26 < 32)
  · exact (by decide : 27 < 32)

namespace Value

/-- The major type a value is written with. -/
def major : Value → Nat
  | .integer i => if i.negative then 1 else 0
  | .bytes _ => 2
  | .text _ => 3
  | .array _ => 4
  | .map _ => 5
  | .tag .. => 6
  | .float _ | .bool _ | .null | .simple _ => 7

theorem encode_eq_cons (v : Value) : ∃ b bs, v.encode = b :: bs ∧ b.toNat / 32 = v.major := by
  have hhead {major n : Nat} {w : Width} (rest : Bytes) (hm : major < 8) (hw : w.info n < 32) :
      ∃ b bs, head major w n ++ rest = b :: bs ∧ b.toNat / 32 = major :=
    ⟨_, _, rfl, initial_major hm hw⟩
  have hprim {n : Nat} {w : Width} (hw : w.info n < 32) :
      ∃ b bs, (Tree.prim w n).bytes = b :: bs ∧ b.toNat / 32 = 7 :=
    ⟨_, _, rfl, initial_major (by decide) hw⟩
  cases v with
  | integer i =>
    have hmajor : (Value.integer i).major < 8 := by
      rw [major]
      split_ifs <;> decide
    exact ⟨_, _, rfl, initial_major hmajor (Width.info_preferred_lt _)⟩
  | bytes b => exact hhead _ (by decide) (Width.info_preferred_lt _)
  | text s => exact hhead _ (by decide) (Width.info_preferred_lt _)
  | array vs =>
    have hlength : (toTreeItems vs).length = vs.length := by
      rw [toTreeItems_eq, List.length_map]
    refine hhead _ (by decide) ?_
    rw [hlength]
    exact Width.info_preferred_lt _
  | map es =>
    have hlength : (toTreeEntries es).length = es.length := by
      rw [toTreeEntries_eq, List.length_map]
    refine hhead _ (by decide) ?_
    rw [hlength]
    exact Width.info_preferred_lt _
  | tag t v => exact hhead _ (by decide) (Width.info_preferred_lt _)
  | float bits =>
    cases h : shortestFloat bits with
    | mk w n =>
      rw [encode, toTree, h]
      refine hprim ?_
      rcases (shortestFloat_spec h).1 with rfl | rfl | rfl
      · exact (by decide : 25 < 32)
      · exact (by decide : 26 < 32)
      · exact (by decide : 27 < 32)
  | bool b =>
    cases b with
    | true | false => exact hprim (by decide)
  | null => exact hprim (by decide)
  | simple s => exact hprim (Width.info_preferred_lt _)

/-- The canonical encoding shows the major type. -/
theorem major_eq_of_canonical {v w : Value} (h : v.canonical = w.canonical) :
    v.norm.major = w.norm.major := by
  obtain ⟨b, bs, hv, hb⟩ := encode_eq_cons v.norm
  obtain ⟨b', bs', hw, hb'⟩ := encode_eq_cons w.norm
  have hbytes : b :: bs = b' :: bs' := hv.symm.trans (h.trans hw)
  rw [← hb, ← hb', (List.cons.inj hbytes).1]

/-- A value of major type 0, 1 or 7 can be written. -/
theorem writable_of_major {v : Value} (h : v.major ∈ [0, 1, 7]) : v.Writable := by
  cases v with
  | integer i => exact writable_integer i
  | float bits => exact writable_float bits
  | bool b => exact writable_bool b
  | null => exact writable_null
  | simple s => exact writable_simple s
  | bytes | text | array | map | tag => exact absurd h (by simp [major])

theorem major_integer_le (i : Integer) : (integer i).major ≤ 1 := by
  rw [major]
  split_ifs <;> decide

theorem of_major_text {v : Value} (h : v.major = 3) : ∃ s, v = .text s := by
  cases v with
  | text s => exact ⟨s, rfl⟩
  | integer i => exact absurd h (by have := major_integer_le i; omega)
  | bytes | float | bool | null | simple | tag | array | map => cases h

theorem of_major_bytes {v : Value} (h : v.major = 2) : ∃ b, v = .bytes b := by
  cases v with
  | bytes b => exact ⟨b, rfl⟩
  | integer i => exact absurd h (by have := major_integer_le i; omega)
  | text | float | bool | null | simple | tag | array | map => cases h

theorem of_major_map {v : Value} (h : v.major = 5) : ∃ es, v = .map es := by
  cases v with
  | map es => exact ⟨es, rfl⟩
  | integer i => exact absurd h (by have := major_integer_le i; omega)
  | bytes | text | float | bool | null | simple | tag | array => cases h

end Value

/-- A string is determined by its encoding, whatever its length. -/
theorem payload_eq_of_head {major : Nat} (hm : major < 8) {p p' : Bytes}
    (h : head major (preferred p.length) p.length ++ p =
      head major (preferred p'.length) p'.length ++ p') : p = p' := by
  have hinitial := (List.cons.inj h).1
  have hinfo : (preferred p.length).info p.length = (preferred p'.length).info p'.length := by
    rw [← initial_info hm (Width.info_preferred_lt p.length), hinitial,
      initial_info hm (Width.info_preferred_lt p'.length)]
  have hsize : (preferred p.length).size = (preferred p'.length).size := by
    unfold preferred at hinfo ⊢
    split_ifs at hinfo ⊢ <;> simp only [Width.info, Width.size] at hinfo ⊢ <;> omega
  have hlength : (head major (preferred p.length) p.length).length =
      (head major (preferred p'.length) p'.length).length := by
    rw [head_length, head_length, hsize]
  exact (List.append_inj h hlength).2

end Cbor

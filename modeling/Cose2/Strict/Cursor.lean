import Cose2.Strict.Parser

/-! # The parser's cursor

The parser walks the input by position, while `Cbor.Tree` describes encoded items
as lists of bytes.  `rest` is what the parser has still in front of it, `advance`
is the parser some bytes and items later, and the functions that read a byte or
an argument are characterised by the bytes they step over.
-/
namespace Cose2.Strict

open Cbor

/-! ### Places in the input -/

section

variable {data a b : Bytes} {pos : Nat}

/-- The input goes on with one string and then another one. -/
theorem append_prefix_drop :
    a ++ b <+: data.drop pos ↔ a <+: data.drop pos ∧ b <+: data.drop (pos + a.length) := by
  rw [← List.drop_drop]
  constructor
  · rintro ⟨r, hr⟩
    exact ⟨⟨b ++ r, by rw [← hr, List.append_assoc]⟩, ⟨r, by rw [← hr]; simp⟩⟩
  · rintro ⟨⟨r, hr⟩, ⟨r', hr'⟩⟩
    rw [← hr, List.drop_left] at hr'
    exact ⟨r', by rw [← hr, ← hr', List.append_assoc]⟩

/-- What the input goes on with is the slice of its length. -/
theorem slice_of_prefix (h : b <+: data.drop pos) : slice data pos (pos + b.length) = b := by
  rw [slice, Nat.add_sub_cancel_left]
  exact (List.prefix_iff_eq_take.mp h).symm

end

namespace Parser

/-! ### The cursor -/

/-- The input the parser has not consumed. -/
def rest (p : Parser) : Bytes := p.data.drop p.pos

/-- The parser after `len` more bytes and `n` more items. -/
def advance (p : Parser) (len n : Nat) : Parser :=
  { p with pos := p.pos + len, items := p.items + n }

variable {p p' : Parser}

@[simp] theorem advance_data (len n : Nat) : (p.advance len n).data = p.data := rfl
@[simp] theorem advance_pos (len n : Nat) : (p.advance len n).pos = p.pos + len := rfl
@[simp] theorem advance_items (len n : Nat) : (p.advance len n).items = p.items + n := rfl
@[simp] theorem advance_limits (len n : Nat) : (p.advance len n).limits = p.limits := rfl
@[simp] theorem advance_rejectDuplicateKeys (len n : Nat) :
    (p.advance len n).rejectDuplicateKeys = p.rejectDuplicateKeys := rfl

@[simp] theorem advance_zero : p.advance 0 0 = p := rfl

@[simp] theorem advance_advance (len n len' n' : Nat) :
    (p.advance len n).advance len' n' = p.advance (len + len') (n + n') := by
  simp [advance, Nat.add_assoc]

theorem append_prefix_rest {a b : Bytes} (n : Nat) :
    a ++ b <+: p.rest ↔ a <+: p.rest ∧ b <+: (p.advance a.length n).rest :=
  append_prefix_drop

theorem length_le_of_prefix {bs : Bytes} (h : bs <+: p.rest) (hne : bs ≠ []) :
    p.pos + bs.length ≤ p.data.length := by
  have := h.length_le
  have := List.length_pos_iff.mpr hne
  simp only [rest, List.length_drop] at *
  omega

theorem byte_ok {b : UInt8} : p.byte = .ok (b, p') ↔ [b] <+: p.rest ∧ p' = p.advance 1 0 := by
  have hget : p.data[p.pos]? = p.rest.head? := by
    rw [rest, List.head?_drop]
  rw [byte, hget]
  cases p.rest with
  | nil => simp
  | cons x xs =>
    rw [List.head?_cons, Except.ok.injEq, Prod.mk.injEq, List.cons_prefix_cons]
    constructor
    · rintro ⟨hx, hp⟩
      exact ⟨⟨hx.symm, List.nil_prefix⟩, hp.symm⟩
    · rintro ⟨⟨hx, _⟩, hp⟩
      exact ⟨hx.symm, hp.symm⟩

theorem atBreak_iff : p.AtBreak ↔ [breakByte] <+: p.rest := by
  have hget : p.data[p.pos]? = p.rest.head? := by
    rw [rest, List.head?_drop]
  rw [AtBreak, hget]
  cases p.rest with
  | nil => simp
  | cons x xs =>
    rw [List.head?_cons, Option.some.injEq, List.cons_prefix_cons, breakByte, eq_comm]
    exact ⟨fun h => ⟨h, List.nil_prefix⟩, fun h => h.1⟩

theorem takeBreak_eq_some :
    p.takeBreak = some p' ↔ [breakByte] <+: p.rest ∧ p' = p.advance 1 0 := by
  by_cases h : p.AtBreak
  · rw [takeBreak, if_pos h, Option.some.injEq]
    exact ⟨fun he => ⟨atBreak_iff.mp h, he.symm⟩, fun he => he.2.symm⟩
  · rw [takeBreak, if_neg h]
    exact ⟨by simp, fun he => absurd (atBreak_iff.mpr he.1) h⟩

/-- An item never starts where a break byte is. -/
theorem not_atBreak {t : Tree} (ht : t.Fits) (h : t.bytes <+: p.rest) : ¬ p.AtBreak := by
  obtain ⟨b, bs, he, hb⟩ := Tree.bytes_cons ht
  intro hbreak
  rw [atBreak_iff] at hbreak
  obtain ⟨r, hr⟩ := hbreak
  rw [← hr, he, List.singleton_append, List.cons_prefix_cons] at h
  exact hb h.1

theorem slice_eq_take (n : Nat) : slice p.data p.pos (p.pos + n) = p.rest.take n := by
  simp [slice, rest]

theorem uintBytes_ok {width : Nat} (hw : 0 < width) {argument : Option Nat} :
    p.uintBytes width = .ok (argument, p') ↔
      ∃ n < 256 ^ width, argument = some n ∧ beBytes width n <+: p.rest ∧
        p' = p.advance width 0 := by
  constructor
  · intro h
    rw [uintBytes, slice_eq_take] at h
    split_ifs at h with hlen
    cases h
    have htake : (p.rest.take width).length = width := by
      simp only [rest, List.length_take, List.length_drop]
      omega
    have hbytes := beBytes_beNat (p.rest.take width)
    have hlt := beNat_lt (p.rest.take width)
    rw [htake] at hbytes hlt
    exact ⟨_, hlt, rfl, by rw [hbytes]; exact List.take_prefix _ _, rfl⟩
  · rintro ⟨n, hn, rfl, hbytes, rfl⟩
    have hne : beBytes width n ≠ [] := List.ne_nil_of_length_pos (by simpa using hw)
    have hlen := length_le_of_prefix hbytes hne
    rw [beBytes_length] at hlen
    have htake : p.rest.take width = beBytes width n := by
      have := List.prefix_iff_eq_take.mp hbytes
      rw [beBytes_length] at this
      exact this.symm
    rw [uintBytes, if_pos hlen, slice_eq_take, htake, beNat_beBytes hn]
    rfl

/-- `uint` dispatches on the width that the additional information announces. -/
theorem uint_eq {additional : Nat} (ha : additional < 32) :
    p.uint additional = match widthOfInfo additional with
      | some .imm => .ok (some additional, p)
      | some w => p.uintBytes w.size
      | none =>
        if additional = 31 then .ok (none, p)
        else .error (p.err "reserved CBOR additional information") := by
  interval_cases additional <;> rfl

/-- The argument of a head, read back from its additional information. -/
theorem uint_ok {additional : Nat} (ha : additional < 32) {argument : Option Nat} :
    p.uint additional = .ok (argument, p') ↔
      (additional = 31 ∧ argument = none ∧ p' = p) ∨
      ∃ w n, n < Width.bound w ∧ w.info n = additional ∧ argument = some n ∧
        beBytes w.size n <+: p.rest ∧ p' = p.advance w.size 0 := by
  rw [uint_eq ha]
  have hno31 {w : Width} (h : widthOfInfo additional = some w) : additional ≠ 31 := by
    rintro rfl
    cases h
  have hwidth {w w' : Width} {n : Nat} (h : widthOfInfo additional = some w)
      (hn : n < w'.bound) (hi : w'.info n = additional) : w' = w := by
    have := widthOfInfo_info hn
    rw [hi, h] at this
    exact (Option.some.inj this).symm
  have wide (w : Width) (h : widthOfInfo additional = some w) (hpos : 0 < w.size)
      (hbound : 256 ^ w.size = w.bound) : p.uintBytes w.size = .ok (argument, p') ↔
        (additional = 31 ∧ argument = none ∧ p' = p) ∨
        ∃ w n, n < Width.bound w ∧ w.info n = additional ∧ argument = some n ∧
          beBytes w.size n <+: p.rest ∧ p' = p.advance w.size 0 := by
    rw [uintBytes_ok hpos, hbound]
    constructor
    · rintro ⟨n, hn, harg, hbytes, hp⟩
      rcases widthOfInfo_some h with ⟨rfl, -⟩ | ⟨-, hinfo⟩
      · cases hpos
      · exact .inr ⟨w, n, hn, hinfo n, harg, hbytes, hp⟩
    · rintro (⟨h31, -⟩ | ⟨w', n, hn, hi, harg, hbytes, hp⟩)
      · exact absurd h31 (hno31 h)
      · cases hwidth h hn hi
        exact ⟨n, hn, harg, hbytes, hp⟩
  cases h : widthOfInfo additional with
  | none =>
    have hnone : ¬ ∃ w n, n < Width.bound w ∧ w.info n = additional ∧ argument = some n ∧
        beBytes w.size n <+: p.rest ∧ p' = p.advance w.size 0 := by
      rintro ⟨w, n, hn, rfl, -⟩
      rw [widthOfInfo_info hn] at h
      cases h
    rw [or_iff_left hnone]
    by_cases h31 : additional = 31
    · simp [h31, eq_comm]
    · simp [h31]
  | some w =>
    cases w with
    | imm =>
      rcases widthOfInfo_some h with ⟨-, hlt⟩ | ⟨hne, -⟩
      · constructor
        · intro he
          cases he
          exact .inr ⟨.imm, additional, hlt, rfl, rfl, List.nil_prefix, rfl⟩
        · rintro (⟨h31, -⟩ | ⟨w', n, hn, hi, rfl, hbytes, rfl⟩)
          · exact absurd h31 (hno31 h)
          · cases hwidth h hn hi
            rw [← show n = additional from hi]
            rfl
      · exact absurd rfl hne
    | one => exact wide .one h (by decide) rfl
    | two => exact wide .two h (by decide) rfl
    | four => exact wide .four h (by decide) rfl
    | eight => exact wide .eight h (by decide) rfl

end Parser

end Cose2.Strict

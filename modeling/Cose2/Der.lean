import Cose2.Cbor.BigEndian

/-! # Tagged items with definite lengths

The tag-length-value layout that BER and DER share: length octets of the definite
form, short or long, and the shortest of them, which is the only one DER has; the
contents of a non-negative integer; and that all of it is read back in one way.
-/
namespace Der

open Cbor

/-! ### Length octets -/

/-- Length octets of the definite form, with the length they stand for. -/
inductive DefiniteLength : Bytes → Nat → Prop
  | short {b : UInt8} (h : b < 0x80) : DefiniteLength [b] b.toNat
  | long {b : UInt8} {bs : Bytes} (hb : b.toNat = 128 + bs.length) (hne : bs ≠ []) :
      DefiniteLength (b :: bs) (beNat bs)

/-- Longer than need be: the long form with a leading zero, or of a length that has a
short form. -/
def Redundant (octets : Bytes) (n : Nat) : Prop :=
  1 < octets.length ∧ (octets[1]? = some 0 ∨ n < 128)

/-- Length octets of DER. -/
def MinimalLength (octets : Bytes) (n : Nat) : Prop :=
  DefiniteLength octets n ∧ ¬ Redundant octets n

/-- Length octets end by themselves. -/
theorem DefiniteLength.append_inj {o o' rest rest' : Bytes} {n n' : Nat}
    (h : DefiniteLength o n) (h' : DefiniteLength o' n') (he : o ++ rest = o' ++ rest') :
    o = o' ∧ n = n' ∧ rest = rest' := by
  rcases h with hb | ⟨hb, hne⟩
  · rcases h' with hb' | ⟨hb', hne'⟩
    · cases he
      exact ⟨rfl, rfl, rfl⟩
    · rw [List.singleton_append, List.cons_append, List.cons.injEq] at he
      rw [← he.1] at hb'
      have : _ < 128 := UInt8.lt_iff_toNat_lt.mp hb
      omega
  · rename_i b bs
    rcases h' with hb' | ⟨hb', hne'⟩
    · rw [List.singleton_append, List.cons_append, List.cons.injEq] at he
      rw [he.1] at hb
      have : _ < 128 := UInt8.lt_iff_toNat_lt.mp hb'
      omega
    · rename_i b' bs'
      rw [List.cons_append, List.cons_append, List.cons.injEq] at he
      obtain ⟨rfl, he⟩ := he
      obtain ⟨rfl, rfl⟩ := List.append_inj he (by omega)
      exact ⟨rfl, rfl, rfl⟩

theorem DefiniteLength.short_or_long {o : Bytes} {n : Nat} (h : DefiniteLength o n) :
    (o = [UInt8.ofNat n] ∧ n < 128) ∨
      ∃ bs : Bytes, bs ≠ [] ∧ bs.length < 128 ∧ n = beNat bs ∧
        o = UInt8.ofNat (128 + bs.length) :: bs := by
  rcases h with hb | ⟨hb, hne⟩
  · rename_i b
    refine .inl ⟨?_, UInt8.lt_iff_toNat_lt.mp hb⟩
    rw [UInt8.ofNat_toNat]
  · rename_i b bs
    have hlt : b.toNat < 256 := b.toNat_lt
    refine .inr ⟨bs, hne, by omega, rfl, ?_⟩
    rw [← hb, UInt8.ofNat_toNat]

/-- A number without leading zero has a definite number of bytes. -/
theorem length_le_of_beNat {b : UInt8} {bs cs : Bytes} (hb : b ≠ 0)
    (h : beNat (b :: bs) = beNat cs) : (b :: bs).length ≤ cs.length := by
  by_contra hlt
  have hpos : 0 < b.toNat := Nat.pos_of_ne_zero fun h0 => hb (UInt8.toNat_inj.mp h0)
  have hbound := beNat_lt cs
  have hpow : 256 ^ cs.length ≤ 256 ^ bs.length :=
    Nat.pow_le_pow_right (by norm_num) (by rw [List.length_cons] at hlt; omega)
  have hlarge : 256 ^ bs.length ≤ b.toNat * 256 ^ bs.length := Nat.le_mul_of_pos_left _ hpos
  rw [← h, beNat_cons] at hbound
  omega

/-- A length has one sequence of octets in DER. -/
theorem MinimalLength.unique {o o' : Bytes} {n : Nat} (h : MinimalLength o n)
    (h' : MinimalLength o' n) : o = o' := by
  obtain ⟨hd, hm⟩ := h
  obtain ⟨hd', hm'⟩ := h'
  rcases hd.short_or_long with ⟨rfl, hn⟩ | ⟨bs, hne, -, rfl, rfl⟩
  · rcases hd'.short_or_long with ⟨rfl, -⟩ | ⟨bs', hne', -, rfl, rfl⟩
    · rfl
    · refine absurd ⟨?_, .inr hn⟩ hm'
      simpa [List.length_pos_iff] using hne'
  · rcases hd'.short_or_long with ⟨rfl, hn⟩ | ⟨bs', hne', -, hbs, rfl⟩
    · refine absurd ⟨?_, .inr hn⟩ hm
      simpa [List.length_pos_iff] using hne
    · obtain ⟨b, bs, rfl⟩ := List.exists_cons_of_ne_nil hne
      obtain ⟨b', bs', rfl⟩ := List.exists_cons_of_ne_nil hne'
      have hb : b ≠ 0 := fun h0 => hm ⟨by simp, .inl (by simp [h0])⟩
      have hb' : b' ≠ 0 := fun h0 => hm' ⟨by simp, .inl (by simp [h0])⟩
      have hlen : (b :: bs).length = (b' :: bs').length :=
        le_antisymm (length_le_of_beNat hb hbs) (length_le_of_beNat hb' hbs.symm)
      rw [(beNat_inj hlen).mp hbs]

/-! ### The contents of non-negative integers -/

/-- Not the contents of a non-negative integer of DER: nothing at all, a negative
number, or a zero in front that no sign bit calls for. -/
def LaxInteger (contents : Bytes) : Prop :=
  contents = [] ∨ (∃ b bs, contents = b :: bs ∧ 0x80 ≤ b) ∨
    ∃ b bs, contents = 0 :: b :: bs ∧ b < 0x80

/-- The contents of a non-negative integer in DER. -/
def UnsignedInteger (contents : Bytes) : Prop := ¬ LaxInteger contents

/-- The shortest byte string of a number; zero keeps one byte. -/
def MinimalMagnitude (magnitude : Bytes) : Prop :=
  magnitude ≠ [] ∧ ¬ ∃ b bs, magnitude = 0 :: b :: bs

/-- The contents of a non-negative integer are its sign bit and its shortest byte
string, in one of two forms. -/
theorem UnsignedInteger.cases {contents : Bytes} (h : UnsignedInteger contents) :
    (∃ b bs, contents = b :: bs ∧ b < 0x80 ∧ (b = 0 → bs = [])) ∨
      ∃ b bs, contents = 0 :: b :: bs ∧ 0x80 ≤ b := by
  rw [UnsignedInteger, LaxInteger, not_or, not_or] at h
  obtain ⟨hne, hneg, hzero⟩ := h
  obtain ⟨b, bs, rfl⟩ := List.exists_cons_of_ne_nil hne
  have hb : b < 0x80 := UInt8.not_le.mp fun hb => hneg ⟨b, bs, rfl, hb⟩
  by_cases h0 : b = 0
  · subst h0
    rcases bs with _ | ⟨b', bs'⟩
    · exact .inl ⟨0, [], rfl, hb, fun _ => rfl⟩
    · exact .inr ⟨b', bs', rfl, UInt8.not_lt.mp fun hb' => hzero ⟨b', bs', rfl, hb'⟩⟩
  · exact .inl ⟨b, bs, rfl, hb, fun h => absurd h h0⟩

end Der

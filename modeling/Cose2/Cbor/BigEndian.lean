import Cose2.Cbor.Head

/-! # Big-endian byte strings

What leading zeros, padding and exclusive or do to the number a byte string
denotes.
-/
namespace Cbor

theorem beNat_append (as bs : Bytes) :
    beNat (as ++ bs) = beNat as * 256 ^ bs.length + beNat bs := by
  induction bs using List.reverseRecOn with
  | nil => simp
  | append_singleton bs b ih =>
    rw [← List.append_assoc, beNat_append_singleton, beNat_append_singleton, ih,
      List.length_append, List.length_singleton, Nat.pow_succ]
    ring

theorem beNat_cons (b : UInt8) (bs : Bytes) :
    beNat (b :: bs) = b.toNat * 256 ^ bs.length + beNat bs := by
  rw [← List.singleton_append, beNat_append]
  simp [beNat]

@[simp] theorem beNat_zero_cons (bs : Bytes) : beNat (0 :: bs) = beNat bs := by
  simp [beNat_cons]

/-- Two byte strings of one length that denote the same number are the same. -/
theorem beNat_inj {as bs : Bytes} (h : as.length = bs.length) :
    beNat as = beNat bs ↔ as = bs := by
  constructor
  · intro he
    rw [← beBytes_beNat as, ← beBytes_beNat bs, he, h]
  · rintro rfl
    rfl

/-! ### Padding -/

@[simp] theorem beNat_leftpad (n : Nat) (bs : Bytes) : beNat (bs.leftpad n 0) = beNat bs := by
  rw [List.leftpad]
  induction n - bs.length with
  | zero => rfl
  | succ k ih => rw [List.replicate_succ, List.cons_append, beNat_zero_cons, ih]

theorem leftpad_length {n : Nat} {bs : Bytes} (h : bs.length ≤ n) :
    (bs.leftpad n 0).length = n := by
  rw [List.leftpad, List.length_append, List.length_replicate]
  omega

/-- Padded to one length, byte strings are told apart by their numbers. -/
theorem leftpad_inj {n : Nat} {as bs : Bytes} (ha : as.length ≤ n) (hb : bs.length ≤ n) :
    as.leftpad n 0 = bs.leftpad n 0 ↔ beNat as = beNat bs := by
  rw [← beNat_inj (by rw [leftpad_length ha, leftpad_length hb]), beNat_leftpad, beNat_leftpad]

/-! ### Exclusive or -/

/-- The exclusive or of two byte strings, as far as both go. -/
def xorBytes (as bs : Bytes) : Bytes := as.zipWith (· ^^^ ·) bs

theorem xorBytes_length {as bs : Bytes} (h : as.length = bs.length) :
    (xorBytes as bs).length = bs.length := by
  rw [xorBytes, List.length_zipWith, h, min_self]

/-- The second exclusive or undoes the first. -/
theorem xorBytes_xorBytes {as bs : Bytes} (h : as.length = bs.length) :
    xorBytes (xorBytes as bs) bs = as := by
  induction as generalizing bs with
  | nil => rfl
  | cons a as ih =>
    obtain _ | ⟨b, bs⟩ := bs
    · cases h
    · have ih := ih (Nat.succ.inj h)
      simp only [xorBytes, List.zipWith_cons_cons, List.cons.injEq] at ih ⊢
      refine ⟨?_, ih⟩
      rw [UInt8.xor_assoc, UInt8.xor_self, UInt8.xor_zero]

theorem xorBytes_inj {as bs base : Bytes} (ha : as.length = base.length)
    (hb : bs.length = base.length) : xorBytes as base = xorBytes bs base ↔ as = bs := by
  constructor
  · intro h
    rw [← xorBytes_xorBytes ha, h, xorBytes_xorBytes hb]
  · rintro rfl
    rfl

end Cbor

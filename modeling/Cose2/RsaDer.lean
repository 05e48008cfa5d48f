import Cose2.Der
import Cose2.Key

/-! # RSA keys in DER

The part of `src/crypto.rs` that writes an RSA private key as the sequence of
integers of PKCS#1, and reads a public key from one.  `usize` has eight bytes.
-/
namespace Cose2

open Cbor Der Iana Strict

/-! ### Writing -/

/-- `der_length`: the octets it appends. -/
def derLength (len : Nat) : Bytes :=
  if len < 0x80 then [UInt8.ofNat len]
  else
    let be := beBytes 8 len
    let first := (be.findIdx? (· ≠ 0)).getD (be.length - 1)
    let bytes := be.drop first
    (0x80 ||| UInt8.ofNat bytes.length) :: bytes

/-- The loop of `der_unsigned_integer`: leading zero bytes are dropped, but one byte
is kept. -/
def dropLeadingZeros : Bytes → Bytes
  | b :: b' :: bs => if b = 0 then dropLeadingZeros (b' :: bs) else b :: b' :: bs
  | bs => bs

/-- `der_unsigned_integer`: what it appends. -/
def derUnsignedInteger (value : Bytes) : Bytes :=
  let magnitude := dropLeadingZeros value
  if magnitude.head?.any fun b => b &&& 0x80 ≠ 0 then
    0x02 :: derLength (magnitude.length + 1) ++ 0x00 :: magnitude
  else 0x02 :: derLength magnitude.length ++ magnitude

/-- The components of an RSA private key, in the order of the sequence. -/
def rsaPrivateKeyParameters : List (Label × String) :=
  [(rsaKeyParameterN, "n"), (rsaKeyParameterE, "e"), (rsaKeyParameterD, "d"),
    (rsaKeyParameterP, "p"), (rsaKeyParameterQ, "q"), (rsaKeyParameterDP, "dP"),
    (rsaKeyParameterDQ, "dQ"), (rsaKeyParameterQInv, "qInv")]

/-- The contents of the sequence: the version and the components. -/
def rsaPrivateKeyBody (fields : List Bytes) : Bytes :=
  derUnsignedInteger [0] ++ (fields.map derUnsignedInteger).flatten

/-- `rsa_pkcs1_private_key_der`. -/
def rsaPkcs1PrivateKeyDer (key : Key) : Except Error Bytes := do
  let fields ← rsaPrivateKeyParameters.mapM fun parameter =>
    key.requiredBytes parameter.1 parameter.2
  let body := rsaPrivateKeyBody fields
  return 0x30 :: derLength body.length ++ body

/-! ### Reading -/

/-- One round of the loop in `der_read_length`. -/
def pushLengthOctet (len : UInt64) (b : UInt8) : UInt64 := (len <<< 8) ||| b.toUInt64

/-- `der_read_length`. -/
def derReadLength : Bytes → Option (Nat × Bytes)
  | [] => none
  | first :: rest =>
    if first < 0x80 then some (first.toNat, rest)
    else
      let count := (first &&& 0x7f).toNat
      if count = 0 ∨ 8 < count ∨ rest.length < count then none
      else some (((rest.take count).foldl pushLengthOctet 0).toNat, rest.drop count)

/-- `der_take_tlv`. -/
def derTakeTlv (input : Bytes) (tag : UInt8) : Option (Bytes × Bytes) :=
  match input with
  | [] => none
  | first :: rest =>
    if first ≠ tag then none
    else do
      let (len, rest) ← derReadLength rest
      if rest.length < len then none else some (rest.take len, rest.drop len)

/-- `der_integer_magnitude`. -/
def derIntegerMagnitude : Bytes → Bytes
  | b :: b' :: bs => if b = 0 then b' :: bs else b :: b' :: bs
  | bs => bs

/-- `rsa_public_key_from_der`. -/
def rsaPublicKeyFromDer (der : Bytes) : Except Error (Bytes × Bytes) := do
  let invalid := Error.custom "invalid RSA public key DER"
  let (seq, trailing) ← Except.ofOption invalid (derTakeTlv der 0x30)
  Except.failIf (trailing ≠ []) invalid
  let (n, rest) ← Except.ofOption invalid (derTakeTlv seq 0x02)
  let (e, rest) ← Except.ofOption invalid (derTakeTlv rest 0x02)
  Except.failIf (rest ≠ []) invalid
  return (derIntegerMagnitude n, derIntegerMagnitude e)

/-! ### Lengths -/

theorem and_signBit (b : UInt8) : b &&& 0x80 ≠ 0 ↔ 0x80 ≤ b := by
  have hall : ∀ n < 256, UInt8.ofNat n &&& 0x80 ≠ 0 ↔ 0x80 ≤ UInt8.ofNat n := by decide +kernel
  have h := hall b.toNat b.toNat_lt
  rwa [UInt8.ofNat_toNat] at h

theorem and_count {b : UInt8} (h : ¬ b < 0x80) : b.toNat = 128 + (b &&& 0x7f).toNat := by
  have hall : ∀ n < 256, ¬ UInt8.ofNat n < 0x80 →
      (UInt8.ofNat n).toNat = 128 + (UInt8.ofNat n &&& 0x7f).toNat := by decide +kernel
  have h := hall b.toNat b.toNat_lt
  rw [UInt8.ofNat_toNat] at h
  exact h ‹_›

theorem or_count {count : Nat} (h : count ≤ 8) :
    (0x80 ||| UInt8.ofNat count).toNat = 128 + count := by
  have hall : ∀ n < 9, (0x80 ||| UInt8.ofNat n).toNat = 128 + n := by decide
  exact hall count (by omega)

/-- Eight octets fit the accumulator of `der_read_length`. -/
theorem foldl_shift_toNat {bs : Bytes} (h : bs.length ≤ 8) :
    (bs.foldl pushLengthOctet 0).toNat = beNat bs := by
  induction bs using List.reverseRecOn with
  | nil => rfl
  | append_singleton bs b ih =>
    rw [List.length_append, List.length_singleton] at h
    have hn := beNat_lt bs
    -- seven octets in front at most, so the shift loses no bit
    have hpow : 256 ^ bs.length ≤ 256 ^ 7 := Nat.pow_le_pow_right (by norm_num) (by omega)
    have hb : b.toNat < 2 ^ 8 := b.toNat_lt
    rw [List.foldl_append, List.foldl_cons, List.foldl_nil, beNat_append_singleton,
      pushLengthOctet, UInt64.toNat_or, UInt64.toNat_shiftLeft, ih (by omega), UInt8.toNat_toUInt64]
    have hshift : beNat bs <<< ((8 : UInt64).toNat % 64) % 2 ^ 64 = beNat bs <<< 8 := by
      show beNat bs <<< 8 % 2 ^ 64 = beNat bs <<< 8
      rw [Nat.shiftLeft_eq]
      apply Nat.mod_eq_of_lt
      norm_num at *
      omega
    rw [hshift, ← Nat.shiftLeft_add_eq_or_of_lt hb, Nat.shiftLeft_eq]

/-- The octets that are read are those of a definite length in at most eight bytes. -/
theorem derReadLength_eq_some {input rest : Bytes} {n : Nat} :
    derReadLength input = some (n, rest) ↔
      ∃ o, DefiniteLength o n ∧ o.length ≤ 9 ∧ input = o ++ rest := by
  constructor
  · intro h
    rcases input with _ | ⟨b, bs⟩
    · cases h
    rw [derReadLength] at h
    dsimp only at h
    split_ifs at h with hb hcount
    · cases h
      exact ⟨[b], .short hb, by simp, rfl⟩
    -- the long form: the low seven bits of the first octet count the others
    · rw [not_or, not_or, not_lt, not_lt] at hcount
      obtain ⟨hpos, hle, hlen⟩ := hcount
      have htake : (bs.take (b &&& 0x7f).toNat).length = (b &&& 0x7f).toNat := by
        rw [List.length_take]
        omega
      simp only [Option.some.injEq, Prod.mk.injEq] at h
      obtain ⟨rfl, rfl⟩ := h
      refine ⟨b :: bs.take (b &&& 0x7f).toNat, ?_, ?_, ?_⟩
      · rw [foldl_shift_toNat (by omega)]
        apply DefiniteLength.long
        · rw [htake, and_count hb]
        · rw [← List.length_pos_iff, htake]
          omega
      · rw [List.length_cons]
        omega
      · rw [List.cons_append, List.take_append_drop]
  · rintro ⟨o, h, hle, rfl⟩
    rcases h with hb | ⟨hb, hne⟩
    · rw [List.singleton_append, derReadLength, if_pos hb]
    · rename_i b bs
      have hnot : ¬ b < 0x80 := by
        intro h
        have : b.toNat < 128 := UInt8.lt_iff_toNat_lt.mp h
        omega
      have hcount : (b &&& 0x7f).toNat = bs.length := by
        have := and_count hnot
        omega
      have hpos : 0 < bs.length := List.length_pos_iff.mpr hne
      rw [List.length_cons] at hle
      rw [List.cons_append, derReadLength, if_neg hnot, hcount, if_neg, List.take_left,
        List.drop_left, foldl_shift_toNat (by omega)]
      rw [List.length_append]
      omega

/-- From the first byte that is not zero on, a byte string denotes the same number. -/
theorem findIdx_nonzero {bs : Bytes} (h : 0 < beNat bs) :
    ∃ i b cs, bs.findIdx? (· ≠ 0) = some i ∧ bs.drop i = b :: cs ∧ b ≠ 0 ∧
      beNat (b :: cs) = beNat bs ∧ (b :: cs).length ≤ bs.length := by
  induction bs with
  | nil => exact absurd h (lt_irrefl 0)
  | cons b bs ih =>
    by_cases hb : b = 0
    · subst hb
      rw [beNat_zero_cons] at h ⊢
      obtain ⟨i, b, cs, hidx, hdrop, hb, hnat, hlen⟩ := ih h
      refine ⟨i + 1, b, cs, ?_, hdrop, hb, hnat, Nat.le_succ_of_le hlen⟩
      rw [List.findIdx?_cons, hidx]
      rfl
    · exact ⟨0, b, bs, by rw [List.findIdx?_cons]; simp [hb], rfl, hb, rfl, le_refl _⟩

/-- The octets that are written are the shortest. -/
theorem derLength_minimal {n : Nat} (h : n < usizeBound) :
    MinimalLength (derLength n) n ∧ (derLength n).length ≤ 9 := by
  rw [derLength]
  split_ifs with hshort
  · have hn : (UInt8.ofNat n).toNat = n := by
      rw [UInt8.toNat_ofNat']
      omega
    have hdef : DefiniteLength [UInt8.ofNat n] (UInt8.ofNat n).toNat :=
      .short (UInt8.lt_iff_toNat_lt.mpr (by rw [hn]; exact hshort))
    rw [hn] at hdef
    exact ⟨⟨hdef, by simp [Redundant]⟩, by simp⟩
  · have hnat : beNat (beBytes 8 n) = n := beNat_beBytes (by norm_num [usizeBound] at *; exact h)
    have hpos : 0 < beNat (beBytes 8 n) := by omega
    -- the eight bytes of `usize`, from the first that is not zero
    obtain ⟨i, b, cs, hidx, hdrop, hb, hcs, hlen⟩ := findIdx_nonzero hpos
    rw [beBytes_length] at hlen
    dsimp only
    rw [hidx, Option.getD_some, hdrop]
    rw [hnat] at hcs
    refine ⟨⟨?_, ?_⟩, by rw [List.length_cons]; omega⟩
    · rw [← hcs]
      exact .long (or_count hlen) (List.cons_ne_nil _ _)
    · rintro ⟨-, h0 | hlt⟩
      · exact hb (by simpa using h0)
      · omega

/-- `der_read_length` undoes `der_length`. -/
theorem derReadLength_derLength {n : Nat} (h : n < usizeBound) (rest : Bytes) :
    derReadLength (derLength n ++ rest) = some (n, rest) :=
  have hmin := derLength_minimal h
  derReadLength_eq_some.mpr ⟨_, hmin.1.1, hmin.2, rfl⟩

/-- A length in at most eight bytes fits `usize`. -/
theorem lt_usizeBound {o : Bytes} {n : Nat} (h : DefiniteLength o n) (hlen : o.length ≤ 9) :
    n < usizeBound := by
  rcases h.short_or_long with ⟨-, hn⟩ | ⟨bs, -, -, rfl, rfl⟩
  · norm_num [usizeBound]
    omega
  · rw [List.length_cons] at hlen
    have hpow : 256 ^ bs.length ≤ 256 ^ 8 := Nat.pow_le_pow_right (by norm_num) (by omega)
    calc beNat bs < 256 ^ bs.length := beNat_lt bs
      _ ≤ 256 ^ 8 := hpow
      _ = usizeBound := by norm_num [usizeBound]

/-! ### Items -/

theorem derTakeTlv_eq_some {input contents rest : Bytes} {tag : UInt8} :
    derTakeTlv input tag = some (contents, rest) ↔ ∃ o, DefiniteLength o contents.length ∧
      o.length ≤ 9 ∧ input = tag :: (o ++ (contents ++ rest)) := by
  constructor
  · intro h
    rcases input with _ | ⟨first, input⟩
    · cases h
    rw [derTakeTlv] at h
    split_ifs at h with htag
    rw [ne_eq, not_not] at htag
    obtain ⟨⟨len, input'⟩, hlen, htake⟩ := Option.bind_eq_some_iff.mp h
    obtain ⟨o, ho, hle, rfl⟩ := derReadLength_eq_some.mp hlen
    dsimp only at htake
    split_ifs at htake with hshort
    cases htake
    refine ⟨o, ?_, hle, ?_⟩
    · rwa [List.length_take, min_eq_left (not_lt.mp hshort)]
    · rw [htag, List.take_append_drop]
  · rintro ⟨o, ho, hle, rfl⟩
    rw [derTakeTlv, if_neg (not_not.mpr rfl)]
    refine Option.bind_eq_some_iff.mpr ⟨_, derReadLength_eq_some.mpr ⟨o, ho, hle, rfl⟩, ?_⟩
    dsimp only
    rw [if_neg, List.take_left, List.drop_left]
    rw [List.length_append]
    omega

/-- What is written as an item is taken as one, whatever follows. -/
theorem derTakeTlv_derLength {contents : Bytes} (h : contents.length < usizeBound)
    (tag : UInt8) (rest : Bytes) :
    derTakeTlv (tag :: (derLength contents.length ++ contents) ++ rest) tag =
      some (contents, rest) := by
  have hmin := derLength_minimal h
  refine derTakeTlv_eq_some.mpr ⟨_, hmin.1.1, hmin.2, ?_⟩
  rw [List.cons_append, List.append_assoc]

/-! ### Integers -/

theorem beNat_dropLeadingZeros (value : Bytes) : beNat (dropLeadingZeros value) = beNat value := by
  fun_induction dropLeadingZeros value with
  | case1 b bs ih => rw [ih, beNat_zero_cons]
  | case2 => rfl
  | case3 => rfl

theorem dropLeadingZeros_minimal {value : Bytes} (h : value ≠ []) :
    MinimalMagnitude (dropLeadingZeros value) := by
  fun_induction dropLeadingZeros value with
  | case1 b bs ih => exact ih (List.cons_ne_nil _ _)
  | case2 b b' bs hb =>
    refine ⟨List.cons_ne_nil _ _, ?_⟩
    rintro ⟨c, cs, he⟩
    exact hb (List.cons.inj he).1
  | case3 bs hbs =>
    refine ⟨h, ?_⟩
    rintro ⟨c, cs, rfl⟩
    exact hbs _ _ _ rfl

theorem dropLeadingZeros_of_minimal {m : Bytes} (h : MinimalMagnitude m) :
    dropLeadingZeros m = m := by
  fun_cases dropLeadingZeros m with
  | case1 b bs => exact absurd ⟨_, _, rfl⟩ h.2
  | case2 | case3 => rfl

/-- The contents `der_unsigned_integer` gives to an integer. -/
def integerContents (value : Bytes) : Bytes :=
  let magnitude := dropLeadingZeros value
  if magnitude.head?.any fun b => b &&& 0x80 ≠ 0 then 0x00 :: magnitude else magnitude

theorem derUnsignedInteger_eq (value : Bytes) : derUnsignedInteger value =
    0x02 :: (derLength (integerContents value).length ++ integerContents value) := by
  simp only [derUnsignedInteger, integerContents]
  split_ifs <;> rfl

theorem beNat_integerContents (value : Bytes) : beNat (integerContents value) = beNat value := by
  simp only [integerContents]
  split_ifs
  · rw [beNat_zero_cons, beNat_dropLeadingZeros]
  · exact beNat_dropLeadingZeros value

/-- The contents of an integer are never those of a negative one. -/
theorem integerContents_head {value : Bytes} {b : UInt8}
    (h : (integerContents value).head? = some b) : b < 0x80 := by
  simp only [integerContents] at h
  split_ifs at h with hany
  · cases h
    decide
  · rw [h, Option.any_some, decide_eq_true_eq, and_signBit, UInt8.not_le] at hany
    exact hany

theorem integerContents_unsigned {value : Bytes} (h : value ≠ []) :
    UnsignedInteger (integerContents value) := by
  have hm := dropLeadingZeros_minimal h
  rintro (hnil | ⟨b, bs, hneg, hb⟩ | ⟨b, bs, hzero, hb⟩)
  · simp only [integerContents] at hnil
    split_ifs at hnil
    exact hm.1 hnil
  · have hhead : (integerContents value).head? = some b := by rw [hneg]; rfl
    exact absurd hb (UInt8.not_le.mpr (integerContents_head hhead))
  -- a zero in front of a zero was dropped, so this one is the sign byte
  · simp only [integerContents] at hzero
    split_ifs at hzero with hany
    · rw [(List.cons.inj hzero).2] at hany
      simp only [List.head?_cons, Option.any_some, decide_eq_true_eq, and_signBit] at hany
      exact absurd hany (UInt8.not_le.mpr hb)
    · exact hm.2 ⟨b, bs, hzero⟩

/-- The magnitude of an integer of DER is its shortest byte string, and is written
as it was. -/
theorem derIntegerMagnitude_spec {contents : Bytes} (h : UnsignedInteger contents) :
    MinimalMagnitude (derIntegerMagnitude contents) ∧
      beNat (derIntegerMagnitude contents) = beNat contents ∧
      integerContents (derIntegerMagnitude contents) = contents := by
  rcases h.cases with ⟨b, bs, rfl, hb, h0⟩ | ⟨b, bs, rfl, hb⟩
  · have hself : derIntegerMagnitude (b :: bs) = b :: bs := by
      rcases bs with _ | ⟨b', bs⟩
      · rfl
      · rw [derIntegerMagnitude, if_neg]
        intro hb0
        cases h0 hb0
    have hm : MinimalMagnitude (b :: bs) := by
      refine ⟨List.cons_ne_nil _ _, ?_⟩
      rintro ⟨c, cs, he⟩
      obtain ⟨rfl, rfl⟩ := List.cons.inj he
      cases h0 rfl
    refine ⟨by rw [hself]; exact hm, by rw [hself], ?_⟩
    simp only [hself, integerContents, dropLeadingZeros_of_minimal hm, List.head?_cons,
      Option.any_some, decide_eq_true_eq, and_signBit]
    exact if_neg (UInt8.not_le.mpr hb)
  · have hself : derIntegerMagnitude (0 :: b :: bs) = b :: bs := by
      rw [derIntegerMagnitude, if_pos rfl]
    have hm : MinimalMagnitude (b :: bs) := by
      refine ⟨List.cons_ne_nil _ _, ?_⟩
      rintro ⟨c, cs, he⟩
      obtain ⟨rfl, rfl⟩ := List.cons.inj he
      exact absurd hb (by decide)
    refine ⟨by rw [hself]; exact hm, by rw [hself, beNat_zero_cons], ?_⟩
    simp only [hself, integerContents, dropLeadingZeros_of_minimal hm, List.head?_cons,
      Option.any_some, decide_eq_true_eq, and_signBit]
    exact if_pos hb

end Cose2

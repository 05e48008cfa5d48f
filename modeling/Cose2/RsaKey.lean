import Cose2.RsaDer

/-! # RSA key documents

What the private key document contains when it is read back, and which public key
documents are read although they are not DER.
-/
namespace Cose2

open Cbor Der Iana Strict

/-! ### The private key -/

/-- A run of integers, read one after the other to the end, with their contents. -/
inductive TakesIntegers : Bytes → List Bytes → Prop
  | nil : TakesIntegers [] []
  | cons {input rest contents : Bytes} {more : List Bytes}
      (h : derTakeTlv input 0x02 = some (contents, rest)) (hrest : TakesIntegers rest more) :
      TakesIntegers input (contents :: more)

/-- The contents of an integer with the value of a component: the same number, never
negative, and in the shortest form unless the component is empty. -/
structure EncodesComponent (value contents : Bytes) : Prop where
  number : beNat contents = beNat value
  positive : ∀ b, contents.head? = some b → b < 0x80
  minimal : value ≠ [] → UnsignedInteger contents

theorem encodesComponent (value : Bytes) : EncodesComponent value (integerContents value) :=
  ⟨beNat_integerContents value, fun _ => integerContents_head, integerContents_unsigned⟩

theorem takesIntegers_flatten {values : List Bytes}
    (h : (values.map derUnsignedInteger).flatten.length < usizeBound) :
    TakesIntegers (values.map derUnsignedInteger).flatten (values.map integerContents) := by
  induction values with
  | nil => exact .nil
  | cons v vs ih =>
    rw [List.map_cons, List.flatten_cons, derUnsignedInteger_eq] at h ⊢
    rw [List.length_append, List.length_cons, List.length_append] at h
    exact .cons (derTakeTlv_derLength (by omega) _ _) (ih (by omega))

theorem encodesComponents (values : List Bytes) :
    List.Forall₂ EncodesComponent values (values.map integerContents) := by
  induction values with
  | nil => exact .nil
  | cons v vs ih => exact .cons (encodesComponent v) ih

theorem requiredBytes_of_get {key : Key} {label : Label} {name : String} {b : Bytes}
    (h : key.get label = some (.bytes b)) : key.requiredBytes label name = .ok b := by
  have hb : key.getBytes label = .ok (some b) := CoseMap.getBytes_eq_ok.mpr h
  rw [Key.requiredBytes, hb]
  rfl

/-- The document of a private key is one sequence of nine integers, the version and
the components in their order, and lengths are read back as they are written. -/
theorem rsaPkcs1PrivateKeyDer_reads :
    (∀ (key : Key) (n e d p q dP dQ qInv : Bytes),
      key.get rsaKeyParameterN = some (.bytes n) → key.get rsaKeyParameterE = some (.bytes e) →
      key.get rsaKeyParameterD = some (.bytes d) → key.get rsaKeyParameterP = some (.bytes p) →
      key.get rsaKeyParameterQ = some (.bytes q) → key.get rsaKeyParameterDP = some (.bytes dP) →
      key.get rsaKeyParameterDQ = some (.bytes dQ) →
      key.get rsaKeyParameterQInv = some (.bytes qInv) →
      (rsaPrivateKeyBody [n, e, d, p, q, dP, dQ, qInv]).length < usizeBound →
      ∃ der body octets contents, rsaPkcs1PrivateKeyDer key = .ok der ∧
        der = 0x30 :: (octets ++ body) ∧ MinimalLength octets body.length ∧
        derTakeTlv der 0x30 = some (body, []) ∧
        TakesIntegers body contents ∧ contents.length = 9 ∧
        List.Forall₂ EncodesComponent [[0], n, e, d, p, q, dP, dQ, qInv] contents) ∧
    ∀ len rest, len < usizeBound → derReadLength (derLength len ++ rest) = some (len, rest) := by
  refine ⟨?_, fun len rest h => derReadLength_derLength h rest⟩
  intro key n e d p q dP dQ qInv hn he hd hp hq hdP hdQ hqInv hsize
  set values := [n, e, d, p, q, dP, dQ, qInv] with hvalues
  -- the version is one more integer in front of the components
  have hbody : rsaPrivateKeyBody values = (([0] :: values).map derUnsignedInteger).flatten := rfl
  have hder : rsaPkcs1PrivateKeyDer key = .ok (0x30 ::
      (derLength (rsaPrivateKeyBody values).length ++ rsaPrivateKeyBody values)) := by
    have hfields : rsaPrivateKeyParameters.mapM (fun parameter =>
        key.requiredBytes parameter.1 parameter.2) = .ok values := by
      apply Except.mapM_eq_ok.mpr
      exact .cons (requiredBytes_of_get hn) (.cons (requiredBytes_of_get he)
        (.cons (requiredBytes_of_get hd) (.cons (requiredBytes_of_get hp)
        (.cons (requiredBytes_of_get hq) (.cons (requiredBytes_of_get hdP)
        (.cons (requiredBytes_of_get hdQ) (.cons (requiredBytes_of_get hqInv) .nil)))))))
    rw [rsaPkcs1PrivateKeyDer, hfields]
    rfl
  refine ⟨_, rsaPrivateKeyBody values, _, ([0] :: values).map integerContents, hder, rfl,
    (derLength_minimal hsize).1, ?_, ?_, rfl, encodesComponents _⟩
  · simpa using derTakeTlv_derLength hsize 0x30 []
  · rw [hbody] at hsize ⊢
    exact takesIntegers_flatten hsize

/-- A key with a modulus that has a zero in front and needs a sign byte, and with an
empty last component. -/
theorem rsaPkcs1PrivateKeyDer_reads_example :
    ∃ key : Key, ∃ der body octets contents, rsaPkcs1PrivateKeyDer key = .ok der ∧
      der = 0x30 :: (octets ++ body) ∧ MinimalLength octets body.length ∧
      derTakeTlv der 0x30 = some (body, []) ∧
      TakesIntegers body contents ∧ contents.length = 9 ∧
      List.Forall₂ EncodesComponent [[0], [0, 0x81], [2], [3], [4], [5], [6], [7], []] contents :=
  ⟨BTreeMap.ofList [(rsaKeyParameterN, .bytes [0, 0x81]), (rsaKeyParameterE, .bytes [2]),
    (rsaKeyParameterD, .bytes [3]), (rsaKeyParameterP, .bytes [4]),
    (rsaKeyParameterQ, .bytes [5]), (rsaKeyParameterDP, .bytes [6]),
    (rsaKeyParameterDQ, .bytes [7]), (rsaKeyParameterQInv, .bytes [])],
    rsaPkcs1PrivateKeyDer_reads.1 _ [0, 0x81] [2] [3] [4] [5] [6] [7] [] rfl rfl rfl rfl rfl rfl
      rfl rfl (by decide)⟩

/-! ### The public key -/

/-- A byte string as a sequence of two integers in BER with definite lengths of at
most eight bytes: the length octets of all three items, and the contents of the
integers. -/
structure BerPublicKey (der outer first second modulus exponent : Bytes) : Prop where
  outer_length : DefiniteLength outer
    (0x02 :: (first ++ (modulus ++ (0x02 :: (second ++ exponent))))).length
  first_length : DefiniteLength first modulus.length
  second_length : DefiniteLength second exponent.length
  outer_fits : outer.length ≤ 9
  first_fits : first.length ≤ 9
  second_fits : second.length ≤ 9
  eq : der = 0x30 :: (outer ++ (0x02 :: (first ++ (modulus ++ (0x02 :: (second ++ exponent))))))

/-- There is at most one such reading. -/
theorem BerPublicKey.unique {der o₀ o₁ o₂ n e o₀' o₁' o₂' n' e' : Bytes}
    (h : BerPublicKey der o₀ o₁ o₂ n e) (h' : BerPublicKey der o₀' o₁' o₂' n' e') :
    o₀ = o₀' ∧ o₁ = o₁' ∧ o₂ = o₂' ∧ n = n' ∧ e = e' := by
  have hder := h.eq.symm.trans h'.eq
  obtain ⟨ho₀, -, hbody⟩ := h.outer_length.append_inj h'.outer_length (List.cons.inj hder).2
  obtain ⟨ho₁, hlen, hrest⟩ := h.first_length.append_inj h'.first_length (List.cons.inj hbody).2
  obtain ⟨hn, hsecond⟩ := List.append_inj hrest hlen
  obtain ⟨ho₂, -, he⟩ := h.second_length.append_inj h'.second_length (List.cons.inj hsecond).2
  exact ⟨ho₀, ho₁, ho₂, hn, he⟩

/-- The reader accepts the BER sequences of two integers, and takes their magnitudes. -/
theorem rsaPublicKeyFromDer_eq_ok {der n e : Bytes} :
    rsaPublicKeyFromDer der = .ok (n, e) ↔ ∃ o₀ o₁ o₂ cn ce, BerPublicKey der o₀ o₁ o₂ cn ce ∧
      n = derIntegerMagnitude cn ∧ e = derIntegerMagnitude ce := by
  simp only [rsaPublicKeyFromDer, Except.bind_eq_ok, Except.ofOption_eq_ok]
  constructor
  · rintro ⟨⟨seq, trailing⟩, hseq, _, htrailing, ⟨cn, rest⟩, hn, ⟨ce, rest'⟩, he, _, hrest, hok⟩
    rw [Except.failIf_eq_ok, not_not] at htrailing hrest
    cases hok
    obtain ⟨o₀, ho₀, hfit₀, rfl⟩ := derTakeTlv_eq_some.mp hseq
    obtain ⟨o₁, ho₁, hfit₁, rfl⟩ := derTakeTlv_eq_some.mp hn
    obtain ⟨o₂, ho₂, hfit₂, rfl⟩ := derTakeTlv_eq_some.mp he
    dsimp only at htrailing hrest
    subst htrailing
    subst hrest
    rw [List.append_nil] at *
    exact ⟨o₀, o₁, o₂, cn, ce, ⟨ho₀, ho₁, ho₂, hfit₀, hfit₁, hfit₂, by simp⟩, rfl, rfl⟩
  · rintro ⟨o₀, o₁, o₂, cn, ce, h, rfl, rfl⟩
    refine ⟨(_, []), derTakeTlv_eq_some.mpr ⟨o₀, h.outer_length, h.outer_fits, ?_⟩, (), by simp,
      (cn, _), derTakeTlv_eq_some.mpr ⟨o₁, h.first_length, h.first_fits, rfl⟩,
      (ce, []), derTakeTlv_eq_some.mpr ⟨o₂, h.second_length, h.second_fits, ?_⟩, (), by simp, rfl⟩
    · rw [h.eq, List.append_nil]
    · rw [List.append_nil]

/-- Whatever is read from a byte string, this is the DER of it: shortest lengths, two
non-negative integers in shortest form, of which the magnitudes are read, and writing
them again gives the byte string. -/
def ReadsOnlyDer (der : Bytes) : Prop :=
  ∀ n e, rsaPublicKeyFromDer der = .ok (n, e) →
    (∃ o₀ o₁ o₂ cn ce, BerPublicKey der o₀ o₁ o₂ cn ce ∧
      MinimalLength o₀ (0x02 :: (o₁ ++ (cn ++ (0x02 :: (o₂ ++ ce))))).length ∧
      MinimalLength o₁ cn.length ∧ MinimalLength o₂ ce.length ∧
      UnsignedInteger cn ∧ UnsignedInteger ce ∧
      MinimalMagnitude n ∧ beNat n = beNat cn ∧ MinimalMagnitude e ∧ beNat e = beNat ce) ∧
    0x30 :: (derLength (derUnsignedInteger n ++ derUnsignedInteger e).length ++
      (derUnsignedInteger n ++ derUnsignedInteger e)) = der

/-- The byte strings that are read although they are not DER: one of the lengths is
written in more octets than it needs, or one of the integers is empty, negative or
padded. -/
def LaxPublicKey (der : Bytes) : Prop :=
  ∃ o₀ o₁ o₂ cn ce, BerPublicKey der o₀ o₁ o₂ cn ce ∧
    (Redundant o₀ (0x02 :: (o₁ ++ (cn ++ (0x02 :: (o₂ ++ ce))))).length ∨
      Redundant o₁ cn.length ∨ Redundant o₂ ce.length ∨ LaxInteger cn ∨ LaxInteger ce)

/-- Lengths in the shortest form are those that are written. -/
theorem derLength_of_minimal {o : Bytes} {n : Nat} (h : MinimalLength o n) (hfit : o.length ≤ 9) :
    derLength n = o :=
  (derLength_minimal (lt_usizeBound h.1 hfit)).1.unique h

/-- The reader is strict on a byte string exactly when this is none of the lax kinds. -/
theorem readsOnlyDer_iff (der : Bytes) : ReadsOnlyDer der ↔ ¬ LaxPublicKey der := by
  constructor
  · rintro h ⟨o₀, o₁, o₂, cn, ce, hber, hlax⟩
    obtain ⟨⟨o₀', o₁', o₂', cn', ce', hber', hm₀, hm₁, hm₂, hn, he, -⟩, -⟩ :=
      h _ _ (rsaPublicKeyFromDer_eq_ok.mpr ⟨o₀, o₁, o₂, cn, ce, hber, rfl, rfl⟩)
    obtain ⟨rfl, rfl, rfl, rfl, rfl⟩ := hber.unique hber'
    rcases hlax with h₀ | h₁ | h₂ | hcn | hce
    · exact hm₀.2 h₀
    · exact hm₁.2 h₁
    · exact hm₂.2 h₂
    · exact hn hcn
    · exact he hce
  · intro hstrict n e hok
    obtain ⟨o₀, o₁, o₂, cn, ce, hber, rfl, rfl⟩ := rsaPublicKeyFromDer_eq_ok.mp hok
    simp only [LaxPublicKey, not_exists, not_and, not_or] at hstrict
    obtain ⟨h₀, h₁, h₂, hcn, hce⟩ := hstrict o₀ o₁ o₂ cn ce hber
    have hm₀ : MinimalLength o₀ _ := ⟨hber.outer_length, h₀⟩
    have hm₁ : MinimalLength o₁ _ := ⟨hber.first_length, h₁⟩
    have hm₂ : MinimalLength o₂ _ := ⟨hber.second_length, h₂⟩
    obtain ⟨hmn, hbn, hcn'⟩ := derIntegerMagnitude_spec hcn
    obtain ⟨hme, hbe, hce'⟩ := derIntegerMagnitude_spec hce
    refine ⟨⟨o₀, o₁, o₂, cn, ce, hber, hm₀, hm₁, hm₂, hcn, hce, hmn, hbn, hme, hbe⟩, ?_⟩
    -- what was read is written again, from the inside out
    have hbody : derUnsignedInteger (derIntegerMagnitude cn) ++
        derUnsignedInteger (derIntegerMagnitude ce) =
          0x02 :: (o₁ ++ (cn ++ (0x02 :: (o₂ ++ ce)))) := by
      rw [derUnsignedInteger_eq, derUnsignedInteger_eq, hcn', hce',
        derLength_of_minimal hm₁ hber.first_fits, derLength_of_minimal hm₂ hber.second_fits]
      simp
    rw [hbody, derLength_of_minimal hm₀ hber.outer_fits, ← hber.eq]

/-- A negative modulus is read. -/
theorem not_readsOnlyDer : ¬ ∀ der, ReadsOnlyDer der := by
  intro h
  obtain ⟨-, hder⟩ := h [0x30, 0x06, 0x02, 0x01, 0x80, 0x02, 0x01, 0x03] [0x80] [0x03] rfl
  revert hder
  decide

end Cose2

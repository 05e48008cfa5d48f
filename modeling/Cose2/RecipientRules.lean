import Cose2.Recipient
import Cose2.Layer

/-! # What the checks of one recipient establish

`RecipientOk` is what `validate_local` says of a recipient, by the class of its algorithm;
`StandsAlone` is what `validate_recipient_layer_rules` says of the list it stands in.
Headers may sit in either bucket, so what they carry is stated of both.
-/
namespace Cose2

open Cbor Iana

/-- The key is a public key of a sender, fit for the algorithm. -/
structure EcdhPublicKey (key : Key) (algorithm : Label) : Prop where
  alg : key.alg = .ok none ∨ key.alg = .ok (some algorithm)
  ops : key.ops = .ok none ∨ key.ops = .ok (some [])
  noPrivate : key.containsKey ec2KeyParameterD = false ∧
    key.containsKey okpKeyParameterD = false
  point : ∃ keyType curveLabel xLabel privateLabel curve length x,
    key.kty = .ok (some keyType) ∧ ecdhLabels keyType = some (curveLabel, xLabel, privateLabel) ∧
    key.getLabel curveLabel = .ok (some curve) ∧ ecdhLength keyType curve = some length ∧
    key.getBytes xLabel = .ok (some x) ∧ x.length = length

/-! ### Sender keys -/

section SenderKey

variable {key : Key} {algorithm : Label}

theorem validateEcdhUse_ok (h : validateEcdhUse key algorithm = .ok ()) :
    (key.alg = .ok none ∨ key.alg = .ok (some algorithm)) ∧
      (key.ops = .ok none ∨ key.ops = .ok (some [])) := by
  have hempty {ops : Option (List Label)} (hops : key.ops = .ok ops)
      (h : ¬ ops.any (· ≠ []) = true) : key.ops = .ok none ∨ key.ops = .ok (some []) := by
    cases ops with
    | none => exact .inl hops
    | some ops =>
      rw [Option.any_some, decide_eq_true_eq, not_not] at h
      exact .inr (h ▸ hops)
  rw [validateEcdhUse, Except.bind_eq_ok] at h
  obtain ⟨a, ha, h⟩ := h
  cases a with
  | none =>
    simp only [Except.bind_eq_ok, Except.failIf_eq_ok] at h
    obtain ⟨ops, hops, h⟩ := h
    exact ⟨.inl ha, hempty hops h⟩
  | some a =>
    simp only [requireSameAlg, Except.bind_eq_ok, Except.failIf_eq_ok, not_not] at h
    obtain ⟨_, rfl, ops, hops, h⟩ := h
    exact ⟨.inr ha, hempty hops h⟩

theorem ecdhCurve_ok {label curve : Label} (h : ecdhCurve key label = .ok curve) :
    key.getLabel label = .ok (some curve) := by
  rw [ecdhCurve, Except.bind_eq_ok] at h
  obtain ⟨o, ho, h⟩ := h
  rcases o with _ | _ | _
  · cases h
  · rw [Except.pure_eq_ok] at h
    exact h ▸ ho
  · cases h

/-- Keys on one coordinate and on two have their private part under one label. -/
theorem ecdhLabels_private {keyType curveLabel xLabel privateLabel : Label}
    (h : ecdhLabels keyType = some (curveLabel, xLabel, privateLabel)) :
    privateLabel = ec2KeyParameterD ∧ privateLabel = okpKeyParameterD := by
  unfold ecdhLabels at h
  split_ifs at h
  · cases h
    exact ⟨rfl, by decide⟩
  · cases h
    exact ⟨by decide, rfl⟩

theorem validateEcdhPublicKey_ok (h : validateEcdhPublicKey key algorithm = .ok ()) :
    EcdhPublicKey key algorithm := by
  rw [validateEcdhPublicKey, Except.seq_eq_ok, Except.bind_eq_ok] at h
  obtain ⟨huse, o, hkty, h⟩ := h
  rcases o with _ | keyType
  · cases h
  · simp only [pure_bind, Except.bind_eq_ok, Except.ofOption_eq_ok, Except.failIf_eq_ok] at h
    obtain ⟨⟨curveLabel, xLabel, privateLabel⟩, hlabels, curve, hcurve, _, hprivate,
      length, hlength, o, hx, x, rfl, _, hsize, -⟩ := h
    -- the label that was looked for is the private one of both key types
    have hd := ecdhLabels_private hlabels
    rw [Bool.not_eq_true] at hprivate
    exact {
      alg := (validateEcdhUse_ok huse).1
      ops := (validateEcdhUse_ok huse).2
      noPrivate := ⟨hd.1 ▸ hprivate, hd.2 ▸ hprivate⟩
      point := ⟨keyType, curveLabel, xLabel, privateLabel, curve, length, x, hkty, hlabels,
        ecdhCurve_ok hcurve, hlength, hx, not_not.mp hsize⟩ }

end SenderKey

namespace Recipient

/-! ### Header parameters in either bucket -/

/-- One of the header buckets has the value under the label. -/
def Carries (r : Recipient) (label : Label) (v : Value) : Prop :=
  r.protectedHeader.get label = some v ∨ r.unprotectedHeader.get label = some v

/-- The recipient's algorithm is of the class. -/
def HasClass (r : Recipient) (cls : RecipientAlgorithmClass) : Prop :=
  r.algorithmClass = .ok (some cls)

/-- The recipient adds something of its own to the derivation of the key. -/
def HasSaltOrNonce (r : Recipient) : Prop :=
  (∃ salt ≠ [], r.Carries headerAlgorithmParameterSalt (.bytes salt)) ∨
    (∃ nonce ≠ [], r.Carries headerAlgorithmParameterPartyUNonce (.bytes nonce)) ∨
    ∃ nonce, r.Carries headerAlgorithmParameterPartyUNonce (.integer nonce)

/-- The algorithms with an ephemeral key of the sender. -/
def ecdhEs : List Label :=
  [algorithmECDH_ES_HKDF_256, algorithmECDH_ES_HKDF_512, algorithmECDH_ES_A128KW,
    algorithmECDH_ES_A192KW, algorithmECDH_ES_A256KW]

/-- The algorithms with a static key of the sender. -/
def ecdhSs : List Label :=
  [algorithmECDH_SS_HKDF_256, algorithmECDH_SS_HKDF_512, algorithmECDH_SS_A128KW,
    algorithmECDH_SS_A192KW, algorithmECDH_SS_A256KW]

/-- Whatever the recipient carries under the label is a public key for the algorithm. -/
def PublicKeysAt (c : Cbor2) (r : Recipient) (label algorithm : Label) : Prop :=
  ∀ v, r.Carries label v → ∃ key, Key.tryFrom c v = .ok key ∧ EcdhPublicKey key algorithm

/-- What `validate_local` says of a recipient. -/
structure RecipientOk (c : Cbor2) (r : Recipient) : Prop where
  buckets : BucketsOk r.protectedHeader r.unprotectedHeader
  alg : ∃ a, r.alg = .ok (some a)
  direct : ∀ cls ∈ [.direct, .directKeyDerivation, .directKeyAgreement], r.HasClass cls →
    r.ciphertext = some [] ∧ r.recipients = []
  bare : ∀ cls ∈ [.direct, .keyWrap, .keyTransport], r.HasClass cls →
    r.protectedHeader.entries = []
  wrapped : ∀ cls ∈ [.keyWrap, .keyTransport, .keyAgreementWithKeyWrap], r.HasClass cls →
    ∃ ciphertext ≠ [], r.ciphertext = some ciphertext
  transport : r.HasClass .keyTransport → r.recipients = []
  salted : r.HasClass .directKeyDerivation → r.HasSaltOrNonce
  ephemeral : ∀ a ∈ ecdhEs, r.alg = .ok (some a) →
    (∃ v, r.Carries headerAlgorithmParameterEphemeralKey v) ∧
      r.PublicKeysAt c headerAlgorithmParameterEphemeralKey a
  static : ∀ a ∈ ecdhSs, r.alg = .ok (some a) →
    (∃ v, r.Carries headerAlgorithmParameterStaticKey v ∨
      r.Carries headerAlgorithmParameterStaticKeyId v) ∧
      r.PublicKeysAt c headerAlgorithmParameterStaticKey a ∧ r.HasSaltOrNonce

/-- A recipient of the direct methods stands alone in its list. -/
def StandsAlone (layer : List Recipient) : Prop :=
  ∀ r ∈ layer, ∀ cls ∈ [.direct, .directKeyDerivation, .directKeyAgreement],
    r.HasClass cls → layer = [r]

section Checks

variable {c : Cbor2} {r : Recipient} {label : Label} {v : Value}

theorem carries_of_headerValue (h : r.headerValue label = some v) : r.Carries label v := by
  rw [headerValue, Option.or_eq_some_iff] at h
  rcases h with h | ⟨-, h⟩
  · exact .inl h
  · exact .inr h

/-- No label is in both buckets, so what either carries is what the checks look at. -/
theorem headerValue_of_carries (hb : BucketsOk r.protectedHeader r.unprotectedHeader)
    (h : r.Carries label v) : r.headerValue label = some v := by
  rw [headerValue, Option.or_eq_some_iff]
  rcases h with h | h
  · exact .inl h
  · refine .inr ⟨?_, h⟩
    rw [Option.eq_none_iff_forall_ne_some]
    intro w hw
    refine hb.disjoint label ⟨?_, ?_⟩
    · exact BTreeMap.containsKey_iff.mpr ⟨w, BTreeMap.get_eq_some.mp hw⟩
    · exact BTreeMap.containsKey_iff.mpr ⟨v, BTreeMap.get_eq_some.mp h⟩

theorem requireSaltOrPartyUNonce_ok {name : String}
    (h : r.requireSaltOrPartyUNonce name = .ok ()) : r.HasSaltOrNonce := by
  by_contra hnone
  -- had the recipient neither, each of the three branches would refuse it
  have hsalt (salt : Bytes)
      (hs : r.headerValue headerAlgorithmParameterSalt = some (.bytes salt)) : salt = [] := by
    by_contra hne
    exact hnone (.inl ⟨salt, hne, carries_of_headerValue hs⟩)
  have hnonce (nonce : Bytes)
      (hn : r.headerValue headerAlgorithmParameterPartyUNonce = some (.bytes nonce)) :
      nonce = [] := by
    by_contra hne
    exact hnone (.inr (.inl ⟨nonce, hne, carries_of_headerValue hn⟩))
  have hinteger (i : Integer)
      (hn : r.headerValue headerAlgorithmParameterPartyUNonce = some (.integer i)) : False :=
    hnone (.inr (.inr ⟨i, carries_of_headerValue hn⟩))
  rw [requireSaltOrPartyUNonce] at h
  dsimp only at h
  split at h
  · split at h <;> simp_all
  · rename_i salt hs
    cases hsalt salt hs
    split at h <;> simp_all
  · cases h

theorem publicKeysAt_of_headerValue {a : Label}
    (hb : BucketsOk r.protectedHeader r.unprotectedHeader)
    (h : ∀ v, r.headerValue label = some v →
      ∃ key, Key.tryFrom c v = .ok key ∧ validateEcdhPublicKey key a = .ok ()) :
    r.PublicKeysAt c label a := by
  intro v hv
  obtain ⟨key, hkey, hvalid⟩ := h v (headerValue_of_carries hb hv)
  exact ⟨key, hkey, validateEcdhPublicKey_ok hvalid⟩

/-- The checks of a static key, one by one. -/
theorem requireStaticKey_iff {a : Label} : r.requireStaticKey c a = .ok () ↔
    (r.headerValue headerAlgorithmParameterStaticKey ≠ none ∨
      r.headerValue headerAlgorithmParameterStaticKeyId ≠ none) ∧
    (∀ v, r.headerValue headerAlgorithmParameterStaticKey = some v →
      ∃ key, Key.tryFrom c v = .ok key ∧ validateEcdhPublicKey key a = .ok ()) ∧
    (∀ v, r.headerValue headerAlgorithmParameterStaticKeyId = some v → ∃ b, v = .bytes b) ∧
    r.requireSaltOrPartyUNonce "ECDH-SS recipient" = .ok () := by
  rw [requireStaticKey]
  dsimp only
  rw [Except.seq_eq_ok, Except.failIf_eq_ok]
  cases r.headerValue headerAlgorithmParameterStaticKeyId with
  | none =>
    cases r.headerValue headerAlgorithmParameterStaticKey with
    | none => simp
    | some v => simp [Except.bind_eq_ok, Unique.exists_iff, ← exists_and_right, and_assoc]
  | some id =>
    cases r.headerValue headerAlgorithmParameterStaticKey with
    | none => cases id <;> simp
    | some v =>
      cases id <;> simp [Except.bind_eq_ok, Unique.exists_iff, ← exists_and_right, and_assoc]

theorem requireStaticKey_ok {a : Label} (hb : BucketsOk r.protectedHeader r.unprotectedHeader)
    (h : r.requireStaticKey c a = .ok ()) :
    (∃ v, r.Carries headerAlgorithmParameterStaticKey v ∨
      r.Carries headerAlgorithmParameterStaticKeyId v) ∧
      r.PublicKeysAt c headerAlgorithmParameterStaticKey a ∧ r.HasSaltOrNonce := by
  obtain ⟨hpresent, hkey, -, hsalt⟩ := requireStaticKey_iff.mp h
  refine ⟨?_, publicKeysAt_of_headerValue hb hkey, requireSaltOrPartyUNonce_ok hsalt⟩
  rcases hpresent with hkey | hid
  · obtain ⟨v, hv⟩ := Option.ne_none_iff_exists'.mp hkey
    exact ⟨v, .inl (carries_of_headerValue hv)⟩
  · obtain ⟨v, hv⟩ := Option.ne_none_iff_exists'.mp hid
    exact ⟨v, .inr (carries_of_headerValue hv)⟩

theorem requireEphemeralKey_ok {a : Label}
    (hb : BucketsOk r.protectedHeader r.unprotectedHeader)
    (h : r.requireSenderKey c true a = .ok ()) :
    (∃ v, r.Carries headerAlgorithmParameterEphemeralKey v) ∧
      r.PublicKeysAt c headerAlgorithmParameterEphemeralKey a := by
  simp only [requireSenderKey, if_true, Except.bind_eq_ok, Except.ofOption_eq_ok] at h
  obtain ⟨v, hv, key, htry, hvalid⟩ := h
  refine ⟨⟨v, carries_of_headerValue hv⟩, publicKeysAt_of_headerValue hb ?_⟩
  intro w hw
  rw [hv] at hw
  cases hw
  exact ⟨key, htry, hvalid⟩

/-! ### Classes of algorithms -/

theorem hasClass_iff {a : Label} (ha : r.alg = .ok (some a)) {cls : RecipientAlgorithmClass} :
    r.HasClass cls ↔ classifyRecipientAlgorithm a = some cls := by
  rw [HasClass, algorithmClass, ha, Except.ok_bind, Except.pure_eq_ok]
  rfl

theorem requireDirect_ok {name : String} (h : r.requireDirect name = .ok ()) :
    r.ciphertext = some [] ∧ r.recipients = [] := by
  simpa [requireDirect, Except.seq_eq_ok] using h

theorem ciphertext_of_getD (h : ¬ r.ciphertext.getD [] = []) :
    ∃ ciphertext ≠ [], r.ciphertext = some ciphertext := by
  cases hct : r.ciphertext with
  | none => simp [hct] at h
  | some ciphertext =>
    rw [hct] at h
    exact ⟨ciphertext, h, rfl⟩

theorem requireWrapped_ok {name : String} (h : r.requireWrapped name = .ok ()) :
    r.protectedHeader.entries = [] ∧ ∃ ciphertext ≠ [], r.ciphertext = some ciphertext := by
  rw [requireWrapped, Except.seq_eq_ok, Except.failIf_eq_ok, not_not, Except.bind_eq_ok] at h
  obtain ⟨hempty, _, -, h⟩ := h
  rw [Except.seq_eq_ok, Except.failIf_eq_ok, Except.failIf_eq_ok] at h
  exact ⟨hempty, ciphertext_of_getD h.2⟩

theorem classify_ecdh : ∀ ephemeral : Bool, ∀ a ∈ if ephemeral then ecdhEs else ecdhSs,
    (classifyRecipientAlgorithm a = some .directKeyAgreement ∧
        [algorithmECDH_ES_HKDF_256, algorithmECDH_ES_HKDF_512].contains a = ephemeral) ∨
      (classifyRecipientAlgorithm a = some .keyAgreementWithKeyWrap ∧
        [algorithmECDH_ES_A128KW, algorithmECDH_ES_A192KW,
          algorithmECDH_ES_A256KW].contains a = ephemeral) := by
  decide

/-- The sender's key is asked for wherever the algorithm is on an elliptic curve. -/
theorem requireSenderKey_of_validateClass {a : Label} {ephemeral : Bool}
    (ha : a ∈ if ephemeral then ecdhEs else ecdhSs) (h : r.validateClass c a = .ok ()) :
    r.requireSenderKey c ephemeral a = .ok () := by
  obtain ⟨hclass, rfl⟩ | ⟨hclass, rfl⟩ := classify_ecdh ephemeral a ha
  · rw [validateClass, hclass] at h
    exact (Except.seq_eq_ok.mp h).2
  · rw [validateClass, hclass] at h
    exact (Except.seq_eq_ok.mp h).2

theorem validateClass_ok {a : Label} (hb : BucketsOk r.protectedHeader r.unprotectedHeader)
    (ha : r.alg = .ok (some a)) (h : r.validateClass c a = .ok ()) : RecipientOk c r where
  buckets := hb
  alg := ⟨a, ha⟩
  direct := by
    simp only [List.forall_mem_cons, List.not_mem_nil, false_imp_iff, implies_true, and_true]
    refine ⟨?_, ?_, ?_⟩
    -- each class has its own branch, which the class selects
    all_goals
      intro hclass
      rw [validateClass, (hasClass_iff ha).mp hclass] at h
    · exact requireDirect_ok (Except.seq_eq_ok.mp h).2
    · exact requireDirect_ok (Except.seq_eq_ok.mp h).1
    · exact requireDirect_ok (Except.seq_eq_ok.mp h).1
  bare := by
    simp only [List.forall_mem_cons, List.not_mem_nil, false_imp_iff, implies_true, and_true]
    refine ⟨?_, ?_, ?_⟩
    all_goals
      intro hclass
      rw [validateClass, (hasClass_iff ha).mp hclass] at h
    · simpa using (Except.seq_eq_ok.mp h).1
    · exact (requireWrapped_ok h).1
    · exact (requireWrapped_ok (Except.seq_eq_ok.mp h).1).1
  wrapped := by
    simp only [List.forall_mem_cons, List.not_mem_nil, false_imp_iff, implies_true, and_true]
    refine ⟨?_, ?_, ?_⟩
    all_goals
      intro hclass
      rw [validateClass, (hasClass_iff ha).mp hclass] at h
    · exact (requireWrapped_ok h).2
    · exact (requireWrapped_ok (Except.seq_eq_ok.mp h).1).2
    · rw [Except.seq_eq_ok, Except.failIf_eq_ok] at h
      exact ciphertext_of_getD h.1
  transport := by
    intro hclass
    rw [validateClass, (hasClass_iff ha).mp hclass] at h
    simpa using (Except.seq_eq_ok.mp h).2
  salted := by
    intro hclass
    rw [validateClass, (hasClass_iff ha).mp hclass] at h
    exact requireSaltOrPartyUNonce_ok (Except.seq_eq_ok.mp h).2
  ephemeral := by
    intro a' hmem ha'
    cases ha.symm.trans ha'
    exact requireEphemeralKey_ok hb (requireSenderKey_of_validateClass (by simpa using hmem) h)
  static := by
    intro a' hmem ha'
    cases ha.symm.trans ha'
    have hkey : r.requireSenderKey c false a = .ok () :=
      requireSenderKey_of_validateClass (by simpa using hmem) h
    exact requireStaticKey_ok hb hkey

/-! ### Lists of recipients -/

theorem validateLayerRules_ok {layer : List Recipient}
    (h : validateLayerRules layer = .ok ()) : StandsAlone layer := by
  intro r hr cls hcls hclass
  rw [validateLayerRules] at h
  by_cases hlen : layer.length ≤ 1
  · rcases layer with _ | ⟨q, _ | _⟩
    · cases hr
    · rw [List.mem_singleton.mp hr]
    · simp at hlen
  · rw [if_neg hlen, Except.forM_eq_ok] at h
    -- two recipients or more: each of them is of a class that shares its list
    have hshareable := h r hr
    rw [requireShareable, hclass, Except.ok_bind] at hshareable
    simp only [List.mem_cons, List.not_mem_nil, or_false] at hcls
    rcases hcls with rfl | rfl | rfl
    · cases hshareable
    · cases hshareable
    · cases hshareable

/-- The checks of `validate_local`, one by one. -/
theorem validateLocal_iff : validateLocal c r = .ok () ↔
    BucketsOk r.protectedHeader r.unprotectedHeader ∧
      (∀ raw, r.protectedRaw = some raw → DenotesHeader c raw r.protectedHeader) ∧
      ∃ a, r.alg = .ok (some a) ∧ r.validateClass c a = .ok () ∧
        validateLayerRules r.recipients = .ok () := by
  have hrest : (do
      let alg ← Except.ofOption (.custom "COSE_recipient is missing alg") (← r.alg)
      r.validateClass c alg
      validateLayerRules r.recipients) = .ok () ↔ ∃ a, r.alg = .ok (some a) ∧
        r.validateClass c a = .ok () ∧ validateLayerRules r.recipients = .ok () := by
    simp only [Except.bind_eq_ok, Except.ofOption_eq_ok]
    constructor
    · rintro ⟨_, ha, a, rfl, _, hclass, hlayer⟩
      exact ⟨a, ha, hclass, hlayer⟩
    · rintro ⟨a, ha, hclass, hlayer⟩
      exact ⟨_, ha, a, rfl, _, hclass, hlayer⟩
  rw [validateLocal, Except.seq_eq_ok, validateHeaderBuckets_ok, ← hrest]
  refine and_congr_right fun _ => ?_
  cases hraw : r.protectedRaw with
  | none => simp
  | some raw =>
    simp only [Except.seq_eq_ok, validateProtectedState_ok, Option.some.injEq, forall_eq']

theorem validateLocal_ok (h : validateLocal c r = .ok ()) :
    RecipientOk c r ∧ StandsAlone r.recipients := by
  obtain ⟨hb, -, a, ha, hclass, hlayer⟩ := validateLocal_iff.mp h
  exact ⟨validateClass_ok hb ha hclass, validateLayerRules_ok hlayer⟩

end Checks
end Recipient
end Cose2

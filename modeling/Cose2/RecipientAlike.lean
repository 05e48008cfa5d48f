import Cose2.KeyRoundTrip
import Cose2.LayerRoundTrip
import Cose2.RecipientRules

/-! # Recipients as they are read

`validate_local` looks into the values of the headers: at a salt, at a nonce, at the keys of
a sender.  What is read of the values passes the same checks: a salt or a nonce is read as it
is, and a key as a key that is good for the same (`validateEcdhPublicKey_asRead`).
-/
namespace Cose2

open Cbor Iana

variable {c : Cbor2}

/-! ### Keys of a sender -/

theorem ecdhCurve_asRead {key : Key} {label curve : Label} (h : ecdhCurve key label = .ok curve) :
    ecdhCurve key.asRead label = .ok curve := by
  rw [ecdhCurve, Except.bind_eq_ok] at h ⊢
  obtain ⟨o, ho, h⟩ := h
  exact ⟨o, CoseMap.getLabel_asRead ho, h⟩

theorem validateEc2Y_asRead {key : Key} {expectedLength : Nat}
    (h : validateEc2Y key expectedLength = .ok ()) :
    validateEc2Y key.asRead expectedLength = .ok () := by
  unfold validateEc2Y at h ⊢
  rw [CoseMap.get_asRead]
  cases hget : key.get ec2KeyParameterY with
  | none =>
    rw [hget] at h
    cases h
  | some v =>
    rw [hget] at h
    cases v with
    | bytes | bool => exact h
    | integer | text | float | null | simple | tag | array | map => cases h

theorem validateEcdhUse_asRead {key : Key} {a : Label} (h : validateEcdhUse key a = .ok ()) :
    validateEcdhUse key.asRead a = .ok () := by
  rw [validateEcdhUse, Except.bind_eq_ok] at h ⊢
  obtain ⟨alg, halg, h⟩ := h
  refine ⟨alg, CoseMap.getLabel_asRead halg, ?_⟩
  cases alg with
  | none =>
    obtain ⟨ops, hops, h⟩ := Except.bind_eq_ok.mp h
    exact Except.bind_eq_ok.mpr ⟨ops, Key.ops_asRead hops, h⟩
  | some alg =>
    obtain ⟨u, hsame, h⟩ := Except.bind_eq_ok.mp h
    obtain ⟨ops, hops, h⟩ := Except.bind_eq_ok.mp h
    exact Except.bind_eq_ok.mpr
      ⟨u, hsame, Except.bind_eq_ok.mpr ⟨ops, Key.ops_asRead hops, h⟩⟩

/-- A key that is good for the algorithm is good for it as it is read. -/
theorem validateEcdhPublicKey_asRead {key : Key} {a : Label}
    (h : validateEcdhPublicKey key a = .ok ()) : validateEcdhPublicKey key.asRead a = .ok () := by
  rw [validateEcdhPublicKey, Except.seq_eq_ok, Except.bind_eq_ok] at h ⊢
  obtain ⟨huse, o, hkty, h⟩ := h
  refine ⟨validateEcdhUse_asRead huse, o, CoseMap.getLabel_asRead hkty, ?_⟩
  cases o with
  | none => cases h
  | some keyType =>
    simp only [Except.bind_eq_ok] at h ⊢
    obtain ⟨kty, hpure, labels, hlabels, curve, hcurve, u, hprivate, length, hlength, o, hx, x,
      hsome, u', hsize, h⟩ := h
    refine ⟨kty, hpure, labels, hlabels, curve, ecdhCurve_asRead hcurve, u, ?_, length, hlength, o,
      CoseMap.getBytes_asRead hx, x, hsome, u', hsize, ?_⟩
    · rw [CoseMap.containsKey_asRead]
      exact hprivate
    · split_ifs at h ⊢
      · exact validateEc2Y_asRead h
      · exact h

namespace Recipient

/-- The recipient `r'` has the headers of `r` as they are read, and the checks that look only
at one bucket, or at the nested recipients, cannot tell them apart. -/
structure Alike (c : Cbor2) (r r' : Recipient) : Prop where
  protectedRead : HeaderRead r.protectedHeader r'.protectedHeader
  unprotectedRead : HeaderRead r.unprotectedHeader r'.unprotectedHeader
  ciphertext : r'.ciphertext = r.ciphertext
  nested : r'.recipients.isEmpty = r.recipients.isEmpty
  protectedValid : r'.protectedHeader.validateCommon = .ok ()
  unprotectedValid : r'.unprotectedHeader.validateCommon = .ok ()
  encodable : Encodable c r'.protectedHeader
  unprotectedEncodable : Encodable c r'.unprotectedHeader
  /-- The values of the headers that are read fit in memory. -/
  writable : ∀ label v, r.headerValue label = some v → v.norm.Writable

section Same

variable {r r' : Recipient} {label : Label}

theorem Alike.alg (h : Alike c r r') {o : Option Label} (halg : r.alg = .ok o) :
    r'.alg = .ok o :=
  effectiveAlg_same h.protectedRead h.unprotectedRead halg h.protectedValid h.unprotectedValid

theorem Alike.algorithmClass (h : Alike c r r') {o : Option Label} (halg : r.alg = .ok o) :
    r'.algorithmClass = r.algorithmClass := by
  rw [Recipient.algorithmClass, Recipient.algorithmClass, h.alg halg, halg]

theorem Alike.headerValue (h : Alike c r r') (label : Label) :
    (r'.headerValue label).map Value.settle = (r.headerValue label).map Value.settle := by
  have hp := h.protectedRead.settled label
  have hu := h.unprotectedRead.settled label
  rw [Recipient.headerValue, Recipient.headerValue, Option.map_or, Option.map_or, hp, hu]

theorem Alike.headerValue_none (h : Alike c r r') (label : Label) :
    r'.headerValue label = none ↔ r.headerValue label = none := by
  rw [← Option.map_eq_none_iff (f := Value.settle), h.headerValue, Option.map_eq_none_iff]

theorem Alike.reduced (h : Alike c r r') {v : Value} (hsome : r'.headerValue label = some v) :
    v.Reduced := by
  rcases carries_of_headerValue hsome with hp | hu
  · exact h.protectedRead.reduced _ (BTreeMap.get_eq_some.mp hp)
  · exact h.unprotectedRead.reduced _ (BTreeMap.get_eq_some.mp hu)

theorem Alike.headerValue_some (h : Alike c r r') {v : Value}
    (hsome : r.headerValue label = some v) :
    ∃ v', r'.headerValue label = some v' ∧ v'.norm = v.settle := by
  have hvalue := h.headerValue label
  rw [hsome, Option.map_some, Option.map_eq_some_iff] at hvalue
  obtain ⟨v', hv', hsettle⟩ := hvalue
  exact ⟨v', hv', (h.reduced hv').defined.settle.symm.trans hsettle⟩

theorem Alike.headerValue_of_some (h : Alike c r r') {v' : Value}
    (hsome : r'.headerValue label = some v') :
    ∃ v, r.headerValue label = some v ∧ v'.norm = v.settle := by
  have hvalue := h.headerValue label
  rw [hsome, Option.map_some, eq_comm, Option.map_eq_some_iff] at hvalue
  obtain ⟨v, hv, hsettle⟩ := hvalue
  exact ⟨v, hv, (h.reduced hsome).defined.settle.symm.trans hsettle.symm⟩

theorem Alike.headerValue_bytes (h : Alike c r r') {b : Bytes}
    (hsome : r.headerValue label = some (.bytes b)) :
    r'.headerValue label = some (.bytes b) := by
  obtain ⟨v', hv', hnorm⟩ := h.headerValue_some hsome
  rw [hv', Value.eq_bytes_of_norm hnorm]

/-- A number is read as one, even where it is spelled as a bignum. -/
theorem Alike.headerValue_integer (h : Alike c r r') {i : Integer}
    (hsome : r.headerValue label = some (.integer i)) :
    r'.headerValue label = some (.integer i) := by
  obtain ⟨v', hv', hnorm⟩ := h.headerValue_some hsome
  rw [hv', (h.reduced hv').integer i hnorm]

theorem Alike.encodes (h : Alike c r r') {v : Value} (hsome : r'.headerValue label = some v) :
    ∃ b, c.toCanonicalVec v = .ok b := by
  rcases carries_of_headerValue hsome with hp | hu
  · exact h.encodable _ (BTreeMap.get_eq_some.mp hp)
  · exact h.unprotectedEncodable _ (BTreeMap.get_eq_some.mp hu)

/-! ### The checks of a sender -/

theorem Alike.requireSaltOrPartyUNonce (h : Alike c r r') {name : String}
    (hok : r.requireSaltOrPartyUNonce name = .ok ()) :
    r'.requireSaltOrPartyUNonce name = .ok () := by
  have hsalt : r'.headerValue headerAlgorithmParameterSalt =
      r.headerValue headerAlgorithmParameterSalt := by
    cases hs : r.headerValue headerAlgorithmParameterSalt with
    | none => exact (h.headerValue_none _).mpr hs
    | some v =>
      cases v with
      | bytes b => exact h.headerValue_bytes hs
      | integer | text | float | bool | null | simple | tag | array | map =>
        rw [Recipient.requireSaltOrPartyUNonce, hs] at hok
        cases hok
  have hnonce : r'.headerValue headerAlgorithmParameterPartyUNonce =
      r.headerValue headerAlgorithmParameterPartyUNonce := by
    cases hn : r.headerValue headerAlgorithmParameterPartyUNonce with
    | none => exact (h.headerValue_none _).mpr hn
    | some v =>
      cases v with
      | bytes b => exact h.headerValue_bytes hn
      | integer i => exact h.headerValue_integer hn
      | text | float | bool | null | simple | tag | array | map =>
        rw [Recipient.requireSaltOrPartyUNonce, hn] at hok
        dsimp only at hok
        split at hok <;> cases hok
  rw [Recipient.requireSaltOrPartyUNonce, hsalt, hnonce]
  exact hok

section Keys

variable (hread : c.ReadsItems) (hw : c.WritesValues) (hc : c.ReadsValues) (hd : c.Describes)
  (hr : c.ReadsBack) (hrecursion : defaultMaxDepth < c.recursionLimit)
include hread hw hc hd hr hrecursion

/-- The key of a sender is read as a key that is good for the same algorithm. -/
theorem Alike.senderKey (h : Alike c r r') {a : Label} {v v' : Value} {key : Key}
    (hv : r.headerValue label = some v) (hv' : r'.headerValue label = some v')
    (hnorm : v'.norm = v.settle) (htry : Key.tryFrom c v = .ok key)
    (hvalid : validateEcdhPublicKey key a = .ok ()) :
    ∃ key', Key.tryFrom c v' = .ok key' ∧ validateEcdhPublicKey key' a = .ok () :=
  ⟨_, Key.tryFrom_settle hread hw hc hd hr hrecursion (h.writable _ _ hv) hnorm
    (h.reduced hv').defined (h.encodes hv') htry, validateEcdhPublicKey_asRead hvalid⟩

theorem Alike.requireStaticKey (h : Alike c r r') {a : Label}
    (hok : r.requireStaticKey c a = .ok ()) : r'.requireStaticKey c a = .ok () := by
  rw [requireStaticKey_iff] at hok ⊢
  obtain ⟨hpresent, hkey, hid, hsalt⟩ := hok
  refine ⟨?_, ?_, ?_, h.requireSaltOrPartyUNonce hsalt⟩
  · rwa [ne_eq, ne_eq, h.headerValue_none, h.headerValue_none]
  · intro v' hv'
    obtain ⟨v, hv, hnorm⟩ := h.headerValue_of_some hv'
    obtain ⟨key, htry, hvalid⟩ := hkey v hv
    exact h.senderKey hread hw hc hd hr hrecursion hv hv' hnorm htry hvalid
  · intro v' hv'
    obtain ⟨v, hv, hnorm⟩ := h.headerValue_of_some hv'
    obtain ⟨b, rfl⟩ := hid v hv
    exact ⟨b, Value.eq_bytes_of_norm hnorm⟩

theorem Alike.requireSenderKey (h : Alike c r r') {ephemeral : Bool}
    {a : Label} (hok : r.requireSenderKey c ephemeral a = .ok ()) :
    r'.requireSenderKey c ephemeral a = .ok () := by
  cases ephemeral with
  | false => exact h.requireStaticKey hread hw hc hd hr hrecursion hok
  | true =>
    simp only [Recipient.requireSenderKey, if_true, Except.bind_eq_ok,
      Except.ofOption_eq_ok] at hok ⊢
    obtain ⟨v, hv, key, htry, hvalid⟩ := hok
    obtain ⟨v', hv', hnorm⟩ := h.headerValue_some hv
    exact ⟨v', hv', h.senderKey hread hw hc hd hr hrecursion hv hv' hnorm htry hvalid⟩

end Keys

/-! ### The checks of a class -/

theorem Alike.bare (h : Alike c r r') (hempty : r.protectedHeader.entries = []) :
    r'.protectedHeader.entries = [] :=
  h.protectedRead.entries_nil hempty

theorem Alike.requireDirect (h : Alike c r r') {name : String}
    (hok : r.requireDirect name = .ok ()) : r'.requireDirect name = .ok () := by
  rw [Recipient.requireDirect, h.ciphertext, h.nested]
  exact hok

theorem Alike.requireWrapped (h : Alike c r r') {name : String}
    (hok : r.requireWrapped name = .ok ()) : r'.requireWrapped name = .ok () := by
  rw [Recipient.requireWrapped, Except.seq_eq_ok, Except.failIf_eq_ok, not_not,
    Except.bind_eq_ok] at hok ⊢
  obtain ⟨hempty, o, halg, hok⟩ := hok
  rw [h.ciphertext]
  exact ⟨h.bare hempty, o, h.unprotectedRead.alg halg h.unprotectedValid, hok⟩

section Classes

variable (hread : c.ReadsItems) (hw : c.WritesValues) (hc : c.ReadsValues) (hd : c.Describes)
  (hr : c.ReadsBack) (hrecursion : defaultMaxDepth < c.recursionLimit)
include hread hw hc hd hr hrecursion

theorem Alike.validateClass (h : Alike c r r') {a : Label}
    (hok : r.validateClass c a = .ok ()) : r'.validateClass c a = .ok () := by
  unfold Recipient.validateClass at hok ⊢
  cases hclass : classifyRecipientAlgorithm a with
  | none => rfl
  | some cls =>
    rw [hclass] at hok
    cases cls with
    | direct =>
      rw [Except.seq_eq_ok, Except.failIf_eq_ok, not_not] at hok ⊢
      exact ⟨h.bare hok.1, h.requireDirect hok.2⟩
    | directKeyDerivation =>
      rw [Except.seq_eq_ok] at hok ⊢
      exact ⟨h.requireDirect hok.1, h.requireSaltOrPartyUNonce hok.2⟩
    | keyWrap => exact h.requireWrapped hok
    | keyTransport =>
      rw [Except.seq_eq_ok] at hok ⊢
      rw [h.nested]
      exact ⟨h.requireWrapped hok.1, hok.2⟩
    | directKeyAgreement =>
      rw [Except.seq_eq_ok] at hok ⊢
      exact ⟨h.requireDirect hok.1, h.requireSenderKey hread hw hc hd hr hrecursion hok.2⟩
    | keyAgreementWithKeyWrap =>
      rw [Except.seq_eq_ok] at hok ⊢
      rw [h.ciphertext]
      exact ⟨hok.1, h.requireSenderKey hread hw hc hd hr hrecursion hok.2⟩

end Classes

end Same

/-! ### Layers -/

theorem validateLayerRules_same {rs rs' : List Recipient}
    (h : List.Forall₂ (fun r r' => r'.algorithmClass = r.algorithmClass) rs rs') :
    validateLayerRules rs' = validateLayerRules rs := by
  have hforM : forM rs' requireShareable = forM rs requireShareable := by
    induction h with
    | nil => rfl
    | cons hclass _ ih =>
      rw [List.forM_cons, List.forM_cons, ih, requireShareable, requireShareable, hclass]
  rw [validateLayerRules, validateLayerRules, h.length_eq]
  exact if_congr Iff.rfl rfl hforM

/-- **What is read from a valid recipient is valid**, when its nested recipients are of the
same classes and its protected bytes denote its protected header. -/
theorem Alike.validateLocal (hread : c.ReadsItems) (hw : c.WritesValues) (hc : c.ReadsValues)
    (hd : c.Describes) (hr : c.ReadsBack) (hrecursion : defaultMaxDepth < c.recursionLimit)
    {r r' : Recipient} (h : Alike c r r')
    (hbuckets : BucketsOk r'.protectedHeader r'.unprotectedHeader)
    (hdenotes : ∀ raw, r'.protectedRaw = some raw → DenotesHeader c raw r'.protectedHeader)
    (hnested : List.Forall₂ (fun q q' => q'.algorithmClass = q.algorithmClass)
      r.recipients r'.recipients)
    (hok : Recipient.validateLocal c r = .ok ()) : Recipient.validateLocal c r' = .ok () := by
  obtain ⟨-, -, a, ha, hclass, hlayer⟩ := validateLocal_iff.mp hok
  refine validateLocal_iff.mpr ⟨hbuckets, hdenotes, a, h.alg ha,
    h.validateClass hread hw hc hd hr hrecursion hclass, ?_⟩
  rw [validateLayerRules_same hnested]
  exact hlayer

end Recipient
end Cose2

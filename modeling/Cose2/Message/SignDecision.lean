import Cose2.Message.Verification

/-! # When a message with several signatures is accepted

`SignMessage::verify_payload` tries the verifiers on each slot in two rounds, skips
those that cannot apply and remembers the last error.  The decision depends on none
of this: a slot is accepted when some verifier accepts it (`Accepts`), the message when
all slots are (`Decides`).  So the order of the verifiers does not matter, and one
more never hurts.
-/
namespace Cose2

open Cbor Iana

variable {c : Cbor2}

/-! ### Critical headers -/

/-- What `ensure_crit_understood` asks of a critical label: a critical countersignature is
understood by reading it. -/
def LabelUnderstood (c : Cbor2) (p : Header) (understood : List Label) (label : Label) : Prop :=
  if label = headerParameterCounterSignature then
    ∃ signatures, p.counterSignatures c = .ok signatures
  else isUnderstoodHeader label = true ∨ label ∈ understood

/-- Every critical label of a header is understood. -/
def CritUnderstood (c : Cbor2) (p : Header) (understood : List Label) : Prop :=
  ∃ crit, p.crit = .ok crit ∧ ∀ labels, crit = some labels →
    ∀ label ∈ labels, LabelUnderstood c p understood label

theorem ensureLabelUnderstood_ok {p : Header} {understood : List Label} {label : Label} :
    p.ensureLabelUnderstood c understood label = .ok () ↔ LabelUnderstood c p understood label := by
  rw [Header.ensureLabelUnderstood, LabelUnderstood]
  by_cases hcounter : label = headerParameterCounterSignature
  · rw [if_pos hcounter, if_pos hcounter, Except.bind_eq_ok]
    exact exists_congr fun signatures => and_iff_left rfl
  · rw [if_neg hcounter, if_neg hcounter, Except.failIf_eq_ok, not_not]

/-- Beside the labels, only the rules for any header are checked. -/
theorem ensureCritUnderstood_iff {p : Header} {understood : List Label} :
    p.ensureCritUnderstood c understood = .ok () ↔
      p.validateCommon = .ok () ∧ CritUnderstood c p understood := by
  rw [Header.ensureCritUnderstood, Except.seq_eq_ok, Except.bind_eq_ok, CritUnderstood]
  refine and_congr_right fun _ => exists_congr fun crit => and_congr_right fun _ => ?_
  cases crit with
  | none => simp [pure, Except.pure]
  | some labels =>
    simp only [Except.forM_eq_ok, ensureLabelUnderstood_ok, Option.some.injEq, forall_eq']

/-! ### Key ids -/

/-- A verifier is a candidate: its key id is that of the slot, or one of them has none. -/
def KidMatches (messageKid verifierKid : Option Bytes) : Prop :=
  messageKid = none ∨ verifierKid = none ∨ messageKid = verifierKid

theorem kidMatchRank_some {messageKid verifierKid : Option Bytes} :
    (kidMatchRank messageKid verifierKid = some 0 ∨ kidMatchRank messageKid verifierKid = some 1) ↔
      KidMatches messageKid verifierKid := by
  rw [KidMatches]
  cases messageKid with
  | none => simp [kidMatchRank]
  | some kid =>
    cases verifierKid with
    | none => simp [kidMatchRank]
    | some kid' =>
      by_cases h : kid = kid'
      · simp [kidMatchRank, h]
      · simp [kidMatchRank, h]

namespace SignMessage

variable {m : SignMessage} {verifiers verifiers' : List Verifier} {payload : Bytes}
  {externalAad : Option Bytes} {s : Signature}

/-- The two rounds go through all candidates. -/
theorem mem_candidates {kid : Option Bytes} {verifier : Verifier} :
    verifier ∈ candidates kid verifiers ↔
      verifier ∈ verifiers ∧ KidMatches kid verifier.kid := by
  rw [candidates, List.mem_flatMap, ← kidMatchRank_some]
  simp only [List.mem_cons, List.not_mem_nil, or_false, exists_eq_or_imp, exists_eq_left,
    List.mem_filter, decide_eq_true_eq]
  exact and_or_left.symm

/-! ### The decision -/

section Decision

-- `Understands` says when the critical labels of a header are understood
variable (c : Cbor2) (Understands : Header → List Label → Prop) (m : SignMessage)
  (payload : Bytes) (externalAad : Option Bytes)

/-- A verifier accepts a slot. -/
structure Accepts (s : Signature) (verifier : Verifier) : Prop where
  kid : ∃ kid, s.kid = .ok kid ∧ KidMatches kid verifier.kid
  body : Understands m.protectedHeader verifier.understoodCriticalHeaders
  slot : Understands s.protectedHeader verifier.understoodCriticalHeaders
  alg : AlgMatches s.protectedHeader s.unprotectedHeader verifier.alg
  accepted : ∃ structured,
    toBeSigned c m.protectedRaw s.protectedRaw (externalAad.getD []) payload = .ok structured ∧
    verifier.verify structured s.signature = .ok ()

/-- The verifiers accept a message. -/
structure Decides (verifiers : List Verifier) : Prop where
  complete : m.state = .complete
  verifier : verifiers ≠ []
  signed : m.signatures ≠ []
  layer : LayerOk c m.protectedHeader m.unprotectedHeader m.protectedRaw
  slotLayers : ∀ s ∈ m.signatures,
    LayerOk c s.protectedHeader s.unprotectedHeader s.protectedRaw
  slots : ∀ s ∈ m.signatures, ∃ verifier ∈ verifiers,
    Accepts c Understands m payload externalAad s verifier

end Decision

/-- Only the verifiers that are there count, and one more changes nothing that was decided. -/
theorem Decides.mono {Understands : Header → List Label → Prop}
    (h : Decides c Understands m payload externalAad verifiers) (hsub : verifiers ⊆ verifiers') :
    Decides c Understands m payload externalAad verifiers' where
  complete := h.complete
  verifier := by
    intro hnil
    rw [hnil, List.subset_nil] at hsub
    exact h.verifier hsub
  signed := h.signed
  layer := h.layer
  slotLayers := h.slotLayers
  slots s hs := by
    obtain ⟨verifier, hmem, haccepts⟩ := h.slots s hs
    exact ⟨verifier, hsub hmem, haccepts⟩

theorem tryVerifier_iff {structured : Bytes} {verifier : Verifier}
    (hm : m.protectedHeader.validateCommon = .ok ())
    (hs : s.protectedHeader.validateCommon = .ok ()) :
    m.tryVerifier c s structured verifier = .ok () ↔
      CritUnderstood c m.protectedHeader verifier.understoodCriticalHeaders ∧
        CritUnderstood c s.protectedHeader verifier.understoodCriticalHeaders ∧
        AlgMatches s.protectedHeader s.unprotectedHeader verifier.alg ∧
        verifier.verify structured s.signature = .ok () := by
  rw [tryVerifier, Except.seq_eq_ok, Except.seq_eq_ok, Except.seq_eq_ok, ensureCritUnderstood_iff,
    ensureCritUnderstood_iff, checkProtectedAlg_ok, and_iff_right hm, and_iff_right hs]

/-- Trying the candidates succeeds when one of them does, whatever failed before it. -/
theorem tryVerifiers_iff {structured : Bytes} {e : Error} :
    m.tryVerifiers c s structured verifiers (.error e) = .ok () ↔
      ∃ verifier ∈ verifiers, m.tryVerifier c s structured verifier = .ok () := by
  refine ⟨tryVerifiers_ok, ?_⟩
  induction verifiers generalizing e with
  | nil => simp
  | cons verifier verifiers ih =>
    rintro ⟨v, hv, hok⟩
    rw [tryVerifiers]
    cases hone : m.tryVerifier c s structured verifier with
    | ok _ => rfl
    | error e' =>
      rcases List.mem_cons.mp hv with rfl | hv
      · rw [hok] at hone
        cases hone
      · exact ih ⟨v, hv, hok⟩

theorem verifySlot_iff (hm : m.protectedHeader.validateCommon = .ok ()) :
    m.verifySlot c verifiers payload (externalAad.getD []) s = .ok () ↔
      LayerOk c s.protectedHeader s.unprotectedHeader s.protectedRaw ∧
        ∃ verifier ∈ verifiers, Accepts c (CritUnderstood c) m payload externalAad s verifier := by
  rw [verifySlot, Except.seq_eq_ok, validateLayer_ok]
  refine and_congr_right fun hlayer => ?_
  have hs := hlayer.buckets.protectedOk
  simp only [Except.bind_eq_ok, tryVerifiers_iff, mem_candidates, tryVerifier_iff hm hs]
  constructor
  · rintro ⟨kid, hkid, structured, hstructured, verifier, ⟨hmem, hmatch⟩, hbody, hslot, halg,
      hverify⟩
    exact ⟨verifier, hmem, ⟨kid, hkid, hmatch⟩, hbody, hslot, halg, structured, hstructured,
      hverify⟩
  · rintro ⟨verifier, hmem, ⟨kid, hkid, hmatch⟩, hbody, hslot, halg, structured, hstructured,
      hverify⟩
    exact ⟨kid, hkid, structured, hstructured, verifier, ⟨hmem, hmatch⟩, hbody, hslot, halg,
      hverify⟩

theorem verifyPayload_iff :
    m.verifyPayload c verifiers payload (externalAad.getD []) = .ok () ↔
      Decides c (CritUnderstood c) m payload externalAad verifiers := by
  rw [verifyPayload, Except.seq_eq_ok, Except.seq_eq_ok, Except.seq_eq_ok, Except.seq_eq_ok,
    requireComplete_ok, Except.failIf_eq_ok, Except.failIf_eq_ok, validateLayer_ok,
    Except.forM_eq_ok, List.isEmpty_iff, List.isEmpty_iff]
  constructor
  · rintro ⟨hstate, hverifier, hsigned, hlayer, hslots⟩
    have hslot (s : Signature) (hs : s ∈ m.signatures) :=
      (verifySlot_iff hlayer.buckets.protectedOk).mp (hslots s hs)
    exact ⟨hstate, hverifier, hsigned, hlayer, fun s hs => (hslot s hs).1,
      fun s hs => (hslot s hs).2⟩
  · intro h
    refine ⟨h.complete, h.verifier, h.signed, h.layer, fun s hs => ?_⟩
    exact (verifySlot_iff h.layer.buckets.protectedOk).mpr ⟨h.slotLayers s hs, h.slots s hs⟩

theorem verify_iff :
    m.verify c verifiers externalAad = .ok () ↔
      ∃ payload, m.payload = some payload ∧
        Decides c (CritUnderstood c) m payload externalAad verifiers := by
  rw [verify, Except.bind_eq_ok]
  refine exists_congr fun payload => and_congr ?_ verifyPayload_iff
  exact Except.ofOption_eq_ok

theorem verifyDetached_iff :
    m.verifyDetached c verifiers payload externalAad = .ok () ↔
      m.payload = none ∧ Decides c (CritUnderstood c) m payload externalAad verifiers := by
  rw [verifyDetached, Except.seq_eq_ok, Except.failIf_eq_ok, verifyPayload_iff]
  refine and_congr_left fun _ => ?_
  rw [Bool.not_eq_true, Option.isSome_eq_false_iff, Option.isNone_iff_eq_none]

/-! ### Both forms -/

/-- When `verify` and `verify_detached` accept, and what the list of verifiers has to do
with it. -/
structure VerificationDecision (c : Cbor2) (Understands : Header → List Label → Prop) : Prop where
  embedded : ∀ (m : SignMessage) verifiers externalAad,
    m.verify c verifiers externalAad = .ok () ↔
      ∃ payload, m.payload = some payload ∧ Decides c Understands m payload externalAad verifiers
  detached : ∀ (m : SignMessage) verifiers payload externalAad,
    m.verifyDetached c verifiers payload externalAad = .ok () ↔
      m.payload = none ∧ Decides c Understands m payload externalAad verifiers
  embeddedMono : ∀ (m : SignMessage) verifiers verifiers' externalAad, verifiers ⊆ verifiers' →
    m.verify c verifiers externalAad = .ok () → m.verify c verifiers' externalAad = .ok ()
  detachedMono : ∀ (m : SignMessage) verifiers verifiers' payload externalAad,
    verifiers ⊆ verifiers' → m.verifyDetached c verifiers payload externalAad = .ok () →
      m.verifyDetached c verifiers' payload externalAad = .ok ()
  /-- In another order, or with repetitions, they decide the same. -/
  embeddedSame : ∀ (m : SignMessage) verifiers verifiers' externalAad,
    (∀ v, v ∈ verifiers ↔ v ∈ verifiers') →
      (m.verify c verifiers externalAad = .ok () ↔ m.verify c verifiers' externalAad = .ok ())
  detachedSame : ∀ (m : SignMessage) verifiers verifiers' payload externalAad,
    (∀ v, v ∈ verifiers ↔ v ∈ verifiers') →
      (m.verifyDetached c verifiers payload externalAad = .ok () ↔
        m.verifyDetached c verifiers' payload externalAad = .ok ())

theorem verify_mono (hsub : verifiers ⊆ verifiers')
    (h : m.verify c verifiers externalAad = .ok ()) :
    m.verify c verifiers' externalAad = .ok () := by
  obtain ⟨payload, hpayload, hdecides⟩ := verify_iff.mp h
  exact verify_iff.mpr ⟨payload, hpayload, hdecides.mono hsub⟩

theorem verifyDetached_mono (hsub : verifiers ⊆ verifiers')
    (h : m.verifyDetached c verifiers payload externalAad = .ok ()) :
    m.verifyDetached c verifiers' payload externalAad = .ok () := by
  obtain ⟨hpayload, hdecides⟩ := verifyDetached_iff.mp h
  exact verifyDetached_iff.mpr ⟨hpayload, hdecides.mono hsub⟩

/-- **A message is accepted exactly when it is complete, its layers are valid and every
slot has a verifier that accepts it.** -/
theorem verificationDecision (c : Cbor2) : VerificationDecision c (CritUnderstood c) where
  embedded _ _ _ := verify_iff
  detached _ _ _ _ := verifyDetached_iff
  embeddedMono _ _ _ _ hsub h := verify_mono hsub h
  detachedMono _ _ _ _ _ hsub h := verifyDetached_mono hsub h
  embeddedSame _ _ _ _ hsame :=
    ⟨verify_mono fun v hv => (hsame v).mp hv, verify_mono fun v hv => (hsame v).mpr hv⟩
  detachedSame _ _ _ _ _ hsame :=
    ⟨verifyDetached_mono fun v hv => (hsame v).mp hv,
      verifyDetached_mono fun v hv => (hsame v).mpr hv⟩

/-- A complete message whose protected header has a critical countersignature that is none. -/
def criticalNull : SignMessage :=
  ((setSignatures Cbor2.reference [[7]]).run { new (some [1]) with
    protectedHeader := BTreeMap.ofList
      [(headerParameterCrit, .array [headerParameterCounterSignature.toValue]),
        (headerParameterCounterSignature, .null)]
    signatures := [.new] }).2

/-- A verifier that accepts everything. -/
def agreeable : Verifier := { verify := fun _ _ => .ok () }

/-- Its critical label is known, but it is not accepted. -/
theorem not_verificationDecision : ¬ VerificationDecision Cbor2.reference Understood := by
  intro h
  have hlayer : LayerOk Cbor2.reference criticalNull.protectedHeader
      criticalNull.unprotectedHeader criticalNull.protectedRaw := validateLayer_ok.mp rfl
  have hslots (s : Signature) (hs : s ∈ criticalNull.signatures) :
      s = { signature := [7], state := .complete } := List.mem_singleton.mp hs
  have hslotLayer : LayerOk Cbor2.reference ∅ ∅ [] := validateLayer_ok.mp rfl
  have hbody : Understood criticalNull.protectedHeader [] := by
    refine ⟨some [headerParameterCounterSignature], rfl, ?_⟩
    intro labels heq label hlabel
    cases heq
    rw [List.mem_singleton.mp hlabel]
    exact .inl rfl
  have hslot : Understood ∅ [] := ⟨none, rfl, by rintro _ ⟨⟩⟩
  have hdecides : Decides Cbor2.reference Understood criticalNull [1] none [agreeable] := by
    refine ⟨rfl, by simp, by rintro ⟨⟩, hlayer, fun s hs => ?_, fun s hs => ?_⟩
    · rw [hslots s hs]
      exact hslotLayer
    · rw [hslots s hs]
      exact ⟨agreeable, List.mem_singleton.mpr rfl, ⟨none, rfl, .inl rfl⟩, hbody, hslot,
        by rintro _ ⟨⟩, _, rfl, rfl⟩
  have haccepts := (h.embedded criticalNull [agreeable] none).mpr ⟨[1], rfl, hdecides⟩
  have hfails : (criticalNull.verify Cbor2.reference [agreeable] none).isOk = false := rfl
  rw [haccepts] at hfails
  cases hfails

end SignMessage
end Cose2

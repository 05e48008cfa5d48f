import Cose2.CounterSign

/-! # What the checks of a layer establish

A security layer is a protected header, an unprotected header, and the protected
bytes that are authenticated.  `LayerOk` is what `validate_layer` checks of them;
`Understood` and `AlgMatches` are the two checks of a provider against them.
-/
namespace Cose2

open Cbor Iana

variable {c : Cbor2} {p u : Header} {raw : Bytes}

/-- The rules for the two header buckets of a layer. -/
structure BucketsOk (p u : Header) : Prop where
  protectedOk : p.validateCommon = .ok ()
  unprotectedOk : u.validateCommon = .ok ()
  disjoint : ∀ label, ¬ (p.containsKey label = true ∧ u.containsKey label = true)
  noCrit : u.containsKey headerParameterCrit = false
  oneIv : ¬ ((p.containsKey headerParameterIV = true ∨ u.containsKey headerParameterIV = true) ∧
    (p.containsKey headerParameterPartialIV = true ∨
      u.containsKey headerParameterPartialIV = true))

/-- The protected bytes denote a header: they are its encoding, or they decode to a
header with the same encoding. -/
def DenotesHeader (c : Cbor2) (raw : Bytes) (p : Header) : Prop :=
  ∃ current, encodeProtected c p = .ok current ∧
    (raw = current ∨ ∃ decoded, decodeProtected c raw = .ok decoded ∧
      encodeProtected c decoded = .ok current)

/-- What `validate_layer` checks. -/
structure LayerOk (c : Cbor2) (p u : Header) (raw : Bytes) : Prop where
  buckets : BucketsOk p u
  denotes : DenotesHeader c raw p

/-- Every critical label is known to the crate or to the provider. -/
def Understood (p : Header) (understood : List Label) : Prop :=
  ∃ crit, p.crit = .ok crit ∧ ∀ labels, crit = some labels →
    ∀ label ∈ labels, isUnderstoodHeader label = true ∨ label ∈ understood

/-- The algorithm in effect, if there is one, is the provider's, if it has one. -/
def AlgMatches (p u : Header) (alg : Option Label) : Prop :=
  ∀ expected, alg = some expected →
    ∃ effective, effectiveAlg p u = .ok effective ∧ ∀ a, effective = some a → a = expected

/-! ### Buckets -/

theorem validateHeaderBuckets_ok : validateHeaderBuckets p u = .ok () ↔ BucketsOk p u := by
  have hdisjoint : (∀ e ∈ p.entries, u.containsKey e.1 = false) ↔
      ∀ label, ¬ (p.containsKey label = true ∧ u.containsKey label = true) := by
    constructor
    · rintro h label ⟨hp, hu⟩
      obtain ⟨v, hv⟩ := BTreeMap.containsKey_iff.mp hp
      rw [show u.containsKey label = false from h _ hv] at hu
      cases hu
    · intro h e he
      rw [Bool.eq_false_iff]
      exact fun hu => h e.1 ⟨BTreeMap.containsKey_of_mem he, hu⟩
  rw [validateHeaderBuckets]
  simp only [Except.seq_eq_ok, Except.failIf_eq_ok, Except.forM_eq_ok,
    Bool.and_eq_true, Bool.or_eq_true, Bool.not_eq_true, hdisjoint]
  constructor
  · rintro ⟨hp, hcrit, hu, hd, hiv⟩
    exact ⟨hp, hu, hd, hcrit, hiv⟩
  · rintro ⟨hp, hu, hd, hcrit, hiv⟩
    exact ⟨hp, hcrit, hu, hd, hiv⟩

/-! ### Protected bytes -/

theorem validateProtectedState_ok :
    validateProtectedState c p raw = .ok () ↔ DenotesHeader c raw p := by
  rw [validateProtectedState, Except.bind_eq_ok, DenotesHeader]
  refine exists_congr fun current => and_congr_right fun _ => ?_
  by_cases h : current = raw
  · simp [h, pure, Except.pure]
  · rw [if_neg h, or_iff_right (Ne.symm h), Except.bind_eq_ok]
    refine exists_congr fun decoded => and_congr_right fun _ => ?_
    rw [Except.bind_eq_ok]
    simp

theorem validateLayer_ok : validateLayer c p u raw = .ok () ↔ LayerOk c p u raw := by
  rw [validateLayer, Except.seq_eq_ok, validateHeaderBuckets_ok, validateProtectedState_ok]
  constructor
  · rintro ⟨hb, hd⟩
    exact ⟨hb, hd⟩
  · rintro ⟨hb, hd⟩
    exact ⟨hb, hd⟩

theorem toVec_ne_nil {h : Header} : h.toVec c ≠ .ok [] := by
  intro hvec
  rw [Header.toVec, Except.seq_eq_ok, CoseMap.toVec, Except.bind_eq_ok] at hvec
  obtain ⟨-, entries, -, hnil⟩ := hvec
  have hhead : CoseMap.writeHead 5 h.length = [] :=
    (List.append_eq_nil_iff.mp (Except.pure_eq_ok.mp hnil)).1
  unfold CoseMap.writeHead at hhead
  split_ifs at hhead

/-- Only the empty header is encoded as the empty byte string. -/
theorem encodeProtected_nil {h : Header} : encodeProtected c h = .ok [] ↔ h.entries = [] := by
  rw [encodeProtected]
  by_cases hempty : h.entries = []
  · simp [hempty]
  · simp [hempty, toVec_ne_nil]

/-- The empty byte string denotes the empty header and no other. -/
theorem denotesHeader_nil {h : Header} : DenotesHeader c [] h ↔ h.entries = [] := by
  constructor
  · rintro ⟨current, hcurrent, rfl | ⟨decoded, hdecoded, hsame⟩⟩
    · exact encodeProtected_nil.mp hcurrent
    · rw [decodeProtected, if_pos rfl] at hdecoded
      cases hdecoded
      rw [encodeProtected_nil.mpr rfl] at hsame
      cases hsame
      exact encodeProtected_nil.mp hcurrent
  · intro h
    exact ⟨[], encodeProtected_nil.mpr h, .inl rfl⟩

/-! ### Encoding -/

theorem requireComplete_ok {state : OperationState} {message : String} :
    state.requireComplete message = .ok () ↔ state = .complete := by
  rw [OperationState.requireComplete, Except.failIf_eq_ok, not_not]

theorem encodePrefixed_ok {tagPrefix b : Bytes} {body : List Part}
    (h : encodePrefixed c tagPrefix body = .ok b) :
    ∃ out, c.writeTuple body = .ok out ∧ b = tagPrefix ++ out := by
  rw [encodePrefixed] at h
  obtain ⟨_, -, h⟩ := Except.bind_eq_ok.mp h
  obtain ⟨-, h⟩ := Except.seq_eq_ok.mp h
  obtain ⟨-, h⟩ := Except.seq_eq_ok.mp h
  obtain ⟨out, hout, h⟩ := Except.bind_eq_ok.mp h
  exact ⟨out, Except.mapError_eq_ok.mp hout, (Except.pure_eq_ok.mp h).symm⟩

/-! ### Providers -/

theorem ensureCritUnderstood_ok {understood : List Label}
    (h : p.ensureCritUnderstood c understood = .ok ()) : Understood p understood := by
  rw [Header.ensureCritUnderstood, Except.seq_eq_ok, Except.bind_eq_ok] at h
  obtain ⟨-, crit, hcrit, hall⟩ := h
  refine ⟨crit, hcrit, ?_⟩
  rintro labels rfl label hlabel
  have hone := Except.forM_eq_ok.mp hall label hlabel
  rw [Header.ensureLabelUnderstood] at hone
  by_cases hcounter : label = headerParameterCounterSignature
  · rw [hcounter]
    exact .inl (by decide)
  · rw [if_neg hcounter, Except.failIf_eq_ok, not_not] at hone
    exact hone

theorem checkProtectedAlg_ok {alg : Option Label} :
    checkProtectedAlg p u alg = .ok () ↔ AlgMatches p u alg := by
  cases alg with
  | none => simp [checkProtectedAlg, AlgMatches, pure, Except.pure]
  | some expected =>
    rw [checkProtectedAlg, AlgMatches]
    simp only [Option.some.injEq, forall_eq', Except.bind_eq_ok]
    refine exists_congr fun effective => and_congr_right fun _ => ?_
    cases effective with
    | none => simp [pure, Except.pure]
    | some existing => simp [requireSameAlg]

end Cose2

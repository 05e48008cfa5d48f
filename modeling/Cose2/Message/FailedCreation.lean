import Cose2.Layer
import Cose2.Message.Encrypted

/-! # What a failed creation leaves behind

The calls that create a signature, a tag or a ciphertext write `alg` and `kid` into
the headers of the message before they have made all their checks, and nothing is
undone when a later check fails.  So a failed call does not leave the message
untouched (`not_untouched`).  `CreationFrame` says what it does leave: the payload
and the recipients; every header but `alg` and `kid`; and the authenticated part of
the message, unless a signing or MAC call got past the preparation of the headers,
which gives up the old result first.
-/
namespace Cose2

open Cbor Iana

variable {ρ : Type} {c : Cbor2}

/-! ### Preparing headers -/

/-- The buckets agree but for `alg`, and for `kid` in the unprotected one. -/
structure SameButAlgKid (b b' : Buckets) : Prop where
  protectedHeader : ∀ l, l ≠ headerParameterAlg →
    b'.protectedHeader.get l = b.protectedHeader.get l
  unprotectedHeader : ∀ l, l ≠ headerParameterAlg → l ≠ headerParameterKid →
    b'.unprotectedHeader.get l = b.unprotectedHeader.get l

namespace SameButAlgKid

theorem refl (b : Buckets) : SameButAlgKid b b := ⟨fun _ _ => rfl, fun _ _ _ => rfl⟩

theorem trans {b b' b'' : Buckets} (h : SameButAlgKid b b') (h' : SameButAlgKid b' b'') :
    SameButAlgKid b b'' where
  protectedHeader l hl := (h'.protectedHeader l hl).trans (h.protectedHeader l hl)
  unprotectedHeader l hl hl' :=
    (h'.unprotectedHeader l hl hl').trans (h.unprotectedHeader l hl hl')

theorem setAlg (b : Buckets) (alg : Label) :
    SameButAlgKid b { b with protectedHeader := b.protectedHeader.setAlg alg } where
  protectedHeader l hl := by
    show (b.protectedHeader.insert _ _).get l = _
    rw [BTreeMap.get_insert, if_neg hl]
  unprotectedHeader _ _ _ := rfl

theorem removeAlg (b : Buckets) :
    SameButAlgKid b
      { b with unprotectedHeader := b.unprotectedHeader.remove headerParameterAlg } where
  protectedHeader _ _ := rfl
  unprotectedHeader l hl _ := by
    show (b.unprotectedHeader.remove _).get l = _
    rw [BTreeMap.get_remove, if_neg hl]

theorem setKid (b : Buckets) (kid : Bytes) :
    SameButAlgKid b { b with unprotectedHeader := b.unprotectedHeader.setKid kid } where
  protectedHeader _ _ := rfl
  unprotectedHeader l _ hl := by
    show (b.unprotectedHeader.insert _ _).get l = _
    rw [BTreeMap.get_insert, if_neg hl]

end SameButAlgKid

/-- A layer whose algorithm does not match, or cannot be read, is left alone. -/
theorem ensureProtectedAlg_leaves (alg : Option Label) (b : Buckets) :
    (ensureProtectedAlg alg).Leaves b fun r b' => SameButAlgKid b b' ∧
      ((checkProtectedAlg b.protectedHeader b.unprotectedHeader alg).isOk = false →
        r.isOk = false ∧ b' = b) := by
  cases alg with
  | none => exact ⟨.refl b, by rintro ⟨⟩⟩
  | some alg =>
    rw [ensureProtectedAlg, Op.leaves_bind, Op.leaves_get]
    simp only [checkProtectedAlg, effectiveAlg]
    refine Op.leaves_lift_bind.mpr ⟨fun existing hexisting => ?_, fun e _ => ?_⟩
    · rw [hexisting, Except.ok_bind]
      cases existing with
      | some existing =>
        rw [Op.leaves_lift]
        exact ⟨.refl b, fun h => ⟨h, rfl⟩⟩
      | none =>
        refine Op.leaves_lift_bind.mpr ⟨fun existing hexisting => ?_, fun e _ => ?_⟩
        · rw [hexisting, Except.ok_bind]
          cases existing with
          | some existing =>
            refine Op.leaves_lift_bind.mpr ⟨fun _ hsame => ?_, fun e _ => ?_⟩
            · -- the algorithm moves from the unprotected bucket to the protected one
              refine ⟨(SameButAlgKid.removeAlg b).trans (.setAlg _ alg), fun h => ?_⟩
              change (requireSameAlg existing alg).isOk = false at h
              rw [hsame] at h
              cases h
            · exact ⟨.refl b, fun _ => ⟨rfl, rfl⟩⟩
          | none => exact ⟨.setAlg b alg, by rintro ⟨⟩⟩
        · exact ⟨.refl b, fun _ => ⟨rfl, rfl⟩⟩
    · exact ⟨.refl b, fun _ => ⟨rfl, rfl⟩⟩

theorem ensureUnprotectedKid_leaves (kid : Option Bytes) (b : Buckets) :
    (ensureUnprotectedKid kid).Leaves b fun _ b' => SameButAlgKid b b' := by
  cases kid with
  | none => exact .refl b
  | some kid =>
    rw [ensureUnprotectedKid, Op.leaves_bind, Op.leaves_get]
    refine Op.leaves_lift_bind.mpr ⟨fun existing _ => ?_, fun _ _ => .refl b⟩
    by_cases h : existing = none ∧ b.unprotectedHeader.containsKey headerParameterKid = false
    · rw [if_pos h]
      exact .setKid b kid
    · rw [if_neg h]
      exact .refl b

/-- What `prepare_headers` leaves of the buckets, whatever its outcome. -/
theorem prepareHeaders_leaves (alg : Option Label) (kid : Option Bytes) (b : Buckets) :
    (prepareHeaders c alg kid).Leaves b fun r b' => SameButAlgKid b b' ∧
      ((checkProtectedAlg b.protectedHeader b.unprotectedHeader alg).isOk = false →
        r.isOk = false ∧ b' = b) := by
  rw [prepareHeaders, Op.leaves_bind]
  refine (ensureProtectedAlg_leaves alg b).mono fun r b₁ h => ?_
  obtain ⟨hsame, hcheck⟩ := h
  cases r with
  | error e => exact ⟨hsame, fun h => ⟨rfl, (hcheck h).2⟩⟩
  | ok _ =>
    -- the algorithm matched, so only the edits remain to be followed
    have hmatched : (checkProtectedAlg b.protectedHeader b.unprotectedHeader alg).isOk ≠ false :=
      fun h => absurd (hcheck h).1 (by rintro ⟨⟩)
    rw [Op.leaves_bind]
    refine (ensureUnprotectedKid_leaves kid b₁).mono fun r b₂ hsame' => ?_
    have hboth := hsame.trans hsame'
    cases r with
    | error e => exact ⟨hboth, fun h => absurd h hmatched⟩
    | ok _ =>
      rw [Op.leaves_bind, Op.leaves_get]
      exact Op.leaves_lift_bind.mpr
        ⟨fun _ _ => ⟨hboth, fun h => absurd h hmatched⟩, fun _ _ =>
          ⟨hboth, fun h => absurd h hmatched⟩⟩

/-! ### Calls -/

/-- A call that creates a signature or a tag. -/
inductive AuthCreation where
  | prepare (alg : Option Label) (kid externalAad : Option Bytes)
  | prepareDetached (alg : Option Label) (kid : Option Bytes) (detachedPayload : Bytes)
    (externalAad : Option Bytes)
  | complete (alg : Option Label) (kid externalAad : Option Bytes)
  | completeDetached (alg : Option Label) (kid : Option Bytes) (detachedPayload : Bytes)
    (externalAad : Option Bytes)

namespace AuthCreation

/-- The algorithm of the provider. -/
def alg : AuthCreation → Option Label
  | .prepare alg .. | .prepareDetached alg .. | .complete alg .. | .completeDetached alg .. => alg

/-- The key id of the provider. -/
def kid : AuthCreation → Option Bytes
  | .prepare _ kid _ | .prepareDetached _ kid .. | .complete _ kid _
  | .completeDetached _ kid .. => kid

/-- The call, with the provider's primitive. -/
def run (k : AuthType ρ) (c : Cbor2) (create : Bytes → Except Error Bytes) :
    AuthCreation → Op Error (AuthMessage ρ) Unit
  | .prepare alg kid externalAad => do let _ ← k.prepare c alg kid externalAad
  | .prepareDetached alg kid detachedPayload externalAad => do
    let _ ← k.prepareDetached c alg kid detachedPayload externalAad
  | .complete alg kid externalAad => k.complete c alg kid create externalAad
  | .completeDetached alg kid detachedPayload externalAad =>
    k.completeDetached c alg kid create detachedPayload externalAad

end AuthCreation

/-- A call that creates a ciphertext; the encryptor stands for its other arguments too. -/
inductive EncCreation where
  | prepareEncryption (alg : Option Label) (kid : Option Bytes) (nonceSize : Nat)
    (baseIv externalAad : Option Bytes)
  | encrypt (encryptor : Encryptor) (externalAad : Option Bytes)

namespace EncCreation

/-- The algorithm of the provider. -/
def alg : EncCreation → Option Label
  | .prepareEncryption alg .. => alg
  | .encrypt encryptor _ => encryptor.alg

/-- The call, with the provider's primitive. -/
def run (k : EncType ρ) (c : Cbor2) (primitive : Bytes → Bytes → Bytes → Except Error Bytes) :
    EncCreation → Op Error (EncMessage ρ) Unit
  | .prepareEncryption alg kid nonceSize baseIv externalAad => do
    let _ ← k.prepareEncryption c alg kid nonceSize baseIv externalAad
  | .encrypt encryptor externalAad =>
    k.encrypt c { encryptor with encrypt := primitive } externalAad

end EncCreation

/-- The call fails before it comes to the primitive: it fails whatever that would return. -/
def FailsEarly {π σ : Type} (call : π → Op Error σ Unit) (s : σ) : Prop :=
  ∀ primitive, ((call primitive).run s).1.isOk = false

/-- A call that fails early leaves the message as it was. -/
structure Untouched (c : Cbor2) : Prop where
  auth : ∀ {ρ : Type} (k : AuthType ρ) (call : AuthCreation) (m : AuthMessage ρ),
    FailsEarly (fun create => call.run k c create) m →
      ∀ create, ((call.run k c create).run m).2 = m
  enc : ∀ {ρ : Type} (k : EncType ρ) (call : EncCreation) (m : EncMessage ρ),
    FailsEarly (fun primitive => call.run k c primitive) m →
      ∀ primitive, ((call.run k c primitive).run m).2 = m

/-! ### What is left -/

/-- What a failed call leaves of a message to be signed or authenticated. -/
structure AuthType.Frame (k : AuthType ρ) (c : Cbor2) (call : AuthCreation)
    (m m' : AuthMessage ρ) : Prop where
  payload : m'.payload = m.payload
  recipients : m'.recipients = m.recipients
  headers : SameButAlgKid m.buckets m'.buckets
  /-- Invalid recipients and a wrong algorithm are found before anything is changed. -/
  untouched : (k.validateRecipients m.recipients).isOk = false ∨
    (checkProtectedAlg m.protectedHeader m.unprotectedHeader call.alg).isOk = false → m' = m
  /-- The result is given up only after the headers have been prepared. -/
  authenticated : (m'.protectedRaw = m.protectedRaw ∧ m'.result = m.result ∧
      m'.state = m.state) ∨
    (((k.prepareOwnHeaders c call.alg call.kid).run m).1.isOk = true ∧
      m'.result = [] ∧ m'.state = .prepared)

/-- What a failed call leaves of a message to be encrypted. -/
structure EncType.Frame (k : EncType ρ) (call : EncCreation) (m m' : EncMessage ρ) : Prop where
  payload : m'.payload = m.payload
  recipients : m'.recipients = m.recipients
  headers : SameButAlgKid m.buckets m'.buckets
  /-- Invalid recipients and a wrong algorithm are found before anything is changed. -/
  untouched : (k.validateRecipients m.recipients).isOk = false ∨
    (checkProtectedAlg m.protectedHeader m.unprotectedHeader call.alg).isOk = false → m' = m
  authenticated : m'.protectedRaw = m.protectedRaw ∧ m'.ciphertext = m.ciphertext ∧
    m'.ciphertextDetached = m.ciphertextDetached ∧ m'.state = m.state

/-! ### Signatures and tags -/

namespace AuthType

variable {k : AuthType ρ}

/-- Preparing the headers fails and leaves a frame, or leaves a prepared message. -/
theorem prepareOwnHeaders_frame (call : AuthCreation) (m : AuthMessage ρ) :
    (k.prepareOwnHeaders c call.alg call.kid).Leaves m fun _ m' => k.Frame c call m m' := by
  have hok : (k.prepareOwnHeaders c call.alg call.kid).Leaves m fun r m' =>
      m'.payload = m.payload ∧ m'.recipients = m.recipients ∧
      SameButAlgKid m.buckets m'.buckets ∧
      ((k.validateRecipients m.recipients).isOk = false ∨
        (checkProtectedAlg m.protectedHeader m.unprotectedHeader call.alg).isOk = false →
        m' = m) ∧
      ((m'.protectedRaw = m.protectedRaw ∧ m'.result = m.result ∧ m'.state = m.state) ∨
        (r.isOk = true ∧ m'.result = [] ∧ m'.state = .prepared)) := by
    rw [prepareOwnHeaders, Op.leaves_bind, Op.leaves_get]
    refine Op.leaves_lift_bind.mpr ⟨fun _ hvalid => ?_, fun _ _ =>
      ⟨rfl, rfl, .refl _, fun _ => rfl, .inl ⟨rfl, rfl, rfl⟩⟩⟩
    rw [Op.leaves_bind, Op.leaves_on]
    refine (prepareHeaders_leaves call.alg call.kid m.buckets).mono fun r b h => ?_
    obtain ⟨hsame, hcheck⟩ := h
    cases r with
    | ok raw =>
      refine ⟨rfl, rfl, hsame, fun h => ?_, .inr ⟨rfl, rfl, rfl⟩⟩
      rcases h with h | h
      · rw [hvalid] at h
        cases h
      · cases (hcheck h).1
    | error e =>
      refine ⟨rfl, rfl, hsame, fun h => ?_, .inl ⟨rfl, rfl, rfl⟩⟩
      rcases h with h | h
      · rw [hvalid] at h
        cases h
      · rw [(hcheck h).2]
        rfl
  obtain ⟨hpayload, hrecipients, hsame, huntouched, hcore⟩ := hok
  exact ⟨hpayload, hrecipients, hsame, huntouched, hcore⟩

/-- An operation that prepares the headers and then changes nothing unless it
succeeds leaves a frame when it fails. -/
theorem frame_of_prepareFirst {α : Type} {f : Unit → Op Error (AuthMessage ρ) α}
    (call : AuthCreation)
    (hf : ∀ m, (f ()).Leaves m fun r m' => r.isOk = false → m' = m) (m : AuthMessage ρ) :
    (k.prepareOwnHeaders c call.alg call.kid >>= f).Leaves m fun r m' =>
      r.isOk = false → k.Frame c call m m' := by
  rw [Op.leaves_bind]
  refine (prepareOwnHeaders_frame call m).mono fun r m₁ hframe => ?_
  cases r with
  | error e => exact fun _ => hframe
  | ok _ =>
    refine (hf m₁).mono fun r m' h hfails => ?_
    rw [h hfails]
    exact hframe

/-- A failed call leaves a frame. -/
theorem creation_leaves (create : Bytes → Except Error Bytes) (call : AuthCreation)
    (m : AuthMessage ρ) :
    (call.run k c create).Leaves m fun r m' => r.isOk = false → k.Frame c call m m' := by
  cases call with
  | prepare alg kid externalAad =>
    have h := frame_of_prepareFirst (k := k) (c := c) (.prepare alg kid externalAad)
      (f := fun _ => do
        let m ← Op.get
        let payload ← Op.lift (requireEmbeddedPayload m.payload k.prepareOperation)
        Op.lift (k.toBeAuthenticated c m.protectedRaw (externalAad.getD []) payload))
      (fun m => by
        rw [Op.leaves_bind, Op.leaves_get]
        exact Op.leaves_lift_bind.mpr ⟨fun _ _ _ => rfl, fun _ _ _ => rfl⟩) m
    rw [AuthCreation.run, Op.leaves_bind]
    refine Op.Leaves.mono h fun r m' hr => ?_
    cases r with
    | ok _ => rintro ⟨⟩
    | error _ => exact hr
  | prepareDetached alg kid detachedPayload externalAad =>
    have h := frame_of_prepareFirst (k := k) (c := c)
      (.prepareDetached alg kid detachedPayload externalAad)
      (f := fun _ => do
        let m ← Op.get
        let structured ← Op.lift
          (k.toBeAuthenticated c m.protectedRaw (externalAad.getD []) detachedPayload)
        Op.modify fun m => { m with payload := none }
        return structured)
      (fun m => by
        rw [Op.leaves_bind, Op.leaves_get]
        exact Op.leaves_lift_bind.mpr ⟨fun _ _ => by rintro ⟨⟩, fun _ _ _ => rfl⟩) m
    rw [AuthCreation.run, Op.leaves_bind]
    refine Op.Leaves.mono h fun r m' hr => ?_
    cases r with
    | ok _ => rintro ⟨⟩
    | error _ => exact hr
  | complete alg kid externalAad =>
    refine frame_of_prepareFirst (.complete alg kid externalAad) (fun m => ?_) m
    rw [Op.leaves_bind, Op.leaves_get]
    refine Op.leaves_lift_bind.mpr ⟨fun payload _ => ?_, fun _ _ _ => rfl⟩
    refine Op.leaves_lift_bind.mpr ⟨fun structured _ => ?_, fun _ _ _ => rfl⟩
    exact Op.leaves_lift_bind.mpr ⟨fun _ _ => by rintro ⟨⟩, fun _ _ _ => rfl⟩
  | completeDetached alg kid detachedPayload externalAad =>
    refine frame_of_prepareFirst (.completeDetached alg kid detachedPayload externalAad)
      (fun m => ?_) m
    rw [Op.leaves_bind, Op.leaves_get]
    refine Op.leaves_lift_bind.mpr ⟨fun structured _ => ?_, fun _ _ _ => rfl⟩
    exact Op.leaves_lift_bind.mpr ⟨fun _ _ => by rintro ⟨⟩, fun _ _ _ => rfl⟩

end AuthType

/-! ### Ciphertexts -/

namespace EncType

variable {k : EncType ρ}

/-- Nothing but the headers changes before the last check of `prepare_encryption`. -/
theorem prepareEncryption_frame (call : EncCreation) {alg : Option Label} (halg : call.alg = alg)
    (kid : Option Bytes) (nonceSize : Nat) (baseIv externalAad : Option Bytes)
    (m : EncMessage ρ) :
    (k.prepareEncryption c alg kid nonceSize baseIv externalAad).Leaves m fun r m' =>
      (r.isOk = false → k.Frame call m m') ∧ (r.isOk = true → m'.payload.isSome) := by
  subst halg
  rw [prepareEncryption, Op.leaves_bind, Op.leaves_get]
  refine Op.leaves_lift_bind.mpr ⟨fun _ hvalid => ?_, fun _ _ =>
    ⟨fun _ => ⟨rfl, rfl, .refl _, fun _ => rfl, rfl, rfl, rfl, rfl⟩, by rintro ⟨⟩⟩⟩
  rw [Op.leaves_bind, Op.leaves_on]
  refine (prepareHeaders_leaves call.alg kid m.buckets).mono fun r b h => ?_
  obtain ⟨hsame, hcheck⟩ := h
  have hframe : k.Frame call m (m.withBuckets b) := by
    refine ⟨rfl, rfl, hsame, fun h => ?_, rfl, rfl, rfl, rfl⟩
    rcases h with h | h
    · rw [hvalid] at h
      cases h
    · rw [(hcheck h).2]
      rfl
  cases r with
  | error e => exact ⟨fun _ => hframe, by rintro ⟨⟩⟩
  | ok raw =>
    refine Op.leaves_bind.mpr (Op.leaves_get.mpr ?_)
    refine Op.leaves_lift_bind.mpr ⟨fun plaintext hplaintext => ?_, fun _ _ =>
      ⟨fun _ => hframe, by rintro ⟨⟩⟩⟩
    refine Op.leaves_lift_bind.mpr ⟨fun nonce _ => ?_, fun _ _ => ⟨fun _ => hframe, by rintro ⟨⟩⟩⟩
    refine Op.leaves_lift_bind.mpr ⟨fun aad _ => ?_, fun _ _ => ⟨fun _ => hframe, by rintro ⟨⟩⟩⟩
    have hsome := Except.ofOption_eq_ok.mp hplaintext
    exact ⟨by rintro ⟨⟩, fun _ => by rw [Option.isSome_iff_exists]; exact ⟨_, hsome⟩⟩

/-- With headers, plaintext and nonce in place, only the primitive can fail. -/
theorem encrypt_succeeds (encryptor : Encryptor) {externalAad : Option Bytes} {m : EncMessage ρ}
    (hprepare : ((k.prepareEncryption c encryptor.alg encryptor.kid encryptor.nonceSize
      encryptor.baseIv externalAad).run m).1.isOk = true)
    (hprimitive : ∀ nonce plaintext aad, (encryptor.encrypt nonce plaintext aad).isOk = true) :
    ((k.encrypt c encryptor externalAad).run m).1.isOk = true := by
  have hleaves : (k.encrypt c encryptor externalAad).Leaves m fun r _ => r.isOk = true := by
    have hpayload := (prepareEncryption_frame (k := k) (c := c)
      (.encrypt encryptor externalAad) rfl encryptor.kid encryptor.nonceSize
      encryptor.baseIv externalAad m).2 hprepare
    rw [encrypt, Op.leaves_bind, Op.Leaves]
    change (((k.prepareEncryption c encryptor.alg encryptor.kid encryptor.nonceSize
      encryptor.baseIv externalAad).run m).2).payload.isSome at hpayload
    generalize (k.prepareEncryption c encryptor.alg encryptor.kid encryptor.nonceSize
      encryptor.baseIv externalAad).run m = outcome at hprepare hpayload ⊢
    obtain ⟨r, m₁⟩ := outcome
    cases r with
    | error e => cases hprepare
    | ok context =>
      obtain ⟨plaintext, hplaintext⟩ := Option.isSome_iff_exists.mp hpayload
      show Op.Leaves _ m₁ _
      rw [Op.leaves_bind, Op.leaves_get]
      refine Op.leaves_lift_bind.mpr ⟨fun p _ => ?_, fun e he => ?_⟩
      · refine Op.leaves_lift_bind.mpr ⟨fun _ _ => rfl, fun e he => ?_⟩
        have h := hprimitive context.nonce p context.aad
        rw [he] at h
        exact h
      · change m₁.payload = some plaintext at hplaintext
        rw [hplaintext] at he
        cases he
  exact hleaves

/-- A call that fails before the primitive leaves a frame. -/
theorem creation_leaves {call : EncCreation} {m : EncMessage ρ}
    (hfails : FailsEarly (fun primitive => call.run k c primitive) m)
    (primitive : Bytes → Bytes → Bytes → Except Error Bytes) :
    k.Frame call m ((call.run k c primitive).run m).2 := by
  cases call with
  | prepareEncryption alg kid nonceSize baseIv externalAad =>
    have h := prepareEncryption_frame (k := k) (c := c)
      (.prepareEncryption alg kid nonceSize baseIv externalAad) rfl kid nonceSize baseIv
      externalAad m
    have hrun : ((EncCreation.prepareEncryption alg kid nonceSize baseIv externalAad).run k c
        primitive).Leaves m fun r m' => r.isOk = false →
          k.Frame (.prepareEncryption alg kid nonceSize baseIv externalAad) m m' := by
      rw [EncCreation.run, Op.leaves_bind]
      refine h.mono fun r m' hr => ?_
      cases r with
      | ok _ => rintro ⟨⟩
      | error _ => exact hr.1
    exact hrun (hfails primitive)
  | encrypt encryptor externalAad =>
    have hprepare : ((k.prepareEncryption c encryptor.alg encryptor.kid encryptor.nonceSize
        encryptor.baseIv externalAad).run m).1.isOk = false := by
      rw [← Bool.not_eq_true]
      intro h
      have hsucceeds := encrypt_succeeds (k := k)
        { encryptor with encrypt := fun _ _ _ => .ok [] } h (fun _ _ _ => rfl)
      exact Bool.false_ne_true ((hfails fun _ _ _ => .ok []).symm.trans hsucceeds)
    have hframe := (prepareEncryption_frame (k := k) (c := c)
      (.encrypt encryptor externalAad) rfl encryptor.kid encryptor.nonceSize
      encryptor.baseIv externalAad m).1 hprepare
    rw [EncCreation.run, EncType.encrypt, (Op.run_bind_of_fails hprepare).2]
    exact hframe

end EncType

/-! ### All types -/

/-- What a failed call leaves behind.  A failed primitive makes a difference for the
ciphertexts only, which are dropped in front of it. -/
structure CreationFrame (c : Cbor2) : Prop where
  auth : ∀ {ρ : Type} (k : AuthType ρ) (call : AuthCreation) (m : AuthMessage ρ)
    (create : Bytes → Except Error Bytes), ((call.run k c create).run m).1.isOk = false →
      k.Frame c call m ((call.run k c create).run m).2
  enc : ∀ {ρ : Type} (k : EncType ρ) (call : EncCreation) (m : EncMessage ρ),
    FailsEarly (fun primitive => call.run k c primitive) m →
      ∀ primitive, k.Frame call m ((call.run k c primitive).run m).2

/-- **A failed creation keeps the payload, the recipients and the headers but for
`alg` and `kid`; it keeps the rest too, unless the headers of a message to be signed
or authenticated were prepared.** -/
theorem creationFrame (c : Cbor2) : CreationFrame c where
  auth _ call m create hfails := AuthType.creation_leaves create call m hfails
  enc _ _ _ hfails primitive := EncType.creation_leaves hfails primitive

/-- A signed message with a detached payload. -/
def detachedSigned : AuthMessage Unit where
  recipients := ()
  result := [0x01]
  state := .complete

/-- Signing it again without the payload fails and takes the signature away. -/
theorem not_untouched : ¬ Untouched Cbor2.reference := by
  intro h
  have huntouched := h.auth sign1 (.complete none none none) detachedSigned
    (fun _ => rfl) (fun _ => .ok [])
  cases congrArg AuthMessage.result huntouched

end Cose2

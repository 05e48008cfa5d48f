import Cose2.Message.AuthLifecycle
import Cose2.Message.Encrypted

/-! # The life of an encrypted message

The same as for authenticated messages, with one difference.  `prepare_encryption`
gives up the stored ciphertext only when nothing can fail any more, not as soon as
the headers are prepared: a message that lacks its plaintext or nonce keeps the
ciphertext it has.

The pair that a call stores consists of the protected bytes and the ciphertext as it is
encoded, which is absent when it is detached.
-/
namespace Cose2

open Cbor

variable {ρ : Type} {c : Cbor2}

/-! ### Calls -/

/-- A call, or an edit of the public fields. -/
inductive EncCall (ρ : Type) where
  | new (payload : Option Bytes)
  | fromSlice (data : Bytes)
  | edit (p u : Header) (payload : Option Bytes) (recipients : ρ)
  | prepareEncryption (alg : Option Label) (kid : Option Bytes) (nonceSize : Nat)
    (baseIv externalAad : Option Bytes)
  | setCiphertext (ciphertext : Bytes) (detached : Bool)
  | encrypt (encryptor : Encryptor) (externalAad : Option Bytes)
  | encryptDetached (encryptor : Encryptor) (externalAad : Option Bytes)
  | encryptAndEncode (encryptor : Encryptor) (externalAad : Option Bytes)
  | encryptDetachedAndEncode (encryptor : Encryptor) (externalAad : Option Bytes)
  | decrypt (encryptor : Encryptor) (externalAad : Option Bytes)
  | decryptDetached (encryptor : Encryptor) (detachedCiphertext : Bytes)
    (externalAad : Option Bytes)
  /-- `prepare_decryption`, `to_vec` and the accessors take the message by shared
  reference. -/
  | read

namespace EncCall

variable (k : EncType ρ) (c : Cbor2)

/-- The message after a call. -/
def run (call : EncCall ρ) (m : EncMessage ρ) : EncMessage ρ :=
  match call with
  | .new payload => k.new payload
  | .fromSlice data => (k.fromSlice c data).toOption.getD m
  | .edit p u payload recipients =>
    { m with protectedHeader := p, unprotectedHeader := u, payload, recipients }
  | .prepareEncryption alg kid nonceSize baseIv externalAad =>
    ((k.prepareEncryption c alg kid nonceSize baseIv externalAad).run m).2
  | .setCiphertext ciphertext detached => ((k.setCiphertext c ciphertext detached).run m).2
  | .encrypt encryptor externalAad => ((k.encrypt c encryptor externalAad).run m).2
  | .encryptDetached encryptor externalAad => ((k.encryptDetached c encryptor externalAad).run m).2
  | .encryptAndEncode encryptor externalAad =>
    ((k.encryptAndEncode c encryptor externalAad).run m).2
  | .encryptDetachedAndEncode encryptor externalAad =>
    ((k.encryptDetachedAndEncode c encryptor externalAad).run m).2
  | .decrypt encryptor externalAad => ((k.decrypt c encryptor externalAad).run m).2
  | .decryptDetached encryptor detachedCiphertext externalAad =>
    ((k.decryptDetached c encryptor detachedCiphertext externalAad).run m).2
  | .read => m

/-- The call succeeds in storing protected bytes and a ciphertext. -/
def stores (call : EncCall ρ) (m : EncMessage ρ) : Bool :=
  match call with
  | .fromSlice data => (k.fromSlice c data).isOk
  | .setCiphertext ciphertext detached => ((k.setCiphertext c ciphertext detached).run m).1.isOk
  | .encrypt encryptor externalAad | .encryptDetached encryptor externalAad
  | .encryptAndEncode encryptor externalAad | .encryptDetachedAndEncode encryptor externalAad =>
    ((k.encrypt c encryptor externalAad).run m).1.isOk
  | .new _ | .edit .. | .prepareEncryption .. | .decrypt .. | .decryptDetached .. | .read => false

/-- The protected bytes and the ciphertext in the bytes of a message. -/
def wirePair (data : Bytes) : Except Error (Bytes × Option Bytes) := do
  let body ← Strict.messageBody c data k.tag {}
  match ← (c.item body).mapError .cbor with
  | .array _ (protectedItem :: _ :: ciphertextItem :: _) =>
    let protectedRaw ← (c.byteBuf protectedItem).mapError .cbor
    let ciphertext ← (c.optionByteBuf ciphertextItem).mapError .cbor
    return (protectedRaw, ciphertext)
  | _ => .error (.cbor "invalid length")

/-- The protected bytes that are prepared, and what the provider makes of the plaintext
under the nonce in the prepared headers. -/
def madePair (encryptor : Encryptor) (externalAad : Option Bytes) (m : EncMessage ρ) :
    Except Error (Bytes × Bytes) := do
  let (outcome, b) := (prepareHeaders c encryptor.alg encryptor.kid).run m.buckets
  let protectedRaw ← outcome
  let plaintext ← requirePlaintext m.payload s!"{k.name}::encrypt"
  let nonce ← nonceFromHeaderValues b.protectedHeader b.unprotectedHeader encryptor.nonceSize
    encryptor.baseIv
  let aad ← k.toBeEncrypted c protectedRaw (externalAad.getD [])
  let ciphertext ← encryptor.encrypt nonce plaintext aad
  return (protectedRaw, ciphertext)

/-- The protected bytes and the ciphertext that the call brings together. -/
def pair (call : EncCall ρ) (m : EncMessage ρ) : Option (Bytes × Option Bytes) :=
  match call with
  | .fromSlice data => (wirePair k c data).toOption
  | .setCiphertext ciphertext detached =>
    (syncProtectedRaw c m.protectedHeader m.unprotectedHeader m.protectedRaw m.state).toOption.map
      fun protectedRaw => (protectedRaw, if detached then none else some ciphertext)
  | .encrypt encryptor externalAad | .encryptAndEncode encryptor externalAad =>
    (madePair k c encryptor externalAad m).toOption.map fun made => (made.1, some made.2)
  | .encryptDetached encryptor externalAad | .encryptDetachedAndEncode encryptor externalAad =>
    (madePair k c encryptor externalAad m).toOption.map fun made => (made.1, none)
  | .new _ | .edit .. | .prepareEncryption .. | .decrypt .. | .decryptDetached .. | .read => none

/-- The call makes a new message, or gets past the preparation of the headers. -/
def passesHeaders (call : EncCall ρ) (m : EncMessage ρ) : Bool :=
  let passed (alg : Option Label) (kid : Option Bytes) : Bool :=
    (k.validateRecipients m.recipients).isOk && ((prepareHeaders c alg kid).run m.buckets).1.isOk
  match call with
  | .new _ => true
  | .prepareEncryption alg kid _ _ _ => passed alg kid
  | .encrypt encryptor _ | .encryptDetached encryptor _ | .encryptAndEncode encryptor _
  | .encryptDetachedAndEncode encryptor _ => passed encryptor.alg encryptor.kid
  | .fromSlice .. | .edit .. | .setCiphertext .. | .decrypt .. | .decryptDetached .. | .read =>
    false

/-- The call makes a new message, or gets past all checks of `prepare_encryption`. -/
def passesChecks (call : EncCall ρ) (m : EncMessage ρ) : Bool :=
  let passed (encryptor : Encryptor) (externalAad : Option Bytes) : Bool :=
    ((k.prepareEncryption c encryptor.alg encryptor.kid encryptor.nonceSize encryptor.baseIv
      externalAad).run m).1.isOk
  match call with
  | .new _ => true
  | .prepareEncryption alg kid nonceSize baseIv externalAad =>
    ((k.prepareEncryption c alg kid nonceSize baseIv externalAad).run m).1.isOk
  | .encrypt encryptor externalAad | .encryptDetached encryptor externalAad
  | .encryptAndEncode encryptor externalAad | .encryptDetachedAndEncode encryptor externalAad =>
    passed encryptor externalAad
  | .fromSlice .. | .edit .. | .setCiphertext .. | .decrypt .. | .decryptDetached .. | .read =>
    false

end EncCall

namespace EncType

variable (k : EncType ρ) (c : Cbor2)

/-- One call, and the pair of the latest completion; `drops` says which calls give it up. -/
def step (drops : EncCall ρ → EncMessage ρ → Bool)
    (h : EncMessage ρ × Option (Bytes × Option Bytes)) (call : EncCall ρ) :
    EncMessage ρ × Option (Bytes × Option Bytes) :=
  (call.run k c h.1,
    if call.stores k c h.1 then call.pair k c h.1
    else if drops call h.1 then none
    else h.2)

/-- A run from a new message. -/
def history (drops : EncCall ρ → EncMessage ρ → Bool) (calls : List (EncCall ρ)) :
    EncMessage ρ × Option (Bytes × Option Bytes) :=
  calls.foldl (k.step c drops) (k.new none, none)

/-- What is encoded is the pair that the latest completion stored, and its protected
bytes denote the protected header. -/
def EmitsStored (h : EncMessage ρ × Option (Bytes × Option Bytes)) : Prop :=
  ∀ tagPrefix b, k.encode c h.1 tagPrefix = .ok b →
    ∃ raw ciphertext, h.2 = some (raw, ciphertext) ∧ DenotesHeader c raw h.1.protectedHeader ∧
      ∃ unprotected recipients out,
        c.writeTuple ([.value (.bytes raw), .raw unprotected, payloadPart ciphertext] ++
          recipients) = .ok out ∧ b = tagPrefix ++ out

/-- None of the calls stores anything. -/
def StoresNothing (m : EncMessage ρ) : List (EncCall ρ) → Prop
  | [] => True
  | call :: calls => call.stores k c m = false ∧ StoresNothing (call.run k c m) calls

/-- Only what was stored together is encoded, in every run. -/
structure EncodesOnlyStored : Prop where
  emits : ∀ calls, k.EmitsStored c (k.history c (EncCall.passesChecks k c) calls)
  /-- A message that was prepared but not encrypted, also in a call that was to encrypt it,
  is not encoded until something is stored. -/
  unfinished : ∀ calls call later,
    call.stores k c (k.history c (EncCall.passesChecks k c) calls).1 = false →
    call.passesChecks k c (k.history c (EncCall.passesChecks k c) calls).1 = true →
    k.StoresNothing c (call.run k c (k.history c (EncCall.passesChecks k c) calls).1) later →
    ∀ tagPrefix b,
      k.encode c (k.history c (EncCall.passesChecks k c) (calls ++ call :: later)).1 tagPrefix ≠
        .ok b
  /-- A message is not encoded while its protected header was edited to one that the stored
  bytes do not denote. -/
  edited : ∀ calls raw ciphertext,
    (k.history c (EncCall.passesChecks k c) calls).2 = some (raw, ciphertext) →
    ¬ DenotesHeader c raw (k.history c (EncCall.passesChecks k c) calls).1.protectedHeader →
    ∀ tagPrefix b,
      k.encode c (k.history c (EncCall.passesChecks k c) calls).1 tagPrefix ≠ .ok b

end EncType

/-! ### What is read -/

namespace EncType

/-- The fields of a message are read from these items, and have passed their checks. -/
structure ReadsFields (k : EncType ρ) (c : Cbor2) (tp tu tciphertext : Tree) (rest : List Tree)
    (m : EncMessage ρ) : Prop where
  protectedRaw : c.byteBuf tp = .ok m.protectedRaw
  unprotectedHeader : Header.deserializeChecked c tu = .ok m.unprotectedHeader
  embedded : c.optionByteBuf tciphertext = .ok m.embedded
  ciphertext : m.ciphertext = m.embedded.getD []
  payload : m.payload = none
  recipients : k.readRecipients rest = .ok m.recipients
  checked : k.validateDecoded m.recipients = .ok ()
  protectedHeader : decodeProtected c m.protectedRaw = .ok m.protectedHeader
  buckets : validateHeaderBuckets m.protectedHeader m.unprotectedHeader = .ok ()
  state : m.state = .complete

theorem fromSlice_reads {k : EncType ρ} {data : Bytes} {m : EncMessage ρ}
    (h : k.fromSlice c data = .ok m) : ∃ body w tp tu tciphertext rest,
      Strict.messageBody c data k.tag {} = .ok body ∧
      c.item body = .ok (.array w (tp :: tu :: tciphertext :: rest)) ∧
      k.ReadsFields c tp tu tciphertext rest m := by
  simp only [fromSlice, Except.bind_eq_ok, Except.mapError_eq_ok, Except.pure_eq_ok] at h
  obtain ⟨body, hbody, wire, ⟨t, hitem, hwire⟩, _, hchecked, p, hp, _, hbuckets, rfl⟩ := h
  unfold readWire at hwire
  split at hwire
  · simp only [Except.bind_eq_ok, Except.pure_eq_ok] at hwire
    obtain ⟨raw, hraw, u, hu, ciphertext, hciphertext, rs, hrs, rfl⟩ := hwire
    refine ⟨body, _, _, _, _, _, hbody, hitem,
      ⟨hraw, hu, ?_, ?_, rfl, hrs, hchecked, hp, hbuckets, rfl⟩⟩
    · cases ciphertext <;> exact hciphertext
    · cases ciphertext <;> rfl
  · cases hwire

end EncType

/-! ### What one call leaves behind -/

namespace EncMessage

/-- A complete message still holds the pair that was stored. -/
def Holds (h : EncMessage ρ × Option (Bytes × Option Bytes)) : Prop :=
  h.1.state = .complete → h.2 = some (h.1.protectedRaw, h.1.embedded)

/-- The state and the stored pair are the same. -/
def SameCore (m m' : EncMessage ρ) : Prop :=
  m'.state = m.state ∧ m'.protectedRaw = m.protectedRaw ∧ m'.embedded = m.embedded

theorem SameCore.refl (m : EncMessage ρ) : SameCore m m := ⟨rfl, rfl, rfl⟩

end EncMessage

namespace EncType

open EncMessage

variable {k : EncType ρ}

/-- A call that stored holds its pair; one that did not left the message incomplete when it
drops, and as it was when it does not. -/
structure Outcome (drops : Bool) (pair : Option (Bytes × Option Bytes)) (m : EncMessage ρ)
    (stores : Bool) (m' : EncMessage ρ) : Prop where
  stored : stores = true → pair = some (m'.protectedRaw, m'.embedded)
  dropped : stores = false → drops = true → m'.state ≠ .complete
  kept : stores = false → drops = false → SameCore m m'

/-- A call that does not store leaves the pair alone. -/
theorem Outcome.of_sameCore {pair : Option (Bytes × Option Bytes)} {m m' : EncMessage ρ}
    (h : SameCore m m') : Outcome false pair m false m' :=
  ⟨by rintro ⟨⟩, by rintro - ⟨⟩, fun _ _ => h⟩

/-- What does not touch the pair may follow. -/
theorem Outcome.followed {drops stores : Bool} {pair : Option (Bytes × Option Bytes)}
    {m m' m'' : EncMessage ρ} (h : Outcome drops pair m stores m') (hsame : SameCore m' m'') :
    Outcome drops pair m stores m'' := by
  obtain ⟨hstate, hraw, hembedded⟩ := hsame
  refine ⟨fun hs => ?_, fun hs hd => ?_, fun hs hd => ?_⟩
  · rw [hraw, hembedded]
    exact h.stored hs
  · rw [hstate]
    exact h.dropped hs hd
  · obtain ⟨hstate', hraw', hembedded'⟩ := h.kept hs hd
    exact ⟨hstate.trans hstate', hraw.trans hraw', hembedded.trans hembedded'⟩

/-- An encryption that was prepared: the headers, and the context made with them. -/
structure Begun (k : EncType ρ) (c : Cbor2) (alg : Option Label) (kid : Option Bytes)
    (nonceSize : Nat) (baseIv externalAad : Option Bytes) (m : EncMessage ρ)
    (context : EncryptionContext) (m' : EncMessage ρ) : Prop where
  state : m'.state = .prepared
  embeds : m'.ciphertextDetached = false
  payload : m'.payload = m.payload
  headers : ∃ b, (prepareHeaders c alg kid).run m.buckets = (.ok m'.protectedRaw, b) ∧
    nonceFromHeaderValues b.protectedHeader b.unprotectedHeader nonceSize baseIv =
      .ok context.nonce
  aad : k.toBeEncrypted c m'.protectedRaw (externalAad.getD []) = .ok context.aad

/-- Preparing an encryption leaves a prepared message, or changes nothing but the
buckets. -/
theorem prepareEncryption_leaves (alg : Option Label) (kid : Option Bytes) (nonceSize : Nat)
    (baseIv externalAad : Option Bytes) (m : EncMessage ρ) :
    (k.prepareEncryption c alg kid nonceSize baseIv externalAad).Leaves m fun r m' =>
      (∀ context, r = .ok context →
        Begun k c alg kid nonceSize baseIv externalAad m context m') ∧
      (r.isOk = false → SameCore m m') := by
  -- a check that fails
  have failed {e : Error} {m' : EncMessage ρ} (hsame : SameCore m m') :
      (∀ context, Except.error e = .ok context →
        Begun k c alg kid nonceSize baseIv externalAad m context m') ∧
      ((Except.error e : Except Error EncryptionContext).isOk = false → SameCore m m') :=
    ⟨by rintro _ ⟨⟩, fun _ => hsame⟩
  rw [prepareEncryption, Op.leaves_bind, Op.leaves_get]
  refine Op.leaves_lift_bind.mpr ⟨fun _ _ => ?_, fun _ _ => failed (.refl m)⟩
  rw [Op.leaves_bind, Op.leaves_on, Op.Leaves]
  cases hheaders : (prepareHeaders c alg kid).run m.buckets with
  | mk r b =>
  have hsame : SameCore m (withBuckets b m) := ⟨rfl, rfl, rfl⟩
  cases r with
  | error e => exact failed hsame
  | ok raw =>
    show Op.Leaves _ (withBuckets b m) _
    rw [Op.leaves_bind, Op.leaves_get]
    refine Op.leaves_lift_bind.mpr ⟨fun _ _ => ?_, fun _ _ => failed hsame⟩
    refine Op.leaves_lift_bind.mpr ⟨fun nonce hnonce => ?_, fun _ _ => failed hsame⟩
    refine Op.leaves_lift_bind.mpr ⟨fun aad haad => ?_, fun _ _ => failed hsame⟩
    refine ⟨?_, by rintro ⟨⟩⟩
    rintro _ ⟨⟩
    exact ⟨rfl, rfl, rfl, ⟨b, hheaders, hnonce⟩, haad⟩

/-- Encrypting stores its pair, leaves the message prepared, or changes nothing but the
buckets. -/
theorem encrypt_leaves (encryptor : Encryptor) (externalAad : Option Bytes)
    (m : EncMessage ρ) : (k.encrypt c encryptor externalAad).Leaves m fun r m' =>
      Outcome (EncCall.passesChecks k c (.encrypt encryptor externalAad) m)
        (EncCall.pair k c (.encrypt encryptor externalAad) m) m r.isOk m' := by
  have h := prepareEncryption_leaves (k := k) (c := c) encryptor.alg encryptor.kid
    encryptor.nonceSize encryptor.baseIv externalAad m
  have hpast : EncCall.passesChecks k c (.encrypt encryptor externalAad) m =
      ((k.prepareEncryption c encryptor.alg encryptor.kid encryptor.nonceSize encryptor.baseIv
        externalAad).run m).1.isOk := rfl
  rw [encrypt, Op.leaves_bind, hpast]
  rw [Op.Leaves] at h ⊢
  generalize (k.prepareEncryption c encryptor.alg encryptor.kid encryptor.nonceSize
    encryptor.baseIv externalAad).run m = outcome at h ⊢
  obtain ⟨r, m'⟩ := outcome
  cases r with
  | error e => exact .of_sameCore (h.2 rfl)
  | ok context =>
    have hbegun := h.1 context rfl
    have hprepared {e : Error} : Outcome true (EncCall.pair k c (.encrypt encryptor externalAad) m)
        m (Except.error e : Except Error Unit).isOk m' :=
      ⟨by rintro ⟨⟩, fun _ _ => by rw [hbegun.state]; rintro ⟨⟩, by rintro - ⟨⟩⟩
    show Op.Leaves _ m' _
    rw [Op.leaves_bind, Op.leaves_get]
    refine Op.leaves_lift_bind.mpr ⟨fun plaintext hplaintext => ?_, fun _ _ => hprepared⟩
    refine Op.leaves_lift_bind.mpr ⟨fun ciphertext hciphertext => ?_, fun _ _ => hprepared⟩
    refine ⟨fun _ => ?_, by rintro ⟨⟩, by rintro ⟨⟩⟩
    obtain ⟨b, hheaders, hnonce⟩ := hbegun.headers
    rw [hbegun.payload] at hplaintext
    have hmade : EncCall.madePair k c encryptor externalAad m =
        .ok (m'.protectedRaw, ciphertext) := by
      rw [EncCall.madePair, hheaders]
      show (requirePlaintext m.payload _ >>= _) = _
      rw [hplaintext, Except.ok_bind, hnonce, Except.ok_bind, hbegun.aad, Except.ok_bind,
        hciphertext]
      rfl
    have hembeds : m'.ciphertextDetached = false := hbegun.embeds
    rw [EncCall.pair, hmade]
    show _ = some (m'.protectedRaw, if m'.ciphertextDetached then none else some ciphertext)
    rw [hembeds]
    rfl

/-- A ciphertext that is given out is not part of the message. -/
theorem encryptDetached_leaves (encryptor : Encryptor) (externalAad : Option Bytes)
    (m : EncMessage ρ) : (k.encryptDetached c encryptor externalAad).Leaves m fun r m' =>
      Outcome (EncCall.passesChecks k c (.encrypt encryptor externalAad) m)
        (EncCall.pair k c (.encryptDetached encryptor externalAad) m) m
        ((k.encrypt c encryptor externalAad).run m).1.isOk m' ∧
      (r.isOk = true → m'.ciphertextDetached = true) := by
  have h := encrypt_leaves (k := k) (c := c) encryptor externalAad m
  rw [encryptDetached, Op.leaves_bind]
  rw [Op.Leaves] at h ⊢
  generalize (k.encrypt c encryptor externalAad).run m = outcome at h ⊢
  obtain ⟨r, m'⟩ := outcome
  cases r with
  | error e => exact ⟨⟨by rintro ⟨⟩, h.dropped, h.kept⟩, by rintro ⟨⟩⟩
  | ok _ =>
    refine ⟨⟨fun _ => ?_, by rintro ⟨⟩, by rintro ⟨⟩⟩, fun _ => rfl⟩
    obtain ⟨made, hmade, hpair⟩ := Option.map_eq_some_iff.mp (h.stored rfl)
    rw [EncCall.pair, hmade]
    exact congrArg (fun p => some (p.1, none)) hpair

theorem encryptDetachedAndEncode_leaves (encryptor : Encryptor) (externalAad : Option Bytes)
    (m : EncMessage ρ) :
    (k.encryptDetachedAndEncode c encryptor externalAad).Leaves m fun _ m' =>
      Outcome (EncCall.passesChecks k c (.encrypt encryptor externalAad) m)
        (EncCall.pair k c (.encryptDetached encryptor externalAad) m) m
        ((k.encrypt c encryptor externalAad).run m).1.isOk m' := by
  rw [encryptDetachedAndEncode, Op.leaves_bind]
  refine (encryptDetached_leaves encryptor externalAad m).mono fun r m' h => ?_
  cases r with
  | error e => exact h.1
  | ok _ =>
    rw [Op.leaves_bind, Op.leaves_get]
    refine Op.leaves_lift_bind.mpr ⟨fun _ _ => h.1.followed ⟨rfl, rfl, ?_⟩, fun _ _ => h.1⟩
    -- the ciphertext is moved out of the message, which does not embed it
    rw [embedded, embedded, if_pos (h.2 rfl)]
    exact if_pos (h.2 rfl)

theorem setCiphertext_leaves (ciphertext : Bytes) (detached : Bool) (m : EncMessage ρ) :
    (k.setCiphertext c ciphertext detached).Leaves m fun r m' =>
      Outcome false (EncCall.pair k c (.setCiphertext ciphertext detached) m) m r.isOk m' := by
  rw [setCiphertext, Op.leaves_bind, Op.leaves_get]
  refine Op.leaves_lift_bind.mpr ⟨fun _ _ => ?_, fun _ _ => .of_sameCore (.refl m)⟩
  refine Op.leaves_lift_bind.mpr ⟨fun raw hraw => ⟨fun _ => ?_, by rintro ⟨⟩, by rintro ⟨⟩⟩,
    fun _ _ => .of_sameCore (.refl m)⟩
  rw [EncCall.pair, hraw]
  rfl

theorem decrypt_leaves (encryptor : Encryptor) (externalAad : Option Bytes)
    (m : EncMessage ρ) :
    (k.decrypt c encryptor externalAad).Leaves m fun _ m' => SameCore m m' := by
  rw [decrypt, Op.leaves_bind, Op.leaves_get]
  refine Op.leaves_lift_bind.mpr ⟨fun _ _ => ?_, fun _ _ => .refl m⟩
  refine Op.leaves_lift_bind.mpr ⟨fun _ _ => ?_, fun _ _ => .refl m⟩
  refine Op.leaves_lift_bind.mpr ⟨fun _ _ => ?_, fun _ _ => .refl m⟩
  exact Op.leaves_lift_bind.mpr ⟨fun _ _ => ⟨rfl, rfl, rfl⟩, fun _ _ => .refl m⟩

/-- A detached ciphertext may be remembered, but it is not encoded. -/
theorem decryptDetached_leaves (encryptor : Encryptor) (detachedCiphertext : Bytes)
    (externalAad : Option Bytes) (m : EncMessage ρ) :
    (k.decryptDetached c encryptor detachedCiphertext externalAad).Leaves m
      fun _ m' => SameCore m m' := by
  rw [decryptDetached, Op.leaves_bind, Op.leaves_get]
  refine Op.leaves_lift_bind.mpr ⟨fun _ _ => ?_, fun _ _ => .refl m⟩
  refine Op.leaves_lift_bind.mpr ⟨fun _ hdetached => ?_, fun _ _ => .refl m⟩
  refine Op.leaves_lift_bind.mpr ⟨fun _ _ => ?_, fun _ _ => .refl m⟩
  refine Op.leaves_lift_bind.mpr ⟨fun _ _ => ⟨rfl, rfl, ?_⟩, fun _ _ => .refl m⟩
  have hd : m.ciphertextDetached = true := by simpa using hdetached
  rw [embedded, embedded, if_pos hd]
  exact if_pos hd

/-- What is read holds the pair in the bytes it was read from. -/
theorem wirePair_of_fromSlice {data : Bytes} {m : EncMessage ρ} (h : k.fromSlice c data = .ok m) :
    EncCall.wirePair k c data = .ok (m.protectedRaw, m.embedded) := by
  obtain ⟨body, w, tp, tu, tciphertext, rest, hbody, hitem, hfields⟩ := fromSlice_reads h
  rw [EncCall.wirePair, hbody, Except.ok_bind, hitem]
  show ((c.byteBuf tp).mapError Error.cbor >>= fun raw =>
    (c.optionByteBuf tciphertext).mapError Error.cbor >>= fun ciphertext =>
      pure (raw, ciphertext)) = _
  rw [hfields.protectedRaw, hfields.embedded]
  rfl

/-- **What one call leaves behind.** -/
theorem run_outcome (call : EncCall ρ) (m : EncMessage ρ) :
    Outcome (call.passesChecks k c m) (call.pair k c m) m (call.stores k c m)
      (call.run k c m) := by
  cases call with
  | new payload => exact ⟨by rintro ⟨⟩, fun _ _ => by rintro ⟨⟩, by rintro - ⟨⟩⟩
  | fromSlice data =>
    rw [EncCall.run, EncCall.stores, EncCall.pair]
    cases hres : k.fromSlice c data with
    | ok m' =>
      refine ⟨fun _ => ?_, by rintro ⟨⟩, by rintro ⟨⟩⟩
      rw [wirePair_of_fromSlice hres]
      rfl
    | error e => exact .of_sameCore (.refl m)
  | edit p u payload recipients => exact .of_sameCore ⟨rfl, rfl, rfl⟩
  | prepareEncryption alg kid nonceSize baseIv externalAad =>
    obtain ⟨hbegun, hsame⟩ := prepareEncryption_leaves (k := k) (c := c) alg kid nonceSize baseIv
      externalAad m
    refine ⟨by rintro ⟨⟩, fun _ hpast => ?_, fun _ hfailed => hsame hfailed⟩
    obtain ⟨context, hcontext⟩ := Except.isOk_iff.mp hpast
    rw [EncCall.run, (hbegun context hcontext).state]
    rintro ⟨⟩
  | setCiphertext ciphertext detached => exact setCiphertext_leaves ciphertext detached m
  | encrypt encryptor externalAad => exact encrypt_leaves encryptor externalAad m
  | encryptDetached encryptor externalAad =>
    exact (encryptDetached_leaves encryptor externalAad m).1
  | encryptAndEncode encryptor externalAad =>
    rw [EncCall.run, encryptAndEncode, Op.run_bind_look]
    exact encrypt_leaves encryptor externalAad m
  | encryptDetachedAndEncode encryptor externalAad =>
    exact encryptDetachedAndEncode_leaves encryptor externalAad m
  | decrypt encryptor externalAad => exact .of_sameCore (decrypt_leaves encryptor externalAad m)
  | decryptDetached encryptor detachedCiphertext externalAad =>
    exact .of_sameCore (decryptDetached_leaves encryptor detachedCiphertext externalAad m)
  | read => exact .of_sameCore (.refl m)

theorem step_holds {h : EncMessage ρ × Option (Bytes × Option Bytes)} (hh : Holds h)
    (call : EncCall ρ) : Holds (k.step c (EncCall.passesChecks k c) h call) := by
  have hcall := run_outcome (k := k) (c := c) call h.1
  rw [step]
  intro hcomplete
  by_cases hs : call.stores k c h.1 = true
  · rw [if_pos hs]
    exact hcall.stored hs
  · have hs' : call.stores k c h.1 = false := Bool.not_eq_true _ ▸ hs
    rw [if_neg hs]
    by_cases hd : call.passesChecks k c h.1 = true
    · exact absurd hcomplete (hcall.dropped hs' hd)
    · obtain ⟨hstate, hraw, hembedded⟩ := hcall.kept hs' (Bool.not_eq_true _ ▸ hd)
      rw [if_neg hd]
      rw [show (call.run k c h.1).state = h.1.state from hstate] at hcomplete
      rw [hh hcomplete, hraw, hembedded]

/-- In every run, a complete message holds the pair that was stored last. -/
theorem history_holds (calls : List (EncCall ρ)) :
    Holds (k.history c (EncCall.passesChecks k c) calls) := by
  have hrun (h : EncMessage ρ × Option (Bytes × Option Bytes)) (hh : Holds h) :
      Holds (calls.foldl (k.step c (EncCall.passesChecks k c)) h) := by
    induction calls generalizing h with
    | nil => exact hh
    | cons call calls ih => exact ih _ (step_holds hh call)
  exact hrun _ (by rintro ⟨⟩)

theorem encode_ok {m : EncMessage ρ} {tagPrefix b : Bytes} :
    k.encode c m tagPrefix = .ok b ↔ m.state = .complete ∧
      k.validateRecipients m.recipients = .ok () ∧
      LayerOk c m.protectedHeader m.unprotectedHeader m.protectedRaw ∧
      ∃ unprotected, headerRaw c m.unprotectedHeader = .ok unprotected ∧
        ∃ recipients, k.writeRecipients m.recipients = .ok recipients ∧
          encodePrefixed c tagPrefix ([.value (.bytes m.protectedRaw), .raw unprotected,
            payloadPart m.embedded] ++ recipients) = .ok b := by
  rw [encode, Except.seq_eq_ok, Except.seq_eq_ok, Except.seq_eq_ok, requireComplete_ok,
    validateLayer_ok]
  simp only [Except.bind_eq_ok]

/-- In every run, what is encoded is the pair that was stored last. -/
theorem history_emitsStored (calls : List (EncCall ρ)) :
    k.EmitsStored c (k.history c (EncCall.passesChecks k c) calls) := by
  intro tagPrefix b h
  obtain ⟨hstate, -, hlayer, unprotected, -, recipients, -, hencoded⟩ := encode_ok.mp h
  obtain ⟨out, hout, hb⟩ := encodePrefixed_ok hencoded
  exact ⟨_, _, history_holds calls hstate, hlayer.denotes, unprotected, recipients, out, hout, hb⟩

/-- Calls that store nothing leave nothing stored where nothing was. -/
theorem pair_of_storesNothing {drops : EncCall ρ → EncMessage ρ → Bool}
    {h : EncMessage ρ × Option (Bytes × Option Bytes)} (hnone : h.2 = none)
    {calls : List (EncCall ρ)} (hcalls : k.StoresNothing c h.1 calls) :
    (calls.foldl (k.step c drops) h).2 = none := by
  induction calls generalizing h with
  | nil => exact hnone
  | cons call calls ih =>
    obtain ⟨hcall, hcalls⟩ := hcalls
    refine ih ?_ hcalls
    show (if call.stores k c h.1 then call.pair k c h.1 else if drops call h.1 then none
      else h.2) = none
    rw [hcall, hnone, if_neg Bool.false_ne_true, ite_self]

/-- **Only what was stored together is encoded.** -/
theorem encodesOnlyStored (k : EncType ρ) (c : Cbor2) : k.EncodesOnlyStored c where
  emits := history_emitsStored
  unfinished calls call later hstores hdrops hlater tagPrefix b hb := by
    obtain ⟨raw, ciphertext, hpair, -⟩ :=
      history_emitsStored (calls ++ call :: later) tagPrefix b hb
    have hnone : (k.step c (EncCall.passesChecks k c)
        (k.history c (EncCall.passesChecks k c) calls) call).2 = none := by
      show (if _ then _ else if _ then none else _) = none
      rw [hstores, hdrops, if_neg Bool.false_ne_true, if_pos rfl]
    rw [history, List.foldl_append, List.foldl_cons] at hpair
    cases (pair_of_storesNothing hnone hlater).symm.trans hpair
  edited calls raw ciphertext hpair hnot tagPrefix b hb := by
    obtain ⟨raw', ciphertext', hpair', hdenotes, -⟩ := history_emitsStored calls tagPrefix b hb
    cases hpair.symm.trans hpair'
    exact hnot hdenotes

end EncType

/-! ### All types -/

/-- **In every run of every type, only the pair that was stored last is encoded.** -/
theorem emitsStored (c : Cbor2) :
    sign1.EncodesOnlyStored c ∧ mac0.EncodesOnlyStored c ∧ (mac c).EncodesOnlyStored c ∧
      encrypt0.EncodesOnlyStored c ∧ (encrypt c).EncodesOnlyStored c :=
  ⟨sign1.encodesOnlyStored c, mac0.encodesOnlyStored c, (mac c).encodesOnlyStored c,
    encrypt0.encodesOnlyStored c, (encrypt c).encodesOnlyStored c⟩

/-- A ciphertext is set and an encryption begun without plaintext: the headers are
prepared, but the ciphertext is still encoded. -/
theorem not_emitsStored_past_headers :
    ¬ ∀ calls, encrypt0.EmitsStored Cbor2.reference
      (encrypt0.history Cbor2.reference (EncCall.passesHeaders encrypt0 Cbor2.reference)
        calls) := by
  intro h
  obtain ⟨b, hb⟩ := Except.isOk_iff.mp (show (encrypt0.encode Cbor2.reference
    (encrypt0.history Cbor2.reference (EncCall.passesHeaders encrypt0 Cbor2.reference)
      [.setCiphertext [7] false, .prepareEncryption none none 12 none none]).1 []).isOk = true
    from rfl)
  obtain ⟨raw, ciphertext, hlast, -⟩ := h _ [] b hb
  cases hlast

end Cose2

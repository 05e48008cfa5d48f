import Cose2.Forest
import Cose2.RecipientRules
import Cose2.Message.EncLifecycle

/-! # Trees of recipients

The recipients of a message are checked in two ways.  A list built by the caller goes
through `validate_message_recipients`, which walks the whole tree and counts its levels; a
list that is decoded is checked node by node while it is read, and then, by
`validate_decoded_recipients`, at its top.  Both establish the rules of every recipient
and of every list of siblings (`TreeOk`), and they agree on every tree that is not nested
too deeply.
-/
namespace Cose2.Recipient

open Cbor Forest

/-- The rules of every recipient and of every list of siblings, at every depth. -/
structure TreeOk (c : Cbor2) (rs : List Recipient) : Prop where
  nonempty : rs ≠ []
  each : ∀ n r, NodeAt Recipient.recipients n rs r → RecipientOk c r
  layers : ∀ n layer, LayerAt Recipient.recipients n rs layer → StandsAlone layer

/-- What is checked of each recipient by itself holds of all of them. -/
def LocallyValid (c : Cbor2) (rs : List Recipient) : Prop :=
  ∀ n r, NodeAt recipients n rs r → validateLocal c r = .ok ()

/-- The nesting stays within the bound of `validate_at_depth`. -/
def NestedWithin (bound : Nat) (rs : List Recipient) : Prop :=
  ∀ n r, NodeAt recipients n rs r → n ≤ bound

variable {c : Cbor2} {rs : List Recipient} {message : String}

theorem induction {P : Recipient → Prop} (h : ∀ r, (∀ q ∈ r.recipients, P q) → P r)
    (r : Recipient) : P r :=
  Recipient.rec (motive_1 := P) (motive_2 := fun rs => ∀ q ∈ rs, P q)
    (fun p u ct rs raw ih => h (.mk p u ct rs raw) ih) (by simp)
    (fun r rs hr hrs => List.forall_mem_cons.mpr ⟨hr, hrs⟩) r

/-! ### The walk over a tree -/

theorem validateAtDepth_ok {depth : Nat} {r : Recipient} :
    validateAtDepth c depth r = .ok () ↔ depth ≤ maxRecipientDepth ∧
      validateLocal c r = .ok () ∧ validateAllAtDepth c (depth + 1) r.recipients = .ok () := by
  obtain ⟨p, u, ct, rs, raw⟩ := r
  rw [validateAtDepth, Except.seq_eq_ok, Except.seq_eq_ok, Except.failIf_eq_ok, Nat.not_lt]
  rfl

theorem validateAllAtDepth_ok {depth : Nat} : validateAllAtDepth c depth rs = .ok () ↔
    ∀ r ∈ rs, validateAtDepth c depth r = .ok () := by
  induction rs with
  | nil => simp [validateAllAtDepth]
  | cons r rs ih => rw [validateAllAtDepth, Except.seq_eq_ok, ih, List.forall_mem_cons]

/-- The walk below a recipient that stands at the depth. -/
theorem validateAtDepth_iff (r : Recipient) (depth : Nat) :
    validateAtDepth c depth r = .ok () ↔
      (depth ≤ maxRecipientDepth ∧ validateLocal c r = .ok ()) ∧
        ∀ n q, NodeAt recipients n r.recipients q →
          depth + (n + 1) ≤ maxRecipientDepth ∧ validateLocal c q = .ok () := by
  induction r using induction generalizing depth with
  | h r ih =>
    have hbelow : (∀ q ∈ r.recipients, validateAtDepth c (depth + 1) q = .ok ()) ↔
        ∀ q ∈ r.recipients,
          (depth + (0 + 1) ≤ maxRecipientDepth ∧ validateLocal c q = .ok ()) ∧
            ∀ n s, NodeAt recipients n q.recipients s →
              depth + (n + 1 + 1) ≤ maxRecipientDepth ∧ validateLocal c s = .ok () := by
      refine forall₂_congr fun q hq => ?_
      rw [ih q hq]
      simp only [Nat.add_assoc, Nat.add_comm 1, Nat.zero_add]
    rw [validateAtDepth_ok, validateAllAtDepth_ok, hbelow, forall_nodeAt, and_assoc]

/-- The walk checks each recipient, and that none of them is nested too deeply. -/
theorem validateAllAtDepth_iff : validateAllAtDepth c 0 rs = .ok () ↔
    LocallyValid c rs ∧ NestedWithin maxRecipientDepth rs := by
  simp only [LocallyValid, NestedWithin, validateAllAtDepth_ok, validateAtDepth_iff,
    ← forall_and]
  rw [forall_nodeAt]
  simp only [Nat.zero_add, and_comm]

/-! ### What both ways establish -/

theorem requireRecipients_ok : requireRecipients rs message = .ok () ↔ rs ≠ [] := by
  rw [requireRecipients, Except.failIf_eq_ok, List.isEmpty_iff]

theorem treeOk_of_locallyValid (hlocal : LocallyValid c rs)
    (htop : validateDecodedRecipients rs message = .ok ()) : TreeOk c rs := by
  rw [validateDecodedRecipients, Except.seq_eq_ok, requireRecipients_ok] at htop
  exact {
    nonempty := htop.1
    each := fun n r hr => (validateLocal_ok (hlocal n r hr)).1
    layers := forall_layerAt (validateLayerRules_ok htop.2) fun n r hr =>
      (validateLocal_ok (hlocal n r hr)).2 }

/-- On trees that are not nested too deeply the two ways are one. -/
theorem validateMessageRecipients_ok : validateMessageRecipients c rs message = .ok () ↔
    (LocallyValid c rs ∧ validateDecodedRecipients rs message = .ok ()) ∧
      NestedWithin maxRecipientDepth rs := by
  rw [validateMessageRecipients, validateDecodedRecipients, Except.seq_eq_ok, Except.seq_eq_ok,
    Except.seq_eq_ok, validateAllAtDepth_iff]
  tauto

/-! ### Decoding -/

/-- The elements of an array are the fields of a recipient. -/
structure ReadsFields (c : Cbor2) (tp tu tc : Tree) (raw : Bytes) (p u : Header)
    (ct : Option Bytes) : Prop where
  protectedRaw : strictBytes c tp = .ok raw
  protectedHeader : decodeProtected c raw = .ok p
  unprotectedHeader : Header.deserialize c tu = .ok u
  ciphertext : strictOptionalBytes c tc = .ok ct

/-- The item has the form of the recipient, whatever the rules for recipients say. -/
inductive Spells (c : Cbor2) : Tree → Recipient → Prop
  | flat {w : Option Width} {tp tu tc : Tree} {raw : Bytes} {p u : Header} {ct : Option Bytes} :
      ReadsFields c tp tu tc raw p u ct →
      Spells c (.array w [tp, tu, tc]) (.mk p u ct [] (some raw))
  | nested {w w' : Option Width} {tp tu tc : Tree} {raw : Bytes} {p u : Header}
      {ct : Option Bytes} {items : List Tree} {rs : List Recipient} :
      ReadsFields c tp tu tc raw p u ct → rs ≠ [] → List.Forall₂ (Spells c) items rs →
      Spells c (.array w [tp, tu, tc, .array w' items]) (.mk p u ct rs (some raw))

theorem locallyValid_iff : LocallyValid c rs ↔
    ∀ r ∈ rs, validateLocal c r = .ok () ∧ LocallyValid c r.recipients :=
  forall_nodeAt

theorem assemble_ok {raw : Bytes} {u : Header} {ct : Option Bytes}
    {nested : Option (List Recipient)} {r : Recipient} :
    assemble c raw u ct nested = .ok r ↔ ∃ p, decodeProtected c raw = .ok p ∧
      r = .mk p u ct (nested.getD []) (some raw) ∧ validateLocal c r = .ok () := by
  rw [assemble, Except.bind_eq_ok]
  simp only [Except.mapError_eq_ok]
  refine exists_congr fun p => and_congr_right fun _ => ?_
  rw [Except.seq_eq_ok, Except.seq_eq_ok, Except.mapError_eq_ok, Except.mapError_eq_ok,
    Except.pure_eq_ok]
  constructor
  · rintro ⟨-, hlocal, rfl⟩
    exact ⟨rfl, hlocal⟩
  · rintro ⟨rfl, hlocal⟩
    refine ⟨?_, hlocal, rfl⟩
    -- `validate_local` begins with the buckets, so the check in front adds nothing
    rw [validateLocal, Except.seq_eq_ok] at hlocal
    exact hlocal.1

theorem deserializeAll_eq (ts : List Tree) : deserializeAll c ts = ts.mapM (deserialize c) := by
  induction ts with
  | nil => rfl
  | cons t ts ih =>
    rw [deserializeAll, List.mapM_cons, ih]

/-- The elements of an array that is read as a recipient. -/
theorem deserializeElements_ok {items : List Tree} {r : Recipient} :
    deserializeElements c items = .ok r ↔ validateLocal c r = .ok () ∧
      ∃ tp tu tc raw p u ct, ReadsFields c tp tu tc raw p u ct ∧
        ((items = [tp, tu, tc] ∧ r = .mk p u ct [] (some raw)) ∨
          ∃ w nested rs, items = [tp, tu, tc, .array w nested] ∧ rs ≠ [] ∧
            deserializeAll c nested = .ok rs ∧ r = .mk p u ct rs (some raw)) := by
  constructor
  · intro h
    unfold deserializeElements at h
    split at h
    · cases h
    · simp [Except.bind_eq_ok] at h
    · simp [Except.bind_eq_ok] at h
    · rename_i tp tu tc
      simp only [Except.bind_eq_ok, assemble_ok] at h
      obtain ⟨raw, hraw, u, hu, ct, hct, p, hp, rfl, hlocal⟩ := h
      exact ⟨hlocal, tp, tu, tc, raw, p, u, ct, ⟨hraw, hp, hu, hct⟩, .inl ⟨rfl, rfl⟩⟩
    · rename_i tp tu tc w nested rest
      simp only [Except.bind_eq_ok, assemble_ok, Except.failIf_eq_ok] at h
      obtain ⟨raw, hraw, u, hu, ct, hct, rs, hrs, _, hne, _, hrest, p, hp, rfl, hlocal⟩ := h
      rw [ne_eq, not_not] at hrest
      rw [List.isEmpty_iff] at hne
      subst hrest
      exact ⟨hlocal, tp, tu, tc, raw, p, u, ct, ⟨hraw, hp, hu, hct⟩,
        .inr ⟨w, nested, rs, rfl, hne, hrs, rfl⟩⟩
    · simp [Except.bind_eq_ok] at h
  · rintro ⟨hlocal, tp, tu, tc, raw, p, u, ct, hread,
      ⟨rfl, rfl⟩ | ⟨w, nested, rs, rfl, hne, hrs, rfl⟩⟩
    · rw [deserializeElements]
      simp only [hread.protectedRaw, hread.unprotectedHeader, hread.ciphertext, Except.ok_bind,
        assemble_ok]
      exact ⟨p, hread.protectedHeader, rfl, hlocal⟩
    · rw [deserializeElements]
      simp only [hread.protectedRaw, hread.unprotectedHeader, hread.ciphertext, hrs,
        Except.ok_bind]
      rw [Except.seq_eq_ok, Except.seq_eq_ok, Except.failIf_eq_ok, Except.failIf_eq_ok,
        assemble_ok, List.isEmpty_iff]
      exact ⟨hne, by simp, p, hread.protectedHeader, rfl, hlocal⟩

/-- The item is read as the recipient when it has its form and each of its recipients is
valid by itself. -/
def ReadsAs (c : Cbor2) (t : Tree) : Prop :=
  ∀ r, deserialize c t = .ok r ↔
    Spells c t r ∧ validateLocal c r = .ok () ∧ LocallyValid c r.recipients

theorem deserializeAll_of_readsAs {ts : List Tree} (h : ∀ t ∈ ts, ReadsAs c t) :
    deserializeAll c ts = .ok rs ↔ List.Forall₂ (Spells c) ts rs ∧ LocallyValid c rs := by
  rw [deserializeAll_eq, Except.mapM_eq_ok, locallyValid_iff]
  induction ts generalizing rs with
  | nil =>
    simp only [List.forall₂_nil_left_iff]
    constructor
    · rintro rfl
      simp
    · exact And.left
  | cons t ts ih =>
    rw [List.forall_mem_cons] at h
    simp only [List.forall₂_cons_left_iff, h.1 _, ih h.2]
    constructor
    · rintro ⟨r, rs, ⟨hr, hvalid⟩, ⟨hrs, hall⟩, rfl⟩
      exact ⟨⟨r, rs, hr, hrs, rfl⟩, List.forall_mem_cons.mpr ⟨hvalid, hall⟩⟩
    · rintro ⟨⟨r, rs, hr, hrs, rfl⟩, hall⟩
      rw [List.forall_mem_cons] at hall
      exact ⟨r, rs, ⟨hr, hall.1⟩, ⟨hrs, hall.2⟩, rfl⟩

theorem readsAs_array {w : Option Width} {items : List Tree}
    (h : ∀ w' nested, .array w' nested ∈ items → ∀ t ∈ nested, ReadsAs c t) :
    ReadsAs c (.array w items) := by
  intro r
  rw [deserialize, deserializeElements_ok]
  constructor
  · rintro ⟨hlocal, tp, tu, tc, raw, p, u, ct, hread,
      ⟨rfl, rfl⟩ | ⟨w', nested, rs, rfl, hne, hrs, rfl⟩⟩
    · exact ⟨.flat hread, hlocal, locallyValid_iff.mpr (by simp [recipients])⟩
    · rw [deserializeAll_of_readsAs (h w' nested (by simp))] at hrs
      exact ⟨.nested hread hne hrs.1, hlocal, hrs.2⟩
  · rintro ⟨hspells, hlocal, hvalid⟩
    refine ⟨hlocal, ?_⟩
    cases hspells with
    | flat hread => exact ⟨_, _, _, _, _, _, _, hread, .inl ⟨rfl, rfl⟩⟩
    | @nested _ w' _ _ _ _ _ _ _ nested rs hread hne hrs =>
      refine ⟨_, _, _, _, _, _, _, hread, .inr ⟨w', nested, rs, rfl, hne, ?_, rfl⟩⟩
      exact (deserializeAll_of_readsAs (h w' nested (by simp))).mpr ⟨hrs, hvalid⟩

theorem readsAs (t : Tree) : ReadsAs c t := by
  -- nested recipients stand two levels below, so the children are carried along
  suffices h : ReadsAs c t ∧ ∀ s ∈ t.children, ReadsAs c s from h.1
  induction t using Tree.induction with
  | h t ih =>
    refine ⟨?_, fun s hs => (ih s hs).1⟩
    cases t with
    | array w items => exact readsAs_array fun w' nested hmem => (ih _ hmem).2
    | _ =>
      intro r
      constructor
      · intro h
        cases h
      · rintro ⟨⟨⟩, -⟩

/-- Reading recipients is reading their form, and checking each of them by itself. -/
theorem deserializeAll_ok {ts : List Tree} : deserializeAll c ts = .ok rs ↔
    List.Forall₂ (Spells c) ts rs ∧ LocallyValid c rs :=
  deserializeAll_of_readsAs fun t _ => readsAs t

theorem locallyValid_of_readRecipientList {rest : List Tree}
    (h : readRecipientList c rest = .ok rs) : LocallyValid c rs := by
  unfold readRecipientList at h
  split at h
  · exact (deserializeAll_ok.mp h).2
  · cases h

end Cose2.Recipient

namespace Cose2

open Cbor Forest Recipient

/-- Whichever way a tree of recipients came into a message, the rules hold at every depth
of it; and a tree within the bound on its nesting passes one way exactly when it passes
the other. -/
theorem recipientTrees_ok (c : Cbor2) :
    (∀ rs message, validateMessageRecipients c rs message = .ok () → TreeOk c rs) ∧
      (∀ data m, (mac c).fromSlice c data = .ok m → TreeOk c m.recipients) ∧
      (∀ data m, (encrypt c).fromSlice c data = .ok m → TreeOk c m.recipients) ∧
      (∀ rs message, NestedWithin maxRecipientDepth rs →
        (validateMessageRecipients c rs message = .ok () ↔
          LocallyValid c rs ∧ validateDecodedRecipients rs message = .ok ())) ∧
      ∀ items rs message, List.Forall₂ (Spells c) items rs →
        NestedWithin maxRecipientDepth rs →
        (validateMessageRecipients c rs message = .ok () ↔
          deserializeAll c items = .ok rs ∧ validateDecodedRecipients rs message = .ok ()) := by
  refine ⟨?_, ?_, ?_, ?_, ?_⟩
  · intro rs message h
    obtain ⟨⟨hlocal, htop⟩, -⟩ := validateMessageRecipients_ok.mp h
    exact treeOk_of_locallyValid hlocal htop
  · intro data m h
    obtain ⟨_, _, _, _, _, _, _, -, -, hfields⟩ := AuthType.fromSlice_reads h
    exact treeOk_of_locallyValid (locallyValid_of_readRecipientList hfields.recipients)
      hfields.checked
  · intro data m h
    obtain ⟨_, _, _, _, _, _, -, -, hfields⟩ := EncType.fromSlice_reads h
    exact treeOk_of_locallyValid (locallyValid_of_readRecipientList hfields.recipients)
      hfields.checked
  · intro rs message hnested
    rw [validateMessageRecipients_ok, and_iff_left hnested]
  · intro items rs message hspells hnested
    rw [validateMessageRecipients_ok, and_iff_left hnested, deserializeAll_ok,
      and_iff_right hspells]

/-! ### A tree of three levels -/

/-- `{1: 1, -1: 4, -2: h'0909…'}`. -/
def senderKey : Value :=
  .map [((Label.int 1).toValue, (Label.int 1).toValue),
    ((Label.int (-1)).toValue, (Label.int 4).toValue),
    ((Label.int (-2)).toValue, .bytes (List.replicate 32 9))]

/-- Two recipients with wrapped keys.  The key of the first is wrapped with an agreed one, and
the key of that recipient with one that is used directly. -/
def nestedRecipients : List Recipient :=
  [.mk ∅ (Header.setAlg ∅ Iana.algorithmA128KW) (some [1])
      [.mk (Header.setAlg ∅ Iana.algorithmECDH_ES_A128KW)
        (BTreeMap.ofList [(Iana.headerAlgorithmParameterEphemeralKey, senderKey)]) (some [2])
        [.mk ∅ (Header.setAlg ∅ Iana.algorithmDirect) (some []) [] (some [])]
        (some [0xa1, 0x01, 0x38, 0x1c])] (some []),
    .mk ∅ (Header.setAlg ∅ Iana.algorithmA128KW) (some [3]) [] (some [])]

/-- The same as they are encoded. -/
def nestedValues : List Value :=
  let wraps := .map [((Label.int 1).toValue, Iana.algorithmA128KW.toValue)]
  let direct := .map [((Label.int 1).toValue, Iana.algorithmDirect.toValue)]
  let agrees := .map [((Label.int (-1)).toValue, senderKey)]
  [.array [.bytes [], wraps, .bytes [1],
      .array [.array [.bytes [0xa1, 0x01, 0x38, 0x1c], agrees, .bytes [2],
        .array [.array [.bytes [], direct, .bytes []]]]]],
    .array [.bytes [], wraps, .bytes [3]]]

theorem spells_nested : List.Forall₂ (Spells Cbor2.reference) (nestedValues.map Value.toTree)
    nestedRecipients :=
  .cons (.nested ⟨rfl, rfl, rfl, rfl⟩ (List.cons_ne_nil _ _)
      (.cons (.nested ⟨rfl, rfl, rfl, rfl⟩ (List.cons_ne_nil _ _)
        (.cons (.flat ⟨rfl, rfl, rfl, rfl⟩) .nil)) .nil))
    (.cons (.flat ⟨rfl, rfl, rfl, rfl⟩) .nil)

/-- The tree is built, read in a message with a tag and in an encrypted one, and passes both
ways. -/
theorem recipientTrees_ok_nested :
    TreeOk Cbor2.reference nestedRecipients ∧
      (∃ m, (mac Cbor2.reference).fromSlice Cbor2.reference ([0xd8, 0x61, 0x85, 0x40, 0xa0, 0x41,
        0x00, 0x41, 0x00] ++ (Value.array nestedValues).encode) = .ok m ∧
        TreeOk Cbor2.reference m.recipients) ∧
      (∃ m, (encrypt Cbor2.reference).fromSlice Cbor2.reference ([0xd8, 0x60, 0x84, 0x40, 0xa0,
        0x41, 0x00] ++ (Value.array nestedValues).encode) = .ok m ∧
        TreeOk Cbor2.reference m.recipients) ∧
      LocallyValid Cbor2.reference nestedRecipients ∧
      deserializeAll Cbor2.reference (nestedValues.map Value.toTree) = .ok nestedRecipients := by
  obtain ⟨hbuilt, hmac, hencrypt, hways, hspelled⟩ := recipientTrees_ok Cbor2.reference
  have hvalid : validateMessageRecipients Cbor2.reference nestedRecipients "MacMessage" =
      .ok () := by decide +kernel
  have hwithin := (validateMessageRecipients_ok.mp hvalid).2
  refine ⟨hbuilt _ _ hvalid, ?_, ?_, ((hways _ _ hwithin).mp hvalid).1,
    ((hspelled _ _ _ spells_nested hwithin).mp hvalid).1⟩
  · obtain ⟨m, hm⟩ := Except.isOk_iff.mp (show ((mac Cbor2.reference).fromSlice Cbor2.reference
      ([0xd8, 0x61, 0x85, 0x40, 0xa0, 0x41, 0x00, 0x41, 0x00] ++
        (Value.array nestedValues).encode)).isOk = true by decide +kernel)
    exact ⟨m, hm, hmac _ m hm⟩
  · obtain ⟨m, hm⟩ := Except.isOk_iff.mp (show ((encrypt Cbor2.reference).fromSlice
      Cbor2.reference ([0xd8, 0x60, 0x84, 0x40, 0xa0, 0x41, 0x00] ++
        (Value.array nestedValues).encode)).isOk = true by decide +kernel)
    exact ⟨m, hm, hencrypt _ m hm⟩

end Cose2

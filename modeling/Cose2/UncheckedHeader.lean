import Cose2.Header
import Cose2.Strict.Hereditary
import Cose2.Strict.MessageShape

/-! # Headers that are not checked twice

`message_body` has checked a message with the strict parser, so that the decoders
read the unprotected headers of its layers without a second strict pass.  The pass
left out would not have refused anything, because every part of an accepted message
is accepted.
-/
namespace Cose2

open Cbor

/-- `RawValue` holds the very bytes of the item it is deserialized from. -/
structure Cbor2.CapturesRaw (c : Cbor2) : Prop where
  raw : ∀ {t : Tree}, t.WellFormed → c.rawValue t = .ok t.bytes

theorem Cbor2.reference_capturesRaw : Cbor2.reference.CapturesRaw where
  raw _ := rfl

/-- A header decoded from a byte string by `deserialize_checked`. -/
def Header.uncheckedFromSlice (c : Cbor2) (data : Bytes) : Except Error Header :=
  (do Header.deserializeChecked c (← c.item data)).mapError .cbor

/-- The layers of a message: the message itself, and the signatures or recipients in
the arrays behind the third element of a layer. -/
inductive IsLayer (message : Tree) : Tree → Prop
  | message : IsLayer message message
  | inside {w w' : Option Width} {items layers : List Tree} {layer : Tree}
      (h : IsLayer message (.array w items)) (hitem : .array w' layers ∈ items.drop 3)
      (hlayer : layer ∈ layers) : IsLayer message layer

theorem Strict.Wrapped.occurs {tag : Nat} {message t : Tree}
    (h : Strict.Wrapped tag message t) : Tree.Occurs message t := by
  have htagged {t : Tree} (h : Strict.Tagged tag message t) : Tree.Occurs message t := by
    cases h with
    | bare => exact .refl
    | tagged w => exact .child (List.mem_singleton_self _) .refl
    | cwt w w' =>
      exact .child (List.mem_singleton_self _) (.child (List.mem_singleton_self _) .refl)
  cases h with
  | plain h => exact htagged h
  | selfDescribed w h => exact .child (List.mem_singleton_self _) (htagged h)

theorem IsLayer.occurs {message layer : Tree} (h : IsLayer message layer) :
    Tree.Occurs layer message := by
  induction h with
  | message => exact .refl
  | inside _ hitem hlayer ih =>
    apply Strict.occurs_trans _ ih
    exact .child (List.mem_of_mem_drop hitem) (.child hlayer .refl)

section

variable {c : Cbor2}

/-- Only maps are read as maps. -/
theorem CoseMap.kind_of_deserializeChecked {t : Tree} {m : CoseMap}
    (h : CoseMap.deserializeChecked c t = .ok m) : Strict.kindOf t = .map := by
  cases t with
  | map => rfl
  | int | str | chunked | array | tag | prim => cases h

/-- The second strict pass over an accepted input only asks whether it is a map. -/
theorem validateMap_of_root {data : Bytes} {it : Strict.Item} (hread : c.ReadsItems)
    (h : Strict.root c data {} = .ok it) {t : Tree} (ht : c.item data = .ok t)
    (hk : Strict.kindOf t = .map) : Strict.validateMap c data = .ok () := by
  obtain ⟨t', hdata, hfits, -, -, rfl⟩ := (Strict.rootWithDuplicatePolicy_ok c).mp h
  obtain ⟨hwf, hdata'⟩ := hread.sound ht
  obtain rfl := bytes_inj hwf.fits hfits (hdata'.symm.trans hdata)
  refine Except.bind_eq_ok.mpr ⟨_, h, ?_⟩
  rw [Except.failIf_eq_ok, not_not, Strict.itemAt_kind]
  exact hk

theorem Header.deserializeChecked_eq_ok {t : Tree} {header : Header} :
    Header.deserializeChecked c t = .ok header ↔
      CoseMap.deserializeChecked c t = .ok header ∧ header.validateCommon = .ok () := by
  simp only [Header.deserializeChecked, Except.bind_eq_ok, Except.mapError_eq_ok,
    Except.pure_eq_ok]
  constructor
  · rintro ⟨_, hm, _, hvalid, rfl⟩
    exact ⟨hm, hvalid⟩
  · rintro ⟨hm, hvalid⟩
    exact ⟨header, hm, (), hvalid, rfl⟩

/-- `Header::from_slice` reads an accepted input as the unchecked path does. -/
theorem fromSlice_iff_unchecked {data : Bytes} {it : Strict.Item} (hread : c.ReadsItems)
    (h : Strict.root c data {} = .ok it) {header : Header} :
    Header.uncheckedFromSlice c data = .ok header ↔ Header.fromSlice c data = .ok header := by
  simp only [Header.uncheckedFromSlice, Header.fromSlice, CoseMap.fromSlice,
    Except.mapError_eq_ok, Except.bind_eq_ok, Except.pure_eq_ok, Header.deserializeChecked_eq_ok]
  constructor
  · rintro ⟨t, ht, hm, hvalid⟩
    have hmap := validateMap_of_root hread h ht (CoseMap.kind_of_deserializeChecked hm)
    exact ⟨header, ⟨(), hmap, t, ht, hm⟩, (), hvalid, rfl⟩
  · rintro ⟨_, ⟨_, -, t, ht, hm⟩, _, hvalid, rfl⟩
    exact ⟨t, ht, hm, hvalid⟩

/-- So does `Header::deserialize`. -/
theorem deserialize_iff_unchecked {data : Bytes} {it : Strict.Item} (hread : c.ReadsItems)
    (hraw : c.CapturesRaw) (h : Strict.root c data {} = .ok it) {t : Tree}
    (ht : c.item data = .ok t) {header : Header} :
    Header.deserializeChecked c t = .ok header ↔ Header.deserialize c t = .ok header := by
  obtain ⟨hwf, hdata⟩ := hread.sound ht
  have hrawt : c.rawValue t = .ok data := by rw [hraw.raw hwf, hdata]
  simp only [Header.deserialize, CoseMap.deserialize, hrawt, ht, Except.ok_bind,
    Except.mapError_eq_ok, Except.bind_eq_ok, Except.pure_eq_ok, Header.deserializeChecked_eq_ok]
  constructor
  · rintro ⟨hm, hvalid⟩
    have hmap := validateMap_of_root hread h ht (CoseMap.kind_of_deserializeChecked hm)
    exact ⟨header, ⟨(), hmap, hm⟩, (), hvalid, rfl⟩
  · rintro ⟨_, ⟨_, -, hm⟩, _, hvalid, rfl⟩
    exact ⟨hm, hvalid⟩

/-- Only the tags of the message types are accepted. -/
theorem isMessageTag_of_messageBody {data : Bytes} {tag : Nat} {limits : CborLimits}
    {body : Bytes} (h : Strict.messageBody c data tag limits = .ok body) :
    Strict.IsMessageTag tag := by
  simp only [Strict.messageBody, Except.bind_eq_ok] at h
  obtain ⟨_, -, _, -, _, hshape, -⟩ := h
  obtain ⟨_, hexpected, -⟩ := Except.bind_eq_ok.mp hshape
  unfold Strict.expectedElements at hexpected
  unfold Strict.IsMessageTag
  split_ifs at hexpected with h₁ h₂ h₃
  · exact .inl h₁
  · rcases h₂ with h | h | h | h <;> simp [h]
  · simp [h₃]

/-- **The unprotected headers of a message that `message_body` accepts need no second
strict pass: every part of the message is accepted, so that the unchecked path and
the checked ones read the same headers from them.** -/
theorem uncheckedHeaders_sound (hread : c.ReadsItems) (hraw : c.CapturesRaw) :
    (∀ (data : Bytes) (tag : Nat) (limits : CborLimits) (body : Bytes),
      limits.maxDepth ≤ defaultMaxDepth → limits.maxItems ≤ defaultMaxItems →
      Strict.messageBody c data tag limits = .ok body →
      ∃ message : Tree, body = message.bytes ∧ Strict.IsMessage Strict.TakenForNull tag message ∧
        ∀ w p u rest, IsLayer message (.array w (p :: u :: rest)) → ∀ header,
          (Header.uncheckedFromSlice c u.bytes = .ok header ↔
            Header.fromSlice c u.bytes = .ok header) ∧
          (∀ t, c.item u.bytes = .ok t → (Header.deserializeChecked c t = .ok header ↔
            Header.deserialize c t = .ok header))) ∧
    ∀ (data : Bytes) (limits : CborLimits) (reject : Bool) (it : Strict.Item),
      Strict.rootWithDuplicatePolicy c data limits reject = .ok it →
      ∃ t, Strict.AcceptsParts c data limits reject t := by
  refine ⟨?_, fun _ _ _ _ h => Strict.acceptsParts c h⟩
  intro data tag limits body hdepth hitems hbody
  have htag := isMessageTag_of_messageBody hbody
  obtain ⟨it, hroot, -⟩ := Except.bind_eq_ok.mp hbody
  obtain ⟨t, hdata, hfits, hlimits, hkeys, rfl⟩ :=
    (Strict.rootWithDuplicatePolicy_ok c).mp hroot
  obtain ⟨message, hwrapped, hm, rfl⟩ :=
    (Strict.messageBody_iff c hroot hdata htag body).mp hbody
  refine ⟨message, rfl, hm, ?_⟩
  intro w p u rest hlayer header
  have hu : Tree.Occurs u t := by
    apply Strict.occurs_trans _ hwrapped.occurs
    apply Strict.occurs_trans _ hlayer.occurs
    exact .child (List.mem_cons_of_mem _ List.mem_cons_self) .refl
  -- the limits of the second pass are the defaults
  have hdefault : Strict.WithinLimits {} t :=
    ⟨hlimits.depth.trans hdepth, hlimits.items.trans hitems, by simp⟩
  have haccepted := Strict.rootWithDuplicatePolicy_of_occurs c hfits hdefault hkeys hu
  exact ⟨fromSlice_iff_unchecked hread haccepted,
    fun _ ht => deserialize_iff_unchecked hread hraw haccepted ht⟩

end

/-- A `COSE_Sign` whose body and whose signature have a key id, and the items of a `COSE_Mac`
with a recipient. -/
theorem uncheckedHeaders_sound_sign :
    (∃ message : Tree, [0x84, 0x40, 0xa1, 0x04, 0x41, 0x01, 0xf6, 0x81, 0x83, 0x40, 0xa1, 0x04,
        0x41, 0x02, 0x40] = message.bytes ∧
      Strict.IsMessage Strict.TakenForNull 98 message ∧
      ∀ w p u rest, IsLayer message (.array w (p :: u :: rest)) → ∀ header,
        (Header.uncheckedFromSlice Cbor2.reference u.bytes = .ok header ↔
          Header.fromSlice Cbor2.reference u.bytes = .ok header) ∧
        (∀ t, Cbor2.reference.item u.bytes = .ok t →
          (Header.deserializeChecked Cbor2.reference t = .ok header ↔
            Header.deserialize Cbor2.reference t = .ok header))) ∧
    ∃ t, Strict.AcceptsParts Cbor2.reference [0xd8, 0x61, 0x85, 0x40, 0xa1, 0x04, 0x41, 0x01, 0xf6,
      0x40, 0x81, 0x83, 0x40, 0xa1, 0x04, 0x41, 0x02, 0x40] {} true t :=
  have hsound := uncheckedHeaders_sound Cbor2.reference_readsItems Cbor2.reference_capturesRaw
  ⟨hsound.1 [0xd8, 0x62, 0x84, 0x40, 0xa1, 0x04, 0x41, 0x01, 0xf6, 0x81, 0x83, 0x40, 0xa1, 0x04,
      0x41, 0x02, 0x40] 98 {} _ (le_refl _) (le_refl _) rfl,
    hsound.2 _ {} true _ rfl⟩

end Cose2

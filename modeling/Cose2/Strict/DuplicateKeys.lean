import Cose2.CoseMap
import Cose2.Strict.Grammar

/-! # Duplicate map keys

With duplicate rejection on, the parser compares map keys by the bytes of
`canonicalKey`: as they are written when they are short integers or strings, and
decoded and encoded again otherwise.  Under the laws of the CBOR library this
compares data items, however they are written.  The only keys it does not look
into are the short ones, so a short text string that is not UTF-8 passes.
-/
namespace Cose2.Strict

open Cbor

/-! ### Equal keys -/

/-- Two encoded items denote the same data item. -/
def SameItem (k k' : Tree) : Prop :=
  k.bytes = k'.bytes ∨ ∃ d d', k.value = some d ∧ k'.value = some d' ∧ d.norm = d'.norm

/-- A map with two keys that denote the same data item. -/
def HasDuplicateKey : Tree → Prop
  | .map _ entries => ∃ e e', [e, e'].Sublist entries ∧ SameItem e.1 e'.1
  | _ => False

/-- `cbor2` decodes the key. -/
def Decodes (c : Cbor2) (key : Tree) : Prop := ∃ v, c.fromSlice key.bytes = .ok v

/-- A map with a key that `cbor2` does not decode. -/
def HasUndecodableKey (c : Cbor2) : Tree → Prop
  | .map _ entries => ∃ e ∈ entries, ¬ Decodes c e.1
  | _ => False

/-- A map with a key that the parser passes to `cbor2`, which does not decode it. -/
def HasRefusedKey (c : Cbor2) : Tree → Prop
  | .map _ entries => ∃ e ∈ entries, ¬ e.1.IsPreferredScalar ∧ ¬ Decodes c e.1
  | _ => False

/-- Turning duplicate rejection on rejects accepted input exactly when a map
somewhere in it has a duplicate key or is `bad`. -/
def RejectsExactly (c : Cbor2) (bad : Tree → Prop) (data : Bytes) (limits : CborLimits) : Prop :=
  ∀ it, rootWithDuplicatePolicy c data limits false = .ok it →
    ((∃ e, rootWithDuplicatePolicy c data limits true = .error e) ↔
      ∃ t s : Tree, data = t.bytes ∧ t.Fits ∧ s.Occurs t ∧ (HasDuplicateKey s ∨ bad s))

section Laws

variable {c : Cbor2} (hr : c.ReadsItems) (hc : c.Canonicalizes)
include hr hc

/-- A decoded key is compared by the deterministic encoding of its value. -/
theorem canonicalVec_fromSlice {t : Tree} (ht : t.Fits) {v : Value}
    (h : c.fromSlice t.bytes = .ok v) :
    ∃ d, t.value = some d ∧ c.canonicalVec v = .ok d.canonical := by
  rw [Cbor2.fromSlice, Except.mapError_eq_ok, Except.bind_eq_ok] at h
  obtain ⟨t', hitem, hvalue⟩ := h
  obtain ⟨hwf, hbytes⟩ := hr.sound hitem
  rw [← bytes_inj ht hwf.fits hbytes] at hvalue
  obtain ⟨d, hd, hcan⟩ := hc.of_value hvalue
  exact ⟨d, hd, Except.mapError_eq_ok.mpr hcan⟩

/-- What a key is compared by: its deterministic encoding, or the bytes of a
scalar that has no value. -/
theorem treeKey_ok {t : Tree} (ht : t.Fits) {k : Bytes} (h : treeKey c t = .ok k) :
    (∃ d, t.value = some d ∧ k = d.canonical) ∨ (t.value = none ∧ k = t.bytes) := by
  rw [treeKey] at h
  split_ifs at h with hp
  · cases h
    cases hd : t.value with
    | none => exact .inr ⟨rfl, rfl⟩
    | some d => exact .inl ⟨d, rfl, by rw [Value.canonical, Value.encode, hp.toTree hd]⟩
  · obtain ⟨v, hv, hk⟩ := Except.bind_eq_ok.mp h
    obtain ⟨d, hd, hcan⟩ := canonicalVec_fromSlice hr hc ht hv
    rw [hcan] at hk
    cases hk
    exact .inl ⟨d, hd, rfl⟩

/-- A key cannot be compared when `cbor2` is asked and does not decode it. -/
theorem treeKey_fails {t : Tree} (ht : t.Fits) :
    (¬ ∃ k, treeKey c t = .ok k) ↔ ¬ t.IsPreferredScalar ∧ ¬ Decodes c t := by
  rw [treeKey]
  by_cases hp : t.IsPreferredScalar
  · simp [hp]
  · rw [if_neg hp]
    refine ⟨fun h => ⟨hp, ?_⟩, fun h => ?_⟩
    · rintro ⟨v, hv⟩
      obtain ⟨d, -, hcan⟩ := canonicalVec_fromSlice hr hc ht hv
      exact h ⟨_, by rw [hv, Except.ok_bind, hcan]⟩
    · rintro ⟨k, hk⟩
      obtain ⟨v, hv, -⟩ := Except.bind_eq_ok.mp hk
      exact h.2 ⟨v, hv⟩

/-- **Keys are equal exactly when they denote the same data item.** -/
theorem treeKey_inj {t t' : Tree} (ht : t.Fits) (ht' : t'.Fits)
    (hlen : t.bytes.length < 18446744073709551616)
    (hlen' : t'.bytes.length < 18446744073709551616) {k k' : Bytes}
    (h : treeKey c t = .ok k) (h' : treeKey c t' = .ok k') :
    k = k' ↔ SameItem t t' := by
  -- A scalar without a value is not the deterministic encoding of one.
  have apart {t t' : Tree} (ht : t.Fits) (ht' : t'.Fits)
      (hlen : t.bytes.length < 18446744073709551616) {d : Value} (hd : t.value = some d)
      (hd' : t'.value = none) : d.canonical ≠ t'.bytes := by
    intro heq
    have hw := (Tree.value_writable hlen hd).norm
    rw [← bytes_inj hw.wellFormed.fits ht' heq, Value.value_toTree] at hd'
    cases hd'
  constructor
  · rintro rfl
    rcases treeKey_ok hr hc ht h with ⟨d, hd, rfl⟩ | ⟨hd, rfl⟩
    · rcases treeKey_ok hr hc ht' h' with ⟨d', hd', hk⟩ | ⟨hd', hk⟩
      · exact .inr ⟨d, d', hd, hd', (Value.canonical_inj (Tree.value_writable hlen hd)
          (Tree.value_writable hlen' hd')).mp hk⟩
      · exact absurd hk (apart ht ht' hlen hd hd')
    · rcases treeKey_ok hr hc ht' h' with ⟨d', hd', hk⟩ | ⟨-, hk⟩
      · exact absurd hk.symm (apart ht' ht hlen' hd' hd)
      · exact .inl hk
  · rintro (hbytes | ⟨d, d', hd, hd', hnorm⟩)
    · rw [bytes_inj ht ht' hbytes, h'] at h
      exact (Except.ok.inj h).symm
    · rcases treeKey_ok hr hc ht h with ⟨e, he, rfl⟩ | ⟨he, -⟩
      · rcases treeKey_ok hr hc ht' h' with ⟨e', he', rfl⟩ | ⟨he', -⟩
        · rw [hd] at he
          rw [hd'] at he'
          cases he
          cases he'
          rw [Value.canonical, Value.canonical, hnorm]
        · rw [hd'] at he'
          cases he'
      · rw [hd] at he
        cases he

/-- The keys of a map cannot be compared or are not distinct exactly when two of them
denote the same item or one of them is refused. -/
theorem not_distinctKeys_iff {s : Tree} (hs : s.Fits)
    (hlen : s.bytes.length < 18446744073709551616) :
    ¬ DistinctKeys c s ↔ HasDuplicateKey s ∨ HasRefusedKey c s := by
  cases s with
  | int | str | chunked | array | tag | prim =>
    simp [DistinctKeys, HasDuplicateKey, HasRefusedKey]
  | map w entries =>
    have hfits (e : Tree × Tree) (he : e ∈ entries) :
        e.1.Fits ∧ e.1.bytes.length < 18446744073709551616 := by
      have hmem : e.1 ∈ (Cbor.Tree.map w entries).children := List.mem_flatMap.mpr ⟨e, he, by simp⟩
      exact ⟨hs.child hmem, (Tree.length_lt_of_mem hmem).trans hlen⟩
    have hpairwise : ¬ HasDuplicateKey (.map w entries) ↔
        entries.Pairwise fun e e' => ¬ SameItem e.1 e'.1 := by
      rw [List.pairwise_iff_forall_sublist, HasDuplicateKey]
      push Not
      exact Iff.rfl
    have hcompared : ¬ HasRefusedKey c (.map w entries) ↔
        ∃ ks, List.Forall₂ (fun e k => treeKey c e.1 = .ok k) entries ks := by
      rw [Tree.exists_forall₂_iff, HasRefusedKey]
      constructor
      · intro h e he
        by_contra hk
        exact h ⟨e, he, (treeKey_fails hr hc (hfits e he).1).mp hk⟩
      · rintro h ⟨e, he, hrefused⟩
        exact (treeKey_fails hr hc (hfits e he).1).mpr hrefused (h e he)
    have hnodup {ks : List Bytes}
        (h : List.Forall₂ (fun e k => treeKey c e.1 = .ok k) entries ks) :
        (entries.Pairwise fun e e' => ¬ SameItem e.1 e'.1) ↔ ks.Nodup :=
      Tree.forall₂_pairwise h fun e he e' he' k k' hk hk' => not_congr
        (treeKey_inj hr hc (hfits e he).1 (hfits e' he').1 (hfits e he).2 (hfits e' he').2
          hk hk').symm
    rw [← not_iff_not, not_not, not_or, hpairwise, hcompared, DistinctKeys]
    constructor
    · rintro ⟨ks, hks, hd⟩
      exact ⟨(hnodup hks).mpr hd, ks, hks⟩
    · rintro ⟨hd, ks, hks⟩
      exact ⟨ks, hks, (hnodup hks).mp hd⟩

/-- Turning duplicate rejection on rejects accepted input exactly when a map in it has
a duplicate key or a key that is refused. -/
theorem rejectsExactly {data : Bytes} (hlen : data.length < 18446744073709551616)
    (limits : CborLimits) : RejectsExactly c (HasRefusedKey c) data limits := by
  intro it hoff
  obtain ⟨t, rfl, ht, hlimits, -, rfl⟩ := (rootWithDuplicatePolicy_ok c).mp hoff
  have hon : (∃ e, rootWithDuplicatePolicy c t.bytes limits true = .error e) ↔ ¬ KeysOk c t := by
    cases hres : rootWithDuplicatePolicy c t.bytes limits true with
    | error e =>
      refine ⟨fun _ hkeys => ?_, fun _ => ⟨e, rfl⟩⟩
      have hok : rootWithDuplicatePolicy c t.bytes limits true = .ok (itemAt 0 t) :=
        (rootWithDuplicatePolicy_ok c).mpr ⟨t, rfl, ht, hlimits, fun _ => hkeys, rfl⟩
      rw [hres] at hok
      cases hok
    | ok it =>
      obtain ⟨t', hbytes, ht', -, hkeys, -⟩ := (rootWithDuplicatePolicy_ok c).mp hres
      rw [← bytes_inj ht ht' hbytes] at hkeys
      refine ⟨fun h => ?_, fun h => absurd (hkeys rfl) h⟩
      obtain ⟨e, he⟩ := h
      cases he
  rw [hon, KeysOk, Tree.not_all_iff]
  have hnode (s : Tree) (hs : s.Occurs t) :
      ¬ DistinctKeys c s ↔ HasDuplicateKey s ∨ HasRefusedKey c s :=
    not_distinctKeys_iff hr hc (ht.of_occurs hs) (hs.length_le.trans_lt hlen)
  constructor
  · rintro ⟨s, hs, hbad⟩
    exact ⟨t, s, rfl, ht, hs, (hnode s hs).mp hbad⟩
  · rintro ⟨t', s, hbytes, ht', hs, hbad⟩
    rw [← bytes_inj ht ht' hbytes] at hs
    exact ⟨s, hs, (hnode s hs).mpr hbad⟩

/-- A decoded map has an entry for each pair of the encoded map. -/
theorem length_fromSlice (hd : c.Describes) {data : Bytes}
    (hlen : data.length < 18446744073709551616) {m : CoseMap}
    (h : CoseMap.fromSlice c data = .ok m) : ∃ (w : Option Width) (es : List (Tree × Tree)),
      data = (Cbor.Tree.map w es).bytes ∧ (Cbor.Tree.map w es).Fits ∧ m.length = es.length := by
  rw [CoseMap.fromSlice, Except.seq_eq_ok, Except.mapError_eq_ok, Except.bind_eq_ok] at h
  obtain ⟨hvalid, t, hitem, hmap⟩ := h
  obtain ⟨it, hroot, -⟩ := Except.bind_eq_ok.mp hvalid
  obtain ⟨t', rfl, ht, -, hkeys, -⟩ := (rootWithDuplicatePolicy_ok c).mp hroot
  obtain ⟨hwf, hbytes⟩ := hr.sound hitem
  rw [← bytes_inj ht hwf.fits hbytes] at hmap
  cases t' with
  | int | str | chunked | array | tag | prim => cases hmap
  | map w es =>
    refine ⟨w, es, rfl, ht, ?_⟩
    have hdup : ¬ HasDuplicateKey (.map w es) := by
      intro hdup
      exact (not_distinctKeys_iff hr hc ht hlen).mpr (.inl hdup) (hkeys rfl).head
    obtain ⟨ls, hls, rfl⟩ := CoseMap.foldlM_deserializeEntry.mp hmap
    have hdistinct : ls.Pairwise fun l l' => l.1 ≠ l'.1 := by
      rw [← Tree.forall₂_pairwise (S := fun e e' => ¬ ∃ l, Label.deserialize c e.1 = .ok l ∧
        Label.deserialize c e'.1 = .ok l) hls, List.pairwise_iff_forall_sublist]
      · -- Keys with one label have one value, so they would be duplicates.
        rintro e e' hsub ⟨l, hl, hl'⟩
        obtain ⟨d, hv, hnorm⟩ := Label.deserialize_ok hd hl
        obtain ⟨d', hv', hnorm'⟩ := Label.deserialize_ok hd hl'
        exact hdup ⟨e, e', hsub, .inr ⟨d, d', hv, hv', hnorm.trans hnorm'.symm⟩⟩
      · intro e _ e' _ l l' hl hl'
        rw [hl.1, hl'.1]
        simp [eq_comm]
    rw [BTreeMap.length_insertAll (fun _ _ => rfl) hdistinct, hls.length_eq]
    exact Nat.zero_add _

/-- **Duplicate keys are rejected however they are written, and a decoded map keeps
every pair.** -/
theorem duplicates_rejected (hd : c.Describes) (data : Bytes)
    (hlen : data.length < 18446744073709551616) :
    (∀ limits, RejectsExactly c (HasRefusedKey c) data limits) ∧
      ∀ m, CoseMap.fromSlice c data = .ok m → ∃ (w : Option Width) (es : List (Tree × Tree)),
        data = (Cbor.Tree.map w es).bytes ∧ (Cbor.Tree.map w es).Fits ∧
          m.length = es.length :=
  ⟨fun limits => rejectsExactly hr hc hlen limits, fun _ h => length_fromSlice hr hc hd hlen h⟩

end Laws

/-- In `a2 01 00 18 01 00` the key 1 is written in one byte and in two. -/
theorem hasDuplicateKey_spellings :
    HasDuplicateKey (.map (some .imm) [(.int false .imm 1, .int false .imm 0),
      (.int false .one 1, .int false .imm 0)]) :=
  ⟨_, _, .refl _, .inr ⟨_, _, rfl, rfl, rfl⟩⟩

/-- The two spellings of one key are rejected, and a map with two keys keeps both. -/
theorem duplicates_rejected_spellings :
    (RejectsExactly Cbor2.verbatim (HasRefusedKey Cbor2.verbatim)
        [0xa2, 0x01, 0x00, 0x18, 0x01, 0x00] {} ∧
      ∃ e, rootWithDuplicatePolicy Cbor2.verbatim [0xa2, 0x01, 0x00, 0x18, 0x01, 0x00] {} true =
        .error e) ∧
    ∃ m, CoseMap.fromSlice Cbor2.verbatim [0xa2, 0x01, 0x00, 0x61, 0x61, 0x00] = .ok m ∧
      ∃ (w : Option Width) (es : List (Tree × Tree)),
        [0xa2, 0x01, 0x00, 0x61, 0x61, 0x00] = (Cbor.Tree.map w es).bytes ∧
          (Cbor.Tree.map w es).Fits ∧ m.length = es.length := by
  have h := duplicates_rejected Cbor2.verbatim_readsItems Cbor2.verbatim_canonicalizes
    Cbor2.verbatim_describes
  constructor
  · have hexactly := (h [0xa2, 0x01, 0x00, 0x18, 0x01, 0x00] (by decide)).1 {}
    obtain ⟨it, hit⟩ := Except.isOk_iff.mp (show (rootWithDuplicatePolicy Cbor2.verbatim
      [0xa2, 0x01, 0x00, 0x18, 0x01, 0x00] {} false).isOk = true from rfl)
    have hitem : readAll 256 [0xa2, 0x01, 0x00, 0x18, 0x01, 0x00] =
        .ok (.map (some .imm) [(.int false .imm 1, .int false .imm 0),
          (.int false .one 1, .int false .imm 0)]) := rfl
    have hfits := (readAll_ok.mp hitem).1.1.fits
    exact ⟨hexactly, (hexactly it hit).mpr
      ⟨_, _, rfl, hfits, .refl, .inl hasDuplicateKey_spellings⟩⟩
  · obtain ⟨m, hm⟩ := Except.isOk_iff.mp (show (CoseMap.fromSlice Cbor2.verbatim
      [0xa2, 0x01, 0x00, 0x61, 0x61, 0x00]).isOk = true from rfl)
    exact ⟨m, hm, (h _ (by decide)).2 m hm⟩

/-- `a1 61 ff 00`: the key is a one-byte text string that is not UTF-8.  `cbor2` does not
decode it, but the map is accepted. -/
theorem not_rejectsExactly_invalid_text : ¬ RejectsExactly Cbor2.reference
    (HasUndecodableKey Cbor2.reference) [0xa1, 0x61, 0xff, 0x00] {} := by
  intro h
  obtain ⟨it, hit⟩ := Except.isOk_iff.mp (show (rootWithDuplicatePolicy Cbor2.reference
    [0xa1, 0x61, 0xff, 0x00] {} false).isOk = true from rfl)
  obtain ⟨it', hit'⟩ := Except.isOk_iff.mp (show (rootWithDuplicatePolicy Cbor2.reference
    [0xa1, 0x61, 0xff, 0x00] {} true).isOk = true from rfl)
  have hitem : readAll 256 [0xa1, 0x61, 0xff, 0x00] =
      .ok (.map (some .imm) [(.str true .imm [0xff], .int false .imm 0)]) := rfl
  have hfits := (readAll_ok.mp hitem).1.1.fits
  have hkey : ¬ Decodes Cbor2.reference (.str true .imm [0xff]) := by
    rintro ⟨v, hv⟩
    have hfails : (Cbor2.reference.fromSlice [0x61, 0xff]).isOk = false := rfl
    rw [show Cbor2.reference.fromSlice [0x61, 0xff] = .ok v from hv] at hfails
    cases hfails
  obtain ⟨e, he⟩ := (h it hit).mpr
    ⟨_, _, rfl, hfits, .refl, .inr ⟨_, List.mem_cons_self, hkey⟩⟩
  rw [hit'] at he
  cases he

end Cose2.Strict

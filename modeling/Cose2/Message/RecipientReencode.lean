import Cose2.Accepted
import Cose2.Message.RecipientRoundTrip
import Cose2.Message.Wire

/-! # Recipients that were read are written again

A recipient is checked while it is read, and keeps the protected bytes that it was read
from.  So writing it passes the same checks, at every depth, and takes no more space.  Its
headers have no undefined, because there is none in what is read.
-/
namespace Cose2.Recipient

open Cbor Forest Iana

/-- The recipients `rs` were read from the items `ts`, and are written as the values `vs`. -/
structure WrittenAgain (c : Cbor2) (ts : List Tree) (rs : List Recipient) (vs : List Value) :
    Prop where
  written : serializeAll c rs = .ok vs
  writable : ∀ v ∈ vs, v.Writable
  noLarger : Tree.NoLargerAll (vs.map fun v => v.norm.toTree) ts
  depth : ∀ v ∈ vs, ∃ t ∈ ts, v.toTree.depth ≤ t.depth

/-- The value `v` that is written for a recipient fits where its item `t` was. -/
structure ValueFits (v : Value) (t : Tree) : Prop where
  writable : v.Writable
  noLarger : v.norm.toTree.NoLarger t
  depth : v.toTree.depth ≤ t.depth

variable {c : Cbor2}

theorem WrittenAgain.nil : WrittenAgain c [] [] [] :=
  ⟨rfl, by simp, .nil _, by simp⟩

/-- What is written again one by one is written again together. -/
theorem WrittenAgain.of_each {ts : List Tree} {rs : List Recipient}
    (h : List.Forall₂ (Spells c) ts rs)
    (heach : ∀ t ∈ ts, ∀ r ∈ rs, Spells c t r →
      ∃ v, serialize c r = .ok v ∧ ValueFits v t) :
    ∃ vs, WrittenAgain c ts rs vs := by
  induction h with
  | nil => exact ⟨[], .nil⟩
  | @cons t r ts rs hone _ ih =>
    obtain ⟨v, hv, hfits⟩ := heach t List.mem_cons_self r List.mem_cons_self hone
    obtain ⟨vs, hvs⟩ := ih fun s hs q hq =>
      heach s (List.mem_cons_of_mem _ hs) q (List.mem_cons_of_mem _ hq)
    exact ⟨v :: vs, {
      written := serializeAll_ok.mpr (.cons hv (serializeAll_ok.mp hvs.written))
      writable := List.forall_mem_cons.mpr ⟨hfits.writable, hvs.writable⟩
      noLarger := .cons hfits.noLarger hvs.noLarger
      depth := List.forall_mem_cons.mpr ⟨⟨t, List.mem_cons_self, hfits.depth⟩, fun w hw => by
        obtain ⟨s, hs, hle⟩ := hvs.depth w hw
        exact ⟨s, List.mem_cons_of_mem _ hs, hle⟩⟩ }⟩

/-- There are as many values as items. -/
theorem WrittenAgain.length_lt {w : Option Width} {ts : List Tree} {rs : List Recipient}
    {vs : List Value} (hvs : WrittenAgain c ts rs vs) (h : List.Forall₂ (Spells c) ts rs)
    (ht : Accepted c (.array w ts)) : vs.length < usizeBound := by
  rw [← (serializeAll_ok.mp hvs.written).length_eq, ← h.length_eq]
  exact Tree.children_length_lt.trans ht.length

/-- Their array is nested no deeper than the array that they were read from. -/
theorem WrittenAgain.depth_le {w : Option Width} {ts : List Tree} {rs : List Recipient}
    {vs : List Value} (h : WrittenAgain c ts rs vs) :
    (Value.array vs).toTree.depth ≤ (Tree.array w ts).depth := by
  refine Tree.depth_le_of_children ?_
  rw [Value.children_toTree, List.forall_mem_map]
  exact h.depth

/-! ### Fields -/

section Fields

variable {t : Tree} (hread : c.ReadsItems) (hcap : c.CapturesRaw)
include hcap

theorem value_of_strictBytes (ht : Accepted c t) {b : Bytes} (h : strictBytes c t = .ok b) :
    t.value = some (.bytes b) := by
  rw [strictBytes, hcap.raw ht.wellFormed, Except.ok_bind, Except.mapError_eq_ok] at h
  obtain ⟨t', hbytes, hfits, -, -, hv⟩ := Strict.decodeBytes_ok.mp h
  rwa [bytes_inj ht.wellFormed.fits hfits hbytes]

theorem holdsBytes_of_strictOptionalBytes (ht : Accepted c t) {o : Option Bytes}
    (h : strictOptionalBytes c t = .ok o) : HoldsBytes t o := by
  rw [strictOptionalBytes, hcap.raw ht.wellFormed, Except.ok_bind, Except.mapError_eq_ok] at h
  obtain ⟨t', hbytes, hfits, -, -, ⟨-, rfl⟩ | ⟨b, hv, rfl⟩⟩ := Strict.decodeOptionalBytes_ok.mp h
  · rintro b ⟨⟩
  · rintro _ ⟨⟩
    rwa [bytes_inj ht.wellFormed.fits hfits hbytes]

include hread in
theorem deserializeChecked_of_deserialize (ht : Accepted c t) {u : Header}
    (h : Header.deserialize c t = .ok u) : CoseMap.deserializeChecked c t = .ok u := by
  rw [Header.deserialize, Except.bind_eq_ok] at h
  obtain ⟨m, hmap, h⟩ := h
  obtain ⟨-, hm⟩ := Except.seq_eq_ok.mp h
  obtain rfl := Except.pure_eq_ok.mp hm
  rw [CoseMap.deserialize, hcap.raw ht.wellFormed, Except.ok_bind, Except.seq_eq_ok,
    Except.bind_eq_ok] at hmap
  obtain ⟨-, t', hitem, hmap⟩ := hmap
  obtain ⟨hwf, hbytes⟩ := hread.sound hitem
  rwa [bytes_inj ht.wellFormed.fits hwf.fits hbytes]

end Fields

/-- The fields of a recipient that was read. -/
structure FieldsHeld (tp tu tc : Tree) (raw : Bytes) (u : Header) (ct : Option Bytes) :
    Prop where
  protectedRaw : tp.value = some (.bytes raw)
  unprotectedHeader : CoseMap.HeldBy u tu
  ciphertext : HoldsBytes tc ct

/-- The value of a recipient is no larger than an item with these fields. -/
theorem FieldsHeld.noLarger {tp tu tc : Tree} {raw : Bytes} {u : Header} {ct : Option Bytes}
    (h : FieldsHeld tp tu tc raw u ct) {w : Option Width} {vs : List Value} {rest : List Tree}
    (hvs : vs ≠ [] → Tree.NoLargerAll [(Value.array (vs.map Value.norm)).toTree] rest) :
    (valueOf raw u ct vs).norm.toTree.NoLarger (.array w (tp :: tu :: tc :: rest)) := by
  rw [norm_valueOf]
  refine .array (.cons ?_ (.cons h.unprotectedHeader.noLarger (.cons h.ciphertext.noLarger ?_)))
  · exact .str (Tree.length_lt_of_bytes h.protectedRaw)
  · by_cases hempty : vs.isEmpty = true
    · rw [if_pos hempty]
      exact .nil rest
    · rw [if_neg hempty]
      exact hvs (by rwa [List.isEmpty_iff] at hempty)

/-- Nor is it nested deeper. -/
theorem FieldsHeld.depth {tp tu tc : Tree} {raw : Bytes} {u : Header} {ct : Option Bytes}
    (h : FieldsHeld tp tu tc raw u ct) {w : Option Width} {vs : List Value} {rest : List Tree}
    (hvs : vs ≠ [] → ∃ t ∈ rest, (Value.array vs).toTree.depth ≤ t.depth) :
    (valueOf raw u ct vs).toTree.depth ≤ (Tree.array w (tp :: tu :: tc :: rest)).depth := by
  have hplain : (serializedCiphertext ct).toTree.depth = 0 := by
    cases ct <;> rfl
  refine Tree.depth_le_of_children ?_
  rw [Value.children_toTree, valueOf, Value.children, List.forall_mem_map, List.forall_mem_append,
    List.forall_mem_cons, List.forall_mem_cons, List.forall_mem_singleton]
  refine ⟨⟨⟨tp, by simp [Tree.children], Nat.zero_le _⟩,
    ⟨tu, by simp [Tree.children], h.unprotectedHeader.depth⟩,
    ⟨tc, by simp [Tree.children], by rw [hplain]; exact Nat.zero_le _⟩⟩, ?_⟩
  by_cases hempty : vs.isEmpty = true
  · rw [if_pos hempty]
    exact fun w hw => absurd hw List.not_mem_nil
  · rw [if_neg hempty, List.forall_mem_singleton]
    obtain ⟨t, ht, hle⟩ := hvs (by rwa [List.isEmpty_iff] at hempty)
    exact ⟨t, by simp [Tree.children, ht], hle⟩

section Reading

variable (hread : c.ReadsItems) (hw : c.WritesValues) (hc : c.ReadsValues)
  (hd : c.Describes) (hcap : c.CapturesRaw) (he : c.EncodesCanonically)
  (hrecursion : defaultMaxDepth < c.recursionLimit)

include hread hw hc hcap he hrecursion in
/-- A recipient is written again when the recipients inside it are. -/
theorem serialize_of_fields {tp tu tc : Tree} {raw : Bytes} {p u : Header} {ct : Option Bytes}
    (h : ReadsFields c tp tu tc raw p u ct) (hp : Accepted c tp) {rs : List Recipient}
    {vs : List Value} (hvalid : validateLocal c (.mk p u ct rs (some raw)) = .ok ())
    (hvs : serializeAll c rs = .ok vs) :
    serialize c (.mk p u ct rs (some raw)) = .ok (valueOf raw u ct vs) := by
  have hvalue := value_of_strictBytes hcap hp h.protectedRaw
  have hsize := (Tree.length_lt_of_bytes hvalue).trans hp.length
  refine serialize_ok.mpr ⟨hvalid, raw, vs, ?_, hvs, rfl⟩
  show serializedProtected c p (some raw) = .ok raw
  rw [serializedProtected, Except.seq_eq_ok, validateProtectedState_ok]
  exact ⟨denotes_of_decodeProtected hread hw hc he hrecursion hsize h.protectedHeader, rfl⟩

include hread hw hc hd hcap

theorem fieldsHeld {tp tu tc : Tree} {raw : Bytes} {p u : Header} {ct : Option Bytes}
    (h : ReadsFields c tp tu tc raw p u ct) (hp : Accepted c tp) (hu : Accepted c tu)
    (hct : Accepted c tc) : FieldsHeld tp tu tc raw u ct where
  protectedRaw := value_of_strictBytes hcap hp h.protectedRaw
  unprotectedHeader := CoseMap.heldBy_of_deserializeChecked hread hw hc hd hu
    (deserializeChecked_of_deserialize hread hcap hu h.unprotectedHeader)
  ciphertext := holdsBytes_of_strictOptionalBytes hcap hct h.ciphertext

/-- The recipient can be read back when it is written again. -/
theorem sound_of_fields {tp tu tc : Tree} {raw : Bytes} {p u : Header} {ct : Option Bytes}
    (h : ReadsFields c tp tu tc raw p u ct) (hp : Accepted c tp) (hu : Accepted c tu)
    (hct : Accepted c tc) (hlength : tp.bytes.length < sliceBound) (rs : List Recipient) :
    Sound c (.mk p u ct rs (some raw)) := by
  intro raw' hraw'
  obtain ⟨-, rfl⟩ : _ ∧ raw = raw' :=
    Except.seq_eq_ok.mp hraw' |>.imp_right Except.pure_eq_ok.mp
  have hheld := fieldsHeld hread hw hc hd hcap h hp hu hct
  exact soundLayer_of_decodeProtected hread hw hc hd
    ((Tree.length_lt_of_bytes hheld.protectedRaw).trans hlength) h.protectedHeader
    hheld.unprotectedHeader.apart

/-- There is no undefined in a recipient that was read. -/
theorem defined_of_fields {tp tu tc : Tree} {raw : Bytes} {p u : Header} {ct : Option Bytes}
    (h : ReadsFields c tp tu tc raw p u ct) (hp : Accepted c tp) (hu : Accepted c tu)
    (hct : Accepted c tc) (rs : List Recipient) : Defined (.mk p u ct rs (some raw)) := by
  have hheld := fieldsHeld hread hw hc hd hcap h hp hu hct
  have hsize := (Tree.length_lt_of_bytes hheld.protectedRaw).trans hp.length
  exact ⟨(reduced_of_decodeProtected hread hw hc hsize h.protectedHeader).defined,
    hheld.unprotectedHeader.reduced.defined⟩

theorem writable_of_fields {tp tu tc : Tree} {raw : Bytes} {p u : Header} {ct : Option Bytes}
    (h : ReadsFields c tp tu tc raw p u ct) (hp : Accepted c tp) (hu : Accepted c tu)
    (hct : Accepted c tc) {vs : List Value} (hvs : ∀ v ∈ vs, v.Writable)
    (hlength : vs.length < usizeBound) : (valueOf raw u ct vs).Writable := by
  have hheld := fieldsHeld hread hw hc hd hcap h hp hu hct
  have hraw : (Value.bytes raw).Writable :=
    Tree.value_writable hp.length hheld.protectedRaw
  rw [valueOf, Value.writable_array, List.forall_mem_append, List.forall_mem_cons,
    List.forall_mem_cons, List.forall_mem_singleton]
  refine ⟨?_, ⟨hraw, hheld.unprotectedHeader.writable, hheld.ciphertext.writable hct⟩, ?_⟩
  · split_ifs <;> simp
  · split_ifs
    · exact fun w hw => absurd hw List.not_mem_nil
    · exact List.forall_mem_singleton.mpr (Value.writable_array.mpr ⟨hlength, hvs⟩)

/-- A recipient that was read is written again, and can be read back with those inside. -/
structure Rewrites (c : Cbor2) (t : Tree) (r : Recipient) : Prop where
  written : ∃ v, serialize c r = .ok v ∧ ValueFits v t
  sound : Sound c r
  defined : Defined r
  allSound : AllSound c r.recipients
  allDefined : AllDefined r.recipients

include he hrecursion

/-- **A recipient that was read is written again in no more space**, and can be read back. -/
theorem rewrites_of_spells (r : Recipient) {t : Tree} (ht : Accepted c t)
    (hlength : t.bytes.length < sliceBound) (h : Spells c t r)
    (hvalid : validateLocal c r = .ok ()) (hbelow : LocallyValid c r.recipients) :
    Rewrites c t r := by
  induction r using induction generalizing t with
  | h r ih =>
    have hchild {s : Tree} (hs : s ∈ t.children) : Accepted c s ∧ s.bytes.length < sliceBound :=
      ⟨ht.child hs, (Tree.length_lt_of_mem hs).trans hlength⟩
    cases h with
    | @flat w tp tu tc raw p u ct hfields =>
      obtain ⟨hp, hsize⟩ := hchild (s := tp) (by simp [Tree.children])
      have hu : Accepted c tu := ht.child (by simp [Tree.children])
      have hct : Accepted c tc := ht.child (by simp [Tree.children])
      have hheld := fieldsHeld hread hw hc hd hcap hfields hp hu hct
      exact {
        written := ⟨_, serialize_of_fields hread hw hc hcap he hrecursion hfields hp hvalid rfl,
          writable_of_fields hread hw hc hd hcap hfields hp hu hct (by simp) (by decide),
          hheld.noLarger fun hne => absurd rfl hne, hheld.depth fun hne => absurd rfl hne⟩
        sound := sound_of_fields hread hw hc hd hcap hfields hp hu hct hsize []
        defined := defined_of_fields hread hw hc hd hcap hfields hp hu hct []
        allSound := allSound_iff.mpr (by rintro q ⟨⟩)
        allDefined := allDefined_iff.mpr (by rintro q ⟨⟩) }
    | @nested w w' tp tu tc raw p u ct items rs hfields hne hall =>
      obtain ⟨hp, hsize⟩ := hchild (s := tp) (by simp [Tree.children])
      have hu : Accepted c tu := ht.child (by simp [Tree.children])
      have hct : Accepted c tc := ht.child (by simp [Tree.children])
      obtain ⟨harray, hsizes⟩ := hchild (s := .array w' items) (by simp [Tree.children])
      have hheld := fieldsHeld hread hw hc hd hcap hfields hp hu hct
      have hnested := locallyValid_iff.mp hbelow
      have heach : ∀ s ∈ items, ∀ q ∈ rs, Spells c s q → Rewrites c s q := by
        intro s hs q hq hspells
        have hshort := (Tree.length_lt_of_mem (t := .array w' items) hs).trans hsizes
        exact ih q hq (harray.child hs) hshort hspells (hnested q hq).1 (hnested q hq).2
      have hinside : ∀ q ∈ rs, ∃ s, Rewrites c s q := fun q hq => by
        obtain ⟨s, hs, hspells⟩ := Tree.forall₂_mem_right hall hq
        exact ⟨s, heach s hs q hq hspells⟩
      obtain ⟨vs, hvs⟩ := WrittenAgain.of_each hall fun s hs q hq hspells =>
        (heach s hs q hq hspells).written
      exact {
        written := by
          refine ⟨_, serialize_of_fields hread hw hc hcap he hrecursion hfields hp hvalid
            hvs.written, ?_, ?_, hheld.depth fun _ => ⟨_, List.mem_singleton_self _, hvs.depth_le⟩⟩
          · exact writable_of_fields hread hw hc hd hcap hfields hp hu hct hvs.writable
              (hvs.length_lt hall harray)
          · refine hheld.noLarger fun _ => .cons (.array ?_) (.nil _)
            rw [List.map_map]
            exact hvs.noLarger
        sound := sound_of_fields hread hw hc hd hcap hfields hp hu hct hsize rs
        defined := defined_of_fields hread hw hc hd hcap hfields hp hu hct rs
        allSound := allSound_iff.mpr fun q hq => by
          obtain ⟨s, hone⟩ := hinside q hq
          exact ⟨hone.sound, hone.allSound⟩
        allDefined := allDefined_iff.mpr fun q hq => by
          obtain ⟨s, hone⟩ := hinside q hq
          exact ⟨hone.defined, hone.allDefined⟩ }

/-- The recipients of a message. -/
theorem rewrites_all {w : Option Width} {ts : List Tree} {rs : List Recipient}
    (ht : Accepted c (.array w ts)) (hlength : (Tree.array w ts).bytes.length < sliceBound)
    (h : deserializeAll c ts = .ok rs) :
    (∃ vs, WrittenAgain c ts rs vs ∧ vs.length < usizeBound) ∧ AllSound c rs ∧ AllDefined rs := by
  obtain ⟨hspells, hvalid⟩ := deserializeAll_ok.mp h
  have hlocal := locallyValid_iff.mp hvalid
  have heach : ∀ t ∈ ts, ∀ r ∈ rs, Spells c t r → Rewrites c t r := by
    intro t hts r hr hone
    have hshort := (Tree.length_lt_of_mem (t := .array w ts) hts).trans hlength
    exact rewrites_of_spells hread hw hc hd hcap he hrecursion r (ht.child hts) hshort hone
      (hlocal r hr).1 (hlocal r hr).2
  have hinside : ∀ r ∈ rs, ∃ t, Rewrites c t r := fun r hr => by
    obtain ⟨t, hts, hone⟩ := Tree.forall₂_mem_right hspells hr
    exact ⟨t, heach t hts r hr hone⟩
  obtain ⟨vs, hvs⟩ := WrittenAgain.of_each hspells fun t hts r hr hone =>
    (heach t hts r hr hone).written
  refine ⟨⟨vs, hvs, hvs.length_lt hspells ht⟩, allSound_iff.mpr fun r hr => ?_,
    allDefined_iff.mpr fun r hr => ?_⟩
  · obtain ⟨t, hone⟩ := hinside r hr
    exact ⟨hone.sound, hone.allSound⟩
  · obtain ⟨t, hone⟩ := hinside r hr
    exact ⟨hone.defined, hone.allDefined⟩

end Reading

/-! ### Nesting -/

/-- Recipients are nested no deeper than the items they are read from. -/
theorem nested_of_spells (r : Recipient) {t : Tree} (h : Spells c t r) :
    ∀ n q, NodeAt recipients n r.recipients q → n < t.depth := by
  induction r using induction generalizing t with
  | h r ih =>
    cases h with
    | flat hfields => exact forall_nodeAt.mpr (by rintro q ⟨⟩)
    | @nested w w' tp tu tc raw p u ct items rs hfields hne hall =>
      refine forall_nodeAt.mpr fun q hq => ?_
      obtain ⟨s, hs, hspells⟩ := Tree.forall₂_mem_right hall hq
      -- the item of a nested recipient stands two levels below
      have harray := Tree.depth_lt_of_mem
        (show .array w' items ∈ (Tree.array w [tp, tu, tc, .array w' items]).children by
          simp [Tree.children])
      have hitem := Tree.depth_lt_of_mem
        (show s ∈ (Tree.array w' items).children from hs)
      refine ⟨by omega, fun n q' hq' => ?_⟩
      have hbelow := ih q hq hspells n q' hq'
      omega

theorem nestedWithin_of_spells {w : Option Width} {ts : List Tree} {rs : List Recipient}
    (ht : Accepted c (.array w ts)) (h : List.Forall₂ (Spells c) ts rs) :
    NestedWithin maxRecipientDepth rs := by
  refine forall_nodeAt.mpr fun r hr => ⟨Nat.zero_le _, fun n q hq => ?_⟩
  obtain ⟨t, hts, hone⟩ := Tree.forall₂_mem_right h hr
  have hlt := nested_of_spells r hone n q hq
  have hchild : t ∈ (Tree.array w ts).children := hts
  have hdepth : t.depth ≤ 128 := (ht.child hchild).limits.depth
  rw [maxRecipientDepth]
  omega

end Cose2.Recipient

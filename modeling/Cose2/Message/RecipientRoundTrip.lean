import Cose2.RecipientAlike
import Cose2.Message.RecipientTree

/-! # Recipients read back

A recipient is written as an array of its protected bytes, its unprotected map, its
ciphertext and the arrays of its nested recipients, and it is checked on both ways.  Every
recipient of the tree that is read has the headers of the one that was written, as they are
read, so the checks that let the tree be written let it be read; and it is written as what is
read of the value that it was read from.
-/
namespace Cose2.Recipient

open Cbor Forest Iana

/-- The value that a recipient is written as, given its protected bytes and the values of
its nested recipients. -/
def valueOf (raw : Bytes) (u : Header) (ct : Option Bytes) (vs : List Value) : Value :=
  .array ([.bytes raw, u.toValue, serializedCiphertext ct] ++
    if vs.isEmpty then [] else [.array vs])

/-- The layer of the recipient is sound, with the protected bytes that it is written with. -/
def Sound (c : Cbor2) (r : Recipient) : Prop :=
  ∀ raw, serializedProtected c r.protectedHeader r.protectedRaw = .ok raw →
    SoundLayer c r.protectedHeader r.unprotectedHeader raw

/-- There is no undefined in the headers of the recipient. -/
def Defined (r : Recipient) : Prop := LayerDefined r.protectedHeader r.unprotectedHeader

/-- The same tree: the second one holds the protected bytes that the first one is written
with, and their headers are compared by `same`. -/
inductive SameTree (c : Cbor2) (same : Header → Header → Prop) : Recipient → Recipient → Prop
  | mk {r r' : Recipient} {raw : Bytes}
      (hwritten : serializedProtected c r.protectedHeader r.protectedRaw = .ok raw)
      (hraw : r'.protectedRaw = some raw)
      (hprotected : same r.protectedHeader r'.protectedHeader)
      (hunprotected : same r.unprotectedHeader r'.unprotectedHeader)
      (hciphertext : r'.ciphertext = r.ciphertext)
      (hnested : List.Forall₂ (SameTree c same) r.recipients r'.recipients) : SameTree c same r r'

variable {c : Cbor2}

/-! ### What is written -/

theorem serializeAll_eq (rs : List Recipient) : serializeAll c rs = rs.mapM (serialize c) := by
  induction rs with
  | nil => rfl
  | cons r rs ih =>
    rw [serializeAll, List.mapM_cons, ih]

theorem serializeAll_ok {rs : List Recipient} {vs : List Value} :
    serializeAll c rs = .ok vs ↔ List.Forall₂ (fun r v => serialize c r = .ok v) rs vs := by
  rw [serializeAll_eq, Except.mapM_eq_ok]

theorem forall₂_isEmpty {α β : Type} {R : α → β → Prop} {as : List α} {bs : List β}
    (h : List.Forall₂ R as bs) : bs.isEmpty = as.isEmpty := by
  cases h <;> rfl

theorem serialize_ok {r : Recipient} {v : Value} : serialize c r = .ok v ↔
    validateLocal c r = .ok () ∧ ∃ raw vs,
      serializedProtected c r.protectedHeader r.protectedRaw = .ok raw ∧
      serializeAll c r.recipients = .ok vs ∧
      v = valueOf raw r.unprotectedHeader r.ciphertext vs := by
  obtain ⟨p, u, ct, rs, stored⟩ := r
  rw [serialize, Except.seq_eq_ok, Except.mapError_eq_ok]
  refine and_congr_right fun hlocal => ?_
  have hvalid : u.validateCommon = .ok () := (validateLocal_iff.mp hlocal).1.unprotectedOk
  have hu : u.serialize = .ok u.toValue := by
    rw [Header.serialize, hvalid]
    rfl
  simp only [Except.bind_eq_ok, Except.mapError_eq_ok, hu, Except.ok_bind, Except.pure_eq_ok]
  refine exists_congr fun raw => ?_
  have hempty {vs : List Value} (hvs : serializeAll c rs = .ok vs) :
      vs.isEmpty = rs.isEmpty :=
    forall₂_isEmpty (serializeAll_ok.mp hvs)
  constructor
  · rintro ⟨hraw, vs, hvs, rfl⟩
    refine ⟨vs, hraw, hvs, ?_⟩
    rw [valueOf, hempty hvs]
    split_ifs <;> rfl
  · rintro ⟨vs, hraw, hvs, rfl⟩
    refine ⟨hraw, vs, hvs, ?_⟩
    rw [valueOf, hempty hvs]
    split_ifs <;> rfl

theorem plain_serializedCiphertext (ct : Option Bytes) : (serializedCiphertext ct).Plain := by
  cases ct with
  | none => exact .null
  | some b => exact .bytes b

theorem isBytesOrNull_serializedCiphertext (ct : Option Bytes) :
    Strict.IsBytesOrNull Strict.TakenForNull (serializedCiphertext ct).toTree := by
  cases ct with
  | none => exact .inr rfl
  | some b => exact .inl trivial

theorem norm_valueOf (raw : Bytes) (u : Header) (ct : Option Bytes) (vs : List Value) :
    (valueOf raw u ct vs).norm = .array ([.bytes raw, u.toValue.norm, serializedCiphertext ct] ++
      if vs.isEmpty then [] else [.array (vs.map Value.norm)]) := by
  have hct := (plain_serializedCiphertext ct).norm
  rw [valueOf, Value.norm, Value.normItems_eq, List.map_append]
  by_cases hempty : vs.isEmpty = true
  · rw [if_pos hempty, if_pos hempty]
    simp [Value.norm, hct]
  · rw [if_neg hempty, if_neg hempty]
    simp [Value.norm, Value.normItems_eq, hct]

/-- The value of what was read of a recipient. -/
theorem rewritten_valueOf {raw : Bytes} {u : Header} {ct : Option Bytes} {vs vs' : List Value}
    (h : (valueOf raw u ct vs).norm.Writable) (hvs : List.Forall₂ Rewritten vs vs') :
    Rewritten (valueOf raw u ct vs) (valueOf raw u.asRead ct vs') := by
  have hempty : vs'.isEmpty = vs.isEmpty := by
    cases hvs <;> rfl
  have hplain := plain_serializedCiphertext ct
  have hparts := h
  rw [norm_valueOf, Value.writable_array, List.forall_mem_append, List.forall_mem_cons,
    List.forall_mem_cons, List.forall_mem_singleton] at hparts
  obtain ⟨-, ⟨hraw, hu, hct⟩, hlast⟩ := hparts
  refine Rewritten.array ?_ h
  rw [hempty]
  refine .cons (.plain (.bytes raw) hraw) (.cons (rewritten_toValue hu) (.cons
    (.plain hplain hct) ?_))
  split_ifs at hlast ⊢
  · exact .nil
  · rw [List.forall_mem_singleton] at hlast
    refine .cons (.array hvs ?_) .nil
    rw [Value.norm, Value.normItems_eq]
    exact hlast

/-- Every recipient of the tree is sound. -/
def AllSound (c : Cbor2) (rs : List Recipient) : Prop :=
  ∀ n r, NodeAt recipients n rs r → Sound c r

theorem allSound_iff {rs : List Recipient} :
    AllSound c rs ↔ ∀ r ∈ rs, Sound c r ∧ AllSound c r.recipients :=
  forall_nodeAt

/-- There is no undefined in any header of the tree. -/
def AllDefined (rs : List Recipient) : Prop := ∀ n r, NodeAt recipients n rs r → Defined r

theorem allDefined_iff {rs : List Recipient} :
    AllDefined rs ↔ ∀ r ∈ rs, Defined r ∧ AllDefined r.recipients :=
  forall_nodeAt

/-- No key is written twice, even as it is read. -/
theorem apart_of_serialize {r : Recipient} {v : Value} (h : serialize c r = .ok v)
    (hsound : Sound c r) (hnested : AllSound c r.recipients) : v.asRead.DuplicateFree := by
  induction r using induction generalizing v with
  | h r ih =>
    obtain ⟨-, raw, vs, hraw, hvs, rfl⟩ := serialize_ok.mp h
    have hu : r.unprotectedHeader.toValue.asRead.DuplicateFree :=
      CoseMap.apart_toValue (hsound raw hraw).unprotectedApart
    have hct := plain_serializedCiphertext r.ciphertext
    have hall : ∀ w ∈ vs, w.asRead.DuplicateFree := by
      intro w hw
      obtain ⟨q, hq, hwrite⟩ := Tree.forall₂_mem_right (serializeAll_ok.mp hvs) hw
      obtain ⟨hone, hbelow⟩ := allSound_iff.mp hnested q hq
      exact ih q hq hwrite hone hbelow
    apply Value.duplicateFree_asRead_array
    rw [List.forall_mem_append, List.forall_mem_cons, List.forall_mem_cons,
      List.forall_mem_singleton]
    refine ⟨⟨(Value.Plain.bytes raw).duplicateFree, hu, ?_⟩, ?_⟩
    · rw [hct.asRead]
      exact hct.duplicateFree
    · split_ifs
      · exact fun w hw => absurd hw List.not_mem_nil
      · rw [List.forall_mem_singleton]
        exact Value.duplicateFree_asRead_array hall

/-- Without undefined in the headers there is none in what is written. -/
theorem defined_of_serialize {r : Recipient} {v : Value} (h : serialize c r = .ok v)
    (hdefined : Defined r) (hnested : AllDefined r.recipients) : v.Defined := by
  induction r using induction generalizing v with
  | h r ih =>
    obtain ⟨-, raw, vs, -, hvs, rfl⟩ := serialize_ok.mp h
    rw [valueOf, Value.defined_array, List.forall_mem_append, List.forall_mem_cons,
      List.forall_mem_cons, List.forall_mem_singleton]
    refine ⟨⟨rfl, CoseMap.defined_toValue hdefined.unprotectedHeader,
      (plain_serializedCiphertext r.ciphertext).defined⟩, ?_⟩
    split_ifs
    · exact fun w hw => absurd hw List.not_mem_nil
    · rw [List.forall_mem_singleton, Value.defined_array]
      intro w hw
      obtain ⟨q, hq, hwrite⟩ := Tree.forall₂_mem_right (serializeAll_ok.mp hvs) hw
      obtain ⟨hone, hbelow⟩ := allDefined_iff.mp hnested q hq
      exact ih q hq hwrite hone hbelow

/-! ### What is read -/

/-- The recipients `rs'` are what the values `vs` of the recipients `rs` are read as. -/
structure ReadFrom (c : Cbor2) (vs : List Value) (rs rs' : List Recipient) : Prop where
  same : List.Forall₂ (SameTree c HeaderRead) rs rs'
  spelled : List.Forall₂ (Spells c) (vs.map fun v => v.norm.toTree) rs'
  valid : LocallyValid c rs'
  classes : List.Forall₂ (fun r r' => r'.algorithmClass = r.algorithmClass) rs rs'
  /-- They can be written again. -/
  written : ∃ vs', serializeAll c rs' = .ok vs' ∧ List.Forall₂ Rewritten vs vs'

/-- The item of the value has the form of the recipient whose fields are read from it. -/
theorem spells_valueOf {raw : Bytes} {u p' u' : Header} {ct : Option Bytes}
    {vs : List Value} {rs' : List Recipient}
    (hfields : ReadsFields c (Value.bytes raw).toTree u.toValue.norm.toTree
      (serializedCiphertext ct).toTree raw p' u' ct)
    (hvs : List.Forall₂ (Spells c) (vs.map fun v => v.norm.toTree) rs') :
    Spells c (valueOf raw u ct vs).norm.toTree (.mk p' u' ct rs' (some raw)) := by
  rw [norm_valueOf]
  cases vs with
  | nil =>
    cases hvs
    exact .flat hfields
  | cons v vs =>
    rw [if_neg (by simp), Value.toTree, Value.toTreeItems_eq]
    simp only [List.map_cons, List.map_nil, List.cons_append, List.nil_append, Value.toTree,
      Value.toTreeItems_eq]
    refine .nested hfields ?_ ?_
    · rintro rfl
      cases hvs
    · rw [List.map_map]
      exact hvs

theorem ReadFrom.nil : ReadFrom c [] [] [] :=
  ⟨.nil, .nil, locallyValid_iff.mpr (by simp), .nil, [], rfl, .nil⟩

/-- One recipient more. -/
theorem ReadFrom.cons {v : Value} {vs : List Value} {r r' : Recipient} {rs rs' : List Recipient}
    (h : ReadFrom c [v] [r] [r']) (hrest : ReadFrom c vs rs rs') :
    ReadFrom c (v :: vs) (r :: rs) (r' :: rs') := by
  obtain ⟨ws, hws, hone⟩ := h.written
  obtain ⟨ws', hws', hall⟩ := hrest.written
  have hvalid := locallyValid_iff.mp h.valid
  have hvalids := locallyValid_iff.mp hrest.valid
  rw [List.forall_mem_singleton] at hvalid
  exact {
    same := .cons (List.forall₂_cons.mp h.same).1 hrest.same
    spelled := .cons (List.forall₂_cons.mp h.spelled).1 hrest.spelled
    valid := locallyValid_iff.mpr (List.forall_mem_cons.mpr ⟨hvalid, hvalids⟩)
    classes := .cons (List.forall₂_cons.mp h.classes).1 hrest.classes
    written := by
      rw [serializeAll_ok] at hws hws'
      cases hone with
      | cons hv hnil =>
        cases hnil
        exact ⟨_, serializeAll_ok.mpr (.cons (List.forall₂_cons.mp hws).1 hws'), .cons hv hall⟩ }

/-- What is read one by one is read together. -/
theorem ReadFrom.of_each {rs : List Recipient} {vs : List Value} (h : serializeAll c rs = .ok vs)
    (heach : ∀ r ∈ rs, ∀ v ∈ vs, serialize c r = .ok v → ∃ r', ReadFrom c [v] [r] [r']) :
    ∃ rs', ReadFrom c vs rs rs' := by
  have hwritten := serializeAll_ok.mp h
  clear h
  induction hwritten with
  | nil => exact ⟨[], .nil⟩
  | @cons r v rs vs hone _ ih =>
    obtain ⟨r', hread⟩ := heach r List.mem_cons_self v List.mem_cons_self hone
    obtain ⟨rs', hrest⟩ := ih fun q hq w hw =>
      heach q (List.mem_cons_of_mem _ hq) w (List.mem_cons_of_mem _ hw)
    exact ⟨r' :: rs', .cons hread hrest⟩

theorem ReadFrom.isEmpty {vs : List Value} {rs rs' : List Recipient}
    (h : ReadFrom c vs rs rs') : rs'.isEmpty = rs.isEmpty ∧ vs.isEmpty = rs.isEmpty := by
  have hread := forall₂_isEmpty h.same
  have hspelled := forall₂_isEmpty h.spelled
  rw [List.isEmpty_map] at hspelled
  exact ⟨hread, hspelled.symm.trans hread⟩

section Reading

variable (hread : c.ReadsItems) (hw : c.WritesValues) (hr : c.ReadsBack) (hc : c.ReadsValues)
  (hd : c.Describes) (hcap : c.CapturesRaw) (hrecursion : defaultMaxDepth < c.recursionLimit)

include hw in
/-- The headers that are read from a recipient, with its ciphertext, look the same to
`validate_local`. -/
theorem alike_of_layerRead {r : Recipient} {raw : Bytes} {p' : Header}
    (hsound : SoundLayer c r.protectedHeader r.unprotectedHeader raw)
    (hdenotes : DenotesHeader c raw r.protectedHeader)
    (hadmitted : Admitted r.unprotectedHeader.toValue.norm)
    (hlayer : LayerRead c r.protectedHeader r.unprotectedHeader p'
      r.unprotectedHeader.asRead raw)
    {rs' : List Recipient} (hnested : rs'.isEmpty = r.recipients.isEmpty) :
    Alike c r (.mk p' r.unprotectedHeader.asRead r.ciphertext rs' (some raw)) where
  protectedRead := hlayer.protectedRead
  unprotectedRead := hlayer.unprotectedRead
  ciphertext := rfl
  nested := hnested
  protectedValid := hlayer.layer.buckets.protectedOk
  unprotectedValid := hlayer.layer.buckets.unprotectedOk
  encodable := hlayer.encodable
  unprotectedEncodable := hlayer.unprotectedEncodable
  writable := by
    intro label v hv
    rcases carries_of_headerValue hv with hp | hu
    · exact CoseMap.writable_of_get (hsound.writable hw hdenotes) hp
    · exact CoseMap.writable_of_get hadmitted.regular.writable hu

include hread hw hr hc hd hcap hrecursion

/-- **A recipient that is written is read back**, with its headers as they are read. -/
theorem readBack (r : Recipient) {v : Value} (h : serialize c r = .ok v)
    (hsound : Sound c r) (hnested : AllSound c r.recipients) (hadmitted : Admitted v.norm) :
    ∃ r', ReadFrom c [v] [r] [r'] := by
  induction r using induction generalizing v with
  | h r ih =>
    obtain ⟨hlocal, raw, vs, hraw, hvs, rfl⟩ := serialize_ok.mp h
    have hwritable := hadmitted.regular.writable
    rw [norm_valueOf] at hadmitted
    -- the parts of the value
    have hparts {u : Value} (hu : u ∈ [.bytes raw, r.unprotectedHeader.toValue.norm,
        serializedCiphertext r.ciphertext]) : Admitted u :=
      hadmitted.child (List.mem_append_left _ hu)
    have hvalues {w : Value} (hw' : w ∈ vs) : Admitted w.norm := by
      have hne : ¬ vs.isEmpty = true := by
        rw [List.isEmpty_iff]
        exact List.ne_nil_of_mem hw'
      have harray : Admitted (.array (vs.map Value.norm)) := by
        refine hadmitted.child (List.mem_append_right _ ?_)
        rw [if_neg hne]
        exact List.mem_singleton_self _
      exact harray.child (List.mem_map_of_mem hw')
    obtain ⟨rs', hreadFrom⟩ : ∃ rs', ReadFrom c vs r.recipients rs' := by
      refine ReadFrom.of_each hvs fun q hq w hw' hwritten => ?_
      obtain ⟨hone, hbelow⟩ := allSound_iff.mp hnested q hq
      exact ih q hq hwritten hone hbelow (hvalues hw')
    obtain ⟨hempty, hvempty⟩ := hreadFrom.isEmpty
    have hbuckets := (validateLocal_iff.mp hlocal).1
    have hdenotes := denotes_of_serializedProtected hraw
    have hmap : Admitted r.unprotectedHeader.toValue.norm := hparts (by simp)
    obtain ⟨p', hlayer⟩ := layer_readBack hread hw hr hc hrecursion ⟨hbuckets, hdenotes⟩
      (hsound raw hraw) hmap
    have hu := deserialize_value hr hrecursion hcap hmap hbuckets.unprotectedOk
    have hbytes : (Value.bytes raw).Writable := (hparts (by simp)).regular.writable
    have hct : (serializedCiphertext r.ciphertext).Writable :=
      (hparts (by simp)).regular.writable
    have hfields : ReadsFields c (Value.bytes raw).toTree r.unprotectedHeader.toValue.norm.toTree
        (serializedCiphertext r.ciphertext).toTree raw p' r.unprotectedHeader.asRead
        r.ciphertext := by
      refine ⟨strictBytes_value hr hcap hrecursion hbytes, hlayer.decoded, hu, ?_⟩
      cases hciphertext : r.ciphertext with
      | none => exact strictOptionalBytes_null hr hcap hrecursion
      | some b =>
        rw [hciphertext] at hct
        exact strictOptionalBytes_bytes hr hcap hrecursion hct
    have halike := alike_of_layerRead hw (hsound raw hraw) hdenotes hmap hlayer hempty
    have hvalid := halike.validateLocal hread hw hc hd hr hrecursion hlayer.layer.buckets
      (by rintro _ ⟨⟩; exact hlayer.layer.denotes) hreadFrom.classes hlocal
    obtain ⟨a, ha⟩ : ∃ a, r.alg = .ok (some a) := by
      obtain ⟨-, -, a, ha, -⟩ := validateLocal_iff.mp hlocal
      exact ⟨a, ha⟩
    refine ⟨.mk p' r.unprotectedHeader.asRead r.ciphertext rs' (some raw), ?_⟩
    exact {
      same := .cons (.mk hraw rfl hlayer.protectedRead hlayer.unprotectedRead rfl
        hreadFrom.same) .nil
      spelled := .cons (spells_valueOf hfields hreadFrom.spelled) .nil
      valid := locallyValid_iff.mpr (List.forall_mem_singleton.mpr ⟨hvalid, hreadFrom.valid⟩)
      classes := .cons (halike.algorithmClass ha) .nil
      written := by
        obtain ⟨vs', hvs', hrewritten⟩ := hreadFrom.written
        have hraw' : serializedProtected c p' (some raw) = .ok raw := by
          rw [serializedProtected, Except.seq_eq_ok, Except.pure_eq_ok]
          exact ⟨validateProtectedState_ok.mpr hlayer.layer.denotes, rfl⟩
        refine ⟨[valueOf raw r.unprotectedHeader.asRead r.ciphertext vs'], ?_,
          .cons (rewritten_valueOf hwritable hrewritten) .nil⟩
        rw [serializeAll_ok]
        exact .cons (serialize_ok.mpr ⟨hvalid, raw, vs', hraw', hvs', rfl⟩) .nil }

/-- The recipients of a message are read back from the array that they are written as. -/
theorem readBack_all {rs : List Recipient} {vs : List Value} (h : serializeAll c rs = .ok vs)
    (hsound : AllSound c rs) (hadmitted : Admitted (Value.array vs).norm) :
    ∃ rs', ReadFrom c vs rs rs' := by
  rw [Value.norm, Value.normItems_eq] at hadmitted
  refine ReadFrom.of_each h fun r hmem v hv hwritten => ?_
  obtain ⟨hone, hbelow⟩ := allSound_iff.mp hsound r hmem
  exact readBack hread hw hr hc hd hcap hrecursion r hwritten hone hbelow
    (hadmitted.child (List.mem_map_of_mem hv))

end Reading

/-! ### The recipients of a message -/

/-- What is written as a recipient has the shape of one. -/
theorem isRecipient_of_serialize {r : Recipient} {v : Value} (h : serialize c r = .ok v) :
    Strict.IsRecipient Strict.TakenForNull v.norm.toTree := by
  induction r using induction generalizing v with
  | h r ih =>
    obtain ⟨-, raw, vs, -, hvs, rfl⟩ := serialize_ok.mp h
    have hct := isBytesOrNull_serializedCiphertext r.ciphertext
    have hmap : Strict.IsMap r.unprotectedHeader.toValue.norm.toTree := by
      rw [CoseMap.norm_toValue_eq]
      exact trivial
    rw [norm_valueOf]
    cases vs with
    | nil => exact .leaf trivial hmap hct
    | cons w ws =>
      have hall : ∀ s ∈ Value.toTreeItems ((w :: ws).map Value.norm),
          Strict.IsRecipient Strict.TakenForNull s := by
        rw [Value.toTreeItems_eq, List.map_map, List.forall_mem_map]
        intro s hs
        obtain ⟨q, hq, hwrite⟩ := Tree.forall₂_mem_right (serializeAll_ok.mp hvs) hs
        exact ih q hq hwrite
      exact .nested trivial hmap hct (by rintro ⟨⟩) hall

section Same

variable {same same' : Header → Header → Prop}

theorem SameTree.nested {r r' : Recipient} (h : SameTree c same r r') :
    List.Forall₂ (SameTree c same) r.recipients r'.recipients := by
  cases h with
  | mk _ _ _ _ _ hbelow => exact hbelow

/-- The same trees are nested equally deep. -/
theorem nestedWithin_of_same {bound : Nat} {rs rs' : List Recipient}
    (h : List.Forall₂ (SameTree c same) rs rs') (hnested : NestedWithin bound rs) :
    NestedWithin bound rs' := by
  intro n r' hr'
  obtain ⟨r, hr, -⟩ := nodeAt_of_forall₂ (fun _ _ hsame => SameTree.nested hsame) h hr'
  exact hnested n r hr

/-- Trees without undefined that are compared by `same` are compared by what follows. -/
theorem SameTree.of_defined
    (himp : ∀ h h', CoseMap.Defined h → same h h' → same' h h') {r r' : Recipient}
    (h : SameTree c same r r') (hdefined : Defined r) (hnested : AllDefined r.recipients) :
    SameTree c same' r r' := by
  induction r using induction generalizing r' with
  | h r ih =>
    cases h with
    | mk hwritten hraw hprotected hunprotected hciphertext hbelow =>
      refine .mk hwritten hraw (himp _ _ hdefined.protectedHeader hprotected)
        (himp _ _ hdefined.unprotectedHeader hunprotected) hciphertext ?_
      have hall := allDefined_iff.mp hnested
      refine ((List.forall₂_and_left
        (p := fun q => q ∈ r.recipients ∧ Defined q ∧ AllDefined q.recipients) _ _).mpr
        ⟨fun q hq => ⟨hq, hall q hq⟩, hbelow⟩).imp ?_
      rintro q q' ⟨⟨hq, hone, hrest⟩, hsame⟩
      exact ih q hq hsame hone hrest

/-- Without undefined the headers that are read have the same encodings. -/
theorem sameTrees_of_defined {rs rs' : List Recipient} (hdefined : AllDefined rs)
    (h : List.Forall₂ (SameTree c HeaderRead) rs rs') :
    List.Forall₂ (SameTree c SameHeader) rs rs' := by
  have hall := allDefined_iff.mp hdefined
  refine ((List.forall₂_and_left
    (p := fun r => Defined r ∧ AllDefined r.recipients) _ _).mpr ⟨hall, h⟩).imp ?_
  rintro r r' ⟨⟨hone, hnested⟩, hsame⟩
  exact hsame.of_defined (fun _ _ hheader hread => hread.sameHeader hheader) hone hnested

end Same

end Cose2.Recipient

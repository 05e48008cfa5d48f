import Cose2.KeySet

/-! # Keys of the built-in providers

The part of `src/key.rs` and `src/util.rs` with which a provider reads the key it is
given, checks what the key may be used for, and builds the key it is exported as.  An
exported key holds plain values only, so that it comes back from its encoding as it was.
-/
namespace Cose2

open Cbor Cbor2 Iana

/-! ### What a key may be used for -/

/-- Whether an entry of `key_ops` is one of the operations. -/
def Label.isOperation (operations : List Int64) : Label → Bool
  | .int value => operations.contains value
  | .text _ => false

/-- `key_ops_allow`. -/
def keyOpsAllow (ops : Option (List Label)) (allowed : List Int64) : Bool :=
  match ops with
  | none => true
  | some ops => ops.any (·.isOperation allowed)

/-- `require_key_ops`. -/
def requireKeyOps (ops : Option (List Label)) (allowed : List Int64) (operation : String) :
    Except Error Unit :=
  Except.failIf (keyOpsAllow ops allowed = false)
    (.keyOperation s!"COSE_Key key_ops does not permit {operation}")

theorem requireKeyOps_eq_ok {ops : Option (List Label)} {allowed : List Int64}
    {operation : String} {u : Unit} :
    requireKeyOps ops allowed operation = .ok u ↔ keyOpsAllow ops allowed = true := by
  rw [requireKeyOps, Except.failIf_eq_ok, Bool.not_eq_false]

namespace Key

section Reading

variable (k : Key)

/-- `Key::allows_any_operation`. -/
def allowsAnyOperation (operations : List Int64) : Except Error Bool := do
  if operations = [] then return false
  match ← k.ops with
  | none => return true
  | some configured => return configured.any (·.isOperation operations)

/-- `Key::require_any_operation`. -/
def requireAnyOperation (operations : List Int64) (operationName : String) :
    Except Error Unit := do
  let allowed ← k.allowsAnyOperation operations
  Except.failIf (allowed = false)
    (.keyOperation s!"COSE_Key key_ops does not permit {operationName}")

/-- `Key::required_integer_alg`. -/
def requiredIntegerAlg (provider : String) : Except Error Int64 := do
  match ← k.alg with
  | some (.int alg) => return alg
  | some (.text _) => .error (.custom
      s!"the built-in {provider} does not support text-string algorithms")
  | none => .error (.custom "COSE_Key is missing alg")

/-- A label that has to be the expected integer. -/
def requireInteger (found : Except Error (Option Label)) (expected : Label) (name : String) :
    Except Error Unit := do
  match ← found with
  | some other => Except.failIf (other ≠ expected) (.custom
      s!"COSE_Key {name} mismatch, expected {expected.display}, got {other.display}")
  | none => .error (.custom s!"COSE_Key is missing {name}")

/-- `Key::require_integer_kty`. -/
def requireIntegerKty (expected : Label) : Except Error Unit :=
  requireInteger k.kty expected "kty"

/-- `Key::require_integer_parameter`. -/
def requireIntegerParameter (label expected : Label) (name : String) : Except Error Unit :=
  requireInteger (k.getLabel label) expected name

/-- `Key::kid_owned`. -/
def kidOwned : Except Error (Option Bytes) := k.kid

end Reading

section Building

/-- `Key::set_kty`. -/
def setKty (k : Key) (kty : Label) : Key := k.insert keyParameterKty kty.toValue

/-- `Key::set_kid`. -/
def setKid (k : Key) (kid : Bytes) : Key := k.insert keyParameterKid (.bytes kid)

/-- `Key::set_alg`. -/
def setAlg (k : Key) (alg : Label) : Key := k.insert keyParameterAlg alg.toValue

/-- `Key::set_ops`. -/
def setOps (k : Key) (ops : List Label) : Key :=
  k.insert keyParameterKeyOps (.array (ops.map Label.toValue))

/-- `Key::with_kty_alg`. -/
def withKtyAlg (kty : Label) (alg : Int64) (kid : Option Bytes) : Key :=
  let key := setAlg (setKty ∅ kty) (.int alg)
  match kid with
  | none => key
  | some kid => key.setKid kid

/-- `Key::symmetric`. -/
def symmetric (alg : Int64) (k : Bytes) (kid baseIv : Option Bytes)
    (keyOps : Option (List Label)) : Key :=
  let key := (withKtyAlg keyTypeSymmetric alg kid).insert symmetricKeyParameterK (.bytes k)
  let key := match baseIv with
    | none => key
    | some baseIv => key.insert keyParameterBaseIV (.bytes baseIv)
  match keyOps with
  | none => key
  | some ops => setOps key ops

/-- `Key::ed25519_public`. -/
def ed25519Public (alg : Int64) (x : Bytes) (kid : Option Bytes) : Key :=
  let key := (withKtyAlg keyTypeOKP alg kid).insert okpKeyParameterCrv ellipticCurveEd25519.toValue
  setOps (key.insert okpKeyParameterX (.bytes x)) [.int keyOperationVerify]

end Building

/-! ### Reading -/

section

variable {k : Key}

theorem mapM_opFromValue (ops : List Label) :
    (ops.map Label.toValue).mapM opFromValue = .ok ops := by
  rw [Except.mapM_eq_ok, List.forall₂_map_left_iff, List.forall₂_same]
  intro op _
  cases op with
  | int v => rw [Label.toValue, opFromValue, i64TryFrom_toInt]
  | text s => rfl

/-- The operations of a key are read where its `key_ops` is an array of labels. -/
theorem ops_eq_ok_of_get {o : Option (List Label)}
    (h : k.get keyParameterKeyOps = o.map fun ops => .array (ops.map Label.toValue)) :
    k.ops = .ok o := by
  unfold ops CoseMap.getArray
  cases o with
  | none =>
    rw [h]
    rfl
  | some ops =>
    rw [h]
    exact Except.bind_eq_ok.mpr ⟨some _, rfl,
      Except.bind_eq_ok.mpr ⟨ops, mapM_opFromValue ops, rfl⟩⟩

/-- An operation is required of the operations that the key has. -/
theorem requireAnyOperation_eq_ok {operations : List Int64} {name : String} {u : Unit}
    (hne : operations ≠ []) : k.requireAnyOperation operations name = .ok u ↔
      ∃ ops, k.ops = .ok ops ∧ keyOpsAllow ops operations = true := by
  simp only [requireAnyOperation, allowsAnyOperation, if_neg hne, Except.bind_eq_ok,
    Except.failIf_eq_ok, Bool.not_eq_false]
  constructor
  · rintro ⟨allowed, ⟨ops, hops, hallowed⟩, rfl⟩
    refine ⟨ops, hops, ?_⟩
    cases ops with
    | none => rfl
    | some ops => exact Except.pure_eq_ok.mp hallowed
  · rintro ⟨ops, hops, hallowed⟩
    refine ⟨true, ⟨ops, hops, ?_⟩, rfl⟩
    cases ops with
    | none => rfl
    | some ops => exact Except.pure_eq_ok.mpr hallowed

theorem requiredIntegerAlg_eq_ok {provider : String} {alg : Int64} :
    k.requiredIntegerAlg provider = .ok alg ↔ k.alg = .ok (some (.int alg)) := by
  rw [requiredIntegerAlg, Except.bind_eq_ok]
  constructor
  · rintro ⟨_ | _ | _, halg, h⟩
    · cases h
    · cases h
      exact halg
    · cases h
  · intro h
    exact ⟨_, h, rfl⟩

theorem requireInteger_eq_ok {found : Except Error (Option Label)} {expected : Label}
    {name : String} {u : Unit} :
    requireInteger found expected name = .ok u ↔ found = .ok (some expected) := by
  rw [requireInteger, Except.bind_eq_ok]
  constructor
  · rintro ⟨_ | other, hfound, h⟩
    · cases h
    · rw [Except.failIf_eq_ok, not_not] at h
      rw [hfound, h]
  · intro h
    exact ⟨_, h, Except.failIf_eq_ok.mpr fun hne => hne rfl⟩

theorem requireIntegerKty_eq_ok {expected : Label} {u : Unit} :
    k.requireIntegerKty expected = .ok u ↔ k.get keyParameterKty = some expected.toValue := by
  rw [requireIntegerKty, requireInteger_eq_ok, kty, CoseMap.getLabel_eq_ok]
  rfl

theorem requireIntegerParameter_eq_ok {label expected : Label} {name : String} {u : Unit} :
    k.requireIntegerParameter label expected name = .ok u ↔
      k.get label = some expected.toValue := by
  rw [requireIntegerParameter, requireInteger_eq_ok, CoseMap.getLabel_eq_ok]
  rfl

theorem requiredBytes_eq_ok {label : Label} {name : String} {b : Bytes} :
    k.requiredBytes label name = .ok b ↔ k.get label = some (.bytes b) := by
  rw [requiredBytes, Except.bind_eq_ok]
  constructor
  · rintro ⟨o, ho, h⟩
    obtain rfl := Except.ofOption_eq_ok.mp h
    exact CoseMap.getBytes_eq_ok.mp ho
  · intro h
    exact ⟨some b, CoseMap.getBytes_eq_ok.mpr h, rfl⟩

theorem kidOwned_eq_ok {o : Option Bytes} :
    k.kidOwned = .ok o ↔ k.get keyParameterKid = o.map Value.bytes :=
  CoseMap.getBytes_eq_ok

theorem baseIv_eq_ok {o : Option Bytes} :
    k.baseIv = .ok o ↔ k.get keyParameterBaseIV = o.map Value.bytes :=
  CoseMap.getBytes_eq_ok

end

/-! ### Exported keys -/

/-- The common parameters of an exported key. -/
structure Exported (k : Key) (kty : Label) (alg : Int64) (kid baseIv : Option Bytes)
    (keyOps : Option (List Label)) : Prop where
  kty : k.get keyParameterKty = some kty.toValue
  alg : k.get keyParameterAlg = some (Label.int alg).toValue
  kid : k.get keyParameterKid = kid.map Value.bytes
  baseIv : k.get keyParameterBaseIV = baseIv.map Value.bytes
  keyOps : k.get keyParameterKeyOps = keyOps.map fun ops => .array (ops.map Label.toValue)
  plain : ∀ e ∈ k.entries, e.2.Plain

namespace Exported

variable {k : Key} {kty : Label} {alg : Int64} {kid baseIv : Option Bytes}
  {keyOps : Option (List Label)} (h : k.Exported kty alg kid baseIv keyOps)
include h

theorem alg_ok : k.alg = .ok (some (.int alg)) := CoseMap.getLabel_eq_ok.mpr h.alg

theorem ops_ok : k.ops = .ok keyOps := ops_eq_ok_of_get h.keyOps

theorem valid : k.validate = .ok () := by
  simp only [validate, Except.bind_eq_ok, Except.failIf_eq_ok, Except.pure_eq_ok]
  exact ⟨some kty, CoseMap.getLabel_eq_ok.mpr h.kty, (), by simp, some (.int alg), h.alg_ok,
    keyOps, h.ops_ok, kid, CoseMap.getBytes_eq_ok.mpr h.kid, baseIv,
    CoseMap.getBytes_eq_ok.mpr h.baseIv, trivial⟩

theorem defined : CoseMap.Defined k := fun e he => (h.plain e he).defined

/-- The values are read as they are. -/
theorem asRead_eq : CoseMap.asRead k = k := by
  apply BTreeMap.ext
  rw [CoseMap.asRead, CoseMap.mapValues]
  conv_rhs => rw [← List.map_id k.entries]
  exact List.map_congr_left fun e he => Prod.ext rfl (h.plain e he).asRead

variable {c : Cbor2} (hr : c.ReadsBack) (hw : c.WritesValues)
  (hrecursion : defaultMaxDepth < c.recursionLimit)
include hr hw hrecursion

/-- The key comes back from its encoding as it was. -/
theorem fromSlice_toVec {data : Bytes} (hdata : WithinDefaults data)
    (hvec : k.toVec c = .ok data) : Key.fromSlice c data = .ok k := by
  rw [Key.toVec, Except.seq_eq_ok] at hvec
  have hread := CoseMap.fromSlice_toVec hr hw hrecursion (h.defined.apart hr hvec.2) hdata hvec.2
  rw [h.asRead_eq] at hread
  exact fromSlice_ok.mpr ⟨hread, h.valid⟩

end Exported

section

variable {k : Key} {kty : Label} {alg : Int64} {kid baseIv : Option Bytes}
  {keyOps : Option (List Label)}

theorem plain_insert {label : Label} {v : Value} (hk : ∀ e ∈ k.entries, e.2.Plain)
    (hv : v.Plain) : ∀ e ∈ (k.insert label v).entries, e.2.Plain := by
  intro e he
  rcases BTreeMap.mem_insert.mp he with rfl | ⟨he, -⟩
  · exact hv
  · exact hk e he

theorem plain_toValue (label : Label) : label.toValue.Plain := by
  cases label with
  | int v => exact .integer _
  | text s => exact .text s

theorem get_insert_of_ne {label other : Label} {v : Value} (h : other ≠ label) :
    (k.insert label v).get other = k.get other := by
  rw [BTreeMap.get_insert, if_neg h]

/-- The parameters that every key may have. -/
def commonParameters : List Label :=
  [keyParameterKty, keyParameterKid, keyParameterAlg, keyParameterKeyOps, keyParameterBaseIV]

namespace Exported

variable (h : k.Exported kty alg kid baseIv keyOps)
include h

/-- A parameter of the key type leaves the common ones alone. -/
theorem insert {label : Label} {v : Value} (hlabel : label ∉ commonParameters) (hv : v.Plain) :
    Key.Exported (k.insert label v) kty alg kid baseIv keyOps := by
  have hget {common : Label} (hcommon : common ∈ commonParameters) :
      (k.insert label v).get common = k.get common :=
    get_insert_of_ne fun heq => hlabel (heq ▸ hcommon)
  exact
    { kty := (hget (by decide)).trans h.kty
      alg := (hget (by decide)).trans h.alg
      kid := (hget (by decide)).trans h.kid
      baseIv := (hget (by decide)).trans h.baseIv
      keyOps := (hget (by decide)).trans h.keyOps
      plain := plain_insert h.plain hv }

theorem insertBaseIv (iv : Bytes) :
    Key.Exported (k.insert keyParameterBaseIV (.bytes iv)) kty alg kid (some iv) keyOps where
  kty := (get_insert_of_ne (by decide)).trans h.kty
  alg := (get_insert_of_ne (by decide)).trans h.alg
  kid := (get_insert_of_ne (by decide)).trans h.kid
  baseIv := by
    rw [BTreeMap.get_insert, if_pos rfl]
    rfl
  keyOps := (get_insert_of_ne (by decide)).trans h.keyOps
  plain := plain_insert h.plain (.bytes iv)

theorem setOps (ops : List Label) : (k.setOps ops).Exported kty alg kid baseIv (some ops) where
  kty := (get_insert_of_ne (by decide)).trans h.kty
  alg := (get_insert_of_ne (by decide)).trans h.alg
  kid := (get_insert_of_ne (by decide)).trans h.kid
  baseIv := (get_insert_of_ne (by decide)).trans h.baseIv
  keyOps := by
    rw [Key.setOps, BTreeMap.get_insert, if_pos rfl]
    rfl
  plain := plain_insert h.plain
    (.array (List.forall_mem_map.mpr fun op _ => plain_toValue op))

theorem setKid (kid : Bytes) : (k.setKid kid).Exported kty alg (some kid) baseIv keyOps where
  kty := (get_insert_of_ne (by decide)).trans h.kty
  alg := (get_insert_of_ne (by decide)).trans h.alg
  kid := by
    rw [Key.setKid, BTreeMap.get_insert, if_pos rfl]
    rfl
  baseIv := (get_insert_of_ne (by decide)).trans h.baseIv
  keyOps := (get_insert_of_ne (by decide)).trans h.keyOps
  plain := plain_insert h.plain (.bytes kid)

end Exported

theorem exported_withKtyAlg : (withKtyAlg kty alg kid).Exported kty alg kid none none := by
  have hbare : Key.Exported (setAlg (setKty ∅ kty) (.int alg)) kty alg none none none :=
    { kty := by
        rw [setAlg, get_insert_of_ne (by decide), setKty, BTreeMap.get_insert, if_pos rfl]
      alg := by rw [setAlg, BTreeMap.get_insert, if_pos rfl]
      kid := by
        rw [setAlg, get_insert_of_ne (by decide), setKty, get_insert_of_ne (by decide)]
        rfl
      baseIv := by
        rw [setAlg, get_insert_of_ne (by decide), setKty, get_insert_of_ne (by decide)]
        rfl
      keyOps := by
        rw [setAlg, get_insert_of_ne (by decide), setKty, get_insert_of_ne (by decide)]
        rfl
      plain := plain_insert (plain_insert (by rintro e ⟨⟩) (plain_toValue kty))
        (plain_toValue (.int alg)) }
  cases kid with
  | none => exact hbare
  | some kid => exact hbare.setKid kid

theorem exported_symmetric {material : Bytes} :
    (symmetric alg material kid baseIv keyOps).Exported keyTypeSymmetric alg kid baseIv keyOps := by
  have hmaterial : Key.Exported ((withKtyAlg keyTypeSymmetric alg kid).insert
      symmetricKeyParameterK (.bytes material)) keyTypeSymmetric alg kid none none :=
    exported_withKtyAlg.insert (by decide) (.bytes material)
  cases baseIv with
  | none =>
    cases keyOps with
    | none => exact hmaterial
    | some ops => exact hmaterial.setOps ops
  | some iv =>
    cases keyOps with
    | none => exact hmaterial.insertBaseIv iv
    | some ops => exact (hmaterial.insertBaseIv iv).setOps ops

theorem get_symmetric {material : Bytes} :
    (symmetric alg material kid baseIv keyOps).get symmetricKeyParameterK =
      some (.bytes material) := by
  have hmaterial : ((withKtyAlg keyTypeSymmetric alg kid).insert symmetricKeyParameterK
      (.bytes material)).get symmetricKeyParameterK = some (.bytes material) := by
    rw [BTreeMap.get_insert, if_pos rfl]
  cases baseIv with
  | none =>
    cases keyOps with
    | none => exact hmaterial
    | some ops => exact (get_insert_of_ne (by decide)).trans hmaterial
  | some iv =>
    have hiv : (((withKtyAlg keyTypeSymmetric alg kid).insert symmetricKeyParameterK
        (.bytes material)).insert keyParameterBaseIV (.bytes iv)).get symmetricKeyParameterK =
          some (.bytes material) :=
      (get_insert_of_ne (by decide)).trans hmaterial
    cases keyOps with
    | none => exact hiv
    | some ops => exact (get_insert_of_ne (by decide)).trans hiv

end
end Key
end Cose2

import Cose2.Message.Encrypted
import Cose2.Message.Sign

/-! # Domain separation of the authenticated structures

Seven functions build the bytes that are signed, authenticated or passed as
additional data to a cipher.  A key may be used for more than one of them, so no
two calls may agree by accident: equal bytes come from the same function with the
same arguments (`build_eq_iff`).

A structure is an array of a context string and byte strings, each with its
length in front, so its bytes can be read back.  Nothing else keeps the fields
apart: `Signature` is a prefix of `Signature1`, and four of the functions take as
many arguments as another one does.
-/
namespace Cose2

open Cbor

/-! ### The encoder of tuples -/

/-- A text or byte string as an element of a tuple. -/
def Part.IsString : Part → Prop
  | .value (.text _) => True
  | .value (.bytes _) => True
  | _ => False

/-- `to_vec` writes a tuple of strings as an array of definite length, with the
shortest heads. -/
structure Cbor2.WritesStrings (c : Cbor2) : Prop where
  sound : ∀ {parts bs}, (∀ p ∈ parts, p.IsString) → c.writeTuple parts = .ok bs →
    bs = tupleBytes parts

theorem Cbor2.reference_writesStrings : Cbor2.reference.WritesStrings where
  sound _ h := (Except.ok.inj h).symm

/-- A context string and the byte strings behind it. -/
def structureValue (context : String) (arguments : List Bytes) : Value :=
  .array (.text context :: arguments.map .bytes)

theorem tupleBytes_value (vs : List Value) :
    Cbor2.tupleBytes (vs.map .value) = (Value.array vs).encode := by
  rw [Cbor2.tupleBytes, List.length_map, List.flatMap_map, Value.encode, Value.toTree,
    Value.toTreeItems_eq, Tree.bytes, Tree.bytesItems_eq, List.flatMap_map, List.length_map,
    Tree.closing, List.append_nil]
  rfl

/-- The structure is the encoding of its value. -/
theorem encodeStructure_ok {c : Cbor2} (hc : c.WritesStrings) {context : String}
    {arguments : List Bytes} {bs : Bytes}
    (h : encodeStructure c context arguments = .ok bs) :
    bs = (structureValue context arguments).encode := by
  have hwrite := Except.mapError_eq_ok.mp h
  have hstrings : ∀ p ∈ Part.value (.text context) :: arguments.map fun b => .value (.bytes b),
      p.IsString := by
    intro p hp
    rcases List.mem_cons.mp hp with rfl | hp
    · exact trivial
    · obtain ⟨b, -, rfl⟩ := List.mem_map.mp hp
      exact trivial
  rw [hc.sound hstrings hwrite, structureValue, ← tupleBytes_value, List.map_cons, List.map_map]
  rfl

/-- What is written determines the context and every argument. -/
theorem structureValue_inj {context context' : String} {arguments arguments' : List Bytes}
    (h : (structureValue context arguments).Writable)
    (h' : (structureValue context' arguments').Writable)
    (heq : (structureValue context arguments).encode =
      (structureValue context' arguments').encode) :
    context = context' ∧ arguments = arguments' := by
  have hvalue := Value.encode_inj h h' heq
  simp only [structureValue, Value.array.injEq, List.cons.injEq, Value.text.injEq] at hvalue
  obtain ⟨hcontext, harguments⟩ := hvalue
  have hinj : Function.Injective Value.bytes := fun _ _ => Value.bytes.inj
  exact ⟨hcontext, hinj.list_map harguments⟩

/-! ### The seven functions -/

/-- A call of one of the seven functions. -/
inductive StructureCall where
  | sign1 (protectedRaw externalAad payload : Bytes)
  | sign (bodyProtected signProtected externalAad payload : Bytes)
  | counterSign (bodyProtected signProtected externalAad payload : Bytes)
  | mac0 (protectedRaw externalAad payload : Bytes)
  | mac (protectedRaw externalAad payload : Bytes)
  | encrypt0 (protectedRaw externalAad : Bytes)
  | encrypt (protectedRaw externalAad : Bytes)
deriving DecidableEq, Repr

namespace StructureCall

/-- The arguments of a call in their order. -/
def arguments : StructureCall → List Bytes
  | .sign1 protectedRaw externalAad payload => [protectedRaw, externalAad, payload]
  | .sign bodyProtected signProtected externalAad payload =>
    [bodyProtected, signProtected, externalAad, payload]
  | .counterSign bodyProtected signProtected externalAad payload =>
    [bodyProtected, signProtected, externalAad, payload]
  | .mac0 protectedRaw externalAad payload => [protectedRaw, externalAad, payload]
  | .mac protectedRaw externalAad payload => [protectedRaw, externalAad, payload]
  | .encrypt0 protectedRaw externalAad => [protectedRaw, externalAad]
  | .encrypt protectedRaw externalAad => [protectedRaw, externalAad]

/-- The arguments are slices, whose lengths are of type `usize`. -/
def Slices (s : StructureCall) : Prop := ∀ b ∈ s.arguments, b.length < usizeBound

/-- The context string that the function writes. -/
def context : StructureCall → String
  | .sign1 .. => "Signature1"
  | .sign .. => "Signature"
  | .counterSign .. => "CounterSignature"
  | .mac0 .. => "MAC0"
  | .mac .. => "MAC"
  | .encrypt0 .. => "Encrypt0"
  | .encrypt .. => "Encrypt"

variable (c : Cbor2)

/-- The bytes that the call returns. -/
def build : StructureCall → Except Error Bytes
  | .sign1 protectedRaw externalAad payload =>
    Sign1Message.toBeSigned c protectedRaw externalAad payload
  | .sign bodyProtected signProtected externalAad payload =>
    SignMessage.toBeSigned c bodyProtected signProtected externalAad payload
  | .counterSign bodyProtected signProtected externalAad payload =>
    CounterSignature.toBeSigned c bodyProtected signProtected externalAad payload
  | .mac0 protectedRaw externalAad payload =>
    Mac0Message.toBeMaced c protectedRaw externalAad payload
  | .mac protectedRaw externalAad payload =>
    MacMessage.toBeMaced c protectedRaw externalAad payload
  | .encrypt0 protectedRaw externalAad => Cose2.encrypt0.toBeEncrypted c protectedRaw externalAad
  | .encrypt protectedRaw externalAad =>
    (Cose2.encrypt c).toBeEncrypted c protectedRaw externalAad

theorem build_eq (s : StructureCall) : s.build c = encodeStructure c s.context s.arguments := by
  cases s <;> rfl

/-- The call with a given context string and given arguments. -/
def ofContext : String → List Bytes → Option StructureCall
  | "Signature1", [protectedRaw, externalAad, payload] =>
    some (.sign1 protectedRaw externalAad payload)
  | "Signature", [bodyProtected, signProtected, externalAad, payload] =>
    some (.sign bodyProtected signProtected externalAad payload)
  | "CounterSignature", [bodyProtected, signProtected, externalAad, payload] =>
    some (.counterSign bodyProtected signProtected externalAad payload)
  | "MAC0", [protectedRaw, externalAad, payload] => some (.mac0 protectedRaw externalAad payload)
  | "MAC", [protectedRaw, externalAad, payload] => some (.mac protectedRaw externalAad payload)
  | "Encrypt0", [protectedRaw, externalAad] => some (.encrypt0 protectedRaw externalAad)
  | "Encrypt", [protectedRaw, externalAad] => some (.encrypt protectedRaw externalAad)
  | _, _ => none

theorem ofContext_context (s : StructureCall) : ofContext s.context s.arguments = some s := by
  cases s <;> simp [ofContext, context, arguments]

/-- The context strings tell the functions apart, and the arguments tell the calls
of one function apart. -/
theorem eq_of_context {s s' : StructureCall} (hcontext : s.context = s'.context)
    (harguments : s.arguments = s'.arguments) : s = s' := by
  have h := ofContext_context s
  rw [hcontext, harguments, ofContext_context s'] at h
  exact (Option.some.inj h).symm

theorem utf8_context_length (s : StructureCall) :
    (utf8 s.context).length < 18446744073709551616 := by
  cases s <;> rw [context] <;> decide

theorem arguments_length (s : StructureCall) : s.arguments.length ≤ 4 := by
  cases s <;> simp [arguments]

/-- What a call writes has lengths that fit a head. -/
theorem Slices.writable {s : StructureCall} (h : s.Slices) :
    (structureValue s.context s.arguments).Writable := by
  rw [structureValue, Value.writable_array]
  refine ⟨?_, fun v hv => ?_⟩
  · have := s.arguments_length
    simp only [List.length_cons, List.length_map]
    omega
  · rcases List.mem_cons.mp hv with rfl | hv
    · exact Value.writable_text.mpr s.utf8_context_length
    · obtain ⟨b, hb, rfl⟩ := List.mem_map.mp hv
      exact Value.writable_bytes.mpr (h b hb)

variable {c}

/-- **Two calls return the same bytes exactly when they call the same function with
the same arguments.** -/
theorem build_eq_iff (hc : c.WritesStrings) {s s' : StructureCall} (hs : s.Slices)
    (hs' : s'.Slices) {bs bs' : Bytes} (h : s.build c = .ok bs) (h' : s'.build c = .ok bs') :
    bs = bs' ↔ s = s' := by
  constructor
  · intro heq
    rw [build_eq] at h h'
    rw [encodeStructure_ok hc h, encodeStructure_ok hc h'] at heq
    obtain ⟨hcontext, harguments⟩ := structureValue_inj hs.writable hs'.writable heq
    exact eq_of_context hcontext harguments
  · intro heq
    rw [heq, h'] at h
    exact (Except.ok.inj h).symm

/-- A signature and a MAC over the same fields differ. -/
theorem build_eq_iff_sign1_mac0 :
    Cbor2.tupleBytes [.value (.text "Signature1"), .value (.bytes []), .value (.bytes []),
        .value (.bytes [0x70])] =
      Cbor2.tupleBytes [.value (.text "MAC0"), .value (.bytes []), .value (.bytes []),
        .value (.bytes [0x70])] ↔
      StructureCall.sign1 [] [] [0x70] = StructureCall.mac0 [] [] [0x70] :=
  build_eq_iff Cbor2.reference_writesStrings
    (show Slices (.sign1 [] [] [0x70]) by unfold Slices arguments; decide)
    (show Slices (.mac0 [] [] [0x70]) by unfold Slices arguments; decide) rfl rfl

end StructureCall
end Cose2

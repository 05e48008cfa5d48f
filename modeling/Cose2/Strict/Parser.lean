import Cose2.Cbor2

/-! # The strict parser

`src/strict.rs`: a recursive-descent parser that checks the structure of a byte
string, counts its items, and rejects duplicate map keys.  It keeps a tree of
byte ranges; the accessors below it look at kinds and ranges only.

Positions, lengths and the item counter are natural numbers here.  In the source
they are `usize`, and its checked additions cannot overflow because a slice is
never longer than `isize::MAX` bytes.
-/
namespace Cose2

open Cbor

/-- `DEFAULT_MAX_DEPTH`. -/
def defaultMaxDepth : Nat := 128

/-- `DEFAULT_MAX_ITEMS`. -/
def defaultMaxItems : Nat := 100000

/-- The number of values of a `usize`. -/
def usizeBound : Nat := 18446744073709551616

/-- `CborLimits`. -/
structure CborLimits where
  maxDepth : Nat := defaultMaxDepth
  maxItems : Nat := defaultMaxItems
  requireDefinite : Bool := false
deriving DecidableEq, Repr

namespace Strict

/-- `Kind`. -/
inductive Kind where
  | unsigned
  | negative
  | bytes
  | text
  | array
  | map
  | tag (n : Nat)
  | simple (n : Nat)
  | float
deriving DecidableEq, Repr

/-- `Item`. -/
inductive Item where
  | mk (kind : Kind) (start contentStart endPos : Nat) (indefinite : Bool)
      (children : List Item)
deriving Repr

namespace Item

def kind : Item → Kind | .mk k _ _ _ _ _ => k
def start : Item → Nat | .mk _ s _ _ _ _ => s
def contentStart : Item → Nat | .mk _ _ s _ _ _ => s
def endPos : Item → Nat | .mk _ _ _ e _ _ => e
def indefinite : Item → Bool | .mk _ _ _ _ i _ => i
def children : Item → List Item | .mk _ _ _ _ _ cs => cs

end Item

/-- `Parser`. -/
structure Parser where
  data : Bytes
  pos : Nat
  items : Nat
  limits : CborLimits
  rejectDuplicateKeys : Bool

/-- `&data[start..end]`. -/
def slice (data : Bytes) (start stop : Nat) : Bytes := (data.drop start).take (stop - start)

namespace Parser

variable (c : Cbor2)

/-- `Parser::new`. -/
def new (data : Bytes) (limits : CborLimits) (rejectDuplicateKeys : Bool) : Parser :=
  { data, pos := 0, items := 0, limits, rejectDuplicateKeys }

/-- `Parser::err`. -/
def err (p : Parser) (message : String) : Error := .cbor s!"{message} at byte {p.pos}"

/-- `Parser::byte`. -/
def byte (p : Parser) : Except Error (UInt8 × Parser) :=
  match p.data[p.pos]? with
  | some byte => .ok (byte, { p with pos := p.pos + 1 })
  | none => .error (p.err "unexpected end of CBOR")

/-- The rest of `Parser::uint`, for an argument of `width` bytes. -/
def uintBytes (p : Parser) (width : Nat) : Except Error (Option Nat × Parser) :=
  if p.pos + width ≤ p.data.length then
    .ok (some (beNat (slice p.data p.pos (p.pos + width))), { p with pos := p.pos + width })
  else .error (p.err "truncated CBOR argument")

/-- `Parser::uint`. -/
def uint (p : Parser) (additional : Nat) : Except Error (Option Nat × Parser) :=
  if additional ≤ 23 then .ok (some additional, p)
  else match additional with
    | 24 => p.uintBytes 1
    | 25 => p.uintBytes 2
    | 26 => p.uintBytes 4
    | 27 => p.uintBytes 8
    | 31 => .ok (none, p)
    | _ => .error (p.err "reserved CBOR additional information")

/-- `Parser::length`. -/
def length (p : Parser) (value : Nat) : Except Error Nat :=
  if value < usizeBound then .ok value else .error (p.err "CBOR length does not fit usize")

/-- `Parser::count_item`. -/
def countItem (p : Parser) : Except Error Parser :=
  if p.limits.maxItems < p.items + 1 then .error (.limitExceeded "CBOR item" p.limits.maxItems)
  else .ok { p with items := p.items + 1 }

/-- The break byte is next: `self.data.get(self.pos) == Some(&0xff)`. -/
def AtBreak (p : Parser) : Prop := p.data[p.pos]? = some 0xff

instance (p : Parser) : Decidable p.AtBreak := inferInstanceAs (Decidable (_ = _))

/-- Steps over a break byte. -/
def takeBreak (p : Parser) : Option Parser :=
  if p.AtBreak then some { p with pos := p.pos + 1 } else none

/-- Bounds the rounds of a loop that runs up to a break byte: each round consumes
a byte at least, so that a finished loop never needs more. -/
def fuel (p : Parser) : Nat := p.data.length - p.pos + 1

/-! ### Map keys -/

/-- The length of a head in preferred form. -/
def preferredLen (argument : Nat) : Nat :=
  if argument ≤ 23 then 1
  else if argument ≤ 0xff then 2
  else if argument ≤ 0xffff then 3
  else if argument ≤ 0xffffffff then 5
  else 9

/-- The argument that a head carries. -/
def headArgument : Bytes → Nat
  | [] => 0
  | initial :: rest =>
    if initial.toNat % 32 ≤ 23 then initial.toNat % 32 else beNat rest

/-- `Parser::canonical_key`. -/
def canonicalKey (p : Parser) (key : Item) : Except Error Bytes :=
  let raw := slice p.data key.start key.endPos
  let scalar := (key.kind = .unsigned ∨ key.kind = .negative) ∨
    ((key.kind = .bytes ∨ key.kind = .text) ∧ key.indefinite = false)
  let head := raw.take (key.contentStart - key.start)
  if scalar ∧ head.length = preferredLen (headArgument head) then .ok raw
  else do c.canonicalVec (← c.fromSlice raw)

/-- Adds a key to the keys seen so far, when they are recorded. -/
def insertKey (p : Parser) (canonicalKeys : Option (List Bytes)) (key : Item) :
    Except Error (Option (List Bytes)) :=
  match canonicalKeys with
  | none => .ok none
  | some seen => do
    let k ← p.canonicalKey c key
    Except.failIf (k ∈ seen) (p.err "duplicate CBOR map key")
    return some (k :: seen)

/-! ### Items

`parse` hands the parser of the next nesting level to the functions below, as
`self.parse(depth + 1)` does in the source. -/

section Content

variable (child : Parser → Except Error (Item × Parser))

/-- One chunk of an indefinite-length string of type `kind`. -/
def chunk (kind : Kind) (p : Parser) : Except Error (Item × Parser) := do
  let (chunk, p) ← child p
  Except.failIf (chunk.kind ≠ kind ∨ chunk.indefinite = true)
    (p.err "invalid indefinite CBOR string chunk")
  return (chunk, p)

/-- What follows the head of a byte or text string. -/
def string (kind : Kind) (argument : Option Nat) (p : Parser) :
    Except Error ((Kind × List Item) × Parser) :=
  match argument with
  | some length => do
    let length ← p.length length
    if p.pos + length ≤ p.data.length then return ((kind, []), { p with pos := p.pos + length })
    else .error (p.err "truncated CBOR string")
  | none => do
    let (chunks, p) ← untilStop takeBreak (chunk child kind) (p.err "unreachable") p.fuel p
    return ((kind, chunks), p)

/-- What follows the head of an array. -/
def array (argument : Option Nat) (p : Parser) : Except Error ((Kind × List Item) × Parser) :=
  match argument with
  | some length => do
    let length ← p.length length
    let (items, p) ← repeatN child length p
    return ((.array, items), p)
  | none => do
    let (items, p) ← untilStop takeBreak child (p.err "unreachable") p.fuel p
    return ((.array, items), p)

/-- One map entry.  Nothing of it is kept but its key, and that only when
duplicates are to be rejected. -/
def entry (indefinite : Bool) (s : Option (List Bytes) × Parser) :
    Except Error (Unit × Option (List Bytes) × Parser) := do
  let (key, p) ← child s.2
  let canonicalKeys ← p.insertKey c s.1 key
  Except.failIf (indefinite = true ∧ p.AtBreak)
    (p.err "indefinite CBOR map has a key without a value")
  let (_, p) ← child p
  return ((), canonicalKeys, p)

/-- What follows the head of a map. -/
def map (argument : Option Nat) (p : Parser) : Except Error ((Kind × List Item) × Parser) :=
  let canonicalKeys := if p.rejectDuplicateKeys then some [] else none
  match argument with
  | some length => do
    let pairs ← p.length length
    let (_, _, p) ← repeatN (entry c child false) pairs (canonicalKeys, p)
    return ((.map, []), p)
  | none => do
    let (_, _, p) ← untilStop (fun s => s.2.takeBreak.map (s.1, ·)) (entry c child true)
      (p.err "unreachable") p.fuel (canonicalKeys, p)
    return ((.map, []), p)

/-- What follows the head of a tag. -/
def tag (argument : Option Nat) (p : Parser) : Except Error ((Kind × List Item) × Parser) := do
  let tag ← Except.ofOption (p.err "CBOR tag missing number") argument
  let (content, p) ← child p
  return ((.tag tag, [content]), p)

/-- The kind of a simple or floating-point value. -/
def simple (p : Parser) (additional : Nat) (argument : Option Nat) : Except Error Kind :=
  if additional ≤ 23 then .ok (.simple additional)
  else match additional with
    | 24 => do
      let value ← Except.ofOption (p.err "simple value missing") argument
      if value < 256 then return .simple value else .error (p.err "simple value out of range")
    | 25 | 26 | 27 => .ok .float
    | _ => .error (p.err "invalid CBOR simple or floating-point value")

/-- What follows the head of an item of major type `major`. -/
def content (major additional : Nat) (argument : Option Nat) (p : Parser) :
    Except Error ((Kind × List Item) × Parser) :=
  match major with
  | 0 => do
    let _ ← Except.ofOption (p.err "unsigned integer missing argument") argument
    return ((.unsigned, []), p)
  | 1 => do
    let _ ← Except.ofOption (p.err "negative integer missing argument") argument
    return ((.negative, []), p)
  | 2 => string child .bytes argument p
  | 3 => string child .text argument p
  | 4 => array child argument p
  | 5 => map c child argument p
  | 6 => tag child argument p
  -- three bits leave 7 only
  | _ => do return ((← p.simple additional argument, []), p)

/-- One level of `Parser::parse`. -/
def parseItem (p : Parser) : Except Error (Item × Parser) := do
  let p ← p.countItem
  let start := p.pos
  let (initial, p) ← p.byte
  Except.failIf (initial = 0xff) (p.err "unexpected CBOR break")
  let major := initial.toNat / 32
  let additional := initial.toNat % 32
  let (argument, p) ← p.uint additional
  let contentStart := p.pos
  let indefinite := argument.isNone
  Except.failIf (indefinite = true ∧ ¬ (2 ≤ major ∧ major ≤ 5))
    (p.err "indefinite marker is invalid for this CBOR type")
  Except.failIf (indefinite = true ∧ p.limits.requireDefinite = true)
    (p.err "indefinite-length CBOR is not permitted")
  let ((kind, children), p) ← p.content c child major additional argument
  return (.mk kind start contentStart p.pos indefinite children, p)

end Content

/-- `Parser::parse`.  `levels` is `max_depth + 1 - depth`: it counts the nesting
levels still permitted, and is 0 exactly when the source finds `depth > max_depth`. -/
def parse : (levels : Nat) → Parser → Except Error (Item × Parser)
  | 0, p => .error (.limitExceeded "CBOR nesting" p.limits.maxDepth)
  | levels + 1, p => parseItem c (parse levels) p

end Parser

/-! ### Whole inputs -/

section Root

variable (c : Cbor2)

/-- `root_with_duplicate_policy`. -/
def rootWithDuplicatePolicy (data : Bytes) (limits : CborLimits) (rejectDuplicateKeys : Bool) :
    Except Error Item := do
  let (item, p) ← (Parser.new data limits rejectDuplicateKeys).parse c (limits.maxDepth + 1)
  Except.failIf (p.pos ≠ data.length) (.cbor s!"trailing CBOR data at byte {p.pos}")
  return item

/-- `root`. -/
def root (data : Bytes) (limits : CborLimits) : Except Error Item :=
  rootWithDuplicatePolicy c data limits true

end Root
end Strict
end Cose2

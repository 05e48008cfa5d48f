import Cose2.Panic
import Cose2.SdCwt.Coherence
import Cose2.SdCwt.KeptItems

/-! # Three counters of items

A disclosure is counted by the strict parser, which reads its encoding, by `item_count`,
which walks its value with a stack of its own, and by the validator, which spends a budget.
They count the same items, so that the loop over `sd_claims`, which gives each disclosure
what the ones before it have left, never has less left than a disclosure takes.
-/
namespace Cose2.SdCwt

open Cbor

/-! ### The budget of the validator -/

section Budget

variable {c : SdCbor2} {b b' : TraversalBudget} {depth : Nat}

/-- Exactly the given number of items is spent, and was there to be spent. -/
def Spends (b : TraversalBudget) (n : Nat) (b' : TraversalBudget) : Prop :=
  b.Affords n ∧ b' = b.spend n

theorem Spends.trans {n m : Nat} {b₁ : TraversalBudget} (h : Spends b n b₁)
    (h' : Spends b₁ m b') : Spends b (n + m) b' := by
  obtain ⟨haffords, rfl⟩ := h
  obtain ⟨haffords', rfl⟩ := h'
  exact ⟨TraversalBudget.affords_add.mpr ⟨haffords, haffords'⟩,
    TraversalBudget.spend_spend b n m⟩

theorem spends_enter (h : b.enter depth = .ok b') : Spends b 1 b' :=
  (TraversalBudget.enter_ok.mp h).2

theorem spends_nothing (b : TraversalBudget) : Spends b 0 b :=
  ⟨TraversalBudget.affords_zero b, rfl⟩

/-- The entries of a map spend their keys and values. -/
theorem spends_entries {es : List (Value × Value)} {keys : List Bytes}
    (hvalues : ∀ e ∈ es, ∀ b b' depth, validateIssuedValue c e.2 b depth = .ok b' →
      Spends b (items e.2) b')
    (h : validateIssuedEntries c es keys b depth = .ok b') :
    Spends b (items.itemsEntries es) b' := by
  induction es generalizing keys b with
  | nil =>
    rw [validateIssuedEntries, Except.ok.injEq] at h
    subst h
    exact spends_nothing b
  | cons e es ih =>
    obtain ⟨key, value⟩ := e
    rw [List.forall_mem_cons] at hvalues
    rw [validateIssuedEntries] at h
    obtain ⟨b₁, henter, h⟩ := Except.bind_eq_ok.mp h
    obtain ⟨canonical, -, h⟩ := Except.bind_eq_ok.mp h
    obtain ⟨-, h⟩ := Except.seq_eq_ok.mp h
    -- a key is one item, whichever of the two kinds it is
    have hentry : ∃ b₂, IsKey key ∧ Spends b₁ (items value) b₂ ∧
        validateIssuedEntries c es (canonical :: keys) b₂ depth = .ok b' := by
      by_cases hmarked : isRedactedClaimKeysLabel key = true
      · simp only [if_pos hmarked] at h
        obtain ⟨⟨hashes, b₂⟩, hread, hrest⟩ := Except.bind_eq_ok.mp h
        obtain ⟨rfl, -, -, -, hspends⟩ := readRedactedKeys_ok.mp hread
        refine ⟨b₂, .inl (isRedactedClaimKeysLabel_iff.mp hmarked), ?_, hrest⟩
        rw [items, itemsAll_hashes]
        exact hspends
      · simp only [if_neg hmarked] at h
        obtain ⟨label, hlabel, h⟩ := Except.bind_eq_ok.mp h
        obtain ⟨b₂, hvalue, hrest⟩ := Except.bind_eq_ok.mp h
        exact ⟨b₂, .inr ⟨label, Except.mapError_eq_ok.mp hlabel⟩,
          hvalues.1 b₁ b₂ (depth + 1) hvalue, hrest⟩
    obtain ⟨b₂, hkey, hspends, hrest⟩ := hentry
    rw [items.itemsEntries, items_scalar hkey.scalar]
    exact ((spends_enter henter).trans hspends).trans (ih hvalues.2 hrest)

/-- The elements of an array spend their items, two for a redacted one. -/
theorem spends_items {vs : List Value}
    (hvalues : ∀ v ∈ vs, ∀ b b' depth, validateIssuedValue c v b depth = .ok b' →
      Spends b (items v) b')
    (h : validateIssuedItems c vs b depth = .ok b') : Spends b (items.itemsAll vs) b' := by
  induction vs generalizing b with
  | nil =>
    rw [validateIssuedItems, Except.ok.injEq] at h
    subst h
    exact spends_nothing b
  | cons v vs ih =>
    rw [List.forall_mem_cons] at hvalues
    rw [validateIssuedItems] at h
    cases hinner : redactedInner v with
    | some inner =>
      rw [hinner] at h
      obtain ⟨b₁, henter, h⟩ := Except.bind_eq_ok.mp h
      obtain ⟨b₂, henter', h⟩ := Except.bind_eq_ok.mp h
      obtain ⟨hash, hhash, hrest⟩ := Except.bind_eq_ok.mp h
      rw [redactedInner_eq_some.mp hinner, expectBytes_ok.mp hhash]
      exact ((spends_enter henter).trans (spends_enter henter')).trans (ih hvalues.2 hrest)
    | none =>
      rw [hinner] at h
      obtain ⟨b₁, hitem, hrest⟩ := Except.bind_eq_ok.mp h
      exact (hvalues.1 b b₁ (depth + 1) hitem).trans (ih hvalues.2 hrest)

/-- **The validator spends the items of the value.** -/
theorem spends_value {v : Value} (h : validateIssuedValue c v b depth = .ok b') :
    Spends b (items v) b' := by
  induction v generalizing b b' depth with
  | map es ih =>
    rw [validateIssuedValue] at h
    obtain ⟨b₁, henter, h⟩ := Except.bind_eq_ok.mp h
    obtain ⟨-, hrest⟩ := Except.seq_eq_ok.mp h
    exact (spends_enter henter).trans
      (spends_entries (fun e he b b' depth => (ih e he).2) hrest)
  | array vs ih =>
    rw [validateIssuedValue] at h
    obtain ⟨b₁, henter, h⟩ := Except.bind_eq_ok.mp h
    obtain ⟨-, hrest⟩ := Except.seq_eq_ok.mp h
    exact (spends_enter henter).trans (spends_items (fun v hv b b' depth => ih v hv) hrest)
  | tag t v ih =>
    rw [validateIssuedValue] at h
    obtain ⟨b₁, henter, hrest⟩ := Except.bind_eq_ok.mp h
    by_cases ht : IsReservedTag t
    · rw [if_pos ht] at hrest
      cases hrest
    · rw [if_neg ht] at hrest
      exact (spends_enter henter).trans (ih hrest)
  | simple s =>
    rw [validateIssuedValue] at h
    obtain ⟨b₁, henter, hrest⟩ := Except.bind_eq_ok.mp h
    by_cases hlabel : isRedactedClaimKeysLabel (.simple s) = true
    · rw [if_pos hlabel] at hrest
      cases hrest
    · rw [if_neg hlabel] at hrest
      cases Except.pure_eq_ok.mp hrest
      exact spends_enter henter
  | integer | bytes | text | float | bool | null =>
    simp only [validateIssuedValue] at h
    exact spends_enter h

end Budget

/-! ### One disclosure -/

section Disclosures

variable {c : SdCbor2} {limits : ProcessingLimits} {encoded : Bytes} {d : Disclosure}

/-- A disclosure is decoded from what it is encoded as. -/
theorem decodeDisclosureValue_ok {value : Value} {kind : DisclosureKind}
    (h : decodeDisclosureValue value = .ok kind) : value = kind.toValue := by
  unfold decodeDisclosureValue at h
  split at h
  · obtain ⟨salt, hsalt, hkind⟩ := Except.bind_eq_ok.mp h
    cases Except.pure_eq_ok.mp hkind
    rw [expectBytes_ok.mp hsalt]
    rfl
  · obtain ⟨salt, hsalt, hkind⟩ := Except.bind_eq_ok.mp h
    cases Except.pure_eq_ok.mp hkind
    rw [expectBytes_ok.mp hsalt]
    rfl
  · obtain ⟨salt, hsalt, h⟩ := Except.bind_eq_ok.mp h
    obtain ⟨key, hkey, hkind⟩ := Except.bind_eq_ok.mp h
    cases Except.pure_eq_ok.mp hkind
    rw [expectBytes_ok.mp hsalt, labelFromValue_ok hkey]
    rfl
  · cases h
  · cases h

/-- What `from_encoded_with_limits` has checked. -/
structure Decoded (c : SdCbor2) (limits : ProcessingLimits) (encoded : Bytes)
    (d : Disclosure) : Prop where
  same : d.encoded = encoded
  root : ∃ it, Strict.root c.toCbor2 encoded (definiteCborLimits limits) = .ok it
  read : c.fromSlice encoded = .ok d.kind.toValue
  value : validateDisclosureValue c d.kind limits = .ok ()

theorem decoded_of_fromEncoded
    (h : Disclosure.fromEncodedWithLimits c encoded limits = .ok d) :
    Decoded c limits encoded d := by
  rw [Disclosure.fromEncodedWithLimits, Except.seq_eq_ok, Except.seq_eq_ok] at h
  obtain ⟨-, hcbor, h⟩ := h
  obtain ⟨it, hroot, -⟩ := Except.bind_eq_ok.mp hcbor
  obtain ⟨value, hread, h⟩ := Except.bind_eq_ok.mp h
  obtain ⟨kind, hkind, h⟩ := Except.bind_eq_ok.mp h
  rw [decodeDisclosureValue_ok hkind] at hread
  split at h
  · cases h
  · obtain ⟨hvalue, hd⟩ := Except.seq_eq_ok.mp h
    cases Except.pure_eq_ok.mp hd
    exact ⟨rfl, ⟨it, hroot⟩, hread, hvalue⟩

/-- The parser reads all of the encoding and counts `count` items in it. -/
def ParserCounts (c : SdCbor2) (limits : ProcessingLimits) (encoded : Bytes) (count : Nat) :
    Prop :=
  ∃ it p', (Strict.Parser.new encoded (definiteCborLimits limits) true).parse c.toCbor2
    (limits.maxDepth + 1) = .ok (it, p') ∧ p'.pos = encoded.length ∧ p'.items = count

/-- The budget that `validate_disclosure_value` is left with. -/
def spentBudget (c : SdCbor2) (limits : ProcessingLimits) (kind : DisclosureKind)
    (value : Value) : Except Error TraversalBudget := do
  let budget ← (TraversalBudget.mk limits 0).consume kind.fixedItems
  validateIssuedValue c value budget 0

/-- The three counters agree that a disclosure has `n` items.  What the parser counts beyond
that are the tags of bignums that `cbor2` reads as integers. -/
structure CountersAgree (c : SdCbor2) (keeps : Nat → Bytes → Bool) (limits : ProcessingLimits)
    (encoded : Bytes) (d : Disclosure) (n : Nat) : Prop where
  parsed : ∃ t : Tree, t.Fits ∧ encoded = t.bytes ∧
    ParserCounts c limits encoded (n + reducedBignums keeps t)
  counted : d.itemCount = .ok n
  charged : ∀ value, d.kind.value = some value →
    ∃ budget, spentBudget c limits d.kind value = .ok budget ∧ budget.visited = n

theorem spends_disclosure {value : Value} (hvalue : d.kind.value = some value)
    (h : validateDisclosureValue c d.kind limits = .ok ()) :
    ∃ budget, spentBudget c limits d.kind value = .ok budget ∧
      Spends ⟨limits, 0⟩ d.items budget := by
  rw [validateDisclosureValue, hvalue] at h
  obtain ⟨b₁, hfixed, h⟩ := Except.bind_eq_ok.mp h
  obtain ⟨b₂, hvalid, -⟩ := Except.bind_eq_ok.mp h
  have hpos : 0 < d.kind.fixedItems := by
    cases d.kind with
    | claim | element | decoy => exact Nat.succ_pos _
  refine ⟨b₂, Except.bind_eq_ok.mpr ⟨b₁, hfixed, hvalid⟩, ?_⟩
  have hspends := Spends.trans ((TraversalBudget.consume_ok hpos).mp hfixed)
    (spends_value hvalid)
  rw [Disclosure.items, hvalue]
  exact hspends

variable {keeps : Nat → Bytes → Bool} (hi : c.ReadsItems) (hk : c.KeepsParts keeps)
include hi hk

/-- The encoding of a disclosure has its items, bignums apart. -/
theorem count_of_decoded (h : Decoded c limits encoded d) : ∃ t : Tree, t.Fits ∧
    encoded = t.bytes ∧ t.count = d.items + reducedBignums keeps t ∧
    ParserCounts c limits encoded t.count ∧ t.count ≤ limits.maxItems := by
  obtain ⟨it, hroot⟩ := h.root
  obtain ⟨t, rfl, hfits, hlimits, hkeys, -⟩ :=
    (Strict.rootWithDuplicatePolicy_ok c.toCbor2).mp hroot
  obtain ⟨t', hitem, hvalue⟩ := Except.bind_eq_ok.mp (Except.mapError_eq_ok.mp h.read)
  obtain ⟨hwell, hbytes⟩ := hi.sound hitem
  obtain rfl := bytes_inj hfits hwell.fits hbytes
  have hcount := count_of_readAs (hk.of_value hvalue) (hlimits.definite rfl)
  rw [DisclosureKind.items_toValue] at hcount
  refine ⟨t, hfits, rfl, hcount, ?_, hlimits.items⟩
  refine ⟨_, _, Strict.parse_bytes c.toCbor2 hfits hlimits hkeys, ?_, ?_⟩
  · exact Nat.zero_add _
  · exact Nat.zero_add _

/-- **The counters agree on every disclosure that is decoded**, and its items are within the
limit. -/
theorem countersAgree_of_fromEncoded
    (h : Disclosure.fromEncodedWithLimits c encoded limits = .ok d) :
    CountersAgree c keeps limits encoded d d.items ∧ d.items ≤ limits.maxItems := by
  have hdecoded := decoded_of_fromEncoded h
  obtain ⟨t, hfits, hbytes, hcount, hparser, hmax⟩ := count_of_decoded hi hk hdecoded
  have hcharged (value : Value) (hvalue : d.kind.value = some value) :=
    spends_disclosure hvalue hdecoded.value
  refine ⟨⟨⟨t, hfits, hbytes, hcount ▸ hparser⟩, ?_, ?_⟩, by omega⟩
  · refine Disclosure.itemCount_ok.mpr ⟨fun hsome => ?_, rfl⟩
    obtain ⟨value, hvalue⟩ := Option.isSome_iff_exists.mp hsome
    obtain ⟨budget, -, haffords, -⟩ := hcharged value hvalue
    have hpos := d.items_pos
    rw [TraversalBudget.Affords] at haffords
    simp only at haffords
    omega
  · intro value hvalue
    obtain ⟨budget, hspent, -, rfl⟩ := hcharged value hvalue
    exact ⟨_, hspent, Nat.zero_add _⟩

end Disclosures

/-! ### All disclosures -/

section Loop

open Checked

variable (c : SdCbor2)

/-- The loop of `disclosures_from_unprotected_with_limits`, with a panic where `checked_sub`
finds that fewer items remain than the disclosure has. -/
def checkedReadDisclosures (limits : ProcessingLimits) :
    List Value → (salts : List Bytes) → (totalBytes remainingItems : Nat) →
    Checked Error (List Disclosure)
  | [], _, _, _ => pure []
  | item :: items, salts, totalBytes, remainingItems => do
    let encoded ← lift (expectBytes item "sd_claims entries must be byte strings")
    lift (Except.failIf (¬ totalBytes + encoded.length < usizeBound)
      (.custom "SD-CWT disclosure size overflow"))
    let totalBytes := totalBytes + encoded.length
    lift (Except.failIf (limits.maxDisclosureBytes < totalBytes)
      (.limitExceeded "SD-CWT disclosure bytes" limits.maxDisclosureBytes))
    let disclosure ← lift (Disclosure.fromEncodedWithLimits c encoded
      { limits with maxItems := remainingItems })
    lift (Except.failIf (disclosure.salt ∈ salts) (.verify "duplicate SD-CWT disclosure salt"))
    let count ← lift disclosure.itemCount
    let remainingItems ← sub remainingItems count
    let disclosures ← checkedReadDisclosures limits items (disclosure.salt :: salts) totalBytes
      remainingItems
    return disclosure :: disclosures

/-- `disclosures_from_unprotected_with_limits`, with that panic. -/
def checkedDisclosuresFromUnprotected (header : Header) (limits : ProcessingLimits) :
    Checked Error (List Disclosure) :=
  match header.get headerSdClaims with
  | none => pure []
  | some (.array items) => do
    lift (Except.failIf (items = [])
      (.custom "sd_claims must be omitted instead of containing an empty array"))
    lift (Except.failIf (limits.maxDisclosures < items.length)
      (.limitExceeded "SD-CWT disclosure" limits.maxDisclosures))
    lift (Except.failIf (¬ items.length + 1 < usizeBound) (.custom "SD-CWT item count overflow"))
    lift (Except.failIf (limits.maxItems < items.length + 1)
      (.limitExceeded "SD-CWT disclosure values" limits.maxItems))
    checkedReadDisclosures c limits items [] 0 (limits.maxItems - (items.length + 1))
  | some _ => lift (.error (.unexpectedType "sd_claims must be an array"))

variable {c} {keeps : Nat → Bytes → Bool} {limits : ProcessingLimits}

section

variable (hi : c.ReadsItems) (hk : c.KeepsParts keeps)
include hi hk

/-- A disclosure takes no more items than remain, so that the loop goes on as if there were
nothing to check. -/
theorem returns_readDisclosures {vs : List Value} {salts : List Bytes}
    {totalBytes remaining : Nat} :
    Returns (checkedReadDisclosures c limits vs salts totalBytes remaining)
      (readDisclosures c limits vs salts totalBytes remaining) := by
  induction vs generalizing salts totalBytes remaining with
  | nil => exact returns_pure
  | cons v vs ih =>
    refine Returns.lift_bind fun encoded _ => Returns.lift_bind fun _ _ =>
      Returns.lift_bind fun _ _ => Returns.lift_bind fun d hd =>
      Returns.lift_bind fun _ _ => Returns.lift_bind fun n hn => ?_
    obtain ⟨hagree, hmax⟩ := countersAgree_of_fromEncoded hi hk hd
    have hle : n ≤ remaining := by
      rw [(Disclosure.itemCount_ok.mp hn).2]
      exact hmax
    rw [Except.failIf, if_neg (not_lt.mpr hle), Except.ok_bind]
    exact (returns_sub hle).bind_ok (ih.bind fun _ _ => returns_pure)

theorem returns_disclosuresFromUnprotected (header : Header) (limits : ProcessingLimits) :
    Returns (checkedDisclosuresFromUnprotected c header limits)
      (disclosuresFromUnprotected c header limits) := by
  rw [checkedDisclosuresFromUnprotected, disclosuresFromUnprotected]
  cases header.get headerSdClaims with
  | none => exact returns_pure
  | some v =>
    cases v with
    | array items =>
      exact Returns.lift_bind fun _ _ => Returns.lift_bind fun _ _ =>
        Returns.lift_bind fun _ _ => Returns.lift_bind fun _ _ =>
        returns_readDisclosures hi hk
    | integer | bytes | text | float | bool | null | simple | tag | map => exact returns_lift

end

/-- The bounds that hold of all disclosures together, after some that have been read. -/
structure ReadWithin (limits : ProcessingLimits) (salts : List Bytes)
    (totalBytes remaining : Nat) (ds : List Disclosure) : Prop where
  bytes : totalBytes + encodedBytes ds ≤ limits.maxDisclosureBytes
  counted : ∀ d ∈ ds, d.itemCount = .ok d.items
  items : disclosedItems ds ≤ remaining
  distinct : (ds.map Disclosure.salt).Nodup
  fresh : ∀ d ∈ ds, d.salt ∉ salts

/-- What the loop keeps up to its end. -/
theorem readWithin_of_ok {vs : List Value} {salts : List Bytes} {totalBytes remaining : Nat}
    {ds : List Disclosure} (htotal : totalBytes ≤ limits.maxDisclosureBytes)
    (h : readDisclosures c limits vs salts totalBytes remaining = .ok ds) :
    ds.length = vs.length ∧ ReadWithin limits salts totalBytes remaining ds := by
  induction vs generalizing salts totalBytes remaining ds with
  | nil =>
    rw [readDisclosures, Except.ok.injEq] at h
    subst h
    exact ⟨rfl, ⟨htotal, by simp, Nat.zero_le _, List.nodup_nil, by simp⟩⟩
  | cons v vs ih =>
    obtain ⟨encoded, hencoded, -⟩ := Except.bind_eq_ok.mp h
    rw [expectBytes_ok.mp hencoded, readDisclosures_cons] at h
    obtain ⟨-, hbytes, d, hd, hsalt, n, hn, hle, ds', hrest, rfl⟩ := h
    obtain ⟨hlen, hwithin⟩ := ih hbytes hrest
    have hsame := (decoded_of_fromEncoded hd).same
    have hcount := (Disclosure.itemCount_ok.mp hn).2
    refine ⟨by rw [List.length_cons, List.length_cons, hlen], ?_, ?_, ?_, ?_, ?_⟩
    · have hrest := hwithin.bytes
      rw [encodedBytes_cons, hsame]
      omega
    · rw [List.forall_mem_cons]
      exact ⟨hcount ▸ hn, hwithin.counted⟩
    · have hrest := hwithin.items
      rw [disclosedItems_cons]
      omega
    · refine List.nodup_cons.mpr ⟨fun hmem => ?_, hwithin.distinct⟩
      obtain ⟨d', hd', heq⟩ := List.mem_map.mp hmem
      exact hwithin.fresh d' hd' (by rw [heq]; exact List.mem_cons_self)
    · rw [List.forall_mem_cons]
      exact ⟨hsalt, fun d' hd' hmem => hwithin.fresh d' hd' (List.mem_cons_of_mem _ hmem)⟩

/-- The bounds on the disclosures that a header is read as, with their item counts.  Where
the parameter is missing no item is counted, not even the array it would be. -/
structure TotalsWithin (header : Header) (limits : ProcessingLimits) (ds : List Disclosure)
    (counts : List Nat) : Prop where
  counted : List.Forall₂ (fun d n => d.itemCount = .ok n) ds counts
  items : header.get headerSdClaims ≠ none ∨ limits.maxItems ≠ 0 →
    1 + ds.length + counts.sum ≤ limits.maxItems
  bytes : (ds.map fun d => d.encoded.length).sum ≤ limits.maxDisclosureBytes
  count : ds.length ≤ limits.maxDisclosures
  salts : (ds.map Disclosure.salt).Nodup

theorem totalsWithin_of_ok {header : Header} {ds : List Disclosure}
    (h : disclosuresFromUnprotected c header limits = .ok ds) :
    TotalsWithin header limits ds (ds.map Disclosure.items) := by
  rw [disclosuresFromUnprotected] at h
  cases hget : header.get headerSdClaims with
  | none =>
    rw [hget] at h
    cases h
    refine ⟨.nil, ?_, Nat.zero_le _, Nat.zero_le _, List.nodup_nil⟩
    rintro (hpresent | hitems)
    · exact absurd hget hpresent
    · show 1 + 0 + 0 ≤ limits.maxItems
      omega
  | some v =>
    rw [hget] at h
    cases v with
    | array items =>
      simp only [Except.seq_eq_ok, Except.failIf_eq_ok, not_lt] at h
      obtain ⟨-, hcount, -, hmax, hread⟩ := h
      obtain ⟨hlen, hwithin⟩ := readWithin_of_ok (Nat.zero_le _) hread
      have hitems := hwithin.items
      have hbytes := hwithin.bytes
      rw [disclosedItems] at hitems
      rw [encodedBytes] at hbytes
      refine ⟨?_, fun _ => by omega, by omega, by omega, hwithin.distinct⟩
      exact List.forall₂_map_right_iff.mpr (List.forall₂_same.mpr hwithin.counted)
    | integer | bytes | text | float | bool | null | simple | tag | map => cases h

end Loop

/-! ### The counters together -/

/-- **The three counters agree** on every disclosure that is decoded, for whatever limits; so
no disclosure takes more items than remain, and what is returned is within all limits
together. -/
theorem countersAgree {c : SdCbor2} {keeps : Nat → Bytes → Bool} (hi : c.ReadsItems)
    (hk : c.KeepsParts keeps) :
    (∀ encoded limits d, Disclosure.fromEncodedWithLimits c encoded limits = .ok d →
      ∃ n, CountersAgree c keeps limits encoded d n) ∧
    (∀ header limits, Checked.Returns (checkedDisclosuresFromUnprotected c header limits)
      (disclosuresFromUnprotected c header limits)) ∧
    ∀ header limits ds, disclosuresFromUnprotected c header limits = .ok ds →
      ∃ counts, TotalsWithin header limits ds counts := by
  refine ⟨?_, returns_disclosuresFromUnprotected hi hk, ?_⟩
  · intro encoded limits d hd
    exact ⟨d.items, (countersAgree_of_fromEncoded hi hk hd).1⟩
  · intro header limits ds hds
    exact ⟨_, totalsWithin_of_ok hds⟩

/-- A claim with markers of both kinds in its value. -/
def redactedClaim : Disclosure where
  kind := .claim (List.replicate 16 5) (.int 501) (.map [(.text "a", .array [redactedElement [1]]),
    (redactedClaimKeysLabel, .array [.bytes [2], .bytes [3]])])
  encoded := (DisclosureKind.claim (List.replicate 16 5) (.int 501)
    (.map [(.text "a", .array [redactedElement [1]]),
      (redactedClaimKeysLabel, .array [.bytes [2], .bytes [3]])])).toValue.canonical
  valid := rfl

theorem fromEncoded_redactedClaim :
    Disclosure.fromEncodedWithLimits .reference redactedClaim.encoded {} =
      .ok redactedClaim.asRead := by
  have hkind : Disclosure.fromKindWithLimits .reference redactedClaim.kind {} =
      .ok redactedClaim := rfl
  exact redactedClaim.fromEncoded_asRead SdCbor2.reference_readsCanonically hkind ⟨rfl, rfl⟩
    (by decide) (by decide) (by decide) (.inr ⟨by decide, by decide⟩)

/-- The counters agree on it. -/
theorem countersAgree_redactedClaim :
    Disclosure.fromEncodedWithLimits .reference redactedClaim.encoded {} =
        .ok redactedClaim.asRead ∧
      ∃ n, CountersAgree .reference keepsBignum {} redactedClaim.encoded
        redactedClaim.asRead n :=
  ⟨fromEncoded_redactedClaim, (countersAgree SdCbor2.reference_readsItems
    SdCbor2.reference_keepsParts).1 _ _ _ fromEncoded_redactedClaim⟩

/-- A header without the parameter is read under a limit of no items at all. -/
theorem not_itemsWithin : ¬ ∀ (header : Header) (limits : ProcessingLimits)
    (ds : List Disclosure), disclosuresFromUnprotected .reference header limits = .ok ds →
      1 + ds.length + disclosedItems ds ≤ limits.maxItems := by
  intro h
  have hempty := h ∅ { maxItems := 0 } [] rfl
  exact absurd hempty (by decide)

end Cose2.SdCwt

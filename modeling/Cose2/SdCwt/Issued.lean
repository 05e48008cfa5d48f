import Cose2.SdCwt.Issuance
import Cose2.SdCwt.Loading

/-! # What issuance makes of a value

As for restoration, `Issues` says without a context what issuance makes of a value:
the issued value, the disclosures in the order in which they are made, and the
number of items visited.  The context keeps its own account of the disclosures, which
makes them fit to be loaded together (`IssueContext.Consistent`).
-/
namespace Cose2.SdCwt

open Cbor

/-! ### The relation -/

section Relation

variable (c : SdCbor2) (limits : ProcessingLimits) (hasher : RedactionHasher)

section Loops

-- `next` relates a value at some depth to what is issued for it
variable (next : Nat → Value → Value → List Disclosure → Nat → Prop) (depth : Nat)

/-- The entries of a map: those that stay and their labels, the disclosures made for the
others and their labels, all disclosures, and the items visited. -/
inductive EntriesIssue : List (Value × Value) → List (Value × Value) → List Label →
    List Disclosure → List Label → List Disclosure → Nat → Prop
  | nil : EntriesIssue [] [] [] [] [] [] 0
  | redacted {inner value value' : Value} {salt : Bytes} {label : Label} {d : Disclosure}
    {es out : List (Value × Value)} {labels hidden : List Label} {own ds ds' : List Disclosure}
    {n n' : Nat} :
    depth + 2 ≤ limits.maxDepth → labelFromValue inner = .ok label →
    next (depth + 1) value value' ds n →
    Disclosure.fromKindWithLimits c (.claim salt label value') limits = .ok d →
    EntriesIssue es out labels own hidden ds' n' →
    EntriesIssue ((.tag toBeRedactedTag inner, value) :: es) out labels (d :: own)
      (label :: hidden) (ds ++ d :: ds') (1 + (1 + n) + n')
  | decoy {inner : Value} {salt : Bytes} {d : Disclosure} {es out : List (Value × Value)}
    {labels hidden : List Label} {own ds : List Disclosure} {n : Nat} :
    depth + 2 ≤ limits.maxDepth →
    Disclosure.fromKindWithLimits c (.decoy salt) limits = .ok d →
    EntriesIssue es out labels own hidden ds n →
    EntriesIssue ((.tag toBeDecoyTag inner, .null) :: es) out labels (d :: own) hidden (d :: ds)
      (1 + 2 + n)
  | plain {key value value' : Value} {label : Label} {es out : List (Value × Value)}
    {labels hidden : List Label} {own ds ds' : List Disclosure} {n n' : Nat} :
    labelFromValue key = .ok label → next (depth + 1) value value' ds n →
    EntriesIssue es out labels own hidden ds' n' →
    EntriesIssue ((key, value) :: es) ((key, value') :: out) (label :: labels) own hidden
      (ds ++ ds') (1 + n + n')

/-- An element of an array. -/
inductive ItemIssues : Value → Value → List Disclosure → Nat → Prop
  | redacted {inner value' : Value} {salt : Bytes} {d : Disclosure} {ds : List Disclosure}
    {n : Nat} :
    next (depth + 2) inner value' ds n →
    Disclosure.fromKindWithLimits c (.element salt value') limits = .ok d →
    ItemIssues (.tag toBeRedactedTag inner) (redactedElement (d.redactedHash hasher))
      (ds ++ [d]) (1 + n)
  | decoy {inner : Value} {salt : Bytes} {d : Disclosure} :
    depth + 2 ≤ limits.maxDepth →
    Disclosure.fromKindWithLimits c (.decoy salt) limits = .ok d →
    ItemIssues (.tag toBeDecoyTag inner) (redactedElement (d.redactedHash hasher)) [d] 2
  | plain {item item' : Value} {ds : List Disclosure} {n : Nat} :
    next (depth + 1) item item' ds n → ItemIssues item item' ds n

/-- The elements of an array. -/
inductive ItemsIssue : List Value → List Value → List Disclosure → Nat → Prop
  | nil : ItemsIssue [] [] [] 0
  | cons {item item' : Value} {items out : List Value} {ds ds' : List Disclosure} {n n' : Nat} :
    ItemIssues c limits hasher next depth item item' ds n → ItemsIssue items out ds' n' →
    ItemsIssue (item :: items) (item' :: out) (ds ++ ds') (n + n')

/-- A value whose parts are related by `next`. -/
inductive ValueIssues : Value → Value → List Disclosure → Nat → Prop
  | map {es out : List (Value × Value)} {labels hidden : List Label} {own ds : List Disclosure}
    {n : Nat} :
    depth ≤ limits.maxDepth → es.length ≤ limits.maxContainerEntries →
    EntriesIssue c limits next depth es out labels own hidden ds n → (labels ++ hidden).Nodup →
    ValueIssues (.map es)
      (.map (out ++ undisclosedEntry (own.map fun d => d.redactedHash hasher))) ds (1 + n)
  | array {items out : List Value} {ds : List Disclosure} {n : Nat} :
    depth ≤ limits.maxDepth → items.length ≤ limits.maxContainerEntries →
    ItemsIssue c limits hasher next depth items out ds n →
    ValueIssues (.array items) (.array out) ds (1 + n)
  | tag {t : UInt64} {value value' : Value} {ds : List Disclosure} {n : Nat} :
    depth ≤ limits.maxDepth → ¬ IsReservedTag t → next (depth + 1) value value' ds n →
    ValueIssues (.tag t value) (.tag t value') ds (1 + n)
  | scalar {value : Value} : depth ≤ limits.maxDepth → IsScalar value →
    isRedactedClaimKeysLabel value = false → ValueIssues value value [] 1

end Loops

/-- A value that goes no deeper than `levels`. -/
def Issues : (levels depth : Nat) → Value → Value → List Disclosure → Nat → Prop
  | 0, _ => fun _ _ _ _ => False
  | levels + 1, depth => ValueIssues c limits hasher (Issues levels) depth

end Relation

/-! ### The context -/

namespace IssueContext

/-- The disclosures made so far can be loaded together, and are all known. -/
structure Consistent (ctx : IssueContext) : Prop where
  count : ctx.disclosures.length ≤ ctx.budget.limits.maxDisclosures
  bytes : ctx.disclosureBytes = encodedBytes ctx.disclosures
  size : ctx.disclosureBytes < usizeBound
  maxBytes : ctx.disclosureBytes ≤ ctx.budget.limits.maxDisclosureBytes
  digests : (ctx.disclosures.map fun d => d.redactedHash ctx.hasher).Nodup
  digestsSeen : ∀ d ∈ ctx.disclosures, d.redactedHash ctx.hasher ∈ ctx.digestsUsed
  salts : (ctx.disclosures.map Disclosure.salt).Nodup
  saltsSeen : ∀ d ∈ ctx.disclosures, d.salt ∈ ctx.saltsUsed

/-- The context after some disclosures and visits. -/
structure Makes (ctx : IssueContext) (ds : List Disclosure) (n : Nat) (ctx' : IssueContext) :
    Prop where
  hasher : ctx'.hasher = ctx.hasher
  disclosures : ctx'.disclosures = ctx.disclosures ++ ds
  affords : ctx.budget.Affords n
  budget : ctx'.budget = ctx.budget.spend n
  consistent : ctx.Consistent → ctx'.Consistent

variable {ctx ctx' ctx'' : IssueContext} {ds ds' : List Disclosure} {n n' : Nat}

theorem Makes.refl (ctx : IssueContext) : ctx.Makes [] 0 ctx :=
  ⟨rfl, (List.append_nil _).symm, .inl rfl, rfl, id⟩

theorem Makes.trans (h : ctx.Makes ds n ctx') (h' : ctx'.Makes ds' n' ctx'') :
    ctx.Makes (ds ++ ds') (n + n') ctx'' := by
  refine ⟨h'.hasher.trans h.hasher, ?_, ?_, ?_, fun hc => h'.consistent (h.consistent hc)⟩
  · rw [h'.disclosures, h.disclosures, List.append_assoc]
  · refine TraversalBudget.affords_add.mpr ⟨h.affords, ?_⟩
    rw [← h.budget]
    exact h'.affords
  · rw [h'.budget, h.budget, TraversalBudget.spend_spend]

theorem Makes.limits (h : ctx.Makes ds n ctx') : ctx'.budget.limits = ctx.budget.limits := by
  rw [h.budget]
  rfl

theorem enter_makes {depth : Nat} (h : ctx.enter depth = .ok ctx') :
    depth ≤ ctx.budget.limits.maxDepth ∧ ctx.Makes [] 1 ctx' := by
  simp only [enter, Except.bind_eq_ok, Except.pure_eq_ok, TraversalBudget.enter_ok] at h
  obtain ⟨b, ⟨hdepth, haffords, rfl⟩, rfl⟩ := h
  refine ⟨hdepth, rfl, (List.append_nil _).symm, haffords, rfl, fun hc => ?_⟩
  exact ⟨hc.count, hc.bytes, hc.size, hc.maxBytes, hc.digests, hc.digestsSeen, hc.salts,
    hc.saltsSeen⟩

theorem recordDecoyId_makes {value : Value} (h : ctx.recordDecoyId value = .ok ctx') :
    ctx.Makes [] 0 ctx' := by
  cases value with
  | integer id =>
    obtain ⟨_, h⟩ := Except.seq_eq_ok.mp h
    obtain ⟨_, h⟩ := Except.seq_eq_ok.mp h
    obtain ⟨_, h⟩ := Except.seq_eq_ok.mp h
    rw [Except.pure_eq_ok] at h
    subst h
    refine ⟨rfl, (List.append_nil _).symm, .inl rfl, rfl, fun hc => ?_⟩
    exact ⟨hc.count, hc.bytes, hc.size, hc.maxBytes, hc.digests, hc.digestsSeen, hc.salts,
      hc.saltsSeen⟩
  | bytes | text | float | bool | null | simple | tag | array | map => cases h

theorem nextSalt_ok {salt : Bytes} (h : ctx.nextSalt = .ok (salt, ctx')) :
    salt ∉ ctx.saltsUsed ∧
      ctx' = { ctx with saltCalls := ctx.saltCalls + 1, saltsUsed := salt :: ctx.saltsUsed } := by
  rw [nextSalt, Except.bind_eq_ok] at h
  obtain ⟨salt', _, h⟩ := h
  obtain ⟨hnew, h⟩ := Except.seq_eq_ok.mp h
  rw [Except.pure_eq_ok, Prod.mk.injEq] at h
  rw [Except.failIf_eq_ok] at hnew
  obtain ⟨hsalt, hctx⟩ := h
  subst hsalt
  exact ⟨hnew, hctx.symm⟩

theorem addDisclosure_ok {c : SdCbor2} {kind : DisclosureKind} {hash : Bytes}
    (h : ctx.addDisclosure c kind = .ok (hash, ctx')) :
    ∃ d, Disclosure.fromKindWithLimits c kind ctx.budget.limits = .ok d ∧
      ctx.disclosures.length < ctx.budget.limits.maxDisclosures ∧
      ctx.disclosureBytes + d.encoded.length < usizeBound ∧
      ctx.disclosureBytes + d.encoded.length ≤ ctx.budget.limits.maxDisclosureBytes ∧
      d.redactedHash ctx.hasher ∉ ctx.digestsUsed ∧ hash = d.redactedHash ctx.hasher ∧
      ctx' = { ctx with
        disclosureBytes := ctx.disclosureBytes + d.encoded.length
        digestsUsed := d.redactedHash ctx.hasher :: ctx.digestsUsed
        disclosures := ctx.disclosures ++ [d] } := by
  rw [addDisclosure, Except.bind_eq_ok] at h
  obtain ⟨d, hd, h⟩ := h
  simp only [Except.seq_eq_ok, Except.failIf_eq_ok, Except.pure_eq_ok, Prod.mk.injEq, not_le,
    not_lt] at h
  obtain ⟨hcount, hsize, hbytes, hnew, hhash, hctx⟩ := h
  exact ⟨d, hd, hcount, hsize, hbytes, hnew, hhash.symm, hctx.symm⟩

/-- A new disclosure has a salt and a digest of its own. -/
theorem disclose_makes {c : SdCbor2} {kind : Bytes → DisclosureKind} {hash : Bytes}
    (hkind : ∀ salt, (kind salt).salt = salt) (h : ctx.disclose c kind = .ok (hash, ctx')) :
    ∃ salt d, Disclosure.fromKindWithLimits c (kind salt) ctx.budget.limits = .ok d ∧
      hash = d.redactedHash ctx.hasher ∧ ctx.Makes [d] 0 ctx' := by
  rw [disclose, Except.bind_eq_ok] at h
  obtain ⟨⟨salt, ctx₁⟩, hsalt, h⟩ := h
  obtain ⟨hfresh, hctx₁⟩ := nextSalt_ok hsalt
  obtain ⟨d, hd, hcount, hsize, hbytes, hnew, hhash, hctx'⟩ := addDisclosure_ok h
  subst hctx₁ hctx'
  have hdsalt : d.salt = salt := by
    rw [Disclosure.salt, (Disclosure.fromKindWithLimits_ok c |>.mp hd).1, hkind]
  refine ⟨salt, d, hd, hhash, rfl, rfl, .inl rfl, rfl, fun hc => ?_⟩
  have hsum : encodedBytes (ctx.disclosures ++ [d]) =
      encodedBytes ctx.disclosures + d.encoded.length := by
    rw [encodedBytes, List.map_append, List.sum_append, encodedBytes]
    rfl
  have hcount' : (ctx.disclosures ++ [d]).length ≤ ctx.budget.limits.maxDisclosures := by
    rw [List.length_append]
    exact hcount
  refine ⟨hcount', ?_, hsize, hbytes, ?_, ?_, ?_, ?_⟩
  · rw [hsum, ← hc.bytes]
  · rw [List.map_append]
    refine List.nodup_append.mpr ⟨hc.digests, List.nodup_singleton _, fun a ha b hb hab => ?_⟩
    obtain ⟨d', hd', rfl⟩ := List.mem_map.mp ha
    rw [List.map_singleton, List.mem_singleton] at hb
    subst hb
    exact hnew (hab ▸ hc.digestsSeen d' hd')
  · intro d' hd'
    rcases List.mem_append.mp hd' with hd' | hd'
    · exact List.mem_cons_of_mem _ (hc.digestsSeen d' hd')
    · rw [List.mem_singleton.mp hd']
      exact List.mem_cons_self
  · rw [List.map_append]
    refine List.nodup_append.mpr ⟨hc.salts, List.nodup_singleton _, fun a ha b hb hab => ?_⟩
    obtain ⟨d', hd', rfl⟩ := List.mem_map.mp ha
    rw [List.map_singleton, List.mem_singleton, hdsalt] at hb
    subst hb
    exact hfresh (hab ▸ hc.saltsSeen d' hd')
  · intro d' hd'
    rcases List.mem_append.mp hd' with hd' | hd'
    · exact List.mem_cons_of_mem _ (hc.saltsSeen d' hd')
    · rw [List.mem_singleton.mp hd', hdsalt]
      exact List.mem_cons_self

end IssueContext

/-! ### The walk -/

/-- A program makes of a context only what the relation says. -/
def KeepsTo {α : Type} (limits : ProcessingLimits) (hasher : RedactionHasher)
    (f : IssueContext → Except Error (α × IssueContext))
    (R : α → List Disclosure → Nat → Prop) : Prop :=
  ∀ ctx ctx' a, ctx.budget.limits = limits → ctx.hasher = hasher → f ctx = .ok (a, ctx') →
    ∃ ds n, R a ds n ∧ ctx.Makes ds n ctx'

section Walk

variable {c : SdCbor2} {limits : ProcessingLimits} {hasher : RedactionHasher}
  {next : Value → IssueContext → Nat → Except Error (Value × IssueContext)}
  {R : Nat → Value → Value → List Disclosure → Nat → Prop} {depth : Nat}
  {ctx ctx' : IssueContext}

theorem insertNormalizedKey_ok {keys keys' : List Bytes} {key : Value} :
    insertNormalizedKey c keys key = .ok keys' ↔
      ∃ k, c.canonicalVec key = .ok k ∧ k ∉ keys ∧ keys' = k :: keys := by
  rw [insertNormalizedKey]
  simp only [Except.bind_eq_ok, Except.failIf_eq_ok, Except.pure_eq_ok]
  constructor
  · rintro ⟨k, hk, _, hnew, heq⟩
    exact ⟨k, hk, hnew, heq.symm⟩
  · rintro ⟨k, hk, hnew, heq⟩
    exact ⟨k, hk, (), hnew, heq.symm⟩

/-- The label is not one of those whose encodings are known. -/
def NewLabel (c : SdCbor2) (keys : List Bytes) (label : Label) : Prop :=
  ∀ k, c.canonicalVec label.toValue = .ok k → k ∉ keys

theorem newLabel_cons {k : Bytes} {keys : List Bytes} {label : Label}
    (h : NewLabel c (k :: keys) label) : NewLabel c keys label :=
  fun k' hk' hmem => h k' hk' (List.mem_cons_of_mem _ hmem)

theorem newLabel_ne {k : Bytes} {keys : List Bytes} {label label' : Label}
    (hk : c.canonicalVec label.toValue = .ok k) (h : NewLabel c (k :: keys) label') :
    label' ≠ label := by
  intro heq
  subst heq
  exact h k hk List.mem_cons_self

/-- A label whose encoding was new goes before labels that differ from it. -/
theorem newLabel_step {k : Bytes} {keys : List Bytes} {label : Label} {before after : List Label}
    (hk : c.canonicalVec label.toValue = .ok k) (hnew : k ∉ keys)
    (hnodup : (before ++ after).Nodup) (hfresh : ∀ l ∈ before ++ after, NewLabel c (k :: keys) l) :
    (before ++ label :: after).Nodup ∧ ∀ l ∈ before ++ label :: after, NewLabel c keys l := by
  constructor
  · rw [List.perm_middle.nodup_iff, List.nodup_cons]
    exact ⟨fun hmem => newLabel_ne hk (hfresh label hmem) rfl, hnodup⟩
  · intro l hl
    rcases List.mem_cons.mp (List.perm_middle.mem_iff.mp hl) with hl | hl
    · rw [hl]
      intro k' hk'
      rw [hk] at hk'
      cases hk'
      exact hnew
    · exact newLabel_cons (hfresh l hl)

variable (hnext : ∀ v depth, KeepsTo limits hasher (fun ctx => next v ctx depth) (R depth v))
  (hlimits : ctx.budget.limits = limits) (hhasher : ctx.hasher = hasher)
include hnext hlimits hhasher

theorem issueRedactedEntry_makes {inner value : Value} {keys keys' : List Bytes} {hash : Bytes}
    (h : issueRedactedEntry c next depth inner value keys ctx = .ok (hash, keys', ctx')) :
    ∃ label k value' ds n salt d, depth + 2 ≤ limits.maxDepth ∧
      labelFromValue inner = .ok label ∧ c.canonicalVec label.toValue = .ok k ∧ k ∉ keys ∧
      keys' = k :: keys ∧ R (depth + 1) value value' ds n ∧
      Disclosure.fromKindWithLimits c (.claim salt label value') limits = .ok d ∧
      hash = d.redactedHash hasher ∧ ctx.Makes (ds ++ [d]) (1 + n) ctx' := by
  rw [issueRedactedEntry, Except.bind_eq_ok] at h
  obtain ⟨ctx₁, henter, h⟩ := h
  obtain ⟨hdepth, hmakes₁⟩ := IssueContext.enter_makes henter
  obtain ⟨label, hlabel, h⟩ := Except.bind_eq_ok.mp h
  obtain ⟨_, h⟩ := Except.seq_eq_ok.mp h
  obtain ⟨keys₁, hkeys, h⟩ := Except.bind_eq_ok.mp h
  obtain ⟨k, hk, hnew, hkeys₁⟩ := insertNormalizedKey_ok.mp hkeys
  obtain ⟨⟨value', ctx₂⟩, hvalue, h⟩ := Except.bind_eq_ok.mp h
  obtain ⟨⟨hash', ctx₃⟩, hdisclose, h⟩ := Except.bind_eq_ok.mp h
  rw [Except.pure_eq_ok, Prod.mk.injEq, Prod.mk.injEq] at h
  obtain ⟨hhash, hkeys', hctx⟩ := h
  subst hhash hkeys' hctx hkeys₁
  obtain ⟨ds, n, hR, hmakes₂⟩ := hnext value (depth + 1) ctx₁ ctx₂ value'
    (hmakes₁.limits.trans hlimits) (hmakes₁.hasher.trans hhasher) hvalue
  obtain ⟨salt, d, hd, hhash, hmakes₃⟩ := IssueContext.disclose_makes (fun _ => rfl) hdisclose
  have hmakes := (hmakes₁.trans hmakes₂).trans hmakes₃
  rw [(hmakes₁.trans hmakes₂).limits, hlimits] at hd
  rw [(hmakes₁.trans hmakes₂).hasher, hhasher] at hhash
  rw [hlimits] at hdepth
  exact ⟨label, k, value', ds, n, salt, d, hdepth, hlabel, hk, hnew, rfl, hR, hd, hhash, hmakes⟩

omit hnext in
theorem issueDecoyEntry_makes {inner value : Value} {keys keys' : List Bytes} {hash : Bytes}
    (h : issueDecoyEntry c depth inner value keys ctx = .ok (hash, keys', ctx')) :
    value = .null ∧ ∃ k salt d, depth + 2 ≤ limits.maxDepth ∧ keys' = k :: keys ∧
      Disclosure.fromKindWithLimits c (.decoy salt) limits = .ok d ∧
      hash = d.redactedHash hasher ∧ ctx.Makes [d] 2 ctx' := by
  rw [issueDecoyEntry, Except.bind_eq_ok] at h
  obtain ⟨ctx₁, henter, h⟩ := h
  obtain ⟨hdepth, hmakes₁⟩ := IssueContext.enter_makes henter
  obtain ⟨keys₁, hkeys, h⟩ := Except.bind_eq_ok.mp h
  obtain ⟨k, _, _, hkeys₁⟩ := insertNormalizedKey_ok.mp hkeys
  obtain ⟨ctx₂, hrecord, h⟩ := Except.bind_eq_ok.mp h
  cases value with
  | null =>
    obtain ⟨ctx₃, henter', h⟩ := Except.bind_eq_ok.mp h
    obtain ⟨⟨hash', ctx₄⟩, hdisclose, h⟩ := Except.bind_eq_ok.mp h
    rw [Except.pure_eq_ok, Prod.mk.injEq, Prod.mk.injEq] at h
    obtain ⟨hhash, hkeys', hctx⟩ := h
    subst hhash hkeys' hctx hkeys₁
    obtain ⟨salt, d, hd, hhash, hmakes₃⟩ := IssueContext.disclose_makes (fun _ => rfl) hdisclose
    have hmakes₂ := (hmakes₁.trans (IssueContext.recordDecoyId_makes hrecord)).trans
      (IssueContext.enter_makes henter').2
    rw [hmakes₂.limits, hlimits] at hd
    rw [hmakes₂.hasher, hhasher] at hhash
    rw [hlimits] at hdepth
    exact ⟨rfl, k, salt, d, hdepth, rfl, hd, hhash, hmakes₂.trans hmakes₃⟩
  | integer | bytes | text | float | bool | simple | tag | array | map => cases h

theorem issuePlainEntry_makes {key value value' : Value} {keys keys' : List Bytes}
    (h : issuePlainEntry c next depth key value keys ctx = .ok (value', keys', ctx')) :
    ∃ label k ds n, labelFromValue key = .ok label ∧ c.canonicalVec label.toValue = .ok k ∧
      k ∉ keys ∧ keys' = k :: keys ∧ R (depth + 1) value value' ds n ∧ ctx.Makes ds n ctx' := by
  rw [issuePlainEntry] at h
  obtain ⟨_, h⟩ := Except.seq_eq_ok.mp h
  obtain ⟨label, hlabel, h⟩ := Except.bind_eq_ok.mp h
  obtain ⟨keys₁, hkeys, h⟩ := Except.bind_eq_ok.mp h
  obtain ⟨k, hk, hnew, hkeys₁⟩ := insertNormalizedKey_ok.mp hkeys
  obtain ⟨⟨value₁, ctx₁⟩, hvalue, h⟩ := Except.bind_eq_ok.mp h
  rw [Except.pure_eq_ok, Prod.mk.injEq, Prod.mk.injEq] at h
  obtain ⟨hvalue', hkeys', hctx⟩ := h
  subst hvalue' hkeys' hctx hkeys₁
  obtain ⟨ds, n, hR, hmakes⟩ := hnext value (depth + 1) ctx ctx₁ value₁ hlimits hhasher hvalue
  rw [labelFromValue_ok hlabel] at hk
  exact ⟨label, k, ds, n, hlabel, hk, hnew, rfl, hR, hmakes⟩

/-- The labels of a map are distinct because their encodings are. -/
theorem issueEntries_makes {es out : List (Value × Value)} {keys : List Bytes}
    {hashes : List Bytes} (h : issueEntries c next depth es keys ctx = .ok (out, hashes, ctx')) :
    ∃ labels own hidden ds n, EntriesIssue c limits R depth es out labels own hidden ds n ∧
      hashes = own.map (fun d => d.redactedHash hasher) ∧ (labels ++ hidden).Nodup ∧
      (∀ l ∈ labels ++ hidden, NewLabel c keys l) ∧ ctx.Makes ds n ctx' := by
  induction es generalizing out keys hashes ctx ctx' with
  | nil =>
    rw [issueEntries] at h
    cases h
    exact ⟨[], [], [], [], 0, .nil, rfl, List.nodup_nil, by simp, .refl ctx⟩
  | cons e es ih =>
    obtain ⟨key, value⟩ := e
    rw [issueEntries, Except.bind_eq_ok] at h
    obtain ⟨ctx₁, henter, h⟩ := h
    obtain ⟨_, hmakes₁⟩ := IssueContext.enter_makes henter
    have hlimits₁ := hmakes₁.limits.trans hlimits
    have hhasher₁ := hmakes₁.hasher.trans hhasher
    -- what the rest does after the first entry
    have hrest {out' : List (Value × Value)} {hashes' : List Bytes} {ds : List Disclosure} {n : Nat}
        {ctx₂ ctx₃ : IssueContext} {keys' : List Bytes} (hmakes : ctx₁.Makes ds n ctx₂)
        (h : issueEntries c next depth es keys' ctx₂ = .ok (out', hashes', ctx₃)) :=
      ih (hmakes.limits.trans hlimits₁) (hmakes.hasher.trans hhasher₁) h
    cases hredacted : taggedInner toBeRedactedTag key with
    | some inner =>
      rw [hredacted] at h
      simp only [Except.bind_eq_ok, Prod.exists, Except.pure_eq_ok, Prod.mk.injEq] at h
      obtain ⟨hash, keys', ctx₂, hentry, out', hashes', ctx₃, hes, hout, hhashes, hctx⟩ := h
      subst hout hhashes hctx
      obtain ⟨label, k, value', ds, n, salt, d, hdepth, hlabel, hk, hnew, hkeys', hR, hd, hhash,
        hmakes₂⟩ := issueRedactedEntry_makes hnext hlimits₁ hhasher₁ hentry
      subst hkeys' hhash
      obtain ⟨labels, own, hidden, ds', n', hes', hhashes', hnodup, hfresh, hmakes₃⟩ :=
        hrest hmakes₂ hes
      rw [taggedInner_eq_some.mp hredacted]
      have hmakes := (hmakes₁.trans hmakes₂).trans hmakes₃
      rw [List.nil_append, List.append_assoc, List.singleton_append] at hmakes
      obtain ⟨hnodup, hfresh⟩ := newLabel_step hk hnew hnodup hfresh
      refine ⟨labels, d :: own, label :: hidden, _, _, .redacted hdepth hlabel hR hd hes', ?_,
        hnodup, hfresh, hmakes⟩
      rw [hhashes', List.map_cons]
    | none =>
      cases hdecoy : taggedInner toBeDecoyTag key with
      | some inner =>
        rw [hredacted, hdecoy] at h
        simp only [Except.bind_eq_ok, Prod.exists, Except.pure_eq_ok, Prod.mk.injEq] at h
        obtain ⟨hash, keys', ctx₂, hentry, out', hashes', ctx₃, hes, hout, hhashes, hctx⟩ := h
        subst hout hhashes hctx
        obtain ⟨hnull, k, salt, d, hdepth, hkeys', hd, hhash, hmakes₂⟩ :=
          issueDecoyEntry_makes hlimits₁ hhasher₁ hentry
        subst hnull hkeys' hhash
        obtain ⟨labels, own, hidden, ds', n', hes', hhashes', hnodup, hfresh, hmakes₃⟩ :=
          hrest hmakes₂ hes
        rw [taggedInner_eq_some.mp hdecoy]
        refine ⟨labels, d :: own, hidden, _, _, .decoy hdepth hd hes', ?_, hnodup,
          fun l hl => newLabel_cons (hfresh l hl), (hmakes₁.trans hmakes₂).trans hmakes₃⟩
        rw [hhashes', List.map_cons]
      | none =>
        rw [hredacted, hdecoy] at h
        simp only [Except.bind_eq_ok, Prod.exists, Except.pure_eq_ok, Prod.mk.injEq] at h
        obtain ⟨value', keys', ctx₂, hentry, out', hashes', ctx₃, hes, hout, hhashes, hctx⟩ := h
        subst hout hhashes hctx
        obtain ⟨label, k, ds, n, hlabel, hk, hnew, hkeys', hR, hmakes₂⟩ :=
          issuePlainEntry_makes hnext hlimits₁ hhasher₁ hentry
        subst hkeys'
        obtain ⟨labels, own, hidden, ds', n', hes', hhashes', hnodup, hfresh, hmakes₃⟩ :=
          hrest hmakes₂ hes
        obtain ⟨hnodup, hfresh⟩ :=
          @newLabel_step _ _ _ _ [] (labels ++ hidden) hk hnew hnodup hfresh
        exact ⟨label :: labels, own, hidden, _, _, .plain hlabel hR hes', hhashes', hnodup, hfresh,
          (hmakes₁.trans hmakes₂).trans hmakes₃⟩

theorem issueMap_makes {es : List (Value × Value)} {iv : Value}
    (hdepth : depth ≤ limits.maxDepth) (h : issueMap c next depth es ctx = .ok (iv, ctx')) :
    ∃ ds n, ValueIssues c limits hasher R depth (.map es) iv ds (1 + n) ∧
      ctx.Makes ds n ctx' := by
  rw [issueMap] at h
  obtain ⟨hlength, h⟩ := Except.seq_eq_ok.mp h
  rw [TraversalBudget.container_ok, hlimits] at hlength
  obtain ⟨⟨out, hashes, ctx₁⟩, hes, h⟩ := Except.bind_eq_ok.mp h
  rw [Except.pure_eq_ok, Prod.mk.injEq] at h
  obtain ⟨hiv, hctx⟩ := h
  subst hiv hctx
  obtain ⟨labels, own, hidden, ds, n, hR, hhashes, hnodup, _, hmakes⟩ :=
    issueEntries_makes hnext hlimits hhasher hes
  subst hhashes
  exact ⟨ds, n, .map hdepth hlength hR hnodup, hmakes⟩

theorem issueItem_makes {item item' : Value}
    (h : issueItem c next depth item ctx = .ok (item', ctx')) :
    ∃ ds n, ItemIssues c limits hasher R depth item item' ds n ∧ ctx.Makes ds n ctx' := by
  rw [issueItem.eq_def] at h
  cases hredacted : taggedInner toBeRedactedTag item with
  | some inner =>
    rw [hredacted] at h
    simp only [Except.bind_eq_ok, Prod.exists, Except.pure_eq_ok, Prod.mk.injEq] at h
    obtain ⟨ctx₁, henter, value', ctx₂, hvalue, hash, ctx₃, hdisclose, hitem, hctx⟩ := h
    subst hitem hctx
    obtain ⟨_, hmakes₁⟩ := IssueContext.enter_makes henter
    obtain ⟨ds, n, hR, hmakes₂⟩ := hnext inner (depth + 2) ctx₁ ctx₂ value'
      (hmakes₁.limits.trans hlimits) (hmakes₁.hasher.trans hhasher) hvalue
    obtain ⟨salt, d, hd, hhash, hmakes₃⟩ := IssueContext.disclose_makes (fun _ => rfl) hdisclose
    have hmakes := hmakes₁.trans hmakes₂
    rw [hmakes.limits, hlimits] at hd
    rw [hmakes.hasher, hhasher] at hhash
    rw [taggedInner_eq_some.mp hredacted, hhash]
    exact ⟨_, _, .redacted hR hd, hmakes.trans hmakes₃⟩
  | none =>
    cases hdecoy : taggedInner toBeDecoyTag item with
    | some inner =>
      rw [hredacted, hdecoy] at h
      simp only [Except.bind_eq_ok, Prod.exists, Except.pure_eq_ok, Prod.mk.injEq] at h
      obtain ⟨ctx₁, henter, ctx₂, henter', ctx₃, hrecord, hash, ctx₄, hdisclose, hitem, hctx⟩ := h
      subst hitem hctx
      obtain ⟨_, hmakes₁⟩ := IssueContext.enter_makes henter
      obtain ⟨hdepth, hmakes₂⟩ := IssueContext.enter_makes henter'
      obtain ⟨salt, d, hd, hhash, hmakes₃⟩ := IssueContext.disclose_makes (fun _ => rfl) hdisclose
      have hmakes := (hmakes₁.trans hmakes₂).trans (IssueContext.recordDecoyId_makes hrecord)
      rw [hmakes.limits, hlimits] at hd
      rw [hmakes.hasher, hhasher] at hhash
      rw [hmakes₁.limits, hlimits] at hdepth
      rw [taggedInner_eq_some.mp hdecoy, hhash]
      exact ⟨_, _, .decoy hdepth hd, hmakes.trans hmakes₃⟩
    | none =>
      rw [hredacted, hdecoy] at h
      obtain ⟨ds, n, hR, hmakes⟩ := hnext item (depth + 1) ctx ctx' item' hlimits hhasher h
      exact ⟨ds, n, .plain hR, hmakes⟩

theorem issueItems_makes {items out : List Value}
    (h : issueItems c next depth items ctx = .ok (out, ctx')) :
    ∃ ds n, ItemsIssue c limits hasher R depth items out ds n ∧ ctx.Makes ds n ctx' := by
  induction items generalizing out ctx ctx' with
  | nil =>
    rw [issueItems] at h
    cases h
    exact ⟨[], 0, .nil, .refl ctx⟩
  | cons item items ih =>
    rw [issueItems] at h
    simp only [Except.bind_eq_ok, Prod.exists, Except.pure_eq_ok, Prod.mk.injEq] at h
    obtain ⟨item', ctx₁, hitem, items', ctx₂, hitems, hout, hctx⟩ := h
    subst hout hctx
    obtain ⟨ds, n, hR, hmakes₁⟩ := issueItem_makes hnext hlimits hhasher hitem
    obtain ⟨ds', n', hRs, hmakes₂⟩ :=
      ih (hmakes₁.limits.trans hlimits) (hmakes₁.hasher.trans hhasher) hitems
    exact ⟨_, _, .cons hR hRs, hmakes₁.trans hmakes₂⟩

theorem issueArray_makes {items : List Value} {iv : Value} (hdepth : depth ≤ limits.maxDepth)
    (h : issueArray c next depth items ctx = .ok (iv, ctx')) :
    ∃ ds n, ValueIssues c limits hasher R depth (.array items) iv ds (1 + n) ∧
      ctx.Makes ds n ctx' := by
  rw [issueArray] at h
  obtain ⟨hlength, h⟩ := Except.seq_eq_ok.mp h
  rw [TraversalBudget.container_ok, hlimits] at hlength
  obtain ⟨⟨out, ctx₁⟩, hitems, h⟩ := Except.bind_eq_ok.mp h
  rw [Except.pure_eq_ok, Prod.mk.injEq] at h
  obtain ⟨hiv, hctx⟩ := h
  subst hiv hctx
  obtain ⟨ds, n, hR, hmakes⟩ := issueItems_makes hnext hlimits hhasher hitems
  exact ⟨ds, n, .array hdepth hlength hR, hmakes⟩

end Walk

variable {c : SdCbor2} {limits : ProcessingLimits} {hasher : RedactionHasher}

/-- **Issuing a value makes what the relation says.** -/
theorem issueValue_makes (levels : Nat) (value : Value) (depth : Nat) :
    KeepsTo limits hasher (fun ctx => issueValue c levels value ctx depth)
      (Issues c limits hasher levels depth value) := by
  induction levels generalizing value depth with
  | zero =>
    intro ctx ctx' iv _ _ h
    cases h
  | succ levels ih =>
    intro ctx ctx' iv hlimits hhasher h
    simp only [issueValue] at h
    obtain ⟨ctx₁, henter, h⟩ := Except.bind_eq_ok.mp h
    obtain ⟨hdepth, hmakes₁⟩ := IssueContext.enter_makes henter
    rw [hlimits] at hdepth
    have hlimits₁ := hmakes₁.limits.trans hlimits
    have hhasher₁ := hmakes₁.hasher.trans hhasher
    have scalar (hscalar : IsScalar value)
        (h : (if isRedactedClaimKeysLabel value then (.error (.custom
            "pre-issuance value must not contain simple(59) redaction labels"))
          else return (value, ctx₁)) = (.ok (iv, ctx') : Except Error _)) :
        ∃ ds n, Issues c limits hasher (levels + 1) depth value iv ds n ∧
          ctx.Makes ds n ctx' := by
      split_ifs at h with hlabel
      cases h
      exact ⟨[], 1, .scalar hdepth hscalar (Bool.eq_false_iff.mpr hlabel), hmakes₁⟩
    cases value with
    | map es =>
      obtain ⟨ds, n, hR, hmakes⟩ := issueMap_makes ih hlimits₁ hhasher₁ hdepth h
      exact ⟨ds, 1 + n, hR, hmakes₁.trans hmakes⟩
    | array items =>
      obtain ⟨ds, n, hR, hmakes⟩ := issueArray_makes ih hlimits₁ hhasher₁ hdepth h
      exact ⟨ds, 1 + n, hR, hmakes₁.trans hmakes⟩
    | tag t inner =>
      simp only at h
      split_ifs at h with hreserved
      obtain ⟨⟨inner', ctx₂⟩, hinner, h⟩ := Except.bind_eq_ok.mp h
      cases h
      obtain ⟨ds, n, hR, hmakes⟩ := ih inner (depth + 1) ctx₁ ctx₂ inner' hlimits₁ hhasher₁ hinner
      exact ⟨ds, 1 + n, .tag hdepth hreserved hR, hmakes₁.trans hmakes⟩
    | integer | bytes | text | float | bool | null | simple => exact scalar trivial h

/-- **What issuance gives**: the disclosures are those of a derivation, which the budget
affords, and they can be loaded together. -/
theorem issueFromPreissuance_ok {value : Value} {salts : SaltGenerator} {r : IssueResult}
    (h : issueFromPreissuanceWithLimits c value salts hasher limits = .ok r) :
    ∃ n, Issues c limits hasher (limits.maxDepth + 1) 0 value r.value r.disclosures n ∧
      (TraversalBudget.mk limits 0).Affords n ∧
      r.disclosures.length ≤ limits.maxDisclosures ∧
      encodedBytes r.disclosures < usizeBound ∧
      encodedBytes r.disclosures ≤ limits.maxDisclosureBytes ∧
      (r.disclosures.map fun d => d.redactedHash hasher).Nodup ∧
      (r.disclosures.map Disclosure.salt).Nodup := by
  cases value with
  | map es =>
    obtain ⟨⟨iv, ctx⟩, hvalue, h⟩ := Except.bind_eq_ok.mp h
    cases h
    obtain ⟨ds, n, hR, hmakes⟩ := issueValue_makes _ _ _ _ _ _ rfl rfl hvalue
    have hds : ctx.disclosures = ds := hmakes.disclosures
    subst hds
    have hc := hmakes.consistent ⟨Nat.zero_le _, rfl, (by decide : 0 < usizeBound),
      Nat.zero_le _, List.nodup_nil, by simp, List.nodup_nil, by simp⟩
    have hcount := hc.count
    have hbytes := hc.maxBytes
    have hsize := hc.size
    have hdigests := hc.digests
    rw [hmakes.limits] at hcount hbytes
    rw [hc.bytes] at hbytes hsize
    rw [hmakes.hasher] at hdigests
    exact ⟨n, hR, hmakes.affords, hcount, hsize, hbytes, hdigests, hc.salts⟩
  | integer | bytes | text | float | bool | null | simple | tag | array => cases h

end Cose2.SdCwt

import Cose2.SdCwt.Markers
import Cose2.SdCwt.Restore
import Cose2.Taking

/-! # What restoration makes of a value

Restoration threads a map of unused disclosures, three counters and a budget through
a recursive walk.  `Restores` says what it makes of a value without them: which value
comes out, which markers are met in what order and what each of them turned out to
hide, and how many items are visited.  The walk succeeds with a result exactly when
there is such a derivation whose markers are answered by the map and whose items
are within the budget (`restoreValue_ok`).
-/
namespace Cose2.SdCwt

open Cbor

/-! ### Meeting markers -/

/-- A marker that has been met, with the disclosure it used up. -/
abbrev Meeting := Marker × Option Disclosure

/-- The disclosures with a value, which are counted as disclosed. -/
def DisclosureKind.isDecoy : DisclosureKind → Bool
  | .decoy _ => true
  | _ => false

/-- The disclosures used up by some markers. -/
def usedUp (ms : List Meeting) : List Disclosure := ms.filterMap Prod.snd

/-- The counts after some markers. -/
def RestoreStats.after (stats : RestoreStats) (ms : List Meeting) : RestoreStats where
  disclosed := stats.disclosed + (usedUp ms).countP fun d => !d.kind.isDecoy
  decoys := stats.decoys + (usedUp ms).countP fun d => d.kind.isDecoy
  removedRedactions := stats.removedRedactions + ms.countP fun m => m.2.isNone

theorem RestoreStats.after_after (stats : RestoreStats) (ms ms' : List Meeting) :
    (stats.after ms).after ms' = stats.after (ms ++ ms') := by
  simp only [RestoreStats.after, usedUp, List.filterMap_append, List.countP_append, Nat.add_assoc]

namespace Restoring

variable (s : Restoring)

/-- The state after some markers and items. -/
def after (ms : List Meeting) (n : Nat) : Restoring where
  pending :=
    { s.pending with entries := s.pending.entries.removeAll (BTreeMap.asked Marker.hash ms) }
  stats := s.stats.after ms
  budget := s.budget.spend n

/-- The markers and items can be got through. -/
structure Passes (mode : RestoreMode) (ms : List Meeting) (n : Nat) : Prop where
  finds : BTreeMap.Finds Marker.hash s.pending.entries ms
  answered : mode = .holder → ∀ m ∈ ms, m.2 ≠ none
  affords : s.budget.Affords n

@[simp] theorem after_limits (ms : List Meeting) (n : Nat) :
    (s.after ms n).budget.limits = s.budget.limits := rfl

@[simp] theorem after_validateClaims (ms : List Meeting) (n : Nat) :
    (s.after ms n).pending.validateClaims = s.pending.validateClaims := rfl

theorem after_after (ms ms' : List Meeting) (n n' : Nat) :
    (s.after ms n).after ms' n' = s.after (ms ++ ms') (n + n') := by
  simp only [after, RestoreStats.after_after, TraversalBudget.spend_spend, BTreeMap.asked_append,
    BTreeMap.removeAll_append]

variable {s} {mode : RestoreMode}

theorem passes_append {ms ms' : List Meeting} {n n' : Nat} :
    s.Passes mode (ms ++ ms') (n + n') ↔
      s.Passes mode ms n ∧ (s.after ms n).Passes mode ms' n' := by
  constructor
  · intro h
    obtain ⟨hfinds, hanswered, haffords⟩ := h
    rw [BTreeMap.finds_append] at hfinds
    rw [TraversalBudget.affords_add] at haffords
    refine ⟨⟨hfinds.1, fun hm m hmem => ?_, haffords.1⟩, hfinds.2, fun hm m hmem => ?_, haffords.2⟩
    · exact hanswered hm m (List.mem_append_left _ hmem)
    · exact hanswered hm m (List.mem_append_right _ hmem)
  · rintro ⟨h, h'⟩
    refine ⟨BTreeMap.finds_append.mpr ⟨h.finds, h'.finds⟩, fun hm m hmem => ?_,
      TraversalBudget.affords_add.mpr ⟨h.affords, h'.affords⟩⟩
    rcases List.mem_append.mp hmem with hmem | hmem
    · exact h.answered hm m hmem
    · exact h'.answered hm m hmem

theorem passes_nil {n : Nat} : s.Passes mode [] n ↔ s.budget.Affords n :=
  ⟨Passes.affords, fun h => ⟨trivial, fun _ => by simp, h⟩⟩

/-- Visits that meet no marker change the budget only. -/
theorem after_nil (n : Nat) : s.after [] n = { s with budget := s.budget.spend n } := by
  simp [after, RestoreStats.after, usedUp]

theorem passes_visit {ms : List Meeting} {k n : Nat} :
    s.Passes mode ms (k + n) ↔ s.budget.Affords k ∧ (s.after [] k).Passes mode ms n := by
  have h := @passes_append s mode [] ms k n
  rwa [List.nil_append, passes_nil] at h

theorem after_visit (ms : List Meeting) (k n : Nat) :
    (s.after [] k).after ms n = s.after ms (k + n) := by
  rw [after_after, List.nil_append]

theorem enter_ok {depth : Nat} {s' : Restoring} :
    s.enter depth = .ok s' ↔
      depth ≤ s.budget.limits.maxDepth ∧ s.budget.Affords 1 ∧ s' = s.after [] 1 := by
  simp only [enter, Except.bind_eq_ok, Except.pure_eq_ok, TraversalBudget.enter_ok, after_nil]
  constructor
  · rintro ⟨b, ⟨hdepth, haffords, hb⟩, hs⟩
    subst hb
    exact ⟨hdepth, haffords, hs.symm⟩
  · rintro ⟨hdepth, haffords, hs⟩
    exact ⟨_, ⟨hdepth, haffords, rfl⟩, hs.symm⟩

/-- A marker is answered by what is pending, and takes it away. -/
theorem passes_cons {m : Marker} {found : Option Disclosure} {ms : List Meeting} {n : Nat} :
    s.Passes mode ((m, found) :: ms) n ↔
      s.pending.entries.get m.hash = found ∧ (mode = .holder → found ≠ none) ∧
        (s.remove m.hash).Passes mode ms n := by
  constructor
  · intro h
    obtain ⟨hfinds, hanswered, haffords⟩ := h
    refine ⟨hfinds.1, fun hm => hanswered hm _ List.mem_cons_self, hfinds.2, fun hm m' hm' => ?_,
      haffords⟩
    exact hanswered hm m' (List.mem_cons_of_mem _ hm')
  · rintro ⟨hget, hfound, h⟩
    refine ⟨⟨hget, h.finds⟩, fun hm m' hm' => ?_, h.affords⟩
    rcases List.mem_cons.mp hm' with rfl | hm'
    · exact hfound hm
    · exact h.answered hm m' hm'

theorem passes_step {m : Marker} {found : Option Disclosure} {ms : List Meeting} {n : Nat} :
    s.Passes mode ((m, found) :: ms) n ↔
      s.pending.entries.get m.hash = found ∧ (mode = .holder → found ≠ none) ∧
        (s.after [(m, found)] 0).Passes mode ms n := by
  have h := @passes_append s mode [(m, found)] ms 0 n
  rw [Nat.zero_add, List.singleton_append] at h
  have hfirst : s.Passes mode [(m, found)] 0 ↔
      s.pending.entries.get m.hash = found ∧ (mode = .holder → found ≠ none) := by
    rw [passes_cons, passes_nil]
    exact ⟨fun h => ⟨h.1, h.2.1⟩, fun h => ⟨h.1, h.2, .inl rfl⟩⟩
  rw [h, hfirst, and_assoc]

theorem after_step (m : Marker) (found : Option Disclosure) (ms : List Meeting) (n : Nat) :
    (s.after [(m, found)] 0).after ms n = s.after ((m, found) :: ms) n := by
  rw [after_after, Nat.zero_add, List.singleton_append]

theorem after_disclosed {m : Marker} {d : Disclosure} {ms : List Meeting} {n : Nat}
    (h : d.kind.isDecoy = false) :
    ((s.remove m.hash).after ms n).countDisclosed = s.after ((m, some d) :: ms) n := by
  simp [after, remove, countDisclosed, RestoreStats.after, usedUp, h, BTreeMap.removeAll_cons,
    Nat.add_assoc]

theorem after_decoy {m : Marker} {d : Disclosure} (h : d.kind.isDecoy = true) :
    (s.remove m.hash).countDecoy = s.after [(m, some d)] 0 := by
  simp [after, remove, countDecoy, RestoreStats.after, usedUp, h, BTreeMap.removeAll_cons]

theorem after_missed {m : Marker} (h : s.pending.entries.get m.hash = none) :
    s.countRemoved = s.after [(m, none)] 0 := by
  simp [after, countRemoved, RestoreStats.after, usedUp, BTreeMap.removeAll_cons,
    BTreeMap.remove_of_get h]

end Restoring

/-! ### The relation -/

section Relation

variable (limits : ProcessingLimits) (validate : Bool)

section Loops

-- `next` relates a value one level further down to what is made of it
variable (next : Value → Value → List Meeting → Nat → Prop) (depth : Nat)

/-- The entries of a map: those that come out and their labels, the lists of hashes, the
markers met, and the items visited. -/
inductive EntriesRestore : List (Value × Value) → List (Value × Value) → List Label →
    List (List Bytes) → List Meeting → Nat → Prop
  | nil : EntriesRestore [] [] [] [] [] 0
  | hashes {key : Value} {hs : List Bytes} {es out : List (Value × Value)} {labels : List Label}
    {lists : List (List Bytes)} {ms : List Meeting} {n : Nat} :
    isRedactedClaimKeysLabel key = true → depth + 1 ≤ limits.maxDepth →
    hs.length ≤ limits.maxContainerEntries → (hs ≠ [] → depth + 2 ≤ limits.maxDepth) →
    EntriesRestore es out labels lists ms n →
    EntriesRestore ((key, .array (hs.map .bytes)) :: es) out labels (hs :: lists) ms
      (1 + (1 + hs.length + n))
  | claim {key value value' : Value} {label : Label} {es out : List (Value × Value)}
    {labels : List Label} {lists : List (List Bytes)} {ms ms' : List Meeting} {n n' : Nat} :
    isRedactedClaimKeysLabel key = false → labelFromValue key = .ok label →
    depth + 1 ≤ limits.maxDepth → next value value' ms n →
    EntriesRestore es out labels lists ms' n' →
    EntriesRestore ((key, value) :: es) ((key, value') :: out) (label :: labels) lists
      (ms ++ ms') (1 + (n + n'))

/-- The hashes of a map: the disclosed entries and their labels, and the hashes that
stay undisclosed. -/
inductive HashesRestore : List Bytes → List (Value × Value) → List Label → List Bytes →
    List Meeting → Nat → Prop
  | nil : HashesRestore [] [] [] [] [] 0
  | claim {hash salt : Bytes} {d : Disclosure} {key : Label} {value value' : Value}
    {hs undisclosed : List Bytes} {out : List (Value × Value)} {labels : List Label}
    {ms ms' : List Meeting} {n n' : Nat} :
    d.kind = .claim salt key value →
    checkDisclosureKey validate depth key = .ok () →
    next value value' ms n → HashesRestore hs out labels undisclosed ms' n' →
    HashesRestore (hash :: hs) ((key.toValue, value') :: out) (key :: labels) undisclosed
      ((⟨.claimKeys, hash⟩, some d) :: (ms ++ ms')) (n + n')
  | decoy {hash salt : Bytes} {d : Disclosure} {hs undisclosed : List Bytes}
    {out : List (Value × Value)} {labels : List Label} {ms : List Meeting} {n : Nat} :
    d.kind = .decoy salt → HashesRestore hs out labels undisclosed ms n →
    HashesRestore (hash :: hs) out labels undisclosed ((⟨.claimKeys, hash⟩, some d) :: ms) n
  | undisclosed {hash : Bytes} {hs undisclosed : List Bytes} {out : List (Value × Value)}
    {labels : List Label} {ms : List Meeting} {n : Nat} :
    HashesRestore hs out labels undisclosed ms n →
    HashesRestore (hash :: hs) out labels
      (if validate = true then hash :: undisclosed else undisclosed)
      ((⟨.claimKeys, hash⟩, none) :: ms) n

variable {validate next depth} in
/-- The first marker met is the first hash. -/
theorem HashesRestore.first {hash : Bytes} {hs undisclosed : List Bytes}
    {out : List (Value × Value)} {labels : List Label} {ms : List Meeting} {n : Nat}
    (h : HashesRestore validate next depth (hash :: hs) out labels undisclosed ms n) :
    ∃ found rest, ms = (⟨.claimKeys, hash⟩, found) :: rest := by
  cases h with
  | claim | decoy | undisclosed => exact ⟨_, _, rfl⟩

/-- An element of an array: what is put in its place. -/
inductive ItemRestores : Value → List Value → List Meeting → Nat → Prop
  | keep {item item' : Value} {ms : List Meeting} {n : Nat} :
    isRedactedElement item = false → next item item' ms n → ItemRestores item [item'] ms n
  | disclosed {hash salt : Bytes} {d : Disclosure} {value value' : Value} {ms : List Meeting}
    {n : Nat} :
    depth + 2 ≤ limits.maxDepth → d.kind = .element salt value → next value value' ms n →
    ItemRestores (redactedElement hash) [value'] ((⟨.element, hash⟩, some d) :: ms) (2 + n)
  | decoy {hash salt : Bytes} {d : Disclosure} :
    depth + 2 ≤ limits.maxDepth → d.kind = .decoy salt →
    ItemRestores (redactedElement hash) [] [(⟨.element, hash⟩, some d)] 2
  | undisclosed {hash : Bytes} : depth + 2 ≤ limits.maxDepth →
    ItemRestores (redactedElement hash) (if validate = true then [redactedElement hash] else [])
      [(⟨.element, hash⟩, none)] 2

variable {limits validate next depth} in
/-- What can come of a redacted element. -/
theorem itemRestores_redacted {hash : Bytes} {out : List Value} {ms : List Meeting} {k : Nat} :
    ItemRestores limits validate next depth (redactedElement hash) out ms k ↔
      depth + 2 ≤ limits.maxDepth ∧
      ((∃ d salt value value' ms' n, d.kind = .element salt value ∧ next value value' ms' n ∧
          out = [value'] ∧ ms = (⟨.element, hash⟩, some d) :: ms' ∧ k = 2 + n) ∨
        (∃ d salt, d.kind = .decoy salt ∧ out = [] ∧ ms = [(⟨.element, hash⟩, some d)] ∧
          k = 2) ∨
        (out = (if validate = true then [redactedElement hash] else []) ∧
          ms = [(⟨.element, hash⟩, none)] ∧ k = 2)) := by
  constructor
  · generalize hv : redactedElement hash = v
    intro h
    have hhash {hash' : Bytes} (h : redactedElement hash = redactedElement hash') :
        hash = hash' := Value.bytes.inj (Value.tag.inj h).2
    cases h with
    | keep hkeep =>
      rw [← hv] at hkeep
      cases hkeep
    | disclosed hdepth hkind hnext =>
      rw [hhash hv]
      exact ⟨hdepth, .inl ⟨_, _, _, _, _, _, hkind, hnext, rfl, rfl, rfl⟩⟩
    | decoy hdepth hkind =>
      rw [hhash hv]
      exact ⟨hdepth, .inr (.inl ⟨_, _, hkind, rfl, rfl, rfl⟩)⟩
    | undisclosed hdepth =>
      rw [hhash hv]
      exact ⟨hdepth, .inr (.inr ⟨rfl, rfl, rfl⟩)⟩
  · rintro ⟨hdepth, h⟩
    rcases h with ⟨d, salt, value, value', ms', n, hkind, hnext, rfl, rfl, rfl⟩ |
      ⟨d, salt, hkind, rfl, rfl, rfl⟩ | ⟨rfl, rfl, rfl⟩
    · exact .disclosed hdepth hkind hnext
    · exact .decoy hdepth hkind
    · exact .undisclosed hdepth

variable {limits validate next depth} in
theorem itemRestores_keep {item : Value} (h : isRedactedElement item = false) {out : List Value}
    {ms : List Meeting} {n : Nat} :
    ItemRestores limits validate next depth item out ms n ↔
      ∃ item', next item item' ms n ∧ out = [item'] := by
  constructor
  · intro hR
    cases hR with
    | keep _ hnext => exact ⟨_, hnext, rfl⟩
    | disclosed | decoy | undisclosed => cases h
  · rintro ⟨item', hnext, hout⟩
    rw [hout]
    exact .keep h hnext

/-- The elements of an array. -/
inductive ItemsRestore : List Value → List Value → List Meeting → Nat → Prop
  | nil : ItemsRestore [] [] [] 0
  | cons {item : Value} {items out out' : List Value} {ms ms' : List Meeting} {n n' : Nat} :
    ItemRestores limits validate next depth item out ms n → ItemsRestore items out' ms' n' →
    ItemsRestore (item :: items) (out ++ out') (ms ++ ms') (n + n')

/-- A value whose parts are related by `next`. -/
inductive ValueRestores : Value → Value → List Meeting → Nat → Prop
  | map {es out disclosed : List (Value × Value)} {labels labels' : List Label}
    {lists : List (List Bytes)} {undisclosed : List Bytes} {ms ms' : List Meeting}
    {n n' : Nat} :
    es.length ≤ limits.maxContainerEntries →
    EntriesRestore limits next depth es out labels lists ms n → lists.length ≤ 1 →
    HashesRestore validate next depth lists.flatten disclosed labels' undisclosed ms' n' →
    (labels ++ labels').Nodup →
    ValueRestores (.map es) (.map (out ++ disclosed ++ undisclosedEntry undisclosed))
      (ms ++ ms') (1 + (n + n'))
  | array {items out : List Value} {ms : List Meeting} {n : Nat} :
    items.length ≤ limits.maxContainerEntries →
    ItemsRestore limits validate next depth items out ms n →
    ValueRestores (.array items) (.array out) ms (1 + n)
  | tag {t : UInt64} {value value' : Value} {ms : List Meeting} {n : Nat} :
    ¬ IsReservedTag t → next value value' ms n →
    ValueRestores (.tag t value) (.tag t value') ms (1 + n)
  | scalar {value : Value} :
    IsScalar value → isRedactedClaimKeysLabel value = false → ValueRestores value value [] 1

end Loops

/-- A value, `levels` levels above the deepest one. -/
def Restores : (levels depth : Nat) → Value → Value → List Meeting → Nat → Prop
  | 0, _ => fun _ _ _ _ => False
  | levels + 1, depth =>
    ValueRestores limits validate (Restores levels (depth + 1)) depth

end Relation

/-! ### The walk follows the relation -/

/-- A program makes of a state what the relation says, if the state gets through it. -/
def Follows {α : Type} (limits : ProcessingLimits) (validate : Bool) (mode : RestoreMode)
    (f : Restoring → Except Error (α × Restoring)) (R : α → List Meeting → Nat → Prop) : Prop :=
  ∀ s s' a, s.budget.limits = limits → s.pending.validateClaims = validate →
    (f s = .ok (a, s') ↔ ∃ ms n, R a ms n ∧ s.Passes mode ms n ∧ s' = s.after ms n)

section Walk

variable (c : SdCbor2) (mode : RestoreMode) {limits : ProcessingLimits} {validate : Bool}
  {next : Value → Restoring → Nat → Except Error (Value × Restoring)}
  {R : Value → Value → List Meeting → Nat → Prop} {depth : Nat}
  (hnext : ∀ v, Follows limits validate mode (fun s => next v s (depth + 1)) (R v))

include hnext

theorem restoreEntries_ok {es out : List (Value × Value)} {saw : Bool}
    {keys keys' : List Label} {hs : List Bytes} {s s' : Restoring}
    (hlimits : s.budget.limits = limits) (hvalidate : s.pending.validateClaims = validate)
    (hkeys : keys.Nodup) :
    restoreEntries c next depth es saw keys s = .ok (out, keys', hs, s') ↔
      ∃ labels lists ms n, EntriesRestore limits R depth es out labels lists ms n ∧
        lists.length ≤ (if saw = true then 0 else 1) ∧ (labels.reverse ++ keys).Nodup ∧
        keys' = labels.reverse ++ keys ∧ hs = lists.flatten ∧
        s.Passes mode ms n ∧ s' = s.after ms n := by
  induction es generalizing out saw keys keys' hs s s' with
  | nil =>
    rw [restoreEntries, Except.ok.injEq]
    constructor
    · intro h
      cases h
      exact ⟨[], [], [], 0, .nil, Nat.zero_le _, hkeys, rfl, rfl, Restoring.passes_nil.mpr
        (.inl rfl), by rw [Restoring.after_nil]; rfl⟩
    · rintro ⟨labels, lists, ms, n, h, _, _, hkeys', hhs, _, hs'⟩
      cases h
      subst hkeys' hhs hs'
      rw [Restoring.after_nil]
      rfl
  | cons e es ih =>
    obtain ⟨key, value⟩ := e
    have hl (ms : List Meeting) (n : Nat) : (s.after ms n).budget.limits = limits := hlimits
    have hv (ms : List Meeting) (n : Nat) : (s.after ms n).pending.validateClaims = validate :=
      hvalidate
    rw [restoreEntries]
    by_cases hkey : isRedactedClaimKeysLabel key = true
    · simp only [Restoring.enter_ok, if_pos hkey, Except.bind_eq_ok, Except.failIf_eq_ok,
        readRedactedKeys_ok, Prod.exists, Except.pure_eq_ok, Prod.mk.injEq]
      constructor
      · rintro ⟨_, ⟨hdepth, haffords, hs1⟩, _, hsaw, list, _,
          ⟨hvalue, _, hlength, hdeep, hlist, hb⟩, out', keys'', hs', _, hrest, hout, hkeys'', hhs,
          hs2⟩
        subst hs1 hb hvalue hout hkeys'' hhs hs2
        rw [← Restoring.after_nil, Restoring.after_visit] at hrest
        obtain ⟨labels, lists, ms, n, hR, hlists, hnodup, hkeys', hhs', hpasses, hs'⟩ :=
          (ih (hl _ _) (hv _ _) hkeys).mp hrest
        rw [if_pos rfl, Nat.le_zero, List.length_eq_zero_iff] at hlists
        subst hlists hhs'
        rw [Restoring.after_limits, hlimits] at hlength hdeep
        rw [hlimits] at hdepth
        refine ⟨labels, [list], ms, _, .hashes hkey hdepth hlength hdeep hR, ?_, hnodup, hkeys',
          by simp, ?_, ?_⟩
        · rw [if_neg hsaw]
          rfl
        · rw [Restoring.passes_visit, Restoring.passes_visit, Restoring.after_visit]
          exact ⟨haffords, hlist, hpasses⟩
        · rw [hs', Restoring.after_visit, Nat.add_assoc]
      · rintro ⟨labels, lists, ms, n, hR, hlists, hnodup, hkeys', hhs, hpasses, hs'⟩
        cases hR with
        | claim hkey' => exact absurd hkey (by simp [hkey'])
        | @hashes _ list _ _ _ lists _ n _ hdepth hlength hdeep hR =>
          have hsaw : ¬ saw = true := by
            intro hsaw
            rw [if_pos hsaw] at hlists
            exact absurd hlists (by simp)
          rw [if_neg hsaw, List.length_cons] at hlists
          have hnone : lists = [] := List.length_eq_zero_iff.mp (by omega)
          subst hnone
          rw [Restoring.passes_visit, Restoring.passes_visit, Restoring.after_visit] at hpasses
          obtain ⟨haffords, hlist, hpasses⟩ := hpasses
          refine ⟨_, ⟨by rwa [hlimits], haffords, rfl⟩, (), hsaw, list, _,
            ⟨rfl, ?_, ?_, ?_, hlist, rfl⟩, out, keys', [], s', ?_, rfl, rfl,
            by simpa using hhs.symm, rfl⟩
          · rwa [Restoring.after_limits, hlimits]
          · rwa [Restoring.after_limits, hlimits]
          · rwa [Restoring.after_limits, hlimits]
          · rw [← Restoring.after_nil, Restoring.after_visit]
            refine (ih (hl _ _) (hv _ _) hkeys).mpr
              ⟨labels, [], ms, n, hR, Nat.zero_le _, hnodup, hkeys', rfl, hpasses, ?_⟩
            rw [hs', Restoring.after_visit, Nat.add_assoc 1 (1 + list.length)]
    · have hvisible : isRedactedClaimKeysLabel key = false := Bool.eq_false_iff.mpr hkey
      simp only [Restoring.enter_ok, if_neg hkey, Except.bind_eq_ok, Except.failIf_eq_ok,
        Prod.exists, Except.pure_eq_ok, Prod.mk.injEq, Except.mapError_eq_ok]
      -- a label in front of the others, or after them in the reversed list
      have hcons (label : Label) (labels : List Label) :
          (label :: labels).reverse ++ keys = labels.reverse ++ (label :: keys) := by
        rw [List.reverse_cons, List.append_assoc, List.singleton_append]
      constructor
      · rintro ⟨_, ⟨hdepth, haffords, hs1⟩, label, hlabel, _, hnew, value', s2, hvalue, out',
          keys'', hs', _, hrest, hout, hkeys'', hhs, hs3⟩
        subst hs1 hout hkeys'' hhs hs3
        obtain ⟨ms, n, hR, hpasses, hs2⟩ :=
          (hnext value (s.after [] 1) _ _ hlimits hvalidate).mp hvalue
        rw [Restoring.after_visit] at hs2
        subst hs2
        obtain ⟨labels, lists, ms', n', hRs, hlists, hnodup, hkeys', hhs, hpasses', hs'⟩ :=
          (ih (hl _ _) (hv _ _) (List.nodup_cons.mpr ⟨hnew, hkeys⟩)).mp hrest
        rw [hlimits] at hdepth
        refine ⟨label :: labels, lists, ms ++ ms', _, .claim hvisible hlabel hdepth hR hRs, hlists,
          ?_, ?_, hhs, ?_, ?_⟩
        · rwa [hcons]
        · rwa [hcons]
        · rw [Restoring.passes_visit, Restoring.passes_append, Restoring.after_visit]
          exact ⟨haffords, hpasses, hpasses'⟩
        · rw [hs', Restoring.after_after, Nat.add_assoc]
      · rintro ⟨_, lists, _, _, hR, hlists, hnodup, hkeys', hhs, hpasses, hs'⟩
        cases hR with
        | hashes hkey' => exact absurd hkey' hkey
        | @claim _ _ value' label _ out labels _ ms ms' n n' _ hlabel hdepth hR hRs =>
          rw [hcons] at hnodup hkeys'
          rw [Restoring.passes_visit, Restoring.passes_append, Restoring.after_visit] at hpasses
          obtain ⟨haffords, hpasses, hpasses'⟩ := hpasses
          have hkeys'' : (label :: keys).Nodup := hnodup.of_append_right
          refine ⟨_, ⟨by rwa [hlimits], haffords, rfl⟩, label, hlabel, (),
            (List.nodup_cons.mp hkeys'').1, value', _,
            (hnext value (s.after [] 1) _ _ hlimits hvalidate).mpr ⟨ms, n, hR, hpasses, rfl⟩,
            out, keys', hs, s', ?_, rfl, rfl, rfl, rfl⟩
          rw [Restoring.after_visit]
          refine (ih (hl _ _) (hv _ _) hkeys'').mpr
            ⟨labels, lists, ms', n', hRs, hlists, hnodup, hkeys', hhs, hpasses', ?_⟩
          rw [hs', Restoring.after_after, Nat.add_assoc]

theorem restoreHashes_ok {out : List (Value × Value)} {keys : List Label}
    {hs undisclosed : List Bytes} {s s' : Restoring} (hlimits : s.budget.limits = limits)
    (hvalidate : s.pending.validateClaims = validate) (hkeys : keys.Nodup) :
    restoreHashes mode next depth hs keys s = .ok (out, undisclosed, s') ↔
      ∃ labels ms n, HashesRestore validate R depth hs out labels undisclosed ms n ∧
        (labels.reverse ++ keys).Nodup ∧ s.Passes mode ms n ∧ s' = s.after ms n := by
  induction hs generalizing out keys undisclosed s s' with
  | nil =>
    rw [restoreHashes, Except.ok.injEq]
    constructor
    · intro h
      cases h
      exact ⟨[], [], 0, .nil, hkeys, Restoring.passes_nil.mpr (.inl rfl), by
        rw [Restoring.after_nil]; rfl⟩
    · rintro ⟨labels, ms, n, h, _, _, hs'⟩
      cases h
      subst hs'
      rw [Restoring.after_nil]
      rfl
  | cons hash hs ih =>
    have hl (ms : List Meeting) (n : Nat) : (s.after ms n).budget.limits = limits := hlimits
    have hv (ms : List Meeting) (n : Nat) : (s.after ms n).pending.validateClaims = validate :=
      hvalidate
    rw [restoreHashes.eq_def]
    let m : Marker := ⟨.claimKeys, hash⟩
    -- what is pending for the hash is what the relation has for it
    have hinv {labels : List Label} {ms : List Meeting} {n : Nat}
        (hR : HashesRestore validate R depth (hash :: hs) out labels undisclosed ms n)
        (hpasses : s.Passes mode ms n) :
        ∃ rest, ms = (m, s.pending.entries.get hash) :: rest := by
      obtain ⟨found, rest, rfl⟩ := hR.first
      rw [(Restoring.passes_step.mp hpasses).1]
      exact ⟨rest, rfl⟩
    cases hget : s.pending.entries.get hash with
    | none =>
      rw [hget] at hinv
      cases mode with
      | holder =>
        simp only [hget, reduceCtorEq, false_iff]
        rintro ⟨labels, ms, n, hR, _, hpasses, _⟩
        obtain ⟨rest, rfl⟩ := hinv hR hpasses
        exact hpasses.answered rfl _ List.mem_cons_self rfl
      | verifier =>
        simp only [hget, Except.bind_eq_ok, Prod.exists, Except.pure_eq_ok, Prod.mk.injEq]
        have hs1 : s.countRemoved = s.after [(m, none)] 0 := Restoring.after_missed hget
        rw [hs1]
        constructor
        · rintro ⟨out', undisclosed', s2, hrest, hout, hundisclosed, hs2⟩
          subst hout hs2 hundisclosed
          obtain ⟨labels, ms, n, hR, hnodup, hpasses, hs'⟩ := (ih (hl _ _) (hv _ _) hkeys).mp hrest
          have hflag : s2.pending.validateClaims = validate := by
            rw [hs']
            exact hvalidate
          rw [hflag]
          refine ⟨labels, (m, none) :: ms, n, .undisclosed hR, hnodup, ?_, ?_⟩
          · exact Restoring.passes_step.mpr ⟨hget, by simp, hpasses⟩
          · rw [hs', Restoring.after_step]
        · rintro ⟨labels, ms, n, hR, hnodup, hpasses, hs'⟩
          obtain ⟨rest, rfl⟩ := hinv hR hpasses
          have hflag : s'.pending.validateClaims = validate := by
            rw [hs']
            exact hvalidate
          cases hR with
          | @undisclosed _ _ undisclosed _ _ ms _ hR =>
            refine ⟨out, undisclosed, s', (ih (hl _ _) (hv _ _) hkeys).mpr
              ⟨labels, rest, n, hR, hnodup, (Restoring.passes_step.mp hpasses).2.2, ?_⟩,
              rfl, ?_, rfl⟩
            · rw [hs', Restoring.after_step]
            · rw [hflag]
    | some d =>
      rw [hget] at hinv
      cases hkind : d.kind with
      | element salt value =>
        simp only [hget, hkind, reduceCtorEq, false_iff]
        rintro ⟨labels, ms, n, hR, _, hpasses, _⟩
        obtain ⟨rest, rfl⟩ := hinv hR hpasses
        cases hR with
        | claim hkind' | decoy hkind' =>
          rw [hkind] at hkind'
          cases hkind'
      | decoy salt =>
        simp only [hget, hkind]
        have hs1 : (s.remove hash).countDecoy = s.after [(m, some d)] 0 :=
          Restoring.after_decoy (m := m) (by rw [hkind]; rfl)
        rw [hs1, ih (hl _ _) (hv _ _) hkeys]
        constructor
        · rintro ⟨labels, ms, n, hR, hnodup, hpasses, hs'⟩
          refine ⟨labels, (m, some d) :: ms, n, .decoy hkind hR, hnodup, ?_, ?_⟩
          · exact Restoring.passes_step.mpr ⟨hget, fun _ => Option.some_ne_none d, hpasses⟩
          · rw [hs', Restoring.after_step]
        · rintro ⟨labels, ms, n, hR, hnodup, hpasses, hs'⟩
          obtain ⟨rest, rfl⟩ := hinv hR hpasses
          cases hR with
          | claim hkind' =>
            rw [hkind] at hkind'
            cases hkind'
          | decoy _ hR =>
            refine ⟨labels, rest, n, hR, hnodup, (Restoring.passes_step.mp hpasses).2.2, ?_⟩
            rw [hs', Restoring.after_step]
      | claim salt key value =>
        have hdecoy : d.kind.isDecoy = false := by
          rw [hkind]
          rfl
        simp only [hget, hkind, Except.bind_eq_ok, Prod.exists, Except.pure_eq_ok,
          Prod.mk.injEq, Except.failIf_eq_ok]
        have hcons (labels : List Label) :
            (key :: labels).reverse ++ keys = labels.reverse ++ (key :: keys) := by
          rw [List.reverse_cons, List.append_assoc, List.singleton_append]
        constructor
        · rintro ⟨_, hcheck, _, hnew, value', s1, hvalue, out', undisclosed', s2, hrest, hout,
            hundisclosed, hs2⟩
          subst hout hundisclosed hs2
          obtain ⟨ms, n, hR, hpasses, hs1⟩ :=
            (hnext value (s.remove hash) _ _ hlimits hvalidate).mp hvalue
          have hdisclosed : s1.countDisclosed = s.after ((m, some d) :: ms) n := by
            rw [hs1]
            exact Restoring.after_disclosed (m := m) hdecoy
          rw [hdisclosed] at hrest
          obtain ⟨labels, ms', n', hRs, hnodup, hpasses', hs'⟩ :=
            (ih (hl _ _) (hv _ _) (List.nodup_cons.mpr ⟨hnew, hkeys⟩)).mp hrest
          have hcheck' : checkDisclosureKey validate depth key = .ok () := by
            rw [← hvalidate]
            exact hcheck
          refine ⟨key :: labels, (m, some d) :: (ms ++ ms'), n + n',
            .claim hkind hcheck' hR hRs, ?_, ?_, ?_⟩
          · rwa [hcons]
          · rw [← List.cons_append, Restoring.passes_append, Restoring.passes_cons]
            exact ⟨⟨hget, fun _ => Option.some_ne_none d, hpasses⟩, hpasses'⟩
          · rw [hs', Restoring.after_after, List.cons_append]
        · rintro ⟨_, ms, n, hR, hnodup, hpasses, hs'⟩
          obtain ⟨rest, rfl⟩ := hinv hR hpasses
          cases hR with
          | decoy hkind' =>
            rw [hkind] at hkind'
            cases hkind'
          | @claim _ _ _ _ _ value' _ _ out labels ms ms' n n' hkind' hcheck hR hRs =>
            rw [hkind, DisclosureKind.claim.injEq] at hkind'
            obtain ⟨_, rfl, rfl⟩ := hkind'
            rw [hcons] at hnodup
            rw [← List.cons_append, Restoring.passes_append, Restoring.passes_cons] at hpasses
            obtain ⟨⟨_, _, hpasses⟩, hpasses'⟩ := hpasses
            have hkeys' : (key :: keys).Nodup := hnodup.of_append_right
            refine ⟨(), by rw [← hvalidate] at hcheck; exact hcheck, (),
              (List.nodup_cons.mp hkeys').1, value', _,
              (hnext value (s.remove hash) _ _ hlimits hvalidate).mpr ⟨ms, n, hR, hpasses, rfl⟩,
              out, undisclosed, s', ?_, rfl, rfl, rfl⟩
            rw [Restoring.after_disclosed (m := m) hdecoy]
            refine (ih (hl _ _) (hv _ _) hkeys').mpr ⟨labels, ms', n', hRs, hnodup, hpasses', ?_⟩
            rw [hs', Restoring.after_after, List.cons_append]

/-- A redacted element, whose hash is answered like one of a map. -/
theorem restoreElement_ok {hash : Bytes} {out : List Value} {s s' : Restoring}
    (hlimits : s.budget.limits = limits) (hvalidate : s.pending.validateClaims = validate)
    (hdepth : depth + 2 ≤ limits.maxDepth) :
    restoreElement mode next depth hash s = .ok (out, s') ↔
      ∃ ms n, ItemRestores limits validate R depth (redactedElement hash) out ms (2 + n) ∧
        s.Passes mode ms n ∧ s' = s.after ms n := by
  let m : Marker := ⟨.element, hash⟩
  -- the marker is met first, and what it is answered with decides the rest
  have hinv {ms : List Meeting} {n : Nat}
      (hR : ItemRestores limits validate R depth (redactedElement hash) out ms (2 + n))
      (hpasses : s.Passes mode ms n) :
      ∃ rest, ms = (m, s.pending.entries.get hash) :: rest := by
    have hfirst : ∃ found rest, ms = (m, found) :: rest := by
      rcases (itemRestores_redacted.mp hR).2 with ⟨d, _, _, _, ms', _, _, _, _, rfl, _⟩ |
        ⟨d, _, _, _, rfl, _⟩ | ⟨_, rfl, _⟩
      · exact ⟨some d, ms', rfl⟩
      · exact ⟨some d, [], rfl⟩
      · exact ⟨none, [], rfl⟩
    obtain ⟨found, rest, rfl⟩ := hfirst
    rw [(Restoring.passes_step.mp hpasses).1]
    exact ⟨rest, rfl⟩
  rw [restoreElement.eq_def]
  cases hget : s.pending.entries.get hash with
  | none =>
    rw [hget] at hinv
    cases mode with
    | holder =>
      simp only [reduceCtorEq, false_iff]
      rintro ⟨ms, n, hR, hpasses, _⟩
      obtain ⟨rest, rfl⟩ := hinv hR hpasses
      exact hpasses.answered rfl _ List.mem_cons_self rfl
    | verifier =>
      simp only [Except.ok.injEq, Prod.mk.injEq]
      rw [Restoring.after_missed (m := m) hget, hvalidate]
      constructor
      · rintro ⟨hout, hs'⟩
        subst hout hs'
        refine ⟨[(m, none)], 0, .undisclosed hdepth, ?_, rfl⟩
        exact Restoring.passes_step.mpr ⟨hget, by simp, Restoring.passes_nil.mpr (.inl rfl)⟩
      · rintro ⟨ms, n, hR, hpasses, hs'⟩
        obtain ⟨rest, rfl⟩ := hinv hR hpasses
        rcases (itemRestores_redacted.mp hR).2 with ⟨_, _, _, _, _, _, _, _, _, hms, _⟩ |
          ⟨_, _, _, _, hms, _⟩ | ⟨hout, hms, hn⟩
        · cases hms
        · cases hms
        · obtain ⟨-, rfl⟩ := List.cons.inj hms
          obtain rfl : n = 0 := by omega
          exact ⟨hout.symm, hs'.symm⟩
  | some d =>
    rw [hget] at hinv
    cases hkind : d.kind with
    | claim salt key value =>
      simp only [hkind, reduceCtorEq, false_iff]
      rintro ⟨ms, n, hR, hpasses, _⟩
      obtain ⟨rest, rfl⟩ := hinv hR hpasses
      rcases (itemRestores_redacted.mp hR).2 with ⟨_, _, _, _, _, _, hkind', _, _, hms, _⟩ |
        ⟨_, _, hkind', _, hms, _⟩ | ⟨_, hms, _⟩
      · obtain ⟨hd, -⟩ := List.cons.inj hms
        cases hd
        rw [hkind] at hkind'
        cases hkind'
      · cases hms
        rw [hkind] at hkind'
        cases hkind'
      · cases hms
    | decoy salt =>
      simp only [hkind, Except.ok.injEq, Prod.mk.injEq]
      rw [Restoring.after_decoy (m := m) (d := d) (by rw [hkind]; rfl)]
      constructor
      · rintro ⟨hout, hs'⟩
        subst hout hs'
        refine ⟨[(m, some d)], 0, .decoy hdepth hkind, ?_, rfl⟩
        exact Restoring.passes_step.mpr
          ⟨hget, fun _ => Option.some_ne_none d, Restoring.passes_nil.mpr (.inl rfl)⟩
      · rintro ⟨ms, n, hR, hpasses, hs'⟩
        obtain ⟨rest, rfl⟩ := hinv hR hpasses
        rcases (itemRestores_redacted.mp hR).2 with ⟨_, _, _, _, _, _, hkind', _, _, hms, _⟩ |
          ⟨_, _, _, hout, hms, hn⟩ | ⟨_, hms, _⟩
        · obtain ⟨hd, -⟩ := List.cons.inj hms
          cases hd
          rw [hkind] at hkind'
          cases hkind'
        · obtain ⟨-, rfl⟩ := List.cons.inj hms
          obtain rfl : n = 0 := by omega
          exact ⟨hout.symm, hs'.symm⟩
        · cases hms
    | element salt value =>
      have hdecoy : d.kind.isDecoy = false := by
        rw [hkind]
        rfl
      simp only [hkind, Except.bind_eq_ok, Prod.exists, Except.pure_eq_ok, Prod.mk.injEq]
      constructor
      · rintro ⟨value', s1, hvalue, hout, hs1⟩
        subst hout hs1
        obtain ⟨ms, n, hR, hpasses, hs1⟩ :=
          (hnext value (s.remove hash) _ _ hlimits hvalidate).mp hvalue
        refine ⟨(m, some d) :: ms, n, .disclosed hdepth hkind hR, ?_, ?_⟩
        · exact Restoring.passes_cons.mpr ⟨hget, fun _ => Option.some_ne_none d, hpasses⟩
        · rw [hs1]
          exact Restoring.after_disclosed (m := m) hdecoy
      · rintro ⟨ms, n, hR, hpasses, hs'⟩
        obtain ⟨rest, rfl⟩ := hinv hR hpasses
        rcases (itemRestores_redacted.mp hR).2 with
          ⟨d', _, _, value', ms', n', hkind', hvalue, hout, hms, hn⟩ |
          ⟨_, _, hkind', _, hms, _⟩ | ⟨_, hms, _⟩
        · obtain ⟨hd, rfl⟩ := List.cons.inj hms
          cases hd
          rw [hkind, DisclosureKind.element.injEq] at hkind'
          obtain ⟨-, rfl⟩ := hkind'
          obtain rfl : n = n' := by omega
          refine ⟨value', _, (hnext value (s.remove hash) _ _ hlimits hvalidate).mpr
            ⟨rest, n, hvalue, (Restoring.passes_cons.mp hpasses).2.2, rfl⟩, hout.symm, ?_⟩
          rw [hs']
          exact Restoring.after_disclosed (m := m) hdecoy
        · cases hms
          rw [hkind] at hkind'
          cases hkind'
        · cases hms

theorem restoreItem_ok {item : Value} {out : List Value} {s s' : Restoring}
    (hlimits : s.budget.limits = limits) (hvalidate : s.pending.validateClaims = validate) :
    restoreItem mode next depth item s = .ok (out, s') ↔
      ∃ ms n, ItemRestores limits validate R depth item out ms n ∧
        s.Passes mode ms n ∧ s' = s.after ms n := by
  have hl (ms : List Meeting) (n : Nat) : (s.after ms n).budget.limits = limits := hlimits
  have hv (ms : List Meeting) (n : Nat) : (s.after ms n).pending.validateClaims = validate :=
    hvalidate
  rw [restoreItem]
  cases hinner : redactedInner item with
  | none =>
    have hkeep := redactedInner_eq_none.mp hinner
    simp only [Except.bind_eq_ok, Prod.exists, Except.pure_eq_ok, Prod.mk.injEq,
      hnext item s _ _ hlimits hvalidate, itemRestores_keep hkeep]
    constructor
    · rintro ⟨value', s1, ⟨ms, n, hR, hpasses, hs1⟩, hout, hs'⟩
      exact ⟨ms, n, ⟨value', hR, hout.symm⟩, hpasses, hs' ▸ hs1⟩
    · rintro ⟨ms, n, ⟨value', hR, hout⟩, hpasses, hs'⟩
      exact ⟨value', s', ⟨ms, n, hR, hpasses, hs'⟩, hout.symm, rfl⟩
  | some inner =>
    rw [redactedInner_eq_some] at hinner
    simp only [Except.bind_eq_ok, Restoring.enter_ok, expectBytes_ok]
    constructor
    · rintro ⟨_, ⟨_, haffords, hs1⟩, _, ⟨hdepth, haffords', hs2⟩, hash, hhash, h⟩
      subst hs1 hs2 hhash hinner
      rw [Restoring.after_visit] at h
      rw [Restoring.after_limits, hlimits] at hdepth
      obtain ⟨ms, n, hR, hpasses, hs'⟩ :=
        (restoreElement_ok mode hnext (hl _ _) (hv _ _) hdepth).mp h
      refine ⟨ms, 2 + n, hR, ?_, ?_⟩
      · rw [Restoring.passes_visit, TraversalBudget.affords_add (n := 1) (m := 1)]
        rw [Restoring.after_nil] at haffords'
        exact ⟨⟨haffords, haffords'⟩, hpasses⟩
      · rw [hs', Restoring.after_visit]
    · rintro ⟨ms, k, hR, hpasses, hs'⟩
      obtain ⟨hash, n, rfl, rfl, hdepth⟩ :
          ∃ hash n, item = redactedElement hash ∧ k = 2 + n ∧ depth + 2 ≤ limits.maxDepth := by
        cases hR with
        | keep hkeep =>
          rw [hinner, isRedactedElement] at hkeep
          simp at hkeep
        | disclosed hdepth => exact ⟨_, _, rfl, rfl, hdepth⟩
        | decoy hdepth | undisclosed hdepth => exact ⟨_, 0, rfl, rfl, hdepth⟩
      rw [Restoring.passes_visit, TraversalBudget.affords_add (n := 1) (m := 1)] at hpasses
      obtain ⟨⟨haffords, haffords'⟩, hpasses⟩ := hpasses
      refine ⟨_, ⟨?_, haffords, rfl⟩, _, ⟨?_, ?_, rfl⟩, hash, (Value.tag.inj hinner).2.symm, ?_⟩
      · rw [hlimits]
        omega
      · rwa [Restoring.after_limits, hlimits]
      · rwa [Restoring.after_nil]
      · rw [Restoring.after_visit]
        refine (restoreElement_ok mode hnext (hl _ _) (hv _ _) hdepth).mpr
          ⟨ms, n, hR, hpasses, ?_⟩
        rw [hs', Restoring.after_visit]

theorem restoreItems_ok {items out : List Value} {s s' : Restoring}
    (hlimits : s.budget.limits = limits) (hvalidate : s.pending.validateClaims = validate) :
    restoreItems mode next depth items s = .ok (out, s') ↔
      ∃ ms n, ItemsRestore limits validate R depth items out ms n ∧
        s.Passes mode ms n ∧ s' = s.after ms n := by
  induction items generalizing out s s' with
  | nil =>
    rw [restoreItems, Except.ok.injEq]
    constructor
    · intro h
      cases h
      exact ⟨[], 0, .nil, Restoring.passes_nil.mpr (.inl rfl), by rw [Restoring.after_nil]; rfl⟩
    · rintro ⟨ms, n, h, _, hs'⟩
      cases h
      subst hs'
      rw [Restoring.after_nil]
      rfl
  | cons item items ih =>
    have hl (ms : List Meeting) (n : Nat) : (s.after ms n).budget.limits = limits := hlimits
    have hv (ms : List Meeting) (n : Nat) : (s.after ms n).pending.validateClaims = validate :=
      hvalidate
    rw [restoreItems]
    simp only [Except.bind_eq_ok, Prod.exists, Except.pure_eq_ok, Prod.mk.injEq,
      restoreItem_ok mode hnext hlimits hvalidate]
    constructor
    · rintro ⟨out1, s1, ⟨ms, n, hR, hpasses, hs1⟩, out2, s2, hrest, hout, hs2⟩
      subst hs1 hout hs2
      obtain ⟨ms', n', hRs, hpasses', hs'⟩ := (ih (hl _ _) (hv _ _)).mp hrest
      refine ⟨ms ++ ms', n + n', .cons hR hRs, ?_, ?_⟩
      · exact Restoring.passes_append.mpr ⟨hpasses, hpasses'⟩
      · rw [hs', Restoring.after_after]
    · rintro ⟨_, _, hR, hpasses, hs'⟩
      cases hR with
      | @cons _ _ out1 out2 ms ms' n n' hR hRs =>
        obtain ⟨hpasses, hpasses'⟩ := Restoring.passes_append.mp hpasses
        refine ⟨out1, _, ⟨ms, n, hR, hpasses, rfl⟩, out2, s', ?_, rfl, rfl⟩
        refine (ih (hl _ _) (hv _ _)).mpr ⟨ms', n', hRs, hpasses', ?_⟩
        rw [hs', Restoring.after_after]

theorem restoreMap_ok {es : List (Value × Value)} {value' : Value} {s s' : Restoring}
    (hlimits : s.budget.limits = limits) (hvalidate : s.pending.validateClaims = validate) :
    restoreMap c mode next depth es s = .ok (value', s') ↔
      ∃ ms n, ValueRestores limits validate R depth (.map es) value' ms (1 + n) ∧
        s.Passes mode ms n ∧ s' = s.after ms n := by
  have hl (ms : List Meeting) (n : Nat) : (s.after ms n).budget.limits = limits := hlimits
  have hv (ms : List Meeting) (n : Nat) : (s.after ms n).pending.validateClaims = validate :=
    hvalidate
  rw [restoreMap, Except.seq_eq_ok, TraversalBudget.container_ok]
  simp only [Except.bind_eq_ok, Prod.exists, Except.pure_eq_ok, Prod.mk.injEq,
    restoreEntries_ok c mode hnext hlimits hvalidate List.nodup_nil]
  constructor
  · rintro ⟨hlength, out, keys, hs, s1, ⟨labels, lists, ms, n, hR, hlists, hnodup, hkeys, hhs,
      hpasses, hs1⟩, disclosed, undisclosed, s2, hrest, hvalue, hs2⟩
    subst hs1 hs2 hvalue hkeys hhs
    rw [List.append_nil] at hnodup hrest
    obtain ⟨labels', ms', n', hRs, hnodup', hpasses', hs'⟩ :=
      (restoreHashes_ok mode hnext (hl _ _) (hv _ _) hnodup).mp hrest
    rw [hlimits] at hlength
    refine ⟨ms ++ ms', n + n', .map hlength hR hlists hRs ?_, ?_, ?_⟩
    · rwa [← List.nodup_reverse, List.reverse_append]
    · exact Restoring.passes_append.mpr ⟨hpasses, hpasses'⟩
    · rw [hs', Restoring.after_after]
  · rintro ⟨_, k, hR, hpasses, hs'⟩
    generalize hk : 1 + k = k' at hR
    cases hR with
    | scalar hscalar => exact hscalar.elim
    | @map _ out disclosed labels labels' lists undisclosed ms ms' n n' hlength hR hlists hRs
        hnodup =>
      obtain rfl : k = n + n' := by omega
      obtain ⟨hpasses, hpasses'⟩ := Restoring.passes_append.mp hpasses
      rw [← List.nodup_reverse, List.reverse_append] at hnodup
      refine ⟨by rwa [hlimits], out, labels.reverse, lists.flatten, _,
        ⟨labels, lists, ms, n, hR, hlists, ?_, ?_, rfl, hpasses, rfl⟩, disclosed, undisclosed, s',
        ?_, rfl, rfl⟩
      · rw [List.append_nil]
        exact hnodup.of_append_right
      · rw [List.append_nil]
      · refine (restoreHashes_ok mode hnext (hl _ _) (hv _ _) hnodup.of_append_right).mpr
          ⟨labels', ms', n', hRs, hnodup, hpasses', ?_⟩
        rw [hs', Restoring.after_after]

theorem restoreArray_ok {items : List Value} {value' : Value} {s s' : Restoring}
    (hlimits : s.budget.limits = limits) (hvalidate : s.pending.validateClaims = validate) :
    restoreArray mode next depth items s = .ok (value', s') ↔
      ∃ ms n, ValueRestores limits validate R depth (.array items) value' ms (1 + n) ∧
        s.Passes mode ms n ∧ s' = s.after ms n := by
  rw [restoreArray, Except.seq_eq_ok, TraversalBudget.container_ok]
  simp only [Except.bind_eq_ok, Prod.exists, Except.pure_eq_ok, Prod.mk.injEq,
    restoreItems_ok mode hnext hlimits hvalidate]
  constructor
  · rintro ⟨hlength, out, s1, ⟨ms, n, hR, hpasses, hs1⟩, hvalue, hs'⟩
    subst hvalue hs'
    rw [hlimits] at hlength
    exact ⟨ms, n, .array hlength hR, hpasses, hs1⟩
  · rintro ⟨ms, k, hR, hpasses, hs'⟩
    generalize hk : 1 + k = k' at hR
    cases hR with
    | scalar hscalar => exact hscalar.elim
    | @array _ out _ n hlength hR =>
      obtain rfl : k = n := by omega
      exact ⟨by rwa [hlimits], out, s', ⟨ms, k, hR, hpasses, hs'⟩, rfl, rfl⟩

end Walk

theorem ValueRestores.pos {limits : ProcessingLimits} {validate : Bool}
    {next : Value → Value → List Meeting → Nat → Prop} {depth : Nat} {value value' : Value}
    {ms : List Meeting} {n : Nat}
    (h : ValueRestores limits validate next depth value value' ms n) : 0 < n := by
  cases h with
  | map | array | tag | scalar => omega

theorem restoreScalar_ok {limits : ProcessingLimits} {validate : Bool} {mode : RestoreMode}
    {next : Value → Value → List Meeting → Nat → Prop} {depth : Nat} {value value' : Value}
    {s s' : Restoring} (hscalar : IsScalar value) :
    (if isRedactedClaimKeysLabel value = true then Except.error misplacedLabel
      else pure (value, s)) = .ok (value', s') ↔
      ∃ ms n, ValueRestores limits validate next depth value value' ms (1 + n) ∧
        s.Passes mode ms n ∧ s' = s.after ms n := by
  by_cases hlabel : isRedactedClaimKeysLabel value = true
  · rw [if_pos hlabel]
    refine iff_of_false (by simp) ?_
    rintro ⟨ms, n, hR, _⟩
    generalize 1 + n = k at hR
    cases hR with
    | scalar _ hlabel' =>
      rw [hlabel'] at hlabel
      cases hlabel
    | map | array | tag => exact hscalar.elim
  · rw [if_neg hlabel, Except.pure_eq_ok, Prod.mk.injEq]
    constructor
    · rintro ⟨hvalue, hs'⟩
      subst hvalue hs'
      refine ⟨[], 0, .scalar hscalar (Bool.eq_false_iff.mpr hlabel),
        Restoring.passes_nil.mpr (.inl rfl), ?_⟩
      rw [Restoring.after_nil]
      rfl
    · rintro ⟨ms, n, hR, _, hs'⟩
      generalize hk : 1 + n = k at hR
      cases hR with
      | scalar =>
        obtain rfl : n = 0 := by omega
        rw [hs', Restoring.after_nil]
        exact ⟨rfl, rfl⟩
      | map | array | tag => exact hscalar.elim

/-- Restoration succeeds with a result exactly when there is a derivation of it that the
state gets through. -/
theorem restoreValue_ok (c : SdCbor2) (mode : RestoreMode) {limits : ProcessingLimits}
    {validate : Bool} {levels depth : Nat} (hlevels : levels + depth = limits.maxDepth + 1)
    (value : Value) :
    Follows limits validate mode (fun s => restoreValue c mode levels value s depth)
      (Restores limits validate levels depth value) := by
  induction levels generalizing depth value with
  | zero =>
    intro s s' a _ _
    refine iff_of_false (by rintro ⟨⟩) ?_
    rintro ⟨_, _, hR, _⟩
    exact hR
  | succ levels ih =>
    have hnext (v : Value) := @ih (depth + 1) (by omega) v
    intro s s' value' hlimits hvalidate
    have hdepth : depth ≤ s.budget.limits.maxDepth := by
      rw [hlimits]
      omega
    have hl : (s.after [] 1).budget.limits = limits := hlimits
    have hv : (s.after [] 1).pending.validateClaims = validate := hvalidate
    -- the value itself is visited first
    have henter (body : Restoring → Except Error (Value × Restoring))
        (hbody : body (s.after [] 1) = .ok (value', s') ↔
          ∃ ms n, Restores limits validate (levels + 1) depth value value' ms (1 + n) ∧
            (s.after [] 1).Passes mode ms n ∧ s' = (s.after [] 1).after ms n) :
        (do body (← s.enter depth)) = .ok (value', s') ↔
          ∃ ms n, Restores limits validate (levels + 1) depth value value' ms n ∧
            s.Passes mode ms n ∧ s' = s.after ms n := by
      simp only [Except.bind_eq_ok, Restoring.enter_ok]
      constructor
      · rintro ⟨_, ⟨_, haffords, hs1⟩, h⟩
        subst hs1
        obtain ⟨ms, n, hR, hpasses, hs'⟩ := hbody.mp h
        refine ⟨ms, 1 + n, hR, Restoring.passes_visit.mpr ⟨haffords, hpasses⟩, ?_⟩
        rw [hs', Restoring.after_visit]
      · rintro ⟨ms, k, hR, hpasses, hs'⟩
        obtain ⟨n, rfl⟩ := Nat.exists_eq_add_of_le (ValueRestores.pos hR)
        obtain ⟨haffords, hpasses⟩ := Restoring.passes_visit.mp hpasses
        refine ⟨_, ⟨hdepth, haffords, rfl⟩, hbody.mpr ⟨ms, n, hR, hpasses, ?_⟩⟩
        rw [hs', Restoring.after_visit]
    show restoreValue c mode (levels + 1) value s depth = .ok (value', s') ↔ _
    cases value with
    | map es => 
      rw [restoreValue]
      exact henter _ (restoreMap_ok c mode hnext hl hv)
    | array items =>
      rw [restoreValue]
      exact henter _ (restoreArray_ok mode hnext hl hv)
    | tag t inner =>
      rw [restoreValue]
      refine henter _ ?_
      dsimp only
      by_cases ht : IsReservedTag t
      · rw [if_pos ht]
        refine iff_of_false (by simp) ?_
        rintro ⟨ms, n, hR, _⟩
        generalize 1 + n = k at hR
        cases hR with
        | tag ht' => exact ht' ht
        | scalar hscalar => exact hscalar.elim
      · simp only [if_neg ht, Except.bind_eq_ok, Prod.exists, Except.pure_eq_ok, Prod.mk.injEq]
        constructor
        · rintro ⟨inner', s1, hinner, hvalue, hs1⟩
          subst hvalue hs1
          obtain ⟨ms, n, hR, hpasses, hs'⟩ := (hnext inner (s.after [] 1) _ _ hl hv).mp hinner
          exact ⟨ms, n, .tag ht hR, hpasses, hs'⟩
        · rintro ⟨ms, n, hR, hpasses, hs'⟩
          generalize hk : 1 + n = k at hR
          cases hR with
          | scalar hscalar => exact hscalar.elim
          | @tag _ _ inner' _ n' _ hR =>
            obtain rfl : n = n' := by omega
            exact ⟨inner', s', (hnext inner (s.after [] 1) _ _ hl hv).mpr
              ⟨ms, n, hR, hpasses, hs'⟩, rfl, rfl⟩
    | integer | bytes | text | float | bool | null | simple =>
      rw [restoreValue]
      refine henter _ ?_
      exact restoreScalar_ok trivial

end Cose2.SdCwt

import Cose2.SdCwt.Termination

/-! # Limits only restrict

The limits do not show in what is restored: whatever is restored within some limits is
restored in the same way within wider ones, and so it is without limits.  Which values are
entered, and how deep, is a matter of the claims and the disclosures alone; restoration
succeeds within limits only if all these depths, and their number, are within them.
-/
namespace Cose2.SdCwt

open Cbor

/-! ### The depths that are entered -/

section Loops

-- `next` relates a value one level further down, and the markers met in it, to the depths
variable (next : Value → List Meeting → List Nat → Prop) (depth : Nat)

/-- Over the entries of a map, which leave some hashes. -/
inductive EntriesVisit : List (Value × Value) → List Bytes → List Meeting → List Nat → Prop
  | nil : EntriesVisit [] [] [] []
  -- the key, the list of hashes, and each of them
  | hashes {key : Value} {hs hs' : List Bytes} {es : List (Value × Value)} {ms : List Meeting}
    {depths : List Nat} :
    isRedactedClaimKeysLabel key = true → EntriesVisit es hs' ms depths →
    EntriesVisit ((key, .array (hs.map .bytes)) :: es) (hs ++ hs') ms
      ((depth + 1) :: (depth + 1) :: (List.replicate hs.length (depth + 2) ++ depths))
  | claim {key value : Value} {hs : List Bytes} {es : List (Value × Value)}
    {ms ms' : List Meeting} {depths depths' : List Nat} :
    isRedactedClaimKeysLabel key = false → next value ms depths →
    EntriesVisit es hs ms' depths' →
    EntriesVisit ((key, value) :: es) hs (ms ++ ms') ((depth + 1) :: (depths ++ depths'))

/-- Over the hashes of a map; only disclosed values are entered. -/
inductive HashesVisit : List Bytes → List Meeting → List Nat → Prop
  | nil : HashesVisit [] [] []
  | claim {hash salt : Bytes} {d : Disclosure} {key : Label} {value : Value} {hs : List Bytes}
    {ms ms' : List Meeting} {depths depths' : List Nat} :
    d.kind = .claim salt key value → next value ms depths → HashesVisit hs ms' depths' →
    HashesVisit (hash :: hs) ((⟨.claimKeys, hash⟩, some d) :: (ms ++ ms')) (depths ++ depths')
  | decoy {hash salt : Bytes} {d : Disclosure} {hs : List Bytes} {ms : List Meeting}
    {depths : List Nat} :
    d.kind = .decoy salt → HashesVisit hs ms depths →
    HashesVisit (hash :: hs) ((⟨.claimKeys, hash⟩, some d) :: ms) depths
  | undisclosed {hash : Bytes} {hs : List Bytes} {ms : List Meeting} {depths : List Nat} :
    HashesVisit hs ms depths →
    HashesVisit (hash :: hs) ((⟨.claimKeys, hash⟩, none) :: ms) depths

/-- At an element of an array; a redacted one is entered, then its hash. -/
inductive ItemVisits : Value → List Meeting → List Nat → Prop
  | keep {item : Value} {ms : List Meeting} {depths : List Nat} :
    isRedactedElement item = false → next item ms depths → ItemVisits item ms depths
  | disclosed {hash salt : Bytes} {d : Disclosure} {value : Value} {ms : List Meeting}
    {depths : List Nat} :
    d.kind = .element salt value → next value ms depths →
    ItemVisits (redactedElement hash) ((⟨.element, hash⟩, some d) :: ms)
      ((depth + 1) :: (depth + 2) :: depths)
  | decoy {hash salt : Bytes} {d : Disclosure} : d.kind = .decoy salt →
    ItemVisits (redactedElement hash) [(⟨.element, hash⟩, some d)] [depth + 1, depth + 2]
  | undisclosed {hash : Bytes} :
    ItemVisits (redactedElement hash) [(⟨.element, hash⟩, none)] [depth + 1, depth + 2]

/-- Over the elements of an array. -/
inductive ItemsVisit : List Value → List Meeting → List Nat → Prop
  | nil : ItemsVisit [] [] []
  | cons {item : Value} {items : List Value} {ms ms' : List Meeting} {depths depths' : List Nat} :
    ItemVisits next depth item ms depths → ItemsVisit items ms' depths' →
    ItemsVisit (item :: items) (ms ++ ms') (depths ++ depths')

/-- At a value: first itself, then its parts. -/
inductive ValueVisits : Value → List Meeting → List Nat → Prop
  | map {es : List (Value × Value)} {hs : List Bytes} {ms ms' : List Meeting}
    {depths depths' : List Nat} :
    EntriesVisit next depth es hs ms depths → HashesVisit next hs ms' depths' →
    ValueVisits (.map es) (ms ++ ms') (depth :: (depths ++ depths'))
  | array {items : List Value} {ms : List Meeting} {depths : List Nat} :
    ItemsVisit next depth items ms depths → ValueVisits (.array items) ms (depth :: depths)
  | tag {t : UInt64} {value : Value} {ms : List Meeting} {depths : List Nat} :
    next value ms depths → ValueVisits (.tag t value) ms (depth :: depths)
  | scalar {value : Value} : IsScalar value → ValueVisits value [] [depth]

end Loops

/-- At a value with no more than `levels` levels. -/
def Visits : (levels depth : Nat) → Value → List Meeting → List Nat → Prop
  | 0, _ => fun _ _ _ => False
  | levels + 1, depth => ValueVisits (Visits levels (depth + 1)) depth

/-- The depths at which values are entered while `value` is restored from `depth` on and
the markers turn out to hide what `ms` says. -/
def Visited (depth : Nat) (value : Value) (ms : List Meeting) (depths : List Nat) : Prop :=
  ∃ levels, Visits levels depth value ms depths

/-- At claims that may be missing. -/
def OptionVisited (claims : Option Value) (ms : List Meeting) (depths : List Nat) : Prop :=
  match claims with
  | none => ms = [] ∧ depths = []
  | some claims => Visited 0 claims ms depths

/-- The depths at which values are entered while both claims maps are restored, the
protected one first. -/
def Entered (value : Value) (protectedClaims : Option Value) (hasher : RedactionHasher)
    (ds : List Disclosure) (depths : List Nat) : Prop :=
  ∃ ms₁ ms₂ depths₁ depths₂, depths = depths₁ ++ depths₂ ∧
    BTreeMap.Finds Marker.hash (BTreeMap.ofList (digested hasher ds)) (ms₁ ++ ms₂) ∧
    OptionVisited protectedClaims ms₁ depths₁ ∧ Visited 0 value ms₂ depths₂

/-! ### Within the limits -/

/-- There are `n` depths, all of them within the limits. -/
structure WithinDepth (limits : ProcessingLimits) (n : Nat) (depths : List Nat) : Prop where
  count : depths.length = n
  depth : ∀ depth ∈ depths, depth ≤ limits.maxDepth

theorem WithinDepth.nil {limits : ProcessingLimits} : WithinDepth limits 0 [] := ⟨rfl, by simp⟩

theorem WithinDepth.cons {limits : ProcessingLimits} {n depth : Nat} {depths : List Nat}
    (hdepth : depth ≤ limits.maxDepth) (h : WithinDepth limits n depths) :
    WithinDepth limits (1 + n) (depth :: depths) :=
  ⟨by rw [List.length_cons, h.count, Nat.add_comm], List.forall_mem_cons.mpr ⟨hdepth, h.depth⟩⟩

theorem WithinDepth.append {limits : ProcessingLimits} {n n' : Nat} {depths depths' : List Nat}
    (h : WithinDepth limits n depths) (h' : WithinDepth limits n' depths') :
    WithinDepth limits (n + n') (depths ++ depths') :=
  ⟨by rw [List.length_append, h.count, h'.count], List.forall_mem_append.mpr ⟨h.depth, h'.depth⟩⟩

section Walk

variable {limits : ProcessingLimits} {validate : Bool} {depth : Nat}
  {next : Value → Value → List Meeting → Nat → Prop}
  {next' : Value → List Meeting → List Nat → Prop}
  (hnext : ∀ v v' ms n, next v v' ms n → ∃ depths, next' v ms depths ∧ WithinDepth limits n depths)
include hnext

theorem EntriesRestore.visited {es out : List (Value × Value)} {labels : List Label}
    {lists : List (List Bytes)} {ms : List Meeting} {n : Nat}
    (h : EntriesRestore limits next depth es out labels lists ms n) :
    ∃ depths, EntriesVisit next' depth es lists.flatten ms depths ∧
      WithinDepth limits n depths := by
  induction h with
  | nil => exact ⟨[], .nil, .nil⟩
  | @hashes key hs es out labels lists ms n hkey hdepth _ hdeep _ ih =>
    obtain ⟨depths, hvisit, hwithin⟩ := ih
    have hhashes : WithinDepth limits hs.length (List.replicate hs.length (depth + 2)) := by
      refine ⟨List.length_replicate, fun d hd => ?_⟩
      obtain ⟨hlength, rfl⟩ := List.mem_replicate.mp hd
      exact hdeep (List.ne_nil_of_length_pos (Nat.pos_of_ne_zero hlength))
    refine ⟨_, .hashes hkey hvisit, .cons hdepth ?_⟩
    rw [Nat.add_assoc]
    exact .cons hdepth (hhashes.append hwithin)
  | claim hkey _ hdepth hvalue _ ih =>
    obtain ⟨depths, hnested, hwithin⟩ := hnext _ _ _ _ hvalue
    obtain ⟨depths', hvisit, hwithin'⟩ := ih
    exact ⟨_, .claim hkey hnested hvisit, .cons hdepth (hwithin.append hwithin')⟩

theorem HashesRestore.visited {hs undisclosed : List Bytes} {out : List (Value × Value)}
    {labels : List Label} {ms : List Meeting} {n : Nat}
    (h : HashesRestore validate next depth hs out labels undisclosed ms n) :
    ∃ depths, HashesVisit next' hs ms depths ∧ WithinDepth limits n depths := by
  induction h with
  | nil => exact ⟨[], .nil, .nil⟩
  | claim hkind _ hvalue _ ih =>
    obtain ⟨depths, hnested, hwithin⟩ := hnext _ _ _ _ hvalue
    obtain ⟨depths', hvisit, hwithin'⟩ := ih
    exact ⟨_, .claim hkind hnested hvisit, hwithin.append hwithin'⟩
  | decoy hkind _ ih =>
    obtain ⟨depths, hvisit, hwithin⟩ := ih
    exact ⟨_, .decoy hkind hvisit, hwithin⟩
  | undisclosed _ ih =>
    obtain ⟨depths, hvisit, hwithin⟩ := ih
    exact ⟨_, .undisclosed hvisit, hwithin⟩

theorem ItemRestores.visited {item : Value} {out : List Value} {ms : List Meeting} {n : Nat}
    (h : ItemRestores limits validate next depth item out ms n) :
    ∃ depths, ItemVisits next' depth item ms depths ∧ WithinDepth limits n depths := by
  have hmarker {n : Nat} {depths : List Nat} (hdeep : depth + 2 ≤ limits.maxDepth)
      (h : WithinDepth limits n depths) :
      WithinDepth limits (2 + n) ((depth + 1) :: (depth + 2) :: depths) := by
    have hboth := WithinDepth.cons (by omega : depth + 1 ≤ limits.maxDepth) (h.cons hdeep)
    rwa [← Nat.add_assoc] at hboth
  cases h with
  | keep hkeep hvalue =>
    obtain ⟨depths, hnested, hwithin⟩ := hnext _ _ _ _ hvalue
    exact ⟨_, .keep hkeep hnested, hwithin⟩
  | disclosed hdeep hkind hvalue =>
    obtain ⟨depths, hnested, hwithin⟩ := hnext _ _ _ _ hvalue
    exact ⟨_, .disclosed hkind hnested, hmarker hdeep hwithin⟩
  | decoy hdeep hkind => exact ⟨_, .decoy hkind, hmarker hdeep .nil⟩
  | undisclosed hdeep => exact ⟨_, .undisclosed, hmarker hdeep .nil⟩

theorem ItemsRestore.visited {vs out : List Value} {ms : List Meeting} {n : Nat}
    (h : ItemsRestore limits validate next depth vs out ms n) :
    ∃ depths, ItemsVisit next' depth vs ms depths ∧ WithinDepth limits n depths := by
  induction h with
  | nil => exact ⟨[], .nil, .nil⟩
  | cons hitem _ ih =>
    obtain ⟨depths, hvisits, hwithin⟩ := hitem.visited hnext
    obtain ⟨depths', hvisit, hwithin'⟩ := ih
    exact ⟨_, .cons hvisits hvisit, hwithin.append hwithin'⟩

theorem ValueRestores.visited (hdepth : depth ≤ limits.maxDepth) {v v' : Value}
    {ms : List Meeting} {n : Nat} (h : ValueRestores limits validate next depth v v' ms n) :
    ∃ depths, ValueVisits next' depth v ms depths ∧ WithinDepth limits n depths := by
  cases h with
  | map _ hentries _ hhashes =>
    obtain ⟨depths, hvisit, hwithin⟩ := hentries.visited hnext
    obtain ⟨depths', hvisit', hwithin'⟩ := hhashes.visited hnext
    exact ⟨_, .map hvisit hvisit', .cons hdepth (hwithin.append hwithin')⟩
  | array _ hitems =>
    obtain ⟨depths, hvisit, hwithin⟩ := hitems.visited hnext
    exact ⟨_, .array hvisit, .cons hdepth hwithin⟩
  | tag _ hvalue =>
    obtain ⟨depths, hnested, hwithin⟩ := hnext _ _ _ _ hvalue
    exact ⟨_, .tag hnested, .cons hdepth hwithin⟩
  | scalar hscalar => exact ⟨_, .scalar hscalar, .cons hdepth .nil⟩

end Walk

variable {limits : ProcessingLimits} {validate : Bool}

/-- All values that restoration entered are within the limits. -/
theorem Restores.visited {levels depth : Nat} (hlevels : levels + depth = limits.maxDepth + 1)
    {v v' : Value} {ms : List Meeting} {n : Nat}
    (h : Restores limits validate levels depth v v' ms n) :
    ∃ depths, Visits levels depth v ms depths ∧ WithinDepth limits n depths := by
  induction levels generalizing depth v v' ms n with
  | zero => exact h.elim
  | succ levels ih =>
    exact ValueRestores.visited (fun _ _ _ _ h => ih (by omega) h) (by omega) h

theorem OptionRestores.visited {claims claims' : Option Value} {ms : List Meeting} {n : Nat}
    (h : OptionRestores limits validate claims claims' ms n) :
    ∃ depths, OptionVisited claims ms depths ∧ WithinDepth limits n depths := by
  cases h with
  | absent => exact ⟨[], ⟨rfl, rfl⟩, .nil⟩
  | present h =>
    obtain ⟨depths, hvisits, hwithin⟩ := h.visited (Nat.add_zero _)
    exact ⟨depths, ⟨_, hvisits⟩, hwithin⟩

/-! ### Wider limits -/

/-- Whatever is allowed by the first limits is allowed by the second. -/
structure ProcessingLimits.Within (limits limits' : ProcessingLimits) : Prop where
  depth : limits.maxDepth ≤ limits'.maxDepth
  items : limits.maxItems ≤ limits'.maxItems
  disclosures : limits.maxDisclosures ≤ limits'.maxDisclosures
  disclosureBytes : limits.maxDisclosureBytes ≤ limits'.maxDisclosureBytes
  containerEntries : limits.maxContainerEntries ≤ limits'.maxContainerEntries

section Widen

variable {limits' : ProcessingLimits} (hlimits : limits.Within limits')

section Walk

variable {depth : Nat} {next next' : Value → Value → List Meeting → Nat → Prop}
  (hnext : ∀ v v' ms n, next v v' ms n → next' v v' ms n)
include hlimits hnext

theorem EntriesRestore.widen {es out : List (Value × Value)} {labels : List Label}
    {lists : List (List Bytes)} {ms : List Meeting} {n : Nat}
    (h : EntriesRestore limits next depth es out labels lists ms n) :
    EntriesRestore limits' next' depth es out labels lists ms n := by
  induction h with
  | nil => exact .nil
  | hashes hkey hdepth hlength hdeep _ ih =>
    exact .hashes hkey (hdepth.trans hlimits.depth) (hlength.trans hlimits.containerEntries)
      (fun hne => (hdeep hne).trans hlimits.depth) ih
  | claim hkey hlabel hdepth hvalue _ ih =>
    exact .claim hkey hlabel (hdepth.trans hlimits.depth) (hnext _ _ _ _ hvalue) ih

omit hlimits in
theorem HashesRestore.widen {hs undisclosed : List Bytes} {out : List (Value × Value)}
    {labels : List Label} {ms : List Meeting} {n : Nat}
    (h : HashesRestore validate next depth hs out labels undisclosed ms n) :
    HashesRestore validate next' depth hs out labels undisclosed ms n := by
  induction h with
  | nil => exact .nil
  | claim hkind hkey hvalue _ ih => exact .claim hkind hkey (hnext _ _ _ _ hvalue) ih
  | decoy hkind _ ih => exact .decoy hkind ih
  | undisclosed _ ih => exact .undisclosed ih

theorem ItemRestores.widen {item : Value} {out : List Value} {ms : List Meeting} {n : Nat}
    (h : ItemRestores limits validate next depth item out ms n) :
    ItemRestores limits' validate next' depth item out ms n := by
  cases h with
  | keep hkeep hvalue => exact .keep hkeep (hnext _ _ _ _ hvalue)
  | disclosed hdeep hkind hvalue =>
    exact .disclosed (hdeep.trans hlimits.depth) hkind (hnext _ _ _ _ hvalue)
  | decoy hdeep hkind => exact .decoy (hdeep.trans hlimits.depth) hkind
  | undisclosed hdeep => exact .undisclosed (hdeep.trans hlimits.depth)

theorem ItemsRestore.widen {vs out : List Value} {ms : List Meeting} {n : Nat}
    (h : ItemsRestore limits validate next depth vs out ms n) :
    ItemsRestore limits' validate next' depth vs out ms n := by
  induction h with
  | nil => exact .nil
  | cons hitem _ ih => exact .cons (hitem.widen hlimits hnext) ih

theorem ValueRestores.widen {v v' : Value} {ms : List Meeting} {n : Nat}
    (h : ValueRestores limits validate next depth v v' ms n) :
    ValueRestores limits' validate next' depth v v' ms n := by
  cases h with
  | map hlength hentries hlists hhashes hnodup =>
    exact .map (hlength.trans hlimits.containerEntries) (hentries.widen hlimits hnext) hlists
      (hhashes.widen hnext) hnodup
  | array hlength hitems =>
    exact .array (hlength.trans hlimits.containerEntries) (hitems.widen hlimits hnext)
  | tag ht hvalue => exact .tag ht (hnext _ _ _ _ hvalue)
  | scalar hscalar hlabel => exact .scalar hscalar hlabel

end Walk

include hlimits

theorem Restores.widen {levels levels' depth : Nat} (hlevels : levels ≤ levels') {v v' : Value}
    {ms : List Meeting} {n : Nat} (h : Restores limits validate levels depth v v' ms n) :
    Restores limits' validate levels' depth v v' ms n := by
  induction levels generalizing levels' depth v v' ms n with
  | zero => exact h.elim
  | succ levels ih =>
    cases levels' with
    | zero => exact absurd hlevels (Nat.not_succ_le_zero _)
    | succ levels' =>
      exact ValueRestores.widen hlimits (fun _ _ _ _ h => ih (Nat.le_of_succ_le_succ hlevels) h) h

theorem OptionRestores.widen {claims claims' : Option Value} {ms : List Meeting} {n : Nat}
    (h : OptionRestores limits validate claims claims' ms n) :
    OptionRestores limits' validate claims claims' ms n := by
  cases h with
  | absent => exact .absent
  | present h => exact .present (h.widen hlimits (Nat.succ_le_succ hlimits.depth))

theorem ProcessingLimits.Within.affords {visited n : Nat}
    (h : TraversalBudget.Affords ⟨limits, visited⟩ n) :
    TraversalBudget.Affords ⟨limits', visited⟩ n := by
  rcases h with h | ⟨hsize, hle⟩
  · exact .inl h
  · exact .inr ⟨hsize, hle.trans hlimits.items⟩

theorem Loads.widen {hasher : RedactionHasher} {ds : List Disclosure}
    (h : Loads hasher 0 0 [] ∅ { limits } ds) : Loads hasher 0 0 [] ∅ { limits := limits' } ds where
  count := h.count.trans hlimits.disclosures
  size := h.size
  bytes := h.bytes.trans hlimits.disclosureBytes
  items := hlimits.affords h.items
  digests := h.digests
  newDigests := h.newDigests
  distinctSalts := h.distinctSalts
  newSalts := h.newSalts

theorem Presented.widen {mode : RestoreMode} {value : Value} {protectedClaims : Option Value}
    {hasher : RedactionHasher} {ds : List Disclosure} {report : RestoreReport}
    {ms : List Meeting} {n : Nat}
    (h : Presented mode limits validate value protectedClaims hasher ds report ms n) :
    Presented mode limits' validate value protectedClaims hasher ds report ms n := by
  obtain ⟨ms₁, ms₂, n₁, n₂, hms, hn, hoption, hrestores⟩ := h.restores
  have hroot := hrestores.widen hlimits (Nat.succ_le_succ hlimits.depth)
  exact ⟨h.loads.widen hlimits, ⟨ms₁, ms₂, n₁, n₂, hms, hn, hoption.widen hlimits, hroot⟩,
    ⟨h.passes.finds, h.passes.answered, hlimits.affords h.passes.affords⟩, h.usesAll, h.stats⟩

end Widen

/-! ### Runs within limits -/

variable {mode : RestoreMode} {value : Value} {protectedClaims : Option Value}
  {hasher : RedactionHasher} {ds : List Disclosure} {report : RestoreReport}

/-- What a successful run entered, together with what was disclosed, is within the limits. -/
theorem Presented.entered {ms : List Meeting} {n : Nat}
    (h : Presented mode limits validate value protectedClaims hasher ds report ms n) :
    ∃ depths, Entered value protectedClaims hasher ds depths ∧
      (∀ depth ∈ depths, depth ≤ limits.maxDepth) ∧
      disclosedItems ds + depths.length ≤ limits.maxItems := by
  obtain ⟨ms₁, ms₂, n₁, n₂, rfl, rfl, hoption, hrestores⟩ := h.restores
  obtain ⟨depths₁, hvisited₁, hwithin₁⟩ := hoption.visited
  obtain ⟨depths₂, hvisited₂, hwithin₂⟩ := hrestores.visited (Nat.add_zero _)
  have hwithin := hwithin₁.append hwithin₂
  refine ⟨depths₁ ++ depths₂, ⟨ms₁, ms₂, depths₁, depths₂, rfl, h.passes.finds, hvisited₁, _,
    hvisited₂⟩, hwithin.depth, ?_⟩
  have hpos : 0 < n₂ := ValueRestores.pos hrestores
  have haffords := h.passes.affords
  rw [TraversalBudget.Affords] at haffords
  rw [hwithin.count]
  rcases haffords with hnone | ⟨-, hle⟩
  · omega
  · exact hle

/-- A run within limits gives the same report within wider limits. -/
theorem restoreWithProtectedClaims_widen {c : SdCbor2} {limits' : ProcessingLimits}
    (hlimits : limits.Within limits')
    (h : restoreWithProtectedClaims c mode value protectedClaims ds hasher limits validate =
      .ok report) :
    restoreWithProtectedClaims c mode value protectedClaims ds hasher limits' validate =
      .ok report := by
  rw [restoreWithProtectedClaims, Except.bind_eq_ok] at h ⊢
  obtain ⟨restored, hrestored, hrest⟩ := h
  obtain ⟨ms, n, hpresented⟩ := restoreClaims_ok.mp hrestored
  exact ⟨restored, restoreClaims_ok.mpr ⟨ms, n, hpresented.widen hlimits⟩, hrest⟩

/-- **Restoration terminates, and limits only restrict it.**  Its calls are nested no deeper
than there are items to restore, whatever the limits; and in a run that succeeds within
limits, all depths that are entered are within them, and so is the number of disclosed
items and entered values, and the report is that of any run within wider limits. -/
theorem restore_bounded (c : SdCbor2) (mode : RestoreMode) :
    (∀ (value : Value) (s : Restoring) (n : Nat), items value + s.pendingItems < n →
      ∀ f : RestoreCall → Except Error (Value × Restoring),
        restoreRoot c mode value s = (restoreCall c mode)^[n] f (value, s, 0)) ∧
    ∀ (value : Value) (protectedClaims : Option Value) (ds : List Disclosure)
      (hasher : RedactionHasher) (limits : ProcessingLimits) (validate : Bool)
      (report : RestoreReport),
      restoreWithProtectedClaims c mode value protectedClaims ds hasher limits validate =
        .ok report →
      (∃ depths, Entered value protectedClaims hasher ds depths ∧
        (∀ depth ∈ depths, depth ≤ limits.maxDepth) ∧
        disclosedItems ds + depths.length ≤ limits.maxItems) ∧
      ∀ limits', limits.Within limits' →
        restoreWithProtectedClaims c mode value protectedClaims ds hasher limits' validate =
          .ok report := by
  refine ⟨fun value s n hn f => restoreRoot_terminates c mode value s hn f, ?_⟩
  intro value protectedClaims ds hasher limits validate report h
  obtain ⟨restored, hrestored, -⟩ := restoreWithProtectedClaims_ok h
  obtain ⟨ms, n, hpresented⟩ := restoreClaims_ok.mp hrestored
  exact ⟨hpresented.entered, fun _ hlimits => restoreWithProtectedClaims_widen hlimits h⟩

/-- A disclosure whose value holds its own hash. -/
def selfReference : Disclosure where
  kind := .element (List.replicate 16 1) (.array [redactedElement [1]])
  encoded := [1]
  valid := rfl

/-- It is disclosed once; no level and no item could be spared. -/
theorem restore_bounded_selfReference :
    (∀ f : RestoreCall → Except Error (Value × Restoring),
      restoreRoot .reference .verifier (.array [redactedElement [1]])
          (startRestoring plainHasher {} false [selfReference]) =
        (restoreCall .reference .verifier)^[7] f (.array [redactedElement [1]],
          startRestoring plainHasher {} false [selfReference], 0)) ∧
    restoreWithProtectedClaims .reference .verifier (.array [redactedElement [1]]) none
        [selfReference] plainHasher {} false = .ok ⟨.array [.array []], none, 1, 0, 1⟩ :=
  ⟨(restore_bounded .reference .verifier).1 _ _ 7 (by decide),
    ((restore_bounded .reference .verifier).2 (.array [redactedElement [1]]) none [selfReference]
      plainHasher { maxDepth := 3, maxItems := 11 } false _ rfl).2 {}
      ⟨by decide, by decide, by decide, by decide, by decide⟩⟩

end Cose2.SdCwt

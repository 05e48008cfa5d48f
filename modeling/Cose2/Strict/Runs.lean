import Cose2.Strict.ItemAt

/-! # The loops of the strict parser

Each loop of the parser repeats one step, over chunks, elements or map entries.
Given that the step consumes exactly the trees it accepts, the loop consumes
exactly the lists of such trees.
-/
namespace Cose2.Strict

open Cbor

/-! ### Runs of one step -/

section Steps

/-- The parser steps over one tree that `P` accepts. -/
def Steps (P : Parser → Tree → Prop) (p : Parser) (it : Item) (p' : Parser) : Prop :=
  ∃ t, P p t ∧ t.bytes <+: p.rest ∧ it = itemAt p.pos t ∧
    p' = p.advance t.bytes.length t.count ∧ p'.items ≤ p'.limits.maxItems

/-- The parser steps over some trees in a row. -/
def StepsAll (P : Parser → Tree → Prop) (p : Parser) (ts : List Tree) (p' : Parser) : Prop :=
  (∀ t ∈ ts, P p t) ∧ ts.flatMap Tree.bytes <+: p.rest ∧
    p' = p.advance (ts.flatMap Tree.bytes).length (Tree.countItems ts) ∧
    p'.items ≤ p'.limits.maxItems

/-- What is accepted does not depend on where the parser is. -/
def Stable (P : Parser → Tree → Prop) : Prop :=
  ∀ p len n t, P (Parser.advance p len n) t ↔ P p t

variable {P : Parser → Tree → Prop} {p p' : Parser}

@[simp] theorem itemsAt_length (pos : Nat) (ts : List Tree) :
    (itemsAt pos ts).length = ts.length := by
  induction ts generalizing pos with
  | nil => rfl
  | cons t ts ih => rw [itemsAt, List.length_cons, ih, List.length_cons]

theorem run_steps (hP : Stable P) (hb : p.items ≤ p.limits.maxItems) {its : List Item} :
    Run (Steps P) p its p' ↔ ∃ ts, StepsAll P p ts p' ∧ its = itemsAt p.pos ts := by
  induction its generalizing p with
  | nil =>
    constructor
    · intro h
      cases h
      exact ⟨[], ⟨by simp, by simp, rfl, hb⟩, rfl⟩
    · rintro ⟨ts, ⟨-, -, rfl, -⟩, h⟩
      cases ts with
      | nil => exact .nil p
      | cons t ts => cases h
  | cons it its ih =>
    rw [Run.cons_iff]
    constructor
    · rintro ⟨p₁, ⟨t, ht, hpre, rfl, rfl, hb₁⟩, hrun⟩
      obtain ⟨ts, ⟨hts, hpre', rfl, hb₂⟩, rfl⟩ := (ih hb₁).mp hrun
      refine ⟨t :: ts, ⟨?_, ?_, ?_, hb₂⟩, rfl⟩
      · exact List.forall_mem_cons.mpr ⟨ht, fun u hu => (hP _ _ _ _).mp (hts u hu)⟩
      · rw [List.flatMap_cons, Parser.append_prefix_rest t.count]
        exact ⟨hpre, hpre'⟩
      · simp [Tree.countItems]
    · rintro ⟨ts, ⟨hts, hpre, rfl, hb₂⟩, h⟩
      cases ts with
      | nil => cases h
      | cons t ts =>
        cases h
        rw [List.forall_mem_cons] at hts
        rw [List.flatMap_cons, Parser.append_prefix_rest t.count] at hpre
        simp only [Tree.countItems, Parser.advance_items, Parser.advance_limits] at hb₂
        have hb₁ : (p.advance t.bytes.length t.count).items ≤ p.limits.maxItems := by
          simp only [Parser.advance_items]
          omega
        refine ⟨_, ⟨t, hts.1, hpre.1, rfl, rfl, hb₁⟩, (ih hb₁).mpr ⟨ts, ⟨?_, hpre.2, ?_, ?_⟩, rfl⟩⟩
        · exact fun u hu => (hP _ _ _ _).mpr (hts.2 u hu)
        · simp [Tree.countItems]
        · simp only [List.flatMap_cons, Tree.countItems, Parser.advance_items,
            Parser.advance_limits]
          omega

variable {step : Parser → Except Error (Item × Parser)}

theorem repeatN_steps (hstep : ∀ p it p', step p = .ok (it, p') ↔ Steps P p it p')
    (hP : Stable P) (hb : p.items ≤ p.limits.maxItems) {n : Nat} {its : List Item} :
    repeatN step n p = .ok (its, p') ↔
      ∃ ts, ts.length = n ∧ StepsAll P p ts p' ∧ its = itemsAt p.pos ts := by
  simp only [repeatN_ok, hstep, run_steps hP hb]
  constructor
  · rintro ⟨hlen, ts, hts, rfl⟩
    exact ⟨ts, by simpa using hlen, hts, rfl⟩
  · rintro ⟨ts, hlen, hts, rfl⟩
    exact ⟨by simpa using hlen, ts, hts, rfl⟩

theorem fuel_of_prefix {bs : Bytes} (h : bs ++ [breakByte] <+: p.rest) :
    bs.length < p.fuel := by
  have := Parser.length_le_of_prefix h (by simp)
  rw [List.length_append, List.length_singleton] at this
  rw [Parser.fuel]
  omega

theorem untilStop_steps (hstep : ∀ p it p', step p = .ok (it, p') ↔ Steps P p it p')
    (hP : Stable P) (hfits : ∀ p t, P p t → t.Fits) (hb : p.items ≤ p.limits.maxItems)
    {e : Error} {its : List Item} :
    untilStop Parser.takeBreak step e p.fuel p = .ok (its, p') ↔
      ∃ ts, (∀ t ∈ ts, P p t) ∧ ts.flatMap Tree.bytes ++ [breakByte] <+: p.rest ∧
        p' = p.advance ((ts.flatMap Tree.bytes).length + 1) (Tree.countItems ts) ∧
        p'.items ≤ p'.limits.maxItems ∧ its = itemsAt p.pos ts := by
  have hguard : ∀ p it p', (Parser.takeBreak p = none ∧ step p = .ok (it, p')) ↔
      Steps P p it p' := by
    intro p it p'
    rw [hstep]
    constructor
    · exact fun h => h.2
    · intro h
      refine ⟨?_, h⟩
      obtain ⟨t, ht, hpre, -⟩ := h
      exact if_neg (Parser.not_atBreak (hfits p t ht) hpre)
  simp only [untilStop_ok, hguard, run_steps hP hb, Parser.takeBreak_eq_some]
  constructor
  · rintro ⟨-, p₁, ⟨ts, ⟨hts, hpre, rfl, hb₁⟩, rfl⟩, hbreak, rfl⟩
    refine ⟨ts, hts, ?_, by simp, hb₁, rfl⟩
    rw [Parser.append_prefix_rest (Tree.countItems ts)]
    exact ⟨hpre, hbreak⟩
  · rintro ⟨ts, hts, hpre, rfl, hb₁, rfl⟩
    have hfuel := fuel_of_prefix hpre
    have hlen := Tree.length_le_bytes ts
    rw [Parser.append_prefix_rest (Tree.countItems ts)] at hpre
    exact ⟨by rw [itemsAt_length]; omega, _, ⟨ts, ⟨hts, hpre.1, rfl, hb₁⟩, rfl⟩, hpre.2, by simp⟩

/-! ### Map entries -/

variable (c : Cbor2)

/-- The bytes of a key and its value. -/
def entryBytes (e : Tree × Tree) : Bytes := e.1.bytes ++ e.2.bytes

/-- The parser steps over one map entry and records its key. -/
def EntrySteps (P : Parser → Tree → Prop) (s : Option (List Bytes) × Parser) (_ : Unit)
    (s' : Option (List Bytes) × Parser) : Prop :=
  ∃ e : Tree × Tree, (P s.2 e.1 ∧ P s.2 e.2) ∧ entryBytes e <+: s.2.rest ∧
    KeyStep c s.1 e.1 s'.1 ∧
    s'.2 = s.2.advance (entryBytes e).length (e.1.count + e.2.count) ∧
    s'.2.items ≤ s'.2.limits.maxItems

theorem entry_ok (hstep : ∀ p it p', step p = .ok (it, p') ↔ Steps P p it p')
    (hP : Stable P) (hfits : ∀ p t, P p t → t.Fits) {indefinite : Bool}
    {s s' : Option (List Bytes) × Parser} {u : Unit} :
    Parser.entry c step indefinite s = .ok (u, s') ↔ EntrySteps c P s u s' := by
  obtain ⟨keys, p⟩ := s
  obtain ⟨keys', p'⟩ := s'
  simp only [Parser.entry, EntrySteps, Except.bind_eq_ok, Except.failIf_eq_ok,
    Except.pure_eq_ok, hstep, Prod.exists]
  constructor
  · rintro ⟨_, _, ⟨k, hk, hpre, rfl, rfl, hb⟩, keys₁, hkey, -, -, _, _,
      ⟨v, hv, hpre', rfl, rfl, hb'⟩, h⟩
    cases h
    rw [insertKey_ok c (p := p.advance k.bytes.length k.count) (hfits _ _ hk).head hpre]
      at hkey
    refine ⟨k, v, ⟨hk, (hP _ _ _ _).mp hv⟩, ?_, hkey, by simp [entryBytes], hb'⟩
    exact (Parser.append_prefix_rest k.count).mpr ⟨hpre, hpre'⟩
  · rintro ⟨k, v, ⟨hk, hv⟩, hpre, hkey, rfl, hb⟩
    simp only [entryBytes] at hpre hb ⊢
    rw [Parser.append_prefix_rest k.count] at hpre
    have hv' := (hP p k.bytes.length k.count v).mpr hv
    refine ⟨_, _, ⟨k, hk, hpre.1, rfl, rfl, ?_⟩, keys', ?_, (), ?_, _, _,
      ⟨v, hv', hpre.2, rfl, rfl, ?_⟩, by simp⟩
    · simp only [Parser.advance_items, Parser.advance_limits] at hb ⊢
      omega
    · exact (insertKey_ok c (p := p.advance k.bytes.length k.count) (hfits _ _ hk).head
        hpre.1).mpr hkey
    · exact fun h => Parser.not_atBreak (hfits _ _ hv') hpre.2 h.2
    · simpa [Nat.add_assoc] using hb

theorem run_entries (hP : Stable P) (hb : p.items ≤ p.limits.maxItems) {us : List Unit}
    {keys keys' : Option (List Bytes)} :
    Run (EntrySteps c P) (keys, p) us (keys', p') ↔ ∃ es, es.length = us.length ∧
      (∀ e ∈ es, P p e.1 ∧ P p e.2) ∧ es.flatMap entryBytes <+: p.rest ∧
      Run (KeyStep c) keys (es.map Prod.fst) keys' ∧
      p' = p.advance (es.flatMap entryBytes).length (Tree.countEntries es) ∧
      p'.items ≤ p'.limits.maxItems := by
  induction us generalizing p keys with
  | nil =>
    constructor
    · intro h
      cases h
      exact ⟨[], rfl, by simp, by simp, .nil _, rfl, hb⟩
    · rintro ⟨es, hlen, -, -, hrun, rfl, -⟩
      cases List.length_eq_zero_iff.mp hlen
      cases hrun
      exact .nil _
  | cons u us ih =>
    rw [Run.cons_iff]
    constructor
    · rintro ⟨⟨keys₁, p₁⟩, ⟨e, he, hpre, hkey, hp₁, hb₁⟩, hrun⟩
      simp only at hp₁ hb₁ he hpre hkey
      subst hp₁
      obtain ⟨es, hlen, hes, hpre', hrun', rfl, hb₂⟩ := (ih hb₁).mp hrun
      refine ⟨e :: es, by simp [hlen], ?_, ?_, .cons hkey hrun', ?_, hb₂⟩
      · exact List.forall_mem_cons.mpr
          ⟨he, fun f hf => ⟨(hP _ _ _ _).mp (hes f hf).1, (hP _ _ _ _).mp (hes f hf).2⟩⟩
      · rw [List.flatMap_cons, Parser.append_prefix_rest (e.1.count + e.2.count)]
        exact ⟨hpre, hpre'⟩
      · simp [Tree.countEntries, Nat.add_assoc]
    · rintro ⟨es, hlen, hes, hpre, hrun, rfl, hb₂⟩
      cases es with
      | nil => cases hlen
      | cons e es =>
        rw [List.forall_mem_cons] at hes
        rw [List.flatMap_cons, Parser.append_prefix_rest (e.1.count + e.2.count)] at hpre
        obtain ⟨keys₁, hkey, hrun⟩ := Run.cons_iff.mp hrun
        simp only [Tree.countEntries, Parser.advance_items, Parser.advance_limits] at hb₂
        have hb₁ : (p.advance (entryBytes e).length (e.1.count + e.2.count)).items ≤
            p.limits.maxItems := by
          simp only [Parser.advance_items]
          omega
        refine ⟨(keys₁, _), ⟨e, hes.1, hpre.1, hkey, rfl, hb₁⟩,
          (ih hb₁).mpr ⟨es, by simpa using hlen, ?_, hpre.2, hrun, ?_, ?_⟩⟩
        · exact fun f hf => ⟨(hP _ _ _ _).mpr (hes.2 f hf).1, (hP _ _ _ _).mpr (hes.2 f hf).2⟩
        · simp [Tree.countEntries, Nat.add_assoc]
        · simp only [Tree.countEntries, Parser.advance_items, Parser.advance_limits]
          omega

theorem length_le_entryBytes (es : List (Tree × Tree)) :
    es.length ≤ (es.flatMap entryBytes).length := by
  have h := Tree.length_le_bytes (es.flatMap fun e => [e.1, e.2])
  have he : (es.flatMap fun e => [e.1, e.2]).flatMap Tree.bytes = es.flatMap entryBytes := by
    simp only [List.flatMap_assoc, List.flatMap_cons, List.flatMap_nil, List.append_nil]
    rfl
  have hlen : (es.flatMap fun e => [e.1, e.2]).length = es.length * 2 := by
    simp [List.length_flatMap]
  rw [he] at h
  omega

theorem distinctKeys_iff {w : Option Width} {es : List (Tree × Tree)} {b : Bool} :
    (∃ keys, Run (KeyStep c) (if b then some [] else none) (es.map Prod.fst) keys) ↔
      (b = true → DistinctKeys c (.map w es)) := by
  cases b with
  | false => simp [run_keyStep_none]
  | true =>
    simp only [if_true, run_keyStep_some c List.nodup_nil, List.forall₂_map_left_iff,
      DistinctKeys, List.append_nil, List.nodup_reverse, true_implies]

end Steps

end Cose2.Strict

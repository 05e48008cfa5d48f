import Cose2.Strict.Runs

/-! # What the strict parser accepts

One level of the parser is characterised for an arbitrary parser of the level
below (`parseItem_ok`), and `parse_ok` is the induction on the nesting levels:
the parser returns exactly the items that fit their heads, stay within the
limits and, when asked, repeat no map key.
-/
namespace Cose2.Strict

open Cbor

/-! ### One item -/

/-- The major type of an item, and its argument with the width it is written in. -/
def openerOf : Tree → Nat × Option (Width × Nat)
  | .int negative w n => (Tree.intMajor negative, some (w, n))
  | .str text w payload => (Tree.strMajor text, some (w, payload.length))
  | .chunked text _ => (Tree.strMajor text, none)
  | .array w items => (4, w.map (·, items.length))
  | .map w entries => (5, w.map (·, entries.length))
  | .tag w n _ => (6, some (w, n))
  | .prim w n => (7, some (w, n))

/-- The bytes in front of the content. -/
def openingBytes (major : Nat) : Option (Width × Nat) → Bytes
  | some (w, n) => head major w n
  | none => [openIndefinite major]

/-- The additional information in the initial byte. -/
def infoOf : Option (Width × Nat) → Nat
  | some (w, n) => w.info n
  | none => 31

/-- The bytes of the content, a closing break byte included. -/
def bodyOf : Tree → Bytes
  | .str _ _ payload => payload
  | .chunked text chunks => chunks.flatMap (Tree.strBytes text) ++ [breakByte]
  | .array w items => items.flatMap Tree.bytes ++ Tree.closing w
  | .map w entries => entries.flatMap entryBytes ++ Tree.closing w
  | .tag _ _ content => content.bytes
  | .int .. | .prim .. => []

theorem bytes_eq_opening (t : Tree) :
    t.bytes = openingBytes (openerOf t).1 (openerOf t).2 ++ bodyOf t := by
  cases t with
  | int | prim => exact (List.append_nil _).symm
  | str | chunked | tag => rfl
  | array w items =>
    rw [Tree.bytes, Tree.bytesItems_eq]
    cases w <;> rfl
  | map w entries =>
    rw [Tree.bytes, Tree.bytesEntries_eq]
    cases w <;> rfl

theorem headLength_eq (t : Tree) :
    headLength t = (openingBytes (openerOf t).1 (openerOf t).2).length := by
  cases t with
  | int | str | tag | prim => exact (head_length _ _ _).symm
  | chunked => rfl
  | array w items =>
    cases w with
    | none => rfl
    | some w => exact (head_length _ _ _).symm
  | map w entries =>
    cases w with
    | none => rfl
    | some w => exact (head_length _ _ _).symm

theorem openerOf_lt (t : Tree) : (openerOf t).1 < 8 := by
  cases t with
  | int negative => exact Tree.intMajor_lt negative
  | str text | chunked text => exact Tree.strMajor_lt text
  | array | map | tag | prim => simp [openerOf]

theorem openerOf_bound {t : Tree} (h : t.NodeFits) {w : Width} {n : Nat}
    (ho : (openerOf t).2 = some (w, n)) : n < w.bound := by
  cases t with
  | int | str | tag | prim => cases ho; exact h
  | chunked => cases ho
  | array w' items =>
    obtain ⟨w'', hw, he⟩ := Option.map_eq_some_iff.mp ho
    cases he
    exact h w hw
  | map w' entries =>
    obtain ⟨w'', hw, he⟩ := Option.map_eq_some_iff.mp ho
    cases he
    exact h w hw

theorem indefiniteOf_eq (t : Tree) : indefiniteOf t = (openerOf t).2.isNone := by
  cases t with
  | array w items => cases w <;> rfl
  | map w entries => cases w <;> rfl
  | int | str | chunked | tag | prim => rfl

/-- Only strings, arrays and maps have indefinite length. -/
theorem openerOf_none {t : Tree} (h : (openerOf t).2 = none) :
    2 ≤ (openerOf t).1 ∧ (openerOf t).1 ≤ 5 := by
  cases t with
  | chunked text => cases text <;> simp [openerOf, Tree.strMajor]
  | array | map => simp [openerOf]
  | int | str | tag | prim => cases h

section ItemSpec

variable (c : Cbor2) (P : Parser → Tree → Prop)

/-- One item is accepted: its own head and keys are in order, and the children
are accepted one level below. -/
def ItemOk (p : Parser) (t : Tree) : Prop :=
  t.NodeFits ∧ (p.limits.requireDefinite = true → ¬ t.IsIndefinite) ∧
    (p.rejectDuplicateKeys = true → DistinctKeys c t) ∧ ∀ ch ∈ t.children, P p ch

/-- What parsing the content of an accepted item comes to. -/
def ContentOk (q : Parser) (t : Tree) (kind : Kind) (kept : List Item) (p' : Parser) : Prop :=
  ItemOk c P q t ∧ bodyOf t <+: q.rest ∧ kind = kindOf t ∧ kept = keptAt q.pos t ∧
    p' = q.advance (bodyOf t).length (t.count - 1) ∧ p'.items ≤ p'.limits.maxItems

/-- A chunk is a definite-length string of the given type. -/
def ChunkOk (text : Bool) (p : Parser) (t : Tree) : Prop :=
  P p t ∧ ∃ w payload, t = .str text w payload

variable {c P} {step : Parser → Except Error (Item × Parser)} {q p' : Parser}

theorem kindOf_eq_strKind {text : Bool} {t : Tree} :
    (kindOf t = strKind text ∧ indefiniteOf t = false) ↔ ∃ w payload, t = .str text w payload := by
  cases t with
  | str text' w payload => cases text <;> cases text' <;> simp [kindOf, strKind, indefiniteOf]
  | chunked text' chunks => simp [indefiniteOf]
  | int negative w n => cases negative <;> cases text <;> simp [kindOf, strKind]
  | prim w n => cases w <;> cases text <;> simp [kindOf, strKind]
  | array | map | tag => cases text <;> simp [kindOf, strKind]

section

variable (hstep : ∀ p it p', step p = .ok (it, p') ↔ Steps P p it p')

include hstep

theorem chunk_ok {text : Bool} {p : Parser} {it : Item} :
    Parser.chunk step (strKind text) p = .ok (it, p') ↔ Steps (ChunkOk P text) p it p' := by
  simp only [Parser.chunk, Except.bind_eq_ok, Except.failIf_eq_ok, Except.pure_eq_ok, hstep,
    Prod.exists]
  constructor
  · rintro ⟨_, _, ⟨t, ht, hpre, rfl, rfl, hb⟩, -, hkind, h⟩
    cases h
    rw [itemAt_kind, itemAt_indefinite, not_or, not_not, Bool.not_eq_true] at hkind
    exact ⟨t, ⟨ht, kindOf_eq_strKind.mp hkind⟩, hpre, rfl, rfl, hb⟩
  · rintro ⟨t, ⟨ht, hstr⟩, hpre, rfl, rfl, hb⟩
    refine ⟨_, _, ⟨t, ht, hpre, rfl, rfl, hb⟩, (), ?_, rfl⟩
    rw [itemAt_kind, itemAt_indefinite, not_or, not_not, Bool.not_eq_true]
    exact kindOf_eq_strKind.mpr hstr

variable (hP : Stable P) (hfits : ∀ p t, P p t → t.Fits)
  (hb : q.items ≤ q.limits.maxItems) (hpos : q.pos ≤ q.data.length)

include hP hfits hb hpos

omit hstep hP hfits hb in
theorem string_some {kind k : Kind} {n : Nat} (hn : n < usizeBound) {kept : List Item} :
    Parser.string step kind (some n) q = .ok ((k, kept), p') ↔
      ∃ payload, payload.length = n ∧ payload <+: q.rest ∧ k = kind ∧ kept = [] ∧
        p' = q.advance n 0 := by
  simp only [Parser.string, Parser.length, if_pos hn, Except.ok_bind]
  split_ifs with h
  · rw [Except.pure_eq_ok, Prod.mk.injEq, Prod.mk.injEq]
    constructor
    · rintro ⟨⟨rfl, rfl⟩, rfl⟩
      refine ⟨q.rest.take n, ?_, List.take_prefix _ _, rfl, rfl, rfl⟩
      simp only [Parser.rest, List.length_take, List.length_drop]
      omega
    · rintro ⟨payload, -, -, rfl, rfl, rfl⟩
      exact ⟨⟨rfl, rfl⟩, rfl⟩
  · constructor
    · simp
    · rintro ⟨payload, rfl, hpre, -⟩
      have := hpre.length_le
      simp only [Parser.rest, List.length_drop] at this
      omega

omit hpos in
theorem string_none (text : Bool) {k : Kind} {kept : List Item} :
    Parser.string step (strKind text) none q = .ok ((k, kept), p') ↔
      ∃ chunks, (∀ ch ∈ chunks, P q (.str text ch.1 ch.2)) ∧
        chunks.flatMap (Tree.strBytes text) ++ [breakByte] <+: q.rest ∧ k = strKind text ∧
        kept = chunksAt text q.pos chunks ∧
        p' = q.advance ((chunks.flatMap (Tree.strBytes text)).length + 1) chunks.length ∧
        p'.items ≤ p'.limits.maxItems := by
  have hchunk : Stable (ChunkOk P text) := fun p len n t => and_congr_left fun _ => hP p len n t
  have hcount (chs : List (Width × Bytes)) :
      Tree.countItems (chs.map fun ch => .str text ch.1 ch.2) = chs.length := by
    rw [Tree.countItems_eq]
    simp [Tree.count, Function.comp_def]
  have hbytes (chs : List (Width × Bytes)) :
      (chs.map fun ch => Tree.str text ch.1 ch.2).flatMap Tree.bytes =
        chs.flatMap (Tree.strBytes text) := by
    rw [List.flatMap_map]
    rfl
  simp only [Parser.string, Except.bind_eq_ok, Except.pure_eq_ok, Prod.exists,
    untilStop_steps (fun _ _ _ => chunk_ok hstep) hchunk (fun p t h => hfits p t h.1) hb]
  constructor
  · rintro ⟨its, p₁, ⟨ts, hts, hpre, hp₁, hb₁, rfl⟩, h⟩
    cases h
    have hrange : ts ∈ Set.range (List.map fun ch : Width × Bytes => Tree.str text ch.1 ch.2) := by
      rw [Set.range_list_map]
      intro t ht
      obtain ⟨-, w, payload, rfl⟩ := hts t ht
      exact ⟨(w, payload), rfl⟩
    obtain ⟨chs, rfl⟩ := hrange
    rw [hbytes] at hpre hp₁
    rw [hcount] at hp₁
    refine ⟨chs, fun ch hch => (hts _ (List.mem_map_of_mem hch)).1, hpre, rfl, ?_, hp₁, hb₁⟩
    rw [chunksAt_eq]
  · rintro ⟨chs, hchs, hpre, rfl, rfl, rfl, hb₁⟩
    refine ⟨_, _, ⟨chs.map fun ch => .str text ch.1 ch.2, ?_, ?_, ?_, hb₁, rfl⟩, ?_⟩
    · rw [List.forall_mem_map]
      exact fun ch hch => ⟨hchs ch hch, ch.1, ch.2, rfl⟩
    · rwa [hbytes]
    · rw [hbytes, hcount]
    · rw [chunksAt_eq]

omit hfits hpos in
theorem array_some {n : Nat} (hn : n < usizeBound) {k : Kind} {kept : List Item} :
    Parser.array step (some n) q = .ok ((k, kept), p') ↔
      ∃ ts, ts.length = n ∧ StepsAll P q ts p' ∧ k = .array ∧ kept = itemsAt q.pos ts := by
  simp only [Parser.array, Parser.length, if_pos hn, Except.ok_bind, Except.bind_eq_ok,
    Except.pure_eq_ok, Prod.exists, repeatN_steps hstep hP hb]
  constructor
  · rintro ⟨its, p₁, ⟨ts, hlen, hts, rfl⟩, h⟩
    cases h
    exact ⟨ts, hlen, hts, rfl, rfl⟩
  · rintro ⟨ts, hlen, hts, rfl, rfl⟩
    exact ⟨_, _, ⟨ts, hlen, hts, rfl⟩, rfl⟩

omit hpos in
theorem array_none {k : Kind} {kept : List Item} :
    Parser.array step none q = .ok ((k, kept), p') ↔
      ∃ ts, (∀ t ∈ ts, P q t) ∧ ts.flatMap Tree.bytes ++ [breakByte] <+: q.rest ∧
        p' = q.advance ((ts.flatMap Tree.bytes).length + 1) (Tree.countItems ts) ∧
        p'.items ≤ p'.limits.maxItems ∧ k = .array ∧ kept = itemsAt q.pos ts := by
  simp only [Parser.array, Except.bind_eq_ok, Except.pure_eq_ok, Prod.exists,
    untilStop_steps hstep hP hfits hb]
  constructor
  · rintro ⟨its, p₁, ⟨ts, hts, hpre, hp₁, hb₁, rfl⟩, h⟩
    cases h
    exact ⟨ts, hts, hpre, hp₁, hb₁, rfl, rfl⟩
  · rintro ⟨ts, hts, hpre, hp₁, hb₁, rfl, rfl⟩
    exact ⟨_, _, ⟨ts, hts, hpre, hp₁, hb₁, rfl⟩, rfl⟩

omit hpos in
theorem map_some {n : Nat} (hn : n < usizeBound) {w : Option Width} {k : Kind}
    {kept : List Item} :
    Parser.map c step (some n) q = .ok ((k, kept), p') ↔
      ∃ es, es.length = n ∧ (∀ e ∈ es, P q e.1 ∧ P q e.2) ∧
        es.flatMap entryBytes <+: q.rest ∧
        (q.rejectDuplicateKeys = true → DistinctKeys c (.map w es)) ∧
        p' = q.advance (es.flatMap entryBytes).length (Tree.countEntries es) ∧
        p'.items ≤ p'.limits.maxItems ∧ k = .map ∧ kept = [] := by
  simp only [Parser.map, Parser.length, if_pos hn, Except.ok_bind, Except.bind_eq_ok,
    Except.pure_eq_ok, Prod.exists, repeatN_ok, entry_ok c hstep hP hfits,
    run_entries c hP hb, ← distinctKeys_iff c (w := w)]
  constructor
  · rintro ⟨us, keys, p₁, ⟨hlen, es, hlen', hes, hpre, hkeys, hp₁, hb₁⟩, h⟩
    cases h
    exact ⟨es, hlen'.trans hlen, hes, hpre, ⟨keys, hkeys⟩, hp₁, hb₁, rfl, rfl⟩
  · rintro ⟨es, hlen, hes, hpre, ⟨keys, hkeys⟩, hp₁, hb₁, rfl, rfl⟩
    exact ⟨List.replicate n (), keys, p', ⟨List.length_replicate, es, by simp [hlen], hes, hpre,
      hkeys, hp₁, hb₁⟩, rfl⟩

omit hP hfits hb hpos in
theorem tag_some {n : Nat} {k : Kind} {kept : List Item} :
    Parser.tag step (some n) q = .ok ((k, kept), p') ↔
      ∃ it, Steps P q it p' ∧ k = .tag n ∧ kept = [it] := by
  simp only [Parser.tag, Except.bind_eq_ok, Except.pure_eq_ok, Except.ofOption_eq_ok,
    Prod.exists, hstep]
  constructor
  · rintro ⟨_, hn, it, p₁, hit, h⟩
    cases hn
    cases h
    exact ⟨it, hit, rfl, rfl⟩
  · rintro ⟨it, hit, rfl, rfl⟩
    exact ⟨n, rfl, it, p', hit, rfl⟩

omit hstep hP hfits hb hpos in
theorem simple_info {w : Width} {n : Nat} (hn : n < w.bound) :
    q.simple (w.info n) (some n) = .ok (kindOf (.prim w n)) := by
  cases w with
  | imm => exact if_pos (Nat.le_of_lt_succ hn)
  | one =>
    have hn' : n < 256 := hn
    simp [Parser.simple, Width.info, Except.ofOption, hn', kindOf]
    rfl
  | two | four | eight => rfl

omit hpos in
theorem map_none {w : Option Width} {k : Kind} {kept : List Item} :
    Parser.map c step none q = .ok ((k, kept), p') ↔
      ∃ es, (∀ e ∈ es, P q e.1 ∧ P q e.2) ∧
        es.flatMap entryBytes ++ [breakByte] <+: q.rest ∧
        (q.rejectDuplicateKeys = true → DistinctKeys c (.map w es)) ∧
        p' = q.advance ((es.flatMap entryBytes).length + 1) (Tree.countEntries es) ∧
        p'.items ≤ p'.limits.maxItems ∧ k = .map ∧ kept = [] := by
  have hguard : ∀ s u s', ((s.2.takeBreak.map (s.1, ·)) = none ∧
      Parser.entry c step true s = .ok (u, s')) ↔ EntrySteps c P s u s' := by
    intro s u s'
    rw [entry_ok c hstep hP hfits]
    refine ⟨fun h => h.2, fun h => ⟨?_, h⟩⟩
    obtain ⟨e, he, hpre, -⟩ := h
    rw [entryBytes, Parser.append_prefix_rest 0] at hpre
    rw [Option.map_eq_none_iff]
    exact if_neg (Parser.not_atBreak (hfits _ _ he.1) hpre.1)
  simp only [Parser.map, Except.bind_eq_ok, Except.pure_eq_ok, Prod.exists, untilStop_ok,
    hguard, run_entries c hP hb, Option.map_eq_some_iff, Parser.takeBreak_eq_some,
    ← distinctKeys_iff c (w := w)]
  constructor
  · rintro ⟨us, keys, p₁, ⟨-, keys₁, p₂, ⟨es, hlen, hes, hpre, hkeys, rfl, hb₁⟩,
      p₃, ⟨hbreak, rfl⟩, he⟩, h⟩
    cases he
    cases h
    refine ⟨es, hes, ?_, ⟨_, hkeys⟩, by simp, hb₁, rfl, rfl⟩
    rw [Parser.append_prefix_rest (Tree.countEntries es)]
    exact ⟨hpre, hbreak⟩
  · rintro ⟨es, hes, hpre, ⟨keys, hkeys⟩, rfl, hb₁, rfl, rfl⟩
    have hfuel := fuel_of_prefix hpre
    have hlen := length_le_entryBytes es
    rw [Parser.append_prefix_rest (Tree.countEntries es)] at hpre
    refine ⟨List.replicate es.length (), keys, _, ⟨?_, keys, _,
      ⟨es, by simp, hes, hpre.1, hkeys, rfl, hb₁⟩, _, ⟨hpre.2, rfl⟩, rfl⟩, by simp⟩
    rw [List.length_replicate]
    omega

theorem content_sound {major : Nat} (hm : major < 8) {o : Option (Width × Nat)}
    (ho : ∀ w n, o = some (w, n) → n < w.bound)
    (hi : o = none → q.limits.requireDefinite = false ∧ 2 ≤ major ∧ major ≤ 5)
    {kind : Kind} {kept : List Item}
    (h : q.content c step major (infoOf o) (o.map Prod.snd) = .ok ((kind, kept), p')) :
    ∃ t, openerOf t = (major, o) ∧ ContentOk c P q t kind kept p' := by
  cases o with
  | none =>
    obtain ⟨hdef, hm2, hm5⟩ := hi rfl
    have hdef' : q.limits.requireDefinite = true → ¬ True := by simp [hdef]
    have chunked (text : Bool)
        (h : Parser.string step (strKind text) none q = .ok ((kind, kept), p')) :
        ∃ t, openerOf t = (Tree.strMajor text, none) ∧ ContentOk c P q t kind kept p' := by
      obtain ⟨chs, hchs, hpre, rfl, rfl, rfl, hb'⟩ := (string_none hstep hP hfits hb text).mp h
      refine ⟨.chunked text chs, rfl, ⟨?_, hdef', fun _ => trivial, forall_mem_chunks.mpr hchs⟩,
        hpre, rfl, rfl, ?_, hb'⟩
      · exact fun ch hch => (hfits _ _ (hchs ch hch)).head
      · simp [bodyOf, Tree.count]
    obtain rfl | rfl | rfl | rfl : major = 2 ∨ major = 3 ∨ major = 4 ∨ major = 5 := by omega
    · exact chunked false h
    · exact chunked true h
    · obtain ⟨ts, hts, hpre, rfl, hb', rfl, rfl⟩ := (array_none hstep hP hfits hb).mp h
      refine ⟨.array none ts, rfl, ⟨by simp [Tree.NodeFits], hdef', fun _ => trivial, hts⟩,
        hpre, rfl, rfl, ?_, hb'⟩
      simp [bodyOf, Tree.closing, Tree.count]
    · obtain ⟨es, hes, hpre, hkeys, rfl, hb', rfl, rfl⟩ :=
        (map_none hstep hP hfits hb (w := none)).mp h
      refine ⟨.map none es, rfl, ⟨by simp [Tree.NodeFits], hdef', hkeys,
        forall_mem_entries.mpr hes⟩, hpre, rfl, rfl, ?_, hb'⟩
      simp [bodyOf, Tree.closing, Tree.count]
  | some wn =>
    obtain ⟨w, n⟩ := wn
    have hn := ho w n rfl
    have hn' : n < usizeBound := lt_of_lt_of_le hn w.bound_le
    have hdef : q.limits.requireDefinite = true → ¬ False := fun _ => id
    have string (text : Bool)
        (h : Parser.string step (strKind text) (some n) q = .ok ((kind, kept), p')) :
        ∃ t, openerOf t = (Tree.strMajor text, some (w, n)) ∧
          ContentOk c P q t kind kept p' := by
      obtain ⟨payload, rfl, hpre, rfl, rfl, rfl⟩ := (string_some hpos hn').mp h
      exact ⟨.str text w payload, rfl, ⟨hn, hdef, fun _ => trivial, by simp [Tree.children]⟩,
        hpre, rfl, rfl, rfl, hb⟩
    obtain rfl | rfl | rfl | rfl | rfl | rfl | rfl | rfl : major = 0 ∨ major = 1 ∨ major = 2 ∨
      major = 3 ∨ major = 4 ∨ major = 5 ∨ major = 6 ∨ major = 7 := by omega
    · cases h
      exact ⟨.int false w n, rfl, ⟨hn, hdef, fun _ => trivial, by simp [Tree.children]⟩,
        List.nil_prefix, rfl, rfl, rfl, hb⟩
    · cases h
      exact ⟨.int true w n, rfl, ⟨hn, hdef, fun _ => trivial, by simp [Tree.children]⟩,
        List.nil_prefix, rfl, rfl, rfl, hb⟩
    · exact string false h
    · exact string true h
    · obtain ⟨ts, rfl, ⟨hts, hpre, rfl, hb'⟩, rfl, rfl⟩ := (array_some hstep hP hb hn').mp h
      refine ⟨.array (some w) ts, rfl, ⟨by simpa [Tree.NodeFits] using hn, hdef,
        fun _ => trivial, hts⟩, ?_, rfl, rfl, ?_, hb'⟩
      · simpa [bodyOf, Tree.closing] using hpre
      · simp [bodyOf, Tree.closing, Tree.count]
    · obtain ⟨es, rfl, hes, hpre, hkeys, rfl, hb', rfl, rfl⟩ :=
        (map_some hstep hP hfits hb hn' (w := some w)).mp h
      refine ⟨.map (some w) es, rfl, ⟨by simpa [Tree.NodeFits] using hn, hdef, hkeys,
        forall_mem_entries.mpr hes⟩, ?_, rfl, rfl, ?_, hb'⟩
      · simpa [bodyOf, Tree.closing] using hpre
      · simp [bodyOf, Tree.closing, Tree.count]
    · obtain ⟨it, ⟨t, ht, hpre, rfl, rfl, hb'⟩, rfl, rfl⟩ := (tag_some hstep).mp h
      exact ⟨.tag w n t, rfl, ⟨hn, hdef, fun _ => trivial, by simpa [Tree.children] using ht⟩,
        hpre, rfl, rfl, rfl, hb'⟩
    · obtain ⟨k, hk, h⟩ := Except.bind_eq_ok.mp h
      rw [Option.map_some, infoOf, simple_info hn] at hk
      cases hk
      cases h
      exact ⟨.prim w n, rfl, ⟨hn, hdef, fun _ => trivial, by simp [Tree.children]⟩,
        List.nil_prefix, rfl, rfl, rfl, hb⟩

theorem content_complete {t : Tree} {kind : Kind} {kept : List Item}
    (h : ContentOk c P q t kind kept p') :
    q.content c step (openerOf t).1 (infoOf (openerOf t).2) ((openerOf t).2.map Prod.snd) =
      .ok ((kind, kept), p') := by
  obtain ⟨⟨hn, hdef, hkeys, hc⟩, hpre, rfl, rfl, rfl, hb'⟩ := h
  cases t with
  | int negative w n => cases negative <;> rfl
  | str text w payload =>
    have hs : Parser.string step (strKind text) (some payload.length) q =
        .ok ((strKind text, []), q.advance payload.length 0) :=
      (string_some hpos (lt_of_lt_of_le hn w.bound_le)).mpr
        ⟨payload, rfl, hpre, rfl, rfl, rfl⟩
    cases text <;> exact hs
  | chunked text chunks =>
    have hs := (string_none hstep hP hfits hb text).mpr
      ⟨chunks, forall_mem_chunks.mp hc, hpre, rfl, rfl, by simp [bodyOf, Tree.count], hb'⟩
    cases text <;> exact hs
  | array w items =>
    cases w with
    | none =>
      exact (array_none hstep hP hfits hb).mpr
        ⟨items, hc, hpre, by simp [bodyOf, Tree.closing, Tree.count], hb', rfl, rfl⟩
    | some w =>
      have hlen : items.length < usizeBound := lt_of_lt_of_le (hn w rfl) w.bound_le
      refine (array_some hstep hP hb hlen).mpr ⟨items, rfl, ⟨hc, ?_, ?_, hb'⟩, rfl, rfl⟩
      · simpa [bodyOf, Tree.closing] using hpre
      · simp [bodyOf, Tree.closing, Tree.count]
  | map w entries =>
    have hes := forall_mem_entries.mp hc
    cases w with
    | none =>
      exact (map_none hstep hP hfits hb (w := none)).mpr
        ⟨entries, hes, hpre, hkeys, by simp [bodyOf, Tree.closing, Tree.count], hb', rfl, rfl⟩
    | some w =>
      have hlen : entries.length < usizeBound := lt_of_lt_of_le (hn w rfl) w.bound_le
      refine (map_some hstep hP hfits hb hlen (w := some w)).mpr
        ⟨entries, rfl, hes, ?_, hkeys, ?_, hb', rfl, rfl⟩
      · simpa [bodyOf, Tree.closing] using hpre
      · simp [bodyOf, Tree.closing, Tree.count]
  | tag w n content =>
    have ht : P q content := hc content (by simp [Tree.children])
    exact (tag_some hstep).mpr ⟨_, ⟨content, ht, hpre, rfl, rfl, hb'⟩, rfl, rfl⟩
  | prim w n =>
    exact Except.bind_eq_ok.mpr ⟨_, simple_info hn, rfl⟩

end

/-! ### The head of an item -/

theorem countItem_ok {p : Parser} :
    p.countItem = .ok p' ↔ p.items + 1 ≤ p.limits.maxItems ∧ p' = p.advance 0 1 := by
  rw [Parser.countItem]
  split_ifs with h
  · exact ⟨by simp, fun h' => absurd h'.1 (by omega)⟩
  · rw [Except.ok.injEq]
    exact ⟨fun he => ⟨by omega, he.symm⟩, fun he => he.2.symm⟩

/-- A parsed item is a head in front and a content behind it. -/
theorem parseItem_ok_iff {p : Parser} {it : Item} :
    p.parseItem c step = .ok (it, p') ↔ p.items + 1 ≤ p.limits.maxItems ∧
      ∃ major < 8, ∃ o kind kept, (∀ w n, o = some (w, n) → n < Width.bound w) ∧
        (o = none → p.limits.requireDefinite = false ∧ 2 ≤ major ∧ major ≤ 5) ∧
        openingBytes major o <+: p.rest ∧
        (p.advance (openingBytes major o).length 1).content c step major (infoOf o)
          (o.map Prod.snd) = .ok ((kind, kept), p') ∧
        it = .mk kind p.pos (p.pos + (openingBytes major o).length) p'.pos o.isNone kept := by
  simp only [Parser.parseItem, Except.bind_eq_ok, Except.failIf_eq_ok, Except.pure_eq_ok,
    countItem_ok, Parser.byte_ok, Prod.exists]
  constructor
  · rintro ⟨_, ⟨hb, rfl⟩, b, _, ⟨hbyte, rfl⟩, -, hff, argument, p₃, huint, -, hmajor, -, hdef,
      kind, kept, p₄, hcontent, h⟩
    cases h
    have hlt : b.toNat < 256 := b.toNat_lt
    refine ⟨hb, b.toNat / 32, by omega, ?_⟩
    rcases (Parser.uint_ok (by omega)).mp huint with ⟨h31, rfl, rfl⟩ |
      ⟨w, n, hn, hinfo, rfl, hbytes, rfl⟩
    · have hopen : openIndefinite (b.toNat / 32) = b := by
        rw [openIndefinite, ← h31, initial_self]
      refine ⟨none, kind, kept, by simp, fun _ => ?_, ?_, ?_, ?_⟩
      · exact ⟨by simpa using hdef, by simpa using hmajor⟩
      · rw [openingBytes, hopen]
        exact hbyte
      · simpa [infoOf, openingBytes, h31] using hcontent
      · simp [openingBytes]
    · have hopen : head (b.toNat / 32) w n = [b] ++ beBytes w.size n := by
        rw [head, hinfo, initial_self]
        rfl
      refine ⟨some (w, n), kind, kept, ?_, by simp, ?_, ?_, ?_⟩
      · intro w' n' he
        cases he
        exact hn
      · rw [openingBytes, hopen, Parser.append_prefix_rest 1]
        exact ⟨hbyte, by simpa using hbytes⟩
      · simpa [infoOf, openingBytes, hinfo] using hcontent
      · simp [openingBytes]
  · rintro ⟨hb, major, hm, o, kind, kept, ho, hi, hpre, hcontent, rfl⟩
    cases o with
    | none =>
      obtain ⟨hdef, hm2, hm5⟩ := hi rfl
      refine ⟨_, ⟨hb, rfl⟩, openIndefinite major, _, ⟨hpre, rfl⟩, (),
        Tree.openIndefinite_ne_break (by omega), none, p.advance 1 1, ?_, (), ?_, (), ?_,
        kind, kept, p', ?_, ?_⟩
      · rw [openIndefinite, initial_info hm (by omega)]
        exact (Parser.uint_ok (by omega)).mpr (.inl ⟨rfl, rfl, rfl⟩)
      · rw [openIndefinite, initial_major hm (by omega)]
        simp [hm2, hm5]
      · simp [hdef]
      · rw [openIndefinite, initial_major hm (by omega), initial_info hm (by omega)]
        simpa [openingBytes, infoOf] using hcontent
      · simp [openingBytes]
    | some wn =>
      obtain ⟨w, n⟩ := wn
      have hn := ho w n rfl
      have hinfo := Width.info_lt hn
      have hopen : head major w n = [initial major (w.info n)] ++ beBytes w.size n := rfl
      rw [openingBytes, hopen, Parser.append_prefix_rest 1] at hpre
      refine ⟨_, ⟨hb, rfl⟩, initial major (w.info n), _, ⟨hpre.1, rfl⟩, (),
        initial_ne_break hm hn, some n, p.advance (1 + w.size) 1, ?_, (), ?_, (), ?_,
        kind, kept, p', ?_, ?_⟩
      · rw [initial_info hm (by omega)]
        exact (Parser.uint_ok (by omega)).mpr
          (.inr ⟨w, n, hn, rfl, rfl, by simpa using hpre.2, by simp⟩)
      · simp
      · simp
      · rw [initial_major hm (by omega), initial_info hm (by omega)]
        simpa [openingBytes, infoOf] using hcontent
      · simp [openingBytes]

variable (hstep : ∀ p it p', step p = .ok (it, p') ↔ Steps P p it p') (hP : Stable P)
  (hfits : ∀ p t, P p t → t.Fits)

include hstep hP hfits

/-- **One level of the parser steps over exactly the items it accepts, given that
the level below does.** -/
theorem parseItem_ok {p : Parser} {it : Item} :
    p.parseItem c step = .ok (it, p') ↔ Steps (ItemOk c P) p it p' := by
  have hstable {len n : Nat} {t : Tree} : ItemOk c P (p.advance len n) t ↔ ItemOk c P p t := by
    simp only [ItemOk, Parser.advance_limits, Parser.advance_rejectDuplicateKeys, hP p len n]
  rw [parseItem_ok_iff]
  constructor
  · rintro ⟨hb, major, hm, o, kind, kept, ho, hi, hpre, hcontent, rfl⟩
    have hpos := Parser.length_le_of_prefix hpre (by cases o <;> simp [openingBytes, head])
    obtain ⟨t, hopen, hok, hpre', rfl, rfl, rfl, hb'⟩ :=
      content_sound hstep hP hfits (q := p.advance _ 1) hb hpos hm ho hi hcontent
    have hbytes := bytes_eq_opening t
    have hhead := headLength_eq t
    have hindef := indefiniteOf_eq t
    rw [hopen] at hbytes hhead hindef
    have hcount := t.count_pos
    refine ⟨t, hstable.mp hok, ?_, ?_, ?_, hb'⟩
    · rw [hbytes, Parser.append_prefix_rest 1]
      exact ⟨hpre, hpre'⟩
    · rw [itemAt_eq, itemWith, hbytes, hhead, hindef]
      simp
    · rw [hbytes]
      simp only [Parser.advance_advance, List.length_append]
      congr 1
      omega
  · rintro ⟨t, hok, hpre, rfl, rfl, hb⟩
    have hcount := t.count_pos
    have hbytes := bytes_eq_opening t
    rw [hbytes, Parser.append_prefix_rest 1] at hpre
    have hpos := Parser.length_le_of_prefix hpre.1
      (by cases (openerOf t).2 <;> simp [openingBytes, head])
    simp only [Parser.advance_items, Parser.advance_limits] at hb
    refine ⟨by omega, (openerOf t).1, openerOf_lt t, (openerOf t).2, kindOf t, _,
      fun w n => openerOf_bound hok.1, ?_, hpre.1,
      content_complete hstep hP hfits (q := p.advance _ 1) ?_ hpos
        ⟨hstable.mpr hok, hpre.2, rfl, rfl, ?_, ?_⟩, ?_⟩
    · intro hnone
      refine ⟨?_, openerOf_none hnone⟩
      have : t.IsIndefinite := by
        rw [← indefiniteOf_iff, indefiniteOf_eq, hnone]
        rfl
      by_contra hdef
      exact hok.2.1 (by simpa using hdef) this
    · simp only [Parser.advance_items, Parser.advance_limits]
      omega
    · rw [hbytes]
      simp only [Parser.advance_advance, List.length_append]
      congr 1
      omega
    · exact hb
    · rw [itemAt_eq, itemWith, headLength_eq, indefiniteOf_eq]
      rfl

end ItemSpec

/-! ### The parser -/

section Parse

variable (c : Cbor2)

/-- What the parser accepts within `levels` nesting levels, the item counter aside. -/
def Accepts (levels : Nat) (p : Parser) (t : Tree) : Prop :=
  t.Fits ∧ t.depth < levels ∧ (p.limits.requireDefinite = true → t.Definite) ∧
    (p.rejectDuplicateKeys = true → KeysOk c t)

/-- **`parse` steps over exactly the items it accepts.** -/
theorem parse_ok {levels : Nat} {p p' : Parser} {it : Item} :
    p.parse c levels = .ok (it, p') ↔ Steps (Accepts c levels) p it p' := by
  induction levels generalizing p p' it with
  | zero => simp [Parser.parse, Steps, Accepts]
  | succ levels ih =>
    rw [Parser.parse, parseItem_ok (fun _ _ _ => ih) (fun _ _ _ _ => Iff.rfl) fun _ _ h => h.1]
    refine exists_congr fun t => and_congr_left fun _ => ?_
    rw [ItemOk, Accepts, Tree.Fits, Tree.all_iff, Tree.depth_lt_succ_iff, Tree.Definite,
      Tree.all_iff (p := fun t => ¬ t.IsIndefinite), KeysOk, Tree.all_iff (p := DistinctKeys c)]
    constructor
    · rintro ⟨hn, hdef, hkeys, hc⟩
      exact ⟨⟨hn, fun ch h => (hc ch h).1⟩, fun ch h => (hc ch h).2.1,
        fun hd => ⟨hdef hd, fun ch h => (hc ch h).2.2.1 hd⟩,
        fun hr => ⟨hkeys hr, fun ch h => (hc ch h).2.2.2 hr⟩⟩
    · rintro ⟨⟨hn, hfit⟩, hdepth, hdef, hkeys⟩
      exact ⟨hn, fun hd => (hdef hd).1, fun hr => (hkeys hr).1, fun ch h =>
        ⟨hfit ch h, hdepth ch h, fun hd => (hdef hd).2 ch h, fun hr => (hkeys hr).2 ch h⟩⟩

/-- `data` is one item within the limits. -/
structure WithinLimits (limits : CborLimits) (t : Tree) : Prop where
  depth : t.depth ≤ limits.maxDepth
  items : t.count ≤ limits.maxItems
  definite : limits.requireDefinite = true → t.Definite

/-- On the encoding of an acceptable item the parser reads all of the input and counts all
of the items. -/
theorem parse_bytes {t : Tree} {limits : CborLimits} {reject : Bool} (hfits : t.Fits)
    (hlimits : WithinLimits limits t) (hkeys : reject = true → KeysOk c t) :
    (Parser.new t.bytes limits reject).parse c (limits.maxDepth + 1) =
      .ok (itemAt 0 t, (Parser.new t.bytes limits reject).advance t.bytes.length t.count) := by
  refine (parse_ok c).mpr ⟨t, ⟨hfits, Nat.lt_succ_of_le hlimits.depth, hlimits.definite, hkeys⟩,
    List.prefix_rfl, rfl, rfl, ?_⟩
  rw [Parser.advance_items, Parser.advance_limits, Parser.new, Nat.zero_add]
  exact hlimits.items

/-- **The strict parser accepts a byte string exactly when it is the encoding of
an item within the limits whose map keys, if duplicates are rejected, can be
compared and are distinct.** -/
theorem rootWithDuplicatePolicy_ok {data : Bytes} {limits : CborLimits} {reject : Bool}
    {it : Item} :
    rootWithDuplicatePolicy c data limits reject = .ok it ↔
      ∃ t : Tree, data = t.bytes ∧ t.Fits ∧ WithinLimits limits t ∧
        (reject = true → KeysOk c t) ∧ it = itemAt 0 t := by
  simp only [rootWithDuplicatePolicy, Except.bind_eq_ok, Except.failIf_eq_ok,
    Except.pure_eq_ok, Prod.exists, parse_ok]
  constructor
  · rintro ⟨_, _, ⟨t, ⟨hfits, hdepth, hdef, hkeys⟩, hpre, rfl, rfl, hb⟩, -, hend, rfl⟩
    refine ⟨t, ?_, hfits, ⟨Nat.le_of_lt_succ hdepth, ?_, hdef⟩, hkeys, rfl⟩
    · obtain ⟨r, hr⟩ := hpre
      have hlen : t.bytes.length = data.length := by
        simpa [Parser.new] using hend
      have hdata : t.bytes ++ r = data := hr
      have hnil : r = [] := by
        have := congrArg List.length hdata
        rw [List.length_append] at this
        exact List.length_eq_zero_iff.mp (by omega)
      rw [← hdata, hnil, List.append_nil]
    · simpa [Parser.new] using hb
  · rintro ⟨t, rfl, hfits, hlimits, hkeys, rfl⟩
    exact ⟨_, _, (parse_ok c).mp (parse_bytes c hfits hlimits hkeys), (), by simp [Parser.new],
      rfl⟩

end Parse

end Cose2.Strict

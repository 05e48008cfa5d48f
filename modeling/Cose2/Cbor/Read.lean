import Cose2.Cbor.Loop
import Cose2.Cbor.Tree

/-! # Reading encoded items back

A reader for `Tree.bytes`, and the proof that it reads exactly the well-formed
items (`read_ok`).  Since the reader is a function, an encoding determines its
item and where the item ends (`bytes_append_inj`): no encoding is a proper
prefix of another one.

`read` recurses on the number of nesting levels it may still enter.  Each level
hands the reader of the level below to `readItem`, so that everything about one
item is proved once for an arbitrary reader of its children.  A reader may also
be told to let two-byte simple values below 32 pass, which RFC 8949 does not
count as well-formed but which are unambiguous all the same.
-/
namespace Cbor

/-! ### Reading a sequence of encodings -/

section Sequences

variable {α : Type} {p : α → Prop} {f : α → Bytes}

/-- Consumes a break byte. -/
def stopByte : Bytes → Option Bytes
  | [] => none
  | b :: bs => if b = breakByte then some bs else none

theorem stopByte_eq_some {bs r : Bytes} : stopByte bs = some r ↔ bs = breakByte :: r := by
  cases bs with
  | nil => simp [stopByte]
  | cons b bs =>
    by_cases h : b = breakByte
    · simp [stopByte, h]
    · simp [stopByte, h]

theorem run_bytes {s r : Bytes} {as : List α} :
    Run (fun s a s' => p a ∧ s = f a ++ s') s as r ↔
      (∀ a ∈ as, p a) ∧ s = as.flatMap f ++ r := by
  induction as generalizing s with
  | nil => simp
  | cons a as ih =>
    simp only [Run.cons_iff, ih, List.forall_mem_cons, List.flatMap_cons, List.append_assoc]
    constructor
    · rintro ⟨s', ⟨hp, rfl⟩, hs, rfl⟩
      exact ⟨⟨hp, hs⟩, rfl⟩
    · rintro ⟨⟨hp, hs⟩, rfl⟩
      exact ⟨_, ⟨hp, rfl⟩, hs, rfl⟩

variable {ε : Type} {step : Bytes → Except ε (α × Bytes)}

/-- A counted loop over a step that reads one `f a` reads their concatenation. -/
theorem repeatN_bytes (hstep : ∀ s a s', step s = .ok (a, s') ↔ p a ∧ s = f a ++ s')
    {n : Nat} {s r : Bytes} {as : List α} :
    repeatN step n s = .ok (as, r) ↔
      as.length = n ∧ (∀ a ∈ as, p a) ∧ s = as.flatMap f ++ r := by
  simp only [repeatN_ok, hstep, run_bytes]

/-- The same up to a break byte, provided no `f a` starts with one. -/
theorem untilStop_bytes (hstep : ∀ s a s', step s = .ok (a, s') ↔ p a ∧ s = f a ++ s')
    (hf : ∀ a, p a → ∃ b bs, f a = b :: bs ∧ b ≠ breakByte) {e : ε} {s r : Bytes}
    {as : List α} :
    untilStop stopByte step e (s.length + 1) s = .ok (as, r) ↔
      (∀ a ∈ as, p a) ∧ s = as.flatMap f ++ breakByte :: r := by
  have hguard : ∀ s a s', (stopByte s = none ∧ step s = .ok (a, s')) ↔
      (p a ∧ s = f a ++ s') := by
    intro s a s'
    rw [hstep]
    constructor
    · exact fun h => h.2
    · rintro ⟨hp, rfl⟩
      obtain ⟨b, bs, he, hb⟩ := hf a hp
      exact ⟨by simp [he, stopByte, hb], hp, rfl⟩
  simp only [untilStop_ok, hguard, stopByte_eq_some, run_bytes]
  constructor
  · rintro ⟨-, s', ⟨hp, hs⟩, rfl⟩
    exact ⟨hp, hs⟩
  · rintro ⟨hp, hs⟩
    refine ⟨?_, _, ⟨hp, hs⟩, rfl⟩
    have hrun := (run_bytes (p := p) (f := f)).mpr ⟨hp, hs⟩
    have := hrun.length_add_le (m := List.length) (by
      rintro s a s' ⟨hp, rfl⟩
      obtain ⟨b, bs, he, -⟩ := hf a hp
      simp [he])
    omega

end Sequences

/-! ### Reading an argument -/

/-- Reads the argument that additional information `info` announces. -/
def readArg (info : Nat) (bs : Bytes) : Except String (Width × Nat × Bytes) :=
  match widthOfInfo info with
  | none => .error "reserved additional information"
  | some .imm => .ok (.imm, info, bs)
  | some w =>
    if bs.length < w.size then .error "unexpected end of input"
    else .ok (w, beNat (bs.take w.size), bs.drop w.size)

theorem beNat_take_lt {w : Width} {bs : Bytes} (hw : w ≠ .imm) :
    beNat (bs.take w.size) < w.bound := by
  have h := beNat_lt (bs.take w.size)
  have hlen : (bs.take w.size).length ≤ w.size := List.length_take_le _ _
  have hpow := Nat.pow_le_pow_right (n := 256) (by norm_num) hlen
  cases w <;> simp [Width.size, Width.bound] at *
  all_goals exact lt_of_lt_of_le h hpow

theorem take_eq_beBytes {w : Width} {bs : Bytes} (h : ¬ bs.length < w.size) :
    beBytes w.size (beNat (bs.take w.size)) = bs.take w.size := by
  have hlen : (bs.take w.size).length = w.size := by
    rw [List.length_take]
    omega
  have := beBytes_beNat (bs.take w.size)
  rwa [hlen] at this

theorem readArg_ok {info n : Nat} {w : Width} {bs r : Bytes} :
    readArg info bs = .ok (w, n, r) ↔
      n < w.bound ∧ w.info n = info ∧ bs = beBytes w.size n ++ r := by
  constructor
  · intro h
    unfold readArg at h
    split at h
    · cases h
    · rename_i hw
      cases h
      rcases widthOfInfo_some hw with ⟨-, hlt⟩ | ⟨hne, -⟩
      · exact ⟨hlt, rfl, rfl⟩
      · exact absurd rfl hne
    · rename_i w' hne hw
      split_ifs at h with hlen
      cases h
      have hne' : w ≠ .imm := hne
      rcases widthOfInfo_some hw with ⟨he, -⟩ | ⟨-, hinfo⟩
      · exact absurd he hne'
      · exact ⟨beNat_take_lt hne', hinfo _,
          by rw [take_eq_beBytes hlen, List.take_append_drop]⟩
  · rintro ⟨hn, rfl, rfl⟩
    unfold readArg
    rw [widthOfInfo_info hn]
    cases w with
    | imm => rfl
    | one | two | four | eight =>
      have hpow := Width.lt_pow_size hn (by simp)
      simp only [List.length_append, beBytes_length, Nat.not_lt_of_le (Nat.le_add_right _ _),
        if_false, Except.ok.injEq, Prod.mk.injEq, true_and]
      rw [List.take_append_of_le_length (by simp), List.take_of_length_le (by simp),
        List.drop_append_of_le_length (by simp), List.drop_of_length_le (by simp),
        beNat_beBytes hpow]
      exact ⟨rfl, rfl⟩

/-- Reads `n` bytes. -/
def readN (n : Nat) (bs : Bytes) : Except String (Bytes × Bytes) :=
  if bs.length < n then .error "unexpected end of input" else .ok (bs.take n, bs.drop n)

theorem readN_ok {n : Nat} {bs p r : Bytes} :
    readN n bs = .ok (p, r) ↔ p.length = n ∧ bs = p ++ r := by
  unfold readN
  split_ifs with h
  · constructor
    · intro he
      cases he
    · rintro ⟨rfl, rfl⟩
      simp at h
  · rw [Except.ok.injEq, Prod.mk.injEq]
    constructor
    · rintro ⟨rfl, rfl⟩
      exact ⟨by rw [List.length_take]; omega, (List.take_append_drop n bs).symm⟩
    · rintro ⟨rfl, rfl⟩
      exact ⟨by simp, by simp⟩

/-! ### Reading one item -/

section Item

variable (short : Bool) (rd : Bytes → Except String (Tree × Bytes))

/-- Reads one chunk of an indefinite-length string. -/
def readChunk (text : Bool) (bs : Bytes) : Except String ((Width × Bytes) × Bytes) := do
  let (t, r) ← rd bs
  match t with
  | .str text' w payload =>
    if text' = text then .ok ((w, payload), r) else .error "chunk of another type"
  | _ => .error "chunk is not a definite-length string"

/-- Reads the key and the value of one map entry. -/
def readEntry (bs : Bytes) : Except String ((Tree × Tree) × Bytes) := do
  let (k, r) ← rd bs
  let (v, r) ← rd r
  return ((k, v), r)

/-- Reads what follows the initial byte of an indefinite-length item. -/
def readIndefinite (major : Nat) (bs : Bytes) : Except String (Tree × Bytes) :=
  let fuel := bs.length + 1
  match major with
  | 2 => do
    let (chunks, r) ← untilStop stopByte (readChunk rd false) "unreachable" fuel bs
    return (.chunked false chunks, r)
  | 3 => do
    let (chunks, r) ← untilStop stopByte (readChunk rd true) "unreachable" fuel bs
    return (.chunked true chunks, r)
  | 4 => do
    let (items, r) ← untilStop stopByte rd "unreachable" fuel bs
    return (.array none items, r)
  | 5 => do
    let (entries, r) ← untilStop stopByte (readEntry rd) "unreachable" fuel bs
    return (.map none entries, r)
  | _ => .error "unexpected break"

/-- Reads what follows a head of major type `major` with argument `n`. -/
def readDefinite (major : Nat) (w : Width) (n : Nat) (bs : Bytes) :
    Except String (Tree × Bytes) :=
  match major with
  | 0 => .ok (.int false w n, bs)
  | 1 => .ok (.int true w n, bs)
  | 2 => do
    let (payload, r) ← readN n bs
    return (.str false w payload, r)
  | 3 => do
    let (payload, r) ← readN n bs
    return (.str true w payload, r)
  | 4 => do
    let (items, r) ← repeatN rd n bs
    return (.array (some w) items, r)
  | 5 => do
    let (entries, r) ← repeatN (readEntry rd) n bs
    return (.map (some w) entries, r)
  | 6 => do
    let (content, r) ← rd bs
    return (.tag w n content, r)
  | _ =>
    if w = .one ∧ n < 32 ∧ short = false then .error "simple value below 32 in two bytes"
    else .ok (.prim w n, bs)

/-- Reads one item whose children `rd` reads. -/
def readItem : Bytes → Except String (Tree × Bytes)
  | [] => .error "unexpected end of input"
  | b :: bs =>
    if b.toNat % 32 = 31 then readIndefinite rd (b.toNat / 32) bs
    else do
      let (w, n, r) ← readArg (b.toNat % 32) bs
      readDefinite short rd (b.toNat / 32) w n r

/-- What opens an item decides which of the two readers reads the rest of it. -/
theorem readItem_ok_iff {bs : Bytes} {x : Tree × Bytes} :
    readItem short rd bs = .ok x ↔
      (∃ major < 8, ∃ rest, bs = openIndefinite major :: rest ∧
        readIndefinite rd major rest = .ok x) ∨
      (∃ major < 8, ∃ w n rest, n < w.bound ∧ bs = head major w n ++ rest ∧
        readDefinite short rd major w n rest = .ok x) := by
  constructor
  · intro h
    cases bs with
    | nil => cases h
    | cons b bs =>
      have hb : b.toNat < 256 := b.toNat_lt
      rw [readItem] at h
      split_ifs at h with hinfo
      · refine .inl ⟨b.toNat / 32, by omega, bs, ?_, h⟩
        rw [openIndefinite, ← hinfo, initial_self]
      · obtain ⟨⟨w, n, r⟩, harg, hrest⟩ := Except.bind_eq_ok.mp h
        obtain ⟨hn, hw, rfl⟩ := readArg_ok.mp harg
        refine .inr ⟨b.toNat / 32, by omega, w, n, r, hn, ?_, hrest⟩
        rw [head, hw, initial_self, List.cons_append]
  · rintro (⟨major, hm, rest, rfl, h⟩ | ⟨major, hm, w, n, rest, hn, rfl, h⟩)
    · rw [readItem, openIndefinite, initial_info hm (by omega), initial_major hm (by omega),
        if_pos rfl, h]
    · have hi := Width.info_lt hn
      have harg : readArg (w.info n) (beBytes w.size n ++ rest) = .ok (w, n, rest) :=
        readArg_ok.mpr ⟨hn, rfl, rfl⟩
      rw [head, List.cons_append, readItem, initial_info hm (by omega),
        initial_major hm (by omega), if_neg (by omega), harg]
      exact h

variable {short rd} {P : Tree → Prop}

theorem readChunk_ok (hrd : ∀ bs t r, rd bs = .ok (t, r) ↔ P t ∧ bs = t.bytes ++ r)
    {text : Bool} {bs r : Bytes} {c : Width × Bytes} :
    readChunk rd text bs = .ok (c, r) ↔
      P (.str text c.1 c.2) ∧ bs = Tree.strBytes text c ++ r := by
  unfold readChunk
  rw [Except.bind_eq_ok]
  constructor
  · rintro ⟨⟨t, r'⟩, ht, h⟩
    obtain ⟨hp, rfl⟩ := (hrd _ _ _).mp ht
    cases t with
    | str text' w payload =>
      simp only at h
      split_ifs at h with he
      cases h
      exact ⟨he ▸ hp, by rw [← he]; rfl⟩
    | int | chunked | array | map | tag | prim => cases h
  · rintro ⟨hp, rfl⟩
    exact ⟨(.str text c.1 c.2, r), (hrd _ _ _).mpr ⟨hp, rfl⟩, by simp⟩

theorem readEntry_ok (hrd : ∀ bs t r, rd bs = .ok (t, r) ↔ P t ∧ bs = t.bytes ++ r)
    {bs r : Bytes} {e : Tree × Tree} :
    readEntry rd bs = .ok (e, r) ↔ (P e.1 ∧ P e.2) ∧ bs = (e.1.bytes ++ e.2.bytes) ++ r := by
  unfold readEntry
  simp only [Except.bind_eq_ok, Except.pure_eq_ok, Prod.exists, hrd]
  constructor
  · rintro ⟨k, r', ⟨hk, rfl⟩, v, r'', ⟨hv, rfl⟩, h⟩
    cases h
    exact ⟨⟨hk, hv⟩, by rw [List.append_assoc]⟩
  · rintro ⟨⟨hk, hv⟩, rfl⟩
    exact ⟨e.1, _, ⟨hk, by rw [List.append_assoc]⟩, e.2, r, ⟨hv, rfl⟩, rfl⟩

/-- What the reader of one item reads, given what the reader of its children reads. -/
def ItemSpec (short : Bool) (P : Tree → Prop) (t : Tree) : Prop :=
  t.NodeReadable short ∧ ∀ c ∈ t.children, P c

theorem forall_mem_entries {es : List (Tree × Tree)} :
    (∀ c ∈ es.flatMap (fun e => [e.1, e.2]), P c) ↔ ∀ e ∈ es, P e.1 ∧ P e.2 := by
  simp only [List.mem_flatMap, List.mem_cons, List.not_mem_nil, or_false]
  constructor
  · intro h e he
    exact ⟨h _ ⟨e, he, .inl rfl⟩, h _ ⟨e, he, .inr rfl⟩⟩
  · rintro h c ⟨e, he, rfl | rfl⟩
    · exact (h e he).1
    · exact (h e he).2

theorem forall_mem_chunks {text : Bool} {cs : List (Width × Bytes)} :
    (∀ c ∈ cs.map (fun c => Tree.str text c.1 c.2), P c) ↔
      ∀ c ∈ cs, P (.str text c.1 c.2) := by
  simp only [List.mem_map, forall_exists_index, and_imp, forall_apply_eq_imp_iff₂]

theorem chunk_starts (hP : ∀ t, P t → t.Fits) {text : Bool} (c : Width × Bytes)
    (h : P (.str text c.1 c.2)) :
    ∃ b bs, Tree.strBytes text c = b :: bs ∧ b ≠ breakByte :=
  Tree.bytes_cons (hP _ h)

theorem entry_starts (hP : ∀ t, P t → t.Fits) (e : Tree × Tree) (h : P e.1 ∧ P e.2) :
    ∃ b bs, e.1.bytes ++ e.2.bytes = b :: bs ∧ b ≠ breakByte := by
  obtain ⟨b, bs, he, hb⟩ := Tree.bytes_cons (hP _ h.1)
  exact ⟨b, bs ++ e.2.bytes, by rw [he, List.cons_append], hb⟩

section

variable (hrd : ∀ bs t r, rd bs = .ok (t, r) ↔ P t ∧ bs = t.bytes ++ r)
  (hP : ∀ t, P t → t.Fits)
include hrd hP

theorem readChunks_ok {text : Bool} {s r : Bytes} {cs : List (Width × Bytes)} :
    untilStop stopByte (readChunk rd text) "unreachable" (s.length + 1) s = .ok (cs, r) ↔
      (∀ c ∈ cs, P (.str text c.1 c.2)) ∧
        openIndefinite (Tree.strMajor text) :: s = (Tree.chunked text cs).bytes ++ r := by
  rw [untilStop_bytes (fun _ _ _ => readChunk_ok hrd) (chunk_starts hP)]
  simp [Tree.bytes]

theorem readElements_ok {s r : Bytes} {ts : List Tree} :
    untilStop stopByte rd "unreachable" (s.length + 1) s = .ok (ts, r) ↔
      (∀ t ∈ ts, P t) ∧ openIndefinite 4 :: s = (Tree.array none ts).bytes ++ r := by
  rw [untilStop_bytes hrd fun t ht => Tree.bytes_cons (hP t ht)]
  simp [Tree.bytes, Tree.bytesItems_eq, Tree.opening, Tree.closing]

theorem readEntries_ok {s r : Bytes} {es : List (Tree × Tree)} :
    untilStop stopByte (readEntry rd) "unreachable" (s.length + 1) s = .ok (es, r) ↔
      (∀ e ∈ es, P e.1 ∧ P e.2) ∧
        openIndefinite 5 :: s = (Tree.map none es).bytes ++ r := by
  rw [untilStop_bytes (fun _ _ _ => readEntry_ok hrd) (entry_starts hP)]
  simp [Tree.bytes, Tree.bytesEntries_eq, Tree.opening, Tree.closing]

theorem readIndefinite_sound {major : Nat} {bs r : Bytes} {t : Tree}
    (h : readIndefinite rd major bs = .ok (t, r)) :
    ItemSpec short P t ∧ openIndefinite major :: bs = t.bytes ++ r := by
  unfold readIndefinite at h
  split at h
  · obtain ⟨⟨cs, r'⟩, hcs, he⟩ := Except.bind_eq_ok.mp h
    obtain ⟨hp, hbs⟩ := (readChunks_ok hrd hP).mp hcs
    cases he
    exact ⟨⟨⟨fun c hc => (hP _ (hp c hc)).head, False.elim⟩, forall_mem_chunks.mpr hp⟩, hbs⟩
  · obtain ⟨⟨cs, r'⟩, hcs, he⟩ := Except.bind_eq_ok.mp h
    obtain ⟨hp, hbs⟩ := (readChunks_ok hrd hP).mp hcs
    cases he
    exact ⟨⟨⟨fun c hc => (hP _ (hp c hc)).head, False.elim⟩, forall_mem_chunks.mpr hp⟩, hbs⟩
  · obtain ⟨⟨ts, r'⟩, hts, he⟩ := Except.bind_eq_ok.mp h
    obtain ⟨hp, hbs⟩ := (readElements_ok hrd hP).mp hts
    cases he
    exact ⟨⟨⟨by simp [Tree.NodeFits], False.elim⟩, hp⟩, hbs⟩
  · obtain ⟨⟨es, r'⟩, hes, he⟩ := Except.bind_eq_ok.mp h
    obtain ⟨hp, hbs⟩ := (readEntries_ok hrd hP).mp hes
    cases he
    exact ⟨⟨⟨by simp [Tree.NodeFits], False.elim⟩, forall_mem_entries.mpr hp⟩, hbs⟩
  · cases h

omit hP in
theorem readDefinite_sound {major : Nat} (hm : major < 8) {w : Width} {n : Nat}
    (hn : n < w.bound) {bs r : Bytes} {t : Tree}
    (h : readDefinite short rd major w n bs = .ok (t, r)) :
    ItemSpec short P t ∧ head major w n ++ bs = t.bytes ++ r := by
  unfold readDefinite at h
  split at h
  · cases h
    exact ⟨⟨⟨hn, False.elim⟩, by simp [Tree.children]⟩, rfl⟩
  · cases h
    exact ⟨⟨⟨hn, False.elim⟩, by simp [Tree.children]⟩, rfl⟩
  · obtain ⟨⟨p, r'⟩, hp, he⟩ := Except.bind_eq_ok.mp h
    obtain ⟨rfl, rfl⟩ := readN_ok.mp hp
    cases he
    exact ⟨⟨⟨hn, False.elim⟩, by simp [Tree.children]⟩,
      by simp [Tree.bytes, Tree.strBytes, Tree.strMajor]⟩
  · obtain ⟨⟨p, r'⟩, hp, he⟩ := Except.bind_eq_ok.mp h
    obtain ⟨rfl, rfl⟩ := readN_ok.mp hp
    cases he
    exact ⟨⟨⟨hn, False.elim⟩, by simp [Tree.children]⟩,
      by simp [Tree.bytes, Tree.strBytes, Tree.strMajor]⟩
  · obtain ⟨⟨ts, r'⟩, hts, he⟩ := Except.bind_eq_ok.mp h
    obtain ⟨rfl, hp, rfl⟩ := (repeatN_bytes hrd).mp hts
    cases he
    exact ⟨⟨⟨by simpa [Tree.NodeFits] using hn, False.elim⟩, hp⟩,
      by simp [Tree.bytes, Tree.bytesItems_eq, Tree.opening, Tree.closing]⟩
  · obtain ⟨⟨es, r'⟩, hes, he⟩ := Except.bind_eq_ok.mp h
    obtain ⟨rfl, hp, rfl⟩ := (repeatN_bytes fun _ _ _ => readEntry_ok hrd).mp hes
    cases he
    exact ⟨⟨⟨by simpa [Tree.NodeFits] using hn, False.elim⟩, forall_mem_entries.mpr hp⟩,
      by simp [Tree.bytes, Tree.bytesEntries_eq, Tree.opening, Tree.closing]⟩
  · obtain ⟨⟨c, r'⟩, hc, he⟩ := Except.bind_eq_ok.mp h
    obtain ⟨hp, rfl⟩ := (hrd _ _ _).mp hc
    cases he
    exact ⟨⟨⟨hn, False.elim⟩, by simpa [Tree.children] using hp⟩, by simp [Tree.bytes]⟩
  · split_ifs at h with hs
    cases h
    have hm7 : major = 7 := by grind
    refine ⟨⟨⟨hn, ?_⟩, by simp [Tree.children]⟩, by rw [hm7]; rfl⟩
    cases w with
    | one =>
      intro hlt
      by_contra hshort
      exact hs ⟨rfl, hlt, by simpa using hshort⟩
    | imm | two | four | eight => exact False.elim

theorem readItem_complete {t : Tree} (h : ItemSpec short P t) (r : Bytes) :
    readItem short rd (t.bytes ++ r) = .ok (t, r) := by
  obtain ⟨⟨hn, hs⟩, hc⟩ := h
  have opened (major : Nat) {rest : Bytes} (hm : major < 8)
      (he : openIndefinite major :: rest = t.bytes ++ r)
      (hr : readIndefinite rd major rest = .ok (t, r)) :
      readItem short rd (t.bytes ++ r) = .ok (t, r) :=
    (readItem_ok_iff short rd).mpr (.inl ⟨major, hm, rest, he.symm, hr⟩)
  have headed (major : Nat) {n : Nat} {w : Width} {rest : Bytes} (hm : major < 8)
      (hn : n < w.bound) (he : t.bytes ++ r = head major w n ++ rest)
      (hr : readDefinite short rd major w n rest = .ok (t, r)) :
      readItem short rd (t.bytes ++ r) = .ok (t, r) :=
    (readItem_ok_iff short rd).mpr (.inr ⟨major, hm, w, n, rest, hn, he, hr⟩)
  cases t with
  | int negative w n =>
    refine headed _ (Tree.intMajor_lt negative) hn rfl ?_
    cases negative <;> rfl
  | str text w payload =>
    refine headed _ (Tree.strMajor_lt text) hn (List.append_assoc ..) ?_
    have hp : readN payload.length (payload ++ r) = .ok (payload, r) := readN_ok.mpr ⟨rfl, rfl⟩
    cases text <;> exact Except.bind_eq_ok.mpr ⟨_, hp, rfl⟩
  | chunked text chunks =>
    have hcs := (readChunks_ok hrd hP
      (s := chunks.flatMap (Tree.strBytes text) ++ [breakByte] ++ r)).mpr
        ⟨forall_mem_chunks.mp hc, rfl⟩
    refine opened _ (Tree.strMajor_lt text) rfl ?_
    cases text <;> exact Except.bind_eq_ok.mpr ⟨_, hcs, rfl⟩
  | array w items =>
    have hts : ∀ c ∈ items, P c := hc
    cases w with
    | none =>
      have hts := (readElements_ok hrd hP
        (s := Tree.bytesItems items ++ [breakByte] ++ r)).mpr ⟨hts, rfl⟩
      exact opened _ (by omega) rfl (Except.bind_eq_ok.mpr ⟨_, hts, rfl⟩)
    | some w =>
      have hts := (repeatN_bytes hrd (r := r)).mpr ⟨rfl, hts, rfl⟩
      exact headed 4 (by omega) (hn w rfl)
        (by simp [Tree.bytes, Tree.bytesItems_eq, Tree.opening, Tree.closing])
        (Except.bind_eq_ok.mpr ⟨_, hts, rfl⟩)
  | map w entries =>
    have hes := forall_mem_entries.mp hc
    cases w with
    | none =>
      have hts := (readEntries_ok hrd hP
        (s := Tree.bytesEntries entries ++ [breakByte] ++ r)).mpr ⟨hes, rfl⟩
      exact opened _ (by omega) rfl (Except.bind_eq_ok.mpr ⟨_, hts, rfl⟩)
    | some w =>
      have hts := (repeatN_bytes (fun _ _ _ => readEntry_ok hrd) (r := r)).mpr ⟨rfl, hes, rfl⟩
      exact headed 5 (by omega) (hn w rfl)
        (by simp [Tree.bytes, Tree.bytesEntries_eq, Tree.opening, Tree.closing])
        (Except.bind_eq_ok.mpr ⟨_, hts, rfl⟩)
  | tag w n content =>
    have hp := (hrd (content.bytes ++ r) content r).mpr ⟨hc _ (by simp [Tree.children]), rfl⟩
    exact headed 6 (by omega) hn (by simp [Tree.bytes])
      (Except.bind_eq_ok.mpr ⟨_, hp, rfl⟩)
  | prim w n =>
    refine headed 7 (by omega) hn rfl ?_
    refine if_neg ?_
    rintro ⟨rfl, hlt, hshort⟩
    rw [hs hlt] at hshort
    cases hshort

/-- Reading one item is exactly undoing `Tree.bytes`. -/
theorem readItem_ok {bs r : Bytes} {t : Tree} :
    readItem short rd bs = .ok (t, r) ↔ ItemSpec short P t ∧ bs = t.bytes ++ r := by
  constructor
  · intro h
    rcases (readItem_ok_iff short rd).mp h with ⟨_, _, _, rfl, hr⟩ | ⟨_, hm, _, _, _, hn, rfl, hr⟩
    · exact readIndefinite_sound hrd hP hr
    · exact readDefinite_sound hrd hm hn hr
  · rintro ⟨h, rfl⟩
    exact readItem_complete hrd hP h r

end

end Item

/-! ### Reading to any depth -/

/-- Reads one item nested at most `levels` deep, the item itself included. -/
def read (short : Bool) : Nat → Bytes → Except String (Tree × Bytes)
  | 0, _ => .error "nested too deeply"
  | levels + 1, bs => readItem short (read short levels) bs

/-- **The reader accepts exactly the readable items within its nesting limit,
and returns the item the bytes encode.** -/
theorem read_ok {short : Bool} {levels : Nat} {bs r : Bytes} {t : Tree} :
    read short levels bs = .ok (t, r) ↔
      (t.Readable short ∧ t.depth < levels) ∧ bs = t.bytes ++ r := by
  induction levels generalizing bs r t with
  | zero => simp [read]
  | succ levels ih =>
    rw [read, readItem_ok (fun _ _ _ => ih) fun t h => h.1.fits, ItemSpec,
      Tree.depth_lt_succ_iff, Tree.Readable, Tree.all_iff]
    refine and_congr_left fun _ => ?_
    constructor
    · rintro ⟨hn, hc⟩
      exact ⟨⟨hn, fun c h => (hc c h).1⟩, fun c h => (hc c h).2⟩
    · rintro ⟨⟨hn, hw⟩, hd⟩
      exact ⟨hn, fun c h => ⟨hw c h, hd c h⟩⟩

/-- An encoding determines its item, and where the item ends. -/
theorem bytes_append_inj {t t' : Tree} (ht : t.Fits) (ht' : t'.Fits)
    {r r' : Bytes} (h : t.bytes ++ r = t'.bytes ++ r') : t = t' ∧ r = r' := by
  rw [← Tree.readable_true_iff] at ht ht'
  have hread : read true (max t.depth t'.depth + 1) (t.bytes ++ r) = .ok (t, r) :=
    read_ok.mpr ⟨⟨ht, by omega⟩, rfl⟩
  have hread' : read true (max t.depth t'.depth + 1) (t'.bytes ++ r') = .ok (t', r') :=
    read_ok.mpr ⟨⟨ht', by omega⟩, rfl⟩
  rw [h, hread'] at hread
  cases hread
  exact ⟨rfl, rfl⟩

theorem bytes_inj {t t' : Tree} (ht : t.Fits) (ht' : t'.Fits) (h : t.bytes = t'.bytes) :
    t = t' := by
  have h' : t.bytes ++ [] = t'.bytes ++ [] := by rw [h]
  exact (bytes_append_inj ht ht' h').1

/-- Reads a byte string that is one well-formed item from its first byte to its last. -/
def readAll (levels : Nat) (bs : Bytes) : Except String Tree := do
  let (t, r) ← read false levels bs
  match r with
  | [] => return t
  | _ => .error "trailing data"

theorem readAll_ok {levels : Nat} {bs : Bytes} {t : Tree} :
    readAll levels bs = .ok t ↔ (t.WellFormed ∧ t.depth < levels) ∧ bs = t.bytes := by
  rw [← Tree.readable_false_iff]
  unfold readAll
  constructor
  · intro h
    obtain ⟨⟨t', r⟩, ht, h⟩ := Except.bind_eq_ok.mp h
    cases r with
    | nil =>
      cases h
      simpa using read_ok.mp ht
    | cons b r => cases h
  · rintro ⟨h, rfl⟩
    exact Except.bind_eq_ok.mpr ⟨(t, []), read_ok.mpr ⟨h, by simp⟩, rfl⟩

end Cbor

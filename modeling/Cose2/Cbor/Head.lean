import Mathlib.Data.List.Induction
import Mathlib.Tactic

/-! # CBOR item heads

A data item starts with a *head*: three bits of major type, five bits of
additional information and zero, one, two, four or eight argument bytes
(RFC 8949, section 3).  This file fixes the five widths an argument can be
written in, the bytes of a head, and how a head is read back.  Nothing here
knows what the argument is used for.
-/
namespace Cbor

/-- A byte string. -/
abbrev Bytes := List UInt8

instance (bs : Bytes) (bss : List Bytes) : Decidable (bs ∈ bss) := inferInstance

/-! ### Big-endian numbers -/

/-- The unsigned number a byte string denotes, most significant byte first. -/
def beNat (bs : Bytes) : Nat := bs.foldl (fun n b => n * 256 + b.toNat) 0

/-- The lowest `w` bytes of `n`, most significant byte first. -/
def beBytes : Nat → Nat → Bytes
  | 0, _ => []
  | w + 1, n => beBytes w (n / 256) ++ [UInt8.ofNat n]

@[simp] theorem beNat_nil : beNat [] = 0 := rfl

theorem beNat_append_singleton (bs : Bytes) (b : UInt8) :
    beNat (bs ++ [b]) = beNat bs * 256 + b.toNat := by
  simp [beNat, List.foldl_append]

@[simp] theorem beBytes_length (w n : Nat) : (beBytes w n).length = w := by
  induction w generalizing n with
  | zero => rfl
  | succ w ih => simp [beBytes, ih]

theorem beNat_beBytes {w n : Nat} (h : n < 256 ^ w) : beNat (beBytes w n) = n := by
  induction w generalizing n with
  | zero =>
    rw [Nat.pow_zero] at h
    simp [beBytes]
    omega
  | succ w ih =>
    have hdiv : n / 256 < 256 ^ w := by
      rw [Nat.div_lt_iff_lt_mul (by norm_num)]
      rwa [Nat.pow_succ] at h
    rw [beBytes, beNat_append_singleton, ih hdiv]
    simp only [UInt8.toNat_ofNat']
    omega

theorem beNat_lt (bs : Bytes) : beNat bs < 256 ^ bs.length := by
  induction bs using List.reverseRecOn with
  | nil => simp
  | append_singleton bs b ih =>
    have hb : b.toNat < 256 := b.toNat_lt
    rw [beNat_append_singleton, List.length_append, List.length_singleton, Nat.pow_succ]
    omega

theorem beBytes_beNat (bs : Bytes) : beBytes bs.length (beNat bs) = bs := by
  induction bs using List.reverseRecOn with
  | nil => rfl
  | append_singleton bs b ih =>
    have hb : b.toNat < 256 := b.toNat_lt
    rw [List.length_append, List.length_singleton, beBytes, beNat_append_singleton]
    have hdiv : (beNat bs * 256 + b.toNat) / 256 = beNat bs := by omega
    have hlow : UInt8.ofNat (beNat bs * 256 + b.toNat) = b := by
      apply UInt8.toNat_inj.mp
      simp only [UInt8.toNat_ofNat']
      omega
    rw [hdiv, hlow, ih]

/-! ### Argument widths -/

/-- How the argument of a head is written: inside the initial byte, or in one,
two, four or eight bytes after it. -/
inductive Width where
  | imm
  | one
  | two
  | four
  | eight
deriving DecidableEq, Repr

namespace Width

/-- The number of argument bytes after the initial byte. -/
def size : Width → Nat
  | .imm => 0
  | .one => 1
  | .two => 2
  | .four => 4
  | .eight => 8

/-- The first number too large for the width. -/
def bound : Width → Nat
  | .imm => 24
  | .one => 256
  | .two => 65536
  | .four => 4294967296
  | .eight => 18446744073709551616

/-- The additional information of a head with argument `n` in this width. -/
def info : Width → Nat → Nat
  | .imm, n => n
  | .one, _ => 24
  | .two, _ => 25
  | .four, _ => 26
  | .eight, _ => 27

theorem info_lt {w : Width} {n : Nat} (h : n < w.bound) : w.info n < 28 := by
  cases w <;> simp [info, bound] at *
  omega

theorem lt_pow_size {w : Width} {n : Nat} (h : n < w.bound) (hw : w ≠ .imm) :
    n < 256 ^ w.size := by
  cases w <;> simp [size, bound] at *
  all_goals exact h

theorem bound_le (w : Width) : w.bound ≤ 18446744073709551616 := by
  cases w <;> simp [bound]

end Width

/-- The narrowest width that holds `n`; numbers of 64 bits and more get `eight`. -/
def preferred (n : Nat) : Width :=
  if n < 24 then .imm
  else if n < 256 then .one
  else if n < 65536 then .two
  else if n < 4294967296 then .four
  else .eight

theorem lt_bound_preferred_iff {n : Nat} :
    n < (preferred n).bound ↔ n < 18446744073709551616 := by
  unfold preferred
  split_ifs <;> simp only [Width.bound] <;> omega

/-! ### The bytes of a head -/

/-- The initial byte of major type `major` with additional information `info`. -/
def initial (major info : Nat) : UInt8 := UInt8.ofNat (major * 32 + info)

/-- The head of major type `major` with argument `n` written in width `w`. -/
def head (major : Nat) (w : Width) (n : Nat) : Bytes :=
  initial major (w.info n) :: beBytes w.size n

/-- The initial byte that opens an indefinite-length item. -/
def openIndefinite (major : Nat) : UInt8 := initial major 31

/-- The byte that closes an indefinite-length item. -/
def breakByte : UInt8 := 0xff

theorem initial_toNat {major info : Nat} (hm : major < 8) (hi : info < 32) :
    (initial major info).toNat = major * 32 + info := by
  simp only [initial, UInt8.toNat_ofNat']
  omega

theorem initial_major {major info : Nat} (hm : major < 8) (hi : info < 32) :
    (initial major info).toNat / 32 = major := by
  rw [initial_toNat hm hi]
  omega

theorem initial_info {major info : Nat} (hm : major < 8) (hi : info < 32) :
    (initial major info).toNat % 32 = info := by
  rw [initial_toNat hm hi]
  omega

/-- Every byte is the initial byte of its own major type and information. -/
theorem initial_self (b : UInt8) : initial (b.toNat / 32) (b.toNat % 32) = b := by
  apply UInt8.toNat_inj.mp
  have hb : b.toNat < 256 := b.toNat_lt
  rw [initial_toNat (by omega) (by omega)]
  omega

@[simp] theorem head_length (major : Nat) (w : Width) (n : Nat) :
    (head major w n).length = 1 + w.size := by
  simp [head, Nat.add_comm]

/-- The first byte of a head is never the break byte. -/
theorem initial_ne_break {major : Nat} {w : Width} {n : Nat} (hm : major < 8)
    (h : n < w.bound) : initial major (w.info n) ≠ breakByte := by
  intro he
  have hi := Width.info_lt h
  have := congrArg UInt8.toNat he
  rw [initial_toNat hm (by omega)] at this
  simp only [breakByte, UInt8.reduceToNat] at this
  omega

/-! ### Reading an argument -/

/-- The width that additional information selects, with the argument when it is
immediate; `none` for the reserved values and for 31. -/
def widthOfInfo (info : Nat) : Option Width :=
  if info < 24 then some .imm
  else if info = 24 then some .one
  else if info = 25 then some .two
  else if info = 26 then some .four
  else if info = 27 then some .eight
  else none

theorem widthOfInfo_info {w : Width} {n : Nat} (h : n < w.bound) :
    widthOfInfo (w.info n) = some w := by
  cases w with
  | imm => exact if_pos h
  | one | two | four | eight => rfl

theorem widthOfInfo_some {info : Nat} {w : Width} (h : widthOfInfo info = some w) :
    (w = .imm ∧ info < 24) ∨ (w ≠ .imm ∧ ∀ n, w.info n = info) := by
  unfold widthOfInfo at h
  split_ifs at h with h1 h2 h3 h4 h5 <;> cases h <;> simp [Width.info, *]

end Cbor

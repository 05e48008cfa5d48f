import Cose2.Cwt.Claims

/-! # The validator of CWT claims

`Validator` of `src/cwt.rs`.  Times are compared with a window around the current
time, as numbers: dates of both forms denote rationals, and a check succeeds exactly
when these stand in the right order (`exactDates`).
-/
namespace Cose2

open Cbor Iana

/-- `ValidatorOptions`. -/
structure ValidatorOptions where
  expectedIssuer : Option String := none
  expectedAudience : Option String := none
  allowMissingExpiration : Bool := false
  expectIssuedInThePast : Bool := false
  clockSkewSecs : UInt64 := 0
  fixedNow : Option Int64 := none
deriving DecidableEq, Repr

/-- `MAX_CLOCK_SKEW_SECS`. -/
def maxClockSkewSecs : UInt64 := 10 * 60

/-- `Validator`: options that `Validator::new` has accepted. -/
structure Validator where
  opts : ValidatorOptions
  skewOk : opts.clockSkewSecs ≤ maxClockSkewSecs

/-- `Duration`. -/
structure Duration where
  secs : UInt64
  subsecNanos : UInt32

/-- `numeric_date_claim`. -/
def numericDateClaim (claims : CoseMap) (key : Label) (name : String) :
    Except Error (Option NumericDate) :=
  (claims.get key).mapM (numericDateFromValue name)

/-- `audience_claim`. -/
def audienceClaim (claims : CoseMap) : Except Error (Option Audience) :=
  (claims.get cwtClaimAud).mapM audienceFromValue

namespace Validator

/-- `Validator::new`. -/
def new (opts : ValidatorOptions) : Except Error Validator :=
  if h : maxClockSkewSecs < opts.clockSkewSecs then
    .error (.custom (s!"clock skew too large, expected <= {maxClockSkewSecs} seconds, " ++
      s!"got {opts.clockSkewSecs}"))
  else .ok ⟨opts, UInt64.not_lt.mp h⟩

variable (v : Validator)

/-- `Validator::now`.  `clock` is what `duration_since(UNIX_EPOCH)` says of the system
time: how long after the epoch it is, or else how long before. -/
def now (clock : Except Duration Duration) : Int128 :=
  match v.opts.fixedNow with
  | some t => Int128.wrap t.toInt
  | none =>
    match clock with
    | .ok duration => Int128.wrap duration.secs.toNat
    | .error duration =>
      Int128.wrap (-duration.secs.toNat - if duration.subsecNanos ≠ 0 then 1 else 0)

/-- The skew as an `i128`. -/
def skew : Int := v.opts.clockSkewSecs.toNat

variable (clock : Except Duration Duration)

/-- The part of `check_times` for the expiration. -/
def checkExpiration (limit : Int128) (exp : Option NumericDate) : Except Error Unit := do
  match ← exp.mapM NumericDate.validate with
  | none =>
    Except.failIf (!v.opts.allowMissingExpiration)
      (.custom "token doesn't have an expiration set")
  | some exp => Except.failIf (exp.partialCmpInteger limit ≠ some .gt) (.custom "token has expired")

/-- The part of `check_times` for a date that must not be in the future. -/
def checkPast (limit : Int128) (message : String) (date : Option NumericDate) :
    Except Error Unit := do
  match ← date.mapM NumericDate.validate with
  | none => pure ()
  | some date => Except.failIf (date.partialCmpInteger limit = some .gt) (.custom message)

/-- `Validator::check_times`. -/
def checkTimes (exp nbf iat : Option NumericDate) : Except Error Unit := do
  let now := (v.now clock).val
  v.checkExpiration (Int128.wrap (now - v.skew)) exp
  checkPast (Int128.wrap (now + v.skew)) "token cannot be used yet" nbf
  if v.opts.expectIssuedInThePast then
    checkPast (Int128.wrap (now + v.skew)) "token has an invalid iat claim in the future" iat

/-- `{:?}` of an optional text, given that of a text. -/
def debugOption (debug : String → String) : Option String → String
  | none => "None"
  | some s => s!"Some({debug s})"

variable (debug : String → String)

/-- `Validator::check_identity`. -/
def checkIdentity (issuer : Option String) (audience : Option Audience) : Except Error Unit := do
  match v.opts.expectedIssuer with
  | none => pure ()
  | some expected =>
    Except.failIf (some expected ≠ issuer) (.custom
      s!"issuer mismatch, expected {debug expected}, got {debugOption debug issuer}")
  match v.opts.expectedAudience with
  | none => pure ()
  | some expected =>
    Except.failIf (!audience.any (Audience.contains expected))
      (.custom s!"audience mismatch, expected {debug expected}")

/-- `Validator::validate`. -/
def validate (claims : Claims) : Except Error Unit := do
  v.checkTimes clock claims.expiration claims.notBefore claims.issuedAt
  v.checkIdentity debug claims.issuer claims.audience

/-- `Validator::validate_map`. -/
def validateMap (claims : CoseMap) : Except Error Unit := do
  v.checkTimes clock (← numericDateClaim claims cwtClaimExp "exp")
    (← numericDateClaim claims cwtClaimNbf "nbf") (← numericDateClaim claims cwtClaimIat "iat")
  v.checkIdentity debug (← claims.getText cwtClaimIss) (← audienceClaim claims)

/-! ### Exact times -/

theorem skew_bounds : 0 ≤ v.skew ∧ v.skew ≤ 600 := by
  have h : v.opts.clockSkewSecs.toNat ≤ 600 := UInt64.le_iff_toNat_le.mp v.skewOk
  rw [skew]
  omega

/-- The clock counts seconds in 64 bits. -/
theorem now_bounds : -18446744073709551616 ≤ (v.now clock).val ∧
    (v.now clock).val < 18446744073709551616 := by
  have wrapped {i : Int} (hlower : -18446744073709551616 ≤ i) (hupper : i < 18446744073709551616) :
      -18446744073709551616 ≤ (Int128.wrap i).val ∧
        (Int128.wrap i).val < 18446744073709551616 := by
    rw [Int128.wrap_val (by omega) (by omega)]
    exact ⟨hlower, hupper⟩
  simp only [now]
  cases v.opts.fixedNow with
  | some t =>
    have hlower := t.le_toInt
    have hupper := t.toInt_lt
    exact wrapped (by norm_num at *; omega) (by norm_num at *; omega)
  | none =>
    cases clock with
    | ok duration =>
      have := duration.secs.toNat_lt
      exact wrapped (by omega) (by omega)
    | error duration =>
      have := duration.secs.toNat_lt
      refine wrapped ?_ ?_
      · split_ifs <;> omega
      · split_ifs <;> omega

/-- A fixed time is the time. -/
theorem now_fixed {t : Int64} (h : v.opts.fixedNow = some t) : (v.now clock).val = t.toInt := by
  have hlower := t.le_toInt
  have hupper := t.toInt_lt
  simp only [now, h]
  exact Int128.wrap_val (by norm_num at *; omega) (by norm_num at *; omega)

/-- Neither end of the window leaves `i128`. -/
theorem no_overflow : -2 ^ 127 ≤ (v.now clock).val - v.skew ∧
    (v.now clock).val + v.skew < 2 ^ 127 := by
  have hskew := v.skew_bounds
  have hnow := v.now_bounds clock
  omega

/-- What the checks of times decide: dates in the range of CBOR, and in order with the
window around the current time. -/
structure InTime (now : Int) (exp nbf iat : Option NumericDate) : Prop where
  missing : exp = none → v.opts.allowMissingExpiration = true
  exp : ∀ date, exp = some date → date.InRange ∧ ((now - v.skew : Int) : ℚ) < date.toRat
  nbf : ∀ date, nbf = some date → date.InRange ∧ date.toRat ≤ ((now + v.skew : Int) : ℚ)
  iat : v.opts.expectIssuedInThePast = true →
    ∀ date, iat = some date → date.InRange ∧ date.toRat ≤ ((now + v.skew : Int) : ℚ)

variable {v clock}

theorem partialCmpInteger_eq_gt {date : NumericDate} (hdate : date.InRange) {i : Int}
    (hlower : -2 ^ 127 ≤ i) (hupper : i < 2 ^ 127) :
    date.partialCmpInteger (Int128.wrap i) = some .gt ↔ (i : ℚ) < date.toRat := by
  have hfinite : (NumericDate.integer (Int128.wrap i)).IsFinite := trivial
  rw [NumericDate.partialCmpInteger, NumericDate.compare_spec hdate.isFinite hfinite,
    Option.some.injEq, compare_gt_iff_gt, NumericDate.toRat, Int128.wrap_val hlower hupper]

theorem checkExpiration_ok {exp : Option NumericDate} {i : Int} (hlower : -2 ^ 127 ≤ i)
    (hupper : i < 2 ^ 127) : v.checkExpiration (Int128.wrap i) exp = .ok () ↔
      (exp = none → v.opts.allowMissingExpiration = true) ∧
        ∀ date, exp = some date → date.InRange ∧ (i : ℚ) < date.toRat := by
  rw [checkExpiration, Except.bind_eq_ok]
  simp only [Except.optionMapM_eq_ok, NumericDate.validate_ok]
  constructor
  · rintro ⟨_, ⟨rfl, rfl⟩ | ⟨date, _, rfl, ⟨hdate, rfl⟩, rfl⟩, h⟩
    · refine ⟨fun _ => ?_, by simp⟩
      simpa [Except.failIf_eq_ok] using h
    · refine ⟨by simp, ?_⟩
      rintro _ ⟨⟩
      rw [Except.failIf_eq_ok, not_not, partialCmpInteger_eq_gt hdate hlower hupper] at h
      exact ⟨hdate, h⟩
  · rintro ⟨hmissing, hexp⟩
    cases exp with
    | none =>
      refine ⟨none, .inl ⟨rfl, rfl⟩, ?_⟩
      simpa [Except.failIf_eq_ok] using hmissing rfl
    | some date =>
      obtain ⟨hdate, hlt⟩ := hexp date rfl
      refine ⟨some date, .inr ⟨date, date, rfl, ⟨hdate, rfl⟩, rfl⟩, ?_⟩
      rw [Except.failIf_eq_ok, not_not, partialCmpInteger_eq_gt hdate hlower hupper]
      exact hlt

theorem checkPast_ok {date : Option NumericDate} {message : String} {i : Int}
    (hlower : -2 ^ 127 ≤ i) (hupper : i < 2 ^ 127) :
    checkPast (Int128.wrap i) message date = .ok () ↔
      ∀ d, date = some d → d.InRange ∧ d.toRat ≤ (i : ℚ) := by
  rw [checkPast, Except.bind_eq_ok]
  simp only [Except.optionMapM_eq_ok, NumericDate.validate_ok]
  constructor
  · rintro ⟨_, ⟨rfl, rfl⟩ | ⟨date, _, rfl, ⟨hdate, rfl⟩, rfl⟩, h⟩
    · simp
    · rintro _ ⟨⟩
      rw [Except.failIf_eq_ok, partialCmpInteger_eq_gt hdate hlower hupper, not_lt] at h
      exact ⟨hdate, h⟩
  · intro h
    cases date with
    | none => exact ⟨none, .inl ⟨rfl, rfl⟩, rfl⟩
    | some date =>
      obtain ⟨hdate, hle⟩ := h date rfl
      refine ⟨some date, .inr ⟨date, date, rfl, ⟨hdate, rfl⟩, rfl⟩, ?_⟩
      rw [Except.failIf_eq_ok, partialCmpInteger_eq_gt hdate hlower hupper, not_lt]
      exact hle

theorem checkTimes_ok {exp nbf iat : Option NumericDate} :
    v.checkTimes clock exp nbf iat = .ok () ↔ v.InTime (v.now clock).val exp nbf iat := by
  have hskew := v.skew_bounds
  have hnow := v.now_bounds clock
  have hpast (message : String) (date : Option NumericDate) :=
    @checkPast_ok date message ((v.now clock).val + v.skew) (by omega) (by omega)
  rw [checkTimes, Except.seq_eq_ok, Except.seq_eq_ok, hpast,
    checkExpiration_ok (by omega) (by omega)]
  constructor
  · rintro ⟨⟨hmissing, hexp⟩, hnbf, hiat⟩
    refine ⟨hmissing, hexp, hnbf, fun hwanted => ?_⟩
    rwa [if_pos hwanted, hpast] at hiat
  · rintro ⟨hmissing, hexp, hnbf, hiat⟩
    refine ⟨⟨hmissing, hexp⟩, hnbf, ?_⟩
    split_ifs with hwanted
    · exact (hpast _ _).mpr (hiat hwanted)
    · rfl

end Validator

/-- What comparing dates and checking times comes down to. -/
structure ExactDates : Prop where
  /-- Two finite dates, of either form, are compared as numbers. -/
  exact : ∀ left right : NumericDate, left.IsFinite → right.IsFinite →
    left.compare right = some (compare left.toRat right.toRat)
  /-- Dates are equal when they denote the same number. -/
  refl : ∀ left right : NumericDate, left.IsFinite → right.IsFinite →
    (left.compare right = some .eq ↔ left.toRat = right.toRat)
  antisymm : ∀ left right : NumericDate, left.IsFinite → right.IsFinite →
    right.compare left = (left.compare right).map Ordering.swap
  trans : ∀ left middle right : NumericDate, left.IsFinite → middle.IsFinite → right.IsFinite →
    left.compare middle ≠ some .gt → middle.compare right ≠ some .gt →
      left.compare right ≠ some .gt
  /-- The current time is the fixed one, if there is one. -/
  fixed : ∀ (v : Validator) clock t, v.opts.fixedNow = some t → (v.now clock).val = t.toInt
  no_overflow : ∀ (v : Validator) clock,
    -2 ^ 127 ≤ (v.now clock).val - v.skew ∧ (v.now clock).val + v.skew < 2 ^ 127
  /-- The checks of times hold of the numbers that the dates denote. -/
  times : ∀ (v : Validator) clock exp nbf iat,
    v.checkTimes clock exp nbf iat = .ok () ↔ v.InTime (v.now clock).val exp nbf iat

/-- **Dates are compared exactly**, and so are they checked. -/
theorem exactDates : ExactDates where
  exact _ _ hl hr := NumericDate.compare_spec hl hr
  refl _ _ hl hr := NumericDate.compare_eq_eq hl hr
  antisymm _ _ hl hr := NumericDate.compare_swap hl hr
  trans left middle right hl hm hr hlm hmr := by
    rw [NumericDate.compare_ne_gt hl hm] at hlm
    rw [NumericDate.compare_ne_gt hm hr] at hmr
    rw [NumericDate.compare_ne_gt hl hr]
    exact hlm.trans hmr
  fixed v clock _ h := v.now_fixed clock h
  no_overflow v clock := v.no_overflow clock
  times _ _ _ _ _ := Validator.checkTimes_ok

end Cose2

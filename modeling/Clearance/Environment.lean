/-
# `Clearance.Environment` — durations from the environment

`appenv.DurationSeconds` reads a number of seconds from an environment variable, or takes
a fallback, which makes its way through a `float64`.  The number is then multiplied by a
second without a check.

Whole seconds survive the `float64` (`seconds_wholeSeconds`).  The multiplication overflows
for numbers above `9223372036`, though they are read without an error, so that the duration
is what is meant exactly as long as no such number is given (`duration_exact_iff`), but for
numbers that happen to wrap around to the fallback.
-/
import Clearance.Binary64
import Clearance.Service.Messages

namespace Clearance

namespace Appenv

/-! ## `env.go` -/

/-- `Int`, where `value` is `os.Getenv(name)`. -/
def int (value : Bytes) (fallback : Int64) : Int64 :=
  let value := trimSpace (goString value)
  if value = "" then fallback
  else
    match atoi value with
    | none => fallback
    | some parsed => if parsed ≤ 0 then fallback else Int64.ofInt parsed

/-- `time.Second` -/
def second : Int64 := 1000000000

/-- `time.Duration.Seconds`, a `float64`. -/
def seconds (d : Int64) : ℚ :=
  let sec := d / second
  let nsec := d % second
  Binary64.round
    (Binary64.round sec.toInt + Binary64.round (Binary64.round nsec.toInt / 1000000000))

def durationSeconds (value : Bytes) (fallback : Int64) : Int64 :=
  int value (Int64.ofInt (Binary64.truncate (seconds fallback))) * second

/-! ## The fallback -/

theorem toInt_second : second.toInt = 1000000000 := by decide

section

variable {fallback : Int64} {k : Int}

theorem wholeSeconds_bounds (h : fallback.toInt = k * 1000000000) :
    -9223372036 ≤ k ∧ k ≤ 9223372036 := by
  have hlo := Int64.le_toInt fallback
  have hhi := Int64.toInt_lt fallback
  rw [h] at hlo hhi
  omega

/-- Whole seconds are exact as a `float64`. -/
theorem seconds_wholeSeconds (h : fallback.toInt = k * 1000000000) : seconds fallback = k := by
  obtain ⟨hlo, hhi⟩ := wholeSeconds_bounds h
  have hsec : (fallback / second).toInt = k := by
    rw [Int64.toInt_div, toInt_second, h, Int.mul_tdiv_cancel _ (by decide)]
    exact Int.bmod_eq_of_le (by omega) (by omega)
  have hnsec : (fallback % second).toInt = 0 := by
    rw [Int64.toInt_mod, toInt_second, h, Int.mul_tmod_left]
  have hround : Binary64.round k = k := Binary64.round_intCast (by omega)
  have hzero : Binary64.round 0 = 0 := if_pos rfl
  simp only [seconds, hsec, hnsec, Int.cast_zero, hzero, zero_div, hround, add_zero]

/-- The fallback as `Int` is given it. -/
theorem truncate_seconds (h : fallback.toInt = k * 1000000000) :
    Int64.ofInt (Binary64.truncate (seconds fallback)) = Int64.ofInt k := by
  rw [seconds_wholeSeconds h, Binary64.truncate_intCast]

/-! ## The multiplication -/

theorem toInt_mul_second {n : Int} (hlo : -2 ^ 63 ≤ n) (hhi : n < 2 ^ 63) :
    (Int64.ofInt n * second).toInt = (n * 1000000000).bmod (2 ^ 64) := by
  rw [Int64.toInt_mul, toInt_second, Int64.toInt_ofInt_of_le hlo hhi]

/-- No overflow. -/
theorem toInt_mul_second_of_le {n : Int} (hlo : -9223372036 ≤ n) (hhi : n ≤ 9223372036) :
    (Int64.ofInt n * second).toInt = n * 1000000000 := by
  rw [toInt_mul_second (by omega) (by omega)]
  exact Int.bmod_eq_of_le (by omega) (by omega)

theorem dvd_nanoseconds_iff (m : Int) : (2 ^ 64 : Int) ∣ m * 1000000000 ↔ (2 ^ 55 : Int) ∣ m := by
  have hfactors : m * 1000000000 = 2 ^ 9 * (m * 1953125) := by ring
  have hpow : (2 ^ 64 : Int) = 2 ^ 9 * 2 ^ 55 := by norm_num
  have hcoprime : IsCoprime (2 ^ 55 : Int) 1953125 :=
    IsCoprime.pow_left (Int.isCoprime_iff_gcd_eq_one.mpr (by decide))
  rw [hfactors, hpow, mul_dvd_mul_iff_left (by norm_num)]
  exact ⟨hcoprime.dvd_of_dvd_mul_right, fun h => h.mul_right _⟩

/-- Wrapped around to the fallback. -/
theorem mul_second_eq_iff (h : fallback.toInt = k * 1000000000) {n : Int} (hlo : -2 ^ 63 ≤ n)
    (hhi : n < 2 ^ 63) : Int64.ofInt n * second = fallback ↔ n % 2 ^ 55 = k % 2 ^ 55 := by
  obtain ⟨hklo, hkhi⟩ := wholeSeconds_bounds h
  have hdiff : k * 1000000000 - n * 1000000000 = (k - n) * 1000000000 := by ring
  rw [← Int64.toInt_inj, toInt_mul_second hlo hhi, h, Int.bmod_eq_iff (by decide), Nat.cast_pow,
    Nat.cast_ofNat, hdiff, dvd_nanoseconds_iff]
  constructor
  · intro hwrapped
    exact Int.modEq_iff_dvd.mpr hwrapped.2.2
  · intro hmod
    exact ⟨by omega, by omega, Int.modEq_iff_dvd.mp hmod⟩

end

/-! ## What a text denotes -/

/-- The integer a text stands for: digits, after a sign or without one. -/
def denoted (s : String) : Option Int :=
  let (sign, digits) := signed s.toList
  if !digits.isEmpty && digits.all Char.isDigit then some (sign * decimal digits) else none

/-- `strconv.Atoi` fails on what is too large for an `int`. -/
theorem atoi_eq_some {s : String} {n : Int} :
    atoi s = some n ↔ denoted s = some n ∧ -2 ^ 63 ≤ n ∧ n < 2 ^ 63 := by
  unfold atoi denoted
  simp only [Bool.and_eq_true, decide_eq_true_eq, Option.ite_none_right_eq_some, Option.some.injEq]
  constructor
  · rintro ⟨⟨⟨hdigits, hlo⟩, hhi⟩, rfl⟩
    exact ⟨⟨hdigits, rfl⟩, hlo, hhi⟩
  · rintro ⟨⟨hdigits, rfl⟩, hlo, hhi⟩
    exact ⟨⟨⟨hdigits, hlo⟩, hhi⟩, rfl⟩

section

variable {value : Bytes} {fallback : Int64} {k n : Int}

/-- A positive number is read. -/
theorem durationSeconds_read (h : atoi (trimSpace (goString value)) = some n) (hpos : 0 < n) :
    durationSeconds value fallback = Int64.ofInt n * second := by
  have hne : trimSpace (goString value) ≠ "" := by
    intro he
    rw [he] at h
    cases h
  simp only [durationSeconds, int, if_neg hne, h, if_neg (not_le.mpr hpos)]

/-- No positive number is there. -/
theorem durationSeconds_unread (hfallback : fallback.toInt = k * 1000000000)
    (h : ∀ n, atoi (trimSpace (goString value)) = some n → n ≤ 0) :
    durationSeconds value fallback = fallback := by
  obtain ⟨hlo, hhi⟩ := wholeSeconds_bounds hfallback
  have hback : Int64.ofInt k * second = fallback :=
    Int64.toInt_inj.mp ((toInt_mul_second_of_le hlo hhi).trans hfallback.symm)
  unfold durationSeconds int
  simp only [truncate_seconds hfallback]
  split
  · exact hback
  · split
    · exact hback
    · next n hn =>
        rw [if_pos (h n hn)]
        exact hback

/-- The duration is positive: the seconds that are denoted, or the fallback. -/
structure Exact (value : Bytes) (fallback : Int64) : Prop where
  positive : 0 < (durationSeconds value fallback).toInt
  meant : (∃ n, denoted (trimSpace (goString value)) = some n ∧ 0 < n ∧
      (durationSeconds value fallback).toInt = n * 1000000000) ∨
    durationSeconds value fallback = fallback

theorem exact_of_fallback (hk : 0 < k) (hfallback : fallback.toInt = k * 1000000000)
    (h : durationSeconds value fallback = fallback) : Exact value fallback := by
  refine ⟨?_, Or.inr h⟩
  rw [h, hfallback]
  omega

end

/-- The duration is what is meant, unless it is so many seconds that the multiplication
overflows, and not to the fallback. -/
theorem duration_exact_iff (value : Bytes) (fallback : Int64) (k : Int) (hk : 0 < k)
    (hfallback : fallback.toInt = k * 1000000000) :
    Exact value fallback ↔ ∀ n, denoted (trimSpace (goString value)) = some n →
      9223372036 < n → n < 2 ^ 63 → n % 2 ^ 55 = k % 2 ^ 55 := by
  constructor
  · rintro ⟨-, hmeant⟩ n hn hlarge hhi
    have hread := atoi_eq_some.mpr ⟨hn, by omega, hhi⟩
    rcases hmeant with ⟨n', hn', -, heq⟩ | heq
    · -- so many nanoseconds are no `int64`
      obtain rfl : n = n' := Option.some.inj (hn.symm.trans hn')
      have hbound := Int64.toInt_lt (durationSeconds value fallback)
      omega
    · rw [durationSeconds_read hread (by omega)] at heq
      exact (mul_second_eq_iff hfallback (by omega) hhi).mp heq
  · intro hmod
    by_cases hread : ∃ n, atoi (trimSpace (goString value)) = some n ∧ 0 < n
    · obtain ⟨n, hn, hpos⟩ := hread
      obtain ⟨hdenoted, hlo, hhi⟩ := atoi_eq_some.mp hn
      have hduration : durationSeconds value fallback = Int64.ofInt n * second :=
        durationSeconds_read hn hpos
      rcases le_or_gt n 9223372036 with hsmall | hlarge
      · have hexact := toInt_mul_second_of_le (by omega) hsmall
        rw [← hduration] at hexact
        exact ⟨by omega, Or.inl ⟨n, hdenoted, hpos, hexact⟩⟩
      · refine exact_of_fallback hk hfallback (hduration.trans ?_)
        exact (mul_second_eq_iff hfallback hlo hhi).mpr (hmod n hdenoted hlarge hhi)
    · simp only [not_exists, not_and, not_lt] at hread
      exact exact_of_fallback hk hfallback (durationSeconds_unread hfallback hread)

/-- A minute, read from the environment. -/
theorem duration_exact_iff_minute : Exact (utf8 " 60\n") second :=
  (duration_exact_iff (utf8 " 60\n") second 1 (by decide) (by decide)).mpr (by
    intro n hn hlarge
    have hsixty : denoted (trimSpace (goString (utf8 " 60\n"))) = some 60 := by decide +kernel
    obtain rfl : 60 = n := Option.some.inj (hsixty.symm.trans hn)
    exact absurd hlarge (by decide))

/-- Some three hundred years are negative, on which a ticker panics. -/
theorem duration_wrapped : ¬ Exact (utf8 "9223372037") second ∧
    (durationSeconds (utf8 "9223372037") second).toInt = -9223372036709551616 := by
  have hwrapped : (durationSeconds (utf8 "9223372037") second).toInt = -9223372036709551616 := by
    decide +kernel
  refine ⟨fun h => ?_, hwrapped⟩
  have hpositive := h.positive
  rw [hwrapped] at hpositive
  exact absurd hpositive (by decide)

end Appenv

end Clearance

import Mathlib.Algebra.Group.Nat.Defs
import Mathlib.Logic.Function.Iterate

/-!
# The system clock

This file models `arch/x86_64/cpu/timer/timer.c`: a count of milliseconds of 64 bits, and the time
of day that `timer_handler` advances field by field.  The two are updated independently of each
other.
-/

namespace Goshkik

/-- `struct system_time`, without its padding. -/
structure SystemTime where
  milliseconds : UInt32
  seconds : UInt8
  minutes : UInt8
  hours : UInt8
  days : UInt32

/-- `monotonic_ms`, and `current_time` of the kernel record. -/
structure SystemClock where
  monotonicMs : UInt64
  currentTime : SystemTime

/-- `init_system_clock`, which overwrites whatever was there. -/
def initSystemClock (_ : SystemClock) : SystemClock where
  monotonicMs := 0
  currentTime := ⟨0, 0, 0, 0, 0⟩

/-- The time of day in `timer_handler`. -/
def SystemTime.advance (time : SystemTime) : SystemTime :=
  let time := { time with milliseconds := time.milliseconds + 1 }
  if time.milliseconds < 1000 then time
  else
    let time := { time with milliseconds := 0, seconds := time.seconds + 1 }
    if time.seconds < 60 then time
    else
      let time := { time with seconds := 0, minutes := time.minutes + 1 }
      if time.minutes < 60 then time
      else
        let time := { time with minutes := 0, hours := time.hours + 1 }
        if time.hours < 24 then time
        else { time with hours := 0, days := time.days + 1 }

def timerHandler (clock : SystemClock) : SystemClock where
  monotonicMs := clock.monotonicMs + 1
  currentTime := clock.currentTime.advance

def uptimeMs (clock : SystemClock) : UInt64 := clock.monotonicMs

/-! ## The time of day as a number in mixed radix -/

/-- The fields are the digits of a number of milliseconds. -/
structure SystemTime.Represents (time : SystemTime) (n : ℕ) : Prop where
  milliseconds : time.milliseconds.toNat = n % 1000
  seconds : time.seconds.toNat = n / 1000 % 60
  minutes : time.minutes.toNat = n / 60000 % 60
  hours : time.hours.toNat = n / 3600000 % 24
  days : time.days.toNat = n / 86400000 % 2 ^ 32

variable {time : SystemTime} {n : ℕ}

/-- Each digit is taken from what is left behind the one before. -/
theorem SystemTime.represents_iff : time.Represents n ↔
    time.milliseconds.toNat = n % 1000 ∧ time.seconds.toNat = n / 1000 % 60 ∧
      time.minutes.toNat = n / 1000 / 60 % 60 ∧ time.hours.toNat = n / 1000 / 60 / 60 % 24 ∧
        time.days.toNat = n / 1000 / 60 / 60 / 24 % 2 ^ 32 := by
  simp only [Nat.div_div_eq_div_mul]
  constructor
  · rintro ⟨milliseconds, seconds, minutes, hours, days⟩
    exact ⟨milliseconds, seconds, minutes, hours, days⟩
  · rintro ⟨milliseconds, seconds, minutes, hours, days⟩
    exact ⟨milliseconds, seconds, minutes, hours, days⟩

/-- A digit that stays below its base is not carried. -/
theorem digit_stays {base : ℕ} (below : n % base + 1 < base) :
    (n + 1) % base = n % base + 1 ∧ (n + 1) / base = n / base := by
  have split := Nat.mod_add_div n base
  have quotient : (n + 1) / base = n / base :=
    Nat.div_eq_of_lt_le (by rw [Nat.mul_comm]; omega) (by rw [Nat.succ_mul, Nat.mul_comm]; omega)
  have splitNext := Nat.mod_add_div (n + 1) base
  rw [quotient] at splitNext
  exact ⟨by omega, quotient⟩

/-- A digit that comes to its base is carried. -/
theorem digit_carries {base : ℕ} (positive : 0 < base) (full : ¬n % base + 1 < base) :
    (n + 1) % base = 0 ∧ (n + 1) / base = n / base + 1 := by
  have small := Nat.mod_lt n positive
  have next : n + 1 = base * (n / base + 1) := by
    rw [Nat.mul_succ]
    have split := Nat.mod_add_div n base
    omega
  constructor
  · rw [next, Nat.mul_mod_right]
  · rw [next, Nat.mul_div_cancel_left _ positive]

/-- Each field is carried into the next one when it has come to its bound. -/
theorem SystemTime.Represents.advance (represents : time.Represents n) :
    time.advance.Represents (n + 1) := by
  rw [SystemTime.represents_iff] at represents ⊢
  rcases represents with ⟨milliseconds, seconds, minutes, hours, days⟩
  have millisecond : (time.milliseconds + 1).toNat = n % 1000 + 1 := by
    simp only [UInt32.toNat_add, milliseconds, UInt32.reduceToNat]
    exact Nat.mod_eq_of_lt (by omega)
  have second : (time.seconds + 1).toNat = n / 1000 % 60 + 1 := by
    simp only [UInt8.toNat_add, seconds, UInt8.reduceToNat]
    exact Nat.mod_eq_of_lt (by omega)
  have minute : (time.minutes + 1).toNat = n / 1000 / 60 % 60 + 1 := by
    simp only [UInt8.toNat_add, minutes, UInt8.reduceToNat]
    exact Nat.mod_eq_of_lt (by omega)
  have hour : (time.hours + 1).toNat = n / 1000 / 60 / 60 % 24 + 1 := by
    simp only [UInt8.toNat_add, hours, UInt8.reduceToNat]
    exact Nat.mod_eq_of_lt (by omega)
  unfold SystemTime.advance
  simp only [UInt32.lt_iff_toNat_lt, UInt8.lt_iff_toNat_lt, UInt32.reduceToNat, UInt8.reduceToNat,
    millisecond, second, minute, hour]
  by_cases isMillisecond : n % 1000 + 1 < 1000
  · rcases digit_stays isMillisecond with ⟨digit, rest⟩
    rw [if_pos isMillisecond, digit, rest]
    exact ⟨millisecond, seconds, minutes, hours, days⟩
  rcases digit_carries (by decide) isMillisecond with ⟨noMilliseconds, secondsNext⟩
  rw [if_neg isMillisecond, noMilliseconds, secondsNext]
  by_cases isSecond : n / 1000 % 60 + 1 < 60
  · rcases digit_stays isSecond with ⟨digit, rest⟩
    rw [if_pos isSecond, digit, rest]
    exact ⟨rfl, second, minutes, hours, days⟩
  rcases digit_carries (by decide) isSecond with ⟨noSeconds, minutesNext⟩
  rw [if_neg isSecond, noSeconds, minutesNext]
  by_cases isMinute : n / 1000 / 60 % 60 + 1 < 60
  · rcases digit_stays isMinute with ⟨digit, rest⟩
    rw [if_pos isMinute, digit, rest]
    exact ⟨rfl, rfl, minute, hours, days⟩
  rcases digit_carries (by decide) isMinute with ⟨noMinutes, hoursNext⟩
  rw [if_neg isMinute, noMinutes, hoursNext]
  by_cases isHour : n / 1000 / 60 / 60 % 24 + 1 < 24
  · rcases digit_stays isHour with ⟨digit, rest⟩
    rw [if_pos isHour, digit, rest]
    exact ⟨rfl, rfl, rfl, hour, days⟩
  · rcases digit_carries (by decide) isHour with ⟨noHours, daysNext⟩
    rw [if_neg isHour, noHours, daysNext]
    refine ⟨rfl, rfl, rfl, rfl, ?_⟩
    rw [UInt32.toNat_add, days]
    exact Nat.mod_add_mod _ _ _

theorem SystemTime.Represents.lt (represents : time.Represents n) : time.milliseconds.toNat < 1000 ∧
    time.seconds.toNat < 60 ∧ time.minutes.toNat < 60 ∧ time.hours.toNat < 24 := by
  rcases represents with ⟨milliseconds, seconds, minutes, hours, -⟩
  omega

theorem represents_iterate (clock : SystemClock) (n : ℕ) :
    (timerHandler^[n] (initSystemClock clock)).currentTime.Represents n := by
  induction n with
  | zero => constructor <;> rfl
  | succ n hypothesis =>
      rw [Function.iterate_succ_apply']
      exact hypothesis.advance

theorem uptimeMs_iterate (clock : SystemClock) (n : ℕ) : (uptimeMs (timerHandler^[n] clock)).toNat =
    ((uptimeMs clock).toNat + n) % 2 ^ 64 := by
  induction n with
  | zero => exact (Nat.mod_eq_of_lt (uptimeMs clock).toNat_lt).symm
  | succ n hypothesis =>
      rw [Function.iterate_succ_apply']
      have next : (uptimeMs (timerHandler (timerHandler^[n] clock))).toNat =
          ((uptimeMs (timerHandler^[n] clock)).toNat + 1) % 2 ^ 64 :=
        UInt64.toNat_add _ 1
      rw [next, hypothesis]
      omega

/-- After any number of ticks the count of milliseconds is that number and the time of day shows its
digits, none of which leaves its range, also while it is incremented. -/
theorem clock_shows_ticks (clock : SystemClock) (n : ℕ) (fits : n < 2 ^ 64) :
    (uptimeMs (timerHandler^[n] (initSystemClock clock))).toNat = n ∧
      (timerHandler^[n] (initSystemClock clock)).currentTime.Represents n ∧
      (timerHandler^[n] (initSystemClock clock)).currentTime.seconds.toNat + 1 ≤ 60 ∧
      (timerHandler^[n] (initSystemClock clock)).currentTime.minutes.toNat + 1 ≤ 60 ∧
      (timerHandler^[n] (initSystemClock clock)).currentTime.hours.toNat + 1 ≤ 24 := by
  have represents := represents_iterate clock n
  rcases represents.lt with ⟨_, seconds, minutes, hours⟩
  refine ⟨?_, represents, seconds, minutes, hours⟩
  rw [uptimeMs_iterate, show (uptimeMs (initSystemClock clock)).toNat = 0 from rfl, Nat.zero_add]
  exact Nat.mod_eq_of_lt fits

/-- A clock that shows something else before it is started. -/
theorem clock_shows_day :
    (uptimeMs (timerHandler^[86400000] (initSystemClock ⟨7, ⟨7, 7, 7, 7, 7⟩⟩))).toNat = 86400000 ∧
      (timerHandler^[86400000] (initSystemClock ⟨7, ⟨7, 7, 7, 7, 7⟩⟩)).currentTime.Represents
        86400000 ∧
      (timerHandler^[86400000] (initSystemClock ⟨7, ⟨7, 7, 7, 7, 7⟩⟩)).currentTime.seconds.toNat +
        1 ≤ 60 ∧
      (timerHandler^[86400000] (initSystemClock ⟨7, ⟨7, 7, 7, 7, 7⟩⟩)).currentTime.minutes.toNat +
        1 ≤ 60 ∧
      (timerHandler^[86400000] (initSystemClock ⟨7, ⟨7, 7, 7, 7, 7⟩⟩)).currentTime.hours.toNat + 1 ≤
        24 :=
  clock_shows_ticks ⟨7, ⟨7, 7, 7, 7, 7⟩⟩ 86400000 (by decide)

end Goshkik

import Mathlib.Data.Int.Order.Basic
import Mathlib.Tactic.Linarith
import Mathlib.Tactic.Ring
import Goshkik.Cpu.Timer

/-!
# The interval timer

This file models `arch/x86_64/cpu/pit/pit.c` and the comparisons of times in
`arch/x86_64/cpu/timer/timer.c`.  The timer divides its clock by a number of 16 bits, and each
period of it is one interrupt that the system clock counts as a millisecond.

Of the timer, the rate generator of channel 0 is modelled, whose count is written as two bytes
behind its command.
-/

namespace Goshkik

/-- `PIT_DIVISOR`, the frequency of the timer's clock. -/
def pitDivisor : ℕ := 1193182

/-- `TIMER_FREQUENCY`. -/
def timerFrequency : ℕ := 1000

inductive PitStage where
  | stopped
  | low
  | high
  | armed
  | counting
  deriving DecidableEq

/-- Channel 0: the low byte that has been written, the count that is reloaded, and the counter. -/
structure Pit where
  stage : PitStage
  lowByte : ℕ
  reload : ℕ
  counter : ℕ
  deriving DecidableEq

namespace Pit

variable (pit : Pit)

/-- A write to the command port.  Bits 6 and 7 are the channel, bits 4 and 5 say that both bytes are
written, and bits 1 to 3 are the mode. -/
def writeCommand (value : ℕ) : Pit :=
  if value / 64 = 0 ∧ value / 16 % 4 = 3 ∧ value / 2 % 8 = 2 then { pit with stage := .low }
  else pit

/-- A write to the data port of channel 0. -/
def writeData (value : ℕ) : Pit :=
  match pit.stage with
  | .low => { pit with lowByte := value, stage := .high }
  | .high => { pit with reload := pit.lowByte + 256 * value, stage := .armed }
  | _ => pit

/-- A count of zero stands for the greatest one. -/
def period : ℕ := if pit.reload = 0 then 2 ^ 16 else pit.reload

/-- One cycle of the clock, and whether the output rises. -/
def cycle : Pit × Bool :=
  match pit.stage with
  | .armed => ({ pit with stage := .counting, counter := pit.period }, false)
  | .counting =>
      if pit.counter = 1 then ({ pit with counter := pit.period }, true)
      else ({ pit with counter := pit.counter - 1 }, false)
  | _ => (pit, false)

/-- The cycles that pass, and how often the output rises. -/
def cycles : ℕ → Pit × ℕ
  | 0 => (pit, 0)
  | count + 1 =>
      let before := cycles count
      (before.1.cycle.1, before.2 + before.1.cycle.2.toNat)

end Pit

/-- `pit_set_reload`. -/
def pitSetReload (count : ℕ) (pit : Pit) : Pit :=
  ((pit.writeCommand 0x34).writeData (count % 2 ^ 8)).writeData (count / 2 ^ 8 % 2 ^ 8)

/-- The divisor that `pit_set_frequency` computes. -/
def pitFrequencyDivisor (frequency : ℕ) : ℕ :=
  if pitDivisor % frequency > frequency / 2 then pitDivisor / frequency + 1
  else pitDivisor / frequency

/-- `pit_set_frequency`, where a frequency of zero is a division by zero. -/
def pitSetFrequency (frequency : ℕ) (pit : Pit) : Option Pit :=
  if frequency = 0 then none
  else some (pitSetReload (pitFrequencyDivisor frequency % 2 ^ 16) pit)

/-- `init_pit`. -/
def initPit (pit : Pit) : Option Pit := pitSetFrequency timerFrequency (pitSetReload 0xffff pit)

def timeAfter (a b : UInt64) : Bool := (b - a).toBitVec.toInt < 0

def timeBefore (a b : UInt64) : Bool := (a - b).toBitVec.toInt < 0

variable {pit after : Pit} {frequency cycles : ℕ}

/-! ## The divisor -/

theorem pitSetReload_spec (count : ℕ) (fits : count < 2 ^ 16) (pit : Pit) :
    (pitSetReload count pit).stage = .armed ∧ (pitSetReload count pit).reload = count := by
  refine ⟨rfl, ?_⟩
  have bytes : (pitSetReload count pit).reload =
      count % 2 ^ 8 + 256 * (count / 2 ^ 8 % 2 ^ 8) := rfl
  rw [bytes]
  omega

/-- The divisor lies within half a step of the quotient. -/
theorem pitFrequencyDivisor_near (positive : 0 < frequency) :
    2 * pitDivisor ≤ 2 * (frequency * pitFrequencyDivisor frequency) + frequency ∧
      2 * (frequency * pitFrequencyDivisor frequency) ≤ 2 * pitDivisor + frequency := by
  have split := Nat.mod_add_div pitDivisor frequency
  have small := Nat.mod_lt pitDivisor positive
  unfold pitFrequencyDivisor
  split
  · rw [Nat.mul_succ]
    omega
  · omega

/-- No other divisor comes nearer to the frequency. -/
theorem pitFrequencyDivisor_nearest (positive : 0 < frequency) (other : ℕ) :
    |(pitDivisor : ℤ) - frequency * pitFrequencyDivisor frequency| ≤
      |(pitDivisor : ℤ) - frequency * other| := by
  rcases pitFrequencyDivisor_near positive with ⟨below, above⟩
  have split : (frequency : ℤ) * other = frequency * pitFrequencyDivisor frequency +
      frequency * ((other : ℤ) - pitFrequencyDivisor frequency) := by ring
  generalize isError : (pitDivisor : ℤ) - frequency * pitFrequencyDivisor frequency = error
  generalize isSteps : (other : ℤ) - pitFrequencyDivisor frequency = steps at split
  have small : 2 * error ≤ frequency ∧ -(frequency : ℤ) ≤ 2 * error := by
    subst isError
    omega
  have isOther : (pitDivisor : ℤ) - frequency * other = error - frequency * steps := by
    rw [split, ← isError]
    ring
  rw [isOther]
  rcases lt_trichotomy steps 0 with less | none' | more
  · have far : (frequency : ℤ) * steps ≤ -frequency := by nlinarith
    exact (abs_le.mpr ⟨by omega, by omega⟩).trans (le_abs_self _)
  · rw [none', mul_zero, sub_zero]
  · have far : (frequency : ℤ) ≤ frequency * steps := by nlinarith
    exact (abs_le.mpr ⟨by omega, by omega⟩).trans (neg_le_abs _)

/-- The period that is set, as far as 16 bits hold the divisor. -/
theorem period_pitSetFrequency (sets : pitSetFrequency frequency pit = some after) :
    after.stage = .armed ∧ after.period =
      if pitFrequencyDivisor frequency % 2 ^ 16 = 0 then 2 ^ 16
      else pitFrequencyDivisor frequency % 2 ^ 16 := by
  unfold pitSetFrequency at sets
  split at sets
  · cases sets
  · obtain rfl := Option.some.inj sets
    rcases pitSetReload_spec (pitFrequencyDivisor frequency % 2 ^ 16)
      (Nat.mod_lt _ (by decide)) pit with ⟨armed, reload⟩
    exact ⟨armed, by rw [Pit.period, reload]⟩

/-- The divisor is zero exactly from twice the timer's clock on. -/
theorem pitFrequencyDivisor_eq_zero_iff (positive : 0 < frequency) :
    pitFrequencyDivisor frequency = 0 ↔ 2 * pitDivisor ≤ frequency := by
  rcases pitFrequencyDivisor_near positive with ⟨below, above⟩
  constructor
  · intro isZero
    rw [isZero, mul_zero] at below
    omega
  · intro high
    by_contra isSome
    have least : frequency * 1 ≤ frequency * pitFrequencyDivisor frequency :=
      Nat.mul_le_mul_left _ (Nat.one_le_iff_ne_zero.mpr isSome)
    have isDouble : frequency = 2 * pitDivisor := by omega
    rw [isDouble] at isSome
    exact isSome (by decide)

/-- Sixteen bits are too few for the divisor exactly below 19 hertz. -/
theorem pitFrequencyDivisor_ge_iff (positive : 0 < frequency) :
    2 ^ 16 ≤ pitFrequencyDivisor frequency ↔ frequency < 19 := by
  rcases pitFrequencyDivisor_near positive with ⟨below, above⟩
  have value : pitDivisor = 1193182 := rfl
  constructor
  · intro big
    have product : frequency * 2 ^ 16 ≤ frequency * pitFrequencyDivisor frequency :=
      Nat.mul_le_mul_left _ big
    omega
  · intro low
    by_contra small
    have product : frequency * pitFrequencyDivisor frequency ≤ frequency * 65535 :=
      Nat.mul_le_mul_left _ (by omega)
    omega

/-- The period comes nearest to the frequency exactly if the divisor is not zero and fits in the
counter. -/
theorem period_nearest_iff (positive : 0 < frequency)
    (sets : pitSetFrequency frequency pit = some after) :
    (∀ other : ℕ,
      |(pitDivisor : ℤ) - frequency * after.period| ≤ |(pitDivisor : ℤ) - frequency * other|) ↔
      19 ≤ frequency ∧ frequency < 2 * pitDivisor := by
  rcases period_pitSetFrequency sets with ⟨_, period⟩
  rcases pitFrequencyDivisor_near positive with ⟨below, above⟩
  have isZero := pitFrequencyDivisor_eq_zero_iff positive
  have isBig := pitFrequencyDivisor_ge_iff positive
  have value : pitDivisor = 1193182 := rfl
  constructor
  · intro nearest
    have error := nearest (pitFrequencyDivisor frequency)
    have near : 2 * |(pitDivisor : ℤ) - frequency * pitFrequencyDivisor frequency| ≤ frequency := by
      rcases abs_cases ((pitDivisor : ℤ) - frequency * pitFrequencyDivisor frequency) with
        ⟨isAbs, _⟩ | ⟨isAbs, _⟩ <;> omega
    have bounds := abs_le.mp (show |(pitDivisor : ℤ) - frequency * after.period| ≤ frequency / 2 by
      omega)
    have range : 1 ≤ after.period ∧ after.period ≤ 2 ^ 16 := by
      rw [period]
      split <;> omega
    have most : frequency * after.period ≤ frequency * 2 ^ 16 := Nat.mul_le_mul_left _ range.2
    have least : frequency * 1 ≤ frequency * after.period := Nat.mul_le_mul_left _ range.1
    refine ⟨by omega, ?_⟩
    -- A frequency of twice the clock has the divisor zero, which counts from the top.
    by_contra high
    rw [isZero.mpr (Nat.not_lt.mp high)] at period
    rw [period] at bounds
    simp only [Nat.zero_mod, if_true] at bounds
    omega
  · rintro ⟨atLeast, atMost⟩
    have isDivisor : after.period = pitFrequencyDivisor frequency := by
      rw [period, Nat.mod_eq_of_lt (by omega), if_neg (by omega)]
    rw [isDivisor]
    exact pitFrequencyDivisor_nearest positive

/-- The call faults for the frequency zero.  Otherwise the timer is armed, and with the divisor
whose product with the frequency comes nearest to the clock exactly for the frequencies whose
divisor is not zero and fits in 16 bits. -/
theorem pit_frequency_exact_iff (frequency : ℕ) (pit : Pit) :
    (pitSetFrequency frequency pit = none ↔ frequency = 0) ∧
      ∀ after, pitSetFrequency frequency pit = some after → after.stage = .armed ∧
        ((∀ other : ℕ, |(pitDivisor : ℤ) - frequency * after.period| ≤
          |(pitDivisor : ℤ) - frequency * other|) ↔ 19 ≤ frequency ∧ frequency < 2 * pitDivisor) ∧
        (2 ^ 16 ≤ pitFrequencyDivisor frequency ↔ frequency < 19) ∧
        (pitFrequencyDivisor frequency = 0 ↔ 2 * pitDivisor ≤ frequency) := by
  constructor
  · rw [pitSetFrequency, ite_eq_left_iff]
    simp
  · intro after sets
    have positive : 0 < frequency := by
      rw [Nat.pos_iff_ne_zero]
      rintro rfl
      cases sets
    exact ⟨(period_pitSetFrequency sets).1, period_nearest_iff positive sets,
      pitFrequencyDivisor_ge_iff positive, pitFrequencyDivisor_eq_zero_iff positive⟩

theorem pit_frequency_exact_timer : ∃ after : Pit,
    pitSetFrequency timerFrequency ⟨.counting, 0, 0xffff, 9⟩ = some after ∧ ∀ other : ℕ,
      |(pitDivisor : ℤ) - timerFrequency * after.period| ≤
        |(pitDivisor : ℤ) - timerFrequency * other| := by
  have sets : pitSetFrequency timerFrequency ⟨.counting, 0, 0xffff, 9⟩ =
      some ⟨.armed, 169, 1193, 9⟩ := by decide
  rcases (pit_frequency_exact_iff timerFrequency ⟨.counting, 0, 0xffff, 9⟩).2 _ sets with
    ⟨_, exact', _⟩
  exact ⟨_, sets, exact'.mpr ⟨by decide, by decide⟩⟩

/-! ## The interrupts and the uptime -/

/-- The counter shows how far a period has come, and the output has risen once for each period. -/
theorem cycles_armed (armed : pit.stage = .armed) (count : ℕ) :
    pit.cycles (count + 1) =
      ({ pit with
        stage := .counting
        counter := pit.period - count % pit.period }, count / pit.period) := by
  have positive : 0 < pit.period := by
    unfold Pit.period
    split <;> omega
  induction count with
  | zero =>
      rw [Nat.zero_mod, Nat.zero_div]
      simp [Pit.cycles, Pit.cycle, armed]
  | succ count ih =>
      have step : pit.cycles (count + 1 + 1) = ((pit.cycles (count + 1)).1.cycle.1,
          (pit.cycles (count + 1)).2 + (pit.cycles (count + 1)).1.cycle.2.toNat) := rfl
      have samePeriod : ∀ counter, ({ pit with
          stage := .counting
          counter := counter } : Pit).period = pit.period := fun _ => rfl
      rw [step, ih]
      by_cases stays : count % pit.period + 1 < pit.period
      · rcases digit_stays stays with ⟨digit, quotient⟩
        have notLast : ¬pit.period - count % pit.period = 1 := by omega
        have next : pit.period - count % pit.period - 1 =
            pit.period - (count % pit.period + 1) := by omega
        simp only [Pit.cycle, if_neg notLast, digit, quotient, next, Bool.toNat_false,
          Nat.add_zero]
      · rcases digit_carries positive stays with ⟨digit, quotient⟩
        have isLast : pit.period - count % pit.period = 1 := by
          have small := Nat.mod_lt count positive
          omega
        simp only [Pit.cycle, if_pos isLast, samePeriod, digit, quotient, Bool.toNat_true,
          Nat.sub_zero]

theorem initPit_armed (starts : initPit pit = some after) :
    after.stage = .armed ∧ after.period = 1193 := by
  rcases period_pitSetFrequency starts with ⟨armed, period⟩
  exact ⟨armed, period⟩

/-- When every interrupt of the timer is handled, the uptime is the number of whole periods of the
timer's clock, and it runs ahead of the time by 182 parts in 1193182. -/
theorem pit_uptime (starts : initPit pit = some after) (clock : SystemClock) {cycles uptime : ℕ}
    (fits : cycles / 1193 < 2 ^ 64)
    (isUptime : uptime = (uptimeMs (timerHandler^[(after.cycles (cycles + 1)).2]
      (initSystemClock clock))).toNat) :
    uptime = cycles / 1193 ∧
      pitDivisor * uptime ≤ timerFrequency * cycles + 182 * uptime ∧
      timerFrequency * cycles + 182 * uptime < pitDivisor * uptime + 1193 * timerFrequency := by
  rcases initPit_armed starts with ⟨armed, period⟩
  have counted : uptime = cycles / 1193 := by
    rw [isUptime, uptimeMs_iterate, cycles_armed armed, period,
      show (uptimeMs (initSystemClock clock)).toNat = 0 from rfl, Nat.zero_add]
    exact Nat.mod_eq_of_lt fits
  have divisor : pitDivisor = 1193182 := rfl
  have frequency : timerFrequency = 1000 := rfl
  rw [divisor, frequency]
  omega

/-- The cycles of a second. -/
theorem pit_uptime_second : ∃ after uptime : _, initPit ⟨.stopped, 0, 0, 0⟩ = some after ∧
    uptime = (uptimeMs (timerHandler^[(after.cycles (1193182 + 1)).2]
      (initSystemClock ⟨7, ⟨7, 7, 7, 7, 7⟩⟩))).toNat ∧ uptime = 1000 := by
  have starts : initPit ⟨.stopped, 0, 0, 0⟩ = some ⟨.armed, 169, 1193, 0⟩ := by decide
  have fits : 1193182 / 1193 < 2 ^ 64 := by decide
  exact ⟨_, _, starts, rfl, (pit_uptime starts ⟨7, ⟨7, 7, 7, 7, 7⟩⟩ fits rfl).1⟩

/-! ## Times that are compared -/

/-- A difference is negative from half of the range on. -/
theorem timeAfter_iff (a b : UInt64) : timeAfter a b = true ↔ 2 ^ 63 ≤ (b - a).toNat := by
  have small := (b - a).toNat_lt
  rw [timeAfter, decide_eq_true_iff, BitVec.toInt_eq_toNat_cond, UInt64.toNat_toBitVec]
  split <;> omega

theorem timeBefore_eq (a b : UInt64) : timeBefore a b = timeAfter b a := rfl

/-- A deadline is reached after exactly its delay, also when the clock wraps around on the way. -/
theorem deadline_exact (clock : SystemClock) {delay ticks : ℕ} (soon : delay < 2 ^ 63)
    (near : ticks < delay + 2 ^ 63) :
    (timeAfter (uptimeMs (timerHandler^[ticks] clock)) (uptimeMs clock + UInt64.ofNat delay) ↔
        delay < ticks) ∧
      (timeBefore (uptimeMs (timerHandler^[ticks] clock)) (uptimeMs clock + UInt64.ofNat delay) ↔
        ticks < delay) := by
  have now := uptimeMs_iterate clock ticks
  have deadline : (uptimeMs clock + UInt64.ofNat delay).toNat =
      ((uptimeMs clock).toNat + delay) % 2 ^ 64 := by
    have fits : delay < 2 ^ 64 := by omega
    rw [UInt64.toNat_add, UInt64.toNat_ofNat_of_lt' fits]
  have small := (uptimeMs clock).toNat_lt
  rw [timeBefore_eq, timeAfter_iff, timeAfter_iff, UInt64.toNat_sub, UInt64.toNat_sub, now,
    deadline]
  omega

/-- A delay of five milliseconds that starts three before the clock wraps around. -/
theorem deadline_exact_wraps :
    timeAfter (uptimeMs (timerHandler^[6] ⟨0xFFFFFFFFFFFFFFFD, ⟨0, 0, 0, 0, 0⟩⟩))
      (uptimeMs ⟨0xFFFFFFFFFFFFFFFD, ⟨0, 0, 0, 0, 0⟩⟩ + UInt64.ofNat 5) :=
  (deadline_exact ⟨0xFFFFFFFFFFFFFFFD, ⟨0, 0, 0, 0, 0⟩⟩ (by decide) (by decide)).1.mpr (by decide)

end Goshkik

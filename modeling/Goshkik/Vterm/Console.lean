import Goshkik.Cpu.Serial
import Goshkik.Klibc.Printf
import Goshkik.Vterm.Rendering

/-!
# The console

`kputc` of `klibc/printf.c` writes each character to the serial port and then to the screen.  The
characters of `kprintf` do not depend on either, so a call is modelled as the computation of its
output, which then goes through `kputc` in its order.

What is printed reaches the line and the screen as the same text, for any timing of the line.
-/

namespace Goshkik

open SerialController

/-- The serial port and the screen. -/
structure Console where
  serial : Port
  screen : Vterm

/-- A call of `kprintf`: the bytes that its stack holds, its arguments, and memory from the format
on. -/
structure KprintfCall where
  stack : ℕ → ℕ → UInt8
  args : Klibc.VaList
  format : List UInt8

namespace KprintfCall

def state (call : KprintfCall) : Klibc.KprintfState :=
  Klibc.kprintf call.stack call.args call.format

/-- What the call sends to `kputc`. -/
def characters (call : KprintfCall) : List (BitVec 8) :=
  call.state.printing.output.map UInt8.toBitVec

end KprintfCall

namespace Console

variable (schedule : Schedule) (fuel : ℕ) (defaultFont : ℕ → BitVec 8)

def kputc (c : BitVec 8) (console : Console) : Option Console := do
  let serial ← writeSerialChar schedule fuel c console.serial
  let screen ← vtermPutc defaultFont console.screen c
  return ⟨serial, screen⟩

def kprints : List (BitVec 8) → Console → Option Console
  | [], console => some console
  | c :: str, console => (kputc schedule fuel defaultFont c console).bind (kprints str)

def kprintf (call : KprintfCall) (console : Console) : Option (ℤ × Console) := do
  let count ← call.state.result
  let console ← kprints schedule fuel defaultFont call.characters console
  return (count, console)

/-- One call after the other. -/
def kprintfAll : List KprintfCall → Console → Option Console
  | [], console => some console
  | call :: calls, console =>
      (kprintf schedule fuel defaultFont call console).bind (fun printed =>
        kprintfAll calls printed.2)

/-- The screen displays a text, and the registers of the port are those that it writes to. -/
structure Ready (start : Vterm) (text : List (BitVec 8)) (console : Console) : Prop where
  unlatched : console.serial.uart.latched = false
  displays : Displays defaultFont start text console.screen

variable {schedule fuel defaultFont} {start : Vterm} {text : List (BitVec 8)}
  {console after : Console} {more : ℕ}

/-- A character goes to the line and behind the text on the screen. -/
theorem kputc_spec (fits : start.Fits) (ready : console.Ready defaultFont start text)
    {c : BitVec 8} (puts : kputc schedule fuel defaultFont c console = some after) :
    Uart.Carries console.serial.uart after.serial.uart [c] ∧
      after.Ready defaultFont start (text ++ [c]) := by
  simp only [kputc, Option.bind_eq_bind, Option.bind_eq_some_iff, pure, Option.some.injEq] at puts
  rcases puts with ⟨serial, writes, screen, draws, rfl⟩
  have carries := writeSerialChar_spec writes ready.unlatched
  rcases vtermPutc_spec ready.displays fits c with ⟨drawn, isDrawn, displays⟩
  rw [draws] at isDrawn
  cases isDrawn
  exact ⟨carries, (congrArg Setup.latched carries.setup).trans ready.unlatched, displays⟩

theorem kputc_mono {c : BitVec 8} (puts : kputc schedule fuel defaultFont c console = some after)
    (le : fuel ≤ more) : kputc schedule more defaultFont c console = some after := by
  simp only [kputc, Option.bind_eq_bind, Option.bind_eq_some_iff] at puts ⊢
  rcases puts with ⟨serial, writes, draws⟩
  exact ⟨serial, writeSerialChar_mono writes le, draws⟩

theorem kputc_returns (fair : schedule.Fair) (fits : start.Fits)
    (ready : console.Ready defaultFont start text) (c : BitVec 8) :
    ∃ fuel after, kputc schedule fuel defaultFont c console = some after := by
  rcases writeSerialChar_returns fair c console.serial with ⟨fuel, serial, writes⟩
  rcases vtermPutc_spec ready.displays fits c with ⟨screen, draws, -⟩
  exact ⟨fuel, ⟨serial, screen⟩, by simp [kputc, writes, draws]⟩

theorem kprints_mono {str : List (BitVec 8)}
    (prints : kprints schedule fuel defaultFont str console = some after) (le : fuel ≤ more) :
    kprints schedule more defaultFont str console = some after := by
  induction str generalizing console with
  | nil => exact prints
  | cons c str hypothesis =>
      rcases Option.bind_eq_some_iff.mp prints with ⟨middle, puts, rest⟩
      exact Option.bind_eq_some_iff.mpr ⟨middle, kputc_mono puts le, hypothesis rest⟩

/-- A string goes to the line and behind the text on the screen. -/
theorem kprints_spec (fair : schedule.Fair) (fits : start.Fits) (str : List (BitVec 8))
    (ready : console.Ready defaultFont start text) :
    ∃ fuel after, kprints schedule fuel defaultFont str console = some after ∧
      Uart.Carries console.serial.uart after.serial.uart str ∧
      after.Ready defaultFont start (text ++ str) := by
  induction str generalizing text console with
  | nil => exact ⟨0, console, rfl, .refl _, by rwa [List.append_nil]⟩
  | cons c str hypothesis =>
      rcases kputc_returns fair fits ready c with ⟨fuel, middle, puts⟩
      rcases kputc_spec fits ready puts with ⟨one, readyOne⟩
      rcases hypothesis readyOne with ⟨others, after, prints, carries, readyAll⟩
      rw [List.append_assoc] at readyAll
      exact ⟨max fuel others, after, Option.bind_eq_some_iff.mpr ⟨middle,
        kputc_mono puts (Nat.le_max_left fuel others),
        kprints_mono prints (Nat.le_max_right fuel others)⟩, one.trans carries, readyAll⟩

theorem kprintf_mono {call : KprintfCall} {printed : ℤ × Console}
    (prints : kprintf schedule fuel defaultFont call console = some printed) (le : fuel ≤ more) :
    kprintf schedule more defaultFont call console = some printed := by
  simp only [kprintf, Option.bind_eq_bind, Option.bind_eq_some_iff] at prints ⊢
  rcases prints with ⟨count, returns, last, sends, isPrinted⟩
  exact ⟨count, returns, last, kprints_mono sends le, isPrinted⟩

theorem kprintfAll_mono {calls : List KprintfCall}
    (prints : kprintfAll schedule fuel defaultFont calls console = some after) (le : fuel ≤ more) :
    kprintfAll schedule more defaultFont calls console = some after := by
  induction calls generalizing console with
  | nil => exact prints
  | cons call calls hypothesis =>
      rcases Option.bind_eq_some_iff.mp prints with ⟨printed, first, rest⟩
      exact Option.bind_eq_some_iff.mpr ⟨printed, kprintf_mono first le, hypothesis rest⟩

/-- In every run of calls of `kprintf` the line and the screen get the same text, each character
once and in order, for every timing of the line. -/
theorem console_mirrors (fair : schedule.Fair) (fits : start.Fits) (calls : List KprintfCall)
    (ended : ∀ call ∈ calls, call.state.ended = true)
    (ready : console.Ready defaultFont start text) :
    ∃ fuel after, kprintfAll schedule fuel defaultFont calls console = some after ∧
      (console.serial.uart.loops = false → after.serial.uart.sent =
        console.serial.uart.sent ++ calls.flatMap KprintfCall.characters) ∧
      (console.serial.uart.loops = true →
        after.serial.uart.line = console.serial.uart.line) ∧
      Displays defaultFont start (text ++ calls.flatMap KprintfCall.characters) after.screen := by
  suffices printed : ∃ fuel after, kprintfAll schedule fuel defaultFont calls console = some after ∧
      Uart.Carries console.serial.uart after.serial.uart
        (calls.flatMap KprintfCall.characters) ∧
      after.Ready defaultFont start (text ++ calls.flatMap KprintfCall.characters) by
    rcases printed with ⟨fuel, after, prints, carries, readyAll⟩
    exact ⟨fuel, after, prints, carries.outward, carries.cutOff, readyAll.displays⟩
  induction calls generalizing text console with
  | nil => exact ⟨0, console, rfl, .refl _, by rwa [List.flatMap_nil, List.append_nil]⟩
  | cons call calls hypothesis =>
      rcases kprints_spec fair fits call.characters ready with
        ⟨fuel, middle, sends, carries, readyOne⟩
      have returns : kprintf schedule fuel defaultFont call console =
          some (call.state.printing.count, middle) := by
        have result : call.state.result = some call.state.printing.count :=
          if_pos (ended call List.mem_cons_self)
        simp [kprintf, result, sends]
      rcases hypothesis (fun other isOther => ended other (List.mem_cons_of_mem call isOther))
        readyOne with ⟨others, after, prints, rest, readyAll⟩
      rw [List.append_assoc] at readyAll
      exact ⟨max fuel others, after, Option.bind_eq_some_iff.mpr ⟨_,
        kprintf_mono returns (Nat.le_max_left fuel others),
        kprintfAll_mono prints (Nat.le_max_right fuel others)⟩, carries.trans rest, readyAll⟩

/-- `kprintf("A%cC", ..)` on an empty screen with the port as it is after a reset. -/
def letterCall : KprintfCall where
  stack _ _ := 0
  args := { Klibc.VaList.none with slots := fun _ => 66 }
  format := [65, 37, 99, 67, 0]

theorem console_mirrors_letters : ∃ (cleared : Vterm) (fuel : ℕ) (after : Console),
    vtermClear colorBlack smallScreen = some cleared ∧
    kprintfAll (fun _ => [.shifted]) fuel (BitVec.ofNat 8) [letterCall, letterCall]
      ⟨resetPort, cleared⟩ = some after ∧
    after.serial.uart.sent = [65#8, 66#8, 67#8, 65#8, 66#8, 67#8] ∧
    Displays (BitVec.ofNat 8) smallScreen [65#8, 66#8, 67#8, 65#8, 66#8, 67#8] after.screen := by
  have fair : Schedule.Fair (fun _ => [.shifted]) := fun n => ⟨n, Nat.le_refl n, List.mem_cons_self⟩
  rcases @vtermClear_displays (BitVec.ofNat 8) smallScreen smallScreen_fits with
    ⟨cleared, clears, displays⟩
  have unlatched : resetPort.uart.latched = false := by decide
  have opens : resetPort.uart.loops = false := by decide
  have ready : Ready (BitVec.ofNat 8) smallScreen [] ⟨resetPort, cleared⟩ := ⟨unlatched, displays⟩
  have characters : [letterCall, letterCall].flatMap KprintfCall.characters =
      [65#8, 66#8, 67#8, 65#8, 66#8, 67#8] := by decide
  rcases console_mirrors fair smallScreen_fits [letterCall, letterCall] (by decide) ready with
    ⟨fuel, after, prints, outward, -, shows⟩
  rw [characters] at outward shows
  exact ⟨cleared, fuel, after, clears, prints, outward opens, shows⟩

end Console

end Goshkik

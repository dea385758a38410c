import Mathlib.Data.List.Basic
import Mathlib.Tactic.SplitIfs

/-!
# A serial controller

A 16550 sends the characters of its transmitter one by one and collects what arrives in its
receiver; both hold sixteen characters, or one when their queues are off.  In loopback mode the
transmitter feeds the receiver, and the line is cut off.

What the line does is up to its environment: a schedule says which events come before each access
of the processor.  A character counts as sent once it is out on the line or waits for that.
-/

namespace SerialController

/-- The transmitter has passed on a character, or one has arrived. -/
inductive LineEvent where
  | shifted
  | arrived (byte : BitVec 8)
  deriving DecidableEq

/-- The registers that a driver sets up.  `idle` is what a read of the empty receiver gives, and
`other` what one of a register gives that is not modelled. -/
structure Setup where
  divisorLow : BitVec 8
  divisorHigh : BitVec 8
  interruptEnable : BitVec 8
  lineControl : BitVec 8
  modemControl : BitVec 8
  queues : Bool
  idle : BitVec 8
  other : ℕ → BitVec 8

namespace Setup

variable (setup : Setup)

/-- The first two registers are those of the divisor. -/
def latched : Bool := setup.lineControl.getLsbD 7

def loops : Bool := setup.modemControl.getLsbD 4

def depth : ℕ := if setup.queues then 16 else 1

def write (register : ℕ) (byte : BitVec 8) : Setup :=
  match register with
  | 0 => if setup.latched then { setup with divisorLow := byte } else setup
  | 1 =>
      if setup.latched then { setup with divisorHigh := byte }
      else { setup with interruptEnable := byte }
  | 2 => { setup with queues := byte.getLsbD 0 }
  | 3 => { setup with lineControl := byte }
  | 4 => { setup with modemControl := byte }
  | _ => setup

@[simp]
theorem write_zero (byte : BitVec 8) : setup.write 0 byte =
    if setup.latched then { setup with divisorLow := byte } else setup := rfl

@[simp]
theorem write_one (byte : BitVec 8) : setup.write 1 byte =
    if setup.latched then { setup with divisorHigh := byte }
    else { setup with interruptEnable := byte } := rfl

@[simp]
theorem write_two (byte : BitVec 8) :
    setup.write 2 byte = { setup with queues := byte.getLsbD 0 } := rfl

@[simp]
theorem write_three (byte : BitVec 8) :
    setup.write 3 byte = { setup with lineControl := byte } := rfl

@[simp]
theorem write_four (byte : BitVec 8) :
    setup.write 4 byte = { setup with modemControl := byte } := rfl

theorem depth_pos : 0 < setup.depth := by
  unfold depth
  split <;> decide

end Setup

structure Uart extends Setup where
  transmit : List (BitVec 8)
  receive : List (BitVec 8)
  line : List (BitVec 8)

namespace Uart

variable (uart : Uart)

def accept (byte : BitVec 8) : Uart :=
  if uart.receive.length < uart.depth then { uart with receive := uart.receive ++ [byte] } else uart

/-- The transmitter passes on its first character. -/
def shift : Uart :=
  match uart.transmit with
  | [] => uart
  | byte :: waiting =>
      if uart.loops then { uart with transmit := waiting }.accept byte
      else { uart with transmit := waiting, line := uart.line ++ [byte] }

def happen : LineEvent → Uart
  | .shifted => uart.shift
  | .arrived byte => if uart.loops then uart else uart.accept byte

/-- A write to the transmitter. -/
def send (byte : BitVec 8) : Uart :=
  if uart.transmit.length < uart.depth then { uart with transmit := uart.transmit ++ [byte] }
  else uart

/-- A write to the control register of the queues empties them when it switches them on or off, and
when it says so. -/
def controlQueues (byte : BitVec 8) : Uart :=
  let switched := uart.queues != byte.getLsbD 0
  { uart with
    toSetup := uart.toSetup.write 2 byte
    receive := if switched || byte.getLsbD 1 then [] else uart.receive
    transmit := if switched || byte.getLsbD 2 then [] else uart.transmit }

def write (register : ℕ) (byte : BitVec 8) : Uart :=
  if register = 0 ∧ uart.latched = false then uart.send byte
  else if register = 2 then uart.controlQueues byte
  else { uart with toSetup := uart.toSetup.write register byte }

/-- Bit 0 says that a character has arrived, bits 5 and 6 that none waits to be sent. -/
def lineStatus : BitVec 8 :=
  (if uart.receive.isEmpty then 0x00#8 else 0x01#8) |||
    (if uart.transmit.isEmpty then 0x60#8 else 0x00#8)

def read (register : ℕ) : BitVec 8 × Uart :=
  match register with
  | 0 =>
      if uart.latched then (uart.divisorLow, uart)
      else (uart.receive.head?.getD uart.idle, { uart with receive := uart.receive.tail })
  | 1 => (if uart.latched then uart.divisorHigh else uart.interruptEnable, uart)
  | 3 => (uart.lineControl, uart)
  | 4 => (uart.modemControl, uart)
  | 5 => (uart.lineStatus, uart)
  | register => (uart.other register, uart)

/-- What is out on the line or waits for it. -/
def sent : List (BitVec 8) := uart.line ++ uart.transmit

/-- The text has been sent, or the line is cut off; the registers are the same. -/
structure Carries (before after : Uart) (text : List (BitVec 8)) : Prop where
  setup : after.toSetup = before.toSetup
  outward : before.loops = false → after.sent = before.sent ++ text
  cutOff : before.loops = true → after.line = before.line

variable {uart} {before middle after : Uart} {byte : BitVec 8} {first second : List (BitVec 8)}

/-! ## The line -/

@[simp]
theorem accept_toSetup : (uart.accept byte).toSetup = uart.toSetup := by
  unfold accept
  split <;> rfl

@[simp]
theorem accept_transmit : (uart.accept byte).transmit = uart.transmit := by
  unfold accept
  split <;> rfl

@[simp]
theorem accept_line : (uart.accept byte).line = uart.line := by
  unfold accept
  split <;> rfl

/-- Whatever arrives later, the first character of the receiver stays in front. -/
theorem accept_head : (uart.accept byte).receive.head? = uart.receive.head?.or (some byte) := by
  unfold accept
  cases received : uart.receive with
  | nil => simp [uart.depth_pos]
  | cons first rest => split <;> simp [received]

@[simp]
theorem shift_toSetup (uart : Uart) : uart.shift.toSetup = uart.toSetup := by
  unfold shift
  split
  · rfl
  · split
    · exact accept_toSetup
    · rfl

@[simp]
theorem shift_transmit (uart : Uart) : uart.shift.transmit = uart.transmit.tail := by
  unfold shift
  split
  · rename_i isEmpty
    rw [isEmpty, List.tail_nil]
  · rename_i byte waiting transmits
    rw [transmits, List.tail_cons]
    split
    · exact accept_transmit
    · rfl

@[simp]
theorem happen_toSetup (uart : Uart) (event : LineEvent) :
    (uart.happen event).toSetup = uart.toSetup := by
  cases event with
  | shifted => exact shift_toSetup uart
  | arrived byte =>
      change (if uart.loops then uart else uart.accept byte).toSetup = uart.toSetup
      split
      · rfl
      · exact accept_toSetup

theorem Carries.refl (uart : Uart) : Carries uart uart [] :=
  ⟨rfl, fun _ => (List.append_nil _).symm, fun _ => rfl⟩

theorem Carries.loops {text : List (BitVec 8)} (carries : Carries before after text) :
    after.loops = before.loops := congrArg Setup.loops carries.setup

theorem Carries.trans (start : Carries before middle first) (rest : Carries middle after second) :
    Carries before after (first ++ second) where
  setup := rest.setup.trans start.setup
  outward opens := by
    rw [rest.outward (start.loops.trans opens), start.outward opens, List.append_assoc]
  cutOff closed := (rest.cutOff (start.loops.trans closed)).trans (start.cutOff closed)

theorem shift_carries (uart : Uart) : Carries uart uart.shift [] := by
  refine ⟨shift_toSetup uart, fun opens => ?_, fun closed => ?_⟩
  · unfold sent shift
    cases transmits : uart.transmit <;> simp [transmits, opens]
  · unfold shift
    cases uart.transmit <;> simp [closed]

/-- What happens on the line loses and adds nothing. -/
theorem happen_carries (uart : Uart) (event : LineEvent) : Carries uart (uart.happen event) [] := by
  cases event with
  | shifted => exact shift_carries uart
  | arrived byte =>
      change Carries uart (if uart.loops then uart else uart.accept byte) []
      split
      · exact .refl uart
      · refine ⟨accept_toSetup, fun _ => ?_, fun _ => accept_line⟩
        rw [sent, sent, accept_line, accept_transmit, List.append_nil]

theorem happen_transmit (uart : Uart) (event : LineEvent) :
    (uart.happen event).transmit =
      if event = .shifted then uart.transmit.tail else uart.transmit := by
  cases event with
  | shifted => exact shift_transmit uart
  | arrived byte =>
      change (if uart.loops then uart else uart.accept byte).transmit = uart.transmit
      split
      · rfl
      · exact accept_transmit

/-! ## Accesses -/

/-- A character for the empty transmitter is sent. -/
theorem send_carries (empty : uart.transmit = []) (byte : BitVec 8) :
    Carries uart (uart.send byte) [byte] := by
  have room : uart.transmit.length < uart.depth := by
    rw [empty]
    exact uart.depth_pos
  rw [send, if_pos room]
  refine ⟨rfl, fun _ => ?_, fun _ => rfl⟩
  simp only [sent, List.append_assoc]

theorem lineStatus_empty : uart.lineStatus &&& 0x20#8 = 0#8 ↔ uart.transmit ≠ [] := by
  unfold lineStatus
  cases uart.transmit <;> cases uart.receive <;> simp

@[simp]
theorem write_toSetup (register : ℕ) (byte : BitVec 8) :
    (uart.write register byte).toSetup = uart.toSetup.write register byte := by
  unfold write
  split
  · rename_i sends
    rw [sends.1, send, Setup.write_zero, sends.2]
    split <;> rfl
  · split
    · rename_i isTwo
      rw [isTwo]
      rfl
    · rfl

end Uart

/-- What arrives among the events. -/
def arrivals (events : List LineEvent) : List (BitVec 8) :=
  events.filterMap (fun event => match event with
    | .arrived byte => some byte
    | .shifted => none)

/-- The events before each access. -/
abbrev Schedule := ℕ → List LineEvent

/-- The transmitter gets on again and again. -/
def Schedule.Fair (schedule : Schedule) : Prop := ∀ n, ∃ m ≥ n, .shifted ∈ schedule m

/-- The controller as the processor accesses it, with the number of accesses so far. -/
structure Port where
  uart : Uart
  accesses : ℕ

namespace Port

variable (schedule : Schedule) (port : Port)

/-- The controller at the next access. -/
def reached : Uart := (schedule port.accesses).foldl Uart.happen port.uart

def outb (register : ℕ) (byte : BitVec 8) : Port :=
  ⟨(port.reached schedule).write register byte, port.accesses + 1⟩

def inb (register : ℕ) : BitVec 8 × Port :=
  let answer := (port.reached schedule).read register
  (answer.1, ⟨answer.2, port.accesses + 1⟩)

variable {schedule port}

theorem foldl_carries (uart : Uart) (events : List LineEvent) :
    Uart.Carries uart (events.foldl Uart.happen uart) [] := by
  induction events generalizing uart with
  | nil => exact .refl uart
  | cons event events hypothesis =>
      exact (uart.happen_carries event).trans (hypothesis (uart.happen event))

/-- Until the next access the line gets nothing new. -/
theorem reached_carries (schedule : Schedule) (port : Port) :
    Uart.Carries port.uart (port.reached schedule) [] :=
  foldl_carries port.uart (schedule port.accesses)

theorem foldl_transmit (uart : Uart) (events : List LineEvent) :
    (events.foldl Uart.happen uart).transmit =
      uart.transmit.drop (events.count .shifted) := by
  induction events generalizing uart with
  | nil => rfl
  | cons event events hypothesis =>
      rw [List.foldl_cons, hypothesis, Uart.happen_transmit, List.count_cons]
      by_cases isShift : event = .shifted
      · simp [isShift, List.drop_tail]
      · simp [isShift]

theorem reached_transmit (schedule : Schedule) (port : Port) :
    (port.reached schedule).transmit =
      port.uart.transmit.drop ((schedule port.accesses).count .shifted) :=
  foldl_transmit port.uart (schedule port.accesses)

/-- As long as nothing is to be sent, the receiver gets what arrives on the line. -/
theorem foldl_head_idle {uart : Uart} (empty : uart.transmit = []) (events : List LineEvent) :
    (events.foldl Uart.happen uart).receive.head? =
      uart.receive.head?.or (if uart.loops then none else (arrivals events).head?) := by
  induction events generalizing uart with
  | nil => cases uart.loops <;> simp [arrivals]
  | cons event events hypothesis =>
      have still : (uart.happen event).transmit = [] := by
        rw [Uart.happen_transmit, empty, List.tail_nil, ite_self]
      have sameLoops : (uart.happen event).loops = uart.loops :=
        congrArg Setup.loops (Uart.happen_toSetup uart event)
      rw [List.foldl_cons, hypothesis still, sameLoops]
      cases event with
      | shifted =>
          have same : uart.happen .shifted = uart := by
            change uart.shift = uart
            unfold Uart.shift
            rw [empty]
          rw [same]
          rfl
      | arrived byte =>
          have accepts : uart.happen (.arrived byte) =
            if uart.loops then uart else uart.accept byte := rfl
          rw [accepts]
          cases uart.loops with
          | true => rfl
          | false => simp [Uart.accept_head, arrivals]

/-- In loopback mode the receiver gets the character that is to be sent. -/
theorem foldl_head_looped {uart : Uart} {byte : BitVec 8} (waits : uart.transmit = [byte])
    (loops : uart.loops = true) (events : List LineEvent) :
    (events.foldl Uart.happen uart).receive.head? =
      uart.receive.head?.or (if .shifted ∈ events then some byte else none) := by
  induction events with
  | nil => simp
  | cons event events hypothesis =>
      cases event with
      | shifted =>
          have passes : uart.happen .shifted = { uart with transmit := [] }.accept byte := by
            change uart.shift = _
            unfold Uart.shift
            rw [waits]
            exact if_pos loops
          have sameLoops : (uart.happen .shifted).loops = true :=
            (congrArg Setup.loops (Uart.happen_toSetup uart .shifted)).trans loops
          have empty : (uart.happen .shifted).transmit = [] := by
            rw [Uart.happen_transmit, waits]
            rfl
          rw [List.foldl_cons, foldl_head_idle empty, sameLoops, passes, Uart.accept_head]
          simp
      | arrived other =>
          have same : uart.happen (.arrived other) = uart := if_pos loops
          rw [List.foldl_cons, same, hypothesis]
          simp

theorem outb_toSetup (register : ℕ) (byte : BitVec 8) :
    (port.outb schedule register byte).uart.toSetup =
      port.uart.toSetup.write register byte := by
  rw [outb, Uart.write_toSetup, (reached_carries schedule port).setup]

end Port

end SerialController

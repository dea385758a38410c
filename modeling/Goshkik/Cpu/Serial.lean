import Goshkik.Lib.SerialController

/-!
# The serial port

This file models `arch/x86_64/serial/serial.c`.  Its ports are the registers of the controller at
`SERIAL_PORT`, so that `outb(SERIAL_PORT + k, ..)` is a write to register `k`.

`init_serial` also prints, which the console does; here are its accesses to the port.
-/

namespace Goshkik

open SerialController

/-- The loop of `write_serial_char`. -/
def awaitTransmitter (schedule : Schedule) : ℕ → Port → Option Port
  | 0, _ => none
  | fuel + 1, port =>
      let (status, port) := port.inb schedule 5
      if status &&& 0x20#8 = 0#8 then awaitTransmitter schedule fuel port else some port

def writeSerialChar (schedule : Schedule) (fuel : ℕ) (data : BitVec 8) (port : Port) :
    Option Port := do
  let port ← awaitTransmitter schedule fuel port
  return port.outb schedule 0 data

/-- The characters up to the terminating zero. -/
def writeSerial (schedule : Schedule) (fuel : ℕ) : List (BitVec 8) → Port → Option Port
  | [], port => some port
  | data :: string, port =>
      (writeSerialChar schedule fuel data port).bind (writeSerial schedule fuel string)

/-- The writes of `init_serial` up to the one that empties the queues. -/
def serialSetup : List (ℕ × BitVec 8) :=
  [(1, 0x00#8), (3, 0x80#8), (0, 0x03#8), (1, 0x00#8), (3, 0x03#8), (2, 0xC7#8)]

def outbs (schedule : Schedule) (writes : List (ℕ × BitVec 8)) (port : Port) : Port :=
  writes.foldl (fun port write => port.outb schedule write.1 write.2) port

/-- The writes that start the test in loopback mode. -/
def serialTest : List (ℕ × BitVec 8) := [(4, 0x0B#8), (4, 0x1E#8), (0, 0xAE#8)]

/-- The accesses of `init_serial`, and whether the test has succeeded. -/
def initSerialPort (schedule : Schedule) (port : Port) : Bool × Port :=
  let port := outbs schedule serialTest (outbs schedule serialSetup port)
  let (answer, port) := port.inb schedule 0
  if answer ≠ 0xAE#8 then (false, port) else (true, port.outb schedule 4 0x0F#8)

variable {schedule : Schedule} {port after : Port} {fuel more : ℕ} {data : BitVec 8}

/-! ## Writing -/

theorem awaitTransmitter_succ (schedule : Schedule) (fuel : ℕ) (port : Port) :
    awaitTransmitter schedule (fuel + 1) port =
      if (port.reached schedule).transmit = [] then
        some ⟨port.reached schedule, port.accesses + 1⟩
      else awaitTransmitter schedule fuel ⟨port.reached schedule, port.accesses + 1⟩ := by
  change (if (port.reached schedule).lineStatus &&& 0x20#8 = 0#8 then _ else _) = _
  by_cases empty : (port.reached schedule).transmit = []
  · rw [if_neg (by rw [Uart.lineStatus_empty]; exact not_not.mpr empty), if_pos empty]
    rfl
  · rw [if_pos (Uart.lineStatus_empty.mpr empty), if_neg empty]
    rfl

theorem awaitTransmitter_spec (waits : awaitTransmitter schedule fuel port = some after) :
    Uart.Carries port.uart after.uart [] ∧ after.uart.transmit = [] := by
  induction fuel generalizing port with
  | zero => cases waits
  | succ fuel hypothesis =>
      have reached := Port.reached_carries schedule port
      rw [awaitTransmitter_succ] at waits
      split at waits
      · rename_i empty
        cases waits
        exact ⟨reached, empty⟩
      · rcases hypothesis waits with ⟨carries, empty⟩
        exact ⟨reached.trans carries, empty⟩

theorem awaitTransmitter_mono (waits : awaitTransmitter schedule fuel port = some after)
    (le : fuel ≤ more) : awaitTransmitter schedule more port = some after := by
  induction fuel generalizing port more with
  | zero => cases waits
  | succ fuel hypothesis =>
      obtain ⟨more, rfl⟩ : ∃ rest, more = rest + 1 := ⟨more - 1, by omega⟩
      rw [awaitTransmitter_succ] at waits ⊢
      split at waits
      · rename_i empty
        rw [if_pos empty]
        exact waits
      · rename_i busy
        rw [if_neg busy]
        exact hypothesis waits (by omega)

/-- The loop ends if it does from the next access on. -/
theorem awaitTransmitter_next
    (later : ∃ fuel after, awaitTransmitter schedule fuel
      ⟨port.reached schedule, port.accesses + 1⟩ = some after) :
    ∃ fuel after, awaitTransmitter schedule fuel port = some after := by
  rcases later with ⟨fuel, after, waits⟩
  by_cases empty : (port.reached schedule).transmit = []
  · exact ⟨1, _, by rw [awaitTransmitter_succ, if_pos empty]⟩
  · exact ⟨fuel + 1, after, by rw [awaitTransmitter_succ, if_neg empty, waits]⟩

/-- The loop ends.  The outer induction is on the characters in front, the inner one on the accesses
until the next of them gets on. -/
theorem awaitTransmitter_returns (fair : schedule.Fair) (waiting : ℕ) (port : Port)
    (bound : port.uart.transmit.length ≤ waiting) :
    ∃ fuel after, awaitTransmitter schedule fuel port = some after := by
  induction waiting generalizing port with
  | zero =>
      refine ⟨1, ⟨port.reached schedule, port.accesses + 1⟩, ?_⟩
      rw [awaitTransmitter_succ, if_pos]
      rw [Port.reached_transmit, List.length_eq_zero_iff.mp (Nat.le_zero.mp bound), List.drop_nil]
  | succ waiting shorter =>
      rcases fair port.accesses with ⟨next, later, shifts⟩
      obtain ⟨distance, rfl⟩ : ∃ distance, next = port.accesses + distance :=
        ⟨next - port.accesses, by omega⟩
      clear later
      induction distance generalizing port with
      | zero =>
          have once := List.one_le_count_iff.mpr shifts
          rw [Nat.add_zero] at once
          apply awaitTransmitter_next
          apply shorter
          rw [Port.reached_transmit, List.length_drop]
          omega
      | succ distance nearer =>
          have still : (port.reached schedule).transmit.length ≤ waiting + 1 := by
            rw [Port.reached_transmit, List.length_drop]
            omega
          apply awaitTransmitter_next
          apply nearer _ still
          rwa [Nat.add_assoc, Nat.add_comm 1]

theorem outb_send (empty : port.uart.transmit = []) (open' : port.uart.latched = false) :
    Uart.Carries port.uart (port.outb schedule 0 data).uart [data] := by
  have reached := Port.reached_carries schedule port
  have still : (port.reached schedule).transmit = [] := by
    rw [Port.reached_transmit, empty, List.drop_nil]
  have unlatched : (port.reached schedule).latched = false :=
    (congrArg Setup.latched reached.setup).trans open'
  have sends : (port.outb schedule 0 data).uart = (port.reached schedule).send data :=
    if_pos ⟨rfl, unlatched⟩
  rw [sends]
  exact reached.trans (Uart.send_carries still data)

/-- The character is sent once, behind those before. -/
theorem writeSerialChar_spec (writes : writeSerialChar schedule fuel data port = some after)
    (unlatched : port.uart.latched = false) : Uart.Carries port.uart after.uart [data] := by
  simp only [writeSerialChar, Option.bind_eq_bind, Option.bind_eq_some_iff, pure,
    Option.some.injEq] at writes
  rcases writes with ⟨ready, waits, rfl⟩
  rcases awaitTransmitter_spec waits with ⟨carries, empty⟩
  exact carries.trans (outb_send empty ((congrArg Setup.latched carries.setup).trans unlatched))

theorem writeSerialChar_mono (writes : writeSerialChar schedule fuel data port = some after)
    (le : fuel ≤ more) : writeSerialChar schedule more data port = some after := by
  simp only [writeSerialChar, Option.bind_eq_bind, Option.bind_eq_some_iff] at writes ⊢
  rcases writes with ⟨ready, waits, sends⟩
  exact ⟨ready, awaitTransmitter_mono waits le, sends⟩

theorem writeSerialChar_returns (fair : schedule.Fair) (data : BitVec 8) (port : Port) :
    ∃ fuel after, writeSerialChar schedule fuel data port = some after := by
  rcases awaitTransmitter_returns fair _ port (Nat.le_refl _) with ⟨fuel, ready, waits⟩
  exact ⟨fuel, _, by rw [writeSerialChar, waits]; rfl⟩

/-! ## The test -/

/-- The byte that `init_serial` reads: the first one that has arrived since the queues were emptied,
be it from the line, as long as that is not cut off, or from the transmitter. -/
def firstReceived (schedule : Schedule) (port : Port) : BitVec 8 :=
  (((if port.uart.loops then none else (arrivals (schedule (port.accesses + 6))).head?).or
    (arrivals (schedule (port.accesses + 7))).head?).or
      (if .shifted ∈ schedule (port.accesses + 9) then some 0xAE#8 else none)).getD port.uart.idle

theorem outbs_toSetup (writes : List (ℕ × BitVec 8)) (port : Port) :
    (outbs schedule writes port).uart.toSetup =
      writes.foldl (fun setup write => setup.write write.1 write.2) port.uart.toSetup := by
  induction writes generalizing port with
  | nil => rfl
  | cons write writes hypothesis =>
      refine (hypothesis (port.outb schedule write.1 write.2)).trans ?_
      rw [Port.outb_toSetup]
      rfl

theorem outbs_accesses (writes : List (ℕ × BitVec 8)) (port : Port) :
    (outbs schedule writes port).accesses = port.accesses + writes.length := by
  induction writes generalizing port with
  | nil => rfl
  | cons write writes hypothesis =>
      refine (hypothesis _).trans ?_
      change port.accesses + 1 + writes.length = _
      rw [List.length_cons]
      omega

/-- The port is set up for 38400 baud and eight bits of data.  If the registers of the divisor are
the first ones from before, then the interrupts stay as they are. -/
theorem serialSetup_toSetup (setup : Setup) :
    serialSetup.foldl (fun setup write => setup.write write.1 write.2) setup =
      { setup with
        divisorLow := 0x03#8
        divisorHigh := 0x00#8
        interruptEnable := if setup.latched then setup.interruptEnable else 0x00#8
        lineControl := 0x03#8
        queues := true } := by
  simp only [serialSetup, List.foldl_cons, List.foldl_nil, Setup.write_zero, Setup.write_one,
    Setup.write_two, Setup.write_three]
  split <;> simp [Setup.latched]

/-- The last write empties both queues. -/
theorem serialSetup_empty (schedule : Schedule) (port : Port) :
    (outbs schedule serialSetup port).uart.transmit = [] ∧
      (outbs schedule serialSetup port).uart.receive = [] := by
  have emptied : ∀ uart : Uart, (uart.write 2 0xC7#8).transmit = [] ∧
      (uart.write 2 0xC7#8).receive = [] := by
    intro uart
    simp [Uart.write, Uart.controlQueues]
  have lastWrite : outbs schedule serialSetup port =
      (outbs schedule serialSetup.dropLast port).outb schedule 2 0xC7#8 := rfl
  rw [lastWrite]
  exact emptied ((outbs schedule serialSetup.dropLast port).reached schedule)

/-- A write to the modem control register when nothing is to be sent. -/
theorem outb_modemControl (empty : port.uart.transmit = []) (byte : BitVec 8) :
    (port.outb schedule 4 byte).uart.transmit = [] ∧
      (port.outb schedule 4 byte).uart.toSetup = port.uart.toSetup.write 4 byte ∧
      (port.outb schedule 4 byte).uart.receive.head? = port.uart.receive.head?.or
        (if port.uart.loops then none else (arrivals (schedule port.accesses)).head?) := by
  refine ⟨?_, Port.outb_toSetup 4 byte, Port.foldl_head_idle empty (schedule port.accesses)⟩
  change (port.reached schedule).transmit = []
  rw [Port.reached_transmit, empty, List.drop_nil]

/-- A write to the transmitter in loopback mode when nothing is to be sent. -/
theorem outb_looped (empty : port.uart.transmit = []) (unlatched : port.uart.latched = false)
    (loops : port.uart.loops = true) (byte : BitVec 8) :
    (port.outb schedule 0 byte).uart.transmit = [byte] ∧
      (port.outb schedule 0 byte).uart.toSetup = port.uart.toSetup ∧
      (port.outb schedule 0 byte).uart.receive.head? = port.uart.receive.head? := by
  have setup := (Port.reached_carries schedule port).setup
  have still : (port.reached schedule).transmit = [] := by
    rw [Port.reached_transmit, empty, List.drop_nil]
  have sends : (port.outb schedule 0 byte).uart =
      { port.reached schedule with transmit := (port.reached schedule).transmit ++ [byte] } := by
    refine (if_pos ⟨rfl, (congrArg Setup.latched setup).trans unlatched⟩).trans (if_pos ?_)
    rw [still]
    exact Setup.depth_pos _
  rw [sends, still]
  refine ⟨rfl, setup, ?_⟩
  have same := @Port.foldl_head_idle port.uart empty (schedule port.accesses)
  rw [loops, if_pos rfl, Option.or_none] at same
  exact same

/-- The test character waits in loopback mode. -/
theorem serialTest_spec (empty : port.uart.transmit = []) (unlatched : port.uart.latched = false) :
    (outbs schedule serialTest port).uart.transmit = [0xAE#8] ∧
      (outbs schedule serialTest port).uart.toSetup = port.uart.toSetup.write 4 0x1E#8 ∧
      (outbs schedule serialTest port).uart.receive.head? =
        (port.uart.receive.head?.or
          (if port.uart.loops then none else (arrivals (schedule port.accesses)).head?)).or
          (arrivals (schedule (port.accesses + 1))).head? := by
  rcases @outb_modemControl schedule port empty 0x0B#8 with ⟨firstEmpty, firstSetup, firstHead⟩
  have nextAccess : (port.outb schedule 4 0x0B#8).accesses = port.accesses + 1 := rfl
  have steps : outbs schedule serialTest port =
      ((port.outb schedule 4 0x0B#8).outb schedule 4 0x1E#8).outb schedule 0 0xAE#8 := rfl
  rw [steps]
  generalize port.outb schedule 4 0x0B#8 = first at firstEmpty firstSetup firstHead nextAccess ⊢
  rcases @outb_modemControl schedule first firstEmpty 0x1E#8 with
    ⟨secondEmpty, secondSetup, secondHead⟩
  generalize first.outb schedule 4 0x1E#8 = second at secondEmpty secondSetup secondHead ⊢
  have opens : first.uart.loops = false := by
    simp [firstSetup, Setup.loops]
  have loops : second.uart.loops = true := by
    simp [secondSetup, Setup.loops]
  have stillOff : second.uart.latched = false := by
    have same := congrArg Setup.latched secondSetup
    rw [firstSetup] at same
    exact same.trans unlatched
  rcases @outb_looped schedule second secondEmpty stillOff loops 0xAE#8 with
    ⟨transmits, setup, head⟩
  refine ⟨transmits, ?_, ?_⟩
  · rw [setup, secondSetup, firstSetup]
    rfl
  · rw [head, secondHead, firstHead, opens, nextAccess]
    rfl

/-- Which byte the test reads, and what the port is set up for behind it. -/
theorem initSerialPort_spec (schedule : Schedule) (port : Port) :
    ((initSerialPort schedule port).1 = true ↔ firstReceived schedule port = 0xAE#8) ∧
      (initSerialPort schedule port).2.uart.toSetup =
        { port.uart.toSetup with
          divisorLow := 0x03#8
          divisorHigh := 0x00#8
          interruptEnable := if port.uart.latched then port.uart.interruptEnable else 0x00#8
          lineControl := 0x03#8
          modemControl := if (initSerialPort schedule port).1 then 0x0F#8 else 0x1E#8
          queues := true } := by
  have setup := (@outbs_toSetup schedule serialSetup port).trans
    (serialSetup_toSetup port.uart.toSetup)
  have accesses : (outbs schedule serialSetup port).accesses = port.accesses + 6 :=
    outbs_accesses serialSetup port
  rcases serialSetup_empty schedule port with ⟨empty, noneYet⟩
  generalize isReady : outbs schedule serialSetup port = ready at setup accesses empty noneYet
  have unlatched : ready.uart.latched = false := by
    simp [setup, Setup.latched]
  have later := @outbs_accesses schedule serialTest ready
  rcases @serialTest_spec schedule ready empty unlatched with ⟨waits, testSetup, head⟩
  generalize isTested : outbs schedule serialTest ready = tested at later waits testSetup head
  have loops : tested.uart.loops = true := by
    simp [testSetup, Setup.loops]
  have sameSetup : (tested.reached schedule).toSetup = tested.uart.toSetup :=
    (Port.reached_carries schedule tested).setup
  have stillOff : (tested.reached schedule).latched = false := by
    simp [sameSetup, testSetup, setup, Setup.latched]
  have sameIdle : (tested.reached schedule).idle = port.uart.idle := by
    simp [sameSetup, testSetup, setup]
  obtain ⟨read, answers, readSetup⟩ : ∃ read : Port, tested.inb schedule 0 =
      ((tested.reached schedule).receive.head?.getD (tested.reached schedule).idle, read) ∧
        read.uart.toSetup = tested.uart.toSetup :=
    ⟨⟨{ tested.reached schedule with receive := (tested.reached schedule).receive.tail },
      tested.accesses + 1⟩, by simp [Port.inb, Uart.read, stillOff], sameSetup⟩
  have first : (tested.reached schedule).receive.head?.getD (tested.reached schedule).idle =
      firstReceived schedule port := by
    have looped := Port.foldl_head_looped waits loops (schedule tested.accesses)
    have sameLoops : ready.uart.loops = port.uart.loops := by
      simp [setup, Setup.loops]
    rw [sameIdle, firstReceived]
    refine congrArg (Option.getD · port.uart.idle) (looped.trans ?_)
    rw [head, noneYet, later, accesses, sameLoops]
    rfl
  have result : initSerialPort schedule port =
      if firstReceived schedule port ≠ 0xAE#8 then (false, read)
      else (true, read.outb schedule 4 0x0F#8) := by
    simp only [initSerialPort, isReady, isTested, answers, first]
  by_cases echoes : firstReceived schedule port = 0xAE#8
  · rw [if_neg (not_not.mpr echoes)] at result
    rw [result]
    refine ⟨⟨fun _ => echoes, fun _ => rfl⟩, ?_⟩
    rw [Port.outb_toSetup, readSetup, testSetup, setup]
    rfl
  · rw [if_pos echoes] at result
    rw [result]
    refine ⟨⟨fun ends => absurd ends Bool.false_ne_true, fun same => absurd same echoes⟩, ?_⟩
    rw [readSetup, testSetup, setup]
    rfl

/-! ## Writing behind the set-up -/

theorem writeSerial_spec {string : List (BitVec 8)}
    (writes : writeSerial schedule fuel string port = some after)
    (unlatched : port.uart.latched = false) : Uart.Carries port.uart after.uart string := by
  induction string generalizing port with
  | nil =>
      cases writes
      exact .refl _
  | cons data string hypothesis =>
      rcases Option.bind_eq_some_iff.mp writes with ⟨middle, first, rest⟩
      have carries := writeSerialChar_spec first unlatched
      exact carries.trans (hypothesis rest ((congrArg Setup.latched carries.setup).trans unlatched))

theorem writeSerial_mono {string : List (BitVec 8)}
    (writes : writeSerial schedule fuel string port = some after) (le : fuel ≤ more) :
    writeSerial schedule more string port = some after := by
  induction string generalizing port with
  | nil => exact writes
  | cons data string hypothesis =>
      rcases Option.bind_eq_some_iff.mp writes with ⟨middle, first, rest⟩
      exact Option.bind_eq_some_iff.mpr ⟨middle, writeSerialChar_mono first le, hypothesis rest⟩

theorem writeSerial_returns (fair : schedule.Fair) (string : List (BitVec 8)) (port : Port) :
    ∃ fuel after, writeSerial schedule fuel string port = some after := by
  induction string generalizing port with
  | nil => exact ⟨0, port, rfl⟩
  | cons data string hypothesis =>
      rcases writeSerialChar_returns fair data port with ⟨fuel, middle, first⟩
      rcases hypothesis middle with ⟨others, after, rest⟩
      exact ⟨max fuel others, after, Option.bind_eq_some_iff.mpr ⟨middle,
        writeSerialChar_mono first (Nat.le_max_left fuel others),
        writeSerial_mono rest (Nat.le_max_right fuel others)⟩⟩

/-- `init_serial` succeeds exactly if the first byte that has arrived since it emptied the queues is
the test character.  Then a string goes out on the line behind what went before, and otherwise
nothing ever does, however the line is scheduled.  The loops end with a transmitter that gets on
again and again. -/
theorem serial_line_exact (schedule : Schedule) (port : Port) (string : List (BitVec 8)) :
    ((initSerialPort schedule port).1 = true ↔ firstReceived schedule port = 0xAE#8) ∧
      (∀ fuel after,
        writeSerial schedule fuel string (initSerialPort schedule port).2 = some after →
          (firstReceived schedule port = 0xAE#8 →
            after.uart.sent = (initSerialPort schedule port).2.uart.sent ++ string) ∧
          (firstReceived schedule port ≠ 0xAE#8 →
            after.uart.line = (initSerialPort schedule port).2.uart.line)) ∧
      (schedule.Fair → ∃ fuel after,
        writeSerial schedule fuel string (initSerialPort schedule port).2 = some after) := by
  rcases initSerialPort_spec schedule port with ⟨succeeds, setup⟩
  generalize initSerialPort schedule port = done at succeeds setup
  have unlatched : done.2.uart.latched = false := by
    simp [setup, Setup.latched]
  refine ⟨succeeds, ?_, fun fair => writeSerial_returns fair string done.2⟩
  intro fuel after writes
  have carries := writeSerial_spec writes unlatched
  refine ⟨fun echoes => carries.outward ?_, fun differs => carries.cutOff ?_⟩
  · simp [setup, Setup.loops, succeeds.mpr echoes]
  · have failed : done.1 = false := by
      rw [← Bool.not_eq_true, succeeds]
      exact differs
    simp [setup, Setup.loops, failed]

/-- A port as it may be before. -/
def resetPort : Port where
  uart :=
    { divisorLow := 0x01#8
      divisorHigh := 0x00#8
      interruptEnable := 0x00#8
      lineControl := 0x03#8
      modemControl := 0x00#8
      queues := false
      idle := 0x00#8
      other := fun _ => 0x00#8
      transmit := []
      receive := []
      line := [] }
  accesses := 0

/-- With a transmitter that gets on before each access, what is written goes out. -/
theorem serial_line_exact_reset : ∃ fuel after,
    writeSerial (fun _ => [.shifted]) fuel [0x4F#8, 0x4B#8]
      (initSerialPort (fun _ => [.shifted]) resetPort).2 = some after ∧
    after.uart.sent = (initSerialPort (fun _ => [.shifted]) resetPort).2.uart.sent ++
      [0x4F#8, 0x4B#8] := by
  have fair : Schedule.Fair (fun _ => [.shifted]) := fun n => ⟨n, Nat.le_refl n, List.mem_cons_self⟩
  rcases serial_line_exact (fun _ => [.shifted]) resetPort [0x4F#8, 0x4B#8] with
    ⟨_, sends, returns⟩
  rcases returns fair with ⟨fuel, after, writes⟩
  exact ⟨fuel, after, writes, (sends fuel after writes).1 (by decide)⟩

end Goshkik

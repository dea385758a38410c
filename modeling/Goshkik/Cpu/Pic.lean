import Goshkik.Lib.InterruptController

/-!
# The interrupt controllers

This file models `arch/x86_64/cpu/pic/pic.c` and what `irq_handler` does with the controllers.  The
functions write to the ports of two controllers in cascade; over a whole run they keep a set of
enabled lines, every interrupt comes from an enabled line that has been requested, and its end goes
to that line.  `pic_unmask_irq` does not open the wire between the controllers, so a line of the
second one stays silent until line 2 is unmasked too.
-/

namespace Goshkik

open InterruptController Transition

def pic1Command : ℕ := 0x20

def pic1Data : ℕ := 0x21

def pic2Command : ℕ := 0xA0

def pic2Data : ℕ := 0xA1

def icw1Init : BitVec 8 := 0x10

def icw1Icw4 : BitVec 8 := 0x01

def icw48086 : BitVec 8 := 0x01

/-- `outb` to a port of the controllers. -/
def picOutb (port : ℕ) (value : BitVec 8) (pair : Pair) : Pair :=
  if port = pic1Command then { pair with master := pair.master.writeCommand value }
  else if port = pic1Data then { pair with master := pair.master.writeData value }
  else if port = pic2Command then { pair with slave := pair.slave.writeCommand value }
  else if port = pic2Data then { pair with slave := pair.slave.writeData value }
  else pair

/-- `inb` from a port of the controllers: the requests at a command port and the mask at a data
port. -/
def picInb (port : ℕ) (pair : Pair) : BitVec 8 :=
  if port = pic1Command then pair.master.irr
  else if port = pic1Data then pair.master.imr
  else if port = pic2Command then pair.slave.irr
  else if port = pic2Data then pair.slave.imr
  else 0xFF

def picRemap (offset1 offset2 : BitVec 8) (pair : Pair) : Pair :=
  let pair := picOutb pic1Command (icw1Init ||| icw1Icw4) pair
  let pair := picOutb pic2Command (icw1Init ||| icw1Icw4) pair
  let pair := picOutb pic1Data offset1 pair
  let pair := picOutb pic2Data offset2 pair
  let pair := picOutb pic1Data 0x04 pair
  let pair := picOutb pic2Data 0x02 pair
  let pair := picOutb pic1Data icw48086 pair
  let pair := picOutb pic2Data icw48086 pair
  let pair := picOutb pic1Data 0xFE pair
  picOutb pic2Data 0xFF pair

def picMaskAll (pair : Pair) : Pair := picOutb pic2Data 0xFF (picOutb pic1Data 0xFF pair)

/-- The port of the mask of a line, and the place of the line in it. -/
def picMaskPort (irq : ℕ) : ℕ × ℕ := if irq < 8 then (pic1Data, irq) else (pic2Data, irq - 8)

def picMaskIrq (irq : ℕ) (pair : Pair) : Pair :=
  let masks := picInb (picMaskPort irq).1 pair ||| 1#8 <<< (picMaskPort irq).2
  picOutb (picMaskPort irq).1 masks pair

def picUnmaskIrq (irq : ℕ) (pair : Pair) : Pair :=
  let masks := picInb (picMaskPort irq).1 pair &&& ~~~(1#8 <<< (picMaskPort irq).2)
  picOutb (picMaskPort irq).1 masks pair

def picSendEoi (irq : ℕ) (pair : Pair) : Pair :=
  picOutb pic1Command 0x20 (if irq ≥ 8 then picOutb pic2Command 0x20 pair else pair)

/-- The number that `irq_handler` computes from the one of the vector. -/
def irqNumber (intNo : ℕ) : ℕ := (intNo + (2 ^ 64 - 32)) % 2 ^ 32

/-- What `irq_handler` does with the controllers before it looks at the line. -/
def irqEnds (intNo : ℕ) (pair : Pair) : Pair :=
  if irqNumber intNo > 15 then pair else picSendEoi (irqNumber intNo) pair

/-! ## The system -/

/-- The controllers, and the vector that the processor has been told and `irq_handler` has not ended
yet. -/
structure PicSystem where
  pair : Pair
  taken : Option (BitVec 8)

/-- Requests of devices, the functions that set the mask, interrupts that the processor takes and
their handler, and the software interrupts that enter at the vector of the timer. -/
inductive PicOperation where
  | raise (line : ℕ)
  | mask (irq : ℕ)
  | unmask (irq : ℕ)
  | maskAll
  | acknowledge (vector : BitVec 8)
  | handle (irqNum : ℕ)
  | softwareTick

inductive PicStep : PicSystem → PicOperation → PicSystem → Prop where
  | raise {system : PicSystem} {line : ℕ} (isLine : Lines.IsLine line) :
      PicStep system (.raise line) { system with pair := system.pair.raise line }
  | mask {system : PicSystem} {irq : ℕ} (isLine : irq < 16) :
      PicStep system (.mask irq) { system with pair := picMaskIrq irq system.pair }
  | unmask {system : PicSystem} {irq : ℕ} (isLine : irq < 16) :
      PicStep system (.unmask irq) { system with pair := picUnmaskIrq irq system.pair }
  | maskAll {system : PicSystem} :
      PicStep system .maskAll { system with pair := picMaskAll system.pair }
  | acknowledge {system : PicSystem} {vector : BitVec 8} {pair : Pair}
      (outside : system.taken = none)
      (answers : system.pair.acknowledge = some (vector, pair)) :
      PicStep system (.acknowledge vector) ⟨pair, some vector⟩
  | handle {system : PicSystem} {vector : BitVec 8} (taken : system.taken = some vector) :
      PicStep system (.handle (irqNumber vector.toNat))
        ⟨irqEnds vector.toNat system.pair, none⟩
  | softwareTick {system : PicSystem} (outside : system.taken = none) :
      PicStep system .softwareTick { system with pair := irqEnds 32 system.pair }

/-- What the operations do to the lines. -/
inductive LinesStep : Lines → PicOperation → Lines → Prop where
  | raise {lines : Lines} {line : ℕ} : LinesStep lines (.raise line) (lines.raise line)
  | mask {lines : Lines} {irq : ℕ} :
      LinesStep lines (.mask irq) { lines with enabled := lines.enabled \ {irq} }
  | unmask {lines : Lines} {irq : ℕ} :
      LinesStep lines (.unmask irq) { lines with enabled := insert irq lines.enabled }
  | maskAll {lines : Lines} : LinesStep lines .maskAll { lines with enabled := ∅ }
  | acknowledge {lines : Lines} {line : ℕ} (idle : lines.serving = none)
      (deliverable : lines.Deliverable line)
      (first : ∀ other, lines.Deliverable other → Lines.priority line ≤ Lines.priority other) :
      LinesStep lines (.acknowledge (BitVec.ofNat 8 (32 + line))) (lines.acknowledge line)
  | handle {lines : Lines} {line : ℕ} (serving : lines.serving = some line) :
      LinesStep lines (.handle line) { lines with serving := none }
  | softwareTick {lines : Lines} (idle : lines.serving = none) : LinesStep lines .softwareTick lines

/-! ## The functions and the lines -/

variable {pair : Pair} {lines : Lines} {system last : PicSystem}

/-- The controllers of the kernel. -/
abbrev PicsRepresent : Pair → Lines → Prop := Represents 0x20 0x28

/-- Whatever state the controllers are in, `pic_remap` sets them up with the timer as the only
enabled line. -/
theorem represents_remap (masterFree : pair.master.isr = 0) (slaveFree : pair.slave.isr = 0) :
    PicsRepresent (picRemap 0x20 0x28 pair) ⟨∅, {0}, none⟩ := by
  have setUp : ∀ (controller : Controller) (offset cascade mask : BitVec 8),
      ((((controller.writeCommand 0x11).writeData offset).writeData cascade).writeData
        1).writeData mask = { controller with
          irr := 0
          imr := mask
          mode := 1
          single := false
          needsMode := true
          offset := offset &&& 0xF8
          cascade := cascade
          stage := .ready } := fun _ _ _ _ => rfl
  have isMaster : (picRemap 0x20 0x28 pair).master = { pair.master with
      irr := 0
      imr := 0xFE
      mode := 1
      single := false
      needsMode := true
      offset := 0x20
      cascade := 4
      stage := .ready } := setUp pair.master 0x20 4 0xFE
  have isSlave : (picRemap 0x20 0x28 pair).slave = { pair.slave with
      irr := 0
      imr := 0xFF
      mode := 1
      single := false
      needsMode := true
      offset := 0x28
      cascade := 2
      stage := .ready } := setUp pair.slave 0x28 2 0xFF
  generalize picRemap 0x20 0x28 pair = remapped at *
  rcases remapped with ⟨master, slave⟩
  subst isMaster isSlave
  have cascade : ∀ index < 8, (4 : BitVec 8).getLsbD index = decide (index = Pair.wire) := by
    decide
  have mask : ∀ index < 8, (0xFE : BitVec 8).getLsbD index = decide (index ≠ 0) := by decide
  have slaveMask : ∀ index < 8, (0xFF : BitVec 8).getLsbD index = true := by decide
  have mode : (1 : BitVec 8).getLsbD 0 = true ∧ (1 : BitVec 8).getLsbD 1 = false := by decide
  have silent : ∀ index, (0 : BitVec 8).getLsbD index = false := fun _ => BitVec.getLsbD_zero
  exact {
    masterReady := ⟨rfl, mode.1⟩
    slaveReady := ⟨rfl, mode.1⟩
    masterEnds := mode.2
    slaveEnds := mode.2
    masterOffset := rfl
    slaveOffset := rfl
    cascade := cascade
    isLine := fun line mem => absurd mem (Set.notMem_empty line)
    wireFree := silent Pair.wire
    masterRequests := fun index _ _ => by simp
    slaveRequests := fun index _ => by simp
    masterMask := fun index inside => by
      rw [← Set.mem_compl_iff, Set.mem_compl_singleton_iff]
      exact (Bool.eq_iff_iff.mp (mask index inside)).trans decide_eq_true_iff
    slaveMask := fun index inside => iff_of_true (slaveMask index inside) (by simp)
    masterServes := fun index _ => by simp [masterFree]
    slaveServes := fun index _ => by simp [slaveFree] }

/-- A line is masked where its bit is. -/
theorem represents_mask (represents : PicsRepresent pair lines) {irq : ℕ} (isLine : irq < 16) :
    PicsRepresent (picMaskIrq irq pair) { lines with enabled := lines.enabled \ {irq} } := by
  rcases Nat.lt_or_ge irq 8 with isMaster | isSlave
  · have written : picMaskIrq irq pair =
        { pair with master := pair.master.writeData (pair.master.imr ||| line irq) } := by
      rw [picMaskIrq, picMaskPort, if_pos isMaster]
      rfl
    rw [written]
    apply represents.maskMaster
    · intro index inside
      rw [getLsbD_insert inside, Bool.or_eq_true, represents.masterMask index inside]
      simp [imp_iff_not_or]
    · intro index inside
      have different : index + 8 ≠ irq := by omega
      simp [different]
  · have written : picMaskIrq irq pair =
        { pair with slave := pair.slave.writeData (pair.slave.imr ||| line (irq - 8)) } := by
      rw [picMaskIrq, picMaskPort, if_neg (Nat.not_lt.mpr isSlave)]
      rfl
    rw [written]
    apply represents.maskSlave
    · intro index inside
      have same : index = irq - 8 ↔ index + 8 = irq := by omega
      rw [getLsbD_insert inside, Bool.or_eq_true, represents.slaveMask index inside]
      simp [imp_iff_not_or, same]
    · intro index inside
      have different : index ≠ irq := by omega
      simp [different]

theorem represents_unmask (represents : PicsRepresent pair lines) {irq : ℕ} (isLine : irq < 16) :
    PicsRepresent (picUnmaskIrq irq pair) { lines with enabled := insert irq lines.enabled } := by
  rcases Nat.lt_or_ge irq 8 with isMaster | isSlave
  · have written : picUnmaskIrq irq pair =
        { pair with master := pair.master.writeData (pair.master.imr &&& ~~~(line irq)) } := by
      rw [picUnmaskIrq, picMaskPort, if_pos isMaster]
      rfl
    rw [written]
    apply represents.maskMaster
    · intro index inside
      rw [getLsbD_erase inside, Bool.and_eq_true, represents.masterMask index inside]
      simp [and_comm]
    · intro index inside
      have different : index + 8 ≠ irq := by omega
      simp [different]
  · have written : picUnmaskIrq irq pair =
        { pair with slave := pair.slave.writeData (pair.slave.imr &&& ~~~(line (irq - 8))) } := by
      rw [picUnmaskIrq, picMaskPort, if_neg (Nat.not_lt.mpr isSlave)]
      rfl
    rw [written]
    apply represents.maskSlave
    · intro index inside
      have same : index = irq - 8 ↔ index + 8 = irq := by omega
      rw [getLsbD_erase inside, Bool.and_eq_true, represents.slaveMask index inside]
      simp [and_comm, same]
    · intro index inside
      have different : index ≠ irq := by omega
      simp [different]

theorem represents_maskAll (represents : PicsRepresent pair lines) :
    PicsRepresent (picMaskAll pair) { lines with enabled := ∅ } := by
  have full : ∀ index < 8, (0xFF : BitVec 8).getLsbD index = true := by decide
  have ready := represents.masterReady.1
  have slaveReady := represents.slaveReady.1
  have written : picMaskAll pair =
      { master := { pair.master with imr := 0xFF }, slave := { pair.slave with imr := 0xFF } } := by
    rw [← Controller.writeData_ready ready, ← Controller.writeData_ready slaveReady]
    rfl
  rw [written]
  exact {
    represents with
    masterMask := fun index inside => iff_of_true (full index inside) (by simp)
    slaveMask := fun index inside => iff_of_true (full index inside) (by simp) }

/-- `pic_send_eoi` ends the interrupt of the line that is being served. -/
theorem represents_sendEoi (represents : PicsRepresent pair lines) {irq : ℕ} (isLine : irq < 16)
    (serving : lines.serving = some irq) :
    PicsRepresent (picSendEoi irq pair) { lines with serving := none } := by
  have ends : ∀ controller : Controller,
      controller.writeCommand 0x20 = controller.endOfInterrupt := fun _ => rfl
  have finished := represents.finish isLine serving
  rw [← ends, ← ends] at finished
  have sent : picSendEoi irq pair =
      { master := pair.master.writeCommand 0x20
        slave := if 8 ≤ irq then pair.slave.writeCommand 0x20 else pair.slave } := by
    unfold picSendEoi
    split <;> rfl
  rw [sent]
  exact finished

/-- The end of an interrupt that was raised by software ends none of a line. -/
theorem sendEoi_idle (represents : PicsRepresent pair lines) (idle : lines.serving = none) :
    picSendEoi 0 pair = pair := by
  have ends : pair.master.writeCommand 0x20 = pair.master :=
    Represents.endOfInterrupt_free (represents.masterFree idle)
  have sent : picSendEoi 0 pair = { pair with master := pair.master.writeCommand 0x20 } := rfl
  rw [sent, ends]

/-! ## Runs -/

/-- The registers of the controllers are the sets, and the vector that has been taken is the one of
the line that is served. -/
structure SystemRepresents (system : PicSystem) (lines : Lines) : Prop where
  pair : PicsRepresent system.pair lines
  taken : system.taken = lines.serving.map (fun line => BitVec.ofNat 8 (32 + line))
  isLine : ∀ line ∈ lines.serving, line < 16

theorem vector_kernel {line : ℕ} (isLine : line < 16) :
    Lines.vector 0x20 0x28 line = BitVec.ofNat 8 (32 + line) := by
  revert line
  decide

theorem irqNumber_vector {line : ℕ} (isLine : line < 16) :
    irqNumber (BitVec.ofNat 8 (32 + line)).toNat = line := by
  simp only [irqNumber, BitVec.toNat_ofNat]
  omega

theorem SystemRepresents.step {before after : PicSystem} {operation : PicOperation}
    (represents : SystemRepresents before lines) (step : PicStep before operation after) :
    ∃ next, LinesStep lines operation next ∧ SystemRepresents after next := by
  cases step with
  | raise isLine =>
      exact ⟨_, .raise, represents.pair.raise isLine, represents.taken, represents.isLine⟩
  | mask isLine =>
      exact ⟨_, .mask, represents_mask represents.pair isLine, represents.taken,
        represents.isLine⟩
  | unmask isLine =>
      exact ⟨_, .unmask, represents_unmask represents.pair isLine, represents.taken,
        represents.isLine⟩
  | maskAll =>
      exact ⟨_, .maskAll, represents_maskAll represents.pair, represents.taken, represents.isLine⟩
  | @acknowledge vector pair outside answers =>
      have idle : lines.serving = none := by
        have taken := represents.taken
        rw [outside] at taken
        exact Option.map_eq_none_iff.mp taken.symm
      cases asks : before.pair.master.asking before.pair.requests with
      | none =>
          rw [Pair.acknowledge, asks] at answers
          cases answers
      | some index =>
          rcases represents.pair.acknowledge_some idle asks with
            ⟨line, next, deliverable, first, taken, represented⟩
          obtain ⟨rfl, rfl⟩ := Prod.mk.inj (Option.some.inj (answers.symm.trans taken))
          have isLine := (represents.pair.isLine line deliverable.1).1
          rw [vector_kernel isLine]
          refine ⟨_, .acknowledge idle deliverable first, represented, rfl, ?_⟩
          intro other mem
          obtain rfl := Option.mem_some.mp mem
          exact isLine
  | @handle vector taken =>
      have isTaken := represents.taken
      rw [taken] at isTaken
      rcases Option.map_eq_some_iff.mp isTaken.symm with ⟨line, serving, rfl⟩
      have isLine := represents.isLine line (Option.mem_def.mpr serving)
      have notAbove : ¬line > 15 := by omega
      rw [irqEnds, irqNumber_vector isLine, if_neg notAbove]
      exact ⟨_, .handle serving, represents_sendEoi represents.pair isLine serving, rfl,
        fun other mem => absurd mem (Option.not_mem_none other)⟩
  | softwareTick outside =>
      have idle : lines.serving = none := by
        have taken := represents.taken
        rw [outside] at taken
        exact Option.map_eq_none_iff.mp taken.symm
      have ended : irqEnds 32 before.pair = before.pair := by
        have isTimer : irqNumber 32 = 0 := @irqNumber_vector 0 (by decide)
        rw [irqEnds, isTimer]
        exact sendEoi_idle represents.pair idle
      refine ⟨lines, .softwareTick idle, ?_⟩
      rw [ended]
      exact represents

/-- The controllers behind `pic_remap`, with no interrupt that has been taken. -/
def remappedPics (pair : Pair) : PicSystem := ⟨picRemap 0x20 0x28 pair, none⟩

/-- Only the timer is enabled. -/
def timerLines : Lines := ⟨∅, {0}, none⟩

theorem represents_remapped (masterFree : pair.master.isr = 0) (slaveFree : pair.slave.isr = 0) :
    SystemRepresents (remappedPics pair) timerLines :=
  ⟨represents_remap masterFree slaveFree, rfl, fun line mem =>
    absurd mem (Option.not_mem_none line)⟩

theorem represents_run {labels : List PicOperation} (masterFree : pair.master.isr = 0)
    (slaveFree : pair.slave.isr = 0) (run : Run PicStep (remappedPics pair) labels last) :
    ∃ lines, Run LinesStep timerLines labels lines ∧ SystemRepresents last lines :=
  run.simulate (fun _ _ _ _ represents step => represents.step step)
    (represents_remapped masterFree slaveFree)

/-- Every run of the controllers behind `pic_remap` is one of the lines: a request waits until it is
taken, the enabled line of the highest priority is taken first, its handler ends that line and no
other, a software interrupt ends none, and when nothing is served an interrupt is waiting exactly if
a line can be delivered. -/
theorem pics_refine_lines {labels : List PicOperation} (masterFree : pair.master.isr = 0)
    (slaveFree : pair.slave.isr = 0) (run : Run PicStep (remappedPics pair) labels last) :
    ∃ lines, Run LinesStep timerLines labels lines ∧ SystemRepresents last lines ∧
      (last.taken = none →
        (last.pair.acknowledge.isSome ↔ ∃ line, lines.Deliverable line)) := by
  rcases represents_run masterFree slaveFree run with ⟨lines, abstract, represents⟩
  refine ⟨lines, abstract, represents, fun outside => ?_⟩
  have taken := represents.taken
  rw [outside] at taken
  have idle : lines.serving = none := Option.map_eq_none_iff.mp taken.symm
  cases asks : last.pair.master.asking last.pair.requests with
  | none =>
      have none' : last.pair.acknowledge = none := by
        rw [Pair.acknowledge, asks]
        rfl
      rw [none']
      constructor
      · intro answers
        cases answers
      · rintro ⟨line, deliverable⟩
        exact absurd deliverable (represents.pair.acknowledge_none idle asks line)
  | some index =>
      rcases represents.pair.acknowledge_some idle asks with
        ⟨line, next, deliverable, _, answers, _⟩
      rw [answers]
      exact iff_of_true rfl ⟨line, deliverable⟩

/-- Two controllers that have just been switched on. -/
def freshPair : Pair :=
  let fresh : Controller := ⟨0, 0, 0, 0, 0, 0, false, false, .ready⟩
  ⟨fresh, fresh⟩

/-- The timer asks, is served, and a thread raises the same interrupt by itself. -/
theorem pics_refine_lines_timer : ∃ last lines,
    Run PicStep (remappedPics freshPair) [.raise 0, .acknowledge 0x20, .handle 0, .softwareTick]
        last ∧
      Run LinesStep timerLines [.raise 0, .acknowledge 0x20, .handle 0, .softwareTick] lines ∧
      SystemRepresents last lines := by
  have isLine : Lines.IsLine 0 := ⟨by decide, by decide⟩
  have answers : (((remappedPics freshPair).pair.raise 0).acknowledge).map Prod.fst =
      some 0x20 := by decide +kernel
  rcases Option.map_eq_some_iff.mp answers with ⟨⟨vector, pair⟩, answers, rfl⟩
  have number : irqNumber (0x20 : BitVec 8).toNat = 0 := @irqNumber_vector 0 (by decide)
  have handles : PicStep ⟨pair, some 0x20⟩ (.handle 0)
      ⟨irqEnds (0x20 : BitVec 8).toNat pair, none⟩ := number ▸ .handle rfl
  have run : Run PicStep (remappedPics freshPair)
      [.raise 0, .acknowledge 0x20, .handle 0, .softwareTick] _ :=
    .cons (.raise isLine) (.cons (.acknowledge rfl answers)
      (.cons handles (.cons (.softwareTick rfl) (.nil _))))
  rcases pics_refine_lines rfl rfl run with ⟨lines, abstract, represents, _⟩
  exact ⟨_, lines, run, abstract, represents⟩

/-- Requests come from devices, and lines are enabled by `pic_unmask_irq`. -/
theorem lines_run {first reached : Lines} {labels : List PicOperation}
    (run : Run LinesStep first labels reached) :
    (∀ line ∈ reached.requested, line ∈ first.requested ∨ PicOperation.raise line ∈ labels) ∧
      ∀ line ∈ reached.enabled, line ∈ first.enabled ∨ PicOperation.unmask line ∈ labels := by
  induction run with
  | nil => exact ⟨fun _ mem => .inl mem, fun _ mem => .inl mem⟩
  | @cons first second _ label labels head tail ih =>
      have requested : ∀ line ∈ second.requested,
          line ∈ first.requested ∨ PicOperation.raise line = label := by
        intro line mem
        cases head with
        | raise =>
            rcases mem with rfl | mem
            · exact .inr rfl
            · exact .inl mem
        | acknowledge => exact .inl mem.1
        | _ => exact .inl mem
      have enabled : ∀ line ∈ second.enabled,
          line ∈ first.enabled ∨ PicOperation.unmask line = label := by
        intro line mem
        cases head with
        | unmask =>
            rcases mem with rfl | mem
            · exact .inr rfl
            · exact .inl mem
        | mask => exact .inl mem.1
        | maskAll => exact absurd mem (Set.notMem_empty line)
        | _ => exact .inl mem
      constructor
      · intro line mem
        rcases ih.1 line mem with before | later
        · rcases requested line before with first | same
          · exact .inl first
          · exact .inr (same ▸ List.mem_cons_self)
        · exact .inr (List.mem_cons_of_mem label later)
      · intro line mem
        rcases ih.2 line mem with before | later
        · rcases enabled line before with first | same
          · exact .inl first
          · exact .inr (same ▸ List.mem_cons_self)
        · exact .inr (List.mem_cons_of_mem label later)

/-- Behind `pic_remap`, an interrupt is taken only from a line that a device has requested and that
is the timer or has been unmasked, and from a line of the second controller only once line 2 has
been unmasked as well. -/
theorem silent_until_unmasked {labels : List PicOperation} (masterFree : pair.master.isr = 0)
    (slaveFree : pair.slave.isr = 0) (run : Run PicStep (remappedPics pair) labels last)
    {vector : BitVec 8} {next : PicSystem} (step : PicStep last (.acknowledge vector) next) :
    ∃ line < 16, vector = BitVec.ofNat 8 (32 + line) ∧ PicOperation.raise line ∈ labels ∧
      (line = 0 ∨ PicOperation.unmask line ∈ labels) ∧
      (8 ≤ line → PicOperation.unmask 2 ∈ labels) := by
  rcases represents_run masterFree slaveFree run with ⟨lines, abstract, represents⟩
  rcases lines_run abstract with ⟨requested, enabled⟩
  rcases represents.step step with ⟨_, lineStep, _⟩
  cases lineStep with
  | @acknowledge line idle deliverable first =>
      rcases deliverable with ⟨isRequested, isEnabled, wired⟩
      refine ⟨line, (represents.pair.isLine line isRequested).1, rfl, ?_, ?_, ?_⟩
      · rcases requested line isRequested with before | raised
        · exact absurd before (Set.notMem_empty line)
        · exact raised
      · rcases enabled line isEnabled with before | unmasked
        · exact .inl before
        · exact .inr unmasked
      · intro isSlave
        rcases enabled Pair.wire (wired isSlave) with before | unmasked
        · cases before
        · exact unmasked

/-- A line of the second controller, once it and the wire have been unmasked. -/
theorem silent_until_unmasked_slave : ∃ last next,
    Run PicStep (remappedPics freshPair) [.unmask 9, .unmask 2, .raise 9] last ∧
      PicStep last (.acknowledge 0x29) next ∧ PicOperation.unmask 2 ∈
        [PicOperation.unmask 9, .unmask 2, .raise 9] := by
  have isLine : Lines.IsLine 9 := ⟨by decide, by decide⟩
  have run : Run PicStep (remappedPics freshPair) [.unmask 9, .unmask 2, .raise 9] _ :=
    .cons (.unmask (by decide)) (.cons (.unmask (by decide)) (.cons (.raise isLine) (.nil _)))
  have answers : (((picUnmaskIrq 2 (picUnmaskIrq 9 (remappedPics freshPair).pair)).raise
      9).acknowledge).map Prod.fst = some 0x29 := by decide +kernel
  rcases Option.map_eq_some_iff.mp answers with ⟨⟨vector, pair⟩, answers, isVector⟩
  obtain rfl : vector = 0x29 := isVector
  have step : PicStep ⟨(picUnmaskIrq 2 (picUnmaskIrq 9 (remappedPics freshPair).pair)).raise 9,
      none⟩ (.acknowledge 0x29) ⟨pair, some 0x29⟩ := .acknowledge rfl answers
  rcases silent_until_unmasked rfl rfl run step with ⟨line, isLine, same, _, _, wired⟩
  have isSlave : 8 ≤ line := by
    have value : 41 = (32 + line) % 2 ^ 8 := congrArg BitVec.toNat same
    omega
  exact ⟨_, _, run, step, wired isSlave⟩

end Goshkik

import Mathlib.Data.Set.Insert
import Mathlib.Tactic.Ring
import Mathlib.Tactic.SplitIfs
import Goshkik.Lib.Run

/-!
# Two interrupt controllers in cascade

An 8259A holds the requests of eight lines, of which line 0 has the highest priority.  It is set up
by a sequence of writes, and then a write to its data port sets the mask.  A line asks for an
interrupt when it is requested, not masked, and no line of its priority or a higher one is being
served.  The second controller asks through line 2 of the first.

Edges trigger the requests.  Of the operation control words the mask and the end of an interrupt
that names no line are modelled, and of the modes those of an 8086.

`Lines` is what the pair is for: a set of requested lines and a set of enabled ones.
-/

namespace InterruptController

/-- The byte that a controller waits for at its data port. -/
inductive Stage where
  | offset
  | cascade
  | mode
  | ready
  deriving DecidableEq

/-- One controller: the requested lines, those in service, the mask, and what it was set up with. -/
structure Controller where
  irr : BitVec 8
  isr : BitVec 8
  imr : BitVec 8
  offset : BitVec 8
  cascade : BitVec 8
  mode : BitVec 8
  single : Bool
  needsMode : Bool
  stage : Stage
  deriving DecidableEq

/-- The line of the highest priority. -/
def highest (lines : BitVec 8) : Option ℕ := (List.range 8).find? lines.getLsbD

def line (index : ℕ) : BitVec 8 := 1#8 <<< index

namespace Controller

variable (controller : Controller)

/-- The end of the interrupt that is being served with the highest priority. -/
def endOfInterrupt : Controller :=
  match highest controller.isr with
  | none => controller
  | some index => { controller with isr := controller.isr &&& ~~~(line index) }

/-- A write to the command port. -/
def writeCommand (value : BitVec 8) : Controller :=
  if value.getLsbD 4 then
    { controller with
      irr := 0
      imr := 0
      mode := 0
      single := value.getLsbD 1
      needsMode := value.getLsbD 0
      stage := .offset }
  else if value.getLsbD 3 then controller
  else if value >>> 5 = 1#8 then controller.endOfInterrupt
  else controller

/-- What follows the second byte of the set-up. -/
def afterCascade : Stage := if controller.needsMode then .mode else .ready

/-- A write to the data port. -/
def writeData (value : BitVec 8) : Controller :=
  match controller.stage with
  | .offset =>
      { controller with
        offset := value &&& 0xF8
        stage := if controller.single then controller.afterCascade else .cascade }
  | .cascade => { controller with cascade := value, stage := controller.afterCascade }
  | .mode => { controller with mode := value, stage := .ready }
  | .ready => { controller with imr := value }

def raise (index : ℕ) : Controller := { controller with irr := controller.irr ||| line index }

/-- The line that asks for an interrupt. -/
def asking (requests : BitVec 8) : Option ℕ :=
  (highest (requests &&& ~~~controller.imr)).filter (fun index =>
    match highest controller.isr with
    | none => true
    | some served => index < served)

/-- The line is served, unless the interrupt ends by itself. -/
def serve (index : ℕ) : Controller :=
  { controller with
    irr := controller.irr &&& ~~~(line index)
    isr := if controller.mode.getLsbD 1 then controller.isr else controller.isr ||| line index }

/-- The controller has been set up for an 8086. -/
def Ready : Prop := controller.stage = .ready ∧ controller.mode.getLsbD 0

end Controller

/-- The first controller and the one at its line 2. -/
structure Pair where
  master : Controller
  slave : Controller
  deriving DecidableEq

namespace Pair

variable (pair : Pair)

/-- The line of the first controller that the second one is wired to. -/
def wire : ℕ := 2

/-- The requests of the first controller. -/
def requests : BitVec 8 :=
  if (pair.slave.asking pair.slave.irr).isSome then pair.master.irr ||| line wire
  else pair.master.irr

def raise (index : ℕ) : Pair :=
  if index < 8 then { pair with master := pair.master.raise index }
  else { pair with slave := pair.slave.raise (index - 8) }

/-- The processor takes an interrupt and is told its vector. -/
def acknowledge : Option (BitVec 8 × Pair) :=
  (pair.master.asking pair.requests).bind (fun index =>
    if pair.master.cascade.getLsbD index then
      (pair.slave.asking pair.slave.irr).map (fun inner =>
        (pair.slave.offset + BitVec.ofNat 8 inner,
          ⟨pair.master.serve index, pair.slave.serve inner⟩))
    else
      some (pair.master.offset + BitVec.ofNat 8 index, { pair with
        master := pair.master.serve index }))

end Pair

/-! ## Bits -/

variable {lines requests : BitVec 8} {index other : ℕ}

theorem highest_eq_some : highest lines = some index ↔
    index < 8 ∧ lines.getLsbD index = true ∧ ∀ other < index, lines.getLsbD other = false := by
  simp [highest, and_left_comm]

theorem highest_eq_none : highest lines = none ↔ ∀ index < 8, lines.getLsbD index = false := by
  simp [highest]

theorem getLsbD_line (inside : index < 8) :
    (line other).getLsbD index = decide (index = other) := by
  rw [line, ← BitVec.twoPow_eq, BitVec.getLsbD_twoPow]
  by_cases same : index = other
  · subst same
    simp [inside]
  · simp [same, Ne.symm same]

theorem getLsbD_insert (inside : index < 8) :
    (lines ||| line other).getLsbD index = (lines.getLsbD index || decide (index = other)) := by
  rw [BitVec.getLsbD_or, getLsbD_line inside]

theorem getLsbD_erase (inside : index < 8) :
    (lines &&& ~~~(line other)).getLsbD index =
      (lines.getLsbD index && !decide (index = other)) := by
  rw [BitVec.getLsbD_and, BitVec.getLsbD_not, getLsbD_line inside]
  simp [inside]

theorem getLsbD_unmasked (inside : index < 8) {mask : BitVec 8} :
    (requests &&& ~~~mask).getLsbD index =
      (requests.getLsbD index && !mask.getLsbD index) := by
  rw [BitVec.getLsbD_and, BitVec.getLsbD_not]
  simp [inside]

theorem Controller.asking_of_free {controller : Controller}
    (free : ∀ index < 8, controller.isr.getLsbD index = false) :
    controller.asking requests = highest (requests &&& ~~~controller.imr) := by
  rw [asking, highest_eq_none.mpr free]
  cases highest (requests &&& ~~~controller.imr) <;> rfl

/-- A controller that serves nothing asks for its highest line that is not masked. -/
theorem Controller.asking_eq_some {controller : Controller}
    (free : ∀ index < 8, controller.isr.getLsbD index = false) :
    controller.asking requests = some index ↔
      index < 8 ∧ requests.getLsbD index = true ∧ controller.imr.getLsbD index = false ∧
        ∀ other < index, requests.getLsbD other = true → controller.imr.getLsbD other = true := by
  rw [asking_of_free free, highest_eq_some]
  constructor
  · rintro ⟨inside, isAsking, others⟩
    rw [getLsbD_unmasked inside, Bool.and_eq_true, Bool.not_eq_true'] at isAsking
    refine ⟨inside, isAsking.1, isAsking.2, ?_⟩
    intro other below requested
    have silent := others other below
    rw [getLsbD_unmasked (below.trans inside), requested] at silent
    simpa using silent
  · rintro ⟨inside, requested, unmasked, others⟩
    refine ⟨inside, ?_, ?_⟩
    · rw [getLsbD_unmasked inside, requested, unmasked]
      rfl
    · intro other below
      rw [getLsbD_unmasked (below.trans inside)]
      cases isRequested : requests.getLsbD other with
      | false => rfl
      | true =>
          rw [others other below isRequested]
          rfl

theorem Controller.asking_eq_none {controller : Controller}
    (free : ∀ index < 8, controller.isr.getLsbD index = false) :
    controller.asking requests = none ↔
      ∀ index < 8, requests.getLsbD index = true → controller.imr.getLsbD index = true := by
  rw [asking_of_free free, highest_eq_none]
  constructor
  · intro silent index inside requested
    have isSilent := silent index inside
    rw [getLsbD_unmasked inside, requested] at isSilent
    simpa using isSilent
  · intro masked index inside
    rw [getLsbD_unmasked inside]
    cases isRequested : requests.getLsbD index with
    | false => rfl
    | true =>
        rw [masked index inside isRequested]
        rfl

/-- A write to the data port of a controller that is ready sets its mask. -/
theorem Controller.writeData_ready {controller : Controller} (ready : controller.stage = .ready)
    (value : BitVec 8) : controller.writeData value = { controller with imr := value } := by
  simp only [writeData, ready]

/-! ## The lines of a pair -/

/-- Which lines have a request, which are enabled, and which one is being served. -/
structure Lines where
  requested : Set ℕ
  enabled : Set ℕ
  serving : Option ℕ

namespace Lines

variable (lines : Lines)

/-- The lines of a pair that devices use. -/
def IsLine (line : ℕ) : Prop := line < 16 ∧ line ≠ Pair.wire

/-- A line of the second controller needs the wire between the two as well. -/
def Deliverable (line : ℕ) : Prop :=
  line ∈ lines.requested ∧ line ∈ lines.enabled ∧ (8 ≤ line → Pair.wire ∈ lines.enabled)

/-- The lines of the second controller come in the place of the wire. -/
def priority (line : ℕ) : ℕ :=
  if line < Pair.wire then line else if 8 ≤ line then line - 6 else line + 8

/-- The number of the interrupt, where the controllers have been given their first ones. -/
def vector (first second : BitVec 8) (line : ℕ) : BitVec 8 :=
  if line < 8 then first + BitVec.ofNat 8 line else second + BitVec.ofNat 8 (line - 8)

def raise (line : ℕ) : Lines := { lines with requested := insert line lines.requested }

def acknowledge (line : ℕ) : Lines :=
  { lines with requested := lines.requested \ {line}, serving := some line }

/-- The line of the first controller through which a line comes. -/
def through (line : ℕ) : ℕ := if line < 8 then line else Pair.wire

end Lines

/-- The controllers are ready, and their registers are the sets. -/
structure Represents (first second : BitVec 8) (pair : Pair) (lines : Lines) : Prop where
  masterReady : pair.master.Ready
  slaveReady : pair.slave.Ready
  masterEnds : pair.master.mode.getLsbD 1 = false
  slaveEnds : pair.slave.mode.getLsbD 1 = false
  masterOffset : pair.master.offset = first
  slaveOffset : pair.slave.offset = second
  cascade : ∀ index < 8, pair.master.cascade.getLsbD index = decide (index = Pair.wire)
  isLine : ∀ line ∈ lines.requested, Lines.IsLine line
  wireFree : pair.master.irr.getLsbD Pair.wire = false
  masterRequests : ∀ index < 8, index ≠ Pair.wire →
    (pair.master.irr.getLsbD index = true ↔ index ∈ lines.requested)
  slaveRequests : ∀ index < 8, pair.slave.irr.getLsbD index = true ↔ index + 8 ∈ lines.requested
  masterMask : ∀ index < 8, pair.master.imr.getLsbD index = true ↔ index ∉ lines.enabled
  slaveMask : ∀ index < 8, pair.slave.imr.getLsbD index = true ↔ index + 8 ∉ lines.enabled
  masterServes : ∀ index < 8,
    pair.master.isr.getLsbD index = true ↔ ∃ line ∈ lines.serving, index = Lines.through line
  slaveServes : ∀ index < 8,
    pair.slave.isr.getLsbD index = true ↔ index + 8 ∈ lines.serving

namespace Represents

variable {first second : BitVec 8} {pair : Pair} {lines : Lines}

theorem masterFree (represents : Represents first second pair lines)
    (idle : lines.serving = none) : ∀ index < 8, pair.master.isr.getLsbD index = false := by
  intro index inside
  rw [← Bool.not_eq_true, represents.masterServes index inside, idle]
  rintro ⟨line, mem, _⟩
  exact absurd mem (Option.not_mem_none line)

theorem slaveFree (represents : Represents first second pair lines)
    (idle : lines.serving = none) : ∀ index < 8, pair.slave.isr.getLsbD index = false := by
  intro index inside
  rw [← Bool.not_eq_true, represents.slaveServes index inside, idle]
  exact Option.not_mem_none _

/-- The second controller asks for the first of its lines that is requested and enabled. -/
theorem slaveAsking (represents : Represents first second pair lines)
    (idle : lines.serving = none) {index : ℕ} :
    pair.slave.asking pair.slave.irr = some index ↔
      index < 8 ∧ index + 8 ∈ lines.requested ∧ index + 8 ∈ lines.enabled ∧
        ∀ other < index, other + 8 ∈ lines.requested → other + 8 ∉ lines.enabled := by
  rw [Controller.asking_eq_some (represents.slaveFree idle)]
  constructor
  · rintro ⟨inside, requested, unmasked, others⟩
    rw [represents.slaveRequests index inside] at requested
    rw [← Bool.not_eq_true, represents.slaveMask index inside, not_not] at unmasked
    refine ⟨inside, requested, unmasked, fun other below isRequested => ?_⟩
    have inside' := below.trans inside
    rw [← represents.slaveMask other inside']
    exact others other below ((represents.slaveRequests other inside').mpr isRequested)
  · rintro ⟨inside, requested, enabled, others⟩
    refine ⟨inside, (represents.slaveRequests index inside).mpr requested, ?_,
      fun other below isRequested => ?_⟩
    · rw [← Bool.not_eq_true, represents.slaveMask index inside, not_not]
      exact enabled
    · have inside' := below.trans inside
      rw [represents.slaveMask other inside']
      exact others other below ((represents.slaveRequests other inside').mp isRequested)

theorem slaveSilent (represents : Represents first second pair lines)
    (idle : lines.serving = none) (silent : pair.slave.asking pair.slave.irr = none) {line : ℕ}
    (isSlave : 8 ≤ line) (requested : line ∈ lines.requested) : line ∉ lines.enabled := by
  rw [Controller.asking_eq_none (represents.slaveFree idle)] at silent
  have inside : line - 8 < 8 := by
    have isLine := (represents.isLine line requested).1
    omega
  have place : line - 8 + 8 = line := Nat.sub_add_cancel isSlave
  have masked := silent (line - 8) inside
    ((represents.slaveRequests _ inside).mpr (place ▸ requested))
  rw [represents.slaveMask _ inside, place] at masked
  exact masked

/-- The requests of the first controller are its own ones and, at the wire, the second one. -/
theorem requests_wire (represents : Represents first second pair lines) :
    pair.requests.getLsbD Pair.wire = (pair.slave.asking pair.slave.irr).isSome := by
  have inside : Pair.wire < 8 := by decide
  unfold Pair.requests
  split
  · rename_i asks
    rw [getLsbD_insert inside, asks]
    simp
  · rename_i silent
    rw [represents.wireFree, Bool.eq_false_iff.mpr silent]

theorem requests_of_ne (represents : Represents first second pair lines) {index : ℕ}
    (inside : index < 8) (notWire : index ≠ Pair.wire) :
    pair.requests.getLsbD index = true ↔ index ∈ lines.requested := by
  rw [← represents.masterRequests index inside notWire]
  unfold Pair.requests
  split
  · rw [getLsbD_insert inside]
    simp [notWire]
  · rfl

/-- The first controller has taken a request of its own. -/
theorem serve_master (represents : Represents first second pair lines) (idle : lines.serving = none)
    {line : ℕ} (requested : line ∈ lines.requested) (isMaster : line < 8) :
    Represents first second { pair with master := pair.master.serve line }
      (lines.acknowledge line) := by
  have isLine := represents.isLine line requested
  have ends : (pair.master.serve line).isr = pair.master.isr ||| InterruptController.line line := by
    rw [Controller.serve, represents.masterEnds]
    rfl
  have throughSelf : Lines.through line = line := if_pos isMaster
  exact {
    represents with
    isLine := fun other mem => represents.isLine other mem.1
    wireFree := by
      have inside : Pair.wire < 8 := by decide
      have kept : (pair.master.serve line).irr.getLsbD Pair.wire =
          (pair.master.irr.getLsbD Pair.wire && !decide (Pair.wire = line)) := getLsbD_erase inside
      rw [kept, represents.wireFree]
      rfl
    masterRequests := by
      intro index inside notWire
      have kept : (pair.master.serve line).irr.getLsbD index =
          (pair.master.irr.getLsbD index && !decide (index = line)) := getLsbD_erase inside
      rw [kept, Bool.and_eq_true, represents.masterRequests index inside notWire]
      simp [Lines.acknowledge]
    slaveRequests := by
      intro index inside
      have different : index + 8 ≠ line := by omega
      rw [represents.slaveRequests index inside]
      simp [Lines.acknowledge, different]
    masterServes := by
      intro index inside
      rw [ends, getLsbD_insert inside, represents.masterFree idle index inside]
      simp [Lines.acknowledge, throughSelf]
    slaveServes := by
      intro index inside
      have different : line ≠ index + 8 := by omega
      rw [represents.slaveFree idle index inside]
      simp [Lines.acknowledge, different] }

/-- Both controllers have taken a request of the second one. -/
theorem serve_slave (represents : Represents first second pair lines) (idle : lines.serving = none)
    {index : ℕ} (inside : index < 8) :
    Represents first second ⟨pair.master.serve Pair.wire, pair.slave.serve index⟩
      (lines.acknowledge (index + 8)) := by
  have masterEnds : (pair.master.serve Pair.wire).isr =
      pair.master.isr ||| InterruptController.line Pair.wire := by
    rw [Controller.serve, represents.masterEnds]
    rfl
  have slaveEnds : (pair.slave.serve index).isr =
      pair.slave.isr ||| InterruptController.line index := by
    rw [Controller.serve, represents.slaveEnds]
    rfl
  have throughWire : Lines.through (index + 8) = Pair.wire := if_neg (by omega)
  exact {
    represents with
    isLine := fun other mem => represents.isLine other mem.1
    wireFree := by
      have wireInside : Pair.wire < 8 := by decide
      have kept : (pair.master.serve Pair.wire).irr.getLsbD Pair.wire =
          (pair.master.irr.getLsbD Pair.wire && !decide (Pair.wire = Pair.wire)) :=
        getLsbD_erase wireInside
      rw [kept, represents.wireFree]
      rfl
    masterRequests := by
      intro other otherInside notWire
      have different : other ≠ index + 8 := by omega
      have kept : (pair.master.serve Pair.wire).irr.getLsbD other =
          (pair.master.irr.getLsbD other && !decide (other = Pair.wire)) :=
        getLsbD_erase otherInside
      rw [kept, Bool.and_eq_true, represents.masterRequests other otherInside notWire]
      simp [Lines.acknowledge, different, notWire]
    slaveRequests := by
      intro other otherInside
      have kept : (pair.slave.serve index).irr.getLsbD other =
          (pair.slave.irr.getLsbD other && !decide (other = index)) := getLsbD_erase otherInside
      rw [kept, Bool.and_eq_true, represents.slaveRequests other otherInside]
      simp [Lines.acknowledge]
    masterServes := by
      intro other otherInside
      rw [masterEnds, getLsbD_insert otherInside, represents.masterFree idle other otherInside]
      simp [Lines.acknowledge, throughWire]
    slaveServes := by
      intro other otherInside
      rw [slaveEnds, getLsbD_insert otherInside, represents.slaveFree idle other otherInside]
      simp [Lines.acknowledge, eq_comm] }

/-- A line that can be delivered asks for an interrupt at the first controller. -/
theorem through_asks (represents : Represents first second pair lines)
    (idle : lines.serving = none) {line : ℕ} (deliverable : lines.Deliverable line) :
    Lines.through line < 8 ∧ pair.requests.getLsbD (Lines.through line) = true ∧
      ¬pair.master.imr.getLsbD (Lines.through line) = true := by
  rcases deliverable with ⟨requested, enabled, wired⟩
  rcases Nat.lt_or_ge line 8 with isMaster | isSlave
  · have notWire := (represents.isLine line requested).2
    rw [Lines.through, if_pos isMaster]
    exact ⟨isMaster, (represents.requests_of_ne isMaster notWire).mpr requested,
      fun masked => (represents.masterMask line isMaster).mp masked enabled⟩
  · have wireInside : Pair.wire < 8 := by decide
    have asks : (pair.slave.asking pair.slave.irr).isSome := by
      rw [Option.isSome_iff_ne_none]
      intro silent
      exact represents.slaveSilent idle silent isSlave requested enabled
    rw [Lines.through, if_neg (Nat.not_lt.mpr isSlave)]
    exact ⟨wireInside, represents.requests_wire.trans asks,
      fun masked => (represents.masterMask Pair.wire wireInside).mp masked (wired isSlave)⟩

/-- Without a line that can be delivered there is no interrupt. -/
theorem acknowledge_none (represents : Represents first second pair lines)
    (idle : lines.serving = none) (silent : pair.master.asking pair.requests = none) (line : ℕ) :
    ¬lines.Deliverable line := by
  rw [Controller.asking_eq_none (represents.masterFree idle)] at silent
  intro deliverable
  rcases represents.through_asks idle deliverable with ⟨inside, asks, unmasked⟩
  exact unmasked (silent _ inside asks)

theorem priority_le {line other : ℕ} (below : line < 8)
    (isLine : other < 8 → line ≤ other ∧ other ≠ Pair.wire)
    (isSlave : 8 ≤ other → line < Pair.wire) : Lines.priority line ≤ Lines.priority other := by
  have isTwo : Pair.wire = 2 := rfl
  unfold Lines.priority
  rcases Nat.lt_or_ge other 8 with isMaster | isSlave'
  · have order := isLine isMaster
    split_ifs <;> omega
  · have order := isSlave isSlave'
    split_ifs <;> omega

/-- The interrupt that is taken is the one of the highest priority that can be delivered. -/
theorem acknowledge_some (represents : Represents first second pair lines)
    (idle : lines.serving = none) {index : ℕ}
    (asks : pair.master.asking pair.requests = some index) : ∃ line after,
      lines.Deliverable line ∧
        (∀ other, lines.Deliverable other → Lines.priority line ≤ Lines.priority other) ∧
        pair.acknowledge = some (Lines.vector first second line, after) ∧
        Represents first second after (lines.acknowledge line) := by
  have asking := (Controller.asking_eq_some (represents.masterFree idle)).mp asks
  rcases asking with ⟨inside, requested, unmasked, others⟩
  have enabled : index ∈ lines.enabled := by
    rw [← Bool.not_eq_true, represents.masterMask index inside, not_not] at unmasked
    exact unmasked
  have wireInside : Pair.wire < 8 := by decide
  have isTwo : Pair.wire = 2 := rfl
  -- What can be delivered does not come before the line that asks.
  have notBefore : ∀ other, lines.Deliverable other → index ≤ Lines.through other := by
    intro other deliverable
    rcases represents.through_asks idle deliverable with ⟨_, otherAsks, otherUnmasked⟩
    by_contra before
    exact otherUnmasked (others _ (Nat.not_le.mp before) otherAsks)
  by_cases isWire : index = Pair.wire
  · subst isWire
    rw [represents.requests_wire] at requested
    rcases Option.isSome_iff_exists.mp requested with ⟨inner, slaveAsks⟩
    rcases (represents.slaveAsking idle).mp slaveAsks with
      ⟨innerInside, innerRequested, innerEnabled, innerOthers⟩
    refine ⟨inner + 8, _, ⟨innerRequested, innerEnabled, fun _ => enabled⟩, ?_, ?_,
      represents.serve_slave idle innerInside⟩
    · intro other deliverable
      have notBefore := notBefore other deliverable
      rcases deliverable with ⟨isRequested, isEnabled, _⟩
      have isLine := represents.isLine other isRequested
      rcases Nat.lt_or_ge other 8 with isMaster | isSlave
      · rw [Lines.through, if_pos isMaster] at notBefore
        have notWire := isLine.2
        unfold Lines.priority
        split_ifs <;> omega
      · have order : inner ≤ other - 8 := by
          by_contra before
          have place : other - 8 + 8 = other := Nat.sub_add_cancel isSlave
          exact innerOthers (other - 8) (by omega) (place ▸ isRequested) (place ▸ isEnabled)
        unfold Lines.priority
        split_ifs <;> omega
    · have cascaded : pair.master.cascade.getLsbD Pair.wire = true := by
        rw [represents.cascade Pair.wire wireInside]
        rfl
      have isSlaveLine : ¬inner + 8 < 8 := by omega
      rw [Pair.acknowledge, asks, Option.bind_some, if_pos cascaded, slaveAsks, Lines.vector,
        if_neg isSlaveLine, represents.slaveOffset, Nat.add_sub_cancel]
      rfl
  · have isRequested := (represents.requests_of_ne inside isWire).mp requested
    have notCascaded : ¬pair.master.cascade.getLsbD index = true := by
      rw [represents.cascade index inside]
      simpa using isWire
    refine ⟨index, _, ⟨isRequested, enabled, fun isSlave => absurd inside (Nat.not_lt.mpr isSlave)⟩,
      ?_, ?_, represents.serve_master idle isRequested inside⟩
    · intro other deliverable
      have before := notBefore other deliverable
      have isLine := represents.isLine other deliverable.1
      apply priority_le inside
      · intro isMaster
        rw [Lines.through, if_pos isMaster] at before
        exact ⟨before, isLine.2⟩
      · intro isSlave
        rw [Lines.through, if_neg (Nat.not_lt.mpr isSlave)] at before
        exact lt_of_le_of_ne before isWire
    · rw [Pair.acknowledge, asks, Option.bind_some, if_neg notCascaded, Lines.vector,
        if_pos inside, represents.masterOffset]

theorem raise (represents : Represents first second pair lines) {line : ℕ}
    (isLine : Lines.IsLine line) :
    Represents first second (pair.raise line) (lines.raise line) := by
  have allLines : ∀ other ∈ (lines.raise line).requested, Lines.IsLine other := by
    rintro other (rfl | mem)
    · exact isLine
    · exact represents.isLine other mem
  rcases Nat.lt_or_ge line 8 with isMaster | isSlave
  · rw [Pair.raise, if_pos isMaster]
    exact {
      represents with
      isLine := allLines
      wireFree := by
        have inside : Pair.wire < 8 := by decide
        have requests : (pair.master.raise line).irr.getLsbD Pair.wire =
            (pair.master.irr.getLsbD Pair.wire || decide (Pair.wire = line)) :=
          getLsbD_insert inside
        rw [requests, represents.wireFree]
        simp [isLine.2.symm]
      masterRequests := by
        intro index inside notWire
        have requests : (pair.master.raise line).irr.getLsbD index =
            (pair.master.irr.getLsbD index || decide (index = line)) := getLsbD_insert inside
        rw [requests, Bool.or_eq_true, represents.masterRequests index inside notWire]
        simp [Lines.raise, or_comm]
      slaveRequests := by
        intro index inside
        have different : index + 8 ≠ line := by omega
        rw [represents.slaveRequests index inside]
        simp [Lines.raise, different] }
  · rw [Pair.raise, if_neg (Nat.not_lt.mpr isSlave)]
    exact {
      represents with
      isLine := allLines
      masterRequests := by
        intro index inside notWire
        have different : index ≠ line := by omega
        rw [represents.masterRequests index inside notWire]
        simp [Lines.raise, different]
      slaveRequests := by
        intro index inside
        have requests : (pair.slave.raise (line - 8)).irr.getLsbD index =
            (pair.slave.irr.getLsbD index || decide (index = line - 8)) := getLsbD_insert inside
        have same : index = line - 8 ↔ index + 8 = line := by omega
        rw [requests, Bool.or_eq_true, represents.slaveRequests index inside]
        simp [Lines.raise, same, or_comm] }

theorem maskMaster (represents : Represents first second pair lines) {mask : BitVec 8}
    {enabled : Set ℕ} (isMask : ∀ index < 8, mask.getLsbD index = true ↔ index ∉ enabled)
    (sameSlave : ∀ index < 8, index + 8 ∈ enabled ↔ index + 8 ∈ lines.enabled) :
    Represents first second { pair with master := pair.master.writeData mask }
      { lines with enabled := enabled } := by
  rw [Controller.writeData_ready represents.masterReady.1]
  exact {
    represents with
    masterMask := isMask
    slaveMask := by
      intro index inside
      rw [represents.slaveMask index inside]
      exact not_congr (sameSlave index inside).symm }

theorem maskSlave (represents : Represents first second pair lines) {mask : BitVec 8}
    {enabled : Set ℕ} (isMask : ∀ index < 8, mask.getLsbD index = true ↔ index + 8 ∉ enabled)
    (sameMaster : ∀ index < 8, index ∈ enabled ↔ index ∈ lines.enabled) :
    Represents first second { pair with slave := pair.slave.writeData mask }
      { lines with enabled := enabled } := by
  rw [Controller.writeData_ready represents.slaveReady.1]
  exact {
    represents with
    slaveMask := isMask
    masterMask := by
      intro index inside
      rw [represents.masterMask index inside]
      exact not_congr (sameMaster index inside).symm }

/-- The end of an interrupt where nothing is served has no effect. -/
theorem endOfInterrupt_free {controller : Controller}
    (free : ∀ index < 8, controller.isr.getLsbD index = false) :
    controller.endOfInterrupt = controller := by
  rw [Controller.endOfInterrupt, highest_eq_none.mpr free]

/-- The end of an interrupt where one line is served. -/
theorem endOfInterrupt_served {controller : Controller} {index : ℕ} (inside : index < 8)
    (serves : ∀ other < 8, controller.isr.getLsbD other = true ↔ other = index) :
    ∃ isr, controller.endOfInterrupt = { controller with isr := isr } ∧
      ∀ other < 8, isr.getLsbD other = false := by
  have isHighest : highest controller.isr = some index := by
    rw [highest_eq_some]
    refine ⟨inside, (serves index inside).mpr rfl, fun other below => ?_⟩
    rw [← Bool.not_eq_true, serves other (below.trans inside)]
    exact below.ne
  refine ⟨controller.isr &&& ~~~(InterruptController.line index), ?_, ?_⟩
  · rw [Controller.endOfInterrupt, isHighest]
  · intro other otherInside
    rw [getLsbD_erase otherInside]
    by_cases same : other = index
    · simp [same]
    · have notServed : controller.isr.getLsbD other = false := by
        rw [← Bool.not_eq_true, serves other otherInside]
        exact same
      rw [notServed]
      rfl

/-- The ends of the interrupt that is served, at both controllers where it came through both. -/
theorem finish (represents : Represents first second pair lines) {line : ℕ} (isLine : line < 16)
    (serving : lines.serving = some line) :
    Represents first second
      { master := pair.master.endOfInterrupt
        slave := if 8 ≤ line then pair.slave.endOfInterrupt else pair.slave }
      { lines with serving := none } := by
  have through : Lines.through line < 8 := by
    unfold Lines.through
    split
    · assumption
    · decide
  have masterServes : ∀ index < 8,
      pair.master.isr.getLsbD index = true ↔ index = Lines.through line := by
    intro index inside
    rw [represents.masterServes index inside, serving]
    simp
  rcases endOfInterrupt_served through masterServes with ⟨isr, ends, free⟩
  have masterFree : ∀ index < 8, isr.getLsbD index = true ↔
      ∃ other ∈ (none : Option ℕ), index = Lines.through other := by
    intro index inside
    simp [free index inside]
  rw [ends]
  by_cases isSlave : 8 ≤ line
  · rw [if_pos isSlave]
    have slaveServes : ∀ index < 8, pair.slave.isr.getLsbD index = true ↔ index = line - 8 := by
      intro index inside
      rw [represents.slaveServes index inside, serving, Option.mem_some_iff]
      omega
    rcases endOfInterrupt_served (by omega) slaveServes with ⟨slaveIsr, slaveEnds, slaveFree⟩
    rw [slaveEnds]
    exact {
      represents with
      masterServes := masterFree
      slaveServes := by
        intro index inside
        simp [slaveFree index inside] }
  · rw [if_neg isSlave]
    exact {
      represents with
      masterServes := masterFree
      slaveServes := by
        intro index inside
        have notServed : pair.slave.isr.getLsbD index = false := by
          rw [← Bool.not_eq_true, represents.slaveServes index inside, serving,
            Option.mem_some_iff]
          omega
        simp [notServed] }

end Represents

end InterruptController

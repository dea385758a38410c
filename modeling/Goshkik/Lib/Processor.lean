import Mathlib.Logic.Relation
import Goshkik.Lib.X86

/-!
# A processor that takes interrupts

One step executes the instruction that the instruction pointer names.  `deliver` is what the
processor does by itself when it takes an interrupt or an exception in 64-bit mode: it aligns the
stack, pushes where it has been interrupted, and continues at the gate of the vector.  `iretq`
takes those quadwords from the stack again and checks the segments that it returns to.

The code is not part of the memory, and the flags that an addition leaves are a parameter.  Of the
checks of a segment, those of its kind and of its privilege level are made.
-/

namespace ByteMemory

variable {memory other : ByteMemory} {place word : ℕ} {words : List ℕ}

/-- Quadwords that lie behind each other. -/
def Quads (memory : ByteMemory) (place : ℕ) : List ℕ → Prop
  | [] => True
  | word :: words => memory.readQuad place = word ∧ memory.Quads (place + 8) words

theorem Quads.congr (quads : memory.Quads place words)
    (same : ∀ byte, place ≤ byte → byte < place + 8 * words.length → other byte = memory byte) :
    other.Quads place words := by
  induction words generalizing place with
  | nil => trivial
  | cons word words ih =>
      rw [List.length_cons] at same
      constructor
      · rw [← quads.1]
        apply readQuad_congr
        intro byte above below
        exact same byte above (by omega)
      · apply ih quads.2
        intro byte above below
        exact same byte (by omega) (by omega)

theorem quads_append {more : List ℕ} :
    memory.Quads place (words ++ more) ↔
      memory.Quads place words ∧ memory.Quads (place + 8 * words.length) more := by
  induction words generalizing place with
  | nil => simp [Quads]
  | cons word words ih =>
      have behind : place + 8 * (words.length + 1) = place + 8 + 8 * words.length := by ring
      rw [List.cons_append, Quads, ih, Quads, List.length_cons, behind, and_assoc]

theorem Quads.getElem (quads : memory.Quads place words) {index : ℕ}
    (inside : index < words.length) : memory.readQuad (place + 8 * index) = words[index] := by
  induction words generalizing place index with
  | nil => exact absurd inside (Nat.not_lt_zero index)
  | cons word words ih =>
      cases index with
      | zero => exact quads.1
      | succ index =>
          have behind : place + 8 * (index + 1) = place + 8 + 8 * index := by ring
          rw [behind]
          exact ih quads.2 (Nat.lt_of_succ_lt_succ inside)

theorem quads_of_getElem (reads : ∀ index, (inside : index < words.length) →
    memory.readQuad (place + 8 * index) = words[index]) : memory.Quads place words := by
  induction words generalizing place with
  | nil => trivial
  | cons word words ih =>
      constructor
      · exact reads 0 (Nat.zero_lt_succ _)
      · apply ih
        intro index inside
        have behind : place + 8 + 8 * index = place + 8 * (index + 1) := by ring
        rw [behind]
        exact reads (index + 1) (Nat.succ_lt_succ inside)

/-- A quadword that is written below others. -/
theorem Quads.push (quads : memory.Quads place words) (fits : word < 2 ^ 64) (room : 8 ≤ place) :
    (memory.writeQuad (place - 8) word).Quads (place - 8) (word :: words) := by
  have next : place - 8 + 8 = place := Nat.sub_add_cancel room
  constructor
  · exact readQuad_writeQuad fits
  · rw [next]
    apply quads.congr
    intro byte above _
    apply write_of_outside
    omega

end ByteMemory

namespace X86

inductive Operation where
  | push (source : Register)
  | pushImmediate (value : ℕ)
  | pop (target : Register)
  | move (target source : Register)
  | load (target base : Register) (offset : ℕ)
  | addImmediate (target : Register) (value : ℕ)
  | jmp (target : ℕ)
  | call (target : ℕ)
  | ret
  | int (vector : ℕ)
  | iretq
  deriving DecidableEq

/-- The processor between two instructions. -/
structure Core where
  registers : Register → ℕ
  memory : ByteMemory
  rip : ℕ
  cs : ℕ
  ss : ℕ
  rflags : ℕ

/-- An interrupt gate that is present. -/
structure Gate where
  offset : ℕ
  selector : ℕ
  level : ℕ

/-- A present segment, for code or for data, and its privilege level. -/
structure Segment where
  isCode : Bool
  writable : Bool
  level : ℕ
  deriving DecidableEq

/-- What the processor finds in memory that the programs do not change: the instruction at an
address with the address behind it, the descriptor tables by vector and by selector, and the stack
for interrupts of user code. -/
structure Processor where
  fetch : ℕ → Option (Operation × ℕ)
  gate : ℕ → Option Gate
  segment : ℕ → Option Segment
  rsp0 : ℕ
  sumFlags : ℕ → ℕ → ℕ → ℕ

namespace Core

variable (core : Core)

def set (register : Register) (value : ℕ) : Core :=
  { core with registers := Function.update core.registers register value }

/-- The privilege level of the running code. -/
def level : ℕ := core.cs % 4

def pushWord (word : ℕ) : Core :=
  let lower := (core.registers .rsp + 2 ^ 64 - 8) % 2 ^ 64
  { core.set .rsp lower with memory := core.memory.writeQuad lower word }

def pushWords (words : List ℕ) : Core := words.foldl pushWord core

/-- The quadword on top of the stack. -/
def top (index : ℕ) : ℕ := core.memory.readQuad ((core.registers .rsp + 8 * index) % 2 ^ 64)

/-- All registers hold 64 bits. -/
structure Bounded : Prop where
  registers : ∀ register, core.registers register < 2 ^ 64
  rip : core.rip < 2 ^ 64
  cs : core.cs < 2 ^ 64
  ss : core.ss < 2 ^ 64
  rflags : core.rflags < 2 ^ 64

end Core

/-- Blocks of instructions at their addresses, with one address for each instruction. -/
def fetchImage (image : List (ℕ × List Operation)) (address : ℕ) : Option (Operation × ℕ) :=
  image.findSome? (fun block =>
    if block.1 ≤ address then
      block.2[address - block.1]?.map (fun operation => (operation, address + 1))
    else none)

namespace Processor

variable (processor : Processor)

/-- An operation behind which the processor continues with the next one. -/
def perform (core : Core) : Operation → Core
  | .push source => core.pushWord (core.registers source)
  | .pushImmediate value => core.pushWord value
  | .pop target => (core.set .rsp ((core.registers .rsp + 8) % 2 ^ 64)).set target (core.top 0)
  | .move target source => core.set target (core.registers source)
  | .load target base offset =>
      core.set target (core.memory.readQuad ((core.registers base + offset) % 2 ^ 64))
  | .addImmediate target value =>
      { core.set target ((core.registers target + value) % 2 ^ 64) with
        rflags := processor.sumFlags core.rflags (core.registers target) value }
  | .jmp _ | .call _ | .ret | .int _ | .iretq => core

/-- The flags with which a handler starts: interrupts, single steps and nested tasks are off. -/
def handlerFlags (rflags : ℕ) : ℕ :=
  rflags &&& (2 ^ 64 - 1 - (2 ^ 8 + 2 ^ 9 + 2 ^ 14 + 2 ^ 16 + 2 ^ 17))

/-- The stack that an interrupt starts on. -/
def interruptStack (core : Core) : ℕ :=
  (if core.level = 0 then core.registers .rsp else processor.rsp0) / 16 * 16

/-- Take an interrupt.  An `int` instruction may only use a gate of its own privilege level; without
a usable gate there is a fault.  The flags are pushed as they are: the resume flag, which the
processor sets in the pushed flags of a fault, is not modelled. -/
def deliver (vector : ℕ) (error : Option ℕ) (software : Bool) (core : Core) : Option Core := do
  let gate ← processor.gate vector
  if software ∧ gate.level < core.level then none
  else
    let pushed := (core.set .rsp (processor.interruptStack core)).pushWords
      ([core.ss, core.registers .rsp, core.rflags, core.cs, core.rip] ++ error.toList)
    return { pushed with
      rip := gate.offset
      cs := gate.selector
      ss := if core.level = 0 then core.ss else 0
      rflags := handlerFlags core.rflags }

/-- The segment that a selector names is code of the selector's own privilege level. -/
def codeAt (selector : ℕ) : Bool :=
  match processor.segment selector with
  | none => false
  | some segment => segment.isCode && segment.level = selector % 4

/-- The selector may be used for the stack at a privilege level. -/
def stackAt (level selector : ℕ) : Bool :=
  if selector / 4 = 0 then selector % 4 = level && level ≠ 3
  else
    match processor.segment selector with
    | none => false
    | some segment =>
        !segment.isCode && segment.writable && segment.level = level && selector % 4 = level

/-- `iretq`, which faults when it cannot return to the segments on the stack.  That it also faults
when the address it returns to is not canonical is not modelled. -/
def interruptReturn (core : Core) : Option Core :=
  if core.top 1 % 4 < core.level then none
  else if processor.codeAt (core.top 1) ∧ processor.stackAt (core.top 1 % 4) (core.top 4) then
    some { core.set .rsp (core.top 3) with
      rip := core.top 0
      cs := core.top 1
      rflags := core.top 2
      ss := core.top 4 }
  else none

/-- One instruction.  There is no step where the processor faults. -/
def step (core : Core) : Option Core := do
  let (operation, next) ← processor.fetch core.rip
  match operation with
  | .jmp target => return { core with rip := target }
  | .call target => return { core.pushWord next with rip := target }
  | .ret => return { core.set .rsp ((core.registers .rsp + 8) % 2 ^ 64) with rip := core.top 0 }
  | .int vector => processor.deliver vector none true { core with rip := next }
  | .iretq => processor.interruptReturn core
  | operation => return { processor.perform core operation with rip := next }

/-- Any number of instructions. -/
def Steps : Core → Core → Prop :=
  Relation.ReflTransGen (fun core next => processor.step core = some next)

/-- The instruction that comes next. -/
def operation? (core : Core) : Option Operation := (processor.fetch core.rip).map Prod.fst

/-- Instructions other than a return from an interrupt. -/
def StepsInside : Core → Core → Prop :=
  Relation.ReflTransGen (fun core next =>
    processor.operation? core ≠ some .iretq ∧ processor.step core = some next)

/-- Where the next return from an interrupt leads. -/
def Leaves (core next : Core) : Prop :=
  ∃ last, processor.StepsInside core last ∧ processor.operation? last = some .iretq ∧
    processor.step last = some next

/-- Instructions that lie behind each other from one address to another. -/
def Located : ℕ → List Operation → ℕ → Prop
  | place, [], last => place = last
  | place, operation :: operations, last =>
      ∃ next, processor.fetch place = some (operation, next) ∧ Located next operations last

end Processor

def Operation.straight : Operation → Bool
  | .jmp _ | .call _ | .ret | .int _ | .iretq => false
  | _ => true

namespace Core

variable {core : Core} {register : Register} {value word : ℕ} {words : List ℕ}

@[simp]
theorem set_registers_same : (core.set register value).registers register = value := by
  simp [set]

theorem set_registers_ne {other : Register} (different : other ≠ register) :
    (core.set register value).registers other = core.registers other := by
  simp [set, different]

@[simp]
theorem set_memory : (core.set register value).memory = core.memory := rfl

@[simp]
theorem set_cs : (core.set register value).cs = core.cs := rfl

@[simp]
theorem set_rflags : (core.set register value).rflags = core.rflags := rfl

theorem pushWord_rsp (room : 8 ≤ core.registers .rsp)
    (bounded : core.registers .rsp < 2 ^ 64) :
    (core.pushWord word).registers .rsp = core.registers .rsp - 8 := by
  simp only [pushWord, set_registers_same]
  omega

theorem pushWord_memory (room : 8 ≤ core.registers .rsp)
    (bounded : core.registers .rsp < 2 ^ 64) :
    (core.pushWord word).memory = core.memory.writeQuad (core.registers .rsp - 8) word := by
  have lower : (core.registers .rsp + 2 ^ 64 - 8) % 2 ^ 64 = core.registers .rsp - 8 := by omega
  simp only [pushWord, lower]

/-- What is left of a core when quadwords have been pushed. -/
structure Pushed (core after : Core) (size : ℕ) : Prop where
  rsp : after.registers .rsp = core.registers .rsp - size
  registers : ∀ register, register ≠ .rsp → after.registers register = core.registers register
  outside : ∀ place, place < core.registers .rsp - size ∨ core.registers .rsp ≤ place →
    after.memory place = core.memory place
  rip : after.rip = core.rip
  cs : after.cs = core.cs
  ss : after.ss = core.ss
  rflags : after.rflags = core.rflags

theorem pushed_refl (core : Core) : core.Pushed core 0 :=
  ⟨rfl, fun _ _ => rfl, fun _ _ => rfl, rfl, rfl, rfl, rfl⟩

theorem pushed_pushWord (room : 8 ≤ core.registers .rsp)
    (bounded : core.registers .rsp < 2 ^ 64) : core.Pushed (core.pushWord word) 8 where
  rsp := pushWord_rsp room bounded
  registers := fun _ different => set_registers_ne different
  outside := by
    intro place outside
    rw [pushWord_memory room bounded]
    apply ByteMemory.write_of_outside
    omega
  rip := rfl
  cs := rfl
  ss := rfl
  rflags := rfl

theorem Pushed.trans {middle after : Core} {size more : ℕ} (first : core.Pushed middle size)
    (second : middle.Pushed after more) : core.Pushed after (size + more) where
  rsp := by
    rw [second.rsp, first.rsp]
    omega
  registers := fun register different =>
    (second.registers register different).trans (first.registers register different)
  outside := by
    intro place outside
    have firstStack := first.rsp
    apply (second.outside place (by omega)).trans
    apply first.outside place
    omega
  rip := second.rip.trans first.rip
  cs := second.cs.trans first.cs
  ss := second.ss.trans first.ss
  rflags := second.rflags.trans first.rflags

/-- Words that are pushed lie on the stack with the last one on top. -/
theorem pushWords_pushed {older : List ℕ} (room : 8 * words.length ≤ core.registers .rsp)
    (bounded : core.registers .rsp < 2 ^ 64) (fits : ∀ word ∈ words, word < 2 ^ 64)
    (quads : core.memory.Quads (core.registers .rsp) older) :
    core.Pushed (core.pushWords words) (8 * words.length) ∧
      (core.pushWords words).memory.Quads (core.registers .rsp - 8 * words.length)
        (words.reverse ++ older) := by
  induction words generalizing core older with
  | nil => exact ⟨core.pushed_refl, quads⟩
  | cons word words ih =>
      rw [List.length_cons] at room
      have first : core.Pushed (core.pushWord word) 8 := pushed_pushWord (by omega) bounded
      have stack := first.rsp
      have onTop : (core.pushWord word).memory.Quads ((core.pushWord word).registers .rsp)
          (word :: older) := by
        rw [pushWord_memory (by omega) bounded, pushWord_rsp (by omega) bounded]
        exact quads.push (fits word List.mem_cons_self) (by omega)
      have rest := @ih (core.pushWord word) (word :: older) (by omega) (by omega)
        (fun other mem => fits other (List.mem_cons_of_mem word mem)) onTop
      rcases rest with ⟨pushed, behind⟩
      have size : 8 + 8 * words.length = 8 * (words.length + 1) := by ring
      have place : (core.pushWord word).registers .rsp - 8 * words.length =
          core.registers .rsp - 8 * (words.length + 1) := by omega
      rw [place] at behind
      rw [List.length_cons, List.reverse_cons, List.append_assoc, ← size]
      exact ⟨first.trans pushed, size ▸ behind⟩

end Core

namespace Processor

variable {processor : Processor} {core next last : Core} {base place : ℕ}
  {block rest : List Operation}

theorem Steps.trans (first : processor.Steps core next) (second : processor.Steps next last) :
    processor.Steps core last :=
  Relation.ReflTransGen.trans first second

theorem Steps.of_step (steps : processor.step core = some next) : processor.Steps core next :=
  Relation.ReflTransGen.single steps

theorem located_append : processor.Located base (block ++ rest) place ↔
    ∃ middle, processor.Located base block middle ∧ processor.Located middle rest place := by
  induction block generalizing base with
  | nil => simp [Located]
  | cons operation block ih =>
      simp only [List.cons_append, Located, ih]
      constructor
      · rintro ⟨next, here, middle, located, behind⟩
        exact ⟨middle, ⟨next, here, located⟩, behind⟩
      · rintro ⟨middle, ⟨next, here, located⟩, behind⟩
        exact ⟨next, here, middle, located, behind⟩

/-- A block stays in memory when more is in memory. -/
theorem Located.mono {other : Processor} (located : processor.Located base block place)
    (more : ∀ address found, processor.fetch address = some found →
      other.fetch address = some found) : other.Located base block place := by
  induction block generalizing base with
  | nil => exact located
  | cons operation block ih =>
      rcases located with ⟨next, here, located⟩
      exact ⟨next, more _ _ here, ih located⟩

theorem fetchImage_append {image more : List (ℕ × List Operation)} {address : ℕ}
    {found : Operation × ℕ} (fetched : fetchImage image address = some found) :
    fetchImage (image ++ more) address = some found := by
  unfold fetchImage at fetched ⊢
  rw [List.findSome?_append, fetched]
  rfl

/-- Where a block ends that is in memory. -/
def endOf (processor : Processor) (place : ℕ) : List Operation → Option ℕ
  | [] => some place
  | operation :: operations =>
      (processor.fetch place).bind (fun found =>
        if found.1 = operation then endOf processor found.2 operations else none)

theorem located_of_endOf (ends : processor.endOf base block = some place) :
    processor.Located base block place := by
  induction block generalizing base with
  | nil => exact Option.some.inj ends
  | cons operation block ih =>
      rcases Option.bind_eq_some_iff.mp ends with ⟨⟨found, next⟩, here, ends⟩
      split at ends
      · rename_i isOperation
        exact ⟨next, isOperation ▸ here, ih ends⟩
      · cases ends

theorem StepsInside.steps (inside : processor.StepsInside core next) :
    processor.Steps core next := by
  induction inside with
  | refl => exact Relation.ReflTransGen.refl
  | tail _ goes ih => exact ih.trans (Steps.of_step goes.2)

/-- Of the places that are reached step by step, one at most is the last. -/
theorem reached_unique {relation : Core → Core → Prop} {other : Core}
    (functional : Relator.RightUnique relation) (first : Relation.ReflTransGen relation core next)
    (second : Relation.ReflTransGen relation core other) (stops : ∀ after, ¬relation next after)
    (otherStops : ∀ after, ¬relation other after) : next = other := by
  rcases Relation.ReflTransGen.total_of_right_unique functional first second with steps | steps
  · rcases Relation.ReflTransGen.cases_head steps with same | ⟨after, goes, _⟩
    · exact same
    · exact absurd goes (stops after)
  · rcases Relation.ReflTransGen.cases_head steps with same | ⟨after, goes, _⟩
    · exact same.symm
    · exact absurd goes (otherStops after)

/-- A processor that stops does so at one place. -/
theorem Steps.unique {other : Core} (first : processor.Steps core next)
    (second : processor.Steps core other) (stops : processor.step next = none)
    (otherStops : processor.step other = none) : next = other := by
  apply reached_unique (fun _ _ _ left right => Option.some.inj (left.symm.trans right)) first
    second
  · intro after goes
    cases stops.symm.trans goes
  · intro after goes
    cases otherStops.symm.trans goes

theorem StepsInside.unique {other : Core} (first : processor.StepsInside core next)
    (second : processor.StepsInside core other) (stops : processor.operation? next = some .iretq)
    (otherStops : processor.operation? other = some .iretq) : next = other := by
  apply reached_unique (fun _ _ _ left right => Option.some.inj (left.2.symm.trans right.2)) first
    second
  · intro after goes
    exact goes.1 stops
  · intro after goes
    exact goes.1 otherStops

/-- A block of operations, one after the other. -/
def performAll (processor : Processor) (core : Core) (block : List Operation) : Core :=
  block.foldl processor.perform core

@[simp]
theorem perform_rip (operation : Operation) :
    (processor.perform core operation).rip = core.rip := by
  cases operation <;> rfl

theorem perform_atRip (operation : Operation) (place : ℕ) :
    processor.perform { core with rip := place } operation =
      { processor.perform core operation with rip := place } := by
  cases operation <;> simp only [perform, Core.pushWord, Core.set, Core.top]

theorem perform_addImmediate (target : Register) (value : ℕ) :
    (processor.perform core (.addImmediate target value)).registers =
        Function.update core.registers target ((core.registers target + value) % 2 ^ 64) ∧
      (processor.perform core (.addImmediate target value)).memory = core.memory ∧
      (processor.perform core (.addImmediate target value)).cs = core.cs :=
  ⟨rfl, rfl, rfl⟩

/-- A block without jumps is run in one go. -/
theorem steps_block (located : processor.Located core.rip block place)
    (straight : ∀ operation ∈ block, operation.straight) :
    processor.StepsInside core { processor.performAll core block with rip := place } := by
  induction block generalizing core with
  | nil =>
      cases located
      exact Relation.ReflTransGen.refl
  | cons operation block ih =>
      rcases located with ⟨next, here, located⟩
      have first : processor.step core =
          some { processor.perform core operation with rip := next } := by
        have isStraight := straight operation List.mem_cons_self
        rw [step, here]
        cases operation <;> first | rfl | simp [Operation.straight] at isStraight
      have notReturn : processor.operation? core ≠ some .iretq := by
        have isStraight := straight operation List.mem_cons_self
        rw [operation?, here]
        rintro isReturn
        obtain rfl := Option.some.inj isReturn
        cases isStraight
      have behind := @ih { processor.perform core operation with rip := next } located
        (fun other mem => straight other (List.mem_cons_of_mem operation mem))
      apply Relation.ReflTransGen.head ⟨notReturn, first⟩
      have same : { processor.performAll { processor.perform core operation with rip := next }
          block with rip := place } =
          { processor.performAll core (operation :: block) with rip := place } := by
        have moved : ∀ (block : List Operation) (core : Core),
            processor.performAll { core with rip := next } block =
              { processor.performAll core block with rip := next } := by
          intro block
          induction block with
          | nil => exact fun _ => rfl
          | cons other block inner =>
              intro core
              simp only [performAll, List.foldl_cons, perform_atRip] at inner ⊢
              exact inner _
        rw [moved]
        rfl
      rw [same] at behind
      exact behind

theorem performAll_append :
    processor.performAll core (block ++ rest) =
      processor.performAll (processor.performAll core block) rest :=
  List.foldl_append

/-- Registers that are pushed have their first values all along. -/
theorem performAll_push {sources : List Register} (notStack : .rsp ∉ sources) :
    processor.performAll core (sources.map .push) =
      core.pushWords (sources.map core.registers) := by
  induction sources generalizing core with
  | nil => rfl
  | cons source sources ih =>
      rw [List.mem_cons, not_or] at notStack
      have kept : sources.map (core.pushWord (core.registers source)).registers =
          sources.map core.registers := by
        apply List.map_congr_left
        intro register mem
        apply Core.set_registers_ne
        rintro rfl
        exact notStack.2 mem
      have behind := @ih (core.pushWord (core.registers source)) notStack.2
      rw [kept] at behind
      exact behind

/-- Registers that are pushed lie on the stack with the last one on top. -/
theorem performAll_push_pushed {sources : List Register} {words : List ℕ}
    (notStack : .rsp ∉ sources) (room : 8 * sources.length ≤ core.registers .rsp)
    (bounded : ∀ register, core.registers register < 2 ^ 64)
    (quads : core.memory.Quads (core.registers .rsp) words) :
    core.Pushed (processor.performAll core (sources.map .push)) (8 * sources.length) ∧
      (processor.performAll core (sources.map .push)).memory.Quads
        (core.registers .rsp - 8 * sources.length)
        ((sources.map core.registers).reverse ++ words) := by
  have fits : ∀ word ∈ sources.map core.registers, word < 2 ^ 64 := by
    intro word mem
    rcases List.mem_map.mp mem with ⟨register, _, rfl⟩
    exact bounded register
  have pushed := @Core.pushWords_pushed core (sources.map core.registers) words
    (by rwa [List.length_map]) (bounded .rsp) fits quads
  rw [List.length_map] at pushed
  rw [performAll_push notStack]
  exact pushed

theorem performAll_pushImmediate {numbers : List ℕ} :
    processor.performAll core (numbers.map .pushImmediate) = core.pushWords numbers := by
  rw [performAll, List.foldl_map]
  rfl

/-- A block that pushes numbers and goes on somewhere else. -/
theorem steps_pushes {numbers words : List ℕ} {target : ℕ}
    (located : processor.Located core.rip (numbers.map .pushImmediate ++ [.jmp target]) place)
    (room : 8 * numbers.length ≤ core.registers .rsp) (bounded : core.registers .rsp < 2 ^ 64)
    (fits : ∀ number ∈ numbers, number < 2 ^ 64)
    (quads : core.memory.Quads (core.registers .rsp) words) :
    ∃ pushed, core.Pushed pushed (8 * numbers.length) ∧
      pushed.memory.Quads (core.registers .rsp - 8 * numbers.length) (numbers.reverse ++ words) ∧
      processor.Steps core { pushed with rip := target } := by
  rcases located_append.mp located with ⟨middle, pushes, next, jump, _⟩
  have straight : ∀ operation ∈ numbers.map Operation.pushImmediate, operation.straight := by
    intro operation mem
    rcases List.mem_map.mp mem with ⟨number, _, rfl⟩
    rfl
  have block := steps_block pushes straight
  rw [performAll_pushImmediate] at block
  rcases Core.pushWords_pushed room bounded fits quads with ⟨pushed, behind⟩
  have jumps : processor.step { core.pushWords numbers with rip := middle } =
      some { core.pushWords numbers with rip := target } := by
    rw [step, jump]
    rfl
  exact ⟨_, pushed, behind, block.steps.trans (Steps.of_step jumps)⟩

/-- What is left of a core when quadwords have been popped into registers. -/
structure Popped (core after : Core) (targets : List Register) (words : List ℕ) : Prop where
  rsp : after.registers .rsp = core.registers .rsp + 8 * targets.length
  values : targets.map after.registers = words
  registers : ∀ register, register ≠ .rsp → register ∉ targets →
    after.registers register = core.registers register
  memory : after.memory = core.memory
  rip : after.rip = core.rip
  cs : after.cs = core.cs
  ss : after.ss = core.ss
  rflags : after.rflags = core.rflags

theorem top_eq {words : List ℕ} {index : ℕ}
    (room : core.registers .rsp + 8 * words.length ≤ 2 ^ 64)
    (quads : core.memory.Quads (core.registers .rsp) words) (inside : index < words.length) :
    core.top index = words[index] := by
  rw [Core.top, Nat.mod_eq_of_lt (by omega)]
  exact quads.getElem inside

theorem performAll_pop {targets : List Register} {words : List ℕ} (notStack : .rsp ∉ targets)
    (distinct : targets.Nodup) (sameLength : words.length = targets.length)
    (room : core.registers .rsp + 8 * targets.length < 2 ^ 64)
    (quads : core.memory.Quads (core.registers .rsp) words) :
    Popped core (processor.performAll core (targets.map .pop)) targets words := by
  induction targets generalizing core words with
  | nil =>
      obtain rfl := List.length_eq_zero_iff.mp sameLength
      exact ⟨rfl, rfl, fun _ _ _ => rfl, rfl, rfl, rfl, rfl, rfl⟩
  | cons target targets ih =>
      cases words with
      | nil => cases sameLength
      | cons word words =>
          rw [List.length_cons] at room
          rw [List.mem_cons, not_or] at notStack
          rw [List.nodup_cons] at distinct
          have lengths : words.length = targets.length := Nat.succ.inj sameLength
          have first : core.top 0 = word :=
            @top_eq core (word :: words) 0 (by rw [List.length_cons]; omega) quads
              (Nat.zero_lt_succ _)
          have stack : (processor.perform core (.pop target)).registers .rsp =
              core.registers .rsp + 8 := by
            simp only [perform]
            rw [Core.set_registers_ne notStack.1, Core.set_registers_same]
            omega
          have value : (processor.perform core (.pop target)).registers target = word := by
            simp only [perform, Core.set_registers_same, first]
          have others : ∀ register, register ≠ .rsp → register ≠ target →
              (processor.perform core (.pop target)).registers register =
                core.registers register := by
            intro register notRsp different
            simp only [perform]
            rw [Core.set_registers_ne different, Core.set_registers_ne notRsp]
          have popped := @ih (processor.perform core (.pop target)) words notStack.2 distinct.2
            lengths (by rw [stack]; omega) (by rw [stack]; exact quads.2)
          have targetStack : target ≠ .rsp := fun same => notStack.1 same.symm
          refine ⟨?_, ?_, ?_, popped.memory, popped.rip, popped.cs, popped.ss, popped.rflags⟩
          · refine popped.rsp.trans ?_
            rw [stack, List.length_cons]
            ring
          · have last := popped.registers target targetStack distinct.1
            rw [List.map_cons]
            exact congrArg₂ List.cons (last.trans value) popped.values
          · intro register notRsp notTarget
            rw [List.mem_cons, not_or] at notTarget
            exact (popped.registers register notRsp notTarget.2).trans
              (others register notRsp notTarget.1)

/-- The processor at the first instruction of a routine that has been called. -/
structure Called (core called : Core) (target back : ℕ) : Prop where
  rip : called.rip = target
  rsp : called.registers .rsp + 8 = core.registers .rsp
  back : called.memory.readQuad (called.registers .rsp) = back
  registers : ∀ register, register ≠ .rsp → called.registers register = core.registers register
  outside : ∀ place, place < called.registers .rsp ∨ core.registers .rsp ≤ place →
    called.memory place = core.memory place
  cs : called.cs = core.cs
  rflags : called.rflags = core.rflags

theorem steps_call {target back : ℕ} (here : processor.fetch core.rip = some (.call target, back))
    (room : 8 ≤ core.registers .rsp) (bounded : core.registers .rsp < 2 ^ 64)
    (backFits : back < 2 ^ 64) :
    ∃ called, processor.Steps core called ∧ Called core called target back := by
  have calls : processor.step core = some { core.pushWord back with rip := target } := by
    rw [step, here]
    rfl
  have pushed : core.Pushed (core.pushWord back) 8 := Core.pushed_pushWord room bounded
  have memory : (core.pushWord back).memory =
      core.memory.writeQuad (core.registers .rsp - 8) back :=
    Core.pushWord_memory room bounded
  have stack := pushed.rsp
  refine ⟨_, Steps.of_step calls, ⟨rfl, ?_, ?_, pushed.registers, ?_, pushed.cs, pushed.rflags⟩⟩
  · simp only [stack]
    omega
  · simp only [memory, stack]
    exact ByteMemory.readQuad_writeQuad backFits
  · intro place outside
    simp only [stack] at outside
    exact pushed.outside place outside

theorem step_ret {next : ℕ} (here : processor.fetch core.rip = some (.ret, next))
    (room : core.registers .rsp + 8 < 2 ^ 64) : processor.step core =
      some { core.set .rsp (core.registers .rsp + 8) with
        rip := core.memory.readQuad (core.registers .rsp) } := by
  have top : core.top 0 = core.memory.readQuad (core.registers .rsp) := by
    rw [Core.top, Nat.mod_eq_of_lt (by omega)]
    rfl
  have returns : processor.step core =
      some { core.set .rsp ((core.registers .rsp + 8) % 2 ^ 64) with rip := core.top 0 } := by
    rw [step, here]
    rfl
  rw [returns, top, Nat.mod_eq_of_lt room]

/-! ## The way into an interrupt and out of it -/

/-- What an interrupt leaves on the stack, with the last quadword on top. -/
def interruptWords (core : Core) (error : Option ℕ) : List ℕ :=
  error.toList ++ [core.rip, core.cs, core.rflags, core.registers .rsp, core.ss]

/-- The processor at the first instruction of a handler. -/
structure Delivered (processor : Processor) (core entry : Core) (gate : Gate) (error : Option ℕ) :
    Prop where
  rsp : entry.registers .rsp =
    processor.interruptStack core - 8 * (interruptWords core error).length
  registers : ∀ register, register ≠ .rsp → entry.registers register = core.registers register
  stack : entry.memory.Quads (entry.registers .rsp) (interruptWords core error)
  outside : ∀ place, place < entry.registers .rsp ∨ processor.interruptStack core ≤ place →
    entry.memory place = core.memory place
  rip : entry.rip = gate.offset
  cs : entry.cs = gate.selector
  ss : entry.ss = if core.level = 0 then core.ss else 0
  rflags : entry.rflags = handlerFlags core.rflags

theorem interruptStack_lt (bounded : core.registers .rsp < 2 ^ 64)
    (stack : processor.rsp0 < 2 ^ 64) :
    processor.interruptStack core < 2 ^ 64 := by
  unfold interruptStack
  split <;> omega

theorem deliver_software_isSome {vector : ℕ} {error : Option ℕ} :
    (processor.deliver vector error true core).isSome ↔
      ∃ gate, processor.gate vector = some gate ∧ core.level ≤ gate.level := by
  rw [deliver]
  cases found : processor.gate vector with
  | none => simp
  | some gate => simp [Option.isSome_iff_exists]

/-- A gate that may be used is taken. -/
theorem deliver_delivered {vector : ℕ} {gate : Gate} {error : Option ℕ} {software : Bool}
    (bounded : core.Bounded) (stack : processor.rsp0 < 2 ^ 64)
    (found : processor.gate vector = some gate)
    (allowed : software → core.level ≤ gate.level) (fits : ∀ code ∈ error, code < 2 ^ 64)
    (room : 48 ≤ processor.interruptStack core) :
    ∃ entry, processor.deliver vector error software core = some entry ∧
      processor.Delivered core entry gate error := by
  have notRefused : ¬(software = true ∧ gate.level < core.level) := by
    rintro ⟨isSoftware, below⟩
    exact absurd (allowed isSoftware) (Nat.not_le.mpr below)
  have lengths : ([core.ss, core.registers .rsp, core.rflags, core.cs, core.rip] ++
      error.toList).length = (interruptWords core error).length := by
    cases error <;> rfl
  have short : (interruptWords core error).length ≤ 6 := by
    cases error <;> simp [interruptWords]
  have smallWords : ∀ word ∈ [core.ss, core.registers .rsp, core.rflags, core.cs, core.rip] ++
      error.toList, word < 2 ^ 64 := by
    intro word mem
    rw [List.mem_append, Option.mem_toList] at mem
    rcases mem with mem | mem
    · simp only [List.mem_cons, List.not_mem_nil, or_false] at mem
      rcases mem with rfl | rfl | rfl | rfl | rfl
      · exact bounded.ss
      · exact bounded.registers .rsp
      · exact bounded.rflags
      · exact bounded.cs
      · exact bounded.rip
    · exact fits word mem
  have top : (core.set .rsp (processor.interruptStack core)).registers .rsp =
      processor.interruptStack core := Core.set_registers_same
  have below := interruptStack_lt (bounded.registers .rsp) stack
  have pushes := @Core.pushWords_pushed (core.set .rsp (processor.interruptStack core))
    ([core.ss, core.registers .rsp, core.rflags, core.cs, core.rip] ++ error.toList) []
    (by rw [top, lengths]; omega) (by rwa [top]) smallWords trivial
  rcases pushes with ⟨pushed, quads⟩
  have pushedStack := pushed.rsp
  have pushedOutside := pushed.outside
  rw [top, lengths] at pushedStack pushedOutside quads
  have isTaken : processor.deliver vector error software core = some
      { (core.set .rsp (processor.interruptStack core)).pushWords
          ([core.ss, core.registers .rsp, core.rflags, core.cs, core.rip] ++ error.toList) with
        rip := gate.offset
        cs := gate.selector
        ss := if core.level = 0 then core.ss else 0
        rflags := handlerFlags core.rflags } := by
    simp only [deliver, found, Option.bind_eq_bind, Option.bind_some]
    rw [if_neg notRefused]
    rfl
  refine ⟨_, isTaken, ⟨pushedStack, ?_, ?_, ?_, rfl, rfl, rfl, rfl⟩⟩
  · intro register different
    exact (pushed.registers register different).trans (Core.set_registers_ne different)
  · have words : ([core.ss, core.registers .rsp, core.rflags, core.cs, core.rip] ++
        error.toList).reverse ++ [] = interruptWords core error := by
      cases error <;> rfl
    rw [words] at quads
    rw [pushedStack]
    exact quads
  · intro place outside
    rw [pushedStack] at outside
    exact pushedOutside place outside

/-- The segments that an interrupt returns to may be used. -/
def Returnable (processor : Processor) (level cs ss : ℕ) : Prop :=
  level ≤ cs % 4 ∧ processor.codeAt cs = true ∧ processor.stackAt (cs % 4) ss = true

/-- A return from level 0 takes what is on the stack, if it names usable segments. -/
theorem interruptReturn_eq {rip cs rflags rsp ss : ℕ} (level : core.level = 0)
    (quads : core.memory.Quads (core.registers .rsp) [rip, cs, rflags, rsp, ss])
    (room : core.registers .rsp + 40 ≤ 2 ^ 64) :
    processor.interruptReturn core =
      if processor.codeAt cs ∧ processor.stackAt (cs % 4) ss then
        some { core.set .rsp rsp with rip := rip, cs := cs, rflags := rflags, ss := ss }
      else none := by
  have top : ∀ index, (inside : index < 5) →
      core.top index = [rip, cs, rflags, rsp, ss][index] := fun index inside =>
    top_eq room quads inside
  have first := top 0 (by decide)
  have second := top 1 (by decide)
  have third := top 2 (by decide)
  have fourth := top 3 (by decide)
  have fifth := top 4 (by decide)
  simp only [List.getElem_cons_zero, List.getElem_cons_succ] at first second third fourth fifth
  rw [interruptReturn, first, second, third, fourth, fifth, level, if_neg (Nat.not_lt_zero _)]

end Processor

end X86

import Mathlib.Algebra.Order.Ring.Nat
import Mathlib.Data.Nat.Notation
import Mathlib.Logic.Function.Basic
import Mathlib.Tactic.Ring

/-!
# A few instructions of a 64-bit processor

Memory is a map from addresses to bytes, and a quadword is eight of them with the lowest
first.  A program is a list of instructions, and its jumps name an instruction by its place
in the list.  A program ends at its `ret`, and a run of it takes fuel.

The main rule is `run_block`: a block without jumps is one fold of `execute`.
-/

/-- Addresses to the bytes stored there. -/
abbrev ByteMemory := ℕ → UInt8

namespace ByteMemory

variable {memory other : ByteMemory} {address place word count moreCount : ℕ}

/-- The number in a count of bytes. -/
def read (memory : ByteMemory) (address : ℕ) : ℕ → ℕ
  | 0 => 0
  | count + 1 => (memory address).toNat + 256 * memory.read (address + 1) count

/-- Store a number in a count of bytes. -/
def write (memory : ByteMemory) (address : ℕ) : ℕ → ℕ → ByteMemory
  | 0, _ => memory
  | count + 1, word =>
      Function.update (memory.write (address + 1) count (word / 256)) address (UInt8.ofNat word)

def readQuad (memory : ByteMemory) (address : ℕ) : ℕ := memory.read address 8

def writeQuad (memory : ByteMemory) (address word : ℕ) : ByteMemory := memory.write address 8 word

theorem write_of_outside (outside : place < address ∨ address + count ≤ place) :
    memory.write address count word place = memory place := by
  induction count generalizing address word with
  | zero => rfl
  | succ count ih =>
      have different : place ≠ address := by omega
      rw [write, Function.update_of_ne different]
      exact ih (by omega)

theorem read_congr
    (same : ∀ place, address ≤ place → place < address + count → memory place = other place) :
    memory.read address count = other.read address count := by
  induction count generalizing address with
  | zero => rfl
  | succ count ih =>
      rw [read, read, same address (le_refl address) (by omega)]
      rw [ih (fun place above below => same place (by omega) (by omega))]

/-- What is read behind or before the bytes written is as it was. -/
theorem read_write_of_disjoint
    (disjoint : place + moreCount ≤ address ∨ address + count ≤ place) :
    (memory.write address count word).read place moreCount = memory.read place moreCount := by
  apply read_congr
  intro byte above below
  apply write_of_outside
  omega

theorem read_write : (memory.write address count word).read address count =
    word % 256 ^ count := by
  induction count generalizing address word with
  | zero => simp [read, Nat.mod_one]
  | succ count ih =>
      have rest : (memory.write address (count + 1) word).read (address + 1) count =
          (memory.write (address + 1) count (word / 256)).read (address + 1) count := by
        apply read_congr
        intro place above below
        have different : place ≠ address := by omega
        rw [write, Function.update_of_ne different]
      have lowest : (memory.write address (count + 1) word address).toNat = word % 256 := by
        rw [write, Function.update_self, UInt8.toNat_ofNat']
      have digits : word % 256 ^ (count + 1) = word % 256 + 256 * (word / 256 % 256 ^ count) := by
        rw [pow_succ', Nat.mod_mul]
      rw [read, rest, ih, lowest, digits]

theorem read_lt : memory.read address count < 256 ^ count := by
  induction count generalizing address with
  | zero => simp [read]
  | succ count ih =>
      have rest := @ih (address + 1)
      have lowest := (memory address).toNat_lt
      rw [read, pow_succ]
      omega

theorem readQuad_writeQuad (fits : word < 2 ^ 64) :
    (memory.writeQuad address word).readQuad address = word := by
  rw [readQuad, writeQuad, read_write]
  exact Nat.mod_eq_of_lt fits

theorem readQuad_writeQuad_of_disjoint (disjoint : place + 8 ≤ address ∨ address + 8 ≤ place) :
    (memory.writeQuad address word).readQuad place = memory.readQuad place :=
  read_write_of_disjoint disjoint

theorem readQuad_lt : memory.readQuad address < 2 ^ 64 := read_lt

theorem readQuad_congr
    (same : ∀ place, address ≤ place → place < address + 8 → memory place = other place) :
    memory.readQuad address = other.readQuad address :=
  read_congr same

/-- Copy the quadwords at some offsets, one after the other. -/
def copyQuads (memory : ByteMemory) (target source : ℕ) (offsets : List ℕ) : ByteMemory :=
  offsets.foldl (fun copied offset =>
    copied.writeQuad (target + offset) (copied.readQuad (source + offset))) memory

variable {target source size : ℕ} {offsets : List ℕ}

theorem copyQuads_shift (shift : ℕ) :
    memory.copyQuads (target + shift) (source + shift) offsets =
      memory.copyQuads target source (offsets.map (shift + ·)) := by
  simp only [copyQuads, List.foldl_map, Nat.add_assoc]

/-- Copying changes no byte outside the target. -/
theorem copyQuads_of_outside (inside : ∀ offset ∈ offsets, offset + 8 ≤ size)
    (outside : place < target ∨ target + size ≤ place) :
    memory.copyQuads target source offsets place = memory place := by
  induction offsets generalizing memory with
  | nil => rfl
  | cons offset offsets ih =>
      have fits := inside offset List.mem_cons_self
      rw [copyQuads, List.foldl_cons]
      refine (ih (fun other mem => inside other (List.mem_cons_of_mem offset mem))).trans ?_
      apply write_of_outside
      omega

/-- A quadword at one of the offsets is the one of the source afterwards, and one at another
offset is as it was. -/
theorem readQuad_copyQuads (inside : ∀ offset ∈ offsets, offset + 8 ≤ size)
    (aligned : ∀ offset ∈ offsets, 8 ∣ offset)
    (disjoint : source + size ≤ target ∨ target + size ≤ source) {offset : ℕ}
    (alignedOffset : 8 ∣ offset) (fits : offset + 8 ≤ size) :
    (memory.copyQuads target source offsets).readQuad (target + offset) =
      if offset ∈ offsets then memory.readQuad (source + offset)
      else memory.readQuad (target + offset) := by
  induction offsets generalizing memory with
  | nil => rfl
  | cons first offsets ih =>
      have firstFits := inside first List.mem_cons_self
      have firstAligned := aligned first List.mem_cons_self
      have rest := @ih (memory.writeQuad (target + first) (memory.readQuad (source + first)))
        (fun other mem => inside other (List.mem_cons_of_mem first mem))
        (fun other mem => aligned other (List.mem_cons_of_mem first mem))
      rw [copyQuads, List.foldl_cons]
      refine rest.trans ?_
      have keepsSource : (memory.writeQuad (target + first)
          (memory.readQuad (source + first))).readQuad (source + offset) =
            memory.readQuad (source + offset) := by
        apply readQuad_writeQuad_of_disjoint
        omega
      rw [keepsSource]
      by_cases later : offset ∈ offsets
      · simp [later]
      · by_cases same : offset = first
        · subst same
          simp [later, readQuad_writeQuad readQuad_lt]
        · simp only [later, List.mem_cons, same, or_self, if_false]
          apply readQuad_writeQuad_of_disjoint
          omega

end ByteMemory

namespace X86

inductive Register where
  | rax
  | rbx
  | rcx
  | rdx
  | rsi
  | rdi
  | rbp
  | rsp
  | r8
  | r9
  | r10
  | r11
  | r12
  | r13
  | r14
  | r15
  deriving DecidableEq

inductive Instruction where
  | push (source : Register)
  | pop (target : Register)
  | cmp (register : Register) (value : ℕ)
  | je (place : ℕ)
  | jmp (place : ℕ)
  | movImmediate (target : Register) (value : ℕ)
  | load (target base : Register) (offset : ℕ)
  | store (base : Register) (offset : ℕ) (source : Register)
  | orImmediate (target : Register) (value : ℕ)
  | cld
  | repMovsq
  | ret

/-- `equal` is the zero flag and `backward` the direction flag. -/
structure Cpu where
  registers : Register → ℕ
  memory : ByteMemory
  equal : Bool
  backward : Bool

namespace Cpu

variable (cpu : Cpu)

def set (register : Register) (value : ℕ) : Cpu :=
  { cpu with registers := Function.update cpu.registers register value }

def addressOf (base : Register) (offset : ℕ) : ℕ := (cpu.registers base + offset) % 2 ^ 64

/-- The address one quadword further in the direction of the string instructions. -/
def advance (address : ℕ) : ℕ :=
  (if cpu.backward then address + 2 ^ 64 - 8 else address + 8) % 2 ^ 64

/-- `movsq`. -/
def movsq : Cpu :=
  { (cpu.set .rdi (cpu.advance (cpu.registers .rdi))).set .rsi
      (cpu.advance (cpu.registers .rsi)) with
    memory := cpu.memory.writeQuad (cpu.registers .rdi)
      (cpu.memory.readQuad (cpu.registers .rsi)) }

/-- `rep movsq` with a count of repetitions. -/
def repMovsq : ℕ → Cpu → Cpu
  | 0, cpu => cpu
  | count + 1, cpu => repMovsq count (cpu.movsq.set .rcx count)

/-- An instruction that does not jump. -/
def execute (cpu : Cpu) : Instruction → Cpu
  | .push source =>
      let lower := (cpu.registers .rsp + 2 ^ 64 - 8) % 2 ^ 64
      { cpu.set .rsp lower with memory := cpu.memory.writeQuad lower (cpu.registers source) }
  | .pop target =>
      (cpu.set .rsp ((cpu.registers .rsp + 8) % 2 ^ 64)).set target
        (cpu.memory.readQuad (cpu.registers .rsp))
  | .cmp register value => { cpu with equal := cpu.registers register = value }
  | .movImmediate target value => cpu.set target value
  | .load target base offset => cpu.set target (cpu.memory.readQuad (cpu.addressOf base offset))
  | .store base offset source =>
      { cpu with
        memory := cpu.memory.writeQuad (cpu.addressOf base offset) (cpu.registers source) }
  | .orImmediate target value => cpu.set target (cpu.registers target ||| value)
  | .cld => { cpu with backward := false }
  | .repMovsq => repMovsq (cpu.registers .rcx) cpu
  | .je _ | .jmp _ | .ret => cpu

end Cpu

def Instruction.straight : Instruction → Bool
  | .je _ | .jmp _ | .ret => false
  | _ => true

/-- Run a program from a place in it to its `ret`. -/
def run (program : List Instruction) : ℕ → ℕ → Cpu → Option Cpu
  | 0, _, _ => none
  | fuel + 1, place, cpu =>
      match program[place]? with
      | none => none
      | some .ret => some (cpu.set .rsp ((cpu.registers .rsp + 8) % 2 ^ 64))
      | some (.jmp next) => run program fuel next cpu
      | some (.je next) => run program fuel (if cpu.equal then next else place + 1) cpu
      | some instruction => run program fuel (place + 1) (cpu.execute instruction)

/-- The offsets of some quadwords in a row. -/
def quadOffsets (count : ℕ) : List ℕ := (List.range count).map (8 * ·)

theorem quadOffsets_succ (count : ℕ) :
    quadOffsets (count + 1) = 0 :: (quadOffsets count).map (8 + ·) := by
  simp only [quadOffsets, List.range_succ_eq_map, List.map_cons, List.map_map]
  congr 1
  apply List.map_congr_left
  intro index _
  simp only [Function.comp, Nat.succ_eq_add_one]
  ring

/-- `rep movsq` copies quadwords in a row. -/
theorem Cpu.repMovsq_memory {count : ℕ} {cpu : Cpu} (forward : cpu.backward = false)
    (target : cpu.registers .rdi + 8 * count ≤ 2 ^ 64)
    (source : cpu.registers .rsi + 8 * count ≤ 2 ^ 64) :
    (repMovsq count cpu).memory =
      cpu.memory.copyQuads (cpu.registers .rdi) (cpu.registers .rsi) (quadOffsets count) := by
  induction count generalizing cpu with
  | zero => rfl
  | succ count ih =>
      have moved : (cpu.movsq.set .rcx count).memory =
          cpu.memory.copyQuads (cpu.registers .rdi) (cpu.registers .rsi) [0] := rfl
      have split : cpu.memory.copyQuads (cpu.registers .rdi) (cpu.registers .rsi)
          (quadOffsets (count + 1)) =
          (cpu.movsq.set .rcx count).memory.copyQuads (cpu.registers .rdi + 8)
            (cpu.registers .rsi + 8) (quadOffsets count) := by
        rw [quadOffsets_succ, ByteMemory.copyQuads_shift, moved]
        rfl
      rw [repMovsq, split]
      cases count with
      | zero => rfl
      | succ count =>
          have rdi : (cpu.movsq.set .rcx (count + 1)).registers .rdi = cpu.registers .rdi + 8 := by
            simp only [set, movsq, advance, forward, Function.update_apply]
            simp only [reduceCtorEq, if_false, if_true, Bool.false_eq_true]
            omega
          have rsi : (cpu.movsq.set .rcx (count + 1)).registers .rsi = cpu.registers .rsi + 8 := by
            simp only [set, movsq, advance, forward, Function.update_apply]
            simp only [reduceCtorEq, if_false, if_true, Bool.false_eq_true]
            omega
          rw [← rdi, ← rsi]
          apply @ih (cpu.movsq.set .rcx (count + 1)) forward
          · rw [rdi]
            omega
          · rw [rsi]
            omega

def executeAll (cpu : Cpu) (block : List Instruction) : Cpu := block.foldl Cpu.execute cpu

variable {program : List Instruction} {cpu : Cpu} {fuel : ℕ}

theorem run_jmp (place next : ℕ) (here : program[place]? = some (.jmp next)) :
    run program (fuel + 1) place cpu = run program fuel next cpu := by
  rw [run, here]

theorem run_je (place next : ℕ) (here : program[place]? = some (.je next)) :
    run program (fuel + 1) place cpu =
      run program fuel (if cpu.equal then next else place + 1) cpu := by
  rw [run, here]

/-- A `ret` leaves the memory as it is. -/
theorem run_ret (place : ℕ) (here : program[place]? = some .ret) :
    ∃ after, run program (fuel + 1) place cpu = some after ∧ after.memory = cpu.memory := by
  rw [run, here]
  exact ⟨_, rfl, rfl⟩

/-- A block without jumps is run in one go. -/
theorem run_block (place : ℕ) (block rest : List Instruction)
    (located : program.drop place = block ++ rest)
    (straight : ∀ instruction ∈ block, instruction.straight) :
    run program (fuel + block.length) place cpu =
      run program fuel (place + block.length) (executeAll cpu block) := by
  induction block generalizing place cpu with
  | nil => rfl
  | cons instruction block ih =>
      have here : program[place]? = some instruction := by
        rw [← List.head?_drop, located]
        rfl
      have behind : program.drop (place + 1) = block ++ rest := by
        rw [← List.tail_drop, located]
        rfl
      have first := straight instruction List.mem_cons_self
      have others := @ih (cpu.execute instruction) (place + 1) behind
        (fun other mem => straight other (List.mem_cons_of_mem instruction mem))
      have stepped : run program (fuel + block.length + 1) place cpu =
          run program (fuel + block.length) (place + 1) (cpu.execute instruction) := by
        rw [run, here]
        cases instruction <;> first | rfl | simp [Instruction.straight] at first
      rw [List.length_cons, ← Nat.add_assoc, stepped, others, Nat.add_right_comm, Nat.add_assoc]
      rfl

/-- A block in front of another. -/
theorem executeAll_append (first second : List Instruction) :
    executeAll cpu (first ++ second) = executeAll (executeAll cpu first) second :=
  List.foldl_append

/-- Pushing registers changes the stack below the stack pointer only. -/
theorem executeAll_push {sources : List Register}
    (room : 8 * sources.length ≤ cpu.registers .rsp) (bounded : cpu.registers .rsp < 2 ^ 64) :
    (∀ register, register ≠ .rsp →
      (executeAll cpu (sources.map .push)).registers register = cpu.registers register) ∧
    ∀ place, place < cpu.registers .rsp - 8 * sources.length ∨ cpu.registers .rsp ≤ place →
      (executeAll cpu (sources.map .push)).memory place = cpu.memory place := by
  induction sources generalizing cpu with
  | nil => exact ⟨fun _ _ => rfl, fun _ _ => rfl⟩
  | cons source sources ih =>
      rw [List.length_cons] at room
      have lower : (cpu.execute (.push source)).registers .rsp = cpu.registers .rsp - 8 := by
        simp only [Cpu.execute, Cpu.set, Function.update_self]
        omega
      have memory : (cpu.execute (.push source)).memory =
          cpu.memory.writeQuad (cpu.registers .rsp - 8) (cpu.registers source) := by
        rw [← lower]
        simp only [Cpu.execute, Cpu.set, Function.update_self]
      rcases @ih (cpu.execute (.push source)) (by omega) (by omega) with ⟨registers, places⟩
      constructor
      · intro register different
        refine (registers register different).trans ?_
        simp [Cpu.execute, Cpu.set, different]
      · intro place outside
        rw [List.length_cons] at outside
        refine (places place (by omega)).trans ?_
        rw [memory]
        apply ByteMemory.write_of_outside
        omega

/-- Popping registers leaves the memory as it is. -/
theorem executeAll_pop_memory (targets : List Register) :
    (executeAll cpu (targets.map .pop)).memory = cpu.memory := by
  induction targets generalizing cpu with
  | nil => rfl
  | cons target targets ih => exact ih.trans rfl

/-- Copy a quadword through a register. -/
def copyWord (offset : ℕ) : List Instruction :=
  [.load .rax .rsi offset, .store .rdi offset .rax]

/-- Copying quadwords through a register changes that register and the target. -/
theorem executeAll_copyWord {offsets : List ℕ} {size : ℕ}
    (inside : ∀ offset ∈ offsets, offset + 8 ≤ size)
    (target : cpu.registers .rdi + size ≤ 2 ^ 64) (source : cpu.registers .rsi + size ≤ 2 ^ 64) :
    (∀ register, register ≠ .rax →
      (executeAll cpu (offsets.flatMap copyWord)).registers register = cpu.registers register) ∧
    (executeAll cpu (offsets.flatMap copyWord)).memory =
      cpu.memory.copyQuads (cpu.registers .rdi) (cpu.registers .rsi) offsets := by
  induction offsets generalizing cpu with
  | nil => exact ⟨fun _ _ => rfl, rfl⟩
  | cons offset offsets ih =>
      have fits := inside offset List.mem_cons_self
      have registers : ∀ register, register ≠ .rax →
          (executeAll cpu (copyWord offset)).registers register = cpu.registers register := by
        intro register different
        simp [executeAll, copyWord, Cpu.execute, Cpu.set, different]
      have memory : (executeAll cpu (copyWord offset)).memory =
          cpu.memory.writeQuad (cpu.registers .rdi + offset)
            (cpu.memory.readQuad (cpu.registers .rsi + offset)) := by
        have targetPlace : (cpu.registers .rdi + offset) % 2 ^ 64 = cpu.registers .rdi + offset :=
          Nat.mod_eq_of_lt (by omega)
        have sourcePlace : (cpu.registers .rsi + offset) % 2 ^ 64 = cpu.registers .rsi + offset :=
          Nat.mod_eq_of_lt (by omega)
        simp [-Nat.reducePow, executeAll, copyWord, Cpu.execute, Cpu.set, Cpu.addressOf,
          targetPlace, sourcePlace]
      have rdi := registers .rdi (by decide)
      have rsi := registers .rsi (by decide)
      rcases @ih (executeAll cpu (copyWord offset))
        (fun other mem => inside other (List.mem_cons_of_mem offset mem)) (by omega) (by omega) with
        ⟨laterRegisters, laterMemory⟩
      rw [List.flatMap_cons, executeAll_append]
      constructor
      · intro register different
        exact (laterRegisters register different).trans (registers register different)
      · rw [laterMemory, rdi, rsi, memory]
        rfl

end X86

import Goshkik.Cpu.InterruptStubs

/-!
# System calls

This file models `scheduling/syscall.asm` and `scheduling/syscall.c`.  `syscall` takes its arguments
as a C function does, puts them where the kernel expects them and raises the software interrupt;
`syscall_entry` saves the registers, hands the arguments to `syscall_handler` as a C function takes
them, and returns with what the handler has left in `rax`.
-/

namespace Goshkik

open X86 Processor ByteMemory

/-! ## The table -/

def maxSysCalls : ℕ := 420

structure SyscallEntry where
  handler : Option (ℕ → ℕ → ℕ → ℕ → ℕ → ℕ → ℤ)
  name : String
  argNum : ℤ

abbrev SyscallTable := ℕ → SyscallEntry

/-- What `syscall_handler` leaves in `rax`. -/
def syscallHandler (table : SyscallTable) (num arg1 arg2 arg3 arg4 arg5 arg6 : ℕ) : ℤ :=
  if num ≥ maxSysCalls then -1
  else
    match (table num).handler with
    | none => -1
    | some handler => handler arg1 arg2 arg3 arg4 arg5 arg6

/-- The loop of `init_syscalls`. -/
def initSyscallTable (table : SyscallTable) : SyscallTable :=
  (List.range maxSysCalls).foldl (fun table i => Function.update table i ⟨none, "", 0⟩) table

/-- No system call has a handler, and none is ever registered. -/
theorem syscallHandler_init (table : SyscallTable) (num arg1 arg2 arg3 arg4 arg5 arg6 : ℕ) :
    syscallHandler (initSyscallTable table) num arg1 arg2 arg3 arg4 arg5 arg6 = -1 := by
  have cleared : ∀ count num, num < count → (((List.range count).foldl
      (fun table i => Function.update table i ⟨none, "", 0⟩) table) num).handler = none := by
    intro count
    induction count with
    | zero => exact fun num inside => absurd inside (Nat.not_lt_zero num)
    | succ count ih =>
        intro num inside
        rw [List.range_succ, List.foldl_append, List.foldl_cons, List.foldl_nil]
        by_cases isLast : num = count
        · rw [isLast, Function.update_self]
        · rw [Function.update_of_ne isLast]
          exact ih num (by omega)
  unfold syscallHandler
  split
  · rfl
  · rename_i inside
    rw [initSyscallTable, cleared maxSysCalls num (Nat.not_le.mp inside)]

/-! ## The assembly -/

/-- `syscall` up to the software interrupt, behind which there is a `ret`. -/
def syscallMoves : List Operation :=
  [.move .rax .rdi, .move .rdi .rsi, .move .rsi .rdx, .move .rdx .rcx, .move .r10 .r8,
    .move .r8 .r9, .load .r9 .rsp 8]

/-- The registers in the order in which `syscall_entry` pushes them. -/
def syscallSaves : List Register :=
  [.rbx, .rcx, .rdx, .rsi, .rdi, .rbp, .r8, .r9, .r10, .r11, .r12, .r13, .r14, .r15]

@[simp]
theorem length_syscallSaves : syscallSaves.length = 14 := rfl

/-- The moves of the arguments in `syscall_entry`. -/
def syscallArguments : List Operation :=
  [.move .rbx .rdi, .move .r11 .rsi, .move .r12 .rdx, .move .r13 .r10, .move .r14 .r8,
    .move .r15 .r9, .move .rdi .rax, .move .rsi .rbx, .move .rdx .r11, .move .rcx .r12,
    .move .r8 .r13, .move .r9 .r14]

/-- `syscall_entry` up to the call of the handler. -/
def syscallEntry (handler : ℕ) : List Operation :=
  (syscallSaves.map .push ++ syscallArguments ++ [.push .r15]) ++ [.call handler]

/-- `syscall_entry` behind the call. -/
def syscallExit : List Operation :=
  ([.addImmediate .rsp 8] ++ syscallSaves.reverse.map .pop) ++ [.iretq]

/-- Where the linker has put the routines, and the addresses behind the interrupt and behind the
call of the handler. -/
structure SyscallLayout where
  syscall : ℕ
  interruptBack : ℕ
  handler : ℕ
  handlerBack : ℕ

/-- Both routines in memory. -/
structure SyscallLoaded (processor : Processor) (layout : StubLayout) (calls : SyscallLayout) :
    Prop where
  stub : processor.Located calls.syscall (syscallMoves ++ [.int 0x80]) calls.interruptBack
  ret : ∃ next, processor.fetch calls.interruptBack = some (.ret, next)
  entry : processor.Located layout.syscallEntry (syscallEntry calls.handler) calls.handlerBack
  exit : ∃ last, processor.Located calls.handlerBack syscallExit last
  interruptBackFits : calls.interruptBack < 2 ^ 64
  handlerBackFits : calls.handlerBack < 2 ^ 64

variable {processor : Processor} {layout : StubLayout} {calls : SyscallLayout} {core : Core}

/-- Instructions that change registers only. -/
structure RegistersMoved (core moved : Core) (registers : Register → ℕ) : Prop where
  registers : moved.registers = registers
  memory : moved.memory = core.memory
  rip : moved.rip = core.rip
  cs : moved.cs = core.cs
  ss : moved.ss = core.ss
  rflags : moved.rflags = core.rflags

/-- The registers behind the moves of `syscall`: the arguments of a C function with seven of them
are where the kernel expects them. -/
def kernelArguments (core : Core) : Register → ℕ
  | .rax => core.registers .rdi
  | .rdi => core.registers .rsi
  | .rsi => core.registers .rdx
  | .rdx => core.registers .rcx
  | .r10 => core.registers .r8
  | .r8 => core.registers .r9
  | .r9 => core.memory.readQuad (core.registers .rsp + 8)
  | .rbx => core.registers .rbx
  | .rcx => core.registers .rcx
  | .rbp => core.registers .rbp
  | .rsp => core.registers .rsp
  | .r11 => core.registers .r11
  | .r12 => core.registers .r12
  | .r13 => core.registers .r13
  | .r14 => core.registers .r14
  | .r15 => core.registers .r15

theorem moved_syscallMoves (room : core.registers .rsp + 8 < 2 ^ 64) :
    RegistersMoved core (processor.performAll core syscallMoves) (kernelArguments core) where
  registers := by
    funext register
    cases register <;> simp [syscallMoves, performAll, perform, Core.set, kernelArguments]
    exact congrArg core.memory.readQuad (Nat.mod_eq_of_lt room)
  memory := rfl
  rip := rfl
  cs := rfl
  ss := rfl
  rflags := rfl

/-- The registers behind the moves of `syscall_entry`: the arguments are where a C function with
seven of them expects them, and the last one is in `r15`. -/
def handlerArguments (core : Core) : Register → ℕ
  | .rdi => core.registers .rax
  | .rsi => core.registers .rdi
  | .rdx => core.registers .rsi
  | .rcx => core.registers .rdx
  | .r8 => core.registers .r10
  | .r9 => core.registers .r8
  | .rbx => core.registers .rdi
  | .r11 => core.registers .rsi
  | .r12 => core.registers .rdx
  | .r13 => core.registers .r10
  | .r14 => core.registers .r8
  | .r15 => core.registers .r9
  | .rax => core.registers .rax
  | .rbp => core.registers .rbp
  | .rsp => core.registers .rsp
  | .r10 => core.registers .r10

theorem moved_syscallArguments :
    RegistersMoved core (processor.performAll core syscallArguments) (handlerArguments core) where
  registers := by
    funext register
    cases register <;> simp [syscallArguments, performAll, perform, Core.set, handlerArguments]
  memory := rfl
  rip := rfl
  cs := rfl
  ss := rfl
  rflags := rfl

theorem RegistersMoved.rsp {moved : Core}
    (isMoved : RegistersMoved core moved (handlerArguments core)) :
    moved.registers .rsp = core.registers .rsp := congrFun isMoved.registers .rsp

theorem bounded_kernelArguments (bounded : core.Bounded) (register : Register) :
    kernelArguments core register < 2 ^ 64 := by
  cases register with
  | r9 => exact readQuad_lt
  | _ => exact bounded.registers _

/-- The processor at the first instruction of `syscall_handler`. -/
structure HandlerAsked (entry called : Core) (handler back : ℕ) (words : List ℕ) : Prop where
  rip : called.rip = handler
  rsp : called.registers .rsp + 128 = entry.registers .rsp
  registers : ∀ register, register ≠ .rsp →
    called.registers register = handlerArguments entry register
  back : called.memory.readQuad (called.registers .rsp) = back
  stack : called.memory.Quads (called.registers .rsp + 8)
    (entry.registers .r9 :: ((syscallSaves.map entry.registers).reverse ++ words))
  outside : ∀ place, place < called.registers .rsp ∨ entry.registers .rsp ≤ place →
    called.memory place = entry.memory place
  cs : called.cs = entry.cs
  rflags : called.rflags = entry.rflags

theorem handlerArguments_congr {other : Core}
    (same : ∀ register, register ≠ .rsp → other.registers register = core.registers register)
    {register : Register} (notStack : register ≠ .rsp) :
    handlerArguments other register = handlerArguments core register := by
  cases register with
  | rsp => exact absurd rfl notStack
  | _ => exact same _ (by decide)

theorem syscallEntry_calls {entry : Core} {words : List ℕ}
    (loaded : SyscallLoaded processor layout calls)
    (isEntry : entry.rip = layout.syscallEntry)
    (bounded : ∀ register, entry.registers register < 2 ^ 64)
    (room : 128 ≤ entry.registers .rsp)
    (quads : entry.memory.Quads (entry.registers .rsp) words) :
    ∃ called, processor.Steps entry called ∧
      HandlerAsked entry called calls.handler calls.handlerBack words := by
  have located := loaded.entry
  rw [← isEntry, syscallEntry, located_append] at located
  rcases located with ⟨place, moves, next, call, isBack⟩
  cases isBack
  have straight : ∀ operation ∈ syscallSaves.map Operation.push ++ syscallArguments ++ [.push .r15],
      operation.straight := by decide
  have notStack : Register.rsp ∉ syscallSaves := by decide
  have isSize : 8 * syscallSaves.length = 112 := rfl
  have saved := @performAll_push_pushed processor entry syscallSaves words notStack (by omega)
    bounded quads
  rw [isSize] at saved
  rcases saved with ⟨saved, frame⟩
  have block := (steps_block moves straight).steps
  rw [performAll_append, performAll_append] at block
  generalize processor.performAll entry (syscallSaves.map Operation.push) = stacked
    at saved frame block
  have single : ∀ core, processor.performAll core [.push .r15] =
      core.pushWord (core.registers .r15) := fun _ => rfl
  have moved := @moved_syscallArguments processor stacked
  rw [single, moved.registers] at block
  generalize processor.performAll stacked syscallArguments = filled at moved block
  have stack : stacked.registers .rsp = entry.registers .rsp - 112 := saved.rsp
  have stackFits := bounded .rsp
  have filledStack := moved.rsp
  have last : handlerArguments stacked .r15 = entry.registers .r9 := saved.registers .r9 (by decide)
  rw [last] at block
  have pushed : filled.Pushed (filled.pushWord (entry.registers .r9)) 8 :=
    Core.pushed_pushWord (by omega) (by omega)
  have memory : (filled.pushWord (entry.registers .r9)).memory =
      filled.memory.writeQuad (filled.registers .rsp - 8) (entry.registers .r9) :=
    Core.pushWord_memory (by omega) (by omega)
  generalize filled.pushWord (entry.registers .r9) = ready at pushed memory block
  have readyStack : ready.registers .rsp = filled.registers .rsp - 8 := pushed.rsp
  have readyCs : ready.cs = stacked.cs := pushed.cs.trans moved.cs
  have readyFlags : ready.rflags = stacked.rflags := pushed.rflags.trans moved.rflags
  have readyRegisters : ∀ register, register ≠ .rsp →
      ready.registers register = handlerArguments entry register := by
    intro register different
    rw [pushed.registers register different, moved.registers]
    exact handlerArguments_congr saved.registers different
  have argument : ready.memory.Quads (ready.registers .rsp)
      (entry.registers .r9 :: ((syscallSaves.map entry.registers).reverse ++ words)) := by
    rw [memory, readyStack, moved.memory]
    rw [← stack, ← filledStack] at frame
    exact frame.push (bounded .r9) (by omega)
  rcases @steps_call processor { ready with rip := place } calls.handler calls.handlerBack
    call
    (by simp only; omega) (by simp only; omega) loaded.handlerBackFits with
    ⟨called, goes, isCalled⟩
  have calledStack : called.registers .rsp + 8 = ready.registers .rsp := isCalled.rsp
  have calledOutside : ∀ byte, byte < called.registers .rsp ∨ ready.registers .rsp ≤ byte →
      called.memory byte = ready.memory byte := isCalled.outside
  refine ⟨called, block.trans goes, ⟨isCalled.rip, by omega, ?_, isCalled.back, ?_, ?_,
    (isCalled.cs.trans readyCs).trans saved.cs,
    (isCalled.rflags.trans readyFlags).trans saved.rflags⟩⟩
  · intro register different
    exact (isCalled.registers register different).trans (readyRegisters register different)
  · rw [calledStack]
    apply argument.congr
    intro byte above _
    exact calledOutside byte (.inr above)
  · intro byte outside
    apply (calledOutside byte (by omega)).trans
    rw [memory, moved.memory]
    apply (write_of_outside (by omega)).trans
    apply saved.outside
    omega

/-- The registers behind `syscall_entry`: the result, and the others as they were saved. -/
def answeredRegisters (saved : Register → ℕ) (result rsp : ℕ) : Register → ℕ :=
  Function.update (Function.update saved .rax result) .rsp rsp

theorem update_answered {registers saved : Register → ℕ} (rsp : ℕ)
    (popped : syscallSaves.reverse.map registers = (syscallSaves.map saved).reverse) :
    Function.update registers .rsp rsp = answeredRegisters saved (registers .rax) rsp := by
  rw [← List.map_reverse] at popped
  have restored := List.map_inj_left.mp popped
  funext register
  unfold answeredRegisters
  by_cases isStack : register = .rsp
  · subst isStack
    rw [Function.update_self, Function.update_self]
  · rw [Function.update_of_ne isStack, Function.update_of_ne isStack]
    by_cases isResult : register = .rax
    · subst isResult
      rw [Function.update_self]
    · rw [Function.update_of_ne isResult]
      apply restored
      cases register <;>
        first | decide | exact absurd rfl isStack | exact absurd rfl isResult

/-- `syscall_entry` gives back the registers that it has saved, but for the result. -/
theorem syscallExit_leaves {returned : Core} {saved : Register → ℕ}
    {argument rip cs rflags rsp ss : ℕ}
    (loaded : SyscallLoaded processor layout calls) (isBack : returned.rip = calls.handlerBack)
    (level : returned.level = 0) (room : returned.registers .rsp + 160 ≤ 2 ^ 64)
    (quads : returned.memory.Quads (returned.registers .rsp)
      (argument :: ((syscallSaves.map saved).reverse ++ [rip, cs, rflags, rsp, ss])))
    (returnable : processor.codeAt cs ∧ processor.stackAt (cs % 4) ss) :
    processor.Leaves returned {
      registers := answeredRegisters saved (returned.registers .rax) rsp
      memory := returned.memory
      rip := rip
      cs := cs
      ss := ss
      rflags := rflags } := by
  rcases loaded.exit with ⟨place, located⟩
  rw [← isBack, syscallExit, located_append] at located
  rcases located with ⟨middle, pops, next, iretq, _⟩
  have straight : ∀ operation ∈ [Operation.addImmediate .rsp 8] ++
      syscallSaves.reverse.map Operation.pop, operation.straight := by decide
  have block := steps_block pops straight
  have single : processor.performAll returned [.addImmediate .rsp 8] =
      processor.perform returned (.addImmediate .rsp 8) := rfl
  rw [performAll_append, single] at block
  rcases @perform_addImmediate processor returned .rsp 8 with ⟨registers, memory, sameCs⟩
  generalize processor.perform returned (.addImmediate .rsp 8) = added at *
  have stack : added.registers .rsp = returned.registers .rsp + 8 := by
    rw [registers, Function.update_self]
    omega
  have result : added.registers .rax = returned.registers .rax := by
    rw [registers, Function.update_of_ne (by decide)]
  have saves := quads.2
  rw [← memory, ← stack, quads_append] at saves
  rcases saves with ⟨saves, frame⟩
  have popped := @performAll_pop processor added syscallSaves.reverse
    (syscallSaves.map saved).reverse (by decide) (by decide) (by simp)
    (by simp only [List.length_reverse, length_syscallSaves]; omega) saves
  have values : syscallSaves.reverse.map (processor.performAll added
      (syscallSaves.reverse.map .pop)).registers = (syscallSaves.map saved).reverse := popped.values
  generalize processor.performAll added (syscallSaves.reverse.map .pop) = restored at *
  have answered := update_answered rsp values
  have restoredStack : restored.registers .rsp = added.registers .rsp + 112 := by
    rw [popped.rsp, List.length_reverse, length_syscallSaves]
  have restoredResult : restored.registers .rax = added.registers .rax :=
    popped.registers .rax (by decide) (by decide)
  have isLevel : restored.level = 0 := by
    rw [Core.level, popped.cs, sameCs]
    exact level
  have returns : processor.step { restored with rip := middle } =
      processor.interruptReturn { restored with rip := middle } := by
    rw [step, iretq]
    rfl
  have size : 8 * (syscallSaves.map saved).reverse.length = 112 := by
    rw [List.length_reverse, List.length_map, length_syscallSaves]
  rw [size] at frame
  have words := @interruptReturn_eq processor { restored with rip := middle } rip cs rflags rsp ss
    isLevel (by simp only [restoredStack, popped.memory]; exact frame)
      (by simp only [restoredStack]; omega)
  refine ⟨_, block, by rw [operation?, iretq]; rfl, ?_⟩
  rw [returns, words, if_pos returnable]
  simp only [Core.set, answered, restoredResult, result, popped.memory, memory]

/-- The processor in `syscall` behind the software interrupt of the processor. -/
theorem syscall_interrupts (loaded : KernelLoaded processor layout)
    (isLoaded : SyscallLoaded processor layout calls) (bounded : core.Bounded)
    (isCall : core.rip = calls.syscall) (arguments : core.registers .rsp + 16 ≤ 2 ^ 64)
    (room : 48 ≤ processor.interruptStack core) :
    ∃ entry, processor.Steps core entry ∧ entry.rip = layout.syscallEntry ∧ entry.level = 0 ∧
      entry.rflags.testBit 9 = false ∧
      entry.registers .rsp + 40 = processor.interruptStack core ∧
      (∀ register, register ≠ .rsp → entry.registers register = kernelArguments core register) ∧
      entry.memory.Quads (entry.registers .rsp)
        [calls.interruptBack, core.cs, core.rflags, core.registers .rsp, core.ss] ∧
      ∀ place, place < entry.registers .rsp ∨ processor.interruptStack core ≤ place →
        entry.memory place = core.memory place := by
  have located := isLoaded.stub
  rw [← isCall, located_append] at located
  rcases located with ⟨middle, moves, next, int, isBack⟩
  cases isBack
  have straight : ∀ operation ∈ syscallMoves, operation.straight := by decide
  have block := (steps_block moves straight).steps
  have moved := @moved_syscallMoves processor core (by omega)
  generalize processor.performAll core syscallMoves = user at moved block
  have stack : user.registers .rsp = core.registers .rsp := congrFun moved.registers .rsp
  obtain ⟨pending, isPending⟩ :
      ∃ pending : Core, pending = { user with rip := calls.interruptBack } := ⟨_, rfl⟩
  have raises : processor.step { user with rip := middle } =
      processor.deliver 0x80 none true pending := by
    rw [step, int, isPending]
    rfl
  have registers : pending.registers = kernelArguments core := by
    rw [isPending, ← moved.registers]
  have memory : pending.memory = core.memory := by
    rw [isPending, ← moved.memory]
  have cs : pending.cs = core.cs := by
    rw [isPending, ← moved.cs]
  have ss : pending.ss = core.ss := by
    rw [isPending, ← moved.ss]
  have rflags : pending.rflags = core.rflags := by
    rw [isPending, ← moved.rflags]
  have rip : pending.rip = calls.interruptBack := by
    rw [isPending]
  have pendingStack : pending.registers .rsp = core.registers .rsp := congrFun registers .rsp
  have boundedPending : pending.Bounded := by
    refine ⟨fun register => ?_, rip ▸ isLoaded.interruptBackFits, cs ▸ bounded.cs,
      ss ▸ bounded.ss, rflags ▸ bounded.rflags⟩
    rw [registers]
    exact bounded_kernelArguments bounded register
  have sameStack : processor.interruptStack pending = processor.interruptStack core := by
    have level : pending.level = core.level := congrArg (· % 4) cs
    rw [interruptStack, interruptStack, level, pendingStack]
  rcases loaded.gates with ⟨idt, gates⟩
  have gate := gate_kernelIdt idt loaded.isrFits loaded.irqFits loaded.syscallFits 0x80
  rw [← gates] at gate
  have allowed : pending.level ≤ 3 := by
    unfold Core.level
    omega
  rcases @deliver_delivered _ _ _ _ none true boundedPending loaded.rsp0Fits gate
    (fun _ => allowed) (fun code mem => absurd mem (Option.not_mem_none code))
    (by rw [sameStack]; exact room) with ⟨entry, delivers, delivered⟩
  have frame := delivered.stack
  have place := delivered.rsp
  have outside := delivered.outside
  simp only [interruptWords, Option.toList_none, List.nil_append, List.length_cons,
    List.length_nil, cs, ss, rflags, rip, pendingStack, sameStack, memory] at frame place outside
  have isKernel : entry.cs = kernelCode64 := delivered.cs
  refine ⟨entry, block.trans (Steps.of_step (raises.trans delivers)), delivered.rip, ?_,
    ?_, by omega,
    ?_, frame, outside⟩
  · rw [Core.level, isKernel]
    decide
  · rw [delivered.rflags]
    exact handlerFlags_interrupts pending.rflags
  · intro register different
    exact (delivered.registers register different).trans (congrFun registers register)

/-- The registers that `syscall` leaves as they were. -/
def syscallKeeps : List Register := [.rbx, .rcx, .rbp, .r11, .r12, .r13, .r14, .r15]

theorem answeredRegisters_keeps {register : Register} (kept : register ∈ syscallKeeps)
    (result rsp : ℕ) : answeredRegisters (kernelArguments core) result rsp register =
      core.registers register := by
  have notStack : register ≠ .rsp := by
    rintro rfl
    exact absurd kept (by decide)
  have notResult : register ≠ .rax := by
    rintro rfl
    exact absurd kept (by decide)
  rw [answeredRegisters, Function.update_of_ne notStack, Function.update_of_ne notResult]
  simp only [syscallKeeps, List.mem_cons, List.not_mem_nil, or_false] at kept
  rcases kept with rfl | rfl | rfl | rfl | rfl | rfl | rfl | rfl <;> rfl

/-- What the caller of `syscall` gets back when the handler has returned. -/
structure Answered (core returned after : Core) : Prop where
  rip : after.rip = core.memory.readQuad (core.registers .rsp)
  rsp : after.registers .rsp = core.registers .rsp + 8
  result : after.registers .rax = returned.registers .rax
  kept : ∀ register ∈ syscallKeeps, after.registers register = core.registers register
  cs : after.cs = core.cs
  ss : after.ss = core.ss
  rflags : after.rflags = core.rflags
  memory : after.memory = returned.memory

/-- The handler's return gets back to the caller of `syscall`, if the frame of the entry is still on
the stack. -/
theorem syscall_answers {returned : Core} {argument : ℕ}
    (isLoaded : SyscallLoaded processor layout calls)
    (isBack : returned.rip = calls.handlerBack) (level : returned.level = 0)
    (arguments : core.registers .rsp + 16 ≤ 2 ^ 64)
    (room : returned.registers .rsp + 160 ≤ 2 ^ 64)
    (quads : returned.memory.Quads (returned.registers .rsp)
      (argument :: ((syscallSaves.map (kernelArguments core)).reverse ++
        [calls.interruptBack, core.cs, core.rflags, core.registers .rsp, core.ss])))
    (returnable : processor.codeAt core.cs ∧ processor.stackAt (core.cs % 4) core.ss)
    (address : returned.memory.readQuad (core.registers .rsp) =
      core.memory.readQuad (core.registers .rsp)) :
    ∃ after, processor.Steps returned after ∧ Answered core returned after := by
  rcases syscallExit_leaves isLoaded isBack level room quads returnable with
    ⟨last, inside, _, resumes⟩
  rcases isLoaded.ret with ⟨next, ret⟩
  have resumedStack : answeredRegisters (kernelArguments core) (returned.registers .rax)
      (core.registers .rsp) .rsp = core.registers .rsp := Function.update_self _ _ _
  have resumedResult : answeredRegisters (kernelArguments core) (returned.registers .rax)
      (core.registers .rsp) .rax = returned.registers .rax :=
    (Function.update_of_ne (by decide) _ _).trans (Function.update_self _ _ _)
  have returns := @step_ret processor {
    registers := answeredRegisters (kernelArguments core) (returned.registers .rax)
      (core.registers .rsp)
    memory := returned.memory
    rip := calls.interruptBack
    cs := core.cs
    ss := core.ss
    rflags := core.rflags } next ret (by simp only [resumedStack]; omega)
  have notStack : Register.rax ≠ .rsp := by decide
  refine ⟨_, (inside.steps.trans (Steps.of_step resumes)).trans (Steps.of_step returns),
    ⟨?_, ?_, ?_, ?_, rfl, rfl, rfl, rfl⟩⟩
  · simp only [resumedStack]
    exact address
  · simp only [Core.set_registers_same, resumedStack]
  · simp only [Core.set_registers_ne notStack, resumedResult]
  · intro register kept
    have notStack : register ≠ .rsp := by
      rintro rfl
      exact absurd kept (by decide)
    exact (Core.set_registers_ne notStack).trans (answeredRegisters_keeps kept _ _)

/-- `syscall` calls the handler with exactly its own arguments, of which the seventh lies on the
stack, on an aligned stack with interrupts off, and when the handler returns the caller goes on
with the result and the registers that a C function keeps.  As `init_syscalls` leaves the table, the
result is always minus one. -/
theorem system_call_round_trip (loaded : KernelLoaded processor layout)
    (isLoaded : SyscallLoaded processor layout calls) (bounded : core.Bounded)
    (isCall : core.rip = calls.syscall) (arguments : core.registers .rsp + 16 ≤ 2 ^ 64)
    (room : 168 ≤ processor.interruptStack core)
    (returnable : processor.Returnable 0 core.cs core.ss) :
    ∃ called, processor.Steps core called ∧ called.rip = calls.handler ∧ called.level = 0 ∧
      called.rflags.testBit 9 = false ∧ (called.registers .rsp + 8) % 16 = 0 ∧
      (∀ register ∈ [Register.rdi, .rsi, .rdx, .rcx, .r8, .r9],
        called.registers register = core.registers register) ∧
      called.memory.readQuad (called.registers .rsp + 8) =
        core.memory.readQuad (core.registers .rsp + 8) ∧
      ∀ returned, returned.rip = calls.handlerBack → returned.level = 0 →
        returned.registers .rsp = called.registers .rsp + 8 →
        (∀ place, called.registers .rsp + 16 ≤ place → place < processor.interruptStack core →
          returned.memory place = called.memory place) →
        (∀ place, core.registers .rsp ≤ place → place < core.registers .rsp + 8 →
          returned.memory place = core.memory place) →
        ∃ after, processor.Steps returned after ∧ Answered core returned after ∧
          ∀ table, returned.registers .rax = (syscallHandler (initSyscallTable table)
            (called.registers .rdi) (called.registers .rsi) (called.registers .rdx)
            (called.registers .rcx) (called.registers .r8) (called.registers .r9)
            (called.memory.readQuad (called.registers .rsp + 8)) % 2 ^ 64).toNat →
          after.registers .rax = 2 ^ 64 - 1 := by
  rcases syscall_interrupts loaded isLoaded bounded isCall arguments (by omega) with
    ⟨entry, enters, isEntry, ring0, masked, entryStack, registers, frame, entryOutside⟩
  have entryBounded : ∀ register, entry.registers register < 2 ^ 64 := by
    intro register
    by_cases isStack : register = .rsp
    · subst isStack
      have stackFits := interruptStack_lt (bounded.registers .rsp) loaded.rsp0Fits
      omega
    · rw [registers register isStack]
      exact bounded_kernelArguments bounded register
  rcases syscallEntry_calls isLoaded isEntry entryBounded (by omega) frame with
    ⟨called, goes, asked⟩
  have calledStack := asked.rsp
  have aligned := interruptStack_aligned processor core
  have level : called.level = 0 := by
    rw [Core.level, asked.cs]
    exact ring0
  refine ⟨called, enters.trans goes, asked.rip, level, asked.rflags ▸ masked, by omega, ?_, ?_, ?_⟩
  · intro register mem
    have isArgument : ∀ register ∈ [Register.rdi, .rsi, .rdx, .rcx, .r8, .r9],
        handlerArguments entry register = core.registers register := by
      simp [handlerArguments, registers, kernelArguments]
    have notStack : register ≠ .rsp := by
      rintro rfl
      exact absurd mem (by decide)
    exact (asked.registers register notStack).trans (isArgument register mem)
  · exact asked.stack.1.trans (registers .r9 (by decide))
  · intro returned isBack returnedLevel sameStack frameKept addressKept
    have saved : syscallSaves.map entry.registers = syscallSaves.map (kernelArguments core) := by
      apply List.map_congr_left
      intro register mem
      apply registers
      rintro rfl
      exact absurd mem (by decide)
    have stack := asked.stack
    rw [saved] at stack
    have size : 8 * ((syscallSaves.map (kernelArguments core)).reverse ++
        [calls.interruptBack, core.cs, core.rflags, core.registers .rsp, core.ss]).length =
          152 := by
      rw [List.length_append, List.length_reverse, List.length_map, length_syscallSaves]
      rfl
    have quads : returned.memory.Quads (returned.registers .rsp)
        (returned.memory.readQuad (returned.registers .rsp) ::
          ((syscallSaves.map (kernelArguments core)).reverse ++
            [calls.interruptBack, core.cs, core.rflags, core.registers .rsp, core.ss])) := by
      refine ⟨rfl, ?_⟩
      rw [sameStack]
      apply stack.2.congr
      intro byte above below
      rw [size] at below
      exact frameKept byte (by omega) (by omega)
    have stackFits := interruptStack_lt (bounded.registers .rsp) loaded.rsp0Fits
    have address : returned.memory.readQuad (core.registers .rsp) =
        core.memory.readQuad (core.registers .rsp) := by
      apply readQuad_congr
      exact addressKept
    rcases syscall_answers isLoaded isBack returnedLevel arguments (by omega) quads returnable.2
      address with ⟨after, steps, answered⟩
    refine ⟨after, steps, answered, fun table answers => ?_⟩
    have minusOne : ((-1 : ℤ) % 2 ^ 64).toNat = 2 ^ 64 - 1 := by decide
    rw [syscallHandler_init, minusOne] at answers
    rw [answered.result, answers]

/-- A layout of the routines. -/
def imageCalls : SyscallLayout where
  syscall := 0x1600
  interruptBack := 0x1608
  handler := 0x2200
  handlerBack := 0x1300 + 28

/-- The instructions of `syscall.asm` at the addresses of that layout. -/
def syscallImage : List (ℕ × List Operation) :=
  [(0x1300, syscallEntry 0x2200 ++ syscallExit), (0x1600, syscallMoves ++ [.int 0x80, .ret])]

theorem syscallLoaded_image :
    SyscallLoaded (imageProcessor syscallImage) imageLayout imageCalls := by
  have stub : (imageProcessor syscallImage).endOf 0x1600 (syscallMoves ++ [.int 0x80]) =
      some 0x1608 := by decide +kernel
  have entry : (imageProcessor syscallImage).endOf 0x1300 (syscallEntry 0x2200) =
      some (0x1300 + 28) := by decide +kernel
  have exit : ((imageProcessor syscallImage).endOf (0x1300 + 28) syscallExit).isSome := by
    decide +kernel
  have ret : (imageProcessor syscallImage).fetch 0x1608 = some (.ret, 0x1609) := by
    decide +kernel
  rcases Option.isSome_iff_exists.mp exit with ⟨last, exit⟩
  exact ⟨located_of_endOf stub, ⟨_, ret⟩, located_of_endOf entry, ⟨last, located_of_endOf exit⟩,
    by decide, by decide⟩

theorem system_call_round_trip_kernel : ∃ called,
    (imageProcessor syscallImage).Steps (kernelCore 0x1600) called ∧ called.rip = 0x2200 ∧
      called.registers .rdi = 7 := by
  rcases @system_call_round_trip (imageProcessor syscallImage) imageLayout imageCalls
    (kernelCore 0x1600) (kernelLoaded_image _) syscallLoaded_image (bounded_kernelCore (by omega))
    rfl (by decide) (by decide) ⟨by decide, by decide, by decide⟩ with
    ⟨called, goes, isHandler, _, _, _, arguments, _⟩
  exact ⟨called, goes, isHandler, arguments .rdi (by decide)⟩

end Goshkik

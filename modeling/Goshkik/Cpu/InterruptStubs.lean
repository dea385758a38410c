import Goshkik.Cpu.Descriptors
import Goshkik.Scheduling.ContextSwitch

/-!
# The ways into the handlers and out of them

This file models `arch/x86_64/cpu/idt/isr.asm`.  Each vector has a stub that completes what the
processor has pushed to a `context_t`, and the two common stubs push the registers, call the
handler with the address of the frame and go back through whatever the handler has left there.

A stub has to push a zero where the processor pushes no error code.  The processor pushes one for
an alignment check, and the stub of that exception does not expect it.
-/

namespace Goshkik

open X86 Processor ByteMemory

/-- The registers in the order in which the common stubs push them. -/
def stubSaves : List Register :=
  [.rax, .rbx, .rcx, .rdx, .rsi, .rdi, .rbp, .r8, .r9, .r10, .r11, .r12, .r13, .r14, .r15]

/-- `ISR_NOERR` and `IRQ`. -/
def stubWithoutError (vector common : ℕ) : List Operation :=
  [.pushImmediate 0, .pushImmediate vector, .jmp common]

/-- `ISR_ERR`. -/
def stubWithError (vector common : ℕ) : List Operation := [.pushImmediate vector, .jmp common]

/-- The exceptions whose stub is an `ISR_ERR`. -/
def expectsError (vector : ℕ) : Bool := vector ∈ [8, 10, 11, 12, 13, 14]

@[simp]
theorem length_stubSaves : stubSaves.length = 15 := rfl

def isrStub (vector common : ℕ) : List Operation :=
  if expectsError vector then stubWithError vector common else stubWithoutError vector common

/-- The exceptions with a stub for which the processor pushes an error code. -/
def cpuPushesError (vector : ℕ) : Bool := vector ∈ [8, 10, 11, 12, 13, 14, 17]

def irqStub (irqNum common : ℕ) : List Operation := stubWithoutError (32 + irqNum) common

/-- A common stub up to the call of its handler. -/
def stubEntry (handler : ℕ) : List Operation :=
  stubSaves.map .push ++ [.move .rdi .rsp, .call handler]

/-- A common stub behind the call. -/
def stubExit : List Operation := stubSaves.reverse.map .pop ++ [.addImmediate .rsp 16, .iretq]

/-- Where the linker has put the stubs and the handlers.  The last two addresses are those behind
the calls of the handlers. -/
structure StubLayout where
  isr : ℕ → ℕ
  irq : ℕ → ℕ
  syscallEntry : ℕ
  isrCommonStub : ℕ
  irqCommonStub : ℕ
  isrHandler : ℕ
  irqHandler : ℕ
  isrBack : ℕ
  irqBack : ℕ

namespace StubLayout

variable (layout : StubLayout) (vector : ℕ)

def stub : ℕ := if vector < 20 then layout.isr vector else layout.irq (vector - 32)

def common : ℕ := if vector < 20 then layout.isrCommonStub else layout.irqCommonStub

def handler : ℕ := if vector < 20 then layout.isrHandler else layout.irqHandler

def back : ℕ := if vector < 20 then layout.isrBack else layout.irqBack

end StubLayout

/-- The exceptions and the interrupts of the controllers that have a stub. -/
def HasStub (vector : ℕ) : Prop := vector < 20 ∨ 32 ≤ vector ∧ vector < 48

/-- A common stub in memory, with the address behind its call. -/
structure CommonStub (processor : Processor) (entry handler back : ℕ) : Prop where
  entry : processor.Located entry (stubEntry handler) back
  exit : ∃ last, processor.Located back stubExit last

/-- The kernel in memory, with its descriptor tables. -/
structure KernelLoaded (processor : Processor) (layout : StubLayout) : Prop where
  isrFits : ∀ vector, layout.isr vector < 2 ^ 64
  irqFits : ∀ irqNum, layout.irq irqNum < 2 ^ 64
  syscallFits : layout.syscallEntry < 2 ^ 64
  rsp0Fits : processor.rsp0 < 2 ^ 64
  isrBackFits : layout.isrBack < 2 ^ 64
  irqBackFits : layout.irqBack < 2 ^ 64
  gates : ∃ idt : Idt, processor.gate =
    (initSyscallGate layout.syscallEntry (initIdt layout.isr layout.irq idt)).gate
  segments : ∃ tssBase gdt, processor.segment = (gdtSetup tssBase gdt).segment
  isr : ∀ vector < 20, ∃ last,
    processor.Located (layout.isr vector) (isrStub vector layout.isrCommonStub) last
  irq : ∀ irqNum < 16, ∃ last,
    processor.Located (layout.irq irqNum) (irqStub irqNum layout.irqCommonStub) last
  isrCommon : CommonStub processor layout.isrCommonStub layout.isrHandler layout.isrBack
  irqCommon : CommonStub processor layout.irqCommonStub layout.irqHandler layout.irqBack

/-- A layout of the stubs and the handlers. -/
def imageLayout : StubLayout where
  isr := fun vector => 0x1000 + 16 * (vector % 32)
  irq := fun irqNum => 0x1200 + 16 * (irqNum % 16)
  syscallEntry := 0x1300
  isrCommonStub := 0x1400
  irqCommonStub := 0x1500
  isrHandler := 0x2000
  irqHandler := 0x2100
  isrBack := 0x1400 + 17
  irqBack := 0x1500 + 17

/-- The instructions of `isr.asm` at the addresses of that layout. -/
def kernelImage : List (ℕ × List Operation) :=
  (List.range 20).map (fun vector => (imageLayout.isr vector, isrStub vector 0x1400)) ++
    (List.range 16).map (fun irqNum => (imageLayout.irq irqNum, irqStub irqNum 0x1500)) ++
    [(0x1400, stubEntry 0x2000 ++ stubExit), (0x1500, stubEntry 0x2100 ++ stubExit)]

/-- A processor behind `init_idt`, `init_syscalls` and `gdt_setup`, with more in memory than these
instructions. -/
def imageProcessor (more : List (ℕ × List Operation)) : Processor where
  fetch := fetchImage (kernelImage ++ more)
  gate := (initSyscallGate 0x1300 (initIdt imageLayout.isr imageLayout.irq (fun _ => {}))).gate
  segment := (gdtSetup 0x7000 emptyGdt).segment
  rsp0 := 0x9000
  sumFlags := fun rflags _ _ => rflags

theorem located_image {base last : ℕ} {block : List Operation} (more : List (ℕ × List Operation))
    (ends : (imageProcessor []).endOf base block = some last) :
    (imageProcessor more).Located base block last := by
  apply (located_of_endOf ends).mono
  intro address found here
  simp only [imageProcessor, List.append_nil] at here
  exact fetchImage_append here

theorem located_image_of_isSome {base : ℕ} {block : List Operation}
    (more : List (ℕ × List Operation)) (ends : ((imageProcessor []).endOf base block).isSome) :
    ∃ last, (imageProcessor more).Located base block last := by
  rcases Option.isSome_iff_exists.mp ends with ⟨last, ends⟩
  exact ⟨last, located_image more ends⟩

theorem kernelLoaded_image (more : List (ℕ × List Operation)) :
    KernelLoaded (imageProcessor more) imageLayout := by
  have stubs : ∀ vector < 20, ((imageProcessor []).endOf (imageLayout.isr vector)
      (isrStub vector 0x1400)).isSome := by decide +kernel
  have irqStubs : ∀ irqNum < 16, ((imageProcessor []).endOf (imageLayout.irq irqNum)
      (irqStub irqNum 0x1500)).isSome := by decide +kernel
  have isrEntry : (imageProcessor []).endOf 0x1400 (stubEntry 0x2000) = some (0x1400 + 17) := by
    decide +kernel
  have irqEntry : (imageProcessor []).endOf 0x1500 (stubEntry 0x2100) = some (0x1500 + 17) := by
    decide +kernel
  have isrExit : ((imageProcessor []).endOf (0x1400 + 17) stubExit).isSome := by decide +kernel
  have irqExit : ((imageProcessor []).endOf (0x1500 + 17) stubExit).isSome := by decide +kernel
  have rsp0 : (imageProcessor more).rsp0 = 0x9000 := rfl
  refine ⟨?_, ?_, by decide, by rw [rsp0]; omega, by decide, by decide, ⟨_, rfl⟩, ⟨_, _, rfl⟩,
    fun vector isException => located_image_of_isSome more (stubs vector isException),
    fun irqNum isInterrupt => located_image_of_isSome more (irqStubs irqNum isInterrupt),
    ⟨located_image more isrEntry, located_image_of_isSome more isrExit⟩,
    ⟨located_image more irqEntry, located_image_of_isSome more irqExit⟩⟩
  · intro vector
    simp only [imageLayout]
    omega
  · intro irqNum
    simp only [imageLayout]
    omega

/-! ## Contexts and registers -/

/-- The general registers of a context. -/
def Context.general (context : Context) : Register → ℕ
  | .rax => context.rax
  | .rbx => context.rbx
  | .rcx => context.rcx
  | .rdx => context.rdx
  | .rsi => context.rsi
  | .rdi => context.rdi
  | .rbp => context.rbp
  | .rsp => context.rsp
  | .r8 => context.r8
  | .r9 => context.r9
  | .r10 => context.r10
  | .r11 => context.r11
  | .r12 => context.r12
  | .r13 => context.r13
  | .r14 => context.r14
  | .r15 => context.r15

/-- The processor with the registers of a context. -/
def Context.core (context : Context) (memory : ByteMemory) : Core where
  registers := context.general
  memory := memory
  rip := context.rip
  cs := context.cs
  ss := context.ss
  rflags := context.rflags

/-- The context of a processor that is interrupted. -/
def interruptedContext (core : Core) (vector error : ℕ) : Context where
  r15 := core.registers .r15
  r14 := core.registers .r14
  r13 := core.registers .r13
  r12 := core.registers .r12
  r11 := core.registers .r11
  r10 := core.registers .r10
  r9 := core.registers .r9
  r8 := core.registers .r8
  rbp := core.registers .rbp
  rdi := core.registers .rdi
  rsi := core.registers .rsi
  rdx := core.registers .rdx
  rcx := core.registers .rcx
  rbx := core.registers .rbx
  rax := core.registers .rax
  intNo := vector
  errCode := error
  rip := core.rip
  cs := core.cs
  rflags := core.rflags
  rsp := core.registers .rsp
  ss := core.ss

/-- What the handler of an alignment check gets: the error code lies where the instruction pointer
belongs, and everything behind it one quadword too far. -/
def shiftedContext (core : Core) (vector error : ℕ) : Context :=
  { interruptedContext core vector 0 with
    rip := error
    cs := core.rip
    rflags := core.cs
    rsp := core.rflags
    ss := core.registers .rsp }

@[simp]
theorem core_interruptedContext (core : Core) (vector error : ℕ) (memory : ByteMemory) :
    (interruptedContext core vector error).core memory = { core with memory := memory } := by
  have registers : (interruptedContext core vector error).general = core.registers := by
    funext register
    cases register <;> rfl
  simp only [Context.core, registers]
  rfl

theorem words_eq (context : Context) : context.words =
    (stubSaves.map context.general).reverse ++ [context.intNo, context.errCode] ++
      [context.rip, context.cs, context.rflags, context.rsp, context.ss] := rfl

/-! ## The way in -/

/-- The processor at the first instruction of a handler written in C. -/
structure HandlerCalled (core called : Core) (handler back frameAt stackTop : ℕ)
    (words : List ℕ) : Prop where
  rip : called.rip = handler
  rdi : called.registers .rdi = frameAt
  rsp : called.registers .rsp + 8 = frameAt
  back : called.memory.readQuad (called.registers .rsp) = back
  frame : called.memory.Quads frameAt words
  registers : ∀ register, register ≠ .rsp → register ≠ .rdi →
    called.registers register = core.registers register
  outside : ∀ place, place < called.registers .rsp ∨ stackTop ≤ place →
    called.memory place = core.memory place

variable {processor : Processor} {layout : StubLayout} {core entry : Core}
  {entryAt handler back stackTop vector : ℕ} {error : Option ℕ}

/-- The common stub saves the registers below what is on the stack. -/
theorem commonStub_calls {words : List ℕ} (backFits : back < 2 ^ 64)
    (located : processor.Located core.rip (stubEntry handler) back)
    (bounded : ∀ register, core.registers register < 2 ^ 64)
    (room : 128 ≤ core.registers .rsp)
    (quads : core.memory.Quads (core.registers .rsp) words) :
    ∃ called, processor.Steps core called ∧ called.cs = core.cs ∧ called.rflags = core.rflags ∧
      HandlerCalled core called handler back (core.registers .rsp - 120) (core.registers .rsp)
        ((stubSaves.map core.registers).reverse ++ words) := by
  have split : stubEntry handler =
      (stubSaves.map .push ++ [.move .rdi .rsp]) ++ [.call handler] := by
    rw [stubEntry, List.append_assoc]
    rfl
  rw [split, located_append] at located
  rcases located with ⟨place, saves, next, call, isBack⟩
  cases isBack
  have straight : ∀ operation ∈ stubSaves.map Operation.push ++ [.move .rdi .rsp],
      operation.straight := by decide
  have notStack : Register.rsp ∉ stubSaves := by decide
  have isSize : 8 * stubSaves.length = 120 := rfl
  have saved := @performAll_push_pushed processor core stubSaves words notStack (by omega) bounded
    quads
  rw [isSize] at saved
  rcases saved with ⟨pushed, frame⟩
  have performed : processor.performAll core (stubSaves.map .push ++ [.move .rdi .rsp]) =
      (processor.performAll core (stubSaves.map .push)).set .rdi
        ((processor.performAll core (stubSaves.map .push)).registers .rsp) := by
    rw [performAll_append]
    rfl
  have block := steps_block saves straight
  rw [performed] at block
  generalize processor.performAll core (stubSaves.map Operation.push) = stacked
    at pushed frame block
  have stack := pushed.rsp
  have rspBound := bounded .rsp
  have moved : (stacked.set .rdi (stacked.registers .rsp)).registers .rsp =
      core.registers .rsp - 120 := (Core.set_registers_ne (by decide)).trans stack
  have rdi : (stacked.set .rdi (stacked.registers .rsp)).registers .rdi =
      core.registers .rsp - 120 := Core.set_registers_same.trans stack
  have others : ∀ register, register ≠ .rsp → register ≠ .rdi →
      (stacked.set .rdi (stacked.registers .rsp)).registers register =
        core.registers register := by
    intro register notRsp notRdi
    exact (Core.set_registers_ne notRdi).trans (pushed.registers register notRsp)
  have sameMemory : (stacked.set .rdi (stacked.registers .rsp)).memory = stacked.memory :=
    Core.set_memory
  have sameCs : (stacked.set .rdi (stacked.registers .rsp)).cs = core.cs :=
    Core.set_cs.trans pushed.cs
  have sameFlags : (stacked.set .rdi (stacked.registers .rsp)).rflags = core.rflags :=
    Core.set_rflags.trans pushed.rflags
  generalize stacked.set .rdi (stacked.registers .rsp) = ready at *
  have calls := @steps_call processor { ready with rip := place } handler back call
    (by simp only [moved]; omega) (by simp only [moved]; omega) backFits
  rcases calls with ⟨called, calls, isCalled⟩
  have calledStack : called.registers .rsp + 8 = core.registers .rsp - 120 :=
    isCalled.rsp.trans moved
  have calledOutside : ∀ byte, byte < called.registers .rsp ∨ core.registers .rsp - 120 ≤ byte →
      called.memory byte = stacked.memory byte := by
    intro byte outside
    rw [← sameMemory]
    apply isCalled.outside
    simp only [moved]
    exact outside
  refine ⟨called, block.steps.trans calls, isCalled.cs.trans sameCs,
    isCalled.rflags.trans sameFlags,
    ⟨isCalled.rip, ?_, calledStack, isCalled.back, ?_, ?_, ?_⟩⟩
  · exact (isCalled.registers .rdi (by decide)).trans rdi
  · apply Quads.congr frame
    intro byte above _
    exact calledOutside byte (.inr above)
  · intro register notRsp notRdi
    exact (isCalled.registers register notRsp).trans (others register notRsp notRdi)
  · intro byte outside
    apply (calledOutside byte (by omega)).trans
    apply pushed.outside byte
    omega

/-- What a stub pushes, the number of the vector last. -/
def stubNumbers (vector : ℕ) : List ℕ := if expectsError vector then [vector] else [0, vector]

/-- The frame that a handler gets for a vector. -/
def deliveredContext (core : Core) (vector : ℕ) (error : Option ℕ) : Context :=
  if cpuPushesError vector && !expectsError vector then
    shiftedContext core vector (error.getD 0)
  else interruptedContext core vector (error.getD 0)

/-- What lies behind that frame, up to where the stack was before. -/
def behindFrame (core : Core) (vector : ℕ) : List ℕ :=
  if cpuPushesError vector && !expectsError vector then [core.ss] else []

/-- The processor pushes an error code for the exceptions whose stub expects one, and for an
alignment check. -/
theorem cpuPushesError_eq (vector : ℕ) :
    cpuPushesError vector = (expectsError vector || vector == 17) := by
  simp [cpuPushesError, expectsError]
  grind

theorem frame_words (pushes : error.isSome = cpuPushesError vector) :
    (stubSaves.map core.registers).reverse ++
        ((stubNumbers vector).reverse ++ interruptWords core error) =
      (deliveredContext core vector error).words ++ behindFrame core vector := by
  unfold stubNumbers deliveredContext behindFrame
  cases error with
  | none =>
      have expects : expectsError vector = false := by
        have flags := cpuPushesError_eq vector
        grind
      have notPushed : cpuPushesError vector = false := pushes.symm
      rw [expects, notPushed]
      rfl
  | some code =>
      have pushed : cpuPushesError vector = true := pushes.symm
      cases expects : expectsError vector with
      | true =>
          rw [pushed]
          rfl
      | false =>
          rw [pushed]
          rfl

theorem KernelLoaded.gate (loaded : KernelLoaded processor layout) (hasStub : HasStub vector) :
    processor.gate vector = some ⟨layout.stub vector, kernelCode64, 0⟩ := by
  rcases loaded.gates with ⟨idt, gates⟩
  rw [gates, gate_kernelIdt idt loaded.isrFits loaded.irqFits loaded.syscallFits]
  rcases hasStub with isException | isInterrupt
  · rw [if_pos isException, StubLayout.stub, if_pos isException]
  · have notException : ¬vector < 20 := by omega
    rw [if_neg notException, if_pos isInterrupt, StubLayout.stub, if_neg notException]

theorem KernelLoaded.stub (loaded : KernelLoaded processor layout) (hasStub : HasStub vector) :
    ∃ last, processor.Located (layout.stub vector)
      ((stubNumbers vector).map .pushImmediate ++ [.jmp (layout.common vector)]) last := by
  rcases hasStub with isException | isInterrupt
  · rcases loaded.isr vector isException with ⟨last, located⟩
    simp only [StubLayout.stub, StubLayout.common, if_pos isException]
    refine ⟨last, ?_⟩
    unfold isrStub at located
    unfold stubNumbers
    split
    · rwa [if_pos ‹_›] at located
    · rwa [if_neg ‹_›] at located
  · have notException : ¬vector < 20 := by omega
    rcases loaded.irq (vector - 32) (by omega) with ⟨last, located⟩
    have noError : ¬expectsError vector = true := by
      simp [expectsError]
      omega
    have isVector : 32 + (vector - 32) = vector := by omega
    simp only [StubLayout.stub, StubLayout.common, if_neg notException, stubNumbers, if_neg noError]
    rw [irqStub, isVector] at located
    exact ⟨last, located⟩

theorem KernelLoaded.common (loaded : KernelLoaded processor layout) (vector : ℕ) :
    CommonStub processor (layout.common vector) (layout.handler vector) (layout.back vector) := by
  unfold StubLayout.common StubLayout.handler StubLayout.back
  split
  · exact loaded.isrCommon
  · exact loaded.irqCommon

theorem KernelLoaded.backFits (loaded : KernelLoaded processor layout) (vector : ℕ) :
    layout.back vector < 2 ^ 64 := by
  unfold StubLayout.back
  split
  · exact loaded.isrBackFits
  · exact loaded.irqBackFits

theorem Context.storedAt_of_quads {context : Context} {memory : ByteMemory} {place : ℕ}
    {more : List ℕ} (quads : memory.Quads place (context.words ++ more)) :
    context.StoredAt memory place := by
  intro index inside
  have length : context.words.length = 22 := rfl
  have inWords : index < context.words.length := length ▸ inside
  rw [(quads_append.mp quads).1.getElem inWords, List.getD_eq_getElem?_getD,
    List.getElem?_eq_getElem inWords, Option.getD_some]

theorem handlerFlags_interrupts (rflags : ℕ) : (handlerFlags rflags).testBit 9 = false := by
  have masked : (2 ^ 64 - 1 - (2 ^ 8 + 2 ^ 9 + 2 ^ 14 + 2 ^ 16 + 2 ^ 17)).testBit 9 = false := by
    decide +kernel
  rw [handlerFlags, Nat.testBit_and, masked, Bool.and_false]

theorem interruptStack_aligned (processor : Processor) (core : Core) :
    processor.interruptStack core % 16 = 0 :=
  Nat.mul_mod_left _ 16

/-- From the first instruction of a stub to the first one of the handler. -/
theorem stub_calls (loaded : KernelLoaded processor layout) (bounded : core.Bounded)
    (hasStub : HasStub vector) (pushes : error.isSome = cpuPushesError vector) {level : ℕ}
    (delivered : processor.Delivered core entry ⟨layout.stub vector, kernelCode64, level⟩ error)
    (room : 192 ≤ processor.interruptStack core) :
    ∃ called, processor.Steps entry called ∧ called.cs = entry.cs ∧ called.rflags = entry.rflags ∧
      HandlerCalled core called (layout.handler vector) (layout.back vector)
        (processor.interruptStack core - Context.size - 8 * (behindFrame core vector).length)
        (processor.interruptStack core)
        ((deliveredContext core vector error).words ++ behindFrame core vector) := by
  have frame := @frame_words core _ _ pushes
  have lengths := congrArg List.length frame
  have wordsLength : (deliveredContext core vector error).words.length = 22 := rfl
  simp only [List.length_append, List.length_reverse, List.length_map, length_stubSaves,
    wordsLength] at lengths
  have fewNumbers : (stubNumbers vector).length ≤ 2 := by
    unfold stubNumbers
    split <;> simp
  have fewWords : (interruptWords core error).length ≤ 6 := by
    cases error <;> simp [interruptWords]
  have smallNumbers : ∀ number ∈ stubNumbers vector, number < 2 ^ 64 := by
    intro number mem
    unfold stubNumbers at mem
    unfold HasStub at hasStub
    split at mem <;> simp at mem <;> omega
  have entryStack := delivered.rsp
  have stackFits := interruptStack_lt (bounded.registers .rsp) loaded.rsp0Fits
  rcases loaded.stub hasStub with ⟨last, located⟩
  rw [← show entry.rip = layout.stub vector from delivered.rip] at located
  rcases steps_pushes located (by omega) (by omega) smallNumbers delivered.stack with
    ⟨pushed, isPushed, quads, enters⟩
  have pushedStack := isPushed.rsp
  rw [← pushedStack] at quads
  have kept : ∀ register, register ≠ .rsp →
      pushed.registers register = core.registers register := fun register different =>
    (isPushed.registers register different).trans (delivered.registers register different)
  have smallRegisters : ∀ register, pushed.registers register < 2 ^ 64 := by
    intro register
    by_cases isStack : register = .rsp
    · subst isStack
      omega
    · rw [kept register isStack]
      exact bounded.registers register
  have saves : stubSaves.map pushed.registers = stubSaves.map core.registers := by
    apply List.map_congr_left
    intro register mem
    apply kept
    rintro rfl
    exact absurd mem (by decide)
  rcases @commonStub_calls _ { pushed with rip := layout.common vector } _ _ _
    (loaded.backFits vector) (loaded.common vector).entry smallRegisters
    (by simp only; omega) quads with ⟨called, calls, sameCs, sameFlags, isCalled⟩
  rw [saves, frame] at isCalled
  have place : pushed.registers .rsp - 120 = processor.interruptStack core - Context.size -
      8 * (behindFrame core vector).length := by
    simp only [Context.size]
    omega
  refine ⟨called, enters.trans calls, sameCs.trans isPushed.cs, sameFlags.trans isPushed.rflags,
    ⟨isCalled.rip, isCalled.rdi.trans place, isCalled.rsp.trans place, isCalled.back,
      place ▸ isCalled.frame, ?_, ?_⟩⟩
  · intro register notRsp notRdi
    exact (isCalled.registers register notRsp notRdi).trans (kept register notRsp)
  · intro byte outside
    have calledStack : called.registers .rsp + 8 = pushed.registers .rsp - 120 := isCalled.rsp
    apply (isCalled.outside byte (by simp only; omega)).trans
    apply (isPushed.outside byte (by omega)).trans
    apply delivered.outside
    omega

/-- An exception or an interrupt runs to the first instruction of its handler, with a frame that
holds the registers of the interrupted program.  For an alignment check the frame is one quadword
off. -/
theorem interrupt_enters_handler (loaded : KernelLoaded processor layout)
    (bounded : core.Bounded) (hasStub : HasStub vector) {software : Bool}
    (allowed : software → core.level = 0) (pushes : error.isSome = cpuPushesError vector)
    (fits : ∀ code ∈ error, code < 2 ^ 64) (room : 192 ≤ processor.interruptStack core) :
    ∃ entry called, processor.deliver vector error software core = some entry ∧
      processor.Steps entry called ∧ called.level = 0 ∧ called.rflags.testBit 9 = false ∧
      (called.registers .rdi % 16 = 0 ↔ vector ≠ 17) ∧
      (deliveredContext core vector error).StoredAt called.memory (called.registers .rdi) ∧
      HandlerCalled core called (layout.handler vector) (layout.back vector)
        (processor.interruptStack core - Context.size - 8 * (behindFrame core vector).length)
        (processor.interruptStack core)
        ((deliveredContext core vector error).words ++ behindFrame core vector) := by
  have gate := loaded.gate hasStub
  rcases deliver_delivered bounded loaded.rsp0Fits gate (fun isSoftware => (allowed isSoftware).le)
    fits (by omega) with ⟨entry, delivers, delivered⟩
  rcases stub_calls loaded bounded hasStub pushes delivered room with
    ⟨called, calls, sameCs, sameFlags, isCalled⟩
  have ring0 : called.level = 0 := by
    have isKernel : called.cs = kernelCode64 := sameCs.trans delivered.cs
    rw [Core.level, isKernel]
    decide
  have aligned := interruptStack_aligned processor core
  refine ⟨entry, called, delivers, calls, ring0, ?_, ?_, ?_, isCalled⟩
  · rw [sameFlags, delivered.rflags]
    exact handlerFlags_interrupts core.rflags
  · rw [isCalled.rdi, behindFrame, cpuPushesError_eq]
    simp only [Context.size]
    by_cases isAlignment : vector = 17
    · subst isAlignment
      simp [expectsError]
      omega
    · simp [isAlignment]
      omega
  · rw [isCalled.rdi]
    exact Context.storedAt_of_quads isCalled.frame

/-! ## The way out -/

theorem Context.StoredAt.quads {context : Context} {memory : ByteMemory} {place : ℕ}
    (stored : context.StoredAt memory place) : memory.Quads place context.words := by
  apply quads_of_getElem
  intro index inside
  rw [stored index inside, List.getD_eq_getElem?_getD, List.getElem?_eq_getElem inside,
    Option.getD_some]

/-- The registers behind the pops are those of the context. -/
theorem update_general {registers : Register → ℕ} {context : Context}
    (popped : stubSaves.reverse.map registers = (stubSaves.map context.general).reverse) :
    Function.update registers .rsp context.rsp = context.general := by
  rw [← List.map_reverse] at popped
  have saved := List.map_inj_left.mp popped
  funext register
  by_cases isStack : register = .rsp
  · subst isStack
    exact Function.update_self _ _ _
  · rw [Function.update_of_ne isStack]
    apply saved
    cases register <;> first | decide | exact absurd rfl isStack

/-- Whatever the handler has left in the frame is what the processor goes on with.  It faults when
the frame does not name segments that it can return to. -/
theorem frame_is_resumed {returned : Core} {context : Context} (level : returned.level = 0)
    (stub : CommonStub processor entryAt handler returned.rip)
    (room : returned.registers .rsp + Context.size < 2 ^ 64)
    (stored : context.StoredAt returned.memory (returned.registers .rsp)) :
    ∃ last, processor.StepsInside returned last ∧ processor.operation? last = some .iretq ∧
      processor.step last =
        if processor.codeAt context.cs ∧ processor.stackAt (context.cs % 4) context.ss then
          some (context.core returned.memory)
        else none := by
  simp only [Context.size] at room
  rcases stub.exit with ⟨place, located⟩
  have exit : stubExit = (stubSaves.reverse.map .pop ++ [.addImmediate .rsp 16]) ++ [.iretq] := by
    rw [stubExit, List.append_assoc]
    rfl
  rw [exit, located_append] at located
  rcases located with ⟨middle, pops, next, iretq, _⟩
  have quads := stored.quads
  rw [words_eq, List.append_assoc, quads_append, quads_append] at quads
  rcases quads with ⟨saves, _, back⟩
  have popped := @performAll_pop processor returned stubSaves.reverse
    (stubSaves.map context.general).reverse (by decide) (by decide) (by simp)
    (by simp only [List.length_reverse, length_stubSaves]; omega) saves
  have straight : ∀ operation ∈ stubSaves.reverse.map Operation.pop ++ [.addImmediate .rsp 16],
      operation.straight := by decide
  have block := steps_block pops straight
  rw [performAll_append] at block
  generalize processor.performAll returned (stubSaves.reverse.map .pop) = restored at popped block
  have values : stubSaves.reverse.map restored.registers =
      (stubSaves.map context.general).reverse := popped.values
  rcases @perform_addImmediate processor restored .rsp 16 with ⟨registers, memory, sameCs⟩
  have single : processor.performAll restored [.addImmediate .rsp 16] =
      processor.perform restored (.addImmediate .rsp 16) := rfl
  rw [single] at block
  generalize processor.perform restored (.addImmediate .rsp 16) = ready at *
  have stack : ready.registers .rsp = returned.registers .rsp + 136 := by
    rw [registers, Function.update_self, popped.rsp, List.length_reverse, length_stubSaves]
    omega
  have isLevel : ready.level = 0 := by
    rw [Core.level, sameCs, popped.cs]
    exact level
  refine ⟨_, block, by rw [operation?, iretq]; rfl, ?_⟩
  have returns : processor.step { ready with rip := middle } =
      processor.interruptReturn { ready with rip := middle } := by
    rw [step, iretq]
    rfl
  have words := @interruptReturn_eq processor { ready with rip := middle } context.rip context.cs
    context.rflags context.rsp context.ss isLevel
    (by simp only [stack, memory, popped.memory]; exact back) (by simp only [stack]; omega)
  have restoredAll : Function.update ready.registers .rsp context.rsp = context.general := by
    rw [registers, Function.update_idem]
    exact update_general values
  have sameCore : { Core.set { ready with rip := middle } .rsp context.rsp with
      rip := context.rip
      cs := context.cs
      rflags := context.rflags
      ss := context.ss } = context.core returned.memory := by
    simp only [Core.set, Context.core, restoredAll, memory, popped.memory]
  rw [returns, words, sameCore]

/-! ## There and back -/

theorem deliveredContext_of_ne (notAlignment : vector ≠ 17) (core : Core) (error : Option ℕ) :
    deliveredContext core vector error = interruptedContext core vector (error.getD 0) := by
  have expected : (cpuPushesError vector && !expectsError vector) = false := by
    rw [cpuPushesError_eq]
    cases expectsError vector <;> simp [notAlignment]
  rw [deliveredContext, expected]
  rfl

theorem behindFrame_of_ne (notAlignment : vector ≠ 17) (core : Core) :
    behindFrame core vector = [] := by
  have expected : (cpuPushesError vector && !expectsError vector) = false := by
    rw [cpuPushesError_eq]
    cases expectsError vector <;> simp [notAlignment]
  rw [behindFrame, expected]
  rfl

/-- A processor that executes kernel code. -/
def kernelCore (rip : ℕ) : Core where
  registers := fun register => if register = .rsp then 0x8000 else 7
  memory := fun _ => 0
  rip := rip
  cs := kernelCode64
  ss := kernelData64
  rflags := 0x202

theorem bounded_kernelCore {rip : ℕ} (fits : rip < 2 ^ 64) : (kernelCore rip).Bounded where
  registers := by
    intro register
    simp only [kernelCore]
    split <;> omega
  rip := fits
  cs := by simp only [kernelCore, kernelCode64]; omega
  ss := by simp only [kernelCore, kernelData64]; omega
  rflags := by simp only [kernelCore]; omega

/-- The handler of an alignment check finds the error code in place of the instruction pointer,
every field behind it one quadword off, and a stack that is not aligned.  It goes back to the error
code as an address, or to a fault. -/
theorem alignment_check_shifted (loaded : KernelLoaded processor layout) (bounded : core.Bounded)
    {code : ℕ} (fits : code < 2 ^ 64) (room : 192 ≤ processor.interruptStack core) :
    ∃ entry called, processor.deliver 17 (some code) false core = some entry ∧
      processor.Steps entry called ∧ called.rip = layout.isrHandler ∧
      called.registers .rdi % 16 = 8 ∧
      ({ interruptedContext core 17 0 with
        rip := code
        cs := core.rip
        rflags := core.cs
        rsp := core.rflags
        ss := core.registers .rsp } : Context).StoredAt called.memory (called.registers .rdi) ∧
      ∀ returned, returned.rip = layout.isrBack → returned.level = 0 →
        returned.registers .rsp = called.registers .rdi →
        (∀ place, called.registers .rdi ≤ place → place < called.registers .rdi + Context.size →
          returned.memory place = called.memory place) →
        ∀ resumed, processor.Leaves returned resumed →
          resumed.rip = code ∧ resumed.cs = core.rip := by
  have hasStub : HasStub 17 := .inl (by decide)
  rcases @interrupt_enters_handler _ _ _ 17 (some code) loaded bounded hasStub false
    (fun software => absurd software Bool.false_ne_true) rfl
    (by
      intro other mem
      obtain rfl := Option.mem_some.mp mem
      exact fits) room with
    ⟨entry, called, delivers, calls, ring0, masked, aligned, stored, isCalled⟩
  have isShifted : deliveredContext core 17 (some code) = shiftedContext core 17 code := rfl
  rw [isShifted] at stored
  have behind : behindFrame core 17 = [core.ss] := rfl
  have frameStack := isCalled.rsp
  have frameAt := isCalled.rdi
  simp only [behind, List.length_singleton, Context.size] at frameAt frameStack
  have alignedStack := interruptStack_aligned processor core
  have stackFits := interruptStack_lt (bounded.registers .rsp) loaded.rsp0Fits
  refine ⟨entry, called, delivers, calls, isCalled.rip, by omega, stored, ?_⟩
  intro returned isBack level sameStack unchanged
  have kept : (shiftedContext core 17 code).StoredAt returned.memory
      (returned.registers .rsp) := by
    rw [sameStack]
    exact stored.congr unchanged
  have stub : CommonStub processor layout.isrCommonStub layout.isrHandler returned.rip := by
    rw [isBack]
    exact loaded.isrCommon
  rcases frame_is_resumed level stub (by simp only [Context.size]; omega) kept with
    ⟨last, inside, isReturn, resumes⟩
  intro resumed leaves
  rcases leaves with ⟨other, otherInside, otherReturn, goes⟩
  obtain rfl := inside.unique otherInside isReturn otherReturn
  rw [resumes] at goes
  split at goes
  · obtain rfl := Option.some.inj goes
    exact ⟨rfl, rfl⟩
  · cases goes

theorem alignment_check_shifted_kernel : ∃ entry called,
    (imageProcessor []).deliver 17 (some 0) false (kernelCore 0x123456) = some entry ∧
      (imageProcessor []).Steps entry called ∧ called.registers .rdi % 16 = 8 ∧
      called.memory.readQuad (called.registers .rdi + 8 * 18) = 0x123456 := by
  rcases @alignment_check_shifted _ _ (kernelCore 0x123456) (kernelLoaded_image [])
    (bounded_kernelCore (by omega)) 0 (by omega) (by decide) with
    ⟨entry, called, delivers, calls, _, misaligned, stored, _⟩
  exact ⟨entry, called, delivers, calls, misaligned, stored 18 (by decide)⟩

/-! ## Interrupts that programs raise -/

/-- A program of level 3 gets through no gate but the one of the system calls, while the kernel may
raise every interrupt that has a gate. -/
theorem software_interrupt_iff (loaded : KernelLoaded processor layout)
    (isLevel : core.level = 0 ∨ core.level = 3) :
    (processor.deliver vector none true core).isSome ↔
      vector = 0x80 ∨ core.level = 0 ∧ HasStub vector := by
  rcases loaded.gates with ⟨idt, gates⟩
  have gate := gate_kernelIdt idt loaded.isrFits loaded.irqFits loaded.syscallFits vector
  rw [← gates] at gate
  rw [deliver_software_isSome, gate]
  unfold HasStub
  by_cases isException : vector < 20
  · simp only [if_pos isException, Option.some.injEq, exists_eq_left']
    omega
  · rw [if_neg isException]
    by_cases isInterrupt : 32 ≤ vector ∧ vector < 48
    · simp only [if_pos isInterrupt, Option.some.injEq, exists_eq_left']
      omega
    · rw [if_neg isInterrupt]
      by_cases isSyscall : vector = 0x80
      · simp only [if_pos isSyscall, Option.some.injEq, exists_eq_left']
        omega
      · simp only [if_neg isSyscall]
        constructor
        · rintro ⟨gate, found, _⟩
          cases found
        · omega

/-- A user program may make system calls, and may not raise the interrupt of the timer. -/
theorem software_interrupt_user :
    ((imageProcessor []).deliver 0x80 none true
        { kernelCore 0x123456 with cs := userCode64 }).isSome ∧
      ((imageProcessor []).deliver 32 none true
        { kernelCore 0x123456 with cs := userCode64 }).isSome = false := by
  have user : ({ kernelCore 0x123456 with cs := userCode64 } : Core).level = 3 := rfl
  refine ⟨(software_interrupt_iff (kernelLoaded_image []) (.inr user)).mpr (.inl rfl), ?_⟩
  rw [Bool.eq_false_iff]
  intro raised
  rcases (software_interrupt_iff (kernelLoaded_image []) (.inr user)).mp raised with timer | kernel
  · cases timer
  · cases user.symm.trans kernel.1

end Goshkik

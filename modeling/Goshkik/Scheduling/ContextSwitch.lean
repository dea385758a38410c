import Mathlib.Tactic.IntervalCases
import Goshkik.Lib.X86
import Goshkik.Scheduling.Tick

/-!
# The assembly routine of the context switch

`contextSwitchProgram` is `scheduling/context_switch.asm`.  Called with the places of the
interrupt's frame and of a saved context, it leaves in the frame what `contextSwitch` says
and changes nothing else but the stack below its own frame.
-/

namespace Goshkik

open X86 ByteMemory

namespace Context

/-- The quadwords of a context in the order of their offsets. -/
def words (context : Context) : List ℕ :=
  [context.r15, context.r14, context.r13, context.r12, context.r11, context.r10, context.r9,
    context.r8, context.rbp, context.rdi, context.rsi, context.rdx, context.rcx, context.rbx,
    context.rax, context.intNo, context.errCode, context.rip, context.cs, context.rflags,
    context.rsp, context.ss]

/-- `sizeof(context_t)`. -/
def size : ℕ := 176

/-- A context lies in memory at a place. -/
def StoredAt (context : Context) (memory : ByteMemory) (place : ℕ) : Prop :=
  ∀ index < 22, memory.readQuad (place + 8 * index) = context.words.getD index 0

end Context

def contextSaves : List Register := [.rbp, .rbx, .r12, .r13, .r14, .r15]

/-- The first lines, up to the comparison. -/
def contextEntry : List Instruction := contextSaves.map .push ++ [.cmp .rdx 1]

/-- The lines that copy all quadwords. -/
def contextCopy : List Instruction := [.movImmediate .rcx 22, .cld, .repMovsq]

/-- The offsets that `.context_ring_3` copies through `rax`: the general registers and `rip`. -/
def ring3Offsets : List ℕ := [0, 8, 16, 24, 32, 40, 48, 56, 64, 72, 80, 88, 96, 104, 112, 136]

/-- The lines behind `.context_ring_3` that fill in `cs`, `rflags`, `rsp` and `ss`. -/
def ring3Tail : List Instruction :=
  [.movImmediate .rax userCode64, .store .rdi 144 .rax,
    .load .rax .rsi 152, .orImmediate .rax 0x200, .store .rdi 152 .rax,
    .load .rax .rsi 160, .store .rdi 160 .rax,
    .movImmediate .rax userData64, .store .rdi 168 .rax]

def contextRing3 : List Instruction := ring3Offsets.flatMap copyWord ++ ring3Tail

/-- The lines behind `.context_done` before the `ret`. -/
def contextDone : List Instruction := contextSaves.reverse.map .pop

def contextSwitchProgram : List Instruction :=
  contextEntry ++ [.je (contextEntry.length + 1 + contextCopy.length + 1)] ++ contextCopy ++
    [.jmp (contextEntry.length + 1 + contextCopy.length + 1 + contextRing3.length)] ++
    contextRing3 ++ contextDone ++ [.ret]

/-- The processor at a call of `context_switch`: the arguments, and areas that do not overlap. -/
structure SwitchCall (cpu : Cpu) (frameAt savedAt : ℕ) (isRing3 : Bool) : Prop where
  rdi : cpu.registers .rdi = frameAt
  rsi : cpu.registers .rsi = savedAt
  rdx : cpu.registers .rdx = isRing3.toNat
  frameRoom : frameAt + Context.size ≤ 2 ^ 64
  savedRoom : savedAt + Context.size ≤ 2 ^ 64
  apart : savedAt + Context.size ≤ frameAt ∨ frameAt + Context.size ≤ savedAt
  stack : 48 ≤ cpu.registers .rsp ∧ cpu.registers .rsp < 2 ^ 64
  stackFrame : cpu.registers .rsp ≤ frameAt ∨
    frameAt + Context.size ≤ cpu.registers .rsp - 48
  stackSaved : cpu.registers .rsp ≤ savedAt ∨
    savedAt + Context.size ≤ cpu.registers .rsp - 48

variable {cpu : Cpu} {frameAt savedAt : ℕ} {isRing3 : Bool} {frame saved : Context} {fuel : ℕ}

/-- The registers are popped and the routine returns. -/
theorem run_done (cpu : Cpu) :
    ∃ after, run contextSwitchProgram 7 53 cpu = some after ∧ after.memory = cpu.memory := by
  have block : run contextSwitchProgram 7 53 cpu =
      run contextSwitchProgram 1 59 (executeAll cpu contextDone) :=
    run_block 53 contextDone [.ret] rfl (by decide)
  have last : contextSwitchProgram[59]? = some .ret := rfl
  rcases run_ret 59 last with ⟨after, returns, memory⟩
  exact ⟨after, block.trans returns, memory.trans (executeAll_pop_memory contextSaves.reverse)⟩

/-- The way through the routine where all quadwords are copied. -/
theorem run_copy (different : (executeAll cpu contextEntry).equal = false) :
    ∃ fuel after, run contextSwitchProgram fuel 0 cpu = some after ∧
      after.memory = (executeAll (executeAll cpu contextEntry) contextCopy).memory := by
  have entry : run contextSwitchProgram 19 0 cpu =
      run contextSwitchProgram 12 7 (executeAll cpu contextEntry) :=
    run_block 0 contextEntry (contextSwitchProgram.drop 7) rfl (by decide)
  have falls : run contextSwitchProgram 12 7 (executeAll cpu contextEntry) =
      run contextSwitchProgram 11 8 (executeAll cpu contextEntry) := by
    rw [run_je 7 12 rfl, different]
    rfl
  have copy : run contextSwitchProgram 11 8 (executeAll cpu contextEntry) =
      run contextSwitchProgram 8 11 (executeAll (executeAll cpu contextEntry) contextCopy) :=
    run_block 8 contextCopy (contextSwitchProgram.drop 11) rfl (by decide)
  have jumps : run contextSwitchProgram 8 11 (executeAll (executeAll cpu contextEntry)
      contextCopy) = run contextSwitchProgram 7 53 (executeAll (executeAll cpu contextEntry)
        contextCopy) :=
    run_jmp 11 53 rfl
  rcases run_done (executeAll (executeAll cpu contextEntry) contextCopy) with
    ⟨after, returns, memory⟩
  refine ⟨19, after, ?_, memory⟩
  rw [entry, falls, copy, jumps, returns]

/-- The way through the routine for a user thread. -/
theorem run_ring3 (same : (executeAll cpu contextEntry).equal = true) :
    ∃ fuel after, run contextSwitchProgram fuel 0 cpu = some after ∧
      after.memory = (executeAll (executeAll cpu contextEntry) contextRing3).memory := by
  have entry : run contextSwitchProgram 56 0 cpu =
      run contextSwitchProgram 49 7 (executeAll cpu contextEntry) :=
    run_block 0 contextEntry (contextSwitchProgram.drop 7) rfl (by decide)
  have jumps : run contextSwitchProgram 49 7 (executeAll cpu contextEntry) =
      run contextSwitchProgram 48 12 (executeAll cpu contextEntry) := by
    rw [run_je 7 12 rfl, same]
    rfl
  have ring3 : run contextSwitchProgram 48 12 (executeAll cpu contextEntry) =
      run contextSwitchProgram 7 53 (executeAll (executeAll cpu contextEntry) contextRing3) :=
    run_block 12 contextRing3 (contextSwitchProgram.drop 53) rfl (by decide)
  rcases run_done (executeAll (executeAll cpu contextEntry) contextRing3) with
    ⟨after, returns, memory⟩
  refine ⟨56, after, ?_, memory⟩
  rw [entry, jumps, ring3, returns]

theorem Context.StoredAt.congr {context : Context} {memory other : ByteMemory} {place : ℕ}
    (stored : context.StoredAt memory place)
    (same : ∀ byte, place ≤ byte → byte < place + Context.size → other byte = memory byte) :
    context.StoredAt other place := by
  intro index inside
  rw [← stored index inside]
  apply readQuad_congr
  intro byte above below
  apply same byte (by omega)
  simp only [Context.size]
  omega

/-- A quadword of the context that is stored at a place. -/
theorem Context.StoredAt.readQuad {context : Context} {memory : ByteMemory} {place : ℕ}
    (stored : context.StoredAt memory place) (offset : ℕ) (aligned : 8 ∣ offset)
    (inside : offset + 8 ≤ Context.size) :
    memory.readQuad (place + offset) = context.words.getD (offset / 8) 0 := by
  simp only [Context.size] at inside
  have word := stored (offset / 8) (by omega)
  rwa [Nat.mul_div_cancel' aligned] at word

/-- What the first lines leave. -/
theorem SwitchCall.entered (call : SwitchCall cpu frameAt savedAt isRing3)
    (frameStored : frame.StoredAt cpu.memory frameAt)
    (savedStored : saved.StoredAt cpu.memory savedAt) :
    (executeAll cpu contextEntry).registers .rdi = frameAt ∧
      (executeAll cpu contextEntry).registers .rsi = savedAt ∧
      (executeAll cpu contextEntry).equal = isRing3 ∧
      frame.StoredAt (executeAll cpu contextEntry).memory frameAt ∧
      saved.StoredAt (executeAll cpu contextEntry).memory savedAt ∧
      ∀ place, place < cpu.registers .rsp - 48 ∨ cpu.registers .rsp ≤ place →
        (executeAll cpu contextEntry).memory place = cpu.memory place := by
  rcases @executeAll_push cpu contextSaves call.stack.1 call.stack.2 with ⟨registers, pushed⟩
  have stackFrame := call.stackFrame
  have stackSaved := call.stackSaved
  have places : ∀ place, place < cpu.registers .rsp - 48 ∨ cpu.registers .rsp ≤ place →
      (executeAll cpu contextEntry).memory place = cpu.memory place := pushed
  rw [contextEntry, executeAll_append] at places ⊢
  refine ⟨?_, ?_, ?_, ?_, ?_, places⟩
  · exact (registers .rdi (by decide)).trans call.rdi
  · exact (registers .rsi (by decide)).trans call.rsi
  · have compared := (registers .rdx (by decide)).trans call.rdx
    have flag : (executeAll (executeAll cpu (contextSaves.map .push)) [.cmp .rdx 1]).equal =
        decide ((executeAll cpu (contextSaves.map .push)).registers .rdx = 1) := rfl
    rw [flag, compared]
    cases isRing3 <;> rfl
  · apply frameStored.congr
    intro byte above below
    exact places byte (by omega)
  · apply savedStored.congr
    intro byte above below
    exact places byte (by omega)

theorem mem_quadOffsets : ∀ index < 22, 8 * index ∈ quadOffsets 22 := by
  decide

theorem quadOffsets_inside : ∀ offset ∈ quadOffsets 22, offset + 8 ≤ Context.size ∧ 8 ∣ offset := by
  decide

theorem ring3Offsets_inside : ∀ offset ∈ ring3Offsets, offset + 8 ≤ Context.size ∧ 8 ∣ offset := by
  decide

/-- The lines that copy all quadwords leave the saved context in the frame. -/
theorem storedAt_copy (rdi : cpu.registers .rdi = frameAt) (rsi : cpu.registers .rsi = savedAt)
    (frameRoom : frameAt + Context.size ≤ 2 ^ 64) (savedRoom : savedAt + Context.size ≤ 2 ^ 64)
    (apart : savedAt + Context.size ≤ frameAt ∨ frameAt + Context.size ≤ savedAt)
    (savedStored : saved.StoredAt cpu.memory savedAt) :
    saved.StoredAt (executeAll cpu contextCopy).memory frameAt ∧
      ∀ place, place < frameAt ∨ frameAt + Context.size ≤ place →
        (executeAll cpu contextCopy).memory place = cpu.memory place := by
  have memory : (executeAll cpu contextCopy).memory =
      cpu.memory.copyQuads frameAt savedAt (quadOffsets 22) := by
    have copied := @Cpu.repMovsq_memory 22 { cpu.set .rcx 22 with backward := false } rfl
      (by rw [← rdi] at frameRoom; exact frameRoom) (by rw [← rsi] at savedRoom; exact savedRoom)
    rw [← rdi, ← rsi]
    exact copied
  rw [memory]
  constructor
  · intro index inside
    rw [readQuad_copyQuads (fun offset mem => (quadOffsets_inside offset mem).1)
      (fun offset mem => (quadOffsets_inside offset mem).2) apart (Nat.dvd_mul_right 8 index)
      (by simp only [Context.size]; omega), if_pos (mem_quadOffsets index inside)]
    exact savedStored index inside
  · intro place outside
    exact copyQuads_of_outside (fun offset mem => (quadOffsets_inside offset mem).1) outside

/-- What the lines behind `.context_ring_3` write. -/
theorem memory_ring3 (rdi : cpu.registers .rdi = frameAt) (rsi : cpu.registers .rsi = savedAt)
    (frameRoom : frameAt + Context.size ≤ 2 ^ 64) (savedRoom : savedAt + Context.size ≤ 2 ^ 64)
    (apart : savedAt + Context.size ≤ frameAt ∨ frameAt + Context.size ≤ savedAt) :
    (executeAll cpu contextRing3).memory =
      ((((cpu.memory.copyQuads frameAt savedAt ring3Offsets).writeQuad (frameAt + 144)
        userCode64).writeQuad (frameAt + 152)
          (cpu.memory.readQuad (savedAt + 152) ||| 0x200)).writeQuad
          (frameAt + 160) (cpu.memory.readQuad (savedAt + 160))).writeQuad (frameAt + 168)
            userData64 := by
  simp only [Context.size] at frameRoom savedRoom apart
  rcases @executeAll_copyWord cpu ring3Offsets Context.size
    (fun offset mem => (ring3Offsets_inside offset mem).1) (by rw [rdi]; exact frameRoom)
    (by rw [rsi]; exact savedRoom) with ⟨registers, memory⟩
  have rdiKept := (registers .rdi (by decide)).trans rdi
  have rsiKept := (registers .rsi (by decide)).trans rsi
  rw [rdi, rsi] at memory
  rw [contextRing3, executeAll_append]
  generalize executeAll cpu (ring3Offsets.flatMap copyWord) = copied at rdiKept rsiKept memory ⊢
  have framePlace : ∀ offset, offset < 176 →
      (frameAt + offset) % 2 ^ 64 = frameAt + offset := by
    intro offset inside
    exact Nat.mod_eq_of_lt (by omega)
  have savedPlace : ∀ offset, offset < 176 →
      (savedAt + offset) % 2 ^ 64 = savedAt + offset := by
    intro offset inside
    exact Nat.mod_eq_of_lt (by omega)
  have keepsSource : ∀ offset, offset + 8 ≤ 176 →
      copied.memory.readQuad (savedAt + offset) = cpu.memory.readQuad (savedAt + offset) := by
    intro offset inside
    rw [memory]
    apply readQuad_congr
    intro place above below
    apply copyQuads_of_outside (fun offset mem => (ring3Offsets_inside offset mem).1)
    simp only [Context.size]
    omega
  have keepsRflags : (copied.memory.writeQuad (frameAt + 144) userCode64).readQuad
      (savedAt + 152) = cpu.memory.readQuad (savedAt + 152) := by
    rw [readQuad_writeQuad_of_disjoint (by omega), keepsSource 152 (by omega)]
  have keepsRsp : ((copied.memory.writeQuad (frameAt + 144) userCode64).writeQuad (frameAt + 152)
      (cpu.memory.readQuad (savedAt + 152) ||| 0x200)).readQuad (savedAt + 160) =
        cpu.memory.readQuad (savedAt + 160) := by
    rw [readQuad_writeQuad_of_disjoint (by omega), readQuad_writeQuad_of_disjoint (by omega),
      keepsSource 160 (by omega)]
  rw [← memory]
  simp [-Nat.reducePow, executeAll, ring3Tail, Cpu.execute, Cpu.set, Cpu.addressOf, rdiKept,
    rsiKept, framePlace, savedPlace, keepsRflags, keepsRsp]

/-- The quadwords before `cs`: `int_no` and `err_code` stay those of the frame. -/
theorem words_ring3 (frame saved : Context) : ∀ index < 18,
    (if 8 * index ∈ ring3Offsets then saved.words.getD index 0 else frame.words.getD index 0) =
      (contextSwitch frame saved true).words.getD index 0 := by
  intro index inside
  interval_cases index <;> rfl

/-- The lines behind `.context_ring_3` leave the frame of a user thread. -/
theorem storedAt_ring3 (rdi : cpu.registers .rdi = frameAt) (rsi : cpu.registers .rsi = savedAt)
    (frameRoom : frameAt + Context.size ≤ 2 ^ 64) (savedRoom : savedAt + Context.size ≤ 2 ^ 64)
    (apart : savedAt + Context.size ≤ frameAt ∨ frameAt + Context.size ≤ savedAt)
    (frameStored : frame.StoredAt cpu.memory frameAt)
    (savedStored : saved.StoredAt cpu.memory savedAt) :
    (contextSwitch frame saved true).StoredAt (executeAll cpu contextRing3).memory frameAt ∧
      ∀ place, place < frameAt ∨ frameAt + Context.size ≤ place →
        (executeAll cpu contextRing3).memory place = cpu.memory place := by
  rw [memory_ring3 rdi rsi frameRoom savedRoom apart]
  have rflags := savedStored.readQuad 152 (by decide) (by decide)
  have rsp := savedStored.readQuad 160 (by decide) (by decide)
  rw [rflags, rsp]
  have rflagsFits : saved.words.getD (152 / 8) 0 ||| 0x200 < 2 ^ 64 := by
    rw [← rflags]
    exact Nat.or_lt_two_pow readQuad_lt (by decide)
  have rspFits : saved.words.getD (160 / 8) 0 < 2 ^ 64 := by
    rw [← rsp]
    exact readQuad_lt
  constructor
  · intro index inside
    have copied := @readQuad_copyQuads cpu.memory frameAt savedAt Context.size ring3Offsets
      (fun offset mem => (ring3Offsets_inside offset mem).1)
      (fun offset mem => (ring3Offsets_inside offset mem).2) apart (8 * index)
      (Nat.dvd_mul_right 8 index) (by simp only [Context.size]; omega)
    rw [frameStored index inside, savedStored index inside] at copied
    by_cases ss : index = 21
    · subst ss
      exact readQuad_writeQuad (by decide)
    rw [readQuad_writeQuad_of_disjoint (by omega)]
    by_cases isRsp : index = 20
    · subst isRsp
      exact readQuad_writeQuad rspFits
    rw [readQuad_writeQuad_of_disjoint (by omega)]
    by_cases isRflags : index = 19
    · subst isRflags
      exact readQuad_writeQuad rflagsFits
    rw [readQuad_writeQuad_of_disjoint (by omega)]
    by_cases cs : index = 18
    · subst cs
      exact readQuad_writeQuad (by decide)
    rw [readQuad_writeQuad_of_disjoint (by omega), copied]
    exact words_ring3 frame saved index (by omega)
  · intro place outside
    simp only [Context.size] at outside
    have copied : cpu.memory.copyQuads frameAt savedAt ring3Offsets place = cpu.memory place :=
      copyQuads_of_outside (fun offset mem => (ring3Offsets_inside offset mem).1) outside
    rw [writeQuad, write_of_outside (by omega), writeQuad, write_of_outside (by omega),
      writeQuad, write_of_outside (by omega), writeQuad, write_of_outside (by omega), copied]

/-- The routine leaves in the frame what `contextSwitch` says. -/
theorem contextSwitch_run (call : SwitchCall cpu frameAt savedAt isRing3)
    (frameStored : frame.StoredAt cpu.memory frameAt)
    (savedStored : saved.StoredAt cpu.memory savedAt) :
    ∃ fuel after, run contextSwitchProgram fuel 0 cpu = some after ∧
      (contextSwitch frame saved isRing3).StoredAt after.memory frameAt ∧
      ∀ place, place < frameAt ∨ frameAt + Context.size ≤ place →
        place < cpu.registers .rsp - 48 ∨ cpu.registers .rsp ≤ place →
        after.memory place = cpu.memory place := by
  rcases call.entered frameStored savedStored with
    ⟨rdi, rsi, equal, frameStored, savedStored, stack⟩
  cases isRing3 with
  | false =>
      rcases run_copy equal with ⟨fuel, after, returns, memory⟩
      rcases storedAt_copy rdi rsi call.frameRoom call.savedRoom call.apart savedStored with
        ⟨stored, outside⟩
      rw [← memory] at stored outside
      exact ⟨fuel, after, returns, stored, fun place outsideFrame outsideStack =>
        (outside place outsideFrame).trans (stack place outsideStack)⟩
  | true =>
      rcases run_ring3 equal with ⟨fuel, after, returns, memory⟩
      rcases storedAt_ring3 rdi rsi call.frameRoom call.savedRoom call.apart frameStored
        savedStored with ⟨stored, outside⟩
      rw [← memory] at stored outside
      exact ⟨fuel, after, returns, stored, fun place outsideFrame outsideStack =>
        (outside place outsideFrame).trans (stack place outsideStack)⟩

end Goshkik

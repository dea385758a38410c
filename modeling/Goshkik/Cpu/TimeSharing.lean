import Goshkik.Cpu.InterruptStubs
import Goshkik.Scheduling.Isolation

/-!
# Threads on the processor

The processor executes the instructions of the running thread until the timer interrupts it.  The
stub saves the registers on the stack, the scheduler puts the registers of another thread in their
place, and the stub goes back through them.  `interrupted` records for every thread the processor
as it was when the thread was last interrupted, and the invariant says that the scheduler's
record of the thread's registers stands for that processor.

What C code does to the registers and to the rest of the memory is left open.
-/

namespace Goshkik

open X86 Processor Transition

structure TimeShared where
  core : Core
  isolation : Isolation
  /-- Where the frame lies while the handler of the timer is running. -/
  handling : Option ℕ
  interrupted : ℕ → Option Core

inductive TimeSharedOperation where
  | instructions
  | work (operation : IsolationOperation)
  | interrupt (software : Bool)
  | schedule (operation : IsolationOperation)
  | iretq

namespace TimeShared

/-- A thread that is created has not been interrupted. -/
def interruptedAfter (state : TimeShared) : IsolationOperation → ℕ → Option Core
  | .scheduling (.threadCreate request memory _), t =>
      if state.isolation.machine.kernel.Builds request memory ∧ t = memory.thread then none
      else state.interrupted t
  | _, t => state.interrupted t

/-- An interrupt records the processor for the thread that is running. -/
def recordCore (state : TimeShared) (t : ℕ) : Option Core :=
  if state.isolation.running = some t then some state.core else state.interrupted t

/-- Before the first interrupt. -/
def start (core : Core) (machine : Machine) : TimeShared where
  core := core
  isolation := Isolation.start machine
  handling := none
  interrupted := fun _ => none

end TimeShared

def IsolationOperation.IsTick : IsolationOperation → Prop
  | .scheduling (.tick _) => True
  | _ => False

section

variable (processor : Processor) (layout : StubLayout)

inductive TimeSharedStep : TimeShared → TimeSharedOperation → TimeShared → Prop where
  | instructions {state : TimeShared} {core : Core} (outside : state.handling = none) :
      TimeSharedStep state .instructions { state with core := core }
  | work {state : TimeShared} {core : Core} {isolation : Isolation}
      {operation : IsolationOperation} (outside : state.handling = none)
      (notTick : ¬operation.OfTick)
      (works : IsolationStep state.isolation operation isolation) :
      TimeSharedStep state (.work operation)
        ⟨core, isolation, none, state.interruptedAfter operation⟩
  | interrupt {state : TimeShared} {entry called : Core} {isolation : Isolation}
      {context : Context} {software : Bool} (outside : state.handling = none)
      (bounded : state.core.Bounded) (room : 192 ≤ processor.interruptStack state.core)
      (allowed : software → state.core.level = 0)
      (delivers : processor.deliver 32 none software state.core = some entry)
      (enters : processor.Steps entry called) (isHandler : called.rip = layout.irqHandler)
      (frame : context.StoredAt called.memory (called.registers .rdi))
      (ticks : IsolationStep state.isolation (.scheduling (.tick context)) isolation) :
      TimeSharedStep state (.interrupt software)
        ⟨called, isolation, some (called.registers .rdi), state.recordCore⟩
  | schedule {state : TimeShared} {core : Core} {isolation : Isolation}
      {operation : IsolationOperation} {frameAt : ℕ} (inside : state.handling = some frameAt)
      (ofTick : operation.OfTick) (notFirst : ¬operation.IsTick)
      (schedules : IsolationStep state.isolation operation isolation)
      (sameLevel : core.level = state.core.level) :
      TimeSharedStep state (.schedule operation)
        ⟨core, isolation, some frameAt, state.interrupted⟩
  | iretq {state : TimeShared} {core : Core} {frameAt : ℕ} (inside : state.handling = some frameAt)
      (idle : state.isolation.machine.phase = .idle)
      (isBack : state.core.rip = layout.irqBack) (stack : state.core.registers .rsp = frameAt)
      (frame : state.isolation.machine.frame.StoredAt state.core.memory frameAt)
      (leaves : processor.Leaves state.core core) :
      TimeSharedStep state .iretq { state with core := core, handling := none }

end

namespace TimeShared

variable {processor : Processor} {layout : StubLayout} {before after state : TimeShared}
  {operation : TimeSharedOperation}

/-- A frame that the scheduler has filled for the running thread. -/
def FrameFilled (isolation : Isolation) : Prop :=
  ∃ t frame, isolation.running = some t ∧
    isolation.machine.frame = contextSwitch frame (isolation.saved t)
      ((isolation.machine.kernel.threads t).privilege = .ring3)

structure Sound (state : TimeShared) : Prop where
  isolated : state.isolation.Isolated
  recorded : ∀ t core, state.interrupted t = some core →
    state.isolation.saved t = interruptedContext core 32 0
  ring0 : state.handling ≠ none → state.core.level = 0
  placed : ∀ frameAt ∈ state.handling, frameAt + Context.size < 2 ^ 64
  filled : state.handling ≠ none → state.isolation.machine.phase = .dispatched ∨
    state.isolation.machine.phase = .idle → FrameFilled state.isolation

/-- Two contexts at one place are the same. -/
theorem storedAt_unique {memory : ByteMemory} {place : ℕ} {context other : Context}
    (stored : context.StoredAt memory place) (otherStored : other.StoredAt memory place) :
    context = other := by
  have words : context.words = other.words := by
    have sameLength : context.words.length = other.words.length := rfl
    apply List.ext_getElem sameLength
    intro index inside otherInside
    have left := stored.quads.getElem inside
    have right := otherStored.quads.getElem otherInside
    exact left.symm.trans right
  cases context
  cases other
  simpa only [Context.words, List.cons.injEq, and_true, Context.mk.injEq, and_assoc] using words

/-- The handler of the timer finds the registers of the thread that was interrupted. -/
theorem handler_context (loaded : KernelLoaded processor layout)
    (inC : processor.fetch layout.irqHandler = none) {core entry called : Core} {context : Context}
    {software : Bool} (bounded : core.Bounded) (room : 192 ≤ processor.interruptStack core)
    (allowed : software → core.level = 0)
    (delivers : processor.deliver 32 none software core = some entry)
    (enters : processor.Steps entry called) (isHandler : called.rip = layout.irqHandler)
    (frame : context.StoredAt called.memory (called.registers .rdi)) :
    context = interruptedContext core 32 0 ∧ called.level = 0 ∧
      called.registers .rdi + Context.size < 2 ^ 64 := by
  have hasStub : HasStub 32 := .inr (by decide)
  rcases @interrupt_enters_handler _ _ _ 32 none loaded bounded hasStub _ allowed rfl
    (fun code mem => absurd mem (Option.not_mem_none code)) room with
    ⟨other, reached, delivered, reaches, ring0, _, _, stored, isCalled⟩
  obtain rfl := Option.some.inj (delivers.symm.trans delivered)
  have stops : ∀ core : Core, core.rip = layout.irqHandler → processor.step core = none := by
    intro core isAt
    rw [step, isAt, inC]
    rfl
  obtain rfl := enters.unique reaches (stops called isHandler) (stops reached isCalled.rip)
  have notAlignment : (32 : ℕ) ≠ 17 := by decide
  rw [deliveredContext_of_ne notAlignment] at stored
  have frameAt := isCalled.rdi
  simp only [behindFrame_of_ne notAlignment, List.length_nil, Context.size] at frameAt
  have stackFits := interruptStack_lt (bounded.registers .rsp) loaded.rsp0Fits
  refine ⟨storedAt_unique frame stored, ring0, ?_⟩
  simp only [Context.size]
  omega

theorem step_saved {first last : Isolation} {operation : IsolationOperation}
    (step : IsolationStep first operation last) : last.saved = first.savedAfter operation := by
  cases step <;> rfl

/-- Work between two ticks that gives a thread its first registers forgets where the thread was
interrupted. -/
theorem saved_work {isolation : Isolation} {work : IsolationOperation} {t : ℕ} {core : Core}
    (recorded : ∀ t core, state.interrupted t = some core →
      state.isolation.saved t = interruptedContext core 32 0)
    (notTick : ¬work.OfTick) (works : IsolationStep state.isolation work isolation)
    (known : state.interruptedAfter work t = some core) :
    isolation.saved t = interruptedContext core 32 0 := by
  rw [step_saved works]
  rcases work with operation | _
  · cases operation with
    | threadCreate request memory answer =>
        simp only [interruptedAfter] at known
        simp only [Isolation.savedAfter]
        split
        · rw [if_pos ‹_›] at known
          cases known
        · rw [if_neg ‹_›] at known
          exact recorded t core known
    | tick context => exact absurd trivial notTick
    | _ => exact recorded t core known
  · exact recorded t core known

/-- The scheduler fills the frame when it dispatches a thread, and then leaves it alone. -/
theorem filled_schedule {first last : Isolation} {operation : IsolationOperation}
    (isolated : first.Isolated) (ofTick : operation.OfTick) (notFirst : ¬operation.IsTick)
    (schedules : IsolationStep first operation last)
    (filled : first.machine.phase = .dispatched ∨ first.machine.phase = .idle →
      FrameFilled first)
    (ends : last.machine.phase = .dispatched ∨ last.machine.phase = .idle) : FrameFilled last := by
  rcases isolated.kernelThread with ⟨k, holds⟩
  cases schedules with
  | threadExit => exact absurd ofTick not_false
  | scheduling steps =>
      rcases first with ⟨machine, running, saved⟩
      cases steps with
      | tick => exact absurd trivial notFirst
      | tickSelect =>
          rcases Kernel.Spares.tickSelect holds with ⟨_, goesOn, undispatched⟩
          rcases ends with dispatched | idle
          · exact absurd dispatched undispatched
          · exact absurd idle goesOn
      | @tickConsider kernel after frame next fuel phase runs =>
          rcases Kernel.Spares.tickConsider holds runs with ⟨spares, rfl | ⟨rfl, _⟩⟩
          · rcases ends with dispatched | idle
            · cases dispatched
            · cases idle
          · have context := (spares.context next).trans (isolated.contexts next)
            refine ⟨next, frame, rfl, ?_⟩
            simp only [Isolation.record, Kernel.dispatchedFrame, context, Isolation.savedAfter]
      | tickCleanUp runs =>
          rcases filled (.inl rfl) with ⟨t, frame, isRunning, isFrame⟩
          have spares := (Kernel.Spares.cleanUp holds runs).1
          refine ⟨t, frame, isRunning, ?_⟩
          simp only [Isolation.record, Isolation.savedAfter, spares.privilege]
          exact isFrame
      | _ => exact absurd ofTick not_false

theorem Sound.step (loaded : KernelLoaded processor layout)
    (inC : processor.fetch layout.irqHandler = none) (sound : before.Sound)
    (step : TimeSharedStep processor layout before operation after) : after.Sound := by
  cases step with
  | instructions outside =>
      exact ⟨sound.isolated, sound.recorded, fun inside => absurd outside inside, sound.placed,
        fun inside => absurd outside inside⟩
  | work outside notTick works =>
      exact ⟨sound.isolated.step works, fun t core => saved_work sound.recorded notTick works,
        fun inside => absurd rfl inside, fun frameAt mem => absurd mem (Option.not_mem_none _),
        fun inside => absurd rfl inside⟩
  | interrupt outside bounded room allowed delivers enters isHandler frame ticks =>
      rcases handler_context loaded inC bounded room allowed delivers enters isHandler frame with
        ⟨rfl, ring0, placed⟩
      refine ⟨sound.isolated.step ticks, ?_, fun _ => ring0, ?_, ?_⟩
      · intro t core known
        rw [step_saved ticks]
        simp only [recordCore] at known
        simp only [Isolation.savedAfter]
        split
        · rw [if_pos ‹_›] at known
          obtain rfl := Option.some.inj known
          rfl
        · rw [if_neg ‹_›] at known
          exact sound.recorded t core known
      · intro frameAt mem
        obtain rfl := Option.mem_some.mp mem
        exact placed
      · intro _ ends
        cases ticks with
        | scheduling steps =>
            rcases before with ⟨core, ⟨machine, running, saved⟩, handling, interrupted⟩
            cases steps
            rcases ends with dispatched | idle
            · cases dispatched
            · cases idle
  | @schedule core isolation operation frameAt inside ofTick notFirst schedules sameLevel =>
      have handled : before.handling ≠ none := inside ▸ Option.some_ne_none frameAt
      refine ⟨sound.isolated.step schedules, ?_, ?_, ?_, ?_⟩
      · intro t core known
        rw [step_saved schedules]
        rcases operation with scheduling | _
        · cases scheduling <;> first
            | exact sound.recorded t core known
            | exact absurd trivial notFirst
            | exact absurd ofTick not_false
        · exact sound.recorded t core known
      · intro _
        rw [sameLevel]
        exact sound.ring0 handled
      · intro other mem
        exact sound.placed other (inside ▸ mem)
      · intro _ ends
        exact filled_schedule sound.isolated ofTick notFirst schedules (sound.filled handled) ends
  | iretq =>
      exact ⟨sound.isolated, sound.recorded, fun inside => absurd rfl inside,
        fun frameAt mem => absurd mem (Option.not_mem_none _), fun inside => absurd rfl inside⟩

theorem sound_start {machine : Machine} (booted : machine.Booted) (core : Core) :
    (start core machine).Sound where
  isolated := Isolation.isolated_start booted
  recorded := fun _ _ known => absurd known.symm (Option.some_ne_none _)
  ring0 := fun inside => absurd rfl inside
  placed := fun frameAt mem => absurd mem (Option.not_mem_none frameAt)
  filled := fun inside => absurd rfl inside

theorem sound_run (loaded : KernelLoaded processor layout)
    (inC : processor.fetch layout.irqHandler = none) {machine : Machine}
    (booted : machine.Booted) {core : Core} {operations : List TimeSharedOperation}
    (run : Run (TimeSharedStep processor layout) (start core machine) operations state) :
    state.Sound :=
  run.invariant (fun _ _ _ sound step => sound.step loaded inC step) (sound_start booted core)

/-- The handler of the timer is about to return through the frame that the scheduler has left. -/
structure Returning (layout : StubLayout) (state : TimeShared) (frameAt : ℕ) : Prop where
  inside : state.handling = some frameAt
  idle : state.isolation.machine.phase = .idle
  isBack : state.core.rip = layout.irqBack
  stack : state.core.registers .rsp = frameAt
  frame : state.isolation.machine.frame.StoredAt state.core.memory frameAt

/-- The stub comes to its `iretq`, and what that does depends on the frame. -/
theorem Returning.resumes {frameAt : ℕ} (loaded : KernelLoaded processor layout)
    (sound : state.Sound) (returning : state.Returning layout frameAt) :
    ∃ last, processor.StepsInside state.core last ∧ processor.operation? last = some .iretq ∧
      processor.step last =
        if processor.codeAt state.isolation.machine.frame.cs ∧
          processor.stackAt (state.isolation.machine.frame.cs % 4)
            state.isolation.machine.frame.ss then
          some (state.isolation.machine.frame.core state.core.memory)
        else none := by
  have stub : CommonStub processor layout.irqCommonStub layout.irqHandler state.core.rip := by
    rw [returning.isBack]
    exact loaded.irqCommon
  have handled : state.handling ≠ none := returning.inside ▸ Option.some_ne_none frameAt
  have stack := returning.stack
  apply frame_is_resumed (sound.ring0 handled) stub
  · rw [stack]
    exact sound.placed frameAt (Option.mem_def.mpr returning.inside)
  · rw [stack]
    exact returning.frame

theorem codeAt_userCode64 (loaded : KernelLoaded processor layout) :
    processor.codeAt userCode64 = false := by
  rcases loaded.segments with ⟨tssBase, gdt, segments⟩
  rw [codeAt, segments, (segments_gdtSetup tssBase gdt).2.2.1]
  rfl

/-! ## Ticks that dispatch a thread -/

/-- A tick that dispatches the first thread that it considers. -/
structure Dispatches (kernel : Kernel) (context : Context) (t : ℕ) (chosen cleaned : Kernel) :
    Prop where
  saves : ∃ saved, kernel.tickPrologue 3 context = some saved ∧
    saved.tickSelect.1 = .considering t ∧
    saved.tickSelect.2.tickConsider 3 t = some (.dispatched, chosen)
  cleans : chosen.cleanUp 3 = some cleaned

/-- From the interrupt to the return, where the last core is one that the handler may return
with. -/
theorem run_dispatches {core last : Core} {isolation : Isolation} {kernel chosen cleaned : Kernel}
    {frame : Context} {running : Option ℕ} {saved : ℕ → Context} {t : ℕ}
    {interrupted : ℕ → Option Core}
    (isIdle : isolation = ⟨⟨kernel, .idle, frame⟩, running, saved⟩)
    (loaded : KernelLoaded processor layout) (bounded : core.Bounded)
    (room : 192 ≤ processor.interruptStack core)
    (dispatches : Dispatches kernel (interruptedContext core 32 0) t chosen cleaned)
    (isBack : last.rip = layout.irqBack) (level : last.level = 0)
    (stack : last.registers .rsp = processor.interruptStack core - Context.size)
    (stored : (chosen.dispatchedFrame (interruptedContext core 32 0) .dispatched t).StoredAt
      last.memory (last.registers .rsp)) :
    ∃ operations state, Run (TimeSharedStep processor layout)
        ⟨core, isolation, none, interrupted⟩ operations state ∧
      state.Returning layout (last.registers .rsp) ∧ state.core = last ∧
      state.isolation.running = some t ∧
      state.isolation.machine = ⟨cleaned, .idle,
        chosen.dispatchedFrame (interruptedContext core 32 0) .dispatched t⟩ := by
  subst isIdle
  rcases dispatches.saves with ⟨started, saves, selects, considers⟩
  have hasStub : HasStub 32 := .inr (by decide)
  rcases @interrupt_enters_handler _ _ _ 32 none loaded bounded hasStub false
    (fun software => absurd software Bool.false_ne_true) rfl
    (fun code mem => absurd mem (Option.not_mem_none code)) room with
    ⟨entry, called, delivers, enters, ring0, _, _, frameStored, isCalled⟩
  have notAlignment : (32 : ℕ) ≠ 17 := by decide
  rw [deliveredContext_of_ne notAlignment] at frameStored
  have frameAt := isCalled.rdi
  simp only [behindFrame_of_ne notAlignment, List.length_nil] at frameAt
  have isAt : last.registers .rsp = called.registers .rdi := by
    rw [stack, frameAt]
    omega
  have sameLevel : last.level = called.level := level.trans ring0.symm
  have selected : SchedulingStep ⟨started, .selecting, interruptedContext core 32 0⟩ .tickSelect
      ⟨started.tickSelect.2, .considering t, interruptedContext core 32 0⟩ :=
    selects ▸ .tickSelect
  let before : TimeShared := ⟨core, ⟨⟨kernel, .idle, frame⟩, running, saved⟩, none, interrupted⟩
  let ticked := before.isolation.record (.scheduling (.tick (interruptedContext core 32 0)))
    ⟨started, .selecting, interruptedContext core 32 0⟩
  let considering := ticked.record (.scheduling .tickSelect)
    ⟨started.tickSelect.2, .considering t, interruptedContext core 32 0⟩
  let dispatched := considering.record (.scheduling .tickConsider) ⟨chosen, .dispatched,
    chosen.dispatchedFrame (interruptedContext core 32 0) .dispatched t⟩
  let idle := dispatched.record (.scheduling .tickCleanUp) ⟨cleaned, .idle,
    chosen.dispatchedFrame (interruptedContext core 32 0) .dispatched t⟩
  have interrupts : TimeSharedStep processor layout before (.interrupt false)
      ⟨called, ticked, some (called.registers .rdi), before.recordCore⟩ :=
    .interrupt rfl bounded room (fun software => absurd software Bool.false_ne_true) delivers enters
      isCalled.rip frameStored (.scheduling (.tick saves))
  have selecting : TimeSharedStep processor layout
      ⟨called, ticked, some (called.registers .rdi), before.recordCore⟩
      (.schedule (.scheduling .tickSelect))
      ⟨called, considering, some (called.registers .rdi), before.recordCore⟩ :=
    .schedule rfl trivial not_false (.scheduling selected) rfl
  have dispatching : TimeSharedStep processor layout
      ⟨called, considering, some (called.registers .rdi), before.recordCore⟩
      (.schedule (.scheduling .tickConsider))
      ⟨called, dispatched, some (called.registers .rdi), before.recordCore⟩ :=
    .schedule rfl trivial not_false (.scheduling (.tickConsider considers)) rfl
  have cleaning : TimeSharedStep processor layout
      ⟨called, dispatched, some (called.registers .rdi), before.recordCore⟩
      (.schedule (.scheduling .tickCleanUp))
      ⟨last, idle, some (called.registers .rdi), before.recordCore⟩ :=
    .schedule rfl trivial not_false (.scheduling (.tickCleanUp dispatches.cleans)) sameLevel
  have run : Run (TimeSharedStep processor layout) before _ _ :=
    .cons interrupts (.cons selecting (.cons dispatching (.cons cleaning (.nil _))))
  exact ⟨_, _, run, ⟨by rw [isAt], rfl, isBack, rfl, stored⟩, rfl, rfl, rfl⟩

/-! ## A kernel with a user thread -/

def userThreadRequest : ThreadRequest :=
  { kernelThreadRequest with
    privilege := .ring3
    priority := .immediate }

def userThreadMemory : ThreadMemory := ⟨0x1400, 0x20000, 0x40000⟩

/-- The kernel that has just started, with a user thread behind the idle thread. -/
def kernelWithUser : Kernel :=
  ((startedKernel.threadCreate userThreadRequest userThreadMemory).map Prod.snd).getD startedKernel

/-- What the timer interrupts at one place of the kernel. -/
def timerContext : Context := interruptedContext (kernelCore 0x123456) 32 0

/-- The tick that dispatches the first thread that it considers. -/
def tickChoice (kernel : Kernel) (t : ℕ) : Option (Kernel × Kernel) :=
  (kernel.tickPrologue 3 timerContext).bind (fun saved =>
    if saved.tickSelect.1 = .considering t then
      (saved.tickSelect.2.tickConsider 3 t).bind (fun considered =>
        if considered.1 = .dispatched then
          (considered.2.cleanUp 3).map (fun cleaned => (considered.2, cleaned))
        else none)
    else none)

theorem dispatches_tickChoice {kernel chosen cleaned : Kernel} {t : ℕ}
    (ticks : tickChoice kernel t = some (chosen, cleaned)) :
    Dispatches kernel timerContext t chosen cleaned := by
  rcases Option.bind_eq_some_iff.mp ticks with ⟨saved, saves, ticks⟩
  split at ticks
  · rename_i selects
    rcases Option.bind_eq_some_iff.mp ticks with ⟨⟨phase, considered⟩, considers, ticks⟩
    split at ticks
    · rename_i isDispatched
      obtain rfl : phase = .dispatched := isDispatched
      rcases Option.map_eq_some_iff.mp ticks with ⟨last, cleans, isLast⟩
      cases isLast
      exact ⟨⟨saved, saves, selects, considers⟩, cleans⟩
    · cases ticks
  · cases ticks

/-- The kernels of the tick that dispatches the idle thread and of the next one. -/
def idleChoice : Kernel × Kernel :=
  (tickChoice kernelWithUser 0x1100).getD (kernelWithUser, kernelWithUser)

def userChoice : Kernel × Kernel :=
  (tickChoice idleChoice.2 0x1400).getD (kernelWithUser, kernelWithUser)

theorem dispatches_idleChoice :
    Dispatches kernelWithUser timerContext 0x1100 idleChoice.1 idleChoice.2 := by
  have ticks : (tickChoice kernelWithUser 0x1100).isSome := by
    decide +kernel
  rcases Option.isSome_iff_exists.mp ticks with ⟨choice, ticks⟩
  apply dispatches_tickChoice
  simp only [idleChoice, ticks, Option.getD_some]

theorem dispatches_userChoice :
    Dispatches idleChoice.2 timerContext 0x1400 userChoice.1 userChoice.2 := by
  have ticks : (tickChoice idleChoice.2 0x1400).isSome := by
    decide +kernel
  rcases Option.isSome_iff_exists.mp ticks with ⟨choice, ticks⟩
  apply dispatches_tickChoice
  simp only [userChoice, ticks, Option.getD_some]

/-- A processor that returns from the handler with a frame. -/
def returningCore (frame : Context) : Core :=
  { (kernelCore 0).pushWords frame.words.reverse with rip := imageLayout.irqBack }

theorem returningCore_frame {frame : Context} (fits : ∀ word ∈ frame.words, word < 2 ^ 64) :
    (returningCore frame).registers .rsp = 0x8000 - Context.size ∧
      (returningCore frame).level = 0 ∧
      frame.StoredAt (returningCore frame).memory ((returningCore frame).registers .rsp) := by
  have length : frame.words.reverse.length = 22 := rfl
  have stack : (kernelCore 0).registers .rsp = 0x8000 := rfl
  have pushes := @Core.pushWords_pushed (kernelCore 0) frame.words.reverse []
    (by rw [length, stack]; omega) (by rw [stack]; omega)
    (fun word mem => fits word (List.mem_reverse.mp mem)) trivial
  rcases pushes with ⟨pushed, quads⟩
  have place := pushed.rsp
  rw [List.reverse_reverse, ← place] at quads
  rw [length, stack] at place
  refine ⟨place, ?_, Context.storedAt_of_quads quads⟩
  have sameCs := pushed.cs
  rw [Core.level, show (returningCore frame).cs = kernelCode64 from sameCs]
  decide

def idleFrame : Context := idleChoice.1.dispatchedFrame timerContext .dispatched 0x1100

def userFrame : Context := userChoice.1.dispatchedFrame timerContext .dispatched 0x1400

/-- The user thread is created and the first tick dispatches the idle thread. -/
theorem run_idleChoice : ∃ operations state,
    Run (TimeSharedStep (imageProcessor []) imageLayout)
        (start (kernelCore 0x123456) startedMachine) operations state ∧
      state.Returning imageLayout (0x8000 - Context.size) ∧ state.core = returningCore idleFrame ∧
      state.isolation.machine = ⟨idleChoice.2, .idle, idleFrame⟩ := by
  have creates : (startedKernel.threadCreate userThreadRequest userThreadMemory).isSome := by
    decide +kernel
  have fresh : userThreadMemory.thread ∉ startedKernel.threadBlocks := by decide +kernel
  have fits : ∀ word ∈ idleFrame.words, word < 2 ^ 64 := by decide +kernel
  rcases Option.isSome_iff_exists.mp creates with ⟨⟨answer, created⟩, creates⟩
  have isCreated : kernelWithUser = created := by
    simp only [kernelWithUser, creates, Option.map_some, Option.getD_some]
  have works : IsolationStep (Isolation.start startedMachine)
      (.scheduling (.threadCreate userThreadRequest userThreadMemory answer))
      ((Isolation.start startedMachine).record
        (.scheduling (.threadCreate userThreadRequest userThreadMemory answer))
        ⟨kernelWithUser, .idle, {}⟩) :=
    isCreated ▸ .scheduling (.threadCreate fresh creates)
  rcases returningCore_frame fits with ⟨stack, level, stored⟩
  have work : TimeSharedStep (imageProcessor []) imageLayout
      (start (kernelCore 0x123456) startedMachine)
      (.work (.scheduling (.threadCreate userThreadRequest userThreadMemory answer)))
      ⟨kernelCore 0x123456, _, none, _⟩ :=
    .work rfl not_false works
  have bounded : (kernelCore 0x123456).Bounded := bounded_kernelCore (by omega)
  rcases @run_dispatches _ _ _ (returningCore idleFrame) _ _ _ _ _ _ _ _ _ rfl
    (kernelLoaded_image []) bounded (by decide) dispatches_idleChoice rfl level stack stored with
    ⟨operations, state, run, returning, isLast, _, machine⟩
  rw [stack] at returning
  exact ⟨_, state, .cons work run, returning, isLast, machine⟩

/-- The idle thread gets the processor. -/
theorem run_idle : ∃ operations before after,
    Run (TimeSharedStep (imageProcessor []) imageLayout)
        (start (kernelCore 0x123456) startedMachine) operations before ∧
      TimeSharedStep (imageProcessor []) imageLayout before .iretq after ∧
      after.handling = none ∧ after.isolation.machine = ⟨idleChoice.2, .idle, idleFrame⟩ := by
  rcases run_idleChoice with ⟨operations, state, run, returning, isCore, machine⟩
  have sound := sound_run (kernelLoaded_image []) (by decide +kernel) startedMachine_booted run
  rcases returning.resumes (kernelLoaded_image []) sound with ⟨last, inside, isReturn, resumes⟩
  have returnable : (imageProcessor []).codeAt idleFrame.cs ∧
      (imageProcessor []).stackAt (idleFrame.cs % 4) idleFrame.ss := by
    decide +kernel
  have isFrame : state.isolation.machine.frame = idleFrame := by rw [machine]
  rw [isFrame, if_pos returnable] at resumes
  exact ⟨operations, state, _, run, .iretq returning.inside returning.idle returning.isBack
    returning.stack returning.frame ⟨last, inside, isReturn, resumes⟩, rfl, machine⟩

/-! ## What a thread gets back -/

/-- In every run, the interrupt of the timer returns to the thread that the scheduler has chosen,
with exactly the registers with which that thread was last interrupted, or its first ones. -/
theorem threads_resume (loaded : KernelLoaded processor layout)
    (inC : processor.fetch layout.irqHandler = none) {machine : Machine}
    (booted : machine.Booted) {core : Core} {operations : List TimeSharedOperation}
    {last next : TimeShared}
    (run : Run (TimeSharedStep processor layout) (start core machine) operations last)
    (step : TimeSharedStep processor layout last .iretq next) :
    ∃ t, next.isolation.running = some t ∧
      (next.isolation.machine.kernel.threads t).privilege = .ring0 ∧
      next.core = (next.isolation.saved t).core last.core.memory ∧
      ∀ core, last.interrupted t = some core →
        next.core = { core with memory := last.core.memory } := by
  have sound := sound_run loaded inC booted run
  cases step with
  | @iretq core frameAt inside idle isBack stack frame leaves =>
      rcases leaves with ⟨end', isInside, isReturn, goes⟩
      rcases Returning.resumes loaded sound ⟨inside, idle, isBack, stack, frame⟩ with
        ⟨other, otherInside, otherReturn, resumes⟩
      obtain rfl := isInside.unique otherInside isReturn otherReturn
      rw [resumes] at goes
      split at goes
      · rename_i returnable
        obtain rfl := Option.some.inj goes
        rcases sound.filled (inside ▸ Option.some_ne_none frameAt) (.inr idle) with
          ⟨t, earlier, isRunning, isFrame⟩
        rcases Isolation.installed_contextSwitch earlier (last.isolation.saved t)
          (last.isolation.machine.kernel.threads t).privilege with ⟨ring0, ring3⟩
        rw [← isFrame] at ring0 ring3
        cases privilege : (last.isolation.machine.kernel.threads t).privilege with
        | ring0 =>
            have isSaved := ring0 privilege
            refine ⟨t, isRunning, privilege, by rw [isSaved], ?_⟩
            intro core known
            rw [isSaved, sound.recorded t core known, core_interruptedContext]
        | ring3 =>
            have isUser := (ring3 privilege).2.1
            rw [isUser, codeAt_userCode64 loaded] at returnable
            cases returnable.1
      · cases goes

theorem threads_resume_idle : ∃ operations before after t,
    Run (TimeSharedStep (imageProcessor []) imageLayout)
        (start (kernelCore 0x123456) startedMachine) operations before ∧
      TimeSharedStep (imageProcessor []) imageLayout before .iretq after ∧
      after.isolation.running = some t ∧
      after.core = (after.isolation.saved t).core before.core.memory := by
  rcases run_idle with ⟨operations, before, after, run, step, _, _⟩
  rcases threads_resume (kernelLoaded_image []) (by decide +kernel) startedMachine_booted run
    step with
    ⟨t, running, _, resumed, _⟩
  exact ⟨operations, before, after, t, run, step, running, resumed⟩

/-- In every run, the return to a user thread faults, for the segment that its selector for code
names is one for data. -/
theorem user_threads_fault (loaded : KernelLoaded processor layout)
    (inC : processor.fetch layout.irqHandler = none) {machine : Machine}
    (booted : machine.Booted) {core : Core} {operations : List TimeSharedOperation}
    {last : TimeShared} {frameAt t : ℕ}
    (run : Run (TimeSharedStep processor layout) (start core machine) operations last)
    (returning : last.Returning layout frameAt) (running : last.isolation.running = some t)
    (user : (last.isolation.machine.kernel.threads t).privilege = .ring3) :
    ∃ atReturn, processor.StepsInside last.core atReturn ∧
      processor.operation? atReturn = some .iretq ∧ processor.step atReturn = none := by
  have sound := sound_run loaded inC booted run
  rcases returning.resumes loaded sound with ⟨atReturn, inside, isReturn, resumes⟩
  refine ⟨atReturn, inside, isReturn, ?_⟩
  rcases sound.filled (returning.inside ▸ Option.some_ne_none frameAt) (.inr returning.idle) with
    ⟨other, earlier, isRunning, isFrame⟩
  obtain rfl := Option.some.inj (isRunning.symm.trans running)
  have installed := Isolation.installed_contextSwitch earlier (last.isolation.saved other)
    (last.isolation.machine.kernel.threads other).privilege
  rw [← isFrame] at installed
  have isUser := (installed.ring3 user).2.1
  rw [resumes, isUser, codeAt_userCode64 loaded]
  exact if_neg (fun returnable => Bool.false_ne_true returnable.1)

/-- The tick behind the one that dispatches the idle thread dispatches the user thread. -/
theorem run_userChoice : ∃ operations state,
    Run (TimeSharedStep (imageProcessor []) imageLayout)
        (start (kernelCore 0x123456) startedMachine) operations state ∧
      state.Returning imageLayout (0x8000 - Context.size) ∧
      state.isolation.running = some 0x1400 ∧
      state.isolation.machine.kernel = userChoice.2 := by
  have fits : ∀ word ∈ userFrame.words, word < 2 ^ 64 := by decide +kernel
  rcases run_idle with ⟨operations, before, after, run, step, outside, machine⟩
  rcases after with ⟨core, ⟨_, running, saved⟩, _, interrupted⟩
  obtain rfl := machine
  obtain rfl := outside
  rcases returningCore_frame fits with ⟨stack, level, stored⟩
  have bounded : (kernelCore 0x123456).Bounded := bounded_kernelCore (by omega)
  rcases @run_dispatches _ _ _ (returningCore userFrame) _ _ _ _ _ _ _ _ interrupted rfl
    (kernelLoaded_image []) bounded (by decide) dispatches_userChoice rfl level stack stored with
    ⟨more, state, rest, returning, _, isUser, machine⟩
  have moves : TimeSharedStep (imageProcessor []) imageLayout
      ⟨core, ⟨⟨idleChoice.2, .idle, idleFrame⟩, running, saved⟩, none, interrupted⟩ .instructions
      ⟨kernelCore 0x123456, ⟨⟨idleChoice.2, .idle, idleFrame⟩, running, saved⟩, none,
        interrupted⟩ := .instructions rfl
  rw [stack] at returning
  exact ⟨_, state, run.trans (.cons step (.cons moves rest)), returning, isUser, by rw [machine]⟩

theorem user_threads_fault_created : ∃ operations last atReturn,
    Run (TimeSharedStep (imageProcessor []) imageLayout)
        (start (kernelCore 0x123456) startedMachine) operations last ∧
      last.isolation.running = some 0x1400 ∧
      (imageProcessor []).StepsInside last.core atReturn ∧
      (imageProcessor []).step atReturn = none := by
  have user : (userChoice.2.threads 0x1400).privilege = .ring3 := by decide +kernel
  rcases run_userChoice with ⟨operations, last, run, returning, running, kernel⟩
  rcases user_threads_fault (kernelLoaded_image []) (by decide +kernel) startedMachine_booted run
    returning running (by rw [kernel]; exact user) with ⟨atReturn, inside, _, faults⟩
  exact ⟨operations, last, atReturn, run, running, inside, faults⟩

end TimeShared

end Goshkik

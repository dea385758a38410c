import Goshkik.Lib.Run
import Goshkik.Scheduling.Thread

/-!
# The scheduler tick and the scheduling system

`scheduler_tick` is cut at the points where it touches the ready queue: the
prologue that deals with the interrupted thread, one turn of the loop that takes
a thread from the queue or the table, one turn of the loop that considers the
thread taken, and the final `clean_up`.  A `Machine` records how far the tick has
come.  The other operations of threads run only between two ticks, which is what
the timer interrupt guarantees on one processor.

`SchedulingStep` is the transition system of all these operations.  An operation
receives pointers to thread records that exist, and `kmalloc` hands out no record
that is still in use.
-/

namespace Goshkik

/-- How far `scheduler_tick` has come. -/
inductive TickPhase where
  | idle
  | selecting
  | considering (next : ℕ)
  | dispatched
  deriving DecidableEq

structure Machine where
  kernel : Kernel
  phase : TickPhase
  frame : Context

/-- `context_switch`: the frame that the interrupt returns through. -/
def contextSwitch (frame saved : Context) (isRing3 : Bool) : Context :=
  if isRing3 then
    { saved with
      intNo := frame.intNo
      errCode := frame.errCode
      cs := userCode64
      rflags := saved.rflags ||| 0x200
      ss := userData64 }
  else saved

namespace Kernel

variable (kernel : Kernel)

/-- The prologue of `scheduler_tick`: save the frame of the interrupted thread and
put it on the queue, or take it off. -/
def tickPrologue (fuel : ℕ) (context : Context) : Option Kernel :=
  match kernel.currentThread with
  | none => some kernel
  | some old =>
      let saved := kernel.modifyThread old (fun record => { record with context := context })
      match (kernel.threads old).state with
      | .running | .ready => (saved.setState old .ready).enqueueReadyTail old
      | .blocked | .termed =>
          (saved.removeFromReadyQueue fuel (some old)).map (fun removed =>
            { removed with currentThread := none })

def ownedByZombie (t : ℕ) : Bool :=
  match (kernel.threads t).proc with
  | none => false
  | some p => (kernel.processes p).state = .zombie

/-- The thread that `scheduler_tick` falls back on when the queue is empty: the
first ready thread of the table, else the kernel thread unless it is terminated. -/
def tableChoice : Option ℕ :=
  match (List.range' 1 (maxThreads - 1)).findSome? (fun i =>
      (kernel.threadTable i).filter (fun t => (kernel.threads t).state = .ready)) with
  | some t => some t
  | none => (kernel.threadTable 0).filter (fun t => (kernel.threads t).state ≠ .termed)

/-- Take one thread from the queue, or choose one from the table. -/
def tickSelect : TickPhase × Kernel :=
  match kernel.readyHead with
  | some head =>
      (if kernel.ownedByZombie head then .selecting else .considering head,
        kernel.dequeueReadyHead head)
  | none =>
      match kernel.tableChoice with
      | some t => (.considering t, kernel)
      | none => (.idle, kernel)

/-- What `scheduler_tick` does with the thread it has taken. -/
def tickConsider (fuel next : ℕ) : Option (TickPhase × Kernel) :=
  if (kernel.threads next).state = .blocked ∨ (kernel.threads next).state = .termed then
    (kernel.removeFromReadyQueue fuel (some next)).map (fun removed => (.selecting, removed))
  else if 0 < (kernel.threads next).cooldown then
    ((kernel.modifyThread next (fun record =>
      { record with cooldown := record.cooldown - 1 })).enqueueReadyTail next).map
      (fun queued => (.selecting, queued))
  else
    let cooled := kernel.modifyThread next (fun record =>
      { record with cooldown := priorityToStride record.priority - 1 })
    if (kernel.threads next).privilege = .ring3 ∧ (kernel.threads next).kernelStack = 0 then
      some (.selecting, cooled.setState next .termed)
    else
      some (.dispatched, { cooled with currentThread := some next }.setState next .running)

/-- The frame that a tick leaves when it has dispatched the current thread. -/
def dispatchedFrame (frame : Context) : TickPhase → ℕ → Context
  | .dispatched, next =>
      contextSwitch frame (kernel.threads next).context ((kernel.threads next).privilege = .ring3)
  | _, _ => frame

end Kernel

inductive SchedulingOperation where
  | threadCreate (request : ThreadRequest) (memory : ThreadMemory) (answer : Option ℕ)
  | threadUnblock (tid : ℕ) (answer : ℤ)
  | threadBlock (tid : ℕ)
  | threadTerminate (tid : ℕ) (answer : Option ℤ)
  | cleanUp
  | addToReadyQueue (t : Option ℕ)
  | removeFromReadyQueue (t : Option ℕ)
  | tick (context : Context)
  | tickSelect
  | tickConsider
  | tickCleanUp

/-- One atomic operation of the scheduling system. -/
inductive SchedulingStep : Machine → SchedulingOperation → Machine → Prop where
  | threadCreate {kernel after : Kernel} {frame : Context} {request : ThreadRequest}
      {memory : ThreadMemory} {answer : Option ℕ}
      (fresh : memory.thread ∉ kernel.threadBlocks)
      (runs : kernel.threadCreate request memory = some (answer, after)) :
      SchedulingStep ⟨kernel, .idle, frame⟩ (.threadCreate request memory answer)
        ⟨after, .idle, frame⟩
  | threadUnblock {kernel after : Kernel} {frame : Context} {tid : ℕ} {answer : ℤ}
      (runs : kernel.threadUnblock tid = some (answer, after)) :
      SchedulingStep ⟨kernel, .idle, frame⟩ (.threadUnblock tid answer) ⟨after, .idle, frame⟩
  | threadBlock {kernel after : Kernel} {frame : Context} {tid fuel : ℕ}
      (runs : kernel.threadBlock fuel tid = some after) :
      SchedulingStep ⟨kernel, .idle, frame⟩ (.threadBlock tid) ⟨after, .idle, frame⟩
  | threadTerminate {kernel after : Kernel} {frame : Context} {tid fuel : ℕ} {answer : Option ℤ}
      (runs : kernel.threadTerminate fuel tid = some (answer, after)) :
      SchedulingStep ⟨kernel, .idle, frame⟩ (.threadTerminate tid answer) ⟨after, .idle, frame⟩
  | cleanUp {kernel after : Kernel} {frame : Context} {fuel : ℕ}
      (runs : kernel.cleanUp fuel = some after) :
      SchedulingStep ⟨kernel, .idle, frame⟩ .cleanUp ⟨after, .idle, frame⟩
  | addToReadyQueue {kernel after : Kernel} {frame : Context} {t : Option ℕ} {fuel : ℕ}
      (valid : ∀ pointer ∈ t, pointer ∈ kernel.threadBlocks)
      (runs : kernel.addToReadyQueue fuel t = some after) :
      SchedulingStep ⟨kernel, .idle, frame⟩ (.addToReadyQueue t) ⟨after, .idle, frame⟩
  | removeFromReadyQueue {kernel after : Kernel} {frame : Context} {t : Option ℕ} {fuel : ℕ}
      (valid : ∀ pointer ∈ t, pointer ∈ kernel.threadBlocks)
      (runs : kernel.removeFromReadyQueue fuel t = some after) :
      SchedulingStep ⟨kernel, .idle, frame⟩ (.removeFromReadyQueue t) ⟨after, .idle, frame⟩
  | tick {kernel after : Kernel} {frame context : Context} {fuel : ℕ}
      (runs : kernel.tickPrologue fuel context = some after) :
      SchedulingStep ⟨kernel, .idle, frame⟩ (.tick context) ⟨after, .selecting, context⟩
  | tickSelect {kernel : Kernel} {frame : Context} :
      SchedulingStep ⟨kernel, .selecting, frame⟩ .tickSelect
        ⟨kernel.tickSelect.2, kernel.tickSelect.1, frame⟩
  | tickConsider {kernel after : Kernel} {frame : Context} {next fuel : ℕ} {phase : TickPhase}
      (runs : kernel.tickConsider fuel next = some (phase, after)) :
      SchedulingStep ⟨kernel, .considering next, frame⟩ .tickConsider
        ⟨after, phase, after.dispatchedFrame frame phase next⟩
  | tickCleanUp {kernel after : Kernel} {frame : Context} {fuel : ℕ}
      (runs : kernel.cleanUp fuel = some after) :
      SchedulingStep ⟨kernel, .dispatched, frame⟩ .tickCleanUp ⟨after, .idle, frame⟩

/-! ## A kernel that has just started -/

def unstartedKernel : Kernel where
  threads := fun _ => {}
  processes := fun _ => { state := .running }
  threadBlocks := []
  processBlocks := [0x100]
  readyHead := none
  readyTail := none
  currentThread := none
  threadTable := fun _ => none
  threadCount := 0
  nextTid := 0
  processTable := fun slot => if slot = 0 then some 0x100 else none
  nextPid := 0

/-- A request for a kernel thread of the kernel process. -/
def kernelThreadRequest : ThreadRequest where
  function := 0x4000
  argc := 0
  argv := 0
  privilege := .ring0
  priority := .normal
  ownerPid := 0

/-- A block for a thread and one for its stack. -/
def threadMemoryAt (thread : ℕ) : ThreadMemory := ⟨thread, thread + 0x10000, 0⟩

def startedKernel : Kernel :=
  (unstartedKernel.initThreading 0x1000 0x5000 (threadMemoryAt 0x1100)).getD unstartedKernel

def startedMachine : Machine := ⟨startedKernel, .idle, {}⟩

end Goshkik

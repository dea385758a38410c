import Goshkik.Lib.LockProgram
import Goshkik.Scheduling.LockSystem
import Goshkik.Scheduling.ProcessTable

/-!
# The locks of the thread and process operations

This file writes the operations of `scheduling/thread.c` and `scheduling/process.c` as
programs over `thread_mutex`, the lock of the process table and the locks of the
processes.  Each program takes what is done behind the call as an argument, so that
nested calls keep the locks of their callers.  `self` is the thread that runs the
program, which is the current thread while it does.  `hcf` and a null pointer halt the
program, and so does a loop that runs out of fuel.
-/

namespace Goshkik

inductive KernelLock where
  | threadMutex
  | processTable
  | process (p : ℕ)
  deriving DecidableEq

/-- The sections whose next steps depend on the state in a way that matters for the order
of the locks. -/
inductive LockSite where
  | plain
  | wakeWaiters (p : ℕ)
  | terminateMain (p : ℕ)
  | waitForChild (child : ℕ)
  deriving DecidableEq

abbrev KernelProgram := LockProgram Kernel KernelLock LockSite

/-- `pid_t cur_pid = cur->o_pid`; a `pid_t` is wider than the field. -/
def pidOfOwner (oPid : ℕ) : ℤ := oPid

/-- The loop of `process_wait` over the process table. -/
def Kernel.findChild (kernel : Kernel) (parent pid : ℤ) : Option (ℕ × ℕ) :=
  (List.range maxProcs).findSome? (fun i =>
    ((kernel.processTable i).filter (fun p => (kernel.processes p).ppid = parent ∧
      (pid = -1 ∨ (kernel.processes p).pid = pid))).map (fun p => (p, i)))

def ProcessState.isOver (state : ProcessState) : Bool := state = .zombie ∨ state = .exited

namespace KernelProgram

/-- A section without a site of its own. -/
def inspect (next : Kernel → KernelProgram) : KernelProgram := .run .plain id next

def update (effect : Kernel → Kernel) (next : KernelProgram) : KernelProgram :=
  .run .plain effect (fun _ => next)

/-- A section that may fault. -/
def attempt (effect : Kernel → Option Kernel) (next : KernelProgram) : KernelProgram :=
  .run .plain (fun kernel => (effect kernel).getD kernel)
    (fun kernel => if (effect kernel).isSome then next else .halt)

/-- A section under a lock. -/
def locked (lock : KernelLock) (effect : Kernel → Kernel) (next : Kernel → KernelProgram) :
    KernelProgram :=
  .acquire lock (.run .plain effect (fun kernel => .release lock (next kernel)))

def processFromPid (pid : ℤ) (next : Option ℕ → KernelProgram) : KernelProgram :=
  if pid < 0 then next none
  else locked .processTable id (fun kernel => next (kernel.processFromPid pid))

def processAddThread (p t : ℕ) (next : KernelProgram) : KernelProgram :=
  locked (.process p) (fun kernel => kernel.processAddThread p t) (fun _ => next)

def processRemoveThread (p t : ℕ) (next : KernelProgram) : KernelProgram :=
  locked (.process p) (fun kernel => kernel.processRemoveThread p t) (fun _ => next)

/-- `thread_create` once the new thread has its owner. -/
def claimSlot (t : ℕ) (next : Option ℕ → KernelProgram) : KernelProgram :=
  .run .plain
    (fun kernel =>
      match kernel.freeThreadSlot with
      | none => { kernel with threadBlocks := kernel.threadBlocks.erase t }
      | some slot => kernel.claimThreadSlot slot t)
    (fun kernel =>
      match kernel.freeThreadSlot with
      | none => .release .threadMutex (next none)
      | some _ =>
          .release .threadMutex (attempt (fun kernel => kernel.appendReady t) (next (some t))))

/-- The thread that `thread_create` has built before it looks for its owner. -/
def newThread (request : ThreadRequest) (memory : ThreadMemory) (kernel : Kernel) : Kernel :=
  { kernel with
    nextTid := (kernel.nextTid + 1) % 2 ^ 32
    threadBlocks := memory.thread :: kernel.threadBlocks }.modifyThread memory.thread
      (fun _ => request.thread memory kernel.nextTid)

def threadCreate (request : ThreadRequest) (memory : ThreadMemory)
    (next : Option ℕ → KernelProgram) : KernelProgram :=
  if request.function = 0 then next none
  else
    .acquire .threadMutex (.run .plain
      (fun kernel =>
        if maxThreads ≤ kernel.threadCount ∨ memory.thread = 0 then kernel
        else if request.lacksStack memory then
          { kernel with nextTid := (kernel.nextTid + 1) % 2 ^ 32 }
        else newThread request memory kernel)
      (fun kernel =>
        if maxThreads ≤ kernel.threadCount ∨ memory.thread = 0 ∨ request.lacksStack memory then
          .release .threadMutex (next none)
        else
          processFromPid (pidOfOwner request.ownerPid) (fun owner =>
            match owner with
            | none => claimSlot memory.thread next
            | some p => processAddThread p memory.thread (claimSlot memory.thread next))))

/-- `thread_block`, with the software interrupt left out. -/
def threadBlock (fuel tid : ℕ) (next : KernelProgram) : KernelProgram :=
  locked .threadMutex id (fun found =>
    match found.threadFromTid tid with
    | none => .halt
    | some t =>
        inspect (fun kernel =>
          if (kernel.threads t).tid = 0 then .halt
          else
            update (fun kernel => kernel.setState t .blocked)
              (attempt (fun kernel => kernel.removeFromReadyQueue fuel (some t)) next)))

def threadUnblock (tid : ℕ) (next : KernelProgram) : KernelProgram :=
  locked .threadMutex id (fun found =>
    match found.threadFromTid tid with
    | none => next
    | some t =>
        attempt (fun kernel =>
          if (kernel.threads t).state ≠ .blocked then some kernel
          else ((kernel.setState t .ready).setNext t none).appendReady t) next)

/-- The loop of `wake_waiters`, from the waiter `cur` on. -/
def wakeFrom : ℕ → Option ℕ → KernelProgram → KernelProgram
  | _, none, next => next
  | 0, some _, _ => .halt
  | fuel + 1, some cur, next =>
      inspect (fun kernel =>
        threadUnblock (kernel.threads cur).tid
          (inspect (fun kernel => wakeFrom fuel (kernel.threads cur).next next)))

def wakeWaiters (fuel p : ℕ) (next : KernelProgram) : KernelProgram :=
  .acquire (.process p) (.run (.wakeWaiters p) id (fun kernel =>
    wakeFrom fuel (kernel.processes p).waitHead
      (update (fun kernel => kernel.modifyProcess p (fun record =>
        { record with waitHead := none, waitTail := none })) (.release (.process p) next))))

/-- The end of `thread_exit`. -/
def exitEnd (self : ℕ) : KernelProgram :=
  locked .threadMutex (fun kernel => kernel.setState self .termed) (fun _ =>
    update (fun kernel => { kernel with currentThread := none }) .done)

def threadExit (fuel self : ℕ) : KernelProgram :=
  inspect (fun kernel =>
    if (kernel.threads self).tid = 0 then .halt
    else
      match (kernel.threads self).proc with
      | none => exitEnd self
      | some p =>
          locked (.process p)
            (fun kernel =>
              if (kernel.processes p).mainThread = some self then
                kernel.modifyProcess p (fun record =>
                  { record with exitCode := 0, state := .zombie })
              else kernel)
            (fun kernel =>
              if (kernel.processes p).mainThread = some self then
                wakeWaiters fuel p (exitEnd self)
              else exitEnd self))

/-- `thread_terminate` once the thread is detached from its process. -/
def terminateEnd (fuel t : ℕ) (next : KernelProgram) : KernelProgram :=
  update (fun kernel => kernel.setNext t none)
    (.release .threadMutex
      (attempt (fun kernel => kernel.removeFromReadyQueue fuel (some t)) next))

def threadTerminate (fuel self tid : ℕ) (next : KernelProgram) : KernelProgram :=
  if tid = 0 then next
  else
    .acquire .threadMutex (.run .plain
      (fun kernel =>
        match kernel.threadFromTid tid with
        | none => kernel
        | some t => if t = self then kernel else kernel.setState t .termed)
      (fun kernel =>
        match kernel.threadFromTid tid with
        | none => .release .threadMutex next
        | some t =>
            if t = self then .release .threadMutex (threadExit fuel self)
            else
              match (kernel.threads t).proc with
              | none => terminateEnd fuel t next
              | some p => processRemoveThread p t (terminateEnd fuel t next)))

/-- `clean_up` frees a thread that is off the queue and detached. -/
def clearSlot (slot t : ℕ) (kernel : Kernel) : Kernel :=
  { kernel with
    threadBlocks := kernel.threadBlocks.erase t
    threadTable := Function.update kernel.threadTable slot none
    threadCount := (kernel.threadCount + 2 ^ 32 - 1) % 2 ^ 32 }

/-- The loop of `clean_up`. -/
def cleanUpSlots (fuel : ℕ) : List ℕ → KernelProgram → KernelProgram
  | [], next => next
  | slot :: slots, next =>
      inspect (fun kernel =>
        match kernel.threadTable slot with
        | none => cleanUpSlots fuel slots next
        | some t =>
            if (kernel.threads t).state = .termed then
              attempt (fun kernel => kernel.removeFromReadyQueue fuel (some t))
                (match (kernel.threads t).proc with
                | none => update (clearSlot slot t) (cleanUpSlots fuel slots next)
                | some p =>
                    processRemoveThread p t
                      (update (clearSlot slot t) (cleanUpSlots fuel slots next)))
            else cleanUpSlots fuel slots next)

def cleanUp (fuel : ℕ) (next : KernelProgram) : KernelProgram :=
  .acquire .threadMutex (cleanUpSlots fuel (List.range maxThreads) (.release .threadMutex next))

def processCreate (request : ProcessRequest) (block addressSpace : ℕ) (memory : ThreadMemory)
    (next : Option ℕ → KernelProgram) : KernelProgram :=
  locked .processTable (fun kernel => (kernel.processCreateBegin request block addressSpace).2)
    (fun kernel =>
      match (kernel.processCreateBegin request block addressSpace).1 with
      | none => next none
      | some slot =>
          if request.entry = 0 then next (some block)
          else
            inspect (fun kernel =>
              threadCreate (request.threadRequest (kernel.processes block).pid) memory (fun t =>
                match t with
                | none =>
                    locked .processTable (fun kernel => kernel.processCreateUndo block slot)
                      (fun _ => next none)
                | some t =>
                    update (fun kernel => kernel.modifyProcess block (fun record =>
                      { record with mainThread := some t })) (next (some block)))))

def processExit (fuel self : ℕ) (code : ℤ) : KernelProgram :=
  inspect (fun kernel =>
    processFromPid (pidOfOwner (kernel.threads self).oPid) (fun found =>
      match found with
      | none => .halt
      | some p =>
          locked (.process p)
            (fun kernel => kernel.modifyProcess p (fun record =>
              { record with exitCode := code, state := .zombie }))
            (fun _ => wakeWaiters fuel p (threadExit fuel self))))

def processTerminate (fuel self : ℕ) (pid : ℤ) (next : KernelProgram) : KernelProgram :=
  if pid = 0 then next
  else
    processFromPid pid (fun found =>
      match found with
      | none => next
      | some p =>
          .acquire (.process p) (.run (.terminateMain p)
            (fun kernel => kernel.modifyProcess p (fun record => { record with state := .zombie }))
            (fun kernel =>
              match (kernel.processes p).mainThread with
              | none => .release (.process p) next
              | some t =>
                  threadTerminate fuel self (kernel.threads t).tid (.release (.process p) next))))

def processCleanup (child index : ℕ) (pid : ℤ) (next : KernelProgram) : KernelProgram :=
  locked .processTable (fun kernel => kernel.processCleanup child index pid) (fun _ => next)

/-- `process_wait` once the thread that has waited is awake again. -/
def collectChild (child index : ℕ) (pid : ℤ) (next : KernelProgram) : KernelProgram :=
  locked (.process child)
    (fun kernel => kernel.modifyProcess child (fun record => { record with state := .exited }))
    (fun _ => processCleanup child index pid next)

def processWait (fuel self : ℕ) (pid : ℤ) (next : KernelProgram) : KernelProgram :=
  inspect (fun start =>
    locked .processTable id (fun kernel =>
      match kernel.findChild (pidOfOwner (start.threads self).oPid) pid with
      | none => next
      | some (child, index) =>
          .acquire (.process child) (.run (.waitForChild child)
            (fun kernel =>
              if (kernel.processes child).state.isOver then
                kernel.modifyProcess child (fun record => { record with state := .exited })
              else (kernel.waitEnqueue child self).getD kernel)
            (fun kernel =>
              if (kernel.processes child).state.isOver then
                .release (.process child) (processCleanup child index pid next)
              else if (kernel.waitEnqueue child self).isSome then
                threadBlock fuel (kernel.threads self).tid (collectChild child index pid next)
              else .halt))))

end KernelProgram

/-- The public operations on threads and processes. -/
inductive PublicCall where
  | threadCreate (request : ThreadRequest) (memory : ThreadMemory)
  | threadUnblock (tid : ℕ)
  | threadTerminate (tid : ℕ)
  | threadExit
  | cleanUp
  | wakeWaiters (p : ℕ)
  | processAddThread (p t : ℕ)
  | processRemoveThread (p t : ℕ)
  | processCreate (request : ProcessRequest) (block addressSpace : ℕ) (memory : ThreadMemory)
  | processExit (code : ℤ)
  | processTerminate (pid : ℤ)
  | processWait (pid : ℤ)

def PublicCall.program (fuel self : ℕ) : PublicCall → KernelProgram
  | .threadCreate request memory => KernelProgram.threadCreate request memory (fun _ => .done)
  | .threadUnblock tid => KernelProgram.threadUnblock tid .done
  | .threadTerminate tid => KernelProgram.threadTerminate fuel self tid .done
  | .threadExit => KernelProgram.threadExit fuel self
  | .cleanUp => KernelProgram.cleanUp fuel .done
  | .wakeWaiters p => KernelProgram.wakeWaiters fuel p .done
  | .processAddThread p t => KernelProgram.processAddThread p t .done
  | .processRemoveThread p t => KernelProgram.processRemoveThread p t .done
  | .processCreate request block addressSpace memory =>
      KernelProgram.processCreate request block addressSpace memory (fun _ => .done)
  | .processExit code => KernelProgram.processExit fuel self code
  | .processTerminate pid => KernelProgram.processTerminate fuel self pid .done
  | .processWait pid => KernelProgram.processWait fuel self pid .done

end Goshkik

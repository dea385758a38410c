import Goshkik.Errno
import Goshkik.Scheduling.Process
import Goshkik.Scheduling.Scheduler

/-!
# Threads

This file models `scheduling/thread.c` and `wake_waiters`.  What `kmalloc` answers
to the calls of `thread_create` is an argument, with `0` for `NULL`.  An operation
that halts the machine or faults has the answer `none`, and so has a loop that
runs out of fuel.  The software interrupt that ends `thread_block` and
`thread_exit` is a tick of the scheduler of its own.
-/

namespace Goshkik

def kernelCode64 : ℕ := 0x08

def kernelData64 : ℕ := 0x10

def userCode64 : ℕ := 0x1B

def userData64 : ℕ := 0x23

/-- The arguments of `thread_create`. -/
structure ThreadRequest where
  function : ℕ
  argc : ℤ
  argv : ℕ
  privilege : ThreadPrivilege
  priority : ThreadPriority
  ownerPid : ℕ

/-- What the calls of `kmalloc` in `thread_create` answer. -/
structure ThreadMemory where
  thread : ℕ
  stackBase : ℕ
  kernelStack : ℕ

def ThreadRequest.context (request : ThreadRequest) (stackBase : ℕ) : Context :=
  { rip := request.function
    rsp := (stackBase + tstackSize + 2 ^ 64 - 8) % 2 ^ 64
    rdi := (request.argc % 2 ^ 64).toNat
    rsi := request.argv
    rflags := 0x202
    cs := if request.privilege = .ring3 then userCode64 else kernelCode64
    ss := if request.privilege = .ring3 then userData64 else kernelData64 }

/-- The record that `thread_create` builds before it looks for the owner. -/
def ThreadRequest.thread (request : ThreadRequest) (memory : ThreadMemory) (tid : ℕ) : Thread :=
  { tid := tid
    oPid := request.ownerPid
    state := .ready
    privilege := request.privilege
    priority := request.priority
    context := request.context memory.stackBase
    stackBase := memory.stackBase
    stackSize := tstackSize
    kernelStack := if request.privilege = .ring3 then memory.kernelStack else 0 }

/-- A stack that the privilege of the thread asks for is missing. -/
def ThreadRequest.lacksStack (request : ThreadRequest) (memory : ThreadMemory) : Bool :=
  memory.stackBase = 0 || (request.privilege = .ring3 && memory.kernelStack = 0)

namespace Kernel

variable (kernel : Kernel)

def threadFromTid (tid : ℕ) : Option ℕ :=
  (List.range maxThreads).findSome? (fun i =>
    (kernel.threadTable i).filter (fun t => (kernel.threads t).tid = tid))

/-- Attach a new thread to the process with its owner's process id, if there is one. -/
def attachOwner (t ownerPid : ℕ) : Kernel :=
  match kernel.processFromPid ownerPid with
  | none => kernel
  | some owner => kernel.processAddThread owner t

/-- The first free slot of the thread table behind the slot of the kernel thread. -/
def freeThreadSlot : Option ℕ :=
  (List.range' 1 (maxThreads - 1)).find? (fun i => kernel.threadTable i = none)

def claimThreadSlot (slot t : ℕ) : Kernel :=
  { kernel with
    threadTable := Function.update kernel.threadTable slot (some t)
    threadCount := (kernel.threadCount + 1) % 2 ^ 32 }

/-- The new thread, built in its block and attached to its owner. -/
def buildThread (request : ThreadRequest) (memory : ThreadMemory) : Kernel :=
  let allocated :=
    { kernel with
      nextTid := (kernel.nextTid + 1) % 2 ^ 32
      threadBlocks := memory.thread :: kernel.threadBlocks }
  (allocated.modifyThread memory.thread (fun _ => request.thread memory kernel.nextTid)).attachOwner
    memory.thread request.ownerPid

def threadCreate (request : ThreadRequest) (memory : ThreadMemory) :
    Option (Option ℕ × Kernel) :=
  if request.function = 0 ∨ maxThreads ≤ kernel.threadCount ∨ memory.thread = 0 then
    some (none, kernel)
  else if request.lacksStack memory then
    some (none, { kernel with nextTid := (kernel.nextTid + 1) % 2 ^ 32 })
  else
    let t := memory.thread
    let built := kernel.buildThread request memory
    match built.freeThreadSlot with
    | none => some (none, { built with threadBlocks := built.threadBlocks.erase t })
    | some slot =>
        ((built.claimThreadSlot slot t).appendReady t).map (fun queued => (some t, queued))

/-- `thread_block` up to the software interrupt. -/
def threadBlock (fuel tid : ℕ) : Option Kernel :=
  match kernel.threadFromTid tid with
  | none => none
  | some t =>
      if (kernel.threads t).tid = 0 then none
      else (kernel.setState t .blocked).removeFromReadyQueue fuel (some t)

def threadUnblock (tid : ℕ) : Option (ℤ × Kernel) :=
  match kernel.threadFromTid tid with
  | none => some (-esrch, kernel)
  | some t =>
      if (kernel.threads t).state ≠ .blocked then some (-einval, kernel)
      else
        (((kernel.setState t .ready).setNext t none).appendReady t).map
          (fun queued => (0, queued))

/-- The loop of `wake_waiters`, from the waiter `cur` on. -/
def wakeFrom : ℕ → Kernel → Option ℕ → Option Kernel
  | _, kernel, none => some kernel
  | 0, _, some _ => none
  | fuel + 1, kernel, some cur =>
      (kernel.threadUnblock (kernel.threads cur).tid).bind (fun answer =>
        wakeFrom fuel answer.2 (answer.2.threads cur).next)

def wakeWaiters (fuel p : ℕ) : Option Kernel :=
  (wakeFrom fuel kernel (kernel.processes p).waitHead).map (fun woken =>
    woken.modifyProcess p (fun record => { record with waitHead := none, waitTail := none }))

/-- What `thread_exit` does to the process of the thread that exits. -/
def leaveProcess (fuel current : ℕ) : Option Kernel :=
  match (kernel.threads current).proc with
  | none => some kernel
  | some p =>
      if (kernel.processes p).mainThread = some current then
        (kernel.modifyProcess p (fun record =>
          { record with exitCode := 0, state := .zombie })).wakeWaiters fuel p
      else some kernel

/-- `thread_exit` up to the software interrupt. -/
def threadExit (fuel : ℕ) : Option Kernel :=
  match kernel.currentThread with
  | none => none
  | some current =>
      if (kernel.threads current).tid = 0 then none
      else
        (kernel.leaveProcess fuel current).map (fun left =>
          { left.setState current .termed with currentThread := none })

def detachThread (t : ℕ) : Kernel :=
  match (kernel.threads t).proc with
  | none => kernel
  | some p => kernel.processRemoveThread p t

/-- `thread_terminate`; there is no return value when the thread is the current
one, since `thread_exit` does not return. -/
def threadTerminate (fuel tid : ℕ) : Option (Option ℤ × Kernel) :=
  if tid = 0 then some (some (-eperm), kernel)
  else
    match kernel.threadFromTid tid with
    | none => some (some (-esrch), kernel)
    | some t =>
        if kernel.currentThread = some t then
          (kernel.threadExit fuel).map (fun exited => (none, exited))
        else
          ((((kernel.setState t .termed).detachThread t).setNext t none).removeFromReadyQueue fuel
            (some t)).map (fun removed => (some 0, removed))

/-- What `clean_up` does to a terminated thread once it is off the ready queue. -/
def freeThread (slot t : ℕ) : Kernel :=
  let detached := kernel.detachThread t
  { detached with
    threadBlocks := detached.threadBlocks.erase t
    threadTable := Function.update detached.threadTable slot none
    threadCount := (detached.threadCount + 2 ^ 32 - 1) % 2 ^ 32 }

def cleanUpSlot (fuel : ℕ) (kernel : Kernel) (slot : ℕ) : Option Kernel :=
  match kernel.threadTable slot with
  | none => some kernel
  | some t =>
      if (kernel.threads t).state = .termed then
        (kernel.removeFromReadyQueue fuel (some t)).map (fun removed => removed.freeThread slot t)
      else some kernel

def cleanUp (fuel : ℕ) : Option Kernel :=
  (List.range maxThreads).foldlM (cleanUpSlot fuel) kernel

def idleRequest (idleTask : ℕ) : ThreadRequest :=
  { function := idleTask
    argc := 0
    argv := 0
    privilege := .ring0
    priority := .low
    ownerPid := 0 }

/-- The kernel thread that `init_threading` sets up in the block `kernelThread`. -/
def startKernelThread (kernelThread : ℕ) : Kernel :=
  let built :=
    { kernel with
      threadTable := fun _ => none
      threadBlocks := kernelThread :: kernel.threadBlocks }.modifyThread kernelThread
      (fun _ => { state := .running, priority := .immediate })
  let attached := built.attachOwner kernelThread 0
  { attached with
    currentThread := some kernelThread
    threadTable := Function.update attached.threadTable 0 (some kernelThread)
    threadCount := 1
    nextTid := 1 }

def initThreading (kernelThread idleTask : ℕ) (memory : ThreadMemory) : Option Kernel :=
  ((kernel.startKernelThread kernelThread).threadCreate (idleRequest idleTask) memory).bind
    (fun answer => if answer.1 = none then none else some answer.2)

end Kernel

end Goshkik

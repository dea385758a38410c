import Goshkik.Scheduling.KernelThread
import Goshkik.Scheduling.LockInvariant
import Goshkik.Scheduling.LockPrograms
import Mathlib.Data.Finset.Card
import Mathlib.Data.Finset.Range

/-!
# The threads and what refers to them

This file puts the operations on threads together with the mutexes and the scheduler.
Each operation is atomic, but a mutex has its real waiter list: a contended
`acquire_mutex`, `process_wait` or `thread_exit` leaves its thread on the list, and
`Resumption` says where the call goes on once the thread runs again.  The lock of a process
is a field of its record and has its address here.  `thread_mutex`, the lock of the process
table and the spinlocks are free between two operations and are left out.

An operation that would have to wait in its middle for the lock of a process, that halts or
that faults takes no step.  The software interrupt at the end of `thread_block` and
`thread_exit` is the next step, since a blocked thread takes none.
-/

namespace Goshkik

/-- Where a call that has to wait goes on. -/
inductive Resumption where
  | outside
  | acquireMutex (m : ℕ)
  | waitForChild (child index : ℕ) (pid : ℤ)
  | collectChild (child index : ℕ) (pid : ℤ)
  | threadExit
  deriving DecidableEq

structure ThreadSystem where
  kernel : Kernel
  phase : TickPhase
  mutexes : ℕ → Mutex
  resumption : ℕ → Resumption

inductive ThreadOperation where
  | threadCreate (request : ThreadRequest) (memory : ThreadMemory)
  | acquireMutex (m : ℕ)
  | releaseMutex (m : ℕ)
  | processWait (pid : ℤ)
  | threadTerminate (tid : ℕ)
  | threadExit
  | cleanUp
  | resume
  | tick (context : Context)
  | tickSelect
  | tickConsider
  | tickCleanUp

namespace ThreadSystem

variable (system : ThreadSystem)

def setKernel (kernel : Kernel) : ThreadSystem := { system with kernel := kernel }

def setMutex (kernel : Kernel) (m : ℕ) (mutex : Mutex) : ThreadSystem :=
  { system with kernel := kernel, mutexes := Function.update system.mutexes m mutex }

def setResumption (t : ℕ) (resumption : Resumption) : ThreadSystem :=
  { system with resumption := Function.update system.resumption t resumption }

/-- `acquire_mutex` by the current thread up to the first time it has to wait, and what the
caller does behind it. -/
def acquire (fuel current m : ℕ) (resumption : Resumption)
    (next : ThreadSystem → Option ThreadSystem) : Option ThreadSystem :=
  (system.kernel.acquireSection (system.mutexes m)).bind (fun answer =>
    if answer.1 then
      next ((system.setMutex answer.2.1 m answer.2.2).setResumption current .outside)
    else
      (answer.2.1.threadBlock fuel (answer.2.1.threads current).tid).map (fun blocked =>
        (system.setMutex blocked m answer.2.2).setResumption current resumption))

def release (fuel m : ℕ) : Option ThreadSystem :=
  (system.kernel.releaseMutex fuel (system.mutexes m)).map (fun answer =>
    system.setMutex answer.1 m answer.2)

/-- A section under the lock of a process that has to be free. -/
def locked (fuel p : ℕ) (effect : Kernel → Option Kernel) : Option ThreadSystem :=
  if (system.mutexes p).locked then none
  else
    (effect system.kernel).bind (fun kernel =>
      (system.setMutex kernel p ((system.mutexes p).take system.kernel.currentThread)).release
        fuel p)

/-- `process_add_thread` on the process with the given id, if there is one. -/
def attachThread (fuel t : ℕ) (ownerPid : ℤ) : Option ThreadSystem :=
  match system.kernel.processFromPid ownerPid with
  | none => some system
  | some p => system.locked fuel p (fun kernel => some (kernel.processAddThread p t))

/-- `process_remove_thread` on the process of the thread. -/
def detachThread (fuel t : ℕ) : Option ThreadSystem :=
  match (system.kernel.threads t).proc with
  | none => some system
  | some p => system.locked fuel p (fun kernel => some (kernel.processRemoveThread p t))

/-- `thread_create` once the new thread has its owner. -/
def enlist (t : ℕ) : Option ThreadSystem :=
  match system.kernel.freeThreadSlot with
  | none =>
      some (system.setKernel
        { system.kernel with threadBlocks := system.kernel.threadBlocks.erase t })
  | some slot =>
      ((system.kernel.claimThreadSlot slot t).appendReady t).map (fun queued =>
        (system.setKernel queued).setResumption t .outside)

def threadCreate (fuel : ℕ) (request : ThreadRequest) (memory : ThreadMemory) :
    Option ThreadSystem :=
  if request.function = 0 ∨ maxThreads ≤ system.kernel.threadCount ∨ memory.thread = 0 then
    some system
  else if request.lacksStack memory then
    some (system.setKernel
      { system.kernel with nextTid := (system.kernel.nextTid + 1) % 2 ^ 32 })
  else
    ((system.setKernel (KernelProgram.newThread request memory system.kernel)).attachThread fuel
      memory.thread (pidOfOwner request.ownerPid)).bind (fun attached =>
        attached.enlist memory.thread)

/-- The child is marked as exited, its lock is released and its record freed. -/
def collect (fuel child index : ℕ) (pid : ℤ) : Option ThreadSystem :=
  ((system.setKernel (system.kernel.modifyProcess child (fun record =>
    { record with state := .exited }))).release fuel child).map (fun released =>
      released.setKernel (released.kernel.processCleanup child index pid))

/-- `process_wait` once it has found a child. -/
def waitForChild (fuel current child index : ℕ) (pid : ℤ) : Option ThreadSystem :=
  system.acquire fuel current child (.waitForChild child index pid) (fun held =>
    if (held.kernel.processes child).state.isOver then held.collect fuel child index pid
    else
      (held.kernel.waitEnqueue child current).bind (fun queued =>
        (queued.threadBlock fuel (queued.threads current).tid).map (fun blocked =>
          (held.setKernel blocked).setResumption current (.collectChild child index pid))))

/-- `process_wait` behind `thread_block`. -/
def collectChild (fuel current child index : ℕ) (pid : ℤ) : Option ThreadSystem :=
  system.acquire fuel current child (.collectChild child index pid) (fun held =>
    held.collect fuel child index pid)

def processWait (fuel current : ℕ) (pid : ℤ) : Option ThreadSystem :=
  match system.kernel.findChild (pidOfOwner (system.kernel.threads current).oPid) pid with
  | none => some system
  | some (child, index) => system.waitForChild fuel current child index pid

/-- The end of `thread_exit`. -/
def exitEnd (current : ℕ) : ThreadSystem :=
  system.setKernel { system.kernel.setState current .termed with currentThread := none }

def threadExit (fuel current : ℕ) : Option ThreadSystem :=
  if (system.kernel.threads current).tid = 0 then none
  else
    match (system.kernel.threads current).proc with
    | none => some (system.exitEnd current)
    | some p =>
        system.acquire fuel current p .threadExit (fun held =>
          if (held.kernel.processes p).mainThread = some current then
            ((held.setKernel (held.kernel.modifyProcess p (fun record =>
              { record with exitCode := 0, state := .zombie }))).release fuel p).bind
              (fun released =>
                (released.locked fuel p (fun kernel => kernel.wakeWaiters fuel p)).map
                  (fun woken => woken.exitEnd current))
          else (held.release fuel p).map (fun released => released.exitEnd current))

/-- `thread_terminate` once the thread is detached from its process. -/
def unlinkThread (fuel t : ℕ) : Option ThreadSystem :=
  ((system.kernel.setNext t none).removeFromReadyQueue fuel (some t)).map system.setKernel

def threadTerminate (fuel current tid : ℕ) : Option ThreadSystem :=
  if tid = 0 then some system
  else
    match system.kernel.threadFromTid tid with
    | none => some system
    | some t =>
        if t = current then system.threadExit fuel current
        else
          ((system.setKernel (system.kernel.setState t .termed)).detachThread fuel t).bind
            (fun detached => detached.unlinkThread fuel t)

/-- What `clean_up` does to a terminated thread. -/
def reap (fuel slot t : ℕ) : Option ThreadSystem :=
  (system.kernel.removeFromReadyQueue fuel (some t)).bind (fun removed =>
    ((system.setKernel removed).detachThread fuel t).map (fun detached =>
      detached.setKernel (KernelProgram.clearSlot slot t detached.kernel)))

def cleanUpSlot (fuel : ℕ) (system : ThreadSystem) (slot : ℕ) : Option ThreadSystem :=
  match system.kernel.threadTable slot with
  | none => some system
  | some t =>
      if (system.kernel.threads t).state = .termed then system.reap fuel slot t
      else some system

def cleanUp (fuel : ℕ) : Option ThreadSystem :=
  (List.range maxThreads).foldlM (cleanUpSlot fuel) system

def resume (fuel current : ℕ) : Resumption → Option ThreadSystem
  | .outside => none
  | .acquireMutex m => system.acquire fuel current m (.acquireMutex m) some
  | .waitForChild child index pid => system.waitForChild fuel current child index pid
  | .collectChild child index pid => system.collectChild fuel current child index pid
  | .threadExit => system.threadExit fuel current

/-- An operation that the current thread calls. -/
def call (fuel current : ℕ) : ThreadOperation → Option ThreadSystem
  | .threadCreate request memory =>
      if memory.thread ∈ system.kernel.threadBlocks then none
      else system.threadCreate fuel request memory
  | .acquireMutex m => system.acquire fuel current m (.acquireMutex m) some
  | .releaseMutex m => system.release fuel m
  | .processWait pid => system.processWait fuel current pid
  | .threadTerminate tid => system.threadTerminate fuel current tid
  | .threadExit => system.threadExit fuel current
  | .cleanUp => system.cleanUp fuel
  | _ => none

/-- A step that the current thread takes outside the tick. -/
def threadStep (fuel current : ℕ) (operation : ThreadOperation) : Option ThreadSystem :=
  if (system.kernel.threads current).state = .blocked then none
  else
    match system.resumption current with
    | .outside => system.call fuel current operation
    | resumption =>
        match operation with
        | .resume => system.resume fuel current resumption
        | _ => none

def perform (fuel : ℕ) (operation : ThreadOperation) : Option ThreadSystem :=
  match system.phase, operation with
  | .idle, .tick context =>
      (system.kernel.tickPrologue fuel context).map (fun saved =>
        { system with kernel := saved, phase := .selecting })
  | .idle, operation =>
      system.kernel.currentThread.bind (fun current => system.threadStep fuel current operation)
  | .selecting, .tickSelect =>
      some { system with kernel := system.kernel.tickSelect.2, phase := system.kernel.tickSelect.1 }
  | .considering next, .tickConsider =>
      (system.kernel.tickConsider fuel next).map (fun answer =>
        { system with kernel := answer.2, phase := answer.1 })
  | .dispatched, .tickCleanUp =>
      (system.cleanUp fuel).map (fun cleaned => { cleaned with phase := .idle })
  | _, _ => none

end ThreadSystem

def ThreadStep (before : ThreadSystem) (operation : ThreadOperation) (after : ThreadSystem) :
    Prop :=
  ∃ fuel, before.perform fuel operation = some after

/-- The slots of the thread table that hold a thread. -/
def Kernel.occupied (kernel : Kernel) : Finset ℕ :=
  (Finset.range maxThreads).filter (fun slot => (kernel.threadTable slot).isSome)

/-- Following the links from a pointer visits the thread. -/
def Kernel.Visits (kernel : Kernel) (head : Option ℕ) (t : ℕ) : Prop :=
  ∃ visited, Segment kernel.nextOf head visited (some t)

namespace ThreadSystem

/-- The thread is reachable from the ready queue, the current thread, a mutex, a process or
the thread table. -/
inductive Reaches (system : ThreadSystem) (t : ℕ) : Prop where
  | ready (visits : system.kernel.Visits system.kernel.readyHead t)
  | readyTail (isTail : system.kernel.readyTail = some t)
  | current (isCurrent : system.kernel.currentThread = some t)
  | owner (m : ℕ) (isOwner : (system.mutexes m).owner = some t)
  | waiter (m : ℕ) (visits : system.kernel.Visits (system.mutexes m).waiterHead t)
  | waiterTail (m : ℕ) (isTail : (system.mutexes m).waiterTail = some t)
  | awaiting (p : ℕ) (visits : system.kernel.Visits (system.kernel.processes p).waitHead t)
  | waitTail (p : ℕ) (isTail : (system.kernel.processes p).waitTail = some t)
  | mainThread (p : ℕ) (isMain : (system.kernel.processes p).mainThread = some t)
  | table (slot : ℕ) (bound : slot < maxThreads) (listed : system.kernel.threadTable slot = some t)

/-- No thread that has been freed is reachable. -/
def ThreadsLive (system : ThreadSystem) : Prop :=
  ∀ t, system.Reaches t → t ∈ system.kernel.threadBlocks

/-- Nobody waits for a mutex or a child, every thread of the table is alive, and the ready
queue holds threads of the table. -/
structure Started (system : ThreadSystem) : Prop where
  idle : system.phase = .idle
  free : ∀ m, system.mutexes m = {}
  unawaited : ∀ p, (system.kernel.processes p).waitHead = none ∧
    (system.kernel.processes p).waitTail = none
  blocks : system.kernel.threadBlocks.Nodup
  slots : ∀ slot other t, slot < maxThreads → other < maxThreads →
    system.kernel.threadTable slot = some t → system.kernel.threadTable other = some t →
      slot = other
  allocated : ∀ t, system.kernel.Listed t → t ∈ system.kernel.threadBlocks
  populated : system.kernel.Populated
  kernelThread : ∃ k, system.kernel.HoldsKernelThread k
  count : system.kernel.threadCount = system.kernel.occupied.card
  mains : ∀ p t, (system.kernel.processes p).mainThread = some t →
    system.kernel.Listed t ∧ (system.kernel.threads t).proc = some p
  queue : ∃ queue, system.kernel.IsReadyQueue queue ∧
    ∀ t ∈ queue, system.kernel.Listed t ∧ (system.kernel.threads t).state ≠ .blocked ∧
      system.kernel.currentThread ≠ some t
  current : ∀ t, system.kernel.currentThread = some t → system.kernel.Listed t

/-- No mutex is held by the thread. -/
def OwnsNone (system : ThreadSystem) (t : ℕ) : Prop :=
  ∀ m, (system.mutexes m).owner ≠ some t

/-- A thread that ends itself now, and does not have to wait for its process before, holds no
mutex. -/
def MayExit (system : ThreadSystem) (t : ℕ) : Prop :=
  (∀ p, (system.kernel.threads t).proc = some p → (system.mutexes p).locked = false) →
    system.OwnsNone t

/-- The thread holds no mutex and waits for no mutex and no child, and if it is on the ready
queue it is the last one and nobody waits for the lock of its process. -/
structure MayTerminate (system : ThreadSystem) (t : ℕ) : Prop where
  owns : system.OwnsNone t
  waiter : ∀ m, ¬system.kernel.Visits (system.mutexes m).waiterHead t
  awaiting : ∀ p, ¬system.kernel.Visits (system.kernel.processes p).waitHead t
  last : system.kernel.Visits system.kernel.readyHead t → system.kernel.nextOf t = none ∧
    ∀ p, (system.kernel.threads t).proc = some p → (system.mutexes p).waiterHead = none

/-- A thread is created with an id that no other thread has, and ends where nothing but the
end of the ready queue refers to it. -/
def EndsUnreferenced (system : ThreadSystem) : ThreadOperation → Prop
  | .threadCreate request memory => system.kernel.Builds request memory →
      ∀ t, system.kernel.Listed t → (system.kernel.threads t).tid ≠ system.kernel.nextTid
  | .threadTerminate tid => ∀ t, tid ≠ 0 → system.kernel.threadFromTid tid = some t →
      if system.kernel.currentThread = some t then system.MayExit t else system.MayTerminate t
  | .threadExit => ∀ t, system.kernel.currentThread = some t → system.MayExit t
  | .resume => ∀ t, system.kernel.currentThread = some t →
      system.resumption t = .threadExit → system.MayExit t
  | _ => True

end ThreadSystem

end Goshkik

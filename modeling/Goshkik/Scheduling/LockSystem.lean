import Goshkik.Lib.Run
import Goshkik.Scheduling.TickMutex

/-!
# Threads that take and release mutexes

This file puts `acquire_mutex`, `release_mutex`, `thread_block` and the enqueueing of
`process_wait` together with the scheduler tick.  A section under a spinlock is one
step, and a timer interrupt may come between any two steps.  What a thread still
has to do inside these calls is its control stack: a contended `acquire_mutex`
calls `thread_block`, which itself calls `acquire_mutex` on the thread mutex, so the
stack can grow without bound.

`thread_block` is declared not to return and ends in a software interrupt.  Its
callers go on behind the call once their thread is dispatched again, and so does the
model.  A tick takes the thread mutex too; a tick that has to wait for it ends the
run, and so do `hcf` and a null pointer.
-/

namespace Goshkik

/-- The address of `thread_mutex`. -/
def threadMutex : ℕ := 0

/-- A step that a thread has to make inside a call. -/
inductive Frame where
  | acquireMutex (m : ℕ)
  | threadFromTid (tid : ℕ)
  | unlockThreadMutex
  | markBlocked (t : Option ℕ)
  | removeFromReadyQueue (t : ℕ)
  | interrupt
  deriving DecidableEq

/-- The call of `thread_block` up to its first mutex. -/
def callThreadBlock (tid : ℕ) : List Frame := [.acquireMutex threadMutex, .threadFromTid tid]

structure LockSystem where
  kernel : Kernel
  phase : TickPhase
  mutexes : ℕ → Mutex
  control : ℕ → List Frame
  stopped : Bool

inductive LockOperation where
  | acquireMutex (m : ℕ)
  | releaseMutex (m : ℕ)
  | processWait (child : ℕ)
  | proceed
  | softwareInterrupt (context : Context)
  | timerInterrupt (context : Context)
  | tickSelect
  | tickConsider
  | tickCleanUp
  deriving DecidableEq

/-- The part of `process_wait` that puts the current thread on the wait list of a child. -/
def Kernel.waitEnqueue (kernel : Kernel) (child current : ℕ) : Option Kernel :=
  let cleared := kernel.setNext current none
  match (kernel.processes child).waitHead with
  | none =>
      some (cleared.modifyProcess child (fun record =>
        { record with waitHead := some current, waitTail := some current }))
  | some _ =>
      match (kernel.processes child).waitTail with
      | none => none
      | some tail =>
          some ((cleared.setNext tail (some current)).modifyProcess child (fun record =>
            { record with waitTail := some current }))

namespace LockSystem

variable (system : LockSystem)

def setControl (t : ℕ) (frames : List Frame) : LockSystem :=
  { system with control := Function.update system.control t frames }

def setMutex (kernel : Kernel) (m : ℕ) (mutex : Mutex) : LockSystem :=
  { system with kernel := kernel, mutexes := Function.update system.mutexes m mutex }

/-- One turn of the loop of `acquire_mutex` by the current thread. -/
def acquireTurn (current m : ℕ) (rest : List Frame) : Option LockSystem :=
  (system.kernel.acquireSection (system.mutexes m)).map (fun answer =>
    (system.setMutex answer.2.1 m answer.2.2).setControl current
      (if answer.1 then rest
        else callThreadBlock (answer.2.1.threads current).tid ++ .acquireMutex m :: rest))

def release (fuel m : ℕ) : Option LockSystem :=
  (system.kernel.releaseMutex fuel (system.mutexes m)).map (fun answer =>
    system.setMutex answer.1 m answer.2)

/-- The step of `thread_block` behind its mutex section. -/
def mark (current : ℕ) (rest : List Frame) : Option ℕ → LockSystem
  | none => { system with stopped := true }
  | some t =>
      if (system.kernel.threads t).tid = 0 then { system with stopped := true }
      else
        { system with kernel := system.kernel.setState t .blocked }.setControl current
          (.removeFromReadyQueue t :: rest)

/-- The next step of the current thread inside the calls it has made. -/
def proceed (fuel current : ℕ) : Option LockSystem :=
  match system.control current with
  | [] => none
  | .acquireMutex m :: rest => system.acquireTurn current m rest
  | .threadFromTid tid :: rest =>
      some (system.setControl current
        (.unlockThreadMutex :: .markBlocked (system.kernel.threadFromTid tid) :: rest))
  | .unlockThreadMutex :: rest =>
      (system.release fuel threadMutex).map (fun released => released.setControl current rest)
  | .markBlocked t :: rest => some (system.mark current rest t)
  | .removeFromReadyQueue t :: rest =>
      (system.kernel.removeFromReadyQueue fuel (some t)).map (fun removed =>
        { system with kernel := removed }.setControl current (.interrupt :: rest))
  | .interrupt :: _ => none

/-- The start of `scheduler_tick`. -/
def interrupt (fuel : ℕ) (context : Context) : Option LockSystem :=
  (system.kernel.tickPrologue fuel context).map (fun saved =>
    { system with kernel := saved, phase := .selecting })

/-- What a tick does under the thread mutex; `none` as the answer of the section means
that the tick has to wait for the mutex. -/
def tickSection (fuel : ℕ) (body : Kernel → Option Kernel) : Option LockSystem :=
  match system.kernel.acquireSection (system.mutexes threadMutex) with
  | none => some { system with stopped := true }
  | some (false, queued, mutex) =>
      some { system.setMutex queued threadMutex mutex with stopped := true }
  | some (true, taken, mutex) =>
      (body taken).bind (fun after =>
        (system.setMutex after threadMutex mutex).release fuel threadMutex)

/-- The choice of the thread to consider, from the queue or from the table. -/
def tickSelect (fuel : ℕ) : Option LockSystem :=
  match system.kernel.readyHead with
  | some _ =>
      some { system with kernel := system.kernel.tickSelect.2, phase := system.kernel.tickSelect.1 }
  | none =>
      (system.tickSection fuel some).map (fun released =>
        match system.kernel.readyInTable.or released.kernel.kernelThreadInTable with
        | some t => { released with phase := .considering t }
        | none => { released with phase := .idle })

def tickConsider (fuel next : ℕ) : Option LockSystem :=
  (system.kernel.tickConsider fuel next).map (fun answer =>
    { system with kernel := answer.2, phase := answer.1 })

def tickCleanUp (fuel : ℕ) : Option LockSystem :=
  (system.tickSection fuel (fun kernel => kernel.cleanUp fuel)).map (fun released =>
    { released with phase := .idle })

/-- A step that the current thread takes outside the tick. -/
def threadStep (fuel current : ℕ) : LockOperation → Option LockSystem
  | .acquireMutex m =>
      if system.control current = [] then some (system.setControl current [.acquireMutex m])
      else none
  | .releaseMutex m => if system.control current = [] then system.release fuel m else none
  | .processWait child =>
      if system.control current = [] ∧ (system.kernel.processes child).state ≠ .zombie ∧
          (system.kernel.processes child).state ≠ .exited then
        (system.kernel.waitEnqueue child current).map (fun queued =>
          { system with kernel := queued }.setControl current
            (callThreadBlock (queued.threads current).tid))
      else none
  | .proceed => system.proceed fuel current
  | .softwareInterrupt context =>
      match system.control current with
      | .interrupt :: rest => (system.setControl current rest).interrupt fuel context
      | _ => none
  | _ => none

def step (fuel : ℕ) (operation : LockOperation) : Option LockSystem :=
  if system.stopped then none
  else
    match system.phase, operation with
    | .idle, .timerInterrupt context => system.interrupt fuel context
    | .idle, operation =>
        system.kernel.currentThread.bind (fun current => system.threadStep fuel current operation)
    | .selecting, .tickSelect => system.tickSelect fuel
    | .considering next, .tickConsider => system.tickConsider fuel next
    | .dispatched, .tickCleanUp => system.tickCleanUp fuel
    | _, _ => none

end LockSystem

def LockStep (before : LockSystem) (operation : LockOperation) (after : LockSystem) : Prop :=
  ∃ fuel, before.step fuel operation = some after

/-- The steps of a list of operations, one after the other, as long as each of them meets
a condition. -/
def LockSystem.steps (guard : LockSystem → LockOperation → Bool) (fuel : ℕ) (system : LockSystem)
    (operations : List LockOperation) : Option LockSystem :=
  operations.foldlM (fun reached operation =>
    if guard reached operation then reached.step fuel operation else none) system

theorem LockSystem.run_of_steps {guard : LockSystem → LockOperation → Bool} {fuel : ℕ}
    {system last : LockSystem} {operations : List LockOperation}
    (returns : system.steps guard fuel operations = some last) :
    Transition.Run (Transition.Guarded (fun before operation => guard before operation = true)
      LockStep) system operations last := by
  induction operations generalizing system with
  | nil =>
      rw [← Option.some.inj returns]
      exact .nil system
  | cons operation operations ih =>
      simp only [LockSystem.steps, List.foldlM_cons] at returns
      rcases Option.bind_eq_some_iff.mp returns with ⟨second, takes, rest⟩
      rw [Option.ite_none_right_eq_some] at takes
      exact .cons ⟨takes.1, fuel, takes.2⟩ (ih rest)

end Goshkik

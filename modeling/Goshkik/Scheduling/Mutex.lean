import Goshkik.Scheduling.Scheduler

/-!
# Mutexes

This file models the sections of `scheduling/mutex.c` that run under the spinlock
of a mutex.  A contended `acquire_mutex` marks the current thread as blocked,
appends it to the waiter list and then calls `thread_block`; the list is threaded
through the same `next` fields as the ready queue.  `release_mutex` gives the
mutex up and makes the first waiter ready.
-/

namespace Goshkik

structure Mutex where
  locked : Bool := false
  owner : Option ℕ := none
  waiterHead : Option ℕ := none
  waiterTail : Option ℕ := none
  waiterCount : ℕ := 0
  deriving DecidableEq

def Mutex.take (mutex : Mutex) (current : Option ℕ) : Mutex :=
  { mutex with locked := true, owner := current }

namespace Kernel

variable (kernel : Kernel)

/-- The current thread appends itself to the waiter list. -/
def queueWaiter (mutex : Mutex) (current : ℕ) : Kernel × Mutex :=
  let marked := (kernel.setState current .blocked).setNext current none
  match mutex.waiterTail with
  | some tail =>
      (marked.setNext tail (some current),
        { mutex with
          waiterTail := some current
          waiterCount := mutex.waiterCount + 1 })
  | none =>
      (marked,
        { mutex with
          waiterHead := some current
          waiterTail := some current
          waiterCount := mutex.waiterCount + 1 })

/-- The section of `acquire_mutex`: the mutex is taken, or the current thread waits.  The
contended path reads through `current_thread`, which must not be null. -/
def acquireSection (mutex : Mutex) : Option (Bool × Kernel × Mutex) :=
  if mutex.locked then
    kernel.currentThread.map (fun current => (false, kernel.queueWaiter mutex current))
  else some (true, kernel, mutex.take kernel.currentThread)

/-- The mutex after its first waiter has been taken off the list. -/
def popWaiter (mutex : Mutex) (waiter : ℕ) : Mutex :=
  { mutex with
    waiterHead := kernel.nextOf waiter
    waiterTail := if kernel.nextOf waiter = none then none else mutex.waiterTail
    waiterCount := mutex.waiterCount - 1 }

/-- The section of `release_mutex`. -/
def releaseMutex (fuel : ℕ) (mutex : Mutex) : Option (Kernel × Mutex) :=
  if mutex.owner ≠ kernel.currentThread then some (kernel, mutex)
  else
    let freed := { mutex with locked := false, owner := none }
    match mutex.waiterHead with
    | none => some (kernel, freed)
    | some waiter =>
        ((kernel.setState waiter .ready).addToReadyQueue fuel (some waiter)).map
          (fun woken => (woken, kernel.popWaiter freed waiter))

end Kernel

end Goshkik

import Goshkik.Lib.Linked
import Goshkik.Scheduling.Kernel

/-!
# The ready queue

This file models the queue functions of `scheduling/scheduler.c`.  The queue is
threaded through the `next` fields of the thread records and has a head and a
tail pointer.  Lock operations are left out: each function is one atomic step.

The loops of `add_to_ready_queue` and `remove_from_ready_queue` run on fuel, and
appending to a queue with a head but no tail writes through a null pointer; in
both cases the answer is `none`.
-/

namespace Goshkik

/-- Smaller strides get more attention. -/
def priorityToStride : ThreadPriority → ℤ
  | .immediate => 1
  | .important => 2
  | .high => 4
  | .normal => 8
  | .bg => 16
  | .low => 32
  | .levels => 8

namespace Kernel

variable (kernel : Kernel)

def nextOf (t : ℕ) : Option ℕ := (kernel.threads t).next

/-- Link a thread behind the tail.  `thread_create` and `thread_unblock` carry a
copy of this code. -/
def appendReady (t : ℕ) : Option Kernel :=
  match kernel.readyHead with
  | none => some { kernel with readyHead := some t, readyTail := some t }
  | some _ =>
      match kernel.readyTail with
      | none => none
      | some tail => some { kernel.setNext tail (some t) with readyTail := some t }

def enqueueReadyTail (t : ℕ) : Option Kernel :=
  (kernel.setNext t none).appendReady t

/-- `dequeue_ready_head`, where the queue has the given head. -/
def dequeueReadyHead (head : ℕ) : Kernel :=
  let rest := { kernel with
    readyHead := kernel.nextOf head
    readyTail := if kernel.nextOf head = none then none else kernel.readyTail }
  rest.setNext head none

def addToReadyQueue (fuel : ℕ) : Option ℕ → Option Kernel
  | none => some kernel
  | some t =>
      if (kernel.threads t).state = .termed then some kernel
      else
        match scan kernel.nextOf (· == t) fuel none kernel.readyHead with
        | none => none
        | some (_, some _) => some kernel
        | some (_, none) => ((kernel.setNext t none).setState t .ready).enqueueReadyTail t

/-- The body of the loop of `remove_from_ready_queue` at the thread it looks for. -/
def unlinkReady (prev : Option ℕ) (t : ℕ) : Kernel :=
  let bypassed :=
    match prev with
    | none => { kernel with readyHead := kernel.nextOf t }
    | some before => kernel.setNext before (kernel.nextOf t)
  { bypassed with
    readyTail := if bypassed.readyTail = some t then prev else bypassed.readyTail }.setNext t none

def removeFromReadyQueue (fuel : ℕ) : Option ℕ → Option Kernel
  | none => some kernel
  | some t =>
      match scan kernel.nextOf (· == t) fuel none kernel.readyHead with
      | none => none
      | some (_, none) => some kernel
      | some (prev, some found) => some (kernel.unlinkReady prev found)

end Kernel

end Goshkik

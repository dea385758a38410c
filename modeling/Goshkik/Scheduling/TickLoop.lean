import Mathlib.Algebra.GroupWithZero.Nat
import Mathlib.Algebra.Order.BigOperators.Group.List
import Mathlib.Algebra.Order.Group.Nat
import Goshkik.Scheduling.QueueShape

/-!
# The selection loop of the scheduler tick

What one turn of the loop of `scheduler_tick` does at a well-formed queue, and a
measure that falls with every turn that puts a thread back or terminates it.
-/

namespace Goshkik

namespace Kernel

/-- How often a thread can still be put back on the queue or be terminated. -/
def work (kernel : Kernel) (t : ℕ) : ℕ :=
  if (kernel.threads t).state = .termed then 0 else (kernel.threads t).cooldown.toNat + 1

variable {kernel after : Kernel} {queue rest pool : List ℕ} {t : ℕ}

theorem Relinked.work (relinked : Relinked kernel after) : after.work = kernel.work := by
  funext t
  rw [Kernel.work, Kernel.work, relinked.state, relinked.cooldown]

theorem Relinked.ownedByZombie (relinked : Relinked kernel after) (t : ℕ) :
    after.ownedByZombie t = kernel.ownedByZombie t := by
  simp only [Kernel.ownedByZombie, relinked.proc, relinked.processes]

/-- The kernel in which one of the cooldown of a thread is used up. -/
def cool (kernel : Kernel) (t : ℕ) : Kernel :=
  kernel.modifyThread t (fun record => { record with cooldown := record.cooldown - 1 })

theorem IsReadyQueue.cool (isQueue : kernel.IsReadyQueue queue) (t : ℕ) :
    (kernel.cool t).IsReadyQueue queue :=
  isQueue.modifyThread rfl

/-- A turn that puts a cooling thread back on the queue. -/
theorem tickConsider_cooling (unblocked : (kernel.threads t).state ≠ .blocked)
    (alive : (kernel.threads t).state ≠ .termed) (cooling : 0 < (kernel.threads t).cooldown)
    (runs : (kernel.cool t).enqueueReadyTail t = some after) (fuel : ℕ) :
    kernel.tickConsider fuel t = some (.selecting, after) := by
  rw [cool] at runs
  rw [tickConsider, if_neg (by simp [unblocked, alive]), if_pos cooling, runs]
  rfl

/-- The kernel after the loop has terminated a user thread without a kernel stack. -/
def discard (kernel : Kernel) (t : ℕ) : Kernel :=
  (kernel.modifyThread t (fun record =>
    { record with cooldown := priorityToStride record.priority - 1 })).setState t .termed

theorem discard_threads_ne {other : ℕ} (different : other ≠ t) :
    (kernel.discard t).threads other = kernel.threads other := by
  rw [discard, setState, modifyThread_threads_ne _ _ _ different,
    modifyThread_threads_ne _ _ _ different]

theorem IsReadyQueue.discard (isQueue : kernel.IsReadyQueue queue) :
    (kernel.discard t).IsReadyQueue queue := by
  unfold Kernel.discard setState
  exact (isQueue.modifyThread rfl).modifyThread rfl

theorem discard_state : ((kernel.discard t).threads t).state = .termed := by
  simp [discard, setState]

/-- A turn that terminates a user thread without a kernel stack. -/
theorem tickConsider_discard (unblocked : (kernel.threads t).state ≠ .blocked)
    (alive : (kernel.threads t).state ≠ .termed) (cool : ¬ 0 < (kernel.threads t).cooldown)
    (stackless : (kernel.threads t).privilege = .ring3 ∧ (kernel.threads t).kernelStack = 0)
    (fuel : ℕ) : kernel.tickConsider fuel t = some (.selecting, kernel.discard t) := by
  rw [tickConsider, if_neg (by simp [unblocked, alive]), if_neg cool]
  exact if_pos stackless

/-- A turn that removes a thread which is off the queue anyway. -/
theorem tickConsider_removed (isQueue : kernel.IsReadyQueue queue) (absent : t ∉ queue)
    (removed : (kernel.threads t).state = .blocked ∨ (kernel.threads t).state = .termed)
    {fuel : ℕ} (enough : queue.length < fuel) :
    kernel.tickConsider fuel t = some (.selecting, kernel) := by
  rw [tickConsider, if_pos removed, removeFromReadyQueue,
    scan_missing isQueue.linked (skips_of_notMem absent) enough]
  rfl

/-- The kernel after the loop has dispatched a thread. -/
def dispatch (kernel : Kernel) (t : ℕ) : Kernel :=
  { kernel.modifyThread t (fun record =>
      { record with cooldown := priorityToStride record.priority - 1 }) with
    currentThread := some t }.setState t .running

theorem dispatch_threads_ne {other : ℕ} (different : other ≠ t) :
    (kernel.dispatch t).threads other = kernel.threads other := by
  have cooled : (kernel.modifyThread t (fun record =>
      { record with cooldown := priorityToStride record.priority - 1 })).threads other =
        kernel.threads other :=
    modifyThread_threads_ne kernel t _ different
  rw [dispatch, setState, modifyThread_threads_ne _ _ _ different]
  exact cooled

theorem IsReadyQueue.dispatch (isQueue : kernel.IsReadyQueue queue) :
    (kernel.dispatch t).IsReadyQueue queue := by
  refine @congr kernel (kernel.dispatch t) queue isQueue rfl rfl ?_
  intro node _
  by_cases same : node = t
  · subst same
    simp [Kernel.dispatch, setState, nextOf]
  · rw [nextOf, nextOf, dispatch_threads_ne same]

/-- A turn that dispatches the thread. -/
theorem tickConsider_dispatch (unblocked : (kernel.threads t).state ≠ .blocked)
    (alive : (kernel.threads t).state ≠ .termed) (cool : ¬ 0 < (kernel.threads t).cooldown)
    (stack : ¬ ((kernel.threads t).privilege = .ring3 ∧ (kernel.threads t).kernelStack = 0))
    (fuel : ℕ) : kernel.tickConsider fuel t = some (.dispatched, kernel.dispatch t) := by
  rw [tickConsider, if_neg (by simp [unblocked, alive]), if_neg cool]
  exact if_neg stack

end Kernel

end Goshkik

import Goshkik.Scheduling.Mutex
import Goshkik.Scheduling.TickLoop

/-!
# The thread mutex during a tick

`scheduler_tick` takes `thread_mutex` when it scans the thread table and again in
the `clean_up` after a dispatch.  The mutex is a sleeping lock: if the interrupted
thread is inside one of its sections, the tick itself goes to sleep.  A tick whose
loop ends gets to one of the two places, so it contends for the mutex exactly if
the mutex is locked when the interrupt arrives.
-/

namespace Goshkik

namespace Kernel

/-- The scan of the table that runs under the mutex. -/
def readyInTable (kernel : Kernel) : Option ℕ :=
  (List.range' 1 (maxThreads - 1)).findSome? (fun i =>
    (kernel.threadTable i).filter (fun t => (kernel.threads t).state = .ready))

/-- The kernel thread, which is looked at after the mutex has been released. -/
def kernelThreadInTable (kernel : Kernel) : Option ℕ :=
  (kernel.threadTable 0).filter (fun t => (kernel.threads t).state ≠ .termed)

/-- Whether the selection loop takes the contended path of `acquire_mutex(&thread_mutex)`
within a number of turns. -/
def loopContends : ℕ → Kernel → Mutex → TickPhase → Bool
  | 0, _, _, _ => false
  | _ + 1, _, _, .idle => false
  | fuel + 1, kernel, mutex, .selecting =>
      match kernel.readyHead with
      | some _ => loopContends fuel kernel.tickSelect.2 mutex kernel.tickSelect.1
      | none =>
          if mutex.locked then true
          else
            match kernel.releaseMutex fuel (mutex.take kernel.currentThread) with
            | none => false
            | some (after, released) =>
                match kernel.readyInTable.or after.kernelThreadInTable with
                | some t => loopContends fuel after released (.considering t)
                | none => false
  | fuel + 1, kernel, mutex, .considering next =>
      match kernel.tickConsider fuel next with
      | none => false
      | some (phase, after) => loopContends fuel after mutex phase
  | _ + 1, _, mutex, .dispatched => mutex.locked

variable {kernel after : Kernel} {mutex : Mutex} {queue rest pool : List ℕ} {t : ℕ}

/-! ## A free mutex stays free -/

/-- The loop contends for the mutex, given enough turns. -/
def Contends (kernel : Kernel) (mutex : Mutex) (phase : TickPhase) : Prop :=
  ∃ enough, ∀ fuel, enough ≤ fuel → loopContends fuel kernel mutex phase = true

theorem Contends.selecting {head : ℕ} (isHead : kernel.readyHead = some head)
    (contends : kernel.tickSelect.2.Contends mutex kernel.tickSelect.1) :
    kernel.Contends mutex .selecting := by
  rcases contends with ⟨enough, eventually⟩
  refine ⟨enough + 1, fun fuel more => ?_⟩
  cases fuel with
  | zero => omega
  | succ fuel =>
      simp only [loopContends, isHead]
      exact eventually fuel (by omega)

theorem Contends.considering {phase : TickPhase} (least : ℕ)
    (runs : ∀ fuel, least ≤ fuel → kernel.tickConsider fuel t = some (phase, after))
    (contends : after.Contends mutex phase) : kernel.Contends mutex (.considering t) := by
  rcases contends with ⟨enough, eventually⟩
  refine ⟨max enough least + 1, fun fuel more => ?_⟩
  cases fuel with
  | zero => omega
  | succ fuel =>
      simp only [loopContends, runs fuel (by omega)]
      exact eventually fuel (by omega)

end Kernel

end Goshkik

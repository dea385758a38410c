import Goshkik.Scheduling.LinkExclusivity
import Goshkik.Scheduling.LockPrograms

/-!
# The order of the locks

Most operations take `thread_mutex` before the lock of the process table and both before
the lock of a process.  Three sections turn this order round: `wake_waiters` unblocks
threads under the lock of a process, `process_terminate` terminates the main thread
under it, and `process_wait` blocks under it.  As long as these sections find nothing
to unblock, to terminate and to wait for, all locks are taken in order and no
circle of waiting threads arises.
-/

namespace Goshkik

/-- `thread_mutex`, the process table, then the processes. -/
def KernelLock.rank : KernelLock → ℕ
  | .threadMutex => 0
  | .processTable => 1
  | .process p => p + 2

/-- There is nobody to wake, no main thread to terminate, or nothing to wait for. -/
def LockSite.inOrder : LockSite → Kernel → Bool
  | .plain, _ => true
  | .wakeWaiters p, kernel => (kernel.processes p).waitHead = none
  | .terminateMain p, kernel =>
      (kernel.processes p).mainThread.all (fun t => (kernel.threads t).tid = 0)
  | .waitForChild child, kernel => (kernel.processes child).state.isOver

def LockSite.InOrder (site : LockSite) (kernel : Kernel) : Prop := site.inOrder kernel = true

namespace KernelProgram

/-- The program takes its locks in order when the given ones are held. -/
def InOrder (held : List KernelLock) (program : KernelProgram) : Prop :=
  program.Ordered KernelLock.rank LockSite.InOrder held

variable {held : List KernelLock} {lock : KernelLock} {next : KernelProgram} {fuel self t p : ℕ}

theorem inOrder_run {site : LockSite} {effect : Kernel → Kernel} {next : Kernel → KernelProgram}
    (rest : ∀ kernel, site.InOrder kernel → InOrder held (next kernel)) :
    InOrder held (.run site effect next) :=
  rest

theorem inOrder_acquire (below : ∀ other ∈ held, other.rank < lock.rank)
    (rest : InOrder (lock :: held) next) : InOrder held (.acquire lock next) :=
  ⟨below, rest⟩

theorem inOrder_inspect {next : Kernel → KernelProgram}
    (rest : ∀ kernel, InOrder held (next kernel)) : InOrder held (inspect next) :=
  fun kernel _ => rest kernel

theorem inOrder_update {effect : Kernel → Kernel} (rest : InOrder held next) :
    InOrder held (update effect next) :=
  fun _ _ => rest

theorem inOrder_attempt {effect : Kernel → Option Kernel} (rest : InOrder held next) :
    InOrder held (attempt effect next) := by
  apply inOrder_run
  intro kernel _
  split
  · exact rest
  · trivial

theorem inOrder_release (rest : InOrder held next) :
    InOrder (lock :: held) (.release lock next) := by
  unfold InOrder LockProgram.Ordered
  rw [List.erase_cons_head]
  exact rest

theorem inOrder_locked {effect : Kernel → Kernel} {next : Kernel → KernelProgram}
    (below : ∀ other ∈ held, other.rank < lock.rank)
    (rest : ∀ kernel, InOrder held (next kernel)) : InOrder held (locked lock effect next) :=
  ⟨below, fun kernel _ => inOrder_release (rest kernel)⟩

theorem inOrder_processFromPid {pid : ℤ} {next : Option ℕ → KernelProgram}
    (below : ∀ other ∈ held, other.rank < KernelLock.processTable.rank)
    (rest : ∀ found, InOrder held (next found)) : InOrder held (processFromPid pid next) := by
  unfold processFromPid
  split
  · exact rest none
  · apply inOrder_locked below
    exact fun kernel => rest _

/-- The thread mutex comes before every other lock. -/
theorem threadMutex_below (notMutex : lock ≠ .threadMutex) :
    ∀ other ∈ [KernelLock.threadMutex], other.rank < lock.rank := by
  intro other mem
  rcases List.mem_singleton.mp mem
  cases lock with
  | threadMutex => exact absurd rfl notMutex
  | processTable => decide
  | process p => simp [KernelLock.rank]

theorem none_below : ∀ other ∈ ([] : List KernelLock), other.rank < lock.rank := by
  intro other mem
  simp at mem

theorem inOrder_claimSlot {next : Option ℕ → KernelProgram}
    (rest : ∀ answer, InOrder [] (next answer)) :
    InOrder [.threadMutex] (claimSlot t next) := by
  apply inOrder_run
  intro kernel _
  split
  · exact inOrder_release (rest none)
  · apply inOrder_release
    exact inOrder_attempt (rest (some t))

theorem inOrder_threadCreate {request : ThreadRequest} {memory : ThreadMemory}
    {next : Option ℕ → KernelProgram} (rest : ∀ answer, InOrder [] (next answer)) :
    InOrder [] (threadCreate request memory next) := by
  unfold threadCreate
  split
  · exact rest none
  · apply inOrder_acquire none_below
    apply inOrder_run
    intro kernel _
    split
    · exact inOrder_release (rest none)
    · apply inOrder_processFromPid (threadMutex_below (by simp))
      intro owner
      cases owner with
      | none => exact inOrder_claimSlot rest
      | some p =>
          apply inOrder_locked (threadMutex_below (by simp))
          exact fun _ => inOrder_claimSlot rest

theorem inOrder_threadUnblock {tid : ℕ} (rest : InOrder [] next) :
    InOrder [] (threadUnblock tid next) := by
  apply inOrder_locked none_below
  intro kernel
  split
  · exact rest
  · exact inOrder_attempt rest

theorem inOrder_wakeWaiters (rest : InOrder [] next) : InOrder [] (wakeWaiters fuel p next) := by
  apply inOrder_acquire none_below
  apply inOrder_run
  intro kernel empty
  have noWaiter : (kernel.processes p).waitHead = none := of_decide_eq_true empty
  rw [noWaiter]
  have cleared : InOrder [.process p] (update (fun kernel => kernel.modifyProcess p (fun record =>
      { record with waitHead := none, waitTail := none })) (.release (.process p) next)) :=
    inOrder_update (inOrder_release rest)
  cases fuel with
  | zero => exact cleared
  | succ fuel => exact cleared

theorem inOrder_exitEnd : InOrder [] (exitEnd self) := by
  apply inOrder_locked none_below
  intro kernel
  apply inOrder_update
  trivial

theorem inOrder_threadExit : InOrder [] (threadExit fuel self) := by
  apply inOrder_inspect
  intro kernel
  split
  · trivial
  · split
    · exact inOrder_exitEnd
    · apply inOrder_locked none_below
      intro kernel
      split
      · exact inOrder_wakeWaiters inOrder_exitEnd
      · exact inOrder_exitEnd

theorem inOrder_terminateEnd (rest : InOrder [] next) :
    InOrder [.threadMutex] (terminateEnd fuel t next) := by
  apply inOrder_update
  apply inOrder_release
  exact inOrder_attempt rest

theorem inOrder_threadTerminate {tid : ℕ} (rest : InOrder [] next) :
    InOrder [] (threadTerminate fuel self tid next) := by
  unfold threadTerminate
  split
  · exact rest
  · apply inOrder_acquire none_below
    apply inOrder_run
    intro kernel _
    split
    · exact inOrder_release rest
    · split
      · exact inOrder_release inOrder_threadExit
      · split
        · exact inOrder_terminateEnd rest
        · apply inOrder_locked (threadMutex_below (by simp))
          exact fun _ => inOrder_terminateEnd rest

theorem inOrder_cleanUpSlots (slots : List ℕ) (rest : InOrder [.threadMutex] next) :
    InOrder [.threadMutex] (cleanUpSlots fuel slots next) := by
  induction slots with
  | nil => exact rest
  | cons slot slots ih =>
      apply inOrder_inspect
      intro kernel
      split
      · exact ih
      · split
        · apply inOrder_attempt
          split
          · exact inOrder_update ih
          · apply inOrder_locked (threadMutex_below (by simp))
            exact fun _ => inOrder_update ih
        · exact ih

theorem inOrder_cleanUp (rest : InOrder [] next) : InOrder [] (cleanUp fuel next) := by
  apply inOrder_acquire none_below
  apply inOrder_cleanUpSlots
  exact inOrder_release rest

theorem inOrder_processCreate {request : ProcessRequest} {block addressSpace : ℕ}
    {memory : ThreadMemory} {next : Option ℕ → KernelProgram}
    (rest : ∀ answer, InOrder [] (next answer)) :
    InOrder [] (processCreate request block addressSpace memory next) := by
  apply inOrder_locked none_below
  intro kernel
  split
  · exact rest none
  · split
    · exact rest (some block)
    · apply inOrder_inspect
      intro kernel
      apply inOrder_threadCreate
      intro answer
      cases answer with
      | none =>
          apply inOrder_locked none_below
          exact fun _ => rest none
      | some t => exact inOrder_update (rest (some block))

theorem inOrder_processExit {code : ℤ} : InOrder [] (processExit fuel self code) := by
  apply inOrder_inspect
  intro kernel
  apply inOrder_processFromPid none_below
  intro found
  cases found with
  | none => trivial
  | some p =>
      apply inOrder_locked none_below
      exact fun _ => inOrder_wakeWaiters inOrder_threadExit

theorem inOrder_processTerminate {pid : ℤ} (rest : InOrder [] next) :
    InOrder [] (processTerminate fuel self pid next) := by
  unfold processTerminate
  split
  · exact rest
  · apply inOrder_processFromPid none_below
    intro found
    cases found with
    | none => exact rest
    | some p =>
        apply inOrder_acquire none_below
        apply inOrder_run
        intro kernel noMain
        split
        · exact inOrder_release rest
        · rename_i t isMain
          have kernelThread : (kernel.threads t).tid = 0 := by
            simpa [LockSite.InOrder, LockSite.inOrder, isMain] using noMain
          unfold threadTerminate
          rw [if_pos kernelThread]
          exact inOrder_release rest

theorem inOrder_processCleanup {child index : ℕ} {pid : ℤ} (rest : InOrder [] next) :
    InOrder [] (processCleanup child index pid next) := by
  apply inOrder_locked none_below
  exact fun _ => rest

theorem inOrder_processWait {pid : ℤ} (rest : InOrder [] next) :
    InOrder [] (processWait fuel self pid next) := by
  apply inOrder_inspect
  intro start
  apply inOrder_locked none_below
  intro kernel
  split
  · exact rest
  · apply inOrder_acquire none_below
    apply inOrder_run
    intro kernel isOver
    split
    · apply inOrder_release
      exact inOrder_processCleanup rest
    · exact absurd isOver ‹_›

end KernelProgram

/-- Every public operation takes its locks in order. -/
theorem PublicCall.inOrder (call : PublicCall) (fuel self : ℕ) :
    KernelProgram.InOrder [] (call.program fuel self) := by
  have ended : KernelProgram.InOrder [] .done := trivial
  have below := @KernelProgram.none_below
  cases call with
  | threadCreate request memory => exact KernelProgram.inOrder_threadCreate (fun _ => ended)
  | threadUnblock tid => exact KernelProgram.inOrder_threadUnblock ended
  | threadTerminate tid => exact KernelProgram.inOrder_threadTerminate ended
  | threadExit => exact KernelProgram.inOrder_threadExit
  | cleanUp => exact KernelProgram.inOrder_cleanUp ended
  | wakeWaiters p => exact KernelProgram.inOrder_wakeWaiters ended
  | processAddThread p t => exact KernelProgram.inOrder_locked below (fun _ => ended)
  | processRemoveThread p t => exact KernelProgram.inOrder_locked below (fun _ => ended)
  | processCreate request block addressSpace memory =>
      rw [PublicCall.program]
      exact KernelProgram.inOrder_processCreate (fun _ => ended)
  | processExit code => exact KernelProgram.inOrder_processExit
  | processTerminate pid => exact KernelProgram.inOrder_processTerminate ended
  | processWait pid =>
      rw [PublicCall.program]
      exact KernelProgram.inOrder_processWait ended

abbrev KernelThreads := LockThreads Kernel KernelLock LockSite

/-- The programs that a thread may start. -/
def publicPrograms (thread : ℕ) (program : KernelProgram) : Prop :=
  ∃ (call : PublicCall) (fuel : ℕ), program = call.program fuel thread

/-- No operation is under way. -/
def KernelThreads.Idle (threads : KernelThreads) : Prop :=
  (∀ thread, threads.program thread = .done) ∧ ∀ lock, threads.owner lock = none

end Goshkik

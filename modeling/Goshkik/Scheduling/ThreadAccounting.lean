import Goshkik.Scheduling.ThreadHeap

/-!
# The count of the threads and threads that are not created

`thread_create` compares `thread_count` with the size of the table before it allocates anything.
The count is exact and the kernel thread never leaves its slot, so that a thread which has been
built finds a slot among the others.  The calls that return `NULL` give up early and free what
they have allocated.
-/

namespace Goshkik

open Transition

namespace Kernel

variable {kernel after : Kernel} {calls : List HeapCall} {k : ℕ} {request : ThreadRequest}
  {memory : ThreadMemory} {answer : Option ℕ}

/-- Every call of `thread_create` that returns `NULL` frees what it has allocated. -/
theorem threadCreateLogged_settled
    (runs : kernel.threadCreateLogged request memory = some ((none, after), calls)) :
    HeapCall.Settled calls := by
  unfold threadCreateLogged at runs
  split at runs
  · cases runs
    exact fun _ => rfl
  split at runs
  · rename_i null
    cases runs
    intro loan
    simp [HeapCall.settle, null]
  rename_i allocated
  split at runs
  · cases runs
    exact settled_giveUp request kernel.nextTid allocated
  generalize kernel.buildThread request memory = built at runs
  simp only at runs
  split at runs
  · cases runs
    exact settled_giveUp request kernel.nextTid allocated
  · rcases Option.map_eq_some_iff.mp runs with ⟨queued, _, equation⟩
    cases equation

theorem Roll.threadCreate_null (roll : kernel.Roll k)
    (runs : kernel.threadCreateLogged request memory = some ((none, after), calls)) :
    { after with nextTid := kernel.nextTid } = kernel := by
  have creates : kernel.threadCreate request memory = some (none, after) := by
    rw [← threadCreateLogged_map_fst, runs]
    rfl
  rcases threadCreate_cases creates with
    ⟨_, _, rfl | rfl⟩ | ⟨builds, _, full⟩ | ⟨_, returns, _⟩
  · rfl
  · rfl
  · exact absurd full (roll.freeThreadSlot_ne_none builds)
  · cases returns

end Kernel

/-- In every state that the threads reach, the count is the number of the threads in the table,
the kernel thread is in the first slot, and a thread that has been built finds a slot.  A call
of `thread_create` that returns `NULL` changes at most the next thread id and frees every block
it has allocated. -/
theorem thread_table_accounts {first : Machine} (booted : first.Booted) :
    ∃ k, first.kernel.currentThread = some k ∧
      ∀ operations last, Run IsolationStep (Isolation.start first) operations last →
        last.machine.kernel.threadCount = last.machine.kernel.occupied.card ∧
        last.machine.kernel.HoldsKernelThread k ∧
        (∀ request memory, last.machine.kernel.Builds request memory →
          (last.machine.kernel.buildThread request memory).freeThreadSlot ≠ none) ∧
        ∀ request memory after calls,
          last.machine.kernel.threadCreateLogged request memory = some ((none, after), calls) →
            { after with nextTid := last.machine.kernel.nextTid } = last.machine.kernel ∧
              HeapCall.Settled calls := by
  rcases booted.roll_run with ⟨k, isCurrent, rolls⟩
  refine ⟨k, isCurrent, fun operations last run => ?_⟩
  have roll := rolls operations last run
  refine ⟨roll.count, roll.toHoldsKernelThread, fun request memory builds => ?_,
    fun request memory after calls runs => ⟨roll.threadCreate_null runs,
      Kernel.threadCreateLogged_settled runs⟩⟩
  rw [Kernel.buildThread_freeThreadSlot]
  exact roll.freeThreadSlot_ne_none builds

/-- A user thread that gets a stack but no kernel stack is not created. -/
theorem thread_table_accounts_started :
    startedKernel.threadCount = startedKernel.occupied.card ∧
      ∃ after, startedKernel.threadCreateLogged
          { kernelThreadRequest with privilege := .ring3 } ⟨0x1200, 0x2000, 0⟩ =
        some ((none, after), [.kmalloc 264 0x1200, .kmalloc 0x4000 0x2000, .kmalloc 0x8000 0,
          .kfree 0x2000, .kfree 0x1200]) ∧
        { after with nextTid := startedKernel.nextTid } = startedKernel := by
  rcases thread_table_accounts startedMachine_booted with ⟨k, _, accounts⟩
  rcases accounts [] _ (.nil _) with ⟨count, _, _, gaveUp⟩
  simp only [Isolation.start, startedMachine] at count gaveUp
  have calls : (startedKernel.threadCreateLogged
      { kernelThreadRequest with privilege := .ring3 } ⟨0x1200, 0x2000, 0⟩).map
        (fun answer => (answer.1.1, answer.2)) =
      some (none, [.kmalloc 264 0x1200, .kmalloc 0x4000 0x2000, .kmalloc 0x8000 0,
        .kfree 0x2000, .kfree 0x1200]) := by
    decide +kernel
  rcases Option.map_eq_some_iff.mp calls with ⟨⟨⟨answer, after⟩, log⟩, runs, equation⟩
  simp only [Prod.mk.injEq] at equation
  rcases equation with ⟨rfl, rfl⟩
  exact ⟨count, after, runs, (gaveUp _ _ _ _ runs).1⟩

end Goshkik

import Goshkik.Scheduling.KernelThread
import Goshkik.Scheduling.ReapOnce

/-!
# The processes of the threads

The steps of `process_wait` and `process_create` are put together with the scheduler and
the operations on threads.  `process_exit` is the section that makes the process a zombie,
`wake_waiters` and `thread_exit`; `process_terminate` ends the main thread between taking
and releasing the lock of the process.

`process_cleanup` does not ask whether the child still has threads.  A thread of a freed
process keeps its pointer until `clean_up` follows it.
-/

namespace Goshkik

namespace Kernel

/-- The process of every thread in the table has not been freed. -/
def ProcsLive (kernel : Kernel) : Prop :=
  ∀ t p, kernel.Listed t → (kernel.threads t).proc = some p → p ∈ kernel.processBlocks

/-- Every thread in the table had its process before, or got one from the process table,
which has not changed. -/
structure KeepsProcs (before after : Kernel) : Prop where
  same : SameProcesses before after
  procs : ∀ t p, after.Listed t → (after.threads t).proc = some p →
    (before.Listed t ∧ (before.threads t).proc = some p) ∨ ∃ i, before.processTable i = some p

namespace KeepsProcs

variable {kernel middle after : Kernel} {fuel t p tid : ℕ}

theorem trans (first : KeepsProcs kernel middle) (second : KeepsProcs middle after) :
    KeepsProcs kernel after where
  same := first.same.trans second.same
  procs t p listed isProc := by
    rcases second.procs t p listed isProc with ⟨before, isProc⟩ | ⟨i, inTable⟩
    · exact first.procs t p before isProc
    · rw [first.same.table] at inTable
      exact .inr ⟨i, inTable⟩

/-- No thread is put into the table and none changes its process. -/
theorem of_proc (same : SameProcesses kernel after)
    (listed : ∀ t, after.Listed t → kernel.Listed t)
    (proc : ∀ t, (after.threads t).proc = (kernel.threads t).proc) : KeepsProcs kernel after where
  same := same
  procs t p isListed isProc := by
    rw [proc] at isProc
    exact .inl ⟨listed t isListed, isProc⟩

theorem refl (kernel : Kernel) : KeepsProcs kernel kernel :=
  of_proc ⟨rfl, rfl, fun _ => rfl⟩ (fun _ => id) (fun _ => rfl)

theorem of_relinked (relinked : Relinked kernel after) : KeepsProcs kernel after := by
  refine of_proc (.of_relinked relinked) ?_ relinked.proc
  intro t
  unfold Listed
  rw [relinked.threadTable]
  exact id

/-- Writing other fields of a thread. -/
theorem modifyThread {change : Thread → Thread}
    (proc : ∀ record, (change record).proc = record.proc) :
    KeepsProcs kernel (kernel.modifyThread t change) := by
  refine of_proc ⟨rfl, rfl, fun _ => rfl⟩ (fun _ => id) ?_
  intro other
  by_cases same : other = t
  · subst same
    rw [modifyThread_threads_same, proc]
  · rw [modifyThread_threads_ne _ _ _ same]

theorem setState (state : ThreadState) : KeepsProcs kernel (kernel.setState t state) :=
  modifyThread (fun _ => rfl)

theorem modifyProcess {change : Process → Process}
    (pid : ∀ record, (change record).pid = record.pid) :
    KeepsProcs kernel (kernel.modifyProcess p change) :=
  of_proc (.modifyProcess pid) (fun _ => id) (fun _ => rfl)

theorem setCurrent (current : Option ℕ) :
    KeepsProcs kernel { kernel with currentThread := current } :=
  of_proc ⟨rfl, rfl, fun _ => rfl⟩ (fun _ => id) (fun _ => rfl)

theorem enqueueReadyTail (runs : kernel.enqueueReadyTail t = some after) :
    KeepsProcs kernel after :=
  of_relinked (.enqueueReadyTail runs)

theorem removeFromReadyQueue {target : Option ℕ}
    (runs : kernel.removeFromReadyQueue fuel target = some after) : KeepsProcs kernel after :=
  of_relinked (.removeFromReadyQueue runs)

theorem addToReadyQueue {target : Option ℕ}
    (runs : kernel.addToReadyQueue fuel target = some after) : KeepsProcs kernel after := by
  cases target with
  | none =>
      rw [← Option.some.inj runs]
      exact refl kernel
  | some t =>
      simp only [Kernel.addToReadyQueue] at runs
      split at runs
      · rw [← Option.some.inj runs]
        exact refl kernel
      · split at runs
        · simp at runs
        · rw [← Option.some.inj runs]
          exact refl kernel
        · have ready : KeepsProcs kernel ((kernel.setNext t none).setState t .ready) :=
            (of_relinked (.setNext kernel t none)).trans (setState .ready)
          exact ready.trans (enqueueReadyTail runs)

theorem threadUnblock {answer : ℤ} (runs : kernel.threadUnblock tid = some (answer, after)) :
    KeepsProcs kernel after := by
  simp only [Kernel.threadUnblock] at runs
  split at runs
  · simp only [Option.some.injEq, Prod.mk.injEq] at runs
    rw [← runs.2]
    exact refl kernel
  · rename_i t _
    split at runs
    · simp only [Option.some.injEq, Prod.mk.injEq] at runs
      rw [← runs.2]
      exact refl kernel
    · simp only [Option.map_eq_some_iff, Prod.mk.injEq] at runs
      rcases runs with ⟨queued, appends, _, rfl⟩
      have ready : KeepsProcs kernel ((kernel.setState t .ready).setNext t none) :=
        (setState .ready).trans (of_relinked (.setNext _ t none))
      exact ready.trans (of_relinked (.appendReady appends))

theorem wakeFrom {cur : Option ℕ} (runs : Kernel.wakeFrom fuel kernel cur = some after) :
    KeepsProcs kernel after := by
  induction fuel generalizing kernel cur with
  | zero =>
      cases cur with
      | none =>
          rw [← Option.some.inj runs]
          exact refl _
      | some waiter => simp [Kernel.wakeFrom] at runs
  | succ fuel ih =>
      cases cur with
      | none =>
          rw [← Option.some.inj runs]
          exact refl _
      | some waiter =>
          rcases Option.bind_eq_some_iff.mp runs with ⟨⟨answer, woken⟩, unblocks, wakes⟩
          exact (threadUnblock unblocks).trans (ih wakes)

theorem wakeWaiters (runs : kernel.wakeWaiters fuel p = some after) : KeepsProcs kernel after := by
  rcases Option.map_eq_some_iff.mp runs with ⟨woken, wakes, rfl⟩
  exact (wakeFrom wakes).trans (modifyProcess (fun _ => rfl))

theorem leaveProcess (runs : kernel.leaveProcess fuel t = some after) :
    KeepsProcs kernel after := by
  simp only [Kernel.leaveProcess] at runs
  split at runs
  · rw [← Option.some.inj runs]
    exact refl kernel
  · rename_i p _
    split at runs
    · have left : KeepsProcs kernel (kernel.modifyProcess p (fun record =>
          { record with exitCode := 0, state := .zombie })) :=
        modifyProcess (fun _ => rfl)
      exact left.trans (wakeWaiters runs)
    · rw [← Option.some.inj runs]
      exact refl kernel

theorem threadBlock (runs : kernel.threadBlock fuel tid = some after) :
    KeepsProcs kernel after := by
  simp only [Kernel.threadBlock] at runs
  split at runs
  · simp at runs
  · rw [Option.ite_none_left_eq_some] at runs
    exact (setState .blocked).trans (removeFromReadyQueue runs.2)

theorem threadExit (runs : kernel.threadExit fuel = some after) : KeepsProcs kernel after := by
  simp only [Kernel.threadExit] at runs
  split at runs
  · simp at runs
  · rw [Option.ite_none_left_eq_some, Option.map_eq_some_iff] at runs
    rcases runs with ⟨_, left, leaves, rfl⟩
    exact ((leaveProcess leaves).trans (setState .termed)).trans (setCurrent none)

theorem detachThread (t : ℕ) : KeepsProcs kernel (kernel.detachThread t) := by
  unfold Kernel.detachThread
  split
  · exact refl kernel
  · exact modifyProcess (fun _ => rfl)

theorem threadTerminate {answer : Option ℤ}
    (runs : kernel.threadTerminate fuel tid = some (answer, after)) : KeepsProcs kernel after := by
  simp only [Kernel.threadTerminate] at runs
  split at runs
  · simp only [Option.some.injEq, Prod.mk.injEq] at runs
    rw [← runs.2]
    exact refl kernel
  · split at runs
    · simp only [Option.some.injEq, Prod.mk.injEq] at runs
      rw [← runs.2]
      exact refl kernel
    · rename_i t _
      split at runs
      · simp only [Option.map_eq_some_iff, Prod.mk.injEq] at runs
        rcases runs with ⟨exited, exits, _, rfl⟩
        exact threadExit exits
      · simp only [Option.map_eq_some_iff, Prod.mk.injEq] at runs
        rcases runs with ⟨removed, removes, _, rfl⟩
        have detached : KeepsProcs kernel ((kernel.setState t .termed).detachThread t) :=
          (setState .termed).trans (detachThread t)
        exact (detached.trans (of_relinked (.setNext _ t none))).trans
          (removeFromReadyQueue removes)

theorem freeThread (slot t : ℕ) : KeepsProcs kernel (kernel.freeThread slot t) := by
  have detached : KeepsProcs kernel (kernel.detachThread t) := detachThread t
  apply detached.trans
  refine of_proc ⟨rfl, rfl, fun _ => rfl⟩ ?_ (fun _ => rfl)
  rintro other ⟨i, bound, listed⟩
  by_cases same : i = slot
  · simp [Kernel.freeThread, same] at listed
  · refine ⟨i, bound, ?_⟩
    simpa [Kernel.freeThread, same] using listed

theorem cleanUpSlot {slot : ℕ} (runs : Kernel.cleanUpSlot fuel kernel slot = some after) :
    KeepsProcs kernel after := by
  simp only [Kernel.cleanUpSlot] at runs
  split at runs
  · rw [← Option.some.inj runs]
    exact refl kernel
  · rename_i t _
    split at runs
    · rcases Option.map_eq_some_iff.mp runs with ⟨removed, removes, rfl⟩
      exact (removeFromReadyQueue removes).trans (freeThread slot t)
    · rw [← Option.some.inj runs]
      exact refl kernel

theorem cleanUpSlots {slots : List ℕ}
    (runs : slots.foldlM (Kernel.cleanUpSlot fuel) kernel = some after) :
    KeepsProcs kernel after := by
  induction slots generalizing kernel with
  | nil =>
      rw [← Option.some.inj runs]
      exact refl _
  | cons slot slots ih =>
      rw [List.foldlM_cons] at runs
      rcases Option.bind_eq_some_iff.mp runs with ⟨middle, cleans, rest⟩
      exact (cleanUpSlot cleans).trans (ih rest)

theorem cleanUp (runs : kernel.cleanUp fuel = some after) : KeepsProcs kernel after :=
  cleanUpSlots runs

theorem tickPrologue {context : Context} (runs : kernel.tickPrologue fuel context = some after) :
    KeepsProcs kernel after := by
  simp only [Kernel.tickPrologue] at runs
  split at runs
  · rw [← Option.some.inj runs]
    exact refl kernel
  · rename_i old _
    have saved : KeepsProcs kernel (kernel.modifyThread old (fun record =>
        { record with context := context })) :=
      modifyThread (fun _ => rfl)
    have requeues {queued : Kernel} (queues : ((kernel.modifyThread old (fun record =>
        { record with context := context })).setState old .ready).enqueueReadyTail old =
          some queued) : KeepsProcs kernel queued :=
      (saved.trans (setState .ready)).trans (enqueueReadyTail queues)
    have takesOff {queued : Kernel} (removes : ((kernel.modifyThread old (fun record =>
        { record with context := context })).removeFromReadyQueue fuel (some old)).map
          (fun removed => { removed with currentThread := none }) = some queued) :
        KeepsProcs kernel queued := by
      rcases Option.map_eq_some_iff.mp removes with ⟨removed, takes, rfl⟩
      exact (saved.trans (removeFromReadyQueue takes)).trans (setCurrent none)
    split at runs
    · exact requeues runs
    · exact requeues runs
    · exact takesOff runs
    · exact takesOff runs

theorem tickSelect (kernel : Kernel) : KeepsProcs kernel kernel.tickSelect.2 := by
  unfold Kernel.tickSelect
  split
  · exact of_relinked (.dequeueReadyHead kernel _)
  · split
    · exact refl kernel
    · exact refl kernel

theorem tickConsider {next : ℕ} {phase : TickPhase}
    (runs : kernel.tickConsider fuel next = some (phase, after)) : KeepsProcs kernel after := by
  simp only [Kernel.tickConsider] at runs
  split at runs
  · simp only [Option.map_eq_some_iff, Prod.mk.injEq] at runs
    rcases runs with ⟨removed, removes, _, rfl⟩
    exact removeFromReadyQueue removes
  split at runs
  · simp only [Option.map_eq_some_iff, Prod.mk.injEq] at runs
    rcases runs with ⟨queued, queues, _, rfl⟩
    have waiting : KeepsProcs kernel (kernel.modifyThread next (fun record =>
        { record with cooldown := record.cooldown - 1 })) :=
      modifyThread (fun _ => rfl)
    exact waiting.trans (enqueueReadyTail queues)
  have cooled : KeepsProcs kernel (kernel.modifyThread next (fun record =>
      { record with cooldown := priorityToStride record.priority - 1 })) :=
    modifyThread (fun _ => rfl)
  split at runs
  · simp only [Option.some.injEq, Prod.mk.injEq] at runs
    rw [← runs.2]
    exact cooled.trans (setState .termed)
  · simp only [Option.some.injEq, Prod.mk.injEq] at runs
    rw [← runs.2]
    exact (cooled.trans (setCurrent (some next))).trans (setState .running)

/-- The new thread belongs to no process or to one of the process table. -/
theorem buildThread_proc {request : ThreadRequest} {memory : ThreadMemory}
    (isProc : ((kernel.buildThread request memory).threads t).proc = some p) :
    (t ≠ memory.thread ∧ (kernel.threads t).proc = some p) ∨
      ∃ i, kernel.processTable i = some p := by
  simp only [Kernel.buildThread] at isProc
  generalize isAllocated : ({ kernel with
      nextTid := (kernel.nextTid + 1) % 2 ^ 32
      threadBlocks := memory.thread :: kernel.threadBlocks }.modifyThread memory.thread
        (fun _ => request.thread memory kernel.nextTid)) = allocated at isProc
  have others : ∀ other, other ≠ memory.thread →
      (allocated.threads other).proc = (kernel.threads other).proc := by
    intro other different
    rw [← isAllocated, modifyThread_threads_ne _ _ _ different]
  have own : (allocated.threads memory.thread).proc = none := by
    rw [← isAllocated, modifyThread_threads_same]
    rfl
  have table : allocated.processTable = kernel.processTable := by
    rw [← isAllocated]
    rfl
  unfold Kernel.attachOwner at isProc
  split at isProc
  · by_cases same : t = memory.thread
    · rw [same, own] at isProc
      simp at isProc
    · rw [others t same] at isProc
      exact .inl ⟨same, isProc⟩
  · rename_i owner found
    by_cases same : t = memory.thread
    · right
      simp only [Kernel.processFromPid, Option.ite_none_left_eq_some] at found
      rcases List.exists_of_findSome?_eq_some found.2 with ⟨i, _, isOwner⟩
      have inTable := (Option.filter_eq_some_iff.mp isOwner).1
      rw [table] at inTable
      simp only [Kernel.processAddThread, Kernel.modifyProcess, same, modifyThread_threads_same,
        Option.some.injEq] at isProc
      rw [← isProc]
      exact ⟨i, inTable⟩
    · simp only [Kernel.processAddThread, Kernel.modifyProcess,
        modifyThread_threads_ne _ _ _ same, others t same] at isProc
      exact .inl ⟨same, isProc⟩

theorem threadCreate {request : ThreadRequest} {memory : ThreadMemory} {answer : Option ℕ}
    (runs : kernel.threadCreate request memory = some (answer, after)) :
    KeepsProcs kernel after := by
  refine ⟨SameProcesses.threadCreate runs, ?_⟩
  intro t p listed isProc
  rcases Sound.buildThread_eq kernel request memory with ⟨record, processes, nextTid, equation, _⟩
  have builtTable : (kernel.buildThread request memory).threadTable = kernel.threadTable := by
    rw [equation]
  have built := @buildThread_proc kernel t p request memory
  simp only [Kernel.threadCreate] at runs
  generalize kernel.buildThread request memory = made at built builtTable runs
  split at runs
  · simp only [Option.some.injEq, Prod.mk.injEq] at runs
    rw [← runs.2] at listed isProc
    exact .inl ⟨listed, isProc⟩
  split at runs
  · simp only [Option.some.injEq, Prod.mk.injEq] at runs
    rw [← runs.2] at listed isProc
    exact .inl ⟨listed, isProc⟩
  split at runs
  · simp only [Option.some.injEq, Prod.mk.injEq] at runs
    rw [← runs.2] at listed isProc
    rcases built isProc with ⟨_, isProc⟩ | inTable
    · rcases listed with ⟨slot, bound, isEntry⟩
      refine .inl ⟨⟨slot, bound, ?_⟩, isProc⟩
      rw [← builtTable]
      exact isEntry
    · exact .inr inTable
  · rename_i slot _
    simp only [Option.map_eq_some_iff, Prod.mk.injEq] at runs
    rcases runs with ⟨queued, appends, _, rfl⟩
    have relinked := Relinked.appendReady appends
    rw [relinked.proc] at isProc
    rcases built isProc with ⟨different, isProc⟩ | inTable
    · rcases listed with ⟨i, bound, isEntry⟩
      rw [relinked.threadTable] at isEntry
      refine .inl ⟨⟨i, bound, ?_⟩, isProc⟩
      by_cases same : i = slot
      · simp only [Kernel.claimThreadSlot, same, Function.update_self, Option.some.injEq]
          at isEntry
        exact absurd isEntry.symm different
      · simpa [Kernel.claimThreadSlot, same, builtTable] using isEntry
    · exact .inr inTable

theorem waitEnqueue (runs : kernel.waitEnqueue p t = some after) : KeepsProcs kernel after := by
  simp only [Kernel.waitEnqueue] at runs
  have cleared : KeepsProcs kernel (kernel.setNext t none) := of_relinked (.setNext kernel t none)
  split at runs
  · rw [← Option.some.inj runs]
    exact cleared.trans (modifyProcess (fun _ => rfl))
  · split at runs
    · simp at runs
    · rename_i tail _
      rw [← Option.some.inj runs]
      exact (cleared.trans (of_relinked (.setNext _ tail (some t)))).trans
        (modifyProcess (fun _ => rfl))

end KeepsProcs

theorem ProcsLive.keeps {kernel after : Kernel} (live : kernel.ProcsLive)
    (listed : ∀ i p, kernel.processTable i = some p → p ∈ kernel.processBlocks)
    (keeps : KeepsProcs kernel after) : after.ProcsLive := by
  intro t p isListed isProc
  rw [keeps.same.blocks]
  rcases keeps.procs t p isListed isProc with ⟨before, isProc⟩ | ⟨i, inTable⟩
  · exact live t p before isProc
  · exact listed i p inTable

end Kernel

/-- Every operation of the scheduling system leaves the process table alone. -/
theorem SchedulingStep.keepsProcs {before after : Machine} {operation : SchedulingOperation}
    (step : SchedulingStep before operation after) : before.kernel.KeepsProcs after.kernel := by
  cases step with
  | threadCreate fresh runs => exact .threadCreate runs
  | threadUnblock runs => exact .threadUnblock runs
  | threadBlock runs => exact .threadBlock runs
  | threadTerminate runs => exact .threadTerminate runs
  | cleanUp runs => exact .cleanUp runs
  | addToReadyQueue valid runs => exact .addToReadyQueue runs
  | removeFromReadyQueue valid runs => exact .removeFromReadyQueue runs
  | tick runs => exact .tickPrologue runs
  | tickSelect => exact .tickSelect _
  | tickConsider runs => exact .tickConsider runs
  | tickCleanUp runs => exact .cleanUp runs

/-! ## Threads, processes and the scheduler together -/

structure LifetimeSystem where
  reaping : ReapSystem
  phase : TickPhase
  frame : Context

inductive LifetimeOperation where
  | scheduling (operation : SchedulingOperation)
  | threadExit
  | reaping (operation : ReapOperation)

namespace LifetimeSystem

def machine (system : LifetimeSystem) : Machine :=
  ⟨system.reaping.kernel, system.phase, system.frame⟩

def kernel (system : LifetimeSystem) : Kernel := system.reaping.kernel

end LifetimeSystem

/-- One operation on threads, one step of the scheduler, or one section of the operations on
processes. -/
inductive LifetimeStep : LifetimeSystem → LifetimeOperation → LifetimeSystem → Prop where
  | scheduling {system : LifetimeSystem} {operation : SchedulingOperation} {after : Machine}
      (step : SchedulingStep system.machine operation after) :
      LifetimeStep system (.scheduling operation)
        ⟨system.reaping.setKernel after.kernel, after.phase, after.frame⟩
  | threadExit {system : LifetimeSystem} {fuel : ℕ} {after : Kernel} (idle : system.phase = .idle)
      (runs : system.kernel.threadExit fuel = some after) :
      LifetimeStep system .threadExit { system with reaping := system.reaping.setKernel after }
  | reaping {system : LifetimeSystem} {operation : ReapOperation} {after : ReapSystem}
      (idle : system.phase = .idle) (step : ReapStep system.reaping operation after) :
      LifetimeStep system (.reaping operation) { system with reaping := after }

namespace LifetimeSystem

/-- When `process_cleanup` frees a child, no thread in the table belongs to it any more. -/
def deserted (system : LifetimeSystem) : LifetimeOperation → Bool
  | .reaping (.free t) =>
      match system.reaping.phase t with
      | .unlisted child => (List.range maxThreads).all (fun slot =>
          (system.kernel.threadTable slot).all (fun u =>
            (system.kernel.threads u).proc ≠ some child.block))
      | _ => true
  | _ => true

def Deserted (system : LifetimeSystem) (operation : LifetimeOperation) : Prop :=
  system.deserted operation = true

theorem deserted_free {system : LifetimeSystem} {t : ℕ} {child : ProcessRecord}
    (unlisted : system.reaping.phase t = .unlisted child) :
    system.Deserted (.reaping (.free t)) ↔
      ∀ u, system.kernel.Listed u → (system.kernel.threads u).proc ≠ some child.block := by
  simp only [Deserted, deserted, unlisted, List.all_eq_true, Option.all_eq_true, decide_eq_true_eq,
    List.mem_range]
  constructor
  · rintro nobody u ⟨slot, bound, isEntry⟩
    exact nobody slot bound u isEntry
  · intro nobody slot bound u isEntry
    exact nobody u ⟨slot, bound, isEntry⟩

/-- Nothing is under way, and no thread belongs to a freed process. -/
structure Started (system : LifetimeSystem) : Prop where
  reaping : system.reaping.Started
  live : system.kernel.ProcsLive
  idle : system.phase = .idle

end LifetimeSystem

namespace ReapSystem

variable {system after : ReapSystem} {t fuel : ℕ}

/-- What a call of `process_wait` knows about the slots of its child: the one that it has
found is the only one, and after the clearing there is none. -/
def Tied (system : ReapSystem) : WaitPhase → Prop
  | .idle => True
  | .calling _ _ => True
  | .found child index _ | .enqueued child index _ | .asleep child index _ |
      .ended child index _ =>
      ∀ i, system.kernel.processTable i = some child.block → i = index
  | .unlisted child => ∀ i, system.kernel.processTable i ≠ some child.block

theorem Tied.mono {phase : WaitPhase} (tied : system.Tied phase)
    (table : ∀ i p, after.kernel.processTable i = some p → system.kernel.processTable i = some p) :
    after.Tied phase := by
  cases phase with
  | idle => trivial
  | calling parent pid => trivial
  | found child index pid => exact fun i listed => tied i (table i _ listed)
  | enqueued child index pid => exact fun i listed => tied i (table i _ listed)
  | asleep child index pid => exact fun i listed => tied i (table i _ listed)
  | ended child index pid => exact fun i listed => tied i (table i _ listed)
  | unlisted child => exact fun i listed => tied i (table i _ listed)

structure Attached (system : ReapSystem) : Prop where
  live : system.kernel.ProcsLive
  listed : ∀ i p, system.kernel.processTable i = some p → p ∈ system.kernel.processBlocks
  single : ∀ i j p, system.kernel.processTable i = some p → system.kernel.processTable j = some p →
    i = j
  blocks : system.kernel.processBlocks.Nodup
  tied : ∀ t, system.Tied (system.phase t)
  pending : ∀ new ∈ system.pending, (∀ i, system.kernel.processTable i ≠ some new.process) ∧
    ∀ t, system.kernel.Listed t → (system.kernel.threads t).proc ≠ some new.process

namespace Attached

/-- A step that leaves the process table and the processes of the threads alone. -/
theorem keeps (attached : system.Attached) (keeps : system.kernel.KeepsProcs after.kernel)
    (tied : ∀ t, system.Tied (after.phase t))
    (pending : ∀ new ∈ after.pending, new ∈ system.pending) :
    after.Attached where
  live := attached.live.keeps attached.listed keeps
  listed := by
    rw [keeps.same.table, keeps.same.blocks]
    exact attached.listed
  single := by
    rw [keeps.same.table]
    exact attached.single
  blocks := by
    rw [keeps.same.blocks]
    exact attached.blocks
  tied t := by
    apply (tied t).mono
    rw [keeps.same.table]
    exact fun i p listed => listed
  pending new mem := by
    rcases attached.pending new (pending new mem) with ⟨unlisted, nobody⟩
    rw [keeps.same.table]
    refine ⟨unlisted, fun t listed isProc => ?_⟩
    rcases keeps.procs t _ listed isProc with ⟨before, isProc⟩ | ⟨i, inTable⟩
    · exact nobody t before isProc
    · exact unlisted i inTable

theorem setPhase (attached : system.Attached) {phase : WaitPhase} (tied : system.Tied phase) :
    (system.setPhase t phase).Attached where
  live := attached.live
  listed := attached.listed
  single := attached.single
  blocks := attached.blocks
  tied u := by
    by_cases same : u = t
    · rw [same, setPhase_phase_same]
      exact tied.mono (fun _ _ listed => listed)
    · rw [setPhase_phase_ne _ same]
      exact (attached.tied u).mono (fun _ _ listed => listed)
  pending := attached.pending

theorem record (attached : system.Attached) (events : List ReapEvent) :
    (system.record events).Attached where
  live := attached.live
  listed := attached.listed
  single := attached.single
  blocks := attached.blocks
  tied u := (attached.tied u).mono (fun _ _ listed => listed)
  pending := attached.pending

theorem setOwner (attached : system.Attached) (p : ℕ) (owner : Option ℕ) :
    (system.setOwner p owner).Attached where
  live := attached.live
  listed := attached.listed
  single := attached.single
  blocks := attached.blocks
  tied u := (attached.tied u).mono (fun _ _ listed => listed)
  pending := attached.pending

theorem setKernel (attached : system.Attached) {kernel : Kernel}
    (keeps : system.kernel.KeepsProcs kernel) : (system.setKernel kernel).Attached :=
  attached.keeps keeps attached.tied (fun _ mem => mem)

theorem lookup (attached : system.Attached) (parent pid : ℤ) :
    (system.lookup t parent pid).Attached := by
  unfold ReapSystem.lookup
  split
  · exact (attached.record _).setPhase trivial
  · rename_i child index finds
    have inTable := Kernel.findChild_listed finds
    apply (attached.record _).setPhase
    exact fun i listed => attached.single i index child listed inTable

theorem markExited (attached : system.Attached) {child : ProcessRecord} {index : ℕ} {pid : ℤ}
    (tied : ∀ i, system.kernel.processTable i = some child.block → i = index) :
    (system.markExited t child index pid).Attached := by
  have exited : system.kernel.KeepsProcs (system.kernel.modifyProcess child.block (fun record =>
      { record with state := .exited })) :=
    .modifyProcess (fun _ => rfl)
  exact ((attached.setKernel exited).record _).setPhase tied

theorem clear (attached : system.Attached) {child : ProcessRecord} {index : ℕ} {pid : ℤ}
    (ended : system.phase t = .ended child index pid) :
    (system.clear t child index pid).Attached := by
  have tied : ∀ i, system.kernel.processTable i = some child.block → i = index := by
    have tied := attached.tied t
    rw [ended] at tied
    exact tied
  generalize isCleared : system.kernel.clearReaped child.block index pid = kernel
  have table : ∀ i p, kernel.processTable i = some p →
      system.kernel.processTable i = some p ∧ p ≠ child.block := by
    intro i p listed
    rw [← isCleared] at listed
    simp only [Kernel.clearReaped] at listed
    split at listed
    · by_cases same : i = index
      · simp [same] at listed
      · rw [Function.update_of_ne same] at listed
        refine ⟨listed, ?_⟩
        rintro rfl
        exact same (tied i listed)
    · rw [Option.ite_none_left_eq_some] at listed
      refine ⟨listed.2, ?_⟩
      rintro rfl
      exact listed.1 listed.2
  have isAfter : system.clear t child index pid = ((system.setKernel kernel).record
      ((system.clearedSlots child.block index pid).map (fun i =>
        .clear i (system.slotRecord i) child))).setPhase t (.unlisted child) := by
    rw [← isCleared]
    rfl
  have blocks : kernel.processBlocks = system.kernel.processBlocks := by rw [← isCleared]; rfl
  have threads : kernel.threads = system.kernel.threads := by rw [← isCleared]; rfl
  have threadTable : kernel.threadTable = system.kernel.threadTable := by rw [← isCleared]; rfl
  rw [isAfter]
  refine ⟨?_, ?_, ?_, ?_, ?_, ?_⟩
  · intro u p listed isProc
    change kernel.Listed u at listed
    change (kernel.threads u).proc = some p at isProc
    change p ∈ kernel.processBlocks
    unfold Kernel.Listed at listed
    rw [threadTable] at listed
    rw [threads] at isProc
    rw [blocks]
    exact attached.live u p listed isProc
  · intro i p listed
    change p ∈ kernel.processBlocks
    rw [blocks]
    exact attached.listed i p (table i p listed).1
  · exact fun i j p first second => attached.single i j p (table i p first).1 (table j p second).1
  · change kernel.processBlocks.Nodup
    rw [blocks]
    exact attached.blocks
  · intro u
    by_cases same : u = t
    · rw [same, setPhase_phase_same]
      exact fun i listed => (table i _ listed).2 rfl
    · rw [setPhase_phase_ne _ same]
      exact (attached.tied u).mono (fun i p listed => (table i p listed).1)
  · intro new mem
    rcases attached.pending new mem with ⟨unlisted, nobody⟩
    refine ⟨fun i listed => unlisted i (table i _ listed).1, fun u listed isProc => ?_⟩
    change kernel.Listed u at listed
    change (kernel.threads u).proc = some new.process at isProc
    unfold Kernel.Listed at listed
    rw [threadTable] at listed
    rw [threads] at isProc
    exact nobody u listed isProc

/-- A process without threads that is in no slot is freed. -/
theorem release (attached : system.Attached) {p : ℕ}
    (unlisted : ∀ i, system.kernel.processTable i ≠ some p)
    (nobody : ∀ u, system.kernel.Listed u → (system.kernel.threads u).proc ≠ some p)
    {kernel : Kernel} (threads : kernel.threads = system.kernel.threads)
    (threadTable : kernel.threadTable = system.kernel.threadTable)
    (table : ∀ i q, kernel.processTable i = some q → system.kernel.processTable i = some q)
    (blocks : kernel.processBlocks = system.kernel.processBlocks.erase p) :
    (system.setKernel kernel).Attached where
  live u q listed isProc := by
    change kernel.Listed u at listed
    change (kernel.threads u).proc = some q at isProc
    change q ∈ kernel.processBlocks
    unfold Kernel.Listed at listed
    rw [threadTable] at listed
    rw [threads] at isProc
    rw [blocks]
    refine (List.mem_erase_of_ne ?_).mpr (attached.live u q listed isProc)
    rintro rfl
    exact nobody u listed isProc
  listed i q listed := by
    change q ∈ kernel.processBlocks
    rw [blocks]
    refine (List.mem_erase_of_ne ?_).mpr (attached.listed i q (table i q listed))
    rintro rfl
    exact unlisted i (table i q listed)
  single i j q first second := attached.single i j q (table i q first) (table j q second)
  blocks := by
    change kernel.processBlocks.Nodup
    rw [blocks]
    exact attached.blocks.erase p
  tied u := (attached.tied u).mono table
  pending new mem := by
    rcases attached.pending new mem with ⟨notListed, noThread⟩
    refine ⟨fun i listed => notListed i (table i _ listed), fun u listed isProc => ?_⟩
    change kernel.Listed u at listed
    change (kernel.threads u).proc = some new.process at isProc
    unfold Kernel.Listed at listed
    rw [threadTable] at listed
    rw [threads] at isProc
    exact noThread u listed isProc

/-- A block that has not been handed out is taken for a new process. -/
theorem allocate (attached : system.Attached) {new : PendingProcess} {births : ℕ → ℕ}
    (fresh : new.process ∉ system.kernel.processBlocks) {kernel : Kernel}
    (threads : kernel.threads = system.kernel.threads)
    (threadTable : kernel.threadTable = system.kernel.threadTable)
    (table : kernel.processTable = system.kernel.processTable)
    (blocks : kernel.processBlocks = new.process :: system.kernel.processBlocks) :
    Attached { system.setKernel kernel with
      births := births
      pending := new :: system.pending } where
  live u q listed isProc := by
    change kernel.Listed u at listed
    change (kernel.threads u).proc = some q at isProc
    change q ∈ kernel.processBlocks
    unfold Kernel.Listed at listed
    rw [threadTable] at listed
    rw [threads] at isProc
    rw [blocks]
    exact List.mem_cons_of_mem _ (attached.live u q listed isProc)
  listed i q listed := by
    change kernel.processTable i = some q at listed
    change q ∈ kernel.processBlocks
    rw [table] at listed
    rw [blocks]
    exact List.mem_cons_of_mem _ (attached.listed i q listed)
  single := by
    change ∀ i j q, kernel.processTable i = some q → kernel.processTable j = some q → i = j
    rw [table]
    exact attached.single
  blocks := by
    change kernel.processBlocks.Nodup
    rw [blocks]
    exact List.nodup_cons.mpr ⟨fresh, attached.blocks⟩
  tied u := by
    apply (attached.tied u).mono
    change ∀ i q, kernel.processTable i = some q → system.kernel.processTable i = some q
    rw [table]
    exact fun i q listed => listed
  pending other mem := by
    change (∀ i, kernel.processTable i ≠ some other.process) ∧
      ∀ u, kernel.Listed u → (kernel.threads u).proc ≠ some other.process
    unfold Kernel.Listed
    rw [table, threadTable, threads]
    rcases List.mem_cons.mp mem with rfl | old
    · exact ⟨fun i listed => fresh (attached.listed i _ listed),
        fun u listed isProc => fresh (attached.live u _ listed isProc)⟩
    · exact attached.pending other old

theorem createBegin (attached : system.Attached) {request : ProcessRequest}
    {block addressSpace : ℕ} (fresh : block ∉ system.kernel.processBlocks) :
    (system.createBegin request block addressSpace).Attached := by
  unfold ReapSystem.createBegin
  generalize begins : system.kernel.processCreateBegin request block addressSpace = answer
  unfold Kernel.processCreateBegin at begins
  split at begins
  · rw [← begins]
    exact attached.setKernel (.refl _)
  split at begins
  · rw [← begins]
    exact attached.setKernel (.refl _)
  · rename_i slot _ _
    rw [← begins]
    apply (attached.setOwner block none).allocate
    · exact fresh
    · rfl
    · rfl
    · rfl
    · rfl

theorem createFinish (attached : system.Attached) {n : ℕ} {new : PendingProcess}
    {memory : ThreadMemory} (isNew : new ∈ system.pending)
    (runs : system.createFinish n new memory = some after) : after.Attached := by
  have erased : Attached { system with pending := system.pending.eraseIdx n } :=
    attached.keeps (.refl _) attached.tied (fun _ mem => List.mem_of_mem_eraseIdx mem)
  rcases attached.pending new isNew with ⟨unlisted, nobody⟩
  rcases Option.map_eq_some_iff.mp runs with ⟨⟨answer, kernel⟩, finishes, rfl⟩
  simp only [Kernel.processCreateFinish] at finishes
  split at finishes
  · simp only [Option.some.injEq, Prod.mk.injEq] at finishes
    rw [← finishes.1, ← finishes.2]
    exact (erased.setKernel (.refl _)).record _
  · rcases Option.map_eq_some_iff.mp finishes with ⟨⟨thread, created⟩, creates, returns⟩
    have keeps := Kernel.KeepsProcs.threadCreate creates
    have made := erased.setKernel keeps
    cases thread with
    | some t =>
        simp only [Prod.mk.injEq] at returns
        rw [← returns.1, ← returns.2]
        have named : created.KeepsProcs (created.modifyProcess new.process (fun record =>
            { record with mainThread := some t })) :=
          .modifyProcess (fun _ => rfl)
        exact (erased.setKernel (keeps.trans named)).record _
    | none =>
        simp only [Prod.mk.injEq] at returns
        rw [← returns.1, ← returns.2]
        have stillUnlisted : ∀ i, created.processTable i ≠ some new.process := by
          rw [keeps.same.table]
          exact unlisted
        have stillNobody : ∀ u, created.Listed u → (created.threads u).proc ≠ some new.process := by
          intro u listed isProc
          rcases keeps.procs u _ listed isProc with ⟨before, isProc⟩ | ⟨i, inTable⟩
          · exact nobody u before isProc
          · exact unlisted i inTable
        have released : (ReapSystem.setKernel { system with pending := system.pending.eraseIdx n }
            (created.processCreateUndo new.process new.slot)).Attached := by
          apply made.release stillUnlisted stillNobody
          · rfl
          · rfl
          · intro i q listed
            change created.processTable i = some q
            by_cases same : i = new.slot
            · simp [Kernel.processCreateUndo, same] at listed
            · simpa [Kernel.processCreateUndo, same] using listed
          · rfl
        exact released.record _

/-- A step that frees no process of a thread in the table. -/
theorem step {operation : ReapOperation} (attached : system.Attached)
    (deserted : ∀ t child, operation = .free t → system.phase t = .unlisted child →
      ∀ u, system.kernel.Listed u → (system.kernel.threads u).proc ≠ some child.block)
    (step : ReapStep system operation after) : after.Attached := by
  rcases step with ⟨fuel, runs⟩
  cases operation with
  | call t pid =>
      simp only [perform, Option.ite_none_right_eq_some, Option.some.injEq] at runs
      rw [← runs.2]
      exact attached.setPhase trivial
  | lookup t =>
      simp only [perform] at runs
      split at runs
      · rw [← Option.some.inj runs]
        exact attached.lookup _ _
      · simp at runs
  | contend t =>
      simp only [perform] at runs
      split at runs
      · rw [Option.ite_none_right_eq_some, Option.some.injEq] at runs
        rw [← runs.2]
        exact attached.record _
      · simp at runs
  | check t =>
      simp only [perform] at runs
      split at runs
      · rename_i child index pid found
        rw [Option.ite_none_right_eq_some] at runs
        rcases runs with ⟨_, runs⟩
        have tied := attached.tied t
        rw [found] at tied
        unfold ReapSystem.check at runs
        split at runs
        · rw [← Option.some.inj runs]
          exact attached.markExited tied
        · rcases Option.map_eq_some_iff.mp runs with ⟨queued, enqueues, rfl⟩
          have keeps := Kernel.KeepsProcs.waitEnqueue enqueues
          apply (((attached.setKernel keeps).setOwner _ _).record _).setPhase
          intro i listed
          change queued.processTable i = some child.block at listed
          rw [keeps.same.table] at listed
          exact tied i listed
      · simp at runs
  | block t =>
      simp only [perform] at runs
      split at runs
      · rename_i child index pid enqueued
        rcases Option.map_eq_some_iff.mp runs with ⟨blocked, blocks, rfl⟩
        have keeps := Kernel.KeepsProcs.threadBlock blocks
        have tied := attached.tied t
        rw [enqueued] at tied
        apply (attached.setKernel keeps).setPhase
        intro i listed
        change blocked.processTable i = some child.block at listed
        rw [keeps.same.table] at listed
        exact tied i listed
      · simp at runs
  | collect t =>
      simp only [perform] at runs
      split at runs
      · rename_i asleep
        rw [Option.ite_none_right_eq_some, Option.some.injEq] at runs
        have tied := attached.tied t
        rw [asleep] at tied
        rw [← runs.2]
        exact attached.markExited tied
      · simp at runs
  | clear t =>
      simp only [perform] at runs
      split at runs
      · rename_i ended
        rw [← Option.some.inj runs]
        exact attached.clear ended
      · simp at runs
  | free t =>
      simp only [perform] at runs
      split at runs
      · rename_i child unlisted
        rw [← Option.some.inj runs]
        have tied := attached.tied t
        rw [unlisted] at tied
        have released : (system.setKernel (system.kernel.freeProcess child.block)).Attached := by
          apply attached.release tied (deserted t child rfl unlisted)
          · rfl
          · rfl
          · exact fun i q listed => listed
          · rfl
        exact (released.record _).setPhase trivial
      · simp at runs
  | createBegin request block addressSpace =>
      simp only [perform, Option.ite_none_left_eq_some, Option.some.injEq] at runs
      rw [← runs.2]
      exact attached.createBegin runs.1
  | createFinish n memory =>
      rcases Option.bind_eq_some_iff.mp runs with ⟨new, isNew, finishes⟩
      exact attached.createFinish (List.mem_of_getElem? isNew) finishes
  | lock u p | unlock u p =>
      simp only [perform, Option.ite_none_right_eq_some, Option.some.injEq] at runs
      rw [← runs.2]
      exact attached.setOwner _ _
  | finish u p code =>
      simp only [perform, Option.ite_none_right_eq_some, Option.some.injEq] at runs
      rw [← runs.2]
      exact attached.setKernel (.modifyProcess (fun _ => rfl))
  | wake u p =>
      simp only [perform, Option.ite_none_right_eq_some, Option.map_eq_some_iff] at runs
      rcases runs with ⟨_, woken, wakes, rfl⟩
      exact attached.setKernel (.wakeWaiters wakes)
  | unblock tid =>
      rcases Option.map_eq_some_iff.mp runs with ⟨⟨answer, unblocked⟩, unblocks, rfl⟩
      exact attached.setKernel (.threadUnblock unblocks)

end Attached

end ReapSystem

namespace LifetimeSystem

variable {system after : LifetimeSystem}

theorem Started.attached (started : system.Started) : system.reaping.Attached where
  live := started.live
  listed i p listed := (started.reaping.listed i p listed).1
  single := started.reaping.single
  blocks := started.reaping.blocks
  tied t := by
    rw [started.reaping.idle]
    trivial
  pending := by simp [started.reaping.pending]

theorem attached_step {operation : LifetimeOperation} (attached : system.reaping.Attached)
    (deserted : system.Deserted operation) (step : LifetimeStep system operation after) :
    after.reaping.Attached := by
  cases step with
  | scheduling step => exact attached.setKernel step.keepsProcs
  | threadExit idle runs => exact attached.setKernel (.threadExit runs)
  | reaping idle step =>
      apply attached.step _ step
      rintro t child rfl unlisted
      exact (deserted_free unlisted).mp deserted

/-- A child that is freed while a thread belongs to it leaves this thread without a process. -/
theorem not_procsLive_of_free {t : ℕ} (attached : system.reaping.Attached)
    (step : LifetimeStep system (.reaping (.free t)) after) (live : after.kernel.ProcsLive) :
    system.Deserted (.reaping (.free t)) := by
  rcases step with _ | _ | ⟨idle, fuel, runs⟩
  simp only [ReapSystem.perform] at runs
  split at runs
  · rename_i child unlisted
    rw [deserted_free unlisted]
    intro u listed isProc
    rw [← Option.some.inj runs] at live
    exact attached.blocks.not_mem_erase (live u child.block listed isProc)
  · simp at runs

end LifetimeSystem

/-- In every run in which a child is freed only when no thread of the table belongs to it, no
thread of the table belongs to a freed process; the first step that is not of this
kind leaves one behind. -/
theorem thread_process_guarded_runs {start last : LifetimeSystem}
    {operations : List LifetimeOperation} (started : start.Started)
    (run : Transition.Run (Transition.Guarded LifetimeSystem.Deserted LifetimeStep) start operations
      last) :
    last.kernel.ProcsLive ∧ ∀ operation after, LifetimeStep last operation after →
      (after.kernel.ProcsLive ↔ last.Deserted operation) := by
  have attached : last.reaping.Attached :=
    run.invariant (fun _ _ _ attached guarded =>
      LifetimeSystem.attached_step attached guarded.1 guarded.2) started.attached
  refine ⟨attached.live, fun operation after step => ⟨?_, ?_⟩⟩
  · intro live
    cases operation with
    | scheduling operation => rfl
    | threadExit => rfl
    | reaping operation =>
        cases operation with
        | free t => exact LifetimeSystem.not_procsLive_of_free attached step live
        | _ => rfl
  · exact fun deserted => (LifetimeSystem.attached_step attached deserted step).live

/-! ## A child with and without a thread -/

/-- The next section of an operation on processes that meets a check. -/
def LifetimeSystem.next (check : LifetimeSystem → LifetimeOperation → Bool)
    (system : LifetimeSystem) : LifetimeOperation → Option LifetimeSystem
  | .reaping operation =>
      if system.phase = .idle ∧ check system (.reaping operation) = true then
        (system.reaping.perform 8 operation).map (fun after => { system with reaping := after })
      else none
  | _ => none

theorem LifetimeSystem.step_of_next {check : LifetimeSystem → LifetimeOperation → Bool}
    (system : LifetimeSystem) (operation : LifetimeOperation) (after : LifetimeSystem)
    (steps : system.next check operation = some after) :
    Transition.Guarded (fun system operation => check system operation = true) LifetimeStep system
      operation after := by
  cases operation with
  | scheduling operation => simp [LifetimeSystem.next] at steps
  | threadExit => simp [LifetimeSystem.next] at steps
  | reaping operation =>
      simp only [LifetimeSystem.next, Option.ite_none_right_eq_some,
        Option.map_eq_some_iff] at steps
      rcases steps with ⟨⟨idle, checked⟩, reaped, performs, rfl⟩
      exact ⟨checked, .reaping idle ⟨8, performs⟩⟩

def childLifetime : LifetimeSystem := ⟨childSystem, .idle, {}⟩

theorem childLifetime_started : childLifetime.Started := by
  refine ⟨childSystem_started, ?_, rfl⟩
  rintro t p ⟨slot, bound, isEntry⟩ isProc
  have all : ((List.range maxThreads).all (fun slot => (childKernel.threadTable slot).all (fun t =>
      (childKernel.threads t).proc.all (fun p => p ∈ childKernel.processBlocks)))) = true := by
    decide +kernel
  simp only [List.all_eq_true, Option.all_eq_true, decide_eq_true_eq, List.mem_range] at all
  exact all slot bound t isEntry p isProc

/-- The child has no thread when it is reaped. -/
theorem thread_process_guarded_runs_deserted :
    ∃ last : LifetimeSystem, last.kernel.processBlocks = [0x100] ∧ last.kernel.ProcsLive ∧
      ∀ operation after, LifetimeStep last operation after →
        (after.kernel.ProcsLive ↔ last.Deserted operation) := by
  have reaps : (Transition.follow (LifetimeSystem.next LifetimeSystem.deserted)
      (reapedByOne.map .reaping) childLifetime).map (fun last => last.kernel.processBlocks) =
        some [0x100] := by
    decide +kernel
  rcases Option.map_eq_some_iff.mp reaps with ⟨last, follows, freed⟩
  exact ⟨last, freed, thread_process_guarded_runs childLifetime_started
    (Transition.run_of_follow LifetimeSystem.step_of_next follows)⟩

/-- A request for a kernel thread of the child. -/
def childThreadRequest : ThreadRequest := { kernelThreadRequest with ownerPid := 1 }

def childWithThread : LifetimeSystem :=
  { childLifetime with
    reaping := childSystem.setKernel ((childKernel.threadCreate childThreadRequest
      (threadMemoryAt 0x1400)).getD (none, childKernel)).2 }

theorem childWithThread_step :
    LifetimeStep childLifetime (.scheduling (.threadCreate childThreadRequest
      (threadMemoryAt 0x1400) (some 0x1400))) childWithThread := by
  have answer : (childKernel.threadCreate childThreadRequest (threadMemoryAt 0x1400)).map
      Prod.fst = some (some 0x1400) := by
    decide +kernel
  rcases Option.map_eq_some_iff.mp answer with ⟨⟨created, kernel⟩, creates, rfl⟩
  have isKernel : childWithThread = ⟨childSystem.setKernel kernel, .idle, {}⟩ := by
    simp [childWithThread, childLifetime, creates]
  have fresh : (threadMemoryAt 0x1400).thread ∉ childKernel.threadBlocks := by decide +kernel
  have step : SchedulingStep childLifetime.machine
      (.threadCreate childThreadRequest (threadMemoryAt 0x1400) (some 0x1400))
      ⟨kernel, .idle, {}⟩ :=
    .threadCreate fresh creates
  have lifetime := LifetimeStep.scheduling step
  rw [isKernel]
  simpa only [childLifetime] using lifetime

/-- The thread of the child is on its way through `process_exit`. -/
def exitChild : List ReapOperation :=
  [.lock 0x1400 0x200, .finish 0x1400 0x200 7, .unlock 0x1400 0x200, .lock 0x1400 0x200,
    .wake 0x1400 0x200, .unlock 0x1400 0x200]

def reapEarly : List ReapOperation :=
  exitChild ++ [.call 0x1000 1, .lookup 0x1000, .check 0x1000, .clear 0x1000, .free 0x1000]

/-- The child is reaped before its thread has ended. -/
theorem thread_outlives_process :
    childLifetime.Started ∧ ∃ operations last,
      Transition.Run LifetimeStep childLifetime operations last ∧ ¬ last.kernel.ProcsLive := by
  have reaps : (Transition.follow (LifetimeSystem.next (fun _ _ => true))
      (reapEarly.map .reaping) childWithThread).map (fun last =>
        (last.kernel.processBlocks, last.kernel.threadTable 4,
          (last.kernel.threads 0x1400).proc)) = some ([0x100], some 0x1400, some 0x200) := by
    decide +kernel
  rcases Option.map_eq_some_iff.mp reaps with ⟨last, follows, observed⟩
  simp only [Prod.mk.injEq] at observed
  rcases observed with ⟨blocks, listed, isProc⟩
  have run := (Transition.run_of_follow LifetimeSystem.step_of_next follows).unguard
  refine ⟨childLifetime_started, _, last, .cons childWithThread_step run, ?_⟩
  intro live
  have freed := live 0x1400 0x200 ⟨4, by decide, listed⟩ isProc
  rw [blocks] at freed
  exact absurd freed (by decide)

end Goshkik

import Goshkik.Scheduling.QueueInvariant

/-!
# The ready queue over whole runs

The queue stays well-formed, and every operation leaves the threads it does not
name where they are, as long as two kinds of steps are not taken:
`thread_terminate` on a queued thread that has another one behind it, whose link
is cleared before the thread is taken off the queue, and a tick that interrupts a
thread which is on the queue already and puts it there a second time.
-/

namespace Goshkik

namespace Kernel

namespace Sound

variable {kernel after : Kernel} {queue : List ℕ} {t fuel : ℕ}

theorem addToReadyQueue (sound : kernel.Sound queue) {target : Option ℕ}
    (valid : ∀ pointer ∈ target, pointer ∈ kernel.threadBlocks)
    (runs : kernel.addToReadyQueue fuel target = some after) :
    ∃ queue', after.Sound queue' ∧ SameOthers target.toList queue queue' := by
  cases target with
  | none =>
      rw [← Option.some.inj runs]
      exact ⟨queue, sound, .refl⟩
  | some t =>
      simp only [Kernel.addToReadyQueue] at runs
      split at runs
      · rw [← Option.some.inj runs]
        exact ⟨queue, sound, .refl⟩
      · split at runs
        · simp at runs
        · rw [← Option.some.inj runs]
          exact ⟨queue, sound, .refl⟩
        · rename_i scanned
          have absent : t ∉ queue := by
            rcases sound.isQueue.scan_eq scanned with ⟨missing, _⟩ | ⟨before, behind, _, _, found⟩
            · exact missing
            · simp at found
          have ready : ((kernel.setNext t none).setState t .ready).Sound queue :=
            (sound.clearNext (fun mem => absurd mem absent)).setState (by simp) (by simp)
          refine ⟨queue ++ [t], ?_, .append (by simp)⟩
          apply ready.enqueueReadyTail absent (valid t rfl) _ runs
          simp [Kernel.setState]

theorem removeTarget (sound : kernel.Sound queue) {target : Option ℕ}
    (runs : kernel.removeFromReadyQueue fuel target = some after) :
    ∃ queue', after.Sound queue' ∧ SameOthers target.toList queue queue' := by
  cases target with
  | none =>
      rw [← Option.some.inj runs]
      exact ⟨queue, sound, .refl⟩
  | some t => exact ⟨queue.erase t, sound.removeFromReadyQueue runs, .erase (by simp)⟩

/-- The prologue of a tick whose current thread, if runnable, is not queued. -/
theorem tickPrologue (sound : kernel.Sound queue) {context : Context}
    (guard : ∀ old, kernel.currentThread = some old →
      (kernel.threads old).state = .running ∨ (kernel.threads old).state = .ready → old ∉ queue)
    (runs : kernel.tickPrologue fuel context = some after) :
    ∃ queue', after.Sound queue' ∧ SameOthers kernel.currentThread.toList queue queue' := by
  simp only [Kernel.tickPrologue] at runs
  cases isCurrent : kernel.currentThread with
  | none =>
      simp only [isCurrent] at runs
      rw [← Option.some.inj runs]
      exact ⟨queue, sound, .refl⟩
  | some old =>
      have alive := sound.settled.current old isCurrent
      have saved : (kernel.modifyThread old
          (fun record => { record with context := context })).Sound queue :=
        sound.modifyThread (sound.settled.modifyThread_other rfl rfl rfl) rfl
          (fun mem => sound.awake old mem)
      simp only [isCurrent] at runs
      have ready : ((kernel.modifyThread old
          (fun record => { record with context := context })).setState old .ready).Sound queue :=
        saved.setState (by simp) (by simp)
      have unblocked : (((kernel.modifyThread old
          (fun record => { record with context := context })).setState old .ready).threads
            old).state ≠ .blocked := by
        simp [Kernel.setState]
      cases state : (kernel.threads old).state with
      | running =>
          rw [state] at runs
          have absent := guard old isCurrent (by simp [state])
          exact ⟨queue ++ [old], ready.enqueueReadyTail absent alive.1 unblocked runs,
            .append (by simp)⟩
      | ready =>
          rw [state] at runs
          have absent := guard old isCurrent (by simp [state])
          exact ⟨queue ++ [old], ready.enqueueReadyTail absent alive.1 unblocked runs,
            .append (by simp)⟩
      | blocked =>
          simp only [state, Option.map_eq_some_iff] at runs
          rcases runs with ⟨removed, removes, rfl⟩
          have soundRemoved := saved.removeFromReadyQueue removes
          exact ⟨queue.erase old, soundRemoved.frame soundRemoved.settled.clearCurrent rfl rfl
            soundRemoved.allocated (fun _ _ => rfl), .erase (by simp)⟩
      | termed => exact absurd state alive.2

/-- The thread that a tick holds: allocated and off the queue. -/
def Holds (kernel : Kernel) (queue : List ℕ) (phase : TickPhase) : Prop :=
  ∀ t, phase = .considering t → t ∈ kernel.threadBlocks ∧ t ∉ queue

theorem tableChoice_mem (sound : kernel.Sound queue) (chosen : kernel.tableChoice = some t) :
    t ∈ kernel.threadBlocks := by
  simp only [Kernel.tableChoice] at chosen
  split at chosen
  · rename_i found
    rcases Option.some.inj chosen
    rcases List.exists_of_findSome?_eq_some found with ⟨slot, _, listed⟩
    exact sound.settled.table slot t (Option.filter_eq_some_iff.mp listed).1
  · exact sound.settled.table 0 t (Option.filter_eq_some_iff.mp chosen).1

theorem tickSelect (sound : kernel.Sound queue) :
    ∃ queue', kernel.tickSelect.2.Sound queue' ∧
      Holds kernel.tickSelect.2 queue' kernel.tickSelect.1 ∧
      SameOthers kernel.readyHead.toList queue queue' := by
  cases queue with
  | nil =>
      have empty : kernel.readyHead = none := sound.isQueue.linked
      simp only [Kernel.tickSelect, empty]
      cases chosen : kernel.tableChoice with
      | none => exact ⟨[], sound, by simp [Holds], .refl⟩
      | some t =>
          refine ⟨[], sound, ?_, .refl⟩
          intro held isHeld
          rcases TickPhase.considering.inj isHeld
          exact ⟨sound.tableChoice_mem chosen, by simp⟩
  | cons head rest =>
      have isHead : kernel.readyHead = some head := sound.isQueue.linked.1
      rcases sound.isQueue.dequeueReadyHead with ⟨isQueue, relinked⟩
      simp only [Kernel.tickSelect, isHead]
      refine ⟨rest, ⟨sound.settled.relinked relinked, isQueue, ?_, ?_⟩, ?_, .tail (by simp)⟩
      · intro node mem
        rw [relinked.threadBlocks]
        exact sound.allocated node (List.mem_cons_of_mem _ mem)
      · intro node mem
        rw [relinked.state]
        exact sound.awake node (List.mem_cons_of_mem _ mem)
      · intro held isHeld
        split at isHeld
        · simp at isHeld
        · rcases TickPhase.considering.inj isHeld
          rw [relinked.threadBlocks]
          exact ⟨sound.allocated head List.mem_cons_self,
            (List.nodup_cons.mp sound.isQueue.distinct).1⟩

theorem tickConsider (sound : kernel.Sound queue) {next : ℕ} {phase : TickPhase}
    (held : next ∈ kernel.threadBlocks ∧ next ∉ queue)
    (runs : kernel.tickConsider fuel next = some (phase, after)) :
    ∃ queue', after.Sound queue' ∧ Holds after queue' phase ∧ SameOthers [next] queue queue' := by
  simp only [Kernel.tickConsider] at runs
  split at runs
  · simp only [Option.map_eq_some_iff, Prod.mk.injEq] at runs
    rcases runs with ⟨removed, removes, rfl, rfl⟩
    exact ⟨queue.erase next, sound.removeFromReadyQueue removes, by simp [Holds],
      .erase (by simp)⟩
  rename_i runnable
  rw [not_or] at runnable
  split at runs
  · simp only [Option.map_eq_some_iff, Prod.mk.injEq] at runs
    rcases runs with ⟨queued, queues, rfl, rfl⟩
    have cooled : (kernel.modifyThread next
        (fun record => { record with cooldown := record.cooldown - 1 })).Sound queue :=
      sound.modifyThread (sound.settled.modifyThread_other rfl rfl rfl) rfl
        (fun mem => sound.awake next mem)
    refine ⟨queue ++ [next], ?_, by simp [Holds], .append (by simp)⟩
    apply cooled.enqueueReadyTail held.2 held.1 _ queues
    simpa using runnable.1
  have cooled : (kernel.modifyThread next (fun record =>
      { record with cooldown := priorityToStride record.priority - 1 })).Sound queue :=
    sound.modifyThread (sound.settled.modifyThread_other rfl rfl rfl) rfl
      (fun mem => sound.awake next mem)
  split at runs
  · rename_i noStack
    exact absurd noStack.2 (sound.settled.kernelStacks next held.1 noStack.1)
  · simp only [Option.some.injEq, Prod.mk.injEq] at runs
    rcases runs with ⟨rfl, rfl⟩
    have alive : ((kernel.modifyThread next (fun record =>
        { record with cooldown := priorityToStride record.priority - 1 })).threads next).state ≠
          .termed := by
      simpa using runnable.2
    have dispatched := cooled.frame (cooled.settled.setCurrent held.1 alive) rfl rfl
      cooled.allocated (fun _ _ => rfl)
    exact ⟨queue, dispatched.setState (by simp) (by simp), by simp [Holds], .refl⟩

end Sound

end Kernel

/-! ## Runs of the scheduling system -/

namespace Machine

def Sound (machine : Machine) (queue : List ℕ) : Prop :=
  machine.kernel.Sound queue ∧ Kernel.Sound.Holds machine.kernel queue machine.phase

/-- The threads that an operation names. -/
def named (machine : Machine) : SchedulingOperation → List ℕ
  | .threadCreate _ memory _ => [memory.thread]
  | .threadUnblock tid _ => (machine.kernel.threadFromTid tid).toList
  | .threadBlock tid => (machine.kernel.threadFromTid tid).toList
  | .threadTerminate tid _ => (machine.kernel.threadFromTid tid).toList
  | .cleanUp => machine.kernel.terminated
  | .addToReadyQueue t => t.toList
  | .removeFromReadyQueue t => t.toList
  | .tick _ => machine.kernel.currentThread.toList
  | .tickSelect => machine.kernel.readyHead.toList
  | .tickConsider =>
      match machine.phase with
      | .considering next => [next]
      | _ => []
  | .tickCleanUp => machine.kernel.terminated

/-- A thread that is terminated has nobody behind it on the queue, and a thread that
a tick puts on the queue is not there yet. -/
def LinksKept (machine : Machine) : SchedulingOperation → Prop
  | .threadTerminate tid _ => ∀ t queue, machine.kernel.threadFromTid tid = some t →
      machine.kernel.currentThread ≠ some t → machine.kernel.IsReadyQueue queue → t ∈ queue →
        machine.kernel.readyTail = some t
  | .tick _ => ∀ old queue, machine.kernel.currentThread = some old →
      (machine.kernel.threads old).state = .running ∨
        (machine.kernel.threads old).state = .ready → machine.kernel.IsReadyQueue queue →
          old ∉ queue
  | _ => True

theorem Sound.step {before after : Machine} {operation : SchedulingOperation} {queue : List ℕ}
    (sound : before.Sound queue) (guard : before.LinksKept operation)
    (step : SchedulingStep before operation after) :
    ∃ queue', after.Sound queue' ∧ Kernel.SameOthers (before.named operation) queue queue' := by
  have between {kernel : Kernel} {queue : List ℕ} : Kernel.Sound.Holds kernel queue .idle := by
    simp [Kernel.Sound.Holds]
  rcases sound with ⟨sound, holds⟩
  cases step with
  | threadCreate fresh runs =>
      rcases sound.threadCreate fresh runs with ⟨queue', soundAfter, same⟩
      exact ⟨queue', ⟨soundAfter, between⟩, same⟩
  | threadUnblock runs =>
      rcases sound.threadUnblock runs with ⟨queue', soundAfter, same⟩
      exact ⟨queue', ⟨soundAfter, between⟩, same⟩
  | threadBlock runs =>
      rcases sound.threadBlock runs with ⟨queue', soundAfter, same⟩
      exact ⟨queue', ⟨soundAfter, between⟩, same⟩
  | threadTerminate runs =>
      rcases sound.threadTerminate (fun t found notCurrent mem =>
        guard t queue found notCurrent sound.isQueue mem) runs with ⟨queue', soundAfter, same⟩
      exact ⟨queue', ⟨soundAfter, between⟩, same⟩
  | cleanUp runs =>
      rcases sound.cleanUp runs with ⟨queue', soundAfter, same⟩
      exact ⟨queue', ⟨soundAfter, between⟩, same⟩
  | addToReadyQueue valid runs =>
      rcases sound.addToReadyQueue valid runs with ⟨queue', soundAfter, same⟩
      exact ⟨queue', ⟨soundAfter, between⟩, same⟩
  | removeFromReadyQueue valid runs =>
      rcases sound.removeTarget runs with ⟨queue', soundAfter, same⟩
      exact ⟨queue', ⟨soundAfter, between⟩, same⟩
  | tick runs =>
      rcases sound.tickPrologue (fun old isCurrent runnable =>
        guard old queue isCurrent runnable sound.isQueue) runs with ⟨queue', soundAfter, same⟩
      exact ⟨queue', ⟨soundAfter, by simp [Kernel.Sound.Holds]⟩, same⟩
  | tickSelect =>
      rcases sound.tickSelect with ⟨queue', soundAfter, holdsAfter, same⟩
      exact ⟨queue', ⟨soundAfter, holdsAfter⟩, same⟩
  | tickConsider runs =>
      rcases sound.tickConsider (holds _ rfl) runs with ⟨queue', soundAfter, holdsAfter, same⟩
      exact ⟨queue', ⟨soundAfter, holdsAfter⟩, same⟩
  | tickCleanUp runs =>
      rcases sound.cleanUp runs with ⟨queue', soundAfter, same⟩
      exact ⟨queue', ⟨soundAfter, between⟩, same⟩

end Machine

/-- The kernel before `init_threading`: the globals are zero and no thread exists. -/
structure Kernel.Unstarted (kernel : Kernel) : Prop where
  readyHead : kernel.readyHead = none
  readyTail : kernel.readyTail = none
  currentThread : kernel.currentThread = none
  threadBlocks : kernel.threadBlocks = []
  waiters : ∀ p, (kernel.processes p).waitHead = none

/-- The machine after `init_threading`. -/
def Machine.Booted (machine : Machine) : Prop :=
  machine.phase = .idle ∧ ∃ unstarted kernelThread idleTask memory,
    unstarted.Unstarted ∧ kernelThread ≠ 0 ∧ memory.thread ≠ kernelThread ∧
      Kernel.initThreading unstarted kernelThread idleTask memory = some machine.kernel

theorem Kernel.Unstarted.sound {kernel : Kernel} (unstarted : kernel.Unstarted) (kernelThread : ℕ) :
    (kernel.startKernelThread kernelThread).Sound [] := by
  have settled : ({ kernel with
      threadTable := fun _ => none
      threadBlocks := kernelThread :: kernel.threadBlocks }.modifyThread kernelThread
      (fun _ => { state := .running, priority := .immediate })).Settled := by
    refine ⟨by simp [modifyThread], by simp [modifyThread], ?_, ?_, unstarted.waiters⟩
    · simp [modifyThread, unstarted.currentThread]
    · simp [modifyThread, unstarted.threadBlocks]
  have attached := settled.attachOwner kernelThread 0
  rcases Sound.attachOwner_eq
    ({ kernel with
      threadTable := fun _ => none
      threadBlocks := kernelThread :: kernel.threadBlocks }.modifyThread kernelThread
      (fun _ => { state := .running, priority := .immediate })) kernelThread 0 with
    ⟨oPid, proc, processes, equation⟩
  simp only [Kernel.startKernelThread]
  rw [equation] at attached ⊢
  refine ⟨⟨?_, ?_, ?_, attached.kernelStacks, attached.waiters⟩, ?_, by simp, by simp⟩
  · intro slot t listed
    by_cases first : slot = 0
    · simp_all [modifyThread]
    · simp [modifyThread, first] at listed
  · intro slot other t listed otherListed
    by_cases first : slot = 0 <;> by_cases second : other = 0 <;>
      simp_all [modifyThread]
  · intro t isCurrent
    rcases Option.some.inj isCurrent
    simp [modifyThread]
  · exact .of_linked unstarted.readyHead unstarted.readyTail

theorem Machine.Booted.sound {machine : Machine} (booted : machine.Booted) :
    ∃ queue, machine.Sound queue := by
  rcases booted with ⟨idle, kernel, kernelThread, idleTask, memory, unstarted, _, fresh, runs⟩
  simp only [Kernel.initThreading, Option.bind_eq_some_iff] at runs
  rcases runs with ⟨⟨answer, after⟩, creates, returns⟩
  simp only at returns
  split at returns
  · simp at returns
  rw [Option.some.injEq] at returns
  have blocks : (kernel.startKernelThread kernelThread).threadBlocks = [kernelThread] := by
    simp [Kernel.startKernelThread, Kernel.modifyThread, unstarted.threadBlocks]
  rcases (unstarted.sound kernelThread).threadCreate (by simpa [blocks] using fresh) creates with
    ⟨queue, sound, _⟩
  rw [returns] at sound
  exact ⟨queue, sound, by simp [Kernel.Sound.Holds, idle]⟩

/-- In every run that keeps the links, the ready queue is well-formed in every state
reached, its loops end there, and the next step that keeps the links changes the
queue only by the threads it names. -/
theorem ready_queue_guarded_runs {start last : Machine} {operations : List SchedulingOperation}
    (booted : start.Booted)
    (run : Transition.Run (Transition.Guarded Machine.LinksKept SchedulingStep) start operations
      last) :
    ∃ queue, last.kernel.IsReadyQueue queue ∧
      (last.kernel.readyHead = none ↔ queue = []) ∧ (last.kernel.readyTail = none ↔ queue = []) ∧
      (∀ t, ∃ fuel after, last.kernel.removeFromReadyQueue fuel (some t) = some after) ∧
      ∀ operation after, last.LinksKept operation → SchedulingStep last operation after →
        ∃ queue', after.kernel.IsReadyQueue queue' ∧
          Kernel.SameOthers (last.named operation) queue queue' := by
  have preserved : ∀ before operation after, (∃ queue, before.Sound queue) →
      Transition.Guarded Machine.LinksKept SchedulingStep before operation after →
        ∃ queue, after.Sound queue := by
    rintro before operation after ⟨queue, sound⟩ ⟨guard, step⟩
    rcases sound.step guard step with ⟨queue', soundAfter, _⟩
    exact ⟨queue', soundAfter⟩
  rcases run.invariant preserved booted.sound with ⟨queue, sound⟩
  have isQueue := sound.1.isQueue
  refine ⟨queue, isQueue, isQueue.linked.head_eq_none_iff, ?_,
    isQueue.removeFromReadyQueue_returns, ?_⟩
  · rw [isQueue.tail, List.getLast?_eq_none_iff]
  · intro operation after guard step
    rcases sound.step guard step with ⟨queue', soundAfter, same⟩
    exact ⟨queue', soundAfter.1.isQueue, same⟩

/-! ## A kernel that has just started -/

theorem startedMachine_booted : startedMachine.Booted := by
  have returns : (unstartedKernel.initThreading 0x1000 0x5000 (threadMemoryAt 0x1100)).isSome := by
    decide +kernel
  refine ⟨rfl, unstartedKernel, 0x1000, 0x5000, threadMemoryAt 0x1100, ?_, by decide, by decide, ?_⟩
  · exact ⟨rfl, rfl, rfl, rfl, fun _ => rfl⟩
  · rcases Option.isSome_iff_exists.mp returns with ⟨kernel, equation⟩
    simp [startedMachine, startedKernel, equation]

/-- The kernel after `thread_create` with the given block. -/
def Kernel.withThread (kernel : Kernel) (thread : ℕ) : Kernel :=
  ((kernel.threadCreate kernelThreadRequest (threadMemoryAt thread)).getD (none, kernel)).2

theorem Kernel.withThread_eq {kernel : Kernel} {thread : ℕ}
    (returns : (kernel.threadCreate kernelThreadRequest (threadMemoryAt thread)).map Prod.fst =
      some (some thread)) :
    kernel.threadCreate kernelThreadRequest (threadMemoryAt thread) =
      some (some thread, kernel.withThread thread) := by
  rcases Option.map_eq_some_iff.mp returns with ⟨⟨answer, after⟩, equation, rfl⟩
  simp [Kernel.withThread, equation]

/-- The machine after one more thread has been created. -/
def createdMachine : Machine := ⟨startedKernel.withThread 0x1200, .idle, {}⟩

theorem ready_queue_guarded_runs_created :
    ∃ queue, createdMachine.kernel.IsReadyQueue queue ∧ queue ≠ [] := by
  have run : Transition.Run (Transition.Guarded Machine.LinksKept SchedulingStep) startedMachine
      [.threadCreate kernelThreadRequest (threadMemoryAt 0x1200) (some 0x1200)] createdMachine :=
    .cons ⟨trivial, .threadCreate (by decide +kernel)
      (Kernel.withThread_eq (by decide +kernel))⟩ (.nil _)
  rcases ready_queue_guarded_runs startedMachine_booted run with ⟨queue, isQueue, head, _⟩
  refine ⟨queue, isQueue, fun empty => absurd (head.mpr empty) ?_⟩
  decide +kernel

/-- Three threads are queued and the first of them is terminated: the head pointer is
then null while the tail still points to the third thread, and the two others
are lost. -/
def firstTerminated : Kernel :=
  ((((startedKernel.withThread 0x1200).withThread 0x1300).threadTerminate 4 1).getD
    (none, startedKernel)).2

theorem terminate_detaches_queue :
    startedMachine.Booted ∧ ∃ operations last,
      Transition.Run SchedulingStep startedMachine operations last ∧
        ¬ ∃ queue, last.kernel.IsReadyQueue queue := by
  have returns : (((startedKernel.withThread 0x1200).withThread 0x1300).threadTerminate 4 1).map
      Prod.fst = some (some 0) := by
    decide +kernel
  have terminates : ((startedKernel.withThread 0x1200).withThread 0x1300).threadTerminate 4 1 =
      some (some 0, firstTerminated) := by
    rcases Option.map_eq_some_iff.mp returns with ⟨⟨answer, after⟩, equation, rfl⟩
    simp [firstTerminated, equation]
  have run : Transition.Run SchedulingStep startedMachine
      [.threadCreate kernelThreadRequest (threadMemoryAt 0x1200) (some 0x1200),
        .threadCreate kernelThreadRequest (threadMemoryAt 0x1300) (some 0x1300),
        .threadTerminate 1 (some 0)]
      ⟨firstTerminated, .idle, {}⟩ :=
    .cons (.threadCreate (by decide +kernel) (Kernel.withThread_eq (by decide +kernel)))
      (.cons (.threadCreate (by decide +kernel) (Kernel.withThread_eq (by decide +kernel)))
        (.cons (.threadTerminate terminates) (.nil _)))
  refine ⟨startedMachine_booted, _, _, run, ?_⟩
  rintro ⟨queue, isQueue⟩
  have head : firstTerminated.readyHead = none := by decide +kernel
  have tail : firstTerminated.readyTail = some 0x1300 := by decide +kernel
  have empty := isQueue.linked.head_eq_none_iff.mp head
  have last : firstTerminated.readyTail = queue.getLast? := isQueue.tail
  rw [tail, empty] at last
  simp at last

end Goshkik

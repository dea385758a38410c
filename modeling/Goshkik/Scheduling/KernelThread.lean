import Goshkik.Scheduling.QueueInvariant

/-!
# The kernel thread

The thread in slot 0 of the table has thread id 0, which no operation terminates, so a tick
always finds a thread to go on with.  `Spares` says what the operations leave alone that
neither save a frame nor create a thread: the kernel thread and every saved context.
-/

namespace Goshkik

namespace Kernel

/-- The kernel thread is in its slot and alive. -/
structure HoldsKernelThread (kernel : Kernel) (k : ℕ) : Prop where
  slot : kernel.threadTable 0 = some k
  block : k ∈ kernel.threadBlocks
  tid : (kernel.threads k).tid = 0
  privilege : (kernel.threads k).privilege = .ring0
  alive : (kernel.threads k).state ≠ .termed

structure Spares (k : ℕ) (before after : Kernel) : Prop where
  context : ∀ t, (after.threads t).context = (before.threads t).context
  tid : ∀ t, (after.threads t).tid = (before.threads t).tid
  privilege : ∀ t, (after.threads t).privilege = (before.threads t).privilege
  slot : before.threadTable 0 = some k → after.threadTable 0 = some k
  block : k ∈ before.threadBlocks → k ∈ after.threadBlocks
  alive : (before.threads k).state ≠ .termed → (after.threads k).state ≠ .termed

variable {k t p wanted fuel : ℕ} {kernel middle after : Kernel}

theorem Relinked.context (relinked : Relinked kernel after) (t : ℕ) :
    (after.threads t).context = (kernel.threads t).context := by
  simpa using congrArg Thread.context (relinked.records t)

theorem Relinked.tid (relinked : Relinked kernel after) (t : ℕ) :
    (after.threads t).tid = (kernel.threads t).tid := by
  simpa using congrArg Thread.tid (relinked.records t)

theorem threadFromTid_tid (found : kernel.threadFromTid wanted = some t) :
    (kernel.threads t).tid = wanted := by
  rcases List.exists_of_findSome?_eq_some found with ⟨slot, _, listed⟩
  simpa using (Option.filter_eq_some_iff.mp listed).2

/-- Writing fields that say nothing about threads. -/
theorem HoldsKernelThread.rest (holds : kernel.HoldsKernelThread k)
    (threads : after.threads = kernel.threads) (slot : after.threadTable 0 = some k)
    (block : k ∈ after.threadBlocks) : after.HoldsKernelThread k where
  slot := slot
  block := block
  tid := by
    rw [threads]
    exact holds.tid
  privilege := by
    rw [threads]
    exact holds.privilege
  alive := by
    rw [threads]
    exact holds.alive

/-- There is always a thread to fall back on. -/
theorem HoldsKernelThread.tableChoice (holds : kernel.HoldsKernelThread k) :
    kernel.tableChoice ≠ none := by
  simp only [Kernel.tableChoice]
  split
  · simp
  · have fallsBack : (kernel.threadTable 0).filter (fun t => (kernel.threads t).state ≠ .termed) =
        some k := by
      rw [holds.slot]
      simp [holds.alive]
    rw [fallsBack]
    simp

namespace Spares

theorem keeps (spares : Spares k kernel after) (holds : kernel.HoldsKernelThread k) :
    after.HoldsKernelThread k where
  slot := spares.slot holds.slot
  block := spares.block holds.block
  tid := (spares.tid k).trans holds.tid
  privilege := (spares.privilege k).trans holds.privilege
  alive := spares.alive holds.alive

theorem refl (k : ℕ) (kernel : Kernel) : Spares k kernel kernel :=
  ⟨fun _ => rfl, fun _ => rfl, fun _ => rfl, id, id, id⟩

theorem trans (first : Spares k kernel middle) (second : Spares k middle after) :
    Spares k kernel after where
  context := fun t => (second.context t).trans (first.context t)
  tid := fun t => (second.tid t).trans (first.tid t)
  privilege := fun t => (second.privilege t).trans (first.privilege t)
  slot := fun slot => second.slot (first.slot slot)
  block := fun block => second.block (first.block block)
  alive := fun alive => second.alive (first.alive alive)

theorem of_relinked (relinked : Relinked kernel after) : Spares k kernel after where
  context := relinked.context
  tid := relinked.tid
  privilege := relinked.privilege
  slot := by
    rw [relinked.threadTable]
    exact id
  block := by
    rw [relinked.threadBlocks]
    exact id
  alive := by
    rw [relinked.state]
    exact id

/-- Writing other fields of a thread. -/
theorem modifyThread {change : Thread → Thread}
    (context : (change (kernel.threads t)).context = (kernel.threads t).context)
    (tid : (change (kernel.threads t)).tid = (kernel.threads t).tid)
    (privilege : (change (kernel.threads t)).privilege = (kernel.threads t).privilege)
    (alive : t = k → (kernel.threads k).state ≠ .termed →
      (change (kernel.threads t)).state ≠ .termed) :
    Spares k kernel (kernel.modifyThread t change) := by
  refine ⟨?_, ?_, ?_, id, id, ?_⟩
  · intro other
    by_cases same : other = t
    · subst same
      rwa [modifyThread_threads_same]
    · rw [modifyThread_threads_ne _ _ _ same]
  · intro other
    by_cases same : other = t
    · subst same
      rwa [modifyThread_threads_same]
    · rw [modifyThread_threads_ne _ _ _ same]
  · intro other
    by_cases same : other = t
    · subst same
      rwa [modifyThread_threads_same]
    · rw [modifyThread_threads_ne _ _ _ same]
  · intro before
    by_cases same : k = t
    · subst same
      rw [modifyThread_threads_same]
      exact alive rfl before
    · rwa [modifyThread_threads_ne _ _ _ same]

theorem setState {state : ThreadState} (alive : t = k → state ≠ .termed) :
    Spares k kernel (kernel.setState t state) :=
  modifyThread rfl rfl rfl (fun same _ => alive same)

/-- Writing fields that say nothing about threads. -/
theorem rest (threads : after.threads = kernel.threads)
    (table : after.threadTable = kernel.threadTable)
    (blocks : after.threadBlocks = kernel.threadBlocks) : Spares k kernel after := by
  refine ⟨?_, ?_, ?_, ?_, ?_, ?_⟩
  · simp [threads]
  · simp [threads]
  · simp [threads]
  · simp [table]
  · simp [blocks]
  · simp [threads]

theorem appendReady (runs : kernel.appendReady t = some after) : Spares k kernel after :=
  of_relinked (.appendReady runs)

theorem enqueueReadyTail (runs : kernel.enqueueReadyTail t = some after) : Spares k kernel after :=
  of_relinked (.enqueueReadyTail runs)

theorem removeFromReadyQueue {target : Option ℕ}
    (runs : kernel.removeFromReadyQueue fuel target = some after) : Spares k kernel after :=
  of_relinked (.removeFromReadyQueue runs)

theorem detachThread (t : ℕ) : Spares k kernel (kernel.detachThread t) := by
  unfold Kernel.detachThread
  split
  · exact refl k kernel
  · exact rest rfl rfl rfl

theorem attachOwner (k t ownerPid : ℕ) : Spares k kernel (kernel.attachOwner t ownerPid) := by
  unfold Kernel.attachOwner
  split
  · exact refl k kernel
  · rename_i owner _
    have owned : Spares k kernel (kernel.modifyThread t (fun record =>
        { record with
          oPid := ((kernel.processes owner).pid % 2 ^ 32).toNat
          proc := some owner })) :=
      modifyThread rfl rfl rfl (fun same alive => same ▸ alive)
    exact owned.trans (rest rfl rfl rfl)

theorem addToReadyQueue {target : Option ℕ}
    (runs : kernel.addToReadyQueue fuel target = some after) : Spares k kernel after := by
  cases target with
  | none =>
      cases runs
      exact refl k kernel
  | some t =>
      simp only [Kernel.addToReadyQueue] at runs
      split at runs
      · cases runs
        exact refl k kernel
      · split at runs
        · cases runs
        · cases runs
          exact refl k kernel
        · have ready : Spares k kernel ((kernel.setNext t none).setState t .ready) :=
            (of_relinked (.setNext kernel t none)).trans (setState (fun _ => by decide))
          exact ready.trans (enqueueReadyTail runs)

theorem threadUnblock {answer : ℤ} (runs : kernel.threadUnblock wanted = some (answer, after)) :
    Spares k kernel after := by
  simp only [Kernel.threadUnblock] at runs
  split at runs
  · cases runs
    exact refl k kernel
  · rename_i t _
    split at runs
    · cases runs
      exact refl k kernel
    · rcases Option.map_eq_some_iff.mp runs with ⟨queued, appends, equation⟩
      cases equation
      have ready : Spares k kernel ((kernel.setState t .ready).setNext t none) :=
        (setState (fun _ => by decide)).trans (of_relinked (.setNext _ t none))
      exact ready.trans (appendReady appends)

theorem wakeFrom {cur : Option ℕ} (runs : Kernel.wakeFrom fuel kernel cur = some after) :
    Spares k kernel after := by
  induction fuel generalizing kernel cur with
  | zero =>
      cases cur with
      | none =>
          cases runs
          exact refl k _
      | some waiter => cases runs
  | succ fuel ih =>
      cases cur with
      | none =>
          cases runs
          exact refl k _
      | some waiter =>
          rcases Option.bind_eq_some_iff.mp runs with ⟨⟨answer, woken⟩, unblocks, wakes⟩
          exact (threadUnblock unblocks).trans (ih wakes)

theorem wakeWaiters (runs : kernel.wakeWaiters fuel p = some after) : Spares k kernel after := by
  rcases Option.map_eq_some_iff.mp runs with ⟨woken, wakes, rfl⟩
  exact (wakeFrom wakes).trans (rest rfl rfl rfl)

theorem leaveProcess (runs : kernel.leaveProcess fuel t = some after) : Spares k kernel after := by
  simp only [Kernel.leaveProcess] at runs
  split at runs
  · cases runs
    exact refl k kernel
  · split at runs
    · rename_i p _ _
      have left : Spares k kernel (kernel.modifyProcess p (fun record =>
          { record with exitCode := 0, state := .zombie })) :=
        rest rfl rfl rfl
      exact left.trans (wakeWaiters runs)
    · cases runs
      exact refl k kernel

theorem threadBlock (runs : kernel.threadBlock fuel wanted = some after) :
    Spares k kernel after := by
  simp only [Kernel.threadBlock] at runs
  split at runs
  · cases runs
  · split at runs
    · cases runs
    · exact (setState (fun _ => by decide)).trans (removeFromReadyQueue runs)

theorem threadExit (holds : kernel.HoldsKernelThread k)
    (runs : kernel.threadExit fuel = some after) :
    Spares k kernel after ∧ after.currentThread = none := by
  simp only [Kernel.threadExit] at runs
  split at runs
  · cases runs
  · rename_i current _
    split at runs
    · cases runs
    · rename_i named
      rcases Option.map_eq_some_iff.mp runs with ⟨left, leaves, rfl⟩
      have other : current ≠ k := by
        rintro rfl
        exact named holds.tid
      have termed : Spares k left (left.setState current .termed) :=
        setState (fun same => absurd same other)
      exact ⟨(leaveProcess leaves).trans (termed.trans (rest rfl rfl rfl)), rfl⟩

theorem threadTerminate (holds : kernel.HoldsKernelThread k) {answer : Option ℤ}
    (runs : kernel.threadTerminate fuel wanted = some (answer, after)) :
    Spares k kernel after ∧
      after.currentThread = if answer = none then none else kernel.currentThread := by
  simp only [Kernel.threadTerminate] at runs
  split at runs
  · cases runs
    exact ⟨refl k kernel, rfl⟩
  · rename_i nonzero
    split at runs
    · cases runs
      exact ⟨refl k kernel, rfl⟩
    · rename_i t found
      split at runs
      · rcases Option.map_eq_some_iff.mp runs with ⟨exited, exits, equation⟩
        cases equation
        exact threadExit holds exits
      · rcases Option.map_eq_some_iff.mp runs with ⟨removed, removes, equation⟩
        cases equation
        have other : t ≠ k := by
          rintro rfl
          exact nonzero ((threadFromTid_tid found).symm.trans holds.tid)
        have termed : Spares k kernel (kernel.setState t .termed) :=
          setState (fun same => absurd same other)
        have detached : Spares k kernel ((kernel.setState t .termed).detachThread t) :=
          termed.trans (detachThread t)
        refine ⟨detached.trans
          ((of_relinked (.setNext _ t none)).trans (removeFromReadyQueue removes)), ?_⟩
        rw [(Relinked.removeFromReadyQueue removes).currentThread]
        simp only [Kernel.detachThread, Kernel.setNext, Kernel.modifyThread]
        split <;> rfl

theorem freeThread {slot : ℕ} (listed : kernel.threadTable slot = some t)
    (dead : (kernel.threads t).state = .termed) (holds : kernel.HoldsKernelThread k) :
    Spares k kernel (kernel.freeThread slot t) := by
  have other : t ≠ k := by
    rintro rfl
    exact holds.alive dead
  have slotOther : slot ≠ 0 := by
    rintro rfl
    exact other (Option.some.inj (listed.symm.trans holds.slot))
  have detached : Spares k kernel (kernel.detachThread t) := detachThread t
  refine detached.trans ⟨fun _ => rfl, fun _ => rfl, fun _ => rfl, ?_, ?_, id⟩
  · intro kept
    simpa [Kernel.freeThread, slotOther.symm] using kept
  · intro mem
    exact (List.mem_erase_of_ne other.symm).mpr mem

theorem cleanUpSlot {slot : ℕ} (holds : kernel.HoldsKernelThread k)
    (runs : Kernel.cleanUpSlot fuel kernel slot = some after) :
    Spares k kernel after ∧ after.currentThread = kernel.currentThread := by
  simp only [Kernel.cleanUpSlot] at runs
  split at runs
  · cases runs
    exact ⟨refl k kernel, rfl⟩
  · rename_i t listed
    split at runs
    · rename_i dead
      rcases Option.map_eq_some_iff.mp runs with ⟨removed, removes, rfl⟩
      have relinked := Relinked.removeFromReadyQueue removes
      have spares : Spares k kernel removed := of_relinked relinked
      have freed : Spares k removed (removed.freeThread slot t) :=
        freeThread (by rwa [relinked.threadTable]) (by rwa [relinked.state]) (spares.keeps holds)
      refine ⟨spares.trans freed, ?_⟩
      rw [← relinked.currentThread]
      simp only [Kernel.freeThread, Kernel.detachThread]
      split <;> rfl
    · cases runs
      exact ⟨refl k kernel, rfl⟩

theorem cleanUpSlots {slots : List ℕ} (holds : kernel.HoldsKernelThread k)
    (runs : slots.foldlM (Kernel.cleanUpSlot fuel) kernel = some after) :
    Spares k kernel after ∧ after.currentThread = kernel.currentThread := by
  induction slots generalizing kernel with
  | nil =>
      cases runs
      exact ⟨refl k _, rfl⟩
  | cons slot slots ih =>
      rw [List.foldlM_cons] at runs
      rcases Option.bind_eq_some_iff.mp runs with ⟨middle, cleans, rest⟩
      rcases cleanUpSlot holds cleans with ⟨spares, current⟩
      rcases ih (spares.keeps holds) rest with ⟨sparesRest, currentRest⟩
      exact ⟨spares.trans sparesRest, currentRest.trans current⟩

theorem cleanUp (holds : kernel.HoldsKernelThread k) (runs : kernel.cleanUp fuel = some after) :
    Spares k kernel after ∧ after.currentThread = kernel.currentThread :=
  cleanUpSlots holds runs

theorem tickSelect (holds : kernel.HoldsKernelThread k) :
    Spares k kernel kernel.tickSelect.2 ∧ kernel.tickSelect.1 ≠ .idle ∧
      kernel.tickSelect.1 ≠ .dispatched := by
  simp only [Kernel.tickSelect]
  split
  · rename_i head _
    refine ⟨of_relinked (.dequeueReadyHead kernel head), ?_, ?_⟩ <;> split <;> simp
  · split
    · exact ⟨refl k kernel, by simp, by simp⟩
    · rename_i none
      exact absurd none holds.tableChoice

/-- A dispatch leaves the contexts alone as well. -/
theorem tickConsider (holds : kernel.HoldsKernelThread k) {next : ℕ} {phase : TickPhase}
    (runs : kernel.tickConsider fuel next = some (phase, after)) :
    Spares k kernel after ∧ (phase = .selecting ∨
      phase = .dispatched ∧ after.currentThread = some next) := by
  simp only [Kernel.tickConsider] at runs
  split at runs
  · rcases Option.map_eq_some_iff.mp runs with ⟨removed, removes, equation⟩
    cases equation
    exact ⟨removeFromReadyQueue removes, .inl rfl⟩
  · rename_i awake
    split at runs
    · rcases Option.map_eq_some_iff.mp runs with ⟨queued, queues, equation⟩
      cases equation
      have cooled : Spares k kernel (kernel.modifyThread next (fun record =>
          { record with cooldown := record.cooldown - 1 })) :=
        modifyThread rfl rfl rfl (fun same alive => same ▸ alive)
      exact ⟨cooled.trans (enqueueReadyTail queues), .inl rfl⟩
    · have cooled : Spares k kernel (kernel.modifyThread next (fun record =>
          { record with cooldown := priorityToStride record.priority - 1 })) :=
        modifyThread rfl rfl rfl (fun same alive => same ▸ alive)
      split at runs
      · rename_i stackless
        cases runs
        have other : next ≠ k := by
          rintro rfl
          simp [holds.privilege] at stackless
        exact ⟨cooled.trans (setState (fun same => absurd same other)), .inl rfl⟩
      · cases runs
        have chosen : Spares k kernel { kernel.modifyThread next (fun record =>
            { record with cooldown := priorityToStride record.priority - 1 }) with
              currentThread := some next } :=
          cooled.trans (rest rfl rfl rfl)
        exact ⟨chosen.trans (setState (fun _ => by decide)), .inr ⟨rfl, rfl⟩⟩

end Spares

theorem addToReadyQueue_currentThread {target : Option ℕ}
    (runs : kernel.addToReadyQueue fuel target = some after) :
    after.currentThread = kernel.currentThread := by
  cases target with
  | none =>
      cases runs
      rfl
  | some t =>
      simp only [addToReadyQueue] at runs
      split at runs
      · cases runs
        rfl
      · split at runs
        · cases runs
        · cases runs
          rfl
        · exact (Relinked.enqueueReadyTail runs).currentThread

theorem threadUnblock_currentThread {answer : ℤ}
    (runs : kernel.threadUnblock wanted = some (answer, after)) :
    after.currentThread = kernel.currentThread := by
  simp only [threadUnblock] at runs
  split at runs
  · cases runs
    rfl
  · split at runs
    · cases runs
      rfl
    · rcases Option.map_eq_some_iff.mp runs with ⟨queued, appends, equation⟩
      cases equation
      exact (Relinked.appendReady appends).currentThread

theorem threadBlock_currentThread (runs : kernel.threadBlock fuel wanted = some after) :
    after.currentThread = kernel.currentThread := by
  simp only [threadBlock] at runs
  split at runs
  · cases runs
  · split at runs
    · cases runs
    · exact (Relinked.removeFromReadyQueue runs).currentThread

/-- The prologue of a tick saves the frame of the current thread and nothing else. -/
theorem tickPrologue_spares {context : Context} (holds : kernel.HoldsKernelThread k)
    (runs : kernel.tickPrologue fuel context = some after) :
    after.HoldsKernelThread k ∧ ∀ t, (after.threads t).context =
      if kernel.currentThread = some t then context else (kernel.threads t).context := by
  simp only [Kernel.tickPrologue] at runs
  split at runs
  · rename_i none
    cases runs
    simp [none, holds]
  · rename_i old current
    have saved : (kernel.modifyThread old (fun record =>
        { record with context := context })).HoldsKernelThread k := by
      refine ⟨holds.slot, holds.block, ?_, ?_, ?_⟩
      all_goals
        by_cases same : k = old
      · subst same
        simpa using holds.tid
      · rw [modifyThread_threads_ne _ _ _ same]
        exact holds.tid
      · subst same
        simpa using holds.privilege
      · rw [modifyThread_threads_ne _ _ _ same]
        exact holds.privilege
      · subst same
        simpa using holds.alive
      · rw [modifyThread_threads_ne _ _ _ same]
        exact holds.alive
    have spares : Spares k (kernel.modifyThread old (fun record =>
        { record with context := context })) after := by
      split at runs
      · exact (Spares.setState (fun _ => by decide)).trans (.enqueueReadyTail runs)
      · exact (Spares.setState (fun _ => by decide)).trans (.enqueueReadyTail runs)
      · rcases Option.map_eq_some_iff.mp runs with ⟨removed, removes, rfl⟩
        exact (Spares.removeFromReadyQueue removes).trans (Spares.rest rfl rfl rfl)
      · rcases Option.map_eq_some_iff.mp runs with ⟨removed, removes, rfl⟩
        exact (Spares.removeFromReadyQueue removes).trans (Spares.rest rfl rfl rfl)
    refine ⟨spares.keeps saved, ?_⟩
    intro t
    rw [spares.context]
    by_cases same : t = old
    · subst same
      simp [current]
    · have different : kernel.currentThread ≠ some t := by
        rw [current]
        simpa using Ne.symm same
      rw [modifyThread_threads_ne _ _ _ same, if_neg different]

/-- `thread_create` gets as far as the context of the new thread. -/
def Builds (kernel : Kernel) (request : ThreadRequest) (memory : ThreadMemory) : Prop :=
  ¬(request.function = 0 ∨ maxThreads ≤ kernel.threadCount ∨ memory.thread = 0) ∧
    request.lacksStack memory = false

instance (kernel : Kernel) (request : ThreadRequest) (memory : ThreadMemory) :
    Decidable (kernel.Builds request memory) :=
  inferInstanceAs (Decidable (_ ∧ _))

theorem buildThread_context (kernel : Kernel) (request : ThreadRequest) (memory : ThreadMemory)
    (t : ℕ) : ((kernel.buildThread request memory).threads t).context =
      if t = memory.thread then request.context memory.stackBase
      else (kernel.threads t).context := by
  unfold Kernel.buildThread
  rw [(Spares.attachOwner memory.thread memory.thread request.ownerPid).context]
  by_cases same : t = memory.thread
  · subst same
    simp [ThreadRequest.thread]
  · rw [modifyThread_threads_ne _ _ _ same, if_neg same]

/-- A thread in a block that no other thread is in leaves the others as they are. -/
theorem threadCreate_spares {request : ThreadRequest} {memory : ThreadMemory}
    {answer : Option ℕ} (holds : kernel.HoldsKernelThread k)
    (fresh : memory.thread ∉ kernel.threadBlocks)
    (runs : kernel.threadCreate request memory = some (answer, after)) :
    after.HoldsKernelThread k ∧ after.currentThread = kernel.currentThread ∧
      ∀ t, (after.threads t).context =
        if kernel.Builds request memory ∧ t = memory.thread then request.context memory.stackBase
        else (kernel.threads t).context := by
  have other : k ≠ memory.thread := by
    rintro rfl
    exact fresh holds.block
  have built : (kernel.buildThread request memory).HoldsKernelThread k ∧
      (kernel.buildThread request memory).currentThread = kernel.currentThread := by
    rcases Sound.buildThread_eq kernel request memory with
      ⟨record, processes, nextTid, equation, _⟩
    rw [equation]
    refine ⟨⟨holds.slot, List.mem_cons_of_mem _ holds.block, ?_, ?_, ?_⟩, rfl⟩
    · simpa [other] using holds.tid
    · simpa [other] using holds.privilege
    · simpa [other] using holds.alive
  have context := buildThread_context kernel request memory
  simp only [Kernel.threadCreate] at runs
  generalize kernel.buildThread request memory = made at built context runs
  split at runs
  · rename_i early
    cases runs
    simp [Builds, early, holds]
  · rename_i early
    split at runs
    · rename_i lacks
      cases runs
      have unbuilt : ¬kernel.Builds request memory := by
        simp [Builds, lacks]
      simp only [unbuilt, false_and, if_false, implies_true, and_true]
      exact holds.rest rfl holds.slot holds.block
    · rename_i hasStack
      have builds : kernel.Builds request memory := ⟨early, by simpa using hasStack⟩
      simp only [builds, true_and]
      split at runs
      · cases runs
        exact ⟨built.1.rest rfl built.1.slot ((List.mem_erase_of_ne other).mpr built.1.block),
          built.2, context⟩
      · rename_i slot found
        rcases Option.map_eq_some_iff.mp runs with ⟨queued, appends, equation⟩
        cases equation
        have nonzero : slot ≠ 0 := by
          have mem := List.mem_of_find?_eq_some found
          rintro rfl
          simp [List.mem_range'_1] at mem
        have relinked := Relinked.appendReady appends
        have claimed : (made.claimThreadSlot slot memory.thread).HoldsKernelThread k := by
          refine built.1.rest rfl ?_ built.1.block
          simpa [Kernel.claimThreadSlot, nonzero.symm] using built.1.slot
        refine ⟨(Spares.of_relinked relinked).keeps claimed,
          relinked.currentThread.trans built.2, ?_⟩
        intro t
        rw [relinked.context]
        exact context t

theorem startKernelThread_holds (kernel : Kernel) (kernelThread : ℕ) :
    (kernel.startKernelThread kernelThread).HoldsKernelThread kernelThread := by
  simp only [Kernel.startKernelThread]
  generalize start : ({ kernel with
      threadTable := fun _ => none
      threadBlocks := kernelThread :: kernel.threadBlocks }.modifyThread kernelThread
      (fun _ => { state := .running, priority := .immediate })) = made
  have record : made.threads kernelThread = { state := .running, priority := .immediate } := by
    rw [← start]
    exact modifyThread_threads_same _ _ _
  have block : kernelThread ∈ made.threadBlocks := by
    simp [← start, Kernel.modifyThread]
  have attached := @Spares.attachOwner made kernelThread kernelThread 0
  generalize made.attachOwner kernelThread 0 = owned at attached ⊢
  refine ⟨by simp, attached.block block, (attached.tid kernelThread).trans ?_,
    (attached.privilege kernelThread).trans ?_, attached.alive ?_⟩
  · rw [record]
  · rw [record]
  · rw [record]
    decide

/-- `init_threading` leaves the kernel thread in its slot. -/
theorem initThreading_holds {kernelThread idleTask : ℕ} {memory : ThreadMemory}
    (empty : kernel.threadBlocks = []) (fresh : memory.thread ≠ kernelThread)
    (runs : kernel.initThreading kernelThread idleTask memory = some after) :
    after.HoldsKernelThread kernelThread := by
  rcases Option.bind_eq_some_iff.mp runs with ⟨⟨answer, created⟩, creates, returns⟩
  simp only at returns
  split at returns
  · cases returns
  cases returns
  have started := startKernelThread_holds kernel kernelThread
  have blocks : (kernel.startKernelThread kernelThread).threadBlocks = [kernelThread] := by
    simp [Kernel.startKernelThread, Kernel.modifyThread, empty]
  have freshStarted : memory.thread ∉ (kernel.startKernelThread kernelThread).threadBlocks := by
    simpa [blocks] using fresh
  exact (threadCreate_spares started freshStarted creates).1

end Kernel

end Goshkik

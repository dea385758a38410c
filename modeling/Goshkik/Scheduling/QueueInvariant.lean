import Goshkik.Scheduling.QueueShape

/-!
# The ready queue over whole runs

`Kernel.Settled` says what the operations rely on besides the queue: the thread
table holds each of its threads once, the current thread is not terminated, a
user thread has a kernel stack, and no process has waiters.  `Kernel.Sound` adds
a well-formed queue of allocated threads that are not blocked.
-/

namespace Goshkik

namespace Kernel

structure Settled (kernel : Kernel) : Prop where
  table : ∀ slot t, kernel.threadTable slot = some t → t ∈ kernel.threadBlocks
  slots : ∀ slot other t, kernel.threadTable slot = some t → kernel.threadTable other = some t →
    slot = other
  current : ∀ t, kernel.currentThread = some t →
    t ∈ kernel.threadBlocks ∧ (kernel.threads t).state ≠ .termed
  kernelStacks : ∀ t ∈ kernel.threadBlocks, (kernel.threads t).privilege = .ring3 →
    (kernel.threads t).kernelStack ≠ 0
  waiters : ∀ p, (kernel.processes p).waitHead = none

structure Sound (kernel : Kernel) (queue : List ℕ) : Prop where
  settled : kernel.Settled
  isQueue : kernel.IsReadyQueue queue
  allocated : ∀ t ∈ queue, t ∈ kernel.threadBlocks
  awake : ∀ t ∈ queue, (kernel.threads t).state ≠ .blocked

namespace Settled

variable {kernel after : Kernel} {t p tid : ℕ}

theorem relinked (settled : kernel.Settled) (relinked : Relinked kernel after) :
    after.Settled where
  table := by
    rw [relinked.threadTable, relinked.threadBlocks]
    exact settled.table
  slots := by
    rw [relinked.threadTable]
    exact settled.slots
  current := by
    simp only [relinked.currentThread, relinked.threadBlocks, relinked.state]
    exact settled.current
  kernelStacks := by
    simp only [relinked.threadBlocks, relinked.privilege, relinked.kernelStack]
    exact settled.kernelStacks
  waiters := by
    rw [relinked.processes]
    exact settled.waiters

/-- Writing fields of one thread. -/
theorem modifyThread (settled : kernel.Settled) {change : Thread → Thread}
    (ring : (change (kernel.threads t)).privilege = (kernel.threads t).privilege)
    (stack : (change (kernel.threads t)).kernelStack = (kernel.threads t).kernelStack)
    (termed : (change (kernel.threads t)).state = .termed → kernel.currentThread ≠ some t) :
    (kernel.modifyThread t change).Settled where
  table := settled.table
  slots := settled.slots
  current node isCurrent := by
    refine ⟨(settled.current node isCurrent).1, ?_⟩
    by_cases same : node = t
    · subst same
      rw [modifyThread_threads_same]
      exact fun state => termed state isCurrent
    · rw [modifyThread_threads_ne _ _ _ same]
      exact (settled.current node isCurrent).2
  kernelStacks node mem := by
    by_cases same : node = t
    · subst same
      rw [modifyThread_threads_same, ring, stack]
      exact settled.kernelStacks node mem
    · rw [modifyThread_threads_ne _ _ _ same]
      exact settled.kernelStacks node mem
  waiters := settled.waiters

/-- Writing fields of one thread that the invariant does not mention. -/
theorem modifyThread_other (settled : kernel.Settled) {change : Thread → Thread}
    (ring : (change (kernel.threads t)).privilege = (kernel.threads t).privilege)
    (stack : (change (kernel.threads t)).kernelStack = (kernel.threads t).kernelStack)
    (state : (change (kernel.threads t)).state = (kernel.threads t).state) :
    (kernel.modifyThread t change).Settled := by
  apply settled.modifyThread ring stack
  rw [state]
  exact fun termed isCurrent => (settled.current t isCurrent).2 termed

theorem setState (settled : kernel.Settled) {state : ThreadState}
    (termed : state = .termed → kernel.currentThread ≠ some t) :
    (kernel.setState t state).Settled :=
  settled.modifyThread rfl rfl termed

theorem modifyProcess (settled : kernel.Settled) {change : Process → Process}
    (waiters : (change (kernel.processes p)).waitHead = none) :
    (kernel.modifyProcess p change).Settled where
  table := settled.table
  slots := settled.slots
  current := settled.current
  kernelStacks := settled.kernelStacks
  waiters other := by
    by_cases same : other = p
    · subst same
      simpa [Kernel.modifyProcess] using waiters
    · simpa [Kernel.modifyProcess, same] using settled.waiters other

theorem attachOwner (settled : kernel.Settled) (t ownerPid : ℕ) :
    (kernel.attachOwner t ownerPid).Settled := by
  unfold Kernel.attachOwner
  cases kernel.processFromPid ownerPid with
  | none => exact settled
  | some owner =>
      change (kernel.processAddThread owner t).Settled
      unfold Kernel.processAddThread
      apply Settled.modifyProcess
      · exact settled.modifyThread_other rfl rfl rfl
      · exact settled.waiters owner

theorem clearCurrent (settled : kernel.Settled) : { kernel with currentThread := none }.Settled :=
  ⟨settled.table, settled.slots, by simp, settled.kernelStacks, settled.waiters⟩

theorem setCurrent (settled : kernel.Settled) (mem : t ∈ kernel.threadBlocks)
    (alive : (kernel.threads t).state ≠ .termed) :
    { kernel with currentThread := some t }.Settled := by
  refine ⟨settled.table, settled.slots, ?_, settled.kernelStacks, settled.waiters⟩
  intro node isCurrent
  rcases Option.some.inj isCurrent
  exact ⟨mem, alive⟩

/-- Giving back the record of a thread that neither the table nor `current_thread` names. -/
theorem kfree (settled : kernel.Settled) (unlisted : ∀ slot, kernel.threadTable slot ≠ some t)
    (notCurrent : kernel.currentThread ≠ some t) :
    { kernel with threadBlocks := kernel.threadBlocks.erase t }.Settled where
  table slot node listed := by
    refine (List.mem_erase_of_ne ?_).mpr (settled.table slot node listed)
    rintro rfl
    exact unlisted slot listed
  slots := settled.slots
  current node isCurrent := by
    refine ⟨(List.mem_erase_of_ne ?_).mpr (settled.current node isCurrent).1,
      (settled.current node isCurrent).2⟩
    rintro rfl
    exact notCurrent isCurrent
  kernelStacks node mem := settled.kernelStacks node (List.mem_of_mem_erase mem)
  waiters := settled.waiters

theorem claimThreadSlot (settled : kernel.Settled) (slot : ℕ) (mem : t ∈ kernel.threadBlocks)
    (unlisted : ∀ other, kernel.threadTable other ≠ some t) :
    (kernel.claimThreadSlot slot t).Settled where
  table other node listed := by
    by_cases same : other = slot
    · subst same
      simp only [Kernel.claimThreadSlot, Function.update_self, Option.some.injEq] at listed
      subst listed
      exact mem
    · simp only [Kernel.claimThreadSlot, Function.update_of_ne same] at listed
      exact settled.table other node listed
  slots first second node listedFirst listedSecond := by
    simp only [Kernel.claimThreadSlot, Function.update_apply] at listedFirst listedSecond
    split at listedFirst <;> split at listedSecond
    · simp_all
    · cases listedFirst
      exact absurd listedSecond (unlisted second)
    · cases listedSecond
      exact absurd listedFirst (unlisted first)
    · exact settled.slots first second node listedFirst listedSecond
  current := settled.current
  kernelStacks := settled.kernelStacks
  waiters := settled.waiters

theorem emptySlot (settled : kernel.Settled) (slot count : ℕ) :
    { kernel with
      threadTable := Function.update kernel.threadTable slot none
      threadCount := count }.Settled := by
  have listedBefore : ∀ other node, Function.update kernel.threadTable slot none other = some node →
      kernel.threadTable other = some node := by
    intro other node listed
    by_cases same : other = slot
    · subst same
      simp at listed
    · rwa [Function.update_of_ne same] at listed
  refine ⟨?_, ?_, settled.current, settled.kernelStacks, settled.waiters⟩
  · exact fun other node listed => settled.table other node (listedBefore other node listed)
  · exact fun first second node listedFirst listedSecond =>
      settled.slots first second node (listedBefore first node listedFirst)
        (listedBefore second node listedSecond)

theorem threadFromTid_mem (settled : kernel.Settled)
    (found : kernel.threadFromTid tid = some t) : t ∈ kernel.threadBlocks := by
  rcases List.exists_of_findSome?_eq_some found with ⟨slot, _, listed⟩
  exact settled.table slot t (Option.filter_eq_some_iff.mp listed).1

end Settled

/-! ## The threads an operation names -/

/-- Outside the named threads, the two queues list the same threads in the same order. -/
def SameOthers (named queue queue' : List ℕ) : Prop :=
  queue'.filter (· ∉ named) = queue.filter (· ∉ named)

namespace SameOthers

variable {named queue queue' queue'' : List ℕ} {t : ℕ}

theorem refl : SameOthers named queue queue := rfl

theorem trans (first : SameOthers named queue queue') (second : SameOthers named queue' queue'') :
    SameOthers named queue queue'' :=
  Eq.trans second first

theorem append (isNamed : t ∈ named) : SameOthers named queue (queue ++ [t]) := by
  simp [SameOthers, List.filter_append, isNamed]

theorem tail (isNamed : t ∈ named) : SameOthers named (t :: queue) queue := by
  simp [SameOthers, isNamed]

theorem erase (isNamed : t ∈ named) : SameOthers named queue (queue.erase t) := by
  by_cases mem : t ∈ queue
  · rcases List.eq_append_cons_of_mem mem with ⟨before, behind, rfl, absent⟩
    simp [SameOthers, List.erase_append_right _ absent, List.filter_append, isNamed]
  · rw [List.erase_of_not_mem mem]
    exact refl

end SameOthers

/-- Terminated threads of the table. -/
def terminated (kernel : Kernel) : List ℕ :=
  (List.range maxThreads).filterMap (fun slot =>
    (kernel.threadTable slot).filter (fun t => (kernel.threads t).state = .termed))

/-! ## Operations on a sound kernel -/

namespace Sound

variable {kernel after : Kernel} {queue queue' : List ℕ} {t p tid fuel : ℕ}

/-- Changes that leave the queue alone: no link of a queued thread is written and
no queued thread is blocked or freed. -/
theorem frame (sound : kernel.Sound queue) (settled : after.Settled)
    (head : after.readyHead = kernel.readyHead) (tail : after.readyTail = kernel.readyTail)
    (allocated : ∀ t ∈ queue, t ∈ after.threadBlocks)
    (records : ∀ t ∈ queue, after.threads t = kernel.threads t) : after.Sound queue := by
  refine ⟨settled, sound.isQueue.congr head tail ?_, allocated, ?_⟩
  · exact fun node mem => congrArg Thread.next (records node mem)
  · intro node mem
    rw [records node mem]
    exact sound.awake node mem

theorem notMem_of_fresh (sound : kernel.Sound queue) (fresh : t ∉ kernel.threadBlocks) :
    t ∉ queue :=
  fun mem => fresh (sound.allocated t mem)

theorem modifyThread (sound : kernel.Sound queue) {change : Thread → Thread}
    (settled : (kernel.modifyThread t change).Settled)
    (link : (change (kernel.threads t)).next = (kernel.threads t).next)
    (awake : t ∈ queue → (change (kernel.threads t)).state ≠ .blocked) :
    (kernel.modifyThread t change).Sound queue := by
  refine ⟨settled, sound.isQueue.modifyThread link, sound.allocated, ?_⟩
  intro node mem
  by_cases same : node = t
  · subst same
    rw [modifyThread_threads_same]
    exact awake mem
  · rw [modifyThread_threads_ne _ _ _ same]
    exact sound.awake node mem

/-- Clearing a link that is not in use. -/
theorem clearNext (sound : kernel.Sound queue) (unused : t ∈ queue → kernel.nextOf t = none) :
    (kernel.setNext t none).Sound queue := by
  have relinked := Relinked.setNext kernel t none
  by_cases mem : t ∈ queue
  · exact sound.modifyThread (sound.settled.relinked relinked) (unused mem).symm
      (fun _ => sound.awake t mem)
  · refine ⟨sound.settled.relinked relinked, sound.isQueue.setNext mem none, sound.allocated, ?_⟩
    intro node queued
    rw [relinked.state]
    exact sound.awake node queued

theorem setState (sound : kernel.Sound queue) {state : ThreadState} (awake : state ≠ .blocked)
    (termed : state = .termed → kernel.currentThread ≠ some t) :
    (kernel.setState t state).Sound queue :=
  sound.modifyThread (sound.settled.setState termed) rfl (fun _ => awake)

theorem modifyProcess (sound : kernel.Sound queue) {change : Process → Process}
    (waiters : (change (kernel.processes p)).waitHead = none) :
    (kernel.modifyProcess p change).Sound queue := by
  have settled := sound.settled.modifyProcess waiters
  exact sound.frame settled rfl rfl sound.allocated (fun _ _ => rfl)

theorem detachThread (sound : kernel.Sound queue) (t : ℕ) :
    (kernel.detachThread t).Sound queue := by
  unfold Kernel.detachThread
  cases (kernel.threads t).proc with
  | none => exact sound
  | some p => exact sound.modifyProcess (sound.settled.waiters p)

/-- Taking a thread off the queue, which may just have been marked as blocked. -/
theorem remove (settled : kernel.Settled) (isQueue : kernel.IsReadyQueue queue)
    (allocated : ∀ node ∈ queue, node ∈ kernel.threadBlocks)
    (awake : ∀ node ∈ queue, node ≠ t → (kernel.threads node).state ≠ .blocked)
    (runs : kernel.removeFromReadyQueue fuel (some t) = some after) :
    after.Sound (queue.erase t) := by
  rcases isQueue.removeFromReadyQueue runs with ⟨isQueueAfter, relinked⟩
  refine ⟨settled.relinked relinked, isQueueAfter, ?_, ?_⟩
  · intro node mem
    rw [relinked.threadBlocks]
    exact allocated node (List.mem_of_mem_erase mem)
  · intro node mem
    rw [relinked.state]
    rw [isQueue.distinct.mem_erase_iff] at mem
    exact awake node mem.2 mem.1

theorem removeFromReadyQueue (sound : kernel.Sound queue)
    (runs : kernel.removeFromReadyQueue fuel (some t) = some after) :
    after.Sound (queue.erase t) :=
  remove sound.settled sound.isQueue sound.allocated (fun node mem _ => sound.awake node mem) runs

theorem append (sound : kernel.Sound queue) (mem : t ∈ kernel.threadBlocks)
    (awake : (kernel.threads t).state ≠ .blocked) (relinked : Relinked kernel after)
    (isQueue : after.IsReadyQueue (queue ++ [t])) : after.Sound (queue ++ [t]) := by
  refine ⟨sound.settled.relinked relinked, isQueue, ?_, ?_⟩
  all_goals
    intro node nodeMem
    rw [List.mem_append, List.mem_singleton] at nodeMem
  · rw [relinked.threadBlocks]
    rcases nodeMem with queued | rfl
    · exact sound.allocated node queued
    · exact mem
  · rw [relinked.state]
    rcases nodeMem with queued | rfl
    · exact sound.awake node queued
    · exact awake

theorem appendReady (sound : kernel.Sound queue) (absent : t ∉ queue)
    (mem : t ∈ kernel.threadBlocks) (awake : (kernel.threads t).state ≠ .blocked)
    (stop : kernel.nextOf t = none) (runs : kernel.appendReady t = some after) :
    after.Sound (queue ++ [t]) := by
  rcases sound.isQueue.appendReady absent stop with ⟨kernel', runs', isQueue, relinked⟩
  rw [runs'] at runs
  rcases Option.some.inj runs
  exact sound.append mem awake relinked isQueue

theorem enqueueReadyTail (sound : kernel.Sound queue) (absent : t ∉ queue)
    (mem : t ∈ kernel.threadBlocks) (awake : (kernel.threads t).state ≠ .blocked)
    (runs : kernel.enqueueReadyTail t = some after) : after.Sound (queue ++ [t]) := by
  rcases sound.isQueue.enqueueReadyTail absent with ⟨kernel', runs', isQueue, relinked⟩
  rw [runs'] at runs
  rcases Option.some.inj runs
  exact sound.append mem awake relinked isQueue

/-! ### Creation -/

theorem attachOwner_eq (kernel : Kernel) (t ownerPid : ℕ) :
    ∃ oPid proc processes, kernel.attachOwner t ownerPid =
      { kernel.modifyThread t (fun record => { record with oPid := oPid, proc := proc }) with
        processes := processes } := by
  unfold Kernel.attachOwner
  cases kernel.processFromPid ownerPid with
  | none =>
      refine ⟨(kernel.threads t).oPid, (kernel.threads t).proc, kernel.processes, ?_⟩
      simp [Kernel.modifyThread]
  | some owner => exact ⟨_, _, _, rfl⟩

@[simp]
theorem attachOwner_threadBlocks (kernel : Kernel) (t ownerPid : ℕ) :
    (kernel.attachOwner t ownerPid).threadBlocks = kernel.threadBlocks := by
  unfold Kernel.attachOwner
  split <;> rfl

/-- What `thread_create` has written before it looks for a slot. -/
theorem buildThread_eq (kernel : Kernel) (request : ThreadRequest) (memory : ThreadMemory) :
    ∃ record processes nextTid, kernel.buildThread request memory =
      { kernel with
        nextTid := nextTid
        threadBlocks := memory.thread :: kernel.threadBlocks
        threads := Function.update kernel.threads memory.thread record
        processes := processes } ∧ record.state = .ready ∧ record.next = none := by
  unfold Kernel.buildThread
  generalize (kernel.nextTid + 1) % 2 ^ 32 = nextTid
  rcases attachOwner_eq
    ({ kernel with
      nextTid := nextTid
      threadBlocks := memory.thread :: kernel.threadBlocks }.modifyThread memory.thread
        (fun _ => request.thread memory kernel.nextTid)) memory.thread request.ownerPid with
    ⟨oPid, proc, processes, equation⟩
  refine ⟨{ request.thread memory kernel.nextTid with oPid := oPid, proc := proc }, processes,
    nextTid, equation.trans ?_, rfl, rfl⟩
  simp [Kernel.modifyThread]

theorem settled_buildThread (settled : kernel.Settled) {request : ThreadRequest}
    {memory : ThreadMemory} (fresh : memory.thread ∉ kernel.threadBlocks)
    (stack : request.lacksStack memory = false) :
    (kernel.buildThread request memory).Settled := by
  unfold Kernel.buildThread
  generalize (kernel.nextTid + 1) % 2 ^ 32 = nextTid
  apply Settled.attachOwner
  have record : ∀ node ∈ kernel.threadBlocks,
      Function.update kernel.threads memory.thread (request.thread memory kernel.nextTid) node =
        kernel.threads node := by
    intro node mem
    apply Function.update_of_ne
    rintro rfl
    exact fresh mem
  refine ⟨?_, settled.slots, ?_, ?_, settled.waiters⟩
  · exact fun slot node listed => List.mem_cons_of_mem _ (settled.table slot node listed)
  · intro node isCurrent
    have alive := settled.current node isCurrent
    refine ⟨List.mem_cons_of_mem _ alive.1, ?_⟩
    simpa only [Kernel.modifyThread, record node alive.1] using alive.2
  · intro node mem ring
    rcases List.mem_cons.mp mem with rfl | mem
    · simp only [modifyThread_threads_same, ThreadRequest.thread] at ring ⊢
      simp only [ThreadRequest.lacksStack, ring, decide_true, Bool.true_and, Bool.or_eq_false_iff,
        decide_eq_false_iff_not] at stack
      simpa [ring] using stack.2
    · simp only [Kernel.modifyThread, record node mem] at ring ⊢
      exact settled.kernelStacks node mem ring

theorem threadCreate (sound : kernel.Sound queue) {request : ThreadRequest}
    {memory : ThreadMemory} {answer : Option ℕ} (fresh : memory.thread ∉ kernel.threadBlocks)
    (runs : kernel.threadCreate request memory = some (answer, after)) :
    ∃ queue', after.Sound queue' ∧ SameOthers [memory.thread] queue queue' := by
  have settled := sound.settled
  simp only [Kernel.threadCreate] at runs
  split at runs
  · simp only [Option.some.injEq, Prod.mk.injEq] at runs
    rw [← runs.2]
    exact ⟨queue, sound, .refl⟩
  split at runs
  · simp only [Option.some.injEq, Prod.mk.injEq] at runs
    rw [← runs.2]
    refine ⟨queue, sound.frame ?_ rfl rfl sound.allocated (fun _ _ => rfl), .refl⟩
    exact ⟨settled.table, settled.slots, settled.current, settled.kernelStacks, settled.waiters⟩
  rename_i stack
  have built := settled_buildThread settled fresh (Bool.not_eq_true _ ▸ stack)
  have absent := sound.notMem_of_fresh fresh
  have unlisted : ∀ slot, kernel.threadTable slot ≠ some memory.thread :=
    fun slot listed => fresh (settled.table slot _ listed)
  have notCurrent : kernel.currentThread ≠ some memory.thread :=
    fun isCurrent => fresh (settled.current _ isCurrent).1
  rcases buildThread_eq kernel request memory with
    ⟨record, processes, nextTid, equation, ready, stop⟩
  rw [equation] at built runs
  have others : ∀ node ∈ queue,
      Function.update kernel.threads memory.thread record node = kernel.threads node := by
    intro node mem
    apply Function.update_of_ne
    rintro rfl
    exact absent mem
  split at runs
  · simp only [Option.some.injEq, Prod.mk.injEq] at runs
    rw [← runs.2]
    refine ⟨queue, sound.frame (built.kfree unlisted notCurrent) rfl rfl ?_ others, .refl⟩
    intro node mem
    simpa using sound.allocated node mem
  · rename_i slot free
    simp only [Option.map_eq_some_iff, Prod.mk.injEq, exists_eq_right_right] at runs
    have claimed := built.claimThreadSlot slot List.mem_cons_self unlisted
    have soundClaimed := sound.frame claimed rfl rfl
      (fun node mem => List.mem_cons_of_mem _ (sound.allocated node mem)) others
    refine ⟨queue ++ [memory.thread], ?_, .append (by simp)⟩
    refine soundClaimed.appendReady absent List.mem_cons_self ?_ ?_ runs.1
    · simp [Kernel.claimThreadSlot, ready]
    · simp [Kernel.claimThreadSlot, nextOf, stop]

/-! ### Blocking, unblocking and termination -/

theorem threadBlock (sound : kernel.Sound queue) (runs : kernel.threadBlock fuel tid = some after) :
    ∃ queue', after.Sound queue' ∧ SameOthers (kernel.threadFromTid tid).toList queue queue' := by
  simp only [Kernel.threadBlock] at runs
  cases found : kernel.threadFromTid tid with
  | none => simp [found] at runs
  | some t =>
      simp only [found] at runs
      split at runs
      · simp at runs
      · refine ⟨queue.erase t, remove ?_ (sound.isQueue.modifyThread rfl) sound.allocated ?_ runs,
          .erase (by simp)⟩
        · exact sound.settled.setState (by simp)
        · intro node mem different
          rw [modifyThread_threads_ne _ _ _ different]
          exact sound.awake node mem

theorem threadUnblock (sound : kernel.Sound queue) {answer : ℤ}
    (runs : kernel.threadUnblock tid = some (answer, after)) :
    ∃ queue', after.Sound queue' ∧ SameOthers (kernel.threadFromTid tid).toList queue queue' := by
  simp only [Kernel.threadUnblock] at runs
  cases found : kernel.threadFromTid tid with
  | none =>
      simp only [found, Option.some.injEq, Prod.mk.injEq] at runs
      rw [← runs.2]
      exact ⟨queue, sound, .refl⟩
  | some t =>
      simp only [found] at runs
      split at runs
      · simp only [Option.some.injEq, Prod.mk.injEq] at runs
        rw [← runs.2]
        exact ⟨queue, sound, .refl⟩
      · rename_i blocked
        simp only [ne_eq, Decidable.not_not] at blocked
        simp only [Option.map_eq_some_iff, Prod.mk.injEq, exists_eq_right_right] at runs
        have absent : t ∉ queue := fun mem => sound.awake t mem blocked
        have ready : (kernel.setState t .ready).Sound queue := sound.setState (by simp) (by simp)
        refine ⟨queue ++ [t], ?_, .append (by simp)⟩
        apply ready.enqueueReadyTail absent (sound.settled.threadFromTid_mem found) _ runs.1
        simp [Kernel.setState]

/-- With no waiters, `wake_waiters` only clears the two list pointers. -/
theorem wakeWaiters (sound : kernel.Sound queue) (runs : kernel.wakeWaiters fuel p = some after) :
    after.Sound queue := by
  have noLoop : Kernel.wakeFrom fuel kernel none = some kernel := by
    cases fuel <;> rfl
  simp only [Kernel.wakeWaiters, sound.settled.waiters, noLoop, Option.map_some,
    Option.some.injEq] at runs
  rw [← runs]
  exact sound.modifyProcess rfl

theorem leaveProcess (sound : kernel.Sound queue) (runs : kernel.leaveProcess fuel t = some after) :
    after.Sound queue := by
  simp only [Kernel.leaveProcess] at runs
  split at runs
  · rw [← Option.some.inj runs]
    exact sound
  · rename_i p _
    split at runs
    · exact (sound.modifyProcess (sound.settled.waiters p)).wakeWaiters runs
    · rw [← Option.some.inj runs]
      exact sound

theorem threadExit (sound : kernel.Sound queue) (runs : kernel.threadExit fuel = some after) :
    after.Sound queue := by
  simp only [Kernel.threadExit] at runs
  split at runs
  · simp at runs
  · split at runs
    · simp at runs
    · rename_i current _ _
      simp only [Option.map_eq_some_iff] at runs
      rcases runs with ⟨left, leaves, rfl⟩
      have soundLeft := sound.leaveProcess leaves
      have cleared : { left with currentThread := none }.Sound queue :=
        soundLeft.frame soundLeft.settled.clearCurrent rfl rfl soundLeft.allocated (fun _ _ => rfl)
      exact cleared.setState (by simp) (by simp)

/-- Terminating a thread that is not queued or is the last of the queue.  The link
that is cleared too early is then null already. -/
theorem threadTerminate (sound : kernel.Sound queue) {answer : Option ℤ}
    (guard : ∀ t, kernel.threadFromTid tid = some t → kernel.currentThread ≠ some t →
      t ∈ queue → kernel.readyTail = some t)
    (runs : kernel.threadTerminate fuel tid = some (answer, after)) :
    ∃ queue', after.Sound queue' ∧ SameOthers (kernel.threadFromTid tid).toList queue queue' := by
  simp only [Kernel.threadTerminate] at runs
  split at runs
  · simp only [Option.some.injEq, Prod.mk.injEq] at runs
    rw [← runs.2]
    exact ⟨queue, sound, .refl⟩
  cases found : kernel.threadFromTid tid with
  | none =>
      simp only [found, Option.some.injEq, Prod.mk.injEq] at runs
      rw [← runs.2]
      exact ⟨queue, sound, .refl⟩
  | some t =>
      simp only [found] at runs
      split at runs
      · simp only [Option.map_eq_some_iff, Prod.mk.injEq, exists_eq_right_right] at runs
        exact ⟨queue, sound.threadExit runs.1, .refl⟩
      · rename_i notCurrent
        simp only [Option.map_eq_some_iff, Prod.mk.injEq, exists_eq_right_right] at runs
        have termed : ((kernel.setState t .termed).detachThread t).Sound queue :=
          (sound.setState (by simp) (fun _ => notCurrent)).detachThread t
        have sameTail : ((kernel.setState t .termed).detachThread t).readyTail =
            kernel.readyTail := by
          unfold Kernel.detachThread
          split <;> rfl
        refine ⟨queue.erase t, Sound.removeFromReadyQueue (termed.clearNext ?_) runs.1,
          .erase (by simp)⟩
        intro mem
        exact termed.isQueue.nextOf_tail (sameTail.trans (guard t found notCurrent mem))

/-! ### `clean_up` -/

/-- What `clean_up` leaves as it was while it runs. -/
structure Cleaning (first kernel : Kernel) : Prop where
  state : ∀ t, (kernel.threads t).state = (first.threads t).state
  table : ∀ slot t, kernel.threadTable slot = some t → first.threadTable slot = some t

theorem detachThread_frame (kernel : Kernel) (t : ℕ) :
    ∃ processes, kernel.detachThread t = { kernel with processes := processes } := by
  unfold Kernel.detachThread
  cases (kernel.threads t).proc with
  | none => exact ⟨kernel.processes, rfl⟩
  | some p => exact ⟨_, rfl⟩

theorem freeThread (sound : kernel.Sound queue) {slot : ℕ} (absent : t ∉ queue)
    (listed : kernel.threadTable slot = some t) (termed : (kernel.threads t).state = .termed) :
    (kernel.freeThread slot t).Sound queue := by
  have detached := sound.detachThread t
  rcases detachThread_frame kernel t with ⟨processes, equation⟩
  simp only [Kernel.freeThread]
  rw [equation] at detached ⊢
  generalize (kernel.threadCount + 2 ^ 32 - 1) % 2 ^ 32 = count
  have emptied := detached.settled.emptySlot slot count
  refine detached.frame (emptied.kfree ?_ ?_) rfl rfl ?_ (fun _ _ => rfl)
  · intro other stillListed
    by_cases same : other = slot
    · subst same
      simp at stillListed
    · simp only [Function.update_of_ne same] at stillListed
      exact same (sound.settled.slots other slot t stillListed listed)
  · exact fun isCurrent => (sound.settled.current t isCurrent).2 termed
  · intro node mem
    refine (List.mem_erase_of_ne ?_).mpr (sound.allocated node mem)
    rintro rfl
    exact absent mem

theorem cleanUpSlot {first : Kernel} {slot : ℕ} (sound : kernel.Sound queue)
    (cleaning : Cleaning first kernel) (inTable : slot < maxThreads)
    (runs : Kernel.cleanUpSlot fuel kernel slot = some after) :
    ∃ queue', after.Sound queue' ∧ Cleaning first after ∧
      SameOthers first.terminated queue queue' := by
  simp only [Kernel.cleanUpSlot] at runs
  split at runs
  · rw [← Option.some.inj runs]
    exact ⟨queue, sound, cleaning, .refl⟩
  · rename_i t listed
    split at runs
    · rename_i termed
      simp only [Option.map_eq_some_iff] at runs
      rcases runs with ⟨removed, removes, rfl⟩
      have relinked := (sound.isQueue.removeFromReadyQueue removes).2
      have absent : t ∉ queue.erase t := by
        simp [sound.isQueue.distinct.mem_erase_iff]
      have isNamed : t ∈ first.terminated := by
        rw [Kernel.terminated, List.mem_filterMap]
        refine ⟨slot, List.mem_range.mpr inTable, ?_⟩
        rw [cleaning.table slot t listed]
        simp [← cleaning.state, termed]
      refine ⟨queue.erase t, ?_, ?_, .erase isNamed⟩
      · apply (sound.removeFromReadyQueue removes).freeThread absent
        · rw [relinked.threadTable]
          exact listed
        · rw [relinked.state]
          exact termed
      · rcases detachThread_frame removed t with ⟨processes, equation⟩
        simp only [Kernel.freeThread, equation]
        refine ⟨fun node => (relinked.state node).trans (cleaning.state node), ?_⟩
        intro other node stillListed
        by_cases same : other = slot
        · subst same
          simp at stillListed
        · simp only [Function.update_of_ne same, relinked.threadTable] at stillListed
          exact cleaning.table other node stillListed
    · rw [← Option.some.inj runs]
      exact ⟨queue, sound, cleaning, .refl⟩

theorem cleanUpSlots {first : Kernel} {slots : List ℕ} (inTable : ∀ slot ∈ slots, slot < maxThreads)
    (sound : kernel.Sound queue) (cleaning : Cleaning first kernel)
    (runs : slots.foldlM (Kernel.cleanUpSlot fuel) kernel = some after) :
    ∃ queue', after.Sound queue' ∧ SameOthers first.terminated queue queue' := by
  induction slots generalizing kernel queue with
  | nil =>
      simp only [List.foldlM_nil, Option.pure_def, Option.some.injEq] at runs
      rw [← runs]
      exact ⟨queue, sound, .refl⟩
  | cons slot slots ih =>
      simp only [List.foldlM_cons, Option.bind_eq_bind, Option.bind_eq_some_iff] at runs
      rcases runs with ⟨middle, head, tail⟩
      rcases sound.cleanUpSlot cleaning (inTable slot (by simp)) head with
        ⟨middleQueue, soundMiddle, cleaningMiddle, sameHead⟩
      rcases ih (fun other mem => inTable other (by simp [mem])) soundMiddle cleaningMiddle
        tail with
        ⟨queue', soundAfter, sameTail⟩
      exact ⟨queue', soundAfter, sameHead.trans sameTail⟩

theorem cleanUp (sound : kernel.Sound queue) (runs : kernel.cleanUp fuel = some after) :
    ∃ queue', after.Sound queue' ∧ SameOthers kernel.terminated queue queue' :=
  cleanUpSlots (fun _ mem => List.mem_range.mp mem) sound ⟨fun _ => rfl, fun _ _ listed => listed⟩
    runs

end Sound

end Kernel

end Goshkik

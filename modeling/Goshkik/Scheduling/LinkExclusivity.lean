import Goshkik.Scheduling.LockTick
import Goshkik.Scheduling.ReadyQueue

/-!
# Every thread is on one list at most

In a run of safe steps no thread is ever on two of the lists that share the link
field, nor twice on one of them.  The unsafe step shown at the end is a contended
`acquire_mutex` by a thread that holds the thread mutex, as `thread_create` does when
it attaches the new thread to its process.
-/

namespace Goshkik

namespace LockSystem

variable {system after : LockSystem} {lists : ListOwner → List ℕ} {position : ℕ → Position}

theorem Sound.threadStep (sound : system.Sound lists position) (idle : system.phase = .idle)
    {c fuel : ℕ} (isCurrent : system.kernel.currentThread = some c) {operation : LockOperation}
    (safe : system.LinkSafe operation) (runs : system.threadStep fuel c operation = some after) :
    system.Kept lists position (system.WakeSafe operation) after := by
  have outside (isControl : system.control c = []) : position c = .outside := by
    have isFrames := sound.control c
    rw [isControl] at isFrames
    cases isPosition : position c with
    | outside => rfl
    | acquiring m => simp [isPosition, Position.frames] at isFrames
    | blocking stage caller =>
        rw [isPosition] at isFrames
        cases stage <;> simp [Position.frames, BlockStage.frames, callThreadBlock] at isFrames
  cases operation with
  | acquireMutex m =>
      simp only [LockSystem.threadStep, Option.ite_none_right_eq_some, Option.some.injEq] at runs
      rcases runs with ⟨isControl, rfl⟩
      exact sound.stepOutside idle isCurrent (by simp [outside isControl])
        (@rfl _ ((Position.acquiring m).frames c (system.kernel.threads c).tid)) (by simp) _
  | releaseMutex m =>
      simp only [LockSystem.threadStep, Option.ite_none_right_eq_some] at runs
      rcases runs with ⟨isControl, releases⟩
      have isPosition := outside isControl
      apply sound.release idle (sound.free isCurrent (by simp [isPosition])) _ releases
      intro t isCurrent'
      rcases Option.some.inj (isCurrent.symm.trans isCurrent')
      exact (sound.absent idle isCurrent (by simp [isPosition])).1 _
  | processWait child =>
      simp only [LockSystem.threadStep, Option.ite_none_right_eq_some,
        Option.map_eq_some_iff] at runs
      rcases runs with ⟨⟨isControl, _⟩, queued, queues, rfl⟩
      exact sound.processWait idle isCurrent (outside isControl) queues _
  | proceed => exact sound.proceed idle isCurrent safe runs _
  | softwareInterrupt context =>
      have isFrames := sound.control c
      simp only [LockSystem.threadStep] at runs
      split at runs
      · rename_i rest isControl
        rw [isControl] at isFrames
        cases isPosition : position c with
        | outside => simp [isPosition, Position.frames] at isFrames
        | acquiring m => simp [isPosition, Position.frames] at isFrames
        | blocking stage caller =>
            rw [isPosition] at isFrames
            cases stage with
            | interrupt =>
                simp only [Position.frames, BlockStage.frames, List.cons_append, List.nil_append,
                  List.cons.injEq, true_and] at isFrames
                rw [isFrames] at runs
                exact sound.softwareInterrupt idle isCurrent isPosition safe.softwareInterrupt runs
                  _
            | _ => simp [Position.frames, BlockStage.frames, callThreadBlock] at isFrames
      · simp at runs
  | timerInterrupt context => simp [LockSystem.threadStep] at runs
  | tickSelect => simp [LockSystem.threadStep] at runs
  | tickConsider => simp [LockSystem.threadStep] at runs
  | tickCleanUp => simp [LockSystem.threadStep] at runs

/-- A safe step keeps the invariant. -/
theorem Sound.step (sound : system.Sound lists position) {operation : LockOperation}
    (safe : system.LinkSafe operation) (takes : LockStep system operation after) :
    system.Kept lists position (system.WakeSafe operation) after := by
  rcases takes with ⟨fuel, runs⟩
  simp only [LockSystem.step, Option.ite_none_left_eq_some] at runs
  rcases runs with ⟨_, runs⟩
  split at runs
  · rename_i context idle
    exact sound.timerInterrupt idle safe runs _
  · rename_i idle _
    rcases Option.bind_eq_some_iff.mp runs with ⟨c, isCurrent, steps⟩
    exact sound.threadStep idle isCurrent safe steps
  · rename_i selecting
    exact sound.tickSelect selecting runs _
  · rename_i next considering
    exact sound.tickConsider considering runs _
  · rename_i dispatched
    exact sound.tickCleanUp dispatched runs _
  · simp at runs

/-- Threads have been created and none has called anything yet. -/
structure Started (system : LockSystem) : Prop where
  idle : system.phase = .idle
  control : ∀ t, system.control t = []
  mutexes : ∀ m, system.mutexes m = {}
  populated : system.kernel.Populated
  queue : ∃ queue, system.kernel.IsReadyQueue queue ∧ (∀ t ∈ queue, system.kernel.Listed t) ∧
    ∀ t, system.kernel.currentThread = some t → t ∉ queue
  current : ∀ t, system.kernel.currentThread = some t →
    system.kernel.Listed t ∧ (system.kernel.threads t).state ≠ .blocked
  waits : ∀ p, (system.kernel.processes p).waitHead = none ∧
    (system.kernel.processes p).waitTail = none

/-- The system of a kernel whose threads have not called anything yet. -/
def start (kernel : Kernel) : LockSystem where
  kernel := kernel
  phase := .idle
  mutexes _ := {}
  control _ := []
  stopped := false

theorem start_started {kernel : Kernel} {queue : List ℕ} {c : ℕ} (populated : kernel.Populated)
    (isQueue : kernel.IsReadyQueue queue) (isCurrent : kernel.currentThread = some c)
    (waits : ∀ p, (kernel.processes p).waitHead = none ∧ (kernel.processes p).waitTail = none)
    (listed : ∀ t ∈ queue, kernel.Listed t) (currentListed : kernel.Listed c)
    (notQueued : c ∉ queue) (unblocked : (kernel.threads c).state ≠ .blocked) :
    (start kernel).Started where
  idle := rfl
  control _ := rfl
  mutexes _ := rfl
  populated := populated
  queue := by
    refine ⟨queue, isQueue, listed, ?_⟩
    intro t isCurrent'
    rcases Option.some.inj (isCurrent.symm.trans isCurrent')
    exact notQueued
  current t isCurrent' := by
    rcases Option.some.inj (isCurrent.symm.trans isCurrent')
    exact ⟨currentListed, unblocked⟩
  waits := waits

/-- The only list that is not empty at the start is the ready queue. -/
def startLists (queue : List ℕ) : ListOwner → List ℕ
  | .ready => queue
  | _ => []

theorem Started.sound (started : system.Started) :
    ∃ lists, system.Sound lists (fun _ => .outside) ∧
      system.Heard lists (fun _ => .outside) := by
  rcases started.queue with ⟨queue, isQueue, listed, notQueued⟩
  refine ⟨startLists queue, ?_, ⟨by simp, by simp⟩⟩
  constructor
  case holds =>
    refine ⟨fun owner => ?_, fun owner => ?_, fun first second t memFirst memSecond => ?_⟩
    · cases owner with
      | ready => exact isQueue.linked
      | mutex m => simp [listAnchors, startLists, started.mutexes]
      | process p => simp [listAnchors, startLists, started.waits]
    · cases owner with
      | ready => exact isQueue.tail
      | mutex m => simp [listAnchors, startLists, started.mutexes]
      | process p => simp [listAnchors, startLists, started.waits]
    · cases first <;> cases second <;> simp_all [startLists]
  case counts => simp [started.mutexes, startLists]
  case populated => exact started.populated
  case listed =>
    intro owner t mem
    cases owner with
    | ready => exact listed t mem
    | mutex m => simp [startLists] at mem
    | process p => simp [startLists] at mem
  case control => simp [started.control, Position.frames]
  case waiting => simp [startLists]
  case awaiting => simp [startLists]
  case current => exact fun t isCurrent => (started.current t isCurrent).1
  case running =>
    intro _ t isCurrent
    refine ⟨notQueued t isCurrent, ?_⟩
    rintro (blocked | ⟨owner, mem⟩)
    · exact absurd blocked (started.current t isCurrent).2
    · cases owner with
      | ready => exact absurd mem (notQueued t isCurrent)
      | mutex m => simp [startLists] at mem
      | process p => simp [startLists] at mem
  case interrupted => exact fun phase => absurd started.idle phase
  case held => simp [started.idle]
  case unlocked => exact fun phase => absurd started.idle phase
  case uncontended => exact .inl rfl

end LockSystem

/-- In every run of safe steps, every list that shares the link field is finite and
free of repetitions, no thread is on two of them, and the waiter counts are right. -/
theorem links_exclusive_guarded_runs {start last : LockSystem} {operations : List LockOperation}
    (started : start.Started)
    (run : Transition.Run (Transition.Guarded LockSystem.LinkSafe LockStep) start operations last) :
    ∃ lists : ListOwner → List ℕ,
      (∀ owner, Linked last.kernel.nextOf (listAnchors last.kernel last.mutexes owner).head
        (lists owner) ∧ (lists owner).Nodup) ∧
      (∀ first second t, t ∈ lists first → t ∈ lists second → first = second) ∧
      ∀ m, (last.mutexes m).waiterCount = (lists (.mutex m)).length := by
  have preserved : ∀ before operation after, (∃ lists position, before.Sound lists position) →
      Transition.Guarded LockSystem.LinkSafe LockStep before operation after →
        ∃ lists position, after.Sound lists position := by
    rintro before operation after ⟨lists, position, sound⟩ ⟨safe, takes⟩
    rcases sound.step safe takes with ⟨lists', position', soundAfter, _⟩
    exact ⟨lists', position', soundAfter⟩
  rcases started.sound with ⟨startLists, startSound, _⟩
  rcases run.invariant preserved ⟨startLists, _, startSound⟩ with ⟨lists, position, sound⟩
  refine ⟨lists, fun owner => ?_, SharedLists.apart sound.holds, sound.counts⟩
  have linked := SharedLists.linked sound.holds owner
  exact ⟨linked, linked.nodup⟩

/-! ## A system with three threads -/

/-- No process has waiters. -/
def Kernel.Unawaited (kernel : Kernel) : Prop :=
  ∀ p, (kernel.processes p).waitHead = none ∧ (kernel.processes p).waitTail = none

theorem Kernel.Unawaited.attachOwner {kernel : Kernel} (unawaited : kernel.Unawaited)
    (t ownerPid : ℕ) : (kernel.attachOwner t ownerPid).Unawaited := by
  unfold Kernel.attachOwner
  cases kernel.processFromPid ownerPid with
  | none => exact unawaited
  | some owner =>
      intro p
      by_cases same : p = owner
      · subst same
        simpa [Kernel.processAddThread, Kernel.modifyProcess, Kernel.modifyThread]
          using unawaited p
      · simpa [Kernel.processAddThread, Kernel.modifyProcess, Kernel.modifyThread, same]
          using unawaited p

theorem Kernel.Unawaited.threadCreate {kernel after : Kernel} (unawaited : kernel.Unawaited)
    {request : ThreadRequest} {memory : ThreadMemory} {answer : Option ℕ}
    (runs : kernel.threadCreate request memory = some (answer, after)) : after.Unawaited := by
  have built : (kernel.buildThread request memory).Unawaited := by
    unfold Kernel.buildThread
    generalize (kernel.nextTid + 1) % 2 ^ 32 = nextTid
    apply Kernel.Unawaited.attachOwner
    exact unawaited
  simp only [Kernel.threadCreate] at runs
  generalize kernel.buildThread request memory = new at built runs
  split at runs
  · simp only [Option.some.injEq, Prod.mk.injEq] at runs
    rw [← runs.2]
    exact unawaited
  split at runs
  · simp only [Option.some.injEq, Prod.mk.injEq] at runs
    rw [← runs.2]
    exact unawaited
  split at runs
  · simp only [Option.some.injEq, Prod.mk.injEq] at runs
    rw [← runs.2]
    exact built
  · simp only [Kernel.appendReady, Option.map_eq_some_iff, Prod.mk.injEq] at runs
    rcases runs with ⟨queued, appends, _, rfl⟩
    split at appends
    · rw [← Option.some.inj appends]
      exact built
    · split at appends
      · simp at appends
      · rw [← Option.some.inj appends]
        exact built

theorem Kernel.Unawaited.initThreading {kernel after : Kernel} (unawaited : kernel.Unawaited)
    {kernelThread idleTask : ℕ} {memory : ThreadMemory}
    (runs : kernel.initThreading kernelThread idleTask memory = some after) : after.Unawaited := by
  have started : (kernel.startKernelThread kernelThread).Unawaited := by
    intro p
    simp only [Kernel.startKernelThread]
    refine Kernel.Unawaited.attachOwner ?_ kernelThread 0 p
    exact unawaited
  simp only [Kernel.initThreading, Option.bind_eq_some_iff] at runs
  rcases runs with ⟨⟨answer, created⟩, creates, returns⟩
  simp only [Option.ite_none_left_eq_some, Option.some.injEq] at returns
  rw [← returns.2]
  exact started.threadCreate creates

theorem startedKernel_unawaited : startedKernel.Unawaited := by
  rcases startedMachine_booted with ⟨_, kernel, kernelThread, idleTask, memory, _⟩
  have returns : (unstartedKernel.initThreading 0x1000 0x5000 (threadMemoryAt 0x1100)).isSome := by
    decide +kernel
  rcases Option.isSome_iff_exists.mp returns with ⟨started, equation⟩
  have isStarted : startedKernel = started := by simp [startedKernel, equation]
  rw [isStarted]
  refine Kernel.Unawaited.initThreading ?_ equation
  exact fun p => ⟨rfl, rfl⟩

/-- A request for a kernel thread that never has to cool down. -/
def immediateThreadRequest : ThreadRequest := { kernelThreadRequest with priority := .immediate }

/-- The kernel after `init_threading` and one call of `thread_create`. -/
def threeThreads : Kernel :=
  ((startedKernel.threadCreate immediateThreadRequest (threadMemoryAt 0x1200)).getD
    (none, startedKernel)).2

theorem threeThreads_unawaited : threeThreads.Unawaited := by
  have returns : (startedKernel.threadCreate immediateThreadRequest
      (threadMemoryAt 0x1200)).isSome := by
    decide +kernel
  rcases Option.isSome_iff_exists.mp returns with ⟨⟨answer, created⟩, equation⟩
  have isCreated : threeThreads = created := by simp [threeThreads, equation]
  rw [isCreated]
  exact startedKernel_unawaited.threadCreate equation

theorem threeThreads_listed {t : ℕ} (listed : threeThreads.Listed t) :
    t = 0x1000 ∨ t = 0x1100 ∨ t = 0x1200 := by
  have entries : ∀ slot < 256, threeThreads.threadTable slot ∈
      [none, some 0x1000, some 0x1100, some 0x1200] := by
    decide +kernel
  rcases listed with ⟨slot, bound, isEntry⟩
  have isOne := entries slot bound
  rw [isEntry] at isOne
  simpa using isOne

theorem threeThreads_populated : threeThreads.Populated where
  tids t other listed otherListed sameTid := by
    rcases threeThreads_listed listed with rfl | rfl | rfl <;>
      rcases threeThreads_listed otherListed with rfl | rfl | rfl <;>
        first
        | rfl
        | (revert sameTid
           decide +kernel)
  alive t listed := by
    rcases threeThreads_listed listed with rfl | rfl | rfl <;> decide +kernel
  kernelStacks t listed := by
    rcases threeThreads_listed listed with rfl | rfl | rfl <;> decide +kernel

theorem threeThreads_isReadyQueue : threeThreads.IsReadyQueue [0x1100, 0x1200] := by
  apply Kernel.IsReadyQueue.of_linked
  · refine ⟨?_, ?_, ?_⟩
    · decide +kernel
    · decide +kernel
    · change threeThreads.nextOf 0x1200 = none
      decide +kernel
  · decide +kernel

theorem threeThreads_currentThread : threeThreads.currentThread = some 0x1000 := by
  decide +kernel

theorem threeThreads_started : (LockSystem.start threeThreads).Started := by
  apply LockSystem.start_started threeThreads_populated threeThreads_isReadyQueue
    threeThreads_currentThread threeThreads_unawaited
  · intro t mem
    rcases List.mem_pair.mp mem with rfl | rfl
    · exact ⟨1, by decide, by decide +kernel⟩
    · exact ⟨2, by decide, by decide +kernel⟩
  · exact ⟨0, by decide, by decide +kernel⟩
  · decide
  · decide +kernel

def timerTick : List LockOperation :=
  [.timerInterrupt {}, .tickSelect, .tickConsider, .tickCleanUp]

/-- The first thread takes a mutex, and two ticks later the third one waits for it. -/
def waitForMutex : List LockOperation :=
  [.acquireMutex 1, .proceed] ++ timerTick ++ timerTick ++
    [.acquireMutex 1, .proceed, .proceed, .proceed, .proceed, .proceed, .proceed,
      .softwareInterrupt {}]

theorem links_exclusive_guarded_runs_waitForMutex :
    ∃ last : LockSystem, (last.mutexes 1).waiterHead = some 0x1200 ∧ ∃ lists : ListOwner → List ℕ,
      (∀ owner, Linked last.kernel.nextOf (listAnchors last.kernel last.mutexes owner).head
        (lists owner) ∧ (lists owner).Nodup) ∧
      (∀ first second t, t ∈ lists first → t ∈ lists second → first = second) ∧
      ∀ m, (last.mutexes m).waiterCount = (lists (.mutex m)).length := by
  have head : ((LockSystem.start threeThreads).steps LockSystem.linkSafe 8 waitForMutex).map
      (fun last => (last.mutexes 1).waiterHead) = some (some 0x1200) := by
    decide +kernel
  rcases Option.map_eq_some_iff.mp head with ⟨last, returns, isHead⟩
  exact ⟨last, isHead,
    links_exclusive_guarded_runs threeThreads_started (LockSystem.run_of_steps returns)⟩

/-- The third thread waits for the mutex while it holds the thread mutex. -/
def waitInsideSection : List LockOperation :=
  [.acquireMutex 1, .proceed] ++ timerTick ++ timerTick ++
    [.acquireMutex threadMutex, .proceed, .acquireMutex 1, .proceed, .proceed]

theorem thread_on_two_lists :
    (LockSystem.start threeThreads).Started ∧ ∃ last,
      Transition.Run LockStep (LockSystem.start threeThreads) waitInsideSection last ∧
        ¬ ∃ lists : ListOwner → List ℕ,
          (∀ owner, Linked last.kernel.nextOf (listAnchors last.kernel last.mutexes owner).head
            (lists owner)) ∧
          ∀ first second t, t ∈ lists first → t ∈ lists second → first = second := by
  have heads : ((LockSystem.start threeThreads).steps (fun _ _ => true) 8
      waitInsideSection).map (fun last =>
        ((last.mutexes 1).waiterHead, (last.mutexes threadMutex).waiterHead)) =
          some (some 0x1200, some 0x1200) := by
    decide +kernel
  rcases Option.map_eq_some_iff.mp heads with ⟨last, returns, isHeads⟩
  rw [Prod.mk.injEq] at isHeads
  refine ⟨threeThreads_started, last, (LockSystem.run_of_steps returns).unguard, ?_⟩
  rintro ⟨lists, linked, apart⟩
  have mem : ∀ m, (last.mutexes m).waiterHead = some 0x1200 → 0x1200 ∈ lists (.mutex m) := by
    intro m isHead
    have isLinked := linked (.mutex m)
    simp only [listAnchors, isHead] at isLinked
    cases isList : lists (.mutex m) with
    | nil => simp [isList] at isLinked
    | cons first rest =>
        rw [isList, Linked.cons_iff, Option.some.injEq] at isLinked
        rw [isLinked.1]
        exact List.mem_cons_self
  have same := apart _ _ 0x1200 (mem 1 isHeads.1) (mem threadMutex isHeads.2)
  simp [threadMutex] at same

end Goshkik

import Goshkik.Scheduling.Dispatch

/-!
# Ticks that dispatch a thread of a zombie process

A tick never dispatches a blocked or a terminated thread.  It dispatches a thread of a
zombie process exactly if the queue gives none and the thread that the tick falls back on
is one of a zombie process.
-/

namespace Goshkik

namespace Kernel

variable {kernel middle after saved taken : Kernel} {queue rest : List ℕ} {t other fuel : ℕ}

theorem Turned.runnable_iff (turned : Turned kernel after) : after.Runnable t ↔
    kernel.Runnable t := by
  constructor
  · rintro ⟨unblocked, alive, owned, stack⟩
    rcases turned.state t with same | termed
    · refine ⟨same ▸ unblocked, same ▸ alive, turned.zombie t ▸ owned, ?_⟩
      exact fun stackless => stack ((turned.stackless t).mpr stackless)
    · exact absurd termed.2 alive
  · rintro ⟨unblocked, alive, owned, stack⟩
    rcases turned.state t with same | termed
    · refine ⟨same ▸ unblocked, same ▸ alive, (turned.zombie t).trans owned, ?_⟩
      exact fun stackless => stack ((turned.stackless t).mp stackless)
    · exact absurd termed.1 stack

/-- No thread is running while the loop looks for one. -/
theorem Turned.idle (turned : Turned kernel after)
    (idle : ∀ t, kernel.awake t = true → (kernel.threads t).state = .ready) :
    ∀ t, after.awake t = true → (after.threads t).state = .ready := by
  intro t isAwake
  simp only [awake, Bool.or_eq_true, Bool.and_eq_true, decide_eq_true_eq] at isAwake
  rcases isAwake with ready | ⟨isCurrent, running⟩
  · exact ready
  · rcases turned.state t with same | termed
    · rw [same] at running ⊢
      apply idle t
      rw [turned.currentThread] at isCurrent
      simp [awake, isCurrent, running]
    · rw [termed.2] at running
      cases running

/-- A thread that the last turn takes from the table is the one the tick falls back on; one that
it takes from the queue is not of a zombie process. -/
theorem Dispatches.origin (dispatches : kernel.Dispatches taken t after)
    (idle : ∀ t, kernel.awake t = true → (kernel.threads t).state = .ready) :
    taken.readyHead ≠ none ∧ kernel.ownedByZombie t = false ∨
      taken.readyHead = none ∧ kernel.lastResort = some t := by
  have turned := dispatches.turned
  rcases dispatches.final with ⟨selects, fuel, considers⟩
  cases isHead : taken.readyHead with
  | some head =>
      rw [tickSelect_head isHead] at selects
      simp only at selects
      split at selects
      · cases selects
      · rename_i owned
        cases selects
        rw [turned.zombie] at owned
        exact .inl ⟨by simp, by simpa using owned⟩
  | none =>
      rcases tickSelect_empty isHead selects with ⟨choice, same⟩
      rw [same] at considers
      rcases tickConsider_dispatched considers with ⟨_, _, _, stack, _⟩
      refine .inr ⟨rfl, ?_⟩
      rw [← turned.lastResort]
      exact tableChoice_lastResort (turned.idle idle) choice stack

/-- A dispatched thread is alive in the kernel that the loop starts with. -/
theorem Dispatches.alive (dispatches : kernel.Dispatches taken t after) :
    (kernel.threads t).state ≠ .blocked ∧ (kernel.threads t).state ≠ .termed ∧
      ¬kernel.Stackless t ∧ after.currentThread = some t := by
  rcases dispatches.final with ⟨_, fuel, considers⟩
  rcases tickConsider_dispatched considers with ⟨unblocked, alive, _, stack, rfl⟩
  have turned := dispatches.turned.trans (.tickSelect taken)
  rw [turned.stackless] at stack
  rcases turned.state t with same | termed
  · rw [same] at unblocked alive
    exact ⟨unblocked, alive, stack, rfl⟩
  · exact absurd termed.1 stack

/-! ## The queue from turn to turn -/

/-- A turn that goes on drops the thread it has taken, which then is not one to dispatch, or puts
it behind the queue. -/
theorem IsReadyQueue.tickConsider (isQueue : kernel.IsReadyQueue queue) (absent : t ∉ queue)
    (considers : kernel.tickConsider fuel t = some (.selecting, after)) :
    after.IsReadyQueue queue ∧ ¬kernel.Runnable t ∨ after.IsReadyQueue (queue ++ [t]) := by
  simp only [Kernel.tickConsider] at considers
  split at considers
  · rename_i dead
    rcases Option.map_eq_some_iff.mp considers with ⟨removed, removes, equation⟩
    cases equation
    have kept := (isQueue.removeFromReadyQueue removes).1
    rw [List.erase_of_not_mem absent] at kept
    refine .inl ⟨kept, ?_⟩
    rintro ⟨unblocked, alive, _, _⟩
    rcases dead with blocked | termed
    · exact unblocked blocked
    · exact alive termed
  · split at considers
    · rcases Option.map_eq_some_iff.mp considers with ⟨queued, queues, equation⟩
      cases equation
      rcases (isQueue.cool t).enqueueReadyTail absent with ⟨after', enqueues, isQueueAfter, _⟩
      rw [Kernel.cool, queues, Option.some.injEq] at enqueues
      exact .inr (enqueues ▸ isQueueAfter)
    · split at considers
      · rename_i stackless
        cases considers
        exact .inl ⟨isQueue.discard, fun runnable => runnable.stack stackless⟩
      · cases considers

/-- The loop takes the head of a queue that is not empty. -/
theorem IsReadyQueue.tickSelect {head : ℕ} (isQueue : kernel.IsReadyQueue (head :: rest)) :
    kernel.tickSelect = (if kernel.ownedByZombie head then .selecting else .considering head,
      kernel.dequeueReadyHead head) ∧
    (kernel.dequeueReadyHead head).IsReadyQueue rest ∧ head ∉ rest :=
  ⟨tickSelect_head isQueue.linked.1, isQueue.dequeueReadyHead.1,
    (List.nodup_cons.mp isQueue.distinct).1⟩

theorem IsReadyQueue.readyHead_eq_none (isQueue : kernel.IsReadyQueue queue) :
    kernel.readyHead = none ↔ queue = [] :=
  isQueue.linked.head_eq_none_iff

/-- A turn at a queue that is not empty which does not dispatch: the head is dropped or goes to
the back. -/
theorem IsReadyQueue.turn_cons {head : ℕ} (isQueue : kernel.IsReadyQueue (head :: rest))
    (turns : kernel.tickSelect.1 = .selecting ∧ middle = kernel.tickSelect.2 ∨
      kernel.tickSelect.1 = .considering other ∧
        kernel.tickSelect.2.tickConsider fuel other = some (.selecting, middle)) :
    middle.IsReadyQueue rest ∧ ¬kernel.Runnable head ∨ middle.IsReadyQueue (rest ++ [head]) := by
  rcases isQueue.tickSelect with ⟨selects, isQueueRest, absent⟩
  rw [selects] at turns
  simp only at turns
  rcases turns with ⟨dropped, rfl⟩ | ⟨taken, considers⟩
  · split at dropped
    · rename_i zombie
      refine .inl ⟨isQueueRest, fun runnable => ?_⟩
      rw [runnable.owned] at zombie
      cases zombie
    · cases dropped
  · split at taken
    · cases taken
    · rw [TickPhase.considering.injEq] at taken
      subst taken
      have turned : Turned kernel (kernel.dequeueReadyHead head) :=
        .of_relinked (.dequeueReadyHead kernel head)
      rcases isQueueRest.tickConsider absent considers with ⟨kept, unrunnable⟩ | queued
      · exact .inl ⟨kept, fun runnable => unrunnable (turned.runnable_iff.mpr runnable)⟩
      · exact .inr queued

/-- A turn at an empty queue which does not dispatch: the thread of the table is queued, or not
one to dispatch. -/
theorem IsReadyQueue.turn_nil (isQueue : kernel.IsReadyQueue [])
    (selects : kernel.tickSelect.1 = .considering other)
    (considers : kernel.tickSelect.2.tickConsider fuel other = some (.selecting, middle)) :
    kernel.tableChoice = some other ∧
      (middle.IsReadyQueue [] ∨ middle.IsReadyQueue [other]) := by
  rcases tickSelect_empty (isQueue.readyHead_eq_none.mpr rfl) selects with ⟨choice, same⟩
  rw [same] at considers
  refine ⟨choice, ?_⟩
  rcases isQueue.tickConsider List.not_mem_nil considers with ⟨kept, _⟩ | queued
  · exact .inl kept
  · exact .inr queued

/-- A queue with a thread to dispatch does not run empty. -/
theorem Dispatches.served (dispatches : kernel.Dispatches taken t after)
    (isQueue : kernel.IsReadyQueue queue) (runnable : ∃ node ∈ queue, kernel.Runnable node) :
    taken.readyHead ≠ none := by
  have keeps {kernel middle : Kernel} {head : ℕ} {rest : List ℕ} (turned : Turned kernel middle)
      (turn : middle.IsReadyQueue rest ∧ ¬kernel.Runnable head ∨
        middle.IsReadyQueue (rest ++ [head]))
      (runnable : ∃ node ∈ head :: rest, kernel.Runnable node) :
      ∃ queue, middle.IsReadyQueue queue ∧ ∃ node ∈ queue, middle.Runnable node := by
    rcases runnable with ⟨node, mem, isRunnable⟩
    have isRunnableAfter := turned.runnable_iff.mpr isRunnable
    rcases turn with ⟨isQueueAfter, unrunnable⟩ | isQueueAfter
    · rcases List.mem_cons.mp mem with rfl | mem
      · exact absurd isRunnable unrunnable
      · exact ⟨rest, isQueueAfter, node, mem, isRunnableAfter⟩
    · refine ⟨rest ++ [head], isQueueAfter, node, ?_, isRunnableAfter⟩
      simpa [or_comm] using mem
  induction dispatches generalizing queue with
  | last selects considers =>
      intro empty
      rw [isQueue.readyHead_eq_none.mp empty] at runnable
      rcases runnable with ⟨node, mem, _⟩
      cases mem
  | drop selects rest ih =>
      cases queue with
      | nil =>
          rcases runnable with ⟨node, mem, _⟩
          cases mem
      | cons head queue =>
          have turn := @IsReadyQueue.turn_cons _ _ _ 0 0 _ isQueue (.inl ⟨selects, rfl⟩)
          rcases keeps (.tickSelect _) turn runnable with ⟨_, isQueueAfter, runnableAfter⟩
          exact ih isQueueAfter runnableAfter
  | again selects considers rest ih =>
      cases queue with
      | nil =>
          rcases runnable with ⟨node, mem, _⟩
          cases mem
      | cons head queue =>
          have turn := isQueue.turn_cons (.inr ⟨selects, considers⟩)
          have turned := (Turned.tickSelect _).trans (.tickConsider considers)
          rcases keeps turned turn runnable with ⟨_, isQueueAfter, runnableAfter⟩
          exact ih isQueueAfter runnableAfter

/-- A queue without a thread to dispatch runs empty if the thread that the tick falls back on is
none either. -/
theorem Dispatches.unserved (dispatches : kernel.Dispatches taken t after)
    (isQueue : kernel.IsReadyQueue queue) (unrunnable : ∀ node ∈ queue, ¬kernel.Runnable node)
    (idle : ∀ t, kernel.awake t = true → (kernel.threads t).state = .ready)
    (fallback : ∀ node ∈ kernel.lastResort, ¬kernel.Runnable node) : taken.readyHead = none := by
  have keeps {kernel middle : Kernel} {head : ℕ} {rest : List ℕ} (turned : Turned kernel middle)
      (turn : middle.IsReadyQueue rest ∧ ¬kernel.Runnable head ∨
        middle.IsReadyQueue (rest ++ [head]))
      (unrunnable : ∀ node ∈ head :: rest, ¬kernel.Runnable node) :
      ∃ queue, middle.IsReadyQueue queue ∧ ∀ node ∈ queue, ¬middle.Runnable node := by
    rcases turn with ⟨isQueueAfter, _⟩ | isQueueAfter
    · refine ⟨rest, isQueueAfter, fun node mem => ?_⟩
      rw [turned.runnable_iff]
      exact unrunnable node (List.mem_cons_of_mem _ mem)
    · refine ⟨rest ++ [head], isQueueAfter, fun node mem => ?_⟩
      rw [turned.runnable_iff]
      exact unrunnable node (by simpa [or_comm] using mem)
  induction dispatches generalizing queue with
  | @last taken after t fuel selects considers =>
      cases queue with
      | nil => exact isQueue.readyHead_eq_none.mpr rfl
      | cons head queue =>
          exfalso
          rcases isQueue.tickSelect with ⟨equation, _, _⟩
          rw [equation] at selects considers
          simp only at selects considers
          split at selects
          · cases selects
          · rename_i owned
            rw [TickPhase.considering.injEq] at selects
            subst selects
            have turned : Turned taken (taken.dequeueReadyHead head) :=
              .of_relinked (.dequeueReadyHead taken head)
            rcases tickConsider_dispatched considers with ⟨unblocked, alive, _, stack, _⟩
            have runnable : (taken.dequeueReadyHead head).Runnable head :=
              ⟨unblocked, alive, (turned.zombie head).trans (by simpa using owned), stack⟩
            exact unrunnable head List.mem_cons_self (turned.runnable_iff.mp runnable)
  | @drop kernel taken after t selects rest ih =>
      have turned := Turned.tickSelect kernel
      have turn : ∃ queue, kernel.tickSelect.2.IsReadyQueue queue ∧
          ∀ node ∈ queue, ¬kernel.tickSelect.2.Runnable node := by
        cases queue with
        | nil =>
            exfalso
            simp only [tickSelect, isQueue.readyHead_eq_none.mpr rfl] at selects
            split at selects <;> cases selects
        | cons head queue =>
            exact keeps turned (@IsReadyQueue.turn_cons _ _ _ 0 0 _ isQueue (.inl ⟨selects, rfl⟩))
              unrunnable
      rcases turn with ⟨queueAfter, isQueueAfter, unrunnableAfter⟩
      apply ih isQueueAfter unrunnableAfter (turned.idle idle)
      intro node isFallback
      rw [turned.runnable_iff]
      rw [turned.lastResort] at isFallback
      exact fallback node isFallback
  | @again kernel middle taken after t other fuel selects considers rest ih =>
      have turned := (Turned.tickSelect kernel).trans (.tickConsider considers)
      have turn : ∃ queue, middle.IsReadyQueue queue ∧ ∀ node ∈ queue, ¬middle.Runnable node := by
        cases queue with
        | nil =>
            rcases isQueue.turn_nil selects considers with ⟨choice, kept | queued⟩
            · exact ⟨[], kept, by simp⟩
            · refine ⟨[other], queued, fun node mem => ?_⟩
              rw [List.mem_singleton.mp mem, turned.runnable_iff]
              intro runnable
              exact fallback other (tableChoice_lastResort idle choice runnable.stack) runnable
        | cons head queue =>
            exact keeps turned (isQueue.turn_cons (.inr ⟨selects, considers⟩)) unrunnable
      rcases turn with ⟨queueAfter, isQueueAfter, unrunnableAfter⟩
      apply ih isQueueAfter unrunnableAfter (turned.idle idle)
      intro node isFallback
      rw [turned.runnable_iff]
      rw [turned.lastResort] at isFallback
      exact fallback node isFallback

/-! ## Whole ticks -/

theorem Prepared.runnable_iff (prepared : Prepared kernel saved) :
    saved.Runnable t ↔ kernel.Runnable t := by
  have state := prepared.state t
  constructor
  · rintro ⟨unblocked, alive, owned, stack⟩
    rcases prepared.alive unblocked alive with ⟨unblockedBefore, aliveBefore⟩
    refine ⟨unblockedBefore, aliveBefore, prepared.zombie t ▸ owned, ?_⟩
    exact fun stackless => stack ((prepared.stackless t).mpr stackless)
  · rintro ⟨unblocked, alive, owned, stack⟩
    refine ⟨?_, ?_, (prepared.zombie t).trans owned, ?_⟩
    · rw [state]
      split
      · simp
      · exact unblocked
    · rw [state]
      split
      · simp
      · exact alive
    · exact fun stackless => stack ((prepared.stackless t).mp stackless)

/-- The current thread goes on exactly if it is neither blocked nor terminated. -/
theorem awake_current (current : kernel.currentThread = some t) :
    kernel.awake t = true ↔
      (kernel.threads t).state ≠ .blocked ∧ (kernel.threads t).state ≠ .termed := by
  simp only [awake, current]
  cases (kernel.threads t).state <;> decide

/-- The queue of the loop has a thread to dispatch exactly if the queue of the tick or the current
thread is one. -/
theorem exists_runnable_iff :
    (∃ node ∈ queue ++ (kernel.currentThread.filter kernel.awake).toList, kernel.Runnable node) ↔
      ∃ node ∈ queue ++ kernel.currentThread.toList, kernel.Runnable node := by
  constructor
  · rintro ⟨node, mem, runnable⟩
    refine ⟨node, ?_, runnable⟩
    rw [List.mem_append, Option.mem_toList] at mem ⊢
    exact mem.imp_right (fun isCurrent => (Option.filter_eq_some_iff.mp isCurrent).1)
  · rintro ⟨node, mem, runnable⟩
    refine ⟨node, ?_, runnable⟩
    rw [List.mem_append, Option.mem_toList] at mem ⊢
    refine mem.imp_right (fun isCurrent => Option.filter_eq_some_iff.mpr ⟨isCurrent, ?_⟩)
    exact (awake_current isCurrent).mpr ⟨runnable.unblocked, runnable.alive⟩

/-- A tick dispatches a thread that is neither blocked nor terminated.  The thread is not of a
zombie process exactly if the last turn takes it from the queue, or the thread that the tick
falls back on is not of a zombie process.  If the queue is well formed, the last turn takes a
thread from it exactly if the queue or the current thread is one to dispatch. -/
theorem tick_dispatch_zombie_iff {context : Context}
    (saves : kernel.tickPrologue fuel context = some saved)
    (dispatches : saved.Dispatches taken t after) :
    after.currentThread = some t ∧
    (kernel.threads t).state ≠ .blocked ∧ (kernel.threads t).state ≠ .termed ∧
    (kernel.ownedByZombie t = false ↔ taken.readyHead ≠ none ∨
      ∀ node ∈ kernel.lastResort, kernel.ownedByZombie node = false) ∧
    ∀ queue, kernel.IsReadyQueue queue → (∀ old ∈ kernel.currentThread, old ∉ queue) →
      (kernel.ownedByZombie t = false ↔
        (∃ node ∈ queue ++ kernel.currentThread.toList, kernel.Runnable node) ∨
          ∀ node ∈ kernel.lastResort, kernel.ownedByZombie node = false) := by
  have prepared := tickPrologue_prepared saves
  rcases dispatches.alive with ⟨unblocked, alive, stack, current⟩
  have aliveBefore := prepared.alive unblocked alive
  have origin := dispatches.origin prepared.idle
  rw [prepared.zombie, prepared.lastResort] at origin
  refine ⟨current, aliveBefore.1, aliveBefore.2, ?_, ?_⟩
  · constructor
    · intro owned
      rcases origin with ⟨queued, _⟩ | ⟨_, isFallback⟩
      · exact .inl queued
      · refine .inr (fun node mem => ?_)
        rw [isFallback] at mem
        rcases mem
        exact owned
    · rintro (queued | fallback)
      · rcases origin with ⟨_, owned⟩ | ⟨empty, _⟩
        · exact owned
        · exact absurd empty queued
      · rcases origin with ⟨_, owned⟩ | ⟨_, isFallback⟩
        · exact owned
        · exact fallback t isFallback
  · intro queue isQueue unqueued
    have isQueueSaved := tickPrologue_requeues isQueue unqueued saves
    rw [← exists_runnable_iff]
    constructor
    · intro owned
      by_contra neither
      rw [not_or] at neither
      rcases neither with ⟨nobody, fallback⟩
      have empty : taken.readyHead = none := by
        apply dispatches.unserved isQueueSaved _ prepared.idle
        · intro node isFallback runnable
          rw [prepared.lastResort] at isFallback
          apply fallback
          intro other isOther
          rw [isFallback] at isOther
          rcases isOther
          exact (prepared.runnable_iff.mp runnable).owned
        · intro node mem runnable
          exact nobody ⟨node, mem, prepared.runnable_iff.mp runnable⟩
      rcases origin with ⟨queued, _⟩ | ⟨_, isFallback⟩
      · exact queued empty
      · apply fallback
        intro node isNode
        rw [isFallback] at isNode
        rcases isNode
        exact owned
    · rintro (⟨node, mem, runnable⟩ | fallback)
      · have queued := dispatches.served isQueueSaved
          ⟨node, mem, prepared.runnable_iff.mpr runnable⟩
        rcases origin with ⟨_, owned⟩ | ⟨empty, _⟩
        · exact owned
        · exact absurd empty queued
      · rcases origin with ⟨_, owned⟩ | ⟨_, isFallback⟩
        · exact owned
        · exact fallback t isFallback

end Kernel

/-- The kernel thread is blocked, the queue is empty, and the thread `0x1100` of the zombie process
`0x200` is ready. -/
def desertedKernel : Kernel where
  threads := fun t =>
    if t = 0x1100 then { tid := 1, oPid := 1, proc := some 0x200 } else { state := .blocked }
  processes := fun p => if p = 0x200 then { pid := 1, state := .zombie } else { state := .running }
  threadBlocks := [0x1000, 0x1100]
  processBlocks := [0x100, 0x200]
  readyHead := none
  readyTail := none
  currentThread := none
  threadTable := fun slot =>
    if slot = 0 then some 0x1000 else if slot = 1 then some 0x1100 else none
  threadCount := 2
  nextTid := 2
  processTable := fun slot => if slot = 0 then some 0x100 else if slot = 1 then some 0x200 else none
  nextPid := 2

theorem zombie_dispatched :
    ∃ saved taken after, desertedKernel.tickPrologue 1 {} = some saved ∧
      saved.Dispatches taken 0x1100 after ∧ after.currentThread = some 0x1100 ∧
      desertedKernel.ownedByZombie 0x1100 = true := by
  have selects : desertedKernel.tickSelect.1 = .considering 0x1100 := by decide +kernel
  have considers : desertedKernel.tickSelect.2.tickConsider 0 0x1100 =
      some (.dispatched, desertedKernel.tickSelect.2.dispatch 0x1100) :=
    Kernel.tickConsider_dispatch (by decide +kernel) (by decide +kernel) (by decide +kernel)
      (by decide +kernel) 0
  exact ⟨desertedKernel, _, _, rfl, .last selects considers, rfl, by decide +kernel⟩

/-- The first tick of a started kernel dispatches the idle thread. -/
theorem tick_dispatch_zombie_iff_started : startedKernel.ownedByZombie 0x1100 = false := by
  have returns : (startedKernel.tickPrologue 0 {}).isSome := by decide +kernel
  rcases Option.isSome_iff_exists.mp returns with ⟨saved, saves⟩
  have isSaved : saved = (startedKernel.tickPrologue 0 {}).getD startedKernel := by
    rw [saves]
    rfl
  have selects : saved.tickSelect.1 = .considering 0x1100 := by
    rw [isSaved]
    decide +kernel
  have considers : saved.tickSelect.2.tickConsider 0 0x1100 =
      some (.dispatched, saved.tickSelect.2.dispatch 0x1100) := by
    apply Kernel.tickConsider_dispatch
    all_goals
      rw [isSaved]
      decide +kernel
  have runnable : ∃ node ∈ [0x1100] ++ startedKernel.currentThread.toList,
      startedKernel.Runnable node :=
    ⟨0x1100, by simp, by decide +kernel, by decide +kernel, by decide +kernel, by decide +kernel⟩
  have stop : startedKernel.nextOf 0x1100 = none := by decide +kernel
  have current : startedKernel.currentThread = some 0x1000 := by decide +kernel
  exact ((Kernel.tick_dispatch_zombie_iff saves (.last selects considers)).2.2.2.2 [0x1100]
    (.of_linked ⟨by decide +kernel, stop⟩ (by decide +kernel)) (by simp [current])).mpr
      (.inl runnable)

end Goshkik

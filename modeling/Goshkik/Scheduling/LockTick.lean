import Goshkik.Scheduling.LockSteps

/-!
# The scheduler tick keeps the invariant of the lock system

A tick that starts while the thread mutex is free finds nobody waiting for it, so
its own sections under the mutex change nothing.  What remains is that the tick
moves threads between the ready queue and the processor.
-/

namespace Goshkik

/-- The prologue of a tick that interrupts a blocked thread. -/
theorem Kernel.HoldsLists.tickPrologue_blocked {kernel saved : Kernel} {mutexes : ℕ → Mutex}
    {lists : ListOwner → List ℕ} {c fuel : ℕ} {context : Context}
    (holds : kernel.HoldsLists mutexes lists) (isCurrent : kernel.currentThread = some c)
    (isBlocked : (kernel.threads c).state = .blocked) (notReady : c ∉ lists .ready)
    (runs : kernel.tickPrologue fuel context = some saved) :
    saved.HoldsLists mutexes lists ∧ saved.currentThread = none ∧ saved.threads =
      (kernel.modifyThread c (fun record => { record with context := context })).threads ∧
        saved.threadTable = kernel.threadTable := by
  simp only [Kernel.tickPrologue, isCurrent, isBlocked, Option.map_eq_some_iff] at runs
  rcases runs with ⟨removed, removes, rfl⟩
  have contextSaved : (kernel.modifyThread c
      (fun record => { record with context := context })).HoldsLists mutexes lists :=
    holds.modifyThread rfl
  rw [contextSaved.removeFromReadyQueue notReady removes]
  exact ⟨contextSaved, rfl, rfl, rfl⟩

/-- The prologue of a tick that interrupts a thread which can go on. -/
theorem Kernel.HoldsLists.tickPrologue_runnable {kernel saved : Kernel} {mutexes : ℕ → Mutex}
    {lists : ListOwner → List ℕ} {c fuel : ℕ} {context : Context}
    (holds : kernel.HoldsLists mutexes lists) (isCurrent : kernel.currentThread = some c)
    (unblocked : (kernel.threads c).state ≠ .blocked) (alive : (kernel.threads c).state ≠ .termed)
    (absent : ∀ owner, c ∉ lists owner) (runs : kernel.tickPrologue fuel context = some saved) :
    saved.HoldsLists mutexes (Function.update lists .ready (lists .ready ++ [c])) ∧
      Kernel.Relinked ((kernel.modifyThread c
        (fun record => { record with context := context })).setState c .ready) saved := by
  have ready : ((kernel.modifyThread c
      (fun record => { record with context := context })).setState c .ready).HoldsLists mutexes
        lists :=
    (holds.modifyThread rfl).setState c .ready
  simp only [Kernel.tickPrologue, isCurrent] at runs
  cases state : (kernel.threads c).state with
  | running =>
      rw [state] at runs
      exact ready.enqueueReadyTail absent runs
  | ready =>
      rw [state] at runs
      exact ready.enqueueReadyTail absent runs
  | blocked => exact absurd state unblocked
  | termed => exact absurd state alive

namespace LockSystem

variable {system after : LockSystem} {lists : ListOwner → List ℕ} {position : ℕ → Position}
  {c fuel : ℕ}

/-- The tick rearranges the ready queue. -/
theorem Sound.requeue (sound : system.Sound lists position) {kernel : Kernel} {phase : TickPhase}
    {lists' : ListOwner → List ℕ} {control : ℕ → List Frame} {position' : ℕ → Position}
    (ticking : phase = .selecting ∨ ∃ t, phase = .considering t)
    (holds : kernel.HoldsLists system.mutexes lists')
    (sameTable : Kernel.SameTable system.kernel kernel)
    (mutexLists : ∀ m, lists' (.mutex m) = lists (.mutex m))
    (processLists : ∀ p, lists' (.process p) = lists (.process p))
    (blocked : ∀ t, (kernel.threads t).state = .blocked ↔ (system.kernel.threads t).state =
      .blocked)
    (alive : ∀ t, system.kernel.Listed t → (kernel.threads t).state ≠ .termed)
    (waits : ∀ p, ∀ t ∈ lists (.process p), (system.kernel.threads t).state = .blocked)
    (current : ∀ t, kernel.currentThread = some t →
      system.kernel.Listed t ∧ (kernel.threads t).state ≠ .blocked)
    (ready : ∀ t ∈ lists' .ready, system.kernel.Listed t)
    (held : ∀ t, phase = .considering t → system.kernel.Listed t ∧ t ∉ lists' .ready)
    (unlocked : (system.mutexes threadMutex).locked = false)
    (frames : ∀ t, control t = (position' t).frames t (system.kernel.threads t).tid)
    (enters : ∀ t stage m, position' t = .blocking stage (some m) → stage.entering = true →
      position t = .blocking stage (some m))
    (sleeps : ∀ t m, (position' t = .acquiring m ∨
      ∃ stage, position' t = .blocking stage (some m)) →
      position t = .acquiring m ∨ ∃ stage, position t = .blocking stage (some m))
    (wakes : Prop) :
    system.Kept lists position wakes
      { system with kernel := kernel, phase := phase, control := control } := by
  have notIdle : phase ≠ .idle ∧ phase ≠ .dispatched := by
    rcases ticking with rfl | ⟨t, rfl⟩ <;> simp
  refine ⟨lists', position', ?_, fun heard _ => ?_⟩
  · constructor
    case holds => exact holds
    case counts =>
      intro m
      rw [mutexLists]
      exact sound.counts m
    case populated => exact sound.populated.sameTable sameTable alive
    case listed =>
      intro owner t mem
      change kernel.Listed t
      rw [sameTable.listed]
      cases owner with
      | ready => exact ready t mem
      | mutex m => exact sound.listed (.mutex m) t (mutexLists m ▸ mem)
      | process p => exact sound.listed (.process p) t (processLists p ▸ mem)
    case control =>
      intro t
      simpa [sameTable.tid] using frames t
    case waiting =>
      intro m t mem
      exact (blocked t).mpr (sound.waiting m t (mutexLists m ▸ mem))
    case awaiting =>
      intro p t mem
      exact .inl ((blocked t).mpr (waits p t (processLists p ▸ mem)))
    case current =>
      intro t isCurrent
      change kernel.Listed t
      rw [sameTable.listed]
      exact (current t isCurrent).1
    case running => exact fun stays => absurd stays (by simp [notIdle])
    case interrupted => exact fun _ t isCurrent => (current t isCurrent).2
    case held =>
      intro t considers
      refine ⟨?_, (held t considers).2⟩
      change kernel.Listed t
      rw [sameTable.listed]
      exact (held t considers).1
    case unlocked => exact fun _ => unlocked
    case uncontended =>
      left
      rcases sound.uncontended with empty | ⟨_, locked, _⟩
      · rw [mutexLists]
        exact empty
      · rw [unlocked] at locked
        exact Bool.noConfusion locked
  · constructor
    · intro t stage m isPosition entering
      rw [mutexLists]
      exact heard.entering t stage m (enters t stage m isPosition entering) entering
    · intro t m isBlocked isPosition
      rw [mutexLists]
      exact heard.asleep t m ((blocked t).mp isBlocked) (sleeps t m isPosition)

/-- A thread that is neither queued nor blocked is on no list. -/
theorem Sound.unlisted (sound : system.Sound lists position)
    (waits : ∀ p, ∀ t ∈ lists (.process p), (system.kernel.threads t).state = .blocked)
    (notReady : c ∉ lists .ready) (unblocked : (system.kernel.threads c).state ≠ .blocked)
    (owner : ListOwner) : c ∉ lists owner := by
  intro mem
  cases owner with
  | ready => exact notReady mem
  | mutex m => exact unblocked (sound.waiting m c mem)
  | process p => exact unblocked (waits p c mem)

theorem tickPrologue_none {kernel saved : Kernel} {context : Context}
    (isCurrent : kernel.currentThread = none)
    (runs : kernel.tickPrologue fuel context = some saved) : saved = kernel := by
  simp only [Kernel.tickPrologue, isCurrent, Option.some.injEq] at runs
  exact runs.symm

/-- The prologue of a tick: the current thread goes back to the ready queue, or it is
blocked and leaves the processor. -/
theorem Sound.prologue (sound : system.Sound lists position) (idle : system.phase = .idle)
    (isCurrent : system.kernel.currentThread = some c)
    (unlocked : (system.mutexes threadMutex).locked = false)
    (waits : ∀ p, ∀ t ∈ lists (.process p), (system.kernel.threads t).state = .blocked)
    (target : Position) {control : ℕ → List Frame} {context : Context} {saved : Kernel}
    (frames : ∀ t, control t =
      (Function.update position c target t).frames t (system.kernel.threads t).tid)
    (enters : ∀ stage m, target = .blocking stage (some m) → stage.entering = true →
      position c = .blocking stage (some m))
    (sleeps : ∀ m, (target = .acquiring m ∨ ∃ stage, target = .blocking stage (some m)) →
      position c = .acquiring m ∨ ∃ stage, position c = .blocking stage (some m))
    (runs : system.kernel.tickPrologue fuel context = some saved) (wakes : Prop) :
    system.Kept lists position wakes
      { system with kernel := saved, phase := .selecting, control := control } := by
  have listed := sound.current c isCurrent
  have alive := sound.populated.alive c listed
  have notReady := (sound.running (.inl idle) c isCurrent).1
  have enters' : ∀ t stage m, Function.update position c target t = .blocking stage (some m) →
      stage.entering = true → position t = .blocking stage (some m) := by
    intro t stage m
    by_cases same : t = c
    · subst same
      rw [Function.update_self]
      exact enters stage m
    · rw [Function.update_of_ne same]
      exact fun isPosition _ => isPosition
  have sleeps' : ∀ t m, (Function.update position c target t = .acquiring m ∨
      ∃ stage, Function.update position c target t = .blocking stage (some m)) →
        position t = .acquiring m ∨ ∃ stage, position t = .blocking stage (some m) := by
    intro t m
    by_cases same : t = c
    · subst same
      rw [Function.update_self]
      exact sleeps m
    · rw [Function.update_of_ne same]
      exact id
  have sameTable : Kernel.SameTable system.kernel (system.kernel.modifyThread c
      (fun record => { record with context := context })) :=
    Kernel.SameTable.modifyThread _ rfl rfl rfl
  have sameState : ∀ t, ((system.kernel.modifyThread c
      (fun record => { record with context := context })).threads t).state =
        (system.kernel.threads t).state := by
    intro t
    by_cases same : t = c
    · subst same
      simp
    · rw [Kernel.modifyThread_threads_ne _ _ _ same]
  by_cases isBlocked : (system.kernel.threads c).state = .blocked
  · rcases sound.holds.tickPrologue_blocked isCurrent isBlocked notReady runs with
      ⟨holds, isCurrentAfter, threads, table⟩
    have sameTableAfter : Kernel.SameTable system.kernel saved := by
      refine ⟨table, ?_, ?_, ?_⟩
      all_goals rw [threads]
      · exact sameTable.tid
      · exact sameTable.privilege
      · exact sameTable.kernelStack
    apply sound.requeue (.inl rfl) holds sameTableAfter (fun _ => rfl) (fun _ => rfl) _ _ waits
      (by simp [isCurrentAfter]) (sound.listed .ready) (by simp) unlocked frames enters' sleeps'
      wakes
    · intro t
      rw [threads, sameState]
    · intro t isListed
      rw [threads, sameState]
      exact sound.populated.alive t isListed
  · have absent := sound.unlisted waits notReady isBlocked
    rcases sound.holds.tickPrologue_runnable isCurrent isBlocked alive absent runs with
      ⟨holds, relinked⟩
    have isReady : (saved.threads c).state = .ready := by
      rw [relinked.state, Kernel.setState_state]
    have others : ∀ t, t ≠ c → (saved.threads t).state = (system.kernel.threads t).state := by
      intro t different
      rw [relinked.state, Kernel.setState_state_ne _ different, sameState]
    have isCurrentAfter : saved.currentThread = some c := relinked.currentThread.trans isCurrent
    apply sound.requeue (.inl rfl) holds ((sameTable.trans (.setState _ c .ready)).trans
      (.of_relinked relinked)) (by simp) (by simp) _ _ waits _ _ (by simp) unlocked frames enters'
      sleeps' wakes
    · intro t
      by_cases same : t = c
      · subst same
        simp [isReady, isBlocked]
      · rw [others t same]
    · intro t isListed
      by_cases same : t = c
      · subst same
        simp [isReady]
      · rw [others t same]
        exact sound.populated.alive t isListed
    · intro t isCurrent'
      rcases Option.some.inj (isCurrentAfter.symm.trans isCurrent')
      exact ⟨listed, by simp [isReady]⟩
    · intro t mem
      rcases SharedLists.mem_update_append.mp mem with mem | ⟨rfl, _⟩
      · exact sound.listed .ready t mem
      · exact listed

theorem waitPending_of_entering {stage : BlockStage} (entering : stage.entering = true)
    (t tid : ℕ) : waitPending ((Position.blocking stage none).frames t tid) = true := by
  rw [waitPending, frames_entering entering t tid none, Bool.true_and]
  cases stage <;>
    simp_all [Position.frames, Position.returnFrames, BlockStage.frames, BlockStage.entering,
      callThreadBlock, Frame.isAcquire]

theorem Sound.timerInterrupt (sound : system.Sound lists position) (idle : system.phase = .idle)
    {context : Context} (safe : system.LinkSafe (.timerInterrupt context))
    (runs : system.interrupt fuel context = some after) (wakes : Prop) :
    system.Kept lists position wakes after := by
  simp only [LockSystem.interrupt, Option.map_eq_some_iff] at runs
  rcases runs with ⟨saved, saves, rfl⟩
  rcases safe.timerInterrupt with ⟨unlocked, notPending⟩
  have waits : ∀ p, ∀ t ∈ lists (.process p), (system.kernel.threads t).state = .blocked := by
    intro p t mem
    rcases sound.awaiting p t mem with blocked | ⟨_, isCurrent, stage, entering, isPosition⟩
    · exact blocked
    · have pending := waitPending_of_entering entering t (system.kernel.threads t).tid
      rw [← isPosition, ← sound.control t, notPending t isCurrent] at pending
      exact Bool.noConfusion pending
  cases isCurrent : system.kernel.currentThread with
  | some c =>
      apply sound.prologue idle isCurrent unlocked waits (position c) _ _ _ saves wakes
      · intro t
        rw [Function.update_eq_self]
        exact sound.control t
      · exact fun _ _ isPosition _ => isPosition
      · exact fun _ => id
  | none =>
      rw [tickPrologue_none isCurrent saves]
      exact sound.requeue (.inl rfl) sound.holds (.refl _) (fun _ => rfl) (fun _ => rfl)
        (fun _ => Iff.rfl) sound.populated.alive waits (by simp [isCurrent]) (sound.listed .ready)
        (by simp) unlocked sound.control (fun _ _ _ isPosition _ => isPosition) (fun _ _ =>
          id) wakes

theorem Sound.softwareInterrupt (sound : system.Sound lists position)
    (idle : system.phase = .idle) (isCurrent : system.kernel.currentThread = some c)
    {caller : Option ℕ} (isPosition : position c = .blocking .interrupt caller) {context : Context}
    (unlocked : (system.mutexes threadMutex).locked = false)
    (runs : (system.setControl c (Position.returnFrames caller)).interrupt fuel context =
      some after)
    (wakes : Prop) : system.Kept lists position wakes after := by
  simp only [LockSystem.interrupt, Option.map_eq_some_iff] at runs
  rcases runs with ⟨saved, saves, rfl⟩
  apply sound.prologue idle isCurrent unlocked _ (Position.resumed caller) _ _ _ saves wakes
  · intro p t mem
    rcases sound.awaiting p t mem with blocked | ⟨_, isCurrent', stage, entering, isPosition'⟩
    · exact blocked
    · rcases Option.some.inj (isCurrent.symm.trans isCurrent')
      rw [isPosition] at isPosition'
      rw [← (Position.blocking.inj isPosition').1] at entering
      exact Bool.noConfusion entering
  · intro t
    by_cases same : t = c
    · subst same
      simp [LockSystem.setControl, Position.frames_resumed]
    · simpa [LockSystem.setControl, same] using sound.control t
  · intro stage m isTarget
    cases caller <;> simp [Position.resumed] at isTarget
  · intro m isTarget
    right
    cases caller with
    | none => simp [Position.resumed] at isTarget
    | some m' =>
        rcases isTarget with isTarget | ⟨stage, isTarget⟩
        · rw [← Position.acquiring.inj isTarget]
          exact ⟨.interrupt, isPosition⟩
        · simp [Position.resumed] at isTarget

/-! ## The loop of the tick -/

/-- During a tick every thread on the wait list of a process is blocked. -/
theorem Sound.waits (sound : system.Sound lists position) (ticking : system.phase ≠ .idle) (p t : ℕ)
    (mem : t ∈ lists (.process p)) : (system.kernel.threads t).state = .blocked := by
  rcases sound.awaiting p t mem with blocked | ⟨idle, _⟩
  · exact blocked
  · exact absurd idle ticking

theorem Sound.free_ticking (sound : system.Sound lists position) (ticking : system.phase ≠ .idle) :
    lists (.mutex threadMutex) = [] := by
  rcases sound.uncontended with empty | ⟨idle, _⟩
  · exact empty
  · exact absurd idle ticking

/-- A section of the tick under the thread mutex only clears the owner of the mutex. -/
theorem Sound.tickSection (sound : system.Sound lists position) (ticking : system.phase ≠ .idle)
    {body : Kernel → Option Kernel} (unchanged : body system.kernel = some system.kernel) :
    system.tickSection fuel body = some (system.setMutex system.kernel threadMutex
      { system.mutexes threadMutex with locked := false, owner := none }) := by
  have isHead : (system.mutexes threadMutex).waiterHead = none := by
    have linked := SharedLists.linked sound.holds (.mutex threadMutex)
    rw [sound.free_ticking ticking] at linked
    exact linked
  simp only [LockSystem.tickSection, Kernel.acquireSection, sound.unlocked ticking,
    Bool.false_eq_true, if_false, unchanged, Option.bind_some, LockSystem.release,
    LockSystem.setMutex, Function.update_self, Kernel.releaseMutex, Mutex.take, ne_eq,
    not_true_eq_false, isHead, Option.map_some, Function.update_idem]

/-- The tick goes on to another phase. -/
theorem Sound.setPhase (sound : system.Sound lists position) (ticking : system.phase ≠ .idle)
    {phase : TickPhase}
    (running : phase = .idle ∨ phase = .dispatched →
      ∀ t, system.kernel.currentThread = some t → t ∉ lists .ready)
    (held : ∀ t, phase = .considering t → system.kernel.Listed t ∧ t ∉ lists .ready) :
    { system with phase := phase }.Sound lists position where
  holds := sound.holds
  counts := sound.counts
  populated := sound.populated
  listed := sound.listed
  control := sound.control
  waiting := sound.waiting
  awaiting p t mem := .inl (sound.waits ticking p t mem)
  current := sound.current
  running stays t isCurrent := by
    have notReady := running stays t isCurrent
    have unblocked := sound.interrupted ticking t isCurrent
    refine ⟨notReady, ?_⟩
    rintro (blocked | ⟨owner, mem⟩)
    · exact absurd blocked unblocked
    · exact absurd mem (sound.unlisted (sound.waits ticking) notReady unblocked owner)
  interrupted _ := sound.interrupted ticking
  held := held
  unlocked _ := sound.unlocked ticking
  uncontended := .inl (sound.free_ticking ticking)

theorem readyInTable_listed {kernel : Kernel} {t : ℕ} (chosen : kernel.readyInTable = some t) :
    kernel.Listed t := by
  rcases List.exists_of_findSome?_eq_some chosen with ⟨slot, mem, isEntry⟩
  rw [List.mem_range'_1] at mem
  refine ⟨slot, ?_, (Option.filter_eq_some_iff.mp isEntry).1⟩
  simp only [maxThreads] at mem ⊢
  omega

theorem kernelThreadInTable_listed {kernel : Kernel} {t : ℕ}
    (chosen : kernel.kernelThreadInTable = some t) : kernel.Listed t :=
  ⟨0, by decide, (Option.filter_eq_some_iff.mp chosen).1⟩

theorem Sound.tickSelect (sound : system.Sound lists position)
    (selecting : system.phase = .selecting)
    (runs : system.tickSelect fuel = some after) (wakes : Prop) :
    system.Kept lists position wakes after := by
  have ticking : system.phase ≠ .idle := by simp [selecting]
  have linked := SharedLists.linked sound.holds .ready
  cases isList : lists .ready with
  | nil =>
      have isHead : system.kernel.readyHead = none := by
        rw [isList] at linked
        exact linked
      simp only [LockSystem.tickSelect, isHead, sound.tickSection ticking rfl, Option.map_some,
        Option.some.injEq] at runs
      have freed := @Sound.setMutex system lists position threadMutex sound
        { system.mutexes threadMutex with locked := false, owner := none } rfl rfl rfl
        (fun _ _ => rfl) (fun _ => sound.free_ticking ticking)
      refine ⟨lists, position, ?_, fun heard _ => ?_⟩
      · rw [← runs]
        split
        · rename_i t chosen
          apply freed.setPhase ticking (by simp)
          intro next considers
          rcases TickPhase.considering.inj considers
          refine ⟨?_, by simp [isList]⟩
          rcases Option.or_eq_some_iff.mp chosen with chosen | ⟨_, chosen⟩
          · exact readyInTable_listed chosen
          · exact kernelThreadInTable_listed chosen
        · exact freed.setPhase ticking (by simp [isList]) (by simp)
      · rw [← runs]
        split <;> exact ⟨heard.entering, heard.asleep⟩
  | cons head rest =>
      have isHead : system.kernel.readyHead = some head := SharedLists.head_eq sound.holds isList
      simp only [LockSystem.tickSelect, isHead, Option.some.injEq] at runs
      rcases sound.holds.dequeueReadyHead isList with ⟨holds, relinked⟩
      have distinct := linked.nodup
      rw [isList, List.nodup_cons] at distinct
      have selects : system.kernel.tickSelect =
          (if system.kernel.ownedByZombie head then .selecting else .considering head,
            system.kernel.dequeueReadyHead head) := by
        simp only [Kernel.tickSelect, isHead]
      rw [← runs, selects]
      apply sound.requeue _ holds (.of_relinked relinked) (by simp) (by simp) _ _
        (sound.waits ticking) _ _ _ (sound.unlocked ticking) sound.control
        (fun _ _ _ isPosition _ => isPosition) (fun _ _ => id) wakes
      · simp only
        split
        · exact .inl rfl
        · exact .inr ⟨head, rfl⟩
      · intro t
        rw [relinked.state]
      · intro t listed
        rw [relinked.state]
        exact sound.populated.alive t listed
      · intro t isCurrent
        rw [relinked.currentThread] at isCurrent
        rw [relinked.state]
        exact ⟨sound.current t isCurrent, sound.interrupted ticking t isCurrent⟩
      · intro t mem
        rw [Function.update_self] at mem
        exact sound.listed .ready t (by simp [isList, mem])
      · intro t considers
        simp only at considers
        split at considers
        · simp at considers
        · rcases TickPhase.considering.inj considers
          rw [Function.update_self]
          exact ⟨sound.listed .ready head (by simp [isList]), distinct.1⟩

/-- The tick commits its selection. -/
theorem Sound.dispatch (sound : system.Sound lists position) {next : ℕ}
    (considering : system.phase = .considering next)
    (unblocked : (system.kernel.threads next).state ≠ .blocked) (wakes : Prop) :
    system.Kept lists position wakes { system with
      kernel := { system.kernel.modifyThread next (fun record =>
        { record with cooldown := priorityToStride record.priority - 1 }) with
          currentThread := some next }.setState next .running
      phase := .dispatched } := by
  have ticking : system.phase ≠ .idle := by simp [considering]
  rcases sound.held next considering with ⟨listed, notReady⟩
  have absent := sound.unlisted (sound.waits ticking) notReady unblocked
  generalize isKernel : { system.kernel.modifyThread next (fun record =>
    { record with cooldown := priorityToStride record.priority - 1 }) with
      currentThread := some next }.setState next .running = kernel
  have isRunning : (kernel.threads next).state = .running := by
    rw [← isKernel, Kernel.setState_state]
  have others : ∀ t, t ≠ next → (kernel.threads t).state = (system.kernel.threads t).state := by
    intro t different
    rw [← isKernel, Kernel.setState_state_ne _ different]
    simp only
    rw [Kernel.modifyThread_threads_ne _ _ _ different]
  have isCurrent : kernel.currentThread = some next := by
    rw [← isKernel]
    rfl
  have sameTable : Kernel.SameTable system.kernel kernel := by
    rw [← isKernel]
    have cooled : Kernel.SameTable system.kernel (system.kernel.modifyThread next (fun record =>
        { record with cooldown := priorityToStride record.priority - 1 })) :=
      .modifyThread _ rfl rfl rfl
    have chosen : Kernel.SameTable system.kernel { system.kernel.modifyThread next (fun record =>
        { record with cooldown := priorityToStride record.priority - 1 }) with
          currentThread := some next } :=
      ⟨cooled.table, cooled.tid, cooled.privilege, cooled.kernelStack⟩
    exact chosen.trans (.setState _ next .running)
  have holds : kernel.HoldsLists system.mutexes lists := by
    have cooled : (system.kernel.modifyThread next (fun record =>
        { record with cooldown := priorityToStride record.priority - 1 })).HoldsLists
          system.mutexes lists :=
      sound.holds.modifyThread rfl
    rw [← isKernel]
    apply Kernel.HoldsLists.setState
    exact cooled
  have different : ∀ owner, ∀ t ∈ lists owner, t ≠ next := by
    rintro owner t mem rfl
    exact absent owner mem
  refine ⟨lists, position, ?_, fun heard _ => ?_⟩
  · constructor
    case holds => exact holds
    case counts => exact sound.counts
    case populated =>
      apply sound.populated.sameTable sameTable
      intro t isListed
      by_cases same : t = next
      · subst same
        simp [isRunning]
      · rw [others t same]
        exact sound.populated.alive t isListed
    case listed =>
      intro owner t mem
      change kernel.Listed t
      rw [sameTable.listed]
      exact sound.listed owner t mem
    case control =>
      intro t
      simpa [sameTable.tid] using sound.control t
    case waiting =>
      exact fun m t mem => (others t (different _ t mem)).trans (sound.waiting m t mem)
    case awaiting =>
      exact fun p t mem => .inl ((others t (different _ t mem)).trans (sound.waits ticking p t mem))
    case current =>
      intro t isCurrent'
      rcases Option.some.inj (isCurrent.symm.trans isCurrent')
      change kernel.Listed next
      rw [sameTable.listed]
      exact listed
    case running =>
      intro _ t isCurrent'
      rcases Option.some.inj (isCurrent.symm.trans isCurrent')
      refine ⟨notReady, ?_⟩
      rintro (isBlocked | ⟨owner, mem⟩)
      · exact absurd (isRunning.symm.trans isBlocked) (by simp)
      · exact absurd mem (absent owner)
    case interrupted =>
      intro _ t isCurrent'
      rcases Option.some.inj (isCurrent.symm.trans isCurrent')
      simp [isRunning]
    case held => simp
    case unlocked => exact fun _ => sound.unlocked ticking
    case uncontended => exact .inl (sound.free_ticking ticking)
  · refine ⟨heard.entering, ?_⟩
    intro t m isBlocked isPosition
    have notNext : t ≠ next := by
      rintro rfl
      exact absurd (isRunning.symm.trans isBlocked) (by simp)
    exact heard.asleep t m ((others t notNext).symm.trans isBlocked) isPosition

theorem Sound.tickConsider (sound : system.Sound lists position) {next : ℕ}
    (considering : system.phase = .considering next)
    (runs : system.tickConsider fuel next = some after) (wakes : Prop) :
    system.Kept lists position wakes after := by
  have ticking : system.phase ≠ .idle := by simp [considering]
  rcases sound.held next considering with ⟨listed, notReady⟩
  have alive := sound.populated.alive next listed
  simp only [LockSystem.tickConsider, Option.map_eq_some_iff] at runs
  rcases runs with ⟨⟨phase, kernel⟩, considers, rfl⟩
  by_cases removed : (system.kernel.threads next).state = .blocked ∨
      (system.kernel.threads next).state = .termed
  · rw [Kernel.tickConsider, if_pos removed, Option.map_eq_some_iff] at considers
    rcases considers with ⟨kernel', removes, isAnswer⟩
    rw [Prod.mk.injEq] at isAnswer
    rcases isAnswer with ⟨rfl, rfl⟩
    rw [sound.holds.removeFromReadyQueue notReady removes]
    exact ⟨lists, position, sound.setPhase ticking (by simp) (by simp),
      fun heard _ => ⟨heard.entering, heard.asleep⟩⟩
  rw [not_or] at removed
  by_cases cooling : 0 < (system.kernel.threads next).cooldown
  · have absent := sound.unlisted (sound.waits ticking) notReady removed.1
    rw [Kernel.tickConsider, if_neg (by simp [removed]), if_pos cooling,
      Option.map_eq_some_iff] at considers
    rcases considers with ⟨queued, queues, isAnswer⟩
    rw [Prod.mk.injEq] at isAnswer
    rcases isAnswer with ⟨rfl, rfl⟩
    have cooled : (system.kernel.cool next).HoldsLists system.mutexes lists :=
      sound.holds.modifyThread rfl
    have sameTable : Kernel.SameTable system.kernel (system.kernel.cool next) :=
      .modifyThread _ rfl rfl rfl
    rcases cooled.enqueueReadyTail absent queues with ⟨holds, relinked⟩
    have states : ∀ t, (queued.threads t).state = (system.kernel.threads t).state := by
      intro t
      rw [relinked.state]
      by_cases same : t = next
      · subst same
        simp [Kernel.cool]
      · rw [Kernel.cool, Kernel.modifyThread_threads_ne _ _ _ same]
    have sameCurrent : queued.currentThread = system.kernel.currentThread := relinked.currentThread
    apply sound.requeue (.inl rfl) holds (sameTable.trans (.of_relinked relinked)) (by simp)
      (by simp) _ _ (sound.waits ticking) _ _ (by simp) (sound.unlocked ticking) sound.control
      (fun _ _ _ isPosition _ => isPosition) (fun _ _ => id) wakes
    · intro t
      rw [states]
    · intro t isListed
      rw [states]
      exact sound.populated.alive t isListed
    · intro t isCurrent
      rw [sameCurrent] at isCurrent
      rw [states]
      exact ⟨sound.current t isCurrent, sound.interrupted ticking t isCurrent⟩
    · intro t mem
      rcases SharedLists.mem_update_append.mp mem with mem | ⟨rfl, _⟩
      · exact sound.listed .ready t mem
      · exact listed
  · rw [Kernel.tickConsider, if_neg (by simp [removed]), if_neg cooling] at considers
    simp only at considers
    rw [if_neg (fun stackless => sound.populated.kernelStacks next listed stackless.1 stackless.2),
      Option.some.injEq, Prod.mk.injEq] at considers
    rcases considers with ⟨rfl, rfl⟩
    exact sound.dispatch considering removed.1 wakes

theorem Sound.tickCleanUp (sound : system.Sound lists position)
    (dispatched : system.phase = .dispatched) (runs : system.tickCleanUp fuel = some after)
    (wakes : Prop) : system.Kept lists position wakes after := by
  have ticking : system.phase ≠ .idle := by simp [dispatched]
  have freed := @Sound.setMutex system lists position threadMutex sound
    { system.mutexes threadMutex with locked := false, owner := none } rfl rfl rfl
    (fun _ _ => rfl) (fun _ => sound.free_ticking ticking)
  rw [LockSystem.tickCleanUp, sound.tickSection ticking (sound.populated.cleanUp fuel),
    Option.map_some, Option.some.injEq] at runs
  rw [← runs]
  refine ⟨lists, position, freed.setPhase ticking ?_ (by simp),
    fun heard _ => ⟨heard.entering, heard.asleep⟩⟩
  exact fun _ t isCurrent => (sound.running (.inr dispatched) t isCurrent).1

/-! ## All steps -/

/-- `thread_block` gives the thread mutex up, and nobody waits for it. -/
theorem Sound.release_free (sound : system.Sound lists position)
    (free : lists (.mutex threadMutex) = [])
    (runs : system.release fuel threadMutex = some after) :
    ∃ mutex, after = system.setMutex system.kernel threadMutex mutex ∧
      mutex.waiterHead = (system.mutexes threadMutex).waiterHead ∧
      mutex.waiterTail = (system.mutexes threadMutex).waiterTail ∧
      mutex.waiterCount = (system.mutexes threadMutex).waiterCount := by
  simp only [LockSystem.release, Option.map_eq_some_iff] at runs
  rcases runs with ⟨⟨kernel, mutex⟩, releases, rfl⟩
  rcases sound.holds.releaseMutex releases with ⟨_, rfl, rfl⟩ | ⟨_, rfl, rfl⟩ |
    ⟨waiter, rest, _, isList, _⟩
  · exact ⟨_, rfl, rfl, rfl, rfl⟩
  · exact ⟨_, rfl, rfl, rfl, rfl⟩
  · rw [free] at isList
    simp at isList

theorem Sound.proceed (sound : system.Sound lists position) (idle : system.phase = .idle)
    (isCurrent : system.kernel.currentThread = some c) (safe : system.LinkSafe .proceed)
    (runs : system.proceed fuel c = some after) (wakes : Prop) :
    system.Kept lists position wakes after := by
  have isControl := sound.control c
  have isListed := sound.current c isCurrent
  unfold LockSystem.proceed at runs
  cases isPosition : position c with
  | outside =>
      simp only [isPosition, Position.frames] at isControl
      simp [isControl] at runs
  | acquiring m =>
      simp only [isPosition, Position.frames] at isControl
      simp only [isControl] at runs
      exact sound.acquireTurn idle isCurrent isPosition runs wakes
  | blocking stage caller =>
      rw [isPosition] at isControl
      cases stage with
      | lock =>
          have unlocked : (system.mutexes threadMutex).locked = false :=
            safe.proceed isCurrent isControl
          simp only [isControl, Position.frames, BlockStage.frames, callThreadBlock,
            List.cons_append, List.nil_append] at runs
          exact sound.acquireNested idle isCurrent isPosition unlocked runs wakes
      | lookup =>
          simp only [isControl, Position.frames, BlockStage.frames, List.cons_append,
            List.nil_append, sound.populated.threadFromTid isListed, Option.some.injEq] at runs
          rw [← runs]
          exact sound.stepInside idle isCurrent isPosition rfl
            (@rfl _ (BlockStage.entering .unlock))
            (sound.free isCurrent (by simp [isPosition])) rfl wakes
      | unlock =>
          simp only [isControl, Position.frames, BlockStage.frames, List.cons_append,
            List.nil_append, Option.map_eq_some_iff] at runs
          rcases runs with ⟨released, releases, rfl⟩
          have free := sound.free isCurrent (by simp [isPosition])
          rcases sound.release_free free releases with ⟨mutex, rfl, head, tail, count⟩
          have freed := sound.setMutex head tail count (fun _ phase => absurd idle phase)
            (fun _ => free)
          exact (freed.stepInside idle isCurrent isPosition rfl
            (@rfl _ (BlockStage.entering .mark)) free rfl wakes).of_setMutex
      | mark =>
          simp only [isControl, Position.frames, BlockStage.frames, List.cons_append,
            List.nil_append, Option.some.injEq] at runs
          rw [← runs]
          exact sound.mark idle isCurrent isPosition wakes
      | remove =>
          simp only [isControl, Position.frames, BlockStage.frames, List.cons_append,
            List.nil_append, Option.map_eq_some_iff] at runs
          rcases runs with ⟨removed, removes, rfl⟩
          exact sound.remove idle isCurrent isPosition removes wakes
      | interrupt =>
          simp [isControl, Position.frames, BlockStage.frames] at runs

end LockSystem

end Goshkik

import Goshkik.Scheduling.LockInvariant

/-!
# The steps of the lock system keep its invariant

Two conditions on a step keep the lists apart: the thread mutex is not locked when
`thread_block` takes it nor when an interrupt runs the scheduler, and no timer
interrupt comes between the enqueueing of `process_wait` and the point where
`thread_block` marks the thread.  A third one keeps wake-ups from being lost:
`release_mutex` does not pick a waiter that `thread_block` has yet to mark.
-/

namespace Goshkik

namespace LockSystem

/-- What the current thread still has to do. -/
def currentFrames (system : LockSystem) : List Frame :=
  match system.kernel.currentThread with
  | none => []
  | some c => system.control c

/-- The next step takes the thread mutex inside another call. -/
def nestedLock : List Frame → Bool
  | .acquireMutex m :: _ :: _ => m == threadMutex
  | _ => false

/-- The conditions that keep the lists apart. -/
def linkSafe (system : LockSystem) : LockOperation → Bool
  | .proceed =>
      !nestedLock system.currentFrames || !(system.mutexes threadMutex).locked
  | .softwareInterrupt _ => !(system.mutexes threadMutex).locked
  | .timerInterrupt _ =>
      !(system.mutexes threadMutex).locked && !waitPending system.currentFrames
  | _ => true

/-- The first waiter of a mutex that is released has been marked. -/
def wakeSafe (system : LockSystem) : LockOperation → Bool
  | .releaseMutex m =>
      (system.mutexes m).owner != system.kernel.currentThread ||
        (system.mutexes m).waiterHead.all (fun waiter =>
          !(system.control waiter).any Frame.entering)
  | _ => true

def LinkSafe (system : LockSystem) (operation : LockOperation) : Prop :=
  system.linkSafe operation = true

def WakeSafe (system : LockSystem) (operation : LockOperation) : Prop :=
  system.wakeSafe operation = true

variable {system after : LockSystem} {lists : ListOwner → List ℕ} {position : ℕ → Position}
  {c m fuel : ℕ}

theorem currentFrames_eq (isCurrent : system.kernel.currentThread = some c) :
    system.currentFrames = system.control c := by
  simp [currentFrames, isCurrent]

/-- `thread_block` finds the thread mutex free. -/
theorem LinkSafe.proceed (safe : system.LinkSafe .proceed)
    (isCurrent : system.kernel.currentThread = some c) {frame : Frame} {rest : List Frame}
    (isControl : system.control c = .acquireMutex threadMutex :: frame :: rest) :
    (system.mutexes threadMutex).locked = false := by
  simpa [LinkSafe, linkSafe, currentFrames_eq isCurrent, isControl, nestedLock] using safe

theorem LinkSafe.softwareInterrupt {context : Context}
    (safe : system.LinkSafe (.softwareInterrupt context)) :
    (system.mutexes threadMutex).locked = false := by
  simpa [LinkSafe, linkSafe] using safe

theorem LinkSafe.timerInterrupt {context : Context}
    (safe : system.LinkSafe (.timerInterrupt context)) :
    (system.mutexes threadMutex).locked = false ∧
      ∀ c, system.kernel.currentThread = some c → waitPending (system.control c) = false := by
  simp only [LinkSafe, linkSafe, Bool.and_eq_true, Bool.not_eq_true'] at safe
  refine ⟨safe.1, fun c isCurrent => ?_⟩
  rw [← currentFrames_eq isCurrent]
  exact safe.2

theorem WakeSafe.releaseMutex (safe : system.WakeSafe (.releaseMutex m))
    (isOwner : (system.mutexes m).owner = system.kernel.currentThread) {waiter : ℕ}
    (isHead : (system.mutexes m).waiterHead = some waiter) :
    (system.control waiter).any Frame.entering = false := by
  simpa [WakeSafe, wakeSafe, isOwner, isHead] using safe

theorem frames_entering {stage : BlockStage} (entering : stage.entering = true) (t tid : ℕ)
    (caller : Option ℕ) :
    ((Position.blocking stage caller).frames t tid).any Frame.entering = true := by
  cases stage <;>
    simp_all [Position.frames, BlockStage.frames, BlockStage.entering, callThreadBlock,
      Frame.entering]

/-! ## Steps of the current thread -/

/-- The current thread is on no list and not blocked outside `thread_block`. -/
theorem Sound.absent (sound : system.Sound lists position) (idle : system.phase = .idle)
    (isCurrent : system.kernel.currentThread = some c)
    (outside : ∀ stage caller, position c ≠ .blocking stage caller) :
    (∀ owner, c ∉ lists owner) ∧ (system.kernel.threads c).state ≠ .blocked := by
  have inside := (sound.running (.inl idle) c isCurrent).2
  constructor
  · intro owner mem
    rcases inside (.inr ⟨owner, mem⟩) with ⟨stage, caller, isPosition⟩
    exact outside stage caller isPosition
  · intro blocked
    rcases inside (.inl blocked) with ⟨stage, caller, isPosition⟩
    exact outside stage caller isPosition

/-- A thread that is on no list goes to a position outside `thread_block`. -/
theorem Sound.stepOutside (sound : system.Sound lists position) (idle : system.phase = .idle)
    (isCurrent : system.kernel.currentThread = some c)
    (outside : ∀ stage caller, position c ≠ .blocking stage caller) {target : Position}
    {frames : List Frame} (isTarget : frames = target.frames c (system.kernel.threads c).tid)
    (targetOutside : ∀ stage caller, target ≠ .blocking stage caller) (wakes : Prop) :
    system.Kept lists position wakes (system.setControl c frames) := by
  rcases sound.absent idle isCurrent outside with ⟨absent, unblocked⟩
  refine ⟨lists, Function.update position c target, ?_, fun heard _ => ?_⟩
  · apply sound.setControl idle isCurrent isTarget
    · exact fun p mem => absurd mem (absent _)
    · rintro (blocked | ⟨owner, mem⟩)
      · exact absurd blocked unblocked
      · exact absurd mem (absent owner)
    · exact sound.free isCurrent (fun caller isPosition => absurd isPosition (outside _ caller))
  · apply heard.setControl
    · exact fun stage m isPosition => absurd isPosition (targetOutside stage _)
    · exact fun m blocked => absurd blocked unblocked

/-- A thread inside `thread_block` goes to the next stage before it is marked. -/
theorem Sound.stepInside (sound : system.Sound lists position) (idle : system.phase = .idle)
    (isCurrent : system.kernel.currentThread = some c) {stage next : BlockStage}
    {caller : Option ℕ} (isPosition : position c = .blocking stage caller)
    (entering : stage.entering = true) (nextEntering : next.entering = true)
    (free : lists (.mutex threadMutex) = []) {frames : List Frame}
    (isTarget : frames =
      (Position.blocking next caller).frames c (system.kernel.threads c).tid) (wakes : Prop) :
    system.Kept lists position wakes (system.setControl c frames) := by
  refine ⟨lists, Function.update position c (.blocking next caller), ?_, fun heard _ => ?_⟩
  · apply sound.setControl idle isCurrent isTarget
    · intro p mem
      rcases sound.awaiting p c mem with blocked | ⟨_, _, stage', _, isPosition'⟩
      · exact .inl blocked
      · rw [isPosition] at isPosition'
        rcases Position.blocking.inj isPosition' with ⟨_, rfl⟩
        exact .inr ⟨next, nextEntering, rfl⟩
    · exact fun _ => ⟨next, caller, rfl⟩
    · exact free
  · have waits : ∀ m, caller = some m → c ∈ lists (.mutex m) := by
      rintro m rfl
      exact heard.entering c stage m isPosition entering
    apply heard.setControl
    · intro stage' m isTarget _
      exact waits m (Position.blocking.inj isTarget).2
    · rintro m _ (isTarget | ⟨stage', isTarget⟩)
      · simp at isTarget
      · exact waits m (Position.blocking.inj isTarget).2

theorem Kept.of_setMutex {mutex : Mutex} {wakes : Prop}
    (kept : (system.setMutex system.kernel m mutex).Kept lists position wakes after) :
    system.Kept lists position wakes after := by
  rcases kept with ⟨lists', position', sound, heard⟩
  exact ⟨lists', position', sound, fun before => heard ⟨before.entering, before.asleep⟩⟩

/-- One turn of `acquire_mutex` outside `thread_block`. -/
theorem Sound.acquireTurn (sound : system.Sound lists position) (idle : system.phase = .idle)
    (isCurrent : system.kernel.currentThread = some c) (isPosition : position c = .acquiring m)
    (runs : system.acquireTurn c m [] = some after) (wakes : Prop) :
    system.Kept lists position wakes after := by
  rcases sound.absent idle isCurrent (by simp [isPosition]) with ⟨absent, _⟩
  have free := sound.free isCurrent (by simp [isPosition])
  by_cases locked : (system.mutexes m).locked = true
  · simp only [LockSystem.acquireTurn, Kernel.acquireSection, locked, if_true, isCurrent,
      Option.map_some, Option.some.injEq] at runs
    rw [← runs]
    rcases sound.holds.queueWaiter absent m with ⟨holds, relinked⟩
    rcases queueWaiter_count system.kernel (system.mutexes m) c with ⟨count, sameLock⟩
    have states : ∀ t, ((system.kernel.queueWaiter (system.mutexes m) c).1.threads t).state =
        ((system.kernel.setState c .blocked).threads t).state := relinked.state
    change system.Kept lists position wakes ({ system with
      kernel := (system.kernel.queueWaiter (system.mutexes m) c).1
      mutexes := Function.update system.mutexes m
        (system.kernel.queueWaiter (system.mutexes m) c).2 }.setControl c
          ((Position.blocking .lock (some m)).frames c _))
    apply sound.enlist idle isCurrent absent free holds
    · intro other
      by_cases same : other = m
      · subst same
        simp [count, sound.counts]
      · simp [same, sound.counts]
    · exact (Kernel.SameTable.setState _ c .blocked).trans (.of_relinked relinked)
    · exact relinked.currentThread
    · intro t different
      rw [states, Kernel.setState_state_ne _ different]
    · rw [states, Kernel.setState_state]
      simp
    · refine .inl ⟨m, rfl, rfl, ?_, ?_⟩
      · rw [states, Kernel.setState_state]
      · rintro rfl
        simp [sameLock, locked]
  · simp only [LockSystem.acquireTurn, Kernel.acquireSection, locked, Bool.false_eq_true, if_false,
      Option.map_some, Option.some.injEq, if_true] at runs
    rw [← runs]
    have taken := @Sound.setMutex system lists position m sound
      ((system.mutexes m).take system.kernel.currentThread) rfl rfl rfl
      (fun _ phase => absurd idle phase) (fun _ => free)
    exact (taken.stepOutside idle isCurrent (by simp [isPosition])
      (@rfl _ (Position.outside.frames c
      (system.kernel.threads c).tid)) (by simp) wakes).of_setMutex

/-- `thread_block` takes the thread mutex. -/
theorem Sound.acquireNested (sound : system.Sound lists position) (idle : system.phase = .idle)
    (isCurrent : system.kernel.currentThread = some c) {caller : Option ℕ}
    (isPosition : position c = .blocking .lock caller)
    (unlocked : (system.mutexes threadMutex).locked = false)
    (runs : system.acquireTurn c threadMutex
      (.threadFromTid (system.kernel.threads c).tid :: Position.returnFrames caller) = some after)
    (wakes : Prop) : system.Kept lists position wakes after := by
  have free := sound.free isCurrent (fun _ _ => unlocked)
  simp only [LockSystem.acquireTurn, Kernel.acquireSection, unlocked, Bool.false_eq_true, if_false,
    Option.map_some, Option.some.injEq, if_true] at runs
  rw [← runs]
  have taken := @Sound.setMutex system lists position threadMutex sound
    ((system.mutexes threadMutex).take system.kernel.currentThread) rfl rfl rfl
    (fun _ phase => absurd idle phase) (fun _ => free)
  exact (taken.stepInside idle isCurrent isPosition rfl rfl free
    (@rfl _ ((Position.blocking .lookup caller).frames c (system.kernel.threads c).tid))
    wakes).of_setMutex

theorem Sound.processWait (sound : system.Sound lists position) (idle : system.phase = .idle)
    (isCurrent : system.kernel.currentThread = some c) (outside : position c = .outside)
    {child : ℕ} {queued : Kernel} (runs : system.kernel.waitEnqueue child c = some queued)
    (wakes : Prop) :
    system.Kept lists position wakes ({ system with kernel := queued }.setControl c
      (callThreadBlock (queued.threads c).tid)) := by
  rcases sound.absent idle isCurrent (by simp [outside]) with ⟨absent, _⟩
  have free := sound.free isCurrent (by simp [outside])
  rcases sound.holds.waitEnqueue absent runs with ⟨holds, relinked⟩
  have states : ∀ t, (queued.threads t).state = (system.kernel.threads t).state := relinked.state
  have same := Kernel.SameTable.of_relinked relinked
  change system.Kept lists position wakes ({ system with
    kernel := queued, mutexes := system.mutexes }.setControl c
      ((Position.blocking .lock none).frames c _))
  apply sound.enlist idle isCurrent absent free holds
  · intro m
    simp [sound.counts]
  · exact ⟨same.table, same.tid, same.privilege, same.kernelStack⟩
  · exact relinked.currentThread
  · exact fun t _ => states t
  · rw [states]
    exact sound.populated.alive c (sound.current c isCurrent)
  · exact .inr ⟨child, rfl, rfl⟩

/-- A waiter is moved from the list of its mutex to the ready queue. -/
theorem Sound.wake (sound : system.Sound lists position) (idle : system.phase = .idle)
    (free : lists (.mutex threadMutex) = []) {waiter : ℕ} {rest : List ℕ}
    (isList : lists (.mutex m) = waiter :: rest)
    (notCurrent : system.kernel.currentThread ≠ some waiter) {woken : Kernel} {released : Mutex}
    (count : released.waiterCount = (system.mutexes m).waiterCount - 1)
    (relinked : Kernel.Relinked (system.kernel.setState waiter .ready) woken)
    (holds : woken.HoldsLists (Function.update system.mutexes m released)
      (Kernel.wokenLists lists m waiter rest)) :
    system.Kept lists position ((system.control waiter).any Frame.entering = false)
      (system.setMutex woken m released) := by
  have isOther : threadMutex ≠ m := by
    rintro rfl
    simp [free] at isList
  have states : ∀ t, (woken.threads t).state =
      ((system.kernel.setState waiter .ready).threads t).state := relinked.state
  have ready : (woken.threads waiter).state = .ready := by
    rw [states, Kernel.setState_state]
  have others : ∀ t, t ≠ waiter → (woken.threads t).state = (system.kernel.threads t).state := by
    intro t different
    rw [states, Kernel.setState_state_ne _ different]
  have sameTable : Kernel.SameTable system.kernel woken :=
    (Kernel.SameTable.setState _ waiter .ready).trans (.of_relinked relinked)
  have sameCurrent : woken.currentThread = system.kernel.currentThread := relinked.currentThread
  have isMember : ∀ {owner : ListOwner} {t : ℕ}, t ∈ Kernel.wokenLists lists m waiter rest owner →
      (t ≠ waiter ∧ t ∈ lists owner) ∨ (t = waiter ∧ owner = .ready) :=
    sound.holds.mem_wokenLists isList
  refine ⟨Kernel.wokenLists lists m waiter rest, position, ?_, ?_⟩
  · constructor
    case holds => exact holds
    case counts =>
      intro other
      by_cases same : other = m
      · subst same
        have before := sound.counts other
        rw [isList, List.length_cons] at before
        simp only [LockSystem.setMutex, Function.update_self, count, Kernel.wokenLists_mutex]
        omega
      · rw [Kernel.wokenLists_mutex_ne same]
        simpa [LockSystem.setMutex, same] using sound.counts other
    case populated =>
      apply sound.populated.sameTable sameTable
      intro t listed
      by_cases same : t = waiter
      · subst same
        simp [ready]
      · rw [others t same]
        exact sound.populated.alive t listed
    case listed =>
      intro owner t mem
      change woken.Listed t
      rw [sameTable.listed]
      rcases isMember mem with ⟨_, mem⟩ | ⟨rfl, _⟩
      · exact sound.listed owner t mem
      · exact sound.listed (.mutex m) t (by simp [isList])
    case control =>
      intro t
      simpa [LockSystem.setMutex, sameTable.tid] using sound.control t
    case waiting =>
      intro other t mem
      rcases isMember mem with ⟨different, mem⟩ | ⟨_, isReady⟩
      · exact (others t different).trans (sound.waiting other t mem)
      · simp at isReady
    case awaiting =>
      intro p t mem
      rcases isMember mem with ⟨different, mem⟩ | ⟨_, isReady⟩
      · rcases sound.awaiting p t mem with blocked | ⟨_, isCurrent, entering⟩
        · exact .inl ((others t different).trans blocked)
        · exact .inr ⟨idle, sameCurrent.trans isCurrent, entering⟩
      · simp at isReady
    case current =>
      intro t isCurrent
      change woken.Listed t
      rw [sameTable.listed]
      exact sound.current t (sameCurrent.symm.trans isCurrent)
    case running =>
      intro _ t isCurrent
      replace isCurrent := sameCurrent.symm.trans isCurrent
      rcases sound.running (.inl idle) t isCurrent with ⟨absent, inside⟩
      have different : t ≠ waiter := by
        rintro rfl
        exact notCurrent isCurrent
      refine ⟨?_, ?_⟩
      · intro mem
        rcases isMember mem with ⟨_, mem⟩ | ⟨same, _⟩
        · exact absent mem
        · exact different same
      · rintro (blocked | ⟨owner, mem⟩)
        · exact inside (.inl ((others t different).symm.trans blocked))
        · rcases isMember mem with ⟨_, mem⟩ | ⟨same, _⟩
          · exact inside (.inr ⟨owner, mem⟩)
          · exact absurd same different
    case interrupted => exact fun phase => absurd idle phase
    case held =>
      intro t phase
      exact absurd (idle.symm.trans phase) (by simp)
    case unlocked => exact fun phase => absurd idle phase
    case uncontended =>
      left
      rw [Kernel.wokenLists_mutex_ne isOther]
      exact free
  · intro heard marked
    constructor
    · intro t stage other isPosition entering
      apply Kernel.HoldsLists.mem_wokenLists_mutex isList _
        (heard.entering t stage other isPosition entering)
      rintro rfl
      rw [sound.control t, isPosition, frames_entering entering] at marked
      exact Bool.noConfusion marked
    · intro t other blocked isPosition
      have different : t ≠ waiter := by
        rintro rfl
        exact absurd (ready.symm.trans blocked) (by simp)
      exact Kernel.HoldsLists.mem_wokenLists_mutex isList different
        (heard.asleep t other ((others t different).symm.trans blocked) isPosition)

/-- `release_mutex` by a thread that is not itself waiting for the mutex. -/
theorem Sound.release (sound : system.Sound lists position) (idle : system.phase = .idle)
    (free : lists (.mutex threadMutex) = [])
    (notCurrent : ∀ t, system.kernel.currentThread = some t → t ∉ lists (.mutex m))
    (runs : system.release fuel m = some after) :
    system.Kept lists position (system.WakeSafe (.releaseMutex m)) after := by
  simp only [LockSystem.release, Option.map_eq_some_iff] at runs
  rcases runs with ⟨⟨woken, released⟩, releases, rfl⟩
  have sameWaiters : ∀ mutex : Mutex, mutex.waiterHead = (system.mutexes m).waiterHead →
      mutex.waiterTail = (system.mutexes m).waiterTail →
      mutex.waiterCount = (system.mutexes m).waiterCount → ∀ wakes : Prop,
        system.Kept lists position wakes (system.setMutex system.kernel m mutex) := by
    intro mutex head tail count wakes
    refine ⟨lists, position, ?_, fun heard _ => ⟨heard.entering, heard.asleep⟩⟩
    exact sound.setMutex head tail count (fun _ phase => absurd idle phase) (fun _ => free)
  rcases sound.holds.releaseMutex releases with ⟨_, rfl, rfl⟩ | ⟨_, rfl, rfl⟩ |
    ⟨waiter, rest, isOwner, isList, count, relinked, holds⟩
  · exact sameWaiters (system.mutexes m) rfl rfl rfl _
  · exact sameWaiters { system.mutexes m with locked := false, owner := none } rfl rfl rfl _
  · have isCurrent : system.kernel.currentThread ≠ some waiter := by
      intro isCurrent
      exact notCurrent waiter isCurrent (by simp [isList])
    have isHead : (system.mutexes m).waiterHead = some waiter :=
      SharedLists.head_eq sound.holds isList
    rcases sound.wake idle free isList isCurrent count relinked holds with
      ⟨lists', position', soundAfter, heardAfter⟩
    exact ⟨lists', position', soundAfter, fun heard wakes =>
      heardAfter heard (wakes.releaseMutex isOwner isHead)⟩

theorem Sound.stop (sound : system.Sound lists position) :
    { system with stopped := true }.Sound lists position where
  holds := sound.holds
  counts := sound.counts
  populated := sound.populated
  listed := sound.listed
  control := sound.control
  waiting := sound.waiting
  awaiting := sound.awaiting
  current := sound.current
  running := sound.running
  interrupted := sound.interrupted
  held := sound.held
  unlocked := sound.unlocked
  uncontended := sound.uncontended

/-- The current thread inside `thread_block` is marked. -/
theorem Sound.block (sound : system.Sound lists position) (idle : system.phase = .idle)
    (isCurrent : system.kernel.currentThread = some c) {stage : BlockStage} {caller : Option ℕ}
    (isPosition : position c = .blocking stage caller) :
    { system with kernel := system.kernel.setState c .blocked }.Sound lists position where
  holds := sound.holds.setState c .blocked
  counts := sound.counts
  populated := by
    apply sound.populated.sameTable (Kernel.SameTable.setState _ c .blocked)
    intro t listed
    by_cases same : t = c
    · subst same
      simp [Kernel.setState_state]
    · rw [Kernel.setState_state_ne _ same]
      exact sound.populated.alive t listed
  listed := sound.listed
  control t := by
    simpa [(Kernel.SameTable.setState system.kernel c .blocked).tid] using sound.control t
  waiting m t mem := by
    by_cases same : t = c
    · subst same
      exact Kernel.setState_state _ t .blocked
    · exact (Kernel.setState_state_ne _ same .blocked).trans (sound.waiting m t mem)
  awaiting p t mem := by
    by_cases same : t = c
    · subst same
      exact .inl (Kernel.setState_state _ t .blocked)
    · exact (sound.awaiting p t mem).imp_left
        (Kernel.setState_state_ne system.kernel same .blocked).trans
  current := sound.current
  running phase t isCurrent' := by
    rcases Option.some.inj (isCurrent.symm.trans isCurrent')
    exact ⟨(sound.running phase c isCurrent).1, fun _ => ⟨stage, caller, isPosition⟩⟩
  interrupted phase := absurd idle phase
  held := sound.held
  unlocked := sound.unlocked
  uncontended := sound.uncontended

/-- `thread_block` marks the thread that it has found, which is the current one. -/
theorem Sound.mark (sound : system.Sound lists position) (idle : system.phase = .idle)
    (isCurrent : system.kernel.currentThread = some c) {caller : Option ℕ}
    (isPosition : position c = .blocking .mark caller) (wakes : Prop) :
    system.Kept lists position wakes
      (system.mark c (Position.returnFrames caller) (some c)) := by
  simp only [LockSystem.mark]
  split
  · exact ⟨lists, position, sound.stop, fun heard _ => ⟨heard.entering, heard.asleep⟩⟩
  · have free := sound.free isCurrent (by simp [isPosition])
    have blocked := sound.block idle isCurrent isPosition
    refine ⟨lists, Function.update position c (.blocking .remove caller), ?_, fun heard _ => ?_⟩
    · exact blocked.setControl idle isCurrent rfl
        (fun _ _ => .inl (Kernel.setState_state system.kernel c .blocked))
        (fun _ => ⟨.remove, caller, rfl⟩) free
    · have waits : ∀ m, caller = some m → c ∈ lists (.mutex m) := by
        rintro m rfl
        exact heard.entering c .mark m isPosition rfl
      constructor
      · intro t stage m isPosition' entering
        by_cases same : t = c
        · subst same
          rw [Function.update_self] at isPosition'
          rw [← (Position.blocking.inj isPosition').1] at entering
          exact Bool.noConfusion entering
        · rw [Function.update_of_ne same] at isPosition'
          exact heard.entering t stage m isPosition' entering
      · intro t m isBlocked isPosition'
        by_cases same : t = c
        · subst same
          rw [Function.update_self] at isPosition'
          rcases isPosition' with isPosition' | ⟨stage, isPosition'⟩
          · simp at isPosition'
          · exact waits m (Position.blocking.inj isPosition').2
        · rw [Function.update_of_ne same] at isPosition'
          exact heard.asleep t m
            ((Kernel.setState_state_ne system.kernel same .blocked).symm.trans isBlocked)
            isPosition'

/-- `thread_block` removes the thread from the ready queue, where it is not. -/
theorem Sound.remove (sound : system.Sound lists position) (idle : system.phase = .idle)
    (isCurrent : system.kernel.currentThread = some c) {caller : Option ℕ}
    (isPosition : position c = .blocking .remove caller) {removed : Kernel}
    (runs : system.kernel.removeFromReadyQueue fuel (some c) = some removed) (wakes : Prop) :
    system.Kept lists position wakes ({ system with kernel := removed }.setControl c
      (.interrupt :: Position.returnFrames caller)) := by
  have absent := (sound.running (.inl idle) c isCurrent).1
  rw [sound.holds.removeFromReadyQueue absent runs]
  refine ⟨lists, Function.update position c (.blocking .interrupt caller), ?_, fun heard _ => ?_⟩
  · refine @Sound.setControl system lists position c sound idle isCurrent
      (.blocking .interrupt caller) _ rfl ?_ ?_ ?_
    · intro p mem
      rcases sound.awaiting p c mem with blocked | ⟨_, _, stage, entering, isPosition'⟩
      · exact .inl blocked
      · rw [isPosition] at isPosition'
        rw [← (Position.blocking.inj isPosition').1] at entering
        exact Bool.noConfusion entering
    · exact fun _ => ⟨.interrupt, caller, rfl⟩
    · exact sound.free isCurrent (by simp [isPosition])
  · apply heard.setControl
    · intro stage m isTarget entering
      rw [← (Position.blocking.inj isTarget).1] at entering
      exact Bool.noConfusion entering
    · rintro m blocked (isTarget | ⟨stage, isTarget⟩)
      · simp at isTarget
      · rw [(Position.blocking.inj isTarget).2] at isPosition
        exact heard.asleep c m blocked (.inr ⟨.remove, isPosition⟩)

end LockSystem

end Goshkik

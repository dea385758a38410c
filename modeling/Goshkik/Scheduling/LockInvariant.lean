import Goshkik.Scheduling.LockLinks

/-!
# The invariant of the lock system

A thread inside `thread_block` is at one of six stages and returns to
`acquire_mutex(m)` or to `process_wait`.  The invariant describes all the lists and
the position of every thread: waiters of a mutex are blocked, the current thread is
off the ready queue and on another list only inside `thread_block`, and the thread
mutex has waiters only where the next step is not a safe one.
-/

namespace Goshkik

/-- How far a thread has come inside `thread_block`. -/
inductive BlockStage where
  | lock
  | lookup
  | unlock
  | mark
  | remove
  | interrupt
  deriving DecidableEq

namespace BlockStage

/-- The thread has not been marked as blocked yet. -/
def entering : BlockStage → Bool
  | .remove | .interrupt => false
  | _ => true

def frames (t tid : ℕ) : BlockStage → List Frame
  | .lock => callThreadBlock tid
  | .lookup => [.threadFromTid tid]
  | .unlock => [.unlockThreadMutex, .markBlocked (some t)]
  | .mark => [.markBlocked (some t)]
  | .remove => [.removeFromReadyQueue t]
  | .interrupt => [.interrupt]

end BlockStage

/-- Where a thread is.  `thread_block` has been called by `acquire_mutex` on a mutex, or
by `process_wait`. -/
inductive Position where
  | outside
  | acquiring (m : ℕ)
  | blocking (stage : BlockStage) (caller : Option ℕ)

namespace Position

def returnFrames (caller : Option ℕ) : List Frame := caller.toList.map .acquireMutex

def frames (t tid : ℕ) : Position → List Frame
  | .outside => []
  | .acquiring m => [.acquireMutex m]
  | .blocking stage caller => stage.frames t tid ++ returnFrames caller

/-- The position behind the call of `thread_block`. -/
def resumed : Option ℕ → Position
  | none => .outside
  | some m => .acquiring m

theorem frames_resumed (t tid : ℕ) (caller : Option ℕ) :
    (resumed caller).frames t tid = returnFrames caller := by
  cases caller <;> rfl

end Position

/-- A step of `thread_block` before the thread is marked. -/
def Frame.entering : Frame → Bool
  | .threadFromTid _ | .markBlocked _ => true
  | _ => false

def Frame.isAcquire : Frame → Bool
  | .acquireMutex _ => true
  | _ => false

/-- `process_wait` has put the thread on a wait list and `thread_block` has not marked it. -/
def waitPending (frames : List Frame) : Bool :=
  frames.any Frame.entering && !frames.getLast?.any Frame.isAcquire

namespace Kernel

def Listed (kernel : Kernel) (t : ℕ) : Prop :=
  ∃ slot, slot < maxThreads ∧ kernel.threadTable slot = some t

/-- The threads of the table have distinct ids, none is terminated, and user threads have
a kernel stack. -/
structure Populated (kernel : Kernel) : Prop where
  tids : ∀ t other, kernel.Listed t → kernel.Listed other →
    (kernel.threads t).tid = (kernel.threads other).tid → t = other
  alive : ∀ t, kernel.Listed t → (kernel.threads t).state ≠ .termed
  kernelStacks : ∀ t, kernel.Listed t → (kernel.threads t).privilege = .ring3 →
    (kernel.threads t).kernelStack ≠ 0

variable {kernel after : Kernel} {t : ℕ}

theorem SameTable.listed (same : SameTable kernel after) : after.Listed = kernel.Listed := by
  unfold Listed
  rw [same.table]

theorem Populated.sameTable (populated : kernel.Populated) (same : SameTable kernel after)
    (states : ∀ t, kernel.Listed t → (after.threads t).state ≠ .termed) : after.Populated where
  tids t other := by
    rw [same.listed, same.tid, same.tid]
    exact populated.tids t other
  alive t := by
    rw [same.listed]
    exact states t
  kernelStacks t := by
    rw [same.listed, same.privilege, same.kernelStack]
    exact populated.kernelStacks t

theorem threadFromTid_listed {tid : ℕ} (found : kernel.threadFromTid tid = some t) :
    kernel.Listed t ∧ (kernel.threads t).tid = tid := by
  rcases List.exists_of_findSome?_eq_some found with ⟨slot, mem, isEntry⟩
  rw [Option.filter_eq_some_iff, decide_eq_true_eq] at isEntry
  exact ⟨⟨slot, List.mem_range.mp mem, isEntry.1⟩, isEntry.2⟩

/-- A thread of the table is found by its id. -/
theorem threadFromTid_of_listed (tids : ∀ t other, kernel.Listed t → kernel.Listed other →
    (kernel.threads t).tid = (kernel.threads other).tid → t = other) (listed : kernel.Listed t) :
    kernel.threadFromTid (kernel.threads t).tid = some t := by
  cases found : kernel.threadFromTid (kernel.threads t).tid with
  | some other =>
      rcases threadFromTid_listed found with ⟨otherListed, sameTid⟩
      rw [tids other t otherListed listed sameTid]
  | none =>
      rcases listed with ⟨slot, bound, isEntry⟩
      have missing := List.findSome?_eq_none_iff.mp found slot (List.mem_range.mpr bound)
      simp [isEntry] at missing

theorem Populated.threadFromTid (populated : kernel.Populated) (listed : kernel.Listed t) :
    kernel.threadFromTid (kernel.threads t).tid = some t :=
  threadFromTid_of_listed populated.tids listed

/-- `clean_up` has nothing to do if no thread of the table is terminated. -/
theorem Populated.cleanUp (populated : kernel.Populated) (fuel : ℕ) :
    kernel.cleanUp fuel = some kernel := by
  have slots : ∀ slots : List ℕ, (∀ slot ∈ slots, slot < maxThreads) →
      slots.foldlM (cleanUpSlot fuel) kernel = some kernel := by
    intro slots bounds
    induction slots with
    | nil => rfl
    | cons slot slots ih =>
        have unchanged : cleanUpSlot fuel kernel slot = some kernel := by
          unfold cleanUpSlot
          cases isEntry : kernel.threadTable slot with
          | none => rfl
          | some t =>
              exact if_neg (populated.alive t ⟨slot, bounds slot List.mem_cons_self, isEntry⟩)
        rw [List.foldlM_cons, unchanged]
        exact ih (fun slot mem => bounds slot (List.mem_cons_of_mem _ mem))
  exact slots _ (fun slot mem => List.mem_range.mp mem)

end Kernel

namespace LockSystem

/-- The lists and the positions of a system between two safe steps. -/
structure Sound (system : LockSystem) (lists : ListOwner → List ℕ) (position : ℕ → Position) :
    Prop where
  holds : system.kernel.HoldsLists system.mutexes lists
  counts : ∀ m, (system.mutexes m).waiterCount = (lists (.mutex m)).length
  populated : system.kernel.Populated
  listed : ∀ owner, ∀ t ∈ lists owner, system.kernel.Listed t
  control : ∀ t, system.control t = (position t).frames t (system.kernel.threads t).tid
  waiting : ∀ m, ∀ t ∈ lists (.mutex m), (system.kernel.threads t).state = .blocked
  awaiting : ∀ p, ∀ t ∈ lists (.process p), (system.kernel.threads t).state = .blocked ∨
    (system.phase = .idle ∧ system.kernel.currentThread = some t ∧
      ∃ stage, stage.entering = true ∧ position t = .blocking stage none)
  current : ∀ t, system.kernel.currentThread = some t → system.kernel.Listed t
  running : system.phase = .idle ∨ system.phase = .dispatched →
    ∀ t, system.kernel.currentThread = some t → t ∉ lists .ready ∧
      ((system.kernel.threads t).state = .blocked ∨ (∃ owner, t ∈ lists owner) →
        ∃ stage caller, position t = .blocking stage caller)
  interrupted : system.phase ≠ .idle → ∀ t, system.kernel.currentThread = some t →
    (system.kernel.threads t).state ≠ .blocked
  held : ∀ t, system.phase = .considering t → system.kernel.Listed t ∧ t ∉ lists .ready
  unlocked : system.phase ≠ .idle → (system.mutexes threadMutex).locked = false
  uncontended : lists (.mutex threadMutex) = [] ∨
    (system.phase = .idle ∧ (system.mutexes threadMutex).locked = true ∧
      ∃ t caller, system.kernel.currentThread = some t ∧ position t = .blocking .lock caller)

/-- A thread that `acquire_mutex` has put to sleep, or is about to, waits for its mutex. -/
structure Heard (system : LockSystem) (lists : ListOwner → List ℕ) (position : ℕ → Position) :
    Prop where
  entering : ∀ t stage m, position t = .blocking stage (some m) → stage.entering = true →
    t ∈ lists (.mutex m)
  asleep : ∀ t m, (system.kernel.threads t).state = .blocked →
    (position t = .acquiring m ∨ ∃ stage, position t = .blocking stage (some m)) →
      t ∈ lists (.mutex m)

variable {system : LockSystem} {lists : ListOwner → List ℕ} {position : ℕ → Position}
  {c m fuel : ℕ}

/-- The invariant is kept, and so is the second part of it where the step is `heard`. -/
def Kept (system : LockSystem) (lists : ListOwner → List ℕ) (position : ℕ → Position)
    (wakes : Prop) (after : LockSystem) : Prop :=
  ∃ lists' position', after.Sound lists' position' ∧
    (system.Heard lists position → wakes → after.Heard lists' position')

/-- The current thread goes on to another position. -/
theorem Sound.setControl (sound : system.Sound lists position) (idle : system.phase = .idle)
    (isCurrent : system.kernel.currentThread = some c) {target : Position} {frames : List Frame}
    (isTarget : frames = target.frames c (system.kernel.threads c).tid)
    (awaits : ∀ p, c ∈ lists (.process p) → (system.kernel.threads c).state = .blocked ∨
      ∃ stage, stage.entering = true ∧ target = .blocking stage none)
    (inside : (system.kernel.threads c).state = .blocked ∨ (∃ owner, c ∈ lists owner) →
      ∃ stage caller, target = .blocking stage caller)
    (free : lists (.mutex threadMutex) = []) :
    (system.setControl c frames).Sound lists (Function.update position c target) where
  holds := sound.holds
  counts := sound.counts
  populated := sound.populated
  listed := sound.listed
  control t := by
    by_cases same : t = c
    · subst same
      simp [LockSystem.setControl, isTarget]
    · simpa [LockSystem.setControl, same] using sound.control t
  waiting := sound.waiting
  awaiting p t mem := by
    by_cases same : t = c
    · subst same
      rw [Function.update_self]
      exact (awaits p mem).imp_right (fun entering => ⟨idle, isCurrent, entering⟩)
    · rw [Function.update_of_ne same]
      exact sound.awaiting p t mem
  current := sound.current
  running phase t isCurrent' := by
    rcases Option.some.inj (isCurrent.symm.trans isCurrent')
    rw [Function.update_self]
    exact ⟨(sound.running phase c isCurrent).1, inside⟩
  interrupted := sound.interrupted
  held := sound.held
  unlocked := sound.unlocked
  uncontended := .inl free

theorem Heard.setControl (heard : system.Heard lists position) {target : Position}
    {frames : List Frame}
    (enters : ∀ stage m, target = .blocking stage (some m) → stage.entering = true →
      c ∈ lists (.mutex m))
    (sleeps : ∀ m, (system.kernel.threads c).state = .blocked →
      (target = .acquiring m ∨ ∃ stage, target = .blocking stage (some m)) →
        c ∈ lists (.mutex m)) :
    (system.setControl c frames).Heard lists (Function.update position c target) where
  entering t stage m := by
    by_cases same : t = c
    · subst same
      rw [Function.update_self]
      exact enters stage m
    · rw [Function.update_of_ne same]
      exact heard.entering t stage m
  asleep t m := by
    by_cases same : t = c
    · subst same
      rw [Function.update_self]
      exact sleeps m
    · rw [Function.update_of_ne same]
      exact heard.asleep t m

/-- A mutex is taken or given up, and its waiters stay. -/
theorem Sound.setMutex (sound : system.Sound lists position) {mutex : Mutex}
    (sameHead : mutex.waiterHead = (system.mutexes m).waiterHead)
    (sameTail : mutex.waiterTail = (system.mutexes m).waiterTail)
    (sameCount : mutex.waiterCount = (system.mutexes m).waiterCount)
    (unlocked : m = threadMutex → system.phase ≠ .idle → mutex.locked = false)
    (free : m = threadMutex → lists (.mutex threadMutex) = []) :
    (system.setMutex system.kernel m mutex).Sound lists position where
  holds := by
    have ends : listAnchors system.kernel (Function.update system.mutexes m mutex) =
        Function.update (listAnchors system.kernel system.mutexes) (.mutex m)
          (listAnchors system.kernel system.mutexes (.mutex m)) :=
      Kernel.listAnchors_mutex rfl sameHead sameTail
    rw [Function.update_eq_self] at ends
    exact SharedLists.congr sound.holds ends (fun _ _ _ => rfl)
  counts other := by
    by_cases same : other = m
    · subst same
      simpa [LockSystem.setMutex, sameCount] using sound.counts other
    · simpa [LockSystem.setMutex, same] using sound.counts other
  populated := sound.populated
  listed := sound.listed
  control := sound.control
  waiting := sound.waiting
  awaiting := sound.awaiting
  current := sound.current
  running := sound.running
  interrupted := sound.interrupted
  held := sound.held
  unlocked phase := by
    by_cases same : threadMutex = m
    · subst same
      simpa [LockSystem.setMutex] using unlocked rfl phase
    · simpa [LockSystem.setMutex, same] using sound.unlocked phase
  uncontended := by
    by_cases same : threadMutex = m
    · exact .inl (free same.symm)
    · simpa [LockSystem.setMutex, same] using sound.uncontended

/-- A current thread that is not about to take the thread mutex inside `thread_block`
finds nobody waiting for it. -/
theorem Sound.free (sound : system.Sound lists position)
    (isCurrent : system.kernel.currentThread = some c)
    (notLocking : ∀ caller, position c = .blocking .lock caller →
      (system.mutexes threadMutex).locked = false) : lists (.mutex threadMutex) = [] := by
  rcases sound.uncontended with empty | ⟨_, locked, t, caller, isCurrent', isPosition⟩
  · exact empty
  · rcases Option.some.inj (isCurrent.symm.trans isCurrent')
    rw [notLocking caller isPosition] at locked
    exact Bool.noConfusion locked

theorem queueWaiter_count (kernel : Kernel) (mutex : Mutex) (current : ℕ) :
    (kernel.queueWaiter mutex current).2.waiterCount = mutex.waiterCount + 1 ∧
      (kernel.queueWaiter mutex current).2.locked = mutex.locked := by
  unfold Kernel.queueWaiter
  cases mutex.waiterTail <;> exact ⟨rfl, rfl⟩

/-- The current thread is put on a list on its way into `thread_block`. -/
theorem Sound.enlist (sound : system.Sound lists position) (idle : system.phase = .idle)
    (isCurrent : system.kernel.currentThread = some c) (absent : ∀ owner, c ∉ lists owner)
    (free : lists (.mutex threadMutex) = []) {owner : ListOwner} {caller : Option ℕ}
    {mutexes : ℕ → Mutex} {after : Kernel}
    (holds : after.HoldsLists mutexes (Function.update lists owner (lists owner ++ [c])))
    (counts : ∀ m, (mutexes m).waiterCount =
      (Function.update lists owner (lists owner ++ [c]) (.mutex m)).length)
    (sameTable : Kernel.SameTable system.kernel after)
    (sameCurrent : after.currentThread = system.kernel.currentThread)
    (others : ∀ t, t ≠ c → (after.threads t).state = (system.kernel.threads t).state)
    (alive : (after.threads c).state ≠ .termed)
    (isOwner : (∃ m, owner = .mutex m ∧ caller = some m ∧ (after.threads c).state = .blocked ∧
      (m = threadMutex → (mutexes threadMutex).locked = true)) ∨
        ∃ p, owner = .process p ∧ caller = none) (wakes : Prop) :
    system.Kept lists position wakes ({ system with
      kernel := after, mutexes := mutexes }.setControl c
        (Position.frames c (after.threads c).tid (.blocking .lock caller))) := by
  have isMember : ∀ {other : ListOwner} {t : ℕ},
      t ∈ Function.update lists owner (lists owner ++ [c]) other →
        (t ≠ c ∧ t ∈ lists other) ∨ (t = c ∧ other = owner) := by
    intro other t mem
    rcases SharedLists.mem_update_append.mp mem with mem | isLast
    · exact .inl ⟨fun isLast => absent other (isLast ▸ mem), mem⟩
    · exact .inr isLast
  have stays : ∀ {other : ListOwner} {t : ℕ}, t ∈ lists other →
      t ∈ Function.update lists owner (lists owner ++ [c]) other :=
    fun mem => SharedLists.mem_update_append.mpr (.inl mem)
  refine ⟨Function.update lists owner (lists owner ++ [c]),
    Function.update position c (.blocking .lock caller), ?_, ?_⟩
  · constructor
    case holds => exact holds
    case counts => exact counts
    case populated =>
      apply sound.populated.sameTable sameTable
      intro t listed
      by_cases same : t = c
      · subst same
        exact alive
      · rw [others t same]
        exact sound.populated.alive t listed
    case listed =>
      intro other t mem
      change after.Listed t
      rw [sameTable.listed]
      rcases isMember mem with ⟨_, mem⟩ | ⟨rfl, _⟩
      · exact sound.listed other t mem
      · exact sound.current t isCurrent
    case control =>
      intro t
      by_cases same : t = c
      · subst same
        simp [LockSystem.setControl]
      · simpa [LockSystem.setControl, same, sameTable.tid] using sound.control t
    case waiting =>
      intro m t mem
      rcases isMember mem with ⟨different, mem⟩ | ⟨rfl, isOwner'⟩
      · exact (others t different).trans (sound.waiting m t mem)
      · rcases isOwner with ⟨m', _, _, blocked, _⟩ | ⟨p, isProcess, _⟩
        · exact blocked
        · rw [← isOwner'] at isProcess
          exact absurd isProcess (by simp)
    case awaiting =>
      intro p t mem
      rcases isMember mem with ⟨different, mem⟩ | ⟨rfl, isOwner'⟩
      · rcases sound.awaiting p t mem with blocked | ⟨_, isCurrent', _⟩
        · exact .inl ((others t different).trans blocked)
        · exact absurd (Option.some.inj (isCurrent'.symm.trans isCurrent)) different
      · rcases isOwner with ⟨m, isMutex, _⟩ | ⟨p', _, rfl⟩
        · rw [← isOwner'] at isMutex
          exact absurd isMutex (by simp)
        · exact .inr ⟨idle, sameCurrent.trans isCurrent, .lock, rfl, by simp⟩
    case current =>
      intro t isCurrent'
      change after.Listed t
      rw [sameTable.listed]
      exact sound.current t (sameCurrent.symm.trans isCurrent')
    case running =>
      intro _ t isCurrent'
      rcases Option.some.inj (isCurrent.symm.trans (sameCurrent.symm.trans isCurrent'))
      refine ⟨?_, fun _ => ⟨.lock, caller, by simp⟩⟩
      intro mem
      rcases isMember mem with ⟨different, _⟩ | ⟨_, isReady⟩
      · exact different rfl
      · rcases isOwner with ⟨m, isMutex, _⟩ | ⟨p, isProcess, _⟩
        · rw [← isReady] at isMutex
          exact absurd isMutex (by simp)
        · rw [← isReady] at isProcess
          exact absurd isProcess (by simp)
    case interrupted => exact fun phase => absurd idle phase
    case held =>
      intro t phase
      exact absurd (idle.symm.trans phase) (by simp)
    case unlocked => exact fun phase => absurd idle phase
    case uncontended =>
      by_cases same : owner = .mutex threadMutex
      · right
        rcases isOwner with ⟨m, isMutex, _, _, locked⟩ | ⟨p, isProcess, _⟩
        · rw [same] at isMutex
          exact ⟨idle, locked (ListOwner.mutex.inj isMutex).symm, c, caller,
            sameCurrent.trans isCurrent, by simp⟩
        · rw [same] at isProcess
          exact absurd isProcess (by simp)
      · left
        rw [Function.update_of_ne (Ne.symm same)]
        exact free
  · intro heard _
    constructor
    · intro t stage m isPosition entering
      by_cases same : t = c
      · subst same
        rw [Function.update_self] at isPosition
        rcases isOwner with ⟨m', rfl, rfl, _⟩ | ⟨p, _, rfl⟩
        · simp only [Position.blocking.injEq, Option.some.injEq] at isPosition
          rcases isPosition with ⟨_, rfl⟩
          simp
        · simp at isPosition
      · rw [Function.update_of_ne same] at isPosition
        exact stays (heard.entering t stage m isPosition entering)
    · intro t m blocked isPosition
      by_cases same : t = c
      · subst same
        rw [Function.update_self] at isPosition
        rcases isOwner with ⟨m', rfl, rfl, _⟩ | ⟨p, _, rfl⟩
        · rcases isPosition with isPosition | ⟨stage, isPosition⟩
          · simp at isPosition
          · simp only [Position.blocking.injEq, Option.some.injEq] at isPosition
            rcases isPosition with ⟨_, rfl⟩
            simp
        · simp at isPosition
      · rw [Function.update_of_ne same] at isPosition
        exact stays (heard.asleep t m ((others t same).symm.trans blocked) isPosition)

end LockSystem

end Goshkik

import Goshkik.Scheduling.LinkExclusivity

/-!
# No wake-up is lost

A contended `acquire_mutex` marks its thread as blocked twice: once when it queues the
thread, and again in `thread_block`.  If `release_mutex` wakes the thread between the
two, the second mark puts it to sleep for good.  In a run of safe steps in which no
release picks a thread that is still on its way into `thread_block`, every thread that
sleeps in `acquire_mutex` is on the waiter list of its mutex.
-/

namespace Goshkik

namespace Kernel

variable {kernel : Kernel} {mutexes : ℕ → Mutex} {lists : ListOwner → List ℕ} {m waiter : ℕ}
  {rest : List ℕ}

/-- `release_mutex` by the owner returns, makes the first waiter ready and keeps the others
waiting. -/
theorem HoldsLists.releaseMutex_wakes (holds : kernel.HoldsLists mutexes lists)
    (isList : lists (.mutex m) = waiter :: rest)
    (isOwner : (mutexes m).owner = kernel.currentThread) :
    ∃ fuel after released, kernel.releaseMutex fuel (mutexes m) = some (after, released) ∧
      (after.threads waiter).state = .ready ∧ Linked after.nextOf released.waiterHead rest := by
  have isHead : (mutexes m).waiterHead = some waiter := SharedLists.head_eq holds isList
  have notReady : waiter ∉ lists .ready := by
    intro mem
    have same := SharedLists.apart holds _ _ waiter mem
      (by simp [isList] : waiter ∈ lists (.mutex m))
    simp at same
  have ready : (kernel.setState waiter .ready).IsReadyQueue (lists .ready) :=
    (holds.setState waiter .ready).isReadyQueue
  have cleared : (((kernel.setState waiter .ready).setNext waiter none).setState waiter
      .ready).IsReadyQueue (lists .ready) :=
    (ready.setNext notReady none).modifyThread rfl
  rcases cleared.enqueueReadyTail notReady with ⟨queued, queues, _, _⟩
  have adds : (kernel.setState waiter .ready).addToReadyQueue ((lists .ready).length + 1)
      (some waiter) = some queued := by
    simp only [Kernel.addToReadyQueue, setState_state, reduceCtorEq, if_false,
      scan_missing ready.linked (skips_of_notMem notReady) (Nat.lt_succ_self _)]
    exact queues
  have returns : kernel.releaseMutex ((lists .ready).length + 1) (mutexes m) = some (queued,
      kernel.popWaiter { mutexes m with locked := false, owner := none } waiter) := by
    simp only [Kernel.releaseMutex, isOwner, ne_eq, not_true_eq_false, if_false, isHead, adds,
      Option.map_some]
  refine ⟨_, _, _, returns, ?_⟩
  rcases holds.releaseMutex returns with ⟨notOwner, _⟩ | ⟨empty, _⟩ |
    ⟨waiter', rest', _, isList', _, relinked, holdsAfter⟩
  · exact absurd isOwner notOwner
  · simp [empty] at isList
  · rw [isList, List.cons.injEq] at isList'
    rcases isList' with ⟨rfl, rfl⟩
    refine ⟨by rw [relinked.state, setState_state], ?_⟩
    have linked := SharedLists.linked holdsAfter (.mutex m)
    simpa only [listAnchors, Function.update_self, wokenLists_mutex] using linked

end Kernel

namespace LockSystem

/-- The thread is blocked inside `acquire_mutex` on the mutex. -/
def BlockedBy (system : LockSystem) (t m : ℕ) : Prop :=
  (system.kernel.threads t).state = .blocked ∧
    (system.control t).getLast? = some (.acquireMutex m)

variable {system : LockSystem} {lists : ListOwner → List ℕ} {position : ℕ → Position} {t m : ℕ}

theorem Sound.position_of_blockedBy (sound : system.Sound lists position)
    (blockedBy : system.BlockedBy t m) :
    position t = .acquiring m ∨ ∃ stage, position t = .blocking stage (some m) := by
  have isLast := blockedBy.2
  rw [sound.control t] at isLast
  cases isPosition : position t with
  | outside => simp [isPosition, Position.frames] at isLast
  | acquiring other =>
      simp only [isPosition, Position.frames, List.getLast?_singleton, Option.some.injEq,
        Frame.acquireMutex.injEq] at isLast
      exact .inl (by rw [isLast])
  | blocking stage caller =>
      right
      rw [isPosition] at isLast
      cases caller with
      | none =>
          cases stage <;>
            simp [Position.frames, Position.returnFrames, BlockStage.frames, callThreadBlock]
              at isLast
      | some other =>
          simp only [Position.frames, Position.returnFrames, Option.toList_some, List.map_cons,
            List.map_nil, List.getLast?_append, List.getLast?_singleton, Option.some_or,
            Option.some.injEq, Frame.acquireMutex.injEq] at isLast
          exact ⟨stage, by rw [isLast]⟩

theorem Heard.mem_of_blockedBy (heard : system.Heard lists position)
    (sound : system.Sound lists position) (blockedBy : system.BlockedBy t m) :
    t ∈ lists (.mutex m) :=
  heard.asleep t m blockedBy.1 (sound.position_of_blockedBy blockedBy)

end LockSystem

/-- In every run of safe steps in which no release picks a waiter that is not marked yet, a
thread that is blocked by a mutex is on the waiter list of that mutex, and a release by
the owner makes the first thread of the list ready and keeps the others on it. -/
theorem wake_ups_guarded_runs {start last : LockSystem} {operations : List LockOperation}
    (started : start.Started)
    (run : Transition.Run (Transition.Guarded
      (fun before operation => before.LinkSafe operation ∧ before.WakeSafe operation) LockStep)
        start operations last) :
    (∀ t m, last.BlockedBy t m → ∃ waiters,
      Linked last.kernel.nextOf (last.mutexes m).waiterHead waiters ∧ t ∈ waiters) ∧
    ∀ m waiter rest, Linked last.kernel.nextOf (last.mutexes m).waiterHead (waiter :: rest) →
      (last.mutexes m).owner = last.kernel.currentThread →
        ∃ fuel after released,
          last.kernel.releaseMutex fuel (last.mutexes m) = some (after, released) ∧
          (after.threads waiter).state = .ready ∧
          Linked after.nextOf released.waiterHead rest := by
  have preserved : ∀ before operation after, (∃ lists position, before.Sound lists position ∧
      before.Heard lists position) → Transition.Guarded (fun before operation =>
        before.LinkSafe operation ∧ before.WakeSafe operation) LockStep before operation after →
          ∃ lists position, after.Sound lists position ∧ after.Heard lists position := by
    rintro before operation after ⟨lists, position, sound, heard⟩ ⟨⟨linkSafe, wakeSafe⟩, takes⟩
    rcases sound.step linkSafe takes with ⟨lists', position', soundAfter, heardAfter⟩
    exact ⟨lists', position', soundAfter, heardAfter heard wakeSafe⟩
  rcases started.sound with ⟨startLists, startSound, startHeard⟩
  rcases run.invariant preserved ⟨startLists, _, startSound, startHeard⟩ with
    ⟨lists, position, sound, heard⟩
  constructor
  · intro t m blockedBy
    exact ⟨lists (.mutex m), SharedLists.linked sound.holds (.mutex m),
      heard.mem_of_blockedBy sound blockedBy⟩
  · intro m waiter rest isWaiters isOwner
    have isList : lists (.mutex m) = waiter :: rest :=
      Linked.unique (SharedLists.linked sound.holds (.mutex m)) isWaiters
    exact sound.holds.releaseMutex_wakes isList isOwner

/-- The third thread waits for a mutex that the first one holds. -/
theorem wake_ups_guarded_runs_waitForMutex :
    ∃ last : LockSystem, last.BlockedBy 0x1200 1 ∧ ∃ waiters,
      Linked last.kernel.nextOf (last.mutexes 1).waiterHead waiters ∧ 0x1200 ∈ waiters := by
  have blocked : ((LockSystem.start threeThreads).steps (fun before operation =>
      before.linkSafe operation && before.wakeSafe operation) 8 waitForMutex).map (fun last =>
        ((last.kernel.threads 0x1200).state, (last.control 0x1200).getLast?)) =
          some (.blocked, some (.acquireMutex 1)) := by
    decide +kernel
  rcases Option.map_eq_some_iff.mp blocked with ⟨last, returns, isBlocked⟩
  rw [Prod.mk.injEq] at isBlocked
  have run := (LockSystem.run_of_steps returns).weaken
    (fun before operation safe => Bool.and_eq_true_iff.mp safe)
  exact ⟨last, isBlocked, (wake_ups_guarded_runs threeThreads_started run).1 _ _ isBlocked⟩

/-- The third thread has queued itself and is interrupted, the first one releases the mutex,
and the third one goes on into `thread_block`. -/
def releaseBeforeMark : List LockOperation :=
  [.acquireMutex 1, .proceed] ++ timerTick ++ timerTick ++ [.acquireMutex 1, .proceed] ++
    timerTick ++ [.releaseMutex 1, .timerInterrupt {}, .tickSelect, .tickConsider] ++
      [.tickSelect, .tickConsider, .tickCleanUp, .proceed, .proceed, .proceed, .proceed]

theorem wake_up_lost :
    (LockSystem.start threeThreads).Started ∧ ∃ last,
      Transition.Run LockStep (LockSystem.start threeThreads) releaseBeforeMark last ∧
        last.BlockedBy 0x1200 1 ∧ ¬ ∃ waiters,
          Linked last.kernel.nextOf (last.mutexes 1).waiterHead waiters ∧ 0x1200 ∈ waiters := by
  have blocked : ((LockSystem.start threeThreads).steps (fun _ _ => true) 8
      releaseBeforeMark).map (fun last => ((last.mutexes 1).waiterHead,
        (last.kernel.threads 0x1200).state, (last.control 0x1200).getLast?)) =
          some (none, .blocked, some (.acquireMutex 1)) := by
    decide +kernel
  rcases Option.map_eq_some_iff.mp blocked with ⟨last, returns, isBlocked⟩
  rw [Prod.mk.injEq, Prod.mk.injEq] at isBlocked
  refine ⟨threeThreads_started, last, (LockSystem.run_of_steps returns).unguard, isBlocked.2, ?_⟩
  rintro ⟨waiters, linked, mem⟩
  rw [isBlocked.1] at linked
  rw [linked.head_eq_none_iff.mp rfl] at mem
  simp at mem

end Goshkik

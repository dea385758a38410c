import Goshkik.Scheduling.LockInvariant
import Goshkik.Scheduling.ReadyQueue

/-!
# Waking a wait list

`wake_waiters` follows the `next` fields of the waiters, and `thread_unblock` uses the same
field to link a woken thread into the ready queue.  The link is gone when the loop reads it,
so the loop ends behind the first waiter that `thread_unblock` wakes.
-/

namespace Goshkik

namespace Kernel

/-- A lookup of the thread id of the thread gives the thread. -/
def FoundByTid (kernel : Kernel) (t : ℕ) : Prop :=
  kernel.threadFromTid (kernel.threads t).tid = some t

/-- The wait list of a process, with what the operations promise about the waiters. -/
structure WaitList (kernel : Kernel) (p : ℕ) (waiters : List ℕ) : Prop where
  linked : Linked kernel.nextOf (kernel.processes p).waitHead waiters
  blocked : ∀ waiter ∈ waiters, (kernel.threads waiter).state = .blocked
  listed : ∀ waiter ∈ waiters, kernel.Listed waiter

/-- `wake_waiters` returns with every waiter ready and queued behind the threads that were
queued before, and with an empty wait list. -/
def WakesEveryone (kernel : Kernel) (p : ℕ) (queue waiters : List ℕ) : Prop :=
  ∃ fuel after, kernel.wakeWaiters fuel p = some after ∧
    (∀ waiter ∈ waiters, (after.threads waiter).state = .ready) ∧
    after.IsReadyQueue (queue ++ waiters) ∧
    (after.processes p).waitHead = none ∧ (after.processes p).waitTail = none

variable {kernel after : Kernel} {queue waiters rest : List ℕ} {t other tid p fuel : ℕ}

theorem SameTable.threadFromTid (same : SameTable kernel after) (tid : ℕ) :
    after.threadFromTid tid = kernel.threadFromTid tid := by
  simp only [Kernel.threadFromTid, same.table, same.tid]

theorem SameTable.foundByTid_iff (same : SameTable kernel after) :
    after.FoundByTid t ↔ kernel.FoundByTid t := by
  rw [FoundByTid, FoundByTid, same.threadFromTid, same.tid]

theorem IsReadyQueue.modifyProcess (isQueue : kernel.IsReadyQueue queue)
    (change : Process → Process) : (kernel.modifyProcess p change).IsReadyQueue queue :=
  isQueue.congr rfl rfl (fun _ _ => rfl)

theorem WaitList.tail (waits : kernel.WaitList p (t :: rest)) {change : Process → Process}
    (head : (change (kernel.processes p)).waitHead = kernel.nextOf t) :
    (kernel.modifyProcess p change).WaitList p rest where
  linked := by
    have linked : Linked kernel.nextOf (kernel.nextOf t) rest := waits.linked.2
    have isHead : ((kernel.modifyProcess p change).processes p).waitHead = kernel.nextOf t := by
      simpa [Kernel.modifyProcess] using head
    rw [isHead]
    exact linked.congr (fun _ _ => rfl)
  blocked := fun waiter mem => waits.blocked waiter (List.mem_cons_of_mem _ mem)
  listed := fun waiter mem => waits.listed waiter (List.mem_cons_of_mem _ mem)

/-- A thread that `thread_unblock` finds blocked, marked as ready and without a link. -/
def unblocked (kernel : Kernel) (t : ℕ) : Kernel := (kernel.setState t .ready).setNext t none

theorem sameTable_unblocked (kernel : Kernel) (t : ℕ) : SameTable kernel (kernel.unblocked t) :=
  (SameTable.setState kernel t .ready).trans (.of_relinked (.setNext _ t none))

theorem unblocked_state (kernel : Kernel) (t other : ℕ) :
    ((kernel.unblocked t).threads other).state =
      if other = t then .ready else (kernel.threads other).state := by
  rw [unblocked, (Relinked.setNext _ t none).state]
  by_cases same : other = t
  · subst same
    simp [setState]
  · rw [setState, modifyThread_threads_ne _ _ _ same, if_neg same]

/-- What `thread_unblock` does: nothing, or the thread with the id joins the queue. -/
theorem threadUnblock_cases {answer : ℤ}
    (runs : kernel.threadUnblock tid = some (answer, after)) :
    after = kernel ∨ ∃ t, kernel.threadFromTid tid = some t ∧
      (kernel.threads t).state = .blocked ∧ (kernel.unblocked t).appendReady t = some after := by
  simp only [threadUnblock] at runs
  split at runs
  · cases runs
    exact .inl rfl
  · rename_i t found
    split at runs
    · cases runs
      exact .inl rfl
    · rename_i blocked
      rcases Option.map_eq_some_iff.mp runs with ⟨queued, appends, equation⟩
      cases equation
      exact .inr ⟨t, found, not_not.mp blocked, appends⟩

/-- `thread_unblock` on the id of a blocked thread that a lookup of the id gives. -/
theorem threadUnblock_found (found : kernel.FoundByTid t)
    (blocked : (kernel.threads t).state = .blocked) :
    kernel.threadUnblock (kernel.threads t).tid =
      ((kernel.unblocked t).appendReady t).map (fun queued => (0, queued)) := by
  rw [FoundByTid] at found
  simp only [threadUnblock, found, blocked, ne_eq, not_true_eq_false, if_false, unblocked]

theorem threadUnblock_sameTable {answer : ℤ}
    (runs : kernel.threadUnblock tid = some (answer, after)) : SameTable kernel after := by
  rcases threadUnblock_cases runs with rfl | ⟨t, _, _, appends⟩
  · exact .refl _
  · exact (sameTable_unblocked kernel t).trans (.of_relinked (.appendReady appends))

/-- Only the thread that a lookup of the id gives changes its state. -/
theorem threadUnblock_state {answer : ℤ} (runs : kernel.threadUnblock tid = some (answer, after))
    (notFound : kernel.threadFromTid tid ≠ some t) :
    (after.threads t).state = (kernel.threads t).state := by
  rcases threadUnblock_cases runs with rfl | ⟨found, isFound, _, appends⟩
  · rfl
  · have different : t ≠ found := by
      rintro rfl
      exact notFound isFound
    rw [(Relinked.appendReady appends).state, unblocked_state, if_neg different]

/-- The loop of `wake_waiters` does not wake a thread that a lookup of its own id misses. -/
theorem wakeFrom_state {cur : Option ℕ} (missed : ¬kernel.FoundByTid t)
    (runs : wakeFrom fuel kernel cur = some after) :
    (after.threads t).state = (kernel.threads t).state := by
  induction fuel generalizing kernel cur with
  | zero =>
      cases cur with
      | none =>
          cases runs
          rfl
      | some waiter => cases runs
  | succ fuel ih =>
      cases cur with
      | none =>
          cases runs
          rfl
      | some waiter =>
          rcases Option.bind_eq_some_iff.mp runs with ⟨⟨answer, woken⟩, unblocks, wakes⟩
          have same := threadUnblock_sameTable unblocks
          have unchanged := @threadUnblock_state kernel woken t _ answer unblocks (by
            intro found
            have sameTid : (kernel.threads t).tid = (kernel.threads waiter).tid :=
              (threadFromTid_listed found).2
            exact missed (by rwa [FoundByTid, sameTid]))
          rw [ih (fun found => missed (same.foundByTid_iff.mp found)) wakes, unchanged]

/-- The link of a thread that `thread_unblock` wakes is gone, unless it was the tail of the
queue. -/
theorem nextOf_woken (appends : (kernel.unblocked t).appendReady t = some after)
    (notTail : kernel.readyTail ≠ some t) : after.nextOf t = none := by
  have cleared : (kernel.unblocked t).nextOf t = none := nextOf_setNext_same none
  simp only [appendReady] at appends
  split at appends
  · cases appends
    exact cleared
  · split at appends
    · cases appends
    · rename_i tail isTail
      cases appends
      have different : t ≠ tail := by
        rintro rfl
        exact notTail isTail
      exact (nextOf_setNext_ne _ different).trans cleared

/-- Behind a waiter that has been woken and has others behind it the loop ends. -/
theorem wakeFrom_stops (isQueue : kernel.IsReadyQueue queue) (found : kernel.FoundByTid t)
    (blocked : (kernel.threads t).state = .blocked) (behind : kernel.nextOf t = some other)
    (runs : wakeFrom fuel kernel (some t) = some after) :
    (kernel.unblocked t).appendReady t = some after := by
  cases fuel with
  | zero => cases runs
  | succ fuel =>
      rcases Option.bind_eq_some_iff.mp runs with ⟨⟨answer, woken⟩, unblocks, wakes⟩
      have notTail : kernel.readyTail ≠ some t := by
        intro isTail
        rw [isQueue.nextOf_tail isTail] at behind
        cases behind
      rw [threadUnblock_found found blocked] at unblocks
      rcases Option.map_eq_some_iff.mp unblocks with ⟨queued, appends, equation⟩
      cases equation
      have noLink : (woken.threads t).next = none := nextOf_woken appends notTail
      rw [noLink] at wakes
      cases fuel <;> exact appends.trans wakes

/-- A single waiter that is found by its id and is not queued is woken. -/
theorem wakesEveryone_single (isQueue : kernel.IsReadyQueue queue)
    (waits : kernel.WaitList p [t]) (found : kernel.FoundByTid t) (absent : t ∉ queue) :
    kernel.WakesEveryone p queue [t] := by
  have blocked := waits.blocked t List.mem_cons_self
  have ready : (kernel.setState t .ready).IsReadyQueue queue := isQueue.modifyThread rfl
  rcases (ready.setNext absent none).appendReady absent (nextOf_setNext_same none) with
    ⟨queued, appends, isQueueAfter, relinked⟩
  have unblocks : kernel.threadUnblock (kernel.threads t).tid = some (0, queued) := by
    rw [threadUnblock_found found blocked, unblocked, appends]
    rfl
  have noLink : (queued.threads t).next = none := by
    have isLast := isQueueAfter.linked.next_eq
    exact isLast
  have wakes : wakeFrom 1 kernel (kernel.processes p).waitHead = some queued := by
    rw [waits.linked.1]
    simp only [wakeFrom, unblocks, Option.bind_some, noLink]
  refine ⟨1, _, by rw [wakeWaiters, wakes, Option.map_some], ?_, ?_, ?_, ?_⟩
  · intro waiter mem
    rw [List.mem_singleton.mp mem]
    change (queued.threads t).state = .ready
    rw [relinked.state]
    exact (unblocked_state kernel t t).trans (if_pos rfl)
  · exact isQueueAfter.modifyProcess _
  · simp [modifyProcess]
  · simp [modifyProcess]

/-- Of two waiters the first is not woken, or the second is not. -/
theorem not_wakesEveryone {first second : ℕ} (isQueue : kernel.IsReadyQueue queue)
    (waits : kernel.WaitList p (first :: second :: rest)) (found : kernel.FoundByTid first) :
    ¬kernel.WakesEveryone p queue (first :: second :: rest) := by
  rintro ⟨fuel, after, runs, ready, _⟩
  rcases Option.map_eq_some_iff.mp runs with ⟨woken, wakes, rfl⟩
  have blocked := waits.blocked first List.mem_cons_self
  have behind : kernel.nextOf first = some second := waits.linked.2.1
  rw [waits.linked.1] at wakes
  have appends := wakeFrom_stops isQueue found blocked behind wakes
  have different : second ≠ first := by
    have distinct := waits.linked.nodup
    simp only [List.nodup_cons, List.mem_cons, not_or] at distinct
    exact Ne.symm distinct.1.1
  have asleep : (woken.threads second).state = .blocked := by
    rw [(Relinked.appendReady appends).state, unblocked_state, if_neg different]
    exact waits.blocked second (by simp)
  have awake : (woken.threads second).state = .ready := ready second (by simp)
  rw [asleep] at awake
  cases awake

/-- A waiter that is woken is found by its id. -/
theorem WakesEveryone.foundByTid (wakes : kernel.WakesEveryone p queue waiters)
    (waits : kernel.WaitList p waiters) (mem : t ∈ waiters) : kernel.FoundByTid t := by
  rcases wakes with ⟨fuel, after, runs, ready, _⟩
  rcases Option.map_eq_some_iff.mp runs with ⟨woken, wakes, rfl⟩
  by_contra missed
  have asleep := (wakeFrom_state missed wakes).trans (waits.blocked t mem)
  have awake : (woken.threads t).state = .ready := ready t mem
  rw [asleep] at awake
  cases awake

/-- `wake_waiters` wakes everyone exactly if there is no waiter, or a single one that a lookup
of its id gives and that is not on the ready queue already. -/
theorem wakesEveryone_iff (isQueue : kernel.IsReadyQueue queue)
    (waits : kernel.WaitList p waiters) :
    kernel.WakesEveryone p queue waiters ↔
      waiters = [] ∨ ∃ t, waiters = [t] ∧ kernel.FoundByTid t ∧ t ∉ queue := by
  constructor
  · intro wakes
    cases waiters with
    | nil => exact .inl rfl
    | cons first rest =>
        have found := wakes.foundByTid waits List.mem_cons_self
        cases rest with
        | nil =>
            rcases wakes with ⟨_, _, _, _, isQueueAfter, _⟩
            refine .inr ⟨first, rfl, found, fun mem => ?_⟩
            exact (List.nodup_append.mp isQueueAfter.distinct).2.2 first mem first (by simp) rfl
        | cons second rest => exact absurd wakes (not_wakesEveryone isQueue waits found)
  · rintro (rfl | ⟨t, rfl, found, absent⟩)
    · have empty : (kernel.processes p).waitHead = none := waits.linked
      refine ⟨0, _, by rw [wakeWaiters, empty]; rfl, by simp, ?_, ?_, ?_⟩
      · rw [List.append_nil]
        exact isQueue.modifyProcess _
      · simp [modifyProcess]
      · simp [modifyProcess]
    · exact wakesEveryone_single isQueue waits found absent

end Kernel

/-- The threads `0x1200` and `0x1300` of a started kernel wait for the process `0x200`. -/
def twoWaiters : Kernel :=
  let created := (startedKernel.withThread 0x1200).withThread 0x1300
  let blocked := ((created.threadBlock 4 2).bind (fun kernel => kernel.threadBlock 4 3)).getD
    created
  { blocked.setNext 0x1200 (some 0x1300) with
    processes := Function.update blocked.processes 0x200
      { pid := 1, waitHead := some 0x1200, waitTail := some 0x1300 } }

/-- The second thread alone waits. -/
def oneWaiter : Kernel :=
  twoWaiters.modifyProcess 0x200 (fun record => { record with waitHead := some 0x1300 })

theorem twoWaiters_isReadyQueue : twoWaiters.IsReadyQueue [0x1100] := by
  have stop : twoWaiters.nextOf 0x1100 = none := by
    decide +kernel
  exact .of_linked ⟨by decide +kernel, stop⟩ (by decide +kernel)

theorem twoWaiters_links :
    twoWaiters.nextOf 0x1200 = some 0x1300 ∧ twoWaiters.nextOf 0x1300 = none ∧
      twoWaiters.threadTable 2 = some 0x1200 ∧ twoWaiters.threadTable 3 = some 0x1300 := by
  decide +kernel

theorem twoWaiters_waitList : twoWaiters.WaitList 0x200 [0x1200, 0x1300] where
  linked := ⟨by decide +kernel, twoWaiters_links.1, twoWaiters_links.2.1⟩
  blocked := by decide +kernel
  listed := by
    intro waiter mem
    rcases List.mem_cons.mp mem with rfl | mem
    · exact ⟨2, by decide, twoWaiters_links.2.2.1⟩
    · rw [List.mem_singleton.mp mem]
      exact ⟨3, by decide, twoWaiters_links.2.2.2⟩

/-- The second waiter stays blocked and is on no list any more. -/
theorem second_waiter_asleep :
    twoWaiters.IsReadyQueue [0x1100] ∧ twoWaiters.WaitList 0x200 [0x1200, 0x1300] ∧
      ¬twoWaiters.WakesEveryone 0x200 [0x1100] [0x1200, 0x1300] ∧
      (twoWaiters.wakeWaiters 4 0x200).map (fun after =>
        ((after.threads 0x1300).state, (after.processes 0x200).waitHead,
          after.nextOf 0x1100, after.nextOf 0x1200)) =
            some (.blocked, none, some 0x1200, none) := by
  have found : twoWaiters.FoundByTid 0x1200 := by
    rw [Kernel.FoundByTid]
    decide +kernel
  exact ⟨twoWaiters_isReadyQueue, twoWaiters_waitList,
    Kernel.not_wakesEveryone twoWaiters_isReadyQueue twoWaiters_waitList found, by decide +kernel⟩

theorem wakesEveryone_iff_oneWaiter : oneWaiter.WakesEveryone 0x200 [0x1100] [0x1300] := by
  have found : oneWaiter.FoundByTid 0x1300 := by
    rw [Kernel.FoundByTid]
    decide +kernel
  have isQueue : oneWaiter.IsReadyQueue [0x1100] := twoWaiters_isReadyQueue.modifyProcess _
  have waits : oneWaiter.WaitList 0x200 [0x1300] :=
    twoWaiters_waitList.tail twoWaiters_links.1.symm
  exact (Kernel.wakesEveryone_iff isQueue waits).mpr (.inr ⟨0x1300, rfl, found, by decide⟩)

end Goshkik

import Goshkik.Scheduling.ThreadRoll

/-!
# What the operations do to the references to threads

The invariant of the thread system has two parts.  `Kernel.Roster` is about the thread
table and the main threads of the processes, and `Tracks` about the lists, the owners of
the mutexes and the current thread.  Both say which threads may be referred to, so that
they hold inside an operation as well, where a thread is not in the table yet or is about
to leave it.
-/

namespace Goshkik

namespace Kernel

variable {kernel middle after : Kernel} {mutexes : ℕ → Mutex} {lists : ListOwner → List ℕ}
  {t p m k fuel : ℕ}

theorem appendReady_nextOf {node : ℕ} (notTail : kernel.readyTail ≠ some t)
    (runs : kernel.appendReady node = some after) : after.nextOf t = kernel.nextOf t := by
  simp only [Kernel.appendReady] at runs
  split at runs
  · rw [← Option.some.inj runs]
    rfl
  · split at runs
    · cases runs
    · rename_i tail isTail
      rw [← Option.some.inj runs]
      refine nextOf_setNext_ne (some node) ?_
      rintro rfl
      exact notTail isTail

/-- A thread that ends its list is put on the ready queue as it is. -/
theorem appendReady_eq (stop : kernel.nextOf t = none) :
    kernel.appendReady t = kernel.enqueueReadyTail t := by
  have unchanged : kernel.setNext t none = kernel := by
    have record : { kernel.threads t with next := none } = kernel.threads t := by
      rw [← (stop : (kernel.threads t).next = none)]
      rfl
    simp only [Kernel.setNext, Kernel.modifyThread, record, Function.update_eq_self]
  rw [Kernel.enqueueReadyTail, unchanged]

namespace HoldsLists

/-- `release_mutex` leaves the link of a thread that is on no list alone. -/
theorem releaseMutex_nextOf (holds : kernel.HoldsLists mutexes lists)
    (absent : ∀ owner, t ∉ lists owner) {released : Mutex}
    (runs : kernel.releaseMutex fuel (mutexes m) = some (after, released)) :
    after.nextOf t = kernel.nextOf t := by
  simp only [Kernel.releaseMutex] at runs
  split at runs
  · rw [(Prod.mk.inj (Option.some.inj runs)).1]
  cases isHead : (mutexes m).waiterHead with
  | none =>
      simp only [isHead] at runs
      rw [(Prod.mk.inj (Option.some.inj runs)).1]
  | some waiter =>
      simp only [isHead] at runs
      rcases Option.map_eq_some_iff.mp runs with ⟨woken, adds, isAnswer⟩
      rw [← (Prod.mk.inj isAnswer).1]
      have different : t ≠ waiter := by
        rintro rfl
        apply absent (.mutex m)
        have linked := SharedLists.linked holds (.mutex m)
        exact linked.visits_iff.mp ⟨[], isHead⟩
      have notTail : kernel.readyTail ≠ some t := by
        rw [holds.isReadyQueue.tail]
        exact fun isTail => absent .ready (List.mem_of_getLast? isTail)
      simp only [Kernel.addToReadyQueue, setState_state, reduceCtorEq, if_false] at adds
      split at adds
      · cases adds
      · rw [← Option.some.inj adds]
        exact congrArg Thread.next (modifyThread_threads_ne _ _ _ different)
      · rw [Kernel.enqueueReadyTail] at adds
        rw [appendReady_nextOf (by exact notTail) adds, nextOf_setNext_ne none different]
        refine (congrArg Thread.next (modifyThread_threads_ne _ _ _ different)).trans ?_
        refine (nextOf_setNext_ne none different).trans ?_
        exact congrArg Thread.next (modifyThread_threads_ne _ _ _ different)

/-- The list of ready threads is the only one that changes. -/
theorem relist (holds : kernel.HoldsLists mutexes lists) {queue : List ℕ}
    (isQueue : after.IsReadyQueue queue) (sub : ∀ node ∈ queue, node ∈ lists .ready)
    (processes : after.processes = kernel.processes)
    (agree : ∀ node, node ∉ lists .ready → after.nextOf node = kernel.nextOf node) :
    after.HoldsLists mutexes (Function.update lists .ready queue) := by
  have ends : listAnchors after mutexes = Function.update (listAnchors kernel mutexes) .ready
      ⟨after.readyHead, after.readyTail⟩ := listAnchors_ready rfl rfl processes
  refine ⟨fun owner => ?_, fun owner => ?_, fun first second node memFirst memSecond => ?_⟩
  · rw [ends]
    by_cases isReady : owner = .ready
    · subst isReady
      simpa using isQueue.linked
    · simp only [Function.update_of_ne isReady]
      apply (SharedLists.linked holds owner).congr
      intro node mem
      apply agree
      exact fun queued => isReady (SharedLists.apart holds _ _ node mem queued)
  · rw [ends]
    by_cases isReady : owner = .ready
    · subst isReady
      simpa using isQueue.tail
    · simp only [Function.update_of_ne isReady]
      exact SharedLists.tail holds owner
  · exact SharedLists.apart holds _ _ node (SharedLists.mem_update sub memFirst)
      (SharedLists.mem_update sub memSecond)

/-- Taking a thread off the ready queue, if it is on the queue. -/
theorem takeFromReadyQueue (holds : kernel.HoldsLists mutexes lists)
    (runs : kernel.removeFromReadyQueue fuel (some t) = some after) :
    after.HoldsLists mutexes (Function.update lists .ready ((lists .ready).erase t)) ∧
      Relinked kernel after := by
  rcases holds.isReadyQueue.removeFromReadyQueue runs with ⟨isQueue, relinked⟩
  refine ⟨holds.relist isQueue (fun node mem => List.mem_of_mem_erase mem) relinked.processes ?_,
    relinked⟩
  intro node absent
  simp only [Kernel.removeFromReadyQueue] at runs
  cases scanned : scan kernel.nextOf (· == t) fuel none kernel.readyHead with
  | none => simp [scanned] at runs
  | some answer =>
      rw [scanned] at runs
      rcases holds.isReadyQueue.scan_eq scanned with ⟨_, stop⟩ | ⟨before, behind, isList, _, rfl⟩
      · rcases answer with ⟨trailing, found⟩
        simp only at stop
        subst stop
        rw [← Option.some.inj runs]
      · simp only [Option.some.injEq] at runs
        rw [isList] at absent
        have other : node ≠ t := by
          rintro rfl
          exact absent (by simp)
        rw [← runs]
        cases isLast : before.getLast? with
        | none => exact nextOf_setNext_ne none other
        | some last =>
            refine (nextOf_setNext_ne none other).trans (nextOf_setNext_ne _ ?_)
            rintro rfl
            exact absent (List.mem_append_left _ (List.mem_of_getLast? isLast))

/-- Clearing the link of a thread that nobody is behind. -/
theorem clearLast (holds : kernel.HoldsLists mutexes lists)
    (others : ∀ owner, owner ≠ .ready → t ∉ lists owner)
    (isLast : t ∈ lists .ready → kernel.nextOf t = none) :
    (kernel.setNext t none).HoldsLists mutexes lists := by
  by_cases mem : t ∈ lists .ready
  · refine SharedLists.congr holds rfl (fun _ node _ => ?_)
    by_cases same : node = t
    · subst same
      rw [nextOf_setNext_same, isLast mem]
    · rw [nextOf_setNext_ne none same]
  · apply holds.clearNext
    intro owner
    by_cases isReady : owner = .ready
    · subst isReady
      exact mem
    · exact others owner isReady

/-- A thread that has been taken off the ready queue and is on no other list. -/
theorem notMem_erase (holds : kernel.HoldsLists mutexes lists)
    (others : ∀ owner, owner ≠ .ready → t ∉ lists owner) (owner : ListOwner) :
    t ∉ Function.update lists .ready ((lists .ready).erase t) owner := by
  by_cases isReady : owner = .ready
  · subst isReady
    rw [Function.update_self, (SharedLists.linked holds .ready).nodup.mem_erase_iff]
    exact fun mem => mem.1 rfl
  · rw [Function.update_of_ne isReady]
    exact others owner isReady

/-- Writing fields of a process other than its wait list. -/
theorem modifyProcess (holds : kernel.HoldsLists mutexes lists) {change : Process → Process}
    (head : (change (kernel.processes p)).waitHead = (kernel.processes p).waitHead)
    (tail : (change (kernel.processes p)).waitTail = (kernel.processes p).waitTail) :
    (kernel.modifyProcess p change).HoldsLists mutexes lists := by
  refine SharedLists.congr holds ?_ (fun _ _ _ => rfl)
  funext owner
  cases owner with
  | ready => rfl
  | mutex m => rfl
  | process other =>
      by_cases same : other = p
      · subst same
        simp [listAnchors, Kernel.modifyProcess, head, tail]
      · simp [listAnchors, Kernel.modifyProcess, same]

/-- A mutex whose waiters stay. -/
theorem setMutex (holds : kernel.HoldsLists mutexes lists) {mutex : Mutex}
    (head : mutex.waiterHead = (mutexes m).waiterHead)
    (tail : mutex.waiterTail = (mutexes m).waiterTail) :
    kernel.HoldsLists (Function.update mutexes m mutex) lists := by
  have ends : listAnchors kernel (Function.update mutexes m mutex) =
      Function.update (listAnchors kernel mutexes) (.mutex m)
        (listAnchors kernel mutexes (.mutex m)) := listAnchors_mutex rfl head tail
  rw [Function.update_eq_self] at ends
  exact SharedLists.congr holds ends (fun _ _ _ => rfl)

end HoldsLists

/-! ## The thread table and the main threads -/

theorem SameRoll.privilege (same : SameRoll kernel after) (t : ℕ) :
    (after.threads t).privilege = (kernel.threads t).privilege := by
  simpa [Thread.identity] using congrArg Thread.privilege (same.identity t)

theorem SameRoll.kernelStack (same : SameRoll kernel after) (t : ℕ) :
    (after.threads t).kernelStack = (kernel.threads t).kernelStack := by
  simpa [Thread.identity] using congrArg Thread.kernelStack (same.identity t)

/-- The roll of the threads, whose ids are different, with the kernel stacks of user threads.
A process has one of its threads as the main thread. -/
structure Roster (kernel : Kernel) (k : ℕ) (present : ℕ → Prop) : Prop extends Roll kernel k where
  tids : ∀ t other, kernel.Listed t → kernel.Listed other →
    (kernel.threads t).tid = (kernel.threads other).tid → t = other
  kernelStacks : ∀ t, kernel.Listed t → (kernel.threads t).privilege = .ring3 →
    (kernel.threads t).kernelStack ≠ 0
  mains : ∀ p t, (kernel.processes p).mainThread = some t →
    present t ∧ (kernel.threads t).proc = some p

/-- The roll and the process of every thread stay the same, and no process gets a main
thread. -/
structure SameRoster (before after : Kernel) : Prop extends SameRoll before after where
  proc : ∀ t, (after.threads t).proc = (before.threads t).proc
  mains : ∀ p t, (after.processes p).mainThread = some t →
    (before.processes p).mainThread = some t

namespace SameRoster

theorem refl (kernel : Kernel) : SameRoster kernel kernel :=
  ⟨.refl kernel, fun _ => rfl, fun _ _ => id⟩

theorem trans (first : SameRoster kernel middle) (second : SameRoster middle after) :
    SameRoster kernel after where
  toSameRoll := first.toSameRoll.trans second.toSameRoll
  proc t := (second.proc t).trans (first.proc t)
  mains p t isMain := first.mains p t (second.mains p t isMain)

theorem of_relinked (relinked : Relinked kernel after) : SameRoster kernel after where
  toSameRoll := .of_relinked relinked
  proc := relinked.proc
  mains p t isMain := by rwa [relinked.processes] at isMain

theorem modifyThread (kernel : Kernel) {t : ℕ} {change : Thread → Thread}
    (identity : (change (kernel.threads t)).identity = (kernel.threads t).identity)
    (proc : (change (kernel.threads t)).proc = (kernel.threads t).proc) :
    SameRoster kernel (kernel.modifyThread t change) where
  toSameRoll := .modifyThread identity
  proc other := by
    by_cases same : other = t
    · subst same
      rw [modifyThread_threads_same, proc]
    · rw [modifyThread_threads_ne _ _ _ same]
  mains _ _ := id

theorem setState (kernel : Kernel) (t : ℕ) (state : ThreadState) :
    SameRoster kernel (kernel.setState t state) :=
  modifyThread kernel rfl rfl

/-- Writing a process so that its main thread stays or goes. -/
theorem modifyProcess (kernel : Kernel) {p : ℕ} {change : Process → Process}
    (main : ∀ t, (change (kernel.processes p)).mainThread = some t →
      (kernel.processes p).mainThread = some t) :
    SameRoster kernel (kernel.modifyProcess p change) where
  toSameRoll := .rest rfl rfl rfl rfl
  proc _ := rfl
  mains other t isMain := by
    by_cases same : other = p
    · subst same
      exact main t (by simpa [Kernel.modifyProcess] using isMain)
    · simpa [Kernel.modifyProcess, same] using isMain

theorem setCurrent (kernel : Kernel) (current : Option ℕ) :
    SameRoster kernel { kernel with currentThread := current } :=
  ⟨.rest rfl rfl rfl rfl, fun _ => rfl, fun _ _ => id⟩

end SameRoster

theorem Roster.transfer {present : ℕ → Prop} (roster : kernel.Roster k present)
    (same : SameRoster kernel after) (alive : (after.threads k).state ≠ .termed) :
    after.Roster k present where
  toRoll := by
    apply roster.toRoll.sameRoll same.toSameRoll
    refine ⟨?_, ?_, ?_, ?_, alive⟩
    · rw [same.table]
      exact roster.slot
    · rw [same.blocks]
      exact roster.block
    · rw [same.tid]
      exact roster.tid
    · rw [same.privilege]
      exact roster.privilege
  tids t other := by
    rw [same.listed, same.tid, same.tid]
    exact roster.tids t other
  kernelStacks t := by
    rw [same.listed, same.privilege, same.kernelStack]
    exact roster.kernelStacks t
  mains p t isMain := by
    rw [same.proc]
    exact roster.mains p t (same.mains p t isMain)

theorem Roster.mono {present more : ℕ → Prop} (roster : kernel.Roster k present)
    (among : ∀ p t, (kernel.processes p).mainThread = some t → present t → more t) :
    kernel.Roster k more :=
  { roster with mains := fun p t isMain =>
      ⟨among p t isMain (roster.mains p t isMain).1, (roster.mains p t isMain).2⟩ }

/-- The thread is in the table and has not been terminated. -/
def Active (kernel : Kernel) (t : ℕ) : Prop :=
  kernel.Listed t ∧ (kernel.threads t).state ≠ .termed

end Kernel

/-! ## The lists, the owners and the current thread -/

/-- The lists hold threads that may be referred to, and so do the owners of the mutexes and
the current thread.  A thread that waits for a child holds the lock of the child. -/
structure Tracks (kernel : Kernel) (mutexes : ℕ → Mutex) (lists : ListOwner → List ℕ)
    (active : ℕ → Prop) : Prop where
  holds : kernel.HoldsLists mutexes lists
  members : ∀ owner, ∀ t ∈ lists owner, active t
  ready : ∀ t ∈ lists .ready, (kernel.threads t).state ≠ .blocked
  waiting : ∀ m, ∀ t ∈ lists (.mutex m), (kernel.threads t).state = .blocked
  awaiting : ∀ p, ∀ t ∈ lists (.process p), (kernel.threads t).state = .blocked ∧
    (mutexes p).locked = true ∧ (mutexes p).owner = some t
  owners : ∀ m t, (mutexes m).owner = some t → active t
  current : ∀ t, kernel.currentThread = some t → active t

/-- What a section under a lock may do besides its effect: blocked threads are made ready and
put on the ready queue. -/
structure Wakes (before : Kernel) (lists : ListOwner → List ℕ) (after : Kernel)
    (lists' : ListOwner → List ℕ) : Prop where
  roster : Kernel.SameRoster before after
  current : after.currentThread = before.currentThread
  states : ∀ t, (after.threads t).state = (before.threads t).state ∨
    ((before.threads t).state = .blocked ∧ (after.threads t).state = .ready)
  ready : ∀ t ∈ lists' .ready, t ∈ lists .ready ∨ (before.threads t).state = .blocked
  others : ∀ owner, owner ≠ .ready → ∀ t ∈ lists' owner, t ∈ lists owner

namespace Wakes

variable {kernel middle after : Kernel} {lists lists' lists'' : ListOwner → List ℕ} {t : ℕ}

theorem refl (kernel : Kernel) (lists : ListOwner → List ℕ) : Wakes kernel lists kernel lists :=
  ⟨.refl kernel, rfl, fun _ => .inl rfl, fun _ => .inl, fun _ _ _ => id⟩

theorem trans (first : Wakes kernel lists middle lists')
    (second : Wakes middle lists' after lists'') :
    Wakes kernel lists after lists'' where
  roster := first.roster.trans second.roster
  current := second.current.trans first.current
  states t := by
    rcases second.states t with same | ⟨blocked, ready⟩
    · rw [same]
      exact first.states t
    · rcases first.states t with same | ⟨_, wasReady⟩
      · exact .inr ⟨same ▸ blocked, ready⟩
      · rw [wasReady] at blocked
        cases blocked
  ready t mem := by
    rcases second.ready t mem with stays | blocked
    · exact first.ready t stays
    · rcases first.states t with same | ⟨wasBlocked, _⟩
      · exact .inr (same ▸ blocked)
      · exact .inr wasBlocked
  others owner notReady t mem := first.others owner notReady t (second.others owner notReady t mem)

/-- A change that has nothing to do with the lists. -/
theorem of_same (roster : Kernel.SameRoster kernel after)
    (current : after.currentThread = kernel.currentThread)
    (states : ∀ t, (after.threads t).state = (kernel.threads t).state) :
    Wakes kernel lists after lists :=
  ⟨roster, current, fun t => .inl (states t), fun _ => .inl, fun _ _ _ => id⟩

theorem awake (wakes : Wakes kernel lists after lists')
    (awake : (kernel.threads t).state ≠ .blocked) :
    (after.threads t).state = (kernel.threads t).state :=
  (wakes.states t).resolve_right (fun woken => awake woken.1)

theorem termed_iff (wakes : Wakes kernel lists after lists') :
    (after.threads t).state = .termed ↔ (kernel.threads t).state = .termed := by
  rcases wakes.states t with same | ⟨blocked, ready⟩
  · rw [same]
  · simp [blocked, ready]

end Wakes

namespace Tracks

variable {kernel after : Kernel} {mutexes : ℕ → Mutex} {lists : ListOwner → List ℕ}
  {active active' : ℕ → Prop} {t c p m fuel : ℕ}

/-- Writing fields that the lists and the states of their threads do not depend on. -/
theorem congr (tracks : Tracks kernel mutexes lists active) (holds : after.HoldsLists mutexes lists)
    (current : ∀ t, after.currentThread = some t → active t)
    (states : ∀ owner, ∀ t ∈ lists owner, (after.threads t).state = (kernel.threads t).state) :
    Tracks after mutexes lists active where
  holds := holds
  members := tracks.members
  ready t mem := by
    rw [states _ t mem]
    exact tracks.ready t mem
  waiting m t mem := by
    rw [states _ t mem]
    exact tracks.waiting m t mem
  awaiting p t mem := by
    rw [states _ t mem]
    exact tracks.awaiting p t mem
  owners := tracks.owners
  current := current

theorem withKernel (tracks : Tracks kernel mutexes lists active)
    (holds : after.HoldsLists mutexes lists)
    (current : ∀ t, after.currentThread = some t → active t)
    (states : ∀ t, (after.threads t).state = (kernel.threads t).state) :
    Tracks after mutexes lists active :=
  tracks.congr holds current (fun _ t _ => states t)

theorem modifyProcess (tracks : Tracks kernel mutexes lists active) {change : Process → Process}
    (head : (change (kernel.processes p)).waitHead = (kernel.processes p).waitHead)
    (tail : (change (kernel.processes p)).waitTail = (kernel.processes p).waitTail) :
    Tracks (kernel.modifyProcess p change) mutexes lists active :=
  tracks.withKernel (tracks.holds.modifyProcess head tail) tracks.current (fun _ => rfl)

/-- A thread that neither waits nor goes to sleep on the ready queue. -/
theorem setState (tracks : Tracks kernel mutexes lists active) {state : ThreadState}
    (awake : ∀ owner, owner ≠ .ready → t ∉ lists owner)
    (stays : t ∈ lists .ready → state ≠ .blocked) :
    Tracks (kernel.setState t state) mutexes lists active where
  holds := tracks.holds.setState t state
  members := tracks.members
  ready other mem := by
    by_cases same : other = t
    · subst same
      rw [Kernel.setState_state]
      exact stays mem
    · rw [Kernel.setState_state_ne _ same]
      exact tracks.ready other mem
  waiting m other mem := by
    have different : other ≠ t := by
      rintro rfl
      exact awake (.mutex m) (by simp) mem
    rw [Kernel.setState_state_ne _ different]
    exact tracks.waiting m other mem
  awaiting p other mem := by
    have different : other ≠ t := by
      rintro rfl
      exact awake (.process p) (by simp) mem
    rw [Kernel.setState_state_ne _ different]
    exact tracks.awaiting p other mem
  owners := tracks.owners
  current := tracks.current

/-- Other threads may be referred to, too. -/
theorem mono (tracks : Tracks kernel mutexes lists active) (more : ∀ t, active t → active' t) :
    Tracks kernel mutexes lists active' :=
  { tracks with
    members := fun owner t mem => more t (tracks.members owner t mem)
    owners := fun m t isOwner => more t (tracks.owners m t isOwner)
    current := fun t isCurrent => more t (tracks.current t isCurrent) }

/-- A thread that nothing refers to need not be referred to. -/
theorem forget (tracks : Tracks kernel mutexes lists active) (unlisted : ∀ owner, t ∉ lists owner)
    (unowned : ∀ m, (mutexes m).owner ≠ some t) (notCurrent : kernel.currentThread ≠ some t)
    (others : ∀ other, other ≠ t → active other → active' other) :
    Tracks kernel mutexes lists active' :=
  { tracks with
    members := fun owner other mem =>
      others other (fun same => unlisted owner (same ▸ mem)) (tracks.members owner other mem)
    owners := fun m other isOwner =>
      others other (fun same => unowned m (same ▸ isOwner)) (tracks.owners m other isOwner)
    current := fun other isCurrent =>
      others other (fun same => notCurrent (same ▸ isCurrent)) (tracks.current other isCurrent) }

/-- Nobody waits for a child whose lock is free. -/
theorem unawaited (tracks : Tracks kernel mutexes lists active)
    (free : (mutexes p).locked = false) : lists (.process p) = [] := by
  rw [List.eq_nil_iff_forall_not_mem]
  intro t mem
  have locked := (tracks.awaiting p t mem).2.1
  rw [free] at locked
  cases locked

/-- A mutex that is taken or given up and keeps its waiters. -/
theorem setMutex (tracks : Tracks kernel mutexes lists active) {mutex : Mutex}
    (head : mutex.waiterHead = (mutexes m).waiterHead)
    (tail : mutex.waiterTail = (mutexes m).waiterTail)
    (owner : ∀ t, mutex.owner = some t → active t) (unawaited : lists (.process m) = []) :
    Tracks kernel (Function.update mutexes m mutex) lists active where
  holds := tracks.holds.setMutex head tail
  members := tracks.members
  ready := tracks.ready
  waiting := tracks.waiting
  awaiting p t mem := by
    have different : p ≠ m := by
      rintro rfl
      simp [unawaited] at mem
    rw [Function.update_of_ne different]
    exact tracks.awaiting p t mem
  owners other t isOwner := by
    by_cases same : other = m
    · subst same
      rw [Function.update_self] at isOwner
      exact owner t isOwner
    · rw [Function.update_of_ne same] at isOwner
      exact tracks.owners other t isOwner
  current := tracks.current

theorem take (tracks : Tracks kernel mutexes lists active) (free : (mutexes m).locked = false)
    (isCurrent : kernel.currentThread = some c) :
    Tracks kernel (Function.update mutexes m ((mutexes m).take (some c))) lists active := by
  refine tracks.setMutex rfl rfl ?_ (tracks.unawaited free)
  intro t isOwner
  rcases Option.some.inj isOwner
  exact tracks.current c isCurrent

/-- A thread that is awake and on no list goes to the end of the ready queue. -/
theorem enqueueReadyTail (tracks : Tracks kernel mutexes lists active)
    (absent : ∀ owner, t ∉ lists owner) (isActive : active t)
    (awake : (kernel.threads t).state ≠ .blocked)
    (runs : kernel.enqueueReadyTail t = some after) :
    Tracks after mutexes (Function.update lists .ready (lists .ready ++ [t])) active ∧
      Kernel.Relinked kernel after := by
  rcases tracks.holds.enqueueReadyTail absent runs with ⟨holds, relinked⟩
  refine ⟨⟨holds, ?_, ?_, ?_, ?_, tracks.owners, ?_⟩, relinked⟩
  · intro owner other mem
    rcases SharedLists.mem_update_append.mp mem with before | ⟨rfl, _⟩
    · exact tracks.members owner other before
    · exact isActive
  · intro other mem
    rw [relinked.state]
    rcases SharedLists.mem_update_append.mp mem with before | ⟨rfl, _⟩
    · exact tracks.ready other before
    · exact awake
  · intro m other mem
    rw [relinked.state]
    exact tracks.waiting m other (by simpa using mem)
  · intro p other mem
    rw [relinked.state]
    exact tracks.awaiting p other (by simpa using mem)
  · rw [relinked.currentThread]
    exact tracks.current

/-- A smaller ready queue. -/
theorem relist (tracks : Tracks kernel mutexes lists active) {queue : List ℕ}
    (holds : after.HoldsLists mutexes (Function.update lists .ready queue))
    (relinked : Kernel.Relinked kernel after) (sub : ∀ node ∈ queue, node ∈ lists .ready) :
    Tracks after mutexes (Function.update lists .ready queue) active where
  holds := holds
  members owner other mem := tracks.members owner other (SharedLists.mem_update sub mem)
  ready other mem := by
    rw [relinked.state]
    exact tracks.ready other (SharedLists.mem_update sub mem)
  waiting m other mem := by
    rw [relinked.state]
    exact tracks.waiting m other (SharedLists.mem_update sub mem)
  awaiting p other mem := by
    rw [relinked.state]
    exact tracks.awaiting p other (SharedLists.mem_update sub mem)
  owners := tracks.owners
  current := by
    rw [relinked.currentThread]
    exact tracks.current

theorem takeFromReadyQueue (tracks : Tracks kernel mutexes lists active)
    (runs : kernel.removeFromReadyQueue fuel (some t) = some after) :
    Tracks after mutexes (Function.update lists .ready ((lists .ready).erase t)) active ∧
      Kernel.Relinked kernel after := by
  rcases tracks.holds.takeFromReadyQueue runs with ⟨holds, relinked⟩
  exact ⟨tracks.relist holds relinked (fun node mem => List.mem_of_mem_erase mem), relinked⟩

theorem dequeueReadyHead (tracks : Tracks kernel mutexes lists active) {rest : List ℕ}
    (isList : lists .ready = t :: rest) :
    Tracks (kernel.dequeueReadyHead t) mutexes (Function.update lists .ready rest) active ∧
      Kernel.Relinked kernel (kernel.dequeueReadyHead t) := by
  rcases tracks.holds.dequeueReadyHead isList with ⟨holds, relinked⟩
  refine ⟨tracks.relist holds relinked ?_, relinked⟩
  intro node mem
  rw [isList]
  exact List.mem_cons_of_mem t mem

/-- A mutex that its owner gives up has no owner, and without waiters nothing else happens. -/
theorem releaseMutex_owner {mutex released : Mutex} (isOwner : mutex.owner = kernel.currentThread)
    (runs : kernel.releaseMutex fuel mutex = some (after, released)) :
    released.owner = none ∧ (mutex.waiterHead = none → after = kernel) := by
  simp only [Kernel.releaseMutex, isOwner, ne_eq, not_true_eq_false, if_false] at runs
  cases isHead : mutex.waiterHead with
  | none =>
      simp only [isHead, Option.some.injEq, Prod.mk.injEq] at runs
      rw [← runs.2]
      exact ⟨rfl, fun _ => runs.1.symm⟩
  | some waiter =>
      simp only [isHead, Option.map_eq_some_iff, Prod.mk.injEq] at runs
      rcases runs with ⟨woken, _, _, rfl⟩
      exact ⟨rfl, by simp⟩

/-- `release_mutex` by the owner, which is not waiting for a child. -/
theorem releaseOwned (tracks : Tracks kernel mutexes lists active)
    (isOwner : (mutexes m).owner = kernel.currentThread) (unawaited : lists (.process m) = [])
    {released : Mutex} (runs : kernel.releaseMutex fuel (mutexes m) = some (after, released)) :
    ∃ lists', Tracks after (Function.update mutexes m released) lists' active ∧
      Wakes kernel lists after lists' := by
  have noOwner := (releaseMutex_owner isOwner runs).1
  rcases tracks.holds.releaseMutex runs with
    ⟨notOwner, _⟩ | ⟨_, rfl, rfl⟩ | ⟨waiter, rest, _, isList, _, relinked, holds⟩
  · exact absurd isOwner notOwner
  · exact ⟨lists, tracks.setMutex rfl rfl (by simp) unawaited, .refl _ lists⟩
  · have mem : waiter ∈ lists (.mutex m) := by simp [isList]
    have state : ∀ t, t ≠ waiter → (after.threads t).state = (kernel.threads t).state := by
      intro t different
      rw [relinked.state, Kernel.setState_state_ne _ different]
    have woken : (after.threads waiter).state = .ready := by
      rw [relinked.state, Kernel.setState_state]
    have among : ∀ {owner : ListOwner} {t : ℕ}, t ∈ Kernel.wokenLists lists m waiter rest owner →
        (t ≠ waiter ∧ t ∈ lists owner) ∨ (t = waiter ∧ owner = .ready) :=
      tracks.holds.mem_wokenLists isList
    refine ⟨_, ⟨holds, ?_, ?_, ?_, ?_, ?_, ?_⟩, ?_, ?_, ?_, ?_, ?_⟩
    · intro owner t memAfter
      rcases among memAfter with ⟨_, before⟩ | ⟨rfl, _⟩
      · exact tracks.members owner t before
      · exact tracks.members _ _ mem
    · intro t memAfter
      rcases among memAfter with ⟨different, before⟩ | ⟨rfl, _⟩
      · rw [state t different]
        exact tracks.ready t before
      · simp [woken]
    · intro other t memAfter
      rcases among memAfter with ⟨different, before⟩ | ⟨_, isReady⟩
      · rw [state t different]
        exact tracks.waiting other t before
      · cases isReady
    · intro p t memAfter
      rcases among memAfter with ⟨different, before⟩ | ⟨_, isReady⟩
      · have otherLock : p ≠ m := by
          rintro rfl
          simp [unawaited] at before
        rw [state t different, Function.update_of_ne otherLock]
        exact tracks.awaiting p t before
      · cases isReady
    · intro other t isOwned
      by_cases same : other = m
      · subst same
        simp [noOwner] at isOwned
      · rw [Function.update_of_ne same] at isOwned
        exact tracks.owners other t isOwned
    · rw [relinked.currentThread]
      exact tracks.current
    · exact (Kernel.SameRoster.setState kernel waiter .ready).trans (.of_relinked relinked)
    · exact relinked.currentThread
    · intro t
      by_cases same : t = waiter
      · subst same
        exact .inr ⟨tracks.waiting m t mem, woken⟩
      · exact .inl (state t same)
    · intro t memAfter
      rcases among memAfter with ⟨_, before⟩ | ⟨rfl, _⟩
      · exact .inl before
      · exact .inr (tracks.waiting m t mem)
    · intro owner notReady t memAfter
      rcases among memAfter with ⟨_, before⟩ | ⟨_, isReady⟩
      · exact before
      · exact absurd isReady notReady

/-- `release_mutex` by a thread that is awake. -/
theorem release (tracks : Tracks kernel mutexes lists active)
    (isCurrent : kernel.currentThread = some c) (awake : (kernel.threads c).state ≠ .blocked)
    {released : Mutex} (runs : kernel.releaseMutex fuel (mutexes m) = some (after, released)) :
    ∃ lists', Tracks after (Function.update mutexes m released) lists' active ∧
      Wakes kernel lists after lists' := by
  by_cases isOwner : (mutexes m).owner = kernel.currentThread
  · apply tracks.releaseOwned isOwner _ runs
    rw [List.eq_nil_iff_forall_not_mem]
    intro t mem
    rcases tracks.awaiting m t mem with ⟨blocked, _, owned⟩
    rcases Option.some.inj (owned.symm.trans (isOwner.trans isCurrent))
    exact awake blocked
  · simp only [Kernel.releaseMutex, ne_eq, isOwner, not_false_eq_true, if_true, Option.some.injEq,
      Prod.mk.injEq] at runs
    rw [← runs.1, ← runs.2, Function.update_eq_self]
    exact ⟨lists, tracks, .refl _ lists⟩

end Tracks

end Goshkik

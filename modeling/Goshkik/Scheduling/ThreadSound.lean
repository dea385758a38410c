import Goshkik.Scheduling.ThreadReferences

/-!
# The threads between two operations

`AtRest` is the invariant of the thread system where the current thread runs: the roll of the
threads and the references to them are in order, and the current thread is not on the ready
queue.  This file shows that the operations on mutexes and on children keep it.  A section
under a lock wakes threads, but never the current one.
-/

namespace Goshkik

namespace Kernel

variable {kernel after : Kernel} {mutexes : ℕ → Mutex} {lists : ListOwner → List ℕ} {t k fuel : ℕ}
  {present : ℕ → Prop}

theorem SameRoster.active (same : SameRoster kernel after)
    (termed : ∀ t, (after.threads t).state = .termed ↔ (kernel.threads t).state = .termed) :
    after.Active = kernel.Active := by
  funext t
  unfold Active
  rw [same.listed, ne_eq, termed]

/-- A change that leaves the roll and the threads that have ended alone. -/
theorem Roster.kept (roster : kernel.Roster k kernel.Listed) (same : SameRoster kernel after)
    (termed : ∀ t, (after.threads t).state = .termed ↔ (kernel.threads t).state = .termed)
    (tracks : Tracks after mutexes lists kernel.Active) :
    after.Roster k after.Listed ∧ Tracks after mutexes lists after.Active := by
  constructor
  · rw [same.listed]
    exact roster.transfer same (fun dead => roster.alive ((termed k).mp dead))
  · rwa [same.active termed]

/-- `thread_block` on a thread of the table that is off the ready queue. -/
theorem Roster.threadBlock (roster : kernel.Roster k present) (listed : kernel.Listed t)
    (holds : kernel.HoldsLists mutexes lists) (notReady : t ∉ lists .ready)
    (runs : kernel.threadBlock fuel (kernel.threads t).tid = some after) :
    after = kernel.setState t .blocked := by
  simp only [Kernel.threadBlock, threadFromTid_of_listed roster.tids listed] at runs
  split at runs
  · cases runs
  · exact (holds.setState t .blocked).removeFromReadyQueue notReady runs

end Kernel

namespace Tracks

variable {kernel after : Kernel} {mutexes mutexes' : ℕ → Mutex} {lists : ListOwner → List ℕ}
  {active : ℕ → Prop} {c : ℕ} {owner : ListOwner}

/-- A thread goes to sleep behind the last thread of a list. -/
theorem sleep (tracks : Tracks kernel mutexes lists active) (absent : ∀ other, c ∉ lists other)
    (isActive : active c) (notReady : owner ≠ .ready)
    (holds : after.HoldsLists mutexes' (Function.update lists owner (lists owner ++ [c])))
    (states : ∀ t, t ≠ c → (after.threads t).state = (kernel.threads t).state)
    (blocked : (after.threads c).state = .blocked)
    (sameLocks : ∀ m, (mutexes' m).locked = (mutexes m).locked ∧
      (mutexes' m).owner = (mutexes m).owner)
    (awaits : ∀ p, owner = .process p → (mutexes p).locked = true ∧ (mutexes p).owner = some c)
    (sameCurrent : after.currentThread = kernel.currentThread) :
    Tracks after mutexes' (Function.update lists owner (lists owner ++ [c])) active where
  holds := holds
  members other t mem := by
    rcases SharedLists.mem_update_append.mp mem with before | ⟨rfl, _⟩
    · exact tracks.members other t before
    · exact isActive
  ready t mem := by
    rcases SharedLists.mem_update_append.mp mem with before | ⟨_, isReady⟩
    · rw [states t (fun same => absent _ (same ▸ before))]
      exact tracks.ready t before
    · exact absurd isReady.symm notReady
  waiting m t mem := by
    rcases SharedLists.mem_update_append.mp mem with before | ⟨rfl, _⟩
    · rw [states t (fun same => absent _ (same ▸ before))]
      exact tracks.waiting m t before
    · exact blocked
  awaiting p t mem := by
    rw [(sameLocks p).1, (sameLocks p).2]
    rcases SharedLists.mem_update_append.mp mem with before | ⟨rfl, isOwner⟩
    · rw [states t (fun same => absent _ (same ▸ before))]
      exact tracks.awaiting p t before
    · exact ⟨blocked, awaits p isOwner.symm⟩
  owners m t := by
    rw [(sameLocks m).2]
    exact tracks.owners m t
  current := by
    rw [sameCurrent]
    exact tracks.current

end Tracks

namespace ThreadSystem

variable {system after : ThreadSystem} {phase : TickPhase} {lists lists' : ListOwner → List ℕ}
  {c k m p fuel : ℕ}

structure AtRest (system : ThreadSystem) (phase : TickPhase) (k : ℕ)
    (lists : ListOwner → List ℕ) : Prop where
  isPhase : system.phase = phase
  roster : system.kernel.Roster k system.kernel.Listed
  tracks : Tracks system.kernel system.mutexes lists system.kernel.Active
  offQueue : ∀ t, system.kernel.currentThread = some t → t ∉ lists .ready

/-- The current thread is not about to wait. -/
def Awake (system : ThreadSystem) : Prop :=
  ∀ t, system.kernel.currentThread = some t → (system.kernel.threads t).state ≠ .blocked

/-- What a section does besides its effect: it wakes threads, and no mutex gets an owner. -/
structure Section (system : ThreadSystem) (lists : ListOwner → List ℕ) (after : ThreadSystem)
    (lists' : ListOwner → List ℕ) : Prop where
  wakes : Wakes system.kernel lists after.kernel lists'
  phase : after.phase = system.phase
  owners : ∀ m t, (after.mutexes m).owner = some t → (system.mutexes m).owner = some t

theorem Section.awake (ran : Section system lists after lists') (awake : system.Awake) :
    after.Awake := by
  intro t isCurrent
  rw [ran.wakes.current] at isCurrent
  rw [ran.wakes.awake (awake t isCurrent)]
  exact awake t isCurrent

theorem Awake.congr (awake : system.Awake) (same : after.kernel = system.kernel) : after.Awake := by
  unfold Awake
  rw [same]
  exact awake

namespace AtRest

theorem listed (rest : system.AtRest phase k lists)
    (isCurrent : system.kernel.currentThread = some c) :
    system.kernel.Listed c :=
  (rest.tracks.current c isCurrent).1

/-- The current thread is on no list, unless it is about to wait. -/
theorem absent (rest : system.AtRest phase k lists) (awake : system.Awake)
    (isCurrent : system.kernel.currentThread = some c) : ∀ owner, c ∉ lists owner := by
  intro owner mem
  cases owner with
  | ready => exact rest.offQueue c isCurrent mem
  | mutex m => exact awake c isCurrent (rest.tracks.waiting m c mem)
  | process p => exact awake c isCurrent (rest.tracks.awaiting p c mem).1

/-- A change that leaves the lists and the states of the threads alone. -/
theorem setKernel (rest : system.AtRest phase k lists) {kernel : Kernel}
    (same : Kernel.SameRoster system.kernel kernel)
    (holds : kernel.HoldsLists system.mutexes lists)
    (sameCurrent : kernel.currentThread = system.kernel.currentThread)
    (states : ∀ t, (kernel.threads t).state = (system.kernel.threads t).state) :
    (system.setKernel kernel).AtRest phase k lists := by
  have kept := rest.tracks.withKernel holds (by rw [sameCurrent]; exact rest.tracks.current) states
  rcases rest.roster.kept same (fun t => by rw [states]) kept with ⟨roster, tracks⟩
  refine ⟨rest.isPhase, roster, tracks, ?_⟩
  change ∀ t, kernel.currentThread = some t → _
  rw [sameCurrent]
  exact rest.offQueue

theorem setResumption (rest : system.AtRest phase k lists) (t : ℕ) (resumption : Resumption) :
    (system.setResumption t resumption).AtRest phase k lists :=
  ⟨rest.isPhase, rest.roster, rest.tracks, rest.offQueue⟩

/-- A section keeps the invariant. -/
theorem ran (rest : system.AtRest phase k lists) (awake : system.Awake)
    (ran : Section system lists after lists')
    (tracks : Tracks after.kernel after.mutexes lists' system.kernel.Active) :
    after.AtRest phase k lists' := by
  rcases rest.roster.kept ran.wakes.roster (fun _ => ran.wakes.termed_iff) tracks with
    ⟨roster, kept⟩
  refine ⟨ran.phase.trans rest.isPhase, roster, kept, fun t isCurrent mem => ?_⟩
  rw [ran.wakes.current] at isCurrent
  rcases ran.wakes.ready t mem with before | blocked
  · exact rest.offQueue t isCurrent before
  · exact awake t isCurrent blocked

/-- The current thread goes to sleep behind the last thread of a list. -/
theorem sleep (rest : system.AtRest phase k lists) (awake : system.Awake)
    (isCurrent : system.kernel.currentThread = some c) {owner : ListOwner}
    (notReady : owner ≠ .ready) (isPhase : after.phase = system.phase)
    (holds : after.kernel.HoldsLists after.mutexes
      (Function.update lists owner (lists owner ++ [c])))
    (same : Kernel.SameRoster system.kernel after.kernel)
    (states : ∀ t, t ≠ c → (after.kernel.threads t).state = (system.kernel.threads t).state)
    (blocked : (after.kernel.threads c).state = .blocked)
    (sameLocks : ∀ m, (after.mutexes m).locked = (system.mutexes m).locked ∧
      (after.mutexes m).owner = (system.mutexes m).owner)
    (awaits : ∀ p, owner = .process p →
      (system.mutexes p).locked = true ∧ (system.mutexes p).owner = some c)
    (sameCurrent : after.kernel.currentThread = system.kernel.currentThread) :
    after.AtRest phase k (Function.update lists owner (lists owner ++ [c])) := by
  have absent := rest.absent awake isCurrent
  have isActive := rest.tracks.current c isCurrent
  have termed : ∀ t, (after.kernel.threads t).state = .termed ↔
      (system.kernel.threads t).state = .termed := by
    intro t
    by_cases isCaller : t = c
    · subst isCaller
      simp [blocked, isActive.2]
    · rw [states t isCaller]
  rcases rest.roster.kept same termed (rest.tracks.sleep absent isActive notReady holds states
    blocked sameLocks awaits sameCurrent) with ⟨roster, tracks⟩
  refine ⟨isPhase.trans rest.isPhase, roster, tracks, fun t isCaller => ?_⟩
  rcases Option.some.inj (isCurrent.symm.trans (sameCurrent.symm.trans isCaller))
  rw [Function.update_of_ne notReady.symm]
  exact absent .ready

/-- `acquire_mutex` puts the current thread to sleep or takes the mutex. -/
theorem acquire (rest : system.AtRest phase k lists) (awake : system.Awake)
    (isCurrent : system.kernel.currentThread = some c) {resumption : Resumption}
    {next : ThreadSystem → Option ThreadSystem}
    (runs : system.acquire fuel c m resumption next = some after) :
    (∃ lists', after.AtRest phase k lists') ∨
      ((system.mutexes m).locked = false ∧ ∃ held : ThreadSystem,
        held.kernel = system.kernel ∧
          held.mutexes = Function.update system.mutexes m ((system.mutexes m).take (some c)) ∧
          held.AtRest phase k lists ∧ next held = some after) := by
  have absent := rest.absent awake isCurrent
  simp only [ThreadSystem.acquire, Kernel.acquireSection, isCurrent] at runs
  cases locked : (system.mutexes m).locked with
  | true =>
      left
      simp only [locked, if_true, Option.map_some, Option.bind_some, Bool.false_eq_true, if_false,
        Option.map_eq_some_iff] at runs
      rcases runs with ⟨blocked, blocks, rfl⟩
      rcases rest.tracks.holds.queueWaiter absent m with ⟨holds, relinked⟩
      have marked : Kernel.SameRoster system.kernel
          (system.kernel.queueWaiter (system.mutexes m) c).1 :=
        (Kernel.SameRoster.setState system.kernel c .blocked).trans (.of_relinked relinked)
      have roster := rest.roster.transfer marked (by
        rw [relinked.state]
        by_cases isCaller : k = c
        · subst isCaller
          simp [Kernel.setState_state]
        · rw [Kernel.setState_state_ne _ isCaller]
          exact rest.roster.alive)
      have listed : (system.kernel.queueWaiter (system.mutexes m) c).1.Listed c := by
        rw [marked.listed]
        exact rest.listed isCurrent
      rcases roster.threadBlock listed holds (by simpa using absent .ready) blocks
      have slept : (system.setMutex ((system.kernel.queueWaiter (system.mutexes m) c).1.setState c
          .blocked) m (system.kernel.queueWaiter (system.mutexes m) c).2).AtRest phase k
            (Function.update lists (.mutex m) (lists (.mutex m) ++ [c])) := by
        refine rest.sleep awake isCurrent (by simp) rfl ?_ ?_ ?_ ?_ ?_ (by simp)
          relinked.currentThread
        · exact holds.setState c .blocked
        · exact marked.trans (.setState _ c .blocked)
        · intro t different
          change ((Kernel.setState _ c .blocked).threads t).state = _
          rw [Kernel.setState_state_ne _ different, relinked.state,
            Kernel.setState_state_ne _ different]
        · exact Kernel.setState_state _ c .blocked
        · intro other
          by_cases same : other = m
          · subst same
            simp only [setMutex, Function.update_self, Kernel.queueWaiter]
            cases (system.mutexes other).waiterTail <;> exact ⟨rfl, rfl⟩
          · simp [setMutex, same]
      exact ⟨_, slept.setResumption c resumption⟩
  | false =>
      right
      simp only [locked, Bool.false_eq_true, if_false, Option.bind_some, if_true] at runs
      refine ⟨rfl, _, ?_, ?_, ?_, runs⟩
      · rfl
      · rfl
      · exact ⟨rest.isPhase, rest.roster, rest.tracks.take locked isCurrent, rest.offQueue⟩

/-- `release_mutex` by the current thread. -/
theorem release (rest : system.AtRest phase k lists) (awake : system.Awake)
    (isCurrent : system.kernel.currentThread = some c)
    (runs : system.release fuel m = some after) :
    ∃ lists', after.AtRest phase k lists' ∧ Section system lists after lists' ∧
      (after.mutexes m).owner ≠ some c := by
  simp only [ThreadSystem.release, Option.map_eq_some_iff] at runs
  rcases runs with ⟨⟨kernel, mutex⟩, releases, rfl⟩
  rcases rest.tracks.release isCurrent (awake c isCurrent) releases with ⟨lists', tracks, wakes⟩
  have owners : mutex.owner ≠ some c ∧ ∀ t, mutex.owner = some t →
      (system.mutexes m).owner = some t := by
    by_cases isOwner : (system.mutexes m).owner = system.kernel.currentThread
    · simp [(Tracks.releaseMutex_owner isOwner releases).1]
    · simp only [Kernel.releaseMutex, ne_eq, isOwner, not_false_eq_true, if_true,
        Option.some.injEq, Prod.mk.injEq] at releases
      rw [← releases.2, ← isCurrent]
      exact ⟨isOwner, fun _ => id⟩
  have ran : Section system lists (system.setMutex kernel m mutex) lists' := by
    refine ⟨wakes, rfl, fun other t isOwner => ?_⟩
    by_cases same : other = m
    · subst same
      simp only [setMutex, Function.update_self] at isOwner
      exact owners.2 t isOwner
    · simpa [setMutex, same] using isOwner
  exact ⟨lists', rest.ran awake ran tracks, ran, by simpa [setMutex] using owners.1⟩

/-! ## Waiting for a child -/

/-- Writing fields of a process that the lists do not depend on. -/
theorem modifyProcess (rest : system.AtRest phase k lists) {change : Process → Process}
    (main : ∀ t, (change (system.kernel.processes p)).mainThread = some t →
      (system.kernel.processes p).mainThread = some t)
    (head : (change (system.kernel.processes p)).waitHead = (system.kernel.processes p).waitHead)
    (tail : (change (system.kernel.processes p)).waitTail = (system.kernel.processes p).waitTail) :
    (system.setKernel (system.kernel.modifyProcess p change)).AtRest phase k lists :=
  rest.setKernel (.modifyProcess system.kernel main) (rest.tracks.holds.modifyProcess head tail) rfl
    (fun _ => rfl)

theorem collect (rest : system.AtRest phase k lists) (awake : system.Awake)
    (isCurrent : system.kernel.currentThread = some c) {child index : ℕ} {pid : ℤ}
    (runs : system.collect fuel child index pid = some after) :
    ∃ lists', after.AtRest phase k lists' := by
  rcases Option.map_eq_some_iff.mp runs with ⟨released, releases, rfl⟩
  have marked := @AtRest.modifyProcess system phase lists k child rest
    (fun record => { record with state := .exited }) (fun _ => id) rfl rfl
  rcases marked.release awake isCurrent releases with ⟨lists', restAfter, _, _⟩
  refine ⟨lists', restAfter.setKernel ⟨.rest rfl rfl rfl rfl, fun _ => rfl, fun _ _ => id⟩ ?_ rfl
    (fun _ => rfl)⟩
  exact restAfter.tracks.holds

/-- `process_wait` goes to sleep on the wait list of the child whose lock it holds. -/
theorem await (rest : system.AtRest phase k lists) (awake : system.Awake)
    (isCurrent : system.kernel.currentThread = some c) {child : ℕ} {queued blocked : Kernel}
    (holdsLock : (system.mutexes child).locked = true ∧ (system.mutexes child).owner = some c)
    (queues : system.kernel.waitEnqueue child c = some queued)
    (blocks : queued.threadBlock fuel (queued.threads c).tid = some blocked) :
    ∃ lists', (system.setKernel blocked).AtRest phase k lists' := by
  have absent := rest.absent awake isCurrent
  rcases rest.tracks.holds.waitEnqueue absent queues with ⟨holds, relinked⟩
  have same : Kernel.SameRoster system.kernel queued := by
    have relinkedRoster := Kernel.SameRoster.of_relinked relinked
    refine ⟨⟨relinkedRoster.table, relinkedRoster.blocks, relinkedRoster.count,
      relinkedRoster.identity⟩, relinkedRoster.proc, ?_⟩
    intro other t isMain
    simp only [Kernel.waitEnqueue] at queues
    have kept : (queued.processes other).mainThread =
        (system.kernel.processes other).mainThread := by
      split at queues
      · rw [← Option.some.inj queues]
        by_cases isChild : other = child
        · subst isChild
          simp [Kernel.modifyProcess, Kernel.setNext, Kernel.modifyThread]
        · simp [Kernel.modifyProcess, Kernel.setNext, Kernel.modifyThread, isChild]
      · split at queues
        · cases queues
        · rw [← Option.some.inj queues]
          by_cases isChild : other = child
          · subst isChild
            simp [Kernel.modifyProcess, Kernel.setNext, Kernel.modifyThread]
          · simp [Kernel.modifyProcess, Kernel.setNext, Kernel.modifyThread, isChild]
    rwa [kept] at isMain
  have states : ∀ t, (queued.threads t).state = (system.kernel.threads t).state := relinked.state
  have roster := rest.roster.transfer same (by rw [states]; exact rest.roster.alive)
  have listed : queued.Listed c := by
    rw [same.listed]
    exact rest.listed isCurrent
  rcases roster.threadBlock listed holds (by simpa using absent .ready) blocks
  refine ⟨Function.update lists (.process child) (lists (.process child) ++ [c]), ?_⟩
  refine rest.sleep awake isCurrent (by simp) rfl ?_ ?_ ?_ ?_ (fun _ => ⟨rfl, rfl⟩) ?_
    relinked.currentThread
  · exact holds.setState c .blocked
  · exact same.trans (.setState _ c .blocked)
  · intro t different
    change ((Kernel.setState _ c .blocked).threads t).state = _
    rw [Kernel.setState_state_ne _ different, states]
  · exact Kernel.setState_state _ c .blocked
  · rintro _ ⟨⟩
    exact holdsLock

theorem waitForChild (rest : system.AtRest phase k lists) (awake : system.Awake)
    (isCurrent : system.kernel.currentThread = some c) {child index : ℕ} {pid : ℤ}
    (runs : system.waitForChild fuel c child index pid = some after) :
    ∃ lists', after.AtRest phase k lists' := by
  rcases rest.acquire awake isCurrent runs with
    waits | ⟨_, held, sameKernel, sameMutexes, restHeld, ends⟩
  · exact waits
  have isCaller : held.kernel.currentThread = some c := by rw [sameKernel, isCurrent]
  have awakeHeld := awake.congr sameKernel
  split at ends
  · exact restHeld.collect awakeHeld isCaller ends
  · rcases Option.bind_eq_some_iff.mp ends with ⟨queued, queues, sleeps⟩
    rcases Option.map_eq_some_iff.mp sleeps with ⟨blocked, blocks, rfl⟩
    have holdsLock : (held.mutexes child).locked = true ∧ (held.mutexes child).owner = some c := by
      rw [sameMutexes, Function.update_self]
      exact ⟨rfl, rfl⟩
    rcases restHeld.await awakeHeld isCaller holdsLock queues blocks with ⟨lists', slept⟩
    exact ⟨lists', slept.setResumption c _⟩

theorem collectChild (rest : system.AtRest phase k lists) (awake : system.Awake)
    (isCurrent : system.kernel.currentThread = some c) {child index : ℕ} {pid : ℤ}
    (runs : system.collectChild fuel c child index pid = some after) :
    ∃ lists', after.AtRest phase k lists' := by
  rcases rest.acquire awake isCurrent runs with waits | ⟨_, held, sameKernel, _, restHeld, ends⟩
  · exact waits
  · exact restHeld.collect (awake.congr sameKernel) (by rw [sameKernel, isCurrent]) ends

theorem processWait (rest : system.AtRest phase k lists) (awake : system.Awake)
    (isCurrent : system.kernel.currentThread = some c) {pid : ℤ}
    (runs : system.processWait fuel c pid = some after) :
    ∃ lists', after.AtRest phase k lists' := by
  unfold ThreadSystem.processWait at runs
  generalize system.kernel.findChild (pidOfOwner (system.kernel.threads c).oPid) pid = found at runs
  cases found with
  | none =>
      rw [← Option.some.inj runs]
      exact ⟨lists, rest⟩
  | some child => exact rest.waitForChild awake isCurrent runs

end AtRest

/-! ## Sections under the lock of a process -/

theorem locked_cases {effect : Kernel → Option Kernel}
    (runs : system.locked fuel p effect = some after) :
    (system.mutexes p).locked = false ∧ ∃ kernel, effect system.kernel = some kernel ∧
      (system.setMutex kernel p ((system.mutexes p).take system.kernel.currentThread)).release
        fuel p = some after := by
  simp only [ThreadSystem.locked] at runs
  split at runs
  · cases runs
  · rename_i free
    rcases Option.bind_eq_some_iff.mp runs with ⟨kernel, effects, releases⟩
    exact ⟨by simpa using free, kernel, effects, releases⟩

/-- What a section does behind its effect. -/
theorem section_of_release {kernel : Kernel} {active : ℕ → Prop}
    (tracks : Tracks kernel system.mutexes lists active) (free : (system.mutexes p).locked = false)
    (sameCurrent : kernel.currentThread = system.kernel.currentThread)
    (releases : (system.setMutex kernel p ((system.mutexes p).take
      system.kernel.currentThread)).release fuel p = some after) :
    ∃ lists', Tracks after.kernel after.mutexes lists' active ∧
      Section (system.setKernel kernel) lists after lists' ∧
      ((system.mutexes p).waiterHead = none → after.kernel = kernel) ∧
        ∀ t, (∀ owner, t ∉ lists owner) → after.kernel.nextOf t = kernel.nextOf t := by
  rcases Option.map_eq_some_iff.mp releases with ⟨⟨woken, mutex⟩, gives, rfl⟩
  have taken : Tracks kernel (Function.update system.mutexes p
      ((system.mutexes p).take system.kernel.currentThread)) lists active := by
    refine tracks.setMutex rfl rfl ?_ (tracks.unawaited free)
    intro t isOwner
    apply tracks.current t
    rw [sameCurrent]
    exact isOwner
  simp only [setMutex, Function.update_self] at gives
  have isOwner : ((system.mutexes p).take system.kernel.currentThread).owner =
      kernel.currentThread := sameCurrent.symm
  rcases Tracks.releaseMutex_owner isOwner gives with ⟨noOwner, quiet⟩
  rcases @Tracks.releaseOwned kernel woken _ lists active p fuel taken
    (by rw [Function.update_self]; exact isOwner) (tracks.unawaited free) mutex
    (by rw [Function.update_self]; exact gives) with ⟨lists', tracksAfter, wakes⟩
  refine ⟨lists', ?_, ⟨wakes, rfl, fun other t isOwned => ?_⟩, fun noWaiter => quiet noWaiter,
    fun t absent => ?_⟩
  · exact tracksAfter
  · by_cases same : other = p
    · subst same
      simp [setMutex, noOwner] at isOwned
    · simpa [setMutex, setKernel, same] using isOwned
  · apply taken.holds.releaseMutex_nextOf absent
    rw [Function.update_self]
    exact gives

end ThreadSystem

end Goshkik

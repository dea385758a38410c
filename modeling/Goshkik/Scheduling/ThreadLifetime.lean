import Goshkik.Scheduling.ThreadEnlisting
import Goshkik.Scheduling.ThreadTicks

/-!
# The lifetime of threads

A thread that ends must not be referred to any more but by the thread table and as the main
thread of its process, which `clean_up` deals with.  `thread_exit` and `thread_terminate` do
not see to this: they leave the mutexes of the thread locked and the lists that it waits on as
they are.  As long as the threads that end refer to nothing else, no thread is freed that is
still reachable.
-/

namespace Goshkik

namespace ThreadSystem

variable {system after : ThreadSystem} {phase : TickPhase} {lists lists' : ListOwner → List ℕ}
  {c k m p t slot fuel : ℕ}

namespace AtRest

/-! ## Threads that end themselves -/

/-- A section whose effect keeps the invariant. -/
theorem section_ran {kernel : Kernel} (rest : (system.setKernel kernel).AtRest phase k lists)
    (awake : (system.setKernel kernel).Awake) (free : (system.mutexes p).locked = false)
    (sameCurrent : kernel.currentThread = system.kernel.currentThread)
    (releases : (system.setMutex kernel p ((system.mutexes p).take
      system.kernel.currentThread)).release fuel p = some after) :
    ∃ lists', after.AtRest phase k lists' ∧
      Section (system.setKernel kernel) lists after lists' := by
  rcases @section_of_release system after lists p fuel kernel _ rest.tracks free sameCurrent
    releases with ⟨lists', tracks, ran, _⟩
  exact ⟨lists', rest.ran awake ran tracks, ran⟩

/-- Nobody waits for a process whose lock is free. -/
theorem wakeWaiters (rest : system.AtRest phase k lists) (awake : system.Awake)
    (runs : system.locked fuel p (fun kernel => kernel.wakeWaiters fuel p) = some after) :
    ∃ kernel lists', after.AtRest phase k lists' ∧
      Section (system.setKernel kernel) lists after lists' ∧
      kernel.threads = system.kernel.threads ∧
      kernel.currentThread = system.kernel.currentThread := by
  rcases locked_cases runs with ⟨free, kernel, wakes, releases⟩
  have empty := rest.tracks.unawaited free
  have noHead : (system.kernel.processes p).waitHead = none := by
    have linked := SharedLists.linked rest.tracks.holds (.process p)
    rw [empty] at linked
    exact linked
  have noTail : (system.kernel.processes p).waitTail = none := by
    have tail := SharedLists.tail rest.tracks.holds (.process p)
    rw [empty] at tail
    exact tail
  simp only [Kernel.wakeWaiters, noHead, Option.map_eq_some_iff] at wakes
  rcases wakes with ⟨woken, wakes, rfl⟩
  have unchanged : woken = system.kernel := by
    cases fuel <;> exact (Option.some.inj wakes).symm
  subst unchanged
  have cleared := @AtRest.modifyProcess system phase lists k p rest
    (fun record => { record with waitHead := none, waitTail := none }) (fun _ => id) noHead.symm
    noTail.symm
  rcases cleared.section_ran awake free rfl releases with ⟨lists', restAfter, ran⟩
  exact ⟨_, lists', restAfter, ran, rfl, rfl⟩

/-- The end of `thread_exit` by a thread that owns no mutex. -/
theorem exitEnd (rest : system.AtRest phase k lists) (awake : system.Awake)
    (isCurrent : system.kernel.currentThread = some c) (owns : system.OwnsNone c)
    (notKernelThread : (system.kernel.threads c).tid ≠ 0) :
    (system.exitEnd c).AtRest phase k lists := by
  have absent := rest.absent awake isCurrent
  have same : Kernel.SameRoster system.kernel (system.exitEnd c).kernel :=
    (Kernel.SameRoster.setState system.kernel c .termed).trans (.setCurrent _ none)
  have states : ∀ t, t ≠ c →
      ((system.exitEnd c).kernel.threads t).state = (system.kernel.threads t).state :=
    fun t different => Kernel.setState_state_ne _ different _
  refine ⟨rest.isPhase, ?_, ?_, by simp [ThreadSystem.exitEnd, ThreadSystem.setKernel]⟩
  · have transferred := rest.roster.transfer same (by
      rw [states k (fun isCaller => notKernelThread (isCaller ▸ rest.roster.tid))]
      exact rest.roster.alive)
    rwa [← same.listed] at transferred
  · have termed : Tracks (system.kernel.setState c .termed) system.mutexes lists
        system.kernel.Active :=
      rest.tracks.setState (fun owner _ => absent owner) (fun _ => by simp)
    have ended : Tracks (system.exitEnd c).kernel system.mutexes lists system.kernel.Active :=
      termed.withKernel termed.holds (by simp [ThreadSystem.exitEnd, ThreadSystem.setKernel])
        (fun _ => rfl)
    refine ended.forget absent owns (by simp [ThreadSystem.exitEnd, ThreadSystem.setKernel]) ?_
    rintro other different ⟨listed, alive⟩
    refine ⟨?_, ?_⟩
    · rw [same.listed]
      exact listed
    · rw [states other different]
      exact alive

/-- The current thread gives up the only mutex that it owns. -/
theorem releaseLast (rest : system.AtRest phase k lists) (awake : system.Awake)
    (isCurrent : system.kernel.currentThread = some c)
    (others : ∀ m, m ≠ p → (system.mutexes m).owner ≠ some c)
    (runs : system.release fuel p = some after) :
    ∃ lists', after.AtRest phase k lists' ∧ after.Awake ∧
      after.kernel.currentThread = some c ∧ after.OwnsNone c ∧
        (after.kernel.threads c).tid = (system.kernel.threads c).tid := by
  rcases rest.release awake isCurrent runs with ⟨lists', restAfter, ran, given⟩
  refine ⟨lists', restAfter, ran.awake awake, ran.wakes.current.trans isCurrent, ?_,
    ran.wakes.roster.tid c⟩
  intro m isOwner
  by_cases same : m = p
  · subst same
    exact given isOwner
  · exact others m same (ran.owners m c isOwner)

theorem threadExit (rest : system.AtRest phase k lists) (awake : system.Awake)
    (isCurrent : system.kernel.currentThread = some c) (mayExit : system.MayExit c)
    (runs : system.threadExit fuel c = some after) : ∃ lists', after.AtRest phase k lists' := by
  simp only [ThreadSystem.threadExit] at runs
  split at runs
  · cases runs
  rename_i notKernelThread
  cases isProc : (system.kernel.threads c).proc with
  | none =>
      simp only [isProc, Option.some.injEq] at runs
      rw [← runs]
      exact ⟨lists, rest.exitEnd awake isCurrent (mayExit (by simp [isProc])) notKernelThread⟩
  | some p =>
      simp only [isProc] at runs
      rcases rest.acquire awake isCurrent runs with
        waits | ⟨free, held, sameKernel, sameMutexes, restHeld, ends⟩
      · exact waits
      have owns : system.OwnsNone c := by
        apply mayExit
        intro other isOther
        rcases Option.some.inj (isProc.symm.trans isOther)
        exact free
      have others : ∀ m, m ≠ p → (held.mutexes m).owner ≠ some c := by
        intro m different
        rw [sameMutexes, Function.update_of_ne different]
        exact owns m
      have awakeHeld := awake.congr sameKernel
      have isCaller : held.kernel.currentThread = some c := by rw [sameKernel, isCurrent]
      have isTid : (held.kernel.threads c).tid ≠ 0 := by rwa [sameKernel]
      split at ends
      · rcases Option.bind_eq_some_iff.mp ends with ⟨released, releases, leaves⟩
        rcases Option.map_eq_some_iff.mp leaves with ⟨woken, wakes, rfl⟩
        have zombie := @AtRest.modifyProcess held phase lists k p restHeld
          (fun record => { record with exitCode := 0, state := .zombie }) (fun _ => id) rfl rfl
        rcases zombie.releaseLast awakeHeld isCaller others releases with
          ⟨listsReleased, restReleased, awakeReleased, isReleased, ownsReleased, sameTid⟩
        rcases restReleased.wakeWaiters awakeReleased wakes with
          ⟨kernel, listsWoken, restWoken, ran, sameThreads, sameCurrent⟩
        refine ⟨listsWoken, restWoken.exitEnd ?_ ?_ ?_ ?_⟩
        · apply ran.awake
          intro t isCurrent'
          change kernel.currentThread = some t at isCurrent'
          change (kernel.threads t).state ≠ .blocked
          rw [sameThreads]
          exact awakeReleased t (sameCurrent.symm.trans isCurrent')
        · exact ran.wakes.current.trans (sameCurrent.trans isReleased)
        · exact fun m isOwner => ownsReleased m (ran.owners m c isOwner)
        · rw [ran.wakes.roster.tid]
          change (kernel.threads c).tid ≠ 0
          rw [sameThreads, sameTid]
          exact isTid
      · rcases Option.map_eq_some_iff.mp ends with ⟨released, releases, rfl⟩
        rcases restHeld.releaseLast awakeHeld isCaller others releases with
          ⟨listsReleased, restReleased, awakeReleased, isReleased, ownsReleased, sameTid⟩
        refine ⟨listsReleased, restReleased.exitEnd awakeReleased isReleased ownsReleased ?_⟩
        rw [sameTid]
        exact isTid

end AtRest

/-! ## Threads that are ended by others -/

/-- A thread leaves its process. -/
theorem detachThread_ran {active : ℕ → Prop}
    (tracks : Tracks system.kernel system.mutexes lists active)
    (runs : system.detachThread fuel t = some after) :
    ∃ lists', Tracks after.kernel after.mutexes lists' active ∧
      Section system lists after lists' ∧
      ((∀ p, (system.kernel.processes p).mainThread = some t →
        (system.kernel.threads t).proc = some p) →
          ∀ p, (after.kernel.processes p).mainThread ≠ some t) ∧
      ((∀ p, (system.kernel.threads t).proc = some p → (system.mutexes p).waiterHead = none) →
        after.kernel.nextOf = system.kernel.nextOf) := by
  cases isProc : (system.kernel.threads t).proc with
  | none =>
      simp only [ThreadSystem.detachThread, isProc, Option.some.injEq] at runs
      rw [← runs]
      exact ⟨lists, tracks, ⟨.refl _ lists, rfl, fun _ _ => id⟩, by simp, fun _ => rfl⟩
  | some p =>
      simp only [ThreadSystem.detachThread, isProc] at runs
      rcases locked_cases runs with ⟨free, kernel, effects, releases⟩
      rcases Option.some.inj effects
      have left : Tracks (system.kernel.processRemoveThread p t) system.mutexes lists active :=
        tracks.modifyProcess rfl rfl
      have sameRoster :
          Kernel.SameRoster system.kernel (system.kernel.processRemoveThread p t) := by
        apply Kernel.SameRoster.modifyProcess
        intro u isMain
        simp only at isMain
        split at isMain
        · cases isMain
        · exact isMain
      rcases @section_of_release system after lists p fuel _ _ left free rfl releases with
        ⟨lists', tracksAfter, ran, quiet, _⟩
      refine ⟨lists', tracksAfter, ⟨?_, ran.phase, ran.owners⟩, fun mains q isMain => ?_, ?_⟩
      · exact (Wakes.of_same sameRoster rfl (fun _ => rfl)).trans ran.wakes
      · have isMainBefore := ran.wakes.roster.mains q t isMain
        have isOwner := mains q (sameRoster.mains q t isMainBefore)
        rcases Option.some.inj isOwner
        simp [ThreadSystem.setKernel, Kernel.processRemoveThread,
          Kernel.modifyProcess] at isMainBefore
      · intro noWaiter
        rw [quiet (noWaiter p rfl)]
        rfl

namespace AtRest

/-- A thread is on the list that leads to it. -/
theorem visits_iff (rest : system.AtRest phase k lists) {owner : ListOwner} :
    system.kernel.Visits (listAnchors system.kernel system.mutexes owner).head t ↔
      t ∈ lists owner :=
  (SharedLists.linked rest.tracks.holds owner).visits_iff

theorem terminate (rest : system.AtRest phase k lists) (awake : system.Awake)
    (notCurrent : system.kernel.currentThread ≠ some t) (different : k ≠ t)
    (mayTerminate : system.MayTerminate t) {detached : ThreadSystem}
    (detaches : (system.setKernel (system.kernel.setState t .termed)).detachThread fuel t =
      some detached)
    (unlinks : detached.unlinkThread fuel t = some after) :
    ∃ lists', after.AtRest phase k lists' := by
  have notWaiting : ∀ owner, owner ≠ .ready → t ∉ lists owner := by
    intro owner notReady mem
    cases owner with
    | ready => exact notReady rfl
    | mutex m => exact mayTerminate.waiter m (rest.visits_iff.mpr mem)
    | process p => exact mayTerminate.awaiting p (rest.visits_iff.mpr mem)
  have termed : Tracks (system.kernel.setState t .termed) system.mutexes lists
      system.kernel.Active :=
    rest.tracks.setState notWaiting (fun _ => by simp)
  rcases @detachThread_ran _ _ lists t fuel _ termed detaches with
    ⟨lists', tracks, ran, _, quiet⟩
  have isTermed : ((system.kernel.setState t .termed).threads t).state = .termed :=
    Kernel.setState_state _ t .termed
  have others : ∀ owner, owner ≠ .ready → t ∉ lists' owner :=
    fun owner notReady mem => notWaiting owner notReady (ran.wakes.others owner notReady t mem)
  have cleared : (detached.kernel.setNext t none).HoldsLists detached.mutexes lists' := by
    apply tracks.holds.clearLast others
    intro mem
    have before : t ∈ lists .ready := by
      apply (ran.wakes.ready t mem).resolve_right
      exact fun blocked => absurd (isTermed.symm.trans blocked) (by simp)
    rcases mayTerminate.last (rest.visits_iff.mpr before) with ⟨isLast, noWaiter⟩
    have links : detached.kernel.nextOf = (system.kernel.setState t .termed).nextOf := by
      apply quiet
      intro p isProc
      apply noWaiter p
      simpa [ThreadSystem.setKernel, Kernel.setState] using isProc
    rw [links]
    simpa [Kernel.nextOf, Kernel.setState] using isLast
  have relinked := Kernel.Relinked.setNext detached.kernel t none
  have unlinked := tracks.withKernel cleared tracks.current relinked.state
  rcases Option.map_eq_some_iff.mp unlinks with ⟨removed, removes, rfl⟩
  rcases unlinked.takeFromReadyQueue removes with ⟨taken, removedRelinked⟩
  have same : Kernel.SameRoster system.kernel removed :=
    (Kernel.SameRoster.setState system.kernel t .termed).trans
      (ran.wakes.roster.trans (.of_relinked (relinked.trans removedRelinked)))
  have sameCurrent : removed.currentThread = system.kernel.currentThread :=
    removedRelinked.currentThread.trans (relinked.currentThread.trans ran.wakes.current)
  have states : ∀ u, (removed.threads u).state = (detached.kernel.threads u).state :=
    fun u => (removedRelinked.state u).trans (relinked.state u)
  have alive : ∀ u, u ≠ t → (system.kernel.threads u).state ≠ .termed →
      (removed.threads u).state ≠ .termed := by
    intro u other before
    rw [states, ne_eq, ran.wakes.termed_iff]
    exact fun isOver => before ((Kernel.setState_state_ne _ other _).symm.trans isOver)
  have forgotten : Tracks removed detached.mutexes
      (Function.update lists' .ready ((lists' .ready).erase t)) removed.Active := by
    apply taken.forget (cleared.notMem_erase others)
    · exact fun m isOwner => mayTerminate.owns m (ran.owners m t isOwner)
    · rwa [sameCurrent]
    · rintro other isOther ⟨listed, before⟩
      refine ⟨?_, alive other isOther before⟩
      rw [same.listed]
      exact listed
  refine ⟨_, ran.phase.trans rest.isPhase, ?_, forgotten, ?_⟩
  · have transferred := rest.roster.transfer same (alive k different rest.roster.alive)
    rwa [← same.listed] at transferred
  · intro u isCurrent mem
    replace isCurrent : system.kernel.currentThread = some u := sameCurrent.symm.trans isCurrent
    rw [Function.update_self] at mem
    rcases ran.wakes.ready u (List.mem_of_mem_erase mem) with before | blocked
    · exact rest.offQueue u isCurrent before
    · apply awake u isCurrent
      rw [← blocked]
      apply Eq.symm
      apply Kernel.setState_state_ne
      rintro rfl
      exact notCurrent isCurrent

theorem threadTerminate (rest : system.AtRest phase k lists) (awake : system.Awake)
    (isCurrent : system.kernel.currentThread = some c) {tid : ℕ}
    (mayTerminate : ∀ t, tid ≠ 0 → system.kernel.threadFromTid tid = some t →
      if system.kernel.currentThread = some t then system.MayExit t else system.MayTerminate t)
    (runs : system.threadTerminate fuel c tid = some after) :
    ∃ lists', after.AtRest phase k lists' := by
  simp only [ThreadSystem.threadTerminate] at runs
  split at runs
  · rw [← Option.some.inj runs]
    exact ⟨lists, rest⟩
  rename_i nonzero
  cases found : system.kernel.threadFromTid tid with
  | none =>
      simp only [found, Option.some.injEq] at runs
      rw [← runs]
      exact ⟨lists, rest⟩
  | some t =>
      have guard := mayTerminate t nonzero found
      simp only [found] at runs
      split at runs
      · rename_i same
        subst same
        rw [if_pos isCurrent] at guard
        exact rest.threadExit awake isCurrent guard runs
      rename_i different
      have notCurrent : system.kernel.currentThread ≠ some t := by
        rw [isCurrent]
        exact fun same => different (Option.some.inj same).symm
      rw [if_neg notCurrent] at guard
      rcases Option.bind_eq_some_iff.mp runs with ⟨detached, detaches, unlinks⟩
      exact rest.terminate awake notCurrent
        (by rintro rfl; exact nonzero ((Kernel.threadFromTid_tid found).symm.trans rest.roster.tid))
        guard detaches unlinks

/-! ## Freeing the threads that have ended -/

/-- A thread that has ended leaves the table. -/
theorem clearSlot (rest : system.AtRest phase k lists) (bound : slot < maxThreads)
    (isEntry : system.kernel.threadTable slot = some t)
    (dead : (system.kernel.threads t).state = .termed)
    (notMain : ∀ p, (system.kernel.processes p).mainThread ≠ some t) :
    (system.setKernel (KernelProgram.clearSlot slot t system.kernel)).AtRest phase k lists := by
  have strikes : Kernel.StrikesOff system.kernel t slot
      (KernelProgram.clearSlot slot t system.kernel) :=
    ⟨rfl, rfl, rfl, fun _ => rfl, fun _ => rfl⟩
  have before : ∀ u, (KernelProgram.clearSlot slot t system.kernel).Listed u →
      system.kernel.Listed u := by
    rintro u ⟨other, otherBound, otherEntry⟩
    exact ⟨other, otherBound, (strikes.entry otherEntry).2⟩
  have stays : ∀ u, u ≠ t → system.kernel.Listed u →
      (KernelProgram.clearSlot slot t system.kernel).Listed u := by
    rintro u different ⟨other, otherBound, otherEntry⟩
    refine ⟨other, otherBound, ?_⟩
    rw [strikes.table, Function.update_of_ne, otherEntry]
    rintro rfl
    exact different (Option.some.inj (otherEntry.symm.trans isEntry))
  refine ⟨rest.isPhase, ⟨rest.roster.toRoll.strikesOff bound isEntry dead strikes, ?_, ?_, ?_⟩, ?_,
    rest.offQueue⟩
  · exact fun u other listed otherListed =>
      rest.roster.tids u other (before u listed) (before other otherListed)
  · exact fun u listed => rest.roster.kernelStacks u (before u listed)
  · intro p u isMain
    rcases rest.roster.mains p u isMain with ⟨listed, isProc⟩
    refine ⟨stays u ?_ listed, isProc⟩
    rintro rfl
    exact notMain p isMain
  · have kept : Tracks (KernelProgram.clearSlot slot t system.kernel) system.mutexes lists
        system.kernel.Active :=
      rest.tracks.withKernel rest.tracks.holds rest.tracks.current (fun _ => rfl)
    apply kept.mono
    rintro u ⟨listed, alive⟩
    refine ⟨stays u ?_ listed, alive⟩
    rintro rfl
    exact alive dead

theorem cleanUpSlot (rest : system.AtRest phase k lists) (awake : system.Awake)
    (bound : slot < maxThreads) (runs : ThreadSystem.cleanUpSlot fuel system slot = some after) :
    ∃ lists', after.AtRest phase k lists' ∧ after.Awake := by
  simp only [ThreadSystem.cleanUpSlot] at runs
  split at runs
  · rw [← Option.some.inj runs]
    exact ⟨lists, rest, awake⟩
  rename_i t isEntry
  split at runs
  · rename_i dead
    rcases Option.bind_eq_some_iff.mp runs with ⟨removed, removes, reaps⟩
    have notReady : t ∉ lists .ready := fun mem => (rest.tracks.members _ t mem).2 dead
    rcases rest.tracks.holds.removeFromReadyQueue notReady removes
    rcases Option.map_eq_some_iff.mp reaps with ⟨detached, detaches, rfl⟩
    rcases @detachThread_ran system detached lists t fuel _ rest.tracks detaches with
      ⟨lists', tracks, ran, notMain, _⟩
    have restDetached := rest.ran awake ran tracks
    refine ⟨lists', restDetached.clearSlot bound ?_ ?_ ?_, ran.awake awake⟩
    · rw [ran.wakes.roster.table]
      exact isEntry
    · exact ran.wakes.termed_iff.mpr dead
    · exact notMain (fun p isMain => (rest.roster.mains p t isMain).2)
  · rw [← Option.some.inj runs]
    exact ⟨lists, rest, awake⟩

theorem cleanUpSlots {slots : List ℕ} (bounds : ∀ slot ∈ slots, slot < maxThreads)
    (rest : system.AtRest phase k lists) (awake : system.Awake)
    (runs : slots.foldlM (ThreadSystem.cleanUpSlot fuel) system = some after) :
    ∃ lists', after.AtRest phase k lists' ∧ after.Awake := by
  induction slots generalizing system lists with
  | nil =>
      rw [← Option.some.inj runs]
      exact ⟨lists, rest, awake⟩
  | cons slot slots ih =>
      rw [List.foldlM_cons] at runs
      rcases Option.bind_eq_some_iff.mp runs with ⟨middle, cleans, runs⟩
      rcases rest.cleanUpSlot awake (bounds slot List.mem_cons_self) cleans with
        ⟨lists', restMiddle, awakeMiddle⟩
      exact ih (fun other mem => bounds other (List.mem_cons_of_mem _ mem)) restMiddle awakeMiddle
        runs

theorem cleanUp (rest : system.AtRest phase k lists) (awake : system.Awake)
    (runs : system.cleanUp fuel = some after) : ∃ lists', after.AtRest phase k lists' ∧
    after.Awake :=
  rest.cleanUpSlots (fun _ mem => List.mem_range.mp mem) awake runs

end AtRest

/-! ## Whole runs -/

/-- An operation that the current thread calls. -/
theorem AtRest.call (rest : system.AtRest phase k lists) (awake : system.Awake)
    (isCurrent : system.kernel.currentThread = some c) {operation : ThreadOperation}
    (ends : system.EndsUnreferenced operation) (runs : system.call fuel c operation = some after) :
    ∃ lists', after.AtRest phase k lists' := by
  cases operation with
  | threadCreate request memory =>
      simp only [ThreadSystem.call] at runs
      split at runs
      · cases runs
      · rename_i fresh
        exact rest.threadCreate awake fresh ends runs
  | acquireMutex m =>
      rcases rest.acquire awake isCurrent runs with waits | ⟨_, held, _, _, restHeld, isHeld⟩
      · exact waits
      · rw [← Option.some.inj isHeld]
        exact ⟨lists, restHeld⟩
  | releaseMutex m =>
      rcases rest.release awake isCurrent runs with ⟨lists', restAfter, _⟩
      exact ⟨lists', restAfter⟩
  | processWait pid =>
      simp only [ThreadSystem.call] at runs
      exact rest.processWait awake isCurrent runs
  | threadTerminate tid => exact rest.threadTerminate awake isCurrent ends runs
  | threadExit => exact rest.threadExit awake isCurrent (ends c isCurrent) runs
  | cleanUp =>
      rcases rest.cleanUp awake runs with ⟨lists', restAfter, _⟩
      exact ⟨lists', restAfter⟩
  | resume => cases runs
  | tick context => cases runs
  | tickSelect => cases runs
  | tickConsider => cases runs
  | tickCleanUp => cases runs

/-- A call that goes on behind the point where it had to wait. -/
theorem AtRest.resume (rest : system.AtRest phase k lists) (awake : system.Awake)
    (isCurrent : system.kernel.currentThread = some c) {resumption : Resumption}
    (ends : resumption = .threadExit → system.MayExit c)
    (runs : system.resume fuel c resumption = some after) :
    ∃ lists', after.AtRest phase k lists' := by
  cases resumption with
  | outside => cases runs
  | acquireMutex m =>
      rcases rest.acquire awake isCurrent runs with waits | ⟨_, held, _, _, restHeld, isHeld⟩
      · exact waits
      · rw [← Option.some.inj isHeld]
        exact ⟨lists, restHeld⟩
  | waitForChild child index pid => exact rest.waitForChild awake isCurrent runs
  | collectChild child index pid => exact rest.collectChild awake isCurrent runs
  | threadExit => exact rest.threadExit awake isCurrent (ends rfl) runs

theorem AtRest.threadStep (rest : system.AtRest phase k lists)
    (isCurrent : system.kernel.currentThread = some c) {operation : ThreadOperation}
    (ends : system.EndsUnreferenced operation)
    (runs : system.threadStep fuel c operation = some after) :
    ∃ lists', after.AtRest phase k lists' := by
  simp only [ThreadSystem.threadStep] at runs
  split at runs
  · cases runs
  rename_i unblocked
  have awake : system.Awake := by
    intro t isCaller
    rcases Option.some.inj (isCurrent.symm.trans isCaller)
    exact unblocked
  split at runs
  · exact rest.call awake isCurrent ends runs
  · split at runs
    · exact rest.resume awake isCurrent (ends c isCurrent) runs
    · cases runs

/-- Every step where threads end unreferenced keeps the invariant. -/
theorem Sound.step (sound : system.Sound k lists) {operation : ThreadOperation}
    (ends : system.EndsUnreferenced operation) (step : ThreadStep system operation after) :
    ∃ lists', after.Sound k lists' := by
  rcases step with ⟨fuel, runs⟩
  simp only [ThreadSystem.perform] at runs
  split at runs
  · rename_i idle
    rcases Option.map_eq_some_iff.mp runs with ⟨kernel, saves, rfl⟩
    exact sound.tickPrologue idle saves
  · rename_i idle _
    rcases Option.bind_eq_some_iff.mp runs with ⟨current, isCurrent, steps⟩
    rcases (sound.atRest idle (.inl rfl)).threadStep isCurrent ends steps with ⟨lists', rest⟩
    exact ⟨lists', rest.sound⟩
  · rw [← Option.some.inj runs]
    exact sound.tickSelect
  · rename_i considering
    rcases Option.map_eq_some_iff.mp runs with ⟨⟨phase, kernel⟩, considers, rfl⟩
    exact sound.tickConsider considering considers
  · rename_i dispatched
    rcases Option.map_eq_some_iff.mp runs with ⟨cleaned, cleans, rfl⟩
    rcases (sound.atRest dispatched (.inr rfl)).cleanUp (sound.awake dispatched) cleans with
      ⟨lists', rest, _⟩
    exact ⟨lists', rest.roster, rest.tracks, fun _ => rest.offQueue, by simp, by simp⟩
  · cases runs

/-- Whatever is reachable is allocated. -/
theorem Sound.threadsLive (sound : system.Sound k lists) : system.ThreadsLive := by
  have onList : ∀ {owner : ListOwner} {t : ℕ}, t ∈ lists owner → t ∈ system.kernel.threadBlocks :=
    fun mem => sound.roster.allocated _ (sound.tracks.members _ _ mem).1
  have visited : ∀ {owner : ListOwner} {t : ℕ},
      system.kernel.Visits (listAnchors system.kernel system.mutexes owner).head t →
        t ∈ system.kernel.threadBlocks :=
    fun {owner _} visits =>
      onList ((SharedLists.linked sound.tracks.holds owner).visits_iff.mp visits)
  have isLast : ∀ {owner : ListOwner} {t : ℕ},
      (listAnchors system.kernel system.mutexes owner).tail = some t →
        t ∈ system.kernel.threadBlocks :=
    fun {owner _} isTail =>
      onList (@SharedLists.tail_mem _ _ _ _ _ owner _ sound.tracks.holds isTail)
  intro t reaches
  cases reaches with
  | ready visits => exact @visited .ready t visits
  | readyTail isTail => exact @isLast .ready t isTail
  | current isCurrent => exact sound.roster.allocated t (sound.tracks.current t isCurrent).1
  | owner m isOwner => exact sound.roster.allocated t (sound.tracks.owners m t isOwner).1
  | waiter m visits => exact @visited (.mutex m) t visits
  | waiterTail m isTail => exact @isLast (.mutex m) t isTail
  | awaiting p visits => exact @visited (.process p) t visits
  | waitTail p isTail => exact @isLast (.process p) t isTail
  | mainThread p isMain => exact sound.roster.allocated t (sound.roster.mains p t isMain).1
  | table slot bound listed => exact sound.roster.allocated t ⟨slot, bound, listed⟩

theorem Started.sound (started : system.Started) : ∃ k lists, system.Sound k lists := by
  rcases started.kernelThread with ⟨k, holds⟩
  rcases started.queue with ⟨queue, isQueue, queued⟩
  have roster : system.kernel.Roster k system.kernel.Listed :=
    ⟨⟨holds, started.slots, started.allocated, started.count⟩, started.populated.tids,
      started.populated.kernelStacks, started.mains⟩
  have isActive : ∀ t, system.kernel.Listed t → system.kernel.Active t :=
    fun t listed => ⟨listed, started.populated.alive t listed⟩
  refine ⟨k, Function.update (fun _ => []) .ready queue, ?_⟩
  have onQueue : ∀ {owner : ListOwner} {t : ℕ},
      t ∈ Function.update (fun _ => []) ListOwner.ready queue owner → owner = .ready ∧
        t ∈ queue := by
    intro owner t mem
    by_cases isReady : owner = .ready
    · subst isReady
      exact ⟨rfl, by simpa using mem⟩
    · simp [isReady] at mem
  have listsHeld : system.kernel.HoldsLists system.mutexes
      (Function.update (fun _ => []) .ready queue) := by
    refine ⟨fun owner => ?_, fun owner => ?_, fun first second node isFirst isSecond => ?_⟩
    · cases owner with
      | ready => simpa [listAnchors] using isQueue.linked
      | mutex m => simp [listAnchors, started.free m]
      | process p => simp [listAnchors, (started.unawaited p).1]
    · cases owner with
      | ready => simpa [listAnchors] using isQueue.tail
      | mutex m => simp [listAnchors, started.free m]
      | process p => simp [listAnchors, (started.unawaited p).2]
    · rw [(onQueue isFirst).1, (onQueue isSecond).1]
  refine AtRest.sound ⟨started.idle, roster, ⟨listsHeld, ?_, ?_, ?_, ?_, ?_, ?_⟩, ?_⟩
  · exact fun owner t mem => isActive t (queued t (onQueue mem).2).1
  · exact fun t mem => (queued t (onQueue mem).2).2.1
  · exact fun m t mem => absurd (onQueue mem).1 (by simp)
  · exact fun p t mem => absurd (onQueue mem).1 (by simp)
  · intro m t isOwner
    simp [started.free m] at isOwner
  · exact fun t isCurrent => isActive t (started.current t isCurrent)
  · exact fun t isCurrent mem => (queued t (onQueue mem).2).2.2 isCurrent

/-- No thread that has been freed is reachable, as long as threads end where nothing but the end
of the ready queue refers to them. -/
theorem freed_threads_unreachable {start last : ThreadSystem} {operations : List ThreadOperation}
    (started : start.Started)
    (run : Transition.Run (Transition.Guarded EndsUnreferenced ThreadStep) start operations last) :
    last.ThreadsLive := by
  rcases started.sound with ⟨k, lists, sound⟩
  have preserved : ∀ (before : ThreadSystem) operation after, (∃ lists, before.Sound k lists) →
      Transition.Guarded EndsUnreferenced ThreadStep before operation after →
        ∃ lists, after.Sound k lists := by
    rintro before operation after ⟨lists, sound⟩ ⟨ends, step⟩
    exact sound.step ends step
  rcases run.invariant preserved ⟨lists, sound⟩ with ⟨_, soundLast⟩
  exact soundLast.threadsLive

/-- The kernel thread is running and a thread of its own is ready. -/
def twoThreads : ThreadSystem where
  kernel :=
    { threads := fun t =>
        if t = 0x1000 then { state := .running, priority := .immediate } else { tid := 1 }
      processes := fun _ => {}
      threadBlocks := [0x1000, 0x1100]
      processBlocks := []
      readyHead := some 0x1100
      readyTail := some 0x1100
      currentThread := some 0x1000
      threadTable := fun slot =>
        if slot = 0 then some 0x1000 else if slot = 1 then some 0x1100 else none
      threadCount := 2
      nextTid := 2
      processTable := fun _ => none
      nextPid := 0 }
  phase := .idle
  mutexes := fun _ => {}
  resumption := fun _ => .outside

theorem twoThreads_entry {slot : ℕ} (isEntry : twoThreads.kernel.threadTable slot = some t) :
    slot = 0 ∧ t = 0x1000 ∨ slot = 1 ∧ t = 0x1100 := by
  simp only [twoThreads] at isEntry
  split at isEntry
  · rename_i first
    exact .inl ⟨first, (Option.some.inj isEntry).symm⟩
  · split at isEntry
    · rename_i second
      exact .inr ⟨second, (Option.some.inj isEntry).symm⟩
    · cases isEntry

theorem twoThreads_listed (listed : twoThreads.kernel.Listed t) : t = 0x1000 ∨ t = 0x1100 := by
  rcases listed with ⟨slot, _, isEntry⟩
  exact (twoThreads_entry isEntry).imp And.right And.right

theorem twoThreads_started : twoThreads.Started where
  idle := rfl
  free _ := rfl
  unawaited _ := ⟨rfl, rfl⟩
  blocks := by decide
  slots slot other t _ _ isFirst isSecond := by
    rcases twoThreads_entry isFirst with ⟨rfl, rfl⟩ | ⟨rfl, rfl⟩ <;>
      rcases twoThreads_entry isSecond with ⟨rfl, same⟩ | ⟨rfl, same⟩ <;> simp_all
  allocated t listed := by
    rcases twoThreads_listed listed with rfl | rfl <;> decide
  populated := by
    refine ⟨fun t other listed otherListed => ?_, fun t listed => ?_, fun t listed => ?_⟩
    · rcases twoThreads_listed listed with rfl | rfl <;>
        rcases twoThreads_listed otherListed with rfl | rfl <;> decide
    · rcases twoThreads_listed listed with rfl | rfl <;> decide
    · rcases twoThreads_listed listed with rfl | rfl <;> decide
  kernelThread := ⟨0x1000, rfl, by decide, rfl, rfl, by decide⟩
  count := by decide +kernel
  mains p t isMain := by cases isMain
  queue := by
    refine ⟨[0x1100], ⟨⟨rfl, rfl⟩, by decide, rfl⟩, fun t mem => ?_⟩
    rcases List.mem_singleton.mp mem
    exact ⟨⟨1, by decide, rfl⟩, by decide, by decide⟩
  current t isCurrent := by
    rcases Option.some.inj isCurrent
    exact ⟨0, by decide, rfl⟩

theorem not_visits_none {kernel : Kernel} : ¬kernel.Visits none t := by
  rintro ⟨visited, isSegment⟩
  cases visited with
  | nil => cases isSegment
  | cons first visited => cases isSegment.1

/-- A ready thread that is terminated and freed is gone. -/
theorem freed_threads_unreachable_terminated : ∃ last : ThreadSystem,
    Transition.Run (Transition.Guarded EndsUnreferenced ThreadStep) twoThreads
      [.threadTerminate 1, .cleanUp] last ∧ 0x1100 ∉ last.kernel.threadBlocks ∧
        last.ThreadsLive := by
  have follows : ((twoThreads.perform 8 (.threadTerminate 1)).bind
      (fun ended => ended.perform 8 .cleanUp)).any
        (fun last => 0x1100 ∉ last.kernel.threadBlocks) = true := by
    decide +kernel
  rcases (Option.any_eq_true _ _).mp follows with ⟨last, ends, freed⟩
  rcases Option.bind_eq_some_iff.mp ends with ⟨ended, terminates, cleans⟩
  have ends : twoThreads.EndsUnreferenced (.threadTerminate 1) := by
    intro t _ found
    have isThread : twoThreads.kernel.threadFromTid 1 = some 0x1100 := by decide +kernel
    rcases Option.some.inj (found.symm.trans isThread)
    exact ⟨fun _ => by simp [twoThreads], fun _ => not_visits_none, fun _ => not_visits_none,
      fun _ => ⟨rfl, fun _ _ => rfl⟩⟩
  have run : Transition.Run (Transition.Guarded EndsUnreferenced ThreadStep) twoThreads
      [.threadTerminate 1, .cleanUp] last :=
    .cons ⟨ends, 8, terminates⟩ (.cons ⟨trivial, 8, cleans⟩ (.nil last))
  exact ⟨last, run, by simpa using freed, freed_threads_unreachable twoThreads_started run⟩

/-- A thread that is terminated while it holds a mutex is its owner after it has been freed. -/
theorem freed_owner_reachable : twoThreads.Started ∧ 0x1100 ∈ twoThreads.kernel.threadBlocks ∧
    ∃ operations last, Transition.Run ThreadStep twoThreads operations last ∧
      0x1100 ∉ last.kernel.threadBlocks ∧ last.Reaches 0x1100 := by
  have follows : (Transition.follow (fun system operation => system.perform 8 operation) [.tick {},
      .tickSelect, .tickConsider, .tickCleanUp, .acquireMutex 0x7000, .tick {}, .tickSelect,
      .tickConsider, .tickCleanUp, .threadTerminate 1, .cleanUp] twoThreads).any (fun last =>
        0x1100 ∉ last.kernel.threadBlocks ∧
        (last.mutexes 0x7000).owner = some 0x1100) = true := by
    decide +kernel
  rcases (Option.any_eq_true _ _).mp follows with ⟨last, ends, holds⟩
  rw [decide_eq_true_eq] at holds
  have run := @Transition.run_of_follow _ _ _ ThreadStep
    (fun _ _ _ steps => ⟨8, steps⟩) _ _ _ ends
  exact ⟨twoThreads_started, by decide, _, last, run, holds.1, .owner 0x7000 holds.2⟩

end ThreadSystem

end Goshkik

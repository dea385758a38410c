import Goshkik.Scheduling.ThreadSound

/-!
# The tick of the thread system

During a tick the current thread may be on the ready queue, and the tick holds a thread that it
has taken off the queue or found in the table.
-/

namespace Goshkik

namespace Kernel

variable {kernel : Kernel} {t : ℕ}

/-- The thread that the tick falls back on is in the table and has not ended. -/
theorem tableChoice_active (chosen : kernel.tableChoice = some t) : kernel.Active t := by
  simp only [Kernel.tableChoice] at chosen
  split at chosen
  · rename_i found
    rcases Option.some.inj chosen
    rcases List.exists_of_findSome?_eq_some found with ⟨slot, mem, isEntry⟩
    rw [List.mem_range'_1] at mem
    rw [Option.filter_eq_some_iff, decide_eq_true_eq] at isEntry
    refine ⟨⟨slot, ?_, isEntry.1⟩, ?_⟩
    · simp only [maxThreads] at mem ⊢
      omega
    · simp [isEntry.2]
  · rw [Option.filter_eq_some_iff, decide_eq_true_eq] at chosen
    exact ⟨⟨0, by decide, chosen.1⟩, chosen.2⟩

end Kernel

namespace ThreadSystem

variable {system : ThreadSystem} {lists : ListOwner → List ℕ} {kernel : Kernel}
  {phase : TickPhase} {c k t next fuel : ℕ}

/-- The invariant between any two steps. -/
structure Sound (system : ThreadSystem) (k : ℕ) (lists : ListOwner → List ℕ) : Prop where
  roster : system.kernel.Roster k system.kernel.Listed
  tracks : Tracks system.kernel system.mutexes lists system.kernel.Active
  offQueue : system.phase = .idle ∨ system.phase = .dispatched →
    ∀ t, system.kernel.currentThread = some t → t ∉ lists .ready
  awake : system.phase = .dispatched → system.Awake
  held : ∀ t, system.phase = .considering t → system.kernel.Active t ∧ t ∉ lists .ready

theorem AtRest.sound (rest : system.AtRest .idle k lists) : system.Sound k lists where
  roster := rest.roster
  tracks := rest.tracks
  offQueue _ := rest.offQueue
  awake dispatched := absurd (rest.isPhase.symm.trans dispatched) (by simp)
  held t considering := absurd (rest.isPhase.symm.trans considering) (by simp)

namespace Sound

theorem atRest (sound : system.Sound k lists) (isPhase : system.phase = phase)
    (stops : phase = .idle ∨ phase = .dispatched) : system.AtRest phase k lists :=
  ⟨isPhase, sound.roster, sound.tracks, sound.offQueue (isPhase ▸ stops)⟩

/-- The tick goes on to take a thread. -/
theorem select (roster : kernel.Roster k kernel.Listed)
    (tracks : Tracks kernel system.mutexes lists kernel.Active) :
    { system with kernel := kernel, phase := .selecting }.Sound k lists :=
  ⟨roster, tracks, by simp, by simp, by simp⟩

/-- A thread that the tick holds and that is awake is on no list. -/
theorem absent (sound : system.Sound k lists) (notReady : t ∉ lists .ready)
    (awake : (system.kernel.threads t).state ≠ .blocked) : ∀ owner, t ∉ lists owner := by
  intro owner mem
  cases owner with
  | ready => exact notReady mem
  | mutex m => exact awake (sound.tracks.waiting m t mem)
  | process p => exact awake (sound.tracks.awaiting p t mem).1

/-- A thread goes to the end of the ready queue, and the tick goes on to take one. -/
theorem requeue (sound : system.Sound k lists) {changed : Kernel}
    (same : Kernel.SameRoster system.kernel changed)
    (termed : ∀ u, (changed.threads u).state = .termed ↔ (system.kernel.threads u).state = .termed)
    (tracks : Tracks changed system.mutexes lists system.kernel.Active)
    (absent : ∀ owner, t ∉ lists owner) (isActive : system.kernel.Active t)
    (awake : (changed.threads t).state ≠ .blocked)
    (runs : changed.enqueueReadyTail t = some kernel) :
    ∃ lists', { system with kernel := kernel, phase := .selecting }.Sound k lists' := by
  rcases tracks.enqueueReadyTail absent isActive awake runs with ⟨queued, relinked⟩
  rcases sound.roster.kept (same.trans (.of_relinked relinked))
    (fun u => by rw [relinked.state, termed]) queued with ⟨roster, kept⟩
  exact ⟨_, select roster kept⟩

theorem tickPrologue (sound : system.Sound k lists) (idle : system.phase = .idle)
    {context : Context} (runs : system.kernel.tickPrologue fuel context = some kernel) :
    ∃ lists', { system with kernel := kernel, phase := .selecting }.Sound k lists' := by
  simp only [Kernel.tickPrologue] at runs
  cases isCurrent : system.kernel.currentThread with
  | none =>
      simp only [isCurrent, Option.some.injEq] at runs
      rw [← runs]
      exact ⟨lists, select sound.roster sound.tracks⟩
  | some old =>
      simp only [isCurrent] at runs
      have notReady := sound.offQueue (.inl idle) old isCurrent
      have isActive := sound.tracks.current old isCurrent
      have same : Kernel.SameRoster system.kernel (system.kernel.modifyThread old (fun record =>
          { record with context := context })) :=
        .modifyThread system.kernel rfl rfl
      have states : ∀ t, ((system.kernel.modifyThread old (fun record =>
          { record with context := context })).threads t).state =
            (system.kernel.threads t).state := by
        intro t
        by_cases isOld : t = old
        · subst isOld
          rw [Kernel.modifyThread_threads_same]
        · rw [Kernel.modifyThread_threads_ne _ _ _ isOld]
      have saved : Tracks (system.kernel.modifyThread old (fun record =>
          { record with context := context })) system.mutexes lists system.kernel.Active :=
        sound.tracks.withKernel (sound.tracks.holds.modifyThread rfl) sound.tracks.current states
      generalize system.kernel.modifyThread old (fun record =>
          { record with context := context }) = changed at same states saved runs
      have resumed : (system.kernel.threads old).state ≠ .blocked →
          (changed.setState old .ready).enqueueReadyTail old = some kernel →
            ∃ lists', { system with kernel := kernel, phase := .selecting }.Sound k lists' := by
        intro awake enqueues
        have absent := sound.absent notReady awake
        have ready := @Tracks.setState _ _ _ _ old saved .ready (fun owner _ => absent owner)
          (fun _ => by simp)
        refine sound.requeue (same.trans (.setState _ old .ready)) (fun u =>
          ?_) ready absent isActive
          (by simp [Kernel.setState_state]) enqueues
        by_cases isOld : u = old
        · subst isOld
          simp [Kernel.setState_state, isActive.2]
        · rw [Kernel.setState_state_ne _ isOld, states]
      cases state : (system.kernel.threads old).state with
      | running =>
          rw [state] at runs
          exact resumed (by simp [state]) runs
      | ready =>
          rw [state] at runs
          exact resumed (by simp [state]) runs
      | blocked =>
          simp only [state, Option.map_eq_some_iff] at runs
          rcases runs with ⟨removed, removes, rfl⟩
          rcases saved.holds.removeFromReadyQueue notReady removes
          have cleared : Tracks { changed with currentThread := none } system.mutexes lists
              system.kernel.Active :=
            saved.withKernel saved.holds (by simp) (fun _ => rfl)
          rcases sound.roster.kept (same.trans (.setCurrent changed none))
            (fun u => by simp only [states]) cleared with ⟨roster, kept⟩
          exact ⟨lists, select roster kept⟩
      | termed => exact absurd state isActive.2

theorem tickSelect (sound : system.Sound k lists) :
    ∃ lists', { system with
      kernel := system.kernel.tickSelect.2
      phase := system.kernel.tickSelect.1 }.Sound k lists' := by
  have linked := SharedLists.linked sound.tracks.holds .ready
  cases isList : lists .ready with
  | nil =>
      rw [isList] at linked
      have isHead : system.kernel.readyHead = none := linked
      simp only [Kernel.tickSelect, isHead]
      cases chosen : system.kernel.tableChoice with
      | none =>
          refine ⟨lists, sound.roster, sound.tracks, ?_, by simp, by simp⟩
          intro _ t _
          simp [isList]
      | some t =>
          refine ⟨lists, sound.roster, sound.tracks, by simp, by simp, ?_⟩
          intro held isHeld
          rcases TickPhase.considering.inj isHeld
          exact ⟨Kernel.tableChoice_active chosen, by simp [isList]⟩
  | cons head rest =>
      have isHead : system.kernel.readyHead = some head :=
        SharedLists.head_eq sound.tracks.holds isList
      have distinct := linked.nodup
      rw [isList, List.nodup_cons] at distinct
      rcases sound.tracks.dequeueReadyHead isList with ⟨tracks, relinked⟩
      rcases sound.roster.kept (.of_relinked relinked) (fun u => by rw [relinked.state]) tracks with
        ⟨roster, kept⟩
      have isActive : (system.kernel.dequeueReadyHead head).Active head := by
        rw [(Kernel.SameRoster.of_relinked relinked).active (fun u => by rw [relinked.state])]
        exact sound.tracks.members .ready head (by simp [isList])
      simp only [Kernel.tickSelect, isHead]
      refine ⟨_, roster, kept, ?_, ?_, ?_⟩
      · simp only
        split <;> simp
      · simp only
        split <;> simp
      · intro held isHeld
        simp only at isHeld
        split at isHeld
        · cases isHeld
        · rcases TickPhase.considering.inj isHeld
          exact ⟨isActive, by simpa using distinct.1⟩

theorem tickConsider (sound : system.Sound k lists) (considering : system.phase = .considering next)
    (runs : system.kernel.tickConsider fuel next = some (phase, kernel)) :
    ∃ lists', { system with kernel := kernel, phase := phase }.Sound k lists' := by
  rcases sound.held next considering with ⟨isActive, notReady⟩
  simp only [Kernel.tickConsider] at runs
  split at runs
  · rcases Option.map_eq_some_iff.mp runs with ⟨removed, removes, isAnswer⟩
    rcases Prod.mk.inj isAnswer with ⟨rfl, rfl⟩
    rcases sound.tracks.holds.removeFromReadyQueue notReady removes
    exact ⟨lists, select sound.roster sound.tracks⟩
  rename_i runnable
  rw [not_or] at runnable
  have absent := sound.absent notReady runnable.1
  have cools : ∀ cooldown : Thread → ℤ,
      Kernel.SameRoster system.kernel (system.kernel.modifyThread next (fun record =>
        { record with cooldown := cooldown record })) ∧
      (∀ t, ((system.kernel.modifyThread next (fun record =>
        { record with cooldown := cooldown record })).threads t).state =
          (system.kernel.threads t).state) ∧
      Tracks (system.kernel.modifyThread next (fun record =>
        { record with cooldown := cooldown record })) system.mutexes lists
          system.kernel.Active := by
    intro cooldown
    have states : ∀ t, ((system.kernel.modifyThread next (fun record =>
        { record with cooldown := cooldown record })).threads t).state =
          (system.kernel.threads t).state := by
      intro t
      by_cases same : t = next
      · subst same
        rw [Kernel.modifyThread_threads_same]
      · rw [Kernel.modifyThread_threads_ne _ _ _ same]
    exact ⟨.modifyThread system.kernel rfl rfl, states, sound.tracks.withKernel
      (sound.tracks.holds.modifyThread rfl) sound.tracks.current states⟩
  split at runs
  · rcases Option.map_eq_some_iff.mp runs with ⟨queued, queues, isAnswer⟩
    rcases Prod.mk.inj isAnswer with ⟨rfl, rfl⟩
    rcases cools (fun record => record.cooldown - 1) with ⟨same, states, cooled⟩
    exact sound.requeue same (fun u => by rw [states]) cooled absent isActive
      (by rw [states]; exact runnable.1) queues
  split at runs
  · rename_i stackless
    exact absurd stackless.2 (sound.roster.kernelStacks next isActive.1 stackless.1)
  rcases Prod.mk.inj (Option.some.inj runs) with ⟨rfl, rfl⟩
  rcases cools (fun record => priorityToStride record.priority - 1) with ⟨same, states, cooled⟩
  generalize system.kernel.modifyThread next (fun record =>
    { record with cooldown := priorityToStride record.priority - 1 }) =
      changed at same states cooled
  have chosen : Tracks { changed with currentThread := some next } system.mutexes lists
      system.kernel.Active := by
    refine cooled.withKernel cooled.holds (fun t isCurrent => ?_) (fun _ => rfl)
    rcases Option.some.inj isCurrent
    exact isActive
  have dispatched := @Tracks.setState _ _ _ _ next chosen .running (fun owner _ => absent owner)
    (fun _ => by simp)
  have termed : ∀ u, (({ changed with currentThread := some next }.setState next .running).threads
      u).state = .termed ↔ (system.kernel.threads u).state = .termed := by
    intro u
    by_cases isNext : u = next
    · subst isNext
      simp [Kernel.setState_state, isActive.2]
    · rw [Kernel.setState_state_ne _ isNext]
      exact iff_of_eq (congrArg (· = ThreadState.termed) (states u))
  rcases sound.roster.kept ((same.trans (.setCurrent changed (some next))).trans
    (.setState _ next .running)) termed dispatched with ⟨roster, kept⟩
  refine ⟨lists, roster, kept, ?_, ?_, by simp⟩
  · rintro _ t isCurrent
    rcases Option.some.inj isCurrent
    exact notReady
  · rintro _ t isCurrent
    rcases Option.some.inj isCurrent
    exact fun blocked =>
      absurd ((Kernel.setState_state _ next .running).symm.trans blocked) (by simp)

end Sound

end ThreadSystem

end Goshkik

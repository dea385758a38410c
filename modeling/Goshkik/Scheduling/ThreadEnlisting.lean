import Goshkik.Scheduling.ThreadSound

/-!
# Threads that are created

Between the block that `kmalloc` hands out for it and its slot of the thread table a new
thread is known only to the process that it joins.  It is put on the ready queue last.
-/

namespace Goshkik

namespace Kernel

variable {kernel after : Kernel} {t p k : ℕ} {request : ThreadRequest} {memory : ThreadMemory}

theorem newThread_threads_ne {u : ℕ} (different : u ≠ memory.thread) :
    (KernelProgram.newThread request memory kernel).threads u = kernel.threads u :=
  modifyThread_threads_ne _ _ _ different

theorem newThread_threads_same :
    (KernelProgram.newThread request memory kernel).threads memory.thread =
      request.thread memory kernel.nextTid :=
  modifyThread_threads_same _ _ _

/-- A thread of the table is not in a block that is handed out. -/
theorem Roster.ne_of_listed {present : ℕ → Prop} (roster : kernel.Roster k present)
    (fresh : t ∉ kernel.threadBlocks) {u : ℕ} (listed : kernel.Listed u) : u ≠ t := by
  rintro rfl
  exact fresh (roster.allocated u listed)

theorem Roster.newThread (roster : kernel.Roster k kernel.Listed)
    (fresh : memory.thread ∉ kernel.threadBlocks) :
    (KernelProgram.newThread request memory kernel).Roster k kernel.Listed := by
  have others : ∀ u, kernel.Listed u →
      (KernelProgram.newThread request memory kernel).threads u = kernel.threads u :=
    fun u listed => newThread_threads_ne (roster.ne_of_listed fresh listed)
  have first : kernel.Listed k := ⟨0, by decide, roster.slot⟩
  refine ⟨⟨⟨roster.slot, List.mem_cons_of_mem _ roster.block, ?_, ?_, ?_⟩, roster.slots, ?_,
    roster.count⟩, ?_, ?_, ?_⟩
  · rw [others k first]
    exact roster.tid
  · rw [others k first]
    exact roster.privilege
  · rw [others k first]
    exact roster.alive
  · exact fun u listed => List.mem_cons_of_mem _ (roster.allocated u listed)
  · intro u other listed otherListed
    rw [others u listed, others other otherListed]
    exact roster.tids u other listed otherListed
  · intro u listed
    rw [others u listed]
    exact roster.kernelStacks u listed
  · intro q u isMain
    have main := roster.mains q u isMain
    rw [others u main.1]
    exact main

theorem processAddThread_threads_ne {u : ℕ} (different : u ≠ t) :
    (kernel.processAddThread p t).threads u = kernel.threads u := by
  simp [Kernel.processAddThread, Kernel.modifyProcess, Kernel.modifyThread, different]

theorem processAddThread_main {q u : ℕ}
    (isMain : ((kernel.processAddThread p t).processes q).mainThread = some u) :
    (kernel.processes q).mainThread = some u ∨ q = p ∧ u = t := by
  by_cases same : q = p
  · subst same
    cases before : (kernel.processes q).mainThread with
    | none =>
        right
        simpa [Kernel.processAddThread, Kernel.modifyProcess, Kernel.modifyThread, before,
          eq_comm] using isMain
    | some main =>
        left
        simpa [Kernel.processAddThread, Kernel.modifyProcess, Kernel.modifyThread, before]
          using isMain
  · left
    simpa [Kernel.processAddThread, Kernel.modifyProcess, Kernel.modifyThread, same] using isMain

theorem SameRoll.processAddThread (kernel : Kernel) (p t : ℕ) :
    SameRoll kernel (kernel.processAddThread p t) := by
  have owned : SameRoll kernel (kernel.modifyThread t (fun record =>
      { record with oPid := ((kernel.processes p).pid % 2 ^ 32).toNat, proc := some p })) :=
    .modifyThread rfl
  exact owned.trans (.rest rfl rfl rfl rfl)

/-- A process may get the new thread as its main thread. -/
theorem Roster.processAddThread (roster : kernel.Roster k kernel.Listed)
    (absent : ¬kernel.Listed t) :
    (kernel.processAddThread p t).Roster k (fun u => kernel.Listed u ∨ u = t) := by
  have others : ∀ u, kernel.Listed u →
      (kernel.processAddThread p t).threads u = kernel.threads u := by
    intro u listed
    apply processAddThread_threads_ne
    rintro rfl
    exact absent listed
  have first : kernel.Listed k := ⟨0, by decide, roster.slot⟩
  refine ⟨roster.toRoll.sameRoll (.processAddThread kernel p t)
    ⟨roster.slot, roster.block, ?_, ?_, ?_⟩, ?_, ?_, ?_⟩
  · rw [others k first]
    exact roster.tid
  · rw [others k first]
    exact roster.privilege
  · rw [others k first]
    exact roster.alive
  · intro u other listed otherListed
    rw [others u listed, others other otherListed]
    exact roster.tids u other listed otherListed
  · intro u listed
    rw [others u listed]
    exact roster.kernelStacks u listed
  · intro q u isMain
    rcases processAddThread_main isMain with before | ⟨rfl, rfl⟩
    · have main := roster.mains q u before
      rw [others u main.1]
      exact ⟨.inl main.1, main.2⟩
    · refine ⟨.inr rfl, ?_⟩
      simp [Kernel.processAddThread, Kernel.modifyProcess, Kernel.modifyThread]

theorem processAddThread_state (kernel : Kernel) (p t u : ℕ) :
    ((kernel.processAddThread p t).threads u).state = (kernel.threads u).state := by
  by_cases same : u = t
  · subst same
    simp [Kernel.processAddThread, Kernel.modifyProcess, Kernel.modifyThread]
  · rw [processAddThread_threads_ne same]

end Kernel

namespace ThreadSystem

variable {system after : ThreadSystem} {phase : TickPhase} {lists lists' : ListOwner → List ℕ}
  {k t fuel : ℕ} {request : ThreadRequest} {memory : ThreadMemory} {active : ℕ → Prop}

/-- The new thread joins its process, if there is one. -/
theorem attachThread_ran {ownerPid : ℤ} (tracks : Tracks system.kernel system.mutexes lists active)
    (absent : ∀ owner, t ∉ lists owner) (runs : system.attachThread fuel t ownerPid = some after) :
    ∃ joined lists', (joined = system.kernel ∨ ∃ p, joined = system.kernel.processAddThread p t) ∧
      Tracks after.kernel after.mutexes lists' active ∧
      Section (system.setKernel joined) lists after lists' ∧
      after.kernel.nextOf t = system.kernel.nextOf t := by
  unfold ThreadSystem.attachThread at runs
  generalize system.kernel.processFromPid ownerPid = found at runs
  cases found with
  | none =>
      rcases Option.some.inj runs
      exact ⟨_, lists, .inl rfl, tracks, ⟨.refl _ lists, rfl, fun _ _ => id⟩, rfl⟩
  | some p =>
      rcases locked_cases runs with ⟨free, kernel, effects, releases⟩
      rcases Option.some.inj effects
      have owned : (system.kernel.modifyThread t (fun record =>
          { record with
            oPid := ((system.kernel.processes p).pid % 2 ^ 32).toNat
            proc := some p })).HoldsLists system.mutexes lists :=
        tracks.holds.modifyThread rfl
      have joined : Tracks (system.kernel.processAddThread p t) system.mutexes lists active :=
        tracks.withKernel (owned.modifyProcess rfl rfl) tracks.current
          (Kernel.processAddThread_state system.kernel p t)
      rcases @section_of_release system after lists p fuel _ _ joined free rfl releases with
        ⟨lists', tracksAfter, ran, _, links⟩
      refine ⟨_, lists', .inr ⟨p, rfl⟩, tracksAfter, ran, (links t absent).trans ?_⟩
      simp [Kernel.nextOf, Kernel.processAddThread, Kernel.modifyProcess, Kernel.modifyThread]

/-- A new thread that is ready and in no slot yet, with an id of its own.  No list leads to it,
and nothing but the main thread of a process is it. -/
structure Arrived (system : ThreadSystem) (phase : TickPhase) (k t : ℕ)
    (lists : ListOwner → List ℕ) : Prop where
  isPhase : system.phase = phase
  roster : system.kernel.Roster k (fun u => system.kernel.Listed u ∨ u = t)
  tracks : Tracks system.kernel system.mutexes lists system.kernel.Active
  unlisted : ¬system.kernel.Listed t
  allocated : t ∈ system.kernel.threadBlocks
  free : system.kernel.freeThreadSlot ≠ none
  isReady : (system.kernel.threads t).state = .ready
  stop : system.kernel.nextOf t = none
  named : ∀ u, system.kernel.Listed u →
    (system.kernel.threads u).tid ≠ (system.kernel.threads t).tid
  kernelStack : (system.kernel.threads t).privilege = .ring3 →
    (system.kernel.threads t).kernelStack ≠ 0
  offQueue : ∀ u, system.kernel.currentThread = some u → u ∉ lists .ready

/-- The new thread gets its slot. -/
theorem Arrived.claim {slot : ℕ} (arrived : system.Arrived phase k t lists)
    (found : system.kernel.freeThreadSlot = some slot) :
    (system.setKernel (system.kernel.claimThreadSlot slot t)).AtRest phase k lists ∧
      (system.kernel.claimThreadSlot slot t).Listed t := by
  rcases Kernel.freeThreadSlot_spec found with ⟨notFirst, bound, empty⟩
  have enters : ∀ u, (system.kernel.claimThreadSlot slot t).Listed u →
      u = t ∨ system.kernel.Listed u := by
    rintro u ⟨other, otherBound, isEntry⟩
    rcases Kernel.entry_update_some rfl isEntry with ⟨_, isNew⟩ | ⟨_, before⟩
    · exact .inl isNew
    · exact .inr ⟨other, otherBound, before⟩
  have stays : ∀ u, u = t ∨ system.kernel.Listed u →
      (system.kernel.claimThreadSlot slot t).Listed u := by
    rintro u (rfl | ⟨other, otherBound, isEntry⟩)
    · exact ⟨slot, bound, Function.update_self _ _ _⟩
    · refine ⟨other, otherBound, (Function.update_of_ne ?_ _ _).trans isEntry⟩
      rintro rfl
      exact absurd (isEntry.symm.trans empty) (by simp)
  refine ⟨⟨arrived.isPhase, ⟨arrived.roster.toRoll.claims arrived.unlisted found rfl ?_ rfl
    (arrived.roster.toHoldsKernelThread.rest rfl ?_ arrived.roster.block), ?_, ?_, ?_⟩, ?_,
    arrived.offQueue⟩, stays t (.inl rfl)⟩
  · rintro u (rfl | mem)
    · exact arrived.allocated
    · exact mem
  · exact (Function.update_of_ne notFirst.symm _ _).trans arrived.roster.slot
  · intro u other listed otherListed same
    rcases enters u listed with rfl | before <;> rcases enters other otherListed with rfl | old
    · rfl
    · exact absurd same.symm (arrived.named other old)
    · exact absurd same (arrived.named u before)
    · exact arrived.roster.tids u other before old same
  · intro u listed
    rcases enters u listed with rfl | before
    · exact arrived.kernelStack
    · exact arrived.roster.kernelStacks u before
  · intro p u isMain
    rcases arrived.roster.mains p u isMain with ⟨present, isProc⟩
    exact ⟨stays u present.symm, isProc⟩
  · have kept : Tracks (system.kernel.claimThreadSlot slot t) system.mutexes lists
        system.kernel.Active :=
      arrived.tracks.withKernel arrived.tracks.holds arrived.tracks.current (fun _ => rfl)
    exact kept.mono (fun u isActive => ⟨stays u (.inr isActive.1), isActive.2⟩)

/-- A thread that is awake and on no list goes to the end of the ready queue. -/
theorem AtRest.enqueueReadyTail {kernel : Kernel} (rest : system.AtRest phase k lists)
    (absent : ∀ owner, t ∉ lists owner) (isActive : system.kernel.Active t)
    (awake : (system.kernel.threads t).state ≠ .blocked)
    (notCurrent : system.kernel.currentThread ≠ some t)
    (runs : system.kernel.enqueueReadyTail t = some kernel) :
    ∃ lists', (system.setKernel kernel).AtRest phase k lists' := by
  rcases rest.tracks.enqueueReadyTail absent isActive awake runs with ⟨tracks, relinked⟩
  rcases rest.roster.kept (.of_relinked relinked) (fun u => by rw [relinked.state]) tracks with
    ⟨roster, kept⟩
  refine ⟨_, rest.isPhase, roster, kept, fun u isCurrent mem => ?_⟩
  replace isCurrent := relinked.currentThread.symm.trans isCurrent
  rcases SharedLists.mem_update_append.mp mem with before | ⟨rfl, _⟩
  · exact rest.offQueue u isCurrent before
  · exact notCurrent isCurrent

/-- The new thread gets its slot and goes to the end of the ready queue. -/
theorem Arrived.enlist (arrived : system.Arrived phase k t lists)
    (runs : system.enlist t = some after) : ∃ lists', after.AtRest phase k lists' := by
  simp only [ThreadSystem.enlist] at runs
  cases found : system.kernel.freeThreadSlot with
  | none => exact absurd found arrived.free
  | some slot =>
      simp only [found, Option.map_eq_some_iff] at runs
      rcases runs with ⟨queued, appends, rfl⟩
      rcases arrived.claim found with ⟨rest, listed⟩
      have isReady : ((system.kernel.claimThreadSlot slot t).threads t).state = .ready :=
        arrived.isReady
      rw [Kernel.appendReady_eq (by exact arrived.stop)] at appends
      rcases rest.enqueueReadyTail
        (fun owner mem => arrived.unlisted (arrived.tracks.members owner t mem).1)
        ⟨listed, fun dead => absurd (isReady.symm.trans dead) (by simp)⟩
        (fun blocked => absurd (isReady.symm.trans blocked) (by simp))
        (fun isCurrent => arrived.unlisted (arrived.tracks.current t isCurrent).1) appends with
        ⟨lists', restAfter⟩
      exact ⟨lists', restAfter.setResumption t .outside⟩

namespace AtRest

/-- The new thread joins its process, and is otherwise on its own. -/
theorem arrives (rest : system.AtRest phase k lists) (awake : system.Awake)
    (fresh : memory.thread ∉ system.kernel.threadBlocks)
    (builds : system.kernel.Builds request memory)
    (named : ∀ t, system.kernel.Listed t →
      (system.kernel.threads t).tid ≠ system.kernel.nextTid) {attached : ThreadSystem}
    (attaches : (system.setKernel
      (KernelProgram.newThread request memory system.kernel)).attachThread
      fuel memory.thread (pidOfOwner request.ownerPid) = some attached) :
    ∃ lists', attached.Arrived phase k memory.thread lists' := by
  have notListed : ¬system.kernel.Listed memory.thread :=
    fun listed => fresh (rest.roster.allocated _ listed)
  have absent : ∀ owner, memory.thread ∉ lists owner :=
    fun owner mem => notListed (rest.tracks.members owner _ mem).1
  have others : ∀ u, u ≠ memory.thread →
      (KernelProgram.newThread request memory system.kernel).threads u = system.kernel.threads u :=
    fun u different => Kernel.newThread_threads_ne different
  have holds : (KernelProgram.newThread request memory system.kernel).HoldsLists system.mutexes
      lists := by
    refine SharedLists.congr rest.tracks.holds rfl (fun owner node mem => ?_)
    apply congrArg Thread.next
    apply others
    rintro rfl
    exact absent owner mem
  have created : Tracks (KernelProgram.newThread request memory system.kernel) system.mutexes lists
      system.kernel.Active := by
    refine rest.tracks.congr holds rest.tracks.current (fun owner u mem => ?_)
    rw [others]
    rintro rfl
    exact absent owner mem
  rcases @attachThread_ran (system.setKernel (KernelProgram.newThread request memory system.kernel))
    attached lists memory.thread fuel _ _ created absent attaches with
    ⟨joined, lists', isJoined, tracks, ran, links⟩
  have newRoster := @Kernel.Roster.newThread _ k request memory rest.roster fresh
  have joinedRoster : joined.Roster k (fun u => system.kernel.Listed u ∨ u = memory.thread) := by
    rcases isJoined with rfl | ⟨p, rfl⟩
    · exact newRoster.mono (fun _ _ _ listed => .inl listed)
    · exact newRoster.processAddThread notListed
  have joinedRoll :
      Kernel.SameRoll (KernelProgram.newThread request memory system.kernel) joined := by
    rcases isJoined with rfl | ⟨p, rfl⟩
    · exact .refl _
    · exact .processAddThread _ p memory.thread
  have joinedStates : ∀ u, (joined.threads u).state =
      ((KernelProgram.newThread request memory system.kernel).threads u).state := by
    rcases isJoined with rfl | ⟨p, rfl⟩
    · exact fun _ => rfl
    · exact Kernel.processAddThread_state _ p memory.thread
  have joinedCurrent : joined.currentThread = system.kernel.currentThread := by
    rcases isJoined with rfl | ⟨p, rfl⟩ <;> rfl
  have same := joinedRoll.trans ran.wakes.roster.toSameRoll
  have listed : attached.kernel.Listed = system.kernel.Listed := same.listed
  have isReady : (joined.threads memory.thread).state = .ready := by
    rw [joinedStates, Kernel.newThread_threads_same]
    rfl
  have states : ∀ u, u ≠ memory.thread →
      (joined.threads u).state = (system.kernel.threads u).state := by
    intro u different
    rw [joinedStates, others u different]
  constructor
  constructor
  case isPhase => exact ran.phase.trans rest.isPhase
  case roster =>
    rw [listed]
    apply joinedRoster.transfer ran.wakes.roster
    rw [ne_eq, ran.wakes.termed_iff]
    exact joinedRoster.alive
  case tracks =>
    apply tracks.mono
    rintro u ⟨isListed, alive⟩
    rw [Kernel.Active, listed, ne_eq, ran.wakes.termed_iff]
    refine ⟨isListed, ?_⟩
    change ¬(joined.threads u).state = .termed
    rw [states u (rest.roster.ne_of_listed fresh isListed)]
    exact alive
  case unlisted =>
    rw [listed]
    exact notListed
  case allocated =>
    rw [same.blocks]
    exact List.mem_cons_self
  case free =>
    have table : attached.kernel.freeThreadSlot = system.kernel.freeThreadSlot := by
      unfold Kernel.freeThreadSlot
      rw [same.table]
      rfl
    rw [table]
    exact rest.roster.freeThreadSlot_ne_none builds
  case isReady =>
    rw [ran.wakes.awake]
    · exact isReady
    · change (joined.threads memory.thread).state ≠ .blocked
      simp [isReady]
  case stop =>
    rw [links]
    change ((KernelProgram.newThread request memory system.kernel).threads memory.thread).next =
      none
    rw [Kernel.newThread_threads_same]
    rfl
  case named =>
    intro u isListed
    rw [listed] at isListed
    rw [same.tid, same.tid, Kernel.newThread_threads_same,
      others u (rest.roster.ne_of_listed fresh isListed)]
    exact named u isListed
  case kernelStack =>
    rw [same.privilege, same.kernelStack, Kernel.newThread_threads_same]
    intro isRing3
    have hasStack := builds.2
    simp only [ThreadRequest.thread] at isRing3 ⊢
    simp only [ThreadRequest.lacksStack, isRing3, decide_true, Bool.true_and, Bool.or_eq_false_iff,
      decide_eq_false_iff_not] at hasStack
    rw [if_pos isRing3]
    exact hasStack.2
  case offQueue =>
    intro u isCurrent mem
    rw [ran.wakes.current] at isCurrent
    replace isCurrent : system.kernel.currentThread = some u := joinedCurrent.symm.trans isCurrent
    rcases ran.wakes.ready u mem with before | blocked
    · exact rest.offQueue u isCurrent before
    · apply awake u isCurrent
      rw [← states u (rest.roster.ne_of_listed fresh (rest.listed isCurrent))]
      exact blocked

theorem threadCreate (rest : system.AtRest phase k lists) (awake : system.Awake)
    (fresh : memory.thread ∉ system.kernel.threadBlocks)
    (named : system.kernel.Builds request memory → ∀ t, system.kernel.Listed t →
      (system.kernel.threads t).tid ≠ system.kernel.nextTid)
    (runs : system.threadCreate fuel request memory = some after) :
    ∃ lists', after.AtRest phase k lists' := by
  simp only [ThreadSystem.threadCreate] at runs
  split at runs
  · rw [← Option.some.inj runs]
    exact ⟨lists, rest⟩
  rename_i enough
  split at runs
  · rw [← Option.some.inj runs]
    exact ⟨lists, rest.setKernel ⟨.rest rfl rfl rfl rfl, fun _ => rfl, fun _ _ => id⟩
      rest.tracks.holds rfl (fun _ => rfl)⟩
  rename_i hasStack
  have builds : system.kernel.Builds request memory := ⟨enough, by simpa using hasStack⟩
  rcases Option.bind_eq_some_iff.mp runs with ⟨attached, attaches, enlists⟩
  rcases rest.arrives awake fresh builds (named builds) attaches with ⟨lists', arrived⟩
  exact arrived.enlist enlists

end AtRest

end ThreadSystem

end Goshkik

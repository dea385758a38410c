import Goshkik.Scheduling.Isolation
import Goshkik.Scheduling.ThreadSystem
import Goshkik.Scheduling.WakeWaiters

/-!
# The roll of the threads

Only `thread_create` and `clean_up` write the thread table, the count of the threads and the
fields of a thread that are set once.  `SameRoll` says so of the other operations, and `Roll`
is what the table, the count and the kernel thread have to do with each other.
-/

namespace Goshkik

/-- A thread without the fields that change while it exists. -/
def Thread.identity (thread : Thread) : Thread :=
  { thread with
    oPid := 0
    proc := none
    state := .ready
    context := {}
    cooldown := 0
    next := none }

namespace Kernel

structure SameRoll (before after : Kernel) : Prop where
  table : after.threadTable = before.threadTable
  blocks : after.threadBlocks = before.threadBlocks
  count : after.threadCount = before.threadCount
  identity : ∀ t, (after.threads t).identity = (before.threads t).identity

variable {kernel middle after : Kernel} {t p wanted fuel : ℕ}

theorem Relinked.identity (relinked : Relinked kernel after) (t : ℕ) :
    (after.threads t).identity = (kernel.threads t).identity :=
  (congrArg Thread.identity (relinked.records t) :)

namespace SameRoll

theorem refl (kernel : Kernel) : SameRoll kernel kernel := ⟨rfl, rfl, rfl, fun _ => rfl⟩

theorem trans (first : SameRoll kernel middle) (second : SameRoll middle after) :
    SameRoll kernel after where
  table := second.table.trans first.table
  blocks := second.blocks.trans first.blocks
  count := second.count.trans first.count
  identity t := (second.identity t).trans (first.identity t)

theorem tid (same : SameRoll kernel after) (t : ℕ) :
    (after.threads t).tid = (kernel.threads t).tid := by
  simpa [Thread.identity] using congrArg Thread.tid (same.identity t)

theorem listed (same : SameRoll kernel after) : after.Listed = kernel.Listed := by
  unfold Listed
  rw [same.table]

theorem of_relinked (relinked : Relinked kernel after) : SameRoll kernel after where
  table := relinked.threadTable
  blocks := relinked.threadBlocks
  count := (congrArg Kernel.threadCount relinked.rest :)
  identity := relinked.identity

/-- Writing fields of a thread that change while it exists. -/
theorem modifyThread {change : Thread → Thread}
    (identity : (change (kernel.threads t)).identity = (kernel.threads t).identity) :
    SameRoll kernel (kernel.modifyThread t change) := by
  refine ⟨rfl, rfl, rfl, fun other => ?_⟩
  by_cases same : other = t
  · subst same
    rw [modifyThread_threads_same, identity]
  · rw [modifyThread_threads_ne _ _ _ same]

theorem setState (kernel : Kernel) (t : ℕ) (state : ThreadState) :
    SameRoll kernel (kernel.setState t state) :=
  modifyThread rfl

theorem setNext (kernel : Kernel) (t : ℕ) (link : Option ℕ) :
    SameRoll kernel (kernel.setNext t link) :=
  modifyThread rfl

/-- Writing what has nothing to do with threads. -/
theorem rest (threads : after.threads = kernel.threads)
    (table : after.threadTable = kernel.threadTable)
    (blocks : after.threadBlocks = kernel.threadBlocks)
    (count : after.threadCount = kernel.threadCount) : SameRoll kernel after :=
  ⟨table, blocks, count, fun t => by rw [threads]⟩

theorem appendReady (runs : kernel.appendReady t = some after) : SameRoll kernel after :=
  of_relinked (.appendReady runs)

theorem enqueueReadyTail (runs : kernel.enqueueReadyTail t = some after) : SameRoll kernel after :=
  of_relinked (.enqueueReadyTail runs)

theorem removeFromReadyQueue {target : Option ℕ}
    (runs : kernel.removeFromReadyQueue fuel target = some after) : SameRoll kernel after :=
  of_relinked (.removeFromReadyQueue runs)

theorem detachThread (kernel : Kernel) (t : ℕ) : SameRoll kernel (kernel.detachThread t) := by
  unfold Kernel.detachThread
  split
  · exact refl kernel
  · exact rest rfl rfl rfl rfl

theorem attachOwner (kernel : Kernel) (t ownerPid : ℕ) :
    SameRoll kernel (kernel.attachOwner t ownerPid) := by
  unfold Kernel.attachOwner
  split
  · exact refl kernel
  · rename_i owner _
    have owned : SameRoll kernel (kernel.modifyThread t (fun record =>
        { record with
          oPid := ((kernel.processes owner).pid % 2 ^ 32).toNat
          proc := some owner })) :=
      modifyThread rfl
    exact owned.trans (rest rfl rfl rfl rfl)

theorem addToReadyQueue {target : Option ℕ}
    (runs : kernel.addToReadyQueue fuel target = some after) : SameRoll kernel after := by
  cases target with
  | none =>
      cases runs
      exact refl kernel
  | some t =>
      simp only [Kernel.addToReadyQueue] at runs
      split at runs
      · cases runs
        exact refl kernel
      · split at runs
        · cases runs
        · cases runs
          exact refl kernel
        · have ready : SameRoll kernel ((kernel.setNext t none).setState t .ready) :=
            (setNext kernel t none).trans (setState _ t .ready)
          exact ready.trans (enqueueReadyTail runs)

theorem threadUnblock {answer : ℤ} (runs : kernel.threadUnblock wanted = some (answer, after)) :
    SameRoll kernel after := by
  rcases threadUnblock_cases runs with rfl | ⟨t, _, _, appends⟩
  · exact refl _
  · exact ((setState kernel t .ready).trans (setNext _ t none)).trans (appendReady appends)

theorem wakeFrom {cur : Option ℕ} (runs : Kernel.wakeFrom fuel kernel cur = some after) :
    SameRoll kernel after := by
  induction fuel generalizing kernel cur with
  | zero =>
      cases cur with
      | none =>
          cases runs
          exact refl _
      | some waiter => cases runs
  | succ fuel ih =>
      cases cur with
      | none =>
          cases runs
          exact refl _
      | some waiter =>
          rcases Option.bind_eq_some_iff.mp runs with ⟨⟨answer, woken⟩, unblocks, wakes⟩
          exact (threadUnblock unblocks).trans (ih wakes)

theorem leaveProcess (runs : kernel.leaveProcess fuel t = some after) : SameRoll kernel after := by
  simp only [Kernel.leaveProcess] at runs
  split at runs
  · cases runs
    exact refl kernel
  · split at runs
    · rename_i p _ _
      rcases Option.map_eq_some_iff.mp runs with ⟨woken, wakes, rfl⟩
      have left : SameRoll kernel (kernel.modifyProcess p (fun record =>
          { record with exitCode := 0, state := .zombie })) :=
        rest rfl rfl rfl rfl
      exact (left.trans (wakeFrom wakes)).trans (rest rfl rfl rfl rfl)
    · cases runs
      exact refl kernel

theorem threadBlock (runs : kernel.threadBlock fuel wanted = some after) :
    SameRoll kernel after := by
  simp only [Kernel.threadBlock] at runs
  split at runs
  · cases runs
  · split at runs
    · cases runs
    · exact (setState kernel _ .blocked).trans (removeFromReadyQueue runs)

theorem threadExit (runs : kernel.threadExit fuel = some after) : SameRoll kernel after := by
  simp only [Kernel.threadExit] at runs
  split at runs
  · cases runs
  · rename_i current _
    split at runs
    · cases runs
    · rcases Option.map_eq_some_iff.mp runs with ⟨left, leaves, rfl⟩
      have termed : SameRoll kernel (left.setState current .termed) :=
        (leaveProcess leaves).trans (setState left current .termed)
      exact termed.trans (rest rfl rfl rfl rfl)

theorem threadTerminate {answer : Option ℤ}
    (runs : kernel.threadTerminate fuel wanted = some (answer, after)) : SameRoll kernel after := by
  simp only [Kernel.threadTerminate] at runs
  split at runs
  · cases runs
    exact refl kernel
  · split at runs
    · cases runs
      exact refl kernel
    · rename_i t _
      split at runs
      · rcases Option.map_eq_some_iff.mp runs with ⟨exited, exits, equation⟩
        cases equation
        exact threadExit exits
      · rcases Option.map_eq_some_iff.mp runs with ⟨removed, removes, equation⟩
        cases equation
        have detached : SameRoll kernel ((kernel.setState t .termed).detachThread t) :=
          (setState kernel t .termed).trans (detachThread _ t)
        exact (detached.trans (setNext _ t none)).trans (removeFromReadyQueue removes)

theorem tickPrologue {context : Context} (runs : kernel.tickPrologue fuel context = some after) :
    SameRoll kernel after := by
  simp only [Kernel.tickPrologue] at runs
  split at runs
  · cases runs
    exact refl kernel
  · rename_i old _
    have saved : SameRoll kernel (kernel.modifyThread old (fun record =>
        { record with context := context })) :=
      modifyThread rfl
    split at runs
    · exact (saved.trans (setState _ old .ready)).trans (enqueueReadyTail runs)
    · exact (saved.trans (setState _ old .ready)).trans (enqueueReadyTail runs)
    · rcases Option.map_eq_some_iff.mp runs with ⟨removed, removes, rfl⟩
      exact (saved.trans (removeFromReadyQueue removes)).trans (rest rfl rfl rfl rfl)
    · rcases Option.map_eq_some_iff.mp runs with ⟨removed, removes, rfl⟩
      exact (saved.trans (removeFromReadyQueue removes)).trans (rest rfl rfl rfl rfl)

theorem tickSelect (kernel : Kernel) : SameRoll kernel kernel.tickSelect.2 := by
  simp only [Kernel.tickSelect]
  split
  · exact of_relinked (.dequeueReadyHead kernel _)
  · split
    · exact refl kernel
    · exact refl kernel

theorem tickConsider {next : ℕ} {phase : TickPhase}
    (runs : kernel.tickConsider fuel next = some (phase, after)) : SameRoll kernel after := by
  simp only [Kernel.tickConsider] at runs
  split at runs
  · rcases Option.map_eq_some_iff.mp runs with ⟨removed, removes, equation⟩
    cases equation
    exact removeFromReadyQueue removes
  · split at runs
    · rcases Option.map_eq_some_iff.mp runs with ⟨queued, queues, equation⟩
      cases equation
      have cooled : SameRoll kernel (kernel.modifyThread next (fun record =>
          { record with cooldown := record.cooldown - 1 })) :=
        modifyThread rfl
      exact cooled.trans (enqueueReadyTail queues)
    · have cooled : SameRoll kernel (kernel.modifyThread next (fun record =>
          { record with cooldown := priorityToStride record.priority - 1 })) :=
        modifyThread rfl
      split at runs
      · cases runs
        exact cooled.trans (setState _ next .termed)
      · cases runs
        have chosen : SameRoll kernel { kernel.modifyThread next (fun record =>
            { record with cooldown := priorityToStride record.priority - 1 }) with
              currentThread := some next } :=
          cooled.trans (rest rfl rfl rfl rfl)
        exact chosen.trans (setState _ next .running)

end SameRoll

/-! ## What creating and freeing threads write -/

/-- A thread is put into a slot. -/
structure Enrols (kernel : Kernel) (t slot : ℕ) (new : Thread) (after : Kernel) : Prop where
  table : after.threadTable = Function.update kernel.threadTable slot (some t)
  blocks : after.threadBlocks = t :: kernel.threadBlocks
  count : after.threadCount = (kernel.threadCount + 1) % 2 ^ 32
  identity : ∀ other, (after.threads other).identity =
    if other = t then new.identity else (kernel.threads other).identity

variable {slot : ℕ} {new : Thread} {request : ThreadRequest}
  {memory : ThreadMemory} {answer : Option ℕ}

theorem Enrols.sameRoll (enrols : Enrols kernel t slot new middle) (same : SameRoll middle after) :
    Enrols kernel t slot new after where
  table := same.table.trans enrols.table
  blocks := same.blocks.trans enrols.blocks
  count := same.count.trans enrols.count
  identity other := (same.identity other).trans (enrols.identity other)

theorem entry_update_some (table : after.threadTable =
    Function.update kernel.threadTable slot (some t))
    {other u : ℕ} (isEntry : after.threadTable other = some u) :
    other = slot ∧ u = t ∨ other ≠ slot ∧ kernel.threadTable other = some u := by
  rw [table] at isEntry
  by_cases same : other = slot
  · subst same
    rw [Function.update_self] at isEntry
    exact .inl ⟨rfl, (Option.some.inj isEntry).symm⟩
  · rw [Function.update_of_ne same] at isEntry
    exact .inr ⟨same, isEntry⟩

theorem Enrols.entry (enrols : Enrols kernel t slot new after) {other u : ℕ}
    (isEntry : after.threadTable other = some u) :
    other = slot ∧ u = t ∨ other ≠ slot ∧ kernel.threadTable other = some u :=
  entry_update_some enrols.table isEntry

theorem buildThread_freeThreadSlot (kernel : Kernel) (request : ThreadRequest)
    (memory : ThreadMemory) :
    (kernel.buildThread request memory).freeThreadSlot = kernel.freeThreadSlot := by
  rcases Sound.buildThread_eq kernel request memory with ⟨record, processes, nextTid, equation, _⟩
  rw [equation]
  rfl

theorem enrols_claimThreadSlot (kernel : Kernel) (request : ThreadRequest) (memory : ThreadMemory)
    (slot : ℕ) : Enrols kernel memory.thread slot (request.thread memory kernel.nextTid)
      ((kernel.buildThread request memory).claimThreadSlot slot memory.thread) := by
  rcases Sound.buildThread_eq kernel request memory with ⟨record, processes, nextTid, equation, _⟩
  refine ⟨?_, ?_, ?_, fun other => ?_⟩
  · rw [equation]
    rfl
  · rw [equation]
    rfl
  · rw [equation]
    rfl
  · simp only [claimThreadSlot, buildThread]
    generalize (kernel.nextTid + 1) % 2 ^ 32 = following
    rw [(SameRoll.attachOwner _ memory.thread request.ownerPid).identity]
    by_cases same : other = memory.thread
    · subst same
      rw [modifyThread_threads_same, if_pos rfl]
    · rw [modifyThread_threads_ne _ _ _ same, if_neg same]

/-- What a call of `thread_create` does: it returns early, finds no slot for the thread that it
has built, or puts the thread into a free slot. -/
theorem threadCreate_cases (runs : kernel.threadCreate request memory = some (answer, after)) :
    ¬kernel.Builds request memory ∧ answer = none ∧
        (after = kernel ∨ after = { kernel with nextTid := (kernel.nextTid + 1) % 2 ^ 32 }) ∨
      kernel.Builds request memory ∧ answer = none ∧ kernel.freeThreadSlot = none ∨
      kernel.Builds request memory ∧ answer = some memory.thread ∧
        ∃ slot, kernel.freeThreadSlot = some slot ∧
          Enrols kernel memory.thread slot (request.thread memory kernel.nextTid) after := by
  simp only [Kernel.threadCreate] at runs
  split at runs
  · rename_i early
    cases runs
    exact .inl ⟨fun builds => builds.1 early, rfl, .inl rfl⟩
  · rename_i early
    split at runs
    · rename_i lacks
      cases runs
      exact .inl ⟨fun builds => by simp [builds.2] at lacks, rfl, .inr rfl⟩
    · rename_i hasStack
      have builds : kernel.Builds request memory := ⟨early, by simpa using hasStack⟩
      have enrols := enrols_claimThreadSlot kernel request memory
      have free := buildThread_freeThreadSlot kernel request memory
      generalize kernel.buildThread request memory = made at enrols free runs
      split at runs
      · rename_i full
        cases runs
        exact .inr (.inl ⟨builds, rfl, free.symm.trans full⟩)
      · rename_i slot found
        rcases Option.map_eq_some_iff.mp runs with ⟨queued, appends, equation⟩
        cases equation
        exact .inr (.inr ⟨builds, rfl, slot, free.symm.trans found,
          (enrols slot).sameRoll (.appendReady appends)⟩)

/-- A thread is freed and its slot is empty. -/
structure StrikesOff (kernel : Kernel) (t slot : ℕ) (after : Kernel) : Prop where
  table : after.threadTable = Function.update kernel.threadTable slot none
  blocks : after.threadBlocks = kernel.threadBlocks.erase t
  count : after.threadCount = (kernel.threadCount + 2 ^ 32 - 1) % 2 ^ 32
  identity : ∀ other, (after.threads other).identity = (kernel.threads other).identity
  state : ∀ other, (after.threads other).state = (kernel.threads other).state

theorem StrikesOff.entry (strikes : StrikesOff kernel t slot after) {other u : ℕ}
    (isEntry : after.threadTable other = some u) :
    other ≠ slot ∧ kernel.threadTable other = some u := by
  rw [strikes.table] at isEntry
  by_cases same : other = slot
  · subst same
    simp at isEntry
  · rw [Function.update_of_ne same] at isEntry
    exact ⟨same, isEntry⟩

theorem strikesOff_freeThread (removed : Relinked kernel middle) (slot t : ℕ) :
    StrikesOff kernel t slot (middle.freeThread slot t) := by
  have same : SameRoll kernel (middle.detachThread t) :=
    (SameRoll.of_relinked removed).trans (.detachThread middle t)
  refine ⟨?_, ?_, ?_, same.identity, fun other => ?_⟩
  · simp only [freeThread, same.table]
  · simp only [freeThread, same.blocks]
  · simp only [freeThread, same.count]
  · rw [← removed.state]
    simp only [freeThread, detachThread]
    split <;> rfl

/-- What `clean_up` does to one slot. -/
theorem cleanUpSlot_cases (runs : cleanUpSlot fuel kernel slot = some after) :
    after = kernel ∧ (∀ t, kernel.threadTable slot = some t → (kernel.threads t).state ≠ .termed) ∨
      ∃ t, kernel.threadTable slot = some t ∧ (kernel.threads t).state = .termed ∧
        StrikesOff kernel t slot after := by
  simp only [cleanUpSlot] at runs
  split at runs
  · rename_i empty
    cases runs
    exact .inl ⟨rfl, by simp [empty]⟩
  · rename_i t listed
    split at runs
    · rename_i dead
      rcases Option.map_eq_some_iff.mp runs with ⟨removed, removes, rfl⟩
      exact .inr ⟨t, listed, dead, strikesOff_freeThread (.removeFromReadyQueue removes) slot t⟩
    · rename_i alive
      cases runs
      refine .inl ⟨rfl, fun other isEntry => ?_⟩
      rcases Option.some.inj (listed.symm.trans isEntry)
      exact alive

/-- What freeing one terminated thread keeps, `clean_up` keeps. -/
theorem cleanUp_preserves {property : Kernel → Prop}
    (strikesOff : ∀ {kernel after : Kernel} {t slot : ℕ}, slot < maxThreads →
      kernel.threadTable slot = some t → (kernel.threads t).state = .termed →
        StrikesOff kernel t slot after → property kernel → property after)
    (runs : kernel.cleanUp fuel = some after) (start : property kernel) : property after := by
  have overSlots : ∀ (slots : List ℕ) (kernel : Kernel), (∀ slot ∈ slots, slot < maxThreads) →
      property kernel → slots.foldlM (cleanUpSlot fuel) kernel = some after → property after := by
    intro slots
    induction slots with
    | nil =>
        intro kernel _ start runs
        cases runs
        exact start
    | cons slot slots ih =>
        intro kernel bounds start runs
        rw [List.foldlM_cons] at runs
        rcases Option.bind_eq_some_iff.mp runs with ⟨middle, cleans, rest⟩
        have bound := bounds slot List.mem_cons_self
        have others : ∀ other ∈ slots, other < maxThreads :=
          fun other mem => bounds other (List.mem_cons_of_mem _ mem)
        rcases cleanUpSlot_cases cleans with ⟨rfl, _⟩ | ⟨t, listed, dead, strikes⟩
        · exact ih _ others start rest
        · exact ih middle others (strikesOff bound listed dead strikes start) rest
  exact overSlots _ kernel (fun slot mem => List.mem_range.mp mem) start runs

end Kernel

/-- A step creates a thread, frees the terminated ones or leaves the roll alone. -/
theorem IsolationStep.roll_cases {before after : Isolation} {operation : IsolationOperation}
    {k : ℕ} (holds : before.machine.kernel.HoldsKernelThread k)
    (step : IsolationStep before operation after) :
    (∃ request memory answer,
        operation = .scheduling (.threadCreate request memory answer) ∧
        memory.thread ∉ before.machine.kernel.threadBlocks ∧
        before.machine.kernel.threadCreate request memory = some (answer, after.machine.kernel)) ∨
      (∃ fuel, before.machine.kernel.cleanUp fuel = some after.machine.kernel) ∨
      before.machine.kernel.SameRoll after.machine.kernel ∧
        after.machine.kernel.HoldsKernelThread k := by
  cases step with
  | threadExit idle runs =>
      exact .inr (.inr ⟨.threadExit runs, (Kernel.Spares.threadExit holds runs).1.keeps holds⟩)
  | scheduling steps =>
      rcases before with ⟨machine, running, saved⟩
      cases steps with
      | threadCreate fresh runs => exact .inl ⟨_, _, _, rfl, fresh, runs⟩
      | threadUnblock runs =>
          exact .inr (.inr ⟨.threadUnblock runs, (Kernel.Spares.threadUnblock runs).keeps holds⟩)
      | threadBlock runs =>
          exact .inr (.inr ⟨.threadBlock runs, (Kernel.Spares.threadBlock runs).keeps holds⟩)
      | threadTerminate runs =>
          exact .inr (.inr ⟨.threadTerminate runs,
            (Kernel.Spares.threadTerminate holds runs).1.keeps holds⟩)
      | cleanUp runs => exact .inr (.inl ⟨_, runs⟩)
      | addToReadyQueue valid runs =>
          exact .inr (.inr ⟨.addToReadyQueue runs, (Kernel.Spares.addToReadyQueue runs).keeps
            holds⟩)
      | removeFromReadyQueue valid runs =>
          exact .inr (.inr ⟨.removeFromReadyQueue runs,
            (Kernel.Spares.removeFromReadyQueue runs).keeps holds⟩)
      | tick runs =>
          exact .inr (.inr ⟨.tickPrologue runs, (Kernel.tickPrologue_spares holds runs).1⟩)
      | tickSelect =>
          exact .inr (.inr ⟨.tickSelect _, (Kernel.Spares.tickSelect holds).1.keeps holds⟩)
      | tickConsider runs =>
          exact .inr (.inr ⟨.tickConsider runs, (Kernel.Spares.tickConsider holds runs).1.keeps
            holds⟩)
      | tickCleanUp runs => exact .inr (.inl ⟨_, runs⟩)

namespace Kernel

/-! ## The roll -/

/-- Every slot has a thread of its own, the count is the number of the taken slots, and the
kernel thread has the first one. -/
structure Roll (kernel : Kernel) (k : ℕ) : Prop extends HoldsKernelThread kernel k where
  slots : ∀ slot other t, slot < maxThreads → other < maxThreads →
    kernel.threadTable slot = some t → kernel.threadTable other = some t → slot = other
  allocated : ∀ t, kernel.Listed t → t ∈ kernel.threadBlocks
  count : kernel.threadCount = kernel.occupied.card

variable {kernel after : Kernel} {t k slot fuel : ℕ}
  {request : ThreadRequest} {memory : ThreadMemory} {answer : Option ℕ}

theorem occupied_card_le (kernel : Kernel) : kernel.occupied.card ≤ maxThreads :=
  (Finset.card_filter_le _ _).trans (by simp)

theorem freeThreadSlot_spec (found : kernel.freeThreadSlot = some slot) :
    slot ≠ 0 ∧ slot < maxThreads ∧ kernel.threadTable slot = none := by
  have mem := List.mem_range'_1.mp (List.mem_of_find?_eq_some found)
  have empty := List.find?_some found
  have bounds : maxThreads = 256 := rfl
  exact ⟨by omega, by omega, by simpa using empty⟩

theorem occupied_update_some (bound : slot < maxThreads)
    (empty : kernel.threadTable slot = none)
    (table : after.threadTable = Function.update kernel.threadTable slot (some t)) :
    after.occupied = insert slot kernel.occupied ∧ slot ∉ kernel.occupied := by
  refine ⟨?_, by simp [occupied, empty]⟩
  ext other
  by_cases same : other = slot
  · subst same
    simp [occupied, table, bound]
  · simp [occupied, table, same]

theorem occupied_update_none (table : after.threadTable =
    Function.update kernel.threadTable slot none) :
    after.occupied = kernel.occupied.erase slot := by
  ext other
  by_cases same : other = slot
  · subst same
    simp [occupied, table]
  · simp [occupied, table, same]

namespace Roll

theorem sameRoll (roll : kernel.Roll k) (same : SameRoll kernel after)
    (holds : after.HoldsKernelThread k) : after.Roll k where
  toHoldsKernelThread := holds
  slots := by
    rw [same.table]
    exact roll.slots
  allocated t := by
    rw [same.listed, same.blocks]
    exact roll.allocated t
  count := by
    unfold occupied
    rw [same.count, same.table]
    exact roll.count

/-- There is a slot for every thread that `thread_create` builds. -/
theorem freeThreadSlot_ne_none (roll : kernel.Roll k) (builds : kernel.Builds request memory) :
    kernel.freeThreadSlot ≠ none := by
  intro full
  have few : kernel.occupied.card < maxThreads := by
    have notFull := builds.1
    rw [← roll.count]
    omega
  have taken : Finset.range maxThreads ⊆ kernel.occupied := by
    intro slot mem
    rw [Finset.mem_range] at mem
    by_cases first : slot = 0
    · subst first
      simp [occupied, roll.slot, mem]
    · have bounds : maxThreads = 256 := rfl
      have occupies := List.find?_eq_none.mp full slot (List.mem_range'_1.mpr (by omega))
      simpa [occupied, mem, Option.isSome_iff_ne_none] using occupies
  have enough := Finset.card_le_card taken
  rw [Finset.card_range] at enough
  omega

/-- A thread that is not in the table gets a free slot. -/
theorem claims (roll : kernel.Roll k) (notListed : ¬kernel.Listed t)
    (found : kernel.freeThreadSlot = some slot)
    (table : after.threadTable = Function.update kernel.threadTable slot (some t))
    (blocks : ∀ u, u = t ∨ u ∈ kernel.threadBlocks → u ∈ after.threadBlocks)
    (count : after.threadCount = (kernel.threadCount + 1) % 2 ^ 32)
    (holds : after.HoldsKernelThread k) : after.Roll k := by
  rcases freeThreadSlot_spec found with ⟨_, bound, empty⟩
  have absent : ∀ other, other < maxThreads → kernel.threadTable other ≠ some t :=
    fun other otherBound isEntry => notListed ⟨other, otherBound, isEntry⟩
  refine ⟨holds, ?_, ?_, ?_⟩
  · intro first second u firstBound secondBound isFirst isSecond
    rcases entry_update_some table isFirst with ⟨rfl, rfl⟩ | ⟨_, before⟩
    · rcases entry_update_some table isSecond with ⟨rfl, _⟩ | ⟨_, before⟩
      · rfl
      · exact absurd before (absent second secondBound)
    · rcases entry_update_some table isSecond with ⟨_, rfl⟩ | ⟨_, beforeSecond⟩
      · exact absurd before (absent first firstBound)
      · exact roll.slots first second u firstBound secondBound before beforeSecond
  · rintro u ⟨other, otherBound, isEntry⟩
    apply blocks
    rcases entry_update_some table isEntry with ⟨_, isNew⟩ | ⟨_, before⟩
    · exact .inl isNew
    · exact .inr (roll.allocated u ⟨other, otherBound, before⟩)
  · rcases occupied_update_some bound empty table with ⟨occupied, absent⟩
    have few := occupied_card_le kernel
    have bounds : maxThreads = 256 := rfl
    rw [count, occupied, Finset.card_insert_of_notMem absent, roll.count]
    omega

theorem enrols (roll : kernel.Roll k) {new : Thread} (fresh : t ∉ kernel.threadBlocks)
    (found : kernel.freeThreadSlot = some slot) (enrols : Enrols kernel t slot new after)
    (holds : after.HoldsKernelThread k) : after.Roll k := by
  apply roll.claims (fun listed => fresh (roll.allocated t listed)) found enrols.table _
    enrols.count
    holds
  rintro u (rfl | mem)
  · rw [enrols.blocks]
    exact List.mem_cons_self
  · rw [enrols.blocks]
    exact List.mem_cons_of_mem _ mem

theorem threadCreate (roll : kernel.Roll k) (fresh : memory.thread ∉ kernel.threadBlocks)
    (runs : kernel.threadCreate request memory = some (answer, after)) : after.Roll k := by
  have holds := (threadCreate_spares roll.toHoldsKernelThread fresh runs).1
  rcases threadCreate_cases runs with
    ⟨_, _, rfl | rfl⟩ | ⟨builds, _, full⟩ | ⟨_, _, slot, found, enrols⟩
  · exact roll
  · exact roll.sameRoll (.rest rfl rfl rfl rfl) holds
  · exact absurd full (roll.freeThreadSlot_ne_none builds)
  · exact roll.enrols fresh found enrols holds

theorem strikesOff (roll : kernel.Roll k) (bound : slot < maxThreads)
    (listed : kernel.threadTable slot = some t) (dead : (kernel.threads t).state = .termed)
    (strikes : StrikesOff kernel t slot after) : after.Roll k := by
  have different : t ≠ k := by
    rintro rfl
    exact roll.alive dead
  have notFirst : 0 ≠ slot := by
    rintro rfl
    exact different (Option.some.inj (listed.symm.trans roll.slot))
  have holds : after.HoldsKernelThread k := by
    refine ⟨?_, ?_, ?_, ?_, ?_⟩
    · rw [strikes.table, Function.update_of_ne notFirst, roll.slot]
    · rw [strikes.blocks]
      exact (List.mem_erase_of_ne different.symm).mpr roll.block
    · exact (congrArg Thread.tid (strikes.identity k)).trans roll.tid
    · exact (congrArg Thread.privilege (strikes.identity k)).trans roll.privilege
    · rw [strikes.state]
      exact roll.alive
  refine ⟨holds, ?_, ?_, ?_⟩
  · intro first second u firstBound secondBound isFirst isSecond
    exact roll.slots first second u firstBound secondBound (strikes.entry isFirst).2
      (strikes.entry isSecond).2
  · rintro u ⟨other, otherBound, isEntry⟩
    rcases strikes.entry isEntry with ⟨otherSlot, before⟩
    have alive : u ≠ t := by
      rintro rfl
      exact otherSlot (roll.slots other slot u otherBound bound before listed)
    rw [strikes.blocks]
    exact (List.mem_erase_of_ne alive).mpr (roll.allocated u ⟨other, otherBound, before⟩)
  · have mem : slot ∈ kernel.occupied := by
      simp [occupied, bound, listed]
    have few := occupied_card_le kernel
    have bounds : maxThreads = 256 := rfl
    have some := Finset.card_pos.mpr ⟨slot, mem⟩
    rw [strikes.count, occupied_update_none strikes.table, Finset.card_erase_of_mem mem, roll.count]
    omega

theorem cleanUp (roll : kernel.Roll k) (runs : kernel.cleanUp fuel = some after) :
    after.Roll k := by
  refine @cleanUp_preserves _ _ _ (fun kernel => kernel.Roll k) ?_ runs roll
  exact fun bound listed dead strikes roll => roll.strikesOff bound listed dead strikes

theorem step {before after : Isolation} {operation : IsolationOperation}
    (roll : before.machine.kernel.Roll k) (step : IsolationStep before operation after) :
    after.machine.kernel.Roll k := by
  rcases step.roll_cases roll.toHoldsKernelThread with
    ⟨request, memory, answer, _, fresh, runs⟩ | ⟨fuel, runs⟩ | ⟨same, holds⟩
  · exact roll.threadCreate fresh runs
  · exact roll.cleanUp runs
  · exact roll.sameRoll same holds

theorem run {first last : Isolation} {operations : List IsolationOperation}
    (started : first.machine.kernel.Roll k)
    (run : Transition.Run IsolationStep first operations last) : last.machine.kernel.Roll k := by
  have preserved : ∀ (before : Isolation) operation after, before.machine.kernel.Roll k →
      IsolationStep before operation after → after.machine.kernel.Roll k :=
    fun _ _ _ roll step => roll.step step
  exact run.invariant preserved started

/-- After the first part of `init_threading` the kernel thread is the only one. -/
theorem startKernelThread_entry (kernel : Kernel) (kernelThread : ℕ)
    (isEntry : (kernel.startKernelThread kernelThread).threadTable slot = some t) :
    slot = 0 ∧ t = kernelThread := by
  simp only [Kernel.startKernelThread, (SameRoll.attachOwner _ kernelThread 0).table] at isEntry
  by_cases first : slot = 0
  · subst first
    rw [Function.update_self] at isEntry
    exact ⟨rfl, (Option.some.inj isEntry).symm⟩
  · rw [Function.update_of_ne first] at isEntry
    cases isEntry

theorem startKernelThread (kernel : Kernel) (kernelThread : ℕ) :
    (kernel.startKernelThread kernelThread).Roll kernelThread := by
  have holds := startKernelThread_holds kernel kernelThread
  refine ⟨holds, ?_, ?_, ?_⟩
  · intro slot other t _ _ isFirst isSecond
    rw [(startKernelThread_entry kernel kernelThread isFirst).1,
      (startKernelThread_entry kernel kernelThread isSecond).1]
  · rintro t ⟨slot, _, isEntry⟩
    rw [(startKernelThread_entry kernel kernelThread isEntry).2]
    exact holds.block
  · have occupied : (kernel.startKernelThread kernelThread).occupied = {0} := by
      ext slot
      rw [Kernel.occupied, Finset.mem_filter, Finset.mem_range, Finset.mem_singleton]
      constructor
      · rintro ⟨_, taken⟩
        rcases Option.isSome_iff_exists.mp taken with ⟨t, isEntry⟩
        exact (startKernelThread_entry kernel kernelThread isEntry).1
      · rintro rfl
        exact ⟨by decide, by rw [holds.slot]; rfl⟩
    rw [occupied]
    rfl

/-- `init_threading` sets up the kernel thread and creates the idle thread. -/
theorem initThreading_creates {kernelThread idleTask : ℕ}
    (empty : kernel.threadBlocks = []) (fresh : memory.thread ≠ kernelThread)
    (runs : kernel.initThreading kernelThread idleTask memory = some after) :
    memory.thread ∉ (kernel.startKernelThread kernelThread).threadBlocks ∧
      ∃ t, (kernel.startKernelThread kernelThread).threadCreate (idleRequest idleTask) memory =
        some (some t, after) := by
  rcases Option.bind_eq_some_iff.mp runs with ⟨⟨answer, created⟩, creates, returns⟩
  have blocks : (kernel.startKernelThread kernelThread).threadBlocks = [kernelThread] := by
    simp [Kernel.startKernelThread, Kernel.modifyThread, empty]
  refine ⟨by simpa [blocks] using fresh, ?_⟩
  cases answer with
  | none => cases returns
  | some t =>
      cases returns
      exact ⟨t, creates⟩

theorem initThreading {kernelThread idleTask : ℕ} (empty : kernel.threadBlocks = [])
    (fresh : memory.thread ≠ kernelThread)
    (runs : kernel.initThreading kernelThread idleTask memory = some after) :
    after.Roll kernelThread ∧ after.currentThread = some kernelThread := by
  rcases initThreading_creates empty fresh runs with ⟨freshStarted, t, creates⟩
  have started := startKernelThread kernel kernelThread
  exact ⟨started.threadCreate freshStarted creates,
    (threadCreate_spares started.toHoldsKernelThread freshStarted creates).2.1⟩

end Roll

end Kernel

theorem Machine.Booted.roll {machine : Machine} (booted : machine.Booted) :
    ∃ k, machine.kernel.Roll k ∧ machine.kernel.currentThread = some k := by
  rcases booted with ⟨_, kernel, kernelThread, idleTask, memory, unstarted, _, fresh, runs⟩
  exact ⟨kernelThread, Kernel.Roll.initThreading unstarted.threadBlocks fresh runs⟩

/-- The kernel thread is the thread that is running when the kernel has started. -/
theorem Machine.Booted.roll_run {first : Machine} (booted : first.Booted) :
    ∃ k, first.kernel.currentThread = some k ∧
      ∀ operations last, Transition.Run IsolationStep (Isolation.start first) operations last →
        last.machine.kernel.Roll k := by
  rcases booted.roll with ⟨k, started, isCurrent⟩
  exact ⟨k, isCurrent, fun _ _ run => Kernel.Roll.run started run⟩

end Goshkik

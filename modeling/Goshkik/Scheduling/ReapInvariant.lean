import Goshkik.Scheduling.LinkExclusivity
import Goshkik.Scheduling.Reap

/-!
# What a waiter relies on

A child that a call of `process_wait` has picked stays in its slot as long as no call has
found it over, and after that it belongs to this call alone.  So its record is live
until the call frees it.
-/

namespace Goshkik

/-! ## Histories -/

namespace ReapedOnce

variable {history : List ReapEvent} {child : ProcessRecord}

theorem empty : ReapedOnce [] := ⟨by simp, by simp, by simp⟩

/-- A record that has not been freed may be read. -/
theorem read (reaped : ReapedOnce history) (notFreed : .free child ∉ history) :
    ReapedOnce (.read child :: history) where
  freedOnce record := by simpa using reaped.freedOnce record
  noReadAfterFree record newer older splits := by
    cases newer with
    | nil =>
        simp only [List.nil_append, List.cons.injEq, ReapEvent.read.injEq] at splits
        rcases splits with ⟨rfl, rfl⟩
        exact notFreed
    | cons event newer =>
        simp only [List.cons_append, List.cons.injEq] at splits
        exact reaped.noReadAfterFree record newer older splits.2
  clearsOwn slot occupant other mem := by
    simp only [List.mem_cons, reduceCtorEq, false_or] at mem
    exact reaped.clearsOwn slot occupant other mem

/-- A record that has not been freed may be freed. -/
theorem free (reaped : ReapedOnce history) (notFreed : .free child ∉ history) :
    ReapedOnce (.free child :: history) where
  freedOnce record := by
    by_cases same : record = child
    · subst same
      simp [List.count_eq_zero_of_not_mem notFreed]
    · simpa [List.count_cons, Ne.symm same] using reaped.freedOnce record
  noReadAfterFree record newer older splits := by
    cases newer with
    | nil => simp at splits
    | cons event newer =>
        simp only [List.cons_append, List.cons.injEq] at splits
        exact reaped.noReadAfterFree record newer older splits.2
  clearsOwn slot occupant other mem := by
    simp only [List.mem_cons, reduceCtorEq, false_or] at mem
    exact reaped.clearsOwn slot occupant other mem

/-- A slot that refers to the child may be cleared. -/
theorem clear (reaped : ReapedOnce history) (slot : ℕ) :
    ReapedOnce (.clear slot (some child) child :: history) where
  freedOnce record := by simpa using reaped.freedOnce record
  noReadAfterFree record newer older splits := by
    cases newer with
    | nil => simp at splits
    | cons event newer =>
        simp only [List.cons_append, List.cons.injEq] at splits
        exact reaped.noReadAfterFree record newer older splits.2
  clearsOwn slot' occupant other mem := by
    simp only [List.mem_cons, ReapEvent.clear.injEq] at mem
    rcases mem with ⟨_, rfl, rfl⟩ | mem
    · rfl
    · exact reaped.clearsOwn slot' occupant other mem

theorem reads (reaped : ReapedOnce history) (records : List ProcessRecord)
    (notFreed : ∀ record ∈ records, .free record ∉ history) :
    ReapedOnce (records.map ReapEvent.read ++ history) := by
  induction records with
  | nil => exact reaped
  | cons record records ih =>
      apply (ih (fun other mem => notFreed other (List.mem_cons_of_mem _ mem))).read
      simpa using notFreed record List.mem_cons_self

theorem clears (reaped : ReapedOnce history) (slots : List ℕ) :
    ReapedOnce (slots.map (fun i => .clear i (some child) child) ++ history) := by
  induction slots with
  | nil => exact reaped
  | cons slot slots ih => exact ih.clear slot

end ReapedOnce

/-! ## Operations that leave the process table alone -/

namespace Kernel.SameProcesses

variable {kernel after : Kernel} {fuel t p : ℕ}

theorem of_relinked (relinked : Relinked kernel after) : SameProcesses kernel after where
  table := (congrArg Kernel.processTable relinked.rest :)
  blocks := (congrArg Kernel.processBlocks relinked.rest :)
  pid p := by rw [relinked.processes]

theorem threadBlock {tid : ℕ} (runs : kernel.threadBlock fuel tid = some after) :
    SameProcesses kernel after := by
  simp only [Kernel.threadBlock] at runs
  split at runs
  · simp at runs
  · rename_i t _
    rw [Option.ite_none_left_eq_some] at runs
    have marked : SameProcesses kernel (kernel.setState t .blocked) := ⟨rfl, rfl, fun _ => rfl⟩
    exact marked.trans (of_relinked (Relinked.removeFromReadyQueue runs.2))

theorem threadUnblock {tid : ℕ} {answer : ℤ}
    (runs : kernel.threadUnblock tid = some (answer, after)) : SameProcesses kernel after := by
  have unchanged : SameProcesses kernel kernel := ⟨rfl, rfl, fun _ => rfl⟩
  simp only [Kernel.threadUnblock] at runs
  split at runs
  · simp only [Option.some.injEq, Prod.mk.injEq] at runs
    rw [← runs.2]
    exact unchanged
  · rename_i t _
    split at runs
    · simp only [Option.some.injEq, Prod.mk.injEq] at runs
      rw [← runs.2]
      exact unchanged
    · simp only [Option.map_eq_some_iff, Prod.mk.injEq] at runs
      rcases runs with ⟨queued, appends, _, rfl⟩
      have marked : SameProcesses kernel ((kernel.setState t .ready).setNext t none) :=
        ⟨rfl, rfl, fun _ => rfl⟩
      exact marked.trans (SameProcesses.appendReady appends)

theorem wakeFrom {cur : Option ℕ} (runs : Kernel.wakeFrom fuel kernel cur = some after) :
    SameProcesses kernel after := by
  induction fuel generalizing kernel cur with
  | zero =>
      cases cur with
      | none =>
          rw [← Option.some.inj runs]
          exact ⟨rfl, rfl, fun _ => rfl⟩
      | some waiter => simp [Kernel.wakeFrom] at runs
  | succ fuel ih =>
      cases cur with
      | none =>
          rw [← Option.some.inj runs]
          exact ⟨rfl, rfl, fun _ => rfl⟩
      | some waiter =>
          simp only [Kernel.wakeFrom, Option.bind_eq_some_iff] at runs
          rcases runs with ⟨⟨answer, woken⟩, unblocks, rest⟩
          exact (threadUnblock unblocks).trans (ih rest)

theorem modifyProcess {change : Process → Process}
    (keeps : ∀ record, (change record).pid = record.pid) :
    SameProcesses kernel (kernel.modifyProcess p change) := by
  refine ⟨rfl, rfl, fun other => ?_⟩
  by_cases same : other = p
  · subst same
    simp [Kernel.modifyProcess, keeps]
  · simp [Kernel.modifyProcess, same]

theorem wakeWaiters (runs : kernel.wakeWaiters fuel p = some after) :
    SameProcesses kernel after := by
  rcases Option.map_eq_some_iff.mp runs with ⟨woken, wakes, rfl⟩
  exact (wakeFrom wakes).trans (modifyProcess (fun _ => rfl))

theorem waitEnqueue (runs : kernel.waitEnqueue p t = some after) : SameProcesses kernel after := by
  have cleared : SameProcesses kernel (kernel.setNext t none) := ⟨rfl, rfl, fun _ => rfl⟩
  simp only [Kernel.waitEnqueue] at runs
  split at runs
  · rw [← Option.some.inj runs]
    exact cleared.trans (modifyProcess (fun _ => rfl))
  · split at runs
    · simp at runs
    · rename_i tail _
      rw [← Option.some.inj runs]
      have linked : SameProcesses kernel ((kernel.setNext t none).setNext tail (some t)) :=
        ⟨rfl, rfl, fun _ => rfl⟩
      exact linked.trans (modifyProcess (fun _ => rfl))

end Kernel.SameProcesses

theorem Kernel.findChild_listed {kernel : Kernel} {parent pid : ℤ} {child index : ℕ}
    (found : kernel.findChild parent pid = some (child, index)) :
    kernel.processTable index = some child := by
  rcases List.exists_of_findSome?_eq_some found with ⟨i, _, isFound⟩
  simp only [Option.map_eq_some_iff, Option.filter_eq_some_iff, Prod.mk.injEq] at isFound
  rcases isFound with ⟨p, ⟨listed, _⟩, rfl, rfl⟩
  exact listed

/-! ## The invariant -/

namespace ReapSystem

variable {system : ReapSystem} {t : ℕ} {child : ProcessRecord}

/-- The record has been handed out and not been freed. -/
def Live (system : ReapSystem) (record : ProcessRecord) : Prop :=
  record.block ∈ system.kernel.processBlocks ∧ system.births record.block = record.birth

/-- What a thread relies on in a phase of `process_wait`. -/
def Holds (system : ReapSystem) (t : ℕ) : WaitPhase → Prop
  | .idle => True
  | .calling _ _ => True
  | .found child index _ => system.slotRecord index = some child
  | .enqueued child index _ =>
      system.slotRecord index = some child ∧ system.owner child.block = some t
  | .asleep child index _ =>
      system.slotRecord index = some child ∧ system.owner child.block = some t
  | .ended child index _ => system.slotRecord index = some child
  | .unlisted child =>
      system.Live child ∧ ∀ i, system.kernel.processTable i ≠ some child.block

structure Sound (system : ReapSystem) : Prop where
  blocks : system.kernel.processBlocks.Nodup
  listed : ∀ i record, system.slotRecord i = some record → system.Live record
  single : ∀ i j p, system.kernel.processTable i = some p → system.kernel.processTable j = some p →
    i = j
  holds : ∀ t, system.Holds t (system.phase t)
  alone : ∀ t record, (system.phase t).collected = some record → ∀ u, u ≠ t → ∀ other,
    (system.phase u).child = some other → other.block ≠ record.block
  pending : ∀ new ∈ system.pending, system.Live new.record ∧
    system.kernel.processTable new.slot = none ∧
    (∀ i, system.kernel.processTable i ≠ some new.process) ∧
    ∀ t record, (system.phase t).child = some record → record.block ≠ new.process
  apart : (system.pending.map (fun new => new.process)).Nodup
  freed : ∀ record, .free record ∈ system.history →
    record.birth ≤ system.births record.block ∧ ¬ system.Live record
  reaped : ReapedOnce system.history

theorem slotRecord_eq_some {i : ℕ} {record : ProcessRecord} :
    system.slotRecord i = some record ↔
      system.kernel.processTable i = some record.block ∧ system.listedAs i = record.birth := by
  unfold slotRecord
  constructor
  · intro isRecord
    rcases Option.map_eq_some_iff.mp isRecord with ⟨p, listed, rfl⟩
    exact ⟨listed, rfl⟩
  · rintro ⟨listed, birth⟩
    rw [listed, Option.map_some, birth]

/-- What a phase relies on is kept when its child is kept where it was and nothing is put
into the table. -/
theorem Holds.transfer {after : ReapSystem} {phase : WaitPhase} (holds : system.Holds t phase)
    (slots : ∀ index record, phase.child = some record →
      system.slotRecord index = some record → after.slotRecord index = some record)
    (owners : ∀ record, phase.child = some record → system.owner record.block = some t →
      after.owner record.block = some t)
    (live : ∀ record, phase.child = some record → system.Live record → after.Live record)
    (table : ∀ i p, after.kernel.processTable i = some p → system.kernel.processTable i = some p) :
    after.Holds t phase := by
  cases phase with
  | idle => trivial
  | calling parent pid => trivial
  | found record index pid => exact slots index record rfl holds
  | enqueued record index pid =>
      exact ⟨slots index record rfl holds.1, owners record rfl holds.2⟩
  | asleep record index pid =>
      exact ⟨slots index record rfl holds.1, owners record rfl holds.2⟩
  | ended record index pid => exact slots index record rfl holds
  | unlisted record =>
      exact ⟨live record rfl holds.1, fun i listed => holds.2 i (table i _ listed)⟩

namespace Sound

theorem notFreed (sound : system.Sound) {record : ProcessRecord} (live : system.Live record) :
    .free record ∉ system.history :=
  fun mem => (sound.freed record mem).2 live

/-- The child that a call has picked is live. -/
theorem live (sound : system.Sound) (picked : (system.phase t).child = some child) :
    system.Live child := by
  have holds := sound.holds t
  cases isPhase : system.phase t with
  | idle => simp [isPhase, WaitPhase.child] at picked
  | calling parent pid => simp [isPhase, WaitPhase.child] at picked
  | found record index pid =>
      simp only [isPhase, WaitPhase.child, Option.some.injEq] at picked holds
      subst picked
      exact sound.listed index _ holds
  | enqueued record index pid =>
      simp only [isPhase, WaitPhase.child, Option.some.injEq] at picked holds
      subst picked
      exact sound.listed index _ holds.1
  | asleep record index pid =>
      simp only [isPhase, WaitPhase.child, Option.some.injEq] at picked holds
      subst picked
      exact sound.listed index _ holds.1
  | ended record index pid =>
      simp only [isPhase, WaitPhase.child, Option.some.injEq] at picked holds
      subst picked
      exact sound.listed index _ holds
  | unlisted record =>
      simp only [isPhase, WaitPhase.child, Option.some.injEq] at picked holds
      subst picked
      exact holds.1

/-- Whatever leaves the process table and the blocks alone keeps the invariant. -/
theorem setKernel (sound : system.Sound) {kernel : Kernel}
    (table : kernel.processTable = system.kernel.processTable)
    (blocks : kernel.processBlocks = system.kernel.processBlocks) :
    (system.setKernel kernel).Sound := by
  have slots : (system.setKernel kernel).slotRecord = system.slotRecord := by
    funext i
    simp [slotRecord, ReapSystem.setKernel, table]
  have live : ∀ record, (system.setKernel kernel).Live record ↔ system.Live record := by
    intro record
    simp [Live, ReapSystem.setKernel, blocks]
  refine ⟨?_, ?_, ?_, ?_, sound.alone, ?_, sound.apart, ?_, sound.reaped⟩
  · simpa [ReapSystem.setKernel, blocks] using sound.blocks
  · intro i record listed
    rw [slots] at listed
    exact (live record).mpr (sound.listed i record listed)
  · simpa [ReapSystem.setKernel, table] using sound.single
  · intro t
    apply (sound.holds t).transfer
    · intro index record _ listed
      rw [slots]
      exact listed
    · exact fun record _ owns => owns
    · exact fun record _ isLive => (live record).mpr isLive
    · simp [ReapSystem.setKernel, table]
  · intro new mem
    rcases sound.pending new mem with ⟨isLive, empty, unlisted, unpicked⟩
    refine ⟨(live _).mpr isLive, ?_, ?_, unpicked⟩
    · simpa [ReapSystem.setKernel, table] using empty
    · simpa [ReapSystem.setKernel, table] using unlisted
  · intro record mem
    rcases sound.freed record mem with ⟨born, dead⟩
    exact ⟨born, fun isLive => dead ((live record).mp isLive)⟩

/-- The lock of a process changes hands, but not out of the hands of a waiter. -/
theorem setOwner (sound : system.Sound) {p : ℕ} {owner : Option ℕ}
    (notTaken : ∀ t record, (system.phase t).child = some record → record.block = p →
      system.owner p ≠ some t) : (system.setOwner p owner).Sound where
  blocks := sound.blocks
  listed := sound.listed
  single := sound.single
  holds t := by
    apply (sound.holds t).transfer
    · exact fun index record _ listed => listed
    · intro record picked owns
      have different : record.block ≠ p := by
        intro same
        exact notTaken t record picked same (same ▸ owns)
      simpa [ReapSystem.setOwner, different] using owns
    · exact fun record _ isLive => isLive
    · exact fun i p listed => listed
  alone := sound.alone
  pending := sound.pending
  apart := sound.apart
  freed := sound.freed
  reaped := sound.reaped

/-- A thread goes on to a phase whose child nobody else collects; a thread that collects
is the only one that has picked its child. -/
theorem setPhase (sound : system.Sound) {phase : WaitPhase} (holds : system.Holds t phase)
    (collects : ∀ record, phase.collected = some record → ∀ u, u ≠ t → ∀ other,
      (system.phase u).child = some other → other.block ≠ record.block)
    (picks : ∀ record, phase.child = some record → ∀ u, u ≠ t → ∀ other,
      (system.phase u).collected = some other → record.block ≠ other.block)
    (notPending : ∀ record, phase.child = some record → ∀ new ∈ system.pending,
      record.block ≠ new.process) : (system.setPhase t phase).Sound where
  blocks := sound.blocks
  listed := sound.listed
  single := sound.single
  holds u := by
    by_cases same : u = t
    · subst same
      rw [setPhase_phase_same]
      exact holds
    · rw [setPhase_phase_ne system same]
      exact sound.holds u
  alone u record isCollected v different other picked := by
    by_cases first : u = t <;> by_cases second : v = t
    · exact absurd (second.trans first.symm) different
    · subst first
      rw [setPhase_phase_same] at isCollected
      rw [setPhase_phase_ne system second] at picked
      exact collects record isCollected v second other picked
    · subst second
      rw [setPhase_phase_same] at picked
      rw [setPhase_phase_ne system first] at isCollected
      exact picks other picked u first record isCollected
    · rw [setPhase_phase_ne system first] at isCollected
      rw [setPhase_phase_ne system second] at picked
      exact sound.alone u record isCollected v different other picked
  pending new mem := by
    rcases sound.pending new mem with ⟨isLive, empty, unlisted, unpicked⟩
    refine ⟨isLive, empty, unlisted, fun u record picked => ?_⟩
    by_cases same : u = t
    · subst same
      rw [setPhase_phase_same] at picked
      exact notPending record picked new mem
    · rw [setPhase_phase_ne system same] at picked
      exact unpicked u record picked
  apart := sound.apart
  freed := sound.freed
  reaped := sound.reaped

/-- A thread goes on with the child that it has, which it has not found over. -/
theorem goOn (sound : system.Sound) {phase : WaitPhase} (holds : system.Holds t phase)
    (sameChild : phase.child = (system.phase t).child) (collects : phase.collected = none) :
    (system.setPhase t phase).Sound := by
  apply sound.setPhase holds
  · intro record isCollected
    simp [collects] at isCollected
  · intro record picked u different other isCollected
    rw [sameChild] at picked
    exact sound.alone u other isCollected t different.symm record picked
  · intro record picked new mem
    rw [sameChild] at picked
    exact (sound.pending new mem).2.2.2 t record picked

/-- A thread that lets go of its child. -/
theorem letGo (sound : system.Sound) {phase : WaitPhase} (holds : system.Holds t phase)
    (noChild : phase.child = none) : (system.setPhase t phase).Sound := by
  apply sound.setPhase holds
  · intro record isCollected
    rw [WaitPhase.child_of_collected isCollected] at noChild
    simp at noChild
  · intro record picked
    simp [noChild] at picked
  · intro record picked
    simp [noChild] at picked

/-- Events that free nothing. -/
theorem record (sound : system.Sound) {events : List ReapEvent}
    (reaped : ReapedOnce (events ++ system.history)) (frees : ∀ record, .free record ∉ events) :
    (system.record events).Sound where
  blocks := sound.blocks
  listed := sound.listed
  single := sound.single
  holds := sound.holds
  alone := sound.alone
  pending := sound.pending
  apart := sound.apart
  freed record mem := by
    rcases List.mem_append.mp mem with new | old
    · exact absurd new (frees record)
    · exact sound.freed record old
  reaped := reaped

theorem reads (sound : system.Sound) (records : List ProcessRecord)
    (live : ∀ record ∈ records, system.Live record) :
    (system.record (records.map ReapEvent.read)).Sound := by
  apply sound.record
  · exact sound.reaped.reads records (fun record mem => sound.notFreed (live record mem))
  · intro record mem
    simp at mem

theorem read (sound : system.Sound) (live : system.Live child) :
    (system.record [.read child]).Sound :=
  sound.reads [child] (by simpa using live)

end Sound

end ReapSystem

end Goshkik

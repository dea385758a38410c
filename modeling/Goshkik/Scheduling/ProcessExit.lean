import Goshkik.Scheduling.ReapOnce
import Goshkik.Scheduling.WakeWaiters

/-!
# A process that exits

One thread is inside `process_exit`, cut where it takes and releases the lock of its process,
and any number of others are inside `process_wait`.  `read` holds the local variable `code`
of each call of `process_wait`, and `delivered` lists, latest first, what the calls that
free the record of the process have stored through their `exit_code` pointer.
-/

namespace Goshkik

/-- Where the thread is inside `process_exit`, with the process whose exit code it has stored.
A thread that is leaving has written the exit code again and wakes the waiters once more. -/
inductive ExitStage where
  | running
  | stored (record : ProcessRecord)
  | woken (record : ProcessRecord)
  | leaving (record : ProcessRecord) (p : ℕ)
  | left (record : ProcessRecord)
  | switched (record : ProcessRecord)

def ExitStage.record : ExitStage → Option ProcessRecord
  | .running => none
  | .stored record => some record
  | .woken record => some record
  | .leaving record _ => some record
  | .left record => some record
  | .switched record => some record

structure ExitSystem where
  reap : ReapSystem
  stage : ExitStage
  read : ℕ → ℤ
  delivered : List ℤ

inductive ExitOperation where
  | other (operation : ReapOperation)
  | store
  | wake
  | leave
  | wakeAgain
  | switch

instance (system : ReapSystem) (record : ProcessRecord) : Decidable (system.Live record) :=
  inferInstanceAs (Decidable (_ ∧ _))

/-- The exit code and the end of a process are written together. -/
def Kernel.endProcess (kernel : Kernel) (p : ℕ) (code : ℤ) : Kernel :=
  kernel.modifyProcess p (fun record => { record with exitCode := code, state := .zombie })

namespace ExitSystem

variable (system : ExitSystem)

def setKernel (kernel : Kernel) : ExitSystem :=
  { system with reap := system.reap.setKernel kernel }

/-- A call of `process_wait` reads the exit code where it finds its child over. -/
def reads : ReapOperation → ℕ → ℤ
  | .check t =>
      match system.reap.phase t with
      | .found child _ _ =>
          if (system.reap.kernel.processes child.block).state.isOver then
            Function.update system.read t (system.reap.kernel.processes child.block).exitCode
          else system.read
      | _ => system.read
  | .collect t =>
      match system.reap.phase t with
      | .asleep child _ _ =>
          Function.update system.read t (system.reap.kernel.processes child.block).exitCode
      | _ => system.read
  | _ => system.read

/-- `*exit_code = code` by the call that frees the record of the process. -/
def delivers : ReapOperation → List ℤ
  | .free t =>
      match system.reap.phase t with
      | .unlisted child =>
          if system.stage.record = some child ∧ system.reap.Live child then
            system.read t :: system.delivered
          else system.delivered
      | _ => system.delivered
  | _ => system.delivered

/-- The section of `process_exit` on the lock of the process. -/
def store (self : ℕ) (code : ℤ) : Option ExitSystem :=
  match system.stage with
  | .running =>
      (system.reap.kernel.processFromPid (pidOfOwner (system.reap.kernel.threads self).oPid)).bind
        (fun p =>
          if system.reap.owner p = none then
            some { system.setKernel (system.reap.kernel.endProcess p code) with
              stage := .stored ⟨p, system.reap.births p⟩ }
          else none)
  | _ => none

/-- The section of `thread_exit` on the lock of the process of the thread. -/
def leave (self : ℕ) : Option ExitSystem :=
  match system.stage with
  | .woken record =>
      if (system.reap.kernel.threads self).tid = 0 then none
      else
        match (system.reap.kernel.threads self).proc with
        | none => some { system with stage := .left record }
        | some p =>
            if system.reap.owner p ≠ none then none
            else if (system.reap.kernel.processes p).mainThread = some self then
              some { system.setKernel (system.reap.kernel.endProcess p 0) with
                stage := .leaving record p }
            else some { system with stage := .left record }
  | _ => none

/-- `wake_waiters`, which takes the lock of the process. -/
def wakeWaiters (fuel p : ℕ) (stage : ExitStage) : Option ExitSystem :=
  if system.reap.owner p = none then
    (system.reap.kernel.wakeWaiters fuel p).map (fun woken =>
      { system.setKernel woken with stage := stage })
  else none

/-- One step, of the exiting thread or of another one. -/
def perform (self : ℕ) (code : ℤ) (fuel : ℕ) : ExitOperation → Option ExitSystem
  | .other operation =>
      (system.reap.perform fuel operation).map (fun reap =>
        { system with
          reap := reap
          read := system.reads operation
          delivered := system.delivers operation })
  | .store => system.store self code
  | .wake =>
      match system.stage with
      | .stored record => system.wakeWaiters fuel record.block (.woken record)
      | _ => none
  | .leave => system.leave self
  | .wakeAgain =>
      match system.stage with
      | .leaving record p => system.wakeWaiters fuel p (.left record)
      | _ => none
  | .switch =>
      match system.stage with
      | .left record =>
          some { system.setKernel { system.reap.kernel.setState self .termed with
            currentThread := none } with stage := .switched record }
      | _ => none

end ExitSystem

def ExitStep (self : ℕ) (code : ℤ) (system : ExitSystem) (operation : ExitOperation)
    (after : ExitSystem) : Prop :=
  ∃ fuel, system.perform self code fuel operation = some after

namespace ExitSystem

/-- The thread has not called `process_exit` yet. -/
structure Started (system : ExitSystem) : Prop where
  reap : system.reap.Started
  stage : system.stage = .running
  delivered : system.delivered = []

/-- The process keeps the code until its record is freed, and the call of `process_wait` that
frees the record delivers it. -/
def KeepsCode (system : ExitSystem) (code : ℤ) : Prop :=
  ∀ record, system.stage.record = some record →
    (system.reap.Live record → (system.reap.kernel.processes record.block).exitCode = code) ∧
    ∀ delivered ∈ system.delivered, delivered = code

/-- The process is not over when the code is stored, no other thread ends it, and the thread
that comes to `thread_exit` is not its main thread or the code is zero. -/
def EndsOnce (self : ℕ) (code : ℤ) (system : ExitSystem) : ExitOperation → Prop
  | .store => ∀ p, system.reap.kernel.processFromPid
      (pidOfOwner (system.reap.kernel.threads self).oPid) = some p →
        (system.reap.kernel.processes p).state.isOver = false
  | .leave => code = 0 ∨ ∀ record, system.stage = .woken record → system.reap.Live record →
      ¬((system.reap.kernel.threads self).proc = some record.block ∧
        (system.reap.kernel.processes record.block).mainThread = some self)
  | .other (.finish _ p _) => ∀ record, system.stage.record = some record →
      system.reap.Live record → p ≠ record.block
  | _ => True

end ExitSystem

/-! ## What the operations do to exit codes -/

namespace Kernel

/-- Two kernels whose processes have the same exit codes and states. -/
def SameExits (before after : Kernel) : Prop :=
  ∀ p, (after.processes p).exitCode = (before.processes p).exitCode ∧
    (after.processes p).state = (before.processes p).state

variable {kernel middle after : Kernel} {t p tid fuel : ℕ}

theorem SameExits.of_processes (same : after.processes = kernel.processes) :
    SameExits kernel after := by
  intro p
  rw [same]
  exact ⟨rfl, rfl⟩

theorem SameExits.trans (first : SameExits kernel middle) (second : SameExits middle after) :
    SameExits kernel after :=
  fun p => ⟨(second p).1.trans (first p).1, (second p).2.trans (first p).2⟩

theorem SameExits.modifyProcess {change : Process → Process}
    (exitCode : ∀ record, (change record).exitCode = record.exitCode)
    (state : ∀ record, (change record).state = record.state) :
    SameExits kernel (kernel.modifyProcess p change) := by
  intro other
  by_cases same : other = p
  · subst same
    simp [Kernel.modifyProcess, exitCode, state]
  · simp [Kernel.modifyProcess, same]

/-- The first section of `process_create` changes nothing, or hands out the block. -/
theorem processCreateBegin_cases (kernel : Kernel) (request : ProcessRequest)
    (block addressSpace : ℕ) :
    kernel.processCreateBegin request block addressSpace = (none, kernel) ∨
      ∃ slot nextPid record, kernel.processCreateBegin request block addressSpace =
        (some slot, { kernel with
          processBlocks := block :: kernel.processBlocks
          nextPid := nextPid }.modifyProcess block (fun _ => record)) := by
  unfold processCreateBegin
  cases kernel.findFreeSlot with
  | none => exact .inl rfl
  | some slot =>
      by_cases null : block = 0
      · exact .inl (if_pos null)
      · exact .inr ⟨slot, _, _, if_neg null⟩

theorem threadBlock_processes (runs : kernel.threadBlock fuel tid = some after) :
    after.processes = kernel.processes := by
  simp only [threadBlock] at runs
  split at runs
  · cases runs
  · split at runs
    · cases runs
    · exact (Relinked.removeFromReadyQueue runs).processes

theorem threadUnblock_processes {answer : ℤ}
    (runs : kernel.threadUnblock tid = some (answer, after)) :
    after.processes = kernel.processes := by
  rcases threadUnblock_cases runs with rfl | ⟨t, _, _, appends⟩
  · rfl
  · exact (Relinked.appendReady appends).processes

theorem wakeFrom_processes {cur : Option ℕ} (runs : wakeFrom fuel kernel cur = some after) :
    after.processes = kernel.processes := by
  induction fuel generalizing kernel cur with
  | zero =>
      cases cur with
      | none =>
          cases runs
          rfl
      | some waiter => cases runs
  | succ fuel ih =>
      cases cur with
      | none =>
          cases runs
          rfl
      | some waiter =>
          rcases Option.bind_eq_some_iff.mp runs with ⟨⟨answer, woken⟩, unblocks, wakes⟩
          exact (ih wakes).trans (threadUnblock_processes unblocks)

theorem SameExits.wakeWaiters (runs : kernel.wakeWaiters fuel p = some after) :
    SameExits kernel after := by
  rcases Option.map_eq_some_iff.mp runs with ⟨woken, wakes, rfl⟩
  exact (of_processes (wakeFrom_processes wakes)).trans (modifyProcess (fun _ => rfl) (fun _ =>
    rfl))

theorem SameExits.waitEnqueue (runs : kernel.waitEnqueue p t = some after) :
    SameExits kernel after := by
  have cleared : SameExits kernel (kernel.setNext t none) := of_processes rfl
  simp only [Kernel.waitEnqueue] at runs
  split at runs
  · cases runs
    exact cleared.trans (modifyProcess (fun _ => rfl) (fun _ => rfl))
  · split at runs
    · cases runs
    · rename_i tail _
      cases runs
      have linked : SameExits (kernel.setNext t none)
          ((kernel.setNext t none).setNext tail (some t)) := of_processes rfl
      exact (cleared.trans linked).trans (modifyProcess (fun _ => rfl) (fun _ => rfl))

theorem SameExits.attachOwner (kernel : Kernel) (t ownerPid : ℕ) :
    SameExits kernel (kernel.attachOwner t ownerPid) := by
  unfold Kernel.attachOwner
  split
  · exact of_processes rfl
  · rename_i owner _
    have owned : SameExits kernel (kernel.modifyThread t (fun record =>
        { record with
          oPid := ((kernel.processes owner).pid % 2 ^ 32).toNat
          proc := some owner })) := of_processes rfl
    simp only [processAddThread]
    exact owned.trans (modifyProcess (fun _ => rfl) (fun _ => rfl))

theorem SameExits.threadCreate {request : ThreadRequest} {memory : ThreadMemory}
    {answer : Option ℕ} (runs : kernel.threadCreate request memory = some (answer, after)) :
    SameExits kernel after := by
  have built : SameExits kernel (kernel.buildThread request memory) := by
    unfold Kernel.buildThread
    generalize (kernel.nextTid + 1) % 2 ^ 32 = nextTid
    refine SameExits.trans ?_ (SameExits.attachOwner _ _ _)
    exact of_processes rfl
  simp only [Kernel.threadCreate] at runs
  split at runs
  · cases runs
    exact of_processes rfl
  split at runs
  · cases runs
    exact of_processes rfl
  generalize kernel.buildThread request memory = new at built runs
  split at runs
  · cases runs
    exact built.trans (of_processes rfl)
  · rename_i slot _
    rcases Option.map_eq_some_iff.mp runs with ⟨queued, appends, equation⟩
    cases equation
    have claimed : SameExits new (new.claimThreadSlot slot memory.thread) := of_processes rfl
    exact (built.trans claimed).trans (of_processes (Relinked.appendReady appends).processes)

theorem SameExits.processCreateFinish {slot : ℕ} {request : ProcessRequest}
    {memory : ThreadMemory} {answer : Option ℕ}
    (runs : kernel.processCreateFinish p slot request memory = some (answer, after)) :
    SameExits kernel after := by
  simp only [Kernel.processCreateFinish] at runs
  split at runs
  · cases runs
    exact of_processes rfl
  · rcases Option.map_eq_some_iff.mp runs with ⟨⟨created, made⟩, creates, equation⟩
    have same := SameExits.threadCreate creates
    cases created with
    | none =>
        cases equation
        exact same.trans (of_processes rfl)
    | some t =>
        cases equation
        exact same.trans (modifyProcess (fun _ => rfl) (fun _ => rfl))

/-- The rest of `process_create` puts no process into the table. -/
theorem processCreateFinish_table {slot : ℕ} {request : ProcessRequest} {memory : ThreadMemory}
    {answer : Option ℕ}
    (runs : kernel.processCreateFinish p slot request memory = some (answer, after)) :
    (∀ i q, after.processTable i = some q → kernel.processTable i = some q) ∧
      ∀ q ∈ after.processBlocks, q ∈ kernel.processBlocks := by
  simp only [Kernel.processCreateFinish] at runs
  split at runs
  · cases runs
    exact ⟨fun _ _ listed => listed, fun _ mem => mem⟩
  · rcases Option.map_eq_some_iff.mp runs with ⟨⟨created, made⟩, creates, equation⟩
    have same := SameProcesses.threadCreate creates
    cases created with
    | none =>
        cases equation
        rw [← same.table, ← same.blocks]
        refine ⟨fun i q listed => ?_, fun q mem => List.mem_of_mem_erase mem⟩
        by_cases isSlot : i = slot
        · simp [processCreateUndo, isSlot] at listed
        · simpa [processCreateUndo, isSlot] using listed
    | some t =>
        cases equation
        rw [← same.table, ← same.blocks]
        exact ⟨fun _ _ listed => listed, fun _ mem => mem⟩

end Kernel

/-! ## What the other threads do to the record -/

namespace ReapSystem

variable {system after : ReapSystem} {operation : ReapOperation} {t : ℕ} {phase : WaitPhase}

/-- No record comes to life again, and an operation writes the exit code of a live record only
to end its process. -/
structure Progress (operation : ReapOperation) (before after : ReapSystem) : Prop where
  births : ∀ p, before.births p ≤ after.births p
  listed : ∀ i record, after.slotRecord i = some record → before.slotRecord i = some record
  child : ∀ t record, (after.phase t).child = some record →
    (before.phase t).child = some record ∨ ∃ i, before.slotRecord i = some record
  live : ∀ record, record.birth ≤ before.births record.block → after.Live record →
    before.Live record
  ended : ∀ record, record.birth ≤ before.births record.block → after.Live record →
    (before.kernel.processes record.block).state.isOver →
      (after.kernel.processes record.block).state.isOver
  exitCode : ∀ record, record.birth ≤ before.births record.block → after.Live record →
    (∀ u code, operation ≠ .finish u record.block code) →
      (after.kernel.processes record.block).exitCode =
        (before.kernel.processes record.block).exitCode

/-- Operations that put no process into the table and hand out no record. -/
theorem Progress.mk' (births : after.births = system.births)
    (listedAs : after.listedAs = system.listedAs)
    (table : ∀ i p, after.kernel.processTable i = some p → system.kernel.processTable i = some p)
    (blocks : ∀ p ∈ after.kernel.processBlocks, p ∈ system.kernel.processBlocks)
    (child : ∀ t record, (after.phase t).child = some record →
      (system.phase t).child = some record ∨ ∃ i, system.slotRecord i = some record)
    (ended : ∀ p, (system.kernel.processes p).state.isOver →
      (after.kernel.processes p).state.isOver)
    (exitCode : ∀ p, (∀ u code, operation ≠ .finish u p code) →
      (after.kernel.processes p).exitCode = (system.kernel.processes p).exitCode) :
    Progress operation system after where
  births p := by rw [births]
  listed i record isRecord := by
    rw [slotRecord_eq_some, listedAs] at isRecord
    rw [slotRecord_eq_some]
    exact ⟨table i _ isRecord.1, isRecord.2⟩
  child := child
  live record _ isLive := ⟨blocks _ isLive.1, births ▸ isLive.2⟩
  ended record _ _ := ended record.block
  exitCode record _ _ := exitCode record.block

theorem Progress.of_exits (births : after.births = system.births)
    (listedAs : after.listedAs = system.listedAs)
    (table : ∀ i p, after.kernel.processTable i = some p → system.kernel.processTable i = some p)
    (blocks : ∀ p ∈ after.kernel.processBlocks, p ∈ system.kernel.processBlocks)
    (child : ∀ t record, (after.phase t).child = some record →
      (system.phase t).child = some record ∨ ∃ i, system.slotRecord i = some record)
    (exits : Kernel.SameExits system.kernel after.kernel) : Progress operation system after := by
  refine Progress.mk' births listedAs table blocks child ?_ ?_
  · intro p isOver
    rw [(exits p).2]
    exact isOver
  · exact fun p _ => (exits p).1

/-- A thread that goes on with the child that it has, or lets go of it. -/
theorem child_setPhase (sameChild : phase.child = none ∨ phase.child = (system.phase t).child) :
    ∀ u record, ((system.setPhase t phase).phase u).child = some record →
      (system.phase u).child = some record ∨ ∃ i, system.slotRecord i = some record := by
  intro u record isChild
  left
  by_cases same : u = t
  · subst same
    rw [setPhase_phase_same] at isChild
    rcases sameChild with none | same
    · rw [none] at isChild
      cases isChild
    · rw [← same]
      exact isChild
  · rwa [setPhase_phase_ne _ same] at isChild

theorem Progress.markExited {child : ProcessRecord} {index : ℕ} {pid : ℤ}
    (picked : (system.phase t).child = some child) :
    Progress operation system (system.markExited t child index pid) := by
  refine @Progress.mk' system (system.markExited t child index pid) operation rfl rfl
    (fun _ _ listed => listed) (fun _ mem => mem) ?_ ?_ ?_
  · exact @child_setPhase system t (.ended child index pid) (.inr picked.symm)
  · intro p isOver
    by_cases same : p = child.block
    · subst same
      simp [ReapSystem.markExited, ReapSystem.setPhase, ReapSystem.record, ReapSystem.setKernel,
        Kernel.modifyProcess, ProcessState.isOver]
    · simpa [ReapSystem.markExited, ReapSystem.setPhase, ReapSystem.record, ReapSystem.setKernel,
        Kernel.modifyProcess, same] using isOver
  · intro p _
    by_cases same : p = child.block
    · subst same
      simp [ReapSystem.markExited, ReapSystem.setPhase, ReapSystem.record, ReapSystem.setKernel,
        Kernel.modifyProcess]
    · simp [ReapSystem.markExited, ReapSystem.setPhase, ReapSystem.record, ReapSystem.setKernel,
        Kernel.modifyProcess, same]

theorem Progress.lookup {parent pid : ℤ} :
    Progress operation system (system.lookup t parent pid) := by
  unfold ReapSystem.lookup
  split
  · generalize system.scanned maxProcs = events
    exact @Progress.of_exits system ((system.record events).setPhase t .idle) operation rfl rfl
      (fun _ _ listed => listed) (fun _ mem => mem)
      (@child_setPhase (system.record events) t .idle (.inl rfl)) (.of_processes rfl)
  · rename_i child index found
    generalize system.scanned (index + 1) = events
    refine @Progress.of_exits system ((system.record events).setPhase t
      (.found ⟨child, system.listedAs index⟩ index pid)) operation rfl rfl
      (fun _ _ listed => listed) (fun _ mem => mem) ?_ (.of_processes rfl)
    intro u record isChild
    by_cases same : u = t
    · subst same
      rw [setPhase_phase_same] at isChild
      refine .inr ⟨index, ?_⟩
      rw [slotRecord_eq_some, ← Option.some.inj isChild]
      exact ⟨Kernel.findChild_listed found, rfl⟩
    · rw [setPhase_phase_ne _ same] at isChild
      exact .inl isChild

/-- A record that was there before is not in the block that is handed out. -/
theorem block_ne_of_birth {record : ProcessRecord} {block : ℕ}
    (born : record.birth ≤ system.births record.block)
    (birth : Function.update system.births block (system.births block + 1) record.block =
      record.birth) : record.block ≠ block := by
  intro same
  rw [same] at born
  rw [same, Function.update_self] at birth
  omega

theorem Progress.createBegin {request : ProcessRequest} {block addressSpace : ℕ} :
    Progress operation system (system.createBegin request block addressSpace) := by
  unfold ReapSystem.createBegin
  rcases Kernel.processCreateBegin_cases system.kernel request block addressSpace with
    equation | ⟨slot, nextPid, record, equation⟩
  · rw [equation]
    exact @Progress.of_exits system (system.setKernel system.kernel) operation rfl rfl
      (fun _ _ listed => listed) (fun _ mem => mem) (fun _ _ isChild => .inl isChild)
      (.of_processes rfl)
  · rw [equation]
    refine ⟨?_, fun _ _ listed => listed, fun _ _ isChild => .inl isChild, ?_, ?_, ?_⟩
    · intro p
      by_cases same : p = block
      · subst same
        simp
      · simp [same]
    · rintro record born ⟨mem, birth⟩
      have different := block_ne_of_birth born birth
      refine ⟨?_, by simpa [different] using birth⟩
      simpa [ReapSystem.setKernel, ReapSystem.setOwner, Kernel.modifyProcess, different] using mem
    · rintro record born ⟨_, birth⟩ isOver
      have different := block_ne_of_birth born birth
      simpa [ReapSystem.setKernel, ReapSystem.setOwner, Kernel.modifyProcess, different]
        using isOver
    · rintro record born ⟨_, birth⟩ _
      have different := block_ne_of_birth born birth
      simp [ReapSystem.setKernel, ReapSystem.setOwner, Kernel.modifyProcess, different]

theorem Progress.perform {fuel : ℕ} (runs : system.perform fuel operation = some after) :
    Progress operation system after := by
  have stays : ∀ t record, (system.phase t).child = some record →
      (system.phase t).child = some record ∨ ∃ i, system.slotRecord i = some record :=
    fun _ _ isChild => .inl isChild
  cases operation with
  | call t pid =>
      simp only [ReapSystem.perform, Option.ite_none_right_eq_some, Option.some.injEq] at runs
      rw [← runs.2]
      exact .of_exits rfl rfl (fun _ _ listed => listed) (fun _ mem => mem)
        (child_setPhase (.inl rfl)) (.of_processes rfl)
  | lookup t =>
      simp only [ReapSystem.perform] at runs
      split at runs
      · rw [← Option.some.inj runs]
        exact .lookup
      · cases runs
  | contend t =>
      simp only [ReapSystem.perform] at runs
      split at runs
      · rw [Option.ite_none_right_eq_some, Option.some.injEq] at runs
        rw [← runs.2]
        exact .of_exits rfl rfl (fun _ _ listed => listed) (fun _ mem => mem) stays
          (.of_processes rfl)
      · cases runs
  | check t =>
      simp only [ReapSystem.perform] at runs
      split at runs
      · rename_i child index pid found
        rw [Option.ite_none_right_eq_some] at runs
        rcases runs with ⟨_, runs⟩
        have picked : (system.phase t).child = some child := by
          rw [found]
          rfl
        unfold ReapSystem.check at runs
        split at runs
        · rw [← Option.some.inj runs]
          exact .markExited picked
        · rcases Option.map_eq_some_iff.mp runs with ⟨queued, enqueues, rfl⟩
          have same := Kernel.SameProcesses.waitEnqueue enqueues
          refine .of_exits rfl rfl ?_ ?_
            (@child_setPhase system t (.enqueued child index pid) (.inr picked.symm))
            (.waitEnqueue enqueues)
          · intro i p listed
            rw [← same.table]
            exact listed
          · intro p mem
            rw [← same.blocks]
            exact mem
      · cases runs
  | block t =>
      simp only [ReapSystem.perform] at runs
      split at runs
      · rename_i child index pid enqueued
        rcases Option.map_eq_some_iff.mp runs with ⟨blocked, blocks, rfl⟩
        have same := Kernel.SameProcesses.threadBlock blocks
        have picked : (system.phase t).child = some child := by
          rw [enqueued]
          rfl
        refine .of_exits rfl rfl ?_ ?_
          (@child_setPhase system t (.asleep child index pid) (.inr picked.symm))
          (.of_processes (Kernel.threadBlock_processes blocks))
        · intro i p listed
          rw [← same.table]
          exact listed
        · intro p mem
          rw [← same.blocks]
          exact mem
      · cases runs
  | collect t =>
      simp only [ReapSystem.perform] at runs
      split at runs
      · rename_i child index pid asleep
        rw [Option.ite_none_right_eq_some, Option.some.injEq] at runs
        rw [← runs.2]
        apply Progress.markExited
        rw [asleep]
        rfl
      · cases runs
  | clear t =>
      simp only [ReapSystem.perform] at runs
      split at runs
      · rename_i child index pid ended
        have picked : (system.phase t).child = some child := by
          rw [ended]
          rfl
        rw [← Option.some.inj runs, ReapSystem.clear]
        generalize ((system.clearedSlots child.block index pid).map fun i =>
          ReapEvent.clear i (system.slotRecord i) child) = events
        refine .of_exits rfl rfl ?_ (fun _ mem => mem)
          (@child_setPhase system t (.unlisted child) (.inr picked.symm)) (.of_processes rfl)
        intro i p listed
        have cleared : (system.kernel.clearReaped child.block index pid).processTable i = some p :=
          listed
        simp only [Kernel.clearReaped] at cleared
        split at cleared
        · by_cases same : i = index
          · simp [same] at cleared
          · simpa [same] using cleared
        · simp only [Option.ite_none_left_eq_some] at cleared
          exact cleared.2
      · cases runs
  | free t =>
      simp only [ReapSystem.perform] at runs
      split at runs
      · rw [← Option.some.inj runs]
        exact .of_exits rfl rfl (fun _ _ listed => listed) (fun _ mem => List.mem_of_mem_erase mem)
          (child_setPhase (.inl rfl)) (.of_processes rfl)
      · cases runs
  | createBegin request block addressSpace =>
      simp only [ReapSystem.perform, Option.ite_none_left_eq_some, Option.some.injEq] at runs
      rw [← runs.2]
      exact .createBegin
  | createFinish n memory =>
      rcases Option.bind_eq_some_iff.mp runs with ⟨new, _, finishes⟩
      rcases Option.map_eq_some_iff.mp finishes with ⟨⟨answer, finished⟩, creates, rfl⟩
      exact .of_exits rfl rfl (Kernel.processCreateFinish_table creates).1
        (Kernel.processCreateFinish_table creates).2 stays (.processCreateFinish creates)
  | lock u p | unlock u p =>
      simp only [ReapSystem.perform, Option.ite_none_right_eq_some, Option.some.injEq] at runs
      rw [← runs.2]
      exact .of_exits rfl rfl (fun _ _ listed => listed) (fun _ mem =>
        mem) stays (.of_processes rfl)
  | finish u p code =>
      simp only [ReapSystem.perform, Option.ite_none_right_eq_some, Option.some.injEq] at runs
      rw [← runs.2]
      refine .mk' rfl rfl (fun _ _ listed => listed) (fun _ mem => mem) stays ?_ ?_
      · intro other isOver
        by_cases same : other = p
        · subst same
          simp [ReapSystem.setKernel, Kernel.modifyProcess, ProcessState.isOver]
        · simpa [ReapSystem.setKernel, Kernel.modifyProcess, same] using isOver
      · intro other notEnded
        have different : other ≠ p := by
          rintro rfl
          exact notEnded u code rfl
        simp [ReapSystem.setKernel, Kernel.modifyProcess, different]
  | wake u p =>
      simp only [ReapSystem.perform, Option.ite_none_right_eq_some, Option.map_eq_some_iff] at runs
      rcases runs with ⟨_, woken, wakes, rfl⟩
      have same := Kernel.SameProcesses.wakeWaiters wakes
      refine .of_exits rfl rfl ?_ ?_ stays (.wakeWaiters wakes)
      · intro i p listed
        rw [← same.table]
        exact listed
      · intro p mem
        rw [← same.blocks]
        exact mem
  | unblock tid =>
      rcases Option.map_eq_some_iff.mp runs with ⟨⟨answer, unblocked⟩, unblocks, rfl⟩
      have same := Kernel.SameProcesses.threadUnblock unblocks
      refine .of_exits rfl rfl ?_ ?_ stays (.of_processes (Kernel.threadUnblock_processes unblocks))
      · intro i p listed
        rw [← same.table]
        exact listed
      · intro p mem
        rw [← same.blocks]
        exact mem

end ReapSystem

end Goshkik

import Goshkik.Lib.Run
import Goshkik.Scheduling.Thread

/-!
# The process table over whole runs

`process_create` is cut where it releases the table lock: the section that finds
a slot, allocates the record and draws a process id, and the section that creates
the first thread and, if that fails, clears the slot again.  Any number of calls
may be between the two.  `process_cleanup` is called by `process_wait` on a child
that it has found in the table.

The first section never stores the new process in the slot it has found.  So the
table is right exactly as long as no call returns a process.
-/

namespace Goshkik

/-- The arguments of `process_create`; a missing entry function is `0`. -/
structure ProcessRequest where
  entry : ℕ
  argc : ℤ
  argv : ℕ
  ppid : ℤ
  isUserspace : Bool

/-- The request that `process_create` makes for the first thread. -/
def ProcessRequest.threadRequest (request : ProcessRequest) (pid : ℤ) : ThreadRequest where
  function := request.entry
  argc := request.argc
  argv := request.argv
  privilege := if request.isUserspace then .ring3 else .ring0
  priority := .normal
  ownerPid := (pid % 2 ^ 32).toNat

namespace Kernel

variable (kernel : Kernel)

/-- The first section of `process_create`.  `block` and `addressSpace` are what `kmalloc`
and `create_address_space` answer.  The result is the slot found, or `none` when
the call returns `NULL` from here. -/
def processCreateBegin (request : ProcessRequest) (block addressSpace : ℕ) : Option ℕ × Kernel :=
  match kernel.findFreeSlot with
  | none => (none, kernel)
  | some slot =>
      if block = 0 then (none, kernel)
      else
        (some slot,
          { kernel with
            processBlocks := block :: kernel.processBlocks
            nextPid := kernel.nextPid + 1 }.modifyProcess block (fun _ =>
              { pid := kernel.nextPid
                ppid := request.ppid
                state := .ready
                umask := 0o22
                addressSpace := if request.isUserspace then addressSpace else 0 }))

/-- The failure path of `process_create` when there is no thread. -/
def processCreateUndo (p slot : ℕ) : Kernel :=
  { kernel with
    processTable := Function.update kernel.processTable slot none
    processBlocks := kernel.processBlocks.erase p }

/-- The rest of `process_create`, for the process `p` and the slot found before. -/
def processCreateFinish (p slot : ℕ) (request : ProcessRequest) (memory : ThreadMemory) :
    Option (Option ℕ × Kernel) :=
  if request.entry = 0 then some (some p, kernel)
  else
    (kernel.threadCreate (request.threadRequest (kernel.processes p).pid) memory).map
      (fun answer =>
        match answer.1 with
        | none => (none, answer.2.processCreateUndo p slot)
        | some t =>
            (some p, answer.2.modifyProcess p (fun record => { record with mainThread := some t })))

/-- `process_cleanup`. -/
def processCleanup (child index : ℕ) (pid : ℤ) : Kernel :=
  { kernel with
    processTable :=
      if pid ≠ -1 then Function.update kernel.processTable index none
      else fun i => if kernel.processTable i = some child then none else kernel.processTable i
    processBlocks := kernel.processBlocks.erase child }

/-- `init_processes`, with the kernel process in the block `kernelProcess`. -/
def initProcesses (kernelProcess : ℕ) : Kernel :=
  { kernel with
    processTable := fun i => if i = 0 then some kernelProcess else none
    processBlocks := kernelProcess :: kernel.processBlocks }.modifyProcess kernelProcess
      (fun _ => { state := .running })

end Kernel

/-- A call of `process_create` between its two sections. -/
structure Creation where
  process : ℕ
  slot : ℕ
  request : ProcessRequest

/-- The kernel, the calls of `process_create` under way, and the live processes: the
kernel process and those a call has returned, until they are reaped. -/
structure ProcessSystem where
  kernel : Kernel
  creations : List Creation
  live : List ℕ

inductive ProcessOperation where
  | createBegin (request : ProcessRequest) (block addressSpace : ℕ)
  | createFinish (creation : Creation) (memory : ThreadMemory)
  | reap (child index : ℕ) (pid : ℤ)

inductive ProcessStep : ProcessSystem → ProcessOperation → ProcessSystem → Prop where
  | createFails {system : ProcessSystem} {request : ProcessRequest} {block addressSpace : ℕ}
      {after : Kernel} (fresh : block ∉ system.kernel.processBlocks)
      (runs : system.kernel.processCreateBegin request block addressSpace = (none, after)) :
      ProcessStep system (.createBegin request block addressSpace) { system with kernel := after }
  | createBegins {system : ProcessSystem} {request : ProcessRequest} {block addressSpace slot : ℕ}
      {after : Kernel} (fresh : block ∉ system.kernel.processBlocks)
      (runs : system.kernel.processCreateBegin request block addressSpace = (some slot, after)) :
      ProcessStep system (.createBegin request block addressSpace)
        { system with kernel := after, creations := ⟨block, slot, request⟩ :: system.creations }
  | createFinish {system : ProcessSystem} {before behind : List Creation} {creation : Creation}
      {memory : ThreadMemory} {answer : Option ℕ} {after : Kernel}
      (pending : system.creations = before ++ creation :: behind)
      (runs : system.kernel.processCreateFinish creation.process creation.slot creation.request
        memory = some (answer, after)) :
      ProcessStep system (.createFinish creation memory)
        { kernel := after, creations := before ++ behind, live := answer.toList ++ system.live }
  | reap {system : ProcessSystem} {child index : ℕ} {pid : ℤ} (isLive : child ∈ system.live)
      (found : system.kernel.processTable index = some child) (inTable : index < maxProcs)
      (wanted : pid = -1 ∨ pid = (system.kernel.processes child).pid) :
      ProcessStep system (.reap child index pid)
        { system with
          kernel := system.kernel.processCleanup child index pid
          live := system.live.filter (· ≠ child) }

/-- The state after `init_processes`. -/
def ProcessSystem.Initial (system : ProcessSystem) : Prop :=
  ∃ (kernel : Kernel) (kernelProcess : ℕ), kernelProcess ≠ 0 ∧ kernel.nextPid = 0 ∧
    system = ⟨kernel.initProcesses kernelProcess, [], [kernelProcess]⟩

/-- What the table promises about the live processes. -/
structure ProcessSystem.TableCorrect (system : ProcessSystem) : Prop where
  distinct : ∀ p ∈ system.live, ∀ q ∈ system.live,
    (system.kernel.processes p).pid = (system.kernel.processes q).pid → p = q
  slot : ∀ p ∈ system.live, ∃! i, i < maxProcs ∧ system.kernel.processTable i = some p
  found : ∀ p ∈ system.live, system.kernel.processFromPid (system.kernel.processes p).pid = some p
  missing : ∀ pid, (∀ p ∈ system.live, (system.kernel.processes p).pid ≠ pid) →
    system.kernel.processFromPid pid = none

/-- A call of `process_create` that gets past its first section has an entry function
for which no thread can be created. -/
def ProcessSystem.CreatesNone (system : ProcessSystem) : ProcessOperation → Prop
  | .createFinish creation memory =>
      creation.request.entry ≠ 0 ∧
        (system.kernel.threadCreate (creation.request.threadRequest
          (system.kernel.processes creation.process).pid) memory).map Prod.fst = some none
  | _ => True

/-! ## What creating a thread leaves alone -/

namespace Kernel

variable {kernel after : Kernel} {t : ℕ}

/-- Two kernels with the same process table and the same process ids. -/
structure SameProcesses (before after : Kernel) : Prop where
  table : after.processTable = before.processTable
  blocks : after.processBlocks = before.processBlocks
  pid : ∀ p, (after.processes p).pid = (before.processes p).pid

theorem SameProcesses.trans {middle : Kernel} (first : SameProcesses kernel middle)
    (second : SameProcesses middle after) : SameProcesses kernel after :=
  ⟨second.table.trans first.table, second.blocks.trans first.blocks,
    fun p => (second.pid p).trans (first.pid p)⟩

theorem SameProcesses.appendReady (runs : kernel.appendReady t = some after) :
    SameProcesses kernel after := by
  simp only [Kernel.appendReady] at runs
  split at runs
  · rw [← Option.some.inj runs]
    exact ⟨rfl, rfl, fun _ => rfl⟩
  · split at runs
    · simp at runs
    · rw [← Option.some.inj runs]
      exact ⟨rfl, rfl, fun _ => rfl⟩

theorem SameProcesses.attachOwner (kernel : Kernel) (t ownerPid : ℕ) :
    SameProcesses kernel (kernel.attachOwner t ownerPid) := by
  unfold Kernel.attachOwner
  split
  · exact ⟨rfl, rfl, fun _ => rfl⟩
  · rename_i owner _
    refine ⟨rfl, rfl, fun p => ?_⟩
    by_cases same : p = owner
    · subst same
      simp [processAddThread, modifyProcess, modifyThread]
    · simp [processAddThread, modifyProcess, modifyThread, same]

theorem SameProcesses.threadCreate {request : ThreadRequest} {memory : ThreadMemory}
    {answer : Option ℕ} (runs : kernel.threadCreate request memory = some (answer, after)) :
    SameProcesses kernel after := by
  have built : SameProcesses kernel (kernel.buildThread request memory) := by
    unfold Kernel.buildThread
    generalize (kernel.nextTid + 1) % 2 ^ 32 = nextTid
    refine SameProcesses.trans ?_ (SameProcesses.attachOwner _ _ _)
    exact ⟨rfl, rfl, fun _ => rfl⟩
  simp only [Kernel.threadCreate] at runs
  split at runs
  · simp only [Option.some.injEq, Prod.mk.injEq] at runs
    rw [← runs.2]
    exact ⟨rfl, rfl, fun _ => rfl⟩
  split at runs
  · simp only [Option.some.injEq, Prod.mk.injEq] at runs
    rw [← runs.2]
    exact ⟨rfl, rfl, fun _ => rfl⟩
  generalize kernel.buildThread request memory = new at built runs
  split at runs
  · simp only [Option.some.injEq, Prod.mk.injEq] at runs
    rw [← runs.2]
    exact ⟨built.table, built.blocks, built.pid⟩
  · simp only [Option.map_eq_some_iff, Prod.mk.injEq, exists_eq_right_right] at runs
    rename_i slot _
    have claimed : SameProcesses kernel (new.claimThreadSlot slot memory.thread) :=
      ⟨built.table, built.blocks, built.pid⟩
    exact claimed.trans (SameProcesses.appendReady runs.1)

end Kernel

theorem Kernel.findFreeSlot_empty {kernel : Kernel} {slot : ℕ}
    (found : kernel.findFreeSlot = some slot) : kernel.processTable slot = none := by
  rw [Kernel.findFreeSlot] at found
  simpa using List.find?_some found

/-! ## Runs without a successful creation -/

namespace ProcessSystem

/-- Only the kernel process is ever live and in the table, until it is reaped. -/
structure KernelOnly (system : ProcessSystem) : Prop where
  alone : ∀ p ∈ system.live, ∀ q ∈ system.live, p = q
  pid : ∀ p ∈ system.live, (system.kernel.processes p).pid = 0
  allocated : ∀ p ∈ system.live, p ∈ system.kernel.processBlocks
  listed : ∀ p ∈ system.live, system.kernel.processTable 0 = some p
  table : ∀ i p, system.kernel.processTable i = some p → i = 0 ∧ p ∈ system.live
  pending : ∀ creation ∈ system.creations, creation.process ∉ system.live ∧
    system.kernel.processTable creation.slot = none

namespace KernelOnly

variable {system : ProcessSystem}

theorem tableCorrect (only : system.KernelOnly) : system.TableCorrect where
  distinct p mem q otherMem _ := only.alone p mem q otherMem
  slot p mem := by
    refine ⟨0, ⟨by decide, only.listed p mem⟩, ?_⟩
    rintro i ⟨_, listed⟩
    exact (only.table i p listed).1
  found p mem := by
    have first : system.kernel.processAt 0 0 = some p := by
      simp [Kernel.processAt, only.listed p mem, only.pid p mem]
    rw [only.pid p mem]
    rw [Kernel.processFromPid, if_neg (Int.lt_irrefl 0)]
    rw [show maxProcs = 1023 + 1 from rfl, List.range_succ_eq_map, List.findSome?_cons, first]
  missing pid different := by
    unfold Kernel.processFromPid
    split
    · rfl
    · rw [List.findSome?_eq_none_iff]
      intro i _
      rw [Kernel.processAt, Option.filter_eq_none_iff]
      intro p listed
      simpa using different p (only.table i p listed).2

/-- The kernel process survives a step that keeps the table and the live records. -/
theorem transfer (only : system.KernelOnly) {kernel : Kernel} {creations : List Creation}
    (table : kernel.processTable = system.kernel.processTable)
    (pid : ∀ p ∈ system.live, (kernel.processes p).pid = (system.kernel.processes p).pid)
    (allocated : ∀ p ∈ system.live, p ∈ kernel.processBlocks)
    (pending : ∀ creation ∈ creations, creation.process ∉ system.live ∧
      system.kernel.processTable creation.slot = none) :
    KernelOnly ⟨kernel, creations, system.live⟩ where
  alone := only.alone
  pid p mem := (pid p mem).trans (only.pid p mem)
  allocated := allocated
  listed p mem := (congrFun table 0).trans (only.listed p mem)
  table i p listed := only.table i p ((congrFun table i).symm.trans listed)
  pending creation mem :=
    ⟨(pending creation mem).1, (congrFun table creation.slot).trans (pending creation mem).2⟩

theorem createBegin (only : system.KernelOnly) {request : ProcessRequest}
    {block addressSpace : ℕ} {answer : Option ℕ} {after : Kernel} {creations : List Creation}
    (fresh : block ∉ system.kernel.processBlocks)
    (runs : system.kernel.processCreateBegin request block addressSpace = (answer, after))
    (pending : ∀ creation ∈ creations, creation ∈ system.creations ∨
      ∃ slot, answer = some slot ∧ creation = Creation.mk block slot request) :
    KernelOnly ⟨after, creations, system.live⟩ := by
  have others : ∀ p ∈ system.kernel.processBlocks, p ≠ block := by
    rintro p mem rfl
    exact fresh mem
  have unchanged (noSlot : answer = none) :
      KernelOnly ⟨system.kernel, creations, system.live⟩ := by
    apply only.transfer
    · rfl
    · exact fun _ _ => rfl
    · exact only.allocated
    · intro creation mem
      rcases pending creation mem with earlier | ⟨slot, isSome, _⟩
      · exact only.pending creation earlier
      · exact absurd (noSlot.symm.trans isSome) (Option.some_ne_none slot).symm
  unfold Kernel.processCreateBegin at runs
  split at runs
  · simp only [Prod.mk.injEq] at runs
    rw [← runs.2]
    exact unchanged runs.1.symm
  split at runs
  · simp only [Prod.mk.injEq] at runs
    rw [← runs.2]
    exact unchanged runs.1.symm
  · rename_i slot free _
    simp only [Prod.mk.injEq] at runs
    rw [← runs.2]
    apply only.transfer
    · rfl
    · intro p mem
      simp [Kernel.modifyProcess, others p (only.allocated p mem)]
    · exact fun p mem => List.mem_cons_of_mem _ (only.allocated p mem)
    · intro creation mem
      rcases pending creation mem with earlier | ⟨found, isSome, rfl⟩
      · exact only.pending creation earlier
      · rw [← runs.1, Option.some.injEq] at isSome
        subst isSome
        exact ⟨fun isLive => fresh (only.allocated block isLive), Kernel.findFreeSlot_empty free⟩

/-- A creation whose thread cannot be created clears a slot that is empty anyway. -/
theorem createFinish (only : system.KernelOnly) {before behind : List Creation}
    {creation : Creation} {memory : ThreadMemory} {answer : Option ℕ} {after : Kernel}
    (pending : system.creations = before ++ creation :: behind)
    (guard : system.CreatesNone (.createFinish creation memory))
    (runs : system.kernel.processCreateFinish creation.process creation.slot creation.request
      memory = some (answer, after)) :
    KernelOnly ⟨after, before ++ behind, answer.toList ++ system.live⟩ := by
  rcases guard with ⟨entry, noThread⟩
  rcases Option.map_eq_some_iff.mp noThread with ⟨⟨thread, created⟩, creates, rfl⟩
  have same := Kernel.SameProcesses.threadCreate creates
  have own := only.pending creation (by simp [pending])
  rw [Kernel.processCreateFinish, if_neg entry, creates] at runs
  simp only [Option.map_some, Option.some.injEq, Prod.mk.injEq] at runs
  rcases runs with ⟨rfl, rfl⟩
  apply only.transfer
  · simp only [Kernel.processCreateUndo, same.table]
    rw [← own.2]
    exact Function.update_eq_self _ _
  · exact fun p _ => same.pid p
  · intro p mem
    rw [Kernel.processCreateUndo, same.blocks]
    refine (List.mem_erase_of_ne ?_).mpr (only.allocated p mem)
    rintro rfl
    exact own.1 mem
  · intro other mem
    apply only.pending other
    rw [pending]
    rcases List.mem_append.mp mem with earlier | later
    · exact List.mem_append_left _ earlier
    · exact List.mem_append_right _ (List.mem_cons_of_mem _ later)

theorem reap (only : system.KernelOnly) {child index : ℕ} {pid : ℤ} (isLive : child ∈ system.live)
    (found : system.kernel.processTable index = some child) :
    KernelOnly ⟨system.kernel.processCleanup child index pid, system.creations,
      system.live.filter (· ≠ child)⟩ := by
  have nobody : system.live.filter (· ≠ child) = [] := by
    rw [List.filter_eq_nil_iff]
    intro p mem
    simpa using only.alone p mem child isLive
  have empty : ∀ i, (system.kernel.processCleanup child index pid).processTable i = none := by
    intro i
    have first : index = 0 := (only.table index child found).1
    cases listed : system.kernel.processTable i with
    | none =>
        by_cases any : pid = -1
        · simp [Kernel.processCleanup, any, listed]
        · simp [Kernel.processCleanup, any, Function.update_apply, listed]
    | some p =>
        rcases only.table i p listed with ⟨rfl, mem⟩
        by_cases any : pid = -1 <;>
          simp [Kernel.processCleanup, any, first, listed, only.alone p mem child isLive]
  rw [nobody]
  refine ⟨by simp, by simp, by simp, by simp, ?_, ?_⟩
  · intro i p listed
    simp [empty i] at listed
  · exact fun creation _ => ⟨by simp, empty creation.slot⟩

theorem step {after : ProcessSystem} {operation : ProcessOperation} (only : system.KernelOnly)
    (guard : system.CreatesNone operation) (step : ProcessStep system operation after) :
    after.KernelOnly := by
  cases step with
  | createFails fresh runs =>
      exact only.createBegin fresh runs (fun creation mem => Or.inl mem)
  | createBegins fresh runs =>
      apply only.createBegin fresh runs
      intro creation mem
      rcases List.mem_cons.mp mem with rfl | earlier
      · exact Or.inr ⟨_, rfl, rfl⟩
      · exact Or.inl earlier
  | createFinish pending runs => exact only.createFinish pending guard runs
  | reap isLive found inTable wanted => exact only.reap isLive found

/-- A call that returns a process breaks the promise: the process is in no slot. -/
theorem step_unguarded {after : ProcessSystem} {operation : ProcessOperation}
    (only : system.KernelOnly) (guard : ¬ system.CreatesNone operation)
    (step : ProcessStep system operation after) : ¬ after.TableCorrect := by
  intro correct
  cases step with
  | createFails fresh runs => exact guard trivial
  | createBegins fresh runs => exact guard trivial
  | reap isLive found inTable wanted => exact guard trivial
  | createFinish pending runs =>
      rename_i creation memory answer kernel
      have own := only.pending creation (by simp [pending])
      have returned : answer = some creation.process ∧
          kernel.processTable = system.kernel.processTable := by
        by_cases entry : creation.request.entry = 0
        · rw [Kernel.processCreateFinish, if_pos entry] at runs
          simp only [Option.some.injEq, Prod.mk.injEq] at runs
          exact ⟨runs.1.symm, congrArg Kernel.processTable runs.2.symm⟩
        · rw [Kernel.processCreateFinish, if_neg entry, Option.map_eq_some_iff] at runs
          rcases runs with ⟨⟨thread, created⟩, creates, returns⟩
          cases thread with
          | none =>
              refine absurd ⟨entry, ?_⟩ guard
              rw [creates]
              rfl
          | some t =>
              simp only [Prod.mk.injEq] at returns
              rcases returns with ⟨rfl, rfl⟩
              exact ⟨rfl, (Kernel.SameProcesses.threadCreate creates).table⟩
      rcases returned with ⟨rfl, table⟩
      rcases correct.slot creation.process (by simp) with ⟨i, ⟨_, listed⟩, _⟩
      rw [table] at listed
      exact own.1 (only.table i _ listed).2

end KernelOnly

theorem Initial.kernelOnly {system : ProcessSystem} (initial : system.Initial) :
    system.KernelOnly := by
  rcases initial with ⟨kernel, kernelProcess, _, _, rfl⟩
  refine ⟨by simp, ?_, by simp [Kernel.initProcesses, Kernel.modifyProcess], ?_, ?_, by simp⟩
  · simp [Kernel.initProcesses, Kernel.modifyProcess]
  · simp [Kernel.initProcesses, Kernel.modifyProcess]
  · intro i p listed
    simp only [Kernel.initProcesses, Kernel.modifyProcess] at listed
    split at listed
    · exact ⟨by assumption, by simpa using listed.symm⟩
    · simp at listed

end ProcessSystem

/-- In every run in which no call of `process_create` gets a thread, or goes without
one, the table is right in every state reached; the first step that is not of this
kind leaves it wrong. -/
theorem process_table_guarded_runs {start last : ProcessSystem}
    {operations : List ProcessOperation} (initial : start.Initial)
    (run : Transition.Run (Transition.Guarded ProcessSystem.CreatesNone ProcessStep) start
      operations last) :
    last.TableCorrect ∧ ∀ operation after, ProcessStep last operation after →
      (after.TableCorrect ↔ last.CreatesNone operation) := by
  have only : last.KernelOnly :=
    run.invariant (fun _ _ _ only guarded => only.step guarded.1 guarded.2) initial.kernelOnly
  refine ⟨only.tableCorrect, fun operation after step => ⟨?_, ?_⟩⟩
  · intro correct
    by_contra guard
    exact only.step_unguarded guard step correct
  · exact fun guard => (only.step guard step).tableCorrect

/-! ## The first process -/

/-- The system after `init_processes`, before any thread exists. -/
def firstSystem : ProcessSystem where
  kernel := Kernel.initProcesses
    { threads := fun _ => {}
      processes := fun _ => {}
      threadBlocks := []
      processBlocks := []
      readyHead := none
      readyTail := none
      currentThread := none
      threadTable := fun _ => none
      threadCount := 0
      nextTid := 0
      processTable := fun _ => none
      nextPid := 0 } 0x100
  creations := []
  live := [0x100]

theorem firstSystem_initial : firstSystem.Initial :=
  ⟨_, 0x100, by decide, rfl, rfl⟩

/-- A request for a process of the kernel without an entry function. -/
def emptyRequest : ProcessRequest := ⟨0, 0, 0, 0, false⟩

/-- The same with an entry function. -/
def entryRequest : ProcessRequest := ⟨0x4000, 0, 0, 0, false⟩

def reservedSystem (request : ProcessRequest) : ProcessSystem where
  kernel := (firstSystem.kernel.processCreateBegin request 0x200 0).2
  creations := [⟨0x200, 1, request⟩]
  live := [0x100]

theorem reservedSystem_step (request : ProcessRequest) :
    ProcessStep firstSystem (.createBegin request 0x200 0) (reservedSystem request) := by
  have slot : firstSystem.kernel.findFreeSlot = some 1 := by decide +kernel
  have runs : firstSystem.kernel.processCreateBegin request 0x200 0 =
      (some 1, (firstSystem.kernel.processCreateBegin request 0x200 0).2) := by
    unfold Kernel.processCreateBegin
    rw [slot]
    rfl
  exact .createBegins (by decide) runs

/-- One call has passed its first section: the table still lists the kernel process
alone, and finishing the call with `kmalloc` out of memory keeps it so. -/
theorem process_table_guarded_runs_outOfMemory :
    (reservedSystem entryRequest).TableCorrect ∧
      (reservedSystem entryRequest).CreatesNone
        (.createFinish ⟨0x200, 1, entryRequest⟩ ⟨0, 0, 0⟩) := by
  have run : Transition.Run (Transition.Guarded ProcessSystem.CreatesNone ProcessStep) firstSystem
      [.createBegin entryRequest 0x200 0] (reservedSystem entryRequest) :=
    .cons ⟨trivial, reservedSystem_step entryRequest⟩ (.nil _)
  exact ⟨(process_table_guarded_runs firstSystem_initial run).1, by decide, by decide +kernel⟩

/-- The system once `process_create` has returned the process in the block `0x200`. -/
def createdSystem : ProcessSystem where
  kernel := (reservedSystem emptyRequest).kernel
  creations := []
  live := [0x200, 0x100]

/-- The first process that `process_create` returns has the id of the kernel process
and is in no slot of the table. -/
theorem process_create_unlisted :
    firstSystem.Initial ∧ ∃ operations last,
      Transition.Run ProcessStep firstSystem operations last ∧ ¬ last.TableCorrect := by
  refine ⟨firstSystem_initial, [.createBegin emptyRequest 0x200 0,
    .createFinish ⟨0x200, 1, emptyRequest⟩ ⟨0, 0, 0⟩],
    createdSystem, ?_, ?_⟩
  · refine .cons (reservedSystem_step emptyRequest) (.cons ?_ (.nil _))
    exact @ProcessStep.createFinish (reservedSystem emptyRequest) [] [] ⟨0x200, 1, emptyRequest⟩
      ⟨0, 0, 0⟩ (some 0x200) _ rfl rfl
  · intro correct
    have samePid : (createdSystem.kernel.processes 0x200).pid =
        (createdSystem.kernel.processes 0x100).pid := by
      decide +kernel
    have same := correct.distinct 0x200 (by decide) 0x100 (by decide) samePid
    simp at same

end Goshkik

import Goshkik.Scheduling.LockPrograms

/-!
# Reaping a child

This file cuts `process_wait` and `process_cleanup` where they take and release a lock:
the loop over the process table, the test of the child's state, `thread_block`, the
second look at the child, the section that clears the slot, and `kfree`.  Any
number of threads may be between these steps.  `process_create` is cut in the same way,
and the threads that end a process take the lock of the process and write its state.

A block may be handed out again after `kfree`, so a record is a block together with
the count of the records that were in it before.  `history` lists, latest first, which
records the waiters have read and freed and which slots they have cleared.
-/

namespace Goshkik

/-- A process record from the `kmalloc` that hands its block out to the `kfree` that takes
the block back. -/
structure ProcessRecord where
  block : ℕ
  birth : ℕ
  deriving DecidableEq

/-- Where a thread is inside `process_wait`.  `index` is the slot the child was found in. -/
inductive WaitPhase where
  | idle
  | calling (parent pid : ℤ)
  | found (child : ProcessRecord) (index : ℕ) (pid : ℤ)
  | enqueued (child : ProcessRecord) (index : ℕ) (pid : ℤ)
  | asleep (child : ProcessRecord) (index : ℕ) (pid : ℤ)
  | ended (child : ProcessRecord) (index : ℕ) (pid : ℤ)
  | unlisted (child : ProcessRecord)
  deriving DecidableEq

namespace WaitPhase

/-- The child that the call has picked. -/
def child : WaitPhase → Option ProcessRecord
  | .idle => none
  | .calling _ _ => none
  | .found child _ _ => some child
  | .enqueued child _ _ => some child
  | .asleep child _ _ => some child
  | .ended child _ _ => some child
  | .unlisted child => some child

/-- The child that the call has found over. -/
def collected : WaitPhase → Option ProcessRecord
  | .ended child _ _ => some child
  | .unlisted child => some child
  | _ => none

/-- The child whose lock the call asks for. -/
def wanted : WaitPhase → Option ProcessRecord
  | .found child _ _ => some child
  | .asleep child _ _ => some child
  | _ => none

theorem child_of_collected {phase : WaitPhase} {record : ProcessRecord}
    (collected : phase.collected = some record) : phase.child = some record := by
  cases phase <;> simp_all [WaitPhase.collected, WaitPhase.child]

theorem child_of_wanted {phase : WaitPhase} {record : ProcessRecord}
    (wanted : phase.wanted = some record) : phase.child = some record := by
  cases phase <;> simp_all [WaitPhase.wanted, WaitPhase.child]

end WaitPhase

inductive ReapEvent where
  | read (child : ProcessRecord)
  | clear (slot : ℕ) (occupant : Option ProcessRecord) (child : ProcessRecord)
  | free (child : ProcessRecord)
  deriving DecidableEq

/-- In this history, latest event first, every record is freed at most once and never read
afterwards, and a waiter clears only slots that refer to its child. -/
structure ReapedOnce (history : List ReapEvent) : Prop where
  freedOnce : ∀ record, history.count (.free record) ≤ 1
  noReadAfterFree : ∀ record newer older, history = newer ++ .read record :: older →
    .free record ∉ older
  clearsOwn : ∀ slot occupant child, .clear slot occupant child ∈ history → occupant = some child

/-- A call of `process_create` between its two sections. -/
structure PendingProcess extends Creation where
  birth : ℕ

def PendingProcess.record (pending : PendingProcess) : ProcessRecord :=
  ⟨pending.process, pending.birth⟩

/-- `births` counts the process records that a block has held, and `listedAs` says which one
of them a slot of the process table refers to. -/
structure ReapSystem where
  kernel : Kernel
  owner : ℕ → Option ℕ
  phase : ℕ → WaitPhase
  pending : List PendingProcess
  births : ℕ → ℕ
  listedAs : ℕ → ℕ
  history : List ReapEvent

inductive ReapOperation where
  | call (t : ℕ) (pid : ℤ)
  | lookup (t : ℕ)
  | contend (t : ℕ)
  | check (t : ℕ)
  | block (t : ℕ)
  | collect (t : ℕ)
  | clear (t : ℕ)
  | free (t : ℕ)
  | createBegin (request : ProcessRequest) (block addressSpace : ℕ)
  | createFinish (n : ℕ) (memory : ThreadMemory)
  | lock (u p : ℕ)
  | unlock (u p : ℕ)
  | finish (u p : ℕ) (code : ℤ)
  | wake (u p : ℕ)
  | unblock (tid : ℕ)

/-- The first section of `process_cleanup`. -/
def Kernel.clearReaped (kernel : Kernel) (child index : ℕ) (pid : ℤ) : Kernel :=
  { kernel with
    processTable :=
      if pid ≠ -1 then Function.update kernel.processTable index none
      else fun i => if kernel.processTable i = some child then none else kernel.processTable i }

/-- `kfree(child)`. -/
def Kernel.freeProcess (kernel : Kernel) (child : ℕ) : Kernel :=
  { kernel with processBlocks := kernel.processBlocks.erase child }

theorem Kernel.processCleanup_eq (kernel : Kernel) (child index : ℕ) (pid : ℤ) :
    kernel.processCleanup child index pid =
      (kernel.clearReaped child index pid).freeProcess child :=
  rfl

namespace ReapSystem

variable (system : ReapSystem)

def setPhase (t : ℕ) (phase : WaitPhase) : ReapSystem :=
  { system with phase := Function.update system.phase t phase }

def setKernel (kernel : Kernel) : ReapSystem := { system with kernel := kernel }

def setOwner (p : ℕ) (owner : Option ℕ) : ReapSystem :=
  { system with owner := Function.update system.owner p owner }

def record (events : List ReapEvent) : ReapSystem :=
  { system with history := events ++ system.history }

@[simp]
theorem setPhase_phase_same (t : ℕ) (phase : WaitPhase) :
    (system.setPhase t phase).phase t = phase := by
  simp [setPhase]

theorem setPhase_phase_ne {t u : ℕ} (different : u ≠ t) (phase : WaitPhase) :
    (system.setPhase t phase).phase u = system.phase u := by
  simp [setPhase, different]

@[simp]
theorem record_phase (events : List ReapEvent) : (system.record events).phase = system.phase := rfl

/-- The record that a slot of the process table refers to. -/
def slotRecord (i : ℕ) : Option ProcessRecord :=
  (system.kernel.processTable i).map (fun p => ⟨p, system.listedAs i⟩)

/-- The records that the loop of `process_wait` reads on its way to the given slot. -/
def scanned (slots : ℕ) : List ReapEvent :=
  ((List.range slots).filterMap system.slotRecord).map ReapEvent.read

def lookup (t : ℕ) (parent pid : ℤ) : ReapSystem :=
  match system.kernel.findChild parent pid with
  | none => (system.record (system.scanned maxProcs)).setPhase t .idle
  | some (child, index) =>
      (system.record (system.scanned (index + 1))).setPhase t
        (.found ⟨child, system.listedAs index⟩ index pid)

/-- The child is marked as exited and its exit code read, under its lock. -/
def markExited (t : ℕ) (child : ProcessRecord) (index : ℕ) (pid : ℤ) : ReapSystem :=
  ((system.setKernel (system.kernel.modifyProcess child.block (fun record =>
    { record with state := .exited }))).record [.read child]).setPhase t (.ended child index pid)

/-- The section of `process_wait` on the lock of the child.  A thread that has to wait goes
on with the lock. -/
def check (t : ℕ) (child : ProcessRecord) (index : ℕ) (pid : ℤ) : Option ReapSystem :=
  if (system.kernel.processes child.block).state.isOver then
    some (system.markExited t child index pid)
  else
    (system.kernel.waitEnqueue child.block t).map (fun queued =>
      (((system.setKernel queued).setOwner child.block (some t)).record [.read child]).setPhase t
        (.enqueued child index pid))

def clearedSlots (child index : ℕ) (pid : ℤ) : List ℕ :=
  if pid ≠ -1 then [index]
  else (List.range maxProcs).filter (fun i => system.kernel.processTable i = some child)

def clear (t : ℕ) (child : ProcessRecord) (index : ℕ) (pid : ℤ) : ReapSystem :=
  ((system.setKernel (system.kernel.clearReaped child.block index pid)).record
    ((system.clearedSlots child.block index pid).map (fun i =>
      .clear i (system.slotRecord i) child))).setPhase t (.unlisted child)

/-- The end of `process_cleanup`, which reads the address space of the child first. -/
def free (t : ℕ) (child : ProcessRecord) : ReapSystem :=
  ((system.setKernel (system.kernel.freeProcess child.block)).record
    [.free child, .read child]).setPhase t .idle

def createBegin (request : ProcessRequest) (block addressSpace : ℕ) : ReapSystem :=
  match system.kernel.processCreateBegin request block addressSpace with
  | (none, kernel) => system.setKernel kernel
  | (some slot, kernel) =>
      { (system.setKernel kernel).setOwner block none with
        births := Function.update system.births block (system.births block + 1)
        pending := ⟨⟨block, slot, request⟩, system.births block + 1⟩ :: system.pending }

def createFinish (n : ℕ) (pending : PendingProcess) (memory : ThreadMemory) : Option ReapSystem :=
  (system.kernel.processCreateFinish pending.process pending.slot pending.request memory).map
    (fun answer =>
      { (system.setKernel answer.2).record
          (if answer.1 = none then [.free pending.record] else []) with
        pending := system.pending.eraseIdx n })

/-- One step.  An operation that halts, faults or has to wait takes none. -/
def perform (fuel : ℕ) : ReapOperation → Option ReapSystem
  | .call t pid =>
      if system.phase t = .idle then
        some (system.setPhase t
          (.calling (pidOfOwner (system.kernel.threads t).oPid) pid))
      else none
  | .lookup t =>
      match system.phase t with
      | .calling parent pid => some (system.lookup t parent pid)
      | _ => none
  | .contend t =>
      match (system.phase t).wanted with
      | some child =>
          if (system.kernel.threads t).state ≠ .blocked ∧ system.owner child.block ≠ none then
            some (system.record [.read child])
          else none
      | none => none
  | .check t =>
      match system.phase t with
      | .found child index pid =>
          if system.owner child.block = none then system.check t child index pid else none
      | _ => none
  | .block t =>
      match system.phase t with
      | .enqueued child index pid =>
          (system.kernel.threadBlock fuel (system.kernel.threads t).tid).map (fun blocked =>
            (system.setKernel blocked).setPhase t (.asleep child index pid))
      | _ => none
  | .collect t =>
      match system.phase t with
      | .asleep child index pid =>
          if (system.kernel.threads t).state ≠ .blocked ∧ system.owner child.block = none then
            some (system.markExited t child index pid)
          else none
      | _ => none
  | .clear t =>
      match system.phase t with
      | .ended child index pid => some (system.clear t child index pid)
      | _ => none
  | .free t =>
      match system.phase t with
      | .unlisted child => some (system.free t child)
      | _ => none
  | .createBegin request block addressSpace =>
      if block ∈ system.kernel.processBlocks then none
      else some (system.createBegin request block addressSpace)
  | .createFinish n memory =>
      (system.pending[n]?).bind (fun pending => system.createFinish n pending memory)
  | .lock u p =>
      if system.phase u = .idle ∧ system.owner p = none then some (system.setOwner p (some u))
      else none
  | .unlock u p =>
      if system.phase u = .idle ∧ system.owner p = some u then some (system.setOwner p none)
      else none
  | .finish u p code =>
      if system.phase u = .idle ∧ system.owner p = some u then
        some (system.setKernel (system.kernel.modifyProcess p (fun record =>
          { record with exitCode := code, state := .zombie })))
      else none
  | .wake u p =>
      if system.phase u = .idle ∧ system.owner p = some u then
        (system.kernel.wakeWaiters fuel p).map system.setKernel
      else none
  | .unblock tid =>
      (system.kernel.threadUnblock tid).map (fun answer => system.setKernel answer.2)

end ReapSystem

def ReapStep (system : ReapSystem) (operation : ReapOperation) (after : ReapSystem) : Prop :=
  ∃ fuel, system.perform fuel operation = some after

namespace ReapSystem

/-- No call is under way, and each process of the table is in one slot and has not been
freed. -/
structure Started (system : ReapSystem) : Prop where
  idle : ∀ t, system.phase t = .idle
  pending : system.pending = []
  history : system.history = []
  listed : ∀ i p, system.kernel.processTable i = some p →
    p ∈ system.kernel.processBlocks ∧ system.births p = system.listedAs i
  single : ∀ i j p, system.kernel.processTable i = some p → system.kernel.processTable j = some p →
    i = j
  blocks : system.kernel.processBlocks.Nodup

/-- A call that finds its child over is the only one that has picked this child, and no
call picks a child that another one has found over. -/
def CollectsAlone (system : ReapSystem) : ReapOperation → Prop
  | .check t => ∀ child index pid, system.phase t = .found child index pid →
      (system.kernel.processes child.block).state.isOver →
        ∀ u, u ≠ t → ∀ other, (system.phase u).child = some other → other.block ≠ child.block
  | .lookup t => ∀ parent pid child index, system.phase t = .calling parent pid →
      system.kernel.findChild parent pid = some (child, index) →
        ∀ u other, (system.phase u).collected = some other → other.block ≠ child
  | _ => True

end ReapSystem

end Goshkik

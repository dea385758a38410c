import Goshkik.Scheduling.TickLoop

/-!
# The schedule lock during a tick

`scheduler_tick` takes and drops `schedule_lock` around each of its queue
operations, but `remove_from_ready_queue`, which it calls with the lock held,
takes the lock itself, and the commit of a selection drops the lock although it
is not held.  So a tick keeps the discipline of the lock only if it neither
removes nor dispatches any thread.
-/

namespace Goshkik

inductive SpinEvent where
  | acquire
  | release
  deriving DecidableEq

/-- The lock operations of `remove_from_ready_queue`. -/
def removeEvents : List SpinEvent := [.acquire, .release]

namespace Kernel

/-- The lock operations of the prologue of a tick. -/
def prologueEvents (kernel : Kernel) : List SpinEvent :=
  match kernel.currentThread with
  | none => []
  | some old =>
      match (kernel.threads old).state with
      | .running | .ready => [.acquire, .release]
      | .blocked | .termed => [.acquire] ++ removeEvents ++ [.release]

/-- The lock operations around the dequeue loop, counted when the loop is left. -/
def selectEvents (kernel : Kernel) : List SpinEvent :=
  if kernel.tickSelect.1 = .selecting then [] else [.acquire, .release]

def considerEvents (kernel : Kernel) (next : ℕ) : List SpinEvent :=
  if (kernel.threads next).state = .blocked ∨ (kernel.threads next).state = .termed then
    [.acquire] ++ removeEvents ++ [.release]
  else if 0 < (kernel.threads next).cooldown then [.acquire, .release]
  else if (kernel.threads next).privilege = .ring3 ∧ (kernel.threads next).kernelStack = 0 then []
  else [.release]

def cleanUpEvents (kernel : Kernel) : List SpinEvent :=
  (List.range maxThreads).flatMap (fun slot =>
    match (kernel.threadTable slot).filter (fun t => (kernel.threads t).state = .termed) with
    | none => []
    | some _ => removeEvents)

/-- The lock operations of the selection loop within a number of turns. -/
def loopEvents : ℕ → Kernel → TickPhase → List SpinEvent
  | 0, _, _ => []
  | _ + 1, _, .idle => []
  | fuel + 1, kernel, .selecting =>
      kernel.selectEvents ++ loopEvents fuel kernel.tickSelect.2 kernel.tickSelect.1
  | fuel + 1, kernel, .considering next =>
      kernel.considerEvents next ++
        match kernel.tickConsider fuel next with
        | none => []
        | some (phase, after) => loopEvents fuel after phase
  | _ + 1, kernel, .dispatched => kernel.cleanUpEvents

/-- The lock operations of `scheduler_tick` within a number of turns. -/
def tickEvents (fuel : ℕ) (kernel : Kernel) : Option Context → List SpinEvent
  | none => []
  | some context =>
      kernel.prologueEvents ++
        match kernel.tickPrologue fuel context with
        | none => []
        | some after => loopEvents fuel after .selecting

/-- A user thread without a kernel stack, which a tick terminates instead of dispatching it. -/
def Stackless (kernel : Kernel) (t : ℕ) : Prop :=
  (kernel.threads t).privilege = .ring3 ∧ (kernel.threads t).kernelStack = 0

/-- A thread that the loop neither removes nor dispatches. -/
def Discarded (kernel : Kernel) (t : ℕ) : Prop :=
  (kernel.threads t).state ≠ .blocked ∧ (kernel.threads t).state ≠ .termed ∧ kernel.Stackless t

/-- Nothing is left for the loop to remove or to dispatch. -/
structure Quiet (kernel : Kernel) (queue : List ℕ) : Prop where
  queued : ∀ t ∈ queue, kernel.ownedByZombie t = true ∨ kernel.Discarded t
  ready : ∀ slot t, 1 ≤ slot → slot < maxThreads → kernel.threadTable slot = some t →
    (kernel.threads t).state = .ready → kernel.Stackless t
  first : ∀ t, kernel.threadTable 0 = some t →
    (kernel.threads t).state = .termed ∨ kernel.Discarded t

/-! ## The turns of the loop -/

section Turns

variable {kernel after : Kernel} {queue rest pool : List ℕ} {t : ℕ}

/-- Two kernels that a tick cannot tell apart when it looks for a thread. -/
structure SameChoices (before after : Kernel) : Prop where
  state : ∀ t, (after.threads t).state = (before.threads t).state
  stackless : ∀ t, after.Stackless t ↔ before.Stackless t
  zombie : ∀ t, after.ownedByZombie t = before.ownedByZombie t
  table : after.threadTable = before.threadTable

theorem Relinked.sameChoices (relinked : Relinked kernel after) : SameChoices kernel after where
  state := relinked.state
  stackless t := by rw [Stackless, Stackless, relinked.privilege, relinked.kernelStack]
  zombie := relinked.ownedByZombie
  table := relinked.threadTable

theorem SameChoices.trans {middle : Kernel} (first : SameChoices kernel middle)
    (second : SameChoices middle after) : SameChoices kernel after where
  state t := (second.state t).trans (first.state t)
  stackless t := (second.stackless t).trans (first.stackless t)
  zombie t := (second.zombie t).trans (first.zombie t)
  table := second.table.trans first.table

/-- Writing a field of a thread that does not matter for the choice. -/
theorem SameChoices.modifyThread {change : Thread → Thread}
    (state : (change (kernel.threads t)).state = (kernel.threads t).state)
    (privilege : (change (kernel.threads t)).privilege = (kernel.threads t).privilege)
    (kernelStack : (change (kernel.threads t)).kernelStack = (kernel.threads t).kernelStack)
    (proc : (change (kernel.threads t)).proc = (kernel.threads t).proc) :
    SameChoices kernel (kernel.modifyThread t change) := by
  refine ⟨?_, ?_, ?_, rfl⟩
  all_goals
    intro node
    by_cases same : node = t
  · rw [same, modifyThread_threads_same, state]
  · rw [modifyThread_threads_ne _ _ _ same]
  · rw [same, Stackless, Stackless, modifyThread_threads_same, privilege, kernelStack]
  · rw [Stackless, Stackless, modifyThread_threads_ne _ _ _ same]
  · simp only [same, Kernel.ownedByZombie, modifyThread_threads_same, proc]
    rfl
  · simp only [Kernel.ownedByZombie, modifyThread_threads_ne _ _ _ same]
    rfl

theorem SameChoices.cool (t : ℕ) : SameChoices kernel (kernel.cool t) :=
  SameChoices.modifyThread rfl rfl rfl rfl

theorem SameChoices.discarded (same : SameChoices kernel after) (t : ℕ) :
    after.Discarded t ↔ kernel.Discarded t := by
  rw [Discarded, Discarded, same.state, same.stackless]

theorem SameChoices.quiet (same : SameChoices kernel after) :
    after.Quiet queue ↔ kernel.Quiet queue := by
  constructor
  · rintro ⟨queued, ready, first⟩
    simp only [same.zombie, same.discarded, same.table, same.state, same.stackless]
      at queued ready first
    exact ⟨queued, ready, first⟩
  · rintro ⟨queued, ready, first⟩
    refine ⟨?_, ?_, ?_⟩ <;>
      simpa only [same.zombie, same.discarded, same.table, same.state, same.stackless]

/-- A thread that the table offers when the queue is empty. -/
def Offered (kernel : Kernel) (t : ℕ) : Prop :=
  (∃ slot, 1 ≤ slot ∧ slot < maxThreads ∧ kernel.threadTable slot = some t ∧
    (kernel.threads t).state = .ready) ∨
    (kernel.threadTable 0 = some t ∧ (kernel.threads t).state ≠ .termed)

theorem Quiet.discarded (quiet : kernel.Quiet queue) (offered : kernel.Offered t) :
    kernel.Discarded t := by
  rcases offered with ⟨slot, positive, inTable, listed, ready⟩ | ⟨listed, alive⟩
  · exact ⟨by simp [ready], by simp [ready], quiet.ready slot t positive inTable listed ready⟩
  · rcases quiet.first t listed with termed | discarded
    · exact absurd termed alive
    · exact discarded

/-- The pool of threads that the loop can meet. -/
structure Covers (kernel : Kernel) (pool queue : List ℕ) : Prop where
  queued : ∀ t ∈ queue, t ∈ pool
  listed : ∀ slot t, slot < maxThreads → kernel.threadTable slot = some t → t ∈ pool

theorem SameChoices.covers (same : SameChoices kernel after) (covers : kernel.Covers pool queue)
    (queued : ∀ t ∈ rest, t ∈ pool) : after.Covers pool rest := by
  refine ⟨queued, ?_⟩
  rw [same.table]
  exact covers.listed

theorem discard_stackless (other : ℕ) : (kernel.discard t).Stackless other ↔
    kernel.Stackless other := by
  by_cases same : other = t
  · subst same
    simp [discard, setState, Stackless]
  · rw [Stackless, Stackless, discard_threads_ne same]

theorem discard_zombie (other : ℕ) :
    (kernel.discard t).ownedByZombie other = kernel.ownedByZombie other := by
  by_cases same : other = t
  · subst same
    simp only [Kernel.ownedByZombie, discard, setState, modifyThread_threads_same]
    rfl
  · simp only [Kernel.ownedByZombie, discard_threads_ne same]
    rfl

end Turns

end Kernel

end Goshkik

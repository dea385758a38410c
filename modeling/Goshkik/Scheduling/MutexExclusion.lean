import Goshkik.Scheduling.LinkExclusivity

/-!
# Mutual exclusion

A thread holds a mutex from the step in which its `acquire_mutex` takes it until its own
`release_mutex`.  This is recorded beside the system, apart from the fields of the mutex.

In every run, from any state of the kernel and with ticks of the scheduler between any two steps,
a mutex has at most one holder, and the holder is its owner.
-/

namespace Goshkik

open Transition

namespace LockSystem

/-- The mutex that an operation takes for the current thread. -/
def takes (system : LockSystem) : LockOperation → Option ℕ
  | .proceed =>
      match system.currentFrames with
      | .acquireMutex m :: _ => if (system.mutexes m).locked then none else some m
      | _ => none
  | _ => none

/-- The mutex that the current thread gives up with an operation, if it holds it. -/
def givesUp (system : LockSystem) : LockOperation → Option ℕ
  | .releaseMutex m => some m
  | .proceed =>
      match system.currentFrames with
      | .unlockThreadMutex :: _ => some threadMutex
      | _ => none
  | _ => none

end LockSystem

/-- The system, and which threads hold which mutexes. -/
structure HeldSystem where
  system : LockSystem
  held : List (ℕ × ℕ)

namespace HeldSystem

/-- The holders behind an operation of the current thread. -/
def heldAfter (before : HeldSystem) (operation : LockOperation) : List (ℕ × ℕ) :=
  before.held.filter (fun holding =>
    !(before.system.kernel.currentThread == some holding.1 &&
      before.system.givesUp operation == some holding.2)) ++
    match before.system.kernel.currentThread, before.system.takes operation with
    | some t, some m => [(t, m)]
    | _, _ => []

def step (fuel : ℕ) (before : HeldSystem) (operation : LockOperation) : Option HeldSystem :=
  (before.system.step fuel operation).map (fun system => ⟨system, before.heldAfter operation⟩)

def steps (fuel : ℕ) (start : HeldSystem) (operations : List LockOperation) : Option HeldSystem :=
  operations.foldlM (step fuel) start

end HeldSystem

def HeldStep (before : HeldSystem) (operation : LockOperation) (after : HeldSystem) : Prop :=
  ∃ fuel, before.step fuel operation = some after

/-- A holder is the owner of a locked mutex. -/
def HeldSystem.Owned (state : HeldSystem) : Prop :=
  ∀ t m, (t, m) ∈ state.held →
    (state.system.mutexes m).locked = true ∧ (state.system.mutexes m).owner = some t

namespace LockSystem

/-- What a step may do to a mutex: nothing to its owner, anything while nobody has it, or the
current thread gives up its own. -/
structure Respects (before : LockSystem) (givesUp : Option ℕ) (after : LockSystem) : Prop where
  kept : ∀ m, (before.mutexes m).locked = true →
    (after.mutexes m).locked = true ∧ (after.mutexes m).owner = (before.mutexes m).owner ∨
      (before.mutexes m).owner = before.kernel.currentThread ∧ givesUp = some m

variable {system middle after : LockSystem} {operation : LockOperation} {given : Option ℕ}
  {c m fuel : ℕ} {rest : List Frame}

theorem Respects.of_mutexes (same : after.mutexes = system.mutexes) : system.Respects given after :=
  ⟨fun m locked => .inl ⟨by rw [same, locked], by rw [same]⟩⟩

theorem queueWaiter_owner (kernel : Kernel) (mutex : Mutex) (current : ℕ) :
    (kernel.queueWaiter mutex current).2.locked = mutex.locked ∧
      (kernel.queueWaiter mutex current).2.owner = mutex.owner := by
  unfold Kernel.queueWaiter
  cases mutex.waiterTail <;> exact ⟨rfl, rfl⟩

/-- The section of `acquire_mutex` takes a mutex that nobody has, and leaves the owner of another
one. -/
theorem acquireSection_cases {kernel queued : Kernel} {mutex changed : Mutex} {taken : Bool}
    (acquires : kernel.acquireSection mutex = some (taken, queued, changed)) :
    (taken = false ∧ mutex.locked = true ∧ changed.locked = true ∧ changed.owner = mutex.owner) ∨
      (taken = true ∧ mutex.locked = false ∧ changed = mutex.take kernel.currentThread) := by
  unfold Kernel.acquireSection at acquires
  split at acquires
  · rename_i locked
    rcases Option.map_eq_some_iff.mp acquires with ⟨current, _, answer⟩
    rcases Prod.mk.inj answer with ⟨isTaken, isQueued⟩
    have isChanged : (kernel.queueWaiter mutex current).2 = changed := congrArg Prod.snd isQueued
    rcases queueWaiter_owner kernel mutex current with ⟨sameLock, sameOwner⟩
    rw [isChanged] at sameLock sameOwner
    exact .inl ⟨isTaken.symm, locked, sameLock.trans locked, sameOwner⟩
  · rename_i unlocked
    cases acquires
    exact .inr ⟨rfl, Bool.eq_false_iff.mpr unlocked, rfl⟩

/-- A mutex is exchanged for one with the same owner. -/
theorem Respects.of_update {mutex : Mutex}
    (same : (system.mutexes m).locked = true →
      mutex.locked = true ∧ mutex.owner = (system.mutexes m).owner)
    (updates : after.mutexes = Function.update system.mutexes m mutex) :
    system.Respects given after := by
  refine ⟨fun other locked => .inl ?_⟩
  rw [updates]
  by_cases isOther : other = m
  · subst isOther
    rw [Function.update_self]
    exact same locked
  · rw [Function.update_of_ne isOther]
    exact ⟨locked, rfl⟩

/-- Only the owner gives a mutex up. -/
theorem release_respects (runs : system.release fuel m = some after) :
    system.Respects (some m) after := by
  rcases Option.map_eq_some_iff.mp runs with ⟨⟨kernel, mutex⟩, releases, rfl⟩
  by_cases isOwner : (system.mutexes m).owner = system.kernel.currentThread
  · refine ⟨fun other locked => ?_⟩
    by_cases isOther : other = m
    · subst isOther
      exact .inr ⟨isOwner, rfl⟩
    · refine .inl ?_
      have same : (system.setMutex kernel m mutex).mutexes other = system.mutexes other :=
        Function.update_of_ne isOther ..
      exact ⟨by rw [same, locked], by rw [same]⟩
  · rw [Kernel.releaseMutex, if_pos isOwner] at releases
    cases releases
    exact .of_update (fun locked => ⟨locked, rfl⟩) rfl

/-- A turn of `acquire_mutex` takes the mutex if nobody has it. -/
theorem acquireTurn_respects (runs : system.acquireTurn c m rest = some after) :
    system.Respects given after ∧ ((system.mutexes m).locked = false →
      (after.mutexes m).locked = true ∧
        (after.mutexes m).owner = system.kernel.currentThread) := by
  rcases Option.map_eq_some_iff.mp runs with ⟨⟨taken, kernel, mutex⟩, acquires, rfl⟩
  rcases acquireSection_cases acquires with
    ⟨_, locked, stillLocked, sameOwner⟩ | ⟨_, unlocked, rfl⟩
  · refine ⟨.of_update (fun _ => ⟨stillLocked, sameOwner⟩) rfl, fun unlocked => ?_⟩
    rw [unlocked] at locked
    cases locked
  · have isTaken : (system.setMutex kernel m ((system.mutexes m).take
        system.kernel.currentThread)).mutexes m =
          (system.mutexes m).take system.kernel.currentThread := Function.update_self ..
    refine ⟨.of_update (fun locked => ?_) rfl, fun _ =>
      ⟨congrArg Mutex.locked isTaken, congrArg Mutex.owner isTaken⟩⟩
    rw [unlocked] at locked
    cases locked

/-- What a tick does under the thread mutex, it does to a mutex that nobody has. -/
theorem tickSection_respects {body : Kernel → Option Kernel}
    (runs : system.tickSection fuel body = some after) : system.Respects given after := by
  unfold tickSection at runs
  split at runs
  · cases runs
    exact .of_mutexes rfl
  · rename_i queued mutex acquires
    cases runs
    rcases acquireSection_cases acquires with ⟨_, _, stillLocked, sameOwner⟩ | ⟨isTaken, _⟩
    · exact .of_update (fun _ => ⟨stillLocked, sameOwner⟩) rfl
    · cases isTaken
  · rename_i taken mutex acquires
    rcases Option.bind_eq_some_iff.mp runs with ⟨kernel, _, releases⟩
    rcases Option.map_eq_some_iff.mp releases with ⟨⟨last, released⟩, _, rfl⟩
    refine ⟨fun m locked => .inl ?_⟩
    have isOther : m ≠ threadMutex := by
      rintro rfl
      rcases acquireSection_cases acquires with ⟨isTaken, _⟩ | ⟨_, unlocked, _⟩
      · cases isTaken
      · rw [unlocked] at locked
        cases locked
    have same : ((system.setMutex kernel threadMutex mutex).setMutex last threadMutex
        released).mutexes m = system.mutexes m :=
      (Function.update_of_ne isOther ..).trans (Function.update_of_ne isOther ..)
    exact ⟨by rw [same, locked], by rw [same]⟩

/-! ## Steps -/

/-- A step respects the holders, and what the current thread takes becomes its own. -/
def Fair (before : LockSystem) (operation : LockOperation) (after : LockSystem) : Prop :=
  before.Respects (before.givesUp operation) after ∧ ∀ t m,
    before.kernel.currentThread = some t → before.takes operation = some m →
      (after.mutexes m).locked = true ∧ (after.mutexes m).owner = some t

theorem Fair.of_respects (respects : system.Respects (system.givesUp operation) after)
    (takesNone : system.takes operation = none) : system.Fair operation after := by
  refine ⟨respects, fun t m _ takes => ?_⟩
  rw [takesNone] at takes
  cases takes

/-- A step that leaves the mutexes alone. -/
theorem Fair.of_mutexes (same : after.mutexes = system.mutexes)
    (takesNone : system.takes operation = none) : system.Fair operation after :=
  .of_respects (.of_mutexes same) takesNone

theorem proceed_fair (isCurrent : system.kernel.currentThread = some c)
    (runs : system.proceed fuel c = some after) : system.Fair .proceed after := by
  have frames := currentFrames_eq isCurrent
  unfold proceed at runs
  split at runs
  · cases runs
  · rename_i m rest isControl
    rw [isControl] at frames
    rcases acquireTurn_respects runs with ⟨respects, takes⟩
    refine ⟨respects, fun t other isThread isTaken => ?_⟩
    simp only [LockSystem.takes, frames] at isTaken
    split at isTaken
    · cases isTaken
    · rename_i unlocked
      cases isTaken
      rw [← isThread]
      exact takes (Bool.not_eq_true _ ▸ unlocked)
  · rename_i tid rest isControl
    rw [isControl] at frames
    cases runs
    exact .of_mutexes rfl (by simp only [LockSystem.takes, frames])
  · rename_i rest isControl
    rw [isControl] at frames
    rcases Option.map_eq_some_iff.mp runs with ⟨released, releases, rfl⟩
    have gives : system.givesUp .proceed = some threadMutex := by
      simp only [givesUp, frames]
    refine .of_respects ?_ (by simp only [LockSystem.takes, frames])
    rw [gives]
    exact ⟨(release_respects releases).kept⟩
  · rename_i t rest isControl
    rw [isControl] at frames
    cases runs
    refine .of_mutexes ?_ (by simp only [LockSystem.takes, frames])
    unfold mark
    split
    · rfl
    · split <;> rfl
  · rename_i t rest isControl
    rw [isControl] at frames
    rcases Option.map_eq_some_iff.mp runs with ⟨removed, _, rfl⟩
    exact .of_mutexes rfl (by simp only [LockSystem.takes, frames])
  · cases runs

theorem interrupt_mutexes {context : Context} (runs : system.interrupt fuel context = some after) :
    after.mutexes = system.mutexes := by
  rcases Option.map_eq_some_iff.mp runs with ⟨saved, _, rfl⟩
  rfl

theorem threadStep_fair (isCurrent : system.kernel.currentThread = some c)
    (runs : system.threadStep fuel c operation = some after) : system.Fair operation after := by
  cases operation with
  | acquireMutex m =>
      simp only [threadStep, Option.ite_none_right_eq_some, Option.some.injEq] at runs
      rcases runs with ⟨_, rfl⟩
      exact .of_mutexes rfl rfl
  | releaseMutex m =>
      simp only [threadStep, Option.ite_none_right_eq_some] at runs
      exact .of_respects (release_respects runs.2) rfl
  | processWait child =>
      simp only [threadStep, Option.ite_none_right_eq_some] at runs
      rcases Option.map_eq_some_iff.mp runs.2 with ⟨queued, _, rfl⟩
      exact .of_mutexes rfl rfl
  | proceed => exact proceed_fair isCurrent runs
  | softwareInterrupt context =>
      simp only [threadStep] at runs
      split at runs
      · exact .of_mutexes ((interrupt_mutexes runs).trans rfl) rfl
      · cases runs
  | timerInterrupt context => cases runs
  | tickSelect => cases runs
  | tickConsider => cases runs
  | tickCleanUp => cases runs

theorem tickSelect_respects (runs : system.tickSelect fuel = some after) :
    system.Respects given after := by
  unfold tickSelect at runs
  split at runs
  · cases runs
    exact .of_mutexes rfl
  · rcases Option.map_eq_some_iff.mp runs with ⟨released, section', rfl⟩
    have respects : system.Respects given released := tickSection_respects section'
    split <;> exact ⟨respects.kept⟩

theorem step_fair (steps : LockStep system operation after) : system.Fair operation after := by
  rcases steps with ⟨fuel, runs⟩
  unfold step at runs
  split at runs
  · cases runs
  · split at runs
    · exact .of_mutexes (interrupt_mutexes runs) rfl
    · rcases Option.bind_eq_some_iff.mp runs with ⟨current, isCurrent, runs⟩
      exact threadStep_fair isCurrent runs
    · exact .of_respects (tickSelect_respects runs) rfl
    · rcases Option.map_eq_some_iff.mp runs with ⟨answer, _, rfl⟩
      exact .of_mutexes rfl rfl
    · rcases Option.map_eq_some_iff.mp runs with ⟨released, section', rfl⟩
      exact .of_respects ⟨(tickSection_respects section').kept⟩ rfl
    · cases runs

end LockSystem

/-! ## Runs -/

namespace HeldSystem

variable {before after last : HeldSystem} {operation : LockOperation} {t m fuel : ℕ}

theorem mem_heldAfter (holds : (t, m) ∈ before.heldAfter operation) :
    ((t, m) ∈ before.held ∧ ¬(before.system.kernel.currentThread = some t ∧
      before.system.givesUp operation = some m)) ∨
    (before.system.kernel.currentThread = some t ∧ before.system.takes operation = some m) := by
  rcases List.mem_append.mp holds with keeps | taken
  · rcases List.mem_filter.mp keeps with ⟨already, kept⟩
    exact .inl ⟨already, fun gives => by simp [gives.1, gives.2] at kept⟩
  · refine .inr ?_
    split at taken
    · rename_i current mutex isCurrent isTaken
      cases List.mem_singleton.mp taken
      exact ⟨isCurrent, isTaken⟩
    · cases taken

theorem Owned.step (owned : before.Owned) (steps : HeldStep before operation after) :
    after.Owned := by
  rcases steps with ⟨fuel, runs⟩
  rcases Option.map_eq_some_iff.mp runs with ⟨system, locks, rfl⟩
  rcases LockSystem.step_fair ⟨fuel, locks⟩ with ⟨respects, takes⟩
  intro t m holds
  rcases mem_heldAfter holds with ⟨already, keeps⟩ | ⟨isCurrent, isTaken⟩
  · rcases owned t m already with ⟨locked, isOwner⟩
    rcases respects.kept m locked with ⟨still, sameOwner⟩ | ⟨mine, gives⟩
    · exact ⟨still, sameOwner.trans isOwner⟩
    · exact absurd ⟨mine.symm.trans isOwner, gives⟩ keeps
  · exact takes t m isCurrent isTaken

theorem run_of_steps {start : HeldSystem} {operations : List LockOperation}
    (returns : start.steps fuel operations = some last) : Run HeldStep start operations last := by
  induction operations generalizing start with
  | nil =>
      cases returns
      exact .nil _
  | cons operation operations hypothesis =>
      simp only [steps, List.foldlM_cons] at returns
      rcases Option.bind_eq_some_iff.mp returns with ⟨second, first, rest⟩
      exact .cons ⟨fuel, first⟩ (hypothesis rest)

end HeldSystem

/-- In every run a mutex has at most one holder, which is its owner. -/
theorem mutual_exclusion {start last : HeldSystem} {operations : List LockOperation}
    (nobody : start.held = []) (run : Run HeldStep start operations last) :
    (∀ t u m, (t, m) ∈ last.held → (u, m) ∈ last.held → t = u) ∧
      ∀ t m, (t, m) ∈ last.held →
        (last.system.mutexes m).locked = true ∧ (last.system.mutexes m).owner = some t := by
  have owned : last.Owned := by
    refine run.invariant (fun _ _ _ owned steps => owned.step steps) ?_
    intro t m holds
    rw [nobody] at holds
    cases holds
  refine ⟨fun t u m first second => ?_, owned⟩
  exact Option.some.inj ((owned t m first).2.symm.trans (owned u m second).2)

/-- The third thread asks for the mutex that the first one holds. -/
theorem mutual_exclusion_waitForMutex : ∃ last : HeldSystem,
    (0x1000, 1) ∈ last.held ∧ (last.system.kernel.threads 0x1200).state = .blocked ∧
      (∀ t, (t, 1) ∈ last.held → 0x1000 = t) ∧ (last.system.mutexes 1).owner = some 0x1000 := by
  have waits : (HeldSystem.steps 8 ⟨LockSystem.start threeThreads, []⟩ waitForMutex).map
      (fun last => (decide ((0x1000, 1) ∈ last.held),
        (last.system.kernel.threads 0x1200).state)) = some (true, .blocked) := by
    decide +kernel
  rcases Option.map_eq_some_iff.mp waits with ⟨last, returns, answer⟩
  rw [Prod.mk.injEq] at answer
  have holds := of_decide_eq_true answer.1
  rcases mutual_exclusion rfl (HeldSystem.run_of_steps returns) with ⟨one, owned⟩
  exact ⟨last, holds, answer.2, fun t other => one _ _ 1 holds other, (owned _ 1 holds).2⟩

end Goshkik

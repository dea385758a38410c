import Goshkik.Scheduling.LockOrder

/-!
# Waiting for a child

`process_wait` puts the calling thread on the wait list of the child and calls
`thread_block` without releasing the lock of the child.  So a thread that has to wait
is blocked as the owner of this lock, and the operations that end the child stop at
it.  As long as every call finds that the child is over, the wait list stays empty.
-/

namespace Goshkik

/-- Whoever waits for this child finds that it is over. -/
def LockSite.over (child : ℕ) : LockSite → Kernel → Bool
  | .waitForChild p, kernel => p ≠ child ∨ (kernel.processes p).state.isOver
  | _, _ => true

def LockSite.Over (child : ℕ) (site : LockSite) (kernel : Kernel) : Prop :=
  site.over child kernel = true

/-- Nobody is on the wait list of the child. -/
def Kernel.NoWaiter (child : ℕ) (kernel : Kernel) : Prop :=
  (kernel.processes child).waitHead = none

namespace Kernel.NoWaiter

variable {child t p : ℕ} {kernel after : Kernel}

theorem congr (unwaited : kernel.NoWaiter child) (same : after.processes = kernel.processes) :
    after.NoWaiter child := by
  unfold Kernel.NoWaiter
  rw [same]
  exact unwaited

/-- A record that is written keeps its wait list or loses it. -/
theorem modifyProcess (unwaited : kernel.NoWaiter child) {change : Process → Process}
    (keeps : ∀ record, record.waitHead = none → (change record).waitHead = none) :
    (kernel.modifyProcess p change).NoWaiter child := by
  by_cases same : child = p
  · subst same
    simpa [Kernel.NoWaiter, Kernel.modifyProcess] using keeps _ unwaited
  · simpa [Kernel.NoWaiter, Kernel.modifyProcess, same] using unwaited

theorem processAddThread (unwaited : kernel.NoWaiter child) :
    (kernel.processAddThread p t).NoWaiter child := by
  have owned : (kernel.modifyThread t (fun record =>
      { record with oPid := ((kernel.processes p).pid % 2 ^ 32).toNat, proc := some p })).NoWaiter
        child := unwaited
  unfold Kernel.processAddThread
  apply owned.modifyProcess
  exact fun _ empty => empty

theorem processRemoveThread (unwaited : kernel.NoWaiter child) :
    (kernel.processRemoveThread p t).NoWaiter child :=
  unwaited.modifyProcess (fun _ empty => empty)

theorem processCreateBegin (unwaited : kernel.NoWaiter child) {request : ProcessRequest}
    {block addressSpace : ℕ} :
    (kernel.processCreateBegin request block addressSpace).2.NoWaiter child := by
  unfold Kernel.processCreateBegin
  split
  · exact unwaited
  · split
    · exact unwaited
    · have allocated : { kernel with
          processBlocks := block :: kernel.processBlocks
          nextPid := kernel.nextPid + 1 }.NoWaiter child := unwaited
      dsimp only
      apply allocated.modifyProcess
      exact fun _ _ => rfl

theorem processCreateUndo (unwaited : kernel.NoWaiter child) {slot : ℕ} :
    (kernel.processCreateUndo p slot).NoWaiter child :=
  unwaited

theorem processCleanup (unwaited : kernel.NoWaiter child) {index : ℕ} {pid : ℤ} :
    (kernel.processCleanup p index pid).NoWaiter child :=
  unwaited

/-- A thread goes on the wait list of another process. -/
theorem waitEnqueue (unwaited : kernel.NoWaiter child) (different : p ≠ child)
    (runs : kernel.waitEnqueue p t = some after) : after.NoWaiter child := by
  have elsewhere (other : Kernel) (change : Process → Process)
      (same : other.processes = kernel.processes) :
      (other.modifyProcess p change).NoWaiter child := by
    simpa [Kernel.NoWaiter, Kernel.modifyProcess, Ne.symm different, same] using unwaited
  simp only [Kernel.waitEnqueue] at runs
  split at runs
  · rw [← Option.some.inj runs]
    exact elsewhere _ _ rfl
  · split at runs
    · simp at runs
    · rw [← Option.some.inj runs]
      exact elsewhere _ _ rfl

end Kernel.NoWaiter

namespace KernelProgram

/-- The sections of the program leave the wait list of the child empty. -/
def Unwaited (child : ℕ) (program : KernelProgram) : Prop :=
  program.Keeps (LockSite.Over child) (Kernel.NoWaiter child)

variable {child : ℕ} {lock : KernelLock} {next : KernelProgram} {fuel self t p : ℕ}

theorem unwaited_run {site : LockSite} {effect : Kernel → Kernel} {next : Kernel → KernelProgram}
    (keeps : ∀ kernel, site.Over child kernel → kernel.NoWaiter child →
      (effect kernel).NoWaiter child)
    (rest : ∀ kernel, site.Over child kernel → kernel.NoWaiter child →
      Unwaited child (next kernel)) :
    Unwaited child (.run site effect next) :=
  fun kernel isOver unwaited => ⟨keeps kernel isOver unwaited, rest kernel isOver unwaited⟩

theorem unwaited_inspect {next : Kernel → KernelProgram}
    (rest : ∀ kernel, kernel.NoWaiter child → Unwaited child (next kernel)) :
    Unwaited child (inspect next) :=
  unwaited_run (fun _ _ unwaited => unwaited) (fun kernel _ unwaited => rest kernel unwaited)

theorem unwaited_update {effect : Kernel → Kernel}
    (keeps : ∀ kernel, kernel.NoWaiter child → (effect kernel).NoWaiter child)
    (rest : Unwaited child next) : Unwaited child (update effect next) :=
  unwaited_run (fun kernel _ unwaited => keeps kernel unwaited) (fun _ _ _ => rest)

theorem unwaited_attempt {effect : Kernel → Option Kernel}
    (keeps : ∀ kernel after, effect kernel = some after → kernel.NoWaiter child →
      after.NoWaiter child)
    (rest : Unwaited child next) : Unwaited child (attempt effect next) := by
  apply unwaited_run
  · intro kernel _ unwaited
    cases runs : effect kernel with
    | none => exact unwaited
    | some after => exact keeps kernel after runs unwaited
  · intro kernel _ _
    split
    · exact rest
    · trivial

theorem unwaited_locked {effect : Kernel → Kernel} {next : Kernel → KernelProgram}
    (keeps : ∀ kernel, kernel.NoWaiter child → (effect kernel).NoWaiter child)
    (rest : ∀ kernel, kernel.NoWaiter child → Unwaited child (next kernel)) :
    Unwaited child (locked lock effect next) :=
  unwaited_run (fun kernel _ unwaited => keeps kernel unwaited)
    (fun kernel _ unwaited => rest kernel unwaited)

theorem unwaited_processFromPid {pid : ℤ} {next : Option ℕ → KernelProgram}
    (rest : ∀ found, Unwaited child (next found)) : Unwaited child (processFromPid pid next) := by
  unfold processFromPid
  split
  · exact rest none
  · exact unwaited_locked (fun _ unwaited => unwaited) (fun kernel _ => rest _)

theorem unwaited_processAddThread (rest : Unwaited child next) :
    Unwaited child (processAddThread p t next) :=
  unwaited_locked (fun _ unwaited => unwaited.processAddThread) (fun _ _ => rest)

theorem unwaited_processRemoveThread (rest : Unwaited child next) :
    Unwaited child (processRemoveThread p t next) :=
  unwaited_locked (fun _ unwaited => unwaited.processRemoveThread) (fun _ _ => rest)

theorem unwaited_removeFromReadyQueue (rest : Unwaited child next) :
    Unwaited child (attempt (fun kernel => kernel.removeFromReadyQueue fuel (some t)) next) := by
  apply unwaited_attempt _ rest
  intro kernel after runs unwaited
  exact unwaited.congr (Kernel.Relinked.removeFromReadyQueue runs).processes

theorem unwaited_claimSlot {next : Option ℕ → KernelProgram}
    (rest : ∀ answer, Unwaited child (next answer)) : Unwaited child (claimSlot t next) := by
  apply unwaited_run
  · intro kernel _ unwaited
    split
    · exact unwaited
    · exact unwaited
  · intro kernel _ _
    split
    · exact rest none
    · apply unwaited_attempt _ (rest (some t))
      intro before after runs unwaited
      exact unwaited.congr (Kernel.Relinked.appendReady runs).processes

theorem unwaited_threadCreate {request : ThreadRequest} {memory : ThreadMemory}
    {next : Option ℕ → KernelProgram} (rest : ∀ answer, Unwaited child (next answer)) :
    Unwaited child (threadCreate request memory next) := by
  unfold threadCreate
  split
  · exact rest none
  · apply unwaited_run
    · intro kernel _ unwaited
      split
      · exact unwaited
      · split
        · exact unwaited
        · exact unwaited
    · intro kernel _ _
      split
      · exact rest none
      · apply unwaited_processFromPid
        intro owner
        cases owner with
        | none => exact unwaited_claimSlot rest
        | some p => exact unwaited_processAddThread (unwaited_claimSlot rest)

theorem unwaited_threadBlock {tid : ℕ} (rest : Unwaited child next) :
    Unwaited child (threadBlock fuel tid next) := by
  apply unwaited_locked (fun _ unwaited => unwaited)
  intro kernel _
  split
  · trivial
  · apply unwaited_inspect
    intro kernel _
    split
    · trivial
    · apply unwaited_update (fun _ unwaited => unwaited)
      exact unwaited_removeFromReadyQueue rest

theorem unwaited_threadUnblock {tid : ℕ} (rest : Unwaited child next) :
    Unwaited child (threadUnblock tid next) := by
  apply unwaited_locked (fun _ unwaited => unwaited)
  intro kernel _
  split
  · exact rest
  · apply unwaited_attempt _ rest
    intro before after runs unwaited
    split at runs
    · rw [← Option.some.inj runs]
      exact unwaited
    · exact unwaited.congr (Kernel.Relinked.appendReady runs).processes

theorem unwaited_wakeFrom (rest : Unwaited child next) (cur : Option ℕ) :
    Unwaited child (wakeFrom fuel cur next) := by
  induction fuel generalizing cur with
  | zero =>
      cases cur with
      | none => exact rest
      | some waiter => trivial
  | succ fuel ih =>
      cases cur with
      | none => exact rest
      | some waiter =>
          apply unwaited_inspect
          intro kernel _
          apply unwaited_threadUnblock
          exact unwaited_inspect (fun kernel _ => ih _)

theorem unwaited_wakeWaiters (rest : Unwaited child next) :
    Unwaited child (wakeWaiters fuel p next) := by
  apply unwaited_run (fun _ _ unwaited => unwaited)
  intro kernel _ _
  apply unwaited_wakeFrom
  apply unwaited_update _ rest
  exact fun _ unwaited => unwaited.modifyProcess (fun _ _ => rfl)

theorem unwaited_exitEnd : Unwaited child (exitEnd self) := by
  apply unwaited_locked (fun _ unwaited => unwaited)
  intro kernel _
  apply unwaited_update (fun _ unwaited => unwaited)
  trivial

theorem unwaited_threadExit : Unwaited child (threadExit fuel self) := by
  apply unwaited_inspect
  intro kernel _
  split
  · trivial
  · split
    · exact unwaited_exitEnd
    · apply unwaited_locked
      · intro kernel unwaited
        split
        · exact unwaited.modifyProcess (fun _ empty => empty)
        · exact unwaited
      · intro kernel _
        split
        · exact unwaited_wakeWaiters unwaited_exitEnd
        · exact unwaited_exitEnd

theorem unwaited_terminateEnd (rest : Unwaited child next) :
    Unwaited child (terminateEnd fuel t next) :=
  unwaited_update (fun _ unwaited => unwaited) (unwaited_removeFromReadyQueue rest)

theorem unwaited_threadTerminate {tid : ℕ} (rest : Unwaited child next) :
    Unwaited child (threadTerminate fuel self tid next) := by
  unfold threadTerminate
  split
  · exact rest
  · apply unwaited_run
    · intro kernel _ unwaited
      split
      · exact unwaited
      · split
        · exact unwaited
        · exact unwaited
    · intro kernel _ _
      split
      · exact rest
      · split
        · exact unwaited_threadExit
        · split
          · exact unwaited_terminateEnd rest
          · exact unwaited_processRemoveThread (unwaited_terminateEnd rest)

theorem unwaited_cleanUpSlots (slots : List ℕ) (rest : Unwaited child next) :
    Unwaited child (cleanUpSlots fuel slots next) := by
  induction slots with
  | nil => exact rest
  | cons slot slots ih =>
      apply unwaited_inspect
      intro kernel _
      split
      · exact ih
      · split
        · apply unwaited_removeFromReadyQueue
          split
          · exact unwaited_update (fun _ unwaited => unwaited) ih
          · apply unwaited_processRemoveThread
            exact unwaited_update (fun _ unwaited => unwaited) ih
        · exact ih

theorem unwaited_processCreate {request : ProcessRequest} {block addressSpace : ℕ}
    {memory : ThreadMemory} {next : Option ℕ → KernelProgram}
    (rest : ∀ answer, Unwaited child (next answer)) :
    Unwaited child (processCreate request block addressSpace memory next) := by
  apply unwaited_locked (fun _ unwaited => unwaited.processCreateBegin)
  intro kernel _
  split
  · exact rest none
  · split
    · exact rest (some block)
    · apply unwaited_inspect
      intro kernel _
      apply unwaited_threadCreate
      intro answer
      cases answer with
      | none =>
          exact unwaited_locked (fun _ unwaited => unwaited.processCreateUndo)
            (fun _ _ => rest none)
      | some t =>
          apply unwaited_update _ (rest (some block))
          exact fun _ unwaited => unwaited.modifyProcess (fun _ empty => empty)

theorem unwaited_processExit {code : ℤ} : Unwaited child (processExit fuel self code) := by
  apply unwaited_inspect
  intro kernel _
  apply unwaited_processFromPid
  intro found
  cases found with
  | none => trivial
  | some p =>
      apply unwaited_locked
      · exact fun _ unwaited => unwaited.modifyProcess (fun _ empty => empty)
      · exact fun _ _ => unwaited_wakeWaiters unwaited_threadExit

theorem unwaited_processTerminate {pid : ℤ} (rest : Unwaited child next) :
    Unwaited child (processTerminate fuel self pid next) := by
  unfold processTerminate
  split
  · exact rest
  · apply unwaited_processFromPid
    intro found
    cases found with
    | none => exact rest
    | some p =>
        apply unwaited_run
        · exact fun _ _ unwaited => unwaited.modifyProcess (fun _ empty => empty)
        · intro kernel _ _
          split
          · exact rest
          · exact unwaited_threadTerminate rest

theorem unwaited_processCleanup {index : ℕ} {pid : ℤ} (rest : Unwaited child next) :
    Unwaited child (processCleanup p index pid next) :=
  unwaited_locked (fun _ unwaited => unwaited.processCleanup) (fun _ _ => rest)

theorem unwaited_collectChild {index : ℕ} {pid : ℤ} (rest : Unwaited child next) :
    Unwaited child (collectChild p index pid next) := by
  apply unwaited_locked
  · exact fun _ unwaited => unwaited.modifyProcess (fun _ empty => empty)
  · exact fun _ _ => unwaited_processCleanup rest

theorem unwaited_processWait {pid : ℤ} (rest : Unwaited child next) :
    Unwaited child (processWait fuel self pid next) := by
  apply unwaited_inspect
  intro start _
  apply unwaited_locked (fun _ unwaited => unwaited)
  intro kernel _
  split
  · exact rest
  · rename_i p index _
    apply unwaited_run
    · intro kernel isOver unwaited
      split
      · exact unwaited.modifyProcess (fun _ empty => empty)
      · rename_i notOver
        have different : p ≠ child := by
          simpa [LockSite.Over, LockSite.over, notOver] using isOver
        cases runs : kernel.waitEnqueue p self with
        | none => exact unwaited
        | some after => exact unwaited.waitEnqueue different runs
    · intro kernel _ _
      split
      · exact unwaited_processCleanup rest
      · split
        · exact unwaited_threadBlock (unwaited_collectChild rest)
        · trivial

end KernelProgram

/-- Every public operation leaves the wait list of the child empty. -/
theorem PublicCall.unwaited (call : PublicCall) (child fuel self : ℕ) :
    KernelProgram.Unwaited child (call.program fuel self) := by
  have ended : KernelProgram.Unwaited child .done := trivial
  cases call with
  | threadCreate request memory => exact KernelProgram.unwaited_threadCreate (fun _ => ended)
  | threadUnblock tid => exact KernelProgram.unwaited_threadUnblock ended
  | threadTerminate tid => exact KernelProgram.unwaited_threadTerminate ended
  | threadExit => exact KernelProgram.unwaited_threadExit
  | cleanUp => exact KernelProgram.unwaited_cleanUpSlots _ ended
  | wakeWaiters p => exact KernelProgram.unwaited_wakeWaiters ended
  | processAddThread p t => exact KernelProgram.unwaited_processAddThread ended
  | processRemoveThread p t => exact KernelProgram.unwaited_processRemoveThread ended
  | processCreate request block addressSpace memory =>
      rw [PublicCall.program]
      exact KernelProgram.unwaited_processCreate (fun _ => ended)
  | processExit code => exact KernelProgram.unwaited_processExit
  | processTerminate pid => exact KernelProgram.unwaited_processTerminate ended
  | processWait pid =>
      rw [PublicCall.program]
      exact KernelProgram.unwaited_processWait ended

/-- The thread is blocked on the wait list of the child while it owns the lock of the child. -/
def KernelThreads.WaitsAsOwner (threads : KernelThreads) (child thread : ℕ) : Prop :=
  (threads.state.threads thread).state = .blocked ∧
  (∃ before, Segment threads.state.nextOf (threads.state.processes child).waitHead before
    (some thread)) ∧
  threads.owner (.process child) = some thread

theorem Kernel.NoWaiter.not_waitsAsOwner {threads : KernelThreads} {child : ℕ}
    (unwaited : threads.state.NoWaiter child) (thread : ℕ) :
    ¬ threads.WaitsAsOwner child thread := by
  rintro ⟨_, ⟨before, segment⟩, _⟩
  rw [unwaited] at segment
  cases before with
  | nil => simp [Segment] at segment
  | cons first rest => simp [Segment] at segment

/-- In every interleaving of public operations in which each call of `process_wait` finds
that the child is over, no thread is blocked on the wait list of the child while it
owns the lock of the child. -/
theorem child_lock_guarded_runs {start last : KernelThreads} {child : ℕ}
    {operations : List (LockThreads.Operation Kernel KernelLock LockSite)} (idle : start.Idle)
    (unwaited : start.state.NoWaiter child)
    (run : Transition.Run (Transition.Guarded (LockThreads.Allowed (LockSite.Over child))
      (LockThreads.Step publicPrograms)) start operations last) (thread : ℕ) :
    ¬ last.WaitsAsOwner child thread := by
  have programsKeep : ∀ thread program, publicPrograms thread program →
      program.Keeps (LockSite.Over child) (Kernel.NoWaiter child) := by
    rintro thread program ⟨call, fuel, rfl⟩
    exact call.unwaited child fuel thread
  have preserved : ∀ before operation after,
      before.Kept (LockSite.Over child) (Kernel.NoWaiter child) →
        Transition.Guarded (LockThreads.Allowed (LockSite.Over child))
          (LockThreads.Step publicPrograms) before operation after →
            after.Kept (LockSite.Over child) (Kernel.NoWaiter child) := by
    rintro before operation after kept ⟨isAllowed, takes⟩
    exact kept.step programsKeep isAllowed takes
  have starts : start.Kept (LockSite.Over child) (Kernel.NoWaiter child) := by
    refine ⟨unwaited, fun thread => ?_⟩
    rw [idle.1]
    trivial
  exact (run.invariant preserved starts).state.not_waitsAsOwner thread

/-! ## Waiting for the kernel process -/

/-- Three threads of the kernel process, which is its own parent. -/
def threeIdleThreads : KernelThreads where
  state := threeThreads
  owner _ := none
  program _ := .done

def waitForAny : PublicCall := .processWait (-1)

def exitCall : PublicCall := .processExit 7

theorem threeIdleThreads_idle : threeIdleThreads.Idle := ⟨fun _ => rfl, fun _ => rfl⟩

theorem threeIdleThreads_noWaiter (p : ℕ) : threeIdleThreads.state.NoWaiter p := by
  have unawaited := (threeThreads_unawaited p).1
  simp only [Kernel.NoWaiter, threeIdleThreads]
  exact unawaited

/-- The third thread has called `process_wait`. -/
def oneWaits : KernelThreads :=
  threeIdleThreads.setProgram 0x1200 (waitForAny.program 4 0x1200)

/-- The second thread has called `process_exit` besides. -/
def oneWaitsOneExits : KernelThreads :=
  oneWaits.setProgram 0x1100 (exitCall.program 4 0x1100)

theorem oneWaits_run (allowed : LockSite → Kernel → Prop) :
    ∃ operations, Transition.Run (Transition.Guarded (LockThreads.Allowed allowed)
      (LockThreads.Step publicPrograms)) threeIdleThreads operations oneWaits :=
  ⟨[.start 0x1200 (waitForAny.program 4 0x1200)],
    .cons ⟨trivial, .start rfl (by simp [threeIdleThreads]) ⟨waitForAny, 4, rfl⟩⟩ (.nil _)⟩

theorem oneWaitsOneExits_run (allowed : LockSite → Kernel → Prop) :
    ∃ operations, Transition.Run (Transition.Guarded (LockThreads.Allowed allowed)
      (LockThreads.Step publicPrograms)) threeIdleThreads operations oneWaitsOneExits := by
  refine ⟨[.start 0x1200 (waitForAny.program 4 0x1200), .start 0x1100 (exitCall.program 4 0x1100)],
    .cons ⟨trivial, .start rfl ?_ ⟨waitForAny, 4, rfl⟩⟩
      (.cons ⟨trivial, .start ?_ ?_ ⟨exitCall, 4, rfl⟩⟩ (.nil _))⟩
  · simp [threeIdleThreads]
  · simp [LockThreads.setProgram, threeIdleThreads]
  · simp [LockThreads.setProgram, threeIdleThreads]

/-- The second thread ends the kernel process, and the third one collects it while the
second one is still on its way through `thread_exit`. -/
theorem child_lock_guarded_runs_collected :
    ∃ last : KernelThreads, (last.state.processes 0x100).state = .exited ∧
      last.owner (.process 0x100) = some 0x1200 ∧
      ∀ thread, ¬ last.WaitsAsOwner 0x100 thread := by
  have advances : (oneWaitsOneExits.advanceAll (LockSite.over 0x100)
      (List.replicate 12 0x1100 ++ List.replicate 6 0x1200)).map (fun last =>
        ((last.state.processes 0x100).state, last.owner (.process 0x100))) =
          some (.exited, some 0x1200) := by
    decide +kernel
  rcases Option.map_eq_some_iff.mp advances with ⟨last, returns, observed⟩
  rw [Prod.mk.injEq] at observed
  rcases oneWaitsOneExits_run (LockSite.Over 0x100) with ⟨starts, startRun⟩
  rcases LockThreads.run_of_advanceAll returns with ⟨operations, run⟩
  exact ⟨last, observed.1, observed.2, child_lock_guarded_runs threeIdleThreads_idle
    (threeIdleThreads_noWaiter 0x100) (startRun.trans run)⟩

/-- The third thread waits for the kernel process, which is running: it is blocked on the
wait list as the owner of the lock. -/
theorem process_wait_blocks_as_owner :
    threeIdleThreads.Idle ∧ (∀ p, threeIdleThreads.state.NoWaiter p) ∧
      ∃ (operations : List (LockThreads.Operation Kernel KernelLock LockSite))
        (last : KernelThreads),
        Transition.Run (LockThreads.Step publicPrograms) threeIdleThreads operations last ∧
        last.state.processTable 0 = some 0x100 ∧ last.WaitsAsOwner 0x100 0x1200 := by
  have advances : (oneWaits.advanceAll (fun _ _ => true) (List.replicate 11 0x1200)).map
      (fun last => (last.state.processTable 0, (last.state.threads 0x1200).state,
        (last.state.processes 0x100).waitHead, last.owner (.process 0x100))) =
          some (some 0x100, .blocked, some 0x1200, some 0x1200) := by
    decide +kernel
  rcases Option.map_eq_some_iff.mp advances with ⟨last, returns, observed⟩
  simp only [Prod.mk.injEq] at observed
  rcases observed with ⟨listed, blocked, waits, owns⟩
  rcases oneWaits_run (fun _ _ => True) with ⟨starts, startRun⟩
  rcases LockThreads.run_of_advanceAll returns with ⟨operations, run⟩
  exact ⟨threeIdleThreads_idle, threeIdleThreads_noWaiter, starts ++ operations, last,
    startRun.unguard.trans run.unguard, listed, blocked, ⟨[], waits⟩, owns⟩

end Goshkik

import Goshkik.Scheduling.ProcessExit

/-!
# The exit code that the parent gets

`process_exit` stores the exit code and then calls `thread_exit`, which stores zero if the
thread is the main thread of its process.  As long as this does not happen and nobody else
ends the process, the code stays until the record is freed, and the call that frees it has
read the code after it was stored.
-/

namespace Goshkik

namespace ExitSystem

variable {self : ℕ} {code : ℤ} {system after : ExitSystem} {reap : ReapSystem}
  {operation : ReapOperation} {t fuel : ℕ} {record : ProcessRecord}

/-- Only the call that takes the step reads an exit code. -/
theorem reads_cases (system : ExitSystem) (operation : ReapOperation) :
    system.reads operation = system.read ∨ ∃ t value, operation.waiter = some t ∧
      system.reads operation = Function.update system.read t value := by
  cases operation with
  | check u =>
      simp only [reads]
      split
      · split
        · exact .inr ⟨u, _, rfl, rfl⟩
        · exact .inl rfl
      · exact .inl rfl
  | collect u =>
      simp only [reads]
      split
      · exact .inr ⟨u, _, rfl, rfl⟩
      · exact .inl rfl
  | _ => exact .inl rfl

theorem reads_other (other : operation.waiter ≠ some t) :
    system.reads operation t = system.read t := by
  rcases reads_cases system operation with same | ⟨u, value, isWaiter, updated⟩
  · rw [same]
  · have different : t ≠ u := by
      rintro rfl
      exact other isWaiter
    rw [updated, Function.update_of_ne different]

/-- A call that has found its child over after a step had found it over before, or it reads the
exit code in this step. -/
theorem collected_cases (runs : system.reap.perform fuel operation = some reap)
    (isCollected : (reap.phase t).collected = some record) :
    (system.reap.phase t).collected = some record ∧ system.reads operation t = system.read t ∨
      (system.reap.phase t).child = some record ∧
        system.reads operation t = (system.reap.kernel.processes record.block).exitCode ∧
        (reap.kernel.processes record.block).state.isOver ∧
        ∀ u p code, operation ≠ .finish u p code := by
  by_cases mine : operation.waiter = some t
  case neg =>
    rw [ReapSystem.perform_phase runs mine] at isCollected
    exact .inl ⟨isCollected, reads_other mine⟩
  cases operation with
  | call u pid =>
      cases mine
      simp only [ReapSystem.perform, Option.ite_none_right_eq_some, Option.some.injEq] at runs
      rw [← runs.2, ReapSystem.setPhase_phase_same] at isCollected
      cases isCollected
  | lookup u =>
      cases mine
      simp only [ReapSystem.perform] at runs
      split at runs
      · rw [← Option.some.inj runs] at isCollected
        unfold ReapSystem.lookup at isCollected
        split at isCollected
        · rw [ReapSystem.setPhase_phase_same] at isCollected
          cases isCollected
        · rw [ReapSystem.setPhase_phase_same] at isCollected
          cases isCollected
      · cases runs
  | contend u =>
      simp only [ReapSystem.perform] at runs
      split at runs
      · rw [Option.ite_none_right_eq_some, Option.some.injEq] at runs
        rw [← runs.2] at isCollected
        exact .inl ⟨isCollected, rfl⟩
      · cases runs
  | check u =>
      cases mine
      simp only [ReapSystem.perform] at runs
      split at runs
      · rename_i child index pid found
        rw [Option.ite_none_right_eq_some] at runs
        rcases runs with ⟨_, runs⟩
        unfold ReapSystem.check at runs
        split at runs
        · rename_i isOver
          rw [← Option.some.inj runs] at isCollected ⊢
          rw [ReapSystem.markExited, ReapSystem.setPhase_phase_same] at isCollected
          cases isCollected
          refine .inr ⟨by rw [found]; rfl, ?_, ?_, by simp⟩
          · simp [reads, found, isOver]
          · simp [ReapSystem.markExited, ReapSystem.setPhase, ReapSystem.record,
              ReapSystem.setKernel, Kernel.modifyProcess, ProcessState.isOver]
        · rcases Option.map_eq_some_iff.mp runs with ⟨queued, _, rfl⟩
          rw [ReapSystem.setPhase_phase_same] at isCollected
          cases isCollected
      · cases runs
  | block u =>
      cases mine
      simp only [ReapSystem.perform] at runs
      split at runs
      · rcases Option.map_eq_some_iff.mp runs with ⟨blocked, _, rfl⟩
        rw [ReapSystem.setPhase_phase_same] at isCollected
        cases isCollected
      · cases runs
  | collect u =>
      cases mine
      simp only [ReapSystem.perform] at runs
      split at runs
      · rename_i child index pid asleep
        rw [Option.ite_none_right_eq_some, Option.some.injEq] at runs
        rw [← runs.2] at isCollected ⊢
        rw [ReapSystem.markExited, ReapSystem.setPhase_phase_same] at isCollected
        cases isCollected
        refine .inr ⟨by rw [asleep]; rfl, ?_, ?_, by simp⟩
        · simp [reads, asleep]
        · simp [ReapSystem.markExited, ReapSystem.setPhase, ReapSystem.record,
            ReapSystem.setKernel, Kernel.modifyProcess, ProcessState.isOver]
      · cases runs
  | clear u =>
      cases mine
      simp only [ReapSystem.perform] at runs
      split at runs
      · rename_i child index pid ended
        rw [← Option.some.inj runs, ReapSystem.clear, ReapSystem.setPhase_phase_same] at isCollected
        refine .inl ⟨?_, rfl⟩
        rw [ended]
        exact isCollected
      · cases runs
  | free u =>
      cases mine
      simp only [ReapSystem.perform] at runs
      split at runs
      · rw [← Option.some.inj runs, ReapSystem.free, ReapSystem.setPhase_phase_same] at isCollected
        cases isCollected
      · cases runs
  | _ => cases mine

/-! ## The invariant -/

structure Sound (code : ℤ) (system : ExitSystem) : Prop where
  listed : ∀ i record, system.reap.slotRecord i = some record →
    record.birth ≤ system.reap.births record.block
  picked : ∀ t record, (system.reap.phase t).child = some record →
    record.birth ≤ system.reap.births record.block
  ended : ∀ t record, (system.reap.phase t).collected = some record → system.reap.Live record →
    (system.reap.kernel.processes record.block).state.isOver
  born : ∀ record, system.stage.record = some record →
    record.birth ≤ system.reap.births record.block
  stored : ∀ record, system.stage.record = some record → system.reap.Live record →
    (system.reap.kernel.processes record.block).exitCode = code
  read : ∀ t record, system.stage.record = some record →
    (system.reap.phase t).collected = some record → system.reap.Live record →
      system.read t = code
  delivered : ∀ delivered ∈ system.delivered, delivered = code

theorem Started.sound (started : system.Started) : system.Sound code where
  listed i record isRecord := by
    rw [ReapSystem.slotRecord_eq_some] at isRecord
    rw [(started.reap.listed i record.block isRecord.1).2, isRecord.2]
  picked t record isChild := by
    rw [started.reap.idle] at isChild
    cases isChild
  ended t record isCollected := by
    rw [started.reap.idle] at isCollected
    cases isCollected
  born record isRecord := by
    rw [started.stage] at isRecord
    cases isRecord
  stored record isRecord := by
    rw [started.stage] at isRecord
    cases isRecord
  read t record isRecord := by
    rw [started.stage] at isRecord
    cases isRecord
  delivered := by simp [started.delivered]

namespace Sound

/-- Steps of the other threads, none of which ends the process. -/
theorem other (sound : system.Sound code) (guard : EndsOnce self code system (.other operation))
    (runs : system.reap.perform fuel operation = some reap) :
    ({ system with
      reap := reap
      read := system.reads operation
      delivered := system.delivers operation } : ExitSystem).Sound code := by
  have progress := ReapSystem.Progress.perform runs
  have pickedBefore : ∀ t record, (reap.phase t).child = some record →
      record.birth ≤ system.reap.births record.block := by
    intro t record isChild
    rcases progress.child t record isChild with isChild | ⟨i, isRecord⟩
    · exact sound.picked t record isChild
    · exact sound.listed i record isRecord
  have notEnded : ∀ record, system.stage.record = some record → system.reap.Live record →
      ∀ u code, operation ≠ .finish u record.block code := by
    rintro record isRecord isLive u code rfl
    exact guard record isRecord isLive rfl
  constructor
  case listed =>
    intro i record isRecord
    exact (sound.listed i record (progress.listed i record isRecord)).trans (progress.births _)
  case picked =>
    intro t record isChild
    exact (pickedBefore t record isChild).trans (progress.births _)
  case ended =>
    intro t record isCollected isLive
    have born := pickedBefore t record (WaitPhase.child_of_collected isCollected)
    have wasLive := progress.live record born isLive
    rcases collected_cases runs isCollected with ⟨before, _⟩ | ⟨_, _, isOver, _⟩
    · exact progress.ended record born isLive (sound.ended t record before wasLive)
    · exact isOver
  case born => exact fun record isRecord => (sound.born record isRecord).trans (progress.births _)
  case stored =>
    intro record isRecord isLive
    have born := sound.born record isRecord
    have wasLive := progress.live record born isLive
    exact (progress.exitCode record born isLive (notEnded record isRecord wasLive)).trans
      (sound.stored record isRecord wasLive)
  case read =>
    intro t record isRecord isCollected isLive
    have wasLive := progress.live record (sound.born record isRecord) isLive
    rcases collected_cases runs isCollected with ⟨before, same⟩ | ⟨_, reads, _, _⟩
    · exact same.trans (sound.read t record isRecord before wasLive)
    · exact reads.trans (sound.stored record isRecord wasLive)
  case delivered =>
    intro delivered mem
    cases operation with
    | free t =>
        simp only [delivers] at mem
        split at mem
        · rename_i child unlisted
          split at mem
          · rename_i frees
            rcases List.mem_cons.mp mem with rfl | mem
            · apply sound.read t child frees.1 _ frees.2
              rw [unlisted]
              rfl
            · exact sound.delivered delivered mem
          · exact sound.delivered delivered mem
        · exact sound.delivered delivered mem
    | _ => exact sound.delivered delivered mem

/-- The exiting thread changes the kernel, but not who has which process. -/
theorem setKernel (sound : system.Sound code) {kernel : Kernel} {stage : ExitStage}
    (table : kernel.processTable = system.reap.kernel.processTable)
    (blocks : kernel.processBlocks = system.reap.kernel.processBlocks)
    (ended : ∀ p, (system.reap.kernel.processes p).state.isOver → (kernel.processes p).state.isOver)
    (born : ∀ record, stage.record = some record →
      record.birth ≤ system.reap.births record.block)
    (stored : ∀ record, stage.record = some record → system.reap.Live record →
      (kernel.processes record.block).exitCode = code)
    (read : ∀ t record, stage.record = some record →
      (system.reap.phase t).collected = some record → system.reap.Live record →
        system.read t = code) :
    ({ system.setKernel kernel with stage := stage } : ExitSystem).Sound code := by
  have live : ∀ record, (system.reap.setKernel kernel).Live record ↔ system.reap.Live record := by
    intro record
    simp [ReapSystem.Live, ReapSystem.setKernel, blocks]
  constructor
  case listed =>
    intro i record isRecord
    apply sound.listed i record
    rw [ReapSystem.slotRecord_eq_some] at isRecord ⊢
    exact ⟨table ▸ isRecord.1, isRecord.2⟩
  case picked => exact sound.picked
  case ended =>
    exact fun t record isCollected isLive =>
      ended record.block (sound.ended t record isCollected ((live record).mp isLive))
  case born => exact born
  case stored =>
    exact fun record isRecord isLive =>
      stored record isRecord ((live record).mp isLive)
  case read =>
    exact fun t record isRecord isCollected isLive =>
      read t record isRecord isCollected ((live record).mp isLive)
  case delivered => exact sound.delivered

/-- A step of the exiting thread that writes no exit code. -/
theorem goOn (sound : system.Sound code) {kernel : Kernel} {stage : ExitStage}
    (same : Kernel.SameProcesses system.reap.kernel kernel)
    (exits : Kernel.SameExits system.reap.kernel kernel)
    (sameRecord : stage.record = system.stage.record) :
    ({ system.setKernel kernel with stage := stage } : ExitSystem).Sound code := by
  refine sound.setKernel same.table same.blocks ?_ ?_ ?_ ?_
  · intro p isOver
    rw [(exits p).2]
    exact isOver
  · rw [sameRecord]
    exact sound.born
  · intro record isRecord isLive
    rw [sameRecord] at isRecord
    exact (exits record.block).1.trans (sound.stored record isRecord isLive)
  · rw [sameRecord]
    exact sound.read

theorem endProcess_over {kernel : Kernel} {p : ℕ} (other : ℕ)
    (isOver : (kernel.processes other).state.isOver) :
    ((kernel.endProcess p code).processes other).state.isOver := by
  by_cases same : other = p
  · subst same
    simp [Kernel.endProcess, Kernel.modifyProcess, ProcessState.isOver]
  · simpa [Kernel.endProcess, Kernel.modifyProcess, same] using isOver

theorem endProcess_exitCode (kernel : Kernel) (p other : ℕ) :
    ((kernel.endProcess p code).processes other).exitCode =
      if other = p then code else (kernel.processes other).exitCode := by
  by_cases same : other = p
  · subst same
    simp [Kernel.endProcess, Kernel.modifyProcess]
  · simp [Kernel.endProcess, Kernel.modifyProcess, same]

theorem store (sound : system.Sound code) (guard : EndsOnce self code system .store)
    (runs : system.store self code = some after) : after.Sound code := by
  unfold ExitSystem.store at runs
  split at runs
  · rcases Option.bind_eq_some_iff.mp runs with ⟨p, found, stores⟩
    rw [Option.ite_none_right_eq_some, Option.some.injEq] at stores
    rcases stores with ⟨_, rfl⟩
    refine sound.setKernel rfl rfl endProcess_over ?_ ?_ ?_
    · intro record isRecord
      rw [← Option.some.inj isRecord]
    · intro record isRecord _
      rw [← Option.some.inj isRecord, endProcess_exitCode, if_pos rfl]
    · intro t record isRecord isCollected isLive
      have isOver := sound.ended t record isCollected isLive
      rw [← Option.some.inj isRecord] at isOver
      rw [guard p found] at isOver
      cases isOver
  · cases runs

theorem wakeWaiters (sound : system.Sound code) {p : ℕ} {stage : ExitStage}
    (sameRecord : stage.record = system.stage.record)
    (runs : system.wakeWaiters fuel p stage = some after) : after.Sound code := by
  simp only [ExitSystem.wakeWaiters, Option.ite_none_right_eq_some, Option.map_eq_some_iff] at runs
  rcases runs with ⟨_, woken, wakes, rfl⟩
  exact sound.goOn (.wakeWaiters wakes) (.wakeWaiters wakes) sameRecord

theorem leave (sound : system.Sound code) (guard : EndsOnce self code system .leave)
    (runs : system.leave self = some after) : after.Sound code := by
  have same : Kernel.SameProcesses system.reap.kernel system.reap.kernel := ⟨rfl, rfl, fun _ => rfl⟩
  unfold ExitSystem.leave at runs
  split at runs
  · rename_i record isStage
    have isRecord : system.stage.record = some record := by
      rw [isStage]
      rfl
    have stays : ({ system with stage := .left record } : ExitSystem).Sound code :=
      sound.goOn same (.of_processes rfl) isRecord.symm
    split at runs
    · cases runs
    · split at runs
      · rw [← Option.some.inj runs]
        exact stays
      · rename_i p owner
        split at runs
        · cases runs
        · split at runs
          · rename_i main
            rw [← Option.some.inj runs]
            refine sound.setKernel rfl rfl endProcess_over ?_ ?_ ?_
            · exact fun other isOther => sound.born other (isRecord.trans isOther)
            · intro other isOther isLive
              rcases Option.some.inj isOther
              have stored := sound.stored record isRecord isLive
              rw [endProcess_exitCode]
              split
              · rename_i isProcess
                subst isProcess
                rcases guard with zero | notMain
                · exact zero.symm
                · exact absurd ⟨owner, main⟩ (notMain record isStage isLive)
              · exact stored
            · exact fun t other isOther => sound.read t other (isRecord.trans isOther)
          · rw [← Option.some.inj runs]
            exact stays
  · cases runs

theorem step (sound : system.Sound code) {operation : ExitOperation}
    (guard : EndsOnce self code system operation)
    (step : ExitStep self code system operation after) :
    after.Sound code := by
  rcases step with ⟨fuel, runs⟩
  cases operation with
  | other operation =>
      rcases Option.map_eq_some_iff.mp runs with ⟨reap, performs, rfl⟩
      exact sound.other guard performs
  | store => exact sound.store guard runs
  | wake =>
      simp only [perform] at runs
      split at runs
      · rename_i record isStage
        exact sound.wakeWaiters (by rw [isStage]; rfl) runs
      · cases runs
  | leave => exact sound.leave guard runs
  | wakeAgain =>
      simp only [perform] at runs
      split at runs
      · rename_i record p isStage
        exact sound.wakeWaiters (by rw [isStage]; rfl) runs
      · cases runs
  | switch =>
      simp only [perform] at runs
      split at runs
      · rename_i record isStage
        rw [← Option.some.inj runs]
        exact sound.goOn ⟨rfl, rfl, fun _ => rfl⟩ (.of_processes rfl) (by rw [isStage]; rfl)
      · cases runs

end Sound

end ExitSystem

/-- Where the condition fails in `thread_exit`, the code is lost there. -/
theorem ExitSystem.leave_loses {self : ℕ} {code : ℤ} {system after : ExitSystem}
    (guard : ¬EndsOnce self code system .leave) (runs : system.leave self = some after) :
    ¬after.KeepsCode code := by
  simp only [EndsOnce, not_or, not_forall, not_not] at guard
  rcases guard with ⟨nonzero, record, isStage, isLive, owner, main⟩
  simp only [ExitSystem.leave, isStage, owner, main, if_true] at runs
  split at runs
  · cases runs
  · split at runs
    · cases runs
    · rw [← Option.some.inj runs]
      intro keeps
      have kept := (keeps record rfl).1 isLive
      exact nonzero (kept.symm.trans (by simp [setKernel, ReapSystem.setKernel, Kernel.endProcess,
        Kernel.modifyProcess]))

/-- In every interleaving of a thread that exits with threads that wait, in which the thread is
not the main thread of the process when it comes to `thread_exit` or its code is zero, and the
process ends only here, the process keeps the code until its record is freed, and the call of
`process_wait` that frees the record delivers the code.  From there `thread_exit` keeps the code
exactly if the condition holds. -/
theorem exit_code_guarded_runs {self : ℕ} {code : ℤ} {start last : ExitSystem}
    {operations : List ExitOperation} (started : start.Started)
    (run : Transition.Run (Transition.Guarded (ExitSystem.EndsOnce self code)
      (ExitStep self code)) start operations last) :
    last.KeepsCode code ∧ ∀ after, last.leave self = some after →
      (after.KeepsCode code ↔ ExitSystem.EndsOnce self code last .leave) := by
  have sound : last.Sound code :=
    run.invariant (fun _ _ _ sound guarded => sound.step guarded.1 guarded.2) started.sound
  have keeps : ∀ system : ExitSystem, system.Sound code → system.KeepsCode code :=
    fun system sound record isRecord => ⟨sound.stored record isRecord, sound.delivered⟩
  refine ⟨keeps last sound, fun after leaves => ⟨fun kept => ?_, fun guard => ?_⟩⟩
  · by_contra unguarded
    exact ExitSystem.leave_loses unguarded leaves kept
  · exact keeps after (sound.leave guard leaves)

/-! ## A process with two threads -/

/-- The child of the kernel process has the threads `0x1400`, its main thread, and `0x1500`. -/
def threadedKernel : Kernel :=
  { childKernel with
    threads := fun t =>
      if t = 0x1400 then { tid := 4, oPid := 1, proc := some 0x200, state := .running }
      else if t = 0x1500 then { tid := 5, oPid := 1, proc := some 0x200, state := .running }
      else childKernel.threads t }.modifyProcess 0x200 (fun record =>
        { record with mainThread := some 0x1400 })

def exitStart : ExitSystem where
  reap := { childSystem with kernel := threadedKernel }
  stage := .running
  read _ := 0
  delivered := []

theorem exitStart_started : exitStart.Started := by
  have table : exitStart.reap.kernel.processTable = childSystem.kernel.processTable := by
    simp only [exitStart, threadedKernel, childSystem, Kernel.modifyProcess]
  have blocks : exitStart.reap.kernel.processBlocks = childSystem.kernel.processBlocks := by
    simp only [exitStart, threadedKernel, childSystem, Kernel.modifyProcess]
  refine ⟨⟨fun _ => rfl, rfl, rfl, ?_, ?_, ?_⟩, rfl, rfl⟩
  · rw [table, blocks]
    exact childSystem_started.listed
  · rw [table]
    exact childSystem_started.single
  · rw [blocks]
    exact childSystem_started.blocks

/-- The parent waits once the thread has switched. -/
def exitThenWait (leaving : List ExitOperation) : List ExitOperation :=
  [.store, .wake, .leave] ++ leaving ++ [.switch, .other (.call 0x1000 1), .other (.lookup 0x1000),
    .other (.check 0x1000), .other (.clear 0x1000), .other (.free 0x1000)]

/-- A test that is enough for the condition of the guarded runs. -/
def ExitSystem.endsOnce (self : ℕ) (system : ExitSystem) : ExitOperation → Bool
  | .store => (system.reap.kernel.processFromPid
      (pidOfOwner (system.reap.kernel.threads self).oPid)).all (fun p =>
        !(system.reap.kernel.processes p).state.isOver)
  | .leave => (system.reap.kernel.threads self).proc.all (fun p =>
      (system.reap.kernel.processes p).mainThread ≠ some self)
  | .other (.finish _ _ _) => false
  | _ => true

theorem ExitSystem.endsOnce_sound {self : ℕ} {code : ℤ} {system : ExitSystem}
    {operation : ExitOperation} (passes : system.endsOnce self operation = true) :
    EndsOnce self code system operation := by
  cases operation with
  | store =>
      intro p found
      simpa [endsOnce, found] using passes
  | leave =>
      refine .inr (fun record _ _ main => ?_)
      simp [endsOnce, main.1, main.2] at passes
  | other operation =>
      cases operation with
      | finish u p code => cases passes
      | _ => trivial
  | _ => trivial

/-- The other thread exits with the code 7, and the parent gets it. -/
theorem exit_code_guarded_runs_other :
    ∃ last : ExitSystem, last.delivered = [7] ∧ last.KeepsCode 7 := by
  have follows : (Transition.follow (fun system operation =>
      if system.endsOnce 0x1500 operation then system.perform 0x1500 7 8 operation else none)
        (exitThenWait []) exitStart).map (fun last => last.delivered) = some [7] := by
    decide +kernel
  rcases Option.map_eq_some_iff.mp follows with ⟨last, follows, isLast⟩
  have sound : ∀ (before : ExitSystem) (operation : ExitOperation) (after : ExitSystem),
      (if before.endsOnce 0x1500 operation then before.perform 0x1500 7 8 operation else none) =
        some after →
      Transition.Guarded (ExitSystem.EndsOnce 0x1500 7) (ExitStep 0x1500 7) before operation
        after := by
    intro before operation after runs
    rw [Option.ite_none_right_eq_some] at runs
    exact ⟨ExitSystem.endsOnce_sound runs.1, 8, runs.2⟩
  exact ⟨last, isLast,
    (exit_code_guarded_runs exitStart_started (Transition.run_of_follow sound follows)).1⟩

/-- The main thread exits with the code 7, and the parent gets 0. -/
theorem exit_code_lost :
    exitStart.Started ∧ ∃ last,
      Transition.Run (ExitStep 0x1400 7) exitStart (exitThenWait [.wakeAgain]) last ∧
        last.delivered = [0] ∧ ¬last.KeepsCode 7 := by
  have follows : (Transition.follow (fun system => system.perform 0x1400 7 8)
      (exitThenWait [.wakeAgain]) exitStart).map (fun last =>
        (last.delivered, last.stage.record)) = some ([0], some ⟨0x200, 1⟩) := by
    decide +kernel
  rcases Option.map_eq_some_iff.mp follows with ⟨last, follows, isLast⟩
  rw [Prod.mk.injEq] at isLast
  have run := @Transition.run_of_follow _ _ _ (ExitStep 0x1400 7)
    (fun _ _ _ runs => ⟨8, runs⟩) _ _ _ follows
  refine ⟨exitStart_started, last, run, isLast.1, ?_⟩
  intro keeps
  have delivered := (keeps ⟨0x200, 1⟩ isLast.2).2 0 (by simp [isLast.1])
  cases delivered

end Goshkik

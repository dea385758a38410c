import Goshkik.Scheduling.ThreadRoll

/-!
# Thread ids

`next_tid` counts the threads that have been created modulo `2 ^ 32`, and `thread_create` does
not look whether the id is still in use.  As long as it is not, the threads of the table have
ids of their own and a call with the id of a thread acts on this thread.
-/

namespace Goshkik

open Transition

namespace Kernel

/-- The threads of the table have different ids. -/
def DistinctTids (kernel : Kernel) : Prop :=
  ∀ t other, kernel.Listed t → kernel.Listed other →
    (kernel.threads t).tid = (kernel.threads other).tid → t = other

/-- Where `k` is the kernel thread, the calls with the id of the thread wake and terminate this
thread and no other. -/
structure ActedOn (kernel : Kernel) (k t : ℕ) : Prop where
  found : kernel.threadFromTid (kernel.threads t).tid = some t
  unblocked : ∀ answer after,
    kernel.threadUnblock (kernel.threads t).tid = some (answer, after) →
      ((kernel.threads t).state = .blocked → (after.threads t).state = .ready) ∧
      ∀ other, other ≠ t → (after.threads other).state = (kernel.threads other).state
  terminated : ∀ fuel answer after,
    kernel.threadTerminate fuel (kernel.threads t).tid = some (answer, after) →
      (t ≠ k → (after.threads t).state = .termed) ∧
      ∀ other, other ≠ t ∨ other = k → (kernel.threads other).state ≠ .termed →
        (after.threads other).state ≠ .termed

variable {kernel after : Kernel} {t k slot wanted fuel : ℕ} {new : Thread}

theorem threadExit_spares (other : kernel.currentThread ≠ some k)
    (runs : kernel.threadExit fuel = some after) : Spares k kernel after := by
  simp only [threadExit] at runs
  split at runs
  · cases runs
  · rename_i current isCurrent
    split at runs
    · cases runs
    · rcases Option.map_eq_some_iff.mp runs with ⟨left, leaves, rfl⟩
      have different : current ≠ k := by
        rintro rfl
        exact other isCurrent
      have termed : Spares k left (left.setState current .termed) :=
        .setState (fun same => absurd same different)
      exact (Spares.leaveProcess leaves).trans (termed.trans (.rest rfl rfl rfl))

/-- `thread_terminate` spares the threads that a lookup of the id does not give. -/
theorem threadTerminate_spares (other : kernel.threadFromTid wanted ≠ some k) {answer : Option ℤ}
    (runs : kernel.threadTerminate fuel wanted = some (answer, after)) : Spares k kernel after := by
  simp only [threadTerminate] at runs
  split at runs
  · cases runs
    exact .refl k kernel
  · split at runs
    · cases runs
      exact .refl k kernel
    · rename_i t found
      have different : t ≠ k := by
        rintro rfl
        exact other found
      split at runs
      · rename_i isCurrent
        rcases Option.map_eq_some_iff.mp runs with ⟨exited, exits, equation⟩
        cases equation
        apply threadExit_spares _ exits
        rw [isCurrent]
        simpa using different
      · rcases Option.map_eq_some_iff.mp runs with ⟨removed, removes, equation⟩
        cases equation
        have termed : Spares k kernel (kernel.setState t .termed) :=
          .setState (fun same => absurd same different)
        exact (termed.trans (.detachThread t)).trans
          ((Spares.of_relinked (.setNext _ t none)).trans (.removeFromReadyQueue removes))

theorem threadExit_state (isCurrent : kernel.currentThread = some t)
    (runs : kernel.threadExit fuel = some after) : (after.threads t).state = .termed := by
  simp only [threadExit, isCurrent] at runs
  split at runs
  · cases runs
  · rcases Option.map_eq_some_iff.mp runs with ⟨left, _, rfl⟩
    exact setState_state left t .termed

/-- `thread_terminate` terminates the thread that a lookup of the id gives. -/
theorem threadTerminate_state (nonzero : wanted ≠ 0) (found : kernel.threadFromTid wanted = some t)
    {answer : Option ℤ} (runs : kernel.threadTerminate fuel wanted = some (answer, after)) :
    (after.threads t).state = .termed := by
  simp only [threadTerminate, nonzero, if_false, found] at runs
  split at runs
  · rename_i isCurrent
    rcases Option.map_eq_some_iff.mp runs with ⟨exited, exits, equation⟩
    cases equation
    exact threadExit_state isCurrent exits
  · rcases Option.map_eq_some_iff.mp runs with ⟨removed, removes, equation⟩
    cases equation
    rw [(Relinked.removeFromReadyQueue removes).state, (Relinked.setNext _ t none).state]
    unfold detachThread
    split
    · exact setState_state kernel t .termed
    · exact setState_state kernel t .termed

namespace DistinctTids

theorem sameRoll (distinct : kernel.DistinctTids) (same : SameRoll kernel after) :
    after.DistinctTids := by
  intro t other
  rw [same.listed, same.tid, same.tid]
  exact distinct t other

theorem enrols (distinct : kernel.DistinctTids) (enrols : Enrols kernel t slot new after)
    (unlisted : ¬kernel.Listed t) (unused : ∀ other, kernel.Listed other →
      (kernel.threads other).tid ≠ new.tid) : after.DistinctTids := by
  have newTid : (after.threads t).tid = new.tid := by
    simpa [Thread.identity] using congrArg Thread.tid (enrols.identity t)
  have oldTid : ∀ other, other ≠ t → (after.threads other).tid = (kernel.threads other).tid := by
    intro other different
    simpa [Thread.identity, different] using congrArg Thread.tid (enrols.identity other)
  have among : ∀ other, after.Listed other → other = t ∨ kernel.Listed other ∧ other ≠ t := by
    rintro other ⟨position, bound, isEntry⟩
    rcases enrols.entry isEntry with ⟨_, isNew⟩ | ⟨_, before⟩
    · exact .inl isNew
    · refine .inr ⟨⟨position, bound, before⟩, ?_⟩
      rintro rfl
      exact unlisted ⟨position, bound, before⟩
  intro first second firstListed secondListed sameTid
  rcases among first firstListed with rfl | ⟨firstBefore, firstOld⟩
  · rcases among second secondListed with rfl | ⟨secondBefore, secondOld⟩
    · rfl
    · rw [newTid, oldTid second secondOld] at sameTid
      exact absurd sameTid.symm (unused second secondBefore)
  · rcases among second secondListed with rfl | ⟨secondBefore, secondOld⟩
    · rw [newTid, oldTid first firstOld] at sameTid
      exact absurd sameTid (unused first firstBefore)
    · rw [oldTid first firstOld, oldTid second secondOld] at sameTid
      exact distinct first second firstBefore secondBefore sameTid

theorem strikesOff (distinct : kernel.DistinctTids) (strikes : StrikesOff kernel t slot after) :
    after.DistinctTids := by
  have sameTid : ∀ other, (after.threads other).tid = (kernel.threads other).tid := by
    intro other
    simpa [Thread.identity] using congrArg Thread.tid (strikes.identity other)
  have among : ∀ other, after.Listed other → kernel.Listed other := by
    rintro other ⟨position, bound, isEntry⟩
    exact ⟨position, bound, (strikes.entry isEntry).2⟩
  intro first second firstListed secondListed
  rw [sameTid, sameTid]
  exact distinct first second (among first firstListed) (among second secondListed)

theorem cleanUp (distinct : kernel.DistinctTids) (runs : kernel.cleanUp fuel = some after) :
    after.DistinctTids :=
  cleanUp_preserves (fun _ _ _ strikes distinct => distinct.strikesOff strikes) runs distinct

/-- A thread of the table is found by its id. -/
theorem threadFromTid (distinct : kernel.DistinctTids) (listed : kernel.Listed t) :
    kernel.threadFromTid (kernel.threads t).tid = some t := by
  cases found : kernel.threadFromTid (kernel.threads t).tid with
  | some other =>
      rcases threadFromTid_listed found with ⟨otherListed, sameTid⟩
      rw [distinct other t otherListed listed sameTid]
  | none =>
      rcases listed with ⟨slot, bound, isEntry⟩
      have missing := List.findSome?_eq_none_iff.mp found slot (List.mem_range.mpr bound)
      simp [isEntry] at missing

theorem actedOn (distinct : kernel.DistinctTids) (holds : kernel.HoldsKernelThread k)
    (listed : kernel.Listed t) : kernel.ActedOn k t := by
  have found := distinct.threadFromTid listed
  have kernelListed : kernel.Listed k := ⟨0, by decide, holds.slot⟩
  refine ⟨found, fun answer after runs => ⟨fun blocked => ?_, fun other different => ?_⟩,
    fun fuel answer after runs => ⟨fun notKernel => ?_, fun other different alive => ?_⟩⟩
  · rw [threadUnblock_found found blocked] at runs
    rcases Option.map_eq_some_iff.mp runs with ⟨queued, appends, equation⟩
    cases equation
    rw [(Relinked.appendReady appends).state, unblocked_state, if_pos rfl]
  · apply threadUnblock_state runs
    rw [found]
    simpa using different.symm
  · apply threadTerminate_state _ found runs
    intro zero
    exact notKernel (distinct t k listed kernelListed (zero.trans holds.tid.symm))
  · by_cases isKernel : other = k
    · subst isKernel
      exact (Spares.threadTerminate holds runs).1.alive alive
    · have notFound : kernel.threadFromTid (kernel.threads t).tid ≠ some other := by
        rw [found]
        simpa using (different.resolve_right isKernel).symm
      exact (threadTerminate_spares notFound runs).alive alive

end DistinctTids

end Kernel

namespace Isolation

/-- A thread that is created gets an id that no thread of the table has. -/
def UnusedTid (state : Isolation) : IsolationOperation → Prop
  | .scheduling (.threadCreate request memory _) =>
      state.machine.kernel.Builds request memory → ∀ t, state.machine.kernel.Listed t →
        (state.machine.kernel.threads t).tid ≠ state.machine.kernel.nextTid
  | _ => True

theorem unusedTid_of_entries {state : Isolation}
    (unused : ∀ slot < maxThreads, ∀ t ∈ state.machine.kernel.threadTable slot,
      (state.machine.kernel.threads t).tid ≠ state.machine.kernel.nextTid)
    (operation : IsolationOperation) : state.UnusedTid operation := by
  cases operation with
  | threadExit => trivial
  | scheduling operation =>
      cases operation with
      | threadCreate request memory answer =>
          rintro _ t ⟨slot, bound, isEntry⟩
          exact unused slot bound t isEntry
      | _ => trivial

theorem distinctTids_step {before after : Isolation} {operation : IsolationOperation} {k : ℕ}
    (roll : before.machine.kernel.Roll k) (distinct : before.machine.kernel.DistinctTids)
    (guard : before.UnusedTid operation) (step : IsolationStep before operation after) :
    after.machine.kernel.DistinctTids := by
  rcases step.roll_cases roll.toHoldsKernelThread with
    ⟨request, memory, answer, rfl, fresh, runs⟩ | ⟨fuel, runs⟩ | ⟨same, _⟩
  · rcases Kernel.threadCreate_cases runs with
      ⟨_, _, same | same⟩ | ⟨builds, _, full⟩ | ⟨builds, _, slot, _, enrols⟩
    · rw [same]
      exact distinct
    · rw [same]
      exact distinct.sameRoll (.rest rfl rfl rfl rfl)
    · exact absurd full (roll.freeThreadSlot_ne_none builds)
    · exact distinct.enrols enrols (fun listed => fresh (roll.allocated _ listed)) (guard builds)
  · exact distinct.cleanUp runs
  · exact distinct.sameRoll same

theorem distinctTids_booted {first : Machine} (booted : first.Booted) :
    first.kernel.DistinctTids := by
  rcases booted with ⟨_, kernel, kernelThread, idleTask, memory, unstarted, _, fresh, runs⟩
  rcases Kernel.Roll.initThreading_creates unstarted.threadBlocks fresh runs with
    ⟨freshStarted, t, creates⟩
  have roll := Kernel.Roll.startKernelThread kernel kernelThread
  have only : ∀ t, (kernel.startKernelThread kernelThread).Listed t → t = kernelThread := by
    rintro t ⟨slot, _, isEntry⟩
    exact (Kernel.Roll.startKernelThread_entry kernel kernelThread isEntry).2
  have started : (kernel.startKernelThread kernelThread).DistinctTids := by
    intro t other listed otherListed _
    rw [only t listed, only other otherListed]
  rcases Kernel.threadCreate_cases creates with
    ⟨_, returns, _⟩ | ⟨_, returns, _⟩ | ⟨_, _, slot, _, enrols⟩
  · cases returns
  · cases returns
  · apply started.enrols enrols (fun listed => freshStarted (roll.allocated _ listed))
    intro other listed
    rw [only other listed, roll.tid]
    exact Nat.zero_ne_one

/-- As long as no thread is created with an id that a thread of the table has, the threads of
the table have different ids, and the calls with the id of one of them act on this thread. -/
theorem thread_ids_guarded_runs {first : Machine} (booted : first.Booted) :
    ∃ k, first.kernel.currentThread = some k ∧
      ∀ operations last, Run (Guarded UnusedTid IsolationStep) (start first) operations last →
        last.machine.kernel.HoldsKernelThread k ∧ last.machine.kernel.DistinctTids ∧
          ∀ t, last.machine.kernel.Listed t → last.machine.kernel.ActedOn k t := by
  rcases booted.roll with ⟨k, started, isCurrent⟩
  refine ⟨k, isCurrent, fun operations last run => ?_⟩
  have preserved : ∀ (before : Isolation) operation after,
      before.machine.kernel.Roll k ∧ before.machine.kernel.DistinctTids →
        Guarded UnusedTid IsolationStep before operation after →
          after.machine.kernel.Roll k ∧ after.machine.kernel.DistinctTids := by
    rintro before operation after ⟨roll, distinct⟩ ⟨guard, step⟩
    exact ⟨roll.step step, distinctTids_step roll distinct guard step⟩
  rcases run.invariant preserved ⟨started, distinctTids_booted booted⟩ with ⟨roll, distinct⟩
  exact ⟨roll.toHoldsKernelThread, distinct,
    fun t listed => distinct.actedOn roll.toHoldsKernelThread listed⟩

/-- A thread that is created first gets the id behind that of the idle thread. -/
theorem thread_ids_guarded_runs_created :
    createdMachine.kernel.threadFromTid 2 = some 0x1200 := by
  have creates : startedKernel.threadCreate kernelThreadRequest (threadMemoryAt 0x1200) =
      some (some 0x1200, startedKernel.withThread 0x1200) :=
    Kernel.withThread_eq (by decide +kernel)
  have entries : ∀ slot < maxThreads, ∀ t ∈ startedKernel.threadTable slot,
      (startedKernel.threads t).tid ≠ startedKernel.nextTid := by
    decide +kernel
  have unused : ∀ operation, (start startedMachine).UnusedTid operation := by
    apply unusedTid_of_entries
    simpa only [start, startedMachine] using entries
  have run : Run (Guarded UnusedTid IsolationStep) (start startedMachine)
      [.scheduling (.threadCreate kernelThreadRequest (threadMemoryAt 0x1200) (some 0x1200))]
      ((start startedMachine).record _ createdMachine) :=
    .cons ⟨unused _, .scheduling (.threadCreate (by decide +kernel) creates)⟩ (.nil _)
  rcases thread_ids_guarded_runs startedMachine_booted with ⟨k, _, identifies⟩
  have reached := (identifies _ _ run).2.2 0x1200
  simp only [record] at reached
  have tid : (createdMachine.kernel.threads 0x1200).tid = 2 := by decide +kernel
  have acted := reached ⟨2, by decide, by decide +kernel⟩
  rw [← tid]
  exact acted.found

/-- A call of `thread_create` that gets a block for the thread but none for its stack. -/
def stacklessCreate : IsolationOperation :=
  .scheduling (.threadCreate kernelThreadRequest ⟨0x1200, 0, 0⟩ none)

/-- Such a call uses up a thread id. -/
theorem run_stacklessCreate (count : ℕ) {kernel : Kernel} {frame : Context}
    {running : Option ℕ} {saved : ℕ → Context} (room : kernel.threadCount < maxThreads)
    (fresh : 0x1200 ∉ kernel.threadBlocks) (bound : kernel.nextTid < 2 ^ 32) :
    ∃ last, Run IsolationStep ⟨⟨kernel, .idle, frame⟩, running, saved⟩
        (List.replicate count stacklessCreate) last ∧
      last.machine = ⟨{ kernel with nextTid := (kernel.nextTid + count) % 2 ^ 32 }, .idle,
        frame⟩ := by
  induction count generalizing kernel running saved with
  | zero =>
      refine ⟨_, .nil _, ?_⟩
      simp only [Nat.add_zero, Nat.mod_eq_of_lt bound]
  | succ count ih =>
      have creates : kernel.threadCreate kernelThreadRequest ⟨0x1200, 0, 0⟩ =
          some (none, { kernel with nextTid := (kernel.nextTid + 1) % 2 ^ 32 }) := by
        have accepted : ¬(kernelThreadRequest.function = 0 ∨ maxThreads ≤ kernel.threadCount ∨
            0x1200 = 0) := by
          simp [kernelThreadRequest, room]
        have lacks : kernelThreadRequest.lacksStack ⟨0x1200, 0, 0⟩ := by decide
        rw [Kernel.threadCreate, if_neg accepted, if_pos lacks]
      have step : IsolationStep ⟨⟨kernel, .idle, frame⟩, running, saved⟩ stacklessCreate
          (record ⟨⟨kernel, .idle, frame⟩, running, saved⟩ stacklessCreate
            ⟨{ kernel with nextTid := (kernel.nextTid + 1) % 2 ^ 32 }, .idle, frame⟩) :=
        .scheduling (.threadCreate fresh creates)
      have room' : { kernel with nextTid := (kernel.nextTid + 1) % 2 ^ 32 }.threadCount <
          maxThreads := room
      rcases ih room' fresh (Nat.mod_lt _ (by decide)) with ⟨last, run, machine⟩
      refine ⟨last, .cons step run, machine.trans ?_⟩
      have wraps : ((kernel.nextTid + 1) % 2 ^ 32 + count) % 2 ^ 32 =
          (kernel.nextTid + (count + 1)) % 2 ^ 32 := by
        omega
      simp only [wraps]

/-- The kernel once the thread ids have wrapped. -/
def wrappedKernel : Kernel := { startedKernel with nextTid := 0 }

/-- After `2 ^ 32 - 2` calls of `thread_create` that get no stack, the next thread gets the id of
the kernel thread, and a lookup of its id gives the kernel thread. -/
theorem thread_id_of_kernel_thread :
    startedMachine.Booted ∧ ∃ operations last,
      Run IsolationStep (start startedMachine) operations last ∧
        (∀ operation ∈ operations, ∃ request memory answer,
          operation = .scheduling (.threadCreate request memory answer)) ∧
        last.machine.kernel.HoldsKernelThread 0x1000 ∧ last.machine.kernel.Listed 0x1200 ∧
        (last.machine.kernel.threads 0x1200).tid = 0 ∧
        last.machine.kernel.threadFromTid 0 = some 0x1000 := by
  have count : startedKernel.threadCount < maxThreads := by decide +kernel
  have fresh : 0x1200 ∉ startedKernel.threadBlocks := by decide +kernel
  have nextTid : startedKernel.nextTid = 2 := by decide +kernel
  have creates : wrappedKernel.threadCreate kernelThreadRequest (threadMemoryAt 0x1200) =
      some (some 0x1200, wrappedKernel.withThread 0x1200) :=
    Kernel.withThread_eq (by decide +kernel)
  have slot : (wrappedKernel.withThread 0x1200).threadTable 2 = some 0x1200 := by decide +kernel
  have tid : ((wrappedKernel.withThread 0x1200).threads 0x1200).tid = 0 := by decide +kernel
  have found : (wrappedKernel.withThread 0x1200).threadFromTid 0 = some 0x1000 := by
    decide +kernel
  have current : startedKernel.currentThread = some 0x1000 := by decide +kernel
  have freshWrapped : 0x1200 ∉ wrappedKernel.threadBlocks := by decide +kernel
  have bound : startedKernel.nextTid < 2 ^ 32 := by
    rw [nextTid]
    decide
  have isStart : start startedMachine = ⟨⟨startedKernel, .idle, {}⟩, startedKernel.currentThread,
      fun t => (startedKernel.threads t).context⟩ := by
    simp only [start, startedMachine]
  rcases startedMachine_booted.roll_run with ⟨k, isCurrent, rolls⟩
  rw [isStart] at rolls ⊢
  rcases Option.some.inj (current.symm.trans isCurrent)
  rcases run_stacklessCreate (2 ^ 32 - 2) count fresh bound with ⟨wrapped, run, machine⟩
  have isWrapped : wrapped.machine = ⟨wrappedKernel, .idle, {}⟩ := by
    rw [machine, nextTid]
    rfl
  have scheduled : SchedulingStep wrapped.machine
      (.threadCreate kernelThreadRequest (threadMemoryAt 0x1200) (some 0x1200))
      ⟨wrappedKernel.withThread 0x1200, .idle, {}⟩ := by
    rw [isWrapped]
    exact .threadCreate freshWrapped creates
  have step : ∃ last, IsolationStep wrapped (.scheduling
      (.threadCreate kernelThreadRequest (threadMemoryAt 0x1200) (some 0x1200))) last ∧
        last.machine.kernel = wrappedKernel.withThread 0x1200 :=
    ⟨_, .scheduling scheduled, by simp only [record]⟩
  rcases step with ⟨last, final, isLast⟩
  have whole := run.snoc final
  have roll := rolls _ _ whole
  refine ⟨startedMachine_booted, _, last, whole, ?_, roll.toHoldsKernelThread, ?_⟩
  · intro operation mem
    rcases List.mem_append.mp mem with isStackless | isLast
    · exact ⟨_, _, _, List.eq_of_mem_replicate isStackless⟩
    · exact ⟨_, _, _, List.mem_singleton.mp isLast⟩
  · rw [isLast]
    exact ⟨⟨2, by decide, slot⟩, tid, found⟩

end Isolation

end Goshkik

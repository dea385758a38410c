import Goshkik.Scheduling.ContextSwitch
import Goshkik.Scheduling.KernelThread
import Goshkik.Scheduling.ReadyQueue

/-!
# Every thread gets its own registers back

`Isolation` records beside the machine which thread is running and, for every thread, the
registers it had when it was last interrupted, or those that `thread_create` gave it.  The
running thread may change its registers as it likes between two ticks.  The code knows
neither record: it has `current_thread` and the contexts in the thread records, and the
invariant `Isolated` says that these are the same.
-/

namespace Goshkik

open Transition

structure Isolation where
  machine : Machine
  running : Option ℕ
  saved : ℕ → Context

inductive IsolationOperation where
  | scheduling (operation : SchedulingOperation)
  | threadExit

/-- The operations that make up a tick. -/
def IsolationOperation.OfTick : IsolationOperation → Prop
  | .scheduling (.tick _) | .scheduling .tickSelect | .scheduling .tickConsider
  | .scheduling .tickCleanUp => True
  | _ => False

namespace Isolation

/-- Before the first operation the current thread is running. -/
def start (machine : Machine) : Isolation where
  machine := machine
  running := machine.kernel.currentThread
  saved := fun t => (machine.kernel.threads t).context

/-- Which thread is running after an operation: a dispatched one runs, and one that exits runs
no more. -/
def runningAfter (before : Isolation) (phase : TickPhase) : IsolationOperation → Option ℕ
  | .threadExit => none
  | .scheduling (.threadTerminate _ answer) => if answer = none then none else before.running
  | .scheduling .tickConsider =>
      match before.machine.phase, phase with
      | .considering next, .dispatched => some next
      | _, _ => before.running
  | .scheduling _ => before.running

/-- A tick interrupts the running thread, and `thread_create` gives a thread its first
registers. -/
def savedAfter (before : Isolation) : IsolationOperation → ℕ → Context
  | .scheduling (.tick context), t =>
      if before.running = some t then context else before.saved t
  | .scheduling (.threadCreate request memory _), t =>
      if before.machine.kernel.Builds request memory ∧ t = memory.thread then
        request.context memory.stackBase
      else before.saved t
  | _, t => before.saved t

/-- The record of an operation that leads to a machine. -/
def record (before : Isolation) (operation : IsolationOperation) (machine : Machine) :
    Isolation where
  machine := machine
  running := before.runningAfter machine.phase operation
  saved := before.savedAfter operation

end Isolation

inductive IsolationStep : Isolation → IsolationOperation → Isolation → Prop where
  | scheduling {before : Isolation} {operation : SchedulingOperation} {machine : Machine}
      (steps : SchedulingStep before.machine operation machine) :
      IsolationStep before (.scheduling operation) (before.record (.scheduling operation) machine)
  | threadExit {before : Isolation} {after : Kernel} {fuel : ℕ}
      (idle : before.machine.phase = .idle)
      (runs : before.machine.kernel.threadExit fuel = some after) :
      IsolationStep before .threadExit
        (before.record .threadExit ⟨after, .idle, before.machine.frame⟩)

namespace Isolation

/-- The contexts of the thread records are the registers of the threads, and between two ticks
the running thread is the current one. -/
structure Isolated (state : Isolation) : Prop where
  kernelThread : ∃ k, state.machine.kernel.HoldsKernelThread k
  contexts : ∀ t, (state.machine.kernel.threads t).context = state.saved t
  current : state.machine.phase = .idle ∨ state.machine.phase = .dispatched →
    state.running = state.machine.kernel.currentThread

variable {before after state : Isolation} {machine : Machine} {k : ℕ}

/-- An operation that neither saves a frame nor creates or dispatches a thread. -/
theorem Isolated.spared (isolated : before.Isolated) {operation : IsolationOperation}
    (holds : before.machine.kernel.HoldsKernelThread k)
    (spares : Kernel.Spares k before.machine.kernel machine.kernel)
    (saved : before.savedAfter operation = before.saved)
    (current : machine.phase = .idle ∨ machine.phase = .dispatched →
      before.runningAfter machine.phase operation = machine.kernel.currentThread) :
    (before.record operation machine).Isolated where
  kernelThread := ⟨k, spares.keeps holds⟩
  contexts := by
    intro t
    have kept : (before.record operation machine).saved = before.saved := saved
    rw [kept, ← isolated.contexts t]
    exact spares.context t
  current := current

theorem Isolated.step (isolated : before.Isolated) {operation : IsolationOperation}
    (step : IsolationStep before operation after) : after.Isolated := by
  rcases isolated.kernelThread with ⟨k, holds⟩
  cases step with
  | threadExit idle runs =>
      rcases Kernel.Spares.threadExit holds runs with ⟨spares, current⟩
      exact isolated.spared holds spares rfl (fun _ => current.symm)
  | scheduling steps =>
      rcases before with ⟨machine, running, saved⟩
      cases steps with
      | threadCreate fresh runs =>
          rcases Kernel.threadCreate_spares holds fresh runs with ⟨holdsAfter, current, contexts⟩
          refine ⟨⟨k, holdsAfter⟩, ?_, fun _ => (isolated.current (.inl rfl)).trans current.symm⟩
          intro t
          refine (contexts t).trans ?_
          rw [isolated.contexts t]
          rfl
      | threadUnblock runs =>
          have current := Kernel.threadUnblock_currentThread runs
          exact isolated.spared holds (.threadUnblock runs) rfl
            (fun _ => (isolated.current (.inl rfl)).trans current.symm)
      | threadBlock runs =>
          have current := Kernel.threadBlock_currentThread runs
          exact isolated.spared holds (.threadBlock runs) rfl
            (fun _ => (isolated.current (.inl rfl)).trans current.symm)
      | threadTerminate runs =>
          rcases Kernel.Spares.threadTerminate holds runs with ⟨spares, current⟩
          refine isolated.spared holds spares rfl (fun _ => ?_)
          rw [current, ← isolated.current (.inl rfl)]
          rfl
      | cleanUp runs =>
          rcases Kernel.Spares.cleanUp holds runs with ⟨spares, current⟩
          exact isolated.spared holds spares rfl
            (fun _ => (isolated.current (.inl rfl)).trans current.symm)
      | addToReadyQueue valid runs =>
          have current := Kernel.addToReadyQueue_currentThread runs
          exact isolated.spared holds (.addToReadyQueue runs) rfl
            (fun _ => (isolated.current (.inl rfl)).trans current.symm)
      | removeFromReadyQueue valid runs =>
          have relinked := Kernel.Relinked.removeFromReadyQueue runs
          exact isolated.spared holds (.of_relinked relinked) rfl
            (fun _ => (isolated.current (.inl rfl)).trans relinked.currentThread.symm)
      | tick runs =>
          rcases Kernel.tickPrologue_spares holds runs with ⟨holdsAfter, contexts⟩
          refine ⟨⟨k, holdsAfter⟩, ?_, by rintro (end' | end') <;> cases end'⟩
          intro t
          refine (contexts t).trans ?_
          rw [isolated.contexts t, ← isolated.current (.inl rfl)]
          rfl
      | tickSelect =>
          rcases Kernel.Spares.tickSelect holds with ⟨spares, goesOn, undispatched⟩
          refine isolated.spared holds spares rfl ?_
          rintro (idle | dispatched)
          · exact absurd idle goesOn
          · exact absurd dispatched undispatched
      | tickConsider runs =>
          rcases Kernel.Spares.tickConsider holds runs with ⟨spares, rfl | ⟨rfl, current⟩⟩
          · exact isolated.spared holds spares rfl (by rintro (end' | end') <;> cases end')
          · exact isolated.spared holds spares rfl (fun _ => current.symm)
      | tickCleanUp runs =>
          rcases Kernel.Spares.cleanUp holds runs with ⟨spares, current⟩
          exact isolated.spared holds spares rfl
            (fun _ => (isolated.current (.inr rfl)).trans current.symm)

theorem isolated_start {first : Machine} (booted : first.Booted) : (start first).Isolated := by
  rcases booted with ⟨_, kernel, kernelThread, idleTask, memory, unstarted, _, fresh, runs⟩
  exact ⟨⟨kernelThread, Kernel.initThreading_holds unstarted.threadBlocks fresh runs⟩,
    fun _ => rfl, fun _ => rfl⟩

/-- What a dispatched thread gets back of its registers. -/
structure Installed (saved frame : Context) (privilege : ThreadPrivilege) : Prop where
  ring0 : privilege = .ring0 → frame = saved
  ring3 : privilege = .ring3 →
    { frame with
      intNo := saved.intNo
      errCode := saved.errCode
      cs := saved.cs
      rflags := saved.rflags
      ss := saved.ss } = saved ∧
    frame.cs = userCode64 ∧ frame.ss = userData64 ∧
    frame.rflags = saved.rflags ||| 0x200 ∧ frame.rflags.testBit 9

theorem installed_contextSwitch (frame saved : Context) (privilege : ThreadPrivilege) :
    Installed saved (contextSwitch frame saved (privilege = .ring3)) privilege where
  ring0 isRing0 := by
    subst isRing0
    rfl
  ring3 isRing3 := by
    subst isRing3
    have flag : Nat.testBit 0x200 9 = true := by decide
    refine ⟨rfl, rfl, rfl, rfl, ?_⟩
    simp [contextSwitch, Nat.testBit_or, flag]

/-- A dispatch installs the registers of the thread. -/
theorem Isolated.dispatch (isolated : before.Isolated) {operation : IsolationOperation} {t : ℕ}
    (step : IsolationStep before operation after)
    (considered : before.machine.phase = .considering t)
    (dispatched : after.machine.phase = .dispatched) :
    after.running = some t ∧
      after.machine.frame = contextSwitch before.machine.frame (before.saved t)
        ((before.machine.kernel.threads t).privilege = .ring3) := by
  rcases isolated.kernelThread with ⟨k, holds⟩
  cases step with
  | threadExit idle runs => cases considered.symm.trans idle
  | scheduling steps =>
      rcases before with ⟨machine, running, saved⟩
      cases steps with
      | tickConsider runs =>
          cases considered
          simp only [record] at dispatched
          subst dispatched
          have spares := (Kernel.Spares.tickConsider holds runs).1
          have context := (spares.context t).trans (isolated.contexts t)
          refine ⟨rfl, ?_⟩
          simp only [record, Kernel.dispatchedFrame, context, spares.privilege]
      | _ => cases considered

/-- A tick writes the context of the thread it interrupts. -/
theorem Isolated.tick_contexts (isolated : before.Isolated) {operation : IsolationOperation}
    (step : IsolationStep before operation after) (ofTick : operation.OfTick) (t : ℕ) :
    (after.machine.kernel.threads t).context = (before.machine.kernel.threads t).context ∨
      ∃ context, operation = .scheduling (.tick context) ∧ before.running = some t := by
  rw [isolated.contexts, (isolated.step step).contexts]
  cases step with
  | threadExit idle runs => cases ofTick
  | scheduling steps =>
      rcases before with ⟨machine, running, saved⟩
      cases steps with
      | tick runs =>
          rename_i context _
          by_cases interrupted : running = some t
          · exact .inr ⟨context, rfl, interrupted⟩
          · exact .inl (if_neg interrupted)
      | tickSelect => exact .inl rfl
      | tickConsider runs => exact .inl rfl
      | tickCleanUp runs => exact .inl rfl
      | _ => cases ofTick

/-- In every run, a dispatched thread gets the registers back that it had when it was last
interrupted or those that `thread_create` gave it, by the assembly routine as well, and a
tick changes no context but that of the thread it interrupts. -/
theorem context_isolation {first : Machine} (booted : first.Booted)
    {operations : List IsolationOperation} {last next : Isolation}
    (run : Run IsolationStep (start first) operations last) {operation : IsolationOperation}
    (step : IsolationStep last operation next) :
    (∀ t, last.machine.phase = .considering t → next.machine.phase = .dispatched →
      next.running = some t ∧
      Installed (last.saved t) next.machine.frame (last.machine.kernel.threads t).privilege ∧
      ∀ (cpu : X86.Cpu) (frameAt savedAt : ℕ),
        SwitchCall cpu frameAt savedAt ((last.machine.kernel.threads t).privilege = .ring3) →
        last.machine.frame.StoredAt cpu.memory frameAt →
        (last.machine.kernel.threads t).context.StoredAt cpu.memory savedAt →
          ∃ fuel returned, X86.run contextSwitchProgram fuel 0 cpu = some returned ∧
            next.machine.frame.StoredAt returned.memory frameAt ∧
            (last.machine.kernel.threads t).context.StoredAt returned.memory savedAt) ∧
    (operation.OfTick → ∀ t,
      (next.machine.kernel.threads t).context = (last.machine.kernel.threads t).context ∨
        ∃ context, operation = .scheduling (.tick context) ∧ last.running = some t) := by
  have isolated := run.invariant (fun _ _ _ isolated step => isolated.step step)
    (isolated_start booted)
  refine ⟨?_, isolated.tick_contexts step⟩
  intro t considered dispatched
  rcases isolated.dispatch step considered dispatched with ⟨running, frame⟩
  rw [frame]
  refine ⟨running, installed_contextSwitch _ _ _, ?_⟩
  intro cpu frameAt savedAt call frameStored savedStored
  rw [isolated.contexts t] at savedStored ⊢
  rcases contextSwitch_run call frameStored savedStored with ⟨fuel, returned, runs, stored, outside⟩
  refine ⟨fuel, returned, runs, stored, savedStored.congr ?_⟩
  intro byte above below
  have apart := call.apart
  have stackSaved := call.stackSaved
  apply outside
  · omega
  · omega

/-- The registers with which the kernel thread is interrupted. -/
def interruptedContext : Context := { rax := 7, rip := 0x4010 }

/-- A tick interrupts the kernel thread and dispatches the idle thread; the next one gives the
kernel thread its registers back. -/
theorem context_isolation_interrupted : ∃ last next,
    Run IsolationStep (start startedMachine)
      [.scheduling (.tick interruptedContext), .scheduling .tickSelect, .scheduling .tickConsider,
        .scheduling .tickCleanUp, .scheduling (.tick {}), .scheduling .tickSelect] last ∧
      IsolationStep last (.scheduling .tickConsider) next ∧
      next.running = some 0x1000 ∧ next.machine.frame = interruptedContext := by
  have current : startedKernel.currentThread = some 0x1000 := by
    decide +kernel
  have calls : ((startedKernel.tickPrologue 0 interruptedContext).bind fun first =>
      (first.tickSelect.2.tickConsider 0 0x1100).bind fun second =>
      (second.2.cleanUp 8).bind fun third =>
      (third.tickPrologue 0 {}).bind fun fourth =>
      (fourth.tickSelect.2.tickConsider 0 0x1000).map fun fifth =>
        decide ((first.tickSelect.1 = .considering 0x1100 ∧ second.1 = .dispatched) ∧
          (fourth.tickSelect.1 = .considering 0x1000 ∧ fifth.1 = .dispatched) ∧
          (fourth.tickSelect.2.threads 0x1000).privilege = .ring0)) = some true := by
    decide +kernel
  simp only [Option.bind_eq_some_iff, Option.map_eq_some_iff, decide_eq_true_eq] at calls
  rcases calls with ⟨first, interrupted, ⟨_, second⟩, toIdle, third, cleaned, fourth, again,
    ⟨_, fifth⟩, back, ⟨selectsIdle, rfl⟩, ⟨selectsBack, rfl⟩, privilege⟩
  simp only at cleaned
  have selectingIdle (frame : Context) : SchedulingStep ⟨first, .selecting, frame⟩ .tickSelect
      ⟨first.tickSelect.2, .considering 0x1100, frame⟩ :=
    selectsIdle ▸ .tickSelect
  have selectingBack (frame : Context) : SchedulingStep ⟨fourth, .selecting, frame⟩ .tickSelect
      ⟨fourth.tickSelect.2, .considering 0x1000, frame⟩ :=
    selectsBack ▸ .tickSelect
  have run : Run IsolationStep (start startedMachine)
      [.scheduling (.tick interruptedContext), .scheduling .tickSelect, .scheduling .tickConsider,
        .scheduling .tickCleanUp, .scheduling (.tick {}), .scheduling .tickSelect] _ :=
    .cons (.scheduling (.tick interrupted)) (.cons (.scheduling (selectingIdle _))
      (.cons (.scheduling (.tickConsider toIdle)) (.cons (.scheduling (.tickCleanUp cleaned))
        (.cons (.scheduling (.tick again)) (.cons (.scheduling (selectingBack _)) (.nil _))))))
  have isolated := (context_isolation startedMachine_booted run
    (.scheduling (.tickConsider back))).1 0x1000 rfl rfl
  refine ⟨_, _, run, .scheduling (.tickConsider back), isolated.1, ?_⟩
  rw [isolated.2.1.ring0 privilege]
  simp [record, savedAfter, runningAfter, start, startedMachine, current]

end Isolation

end Goshkik

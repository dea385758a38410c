import Goshkik.Cpu.Timer
import Goshkik.Scheduling.TickLock

/-!
# The interrupt that drives the clock

This file models `arch/x86_64/cpu/irq/irq.c` and the ways into it.  The programmable interval timer
and the software interrupts of `thread_block` and `thread_exit` enter through the same stub, so
`irq_handler` cannot tell them apart and counts a millisecond for each.

A tick of the scheduler that takes the schedule lock twice spins in it for ever, and the handler
does not come to the clock.  The scan code that `keyboard_handler` reads is dropped there.
-/

namespace Goshkik

open Transition

/-! ## The scheduler tick as a whole -/

/-- Among the events the lock is taken while it is held. -/
def spinsForever : Bool → List SpinEvent → Bool
  | _, [] => false
  | held, .acquire :: events => held || spinsForever true events
  | _, .release :: events => spinsForever false events

namespace Kernel

/-- The loop of `scheduler_tick` and what comes behind it. -/
def tickLoop : ℕ → Kernel → TickPhase → Context → Option (Kernel × Context)
  | 0, _, _, _ => none
  | _ + 1, kernel, .idle, frame => some (kernel, frame)
  | fuel + 1, kernel, .selecting, frame =>
      tickLoop fuel kernel.tickSelect.2 kernel.tickSelect.1 frame
  | fuel + 1, kernel, .considering next, frame =>
      (kernel.tickConsider fuel next).bind (fun considered =>
        tickLoop fuel considered.2 considered.1
          (considered.2.dispatchedFrame frame considered.1 next))
  | fuel + 1, kernel, .dispatched, frame =>
      (kernel.cleanUp fuel).map (fun cleaned => (cleaned, frame))

/-- `scheduler_tick`: the kernel it leaves, and the frame that the interrupt returns through. -/
def schedulerTick (fuel : ℕ) (kernel : Kernel) (context : Context) : Option (Kernel × Context) :=
  if spinsForever false (tickEvents fuel kernel (some context)) then none
  else (kernel.tickPrologue fuel context).bind (fun saved => tickLoop fuel saved .selecting context)

variable {kernel after : Kernel} {phase : TickPhase} {context frame before : Context} {fuel : ℕ}

/-- The loop is a run of the scheduling system. -/
theorem tickLoop_run (runs : tickLoop fuel kernel phase context = some (after, frame)) :
    ∃ labels, Run SchedulingStep ⟨kernel, phase, context⟩ labels ⟨after, .idle, frame⟩ := by
  induction fuel generalizing kernel phase context with
  | zero => cases runs
  | succ fuel hypothesis =>
      cases phase with
      | idle =>
          cases runs
          exact ⟨[], .nil _⟩
      | selecting =>
          rcases hypothesis runs with ⟨labels, rest⟩
          exact ⟨_, .cons .tickSelect rest⟩
      | considering next =>
          rcases Option.bind_eq_some_iff.mp runs with ⟨⟨phase, middle⟩, considers, continues⟩
          rcases hypothesis continues with ⟨labels, rest⟩
          exact ⟨_, .cons (.tickConsider considers) rest⟩
      | dispatched =>
          rcases Option.map_eq_some_iff.mp runs with ⟨cleaned, cleans, isLast⟩
          cases isLast
          exact ⟨_, .cons (.tickCleanUp cleans) (.nil _)⟩

theorem schedulerTick_run (runs : kernel.schedulerTick fuel context = some (after, frame)) :
    ∃ labels, Run SchedulingStep ⟨kernel, .idle, before⟩ (.tick context :: labels)
      ⟨after, .idle, frame⟩ := by
  unfold schedulerTick at runs
  split at runs
  · cases runs
  · rcases Option.bind_eq_some_iff.mp runs with ⟨saved, saves, loops⟩
    rcases tickLoop_run loops with ⟨labels, rest⟩
    exact ⟨labels, .cons (.tick saves) rest⟩

end Kernel

/-! ## The interrupt -/

structure TimedKernel where
  kernel : Kernel
  clock : SystemClock

/-- `irq_handler`, with the frame it leaves. -/
def irqHandler (fuel : ℕ) (context : Option Context) (system : TimedKernel) :
    Option (Option Context × TimedKernel) :=
  match context with
  | none => some (none, system)
  | some context =>
      let irqNum := (context.intNo + (2 ^ 64 - 32)) % 2 ^ 32
      if irqNum > 15 then some (some context, system)
      else
        match irqNum with
        | 0 => (system.kernel.schedulerTick fuel context).map (fun ticked =>
            (some ticked.2, ⟨ticked.1, timerHandler system.clock⟩))
        | _ => some (some context, system)

/-- The stub at vector `0x20`, which is entered with the registers of the interrupted thread. -/
def irq0 (fuel : ℕ) (context : Context) (system : TimedKernel) :
    Option (Option Context × TimedKernel) :=
  irqHandler fuel (some { context with intNo := 32, errCode := 0 }) system

inductive ClockOperation where
  | pitInterrupt (context : Context)
  | threadBlock (tid : ℕ) (context : Context)
  | threadExit (context : Context)
  | other

/-- An interrupt of the timer, a call that ends in a software interrupt, or any other work of the
kernel, none of which touches the clock. -/
inductive ClockStep : TimedKernel → ClockOperation → TimedKernel → Prop where
  | pitInterrupt {system after : TimedKernel} {context : Context} {frame : Option Context}
      {fuel : ℕ}
      (interrupts : irq0 fuel context system = some (frame, after)) :
      ClockStep system (.pitInterrupt context) after
  | threadBlock {system after : TimedKernel} {blocked : Kernel} {tid : ℕ} {context : Context}
      {frame : Option Context} {fuel : ℕ}
      (blocks : system.kernel.threadBlock fuel tid = some blocked)
      (interrupts : irq0 fuel context { system with kernel := blocked } = some (frame, after)) :
      ClockStep system (.threadBlock tid context) after
  | threadExit {system after : TimedKernel} {exited : Kernel} {context : Context}
      {frame : Option Context}
      {fuel : ℕ} (exits : system.kernel.threadExit fuel = some exited)
      (interrupts : irq0 fuel context { system with kernel := exited } = some (frame, after)) :
      ClockStep system (.threadExit context) after
  | other {system : TimedKernel} (kernel : Kernel) :
      ClockStep system .other { system with kernel := kernel }

namespace ClockOperation

def isHardware : ClockOperation → Bool
  | .pitInterrupt _ => true
  | _ => false

def isSoftware : ClockOperation → Bool
  | .threadBlock _ _ | .threadExit _ => true
  | _ => false

end ClockOperation

/-- The interrupts that the timer has delivered. -/
def hardwareTicks (labels : List ClockOperation) : ℕ := labels.countP ClockOperation.isHardware

/-- The interrupts that threads have raised. -/
def softwareTicks (labels : List ClockOperation) : ℕ := labels.countP ClockOperation.isSoftware

variable {first last system after : TimedKernel} {labels : List ClockOperation}
  {label : ClockOperation}
  {context : Context} {frame : Option Context} {fuel : ℕ}

/-- The number of the vector is the one of the timer. -/
theorem irq0_eq (fuel : ℕ) (context : Context) (system : TimedKernel) : irq0 fuel context system =
    (system.kernel.schedulerTick fuel { context with intNo := 32, errCode := 0 }).map (fun ticked =>
      (some ticked.2, ⟨ticked.1, timerHandler system.clock⟩)) := by
  have isTimer : (32 + (2 ^ 64 - 32)) % 2 ^ 32 = 0 := by omega
  simp only [irq0, irqHandler, isTimer]
  rfl

/-- Whoever raised it, an interrupt from which the scheduler returns advances the clock. -/
theorem irq0_clock (interrupts : irq0 fuel context system = some (frame, after)) :
    after.clock = timerHandler system.clock := by
  rw [irq0_eq] at interrupts
  rcases Option.map_eq_some_iff.mp interrupts with ⟨ticked, _, isAfter⟩
  cases isAfter
  rfl

theorem uptimeMs_timerHandler (clock : SystemClock) :
    (uptimeMs (timerHandler clock)).toNat = ((uptimeMs clock).toNat + 1) % 2 ^ 64 :=
  uptimeMs_iterate clock 1

theorem ClockStep.uptime (step : ClockStep first label last) : (uptimeMs last.clock).toNat =
    ((uptimeMs first.clock).toNat + (hardwareTicks [label] + softwareTicks [label])) % 2 ^ 64 := by
  cases step with
  | pitInterrupt interrupts =>
      rw [irq0_clock interrupts, uptimeMs_timerHandler]
      rfl
  | threadBlock _ interrupts =>
      rw [irq0_clock interrupts, uptimeMs_timerHandler]
      rfl
  | threadExit _ interrupts =>
      rw [irq0_clock interrupts, uptimeMs_timerHandler]
      rfl
  | other kernel => exact (Nat.mod_eq_of_lt (uptimeMs first.clock).toNat_lt).symm

theorem uptime_run (run : Run ClockStep first labels last) : (uptimeMs last.clock).toNat =
    ((uptimeMs first.clock).toNat + (hardwareTicks labels + softwareTicks labels)) % 2 ^ 64 := by
  induction run with
  | nil state => exact (Nat.mod_eq_of_lt (uptimeMs state.clock).toNat_lt).symm
  | @cons _ _ _ label labels head tail hypothesis =>
      have hardware : hardwareTicks (label :: labels) =
          hardwareTicks [label] + hardwareTicks labels :=
        @List.countP_append _ _ [label] labels
      have software : softwareTicks (label :: labels) =
          softwareTicks [label] + softwareTicks labels :=
        @List.countP_append _ _ [label] labels
      rw [hypothesis, head.uptime, hardware, software]
      omega

/-- In every run since the clock was started the uptime is the number of timer interrupts exactly
when the software interrupts leave no trace in it. -/
theorem uptime_counts_hardware_iff {earlier : SystemClock}
    (started : first.clock = initSystemClock earlier)
    (run : Run ClockStep first labels last) :
    (uptimeMs last.clock).toNat = hardwareTicks labels ↔
      hardwareTicks labels < 2 ^ 64 ∧ 2 ^ 64 ∣ softwareTicks labels := by
  have counted := uptime_run run
  rw [started, show (uptimeMs (initSystemClock earlier)).toNat = 0 from rfl,
    Nat.zero_add] at counted
  rw [counted, Nat.dvd_iff_mod_eq_zero]
  omega

/-! ## A thread that exits -/

/-- The kernel with one more thread behind the idle thread. -/
def exitingKernel : Kernel :=
  ((startedKernel.threadCreate kernelThreadRequest (threadMemoryAt 0x1400)).map Prod.snd).getD
    startedKernel

def exitingStart : TimedKernel := ⟨exitingKernel, initSystemClock ⟨0, ⟨0, 0, 0, 0, 0⟩⟩⟩

/-- The idle thread gets the processor, and then the new thread. -/
def twoInterrupts : List ClockOperation := [.pitInterrupt {}, .pitInterrupt {}]

/-- The operations of a clock step that are computed. -/
def performClock (fuel : ℕ) (system : TimedKernel) : ClockOperation → Option TimedKernel
  | .pitInterrupt context => (irq0 fuel context system).map Prod.snd
  | .threadBlock tid context => (system.kernel.threadBlock fuel tid).bind (fun blocked =>
      (irq0 fuel context { system with kernel := blocked }).map Prod.snd)
  | .threadExit context => (system.kernel.threadExit fuel).bind (fun exited =>
      (irq0 fuel context { system with kernel := exited }).map Prod.snd)
  | .other => some system

theorem performClock_sound (performs : performClock fuel first label = some last) :
    ClockStep first label last := by
  cases label with
  | pitInterrupt context =>
      simp only [performClock, Option.map_eq_some_iff, Prod.exists, exists_eq_right] at performs
      rcases performs with ⟨frame, interrupts⟩
      exact .pitInterrupt interrupts
  | threadBlock tid context =>
      simp only [performClock, Option.bind_eq_some_iff, Option.map_eq_some_iff, Prod.exists,
        exists_eq_right] at performs
      rcases performs with ⟨blocked, blocks, frame, interrupts⟩
      exact .threadBlock blocks interrupts
  | threadExit context =>
      simp only [performClock, Option.bind_eq_some_iff, Option.map_eq_some_iff, Prod.exists,
        exists_eq_right] at performs
      rcases performs with ⟨exited, exits, frame, interrupts⟩
      exact .threadExit exits interrupts
  | other =>
      cases performs
      exact .other first.kernel

theorem uptime_counts_two :
    ∃ last, Run ClockStep exitingStart twoInterrupts last ∧ (uptimeMs last.clock).toNat =
      hardwareTicks twoInterrupts := by
  have follows : ((follow (performClock 12) twoInterrupts exitingStart).isSome) = true := by
    decide +kernel
  rcases Option.isSome_iff_exists.mp follows with ⟨last, follows⟩
  have run : Run ClockStep exitingStart twoInterrupts last :=
    run_of_follow (fun _ _ _ => performClock_sound) follows
  have started : exitingStart.clock = initSystemClock ⟨0, ⟨0, 0, 0, 0, 0⟩⟩ := rfl
  exact ⟨last, run, (uptime_counts_hardware_iff started run).mpr ⟨by decide, by decide⟩⟩

/-- After two interrupts of the timer the new thread exits, and three milliseconds have been
counted. -/
theorem uptime_counts_exit :
    ∃ last, Run ClockStep exitingStart (twoInterrupts ++ [.threadExit {}]) last ∧
    hardwareTicks (twoInterrupts ++ [.threadExit {}]) = 2 ∧ uptimeMs last.clock = 3 := by
  have follows : (follow (performClock 12) (twoInterrupts ++ [.threadExit {}]) exitingStart).map
      (fun last => uptimeMs last.clock) = some 3 := by
    decide +kernel
  rcases Option.map_eq_some_iff.mp follows with ⟨last, follows, uptime⟩
  exact ⟨last, run_of_follow (fun _ _ _ => performClock_sound) follows, rfl, uptime⟩

end Goshkik

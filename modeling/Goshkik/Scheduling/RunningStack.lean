import Goshkik.Scheduling.Dispatch
import Goshkik.Scheduling.ThreadHeap

/-!
# The stack that a tick runs on

An interrupt in ring 0 stays on the stack of the thread that it interrupts, and `thread_exit`
clears `current_thread` before it raises the interrupt.  `executing` is the thread whose stack
the processor is using: it changes only when a tick returns to the thread it has dispatched,
which is behind `clean_up`.
-/

namespace Goshkik

open Transition

namespace Kernel

/-- The frees of `clean_up` for a terminated thread. -/
def kfreesOf (kernel : Kernel) (t : ℕ) : List HeapCall :=
  (kernel.threads t).kfreeStacks ++ [.kfree t]

/-- The threads of the table have blocks of their own, and user threads have a kernel stack. -/
structure Apart (kernel : Kernel) : Prop where
  own : ∀ t other, kernel.Listed t → kernel.Listed other → ∀ call ∈ kernel.kfreesOf t,
    call ∈ kernel.kfreesOf other → t = other
  nonzero : ∀ t, kernel.Listed t → t ≠ 0
  kernelStacks : ∀ t, kernel.Listed t → ¬kernel.Stackless t

variable {kernel middle after : Kernel} {calls : List HeapCall} {t other slot fuel block : ℕ}
  {new : Thread}

theorem kfreeStacks_identity (thread : Thread) : thread.identity.kfreeStacks = thread.kfreeStacks :=
  rfl

theorem kfreesOf_congr (same : (after.threads t).identity = (kernel.threads t).identity) :
    after.kfreesOf t = kernel.kfreesOf t := by
  rw [kfreesOf, kfreesOf, ← kfreeStacks_identity, same, kfreeStacks_identity]

theorem stackless_congr (same : (after.threads t).identity = (kernel.threads t).identity) :
    after.Stackless t ↔ kernel.Stackless t := by
  have privilege : (after.threads t).privilege = (kernel.threads t).privilege := by
    simpa [Thread.identity] using congrArg Thread.privilege same
  have kernelStack : (after.threads t).kernelStack = (kernel.threads t).kernelStack := by
    simpa [Thread.identity] using congrArg Thread.kernelStack same
  rw [Stackless, Stackless, privilege, kernelStack]

theorem Enrols.kfreesOf (enrols : Enrols kernel t slot new after) (other : ℕ) :
    after.kfreesOf other =
      if other = t then new.kfreeStacks ++ [.kfree t] else kernel.kfreesOf other := by
  have same := enrols.identity other
  by_cases isNew : other = t
  · subst isNew
    rw [if_pos rfl] at same ⊢
    rw [Kernel.kfreesOf, ← kfreeStacks_identity, same, kfreeStacks_identity]
  · rw [if_neg isNew] at same ⊢
    exact kfreesOf_congr same

/-- A thread's stack is among its blocks. -/
theorem kfree_stackBase_mem (stack : (kernel.threads t).stackBase ≠ 0) :
    .kfree (kernel.threads t).stackBase ∈ kernel.kfreesOf t := by
  have first : .kfree (kernel.threads t).stackBase ∈ (kernel.threads t).kfreeStacks := by
    by_cases ring3 : (kernel.threads t).privilege = .ring3
    all_goals
      simp [Thread.kfreeStacks, stack, ring3]
  exact List.mem_append_left _ first

theorem kfree_zero_notMem (nonzero : t ≠ 0) : .kfree 0 ∉ kernel.kfreesOf t := by
  have absent : .kfree 0 ∉ (kernel.threads t).kfreeStacks := by
    by_cases ring3 : (kernel.threads t).privilege = .ring3 <;>
      by_cases stack : (kernel.threads t).stackBase = 0 <;>
      by_cases kernelStack : (kernel.threads t).kernelStack = 0
    all_goals
      simp [Thread.kfreeStacks, stack, ring3, kernelStack, Ne.symm]
  simp [kfreesOf, absent, nonzero.symm]

/-! ## What `clean_up` frees -/

/-- Going over a list of slots frees the blocks of the terminated threads in them. -/
theorem cleanUpSlotsLogged_mem {slots : List ℕ} (distinct : slots.Nodup)
    {reached last : Kernel × List HeapCall} {call : HeapCall}
    (runs : slots.foldlM (cleanUpSlotLogged fuel) reached = some last) :
    call ∈ last.2 ↔ call ∈ reached.2 ∨ ∃ slot ∈ slots, ∃ t,
      reached.1.threadTable slot = some t ∧ (reached.1.threads t).state = .termed ∧
        call ∈ reached.1.kfreesOf t := by
  induction slots generalizing reached with
  | nil =>
      cases runs
      simp
  | cons slot slots ih =>
      rw [List.foldlM_cons] at runs
      rcases Option.bind_eq_some_iff.mp runs with ⟨middle, cleans, rest⟩
      rw [ih (List.nodup_cons.mp distinct).2 rest]
      simp only [cleanUpSlotLogged] at cleans
      split at cleans
      · rename_i empty
        cases cleans
        simp [empty]
      · rename_i t isEntry
        split at cleans
        · rename_i dead
          rcases Option.map_eq_some_iff.mp cleans with ⟨removed, removes, rfl⟩
          have relinked := Relinked.removeFromReadyQueue removes
          have strikes := strikesOff_freeThread relinked slot t
          have frees : (removed.threads t).kfreeStacks ++ [.kfree t] = reached.1.kfreesOf t :=
            kfreesOf_congr (relinked.identity t)
          have others : ∀ other ∈ slots, (removed.freeThread slot t).threadTable other =
              reached.1.threadTable other := by
            intro other mem
            rw [strikes.table, Function.update_of_ne]
            rintro rfl
            exact (List.nodup_cons.mp distinct).1 mem
          have sameFrees : ∀ other, (removed.freeThread slot t).kfreesOf other =
              reached.1.kfreesOf other :=
            fun other => kfreesOf_congr (strikes.identity other)
          simp only [frees, List.mem_append, strikes.state, sameFrees]
          constructor
          · rintro ((before | mine) | ⟨other, mem, u, isOther, dead, frees⟩)
            · exact .inl before
            · exact .inr ⟨slot, List.mem_cons_self, t, isEntry, dead, mine⟩
            · rw [others other mem] at isOther
              exact .inr ⟨other, List.mem_cons_of_mem _ mem, u, isOther, dead, frees⟩
          · rintro (before | ⟨other, mem, u, isOther, dead, frees⟩)
            · exact .inl (.inl before)
            · rcases List.mem_cons.mp mem with rfl | among
              · rcases Option.some.inj (isEntry.symm.trans isOther)
                exact .inl (.inr frees)
              · rw [← others other among] at isOther
                exact .inr ⟨other, among, u, isOther, dead, frees⟩
        · rename_i alive
          cases cleans
          constructor
          · rintro (before | ⟨other, mem, rest⟩)
            · exact .inl before
            · exact .inr ⟨other, List.mem_cons_of_mem _ mem, rest⟩
          · rintro (before | ⟨other, mem, u, isOther, dead, frees⟩)
            · exact .inl before
            · rcases List.mem_cons.mp mem with rfl | among
              · rcases Option.some.inj (isEntry.symm.trans isOther)
                exact absurd dead alive
              · exact .inr ⟨other, among, u, isOther, dead, frees⟩

/-- `clean_up` frees the blocks of the terminated threads of the table. -/
theorem cleanUpLogged_mem {call : HeapCall}
    (runs : kernel.cleanUpLogged fuel = some (after, calls)) :
    call ∈ calls ↔ ∃ t, kernel.Listed t ∧ (kernel.threads t).state = .termed ∧
      call ∈ kernel.kfreesOf t := by
  have among : call ∈ calls ↔ _ := cleanUpSlotsLogged_mem List.nodup_range runs
  simp only [List.not_mem_nil, false_or, List.mem_range] at among
  rw [among]
  constructor
  · rintro ⟨slot, bound, t, isEntry, dead, frees⟩
    exact ⟨t, ⟨slot, bound, isEntry⟩, dead, frees⟩
  · rintro ⟨t, ⟨slot, bound, isEntry⟩, dead, frees⟩
    exact ⟨slot, bound, t, isEntry, dead, frees⟩

namespace Apart

theorem sameRoll (apart : kernel.Apart) (same : SameRoll kernel after) : after.Apart where
  own t other := by
    rw [same.listed, kfreesOf_congr (same.identity t), kfreesOf_congr (same.identity other)]
    exact apart.own t other
  nonzero t := by
    rw [same.listed]
    exact apart.nonzero t
  kernelStacks t := by
    rw [same.listed, stackless_congr (same.identity t)]
    exact apart.kernelStacks t

theorem strikesOff (apart : kernel.Apart) (strikes : StrikesOff kernel t slot after) :
    after.Apart := by
  have among : ∀ other, after.Listed other → kernel.Listed other := by
    rintro other ⟨position, bound, isEntry⟩
    exact ⟨position, bound, (strikes.entry isEntry).2⟩
  refine ⟨fun first second firstListed secondListed => ?_, fun u listed => ?_, fun u listed => ?_⟩
  · rw [kfreesOf_congr (strikes.identity first), kfreesOf_congr (strikes.identity second)]
    exact apart.own first second (among first firstListed) (among second secondListed)
  · exact apart.nonzero u (among u listed)
  · rw [stackless_congr (strikes.identity u)]
    exact apart.kernelStacks u (among u listed)

theorem cleanUp (apart : kernel.Apart) (runs : kernel.cleanUp fuel = some after) :
    after.Apart :=
  cleanUp_preserves (fun _ _ _ strikes apart => apart.strikesOff strikes) runs apart

theorem enrols (apart : kernel.Apart) (enrols : Enrols kernel t slot new after)
    (unlisted : ¬kernel.Listed t) (nonzero : t ≠ 0)
    (stack : ¬(new.privilege = .ring3 ∧ new.kernelStack = 0))
    (fresh : ∀ other, kernel.Listed other → ∀ call ∈ kernel.kfreesOf other,
      call ∉ new.kfreeStacks ++ [.kfree t]) : after.Apart := by
  have among : ∀ other, after.Listed other → other = t ∨ kernel.Listed other ∧ other ≠ t := by
    rintro other ⟨position, bound, isEntry⟩
    rcases enrols.entry isEntry with ⟨_, isNew⟩ | ⟨_, before⟩
    · exact .inl isNew
    · refine .inr ⟨⟨position, bound, before⟩, ?_⟩
      rintro rfl
      exact unlisted ⟨position, bound, before⟩
  refine ⟨fun first second firstListed secondListed call => ?_, fun other listed => ?_,
    fun other listed => ?_⟩
  · rw [enrols.kfreesOf, enrols.kfreesOf]
    rcases among first firstListed with rfl | ⟨firstBefore, firstOld⟩
    · rcases among second secondListed with rfl | ⟨secondBefore, secondOld⟩
      · exact fun _ _ => rfl
      · rw [if_pos rfl, if_neg secondOld]
        exact fun mine theirs => absurd mine (fresh second secondBefore call theirs)
    · rcases among second secondListed with rfl | ⟨secondBefore, secondOld⟩
      · rw [if_pos rfl, if_neg firstOld]
        exact fun theirs mine => absurd mine (fresh first firstBefore call theirs)
      · rw [if_neg firstOld, if_neg secondOld]
        exact apart.own first second firstBefore secondBefore call
  · rcases among other listed with rfl | ⟨before, _⟩
    · exact nonzero
    · exact apart.nonzero other before
  · have same := enrols.identity other
    rcases among other listed with rfl | ⟨before, old⟩
    · rw [if_pos rfl] at same
      have privilege : (after.threads other).privilege = new.privilege := by
        simpa [Thread.identity] using congrArg Thread.privilege same
      have kernelStack : (after.threads other).kernelStack = new.kernelStack := by
        simpa [Thread.identity] using congrArg Thread.kernelStack same
      rwa [Stackless, privilege, kernelStack]
    · rw [if_neg old] at same
      rw [stackless_congr same]
      exact apart.kernelStacks other before

end Apart

/-- A tick that dispatches a thread terminates no thread that has the stacks it needs. -/
theorem tick_termed_iff {context : Context} {saved taken chosen : Kernel} {next : ℕ}
    (saves : kernel.tickPrologue fuel context = some saved)
    (dispatches : saved.Dispatches taken next chosen) (stack : ¬kernel.Stackless t) :
    (chosen.threads t).state = .termed ↔ (kernel.threads t).state = .termed := by
  have prepared := tickPrologue_prepared saves
  have prologue : (saved.threads t).state = .termed ↔ (kernel.threads t).state = .termed := by
    rw [prepared.state t]
    split
    · rename_i goesOn
      simp only [awake, Bool.or_eq_true, Bool.and_eq_true, decide_eq_true_eq] at goesOn
      rcases goesOn with ready | ⟨_, running⟩
      · simp [ready]
      · simp [running]
    · rfl
  have turns : (taken.threads t).state = (saved.threads t).state := by
    rcases dispatches.turned.state t with same | ⟨stackless, _⟩
    · exact same
    · exact absurd ((prepared.stackless t).mp stackless) stack
  rcases dispatches.final with ⟨_, turnFuel, considers⟩
  rcases tickConsider_dispatched considers with ⟨_, alive, _, _, isChosen⟩
  have selects : (taken.tickSelect.2.threads t).state = (taken.threads t).state := by
    rcases (Turned.tickSelect taken).state t with same | ⟨stackless, _⟩
    · exact same
    · have stackSaved := (dispatches.turned.stackless t).mp stackless
      exact absurd ((prepared.stackless t).mp stackSaved) stack
  rw [← prologue, ← turns, ← selects, isChosen]
  by_cases same : t = next
  · subst same
    simp [dispatch, setState, alive]
  · rw [dispatch_threads_ne same]

theorem Dispatches.sameRoll {saved taken chosen : Kernel} {next : ℕ}
    (dispatches : saved.Dispatches taken next chosen) : SameRoll saved chosen := by
  induction dispatches with
  | last selects considers => exact (SameRoll.tickSelect _).trans (.tickConsider considers)
  | drop selects rest ih => exact (SameRoll.tickSelect _).trans ih
  | again selects considers rest ih =>
      exact ((SameRoll.tickSelect _).trans (.tickConsider considers)).trans ih

end Kernel

/-! ## Runs -/

structure StackSystem where
  isolation : Isolation
  executing : ℕ

namespace StackSystem

variable (system : StackSystem)

def kernel : Kernel := system.isolation.machine.kernel

/-- The stack that the processor is using. -/
def stack : ℕ := (system.kernel.threads system.executing).stackBase

/-- `kmalloc` hands out no block that a thread of the table has. -/
def Fresh : IsolationOperation → Prop
  | .scheduling (.threadCreate request memory _) => ∀ t, system.kernel.Listed t →
      ∀ call ∈ system.kernel.kfreesOf t,
        call ∉ (request.thread memory system.kernel.nextTid).kfreeStacks ++ [.kfree memory.thread]
  | _ => True

/-- Behind `clean_up` a tick returns to the thread that it has dispatched. -/
def executingAfter (after : Kernel) : IsolationOperation → ℕ
  | .scheduling .tickCleanUp => after.currentThread.getD system.executing
  | _ => system.executing

def start (machine : Machine) : StackSystem :=
  ⟨.start machine, machine.kernel.currentThread.getD 0⟩

end StackSystem

def StackStep (before : StackSystem) (operation : IsolationOperation) (after : StackSystem) :
    Prop :=
  before.Fresh operation ∧ IsolationStep before.isolation operation after.isolation ∧
    after.executing = before.executingAfter after.kernel operation

namespace StackSystem

variable {before after state : StackSystem} {operation : IsolationOperation}
  {operations : List IsolationOperation} {k : ℕ}

theorem apart_step (roll : before.kernel.Roll k) (apart : before.kernel.Apart)
    (step : StackStep before operation after) : after.kernel.Apart := by
  rcases step with ⟨blocks, step, _⟩
  rcases step.roll_cases roll.toHoldsKernelThread with
    ⟨request, memory, answer, rfl, fresh, runs⟩ | ⟨fuel, runs⟩ | ⟨same, _⟩
  · rcases Kernel.threadCreate_cases runs with
      ⟨_, _, same | same⟩ | ⟨builds, _, full⟩ | ⟨builds, _, slot, _, enrols⟩
    · rw [kernel, same]
      exact apart
    · rw [kernel, same]
      exact apart.sameRoll (.rest rfl rfl rfl rfl)
    · exact absurd full (roll.freeThreadSlot_ne_none builds)
    · refine apart.enrols enrols (fun listed => fresh (roll.allocated _ listed)) ?_ ?_ blocks
      · intro null
        exact builds.1 (.inr (.inr null))
      · rintro ⟨isRing3, missing⟩
        have ring3 : request.privilege = .ring3 := isRing3
        have kernelStack : memory.kernelStack = 0 := by
          simpa [ThreadRequest.thread, ring3] using missing
        have hasStack := builds.2
        simp [ThreadRequest.lacksStack, ring3, kernelStack] at hasStack
  · exact apart.cleanUp runs
  · exact apart.sameRoll same

theorem roll_apart_run {first last : StackSystem} (roll : first.kernel.Roll k)
    (apart : first.kernel.Apart) (run : Run StackStep first operations last) :
    last.kernel.Roll k ∧ last.kernel.Apart := by
  have preserved : ∀ (before : StackSystem) operation after,
      before.kernel.Roll k ∧ before.kernel.Apart → StackStep before operation after →
        after.kernel.Roll k ∧ after.kernel.Apart := by
    rintro before operation after ⟨roll, apart⟩ step
    exact ⟨Kernel.Roll.step roll step.2.1, apart_step roll apart step⟩
  exact run.invariant preserved ⟨roll, apart⟩

/-- In every state that the threads reach, a tick that dispatches a thread leaves the stack that
it runs on allocated if and only if no terminated thread of the table has this stack, and so
if and only if the thread whose stack it is, where it is in the table, is not terminated. -/
theorem tick_keeps_stack_iff {first : Machine} (booted : first.Booted) (apart : first.kernel.Apart)
    (run : Run StackStep (start first) operations state) {context : Context}
    {fuel cleanFuel next : ℕ} {saved taken chosen cleaned : Kernel} {calls : List HeapCall}
    (saves : state.kernel.tickPrologue fuel context = some saved)
    (dispatches : saved.Dispatches taken next chosen)
    (cleans : chosen.cleanUpLogged cleanFuel = some (cleaned, calls)) :
    (.kfree state.stack ∉ calls ↔ ∀ t, state.kernel.Listed t →
      (state.kernel.threads t).state = .termed → .kfree state.stack ∉ state.kernel.kfreesOf t) ∧
    (state.kernel.Listed state.executing → (.kfree state.stack ∉ calls ↔
      ((state.kernel.threads state.executing).state = .termed → state.stack = 0))) := by
  rcases booted.roll with ⟨k, started, _⟩
  rcases @roll_apart_run _ _ (start first) _ started apart run with ⟨_, separate⟩
  have same := (Kernel.SameRoll.tickPrologue saves).trans dispatches.sameRoll
  have unfreed : .kfree state.stack ∉ calls ↔ ∀ t, state.kernel.Listed t →
      (state.kernel.threads t).state = .termed → .kfree state.stack ∉ state.kernel.kfreesOf t := by
    rw [Kernel.cleanUpLogged_mem cleans, same.listed]
    constructor
    · intro kept t listed dead frees
      refine kept ⟨t, listed, ?_, ?_⟩
      · exact (Kernel.tick_termed_iff saves dispatches (separate.kernelStacks t listed)).mpr dead
      · rwa [Kernel.kfreesOf_congr (same.identity t)]
    · rintro kept ⟨t, listed, dead, frees⟩
      rw [Kernel.kfreesOf_congr (same.identity t)] at frees
      exact kept t listed
        ((Kernel.tick_termed_iff saves dispatches (separate.kernelStacks t listed)).mp dead) frees
  refine ⟨unfreed, fun listed => unfreed.trans ⟨fun kept dead => ?_, fun alive t other dead frees =>
    ?_⟩⟩
  · by_contra nonzero
    exact kept _ listed dead (Kernel.kfree_stackBase_mem nonzero)
  · by_cases nonzero : state.stack = 0
    · rw [nonzero] at frees
      exact Kernel.kfree_zero_notMem (separate.nonzero t other) frees
    · have isExecuting := separate.own state.executing t listed other _
        (Kernel.kfree_stackBase_mem nonzero) frees
      rw [← isExecuting] at dead
      exact nonzero (alive dead)

/-! ## A thread that exits -/

theorem run_threadCreate {system : StackSystem} {kernel after : Kernel} {frame : Context}
    {request : ThreadRequest} {memory : ThreadMemory} {answer : Option ℕ}
    (isMachine : system.isolation.machine = ⟨kernel, .idle, frame⟩)
    (fresh : memory.thread ∉ kernel.threadBlocks)
    (blocks : ∀ t, kernel.Listed t → ∀ call ∈ kernel.kfreesOf t,
      call ∉ (request.thread memory kernel.nextTid).kfreeStacks ++ [.kfree memory.thread])
    (runs : kernel.threadCreate request memory = some (answer, after)) :
    ∃ last, StackStep system (.scheduling (.threadCreate request memory answer)) last ∧
      last.isolation.machine = ⟨after, .idle, frame⟩ := by
  have step : SchedulingStep system.isolation.machine (.threadCreate request memory answer)
      ⟨after, .idle, frame⟩ := by
    rw [isMachine]
    exact .threadCreate fresh runs
  refine ⟨⟨_, system.executing⟩, ⟨?_, .scheduling step, rfl⟩, rfl⟩
  rw [Fresh, StackSystem.kernel, isMachine]
  exact blocks

theorem run_threadExit {system : StackSystem} {after : Kernel} {fuel : ℕ}
    (idle : system.isolation.machine.phase = .idle)
    (runs : system.isolation.machine.kernel.threadExit fuel = some after) :
    ∃ last, StackStep system .threadExit last ∧ last.kernel = after ∧
      last.isolation.machine.phase = .idle ∧ last.executing = system.executing :=
  ⟨⟨_, system.executing⟩, ⟨trivial, .threadExit idle runs, rfl⟩, rfl, rfl, rfl⟩

/-- The turns of a tick, from its prologue to its dispatch. -/
theorem run_dispatches {saved taken chosen : Kernel} {next : ℕ}
    (dispatches : saved.Dispatches taken next chosen) (frame : Context)
    (system : StackSystem) (isMachine : system.isolation.machine = ⟨saved, .selecting, frame⟩) :
    ∃ operations last frame', Run StackStep system operations last ∧
      last.isolation.machine = ⟨chosen, .dispatched, frame'⟩ ∧
      last.executing = system.executing := by
  have select : ∀ (kernel : Kernel) (system : StackSystem),
      system.isolation.machine = ⟨kernel, .selecting, frame⟩ →
        ∃ middle, StackStep system (.scheduling .tickSelect) middle ∧
          middle.isolation.machine = ⟨kernel.tickSelect.2, kernel.tickSelect.1, frame⟩ ∧
          middle.executing = system.executing := by
    intro kernel system isMachine
    have step : SchedulingStep system.isolation.machine .tickSelect
        ⟨kernel.tickSelect.2, kernel.tickSelect.1, frame⟩ := by
      rw [isMachine]
      exact .tickSelect
    exact ⟨⟨_, system.executing⟩, ⟨trivial, .scheduling step, rfl⟩, rfl, rfl⟩
  have consider : ∀ (kernel after : Kernel) (other fuel : ℕ) (phase : TickPhase)
      (system : StackSystem), system.isolation.machine = ⟨kernel, .considering other, frame⟩ →
        kernel.tickConsider fuel other = some (phase, after) →
          ∃ middle, StackStep system (.scheduling .tickConsider) middle ∧
            middle.isolation.machine =
              ⟨after, phase, after.dispatchedFrame frame phase other⟩ ∧
            middle.executing = system.executing := by
    intro kernel after other fuel phase system isMachine considers
    have step : SchedulingStep system.isolation.machine .tickConsider
        ⟨after, phase, after.dispatchedFrame frame phase other⟩ := by
      rw [isMachine]
      exact .tickConsider considers
    exact ⟨⟨_, system.executing⟩, ⟨trivial, .scheduling step, rfl⟩, rfl, rfl⟩
  induction dispatches generalizing system with
  | last selects considers =>
      rcases select _ system isMachine with ⟨selected, first, isSelected, executing⟩
      rw [selects] at isSelected
      rcases consider _ _ _ _ _ selected isSelected considers with
        ⟨last, second, isLast, executingLast⟩
      exact ⟨_, last, _, .cons first (.cons second (.nil last)), isLast,
        executingLast.trans executing⟩
  | drop selects rest ih =>
      rcases select _ system isMachine with ⟨selected, first, isSelected, executing⟩
      rw [selects] at isSelected
      rcases ih selected isSelected with ⟨operations, last, frame', run, isLast, executingLast⟩
      exact ⟨_, last, frame', .cons first run, isLast, executingLast.trans executing⟩
  | again selects considers rest ih =>
      rcases select _ system isMachine with ⟨selected, first, isSelected, executing⟩
      rw [selects] at isSelected
      rcases consider _ _ _ _ _ selected isSelected considers with
        ⟨middle, second, isMiddle, executingMiddle⟩
      rcases ih middle isMiddle with ⟨operations, last, frame', run, isLast, executingLast⟩
      exact ⟨_, last, frame', .cons first (.cons second run), isLast,
        executingLast.trans (executingMiddle.trans executing)⟩

/-- A whole tick leaves the processor on the stack of the thread that it has dispatched. -/
theorem run_tick {system : StackSystem} {frame context : Context}
    {before saved taken chosen : Kernel}
    {after : Kernel} {fuel cleanFuel next : ℕ}
    (isMachine : system.isolation.machine = ⟨before, .idle, frame⟩)
    (saves : before.tickPrologue fuel context = some saved)
    (dispatches : saved.Dispatches taken next chosen)
    (cleans : chosen.cleanUp cleanFuel = some after) (current : after.currentThread = some next) :
    ∃ operations last frame', Run StackStep system operations last ∧
      last.isolation.machine = ⟨after, .idle, frame'⟩ ∧ last.executing = next := by
  have step : SchedulingStep system.isolation.machine (.tick context)
      ⟨saved, .selecting, context⟩ := by
    rw [isMachine]
    exact .tick saves
  have first : ∃ second, StackStep system (.scheduling (.tick context)) second ∧
      second.isolation.machine = ⟨saved, .selecting, context⟩ :=
    ⟨⟨_, system.executing⟩, ⟨trivial, .scheduling step, rfl⟩, rfl⟩
  rcases first with ⟨second, first, isSecond⟩
  rcases run_dispatches dispatches context second isSecond with
    ⟨operations, last, frame', run, isLast, _⟩
  have final : SchedulingStep last.isolation.machine .tickCleanUp ⟨after, .idle, frame'⟩ := by
    rw [isLast]
    exact .tickCleanUp cleans
  have isNext : after.currentThread.getD last.executing = next := by
    rw [current]
    rfl
  have ends : ∃ ended, StackStep last (.scheduling .tickCleanUp) ended ∧
      ended.isolation.machine = ⟨after, .idle, frame'⟩ ∧ ended.executing = next :=
    ⟨⟨_, next⟩, ⟨trivial, .scheduling final, isNext.symm⟩, rfl, rfl⟩
  rcases ends with ⟨ended, ends, isEnded, executing⟩
  exact ⟨_, ended, frame', (Run.cons first run).snoc ends, isEnded, executing⟩

end StackSystem

namespace Kernel

/-- A tick of a kernel with few threads up to `clean_up`. -/
def tickTo (kernel : Kernel) : Option (TickPhase × Kernel) :=
  (kernel.tickPrologue 8 {}).bind (fun saved =>
    (Account.loop 8 (Account.opened saved) .selecting).map (fun answer =>
      (answer.1, answer.2.kernel)))

/-- The kernel when a tick comes to `clean_up`. -/
def tickChosen (kernel : Kernel) : Kernel := (kernel.tickTo.getD (.idle, kernel)).2

/-- The kernel after a tick. -/
def ticked (kernel : Kernel) : Kernel := (kernel.tickChosen.cleanUp 8).getD kernel

theorem tickTo_spec {kernel : Kernel} (dispatches : kernel.tickTo.map Prod.fst = some .dispatched) :
    ∃ saved taken next, kernel.tickPrologue 8 {} = some saved ∧
      saved.Dispatches taken next kernel.tickChosen := by
  rcases Option.map_eq_some_iff.mp dispatches with ⟨⟨phase, chosen⟩, ticks, rfl⟩
  have isChosen : kernel.tickChosen = chosen := by
    simp only [tickChosen, ticks, Option.getD_some]
  rcases Option.bind_eq_some_iff.mp ticks with ⟨saved, saves, loops⟩
  rcases Option.map_eq_some_iff.mp loops with ⟨⟨last, account⟩, ends, equation⟩
  simp only [Prod.mk.injEq] at equation
  rcases equation with ⟨rfl, rfl⟩
  rcases dispatches_of_loop ends with ⟨taken, next, turns⟩
  exact ⟨saved, taken, next, saves, isChosen ▸ turns⟩

theorem Dispatches.current {saved taken chosen : Kernel} {next : ℕ}
    (dispatches : saved.Dispatches taken next chosen) : chosen.currentThread = some next := by
  rcases dispatches.final with ⟨_, fuel, considers⟩
  rw [(tickConsider_dispatched considers).2.2.2.2]
  rfl

end Kernel

namespace StackSystem

/-- The first tick dispatches the idle thread and the second one the thread created before. -/
def secondTick : Kernel := (startedKernel.withThread 0x1200).ticked.ticked

/-- The thread has exited. -/
def exitedKernel : Kernel := (secondTick.threadExit 8).getD secondTick

theorem startedKernel_entries : ∀ slot < maxThreads, ∀ t ∈ startedKernel.threadTable slot,
    t = 0x1000 ∨ t = 0x1100 := by
  decide +kernel

theorem startedKernel_apart : startedKernel.Apart where
  own t other listed otherListed := by
    have pairs : ∀ t ∈ [0x1000, 0x1100], ∀ other ∈ [0x1000, 0x1100],
        ∀ call ∈ startedKernel.kfreesOf t, call ∈ startedKernel.kfreesOf other → t = other := by
      decide +kernel
    rcases listed with ⟨slot, bound, isEntry⟩
    rcases otherListed with ⟨otherSlot, otherBound, isOther⟩
    exact pairs t (by simpa using startedKernel_entries slot bound t isEntry) other
      (by simpa using startedKernel_entries otherSlot otherBound other isOther)
  nonzero t listed := by
    rcases listed with ⟨slot, bound, isEntry⟩
    rcases startedKernel_entries slot bound t isEntry with rfl | rfl <;> decide
  kernelStacks t listed := by
    have privileges : ∀ t ∈ [0x1000, 0x1100], ¬startedKernel.Stackless t := by decide +kernel
    rcases listed with ⟨slot, bound, isEntry⟩
    exact privileges t (by simpa using startedKernel_entries slot bound t isEntry)

theorem startedMachine_apart : startedMachine.kernel.Apart := by
  simpa only [startedMachine] using startedKernel_apart

/-- The kernel starts, a thread is created, and a tick dispatches the idle thread. -/
theorem run_firstTick :
    ∃ operations system frame, Run StackStep (start startedMachine) operations system ∧
    system.isolation.machine = ⟨(startedKernel.withThread 0x1200).ticked, .idle, frame⟩ ∧
    system.executing = 0x1100 := by
  have creates : startedKernel.threadCreate kernelThreadRequest (threadMemoryAt 0x1200) =
      some (some 0x1200, startedKernel.withThread 0x1200) :=
    Kernel.withThread_eq (by decide +kernel)
  have blocks : ∀ t ∈ [0x1000, 0x1100], ∀ call ∈ startedKernel.kfreesOf t,
      call ∉ (kernelThreadRequest.thread (threadMemoryAt 0x1200)
        startedKernel.nextTid).kfreeStacks ++
        [.kfree 0x1200] := by
    decide +kernel
  have ticks : (startedKernel.withThread 0x1200).tickTo.map Prod.fst = some .dispatched := by
    decide +kernel
  have cleans : ((startedKernel.withThread 0x1200).tickChosen.cleanUp 8).isSome := by
    decide +kernel
  have chosen : (startedKernel.withThread 0x1200).tickChosen.currentThread = some 0x1100 := by
    decide +kernel
  have current : (startedKernel.withThread 0x1200).ticked.currentThread = some 0x1100 := by
    decide +kernel
  have isStarted : (start startedMachine).isolation.machine = ⟨startedKernel, .idle, {}⟩ := by
    simp only [start, Isolation.start, startedMachine]
  have apart : ∀ t, startedKernel.Listed t → ∀ call ∈ startedKernel.kfreesOf t,
      call ∉ (kernelThreadRequest.thread (threadMemoryAt 0x1200)
        startedKernel.nextTid).kfreeStacks ++
        [.kfree 0x1200] := by
    rintro t ⟨slot, bound, isEntry⟩
    exact blocks t (by simpa using startedKernel_entries slot bound t isEntry)
  rcases run_threadCreate isStarted (by decide +kernel) apart creates with
    ⟨second, creation, isSecond⟩
  rcases Kernel.tickTo_spec ticks with ⟨saved, taken, next, saves, dispatches⟩
  rcases Option.some.inj (dispatches.current.symm.trans chosen)
  rcases Option.isSome_iff_exists.mp cleans with ⟨cleaned, isCleaned⟩
  have isTicked : (startedKernel.withThread 0x1200).ticked = cleaned := by
    rw [Kernel.ticked, isCleaned]
    rfl
  rw [isTicked] at current ⊢
  rcases run_tick isSecond saves dispatches isCleaned current with
    ⟨operations, last, frame, run, isLast, executing⟩
  exact ⟨_, last, frame, .cons creation run, isLast, executing⟩

/-- A thread that exits is running on its stack when the tick that it raises frees it. -/
theorem exit_frees_running_stack :
    startedMachine.Booted ∧ startedMachine.kernel.Apart ∧ ∃ operations state,
      Run StackStep (start startedMachine) operations state ∧
        state.isolation.machine.phase = .idle ∧ state.executing = 0x1200 ∧
        (state.kernel.threads 0x1200).privilege = .ring0 ∧ state.stack = 0x11200 ∧
        ∃ saved taken next chosen cleaned calls,
          state.kernel.tickPrologue 8 {} = some saved ∧ saved.Dispatches taken next chosen ∧
          chosen.cleanUpLogged 8 = some (cleaned, calls) ∧ .kfree state.stack ∈ calls := by
  have ticks : (startedKernel.withThread 0x1200).ticked.tickTo.map Prod.fst = some .dispatched := by
    decide +kernel
  have cleans : ((startedKernel.withThread 0x1200).ticked.tickChosen.cleanUp 8).isSome := by
    decide +kernel
  have chosen : (startedKernel.withThread 0x1200).ticked.tickChosen.currentThread =
      some 0x1200 := by
    decide +kernel
  have current : secondTick.currentThread = some 0x1200 := by decide +kernel
  have exits : (secondTick.threadExit 8).isSome := by decide +kernel
  have exitTicks : exitedKernel.tickTo.map Prod.fst = some .dispatched := by decide +kernel
  have frees : (exitedKernel.tickChosen.cleanUpLogged 8).map Prod.snd =
      some [.kfree 0x11200, .kfree 0x1200] := by
    decide +kernel
  have record : (exitedKernel.threads 0x1200).stackBase = 0x11200 ∧
      (exitedKernel.threads 0x1200).privilege = .ring0 := by
    decide +kernel
  rcases run_firstTick with ⟨operations, second, frame, run, isSecond, _⟩
  rcases Kernel.tickTo_spec ticks with ⟨saved, taken, next, saves, dispatches⟩
  rcases Option.some.inj (dispatches.current.symm.trans chosen)
  rcases Option.isSome_iff_exists.mp cleans with ⟨cleaned, isCleaned⟩
  have isTicked : secondTick = cleaned := by
    rw [secondTick, Kernel.ticked, isCleaned]
    rfl
  rcases run_tick isSecond saves dispatches isCleaned (isTicked ▸ current) with
    ⟨more, third, thirdFrame, moreRun, isThird, executing⟩
  rcases Option.isSome_iff_exists.mp exits with ⟨exited, isExited⟩
  have isExitedKernel : exitedKernel = exited := by
    rw [exitedKernel, isExited]
    rfl
  have thirdKernel : third.isolation.machine.kernel = secondTick := by
    rw [isThird, isTicked]
  have exitRuns : third.isolation.machine.kernel.threadExit 8 = some exitedKernel := by
    rw [thirdKernel, isExited, isExitedKernel]
  have idle : third.isolation.machine.phase = .idle := by
    rw [isThird]
  rcases run_threadExit idle exitRuns with ⟨fourth, exit, fourthKernel, fourthIdle, fourthExecuting⟩
  rw [executing] at fourthExecuting
  have stack : fourth.stack = 0x11200 := by
    rw [StackSystem.stack, fourthKernel, fourthExecuting, record.1]
  rcases Kernel.tickTo_spec exitTicks with ⟨exitSaved, exitTaken, exitNext, exitSaves, exitTurns⟩
  rcases Option.map_eq_some_iff.mp frees with ⟨⟨last, calls⟩, exitCleans, isCalls⟩
  refine ⟨startedMachine_booted, startedMachine_apart, _, fourth, (run.trans moreRun).snoc exit,
    fourthIdle, fourthExecuting, ?_, stack, exitSaved, exitTaken, exitNext, _, last, calls, ?_,
    exitTurns, exitCleans, ?_⟩
  · rw [fourthKernel, record.2]
  · rw [fourthKernel, exitSaves]
  · rw [stack]
    simp only at isCalls
    rw [isCalls]
    exact List.mem_cons_self

/-- The tick that interrupts the idle thread leaves its stack allocated. -/
theorem tick_keeps_stack_iff_idle : ∃ (state : StackSystem) (chosen cleaned : Kernel)
    (calls : List HeapCall), state.executing = 0x1100 ∧ chosen.cleanUpLogged 8 =
    some (cleaned, calls) ∧
      .kfree state.stack ∉ calls := by
  rcases run_firstTick with ⟨operations, second, frame, run, isSecond, executing⟩
  have ticks : (startedKernel.withThread 0x1200).ticked.tickTo.map Prod.fst = some .dispatched := by
    decide +kernel
  have cleans : ((startedKernel.withThread 0x1200).ticked.tickChosen.cleanUpLogged 8).isSome := by
    decide +kernel
  have listed : (startedKernel.withThread 0x1200).ticked.threadTable 1 = some 0x1100 := by
    decide +kernel
  have alive : ((startedKernel.withThread 0x1200).ticked.threads 0x1100).state ≠ .termed := by
    decide +kernel
  have isKernel : second.kernel = (startedKernel.withThread 0x1200).ticked := by
    rw [StackSystem.kernel, isSecond]
  rw [← isKernel] at ticks cleans listed alive
  rcases Kernel.tickTo_spec ticks with ⟨saved, taken, next, saves, dispatches⟩
  rcases Option.isSome_iff_exists.mp cleans with ⟨⟨cleaned, calls⟩, isCleaned⟩
  have keeps := tick_keeps_stack_iff startedMachine_booted startedMachine_apart run saves dispatches
    isCleaned
  rw [executing] at keeps
  exact ⟨second, _, cleaned, calls, executing, isCleaned,
    (keeps.2 ⟨1, by decide, listed⟩).mpr (fun dead => absurd dead alive)⟩

end StackSystem

end Goshkik

import Goshkik.Scheduling.Account
import Goshkik.Scheduling.TickLock

/-!
# Which thread a tick dispatches

`Dispatches` follows the loop of `scheduler_tick` from turn to turn up to the one that
dispatches a thread.  Only the state of user threads without a kernel stack changes on the
way, so the thread that the loop falls back on when the queue is empty is settled before
the first turn.  The loop drops the threads of zombie processes from the queue, but it does
not look at the process of the thread that it falls back on.
-/

namespace Goshkik

namespace Kernel

/-- From a kernel the loop of `scheduler_tick` comes to a turn that begins in `taken` and
dispatches `t`. -/
inductive Dispatches : Kernel → Kernel → ℕ → Kernel → Prop where
  | last {taken after : Kernel} {t fuel : ℕ} (selects : taken.tickSelect.1 = .considering t)
      (considers : taken.tickSelect.2.tickConsider fuel t = some (.dispatched, after)) :
      Dispatches taken taken t after
  | drop {kernel taken after : Kernel} {t : ℕ} (selects : kernel.tickSelect.1 = .selecting)
      (rest : Dispatches kernel.tickSelect.2 taken t after) : Dispatches kernel taken t after
  | again {kernel middle taken after : Kernel} {t other fuel : ℕ}
      (selects : kernel.tickSelect.1 = .considering other)
      (considers : kernel.tickSelect.2.tickConsider fuel other = some (.selecting, middle))
      (rest : Dispatches middle taken t after) : Dispatches kernel taken t after

/-- The thread is ready once the prologue of a tick has put the current thread back. -/
def awake (kernel : Kernel) (t : ℕ) : Bool :=
  (kernel.threads t).state = .ready ||
    (kernel.currentThread = some t && (kernel.threads t).state = .running)

instance (kernel : Kernel) (t : ℕ) : Decidable (kernel.Stackless t) :=
  inferInstanceAs (Decidable (_ ∧ _))

/-- The thread that a tick falls back on: the first ready thread of the table that it does not
terminate, else the kernel thread. -/
def lastResort (kernel : Kernel) : Option ℕ :=
  match (List.range' 1 (maxThreads - 1)).findSome? (fun i =>
      (kernel.threadTable i).filter (fun t => kernel.awake t && !decide (kernel.Stackless t))) with
  | some t => some t
  | none => kernel.threadTable 0

/-- What the turns of the loop leave alone. -/
structure Turned (before after : Kernel) : Prop where
  state : ∀ t, (after.threads t).state = (before.threads t).state ∨
    before.Stackless t ∧ (after.threads t).state = .termed
  stackless : ∀ t, after.Stackless t ↔ before.Stackless t
  zombie : ∀ t, after.ownedByZombie t = before.ownedByZombie t
  table : after.threadTable = before.threadTable
  currentThread : after.currentThread = before.currentThread

variable {kernel middle after saved taken : Kernel} {queue rest : List ℕ} {t other fuel : ℕ}

namespace Turned

theorem trans (first : Turned kernel middle) (second : Turned middle after) :
    Turned kernel after where
  state t := by
    rcases second.state t with same | ⟨stackless, termed⟩
    · rw [same]
      exact first.state t
    · exact .inr ⟨(first.stackless t).mp stackless, termed⟩
  stackless t := (second.stackless t).trans (first.stackless t)
  zombie t := (second.zombie t).trans (first.zombie t)
  table := second.table.trans first.table
  currentThread := second.currentThread.trans first.currentThread

theorem of_sameChoices (same : SameChoices kernel after)
    (currentThread : after.currentThread = kernel.currentThread) : Turned kernel after :=
  ⟨fun t => .inl (same.state t), same.stackless, same.zombie, same.table, currentThread⟩

theorem of_relinked (relinked : Relinked kernel after) : Turned kernel after :=
  of_sameChoices relinked.sameChoices relinked.currentThread

theorem refl (kernel : Kernel) : Turned kernel kernel := of_relinked (.refl kernel)

theorem discard (stackless : kernel.Stackless t) : Turned kernel (kernel.discard t) where
  state other := by
    by_cases same : other = t
    · subst same
      exact .inr ⟨stackless, discard_state⟩
    · rw [discard_threads_ne same]
      exact .inl rfl
  stackless := discard_stackless
  zombie := discard_zombie
  table := rfl
  currentThread := rfl

theorem tickSelect (kernel : Kernel) : Turned kernel kernel.tickSelect.2 := by
  simp only [Kernel.tickSelect]
  split
  · exact of_relinked (.dequeueReadyHead kernel _)
  · split <;> exact refl kernel

/-- A turn that goes on to the next one. -/
theorem tickConsider (considers : kernel.tickConsider fuel t = some (.selecting, after)) :
    Turned kernel after := by
  simp only [Kernel.tickConsider] at considers
  split at considers
  · rcases Option.map_eq_some_iff.mp considers with ⟨removed, removes, equation⟩
    cases equation
    exact of_relinked (.removeFromReadyQueue removes)
  · split at considers
    · rcases Option.map_eq_some_iff.mp considers with ⟨queued, queues, equation⟩
      cases equation
      have cooled : Turned kernel (kernel.cool t) := of_sameChoices (.cool t) rfl
      exact cooled.trans (of_relinked (.enqueueReadyTail queues))
    · split at considers
      · rename_i stackless
        cases considers
        exact discard stackless
      · cases considers

/-- The loop does not change which threads are ready and can be dispatched. -/
theorem usable (turned : Turned kernel after) (t : ℕ) :
    (after.awake t && !decide (after.Stackless t)) =
      (kernel.awake t && !decide (kernel.Stackless t)) := by
  by_cases stackless : kernel.Stackless t
  · simp [stackless, turned.stackless]
  · have same : (after.threads t).state = (kernel.threads t).state := by
      rcases turned.state t with same | termed
      · exact same
      · exact absurd termed.1 stackless
    simp only [awake, same, turned.currentThread, turned.stackless]

theorem lastResort (turned : Turned kernel after) : after.lastResort = kernel.lastResort := by
  simp only [Kernel.lastResort, turned.usable, turned.table]

end Turned

theorem Dispatches.turned (dispatches : kernel.Dispatches taken t after) : Turned kernel taken := by
  induction dispatches with
  | last => exact .refl _
  | drop selects rest ih => exact (Turned.tickSelect _).trans ih
  | again selects considers rest ih =>
      exact ((Turned.tickSelect _).trans (.tickConsider considers)).trans ih

theorem Dispatches.final (dispatches : kernel.Dispatches taken t after) :
    taken.tickSelect.1 = .considering t ∧
      ∃ fuel, taken.tickSelect.2.tickConsider fuel t = some (.dispatched, after) := by
  induction dispatches with
  | last selects considers => exact ⟨selects, _, considers⟩
  | drop selects rest ih => exact ih
  | again selects considers rest ih => exact ih

/-- The last turn of a tick finds its thread alive and with the stack that it needs. -/
theorem tickConsider_dispatched (considers : kernel.tickConsider fuel t =
    some (.dispatched, after)) :
    (kernel.threads t).state ≠ .blocked ∧ (kernel.threads t).state ≠ .termed ∧
      ¬0 < (kernel.threads t).cooldown ∧ ¬kernel.Stackless t ∧ after = kernel.dispatch t := by
  simp only [tickConsider] at considers
  split at considers
  · rcases Option.map_eq_some_iff.mp considers with ⟨removed, removes, equation⟩
    cases equation
  · rename_i awake
    rw [not_or] at awake
    split at considers
    · rcases Option.map_eq_some_iff.mp considers with ⟨queued, queues, equation⟩
      cases equation
    · rename_i cooled
      split at considers
      · cases considers
      · rename_i stack
        cases considers
        exact ⟨awake.1, awake.2, cooled, stack, rfl⟩

/-! ## The loop as it is computed -/

theorem removeFromReadyQueue_mono {more : ℕ} {target : Option ℕ} (enough : fuel ≤ more)
    (removes : kernel.removeFromReadyQueue fuel target = some after) :
    kernel.removeFromReadyQueue more target = some after := by
  cases target with
  | none => exact removes
  | some t =>
      simp only [removeFromReadyQueue] at removes ⊢
      cases scanned : scan kernel.nextOf (· == t) fuel none kernel.readyHead with
      | none => simp [scanned] at removes
      | some answer =>
          rw [scanned] at removes
          rw [scan_mono scanned enough]
          exact removes

theorem tickConsider_mono {more : ℕ} {answer : TickPhase × Kernel} (enough : fuel ≤ more)
    (considers : kernel.tickConsider fuel t = some answer) :
    kernel.tickConsider more t = some answer := by
  simp only [tickConsider] at considers ⊢
  split at considers
  · rename_i dead
    rcases Option.map_eq_some_iff.mp considers with ⟨removed, removes, equation⟩
    rw [if_pos dead, removeFromReadyQueue_mono enough removes]
    exact congrArg some equation
  · rename_i awake
    rw [if_neg awake]
    exact considers

/-- A turn goes on or dispatches. -/
theorem tickConsider_phase {phase : TickPhase}
    (considers : kernel.tickConsider fuel t = some (phase, after)) :
    phase = .selecting ∨ phase = .dispatched := by
  simp only [tickConsider] at considers
  split at considers
  · rcases Option.map_eq_some_iff.mp considers with ⟨removed, removes, equation⟩
    cases equation
    exact .inl rfl
  · split at considers
    · rcases Option.map_eq_some_iff.mp considers with ⟨queued, queues, equation⟩
      cases equation
      exact .inl rfl
    · split at considers
      · cases considers
        exact .inl rfl
      · cases considers
        exact .inr rfl

/-- The loop as a function ends with the dispatch that its turns lead to. -/
theorem Dispatches.loop (dispatches : kernel.Dispatches taken t after) (account : Account)
    (isKernel : account.kernel = kernel) :
    ∃ (chosen : Account) (least : ℕ), chosen.kernel = after ∧
      ∀ fuel, least ≤ fuel → Account.loop fuel account .selecting = some (.dispatched, chosen) := by
  induction dispatches generalizing account with
  | @last taken after t turns selects considers =>
      subst isKernel
      refine ⟨{ account.select.2 with
        kernel := after
        frame := after.dispatchedFrame account.select.2.frame .dispatched t
        dispatched := Account.countUp account.select.2.dispatched t }, turns + 3, rfl,
        fun fuel enough => ?_⟩
      rcases Nat.exists_eq_add_of_le' enough with ⟨more, rfl⟩
      have same := tickConsider_mono (by omega : turns ≤ more + turns + 1) considers
      have phase : account.select.1 = .considering t := selects
      rw [show more + (turns + 3) = more + turns + 1 + 1 + 1 by omega, Account.loop, phase,
        Account.loop, Account.consider,
        show account.select.2.kernel = account.kernel.tickSelect.2 from rfl, same]
      rfl
  | @drop kernel taken after t selects rest ih =>
      subst isKernel
      rcases ih account.select.2 rfl with ⟨chosen, least, isChosen, loops⟩
      refine ⟨chosen, least + 1, isChosen, fun fuel enough => ?_⟩
      rcases Nat.exists_eq_add_of_le' enough with ⟨more, rfl⟩
      have phase : account.select.1 = .selecting := selects
      rw [← Nat.add_assoc, Account.loop, phase]
      exact loops _ (by omega)
  | @again kernel middle taken after t other turns selects considers rest ih =>
      subst isKernel
      rcases ih { account.select.2 with kernel := middle } rfl with ⟨chosen, least, isChosen, loops⟩
      refine ⟨chosen, least + turns + 2, isChosen, fun fuel enough => ?_⟩
      rcases Nat.exists_eq_add_of_le' enough with ⟨more, rfl⟩
      have phase : account.select.1 = .considering other := selects
      have same := tickConsider_mono (Nat.le_add_left turns (more + least)) considers
      rw [show more + (least + turns + 2) = more + least + turns + 1 + 1 by omega, Account.loop,
        phase, Account.loop, Account.consider,
        show account.select.2.kernel = account.kernel.tickSelect.2 from rfl, same]
      exact loops _ (by omega)

/-- Where the loop as a function ends with a dispatch its turns lead to one. -/
theorem dispatches_of_loop {account chosen : Account}
    (loops : Account.loop fuel account .selecting = some (.dispatched, chosen)) :
    ∃ taken t, account.kernel.Dispatches taken t chosen.kernel := by
  induction fuel using Nat.strong_induction_on generalizing account with
  | _ fuel ih =>
      cases fuel with
      | zero => cases loops
      | succ fuel =>
          rw [Account.loop] at loops
          cases phase : account.select.1 with
          | idle =>
              rw [phase] at loops
              cases fuel with
              | zero => cases loops
              | succ fuel => simp [Account.loop] at loops
          | dispatched =>
              have selects : account.kernel.tickSelect.1 = .dispatched := phase
              simp only [tickSelect] at selects
              split at selects
              · split at selects <;> cases selects
              · split at selects <;> cases selects
          | selecting =>
              rw [phase] at loops
              rcases ih fuel (Nat.lt_succ_self _) loops with ⟨taken, t, dispatches⟩
              exact ⟨taken, t, .drop phase dispatches⟩
          | considering other =>
              rw [phase] at loops
              cases fuel with
              | zero => cases loops
              | succ fuel =>
                  rw [Account.loop] at loops
                  rcases Option.bind_eq_some_iff.mp loops with ⟨answer, considers, rest⟩
                  rcases Option.map_eq_some_iff.mp considers with ⟨⟨reached, kernel⟩, turns, rfl⟩
                  rcases tickConsider_phase turns with rfl | rfl
                  · rcases ih fuel (by omega) rest with ⟨taken, t, dispatches⟩
                    exact ⟨taken, t, .again phase turns dispatches⟩
                  · cases fuel with
                    | zero => cases rest
                    | succ fuel =>
                        simp only [Account.loop, Option.some.injEq, Prod.mk.injEq, true_and] at rest
                        subst rest
                        exact ⟨_, other, .last phase turns⟩

/-- What the loop takes from a queue that is not empty. -/
theorem tickSelect_head {head : ℕ} (isHead : kernel.readyHead = some head) :
    kernel.tickSelect = (if kernel.ownedByZombie head then .selecting else .considering head,
      kernel.dequeueReadyHead head) := by
  simp only [tickSelect, isHead]

/-- What the loop takes if the queue is empty. -/
theorem tickSelect_empty (empty : kernel.readyHead = none)
    (selects : kernel.tickSelect.1 = .considering t) :
    kernel.tableChoice = some t ∧ kernel.tickSelect.2 = kernel := by
  simp only [tickSelect, empty] at selects ⊢
  cases choice : kernel.tableChoice with
  | none => simp [choice] at selects
  | some chosen =>
      simp only [choice, TickPhase.considering.injEq] at selects ⊢
      exact ⟨by rw [selects], trivial⟩

/-- The first entry that passes one test also is the first that passes a stricter one, if it
does pass it. -/
theorem findSome?_filter_stricter {table : ℕ → Option ℕ} {test stricter : ℕ → Bool}
    (implies : ∀ t, stricter t = true → test t = true) {slots : List ℕ}
    (found : slots.findSome? (fun i => (table i).filter test) = some t)
    (passes : stricter t = true) :
    slots.findSome? (fun i => (table i).filter stricter) = some t := by
  induction slots with
  | nil => cases found
  | cons slot slots ih =>
      rw [List.findSome?_cons] at found ⊢
      cases isEntry : (table slot).filter test with
      | some entry =>
          simp only [isEntry, Option.some.injEq] at found
          subst found
          have listed := (Option.filter_eq_some_iff.mp isEntry).1
          simp only [listed, Option.filter_some, passes, if_true]
      | none =>
          have skipped : (table slot).filter stricter = none := by
            rw [Option.filter_eq_none_iff] at isEntry ⊢
            intro t listed holds
            exact isEntry t listed (implies t holds)
          simp only [isEntry] at found
          simp only [skipped]
          exact ih found

/-- While no thread is running, a thread that the table gives is the one that the tick falls
back on, unless the tick terminates it. -/
theorem tableChoice_lastResort (idle : ∀ t, kernel.awake t = true →
    (kernel.threads t).state = .ready)
    (choice : kernel.tableChoice = some t) (stack : ¬kernel.Stackless t) :
    kernel.lastResort = some t := by
  have implies : ∀ t, (kernel.awake t && !decide (kernel.Stackless t)) = true →
      decide ((kernel.threads t).state = .ready) = true := by
    intro t usable
    rw [Bool.and_eq_true] at usable
    simpa using idle t usable.1
  simp only [tableChoice] at choice
  split at choice
  · rename_i first found
    cases choice
    have ready : (kernel.threads t).state = .ready := by
      rcases List.exists_of_findSome?_eq_some found with ⟨slot, _, isEntry⟩
      simpa using (Option.filter_eq_some_iff.mp isEntry).2
    have passes : (kernel.awake t && !decide (kernel.Stackless t)) = true := by
      simp [awake, ready, stack]
    simp only [lastResort, findSome?_filter_stricter implies found passes]
  · rename_i missing
    have nobody : (List.range' 1 (maxThreads - 1)).findSome? (fun i =>
        (kernel.threadTable i).filter (fun t =>
          kernel.awake t && !decide (kernel.Stackless t))) = none := by
      rw [List.findSome?_eq_none_iff] at missing ⊢
      intro slot mem
      have skipped := missing slot mem
      rw [Option.filter_eq_none_iff] at skipped ⊢
      intro t listed usable
      exact skipped t listed (implies t usable)
    simp only [lastResort, nobody]
    exact (Option.filter_eq_some_iff.mp choice).1

/-! ## The prologue -/

/-- What the prologue of a tick does to the threads. -/
structure Prepared (before after : Kernel) : Prop where
  state : ∀ t, (after.threads t).state =
    if before.awake t then .ready else (before.threads t).state
  stackless : ∀ t, after.Stackless t ↔ before.Stackless t
  zombie : ∀ t, after.ownedByZombie t = before.ownedByZombie t
  cooldown : ∀ t, (after.threads t).cooldown = (before.threads t).cooldown
  table : after.threadTable = before.threadTable
  idle : ∀ t, after.awake t = true → (after.threads t).state = .ready

theorem awake_of_other (different : kernel.currentThread ≠ some t) :
    kernel.awake t = decide ((kernel.threads t).state = .ready) := by
  simp [awake, different]

theorem Prepared.relinked (prepared : Prepared kernel middle) (relinked : Relinked middle after) :
    Prepared kernel after where
  state t := (relinked.state t).trans (prepared.state t)
  stackless t := (relinked.sameChoices.stackless t).trans (prepared.stackless t)
  zombie t := (relinked.ownedByZombie t).trans (prepared.zombie t)
  cooldown t := (relinked.cooldown t).trans (prepared.cooldown t)
  table := relinked.threadTable.trans prepared.table
  idle t := by
    simp only [awake, relinked.state, relinked.currentThread]
    exact prepared.idle t

/-- Saving the frame of the current thread and marking it as ready. -/
theorem prepared_interrupt {old : ℕ} (current : kernel.currentThread = some old)
    (isAwake : kernel.awake old = true) (context : Context) :
    Prepared kernel ((kernel.modifyThread old (fun record =>
      { record with context := context })).setState old .ready) := by
  have other : ∀ t, t ≠ old → ((kernel.modifyThread old (fun record =>
      { record with context := context })).setState old .ready).threads t = kernel.threads t := by
    intro t different
    rw [setState, modifyThread_threads_ne _ _ _ different, modifyThread_threads_ne _ _ _ different]
  have states : ∀ t, (((kernel.modifyThread old (fun record =>
      { record with context := context })).setState old .ready).threads t).state =
        if kernel.awake t then .ready else (kernel.threads t).state := by
    intro t
    by_cases same : t = old
    · subst same
      simp [setState, isAwake]
    · have different : kernel.currentThread ≠ some t := by
        rw [current]
        simpa using Ne.symm same
      rw [other t same, awake_of_other different]
      by_cases ready : (kernel.threads t).state = .ready
      · simp [ready]
      · simp [ready]
  refine ⟨states, ?_, ?_, ?_, rfl, ?_⟩
  · intro t
    by_cases same : t = old
    · subst same
      simp [Stackless, setState]
    · rw [Stackless, Stackless, other t same]
  · intro t
    by_cases same : t = old
    · subst same
      simp only [ownedByZombie, setState, modifyThread_threads_same]
      rfl
    · simp only [ownedByZombie, other t same]
      rfl
  · intro t
    by_cases same : t = old
    · subst same
      simp [setState]
    · rw [other t same]
  · intro t isAwakeAfter
    simp only [awake, Bool.or_eq_true, Bool.and_eq_true, decide_eq_true_eq] at isAwakeAfter
    rcases isAwakeAfter with ready | ⟨isCurrent, running⟩
    · exact ready
    · have same : old = t := by
        have isCurrent : kernel.currentThread = some t := isCurrent
        rw [current] at isCurrent
        exact Option.some.inj isCurrent
      rw [states t, ← same, if_pos isAwake] at running
      cases running

/-- Saving the frame of a current thread that does not go on. -/
theorem prepared_stop {old : ℕ} (current : kernel.currentThread = some old)
    (asleep : kernel.awake old = false) (context : Context) :
    Prepared kernel { kernel.modifyThread old (fun record =>
      { record with context := context }) with currentThread := none } := by
  have same : SameChoices kernel (kernel.modifyThread old (fun record =>
      { record with context := context })) :=
    .modifyThread rfl rfl rfl rfl
  refine ⟨?_, same.stackless, same.zombie, ?_, rfl, ?_⟩
  · intro t
    refine (same.state t).trans ?_
    by_cases isOld : t = old
    · subst isOld
      simp [asleep]
    · have different : kernel.currentThread ≠ some t := by
        rw [current]
        simpa using Ne.symm isOld
      rw [awake_of_other different]
      by_cases ready : (kernel.threads t).state = .ready
      · simp [ready]
      · simp [ready]
  · intro t
    by_cases isOld : t = old
    · subst isOld
      simp
    · change ((kernel.modifyThread old (fun record =>
        { record with context := context })).threads t).cooldown = (kernel.threads t).cooldown
      rw [modifyThread_threads_ne _ _ _ isOld]
  · intro t isAwake
    simpa [awake] using isAwake

theorem tickPrologue_prepared {context : Context}
    (saves : kernel.tickPrologue fuel context = some saved) : Prepared kernel saved := by
  simp only [tickPrologue] at saves
  split at saves
  · rename_i none
    cases saves
    have states : ∀ t, kernel.awake t = decide ((kernel.threads t).state = .ready) :=
      fun t => awake_of_other (by simp [none])
    refine ⟨?_, fun _ => Iff.rfl, fun _ => rfl, fun _ => rfl, rfl, ?_⟩
    · intro t
      by_cases ready : (kernel.threads t).state = .ready
      · simp [ready]
      · simp [states, ready]
    · intro t isAwake
      simpa [states] using isAwake
  · rename_i old current
    split at saves
    · rename_i running
      have isAwake : kernel.awake old = true := by simp [awake, current, running]
      exact (prepared_interrupt current isAwake context).relinked (.enqueueReadyTail saves)
    · rename_i ready
      have isAwake : kernel.awake old = true := by simp [awake, ready]
      exact (prepared_interrupt current isAwake context).relinked (.enqueueReadyTail saves)
    all_goals
      rename_i stopped
      have asleep : kernel.awake old = false := by simp [awake, stopped]
      rcases Option.map_eq_some_iff.mp saves with ⟨removed, removes, rfl⟩
      have relinked := Relinked.removeFromReadyQueue removes
      exact (prepared_stop current asleep context).relinked
        ⟨relinked.records, congrArg (fun kernel => { kernel with currentThread := none })
          relinked.rest⟩

theorem Prepared.lastResort (prepared : Prepared kernel saved) :
    saved.lastResort = kernel.lastResort := by
  have awake : ∀ t, saved.awake t = kernel.awake t := by
    intro t
    by_cases isAwake : kernel.awake t = true
    · have ready := prepared.state t
      rw [if_pos isAwake] at ready
      rw [isAwake]
      simp [Kernel.awake, ready]
    · have unready : (saved.threads t).state ≠ .ready := by
        rw [prepared.state t, if_neg isAwake]
        intro ready
        simp [Kernel.awake, ready] at isAwake
      rw [Bool.eq_iff_iff]
      exact ⟨fun isAwakeAfter => absurd (prepared.idle t isAwakeAfter) unready,
        fun isAwakeBefore => absurd isAwakeBefore isAwake⟩
  simp only [Kernel.lastResort, awake, prepared.stackless, prepared.table]

/-- A thread that is awake before the tick is neither blocked nor terminated. -/
theorem Prepared.alive (prepared : Prepared kernel saved)
    (unblocked : (saved.threads t).state ≠ .blocked) (alive : (saved.threads t).state ≠ .termed) :
    (kernel.threads t).state ≠ .blocked ∧ (kernel.threads t).state ≠ .termed := by
  have state := prepared.state t
  by_cases isAwake : kernel.awake t = true
  · simp only [awake, Bool.or_eq_true, Bool.and_eq_true, decide_eq_true_eq] at isAwake
    rcases isAwake with ready | ⟨_, running⟩
    · simp [ready]
    · simp [running]
  · rw [if_neg isAwake] at state
    rw [← state]
    exact ⟨unblocked, alive⟩

/-- The prologue puts the current thread behind the queue if it goes on. -/
theorem tickPrologue_requeues {context : Context} (isQueue : kernel.IsReadyQueue queue)
    (unqueued : ∀ old ∈ kernel.currentThread, old ∉ queue)
    (saves : kernel.tickPrologue fuel context = some saved) :
    saved.IsReadyQueue (queue ++ (kernel.currentThread.filter kernel.awake).toList) := by
  simp only [tickPrologue] at saves
  split at saves
  · rename_i none
    cases saves
    simpa [none] using isQueue
  · rename_i old current
    have absent := unqueued old current
    have interrupted : ((kernel.modifyThread old (fun record =>
        { record with context := context })).setState old .ready).IsReadyQueue queue := by
      unfold setState
      exact (isQueue.modifyThread rfl).modifyThread rfl
    have goesOn : kernel.awake old = true →
        ((kernel.modifyThread old (fun record =>
          { record with context := context })).setState old .ready).enqueueReadyTail old =
            some saved →
        saved.IsReadyQueue (queue ++ (kernel.currentThread.filter kernel.awake).toList) := by
      intro isAwake queues
      rcases interrupted.enqueueReadyTail absent with ⟨after, enqueues, isQueueAfter, _⟩
      rw [queues, Option.some.injEq] at enqueues
      rw [enqueues, current, Option.filter_some, if_pos isAwake]
      exact isQueueAfter
    split at saves
    · rename_i running
      exact goesOn (by simp [awake, current, running]) saves
    · rename_i ready
      exact goesOn (by simp [awake, ready]) saves
    all_goals
      rename_i stopped
      rcases Option.map_eq_some_iff.mp saves with ⟨removed, removes, rfl⟩
      have kept := (IsReadyQueue.removeFromReadyQueue (isQueue.modifyThread rfl) removes).1
      rw [List.erase_of_not_mem absent] at kept
      have asleep : kernel.awake old = false := by simp [awake, stopped]
      rw [current, Option.filter_some, if_neg (by simp [asleep]), Option.toList_none,
        List.append_nil]
      exact kept.congr rfl rfl (fun _ _ => rfl)

end Kernel

end Goshkik

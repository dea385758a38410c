import Goshkik.Lib.StrideWheel
import Goshkik.Scheduling.TickLoop

/-!
# Whole ticks of the scheduler and their counts

An account is a kernel with the frame of the interrupt and two counts for each thread:
how often it has been taken off the queue to be considered and how often it has been
dispatched.  `tick` is `scheduler_tick` on an account; the turns of its loop run on fuel,
and a tick that runs out of it has the answer `none`.
-/

namespace Goshkik

structure Account where
  kernel : Kernel
  frame : Context
  considered : ℕ → ℕ
  dispatched : ℕ → ℕ

namespace Account

variable (account : Account)

/-- Once more for a thread. -/
def countUp (count : ℕ → ℕ) (t : ℕ) : ℕ → ℕ := Function.update count t (count t + 1)

/-- An account of a kernel that has not ticked yet. -/
def opened (kernel : Kernel) : Account where
  kernel := kernel
  frame := {}
  considered := fun _ => 0
  dispatched := fun _ => 0

/-- Take one thread from the queue, or choose one from the table. -/
def select : TickPhase × Account :=
  (account.kernel.tickSelect.1,
    { account with
      kernel := account.kernel.tickSelect.2
      considered :=
        match account.kernel.readyHead, account.kernel.tickSelect.1 with
        | some _, .considering next => countUp account.considered next
        | _, _ => account.considered })

/-- What the loop does with the thread it has taken. -/
def consider (fuel next : ℕ) : Option (TickPhase × Account) :=
  (account.kernel.tickConsider fuel next).map (fun answer =>
    (answer.1,
      { account with
        kernel := answer.2
        frame := answer.2.dispatchedFrame account.frame answer.1 next
        dispatched :=
          if answer.1 = .dispatched then countUp account.dispatched next
          else account.dispatched }))

/-- The loop of `scheduler_tick`, which it leaves with a thread dispatched or with nothing to
run. -/
def loop : ℕ → Account → TickPhase → Option (TickPhase × Account)
  | 0, _, _ => none
  | _ + 1, account, .idle => some (.idle, account)
  | _ + 1, account, .dispatched => some (.dispatched, account)
  | fuel + 1, account, .selecting => loop fuel account.select.2 account.select.1
  | fuel + 1, account, .considering next =>
      (account.consider fuel next).bind (fun answer => loop fuel answer.2 answer.1)

/-- `scheduler_tick` on the frame of the interrupt. -/
def tick (fuel : ℕ) (context : Context) : Option Account :=
  (account.kernel.tickPrologue fuel context).bind (fun saved =>
    (loop fuel { account with kernel := saved, frame := context } .selecting).bind (fun answer =>
      if answer.1 = .dispatched then
        (answer.2.kernel.cleanUp fuel).map (fun cleaned => { answer.2 with kernel := cleaned })
      else some answer.2))

/-- The ticks of a list of interrupts, one after the other. -/
def ticks (fuel : ℕ) (contexts : List Context) : Option Account :=
  contexts.foldlM (fun reached context => reached.tick fuel context) account

/-- The machine that an account is about. -/
def machine (phase : TickPhase) : Machine := ⟨account.kernel, phase, account.frame⟩

open Transition

variable {account} {after : Account} {phase last : TickPhase} {fuel : ℕ}

/-- A turn of the loop that leaves it in neither end is a step. -/
theorem loop_run (returns : loop fuel account phase = some (last, after)) :
    (last = .idle ∨ last = .dispatched) ∧
      ∃ operations, Run SchedulingStep (account.machine phase) operations (after.machine last) := by
  induction fuel generalizing account phase with
  | zero => simp [loop] at returns
  | succ fuel ih =>
      cases phase with
      | idle =>
          simp only [loop, Option.some.injEq, Prod.mk.injEq] at returns
          rcases returns with ⟨rfl, rfl⟩
          exact ⟨.inl rfl, [], .nil _⟩
      | dispatched =>
          simp only [loop, Option.some.injEq, Prod.mk.injEq] at returns
          rcases returns with ⟨rfl, rfl⟩
          exact ⟨.inr rfl, [], .nil _⟩
      | selecting =>
          rcases ih returns with ⟨ends, operations, run⟩
          exact ⟨ends, .tickSelect :: operations, .cons .tickSelect run⟩
      | considering next =>
          rcases Option.bind_eq_some_iff.mp returns with ⟨answer, considers, rest⟩
          rcases Option.map_eq_some_iff.mp considers with ⟨⟨reached, kernel⟩, turns, rfl⟩
          rcases ih rest with ⟨ends, operations, run⟩
          exact ⟨ends, .tickConsider :: operations, .cons (.tickConsider turns) run⟩

/-- A tick is a run of the scheduling system from one idle machine to another. -/
theorem tick_run {context : Context} (returns : account.tick fuel context = some after) :
    ∃ operations, Run SchedulingStep (account.machine .idle) (.tick context :: operations)
      (after.machine .idle) := by
  rcases Option.bind_eq_some_iff.mp returns with ⟨saved, saves, rest⟩
  rcases Option.bind_eq_some_iff.mp rest with ⟨⟨last, chosen⟩, loops, ending⟩
  rcases loop_run loops with ⟨ends, operations, run⟩
  rcases ends with rfl | rfl
  · simp only [reduceCtorEq, if_false, Option.some.injEq] at ending
    exact ⟨operations, .cons (.tick saves) (ending ▸ run)⟩
  · simp only [if_true, Option.map_eq_some_iff] at ending
    rcases ending with ⟨cleaned, cleans, rfl⟩
    have final : SchedulingStep (chosen.machine .dispatched) .tickCleanUp
        ⟨cleaned, .idle, chosen.frame⟩ :=
      .tickCleanUp cleans
    exact ⟨operations ++ [.tickCleanUp], .cons (.tick saves) (run.snoc final)⟩

end Account

namespace Kernel

variable (kernel : Kernel)

/-- A thread that a tick dispatches as soon as it has cooled down. -/
structure Runnable (t : ℕ) : Prop where
  unblocked : (kernel.threads t).state ≠ .blocked
  alive : (kernel.threads t).state ≠ .termed
  owned : kernel.ownedByZombie t = false
  stack : ¬((kernel.threads t).privilege = .ring3 ∧ (kernel.threads t).kernelStack = 0)

def strideOf (t : ℕ) : ℕ := (priorityToStride (kernel.threads t).priority).toNat

/-- Two kernels that are the same for a tick: `clean_up` has gone over the second. -/
structure SameScheduling (before after : Kernel) : Prop where
  threads : after.threads = before.threads
  readyHead : after.readyHead = before.readyHead
  readyTail : after.readyTail = before.readyTail
  currentThread : after.currentThread = before.currentThread
  state : ∀ p, (after.processes p).state = (before.processes p).state

variable {kernel} {after : Kernel} {queue rest : List ℕ} {t : ℕ}

theorem SameScheduling.trans {middle : Kernel} (first : SameScheduling kernel middle)
    (second : SameScheduling middle after) : SameScheduling kernel after where
  threads := second.threads.trans first.threads
  readyHead := second.readyHead.trans first.readyHead
  readyTail := second.readyTail.trans first.readyTail
  currentThread := second.currentThread.trans first.currentThread
  state := fun p => (second.state p).trans (first.state p)

theorem SameScheduling.isReadyQueue (same : SameScheduling kernel after)
    (isQueue : kernel.IsReadyQueue queue) : after.IsReadyQueue queue := by
  apply isQueue.congr same.readyHead same.readyTail
  intro node _
  rw [nextOf, nextOf, same.threads]

theorem SameScheduling.ownedByZombie (same : SameScheduling kernel after) (t : ℕ) :
    after.ownedByZombie t = kernel.ownedByZombie t := by
  simp only [Kernel.ownedByZombie, same.threads, same.state]

/-- `clean_up` frees a terminated thread that is not on the queue. -/
theorem freeThread_same (kernel : Kernel) (slot t : ℕ) :
    SameScheduling kernel (kernel.freeThread slot t) := by
  cases owner : (kernel.threads t).proc with
  | none =>
      simp only [freeThread, detachThread, owner]
      exact ⟨rfl, rfl, rfl, rfl, fun _ => rfl⟩
  | some p =>
      simp only [freeThread, detachThread, owner, processRemoveThread]
      refine ⟨rfl, rfl, rfl, rfl, fun other => ?_⟩
      by_cases same : other = p
      · subst same
        simp [modifyProcess]
      · simp [modifyProcess, same]

theorem cleanUpSlots_same (isQueue : kernel.IsReadyQueue queue)
    (alive : ∀ t ∈ queue, (kernel.threads t).state ≠ .termed) (slots : List ℕ) :
    ∃ after, (∀ fuel, queue.length < fuel →
        slots.foldlM (cleanUpSlot fuel) kernel = some after) ∧ SameScheduling kernel after := by
  induction slots generalizing kernel with
  | nil => exact ⟨kernel, fun _ _ => rfl, rfl, rfl, rfl, rfl, fun _ => rfl⟩
  | cons slot slots ih =>
      have cleaned : ∃ middle, (∀ fuel, queue.length < fuel →
          cleanUpSlot fuel kernel slot = some middle) ∧ SameScheduling kernel middle := by
        simp only [cleanUpSlot]
        split
        · exact ⟨kernel, fun _ _ => rfl, rfl, rfl, rfl, rfl, fun _ => rfl⟩
        · rename_i t _
          split
          · rename_i dead
            have absent : t ∉ queue := fun mem => alive t mem dead
            refine ⟨_, fun fuel enough => ?_, freeThread_same kernel slot t⟩
            rw [removeFromReadyQueue, scan_missing isQueue.linked (skips_of_notMem absent) enough]
            rfl
          · exact ⟨kernel, fun _ _ => rfl, rfl, rfl, rfl, rfl, fun _ => rfl⟩
      rcases cleaned with ⟨middle, cleans, same⟩
      have aliveMiddle : ∀ t ∈ queue, (middle.threads t).state ≠ .termed := by
        rw [same.threads]
        exact alive
      rcases ih (same.isReadyQueue isQueue) aliveMiddle with ⟨after, cleansRest, sameRest⟩
      refine ⟨after, fun fuel enough => ?_, same.trans sameRest⟩
      simp only [List.foldlM_cons, cleans fuel enough]
      exact cleansRest fuel enough

theorem cleanUp_same (isQueue : kernel.IsReadyQueue queue)
    (alive : ∀ t ∈ queue, (kernel.threads t).state ≠ .termed) :
    ∃ after, (∀ fuel, queue.length < fuel → kernel.cleanUp fuel = some after) ∧
      SameScheduling kernel after :=
  cleanUpSlots_same isQueue alive (List.range maxThreads)

end Kernel

end Goshkik

import Goshkik.Scheduling.Account

/-!
# The scheduler shares the processor in proportion to the strides

While all threads stay runnable, the threads of the ready queue followed by the current
thread turn like the nodes of a stride wheel: a thread that the loop considers leaves the
front, and it is at the back afterwards, on the queue or as the current thread.
-/

namespace Goshkik

namespace Kernel

variable {kernel after : Kernel} {stride : ℕ → ℕ} {wheel : StrideWheel ℕ} {queue rest : List ℕ}
  {t : ℕ}

theorem Runnable.congr (runnable : kernel.Runnable t)
    (unblocked : (after.threads t).state ≠ .blocked) (alive : (after.threads t).state ≠ .termed)
    (owned : after.ownedByZombie t = kernel.ownedByZombie t)
    (privilege : (after.threads t).privilege = (kernel.threads t).privilege)
    (kernelStack : (after.threads t).kernelStack = (kernel.threads t).kernelStack) :
    after.Runnable t where
  unblocked := unblocked
  alive := alive
  owned := owned.trans runnable.owned
  stack := by
    rw [privilege, kernelStack]
    exact runnable.stack

/-- The threads of a wheel are runnable, with its strides and cooldowns. -/
structure Drives (kernel : Kernel) (stride : ℕ → ℕ) (wheel : StrideWheel ℕ) : Prop where
  runnable : ∀ t ∈ wheel.ring, kernel.Runnable t
  stride : ∀ t ∈ wheel.ring, priorityToStride (kernel.threads t).priority = stride t
  cooldown : ∀ t ∈ wheel.ring, (kernel.threads t).cooldown = wheel.cooldown t

namespace Drives

theorem relinked (drives : kernel.Drives stride wheel) (relinked : Relinked kernel after) :
    after.Drives stride wheel where
  runnable := by
    intro t mem
    have runnable := drives.runnable t mem
    apply runnable.congr
    · rw [relinked.state]
      exact runnable.unblocked
    · rw [relinked.state]
      exact runnable.alive
    · exact relinked.ownedByZombie t
    · exact relinked.privilege t
    · exact relinked.kernelStack t
  stride := by
    intro t mem
    rw [relinked.priority]
    exact drives.stride t mem
  cooldown := by
    intro t mem
    rw [relinked.cooldown]
    exact drives.cooldown t mem

theorem same (drives : kernel.Drives stride wheel) (same : SameScheduling kernel after) :
    after.Drives stride wheel where
  runnable := by
    intro t mem
    have runnable := drives.runnable t mem
    apply runnable.congr
    · rw [same.threads]
      exact runnable.unblocked
    · rw [same.threads]
      exact runnable.alive
    · exact same.ownedByZombie t
    · rw [same.threads]
    · rw [same.threads]
  stride := by
    rw [same.threads]
    exact drives.stride
  cooldown := by
    rw [same.threads]
    exact drives.cooldown

/-- A change of one thread's record. -/
theorem modifyThread (drives : kernel.Drives stride wheel) {wheelAfter : StrideWheel ℕ}
    {change : Thread → Thread} (ring : ∀ other ∈ wheelAfter.ring, other ∈ wheel.ring)
    (unblocked : (change (kernel.threads t)).state ≠ .blocked)
    (alive : (change (kernel.threads t)).state ≠ .termed)
    (proc : (change (kernel.threads t)).proc = (kernel.threads t).proc)
    (privilege : (change (kernel.threads t)).privilege = (kernel.threads t).privilege)
    (kernelStack : (change (kernel.threads t)).kernelStack = (kernel.threads t).kernelStack)
    (priority : (change (kernel.threads t)).priority = (kernel.threads t).priority)
    (cooldown : (change (kernel.threads t)).cooldown = wheelAfter.cooldown t)
    (others : ∀ other, other ≠ t → wheelAfter.cooldown other = wheel.cooldown other) :
    (kernel.modifyThread t change).Drives stride wheelAfter where
  runnable := by
    intro other mem
    have runnable := drives.runnable other (ring other mem)
    by_cases same : other = t
    · subst same
      apply runnable.congr
      · simpa using unblocked
      · simpa using alive
      · simp only [Kernel.ownedByZombie, modifyThread_threads_same, proc]
        rfl
      · simpa using privilege
      · simpa using kernelStack
    · have record := modifyThread_threads_ne kernel t change same
      apply runnable.congr
      · rw [record]
        exact runnable.unblocked
      · rw [record]
        exact runnable.alive
      · simp only [Kernel.ownedByZombie, record]
        rfl
      · rw [record]
      · rw [record]
  stride := by
    intro other mem
    by_cases same : other = t
    · subst same
      rw [modifyThread_threads_same, priority]
      exact drives.stride other (ring other mem)
    · rw [modifyThread_threads_ne kernel t change same]
      exact drives.stride other (ring other mem)
  cooldown := by
    intro other mem
    by_cases same : other = t
    · subst same
      rw [modifyThread_threads_same, cooldown]
    · rw [modifyThread_threads_ne kernel t change same, others other same]
      exact drives.cooldown other (ring other mem)

theorem setState (drives : kernel.Drives stride wheel) {state : ThreadState}
    (unblocked : state ≠ .blocked) (alive : state ≠ .termed)
    (cooldown : (kernel.threads t).cooldown = wheel.cooldown t) :
    (kernel.setState t state).Drives stride wheel :=
  drives.modifyThread (fun _ mem => mem) unblocked alive rfl rfl rfl rfl cooldown
    (fun _ _ => rfl)

theorem mem_turn (head : wheel.ring = t :: rest) :
    ∀ other ∈ (wheel.turn stride t rest).ring, other ∈ wheel.ring := by
  intro other mem
  rw [head]
  have mem' : other ∈ rest ++ [t] := mem
  simpa [or_comm] using mem'

/-- Using up one of the cooldown is a turn of the wheel. -/
theorem cool (drives : kernel.Drives stride wheel) (head : wheel.ring = t :: rest)
    (cooling : wheel.cooldown t ≠ 0) :
    (kernel.cool t).Drives stride (wheel.turn stride t rest) := by
  have mem : t ∈ wheel.ring := by
    simp [head]
  have runnable := drives.runnable t mem
  have cooldown := drives.cooldown t mem
  refine drives.modifyThread (mem_turn head) runnable.unblocked runnable.alive rfl rfl rfl rfl ?_ ?_
  · simp only [StrideWheel.turn, Function.update_self, cooling, if_false]
    omega
  · intro other different
    simp [StrideWheel.turn, different]

/-- So is a dispatch. -/
theorem dispatch (drives : kernel.Drives stride wheel) (fair : wheel.Fair stride)
    (head : wheel.ring = t :: rest) (cooled : wheel.cooldown t = 0) :
    (kernel.dispatch t).Drives stride (wheel.turn stride t rest) := by
  have mem : t ∈ wheel.ring := by
    simp [head]
  have runnable := drives.runnable t mem
  have positive := fair.cool t mem
  have strideEq := drives.stride t mem
  have set : (kernel.modifyThread t (fun record =>
      { record with cooldown := priorityToStride record.priority - 1 })).Drives stride
        (wheel.turn stride t rest) := by
    refine drives.modifyThread (mem_turn head) runnable.unblocked runnable.alive rfl rfl rfl rfl
      ?_ ?_
    · simp only [StrideWheel.turn, Function.update_self, cooled, if_true]
      omega
    · intro other different
      simp [StrideWheel.turn, different]
  have chosen : { kernel.modifyThread t (fun record =>
      { record with cooldown := priorityToStride record.priority - 1 }) with
        currentThread := some t }.Drives stride (wheel.turn stride t rest) :=
    ⟨fun other otherMem =>
      ⟨(set.runnable other otherMem).unblocked, (set.runnable other otherMem).alive,
        (set.runnable other otherMem).owned, (set.runnable other otherMem).stack⟩,
      set.stride, set.cooldown⟩
  have memTurn : t ∈ (wheel.turn stride t rest).ring := by
    simp [StrideWheel.turn]
  exact chosen.setState (by decide) (by decide) (chosen.cooldown t memTurn)

/-- Interrupting a thread is none. -/
theorem interrupt (drives : kernel.Drives stride wheel) (mem : t ∈ wheel.ring)
    (context : Context) :
    ((kernel.modifyThread t (fun record => { record with context := context })).setState t
      .ready).Drives stride wheel := by
  have runnable := drives.runnable t mem
  have saved : (kernel.modifyThread t
      (fun record => { record with context := context })).Drives stride wheel :=
    drives.modifyThread (fun _ inside => inside) runnable.unblocked runnable.alive rfl rfl rfl rfl
      (drives.cooldown t mem) (fun _ _ => rfl)
  exact saved.setState (by decide) (by decide) (saved.cooldown t mem)

end Drives

/-- The stride of a thread that a tick reads off its record. -/
theorem stride_eq {priority : ThreadPriority} : 0 < (priorityToStride priority).toNat ∧
    (priorityToStride priority).toNat ≤ 32 ∧
      priorityToStride priority = (priorityToStride priority).toNat := by
  cases priority <;> decide

end Kernel

namespace Account

variable {account : Account} {stride : ℕ → ℕ} {wheel : StrideWheel ℕ} {queue rest held : List ℕ}
  {t : ℕ}

/-- The queue and the threads behind it turn like a fair wheel with the same counts. -/
structure Turning (account : Account) (stride : ℕ → ℕ) (wheel : StrideWheel ℕ)
    (queue held : List ℕ) : Prop where
  isQueue : account.kernel.IsReadyQueue queue
  ring : wheel.ring = queue ++ held
  drives : account.kernel.Drives stride wheel
  fair : wheel.Fair stride
  considered : account.considered = wheel.considered
  dispatched : account.dispatched = wheel.dispatched

namespace Turning

/-- The loop takes the thread at the head off the queue. -/
theorem select (turning : account.Turning stride wheel (t :: rest) []) :
    account.select = (.considering t,
      { account with
        kernel := account.kernel.dequeueReadyHead t
        considered := (wheel.turn stride t rest).considered }) := by
  have head : account.kernel.readyHead = some t := turning.isQueue.linked.1
  have mem : t ∈ wheel.ring := by
    simp [turning.ring]
  have owned := (turning.drives.runnable t mem).owned
  simp only [Account.select, Kernel.tickSelect, head, owned, turning.considered]
  rfl

theorem dequeued (turning : account.Turning stride wheel (t :: rest) []) :
    (account.kernel.dequeueReadyHead t).IsReadyQueue rest ∧
      (account.kernel.dequeueReadyHead t).Drives stride wheel ∧
      t ∉ rest ∧ t ∈ wheel.ring ∧ wheel.ring = t :: rest := by
  rcases turning.isQueue.dequeueReadyHead with ⟨isQueue, relinked⟩
  have ring : wheel.ring = t :: rest := by
    simpa using turning.ring
  refine ⟨isQueue, turning.drives.relinked relinked, ?_, ?_, ring⟩
  · exact (List.nodup_cons.mp turning.isQueue.distinct).1
  · simp [ring]

/-- A thread that is still cooling down goes to the back of the queue. -/
theorem loop_cooling (turning : account.Turning stride wheel (t :: rest) [])
    (cooling : wheel.cooldown t ≠ 0) :
    ∃ after : Account, after.Turning stride (wheel.turn stride t rest) (rest ++ [t]) [] ∧
      ∀ fuel, loop (fuel + 2) account .selecting = loop fuel after .selecting := by
  rcases turning.dequeued with ⟨isQueue, drives, absent, mem, ring⟩
  have runnable := drives.runnable t mem
  have cooldown := drives.cooldown t mem
  rcases (isQueue.cool t).enqueueReadyTail absent with ⟨after, enqueues, isQueueAfter, relinked⟩
  have considers := Kernel.tickConsider_cooling runnable.unblocked runnable.alive
    (by omega) enqueues
  refine ⟨{ account with
    kernel := after
    considered := (wheel.turn stride t rest).considered }, ?_, ?_⟩
  · constructor
    case isQueue => exact isQueueAfter
    case ring => simp [StrideWheel.turn]
    case drives => exact (drives.cool ring cooling).relinked relinked
    case fair => exact turning.fair.turn ring
    case considered => rfl
    case dispatched => simp [StrideWheel.turn, cooling, turning.dispatched]
  · intro fuel
    simp only [loop, turning.select, Account.consider, considers, Option.map_some,
      Option.bind_some]
    rfl

/-- A thread that has cooled down is dispatched. -/
theorem loop_dispatch (turning : account.Turning stride wheel (t :: rest) [])
    (cooled : wheel.cooldown t = 0) :
    ∃ after : Account, after.Turning stride (wheel.turn stride t rest) rest [t] ∧
      after.kernel.currentThread = some t ∧
      ∀ fuel, loop (fuel + 3) account .selecting = some (.dispatched, after) := by
  rcases turning.dequeued with ⟨isQueue, drives, absent, mem, ring⟩
  have runnable := drives.runnable t mem
  have cooldown := drives.cooldown t mem
  have considers := Kernel.tickConsider_dispatch runnable.unblocked runnable.alive
    (by omega) runnable.stack
  refine ⟨{ account with
    kernel := (account.kernel.dequeueReadyHead t).dispatch t
    frame := ((account.kernel.dequeueReadyHead t).dispatch t).dispatchedFrame account.frame
      .dispatched t
    considered := (wheel.turn stride t rest).considered
    dispatched := (wheel.turn stride t rest).dispatched }, ?_, rfl, ?_⟩
  · constructor
    case isQueue => exact isQueue.dispatch
    case ring => rfl
    case drives => exact drives.dispatch turning.fair ring cooled
    case fair => exact turning.fair.turn ring
    case considered => rfl
    case dispatched => rfl
  · intro fuel
    simp only [loop, turning.select, Account.consider, considers, Option.map_some,
      Option.bind_some, turning.dispatched, countUp, StrideWheel.turn, cooled, if_true]

/-- From a queue that is not empty the loop comes to a dispatch. -/
theorem loop_dispatches (turning : account.Turning stride wheel queue []) (nonempty : queue ≠ []) :
    ∃ (after : Account) (wheelAfter : StrideWheel ℕ) (rest : List ℕ) (t least : ℕ),
      after.Turning stride wheelAfter rest [t] ∧ after.kernel.currentThread = some t ∧
      wheelAfter.ring.Perm wheel.ring ∧
      (wheelAfter.ring.map wheelAfter.dispatched).sum =
        (wheel.ring.map wheel.dispatched).sum + 1 ∧
      ∀ fuel, least ≤ fuel → loop fuel account .selecting = some (.dispatched, after) := by
  induction measure : wheel.heat using Nat.strong_induction_on
    generalizing account wheel queue with
  | _ heat ih =>
      subst measure
      rcases List.exists_cons_of_ne_nil nonempty with ⟨t, rest, rfl⟩
      have ring := turning.dequeued.2.2.2.2
      have distinct := turning.fair.distinct
      have perm : (wheel.turn stride t rest).ring.Perm wheel.ring := by
        rw [ring]
        exact List.perm_append_singleton t rest
      have sum := @StrideWheel.sum_dispatched_turn ℕ _ stride wheel t rest distinct ring
      by_cases cooled : wheel.cooldown t = 0
      · rcases turning.loop_dispatch cooled with ⟨after, turningAfter, current, returns⟩
        refine ⟨after, _, rest, t, 3, turningAfter, current, perm, ?_, ?_⟩
        · rw [sum, if_pos cooled]
        · intro fuel enough
          rcases Nat.exists_eq_add_of_le' enough with ⟨more, rfl⟩
          exact returns more
      · rcases turning.loop_cooling cooled with ⟨next, turningNext, steps⟩
        rcases ih _ (StrideWheel.heat_turn distinct ring cooled) turningNext (by simp) rfl with
          ⟨after, wheelAfter, restAfter, chosen, least, turningAfter, current, permAfter, sumAfter,
            returns⟩
        refine ⟨after, wheelAfter, restAfter, chosen, least + 2, turningAfter, current,
          permAfter.trans perm, ?_, ?_⟩
        · rw [sumAfter, sum, if_neg cooled]
        · intro fuel enough
          rcases Nat.exists_eq_add_of_le' enough with ⟨more, rfl⟩
          rw [← Nat.add_assoc, steps]
          exact returns (more + least) (by omega)

/-- `clean_up` changes nothing that turns. -/
theorem cleanUp (turning : account.Turning stride wheel queue held) :
    ∃ cleaned, (∀ fuel, queue.length < fuel → account.kernel.cleanUp fuel = some cleaned) ∧
      ({ account with kernel := cleaned } : Account).Turning stride wheel queue held ∧
      cleaned.currentThread = account.kernel.currentThread := by
  have alive : ∀ t ∈ queue, (account.kernel.threads t).state ≠ .termed := by
    intro t mem
    apply (turning.drives.runnable t _).alive
    rw [turning.ring]
    exact List.mem_append_left held mem
  rcases Kernel.cleanUp_same turning.isQueue alive with ⟨cleaned, cleans, same⟩
  refine ⟨cleaned, cleans, ?_, same.currentThread⟩
  constructor
  case isQueue => exact same.isReadyQueue turning.isQueue
  case ring => exact turning.ring
  case drives => exact turning.drives.same same
  case fair => exact turning.fair
  case considered => exact turning.considered
  case dispatched => exact turning.dispatched

/-- The prologue puts the interrupted thread on the queue. -/
theorem prologue (turning : account.Turning stride wheel queue account.kernel.currentThread.toList)
    (context : Context) :
    ∃ saved, (∀ fuel, account.kernel.tickPrologue fuel context = some saved) ∧
      ({ account with kernel := saved, frame := context } : Account).Turning stride wheel
        (queue ++ account.kernel.currentThread.toList) [] := by
  cases current : account.kernel.currentThread with
  | none =>
      refine ⟨account.kernel, fun fuel => by simp [Kernel.tickPrologue, current], ?_⟩
      simp only [current] at turning
      simpa using { turning with }
  | some old =>
      have ring := turning.ring
      have distinct := turning.fair.distinct
      simp only [current, Option.toList_some] at ring
      rw [ring] at distinct
      have absent : old ∉ queue := by
        intro mem
        exact List.disjoint_of_nodup_append distinct mem (List.mem_singleton_self old)
      have mem : old ∈ wheel.ring := by
        simp [ring]
      have runnable := turning.drives.runnable old mem
      have interrupted := turning.drives.interrupt mem context
      have isQueue : ((account.kernel.modifyThread old (fun record =>
          { record with context := context })).setState old .ready).IsReadyQueue queue := by
        unfold Kernel.setState
        exact (turning.isQueue.modifyThread rfl).modifyThread rfl
      rcases isQueue.enqueueReadyTail absent with ⟨saved, enqueues, isQueueSaved, relinked⟩
      refine ⟨saved, fun fuel => ?_, ?_⟩
      · simp only [Kernel.tickPrologue, current]
        cases state : (account.kernel.threads old).state with
        | running => exact enqueues
        | ready => exact enqueues
        | blocked => exact absurd state runnable.unblocked
        | termed => exact absurd state runnable.alive
      · constructor
        case isQueue => exact isQueueSaved
        case ring => simpa using ring
        case drives => exact interrupted.relinked relinked
        case fair => exact turning.fair
        case considered => exact turning.considered
        case dispatched => exact turning.dispatched

/-- A tick ends with one more thread dispatched. -/
theorem tick (turning : account.Turning stride wheel queue account.kernel.currentThread.toList)
    (nonempty : wheel.ring ≠ []) (context : Context) :
    ∃ (after : Account) (wheelAfter : StrideWheel ℕ) (rest : List ℕ) (least : ℕ),
      after.Turning stride wheelAfter rest after.kernel.currentThread.toList ∧
      wheelAfter.ring.Perm wheel.ring ∧
      (wheelAfter.ring.map wheelAfter.dispatched).sum =
        (wheel.ring.map wheel.dispatched).sum + 1 ∧
      ∀ fuel, least ≤ fuel → account.tick fuel context = some after := by
  rcases turning.prologue context with ⟨saved, saves, turningSaved⟩
  rw [turning.ring] at nonempty
  rcases turningSaved.loop_dispatches nonempty with
    ⟨chosen, wheelAfter, rest, t, least, turningChosen, current, perm, sum, returns⟩
  rcases turningChosen.cleanUp with ⟨cleaned, cleans, turningAfter, currentAfter⟩
  refine ⟨{ chosen with kernel := cleaned }, wheelAfter, rest, max least (rest.length + 1), ?_,
    perm, sum, ?_⟩
  · simpa [currentAfter, current] using turningAfter
  · intro fuel enough
    have loops := returns fuel (le_trans (le_max_left _ _) enough)
    have ends := cleans fuel (le_trans (le_max_right _ _) enough)
    simp only [Account.tick, saves, Option.bind_some, loops, if_true, ends, Option.map_some]

/-- So do all ticks of a run. -/
theorem ticks (turning : account.Turning stride wheel queue account.kernel.currentThread.toList)
    (nonempty : wheel.ring ≠ []) (contexts : List Context) :
    ∃ (after : Account) (wheelAfter : StrideWheel ℕ) (rest : List ℕ) (least : ℕ),
      after.Turning stride wheelAfter rest after.kernel.currentThread.toList ∧
      wheelAfter.ring.Perm wheel.ring ∧
      (wheelAfter.ring.map wheelAfter.dispatched).sum =
        (wheel.ring.map wheel.dispatched).sum + contexts.length ∧
      ∀ fuel, least ≤ fuel → account.ticks fuel contexts = some after := by
  induction contexts generalizing account wheel queue with
  | nil =>
      exact ⟨account, wheel, queue, 0, turning, List.Perm.refl _, rfl, fun _ _ => rfl⟩
  | cons context contexts ih =>
      rcases turning.tick nonempty context with
        ⟨next, wheelNext, restNext, least, turningNext, perm, sum, returns⟩
      have nonemptyNext : wheelNext.ring ≠ [] := by
        intro empty
        rw [empty] at perm
        exact nonempty perm.symm.eq_nil
      rcases ih turningNext nonemptyNext with
        ⟨after, wheelAfter, rest, leastAfter, turningAfter, permAfter, sumAfter, returnsAfter⟩
      refine ⟨after, wheelAfter, rest, max least leastAfter, turningAfter, permAfter.trans perm,
        ?_, ?_⟩
      · rw [sumAfter, sum, List.length_cons]
        omega
      · intro fuel enough
        have first := returns fuel (le_trans (le_max_left _ _) enough)
        have others := returnsAfter fuel (le_trans (le_max_right _ _) enough)
        simp only [Account.ticks, List.foldlM_cons, first] at others ⊢
        exact others

end Turning

/-- An account of a kernel that has not ticked yet turns like a wheel at its start. -/
theorem opened_turning {kernel : Kernel} (isQueue : kernel.IsReadyQueue queue)
    (unqueued : ∀ t ∈ kernel.currentThread, t ∉ queue)
    (runnable : ∀ t ∈ queue ++ kernel.currentThread.toList, kernel.Runnable t)
    (cooled : ∀ t ∈ queue ++ kernel.currentThread.toList, (kernel.threads t).cooldown = 0) :
    (opened kernel).Turning kernel.strideOf
      (.start (queue ++ kernel.currentThread.toList)) queue
      kernel.currentThread.toList := by
  have distinct : (queue ++ kernel.currentThread.toList).Nodup := by
    cases current : kernel.currentThread with
    | none => simpa using isQueue.distinct
    | some t =>
        have absent := unqueued t current
        apply List.nodup_append'.mpr
        refine ⟨isQueue.distinct, List.nodup_singleton t, ?_⟩
        simpa using absent
  constructor
  case isQueue => exact isQueue
  case ring => rfl
  case drives =>
    constructor
    case runnable => exact runnable
    case stride => exact fun _ _ => Kernel.stride_eq.2.2
    case cooldown => exact cooled
  case fair => exact StrideWheel.fair_start distinct (fun _ _ => Kernel.stride_eq.1)
  case considered => rfl
  case dispatched => rfl

/-- The threads that stay runnable share the processor in proportion to their strides, whatever
the number of ticks. -/
theorem ticks_proportional {kernel : Kernel} (isQueue : kernel.IsReadyQueue queue)
    (unqueued : ∀ t ∈ kernel.currentThread, t ∉ queue)
    (nonempty : queue ++ kernel.currentThread.toList ≠ [])
    (runnable : ∀ t ∈ queue ++ kernel.currentThread.toList, kernel.Runnable t)
    (cooled : ∀ t ∈ queue ++ kernel.currentThread.toList, (kernel.threads t).cooldown = 0)
    (contexts : List Context) :
    ∃ (after : Account) (least : ℕ),
      (∀ fuel, least ≤ fuel → (opened kernel).ticks fuel contexts = some after) ∧
      ∀ t ∈ queue ++ kernel.currentThread.toList,
        after.dispatched t = after.considered t ⌈/⌉ kernel.strideOf t ∧
        contexts.length ≤ (queue ++ kernel.currentThread.toList).length *
          (32 * after.dispatched t + 32) ∧
        ∀ other ∈ queue ++ kernel.currentThread.toList,
          after.considered t ≤ after.considered other + 1 ∧
          |(kernel.strideOf t * after.dispatched t : ℤ) -
              kernel.strideOf other * after.dispatched other| ≤
            max (kernel.strideOf t : ℤ) (kernel.strideOf other) := by
  have turning := opened_turning isQueue unqueued runnable cooled
  rcases turning.ticks nonempty contexts with
    ⟨after, wheel, rest, least, turningAfter, perm, sum, returns⟩
  refine ⟨after, least, returns, ?_⟩
  rw [turningAfter.considered, turningAfter.dispatched]
  have fair := turningAfter.fair
  have inRing : ∀ t ∈ queue ++ kernel.currentThread.toList, t ∈ wheel.ring := by
    intro t mem
    exact perm.mem_iff.mpr mem
  have total : (wheel.ring.map wheel.dispatched).sum = contexts.length := by
    rw [sum]
    simp [StrideWheel.start]
  have length : wheel.ring.length = (queue ++ kernel.currentThread.toList).length :=
    perm.length_eq
  intro t mem
  refine ⟨fair.dispatched_eq (inRing t mem), ?_, ?_⟩
  · rw [← total, ← length]
    exact fair.sum_dispatched_le (inRing t mem) (fun _ _ => Kernel.stride_eq.2.1)
  · intro other otherMem
    exact ⟨fair.considered_le (inRing t mem) (inRing other otherMem),
      fair.proportional (inRing t mem) (inRing other otherMem)⟩

/-- The two threads of a kernel that has just started. -/
theorem startedKernel_pool :
    startedKernel.readyHead = some 0x1100 ∧ startedKernel.readyTail = some 0x1100 ∧
      startedKernel.nextOf 0x1100 = none ∧ startedKernel.currentThread = some 0x1000 ∧
      ∀ t ∈ [0x1100, 0x1000], (startedKernel.threads t).state ≠ .blocked ∧
        (startedKernel.threads t).state ≠ .termed ∧ startedKernel.ownedByZombie t = false ∧
        (startedKernel.threads t).privilege = .ring0 ∧ (startedKernel.threads t).cooldown = 0 := by
  decide +kernel

theorem ticks_proportional_started : ∃ (after : Account) (least : ℕ),
      (∀ fuel, least ≤ fuel →
        (opened startedKernel).ticks fuel (List.replicate 100 {}) = some after) ∧
      100 ≤ 2 * (32 * after.dispatched 0x1100 + 32) := by
  rcases startedKernel_pool with ⟨head, tail, stop, current, pool⟩
  have isQueue : startedKernel.IsReadyQueue [0x1100] := .of_linked ⟨head, stop⟩ tail
  have threads : [0x1100] ++ startedKernel.currentThread.toList = [0x1100, 0x1000] := by
    rw [current]
    rfl
  rcases ticks_proportional isQueue (by simp [current]) (by simp [threads])
    (by
      rw [threads]
      intro t mem
      rcases pool t mem with ⟨unblocked, alive, owned, privilege, _⟩
      exact ⟨unblocked, alive, owned, by simp [privilege]⟩)
    (by
      rw [threads]
      exact fun t mem => (pool t mem).2.2.2.2)
    (List.replicate 100 {}) with ⟨after, least, returns, shares⟩
  refine ⟨after, least, returns, ?_⟩
  rw [threads] at shares
  simpa using (shares 0x1100 (by simp)).2.1

end Account

end Goshkik

import Goshkik.Scheduling.ZombieDispatch

/-!
# The loop of the tick ends with the first thread that has cooled down

A thread that can be dispatched is at the head of the queue once for each unit of its
cooldown and once more to be dispatched, and the threads keep their order in every round.
So the loop dispatches the first of the threads with the least cooldown.
-/

namespace Goshkik

/-- A list with elements that pass a test has a first one among those of least value. -/
theorem exists_first_least {Node : Type} {test : Node → Prop} (value : Node → ℤ) {nodes : List Node}
    (exists_passes : ∃ node ∈ nodes, test node) :
    ∃ front node back, nodes = front ++ node :: back ∧ test node ∧
      (∀ other ∈ front, test other → value node < value other) ∧
      ∀ other ∈ back, test other → value node ≤ value other := by
  induction nodes with
  | nil =>
      rcases exists_passes with ⟨node, mem, _⟩
      cases mem
  | cons first nodes ih =>
      by_cases later : ∃ node ∈ nodes, test node
      · rcases ih later with ⟨front, node, back, rfl, passes, ahead, behind⟩
        by_cases isFirst : test first ∧ value first ≤ value node
        · refine ⟨[], first, _, rfl, isFirst.1, by simp, ?_⟩
          intro other mem otherPasses
          rcases List.mem_append.mp mem with mem | mem
          · exact isFirst.2.trans (ahead other mem otherPasses).le
          · rcases List.mem_cons.mp mem with rfl | mem
            · exact isFirst.2
            · exact isFirst.2.trans (behind other mem otherPasses)
        · refine ⟨first :: front, node, back, rfl, passes, ?_, behind⟩
          intro other mem otherPasses
          rcases List.mem_cons.mp mem with rfl | mem
          · by_contra notLess
            exact isFirst ⟨otherPasses, not_lt.mp notLess⟩
          · exact ahead other mem otherPasses
      · rcases exists_passes with ⟨node, mem, passes⟩
        rcases List.mem_cons.mp mem with rfl | mem
        · exact ⟨[], node, nodes, rfl, passes, by simp,
            fun other mem otherPasses => absurd ⟨other, mem, otherPasses⟩ later⟩
        · exact absurd ⟨node, mem, passes⟩ later

namespace Kernel

variable {kernel middle after saved taken : Kernel} {queue front back rest : List ℕ} {t head : ℕ}

theorem cool_cooldown (kernel : Kernel) (t other : ℕ) :
    ((kernel.cool t).threads other).cooldown =
      if other = t then (kernel.threads t).cooldown - 1 else (kernel.threads other).cooldown := by
  by_cases same : other = t
  · subst same
    simp [cool]
  · simp [cool, modifyThread_threads_ne _ _ _ same, same]

/-- A thread at the head of the queue that has not cooled down goes to the back. -/
theorem IsReadyQueue.turn_cooling (isQueue : kernel.IsReadyQueue (head :: rest))
    (owned : kernel.ownedByZombie head = false)
    (unblocked : (kernel.threads head).state ≠ .blocked)
    (alive : (kernel.threads head).state ≠ .termed) (cooling : 0 < (kernel.threads head).cooldown) :
    ∃ middle, kernel.tickSelect.1 = .considering head ∧
      (∀ fuel, kernel.tickSelect.2.tickConsider fuel head = some (.selecting, middle)) ∧
      middle.IsReadyQueue (rest ++ [head]) ∧ Turned kernel middle ∧
      ∀ other, (middle.threads other).cooldown =
        if other = head then (kernel.threads head).cooldown - 1
        else (kernel.threads other).cooldown := by
  rcases isQueue.tickSelect with ⟨selects, isQueueRest, absent⟩
  have relinked := Relinked.dequeueReadyHead kernel head
  rcases (isQueueRest.cool head).enqueueReadyTail absent with
    ⟨middle, enqueues, isQueueAfter, requeued⟩
  rw [selects]
  have considers := tickConsider_cooling (relinked.state head ▸ unblocked)
    (relinked.state head ▸ alive) (relinked.cooldown head ▸ cooling) enqueues
  refine ⟨middle, if_neg (by simp [owned]), considers, isQueueAfter, ?_, fun other => ?_⟩
  · exact (Turned.of_relinked relinked).trans (.tickConsider (considers 0))
  · rw [requeued.cooldown, cool_cooldown, relinked.cooldown, relinked.cooldown]

/-- A thread at the head of the queue that the tick cannot dispatch leaves it, if it has cooled
down or is not awake. -/
theorem IsReadyQueue.turn_dropped (isQueue : kernel.IsReadyQueue (head :: rest))
    (unrunnable : ¬kernel.Runnable head)
    (settled : kernel.ownedByZombie head = true ∨ (kernel.threads head).state = .blocked ∨
      (kernel.threads head).state = .termed ∨ ¬0 < (kernel.threads head).cooldown) :
    ∃ middle, (kernel.tickSelect.1 = .selecting ∧ middle = kernel.tickSelect.2 ∨
        kernel.tickSelect.1 = .considering head ∧
          kernel.tickSelect.2.tickConsider (rest.length + 1) head = some (.selecting, middle)) ∧
      middle.IsReadyQueue rest ∧ Turned kernel middle ∧
      ∀ other, other ≠ head → (middle.threads other).cooldown =
        (kernel.threads other).cooldown := by
  rcases isQueue.tickSelect with ⟨selects, isQueueRest, absent⟩
  have relinked := Relinked.dequeueReadyHead kernel head
  rw [selects]
  by_cases owned : kernel.ownedByZombie head = true
  · exact ⟨_, .inl ⟨if_pos owned, rfl⟩, isQueueRest, .of_relinked relinked,
      fun other _ => relinked.cooldown other⟩
  · by_cases dead : (kernel.threads head).state = .blocked ∨ (kernel.threads head).state = .termed
    · rw [← relinked.state] at dead
      have considers := tickConsider_removed isQueueRest absent dead (Nat.lt_succ_self _)
      exact ⟨_, .inr ⟨if_neg owned, considers⟩, isQueueRest, .of_relinked relinked,
        fun other _ => relinked.cooldown other⟩
    · rw [not_or] at dead
      have cooled : ¬0 < (kernel.threads head).cooldown := by
        rcases settled with zombie | blocked | termed | cooled
        · exact absurd zombie owned
        · exact absurd blocked dead.1
        · exact absurd termed dead.2
        · exact cooled
      have stackless : (kernel.dequeueReadyHead head).Stackless head := by
        rw [relinked.sameChoices.stackless]
        by_contra stack
        exact unrunnable ⟨dead.1, dead.2, by simpa using owned, stack⟩
      have considers := tickConsider_discard (relinked.state head ▸ dead.1)
        (relinked.state head ▸ dead.2) (relinked.cooldown head ▸ cooled) stackless
          (rest.length + 1)
      refine ⟨_, .inr ⟨if_neg owned, considers⟩, isQueueRest.discard,
        (Turned.of_relinked relinked).trans (.discard stackless), fun other different => ?_⟩
      rw [discard_threads_ne different, relinked.cooldown]

/-- On the queue `front ++ t :: back` the thread `t` is the first of those with the least
cooldown. -/
structure ComesFirst (kernel : Kernel) (front : List ℕ) (t : ℕ) (back : List ℕ) (least : ℕ) :
    Prop where
  isQueue : kernel.IsReadyQueue (front ++ t :: back)
  runnable : kernel.Runnable t
  cooldown : (kernel.threads t).cooldown = least
  ahead : ∀ other ∈ front, kernel.Runnable other → least < (kernel.threads other).cooldown
  behind : ∀ other ∈ back, kernel.Runnable other → least ≤ (kernel.threads other).cooldown

namespace ComesFirst

variable {least : ℕ}

/-- A turn brings the thread one place forward. -/
theorem advance (first : kernel.ComesFirst (head :: front) t back least) :
    ∃ (middle : Kernel) (back' : List ℕ), middle.ComesFirst front t back' least ∧
      ∀ taken after, middle.Dispatches taken t after → kernel.Dispatches taken t after := by
  have distinct := first.isQueue.distinct
  rw [List.cons_append, List.nodup_cons] at distinct
  have others : ∀ other ∈ front ++ t :: back, other ≠ head := by
    rintro other mem rfl
    exact distinct.1 mem
  by_cases cooling : kernel.ownedByZombie head = false ∧ (kernel.threads head).state ≠ .blocked ∧
      (kernel.threads head).state ≠ .termed ∧ 0 < (kernel.threads head).cooldown
  · rcases cooling with ⟨owned, unblocked, alive, cooling⟩
    rcases first.isQueue.turn_cooling owned unblocked alive cooling with
      ⟨middle, selects, considers, isQueue, turned, cooldown⟩
    refine ⟨middle, back ++ [head], ⟨by simpa using isQueue, turned.runnable_iff.mpr first.runnable,
      ?_, ?_, ?_⟩, fun taken after rest => .again selects (considers 0) rest⟩
    · rw [cooldown, if_neg (others t (by simp)), first.cooldown]
    · intro other mem runnable
      rw [cooldown, if_neg (others other (by simp [mem]))]
      exact first.ahead other (by simp [mem]) (turned.runnable_iff.mp runnable)
    · intro other mem runnable
      rw [turned.runnable_iff] at runnable
      rcases List.mem_append.mp mem with mem | mem
      · rw [cooldown, if_neg (others other (by simp [mem]))]
        exact first.behind other mem runnable
      · rw [List.mem_singleton] at mem
        subst mem
        rw [cooldown, if_pos rfl]
        have ahead := first.ahead other List.mem_cons_self runnable
        omega
  · have unrunnable : ¬kernel.Runnable head := by
      intro runnable
      have ahead := first.ahead head List.mem_cons_self runnable
      exact cooling ⟨runnable.owned, runnable.unblocked, runnable.alive, by omega⟩
    have settled : kernel.ownedByZombie head = true ∨ (kernel.threads head).state = .blocked ∨
        (kernel.threads head).state = .termed ∨ ¬0 < (kernel.threads head).cooldown := by
      by_contra unsettled
      simp only [not_or, Bool.not_eq_true, not_not] at unsettled
      exact cooling unsettled
    rcases first.isQueue.turn_dropped unrunnable settled with
      ⟨middle, turn, isQueue, turned, cooldown⟩
    refine ⟨middle, back, ⟨isQueue, turned.runnable_iff.mpr first.runnable, ?_, ?_, ?_⟩, ?_⟩
    · rw [cooldown t (others t (by simp)), first.cooldown]
    · intro other mem runnable
      rw [cooldown other (others other (by simp [mem]))]
      exact first.ahead other (by simp [mem]) (turned.runnable_iff.mp runnable)
    · intro other mem runnable
      rw [cooldown other (others other (by simp [mem]))]
      exact first.behind other mem (turned.runnable_iff.mp runnable)
    · intro taken after rest
      rcases turn with ⟨selects, rfl⟩ | ⟨selects, considers⟩
      · exact .drop selects rest
      · exact .again selects considers rest

/-- The thread comes to the head of the queue. -/
theorem reachesHead (first : kernel.ComesFirst front t back least) :
    ∃ (middle : Kernel) (back' : List ℕ), middle.ComesFirst [] t back' least ∧
      ∀ taken after, middle.Dispatches taken t after → kernel.Dispatches taken t after := by
  induction front generalizing kernel back with
  | nil => exact ⟨kernel, back, first, fun _ _ rest => rest⟩
  | cons head front ih =>
      rcases first.advance with ⟨next, backNext, firstNext, lift⟩
      rcases ih firstNext with ⟨middle, back', firstMiddle, liftRest⟩
      exact ⟨middle, back', firstMiddle, fun taken after rest => lift _ _ (liftRest _ _ rest)⟩

/-- At the head of the queue a thread that has cooled down is dispatched. -/
theorem dispatches_head (first : kernel.ComesFirst [] t back 0) :
    ∃ after, kernel.Dispatches kernel t after ∧ kernel.readyHead = some t := by
  rcases first.isQueue.tickSelect with ⟨selects, _, _⟩
  have relinked := Relinked.dequeueReadyHead kernel t
  have runnable := first.runnable
  have cooled : ¬0 < (kernel.threads t).cooldown := by
    simp [first.cooldown]
  have considers := tickConsider_dispatch (relinked.state t ▸ runnable.unblocked)
    (relinked.state t ▸ runnable.alive) (relinked.cooldown t ▸ cooled)
    ((relinked.sameChoices.stackless t).not.mpr runnable.stack) 0
  have selected : kernel.tickSelect.1 = .considering t := by
    rw [selects]
    exact if_neg (by simp [runnable.owned])
  exact ⟨_, .last selected (by rw [selects]; exact considers), first.isQueue.linked.1⟩

/-- One that has not cooled down goes to the back, with one of its cooldown used up. -/
theorem requeue (first : kernel.ComesFirst [] t back (least + 1)) :
    ∃ middle : Kernel, middle.ComesFirst back t [] least ∧
      ∀ taken after, middle.Dispatches taken t after → kernel.Dispatches taken t after := by
  have runnable := first.runnable
  have cooldown := first.cooldown
  have absent := (List.nodup_cons.mp first.isQueue.distinct).1
  rcases first.isQueue.turn_cooling runnable.owned runnable.unblocked runnable.alive
    (by omega) with ⟨middle, selects, considers, isQueue, turned, cooldowns⟩
  refine ⟨middle, ⟨isQueue, turned.runnable_iff.mpr runnable, ?_, ?_, by simp⟩,
    fun taken after rest => .again selects (considers 0) rest⟩
  · rw [cooldowns, if_pos rfl, cooldown]
    omega
  · intro other mem otherRunnable
    have different : other ≠ t := by
      rintro rfl
      exact absent mem
    rw [cooldowns, if_neg different]
    have behind := first.behind other mem (turned.runnable_iff.mp otherRunnable)
    omega

/-- The loop comes to dispatch the thread from the queue. -/
theorem dispatches (first : kernel.ComesFirst front t back least) :
    ∃ taken after, kernel.Dispatches taken t after ∧ taken.readyHead = some t := by
  induction least generalizing kernel front back with
  | zero =>
      rcases first.reachesHead with ⟨middle, back', firstMiddle, lift⟩
      rcases firstMiddle.dispatches_head with ⟨after, dispatches, isHead⟩
      exact ⟨middle, after, lift _ _ dispatches, isHead⟩
  | succ least ih =>
      rcases first.reachesHead with ⟨middle, back', firstMiddle, lift⟩
      rcases firstMiddle.requeue with ⟨next, firstNext, liftNext⟩
      rcases ih firstNext with ⟨taken, after, dispatches, isHead⟩
      exact ⟨taken, after, lift _ _ (liftNext _ _ dispatches), isHead⟩

end ComesFirst

/-- The prologue of a tick returns. -/
theorem tickPrologue_returns (isQueue : kernel.IsReadyQueue queue)
    (unqueued : ∀ old ∈ kernel.currentThread, old ∉ queue) (context : Context) :
    ∃ saved, ∀ fuel, queue.length < fuel → kernel.tickPrologue fuel context = some saved := by
  cases current : kernel.currentThread with
  | none => exact ⟨kernel, fun fuel _ => by simp only [tickPrologue, current]⟩
  | some old =>
      have absent := unqueued old current
      have interrupted : ((kernel.modifyThread old (fun record =>
          { record with context := context })).setState old .ready).IsReadyQueue queue := by
        unfold setState
        exact (isQueue.modifyThread rfl).modifyThread rfl
      have stops : ∀ fuel, queue.length < fuel → ∃ after, (kernel.modifyThread old (fun record =>
          { record with context := context })).removeFromReadyQueue fuel (some old) = some after ∧
            after = kernel.modifyThread old (fun record => { record with context := context }) := by
        intro fuel enough
        have saved : (kernel.modifyThread old (fun record =>
            { record with context := context })).IsReadyQueue queue := isQueue.modifyThread rfl
        refine ⟨_, ?_, rfl⟩
        simp only [removeFromReadyQueue,
          scan_missing saved.linked (skips_of_notMem absent) enough]
      rcases interrupted.enqueueReadyTail absent with ⟨queued, enqueues, _, _⟩
      cases state : (kernel.threads old).state with
      | running => exact ⟨queued,
          fun fuel _ => by simp only [tickPrologue, current, state, enqueues]⟩
      | ready => exact ⟨queued, fun fuel _ => by simp only [tickPrologue, current, state, enqueues]⟩
      | blocked | termed =>
          refine ⟨{ kernel.modifyThread old (fun record => { record with context := context }) with
            currentThread := none }, fun fuel enough => ?_⟩
          rcases stops fuel enough with ⟨after, removes, rfl⟩
          simp only [tickPrologue, current, state, removes, Option.map_some]

/-- A thread that a tick may dispatch: it is ready, not of a zombie process, and a kernel thread
or one with a kernel stack. -/
structure Dispatchable (kernel : Kernel) (t : ℕ) : Prop where
  ready : (kernel.threads t).state = .ready
  owned : kernel.ownedByZombie t = false
  stack : (kernel.threads t).privilege = .ring0 ∨ (kernel.threads t).kernelStack ≠ 0

theorem Dispatchable.runnable (dispatchable : kernel.Dispatchable t) : kernel.Runnable t where
  unblocked := by simp [dispatchable.ready]
  alive := by simp [dispatchable.ready]
  owned := dispatchable.owned
  stack := by
    rintro ⟨ring3, stackless⟩
    rcases dispatchable.stack with ring0 | stack
    · rw [ring3] at ring0
      cases ring0
    · exact stack stackless

theorem Runnable.dispatchable (runnable : kernel.Runnable t)
    (notRunning : (kernel.threads t).state ≠ .running) : kernel.Dispatchable t where
  ready := by
    have unblocked := runnable.unblocked
    have alive := runnable.alive
    revert unblocked alive notRunning
    cases (kernel.threads t).state <;> simp
  owned := runnable.owned
  stack := by
    have stack := runnable.stack
    revert stack
    cases (kernel.threads t).privilege <;> simp

/-- From a well-formed queue with a thread to dispatch the loop ends by dispatching one that it
takes from the queue: of the threads to dispatch that are on the queue after the prologue, the
first one among those with the least cooldown, which the rotation brings to the head first when
its cooldown is used up. -/
theorem tick_dispatches_first {context : Context} (isQueue : kernel.IsReadyQueue queue)
    (unqueued : ∀ old ∈ kernel.currentThread, old ∉ queue)
    (cooldowns : ∀ t ∈ queue ++ kernel.currentThread.toList, 0 ≤ (kernel.threads t).cooldown)
    (notRunning : ∀ t ∈ queue, (kernel.threads t).state ≠ .running)
    (contains : ∃ t ∈ queue, kernel.Dispatchable t) :
    ∃ (saved taken : Kernel) (front : List ℕ) (winner : ℕ) (back : List ℕ) (chosen : Account)
      (least : ℕ),
      (∀ fuel, least ≤ fuel → kernel.tickPrologue fuel context = some saved) ∧
      saved.IsReadyQueue (front ++ winner :: back) ∧
      front ++ winner :: back = queue ++ (kernel.currentThread.filter kernel.awake).toList ∧
      saved.Dispatchable winner ∧
      (∀ other ∈ front, saved.Dispatchable other →
        (kernel.threads winner).cooldown < (kernel.threads other).cooldown) ∧
      (∀ other ∈ back, saved.Dispatchable other →
        (kernel.threads winner).cooldown ≤ (kernel.threads other).cooldown) ∧
      (∀ fuel, least ≤ fuel → Account.loop fuel { Account.opened saved with frame := context }
        .selecting = some (.dispatched, chosen)) ∧
      chosen.kernel.currentThread = some winner ∧
      saved.Dispatches taken winner chosen.kernel ∧ taken.readyHead = some winner := by
  rcases tickPrologue_returns isQueue unqueued context with ⟨saved, saves⟩
  have prepared := tickPrologue_prepared (saves _ (Nat.lt_succ_self _))
  have isQueueSaved := tickPrologue_requeues isQueue unqueued (saves _ (Nat.lt_succ_self _))
  have runnable : ∃ t ∈ queue ++ (kernel.currentThread.filter kernel.awake).toList,
      saved.Runnable t := by
    rcases contains with ⟨t, mem, dispatchable⟩
    exact ⟨t, List.mem_append_left _ mem, prepared.runnable_iff.mpr dispatchable.runnable⟩
  rcases exists_first_least (fun t => (saved.threads t).cooldown) runnable with
    ⟨front, winner, back, split, isRunnable, ahead, behind⟩
  rw [split] at isQueueSaved
  have inQueue : ∀ t ∈ front ++ winner :: back, 0 ≤ (kernel.threads t).cooldown ∧
      (saved.threads t).state ≠ .running := by
    intro t mem
    rw [← split, List.mem_append, Option.mem_toList] at mem
    constructor
    · apply cooldowns t
      rw [List.mem_append, Option.mem_toList]
      exact mem.imp_right (fun isCurrent => (Option.filter_eq_some_iff.mp isCurrent).1)
    · rw [prepared.state t]
      split
      · simp
      · rename_i asleep
        rcases mem with mem | isCurrent
        · exact notRunning t mem
        · exact absurd (Option.filter_eq_some_iff.mp isCurrent).2 asleep
  rcases Int.eq_ofNat_of_zero_le (inQueue winner (by simp)).1 with ⟨amount, isAmount⟩
  have cooldown : (saved.threads winner).cooldown = amount := by
    rw [prepared.cooldown, isAmount]
  have first : saved.ComesFirst front winner back amount :=
    ⟨isQueueSaved, isRunnable, cooldown, fun other mem run => cooldown ▸ ahead other mem run,
      fun other mem run => cooldown ▸ behind other mem run⟩
  rcases first.dispatches with ⟨taken, after, dispatches, isHead⟩
  rcases dispatches.loop { Account.opened saved with frame := context } rfl with
    ⟨chosen, least, rfl, loops⟩
  refine ⟨saved, taken, front, winner, back, chosen, max least (queue.length + 1), ?_, isQueueSaved,
    split.symm, isRunnable.dispatchable (inQueue winner (by simp)).2, ?_, ?_, ?_,
    dispatches.alive.2.2.2, dispatches, isHead⟩
  · exact fun fuel enough => saves fuel (le_trans (le_max_right _ _) enough)
  · intro other mem dispatchable
    simpa only [prepared.cooldown] using ahead other mem dispatchable.runnable
  · intro other mem dispatchable
    simpa only [prepared.cooldown] using behind other mem dispatchable.runnable
  · exact fun fuel enough => loops fuel (le_trans (le_max_left _ _) enough)

end Kernel

/-- The first tick of a started kernel. -/
theorem tick_dispatches_first_started :
    ∃ (saved : Kernel) (winner : ℕ) (chosen : Account) (least : ℕ),
      winner ∈ [0x1100, 0x1000] ∧ chosen.kernel.currentThread = some winner ∧
      ∀ fuel, least ≤ fuel → Account.loop fuel { Account.opened saved with frame := {} }
        .selecting = some (.dispatched, chosen) := by
  have stop : startedKernel.nextOf 0x1100 = none := by decide +kernel
  have current : startedKernel.currentThread = some 0x1000 := by decide +kernel
  have goesOn : startedKernel.awake 0x1000 = true := by decide +kernel
  have isQueue : startedKernel.IsReadyQueue [0x1100] :=
    .of_linked ⟨by decide +kernel, stop⟩ (by decide +kernel)
  have idle : startedKernel.Dispatchable 0x1100 :=
    ⟨by decide +kernel, by decide +kernel, by decide +kernel⟩
  have cooldowns : ∀ t ∈ [0x1100, 0x1000], 0 ≤ (startedKernel.threads t).cooldown := by
    decide +kernel
  have threads : [0x1100] ++ startedKernel.currentThread.toList = [0x1100, 0x1000] := by
    rw [current]
    rfl
  rcases @Kernel.tick_dispatches_first startedKernel [0x1100] {} isQueue (by simp [current])
    (threads ▸ cooldowns) (by decide +kernel) ⟨0x1100, by simp, idle⟩ with
    ⟨saved, _, front, winner, back, chosen, least, _, _, split, _, _, _, loops, isWinner, _⟩
  refine ⟨saved, winner, chosen, least, ?_, isWinner, loops⟩
  rw [current, Option.filter_some, if_pos goesOn] at split
  have mem : winner ∈ front ++ winner :: back := by simp
  rw [split] at mem
  exact mem

end Goshkik

import Goshkik.Lib.SharedLists
import Goshkik.Scheduling.LockSystem
import Goshkik.Scheduling.QueueShape

/-!
# The lists that share `thread_t.next`

The ready queue, the waiter list of every mutex and the wait list of every process
are threaded through one link field.  This file says what the list operations of the
kernel do to all of these lists at once.
-/

namespace Goshkik

inductive ListOwner where
  | ready
  | mutex (m : ℕ)
  | process (p : ℕ)
  deriving DecidableEq

/-- The head and tail pointers of the lists. -/
def listAnchors (kernel : Kernel) (mutexes : ℕ → Mutex) : ListOwner → Anchor ℕ
  | .ready => ⟨kernel.readyHead, kernel.readyTail⟩
  | .mutex m => ⟨(mutexes m).waiterHead, (mutexes m).waiterTail⟩
  | .process p => ⟨(kernel.processes p).waitHead, (kernel.processes p).waitTail⟩

namespace Kernel

/-- A kernel and its mutexes hold the given lists, and no thread is on two of them. -/
def HoldsLists (kernel : Kernel) (mutexes : ℕ → Mutex) (lists : ListOwner → List ℕ) : Prop :=
  SharedLists kernel.nextOf (listAnchors kernel mutexes) lists

/-- Link a thread behind the last thread of a list. -/
def linkBehind (kernel : Kernel) (tail : Option ℕ) (t : ℕ) : Kernel :=
  match tail with
  | none => kernel.setNext t none
  | some last => (kernel.setNext t none).setNext last (some t)

/-- The thread table with the data of its threads that no lock operation writes. -/
structure SameTable (before after : Kernel) : Prop where
  table : after.threadTable = before.threadTable
  tid : ∀ t, (after.threads t).tid = (before.threads t).tid
  privilege : ∀ t, (after.threads t).privilege = (before.threads t).privilege
  kernelStack : ∀ t, (after.threads t).kernelStack = (before.threads t).kernelStack

namespace SameTable

variable {before middle after : Kernel}

theorem refl (kernel : Kernel) : SameTable kernel kernel :=
  ⟨rfl, fun _ => rfl, fun _ => rfl, fun _ => rfl⟩

theorem trans (first : SameTable before middle) (second : SameTable middle after) :
    SameTable before after where
  table := second.table.trans first.table
  tid t := (second.tid t).trans (first.tid t)
  privilege t := (second.privilege t).trans (first.privilege t)
  kernelStack t := (second.kernelStack t).trans (first.kernelStack t)

theorem of_relinked (relinked : Relinked before after) : SameTable before after where
  table := relinked.threadTable
  tid t := by simpa using congrArg Thread.tid (relinked.records t)
  privilege := relinked.privilege
  kernelStack := relinked.kernelStack

theorem modifyThread (kernel : Kernel) {t : ℕ} {change : Thread → Thread}
    (tid : (change (kernel.threads t)).tid = (kernel.threads t).tid)
    (privilege : (change (kernel.threads t)).privilege = (kernel.threads t).privilege)
    (kernelStack : (change (kernel.threads t)).kernelStack = (kernel.threads t).kernelStack) :
    SameTable kernel (kernel.modifyThread t change) := by
  refine ⟨rfl, fun other => ?_, fun other => ?_, fun other => ?_⟩
  all_goals
    by_cases same : other = t
    · subst same
      simp [tid, privilege, kernelStack]
    · rw [modifyThread_threads_ne _ _ _ same]

theorem setState (kernel : Kernel) (t : ℕ) (state : ThreadState) :
    SameTable kernel (kernel.setState t state) :=
  modifyThread kernel rfl rfl rfl

end SameTable

variable {kernel after : Kernel} {mutexes : ℕ → Mutex} {lists : ListOwner → List ℕ}
  {t m p fuel : ℕ} {rest : List ℕ}

theorem Relinked.linkBehind (kernel : Kernel) (tail : Option ℕ) (t : ℕ) :
    Relinked kernel (kernel.linkBehind tail t) := by
  cases tail with
  | none => exact Relinked.setNext kernel t none
  | some last => exact (Relinked.setNext kernel t none).trans (Relinked.setNext _ last (some t))

/-- Writing the state that a thread is in already. -/
theorem Relinked.setState {before : Kernel} (relinked : Relinked before after)
    {state : ThreadState} (isState : (before.threads t).state = state) :
    Relinked before (after.setState t state) := by
  refine relinked.trans ⟨fun other => ?_, rfl⟩
  by_cases same : other = t
  · subst same
    rw [← isState, ← relinked.state other]
    simp [Kernel.setState]
  · rw [Kernel.setState, modifyThread_threads_ne _ _ _ same]

theorem setState_state (kernel : Kernel) (t : ℕ) (state : ThreadState) :
    ((kernel.setState t state).threads t).state = state := by
  simp [setState]

theorem setState_state_ne (kernel : Kernel) {t other : ℕ} (different : other ≠ t)
    (state : ThreadState) :
    ((kernel.setState t state).threads other).state = (kernel.threads other).state := by
  rw [setState, modifyThread_threads_ne _ _ _ different]

@[simp]
theorem nextOf_modifyProcess (kernel : Kernel) (p : ℕ) (change : Process → Process) :
    (kernel.modifyProcess p change).nextOf = kernel.nextOf := rfl

theorem listAnchors_ready {head tail : Option ℕ} (isHead : after.readyHead = head)
    (isTail : after.readyTail = tail) (same : after.processes = kernel.processes) :
    listAnchors after mutexes =
      Function.update (listAnchors kernel mutexes) .ready ⟨head, tail⟩ := by
  subst isHead isTail
  funext owner
  cases owner <;> simp [listAnchors, same]

theorem listAnchors_mutex {mutex : Mutex} {anchor : Anchor ℕ}
    (sameKernel : listAnchors after mutexes = listAnchors kernel mutexes)
    (isHead : mutex.waiterHead = anchor.head) (isTail : mutex.waiterTail = anchor.tail) :
    listAnchors after (Function.update mutexes m mutex) =
      Function.update (listAnchors kernel mutexes) (.mutex m) anchor := by
  funext owner
  have same := congrFun sameKernel owner
  cases owner with
  | ready => simpa [listAnchors] using same
  | process p => simpa [listAnchors] using same
  | mutex other =>
      by_cases isOwner : other = m
      · subst isOwner
        simp [listAnchors, isHead, isTail]
      · simp [listAnchors, isOwner]

theorem listAnchors_process {anchor : Anchor ℕ} (sameHead : after.readyHead = kernel.readyHead)
    (sameTail : after.readyTail = kernel.readyTail)
    (isAnchor : listAnchors after mutexes (.process p) = anchor)
    (others : ∀ other, other ≠ p → after.processes other = kernel.processes other) :
    listAnchors after mutexes =
      Function.update (listAnchors kernel mutexes) (.process p) anchor := by
  funext owner
  cases owner with
  | ready => simp [listAnchors, sameHead, sameTail]
  | mutex m => simp [listAnchors]
  | process other =>
      by_cases isOwner : other = p
      · subst isOwner
        simp [isAnchor]
      · simp [listAnchors, others other isOwner, isOwner]

/-- The lists after the first waiter of a mutex has been made ready. -/
def wokenLists (lists : ListOwner → List ℕ) (m waiter : ℕ) (rest : List ℕ) :
    ListOwner → List ℕ :=
  Function.update (Function.update lists (.mutex m) rest) .ready (lists .ready ++ [waiter])

@[simp]
theorem wokenLists_mutex {waiter : ℕ} : wokenLists lists m waiter rest (.mutex m) = rest := by
  simp [wokenLists]

theorem wokenLists_mutex_ne {waiter other : ℕ} (different : other ≠ m) :
    wokenLists lists m waiter rest (.mutex other) = lists (.mutex other) := by
  simp [wokenLists, different]

namespace HoldsLists

/-- Writing fields of a thread other than its link. -/
theorem modifyThread (holds : kernel.HoldsLists mutexes lists) {change : Thread → Thread}
    (link : (change (kernel.threads t)).next = (kernel.threads t).next) :
    (kernel.modifyThread t change).HoldsLists mutexes lists := by
  have sameLinks : (kernel.modifyThread t change).nextOf = kernel.nextOf := by
    funext other
    by_cases same : other = t
    · subst same
      simpa [nextOf] using link
    · simp [nextOf, modifyThread_threads_ne _ _ _ same]
  unfold HoldsLists
  rw [sameLinks]
  exact holds

theorem setState (holds : kernel.HoldsLists mutexes lists) (t : ℕ) (state : ThreadState) :
    (kernel.setState t state).HoldsLists mutexes lists :=
  holds.modifyThread rfl

/-- Linking a thread that is on no list behind the last thread of one of them. -/
theorem linkBehind (holds : kernel.HoldsLists mutexes lists) {owner : ListOwner}
    (absent : ∀ other, t ∉ lists other) {mutexes' : ℕ → Mutex}
    (links : after.nextOf = (kernel.linkBehind (listAnchors kernel mutexes owner).tail t).nextOf)
    (ends : listAnchors after mutexes' = Function.update (listAnchors kernel mutexes) owner
      ⟨(listAnchors kernel mutexes owner).head.or (some t), some t⟩) :
    after.HoldsLists mutexes' (Function.update lists owner (lists owner ++ [t])) := by
  have notTail : ∀ last, (listAnchors kernel mutexes owner).tail = some last → last ≠ t := by
    rintro last isTail rfl
    exact absent owner (SharedLists.tail_mem holds isTail)
  refine SharedLists.append holds absent ?_ ?_ ?_ ends
  all_goals
    rw [links]
    unfold Kernel.linkBehind
    cases isTail : (listAnchors kernel mutexes owner).tail with
    | none => simp +contextual [nextOf_setNext_ne]
    | some last =>
        have different := notTail last isTail
        simp +contextual [nextOf_setNext_ne, different.symm, eq_comm]

/-- Taking the first thread off a list. -/
theorem pop (holds : kernel.HoldsLists mutexes lists) {owner : ListOwner}
    (isList : lists owner = t :: rest) {mutexes' : ℕ → Mutex}
    (links : ∀ other, other ≠ t → after.nextOf other = kernel.nextOf other)
    (ends : listAnchors after mutexes' = Function.update (listAnchors kernel mutexes) owner
      ⟨kernel.nextOf t, if kernel.nextOf t = none then none
        else (listAnchors kernel mutexes owner).tail⟩) :
    after.HoldsLists mutexes' (Function.update lists owner rest) :=
  SharedLists.pop holds isList links ends

theorem enqueueReadyTail (holds : kernel.HoldsLists mutexes lists)
    (absent : ∀ other, t ∉ lists other) (runs : kernel.enqueueReadyTail t = some after) :
    after.HoldsLists mutexes (Function.update lists .ready (lists .ready ++ [t])) ∧
      Relinked kernel after := by
  have tailless := @SharedLists.tail_eq_none_iff _ _ _ _ _ .ready holds
  simp only [listAnchors] at tailless
  simp only [Kernel.enqueueReadyTail, Kernel.appendReady] at runs
  cases isHead : kernel.readyHead with
  | none =>
      have isTail := tailless.mpr isHead
      simp only [Kernel.setNext, Kernel.modifyThread, isHead, Option.some.injEq] at runs
      have relinked := (Relinked.linkBehind kernel none t).withEnds (some t) (some t)
      rw [← runs]
      refine ⟨holds.linkBehind absent ?_ (listAnchors_ready ?_ ?_ ?_), relinked⟩
      · simp only [listAnchors, isTail]
        rfl
      · simp [listAnchors, isHead]
      · rfl
      · rfl
  | some head =>
      have nonempty : kernel.readyTail ≠ none := by simp [tailless, isHead]
      rcases Option.ne_none_iff_exists'.mp nonempty with ⟨tail, isTail⟩
      simp only [Kernel.setNext, Kernel.modifyThread, isHead, isTail, Option.some.injEq] at runs
      have relinked := (Relinked.linkBehind kernel (some tail) t).withEnds (some head) (some t)
      rw [← runs]
      refine ⟨holds.linkBehind absent ?_ (listAnchors_ready ?_ ?_ ?_), relinked⟩
      · simp only [listAnchors, isTail]
        rfl
      · simp [listAnchors, isHead]
      · rfl
      · rfl

theorem queueWaiter (holds : kernel.HoldsLists mutexes lists) (absent : ∀ other, t ∉ lists other)
    (m : ℕ) :
    (kernel.queueWaiter (mutexes m) t).1.HoldsLists
        (Function.update mutexes m (kernel.queueWaiter (mutexes m) t).2)
        (Function.update lists (.mutex m) (lists (.mutex m) ++ [t])) ∧
      Relinked (kernel.setState t .blocked) (kernel.queueWaiter (mutexes m) t).1 := by
  have tailless := @SharedLists.tail_eq_none_iff _ _ _ _ _ (.mutex m) holds
  simp only [listAnchors] at tailless
  have blocked := holds.setState t .blocked
  cases isTail : (mutexes m).waiterTail with
  | none =>
      have isHead := tailless.mp isTail
      simp only [Kernel.queueWaiter, isTail]
      refine ⟨blocked.linkBehind absent ?_ (listAnchors_mutex ?_ ?_ ?_),
        Relinked.linkBehind _ none t⟩
      · simp only [listAnchors, isTail]
        rfl
      · rfl
      · simp [listAnchors, isHead]
      · rfl
  | some tail =>
      have nonempty : (mutexes m).waiterHead ≠ none := by simp [← tailless, isTail]
      rcases Option.ne_none_iff_exists'.mp nonempty with ⟨head, isHead⟩
      simp only [Kernel.queueWaiter, isTail]
      refine ⟨blocked.linkBehind absent ?_ (listAnchors_mutex ?_ ?_ ?_),
        Relinked.linkBehind _ (some tail) t⟩
      · simp only [listAnchors, isTail]
        rfl
      · rfl
      · simp [listAnchors, isHead]
      · rfl

theorem waitEnqueue (holds : kernel.HoldsLists mutexes lists) (absent : ∀ other, t ∉ lists other)
    (runs : kernel.waitEnqueue p t = some after) :
    after.HoldsLists mutexes (Function.update lists (.process p) (lists (.process p) ++ [t])) ∧
      Relinked { kernel with processes := after.processes } after := by
  have tailless := @SharedLists.tail_eq_none_iff _ _ _ _ _ (.process p) holds
  simp only [listAnchors] at tailless
  simp only [Kernel.waitEnqueue] at runs
  cases isHead : (kernel.processes p).waitHead with
  | none =>
      have isTail := tailless.mpr isHead
      simp only [isHead, Option.some.injEq] at runs
      rw [← runs]
      refine ⟨holds.linkBehind absent ?_ (listAnchors_process rfl rfl ?_ ?_),
        ⟨(Relinked.linkBehind kernel none t).records, rfl⟩⟩
      · simp only [listAnchors, isTail]
        rfl
      · simp [listAnchors, isHead, Kernel.setNext, Kernel.modifyThread, Kernel.modifyProcess]
      · intro other different
        simp [Kernel.setNext, Kernel.modifyThread, Kernel.modifyProcess, different]
  | some head =>
      have nonempty : (kernel.processes p).waitTail ≠ none := by simp [tailless, isHead]
      rcases Option.ne_none_iff_exists'.mp nonempty with ⟨tail, isTail⟩
      simp only [isHead, isTail, Option.some.injEq] at runs
      rw [← runs]
      refine ⟨holds.linkBehind absent ?_ (listAnchors_process rfl rfl ?_ ?_),
        ⟨(Relinked.linkBehind kernel (some tail) t).records, rfl⟩⟩
      · simp only [listAnchors, isTail]
        rfl
      · simp [listAnchors, isHead, Kernel.setNext, Kernel.modifyThread, Kernel.modifyProcess]
      · intro other different
        simp [Kernel.setNext, Kernel.modifyThread, Kernel.modifyProcess, different]

theorem dequeueReadyHead (holds : kernel.HoldsLists mutexes lists)
    (isList : lists .ready = t :: rest) :
    (kernel.dequeueReadyHead t).HoldsLists mutexes (Function.update lists .ready rest) ∧
      Relinked kernel (kernel.dequeueReadyHead t) := by
  refine ⟨holds.pop isList ?_ (listAnchors_ready rfl rfl rfl),
    ((Relinked.refl kernel).withEnds _ _).trans (Relinked.setNext _ t none)⟩
  intro other different
  exact nextOf_setNext_ne none different

theorem isReadyQueue (holds : kernel.HoldsLists mutexes lists) :
    kernel.IsReadyQueue (lists .ready) :=
  .of_linked (SharedLists.linked holds .ready) (SharedLists.tail holds .ready)

/-- Removing a thread that is not on the ready queue. -/
theorem removeFromReadyQueue (holds : kernel.HoldsLists mutexes lists) (absent : t ∉ lists .ready)
    (runs : kernel.removeFromReadyQueue fuel (some t) = some after) : after = kernel := by
  simp only [Kernel.removeFromReadyQueue] at runs
  cases scanned : scan kernel.nextOf (· == t) fuel none kernel.readyHead with
  | none => simp [scanned] at runs
  | some answer =>
      rw [scanned] at runs
      rcases holds.isReadyQueue.scan_eq scanned with ⟨_, stop⟩ | ⟨before, behind, isList, _⟩
      · rcases answer with ⟨trailing, found⟩
        simp only at stop
        subst stop
        simpa using runs.symm
      · exact absurd (by simp [isList]) absent

/-- Clearing the link of a thread that is on no list. -/
theorem clearNext (holds : kernel.HoldsLists mutexes lists) (absent : ∀ owner, t ∉ lists owner) :
    (kernel.setNext t none).HoldsLists mutexes lists := by
  refine SharedLists.congr holds rfl ?_
  intro owner node mem
  apply nextOf_setNext_ne
  rintro rfl
  exact absent owner mem

/-- Making a thread ready that is on no list. -/
theorem addToReadyQueue (holds : kernel.HoldsLists mutexes lists)
    (absent : ∀ owner, t ∉ lists owner)
    (isReady : (kernel.threads t).state = .ready)
    (runs : kernel.addToReadyQueue fuel (some t) = some after) :
    after.HoldsLists mutexes (Function.update lists .ready (lists .ready ++ [t])) ∧
      Relinked kernel after := by
  simp only [Kernel.addToReadyQueue, isReady, reduceCtorEq, if_false] at runs
  cases scanned : scan kernel.nextOf (· == t) fuel none kernel.readyHead with
  | none => simp [scanned] at runs
  | some answer =>
      rw [scanned] at runs
      rcases holds.isReadyQueue.scan_eq scanned with ⟨_, stop⟩ | ⟨before, behind, isList, _⟩
      · rcases answer with ⟨trailing, found⟩
        simp only at stop
        subst stop
        have ready := (holds.clearNext absent).setState t .ready
        rcases ready.enqueueReadyTail absent runs with ⟨holdsAfter, relinked⟩
        exact ⟨holdsAfter, ((Relinked.setNext kernel t none).setState isReady).trans relinked⟩
      · exact absurd (by simp [isList]) (absent .ready)

/-- `release_mutex` does nothing, gives up a mutex without waiters, or makes the first
waiter ready. -/
theorem releaseMutex (holds : kernel.HoldsLists mutexes lists) {released : Mutex}
    (runs : kernel.releaseMutex fuel (mutexes m) = some (after, released)) :
    ((mutexes m).owner ≠ kernel.currentThread ∧ after = kernel ∧ released = mutexes m) ∨
      (lists (.mutex m) = [] ∧ after = kernel ∧
        released = { mutexes m with locked := false, owner := none }) ∨
      ∃ waiter rest, (mutexes m).owner = kernel.currentThread ∧
        lists (.mutex m) = waiter :: rest ∧
        released.waiterCount = (mutexes m).waiterCount - 1 ∧
        Relinked (kernel.setState waiter .ready) after ∧
        after.HoldsLists (Function.update mutexes m released)
          (wokenLists lists m waiter rest) := by
  simp only [Kernel.releaseMutex] at runs
  split at runs
  · rename_i notOwner
    simp only [Option.some.injEq, Prod.mk.injEq] at runs
    exact .inl ⟨notOwner, runs.1.symm, runs.2.symm⟩
  · rename_i isOwner
    rw [not_not] at isOwner
    have linked := SharedLists.linked holds (.mutex m)
    cases isHead : (mutexes m).waiterHead with
    | none =>
        simp only [isHead, Option.some.injEq, Prod.mk.injEq] at runs
        have empty := linked.head_eq_none_iff.mp isHead
        exact .inr (.inl ⟨empty, runs.1.symm, by simp [← runs.2, isHead]⟩)
    | some waiter =>
        simp only [isHead, Option.map_eq_some_iff, Prod.mk.injEq] at runs
        rcases runs with ⟨woken, adds, rfl, rfl⟩
        obtain ⟨rest, isList⟩ : ∃ rest, lists (.mutex m) = waiter :: rest := by
          cases isList : lists (.mutex m) with
          | nil =>
              rw [isList, Linked.nil_iff] at linked
              exact absurd (linked.symm.trans isHead) (by simp)
          | cons first rest =>
              rw [isList] at linked
              rcases Option.some.inj (linked.1.symm.trans isHead)
              exact ⟨rest, rfl⟩
        refine .inr (.inr ⟨waiter, rest, isOwner, isList, rfl, ?_⟩)
        have absent := SharedLists.notMem_pop holds isList
        have popped : kernel.HoldsLists _ _ :=
          holds.pop isList (fun _ _ => rfl)
            (listAnchors_mutex rfl rfl rfl : listAnchors kernel (Function.update mutexes m
              (kernel.popWaiter { mutexes m with locked := false, owner := none } waiter)) = _)
        rcases (popped.setState waiter .ready).addToReadyQueue absent
          (setState_state kernel waiter .ready) adds with ⟨holdsAfter, relinked⟩
        refine ⟨relinked, ?_⟩
        simpa [isHead, wokenLists] using holdsAfter

/-- The threads on the lists after a waiter has been made ready. -/
theorem mem_wokenLists (holds : kernel.HoldsLists mutexes lists) {waiter : ℕ}
    (isList : lists (.mutex m) = waiter :: rest) {owner : ListOwner}
    (mem : t ∈ wokenLists lists m waiter rest owner) :
    (t ≠ waiter ∧ t ∈ lists owner) ∨ (t = waiter ∧ owner = .ready) := by
  have popped := SharedLists.notMem_pop holds isList
  have before : ∀ {owner : ListOwner} {t : ℕ}, t ∈ Function.update lists (.mutex m) rest owner →
      t ∈ lists owner :=
    SharedLists.mem_update (fun t mem => by simp [isList, mem])
  have ready : wokenLists lists m waiter rest = Function.update (Function.update lists (.mutex m)
      rest) .ready (Function.update lists (.mutex m) rest .ready ++ [waiter]) := by
    simp [wokenLists]
  rw [ready] at mem
  rcases SharedLists.mem_update_append.mp mem with stays | isLast
  · left
    refine ⟨?_, before stays⟩
    rintro rfl
    exact popped owner stays
  · exact .inr isLast

theorem mem_wokenLists_mutex {waiter other : ℕ} (isList : lists (.mutex m) = waiter :: rest)
    (different : t ≠ waiter) (mem : t ∈ lists (.mutex other)) :
    t ∈ wokenLists lists m waiter rest (.mutex other) := by
  by_cases same : other = m
  · subst same
    rw [isList] at mem
    rw [wokenLists_mutex]
    exact (List.mem_cons.mp mem).resolve_left different
  · rwa [wokenLists_mutex_ne same]

end HoldsLists

end Kernel

end Goshkik

import Goshkik.Scheduling.Tick

/-!
# What the queue functions do to a well-formed queue

`IsReadyQueue kernel queue` says that the list from `ready_head` is `queue`, that
it visits no thread twice, and that `ready_tail` is its last thread.  The lemmas
of this file give the list after each queue function, together with the fact
that only links, head and tail have changed.
-/

namespace Goshkik

namespace Kernel

structure IsReadyQueue (kernel : Kernel) (queue : List ℕ) : Prop where
  linked : Linked kernel.nextOf kernel.readyHead queue
  distinct : queue.Nodup
  tail : kernel.readyTail = queue.getLast?

/-- Two kernels that differ only in the links, the head and the tail of the queue. -/
structure Relinked (before after : Kernel) : Prop where
  records : ∀ t, { after.threads t with next := none } = { before.threads t with next := none }
  rest : { after with
    threads := before.threads
    readyHead := before.readyHead
    readyTail := before.readyTail } = before

namespace Relinked

variable {before middle after : Kernel}

theorem state (relinked : Relinked before after) (t : ℕ) :
    (after.threads t).state = (before.threads t).state := by
  simpa using congrArg Thread.state (relinked.records t)

theorem privilege (relinked : Relinked before after) (t : ℕ) :
    (after.threads t).privilege = (before.threads t).privilege := by
  simpa using congrArg Thread.privilege (relinked.records t)

theorem priority (relinked : Relinked before after) (t : ℕ) :
    (after.threads t).priority = (before.threads t).priority := by
  simpa using congrArg Thread.priority (relinked.records t)

theorem kernelStack (relinked : Relinked before after) (t : ℕ) :
    (after.threads t).kernelStack = (before.threads t).kernelStack := by
  simpa using congrArg Thread.kernelStack (relinked.records t)

theorem proc (relinked : Relinked before after) (t : ℕ) :
    (after.threads t).proc = (before.threads t).proc := by
  simpa using congrArg Thread.proc (relinked.records t)

theorem cooldown (relinked : Relinked before after) (t : ℕ) :
    (after.threads t).cooldown = (before.threads t).cooldown := by
  simpa using congrArg Thread.cooldown (relinked.records t)

theorem processes (relinked : Relinked before after) : after.processes = before.processes :=
  (congrArg Kernel.processes relinked.rest :)

theorem threadBlocks (relinked : Relinked before after) :
    after.threadBlocks = before.threadBlocks :=
  (congrArg Kernel.threadBlocks relinked.rest :)

theorem threadTable (relinked : Relinked before after) :
    after.threadTable = before.threadTable :=
  (congrArg Kernel.threadTable relinked.rest :)

theorem currentThread (relinked : Relinked before after) :
    after.currentThread = before.currentThread :=
  (congrArg Kernel.currentThread relinked.rest :)

theorem refl (kernel : Kernel) : Relinked kernel kernel := ⟨fun _ => rfl, rfl⟩

theorem trans (first : Relinked before middle) (second : Relinked middle after) :
    Relinked before after := by
  refine ⟨fun t => (second.records t).trans (first.records t), ?_⟩
  have rest := first.rest
  rw [← second.rest] at rest
  exact rest

theorem setNext (kernel : Kernel) (t : ℕ) (link : Option ℕ) :
    Relinked kernel (kernel.setNext t link) := by
  refine ⟨fun other => ?_, rfl⟩
  by_cases same : other = t
  · subst same
    simp [Kernel.setNext]
  · simp [Kernel.setNext, modifyThread_threads_ne _ _ _ same]

theorem withEnds (relinked : Relinked before after) (head tail : Option ℕ) :
    Relinked before { after with readyHead := head, readyTail := tail } :=
  ⟨relinked.records, relinked.rest⟩

variable {t fuel : ℕ}

/-! The functions on the queue write nothing else, whatever the queue looks like. -/

theorem appendReady (runs : before.appendReady t = some after) : Relinked before after := by
  simp only [Kernel.appendReady] at runs
  split at runs
  · cases runs
    exact (refl before).withEnds _ _
  · split at runs
    · cases runs
    · rename_i tail _
      cases runs
      exact (setNext before tail (some t)).withEnds _ _

theorem enqueueReadyTail (runs : before.enqueueReadyTail t = some after) : Relinked before after :=
  (setNext before t none).trans (appendReady runs)

theorem dequeueReadyHead (kernel : Kernel) (head : ℕ) :
    Relinked kernel (kernel.dequeueReadyHead head) :=
  ((refl kernel).withEnds _ _).trans (setNext _ head none)

theorem unlinkReady (kernel : Kernel) (prev : Option ℕ) (t : ℕ) :
    Relinked kernel (kernel.unlinkReady prev t) := by
  cases prev with
  | none => exact ((refl kernel).withEnds _ _).trans (setNext _ t none)
  | some trailing =>
      exact ((setNext kernel trailing _).withEnds _ _).trans (setNext _ t none)

theorem removeFromReadyQueue {target : Option ℕ}
    (runs : before.removeFromReadyQueue fuel target = some after) : Relinked before after := by
  cases target with
  | none =>
      cases runs
      exact refl before
  | some t =>
      simp only [Kernel.removeFromReadyQueue] at runs
      split at runs
      · cases runs
      · cases runs
        exact refl before
      · rename_i prev found _
        cases runs
        exact unlinkReady before prev found

end Relinked

variable {kernel after : Kernel} {queue rest : List ℕ} {t fuel : ℕ}

theorem skips_of_notMem (absent : t ∉ queue) : ∀ other ∈ queue, (other == t) = false := by
  intro other mem
  rw [beq_eq_false_iff_ne]
  rintro rfl
  exact absent mem

/-- The last thread once `t` is gone: the one before it if `t` was the last. -/
theorem getLast?_unlink {before behind : List ℕ} (absent : t ∉ before ++ behind) :
    (if (before ++ t :: behind).getLast? = some t then before.getLast?
      else (before ++ t :: behind).getLast?) = (before ++ behind).getLast? := by
  cases behind with
  | nil => simp
  | cons first behind =>
      have sameLast : (before ++ t :: first :: behind).getLast? =
          (before ++ first :: behind).getLast? := by
        simp [List.getLast?_append, List.getLast?_cons_cons]
      rw [sameLast, if_neg]
      intro last
      exact absent (List.mem_of_getLast? last)

@[simp]
theorem nextOf_setNext_same (link : Option ℕ) : (kernel.setNext t link).nextOf t = link := by
  simp [nextOf, setNext]

theorem nextOf_setNext_ne (link : Option ℕ) {other : ℕ} (different : other ≠ t) :
    (kernel.setNext t link).nextOf other = kernel.nextOf other := by
  simp [nextOf, setNext, modifyThread_threads_ne _ _ _ different]

namespace IsReadyQueue

theorem of_linked (linked : Linked kernel.nextOf kernel.readyHead queue)
    (tail : kernel.readyTail = queue.getLast?) : kernel.IsReadyQueue queue :=
  ⟨linked, linked.nodup, tail⟩

theorem congr (isQueue : kernel.IsReadyQueue queue) (head : after.readyHead = kernel.readyHead)
    (tail : after.readyTail = kernel.readyTail)
    (agree : ∀ node ∈ queue, after.nextOf node = kernel.nextOf node) :
    after.IsReadyQueue queue := by
  apply of_linked
  · rw [head]
    exact isQueue.linked.congr agree
  · rw [tail]
    exact isQueue.tail

theorem setNext (isQueue : kernel.IsReadyQueue queue) (absent : t ∉ queue) (link : Option ℕ) :
    (kernel.setNext t link).IsReadyQueue queue := by
  refine @congr kernel (kernel.setNext t link) queue isQueue rfl rfl ?_
  intro node mem
  apply nextOf_setNext_ne
  rintro rfl
  exact absent mem

theorem modifyThread (isQueue : kernel.IsReadyQueue queue) {change : Thread → Thread}
    (link : (change (kernel.threads t)).next = (kernel.threads t).next) :
    (kernel.modifyThread t change).IsReadyQueue queue := by
  refine @congr kernel (kernel.modifyThread t change) queue isQueue rfl rfl ?_
  intro node _
  by_cases same : node = t
  · subst same
    simpa [nextOf] using link
  · simp [nextOf, modifyThread_threads_ne _ _ _ same]

/-- Appending a thread that is not queued and has no link. -/
theorem appendReady (isQueue : kernel.IsReadyQueue queue) (absent : t ∉ queue)
    (stop : kernel.nextOf t = none) :
    ∃ after, kernel.appendReady t = some after ∧ after.IsReadyQueue (queue ++ [t]) ∧
      Relinked kernel after := by
  rcases List.eq_nil_or_concat queue with rfl | ⟨front, last, rfl⟩
  · have head : kernel.readyHead = none := isQueue.linked
    refine ⟨{ kernel with readyHead := some t, readyTail := some t },
      by simp only [Kernel.appendReady, head], ?_, (Relinked.refl kernel).withEnds _ _⟩
    exact of_linked ⟨rfl, stop⟩ rfl
  · simp only [List.concat_eq_append] at isQueue absent ⊢
    have tail : kernel.readyTail = some last := by simpa using isQueue.tail
    have nonempty : kernel.readyHead ≠ none := by
      simp [isQueue.linked.head_eq_none_iff]
    rcases Option.ne_none_iff_exists'.mp nonempty with ⟨head, headEq⟩
    refine ⟨{ kernel.setNext last (some t) with readyTail := some t },
      by simp only [Kernel.appendReady, headEq, tail], ?_,
      (Relinked.setNext kernel last (some t)).withEnds _ _⟩
    have distinct := isQueue.distinct
    apply of_linked
    · apply isQueue.linked.append_last
      · exact nextOf_setNext_same (some t)
      · refine (nextOf_setNext_ne (some t) ?_).trans stop
        rintro rfl
        simp at absent
      · intro other mem
        apply nextOf_setNext_ne
        rintro rfl
        simp only [List.nodup_append, List.mem_singleton, forall_eq] at distinct
        exact distinct.2.2 other mem rfl
    · simp

theorem nextOf_tail (isQueue : kernel.IsReadyQueue queue) (isTail : kernel.readyTail = some t) :
    kernel.nextOf t = none := by
  rcases List.getLast?_eq_some_iff.mp (isQueue.tail.symm.trans isTail) with ⟨front, rfl⟩
  exact isQueue.linked.next_eq

theorem enqueueReadyTail (isQueue : kernel.IsReadyQueue queue) (absent : t ∉ queue) :
    ∃ after, kernel.enqueueReadyTail t = some after ∧ after.IsReadyQueue (queue ++ [t]) ∧
      Relinked kernel after := by
  rcases (isQueue.setNext absent none).appendReady absent (nextOf_setNext_same none) with
    ⟨after, runs, isQueueAfter, relinked⟩
  exact ⟨after, runs, isQueueAfter, (Relinked.setNext kernel t none).trans relinked⟩

theorem dequeueReadyHead (isQueue : kernel.IsReadyQueue (t :: rest)) :
    (kernel.dequeueReadyHead t).IsReadyQueue rest ∧
      Relinked kernel (kernel.dequeueReadyHead t) := by
  have absent : t ∉ rest := (List.nodup_cons.mp isQueue.distinct).1
  have link : Linked kernel.nextOf (kernel.nextOf t) rest := isQueue.linked.2
  refine ⟨?_, ((Relinked.refl kernel).withEnds _ _).trans (Relinked.setNext _ t none)⟩
  apply setNext _ absent
  apply of_linked
  · exact link
  · simp only [link.head_eq_none_iff, isQueue.tail]
    cases rest with
    | nil => simp
    | cons first rest => simp [List.getLast?_cons_cons]

/-- The pointer pair that the loops of this file stop at. -/
theorem scan_eq (isQueue : kernel.IsReadyQueue queue) {answer : Option ℕ × Option ℕ}
    (returns : scan kernel.nextOf (· == t) fuel none kernel.readyHead = some answer) :
    (t ∉ queue ∧ answer.2 = none) ∨
      ∃ before behind, queue = before ++ t :: behind ∧ t ∉ before ∧
        answer = (before.getLast?, some t) := by
  have returns := scan_mono returns (Nat.le_max_left fuel (queue.length + 1))
  have enough : queue.length < max fuel (queue.length + 1) := by omega
  by_cases mem : t ∈ queue
  · right
    rcases List.eq_append_cons_of_mem mem with ⟨before, behind, rfl, absent⟩
    refine ⟨before, behind, rfl, absent, ?_⟩
    rw [scan_found isQueue.linked (skips_of_notMem absent) (by simp)
      (by simp only [List.length_append] at enough ⊢; omega)] at returns
    simpa using returns.symm
  · left
    rw [scan_missing isQueue.linked (skips_of_notMem mem) enough] at returns
    exact ⟨mem, by simp [← Option.some.inj returns]⟩

/-- The loops of this file end. -/
theorem scan_returns (isQueue : kernel.IsReadyQueue queue) (t : ℕ) :
    ∃ fuel answer, scan kernel.nextOf (· == t) fuel none kernel.readyHead = some answer := by
  refine ⟨queue.length + 1, ?_⟩
  by_cases mem : t ∈ queue
  · rcases List.eq_append_cons_of_mem mem with ⟨before, behind, rfl, absent⟩
    exact ⟨_, scan_found isQueue.linked (skips_of_notMem absent) (by simp)
      (by rw [List.length_append]; omega)⟩
  · exact ⟨_, scan_missing isQueue.linked (skips_of_notMem mem) (by omega)⟩

/-- Unlinking a queued thread whose predecessor is known. -/
theorem unlinkReady {before behind : List ℕ}
    (isQueue : kernel.IsReadyQueue (before ++ t :: behind)) :
    (kernel.unlinkReady before.getLast? t).IsReadyQueue (before ++ behind) ∧
      Relinked kernel (kernel.unlinkReady before.getLast? t) := by
  have distinct := isQueue.distinct
  rw [List.nodup_middle, List.nodup_cons] at distinct
  have absent : t ∉ before ++ behind := distinct.1
  have tail := getLast?_unlink absent
  rw [← isQueue.tail] at tail
  rcases List.eq_nil_or_concat before with rfl | ⟨front, last, rfl⟩
  · refine ⟨?_, ((Relinked.refl kernel).withEnds _ _).trans (Relinked.setNext _ t none)⟩
    apply setNext _ absent
    apply of_linked
    · exact isQueue.linked.2
    · exact tail
  · simp only [List.concat_eq_append, List.getLast?_append, List.getLast?_singleton,
      Option.some_or] at isQueue absent tail ⊢
    refine ⟨?_, ((Relinked.setNext kernel last _).withEnds _ _).trans (Relinked.setNext _ t none)⟩
    apply setNext _ absent
    apply of_linked
    · change Linked (kernel.setNext last (kernel.nextOf t)).nextOf kernel.readyHead _
      apply isQueue.linked.unlink_at
      · simp
      · simp
      · intro other mem notLast
        apply nextOf_setNext_ne
        rintro rfl
        simp at notLast
    · simp only [List.getLast?_append, List.getLast?_singleton, Option.some_or]
      exact tail

theorem removeFromReadyQueue (isQueue : kernel.IsReadyQueue queue)
    (runs : kernel.removeFromReadyQueue fuel (some t) = some after) :
    after.IsReadyQueue (queue.erase t) ∧ Relinked kernel after := by
  simp only [Kernel.removeFromReadyQueue] at runs
  cases scanned : scan kernel.nextOf (· == t) fuel none kernel.readyHead with
  | none => simp [scanned] at runs
  | some answer =>
      rw [scanned] at runs
      rcases isQueue.scan_eq scanned with ⟨missing, stop⟩ | ⟨before, behind, rfl, absent, rfl⟩
      · rcases answer with ⟨trailing, found⟩
        simp only at stop
        subst stop
        simp only [Option.some.injEq] at runs
        rw [← runs, List.erase_of_not_mem missing]
        exact ⟨isQueue, Relinked.refl kernel⟩
      · simp only [Option.some.injEq] at runs
        rw [← runs, List.erase_append_right _ absent, List.erase_cons_head]
        exact isQueue.unlinkReady

theorem removeFromReadyQueue_returns (isQueue : kernel.IsReadyQueue queue) (t : ℕ) :
    ∃ fuel after, kernel.removeFromReadyQueue fuel (some t) = some after := by
  rcases isQueue.scan_returns t with ⟨fuel, ⟨trailing, found⟩, scanned⟩
  refine ⟨fuel, ?_⟩
  simp only [Kernel.removeFromReadyQueue, scanned]
  cases found with
  | none => exact ⟨_, rfl⟩
  | some found => exact ⟨_, rfl⟩

end IsReadyQueue

end Kernel

end Goshkik

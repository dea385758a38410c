import Goshkik.Scheduling.Spinlock

/-!
# The interrupt flag over a pair of acquire and release

With interrupts disabled a pair leaves the flag alone: it writes `had_interrupt` before it
reads it, and what it writes is that interrupts are disabled.  With interrupts enabled the
same holds of every handler, so that a handler which uses the lock and comes between the
write of `had_interrupt` and the `cli` leaves a zero behind, and the release does not enable
interrupts again.
-/

namespace Goshkik

open Transition

variable {Lock : Type} [DecidableEq Lock]

namespace SpinCpu

variable {cpu : SpinCpu Lock} {instruction : SpinInstruction Lock}
  {code rest : List (SpinInstruction Lock)} {lock : Lock}

/-- Interrupts are disabled, and what the code still reads was written since. -/
structure Masked (cpu : SpinCpu Lock) (code : List (SpinInstruction Lock)) : Prop where
  disabled : cpu.interrupts = false
  flag : usesFlag code = true → cpu.flag = false
  had : ∀ lock, usesHad lock code = true → cpu.hadInterrupt lock = false

/-- Sections begin masked if what comes behind them does. -/
theorem masked_sections (sections : Sections code) (disabled : cpu.interrupts = false)
    (flag : usesFlag rest = false)
    (had : ∀ lock, usesHad lock rest = true → .storeHadInterrupt lock ∈ code) :
    cpu.Masked (code ++ rest) where
  disabled := disabled
  flag uses := by
    have later := sections.usesFlag_append uses
    simp [flag] at later
  had lock uses := by
    have later := sections.usesHad_append uses
    exact absurd (had lock later.1) later.2

theorem masked_of_sections (sections : Sections code) (disabled : cpu.interrupts = false) :
    cpu.Masked code := by
  rw [← List.append_nil code]
  exact masked_sections sections disabled rfl (fun lock uses => by cases uses)

/-- Masked code stays masked, or waits for a lock. -/
theorem Masked.execute (masked : cpu.Masked (instruction :: rest))
    (behind : List (SpinInstruction Lock)) :
    cpu.execute behind instruction = cpu ∨ (cpu.execute behind instruction).code = behind ∧
      (cpu.execute behind instruction).Masked rest := by
  rcases masked with ⟨disabled, flag, had⟩
  cases instruction with
  | haveInterrupt => exact .inr ⟨rfl, disabled, fun _ => disabled, had⟩
  | storeHadInterrupt lock =>
      refine .inr ⟨rfl, disabled, fun _ => flag rfl, ?_⟩
      intro other uses
      by_cases same : other = lock
      · subst same
        simpa [SpinCpu.execute] using flag rfl
      · have kept := had other (by simpa [usesHad, Ne.symm same] using uses)
        simpa [SpinCpu.execute, same] using kept
  | disableInterrupt => exact .inr ⟨rfl, rfl, flag, had⟩
  | testAndSet lock =>
      by_cases isLocked : cpu.locked lock = true
      · exact .inl (by simp [SpinCpu.execute, isLocked])
      · refine .inr ?_
        simp only [SpinCpu.execute, isLocked, Bool.false_eq_true, if_false]
        exact ⟨trivial, disabled, flag, had⟩
  | clear lock => exact .inr ⟨rfl, disabled, flag, had⟩
  | loadHadInterrupt lock =>
      have read : cpu.hadInterrupt lock = false := had lock (by simp [usesHad])
      refine .inr ⟨rfl, disabled, fun _ => read, ?_⟩
      intro other uses
      apply had other
      simp [usesHad, uses]
  | enableInterruptIf =>
      have clear : (cpu.interrupts || cpu.flag) = false := by
        simp [disabled, flag rfl]
      exact .inr ⟨rfl, clear, fun _ => flag rfl, had⟩
  | other => exact .inr ⟨rfl, disabled, flag, had⟩

/-- Masked code writes zeros to `had_interrupt`. -/
theorem Masked.execute_had (masked : cpu.Masked (instruction :: rest))
    (behind : List (SpinInstruction Lock)) (lock : Lock) :
    (cpu.execute behind instruction).hadInterrupt lock =
      if instruction = .storeHadInterrupt lock then false else cpu.hadInterrupt lock := by
  cases instruction with
  | storeHadInterrupt other =>
      by_cases same : other = lock
      · subst same
        simpa [SpinCpu.execute] using masked.flag rfl
      · simp [SpinCpu.execute, same, Ne.symm same]
  | testAndSet other =>
      simp only [SpinCpu.execute, reduceCtorEq, if_false]
      split <;> rfl
  | _ => rfl

theorem execute_suspended (cpu : SpinCpu Lock) (rest : List (SpinInstruction Lock))
    (instruction : SpinInstruction Lock) :
    (cpu.execute rest instruction).suspended = cpu.suspended := by
  cases instruction with
  | testAndSet lock =>
      simp only [SpinCpu.execute]
      split <;> rfl
  | _ => rfl

/-- A lock that is taken stays so while the code would take it first. -/
theorem execute_stuck (isLocked : cpu.locked lock = true)
    (takes : takesFirst lock (instruction :: rest) = true) :
    (cpu.execute rest instruction).locked lock = true ∧
      (cpu.execute rest instruction = cpu ∨ takesFirst lock rest = true) := by
  cases instruction with
  | testAndSet other =>
      by_cases same : other = lock
      · subst same
        simp [SpinCpu.execute, isLocked]
      · simp only [takesFirst, same, if_false] at takes
        simp only [SpinCpu.execute]
        split
        · exact ⟨isLocked, .inl rfl⟩
        · exact ⟨by simpa [Ne.symm same] using isLocked, .inr takes⟩
  | clear other =>
      by_cases same : other = lock
      · simp [takesFirst, same] at takes
      · simp only [takesFirst, same, if_false] at takes
        exact ⟨by simpa [SpinCpu.execute, Ne.symm same] using isLocked, .inr takes⟩
  | _ => exact ⟨isLocked, .inr takes⟩

end SpinCpu

/-! ## A pair in a run -/

/-- The code before the `cli` of a pair, once `had_interrupt` is written. -/
def spinlockWindow (lock : Lock) (body : List (SpinInstruction Lock)) :
    List (SpinInstruction Lock) :=
  .disableInterrupt :: .testAndSet lock :: (body ++ spinlockRelease lock)

/-- An interrupt comes in the window of a pair, and its handler uses the lock. -/
def SpinLabel.overwrites (lock : Lock) (body : List (SpinInstruction Lock)) :
    SpinLabel Lock → Bool
  | .interrupt interrupted handler =>
      interrupted = spinlockWindow lock body && .storeHadInterrupt lock ∈ handler
  | _ => false

/-- The code of a pair while its interrupts have not been disabled yet: what it knows of the
flag, of `had_interrupt`, and of a write to it that is still to come from a handler. -/
inductive Early (lock : Lock) (body : List (SpinInstruction Lock)) (before overwritten : Bool)
    (pending : Prop) (had : Bool) : List (SpinInstruction Lock) → Bool → Prop where
  | begins {flag : Bool} (clean : overwritten = false) :
      Early lock body before overwritten pending had
        (spinlockAcquire lock ++ body ++ spinlockRelease lock) flag
  | stores (clean : overwritten = false) :
      Early lock body before overwritten pending had
        (.storeHadInterrupt lock :: spinlockWindow lock body) before
  | window {flag : Bool} (comes : pending → overwritten = true)
      (came : ¬pending → had = (before && !overwritten)) :
      Early lock body before overwritten pending had (spinlockWindow lock body) flag

/-- How far a pair has come. -/
inductive PairProgress (lock : Lock) (body : List (SpinInstruction Lock))
    (before overwritten : Bool) (cpu : SpinCpu Lock) : Prop where
  | early (alone : cpu.suspended = []) (interrupts : cpu.interrupts = before)
      (early : Early lock body before overwritten False (cpu.hadInterrupt lock) cpu.code cpu.flag)
  | handling {interrupted : Interrupted Lock} (beneath : cpu.suspended = [interrupted])
      (enabled : interrupted.interrupts = true) (masked : cpu.Masked cpu.code)
      (resumes : before = true ∧ Early lock body before overwritten
          (.storeHadInterrupt lock ∈ cpu.code) (cpu.hadInterrupt lock) interrupted.code
          interrupted.flag ∨
        interrupted.code = [] ∧ (before && !overwritten) = true)
  | locking (alone : cpu.suspended = []) (disabled : cpu.interrupts = false)
      (code : cpu.code = .testAndSet lock :: (body ++ spinlockRelease lock))
      (had : cpu.hadInterrupt lock = (before && !overwritten))
  | stuck (alone : cpu.suspended = []) (masked : cpu.Masked cpu.code)
      (isLocked : cpu.locked lock = true) (takes : takesFirst lock cpu.code = true)
  | inside {rest : List (SpinInstruction Lock)} (alone : cpu.suspended = [])
      (code : cpu.code = rest ++ spinlockRelease lock) (masked : cpu.Masked rest)
      (keeps : .storeHadInterrupt lock ∉ rest)
      (had : cpu.hadInterrupt lock = (before && !overwritten))
  | loading (alone : cpu.suspended = []) (disabled : cpu.interrupts = false)
      (code : cpu.code = [.loadHadInterrupt lock, .enableInterruptIf])
      (had : cpu.hadInterrupt lock = (before && !overwritten))
  | enabling (alone : cpu.suspended = []) (disabled : cpu.interrupts = false)
      (code : cpu.code = [.enableInterruptIf]) (flag : cpu.flag = (before && !overwritten))
  | done (alone : cpu.suspended = []) (code : cpu.code = [])
      (interrupts : cpu.interrupts = (before && !overwritten))

namespace PairProgress

variable {lock : Lock} {body : List (SpinInstruction Lock)} {before overwritten : Bool}
  {cpu after : SpinCpu Lock}

/-- The interrupt flag at the end of the pair. -/
theorem finished (progress : PairProgress lock body before overwritten cpu)
    (code : cpu.code = []) (alone : cpu.suspended = []) :
    cpu.interrupts = (before && !overwritten) := by
  cases progress with
  | early _ interrupts early =>
      rw [code] at early
      cases early
  | handling beneath => simp [alone] at beneath
  | locking _ _ here => simp [code] at here
  | stuck _ _ _ takes => simp [code, takesFirst] at takes
  | inside _ here => simp [code, spinlockRelease] at here
  | loading _ _ here => simp [code] at here
  | enabling _ _ here => simp [code] at here
  | done _ _ interrupts => exact interrupts

omit [DecidableEq Lock] in
theorem Early.weaken {pending pendingAfter : Prop} {had hadAfter flag : Bool}
    {code : List (SpinInstruction Lock)}
    (early : Early lock body before overwritten pending had code flag)
    (comes : pendingAfter → pending)
    (came : ¬pendingAfter → pending ∧ hadAfter = false ∨ ¬pending ∧ hadAfter = had) :
    Early lock body before overwritten pendingAfter hadAfter code flag := by
  cases early with
  | begins clean => exact .begins clean
  | stores clean => exact .stores clean
  | window comesBefore cameBefore =>
      refine .window (fun later => comesBefore (comes later)) (fun absent => ?_)
      rcases came absent with ⟨was, zero⟩ | ⟨wasNot, same⟩
      · simp [zero, comesBefore was]
      · rw [same]
        exact cameBefore wasNot

/-- The next instruction of a pair that has not disabled interrupts yet. -/
theorem early_execute {instruction : SpinInstruction Lock} {rest : List (SpinInstruction Lock)}
    (alone : cpu.suspended = []) (interrupts : cpu.interrupts = before)
    (early : Early lock body before overwritten False (cpu.hadInterrupt lock) cpu.code cpu.flag)
    (next : cpu.code = instruction :: rest) :
    PairProgress lock body before overwritten (cpu.execute rest instruction) := by
  rw [next] at early
  generalize flagEq : cpu.flag = flag at early
  generalize codeEq : instruction :: rest = code at early
  cases early with
  | begins clean =>
      cases codeEq
      refine .early alone interrupts ?_
      rw [← interrupts]
      exact .stores clean
  | stores clean =>
      cases codeEq
      refine .early alone interrupts (.window False.elim (fun _ => ?_))
      simp [SpinCpu.execute, flagEq, clean]
  | window comes came =>
      cases codeEq
      exact .locking alone rfl rfl (came not_false)

/-- Taking the lock. -/
theorem locking_execute (sections : Sections body) (alone : cpu.suspended = [])
    (disabled : cpu.interrupts = false) (had : cpu.hadInterrupt lock = (before && !overwritten))
    (code : cpu.code = .testAndSet lock :: (body ++ spinlockRelease lock)) :
    PairProgress lock body before overwritten
      (cpu.execute (body ++ spinlockRelease lock) (.testAndSet lock)) := by
  by_cases isLocked : cpu.locked lock = true
  · have same : cpu.execute (body ++ spinlockRelease lock) (.testAndSet lock) = cpu := by
      simp [SpinCpu.execute, isLocked]
    rw [same]
    exact .locking alone disabled code had
  · have taken : cpu.execute (body ++ spinlockRelease lock) (.testAndSet lock) =
        { cpu with
          locked := Function.update cpu.locked lock true
          code := body ++ spinlockRelease lock } := by
      simp [SpinCpu.execute, isLocked]
    rw [taken]
    by_cases again : .storeHadInterrupt lock ∈ body
    · refine .stuck alone (SpinCpu.masked_sections sections disabled rfl ?_) (by simp)
        (sections.takesFirst_append again)
      intro other uses
      have same : lock = other := by
        by_contra different
        simp [spinlockRelease, usesHad, different] at uses
      exact same ▸ again
    · exact .inside alone rfl (SpinCpu.masked_of_sections sections disabled) again had

/-- An instruction. -/
theorem execute (sections : Sections body)
    (progress : PairProgress lock body before overwritten cpu)
    {instruction : SpinInstruction Lock} {rest : List (SpinInstruction Lock)}
    (next : cpu.code = instruction :: rest) :
    PairProgress lock body before overwritten (cpu.execute rest instruction) := by
  have suspended := SpinCpu.execute_suspended cpu rest instruction
  cases progress with
  | early alone interrupts early => exact early_execute alone interrupts early next
  | @handling interrupted beneath enabled masked resumes =>
      rw [next] at masked resumes
      rcases masked.execute rest with same | ⟨code, maskedAfter⟩
      · rw [same]
        rw [← next] at masked resumes
        exact .handling beneath enabled masked resumes
      · refine .handling (suspended.trans beneath) enabled (by rwa [code]) ?_
        rcases resumes with ⟨isEnabled, early⟩ | finished
        · refine .inl ⟨isEnabled, Early.weaken early (fun later => ?_) (fun absent => ?_)⟩
          · rw [code] at later
            exact List.mem_cons_of_mem instruction later
          · rw [code] at absent
            rw [masked.execute_had]
            by_cases stores : instruction = .storeHadInterrupt lock
            · exact .inl ⟨by simp [stores], if_pos stores⟩
            · exact .inr ⟨by simp [Ne.symm stores, absent], if_neg stores⟩
        · exact .inr finished
  | locking alone disabled code had =>
      rw [code, List.cons.injEq] at next
      rcases next with ⟨rfl, rfl⟩
      exact locking_execute sections alone disabled had code
  | stuck alone masked isLocked takes =>
      rw [next] at masked takes
      rcases SpinCpu.execute_stuck isLocked takes with ⟨lockedAfter, same | takesAfter⟩
      · rw [same]
        rw [← next] at masked takes
        exact .stuck alone masked isLocked takes
      · rcases masked.execute rest with same | ⟨code, maskedAfter⟩
        · rw [same]
          rw [← next] at masked takes
          exact .stuck alone masked isLocked takes
        · exact .stuck (suspended.trans alone) (by rwa [code]) lockedAfter (by rwa [code])
  | @inside inner alone code masked keeps had =>
      rw [next] at code
      cases inner with
      | nil =>
          simp only [List.nil_append, spinlockRelease, List.cons.injEq] at code
          rcases code with ⟨rfl, rfl⟩
          exact .loading alone masked.disabled rfl had
      | cons first inner =>
          simp only [List.cons_append, List.cons.injEq] at code
          rcases code with ⟨rfl, rfl⟩
          rcases masked.execute (inner ++ spinlockRelease lock) with same | ⟨code, maskedAfter⟩
          · rw [same]
            exact .inside alone next masked keeps had
          · refine .inside (suspended.trans alone) code maskedAfter
              (fun stores => keeps (List.mem_cons_of_mem instruction stores)) ?_
            have different : instruction ≠ .storeHadInterrupt lock := by
              rintro rfl
              exact keeps List.mem_cons_self
            rw [masked.execute_had, if_neg different]
            exact had
  | loading alone disabled code had =>
      rw [code, List.cons.injEq] at next
      rcases next with ⟨rfl, rfl⟩
      exact .enabling alone disabled rfl had
  | enabling alone disabled code flag =>
      rw [code, List.cons.injEq] at next
      rcases next with ⟨rfl, rfl⟩
      refine .done alone rfl ?_
      simp [SpinCpu.execute, disabled, flag]
  | done alone code interrupts => simp [code] at next

/-- An interrupt. -/
theorem interrupt (progress : PairProgress lock body before overwritten cpu)
    (enabled : cpu.interrupts = true) {handler : List (SpinInstruction Lock)}
    (sections : Sections handler) :
    PairProgress lock body before
      (overwritten || SpinLabel.overwrites lock body (.interrupt cpu.code handler))
      (cpu.interrupt handler) := by
  have masked : (cpu.interrupt handler).Masked handler :=
    SpinCpu.masked_of_sections sections rfl
  cases progress with
  | early alone interrupts early =>
      refine .handling (by rw [SpinCpu.interrupt, alone]) enabled masked
        (.inl ⟨interrupts.symm.trans enabled, ?_⟩)
      simp only [SpinCpu.interrupt]
      generalize cpu.code = code at early ⊢
      cases early with
      | begins clean =>
          exact .begins (by simp [clean, SpinLabel.overwrites, spinlockWindow,
            spinlockAcquire])
      | stores clean => exact .stores (by simp [clean, SpinLabel.overwrites, spinlockWindow])
      | window comes came =>
          refine .window (fun later => ?_) (fun absent => ?_)
          · simp [SpinLabel.overwrites, later]
          · simpa [SpinLabel.overwrites, absent] using came not_false
  | done alone code interrupts =>
      refine .handling (by rw [SpinCpu.interrupt, alone]) enabled masked (.inr ⟨code, ?_⟩)
      have kept := interrupts.symm.trans enabled
      simpa [SpinLabel.overwrites, code, spinlockWindow] using kept
  | handling _ _ maskedBefore => simp [maskedBefore.disabled] at enabled
  | locking _ disabled => simp [disabled] at enabled
  | stuck _ maskedBefore => simp [maskedBefore.disabled] at enabled
  | inside _ _ maskedBefore => simp [maskedBefore.disabled] at enabled
  | loading _ disabled => simp [disabled] at enabled
  | enabling _ disabled => simp [disabled] at enabled

/-- An interrupt in the window finds interrupts as they were before the pair. -/
theorem enabled_of_overwrites (progress : PairProgress lock body before overwritten cpu)
    {label : SpinLabel Lock} (step : SpinStep cpu label after)
    (overwrites : label.overwrites lock body = true) : before = true := by
  cases step with
  | execute next => cases overwrites
  | interruptReturn finished entered => cases overwrites
  | interrupt enabled handled =>
      simp only [SpinLabel.overwrites, Bool.and_eq_true, decide_eq_true_eq] at overwrites
      cases progress with
      | early alone interrupts => exact interrupts.symm.trans enabled
      | done alone code => simp [code, spinlockWindow] at overwrites
      | handling _ _ masked => simp [masked.disabled] at enabled
      | locking _ disabled => simp [disabled] at enabled
      | stuck _ masked => simp [masked.disabled] at enabled
      | inside _ _ masked => simp [masked.disabled] at enabled
      | loading _ disabled => simp [disabled] at enabled
      | enabling _ disabled => simp [disabled] at enabled

/-- The return of a handler. -/
theorem interruptReturn (progress : PairProgress lock body before overwritten cpu)
    (finished : cpu.code = []) {interrupted : Interrupted Lock} {rest : List (Interrupted Lock)}
    (entered : cpu.suspended = interrupted :: rest) :
    PairProgress lock body before overwritten (cpu.resume interrupted rest) := by
  cases progress with
  | @handling beneathCode beneath enabled masked resumes =>
      rw [entered, List.cons.injEq] at beneath
      rcases beneath with ⟨rfl, rfl⟩
      rcases resumes with ⟨isEnabled, early⟩ | ⟨code, interrupts⟩
      · rw [finished] at early
        refine .early rfl (enabled.trans isEnabled.symm) ?_
        exact Early.weaken early False.elim (fun _ => .inr ⟨by simp, rfl⟩)
      · exact .done rfl code (enabled.trans interrupts.symm)
  | early alone => simp [entered] at alone
  | locking alone => simp [entered] at alone
  | stuck alone => simp [entered] at alone
  | inside alone => simp [entered] at alone
  | loading alone => simp [entered] at alone
  | enabling alone => simp [entered] at alone
  | done alone => simp [entered] at alone

/-- A step of the processor. -/
theorem step (sections : Sections body) (progress : PairProgress lock body before overwritten cpu)
    {label : SpinLabel Lock} (step : SpinStep cpu label after) :
    PairProgress lock body before (overwritten || label.overwrites lock body) after := by
  cases step with
  | execute next =>
      simp only [SpinLabel.overwrites, Bool.or_false]
      exact progress.execute sections next
  | interrupt enabled handled => exact progress.interrupt enabled handled
  | interruptReturn finished entered =>
      simp only [SpinLabel.overwrites, Bool.or_false]
      exact progress.interruptReturn finished entered

/-- A run of the processor. -/
theorem run (sections : Sections body) {labels : List (SpinLabel Lock)}
    (run : Run SpinStep cpu labels after)
    (progress : PairProgress lock body before overwritten cpu) :
    PairProgress lock body before (overwritten || labels.any (SpinLabel.overwrites lock body))
        after ∧
      (labels.any (SpinLabel.overwrites lock body) = true → before = true) := by
  induction run generalizing overwritten with
  | nil cpu => exact ⟨by simpa using progress, by simp⟩
  | cons head tail ih =>
      rcases ih (progress.step sections head) with ⟨later, enabled⟩
      refine ⟨by simpa [Bool.or_assoc] using later, ?_⟩
      intro overwrites
      rw [List.any_cons, Bool.or_eq_true] at overwrites
      rcases overwrites with first | rest
      · exact progress.enabled_of_overwrites head first
      · exact enabled rest

end PairProgress

theorem any_overwrites_iff {lock : Lock} {body : List (SpinInstruction Lock)}
    {labels : List (SpinLabel Lock)} :
    labels.any (SpinLabel.overwrites lock body) = false ↔
      ∀ handler, .interrupt (spinlockWindow lock body) handler ∈ labels →
        .storeHadInterrupt lock ∉ handler := by
  rw [List.any_eq_false]
  constructor
  · intro none handler mem stores
    exact none _ mem (by simp [SpinLabel.overwrites, stores])
  · intro spared label mem overwrites
    cases label with
    | execute => cases overwrites
    | interruptReturn => cases overwrites
    | interrupt interrupted handler =>
        simp only [SpinLabel.overwrites, Bool.and_eq_true, decide_eq_true_eq] at overwrites
        rcases overwrites with ⟨rfl, stores⟩
        exact spared handler mem stores

/-- After a pair the interrupt flag is what it was before, unless an interrupt whose handler uses
the lock comes between the write of `had_interrupt` and the `cli`. -/
theorem spinlock_pair_restores_iff {lock : Lock} {body : List (SpinInstruction Lock)}
    (sections : Sections body) {first last : SpinCpu Lock} {labels : List (SpinLabel Lock)}
    (begins : first.code = spinlockAcquire lock ++ body ++ spinlockRelease lock)
    (alone : first.suspended = []) (run : Run SpinStep first labels last)
    (finished : last.code = []) (returned : last.suspended = []) :
    last.interrupts = first.interrupts ↔
      ∀ handler, .interrupt (spinlockWindow lock body) handler ∈ labels →
        .storeHadInterrupt lock ∉ handler := by
  have start : PairProgress lock body first.interrupts false first := by
    refine .early alone rfl ?_
    rw [begins]
    exact .begins rfl
  rcases PairProgress.run sections run start with ⟨progress, enabled⟩
  rw [progress.finished finished returned, ← any_overwrites_iff, Bool.false_or]
  cases overwrites : labels.any (SpinLabel.overwrites lock body) with
  | false => simp
  | true => simp [enabled overwrites]

/-! ## The timer and `schedule_lock` -/

/-- `enqueue_ready_tail` under `schedule_lock`, which is the only lock here: what the timer does
and what it interrupts. -/
def scheduleSection : List (SpinInstruction Unit) :=
  spinlockAcquire () ++ [.other] ++ spinlockRelease ()

theorem sections_scheduleSection : Sections scheduleSection :=
  .pair () (.other .nil) .nil

def scheduleCpu : SpinCpu Unit where
  interrupts := true
  flag := false
  locked := fun _ => false
  hadInterrupt := fun _ => false
  code := scheduleSection
  suspended := []

/-- The next step with a label, if there is one. -/
def nextSpin (cpu : SpinCpu Unit) : SpinLabel Unit → Option (SpinCpu Unit)
  | .execute =>
      match cpu.code with
      | [] => none
      | instruction :: rest => some (cpu.execute rest instruction)
  | .interrupt interrupted handler =>
      if cpu.interrupts = true ∧ interrupted = cpu.code ∧ handler = scheduleSection then
        some (cpu.interrupt handler)
      else none
  | .interruptReturn =>
      match cpu.code, cpu.suspended with
      | [], interrupted :: rest => some (cpu.resume interrupted rest)
      | _, _ => none

theorem nextSpin_step (cpu : SpinCpu Unit) (label : SpinLabel Unit) (after : SpinCpu Unit)
    (steps : nextSpin cpu label = some after) : SpinStep cpu label after := by
  cases label with
  | execute =>
      simp only [nextSpin] at steps
      split at steps
      · cases steps
      · rename_i next
        cases steps
        exact .execute next
  | interrupt interrupted handler =>
      simp only [nextSpin, Option.ite_none_right_eq_some, Option.some.injEq] at steps
      rcases steps with ⟨⟨enabled, rfl, rfl⟩, rfl⟩
      exact .interrupt enabled sections_scheduleSection
  | interruptReturn =>
      simp only [nextSpin] at steps
      split at steps
      · rename_i finished entered
        cases steps
        exact .interruptReturn finished entered
      · cases steps

/-- The section with the timer's whole section in the middle of it, after a number of its
instructions. -/
def timerAfter (count : ℕ) : List (SpinLabel Unit) :=
  List.replicate count .execute ++ [.interrupt (scheduleSection.drop count) scheduleSection] ++
    List.replicate 8 .execute ++ [.interruptReturn] ++ List.replicate (8 - count) .execute

theorem timerAfter_run (count : ℕ) (interrupts : Bool)
    (follows : (follow nextSpin (timerAfter count) scheduleCpu).map (fun last =>
      (last.interrupts, last.code, last.suspended.length)) = some (interrupts, [], 0)) :
    ∃ last, Run SpinStep scheduleCpu (timerAfter count) last ∧ last.interrupts = interrupts ∧
      last.code = [] ∧ last.suspended = [] := by
  rcases Option.map_eq_some_iff.mp follows with ⟨last, reaches, observation⟩
  simp only [Prod.mk.injEq, List.length_eq_zero_iff] at observation
  exact ⟨last, run_of_follow nextSpin_step reaches, observation⟩

/-- A timer interrupt before the write of `had_interrupt` does no harm. -/
theorem spinlock_pair_restores_early : ∃ last, Run SpinStep scheduleCpu (timerAfter 1) last ∧
    last.interrupts = true := by
  rcases timerAfter_run 1 true (by decide +kernel) with
    ⟨last, run, _, finished, returned⟩
  refine ⟨last, run, ?_⟩
  have spared : (timerAfter 1).any (SpinLabel.overwrites () [.other]) = false := by
    decide
  exact (spinlock_pair_restores_iff (.other .nil) rfl rfl run finished returned).mpr
    (any_overwrites_iff.mp spared)

/-- One between that write and the `cli` leaves interrupts disabled. -/
theorem spinlock_pair_disables : ∃ last, Run SpinStep scheduleCpu (timerAfter 2) last ∧
    last.code = [] ∧ last.suspended = [] ∧ last.interrupts ≠ scheduleCpu.interrupts := by
  rcases timerAfter_run 2 false (by decide +kernel) with
    ⟨last, run, disabled, finished, returned⟩
  exact ⟨last, run, finished, returned, by simp [disabled, scheduleCpu]⟩

end Goshkik

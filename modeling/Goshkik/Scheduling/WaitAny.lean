import Goshkik.Errno
import Goshkik.Scheduling.ReadyQueue
import Goshkik.Scheduling.Reap

/-!
# Waiting for any child

The loop of `process_wait` takes the first process of the table whose parent is the caller, and
looks at its state only after the loop.  So the caller of `process_wait(-1)` blocks whenever this
process runs, also when another child is over.  The kernel process is recorded as its own parent and
counts as a child.

A call is followed here until it returns or its thread is blocked; nobody else runs in between.
-/

namespace Goshkik

open Transition

/-- How far a call of `process_wait` has come. -/
inductive WaitAnswer where
  | returns (code : ℤ) (exitCode : Option ℤ) (kernel : Kernel)
  | blocks (child : ℕ) (kernel : Kernel)

/-- The code that the caller gets. -/
def WaitAnswer.code : WaitAnswer → Option ℤ
  | .returns code _ _ => some code
  | .blocks _ _ => none

namespace Kernel

variable (kernel : Kernel)

/-- The child is marked as exited and cleaned up. -/
def reapChild (child index : ℕ) (pid : ℤ) : Kernel :=
  (kernel.modifyProcess child (fun record => { record with state := .exited })).processCleanup child
    index pid

/-- `process_wait`; the exit code is what the caller's pointer receives. -/
def processWait (fuel : ℕ) (pid : ℤ) : Option WaitAnswer :=
  match kernel.currentThread with
  | none => some (.returns (-einval) none kernel)
  | some cur =>
      match kernel.findChild (pidOfOwner (kernel.threads cur).oPid) pid with
      | none => some (.returns (-echild) none kernel)
      | some (child, index) =>
          if (kernel.processes child).state.isOver then
            some (.returns 0 (some (kernel.processes child).exitCode)
              (kernel.reapChild child index pid))
          else
            (kernel.waitEnqueue child cur).bind (fun queued =>
              (queued.threadBlock fuel (queued.threads cur).tid).map (WaitAnswer.blocks child))

/-- The process in a slot of the table has a given parent. -/
def IsChild (parent : ℤ) (i p : ℕ) : Prop :=
  i < maxProcs ∧ kernel.processTable i = some p ∧ (kernel.processes p).ppid = parent

/-- A child that is over is reaped at once if there is one, and there is no child if there is none
but the caller. -/
structure WaitsForAny (parent : ℤ) (answer : WaitAnswer) : Prop where
  blocks : answer.code = none → ∀ i p, kernel.IsChild parent i p →
    (kernel.processes p).state.isOver = false
  reaps : ∀ i p, kernel.IsChild parent i p → (kernel.processes p).state.isOver →
    ∃ j child, kernel.IsChild parent j child ∧ (kernel.processes child).state.isOver ∧
      answer = .returns 0 (some (kernel.processes child).exitCode) (kernel.reapChild child j (-1))
  noChild : answer.code = some (-echild) ↔
    ∀ i p, kernel.IsChild parent i p → (kernel.processes p).pid = parent

/-- The first child is over if any child is, and the caller is not its only child. -/
structure FirstDecides (parent : ℤ) : Prop where
  first : ∀ i p, kernel.IsChild parent i p → (∀ j q, j < i → ¬kernel.IsChild parent j q) →
    (∃ j q, kernel.IsChild parent j q ∧ (kernel.processes q).state.isOver) →
      (kernel.processes p).state.isOver
  other : ∀ i p, kernel.IsChild parent i p → ∃ j q, kernel.IsChild parent j q ∧
    (kernel.processes q).pid ≠ parent

variable {kernel : Kernel} {parent : ℤ} {child index : ℕ}

/-! ## The loop over the table -/

theorem findChild_any_eq_none :
    kernel.findChild parent (-1) = none ↔ ∀ i p, ¬kernel.IsChild parent i p := by
  simp only [findChild, List.findSome?_eq_none_iff, List.mem_range, Option.map_eq_none_iff,
    Option.filter_eq_none_iff, IsChild, true_or, and_true, decide_eq_true_eq]
  constructor
  · rintro missing i p ⟨inTable, listed, isParent⟩
    exact missing i inTable p listed isParent
  · intro missing i inTable p listed isParent
    exact missing i p ⟨inTable, listed, isParent⟩

/-- The loop stops at the first child. -/
theorem findChild_any_first (found : kernel.findChild parent (-1) = some (child, index)) :
    kernel.IsChild parent index child ∧ ∀ j q, j < index → ¬kernel.IsChild parent j q := by
  simp only [findChild, List.findSome?_eq_some_iff] at found
  rcases found with ⟨before, i, behind, slots, isFound, skipped⟩
  simp only [Option.map_eq_some_iff, Option.filter_eq_some_iff, Prod.mk.injEq, true_or, and_true,
    decide_eq_true_eq] at isFound
  rcases isFound with ⟨p, ⟨listed, isParent⟩, rfl, rfl⟩
  have inTable : i < maxProcs := by
    rw [← List.mem_range, slots]
    simp
  refine ⟨⟨inTable, listed, isParent⟩, ?_⟩
  rintro j q earlier ⟨_, listedQ, isParentQ⟩
  have sorted : (before ++ i :: behind).Pairwise (· < ·) := slots ▸ List.pairwise_lt_range
  have mem : j ∈ before := by
    have jInTable : j ∈ before ++ i :: behind := by
      rw [← slots, List.mem_range]
      exact earlier.trans inTable
    rw [List.pairwise_append, List.pairwise_cons] at sorted
    rcases List.mem_append.mp jInTable with isBefore | isBehind
    · exact isBefore
    · rcases List.mem_cons.mp isBehind with rfl | isBehind
      · exact absurd earlier (lt_irrefl j)
      · exact absurd earlier (not_lt.mpr (sorted.2.1.1 j isBehind).le)
  have notFound := skipped j mem
  simp [listedQ, isParentQ] at notFound

/-- The question is about the first child. -/
theorem firstDecides_iff (isChild : kernel.IsChild parent index child)
    (first : ∀ j q, j < index → ¬kernel.IsChild parent j q) :
    kernel.FirstDecides parent ↔
      ((∃ j q, kernel.IsChild parent j q ∧ (kernel.processes q).state.isOver) →
        (kernel.processes child).state.isOver) ∧
      ∃ j q, kernel.IsChild parent j q ∧ (kernel.processes q).pid ≠ parent := by
  constructor
  · intro decides
    exact ⟨decides.first index child isChild first, decides.other index child isChild⟩
  · rintro ⟨firstOver, isOther⟩
    refine ⟨fun i p isFirst noneBefore isOver => ?_, fun _ _ _ => isOther⟩
    have same : i = index := by
      rcases lt_trichotomy i index with before | same | behind
      · exact absurd isFirst (first i p before)
      · exact same
      · exact absurd isChild (noneBefore index child behind)
    subst same
    have sameChild : p = child := Option.some.inj (isFirst.2.1.symm.trans isChild.2.1)
    rw [sameChild]
    exact firstOver isOver

/-- Without a child there is nothing to miss. -/
theorem firstDecides_of_noChild (noChild : ∀ i p, ¬kernel.IsChild parent i p) :
    kernel.FirstDecides parent :=
  ⟨fun i p isChild => absurd isChild (noChild i p), fun i p isChild => absurd isChild (noChild i p)⟩

/-! ## A call -/

/-- The two ways in which a call goes on with the first child. -/
theorem processWait_cases {fuel cur : ℕ} {pid : ℤ} {answer : WaitAnswer}
    (current : kernel.currentThread = some cur)
    (runs : kernel.processWait fuel pid = some answer) :
    (kernel.findChild (pidOfOwner (kernel.threads cur).oPid) pid = none ∧
      answer = .returns (-echild) none kernel) ∨
    ∃ child index, kernel.findChild (pidOfOwner (kernel.threads cur).oPid) pid =
      some (child, index) ∧
      (((kernel.processes child).state.isOver = true ∧
        answer = .returns 0 (some (kernel.processes child).exitCode)
          (kernel.reapChild child index pid)) ∨
      ((kernel.processes child).state.isOver = false ∧ ∃ queued blocked,
        kernel.waitEnqueue child cur = some queued ∧
        queued.threadBlock fuel (queued.threads cur).tid = some blocked ∧
          answer = .blocks child blocked)) := by
  simp only [processWait, current] at runs
  split at runs
  · rename_i missing
    exact .inl ⟨missing, (Option.some.inj runs).symm⟩
  · rename_i child index found
    refine .inr ⟨child, index, found, ?_⟩
    split at runs
    · rename_i isOver
      exact .inl ⟨isOver, (Option.some.inj runs).symm⟩
    · rename_i runsOn
      simp only [Option.bind_eq_some_iff, Option.map_eq_some_iff] at runs
      rcases runs with ⟨queued, queues, blocked, blocks, rfl⟩
      exact .inr ⟨by simpa using runsOn, queued, blocked, queues, blocks, rfl⟩

end Kernel

namespace ReapSystem

variable {system : ReapSystem} {t index : ℕ} {parent pid : ℤ} {child : ProcessRecord}

/-- Where a thread is after a call of `process_wait`. -/
def Answered (system : ReapSystem) (t : ℕ) (pid : ℤ) : WaitAnswer → Prop
  | .returns _ _ kernel => system.kernel = kernel ∧ system.phase t = .idle
  | .blocks child kernel => system.kernel = kernel ∧
      ∃ record index, record.block = child ∧ system.phase t = .asleep record index pid

theorem call_step (system : ReapSystem) (idle : system.phase t = .idle) (pid : ℤ) :
    ∃ after, ReapStep system (.call t pid) after ∧ after.kernel = system.kernel ∧
      after.owner = system.owner ∧
      after.phase t = .calling (pidOfOwner (system.kernel.threads t).oPid) pid :=
  ⟨system.setPhase t (.calling (pidOfOwner (system.kernel.threads t).oPid) pid),
    ⟨0, by simp only [perform, idle, if_true]⟩, rfl, rfl, setPhase_phase_same _ _ _⟩

theorem lookup_noChild (calls : system.phase t = .calling parent pid)
    (missing : system.kernel.findChild parent pid = none) :
    ∃ after, ReapStep system (.lookup t) after ∧ after.kernel = system.kernel ∧
      after.phase t = .idle := by
  refine ⟨system.lookup t parent pid, ⟨0, by simp only [perform, calls]⟩, ?_⟩
  unfold ReapSystem.lookup
  rw [missing]
  generalize system.scanned maxProcs = events
  exact ⟨rfl, setPhase_phase_same _ _ _⟩

theorem lookup_child {p : ℕ} (calls : system.phase t = .calling parent pid)
    (found : system.kernel.findChild parent pid = some (p, index)) :
    ∃ after, ReapStep system (.lookup t) after ∧ after.kernel = system.kernel ∧
      after.owner = system.owner ∧
      after.phase t = .found ⟨p, system.listedAs index⟩ index pid := by
  refine ⟨system.lookup t parent pid, ⟨0, by simp only [perform, calls]⟩, ?_⟩
  unfold ReapSystem.lookup
  rw [found]
  generalize system.scanned (index + 1) = events
  exact ⟨rfl, rfl, setPhase_phase_same _ _ _⟩

/-- A child that is over is collected in three steps. -/
theorem collect_run (found : system.phase t = .found child index pid)
    (unlocked : system.owner child.block = none)
    (isOver : (system.kernel.processes child.block).state.isOver) :
    ∃ last, Run ReapStep system [.check t, .clear t, .free t] last ∧
      last.kernel = system.kernel.reapChild child.block index pid ∧ last.phase t = .idle := by
  have checks : ReapStep system (.check t) (system.markExited t child index pid) :=
    ⟨0, by simp [perform, found, unlocked, ReapSystem.check, isOver]⟩
  have clears : ReapStep (system.markExited t child index pid) (.clear t)
      ((system.markExited t child index pid).clear t child index pid) :=
    ⟨0, by simp [perform, markExited]⟩
  have frees : ReapStep ((system.markExited t child index pid).clear t child index pid) (.free t)
      (((system.markExited t child index pid).clear t child index pid).free t child) :=
    ⟨0, by simp [perform, ReapSystem.clear]⟩
  exact ⟨_, .cons checks (.cons clears (.cons frees (.nil _))), rfl, by simp [ReapSystem.free]⟩

/-- A thread that waits for a child is queued and blocked. -/
theorem block_run {fuel : ℕ} {queued blocked : Kernel}
    (found : system.phase t = .found child index pid)
    (unlocked : system.owner child.block = none)
    (runsOn : (system.kernel.processes child.block).state.isOver = false)
    (queues : system.kernel.waitEnqueue child.block t = some queued)
    (blocks : queued.threadBlock fuel (queued.threads t).tid = some blocked) :
    ∃ last, Run ReapStep system [.check t, .block t] last ∧ last.kernel = blocked ∧
      last.phase t = .asleep child index pid := by
  let enqueued := (((system.setKernel queued).setOwner child.block (some t)).record
    [.read child]).setPhase t
    (.enqueued child index pid)
  have checks : ReapStep system (.check t) enqueued :=
    ⟨0, by simp [perform, found, unlocked, ReapSystem.check, runsOn, queues, enqueued]⟩
  have sleeps : ReapStep enqueued (.block t)
      ((enqueued.setKernel blocked).setPhase t (.asleep child index pid)) := by
    refine ⟨fuel, ?_⟩
    have phase : enqueued.phase t = .enqueued child index pid := by simp [enqueued]
    have kernel : enqueued.kernel = queued := rfl
    simp only [perform, phase, kernel, blocks, Option.map_some]
  exact ⟨_, .cons checks (.cons sleeps (.nil _)), rfl, by simp⟩

end ReapSystem

/-- A call that nobody interrupts is a run of the steps into which `process_wait` is cut. -/
theorem processWait_run {system : ReapSystem} {fuel cur : ℕ} {pid : ℤ} {answer : WaitAnswer}
    (current : system.kernel.currentThread = some cur) (idle : system.phase cur = .idle)
    (unlocked : ∀ p, system.owner p = none)
    (runs : system.kernel.processWait fuel pid = some answer) :
    ∃ operations last, Run ReapStep system operations last ∧ last.Answered cur pid answer := by
  rcases system.call_step idle pid with ⟨calling, calls, callKernel, callOwner, isCalling⟩
  rw [← callKernel] at isCalling
  rcases Kernel.processWait_cases current runs with ⟨missing, rfl⟩ | ⟨child, index, found, cases⟩
  · rw [← callKernel] at missing
    rcases ReapSystem.lookup_noChild isCalling missing with ⟨last, looks, kernel, phase⟩
    exact ⟨_, last, .cons calls (.cons looks (.nil last)), kernel.trans callKernel, phase⟩
  · rw [← callKernel] at found
    rcases ReapSystem.lookup_child isCalling found with
      ⟨middle, looks, lookKernel, lookOwner, phase⟩
    have kernel : middle.kernel = system.kernel := lookKernel.trans callKernel
    have free : middle.owner child = none := by
      rw [lookOwner, callOwner, unlocked]
    rcases cases with ⟨isOver, rfl⟩ | ⟨runsOn, queued, blocked, queues, blocks, rfl⟩
    · rcases ReapSystem.collect_run phase free (by rwa [kernel]) with ⟨last, collects, reaped, idle⟩
      rw [kernel] at reaped
      exact ⟨_, last, .cons calls (.cons looks collects), reaped, idle⟩
    · rcases ReapSystem.block_run phase free (by rwa [kernel]) (by rwa [kernel]) blocks with
        ⟨last, waits, isBlocked, asleep⟩
      exact ⟨_, last, .cons calls (.cons looks waits), isBlocked, _, index, rfl, asleep⟩

/-- A call does not stop before it has looked at the first child, and it returns if that is over. -/
theorem Kernel.processWait_returns {kernel : Kernel} {cur : ℕ}
    (current : kernel.currentThread = some cur)
    (firstOver : ∀ i p, kernel.IsChild (pidOfOwner (kernel.threads cur).oPid) i p →
      (∀ j q, j < i → ¬kernel.IsChild (pidOfOwner (kernel.threads cur).oPid) j q) →
        (kernel.processes p).state.isOver) (fuel : ℕ) :
    ∃ answer, kernel.processWait fuel (-1) = some answer ∧ answer.code ≠ none := by
  simp only [Kernel.processWait, current]
  cases found : kernel.findChild (pidOfOwner (kernel.threads cur).oPid) (-1) with
  | none => exact ⟨_, rfl, Option.some_ne_none _⟩
  | some pair =>
      rcases Kernel.findChild_any_first found with ⟨isChild, first⟩
      simp only [firstOver _ _ isChild first, if_true]
      exact ⟨_, rfl, Option.some_ne_none _⟩

/-- `process_wait(-1)` misses no child that is over, and reports that there is no child exactly when
only the caller is its own child, if and only if the first child in the table is over when any child
is, and the caller is not its only child.  It returns if there is no child or the first one is
over. -/
theorem process_wait_any_iff {kernel : Kernel} {cur : ℕ}
    (current : kernel.currentThread = some cur) :
    (∀ fuel answer, kernel.processWait fuel (-1) = some answer →
      (kernel.WaitsForAny (pidOfOwner (kernel.threads cur).oPid) answer ↔
        kernel.FirstDecides (pidOfOwner (kernel.threads cur).oPid))) ∧
      ((∀ i p, kernel.IsChild (pidOfOwner (kernel.threads cur).oPid) i p →
        (∀ j q, j < i → ¬kernel.IsChild (pidOfOwner (kernel.threads cur).oPid) j q) →
          (kernel.processes p).state.isOver) →
        ∀ fuel, ∃ answer, kernel.processWait fuel (-1) = some answer ∧ answer.code ≠ none) := by
  refine ⟨fun fuel answer runs => ?_, Kernel.processWait_returns current⟩
  generalize parentEq : pidOfOwner (kernel.threads cur).oPid = parent
  have cases := Kernel.processWait_cases current runs
  rw [parentEq] at cases
  rcases cases with ⟨missing, rfl⟩ | ⟨child, index, found, cases⟩
  · have noChild := Kernel.findChild_any_eq_none.mp missing
    constructor
    · intro _
      exact Kernel.firstDecides_of_noChild noChild
    · intro _
      exact ⟨fun _ i p isChild => absurd isChild (noChild i p), fun i p isChild =>
        absurd isChild (noChild i p),
        fun _ i p isChild => absurd isChild (noChild i p), fun _ => rfl⟩
  · rcases Kernel.findChild_any_first found with ⟨isChild, first⟩
    have notNoChild : answer.code ≠ some (-echild) := by
      rcases cases with ⟨_, rfl⟩ | ⟨_, _, _, _, _, rfl⟩
      · simp [WaitAnswer.code, echild]
      · simp [WaitAnswer.code]
    have other : (answer.code = some (-echild) ↔
        ∀ i p, kernel.IsChild parent i p → (kernel.processes p).pid = parent) ↔
        ∃ j q, kernel.IsChild parent j q ∧ (kernel.processes q).pid ≠ parent := by
      simp [notNoChild]
    have decides := Kernel.firstDecides_iff isChild first
    rw [decides, ← other]
    constructor
    · intro waits
      refine ⟨?_, waits.noChild⟩
      rintro ⟨j, q, isChildQ, isOver⟩
      rcases cases with ⟨childOver, _⟩ | ⟨_, _, _, _, _, rfl⟩
      · exact childOver
      · exact absurd isOver (by simp [waits.blocks rfl j q isChildQ])
    · rintro ⟨firstOver, noChild⟩
      refine ⟨?_, ?_, noChild⟩
      · intro isBlocked i p isChildP
        rcases cases with ⟨_, rfl⟩ | ⟨notOver, _⟩
        · cases isBlocked
        · by_contra isOver
          rw [Bool.not_eq_false] at isOver
          exact absurd (firstOver ⟨i, p, isChildP, isOver⟩) (by simp [notOver])
      · intro i p isChildP isOver
        have childOver := firstOver ⟨i, p, isChildP, isOver⟩
        rcases cases with ⟨_, returns⟩ | ⟨notOver, _⟩
        · exact ⟨index, child, isChild, childOver, returns⟩
        · rw [notOver] at childOver
          cases childOver

/-- A thread of a process runs, in whose table there are the kernel process and some more
processes. -/
def waiter (owner : ℕ) (processes : List Process) : Kernel :=
  { (startedKernel.withThread 0x1200).modifyThread 0x1200 (fun record =>
    { record with oPid := owner }) with
    currentThread := some 0x1200
    processTable := fun i => if i ≤ processes.length then some (0x100 * (i + 1)) else none
    processes := fun p => (({ state := .running } : Process) :: processes).getD (p / 0x100 - 1) {} }

/-- A parent and its two children, the first of which is in a given state; the second has exited
with code 7. -/
def family (state : ProcessState) : List Process :=
  [{ pid := 1, ppid := 0, state := .running },
    { pid := 2, ppid := 1, state := state, exitCode := 5 },
    { pid := 3, ppid := 1, state := .zombie, exitCode := 7 }]

/-- Both children are over. -/
theorem process_wait_any_iff_zombie :
    ∃ answer, (waiter 1 (family .zombie)).processWait 8 (-1) = some answer ∧ answer.code = some 0 ∧
      ((waiter 1 (family .zombie)).WaitsForAny 1 answer ↔
        (waiter 1 (family .zombie)).FirstDecides 1) := by
  have returns : ((waiter 1 (family .zombie)).processWait 8 (-1)).map WaitAnswer.code =
      some (some 0) := by
    decide +kernel
  rcases Option.map_eq_some_iff.mp returns with ⟨answer, waits, code⟩
  have current : (waiter 1 (family .zombie)).currentThread = some 0x1200 := rfl
  have parent : pidOfOwner ((waiter 1 (family .zombie)).threads 0x1200).oPid =
    1 := by decide +kernel
  have decides := (process_wait_any_iff current).1 8 answer waits
  rw [parent] at decides
  exact ⟨answer, waits, code, decides⟩

/-- The caller blocks on its first child, which runs, while the second one has exited; and with the
table of `init_processes`, a thread of the kernel process blocks on the kernel process itself. -/
theorem process_wait_any_blocks :
    (∃ answer, (waiter 1 (family .running)).processWait 8 (-1) = some answer ∧ answer.code = none ∧
      ¬ (waiter 1 (family .running)).WaitsForAny 1 answer) ∧
    ∃ answer, (waiter 0 []).processWait 8 (-1) = some answer ∧ answer.code = none ∧
      ¬ (waiter 0 []).WaitsForAny 0 answer := by
  have misses : ((waiter 1 (family .running)).processWait 8 (-1)).map WaitAnswer.code =
      some none := by
    decide +kernel
  have alone : ((waiter 0 []).processWait 8 (-1)).map WaitAnswer.code = some none := by
    decide +kernel
  rcases Option.map_eq_some_iff.mp misses with ⟨first, waitsFirst, codeFirst⟩
  rcases Option.map_eq_some_iff.mp alone with ⟨second, waitsSecond, codeSecond⟩
  refine ⟨⟨first, waitsFirst, codeFirst, fun waits => ?_⟩, second, waitsSecond, codeSecond,
    fun waits => ?_⟩
  · have zombie : (waiter 1 (family .running)).IsChild 1 3 0x400 := by
      unfold Kernel.IsChild
      decide +kernel
    exact absurd (waits.blocks codeFirst 3 0x400 zombie) (by decide +kernel)
  · have onlyCaller : ∀ i p, (waiter 0 []).IsChild 0 i p → ((waiter 0 []).processes p).pid = 0 := by
      rintro i p ⟨_, listed, _⟩
      simp only [waiter, List.length_nil, nonpos_iff_eq_zero, Option.ite_none_right_eq_some,
        Option.some.injEq] at listed
      rcases listed with ⟨rfl, rfl⟩
      rfl
    rw [waits.noChild.mpr onlyCaller] at codeSecond
    cases codeSecond

end Goshkik

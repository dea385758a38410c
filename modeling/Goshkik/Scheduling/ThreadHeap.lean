import Goshkik.Scheduling.ThreadRoll

/-!
# The calls of the heap in `thread_create` and `clean_up`

`threadCreateLogged` and `cleanUpLogged` are the two functions once more, with a list of their
calls of `kmalloc` and `kfree` in order.  What they write into a block that they free again is
left out, as in the functions without the list.
-/

namespace Goshkik

/-- `sizeof(thread_t)`. -/
def sizeofThread : ℕ := 264

/-- A call of `kmalloc` with the block it answers, or one of `kfree`. -/
inductive HeapCall where
  | kmalloc (size block : ℕ)
  | kfree (block : ℕ)
  deriving DecidableEq

namespace HeapCall

/-- The blocks on loan after a call.  Only a block that is on loan can be given back. -/
def settle (loan : List ℕ) : HeapCall → Option (List ℕ)
  | .kmalloc _ block => some (if block = 0 then loan else block :: loan)
  | .kfree block => if block ∈ loan then some (loan.erase block) else none

/-- Whatever is on loan before the calls is on loan behind them, and nothing else. -/
def Settled (calls : List HeapCall) : Prop :=
  ∀ loan, calls.foldlM settle loan = some loan

theorem settle_kfree_head (loan : List ℕ) (block : ℕ) :
    settle (block :: loan) (.kfree block) = some loan := by
  simp [settle]

theorem settle_kfree_second (loan : List ℕ) (last block : ℕ) :
    settle (last :: block :: loan) (.kfree block) = some (last :: loan) := by
  by_cases same : last = block
  · subst same
    simp [settle]
  · simp [settle, same]

end HeapCall

/-- The frees of the stacks of a thread. -/
def Thread.kfreeStacks (thread : Thread) : List HeapCall :=
  let stackBase := if thread.stackBase ≠ 0 then [.kfree thread.stackBase] else []
  if thread.privilege = .ring3 then
    stackBase ++ if thread.kernelStack ≠ 0 then [.kfree thread.kernelStack] else []
  else stackBase

/-- The calls for the stacks of a new thread. -/
def ThreadRequest.kmallocStacks (request : ThreadRequest) (memory : ThreadMemory) :
    List HeapCall :=
  if request.privilege = .ring3 then
    [.kmalloc tstackSize memory.stackBase, .kmalloc kstackSize memory.kernelStack]
  else [.kmalloc tstackSize memory.stackBase]

namespace Kernel

variable (kernel : Kernel)

def threadCreateLogged (request : ThreadRequest) (memory : ThreadMemory) :
    Option ((Option ℕ × Kernel) × List HeapCall) :=
  if request.function = 0 ∨ maxThreads ≤ kernel.threadCount then some ((none, kernel), [])
  else if memory.thread = 0 then some ((none, kernel), [.kmalloc sizeofThread memory.thread])
  else
    let t := memory.thread
    let asked := .kmalloc sizeofThread t :: request.kmallocStacks memory
    let freed := (request.thread memory kernel.nextTid).kfreeStacks ++ [.kfree t]
    if request.lacksStack memory then
      some ((none, { kernel with nextTid := (kernel.nextTid + 1) % 2 ^ 32 }), asked ++ freed)
    else
      let built := kernel.buildThread request memory
      match built.freeThreadSlot with
      | none =>
          some ((none, { built with threadBlocks := built.threadBlocks.erase t }), asked ++ freed)
      | some slot =>
          ((built.claimThreadSlot slot t).appendReady t).map (fun queued =>
            ((some t, queued), asked))

def cleanUpSlotLogged (fuel : ℕ) (reached : Kernel × List HeapCall) (slot : ℕ) :
    Option (Kernel × List HeapCall) :=
  match reached.1.threadTable slot with
  | none => some reached
  | some t =>
      if (reached.1.threads t).state = .termed then
        (reached.1.removeFromReadyQueue fuel (some t)).map (fun removed =>
          (removed.freeThread slot t,
            reached.2 ++ ((removed.threads t).kfreeStacks ++ [.kfree t])))
      else some reached

def cleanUpLogged (fuel : ℕ) : Option (Kernel × List HeapCall) :=
  (List.range maxThreads).foldlM (cleanUpSlotLogged fuel) (kernel, [])

variable {kernel} {after : Kernel} {calls : List HeapCall} {t slot fuel block : ℕ}
  {request : ThreadRequest} {memory : ThreadMemory}

theorem threadCreateLogged_map_fst (kernel : Kernel) (request : ThreadRequest)
    (memory : ThreadMemory) :
    (kernel.threadCreateLogged request memory).map Prod.fst =
      kernel.threadCreate request memory := by
  unfold threadCreateLogged threadCreate
  by_cases early : request.function = 0 ∨ maxThreads ≤ kernel.threadCount
  · have refused : request.function = 0 ∨ maxThreads ≤ kernel.threadCount ∨ memory.thread = 0 :=
      early.elim .inl (fun full => .inr (.inl full))
    rw [if_pos early, if_pos refused]
    rfl
  by_cases null : memory.thread = 0
  · rw [if_neg early, if_pos null, if_pos (.inr (.inr null))]
    rfl
  have accepted : ¬(request.function = 0 ∨ maxThreads ≤ kernel.threadCount ∨
      memory.thread = 0) := by
    rw [not_or] at early
    simp [early.1, null, not_le.mp early.2]
  rw [if_neg early, if_neg null, if_neg accepted]
  by_cases lacks : request.lacksStack memory
  · simp only [lacks, if_true, Option.map_some]
  · simp only [lacks, Bool.false_eq_true, if_false]
    generalize kernel.buildThread request memory = built
    cases built.freeThreadSlot with
    | none => rfl
    | some slot =>
        rw [Option.map_map]
        rfl

theorem cleanUpSlotLogged_map_fst (fuel : ℕ) (reached : Kernel × List HeapCall) (slot : ℕ) :
    (cleanUpSlotLogged fuel reached slot).map Prod.fst = cleanUpSlot fuel reached.1 slot := by
  unfold cleanUpSlotLogged cleanUpSlot
  cases reached.1.threadTable slot with
  | none => rfl
  | some t =>
      by_cases dead : (reached.1.threads t).state = .termed
      · simp only [dead, if_true, Option.map_map]
        rfl
      · simp only [dead, if_false, Option.map_some]

theorem cleanUpLogged_map_fst (kernel : Kernel) (fuel : ℕ) :
    (kernel.cleanUpLogged fuel).map Prod.fst = kernel.cleanUp fuel := by
  have overSlots : ∀ (slots : List ℕ) (reached : Kernel × List HeapCall),
      (slots.foldlM (cleanUpSlotLogged fuel) reached).map Prod.fst =
        slots.foldlM (cleanUpSlot fuel) reached.1 := by
    intro slots
    induction slots with
    | nil => exact fun _ => rfl
    | cons slot slots ih =>
        intro reached
        simp only [List.foldlM_cons, ← cleanUpSlotLogged_map_fst]
        cases cleanUpSlotLogged fuel reached slot with
        | none => rfl
        | some middle => exact ih middle
  exact overSlots _ (kernel, [])

/-- The blocks for a thread that `thread_create` gives up are freed again. -/
theorem settled_giveUp (request : ThreadRequest) (tid : ℕ) (allocated : memory.thread ≠ 0) :
    HeapCall.Settled (.kmalloc sizeofThread memory.thread :: request.kmallocStacks memory ++
      ((request.thread memory tid).kfreeStacks ++ [.kfree memory.thread])) := by
  have allocates : ∀ (loan : List ℕ) size block, block ≠ 0 →
      HeapCall.settle loan (.kmalloc size block) = some (block :: loan) :=
    fun loan size block nonzero => by simp [HeapCall.settle, nonzero]
  have fails : ∀ (loan : List ℕ) size, HeapCall.settle loan (.kmalloc size 0) = some loan :=
    fun loan size => by simp [HeapCall.settle]
  intro loan
  by_cases ring3 : request.privilege = .ring3 <;> by_cases stack : memory.stackBase = 0 <;>
    by_cases kernelStack : memory.kernelStack = 0
  all_goals
    simp [ThreadRequest.kmallocStacks, Thread.kfreeStacks, ThreadRequest.thread, ring3, stack,
      kernelStack, allocates, fails, allocated, HeapCall.settle_kfree_head,
      HeapCall.settle_kfree_second]

end Kernel

end Goshkik

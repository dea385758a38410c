import Goshkik.Memory.KernelMemory
import Goshkik.Scheduling.ProcessTable
import Goshkik.Scheduling.ThreadHeap

/-!
# The memory of a process

`process_create` takes the record of the process from the heap and, for userspace, the top-level
table of its address space from the frame allocator.  Where it fails later, and in
`process_cleanup`, both are passed to `kfree`.

`processCreateLogged` and `processCleanupLogged` are these functions with a list of what they ask of
the two allocators, and `KernelMemory.perform` is what the allocators do.  The tables of the kernel
and the pages of the heap are kept side by side.
-/

namespace Goshkik

/-- `sizeof(process_t)`. -/
def sizeofProcess : ℕ := 1440

/-- A call of one of the allocators, with its answer. -/
inductive MemoryCall where
  | heap (call : HeapCall)
  | createAddressSpace (frame : ℕ)
  deriving DecidableEq

/-! ## The allocators -/

namespace KernelMemory

variable (platform : Platform Pmm) (fuel : ℕ)

/-- A call with its answer; with another answer it is another run. -/
def perform (memory : KernelMemory) : MemoryCall → Option KernelMemory
  | .heap (.kmalloc size block) => do
      let (answer, memory) ← memory.kmalloc platform fuel size
      if answer.getD 0 = block then some memory else none
  | .heap (.kfree block) => do
      let heap ← kfree fuel memory.heap (if block = 0 then none else some block)
      return { memory with heap := heap }
  | .createAddressSpace frame => do
      let (newPml4, vmm) ← platform.createAddressSpace memory.vmm
      if newPml4 = frame then some { memory with vmm := vmm } else none

def performAll (memory : KernelMemory) (calls : List MemoryCall) : Option KernelMemory :=
  calls.foldlM (perform platform fuel) memory

end KernelMemory

/-! ## The functions -/

namespace Kernel

variable (kernel : Kernel)

/-- The frees of a process and its address space. -/
def kfreeProcess (p : ℕ) : List MemoryCall :=
  (if (kernel.processes p).addressSpace ≠ 0 then [.heap (.kfree (kernel.processes p).addressSpace)]
    else []) ++
    [.heap (.kfree p)]

/-- `process_create`, with the answers of the allocators. -/
def processCreateLogged (request : ProcessRequest) (block addressSpace : ℕ)
    (memory : ThreadMemory) :
    Option ((Option ℕ × Kernel) × List MemoryCall) :=
  match kernel.processCreateBegin request block addressSpace with
  | (none, after) =>
      some ((none, after),
        if kernel.findFreeSlot = none then [] else [.heap (.kmalloc sizeofProcess block)])
  | (some slot, begun) =>
      let asked := .heap (.kmalloc sizeofProcess block) ::
        if request.isUserspace then [.createAddressSpace addressSpace] else []
      if request.entry = 0 then some ((some block, begun), asked)
      else
        (begun.threadCreateLogged (request.threadRequest (begun.processes block).pid) memory).map
          (fun created =>
          match created.1 with
          | (none, after) =>
              ((none, after.processCreateUndo block slot),
                asked ++ created.2.map .heap ++ after.kfreeProcess block)
          | (some t, after) =>
              ((some block, after.modifyProcess block (fun record =>
                { record with mainThread := some t })),
                asked ++ created.2.map .heap))

def processCleanupLogged (child index : ℕ) (pid : ℤ) : Kernel × List MemoryCall :=
  (kernel.processCleanup child index pid,
    kernel.kfreeProcess child)

end Kernel

/-! ## The functions without their calls -/

namespace Kernel

variable {kernel after : Kernel} {request : ProcessRequest} {block addressSpace : ℕ}
  {memory : ThreadMemory}

/-- Without the list of its calls, the function is the two sections of `process_create` in a row. -/
theorem processCreateLogged_map_fst (kernel : Kernel) (request : ProcessRequest)
    (block addressSpace : ℕ)
    (memory : ThreadMemory) :
    (kernel.processCreateLogged request block addressSpace memory).map Prod.fst =
      match kernel.processCreateBegin request block addressSpace with
      | (none, after) => some (none, after)
      | (some slot, begun) => begun.processCreateFinish block slot request memory := by
  unfold processCreateLogged
  split
  · rfl
  · rename_i slot begun _
    by_cases noEntry : request.entry = 0
    · simp [noEntry, processCreateFinish]
    · rw [if_neg noEntry, processCreateFinish, if_neg noEntry, ← threadCreateLogged_map_fst,
        Option.map_map, Option.map_map]
      refine congrArg (fun change => Option.map change _) (funext fun created => ?_)
      rcases created with ⟨⟨_ | t, made⟩, calls⟩ <;> rfl

/-- The processes have the same address spaces. -/
def SameSpaces (before after : Kernel) : Prop :=
  ∀ p, (after.processes p).addressSpace = (before.processes p).addressSpace

theorem sameSpaces_of_processes (same : after.processes = kernel.processes) :
    SameSpaces kernel after := by
  intro p
  rw [same]

theorem SameSpaces.trans {middle : Kernel} (first : SameSpaces kernel middle)
    (second : SameSpaces middle after) :
    SameSpaces kernel after :=
  fun p => (second p).trans (first p)

theorem sameSpaces_attachOwner (kernel : Kernel) (t ownerPid : ℕ) :
    SameSpaces kernel (kernel.attachOwner t ownerPid) := by
  intro p
  unfold attachOwner
  split
  · rfl
  · rename_i owner _
    by_cases same : p = owner
    · subst same
      simp [processAddThread, modifyProcess, modifyThread]
    · simp [processAddThread, modifyProcess, modifyThread, same]

theorem sameSpaces_threadCreate {threadRequest : ThreadRequest} {answer : Option ℕ}
    (runs : kernel.threadCreate threadRequest memory = some (answer, after)) :
    SameSpaces kernel after := by
  have built : SameSpaces kernel (kernel.buildThread threadRequest memory) := by
    unfold buildThread
    generalize (kernel.nextTid + 1) % 2 ^ 32 = nextTid
    refine SameSpaces.trans ?_ (sameSpaces_attachOwner _ _ _)
    exact sameSpaces_of_processes rfl
  simp only [threadCreate] at runs
  split at runs
  · cases runs
    exact sameSpaces_of_processes rfl
  split at runs
  · cases runs
    exact sameSpaces_of_processes rfl
  generalize kernel.buildThread threadRequest memory = new at built runs
  split at runs
  · cases runs
    exact built
  · rename_i slot _
    rcases Option.map_eq_some_iff.mp runs with ⟨queued, appends, equation⟩
    cases equation
    intro p
    rw [(Relinked.appendReady appends).processes]
    exact built p

theorem addressSpace_of_begin {slot : ℕ} {begun : Kernel}
    (begins : kernel.processCreateBegin request block addressSpace = (some slot, begun))
    (userspace : request.isUserspace = true) :
    (begun.processes block).addressSpace = addressSpace := by
  unfold processCreateBegin at begins
  simp only [userspace, if_true] at begins
  split at begins
  · cases begins
  · split at begins
    · cases begins
    · cases begins
      simp [modifyProcess]

/-- The calls of a failed `process_create` that had got an address space. -/
theorem processCreateLogged_fails {calls : List MemoryCall} (userspace : request.isUserspace = true)
    (fails : kernel.processCreateLogged request block addressSpace memory =
      some ((none, after), calls))
    (created : .createAddressSpace addressSpace ∈ calls) :
    ∃ rest, calls = .heap (.kmalloc sizeofProcess block) :: .createAddressSpace addressSpace ::
      rest ∧
      (addressSpace ≠ 0 → .heap (.kfree addressSpace) ∈ rest) := by
  unfold processCreateLogged at fails
  split at fails
  · simp only [Option.some.injEq, Prod.mk.injEq] at fails
    rw [← fails.2] at created
    split at created <;> simp at created
  · rename_i slot begun begins
    simp only [userspace, if_true] at fails
    split at fails
    · simp at fails
    · rcases Option.map_eq_some_iff.mp fails with ⟨⟨⟨thread, made⟩, threadCalls⟩, creates, equation⟩
      have same := sameSpaces_threadCreate
        (threadCreateLogged_map_fst begun _ memory ▸ congrArg (Option.map Prod.fst) creates)
      cases thread with
      | some t => cases equation
      | none =>
          simp only [Prod.mk.injEq, List.cons_append, List.nil_append] at equation
          refine ⟨_, equation.2.symm, fun nonzero => ?_⟩
          have space : (made.processes block).addressSpace = addressSpace :=
            (same block).trans (addressSpace_of_begin begins userspace)
          simp [kfreeProcess, space, nonzero]

/-- The calls of a `process_create` that returns a process. -/
theorem processCreateLogged_returns {p : ℕ} {calls : List MemoryCall}
    (userspace : request.isUserspace = true)
    (returns : kernel.processCreateLogged request block addressSpace memory =
      some ((some p, after), calls)) :
    ∃ rest, calls = .heap (.kmalloc sizeofProcess block) :: .createAddressSpace addressSpace ::
      rest := by
  unfold processCreateLogged at returns
  split at returns
  · simp at returns
  · simp only [userspace, if_true] at returns
    split at returns
    · simp only [Option.some.injEq, Prod.mk.injEq] at returns
      exact ⟨_, returns.2.symm⟩
    · rcases Option.map_eq_some_iff.mp returns with ⟨⟨⟨thread, made⟩, threadCalls⟩, _, equation⟩
      cases thread with
      | none => cases equation
      | some t =>
          simp only [Prod.mk.injEq, List.cons_append, List.nil_append] at equation
          exact ⟨_, equation.2.symm⟩

end Kernel

/-! ## The frame allocator -/

namespace KernelMemory

variable {hhdmOffset fuel : ℕ} {translate : (ℕ → ℕ) → ℕ → Option ℕ} {memory last : KernelMemory}

/-- No call gives a frame back. -/
theorem perform_takes {call : MemoryCall}
    (performs : memory.perform (kernelPlatform hhdmOffset translate) fuel call = some last) :
    memory.vmm.pages.TakesMore last.vmm.pages := by
  refine takesMore_of_takes (?_ : (kernelPlatform hhdmOffset translate).Takes _ _)
  cases call with
  | heap call =>
      cases call with
      | kmalloc size block =>
          simp only [perform, kmalloc, Option.bind_eq_bind, Option.bind_eq_some_iff, pure,
            Option.some.injEq, Prod.mk.injEq, Prod.exists] at performs
          rcases performs with ⟨answer, grown, ⟨frames, vmm, backs, _, heap, _, _, rfl⟩, same⟩
          split at same
          · cases same
            exact backPages_takes backs
          · cases same
      | kfree block =>
          simp only [perform, Option.bind_eq_bind, Option.bind_eq_some_iff, pure,
            Option.some.injEq] at performs
          rcases performs with ⟨heap, _, rfl⟩
          exact .refl _
  | createAddressSpace frame =>
      simp only [perform, Option.bind_eq_bind, Option.bind_eq_some_iff, Prod.exists] at performs
      rcases performs with ⟨new, vmm, creates, same⟩
      split at same
      · cases same
        have pages := (Platform.createAddressSpace_pages creates).2
        simp only [Prod.ext_iff] at pages
        rw [pages.2]
        exact .one _
      · cases same

theorem performAll_takes {calls : List MemoryCall}
    (performs : memory.performAll (kernelPlatform hhdmOffset translate) fuel calls = some last) :
    memory.vmm.pages.TakesMore last.vmm.pages := by
  induction calls generalizing memory with
  | nil =>
      cases performs
      exact ⟨rfl, rfl, fun _ taken => taken⟩
  | cons call calls hypothesis =>
      simp only [performAll, List.foldlM_cons, Option.bind_eq_bind,
        Option.bind_eq_some_iff] at performs
      rcases performs with ⟨middle, first, rest⟩
      exact (perform_takes first).trans (hypothesis rest)

/-- A frame that has been taken for an address space is not free at the end of any calls. -/
theorem addressSpace_taken {first : MemoryCall} {frame : ℕ} {rest : List MemoryCall}
    (performs : memory.performAll (kernelPlatform hhdmOffset translate) fuel
      (first :: .createAddressSpace frame :: rest) = some last) :
    frame ≠ 0 ∧ ¬last.vmm.pages.IsFree frame ∧ last.vmm.pages ≠ memory.vmm.pages := by
  simp only [performAll, List.foldlM_cons, Option.bind_eq_bind, Option.bind_eq_some_iff] at performs
  rcases performs with ⟨allocated, allocates, created, creates, continues⟩
  have before := perform_takes allocates
  have behind := performAll_takes continues
  simp only [perform, Option.bind_eq_bind, Option.bind_eq_some_iff, Prod.exists] at creates
  rcases creates with ⟨new, vmm, creates, same⟩
  split at same
  · rename_i isFrame
    cases same
    subst isFrame
    rcases Platform.createAddressSpace_pages creates with ⟨nonzero, pages⟩
    have answer : (pmmAllocPage allocated.vmm.pages).1 = new := (congrArg Prod.fst pages).symm
    have state : (pmmAllocPage allocated.vmm.pages).2 = vmm.pages := (congrArg Prod.snd pages).symm
    rcases pmmAllocPage_taken (answer ▸ nonzero) with ⟨taken, i, clear, set⟩
    rw [answer, state] at taken
    rw [state] at set
    refine ⟨nonzero, fun free => taken (behind.isFree free), fun unchanged => ?_⟩
    have still := behind.taken i set
    rw [unchanged] at still
    rw [before.taken i still] at clear
    cases clear
  · cases same

end KernelMemory

/-- Whether `process_create` fails for want of a thread or its process is cleaned up later, after
any other calls of the allocators, the frame of the address space is passed to `kfree` and never
becomes free again. -/
theorem address_space_never_returned (hhdmOffset fuel : ℕ) (translate : (ℕ → ℕ) → ℕ → Option ℕ)
    {request : ProcessRequest} (userspace : request.isUserspace = true) (kernel : Kernel)
    (memory : KernelMemory)
    (block addressSpace : ℕ) (answers : ThreadMemory) :
    (∀ after calls last,
      kernel.processCreateLogged request block addressSpace answers = some ((none, after), calls) →
      .createAddressSpace addressSpace ∈ calls →
      memory.performAll (kernelPlatform hhdmOffset translate) fuel calls = some last →
      .heap (.kfree addressSpace) ∈ calls ∧ ¬last.vmm.pages.IsFree addressSpace ∧
        last.vmm.pages ≠ memory.vmm.pages) ∧
    ∀ p created calls others (later : Kernel) index pid last,
      kernel.processCreateLogged request block addressSpace answers =
        some ((some p, created), calls) →
      (later.processes p).addressSpace = addressSpace →
      memory.performAll (kernelPlatform hhdmOffset translate) fuel
        (calls ++ others ++ (later.processCleanupLogged p index pid).2) = some last →
      .heap (.kfree addressSpace) ∈ (later.processCleanupLogged p index pid).2 ∧
        ¬last.vmm.pages.IsFree addressSpace ∧ last.vmm.pages ≠ memory.vmm.pages := by
  constructor
  · intro after calls last fails created performs
    rcases Kernel.processCreateLogged_fails userspace fails created with ⟨rest, rfl, frees⟩
    rcases KernelMemory.addressSpace_taken performs with ⟨nonzero, taken, changed⟩
    exact ⟨List.mem_cons_of_mem _ (List.mem_cons_of_mem _ (frees nonzero)), taken, changed⟩
  · intro p created calls others later index pid last returns space performs
    rcases Kernel.processCreateLogged_returns userspace returns with ⟨rest, rfl⟩
    simp only [List.cons_append] at performs
    rcases KernelMemory.addressSpace_taken performs with ⟨nonzero, taken, changed⟩
    refine ⟨?_, taken, changed⟩
    simp [Kernel.processCleanupLogged, Kernel.kfreeProcess, space, nonzero]

/-- A kernel with all its threads in use. -/
def fullKernel : Kernel := { startedKernel with threadCount := maxThreads }

def userRequest (entry : ℕ) : ProcessRequest where
  entry := entry
  argc := 0
  argv := 0
  ppid := 0
  isUserspace := true

/-- A heap of one page, a frame allocator with one frame in use, and a slab that is mapped at the
address of this frame. -/
def slabMemory : KernelMemory where
  heap :=
    { heapCurrent := heapStart + pageSizeVmm
      freeList := some heapStart
      memory := fun cell => if cell = 0x200000 then 4072 else if cell = 0x200008 then 1 else
        if cell = 0x100FF0 then 7 else 0
      pages := fun page => if page = heapStart / pageSizeVmm then some 0x200000 else
        if page = 0x100 then some 0x100000 else none }
  vmm :=
    { memory := fun _ => 0
      pages :=
        { pmmBitmap := 0x8000
          bitmap := fun byte => if byte = 0 then 1 else 0
          pmmBitmapSize := 2
          managedBase := 0x100000
          totalPages := 16 }
      currentPml4 := 0x1000 }

/-- The direct map from 0x8000000000 on. -/
def directTranslate (_ : ℕ → ℕ) (virtual : ℕ) : Option ℕ :=
  if 0x8000000000 ≤ virtual then some (virtual - 0x8000000000) else none

/-- What the first process asks of the allocators. -/
def firstCreation : List MemoryCall :=
  [.heap (.kmalloc sizeofProcess (heapStart + 24)), .createAddressSpace 0x101000]

def firstCleanup : List MemoryCall := [.heap (.kfree 0x101000), .heap (.kfree (heapStart + 24))]

theorem fullKernel_fails : ∃ after, fullKernel.processCreateLogged (userRequest 0x4000)
    (heapStart + 24) 0x101000
    ⟨0, 0, 0⟩ = some ((none, after), firstCreation ++ firstCleanup) := by
  have fails : (fullKernel.processCreateLogged (userRequest 0x4000) (heapStart + 24) 0x101000
      ⟨0, 0, 0⟩).map (fun answer => (answer.1.1, answer.2)) =
        some (none, firstCreation ++ firstCleanup) := by
    decide +kernel
  rcases Option.map_eq_some_iff.mp fails with ⟨⟨⟨answer, after⟩, calls⟩, creates, observed⟩
  simp only [Prod.mk.injEq] at observed
  rcases observed with ⟨rfl, rfl⟩
  exact ⟨after, creates⟩

theorem slabMemory_performs :
    ∃ last, slabMemory.performAll (kernelPlatform 0x8000000000 directTranslate) 8
    (firstCreation ++ firstCleanup) = some last ∧ ¬last.vmm.pages.IsFree 0x101000 ∧
      last.heap.memory 0x100FF0 = 1 := by
  have performs : (slabMemory.performAll (kernelPlatform 0x8000000000 directTranslate) 8
      (firstCreation ++ firstCleanup)).map (fun last =>
        (decide (last.vmm.pages.IsFree 0x101000), last.heap.memory 0x100FF0)) =
          some (false, 1) := by
    decide +kernel
  rcases Option.map_eq_some_iff.mp performs with ⟨last, runs, observed⟩
  simp only [Prod.mk.injEq, decide_eq_false_iff_not] at observed
  exact ⟨last, runs, observed⟩

/-- A create that fails, and one whose process is cleaned up at once. -/
theorem address_space_never_returned_first :
    (∃ last, slabMemory.performAll (kernelPlatform 0x8000000000 directTranslate) 8
      (firstCreation ++ firstCleanup) =
        some last ∧ .heap (.kfree 0x101000) ∈ firstCreation ++ firstCleanup ∧
      ¬last.vmm.pages.IsFree 0x101000 ∧ last.vmm.pages ≠ slabMemory.vmm.pages) ∧
    ∃ created last, startedKernel.processCreateLogged (userRequest 0) (heapStart + 24) 0x101000
      ⟨0, 0, 0⟩ =
        some ((some (heapStart + 24), created), firstCreation) ∧
      slabMemory.performAll (kernelPlatform 0x8000000000 directTranslate) 8
        (firstCreation ++ [] ++ (created.processCleanupLogged (heapStart + 24) 1 (-1)).2) =
          some last ∧
      .heap (.kfree 0x101000) ∈ (created.processCleanupLogged (heapStart + 24) 1 (-1)).2 ∧
      ¬last.vmm.pages.IsFree 0x101000 ∧ last.vmm.pages ≠ slabMemory.vmm.pages := by
  rcases slabMemory_performs with ⟨last, performs, _⟩
  constructor
  · rcases fullKernel_fails with ⟨after, fails⟩
    exact ⟨last, performs,
      (address_space_never_returned 0x8000000000 8 directTranslate rfl fullKernel slabMemory
      (heapStart + 24) 0x101000 ⟨0, 0, 0⟩).1 after _ last fails (by decide) performs⟩
  · have returns : (startedKernel.processCreateLogged (userRequest 0) (heapStart + 24) 0x101000
      ⟨0, 0, 0⟩).map
        (fun answer => (answer.1.1, answer.2,
          (answer.1.2.processes (heapStart + 24)).addressSpace)) =
          some (some (heapStart + 24), firstCreation, 0x101000) := by
      decide +kernel
    rcases Option.map_eq_some_iff.mp returns with ⟨⟨⟨answer, created⟩, calls⟩, creates, observed⟩
    simp only [Prod.mk.injEq] at observed
    rcases observed with ⟨rfl, rfl, space⟩
    have cleanup : (created.processCleanupLogged (heapStart + 24) 1 (-1)).2 = firstCleanup := by
      simp only [Kernel.processCleanupLogged, Kernel.kfreeProcess, space]
      rfl
    have again : slabMemory.performAll (kernelPlatform 0x8000000000 directTranslate) 8
        (firstCreation ++ [] ++ (created.processCleanupLogged (heapStart + 24) 1 (-1)).2) =
          some last := by
      rw [cleanup]
      exact performs
    exact ⟨created, last, creates, again,
      (address_space_never_returned 0x8000000000 8 directTranslate rfl
      startedKernel slabMemory (heapStart + 24) 0x101000 ⟨0, 0, 0⟩).2 _ created _ [] created 1 (-1)
        last creates space
        again⟩

/-- After a failed create the frame is in use for good, and a word of the slab in front of it has
been overwritten by `kfree`. -/
theorem failed_create_keeps_frame :
    slabMemory.vmm.pages.IsFree 0x101000 ∧ slabMemory.heap.memory 0x100FF0 = 7 ∧
      ∃ after calls last, fullKernel.processCreateLogged (userRequest 0x4000) (heapStart + 24)
        0x101000 ⟨0, 0, 0⟩ =
          some ((none, after), calls) ∧
        slabMemory.performAll (kernelPlatform 0x8000000000 directTranslate) 8 calls = some last ∧
        ¬last.vmm.pages.IsFree 0x101000 ∧ last.heap.memory 0x100FF0 = 1 := by
  rcases fullKernel_fails with ⟨after, fails⟩
  rcases slabMemory_performs with ⟨last, performs, observed⟩
  exact ⟨by decide +kernel, rfl, after, _, last, fails, performs, observed⟩

end Goshkik

import Goshkik.Lib.Run
import Goshkik.Memory.InitVmm
import Goshkik.Memory.KernelMemory
import Goshkik.Memory.KheapInvariant

/-!
# The direct map while the heap grows

The heap starts 256 MiB behind the beginning of the direct map.  Its pages are mapped one after the
other, and a page that is mapped over the direct map of a frame takes that frame out of it.  As long
as no page of the heap does so to a frame of the allocator or to a page table, the direct map stays
valid in every run of the allocators.
-/

namespace Goshkik

open Transition Platform

/-- The memory of the kernel with the caches of the slab allocator and the content of their
slabs. -/
structure MemorySystem where
  memory : KernelMemory
  caches : ℕ → SlabCache
  cells : Cells

inductive MemoryOperation where
  | kmalloc (size : ℕ)
  | kfree (pointer : Option ℕ)
  | slabAlloc (cache : ℕ)
  | write

/-- The calls of the allocators, and writes of their callers into blocks and objects. -/
inductive MemoryStep (root : ℕ) : MemorySystem → MemoryOperation → MemorySystem → Prop where
  | kmalloc {system : MemorySystem} {size : ℕ} {answer : Option ℕ} {memory : KernelMemory}
      (fuel : ℕ)
      (returns : system.memory.kmalloc (pagedPlatform root) fuel size = some (answer, memory)) :
      MemoryStep root system (.kmalloc size) { system with memory := memory }
  | kfree {system : MemorySystem} {pointer : Option ℕ} {heap : Kheap} (fuel : ℕ)
      (returns : Goshkik.kfree fuel system.memory.heap pointer = some heap) :
      MemoryStep root system (.kfree pointer) { system with
        memory := { system.memory with heap := heap } }
  | slabAlloc {system : MemorySystem} {i : ℕ} {object : Option ℕ} {cache : SlabCache}
      {cells : Cells}
      {memory : KernelMemory} (fuel : ℕ)
      (returns : system.memory.slabAlloc (pagedPlatform root) fuel (system.caches i) system.cells =
        some (object, cache, cells, memory)) :
      MemoryStep root system (.slabAlloc i) ⟨memory, Function.update system.caches i cache, cells⟩
  | write {system : MemorySystem} (blocks cells : Cells) :
      MemoryStep root system .write
        { system with
          memory := { system.memory with heap := { system.memory.heap with memory := blocks } }
          cells := cells }

/-- No page of a growth lies over the direct map of a frame in use. -/
def Boot.Clear (boot : Boot) (address count : ℕ) : Prop :=
  ∀ j < count, ∀ frame, boot.Uses frame →
    virtualPage (address + j * pageSizeVmm) ≠ virtualPage (higherHalf + frame)

/-- A call of `slab_alloc` that gets no slab asks `kmalloc`. -/
def MemorySystem.FallsBack (system : MemorySystem) (i : ℕ) : Prop :=
  (system.caches i).partialList.or (system.caches i).emptyList = none ∧
    (slabInit (system.caches i) system.cells (pmmAllocPage system.memory.vmm.pages).1).1 = none

/-- A growth of the heap asks for no page over the direct map of a frame in use, be there frames for
all of its pages or not. -/
def DirectMapGuard (boot : Boot) (system : MemorySystem) : MemoryOperation → Prop
  | .kmalloc size =>
      ∀ fuel, boot.Clear system.memory.heap.heapCurrent (system.memory.heap.pagesWanted fuel size)
  | .slabAlloc i => system.FallsBack i → ∀ fuel,
      boot.Clear system.memory.heap.heapCurrent
        (system.memory.heap.pagesWanted fuel (system.caches i).objectSize)
  | _ => True

/-! ## What a mapping keeps -/

/-- Page tables behind a direct map that leads to each frame. -/
structure ReachesFrames (root : ℕ) (physical : PhysicalMemory) (vmm : Vmm Pmm) : Prop where
  shape : Shape (pagedEnvironment root physical) vmm
  mapped : DirectlyMapped root physical vmm.memory

namespace ReachesFrames

variable {root : ℕ} {physical : PhysicalMemory} {vmm after : Vmm Pmm} {virtual frame flags : ℕ}

theorem take (reaches : ReachesFrames root physical vmm) :
    ReachesFrames root physical { vmm with pages := (pmmAllocPage vmm.pages).2 } := by
  rcases Pmm.pmmAllocPage_cases reaches.shape.valid.managed with
    ⟨_, exhausted⟩ | ⟨taken, rfl, _, base, pages, erased⟩
  · rw [exhausted]
    exact reaches
  · have shape := reaches.shape
    refine ⟨⟨shape.pml4, shape.unshared, shape.tables, ?_, shape.valid.of_region base pages⟩,
      reaches.mapped⟩
    intro other isFree
    refine shape.fresh other ?_
    change other ∈ (pmmAllocPage vmm.pages).2.freeFrames at isFree
    rw [erased] at isFree
    exact Finset.mem_of_mem_erase isFree

theorem vmmMap (reaches : ReachesFrames root physical vmm)
    (clear : ∀ other ∈ physical.frames, virtualPage virtual ≠ virtualPage (higherHalf + other))
    (maps : (pagedPlatform root).vmmMap virtual frame flags vmm = some after) :
    ReachesFrames root physical after := by
  rcases vmmMap_spec reaches.shape reaches.mapped virtual maps with ⟨shape, leaves⟩
  exact ⟨shape, reaches.mapped.map leaves fun other isOther same =>
    absurd same (clear other isOther)⟩

theorem backPages {address count : ℕ} {frames : List ℕ} (reaches : ReachesFrames root physical vmm)
    (clear : ∀ j < count, ∀ frame ∈ physical.frames,
      virtualPage (address + j * pageSizeVmm) ≠ virtualPage (higherHalf + frame))
    (backs : Goshkik.backPages (pagedPlatform root) address count vmm = some (frames, after)) :
    ReachesFrames root physical after := by
  induction count generalizing address vmm frames after with
  | zero =>
      cases backs
      exact reaches
  | succ count hypothesis =>
      simp only [Goshkik.backPages] at backs
      split at backs
      · cases backs
        exact reaches.take
      · simp only [Option.bind_eq_bind, Option.bind_eq_some_iff, pure, Option.some.injEq,
          Prod.mk.injEq, Prod.exists] at backs
        rcases backs with ⟨mapped, maps, rest, final, continues, -, rfl⟩
        have here := clear 0 (Nat.succ_pos count)
        rw [Nat.zero_mul, Nat.add_zero] at here
        refine hypothesis (reaches.take.vmmMap here maps) ?_ continues
        intro j small frame isFrame samePage
        refine clear (j + 1) (Nat.succ_lt_succ small) frame isFrame (Eq.trans ?_ samePage)
        simp only [virtualPage, pageSizeVmm]
        omega

theorem kmalloc {memory grown : KernelMemory} {fuel size : ℕ} {answer : Option ℕ}
    (reaches : ReachesFrames root physical memory.vmm)
    (clear : ∀ j < memory.heap.pagesWanted fuel size, ∀ frame ∈ physical.frames,
      virtualPage (memory.heap.heapCurrent + j * pageSizeVmm) ≠ virtualPage (higherHalf + frame))
    (returns : memory.kmalloc (pagedPlatform root) fuel size = some (answer, grown)) :
    ReachesFrames root physical grown.vmm := by
  simp only [KernelMemory.kmalloc, Option.bind_eq_bind, Option.bind_eq_some_iff, pure,
    Option.some.injEq, Prod.mk.injEq, Prod.exists] at returns
  rcases returns with ⟨frames, vmm, backs, _, heap, _, _, rfl⟩
  exact reaches.backPages clear backs

/-- A frame is mapped at its own address in the lower half, apart from the direct map. -/
theorem frame_below (reaches : ReachesFrames root physical vmm)
    (nonzero : (pmmAllocPage vmm.pages).1 ≠ 0) : (pmmAllocPage vmm.pages).1 < 2 ^ 47 :=
  physical.below _
    (reaches.shape.valid.free (reaches.shape.valid.allocPage nonzero).2.1)

theorem clear_of_below (below : virtual < 2 ^ 47) :
    ∀ other ∈ physical.frames, virtualPage virtual ≠ virtualPage (higherHalf + other) := by
  intro other isOther samePage
  rw [virtualPage_higherHalf isOther] at samePage
  simp only [virtualPage] at samePage
  omega

theorem slabPage {memory paged : KernelMemory} {page : ℕ}
    (reaches : ReachesFrames root physical memory.vmm)
    (returns : memory.slabPage (pagedPlatform root) = some (page, paged)) :
    ReachesFrames root physical paged.vmm := by
  rcases KernelMemory.slabPage_cases returns with ⟨_, rfl, ⟨_, unmapped⟩ | ⟨nonzero, maps⟩⟩
  · rw [unmapped]
    exact reaches.take
  · exact reaches.take.vmmMap (clear_of_below (reaches.frame_below nonzero)) maps

theorem slabAlloc {system : MemorySystem} {i fuel : ℕ} {object : Option ℕ} {cache : SlabCache}
    {cells : Cells}
    {memory : KernelMemory} (reaches : ReachesFrames root physical system.memory.vmm)
    (clear : system.FallsBack i →
      ∀ j < system.memory.heap.pagesWanted fuel (system.caches i).objectSize,
      ∀ frame ∈ physical.frames,
        virtualPage (system.memory.heap.heapCurrent + j * pageSizeVmm) ≠
          virtualPage (higherHalf + frame))
    (returns : system.memory.slabAlloc (pagedPlatform root) fuel (system.caches i) system.cells =
      some (object, cache, cells, memory)) : ReachesFrames root physical memory.vmm := by
  rcases KernelMemory.slabAlloc_cases returns with
    ⟨_, rfl | ⟨page, pages⟩⟩ | ⟨fallsBack, page, paged, pages, blocks⟩
  · exact reaches
  · exact reaches.slabPage pages
  · have clear := clear fallsBack
    rw [← (KernelMemory.slabPage_cases pages).1] at clear
    exact (reaches.slabPage pages).kmalloc clear blocks

theorem step {boot : Boot} {system last : MemorySystem} {operation : MemoryOperation}
    (reaches : ReachesFrames root boot.used system.memory.vmm)
    (taken : Guarded (DirectMapGuard boot) (MemoryStep root) system operation last) :
    ReachesFrames root boot.used last.memory.vmm := by
  rcases taken with ⟨guard, step⟩
  cases step with
  | kmalloc fuel returns => exact reaches.kmalloc (guard fuel) returns
  | kfree fuel returns => exact reaches
  | slabAlloc fuel returns =>
      exact reaches.slabAlloc (fun fallsBack => guard fallsBack fuel) returns
  | write blocks cells => exact reaches

theorem initKheap {memory ready : KernelMemory} {size : ℕ}
    (reaches : ReachesFrames root physical memory.vmm)
    (clear : ∀ other ∈ physical.frames, virtualPage heapStart ≠ virtualPage (higherHalf + other))
    (inits : memory.initKheap (pagedPlatform root) = some (size, ready)) :
    ReachesFrames root physical ready.vmm := by
  simp only [KernelMemory.initKheap] at inits
  split at inits
  · simp only [Option.bind_eq_bind, Option.bind_eq_some_iff, pure, Option.some.injEq, Prod.mk.injEq,
      Prod.exists] at inits
    rcases inits with ⟨_, heap, _, _, rfl⟩
    exact reaches.take
  · simp only [Option.bind_eq_bind, Option.bind_eq_some_iff, pure, Option.some.injEq, Prod.mk.injEq,
      Prod.exists] at inits
    rcases inits with ⟨vmm, maps, _, heap, _, _, rfl⟩
    exact reaches.take.vmmMap clear maps

theorem physicalToVirtual_eq (isFrame : frame ∈ physical.frames) :
    (pagedPlatform root).physicalToVirtual frame = higherHalf + frame := by
  have below := physical.below frame isFrame
  simp only [physicalToVirtual, pagedPlatform, kernelPlatform, higherHalf]
  omega

theorem vmmResolve_direct (reaches : ReachesFrames root physical vmm)
    (isFrame : frame ∈ physical.frames) :
    (pagedPlatform root).vmmResolve ((pagedPlatform root).physicalToVirtual frame) vmm =
      some frame := by
  rcases reaches.mapped frame isFrame with ⟨entry, leaf, leads⟩
  have aligned := higherHalf_aligned isFrame
  rw [vmmResolve_eq reaches.shape reaches.mapped, physicalToVirtual_eq isFrame, leaf]
  simp only [leads, and_pageOffset]
  rw [show (higherHalf + frame) % 4096 = 0 from aligned, Nat.or_zero]

end ReachesFrames

/-- In every run in which the heap asks for no page over the direct map of a frame in use, each
frame of the region is found behind the direct map by `vmm_resolve`, and the words of each frame in
use by the processor. -/
theorem direct_map_guarded_runs {boot : Boot} {stale : ℕ → BitVec 8} {pmm : Pmm} {vmm : Vmm Pmm}
    {blocks : Cells}
    {fuel size : ℕ} {memory : KernelMemory} {caches : ℕ → SlabCache} {cells : Cells}
    {operations : List MemoryOperation} {last : MemorySystem}
    (initialised : initPmm higherHalf boot.memmap stale = some pmm)
    (inits : initVmm (pagedPlatform boot.oldPml4) boot.cr3 boot.memmap fuel ⟨boot.memory, pmm, 0⟩ =
      some vmm)
    (clear : boot.Clear heapStart 1)
    (initsHeap : KernelMemory.initKheap (pagedPlatform vmm.currentPml4) ⟨Kheap.boot blocks, vmm⟩ =
      some (size, memory))
    (run : Run (Guarded (DirectMapGuard boot) (MemoryStep vmm.currentPml4)) ⟨memory, caches, cells⟩
      operations last) :
    (∀ frame, boot.Manages frame →
      (pagedPlatform vmm.currentPml4).vmmResolve
        ((pagedPlatform vmm.currentPml4).physicalToVirtual frame)
        last.memory.vmm = some frame) ∧
    ∀ frame, boot.Uses frame → ∀ index : Fin 512,
      (pagedPlatform vmm.currentPml4).translate last.memory.vmm.memory
        ((pagedPlatform vmm.currentPml4).slot frame index) = some (frame + 8 * index.val) := by
  have spec : Shape (pagedEnvironment vmm.currentPml4 boot.used) vmm ∧
      DirectlyMapped vmm.currentPml4 boot.used vmm.memory ∧ boot.onlyUsed.HasRegion vmm.pages :=
    boot.onlyUsed.initVmm_spec initialised inits
  have start : ReachesFrames vmm.currentPml4 boot.used memory.vmm := by
    refine ReachesFrames.initKheap ⟨spec.1, spec.2.1⟩ (fun other uses => ?_) initsHeap
    simpa using clear 0 Nat.one_pos other uses
  have reaches : ReachesFrames vmm.currentPml4 boot.used last.memory.vmm := by
    have kept := run.invariant (fun _ _ _ reaches step => ReachesFrames.step reaches step) start
    exact kept
  exact ⟨fun frame manages => reaches.vmmResolve_direct (.inl manages), fun frame uses index =>
    reaches.mapped.slot uses index⟩

/-! ## Two machines -/

/-- Page tables at `0x1000` to `0x5000` that map the first 2 MiB and 2 MiB from `0x10000000` on. -/
def bootTables : ℕ → ℕ := fun address =>
  if address = 0x1800 then 0x2003
  else if address = 0x2000 then 0x3003
  else if address = 0x3000 then 0x4003
  else if address = 0x3400 then 0x5003
  else if 0x4000 ≤ address ∧ address < 0x5000 then (address - 0x4000) / 8 * 4096 + 3
  else if 0x5000 ≤ address ∧ address < 0x6000 then 0x10000000 + (address - 0x5000) / 8 * 4096 + 3
  else 0

def bootFrames : List ℕ :=
  [0x1000, 0x2000, 0x3000, 0x4000, 0x5000] ++ (List.range 8).map (fun i =>
    0x100000 + i * pageSize) ++
    (List.range 8).map (fun i => 0x10000000 + i * pageSize)

/-- The tables on the way to the beginning of the direct map and to `0x10000000` in it. -/
def bootPaths : List (List (Fin 512) × ℕ) :=
  [([], 0x1000), ((tablePath higherHalf).take 1, 0x2000), ((tablePath higherHalf).take 2, 0x3000),
    (tablePath higherHalf, 0x4000), (tablePath (higherHalf + 0x10000000), 0x5000)]

theorem entryChild_bootTables :
    (∀ index, entryChild (tableRead bootTables 0x1000 index) = if index = 256 then some 0x2000
      else none) ∧
    (∀ index, entryChild (tableRead bootTables 0x2000 index) = if index = 0 then some 0x3000
      else none) ∧
    ∀ index, entryChild (tableRead bootTables 0x3000 index) =
      if index = 0 then some 0x4000 else if index = 128 then some 0x5000 else none := by
  decide +kernel

theorem tableAt_bootTables {path : List (Fin 512)} {table : ℕ} (short : path.length ≤ 3)
    (arrives : tableAt bootTables 0x1000 path = some table) : (path, table) ∈ bootPaths := by
  rcases entryChild_bootTables with ⟨root, pdpt, pd⟩
  rcases path with _ | ⟨first, path⟩
  · cases arrives
    decide
  rw [tableAt_cons, Option.bind_eq_some_iff] at arrives
  rcases arrives with ⟨below, points, arrives⟩
  rw [root, Option.ite_none_right_eq_some] at points
  rcases points with ⟨rfl, isBelow⟩
  cases isBelow
  rcases path with _ | ⟨second, path⟩
  · cases arrives
    decide
  rw [tableAt_cons, Option.bind_eq_some_iff] at arrives
  rcases arrives with ⟨below, points, arrives⟩
  rw [pdpt, Option.ite_none_right_eq_some] at points
  rcases points with ⟨rfl, isBelow⟩
  cases isBelow
  rcases path with _ | ⟨third, path⟩
  · cases arrives
    decide
  rw [tableAt_cons, Option.bind_eq_some_iff] at arrives
  rcases arrives with ⟨below, points, arrives⟩
  rw [List.length_cons, List.length_cons, List.length_cons] at short
  have last : path = [] := List.length_eq_zero_iff.mp (by omega)
  subst last
  cases arrives
  rw [pd] at points
  split at points
  · rename_i isThird
    cases points
    rw [isThird]
    decide
  · rw [Option.ite_none_right_eq_some] at points
    rcases points with ⟨rfl, isTable⟩
    cases isTable
    decide

/-- What the bootloader hands over on a machine with one usable region of eight frames. -/
def smallBoot (base : ℕ) (isBase : base = 0x100000 ∨ base = 0x10000000) : Boot where
  physical :=
    { frames := {frame | frame ∈ bootFrames}
      isFrame := by
        have frames : ∀ frame ∈ bootFrames, IsFrame frame := by
          unfold IsFrame
          decide
        exact frames
      below := by
        have small : ∀ frame ∈ bootFrames, frame < 2 ^ 47 := by decide
        exact small }
  memmap := [⟨base, 0x8000, memmapUsable⟩]
  region := ⟨base, 0x8000, memmapUsable⟩
  memory := bootTables
  cr3 := 0x1000
  biggest := rfl
  regular := by rcases isBase with rfl | rfl <;> exact ⟨by decide, by decide, by decide⟩
  usable := by rcases isBase with rfl | rfl <;> simp
  managed := by
    have frames : (∀ i < 8, 0x100000 + i * pageSize ∈ bootFrames) ∧
        ∀ i < 8, 0x10000000 + i * pageSize ∈ bootFrames := by
      decide
    rcases isBase with rfl | rfl
    · exact frames.1
    · exact frames.2
  tables path table upper short arrives := by
    have listed := tableAt_bootTables short arrives
    have apart : ∀ found ∈ bootPaths, found.2 ∈ bootFrames ∧
        (∀ i < 8, found.2 ≠ 0x100000 + i * pageSize) ∧
          ∀ i < 8, found.2 ≠ 0x10000000 + i * pageSize := by
      decide
    rcases apart _ listed with ⟨isFrame, low, high⟩
    rcases isBase with rfl | rfl
    · exact ⟨isFrame, low⟩
    · exact ⟨isFrame, high⟩
  unshared left right table _ _ leftShort rightShort leftArrives rightArrives := by
    have unique : ∀ one ∈ bootPaths, ∀ other ∈ bootPaths, one.2 = other.2 →
      one.1 = other.1 := by decide
    exact unique _ (tableAt_bootTables leftShort leftArrives) _
      (tableAt_bootTables rightShort rightArrives) rfl
  direct := by
    have leads : ∀ frame ∈ bootFrames,
        (leafEntry bootTables 0x1000 (tablePath (higherHalf + frame))
          (pageIndex (higherHalf + frame))).map
          (· &&& pageMask) = some frame := by
      decide +kernel
    exact fun frame isFrame => Option.map_eq_some_iff.mp (leads frame isFrame)

section Small

variable {base : ℕ} (isBase : base = 0x100000 ∨ base = 0x10000000)

def smallPmm (base : ℕ) : Pmm :=
  (initPmm higherHalf [⟨base, 0x8000, memmapUsable⟩] (fun _ => 0)).getD ⟨0, fun _ => 0, 0, 0, 0⟩

theorem initPmm_small : initPmm higherHalf (smallBoot base isBase).memmap (fun _ => 0) =
    some (smallPmm base) := rfl

/-- The page tables after `init_vmm` has copied the upper half. -/
def smallCopied (base : ℕ) : Vmm Pmm :=
  ⟨copyWords (zeroFrame bootTables (base + pageSize)) 0x1000 (base + pageSize) 256 256,
    (pmmAllocPage (smallPmm base)).2, base + pageSize⟩

def smallVmm (base : ℕ) : Option (Vmm Pmm) :=
  ((pagedPlatform 0x1000).mapUsable 9 [⟨base, 0x8000, memmapUsable⟩] (smallCopied base)).bind
    (fun vmm =>
    (mapPmmBitmap (pagedPlatform 0x1000) 9 vmm).map (fun vmm =>
      { vmm with currentPml4 := vmm.currentPml4 &&& pageMask }))

theorem initVmm_small : initVmm (pagedPlatform (smallBoot base isBase).oldPml4)
    (smallBoot base isBase).cr3
    (smallBoot base isBase).memmap 9 ⟨(smallBoot base isBase).memory, smallPmm base, 0⟩ =
      smallVmm base := by
  have first : (pmmAllocPage (smallPmm base)).1 = base + pageSize := by
    rcases isBase with rfl | rfl <;> decide
  have nonzero : (pmmAllocPage (smallPmm base)).1 ≠ 0 := by
    rw [first]
    exact Nat.succ_ne_zero _
  have old : (smallBoot base isBase).oldPml4 = 0x1000 := by
    change 0x1000 &&& pageMask = 0x1000
    decide
  rw [(smallBoot base isBase).initVmm_eq (Boot.hasRegion (initPmm_small isBase)) nonzero, first,
    old, smallVmm, smallCopied]
  rfl

end Small

/-- With its frames below the heap, a machine keeps the direct map when the heap maps its first
page. -/
theorem smallBoot_clear {count : ℕ} (small : count ≤ 1) :
    (smallBoot 0x100000 (.inl rfl)).Clear heapStart count := by
  have tables : ∀ found ∈ bootPaths, virtualPage heapStart ≠
    virtualPage (higherHalf + found.2) := by decide
  have managed : ∀ i < 8, virtualPage heapStart ≠
    virtualPage (higherHalf + (0x100000 + i * pageSize)) := by decide
  intro j inside frame uses
  obtain rfl : j = 0 := by omega
  rw [Nat.zero_mul, Nat.add_zero]
  rcases uses with ⟨i, isPage, rfl⟩ | ⟨path, _, short, arrives⟩
  · exact managed i isPage
  · exact tables (path, frame) (tableAt_bootTables short arrives)

theorem pagesWanted_le (fuel : ℕ) (heap : Kheap) (size : ℕ) :
    heap.pagesWanted fuel size ≤ totalSize (roundedSize size) / pageSizeVmm := by
  have wanted : (if roundedSize size > 2 ^ 64 - 1 - sizeofBlockHeader then 0
      else totalSize (roundedSize size) / pageSizeVmm) ≤
        totalSize (roundedSize size) / pageSizeVmm := by
    split
    · exact Nat.zero_le _
    · exact le_rfl
  unfold Kheap.pagesWanted
  dsimp only
  by_cases isZero : size = 0
  · rw [if_pos isZero]
    exact Nat.zero_le _
  · rw [if_neg isZero]
    split
    · exact wanted
    · split
      · exact wanted
      · exact Nat.zero_le _

/-- A block of 16 bytes on the first page of the heap. -/
theorem direct_map_guarded_runs_low : ∃ (vmm : Vmm Pmm) (size : ℕ) (memory : KernelMemory)
    (last : MemorySystem),
    initVmm (pagedPlatform (smallBoot 0x100000 (.inl rfl)).oldPml4)
      (smallBoot 0x100000 (.inl rfl)).cr3
      (smallBoot 0x100000 (.inl rfl)).memmap 9 ⟨(smallBoot 0x100000 (.inl rfl)).memory,
        smallPmm 0x100000, 0⟩ =
        some vmm ∧
    KernelMemory.initKheap (pagedPlatform vmm.currentPml4) ⟨Kheap.boot (fun _ => 0), vmm⟩ =
      some (size, memory) ∧
    Run (Guarded (DirectMapGuard (smallBoot 0x100000 (.inl rfl))) (MemoryStep vmm.currentPml4))
      ⟨memory, fun _ => ⟨⟨8, 8, 507⟩, 0, none, none, none, none, none⟩, fun _ =>
        0⟩ [.kmalloc 16] last ∧
    ∀ frame, (smallBoot 0x100000 (.inl rfl)).Manages frame →
      (pagedPlatform vmm.currentPml4).vmmResolve
        ((pagedPlatform vmm.currentPml4).physicalToVirtual frame)
        last.memory.vmm = some frame := by
  have returns : ((smallVmm 0x100000).bind (fun vmm =>
      (KernelMemory.initKheap (pagedPlatform vmm.currentPml4) ⟨Kheap.boot (fun _ => 0), vmm⟩).bind
        (fun ready =>
        (ready.2.kmalloc (pagedPlatform vmm.currentPml4) 1 16).map (fun _ =>
          ready.2.heap.heapCurrent)))) =
          some heapStart := by
    decide +kernel
  simp only [Option.bind_eq_some_iff, Option.map_eq_some_iff, Prod.exists] at returns
  rcases returns with ⟨vmm, inits, size, memory, initsHeap, answer, grown, allocates, isStart⟩
  have booted := (initVmm_small (.inl rfl)).trans inits
  have guard : DirectMapGuard (smallBoot 0x100000 (.inl rfl))
      ⟨memory, fun _ => ⟨⟨8, 8, 507⟩, 0, none, none, none, none, none⟩, fun _ =>
        0⟩ (.kmalloc 16) := by
    intro fuel
    rw [isStart]
    exact smallBoot_clear ((pagesWanted_le fuel _ 16).trans (by decide))
  have run : Run (Guarded (DirectMapGuard (smallBoot 0x100000 (.inl rfl)))
    (MemoryStep vmm.currentPml4))
      ⟨memory, fun _ => ⟨⟨8, 8, 507⟩, 0, none, none, none, none, none⟩, fun _ =>
        0⟩ [.kmalloc 16] _ :=
    .cons ⟨guard, .kmalloc 1 allocates⟩ (.nil _)
  exact ⟨vmm, size, memory, _, booted, initsHeap, run,
    (direct_map_guarded_runs (initPmm_small (.inl rfl)) booted (smallBoot_clear le_rfl) initsHeap
      run).1⟩

/-- The first page of the heap takes frame `0x10000000` out of the direct map. -/
theorem direct_map_overlaid : ∃ (boot : Boot) (pmm : Pmm) (vmm : Vmm Pmm) (size : ℕ)
    (memory : KernelMemory),
    initPmm higherHalf boot.memmap (fun _ => 0) = some pmm ∧
    initVmm (pagedPlatform boot.oldPml4) boot.cr3 boot.memmap 9 ⟨boot.memory, pmm, 0⟩ = some vmm ∧
    KernelMemory.initKheap (pagedPlatform vmm.currentPml4) ⟨Kheap.boot (fun _ => 0), vmm⟩ =
      some (size, memory) ∧
    boot.Manages 0x10000000 ∧
    (pagedPlatform vmm.currentPml4).vmmResolve
      ((pagedPlatform vmm.currentPml4).physicalToVirtual 0x10000000)
      memory.vmm = some 0x10005000 := by
  have resolves : ((smallVmm 0x10000000).bind (fun vmm =>
      (KernelMemory.initKheap (pagedPlatform vmm.currentPml4) ⟨Kheap.boot (fun _ => 0), vmm⟩).bind
        (fun ready =>
        (pagedPlatform vmm.currentPml4).vmmResolve
          ((pagedPlatform vmm.currentPml4).physicalToVirtual 0x10000000)
          ready.2.vmm))) = some 0x10005000 := by
    decide +kernel
  simp only [Option.bind_eq_some_iff, Prod.exists] at resolves
  rcases resolves with ⟨vmm, inits, size, memory, initsHeap, resolves⟩
  exact ⟨smallBoot 0x10000000 (.inr rfl), smallPmm 0x10000000, vmm, size, memory, initPmm_small _,
    (initVmm_small _).trans inits, initsHeap, ⟨0, by decide, rfl⟩, resolves⟩

end Goshkik

import Goshkik.Memory.AddressSpace
import Goshkik.Memory.Slab

/-!
# The allocators on one virtual memory manager

`kmalloc` gets the pages of a growth from the frame allocator and maps them, and `slab_alloc` does
so with the page of a new slab.  The functions of the heap and of the slab allocator take what they
get as arguments; here they are put together with `vmm_map`.
-/

namespace Goshkik

/-- How many pages a call of `kmalloc` asks for when it grows the heap. -/
def Kheap.pagesWanted (fuel : ℕ) (heap : Kheap) (size : ℕ) : ℕ :=
  let wanted :=
    if roundedSize size > 2 ^ 64 - 1 - sizeofBlockHeader then 0
    else totalSize (roundedSize size) / pageSizeVmm
  if size = 0 then 0
  else
    match heap.freeList with
    | none => wanted
    | some first =>
        match findBlock heap (roundedSize size) fuel first with
        | some (false, _) => wanted
        | _ => 0

/-- The loop of `request_more_memory` as the virtual memory manager sees it: the frames that it gets
and maps. -/
def backPages (platform : Platform Pmm) (address : ℕ) : ℕ → Vmm Pmm → Option (List ℕ × Vmm Pmm)
  | 0, vmm => some ([], vmm)
  | count + 1, vmm =>
      let (physical, pages) := platform.pmmAllocPage vmm.pages
      if physical = 0 then some ([], { vmm with pages := pages })
      else do
        let vmm ← platform.vmmMap address physical (vmmPresent ||| vmmWrite) { vmm with
          pages := pages }
        let (frames, vmm) ← backPages platform ((address + pageSizeVmm) % 2 ^ 64) count vmm
        return (physical :: frames, vmm)

/-- The heap and what it gets its pages from. -/
structure KernelMemory where
  heap : Kheap
  vmm : Vmm Pmm

namespace KernelMemory

variable (platform : Platform Pmm) (fuel : ℕ)

/-- The first page of the heap. -/
def initKheap (memory : KernelMemory) : Option (ℕ × KernelMemory) :=
  let (physical, pages) := platform.pmmAllocPage memory.vmm.pages
  if physical = 0 then do
    let (size, heap) ← Goshkik.initKheap memory.heap physical
    return (size, { heap := heap, vmm := { memory.vmm with pages := pages } })
  else do
    let vmm ← platform.vmmMap heapStart physical (vmmPresent ||| vmmWrite) { memory.vmm with
      pages := pages }
    let (size, heap) ← Goshkik.initKheap memory.heap physical
    return (size, { heap := heap, vmm := vmm })

def kmalloc (memory : KernelMemory) (size : ℕ) : Option (Option ℕ × KernelMemory) := do
  let (frames, vmm) ←
    backPages platform memory.heap.heapCurrent (memory.heap.pagesWanted fuel size) memory.vmm
  let (answer, heap) ← Goshkik.kmalloc fuel memory.heap size frames
  return (answer, { heap := heap, vmm := vmm })

/-- The page that `slab_init` gets, which it maps at the address of its frame. -/
def slabPage (memory : KernelMemory) : Option (ℕ × KernelMemory) :=
  let (physical, pages) := platform.pmmAllocPage memory.vmm.pages
  if physical = 0 then some (0, { memory with vmm := { memory.vmm with pages := pages } })
  else do
    let vmm ← platform.vmmMap physical physical (vmmPresent ||| vmmWrite) { memory.vmm with
      pages := pages }
    return (physical, { memory with vmm := vmm })

/-- The block that `slab_alloc` falls back to when there is no new slab. -/
def slabBlock (memory : KernelMemory) (cache : SlabCache) (cells : Cells) (physical : ℕ) :
    Option (Option ℕ × KernelMemory) :=
  match (slabInit cache cells physical).1 with
  | none => memory.kmalloc platform fuel cache.objectSize
  | some _ => some (none, memory)

/-- The result comes with the cache, the slab pages and the memory of the kernel afterwards. -/
def slabAlloc (memory : KernelMemory) (cache : SlabCache) (cells : Cells) :
    Option (Option ℕ × SlabCache × Cells × KernelMemory) :=
  match cache.partialList.or cache.emptyList with
  | some _ => do
      let (object, cache, cells) ← Goshkik.slabAlloc fuel cache cells 0 none
      return (object, cache, cells, memory)
  | none => do
      let (physical, memory) ← memory.slabPage platform
      let (block, memory) ← memory.slabBlock platform fuel cache cells physical
      let (object, cache, cells) ← Goshkik.slabAlloc fuel cache cells physical block
      return (object, cache, cells, memory)

/-- The heap gets a frame, or none. -/
theorem heap_of_initKheap {platform : Platform Pmm} {memory ready : KernelMemory} {size : ℕ}
    (inits : memory.initKheap platform = some (size, ready)) :
    ∃ frame, Goshkik.initKheap memory.heap frame = some (size, ready.heap) := by
  simp only [initKheap] at inits
  split at inits
  all_goals
    simp only [Option.bind_eq_bind, Option.bind_eq_some_iff, pure, Option.some.injEq, Prod.mk.injEq,
      Prod.exists] at inits
  · rcases inits with ⟨_, heap, inits, rfl, rfl⟩
    exact ⟨_, inits⟩
  · rcases inits with ⟨_, _, _, heap, inits, rfl, rfl⟩
    exact ⟨_, inits⟩

/-- A slab gets no page, or one that is mapped. -/
theorem slabPage_cases {platform : Platform Pmm} {memory paged : KernelMemory} {page : ℕ}
    (returns : memory.slabPage platform = some (page, paged)) :
    paged.heap = memory.heap ∧ page = (platform.pmmAllocPage memory.vmm.pages).1 ∧
      ((page = 0 ∧
          paged.vmm = { memory.vmm with pages := (platform.pmmAllocPage memory.vmm.pages).2 }) ∨
        (page ≠ 0 ∧ platform.vmmMap page page (vmmPresent ||| vmmWrite)
          { memory.vmm with pages := (platform.pmmAllocPage memory.vmm.pages).2 } =
            some paged.vmm)) := by
  simp only [slabPage] at returns
  split at returns
  · rename_i exhausted
    cases returns
    exact ⟨rfl, exhausted.symm, .inl ⟨rfl, rfl⟩⟩
  · rename_i nonzero
    simp only [Option.bind_eq_bind, Option.bind_eq_some_iff, pure, Option.some.injEq,
      Prod.mk.injEq] at returns
    rcases returns with ⟨vmm, maps, rfl, rfl⟩
    exact ⟨rfl, rfl, .inr ⟨nonzero, maps⟩⟩

/-- `slab_alloc` has no slab with a free slot and gets no new one. -/
def FallsBack (platform : Platform Pmm) (memory : KernelMemory) (cache : SlabCache)
    (cells : Cells) : Prop :=
  cache.partialList.or cache.emptyList = none ∧
    (slabInit cache cells (platform.pmmAllocPage memory.vmm.pages).1).1 = none

/-- An object comes from a slab, which may be a new one, or from the heap. -/
theorem slabAlloc_cases {platform : Platform Pmm} {fuel : ℕ} {memory after : KernelMemory}
    {cache cacheAfter : SlabCache} {cells cellsAfter : Cells} {object : Option ℕ}
    (returns : memory.slabAlloc platform fuel cache cells =
      some (object, cacheAfter, cellsAfter, after)) :
    (¬memory.FallsBack platform cache cells ∧
        (after = memory ∨ ∃ page, memory.slabPage platform = some (page, after))) ∨
      (memory.FallsBack platform cache cells ∧ ∃ page paged,
        memory.slabPage platform = some (page, paged) ∧
          paged.kmalloc platform fuel cache.objectSize = some (object, after)) := by
  rw [slabAlloc] at returns
  split at returns
  · rename_i slab hasSlab
    simp only [Option.bind_eq_bind, Option.bind_eq_some_iff, pure, Option.some.injEq,
      Prod.mk.injEq, Prod.exists] at returns
    rcases returns with ⟨_, _, _, _, _, _, _, rfl⟩
    refine .inl ⟨fun fallsBack => ?_, .inl rfl⟩
    have noSlab := fallsBack.1
    rw [hasSlab] at noSlab
    cases noSlab
  · rename_i noSlab
    simp only [Option.bind_eq_bind, Option.bind_eq_some_iff, pure, Option.some.injEq,
      Prod.mk.injEq, Prod.exists] at returns
    rcases returns with ⟨page, paged, pages, block, grown, blocks, _, _, _, allocates, rfl, rfl,
      rfl, rfl⟩
    have isPage := (slabPage_cases pages).2.1
    unfold slabBlock at blocks
    split at blocks
    · rename_i noPage
      have falls : slabForAlloc cache cells page =
          (none, cache, (slabInit cache cells page).2) := by
        have isNone : slabInit cache cells page = (none, (slabInit cache cells page).2) :=
          Prod.ext noPage rfl
        rw [slabForAlloc, noSlab, isNone]
      rw [Goshkik.slabAlloc, falls] at allocates
      cases allocates
      exact .inr ⟨⟨noSlab, isPage ▸ noPage⟩, page, paged, pages, blocks⟩
    · rename_i slab isSlab
      cases blocks
      refine .inl ⟨fun fallsBack => ?_, .inr ⟨page, pages⟩⟩
      rw [isPage, fallsBack.2] at isSlab
      cases isSlab

end KernelMemory

/-! ## The frames of a growth -/

theorem backPages_takes {platform : Platform Pmm} {address count : ℕ} {vmm after : Vmm Pmm}
    {frames : List ℕ}
    (backs : backPages platform address count vmm = some (frames, after)) :
    platform.Takes vmm.pages after.pages := by
  induction count generalizing address vmm frames after with
  | zero =>
      simp only [backPages, Option.some.injEq, Prod.mk.injEq] at backs
      exact backs.2 ▸ .refl _
  | succ count hypothesis =>
      simp only [backPages] at backs
      split at backs
      · simp only [Option.some.injEq, Prod.mk.injEq] at backs
        exact backs.2 ▸ .one _
      · simp only [Option.bind_eq_bind, Option.bind_eq_some_iff, pure, Option.some.injEq,
          Prod.mk.injEq, Prod.exists] at backs
        rcases backs with ⟨mapped, maps, rest, final, continues, -, rfl⟩
        exact (Platform.Takes.one _).trans
          ((Platform.vmmMap_takes maps).trans (hypothesis continues))

end Goshkik

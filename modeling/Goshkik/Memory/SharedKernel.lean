import Goshkik.Memory.DirectMap
import Goshkik.Memory.KheapPlaces

/-!
# Kernel memory in every address space

`create_address_space` copies the upper half of the kernel's root once.  The blocks of the heap lie
in the upper half, so a space sees them as long as the heap does not need a new entry of the root.
The pages of the slab allocator are mapped at the addresses of their frames, which no space sees.
-/

namespace Goshkik

open RadixTree Transition Platform

/-- A block or a slab object that has been handed out. -/
structure KernelObject where
  address : ℕ
  size : ℕ

/-- The kernel with the objects that have been handed out and the roots of the address spaces. -/
structure SharedKernel where
  system : MemorySystem
  live : List KernelObject
  spaces : List ℕ

inductive SharedOperation where
  | createAddressSpace
  | kmalloc (size : ℕ)
  | slabAlloc (cache : ℕ)
  | write

/-- A call hands out an object, or nothing. -/
def SharedKernel.handOut (kernel : SharedKernel) (address : Option ℕ) (size : ℕ) :
    List KernelObject :=
  match address with
  | none => kernel.live
  | some address => ⟨address, size⟩ :: kernel.live

/-- The calls that make spaces and objects, and writes of their callers into blocks and objects. -/
inductive SharedStep (root : ℕ) : SharedKernel → SharedOperation → SharedKernel → Prop where
  | createAddressSpace {kernel : SharedKernel} {newPml4 : ℕ} {vmm : Vmm Pmm}
      (creates : (pagedPlatform root).createAddressSpace kernel.system.memory.vmm =
        some (newPml4, vmm)) :
      SharedStep root kernel .createAddressSpace
        { kernel with
          system := { kernel.system with memory := { kernel.system.memory with vmm := vmm } }
          spaces := newPml4 :: kernel.spaces }
  | kmalloc {kernel : SharedKernel} {size : ℕ} {answer : Option ℕ} {memory : KernelMemory}
      (fuel : ℕ)
      (returns : kernel.system.memory.kmalloc (pagedPlatform root) fuel size =
        some (answer, memory)) :
      SharedStep root kernel (.kmalloc size)
        { kernel with
          system := { kernel.system with memory := memory }
          live := kernel.handOut answer size }
  | slabAlloc {kernel : SharedKernel} {i : ℕ} {object : Option ℕ} {cache : SlabCache}
      {cells : Cells} {memory : KernelMemory} (fuel : ℕ)
      (returns : kernel.system.memory.slabAlloc (pagedPlatform root) fuel (kernel.system.caches i)
        kernel.system.cells = some (object, cache, cells, memory)) :
      SharedStep root kernel (.slabAlloc i)
        { kernel with
          system := ⟨memory, Function.update kernel.system.caches i cache, cells⟩
          live := kernel.handOut object (kernel.system.caches i).objectSize }
  | write {kernel : SharedKernel} {system : MemorySystem}
      (writes : MemoryStep root kernel.system .write system) :
      SharedStep root kernel .write { kernel with system := system }

/-- Each address of the object is in the upper half. -/
def KernelObject.Upper (object : KernelObject) : Prop :=
  ∀ i < object.size, 256 ≤ pml4Index ((object.address + i) % 2 ^ 64)

/-- The pages that `kmalloc` asks for are neither mapped over the direct map of a frame in use nor
behind the end of the address space, and if there are address spaces they need no new entry in the
upper half of the root. -/
structure KernelMemory.MayGrow (boot : Boot) (root fuel : ℕ) (spaces : List ℕ)
    (memory : KernelMemory) (size : ℕ) : Prop where
  room : memory.heap.heapCurrent + memory.heap.pagesWanted fuel size * pageSizeVmm < 2 ^ 64
  clear : boot.Clear memory.heap.heapCurrent (memory.heap.pagesWanted fuel size)
  shared : spaces ≠ [] → ∀ j < memory.heap.pagesWanted fuel size,
    Booting.MayFill memory.vmm.memory root {rootIndex (memory.heap.heapCurrent + j * pageSizeVmm)}
  fits : spaces ≠ [] → memory.heap.Accommodates size

/-- An address space is only created as long as there is no object in the lower half, and once there
is one, `slab_alloc` has to get its objects from the heap. -/
def SharedGuard (boot : Boot) (root : ℕ) (kernel : SharedKernel) : SharedOperation → Prop
  | .createAddressSpace => ∀ object ∈ kernel.live, object.Upper
  | .kmalloc size => ∀ fuel, kernel.system.memory.MayGrow boot root fuel kernel.spaces size
  | .slabAlloc i => (kernel.spaces ≠ [] → kernel.system.FallsBack i) ∧
      (kernel.system.FallsBack i → ∀ fuel, kernel.system.memory.MayGrow boot root fuel kernel.spaces
        (kernel.system.caches i).objectSize)
  | .write => True

/-! ## Roots beside the kernel's -/

/-- Page tables behind a direct map, and roots with the same upper half. -/
structure SharesUpper (root : ℕ) (physical : PhysicalMemory) (spaces : List ℕ) (vmm : Vmm Pmm) :
    Prop where
  reaches : ReachesFrames root physical vmm
  spaces : ∀ space ∈ spaces, Booting physical space root vmm

namespace SharesUpper

variable {root : ℕ} {physical : PhysicalMemory} {spaces : List ℕ} {vmm after : Vmm Pmm}
  {virtual frame flags : ℕ}

theorem take (shares : SharesUpper root physical spaces vmm) :
    SharesUpper root physical spaces { vmm with pages := (pmmAllocPage vmm.pages).2 } := by
  have reaches := shares.reaches.take
  refine ⟨reaches, fun space isSpace => ?_⟩
  have booting := shares.spaces space isSpace
  refine ⟨reaches.shape, reaches.mapped, booting.same, booting.isFrame, booting.noTable, ?_⟩
  intro isFree
  rcases Pmm.pmmAllocPage_cases shares.reaches.shape.valid.managed with
    ⟨_, exhausted⟩ | ⟨taken, rfl, _, _, _, erased⟩
  · rw [exhausted] at isFree
    exact booting.taken isFree
  · rw [erased] at isFree
    exact booting.taken (Finset.mem_of_mem_erase isFree)

theorem vmmMap (shares : SharesUpper root physical spaces vmm)
    (fills : spaces ≠ [] → Booting.MayFill vmm.memory root {rootIndex virtual})
    (clear : ∀ other ∈ physical.frames, virtualPage virtual ≠ virtualPage (higherHalf + other))
    (maps : (pagedPlatform root).vmmMap virtual frame flags vmm = some after) :
    SharesUpper root physical spaces after :=
  ⟨shares.reaches.vmmMap clear maps, fun space isSpace =>
    (shares.spaces space isSpace).next_vmmMap (fills (List.ne_nil_of_mem isSpace))
      (fun other isOther same => absurd same (clear other isOther)) maps⟩

theorem mayFill_vmmMap {touched : Set (Fin 512)} (shares : SharesUpper root physical spaces vmm)
    (fills : Booting.MayFill vmm.memory root touched)
    (maps : (pagedPlatform root).vmmMap virtual frame flags vmm = some after) :
    Booting.MayFill after.memory root touched :=
  Booting.mayFill_next fills (vmmMap_spares shares.reaches.shape shares.reaches.mapped
    (Set.mem_singleton (rootIndex virtual)) maps)

theorem backPages {address count : ℕ} {frames : List ℕ}
    (shares : SharesUpper root physical spaces vmm) (room : address + count * pageSizeVmm < 2 ^ 64)
    (clear : ∀ j < count, ∀ frame ∈ physical.frames,
      virtualPage (address + j * pageSizeVmm) ≠ virtualPage (higherHalf + frame))
    (fills : spaces ≠ [] → ∀ j < count,
      Booting.MayFill vmm.memory root {rootIndex (address + j * pageSizeVmm)})
    (backs : Goshkik.backPages (pagedPlatform root) address count vmm = some (frames, after)) :
    SharesUpper root physical spaces after := by
  induction count generalizing address vmm frames after with
  | zero =>
      cases backs
      exact shares
  | succ count hypothesis =>
      simp only [Goshkik.backPages] at backs
      split at backs
      · cases backs
        exact shares.take
      · simp only [Option.bind_eq_bind, Option.bind_eq_some_iff, pure, Option.some.injEq,
          Prod.mk.injEq, Prod.exists] at backs
        rcases backs with ⟨mapped, maps, rest, final, continues, -, rfl⟩
        have behind : ∀ j, address + pageSizeVmm + j * pageSizeVmm =
            address + (j + 1) * pageSizeVmm := fun j => by rw [Nat.succ_mul]; omega
        have next : (address + pageSizeVmm) % 2 ^ 64 = address + pageSizeVmm := by
          refine Nat.mod_eq_of_lt (Nat.lt_of_le_of_lt ?_ room)
          rw [← behind]
          exact Nat.le_add_right _ _
        have clearFirst := clear 0 (Nat.succ_pos count)
        rw [Nat.zero_mul, Nat.add_zero] at clearFirst
        have fillsFirst : spaces ≠ [] → Booting.MayFill vmm.memory root {rootIndex address} := by
          intro some
          simpa using fills some 0 (Nat.succ_pos count)
        rw [next] at continues
        refine hypothesis (shares.take.vmmMap fillsFirst clearFirst maps) ?_ ?_ ?_ continues
        · rwa [behind]
        · intro j small
          rw [behind]
          exact clear (j + 1) (Nat.succ_lt_succ small)
        · intro some j small
          rw [behind]
          exact shares.take.mayFill_vmmMap (fills some (j + 1) (Nat.succ_lt_succ small)) maps

/-- The page of a slab fills entries in the lower half only. -/
theorem slabPage {memory paged : KernelMemory} {page : ℕ}
    (shares : SharesUpper root physical spaces memory.vmm)
    (returns : memory.slabPage (pagedPlatform root) = some (page, paged)) :
    SharesUpper root physical spaces paged.vmm ∧ ∀ touched,
      Booting.MayFill memory.vmm.memory root touched →
        Booting.MayFill paged.vmm.memory root touched := by
  rcases KernelMemory.slabPage_cases returns with ⟨_, rfl, ⟨_, unmapped⟩ | ⟨nonzero, maps⟩⟩
  · rw [unmapped]
    exact ⟨shares.take, fun _ fills => fills⟩
  · have below := shares.reaches.frame_below nonzero
    refine ⟨shares.take.vmmMap (fun _ => ?_) (ReachesFrames.clear_of_below below) maps,
      fun touched fills => shares.take.mayFill_vmmMap fills maps⟩
    rintro index rfl
    refine .inl ?_
    change pml4Index (pmmAllocPage memory.vmm.pages).1 < 256
    rw [pml4Index_eq]
    omega

end SharesUpper

/-! ## A new address space -/

/-- What becomes of the page tables when the first free frame gets the upper half of the root. -/
def copiedSpace (root : ℕ) (vmm : Vmm Pmm) : Vmm Pmm :=
  ⟨copyWords (zeroFrame vmm.memory (pmmAllocPage vmm.pages).1) root (pmmAllocPage vmm.pages).1 256
    256, (pmmAllocPage vmm.pages).2, root⟩

namespace ReachesFrames

variable {root frame : ℕ} {physical : PhysicalMemory} {vmm : Vmm Pmm} {memory : ℕ → ℕ}

/-- No path through the kernel's page tables passes a free frame. -/
theorem passes (reaches : ReachesFrames root physical vmm) (free : frame ∈ vmm.pages.freeFrames)
    {path : List (Fin 512)} (short : path.length ≤ 3) :
    ∀ front table, front <+: path → tableAt vmm.memory root front = some table →
      IsFrame table ∧ table ≠ frame := by
  intro front table isPrefix arrives
  have isTable : IsTable vmm.memory root table :=
    ⟨front, isPrefix.length_le.trans short, arrives⟩
  refine ⟨reaches.shape.isFrame_of_isTable isTable, ?_⟩
  rintro rfl
  exact reaches.shape.fresh table free isTable

theorem isTable_of_sameBut (reaches : ReachesFrames root physical vmm)
    (free : frame ∈ vmm.pages.freeFrames) (same : SameBut frame vmm.memory memory) {table : ℕ}
    (isTable : IsTable memory root table) : IsTable vmm.memory root table := by
  rcases isTable with ⟨path, short, arrives⟩
  exact ⟨path, short, (same.tableAt (reaches.passes free short)).symm.trans arrives⟩

/-- What is written into a free frame changes nothing. -/
theorem sameBut (reaches : ReachesFrames root physical vmm) (free : frame ∈ vmm.pages.freeFrames)
    (same : SameBut frame vmm.memory memory) :
    ReachesFrames root physical { vmm with memory := memory } := by
  have shape := reaches.shape
  refine ⟨⟨shape.pml4, unshared_congr shape.unshared ?_, ?_, ?_, shape.valid⟩, ?_⟩
  · exact fun path short => same.tableAt (reaches.passes free short)
  · exact fun table inTree => shape.tables table (reaches.isTable_of_sameBut free same inTree)
  · intro other isFree inTree
    exact shape.fresh other isFree (reaches.isTable_of_sameBut free same inTree)
  · intro other isOther
    rw [same.leafEntry (reaches.passes free (by simp))]
    exact reaches.mapped other isOther

/-- The root of the kernel is not a free frame. -/
theorem root_ne (reaches : ReachesFrames root physical vmm) (free : frame ∈ vmm.pages.freeFrames) :
    IsFrame root ∧ root ≠ frame :=
  reaches.passes free (show ([] : List (Fin 512)).length ≤ 3 from Nat.zero_le 3) [] root
    (List.prefix_refl _) rfl

/-- The new root is a zeroed frame with the upper half of the kernel's root. -/
theorem createAddressSpace_eq (reaches : ReachesFrames root physical vmm)
    (nonzero : (pmmAllocPage vmm.pages).1 ≠ 0) :
    (pagedPlatform root).createAddressSpace vmm =
      some ((pmmAllocPage vmm.pages).1, copiedSpace root vmm) := by
  have isFree := (reaches.shape.valid.allocPage nonzero).2.1
  have mem := reaches.shape.valid.free isFree
  have newFrame := physical.isFrame _ mem
  have rootMem := reaches.shape.tables root (isTable_root _ root)
  have good : (pagedEnvironment root physical).good vmm.memory := reaches.mapped
  have reads : ∀ memory, SameBut (pmmAllocPage vmm.pages).1 vmm.memory memory →
      ∀ frame ∈ physical.frames, ∀ index : Fin 512,
        (pagedPlatform root).translate memory ((pagedPlatform root).slot frame index) =
          some (frame + 8 * index.val) :=
    fun memory same frame isFrame index => (reaches.sameBut isFree same).mapped.slot isFrame index
  have copies := copyEntries_eq (physical.isFrame root rootMem) newFrame
    (fun memory same => reads memory same root rootMem) (fun memory same => reads memory same _ mem)
    (show 256 + 256 ≤ 512 by decide)
    (show SameBut _ vmm.memory (Vmm.mk (zeroFrame vmm.memory (pmmAllocPage vmm.pages).1)
      (pmmAllocPage vmm.pages).2 root).memory from .zeroFrame vmm.memory newFrame)
  have clears : (pagedPlatform root).memsetPage { vmm with pages := (pmmAllocPage vmm.pages).2 }
      ((pagedPlatform root).physicalToVirtual (pmmAllocPage vmm.pages).1) =
        some ⟨zeroFrame vmm.memory (pmmAllocPage vmm.pages).1, (pmmAllocPage vmm.pages).2,
          root⟩ := by
    rw [memsetPage_frame { vmm with pages := (pmmAllocPage vmm.pages).2 } good mem,
      reaches.shape.pml4]
  refine (if_neg nonzero).trans ?_
  exact Option.bind_eq_some_iff.mpr ⟨_, clears, Option.bind_eq_some_iff.mpr ⟨_, copies, rfl⟩⟩

end ReachesFrames

namespace SharesUpper

variable {root frame newPml4 : ℕ} {physical : PhysicalMemory} {spaces : List ℕ}
  {vmm after : Vmm Pmm} {memory : ℕ → ℕ}

theorem sameBut (shares : SharesUpper root physical spaces vmm)
    (free : frame ∈ vmm.pages.freeFrames) (same : SameBut frame vmm.memory memory) :
    SharesUpper root physical spaces { vmm with memory := memory } := by
  have reaches := shares.reaches.sameBut free same
  refine ⟨reaches, fun space isSpace => ?_⟩
  have booting := shares.spaces space isSpace
  have other : space ≠ frame := fun isNew => booting.taken (isNew ▸ free)
  rcases shares.reaches.root_ne free with ⟨rootFrame, rootOther⟩
  refine ⟨reaches.shape, reaches.mapped, fun index upper => ?_, booting.isFrame, ?_, booting.taken⟩
  · rw [same space booting.isFrame other index, same root rootFrame rootOther index]
    exact booting.same index upper
  · exact fun isTable => booting.noTable (shares.reaches.isTable_of_sameBut free same isTable)

/-- A new address space shares the upper half, and so do the ones before. -/
theorem createAddressSpace (shares : SharesUpper root physical spaces vmm)
    (creates : (pagedPlatform root).createAddressSpace vmm = some (newPml4, after)) :
    SharesUpper root physical (newPml4 :: spaces) after := by
  have reaches := shares.reaches
  have nonzero : (pmmAllocPage vmm.pages).1 ≠ 0 := by
    rcases createAddressSpace_pages creates with ⟨nonzero, taken⟩
    have isNew : newPml4 = (pmmAllocPage vmm.pages).1 := congrArg Prod.fst taken
    rwa [← isNew]
  rw [reaches.createAddressSpace_eq nonzero] at creates
  rcases reaches.shape.valid.allocPage nonzero with ⟨_, isFree, erased⟩
  rcases reaches.root_ne isFree with ⟨rootFrame, rootOther⟩
  have newFrame := physical.isFrame _ (reaches.shape.valid.free isFree)
  have copied : CopiedRoot vmm.memory (copiedSpace root vmm).memory root _ :=
    copiedRoot vmm.memory rootFrame newFrame rootOther
  have kept := (shares.sameBut isFree copied.others).take
  simp only [reaches.shape.pml4] at kept
  change SharesUpper root physical spaces (copiedSpace root vmm) at kept
  cases creates
  refine ⟨kept.reaches, fun space isSpace => ?_⟩
  rcases List.mem_cons.mp isSpace with rfl | isSpace
  · refine ⟨kept.reaches.shape, kept.reaches.mapped, fun index upper => ?_, newFrame, ?_, ?_⟩
    · rw [copied.upper index upper, copied.others root rootFrame rootOther]
    · intro isTable
      exact reaches.shape.fresh _ isFree (reaches.isTable_of_sameBut isFree copied.others isTable)
    · rw [copiedSpace, erased]
      exact Finset.notMem_erase _ _
  · exact kept.spaces space isSpace

end SharesUpper

/-! ## Objects behind the start of the heap -/

theorem KernelObject.upper_of_behind {object : KernelObject}
    (behind : ∀ i < object.size, heapStart ≤ object.address + i ∧ object.address + i < 2 ^ 64) :
    object.Upper := by
  intro i inside
  rcases behind i inside with ⟨lower, small⟩
  rw [Nat.mod_eq_of_lt small, pml4Index_eq]
  simp only [heapStart] at lower
  omega

/-- The upper half is shared, and the heap lies in it. -/
structure SharedMemory (root : ℕ) (physical : PhysicalMemory) (spaces : List ℕ)
    (memory : KernelMemory) : Prop where
  shares : SharesUpper root physical spaces memory.vmm
  heap : memory.heap.Upper

namespace SharedMemory

variable {root fuel size : ℕ} {physical : PhysicalMemory} {boot : Boot} {spaces : List ℕ}
  {memory after : KernelMemory}

theorem kmalloc {answer : Option ℕ} (shared : SharedMemory root boot.used spaces memory)
    (mayGrow : memory.MayGrow boot root fuel spaces size)
    (returns : memory.kmalloc (pagedPlatform root) fuel size = some (answer, after)) :
    SharedMemory root boot.used spaces after ∧
      (spaces ≠ [] → ∀ address, answer = some address → KernelObject.Upper ⟨address, size⟩) := by
  simp only [KernelMemory.kmalloc, Option.bind_eq_bind, Option.bind_eq_some_iff, pure,
    Option.some.injEq, Prod.mk.injEq, Prod.exists] at returns
  rcases returns with ⟨frames, vmm, backs, _, heap, allocates, rfl, rfl⟩
  have grows := Kheap.kmalloc_growsBy mayGrow.room allocates
  refine ⟨⟨shared.shares.backPages mayGrow.room mayGrow.clear mayGrow.shared backs,
    shared.heap.next grows⟩, fun some address isAnswer => ?_⟩
  exact KernelObject.upper_of_behind fun i inside =>
    shared.heap.block grows (mayGrow.fits some) isAnswer inside

theorem slabPage {page : ℕ} (shared : SharedMemory root physical spaces memory)
    (returns : memory.slabPage (pagedPlatform root) = some (page, after)) :
    SharedMemory root physical spaces after := by
  refine ⟨(shared.shares.slabPage returns).1, ?_⟩
  rw [(KernelMemory.slabPage_cases returns).1]
  exact shared.heap

theorem mayGrow_slabPage {page : ℕ} (shared : SharedMemory root physical spaces memory)
    (mayGrow : memory.MayGrow boot root fuel spaces size)
    (returns : memory.slabPage (pagedPlatform root) = some (page, after)) :
    after.MayGrow boot root fuel spaces size := by
  have same := (KernelMemory.slabPage_cases returns).1
  rcases mayGrow with ⟨room, clear, fills, fits⟩
  rw [← same] at room clear fills fits
  exact ⟨room, clear, fun some j small => (shared.shares.slabPage returns).2 _ (fills some j small),
    fits⟩

/-- At first there is no address space. -/
theorem initKheap {blocks : Cells} {vmm : Vmm Pmm}
    (reaches : ReachesFrames root physical vmm)
    (clear : ∀ other ∈ physical.frames, virtualPage heapStart ≠ virtualPage (higherHalf + other))
    (inits : KernelMemory.initKheap (pagedPlatform root) ⟨Kheap.boot blocks, vmm⟩ =
      some (size, memory)) :
    SharedMemory root physical [] memory := by
  rcases KernelMemory.heap_of_initKheap inits with ⟨frame, initsHeap⟩
  exact ⟨⟨reaches.initKheap clear inits, fun _ isSpace => nomatch isSpace⟩,
    Kheap.initKheap_upper (fun _ => rfl) initsHeap⟩

end SharedMemory

/-- What every run keeps that the guard allows. -/
structure SharedInvariant (root : ℕ) (physical : PhysicalMemory) (kernel : SharedKernel) :
    Prop where
  memory : SharedMemory root physical kernel.spaces kernel.system.memory
  live : kernel.spaces ≠ [] → ∀ object ∈ kernel.live, object.Upper

namespace SharedInvariant

variable {root : ℕ} {boot : Boot} {kernel last : SharedKernel} {operation : SharedOperation}

theorem handOut {answer : Option ℕ} {size : ℕ}
    (live : ∀ object ∈ kernel.live, object.Upper)
    (upper : ∀ address, answer = some address → KernelObject.Upper ⟨address, size⟩) :
    ∀ object ∈ kernel.handOut answer size, object.Upper := by
  cases answer with
  | none => exact live
  | some address =>
      intro object isLive
      rcases List.mem_cons.mp isLive with rfl | isLive
      · exact upper address rfl
      · exact live object isLive

theorem step (holds : SharedInvariant root boot.used kernel)
    (taken : Guarded (SharedGuard boot root) (SharedStep root) kernel operation last) :
    SharedInvariant root boot.used last := by
  rcases taken with ⟨guard, step⟩
  cases step with
  | createAddressSpace creates =>
      exact ⟨⟨holds.memory.shares.createAddressSpace creates, holds.memory.heap⟩, fun _ => guard⟩
  | kmalloc fuel returns =>
      rcases holds.memory.kmalloc (guard fuel) returns with ⟨memory, upper⟩
      exact ⟨memory, fun some => handOut (holds.live some) (upper some)⟩
  | slabAlloc fuel returns =>
      rcases guard with ⟨mustFallBack, mayGrow⟩
      rcases KernelMemory.slabAlloc_cases returns with ⟨hasSlab, isMemory⟩ |
        ⟨fallsBack, page, paged, pages, blocks⟩
      · refine ⟨?_, fun some => absurd (mustFallBack some) hasSlab⟩
        rcases isMemory with rfl | ⟨page, pages⟩
        · exact holds.memory
        · exact holds.memory.slabPage pages
      · have grow := holds.memory.mayGrow_slabPage (mayGrow fallsBack fuel) pages
        rcases (holds.memory.slabPage pages).kmalloc grow blocks with ⟨memory, upper⟩
        exact ⟨memory, fun some => handOut (holds.live some) (upper some)⟩
  | write writes =>
      rcases writes with ⟨blocks, cells⟩
      exact ⟨⟨holds.memory.shares, holds.memory.heap.heapCurrent, holds.memory.heap.pages⟩,
        holds.live⟩

/-- Each byte of an object is found behind every root. -/
theorem translate (holds : SharedInvariant root boot.used kernel) :
    ∀ space ∈ kernel.spaces, ∀ object ∈ kernel.live, ∀ i < object.size,
      pageTranslate space kernel.system.memory.vmm.memory ((object.address + i) % 2 ^ 64) =
        pageTranslate root kernel.system.memory.vmm.memory ((object.address + i) % 2 ^ 64) :=
  fun space isSpace object isLive i inside =>
    (holds.memory.shares.spaces space isSpace).same.translate
      (holds.live (List.ne_nil_of_mem isSpace) object isLive i inside)

section Initialised

variable {stale : ℕ → BitVec 8} {pmm : Pmm} {vmm : Vmm Pmm} {blocks : Cells} {fuel size : ℕ}
  {memory : KernelMemory}

theorem initial (caches : ℕ → SlabCache) (cells : Cells)
    (initialised : initPmm higherHalf boot.memmap stale = some pmm)
    (inits : initVmm (pagedPlatform boot.oldPml4) boot.cr3 boot.memmap fuel ⟨boot.memory, pmm, 0⟩ =
      some vmm)
    (clear : boot.Clear heapStart 1)
    (initsHeap : KernelMemory.initKheap (pagedPlatform vmm.currentPml4) ⟨Kheap.boot blocks, vmm⟩ =
      some (size, memory)) :
    SharedInvariant vmm.currentPml4 boot.used ⟨⟨memory, caches, cells⟩, [], []⟩ := by
  have spec : Shape (pagedEnvironment vmm.currentPml4 boot.used) vmm ∧
      DirectlyMapped vmm.currentPml4 boot.used vmm.memory ∧ boot.onlyUsed.HasRegion vmm.pages :=
    boot.onlyUsed.initVmm_spec initialised inits
  refine ⟨.initKheap ⟨spec.1, spec.2.1⟩ (fun other uses => ?_) initsHeap, fun _ _ isLive =>
    nomatch isLive⟩
  simpa using clear 0 Nat.one_pos other uses

end Initialised

end SharedInvariant

/-- In every run in which the spaces are created while no object is in the lower half, and none
comes from a slab afterwards, every object is found behind each root at the same physical address,
as long as the heap grows inside the entries that the roots share. -/
theorem kernel_memory_guarded_runs {boot : Boot} {stale : ℕ → BitVec 8} {pmm : Pmm} {vmm : Vmm Pmm}
    {blocks : Cells} {fuel size : ℕ} {memory : KernelMemory} {caches : ℕ → SlabCache}
    {cells : Cells} {operations : List SharedOperation} {last : SharedKernel}
    (initialised : initPmm higherHalf boot.memmap stale = some pmm)
    (inits : initVmm (pagedPlatform boot.oldPml4) boot.cr3 boot.memmap fuel ⟨boot.memory, pmm, 0⟩ =
      some vmm)
    (clear : boot.Clear heapStart 1)
    (initsHeap : KernelMemory.initKheap (pagedPlatform vmm.currentPml4) ⟨Kheap.boot blocks, vmm⟩ =
      some (size, memory))
    (run : Run (Guarded (SharedGuard boot vmm.currentPml4) (SharedStep vmm.currentPml4))
      ⟨⟨memory, caches, cells⟩, [], []⟩ operations last) :
    ∀ space ∈ last.spaces, ∀ object ∈ last.live, ∀ i < object.size,
      pageTranslate space last.system.memory.vmm.memory ((object.address + i) % 2 ^ 64) =
        pageTranslate vmm.currentPml4 last.system.memory.vmm.memory
          ((object.address + i) % 2 ^ 64) := by
  have start := SharedInvariant.initial caches cells initialised inits clear initsHeap
  have holds : SharedInvariant vmm.currentPml4 boot.used last :=
    run.invariant (fun _ _ _ holds step => SharedInvariant.step holds step) start
  exact holds.translate

/-- A cache of objects of 1024 bytes. -/
def smallCache : SlabCache :=
  ⟨⟨1024, 8, 3⟩, heapStart + sizeofBlockHeader, none, none, none, none, none⟩

example : slabCacheCreate 1024 8 none none (some (heapStart + sizeofBlockHeader)) =
    some (some smallCache) := rfl

theorem smallBoot_mayGrow {root fuel size : ℕ} {spaces : List ℕ} {memory : KernelMemory}
    (current : memory.heap.heapCurrent = heapStart)
    (atMost : totalSize (roundedSize size) / pageSizeVmm ≤ 1)
    (present : entryChild (tableRead memory.vmm.memory root (rootIndex heapStart)) ≠ none)
    (fits : memory.heap.Accommodates size) :
    memory.MayGrow (smallBoot 0x100000 (.inl rfl)) root fuel spaces size := by
  have wanted := (pagesWanted_le fuel memory.heap size).trans atMost
  refine ⟨?_, ?_, fun _ j inside => ?_, fun _ => fits⟩
  · simp only [current, heapStart, pageSizeVmm]
    omega
  · rw [current]
    exact smallBoot_clear wanted
  · obtain rfl : j = 0 := by omega
    rintro index rfl
    rw [current, Nat.zero_mul, Nat.add_zero]
    exact .inr present

/-- A block of 16 bytes that is allocated when there is an address space. -/
theorem kernel_memory_guarded_runs_small : ∃ (vmm : Vmm Pmm) (size : ℕ) (memory : KernelMemory)
    (last : SharedKernel),
    initVmm (pagedPlatform (smallBoot 0x100000 (.inl rfl)).oldPml4)
      (smallBoot 0x100000 (.inl rfl)).cr3 (smallBoot 0x100000 (.inl rfl)).memmap 9
        ⟨(smallBoot 0x100000 (.inl rfl)).memory, smallPmm 0x100000, 0⟩ = some vmm ∧
    KernelMemory.initKheap (pagedPlatform vmm.currentPml4) ⟨Kheap.boot (fun _ => 0), vmm⟩ =
      some (size, memory) ∧
    Run (Guarded (SharedGuard (smallBoot 0x100000 (.inl rfl)) vmm.currentPml4)
      (SharedStep vmm.currentPml4)) ⟨⟨memory, fun _ => smallCache, fun _ => 0⟩, [], []⟩
        [.createAddressSpace, .kmalloc 16] last ∧
    last.spaces ≠ [] ∧ last.live ≠ [] ∧
    ∀ space ∈ last.spaces, ∀ object ∈ last.live, ∀ i < object.size,
      pageTranslate space last.system.memory.vmm.memory ((object.address + i) % 2 ^ 64) =
        pageTranslate vmm.currentPml4 last.system.memory.vmm.memory
          ((object.address + i) % 2 ^ 64) := by
  have returns : ((smallVmm 0x100000).bind (fun vmm =>
      (KernelMemory.initKheap (pagedPlatform vmm.currentPml4) ⟨Kheap.boot (fun _ => 0), vmm⟩).bind
        (fun ready => (KernelMemory.kmalloc (pagedPlatform vmm.currentPml4) 1
          ⟨ready.2.heap, copiedSpace vmm.currentPml4 ready.2.vmm⟩ 16).map (fun result =>
            ((pmmAllocPage ready.2.vmm.pages).1, result.1, (entryChild (tableRead
              (copiedSpace vmm.currentPml4 ready.2.vmm).memory vmm.currentPml4
                (rootIndex heapStart))).isSome))))) =
          some (0x106000, some (heapStart + sizeofBlockHeader), true) := by
    decide +kernel
  simp only [Option.bind_eq_some_iff, Option.map_eq_some_iff, Prod.exists, Prod.mk.injEq] at returns
  rcases returns with ⟨vmm, inits, size, memory, initsHeap, answer, grown, allocates, isFrame, rfl,
    present⟩
  have booted := (initVmm_small (.inl rfl)).trans inits
  have start := SharedInvariant.initial (fun _ => smallCache) (fun _ => 0)
    (initPmm_small (.inl rfl)) booted (smallBoot_clear le_rfl) initsHeap
  have creates := start.memory.shares.reaches.createAddressSpace_eq
    (isFrame.trans_ne (by decide))
  rcases KernelMemory.heap_of_initKheap initsHeap with ⟨frame, isFirst⟩
  have guard : ∀ fuel, KernelMemory.MayGrow (smallBoot 0x100000 (.inl rfl)) vmm.currentPml4 fuel
      [(pmmAllocPage memory.vmm.pages).1]
      ⟨memory.heap, copiedSpace vmm.currentPml4 memory.vmm⟩ 16 := fun fuel =>
    smallBoot_mayGrow (Kheap.initKheap_places (fun _ => rfl) isFirst).1 (by decide)
      (Option.isSome_iff_ne_none.mp present)
      (Kheap.initKheap_accommodates (fun _ => rfl) isFirst (by decide))
  have run : Run (Guarded (SharedGuard (smallBoot 0x100000 (.inl rfl)) vmm.currentPml4)
      (SharedStep vmm.currentPml4)) ⟨⟨memory, fun _ => smallCache, fun _ => 0⟩, [], []⟩
        [.createAddressSpace, .kmalloc 16] _ :=
    .cons ⟨fun _ isLive => (nomatch isLive), .createAddressSpace creates⟩
      (.cons ⟨guard, .kmalloc 1 allocates⟩ (.nil _))
  exact ⟨vmm, size, memory, _, booted, initsHeap, run, List.cons_ne_nil _ _, List.cons_ne_nil _ _,
    kernel_memory_guarded_runs (initPmm_small (.inl rfl)) booted (smallBoot_clear le_rfl) initsHeap
      run⟩

/-- An object of a slab that is not found behind the root of an address space. -/
theorem slab_object_unshared : ∃ (boot : Boot) (pmm : Pmm) (vmm : Vmm Pmm) (size : ℕ)
    (memory : KernelMemory) (last : SharedKernel),
    initPmm higherHalf boot.memmap (fun _ => 0) = some pmm ∧
    initVmm (pagedPlatform boot.oldPml4) boot.cr3 boot.memmap 9 ⟨boot.memory, pmm, 0⟩ = some vmm ∧
    boot.Clear heapStart 1 ∧
    KernelMemory.initKheap (pagedPlatform vmm.currentPml4) ⟨Kheap.boot (fun _ => 0), vmm⟩ =
      some (size, memory) ∧
    Run (SharedStep vmm.currentPml4) ⟨⟨memory, fun _ => smallCache, fun _ => 0⟩, [], []⟩
      [.createAddressSpace, .slabAlloc 0] last ∧
    ∃ space ∈ last.spaces, ∃ object ∈ last.live, 0 < object.size ∧
      pageTranslate vmm.currentPml4 last.system.memory.vmm.memory object.address = some 0x107828 ∧
      pageTranslate space last.system.memory.vmm.memory object.address = none := by
  have returns : ((smallVmm 0x100000).bind (fun vmm =>
      (KernelMemory.initKheap (pagedPlatform vmm.currentPml4) ⟨Kheap.boot (fun _ => 0), vmm⟩).bind
        (fun ready => (KernelMemory.slabAlloc (pagedPlatform vmm.currentPml4) 1
          ⟨ready.2.heap, copiedSpace vmm.currentPml4 ready.2.vmm⟩ smallCache (fun _ => 0)).map
            (fun result => ((pmmAllocPage ready.2.vmm.pages).1, result.1,
              pageTranslate vmm.currentPml4 result.2.2.2.vmm.memory 0x107828,
              pageTranslate (pmmAllocPage ready.2.vmm.pages).1 result.2.2.2.vmm.memory
                0x107828))))) = some (0x106000, some 0x107828, some 0x107828, none) := by
    decide +kernel
  simp only [Option.bind_eq_some_iff, Option.map_eq_some_iff, Prod.exists, Prod.mk.injEq] at returns
  rcases returns with ⟨vmm, inits, size, memory, initsHeap, object, cache, cells, after, allocates,
    isFrame, rfl, found, missed⟩
  have booted := (initVmm_small (.inl rfl)).trans inits
  have start := SharedInvariant.initial (fun _ => smallCache) (fun _ => 0)
    (initPmm_small (.inl rfl)) booted (smallBoot_clear le_rfl) initsHeap
  have creates := start.memory.shares.reaches.createAddressSpace_eq
    (isFrame.trans_ne (by decide))
  exact ⟨smallBoot 0x100000 (.inl rfl), smallPmm 0x100000, vmm, size, memory, _, initPmm_small _,
    booted, smallBoot_clear le_rfl, initsHeap,
    .cons (.createAddressSpace creates) (.cons (.slabAlloc 1 allocates) (.nil _)),
    _, List.mem_cons_self, _, List.mem_cons_self, Nat.succ_pos _, found, missed⟩

end Goshkik

import Goshkik.Lib.Cells
import Goshkik.Memory.Vmm

/-!
# The kernel heap

This file models `klibc/kmem/kheap.c`.  The heap is a chain of blocks, each a
header of 24 bytes followed by its payload, in virtual memory that starts at
`HEAP_START`.  Header fields are cells of physical memory, reached through the
mappings that `vmm_map` has made: `pages` gives the frame behind a virtual page.
Touching an unmapped page is a fault, which the operations report as `none`.

The frames that `pmm_alloc_page` hands out during a call are an argument of the
call; when they are used up, the frame allocator is exhausted.  The loops over
the chain run on fuel.  All arithmetic is done in 64 bits.
-/

namespace Goshkik

def heapStart : ℕ := 0xFFFF800010000000

def sizeofBlockHeader : ℕ := 24

structure Kheap where
  heapCurrent : ℕ
  freeList : Option ℕ
  memory : Cells
  pages : ℕ → Option ℕ

namespace Kheap

/-- The virtual page of an address. -/
def pageOf (address : ℕ) : ℕ := address / pageSizeVmm

/-- The physical cell behind a virtual address. -/
def physical (heap : Kheap) (address : ℕ) : Option ℕ :=
  (heap.pages (pageOf address)).map (fun frame => frame + address % pageSizeVmm)

def load (heap : Kheap) (address : ℕ) : Option ℕ :=
  (heap.physical address).map heap.memory

def store (heap : Kheap) (address word : ℕ) : Option Kheap :=
  (heap.physical address).map (fun cell => { heap with memory := heap.memory.store cell word })

/-- Read a pointer. -/
def loadPointer (heap : Kheap) (address : ℕ) : Option (Option ℕ) :=
  (heap.load address).map (fun word => if word = 0 then none else some word)

/-- The effect of `vmm_map`. -/
def map (heap : Kheap) (virtual frame : ℕ) : Kheap :=
  { heap with pages := Function.update heap.pages (pageOf virtual) (some frame) }

end Kheap

/-! ## The fields of a block header -/

def blockSizeField (block : ℕ) : ℕ := block

def blockFreeField (block : ℕ) : ℕ := block + 8

def blockNextField (block : ℕ) : ℕ := block + 16

/-- The three fields written in order. -/
def writeHeader (heap : Kheap) (block size free next : ℕ) : Option Kheap := do
  let heap ← heap.store (blockSizeField block) size
  let heap ← heap.store (blockFreeField block) free
  heap.store (blockNextField block) next

/-! ## The operations -/

/-- The result is the size of the first block, or zero without a frame. -/
def initKheap (heap : Kheap) (frame : ℕ) : Option (ℕ × Kheap) :=
  let heap := { heap with heapCurrent := heapStart }
  if frame = 0 then some (0, heap)
  else do
    let heap := heap.map heap.heapCurrent frame
    let heap := { heap with freeList := some heap.heapCurrent }
    let heap ← writeHeader heap heap.heapCurrent (pageSizeVmm - sizeofBlockHeader) 1 0
    return (← heap.load (blockSizeField heap.heapCurrent), heap)

def splitBlock (heap : Kheap) (block size : ℕ) : Option Kheap := do
  let blockSize ← heap.load (blockSizeField block)
  if blockSize ≤ (size + sizeofBlockHeader) % 2 ^ 64 then return heap
  else
    let newBlock := (block + sizeofBlockHeader + size) % 2 ^ 64
    let heap ← heap.store (blockSizeField newBlock) (blockSize - size - sizeofBlockHeader)
    let heap ← heap.store (blockFreeField newBlock) 1
    let heap ← heap.store (blockNextField newBlock) (← heap.load (blockNextField block))
    let heap ← heap.store (blockSizeField block) size
    heap.store (blockNextField block) newBlock

/-- The loop of `request_more_memory`, which says whether every page was mapped. -/
def mapPages (heap : Kheap) (address count : ℕ) : List ℕ → Bool × Kheap
  | [] => (count = 0, heap)
  | frame :: frames =>
      if count = 0 then (true, heap)
      else mapPages (heap.map address frame) ((address + pageSizeVmm) % 2 ^ 64) (count - 1) frames

/-- The byte count of a growth, rounded up to whole pages. -/
def totalSize (size : ℕ) : ℕ :=
  ((size + sizeofBlockHeader + (pageSizeVmm - 1)) % 2 ^ 64) &&& (2 ^ 64 - pageSizeVmm)

def requestMoreMemory (heap : Kheap) (size : ℕ) (frames : List ℕ) : Option (Option ℕ × Kheap) :=
  if size > 2 ^ 64 - 1 - sizeofBlockHeader then some (none, heap)
  else
    let total := totalSize size
    let allocBase := heap.heapCurrent
    match mapPages heap allocBase (total / pageSizeVmm) frames with
    | (false, heap) => some (none, heap)
    | (true, heap) => do
        let heap := { heap with heapCurrent := (heap.heapCurrent + total) % 2 ^ 64 }
        let heap ← writeHeader heap allocBase ((total + 2 ^ 64 - sizeofBlockHeader) % 2 ^ 64) 0 0
        return (some ((allocBase + sizeofBlockHeader) % 2 ^ 64), heap)

/-- The loop of `kheap_alloc`: the first block that is free and large enough, or
else the last block of the chain. -/
def findBlock (heap : Kheap) (size : ℕ) : ℕ → ℕ → Option (Bool × ℕ)
  | 0, _ => none
  | fuel + 1, current => do
      let free ← heap.load (blockFreeField current)
      let blockSize ← heap.load (blockSizeField current)
      if free ≠ 0 ∧ size ≤ blockSize then return (true, current)
      else
        match ← heap.loadPointer (blockNextField current) with
        | none => return (false, current)
        | some next => findBlock heap size fuel next

/-- A request rounded up to 16 bytes. -/
def roundedSize (size : ℕ) : ℕ := ((size + 15) % 2 ^ 64) &&& (2 ^ 64 - 16)

/-- The branch of `kheap_alloc` that uses a block of the chain. -/
def takeBlock (heap : Kheap) (block size : ℕ) : Option (Option ℕ × Kheap) := do
  let heap ← splitBlock heap block size
  let heap ← heap.store (blockFreeField block) 0
  return (some (block + sizeofBlockHeader), heap)

/-- The branch of `kheap_alloc` that appends new memory behind the last block.
Without a last block the link is written through the null pointer. -/
def growHeap (heap : Kheap) (last : Option ℕ) (size : ℕ) (frames : List ℕ) :
    Option (Option ℕ × Kheap) := do
  match ← requestMoreMemory heap size frames with
  | (none, heap) => return (none, heap)
  | (some newBlock, heap) =>
      match last with
      | none => none
      | some last =>
          let heap ← heap.store (blockNextField last)
            ((newBlock + 2 ^ 64 - sizeofBlockHeader) % 2 ^ 64)
          return (some newBlock, heap)

def kheapAlloc (fuel : ℕ) (heap : Kheap) (size : ℕ) (frames : List ℕ) :
    Option (Option ℕ × Kheap) :=
  if size = 0 then some (none, heap)
  else
    let size := roundedSize size
    match heap.freeList with
    | none => growHeap heap none size frames
    | some first => do
        match ← findBlock heap size fuel first with
        | (true, block) => takeBlock heap block size
        | (false, last) => growHeap heap (some last) size frames

/-- One merge of a block with the next one. -/
def absorbNext (heap : Kheap) (current next : ℕ) : Option Kheap := do
  let size ← heap.load (blockSizeField current)
  let nextSize ← heap.load (blockSizeField next)
  let heap ← heap.store (blockSizeField current)
    ((size + (sizeofBlockHeader + nextSize)) % 2 ^ 64)
  heap.store (blockNextField current) (← heap.load (blockNextField next))

/-- The loop of `kheap_free` that merges neighbouring free blocks. -/
def mergeBlocks (heap : Kheap) : ℕ → Option ℕ → Option Kheap
  | 0, _ => none
  | _ + 1, none => some heap
  | fuel + 1, some current => do
      let free ← heap.load (blockFreeField current)
      let next ← heap.loadPointer (blockNextField current)
      match next with
      | none => mergeBlocks heap fuel none
      | some next =>
          if free = 0 then mergeBlocks heap fuel (some next)
          else if (← heap.load (blockFreeField next)) = 0 then mergeBlocks heap fuel (some next)
          else mergeBlocks (← absorbNext heap current next) fuel (some current)

def kheapFree (fuel : ℕ) (heap : Kheap) (pointer : Option ℕ) : Option Kheap :=
  match pointer with
  | none => some heap
  | some pointer => do
      let block := (pointer + 2 ^ 64 - sizeofBlockHeader) % 2 ^ 64
      let heap ← heap.store (blockFreeField block) 1
      mergeBlocks heap fuel heap.freeList

def kmalloc (fuel : ℕ) (heap : Kheap) (size : ℕ) (frames : List ℕ) : Option (Option ℕ × Kheap) :=
  kheapAlloc fuel heap size frames

/-- `memset`, one cell after the other. -/
def memset (heap : Kheap) (address value : ℕ) : ℕ → Option Kheap
  | 0 => some heap
  | count + 1 => do
      let heap ← heap.store (address % 2 ^ 64) value
      memset heap (address + 1) value count

def kzalloc (fuel : ℕ) (heap : Kheap) (size : ℕ) (frames : List ℕ) : Option (Option ℕ × Kheap) := do
  match ← kmalloc fuel heap size frames with
  | (none, heap) => return (none, heap)
  | (some pointer, heap) => return (some pointer, ← memset heap pointer 0 size)

def kcalloc (fuel : ℕ) (heap : Kheap) (n size : ℕ) (frames : List ℕ) : Option (Option ℕ × Kheap) :=
  if n ≠ 0 ∧ size ≠ 0 ∧ n > (2 ^ 64 - 1) / size then some (none, heap)
  else kzalloc fuel heap (n * size % 2 ^ 64) frames

def kfree (fuel : ℕ) (heap : Kheap) (pointer : Option ℕ) : Option Kheap :=
  kheapFree fuel heap pointer

end Goshkik

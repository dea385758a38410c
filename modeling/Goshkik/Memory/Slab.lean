import Goshkik.Lib.Cells
import Goshkik.Lib.Linked
import Goshkik.Memory.Vmm

/-!
# The slab allocator

This file models `klibc/kmem/slab.c`.  A slab is one page with a header followed
by slots of equal size, and the free slots are chained through their first
words.  Header fields and link words are cells of one memory, so a slot that
overlapped the header, or another slot, would corrupt it here as well.

The page handed out by `pmm_alloc_page` and the block handed out by `kmalloc` are
arguments of `slabAlloc`.  A slab page is identity mapped, so its address is the
address of its frame; the page tables themselves are not part of this model.
What becomes of a freed object is reported as a `Release`.  The loops over the
lists of slabs run on fuel.
-/

namespace Goshkik

def pageSizeSlab : ℕ := pageSizeVmm

def slabMagic : ℕ := 0x534C4142

def sizeofSlab : ℕ := 40

def sizeofPointer : ℕ := 8

/-- `align_up`, computed in 64 bits. -/
def alignUp (value align : ℕ) : ℕ :=
  ((value + (align + (2 ^ 64 - 1))) % 2 ^ 64) &&& ((2 ^ 64 - align) % 2 ^ 64)

def slabFromObject (object : ℕ) : ℕ := object &&& (2 ^ 64 - pageSizeSlab)

/-- The fields of a cache that say how a page is divided into slots. -/
structure SlabGeometry where
  objectSize : ℕ
  align : ℕ
  objectsPerSlab : ℕ

/-- A cache; `address` is where the cache itself lives.  A constructor or a
destructor changes the memory it is given. -/
structure SlabCache extends SlabGeometry where
  address : ℕ
  partialList : Option ℕ
  fullList : Option ℕ
  emptyList : Option ℕ
  ctor : Option (Cells → ℕ → Cells)
  dtor : Option (Cells → ℕ → Cells)

/-! ## The fields of a slab header -/

def slabNextField (slab : ℕ) : ℕ := slab

def slabCacheField (slab : ℕ) : ℕ := slab + 8

def slabFreeCountField (slab : ℕ) : ℕ := slab + 16

def slabTotalObjectsField (slab : ℕ) : ℕ := slab + 20

def slabMagicField (slab : ℕ) : ℕ := slab + 24

def slabFreeListField (slab : ℕ) : ℕ := slab + 32

def slabNext (cells : Cells) (slab : ℕ) : Option ℕ := cells.pointerAt (slabNextField slab)

def slabFreeList (cells : Cells) (slab : ℕ) : Option ℕ := cells.pointerAt (slabFreeListField slab)

/-! ## The operations -/

def firstObjectOffset (align : ℕ) : ℕ := alignUp (alignUp sizeofSlab sizeofPointer) align

def objectsIn (objectSize align : ℕ) : ℕ :=
  ((pageSizeSlab + (2 ^ 64 - firstObjectOffset align)) % 2 ^ 64) / objectSize

/-- The loop of `slab_init` that chains the slots. -/
def chainSlots (objectSize : ℕ) : ℕ → ℕ → Option ℕ → Cells → Cells × Option ℕ
  | 0, _, previous, cells => (cells, previous)
  | objects + 1, object, previous, cells =>
      chainSlots objectSize objects (object + objectSize) (some object)
        (cells.store object (Cells.pointerWord previous))

/-- The header fields that `slab_init` fills in before it chains the slots. -/
def initHeader (cache : SlabCache) (cells : Cells) (slab objects : ℕ) : Cells :=
  let cells := cells.store (slabCacheField slab) cache.address
  let cells := cells.store (slabTotalObjectsField slab) (objects % 2 ^ 32)
  let cells := cells.store (slabFreeCountField slab) (cells (slabTotalObjectsField slab))
  cells.store (slabMagicField slab) slabMagic

def slabInit (cache : SlabCache) (cells : Cells) (physical : ℕ) : Option ℕ × Cells :=
  if physical = 0 then (none, cells)
  else
    let slab := physical
    let cells := zeroFrame cells slab
    let objects := objectsIn cache.objectSize cache.align
    if objects = 0 then (none, cells)
    else
      let cells := initHeader cache cells slab objects
      let chained := chainSlots cache.objectSize objects
        (slab + firstObjectOffset cache.align) none cells
      (some slab, chained.1.store (slabFreeListField slab) (Cells.pointerWord chained.2))

/-- Dividing by an object size of zero is a fault, reported as `none`. -/
def slabCacheCreate (objectSize align : ℕ) (ctor dtor : Option (Cells → ℕ → Cells))
    (kmalloc : Option ℕ) : Option (Option SlabCache) :=
  if objectSize = 0 then some none
  else
    let align := if align < sizeofPointer then sizeofPointer else align
    match kmalloc with
    | none => some none
    | some address =>
        let objectSize := alignUp objectSize align
        if objectSize = 0 then none
        else if objectsIn objectSize align = 0 then some none
        else some (some {
          address := address
          objectSize := objectSize
          align := align
          objectsPerSlab := objectsIn objectSize align
          partialList := none
          fullList := none
          emptyList := none
          ctor := ctor
          dtor := dtor })

def slabPopObject (cells : Cells) (slab : ℕ) : Option ℕ × Cells :=
  match slabFreeList cells slab with
  | none => (none, cells)
  | some object =>
      let cells := cells.store (slabFreeListField slab) (cells object)
      let cells := cells.store (slabFreeCountField slab) (cells (slabFreeCountField slab) - 1)
      (some object, cells)

def slabPushObject (cells : Cells) (slab object : ℕ) : Cells :=
  let cells := cells.store object (cells (slabFreeListField slab))
  let cells := cells.store (slabFreeListField slab) object
  cells.store (slabFreeCountField slab) (cells (slabFreeCountField slab) + 1)

/-- The loop that takes a slab off a list through a pointer to the pointer that
leads to it.  The result says whether the slab was found, with the head of the
list and the memory afterwards. -/
def unlinkSlab (fuel : ℕ) (cells : Cells) (head : Option ℕ) (slab : ℕ) :
    Option (Bool × Option ℕ × Cells) := do
  match ← scan (slabNext cells) (fun other => other == slab) fuel none head with
  | (_, none) => return (false, head, cells)
  | (none, some _) => return (true, slabNext cells slab, cells)
  | (some previous, some _) =>
      return (true, head, cells.store (slabNextField previous) (cells (slabNextField slab)))

/-- Apply a constructor or destructor if there is one. -/
def callback (function : Option (Cells → ℕ → Cells)) (cells : Cells) (object : ℕ) : Cells :=
  match function with
  | none => cells
  | some function => function cells object

/-- The slab that `slab_alloc` takes an object from: the first partial one, or an
empty one, or a new one. -/
def slabForAlloc (cache : SlabCache) (cells : Cells) (physical : ℕ) :
    Option ℕ × SlabCache × Cells :=
  match cache.partialList.or cache.emptyList with
  | some slab => (some slab, cache, cells)
  | none =>
      match slabInit cache cells physical with
      | (none, cells) => (none, cache, cells)
      | (some slab, cells) =>
          (some slab, { cache with partialList := some slab },
            cells.store (slabNextField slab) (Cells.pointerWord cache.partialList))

/-- A slab that has run out of free slots goes to the full ones. -/
def retireSlab (fuel : ℕ) (cache : SlabCache) (cells : Cells) (slab : ℕ) :
    Option (SlabCache × Cells) :=
  if cells (slabFreeCountField slab) = 0 then do
    let (_, head, cells) ← unlinkSlab fuel cells cache.partialList slab
    let cells := cells.store (slabNextField slab) (Cells.pointerWord cache.fullList)
    return ({ cache with partialList := head, fullList := some slab }, cells)
  else some (cache, cells)

def slabAlloc (fuel : ℕ) (cache : SlabCache) (cells : Cells) (physical : ℕ)
    (kmalloc : Option ℕ) : Option (Option ℕ × SlabCache × Cells) :=
  match slabForAlloc cache cells physical with
  | (none, cache, cells) => some (kmalloc, cache, cells)
  | (some slab, cache, cells) =>
      match slabPopObject cells slab with
      | (none, cells) => some (none, cache, cells)
      | (some object, cells) => do
          let (cache, cells) ← retireSlab fuel cache cells slab
          return (some object, cache, callback cache.ctor cells object)

/-- What becomes of an object passed to `slab_free`: it is ignored, passed on to
`kfree`, kept in its slab, or the page of its slab is unmapped and given up. -/
inductive Release where
  | ignored
  | kfree (object : ℕ)
  | kept
  | reclaimed (slab : ℕ)
deriving DecidableEq

/-- A slab that was full goes back to the partial ones. -/
def refillSlab (fuel : ℕ) (cache : SlabCache) (cells : Cells) (slab : ℕ) :
    Option (Release × SlabCache × Cells) := do
  match ← unlinkSlab fuel cells cache.fullList slab with
  | (false, _, cells) => return (.kept, cache, cells)
  | (true, head, cells) =>
      let cells := cells.store (slabNextField slab) (Cells.pointerWord cache.partialList)
      return (.kept, { cache with fullList := head, partialList := some slab }, cells)

/-- A slab all of whose slots are free is taken off its list and its page given up. -/
def reclaimSlab (fuel : ℕ) (cache : SlabCache) (cells : Cells) (slab : ℕ) :
    Option (Release × SlabCache × Cells) := do
  let (_, head, cells) ← unlinkSlab fuel cells cache.partialList slab
  return (.reclaimed slab, { cache with partialList := head }, cells)

def slabFree (fuel : ℕ) (cache : SlabCache) (cells : Cells) (object : ℕ) :
    Option (Release × SlabCache × Cells) :=
  if object = 0 then some (.ignored, cache, cells)
  else
    let slab := slabFromObject object
    if cells (slabMagicField slab) ≠ slabMagic then some (.kfree object, cache, cells)
    else
      let cells := callback cache.dtor cells object
      let wasFull := cells (slabFreeCountField slab) = 0
      let cells := slabPushObject cells slab object
      if wasFull then refillSlab fuel cache cells slab
      else if cells (slabFreeCountField slab) = cells (slabTotalObjectsField slab) then
        reclaimSlab fuel cache cells slab
      else some (.kept, cache, cells)

end Goshkik

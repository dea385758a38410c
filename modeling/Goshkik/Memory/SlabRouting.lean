import Goshkik.Memory.Kheap
import Goshkik.Memory.SlabPages

/-!
# Where freed objects go

`slab_alloc` hands out a block of the kernel heap when there is no frame for a
new slab.  `slab_free` tells the two kinds of objects apart by the word at the
place of `magic` in the page of the object.  In the page of a slab this word is
out of reach of the owners of objects, but in a page of the heap it is part of
some block, and its owner may have written anything there.
-/

namespace Goshkik

open Transition

/-- A cache with the objects that it has handed out: those carved from slabs,
which `slabs` keeps, and the blocks of the heap. -/
structure ObjectSystem where
  slabs : SlabState
  heap : Finset ℕ

namespace ObjectSystem

/-- The word that `slab_free` looks at. -/
def magicWord (system : ObjectSystem) (object : ℕ) : ℕ :=
  system.slabs.cells (slabMagicField (slabFromObject object))

/-- `slab_free` takes the object back into a slab of the cache. -/
def SlabPath (system : ObjectSystem) (object : ℕ) : Prop :=
  ∃ fuel release cache cells,
    slabFree fuel system.slabs.cache system.slabs.cells object = some (release, cache, cells) ∧
      (release = .kept ∨ ∃ slab ∈ system.slabs.slabs, release = .reclaimed slab)

/-- `slab_free` passes the object on to `kfree`. -/
def KfreePath (system : ObjectSystem) (object : ℕ) : Prop :=
  ∀ fuel, slabFree fuel system.slabs.cache system.slabs.cells object =
    some (.kfree object, system.slabs.cache, system.slabs.cells)

/-- The object returns to the allocator that it came from. -/
structure Routed (system : ObjectSystem) (object : ℕ) : Prop where
  slabs : system.SlabPath object ↔
    ∃ slab ∈ system.slabs.slabs, slab ≤ object ∧ object < slab + pageSizeSlab
  heap : system.KfreePath object ↔ object ∈ system.heap

/-- The word that `slab_free` looks at for a block of the heap is not the magic number. -/
def Recognised (system : ObjectSystem) (object : ℕ) : Prop :=
  object ∈ system.heap → system.magicWord object ≠ slabMagic

end ObjectSystem

/-- The calls on a cache, and the writes of everyone to live objects of the cache
and to memory outside its slabs, the heap included.  Slabs stand on frames at
their own addresses, below the heap. -/
inductive ObjectStep : ObjectSystem → SlabCall → ObjectSystem → Prop where
  | slab {system : ObjectSystem} {call : SlabCall} {slabs : SlabState}
      (step : SlabStep system.slabs call slabs)
      (below : ∀ slab ∈ slabs.slabs, slab + pageSizeSlab ≤ heapStart) :
      ObjectStep system call ⟨slabs, system.heap⟩
  | fallback {system : ObjectSystem} {kmalloc result : Option ℕ} {cache : SlabCache}
      {cells : Cells} (fuel : ℕ) (need : system.slabs.NeedsPage)
      (block : ∀ object, kmalloc = some object → heapStart ≤ object)
      (returns : slabAlloc fuel system.slabs.cache system.slabs.cells 0 kmalloc =
        some (result, cache, cells)) :
      ObjectStep system (.alloc result)
        ⟨{ system.slabs with cache := cache, cells := cells },
          result.elim system.heap (insert · system.heap)⟩
  | freeHeap {system : ObjectSystem} {object : ℕ} {release : Release} {cache : SlabCache}
      {cells : Cells} (fuel : ℕ) (isHeap : object ∈ system.heap)
      (returns : slabFree fuel system.slabs.cache system.slabs.cells object =
        some (release, cache, cells)) :
      ObjectStep system (.free object)
        ⟨{ system.slabs with
            cache := cache
            cells := cells
            slabs := system.slabs.slabsAfterFree release }, system.heap.erase object⟩

/-- No block of the heap is freed that `slab_free` would mistake for an object of a slab. -/
def FreesRecognised (system : ObjectSystem) (call : SlabCall) : Prop :=
  ∀ object, call = .free object → system.Recognised object

namespace ObjectSystem

variable {system after : ObjectSystem} {object : ℕ}

/-- The slabs are in shape and apart from the heap. -/
structure Sound (system : ObjectSystem) : Prop where
  slabs : ∃ partials fulls free, SlabInvariant system.slabs partials fulls free
  below : ∀ slab ∈ system.slabs.slabs, slab + pageSizeSlab ≤ heapStart
  heap : ∀ object ∈ system.heap, heapStart ≤ object

theorem kfreePath_of_ne (nonnull : object ≠ 0) (different : system.magicWord object ≠ slabMagic) :
    system.KfreePath object := by
  intro fuel
  rw [slabFree, if_neg nonnull]
  exact if_pos different

/-- Where the magic number stands, `kfree` is not reached. -/
theorem magicWord_ne_of_kfreePath (nonnull : object ≠ 0) (passed : system.KfreePath object) :
    system.magicWord object ≠ slabMagic := by
  intro same
  have same : system.slabs.cells (slabMagicField (slabFromObject object)) = slabMagic := same
  have frees := passed 0
  simp only [slabFree, if_neg nonnull, same, ne_eq, not_true_eq_false, if_false] at frees
  split at frees
  · cases refillSlab_release frees
  · split at frees
    · cases reclaimSlab_release frees
    · cases frees

/-- The two paths exclude each other. -/
theorem not_kfreePath_of_slabPath (taken : system.SlabPath object) :
    ¬system.KfreePath object := by
  intro passed
  rcases taken with ⟨fuel, release, cache, cells, frees, kept⟩
  rw [passed fuel] at frees
  cases frees
  rcases kept with impossible | ⟨_, _, impossible⟩ <;> cases impossible

namespace Sound

theorem nonnull (sound : system.Sound) (isHeap : object ∈ system.heap) : object ≠ 0 := by
  rintro rfl
  exact absurd (sound.heap 0 isHeap) (by decide)

/-- An object of a slab lies in a page below the heap. -/
theorem placed (sound : system.Sound) (isLive : object ∈ system.slabs.live) :
    ∃ slab ∈ system.slabs.slabs, slab ≤ object ∧ object < slab + pageSizeSlab := by
  rcases sound.slabs with ⟨_, _, _, invariant⟩
  rcases invariant.live object isLive with ⟨slab, mem, inside⟩
  have bounds := invariant.sound.fits.slot_bounds inside
  have positive := invariant.sound.fits.sizePositive
  refine ⟨slab, mem, by omega, ?_⟩
  rw [pageSizeSlab, pageSizeVmm]
  omega

theorem not_heap (sound : system.Sound) (isLive : object ∈ system.slabs.live) :
    object ∉ system.heap := by
  intro isHeap
  rcases sound.placed isLive with ⟨slab, mem, _, inside⟩
  have below := sound.below slab mem
  have above := sound.heap object isHeap
  omega

theorem not_placed (sound : system.Sound) (isHeap : object ∈ system.heap) :
    ¬∃ slab ∈ system.slabs.slabs, slab ≤ object ∧ object < slab + pageSizeSlab := by
  rintro ⟨slab, mem, _, inside⟩
  have below := sound.below slab mem
  have above := sound.heap object isHeap
  omega

/-- `slab_free` takes every object of a slab back into its slab. -/
theorem slabPath (sound : system.Sound) (isLive : object ∈ system.slabs.live) :
    system.SlabPath object := by
  rcases sound.slabs with ⟨_, _, _, invariant⟩
  rcases invariant.guarantee.freeReturns object isLive with ⟨fuel, ⟨release, cache, cells⟩, frees⟩
  rcases invariant.live object isLive with ⟨slab, mem, inside⟩
  refine ⟨fuel, release, cache, cells, frees, ?_⟩
  have released := invariant.slabFree_release mem inside isLive frees
  split at released
  · exact Or.inr ⟨slab, mem, released⟩
  · exact Or.inl released

/-- Every live object returns to where it came from, except for a block of the
heap in whose page the magic number stands. -/
theorem routed_iff (sound : system.Sound)
    (obtained : object ∈ system.slabs.live ∨ object ∈ system.heap) :
    system.Routed object ↔ system.Recognised object := by
  rcases obtained with isLive | isHeap
  · have notHeap := sound.not_heap isLive
    have taken := sound.slabPath isLive
    exact iff_of_true ⟨iff_of_true taken (sound.placed isLive),
      iff_of_false (not_kfreePath_of_slabPath taken) notHeap⟩
      (fun isHeap => absurd isHeap notHeap)
  · have nonnull := sound.nonnull isHeap
    constructor
    · exact fun routed _ => magicWord_ne_of_kfreePath nonnull (routed.heap.mpr isHeap)
    · intro recognised
      have passed := kfreePath_of_ne nonnull (recognised isHeap)
      exact ⟨iff_of_false (fun taken => not_kfreePath_of_slabPath taken passed)
        (sound.not_placed isHeap), iff_of_true passed isHeap⟩

theorem step {call : SlabCall} (sound : system.Sound)
    (taken : Guarded FreesRecognised ObjectStep system call after) : after.Sound := by
  rcases taken with ⟨recognised, taken⟩
  rcases sound.slabs with ⟨partials, fulls, free, invariant⟩
  cases taken with
  | slab step below => exact ⟨invariant.step step, below, sound.heap⟩
  | @fallback kmalloc result cache cells fuel need block returns =>
      rw [slabAlloc_exhausted need, Option.some.injEq, Prod.mk.injEq, Prod.mk.injEq] at returns
      rcases returns with ⟨rfl, rfl, rfl⟩
      refine ⟨⟨partials, fulls, free, invariant⟩, sound.below, ?_⟩
      cases kmalloc with
      | none => exact sound.heap
      | some object =>
          intro other mem
          rcases Finset.mem_insert.mp mem with rfl | mem
          · exact block other rfl
          · exact sound.heap other mem
  | @freeHeap object release cache cells fuel isHeap returns =>
      have passed := kfreePath_of_ne (sound.nonnull isHeap) (recognised object rfl isHeap)
      rw [passed fuel] at returns
      cases returns
      exact ⟨⟨partials, fulls, free, invariant⟩, sound.below,
        fun other mem => sound.heap other (Finset.mem_of_mem_erase mem)⟩

theorem start {cache : SlabCache} {cells : Cells} (sound : cache.Sound)
    (noPartial : cache.partialList = none) (noFull : cache.fullList = none)
    (noEmpty : cache.emptyList = none) : ObjectSystem.Sound ⟨⟨cache, cells, ∅, ∅⟩, ∅⟩ where
  slabs := ⟨[], [], _, SlabInvariant.start sound noPartial noFull noEmpty⟩
  below := by simp
  heap := by simp

end Sound

end ObjectSystem

/-- In every state that a cache reaches without freeing a block of the heap in
whose page the magic number stands, a live object returns to the allocator that
it came from if and only if it is not such a block. -/
theorem slab_free_routes_iff (bits : ℕ) {objectSize align : ℕ}
    {ctor dtor : Option (Cells → ℕ → Cells)} {kmalloc : Option ℕ} {cache : SlabCache}
    (created : slabCacheCreate objectSize align ctor dtor kmalloc = some (some cache))
    (power : cache.align = 2 ^ bits) (pageSized : cache.align ≤ pageSizeSlab)
    (ctorInside : StaysInside cache.objectSize ctor)
    (dtorInside : StaysInside cache.objectSize dtor)
    {cells : Cells} {calls : List SlabCall} {last : ObjectSystem}
    (run : Run (Guarded FreesRecognised ObjectStep) ⟨⟨cache, cells, ∅, ∅⟩, ∅⟩ calls last)
    {object : ℕ} (obtained : object ∈ last.slabs.live ∨ object ∈ last.heap) :
    last.Routed object ↔ last.Recognised object := by
  have fits := slabCacheCreate_fits bits created power pageSized
  rcases slabCacheCreate_eq created with ⟨address, used, _, _, _, rfl⟩
  have sound : last.Sound := by
    apply run.invariant
    · exact fun _ _ _ sound taken => sound.step taken
    · exact .start ⟨fits, ctorInside, dtorInside⟩ rfl rfl rfl
  exact sound.routed_iff obtained

/-- The first object of a cache that finds no frame for a slab. -/
def heapObject (cells : Cells) : ObjectSystem :=
  ⟨⟨hashEntryCache, cells, ∅, ∅⟩, {0xFFFF800010001018}⟩

theorem heapObject_run : Run (Guarded FreesRecognised ObjectStep)
    ⟨⟨hashEntryCache, fun _ => 0, ∅, ∅⟩, ∅⟩ [.alloc (some 0xFFFF800010001018)]
      (heapObject (fun _ => 0)) := by
  have block : ∀ object, some 0xFFFF800010001018 = some object → heapStart ≤ object := by
    rintro object ⟨⟩
    decide
  have step := @ObjectStep.fallback ⟨⟨hashEntryCache, fun _ => 0, ∅, ∅⟩, ∅⟩ _ _ _ _ 0 rfl block rfl
  exact .cons ⟨(fun object impossible => by cases impossible), step⟩ (.nil _)

theorem slab_free_routes_heapObject :
    (heapObject (fun _ => 0)).Routed 0xFFFF800010001018 := by
  have noCallback : StaysInside hashEntryCache.objectSize none := fun _ _ _ _ => rfl
  refine (slab_free_routes_iff 3 hashEntryCache_created rfl (by decide) noCallback noCallback
    heapObject_run (Or.inr (Finset.mem_singleton_self _))).mpr ?_
  intro _
  decide

/-- A block of the heap whose owner has written the magic number at its start. -/
theorem heap_object_kept_as_slab : ∃ last,
    Run (Guarded FreesRecognised ObjectStep) ⟨⟨hashEntryCache, fun _ => 0, ∅, ∅⟩, ∅⟩
        [.alloc (some 0xFFFF800010001018), .write] last ∧
      0xFFFF800010001018 ∈ last.heap ∧ slabMagicField (slabFromObject 0xFFFF800010001018) =
        0xFFFF800010001018 ∧ ¬last.Routed 0xFFFF800010001018 := by
  let written : Cells := Function.update (fun _ => 0) 0xFFFF800010001018 slabMagic
  have write : ObjectStep (heapObject (fun _ => 0)) .write (heapObject written) :=
    .slab (.write (by simp [heapObject])) (by simp)
  have run := heapObject_run.trans
    (.cons ⟨(fun _ impossible => by cases impossible), write⟩ (.nil _))
  have isHeap : 0xFFFF800010001018 ∈ (heapObject written).heap := Finset.mem_singleton_self _
  have place : slabMagicField (slabFromObject 0xFFFF800010001018) = 0xFFFF800010001018 := by decide
  refine ⟨_, run, isHeap, place, fun routed => ?_⟩
  apply ObjectSystem.magicWord_ne_of_kfreePath (by decide) (routed.heap.mpr isHeap)
  rw [ObjectSystem.magicWord, place]
  simp [heapObject, written]

end Goshkik

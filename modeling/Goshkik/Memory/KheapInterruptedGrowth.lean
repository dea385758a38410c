import Goshkik.Memory.KheapInterruptedAlloc

/-!
# Interrupting a growth

The chain may lose its last block to the one before it while `kmalloc` obtains more memory.  With
the other accesses of `kmalloc` this covers the whole call.
-/

namespace Goshkik

open KheapPoint

namespace Kheap

variable {heap mid : Kheap} {stop size last count : ℕ} {all pointers frames : List ℕ}
  {headers : Headers}
  {point : KheapPoint}

/-- At an access of a growth. -/
theorem growth_survives (chained : mid.Chained stop all headers) (aligned : pageSizeVmm ∣ stop)
    (distinct : pointers.Nodup)
    (inUse : ∀ pointer ∈ pointers, ∃ node ∈ all, (headers node).free = false ∧
      pointer = node + sizeofBlockHeader)
    (exhausted : Exhausted all headers size last) (small : size ≤ 2 ^ 64 - 1 - sizeofBlockHeader)
    (here : GrowAt stop size last mid point) :
    Survives mid point pointers (LiveAfter all headers pointers) size (all.length + 1)
      (¬ GrowthWraps size) := by
  rcases chained.interrupted distinct inUse with
    ⟨after, final, nodes, frees, same, outside, freed, remains⟩
  rcases exhausted.1 with ⟨front, isLast⟩
  have behind : ∀ cell, stop ≤ cell → after.view cell = mid.view cell := by
    intro cell above
    apply outside
    intro node mem
    have inside := (chained.has.inside node mem).2
    exact .inr (by omega)
  have completesIff := remains.growth_iff (by simp [isLast]) (remains.next_last isLast) aligned
    (covers_freed freed) small (here.congr same behind)
  refine ⟨after, nodes, fun fuel enough => frees fuel (by omega), remains.linked_headers
    (fun node mem => remains.shaped.sublist.subset mem) remains.shaped.linked, ?_⟩
  rw [completesIff]
  have guard : ¬ PagesWrap size ↔ ¬ GrowthWraps size := by
    simp only [GrowthWraps, small, true_and]
  rw [guard]
  apply and_congr_right'
  cases point with
  | growBase total found frames =>
      rcases here with ⟨_, rfl, _⟩
      simp [Harmless, KheapPoint.Supplied]
  | growPage total found base address count frames =>
      rcases here with ⟨_, rfl, _⟩
      simp [Harmless, KheapPoint.Supplied]
  | growCurrent total found base =>
      rcases here with ⟨_, rfl, _⟩
      simp [Harmless, KheapPoint.Supplied]
  | growSize total found base =>
      rcases here with ⟨_, rfl, _⟩
      simp [Harmless, KheapPoint.Supplied]
  | growFree found base =>
      rcases here with ⟨rfl, _⟩
      simp [Harmless, KheapPoint.Supplied]
  | growNext found base =>
      rcases here with ⟨rfl, _⟩
      simp [Harmless, KheapPoint.Supplied]
  | growLink found base =>
      rcases here with ⟨rfl, _⟩
      simp [Harmless, KheapPoint.Supplied]
  | _ => exact here.elim

/-- The first two stores into the header that is cut off. -/
theorem Serves.written {block : ℕ} {first : Kheap} (chained : heap.Chained stop all headers)
    (serves : Serves all headers size block)
    (room : size + sizeofBlockHeader < (headers block).size)
    (storedSize : heap.store (blockSizeField (newBlock block size))
      ((headers block).size - size - sizeofBlockHeader) = some first)
    (storedFree : first.store (blockFreeField (newBlock block size)) 1 = some mid) :
    mid.Chained stop all headers ∧ heap.SameMaps mid ∧
      mid.view (blockSizeField (newBlock block size)) =
        (headers block).size - size - sizeofBlockHeader ∧
      mid.view (blockFreeField (newBlock block size)) = 1 := by
  rcases serves.writing chained room (by simp [blockSizeField, sizeofBlockHeader]) storedSize with
    ⟨firstChained, firstSame, firstView⟩
  rcases serves.writing firstChained room (by simp [blockFreeField, sizeofBlockHeader])
    storedFree with
    ⟨midChained, midSame, midView⟩
  refine ⟨midChained, firstSame.trans midSame, ?_, by rw [midView, Cells.store_self]⟩
  rw [midView, Cells.store_of_ne (by simp [blockSizeField, blockFreeField]), firstView,
    Cells.store_self]

/-- All three of them. -/
theorem Serves.linked {block : ℕ} {first second : Kheap} (chained : heap.Chained stop all headers)
    (serves : Serves all headers size block)
    (room : size + sizeofBlockHeader < (headers block).size)
    (storedSize : heap.store (blockSizeField (newBlock block size))
      ((headers block).size - size - sizeofBlockHeader) = some first)
    (storedFree : first.store (blockFreeField (newBlock block size)) 1 = some second)
    (storedNext : second.store (blockNextField (newBlock block size))
      (Cells.pointerWord (headers block).next) = some mid) :
    mid.Chained stop all headers ∧ heap.SameMaps mid ∧
      mid.view (blockSizeField (newBlock block size)) =
        (headers block).size - size - sizeofBlockHeader ∧
      mid.view (blockFreeField (newBlock block size)) = 1 ∧
      mid.view.pointerAt (blockNextField (newBlock block size)) = (headers block).next := by
  rcases serves.written chained room storedSize storedFree with
    ⟨secondChained, same, sizeEq, freeEq⟩
  rcases serves.writing secondChained room (by simp [blockNextField, sizeofBlockHeader])
    storedNext with
    ⟨midChained, midSame, midView⟩
  refine ⟨midChained, same.trans midSame, ?_, ?_, ?_⟩
  · rw [midView, Cells.store_of_ne (by simp [blockSizeField, blockNextField]), sizeEq]
  · rw [midView, Cells.store_of_ne (by simp [blockFreeField, blockNextField]), freeEq]
  · rw [midView, Cells.pointerAt_store_pointerWord (chained.has.next_ne_zero serves.1)]

/-- At every access of `kmalloc` that the call reaches on its own. -/
theorem AllocAt.survives (chained : heap.Chained stop all headers)
    (extent : heap.heapCurrent = stop)
    (aligned : pageSizeVmm ∣ stop) (fresh : heap.FreshFrames frames)
    (space : stop + frames.length * pageSizeVmm < 2 ^ 64) (distinct : pointers.Nodup)
    (inUse : ∀ pointer ∈ pointers, ∃ node ∈ all, (headers node).free = false ∧
      pointer = node + sizeofBlockHeader)
    (here : AllocAt heap stop all headers size frames mid point)
    (running : ∀ pointer, point ≠ returned pointer) :
    Survives mid point pointers (LiveAfter all headers pointers) size (all.length + 1)
      (¬ GrowthWraps size) := by
  cases point with
  | allocFirst request offered =>
      rcases here with ⟨rfl, rfl, rfl⟩
      exact allocFirst_survives chained extent aligned fresh space distinct inUse
  | searchFree request offered current =>
      rcases here with ⟨rfl, rfl, rfl, front, back, split, _⟩
      exact (search_survives chained extent aligned fresh space distinct inUse
        (show current ∈ all by simp [split])).1
  | searchSize request offered current =>
      rcases here with ⟨rfl, rfl, rfl, isFree, front, back, split, _⟩
      exact (search_survives chained extent aligned fresh space distinct inUse
        (show current ∈ all by simp [split])).2.1 isFree
  | searchNext request offered current =>
      rcases here with ⟨rfl, rfl, rfl, front, back, split, _⟩
      exact (search_survives chained extent aligned fresh space distinct inUse
        (show current ∈ all by simp [split])).2.2
  | splitSize request block =>
      rcases here with ⟨rfl, rfl, serves⟩
      exact splitSize_survives chained extent distinct inUse serves
  | newSize request block blockSize =>
      rcases here with ⟨rfl, rfl, serves, rfl, room⟩
      exact newSize_survives chained extent distinct inUse serves room
  | newFree request block =>
      rcases here with ⟨rfl, serves, room, storedSize⟩
      rcases serves.writing chained room (by simp [blockSizeField, sizeofBlockHeader])
        storedSize with
        ⟨midChained, same, viewEq⟩
      exact newFree_survives midChained (same.heapCurrent.trans extent) distinct inUse serves room
        (by rw [viewEq, Cells.store_self])
  | splitNext request block =>
      rcases here with ⟨rfl, serves, room, first, storedSize, storedFree⟩
      rcases serves.written chained room storedSize storedFree with
        ⟨midChained, same, sizeEq, freeEq⟩
      exact splitNext_survives midChained (same.heapCurrent.trans extent) distinct inUse serves room
        sizeEq
        freeEq
  | newNext request block next =>
      rcases here with ⟨rfl, serves, room, ⟨first, storedSize, storedFree⟩, rfl⟩
      rcases serves.written chained room storedSize storedFree with
        ⟨midChained, same, sizeEq, freeEq⟩
      exact newNext_survives midChained (same.heapCurrent.trans extent) distinct inUse serves room
        sizeEq
        freeEq
  | cutSize request block =>
      rcases here with ⟨rfl, serves, room, first, second, storedSize, storedFree, storedNext⟩
      rcases serves.linked chained room storedSize storedFree storedNext with
        ⟨midChained, same, sizeEq, freeEq, nextEq⟩
      exact cutSize_survives midChained (same.heapCurrent.trans extent) distinct inUse serves room
        sizeEq
        freeEq nextEq
  | cutNext request block =>
      rcases here with ⟨rfl, serves, room, first, second, third, storedSize, storedFree, storedNext,
        storedCut⟩
      rcases serves.linked chained room storedSize storedFree storedNext with
        ⟨thirdChained, same, sizeEq, freeEq, nextEq⟩
      exact cutNext_survives thirdChained (same.heapCurrent.trans extent) distinct inUse serves room
        sizeEq
        freeEq nextEq storedCut
  | takeFree block =>
      rcases here with ⟨serves, cuts⟩
      exact takeFree_survives chained extent distinct inUse serves cuts
  | returned pointer => exact absurd rfl (running pointer)
  | _ =>
      rcases here with ⟨last, exhausted, small, midChained, growAt⟩
      exact growth_survives midChained aligned distinct inUse exhausted small growAt

/-- Where `kmalloc` is after some accesses. -/
theorem AllocAt.advance (chained : heap.Chained stop all headers) (extent : heap.heapCurrent = stop)
    (fresh : heap.FreshFrames frames) (room : stop + frames.length * pageSizeVmm < 2 ^ 64)
    (aligned : pageSizeVmm ∣ stop) {start : Kheap} {first : KheapPoint}
    (here : AllocAt heap stop all headers size frames start first)
    (reached : start.advance count first = some (mid, point)) :
    AllocAt heap stop all headers size frames mid point := by
  induction count generalizing start first with
  | zero =>
      cases reached
      exact here
  | succ count ih =>
      rcases Option.bind_eq_some_iff.mp reached with ⟨next, accessed, rest⟩
      exact ih (here.step chained extent fresh room aligned accessed) rest

end Kheap

end Goshkik

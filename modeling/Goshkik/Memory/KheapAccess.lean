import Goshkik.Memory.Kheap

/-!
# The accesses of the heap operations

The operations of `klibc/kmem/kheap.c` again, as a machine that makes one access to memory in a
step: a `KheapPoint` says which access comes next, and has the local variables that are needed from
there on.  A pointer or a size that a statement needs again without having written it stays in its
local variable.  Obtaining and mapping one page is one step.
-/

namespace Goshkik

/-- The access that a call makes next. -/
inductive KheapPoint where
  -- the search of `kheap_alloc`
  | allocFirst (size : ℕ) (frames : List ℕ)
  | searchFree (size : ℕ) (frames : List ℕ) (current : ℕ)
  | searchSize (size : ℕ) (frames : List ℕ) (current : ℕ)
  | searchNext (size : ℕ) (frames : List ℕ) (current : ℕ)
  -- `split_block`
  | splitSize (size block : ℕ)
  | newSize (size block blockSize : ℕ)
  | newFree (size block : ℕ)
  | splitNext (size block : ℕ)
  | newNext (size block next : ℕ)
  | cutSize (size block : ℕ)
  | cutNext (size block : ℕ)
  -- the block is taken
  | takeFree (block : ℕ)
  -- `request_more_memory`, and the link to the new block
  | growBase (total : ℕ) (last : Option ℕ) (frames : List ℕ)
  | growPage (total : ℕ) (last : Option ℕ) (base address count : ℕ) (frames : List ℕ)
  | growCurrent (total : ℕ) (last : Option ℕ) (base : ℕ)
  | growSize (total : ℕ) (last : Option ℕ) (base : ℕ)
  | growFree (last : Option ℕ) (base : ℕ)
  | growNext (last : Option ℕ) (base : ℕ)
  | growLink (last : Option ℕ) (base : ℕ)
  -- `kheap_free`
  | markFree (block : ℕ)
  | mergeFirst
  | mergeFree (current : ℕ)
  | mergeNext (current free : ℕ)
  | mergeNextFree (current next : ℕ)
  | absorbSize (current next : ℕ)
  | absorbNextSize (current next size : ℕ)
  | absorbStore (current next size : ℕ)
  | absorbLink (current next : ℕ)
  | absorbStoreLink (current link : ℕ)
  -- the call has returned
  | returned (pointer : Option ℕ)

namespace KheapPoint

/-- Growing begins, unless the request leaves no room for a header. -/
def grow (size : ℕ) (frames : List ℕ) (last : Option ℕ) : KheapPoint :=
  if size > 2 ^ 64 - 1 - sizeofBlockHeader then .returned none
  else .growBase (totalSize size) last frames

/-- The loop over the pages of a growth. -/
def growPages (total : ℕ) (last : Option ℕ) (base address count : ℕ) (frames : List ℕ) :
    KheapPoint :=
  if count = 0 then .growCurrent total last base
  else .growPage total last base address count frames

/-- The loop over the chain that merges neighbours. -/
def merge : Option ℕ → KheapPoint
  | none => .returned none
  | some current => .mergeFree current

end KheapPoint

/-- The header that is cut off behind a block. -/
def newBlock (block size : ℕ) : ℕ := (block + sizeofBlockHeader + size) % 2 ^ 64

namespace Kheap

open KheapPoint

/-- One access. -/
def access (heap : Kheap) : KheapPoint → Option (Kheap × KheapPoint)
  | allocFirst size frames =>
      match heap.freeList with
      | none => some (heap, grow size frames none)
      | some first => some (heap, searchFree size frames first)
  | searchFree size frames current => do
      let free ← heap.load (blockFreeField current)
      return (heap, if free ≠ 0 then searchSize size frames current
        else searchNext size frames current)
  | searchSize size frames current => do
      let blockSize ← heap.load (blockSizeField current)
      return (heap, if size ≤ blockSize then splitSize size current
        else searchNext size frames current)
  | searchNext size frames current => do
      match ← heap.loadPointer (blockNextField current) with
      | none => return (heap, grow size frames (some current))
      | some next => return (heap, searchFree size frames next)
  | splitSize size block => do
      let blockSize ← heap.load (blockSizeField block)
      return (heap, if blockSize ≤ (size + sizeofBlockHeader) % 2 ^ 64 then takeFree block
        else newSize size block blockSize)
  | newSize size block blockSize => do
      let heap ← heap.store (blockSizeField (newBlock block size))
        (blockSize - size - sizeofBlockHeader)
      return (heap, newFree size block)
  | newFree size block => do
      let heap ← heap.store (blockFreeField (newBlock block size)) 1
      return (heap, splitNext size block)
  | splitNext size block => do
      let next ← heap.load (blockNextField block)
      return (heap, newNext size block next)
  | newNext size block next => do
      let heap ← heap.store (blockNextField (newBlock block size)) next
      return (heap, cutSize size block)
  | cutSize size block => do
      let heap ← heap.store (blockSizeField block) size
      return (heap, cutNext size block)
  | cutNext size block => do
      let heap ← heap.store (blockNextField block) (newBlock block size)
      return (heap, takeFree block)
  | takeFree block => do
      let heap ← heap.store (blockFreeField block) 0
      return (heap, returned (some (block + sizeofBlockHeader)))
  | growBase total last frames =>
      some (heap, growPages total last heap.heapCurrent heap.heapCurrent (total / pageSizeVmm)
        frames)
  | growPage total last base address count frames =>
      match frames with
      | [] => some (heap, returned none)
      | frame :: frames => some (heap.map address frame,
          growPages total last base ((address + pageSizeVmm) % 2 ^ 64) (count - 1) frames)
  | growCurrent total last base =>
      some ({ heap with heapCurrent := (heap.heapCurrent + total) % 2 ^ 64 }, growSize total last
        base)
  | growSize total last base => do
      let heap ← heap.store (blockSizeField base) ((total + 2 ^ 64 - sizeofBlockHeader) % 2 ^ 64)
      return (heap, growFree last base)
  | growFree last base => do
      let heap ← heap.store (blockFreeField base) 0
      return (heap, growNext last base)
  | growNext last base => do
      let heap ← heap.store (blockNextField base) 0
      return (heap, growLink last base)
  | growLink last base => do
      let pointer := (base + sizeofBlockHeader) % 2 ^ 64
      let heap ← heap.store (blockNextField (← last))
        ((pointer + 2 ^ 64 - sizeofBlockHeader) % 2 ^ 64)
      return (heap, returned (some pointer))
  | markFree block => do
      let heap ← heap.store (blockFreeField block) 1
      return (heap, mergeFirst)
  | mergeFirst => some (heap, merge heap.freeList)
  | mergeFree current => do
      let free ← heap.load (blockFreeField current)
      return (heap, mergeNext current free)
  | mergeNext current free => do
      match ← heap.loadPointer (blockNextField current) with
      | none => return (heap, merge none)
      | some next => return (heap, if free = 0 then mergeFree next else mergeNextFree current next)
  | mergeNextFree current next => do
      let free ← heap.load (blockFreeField next)
      return (heap, if free = 0 then mergeFree next else absorbSize current next)
  | absorbSize current next => do
      let size ← heap.load (blockSizeField current)
      return (heap, absorbNextSize current next size)
  | absorbNextSize current next size => do
      let nextSize ← heap.load (blockSizeField next)
      return (heap, absorbStore current next ((size + (sizeofBlockHeader + nextSize)) % 2 ^ 64))
  | absorbStore current next size => do
      let heap ← heap.store (blockSizeField current) size
      return (heap, absorbLink current next)
  | absorbLink current next => do
      let link ← heap.load (blockNextField next)
      return (heap, absorbStoreLink current link)
  | absorbStoreLink current link => do
      let heap ← heap.store (blockNextField current) link
      return (heap, mergeFree current)
  | returned pointer => some (heap, returned pointer)

/-- A number of accesses. -/
def advance : ℕ → Kheap → KheapPoint → Option (Kheap × KheapPoint)
  | 0, heap, point => some (heap, point)
  | count + 1, heap, point => (heap.access point).bind (fun next => advance count next.1 next.2)

/-- From a point on the call comes to its end. -/
def Finishes (heap : Kheap) (point : KheapPoint) (final : Kheap) (pointer : Option ℕ) : Prop :=
  ∃ count, heap.advance count point = some (final, returned pointer)

end Kheap

open KheapPoint

/-- Where `kmalloc` begins. -/
def kmallocPoint (size : ℕ) (frames : List ℕ) : KheapPoint :=
  if size = 0 then returned none else allocFirst (roundedSize size) frames

/-- Where `kfree` begins. -/
def kfreePoint : Option ℕ → KheapPoint
  | none => returned none
  | some pointer => markFree ((pointer + 2 ^ 64 - sizeofBlockHeader) % 2 ^ 64)

/-- A sequence of complete calls of `kfree`. -/
def kfreeAll (fuel : ℕ) (heap : Kheap) : List ℕ → Option Kheap
  | [] => some heap
  | pointer :: pointers =>
      (kfree fuel heap (some pointer)).bind (fun heap => kfreeAll fuel heap pointers)

/-! ## Calls without an interrupt -/

namespace Kheap

variable {heap middle after final : Kheap} {point next : KheapPoint} {pointer other : Option ℕ}
  {fuel size current : ℕ} {frames : List ℕ}

namespace Finishes

theorem returned (heap : Kheap) (pointer : Option ℕ) :
    heap.Finishes (.returned pointer) heap pointer :=
  ⟨0, rfl⟩

theorem step (accessed : heap.access point = some (middle, next))
    (finishes : middle.Finishes next final pointer) : heap.Finishes point final pointer := by
  rcases finishes with ⟨count, reached⟩
  exact ⟨count + 1, by rw [advance, accessed, Option.bind_some, reached]⟩

end Finishes

theorem advance_returned (count : ℕ) :
    heap.advance count (.returned pointer) = some (heap, .returned pointer) := by
  induction count with
  | zero => rfl
  | succ count ih => exact ih

/-- The end of a call is determined by where it is. -/
theorem Finishes.unique (finishes : heap.Finishes point final pointer)
    (again : heap.Finishes point after other) : after = final ∧ other = pointer := by
  rcases finishes with ⟨count, reached⟩
  rcases again with ⟨more, reachedAgain⟩
  induction count generalizing heap point more with
  | zero =>
      cases reached
      rw [advance_returned] at reachedAgain
      cases reachedAgain
      exact ⟨rfl, rfl⟩
  | succ count ih =>
      cases more with
      | zero =>
          cases reachedAgain
          rw [advance_returned] at reached
          cases reached
          exact ⟨rfl, rfl⟩
      | succ more =>
          rcases Option.bind_eq_some_iff.mp reached with ⟨next, accessed, rest⟩
          rcases Option.bind_eq_some_iff.mp reachedAgain with ⟨same, accessedAgain, restAgain⟩
          rw [accessed] at accessedAgain
          cases accessedAgain
          exact ih rest more restAgain

/-- The last three accesses of a growth, and the link to the new block. -/
theorem finishes_growSize {total base last : ℕ}
    (wrote : writeHeader heap base ((total + 2 ^ 64 - sizeofBlockHeader) % 2 ^ 64) 0 0 =
      some middle)
    (linked : middle.store (blockNextField last)
      (((base + sizeofBlockHeader) % 2 ^ 64 + 2 ^ 64 - sizeofBlockHeader) % 2 ^ 64) = some final) :
    heap.Finishes (growSize total (some last) base) final
      (some ((base + sizeofBlockHeader) % 2 ^ 64)) := by
  simp only [writeHeader, Option.bind_eq_bind, Option.bind_eq_some_iff] at wrote
  rcases wrote with ⟨first, storedSize, second, storedFree, storedNext⟩
  have size : heap.access (growSize total (some last) base) =
      some (first, growFree (some last) base) := by
    rw [access, storedSize]
    rfl
  have free : first.access (growFree (some last) base) =
      some (second, growNext (some last) base) := by
    rw [access, storedFree]
    rfl
  have next : second.access (growNext (some last) base) =
      some (middle, growLink (some last) base) := by
    rw [access, storedNext]
    rfl
  have link : middle.access (growLink (some last) base) =
      some (final, .returned (some ((base + sizeofBlockHeader) % 2 ^ 64))) := by
    simp only [access, Option.bind_eq_bind, Option.bind_some, linked]
    rfl
  exact .step size (.step free (.step next (.step link (.returned _ _))))

/-- The loop over the pages. -/
theorem finishes_growPages {total base last address count : ℕ} {mapped : Bool}
    (maps : mapPages heap address count frames = (mapped, middle)) :
    (mapped = false →
      heap.Finishes (growPages total (some last) base address count frames) middle none) ∧
      (mapped = true → middle.Finishes (growCurrent total (some last) base) final pointer →
        heap.Finishes (growPages total (some last) base address count frames) final pointer) := by
  induction frames generalizing heap address count with
  | nil =>
      unfold mapPages at maps
      cases maps
      by_cases finished : count = 0
      · simp [growPages, finished]
      · simp only [finished, growPages, if_false, decide_false, Bool.false_eq_true, false_implies,
          and_true, true_implies]
        exact .step rfl (.returned _ none)
  | cons frame frames ih =>
      unfold mapPages at maps
      by_cases finished : count = 0
      · rw [if_pos finished] at maps
        cases maps
        simp [growPages, finished]
      · rw [if_neg finished] at maps
        rw [growPages, if_neg finished]
        have step : heap.access (growPage total (some last) base address count (frame :: frames)) =
            some (heap.map address frame, growPages total (some last) base
              ((address + pageSizeVmm) % 2 ^ 64) (count - 1) frames) := rfl
        exact ⟨fun failed => .step step ((ih maps).1 failed),
          fun whole finishes => .step step ((ih maps).2 whole finishes)⟩

theorem finishes_growHeap {last : ℕ}
    (grew : growHeap heap (some last) size frames = some (pointer, final)) :
    heap.Finishes (grow size frames (some last)) final pointer := by
  simp only [growHeap, requestMoreMemory, Option.bind_eq_bind, Option.bind_eq_some_iff] at grew
  rcases grew with ⟨⟨requested, grown⟩, request, linked⟩
  unfold grow
  split at request
  case isTrue large =>
    cases request
    cases linked
    rw [if_pos large]
    exact .returned _ none
  case isFalse small =>
    rw [if_neg small]
    refine .step (show heap.access (growBase (totalSize size) (some last) frames) =
      some (heap, _) from rfl) ?_
    cases maps : mapPages heap heap.heapCurrent (totalSize size / pageSizeVmm) frames with
    | mk whole mapped =>
        rw [maps] at request
        cases whole with
        | false =>
            cases request
            cases linked
            exact (@finishes_growPages heap _ final none frames _ _ _ _ _ _ maps).1 rfl
        | true =>
            simp only [Option.bind_eq_some_iff] at request
            rcases request with ⟨wrote, header, done⟩
            cases done
            simp only [Option.bind_eq_some_iff] at linked
            rcases linked with ⟨joined, stored, done⟩
            cases done
            exact (finishes_growPages maps).2 rfl (.step rfl (finishes_growSize header stored))

theorem finishes_takeBlock {block : ℕ} (took : takeBlock heap block size = some (pointer, final)) :
    heap.Finishes (splitSize size block) final pointer := by
  simp only [takeBlock, Option.bind_eq_bind, Option.bind_eq_some_iff] at took
  rcases took with ⟨split, splits, taken, stored, done⟩
  cases done
  have take : split.access (takeFree block) =
      some (final, .returned (some (block + sizeofBlockHeader))) := by
    rw [access, stored]
    rfl
  have takes := Finishes.step take (.returned _ _)
  simp only [splitBlock, Option.bind_eq_bind, Option.bind_eq_some_iff] at splits
  rcases splits with ⟨blockSize, loaded, splits⟩
  refine .step (show heap.access (splitSize size block) = some (heap,
    if blockSize ≤ (size + sizeofBlockHeader) % 2 ^ 64 then takeFree block
    else newSize size block blockSize) by rw [access, loaded]; rfl) ?_
  split at splits
  case isTrue whole =>
    cases splits
    rw [if_pos whole]
    exact takes
  case isFalse room =>
    rw [if_neg room]
    simp only [Option.bind_eq_some_iff] at splits
    rcases splits with ⟨first, storedSize, second, storedFree, next, loadedNext, third, storedNext,
      fourth, storedCut, storedLink⟩
    refine .step (show heap.access (newSize size block blockSize) =
      some (first, newFree size block) by
      rw [access, newBlock, storedSize]; rfl) ?_
    refine .step (show first.access (newFree size block) = some (second, splitNext size block) by
      rw [access, newBlock, storedFree]; rfl) ?_
    refine .step (show second.access (splitNext size block) =
      some (second, newNext size block next) by
      rw [access, loadedNext]; rfl) ?_
    refine .step (show second.access (newNext size block next) = some (third, cutSize size block) by
      rw [access, newBlock, storedNext]; rfl) ?_
    refine .step (show third.access (cutSize size block) = some (fourth, cutNext size block) by
      rw [access, storedCut]; rfl) ?_
    refine .step (show fourth.access (cutNext size block) = some (split, takeFree block) by
      rw [access, newBlock, storedLink]; rfl) ?_
    exact takes

/-- The search ends where `findBlock` does. -/
theorem finishes_findBlock {answer : Bool × ℕ}
    (finds : findBlock heap size fuel current = some answer)
    (finishes : heap.Finishes (if answer.1 then splitSize size answer.2
      else grow size frames (some answer.2)) final pointer) :
    heap.Finishes (searchFree size frames current) final pointer := by
  induction fuel generalizing current with
  | zero => cases finds
  | succ fuel ih =>
      simp only [findBlock, Option.bind_eq_bind, Option.bind_eq_some_iff] at finds
      rcases finds with ⟨free, loadedFree, blockSize, loadedSize, finds⟩
      have searchFree : heap.access (.searchFree size frames current) = some (heap,
          if free ≠ 0 then searchSize size frames current else searchNext size frames current) := by
        rw [access, loadedFree]
        rfl
      have searchSize : heap.access (.searchSize size frames current) = some (heap,
          if size ≤ blockSize then splitSize size current else searchNext size frames current) := by
        rw [access, loadedSize]
        rfl
      have goesOn : ¬ (free ≠ 0 ∧ size ≤ blockSize) →
          heap.Finishes (searchNext size frames current) final pointer →
          heap.Finishes (.searchFree size frames current) final pointer := by
        intro unfit finishes
        refine .step searchFree ?_
        by_cases isFree : free ≠ 0
        · rw [if_pos isFree]
          refine .step searchSize ?_
          rw [if_neg (fun large => unfit ⟨isFree, large⟩)]
          exact finishes
        · rw [if_neg isFree]
          exact finishes
      split at finds
      case isTrue fits =>
        cases finds
        refine .step searchFree ?_
        rw [if_pos fits.1]
        refine .step searchSize ?_
        rw [if_pos fits.2]
        exact finishes
      case isFalse unfit =>
        simp only [Option.bind_eq_some_iff] at finds
        rcases finds with ⟨next, loadedNext, finds⟩
        apply goesOn unfit
        cases next with
        | none =>
            cases finds
            exact .step (show heap.access (searchNext size frames current) =
              some (heap, grow size frames (some current)) by rw [access, loadedNext]; rfl) finishes
        | some next =>
            exact .step (show heap.access (searchNext size frames current) =
              some (heap, .searchFree size frames next) by rw [access, loadedNext]; rfl) (ih finds)

/-- The merging ends where `mergeBlocks` does. -/
theorem finishes_mergeBlocks {current : Option ℕ}
    (merges : mergeBlocks heap fuel current = some final) :
    heap.Finishes (merge current) final none := by
  induction fuel generalizing heap current with
  | zero => cases merges
  | succ fuel ih =>
      cases current with
      | none =>
          cases merges
          exact .returned _ none
      | some current =>
          simp only [mergeBlocks, Option.bind_eq_bind, Option.bind_eq_some_iff] at merges
          rcases merges with ⟨free, loadedFree, next, loadedNext, merges⟩
          refine .step (show heap.access (mergeFree current) =
            some (heap, mergeNext current free) by
            rw [access, loadedFree]; rfl) ?_
          cases next with
          | none =>
              exact .step (show heap.access (mergeNext current free) = some (heap, merge none) by
                rw [access, loadedNext]; rfl) (ih merges)
          | some next =>
              refine .step (show heap.access (mergeNext current free) = some (heap,
                if free = 0 then mergeFree next else mergeNextFree current next) by
                  rw [access, loadedNext]; rfl) ?_
              simp only at merges
              split at merges
              case isTrue used =>
                rw [if_pos used]
                exact ih merges
              case isFalse isFree =>
                rw [if_neg isFree]
                simp only [Option.bind_eq_some_iff] at merges
                rcases merges with ⟨nextFree, loadedNextFree, merges⟩
                refine .step (show heap.access (mergeNextFree current next) = some (heap,
                  if nextFree = 0 then mergeFree next else absorbSize current next) by
                    rw [access, loadedNextFree]; rfl) ?_
                split at merges
                case isTrue nextUsed =>
                  rw [if_pos nextUsed]
                  exact ih merges
                case isFalse nextIsFree =>
                  rw [if_neg nextIsFree]
                  simp only [absorbNext, Option.bind_eq_bind, Option.bind_eq_some_iff] at merges
                  rcases merges with ⟨merged, ⟨size, loadedSize, nextSize, loadedNextSize, grown,
                    storedSize, link, loadedLink, storedLink⟩, merges⟩
                  refine .step (show heap.access (absorbSize current next) =
                    some (heap, absorbNextSize current next size) by rw [access, loadedSize]; rfl)
                      ?_
                  refine .step (show heap.access (absorbNextSize current next size) = some (heap,
                    absorbStore current next ((size + (sizeofBlockHeader + nextSize)) % 2 ^ 64)) by
                      rw [access, loadedNextSize]; rfl) ?_
                  refine .step (show heap.access (absorbStore current next
                    ((size + (sizeofBlockHeader + nextSize)) % 2 ^ 64)) =
                      some (grown, absorbLink current next) by rw [access, storedSize]; rfl) ?_
                  refine .step (show grown.access (absorbLink current next) =
                    some (grown, absorbStoreLink current link) by rw [access, loadedLink]; rfl) ?_
                  refine .step (show grown.access (absorbStoreLink current link) =
                    some (merged, mergeFree current) by rw [access, storedLink]; rfl) ?_
                  exact ih merges

/-- Without an interrupt the accesses of `kmalloc` do what `kmalloc` does. -/
theorem finishes_kmalloc {first : ℕ} (freeList : heap.freeList = some first)
    (allocates : kmalloc fuel heap size frames = some (pointer, final)) :
    heap.Finishes (kmallocPoint size frames) final pointer := by
  unfold kmalloc kheapAlloc at allocates
  unfold kmallocPoint
  split at allocates
  case isTrue zero =>
    cases allocates
    rw [if_pos zero]
    exact .returned _ none
  case isFalse nonzero =>
    rw [if_neg nonzero]
    rw [freeList] at allocates
    simp only [Option.bind_eq_bind, Option.bind_eq_some_iff] at allocates
    rcases allocates with ⟨⟨found, block⟩, finds, allocates⟩
    refine .step (show heap.access (allocFirst (roundedSize size) frames) =
      some (heap, searchFree (roundedSize size) frames first) by rw [access, freeList]) ?_
    apply finishes_findBlock finds
    cases found with
    | true => exact finishes_takeBlock allocates
    | false => exact finishes_growHeap allocates

/-- Without an interrupt the accesses of `kfree` do what `kfree` does. -/
theorem finishes_kfree (frees : kfree fuel heap pointer = some final) :
    heap.Finishes (kfreePoint pointer) final none := by
  cases pointer with
  | none =>
      cases frees
      exact .returned _ none
  | some pointer =>
      simp only [kfree, kheapFree, Option.bind_eq_bind, Option.bind_eq_some_iff] at frees
      rcases frees with ⟨marked, stored, merges⟩
      refine .step (show heap.access (markFree ((pointer + 2 ^ 64 - sizeofBlockHeader) % 2 ^ 64)) =
        some (marked, mergeFirst) by rw [access, stored]; rfl) ?_
      exact .step (show marked.access mergeFirst = some (marked, merge marked.freeList) from rfl)
        (finishes_mergeBlocks merges)

end Kheap

end Goshkik

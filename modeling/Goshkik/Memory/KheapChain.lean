import Mathlib.Tactic.SplitIfs
import Goshkik.Memory.Kheap

/-!
# Chains of heap blocks

`HeapBlock` is a block as the heap's users see it: a payload size and whether the
block is free.  `Chain` says that the headers in memory describe a list of such
blocks, one directly behind the other: it is both the linking and the tiling of
the heap.  The heap is read through `Kheap.view`, the memory behind its own
mappings, and as long as different pages have different frames a store changes
one cell of that view.
-/

namespace Goshkik

/-- A block of the heap. -/
structure HeapBlock where
  size : ℕ
  free : Bool
deriving DecidableEq, Repr

/-- The number of bytes that a list of blocks takes up. -/
def span : List HeapBlock → ℕ
  | [] => 0
  | block :: blocks => sizeofBlockHeader + block.size + span blocks

/-- The headers from `head` on describe the listed blocks, the first of them at
`address`, and the link of the last one is `stop`. -/
def Chain (cells : Cells) : Option ℕ → ℕ → List HeapBlock → Option ℕ → Prop
  | head, _, [], stop => head = stop
  | head, address, block :: blocks, stop =>
      head = some address ∧ cells (blockSizeField address) = block.size ∧
        cells (blockFreeField address) = block.free.toNat ∧
        Chain cells (cells.pointerAt (blockNextField address))
          (address + sizeofBlockHeader + block.size) blocks stop

/-- The payloads of the blocks in use: address and size. -/
def usedBlocks : ℕ → List HeapBlock → List (ℕ × ℕ)
  | _, [] => []
  | address, block :: blocks =>
      if block.free then usedBlocks (address + sizeofBlockHeader + block.size) blocks
      else (address + sizeofBlockHeader, block.size) ::
        usedBlocks (address + sizeofBlockHeader + block.size) blocks

theorem span_append (blocks rest : List HeapBlock) :
    span (blocks ++ rest) = span blocks + span rest := by
  induction blocks with
  | nil => simp [span]
  | cons block blocks ih => simp [span, ih, Nat.add_assoc]

/-- A block lies inside the range of its list. -/
theorem span_block_le (before behind : List HeapBlock) (block : HeapBlock) :
    span before + sizeofBlockHeader + block.size ≤ span (before ++ block :: behind) := by
  simp only [span_append, span]
  omega

theorem usedBlocks_append (address : ℕ) (blocks rest : List HeapBlock) :
    usedBlocks address (blocks ++ rest) =
      usedBlocks address blocks ++ usedBlocks (address + span blocks) rest := by
  induction blocks generalizing address with
  | nil => simp [usedBlocks, span]
  | cons block blocks ih =>
      simp only [List.cons_append, usedBlocks, ih, span, Nat.add_assoc]
      split <;> simp

/-- A block in use lies inside the range of its list. -/
theorem usedBlocks_bounds {address : ℕ} {blocks : List HeapBlock} {payload size : ℕ}
    (mem : (payload, size) ∈ usedBlocks address blocks) :
    address + sizeofBlockHeader ≤ payload ∧ payload + size ≤ address + span blocks := by
  induction blocks generalizing address with
  | nil => simp [usedBlocks] at mem
  | cons block blocks ih =>
      simp only [usedBlocks] at mem
      simp only [span]
      split at mem
      · have := ih mem
        omega
      · rcases List.mem_cons.mp mem with same | mem
        · simp only [Prod.mk.injEq] at same
          omega
        · have := ih mem
          omega

/-- The payloads in use are pairwise disjoint. -/
theorem usedBlocks_disjoint {address : ℕ} {blocks : List HeapBlock} :
    (usedBlocks address blocks).Pairwise (fun first second => first.1 + first.2 ≤ second.1) := by
  induction blocks generalizing address with
  | nil => simp [usedBlocks]
  | cons block blocks ih =>
      simp only [usedBlocks]
      split
      · exact ih
      · simp only [List.pairwise_cons]
        refine ⟨?_, ih⟩
        rintro ⟨payload, size⟩ mem
        have := (usedBlocks_bounds mem).1
        simp only
        omega

/-- The used blocks of a list are those of its members. -/
theorem mem_usedBlocks {address : ℕ} {blocks : List HeapBlock} {payload size : ℕ}
    (mem : (payload, size) ∈ usedBlocks address blocks) :
    ∃ before behind, blocks = before ++ ⟨size, false⟩ :: behind ∧
      payload = address + span before + sizeofBlockHeader := by
  induction blocks generalizing address with
  | nil => simp [usedBlocks] at mem
  | cons block blocks ih =>
      simp only [usedBlocks] at mem
      split at mem
      · rcases ih mem with ⟨before, behind, split, payloadEq⟩
        refine ⟨block :: before, behind, by simp [split], ?_⟩
        simp only [span]
        omega
      · rename_i used
        rcases List.mem_cons.mp mem with same | mem
        · simp only [Prod.mk.injEq] at same
          refine ⟨[], blocks, ?_, by simp [span, same.1]⟩
          cases block
          simp_all
        · rcases ih mem with ⟨before, behind, split, payloadEq⟩
          refine ⟨block :: before, behind, by simp [split], ?_⟩
          simp only [span]
          omega

namespace Chain

variable {cells cells' : Cells} {head stop : Option ℕ} {address : ℕ}
  {blocks rest : List HeapBlock} {block : HeapBlock}

theorem append_iff : Chain cells head address (blocks ++ rest) stop ↔
    ∃ middle, Chain cells head address blocks middle ∧
      Chain cells middle (address + span blocks) rest stop := by
  induction blocks generalizing head address with
  | nil => simp [Chain, span]
  | cons block blocks ih =>
      simp only [List.cons_append, Chain, ih, span, Nat.add_assoc]
      constructor
      · rintro ⟨headEq, sizeEq, freeEq, middle, front, back⟩
        exact ⟨middle, ⟨headEq, sizeEq, freeEq, front⟩, back⟩
      · rintro ⟨middle, ⟨headEq, sizeEq, freeEq, front⟩, back⟩
        exact ⟨headEq, sizeEq, freeEq, middle, front, back⟩

/-- A chain does not change when no cell of its headers does.  Payload cells may. -/
theorem congr (chain : Chain cells head address blocks stop)
    (agree : ∀ before behind block, blocks = before ++ block :: behind →
      ∀ cell, address + span before ≤ cell → cell < address + span before + sizeofBlockHeader →
        cells' cell = cells cell) : Chain cells' head address blocks stop := by
  induction blocks generalizing head address with
  | nil => exact chain
  | cons block blocks ih =>
      rcases chain with ⟨headEq, sizeEq, freeEq, tail⟩
      have header : ∀ cell, address ≤ cell → cell < address + sizeofBlockHeader →
          cells' cell = cells cell := by
        intro cell lower upper
        exact agree [] blocks block rfl cell (by simpa [span] using lower)
          (by simpa [span] using upper)
      refine ⟨headEq, ?_, ?_, ?_⟩
      · exact (header _ (by simp [blockSizeField])
          (by simp [blockSizeField, sizeofBlockHeader])).trans
          sizeEq
      · exact (header _ (by simp [blockFreeField])
          (by simp [blockFreeField, sizeofBlockHeader])).trans
          freeEq
      · have link : cells'.pointerAt (blockNextField address) =
            cells.pointerAt (blockNextField address) :=
          Cells.pointerAt_congr (header _ (by simp [blockNextField])
            (by simp [blockNextField, sizeofBlockHeader]))
        simp only [link]
        apply ih tail
        intro before behind other split cell lower upper
        apply agree (block :: before) behind other (by simp [split])
        · simp only [span]
          omega
        · simp only [span]
          omega

/-- A chain only depends on the cells of its range. -/
theorem congr_range (chain : Chain cells head address blocks stop)
    (agree : ∀ cell, address ≤ cell → cell < address + span blocks → cells' cell = cells cell) :
    Chain cells' head address blocks stop := by
  apply chain.congr
  rintro before behind block rfl cell lower upper
  apply agree cell (by omega)
  simp only [span_append, span]
  omega

/-- Replacing some consecutive blocks by others that take up the same bytes. -/
theorem replace (before old new behind : List HeapBlock)
    (chain : Chain cells head address (before ++ (old ++ behind)) stop) (nonempty : old ≠ [])
    (sameSpan : span new = span old)
    (agree : ∀ cell, cell < address + span before ∨ address + span before + span old ≤ cell →
      cells' cell = cells cell)
    (middle : ∀ out, Chain cells (some (address + span before)) (address + span before) old out →
      Chain cells' (some (address + span before)) (address + span before) new out) :
    Chain cells' head address (before ++ (new ++ behind)) stop := by
  simp only [append_iff] at chain ⊢
  rcases chain with ⟨first, front, out, replaced, back⟩
  have firstEq : first = some (address + span before) := by
    cases old with
    | nil => exact absurd rfl nonempty
    | cons block old => exact replaced.1
  subst firstEq
  refine ⟨_, front.congr_range ?_, out, middle out replaced, ?_⟩
  · intro cell _ upper
    exact agree cell (by omega)
  · simp only [sameSpan]
    apply back.congr_range
    intro cell lower _
    exact agree cell (by omega)

end Chain

/-! ## The view of the heap -/

namespace Kheap

/-- The heap's own view of memory. -/
def view (heap : Kheap) : Cells :=
  fun address => ((heap.physical address).map heap.memory).getD 0

/-- Different pages have different frames. -/
structure Separate (heap : Kheap) : Prop where
  aligned : ∀ page frame, heap.pages page = some frame → pageSizeVmm ∣ frame
  injective : ∀ page other frame, heap.pages page = some frame → heap.pages other = some frame →
    page = other

/-- Every address of a range is mapped. -/
def Mapped (heap : Kheap) (start stop : ℕ) : Prop :=
  ∀ address, start ≤ address → address < stop → (heap.pages (pageOf address)).isSome

variable {heap : Kheap} {address word : ℕ}

theorem load_eq (mapped : (heap.pages (pageOf address)).isSome) :
    heap.load address = some (heap.view address) := by
  rcases Option.isSome_iff_exists.mp mapped with ⟨frame, frameEq⟩
  simp [load, view, physical, frameEq]

theorem loadPointer_eq (mapped : (heap.pages (pageOf address)).isSome) :
    heap.loadPointer address = some (heap.view.pointerAt address) := by
  simp [loadPointer, load_eq mapped, Cells.pointerAt]

/-- A store changes one cell of the view. -/
theorem store_eq (separate : heap.Separate) (mapped : (heap.pages (pageOf address)).isSome)
    (word : ℕ) : ∃ after, heap.store address word = some after ∧
      after.view = heap.view.store address word ∧ after.pages = heap.pages ∧
      after.heapCurrent = heap.heapCurrent ∧ after.freeList = heap.freeList := by
  rcases Option.isSome_iff_exists.mp mapped with ⟨frame, frameEq⟩
  refine ⟨{ heap with memory := heap.memory.store (frame + address % pageSizeVmm) word },
    by simp [store, physical, frameEq], ?_, rfl, rfl, rfl⟩
  funext other
  by_cases same : other = address
  · subst same
    simp [view, physical, frameEq]
  · simp only [Cells.store_of_ne same]
    cases otherEq : heap.pages (pageOf other) with
    | none => simp [view, physical, otherEq]
    | some otherFrame =>
        have different : otherFrame + other % pageSizeVmm ≠ frame + address % pageSizeVmm := by
          intro sameCell
          rcases separate.aligned _ _ frameEq with ⟨number, frameNumber⟩
          rcases separate.aligned _ _ otherEq with ⟨otherNumber, otherFrameNumber⟩
          have sameFrame : otherFrame = frame := by
            simp only [pageSizeVmm] at *
            omega
          have samePage := separate.injective _ _ frame (sameFrame ▸ otherEq) frameEq
          simp only [pageOf, pageSizeVmm] at *
          omega
        simp [view, physical, otherEq, different]

/-- The chain from `free_list` describes the listed blocks, in mapped memory. -/
structure Holds (heap : Kheap) (start : ℕ) (blocks : List HeapBlock) : Prop where
  separate : heap.Separate
  mapped : heap.Mapped start (start + span blocks)
  chain : Chain heap.view heap.freeList start blocks none
  positive : 0 < start
  bounded : start + span blocks ≤ 2 ^ 64

/-- Everything but the contents of memory is the same. -/
structure SameMaps (heap after : Kheap) : Prop where
  pages : after.pages = heap.pages
  heapCurrent : after.heapCurrent = heap.heapCurrent
  freeList : after.freeList = heap.freeList

theorem SameMaps.refl (heap : Kheap) : heap.SameMaps heap := ⟨rfl, rfl, rfl⟩

theorem SameMaps.trans {first second third : Kheap} (left : first.SameMaps second)
    (right : second.SameMaps third) : first.SameMaps third :=
  ⟨right.pages.trans left.pages, right.heapCurrent.trans left.heapCurrent,
    right.freeList.trans left.freeList⟩

theorem SameMaps.separate {heap after : Kheap} (same : heap.SameMaps after)
    (separate : heap.Separate) : after.Separate :=
  ⟨fun page frame => same.pages ▸ separate.aligned page frame,
    fun page other frame => same.pages ▸ separate.injective page other frame⟩

/-- A store into mapped memory. -/
theorem store_spec {heap : Kheap} (separate : heap.Separate) {start stop address : ℕ}
    (mapped : heap.Mapped start stop) (lower : start ≤ address) (upper : address < stop)
    (word : ℕ) : ∃ after, heap.store address word = some after ∧
      after.view = heap.view.store address word ∧ heap.SameMaps after ∧ after.Separate ∧
        after.Mapped start stop := by
  rcases store_eq separate (mapped address lower upper) word with
    ⟨after, stored, viewEq, pages, heapCurrent, freeList⟩
  have same : heap.SameMaps after := ⟨pages, heapCurrent, freeList⟩
  refine ⟨after, stored, viewEq, same, same.separate separate, ?_⟩
  intro other otherLower otherUpper
  simpa only [pages] using mapped other otherLower otherUpper

theorem load_spec {heap : Kheap} {start stop address : ℕ} (mapped : heap.Mapped start stop)
    (lower : start ≤ address) (upper : address < stop) :
    heap.load address = some (heap.view address) :=
  load_eq (mapped address lower upper)

/-- Writing the three fields of a header in mapped memory. -/
theorem writeHeader_spec {heap : Kheap} (separate : heap.Separate) {start stop block : ℕ}
    (mapped : heap.Mapped start stop) (lower : start ≤ block)
    (upper : block + sizeofBlockHeader ≤ stop) (size free next : ℕ) :
    ∃ after, writeHeader heap block size free next = some after ∧
      after.view = ((heap.view.store (blockSizeField block) size).store (blockFreeField block)
        free).store (blockNextField block) next ∧
      heap.SameMaps after ∧ after.Separate ∧ after.Mapped start stop := by
  have headerSize : sizeofBlockHeader = 24 := rfl
  rcases store_spec separate mapped
      (show start ≤ blockSizeField block by simp only [blockSizeField]; omega)
      (by simp only [blockSizeField]; omega) size with
    ⟨first, firstStored, firstView, firstSame, firstSeparate, firstMapped⟩
  rcases store_spec firstSeparate firstMapped
      (show start ≤ blockFreeField block by simp only [blockFreeField]; omega)
      (by simp only [blockFreeField]; omega) free with
    ⟨second, secondStored, secondView, secondSame, secondSeparate, secondMapped⟩
  rcases store_spec secondSeparate secondMapped
      (show start ≤ blockNextField block by simp only [blockNextField]; omega)
      (by simp only [blockNextField]; omega) next with
    ⟨after, stored, viewEq, same, afterSeparate, afterMapped⟩
  refine ⟨after, ?_, ?_, (firstSame.trans secondSame).trans same, afterSeparate, afterMapped⟩
  · simp only [writeHeader, firstStored, secondStored, stored, Option.bind_eq_bind,
      Option.bind_some]
  · simp only [viewEq, secondView, firstView]

end Kheap

/-! ## Searching -/

/-- A block that can serve a request. -/
def HeapBlock.Fits (block : HeapBlock) (size : ℕ) : Prop := block.free = true ∧ size ≤ block.size

instance (block : HeapBlock) (size : ℕ) : Decidable (block.Fits size) :=
  inferInstanceAs (Decidable (_ ∧ _))

/-- The loop of `kheap_alloc` finds the first block that fits, or the last block. -/
theorem findBlock_spec {heap : Kheap} {size stop : ℕ} (blocks : List HeapBlock) :
    ∀ current, Chain heap.view (some current) current blocks none →
      heap.Mapped current stop → current + span blocks ≤ stop → 0 < current →
      (∃ before block behind, blocks = before ++ block :: behind ∧ block.Fits size ∧
        (∀ other ∈ before, ¬ other.Fits size) ∧ ∀ fuel, before.length < fuel →
          findBlock heap size fuel current = some (true, current + span before)) ∨
      (∀ block ∈ blocks, ¬ block.Fits size) ∧ ∃ front last, blocks = front ++ [last] ∧
        ∀ fuel, front.length < fuel →
          findBlock heap size fuel current = some (false, current + span front) := by
  induction blocks with
  | nil =>
      intro current chain
      simp [Chain] at chain
  | cons block blocks ih =>
      intro current chain mapped inside positive
      rcases chain with ⟨_, sizeEq, freeEq, tail⟩
      simp only [span] at inside
      have headerSize : sizeofBlockHeader = 24 := rfl
      have loadFree : heap.load (blockFreeField current) = some block.free.toNat := by
        simp only [← freeEq]
        exact Kheap.load_spec mapped (by simp [blockFreeField])
          (by simp only [blockFreeField]; omega)
      have loadSize : heap.load (blockSizeField current) = some block.size := by
        simp only [← sizeEq]
        exact Kheap.load_spec mapped (by simp [blockSizeField])
          (by simp only [blockSizeField]; omega)
      have loadNext : heap.loadPointer (blockNextField current) =
          some (heap.view.pointerAt (blockNextField current)) :=
        Kheap.loadPointer_eq (mapped _ (by simp [blockNextField])
          (by simp only [blockNextField]; omega))
      by_cases fits : block.Fits size
      · left
        refine ⟨[], block, blocks, rfl, fits, by simp, ?_⟩
        intro fuel enough
        cases fuel with
        | zero => simp at enough
        | succ fuel => simp [findBlock, loadFree, loadSize, fits.1, fits.2, span]
      · have unfit : ¬ (block.free.toNat ≠ 0 ∧ size ≤ block.size) := by
          simpa [HeapBlock.Fits] using fits
        cases blocks with
        | nil =>
            right
            refine ⟨by simpa using fits, [], block, rfl, ?_⟩
            intro fuel enough
            cases fuel with
            | zero => simp at enough
            | succ fuel =>
                have link : heap.view.pointerAt (blockNextField current) = none := tail
                simp only [findBlock, loadFree, loadSize, loadNext, link, Option.bind_eq_bind,
                  Option.bind_some, if_neg unfit]
                simp [span]
        | cons second blocks =>
            have link : heap.view.pointerAt (blockNextField current) =
                some (current + sizeofBlockHeader + block.size) := tail.1
            have chain := tail
            simp only [link] at chain
            have step : ∀ fuel, findBlock heap size (fuel + 1) current =
                findBlock heap size fuel (current + sizeofBlockHeader + block.size) := by
              intro fuel
              simp only [findBlock, loadFree, loadSize, loadNext, link, Option.bind_eq_bind,
                Option.bind_some, if_neg unfit]
            have shorter : heap.Mapped (current + sizeofBlockHeader + block.size) stop :=
              fun address lower upper => mapped address (by omega) upper
            rcases ih _ chain shorter (by simp only [span] at inside ⊢; omega) (by omega) with
              ⟨before, found, behind, split, foundFits, skipped, finds⟩ |
              ⟨none, front, last, split, finds⟩
            · left
              refine ⟨block :: before, found, behind, by simp [split], foundFits, ?_, ?_⟩
              · intro other mem
                rcases List.mem_cons.mp mem with rfl | mem
                · exact fits
                · exact skipped other mem
              · intro fuel enough
                cases fuel with
                | zero => simp at enough
                | succ fuel =>
                    simp only [step, span]
                    rw [finds fuel (by simpa using enough)]
                    simp [Nat.add_assoc]
            · right
              refine ⟨?_, block :: front, last, by simp [split], ?_⟩
              · intro other mem
                rcases List.mem_cons.mp mem with rfl | mem
                · exact fits
                · exact none other mem
              · intro fuel enough
                cases fuel with
                | zero => simp at enough
                | succ fuel =>
                    simp only [step, span]
                    rw [finds fuel (by simpa using enough)]
                    simp [Nat.add_assoc]

/-- The search does not depend on the fuel it ends with. -/
theorem findBlock_mono {heap : Kheap} {size fuel more current : ℕ} {answer : Bool × ℕ}
    (returns : findBlock heap size fuel current = some answer) (enough : fuel ≤ more) :
    findBlock heap size more current = some answer := by
  induction fuel generalizing current more with
  | zero => simp [findBlock] at returns
  | succ fuel ih =>
      obtain ⟨more, rfl⟩ : ∃ smaller, more = smaller + 1 := ⟨more - 1, by omega⟩
      simp only [findBlock, Option.bind_eq_bind, Option.bind_eq_some_iff] at returns ⊢
      rcases returns with ⟨free, freeEq, blockSize, sizeEq, returns⟩
      refine ⟨free, freeEq, blockSize, sizeEq, ?_⟩
      split_ifs at returns ⊢
      · exact returns
      · simp only [Option.bind_eq_some_iff] at returns ⊢
        rcases returns with ⟨next, nextEq, returns⟩
        refine ⟨next, nextEq, ?_⟩
        cases next with
        | none => exact returns
        | some next => exact ih returns (by omega)

/-! ## Allocating from a block -/

/-- What a free block becomes when it serves a request. -/
def HeapBlock.allocated (block : HeapBlock) (size : ℕ) : List HeapBlock :=
  if block.size ≤ size + sizeofBlockHeader then [⟨block.size, false⟩]
  else [⟨size, false⟩, ⟨block.size - size - sizeofBlockHeader, true⟩]

theorem HeapBlock.span_allocated (block : HeapBlock) (size : ℕ) :
    span (block.allocated size) = span [block] := by
  simp only [allocated]
  split
  · rfl
  · simp only [span]
    omega

namespace Kheap.Holds

variable {heap : Kheap} {start : ℕ} {before behind : List HeapBlock} {block : HeapBlock}

/-- Writing the free flag of a block. -/
theorem setFree (holds : heap.Holds start (before ++ block :: behind)) (free : Bool) :
    ∃ after, heap.store (blockFreeField (start + span before)) free.toNat = some after ∧
      after.Holds start (before ++ ⟨block.size, free⟩ :: behind) ∧ heap.SameMaps after := by
  have inside := span_block_le before behind block
  have headerSize : sizeofBlockHeader = 24 := rfl
  have spanEq : span (before ++ ⟨block.size, free⟩ :: behind) =
      span (before ++ block :: behind) := by
    simp only [span_append, span]
  rcases Kheap.store_spec holds.separate holds.mapped
      (show start ≤ blockFreeField (start + span before) by simp only [blockFreeField]; omega)
      (by simp only [blockFreeField]; omega) free.toNat with
    ⟨after, stored, viewEq, same, separate, mapped⟩
  refine ⟨after, stored, ⟨separate, spanEq ▸ mapped, ?_, holds.positive, spanEq ▸ holds.bounded⟩,
    same⟩
  simp only [same.freeList, viewEq]
  refine Chain.replace before [block] [⟨block.size, free⟩] behind holds.chain (by simp) rfl ?_ ?_
  · intro cell outside
    apply Cells.store_of_ne
    simp only [span, blockFreeField] at outside ⊢
    omega
  · rintro out ⟨_, sizeEq, _, linkEq⟩
    refine ⟨rfl, ?_, by simp, ?_⟩
    · simpa [blockSizeField, blockFreeField] using sizeEq
    · have link : (heap.view.store (blockFreeField (start + span before)) free.toNat).pointerAt
          (blockNextField (start + span before)) =
            heap.view.pointerAt (blockNextField (start + span before)) :=
        Cells.pointerAt_congr (Cells.store_of_ne (by simp [blockNextField, blockFreeField]))
      simpa only [Chain, link] using linkEq

/-- `split_block` cuts a request off a block that has room for another header. -/
theorem splitBlock_spec (holds : heap.Holds start (before ++ block :: behind)) {size : ℕ}
    (room : size + sizeofBlockHeader < block.size) :
    ∃ after, splitBlock heap (start + span before) size = some after ∧
      after.Holds start (before ++ ⟨size, block.free⟩ ::
        ⟨block.size - size - sizeofBlockHeader, true⟩ :: behind) ∧ heap.SameMaps after := by
  have inside := span_block_le before behind block
  have bounded := holds.bounded
  have headerSize : sizeofBlockHeader = 24 := rfl
  have bothSpan : span (before ++ ⟨size, block.free⟩ ::
      ⟨block.size - size - sizeofBlockHeader, true⟩ :: behind) =
        span (before ++ block :: behind) := by
    simp only [span_append, span]
    omega
  have chain := holds.chain
  rcases Chain.append_iff.mp chain with ⟨_, _, _, sizeEq, freeEq, _⟩
  generalize hereEq : start + span before = here at *
  generalize thereEq : here + sizeofBlockHeader + size = there
  have noWrap : (size + sizeofBlockHeader) % 2 ^ 64 = size + sizeofBlockHeader :=
    Nat.mod_eq_of_lt (by omega)
  have thereNoWrap : there % 2 ^ 64 = there := Nat.mod_eq_of_lt (by omega)
  have loadSize : heap.load (blockSizeField here) = some block.size := by
    simp only [← sizeEq]
    exact Kheap.load_spec holds.mapped (by simp only [blockSizeField]; omega)
      (by simp only [blockSizeField]; omega)
  rcases Kheap.store_spec holds.separate holds.mapped
      (show start ≤ blockSizeField there by simp only [blockSizeField]; omega)
      (by simp only [blockSizeField]; omega) (block.size - size - sizeofBlockHeader) with
    ⟨first, firstStored, firstView, firstSame, firstSeparate, firstMapped⟩
  rcases Kheap.store_spec firstSeparate firstMapped
      (show start ≤ blockFreeField there by simp only [blockFreeField]; omega)
      (by simp only [blockFreeField]; omega) 1 with
    ⟨second, secondStored, secondView, secondSame, secondSeparate, secondMapped⟩
  have loadNext : second.load (blockNextField here) = some (heap.view (blockNextField here)) := by
    refine (Kheap.load_spec secondMapped (by simp only [blockNextField]; omega)
      (by simp only [blockNextField]; omega)).trans ?_
    simp only [secondView, firstView, blockNextField, blockFreeField, blockSizeField]
    simp (disch := omega) only [Cells.store_of_ne]
  rcases Kheap.store_spec secondSeparate secondMapped
      (show start ≤ blockNextField there by simp only [blockNextField]; omega)
      (by simp only [blockNextField]; omega) (heap.view (blockNextField here)) with
    ⟨third, thirdStored, thirdView, thirdSame, thirdSeparate, thirdMapped⟩
  rcases Kheap.store_spec thirdSeparate thirdMapped
      (show start ≤ blockSizeField here by simp only [blockSizeField]; omega)
      (by simp only [blockSizeField]; omega) size with
    ⟨fourth, fourthStored, fourthView, fourthSame, fourthSeparate, fourthMapped⟩
  rcases Kheap.store_spec fourthSeparate fourthMapped
      (show start ≤ blockNextField here by simp only [blockNextField]; omega)
      (by simp only [blockNextField]; omega) there with
    ⟨after, stored, viewEq, same, separate, mapped⟩
  have sameAll := (((firstSame.trans secondSame).trans thirdSame).trans fourthSame).trans same
  refine ⟨after, ?_, ⟨separate, bothSpan ▸ mapped, ?_, holds.positive, bothSpan ▸ bounded⟩, sameAll⟩
  · simp only [splitBlock, loadSize, Option.bind_eq_bind, Option.bind_some, noWrap,
      if_neg (Nat.not_le.mpr room), thereEq, thereNoWrap, firstStored, secondStored, loadNext,
      thirdStored, fourthStored, stored]
  · simp only [sameAll.freeList]
    have cells : after.view = ((((heap.view.store there
        (block.size - size - sizeofBlockHeader)).store (there + 8) 1).store (there + 16)
          (heap.view (here + 16))).store here size).store (here + 16) there := by
      simp only [viewEq, fourthView, thirdView, secondView, firstView, blockSizeField,
        blockFreeField, blockNextField]
    refine Chain.replace before [block]
      [⟨size, block.free⟩, ⟨block.size - size - sizeofBlockHeader, true⟩] behind chain (by simp)
      (by simp only [span]; omega) ?_ ?_
    · intro cell outside
      simp only [hereEq, span] at outside
      simp (disch := omega) only [cells, Cells.store_of_ne]
    · rintro out ⟨_, _, _, linkEq⟩
      simp only [hereEq] at linkEq ⊢
      have sizeHere : after.view (blockSizeField here) = size := by
        simp (disch := omega) only [cells, blockSizeField, Cells.store_of_ne, Cells.store_self]
      have freeHere : after.view (blockFreeField here) = block.free.toNat := by
        simp only [← freeEq]
        simp (disch := omega) only [cells, blockFreeField, Cells.store_of_ne]
      have nextHere : after.view (blockNextField here) = there := by
        simp only [cells, blockNextField, Cells.store_self]
      have sizeThere : after.view (blockSizeField there) =
          block.size - size - sizeofBlockHeader := by
        simp (disch := omega) only [cells, blockSizeField, Cells.store_of_ne, Cells.store_self]
      have freeThere : after.view (blockFreeField there) = 1 := by
        simp (disch := omega) only [cells, blockFreeField, Cells.store_of_ne, Cells.store_self]
      have nextThere : after.view (blockNextField there) = heap.view (blockNextField here) := by
        simp (disch := omega) only [cells, blockNextField, Cells.store_of_ne, Cells.store_self]
      have linkHere : after.view.pointerAt (blockNextField here) = some there :=
        Cells.pointerAt_eq_some_iff.mpr ⟨nextHere, by have := holds.positive; omega⟩
      have linkThere : after.view.pointerAt (blockNextField there) =
          heap.view.pointerAt (blockNextField here) := by
        simp only [Cells.pointerAt, nextThere]
      refine ⟨rfl, sizeHere, freeHere, ?_⟩
      simp only [linkHere, thereEq]
      refine ⟨rfl, sizeThere, freeThere, ?_⟩
      simpa only [Chain, linkThere] using linkEq

/-- `kheap_alloc` on a free block with room for the request. -/
theorem takeBlock_spec (holds : heap.Holds start (before ++ block :: behind)) {size : ℕ}
    (fits : size ≤ block.size) :
    ∃ after, takeBlock heap (start + span before) size =
        some (some (start + span before + sizeofBlockHeader), after) ∧
      after.Holds start (before ++ (block.allocated size ++ behind)) ∧ heap.SameMaps after := by
  have inside := span_block_le before behind block
  have bounded := holds.bounded
  have headerSize : sizeofBlockHeader = 24 := rfl
  by_cases whole : block.size ≤ size + sizeofBlockHeader
  · rcases Chain.append_iff.mp holds.chain with ⟨_, _, _, sizeEq, _, _⟩
    have loadSize : heap.load (blockSizeField (start + span before)) = some block.size := by
      simp only [← sizeEq]
      exact Kheap.load_spec holds.mapped (by simp only [blockSizeField]; omega)
        (by simp only [blockSizeField]; omega)
    have noWrap : (size + sizeofBlockHeader) % 2 ^ 64 = size + sizeofBlockHeader :=
      Nat.mod_eq_of_lt (by have := holds.positive; omega)
    have unsplit : splitBlock heap (start + span before) size = some heap := by
      simp only [splitBlock, loadSize, Option.bind_eq_bind, Option.bind_some, noWrap, if_pos whole]
      rfl
    rcases holds.setFree false with ⟨after, stored, held, same⟩
    refine ⟨after, ?_, ?_, same⟩
    · simp only [Bool.toNat_false] at stored
      simp [takeBlock, unsplit, stored]
    · simpa [HeapBlock.allocated, whole] using held
  · rcases holds.splitBlock_spec (Nat.not_le.mp whole) with ⟨halved, split, halvedHolds, halvedSame⟩
    rcases halvedHolds.setFree false with ⟨after, stored, held, same⟩
    refine ⟨after, ?_, ?_, halvedSame.trans same⟩
    · simp only [Bool.toNat_false] at stored
      simp [takeBlock, split, stored]
    · simpa [HeapBlock.allocated, whole] using held

end Kheap.Holds

/-! ## Merging free blocks -/

/-- What the merging loop leaves of a block and the blocks behind it. -/
def mergeOnto (current : HeapBlock) : List HeapBlock → List HeapBlock
  | [] => [current]
  | next :: rest =>
      if current.free ∧ next.free then
        mergeOnto ⟨current.size + (sizeofBlockHeader + next.size), true⟩ rest
      else current :: mergeOnto next rest

/-- What the merging loop leaves of a chain. -/
def mergeFree : List HeapBlock → List HeapBlock
  | [] => []
  | block :: blocks => mergeOnto block blocks

theorem span_mergeOnto (current : HeapBlock) (rest : List HeapBlock) :
    span (mergeOnto current rest) = span (current :: rest) := by
  induction rest generalizing current with
  | nil => rfl
  | cons next rest ih =>
      simp only [mergeOnto]
      split
      · simp only [ih, span]
        omega
      · simp only [span, ih]

theorem usedBlocks_mergeOnto (address : ℕ) (current : HeapBlock) (rest : List HeapBlock) :
    usedBlocks address (mergeOnto current rest) = usedBlocks address (current :: rest) := by
  induction rest generalizing current address with
  | nil => rfl
  | cons next rest ih =>
      simp only [mergeOnto]
      split
      · rename_i both
        simp only [ih, usedBlocks, both.1, both.2, if_true]
        congr 1
        omega
      · simp only [usedBlocks, ih]

namespace Kheap.Holds

variable {heap : Kheap} {start : ℕ} {before behind : List HeapBlock} {block next : HeapBlock}

/-- One merge of a free block with the free block behind it. -/
theorem absorbNext_spec (holds : heap.Holds start (before ++ block :: next :: behind)) :
    ∃ after, absorbNext heap (start + span before)
        (start + span before + sizeofBlockHeader + block.size) = some after ∧
      after.Holds start
        (before ++ ⟨block.size + (sizeofBlockHeader + next.size), block.free⟩ :: behind) ∧
      heap.SameMaps after := by
  have headerSize : sizeofBlockHeader = 24 := rfl
  have bounded := holds.bounded
  have total : span (before ++ block :: next :: behind) = span before +
      (sizeofBlockHeader + block.size) + (sizeofBlockHeader + next.size) + span behind := by
    simp only [span_append, span]
    omega
  have mergedSpan : span (before ++
      ⟨block.size + (sizeofBlockHeader + next.size), block.free⟩ :: behind) =
        span (before ++ block :: next :: behind) := by
    simp only [span_append, span]
    omega
  have chain := holds.chain
  rcases Chain.append_iff.mp chain with ⟨_, _, _, sizeEq, freeEq, _, nextSizeEq, _, _⟩
  generalize hereEq : start + span before = here at *
  generalize thereEq : here + sizeofBlockHeader + block.size = there at *
  have loadSize : heap.load (blockSizeField here) = some block.size := by
    simp only [← sizeEq]
    exact Kheap.load_spec holds.mapped (by simp only [blockSizeField]; omega)
      (by simp only [blockSizeField]; omega)
  have loadNextSize : heap.load (blockSizeField there) = some next.size := by
    simp only [← nextSizeEq]
    exact Kheap.load_spec holds.mapped (by simp only [blockSizeField]; omega)
      (by simp only [blockSizeField]; omega)
  have noWrap : (block.size + (sizeofBlockHeader + next.size)) % 2 ^ 64 =
      block.size + (sizeofBlockHeader + next.size) := Nat.mod_eq_of_lt (by omega)
  rcases Kheap.store_spec holds.separate holds.mapped
      (show start ≤ blockSizeField here by simp only [blockSizeField]; omega)
      (by simp only [blockSizeField]; omega) (block.size + (sizeofBlockHeader + next.size)) with
    ⟨first, firstStored, firstView, firstSame, firstSeparate, firstMapped⟩
  have loadNext : first.load (blockNextField there) = some (heap.view (blockNextField there)) := by
    refine (Kheap.load_spec firstMapped (by simp only [blockNextField]; omega)
      (by simp only [blockNextField]; omega)).trans ?_
    simp only [firstView, blockNextField, blockSizeField]
    simp (disch := omega) only [Cells.store_of_ne]
  rcases Kheap.store_spec firstSeparate firstMapped
      (show start ≤ blockNextField here by simp only [blockNextField]; omega)
      (by simp only [blockNextField]; omega) (heap.view (blockNextField there)) with
    ⟨after, stored, viewEq, same, separate, mapped⟩
  have cells : after.view = (heap.view.store here
      (block.size + (sizeofBlockHeader + next.size))).store (here + 16)
        (heap.view (there + 16)) := by
    simp only [viewEq, firstView, blockSizeField, blockNextField]
  have sameAll := firstSame.trans same
  refine ⟨after, ?_, ⟨separate, mergedSpan ▸ mapped, ?_, holds.positive, mergedSpan ▸ bounded⟩,
    sameAll⟩
  · simp only [absorbNext, loadSize, loadNextSize, Option.bind_eq_bind, Option.bind_some, noWrap,
      firstStored, loadNext, stored]
  · simp only [sameAll.freeList]
    refine Chain.replace before [block, next]
      [⟨block.size + (sizeofBlockHeader + next.size), block.free⟩] behind chain (by simp)
      (by simp only [span]; omega) ?_ ?_
    · intro cell outside
      simp only [hereEq, span] at outside
      simp (disch := omega) only [cells, Cells.store_of_ne]
    · rintro out ⟨_, _, _, linked⟩
      simp only [hereEq] at linked ⊢
      have linkThere : heap.view.pointerAt (blockNextField there) = out := by
        simpa only [Chain, thereEq] using linked.2.2.2
      refine ⟨rfl, ?_, ?_, ?_⟩
      · simp (disch := omega) only [cells, blockSizeField, Cells.store_of_ne, Cells.store_self]
      · simp only [← freeEq]
        simp (disch := omega) only [cells, blockFreeField, Cells.store_of_ne]
      · have nextHere : after.view (blockNextField here) = heap.view (blockNextField there) := by
          simp only [cells, blockNextField, Cells.store_self]
        have link : after.view.pointerAt (blockNextField here) =
            heap.view.pointerAt (blockNextField there) := by
          simp only [Cells.pointerAt, nextHere]
        simpa only [Chain, link] using linkThere

/-- The merging loop from a block on. -/
theorem mergeBlocks_spec (behind : List HeapBlock) :
    ∀ (heap : Kheap) (before : List HeapBlock) (block : HeapBlock),
      heap.Holds start (before ++ block :: behind) →
      ∃ after, (∀ fuel, behind.length + 1 < fuel →
          mergeBlocks heap fuel (some (start + span before)) = some after) ∧
        after.Holds start (before ++ mergeOnto block behind) ∧ heap.SameMaps after := by
  induction behind with
  | nil =>
      intro heap before block holds
      have inside := span_block_le before [] block
      have headerSize : sizeofBlockHeader = 24 := rfl
      rcases Chain.append_iff.mp holds.chain with ⟨_, _, _, _, freeEq, link⟩
      have loadFree : heap.load (blockFreeField (start + span before)) = some block.free.toNat := by
        simp only [← freeEq]
        exact Kheap.load_spec holds.mapped (by simp only [blockFreeField]; omega)
          (by simp only [blockFreeField]; omega)
      have loadNext : heap.loadPointer (blockNextField (start + span before)) = some none :=
        (Kheap.loadPointer_eq (holds.mapped _ (by simp only [blockNextField]; omega)
          (by simp only [blockNextField]; omega))).trans (congrArg some link)
      refine ⟨heap, ?_, holds, .refl heap⟩
      intro fuel enough
      obtain ⟨fuel, rfl⟩ : ∃ smaller, fuel = smaller + 2 := ⟨fuel - 2, by simp at enough; omega⟩
      simp [mergeBlocks, loadFree, loadNext]
  | cons next behind ih =>
      intro heap before block holds
      have inside := span_block_le before (next :: behind) block
      have nextInside := span_block_le (before ++ [block]) behind next
      simp only [List.append_assoc, List.singleton_append, span_append, span] at nextInside
      have headerSize : sizeofBlockHeader = 24 := rfl
      rcases Chain.append_iff.mp holds.chain with ⟨_, _, _, _, freeEq, link, _, nextFreeEq, _⟩
      have loadFree : heap.load (blockFreeField (start + span before)) = some block.free.toNat := by
        simp only [← freeEq]
        exact Kheap.load_spec holds.mapped (by simp only [blockFreeField]; omega)
          (by simp only [blockFreeField]; omega)
      have loadNext : heap.loadPointer (blockNextField (start + span before)) =
          some (some (start + span before + sizeofBlockHeader + block.size)) :=
        (Kheap.loadPointer_eq (holds.mapped _ (by simp only [blockNextField]; omega)
          (by simp only [blockNextField]; omega))).trans (congrArg some link)
      have loadNextFree : heap.load (blockFreeField
          (start + span before + sizeofBlockHeader + block.size)) = some next.free.toNat := by
        simp only [← nextFreeEq]
        refine Kheap.load_spec holds.mapped (by simp only [blockFreeField]; omega) ?_
        simp only [blockFreeField, span_append, span]
        omega
      by_cases both : block.free = true ∧ next.free = true
      · rcases holds.absorbNext_spec with ⟨merged, absorbed, mergedHolds, mergedSame⟩
        simp only [both.1] at mergedHolds
        rcases ih merged before _ mergedHolds with ⟨after, merges, held, same⟩
        refine ⟨after, ?_, by simpa [mergeOnto, both] using held, mergedSame.trans same⟩
        intro fuel enough
        obtain ⟨fuel, rfl⟩ : ∃ smaller, fuel = smaller + 1 := ⟨fuel - 1, by omega⟩
        have rest := merges fuel (by simpa using enough)
        simp [mergeBlocks, loadFree, loadNext, loadNextFree, both, absorbed, rest]
      · have shifted : heap.Holds start ((before ++ [block]) ++ next :: behind) := by
          simpa using holds
        have here : start + span (before ++ [block]) =
            start + span before + sizeofBlockHeader + block.size := by
          simp only [span_append, span]
          omega
        rcases ih heap (before ++ [block]) next shifted with ⟨after, merges, held, same⟩
        refine ⟨after, ?_, by simpa [mergeOnto, both] using held, same⟩
        intro fuel enough
        obtain ⟨fuel, rfl⟩ : ∃ smaller, fuel = smaller + 1 := ⟨fuel - 1, by omega⟩
        have rest := merges fuel (by simpa using enough)
        simp only [here] at rest
        by_cases used : block.free = true
        · have nextUsed : next.free = false := by simpa [used] using both
          simp [mergeBlocks, loadFree, loadNext, loadNextFree, used, nextUsed, rest]
        · simp [mergeBlocks, loadFree, loadNext, used, rest]

end Kheap.Holds

theorem mergeBlocks_mono {heap after : Kheap} {fuel more : ℕ} {current : Option ℕ}
    (returns : mergeBlocks heap fuel current = some after) (enough : fuel ≤ more) :
    mergeBlocks heap more current = some after := by
  induction fuel generalizing heap current more with
  | zero => simp [mergeBlocks] at returns
  | succ fuel ih =>
      obtain ⟨more, rfl⟩ : ∃ smaller, more = smaller + 1 := ⟨more - 1, by omega⟩
      cases current with
      | none => simpa [mergeBlocks] using returns
      | some current =>
          simp only [mergeBlocks, Option.bind_eq_bind, Option.bind_eq_some_iff] at returns ⊢
          rcases returns with ⟨free, freeEq, next, nextEq, returns⟩
          refine ⟨free, freeEq, next, nextEq, ?_⟩
          cases next with
          | none => exact ih returns (by omega)
          | some next =>
              simp only at returns ⊢
              split_ifs at returns ⊢
              · exact ih returns (by omega)
              · simp only [Option.bind_eq_some_iff] at returns ⊢
                rcases returns with ⟨nextFree, nextFreeEq, returns⟩
                refine ⟨nextFree, nextFreeEq, ?_⟩
                split_ifs at returns ⊢
                · exact ih returns (by omega)
                · simp only [Option.bind_eq_some_iff] at returns ⊢
                  rcases returns with ⟨merged, mergedEq, returns⟩
                  exact ⟨merged, mergedEq, ih returns (by omega)⟩

namespace Kheap.Holds

variable {heap : Kheap} {start : ℕ} {blocks before behind : List HeapBlock} {block : HeapBlock}

/-- `kheap_free` marks a block free and merges the whole chain. -/
theorem kheapFree_spec (holds : heap.Holds start (before ++ block :: behind)) :
    ∃ after, (∀ fuel, before.length + behind.length + 1 < fuel →
        kheapFree fuel heap (some (start + span before + sizeofBlockHeader)) = some after) ∧
      after.Holds start (mergeFree (before ++ ⟨block.size, true⟩ :: behind)) ∧
      heap.SameMaps after := by
  have inside := span_block_le before behind block
  have bounded := holds.bounded
  have headerSize : sizeofBlockHeader = 24 := rfl
  have header : (start + span before + sizeofBlockHeader + 2 ^ 64 - sizeofBlockHeader) % 2 ^ 64 =
      start + span before := by omega
  rcases holds.setFree true with ⟨freed, stored, freedHolds, freedSame⟩
  simp only [Bool.toNat_true] at stored
  have first : freed.freeList = some start := by
    have chain := freedHolds.chain
    cases before with
    | nil => exact chain.1
    | cons head before => exact chain.1
  obtain ⟨head, rest, split, restLength⟩ : ∃ head rest,
      before ++ ⟨block.size, true⟩ :: behind = head :: rest ∧
        rest.length = before.length + behind.length := by
    cases before with
    | nil => exact ⟨_, _, rfl, by simp⟩
    | cons head before => exact ⟨head, before ++ ⟨block.size, true⟩ :: behind, rfl, by simp; omega⟩
  simp only [split] at freedHolds ⊢
  rcases mergeBlocks_spec rest freed [] head freedHolds with ⟨after, merges, held, same⟩
  refine ⟨after, ?_, held, freedSame.trans same⟩
  intro fuel enough
  have merged := merges fuel (by omega)
  simp only [span, Nat.add_zero] at merged
  simp only [kheapFree, header, stored, first, Option.bind_eq_bind, Option.bind_some, merged]

/-- `kheap_alloc` takes the first block that fits, or grows the heap behind the
last block. -/
theorem kheapAlloc_cases (holds : heap.Holds start blocks) {size : ℕ} (nonzero : size ≠ 0)
    (frames : List ℕ) :
    (∃ before block behind after, blocks = before ++ block :: behind ∧
      block.Fits (roundedSize size) ∧ (∀ other ∈ before, ¬ other.Fits (roundedSize size)) ∧
      (∀ fuel, before.length < fuel → kheapAlloc fuel heap size frames =
        some (some (start + span before + sizeofBlockHeader), after)) ∧
      after.Holds start (before ++ (block.allocated (roundedSize size) ++ behind)) ∧
      heap.SameMaps after) ∨
    ((∀ block ∈ blocks, ¬ block.Fits (roundedSize size)) ∧ ∃ front last, blocks = front ++ [last] ∧
      ∀ fuel, front.length < fuel → kheapAlloc fuel heap size frames =
        growHeap heap (some (start + span front)) (roundedSize size) frames) ∨ blocks = [] := by
  cases blocksEq : blocks with
  | nil => exact Or.inr (Or.inr rfl)
  | cons head rest =>
      simp only [← blocksEq]
      have first : heap.freeList = some start := by
        have chain := holds.chain
        simp only [blocksEq] at chain
        exact chain.1
      have chain := holds.chain
      simp only [first] at chain
      rcases @findBlock_spec heap (roundedSize size) _ blocks start chain holds.mapped
        (Nat.le_refl _)
          holds.positive with
        ⟨before, block, behind, split, fits, skipped, finds⟩ | ⟨none, front, last, split, finds⟩
      · left
        have splitHolds := holds
        simp only [split] at splitHolds
        rcases splitHolds.takeBlock_spec fits.2 with ⟨after, taken, held, same⟩
        refine ⟨before, block, behind, after, split, fits, skipped, ?_, held, same⟩
        intro fuel enough
        simp only [kheapAlloc, nonzero, if_false, first, finds fuel enough, Option.bind_eq_bind,
          Option.bind_some, taken]
      · right
        left
        refine ⟨none, front, last, split, ?_⟩
        intro fuel enough
        simp only [kheapAlloc, nonzero, if_false, first, finds fuel enough, Option.bind_eq_bind,
          Option.bind_some]

end Kheap.Holds

theorem kheapAlloc_mono {heap : Kheap} {size fuel more : ℕ} {frames : List ℕ}
    {answer : Option ℕ × Kheap} (returns : kheapAlloc fuel heap size frames = some answer)
    (enough : fuel ≤ more) : kheapAlloc more heap size frames = some answer := by
  simp only [kheapAlloc] at returns ⊢
  split_ifs at returns ⊢
  · exact returns
  · split at returns
    · exact returns
    · simp only [Option.bind_eq_bind, Option.bind_eq_some_iff] at returns ⊢
      rcases returns with ⟨found, foundEq, returns⟩
      exact ⟨found, findBlock_mono foundEq enough, returns⟩

theorem kheapFree_mono {heap after : Kheap} {fuel more : ℕ} {pointer : Option ℕ}
    (returns : kheapFree fuel heap pointer = some after) (enough : fuel ≤ more) :
    kheapFree more heap pointer = some after := by
  cases pointer with
  | none => exact returns
  | some pointer =>
      simp only [kheapFree, Option.bind_eq_bind, Option.bind_eq_some_iff] at returns ⊢
      rcases returns with ⟨freed, freedEq, returns⟩
      exact ⟨freed, freedEq, mergeBlocks_mono returns enough⟩

end Goshkik

import Goshkik.Memory.KheapCoalesce
import Goshkik.Memory.PmmRefinement

/-!
# Growing the heap

`request_more_memory` maps one fresh frame behind the other at `heap_current`.  This file
says which pages it maps, when it succeeds, and that a growth of a tiled heap appends one
used block.  Addresses behind the end of the address space start again at zero.
-/

namespace Goshkik

/-- The mappings after one frame behind the other has been mapped from an address on. -/
def mapOnto (pages : ℕ → Option ℕ) (address : ℕ) : List ℕ → ℕ → Option ℕ
  | [] => pages
  | frame :: frames =>
      mapOnto (Function.update pages (Kheap.pageOf address) (some frame))
        ((address + pageSizeVmm) % 2 ^ 64) frames

theorem mapOnto_cons (pages : ℕ → Option ℕ) (address frame : ℕ) (frames : List ℕ) (page : ℕ) :
    mapOnto pages address (frame :: frames) page =
      mapOnto (Function.update pages (Kheap.pageOf address) (some frame))
        ((address + pageSizeVmm) % 2 ^ 64) frames page := by
  rw [mapOnto]

theorem mapPages_eq (heap : Kheap) (address count : ℕ) (frames : List ℕ) :
    mapPages heap address count frames = (decide (count ≤ frames.length),
      { heap with pages := mapOnto heap.pages address (frames.take count) }) := by
  induction frames generalizing heap address count with
  | nil => simp [mapPages, mapOnto]
  | cons frame frames ih =>
      cases count with
      | zero => simp [mapPages, mapOnto]
      | succ count =>
          simp only [mapPages, Nat.add_one_ne_zero, if_false, Nat.add_sub_cancel, ih, Kheap.map,
            List.length_cons, Nat.add_le_add_iff_right, List.take_succ_cons, mapOnto]

section MapOnto

variable {pages : ℕ → Option ℕ} {address page frame : ℕ} {frames : List ℕ}

/-- The page of the next address of a growth. -/
theorem pageOf_next (address : ℕ) :
    Kheap.pageOf ((address + pageSizeVmm) % 2 ^ 64) = (Kheap.pageOf address + 1) % 2 ^ 52 := by
  simp only [Kheap.pageOf, pageSizeVmm]
  omega

/-- A page has one of the new frames or the frame it had before. -/
theorem mapOnto_cases (small : address < 2 ^ 64)
    (maps : mapOnto pages address frames page = some frame) :
    (∃ index, frames[index]? = some frame ∧ page = (Kheap.pageOf address + index) % 2 ^ 52) ∨
      pages page = some frame := by
  induction frames generalizing pages address with
  | nil => exact .inr maps
  | cons first frames ih =>
      rcases ih (Nat.mod_lt _ (by decide)) maps with ⟨index, isFrame, isPage⟩ | before
      · refine .inl ⟨index + 1, by simpa using isFrame, ?_⟩
        rw [pageOf_next] at isPage
        omega
      · by_cases same : page = Kheap.pageOf address
        · subst same
          refine .inl ⟨0, by simpa using before, ?_⟩
          simp only [Kheap.pageOf, pageSizeVmm]
          omega
        · rw [Function.update_of_ne same] at before
          exact .inr before

theorem mapOnto_isSome (mapped : (pages page).isSome) :
    (mapOnto pages address frames page).isSome := by
  induction frames generalizing pages address with
  | nil => exact mapped
  | cons first frames ih =>
      apply ih
      by_cases same : page = Kheap.pageOf address
      · simp [same]
      · simpa [same] using mapped

theorem mapOnto_covers (small : address < 2 ^ 64) {index : ℕ} (inside : index < frames.length) :
    (mapOnto pages address frames ((Kheap.pageOf address + index) % 2 ^ 52)).isSome := by
  induction frames generalizing pages address index with
  | nil => simp at inside
  | cons first frames ih =>
      cases index with
      | zero =>
          have same : (Kheap.pageOf address + 0) % 2 ^ 52 = Kheap.pageOf address := by
            simp only [Kheap.pageOf, pageSizeVmm]
            omega
          rw [same]
          exact @mapOnto_isSome (Function.update pages (Kheap.pageOf address) (some first)) _ _
            frames
            (by simp)
      | succ index =>
          have covered := @ih (Function.update pages (Kheap.pageOf address) (some first))
            ((address + pageSizeVmm) % 2 ^ 64) (Nat.mod_lt _ (by decide)) index
              (by simpa using inside)
          rw [pageOf_next] at covered
          have same : ((Kheap.pageOf address + 1) % 2 ^ 52 + index) % 2 ^ 52 =
              (Kheap.pageOf address + (index + 1)) % 2 ^ 52 := by
            omega
          rwa [same] at covered

/-- Pages that the growth does not reach keep their frames. -/
theorem mapOnto_outside (small : address < 2 ^ 64)
    (outside : ∀ index < frames.length, page ≠ (Kheap.pageOf address + index) % 2 ^ 52) :
    mapOnto pages address frames page = pages page := by
  induction frames generalizing pages address with
  | nil => rfl
  | cons first frames ih =>
      have notFirst : page ≠ Kheap.pageOf address := by
        have apart := outside 0 (by simp)
        simp only [Kheap.pageOf, pageSizeVmm] at apart ⊢
        omega
      have behind : ∀ index < frames.length,
          page ≠ (Kheap.pageOf ((address + pageSizeVmm) % 2 ^ 64) + index) % 2 ^ 52 := by
        intro index inside
        have apart := outside (index + 1) (by simpa using inside)
        rw [pageOf_next]
        omega
      have step := @ih (Function.update pages (Kheap.pageOf address) (some first)) _
        (Nat.mod_lt _ (by decide)) behind
      exact (mapOnto_cons pages address first frames page).trans
        (step.trans (Function.update_of_ne notFirst _ _))

/-- Some page gets the last of the new frames. -/
theorem mapOnto_last (nonempty : frames ≠ []) :
    ∃ page, mapOnto pages address frames page = some (frames.getLast nonempty) := by
  induction frames generalizing pages address with
  | nil => exact absurd rfl nonempty
  | cons first frames ih =>
      cases frames with
      | nil => exact ⟨Kheap.pageOf address, by simp [mapOnto]⟩
      | cons second frames =>
          rcases @ih (Function.update pages (Kheap.pageOf address) (some first))
            ((address + pageSizeVmm) % 2 ^ 64) (by simp) with ⟨page, isLast⟩
          rw [List.getLast_cons (by simp)]
          exact ⟨page, (mapOnto_cons pages address first _ page).trans isLast⟩

end MapOnto

/-- Mapping fresh frames keeps the frames of different pages apart. -/
theorem Kheap.Separate.mapOnto {heap : Kheap} (separate : heap.Separate) {address : ℕ}
    (small : address < 2 ^ 64) {frames : List ℕ} (fresh : heap.FreshFrames frames) (count : ℕ) :
    Kheap.Separate { heap with
      pages := Goshkik.mapOnto heap.pages address (frames.take count) } where
  aligned page frame maps := by
    rcases mapOnto_cases small maps with ⟨index, isFrame, _⟩ | before
    · exact fresh.aligned frame (List.mem_of_mem_take (List.mem_of_getElem? isFrame))
    · exact separate.aligned page frame before
  injective page other frame maps otherMaps := by
    have offered : ∀ {index : ℕ}, (frames.take count)[index]? = some frame → frame ∈ frames :=
      fun isFrame => List.mem_of_mem_take (List.mem_of_getElem? isFrame)
    rcases mapOnto_cases small maps with ⟨index, isFrame, isPage⟩ | before
    · rcases mapOnto_cases small otherMaps with ⟨otherIndex, isOther, isOtherPage⟩ | otherBefore
      · have distinct : (frames.take count).Nodup := fresh.nodup.sublist (List.take_sublist _ _)
        have bound : index < (frames.take count).length := (List.getElem?_eq_some_iff.mp isFrame).1
        have sameIndex : index = otherIndex :=
          (List.getElem?_inj bound distinct).mp (isFrame.trans isOther.symm)
        rw [isPage, isOtherPage, sameIndex]
      · exact absurd otherBefore (fresh.unused frame (offered isFrame) other)
    · rcases mapOnto_cases small otherMaps with ⟨otherIndex, isOther, _⟩ | otherBefore
      · exact absurd before (fresh.unused frame (offered isOther) page)
      · exact separate.injective page other frame before otherBefore

/-! ## Rounding -/

/-- A request to the next multiple of 16, without a bound. -/
def sixteenfold (size : ℕ) : ℕ := (size + 15) / 16 * 16

theorem roundedSize_eq {size : ℕ} (small : size + 15 < 2 ^ 64) :
    roundedSize size = sixteenfold size := by
  unfold roundedSize
  rw [Nat.mod_eq_of_lt small]
  exact @and_highMask _ small 4 (by decide)

theorem roundedSize_wraps {size : ℕ} (small : size < 2 ^ 64) (wraps : 2 ^ 64 ≤ size + 15) :
    roundedSize size = 0 := by
  unfold roundedSize
  have rounded := @and_highMask ((size + 15) % 2 ^ 64) (Nat.mod_lt _ (by decide)) 4 (by decide)
  have low : (size + 15) % 2 ^ 64 / 2 ^ 4 = 0 := by omega
  rw [low, Nat.zero_mul] at rounded
  exact rounded

theorem totalSize_eq {size : ℕ} (small : size + sizeofBlockHeader + (pageSizeVmm - 1) < 2 ^ 64) :
    totalSize size = (size + sizeofBlockHeader + (pageSizeVmm - 1)) / pageSizeVmm *
      pageSizeVmm := by
  unfold totalSize
  rw [Nat.mod_eq_of_lt small]
  exact @and_highMask _ small 12 (by decide)

theorem totalSize_wraps {size : ℕ} (small : size + sizeofBlockHeader < 2 ^ 64)
    (wraps : 2 ^ 64 ≤ size + sizeofBlockHeader + (pageSizeVmm - 1)) : totalSize size = 0 := by
  unfold totalSize
  simp only [sizeofBlockHeader, pageSizeVmm] at small wraps ⊢
  have rounded := @and_highMask ((size + 24 + (0x1000 - 1)) % 2 ^ 64) (Nat.mod_lt _ (by decide)) 12
    (by decide)
  have low : (size + 24 + (0x1000 - 1)) % 2 ^ 64 / 2 ^ 12 = 0 := by omega
  rw [low, Nat.zero_mul] at rounded
  exact rounded

/-- The size of a growth that does not wrap: whole pages with room for header and payload. -/
theorem totalSize_spec {size : ℕ} (small : size + sizeofBlockHeader + (pageSizeVmm - 1) < 2 ^ 64) :
    size + sizeofBlockHeader ≤ totalSize size ∧ pageSizeVmm ∣ totalSize size ∧
      totalSize size / pageSizeVmm * pageSizeVmm = totalSize size := by
  rw [totalSize_eq small]
  refine ⟨?_, Nat.dvd_mul_left _ _, ?_⟩
  · simp only [sizeofBlockHeader, pageSizeVmm]
    omega
  · rw [Nat.mul_div_cancel _ (by decide : 0 < pageSizeVmm)]

/-! ## Growth -/

namespace Kheap

/-- The growth leaves the memory below it alone. -/
theorem view_mapOnto {heap : Kheap} {address : ℕ} (small : address < 2 ^ 64)
    (aligned : pageSizeVmm ∣ address) {frames : List ℕ}
    (room : address + frames.length * pageSizeVmm ≤ 2 ^ 64) {cell : ℕ} (below : cell < address) :
    view { heap with pages := mapOnto heap.pages address frames } cell = heap.view cell := by
  have samePage : mapOnto heap.pages address frames (pageOf cell) = heap.pages (pageOf cell) := by
    apply mapOnto_outside small
    intro index inside
    simp only [pageOf, pageSizeVmm] at aligned room ⊢
    omega
  simp only [view, physical, samePage]

theorem Mapped.mapOnto {heap : Kheap} {start address : ℕ} (mapped : heap.Mapped start address)
    (aligned : pageSizeVmm ∣ address) (small : address < 2 ^ 64) {frames : List ℕ}
    (room : address + frames.length * pageSizeVmm ≤ 2 ^ 64) :
    Mapped { heap with pages := Goshkik.mapOnto heap.pages address frames } start
      (address + frames.length * pageSizeVmm) := by
  intro cell lower upper
  by_cases below : cell < address
  · exact mapOnto_isSome (mapped cell lower below)
  · have inside : pageOf cell - pageOf address < frames.length := by
      simp only [pageOf, pageSizeVmm] at aligned upper below ⊢
      omega
    have covered := @mapOnto_covers heap.pages _ frames small _ inside
    have same : (pageOf address + (pageOf cell - pageOf address)) % 2 ^ 52 = pageOf cell := by
      simp only [pageOf, pageSizeVmm] at aligned room upper below ⊢
      omega
    rwa [same] at covered

namespace Holds

variable {heap : Kheap} {start size : ℕ} {blocks : List HeapBlock} {frames : List ℕ}

/-- A growth with enough frames maps its pages and writes one header behind the chain. -/
theorem requestMoreMemory_spec (holds : heap.Holds start blocks)
    (extent : heap.heapCurrent = start + span blocks) (aligned : pageSizeVmm ∣ heap.heapCurrent)
    (small : size + sizeofBlockHeader + (pageSizeVmm - 1) < 2 ^ 64)
    (room : heap.heapCurrent + totalSize size < 2 ^ 64) (fresh : heap.FreshFrames frames)
    (enough : totalSize size / pageSizeVmm ≤ frames.length) :
    ∃ after, requestMoreMemory heap size frames =
        some (some (heap.heapCurrent + sizeofBlockHeader), after) ∧
      after.Separate ∧ after.Mapped start (heap.heapCurrent + totalSize size) ∧
      after.heapCurrent = heap.heapCurrent + totalSize size ∧ after.freeList = heap.freeList ∧
      (∀ cell, cell < heap.heapCurrent → after.view cell = heap.view cell) ∧
      Chain after.view (some heap.heapCurrent) heap.heapCurrent
        [⟨totalSize size - sizeofBlockHeader, false⟩] none := by
  rcases totalSize_spec small with ⟨payload, _, whole⟩
  have headerSize : sizeofBlockHeader = 24 := rfl
  generalize baseEq : heap.heapCurrent = base at *
  generalize totalEq : totalSize size = total at *
  have baseSmall : base < 2 ^ 64 := by omega
  have taken : (frames.take (total / pageSizeVmm)).length = total / pageSizeVmm := by
    simp [enough]
  have inside : base + (frames.take (total / pageSizeVmm)).length * pageSizeVmm = base + total := by
    rw [taken, whole]
  have mapped := @Kheap.Mapped.mapOnto heap start base (extent ▸ holds.mapped) aligned baseSmall
    (frames.take (total / pageSizeVmm)) (by omega)
  rw [inside] at mapped
  have separate := holds.separate.mapOnto baseSmall fresh (total / pageSizeVmm)
  have below : ∀ cell, cell < base → Kheap.view { heap with
      pages := Goshkik.mapOnto heap.pages base (frames.take (total / pageSizeVmm)) } cell =
        heap.view cell :=
    fun cell lower => Kheap.view_mapOnto baseSmall aligned (by omega) lower
  generalize grownEq : ({ heap with
    pages := Goshkik.mapOnto heap.pages base (frames.take (total / pageSizeVmm)),
    heapCurrent := (base + total) % 2 ^ 64 } : Kheap) = grown
  have grownSeparate : grown.Separate := by
    rw [← grownEq]
    exact ⟨separate.aligned, separate.injective⟩
  have grownMapped : grown.Mapped start (base + total) := by
    rw [← grownEq]
    exact mapped
  have grownBelow : ∀ cell, cell < base → grown.view cell = heap.view cell := by
    rw [← grownEq]
    exact below
  rcases Kheap.writeHeader_spec grownSeparate grownMapped (show start ≤ base by omega)
      (show base + sizeofBlockHeader ≤ base + total by omega) (total - sizeofBlockHeader) 0 0 with
    ⟨after, written, viewEq, same, afterSeparate, afterMapped⟩
  refine ⟨after, ?_, afterSeparate, afterMapped, ?_, ?_, ?_, ?_⟩
  · have notLarge : ¬ size > 2 ^ 64 - 1 - sizeofBlockHeader := by
      simp only [headerSize, pageSizeVmm] at small ⊢
      omega
    have sizeEq : (total + 2 ^ 64 - sizeofBlockHeader) % 2 ^ 64 = total - sizeofBlockHeader := by
      omega
    have pointerEq : (base + sizeofBlockHeader) % 2 ^ 64 = base + sizeofBlockHeader := by
      omega
    simp only [requestMoreMemory, if_neg notLarge, totalEq, baseEq, mapPages_eq, enough,
      decide_true, sizeEq, pointerEq]
    rw [← grownEq] at written
    simp only [written, Option.bind_eq_bind, Option.bind_some, Option.pure_def]
  · rw [same.heapCurrent, ← grownEq]
    exact Nat.mod_eq_of_lt room
  · rw [same.freeList, ← grownEq]
  · intro cell lower
    rw [viewEq, ← grownBelow cell lower]
    simp only [blockSizeField, blockFreeField, blockNextField]
    simp (disch := omega) only [Cells.store_of_ne]
  · refine ⟨rfl, ?_, ?_, ?_⟩
    · simp only [viewEq, blockSizeField, blockFreeField, blockNextField]
      simp (disch := omega) only [Cells.store_of_ne, Cells.store_self]
    · simp only [viewEq, blockSizeField, blockFreeField, blockNextField]
      simp (disch := omega) only [Cells.store_of_ne, Cells.store_self, Bool.toNat_false]
    · simp [viewEq, Chain, Cells.pointerAt]

/-- A growth appends one used block to the chain. -/
theorem growHeap_spec {front : List HeapBlock} {last : HeapBlock}
    (holds : heap.Holds start (front ++ [last]))
    (extent : heap.heapCurrent = start + span (front ++ [last]))
    (aligned : pageSizeVmm ∣ heap.heapCurrent)
    (small : size + sizeofBlockHeader + (pageSizeVmm - 1) < 2 ^ 64)
    (room : heap.heapCurrent + totalSize size < 2 ^ 64) (fresh : heap.FreshFrames frames)
    (enough : totalSize size / pageSizeVmm ≤ frames.length) :
    ∃ after, growHeap heap (some (start + span front)) size frames =
        some (some (heap.heapCurrent + sizeofBlockHeader), after) ∧
      after.Holds start (front ++ [last] ++ [⟨totalSize size - sizeofBlockHeader, false⟩]) ∧
      after.heapCurrent = heap.heapCurrent + totalSize size := by
  rcases holds.requestMoreMemory_spec extent aligned small room fresh enough with
    ⟨grown, requested, separate, mapped, current, list, below, header⟩
  rcases totalSize_spec small with ⟨payload, _, _⟩
  have inside := span_block_le front [] last
  have headerSize : sizeofBlockHeader = 24 := rfl
  have positive := holds.positive
  generalize hereEq : start + span front = here at *
  have lastEnd : here + sizeofBlockHeader + last.size = heap.heapCurrent := by
    rw [extent, ← hereEq, span_append]
    simp only [span]
    omega
  have linkEq : (heap.heapCurrent + sizeofBlockHeader + 2 ^ 64 - sizeofBlockHeader) % 2 ^ 64 =
      heap.heapCurrent := by
    omega
  rcases Kheap.store_spec separate mapped
      (show start ≤ blockNextField here by simp only [blockNextField]; omega)
      (by simp only [blockNextField]; omega) heap.heapCurrent with
    ⟨after, stored, viewEq, same, afterSeparate, afterMapped⟩
  have spanEq : start + span (front ++ [last] ++ [⟨totalSize size - sizeofBlockHeader, false⟩]) =
      heap.heapCurrent + totalSize size := by
    rw [span_append, extent]
    simp only [span]
    omega
  have kept : ∀ cell, cell < heap.heapCurrent → cell ≠ blockNextField here →
      after.view cell = heap.view cell := by
    intro cell lower other
    rw [viewEq, Cells.store_of_ne other, below cell lower]
  refine ⟨after, ?_, ⟨afterSeparate, spanEq ▸ afterMapped, ?_, positive, by omega⟩,
    same.heapCurrent.trans current⟩
  · simp only [growHeap, requested, Option.bind_eq_bind, Option.bind_some, linkEq, stored,
      Option.pure_def]
  · have listEq : after.freeList = heap.freeList := same.freeList.trans list
    rw [listEq]
    rcases Chain.append_iff.mp holds.chain with ⟨middle, frontChain, lastHead, sizeEq, freeEq, _⟩
    rw [hereEq] at lastHead sizeEq freeEq
    refine Chain.append_iff.mpr ⟨some heap.heapCurrent, Chain.append_iff.mpr ⟨middle, ?_, ?_⟩, ?_⟩
    · apply frontChain.congr_range
      intro cell _ upper
      apply kept cell (by omega)
      simp only [blockNextField]
      omega
    · rw [hereEq]
      refine ⟨lastHead, ?_, ?_, ?_⟩
      · rw [← sizeEq]
        apply kept _ (by simp only [blockSizeField]; omega)
        simp [blockSizeField, blockNextField]
      · rw [← freeEq]
        apply kept _ (by simp only [blockFreeField]; omega)
        simp [blockFreeField, blockNextField]
      · refine Cells.pointerAt_eq_some_iff.mpr ⟨?_, by omega⟩
        rw [viewEq, Cells.store_self]
    · rw [← extent]
      apply header.congr_range
      intro cell lower _
      rw [viewEq, Cells.store_of_ne]
      simp only [blockNextField]
      omega

end Holds

/-! ## The frames behind the heap -/

/-- The heap's frames and the offered ones belong to the managed region, which the direct map
reaches: the upper half of the address space has room for `2 ^ 47` bytes of physical memory. -/
structure SuppliedBy (heap : Kheap) (region : MemmapEntry) (frames : List ℕ) : Prop where
  direct : region.base + region.length ≤ 2 ^ 47
  used : ∀ page frame, heap.pages page = some frame → frame ∈ region.allocatable
  offered : ∀ frame ∈ frames, frame ∈ region.allocatable

theorem card_allocatable_le {region : MemmapEntry} (direct : region.base + region.length ≤ 2 ^ 47) :
    region.allocatable.card ≤ 2 ^ 35 - 2 ^ 20 := by
  have atMost : region.allocatable.card ≤ region.length / pageSize - region.bitmapPages := by
    refine Finset.card_image_le.trans ?_
    rw [Nat.card_Ico]
  simp only [MemmapEntry.bitmapPages, pageSize] at atMost
  omega

/-- The pages of the heap and the offered frames fit into the region. -/
theorem SuppliedBy.pages_add_frames_le {heap : Kheap} {region : MemmapEntry} {frames : List ℕ}
    (supplied : heap.SuppliedBy region frames) (separate : heap.Separate)
    (fresh : heap.FreshFrames frames) {first stop : ℕ}
    (mapped : ∀ page, first ≤ page → page < stop → (heap.pages page).isSome) :
    stop - first + frames.length ≤ 2 ^ 35 - 2 ^ 20 := by
  let used := (Finset.Ico first stop).image (fun page => (heap.pages page).getD 0)
  have frameOf : ∀ page ∈ Finset.Ico first stop, heap.pages page =
      some ((heap.pages page).getD 0) := by
    intro page mem
    rw [Finset.mem_Ico] at mem
    rcases Option.isSome_iff_exists.mp (mapped page mem.1 mem.2) with ⟨frame, maps⟩
    rw [maps, Option.getD_some]
  have usedCard : used.card = stop - first := by
    rw [Finset.card_image_of_injOn, Nat.card_Ico]
    intro page mem other otherMem same
    have maps := frameOf page (Finset.mem_coe.mp mem)
    have otherMaps := frameOf other (Finset.mem_coe.mp otherMem)
    exact separate.injective page other _ maps (by simpa only [same] using otherMaps)
  have apart : Disjoint used frames.toFinset := by
    rw [Finset.disjoint_left]
    intro frame isUsed isOffered
    rcases Finset.mem_image.mp isUsed with ⟨page, mem, rfl⟩
    exact fresh.unused _ (List.mem_toFinset.mp isOffered) page (frameOf page mem)
  have inside : used ∪ frames.toFinset ⊆ region.allocatable := by
    intro frame isMember
    rcases Finset.mem_union.mp isMember with isUsed | isOffered
    · rcases Finset.mem_image.mp isUsed with ⟨page, mem, rfl⟩
      exact supplied.used page _ (frameOf page mem)
    · exact supplied.offered frame (List.mem_toFinset.mp isOffered)
  calc stop - first + frames.length = used.card + frames.toFinset.card := by
        rw [usedCard, List.toFinset_card_of_nodup fresh.nodup]
    _ = (used ∪ frames.toFinset).card := (Finset.card_union_of_disjoint apart).symm
    _ ≤ region.allocatable.card := Finset.card_le_card inside
    _ ≤ 2 ^ 35 - 2 ^ 20 := card_allocatable_le supplied.direct

/-- The heap with all the offered frames stays inside the address space. -/
theorem Holds.space {heap : Kheap} {region : MemmapEntry} {frames : List ℕ}
    {blocks : List HeapBlock}
    (holds : heap.Holds heapStart blocks) (extent : heap.heapCurrent = heapStart + span blocks)
    (aligned : pageSizeVmm ∣ heap.heapCurrent) (fresh : heap.FreshFrames frames)
    (supplied : heap.SuppliedBy region frames) :
    heap.heapCurrent + frames.length * pageSizeVmm < 2 ^ 64 := by
  have mapped : ∀ page, pageOf heapStart ≤ page → page < pageOf heap.heapCurrent →
      (heap.pages page).isSome := by
    intro page lower upper
    have isMapped := holds.mapped (page * pageSizeVmm)
      (by simp only [pageOf, pageSizeVmm, heapStart] at lower ⊢; omega)
      (by rw [← extent]; simp only [pageOf, pageSizeVmm] at upper ⊢; omega)
    have samePage : pageOf (page * pageSizeVmm) = page := by
      simp [pageOf, pageSizeVmm]
    rwa [samePage] at isMapped
  have bound := supplied.pages_add_frames_le holds.separate fresh mapped
  simp only [pageOf, pageSizeVmm, heapStart] at bound aligned extent ⊢
  omega

/-- A growth that finds enough frames stays inside the address space. -/
theorem Holds.room {heap : Kheap} {region : MemmapEntry} {frames : List ℕ} {blocks : List HeapBlock}
    {size : ℕ} (holds : heap.Holds heapStart blocks)
    (extent : heap.heapCurrent = heapStart + span blocks) (aligned : pageSizeVmm ∣ heap.heapCurrent)
    (small : size + sizeofBlockHeader + (pageSizeVmm - 1) < 2 ^ 64)
    (fresh : heap.FreshFrames frames) (supplied : heap.SuppliedBy region frames)
    (enough : totalSize size / pageSizeVmm ≤ frames.length) :
    heap.heapCurrent + totalSize size < 2 ^ 64 := by
  rcases totalSize_spec small with ⟨_, _, whole⟩
  have space := holds.space extent aligned fresh supplied
  have least : totalSize size ≤ frames.length * pageSizeVmm := by
    rw [← whole]
    exact Nat.mul_le_mul_right pageSizeVmm enough
  omega

end Kheap

end Goshkik

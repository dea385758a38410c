import Goshkik.Memory.KheapGrowth

/-!
# First-fit allocation

`kheap_alloc` on a chain that fills the range up to `heap_current`: it serves a request from
the first free block with room, or appends a block.  When the frames run out in the middle of
a growth, the pages mapped so far stay mapped.
-/

namespace Goshkik

/-- The blocks of a chain with the addresses of their headers. -/
def placedBlocks : ℕ → List HeapBlock → List (ℕ × HeapBlock)
  | _, [] => []
  | address, block :: blocks =>
      (address, block) :: placedBlocks (address + sizeofBlockHeader + block.size) blocks

/-- The chain fills the range between `HEAP_START` and `heap_current`, which only moves by
whole pages. -/
structure Kheap.Tiles (heap : Kheap) (blocks : List HeapBlock) : Prop where
  holds : heap.Holds heapStart blocks
  nonempty : blocks ≠ []
  extent : heap.heapCurrent = heapStart + span blocks
  pageAligned : pageSizeVmm ∣ heap.heapCurrent
  headersAligned : ∀ placed ∈ placedBlocks heapStart blocks, 8 ∣ placed.1

section Placed

variable {address : ℕ} {blocks rest : List HeapBlock} {block : HeapBlock}

theorem placedBlocks_append : placedBlocks address (blocks ++ rest) =
    placedBlocks address blocks ++ placedBlocks (address + span blocks) rest := by
  induction blocks generalizing address with
  | nil => simp [placedBlocks, span]
  | cons block blocks ih => simp [placedBlocks, ih, span, Nat.add_assoc]

end Placed

/-! ## First fit -/

/-- A number of bytes rounded up to whole pages. -/
def wholePages (size : ℕ) : ℕ := (size + (pageSizeVmm - 1)) / pageSizeVmm * pageSizeVmm

/-- First fit on a chain: the offset of the header that serves the request, and the chain
afterwards.  Without a block that fits, a new one goes behind the chain. -/
inductive FirstFit (blocks : List HeapBlock) (size : ℕ) : ℕ → List HeapBlock → Prop where
  | reuse (before : List HeapBlock) (block : HeapBlock) (behind : List HeapBlock)
      (split : blocks = before ++ block :: behind) (fits : block.Fits size)
      (first : ∀ other ∈ before, ¬ other.Fits size) :
      FirstFit blocks size (span before) (before ++ (block.allocated size ++ behind))
  | append (unfit : ∀ block ∈ blocks, ¬ block.Fits size) :
      FirstFit blocks size (span blocks)
        (blocks ++ [⟨wholePages (size + sizeofBlockHeader) - sizeofBlockHeader, false⟩])

namespace FirstFit

variable {blocks blocks' : List HeapBlock} {size offset : ℕ}

/-- The served block is in use and has room for the request. -/
theorem served (fit : FirstFit blocks size offset blocks') (start : ℕ) :
    ∃ payload, size ≤ payload ∧
      (start + offset, ⟨payload, false⟩) ∈ placedBlocks start blocks' := by
  cases fit with
  | reuse before block behind split fits first =>
      rcases block.allocated_eq_cons size with ⟨served, cut, allocated, used, _, large⟩
      refine ⟨served.size, large fits.2, ?_⟩
      rw [placedBlocks_append, allocated, ← used]
      simp [placedBlocks]
  | append unfit =>
      have last : (start + span blocks,
          (⟨wholePages (size + sizeofBlockHeader) - sizeofBlockHeader, false⟩ : HeapBlock)) ∈
            placedBlocks start (blocks ++
              [⟨wholePages (size + sizeofBlockHeader) - sizeofBlockHeader, false⟩]) := by
        rw [placedBlocks_append]
        exact List.mem_append_right _ (List.mem_singleton_self _)
      refine ⟨_, ?_, last⟩
      simp only [wholePages, sizeofBlockHeader, pageSizeVmm]
      omega

/-- Every other block keeps its address, its size and its flag. -/
theorem kept (fit : FirstFit blocks size offset blocks') {start : ℕ} {placed : ℕ × HeapBlock}
    (mem : placed ∈ placedBlocks start blocks) (other : placed.1 ≠ start + offset) :
    placed ∈ placedBlocks start blocks' := by
  cases fit with
  | reuse before block behind split fits first =>
      have sameSpan := block.span_allocated size
      simp only [span, Nat.add_zero] at sameSpan
      rw [split, placedBlocks_append] at mem
      rw [placedBlocks_append, placedBlocks_append, sameSpan]
      simp only [placedBlocks, List.mem_append, List.mem_cons] at mem ⊢
      rcases mem with inFront | here | inBack
      · exact .inl inFront
      · exact absurd (congrArg Prod.fst here) other
      · rw [Nat.add_assoc] at inBack
        exact .inr (.inr inBack)
  | append unfit =>
      rw [placedBlocks_append]
      exact List.mem_append_left _ mem

/-- Headers stay aligned when requests are multiples of the alignment. -/
theorem headersAligned (fit : FirstFit blocks size offset blocks') {start : ℕ}
    (multiple : 8 ∣ size) (stop : 8 ∣ start + span blocks)
    (aligned : ∀ placed ∈ placedBlocks start blocks, 8 ∣ placed.1) :
    ∀ placed ∈ placedBlocks start blocks', 8 ∣ placed.1 := by
  intro placed mem
  cases fit with
  | reuse before block behind split fits first =>
      have sameSpan := block.span_allocated size
      simp only [span, Nat.add_zero] at sameSpan
      rw [placedBlocks_append, placedBlocks_append, sameSpan] at mem
      rw [split, placedBlocks_append] at aligned
      simp only [placedBlocks, List.mem_append, List.mem_cons] at mem aligned
      have here : 8 ∣ start + span before := aligned (_, block) (.inr (.inl rfl))
      rcases mem with inFront | inServed | inBack
      · exact aligned placed (.inl inFront)
      · unfold HeapBlock.allocated at inServed
        split at inServed
        · simp only [placedBlocks, List.mem_singleton] at inServed
          rw [inServed]
          exact here
        · simp only [placedBlocks, List.mem_cons, List.not_mem_nil, or_false] at inServed
          rcases inServed with rfl | rfl
          · exact here
          · simp only [sizeofBlockHeader]
            omega
      · rw [← Nat.add_assoc] at inBack
        exact aligned placed (.inr (.inr inBack))
  | append unfit =>
      rw [placedBlocks_append] at mem
      rcases List.mem_append.mp mem with inFront | last
      · exact aligned placed inFront
      · rw [placedBlocks, placedBlocks, List.mem_singleton] at last
        rw [last]
        exact stop

end FirstFit

/-- `kmalloc` on a chain that fills the heap is first fit. -/
theorem kmalloc_firstFit {heap : Kheap} {blocks : List HeapBlock} {size : ℕ} {frames : List ℕ}
    {region : MemmapEntry} (tiles : heap.Tiles blocks) (nonzero : 1 ≤ size)
    (rounding : size + 15 < 2 ^ 64)
    (paging : roundedSize size + sizeofBlockHeader + (pageSizeVmm - 1) < 2 ^ 64)
    (fresh : heap.FreshFrames frames) (supplied : heap.SuppliedBy region frames)
    (enough : totalSize (roundedSize size) / pageSizeVmm ≤ frames.length) :
    ∃ offset after blocks',
      (∀ fuel, blocks.length < fuel → kmalloc fuel heap size frames =
        some (some (heapStart + offset + sizeofBlockHeader), after)) ∧
      FirstFit blocks (sixteenfold size) offset blocks' ∧ after.Tiles blocks' ∧
      (∃ payload, size ≤ payload ∧
        (heapStart + offset, ⟨payload, false⟩) ∈ placedBlocks heapStart blocks') ∧
      ∀ placed ∈ placedBlocks heapStart blocks, placed.1 ≠ heapStart + offset →
        placed ∈ placedBlocks heapStart blocks' := by
  have rounded := roundedSize_eq rounding
  suffices served : ∃ offset after blocks',
      (∀ fuel, blocks.length < fuel → kmalloc fuel heap size frames =
        some (some (heapStart + offset + sizeofBlockHeader), after)) ∧
      FirstFit blocks (sixteenfold size) offset blocks' ∧ blocks' ≠ [] ∧
      after.Holds heapStart blocks' ∧ after.heapCurrent = heapStart + span blocks' ∧
      pageSizeVmm ∣ after.heapCurrent by
    rcases served with ⟨offset, after, blocks', allocates, fit, nonempty, holds, extent, aligned⟩
    have multiple : 8 ∣ sixteenfold size := by
      unfold sixteenfold
      omega
    have stop : 8 ∣ heapStart + span blocks := by
      rw [← tiles.extent]
      exact Nat.dvd_trans (by decide) tiles.pageAligned
    rcases fit.served heapStart with ⟨payload, large, mem⟩
    have least : size ≤ sixteenfold size := by
      unfold sixteenfold
      omega
    exact ⟨offset, after, blocks', allocates, fit,
      ⟨holds, nonempty, extent, aligned, fit.headersAligned multiple stop tiles.headersAligned⟩,
      ⟨payload, least.trans large, mem⟩, fun placed isPlaced other => fit.kept isPlaced other⟩
  rcases tiles.holds.kheapAlloc_cases (by omega : size ≠ 0) frames with
    ⟨before, block, behind, after, split, fits, first, allocates, held, same⟩ |
    ⟨unfit, front, last, split, grows⟩ | empty
  · rw [rounded] at fits first held
    refine ⟨span before, after, _, ?_, .reuse before block behind split fits first, ?_, held, ?_,
      ?_⟩
    · intro fuel enough
      apply allocates
      rw [split, List.length_append, List.length_cons] at enough
      omega
    · rcases block.allocated_eq_cons (sixteenfold size) with ⟨served, cut, allocated, _⟩
      simp [allocated]
    · rw [same.heapCurrent, tiles.extent, split]
      have sameSpan := block.span_allocated (sixteenfold size)
      simp only [span_append, span, Nat.add_zero] at sameSpan ⊢
      rw [sameSpan]
    · rw [same.heapCurrent]
      exact tiles.pageAligned
  · have room := tiles.holds.room tiles.extent tiles.pageAligned paging fresh supplied enough
    have holds := tiles.holds
    have extent := tiles.extent
    rw [split] at holds extent
    rcases holds.growHeap_spec extent tiles.pageAligned paging room fresh enough with
      ⟨after, grew, held, current⟩
    rcases totalSize_spec paging with ⟨payload, whole, _⟩
    have total : totalSize (roundedSize size) =
        wholePages (sixteenfold size + sizeofBlockHeader) := by
      rw [totalSize_eq paging, rounded]
      rfl
    rw [← split] at held
    refine ⟨span blocks, after, _, ?_, .append (by rwa [rounded] at unfit), by simp, ?_, ?_, ?_⟩
    · intro fuel enough
      have length : front.length < fuel := by
        rw [split, List.length_append] at enough
        omega
      rw [kmalloc, grows fuel length, grew, tiles.extent]
    · rwa [total] at held
    · rw [current, total, span_append, tiles.extent]
      rw [total] at payload
      simp only [span]
      omega
    · rw [current]
      exact Nat.dvd_add tiles.pageAligned whole
  · exact absurd empty tiles.nonempty

/-- A heap whose chain fills its first page, with two frames left. -/
theorem filledHeap_exists : ∃ heap : Kheap, heap.Tiles [⟨16, false⟩, ⟨4032, true⟩] ∧
    heap.heapCurrent = heapStart + pageSizeVmm ∧ heap.FreshFrames [0x2000, 0x3000] ∧
    heap.SuppliedBy ⟨0, 0x10000, memmapUsable⟩ [0x2000, 0x3000] ∧
    ∀ page, heap.pages page = if page = Kheap.pageOf heapStart then some 0x1000 else none := by
  rcases servedHeap_exists with ⟨heap, holds, pages⟩
  have onlyFrame : ∀ page frame, heap.pages page = some frame → frame = 0x1000 := by
    intro page frame maps
    rw [pages, Option.ite_none_right_eq_some, Option.some.injEq] at maps
    exact maps.2.symm
  have inRegion : ∀ frame ∈ [0x1000, 0x2000, 0x3000],
      frame ∈ (⟨0, 0x10000, memmapUsable⟩ : MemmapEntry).allocatable := by
    decide
  refine ⟨{ heap with heapCurrent := heapStart + pageSizeVmm }, ⟨⟨⟨holds.separate.aligned,
    holds.separate.injective⟩, holds.mapped, holds.chain, holds.positive,
      holds.bounded⟩, by simp, rfl,
    (by decide : pageSizeVmm ∣ heapStart + pageSizeVmm), by decide⟩, rfl,
    ⟨by simp, by simp, by simp [pageSizeVmm], ?_⟩,
    ⟨by decide, ?_, ?_⟩, pages⟩
  · intro frame mem page maps
    rw [onlyFrame page frame maps] at mem
    simp at mem
  · intro page frame maps
    rw [onlyFrame page frame maps]
    exact inRegion _ (by simp)
  · intro frame mem
    exact inRegion frame (List.mem_cons_of_mem _ mem)

theorem kmalloc_firstFit_filledHeap : ∃ heap after : Kheap, ∃ offset blocks',
    heap.Tiles [⟨16, false⟩, ⟨4032, true⟩] ∧
      kmalloc 3 heap 5000 [0x2000, 0x3000] =
        some (some (heapStart + offset + sizeofBlockHeader), after) ∧
      FirstFit [⟨16, false⟩, ⟨4032, true⟩] 5008 offset blocks' ∧ after.Tiles blocks' := by
  rcases filledHeap_exists with ⟨heap, tiles, _, fresh, supplied, _⟩
  rcases kmalloc_firstFit tiles (show 1 ≤ 5000 by decide) (by decide) (by decide) fresh supplied
    (by decide) with ⟨offset, after, blocks', allocates, fit, afterTiles, _⟩
  exact ⟨heap, after, offset, blocks', tiles, allocates 3 (by decide), fit, afterTiles⟩

/-! ## Failed requests -/

/-- A request that fails leaves the heap as it was. -/
def FailsUnchanged (heap : Kheap) (size : ℕ) (frames : List ℕ) : Prop :=
  ∀ fuel after, kmalloc fuel heap size frames = some (none, after) → after = heap

/-- The request needs a growth that starts, and the frames run out before it ends. -/
def GrowthBreaksOff (blocks : List HeapBlock) (size : ℕ) (frames : List ℕ) : Prop :=
  size ≠ 0 ∧ (∀ block ∈ blocks, ¬ block.Fits (roundedSize size)) ∧
    roundedSize size ≤ 2 ^ 64 - 1 - sizeofBlockHeader ∧ 0 < frames.length ∧
    frames.length < totalSize (roundedSize size) / pageSizeVmm

theorem requestMoreMemory_fails_iff {heap after : Kheap} {size : ℕ} {frames : List ℕ} :
    requestMoreMemory heap size frames = some (none, after) ↔
      (2 ^ 64 - 1 - sizeofBlockHeader < size ∧ after = heap) ∨
      (size ≤ 2 ^ 64 - 1 - sizeofBlockHeader ∧ frames.length < totalSize size / pageSizeVmm ∧
        after = { heap with pages := mapOnto heap.pages heap.heapCurrent frames }) := by
  unfold requestMoreMemory
  by_cases large : size > 2 ^ 64 - 1 - sizeofBlockHeader
  · rw [if_pos large]
    simp only [Option.some.injEq, Prod.mk.injEq, true_and]
    constructor
    · exact fun same => .inl ⟨large, same.symm⟩
    · rintro (⟨_, same⟩ | ⟨small, _⟩)
      · exact same.symm
      · exact absurd large (Nat.not_lt.mpr small)
  · simp only [if_neg large, mapPages_eq]
    by_cases enough : totalSize size / pageSizeVmm ≤ frames.length
    · simp only [enough, decide_true, Option.bind_eq_bind, Option.bind_eq_some_iff, Option.pure_def,
        Option.some.injEq, Prod.mk.injEq, reduceCtorEq, false_and, and_false, exists_false,
          false_iff]
      rintro (⟨isLarge, _⟩ | ⟨_, short, _⟩)
      · exact large isLarge
      · exact absurd enough (Nat.not_le.mpr short)
    · have whole : frames.take (totalSize size / pageSizeVmm) = frames :=
        List.take_of_length_le (by omega)
      simp only [enough, decide_false, whole, Option.some.injEq, Prod.mk.injEq, true_and]
      constructor
      · exact fun same => .inr ⟨Nat.le_of_not_lt large, by omega, same.symm⟩
      · rintro (⟨isLarge, _⟩ | ⟨_, _, same⟩)
        · exact absurd isLarge large
        · exact same.symm

theorem growHeap_fails_iff {heap after : Kheap} {last : Option ℕ} {size : ℕ} {frames : List ℕ} :
    growHeap heap last size frames = some (none, after) ↔
      requestMoreMemory heap size frames = some (none, after) := by
  simp only [growHeap, Option.bind_eq_bind, Option.bind_eq_some_iff]
  constructor
  · rintro ⟨⟨pointer, grown⟩, requested, finishes⟩
    cases pointer with
    | none =>
        simp only [Option.pure_def, Option.some.injEq, Prod.mk.injEq, true_and] at finishes
        rwa [finishes] at requested
    | some pointer =>
        cases last with
        | none => simp at finishes
        | some last => simp [Option.bind_eq_some_iff] at finishes
  · exact fun requested => ⟨_, requested, rfl⟩

/-- Mapping a fresh frame changes the heap. -/
theorem Kheap.FreshFrames.mapOnto_ne {heap : Kheap} {frames : List ℕ}
    (fresh : heap.FreshFrames frames)
    (nonempty : frames ≠ []) (address : ℕ) :
    ({ heap with pages := mapOnto heap.pages address frames } : Kheap) ≠ heap := by
  intro same
  rcases @mapOnto_last heap.pages address frames nonempty with ⟨page, isLast⟩
  have before : heap.pages page = some (frames.getLast nonempty) := by
    rw [← isLast]
    exact (congrFun (congrArg Kheap.pages same) page).symm
  exact fresh.unused _ (List.getLast_mem nonempty) page before

/-- When `kmalloc` returns null. -/
theorem Kheap.Holds.kmalloc_fails_iff {heap after : Kheap} {blocks : List HeapBlock} {size : ℕ}
    {frames : List ℕ} (holds : heap.Holds heapStart blocks) :
    (∃ fuel, kmalloc fuel heap size frames = some (none, after)) ↔
      (size = 0 ∧ after = heap) ∨
      (size ≠ 0 ∧ (∀ block ∈ blocks, ¬ block.Fits (roundedSize size)) ∧
        requestMoreMemory heap (roundedSize size) frames = some (none, after)) := by
  by_cases zero : size = 0
  · subst zero
    simp only [kmalloc, kheapAlloc, if_true, exists_const, Option.some.injEq, Prod.mk.injEq,
      true_and, ne_eq, not_true_eq_false, false_and, or_false]
    exact eq_comm
  · have onlyRequest : (size = 0 ∧ after = heap) ∨
        (size ≠ 0 ∧ (∀ block ∈ blocks, ¬ block.Fits (roundedSize size)) ∧
          requestMoreMemory heap (roundedSize size) frames = some (none, after)) ↔
        (∀ block ∈ blocks, ¬ block.Fits (roundedSize size)) ∧
          requestMoreMemory heap (roundedSize size) frames = some (none, after) := by
      simp [zero]
    rw [onlyRequest]
    have grown : ∀ {enough : ℕ} {last : Option ℕ}, (∀ fuel, enough ≤ fuel →
        kmalloc fuel heap size frames = growHeap heap last (roundedSize size) frames) →
        ((∃ fuel, kmalloc fuel heap size frames = some (none, after)) ↔
          requestMoreMemory heap (roundedSize size) frames = some (none, after)) := by
      intro enough last grows
      rw [← @growHeap_fails_iff heap after last]
      constructor
      · rintro ⟨fuel, fails⟩
        have more := kheapAlloc_mono fails (Nat.le_add_right fuel enough)
        exact (grows _ (Nat.le_add_left enough fuel)).symm.trans more
      · exact fun fails => ⟨enough, (grows enough le_rfl).trans fails⟩
    rcases holds.kheapAlloc_cases zero frames with
      ⟨before, block, behind, taken, split, fits, _, allocates, _⟩ | ⟨unfit, front, last, _,
        grows⟩ |
      empty
    · refine iff_of_false ?_ ?_
      · rintro ⟨fuel, fails⟩
        have more := kheapAlloc_mono fails (Nat.le_add_right fuel (before.length + 1))
        rw [allocates _ (by omega)] at more
        exact absurd (congrArg Prod.fst (Option.some.inj more)) (by simp)
      · rintro ⟨unfit, _⟩
        exact unfit block (by simp [split]) fits
    · rw [@grown (front.length + 1) _ (fun fuel enough => grows fuel enough)]
      exact ⟨fun fails => ⟨unfit, fails⟩, And.right⟩
    · have list : heap.freeList = none := by
        have chain := holds.chain
        rwa [empty] at chain
      have grows : ∀ fuel, 0 ≤ fuel →
          kmalloc fuel heap size frames = growHeap heap none (roundedSize size) frames := by
        intro fuel _
        simp only [kmalloc, kheapAlloc, if_neg zero, list]
      rw [grown grows]
      exact ⟨fun fails => ⟨by simp [empty], fails⟩, And.right⟩

/-- A failed `kmalloc` leaves everything as it was unless a growth breaks off. -/
theorem kmalloc_failsUnchanged_iff {heap : Kheap} {blocks : List HeapBlock} {size : ℕ}
    {frames : List ℕ} (holds : heap.Holds heapStart blocks) (fresh : heap.FreshFrames frames) :
    FailsUnchanged heap size frames ↔ ¬ GrowthBreaksOff blocks size frames := by
  constructor
  · rintro unchanged ⟨nonzero, unfit, small, offered, short⟩
    have fails := (@requestMoreMemory_fails_iff heap _ _ frames).mpr (.inr ⟨small, short, rfl⟩)
    rcases holds.kmalloc_fails_iff.mpr (.inr ⟨nonzero, unfit, fails⟩) with ⟨fuel, returns⟩
    exact fresh.mapOnto_ne (List.ne_nil_of_length_pos offered) heap.heapCurrent
      (unchanged fuel _ returns)
  · intro whole fuel after returns
    rcases holds.kmalloc_fails_iff.mp ⟨fuel, returns⟩ with ⟨_, same⟩ | ⟨nonzero, unfit, fails⟩
    · exact same
    · rcases requestMoreMemory_fails_iff.mp fails with ⟨_, same⟩ | ⟨small, short, same⟩
      · exact same
      · have noFrame : frames = [] := by
          by_contra nonempty
          exact whole ⟨nonzero, unfit, small, List.length_pos_of_ne_nil nonempty, short⟩
        rw [same, noFrame]
        rfl

theorem kmalloc_failsUnchanged_filledHeap : ∃ heap : Kheap, heap.Tiles [⟨16, false⟩, ⟨4032, true⟩] ∧
    FailsUnchanged heap 5000 [] := by
  rcases filledHeap_exists with ⟨heap, tiles, _⟩
  refine ⟨heap, tiles,
    (kmalloc_failsUnchanged_iff tiles.holds ⟨by simp, by simp, by simp, by simp⟩).mpr ?_⟩
  rintro ⟨_, _, _, offered, _⟩
  exact absurd offered (by simp)

/-- With one frame left, a request for two pages fails and keeps the frame. -/
theorem kmalloc_keeps_frame : ∃ heap after : Kheap, ∃ fuel,
    heap.Tiles [⟨16, false⟩, ⟨4032, true⟩] ∧ heap.FreshFrames [0x2000] ∧
    kmalloc fuel heap 5000 [0x2000] = some (none, after) ∧
    heap.pages (Kheap.pageOf (heapStart + pageSizeVmm)) = none ∧
    after.pages (Kheap.pageOf (heapStart + pageSizeVmm)) = some 0x2000 ∧
    ¬ FailsUnchanged heap 5000 [0x2000] := by
  rcases filledHeap_exists with ⟨heap, tiles, current, fresh, _, pages⟩
  have oneFresh : heap.FreshFrames [0x2000] :=
    ⟨by simp, by simp, by simp [pageSizeVmm], fun frame mem => fresh.unused frame (by
      rw [List.mem_singleton] at mem
      simp [mem])⟩
  have unmapped : heap.pages (Kheap.pageOf (heapStart + pageSizeVmm)) = none := by
    rw [pages, if_neg (by decide)]
  have fails := (@requestMoreMemory_fails_iff heap _ (roundedSize 5000) [0x2000]).mpr
    (.inr ⟨by decide, by decide, rfl⟩)
  rcases tiles.holds.kmalloc_fails_iff.mpr (.inr ⟨by decide, by decide, fails⟩) with ⟨fuel, returns⟩
  have mapped : mapOnto heap.pages heap.heapCurrent [0x2000]
      (Kheap.pageOf (heapStart + pageSizeVmm)) = some 0x2000 := by
    rw [mapOnto_cons, current]
    exact Function.update_self _ _ _
  refine ⟨heap, _, fuel, tiles, oneFresh, returns, unmapped, mapped, ?_⟩
  intro unchanged
  exact oneFresh.mapOnto_ne (by simp) heap.heapCurrent (unchanged fuel _ returns)

end Goshkik

import Goshkik.Memory.KheapAlloc

/-!
# Sizes near the arithmetic limits

A request is rounded up to 16 bytes, extended by a header and rounded up to whole pages, all
in 64 bits.  Only the header addition is checked.  This file says exactly which requests are
served with the bytes they ask for, or refused.
-/

namespace Goshkik

/-! ## Clearing memory -/

namespace Kheap

/-- A store that returns changes one cell of the view. -/
theorem store_returns {heap after : Kheap} (separate : heap.Separate) {address word : ℕ}
    (stored : heap.store address word = some after) :
    after.view = heap.view.store address word ∧ heap.SameMaps after ∧ after.Separate := by
  have mapped : (heap.pages (pageOf address)).isSome := by
    rcases Option.map_eq_some_iff.mp stored with ⟨cell, physicalEq, _⟩
    rcases Option.map_eq_some_iff.mp physicalEq with ⟨frame, frameEq, _⟩
    simp [frameEq]
  rcases store_eq separate mapped word with
    ⟨other, otherStored, viewEq, pages, heapCurrent, freeList⟩
  rw [stored, Option.some.injEq] at otherStored
  subst otherStored
  have same : heap.SameMaps after := ⟨pages, heapCurrent, freeList⟩
  exact ⟨viewEq, same, same.separate separate⟩

theorem writeHeader_returns {heap after : Kheap} (separate : heap.Separate)
    {block size free next : ℕ}
    (written : writeHeader heap block size free next = some after) :
    after.view (blockSizeField block) = size ∧ heap.SameMaps after ∧ after.Separate := by
  simp only [writeHeader, Option.bind_eq_bind, Option.bind_eq_some_iff] at written
  rcases written with ⟨first, firstStored, second, secondStored, stored⟩
  rcases store_returns separate firstStored with ⟨firstView, firstSame, firstSeparate⟩
  rcases store_returns firstSeparate secondStored with ⟨secondView, secondSame, secondSeparate⟩
  rcases store_returns secondSeparate stored with ⟨viewEq, same, afterSeparate⟩
  refine ⟨?_, (firstSame.trans secondSame).trans same, afterSeparate⟩
  rw [viewEq, secondView, firstView]
  simp [blockSizeField, blockFreeField, blockNextField]

/-- `memset` on mapped memory writes the cells of its range and no others. -/
theorem memset_spec {heap : Kheap} (separate : heap.Separate) {address count : ℕ} (value : ℕ)
    (mapped : ∀ index < count, (heap.pages (pageOf ((address + index) % 2 ^ 64))).isSome) :
    ∃ after, memset heap address value count = some after ∧ heap.SameMaps after ∧
      ∀ cell, (∀ index < count, cell ≠ (address + index) % 2 ^ 64) →
        after.view cell = heap.view cell := by
  induction count generalizing heap address with
  | zero => exact ⟨heap, rfl, .refl heap, fun _ _ => rfl⟩
  | succ count ih =>
      rcases store_eq separate (mapped 0 (by omega)) value with
        ⟨first, stored, viewEq, pages, heapCurrent, freeList⟩
      have same : heap.SameMaps first := ⟨pages, heapCurrent, freeList⟩
      have rest : ∀ index < count,
          (first.pages (pageOf ((address + 1 + index) % 2 ^ 64))).isSome := by
        intro index inside
        rw [pages, Nat.add_assoc, Nat.add_comm 1]
        exact mapped (index + 1) (by omega)
      rcases ih (same.separate separate) rest with ⟨after, cleared, afterSame, kept⟩
      refine ⟨after, ?_, same.trans afterSame, ?_⟩
      · simp only [memset, Option.bind_eq_bind]
        rw [Nat.add_zero] at stored
        rw [stored, Option.bind_some, cleared]
      · intro cell outside
        rw [kept cell, viewEq, Cells.store_of_ne (outside 0 (by omega))]
        intro index inside
        rw [Nat.add_assoc, Nat.add_comm 1]
        exact outside (index + 1) (by omega)

end Kheap

/-! ## Requests and their blocks -/

/-- The states that the operations leave: the chain describes the blocks, and `heap_current`
is the start of the heap, as `init_kheap` leaves it, or the end of the chain. -/
structure Kheap.Usable (heap : Kheap) (blocks : List HeapBlock) : Prop where
  holds : heap.Holds heapStart blocks
  current : heap.heapCurrent = heapStart ∨ heap.heapCurrent = heapStart + span blocks
  pageAligned : pageSizeVmm ∣ heap.heapCurrent
  small : heap.heapCurrent < 2 ^ 64

/-- The block behind a pointer has a payload of the given size in mapped memory. -/
def Kheap.Backs (heap : Kheap) (pointer bytes : ℕ) : Prop :=
  bytes ≤ heap.view (blockSizeField ((pointer + 2 ^ 64 - sizeofBlockHeader) % 2 ^ 64)) ∧
    ∀ index < bytes, (heap.pages (Kheap.pageOf ((pointer + index) % 2 ^ 64))).isSome

/-- One of the roundings and additions leaves the range of `size_t`. -/
def Overflows (bytes : ℕ) : Prop :=
  2 ^ 64 ≤ bytes + 15 ∨ 2 ^ 64 ≤ sixteenfold bytes + sizeofBlockHeader ∨
    2 ^ 64 ≤ sixteenfold bytes + sizeofBlockHeader + (pageSizeVmm - 1)

/-- A call that asks for some bytes gets them, or null when their number is too large.  The call
is a function of its fuel. -/
def Honours (bytes : ℕ) (call : ℕ → Option (Option ℕ × Kheap)) : Prop :=
  (∀ fuel pointer after, call fuel = some (some pointer, after) → after.Backs pointer bytes) ∧
    (Overflows bytes → ∃ fuel after, call fuel = some (none, after))

/-- No addition wraps unnoticed: when the rounding to 16 bytes wraps there is no memory left,
and the rounding to pages does not wrap alone. -/
def SizeGuard (blocks : List HeapBlock) (frames : List ℕ) (bytes : ℕ) : Prop :=
  if bytes + 15 < 2 ^ 64 then
    2 ^ 64 ≤ sixteenfold bytes + sizeofBlockHeader ∨
      sixteenfold bytes + sizeofBlockHeader + (pageSizeVmm - 1) < 2 ^ 64
  else (∀ block ∈ blocks, block.free = false) ∧ frames = []

namespace Kheap.Usable

variable {heap after : Kheap} {blocks : List HeapBlock} {size pointer : ℕ} {frames : List ℕ}

/-- A growth that returns a block has mapped all of it. -/
theorem requestMoreMemory_backs (usable : heap.Usable blocks) (fresh : heap.FreshFrames frames)
    (small : size + sizeofBlockHeader + (pageSizeVmm - 1) < 2 ^ 64)
    (returns : requestMoreMemory heap size frames = some (some pointer, after)) :
    pointer = heap.heapCurrent + sizeofBlockHeader ∧ after.Separate ∧ after.Backs pointer size := by
  rcases totalSize_spec small with ⟨payload, _, whole⟩
  have headerSize : sizeofBlockHeader = 24 := rfl
  have currentSmall := usable.small
  have aligned := usable.pageAligned
  have totalSmall : totalSize size < 2 ^ 64 :=
    Nat.lt_of_le_of_lt Nat.and_le_left (Nat.mod_lt _ (by decide))
  generalize totalEq : totalSize size = total at *
  have notLarge : ¬ size > 2 ^ 64 - 1 - sizeofBlockHeader := by
    simp only [headerSize, pageSizeVmm] at small ⊢
    omega
  have notNull : heap.heapCurrent + sizeofBlockHeader < 2 ^ 64 := by
    simp only [headerSize, pageSizeVmm] at aligned ⊢
    omega
  simp only [requestMoreMemory, if_neg notLarge, totalEq, mapPages_eq] at returns
  by_cases enough : total / pageSizeVmm ≤ frames.length
  · simp only [enough, decide_true, Option.bind_eq_bind, Option.bind_eq_some_iff, Option.pure_def,
      Option.some.injEq, Prod.mk.injEq, Nat.mod_eq_of_lt notNull] at returns
    rcases returns with ⟨written, wrote, rfl, rfl⟩
    have separate := usable.holds.separate.mapOnto currentSmall fresh (total / pageSizeVmm)
    have grownSeparate : Kheap.Separate { heap with
        heapCurrent := (heap.heapCurrent + total) % 2 ^ 64,
        pages := mapOnto heap.pages heap.heapCurrent (frames.take (total / pageSizeVmm)) } :=
      ⟨separate.aligned, separate.injective⟩
    rcases Kheap.writeHeader_returns grownSeparate wrote with ⟨sizeEq, same, writtenSeparate⟩
    have header : (heap.heapCurrent + sizeofBlockHeader + 2 ^ 64 - sizeofBlockHeader) % 2 ^ 64 =
        heap.heapCurrent := by
      omega
    refine ⟨rfl, writtenSeparate, ?_, ?_⟩
    · rw [header, sizeEq]
      omega
    · intro index inside
      have length : (frames.take (total / pageSizeVmm)).length = total / pageSizeVmm := by
        simp [enough]
      have covered := @mapOnto_covers heap.pages heap.heapCurrent
        (frames.take (total / pageSizeVmm))
        currentSmall ((sizeofBlockHeader + index) / pageSizeVmm) (by
          rw [length]
          simp only [headerSize, pageSizeVmm] at whole payload ⊢
          omega)
      have page : (Kheap.pageOf heap.heapCurrent + (sizeofBlockHeader + index) / pageSizeVmm) % 2 ^
        52 =
          Kheap.pageOf ((heap.heapCurrent + sizeofBlockHeader + index) % 2 ^ 64) := by
        simp only [headerSize, Kheap.pageOf, pageSizeVmm] at aligned ⊢
        omega
      rw [page] at covered
      rw [same.pages]
      exact covered
  · simp [enough] at returns

/-- A block that `kmalloc` returns has the bytes asked for when no addition wraps. -/
theorem kmalloc_backs (usable : heap.Usable blocks) (fresh : heap.FreshFrames frames)
    (rounding : size + 15 < 2 ^ 64)
    (paging : sixteenfold size + sizeofBlockHeader + (pageSizeVmm - 1) < 2 ^ 64) {fuel : ℕ}
    (returns : kmalloc fuel heap size frames = some (some pointer, after)) :
    after.Separate ∧ after.Backs pointer size := by
  have rounded := roundedSize_eq rounding
  have headerSize : sizeofBlockHeader = 24 := rfl
  have least : size ≤ sixteenfold size := by
    unfold sixteenfold
    omega
  have nonzero : size ≠ 0 := by
    rintro rfl
    simp [kmalloc, kheapAlloc] at returns
  suffices backed : after.Separate ∧ after.Backs pointer (sixteenfold size) from
    ⟨backed.1, least.trans backed.2.1, fun index inside => backed.2.2 index (by omega)⟩
  rcases usable.holds.kheapAlloc_cases nonzero frames with
    ⟨before, block, behind, taken, split, fits, _, allocates, held, _⟩ |
    ⟨unfit, front, last, split, grows⟩ | empty
  · have more := kheapAlloc_mono returns (Nat.le_add_right fuel (before.length + 1))
    rw [allocates _ (by omega), Option.some.injEq, Prod.mk.injEq, Option.some.injEq] at more
    rcases more with ⟨rfl, rfl⟩
    rw [rounded] at fits held
    rcases block.allocated_eq_cons (sixteenfold size) with ⟨served, cut, allocated, _, _, large⟩
    rw [allocated, List.cons_append] at held
    rcases Chain.append_iff.mp held.chain with ⟨_, _, _, sizeEq, _⟩
    have bounded := held.bounded
    have inside := span_block_le before (cut ++ behind) served
    have enough := large fits.2
    have positive := held.positive
    have header : (heapStart + span before + sizeofBlockHeader + 2 ^ 64 - sizeofBlockHeader) % 2 ^
      64 =
        heapStart + span before := by
      omega
    refine ⟨held.separate, ?_, ?_⟩
    · rw [header, sizeEq]
      exact enough
    · intro index below
      rw [Nat.mod_eq_of_lt (by omega)]
      exact held.mapped _ (by omega) (by omega)
  · have more := kheapAlloc_mono returns (Nat.le_add_right fuel (front.length + 1))
    rw [grows _ (by omega), rounded] at more
    simp only [growHeap, Option.bind_eq_bind, Option.bind_eq_some_iff] at more
    rcases more with ⟨⟨result, grown⟩, requested, finishes⟩
    cases result with
    | none => simp at finishes
    | some result =>
        simp only [Option.bind_eq_some_iff, Option.pure_def, Option.some.injEq,
          Prod.mk.injEq] at finishes
        rcases finishes with ⟨linked, stored, rfl, rfl⟩
        rcases usable.requestMoreMemory_backs fresh paging requested with
          ⟨rfl, separate, large, mapped⟩
        rcases Kheap.store_returns separate stored with ⟨viewEq, same, linkedSeparate⟩
        have currentSmall := usable.small
        have header : (heap.heapCurrent + sizeofBlockHeader + 2 ^ 64 - sizeofBlockHeader) % 2 ^ 64 =
            heap.heapCurrent := by
          omega
        have elsewhere : heap.heapCurrent ≠ blockNextField (heapStart + span front) := by
          rcases usable.current with current | current
          · rw [current, blockNextField]
            omega
          · rw [current, split, span_append, blockNextField]
            simp only [span]
            omega
        refine ⟨linkedSeparate, ?_, ?_⟩
        · rw [header] at large ⊢
          rw [viewEq, blockSizeField, Cells.store_of_ne elsewhere]
          exact large
        · intro index below
          rw [same.pages]
          exact mapped index below
  · have list : heap.freeList = none := by
      have chain := usable.holds.chain
      rwa [empty] at chain
    simp only [kmalloc, kheapAlloc, if_neg nonzero, list, growHeap, Option.bind_eq_bind,
      Option.bind_eq_some_iff] at returns
    rcases returns with ⟨⟨result, grown⟩, _, finishes⟩
    cases result with
    | none => simp at finishes
    | some result => simp at finishes

/-- No block of the chain is as large as a request whose header addition wraps. -/
theorem unfit_of_large (usable : heap.Usable blocks) (large : 2 ^ 64 ≤ size + sizeofBlockHeader) :
    ∀ block ∈ blocks, ¬ block.Fits size := by
  intro block mem fits
  rcases List.append_of_mem mem with ⟨before, behind, rfl⟩
  have inside := span_block_le before behind block
  have bounded := usable.holds.bounded
  have fitting := fits.2
  simp only [heapStart, sizeofBlockHeader] at bounded inside large
  omega

/-- A request that is too large gets null exactly when no addition wraps unnoticed. -/
theorem refused_iff (usable : heap.Usable blocks) (sizeBound : size < 2 ^ 64)
    (overflows : Overflows size) :
    (∃ fuel after, kmalloc fuel heap size frames = some (none, after)) ↔
      SizeGuard blocks frames size := by
  have nonzero : size ≠ 0 := by
    rintro rfl
    exact absurd overflows (by unfold Overflows sixteenfold sizeofBlockHeader pageSizeVmm; omega)
  have fails : (∃ fuel after, kmalloc fuel heap size frames = some (none, after)) ↔
      (∀ block ∈ blocks, ¬ block.Fits (roundedSize size)) ∧
        ∃ after, requestMoreMemory heap (roundedSize size) frames = some (none, after) := by
    rw [exists_comm]
    simp only [usable.holds.kmalloc_fails_iff, nonzero, ne_eq, not_false_eq_true, true_and,
      false_and, false_or, exists_and_left]
  rw [fails]
  unfold SizeGuard
  by_cases rounding : size + 15 < 2 ^ 64
  · rw [if_pos rounding, roundedSize_eq rounding]
    by_cases headerWraps : 2 ^ 64 ≤ sixteenfold size + sizeofBlockHeader
    · refine iff_of_true ⟨usable.unfit_of_large headerWraps, heap, ?_⟩ (.inl headerWraps)
      refine requestMoreMemory_fails_iff.mpr (.inl ⟨?_, rfl⟩)
      simp only [sizeofBlockHeader] at headerWraps ⊢
      omega
    · have pageWraps : 2 ^ 64 ≤ sixteenfold size + sizeofBlockHeader + (pageSizeVmm - 1) := by
        rcases overflows with wraps | wraps | wraps
        · omega
        · exact absurd wraps headerWraps
        · exact wraps
      refine iff_of_false ?_ (by omega)
      rintro ⟨_, after, refused⟩
      rcases requestMoreMemory_fails_iff.mp refused with ⟨isLarge, _⟩ | ⟨_, short, _⟩
      · simp only [sizeofBlockHeader] at headerWraps isLarge
        omega
      · rw [totalSize_wraps (by omega) pageWraps] at short
        simp at short
  · rw [if_neg rounding, roundedSize_wraps sizeBound (by omega)]
    have onePage : totalSize 0 / pageSizeVmm = 1 := by
      decide
    have unfitIff : (∀ block ∈ blocks, ¬ block.Fits 0) ↔ ∀ block ∈ blocks, block.free = false := by
      simp [HeapBlock.Fits]
    have failsIff : (∃ after, requestMoreMemory heap 0 frames = some (none, after)) ↔
        frames = [] := by
      simp only [requestMoreMemory_fails_iff, onePage]
      constructor
      · rintro ⟨after, ⟨isLarge, _⟩ | ⟨_, short, _⟩⟩
        · exact absurd isLarge (by decide)
        · exact List.length_eq_zero_iff.mp (by omega)
      · rintro rfl
        exact ⟨_, .inr ⟨by decide, by decide, rfl⟩⟩
    rw [unfitIff, failsIff]

/-- Inside the guard, a block that `kmalloc` returns has the bytes asked for. -/
theorem guarded_backs (usable : heap.Usable blocks) (fresh : heap.FreshFrames frames)
    (sizeBound : size < 2 ^ 64) (guard : SizeGuard blocks frames size) {fuel : ℕ}
    (returns : kmalloc fuel heap size frames = some (some pointer, after)) :
    size + sizeofBlockHeader < 2 ^ 64 ∧ after.Separate ∧ after.Backs pointer size := by
  by_cases overflows : Overflows size
  · rcases (usable.refused_iff sizeBound overflows).mpr guard with ⟨other, otherAfter, refused⟩
    have more := kheapAlloc_mono returns (Nat.le_add_right fuel other)
    have otherMore := kheapAlloc_mono refused (Nat.le_add_left other fuel)
    rw [more] at otherMore
    exact absurd (congrArg Prod.fst (Option.some.inj otherMore)) (by simp)
  · simp only [Overflows, not_or, Nat.not_le] at overflows
    refine ⟨?_, usable.kmalloc_backs fresh overflows.1 overflows.2.2 returns⟩
    have fits := overflows.2.1
    unfold sixteenfold at fits
    omega

theorem sizeGuard_of_not_overflows (fits : ¬ Overflows size) : SizeGuard blocks frames size := by
  simp only [Overflows, not_or, Nat.not_le] at fits
  rw [SizeGuard, if_pos fits.1]
  exact .inr fits.2.2

theorem kmalloc_honours_iff (usable : heap.Usable blocks) (fresh : heap.FreshFrames frames)
    (sizeBound : size < 2 ^ 64) :
    Honours size (fun fuel => kmalloc fuel heap size frames) ↔ SizeGuard blocks frames size := by
  constructor
  · rintro ⟨_, refuses⟩
    by_cases overflows : Overflows size
    · exact (usable.refused_iff sizeBound overflows).mp (refuses overflows)
    · exact sizeGuard_of_not_overflows overflows
  · intro guard
    exact ⟨fun _ _ _ returns => (usable.guarded_backs fresh sizeBound guard returns).2.2,
      fun overflows => (usable.refused_iff sizeBound overflows).mpr guard⟩

end Kheap.Usable

/-! ## kzalloc and kcalloc -/

section Cleared

variable {heap after : Kheap} {fuel size pointer count : ℕ} {frames : List ℕ}

theorem kzalloc_null_iff :
    kzalloc fuel heap size frames = some (none, after) ↔
      kmalloc fuel heap size frames = some (none, after) := by
  simp only [kzalloc, Option.bind_eq_bind, Option.bind_eq_some_iff]
  constructor
  · rintro ⟨⟨result, middle⟩, returns, finishes⟩
    cases result with
    | none =>
        simp only [Option.pure_def, Option.some.injEq, Prod.mk.injEq, true_and] at finishes
        rwa [finishes] at returns
    | some result => simp [Option.bind_eq_some_iff] at finishes
  · exact fun returns => ⟨_, returns, rfl⟩

theorem kzalloc_returns (returns : kzalloc fuel heap size frames = some (some pointer, after)) :
    ∃ middle, kmalloc fuel heap size frames = some (some pointer, middle) ∧
      memset middle pointer 0 size = some after := by
  simp only [kzalloc, Option.bind_eq_bind, Option.bind_eq_some_iff] at returns
  rcases returns with ⟨⟨result, middle⟩, returned, finishes⟩
  cases result with
  | none => simp at finishes
  | some result =>
      simp only [Option.bind_eq_some_iff, Option.pure_def, Option.some.injEq,
        Prod.mk.injEq] at finishes
      rcases finishes with ⟨cleared, clears, rfl, rfl⟩
      exact ⟨middle, returned, clears⟩

/-- Clearing a payload keeps its size. -/
theorem Kheap.Backs.memset {middle : Kheap} (separate : middle.Separate)
    (backs : middle.Backs pointer size) (small : size + sizeofBlockHeader < 2 ^ 64)
    (clears : Goshkik.memset middle pointer 0 size = some after) : after.Backs pointer size := by
  rcases Kheap.memset_spec separate 0 backs.2 with ⟨cleared, clears', same, kept⟩
  rw [clears, Option.some.injEq] at clears'
  subst clears'
  refine ⟨?_, fun index inside => same.pages ▸ backs.2 index inside⟩
  rw [kept]
  · exact backs.1
  · intro index inside
    have headerSize : sizeofBlockHeader = 24 := rfl
    rw [blockSizeField]
    omega

theorem kzalloc_honours_iff {blocks : List HeapBlock} (usable : heap.Usable blocks)
    (fresh : heap.FreshFrames frames) (sizeBound : size < 2 ^ 64) :
    Honours size (fun fuel => kzalloc fuel heap size frames) ↔ SizeGuard blocks frames size := by
  constructor
  · rintro ⟨_, refuses⟩
    by_cases overflows : Overflows size
    · rcases refuses overflows with ⟨fuel, after, refused⟩
      exact (usable.refused_iff sizeBound overflows).mp ⟨fuel, after, kzalloc_null_iff.mp refused⟩
    · exact Kheap.Usable.sizeGuard_of_not_overflows overflows
  · intro guard
    refine ⟨?_, ?_⟩
    · intro fuel pointer after returns
      rcases kzalloc_returns returns with ⟨middle, returned, clears⟩
      rcases usable.guarded_backs fresh sizeBound guard returned with ⟨small, separate, backs⟩
      exact backs.memset separate small clears
    · intro overflows
      rcases (usable.refused_iff sizeBound overflows).mpr guard with ⟨fuel, after, refused⟩
      exact ⟨fuel, after, kzalloc_null_iff.mpr refused⟩

/-- The check of `kcalloc` finds exactly the products that do not fit. -/
theorem kcalloc_eq : kcalloc fuel heap count size frames =
    if count * size < 2 ^ 64 then kzalloc fuel heap (count * size) frames
      else some (none, heap) := by
  have check : (count ≠ 0 ∧ size ≠ 0 ∧ count > (2 ^ 64 - 1) / size) ↔ ¬ count * size < 2 ^ 64 := by
    rcases Nat.eq_zero_or_pos size with rfl | positive
    · simp
    · rw [gt_iff_lt, Nat.div_lt_iff_lt_mul positive]
      constructor
      · rintro ⟨_, _, large⟩
        omega
      · intro large
        refine ⟨?_, by omega, by omega⟩
        rintro rfl
        simp at large
  unfold kcalloc
  by_cases fits : count * size < 2 ^ 64
  · rw [if_neg (fun large => check.mp large fits), if_pos fits, Nat.mod_eq_of_lt fits]
  · rw [if_pos (check.mpr fits), if_neg fits]

end Cleared

/-- The three allocation functions honour the size of a request exactly when the rounding to 16
bytes does not wrap while there is memory left, and the rounding to pages does not wrap. -/
theorem allocation_sizes_iff {heap : Kheap} {blocks : List HeapBlock} {frames : List ℕ}
    {size count : ℕ} (usable : heap.Usable blocks) (fresh : heap.FreshFrames frames)
    (sizeBound : size < 2 ^ 64) :
    (Honours size (fun fuel => kmalloc fuel heap size frames) ↔ SizeGuard blocks frames size) ∧
    (Honours size (fun fuel => kzalloc fuel heap size frames) ↔ SizeGuard blocks frames size) ∧
    (Honours (count * size) (fun fuel => kcalloc fuel heap count size frames) ↔
      (count * size < 2 ^ 64 → SizeGuard blocks frames (count * size))) := by
  refine ⟨usable.kmalloc_honours_iff fresh sizeBound, kzalloc_honours_iff usable fresh sizeBound,
    ?_⟩
  simp only [kcalloc_eq]
  by_cases fits : count * size < 2 ^ 64
  · simp only [fits, if_true, true_implies]
    exact kzalloc_honours_iff usable fresh fits
  · simp only [fits, if_false, false_implies, iff_true]
    exact ⟨fun _ _ _ returns => by simp at returns, fun _ => ⟨0, heap, rfl⟩⟩

theorem usableHeap_exists : ∃ heap : Kheap, heap.Usable [⟨16, false⟩, ⟨4032, true⟩] ∧
    heap.FreshFrames [0x2000, 0x3000] := by
  rcases filledHeap_exists with ⟨heap, tiles, current, fresh, _⟩
  exact ⟨heap, ⟨tiles.holds, .inr tiles.extent, tiles.pageAligned, by rw [current]; decide⟩, fresh⟩

theorem allocation_sizes_usableHeap : ∃ heap : Kheap, heap.Usable [⟨16, false⟩, ⟨4032, true⟩] ∧
    Honours 5000 (fun fuel => kmalloc fuel heap 5000 [0x2000, 0x3000]) ∧
    Honours (10 * 5000) (fun fuel => kcalloc fuel heap 10 5000 [0x2000, 0x3000]) := by
  rcases usableHeap_exists with ⟨heap, usable, fresh⟩
  have sizes := @allocation_sizes_iff heap _ _ 5000 10 usable fresh (by decide)
  refine ⟨heap, usable, sizes.1.mpr ?_, sizes.2.2.mpr fun _ => ?_⟩
  · rw [SizeGuard, if_pos (by decide)]
    exact .inr (by decide)
  · rw [SizeGuard, if_pos (by decide)]
    exact .inr (by decide)

/-- The largest request is rounded to zero and gets a free block. -/
theorem kmalloc_serves_largest : ∃ heap after : Kheap, ∃ fuel pointer,
    heap.Usable [⟨16, false⟩, ⟨4032, true⟩] ∧
    kmalloc fuel heap (2 ^ 64 - 1) [] = some (some pointer, after) ∧ Overflows (2 ^ 64 - 1) ∧
    ¬ Honours (2 ^ 64 - 1) (fun fuel => kmalloc fuel heap (2 ^ 64 - 1) []) := by
  rcases usableHeap_exists with ⟨heap, usable, _⟩
  have overflows : Overflows (2 ^ 64 - 1) := .inl (by decide)
  have noFrames : heap.FreshFrames [] := ⟨by simp, by simp, by simp, by simp⟩
  have dishonoured : ¬ Honours (2 ^ 64 - 1) (fun fuel => kmalloc fuel heap (2 ^ 64 - 1) []) := by
    rw [usable.kmalloc_honours_iff noFrames (by decide), SizeGuard, if_neg (by decide)]
    rintro ⟨used, _⟩
    exact absurd (used ⟨4032, true⟩ (by simp)) (by decide)
  rcases usable.holds.kheapAlloc_cases (show 2 ^ 64 - 1 ≠ 0 by decide) [] with
    ⟨before, _, _, after, _, _, _, allocates, _⟩ | ⟨unfit, _⟩ | empty
  · exact ⟨heap, after, before.length + 1, _, usable, allocates _ (Nat.lt_succ_self _), overflows,
      dishonoured⟩
  · rw [roundedSize_wraps (by decide) (by decide)] at unfit
    exact absurd ⟨rfl, Nat.zero_le _⟩ (unfit ⟨4032, true⟩ (by simp))
  · simp at empty

end Goshkik

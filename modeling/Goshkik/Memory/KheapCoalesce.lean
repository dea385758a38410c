import Goshkik.Memory.KheapInvariant

/-!
# Freeing and coalescing

`kheap_free` marks one block as free and merges the free runs of the whole chain in one
pass.  This file says what the pass leaves of a chain, and that it undoes an allocation
from a chain that was merged before.
-/

namespace Goshkik

/-- No free block is followed by a free block. -/
def Coalesced (blocks : List HeapBlock) : Prop :=
  blocks.IsChain (fun block next => ¬(block.free = true ∧ next.free = true))

/-! ## What the merging loop leaves -/

theorem mergeOnto_head (current : HeapBlock) (rest : List HeapBlock) :
    ∃ head behind, mergeOnto current rest = head :: behind ∧ head.free = current.free := by
  induction rest generalizing current with
  | nil => exact ⟨current, [], rfl, rfl⟩
  | cons next rest ih =>
      simp only [mergeOnto]
      split
      · rename_i both
        rcases ih ⟨current.size + (sizeofBlockHeader + next.size), true⟩ with
          ⟨head, behind, isList, sameFlag⟩
        exact ⟨head, behind, isList, sameFlag.trans both.1.symm⟩
      · exact ⟨current, mergeOnto next rest, rfl, rfl⟩

theorem mergeOnto_coalesced (current : HeapBlock) (rest : List HeapBlock) :
    Coalesced (mergeOnto current rest) := by
  induction rest generalizing current with
  | nil => exact .singleton current
  | cons next rest ih =>
      simp only [mergeOnto]
      split
      · exact ih _
      · rename_i apart
        rcases mergeOnto_head next rest with ⟨head, behind, isList, sameFlag⟩
        have coalesced := ih next
        rw [isList] at coalesced ⊢
        unfold Coalesced
        rw [List.isChain_cons_cons, sameFlag]
        exact ⟨apart, coalesced⟩

theorem mergeFree_coalesced (blocks : List HeapBlock) : Coalesced (mergeFree blocks) := by
  cases blocks with
  | nil => exact .nil
  | cons block blocks => exact mergeOnto_coalesced block blocks

theorem span_mergeFree (blocks : List HeapBlock) : span (mergeFree blocks) = span blocks := by
  cases blocks with
  | nil => rfl
  | cons block blocks => exact span_mergeOnto block blocks

/-- A chain without neighbouring free blocks stays as it is. -/
theorem mergeFree_of_coalesced {blocks : List HeapBlock} (coalesced : Coalesced blocks) :
    mergeFree blocks = blocks := by
  cases blocks with
  | nil => rfl
  | cons block blocks =>
      induction blocks generalizing block with
      | nil => rfl
      | cons next blocks ih =>
          unfold Coalesced at coalesced
          rw [List.isChain_cons_cons] at coalesced
          simp only [mergeFree, mergeOnto, if_neg coalesced.1]
          exact congrArg (block :: ·) (ih next coalesced.2)

/-- Two neighbouring free blocks count as the block they are merged to. -/
theorem mergeOnto_absorb (current : HeapBlock) (before behind : List HeapBlock) (size rest : ℕ) :
    mergeOnto current (before ++ ⟨size, true⟩ :: ⟨rest, true⟩ :: behind) =
      mergeOnto current (before ++ ⟨size + (sizeofBlockHeader + rest), true⟩ :: behind) := by
  induction before generalizing current with
  | nil =>
      by_cases isFree : current.free = true
      · simp [mergeOnto, isFree, Nat.add_assoc]
      · simp [mergeOnto, isFree]
  | cons block before ih =>
      simp only [List.cons_append, mergeOnto]
      split
      · exact ih _
      · exact congrArg (current :: ·) (ih block)

theorem mergeFree_absorb (before behind : List HeapBlock) (size rest : ℕ) :
    mergeFree (before ++ ⟨size, true⟩ :: ⟨rest, true⟩ :: behind) =
      mergeFree (before ++ ⟨size + (sizeofBlockHeader + rest), true⟩ :: behind) := by
  cases before with
  | nil => simp [mergeFree, mergeOnto]
  | cons block before => exact mergeOnto_absorb block before behind size rest

/-- Freeing what a request got gives the block back that served it. -/
theorem mergeFree_allocated {before behind : List HeapBlock} {block : HeapBlock} {size : ℕ}
    (isFree : block.free = true) (coalesced : Coalesced (before ++ block :: behind))
    {served : HeapBlock} {cut : List HeapBlock} (allocated : block.allocated size = served :: cut) :
    mergeFree (before ++ ⟨served.size, true⟩ :: (cut ++ behind)) = before ++ block :: behind := by
  unfold HeapBlock.allocated at allocated
  split at allocated
  · rcases List.cons.inj allocated with ⟨rfl, rfl⟩
    have same : (⟨block.size, true⟩ : HeapBlock) = block := by
      rw [← isFree]
    rw [List.nil_append, same]
    exact mergeFree_of_coalesced coalesced
  · rename_i room
    rcases List.cons.inj allocated with ⟨rfl, rfl⟩
    have whole : size + (sizeofBlockHeader + (block.size - size - sizeofBlockHeader)) =
        block.size := by
      omega
    have same : (⟨block.size, true⟩ : HeapBlock) = block := by
      rw [← isFree]
    rw [List.singleton_append, mergeFree_absorb, whole, same]
    exact mergeFree_of_coalesced coalesced

theorem HeapBlock.allocated_eq_cons (block : HeapBlock) (size : ℕ) :
    ∃ served cut, block.allocated size = served :: cut ∧ served.free = false ∧ cut.length ≤ 1 ∧
      (size ≤ block.size → size ≤ served.size) := by
  unfold HeapBlock.allocated
  split
  · exact ⟨_, _, rfl, rfl, by simp, fun fits => fits⟩
  · exact ⟨_, _, rfl, rfl, by simp, fun _ => Nat.le_refl size⟩

/-! ## kfree -/

/-- `kfree` of a live block ends, merges every run of free blocks and leaves the used blocks
and the range of the chain alone. -/
theorem kfree_coalesces {heap : Kheap} {start pointer size : ℕ} {blocks : List HeapBlock}
    (holds : heap.Holds start blocks) (isLive : (pointer, size) ∈ usedBlocks start blocks) :
    ∃ after blocks', (∀ fuel, blocks.length < fuel → kfree fuel heap (some pointer) = some after) ∧
      after.Holds start blocks' ∧ heap.SameMaps after ∧ span blocks' = span blocks ∧
      Coalesced blocks' ∧
      ∀ payload payloadSize, (payload, payloadSize) ∈ usedBlocks start blocks' ↔
        (payload, payloadSize) ∈ usedBlocks start blocks ∧ payload ≠ pointer := by
  rcases mem_usedBlocks isLive with ⟨before, behind, rfl, rfl⟩
  rcases holds.kheapFree_spec with ⟨after, frees, held, same⟩
  refine ⟨after, _, ?_, held, same, ?_, mergeFree_coalesced _, ?_⟩
  · intro fuel enough
    apply frees
    simp only [List.length_append, List.length_cons] at enough
    omega
  · rw [span_mergeFree]
    simp only [span_append, span]
  · intro payload payloadSize
    rw [usedBlocks_mergeFree]
    exact mem_usedBlocks_freed payload payloadSize

/-- A heap on one page that has served a request for 16 bytes. -/
theorem servedHeap_exists : ∃ heap : Kheap, heap.Holds heapStart [⟨16, false⟩, ⟨4032, true⟩] ∧
    ∀ page, heap.pages page = if page = Kheap.pageOf heapStart then some 0x1000 else none := by
  have fresh : (Kheap.boot (fun _ => 0)).FreshFrames [0x1000] :=
    ⟨by simp, by simp, by simp [pageSizeVmm], by simp [Kheap.boot]⟩
  have initialised : (initKheap (Kheap.boot (fun _ => 0)) 0x1000).isSome := by
    decide +kernel
  rcases Option.isSome_iff_exists.mp initialised with ⟨⟨size, first⟩, isFirst⟩
  rcases initKheap_invariant fresh isFirst with ⟨invariant, pages⟩
  have holds := invariant.holds
  have served : HeapBlock.allocated ⟨pageSizeVmm - sizeofBlockHeader, true⟩ 16 =
      [⟨16, false⟩, ⟨4032, true⟩] := by
    decide
  rcases @Kheap.Holds.takeBlock_spec first heapStart [] [] _ holds 16 (by decide) with
    ⟨after, _, held, same⟩
  rw [served] at held
  exact ⟨after, held, by simpa only [same.pages] using pages⟩

theorem kfree_coalesces_servedHeap : ∃ heap after : Kheap, ∃ blocks,
    heap.Holds heapStart [⟨16, false⟩, ⟨4032, true⟩] ∧
      kfree 3 heap (some (heapStart + 24)) = some after ∧ after.Holds heapStart blocks ∧
      span blocks = 4096 ∧ Coalesced blocks := by
  rcases servedHeap_exists with ⟨heap, holds, _⟩
  rcases kfree_coalesces holds
    (show (heapStart + 24, 16) ∈ usedBlocks heapStart [⟨16, false⟩, ⟨4032, true⟩] by decide) with
    ⟨after, blocks, frees, held, _, sameSpan, coalesced, _⟩
  exact ⟨heap, after, blocks, holds, frees 3 (by decide), held, sameSpan, coalesced⟩

/-- `kfree` of what `kmalloc` has handed out from a free block restores the chain. -/
theorem kfree_kmalloc {heap : Kheap} {start size : ℕ} {blocks : List HeapBlock} {frames : List ℕ}
    (holds : heap.Holds start blocks) (coalesced : Coalesced blocks)
    (fits : ∃ block ∈ blocks, block.Fits (roundedSize size)) :
    ∃ pointer middle after,
      (∀ fuel, blocks.length < fuel → kmalloc fuel heap size frames = some (pointer, middle)) ∧
      (∀ fuel, blocks.length + 1 < fuel → kfree fuel middle pointer = some after) ∧
      (size ≠ 0 → pointer ≠ none) ∧ after.Holds start blocks ∧ heap.SameMaps after := by
  by_cases zero : size = 0
  · subst zero
    exact ⟨none, heap, heap, fun _ _ => rfl, fun _ _ => rfl, by simp, holds, .refl heap⟩
  rcases holds.kheapAlloc_cases zero frames with
    ⟨before, block, behind, middle, rfl, fitting, _, allocates, held, same⟩ | ⟨unfit, _⟩ | empty
  · rcases block.allocated_eq_cons (roundedSize size) with ⟨served, cut, allocated, _, short, _⟩
    rw [allocated, List.cons_append] at held
    rcases held.kheapFree_spec with ⟨after, frees, restored, sameAfter⟩
    rw [mergeFree_allocated fitting.1 coalesced allocated] at restored
    refine ⟨some (start + span before + sizeofBlockHeader), middle, after, ?_, ?_, by simp,
      restored,
      same.trans sameAfter⟩
    · intro fuel enough
      apply allocates
      simp only [List.length_append, List.length_cons] at enough
      omega
    · intro fuel enough
      apply frees
      simp only [List.length_append, List.length_cons] at enough ⊢
      omega
  · rcases fits with ⟨block, mem, fitting⟩
    exact absurd fitting (unfit block mem)
  · rcases fits with ⟨block, mem, _⟩
    rw [empty] at mem
    cases mem

theorem kfree_kmalloc_servedHeap : ∃ heap middle after : Kheap, ∃ pointer,
    heap.Holds heapStart [⟨16, false⟩, ⟨4032, true⟩] ∧
      kmalloc 3 heap 100 [] = some (some pointer, middle) ∧
      kfree 4 middle (some pointer) = some after ∧
      after.Holds heapStart [⟨16, false⟩, ⟨4032, true⟩] := by
  rcases servedHeap_exists with ⟨heap, holds, _⟩
  have coalesced : Coalesced [⟨16, false⟩, ⟨4032, true⟩] := by
    simp [Coalesced]
  rcases @kfree_kmalloc heap heapStart 100 _ [] holds coalesced
    ⟨⟨4032, true⟩, by simp, by decide⟩ with
    ⟨pointer, middle, after, allocates, frees, nonnull, held, _⟩
  rcases Option.ne_none_iff_exists'.mp (nonnull (by decide)) with ⟨address, rfl⟩
  exact ⟨heap, middle, after, address, holds, allocates 3 (by decide), frees 4 (by decide), held⟩

end Goshkik

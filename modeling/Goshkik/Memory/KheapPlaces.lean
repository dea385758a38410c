import Goshkik.Memory.KernelMemory
import Goshkik.Memory.KheapGrowing

/-!
# Where the heap lies

Callers may have overwritten the headers of the heap.  Still a call of `kmalloc` only maps pages
from `heap_current` on, and what it returns lies behind a header field in a page that the heap has
mapped or behind `heap_current`.
-/

namespace Goshkik

namespace Kheap

/-- What a call that asks for a number of pages does to the heap. -/
structure GrowsBy (heap after : Kheap) (count : ℕ) (answer : Option ℕ) : Prop where
  pages : ∀ page, after.pages page ≠ none → heap.pages page ≠ none ∨
    ∃ j < count, page = pageOf (heap.heapCurrent + j * pageSizeVmm)
  heapCurrent : after.heapCurrent = heap.heapCurrent ∨
    after.heapCurrent = heap.heapCurrent + count * pageSizeVmm
  answer : ∀ pointer, answer = some pointer →
    (∃ block, heap.physical (blockFreeField block) ≠ none ∧ pointer = block + sizeofBlockHeader) ∨
      pointer = (heap.heapCurrent + sizeofBlockHeader) % 2 ^ 64

variable {heap middle after : Kheap} {count size fuel : ℕ} {answer : Option ℕ} {frames : List ℕ}

theorem GrowsBy.none_of_sameMaps (same : heap.SameMaps after) (count : ℕ) :
    heap.GrowsBy after count none := by
  refine ⟨fun page mapped => .inl ?_, .inl same.heapCurrent,
    fun _ found => absurd found.symm (Option.some_ne_none _)⟩
  rwa [← same.pages]

theorem GrowsBy.sameMaps (grows : heap.GrowsBy middle count answer) (same : middle.SameMaps after) :
    heap.GrowsBy after count answer :=
  ⟨fun page mapped => grows.pages page (same.pages ▸ mapped), same.heapCurrent ▸ grows.heapCurrent,
    grows.answer⟩

/-! ## Stores -/

theorem SameMaps.of_store {address word : ℕ} (stores : heap.store address word = some after) :
    heap.SameMaps after := by
  rcases Option.map_eq_some_iff.mp stores with ⟨cell, _, rfl⟩
  exact ⟨rfl, rfl, rfl⟩

theorem SameMaps.of_writeHeader {block size free next : ℕ}
    (writes : writeHeader heap block size free next = some after) : heap.SameMaps after := by
  simp only [writeHeader, Option.bind_eq_bind, Option.bind_eq_some_iff] at writes
  rcases writes with ⟨first, storesSize, second, storesFree, storesNext⟩
  exact ((of_store storesSize).trans (of_store storesFree)).trans (of_store storesNext)

theorem SameMaps.of_splitBlock {block : ℕ} (splits : splitBlock heap block size = some after) :
    heap.SameMaps after := by
  simp only [splitBlock, Option.bind_eq_bind, Option.bind_eq_some_iff] at splits
  rcases splits with ⟨blockSize, _, splits⟩
  split at splits
  · cases splits
    exact .refl heap
  · simp only [Option.bind_eq_some_iff] at splits
    rcases splits with ⟨first, storesSize, second, storesFree, next, _, third, storesNext, fourth,
      storesBlock, storesLink⟩
    have header := ((of_store storesSize).trans (of_store storesFree)).trans (of_store storesNext)
    exact (header.trans (of_store storesBlock)).trans (of_store storesLink)

/-! ## The search -/

/-- A block that is found has been looked at. -/
theorem physical_of_findBlock {first block : ℕ}
    (finds : findBlock heap size fuel first = some (true, block)) :
    heap.physical (blockFreeField block) ≠ none := by
  induction fuel generalizing first with
  | zero => cases finds
  | succ fuel hypothesis =>
      simp only [findBlock, Option.bind_eq_bind, Option.bind_eq_some_iff] at finds
      rcases finds with ⟨free, loads, blockSize, _, finds⟩
      split at finds
      · cases finds
        rcases Option.map_eq_some_iff.mp loads with ⟨cell, isCell, _⟩
        simp [isCell]
      · simp only [Option.bind_eq_some_iff] at finds
        rcases finds with ⟨next, _, finds⟩
        cases next with
        | none => cases finds
        | some next => exact hypothesis finds

theorem takeBlock_growsBy {block : ℕ} (mapped : heap.physical (blockFreeField block) ≠ none)
    (takes : takeBlock heap block size = some (answer, after)) (count : ℕ) :
    heap.GrowsBy after count answer := by
  simp only [takeBlock, Option.bind_eq_bind, Option.bind_eq_some_iff, pure, Option.some.injEq,
    Prod.mk.injEq] at takes
  rcases takes with ⟨splitHeap, splits, stored, stores, rfl, rfl⟩
  have same := (SameMaps.of_splitBlock splits).trans (SameMaps.of_store stores)
  have unchanged := GrowsBy.none_of_sameMaps same count
  refine ⟨unchanged.pages, unchanged.heapCurrent, ?_⟩
  rintro pointer ⟨⟩
  exact .inl ⟨block, mapped, rfl⟩

/-! ## The growth -/

/-- How many pages a growth maps. -/
def growthPages (size : ℕ) : ℕ :=
  if size > 2 ^ 64 - 1 - sizeofBlockHeader then 0 else totalSize size / pageSizeVmm

theorem requestMoreMemory_growsBy
    (room : heap.heapCurrent + growthPages size * pageSizeVmm < 2 ^ 64)
    (requests : requestMoreMemory heap size frames = some (answer, after)) :
    heap.GrowsBy after (growthPages size) answer := by
  unfold requestMoreMemory at requests
  unfold growthPages at room ⊢
  split at requests
  · rename_i large
    cases requests
    exact .none_of_sameMaps (.refl heap) _
  · rename_i notLarge
    rw [if_neg notLarge] at room ⊢
    simp only [mapPages_eq] at requests
    have onto : ∀ page, mapOnto heap.pages heap.heapCurrent
        (frames.take (totalSize size / pageSizeVmm)) page ≠ none → heap.pages page ≠ none ∨
          ∃ j < totalSize size / pageSizeVmm,
            page = pageOf (heap.heapCurrent + j * pageSizeVmm) := by
      intro page mapped
      rcases Option.ne_none_iff_exists'.mp mapped with ⟨frame, isFrame⟩
      rcases mapOnto_cases (Nat.lt_of_le_of_lt (Nat.le_add_right _ _) room) isFrame with
        ⟨j, isTaken, isPage⟩ | before
      · have inside := (List.getElem?_eq_some_iff.mp isTaken).1
        rw [List.length_take] at inside
        have small : j < totalSize size / pageSizeVmm := by omega
        refine .inr ⟨j, small, ?_⟩
        rw [isPage]
        simp only [pageOf, pageSizeVmm] at room small ⊢
        omega
      · exact .inl (by simp [before])
    split at requests
    · rename_i mapped maps
      simp only [Prod.mk.injEq] at maps
      rcases maps with ⟨_, rfl⟩
      cases requests
      exact ⟨onto, .inl rfl, fun _ found => absurd found.symm (Option.some_ne_none _)⟩
    · rename_i mapped maps
      simp only [Prod.mk.injEq] at maps
      rcases maps with ⟨_, rfl⟩
      simp only [Option.bind_eq_bind, Option.bind_eq_some_iff, pure, Option.some.injEq,
        Prod.mk.injEq] at requests
      rcases requests with ⟨written, writes, rfl, rfl⟩
      refine GrowsBy.sameMaps ⟨onto, .inr ?_, ?_⟩ (.of_writeHeader writes)
      · rw [totalSize_whole] at room ⊢
        exact Nat.mod_eq_of_lt room
      · rintro pointer ⟨⟩
        exact .inr rfl

theorem growHeap_growsBy {last : Option ℕ}
    (room : heap.heapCurrent + growthPages size * pageSizeVmm < 2 ^ 64)
    (grows : growHeap heap last size frames = some (answer, after)) :
    heap.GrowsBy after (growthPages size) answer := by
  simp only [growHeap, Option.bind_eq_bind, Option.bind_eq_some_iff, Prod.exists] at grows
  rcases grows with ⟨newBlock, requested, requests, grows⟩
  have maps := requestMoreMemory_growsBy room requests
  cases newBlock with
  | none =>
      cases grows
      exact maps
  | some newBlock =>
      cases last with
      | none => cases grows
      | some last =>
          simp only [Option.bind_eq_some_iff, pure, Option.some.injEq, Prod.mk.injEq] at grows
          rcases grows with ⟨linked, stores, rfl, rfl⟩
          exact maps.sameMaps (.of_store stores)

/-- What `kmalloc` does, whatever the headers say. -/
theorem kmalloc_growsBy
    (room : heap.heapCurrent + heap.pagesWanted fuel size * pageSizeVmm < 2 ^ 64)
    (returns : kmalloc fuel heap size frames = some (answer, after)) :
    heap.GrowsBy after (heap.pagesWanted fuel size) answer := by
  simp only [kmalloc, kheapAlloc] at returns
  simp only [pagesWanted] at room ⊢
  split at returns
  · cases returns
    exact .none_of_sameMaps (.refl heap) _
  · rename_i nonzero
    rw [if_neg nonzero] at room ⊢
    cases isFirst : heap.freeList with
    | none =>
        simp only [isFirst] at returns room ⊢
        exact growHeap_growsBy room returns
    | some first =>
        simp only [isFirst] at returns room ⊢
        cases finds : findBlock heap (roundedSize size) fuel first with
        | none => simp [finds] at returns
        | some found =>
            rcases found with ⟨fits, block⟩
            simp only [finds, Option.bind_eq_bind, Option.bind_some] at returns room ⊢
            cases fits with
            | true => exact takeBlock_growsBy (physical_of_findBlock finds) returns _
            | false => exact growHeap_growsBy room returns

/-! ## The upper half -/

/-- The heap has mapped nothing below its start. -/
structure Upper (heap : Kheap) : Prop where
  heapCurrent : heapStart ≤ heap.heapCurrent
  pages : ∀ page, heap.pages page ≠ none → pageOf heapStart ≤ page

/-- A block of the size would end inside the address space, wherever the heap has it. -/
def Accommodates (heap : Kheap) (size : ℕ) : Prop :=
  heap.heapCurrent + sizeofBlockHeader + size ≤ 2 ^ 64 ∧
    ∀ block, heap.physical (blockFreeField block) ≠ none → block + sizeofBlockHeader + size ≤ 2 ^ 64

theorem pages_of_physical {address : ℕ} (looked : heap.physical address ≠ none) :
    heap.pages (pageOf address) ≠ none := by
  intro unmapped
  rw [physical, unmapped] at looked
  exact looked rfl

theorem Upper.next (upper : heap.Upper) (grows : heap.GrowsBy after count answer) :
    after.Upper := by
  have current := upper.heapCurrent
  constructor
  · rcases grows.heapCurrent with same | further
    · rwa [same]
    · rw [further]
      omega
  · intro page mapped
    rcases grows.pages page mapped with before | ⟨j, _, rfl⟩
    · exact upper.pages page before
    · exact Nat.div_le_div_right (by omega)

/-- A block that is handed out lies behind the start of the heap. -/
theorem Upper.block (upper : heap.Upper) (grows : heap.GrowsBy after count answer)
    (room : heap.Accommodates size) {pointer : ℕ} (isAnswer : answer = some pointer) {i : ℕ}
    (inside : i < size) : heapStart ≤ pointer + i ∧ pointer + i < 2 ^ 64 := by
  rcases room with ⟨behind, inHeap⟩
  have current := upper.heapCurrent
  rcases grows.answer pointer isAnswer with ⟨block, looked, rfl⟩ | rfl
  · have ends := inHeap block looked
    have lower := upper.pages _ (pages_of_physical looked)
    simp only [pageOf, blockFreeField, pageSizeVmm, heapStart, sizeofBlockHeader] at lower ends ⊢
    omega
  · simp only [sizeofBlockHeader] at behind ⊢
    omega

/-- The first page is the one at the start of the heap. -/
theorem initKheap_places {frame : ℕ} (empty : ∀ page, heap.pages page = none)
    (inits : initKheap heap frame = some (size, after)) :
    after.heapCurrent = heapStart ∧ ∀ page, after.pages page ≠ none → page = pageOf heapStart := by
  unfold initKheap at inits
  dsimp only at inits
  split at inits
  · cases inits
    exact ⟨rfl, fun page mapped => absurd (empty page) mapped⟩
  · simp only [Option.bind_eq_bind, Option.bind_eq_some_iff, pure, Option.some.injEq,
      Prod.mk.injEq] at inits
    rcases inits with ⟨written, writes, _, _, _, rfl⟩
    have same := SameMaps.of_writeHeader writes
    refine ⟨same.heapCurrent, fun page mapped => ?_⟩
    rw [same.pages] at mapped
    by_contra elsewhere
    exact mapped ((Function.update_of_ne elsewhere _ _).trans (empty page))

theorem initKheap_upper {frame : ℕ} (empty : ∀ page, heap.pages page = none)
    (inits : initKheap heap frame = some (size, after)) : after.Upper := by
  rcases initKheap_places empty inits with ⟨current, pages⟩
  exact ⟨current.ge, fun page mapped => (pages page mapped).ge⟩

theorem initKheap_accommodates {frame wanted : ℕ} (empty : ∀ page, heap.pages page = none)
    (inits : initKheap heap frame = some (size, after)) (small : wanted ≤ pageSizeVmm) :
    after.Accommodates wanted := by
  rcases initKheap_places empty inits with ⟨current, pages⟩
  simp only [pageSizeVmm] at small
  constructor
  · simp only [current, heapStart, sizeofBlockHeader]
    omega
  · intro block looked
    have isStart := pages _ (pages_of_physical looked)
    simp only [pageOf, blockFreeField, heapStart, pageSizeVmm, sizeofBlockHeader] at isStart ⊢
    omega

end Kheap

end Goshkik

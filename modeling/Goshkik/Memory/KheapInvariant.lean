import Mathlib.Data.Finset.Erase
import Mathlib.Data.Finset.Insert
import Mathlib.Data.List.Pairwise
import Goshkik.Lib.Run
import Goshkik.Memory.KheapChain

/-!
# Runs of the kernel heap

The chain, the live blocks and the mappings agree as long as the heap lives on
its first page.  `init_kheap` maps that page at `heap_current` and does not move
`heap_current` behind it, so the first call that grows the heap maps its new
pages over the first one.  The guard below is the condition under which a call
does not get there.
-/

namespace Goshkik

open Transition

/-- The heap with the pointers that callers hold. -/
structure KheapState where
  heap : Kheap
  live : Finset ℕ

/-- The static initial values. -/
def Kheap.boot (memory : Cells) : Kheap where
  heapCurrent := heapStart
  freeList := none
  memory := memory
  pages := fun _ => none

/-- Frames that `pmm_alloc_page` may hand out: aligned, different from each other,
and not in use by the heap. -/
structure Kheap.FreshFrames (heap : Kheap) (frames : List ℕ) : Prop where
  nodup : frames.Nodup
  nonnull : 0 ∉ frames
  aligned : ∀ frame ∈ frames, pageSizeVmm ∣ frame
  unused : ∀ frame ∈ frames, ∀ page, heap.pages page ≠ some frame

/-- The size of the block behind a pointer. -/
def KheapState.payloadSize (state : KheapState) (pointer : ℕ) : ℕ :=
  state.heap.view (blockSizeField (pointer - sizeofBlockHeader))

inductive KheapCall where
  | kmalloc (size : ℕ) (frames : List ℕ) (result : Option ℕ)
  | kfree (pointer : ℕ)
  | write

/-- The calls of the heap by callers that free only what they hold, and the
writes of everyone else, which leave the heap alone outside live payloads. -/
inductive KheapStep : KheapState → KheapCall → KheapState → Prop where
  | kmalloc {state : KheapState} {size : ℕ} {frames : List ℕ} {result : Option ℕ} {heap : Kheap}
      (fuel : ℕ) (sizeBound : size < 2 ^ 64) (fresh : state.heap.FreshFrames frames)
      (returns : kmalloc fuel state.heap size frames = some (result, heap)) :
      KheapStep state (.kmalloc size frames result)
        ⟨heap, result.elim state.live (insert · state.live)⟩
  | kfree {state : KheapState} {pointer : ℕ} {heap : Kheap} (fuel : ℕ)
      (isLive : pointer ∈ state.live)
      (returns : kfree fuel state.heap (some pointer) = some heap) :
      KheapStep state (.kfree pointer) ⟨heap, state.live.erase pointer⟩
  | write {state : KheapState} {memory : Cells}
      (frame : ∀ address, (∀ pointer ∈ state.live,
          address < pointer ∨ pointer + state.payloadSize pointer ≤ address) →
        Kheap.view { state.heap with memory := memory } address = state.heap.view address) :
      KheapStep state .write ⟨{ state.heap with memory := memory }, state.live⟩

/-- The chain from `free_list` ends and tiles a range from `HEAP_START`, its used
blocks are the live ones, and live payloads do not overlap. -/
structure KheapState.WellFormed (state : KheapState) (blocks : List HeapBlock) : Prop where
  chain : Chain state.heap.view state.heap.freeList heapStart blocks none
  live : ∀ pointer, pointer ∈ state.live ↔
    (pointer, state.payloadSize pointer) ∈ usedBlocks heapStart blocks
  disjoint : ∀ pointer ∈ state.live, ∀ other ∈ state.live, pointer ≠ other →
    pointer + state.payloadSize pointer ≤ other ∨ other + state.payloadSize other ≤ pointer

/-- No page behind a block that stays live has got another frame. -/
def KheapState.BackingKept (before after : KheapState) : Prop :=
  ∀ pointer ∈ before.live, pointer ∈ after.live → ∀ address,
    pointer - sizeofBlockHeader ≤ address → address < pointer + before.payloadSize pointer →
      after.heap.pages (Kheap.pageOf address) = before.heap.pages (Kheap.pageOf address)

/-- The call finds a block in the chain, or fails before it maps a page. -/
def KheapGuard (state : KheapState) : KheapCall → Prop
  | .kmalloc size frames _ =>
      size = 0 ∨
      (∃ blocks, Chain state.heap.view state.heap.freeList heapStart blocks none ∧
        ∃ block ∈ blocks, block.Fits (roundedSize size)) ∨
      roundedSize size > 2 ^ 64 - 1 - sizeofBlockHeader ∨
      (totalSize (roundedSize size) ≠ 0 ∧ frames = [])
  | _ => True

/-- The chain describes blocks whose used ones are live. -/
structure KheapInvariant (state : KheapState) (blocks : List HeapBlock) : Prop where
  nonempty : blocks ≠ []
  holds : state.heap.Holds heapStart blocks
  live : ∀ pointer, pointer ∈ state.live ↔ ∃ size, (pointer, size) ∈ usedBlocks heapStart blocks

/-! ## Used blocks -/

/-- The payload of a used block contains no header. -/
theorem header_outside {start payload size cell : ℕ} {before behind : List HeapBlock}
    {block : HeapBlock}
    (used : (payload, size) ∈ usedBlocks start (before ++ block :: behind))
    (lower : start + span before ≤ cell)
    (upper : cell < start + span before + sizeofBlockHeader) :
    cell < payload ∨ payload + size ≤ cell := by
  simp only [usedBlocks_append, List.mem_append] at used
  rcases used with used | used
  · have := usedBlocks_bounds used
    omega
  · have := (usedBlocks_bounds used).1
    omega

/-- The header of a used block stores its size. -/
theorem Chain.size_of_used {cells : Cells} {head stop : Option ℕ} {start payload size : ℕ}
    {blocks : List HeapBlock} (chain : Chain cells head start blocks stop)
    (used : (payload, size) ∈ usedBlocks start blocks) :
    cells (blockSizeField (payload - sizeofBlockHeader)) = size := by
  rcases mem_usedBlocks used with ⟨before, behind, rfl, rfl⟩
  rcases Chain.append_iff.mp chain with ⟨_, _, _, sizeEq, _⟩
  simpa using sizeEq

/-- Chains with the same start describe the same blocks. -/
theorem Chain.unique {cells : Cells} {head : Option ℕ} {start : ℕ} {blocks others : List HeapBlock}
    (chain : Chain cells head start blocks none) (other : Chain cells head start others none) :
    blocks = others := by
  induction blocks generalizing head start others with
  | nil =>
      cases others with
      | nil => rfl
      | cons second others =>
          have headNone : head = none := chain
          simp [headNone, Chain] at other
  | cons block blocks ih =>
      cases others with
      | nil =>
          have headNone : head = none := other
          simp [headNone, Chain] at chain
      | cons second others =>
          rcases chain with ⟨_, sizeEq, freeEq, tail⟩
          rcases other with ⟨_, otherSizeEq, otherFreeEq, otherTail⟩
          have sameSize : block.size = second.size := sizeEq.symm.trans otherSizeEq
          have sameFree : block.free = second.free := by
            have same := freeEq.symm.trans otherFreeEq
            cases first : block.free <;> cases second : second.free <;> simp_all
          have sameBlock : block = second := by
            cases block
            cases second
            simp_all
          subst sameBlock
          simp only [ih tail otherTail]

/-- Serving a request turns one free block into one used block. -/
theorem mem_usedBlocks_allocated {start size : ℕ} {before behind : List HeapBlock}
    {block : HeapBlock} (free : block.free = true) (payload payloadSize : ℕ) :
    (payload, payloadSize) ∈
        usedBlocks start (before ++ (block.allocated size ++ behind)) ↔
      (payload, payloadSize) ∈ usedBlocks start (before ++ block :: behind) ∨
        (payload = start + span before + sizeofBlockHeader ∧
          payloadSize = if block.size ≤ size + sizeofBlockHeader then block.size else size) := by
  have sameSpan := block.span_allocated size
  simp only [span, Nat.add_zero] at sameSpan
  simp only [usedBlocks_append, List.mem_append, sameSpan]
  have behindEq : usedBlocks (start + span before) (block :: behind) =
      usedBlocks (start + span before + (sizeofBlockHeader + block.size)) behind := by
    simp [usedBlocks, free, Nat.add_assoc]
  simp only [behindEq]
  have served : (payload, payloadSize) ∈ usedBlocks (start + span before) (block.allocated size) ↔
      payload = start + span before + sizeofBlockHeader ∧
        payloadSize = if block.size ≤ size + sizeofBlockHeader then block.size else size := by
    simp only [HeapBlock.allocated]
    split <;> simp [usedBlocks]
  simp only [served]
  tauto

/-- Freeing turns one used block into a free one. -/
theorem mem_usedBlocks_freed {start size : ℕ} {before behind : List HeapBlock}
    (payload payloadSize : ℕ) :
    (payload, payloadSize) ∈ usedBlocks start (before ++ ⟨size, true⟩ :: behind) ↔
      (payload, payloadSize) ∈ usedBlocks start (before ++ ⟨size, false⟩ :: behind) ∧
        payload ≠ start + span before + sizeofBlockHeader := by
  have headerSize : sizeofBlockHeader = 24 := rfl
  simp only [usedBlocks_append, List.mem_append, usedBlocks, if_true, Bool.false_eq_true, if_false,
    List.mem_cons, Prod.mk.injEq]
  constructor
  · rintro (used | used)
    · have := usedBlocks_bounds used
      exact ⟨Or.inl used, by omega⟩
    · have := usedBlocks_bounds used
      exact ⟨Or.inr (Or.inr used), by omega⟩
  · rintro ⟨used | ⟨here, _⟩ | used, elsewhere⟩
    · exact Or.inl used
    · exact absurd here elsewhere
    · exact Or.inr used

theorem usedBlocks_mergeFree (start : ℕ) (blocks : List HeapBlock) :
    usedBlocks start (mergeFree blocks) = usedBlocks start blocks := by
  cases blocks with
  | nil => rfl
  | cons block blocks => exact usedBlocks_mergeOnto start block blocks

theorem mergeFree_ne_nil {blocks : List HeapBlock} (nonempty : blocks ≠ []) :
    mergeFree blocks ≠ [] := by
  cases blocks with
  | nil => exact absurd rfl nonempty
  | cons block blocks =>
      intro empty
      have spanEq := span_mergeOnto block blocks
      simp only [mergeFree] at empty
      simp only [empty, span, sizeofBlockHeader] at spanEq
      omega

/-! ## Steps -/

/-- A growth that maps no page changes nothing. -/
theorem growHeap_refused {heap : Kheap} {last : Option ℕ} {size : ℕ} {frames : List ℕ}
    (refused : size > 2 ^ 64 - 1 - sizeofBlockHeader ∨ (totalSize size ≠ 0 ∧ frames = [])) :
    growHeap heap last size frames = some (none, heap) := by
  suffices request : requestMoreMemory heap size frames = some (none, heap) by
    simp [growHeap, request]
  by_cases large : size > 2 ^ 64 - 1 - sizeofBlockHeader
  · simp only [requestMoreMemory, if_pos large]
  · rcases refused.resolve_left large with ⟨somePages, rfl⟩
    have pages : totalSize size / pageSizeVmm ≠ 0 := by
      have total : totalSize size = (size + sizeofBlockHeader + (pageSizeVmm - 1)) % 2 ^ 64 /
          2 ^ 12 * 2 ^ 12 :=
        @and_highMask _ (Nat.mod_lt _ (by decide)) 12 (by decide)
      simp only [total, pageSizeVmm] at somePages ⊢
      omega
    simp [requestMoreMemory, mapPages, pages]

namespace KheapInvariant

variable {state after : KheapState} {blocks : List HeapBlock}

theorem payloadSize_eq (invariant : KheapInvariant state blocks) {pointer size : ℕ}
    (used : (pointer, size) ∈ usedBlocks heapStart blocks) : state.payloadSize pointer = size :=
  invariant.holds.chain.size_of_used used

/-- A guarded `kmalloc` hands out an unused part of a free block, or nothing. -/
theorem kmalloc_step (invariant : KheapInvariant state blocks) {size fuel : ℕ} {frames : List ℕ}
    {result : Option ℕ} {heap : Kheap} (guard : KheapGuard state (.kmalloc size frames result))
    (returns : kmalloc fuel state.heap size frames = some (result, heap)) :
    (∃ blocks', KheapInvariant ⟨heap, result.elim state.live (insert · state.live)⟩ blocks') ∧
      heap.pages = state.heap.pages := by
  by_cases nonzero : size = 0
  · simp only [kmalloc, kheapAlloc, nonzero, if_true, Option.some.injEq, Prod.mk.injEq] at returns
    rcases returns with ⟨rfl, rfl⟩
    exact ⟨⟨blocks, invariant⟩, rfl⟩
  · rcases invariant.holds.kheapAlloc_cases nonzero frames with
      ⟨before, block, behind, taken, split, fits, _, allocates, held, same⟩ |
      ⟨unfit, front, last, split, grows⟩ | empty
    · have more := kheapAlloc_mono returns (Nat.le_add_right fuel (before.length + 1))
      simp only [allocates _ (show before.length < fuel + (before.length + 1) by omega),
        Option.some.injEq, Prod.mk.injEq] at more
      rcases more with ⟨rfl, rfl⟩
      refine ⟨⟨_, ?_, held, ?_⟩, same.pages⟩
      · intro empty
        have spanEq := block.span_allocated (roundedSize size)
        simp only [List.append_eq_nil_iff] at empty
        simp only [empty.2.1, span, sizeofBlockHeader] at spanEq
        omega
      · intro pointer
        simp only [Option.elim_some, Finset.mem_insert, invariant.live, split,
          mem_usedBlocks_allocated fits.1, exists_or, exists_and_left, exists_eq, and_true]
        tauto
    · have refused : growHeap state.heap (some (heapStart + span front)) (roundedSize size) frames =
          some (none, state.heap) := by
        apply growHeap_refused
        rcases guard with zero | ⟨others, chain, block, mem, fits⟩ | refused
        · exact absurd zero nonzero
        · have sameBlocks := chain.unique invariant.holds.chain
          exact absurd fits (unfit block (sameBlocks ▸ mem))
        · exact refused
      have more := kheapAlloc_mono returns (Nat.le_add_right fuel (front.length + 1))
      simp only [grows _ (show front.length < fuel + (front.length + 1) by omega), refused,
        Option.some.injEq, Prod.mk.injEq] at more
      rcases more with ⟨rfl, rfl⟩
      exact ⟨⟨blocks, invariant⟩, rfl⟩
    · exact absurd empty invariant.nonempty

/-- `kfree` of a live pointer makes its block free again. -/
theorem kfree_step (invariant : KheapInvariant state blocks) {pointer fuel : ℕ} {heap : Kheap}
    (isLive : pointer ∈ state.live)
    (returns : kfree fuel state.heap (some pointer) = some heap) :
    (∃ blocks', KheapInvariant ⟨heap, state.live.erase pointer⟩ blocks') ∧
      heap.pages = state.heap.pages := by
  rcases (invariant.live pointer).mp isLive with ⟨size, used⟩
  rcases mem_usedBlocks used with ⟨before, behind, rfl, rfl⟩
  rcases invariant.holds.kheapFree_spec with ⟨after, frees, held, same⟩
  have more := kheapFree_mono returns (Nat.le_add_right fuel (before.length + behind.length + 2))
  simp only [frees _ (show before.length + behind.length + 1 <
    fuel + (before.length + behind.length + 2) by omega), Option.some.injEq] at more
  subst more
  refine ⟨⟨_, mergeFree_ne_nil (by simp), held, ?_⟩, same.pages⟩
  intro other
  simp only [usedBlocks_mergeFree, mem_usedBlocks_freed, Finset.mem_erase, invariant.live,
    exists_and_right]
  tauto

/-- Writes outside the heap and into live payloads leave the chain alone. -/
theorem write_step (invariant : KheapInvariant state blocks) {memory : Cells}
    (frame : ∀ address, (∀ pointer ∈ state.live,
        address < pointer ∨ pointer + state.payloadSize pointer ≤ address) →
      Kheap.view { state.heap with memory := memory } address = state.heap.view address) :
    KheapInvariant ⟨{ state.heap with memory := memory }, state.live⟩ blocks := by
  have holds := invariant.holds
  refine ⟨invariant.nonempty, ⟨⟨holds.separate.aligned, holds.separate.injective⟩, holds.mapped, ?_,
    holds.positive, holds.bounded⟩, invariant.live⟩
  apply holds.chain.congr
  rintro before behind block rfl cell lower upper
  apply frame
  intro pointer isLive
  rcases (invariant.live pointer).mp isLive with ⟨size, used⟩
  simp only [invariant.payloadSize_eq used]
  exact header_outside used lower upper

theorem step (invariant : KheapInvariant state blocks) {call : KheapCall}
    (taken : Guarded KheapGuard KheapStep state call after) :
    (∃ blocks', KheapInvariant after blocks') ∧ after.heap.pages = state.heap.pages := by
  rcases taken with ⟨guard, taken⟩
  cases taken with
  | kmalloc fuel sizeBound fresh returns => exact invariant.kmalloc_step guard returns
  | kfree fuel isLive returns => exact invariant.kfree_step isLive returns
  | write frame => exact ⟨⟨blocks, invariant.write_step frame⟩, rfl⟩

theorem wellFormed (invariant : KheapInvariant state blocks) : state.WellFormed blocks where
  chain := invariant.holds.chain
  live := by
    intro pointer
    simp only [invariant.live]
    constructor
    · rintro ⟨size, used⟩
      simpa only [invariant.payloadSize_eq used] using used
    · exact fun used => ⟨_, used⟩
  disjoint := by
    intro pointer isLive other otherLive different
    rcases (invariant.live pointer).mp isLive with ⟨size, used⟩
    rcases (invariant.live other).mp otherLive with ⟨otherSize, otherUsed⟩
    simp only [invariant.payloadSize_eq used, invariant.payloadSize_eq otherUsed]
    have symmetric : Std.Symm (fun first second : ℕ × ℕ =>
        first.1 + first.2 ≤ second.1 ∨ second.1 + second.2 ≤ first.1) := ⟨fun _ _ => Or.symm⟩
    have apart : (usedBlocks heapStart blocks).Pairwise
        (fun first second => first.1 + first.2 ≤ second.1 ∨ second.1 + second.2 ≤ first.1) :=
      usedBlocks_disjoint.imp Or.inl
    exact apart.forall used otherUsed (by simp [different])

end KheapInvariant

/-! ## Runs -/

/-- After a successful initialisation the heap is one free block. -/
theorem initKheap_invariant {memory : Cells} {frame size : ℕ} {first : Kheap}
    (fresh : (Kheap.boot memory).FreshFrames [frame])
    (initialised : initKheap (Kheap.boot memory) frame = some (size, first)) :
    KheapInvariant ⟨first, ∅⟩ [⟨pageSizeVmm - sizeofBlockHeader, true⟩] ∧
      ∀ page, first.pages page = if page = Kheap.pageOf heapStart then some frame else none := by
  have nonnull : frame ≠ 0 := by
    rintro rfl
    exact fresh.nonnull (by simp)
  have aligned : pageSizeVmm ∣ frame := fresh.aligned frame (by simp)
  generalize mappedEq : ({ (Kheap.boot memory).map heapStart frame with
    freeList := some heapStart } : Kheap) = mapped
  have pages : ∀ page, mapped.pages page = if page = Kheap.pageOf heapStart then some frame
      else none := by
    intro page
    simp [← mappedEq, Kheap.map, Kheap.boot, Function.update_apply]
  have separate : mapped.Separate := by
    refine ⟨?_, ?_⟩
    · intro page other mapsTo
      simp only [pages, Option.ite_none_right_eq_some, Option.some.injEq] at mapsTo
      exact mapsTo.2 ▸ aligned
    · intro page other shared mapsTo otherMapsTo
      simp only [pages, Option.ite_none_right_eq_some] at mapsTo otherMapsTo
      exact mapsTo.1.trans otherMapsTo.1.symm
  have isMapped : mapped.Mapped heapStart (heapStart + pageSizeVmm) := by
    intro address lower upper
    have samePage : Kheap.pageOf address = Kheap.pageOf heapStart := by
      simp only [Kheap.pageOf, pageSizeVmm, heapStart] at *
      omega
    simp [pages, samePage]
  rcases Kheap.writeHeader_spec separate isMapped (Nat.le_refl heapStart)
      (show heapStart + sizeofBlockHeader ≤ heapStart + pageSizeVmm by decide)
      (pageSizeVmm - sizeofBlockHeader) 1 0 with
    ⟨after, written, viewEq, same, afterSeparate, afterMapped⟩
  have opened : initKheap (Kheap.boot memory) frame = (do
      let heap ← writeHeader mapped heapStart (pageSizeVmm - sizeofBlockHeader) 1 0
      return (← heap.load (blockSizeField heap.heapCurrent), heap)) := by
    simp only [initKheap, if_neg nonnull, ← mappedEq]
    rfl
  have afterEq : after = first := by
    simp only [opened, written, Option.bind_eq_bind, Option.bind_some, Option.bind_eq_some_iff,
      Option.pure_def, Option.some.injEq, Prod.mk.injEq] at initialised
    rcases initialised with ⟨_, _, _, same⟩
    exact same
  subst afterEq
  have listEq : after.freeList = some heapStart := by
    simp [same.freeList, ← mappedEq]
  refine ⟨⟨by simp, ⟨afterSeparate, afterMapped, ⟨listEq, ?_, ?_, ?_⟩, by decide, by decide⟩, ?_⟩,
    by simpa only [same.pages] using pages⟩
  · simp [viewEq, blockSizeField, blockFreeField, blockNextField]
  · simp [viewEq, blockFreeField, blockNextField]
  · simp [viewEq, Chain, Cells.pointerAt]
  · simp [usedBlocks]

/-- Every run that stays inside the guard keeps the heap well formed and never
remaps a page behind a live block. -/
theorem kheap_guarded_runs {memory : Cells} {frame size : ℕ} {first : Kheap}
    (fresh : (Kheap.boot memory).FreshFrames [frame])
    (initialised : initKheap (Kheap.boot memory) frame = some (size, first))
    {calls more : List KheapCall} {middle last : KheapState}
    (run : Run (Guarded KheapGuard KheapStep) ⟨first, ∅⟩ calls middle)
    (rest : Run (Guarded KheapGuard KheapStep) middle more last) :
    (∃ blocks, middle.WellFormed blocks) ∧ middle.BackingKept last := by
  have reached : ∃ blocks, KheapInvariant middle blocks := by
    apply run.invariant
    · rintro before call after ⟨blocks, invariant⟩ taken
      exact (invariant.step taken).1
    · exact ⟨_, (initKheap_invariant fresh initialised).1⟩
  have kept : (∃ blocks, KheapInvariant last blocks) ∧ last.heap.pages = middle.heap.pages := by
    apply rest.invariant
    · rintro before call after ⟨⟨blocks, invariant⟩, same⟩ taken
      have stepped := invariant.step taken
      exact ⟨stepped.1, stepped.2.trans same⟩
    · exact ⟨reached, rfl⟩
  rcases reached with ⟨blocks, invariant⟩
  refine ⟨⟨blocks, invariant.wellFormed⟩, ?_⟩
  intro pointer _ _ address _ _
  simp only [kept.2]

/-- A heap on frame `0x1000` that has served a request for 16 bytes. -/
theorem firstHeap_exists : ∃ first middle : Kheap,
    (Kheap.boot (fun _ => 0)).FreshFrames [0x1000] ∧
    initKheap (Kheap.boot (fun _ => 0)) 0x1000 = some (4072, first) ∧
    kmalloc 1 first 16 [] = some (some (heapStart + 24), middle) ∧
    KheapGuard ⟨first, ∅⟩ (.kmalloc 16 [] (some (heapStart + 24))) ∧
    (∀ page, middle.pages page = if page = Kheap.pageOf heapStart then some 0x1000 else none) ∧
    (kmalloc 2 middle 4096 [0x2000, 0x3000]).map (fun grown =>
      (grown.1, grown.2.pages (Kheap.pageOf heapStart))) =
        some (some (heapStart + 24), some 0x2000) := by
  have fresh : (Kheap.boot (fun _ => 0)).FreshFrames [0x1000] :=
    ⟨by simp, by simp, by simp [pageSizeVmm], by simp [Kheap.boot]⟩
  have computed : (initKheap (Kheap.boot (fun _ => 0)) 0x1000).bind (fun initialised =>
      (kmalloc 1 initialised.2 16 []).bind (fun allocated =>
        (kmalloc 2 allocated.2 4096 [0x2000, 0x3000]).map (fun grown =>
          (initialised.1, allocated.1, grown.1, grown.2.pages (Kheap.pageOf heapStart))))) =
      some (4072, some (heapStart + 24), some (heapStart + 24), some 0x2000) := by
    decide +kernel
  simp only [Option.bind_eq_some_iff, Option.map_eq_some_iff, Prod.mk.injEq] at computed
  rcases computed with
    ⟨⟨size, first⟩, initialised, ⟨result, middle⟩, allocated, ⟨grownResult, grown⟩,
    grew, rfl, rfl, rfl, remapped⟩
  rcases initKheap_invariant fresh initialised with ⟨invariant, pages⟩
  have guard : KheapGuard ⟨first, ∅⟩ (.kmalloc 16 [] (some (heapStart + 24))) :=
    Or.inr (Or.inl ⟨_, invariant.holds.chain, _, List.mem_singleton_self _, by decide⟩)
  have samePages := (invariant.kmalloc_step guard allocated).2
  refine ⟨first, middle, fresh, initialised, allocated, guard, ?_, ?_⟩
  · simpa only [samePages] using pages
  · simpa [grew] using remapped

theorem kheap_guarded_runs_firstHeap : ∃ first middle,
    initKheap (Kheap.boot (fun _ => 0)) 0x1000 = some (4072, first) ∧
    Run (Guarded KheapGuard KheapStep) ⟨first, ∅⟩
      [.kmalloc 16 [] (some (heapStart + 24))] middle ∧
    (∃ blocks, middle.WellFormed blocks) ∧ middle.BackingKept middle := by
  rcases firstHeap_exists with ⟨first, middle, fresh, initialised, allocated, guard, _, _⟩
  have run : Run (Guarded KheapGuard KheapStep) ⟨first, ∅⟩
      [.kmalloc 16 [] (some (heapStart + 24))] ⟨middle, insert (heapStart + 24) ∅⟩ :=
    .cons ⟨guard, .kmalloc 1 (by decide) ⟨by simp, by simp, by simp, by simp⟩ allocated⟩ (.nil _)
  exact ⟨first, _, initialised, run, kheap_guarded_runs fresh initialised run (.nil _)⟩

/-- The first growth maps a new frame over the page of a live block. -/
theorem kheap_growth_remaps : ∃ first middle last,
    (Kheap.boot (fun _ => 0)).FreshFrames [0x1000] ∧
    initKheap (Kheap.boot (fun _ => 0)) 0x1000 = some (4072, first) ∧
    Run KheapStep ⟨first, ∅⟩ [.kmalloc 16 [] (some (heapStart + 24))] middle ∧
    Run KheapStep middle [.kmalloc 4096 [0x2000, 0x3000] (some (heapStart + 24))] last ∧
    ¬ middle.BackingKept last := by
  rcases firstHeap_exists with ⟨first, middle, fresh, initialised, allocated, guard, pages, grows⟩
  simp only [Option.map_eq_some_iff, Prod.mk.injEq] at grows
  rcases grows with ⟨⟨result, last⟩, grew, rfl, remapped⟩
  simp only at remapped
  have middleFresh : middle.FreshFrames [0x2000, 0x3000] := by
    refine ⟨by simp, by simp, by simp [pageSizeVmm], ?_⟩
    intro frame mem page mapsTo
    simp only [pages, Option.ite_none_right_eq_some, Option.some.injEq] at mapsTo
    simp [← mapsTo.2] at mem
  refine ⟨first, ⟨middle, insert (heapStart + 24) ∅⟩, ⟨last, insert (heapStart + 24)
    (insert (heapStart + 24) ∅)⟩, fresh, initialised, ?_, ?_, ?_⟩
  · exact .cons (.kmalloc 1 (by decide) ⟨by simp, by simp, by simp, by simp⟩ allocated) (.nil _)
  · exact .cons (.kmalloc 2 (by decide) middleFresh grew) (.nil _)
  · intro kept
    have same := kept (heapStart + 24) (by simp) (by simp) heapStart (by decide) (by
      simp only [heapStart]
      omega)
    simp [remapped, pages] at same

end Goshkik
